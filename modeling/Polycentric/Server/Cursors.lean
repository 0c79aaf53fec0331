import Polycentric.Library.Keyset
import Polycentric.Server.Database

/-! Pages of a listing: cursors, the keyset queries, and `finalize_fetch`, which trims
what was fetched and says where to go on. The rows that a query is about are those that
its joins and its other conditions leave. -/
namespace Polycentric.Server

open Keyset

/-- Exclusive lower or upper bound for a query. The event id makes the ordering unique. -/
structure Marker (SortedBy : Type) where
  sortedBy : SortedBy
  eventId : Nat
  deriving DecidableEq, Repr

inductive Cursor (SortedBy : Type) where
  /-- The start of the feed. -/
  | start
  /-- Somewhere in the feed. -/
  | mid (marker : Marker SortedBy)
  /-- The end of the feed. -/
  | finish
  deriving DecidableEq, Repr

/-- Retrieve items relative to a cursor. -/
inductive CursorFilter (SortedBy : Type) where
  | forward (cursor : Cursor SortedBy)
  | backward (cursor : Cursor SortedBy)
  deriving DecidableEq, Repr

structure PageInfo (SortedBy : Type) where
  backwardCursor : Cursor SortedBy
  forwardCursor : Cursor SortedBy
  hasPreviousPage : Bool
  hasNextPage : Bool
  deriving DecidableEq, Repr

structure Fetched (Row SortedBy : Type) where
  rows : List Row
  pageInfo : PageInfo SortedBy
  deriving DecidableEq, Repr

namespace CursorFilter

variable {SortedBy : Type}

def isBackward : Option (CursorFilter SortedBy) → Bool
  | some (.backward _) => true
  | _ => false

def midCursorWasUsed : Option (CursorFilter SortedBy) → Bool
  | some (.forward (.mid _)) | some (.backward (.mid _)) => true
  | _ => false

end CursorFilter

/-- Remove any extra rows, and extract the page info. More rows than the limit were
asked for, so if they came back there is more data past the page. -/
def finalizeFetch {Row SortedBy : Type} (rows : List Row)
    (cursorFilter : Option (CursorFilter SortedBy)) (limit : Nat) (rowToMarker : Row → Marker SortedBy) :
    Fetched Row SortedBy :=
  let hasExtraRow := decide (rows.length > limit)
  let midCursorWasUsed := CursorFilter.midCursorWasUsed cursorFilter
  let (hasPreviousPage, hasNextPage) :=
    if CursorFilter.isBackward cursorFilter then (hasExtraRow, midCursorWasUsed)
    else (midCursorWasUsed, hasExtraRow)
  let rows := if CursorFilter.isBackward cursorFilter then rows.rtake limit else rows.take limit
  let backwardCursor := match rows.head?.map rowToMarker, cursorFilter with
    | some marker, _ => .mid marker
    -- Nothing precedes the previous cursor: stay there.
    | none, some (.backward cursor) => cursor
    | none, _ => .finish
  let forwardCursor := match rows.getLast?.map rowToMarker, cursorFilter with
    | some marker, _ => .mid marker
    -- Nothing precedes the previous cursor: go on from the first items.
    | none, some (.backward _) => .start
    -- Nothing follows the previous cursor: stay there.
    | none, some (.forward cursor) => cursor
    | none, none => .finish
  ⟨rows, ⟨backwardCursor, forwardCursor, hasPreviousPage, hasNextPage⟩⟩

/-! ### Keyset queries -/

/-- A query that is ordered by a column and the event id, both in the same direction.
A place is a value of the two, ordered as the rows are listed. A marker has a place if
it was made for the column. -/
structure KeysetQuery (Row SortedBy : Type) where
  Place : Type
  linear : LinearOrder Place
  place : Row → Place
  placeOf : Marker SortedBy → Option Place

namespace KeysetQuery

variable {Row SortedBy Column : Type} [LinearOrder Column]

instance (query : KeysetQuery Row SortedBy) : LinearOrder query.Place := query.linear

/-- `ORDER BY column DESC, id DESC`: a row follows a marker if its values are less. -/
def descending (column : Row → Column) (id : Row → Nat) (value : SortedBy → Option Column) :
    KeysetQuery Row SortedBy where
  Place := (Column ×ₗ Nat)ᵒᵈ
  linear := inferInstance
  place row := OrderDual.toDual (toLex (column row, id row))
  placeOf marker := (value marker.sortedBy).map fun value =>
    OrderDual.toDual (toLex (value, marker.eventId))

/-- `ORDER BY column ASC, id ASC`: a row follows a marker if its values are greater. -/
def ascending (column : Row → Column) (id : Row → Nat) (value : SortedBy → Option Column) :
    KeysetQuery Row SortedBy where
  Place := Column ×ₗ Nat
  linear := inferInstance
  place row := toLex (column row, id row)
  placeOf marker := (value marker.sortedBy).map fun value => toLex (value, marker.eventId)

variable (query : KeysetQuery Row SortedBy)

/-- One row more than the limit, for pagination. -/
def list (limit : Nat) (cursorFilter : Option (CursorFilter SortedBy)) (rows : List Row) :
    Except Status (List Row) :=
  let wrongMarker : Status :=
    ⟨.internal, "wrong combination of sort_by and pagination parameters"⟩
  match cursorFilter.getD (.forward .start) with
  | .forward .start => .ok ((listing query.place rows).take (limit + 1))
  | .forward (.mid marker) =>
      match query.placeOf marker with
      | none => .error wrongMarker
      | some place =>
          .ok ((listing query.place (following query.place place rows)).take (limit + 1))
  | .forward .finish => .ok []
  | .backward .start => .ok []
  | .backward (.mid marker) =>
      match query.placeOf marker with
      | none => .error wrongMarker
      | some place =>
          .ok ((listing query.place (preceding query.place place rows)).take (limit + 1))
  | .backward .finish => .ok ((listing query.place rows).take (limit + 1))

end KeysetQuery

def EventRow.byCreatedAt (row : EventRow) : (Int ×ₗ Nat)ᵒᵈ := OrderDual.toDual (toLex (row.createdAt, row.id))

/-- The cursor of the database library over `(created_at, id)`, descending. `last`
reads from the other end and turns the rows around. -/
def pageByCreatedAt (limit : Nat) (cursorFilter : Option (CursorFilter Int)) (rows : List EventRow) :
    List EventRow :=
  let valuesOf (marker : Marker Int) : (Int ×ₗ Nat)ᵒᵈ :=
    OrderDual.toDual (toLex (marker.sortedBy, marker.eventId))
  let last (rows : List EventRow) :=
    ((listing (fun row => OrderDual.toDual row.byCreatedAt) rows).take limit).reverse
  match cursorFilter.getD (.forward .start) with
  | .forward .start => (listing EventRow.byCreatedAt rows).take limit
  | .forward (.mid marker) =>
      (listing EventRow.byCreatedAt (following EventRow.byCreatedAt (valuesOf marker) rows)).take limit
  | .forward .finish => []
  | .backward .start => []
  | .backward (.mid marker) => last (preceding EventRow.byCreatedAt (valuesOf marker) rows)
  | .backward .finish => last rows

/-! ### The listings -/

inductive SortPostsBy where
  | default
  | top
  | latest
  deriving DecidableEq, Repr

inductive SortUsersBy where
  | default
  | alpha
  deriving DecidableEq, Repr

/-- How a feed is sorted: by creation, or by the decayed number of reactions. -/
inductive SortedBy (Count : Type) where
  | createdAt (createdAt : Int)
  | reactionCount (count : Count)
  deriving DecidableEq, Repr

inductive SortedPostsBy (Rank : Type) where
  /-- The rank that the text search returned. -/
  | rank (rank : Rank)
  | latest (createdAt : Int)
  deriving DecidableEq, Repr

inductive SortedUsersBy (Rank Name : Type) where
  | rank (rank : Rank)
  | name (name : Name)
  deriving DecidableEq, Repr

structure ExploreEvent (Count : Type) where
  event : EventRow
  reactions : Count
  deriving DecidableEq, Repr

structure FollowSuggestionEvent where
  event : EventRow
  followers : List String
  deriving DecidableEq, Repr

structure SearchPostsEvent (Rank : Type) where
  event : EventRow
  searchRank : Rank
  deriving DecidableEq, Repr

structure SearchUsersEvent (Rank Name : Type) where
  event : EventRow
  searchRank : Rank
  profileName : Name
  deriving DecidableEq, Repr

section Listings

variable {Count Rank Name : Type} [LinearOrder Count] [LinearOrder Rank] [LinearOrder Name]

/-- `explore_posts`, of the explore, the following and the recommended feed. -/
def explorePosts : SortPostsBy → KeysetQuery (ExploreEvent Count) (SortedBy Count)
  | .default | .latest =>
      .descending (fun row => row.event.createdAt) (fun row => row.event.id) fun
        | .createdAt createdAt => some createdAt
        | .reactionCount _ => none
  | .top =>
      .descending (fun row => row.reactions) (fun row => row.event.id) fun
        | .createdAt _ => none
        | .reactionCount count => some count

/-- The default suggestions have no followers and come last. -/
def suggestFollow : KeysetQuery FollowSuggestionEvent Int :=
  .descending (fun row => (row.followers.length : Int)) (fun row => row.event.id) some

/-- A search for the top posts is refused before. -/
def searchPosts (sortBy : SortPostsBy) (hSort : sortBy ≠ .top) :
    KeysetQuery (SearchPostsEvent Rank) (SortedPostsBy Rank) :=
  match sortBy, hSort with
  | .default, _ =>
      .descending (fun row => row.searchRank) (fun row => row.event.id) fun
        | .rank rank => some rank
        | .latest _ => none
  | .latest, _ =>
      .descending (fun row => row.event.createdAt) (fun row => row.event.id) fun
        | .rank _ => none
        | .latest createdAt => some createdAt

def searchUsers : SortUsersBy → KeysetQuery (SearchUsersEvent Rank Name) (SortedUsersBy Rank Name)
  | .default =>
      .descending (fun row => row.searchRank) (fun row => row.event.id) fun
        | .rank rank => some rank
        | .name _ => none
  | .alpha =>
      .ascending (fun row => row.profileName) (fun row => row.event.id) fun
        | .rank _ => none
        | .name name => some name

/-- The first stage of `get_explore_feed`, `get_following_feed` and
`get_recommended_feed`. The query adds one more to the limit. -/
def fetchPosts (sortBy : SortPostsBy) (cursorFilter : Option (CursorFilter (SortedBy Count)))
    (limit : Nat) (rows : List (ExploreEvent Count)) :
    Except Status (Fetched (ExploreEvent Count) (SortedBy Count)) := do
  let fetched ← (explorePosts sortBy).list (limit + 1) cursorFilter rows
  return finalizeFetch fetched cursorFilter limit fun row =>
    ⟨match sortBy with
      | .default | .latest => .createdAt row.event.createdAt
      | .top => .reactionCount row.reactions, row.event.id⟩

/-- The first stage of `suggest_follow`. -/
def fetchSuggestions (cursorFilter : Option (CursorFilter Int)) (limit : Nat)
    (rows : List FollowSuggestionEvent) : Except Status (Fetched FollowSuggestionEvent Int) := do
  let fetched ← suggestFollow.list limit cursorFilter rows
  return finalizeFetch fetched cursorFilter limit fun row => ⟨row.followers.length, row.event.id⟩

/-- The first stage of `search_posts`. -/
def fetchSearchPosts (sortBy : SortPostsBy) (hSort : sortBy ≠ .top)
    (cursorFilter : Option (CursorFilter (SortedPostsBy Rank))) (limit : Nat)
    (rows : List (SearchPostsEvent Rank)) :
    Except Status (Fetched (SearchPostsEvent Rank) (SortedPostsBy Rank)) := do
  let fetched ← (searchPosts sortBy hSort).list limit cursorFilter rows
  return finalizeFetch fetched cursorFilter limit fun row =>
    ⟨match sortBy, hSort with
      | .default, _ => .rank row.searchRank
      | .latest, _ => .latest row.event.createdAt, row.event.id⟩

/-- The first stage of `search_users`. -/
def fetchSearchUsers (sortBy : SortUsersBy)
    (cursorFilter : Option (CursorFilter (SortedUsersBy Rank Name))) (limit : Nat)
    (rows : List (SearchUsersEvent Rank Name)) :
    Except Status (Fetched (SearchUsersEvent Rank Name) (SortedUsersBy Rank Name)) := do
  let fetched ← (searchUsers sortBy).list limit cursorFilter rows
  return finalizeFetch fetched cursorFilter limit fun row =>
    ⟨match sortBy with
      | .default => .rank row.searchRank
      | .alpha => .name row.profileName, row.event.id⟩

/-- `do_list_feed_events`, over the posts with the attributed URL if there is one. -/
def doListFeedEvents (limit : Nat) (onlyIdentities : Option (List String))
    (cursorFilter : Option (CursorFilter Int)) (rows : List EventRow) : List EventRow :=
  match onlyIdentities with
  | some [] => []
  | some identities =>
      pageByCreatedAt limit cursorFilter (rows.filter fun row => row.key.identity ∈ identities)
  | none => pageByCreatedAt limit cursorFilter rows

/-- `page_follow_events`, of the followers and of those that are followed. -/
def pageFollowEvents (limit : Nat) (cursorFilter : Option (CursorFilter Int)) (rows : List EventRow) :
    List EventRow := pageByCreatedAt limit cursorFilter rows

def createEventCreatedAtMarker (row : EventRow) : Marker Int := ⟨row.createdAt, row.id⟩

/-- The first stage of `get_identity_feed` and of `get_attribution_feed`. -/
def fetchFeedEvents (onlyIdentities : Option (List String)) (cursorFilter : Option (CursorFilter Int))
    (limit : Nat) (rows : List EventRow) : Fetched EventRow Int :=
  finalizeFetch (doListFeedEvents (limit + 1) onlyIdentities cursorFilter rows) cursorFilter limit
    createEventCreatedAtMarker

/-- The first stage of `list_follows`. -/
def fetchFollowEvents (cursorFilter : Option (CursorFilter Int)) (limit : Nat) (rows : List EventRow) :
    Fetched EventRow Int :=
  finalizeFetch (pageFollowEvents (limit + 1) cursorFilter rows) cursorFilter limit
    createEventCreatedAtMarker

end Listings

end Polycentric.Server

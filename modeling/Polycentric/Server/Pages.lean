import Polycentric.Server.Cursors

/-! Going through a listing page by page. Forward pages tile it. A backward page is
taken from the start of what precedes its marker, so it is the one next to the marker
only near the start of the listing. -/
namespace Polycentric.Server

open Keyset

variable {Row SortedBy : Type}

/-! ### Backward -/

namespace KeysetQuery

variable (query : KeysetQuery Row SortedBy)

/-- The rows that precede a place, in the order of the listing. -/
def before (place : query.Place) (rows : List Row) : List Row :=
  preceding query.place place (listing query.place rows)

/-- The page of at most `limit` rows right before a place, and whether there is more. -/
def Adjacent (place : query.Place) (limit : Nat) (rows : List Row)
    (result : Except Status (Fetched Row SortedBy)) : Prop :=
  ∃ fetched, result = .ok fetched ∧ fetched.rows = (query.before place rows).rtake limit ∧
    (fetched.pageInfo.hasPreviousPage = true ↔ limit < (query.before place rows).length)

variable {query} {marker : Marker SortedBy} {place : query.Place} {rows : List Row} {limit fetchLimit : Nat}

/-- Reading one more than `fetchLimit` from the top, and trimming to the limit from there. -/
theorem adjacent_iff (hNodup : (rows.map query.place).Nodup) (hPlace : query.placeOf marker = some place)
    (hLimit : 1 ≤ limit) (hOver : limit ≤ fetchLimit) (rowToMarker : Row → Marker SortedBy) :
    query.Adjacent place limit rows (do
        let fetched ← query.list fetchLimit (some (.backward (.mid marker))) rows
        return finalizeFetch fetched (some (.backward (.mid marker))) limit rowToMarker) ↔
      (query.before place rows).length ≤ fetchLimit + 1 := by
  have hList : query.list fetchLimit (some (.backward (.mid marker))) rows =
      .ok ((query.before place rows).take (fetchLimit + 1)) := by
    unfold list before preceding
    simp only [Option.getD_some, hPlace, listing_filter hNodup]
  have hBefore : (query.before place rows).Nodup :=
    (List.Pairwise.filter _ (listing_ascending hNodup)).imp fun hLt hEq => hLt.ne (by rw [hEq])
  rw [← rtake_take_eq_iff hBefore hLimit (hOver.trans (Nat.le_succ fetchLimit)), hList]
  constructor
  · rintro ⟨fetched, hOk, hRows, -⟩
    obtain rfl := Except.ok.inj hOk
    exact hRows
  · intro hRows
    refine ⟨_, rfl, hRows, ?_⟩
    show decide (((query.before place rows).take (fetchLimit + 1)).length > limit) = true ↔ _
    rw [decide_eq_true_iff, List.length_take]
    omega

end KeysetQuery

/-! ### Rows with an id of their own -/

section Ids

variable {Column : Type} [LinearOrder Column] {column : Row → Column} {id : Row → Nat}
  {value : SortedBy → Option Column} {rows : List Row}

theorem nodup_descending (hNodup : (rows.map id).Nodup) :
    (rows.map (KeysetQuery.descending column id value).place).Nodup :=
  nodup_of_part (fun place : (Column ×ₗ Nat)ᵒᵈ => (ofLex (OrderDual.ofDual place)).2) hNodup

theorem nodup_ascending (hNodup : (rows.map id).Nodup) :
    (rows.map (KeysetQuery.ascending column id value).place).Nodup :=
  nodup_of_part (fun place : Column ×ₗ Nat => (ofLex place).2) hNodup

end Ids

section Listings

variable {Count Rank Name : Type} [LinearOrder Count] [LinearOrder Rank] [LinearOrder Name]

theorem nodup_explorePosts (sortBy : SortPostsBy) {rows : List (ExploreEvent Count)}
    (hNodup : (rows.map fun row => row.event.id).Nodup) : (rows.map (explorePosts sortBy).place).Nodup := by
  cases sortBy with
  | default => exact nodup_descending hNodup
  | top => exact nodup_descending hNodup
  | latest => exact nodup_descending hNodup

theorem nodup_suggestFollow {rows : List FollowSuggestionEvent}
    (hNodup : (rows.map fun row => row.event.id).Nodup) : (rows.map suggestFollow.place).Nodup :=
  nodup_descending hNodup

theorem nodup_searchPosts (sortBy : SortPostsBy) (hSort : sortBy ≠ .top)
    {rows : List (SearchPostsEvent Rank)} (hNodup : (rows.map fun row => row.event.id).Nodup) :
    (rows.map (searchPosts sortBy hSort).place).Nodup := by
  cases sortBy with
  | default => exact nodup_descending hNodup
  | top => exact absurd rfl hSort
  | latest => exact nodup_descending hNodup

theorem nodup_searchUsers (sortBy : SortUsersBy) {rows : List (SearchUsersEvent Rank Name)}
    (hNodup : (rows.map fun row => row.event.id).Nodup) : (rows.map (searchUsers sortBy).place).Nodup := by
  cases sortBy with
  | default => exact nodup_descending hNodup
  | alpha => exact nodup_ascending hNodup

/-- A backward page is the one right before its marker exactly if no more rows precede
the marker than were fetched. -/
theorem backward_pages_adjacent_iff (limit : Nat) (hLimit : 1 ≤ limit) :
    (∀ sortBy marker place (rows : List (ExploreEvent Count)),
      (rows.map fun row => row.event.id).Nodup → (explorePosts sortBy).placeOf marker = some place →
      ((explorePosts sortBy).Adjacent place limit rows
          (fetchPosts sortBy (some (.backward (.mid marker))) limit rows) ↔
        ((explorePosts sortBy).before place rows).length ≤ limit + 2)) ∧
    (∀ marker place rows,
      (rows.map fun row => row.event.id).Nodup → suggestFollow.placeOf marker = some place →
      (suggestFollow.Adjacent place limit rows
          (fetchSuggestions (some (.backward (.mid marker))) limit rows) ↔
        (suggestFollow.before place rows).length ≤ limit + 1)) ∧
    (∀ sortBy hSort marker place (rows : List (SearchPostsEvent Rank)),
      (rows.map fun row => row.event.id).Nodup →
      (searchPosts sortBy hSort).placeOf marker = some place →
      ((searchPosts sortBy hSort).Adjacent place limit rows
          (fetchSearchPosts sortBy hSort (some (.backward (.mid marker))) limit rows) ↔
        ((searchPosts sortBy hSort).before place rows).length ≤ limit + 1)) ∧
    ∀ sortBy marker place (rows : List (SearchUsersEvent Rank Name)),
      (rows.map fun row => row.event.id).Nodup → (searchUsers sortBy).placeOf marker = some place →
      ((searchUsers sortBy).Adjacent place limit rows
          (fetchSearchUsers sortBy (some (.backward (.mid marker))) limit rows) ↔
        ((searchUsers sortBy).before place rows).length ≤ limit + 1) := by
  refine ⟨fun sortBy marker place rows hNodup hPlace => ?_, fun marker place rows hNodup hPlace => ?_,
    fun sortBy hSort marker place rows hNodup hPlace => ?_,
    fun sortBy marker place rows hNodup hPlace => ?_⟩
  · exact KeysetQuery.adjacent_iff (nodup_explorePosts sortBy hNodup) hPlace hLimit (Nat.le_succ limit) _
  · exact KeysetQuery.adjacent_iff (nodup_descending hNodup) hPlace hLimit le_rfl _
  · exact KeysetQuery.adjacent_iff (nodup_searchPosts sortBy hSort hNodup) hPlace hLimit le_rfl _
  · exact KeysetQuery.adjacent_iff (nodup_searchUsers sortBy hNodup) hPlace hLimit le_rfl _

/-- A suggestion without followers. -/
def defaultSuggestion (id : Nat) : FollowSuggestionEvent :=
  ⟨⟨id, ⟨0, "polycentric.io", 0, [], 0⟩, none, [], [], 0⟩, []⟩

/-- Two rows precede the marker, and the nearer one is the page. -/
theorem backward_pages_adjacent_near :
    suggestFollow.Adjacent (OrderDual.toDual (toLex (0, 1))) 1 ([1, 2, 3].map defaultSuggestion)
      (fetchSuggestions (some (.backward (.mid ⟨0, 1⟩))) 1 ([1, 2, 3].map defaultSuggestion)) :=
  ((@backward_pages_adjacent_iff Nat Nat Nat _ _ _ 1 le_rfl).2.1 ⟨0, 1⟩ _
    ([1, 2, 3].map defaultSuggestion) (by decide) rfl).mpr (by decide +kernel)

/-- Three rows precede the marker, and the page is the second of them, not the last. -/
theorem backward_pages_not_adjacent :
    ¬ ∀ limit, 1 ≤ limit → ∀ marker place rows, (rows.map fun row => row.event.id).Nodup →
      suggestFollow.placeOf marker = some place →
      suggestFollow.Adjacent place limit rows
        (fetchSuggestions (some (.backward (.mid marker))) limit rows) := by
  intro hAdjacent
  have hNodup : (([1, 2, 3, 4].map defaultSuggestion).map fun row => row.event.id).Nodup := by decide
  have hPage := hAdjacent 1 le_rfl ⟨0, 1⟩ _ ([1, 2, 3, 4].map defaultSuggestion) hNodup rfl
  have hNear := (KeysetQuery.adjacent_iff (nodup_descending hNodup) rfl le_rfl le_rfl _).mp hPage
  revert hNear
  decide +kernel

/-! ### Forward -/

/-- Following the forward cursor as long as there is a next page, with a limit for
every page. -/
def readForward (fetch : Option (CursorFilter SortedBy) → Nat → Except Status (Fetched Row SortedBy))
    (limits : Nat → Nat) : Nat → Nat → Cursor SortedBy → Option (List Row)
  | 0, _, _ => none
  | fuel + 1, page, cursor =>
      match fetch (some (.forward cursor)) (limits page) with
      | .error _ => none
      | .ok fetched =>
          if fetched.pageInfo.hasNextPage then
            (readForward fetch limits fuel (page + 1) fetched.pageInfo.forwardCursor).map
              (fetched.rows ++ ·)
          else some fetched.rows

/-- The cursor after the rows that were read. -/
def CursorAfter (mark : Row → Marker SortedBy) (front : List Row) (cursor : Cursor SortedBy) : Prop :=
  (front = [] ∧ cursor = .start) ∨ ∃ last, front.getLast? = some last ∧ cursor = .mid (mark last)

/-- A page is trimmed to the limit, and the cursor is after it. -/
theorem finalizeFetch_forward (rest : List Row) (cursor : Cursor SortedBy) {limit fetchLimit : Nat}
    (hOver : limit < fetchLimit) (mark : Row → Marker SortedBy) :
    let fetched := finalizeFetch (rest.take fetchLimit) (some (.forward cursor)) limit mark
    fetched.rows = rest.take limit ∧ (fetched.pageInfo.hasNextPage = true ↔ limit < rest.length) ∧
      ∀ last, (rest.take limit).getLast? = some last → fetched.pageInfo.forwardCursor = .mid (mark last) := by
  have hRows : (rest.take fetchLimit).take limit = rest.take limit := by
    rw [List.take_take, Nat.min_eq_left hOver.le]
  refine ⟨hRows, ?_, fun last hLast => ?_⟩
  · show decide ((rest.take fetchLimit).length > limit) = true ↔ _
    rw [decide_eq_true_iff, List.length_take]
    omega
  · simp [finalizeFetch, CursorFilter.isBackward, hRows, hLast]

/-- Pages that are the next rows after the cursor tile what is left. -/
theorem readForward_eq {fetch : Option (CursorFilter SortedBy) → Nat → Except Status (Fetched Row SortedBy)}
    (mark : Row → Marker SortedBy) (fetchLimit : Nat → Nat) {listed : List Row}
    (hOver : ∀ limit, limit < fetchLimit limit)
    (hFetch : ∀ front rest cursor limit, listed = front ++ rest → CursorAfter mark front cursor →
      fetch (some (.forward cursor)) limit =
        .ok (finalizeFetch (rest.take (fetchLimit limit)) (some (.forward cursor)) limit mark))
    {limits : Nat → Nat} (hLimits : ∀ page, 1 ≤ limits page) {fuel : Nat} {front rest : List Row}
    (page : Nat) {cursor : Cursor SortedBy} (hListed : listed = front ++ rest)
    (hCursor : CursorAfter mark front cursor) (hFuel : rest.length < fuel) :
    readForward fetch limits fuel page cursor = some rest := by
  induction fuel generalizing front rest page cursor with
  | zero => exact absurd hFuel (Nat.not_lt_zero _)
  | succ fuel ih =>
      obtain ⟨hRows, hNext, hForward⟩ :=
        finalizeFetch_forward rest cursor (hOver (limits page)) mark
      rw [readForward, hFetch front rest cursor (limits page) hListed hCursor]
      dsimp only
      rw [hRows]
      have hPos := hLimits page
      by_cases hMore : limits page < rest.length
      · rw [if_pos (hNext.mpr hMore)]
        have hSome : rest.take (limits page) ≠ [] :=
          List.ne_nil_of_length_pos (by rw [List.length_take]; omega)
        have hLast := List.getLast?_eq_some_getLast hSome
        have hSplit : listed = (front ++ rest.take (limits page)) ++ rest.drop (limits page) := by
          rw [List.append_assoc, List.take_append_drop, hListed]
        have hAfter : CursorAfter mark (front ++ rest.take (limits page))
            (.mid (mark ((rest.take (limits page)).getLast hSome))) :=
          Or.inr ⟨_, by rw [List.getLast?_append, hLast, Option.some_or], rfl⟩
        have hRest := ih (page + 1) hSplit hAfter (by rw [List.length_drop]; omega)
        rw [hForward _ hLast, hRest, Option.map_some, List.take_append_drop]
      · rw [if_neg fun h => hMore (hNext.mp h), List.take_of_length_le (Nat.le_of_not_lt hMore)]

/-- A forward page begins after the marker of the last row that was read. -/
theorem KeysetQuery.list_forward (query : KeysetQuery Row SortedBy) {rows : List Row}
    (hNodup : (rows.map query.place).Nodup) {mark : Row → Marker SortedBy}
    (hMark : ∀ row, query.placeOf (mark row) = some (query.place row)) {front rest : List Row}
    {cursor : Cursor SortedBy} (limit : Nat) (hListed : listing query.place rows = front ++ rest)
    (hCursor : CursorAfter mark front cursor) :
    query.list limit (some (.forward cursor)) rows = .ok (rest.take (limit + 1)) := by
  rcases hCursor with ⟨rfl, rfl⟩ | ⟨last, hLast, rfl⟩
  · unfold list
    simp only [Option.getD_some]
    rw [hListed, List.nil_append]
  · unfold list
    simp only [Option.getD_some, hMark]
    rw [following_listing hNodup hListed hLast]

/-- A forward page of events begins after the last event that was read. -/
theorem pageByCreatedAt_forward {rows : List EventRow} (hNodup : (rows.map EventRow.byCreatedAt).Nodup)
    {front rest : List EventRow} {cursor : Cursor Int} (limit : Nat)
    (hListed : listing EventRow.byCreatedAt rows = front ++ rest)
    (hCursor : CursorAfter createEventCreatedAtMarker front cursor) :
    pageByCreatedAt limit (some (.forward cursor)) rows = rest.take limit := by
  rcases hCursor with ⟨rfl, rfl⟩ | ⟨last, hLast, rfl⟩
  · unfold pageByCreatedAt
    simp only [Option.getD_some]
    rw [hListed, List.nil_append]
  · unfold pageByCreatedAt
    simp only [Option.getD_some]
    exact congrArg (List.take limit) (following_listing hNodup hListed hLast)

/-- Following the forward cursors of a keyset query. -/
theorem KeysetQuery.readForward_eq (query : KeysetQuery Row SortedBy) {rows : List Row}
    (hNodup : (rows.map query.place).Nodup) (mark : Row → Marker SortedBy)
    (hMark : ∀ row, query.placeOf (mark row) = some (query.place row)) (more : Nat)
    {limits : Nat → Nat} (hLimits : ∀ page, 1 ≤ limits page) :
    readForward (fun cursorFilter limit => do
        let fetched ← query.list (limit + more) cursorFilter rows
        return finalizeFetch fetched cursorFilter limit mark) limits (rows.length + 1) 0 .start =
      some (listing query.place rows) := by
  have hStart : listing query.place rows = [] ++ listing query.place rows := rfl
  refine Server.readForward_eq mark (fun limit => limit + more + 1) (fun limit => by omega) ?_ hLimits 0
    hStart (Or.inl ⟨rfl, rfl⟩) ?_
  · intro front rest cursor limit hListed hCursor
    rw [query.list_forward hNodup hMark (limit + more) hListed hCursor]
    rfl
  · rw [(listing_perm rows).length_eq]
    exact Nat.lt_succ_self _

theorem nodup_byCreatedAt {rows : List EventRow} (hNodup : (rows.map EventRow.id).Nodup) :
    (rows.map EventRow.byCreatedAt).Nodup :=
  nodup_of_part (fun place : (Int ×ₗ Nat)ᵒᵈ => (ofLex (OrderDual.ofDual place)).2) hNodup

/-- Reading forward lists every event once. -/
theorem readForward_events {rows : List EventRow} (hNodup : (rows.map EventRow.id).Nodup)
    {limits : Nat → Nat} (hLimits : ∀ page, 1 ≤ limits page) {fuel : Nat} (hFuel : rows.length < fuel) :
    readForward (fun cursorFilter limit => .ok (finalizeFetch
        (pageByCreatedAt (limit + 1) cursorFilter rows) cursorFilter limit createEventCreatedAtMarker))
        limits fuel 0 .start =
      some (listing EventRow.byCreatedAt rows) := by
  have hPlaces := nodup_byCreatedAt hNodup
  have hStart : listing EventRow.byCreatedAt rows = [] ++ listing EventRow.byCreatedAt rows := rfl
  refine readForward_eq createEventCreatedAtMarker (fun limit => limit + 1)
    (fun limit => Nat.lt_succ_self limit) ?_ hLimits 0 hStart (Or.inl ⟨rfl, rfl⟩) ?_
  · intro front rest cursor limit hListed hCursor
    rw [pageByCreatedAt_forward hPlaces (limit + 1) hListed hCursor]
  · rw [(listing_perm rows).length_eq]
    exact hFuel

theorem pageByCreatedAt_nil (limit : Nat) (cursorFilter : Option (CursorFilter Int)) :
    pageByCreatedAt limit cursorFilter [] = [] := by
  unfold pageByCreatedAt
  generalize cursorFilter.getD (.forward .start) = filter
  cases filter with
  | forward cursor => cases cursor <;> simp [listing, following]
  | backward cursor => cases cursor <;> simp [listing, preceding]

/-- Listing the events of some identities is listing the events that are theirs. -/
theorem doListFeedEvents_eq (limit : Nat) (onlyIdentities : Option (List String))
    (cursorFilter : Option (CursorFilter Int)) (rows : List EventRow) :
    doListFeedEvents limit onlyIdentities cursorFilter rows =
      pageByCreatedAt limit cursorFilter
        (rows.filter fun row => ∀ identities ∈ onlyIdentities, row.key.identity ∈ identities) := by
  cases onlyIdentities with
  | none => simp [doListFeedEvents]
  | some identities =>
      cases identities with
      | nil =>
          have hNone : (rows.filter fun row => ∀ identities ∈ some ([] : List String),
              row.key.identity ∈ identities) = [] := by simp
          rw [hNone, pageByCreatedAt_nil]
          rfl
      | cons identity identities => simp [doListFeedEvents]

/-- Every row was read exactly once, in the order of its place. -/
def Tiles {Key : Type} [LinearOrder Key] (place : Row → Key) (rows : List Row)
    (read : Option (List Row)) : Prop :=
  ∃ listed, read = some listed ∧ listed.Perm rows ∧ Ascending place listed

/-- What reads as the listing tiles the rows. -/
theorem tiles_listing {Key : Type} [LinearOrder Key] {place : Row → Key} {rows : List Row}
    {read : Option (List Row)} (hNodup : (rows.map place).Nodup)
    (hRead : read = some (listing place rows)) : Tiles place rows read :=
  ⟨listing place rows, hRead, listing_perm rows, listing_ascending hNodup⟩

/-- Forward pages tile the listing, whatever the limits are. -/
theorem forward_pages_tile (limits : Nat → Nat) (hLimits : ∀ page, 1 ≤ limits page) :
    (∀ sortBy (rows : List (ExploreEvent Count)), (rows.map fun row => row.event.id).Nodup →
      Tiles (explorePosts sortBy).place rows
        (readForward (fetchPosts sortBy · · rows) limits (rows.length + 1) 0 .start)) ∧
    (∀ onlyIdentities rows, (rows.map EventRow.id).Nodup →
      Tiles EventRow.byCreatedAt
        (rows.filter fun row => ∀ identities ∈ onlyIdentities, row.key.identity ∈ identities)
        (readForward (fun cursorFilter limit => .ok (fetchFeedEvents onlyIdentities cursorFilter limit rows))
          limits (rows.length + 1) 0 .start)) ∧
    (∀ rows, (rows.map EventRow.id).Nodup →
      Tiles EventRow.byCreatedAt rows
        (readForward (fun cursorFilter limit => .ok (fetchFollowEvents cursorFilter limit rows))
          limits (rows.length + 1) 0 .start)) ∧
    ∀ rows, (rows.map fun row => row.event.id).Nodup →
      Tiles suggestFollow.place rows
        (readForward (fetchSuggestions · · rows) limits (rows.length + 1) 0 .start) := by
  refine ⟨fun sortBy rows hNodup => ?_, fun onlyIdentities rows hNodup => ?_, fun rows hNodup => ?_,
    fun rows hNodup => ?_⟩
  · have hPlaces := nodup_explorePosts sortBy hNodup
    apply tiles_listing hPlaces
    refine (explorePosts sortBy).readForward_eq hPlaces _ (fun row => ?_) 1 hLimits
    cases sortBy <;> rfl
  · have hListed := hNodup.sublist ((List.filter_sublist (p := fun row : EventRow =>
      ∀ identities ∈ onlyIdentities, row.key.identity ∈ identities) (l := rows)).map EventRow.id)
    have hRead := readForward_events hListed hLimits
      (Nat.lt_succ_of_le (List.length_filter_le _ rows))
    simp only [← doListFeedEvents_eq] at hRead
    exact tiles_listing (nodup_byCreatedAt hListed) hRead
  · exact tiles_listing (nodup_byCreatedAt hNodup) (readForward_events hNodup hLimits (Nat.lt_succ_self _))
  · have hPlaces := nodup_suggestFollow hNodup
    apply tiles_listing hPlaces
    exact suggestFollow.readForward_eq hPlaces (fun row => ⟨row.followers.length, row.event.id⟩)
      (fun _ => rfl) 0 hLimits

/-- Ties are read once each, with limits that grow. -/
theorem forward_pages_tile_ties :
    Tiles suggestFollow.place ([1, 2, 3, 4].map defaultSuggestion)
      (readForward (fetchSuggestions · · ([1, 2, 3, 4].map defaultSuggestion)) (fun page => page + 1) 5 0
        .start) :=
  (@forward_pages_tile Nat _ (fun page => page + 1) fun _ => Nat.succ_pos _).2.2.2
    ([1, 2, 3, 4].map defaultSuggestion) (by decide)

end Listings

end Polycentric.Server

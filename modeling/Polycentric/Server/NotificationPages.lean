import Polycentric.Common.ContentId
import Polycentric.Library.Keyset
import Polycentric.Server.Database

/-! `list_notifications`. A page is cut before the hidden notifications are removed,
and its end cursor is taken after. -/
namespace Polycentric.Server

open Keyset

/-- A row of `notification`. A notification without a target event has an empty
target key. -/
structure NotificationRow where
  id : Int
  kind : Int
  fromIdentity : String
  toIdentity : String
  triggerKey : EventKeyParts
  targetEventKey : EventKeyParts
  deriving DecidableEq, Repr

def NotificationRow.targetKey (row : NotificationRow) : Option EventKeyParts :=
  if row.targetEventKey.identity.isEmpty then none else some row.targetEventKey

/-- A label event: the event that it labels, and the values. -/
structure LabelRow where
  eventKey : EventKeyParts
  labelValues : List String
  deriving DecidableEq, Repr

structure ListNotificationsRequest where
  identity : String
  first : Option Nat
  after : Option String
  omitLabels : List String
  deriving DecidableEq, Repr

structure NotificationPageInfo where
  startCursor : String
  endCursor : String
  hasNextPage : Bool
  hasPreviousPage : Bool
  deriving DecidableEq, Repr

structure Notification where
  triggerEvent : EventRow
  targetEvent : Option EventRow
  kind : Int
  deriving DecidableEq, Repr

structure ListNotificationsResponse where
  notifications : List Notification
  pageInfo : NotificationPageInfo
  deriving DecidableEq, Repr

/-- What a request reads: the notifications, the events, the label events of the
trusted moderator in the order in which they are listed, and whom the caller blocks. -/
structure NotificationStore where
  notification : List NotificationRow
  event : List EventRow
  label : List LabelRow
  blocked : List String
  deriving DecidableEq, Repr

namespace ListNotifications

def defaultLimit : Nat := 50
def maxLimit : Nat := 200

structure Params where
  identity : String
  limit : Nat
  afterId : Option Int
  omitLabels : List String
  deriving DecidableEq, Repr

structure Fetched where
  rows : List NotificationRow
  hasNextPage : Bool
  hasPreviousPage : Bool
  deriving DecidableEq, Repr

/-- `has_matching_label`: the first label event for the key decides. -/
def hasMatchingLabel (labels : List LabelRow) (key : EventKeyParts) (omitted : List String) : Bool :=
  match labels.find? fun label => label.eventKey = key with
  | some label => label.labelValues.any fun value => omitted.contains value
  | none => false

/-- Newest first. -/
def newestFirst (row : NotificationRow) : Intᵒᵈ := OrderDual.toDual row.id

/-- Notifications addressed to the identity, newest first. -/
def listForIdentity (store : NotificationStore) (toIdentity : String) (limit : Nat)
    (afterId : Option Int) : List NotificationRow :=
  let rows := store.notification.filter fun row => row.toIdentity = toIdentity
  let rows := match afterId with
    | some after => following newestFirst (OrderDual.toDual after) rows
    | none => rows
  (listing newestFirst rows).take limit

/-- One row more is fetched, to know whether there is a next page. -/
def fetch (store : NotificationStore) (params : Params) : Fetched :=
  let raw := listForIdentity store params.identity (params.limit + 1) params.afterId
  ⟨raw.take params.limit, decide (raw.length > params.limit), params.afterId.isSome⟩

/-- The label events for the trigger events of a page. -/
def triggerLabels (store : NotificationStore) (rows : List NotificationRow) : List LabelRow :=
  store.label.filter fun label => rows.any fun row => label.eventKey = row.triggerKey

def filter (store : NotificationStore) (params : Params) (fetched : Fetched) : Fetched :=
  let labels := triggerLabels store fetched.rows
  let isOmitLabeled (row : NotificationRow) : Bool :=
    !params.omitLabels.isEmpty && hasMatchingLabel labels row.triggerKey params.omitLabels
  { fetched with
    rows := fetched.rows.filter fun row => !store.blocked.contains row.fromIdentity && !isOmitLabeled row }

/-- The stored event with the key. -/
def bundle (store : NotificationStore) (key : EventKeyParts) : Option EventRow :=
  store.event.find? fun row => row.key = key

/-- A notification whose trigger event can no longer be resolved is dropped. -/
def toNotification (store : NotificationStore) (row : NotificationRow) : Option Notification := do
  let triggerEvent ← bundle store row.triggerKey
  return ⟨triggerEvent, row.targetKey.bind (bundle store), row.kind⟩

def cursorOf (row : Option NotificationRow) : String := (row.map fun row => row.id.repr).getD ""

def view (store : NotificationStore) (fetched : Fetched) : ListNotificationsResponse where
  notifications := fetched.rows.filterMap (toNotification store)
  pageInfo := ⟨cursorOf fetched.rows.head?, cursorOf fetched.rows.getLast?, fetched.hasNextPage,
    fetched.hasPreviousPage⟩

/-- `str::parse::<i64>`: a sign may stand before the digits. The ids are not bounded here, and
neither is the number. -/
def parseI64 : List Char → Option Int
  | '-' :: digits => (parseDigits digits).map fun n : Nat => -(n : Int)
  | '+' :: digits => (parseDigits digits).map Int.ofNat
  | digits => (parseDigits digits).map Int.ofNat

/-- The cursor is the id of the last notification of the previous page. -/
def afterId (after : Option String) : Except Status (Option Int) :=
  match after with
  | none => .ok none
  | some cursor =>
      if cursor = "" then .ok none
      else
        match parseI64 cursor.toList with
        | some id => .ok (some id)
        | none => .error ⟨.invalidArgument, "invalid cursor"⟩

def handle (store : NotificationStore) (req : ListNotificationsRequest) :
    Except Status ListNotificationsResponse := do
  if req.identity.isEmpty then throw ⟨.invalidArgument, "identity is required"⟩
  let afterId ← afterId req.after
  let limit := max 1 (min maxLimit (req.first.getD defaultLimit))
  let params := Params.mk req.identity limit afterId req.omitLabels
  return view store (filter store params (fetch store params))

/-! ### Reading page by page -/

/-- Passing the end cursor on as long as there is a next page. -/
def readAll (store : NotificationStore) (req : ListNotificationsRequest) : Nat → Option (List Notification)
  | 0 => none
  | fuel + 1 =>
      match handle store req with
      | .error _ => none
      | .ok response =>
          if response.pageInfo.hasNextPage then
            (readAll store { req with after := some response.pageInfo.endCursor } fuel).map
              (response.notifications ++ ·)
          else some response.notifications

section Reading

variable (store : NotificationStore) (req : ListNotificationsRequest)

/-- Whether the filter keeps a notification. -/
def kept (row : NotificationRow) : Bool :=
  !store.blocked.contains row.fromIdentity &&
    !(!req.omitLabels.isEmpty && hasMatchingLabel store.label row.triggerKey req.omitLabels)

def pageSize : Nat := max 1 (min maxLimit (req.first.getD defaultLimit))

/-- The notifications of the identity, newest first. -/
def listed : List NotificationRow :=
  listing newestFirst (store.notification.filter fun row => row.toIdentity = req.identity)

/-- Those that are to be returned. -/
def visible (rows : List NotificationRow) : List Notification :=
  (rows.filter (kept store req)).filterMap (toNotification store)

/-- No page of hidden notifications has another notification after it. -/
def NoHiddenPage : Prop :=
  ∀ front page rest, listed store req = front ++ page ++ rest → page.length = pageSize req →
    (∀ row ∈ page, kept store req row = false) → rest = []

end Reading

/-! ### A page -/

/-- Whether a notification is omitted does not depend on its page. -/
theorem hasMatchingLabel_triggerLabels {store : NotificationStore} {rows : List NotificationRow}
    {row : NotificationRow} (hRow : row ∈ rows) (omitted : List String) :
    hasMatchingLabel (triggerLabels store rows) row.triggerKey omitted =
      hasMatchingLabel store.label row.triggerKey omitted := by
  have hFind : (triggerLabels store rows).find? (fun label => label.eventKey = row.triggerKey) =
      store.label.find? fun label => label.eventKey = row.triggerKey := by
    unfold triggerLabels
    rw [List.find?_filter]
    congr 1
    funext label
    by_cases hKey : label.eventKey = row.triggerKey
    · have hAny : (rows.any fun other => label.eventKey = other.triggerKey) = true :=
        List.any_eq_true.mpr ⟨row, hRow, decide_eq_true hKey⟩
      rw [hAny]
      simp
    · simp [hKey]
  unfold hasMatchingLabel
  rw [hFind]

theorem filter_eq (store : NotificationStore) (req : ListNotificationsRequest) {params : Params}
    (hOmit : params.omitLabels = req.omitLabels) (fetched : Fetched) :
    filter store params fetched = { fetched with rows := fetched.rows.filter (kept store req) } := by
  have hRows : (filter store params fetched).rows = fetched.rows.filter (kept store req) := by
    apply List.filter_congr
    intro row hRow
    show (!store.blocked.contains row.fromIdentity && !(!params.omitLabels.isEmpty &&
      hasMatchingLabel (triggerLabels store fetched.rows) row.triggerKey params.omitLabels)) = _
    rw [hasMatchingLabel_triggerLabels hRow, hOmit]
    rfl
  rw [← hRows]
  rfl

/-- The token after the notifications that were read. -/
def TokenAfter (front : List NotificationRow) (after : Option String) : Prop :=
  (front = [] ∧ (after = none ∨ after = some "")) ∨
    ∃ last, front.getLast? = some last ∧ after = some last.id.repr

theorem repr_ne_empty (id : Int) : id.repr ≠ "" := by
  rw [Int.repr_eq_if]
  split <;> simp [Nat.repr_ne_empty]

/-- An id that was written as a cursor is read back. -/
theorem parseI64_repr (id : Int) : parseI64 id.repr.toList = some id := by
  rw [Int.repr_eq_if]
  split
  · next hNatural =>
      have hText : id.toNat.repr.toList = Nat.toDigits 10 id.toNat := by
        rw [Nat.repr_eq_ofList_toDigits, String.toList_ofList]
      have hDigits : ∀ c ∈ Nat.toDigits 10 id.toNat, c.isDigit = true :=
        fun c hMem => Nat.isDigit_of_mem_toDigits (by decide) (by decide) hMem
      have hParsed := parseDigits_toDigits id.toNat
      rw [hText]
      generalize Nat.toDigits 10 id.toNat = digits at hDigits hParsed ⊢
      unfold parseI64
      split
      · exact absurd (hDigits '-' List.mem_cons_self) (by decide)
      · exact absurd (hDigits '+' List.mem_cons_self) (by decide)
      · rw [hParsed, Option.map_some, Option.some.injEq]
        exact Int.toNat_of_nonneg hNatural
  · next hNegative =>
      have hText : ("-" ++ (-id).toNat.repr).toList = '-' :: Nat.toDigits 10 (-id).toNat := by
        rw [Nat.repr_eq_ofList_toDigits, String.toList_append, String.toList_ofList]
        simp
      rw [hText, parseI64, parseDigits_toDigits, Option.map_some, Option.some.injEq]
      omega

section Reading

variable {store : NotificationStore} {req : ListNotificationsRequest} {front rest : List NotificationRow}
  {after : Option String}

theorem handle_page (hIdentity : req.identity ≠ "")
    (hNodup : (store.notification.map NotificationRow.id).Nodup)
    (hListed : listed store req = front ++ rest) (hAfter : TokenAfter front after) :
    ∃ hasPreviousPage, handle store { req with after := after } = .ok (view store
      ⟨(rest.take (pageSize req)).filter (kept store req), decide (pageSize req < rest.length),
        hasPreviousPage⟩) := by
  have hPlaces : ((store.notification.filter fun row => row.toIdentity = req.identity).map
      newestFirst).Nodup :=
    hNodup.sublist (List.filter_sublist.map NotificationRow.id)
  obtain ⟨id, hParsed, hRaw⟩ : ∃ id, afterId after = .ok id ∧
      listForIdentity store req.identity (pageSize req + 1) id = rest.take (pageSize req + 1) := by
    rcases hAfter with ⟨rfl, rfl | rfl⟩ | ⟨last, hLast, rfl⟩
    · exact ⟨none, rfl, congrArg (List.take (pageSize req + 1)) (hListed.trans (List.nil_append rest))⟩
    · exact ⟨none, rfl, congrArg (List.take (pageSize req + 1)) (hListed.trans (List.nil_append rest))⟩
    · refine ⟨some last.id, by simp [afterId, repr_ne_empty, parseI64_repr], ?_⟩
      exact congrArg (List.take (pageSize req + 1)) (following_listing hPlaces hListed hLast)
  have hFetch : fetch store ⟨req.identity, pageSize req, id, req.omitLabels⟩ =
      ⟨rest.take (pageSize req), decide (pageSize req < rest.length), id.isSome⟩ := by
    unfold fetch
    simp only [hRaw, List.take_take, List.length_take]
    congr 1
    · rw [Nat.min_eq_left (Nat.le_succ _)]
    · rw [decide_eq_decide]
      omega
  have hHandle : handle store { req with after := after } = .ok (view store (filter store
      ⟨req.identity, pageSize req, id, req.omitLabels⟩
      (fetch store ⟨req.identity, pageSize req, id, req.omitLabels⟩))) := by
    unfold handle
    rw [hParsed]
    simp [hIdentity, pageSize]
  refine ⟨id.isSome, ?_⟩
  rw [hHandle, hFetch]
  exact congrArg (fun page => Except.ok (view store page)) (filter_eq store req rfl _)

/-- A page with a notification to go on from is read up to it. -/
theorem page_split {size : Nat} {row : NotificationRow}
    (hLast : ((rest.take size).filter (kept store req)).getLast? = some row) :
    ∃ before after, rest = before ++ row :: after ∧ before.length < size ∧ kept store req row = true ∧
      (rest.take size).filter (kept store req) = (before ++ [row]).filter (kept store req) := by
  obtain ⟨init, hInit⟩ := List.getLast?_eq_some_iff.mp hLast
  obtain ⟨l₁, l₂, hTake, hFirst, hSecond⟩ := List.filter_eq_append_iff.mp hInit
  obtain ⟨m₁, m₂, rfl, hNone, hKept, -⟩ := List.filter_eq_cons_iff.mp hSecond
  have hLength : (l₁ ++ (m₁ ++ row :: m₂)).length ≤ size := by
    rw [← hTake, List.length_take]
    exact Nat.min_le_left _ _
  simp only [List.length_append, List.length_cons] at hLength
  refine ⟨l₁ ++ m₁, m₂ ++ rest.drop size, ?_, ?_, hKept, ?_⟩
  · calc rest = rest.take size ++ rest.drop size := (List.take_append_drop size rest).symm
      _ = (l₁ ++ m₁) ++ row :: (m₂ ++ rest.drop size) := by
        rw [hTake]
        simp only [List.append_assoc, List.cons_append]
  · rw [List.length_append]
    omega
  · have hSkipped : m₁.filter (kept store req) = [] := List.filter_eq_nil_iff.mpr hNone
    rw [hInit, List.filter_append, List.filter_append, hFirst, hSkipped, List.append_nil,
      List.filter_cons_of_pos hKept, List.filter_nil]

/-! ### All pages -/

/-- As long as no page of hidden notifications has another notification after it,
everything that is left is read. -/
theorem readAll_eq (hIdentity : req.identity ≠ "")
    (hNodup : (store.notification.map NotificationRow.id).Nodup) (hPages : NoHiddenPage store req)
    {fuel : Nat} (hListed : listed store req = front ++ rest) (hAfter : TokenAfter front after)
    (hFuel : rest.length < fuel) :
    readAll store { req with after := after } fuel = some (visible store req rest) := by
  induction fuel generalizing front rest after with
  | zero => exact absurd hFuel (Nat.not_lt_zero _)
  | succ fuel ih =>
      obtain ⟨hasPreviousPage, hHandle⟩ := handle_page hIdentity hNodup hListed hAfter
      rw [readAll, hHandle]
      dsimp only [view]
      by_cases hMore : pageSize req < rest.length
      · rw [if_pos (decide_eq_true hMore)]
        cases hLast : ((rest.take (pageSize req)).filter (kept store req)).getLast? with
        | none =>
            rw [List.getLast?_eq_none_iff, List.filter_eq_nil_iff] at hLast
            have hEnd := hPages front (rest.take (pageSize req)) (rest.drop (pageSize req))
              (by rw [List.append_assoc, List.take_append_drop, hListed])
              (by rw [List.length_take]; exact Nat.min_eq_left hMore.le)
              fun row hRow => Bool.not_eq_true _ ▸ hLast row hRow
            rw [List.drop_eq_nil_iff] at hEnd
            exact absurd hMore (Nat.not_lt.mpr hEnd)
        | some row =>
            obtain ⟨read, unread, hSplit, -, -, hFilter⟩ := page_split hLast
            have hSplit' : rest = (read ++ [row]) ++ unread := by
              rw [hSplit, List.append_assoc, List.singleton_append]
            have hListed' : listed store req = (front ++ (read ++ [row])) ++ unread := by
              rw [hListed, hSplit']
              simp only [List.append_assoc]
            have hAfter' : TokenAfter (front ++ (read ++ [row])) (some row.id.repr) :=
              Or.inr ⟨row, by rw [← List.append_assoc]; exact List.getLast?_concat, rfl⟩
            have hFuel' : unread.length < fuel := by
              rw [hSplit, List.length_append, List.length_cons] at hFuel
              omega
            show (readAll store { req with after := some row.id.repr } fuel).map _ = _
            rw [ih hListed' hAfter' hFuel', Option.map_some, hFilter]
            conv_rhs => rw [hSplit', visible, List.filter_append, List.filterMap_append]
            rfl
      · rw [if_neg (by simpa using hMore), List.take_of_length_le (Nat.le_of_not_lt hMore)]
        rfl

/-- Once a page of hidden notifications has another notification after it, reading
never ends. -/
theorem readAll_eq_none (hIdentity : req.identity ≠ "")
    (hNodup : (store.notification.map NotificationRow.id).Nodup)
    {before page : List NotificationRow} {fuel : Nat}
    (hPage : listed store req = before ++ page ++ rest) (hSize : page.length = pageSize req)
    (hHidden : ∀ row ∈ page, kept store req row = false) (hMore : rest ≠ []) (hFront : front <+: before)
    (hAfter : TokenAfter front after) : readAll store { req with after := after } fuel = none := by
  induction fuel generalizing front after with
  | zero => rfl
  | succ fuel ih =>
      obtain ⟨upTo, rfl⟩ := hFront
      have hListed : listed store req = front ++ (upTo ++ page ++ rest) := by
        rw [hPage]
        simp only [List.append_assoc]
      obtain ⟨hasPreviousPage, hHandle⟩ := handle_page hIdentity hNodup hListed hAfter
      have hLonger : pageSize req < (upTo ++ page ++ rest).length := by
        have hPos := List.length_pos_of_ne_nil hMore
        simp only [List.length_append]
        omega
      rw [readAll, hHandle]
      dsimp only [view]
      rw [if_pos (decide_eq_true hLonger), Option.map_eq_none_iff]
      cases hLast : (((upTo ++ page ++ rest).take (pageSize req)).filter (kept store req)).getLast? with
      | none => exact ih (List.nil_prefix) (Or.inl ⟨rfl, Or.inr rfl⟩)
      | some row =>
          obtain ⟨read, unread, hSplit, hLength, hKept, -⟩ := page_split hLast
          rw [List.append_assoc] at hSplit
          have hBefore : read.length < upTo.length := by
            by_contra hNot
            have hGe := Nat.le_of_not_lt hNot
            have hGet : (upTo ++ (page ++ rest))[read.length]? = some row := by
              rw [hSplit]
              simp
            rw [List.getElem?_append_right hGe, List.getElem?_append_left (by omega)] at hGet
            rw [hHidden row (List.mem_of_getElem? hGet)] at hKept
            cases hKept
          have hPrefix : read ++ [row] <+: upTo := by
            have hRead : read ++ [row] <+: upTo ++ (page ++ rest) :=
              ⟨unread, by rw [hSplit, List.append_assoc, List.singleton_append]⟩
            exact List.prefix_of_prefix_length_le hRead (List.prefix_append _ _) (by simpa using hBefore)
          refine ih ((List.prefix_append_right_inj front).mpr hPrefix) (Or.inr ⟨row, ?_, rfl⟩)
          rw [← List.append_assoc]
          exact List.getLast?_concat

/-- Reading page by page ends, with every visible notification once and the newest
first, exactly if no page of hidden notifications has another notification after it. -/
theorem readAll_complete_iff (hIdentity : req.identity ≠ "")
    (hNodup : (store.notification.map NotificationRow.id).Nodup) :
    (∃ fuel, readAll store { req with after := none } fuel = some (visible store req (listed store req))) ↔
      NoHiddenPage store req := by
  constructor
  · rintro ⟨fuel, hRead⟩ before page rest hPage hSize hHidden
    by_contra hMore
    rw [readAll_eq_none hIdentity hNodup hPage hSize hHidden hMore List.nil_prefix
      (Or.inl ⟨rfl, Or.inl rfl⟩)] at hRead
    cases hRead
  · intro hPages
    exact ⟨(listed store req).length + 1, readAll_eq hIdentity hNodup hPages (List.nil_append _).symm
      (Or.inl ⟨rfl, Or.inl rfl⟩) (Nat.lt_succ_self _)⟩

/-- A blocked identity's notification is newer than another one. -/
def blockedFirst : NotificationStore where
  notification := [⟨1, 1, "carol", "bob", ⟨2, "carol", 1, [], 1⟩, ⟨0, "", 0, [], 0⟩⟩,
    ⟨2, 1, "mallory", "bob", ⟨2, "mallory", 1, [], 1⟩, ⟨0, "", 0, [], 0⟩⟩]
  event := [⟨7, ⟨2, "carol", 1, [], 1⟩, none, [], [], 0⟩]
  label := []
  blocked := ["mallory"]

/-- Both notifications fit on one page. -/
theorem readAll_complete_one_page :
    ∃ fuel, readAll blockedFirst ⟨"bob", some 2, none, []⟩ fuel =
      some (visible blockedFirst ⟨"bob", some 2, none, []⟩ (listed blockedFirst ⟨"bob", some 2, none, []⟩)) := by
  refine (@readAll_complete_iff blockedFirst ⟨"bob", some 2, none, []⟩ (by decide)
    (by decide)).mpr ?_
  intro front page rest hListed hSize _
  have hLength := congrArg List.length hListed
  have hTwo : (listed blockedFirst ⟨"bob", some 2, none, []⟩).length = 2 := by decide +kernel
  have hPage : page.length = 2 := hSize.trans (by decide)
  rw [hTwo, List.length_append, List.length_append] at hLength
  exact List.length_eq_zero_iff.mp (by omega)

/-- With one notification a page, the reader of the hidden one is sent back to the start. -/
theorem readAll_restarts :
    ¬ ∀ (store : NotificationStore) (req : ListNotificationsRequest), req.identity ≠ "" →
      (store.notification.map NotificationRow.id).Nodup →
      ∃ fuel, readAll store { req with after := none } fuel = some (visible store req (listed store req)) := by
  intro hComplete
  obtain ⟨fuel, hRead⟩ := hComplete blockedFirst ⟨"bob", some 1, none, []⟩ (by decide) (by decide)
  have hListed : listed blockedFirst ⟨"bob", some 1, none, []⟩ =
      [] ++ [⟨2, 1, "mallory", "bob", ⟨2, "mallory", 1, [], 1⟩, ⟨0, "", 0, [], 0⟩⟩] ++
        [⟨1, 1, "carol", "bob", ⟨2, "carol", 1, [], 1⟩, ⟨0, "", 0, [], 0⟩⟩] := by decide +kernel
  rw [readAll_eq_none (by decide) (by decide) hListed rfl (by decide) (List.cons_ne_nil _ _)
    List.nil_prefix (Or.inl ⟨rfl, Or.inl rfl⟩)] at hRead
  cases hRead

end Reading

end ListNotifications

end Polycentric.Server

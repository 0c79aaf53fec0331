import Mathlib

/-! Fetching a set of ranked items in pages. Every item belongs to a stream. A
reader asks for what is above everything it holds of a stream, and the server
answers with the first items of a descending list, up to a page size. -/
namespace HeadPaging

set_option linter.unusedSectionVars false

variable {Item Stream : Type} [DecidableEq Item] [DecidableEq Stream]

/-- The items of a server. -/
structure Server (Item Stream : Type) where
  items : List Item
  nodup : items.Nodup
  stream : Item → Stream
  rank : Item → ℤ

namespace Server

variable (server : Server Item Stream) (size : ℕ)

/-- The items above everything that is held of their stream. -/
def beyond (held : Finset Item) : List Item :=
  server.items.filter fun item =>
    ∀ head ∈ held, server.stream head = server.stream item → server.rank head < server.rank item

def missing (held : Finset Item) : List Item := server.items.filter fun item => item ∉ held

/-- The highest ranks come first. -/
def Descending (items : List Item) : Prop :=
  items.Pairwise fun a b => server.rank b ≤ server.rank a

/-- A way to list items in descending order, whatever it does with equal ranks. -/
structure Lists (order : List Item → List Item) : Prop where
  perm : ∀ items, (order items).Perm items
  descending : ∀ items, server.Descending (order items)

/-- What is held after one page. -/
def round (order : List Item → List Item) (held : Finset Item) : Finset Item :=
  held ∪ ((order (server.beyond held)).take size).toFinset

/-- What is held after `n` pages. Every page may be listed in an order of its own. -/
def rounds : (ℕ → List Item → List Item) → ℕ → Finset Item → Finset Item
  | _, 0, held => held
  | orders, n + 1, held => rounds (fun k => orders (k + 1)) n (server.round size (orders 0) held)

/-- The page after `n` pages brings nothing new. -/
def Settled (orders : ℕ → List Item → List Item) (held : Finset Item) (n : ℕ) : Prop :=
  server.round size (orders n) (server.rounds size orders n held) = server.rounds size orders n held

/-- Fetching until a page brings nothing new ends, and everything is held then. -/
def Completes (orders : ℕ → List Item → List Item) (held : Finset Item) : Prop :=
  (∃ n, server.Settled size orders held n) ∧
    ∀ n, server.Settled size orders held n →
      ∀ item ∈ server.items, item ∈ server.rounds size orders n held

/-- No item is missing at or below one that is held of its stream. -/
def GapFree (held : Finset Item) : Prop :=
  ∀ item ∈ server.items, item ∉ held → ∀ head ∈ held,
    server.stream head = server.stream item → server.rank head < server.rank item

/-- However the missing items are listed in descending order, cutting the list into
pages separates no two items of one stream. -/
def Unsplit (held : Finset Item) : Prop :=
  ∀ listed : List Item, listed.Perm (server.missing held) → server.Descending listed →
    ∀ i j a b, listed[i]? = some a → listed[j]? = some b → server.stream a = server.stream b →
      i / size = j / size

variable {server size} {held : Finset Item} {order : List Item → List Item}
  {orders : ℕ → List Item → List Item} {listed : List Item} {item : Item}

/-- What the server has beyond the heads of what is held. -/
theorem mem_beyond : item ∈ server.beyond held ↔ item ∈ server.items ∧
    ∀ head ∈ held, server.stream head = server.stream item → server.rank head < server.rank item := by
  simp [beyond]

theorem mem_missing : item ∈ server.missing held ↔ item ∈ server.items ∧ item ∉ held := by
  simp [missing]

theorem notMem_of_mem_beyond (h : item ∈ server.beyond held) : item ∉ held := by
  intro hHeld
  exact lt_irrefl _ ((mem_beyond.mp h).2 item hHeld rfl)

theorem nodup_missing (held : Finset Item) : (server.missing held).Nodup := server.nodup.filter _

/-- Without gaps, everything that is missing is asked for. -/
theorem GapFree.beyond_eq (h : server.GapFree held) : server.beyond held = server.missing held := by
  apply List.filter_congr
  intro item hItem
  rw [decide_eq_decide]
  constructor
  · intro hAbove
    exact notMem_of_mem_beyond (mem_beyond.mpr ⟨hItem, hAbove⟩)
  · exact h item hItem

theorem mem_round : item ∈ server.round size order held ↔
    item ∈ held ∨ item ∈ (order (server.beyond held)).take size := by
  simp [round]

/-! ### Fetching ends -/

theorem Lists.page_subset (h : server.Lists order) {items : List Item}
    (hItem : item ∈ (order items).take size) : item ∈ items :=
  (h.perm items).mem_iff.mp (List.mem_of_mem_take hItem)

/-- A round brings nothing only if nothing lies beyond the heads. -/
theorem round_eq_self_iff (hSize : 0 < size) (h : server.Lists order) :
    server.round size order held = held ↔ server.beyond held = [] := by
  constructor
  · intro hSame
    by_contra hBeyond
    have hPage : (order (server.beyond held)).take size ≠ [] := by
      rw [ne_eq, List.take_eq_nil_iff, not_or]
      refine ⟨hSize.ne', ?_⟩
      intro hNil
      have hPerm := h.perm (server.beyond held)
      rw [hNil] at hPerm
      exact hBeyond hPerm.nil_eq.symm
    obtain ⟨item, hItem⟩ := List.exists_mem_of_ne_nil _ hPage
    have hHeld := mem_round.mpr (Or.inr hItem)
    rw [hSame] at hHeld
    exact notMem_of_mem_beyond (h.page_subset hItem) hHeld
  · intro hNil
    have hOrder : order [] = [] := (h.perm []).eq_nil
    simp [round, hNil, hOrder]

theorem subset_round : held ⊆ server.round size order held := Finset.subset_union_left

/-- An item that is held from now on is missing no more. -/
theorem length_missing_lt {held' : Finset Item} (hSub : held ⊆ held') (hItem : item ∈ server.items)
    (hNot : item ∉ held) (hNew : item ∈ held') :
    (server.missing held').length < (server.missing held).length := by
  have hSplit : server.missing held' = (server.missing held).filter fun item => item ∉ held' := by
    unfold missing
    rw [List.filter_filter]
    apply List.filter_congr
    intro other _
    have hOther := @hSub other
    grind
  rw [hSplit, List.length_filter_lt_length_iff_exists]
  exact ⟨item, mem_missing.mpr ⟨hItem, hNot⟩, by simpa using hNew⟩

/-- A page that brings something new leaves less missing. -/
theorem length_missing_round (h : server.Lists order)
    (hNew : server.round size order held ≠ held) :
    (server.missing (server.round size order held)).length < (server.missing held).length := by
  obtain ⟨item, hRound, hHeld⟩ : ∃ item ∈ server.round size order held, item ∉ held := by
    by_contra hNone
    push Not at hNone
    exact hNew (subset_antisymm hNone subset_round)
  have hPage := (mem_round.mp hRound).resolve_left hHeld
  have hServed := (mem_beyond.mp (h.page_subset hPage)).1
  exact length_missing_lt subset_round hServed hHeld hRound

/-- The last round of several starts from what the others have brought. -/
theorem rounds_last (orders : ℕ → List Item → List Item) (n : ℕ) (held : Finset Item) :
    server.rounds size orders (n + 1) held =
      server.round size (orders n) (server.rounds size orders n held) := by
  induction n generalizing held orders with
  | zero => rfl
  | succ n ih => exact ih (fun k => orders (k + 1)) (server.round size (orders 0) held)

/-- The rounds settle: each brings something that was missing, until nothing is left to bring. -/
theorem exists_settled (h : ∀ n, server.Lists (orders n)) (held : Finset Item) :
    ∃ n, server.Settled size orders held n := by
  induction hLength : (server.missing held).length using Nat.strong_induction_on
    generalizing held orders with
  | _ length ih =>
      by_cases hNew : server.round size (orders 0) held = held
      · exact ⟨0, hNew⟩
      · have hLess := length_missing_round (h 0) hNew
        rw [hLength] at hLess
        obtain ⟨n, hSettled⟩ := ih _ hLess (fun k => h (k + 1)) (server.round size (orders 0) held) rfl
        exact ⟨n + 1, hSettled⟩

/-! ### Nothing is skipped -/

/-- What remains after a page of the missing items. -/
theorem perm_missing_page (hListed : listed.Perm (server.missing held)) :
    (server.missing (held ∪ (listed.take size).toFinset)).Perm (listed.drop size) := by
  have hNodup : listed.Nodup := hListed.nodup_iff.mpr (nodup_missing held)
  have hParts : (listed.take size ++ listed.drop size).Nodup := by rwa [List.take_append_drop]
  rw [List.perm_ext_iff_of_nodup (nodup_missing _) (hNodup.sublist (List.drop_sublist size listed))]
  intro item
  rw [mem_missing, Finset.mem_union, not_or, List.mem_toFinset, ← and_assoc, ← mem_missing,
    ← hListed.mem_iff]
  constructor
  · rintro ⟨hItem, hPage⟩
    rw [← List.take_append_drop size listed, List.mem_append] at hItem
    exact hItem.resolve_left hPage
  · intro hRest
    refine ⟨List.mem_of_mem_drop hRest, ?_⟩
    intro hPage
    exact (List.disjoint_of_nodup_append hParts) hPage hRest

theorem getElem?_of_mem_take (h : item ∈ listed.take size) : ∃ i < size, listed[i]? = some item := by
  obtain ⟨i, hi, hItem⟩ := List.getElem_of_mem h
  have hLt : i < size := (List.length_take ▸ hi).trans_le (Nat.min_le_left _ _)
  refine ⟨i, hLt, ?_⟩
  rw [← List.getElem?_take_of_lt hLt, List.getElem?_eq_getElem hi, hItem]

theorem getElem?_of_mem_drop (h : item ∈ listed.drop size) : ∃ i, listed[size + i]? = some item := by
  obtain ⟨i, hi, hItem⟩ := List.getElem_of_mem h
  refine ⟨i, ?_⟩
  rw [← List.getElem?_drop, List.getElem?_eq_getElem hi, hItem]

/-- A page that splits no stream leaves no gap. -/
theorem GapFree.round (h : server.GapFree held) (hUnsplit : server.Unsplit size held)
    (hSize : 0 < size) (hOrder : server.Lists order) :
    server.GapFree (server.round size order held) := by
  have hListed : (order (server.beyond held)).Perm (server.missing held) := by
    rw [← h.beyond_eq]
    exact hOrder.perm _
  intro item hItem hNot head hHead hStream
  have hRest : item ∈ (order (server.beyond held)).drop size :=
    (perm_missing_page hListed).mem_iff.mp (mem_missing.mpr ⟨hItem, hNot⟩)
  rcases mem_round.mp hHead with hOld | hPage
  · exact h item hItem (fun hHeld => hNot (subset_round hHeld)) head hOld hStream
  · obtain ⟨i, hi, hI⟩ := getElem?_of_mem_take hPage
    obtain ⟨j, hJ⟩ := getElem?_of_mem_drop hRest
    have hSame := hUnsplit _ hListed (hOrder.descending _) i (size + j) head item hI hJ hStream
    rw [Nat.div_eq_of_lt hi, Nat.add_div_left j hSize] at hSame
    cases hSame

/-- A round takes the first page off the listing, so the pages after it are those of the rest. -/
theorem Unsplit.round (h : server.Unsplit size held) (hGap : server.GapFree held) (hSize : 0 < size)
    (hOrder : server.Lists order) : server.Unsplit size (server.round size order held) := by
  let page := (order (server.beyond held)).take size
  let rest := (order (server.beyond held)).drop size
  have hListed : (page ++ rest).Perm (server.missing held) := by
    rw [← hGap.beyond_eq, List.take_append_drop]
    exact hOrder.perm _
  have hDescending : server.Descending (page ++ rest) := by
    rw [List.take_append_drop]
    exact hOrder.descending _
  intro listed hPerm hSorted i j a b hI hJ hStream
  have hRest : listed.Perm rest := by
    refine hPerm.trans (perm_missing_page ?_)
    rw [← hGap.beyond_eq]
    exact hOrder.perm _
  obtain ⟨hPage, -, hCross⟩ := List.pairwise_append.mp hDescending
  -- The page and the other list together are one more way to list what was missing.
  have hWhole := h (page ++ listed) ((hRest.append_left page).trans hListed) ?_
    (size + i) (size + j) a b ?_ ?_ hStream
  · rw [Nat.add_div_left i hSize, Nat.add_div_left j hSize] at hWhole
    exact Nat.succ.inj hWhole
  · refine List.pairwise_append.mpr ⟨hPage, hSorted, ?_⟩
    intro x hx y hy
    exact hCross x hx y (hRest.mem_iff.mp hy)
  all_goals
    have hLength : page.length = size := by
      have hNonempty : rest ≠ [] := by
        intro hNil
        rw [hNil] at hRest
        rw [hRest.eq_nil] at hI
        cases hI
      rw [List.length_take]
      apply Nat.min_eq_left
      by_contra hShort
      exact hNonempty (List.drop_eq_nil_of_le (by omega))
    rw [List.getElem?_append_right (by omega), hLength, Nat.add_sub_cancel_left]
    assumption

/-- Without gaps, and with pages that cut no stream, fetching completes. -/
theorem completes_of_gapFree (hSize : 0 < size) (h : ∀ n, server.Lists (orders n))
    (hGap : server.GapFree held) (hUnsplit : server.Unsplit size held) :
    server.Completes size orders held := by
  refine ⟨exists_settled h held, ?_⟩
  intro n
  induction n generalizing held orders with
  | zero =>
      intro hSettled item hItem
      have hNil : server.beyond held = [] := (round_eq_self_iff hSize (h 0)).mp hSettled
      rw [hGap.beyond_eq] at hNil
      by_contra hNot
      have hMissing : item ∈ server.missing held := mem_missing.mpr ⟨hItem, hNot⟩
      rw [hNil] at hMissing
      cases hMissing
  | succ n ih =>
      intro hSettled
      exact ih (fun k => h (k + 1)) (hGap.round hUnsplit hSize (h 0))
        (hUnsplit.round hGap hSize (h 0)) hSettled

/-! ### What is skipped stays missing -/

/-- A missing item at or below one that is held of its stream. -/
def Skipped (server : Server Item Stream) (held : Finset Item) (item : Item) : Prop :=
  item ∉ held ∧ ∃ head ∈ held, server.stream head = server.stream item ∧
    server.rank item ≤ server.rank head

/-- What lies below a head that is held is never asked for. -/
theorem Skipped.round (h : server.Skipped held item) (hOrder : server.Lists order) :
    server.Skipped (server.round size order held) item := by
  obtain ⟨hNot, head, hHead, hStream, hRank⟩ := h
  refine ⟨?_, head, subset_round hHead, hStream, hRank⟩
  intro hRound
  have hPage := (mem_round.mp hRound).resolve_left hNot
  have hAbove := (mem_beyond.mp (hOrder.page_subset hPage)).2 head hHead hStream
  exact absurd hAbove (not_lt.mpr hRank)

/-- What is skipped at the start stays missing in every round. -/
theorem Skipped.rounds (h : server.Skipped held item) (hOrders : ∀ n, server.Lists (orders n))
    (n : ℕ) : item ∉ server.rounds size orders n held := by
  induction n generalizing held orders with
  | zero => exact h.1
  | succ n ih => exact ih (h.round (hOrders 0)) fun k => hOrders (k + 1)

/-- Rounds that complete have skipped nothing. -/
theorem Completes.not_skipped (h : server.Completes size orders held)
    (hOrders : ∀ n, server.Lists (orders n)) (hItem : item ∈ server.items) :
    ¬server.Skipped held item := by
  intro hSkipped
  obtain ⟨⟨n, hSettled⟩, hComplete⟩ := h
  exact hSkipped.rounds hOrders n (hComplete n hSettled item hItem)

/-- Rounds that complete began without gaps. -/
theorem Completes.gapFree (h : server.Completes size orders held)
    (hOrders : ∀ n, server.Lists (orders n)) : server.GapFree held := by
  intro item hItem hNot head hHead hStream
  by_contra hRank
  exact h.not_skipped hOrders hItem ⟨hNot, head, hHead, hStream, not_lt.mp hRank⟩

/-- List what is asked for first in a given order. -/
def follow (listed : List Item) (order : List Item → List Item) (items : List Item) : List Item :=
  if listed.Perm items then listed else order items

/-- A way of listing may begin with any list that descends. -/
theorem lists_follow (hListed : server.Descending listed) (hOrder : server.Lists order) :
    server.Lists (follow listed order) where
  perm := by
    intro items
    unfold follow
    split_ifs with hPerm
    · exact hPerm
    · exact hOrder.perm items
  descending := by
    intro items
    unfold follow
    split_ifs
    · exact hListed
    · exact hOrder.descending items

/-- There is such an order: by falling rank. -/
theorem lists_insertionSort :
    server.Lists fun items => items.insertionSort fun a b => server.rank b ≤ server.rank a where
  perm := List.perm_insertionSort _
  descending := by
    have : Std.Total fun a b => server.rank b ≤ server.rank a := ⟨fun a b => le_total _ _⟩
    have : IsTrans Item fun a b => server.rank b ≤ server.rank a := ⟨fun _ _ _ h h' => h'.trans h⟩
    exact List.pairwise_insertionSort _

/-- A round along a listing of what is missing brings its first items. -/
theorem round_follow (hGap : server.GapFree held) (hListed : listed.Perm (server.missing held)) :
    server.round size (follow listed order) held = held ∪ (listed.take size).toFinset := by
  unfold Server.round follow
  rw [if_pos (hGap.beyond_eq ▸ hListed)]

/-- After a page in some order, fetching still completes in all orders. -/
theorem completes_round
    (h : ∀ orders, (∀ n, server.Lists (orders n)) → server.Completes size orders held)
    (hOrder : server.Lists order) (hOrders : ∀ n, server.Lists (orders n)) :
    server.Completes size orders (server.round size order held) := by
  refine ⟨exists_settled hOrders _, ?_⟩
  intro n hSettled
  have hAll := h (fun n => Nat.casesOn n order orders) (by
    intro n
    cases n with
    | zero => exact hOrder
    | succ n => exact hOrders n)
  exact hAll.2 (n + 1) hSettled

/-- Of two items of one stream, the page of the first has the second, or the second
is skipped. -/
theorem skipped_of_page (hListed : listed.Perm (server.missing held))
    (hSorted : server.Descending listed) {i j : ℕ} {a b : Item} (hI : listed[i]? = some a)
    (hJ : listed[j]? = some b) (hFirst : i < size) (hSecond : size ≤ j)
    (hStream : server.stream a = server.stream b) :
    server.Skipped (held ∪ (listed.take size).toFinset) b := by
  obtain ⟨hiLength, rfl⟩ := List.getElem?_eq_some_iff.mp hI
  obtain ⟨hjLength, rfl⟩ := List.getElem?_eq_some_iff.mp hJ
  refine ⟨?_, listed[i], ?_, hStream, List.pairwise_iff_getElem.mp hSorted i j _ _ (by omega)⟩
  · have hRest : listed[j] ∈ listed.drop size := by
      rw [List.mem_drop_iff_getElem]
      refine ⟨j - size, by omega, ?_⟩
      congr 1
      omega
    exact (mem_missing.mp ((perm_missing_page hListed).mem_iff.mpr hRest)).2
  · apply Finset.mem_union_right
    rw [List.mem_toFinset, List.mem_take_iff_getElem]
    exact ⟨i, by omega, rfl⟩

/-- Two items of one stream are in the same page. -/
theorem page_eq_of_completes (hSize : 0 < size)
    (h : ∀ orders, (∀ n, server.Lists (orders n)) → server.Completes size orders held)
    (hListed : listed.Perm (server.missing held)) (hSorted : server.Descending listed)
    {i j : ℕ} {a b : Item} (hI : listed[i]? = some a) (hJ : listed[j]? = some b) (hLe : i ≤ j)
    (hStream : server.stream a = server.stream b) : i / size = j / size := by
  induction i using Nat.strong_induction_on generalizing held listed j with
  | _ i ih =>
      have hGap : server.GapFree held :=
        (h _ fun _ => lists_insertionSort).gapFree fun _ => lists_insertionSort
      -- Fetching the given list first leads to this state, where it still completes.
      have hNext : ∀ orders, (∀ n, server.Lists (orders n)) →
          server.Completes size orders (held ∪ (listed.take size).toFinset) := by
        intro orders hOrders
        have hCompletes := completes_round h (lists_follow hSorted lists_insertionSort) hOrders
        rwa [round_follow hGap hListed] at hCompletes
      by_cases hFirst : i < size
      · by_cases hSecond : j < size
        · rw [Nat.div_eq_of_lt hFirst, Nat.div_eq_of_lt hSecond]
        · have hSkipped := skipped_of_page hListed hSorted hI hJ hFirst (not_lt.mp hSecond) hStream
          have hItem := (mem_missing.mp (hListed.mem_iff.mp (List.mem_of_getElem? hJ))).1
          exact absurd hSkipped
            ((hNext _ fun _ => lists_insertionSort).not_skipped (fun _ => lists_insertionSort) hItem)
      · obtain ⟨i, rfl⟩ := Nat.exists_eq_add_of_le (not_lt.mp hFirst)
        obtain ⟨j, rfl⟩ := Nat.exists_eq_add_of_le (show size ≤ j by omega)
        rw [← List.getElem?_drop] at hI hJ
        have hRest := ih i (by omega) hNext (perm_missing_page hListed).symm
          (hSorted.sublist (List.drop_sublist size listed)) hI hJ (by omega)
        rw [Nat.add_div_left i hSize, Nat.add_div_left j hSize, hRest]

/-- Fetching completes in all orders exactly if there is no gap and no page splits a
stream. -/
theorem completes_iff (hSize : 0 < size) :
    (∀ orders, (∀ n, server.Lists (orders n)) → server.Completes size orders held) ↔
      server.GapFree held ∧ server.Unsplit size held := by
  constructor
  · intro h
    refine ⟨(h _ fun _ => lists_insertionSort).gapFree fun _ => lists_insertionSort, ?_⟩
    intro listed hListed hSorted i j a b hI hJ hStream
    rcases Nat.le_total i j with hLe | hLe
    · exact page_eq_of_completes hSize h hListed hSorted hI hJ hLe hStream
    · exact (page_eq_of_completes hSize h hListed hSorted hJ hI hLe hStream.symm).symm
  · rintro ⟨hGap, hUnsplit⟩ orders hOrders
    exact completes_of_gapFree hSize hOrders hGap hUnsplit

/-! ### A reader that drops items -/

/-- A round of a reader that keeps a part of the page and holds it from then on. A page
is empty only if nothing is asked for. -/
structure Keeps (server : Server Item Stream) (held : Finset Item) (page kept : List Item)
    (held' : Finset Item) : Prop where
  asked : page ⊆ server.beyond held
  ended : page = [] → server.beyond held = []
  part : kept ⊆ page
  union : held' = held ∪ kept.toFinset

/-- Something of the page is kept, and together with an item whatever is missing at or
below it in its stream. -/
structure KeepsStreams (server : Server Item Stream) (held : Finset Item) (page kept : List Item) :
    Prop where
  some : page ≠ [] → kept ≠ []
  below : ∀ head ∈ kept, ∀ item ∈ server.items, item ∉ held →
    server.stream head = server.stream item → server.rank item ≤ server.rank head → item ∈ kept

section Dropping

variable {held' : Finset Item} {page kept : List Item}

/-- A client holds afterwards what it held and what it kept. -/
theorem Keeps.mem (h : server.Keeps held page kept held') : item ∈ held' ↔ item ∈ held ∨ item ∈ kept := by
  rw [h.union, Finset.mem_union, List.mem_toFinset]

theorem Keeps.subset (h : server.Keeps held page kept held') : held ⊆ held' :=
  fun _ hItem => h.mem.mpr (Or.inl hItem)

/-- What is kept was asked for. -/
theorem Keeps.beyond (h : server.Keeps held page kept held') (hItem : item ∈ kept) :
    item ∈ server.beyond held := h.asked (h.part hItem)

/-- Whatever is kept of a page, what is skipped stays missing. -/
theorem Keeps.skipped (h : server.Keeps held page kept held') (hSkipped : server.Skipped held item) :
    server.Skipped held' item := by
  obtain ⟨hNot, head, hHead, hStream, hRank⟩ := hSkipped
  refine ⟨?_, head, h.subset hHead, hStream, hRank⟩
  intro hHeld
  have hKept := (h.mem.mp hHeld).resolve_left hNot
  have hAbove := (mem_beyond.mp (h.beyond hKept)).2 head hHead hStream
  exact absurd hAbove (not_lt.mpr hRank)

/-- Items that are kept with whatever is missing below them in their streams open no gap. -/
theorem Keeps.gapFree (h : server.Keeps held page kept held') (hGap : server.GapFree held)
    (hKeeps : server.KeepsStreams held page kept) : server.GapFree held' := by
  intro item hItem hNot head hHead hStream
  have hMissing : item ∉ held := fun hHeld => hNot (h.subset hHeld)
  rcases h.mem.mp hHead with hOld | hKept
  · exact hGap item hItem hMissing head hOld hStream
  · by_contra hRank
    have hItemKept := hKeeps.below head hKept item hItem hMissing hStream (not_lt.mp hRank)
    exact hNot (h.mem.mpr (Or.inr hItemKept))

end Dropping

variable {heldAt : ℕ → Finset Item} {page kept : ℕ → List Item}

/-- A client only ever holds more. -/
theorem heldAt_mono (h : ∀ n, server.Keeps (heldAt n) (page n) (kept n) (heldAt (n + 1))) :
    Monotone heldAt :=
  monotone_nat_of_le_succ fun n => (h n).subset

/-- What is skipped once is never held. -/
theorem skipped_later (h : ∀ n, server.Keeps (heldAt n) (page n) (kept n) (heldAt (n + 1))) {m n : ℕ}
    (hLe : m ≤ n) (hSkipped : server.Skipped (heldAt m) item) : server.Skipped (heldAt n) item := by
  induction n, hLe using Nat.le_induction with
  | base => exact hSkipped
  | succ n _ ih => exact (h n).skipped ih

/-- A reader that always keeps something comes to an end. -/
theorem exists_kept_nil (h : ∀ n, server.Keeps (heldAt n) (page n) (kept n) (heldAt (n + 1))) :
    ∃ n, kept n = [] := by
  by_contra hNone
  push Not at hNone
  have hLess : ∀ n, (server.missing (heldAt n)).length + n ≤ (server.missing (heldAt 0)).length := by
    intro n
    induction n with
    | zero => exact le_rfl
    | succ n ih =>
        obtain ⟨item, hKept⟩ := List.exists_mem_of_ne_nil _ (hNone n)
        have hBeyond := (h n).beyond hKept
        have hFewer := length_missing_lt (h n).subset (mem_beyond.mp hBeyond).1
          (notMem_of_mem_beyond hBeyond) ((h n).mem.mpr (Or.inr hKept))
        omega
  have hAll := hLess ((server.missing (heldAt 0)).length + 1)
  omega

/-- A round that keeps nothing comes, and everything is held by then, exactly if there is
no gap at first and every round keeps its streams whole. -/
theorem keeps_all_iff (h : ∀ n, server.Keeps (heldAt n) (page n) (kept n) (heldAt (n + 1))) :
    ((∃ n, kept n = []) ∧ ∀ n, kept n = [] → ∀ item ∈ server.items, item ∈ heldAt n) ↔
      server.GapFree (heldAt 0) ∧ ∀ n, server.KeepsStreams (heldAt n) (page n) (kept n) := by
  constructor
  · rintro ⟨⟨last, hLast⟩, hComplete⟩
    -- What is skipped in some round is still missing in the last one.
    have hNever : ∀ n, ∀ item ∈ server.items, ¬server.Skipped (heldAt n) item := by
      intro n item hItem hSkipped
      rcases Nat.le_total n last with hLe | hLe
      · exact (skipped_later h hLe hSkipped).1 (hComplete last hLast item hItem)
      · exact hSkipped.1 (heldAt_mono h hLe (hComplete last hLast item hItem))
    refine ⟨?_, ?_⟩
    · intro item hItem hNot head hHead hStream
      by_contra hRank
      exact hNever 0 item hItem ⟨hNot, head, hHead, hStream, not_lt.mp hRank⟩
    · intro n
      constructor
      case some =>
        intro hPage hKept
        obtain ⟨item, hItem⟩ := List.exists_mem_of_ne_nil _ hPage
        have hBeyond := (h n).asked hItem
        exact notMem_of_mem_beyond hBeyond (hComplete n hKept item (mem_beyond.mp hBeyond).1)
      case below =>
        intro head hHead item hItem hMissing hStream hRank
        by_contra hDropped
        apply hNever (n + 1) item hItem
        refine ⟨?_, head, (h n).mem.mpr (Or.inr hHead), hStream, hRank⟩
        rw [(h n).mem, not_or]
        exact ⟨hMissing, hDropped⟩
  · rintro ⟨hGap, hKeeps⟩
    refine ⟨exists_kept_nil h, ?_⟩
    have hGaps : ∀ n, server.GapFree (heldAt n) := by
      intro n
      induction n with
      | zero => exact hGap
      | succ n ih => exact (h n).gapFree ih (hKeeps n)
    intro n hKept item hItem
    have hPage : page n = [] := by
      by_contra hPage
      exact (hKeeps n).some hPage hKept
    have hNil := (h n).ended hPage
    rw [(hGaps n).beyond_eq] at hNil
    by_contra hNot
    have hMissing : item ∈ server.missing (heldAt n) := mem_missing.mpr ⟨hItem, hNot⟩
    rw [hNil] at hMissing
    cases hMissing

end Server

end HeadPaging

import Mathlib

/-! Rows in the order of a key, and the rows on either side of a mark in that order.
Descending orders are those of the dual key. -/
namespace Keyset

variable {Row Key : Type} [LinearOrder Key] (place : Row → Key)

/-- The rows by ascending key. -/
def listing (rows : List Row) : List Row := rows.insertionSort fun a b => place a ≤ place b

def following (mark : Key) (rows : List Row) : List Row := rows.filter fun row => mark < place row

def preceding (mark : Key) (rows : List Row) : List Row := rows.filter fun row => place row < mark

/-- No two rows have one key, and the keys ascend. -/
def Ascending (rows : List Row) : Prop := rows.Pairwise fun a b => place a < place b

variable {place} {rows front back : List Row} {row : Row}

omit [LinearOrder Key] in
/-- A key that tells another value apart is itself distinct. -/
theorem nodup_of_part {Part : Type} (part : Key → Part)
    (h : (rows.map fun row => part (place row)).Nodup) : (rows.map place).Nodup := by
  apply List.Nodup.of_map part
  rw [List.map_map]
  exact h

theorem listing_perm (rows : List Row) : (listing place rows).Perm rows :=
  List.perm_insertionSort _ rows

theorem listing_weakly (rows : List Row) :
    (listing place rows).Pairwise fun a b => place a ≤ place b :=
  have : Std.Total fun a b : Row => place a ≤ place b := ⟨fun a b => le_total (place a) (place b)⟩
  have : IsTrans Row fun a b => place a ≤ place b := ⟨fun _ _ _ => le_trans⟩
  List.pairwise_insertionSort _ rows

theorem listing_ascending (hNodup : (rows.map place).Nodup) : Ascending place (listing place rows) := by
  have hNodup' : ((listing place rows).map place).Nodup :=
    ((listing_perm rows).map place).nodup_iff.mpr hNodup
  have hNe : (listing place rows).Pairwise fun a b => place a ≠ place b := List.pairwise_map.mp hNodup'
  exact ((listing_weakly rows).and hNe).imp fun h => lt_of_le_of_ne h.1 h.2

theorem mem_listing : row ∈ listing place rows ↔ row ∈ rows := (listing_perm rows).mem_iff

/-- What does not come after the last of the first rows has the key of one of them. -/
theorem place_mem_take {l : List Row} {n : Nat} {last : Row}
    (hSorted : l.Pairwise fun a b => place a ≤ place b) (hLast : (l.take n).getLast? = some last)
    (hRow : row ∈ l) (hLe : place row ≤ place last) : place row ∈ (l.take n).map place := by
  have hIn : last ∈ l.take n := List.mem_of_getLast? hLast
  rw [← List.take_append_drop n l] at hRow hSorted
  rcases List.mem_append.mp hRow with hTaken | hDropped
  · exact List.mem_map_of_mem hTaken
  · have hGe := (List.pairwise_append.mp hSorted).2.2 last hIn row hDropped
    rw [le_antisymm hLe hGe]
    exact List.mem_map_of_mem hIn

theorem place_le_getLast {l : List Row} {last : Row}
    (hSorted : l.Pairwise fun a b => place a ≤ place b) (hLast : l.getLast? = some last)
    (hRow : row ∈ l) : place row ≤ place last := by
  obtain ⟨front, rfl⟩ := List.getLast?_eq_some_iff.mp hLast
  rcases List.mem_append.mp hRow with hFront | hEnd
  · exact (List.pairwise_append.mp hSorted).2.2 row hFront last (List.mem_singleton_self _)
  · exact le_of_eq (congrArg place (List.mem_singleton.mp hEnd))

/-- A condition may be checked before or after the rows are put in order. -/
theorem listing_filter (hNodup : (rows.map place).Nodup) (condition : Row → Bool) :
    listing place (rows.filter condition) = (listing place rows).filter condition := by
  have hPerm : (listing place (rows.filter condition)).Perm ((listing place rows).filter condition) :=
    (listing_perm _).trans ((listing_perm rows).symm.filter condition)
  refine hPerm.eq_of_pairwise ?_ (listing_weakly _) ((listing_weakly rows).filter condition)
  intro a b hA hB hLe hGe
  have hIn : a ∈ rows := List.mem_of_mem_filter ((listing_perm _).mem_iff.mp hA)
  have hIn' : b ∈ rows := (listing_perm rows).mem_iff.mp (List.mem_of_mem_filter hB)
  exact List.inj_on_of_nodup_map hNodup hIn hIn' (le_antisymm hLe hGe)

/-- What follows a row of an ascending list is the rest of it. -/
theorem following_of_split (h : Ascending place (front ++ row :: back)) :
    following place (place row) (front ++ row :: back) = back := by
  obtain ⟨-, hBack, hFront⟩ := List.pairwise_append.mp h
  obtain ⟨hRow, -⟩ := List.pairwise_cons.mp hBack
  unfold following
  rw [List.filter_append, List.filter_cons_of_neg (by simp)]
  have hNone : (front.filter fun other => place row < place other) = [] := by
    rw [List.filter_eq_nil_iff]
    intro other hOther hLt
    exact lt_asymm (of_decide_eq_true hLt) (hFront other hOther row List.mem_cons_self)
  have hAll : (back.filter fun other => place row < place other) = back :=
    List.filter_eq_self.mpr fun other hOther => decide_eq_true (hRow other hOther)
  rw [hNone, hAll, List.nil_append]

theorem preceding_of_split (h : Ascending place (front ++ row :: back)) :
    preceding place (place row) (front ++ row :: back) = front := by
  obtain ⟨-, hBack, hFront⟩ := List.pairwise_append.mp h
  obtain ⟨hRow, -⟩ := List.pairwise_cons.mp hBack
  unfold preceding
  rw [List.filter_append, List.filter_cons_of_neg (by simp)]
  have hNone : (back.filter fun other => place other < place row) = [] := by
    rw [List.filter_eq_nil_iff]
    intro other hOther hLt
    exact lt_asymm (of_decide_eq_true hLt) (hRow other hOther)
  have hAll : (front.filter fun other => place other < place row) = front :=
    List.filter_eq_self.mpr fun other hOther =>
      decide_eq_true (hFront other hOther row List.mem_cons_self)
  rw [hNone, hAll, List.append_nil]

/-- As many rows are listed before a row as there are with a smaller key. -/
theorem exists_listing_split (hNodup : (rows.map place).Nodup) (hIn : row ∈ rows) :
    ∃ front back, listing place rows = front ++ row :: back ∧
      (preceding place (place row) rows).length = front.length := by
  have hListed : row ∈ listing place rows := mem_listing.mpr hIn
  obtain ⟨front, back, hSplit⟩ := List.append_of_mem hListed
  have hSorted := listing_ascending hNodup
  have hPerm : (listing place rows).Perm rows := listing_perm rows
  refine ⟨front, back, hSplit, ?_⟩
  rw [hSplit] at hSorted hPerm
  rw [← preceding_of_split hSorted]
  exact (hPerm.filter _).length_eq.symm

/-- A row is among the first if few enough rows come before it. -/
theorem mem_take_listing_iff (hNodup : (rows.map place).Nodup) {n : Nat} :
    row ∈ (listing place rows).take n ↔ row ∈ rows ∧ (preceding place (place row) rows).length < n := by
  have hSorted := listing_ascending hNodup
  constructor
  · intro hTaken
    have hIn := mem_listing.mp (List.mem_of_mem_take hTaken)
    obtain ⟨front, back, hSplit, hCount⟩ := exists_listing_split hNodup hIn
    rw [hSplit] at hSorted hTaken
    refine ⟨hIn, hCount ▸ Nat.lt_of_not_le fun hLe => ?_⟩
    rw [List.take_append_of_le_length hLe] at hTaken
    have hLt := (List.pairwise_append.mp hSorted).2.2 row (List.mem_of_mem_take hTaken) row
      List.mem_cons_self
    exact lt_irrefl _ hLt
  · rintro ⟨hIn, hFew⟩
    obtain ⟨front, back, hSplit, hCount⟩ := exists_listing_split hNodup hIn
    rw [hCount] at hFew
    rw [hSplit, List.take_append, List.take_of_length_le hFew.le]
    obtain ⟨more, hMore⟩ := Nat.exists_eq_succ_of_ne_zero (Nat.sub_ne_zero_of_lt hFew)
    rw [hMore, List.take_succ_cons]
    exact List.mem_append_right _ List.mem_cons_self

/-- What follows the last row that was read is what was not read yet. -/
theorem following_listing {rest : List Row} {last : Row} (hNodup : (rows.map place).Nodup)
    (hListed : listing place rows = front ++ rest) (hLast : front.getLast? = some last) :
    listing place (following place (place last) rows) = rest := by
  obtain ⟨init, rfl⟩ := List.getLast?_eq_some_iff.mp hLast
  have hSorted := listing_ascending hNodup
  rw [hListed, List.append_assoc, List.singleton_append] at hSorted
  have hRest := following_of_split hSorted
  unfold following at hRest ⊢
  rw [listing_filter hNodup, hListed, List.append_assoc, List.singleton_append]
  exact hRest

/-- The last rows of the first rows of a list are its last rows only if the first
rows are all of it. -/
theorem rtake_take_eq_iff {l : List Row} (hNodup : l.Nodup) {n m : Nat} (hPos : 1 ≤ m) (hLe : m ≤ n) :
    (l.take n).rtake m = l.rtake m ↔ l.length ≤ n := by
  constructor
  · intro hEq
    by_contra hGt
    have hLt : n < l.length := Nat.lt_of_not_le hGt
    have hTaken : ((l.take n).rtake m).getLast? = l[n - 1]? := by
      rw [List.rtake, List.getLast?_drop, List.length_take, Nat.min_eq_left hLt.le, if_neg (by omega),
        List.getLast?_take, if_neg (by omega), List.getElem?_eq_getElem (by omega), Option.some_or]
    have hWhole : (l.rtake m).getLast? = l[l.length - 1]? := by
      rw [List.rtake, List.getLast?_drop, if_neg (by omega), List.getLast?_eq_getElem?]
    rw [hEq, hWhole, List.getElem?_eq_getElem (by omega), List.getElem?_eq_getElem (by omega),
      Option.some.injEq, hNodup.getElem_inj_iff] at hTaken
    omega
  · intro hAll
    rw [List.take_of_length_le hAll]

end Keyset

import Polycentric.Common.Primitives
import Polycentric.Library.AuditWalk

/-! The Merkle tree of `merkle/tree.rs`. A leaf is hashed behind the byte 0x00 and
an inner node behind 0x01. The verifier is the loop of the source; its meaning is
`verifyInclusion_iff`. Indices and sizes are natural numbers: the source only
compares and halves them. -/
namespace Polycentric

open AuditWalk

variable (P : Primitives)

def leafPrefix : UInt8 := 0x00

def nodePrefix : UInt8 := 0x01

def leafInput (data : Bytes) : Bytes := leafPrefix :: data

def nodeInput (left right : Bytes) : Bytes := nodePrefix :: (left ++ right)

def leafHash (data : Bytes) : Hash := P.sha256 (leafInput data)

def nodeHash (left right : Hash) : Hash := P.sha256 (nodeInput left.val right.val)

/-- The loop `while p * 2 < n`. It starts at 1, so `p` stays positive. -/
def doubleBelow (n p : Nat) : Nat :=
  if 0 < p ∧ p * 2 < n then doubleBelow n (p * 2) else p
termination_by n - p

/-- Largest power of 2 below `n`. Requires `n ≥ 2`. -/
def largestPow2Lt (n : Nat) : Nat := doubleBelow n 1

/-- From a power of two below `n` the loop reaches the last one below `n`. -/
theorem doubleBelow_spec {n p : Nat} (hPow : ∃ e, p = 2 ^ e) (hLt : p < n) :
    ∃ e, doubleBelow n p = 2 ^ e ∧ 2 ^ e < n ∧ n ≤ 2 ^ (e + 1) := by
  induction p using doubleBelow.induct n with
  | case1 p h ih =>
      obtain ⟨e, rfl⟩ := hPow
      rw [doubleBelow, if_pos h]
      exact ih ⟨e + 1, by rw [Nat.pow_succ]⟩ h.2
  | case2 p h =>
      obtain ⟨e, rfl⟩ := hPow
      rw [doubleBelow, if_neg h]
      have hPos := Nat.two_pow_pos e
      refine ⟨e, rfl, hLt, ?_⟩
      rw [Nat.pow_succ]
      omega

theorem largestPow2Lt_eq_split {n : Nat} (h : 2 ≤ n) : largestPow2Lt n = split n := by
  obtain ⟨e, hEq, hLow, hHigh⟩ := doubleBelow_spec (n := n) ⟨0, by simp⟩ (by omega : 1 < n)
  have hLog : Nat.log 2 (n - 1) = e :=
    Nat.log_eq_of_pow_le_of_lt_pow (by omega) (by omega)
  rw [largestPow2Lt, hEq, split, hLog]

theorem largestPow2Lt_pos {n : Nat} (h : 2 ≤ n) : 0 < largestPow2Lt n := by
  rw [largestPow2Lt_eq_split h]
  exact split_pos n

theorem largestPow2Lt_lt {n : Nat} (h : 2 ≤ n) : largestPow2Lt n < n := by
  rw [largestPow2Lt_eq_split h]
  exact split_lt h

/-- The hash of a non-empty tree. -/
def mth (leaves : List Bytes) : Hash :=
  if leaves.length ≤ 1 then leafHash P (leaves.headD [])
  else
    nodeHash P (mth (leaves.take (largestPow2Lt leaves.length)))
      (mth (leaves.drop (largestPow2Lt leaves.length)))
termination_by leaves.length
decreasing_by
  all_goals
    have hPos := @largestPow2Lt_pos leaves.length
    have hLt := @largestPow2Lt_lt leaves.length
    simp only [List.length_take, List.length_drop]
    omega

/-- Merkle tree hash of `leaves`, `none` if there are none. -/
def merkleTreeHash (leaves : List Bytes) : Option Hash :=
  if leaves.isEmpty then none else some (mth P leaves)

/-- Siblings of the leaf at `index`, the deepest one first. -/
def fillAuditPath (leaves : List Bytes) (index : Nat) : List Hash :=
  if leaves.length ≤ 1 then []
  else if index < largestPow2Lt leaves.length then
    fillAuditPath (leaves.take (largestPow2Lt leaves.length)) index ++
      [mth P (leaves.drop (largestPow2Lt leaves.length))]
  else
    fillAuditPath (leaves.drop (largestPow2Lt leaves.length))
        (index - largestPow2Lt leaves.length) ++
      [mth P (leaves.take (largestPow2Lt leaves.length))]
termination_by leaves.length
decreasing_by
  all_goals
    have hPos := @largestPow2Lt_pos leaves.length
    have hLt := @largestPow2Lt_lt leaves.length
    simp only [List.length_take, List.length_drop]
    omega

/-- Audit path for the leaf at `index`. -/
def buildAuditPath (leaves : List Bytes) (index : Nat) : Option (List Hash) :=
  if leaves.length ≤ index then none else some (fillAuditPath P leaves index)

/-- The loop over the audit path: the root it computes and the remaining `sn`, or
`none` for a path that is too long. -/
def auditLoop : List Hash → Hash → Nat → Nat → Option (Hash × Nat)
  | [], r, _, sn => some (r, sn)
  | sibling :: rest, r, fnIdx, sn =>
      if sn = 0 then none
      else if fnIdx % 2 = 1 ∨ fnIdx = sn then
        let skipped := if fnIdx % 2 = 0 then strip fnIdx sn else (fnIdx, sn)
        auditLoop rest (nodeHash P sibling r) (skipped.1 / 2) (skipped.2 / 2)
      else auditLoop rest (nodeHash P r sibling) (fnIdx / 2) (sn / 2)

/-- Verify that `leafData` is at `leafIndex` in the tree of size `treeSize` rooted
at `expectedRoot`. -/
def verifyInclusion (leafData : Bytes) (leafIndex treeSize : Nat) (auditPath : List Hash)
    (expectedRoot : Hash) : Bool :=
  if treeSize = 0 ∨ treeSize ≤ leafIndex then false
  else
    match auditLoop P auditPath (leafHash P leafData) leafIndex (treeSize - 1) with
    | none => false
    | some (r, sn) => sn == 0 && r == expectedRoot

/-! ### The verifier -/

/-- One round of the loop is one step of the walk. -/
theorem auditLoop_cons {sibling : Hash} {rest : List Hash} {r : Hash} {fnIdx sn : Nat}
    (h : sn ≠ 0) :
    auditLoop P (sibling :: rest) r fnIdx sn =
      auditLoop P rest (combine (nodeHash P) r (siblingSide fnIdx sn, sibling))
        (ascend fnIdx sn).1 (ascend fnIdx sn).2 := by
  rw [auditLoop, if_neg h]
  by_cases hLeft : fnIdx % 2 = 1 ∨ fnIdx = sn
  · have hSkip : (fnIdx % 2 = 0 ∧ fnIdx = sn) ↔ fnIdx % 2 = 0 := by omega
    simp only [if_pos hLeft, siblingSide, combine, ascend, hSkip]
  · have hSkip : ¬(fnIdx % 2 = 0 ∧ fnIdx = sn) := by omega
    simp only [if_neg hLeft, siblingSide, combine, ascend, if_neg hSkip]

/-- The loop ends with `sn = 0` exactly on paths as long as the walk, with the
value folded along the walk. -/
theorem auditLoop_eq_some_zero_iff (path : List Hash) (r root : Hash) (fnIdx sn : Nat) :
    auditLoop P path r fnIdx sn = some (root, 0) ↔
      path.length = (walk fnIdx sn).length ∧
        recompute (nodeHash P) r ((walk fnIdx sn).zip path) = root := by
  induction path generalizing r fnIdx sn with
  | nil =>
      by_cases h : sn = 0
      · simp [auditLoop, h]
      · simp [auditLoop, h, walk_of_ne_zero h]
  | cons sibling rest ih =>
      by_cases h : sn = 0
      · simp [auditLoop, h]
      · rw [auditLoop_cons P h, ih, walk_of_ne_zero h]
        simp

/-- Acceptance, without the loop: the path has one sibling for each level of the
descent to the leaf and folds to the root. -/
theorem verifyInclusion_iff {leafData : Bytes} {leafIndex treeSize : Nat} {auditPath : List Hash}
    {expectedRoot : Hash} :
    verifyInclusion P leafData leafIndex treeSize auditPath expectedRoot = true ↔
      leafIndex < treeSize ∧ auditPath.length = (directions leafIndex treeSize).length ∧
        recompute (nodeHash P) (leafHash P leafData)
          ((directions leafIndex treeSize).zip auditPath) = expectedRoot := by
  unfold verifyInclusion
  by_cases hIndex : treeSize = 0 ∨ treeSize ≤ leafIndex
  · rw [if_pos hIndex]
    have hNot : ¬leafIndex < treeSize := by omega
    simp [hNot]
  · have hLt : leafIndex < treeSize := by omega
    rw [if_neg hIndex, ← walk_eq_directions hLt, ← auditLoop_eq_some_zero_iff]
    simp only [hLt, true_and]
    cases auditLoop P auditPath (leafHash P leafData) leafIndex (treeSize - 1) with
    | none => simp
    | some pair =>
        obtain ⟨r, sn⟩ := pair
        simp only [Bool.and_eq_true, beq_iff_eq, Option.some.injEq, Prod.mk.injEq, and_comm]

/-! ### The descent -/

theorem mth_singleton (leaf : Bytes) : mth P [leaf] = leafHash P leaf := by
  rw [mth]
  simp

theorem mth_split {leaves : List Bytes} (h : 2 ≤ leaves.length) :
    mth P leaves = nodeHash P (mth P (leaves.take (split leaves.length)))
      (mth P (leaves.drop (split leaves.length))) := by
  rw [mth, if_neg (by omega), largestPow2Lt_eq_split h]

theorem fillAuditPath_split {leaves : List Bytes} (h : 2 ≤ leaves.length) (index : Nat) :
    fillAuditPath P leaves index =
      if index < split leaves.length then
        fillAuditPath P (leaves.take (split leaves.length)) index ++
          [mth P (leaves.drop (split leaves.length))]
      else
        fillAuditPath P (leaves.drop (split leaves.length)) (index - split leaves.length) ++
          [mth P (leaves.take (split leaves.length))] := by
  rw [fillAuditPath, if_neg (by omega), largestPow2Lt_eq_split h]

theorem merkleTreeHash_eq_some_iff {leaves : List Bytes} {root : Hash} :
    merkleTreeHash P leaves = some root ↔ leaves ≠ [] ∧ mth P leaves = root := by
  unfold merkleTreeHash
  cases leaves <;> simp

end Polycentric

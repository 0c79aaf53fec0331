import Polycentric.Merkle.Tree

/-! Completeness and soundness of inclusion proofs, and `merkle/proof.rs`, which
checks a proof against a signed target. Soundness assumes that SHA-256 does not
collide, but only on the strings hashed for the tree and by the verifier. -/
namespace Polycentric

open AuditWalk Proto

variable (P : Primitives)

/-- `copy_from_slice` into a `[u8; 32]`, for slices of that length. -/
def toHash (bytes : Bytes) : Option Hash :=
  if h : bytes.length = 32 then some ⟨bytes, h⟩ else none

/-- Verify that `leafSignature` is at `leafIndex` in the tree of the target. -/
def verifyProof (leafSignature : Bytes) (leafIndex : UInt64) (target : EventProofTarget)
    (auditPath : List Bytes) : Except CoreError Unit :=
  if leafIndex ≥ target.leafCount then
    .error (.invalidEvent s!"leaf_index {leafIndex} >= target leaf_count {target.leafCount}")
  else
    match toHash target.root with
    | none => .error (.invalidEvent "target root must be 32 bytes")
    | some expectedRoot =>
        match auditPath.mapM toHash with
        | none => .error (.invalidEvent "audit_path entries must be 32 bytes")
        | some siblings =>
            if verifyInclusion P leafSignature leafIndex.toNat target.leafCount.toNat siblings
                expectedRoot then .ok ()
            else .error (.invalidEvent "EventProof does not verify against target")

@[simp] theorem toHash_eq_some_iff {bytes : Bytes} {hash : Hash} :
    toHash bytes = some hash ↔ hash.val = bytes := by
  unfold toHash
  split
  · simp [Subtype.ext_iff, eq_comm]
  · next h =>
      simp only [reduceCtorEq, false_iff]
      rintro rfl
      exact h hash.property

theorem mapM_toHash_eq_some_iff {auditPath : List Bytes} {siblings : List Hash} :
    auditPath.mapM toHash = some siblings ↔ siblings.map Subtype.val = auditPath := by
  induction auditPath generalizing siblings with
  | nil =>
      rw [List.mapM_nil, Option.pure_def, Option.some.injEq, List.map_eq_nil_iff]
      exact eq_comm
  | cons bytes rest ih =>
      simp only [List.mapM_cons, Option.bind_eq_bind, Option.bind_eq_some_iff, toHash_eq_some_iff,
        ih, Option.pure_def, Option.some.injEq]
      constructor
      · rintro ⟨hash, rfl, others, rfl, rfl⟩
        rfl
      · intro h
        cases siblings with
        | nil => simp at h
        | cons hash others =>
            simp only [List.map_cons, List.cons.injEq] at h
            exact ⟨hash, h.1, others, h.2, rfl⟩

/-- Acceptance of a proof is acceptance by the loop, with every entry and the
root of hash length. -/
theorem verifyProof_eq_ok_iff {leafSignature : Bytes} {leafIndex : UInt64}
    {target : EventProofTarget} {auditPath : List Bytes} :
    verifyProof P leafSignature leafIndex target auditPath = .ok () ↔
      ∃ (root : Hash) (siblings : List Hash), root.val = target.root ∧
        siblings.map Subtype.val = auditPath ∧
        verifyInclusion P leafSignature leafIndex.toNat target.leafCount.toNat siblings root
          = true := by
  unfold verifyProof
  constructor
  · intro h
    split at h
    · simp at h
    · split at h
      · simp at h
      · next root hRoot =>
          split at h
          · simp at h
          · next siblings hSiblings =>
              split at h
              · next hVerify =>
                  exact ⟨root, siblings, toHash_eq_some_iff.mp hRoot,
                    mapM_toHash_eq_some_iff.mp hSiblings, hVerify⟩
              · simp at h
  · rintro ⟨root, siblings, hRoot, hSiblings, hVerify⟩
    have hIndex : ¬leafIndex ≥ target.leafCount := by
      have := ((verifyInclusion_iff P).mp hVerify).1
      rw [ge_iff_le, UInt64.le_iff_toNat_le]
      omega
    rw [if_neg hIndex, toHash_eq_some_iff.mpr hRoot]
    simp only [mapM_toHash_eq_some_iff.mpr hSiblings, hVerify, if_true]

/-! ### Completeness -/

theorem length_take_split {leaves : List Bytes} (h : 2 ≤ leaves.length) :
    (leaves.take (split leaves.length)).length = split leaves.length := by
  rw [List.length_take, Nat.min_eq_left (split_lt h).le]

/-- The honest path has the length of the route and folds the leaf to the root. -/
theorem fillAuditPath_spec (leaves : List Bytes) (index : Nat) (h : index < leaves.length) :
    (fillAuditPath P leaves index).length = (directions index leaves.length).length ∧
      recompute (nodeHash P) (leafHash P leaves[index])
        ((directions index leaves.length).zip (fillAuditPath P leaves index)) =
        mth P leaves := by
  induction leaves, index, h using descent_induction with
  | single leaf => simp [fillAuditPath, mth_singleton]
  | left leaves index h h' hTwo hLeft ih =>
      simp only [List.getElem_take, length_take_split hTwo] at ih
      obtain ⟨hLength, hRoot⟩ := ih
      rw [fillAuditPath_split P hTwo, if_pos hLeft, directions_left hTwo hLeft]
      refine ⟨by simp [hLength], ?_⟩
      rw [List.zip_append hLength.symm, List.zip_cons_cons, List.zip_nil_right, recompute_concat,
        hRoot, mth_split P hTwo]
      rfl
  | right leaves index h h' hTwo hRight ih =>
      simp only [List.getElem_drop, Nat.add_sub_cancel' hRight, List.length_drop] at ih
      obtain ⟨hLength, hRoot⟩ := ih
      rw [fillAuditPath_split P hTwo, if_neg (by omega), directions_right hTwo hRight]
      refine ⟨by simp [hLength], ?_⟩
      rw [List.zip_append hLength.symm, List.zip_cons_cons, List.zip_nil_right, recompute_concat,
        hRoot, mth_split P hTwo]
      rfl

/-- Every leaf of every tree has a path that verifies. -/
theorem verifyInclusion_buildAuditPath (leaves : List Bytes) (index : Nat)
    (h : index < leaves.length) :
    ∃ path root, buildAuditPath P leaves index = some path ∧
      merkleTreeHash P leaves = some root ∧
      verifyInclusion P leaves[index] index leaves.length path root = true := by
  obtain ⟨hLength, hRoot⟩ := fillAuditPath_spec P leaves index h
  have hNonempty : leaves ≠ [] := List.ne_nil_of_length_pos (by omega)
  refine ⟨_, _, if_neg (by omega), (merkleTreeHash_eq_some_iff P).mpr ⟨hNonempty, rfl⟩, ?_⟩
  rw [verifyInclusion_iff]
  exact ⟨h, hLength, hRoot⟩

theorem verifyInclusion_buildAuditPath_five :
    ∃ path root, buildAuditPath (TableInstance.primitives [] []) [[1], [2], [3], [4], [5]] 4 =
        some path ∧
      merkleTreeHash (TableInstance.primitives [] []) [[1], [2], [3], [4], [5]] = some root ∧
      verifyInclusion (TableInstance.primitives [] []) [5] 4 5 path root = true :=
  verifyInclusion_buildAuditPath _ [[1], [2], [3], [4], [5]] 4 (by decide)

/-! ### Soundness -/

/-- The strings hashed for the tree. -/
def treeInputs (leaves : List Bytes) : List Bytes :=
  if leaves.length ≤ 1 then [leafInput (leaves.headD [])]
  else
    nodeInput (mth P (leaves.take (split leaves.length))).val
        (mth P (leaves.drop (split leaves.length))).val ::
      (treeInputs (leaves.take (split leaves.length)) ++
        treeInputs (leaves.drop (split leaves.length)))
termination_by leaves.length
decreasing_by
  all_goals
    have hPos := split_pos leaves.length
    have hLt := @split_lt leaves.length
    simp only [List.length_take, List.length_drop]
    omega

/-- The string hashed for one sibling. -/
def stepInput (value : Bytes) (step : Side × Bytes) : Bytes :=
  match step.1 with
  | .left => nodeInput step.2 value
  | .right => nodeInput value step.2

/-- The strings hashed along a route. -/
def pathInputs (value : Bytes) : List (Side × Bytes) → List Bytes
  | [] => []
  | step :: steps =>
      stepInput value step :: pathInputs (P.sha256 (stepInput value step)).val steps

/-- The strings hashed when a path is verified. -/
def verificationInputs (data : Bytes) (index size : Nat) (auditPath : List Bytes) : List Bytes :=
  leafInput data :: pathInputs P (leafHash P data).val ((directions index size).zip auditPath)

theorem pathInputs_concat (value : Hash) (steps : List (Side × Hash)) (step : Side × Hash) :
    pathInputs P value.val ((steps ++ [step]).map (Prod.map id Subtype.val)) =
      pathInputs P value.val (steps.map (Prod.map id Subtype.val)) ++
        [stepInput (recompute (nodeHash P) value steps).val (Prod.map id Subtype.val step)] := by
  induction steps generalizing value with
  | nil => rfl
  | cons first steps ih =>
      have hHash : P.sha256 (stepInput value.val (Prod.map id Subtype.val first)) =
          combine (nodeHash P) value first := by
        obtain ⟨side, hash⟩ := first
        cases side <;> rfl
      simp only [List.cons_append, List.map_cons, pathInputs, hHash, recompute_cons, ih]

theorem exists_concat_of_length_eq {α β : Type*} {l : List α} {m : List β} {b : β}
    (h : l.length = (m ++ [b]).length) : ∃ front last, l = front ++ [last] := by
  have hNe : l ≠ [] := by
    rintro rfl
    simp at h
  exact ⟨l.dropLast, l.getLast hNe, (List.dropLast_append_getLast hNe).symm⟩

/-- The inputs of inner nodes determine both children. -/
theorem nodeInput_injective {l r l' r' : Hash}
    (h : nodeInput l.val r.val = nodeInput l'.val r'.val) : l = l' ∧ r = r' := by
  simp only [nodeInput, List.cons.injEq, true_and] at h
  obtain ⟨hLeft, hRight⟩ := List.append_inj h (l.property.trans l'.property.symm)
  exact ⟨Subtype.ext hLeft, Subtype.ext hRight⟩

/-- Verification peeled at the root: the inputs of a longer path are those of the
path below, and the input of the last sibling. -/
theorem verificationInputs_concat {data : Bytes} {index size index' size' : Nat} {side : Side}
    {inner : List Hash} {sibling : Hash}
    (hDirections : directions index size = directions index' size' ++ [side])
    (hLength : inner.length = (directions index' size').length) :
    verificationInputs P data index size ((inner ++ [sibling]).map Subtype.val) =
      verificationInputs P data index' size' (inner.map Subtype.val) ++
        [stepInput (recompute (nodeHash P) (leafHash P data)
          ((directions index' size').zip inner)).val (side, sibling.val)] := by
  have hInner : (directions index' size').zip (inner.map Subtype.val) =
      ((directions index' size').zip inner).map (Prod.map id Subtype.val) := List.zip_map_right ..
  have hZip : (directions index' size' ++ [side]).zip ((inner ++ [sibling]).map Subtype.val) =
      ((directions index' size').zip inner ++ [(side, sibling)]).map (Prod.map id Subtype.val) := by
    rw [List.map_append, List.map_append, List.zip_append (by simp [hLength]), hInner]
    rfl
  rw [verificationInputs, verificationInputs, hDirections, hZip, hInner, pathInputs_concat]
  rfl

theorem treeInputs_split {leaves : List Bytes} (h : 2 ≤ leaves.length) :
    treeInputs P leaves =
      nodeInput (mth P (leaves.take (split leaves.length))).val
          (mth P (leaves.drop (split leaves.length))).val ::
        (treeInputs P (leaves.take (split leaves.length)) ++
          treeInputs P (leaves.drop (split leaves.length))) := by
  rw [treeInputs, if_neg (by omega)]

/-- A path that folds to the root of the tree is the honest path, from the honest
leaf. The last sibling joins the root, so the induction peels paths at the end. -/
theorem recompute_eq_mth (leaves : List Bytes) (index : Nat) (h : index < leaves.length)
    (data : Bytes) (path : List Hash)
    (hLength : path.length = (directions index leaves.length).length)
    (hInj : Set.InjOn P.sha256 {input | input ∈ treeInputs P leaves ∨
      input ∈ verificationInputs P data index leaves.length (path.map Subtype.val)})
    (hRoot : recompute (nodeHash P) (leafHash P data)
      ((directions index leaves.length).zip path) = mth P leaves) :
    leaves[index] = data ∧ path = fillAuditPath P leaves index := by
  induction leaves, index, h using descent_induction generalizing path with
  | single leaf =>
      obtain rfl : path = [] := by simpa using hLength
      rw [List.zip_nil_right, recompute_nil, mth_singleton] at hRoot
      have hInput : leafInput data = leafInput leaf :=
        hInj (by simp [verificationInputs]) (by simp [treeInputs]) hRoot
      refine ⟨?_, by simp [fillAuditPath]⟩
      simpa [leafInput] using hInput.symm
  | left leaves index h h' hTwo hLeft ih =>
      have hDirections := directions_left hTwo hLeft
      rw [hDirections] at hLength hRoot
      obtain ⟨inner, sibling, rfl⟩ := exists_concat_of_length_eq hLength
      have hInner : inner.length = (directions index (split leaves.length)).length := by
        simpa using hLength
      rw [List.zip_append hInner.symm, mth_split P hTwo] at hRoot
      rw [treeInputs_split P hTwo, verificationInputs_concat P hDirections hInner] at hInj
      obtain ⟨hBelow, hSibling⟩ := nodeInput_injective (hInj (by simp [stepInput]) (by simp)
        ((recompute_concat ..).symm.trans hRoot))
      simp only [List.getElem_take, length_take_split hTwo] at ih
      obtain ⟨hData, hPath⟩ := ih inner hInner (hInj.mono (by
        rintro input (hTree | hVerify)
        · exact Or.inl (List.mem_cons_of_mem _ (List.mem_append_left _ hTree))
        · exact Or.inr (List.mem_append_left _ hVerify))) hBelow
      refine ⟨hData, ?_⟩
      rw [fillAuditPath_split P hTwo, if_pos hLeft, ← hPath, ← hSibling]
  | right leaves index h h' hTwo hRight ih =>
      have hDirections := directions_right hTwo hRight
      rw [hDirections] at hLength hRoot
      obtain ⟨inner, sibling, rfl⟩ := exists_concat_of_length_eq hLength
      have hInner : inner.length =
          (directions (index - split leaves.length) (leaves.length - split leaves.length)).length := by
        simpa using hLength
      rw [List.zip_append hInner.symm, mth_split P hTwo] at hRoot
      rw [treeInputs_split P hTwo, verificationInputs_concat P hDirections hInner] at hInj
      obtain ⟨hSibling, hBelow⟩ := nodeInput_injective (hInj (by simp [stepInput]) (by simp)
        ((recompute_concat ..).symm.trans hRoot))
      simp only [List.getElem_drop, Nat.add_sub_cancel' hRight, List.length_drop] at ih
      obtain ⟨hData, hPath⟩ := ih inner hInner (hInj.mono (by
        rintro input (hTree | hVerify)
        · exact Or.inl (List.mem_cons_of_mem _ (List.mem_append_right _ hTree))
        · exact Or.inr (List.mem_append_left _ hVerify))) hBelow
      refine ⟨hData, ?_⟩
      rw [fillAuditPath_split P hTwo, if_neg (by omega), ← hPath, ← hSibling]

/-- Whatever path an adversary presents, an accepted one is the honest path for
the claimed leaf. `verifyProof` is covered for every target with this root and
size. -/
theorem inclusion_sound (leaves : List Bytes) (root : Hash)
    (hTree : merkleTreeHash P leaves = some root) (data : Bytes) (index : UInt64)
    (auditPath : List Bytes)
    (hCollisionFree : Set.InjOn P.sha256 {input | input ∈ treeInputs P leaves ∨
      input ∈ verificationInputs P data index.toNat leaves.length auditPath})
    (hAccepted :
      (∃ siblings : List Hash, siblings.map Subtype.val = auditPath ∧
        verifyInclusion P data index.toNat leaves.length siblings root = true) ∨
      (∃ target : EventProofTarget, target.root = root.val ∧
        target.leafCount.toNat = leaves.length ∧
        verifyProof P data index target auditPath = .ok ())) :
    index.toNat < leaves.length ∧ leaves[index.toNat]? = some data ∧
      ∃ path, buildAuditPath P leaves index.toNat = some path ∧
        path.map Subtype.val = auditPath := by
  obtain ⟨siblings, hSiblings, hVerify⟩ : ∃ siblings : List Hash,
      siblings.map Subtype.val = auditPath ∧
        verifyInclusion P data index.toNat leaves.length siblings root = true := by
    rcases hAccepted with hInclusion | ⟨target, hTarget, hCount, hProof⟩
    · exact hInclusion
    · obtain ⟨root', siblings, hRoot', hSiblings, hVerify⟩ := (verifyProof_eq_ok_iff P).mp hProof
      obtain rfl : root' = root := Subtype.ext (hRoot'.trans hTarget)
      rw [hCount] at hVerify
      exact ⟨siblings, hSiblings, hVerify⟩
  obtain ⟨-, rfl⟩ := (merkleTreeHash_eq_some_iff P).mp hTree
  obtain ⟨hIndex, hLength, hRoot⟩ := (verifyInclusion_iff P).mp hVerify
  rw [← hSiblings] at hCollisionFree
  obtain ⟨hData, hPath⟩ := recompute_eq_mth P leaves index.toNat hIndex data siblings hLength
    hCollisionFree hRoot
  refine ⟨hIndex, List.getElem?_eq_some_iff.mpr ⟨hIndex, hData⟩, siblings, ?_, hSiblings⟩
  rw [buildAuditPath, if_neg (by omega), hPath]

/-- The last of three leaves, whose sibling is an inner node, with the proof that
`verifyProof` accepts. -/
theorem inclusion_sound_three :
    ∃ root path, merkleTreeHash (TableInstance.primitives [] []) [[1], [2], [3]] = some root ∧
      buildAuditPath (TableInstance.primitives [] []) [[1], [2], [3]] 2 = some path ∧
      verifyProof (TableInstance.primitives [] []) [3] 2 ⟨Collections.feed, [3], root.val, 3⟩
        (path.map Subtype.val) = .ok () := by
  have hAccepted : verifyProof (TableInstance.primitives [] []) [3] 2
      ⟨Collections.feed, [3], (mth (TableInstance.primitives [] []) [[1], [2], [3]]).val, 3⟩
      ((fillAuditPath (TableInstance.primitives [] []) [[1], [2], [3]] 2).map Subtype.val) =
        .ok () := by decide +kernel
  have hApart : ∀ a ∈ treeInputs (TableInstance.primitives [] []) [[1], [2], [3]] ++
      verificationInputs (TableInstance.primitives [] []) [3] 2 3
        ((fillAuditPath (TableInstance.primitives [] []) [[1], [2], [3]] 2).map Subtype.val),
      ∀ b ∈ treeInputs (TableInstance.primitives [] []) [[1], [2], [3]] ++
        verificationInputs (TableInstance.primitives [] []) [3] 2 3
          ((fillAuditPath (TableInstance.primitives [] []) [[1], [2], [3]] 2).map Subtype.val),
      TableInstance.digest a = TableInstance.digest b → a = b := by decide +kernel
  obtain ⟨-, -, path, hPath, hSame⟩ := inclusion_sound (TableInstance.primitives [] [])
    [[1], [2], [3]] _ rfl [3] 2 _
    (fun a ha b hb h => hApart a (List.mem_append.mpr ha) b (List.mem_append.mpr hb) h)
    (Or.inr ⟨_, rfl, rfl, hAccepted⟩)
  exact ⟨_, path, rfl, hPath, hSame ▸ hAccepted⟩

/-! ### The root binds the leaves -/

theorem leafInput_ne_nodeInput (data left right : Bytes) : leafInput data ≠ nodeInput left right := by
  intro h
  exact absurd (List.cons.inj h).1 (by decide)

theorem exists_singleton {leaves : List Bytes} (hNonempty : leaves ≠ []) (h : ¬2 ≤ leaves.length) :
    ∃ leaf, leaves = [leaf] := by
  have hPos := List.length_pos_of_ne_nil hNonempty
  exact List.length_eq_one_iff.mp (by omega)

theorem treeInputs_singleton (leaf : Bytes) : treeInputs P [leaf] = [leafInput leaf] := by
  rw [treeInputs]
  simp

/-- Two trees with the same root have the same leaves, whatever their sizes. A leaf
and an inner node are told apart by their prefix. -/
theorem mth_injective {first second : List Bytes} (hFirst : first ≠ []) (hSecond : second ≠ [])
    (hCollisionFree : Set.InjOn P.sha256
      {input | input ∈ treeInputs P first ∨ input ∈ treeInputs P second})
    (hRoot : mth P first = mth P second) : first = second := by
  induction hLength : first.length using Nat.strong_induction_on generalizing first second with
  | _ n ih =>
      subst hLength
      by_cases hTwo : 2 ≤ first.length <;> by_cases hTwo' : 2 ≤ second.length
      · rw [mth_split P hTwo, mth_split P hTwo'] at hRoot
        rw [treeInputs_split P hTwo, treeInputs_split P hTwo'] at hCollisionFree
        obtain ⟨hLeft, hRight⟩ := nodeInput_injective (hCollisionFree
          (Or.inl List.mem_cons_self) (Or.inr List.mem_cons_self) hRoot)
        have hSplit := split_lt hTwo
        have hSplit' := split_lt hTwo'
        have hPos := split_pos first.length
        have hPos' := split_pos second.length
        have hTake : first.take (split first.length) = second.take (split second.length) := by
          refine ih _ ?_ (List.ne_nil_of_length_pos ?_) (List.ne_nil_of_length_pos ?_)
            (hCollisionFree.mono ?_) hLeft rfl
          · rw [List.length_take]
            omega
          · rw [List.length_take]
            omega
          · rw [List.length_take]
            omega
          · intro input h
            exact h.imp (fun h => List.mem_cons_of_mem _ (List.mem_append_left _ h))
              (fun h => List.mem_cons_of_mem _ (List.mem_append_left _ h))
        have hDrop : first.drop (split first.length) = second.drop (split second.length) := by
          refine ih _ ?_ (List.ne_nil_of_length_pos ?_) (List.ne_nil_of_length_pos ?_)
            (hCollisionFree.mono ?_) hRight rfl
          · rw [List.length_drop]
            omega
          · rw [List.length_drop]
            omega
          · rw [List.length_drop]
            omega
          · intro input h
            exact h.imp (fun h => List.mem_cons_of_mem _ (List.mem_append_right _ h))
              (fun h => List.mem_cons_of_mem _ (List.mem_append_right _ h))
        rw [← List.take_append_drop (split first.length) first, hTake, hDrop,
          List.take_append_drop]
      · obtain ⟨leaf, rfl⟩ := exists_singleton hSecond hTwo'
        rw [mth_split P hTwo, mth_singleton] at hRoot
        rw [treeInputs_split P hTwo, treeInputs_singleton] at hCollisionFree
        have hInput := hCollisionFree (Or.inl List.mem_cons_self) (Or.inr List.mem_cons_self) hRoot
        exact absurd hInput.symm (leafInput_ne_nodeInput _ _ _)
      · obtain ⟨leaf, rfl⟩ := exists_singleton hFirst hTwo
        rw [mth_split P hTwo', mth_singleton] at hRoot
        rw [treeInputs_split P hTwo', treeInputs_singleton] at hCollisionFree
        have hInput := hCollisionFree (Or.inl List.mem_cons_self) (Or.inr List.mem_cons_self) hRoot
        exact absurd hInput (leafInput_ne_nodeInput _ _ _)
      · obtain ⟨leaf, rfl⟩ := exists_singleton hFirst hTwo
        obtain ⟨leaf', rfl⟩ := exists_singleton hSecond hTwo'
        rw [mth_singleton, mth_singleton] at hRoot
        rw [treeInputs_singleton, treeInputs_singleton] at hCollisionFree
        have hInput := hCollisionFree (Or.inl List.mem_cons_self) (Or.inr List.mem_cons_self) hRoot
        rw [(List.cons.inj hInput).2]

end Polycentric

import Polycentric.Client.Writing

/-! The canonical list of a collection that one client writes. A new event is
placed by the sum of its clock, and the clock has entries for the keys of the
current document only. -/
namespace Polycentric.Client

open Proto Result Runs SortedEntries Clocks

variable (P : Primitives)

/-! ### Runs of one writer -/

/-- What a client does with one collection: it builds an event and commits it, it
creates the identity, or it makes a call that brings no event of the collection,
such as copying an identity update. -/
inductive WriterAction where
  | write (draft : Draft) (signed : SignedEvent)
  | bootstrap (draft : Draft) (signed : SignedEvent)
  | other (call : PolycentricClient.Call)

namespace WriterAction

variable (identity : String) (collection : Int32)

/-- The event that the action builds and signs. -/
def builds (client : PolycentricClient) : WriterAction → Option (Event × SignedEvent)
  | .write draft signed =>
      (client.buildEvent P identity collection draft).toOption.map fun event => (event, signed)
  | .bootstrap draft signed => some (PolycentricClient.bootstrapEvent P identity draft, signed)
  | .other _ => none

def step (client : PolycentricClient) (action : WriterAction) : PolycentricClient :=
  match action with
  | .write draft signed =>
      if (client.buildEvent P identity collection draft).isOk then
        client.commitEvent P signed draft.contentBytes
      else client
  | .bootstrap draft signed => client.commitEvent P signed draft.contentBytes
  | .other call => client.call P call

/-- The action is what it is meant to be: the signed event opens to the one that
was built, an identity is created once, and other calls leave the collection as it
is. -/
def Honest (client : PolycentricClient) (action : WriterAction) : Prop :=
  (∀ event signed, action.builds P identity collection client = some (event, signed) →
    signed.open P = .ok event) ∧
  match action with
  | .write _ _ => True
  | .bootstrap _ _ => collection = Collections.identity ∧
      client.eventStore.byIdentityAndCollection identity collection = []
  | .other call => (client.call P call).eventStore.byIdentityAndCollection identity collection =
      client.eventStore.byIdentityAndCollection identity collection

/-- The signature of a new event is placed last. -/
def Appends (client : PolycentricClient) (action : WriterAction) : Prop :=
  ∀ event signed, action.builds P identity collection client = some (event, signed) →
    (action.step P identity collection client).canonicalSignatures P identity collection =
      client.canonicalSignatures P identity collection ++ [signed.signature]

/-- A statement about the event of an action can be evaluated. -/
instance decidableForallBuilt {built : Option (Event × SignedEvent)}
    {p : Event → SignedEvent → Prop} [∀ event signed, Decidable (p event signed)] :
    Decidable (∀ event signed, built = some (event, signed) → p event signed) :=
  match built with
  | none => isTrue (by simp)
  | some (event, signed) => decidable_of_iff (p event signed) (by simp)

instance (client : PolycentricClient) (action : WriterAction) :
    Decidable (action.Honest P identity collection client) :=
  match action with
  | .write _ _ => inferInstanceAs (Decidable ((∀ _ _, _ → _) ∧ True))
  | .bootstrap _ _ => inferInstanceAs (Decidable ((∀ _ _, _ → _) ∧ _ ∧ _))
  | .other _ => inferInstanceAs (Decidable ((∀ _ _, _ → _) ∧ _))

instance (client : PolycentricClient) (action : WriterAction) :
    Decidable (action.Appends P identity collection client) :=
  inferInstanceAs (Decidable (∀ _ _, _ → _))

end WriterAction

/-! ### When the clock covers the collection -/

namespace PolycentricClient

variable (client : PolycentricClient) (identity : String) (collection : Int32)

/-- The document lists the signer and all signers of the collection, the latest
event of each of them validates, and the numbers fit into 64 bits. -/
structure ClockCovers (document : Identity) (signer : PublicKey) : Prop where
  signer : document.authorizesSigner signer
  listed : ∀ entry ∈ client.eventStore.byIdentityAndCollection identity collection,
    document.authorizesSigner entry.1.signer
  valid : ∀ entry ∈ client.eventStore.byIdentityAndCollection identity collection,
    ∃ latest ∈ client.eventStore.byIdentityAndCollection identity collection,
      latest.1.signer = entry.1.signer ∧ entry.1.sequence ≤ latest.1.sequence ∧
        client.isValid P latest
  fits : ∀ entry ∈ client.eventStore.byIdentityAndCollection identity collection,
    entry.1.sequence.toNat + 1 + Clocks.total (client.streamLog identity collection) < 2 ^ 64

instance (document : Identity) (signer : PublicKey) :
    Decidable (client.ClockCovers P identity collection document signer) :=
  decidable_of_iff (_ ∧ _ ∧ _ ∧ _)
    ⟨fun ⟨hSigner, hListed, hValid, hFits⟩ => ⟨hSigner, hListed, hValid, hFits⟩,
      fun h => ⟨h.signer, h.listed, h.valid, h.fits⟩⟩

end PolycentricClient

/-- The clock of a new event covers the collection. -/
def WriterAction.Covered (identity : String) (collection : Int32) (client : PolycentricClient) :
    WriterAction → Prop
  | .write draft _ => ∀ document,
      client.clockDocument P identity ((client.identitySequenceFor P identity collection draft).getD 0)
        (draft.identityContent P collection) = .ok document →
      client.ClockCovers P identity collection document draft.signer
  | _ => True

instance (identity : String) (collection : Int32) (client : PolycentricClient)
    (action : WriterAction) : Decidable (action.Covered P identity collection client) :=
  match action with
  | .write draft _ =>
      match hDocument : client.clockDocument P identity
          ((client.identitySequenceFor P identity collection draft).getD 0)
          (draft.identityContent P collection) with
      | .error _ => isTrue (by simp [WriterAction.Covered, hDocument])
      | .ok document =>
          decidable_of_iff (client.ClockCovers P identity collection document draft.signer)
            (by simp [WriterAction.Covered, hDocument])
  | .bootstrap _ _ => inferInstanceAs (Decidable True)
  | .other _ => inferInstanceAs (Decidable True)

/-! ### One event -/

section Build

variable {P} {client : PolycentricClient} {identity : String} {collection : Int32} {draft : Draft}
  {event : Event} {signed : SignedEvent}

/-- The entry of a key in the clock of a new event. -/
def clockEntry (client : PolycentricClient) (identity : String) (collection : Int32)
    (signer publicKey : PublicKey) : ℕ :=
  if publicKey = signer then (client.nextSequence P identity collection).toNat
  else (client.observedSequence P identity collection publicKey).toNat

theorem buildEvent_eq_ok (h : client.buildEvent P identity collection draft = .ok event) :
    ∃ document,
      client.clockDocument P identity ((client.identitySequenceFor P identity collection draft).getD 0)
        (draft.identityContent P collection) = .ok document ∧
      event.key = some ⟨collection, identity, some draft.signer,
        client.nextSequence P identity collection⟩ ∧
      event.previousRoot = client.previousRoot P identity collection ∧
      clockTotal event = ∑ publicKey ∈ document.deduplicatedKeys.toFinset,
        clockEntry (P := P) client identity collection draft.signer publicKey := by
  simp only [PolycentricClient.buildEvent, PolycentricClient.buildVectorClock, bind_eq_ok_iff,
    mapError_eq_ok_iff, ensure_eq_ok_iff] at h
  obtain ⟨_, _, clock, ⟨document, hDocument, hClock⟩, hEvent⟩ := h
  obtain rfl := Except.ok.inj hClock
  obtain rfl := Except.ok.inj hEvent
  refine ⟨document, hDocument, rfl, rfl, ?_⟩
  rw [List.sum_toFinset _ document.nodup_deduplicatedKeys]
  show ((document.deduplicatedKeys.map _).map UInt64.toNat).sum = _
  rw [List.map_map]
  congr 1
  apply List.map_congr_left
  intro publicKey _
  have hSigner : (publicKey.keyType = draft.signer.keyType ∧ publicKey.key = draft.signer.key) ↔
      publicKey = draft.signer := by
    cases publicKey
    cases draft.signer
    simp
  simp only [Function.comp_apply, clockEntry, hSigner]
  split <;> rfl

/-- Committing inserts the event if its key is new. -/
theorem commitEvent_stream (hOpen : signed.open P = .ok event)
    {sequence : UInt64} (hKey : event.key = some ⟨collection, identity, some draft.signer, sequence⟩)
    (contentBytes : Bytes) :
    let key : EventKey :=
      ⟨identity, collection, draft.signer.keyType, draft.signer.key, sequence⟩
    let stream := client.eventStore.byIdentityAndCollection identity collection
    let stream' := (client.commitEvent P signed contentBytes).eventStore.byIdentityAndCollection
      identity collection
    (client.eventStore.get key ≠ none ∧ stream' = stream) ∨
      (client.eventStore.get key = none ∧ stream'.Perm ((key, signed) :: stream)) := by
  have hStore : (client.commitEvent P signed contentBytes).eventStore =
      (client.copyEvent P signed).2.eventStore := by
    unfold PolycentricClient.commitEvent
    rw [hOpen]
    dsimp only
    cases event.contentDigest with
    | none => rfl
    | some digest =>
        have hCopied := contentCopied (P := P) (client.copyEvent P signed).2 digest contentBytes
        dsimp only
        generalize ((client.copyEvent P signed).2.copyContent P digest contentBytes).2 = client' at hCopied ⊢
        cases hCopied with
        | rejected => rfl
        | kept => rfl
        | document => rfl
        | other => rfl
  obtain ⟨key', hEventKey, hSignedKey⟩ := fromEvent_of_open hOpen
  have hSame : key' = ⟨identity, collection, draft.signer.keyType, draft.signer.key, sequence⟩ := by
    unfold EventKey.fromEvent at hEventKey
    rw [hKey] at hEventKey
    exact (Except.ok.inj hEventKey).symm
  subst hSame
  dsimp only
  rw [hStore]
  have hCopied := eventCopied (P := P) client signed
  generalize (client.copyEvent P signed).2 = client' at hCopied ⊢
  cases hCopied with
  | kept hKept =>
      refine Or.inl ⟨?_, rfl⟩
      exact Option.isSome_iff_ne_none.mp (hKept _ hSignedKey)
  | inserted key hInserted hNew =>
      obtain rfl := Except.ok.inj (hInserted.symm.trans hSignedKey)
      exact Or.inr ⟨hNew, EventStore.perm_byIdentityAndCollection_insert hNew ⟨rfl, rfl⟩ signed⟩

end Build

/-! ### The clocks of the stored events -/

/-- No stored event has a clock above the log of the collection. -/
def ClocksBounded (identity : String) (collection : Int32) (client : PolycentricClient) : Prop :=
  ∀ entry ∈ client.eventStore.byIdentityAndCollection identity collection, ∀ event,
    P.decodeEvent entry.2.eventBytes = .ok event →
      clockTotal event ≤ total (client.streamLog identity collection)

section Bounded

variable {P} {client : PolycentricClient} {identity : String} {collection : Int32} {draft : Draft}
  {event : Event} {signed : SignedEvent} {sequence : UInt64}

theorem ClocksBounded.congr {client' : PolycentricClient} (h : ClocksBounded P identity collection client)
    (hStream : client'.eventStore.byIdentityAndCollection identity collection =
      client.eventStore.byIdentityAndCollection identity collection) :
    ClocksBounded P identity collection client' := by
  unfold ClocksBounded PolycentricClient.streamLog
  rw [hStream]
  exact h

theorem ClocksBounded.commit (h : ClocksBounded P identity collection client)
    (hOpen : signed.open P = .ok event)
    (hKey : event.key = some ⟨collection, identity, some draft.signer, sequence⟩)
    (hClock : clockTotal event ≤
      total ((draft.signer, sequence.toNat) :: client.streamLog identity collection))
    (contentBytes : Bytes) :
    ClocksBounded P identity collection (client.commitEvent P signed contentBytes) := by
  rcases commitEvent_stream hOpen hKey contentBytes with ⟨-, hSame⟩ | ⟨-, hPerm⟩
  · exact h.congr hSame
  · have hLog : ∀ entry ∈ (draft.signer, sequence.toNat) :: client.streamLog identity collection,
        entry ∈ (client.commitEvent P signed contentBytes).streamLog identity collection := by
      intro entry hEntry
      exact (hPerm.map _).mem_iff.mpr hEntry
    intro entry hEntry other hOther
    refine le_trans ?_ (total_mono hLog)
    rcases List.mem_cons.mp (hPerm.mem_iff.mp hEntry) with rfl | hOld
    · obtain rfl : event = other := Except.ok.inj ((decodeEvent_of_open hOpen).symm.trans hOther)
      exact hClock
    · have hBefore := h entry hOld other hOther
      exact hBefore.trans (total_mono fun _ hMem => List.mem_cons_of_mem _ hMem)

/-- A clock is built from sequences that were used, and the new one. -/
theorem clockTotal_le (h : client.buildEvent P identity collection draft = .ok event) :
    clockTotal event ≤ total ((draft.signer, (client.nextSequence P identity collection).toNat) ::
      client.streamLog identity collection) := by
  obtain ⟨document, -, -, -, hTotal⟩ := buildEvent_eq_ok h
  rw [hTotal]
  apply sum_le_total
  intro publicKey _
  unfold clockEntry
  split_ifs with hSigner
  · rw [hSigner]
    exact le_highest List.mem_cons_self
  · exact (PolycentricClient.observedSequence_le publicKey).trans
      (highest_mono (fun _ hMem => List.mem_cons_of_mem _ hMem) publicKey)

theorem ClocksBounded.step {action : WriterAction} (h : ClocksBounded P identity collection client)
    (hHonest : action.Honest P identity collection client) :
    ClocksBounded P identity collection (action.step P identity collection client) := by
  cases action with
  | write draft signed =>
      show ClocksBounded P identity collection (ite _ _ _)
      split_ifs with hOk
      · obtain ⟨event, hBuilt⟩ := isOk_iff.mp hOk
        have hOpen : signed.open P = .ok event := by
          apply hHonest.1
          simp [WriterAction.builds, hBuilt, Except.toOption]
        obtain ⟨_, -, hKey, -, -⟩ := buildEvent_eq_ok hBuilt
        exact h.commit hOpen hKey (clockTotal_le hBuilt) draft.contentBytes
      · exact h
  | bootstrap draft signed =>
      obtain ⟨hOpen, rfl, -⟩ := hHonest
      have hClock : 1 ≤ total ((draft.signer, UInt64.toNat 1) ::
          client.streamLog identity Collections.identity) := by
        have hOne : ∑ _publicKey ∈ {draft.signer}, 1 ≤ total ((draft.signer, UInt64.toNat 1) ::
            client.streamLog identity Collections.identity) := by
          apply sum_le_total
          intro publicKey hMem
          rw [Finset.mem_singleton.mp hMem]
          exact le_highest List.mem_cons_self
        simpa using hOne
      exact h.commit (hOpen _ _ rfl) rfl hClock draft.contentBytes
  | other call => exact h.congr hHonest.2

/-- With a covering clock, the new event has the highest sum. -/
theorem total_lt_clockTotal (hBuilt : client.buildEvent P identity collection draft = .ok event)
    (hCovered : (WriterAction.write draft signed).Covered P identity collection client) :
    total (client.streamLog identity collection) < clockTotal event := by
  obtain ⟨document, hDocument, -, -, hTotal⟩ := buildEvent_eq_ok hBuilt
  have hCovers := hCovered document hDocument
  have hFits : ∀ entry ∈ client.eventStore.byIdentityAndCollection identity collection,
      entry.1.sequence.toNat + 1 < 2 ^ 64 := by
    intro entry hEntry
    have := hCovers.fits entry hEntry
    omega
  have hBelow : ∀ n, (draft.signer, n) ∈ client.streamLog identity collection →
      n < (client.nextSequence P identity collection).toNat := by
    intro n hMem
    obtain ⟨entry, hEntry, -, rfl⟩ := PolycentricClient.mem_streamLog.mp hMem
    obtain ⟨latest, hLatest, -, hLe, hValid⟩ := hCovers.valid entry hEntry
    have hNext := PolycentricClient.lt_nextSequence hFits hLatest hValid
    rw [UInt64.le_iff_toNat_le] at hLe
    omega
  rw [hTotal]
  apply total_lt_sum
  · intro entry hEntry
    obtain ⟨stored, hStored, hSigner, -⟩ := PolycentricClient.mem_streamLog.mp hEntry
    rw [List.mem_toFinset, Identity.mem_deduplicatedKeys, ← hSigner]
    exact hCovers.listed stored hStored
  · intro publicKey _
    apply highest_le
    intro n hMem
    unfold clockEntry
    split_ifs with hSigner
    · rw [hSigner] at hMem
      exact (hBelow n hMem).le
    · obtain ⟨entry, hEntry, rfl, rfl⟩ := PolycentricClient.mem_streamLog.mp hMem
      obtain ⟨latest, hLatest, hSame, hLe, hValid⟩ := hCovers.valid entry hEntry
      have hObserved := PolycentricClient.le_observedSequence hLatest hValid
      rw [hSame] at hObserved
      exact UInt64.le_iff_toNat_le.mp (UInt64.le_trans hLe hObserved)
  · exact List.mem_toFinset.mpr (Identity.mem_deduplicatedKeys.mpr hCovers.signer)
  · have hPos := PolycentricClient.nextSequence_pos (P := P) hFits
    have hHighest : highest (client.streamLog identity collection) draft.signer ≤
        (client.nextSequence P identity collection).toNat - 1 := by
      apply highest_le
      intro n hMem
      exact Nat.le_sub_one_of_lt (hBelow n hMem)
    unfold clockEntry
    rw [if_pos rfl]
    omega

/-- The sum of its clock does not overflow. -/
theorem clockTotal_lt (hBuilt : client.buildEvent P identity collection draft = .ok event)
    (hCovered : (WriterAction.write draft signed).Covered P identity collection client) :
    clockTotal event < 2 ^ 64 := by
  obtain ⟨document, hDocument, -, -, hTotal⟩ := buildEvent_eq_ok hBuilt
  have hCovers := hCovered document hDocument
  let log := client.streamLog identity collection
  have hSum : clockTotal event ≤ (client.nextSequence P identity collection).toNat + total log := by
    calc clockTotal event
        ≤ ∑ publicKey ∈ document.deduplicatedKeys.toFinset,
            ((if publicKey = draft.signer then (client.nextSequence P identity collection).toNat
              else 0) + highest log publicKey) := by
          rw [hTotal]
          apply Finset.sum_le_sum
          intro publicKey _
          unfold clockEntry
          split_ifs with hSigner
          · exact Nat.le_add_right _ _
          · rw [Nat.zero_add]
            exact PolycentricClient.observedSequence_le publicKey
      _ ≤ (client.nextSequence P identity collection).toNat + total log := by
          rw [Finset.sum_add_distrib, Finset.sum_ite_eq']
          apply Nat.add_le_add _ (sum_le_total fun _ _ => le_rfl)
          split_ifs
          · exact le_rfl
          · exact Nat.zero_le _
  have hRoom : total log + 1 < 2 ^ 64 := by
    by_cases hStream : client.eventStore.byIdentityAndCollection identity collection = []
    · have hZero : total log = 0 := by
        simp [log, PolycentricClient.streamLog, hStream, total]
      omega
    · obtain ⟨entry, hEntry⟩ := List.exists_mem_of_ne_nil _ hStream
      have hFits : _ + 1 + total log < 2 ^ 64 := hCovers.fits entry hEntry
      omega
  have hNext : (client.nextSequence P identity collection).toNat ≤ 2 ^ 64 - 1 - total log := by
    apply PolycentricClient.nextSequence_le
    · omega
    · intro entry hEntry
      have hFits : _ + 1 + total log < 2 ^ 64 := hCovers.fits entry hEntry
      omega
  omega

end Bounded

/-! ### The list and the roots -/

section List

variable {P} {client : PolycentricClient} {identity : String} {collection : Int32}
  {action : WriterAction}

/-- An event with a clock above the log of the collection is placed last. -/
theorem canonicalSignatures_commit {draft : Draft} {event : Event} {signed : SignedEvent}
    {sequence : UInt64} (h : ClocksBounded P identity collection client)
    (hOpen : signed.open P = .ok event)
    (hKey : event.key = some ⟨collection, identity, some draft.signer, sequence⟩)
    (hNew : client.eventStore.get
      ⟨identity, collection, draft.signer.keyType, draft.signer.key, sequence⟩ = none)
    (hAbove : total (client.streamLog identity collection) < clockTotal event)
    (hFits : clockTotal event < 2 ^ 64) (contentBytes : Bytes) :
    (client.commitEvent P signed contentBytes).canonicalSignatures P identity collection =
      client.canonicalSignatures P identity collection ++ [signed.signature] := by
  have hClock : ∀ event : Event,
      ((event.vectorClock.map fun clock : VectorClock => clock.sequence.sum).getD 0).toNat =
        clockTotal event % 2 ^ 64 := by
    intro event
    unfold clockTotal
    cases event.vectorClock with
    | none => rfl
    | some clock => exact toNat_sum _
  rcases commitEvent_stream hOpen hKey contentBytes with ⟨hStored, -⟩ | ⟨-, hPerm⟩
  · exact absurd hNew hStored
  · apply canonicalSignatures_concat (hPerm.map _)
      (canonicalKey_eq_some (decodeEvent_of_open hOpen)) rfl
    intro item hItem otherKey hOtherKey
    obtain ⟨entry, hEntry, rfl⟩ := List.mem_map.mp hItem
    cases hDecoded : P.decodeEvent entry.2.eventBytes with
    | error e => simp [canonicalKey, hDecoded, Except.toOption] at hOtherKey
    | ok other =>
        rw [canonicalKey_eq_some hDecoded] at hOtherKey
        obtain rfl := Option.some.inj hOtherKey
        have hBelow := h entry hEntry other hDecoded
        rw [UInt64.lt_iff_toNat_lt, hClock, hClock, Nat.mod_eq_of_lt hFits,
          Nat.mod_eq_of_lt (by omega)]
        omega

/-- The new key is not in use. -/
theorem get_nextSequence {draft : Draft} {event : Event} {signed : SignedEvent}
    (hBuilt : client.buildEvent P identity collection draft = .ok event)
    (hCovered : (WriterAction.write draft signed).Covered P identity collection client) :
    client.eventStore.get ⟨identity, collection, draft.signer.keyType, draft.signer.key,
      client.nextSequence P identity collection⟩ = none := by
  rw [Option.eq_none_iff_forall_ne_some]
  intro stored hStored
  obtain ⟨document, hDocument, -, -, -⟩ := buildEvent_eq_ok hBuilt
  have hCovers := hCovered document hDocument
  have hFits : ∀ entry ∈ client.eventStore.byIdentityAndCollection identity collection,
      entry.1.sequence.toNat + 1 < 2 ^ 64 := by
    intro entry hEntry
    have := hCovers.fits entry hEntry
    omega
  have hMem := (lookup_eq_some_iff client.eventStore.sorted).mp hStored
  have hStream := EventStore.mem_byIdentityAndCollection.mpr ⟨hMem, rfl, rfl⟩
  obtain ⟨latest, hLatest, -, hLe, hValid⟩ := hCovers.valid _ hStream
  have hNext := PolycentricClient.lt_nextSequence hFits hLatest hValid
  rw [UInt64.le_iff_toNat_le] at hLe
  exact absurd (Nat.lt_of_le_of_lt hLe hNext) (Nat.lt_irrefl _)

theorem ClocksBounded.appends (h : ClocksBounded P identity collection client)
    (hHonest : action.Honest P identity collection client)
    (hCovered : action.Covered P identity collection client) :
    action.Appends P identity collection client := by
  intro event signed hBuilds
  have hOpen := hHonest.1 event signed hBuilds
  cases action with
  | write draft signed' =>
      obtain ⟨event', hOption, hPair⟩ := Option.map_eq_some_iff.mp hBuilds
      obtain ⟨rfl, rfl⟩ := Prod.mk.inj hPair
      have hBuilt := toOption_eq_some_iff.mp hOption
      obtain ⟨_, -, hKey, -, -⟩ := buildEvent_eq_ok hBuilt
      have hStep : WriterAction.step P identity collection client (.write draft signed') =
          client.commitEvent P signed' draft.contentBytes :=
        if_pos (isOk_iff.mpr ⟨_, hBuilt⟩)
      rw [hStep]
      exact canonicalSignatures_commit h hOpen hKey (get_nextSequence hBuilt hCovered)
        (total_lt_clockTotal hBuilt hCovered) (clockTotal_lt hBuilt hCovered) _
  | bootstrap draft signed' =>
      obtain ⟨rfl, rfl⟩ := Prod.mk.inj (Option.some.inj hBuilds)
      obtain ⟨-, rfl, hEmpty⟩ := hHonest
      have hLog : total (client.streamLog identity Collections.identity) = 0 := by
        simp [PolycentricClient.streamLog, hEmpty, total]
      have hClock : clockTotal (PolycentricClient.bootstrapEvent P identity draft) = 1 := rfl
      refine canonicalSignatures_commit h hOpen rfl ?_ (by omega) (by omega) _
      rw [Option.eq_none_iff_forall_ne_some]
      intro stored hStored
      have hMem := (lookup_eq_some_iff client.eventStore.sorted).mp hStored
      have hStream := EventStore.mem_byIdentityAndCollection.mpr ⟨hMem, rfl, rfl⟩
      rw [hEmpty] at hStream
      cases hStream
  | other call => cases hBuilds

/-- A step without a new event leaves the list as it is. -/
theorem canonicalSignatures_of_builds_none (hHonest : action.Honest P identity collection client)
    (hNone : action.builds P identity collection client = none) :
    (action.step P identity collection client).canonicalSignatures P identity collection =
      client.canonicalSignatures P identity collection := by
  cases action with
  | write draft signed =>
      have hError : ¬(client.buildEvent P identity collection draft).isOk := by
        intro hOk
        obtain ⟨event, hBuilt⟩ := isOk_iff.mp hOk
        simp [WriterAction.builds, hBuilt, Except.toOption] at hNone
      have hStep : WriterAction.step P identity collection client (.write draft signed) = client :=
        if_neg hError
      rw [hStep]
  | bootstrap draft signed => cases hNone
  | other call =>
      unfold PolycentricClient.canonicalSignatures
      rw [← hHonest.2]
      rfl

/-- The list only grows at its end. -/
theorem ClocksBounded.isPrefix (h : ClocksBounded P identity collection client)
    (hHonest : action.Honest P identity collection client)
    (hCovered : action.Covered P identity collection client) :
    client.canonicalSignatures P identity collection <+:
      (action.step P identity collection client).canonicalSignatures P identity collection := by
  cases hBuilds : action.builds P identity collection client with
  | none =>
      rw [canonicalSignatures_of_builds_none hHonest hBuilds]
  | some built =>
      rw [h.appends hHonest hCovered built.1 built.2 hBuilds]
      exact List.prefix_append _ _

/-- The root of a new event is over a prefix of the list. -/
theorem exists_prefix_of_builds {event : Event} {signed : SignedEvent}
    (hBuilds : action.builds P identity collection client = some (event, signed)) :
    ∃ leaves, leaves <+: client.canonicalSignatures P identity collection ∧
      event.previousRoot = rootOf P leaves := by
  cases action with
  | write draft signed' =>
      obtain ⟨event', hOption, hPair⟩ := Option.map_eq_some_iff.mp hBuilds
      obtain ⟨rfl, rfl⟩ := Prod.mk.inj hPair
      obtain ⟨_, -, -, hRoot, -⟩ := buildEvent_eq_ok (toOption_eq_some_iff.mp hOption)
      exact ⟨_, List.prefix_refl _, hRoot⟩
  | bootstrap draft signed' =>
      obtain ⟨rfl, rfl⟩ := Prod.mk.inj (Option.some.inj hBuilds)
      exact ⟨[], List.nil_prefix, rfl⟩
  | other call => cases hBuilds

end List

/-- Every root signed so far is the root over a prefix of the current list. -/
def RootsOverPrefixes (identity : String) (collection : Int32)
    (history : List (PolycentricClient × WriterAction)) (client : PolycentricClient) : Prop :=
  ∀ earlier ∈ history, ∀ event signed,
    earlier.2.builds P identity collection earlier.1 = some (event, signed) →
    ∃ leaves, leaves <+: client.canonicalSignatures P identity collection ∧
      event.previousRoot = rootOf P leaves

/-- What a run with covering clocks keeps. -/
structure GrowsAtEnd (identity : String) (collection : Int32)
    (history : List (PolycentricClient × WriterAction)) (client : PolycentricClient) : Prop where
  clocks : ClocksBounded P identity collection client
  roots : RootsOverPrefixes P identity collection history client

section Run

variable {P} {client : PolycentricClient} {identity : String} {collection : Int32}
  {action : WriterAction} {history : List (PolycentricClient × WriterAction)}

theorem GrowsAtEnd.step (h : GrowsAtEnd P identity collection history client)
    (hHonest : action.Honest P identity collection client)
    (hCovered : action.Covered P identity collection client) :
    GrowsAtEnd P identity collection (history ++ [(client, action)])
      (action.step P identity collection client) := by
  refine ⟨h.clocks.step hHonest, ?_⟩
  have hPrefix := h.clocks.isPrefix hHonest hCovered
  intro earlier hEarlier event signed hBuilds
  rcases List.mem_append.mp hEarlier with hOld | hNew
  · obtain ⟨leaves, hLeaves, hRoot⟩ := h.roots earlier hOld event signed hBuilds
    exact ⟨leaves, hLeaves.trans hPrefix, hRoot⟩
  · obtain rfl := List.mem_singleton.mp hNew
    obtain ⟨leaves, hLeaves, hRoot⟩ := exists_prefix_of_builds hBuilds
    exact ⟨leaves, hLeaves.trans hPrefix, hRoot⟩

theorem growsAtEnd_start
    (hEmpty : client.eventStore.byIdentityAndCollection identity collection = []) :
    GrowsAtEnd P identity collection [] client where
  clocks := by
    intro entry hEntry
    rw [hEmpty] at hEntry
    cases hEntry
  roots := by
    intro earlier hEarlier
    cases hEarlier

end Run

/-- A run that builds events of one collection, from an empty collection on. If
every clock covers the collection, every new signature is placed last, and every
root signed so far is the root over a prefix of the current list. -/
theorem canonical_append_only (identity : String) (collection : Int32) (client : PolycentricClient)
    (actions : List WriterAction)
    (hEmpty : client.eventStore.byIdentityAndCollection identity collection = [])
    (hHonest : Along (WriterAction.step P identity collection)
      (WriterAction.Honest P identity collection) client actions)
    (hCovered : Along (WriterAction.step P identity collection)
      (WriterAction.Covered P identity collection) client actions) :
    Along (WriterAction.step P identity collection) (WriterAction.Appends P identity collection)
      client actions ∧
    RootsOverPrefixes P identity collection
      (trace (WriterAction.step P identity collection) client actions)
      (run (WriterAction.step P identity collection) client actions) := by
  have hAlong := hHonest.and hCovered
  have hStart := growsAtEnd_start (P := P) hEmpty
  constructor
  · exact along_of_invariant (fun h hStep => h.step hStep.1)
      (fun h hStep => h.appends hStep.1 hStep.2) hStart.clocks hAlong
  · have hGrown : GrowsAtEnd P identity collection
        (trace (WriterAction.step P identity collection) client actions)
        (run (WriterAction.step P identity collection) client actions) :=
      trace_invariant (fun h hStep => h.step hStep.1 hStep.2) hStart hAlong
    exact hGrown.roots

end Polycentric.Client

namespace Polycentric.TableInstance

open Client Proto

/-! Two keys of one client write posts, and then `key 1` drops `key 2`. -/

def pairDocument : Identity := document [key 1] [key 2]

def pairIdentity : String := identityOf pairDocument

def pairSigned (n : UInt8) (signer : PublicKey) : SignedEvent := ⟨sign signer.key [n], [n]⟩

/-- A post over the signatures before it. -/
def pairPost (signer : PublicKey) (sequence identitySequence : UInt64) (vectorClock : List UInt64)
    (before : List SignedEvent) : Event :=
  { event Collections.feed pairIdentity signer sequence vectorClock [20] with
    identitySequence := identitySequence
    previousSignature := ((before.map SignedEvent.signature).getLast?).getD []
    previousRoot := rootOf (primitives [] []) (before.map SignedEvent.signature) }

def pairPrimitives : Primitives := primitives
  [([1], event Collections.identity pairIdentity (key 1) 1 [1, 0] [11]),
    ([2], event Collections.identity pairIdentity (key 2) 2 [1, 2] [11]),
    ([3], event Collections.identity pairIdentity (key 1) 3 [3] [12]),
    ([5], pairPost (key 1) 1 1 [1, 0] []),
    ([6], pairPost (key 2) 2 2 [1, 2] [pairSigned 5 (key 1)]),
    ([7], pairPost (key 1) 3 1 [3, 2] [pairSigned 5 (key 1), pairSigned 6 (key 2)]),
    ([8], pairPost (key 1) 4 3 [4]
      [pairSigned 5 (key 1), pairSigned 6 (key 2), pairSigned 7 (key 1)])]
  [([11], ⟨some (.identity pairDocument)⟩), ([12], ⟨some (.identity (document [key 1] []))⟩),
    ([20], ⟨some (.post ⟨"hello", none, [], none, []⟩)⟩)]

def pairBundle (n : UInt8) (signer : PublicKey) (contentBytes : Bytes) : EventBundle :=
  ⟨some (pairSigned n signer), some ⟨contentBytes⟩, [], none⟩

def pairWrite (n : UInt8) (signer : PublicKey) : WriterAction :=
  .write ⟨signer, [20], 0⟩ (pairSigned n signer)

/-- The identity, and a post by each key. -/
def pairWrites : List WriterAction :=
  [.other (.copyBundles [pairBundle 1 (key 1) [11], pairBundle 2 (key 2) [11]]),
    pairWrite 5 (key 1), pairWrite 6 (key 2)]

/-- Then one more post, the update that drops `key 2`, and another post. -/
def pairWritesDropped : List WriterAction :=
  pairWrites ++ [pairWrite 7 (key 1), .other (.copyBundles [pairBundle 3 (key 1) [12]]),
    pairWrite 8 (key 1)]

end Polycentric.TableInstance

namespace Polycentric.Client

open TableInstance Runs

/-- While both keys are listed, the posts are appended. -/
theorem canonical_append_only_pair :
    Along (WriterAction.step pairPrimitives pairIdentity Collections.feed)
      (WriterAction.Appends pairPrimitives pairIdentity Collections.feed) PolycentricClient.new
      pairWrites :=
  (canonical_append_only pairPrimitives pairIdentity Collections.feed PolycentricClient.new
    pairWrites rfl (by decide +kernel) (by decide +kernel)).1

/-- Without an entry for `key 2` the sum of the clock drops from 5 to 4, and the
new post is placed before the last one. -/
theorem canonical_not_append_only_dropped :
    Along (WriterAction.step pairPrimitives pairIdentity Collections.feed)
        (WriterAction.Honest pairPrimitives pairIdentity Collections.feed) PolycentricClient.new
        pairWritesDropped ∧
      ¬Along (WriterAction.step pairPrimitives pairIdentity Collections.feed)
        (WriterAction.Appends pairPrimitives pairIdentity Collections.feed) PolycentricClient.new
        pairWritesDropped := by
  decide +kernel

end Polycentric.Client

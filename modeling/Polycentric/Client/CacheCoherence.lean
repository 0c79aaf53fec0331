import Polycentric.Client.Copying
import Polycentric.Common.ChainSafety
import Polycentric.Library.Runs

/-! The caches of a client. Chains and the block list are remembered until a copy
may have changed them, so every read answers as if nothing were cached. -/
namespace Polycentric.Client

open Proto Result Memo Runs SortedEntries

variable (P : Primitives)

/-! ### What the reads depend on -/

/-- The same events and proofs, and the same content for every digest. -/
structure SameStores (a b : PolycentricClient) : Prop where
  events : a.eventStore = b.eventStore
  proofs : a.eventProofsStore = b.eventProofsStore
  contents : ∀ digest, a.contentStore.get digest = b.contentStore.get digest

def withoutMetadata (bundle : EventBundle) : EventBundle := { bundle with metadata := none }

/-- Valid bundles, without the deleted ones. -/
def untombstoned (bundles : List (EventKey × EventBundle)) : List EventBundle :=
  (bundles.filter fun entry => entry.1 ∉ bundles.filterMap fun entry => deleteTarget P entry.2).map
    Prod.snd

section Congruence

variable {P} {a b : PolycentricClient}

/-- The chain depends on the contents only through what is found under a digest. -/
theorem resolveIdentityChain_congr {eventStore : EventStore} {contents₁ contents₂ : ContentStore}
    (h : ∀ digest, contents₁.get digest = contents₂.get digest) (identity : String) :
    resolveIdentityChain P identity eventStore contents₁ =
      resolveIdentityChain P identity eventStore contents₂ := by
  have hCandidate : ∀ signed, toIdentityCandidate P contents₁ signed =
      toIdentityCandidate P contents₂ signed := by
    intro signed
    simp only [toIdentityCandidate, h]
  simp only [resolveIdentityChain, hCandidate]

/-- An event is judged by the stored events and the chains. -/
theorem validateEvent_congr (hEvents : a.eventStore = b.eventStore)
    (hChains : ∀ identity, a.identityChain P identity = b.identityChain P identity)
    (signed : SignedEvent) (proofs : List EventProof) :
    a.validateEvent P signed proofs = b.validateEvent P signed proofs := by
  simp only [PolycentricClient.validateEvent, hEvents, hChains]

/-- Clients with the same stores build the same bundle, up to its metadata. -/
theorem bundleFor_congr (h : SameStores a b) (key : EventKey) (signed : SignedEvent) :
    (a.bundleFor P key signed true).map withoutMetadata =
      (b.bundleFor P key signed true).map withoutMetadata := by
  have hContents : a.contentStore.get = b.contentStore.get := funext h.contents
  simp only [PolycentricClient.bundleFor, h.proofs, hContents]
  cases P.decodeEvent signed.eventBytes <;> rfl

/-- What is left out for a tombstone does not depend on the metadata. -/
theorem map_untombstoned (bundles : List (EventKey × EventBundle)) :
    (untombstoned P bundles).map withoutMetadata =
      untombstoned P (bundles.map fun entry => (entry.1, withoutMetadata entry.2)) := by
  have hTarget : (bundles.map fun entry => (entry.1, withoutMetadata entry.2)).filterMap
      (fun entry => deleteTarget P entry.2) =
      bundles.filterMap fun entry => deleteTarget P entry.2 := by
    rw [List.filterMap_map]
    rfl
  unfold untombstoned
  rw [hTarget, List.filter_map, List.map_map, List.map_map]
  rfl

/-- The listing is what is stored and valid, each as a bundle, without the tombstoned. -/
theorem listValidEvents_eq (client : PolycentricClient) (identity : String) (collection : Int32) :
    client.listValidEvents P identity collection =
      (((client.eventStore.byIdentityAndCollection identity collection).filter fun entry =>
        (client.validateEvent P entry.2 (client.eventProofsStore.get entry.1)).isOk).mapM fun entry =>
          (client.bundleFor P entry.1 entry.2 true).map fun bundle => (entry.1, bundle)).map
        (untombstoned P) := by
  have hBundle : (fun entry : EventKey × SignedEvent =>
      (client.bundleFor P entry.1 entry.2 true).map fun bundle => (entry.1, bundle)) =
      fun entry => do return (entry.1, ← client.bundleFor P entry.1 entry.2 true) := by
    funext entry
    cases client.bundleFor P entry.1 entry.2 true <;> rfl
  have hReturn : ∀ bundles : Except CoreError (List (EventKey × EventBundle)),
      (do return untombstoned P (← bundles)) = bundles.map (untombstoned P) := by
    intro bundles
    cases bundles <;> rfl
  rw [hBundle]
  exact hReturn _

/-- The valid events of a collection, metadata aside. -/
theorem listValidEvents_congr (h : SameStores a b)
    (hChains : ∀ identity, a.identityChain P identity = b.identityChain P identity)
    (identity : String) (collection : Int32) :
    (a.listValidEvents P identity collection).map (List.map withoutMetadata) =
      (b.listValidEvents P identity collection).map (List.map withoutMetadata) := by
  have hStrip : ∀ bundles : Except CoreError (List (EventKey × EventBundle)),
      (bundles.map (untombstoned P)).map (List.map withoutMetadata) =
        (bundles.map (List.map fun entry => (entry.1, withoutMetadata entry.2))).map
          (untombstoned P) := by
    intro bundles
    cases bundles with
    | error e => rfl
    | ok bundles => exact congrArg Except.ok (map_untombstoned bundles)
  simp only [listValidEvents_eq, hStrip, h.events, h.proofs, validateEvent_congr h.events hChains]
  rw [map_mapM_congr]
  rintro ⟨key, signed⟩
  have hBundle := bundleFor_congr (P := P) h key signed
  cases hA : a.bundleFor P key signed true <;> cases hB : b.bundleFor P key signed true <;>
    simp_all [Except.map]

end Congruence

/-! ### What copying leaves as it is -/

section Frames

variable {P} {eventStore : EventStore} {contentStore : ContentStore}

/-- An event of another identity or another collection does not show in a listing. -/
theorem byIdentityAndCollection_insert {key : EventKey} {identity : String} {collection : Int32}
    (h : ¬(key.identity = identity ∧ key.collection = collection)) (signed : SignedEvent) :
    EventStore.byIdentityAndCollection (eventStore.insert key signed) identity collection =
      eventStore.byIdentityAndCollection identity collection := by
  rw [EventStore.byIdentityAndCollection_eq_filter, EventStore.byIdentityAndCollection_eq_filter]
  apply filter_insertEntry
  intro value
  simpa using h

/-- An event outside of the identity collection, or of another identity, is not
part of the chain. -/
theorem resolveIdentityChain_insert {key : EventKey} {identity : String}
    (h : ¬(key.identity = identity ∧ key.collection = Collections.identity)) (signed : SignedEvent) :
    resolveIdentityChain P identity (eventStore.insert key signed) contentStore =
      resolveIdentityChain P identity eventStore contentStore := by
  simp only [resolveIdentityChain, byIdentityAndCollection_insert h]

theorem resolveChain_congr {identity : String} {candidates₁ candidates₂ : List IdentityCandidate}
    (h : decodedEvents P identity candidates₁ = decodedEvents P identity candidates₂) :
    resolveChain P identity candidates₁ = resolveChain P identity candidates₂ := by
  unfold decodedEvents at h
  simp only [resolveChain, h]

/-- A candidate whose content is no identity document does not count. -/
theorem preprocessCandidate_eq_none {candidate : IdentityCandidate}
    (h : ∀ content, P.decodeContent candidate.contentBytes = .ok content →
      ∀ document, content.contentBody ≠ some (.identity document)) (identity : String) :
    preprocessCandidate P identity candidate = none := by
  rw [Option.eq_none_iff_forall_ne_some]
  intro event hEvent
  obtain ⟨_, _, _, _, _, hContent, _⟩ := preprocessCandidate_eq_some_iff.mp hEvent
  exact h _ hContent _ rfl

/-- Content that is no identity document changes no chain. -/
theorem resolveIdentityChain_insert_content {digest : ContentDigest} {contentBytes : Bytes}
    (hNew : contentStore.get digest = none)
    (hOther : ∀ content, P.decodeContent contentBytes = .ok content →
      ∀ document, content.contentBody ≠ some (.identity document)) (identity : String) :
    resolveIdentityChain P identity eventStore ⟨(digest, contentBytes) :: contentStore.contents⟩ =
      resolveIdentityChain P identity eventStore contentStore := by
  have hCandidate : ∀ signed : SignedEvent,
      (toIdentityCandidate P ⟨(digest, contentBytes) :: contentStore.contents⟩ signed).bind
        (preprocessCandidate P identity) =
      (toIdentityCandidate P contentStore signed).bind (preprocessCandidate P identity) := by
    intro signed
    unfold toIdentityCandidate
    cases (P.decodeEvent signed.eventBytes).toOption with
    | none => rfl
    | some event =>
        cases hDigest : event.contentDigest with
        | none => simp [hDigest]
        | some eventDigest =>
            by_cases hSame : eventDigest = digest
            · have hAbsent : contentStore.contents.lookup digest = none := hNew
              simp only [hDigest, hSame, ContentStore.get, List.lookup_cons, beq_self_eq_true,
                hAbsent, Option.pure_def, Option.bind_eq_bind, Option.bind_some, Option.bind_none]
              exact preprocessCandidate_eq_none hOther identity
            · simp [hDigest, ContentStore.get, List.lookup_cons, beq_false_of_ne hSame]
  simp only [resolveIdentityChain]
  rw [resolveChain_congr]
  unfold decodedEvents
  rw [List.filterMap_filterMap, List.filterMap_filterMap]
  apply List.filterMap_congr
  intro entry _
  exact hCandidate entry.2

end Frames

/-! ### Coherence -/

namespace PolycentricClient

/-- The same client with empty caches. -/
def uncached (client : PolycentricClient) : PolycentricClient :=
  { client with blockedIdentities := none, chains := [] }

/-- Every cached chain is the one that the stores give. -/
def ChainsCoherent (client : PolycentricClient) : Prop :=
  Table.Coherent (fun identity chain =>
    resolveIdentityChain P identity client.eventStore client.contentStore = .ok chain) client.chains

/-- So is the cached block list. -/
structure CachesCoherent (client : PolycentricClient) : Prop where
  chains : client.ChainsCoherent P
  blocked : ∀ blocked, client.blockedIdentities = some blocked → client.uncached.blocked P = blocked

variable {P} {client : PolycentricClient}

/-- A coherent cache answers what resolving again would. -/
theorem ChainsCoherent.identityChain_eq (h : client.ChainsCoherent P) (identity : String) :
    client.identityChain P identity =
      resolveIdentityChain P identity client.eventStore client.contentStore := by
  unfold identityChain
  split
  · next chain hCached => exact (h identity chain hCached).symm
  · rfl

theorem sameStores_uncached (client : PolycentricClient) : SameStores client client.uncached :=
  ⟨rfl, rfl, fun _ => rfl⟩

/-- The block list of a client whose list is not cached. -/
theorem blocked_congr {a b : PolycentricClient} (h : SameStores a b)
    (hChains : ∀ identity, a.identityChain P identity = b.identityChain P identity)
    (hActive : a.activeIdentity = b.activeIdentity) (hA : a.blockedIdentities = none)
    (hB : b.blockedIdentities = none) : a.blocked P = b.blocked P := by
  have hTargets : ∀ bundles : List EventBundle,
      (bundles.map withoutMetadata).filterMap (blockTarget P) = bundles.filterMap (blockTarget P) := by
    intro bundles
    rw [List.filterMap_map]
    rfl
  unfold blocked
  rw [hA, hB, hActive]
  cases b.activeIdentity with
  | none => rfl
  | some active =>
      have hList := listValidEvents_congr h hChains active Collections.socialGraph
      cases hListA : a.listValidEvents P active Collections.socialGraph with
      | error e =>
          cases hListB : b.listValidEvents P active Collections.socialGraph with
          | error e' => simp only [hListA, hListB]
          | ok bundles => simp [hListA, hListB, Except.map] at hList
      | ok bundlesA =>
          cases hListB : b.listValidEvents P active Collections.socialGraph with
          | error e => simp [hListA, hListB, Except.map] at hList
          | ok bundlesB =>
              rw [hListA, hListB] at hList
              have hBundles : bundlesA.map withoutMetadata = bundlesB.map withoutMetadata :=
                Except.ok.inj hList
              simp only [hListA, hListB]
              rw [← hTargets, hBundles, hTargets]

/-- Without a cached block list the blocks are read as from the stores. -/
theorem ChainsCoherent.blocked_eq (h : client.ChainsCoherent P)
    (hNone : client.blockedIdentities = none) : client.blocked P = client.uncached.blocked P :=
  blocked_congr (sameStores_uncached client) h.identityChain_eq rfl hNone rfl

/-- Reads answer as if nothing were cached. -/
theorem CachesCoherent.reads (h : client.CachesCoherent P) :
    (∀ identity, client.identityChain P identity = client.uncached.identityChain P identity) ∧
      client.blocked P = client.uncached.blocked P := by
  refine ⟨h.chains.identityChain_eq, ?_⟩
  cases hCached : client.blockedIdentities with
  | none => exact h.chains.blocked_eq hCached
  | some blocked =>
      rw [h.blocked blocked hCached]
      simp [PolycentricClient.blocked, hCached]

/-! ### One call -/

/-- A new identity event takes the chain of its identity out of the cache, and changes no other. -/
theorem ChainsCoherent.copyEvent (h : client.ChainsCoherent P) (signed : SignedEvent) :
    (client.copyEvent P signed).2.ChainsCoherent P := by
  have hCopied := eventCopied (P := P) client signed
  generalize (client.copyEvent P signed).2 = client' at hCopied ⊢
  cases hCopied with
  | kept => exact h
  | inserted key hKey hNew =>
      show Table.Coherent _ (ite _ _ _)
      split_ifs with hIdentity
      · -- Only the chain of the event's identity may have changed.
        refine h.remove ?_
        intro identity chain hOther hValid
        rw [resolveIdentityChain_insert fun hSame => hOther hSame.1.symm, hValid]
      · refine h.mono ?_
        intro identity chain hValid
        rw [resolveIdentityChain_insert fun hSame => hIdentity hSame.2, hValid]

/-- A new identity document takes every chain out of the cache, and no other content changes
one. -/
theorem ChainsCoherent.copyContent (h : client.ChainsCoherent P) (digest : ContentDigest)
    (contentBytes : Bytes) : (client.copyContent P digest contentBytes).2.ChainsCoherent P := by
  have hCopied := contentCopied (P := P) client digest contentBytes
  generalize (client.copyContent P digest contentBytes).2 = client' at hCopied ⊢
  cases hCopied with
  | rejected => exact h
  | kept => exact h
  | document => exact Table.coherent_nil
  | other _ hNew hOther =>
      refine h.mono ?_
      intro identity chain hValid
      rw [resolveIdentityChain_insert_content hNew hOther, hValid]

/-- Every event that is copied drops the cached block list. -/
theorem blockedIdentities_copyEvent (client : PolycentricClient) (signed : SignedEvent) :
    (client.copyEvent P signed).2.blockedIdentities = none := by
  have hCopied := eventCopied (P := P) client signed
  generalize (client.copyEvent P signed).2 = client' at hCopied ⊢
  cases hCopied with
  | kept => rfl
  | inserted => rfl

/-- With a dropped block list nothing but the chains is cached. -/
theorem ChainsCoherent.cachesCoherent (h : client.ChainsCoherent P)
    (hNone : client.blockedIdentities = none) : client.CachesCoherent P where
  chains := h
  blocked := fun blocked hCached => by rw [hNone] at hCached; cases hCached

theorem CachesCoherent.copyEvent (h : client.CachesCoherent P) (signed : SignedEvent) :
    (client.copyEvent P signed).2.CachesCoherent P :=
  (h.chains.copyEvent signed).cachesCoherent (blockedIdentities_copyEvent client signed)

theorem CachesCoherent.copyContent (h : client.CachesCoherent P) (digest : ContentDigest)
    (contentBytes : Bytes) : (client.copyContent P digest contentBytes).2.CachesCoherent P := by
  have hChains := h.chains.copyContent digest contentBytes
  have hCopied := contentCopied (P := P) client digest contentBytes
  generalize (client.copyContent P digest contentBytes).2 = client' at hChains hCopied ⊢
  cases hCopied with
  | rejected => exact h
  | kept => exact hChains.cachesCoherent rfl
  | document => exact hChains.cachesCoherent rfl
  | other => exact hChains.cachesCoherent rfl

theorem ChainsCoherent.copyBundleContent (h : client.ChainsCoherent P) (event : Event)
    (bundle : EventBundle) : (client.copyBundleContent P event bundle).ChainsCoherent P := by
  unfold PolycentricClient.copyBundleContent
  split
  · exact h.copyContent _ _
  · exact h

/-- No chain reads proofs or metadata. -/
theorem ChainsCoherent.copyBundleProofs (h : client.ChainsCoherent P) (event : Event)
    (bundle : EventBundle) : (client.copyBundleProofs event bundle).ChainsCoherent P := by
  unfold PolycentricClient.copyBundleProofs
  split
  · exact h
  · dsimp only
    split
    · exact h
    · exact h

/-- A bundle is copied event first, then content. -/
theorem ChainsCoherent.copyBundle (h : client.ChainsCoherent P) (entry : Event × EventBundle) :
    (client.copyBundle P entry).ChainsCoherent P := by
  have hCopied := (h.copyBundleContent entry.1 entry.2).copyBundleProofs entry.1 entry.2
  unfold PolycentricClient.copyBundle
  dsimp only
  split
  · exact hCopied.copyEvent _
  · exact hCopied

/-- A bundle whose event opens has a signed event, and copying it drops the block
list. -/
theorem CachesCoherent.copyBundle (h : client.CachesCoherent P) {entry : Event × EventBundle}
    (hSigned : entry.2.signedEvent.isSome) : (client.copyBundle P entry).CachesCoherent P := by
  refine (h.chains.copyBundle entry).cachesCoherent ?_
  obtain ⟨signed, hSome⟩ := Option.isSome_iff_exists.mp hSigned
  unfold PolycentricClient.copyBundle
  dsimp only
  rw [hSome]
  exact blockedIdentities_copyEvent _ signed

theorem mem_openBundles {bundles : List EventBundle} {entry : Event × EventBundle} :
    entry ∈ openBundles P bundles ↔ entry.2 ∈ bundles ∧
      ∃ signed, entry.2.signedEvent = some signed ∧ signed.open P = .ok entry.1 := by
  obtain ⟨event, bundle⟩ := entry
  simp only [openBundles, List.mem_filterMap, Option.bind_eq_bind, Option.bind_eq_some_iff,
    toOption_eq_some_iff, Option.pure_def, Option.some.injEq, Prod.mk.injEq]
  constructor
  · rintro ⟨_, hMem, signed, hSigned, _, hOpen, rfl, rfl⟩
    exact ⟨hMem, signed, hSigned, hOpen⟩
  · rintro ⟨hMem, signed, hSigned, hOpen⟩
    exact ⟨bundle, hMem, signed, hSigned, event, hOpen, rfl, rfl⟩

/-- The caches are coherent after a batch as after each of its bundles. -/
theorem CachesCoherent.copyBundles (h : client.CachesCoherent P) (bundles : List EventBundle) :
    (client.copyBundles P bundles).CachesCoherent P := by
  have hFold : ∀ (entries : List (Event × EventBundle)) (client : PolycentricClient),
      (∀ entry ∈ entries, entry.2.signedEvent.isSome) → client.CachesCoherent P →
      (entries.foldl (fun client entry => client.copyBundle P entry) client).CachesCoherent P := by
    intro entries
    induction entries with
    | nil =>
        intro client _ h
        exact h
    | cons entry rest ih =>
        intro client hSigned h
        apply ih
        · intro other hOther
          exact hSigned other (List.mem_cons_of_mem _ hOther)
        · exact h.copyBundle (hSigned entry List.mem_cons_self)
  apply hFold _ _ _ h
  intro entry hEntry
  rw [List.mem_insertionSort, mem_openBundles] at hEntry
  obtain ⟨-, signed, hSigned, -⟩ := hEntry
  rw [hSigned]
  rfl

theorem CachesCoherent.setActiveIdentity (h : client.CachesCoherent P) (identity : Option String) :
    (client.setActiveIdentity identity).CachesCoherent P :=
  ChainsCoherent.cachesCoherent h.chains rfl

/-- A read fills the cache with what resolving gives. -/
theorem ChainsCoherent.readChain (h : client.ChainsCoherent P) (identity : String) :
    (client.readChain P identity).ChainsCoherent P := by
  unfold PolycentricClient.readChain
  split
  · next chain hChain =>
      rw [h.identityChain_eq] at hChain
      exact h.insert hChain
  · exact h

/-- Reading a chain changes the cache of chains only. -/
theorem readChain_frame (client : PolycentricClient) (identity : String) :
    (client.readChain P identity).uncached = client.uncached ∧
      (client.readChain P identity).blockedIdentities = client.blockedIdentities := by
  unfold PolycentricClient.readChain
  split <;> exact ⟨rfl, rfl⟩

theorem CachesCoherent.readChain (h : client.CachesCoherent P) (identity : String) :
    (client.readChain P identity).CachesCoherent P := by
  obtain ⟨hUncached, hBlocked⟩ := readChain_frame (P := P) client identity
  refine ⟨h.chains.readChain identity, ?_⟩
  rw [hUncached, hBlocked]
  exact h.blocked

/-- So does reading several. -/
theorem ChainsCoherent.readChains (h : client.ChainsCoherent P) (identities : List String) :
    (identities.foldl (PolycentricClient.readChain P) client).ChainsCoherent P ∧
      (identities.foldl (PolycentricClient.readChain P) client).uncached = client.uncached := by
  induction identities generalizing client with
  | nil => exact ⟨h, rfl⟩
  | cons identity rest ih =>
      obtain ⟨hCoherent, hUncached⟩ := ih (h.readChain identity)
      exact ⟨hCoherent, hUncached.trans (readChain_frame client identity).1⟩

/-- The block list that is cached is the one that was computed, also when the
computation has cached chains. -/
theorem CachesCoherent.readBlocked (h : client.CachesCoherent P) :
    (client.readBlocked P).CachesCoherent P := by
  unfold PolycentricClient.readBlocked
  split
  · exact h
  · next hNone =>
      have hBlocked := h.chains.blocked_eq hNone
      have hStore : ∀ reader : PolycentricClient, reader.ChainsCoherent P →
          reader.uncached = client.uncached →
          PolycentricClient.CachesCoherent P
            { reader with blockedIdentities := some (client.blocked P) } := by
        intro reader hChains hUncached
        refine ⟨hChains, ?_⟩
        rintro _ ⟨⟩
        rw [hBlocked, ← hUncached]
        rfl
      dsimp only
      split
      · exact hStore _ h.chains rfl
      · obtain ⟨hChains, hUncached⟩ := h.chains.readChains _
        exact hStore _ hChains hUncached

/-! ### All calls -/

/-- A call that copies, changes the active identity or reads. -/
inductive Call where
  | copyEvent (signed : SignedEvent)
  | copyContent (digest : ContentDigest) (contentBytes : Bytes)
  | copyBundles (bundles : List EventBundle)
  | setActiveIdentity (identity : Option String)
  | readChain (identity : String)
  | readBlocked

variable (P)

/-- The client after a call. -/
def call (client : PolycentricClient) : Call → PolycentricClient
  | .copyEvent signed => (client.copyEvent P signed).2
  | .copyContent digest contentBytes => (client.copyContent P digest contentBytes).2
  | .copyBundles bundles => client.copyBundles P bundles
  | .setActiveIdentity identity => client.setActiveIdentity identity
  | .readChain identity => client.readChain P identity
  | .readBlocked => client.readBlocked P

variable {P}

/-- A new client has nothing cached. -/
theorem cachesCoherent_new : new.CachesCoherent P :=
  ChainsCoherent.cachesCoherent Table.coherent_nil rfl

/-- No call leaves a cache behind that says something else than the stores. -/
theorem CachesCoherent.call (h : client.CachesCoherent P) (call : Call) :
    (client.call P call).CachesCoherent P := by
  cases call with
  | copyEvent signed => exact h.copyEvent signed
  | copyContent digest contentBytes => exact h.copyContent digest contentBytes
  | copyBundles bundles => exact h.copyBundles bundles
  | setActiveIdentity identity => exact h.setActiveIdentity identity
  | readChain identity => exact h.readChain identity
  | readBlocked => exact h.readBlocked

/-- After every sequence of calls, `identity_chain` and `blocked_identities` answer
as they would with empty caches. -/
theorem reads_as_uncached (P : Primitives) (calls : List Call) :
    let client := run (PolycentricClient.call P) new calls
    (∀ identity, client.identityChain P identity = client.uncached.identityChain P identity) ∧
      client.blocked P = client.uncached.blocked P := by
  have hCoherent : (run (PolycentricClient.call P) new calls).CachesCoherent P :=
    run_invariant (fun h _ => CachesCoherent.call h _) cachesCoherent_new (along_true new calls)
  exact hCoherent.reads

end PolycentricClient

end Polycentric.Client

import Polycentric.Library.OptimisticAppend
import Polycentric.Library.Runs
import Polycentric.Merkle.Leaves
import Polycentric.Merkle.Tree

/-! The events that the moderation service creates: `publish_content` of `polycentric.rs`,
and `chain_head`, `persist_created` and `created_bundles` of `repository.rs`. Several
processes extend the chains of one account. They read where a chain ends from a replica of
the database, which may lag behind, and push the next event before they store it. Only the
primary keys keep them apart. -/
namespace Polycentric.Moderation

open Proto Runs OptimisticAppend

/-- Whose events they are: the columns of an event's key other than its sequence. -/
structure ChainId where
  collection : Int32
  identity : String
  publicKey : PublicKey
  deriving DecidableEq, Repr

/-- A row of `created_event`. Its primary key is the chain and the sequence, a number that
no chain gets to the end of. -/
structure CreatedEventRow where
  chain : ChainId
  sequence : Nat
  contentDigest : Option ContentDigest
  signature : Bytes
  previousSignature : Bytes
  previousRoot : Bytes
  eventBytes : Bytes
  deriving DecidableEq, Repr

/-- A row of `created_content`, unique by digest. -/
structure CreatedContentRow where
  digest : ContentDigest
  serializedBytes : Bytes
  deriving DecidableEq, Repr

/-- The tables, their rows in the order of insertion. -/
structure Store where
  event : List CreatedEventRow
  content : List CreatedContentRow
  deriving DecidableEq, Repr

/-- Chain position for the next event of a collection. -/
structure ChainHead where
  nextSequence : Nat
  previousSignature : Bytes
  previousRoot : Bytes
  deriving DecidableEq, Repr

/-- Signed event and content that should persist to the database. -/
structure CreatedEvent where
  chain : ChainId
  sequence : Nat
  event : Event
  signature : Bytes
  eventBytes : Bytes
  contentBytes : Bytes
  deriving DecidableEq, Repr

/-- The row that stores an event. -/
def CreatedEvent.row (created : CreatedEvent) : CreatedEventRow := {
  chain := created.chain
  sequence := created.sequence
  contentDigest := created.event.contentDigest
  signature := created.signature
  previousSignature := created.event.previousSignature
  previousRoot := created.event.previousRoot
  eventBytes := created.eventBytes }

inductive PublishError where
  | notReady (message : String)
  | transient (message : String)
  deriving DecidableEq, Repr

/-- The identity and the signing key of a process, and the codec of events. -/
structure Account where
  identity : String
  publicKey : PublicKey
  sign : Bytes → Bytes
  encodeEvent : Event → Bytes

variable (P : Primitives)

def sha256Digest (bytes : Bytes) : ContentDigest := ⟨contentDigestTypeSha256, (P.sha256 bytes).val⟩

/-- The head of the chain that has these events. -/
def headOf (rows : List CreatedEventRow) : ChainHead :=
  let canonical := canonicalSignatures P (rows.map fun row => (row.eventBytes, row.signature))
  { nextSequence := next CreatedEventRow.sequence rows
    previousSignature := canonical.getLast?.getD []
    previousRoot := ((merkleTreeHash P canonical).map Subtype.val).getD [] }

/-- The events of a chain. -/
def chainRows (rows : List CreatedEventRow) (chain : ChainId) : List CreatedEventRow :=
  rows.filter fun row => row.chain = chain

def chainHead (rows : List CreatedEventRow) (chain : ChainId) : ChainHead :=
  headOf P (chainRows rows chain)

/-- What the servers and the local client answer when an event is published. -/
structure Publication where
  identitySequence : UInt64
  vectorClock : Except String VectorClock
  createdAt : UInt64
  pushed : Bool

/-- `publish_content`: build, sign and push an event that extends the chain at `head`. -/
def publishContent (account : Account) (collection : Int32) (contentBytes : Bytes) (head : ChainHead)
    (answer : Publication) : Except PublishError CreatedEvent :=
  if answer.identitySequence = 0 then .error (.notReady "identity state not loaded")
  else
    match answer.vectorClock with
    | .error error => .error (.notReady error)
    | .ok vectorClock =>
        let event : Event := {
          key := some ⟨collection, account.identity, some account.publicKey, UInt64.ofNat head.nextSequence⟩
          identitySequence := answer.identitySequence
          vectorClock := some vectorClock
          previousSignature := head.previousSignature
          contentDigest := some (sha256Digest P contentBytes)
          createdAt := answer.createdAt
          previousRoot := head.previousRoot }
        if answer.pushed then
          .ok {
            chain := ⟨collection, account.identity, account.publicKey⟩
            sequence := head.nextSequence
            event := event
            signature := account.sign (account.encodeEvent event)
            eventBytes := account.encodeEvent event
            contentBytes := contentBytes }
        else .error (.transient "failed to push event to any server")

/-- A content that is stored already is left alone. -/
def insertContent (content : List CreatedContentRow) (digest : ContentDigest) (serializedBytes : Bytes) :
    List CreatedContentRow :=
  if content.any fun row => row.digest = digest then content else content ++ [⟨digest, serializedBytes⟩]

/-- `persist_created`, one transaction: an event whose key is taken is an error. -/
def persistCreated (store : Store) (created : CreatedEvent) : Except String Store :=
  let content := match created.event.contentDigest with
    | some digest => insertContent store.content digest created.contentBytes
    | none => store.content
  if store.event.any fun row => row.chain = created.chain && row.sequence = created.sequence then
    .error "duplicate key"
  else
    .ok ⟨store.event ++ [created.row], content⟩

/-- Every event of the identity, rebuilt into bundles with their content, here in the order in
which the rows were inserted. The query has no `ORDER BY`. -/
def createdBundles (store : Store) (identity : String) : List EventBundle :=
  (store.event.filter fun row => row.chain.identity = identity).map fun row =>
    { signedEvent := some ⟨row.signature, row.eventBytes⟩
      serializedContent := row.contentDigest.bind fun digest =>
        (store.content.find? fun content => content.digest = digest).map fun content =>
          ⟨content.serializedBytes⟩
      eventProofs := []
      metadata := none }

/-! ### Processes -/

/-- What a process is about to do. -/
inductive Stage where
  | idle
  | publishing (collection : Int32) (contentBytes : Bytes) (head : ChainHead)
  | persisting (created : CreatedEvent)
  deriving DecidableEq, Repr

/-- The database, the events that some server has accepted, and the processes. -/
structure Publisher where
  store : Store
  published : List CreatedEvent
  stage : Nat → Stage

def Publisher.new : Publisher := ⟨⟨[], []⟩, [], fun _ => .idle⟩

inductive Publisher.Action where
  | readHead (process : Nat) (collection : Int32) (contentBytes : Bytes) (replicated : Nat)
  | publish (process : Nat) (answer : Publication)
  | persist (process : Nat) (works : Bool)
  | stop (process : Nat)

variable (account : Nat → Account)

/-- A process reads the head from the rows that are replicated, publishes, and stores what
it has published. It may stop at any time. -/
def Publisher.step (s : Publisher) : Publisher.Action → Publisher
  | .readHead process collection contentBytes replicated =>
      let chain := ⟨collection, (account process).identity, (account process).publicKey⟩
      let head := chainHead P (s.store.event.take replicated) chain
      { s with stage := Function.update s.stage process (.publishing collection contentBytes head) }
  | .publish process answer =>
      match s.stage process with
      | .publishing collection contentBytes head =>
          match publishContent P (account process) collection contentBytes head answer with
          | .error _ => { s with stage := Function.update s.stage process .idle }
          | .ok created =>
              { s with
                published := s.published ++ [created]
                stage := Function.update s.stage process (.persisting created) }
      | _ => s
  | .persist process works =>
      match s.stage process with
      | .persisting created =>
          match if works then persistCreated s.store created else .error "database error" with
          | .error _ => { s with stage := Function.update s.stage process .idle }
          | .ok store => { s with store := store, stage := Function.update s.stage process .idle }
      | _ => s
  | .stop process => { s with stage := Function.update s.stage process .idle }

/-! ### Consistency -/

section Consistent

variable {P account}

variable (P) in
/-- The event extends the chain at an earlier state of it. -/
def Extends (rows : List CreatedEventRow) (created : CreatedEvent) : Prop :=
  ∃ old, old <+: rows ∧ created.sequence = (headOf P old).nextSequence ∧
    created.event.key = some ⟨created.chain.collection, created.chain.identity,
      some created.chain.publicKey, UInt64.ofNat (headOf P old).nextSequence⟩ ∧
    created.event.previousSignature = (headOf P old).previousSignature ∧
    created.event.previousRoot = (headOf P old).previousRoot

/-- The event is in the name of this account, and signed by it. -/
def SignedBy (account : Account) (created : CreatedEvent) : Prop :=
  created.chain.identity = account.identity ∧ created.chain.publicKey = account.publicKey ∧
    created.eventBytes = account.encodeEvent created.event ∧
    created.signature = account.sign created.eventBytes

/-- A content of this digest is stored. -/
def Holds (content : List CreatedContentRow) (digest : Option ContentDigest) : Prop :=
  ∃ row ∈ content, digest = some row.digest

variable (P account) in
structure Publisher.Consistent (s : Publisher) : Prop where
  numbered (chain : ChainId) : Numbered CreatedEventRow.sequence (chainRows s.store.event chain)
  stored {row : CreatedEventRow} : row ∈ s.store.event →
    ∃ created ∈ s.published, row = created.row ∧ Holds s.store.content row.contentDigest
  verified {row : CreatedContentRow} : row ∈ s.store.content →
    row.digest = sha256Digest P row.serializedBytes
  extended {created : CreatedEvent} : created ∈ s.published →
    Extends P (chainRows s.store.event created.chain) created
  digested {created : CreatedEvent} : created ∈ s.published →
    created.event.contentDigest = some (sha256Digest P created.contentBytes)
  signed {created : CreatedEvent} : created ∈ s.published →
    ∃ process, SignedBy (account process) created
  publishing {process : Nat} {collection : Int32} {contentBytes : Bytes} {head : ChainHead} :
    s.stage process = .publishing collection contentBytes head →
    ∃ old, old <+: chainRows s.store.event
      ⟨collection, (account process).identity, (account process).publicKey⟩ ∧ head = headOf P old
  persisting {process : Nat} {created : CreatedEvent} :
    s.stage process = .persisting created → created ∈ s.published

theorem Extends.mono {rows rows' : List CreatedEventRow} {created : CreatedEvent}
    (h : Extends P rows created) (hRows : rows <+: rows') : Extends P rows' created := by
  obtain ⟨old, hOld, hHead⟩ := h
  exact ⟨old, hOld.trans hRows, hHead⟩

theorem Holds.mono {content content' : List CreatedContentRow} {digest : Option ContentDigest}
    (h : Holds content digest) (hContent : content <+: content') : Holds content' digest := by
  obtain ⟨row, hRow, hDigest⟩ := h
  exact ⟨row, hContent.subset hRow, hDigest⟩

theorem Holds.find? {content : List CreatedContentRow} {digest : ContentDigest}
    (h : Holds content (some digest)) :
    ∃ found ∈ content, (content.find? fun row => row.digest = digest) = some found ∧
      found.digest = digest := by
  obtain ⟨row, hRow, hDigest⟩ := h
  have hSome : (content.find? fun row => row.digest = digest).isSome := by
    apply List.find?_isSome.mpr
    exact ⟨row, hRow, decide_eq_true (Option.some.inj hDigest).symm⟩
  obtain ⟨found, hFound⟩ := Option.isSome_iff_exists.mp hSome
  exact ⟨found, List.mem_of_find?_eq_some hFound, hFound, of_decide_eq_true (List.find?_some hFound :)⟩

theorem chainRows_mono {rows rows' : List CreatedEventRow} (h : rows <+: rows') (chain : ChainId) :
    chainRows rows chain <+: chainRows rows' chain := h.filter _

/-- What is published says whose it is, and extends the chain at the head. -/
theorem publishContent_ok {account : Account} {collection : Int32} {contentBytes : Bytes}
    {old : List CreatedEventRow} {answer : Publication} {created : CreatedEvent}
    (h : publishContent P account collection contentBytes (headOf P old) answer = .ok created) :
    created.chain = ⟨collection, account.identity, account.publicKey⟩ ∧
    created.event.contentDigest = some (sha256Digest P created.contentBytes) ∧
    SignedBy account created ∧ Extends P old created := by
  unfold publishContent at h
  split at h
  · cases h
  · split at h
    · cases h
    · split at h
      · cases h
        exact ⟨rfl, rfl, ⟨rfl, rfl, rfl, rfl⟩, old, List.prefix_rfl, rfl, rfl, rfl, rfl⟩
      · cases h

theorem insertContent_prefix (content : List CreatedContentRow) (digest : ContentDigest)
    (serializedBytes : Bytes) : content <+: insertContent content digest serializedBytes := by
  unfold insertContent
  split
  · exact List.prefix_rfl
  · exact List.prefix_append _ _

theorem holds_insertContent (content : List CreatedContentRow) (digest : ContentDigest)
    (serializedBytes : Bytes) : Holds (insertContent content digest serializedBytes) (some digest) := by
  unfold insertContent
  by_cases hKnown : (content.any fun row => row.digest = digest) = true
  · rw [if_pos hKnown]
    obtain ⟨row, hRow, hDigest⟩ := List.any_eq_true.mp hKnown
    exact ⟨row, hRow, by simpa using (of_decide_eq_true hDigest).symm⟩
  · rw [if_neg hKnown]
    exact ⟨⟨digest, serializedBytes⟩, by simp, rfl⟩

theorem mem_insertContent {content : List CreatedContentRow} {digest : ContentDigest}
    {serializedBytes : Bytes} {row : CreatedContentRow}
    (h : row ∈ insertContent content digest serializedBytes) :
    row ∈ content ∨ row = ⟨digest, serializedBytes⟩ := by
  unfold insertContent at h
  split at h
  · exact .inl h
  · simpa using h

/-- What one transaction does with an event that has a content. -/
theorem persistCreated_ok {store store' : Store} {created : CreatedEvent} {digest : ContentDigest}
    (hDigest : created.event.contentDigest = some digest)
    (h : persistCreated store created = .ok store') :
    store' = ⟨store.event ++ [created.row], insertContent store.content digest created.contentBytes⟩ ∧
    ∀ row ∈ store.event, row.chain = created.chain → row.sequence ≠ created.sequence := by
  simp only [persistCreated, hDigest] at h
  split at h
  · cases h
  · rename_i hFree
    cases h
    refine ⟨rfl, ?_⟩
    intro row hRow hChain hSequence
    exact hFree (List.any_eq_true.mpr ⟨row, hRow, by simp [hChain, hSequence]⟩)

theorem Publisher.consistent_new : Publisher.Consistent P account Publisher.new where
  numbered _ := numbered_nil
  stored h := by cases h
  verified h := by cases h
  extended h := by cases h
  digested h := by cases h
  signed h := by cases h
  publishing h := by cases h
  persisting h := by cases h

/-- A process that turns to something it may do. -/
theorem Publisher.Consistent.turn {s : Publisher} (h : Publisher.Consistent P account s) (process : Nat) {stage : Stage}
    (hPublishing : ∀ {collection contentBytes head}, stage = .publishing collection contentBytes head →
      ∃ old, old <+: chainRows s.store.event
        ⟨collection, (account process).identity, (account process).publicKey⟩ ∧ head = headOf P old)
    (hPersisting : ∀ {created}, stage = .persisting created → created ∈ s.published) :
    Publisher.Consistent P account { s with stage := Function.update s.stage process stage } := by
  have hTurn : ∀ {other stage'}, Function.update s.stage process stage other = stage' →
      (other = process ∧ stage = stage') ∨ s.stage other = stage' := by
    intro other stage' hStage
    rcases eq_or_ne other process with rfl | hOther
    · rw [Function.update_self] at hStage
      exact .inl ⟨rfl, hStage⟩
    · rw [Function.update_of_ne hOther] at hStage
      exact .inr hStage
  refine { h with publishing := ?_, persisting := ?_ }
  · intro other collection contentBytes head hStage
    rcases hTurn hStage with ⟨rfl, hNew⟩ | hOld
    · exact hPublishing hNew
    · exact h.publishing hOld
  · intro other created hStage
    rcases hTurn hStage with ⟨-, hNew⟩ | hOld
    · exact hPersisting hNew
    · exact h.persisting hOld

theorem Publisher.Consistent.idle {s : Publisher} (h : Publisher.Consistent P account s) (process : Nat) :
    Publisher.Consistent P account { s with stage := Function.update s.stage process .idle } :=
  h.turn process (fun hStage => nomatch hStage) (fun hStage => nomatch hStage)

/-- Some server has accepted an event that extends its chain. -/
theorem Publisher.Consistent.accepted {s : Publisher} (h : Publisher.Consistent P account s) {created : CreatedEvent}
    (hExtends : Extends P (chainRows s.store.event created.chain) created)
    (hDigest : created.event.contentDigest = some (sha256Digest P created.contentBytes))
    {process : Nat} (hSigned : SignedBy (account process) created) :
    Publisher.Consistent P account { s with published := s.published ++ [created] } where
  numbered := h.numbered
  stored hRow := by
    obtain ⟨other, hOther, hEq⟩ := h.stored hRow
    exact ⟨other, List.mem_append_left _ hOther, hEq⟩
  verified := h.verified
  extended hMem := by
    rcases List.mem_append.mp hMem with hOld | hNew
    · exact h.extended hOld
    · rw [List.mem_singleton.mp hNew]
      exact hExtends
  digested hMem := by
    rcases List.mem_append.mp hMem with hOld | hNew
    · exact h.digested hOld
    · rw [List.mem_singleton.mp hNew]
      exact hDigest
  signed hMem := by
    rcases List.mem_append.mp hMem with hOld | hNew
    · exact h.signed hOld
    · rw [List.mem_singleton.mp hNew]
      exact ⟨process, hSigned⟩
  publishing := h.publishing
  persisting hStage := List.mem_append_left _ (h.persisting hStage)

/-- An event whose number is free extends the whole chain. -/
theorem Publisher.Consistent.persisted {s : Publisher} (h : Publisher.Consistent P account s) {created : CreatedEvent}
    (hPublished : created ∈ s.published) {store : Store} (hOk : persistCreated s.store created = .ok store) :
    Publisher.Consistent P account { s with store := store } := by
  obtain ⟨rfl, hFree⟩ := persistCreated_ok (h.digested hPublished) hOk
  have hEvent : s.store.event <+: s.store.event ++ [created.row] := List.prefix_append _ _
  have hContent := insertContent_prefix s.store.content (sha256Digest P created.contentBytes)
    created.contentBytes
  refine { h with
    numbered := ?_
    stored := ?_
    verified := ?_
    extended := fun hMem => (h.extended hMem).mono (chainRows_mono hEvent _)
    publishing := ?_ }
  · intro chain
    by_cases hChain : created.chain = chain
    · subst hChain
      obtain ⟨old, hOld, hSequence, -⟩ := h.extended hPublished
      have hCurrent : old = chainRows s.store.event created.chain := by
        apply (h.numbered created.chain).current_of_free hOld
        intro hMem
        obtain ⟨row, hRow, hNumber⟩ := List.mem_map.mp hMem
        obtain ⟨hRow, hRowChain⟩ := List.mem_filter.mp hRow
        exact hFree row hRow (of_decide_eq_true hRowChain) (hNumber.trans hSequence.symm)
      subst hCurrent
      have hRows : chainRows (s.store.event ++ [created.row]) created.chain
          = chainRows s.store.event created.chain ++ [created.row] := by
        simp [chainRows, CreatedEvent.row]
      rw [hRows]
      exact (h.numbered _).append (hSequence.trans (h.numbered _).next_eq)
    · have hRows : chainRows (s.store.event ++ [created.row]) chain = chainRows s.store.event chain := by
        simp [chainRows, CreatedEvent.row, hChain]
      rw [hRows]
      exact h.numbered chain
  · intro row hRow
    rcases List.mem_append.mp hRow with hOld | hNew
    · obtain ⟨other, hOther, hEq, hHolds⟩ := h.stored hOld
      exact ⟨other, hOther, hEq, hHolds.mono hContent⟩
    · rw [List.mem_singleton.mp hNew]
      refine ⟨created, hPublished, rfl, ?_⟩
      show Holds _ created.event.contentDigest
      rw [h.digested hPublished]
      exact holds_insertContent _ _ _
  · intro row hRow
    rcases mem_insertContent hRow with hOld | rfl
    · exact h.verified hOld
    · rfl
  · intro process collection contentBytes head hStage
    obtain ⟨old, hOld, hHead⟩ := h.publishing hStage
    exact ⟨old, hOld.trans (chainRows_mono hEvent _), hHead⟩

theorem Publisher.Consistent.step {s : Publisher} (h : Publisher.Consistent P account s) (action : Publisher.Action) :
    Publisher.Consistent P account (s.step P account action) := by
  cases action with
  | readHead process collection contentBytes replicated =>
      apply h.turn process
      · intro collection' contentBytes' head hStage
        cases hStage
        exact ⟨_, chainRows_mono (List.take_prefix _ _) _, rfl⟩
      · intro created hStage
        cases hStage
  | publish process answer =>
      simp only [Publisher.step]
      split
      · rename_i collection contentBytes head hStage
        obtain ⟨old, hOld, rfl⟩ := h.publishing hStage
        split
        · exact h.idle process
        · rename_i created hOk
          obtain ⟨hChain, hDigest, hSigned, hExtends⟩ := publishContent_ok hOk
          have hAccepted := h.accepted (hExtends.mono (hChain ▸ hOld)) hDigest hSigned
          apply hAccepted.turn process
          · intro collection' contentBytes' head hStage'
            cases hStage'
          · intro other hStage'
            cases hStage'
            exact List.mem_append_right _ List.mem_cons_self
      · exact h
  | persist process works =>
      simp only [Publisher.step]
      split
      · rename_i created hStage
        split
        · exact h.idle process
        · rename_i store hOk
          cases works with
          | false => cases hOk
          | true => exact (h.persisted (h.persisting hStage) hOk).idle process
      · exact h
  | stop process => exact h.idle process

theorem consistent_run (actions : List Publisher.Action) :
    Publisher.Consistent P account (run (Publisher.step P account) Publisher.new actions) :=
  run_invariant (fun h _ => h.step _) Publisher.consistent_new (along_true _ actions)

variable (P account) in
/-- The event was published as the next one after those before, and commits to all of them. -/
def Commits (published : List CreatedEvent) (before : List CreatedEventRow) (row : CreatedEventRow) : Prop :=
  let canonical := canonicalSignatures P (before.map fun row => (row.eventBytes, row.signature))
  ∃ created ∈ published, row = created.row ∧ (∃ process, SignedBy (account process) created) ∧
    created.event.key = some ⟨row.chain.collection, row.chain.identity, some row.chain.publicKey,
      UInt64.ofNat (before.length + 1)⟩ ∧
    created.event.previousSignature = canonical.getLast?.getD [] ∧
    created.event.previousRoot = ((merkleTreeHash P canonical).map Subtype.val).getD []

end Consistent

/-- Whatever the processes do, the events that are stored of a chain are numbered from 1
without a gap, and each commits to all those before it. -/
theorem created_chain_linked (actions : List Publisher.Action) (chain : ChainId) :
    let s := run (Publisher.step P account) Publisher.new actions
    let rows := chainRows s.store.event chain
    Numbered CreatedEventRow.sequence rows ∧ Linked (Commits P account s.published) rows := by
  intro s rows
  have h : Publisher.Consistent P account s := consistent_run actions
  refine ⟨h.numbered chain, ?_⟩
  intro before row after hSplit
  have hRow : row ∈ rows := by
    rw [hSplit]
    exact List.mem_append_right _ List.mem_cons_self
  obtain ⟨hStored, hChain⟩ := List.mem_filter.mp hRow
  obtain ⟨created, hPublished, rfl, -⟩ := h.stored hStored
  obtain rfl : created.chain = chain := of_decide_eq_true hChain
  have hNumbered : Numbered CreatedEventRow.sequence rows := h.numbered _
  obtain ⟨old, hOld, hSequence, hKey, hSignature, hRoot⟩ := h.extended hPublished
  -- what the event was built on is what is stored before it
  have hBefore : old = before := by
    apply Numbered.eq_before (hSplit ▸ hNumbered) (hSplit ▸ hOld)
    exact hSequence
  subst hBefore
  refine ⟨created, hPublished, rfl, h.signed hPublished, ?_, hSignature, hRoot⟩
  rw [hKey]
  show some _ = some _
  congr 2
  exact congrArg UInt64.ofNat (hNumbered.of_prefix hOld).next_eq

/-- What the servers are sent again is complete: for each event that is stored, in their
order, a bundle that some server has accepted, with a content that has the event's digest. -/
theorem created_bundles_complete (actions : List Publisher.Action) (identity : String) :
    let s := run (Publisher.step P account) Publisher.new actions
    List.Forall₂ (fun row bundle => ∃ created ∈ s.published, ∃ content, row = created.row ∧
        (∃ process, SignedBy (account process) created) ∧
        bundle = ⟨some ⟨created.signature, created.eventBytes⟩, some ⟨content⟩, [], none⟩ ∧
        created.event.contentDigest = some (sha256Digest P content))
      (s.store.event.filter fun row => row.chain.identity = identity)
      (createdBundles s.store identity) := by
  intro s
  have h : Publisher.Consistent P account s := consistent_run actions
  unfold createdBundles
  rw [List.forall₂_map_right_iff, List.forall₂_same]
  intro row hRow
  obtain ⟨created, hPublished, rfl, hHolds⟩ := h.stored (List.mem_of_mem_filter hRow)
  have hDigest := h.digested hPublished
  have hRowDigest : created.row.contentDigest = some (sha256Digest P created.contentBytes) := hDigest
  rw [hRowDigest] at hHolds
  obtain ⟨found, hStored, hFound, hSame⟩ := hHolds.find?
  refine ⟨created, hPublished, found.serializedBytes, rfl, h.signed hPublished, ?_, ?_⟩
  · simp [CreatedEvent.row, hDigest, hFound]
  · rw [hDigest, ← hSame, ← h.verified hStored]

end Polycentric.Moderation

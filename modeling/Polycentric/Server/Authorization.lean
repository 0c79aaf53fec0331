import Polycentric.Server.Database
import Polycentric.Common.Identity
import Polycentric.Library.Memo
import Polycentric.Merkle.Inclusion
import Polycentric.Merkle.Leaves

/-! Who may sign an event, `identity/service.rs` and `identity/chain.rs`, and the
proofs and their cache, `proofs/`. The cache lives longer than a request, so it is
passed through every function that reads it. -/
namespace Polycentric.Server

open Proto Result Memo

variable (P : Primitives)

/-! ### Reading the identity from the database -/

/-- Rows of events with their content. -/
abbrev EventWithContentRow := EventRow × Option ContentRow

def toIdentityCandidate (row : EventWithContentRow) : Option IdentityCandidate := do
  let content ← row.2
  return ⟨row.1.eventBytes, content.serializedBytes, row.1.signature⟩

/-- The latest valid identity state that can be obtained from the rows. -/
def validatedChainHead (identity : String) (rows : List EventWithContentRow) : Option Identity :=
  resolveLatest P identity (rows.filterMap toIdentityCandidate)

namespace Database

variable (db : Database)

/-- The stored events of the identities in the identity collection, with their
content, by sequence. -/
def listIdentityEventsForIdentities (identities : List String) : List EventWithContentRow :=
  ((db.event.filter fun row =>
    row.key.collection = Collections.identity.toInt16 ∧ row.key.identity ∈ identities).insertionSort
      fun a b => a.key.sequence ≤ b.key.sequence).map fun row =>
        (row, row.contentDigest.bind fun digest => db.content.find? fun c => c.digest = digest)

def latestValidIdentityContent (identity : String) : Option Identity :=
  validatedChainHead P identity (db.listIdentityEventsForIdentities [identity])

/-- Canonically ordered signatures of a stream. The collection is truncated to the
width of its column. -/
def canonicalSignatures (identity : String) (collection : Int32) : List Bytes :=
  Polycentric.canonicalSignatures P ((db.event.filter fun row =>
    row.key.collection = collection.toInt16 ∧ row.key.identity = identity).map fun row =>
      (row.eventBytes, row.signature))

end Database

/-! ### The cache -/

structure ProofCache where
  identityTable : Table String Identity
  canonicalTable : Table (String × Int32) (List Bytes)
  deriving DecidableEq, Repr

namespace ProofCache

def empty : ProofCache := ⟨[], []⟩

variable (cache : ProofCache)

/-- The cached identity document, without a look at the database. -/
def identityContent (identity : String) : Option Identity := cache.identityTable.get identity

def warmIdentityContent (identity : String) (document : Identity) : ProofCache :=
  { cache with identityTable := cache.identityTable.insert identity document }

/-- Canonical signatures of a stream, cached after the first hit. -/
def canonical (db : Database) (identity : String) (collection : Int32) : List Bytes × ProofCache :=
  match cache.canonicalTable.get (identity, collection) with
  | some signatures => (signatures, cache)
  | none =>
      let fetched := db.canonicalSignatures P identity collection
      (fetched, { cache with
        canonicalTable := cache.canonicalTable.insert (identity, collection) fetched })

def invalidateCanonical (identity : String) (collection : Int32) : ProofCache :=
  { cache with canonicalTable := cache.canonicalTable.remove (identity, collection) }

def invalidateIdentity (identity : String) : ProofCache :=
  { cache with identityTable := cache.identityTable.remove identity }

end ProofCache

/-! ### Authorisation -/

/-- The latest valid identity document, via the cache. -/
def cachedIdentityContent (db : Database) (cache : ProofCache) (identity : String) :
    Except Status Identity × ProofCache :=
  match cache.identityContent identity with
  | some document => (.ok document, cache)
  | none =>
      match db.latestValidIdentityContent P identity with
      | none => (.error ⟨.failedPrecondition,
          "no identity content for target — sync identity events first"⟩, cache)
      | some document => (.ok document, cache.warmIdentityContent identity document)

/-- Verify that the signer may sign an event of the identity in the collection. -/
def authorizeEventSigner (db : Database) (cache : ProofCache) (targetIdentity : String)
    (signer : PublicKey) (collection : Int32) (signature : Bytes) :
    Except Status Unit × ProofCache :=
  match cachedIdentityContent P db cache targetIdentity with
  | (.error status, cache) => (.error status, cache)
  | (.ok identityContent, cache) =>
      if identityContent.authorizesSigner signer then (.ok (), cache)
      else
        match identityContent.revocationTargetFor signer collection with
        | none => (.error ⟨.permissionDenied,
            "signer is revoked or not authorized by target identity"⟩, cache)
        | some target =>
            let (canonical, cache) := cache.canonical P db targetIdentity collection
            let leafCount := target.leafCount.toNat
            if canonical.length < leafCount ∨
                ¬(canonical.take leafCount).any (fun s => s == signature) then
              (.error ⟨.permissionDenied,
                "signer revoked and signature is not within the committed bound"⟩, cache)
            else (.ok (), cache)

/-! ### Proofs -/

/-- Build a proof for the leaf against a target. -/
def buildProofAgainst (db : Database) (cache : ProofCache) (identity : String) (collection : Int32)
    (target : EventProofTarget) (leafSignature : Bytes) : Option EventProof × ProofCache :=
  let (canonical, cache) := cache.canonical P db identity collection
  let leafCount := target.leafCount.toNat
  -- The server is missing leaves that the target committed to.
  if leafCount > canonical.length then (none, cache)
  else
    let leaves := canonical.take leafCount
    match leaves.findIdx? fun s => s == leafSignature with
    | none => (none, cache)
    | some leafIndex =>
        match merkleTreeHash P leaves with
        | none => (none, cache)
        | some root =>
            if target.root.length = 32 ∧ root.val = target.root then
              let auditPath := ((buildAuditPath P leaves leafIndex).map fun path =>
                path.map Subtype.val).getD []
              (some ⟨target.signature, UInt64.ofNat leafIndex, auditPath⟩, cache)
            else (none, cache)

/-- Build a proof against the target that the cached document records for the
signer. -/
def buildRevocationProof (db : Database) (cache : ProofCache) (identity : String)
    (collection : Int32) (signer : PublicKey) (leafSignature : Bytes) :
    Option EventProof × ProofCache :=
  match cache.identityContent identity with
  | none => (none, cache)
  | some document =>
      match document.revocationTargetFor signer collection with
      | none => (none, cache)
      | some target => buildProofAgainst P db cache identity collection target leafSignature

/-! ### What the answers mean -/

/-- The cache holds what the database would answer. -/
structure ProofCache.Coherent (db : Database) (cache : ProofCache) : Prop where
  identity : cache.identityTable.Coherent fun identity document =>
    db.latestValidIdentityContent P identity = some document
  canonical : cache.canonicalTable.Coherent fun stream signatures =>
    db.canonicalSignatures P stream.1 stream.2 = signatures

/-- The signature is among those that the target committed to by number. -/
def WithinBound (target : EventProofTarget) (canonical : List Bytes) (signature : Bytes) : Prop :=
  target.leafCount.toNat ≤ canonical.length ∧
    signature ∈ canonical.take target.leafCount.toNat

/-- The document lets the signer sign, or it bounds the revoked signer and the
signature is within the bound. -/
def Authorises (db : Database) (document : Identity) (identity : String) (signer : PublicKey)
    (collection : Int32) (signature : Bytes) : Prop :=
  document.authorizesSigner signer = true ∨
    ∃ target, document.revocationTargetFor signer collection = some target ∧
      WithinBound target (db.canonicalSignatures P identity collection) signature

section Specification

variable {P} {db : Database} {cache : ProofCache} {identity : String} {collection : Int32}
  {signer : PublicKey} {signature : Bytes}

theorem ProofCache.coherent_empty : ProofCache.empty.Coherent P db :=
  ⟨Table.coherent_nil, Table.coherent_nil⟩

theorem ProofCache.Coherent.canonical_eq (h : cache.Coherent P db) :
    (cache.canonical P db identity collection).1 = db.canonicalSignatures P identity collection := by
  unfold ProofCache.canonical
  split
  · next signatures hLookup => exact (h.canonical (identity, collection) signatures hLookup).symm
  · rfl

theorem ProofCache.Coherent.canonical_coherent (h : cache.Coherent P db) :
    (cache.canonical P db identity collection).2.Coherent P db := by
  unfold ProofCache.canonical
  split
  · exact h
  · exact ⟨h.identity, h.canonical.insert rfl⟩

theorem ProofCache.canonical_identityTable :
    (cache.canonical P db identity collection).2.identityTable = cache.identityTable := by
  unfold ProofCache.canonical
  split <;> rfl

/-- A document answers as the database would, and then it is cached. -/
theorem cachedIdentityContent_spec (h : cache.Coherent P db) (identity : String) :
    (∃ document cache', db.latestValidIdentityContent P identity = some document ∧
      cachedIdentityContent P db cache identity = (.ok document, cache') ∧
      cache'.Coherent P db ∧ cache'.identityContent identity = some document) ∨
    (db.latestValidIdentityContent P identity = none ∧ ∃ status,
      cachedIdentityContent P db cache identity = (.error status, cache)) := by
  unfold cachedIdentityContent
  cases hCached : cache.identityContent identity with
  | some document => exact Or.inl ⟨document, cache, h.identity identity document hCached, rfl, h, hCached⟩
  | none =>
      cases hLatest : db.latestValidIdentityContent P identity with
      | none => exact Or.inr ⟨rfl, _, rfl⟩
      | some document =>
          refine Or.inl ⟨document, _, rfl, rfl, ⟨h.identity.insert hLatest, h.canonical⟩, ?_⟩
          exact Table.get_insert_self identity document

/-- The server accepts exactly the signers that the latest document authorises. -/
theorem authorizeEventSigner_eq_ok_iff (h : cache.Coherent P db) :
    (authorizeEventSigner P db cache identity signer collection signature).1 = .ok () ↔
      ∃ document, db.latestValidIdentityContent P identity = some document ∧
        Authorises P db document identity signer collection signature := by
  unfold authorizeEventSigner Authorises
  rcases cachedIdentityContent_spec h identity with
    ⟨document, cache', hLatest, hCached, hCoherent, -⟩ | ⟨hLatest, status, hCached⟩
  · simp only [hCached, hLatest, Option.some.injEq, exists_eq_left']
    by_cases hSigner : document.authorizesSigner signer = true
    · simp [hSigner]
    · cases hTarget : document.revocationTargetFor signer collection with
      | none => simp [hSigner]
      | some target =>
          simp only [hSigner, Bool.false_eq_true, if_false, false_or, hCoherent.canonical_eq,
            Option.some.injEq, exists_eq_left', WithinBound]
          split_ifs with hOut
          · have hNot : ¬(target.leafCount.toNat ≤
                (db.canonicalSignatures P identity collection).length ∧
                signature ∈ (db.canonicalSignatures P identity collection).take
                  target.leafCount.toNat) := by
              rintro ⟨hLength, hMem⟩
              rcases hOut with hShort | hAbsent
              · omega
              · exact hAbsent (List.any_eq_true.mpr ⟨signature, hMem, beq_self_eq_true signature⟩)
            simp [hNot]
          · rw [not_or, not_not, List.any_eq_true] at hOut
            obtain ⟨hLength, s, hMem, hEq⟩ := hOut
            obtain rfl := beq_iff_eq.mp hEq
            exact iff_of_true rfl ⟨by omega, hMem⟩
  · simp [hCached, hLatest]

theorem authorizeEventSigner_coherent (h : cache.Coherent P db) :
    (authorizeEventSigner P db cache identity signer collection signature).2.Coherent P db := by
  unfold authorizeEventSigner
  rcases cachedIdentityContent_spec h identity with
    ⟨document, cache', -, hCached, hCoherent, -⟩ | ⟨-, status, hCached⟩
  · simp only [hCached]
    split_ifs
    · exact hCoherent
    · split
      · exact hCoherent
      · split_ifs <;> exact hCoherent.canonical_coherent
  · simpa only [hCached] using h

theorem cachedIdentityContent_canonicalTable :
    (cachedIdentityContent P db cache identity).2.canonicalTable = cache.canonicalTable := by
  unfold cachedIdentityContent
  split
  · rfl
  · split <;> rfl

/-- The only stream that a request may add to the cache is its own. -/
theorem authorizeEventSigner_canonicalTable :
    (authorizeEventSigner P db cache identity signer collection signature).2.canonicalTable =
        cache.canonicalTable ∨
      (authorizeEventSigner P db cache identity signer collection signature).2.canonicalTable =
        cache.canonicalTable.insert (identity, collection)
          (db.canonicalSignatures P identity collection) := by
  have hTable := @cachedIdentityContent_canonicalTable P db cache identity
  unfold authorizeEventSigner
  split
  · next hCached =>
      rw [hCached] at hTable
      exact Or.inl hTable
  · next document cache' hCached =>
      rw [hCached] at hTable
      have hFetched : (cache'.canonical P db identity collection).2.canonicalTable =
            cache.canonicalTable ∨
          (cache'.canonical P db identity collection).2.canonicalTable =
            cache.canonicalTable.insert (identity, collection)
              (db.canonicalSignatures P identity collection) := by
        unfold ProofCache.canonical
        split
        · exact Or.inl hTable
        · exact Or.inr (by rw [← hTable])
      split_ifs
      · exact Or.inl hTable
      · split
        · exact Or.inl hTable
        · split
          next hPair =>
            rw [hPair] at hFetched
            dsimp only
            split_ifs <;> exact hFetched

/-- A request leaves the document that it decided by in the cache. -/
theorem authorizeEventSigner_identityContent (h : cache.Coherent P db) {document : Identity}
    (hLatest : db.latestValidIdentityContent P identity = some document) :
    (authorizeEventSigner P db cache identity signer collection signature).2.identityContent
      identity = some document := by
  unfold authorizeEventSigner
  rcases cachedIdentityContent_spec h identity with
    ⟨document', cache', hLatest', hCached, -, hContent⟩ | ⟨hNone, -⟩
  · obtain rfl : document' = document := Option.some.inj (hLatest'.symm.trans hLatest)
    simp only [hCached]
    split_ifs
    · exact hContent
    · split
      · exact hContent
      · split_ifs <;>
          · rw [ProofCache.identityContent, ProofCache.canonical_identityTable]
            exact hContent
  · simp [hNone] at hLatest

end Specification

end Polycentric.Server

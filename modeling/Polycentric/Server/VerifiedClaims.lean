import Polycentric.Library.Keyset
import Polycentric.Server.Ingestion

/-! `resolve_verified_claims`: claims, their targets and their verifies are fetched by
three queries, each with a limit of its own, before the verifies are checked for one of
a trusted identity. -/
namespace Polycentric.Server

open Proto Result Keyset

/-- A value in the `fields` of a claim. Bytes are stored as text. -/
inductive FieldValue where
  | string (text : String)
  | int (value : Int)
  | bool (value : Bool)
  deriving DecidableEq, Repr

/-- A row of `content_verification_claim`, with the digest of its content. -/
structure VerificationClaimRow where
  digest : ContentDigest
  schemaDigest : ContentDigest
  fields : List (String × FieldValue)
  deriving DecidableEq, Repr

structure VerificationTargetRow where
  digest : ContentDigest
  targetIdentity : String
  claimEventKey : EventKeyParts
  deriving DecidableEq, Repr

structure VerificationVerifyRow where
  digest : ContentDigest
  claimEventKey : EventKeyParts
  deriving DecidableEq, Repr

/-- What the queries read. Which events are tombstoned is what `validated_tombstones`
answers for their keys. -/
structure VerificationStore where
  event : List EventRow
  claim : List VerificationClaimRow
  target : List VerificationTargetRow
  verify : List VerificationVerifyRow
  tombstoned : EventKeyParts → Bool
  ids : (event.map EventRow.id).Nodup
  verifies : (verify.map VerificationVerifyRow.digest).Nodup

/-- A target or a verify event together with the claim key it references. -/
structure VerificationEvent where
  event : EventRow
  claimKey : EventKeyParts
  deriving DecidableEq, Repr

/-- How the database puts events of one sequence in order. -/
structure TieBreak where
  rank : Nat → Nat
  injective : Function.Injective rank

structure ResolveVerifiedClaimsRequest where
  schemaDigest : Option ContentDigest
  fields : List (String × String)
  verifiedByIdentities : List String
  deriving DecidableEq, Repr

structure VerificationClaimBundle where
  claim : EventRow
  targets : List EventRow
  verifies : List EventRow
  deriving DecidableEq, Repr

namespace ResolveVerifiedClaims

def verificationsCollection : Int16 := Collections.verifications.toInt16

/-- Upper bound on rows returned by any single verification query. -/
def maxRows : Nat := 200

structure Params where
  schemaDigest : Option ContentDigest
  matchFields : List (String × String)
  verifiedBy : List String
  deriving DecidableEq, Repr

structure FetchedClaims where
  claims : List EventRow
  targets : List VerificationEvent
  verifies : List VerificationEvent
  deriving DecidableEq, Repr

/-- JSONB containment: the object has every pair. -/
def containsFields (fields : List (String × FieldValue)) (matchFields : List (String × String)) : Bool :=
  matchFields.all fun pair => fields.lookup pair.1 = some (.string pair.2)

/-- By descending sequence, and then by descending id. -/
def newestClaim (row : EventRow) : (Int ×ₗ Nat)ᵒᵈ :=
  OrderDual.toDual (toLex (row.key.sequence.toInt, row.id))

/-- By descending sequence, and then in the order of the database. -/
def newestEvent (tie : TieBreak) (dto : VerificationEvent) : (Int ×ₗ Nat)ᵒᵈ :=
  OrderDual.toDual (toLex (dto.event.key.sequence.toInt, tie.rank dto.event.id))

section Queries

variable (store : VerificationStore) (params : Params) (tie : TieBreak)

/-- The events that verify a claim, with the key of the claim. -/
def verifyEvents : List VerificationEvent :=
  store.event.flatMap fun event =>
    (store.verify.filter fun verify => event.contentDigest = some verify.digest).map fun verify =>
      ⟨event, verify.claimEventKey⟩

/-- The events that target a claim, once for every identity that they name. -/
def targetEvents : List VerificationEvent :=
  store.event.flatMap fun event =>
    (store.target.filter fun target => event.contentDigest = some target.digest).map fun target =>
      ⟨event, target.claimEventKey⟩

def isTrusted (dto : VerificationEvent) : Bool := params.verifiedBy.contains dto.event.key.identity

/-- `verified_by_trusted_subquery`. -/
def verifiedByTrusted (claimKey : EventKeyParts) : Bool :=
  (verifyEvents store).any fun dto =>
    dto.event.key.collection = verificationsCollection && isTrusted params dto && dto.claimKey = claimKey

/-- Whether the event is a claim that the request asks for, and a trusted identity has
verified it. An event has one content. -/
def isMatching (event : EventRow) : Bool :=
  event.key.collection = verificationsCollection &&
    store.claim.any (fun claim => event.contentDigest = some claim.digest &&
      containsFields claim.fields params.matchFields &&
      params.schemaDigest.all fun digest => digest = claim.schemaDigest) &&
    verifiedByTrusted store params event.key

def listClaimEventsByFields : List EventRow :=
  (listing newestClaim (store.event.filter (isMatching store params))).take maxRows

/-- Keep each event once: the first row of it. -/
def onceEach (seen : List Nat) : List VerificationEvent → List VerificationEvent
  | [] => []
  | dto :: rest =>
      if dto.event.id ∈ seen then onceEach seen rest
      else dto :: onceEach (dto.event.id :: seen) rest

/-- `claim_keys_condition`, with the collection. -/
def concerns (claimKeys : List EventKeyParts) (dto : VerificationEvent) : Bool :=
  dto.event.key.collection = verificationsCollection && (claimKeys.take maxRows).contains dto.claimKey

/-- Only the claim owner's own targeting events count. -/
def listTargetEventsForClaims (claimKeys : List EventKeyParts) : List VerificationEvent :=
  let rows := (targetEvents store).filter fun dto =>
    concerns claimKeys dto && dto.event.key.identity = dto.claimKey.identity
  onceEach [] ((listing (newestEvent tie) rows).take maxRows)

def listVerifyEventsForClaims (claimKeys : List EventKeyParts) : List VerificationEvent :=
  onceEach [] ((listing (newestEvent tie) ((verifyEvents store).filter (concerns claimKeys))).take maxRows)

def fetchVerificationState (claims : List EventRow) : FetchedClaims :=
  let claimKeys := claims.map EventRow.key
  ⟨claims, listTargetEventsForClaims store tie claimKeys, listVerifyEventsForClaims store tie claimKeys⟩

def fetch : FetchedClaims := fetchVerificationState store tie (listClaimEventsByFields store params)

/-- Drop tombstoned claims, targets, and verifies. -/
def live (fetched : FetchedClaims) : FetchedClaims where
  claims := fetched.claims.filter fun row => !store.tombstoned row.key
  targets := fetched.targets.filter fun dto => !store.tombstoned dto.event.key
  verifies := fetched.verifies.filter fun dto => !store.tombstoned dto.event.key

def retainTrusted (fetched : FetchedClaims) : FetchedClaims :=
  let trustedClaimKeys := (fetched.verifies.filter (isTrusted params)).map VerificationEvent.claimKey
  let claims := fetched.claims.filter fun claim => trustedClaimKeys.contains claim.key
  let liveKeys := claims.map EventRow.key
  ⟨claims, fetched.targets.filter fun dto => liveKeys.contains dto.claimKey,
    fetched.verifies.filter fun dto => liveKeys.contains dto.claimKey⟩

def filter (fetched : FetchedClaims) : FetchedClaims := retainTrusted params (live store fetched)

/-- Group targets and verifies under their claim. -/
def view (filtered : FetchedClaims) : List VerificationClaimBundle :=
  filtered.claims.map fun claim =>
    ⟨claim, (filtered.targets.filter fun dto => dto.claimKey = claim.key).map VerificationEvent.event,
      (filtered.verifies.filter fun dto => dto.claimKey = claim.key).map VerificationEvent.event⟩

/-- An empty digest is no scope. -/
def Params.of (req : ResolveVerifiedClaimsRequest) : Params where
  schemaDigest := req.schemaDigest.filter fun digest => !digest.value.isEmpty
  matchFields := req.fields
  verifiedBy := req.verifiedByIdentities

def handle (req : ResolveVerifiedClaimsRequest) : Except Status (List VerificationClaimBundle) := do
  ensure (!req.verifiedByIdentities.isEmpty) ⟨.invalidArgument, "verified_by_identities is required"⟩
  let params := Params.of req
  ensure (params.schemaDigest.isSome || !req.fields.isEmpty)
    ⟨.invalidArgument, "schema_digest or fields is required"⟩
  return view (filter store params (fetch store params tie))

end Queries

section Lists

variable {store : VerificationStore} {params : Params} {tie : TieBreak} {dto : VerificationEvent}

/-- A verification is an event whose content is in the table, with the claim that it names. -/
theorem mem_verifyEvents : dto ∈ verifyEvents store ↔
    dto.event ∈ store.event ∧ ∃ verify ∈ store.verify,
      dto.event.contentDigest = some verify.digest ∧ dto.claimKey = verify.claimEventKey := by
  unfold verifyEvents
  rw [List.mem_flatMap]
  constructor
  · rintro ⟨event, hEvent, hRow⟩
    obtain ⟨verify, hVerify, rfl⟩ := List.mem_map.mp hRow
    obtain ⟨hIn, hDigest⟩ := List.mem_filter.mp hVerify
    exact ⟨hEvent, verify, hIn, of_decide_eq_true hDigest, rfl⟩
  · rintro ⟨hEvent, verify, hIn, hDigest, hKey⟩
    refine ⟨dto.event, hEvent, List.mem_map.mpr ⟨verify, ?_, ?_⟩⟩
    · exact List.mem_filter.mpr ⟨hIn, decide_eq_true hDigest⟩
    · rw [← hKey]

/-- An event verifies at most one claim. -/
theorem nodup_verifyEvents (store : VerificationStore) :
    ((verifyEvents store).map fun dto => dto.event.id).Nodup := by
  have hInner : ∀ event : EventRow, (((store.verify.filter fun verify =>
      event.contentDigest = some verify.digest).map fun verify =>
        (⟨event, verify.claimEventKey⟩ : VerificationEvent)).map fun dto => dto.event.id).Sublist
          [event.id] := by
    intro event
    cases event.contentDigest with
    | none => simp
    | some digest =>
        have hFilter : (store.verify.filter fun verify => some digest = some verify.digest) =
            store.verify.filter fun verify => verify.digest = digest :=
          List.filter_congr fun verify _ => by simp [eq_comm]
        rw [hFilter]
        rcases filter_eq_nil_or_singleton store.verifies digest with hNil | ⟨verify, -, -, hOne⟩
        · rw [hNil]
          exact List.nil_sublist _
        · rw [hOne]
          exact List.Sublist.refl _
  have hOuter : ((verifyEvents store).map fun dto => dto.event.id).Sublist
      (store.event.map EventRow.id) := by
    unfold verifyEvents
    induction store.event with
    | nil => exact List.Sublist.refl _
    | cons event rest ih =>
        rw [List.flatMap_cons, List.map_append]
        exact (hInner event).append ih
  exact hOuter.nodup store.ids

theorem onceEach_eq_self {seen : List Nat} {dtos : List VerificationEvent}
    (hNodup : (dtos.map fun dto => dto.event.id).Nodup) (hSeen : ∀ dto ∈ dtos, dto.event.id ∉ seen) :
    onceEach seen dtos = dtos := by
  induction dtos generalizing seen with
  | nil => rfl
  | cons dto rest ih =>
      obtain ⟨hFirst, hRest⟩ := List.nodup_cons.mp hNodup
      rw [onceEach, if_neg (hSeen dto List.mem_cons_self), ih hRest]
      intro other hOther hMem
      rcases List.mem_cons.mp hMem with hEq | hIn
      · exact hFirst (List.mem_map.mpr ⟨other, hOther, hEq⟩)
      · exact hSeen other (List.mem_cons_of_mem _ hOther) hIn

theorem nodup_newestClaim (store : VerificationStore) (condition : EventRow → Bool) :
    ((store.event.filter condition).map newestClaim).Nodup := by
  refine nodup_of_part (fun key => (ofLex (OrderDual.ofDual key)).2) ?_
  exact (List.filter_sublist.map EventRow.id).nodup store.ids

theorem nodup_newestEvent (store : VerificationStore) (tie : TieBreak)
    (condition : VerificationEvent → Bool) :
    (((verifyEvents store).filter condition).map (newestEvent tie)).Nodup := by
  refine nodup_of_part (fun key => (ofLex (OrderDual.ofDual key)).2) ?_
  have hIds : (((verifyEvents store).filter condition).map fun dto => dto.event.id).Nodup :=
    (List.filter_sublist.map _).nodup (nodup_verifyEvents store)
  have hRanks := hIds.map tie.injective
  rw [List.map_map] at hRanks
  exact hRanks

/-! ### Which claims are resolved -/

/-- The matching claims that are listed before the claim. -/
def newerClaims (store : VerificationStore) (params : Params) (claim : EventRow) : List EventRow :=
  preceding newestClaim (newestClaim claim) (store.event.filter (isMatching store params))

/-- The claim is among those that the first query lists. -/
def isListed (store : VerificationStore) (params : Params) (claim : EventRow) : Bool :=
  isMatching store params claim && (newerClaims store params claim).length < maxRows

/-- The verifies of listed claims, by whomever, that are listed before the verify. -/
def newerVerifies (store : VerificationStore) (params : Params) (tie : TieBreak)
    (dto : VerificationEvent) : List VerificationEvent :=
  preceding (newestEvent tie) (newestEvent tie dto) ((verifyEvents store).filter fun other =>
    other.event.key.collection = verificationsCollection &&
      store.event.any fun claim => isListed store params claim && claim.key = other.claimKey)

/-- The claims of the query are those of the asked fields. -/
theorem mem_listClaims {claim : EventRow} : claim ∈ listClaimEventsByFields store params ↔
    claim ∈ store.event ∧ isListed store params claim = true := by
  unfold listClaimEventsByFields isListed
  rw [mem_take_listing_iff (nodup_newestClaim store _), List.mem_filter, Bool.and_eq_true,
    decide_eq_true_eq, and_assoc]
  rfl

theorem concerns_listed : concerns ((listClaimEventsByFields store params).map EventRow.key) dto =
    (dto.event.key.collection = verificationsCollection &&
      store.event.any fun claim => isListed store params claim && claim.key = dto.claimKey) := by
  have hLength : ((listClaimEventsByFields store params).map EventRow.key).length ≤ maxRows := by
    rw [List.length_map]
    exact List.length_take_le _ _
  unfold concerns
  rw [List.take_of_length_le hLength]
  congr 1
  rw [Bool.eq_iff_iff, List.contains_iff_mem, List.mem_map, List.any_eq_true]
  refine exists_congr fun claim => ?_
  rw [mem_listClaims, Bool.and_eq_true, decide_eq_true_eq, and_assoc]

/-- The verifies of listed claims have different events. -/
theorem nodup_listedVerifies (condition : VerificationEvent → Bool) (n : Nat) :
    (((listing (newestEvent tie) ((verifyEvents store).filter condition)).take n).map
      fun dto => dto.event.id).Nodup := by
  have hIds : (((verifyEvents store).filter condition).map fun dto => dto.event.id).Nodup :=
    (List.filter_sublist.map _).nodup (nodup_verifyEvents store)
  have hPerm : (listing (newestEvent tie) ((verifyEvents store).filter condition)).Perm
      ((verifyEvents store).filter condition) := listing_perm _
  exact ((List.take_sublist n _).map _).nodup ((hPerm.map _).nodup_iff.mpr hIds)

/-- The verifications of the query are the newest ones for the listed claims. -/
theorem mem_listVerifies :
    dto ∈ listVerifyEventsForClaims store tie ((listClaimEventsByFields store params).map EventRow.key) ↔
      dto ∈ verifyEvents store ∧
        concerns ((listClaimEventsByFields store params).map EventRow.key) dto = true ∧
        (newerVerifies store params tie dto).length < maxRows := by
  have hConcerns : concerns ((listClaimEventsByFields store params).map EventRow.key) =
      fun other => other.event.key.collection = verificationsCollection &&
        store.event.any fun claim => isListed store params claim && claim.key = other.claimKey :=
    funext fun _ => concerns_listed
  unfold listVerifyEventsForClaims newerVerifies
  rw [onceEach_eq_self (nodup_listedVerifies _ _) fun _ _ => List.not_mem_nil,
    mem_take_listing_iff (nodup_newestEvent store tie _), List.mem_filter, and_assoc, hConcerns]

/-! ### Which claims are returned -/

/-- The request names a trusted identity and narrows the claims down. -/
def Accepted (req : ResolveVerifiedClaimsRequest) : Prop :=
  req.verifiedByIdentities ≠ [] ∧ ((Params.of req).schemaDigest.isSome = true ∨ req.fields ≠ [])

/-- A verify of the claim by a trusted identity that is not tombstoned. -/
structure TrustedVerify (store : VerificationStore) (params : Params) (claim : EventRow)
    (dto : VerificationEvent) : Prop where
  stored : dto ∈ verifyEvents store
  collection : dto.event.key.collection = verificationsCollection
  trusted : isTrusted params dto = true
  live : store.tombstoned dto.event.key = false
  claimKey : dto.claimKey = claim.key

/-- The response has a bundle for the claim. -/
def Returned (store : VerificationStore) (tie : TieBreak) (req : ResolveVerifiedClaimsRequest)
    (claim : EventRow) : Prop :=
  ∃ bundles, handle store tie req = .ok bundles ∧ claim ∈ bundles.map VerificationClaimBundle.claim

variable {req : ResolveVerifiedClaimsRequest} {claim : EventRow}

/-- A request that is accepted is answered by the claims that pass the filter. -/
theorem handle_eq_ok_iff {bundles : List VerificationClaimBundle} :
    handle store tie req = .ok bundles ↔ Accepted req ∧
      view (filter store (Params.of req) (fetch store (Params.of req) tie)) = bundles := by
  have hTrusted : (!req.verifiedByIdentities.isEmpty) = true ↔ req.verifiedByIdentities ≠ [] := by simp
  have hNarrow : ((Params.of req).schemaDigest.isSome || !req.fields.isEmpty) = true ↔
      (Params.of req).schemaDigest.isSome = true ∨ req.fields ≠ [] := by simp
  unfold handle Accepted
  rw [bind_eq_ok_iff]
  simp only [ensure_eq_ok_iff, bind_eq_ok_iff, exists_and_left, exists_const, hTrusted, hNarrow, and_assoc]
  simp only [pure, Except.pure, Except.ok.injEq]

theorem map_view (filtered : FetchedClaims) :
    (view filtered).map VerificationClaimBundle.claim = filtered.claims := by
  unfold view
  rw [List.map_map]
  exact List.map_id _

/-- A claim passes the filter if it is not deleted and one of the listed verifications is
trusted. -/
theorem mem_filter_claims : claim ∈ (filter store params (fetch store params tie)).claims ↔
    (claim ∈ store.event ∧ isListed store params claim = true) ∧ store.tombstoned claim.key = false ∧
      ∃ dto, TrustedVerify store params claim dto ∧
        (newerVerifies store params tie dto).length < maxRows := by
  show claim ∈ List.filter _ (List.filter _ (listClaimEventsByFields store params)) ↔ _
  rw [List.mem_filter, List.mem_filter, mem_listClaims, Bool.not_eq_true', and_assoc]
  refine and_congr_right fun hListed => and_congr_right fun _ => ?_
  rw [List.contains_iff_mem, List.mem_map]
  refine exists_congr fun dto => ?_
  constructor
  · rintro ⟨hDto, hKey⟩
    obtain ⟨hLive, hTrusted⟩ := List.mem_filter.mp hDto
    obtain ⟨hFetched, hTombstoned⟩ := List.mem_filter.mp hLive
    obtain ⟨hStored, hConcerns, hFew⟩ := mem_listVerifies.mp hFetched
    have hCollection := of_decide_eq_true (Bool.and_eq_true_iff.mp hConcerns).1
    have hNot : store.tombstoned dto.event.key = false := by simpa using hTombstoned
    exact ⟨⟨hStored, hCollection, hTrusted, hNot, hKey⟩, hFew⟩
  · rintro ⟨hVerify, hFew⟩
    have hConcerns : concerns ((listClaimEventsByFields store params).map EventRow.key) dto = true := by
      rw [concerns_listed, Bool.and_eq_true, decide_eq_true_eq, List.any_eq_true]
      exact ⟨hVerify.collection, claim, hListed.1,
        Bool.and_eq_true_iff.mpr ⟨hListed.2, decide_eq_true hVerify.claimKey.symm⟩⟩
    have hFetched := mem_listVerifies.mpr ⟨hVerify.stored, hConcerns, hFew⟩
    have hNot : (!store.tombstoned dto.event.key) = true := by simpa using hVerify.live
    exact ⟨List.mem_filter.mpr ⟨List.mem_filter.mpr ⟨hFetched, hNot⟩, hVerify.trusted⟩, hVerify.claimKey⟩

/-- A claim is returned if a trusted verification is among the newest. -/
theorem returned_iff : Returned store tie req claim ↔
    Accepted req ∧ (claim ∈ store.event ∧ isListed store (Params.of req) claim = true) ∧
      store.tombstoned claim.key = false ∧
      ∃ dto, TrustedVerify store (Params.of req) claim dto ∧
        (newerVerifies store (Params.of req) tie dto).length < maxRows := by
  unfold Returned
  simp only [handle_eq_ok_iff, and_assoc, exists_and_left, exists_eq_left']
  rw [map_view, mem_filter_claims, and_assoc]

end Lists

/-! ### Publishing more -/

/-- The second database has what the first one has, and claims, targets and verifies
that were published by neither a trusted identity nor the owner of the claim. -/
structure Injects (verifiedBy : List String) (owner : String) (store store' : VerificationStore) :
    Prop where
  event : store.event ⊆ store'.event
  added : ∀ row ∈ store'.event, row ∉ store.event →
    row.key.collection = verificationsCollection ∧ row.key.identity ∉ verifiedBy ∧ row.key.identity ≠ owner
  claim : store.claim ⊆ store'.claim
  target : store.target ⊆ store'.target
  verify : store.verify ⊆ store'.verify
  tombstoned : store'.tombstoned = store.tombstoned

/-- Fewer than `maxRows` matching claims are newer, and fewer than `maxRows` verifies of
listed claims are newer than one of a trusted identity. -/
def HasRoom (store : VerificationStore) (tie : TieBreak) (params : Params) (claim : EventRow) : Prop :=
  (newerClaims store params claim).length < maxRows ∧
    ∃ dto, TrustedVerify store params claim dto ∧ (newerVerifies store params tie dto).length < maxRows

section Injected

variable {store store' : VerificationStore} {verifiedBy : List String} {owner : String} {params : Params}
  {req : ResolveVerifiedClaimsRequest} {tie tie' : TieBreak} {claim : EventRow}

/-- Injected events take no verification away. -/
theorem Injects.verifyEvents_subset (h : Injects verifiedBy owner store store') :
    verifyEvents store ⊆ verifyEvents store' := by
  intro dto hDto
  obtain ⟨hEvent, verify, hVerify, hRow⟩ := mem_verifyEvents.mp hDto
  exact mem_verifyEvents.mpr ⟨h.event hEvent, verify, h.verify hVerify, hRow⟩

/-- A claim that matches still does. -/
theorem Injects.isMatching_mono (h : Injects verifiedBy owner store store')
    (hMatching : isMatching store params claim = true) : isMatching store' params claim = true := by
  unfold isMatching verifiedByTrusted at hMatching ⊢
  rw [Bool.and_eq_true, Bool.and_eq_true] at hMatching ⊢
  obtain ⟨⟨hCollection, hFields⟩, hTrusted⟩ := hMatching
  rw [List.any_eq_true] at hFields hTrusted
  obtain ⟨row, hRow, hContains⟩ := hFields
  obtain ⟨dto, hDto, hVerifies⟩ := hTrusted
  refine ⟨⟨hCollection, ?_⟩, ?_⟩
  · exact List.any_eq_true.mpr ⟨row, h.claim hRow, hContains⟩
  · exact List.any_eq_true.mpr ⟨dto, h.verifyEvents_subset hDto, hVerifies⟩

/-- A claim that was returned is still returned, whatever else is published, exactly if
it has room in both lists. -/
theorem still_returned_iff (hInjects : Injects req.verifiedByIdentities claim.key.identity store store')
    (hReturned : Returned store tie req claim) :
    Returned store' tie' req claim ↔ HasRoom store' tie' (Params.of req) claim := by
  obtain ⟨hAccepted, ⟨hStored, hListed⟩, hLive, -⟩ := returned_iff.mp hReturned
  rw [returned_iff]
  constructor
  · rintro ⟨-, ⟨-, hListed'⟩, -, hVerified⟩
    exact ⟨of_decide_eq_true (Bool.and_eq_true_iff.mp hListed').2, hVerified⟩
  · rintro ⟨hFew, hVerified⟩
    have hMatching := hInjects.isMatching_mono (Bool.and_eq_true_iff.mp hListed).1
    refine ⟨hAccepted, ⟨hInjects.event hStored, ?_⟩, ?_, hVerified⟩
    · exact Bool.and_eq_true_iff.mpr ⟨hMatching, decide_eq_true hFew⟩
    · rw [hInjects.tombstoned]
      exact hLive

end Injected

/-! ### Claims that are pushed out -/

def claimKey : EventKeyParts := ⟨verificationsCollection, "alice", 1, [7], 1⟩

def genuineClaim : EventRow := ⟨1, claimKey, some ⟨1, [11]⟩, [], [], 0⟩

def verifyKey (identity : String) (sequence : Nat) : EventKeyParts :=
  ⟨verificationsCollection, identity, 1, [8], .ofNat sequence⟩

/-- One content verifies the claim, whoever publishes it. -/
def verifyRow (id : Nat) (key : EventKeyParts) : EventRow := ⟨id, key, some ⟨1, [12]⟩, [], [], 0⟩

def genuine : List EventRow := [genuineClaim, verifyRow 2 (verifyKey "futo" 1)]

/-- Verifies of the claim by another identity. -/
def junk (count : Nat) : List EventRow :=
  (List.range count).map fun n => verifyRow (n + 3) (verifyKey "mallory" (count + 1 - n))

/-- The database once the other identity has published. -/
def flooded (count : Nat) : VerificationStore where
  event := genuine ++ junk count
  claim := [⟨⟨1, [11]⟩, ⟨1, [1]⟩, [("username", .string "alice")]⟩]
  target := []
  verify := [⟨⟨1, [12]⟩, claimKey⟩]
  tombstoned _ := false
  ids := by
    have hJunk : (junk count).map EventRow.id = (List.range count).map (· + 3) := by
      unfold junk
      rw [List.map_map]
      rfl
    rw [List.map_append, hJunk]
    refine List.Nodup.append (by decide) (List.nodup_range.map (add_left_injective 3)) ?_
    intro id hGenuine hMore
    obtain ⟨n, -, rfl⟩ := List.mem_map.mp hMore
    have hFirst : n + 3 ∈ [1, 2] := hGenuine
    simp at hFirst
  verifies := by simp

def byId : TieBreak := ⟨id, Function.injective_id⟩

def byUsername : ResolveVerifiedClaimsRequest := ⟨none, [("username", "alice")], ["futo"]⟩

theorem flooded_injects (count : Nat) :
    Injects ["futo"] "alice" (flooded 0) (flooded count) where
  event := by
    show genuine ++ [] ⊆ genuine ++ junk count
    rw [List.append_nil]
    exact List.subset_append_left _ _
  added := by
    intro row hRow hNew
    rcases List.mem_append.mp hRow with hGenuine | hJunk
    · exact absurd (List.mem_append_left _ hGenuine) hNew
    · obtain ⟨n, -, rfl⟩ := List.mem_map.mp hJunk
      refine ⟨rfl, ?_, ?_⟩
      · show "mallory" ∉ ["futo"]
        decide
      · show "mallory" ≠ "alice"
        decide
  claim := List.Subset.refl _
  target := List.Subset.refl _
  verify := List.Subset.refl _
  tombstoned := rfl

theorem genuine_returned : Returned (flooded 0) byId byUsername genuineClaim :=
  ⟨[⟨genuineClaim, [], [verifyRow 2 (verifyKey "futo" 1)]⟩], by decide +kernel, List.mem_cons_self⟩

theorem still_returned_one : Returned (flooded 1) byId byUsername genuineClaim ↔
    HasRoom (flooded 1) byId (Params.of byUsername) genuineClaim :=
  still_returned_iff (flooded_injects 1) genuine_returned

/-- The verifies of the other identity fill the list, and the one of the trusted identity
is not in it. -/
theorem genuine_pushed_out : ¬∀ (store store' : VerificationStore) (tie tie' : TieBreak)
    (req : ResolveVerifiedClaimsRequest) (claim : EventRow),
      Injects req.verifiedByIdentities claim.key.identity store store' →
        Returned store tie req claim → Returned store' tie' req claim := by
  intro hAll
  have hReturned := hAll (flooded 0) (flooded 200) byId byId byUsername genuineClaim
    (flooded_injects 200) genuine_returned
  obtain ⟨bundles, hHandle, hClaim⟩ := hReturned
  have hNone : handle (flooded 200) byId byUsername = .ok [] := by decide +kernel
  rw [hNone] at hHandle
  cases hHandle
  exact List.not_mem_nil hClaim

end ResolveVerifiedClaims

end Polycentric.Server

import Polycentric.Client.CacheCoherence
import Polycentric.Client.Merge
import Polycentric.Server.Listing

/-! Pulling events into the local storage, `pull` and `trySaveBundle`. The answer of the
server passes through the core: it is copied into the stores and then validated.
Contents and blobs are saved on the way; nothing of them decides which events are
saved. -/
namespace Polycentric.Client

open Proto Result Memo SortedEntries Server

variable (P : Primitives)

/-- The events of the local storage, by key. -/
abbrev EventRepository := List (Proto.EventKey × SignedEvent)

namespace EventRepository

variable (repository : EventRepository)

def getByEventKey (key : Proto.EventKey) : Option SignedEvent := repository.lookup key

/-- The event of the key is replaced if there is one. -/
def set (key : Proto.EventKey) (signed : SignedEvent) : EventRepository :=
  if repository.any fun entry => entry.1 == key then
    repository.map fun entry => if entry.1 = key then (key, signed) else entry
  else repository ++ [(key, signed)]

/-- Save a signed event under the key of its event. -/
def save (key : Proto.EventKey) (signed : SignedEvent) : Except String EventRepository := do
  ensure (!signed.signature.isEmpty) "SignedEvent must have a valid signature"
  ensure (!signed.eventBytes.isEmpty) "SignedEvent must have valid event data"
  return repository.set key signed

/-- The key with the greatest sequence of each stream of the identity. -/
def heads (identity : String) : List Proto.EventKey :=
  (repository.map Prod.fst).filter fun key =>
    key.identity = identity ∧ ∀ entry ∈ repository,
      entry.1.identity = identity → entry.1.collection = key.collection →
        entry.1.signedBy = key.signedBy → entry.1.sequence ≤ key.sequence

end EventRepository

/-- Save the event of a bundle if its key is new. Errors are absorbed. -/
def trySaveBundle (repository : EventRepository) (bundle : EventBundle) : Bool × EventRepository :=
  match bundle.signedEvent with
  | none => (false, repository)
  | some signed =>
      match P.decodeEvent signed.eventBytes with
      | .error _ => (false, repository)
      | .ok event =>
          match event.key with
          | none => (false, repository)
          | some key =>
              if key.signedBy.isNone || (repository.getByEventKey key).isSome then
                (false, repository)
              else
                match repository.save key signed with
                | .error _ => (false, repository)
                | .ok repository => (true, repository)

/-- The number of new events, and the storage with them. -/
def saveBundles (bundles : List EventBundle) (repository : EventRepository) :
    ℕ × EventRepository :=
  bundles.foldl (fun saved bundle =>
    let (isNew, repository) := trySaveBundle P saved.2 bundle
    (if isNew then saved.1 + 1 else saved.1, repository)) (0, repository)

/-- `list_events` of the core, for one server. What the response brings is copied into
the stores, the hints first; then the response is merged and validated. -/
def listEvents (client : PolycentricClient) (response : ListEventsResponse) :
    List EventBundle × PolycentricClient :=
  let client := client.copyBundles P (response.eventHints.filterMap EventHint.eventBundle)
  let client := client.copyBundles P response.eventBundles
  (retainValidatedBundles P client (mergeEventBundles P response.eventBundles), client)

/-- It is the merge of a single response. -/
theorem listEvents_eq_mergeBundleResponse {decode : Bytes → Option BundleResponse} {bytes : Bytes}
    {response : ListEventsResponse} (client : PolycentricClient)
    (hDecode : decode bytes = some ⟨response.eventBundles, response.eventHints, none⟩) :
    (listEvents P client response).1 =
      (mergeBundleResponse P decode [bytes] (listEvents P client response).2).eventBundles := by
  simp [listEvents, mergeBundleResponse, hDecode]

/-- A bundle without content, and without an identity event, leaves the cached chains as they
are. -/
theorem PolycentricClient.chains_copyBundle {P : Primitives} (client : PolycentricClient)
    {entry : Event × EventBundle} (hContent : entry.2.serializedContent = none)
    (hKey : ∀ signed, entry.2.signedEvent = some signed → ∀ key,
      EventKey.fromSignedEvent P signed = .ok key → key.collection ≠ Collections.identity) :
    (client.copyBundle P entry).chains = client.chains := by
  have hProofs : ((client.copyBundleContent P entry.1 entry.2).copyBundleProofs entry.1 entry.2).chains =
      client.chains := by
    unfold copyBundleContent copyBundleProofs copyMeta
    rw [hContent]
    grind
  unfold copyBundle
  dsimp only
  split
  · next signed hSigned =>
      have hCopied := eventCopied (P := P)
        ((client.copyBundleContent P entry.1 entry.2).copyBundleProofs entry.1 entry.2) signed
      generalize (PolycentricClient.copyEvent P _ signed).2 = client' at hCopied ⊢
      cases hCopied with
      | kept => exact hProofs
      | inserted key hIs _ =>
          dsimp only
          rw [if_neg (hKey signed hSigned key hIs), hProofs]
  · exact hProofs

/-- So do any number of such bundles. -/
theorem PolycentricClient.chains_copyBundles {P : Primitives} (client : PolycentricClient)
    {bundles : List EventBundle}
    (h : ∀ bundle ∈ bundles, bundle.serializedContent = none ∧ ∀ signed, bundle.signedEvent = some signed →
      ∀ key, EventKey.fromSignedEvent P signed = .ok key → key.collection ≠ Collections.identity) :
    (client.copyBundles P bundles).chains = client.chains := by
  have hFold : ∀ (entries : List (Event × EventBundle)) (client : PolycentricClient),
      (∀ entry ∈ entries, entry.2 ∈ bundles) →
        (entries.foldl (fun client entry => client.copyBundle P entry) client).chains = client.chains := by
    intro entries
    induction entries with
    | nil => exact fun _ _ => rfl
    | cons entry rest ih =>
        intro client hEntries
        obtain ⟨hContent, hKey⟩ := h entry.2 (hEntries entry List.mem_cons_self)
        rw [List.foldl_cons, ih _ fun other hOther => hEntries other (List.mem_cons_of_mem _ hOther)]
        exact client.chains_copyBundle hContent hKey
  unfold copyBundles
  apply hFold
  intro entry hEntry
  exact (mem_openBundles.mp ((List.perm_insertionSort _ _).mem_iff.mp hEntry)).1

/-- The core of a client and its local storage. -/
structure LocalClient where
  core : PolycentricClient
  events : EventRepository

/-- Pull events of the identity from a server. A partial pull sends the heads. -/
def pull (answer : Option Int32 → ListEventsFilters → ListEventsResponse) (identity : String)
    (isPartial : Bool) (client : LocalClient) : ℕ × LocalClient :=
  let heads := if isPartial then client.events.heads identity else []
  let (bundles, core) := listEvents P client.core (answer none ⟨none, some identity, none, none, none, heads⟩)
  let (newCount, events) := saveBundles P bundles client.events
  (newCount, ⟨core, events⟩)

end Polycentric.Client

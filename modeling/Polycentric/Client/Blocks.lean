import Polycentric.Client.Merge

/-! What a client hides of blocked identities: `query/blocks.rs` and the derived
block list of `PolycentricClient`. -/
namespace Polycentric.Client

open Proto Result

variable (P : Primitives)

/-- Assemble the stored bundle for an event already located in the store. -/
def PolycentricClient.bundleFor (client : PolycentricClient) (key : EventKey)
    (signedEvent : SignedEvent) (includeProofs : Bool) : Except CoreError EventBundle := do
  let event ← (P.decodeEvent signedEvent.eventBytes).mapError fun e =>
    CoreError.invalidEvent s!"Failed to decode event: {e}"
  return {
    signedEvent := some signedEvent
    serializedContent := (event.contentDigest.bind client.contentStore.get).map fun bytes => ⟨bytes⟩
    eventProofs := if includeProofs then client.eventProofsStore.get key else []
    metadata := client.metaStore.get key }

/-- The decoded body of the content attached to a bundle. -/
def contentBody (bundle : EventBundle) : Option ContentBody := do
  let content ← bundle.serializedContent
  (← (P.decodeContent content.contentBytes).toOption).contentBody

/-- The key a `Delete` bundle names, in the form of a store key. -/
def deleteTarget (bundle : EventBundle) : Option EventKey := do
  match ← contentBody P bundle with
  | .delete (some target) =>
      let signedBy ← target.signedBy
      return ⟨target.identity, target.collection, signedBy.keyType, signedBy.key, target.sequence⟩
  | _ => none

/-- Valid bundles of a collection, without those a valid `Delete` of the same
collection names. -/
def PolycentricClient.listValidEvents (client : PolycentricClient) (identity : String)
    (collection : Int32) : Except CoreError (List EventBundle) := do
  let valid := (client.eventStore.byIdentityAndCollection identity collection).filter
    fun (key, signed) => (client.validateEvent P signed (client.eventProofsStore.get key)).isOk
  let bundles ← valid.mapM fun (key, signed) => do
    return (key, ← client.bundleFor P key signed true)
  let tombstoned := bundles.filterMap fun entry => deleteTarget P entry.2
  return (bundles.filter fun entry => entry.1 ∉ tombstoned).map Prod.snd

/-- Identity named by a `Block` bundle, if the bundle is one. -/
def blockTarget (bundle : EventBundle) : Option String :=
  match contentBody P bundle with
  | some (.block identity) => some identity
  | _ => none

/-- Identities the active identity blocks. -/
def PolycentricClient.blocked (client : PolycentricClient) : List String :=
  match client.blockedIdentities with
  | some cached => cached
  | none =>
      match client.activeIdentity with
      | none => []
      | some active =>
          match client.listValidEvents P active Collections.socialGraph with
          | .ok bundles => bundles.filterMap (blockTarget P)
          | .error _ => []

def isBlockedAuthor (blocked : List String) (bundle : EventBundle) : Bool :=
  ((decodeEvent P bundle).bind Event.key).any fun key => key.identity ∈ blocked

def repostsBlockedTarget (blocked : List String) (bundle : EventBundle) : Bool :=
  match contentBody P bundle with
  | some (.repost post) => post.any fun target => target.identity ∈ blocked
  | _ => false

/-- The dedup key of the post that the bundle replies to. -/
def replyParent (bundle : EventBundle) : Option EventDedupKey := do
  match ← contentBody P bundle with
  | .post post =>
      let parent ← (← post.reply).parent
      let signedBy ← parent.signedBy
      return (parent.collection, parent.identity, signedBy.keyType, signedBy.key, parent.sequence)
  | _ => none

/-- One pass of the loop. Replies to bundles dropped earlier in the pass are
dropped with them when `cascadeReplies` is set. -/
def retainPass (blocked : List String) (cascadeReplies : Bool) :
    List EventBundle → List EventDedupKey → List EventBundle × List EventDedupKey
  | [], dropped => ([], dropped)
  | bundle :: rest, dropped =>
      let cascades := cascadeReplies && (replyParent P bundle).any fun parent =>
        decide (parent.2.1 ∈ blocked) || decide (parent ∈ dropped)
      if isBlockedAuthor P blocked bundle || repostsBlockedTarget P blocked bundle || cascades then
        retainPass blocked cascadeReplies rest ((eventDedupKey P bundle).toList ++ dropped)
      else
        let (kept, dropped) := retainPass blocked cascadeReplies rest dropped
        (bundle :: kept, dropped)

/-- Passes until one drops nothing. Every pass before the last drops a bundle, so
one round more than there are bundles is enough. -/
def retainLoop (blocked : List String) (cascadeReplies : Bool) :
    Nat → List EventBundle → List EventDedupKey → List EventBundle
  | 0, bundles, _ => bundles
  | rounds + 1, bundles, dropped =>
      let (kept, dropped) := retainPass P blocked cascadeReplies bundles dropped
      if kept.length = bundles.length then kept
      else retainLoop blocked cascadeReplies rounds kept dropped

def retainUnblocked (blocked : List String) (bundles : List EventBundle)
    (cascadeReplies : Bool) : List EventBundle :=
  if blocked.isEmpty then bundles
  else retainLoop P blocked cascadeReplies (bundles.length + 1) bundles []

/-- Retain only bundles that are neither authored by a blocked identity nor a
repost of one. -/
def retainUnblockedBundles (blocked : List String) (bundles : List EventBundle) :
    List EventBundle :=
  retainUnblocked P blocked bundles false

/-- Retain only hints not authored by a blocked identity. -/
def retainUnblockedHints (blocked : List String) (hints : List EventHint) : List EventHint :=
  if blocked.isEmpty then hints
  else hints.filter fun hint => !hint.eventBundle.any (isBlockedAuthor P blocked)

theorem retainPass_sublist (blocked : List String) (cascadeReplies : Bool)
    (bundles : List EventBundle) (dropped : List EventDedupKey) :
    (retainPass P blocked cascadeReplies bundles dropped).1.Sublist bundles := by
  induction bundles generalizing dropped with
  | nil => exact List.Sublist.refl _
  | cons bundle rest ih =>
      simp only [retainPass]
      split
      · exact (ih _).cons _
      · exact (ih _).cons_cons _

theorem retainLoop_sublist (blocked : List String) (cascadeReplies : Bool) (rounds : Nat)
    (bundles : List EventBundle) (dropped : List EventDedupKey) :
    (retainLoop P blocked cascadeReplies rounds bundles dropped).Sublist bundles := by
  induction rounds generalizing bundles dropped with
  | zero => exact List.Sublist.refl _
  | succ rounds ih =>
      have hPass := retainPass_sublist P blocked cascadeReplies bundles dropped
      simp only [retainLoop]
      split
      · exact hPass
      · exact (ih _ _).trans hPass

/-- Blocking only removes bundles. -/
theorem retainUnblocked_sublist (blocked : List String) (bundles : List EventBundle)
    (cascadeReplies : Bool) :
    (retainUnblocked P blocked bundles cascadeReplies).Sublist bundles := by
  unfold retainUnblocked
  split
  · exact List.Sublist.refl _
  · exact retainLoop_sublist P _ _ _ _ _

theorem retainUnblockedHints_sublist (blocked : List String) (hints : List EventHint) :
    (retainUnblockedHints P blocked hints).Sublist hints := by
  unfold retainUnblockedHints
  split
  · exact List.Sublist.refl _
  · exact List.filter_sublist

end Polycentric.Client

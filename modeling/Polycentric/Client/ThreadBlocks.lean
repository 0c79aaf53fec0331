import Polycentric.Client.Blocks
import Polycentric.Library.Cascade

/-! What blocking hides in a thread. Replies to hidden posts are hidden with them,
and the list may name a reply before its parent. -/
namespace Polycentric.Client

open Proto Cascade

variable (P : Primitives)

/-- `retain_unblocked_bundles`, additionally dropping replies whose parent chain
contains a dropped post. -/
def retainUnblockedThreadBundles (blocked : List String) (bundles : List EventBundle) :
    List EventBundle :=
  retainUnblocked P blocked bundles true

/-- The key that the post of a bundle names as its parent, as it was sent: it may lack
the signer. -/
def namedParent (bundle : EventBundle) : Option Proto.EventKey :=
  match contentBody P bundle with
  | some (.post post) => post.reply.bind PostReply.parent
  | _ => none

/-- The bundles that a block takes out of a thread: the least set with these members. -/
inductive Hidden (blocked : List String) (bundles : List EventBundle) : EventBundle → Prop where
  | author {bundle : EventBundle} (hMem : bundle ∈ bundles)
      (hAuthor : isBlockedAuthor P blocked bundle = true) : Hidden blocked bundles bundle
  | repost {bundle : EventBundle} (hMem : bundle ∈ bundles)
      (hRepost : repostsBlockedTarget P blocked bundle = true) : Hidden blocked bundles bundle
  | parent {bundle : EventBundle} {parent : EventDedupKey} (hMem : bundle ∈ bundles)
      (hParent : replyParent P bundle = some parent) (hBlocked : parent.2.1 ∈ blocked) :
      Hidden blocked bundles bundle
  | reply {bundle above : EventBundle} {parent : EventDedupKey} (hMem : bundle ∈ bundles)
      (hParent : replyParent P bundle = some parent) (hAbove : Hidden blocked bundles above)
      (hKey : eventDedupKey P above = some parent) : Hidden blocked bundles bundle

/-- Whether a block hides the bundle, whatever else is in the thread. -/
def hides (blocked : List String) (bundle : EventBundle) : Bool :=
  isBlockedAuthor P blocked bundle || repostsBlockedTarget P blocked bundle ||
    (replyParent P bundle).any fun parent => decide (parent.2.1 ∈ blocked)

variable {P} {blocked : List String} {bundles : List EventBundle} {bundle : EventBundle}

/-- The complete parent key is the named one with its signer. -/
theorem replyParent_eq (bundle : EventBundle) :
    replyParent P bundle = (namedParent P bundle).bind fun parent =>
      parent.signedBy.map fun signedBy =>
        (parent.collection, parent.identity, signedBy.keyType, signedBy.key, parent.sequence) := by
  unfold replyParent namedParent
  cases contentBody P bundle with
  | none => rfl
  | some body =>
      cases body with
      | post post =>
          cases hReply : post.reply with
          | none => simp [hReply]
          | some reply =>
              cases hParent : reply.parent with
              | none => simp [hReply, hParent]
              | some parent => cases hSigner : parent.signedBy <;> simp [hReply, hParent, hSigner]
      | _ => rfl

theorem hides_iff : hides P blocked bundle = true ↔ isBlockedAuthor P blocked bundle = true ∨
    repostsBlockedTarget P blocked bundle = true ∨
      ∃ parent, replyParent P bundle = some parent ∧ parent.2.1 ∈ blocked := by
  simp only [hides, Bool.or_eq_true, Option.any_eq_true, decide_eq_true_eq, or_assoc]

theorem hidden_iff_removed : Hidden P blocked bundles bundle ↔
    Removed (eventDedupKey P) (replyParent P) (hides P blocked) bundles bundle := by
  constructor
  · intro h
    induction h with
    | author hMem hAuthor => exact .hit hMem (hides_iff.mpr (.inl hAuthor))
    | repost hMem hRepost => exact .hit hMem (hides_iff.mpr (.inr (.inl hRepost)))
    | parent hMem hParent hBlocked =>
        exact .hit hMem (hides_iff.mpr (.inr (.inr ⟨_, hParent, hBlocked⟩)))
    | reply hMem hParent hAbove hKey ih => exact .hangs hMem hParent ih hKey
  · intro h
    induction h with
    | hit hMem hHit =>
        rcases hides_iff.mp hHit with hAuthor | hRepost | ⟨parent, hParent, hBlocked⟩
        · exact .author hMem hAuthor
        · exact .repost hMem hRepost
        · exact .parent hMem hParent hBlocked
    | hangs hMem hParent hAbove hKey ih => exact .reply hMem hParent ih hKey

/-- Without blocked identities nothing is hidden. -/
theorem not_hidden_nil : ¬Hidden P [] bundles bundle := by
  intro h
  induction h with
  | author hMem hAuthor => simp [isBlockedAuthor] at hAuthor
  | @repost bundle hMem hRepost =>
      unfold repostsBlockedTarget at hRepost
      split at hRepost
      · simp at hRepost
      · cases hRepost
  | parent hMem hParent hBlocked => cases hBlocked
  | reply hMem hParent hAbove hKey ih => exact ih

/-! ### The loop -/

theorem retainPass_cascading (blocked : List String) (bundles : List EventBundle)
    (dropped : List EventDedupKey) :
    retainPass P blocked true bundles dropped =
      sweep (eventDedupKey P) (replyParent P) (hides P blocked) bundles dropped := by
  induction bundles generalizing dropped with
  | nil => rfl
  | cons bundle rest ih =>
      rw [retainPass, sweep]
      simp only [ih]
      refine if_congr ?_ rfl rfl
      cases hParent : replyParent P bundle with
      | none => simp [hides, hParent]
      | some parent => simp [hides, hParent, or_assoc]

theorem retainPass_alone (blocked : List String) (bundles : List EventBundle)
    (dropped : List EventDedupKey) :
    retainPass P blocked false bundles dropped =
      sweep (eventDedupKey P) (fun _ => none)
        (fun bundle => isBlockedAuthor P blocked bundle || repostsBlockedTarget P blocked bundle)
        bundles dropped := by
  induction bundles generalizing dropped with
  | nil => rfl
  | cons bundle rest ih => simp [retainPass, sweep, ih]

theorem retainLoop_eq_passes (blocked : List String) (cascadeReplies : Bool) (rounds : Nat)
    (bundles : List EventBundle) (dropped : List EventDedupKey) :
    retainLoop P blocked cascadeReplies rounds bundles dropped =
      passes (retainPass P blocked cascadeReplies) rounds bundles dropped := by
  induction rounds generalizing bundles dropped with
  | zero => rfl
  | succ rounds ih => simp only [retainLoop, passes, ih]

/-- Outside of threads each bundle is judged for itself. -/
theorem retainUnblockedBundles_eq_filter (blocked : List String) (bundles : List EventBundle) :
    retainUnblockedBundles P blocked bundles = bundles.filter fun bundle =>
      !(isBlockedAuthor P blocked bundle || repostsBlockedTarget P blocked bundle) := by
  unfold retainUnblockedBundles retainUnblocked
  split
  · next hEmpty =>
      obtain rfl := List.isEmpty_iff.mp hEmpty
      symm
      rw [List.filter_eq_self]
      intro bundle hMem
      have hNone : ¬Hidden P [] bundles bundle := not_hidden_nil
      simp only [Bool.not_or, Bool.and_eq_true, Bool.not_eq_true']
      exact ⟨Bool.eq_false_iff.mpr fun h => hNone (.author hMem h),
        Bool.eq_false_iff.mpr fun h => hNone (.repost hMem h)⟩
  · have hPass : retainPass P blocked false = _ :=
      funext fun items => funext (retainPass_alone blocked items)
    rw [retainLoop_eq_passes, hPass,
      (passes_eq_filter bundles (Nat.lt_succ_self _)).2]
    apply List.filter_congr
    intro bundle hMem
    have hAlone : Removed (eventDedupKey P) (fun _ => none)
        (fun bundle => isBlockedAuthor P blocked bundle || repostsBlockedTarget P blocked bundle)
        bundles bundle ↔
          (isBlockedAuthor P blocked bundle || repostsBlockedTarget P blocked bundle) = true := by
      refine ⟨fun h => ?_, fun h => .hit hMem h⟩
      cases h with
      | hit hItem hHit => exact hHit
      | hangs hItem hParent hAbove hKey => cases hParent
    simp only [hAlone, Bool.not_eq_true, Bool.decide_eq_false]

open Classical in
/-- In a thread, what is kept is what is not hidden. The loop ends by itself, before
the rounds run out. -/
theorem retainUnblockedThreadBundles_eq_filter (blocked : List String) (bundles : List EventBundle) :
    (blocked ≠ [] → Cascade.Ends (retainPass P blocked true) bundles []
      (retainUnblockedThreadBundles P blocked bundles)) ∧
    retainUnblockedThreadBundles P blocked bundles =
      bundles.filter fun bundle => ¬Hidden P blocked bundles bundle := by
  unfold retainUnblockedThreadBundles retainUnblocked
  cases blocked with
  | nil =>
      refine ⟨fun h => absurd rfl h, ?_⟩
      rw [List.isEmpty_nil, if_pos rfl, eq_comm, List.filter_eq_self]
      exact fun bundle _ => decide_eq_true not_hidden_nil
  | cons identity rest =>
      have hPass : retainPass P (identity :: rest) true = _ :=
        funext fun items => funext (retainPass_cascading (identity :: rest) items)
      rw [List.isEmpty_cons, if_neg Bool.false_ne_true, retainLoop_eq_passes, hPass]
      have hPasses := @passes_eq_filter _ _ _ (eventDedupKey P) (replyParent P)
        (hides P (identity :: rest)) bundles _ (Nat.lt_succ_self _)
      refine ⟨fun _ => hPasses.1, hPasses.2.trans ?_⟩
      exact List.filter_congr fun bundle _ => by simp only [hidden_iff_removed]

open Classical in
theorem mem_retainUnblockedThreadBundles :
    bundle ∈ retainUnblockedThreadBundles P blocked bundles ↔
      bundle ∈ bundles ∧ ¬Hidden P blocked bundles bundle := by
  rw [(retainUnblockedThreadBundles_eq_filter blocked bundles).2, List.mem_filter, decide_eq_true_eq]

/-! ### The order of the list -/

theorem hidden_congr {bundles' : List EventBundle} (h : ∀ bundle, bundle ∈ bundles ↔ bundle ∈ bundles') :
    Hidden P blocked bundles bundle ↔ Hidden P blocked bundles' bundle := by
  rw [hidden_iff_removed, hidden_iff_removed]
  exact ⟨.mono fun a => (h a).mp, .mono fun a => (h a).mpr⟩

open Classical in
/-- The loop over a thread ends, and it removes exactly the least set of bundles that
contains those by a blocked identity, the reposts of its events and the replies whose
complete parent key names it, and with a bundle the replies to it. The kept bundles stay
in order, and the order of the list does not matter for what is kept. -/
theorem threadBlocks_exact (P : Primitives) (blocked : List String) (bundles : List EventBundle) :
    (blocked ≠ [] → Cascade.Ends (retainPass P blocked true) bundles []
      (retainUnblockedThreadBundles P blocked bundles)) ∧
    retainUnblockedThreadBundles P blocked bundles =
      (bundles.filter fun bundle => ¬Hidden P blocked bundles bundle) ∧
    ∀ bundles' : List EventBundle, bundles'.Perm bundles → ∀ bundle,
      (bundle ∈ retainUnblockedThreadBundles P blocked bundles' ↔
        bundle ∈ retainUnblockedThreadBundles P blocked bundles) := by
  obtain ⟨hEnds, hFilter⟩ := retainUnblockedThreadBundles_eq_filter blocked bundles
  refine ⟨hEnds, hFilter, fun bundles' hPerm bundle => ?_⟩
  have hSame : ∀ bundle, bundle ∈ bundles' ↔ bundle ∈ bundles := fun bundle => hPerm.mem_iff
  rw [mem_retainUnblockedThreadBundles, mem_retainUnblockedThreadBundles, hSame bundle,
    hidden_congr hSame]

end Polycentric.Client

namespace Polycentric.TableInstance

open Client Proto

/-- Event `[4]` is Bob's reply to a post of Alice. The parent key has no signer. -/
def signerlessPrimitives : Primitives := primitives
  [([4], event Collections.feed "bob" (key 3) 1 [0, 1] [14])]
  [([14], ⟨some (.post ⟨"hi", some ⟨none, some ⟨Collections.feed, "alice", none, 1⟩⟩, [], none, []⟩)⟩)]

def signerlessReply : EventBundle := ⟨some ⟨sign (key 3).key [4], [4]⟩, some ⟨[14]⟩, [], none⟩

end Polycentric.TableInstance

namespace Polycentric.Client

open TableInstance

/-- A reply whose parent key names a blocked identity without a signer is kept. -/
theorem threadBlocks_signerless :
    ¬∀ bundle ∈ retainUnblockedThreadBundles signerlessPrimitives ["alice"] [signerlessReply],
      ∀ parent, namedParent signerlessPrimitives bundle = some parent →
        parent.identity ∉ ["alice"] := by
  intro h
  have hKept : signerlessReply ∈
      retainUnblockedThreadBundles signerlessPrimitives ["alice"] [signerlessReply] := by
    decide +kernel
  exact h signerlessReply hKept ⟨Collections.feed, "alice", none, 1⟩ rfl List.mem_cons_self

end Polycentric.Client

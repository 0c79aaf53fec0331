import Polycentric.Client.ThreadBlocks
import Polycentric.Server.FeedFilter

/-! Two readings of a block in a thread. The server drops the replies to dropped rows in
one pass over its columns; the client drops bundles until nothing more goes, by the keys
that it decodes. -/
namespace Polycentric.Sync

open Proto Client Server Feeds Cascade

/-- The rows of a thread: events that the server stores, each once, and no reply before
its parent. -/
structure Thread (P : Primitives) where
  db : Database
  filed : db.Filed P
  rows : List EventWithContentRow
  stored : ∀ row ∈ rows, row.1 ∈ db.event
  once : (rows.map fun row => row.1.key).Nodup
  parentsFirst : ParentsFirst (fun row => some row.1.key) (Feeds.replyParent P) rows

/-- The columns of a key that the client compares. -/
def dedupColumns (key : EventDedupKey) : EventKeyParts where
  collection := key.1.toInt16
  identity := key.2.1
  publicKeyType := key.2.2.1.toInt16
  publicKey := key.2.2.2.1
  sequence := key.2.2.2.2.toInt64

section Rows

variable (P : Primitives) (blocked : List String) (rows : List EventWithContentRow)

/-- The parent that the post of a row names, as the client reads it. -/
def clientParent (row : EventWithContentRow) : Option EventDedupKey :=
  Client.replyParent P (rowIntoBundle row)

/-- The key of the event of a row, as the client reads it. -/
def clientKey (row : EventWithContentRow) : Option EventDedupKey := eventDedupKey P (rowIntoBundle row)

/-- Where both sides judge a row alike. -/
structure JudgedAlike (row : EventWithContentRow) : Prop where
  /-- A repost of a blocked identity's event names it with its signer. -/
  signedTarget : repostsBlockedTarget P blocked (rowIntoBundle row) = true →
    (referencedTarget P row).isSome = true
  /-- A parent of a blocked identity is in the thread. -/
  parentListed : ∀ parent, clientParent P row = some parent →
    parent.2.1 ∈ blocked → ∃ above ∈ rows, above.1.key = dedupColumns parent
  /-- The parent is no repost of a blocked identity's event. -/
  parentShown : ∀ parent, clientParent P row = some parent → ∀ above ∈ rows,
    clientKey P above = some parent → isBlockedRow blocked above = false →
      repostsBlockedTarget P blocked (rowIntoBundle above) = false
  /-- An event with the columns of the parent is the parent, or not below a blocked post. -/
  parentApart : ∀ parent, clientParent P row = some parent → parent.2.1 ∉ blocked →
    ∀ above ∈ rows, above.1.key = dedupColumns parent → clientKey P above ≠ some parent →
      ¬BelowBlocked P blocked rows above

/-- A repost of a blocked identity's event that the server reads as such. -/
def DroppedRepost (row : EventWithContentRow) : Prop :=
  repostsBlockedTarget P blocked (rowIntoBundle row) = true ∧ (referencedTarget P row).isSome = true

end Rows

/-- Hydrated data without deletions. -/
def withoutTombstones (hydration : HydrationState) : HydrationState :=
  { hydration with deletesByTarget := [] }

/-! ### A row and its bundle -/

section Bundle

variable {P : Primitives} {blocked : List String} {row : EventWithContentRow} {thread : Thread P}

theorem contentBody_rowIntoBundle (row : EventWithContentRow) :
    contentBody P (rowIntoBundle row) = rowBody P row := by
  unfold contentBody rowBody rowIntoBundle ContentRow.body
  cases row.2 <;> rfl

theorem clientKey_spec (hRow : row ∈ thread.rows) :
    ∃ key, clientKey P row = some key ∧ dedupColumns key = row.1.key := by
  obtain ⟨event, key, signer, hDecoded, hKey, hSigner, hColumns, -⟩ :=
    thread.filed row.1 (thread.stored row hRow)
  refine ⟨(key.collection, key.identity, signer.keyType, signer.key, key.sequence), ?_, ?_⟩
  · simp [clientKey, eventDedupKey, decodeEvent, rowIntoBundle, hDecoded, dedupKey, hKey, hSigner,
      Except.toOption]
  · rw [hColumns]
    rfl

theorem isBlockedAuthor_rowIntoBundle (hRow : row ∈ thread.rows) :
    isBlockedAuthor P blocked (rowIntoBundle row) = isBlockedRow blocked row := by
  obtain ⟨event, key, signer, hDecoded, hKey, hSigner, hColumns, -⟩ :=
    thread.filed row.1 (thread.stored row hRow)
  have hIdentity : row.1.key.identity = key.identity := by rw [hColumns]; rfl
  simp [isBlockedAuthor, isBlockedRow, decodeEvent, rowIntoBundle, hDecoded, hKey, hIdentity,
    Except.toOption]

theorem replyParent_eq_clientParent (row : EventWithContentRow) :
    Feeds.replyParent P row = (clientParent P row).map dedupColumns := by
  unfold Feeds.replyParent clientParent Client.replyParent
  rw [contentBody_rowIntoBundle]
  cases rowBody P row with
  | none => rfl
  | some body =>
      cases body with
      | post post =>
          cases hReply : post.reply with
          | none => simp [hReply]
          | some reply =>
              cases hParent : reply.parent with
              | none => simp [hReply, hParent]
              | some parent =>
                  cases hSigner : parent.signedBy with
                  | none => simp [hReply, hParent, toTargetEventKey, hSigner]
                  | some signer =>
                      simp [hReply, hParent, toTargetEventKey, hSigner, dedupColumns, EventKeyParts.of]
      | _ => rfl

/-- A repost that hides its row names a key of a blocked identity. -/
theorem repost_iff : repostsBlockedTarget P blocked (rowIntoBundle row) = true ↔
    ∃ target, rowBody P row = some (.repost (some target)) ∧
      target.identity ∈ blocked := by
  unfold repostsBlockedTarget
  rw [contentBody_rowIntoBundle]
  cases rowBody P row with
  | none => simp
  | some body =>
      cases body with
      | repost post => cases post <;> simp
      | _ => simp

theorem clientParent_of_repost
    (h : repostsBlockedTarget P blocked (rowIntoBundle row) = true) :
    clientParent P row = none := by
  obtain ⟨target, hBody, -⟩ := repost_iff.mp h
  unfold clientParent Client.replyParent
  rw [contentBody_rowIntoBundle, hBody]
  rfl

/-- The server drops a row that is below no blocked post only as a repost. -/
theorem judgeRow_iff (hydration : HydrationState) :
    (judgeRow P (withoutTombstones hydration) [] row).1 = false ↔
      DroppedRepost P hydration.blockedIdentities row := by
  rw [DroppedRepost, repost_iff]
  unfold judgeRow referencedTarget isOmitLabeled isOmitted withoutTombstones
  cases rowBody P row with
  | none => simp
  | some body =>
      cases body with
      | post post => cases hQuote : post.quote.bind toTargetEventKey <;> simp [hQuote]
      | repost post =>
          cases post with
          | none => simp
          | some target =>
              cases hSigner : target.signedBy <;>
                simp [toTargetEventKey, hSigner, EventKeyParts.of, isOmitLabeled]
      | _ => simp

theorem isBlockedRow_iff :
    isBlockedRow blocked row = true ↔ row.1.key.identity ∈ blocked := by
  unfold isBlockedRow
  rw [List.contains_iff_mem]

end Bundle

/-! ### The two sides -/

section Sides

variable {P : Primitives} {blocked : List String} {thread : Thread P} {row above : EventWithContentRow}

/-- What the client hides of a thread. -/
abbrev HiddenRow (P : Primitives) (blocked : List String) (rows : List EventWithContentRow)
    (row : EventWithContentRow) : Prop :=
  Hidden P blocked (rows.map rowIntoBundle) (rowIntoBundle row)

theorem hiddenRow_of_blocked (hRow : row ∈ thread.rows) (hBlocked : isBlockedRow blocked row = true) :
    HiddenRow P blocked thread.rows row :=
  .author (List.mem_map_of_mem hRow) ((isBlockedAuthor_rowIntoBundle hRow).trans hBlocked)

theorem belowBlocked_of_reply (hRow : row ∈ thread.rows) {parent : EventDedupKey}
    (hParent : clientParent P row = some parent) (hAbove : BelowBlocked P blocked thread.rows above)
    (hKey : above.1.key = dedupColumns parent) : BelowBlocked P blocked thread.rows row := by
  have hColumns : Feeds.replyParent P row = some (dedupColumns parent) := by
    rw [replyParent_eq_clientParent, hParent, Option.map_some]
  exact .hangs hRow hColumns hAbove (congrArg some hKey)

/-- Rows below blocked posts are hidden by the client. -/
theorem hiddenRow_of_belowBlocked
    (hAlike : ∀ row ∈ thread.rows, isBlockedRow blocked row = false →
      JudgedAlike P blocked thread.rows row)
    (h : BelowBlocked P blocked thread.rows row) : HiddenRow P blocked thread.rows row := by
  induction h with
  | hit hRow hBlocked => exact hiddenRow_of_blocked hRow hBlocked
  | @hangs row above columns hRow hColumns hAbove hKey ih =>
      cases hBlocked : isBlockedRow blocked row with
      | true => exact hiddenRow_of_blocked hRow hBlocked
      | false =>
          have hBundle : rowIntoBundle row ∈ thread.rows.map rowIntoBundle := List.mem_map_of_mem hRow
          rw [replyParent_eq_clientParent, Option.map_eq_some_iff] at hColumns
          obtain ⟨parent, hParent, rfl⟩ := hColumns
          by_cases hOwner : parent.2.1 ∈ blocked
          · exact .parent hBundle hParent hOwner
          · by_cases hSame : clientKey P above = some parent
            · exact .reply hBundle hParent ih hSame
            · exact absurd hAbove ((hAlike row hRow hBlocked).parentApart parent hParent hOwner above
                hAbove.mem (Option.some.inj hKey) hSame)

/-- What the client hides is below a blocked post, or a repost that the server drops. -/
theorem belowBlocked_or_dropped
    (hAlike : ∀ row ∈ thread.rows, isBlockedRow blocked row = false →
      JudgedAlike P blocked thread.rows row)
    {bundle : EventBundle}
    (h : Hidden P blocked (thread.rows.map rowIntoBundle) bundle) :
    ∀ row ∈ thread.rows, rowIntoBundle row = bundle →
      BelowBlocked P blocked thread.rows row ∨ DroppedRepost P blocked row := by
  induction h with
  | author hMem hAuthor =>
      rintro row hRow rfl
      exact .inl (.hit hRow ((isBlockedAuthor_rowIntoBundle hRow).symm.trans hAuthor))
  | repost hMem hRepost =>
      rintro row hRow rfl
      cases hBlocked : isBlockedRow blocked row with
      | true => exact .inl (.hit hRow hBlocked)
      | false =>
          exact .inr ⟨hRepost, (hAlike row hRow hBlocked).signedTarget hRepost⟩
  | parent hMem hParent hOwner =>
      rintro row hRow rfl
      cases hBlocked : isBlockedRow blocked row with
      | true => exact .inl (.hit hRow hBlocked)
      | false =>
          obtain ⟨above, hAbove, hKey⟩ := (hAlike row hRow hBlocked).parentListed _ hParent hOwner
          have hBelow : BelowBlocked P blocked thread.rows above := by
            refine .hit hAbove (isBlockedRow_iff.mpr ?_)
            rw [hKey]
            exact hOwner
          exact .inl (belowBlocked_of_reply hRow hParent hBelow hKey)
  | @reply bundle aboveBundle parent hMem hParent hAbove hKey ih =>
      rintro row hRow rfl
      obtain ⟨above, hListed, rfl⟩ := List.mem_map.mp (hidden_iff_removed.mp hAbove).mem
      obtain ⟨key, hDecoded, hColumns⟩ := clientKey_spec hListed
      obtain rfl := Option.some.inj (hDecoded.symm.trans hKey)
      cases hBlocked : isBlockedRow blocked row with
      | true => exact .inl (.hit hRow hBlocked)
      | false =>
          rcases ih above hListed rfl with hBelow | hDropped
          · exact .inl (belowBlocked_of_reply hRow hParent hBelow hColumns.symm)
          · cases hAuthor : isBlockedRow blocked above with
            | true => exact .inl (belowBlocked_of_reply hRow hParent (.hit hListed hAuthor) hColumns.symm)
            | false =>
                have hShown := (hAlike row hRow hBlocked).parentShown _ hParent above hListed hKey hAuthor
                rw [(hDropped).1] at hShown
                cases hShown

theorem eq_of_columns (hRow : row ∈ thread.rows) (hAbove : above ∈ thread.rows)
    (h : row.1.key = above.1.key) : row = above :=
  List.inj_on_of_nodup_map thread.once hRow hAbove h

/-- A reply by an unblocked author goes on the server only with its parent. -/
theorem parent_of_belowBlocked (h : BelowBlocked P blocked thread.rows row)
    (hBlocked : isBlockedRow blocked row = false) {parent : EventDedupKey}
    (hParent : clientParent P row = some parent) :
    ∃ above, BelowBlocked P blocked thread.rows above ∧ above.1.key = dedupColumns parent := by
  cases h with
  | hit hRow hAuthor => exact absurd (hBlocked.symm.trans hAuthor) Bool.false_ne_true
  | @hangs _ above columns hRow hColumns hAbove hKey =>
      rw [replyParent_eq_clientParent, hParent, Option.map_some] at hColumns
      exact ⟨above, hAbove, (Option.some.inj hKey).trans (Option.some.inj hColumns).symm⟩

/-- A repost by an unblocked author is below no post. -/
theorem not_belowBlocked_of_repost
    (hRepost : repostsBlockedTarget P blocked (rowIntoBundle row) = true)
    (hBlocked : isBlockedRow blocked row = false) : ¬BelowBlocked P blocked thread.rows row := by
  intro h
  cases h with
  | hit hRow hAuthor => exact Bool.false_ne_true (hBlocked.symm.trans hAuthor)
  | hangs hRow hColumns hAbove hKey =>
      rw [replyParent_eq_clientParent, clientParent_of_repost hRepost] at hColumns
      cases hColumns

/-- What both sides hide together, they judge alike. -/
theorem judgedAlike_of_agree
    (hAgree : ∀ row ∈ thread.rows, (BelowBlocked P blocked thread.rows row ∨
      DroppedRepost P blocked row) ↔ HiddenRow P blocked thread.rows row)
    (hRow : row ∈ thread.rows) (hBlocked : isBlockedRow blocked row = false) :
    JudgedAlike P blocked thread.rows row := by
  have hBundle : rowIntoBundle row ∈ thread.rows.map rowIntoBundle := List.mem_map_of_mem hRow
  -- A reply is no repost, so that only its parent can take it away.
  have hReply : ∀ parent, clientParent P row = some parent → HiddenRow P blocked thread.rows row →
      ∃ above, BelowBlocked P blocked thread.rows above ∧ above.1.key = dedupColumns parent := by
    intro parent hParent hHidden
    rcases (hAgree row hRow).mpr hHidden with hBelow | hDropped
    · exact parent_of_belowBlocked hBelow hBlocked hParent
    · rw [clientParent_of_repost (hDropped).1] at hParent
      cases hParent
  refine ⟨fun hRepost => ?_, fun parent hParent hOwner => ?_, fun parent hParent above hAbove hKey hAuthor => ?_,
    fun parent hParent hOwner above hAbove hColumns hOther hBelow => ?_⟩
  · rcases (hAgree row hRow).mpr (.repost hBundle hRepost) with hBelow | hDropped
    · exact absurd hBelow (not_belowBlocked_of_repost hRepost hBlocked)
    · exact (hDropped).2
  · obtain ⟨above, hBelow, hColumns⟩ := hReply parent hParent (.parent hBundle hParent hOwner)
    exact ⟨above, hBelow.mem, hColumns⟩
  · rw [← Bool.not_eq_true]
    intro hRepost
    have hHidden : HiddenRow P blocked thread.rows above :=
      .repost (List.mem_map_of_mem hAbove) hRepost
    obtain ⟨other, hBelow, hColumns⟩ := hReply parent hParent (.reply hBundle hParent hHidden hKey)
    obtain ⟨key, hDecoded, hSame⟩ := clientKey_spec hAbove
    obtain rfl := Option.some.inj (hDecoded.symm.trans hKey)
    obtain rfl := eq_of_columns hBelow.mem hAbove (hColumns.trans hSame)
    exact not_belowBlocked_of_repost hRepost hAuthor hBelow
  · have hHidden := (hAgree row hRow).mp (.inl (belowBlocked_of_reply hRow hParent hBelow hColumns))
    cases hHidden with
    | author hMem hAuthor =>
        rw [isBlockedAuthor_rowIntoBundle hRow, hBlocked] at hAuthor
        cases hAuthor
    | repost hMem hRepost =>
        rw [clientParent_of_repost hRepost] at hParent
        cases hParent
    | parent hMem hParent' hOwner' =>
        obtain rfl := Option.some.inj (hParent.symm.trans hParent')
        exact hOwner hOwner'
    | reply hMem hParent' hAboveHidden hKey =>
        obtain rfl := Option.some.inj (hParent.symm.trans hParent')
        obtain ⟨other, hListed, rfl⟩ := List.mem_map.mp (hidden_iff_removed.mp hAboveHidden).mem
        obtain ⟨key, hDecoded, hSame⟩ := clientKey_spec hListed
        obtain rfl := Option.some.inj (hDecoded.symm.trans hKey)
        obtain rfl := eq_of_columns hListed hAbove (hSame.symm.trans hColumns.symm)
        exact hOther hKey

end Sides

/-- Client and server hide the same posts of a thread exactly if they judge every row of
an unblocked author alike. -/
theorem threads_agree_iff {P : Primitives} {SortedBy : Type} (thread : Thread P)
    (hydration : HydrationState) (pageInfo : PageInfo SortedBy) :
    (∀ row ∈ thread.rows,
      (row ∈ (filterThread P ⟨thread.rows, pageInfo⟩ (withoutTombstones hydration) []).liveRows ↔
        rowIntoBundle row ∈ retainUnblockedThreadBundles P hydration.blockedIdentities
          (thread.rows.map rowIntoBundle))) ↔
      ∀ row ∈ thread.rows, isBlockedRow hydration.blockedIdentities row = false →
        JudgedAlike P hydration.blockedIdentities thread.rows row := by
  have hSides : ∀ row ∈ thread.rows,
      ((row ∈ (filterThread P ⟨thread.rows, pageInfo⟩ (withoutTombstones hydration) []).liveRows ↔
        rowIntoBundle row ∈ retainUnblockedThreadBundles P hydration.blockedIdentities
          (thread.rows.map rowIntoBundle)) ↔
      ((BelowBlocked P hydration.blockedIdentities thread.rows row ∨
        DroppedRepost P hydration.blockedIdentities row) ↔
          HiddenRow P hydration.blockedIdentities thread.rows row)) := by
    intro row hRow
    rw [mem_filterThread thread.parentsFirst, mem_retainUnblockedThreadBundles,
      and_iff_right hRow, and_iff_right (List.mem_map_of_mem hRow), ← Bool.not_eq_false, judgeRow_iff,
      ← not_or, not_iff_not]
    rfl
  rw [forall₂_congr hSides]
  constructor
  · exact fun hAgree row hRow hBlocked => judgedAlike_of_agree hAgree hRow hBlocked
  · intro hAlike row hRow
    constructor
    · rintro (hBelow | hDropped)
      · exact hiddenRow_of_belowBlocked hAlike hBelow
      · exact .repost (List.mem_map_of_mem hRow) hDropped.1
    · exact fun hHidden => belowBlocked_or_dropped hAlike hHidden row hRow rfl

end Polycentric.Sync

namespace Polycentric.TableInstance

open Proto Client Server

/-- Event `[4]` is Bob's reply to a post of Alice. -/
def orphanPrimitives : Primitives := primitives
  [([4], event Collections.feed "bob" (key 3) 1 [0, 1] [14])]
  [([14], ⟨some (.post ⟨"hi", some ⟨none, some ⟨Collections.feed, "alice", some (key 2), 1⟩⟩, [], none, []⟩)⟩)]

def orphanRow : EventWithContentRow :=
  (⟨4, ⟨Collections.feed.toInt16, "bob", keyTypeEd25519.toInt16, (key 3).key, 1⟩,
    some ⟨contentDigestTypeSha256, (digest [14]).val⟩, sign (key 3).key [4], [4], 0⟩,
    some ⟨⟨contentDigestTypeSha256, (digest [14]).val⟩, [14]⟩)

/-- The thread has the reply only. -/
def orphanThread : Sync.Thread orphanPrimitives where
  db := { Database.empty with event := [orphanRow.1] }
  filed := by
    intro row hRow
    obtain rfl := List.mem_singleton.mp hRow
    exact ⟨event Collections.feed "bob" (key 3) 1 [0, 1] [14], _, _, rfl, rfl, rfl, by decide, rfl⟩
  rows := [orphanRow]
  stored row hRow := by
    obtain rfl := List.mem_singleton.mp hRow
    exact List.mem_singleton_self _
  once := by decide
  parentsFirst := by
    refine ⟨fun parent hParent above hAbove => ?_, trivial⟩
    obtain rfl := List.mem_singleton.mp hAbove
    have hNamed : Feeds.replyParent orphanPrimitives orphanRow =
        some ⟨Collections.feed.toInt16, "alice", keyTypeEd25519.toInt16, (key 2).key, 1⟩ := by
      decide +kernel
    obtain rfl := Option.some.inj (hNamed.symm.trans hParent)
    decide

end Polycentric.TableInstance

namespace Polycentric.Sync

open Server Client Feeds TableInstance

/-- The server shows a reply to a blocked post that is not in the thread, the client
hides it. -/
theorem threads_disagree_orphan :
    ¬∀ row ∈ orphanThread.rows,
      (row ∈ (filterThread orphanPrimitives ⟨orphanThread.rows, ⟨.start, .finish, false, false⟩⟩
          (withoutTombstones ⟨[], [], [], [], ["alice"]⟩) [] :
            GetFeedResponseFilter Unit).liveRows ↔
        rowIntoBundle row ∈ retainUnblockedThreadBundles orphanPrimitives ["alice"]
          (orphanThread.rows.map rowIntoBundle)) := by
  intro h
  have hLive : orphanRow ∈ (filterLive orphanPrimitives
      (withoutTombstones ⟨[], [], [], [], ["alice"]⟩) [] true [orphanRow] []).1 := by decide +kernel
  have hHidden : retainUnblockedThreadBundles orphanPrimitives ["alice"] [rowIntoBundle orphanRow] = [] := by
    decide +kernel
  have hKept := (h orphanRow (List.mem_singleton_self _)).mp hLive
  rw [show orphanThread.rows.map rowIntoBundle = [rowIntoBundle orphanRow] from rfl, hHidden] at hKept
  cases hKept

end Polycentric.Sync

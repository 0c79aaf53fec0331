import Polycentric.Server.Ingestion

/-! The reaction tallies. Their counts are kept by increments and decrements, and
they stay equal to the numbers of stored reactions. The decayed count follows the
positive count, except when a positive reaction is deleted. -/
namespace Polycentric.Server

open Proto Result Runs

/-- The count of one sign. -/
def ReactionTallyRow.count (tally : ReactionTallyRow) (positive : Bool) : Int :=
  if positive then tally.positiveCount else tally.negativeCount

/-- The number of stored reactions of one sign to a post. -/
def DerivedTables.reactionCount (derived : DerivedTables) (post : Nat) (positive : Bool) : Nat :=
  derived.reaction.countP fun row => row.onPost = post ∧ row.positive = positive

/-- Every tally counts the stored reactions to its post. -/
def DerivedTables.CountsExact (derived : DerivedTables) : Prop :=
  ∀ tally ∈ derived.reactionTally, ∀ positive,
    tally.count positive = derived.reactionCount tally.eventId positive

section Counts

variable {runtime : Runtime} {now : Int} {db : Database} {eventId : Nat} {identity : String}
  {derived : DerivedTables}

theorem countReaction_count (positive sign : Bool) (post : EventRow) (tally : ReactionTallyRow) :
    (countReaction runtime positive post tally).count sign =
      tally.count sign + if sign = positive then 1 else 0 := by
  cases positive <;> cases sign <;> simp [countReaction, ReactionTallyRow.count]

theorem uncountReaction_count (positive sign : Bool) (post : EventRow) (tally : ReactionTallyRow) :
    (uncountReaction runtime positive post tally).count sign =
      tally.count sign - if sign = positive then 1 else 0 := by
  cases positive <;> cases sign <;> simp [uncountReaction, ReactionTallyRow.count]

/-- A new post has no reactions yet. -/
theorem postQuery_counts (hNew : eventId ∉ db.derived.mentioned) (h : db.derived.CountsExact)
    {post : Post} (hQuery : postQuery runtime now db eventId identity post = .ok derived) :
    derived.CountsExact := by
  simp only [postQuery, bind_eq_ok_iff, pure, Except.pure, Except.ok.injEq] at hQuery
  obtain ⟨quotes, -, replies, -, rfl⟩ := hQuery
  intro tally hTally positive
  rcases List.mem_append.mp hTally with hOld | hLast
  · exact h tally hOld positive
  · have hNone : db.derived.reactionCount eventId positive = 0 := by
      unfold DerivedTables.reactionCount
      rw [List.countP_eq_zero]
      intro reaction hReaction hOn
      rw [decide_eq_true_eq] at hOn
      exact hNew (hOn.1 ▸ (Database.Regular.reaction_mentioned hReaction).2)
    rw [List.mem_singleton.mp hLast]
    show _ = ((db.derived.reactionCount eventId positive : Nat) : Int)
    rw [hNone]
    cases positive <;> rfl

/-- A reaction is inserted and counted at the same post. -/
theorem reactionQuery_counts (hRegular : db.Regular) (h : db.derived.CountsExact)
    {reaction : Reaction}
    (hQuery : reactionQuery runtime db eventId identity reaction = .ok derived) :
    derived.CountsExact := by
  simp only [reactionQuery, bind_eq_ok_iff, pure, Except.pure, Except.ok.injEq] at hQuery
  obtain ⟨parts, -, rfl⟩ := hQuery
  rcases hRegular.selectNotDeletedEvent_cases parts with hNone | ⟨post, -, -, hOne⟩
  · simp only [hNone, List.map_nil, List.append_nil, List.find?_nil, List.map_id']
    exact h
  · intro tally hTally sign
    simp only [hOne, List.mem_map] at hTally
    obtain ⟨old, hOld, rfl⟩ := hTally
    have hCount := h old hOld sign
    simp only [DerivedTables.reactionCount, hOne, List.map_cons, List.map_nil, List.countP_append,
      List.countP_singleton] at hCount ⊢
    by_cases hPost : post.id = old.eventId
    · simp only [List.find?_cons, hPost, decide_true, countReaction_eventId, countReaction_count,
        hCount, true_and, decide_eq_true_eq, eq_comm (a := reaction.positive)]
      split <;> simp
    · simp [hPost, hCount]

/-- The tally of a deleted post goes, and so do the reactions to it. -/
theorem deletePost_counts (h : db.derived.CountsExact) (ids : List Nat) :
    (deletePost db ids).CountsExact := by
  intro tally hTally positive
  obtain ⟨hOld, hOut⟩ := List.mem_filter.mp hTally
  rw [decide_eq_true_eq] at hOut
  rw [h tally hOld positive]
  unfold DerivedTables.reactionCount deletePost
  rw [List.countP_filter, Nat.cast_inj]
  apply List.countP_congr
  intro reaction _
  simp only [decide_eq_true_eq, Bool.and_eq_true, and_assoc]
  constructor
  · rintro ⟨hOn, hPositive⟩
    exact ⟨hOn, hPositive, hOn ▸ hOut⟩
  · rintro ⟨hOn, hPositive, -⟩
    exact ⟨hOn, hPositive⟩

/-- The reactions that a deleted event brought: at most one. -/
theorem deletedReactions_cases (hRegular : db.Regular) (parts : EventKeyParts) :
    let deleted := db.derived.reaction.filter fun row =>
      row.eventId ∈ (db.selectEvent parts).map EventRow.id
    deleted = [] ∨ ∃ reaction ∈ db.derived.reaction, deleted = [reaction] ∧
      (db.derived.reaction.filter fun row =>
        row.eventId ∉ (db.selectEvent parts).map EventRow.id) = db.derived.reaction.erase reaction := by
  intro deleted
  have hNodup : db.derived.reaction.Nodup := hRegular.reactions.of_map
  rcases hRegular.selectEvent_cases parts with hNone | ⟨row, -, -, hOne⟩
  · exact Or.inl (by simp [deleted, hNone])
  · have hIds : ∀ id, id ∈ (db.selectEvent parts).map EventRow.id ↔ id = row.id := by simp [hOne]
    simp only [deleted, hIds]
    rcases filter_eq_nil_or_singleton hRegular.reactions row.id with hNil | ⟨reaction, hMem, hId, hSingle⟩
    · exact Or.inl hNil
    · refine Or.inr ⟨reaction, hMem, hSingle, ?_⟩
      rw [hNodup.erase_eq_filter]
      apply List.filter_congr
      intro other hOther
      have hIff : other.eventId = row.id ↔ other = reaction := by
        constructor
        · intro hEq
          exact eq_of_column_eq hRegular.reactions hOther hMem (hEq.trans hId.symm)
        · rintro rfl
          exact hId
      by_cases hEq : other = reaction <;> simp [hIff, hEq, hId]

/-- A deleted reaction is removed and discounted at the same post. -/
theorem deleteReaction_counts (hRegular : db.Regular) (h : db.derived.CountsExact)
    (parts : EventKeyParts) :
    (deleteReaction runtime db ((db.selectEvent parts).map EventRow.id)).CountsExact := by
  intro tally hTally sign
  unfold deleteReaction at hTally ⊢
  obtain ⟨old, hOld, rfl⟩ := List.mem_map.mp hTally
  obtain ⟨post, -, -, hFind⟩ := hRegular.find_tallied hOld
  have hCount := h old hOld sign
  simp only [DerivedTables.reactionCount] at hCount ⊢
  rcases deletedReactions_cases hRegular parts with hNil | ⟨reaction, hMem, hSingle, hKept⟩
  · have hAll : (db.derived.reaction.filter fun row =>
        row.eventId ∉ (db.selectEvent parts).map EventRow.id) = db.derived.reaction := by
      rw [List.filter_eq_self]
      intro row hRow
      have hOut := List.filter_eq_nil_iff.mp hNil row hRow
      simpa using hOut
    simp only [hNil, hAll, List.find?_nil, hCount]
  · simp only [hSingle, hKept, hFind, List.find?_cons, List.find?_nil]
    by_cases hOn : reaction.onPost = old.eventId
    · simp only [hOn, decide_true, uncountReaction_eventId, uncountReaction_count, hCount]
      rw [List.countP_erase]
      by_cases hSign : sign = reaction.positive
      · have hPositive : 0 < db.derived.reaction.countP fun row =>
            row.onPost = old.eventId ∧ row.positive = sign :=
          List.countP_pos_iff.mpr ⟨reaction, hMem, by simp [hOn, hSign]⟩
        subst hSign
        simp only [hMem, hOn, and_self, decide_true, if_true]
        omega
      · have hNe : reaction.positive ≠ sign := fun hEq => hSign hEq.symm
        simp [hSign, hNe]
    · simp only [hOn, decide_false, hCount]
      rw [List.countP_erase]
      simp [hOn]

theorem updateCache_counts (hRegular : db.Regular) (hNew : eventId ∉ db.derived.mentioned)
    (h : db.derived.CountsExact) {body : ContentBody}
    (hUpdate : updateCache runtime now db eventId identity body = .ok derived) :
    derived.CountsExact := by
  cases body with
  | post post => exact postQuery_counts hNew h hUpdate
  | reaction reaction => exact reactionQuery_counts hRegular h hUpdate
  | repost post =>
      simp only [updateCache, repostQuery, bind_eq_ok_iff, pure, Except.pure,
        Except.ok.injEq] at hUpdate
      obtain ⟨reposts, -, rfl⟩ := hUpdate
      exact h
  | delete eventKey =>
      simp only [updateCache, deleteQuery, bind_eq_ok_iff, pure, Except.pure,
        Except.ok.injEq] at hUpdate
      obtain ⟨parts, -, rfl⟩ := hUpdate
      split_ifs
      · exact deletePost_counts h _
      · exact h
      · exact h
      · exact deleteReaction_counts hRegular h parts
      · exact h
  | _ =>
      obtain rfl := Except.ok.inj hUpdate
      exact h

end Counts

/-- The tables are regular and their tallies exact. -/
structure Database.Tallied (db : Database) : Prop where
  regular : db.Regular
  counts : db.derived.CountsExact

theorem Database.Tallied.empty : Database.empty.Tallied :=
  ⟨.empty, fun _ hTally => nomatch hTally⟩

theorem Database.Tallied.run_step {runtime : Runtime} {db : Database} {step : AddStep}
    (h : db.Tallied) (hFresh : step.FreshId db) : (step.run runtime db).Tallied := by
  apply AddStep.run_induction h
  intro derived tombstones hStores
  refine ⟨h.regular.stored hFresh hStores, ?_⟩
  show derived.CountsExact
  rcases hStores.derived with ⟨-, rfl⟩ | ⟨body, -, hUpdate⟩
  · exact h.counts
  · exact updateCache_counts h.regular (h.regular.not_mentioned hFresh) h.counts hUpdate

/-- After any run of `add_event` the counts of every tally are the numbers of
stored reactions, so they are never negative. -/
theorem tally_counts_exact (runtime : Runtime) (steps : List AddStep)
    (hFresh : Along (AddStep.run runtime) AddStep.FreshId Database.empty steps) :
    let derived := (run (AddStep.run runtime) Database.empty steps).derived
    ∀ tally ∈ derived.reactionTally,
      tally.positiveCount = derived.reactionCount tally.eventId true ∧
        tally.negativeCount = derived.reactionCount tally.eventId false ∧
        0 ≤ tally.positiveCount ∧ 0 ≤ tally.negativeCount := by
  intro derived tally hTally
  have hTallied : (run (AddStep.run runtime) Database.empty steps).Tallied :=
    run_invariant Database.Tallied.run_step .empty hFresh
  have hCounts := hTallied.counts tally hTally
  have hPositive : tally.positiveCount = derived.reactionCount tally.eventId true := hCounts true
  have hNegative : tally.negativeCount = derived.reactionCount tally.eventId false := hCounts false
  refine ⟨hPositive, hNegative, ?_, ?_⟩
  · rw [hPositive]
    exact Int.natCast_nonneg _
  · rw [hNegative]
    exact Int.natCast_nonneg _

open InertDeletes TableInstance

/-- A post and a reaction to it. -/
theorem tally_counts_exact_reaction :
    let derived := (run (AddStep.run runtime) Database.empty [alicePost, bobReaction]).derived
    ∀ tally ∈ derived.reactionTally,
      tally.positiveCount = derived.reactionCount tally.eventId true ∧
        tally.negativeCount = derived.reactionCount tally.eventId false ∧
        0 ≤ tally.positiveCount ∧ 0 ≤ tally.negativeCount :=
  tally_counts_exact runtime [alicePost, bobReaction] ⟨by decide, by decide, trivial⟩

/-! ### The decayed count -/

/-- Whenever the positive count of a post changes, the decayed count that is
stored with it is the decay of the new count. -/
def DecayFollows (runtime : Runtime) (before after : Database) : Prop :=
  ∀ tally ∈ before.derived.reactionTally, ∀ tally' ∈ after.derived.reactionTally,
    tally'.eventId = tally.eventId → tally'.positiveCount ≠ tally.positiveCount →
      ∃ post ∈ before.event, post.id = tally.eventId ∧
        tally'.decayedCount = runtime.reactionCountDecay tally'.positiveCount post.createdAt

/-- The step deletes an event of the interactions collection that brought a
positive reaction to the post of the tally. -/
structure AddStep.RemovesUpvote (runtime : Runtime) (db : Database) (step : AddStep)
    (tally : ReactionTallyRow) : Prop where
  accepted : runtime.refuses step.row (step.decoded.map DecodedContent.content) = false
  single : isDuplicate db step.row step.decoded = false
  upvote : ∃ key, step.body = some (.delete (some key)) ∧ key.identity = step.row.key.identity ∧
    ∃ target ∈ db.event, partsOf (some key) = some target.key ∧
      target.key.collection = collectionInteractions ∧
      ∃ reaction ∈ db.derived.reaction, reaction.eventId = target.id ∧
        reaction.onPost = tally.eventId ∧ reaction.positive = true

/-- The decay makes no difference between the counts before and after the
removals of the step. -/
def AddStep.DecaySteady (runtime : Runtime) (db : Database) (step : AddStep) : Prop :=
  ∀ tally ∈ db.derived.reactionTally, step.RemovesUpvote runtime db tally →
    ∀ post ∈ db.event, post.id = tally.eventId →
      runtime.reactionCountDecay tally.positiveCount post.createdAt =
        runtime.reactionCountDecay (tally.positiveCount - 1) post.createdAt

section Decay

variable {runtime : Runtime} {now : Int} {db : Database} {eventId : Nat} {identity : String}
  {derived : DerivedTables} {step : AddStep} {tombstones : List ContentDeleteRow}

/-- What deleting reactions does to a tally. -/
theorem deleteReaction_tally (hRegular : db.Regular) (parts : EventKeyParts)
    {tally : ReactionTallyRow} (hTally : tally ∈ db.derived.reactionTally) {tally' : ReactionTallyRow}
    (hTally' : tally' ∈
      (deleteReaction runtime db ((db.selectEvent parts).map EventRow.id)).reactionTally)
    (hSame : tally'.eventId = tally.eventId) :
    (tally' = tally ∧ ¬∃ target ∈ db.event, target.key = parts ∧
      ∃ reaction ∈ db.derived.reaction, reaction.eventId = target.id ∧
        reaction.onPost = tally.eventId) ∨
    ∃ post ∈ db.event, post.id = tally.eventId ∧ ∃ target ∈ db.event, target.key = parts ∧
      ∃ reaction ∈ db.derived.reaction, reaction.eventId = target.id ∧
        reaction.onPost = tally.eventId ∧
        tally' = uncountReaction runtime reaction.positive post tally := by
  have hUnique : ∀ {reaction : ReactionRow}, reaction ∈ db.derived.reaction →
      (reaction.eventId ∈ (db.selectEvent parts).map EventRow.id ↔
        ∃ target ∈ db.event, target.key = parts ∧ reaction.eventId = target.id) := by
    intro reaction _
    simp only [Database.selectEvent, List.mem_map, List.mem_filter, decide_eq_true_eq]
    constructor
    · rintro ⟨target, ⟨hTarget, hKey⟩, hId⟩
      exact ⟨target, hTarget, hKey, hId.symm⟩
    · rintro ⟨target, hTarget, hKey, hId⟩
      exact ⟨target, ⟨hTarget, hKey⟩, hId.symm⟩
  obtain ⟨old, hOld, rfl⟩ := List.mem_map.mp hTally'
  obtain ⟨post, hPost, hPostId, hFind⟩ := hRegular.find_tallied hOld
  have hId : old.eventId = tally.eventId := by
    split at hSame
    · rwa [uncountReaction_eventId] at hSame
    · exact hSame
  obtain rfl := eq_of_column_eq hRegular.tallies hOld hTally hId
  rw [hFind]
  cases hDeleted : (db.derived.reaction.filter fun row =>
      row.eventId ∈ (db.selectEvent parts).map EventRow.id).find?
      fun row => row.onPost = old.eventId with
  | none =>
      refine Or.inl ⟨rfl, ?_⟩
      rintro ⟨target, hTarget, hKey, reaction, hReaction, hEvent, hOn⟩
      have hOut := List.find?_eq_none.mp hDeleted reaction
        (List.mem_filter.mpr ⟨hReaction, by
          rw [decide_eq_true_eq]
          exact (hUnique hReaction).mpr ⟨target, hTarget, hKey, hEvent⟩⟩)
      exact hOut (by simpa using hOn)
  | some reaction =>
      have hOn := List.find?_some hDeleted
      obtain ⟨hReaction, hMem⟩ := List.mem_filter.mp (List.mem_of_find?_eq_some hDeleted)
      rw [decide_eq_true_eq] at hOn hMem
      obtain ⟨target, hTarget, hKey, hEvent⟩ := (hUnique hReaction).mp hMem
      exact Or.inr ⟨post, hPost, hPostId, target, hTarget, hKey, reaction, hReaction, hEvent, hOn, rfl⟩

/-- What an update can do to a tally: nothing, count a reaction, or discount one
that is deleted. -/
theorem updateCache_tally (hRegular : db.Regular) (hNew : eventId ∉ db.derived.mentioned)
    {body : ContentBody} (hUpdate : updateCache runtime now db eventId identity body = .ok derived)
    {tally tally' : ReactionTallyRow} (hTally : tally ∈ db.derived.reactionTally)
    (hTally' : tally' ∈ derived.reactionTally) (hSame : tally'.eventId = tally.eventId) :
    tally' = tally ∨
    (∃ positive, ∃ post ∈ db.event, post.id = tally.eventId ∧
      tally' = countReaction runtime positive post tally) ∨
    ∃ key, body = .delete (some key) ∧ ∃ post ∈ db.event, post.id = tally.eventId ∧
      ∃ target ∈ db.event, partsOf (some key) = some target.key ∧
        target.key.collection = collectionInteractions ∧
        ∃ reaction ∈ db.derived.reaction, reaction.eventId = target.id ∧
          reaction.onPost = tally.eventId ∧
          tally' = uncountReaction runtime reaction.positive post tally := by
  have hOld : tally' ∈ db.derived.reactionTally → tally' = tally := fun hMem =>
    eq_of_column_eq hRegular.tallies hMem hTally hSame
  cases body with
  | post post =>
      simp only [updateCache, postQuery, bind_eq_ok_iff, pure, Except.pure,
        Except.ok.injEq] at hUpdate
      obtain ⟨quotes, -, replies, -, rfl⟩ := hUpdate
      rcases List.mem_append.mp hTally' with hMem | hLast
      · exact Or.inl (hOld hMem)
      · rw [List.mem_singleton.mp hLast] at hSame
        have hId : eventId = tally.eventId := hSame
        rw [hId] at hNew
        exact absurd (Database.Regular.tally_mentioned hTally) hNew
  | reaction reaction =>
      simp only [updateCache, reactionQuery, bind_eq_ok_iff, pure, Except.pure,
        Except.ok.injEq] at hUpdate
      obtain ⟨parts, -, rfl⟩ := hUpdate
      obtain ⟨old, hMem, rfl⟩ := List.mem_map.mp hTally'
      have hId : old.eventId = tally.eventId := by
        split at hSame
        · rwa [countReaction_eventId] at hSame
        · exact hSame
      obtain rfl := eq_of_column_eq hRegular.tallies hMem hTally hId
      cases hFind : (db.selectNotDeletedEvent parts).find? fun post => post.id = old.eventId with
      | none => exact Or.inl rfl
      | some post =>
          have hPost := (mem_selectNotDeletedEvent.mp (List.mem_of_find?_eq_some hFind)).2.1
          have hPostId := List.find?_some hFind
          rw [decide_eq_true_eq] at hPostId
          exact Or.inr (Or.inl ⟨reaction.positive, post, hPost, hPostId, rfl⟩)
  | repost post =>
      simp only [updateCache, repostQuery, bind_eq_ok_iff, pure, Except.pure,
        Except.ok.injEq] at hUpdate
      obtain ⟨reposts, -, rfl⟩ := hUpdate
      exact Or.inl (hOld hTally')
  | delete eventKey =>
      simp only [updateCache, deleteQuery, bind_eq_ok_iff, pure, Except.pure,
        Except.ok.injEq] at hUpdate
      obtain ⟨parts, hParts, rfl⟩ := hUpdate
      rw [splitEventKey_eq_ok_iff] at hParts
      split_ifs at hTally' with hFeed hProfile hSocial hInteractions
      · exact Or.inl (hOld (List.mem_filter.mp hTally').1)
      · exact Or.inl (hOld hTally')
      · exact Or.inl (hOld hTally')
      · rcases deleteReaction_tally hRegular parts hTally hTally' hSame with
          ⟨hEq, -⟩ | ⟨post, hPost, hId, target, hTarget, hKey, reaction, hReaction, hEvent, hOn, hEq⟩
        · exact Or.inl hEq
        · cases eventKey with
          | none => simp [partsOf] at hParts
          | some key =>
              subst hKey
              exact Or.inr (Or.inr ⟨key, rfl, post, hPost, hId, target, hTarget, hParts,
                hInteractions, reaction, hReaction, hEvent, hOn, hEq⟩)
      · exact Or.inl (hOld hTally')
  | _ =>
      obtain rfl := Except.ok.inj hUpdate
      exact Or.inl (hOld hTally')

theorem authorisedBody_delete {key : EventKey} (hBody : step.body = some (.delete (some key)))
    (hOwn : key.identity = step.row.key.identity) :
    step.authorisedBody = some (.delete (some key)) := by
  refine AddStep.authorisedBody_eq_some_iff.mpr ⟨hBody, ?_⟩
  simp [eventIsAuthorised, step.contentBody_eq, hBody, hOwn]

theorem tombstonesOf_delete {key : EventKey} {parts : EventKeyParts}
    (hBody : step.body = some (.delete (some key))) (hParts : partsOf (some key) = some parts) :
    ∃ d, step.decoded = some d ∧ tombstonesOf step.decoded = .ok [⟨d.digest, parts⟩] := by
  obtain ⟨d, hDecoded, hContent⟩ := Option.bind_eq_some_iff.mp hBody
  refine ⟨d, hDecoded, ?_⟩
  simp only [tombstonesOf, hDecoded, hContent, Option.elim, saveContentBody,
    splitEventKey_eq_ok_iff.mpr hParts]
  rfl

/-- The removal is carried out, and the tally is left with the decay of the count
before it. -/
theorem AddStep.RemovesUpvote.run_tally (hRegular : db.Regular) {tally : ReactionTallyRow}
    (hTally : tally ∈ db.derived.reactionTally) (h : step.RemovesUpvote runtime db tally) :
    ∃ post ∈ db.event, post.id = tally.eventId ∧
      uncountReaction runtime true post tally ∈ (step.run runtime db).derived.reactionTally := by
  obtain ⟨key, hBody, hOwn, target, hTarget, hParts, hCollection, reaction, hReaction, hEvent, hOn,
    hPositive⟩ := h.upvote
  obtain ⟨d, -, hTombstones⟩ := tombstonesOf_delete hBody hParts
  have hUpdate : updateCache runtime step.now db step.row.id step.row.key.identity
      (.delete (some key)) =
        .ok (deleteReaction runtime db ((db.selectEvent target.key).map EventRow.id)) := by
    have hNot : ∀ other : Int16, other ≠ collectionInteractions → ¬target.key.collection = other :=
      fun other hOther hEq => hOther (hEq.symm.trans hCollection)
    simp only [updateCache, deleteQuery, splitEventKey_eq_ok_iff.mpr hParts, bind, Except.bind, pure,
      Except.pure]
    rw [if_neg (hNot _ (by decide)), if_neg (hNot _ (by decide)), if_neg (hNot _ (by decide)),
      if_pos hCollection]
  have hStores : step.Stores runtime db _ _ :=
    ⟨Or.inr ⟨_, authorisedBody_delete hBody hOwn, hUpdate⟩, hTombstones, h.accepted, h.single⟩
  rw [hStores.run_eq]
  have hMapped : ∃ tally' ∈
      (deleteReaction runtime db ((db.selectEvent target.key).map EventRow.id)).reactionTally,
      tally'.eventId = tally.eventId := by
    refine ⟨_, List.mem_map_of_mem hTally, ?_⟩
    split
    · exact uncountReaction_eventId
    · rfl
  obtain ⟨tally', hTally', hSame⟩ := hMapped
  rcases deleteReaction_tally hRegular target.key hTally hTally' hSame with
    ⟨-, hNone⟩ | ⟨post, hPost, hId, target', hTarget', hKey, reaction', hReaction', hEvent', -, hEq⟩
  · exact absurd ⟨target, hTarget, rfl, reaction, hReaction, hEvent, hOn⟩ hNone
  · obtain rfl := eq_of_column_eq hRegular.keys hTarget' hTarget hKey
    obtain rfl := eq_of_column_eq hRegular.reactions hReaction' hReaction
      (hEvent'.trans hEvent.symm)
    rw [hPositive] at hEq
    exact ⟨post, hPost, hId, hEq ▸ hTally'⟩

/-- The decayed count follows exactly if the decay ignores the removed upvotes. -/
theorem decayFollows_iff (hRegular : db.Regular) (hFresh : step.FreshId db) :
    DecayFollows runtime db (step.run runtime db) ↔ step.DecaySteady runtime db := by
  constructor
  · intro h tally hTally hRemoves post hPost hId
    obtain ⟨post', hPost', hId', hTally'⟩ := hRemoves.run_tally hRegular hTally
    obtain rfl := eq_of_column_eq hRegular.ids hPost' hPost (hId'.trans hId.symm)
    have hChanged : (uncountReaction runtime true post' tally).positiveCount ≠
        tally.positiveCount := by
      simp [uncountReaction]
    obtain ⟨post'', hPost'', hId'', hDecay⟩ := h tally hTally _ hTally'
      uncountReaction_eventId hChanged
    obtain rfl := eq_of_column_eq hRegular.ids hPost'' hPost (hId''.trans hId.symm)
    simpa [uncountReaction] using hDecay
  · intro h tally hTally tally' hTally' hSame hChanged
    rcases AddStep.run_cases runtime db step with hRun | ⟨derived, tombstones, hStores, hRun⟩
    · rw [hRun] at hTally'
      exact absurd (by rw [eq_of_column_eq hRegular.tallies hTally' hTally hSame]) hChanged
    · rw [hRun] at hTally'
      rcases hStores.derived with ⟨-, rfl⟩ | ⟨body, hBody, hUpdate⟩
      · exact absurd (by rw [eq_of_column_eq hRegular.tallies hTally' hTally hSame]) hChanged
      · rcases updateCache_tally hRegular (hRegular.not_mentioned hFresh) hUpdate hTally hTally' hSame
          with rfl | ⟨positive, post, hPost, hId, rfl⟩ | ⟨key, rfl, post, hPost, hId, target, hTarget,
            hParts, hCollection, reaction, hReaction, hEvent, hOn, rfl⟩
        · exact absurd rfl hChanged
        · cases positive with
          | false => simp [countReaction] at hChanged
          | true => exact ⟨post, hPost, hId, rfl⟩
        · cases hPositive : reaction.positive with
          | false => simp [uncountReaction, hPositive] at hChanged
          | true =>
              obtain ⟨hStepBody, hAuthorised⟩ := AddStep.authorisedBody_eq_some_iff.mp hBody
              have hOwn : key.identity = step.row.key.identity := by
                simpa [eventIsAuthorised, step.contentBody_eq, hStepBody] using hAuthorised
              have hRemoves : step.RemovesUpvote runtime db tally :=
                ⟨hStores.accepted, hStores.single, key, hStepBody, hOwn, target, hTarget, hParts,
                  hCollection, reaction, hReaction, hEvent, hOn, hPositive⟩
              refine ⟨post, hPost, hId, ?_⟩
              simpa [uncountReaction] using h tally hTally hRemoves post hPost hId

end Decay

/-- In a run of `add_event` the decayed count follows every change of a positive
count exactly if no step removes an upvote that the decay takes notice of. -/
theorem decayed_count_follows_iff (runtime : Runtime) (steps : List AddStep)
    (hFresh : Along (AddStep.run runtime) AddStep.FreshId Database.empty steps) :
    Along (AddStep.run runtime) (fun db step => DecayFollows runtime db (step.run runtime db))
        Database.empty steps ↔
      Along (AddStep.run runtime) (AddStep.DecaySteady runtime) Database.empty steps :=
  along_congr Database.Regular.run_step decayFollows_iff .empty hFresh

/-- A step without a `Delete` removes no upvote. -/
theorem AddStep.decaySteady_of_body {runtime : Runtime} {db : Database} {step : AddStep}
    (hBody : ∀ key, step.body ≠ some (.delete (some key))) : step.DecaySteady runtime db := by
  intro tally _ hRemoves
  obtain ⟨key, hDelete, -⟩ := hRemoves.upvote
  exact absurd hDelete (hBody key)

theorem decayed_count_follows_reaction :
    Along (AddStep.run runtime) (fun db step => DecayFollows runtime db (step.run runtime db))
      Database.empty [alicePost, bobReaction] :=
  (decayed_count_follows_iff runtime [alicePost, bobReaction] ⟨by decide, by decide, trivial⟩).mpr
    ⟨AddStep.decaySteady_of_body nofun, AddStep.decaySteady_of_body nofun, trivial⟩

/-- Bob takes his reaction back. -/
def bobUnreaction : AddStep where
  now := 0
  row := ⟨4, .of { eventKey Collections.interactions "bob" with sequence := 2 }
    ⟨keyTypeEd25519, "bob".toUTF8.toList⟩, none, [], [], 0⟩
  decoded := some ⟨[], ⟨some (.delete (some (eventKey Collections.interactions "bob")))⟩,
    ⟨contentDigestTypeSha256, [4]⟩⟩

/-- The only upvote of a post is taken back, and the decayed count stays. -/
theorem decayed_count_stale :
    Along (AddStep.run runtime) AddStep.FreshId Database.empty [alicePost, bobReaction, bobUnreaction] ∧
      ¬Along (AddStep.run runtime) (fun db step => DecayFollows runtime db (step.run runtime db))
        Database.empty [alicePost, bobReaction, bobUnreaction] := by
  refine ⟨⟨by decide, by decide, by decide, trivial⟩, fun h => ?_⟩
  have hLast := h.2.2.1
  unfold DecayFollows at hLast
  exact absurd hLast (by decide +kernel)

end Polycentric.Server

import Polycentric.Client.Merge
import Polycentric.Library.Selection
import Polycentric.Library.SortedEntries

/-! What is left of the cursors of several servers when their page infos are merged in any
grouping: the farthest cursor of every server. The absolute value of the least offset wraps,
so that it does not count as the farthest one. -/
namespace Polycentric.Client

open KeyedMerge SortedEntries Selection

/-- A server's answer to a page request: its page info, and how far the request was from the
original query. -/
structure PageAnswer where
  server : String
  pageInfo : Option PageInfo
  backwardOffset : Int32
  forwardOffset : Int32

namespace PageAnswer

variable (answer : PageAnswer)

/-- The cursor before the page. -/
def startCursor : Option (String × CursorInfo) :=
  answer.pageInfo.map fun i =>
    (answer.server, ⟨i.startCursor, answer.backwardOffset - 1, i.hasPreviousPage⟩)

/-- The cursor behind the page. -/
def endCursor : Option (String × CursorInfo) :=
  answer.pageInfo.map fun i => (answer.server, ⟨i.endCursor, answer.forwardOffset + 1, i.hasNextPage⟩)

end PageAnswer

/-- `encode_new`: a fake cursor of one server. -/
def encodeNew (codec : CursorCodec) (server token : String) (offset : Int32) (moreData : Bool) :
    Option String :=
  codec.encode (CursorMap.insert server ⟨token, offset, moreData⟩ [])

/-- Replace the server's cursors with fake ones. `none` if they do not encode. -/
def preparePageInfo (codec : CursorCodec) (pageInfo : Option PageInfo) (server : String)
    (backwardOffset forwardOffset : Int32) : Option (Option PageInfo) :=
  match pageInfo with
  | none => some none
  | some i => do
      let start ← encodeNew codec server i.startCursor (backwardOffset - 1) i.hasPreviousPage
      let last ← encodeNew codec server i.endCursor (forwardOffset + 1) i.hasNextPage
      return some { i with startCursor := start, endCursor := last }

/-- A way of associating the merges of prepared page infos. -/
inductive MergeTree where
  | answer (answer : PageAnswer)
  | merge (left right : MergeTree)

namespace MergeTree

def answers : MergeTree → List PageAnswer
  | .answer a => [a]
  | .merge left right => left.answers ++ right.answers

/-- The page info that the merges end with. -/
def merged (codec : CursorCodec) : MergeTree → Option (Option PageInfo)
  | .answer a => preparePageInfo codec a.pageInfo a.server a.backwardOffset a.forwardOffset
  | .merge left right => do return mergePageInfo codec (← left.merged codec) (← right.merged codec)

end MergeTree

/-- The cursors of one server, in order. -/
def cursorsOf (server : String) (cursors : List (String × CursorInfo)) : List CursorInfo :=
  (copies (fun cursor => some cursor.1) server cursors).map Prod.snd

/-- A fake cursor with its flag holds the farthest cursor of every server, the first one on
ties, and says whether one of these has more data. -/
def HoldsFarthest (codec : CursorCodec) (cursors : List (String × CursorInfo)) (token : String)
    (moreData : Bool) : Prop :=
  ∃ map : CursorMap, Sorted compare map ∧ codec.encode map = some token ∧
    codec.decode token = some map ∧
    (∀ server info, map.lookup server = some info ↔
      IsFirstGreatest (fun cursor => cursor.offset.toInt.natAbs) (cursorsOf server cursors) info) ∧
    (moreData = true ↔ ∃ server info, map.lookup server = some info ∧ info.moreData = true)

/-- The least offset does not occur beside others of the same server. -/
def LeastApart (cursors : List (String × CursorInfo)) : Prop :=
  ∀ a ∈ cursors, ∀ b ∈ cursors, a.1 = b.1 → a.2.offset = Int32.minValue →
    b.2.offset = Int32.minValue

/-- The codec is lossless for maps of these cursors. -/
def CursorCodec.Lossless (codec : CursorCodec) (cursors : List (String × CursorInfo)) : Prop :=
  ∀ map : CursorMap, Sorted compare map → (∀ entry ∈ map, entry ∈ cursors) →
    ∃ token, codec.encode map = some token ∧ codec.decode token = some map

/-! ### Maps -/

theorem CursorMap.insert_eq (server : String) (info : CursorInfo) (map : CursorMap) :
    CursorMap.insert server info map = insertEntry compare server info map := by
  induction map with
  | nil => rfl
  | cons entry rest ih =>
      cases hOrder : compare server entry.1 <;>
        simp only [CursorMap.insert, insertEntry, hOrder, ih]

theorem foldl_insert_eq (list map : CursorMap) :
    list.foldl (fun map (server, info) => CursorMap.insert server info map) map =
      insertAll compare list map := by
  simp only [CursorMap.insert_eq]
  rfl

theorem mergeCursorMaps_eq (c₁ c₂ : CursorMap) : mergeCursorMaps c₁ c₂ =
    insertAll compare (c₂.filter fun entry => (c₁.lookup entry.1).isNone)
      (insertAll compare (c₁.map fun entry =>
        (entry.1, (c₂.lookup entry.1).elim entry.2 (fartherCursor entry.2))) []) := by
  rw [mergeCursorMaps, foldl_insert_eq]
  congr 1
  rw [← foldl_insert_eq, List.foldl_map]

theorem lookup_filter_isNone {c₁ c₂ : CursorMap} (h₂ : Sorted compare c₂) (server : String) :
    (c₂.filter fun entry => (c₁.lookup entry.1).isNone).lookup server =
      if (c₁.lookup server).isNone then c₂.lookup server else none := by
  have hFiltered : Sorted compare (c₂.filter fun entry => (c₁.lookup entry.1).isNone) :=
    h₂.sublist List.filter_sublist
  refine Option.ext fun info => ?_
  rw [lookup_eq_some_iff hFiltered, List.mem_filter, ← lookup_eq_some_iff h₂]
  split
  · next hNone => simp [hNone]
  · next hSome => simp [hSome]

/-- The merged map has for each server the farther of its two cursors. -/
theorem lookup_mergeCursorMaps {c₁ c₂ : CursorMap} (h₁ : Sorted compare c₁)
    (h₂ : Sorted compare c₂) (server : String) :
    (mergeCursorMaps c₁ c₂).lookup server =
      Option.merge fartherCursor (c₁.lookup server) (c₂.lookup server) := by
  have hKeys : ((c₁.map fun entry =>
      (entry.1, (c₂.lookup entry.1).elim entry.2 (fartherCursor entry.2))).map Prod.fst).Nodup := by
    rw [List.map_map]
    exact h₁.nodup_keys
  have hLeft : (c₁.map fun entry =>
      (entry.1, (c₂.lookup entry.1).elim entry.2 (fartherCursor entry.2))).lookup server =
      (c₁.lookup server).map fun info => (c₂.lookup server).elim info (fartherCursor info) := by
    refine Option.ext fun info => ?_
    rw [lookup_eq_some_iff_mem hKeys, List.mem_map, Option.map_eq_some_iff]
    constructor
    · rintro ⟨⟨server', info'⟩, hMem, hEq⟩
      obtain ⟨rfl, rfl⟩ := Prod.mk.inj hEq
      exact ⟨info', (lookup_eq_some_iff h₁).mpr hMem, rfl⟩
    · rintro ⟨info', hLookup, rfl⟩
      exact ⟨(server, info'), (lookup_eq_some_iff h₁).mp hLookup, rfl⟩
  have hRightKeys : ((c₂.filter fun entry => (c₁.lookup entry.1).isNone).map Prod.fst).Nodup :=
    h₂.nodup_keys.sublist (List.filter_sublist.map _)
  rw [mergeCursorMaps_eq, lookup_insertAll hRightKeys, lookup_insertAll hKeys,
    lookup_filter_isNone h₂, hLeft]
  cases c₁.lookup server with
  | none => cases c₂.lookup server <;> rfl
  | some info => cases c₂.lookup server <;> rfl

/-- The merged map is sorted by server. -/
theorem sorted_mergeCursorMaps (c₁ c₂ : CursorMap) : Sorted compare (mergeCursorMaps c₁ c₂) := by
  rw [mergeCursorMaps_eq]
  have hNil : Sorted compare ([] : CursorMap) := List.Pairwise.nil
  exact (hNil.insertAll _).insertAll _

/-! ### The absolute value of an offset -/

theorem toInt_abs (offset : Int32) : offset.abs.toInt =
    if offset = Int32.minValue then -2 ^ 31 else (offset.toInt.natAbs : ℤ) := by
  have hBits : offset.abs.toInt = offset.toBitVec.abs.toInt := rfl
  rw [hBits, BitVec.toInt_abs_eq_natAbs]
  have hLeast : offset.toBitVec = BitVec.intMin 32 ↔ offset = Int32.minValue :=
    ⟨fun h => Int32.toBitVec_inj.mp h, fun h => congrArg Int32.toBitVec h⟩
  simp only [hLeast]
  rfl

/-- Only the least offset has no absolute value. -/
theorem eq_minValue_of_le {offset : Int32} (h : 2 ^ 31 ≤ offset.toInt.natAbs) :
    offset = Int32.minValue := by
  have hLow := offset.le_toInt
  have hHigh := offset.toInt_lt
  have hValue : offset.toInt = -2 ^ 31 := by omega
  rw [← Int32.toInt_inj, hValue]
  rfl

theorem fartherCursor_eq : fartherCursor = keepFirst fun cursor => cursor.offset.abs.toInt := by
  funext info other
  simp only [fartherCursor, keepFirst, Int32.le_iff_toInt_le]

/-- Merged one after the other, the first of the farthest cursors is kept. -/
theorem mergeAll_fartherCursor_iff {infos : List CursorInfo} {info : CursorInfo} :
    mergeAll fartherCursor infos = some info ↔
      IsFirstGreatest (fun cursor => cursor.offset.abs.toInt) infos info := by
  cases infos with
  | nil => exact ⟨nofun, fun h => nomatch h.mem⟩
  | cons first rest =>
      have hFold : IsFirstGreatest (fun cursor : CursorInfo => cursor.offset.abs.toInt) (first :: rest)
          (rest.foldl fartherCursor first) := by
        rw [fartherCursor_eq]
        exact isFirstGreatest_foldl first rest
      constructor
      · intro h
        rwa [← Option.some.inj h]
      · intro h
        exact congrArg some (hFold.unique h)

theorem mem_cursorsOf {server : String} {cursors : List (String × CursorInfo)} {info : CursorInfo} :
    info ∈ cursorsOf server cursors ↔ (server, info) ∈ cursors := by
  simp [cursorsOf, copies]

theorem cursorsOf_append (server : String) (cursors others : List (String × CursorInfo)) :
    cursorsOf server (cursors ++ others) = cursorsOf server cursors ++ cursorsOf server others := by
  rw [cursorsOf, copies_append, List.map_append]
  rfl

/-! ### What a merged cursor carries -/

/-- The map of a token has the merged cursors of every server. -/
def Carries (codec : CursorCodec) (cursors : List (String × CursorInfo)) (token : String)
    (moreData : Bool) : Prop :=
  ∃ map : CursorMap, Sorted compare map ∧ codec.encode map = some token ∧
    codec.decode token = some map ∧
    (∀ server, map.lookup server = mergeAll fartherCursor (cursorsOf server cursors)) ∧
    moreData = map.any fun entry => entry.2.moreData

section Carrying

variable {codec : CursorCodec} {cursors others all : List (String × CursorInfo)}
  {token token' : String} {moreData moreData' : Bool}

/-- A merged map has only cursors that were there. -/
theorem mem_of_lookup_eq {map : CursorMap} (hSorted : Sorted compare map)
    (hLookup : ∀ server, map.lookup server = mergeAll fartherCursor (cursorsOf server cursors)) :
    ∀ entry ∈ map, entry ∈ cursors := by
  rintro ⟨server, info⟩ hMem
  have hFound := (lookup_eq_some_iff hSorted).mpr hMem
  rw [hLookup, mergeAll_fartherCursor_iff] at hFound
  exact mem_cursorsOf.mp hFound.mem

/-- Everything about the result follows from the cursors. -/
theorem Carries.unique (h : Carries codec cursors token moreData)
    (h' : Carries codec cursors token' moreData') : token = token' ∧ moreData = moreData' := by
  obtain ⟨map, hSorted, hEncode, -, hLookup, rfl⟩ := h
  obtain ⟨map', hSorted', hEncode', -, hLookup', rfl⟩ := h'
  obtain rfl := eq_of_lookup_eq hSorted hSorted' fun server => by rw [hLookup, hLookup']
  exact ⟨Option.some.inj (hEncode.symm.trans hEncode'), rfl⟩

/-- A token carries what its map says, as long as the codec loses nothing of it. -/
theorem carries_of_map {map : CursorMap} (hLossless : codec.Lossless all)
    (hSubset : ∀ cursor ∈ cursors, cursor ∈ all) (hSorted : Sorted compare map)
    (hLookup : ∀ server, map.lookup server = mergeAll fartherCursor (cursorsOf server cursors)) :
    ∃ token, codec.encode map = some token ∧
      Carries codec cursors token (map.any fun entry => entry.2.moreData) := by
  obtain ⟨token, hEncode, hDecode⟩ := hLossless map hSorted fun entry hEntry =>
    hSubset entry (mem_of_lookup_eq hSorted hLookup entry hEntry)
  exact ⟨token, hEncode, map, hSorted, hEncode, hDecode, hLookup, rfl⟩

/-- The token of one answer carries its cursor. -/
theorem carries_encodeNew (hLossless : codec.Lossless all) {server : String} {info : CursorInfo}
    (hMem : (server, info) ∈ all) :
    ∃ token, encodeNew codec server info.token info.offset info.moreData = some token ∧
      Carries codec [(server, info)] token info.moreData := by
  have hSubset : ∀ cursor ∈ [(server, info)], cursor ∈ all := by
    intro cursor hCursor
    rwa [List.mem_singleton.mp hCursor]
  have hLookup : ∀ server', [(server, info)].lookup server' =
      mergeAll fartherCursor (cursorsOf server' [(server, info)]) := by
    intro server'
    by_cases hServer : server' = server
    · simp [cursorsOf, copies, hServer, mergeAll]
    · simp [cursorsOf, copies, hServer, Ne.symm hServer, mergeAll]
  have hSorted : Sorted compare [(server, info)] := List.pairwise_singleton _ _
  obtain ⟨token, hEncode, hCarries⟩ := carries_of_map hLossless hSubset hSorted hLookup
  refine ⟨token, hEncode, ?_⟩
  simpa using hCarries

/-- Merging two cursors merges what they carry. -/
theorem Carries.merge (hLossless : codec.Lossless all) (h : Carries codec cursors token moreData)
    (h' : Carries codec others token' moreData') (hSubset : ∀ cursor ∈ cursors ++ others, cursor ∈ all) :
    Carries codec (cursors ++ others) (mergeCursors codec token token').1
      (mergeCursors codec token token').2 := by
  obtain ⟨map, hSorted, -, hDecode, hLookup, -⟩ := h
  obtain ⟨map', hSorted', -, hDecode', hLookup', -⟩ := h'
  have hMerged : ∀ server, (mergeCursorMaps map map').lookup server =
      mergeAll fartherCursor (cursorsOf server (cursors ++ others)) := by
    intro server
    have hAssoc : ∀ a b c, fartherCursor (fartherCursor a b) c = fartherCursor a (fartherCursor b c) := by
      rw [fartherCursor_eq]
      exact keepFirst_assoc
    rw [lookup_mergeCursorMaps hSorted hSorted', hLookup, hLookup', cursorsOf_append,
      mergeAll_append hAssoc]
  obtain ⟨merged, hEncode, hCarries⟩ := carries_of_map hLossless hSubset
    (sorted_mergeCursorMaps map map') hMerged
  rw [mergeCursors, hDecode, hDecode']
  dsimp only
  rwa [hEncode]

/-- Apart from each other, cursors are ordered alike by either absolute value. -/
theorem abs_order_iff (hApart : LeastApart cursors) {server : String} {x y : CursorInfo}
    (hx : x ∈ cursorsOf server cursors) (hy : y ∈ cursorsOf server cursors) :
    (x.offset.abs.toInt < y.offset.abs.toInt ↔ x.offset.toInt.natAbs < y.offset.toInt.natAbs) ∧
      (x.offset.abs.toInt = y.offset.abs.toInt ↔ x.offset.toInt.natAbs = y.offset.toInt.natAbs) := by
  rw [mem_cursorsOf] at hx hy
  have hxy := hApart _ hx _ hy rfl
  have hyx := hApart _ hy _ hx rfl
  by_cases hLeast : x.offset = Int32.minValue
  · rw [hLeast, hxy hLeast]
    simp
  · rw [toInt_abs, toInt_abs, if_neg hLeast, if_neg fun h => hLeast (hyx h)]
    omega

/-- A least offset is passed over if another one of its server is not least. -/
theorem Carries.leastApart (h : Carries codec cursors token moreData)
    (hHolds : HoldsFarthest codec cursors token moreData) : LeastApart cursors := by
  obtain ⟨map, -, -, hDecode, hLookup, -⟩ := h
  obtain ⟨map', -, -, hDecode', hFarthest, -⟩ := hHolds
  obtain rfl : map = map' := Option.some.inj (hDecode.symm.trans hDecode')
  rintro ⟨server, a⟩ ha ⟨server', b⟩ hb hSame hLeast
  obtain rfl : server = server' := hSame
  rw [← mem_cursorsOf] at ha hb
  by_contra hOther
  obtain ⟨info, hInfo⟩ : ∃ info, map.lookup server = some info := by
    rw [hLookup]
    cases hCursors : cursorsOf server cursors with
    | nil => simp [hCursors] at ha
    | cons first rest => exact ⟨_, rfl⟩
  have hNatAbs := ((hFarthest server info).mp hInfo).ge a ha
  rw [hLookup, mergeAll_fartherCursor_iff] at hInfo
  have hAbs := hInfo.ge b hb
  have hLimit : info.offset = Int32.minValue := by
    apply eq_minValue_of_le
    dsimp only at hLeast hNatAbs
    rw [hLeast] at hNatAbs
    exact hNatAbs
  dsimp only at hAbs hOther
  rw [toInt_abs, toInt_abs, if_neg hOther, if_pos hLimit] at hAbs
  omega

/-- The merged cursors are the farthest ones exactly if the least offset is apart. -/
theorem Carries.holdsFarthest_iff (h : Carries codec cursors token moreData) :
    HoldsFarthest codec cursors token moreData ↔ LeastApart cursors := by
  refine ⟨h.leastApart, fun hApart => ?_⟩
  obtain ⟨map, hSorted, hEncode, hDecode, hLookup, hMore⟩ := h
  refine ⟨map, hSorted, hEncode, hDecode, fun server info => ?_, ?_⟩
  · rw [hLookup, mergeAll_fartherCursor_iff]
    constructor
    · intro hFirst
      exact hFirst.congr (fun x hx y hy => (abs_order_iff hApart hx hy).1.mp)
        fun x hx y hy => (abs_order_iff hApart hx hy).2.mp
    · intro hFirst
      exact hFirst.congr (fun x hx y hy => (abs_order_iff hApart hx hy).1.mpr)
        fun x hx y hy => (abs_order_iff hApart hx hy).2.mpr
  · rw [hMore, List.any_eq_true]
    constructor
    · rintro ⟨⟨server, info⟩, hMem, hData⟩
      exact ⟨server, info, (lookup_eq_some_iff hSorted).mpr hMem, hData⟩
    · rintro ⟨server, info, hFound, hData⟩
      exact ⟨(server, info), (lookup_eq_some_iff hSorted).mp hFound, hData⟩

end Carrying

/-! ### Any grouping -/

namespace MergeTree

/-- The cursors before the pages, in the order of the answers. -/
def startCursors (tree : MergeTree) : List (String × CursorInfo) :=
  tree.answers.filterMap PageAnswer.startCursor

def endCursors (tree : MergeTree) : List (String × CursorInfo) :=
  tree.answers.filterMap PageAnswer.endCursor

/-- A merged page info carries the cursors of both fields; without any there is none. -/
def Result (codec : CursorCodec) (starts ends : List (String × CursorInfo)) : Option PageInfo → Prop
  | none => starts = [] ∧ ends = []
  | some i => starts ≠ [] ∧ Carries codec starts i.startCursor i.hasPreviousPage ∧
      Carries codec ends i.endCursor i.hasNextPage

variable {codec : CursorCodec} {starts ends : List (String × CursorInfo)}

/-- The page of one answer carries its two cursors. -/
theorem result_prepare (answer : PageAnswer) (hStart : codec.Lossless starts)
    (hEnd : codec.Lossless ends) (hStarts : ∀ cursor ∈ answer.startCursor, cursor ∈ starts)
    (hEnds : ∀ cursor ∈ answer.endCursor, cursor ∈ ends) :
    ∃ result, preparePageInfo codec answer.pageInfo answer.server answer.backwardOffset
        answer.forwardOffset = some result ∧
      Result codec answer.startCursor.toList answer.endCursor.toList result := by
  obtain ⟨server, pageInfo, backwardOffset, forwardOffset⟩ := answer
  cases pageInfo with
  | none => exact ⟨none, rfl, rfl, rfl⟩
  | some i =>
      obtain ⟨start, hEncode, hCarries⟩ := carries_encodeNew hStart (hStarts _ rfl)
      obtain ⟨last, hEncode', hCarries'⟩ := carries_encodeNew hEnd (hEnds _ rfl)
      refine ⟨some { i with startCursor := start, endCursor := last }, ?_, List.cons_ne_nil _ _,
        hCarries, hCarries'⟩
      rw [preparePageInfo, hEncode, hEncode']
      rfl

/-- Merged pages carry the cursors of both. -/
theorem Result.merge {starts' ends' all all' : List (String × CursorInfo)} {i j : Option PageInfo}
    (hStart : codec.Lossless all) (hEnd : codec.Lossless all') (hi : Result codec starts ends i)
    (hj : Result codec starts' ends' j) (hStarts : ∀ cursor ∈ starts ++ starts', cursor ∈ all)
    (hEnds : ∀ cursor ∈ ends ++ ends', cursor ∈ all') :
    Result codec (starts ++ starts') (ends ++ ends') (mergePageInfo codec i j) := by
  cases i with
  | none =>
      obtain ⟨rfl, rfl⟩ := hi
      cases j with
      | none => exact hj
      | some j => exact hj
  | some i =>
      obtain ⟨hSome, hCarries, hCarries'⟩ := hi
      cases j with
      | none =>
          obtain ⟨rfl, rfl⟩ := hj
          rw [List.append_nil, List.append_nil]
          exact ⟨hSome, hCarries, hCarries'⟩
      | some j =>
          exact ⟨List.append_ne_nil_of_left_ne_nil hSome _, hCarries.merge hStart hj.2.1 hStarts,
            hCarries'.merge hEnd hj.2.2 hEnds⟩

/-- The merges end with the cursors of all answers. -/
theorem merged_result (tree : MergeTree) (hStart : codec.Lossless starts)
    (hEnd : codec.Lossless ends) (hStarts : ∀ cursor ∈ tree.startCursors, cursor ∈ starts)
    (hEnds : ∀ cursor ∈ tree.endCursors, cursor ∈ ends) :
    ∃ result, tree.merged codec = some result ∧
      Result codec tree.startCursors tree.endCursors result := by
  induction tree with
  | answer a =>
      have hOne : ∀ f : PageAnswer → Option (String × CursorInfo), [a].filterMap f = (f a).toList := by
        intro f
        cases hf : f a <;> simp [hf]
      rw [startCursors, answers, hOne] at hStarts ⊢
      rw [endCursors, answers, hOne] at hEnds ⊢
      exact result_prepare a hStart hEnd (fun cursor h => hStarts cursor (Option.mem_toList.mpr h))
        fun cursor h => hEnds cursor (Option.mem_toList.mpr h)
  | merge left right ihLeft ihRight =>
      have hStartSplit : (merge left right).startCursors = left.startCursors ++ right.startCursors :=
        List.filterMap_append
      have hEndSplit : (merge left right).endCursors = left.endCursors ++ right.endCursors :=
        List.filterMap_append
      rw [hStartSplit] at hStarts ⊢
      rw [hEndSplit] at hEnds ⊢
      obtain ⟨i, hi, hLeft⟩ := ihLeft (fun cursor h => hStarts cursor (List.mem_append_left _ h))
        fun cursor h => hEnds cursor (List.mem_append_left _ h)
      obtain ⟨j, hj, hRight⟩ := ihRight (fun cursor h => hStarts cursor (List.mem_append_right _ h))
        fun cursor h => hEnds cursor (List.mem_append_right _ h)
      refine ⟨mergePageInfo codec i j, ?_, hLeft.merge hStart hEnd hRight hStarts hEnds⟩
      rw [merged, hi, hj]
      rfl

/-- A page is determined by the cursors it carries. -/
theorem Result.unique {i j : Option PageInfo} (hi : Result codec starts ends i)
    (hj : Result codec starts ends j) : i = j := by
  cases i with
  | none =>
      cases j with
      | none => rfl
      | some j => exact absurd hi.1 hj.1
  | some i =>
      cases j with
      | none => exact absurd hj.1 hi.1
      | some j =>
          obtain ⟨hToken, hMore⟩ := hi.2.1.unique hj.2.1
          obtain ⟨hToken', hMore'⟩ := hi.2.2.unique hj.2.2
          obtain ⟨_, _, _, _⟩ := i
          obtain ⟨_, _, _, _⟩ := j
          simp only at hToken hMore hToken' hMore'
          rw [hToken, hMore, hToken', hMore']

/-- Merging page infos in any grouping ends with the same page info, none if there is none
to merge, and this holds the farthest cursors of all servers exactly if the least offset is
apart in both fields. -/
theorem merged_farthest_iff (codec : CursorCodec) (tree : MergeTree)
    (hStart : codec.Lossless tree.startCursors) (hEnd : codec.Lossless tree.endCursors) :
    ∃ result, tree.merged codec = some result ∧
      (result = none ↔ ∀ answer ∈ tree.answers, answer.pageInfo = none) ∧
      (∀ other : MergeTree, other.answers = tree.answers → other.merged codec = some result) ∧
      ∀ i, result = some i →
        (HoldsFarthest codec tree.startCursors i.startCursor i.hasPreviousPage ∧
            HoldsFarthest codec tree.endCursors i.endCursor i.hasNextPage ↔
          LeastApart tree.startCursors ∧ LeastApart tree.endCursors) := by
  obtain ⟨result, hMerged, hResult⟩ := tree.merged_result hStart hEnd (fun _ h => h) fun _ h => h
  have hNone : tree.startCursors = [] ↔ ∀ answer ∈ tree.answers, answer.pageInfo = none := by
    simp [startCursors, PageAnswer.startCursor]
  refine ⟨result, hMerged, ?_, ?_, ?_⟩
  · rw [← hNone]
    cases result with
    | none => exact iff_of_true rfl hResult.1
    | some i => exact iff_of_false (Option.some_ne_none i) hResult.1
  · intro other hAnswers
    have hStarts : other.startCursors = tree.startCursors := congrArg (List.filterMap _) hAnswers
    have hEnds : other.endCursors = tree.endCursors := congrArg (List.filterMap _) hAnswers
    obtain ⟨result', hMerged', hResult'⟩ := other.merged_result hStart hEnd
      (fun _ h => hStarts ▸ h) fun _ h => hEnds ▸ h
    rw [hStarts, hEnds] at hResult'
    rw [hMerged', hResult'.unique hResult]
  · rintro i rfl
    exact and_congr hResult.2.1.holdsFarthest_iff hResult.2.2.holdsFarthest_iff

end MergeTree

end Polycentric.Client

namespace Polycentric.TableInstance

open Client SortedEntries

/-! Three pages of one server. The last one is as far back as an offset reaches. -/

def fakeCursors : List (CursorMap × String) :=
  [([], "eyJtYXAiOnt9fQ=="),
    ([("s", ⟨"start-1", -1, false⟩)],
      "eyJtYXAiOnsicyI6eyJ0b2tlbiI6InN0YXJ0LTEiLCJvZmZzZXQiOi0xLCJtb3JlX2RhdGEiOmZhbHNlfX19"),
    ([("s", ⟨"start-2", -2, false⟩)],
      "eyJtYXAiOnsicyI6eyJ0b2tlbiI6InN0YXJ0LTIiLCJvZmZzZXQiOi0yLCJtb3JlX2RhdGEiOmZhbHNlfX19"),
    ([("s", ⟨"start-3", Int32.minValue, false⟩)],
      "eyJtYXAiOnsicyI6eyJ0b2tlbiI6InN0YXJ0LTMiLCJvZmZzZXQiOi0yMTQ3NDgzNjQ4LCJtb3JlX2RhdGEiOmZhbHNlfX19"),
    ([("s", ⟨"end-1", 1, true⟩)],
      "eyJtYXAiOnsicyI6eyJ0b2tlbiI6ImVuZC0xIiwib2Zmc2V0IjoxLCJtb3JlX2RhdGEiOnRydWV9fX0="),
    ([("s", ⟨"end-2", 2, false⟩)],
      "eyJtYXAiOnsicyI6eyJ0b2tlbiI6ImVuZC0yIiwib2Zmc2V0IjoyLCJtb3JlX2RhdGEiOmZhbHNlfX19")]

def fakeCodec : CursorCodec where
  encode map := fakeCursors.lookup map
  decode token := (fakeCursors.find? fun entry => entry.2 = token).map Prod.fst

def nearPage : PageAnswer := ⟨"s", some ⟨"start-1", "end-1", false, true⟩, 0, 0⟩

def farPage : PageAnswer := ⟨"s", some ⟨"start-2", "end-2", false, false⟩, -1, 1⟩

def farthestPage : PageAnswer := ⟨"s", some ⟨"start-3", "end-2", false, false⟩, -2147483647, 1⟩

/-- Cursors of one server are in maps of one entry. -/
theorem lossless_of_one {codec : CursorCodec} {server : String} {cursors : List (String × CursorInfo)}
    (hServer : ∀ cursor ∈ cursors, cursor.1 = server)
    (hNil : ∃ token, codec.encode [] = some token ∧ codec.decode token = some [])
    (hOne : ∀ cursor ∈ cursors, ∃ token, codec.encode [cursor] = some token ∧
      codec.decode token = some [cursor]) : codec.Lossless cursors := by
  intro map hSorted hEntries
  cases map with
  | nil => exact hNil
  | cons first rest =>
      cases rest with
      | nil => exact hOne first (hEntries first List.mem_cons_self)
      | cons second rest =>
          have hLt := (List.pairwise_cons.mp hSorted).1 second List.mem_cons_self
          rw [hServer first (hEntries first (by simp)), hServer second (hEntries second (by simp))] at hLt
          exact absurd rfl (ne_of_cmp_lt hLt)

end Polycentric.TableInstance

namespace Polycentric.Client.MergeTree

open TableInstance

/-- The second page is the farthest one both ways. -/
theorem merged_farthest_two : ∃ i,
    (merge (.answer nearPage) (.answer farPage)).merged fakeCodec = some (some i) ∧
      HoldsFarthest fakeCodec (merge (.answer nearPage) (.answer farPage)).startCursors i.startCursor
        i.hasPreviousPage ∧
      HoldsFarthest fakeCodec (merge (.answer nearPage) (.answer farPage)).endCursors i.endCursor
        i.hasNextPage := by
  have hStart : fakeCodec.Lossless (merge (.answer nearPage) (.answer farPage)).startCursors :=
    @lossless_of_one fakeCodec "s" _ (by decide) ⟨_, rfl, by decide +kernel⟩ (by decide +kernel)
  have hEnd : fakeCodec.Lossless (merge (.answer nearPage) (.answer farPage)).endCursors :=
    @lossless_of_one fakeCodec "s" _ (by decide) ⟨_, rfl, by decide +kernel⟩ (by decide +kernel)
  obtain ⟨result, hMerged, hNone, -, hIff⟩ := merged_farthest_iff fakeCodec _ hStart hEnd
  cases result with
  | none => exact absurd (hNone.mp rfl) (by decide)
  | some i => exact ⟨i, hMerged, (hIff i rfl).mpr ⟨by unfold LeastApart; decide, by unfold LeastApart; decide⟩⟩

/-- Beside the least offset the nearer cursor is taken for the farthest one. -/
theorem merged_nearer_kept :
    fakeCodec.Lossless (merge (.answer farthestPage) (.answer nearPage)).startCursors ∧
      fakeCodec.Lossless (merge (.answer farthestPage) (.answer nearPage)).endCursors ∧
      ∃ i, (merge (.answer farthestPage) (.answer nearPage)).merged fakeCodec = some (some i) ∧
        fakeCodec.decode i.startCursor = some [("s", ⟨"start-1", -1, false⟩)] ∧
        ¬HoldsFarthest fakeCodec (merge (.answer farthestPage) (.answer nearPage)).startCursors
          i.startCursor i.hasPreviousPage := by
  refine ⟨@lossless_of_one fakeCodec "s" _ (by decide) ⟨_, rfl, by decide +kernel⟩ (by decide +kernel),
    @lossless_of_one fakeCodec "s" _ (by decide) ⟨_, rfl, by decide +kernel⟩ (by decide +kernel),
    ⟨"eyJtYXAiOnsicyI6eyJ0b2tlbiI6InN0YXJ0LTEiLCJvZmZzZXQiOi0xLCJtb3JlX2RhdGEiOmZhbHNlfX19",
      "eyJtYXAiOnsicyI6eyJ0b2tlbiI6ImVuZC0yIiwib2Zmc2V0IjoyLCJtb3JlX2RhdGEiOmZhbHNlfX19", false, false⟩,
    by decide +kernel, by decide +kernel, ?_⟩
  rintro ⟨map, -, -, hDecode, hFarthest, -⟩
  obtain rfl : [("s", ⟨"start-1", -1, false⟩)] = map := by
    refine Option.some.inj (Eq.trans ?_ hDecode)
    decide +kernel
  have hNear := (hFarthest "s" ⟨"start-1", -1, false⟩).mp rfl
  have hLess := hNear.ge ⟨"start-3", Int32.minValue, false⟩ (by decide)
  exact absurd hLess (by decide)

end Polycentric.Client.MergeTree

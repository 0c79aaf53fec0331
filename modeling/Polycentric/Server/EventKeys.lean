import Polycentric.Common.ChainRecovery
import Polycentric.Server.Acknowledgement
import Polycentric.Server.FeedFilter
import Polycentric.Server.Threads

/-! The ways of an event key into the columns of the tables and back. A collection has
32 bits in a key and 16 in its column. -/
namespace Polycentric.Server

open Proto Result

/-- `to_proto_key`: the key that columns stand for. -/
def EventKeyParts.toProtoKey (parts : EventKeyParts) : EventKey where
  collection := parts.collection.toInt32
  identity := parts.identity
  signedBy := some ⟨parts.publicKeyType.toInt32, parts.publicKey⟩
  sequence := parts.sequence.toUInt64

/-- The key columns that the event is stored with. -/
def IncomingEvent.rowKey (incoming : IncomingEvent) : EventKeyParts :=
  .of incoming.key incoming.signedBy

/-- An event that `process_event` accepts, on some server. -/
def Accepted (P : Primitives) (incoming : IncomingEvent) : Prop :=
  ∃ runtime now id server bundle blobs, incomingEvent P bundle = some incoming ∧
    (processEvent P runtime now id server bundle).1 = .ok blobs

/-- A conversion of the server takes the key to these columns. -/
inductive Converts (key : EventKey) : EventKeyParts → Prop where
  | reference {subject : String} {parts : EventKeyParts}
      (hSplit : splitEventKey (some key) subject = .ok parts) : Converts key parts
  | lookup {field : String} {parts : EventKeyParts}
      (hLookup : GetPostThread.targetEventKey (some key) field = .ok parts) : Converts key parts
  | hydrated {parts : EventKeyParts} (hTarget : toTargetEventKey key = some parts) :
      Converts key parts

/-- The keys of two events survive storage. -/
structure KeysSurvive (a b : IncomingEvent) : Prop where
  apart : a.rowKey ≠ b.rowKey
  decodes : a.rowKey.toProtoKey = a.key ∧ b.rowKey.toProtoKey = b.key
  converts : ∀ parts, (Converts a.key parts → parts = a.rowKey) ∧ (Converts b.key parts → parts = b.rowKey)

/-! ### Conversions -/

section Conversions

variable {P : Primitives} {incoming : IncomingEvent}

/-- Whatever conversion does not reject a key gives its columns. -/
theorem Converts.partsOf_eq {key : EventKey} {parts : EventKeyParts} (h : Converts key parts) :
    partsOf (some key) = some parts := by
  cases h with
  | reference hSplit => exact splitEventKey_eq_ok_iff.mp hSplit
  | lookup hLookup =>
      simp only [GetPostThread.targetEventKey, bind_eq_ok_iff, okOr_eq_ok_iff, ensure_eq_ok_iff, pure,
        Except.pure, Except.ok.injEq, Option.some.injEq] at hLookup
      obtain ⟨_, rfl, _, -, signedBy, hSigner, _, -, _, -, _, -, rfl⟩ := hLookup
      simp [partsOf, hSigner]
  | hydrated hTarget =>
      rw [toTargetEventKey, Option.map_eq_some_iff] at hTarget
      obtain ⟨signedBy, hSigner, rfl⟩ := hTarget
      simp [partsOf, hSigner]

/-- The row of an event is filed under the columns that its key converts to. -/
theorem Converts.eq_rowKey {parts : EventKeyParts} (hSigner : incoming.key.signedBy = some incoming.signedBy)
    (h : Converts incoming.key parts) : parts = incoming.rowKey := by
  have hParts : partsOf (some incoming.key) = some incoming.rowKey := by
    simp [partsOf, hSigner, IncomingEvent.rowKey]
  exact Option.some.inj (h.partsOf_eq.symm.trans hParts)

theorem Accepted.signer (h : Accepted P incoming) :
    incoming.key.signedBy = some incoming.signedBy ∧ incoming.signedBy.keyType = keyTypeEd25519 := by
  obtain ⟨_, _, _, _, bundle, _, hIncoming, -⟩ := h
  exact ⟨(incomingEvent_opened hIncoming).2.2.1,
    (PublicKey.sigMatches_spec (incomingEvent_signature hIncoming)).1⟩

/-- Of an accepted key, only the collection may lose bits. -/
theorem Accepted.decodes_iff (h : Accepted P incoming) :
    incoming.rowKey.toProtoKey = incoming.key ↔ Narrow incoming.key.collection := by
  obtain ⟨hSigner, hType⟩ := h.signer
  unfold EventKeyParts.toProtoKey IncomingEvent.rowKey EventKeyParts.of Narrow
  constructor
  · intro hEq
    exact congrArg EventKey.collection hEq
  · intro hNarrow
    have hKeyType : incoming.signedBy.keyType.toInt16.toInt32 = incoming.signedBy.keyType := by
      rw [hType]
      decide
    dsimp only
    rw [hNarrow, hKeyType, UInt64.toUInt64_toInt64, ← hSigner]

end Conversions

/-- The keys of two accepted events survive storage exactly if their collections fit
their columns. -/
theorem keys_survive_iff {P : Primitives} {a b : IncomingEvent} (ha : Accepted P a)
    (hb : Accepted P b) (hKeys : a.key ≠ b.key) :
    KeysSurvive a b ↔ Narrow a.key.collection ∧ Narrow b.key.collection := by
  constructor
  · intro h
    exact ⟨ha.decodes_iff.mp h.decodes.1, hb.decodes_iff.mp h.decodes.2⟩
  · rintro ⟨hNarrow, hNarrow'⟩
    have hDecodes := ha.decodes_iff.mpr hNarrow
    have hDecodes' := hb.decodes_iff.mpr hNarrow'
    refine ⟨fun hSame => hKeys ?_, ⟨hDecodes, hDecodes'⟩,
      fun parts => ⟨Converts.eq_rowKey ha.signer.1, Converts.eq_rowKey hb.signer.1⟩⟩
    rw [← hDecodes, ← hDecodes', hSame]

end Polycentric.Server

namespace Polycentric.TableInstance

open Proto Server Runs

/-- A collection whose lower 16 bits are those of the feed. -/
def wideCollection : Int32 := 65538

/-- Alice posts in her feed, in her profile, and in the wide collection, always with
her first sequence. -/
def widePrimitives : Primitives := primitives
  [([1], event Collections.identity aliceIdentity (key 1) 1 [] [11]),
    ([3], event Collections.feed aliceIdentity (key 2) 1 [0, 1] [13]),
    ([7], event Collections.profile aliceIdentity (key 2) 1 [0, 1] [17]),
    ([8], event wideCollection aliceIdentity (key 2) 1 [0, 1] [18])]
  [([11], ⟨some (.identity genesis)⟩), ([13], ⟨some (.post ⟨"hello", none, [], none, []⟩)⟩),
    ([17], ⟨some (.post ⟨"profile", none, [], none, []⟩)⟩),
    ([18], ⟨some (.post ⟨"wide", none, [], none, []⟩)⟩)]

def wideServer : ServiceContext :=
  run (step widePrimitives runtime) (start []) [.request, .bundle (arrival 1 (key 1))]

def profileIncoming : IncomingEvent :=
  incomingOf Collections.profile 7 ⟨some (.post ⟨"profile", none, [], none, []⟩)⟩

def wideIncoming : IncomingEvent :=
  incomingOf wideCollection 8 ⟨some (.post ⟨"wide", none, [], none, []⟩)⟩

theorem accepted_post : Accepted widePrimitives postIncoming :=
  ⟨runtime, 0, 3, wideServer, (arrival 3 (key 2)).bundle, [], by decide +kernel, by decide +kernel⟩

theorem accepted_profile : Accepted widePrimitives profileIncoming :=
  ⟨runtime, 0, 7, wideServer, (arrival 7 (key 2)).bundle, [], by decide +kernel, by decide +kernel⟩

theorem accepted_wide : Accepted widePrimitives wideIncoming :=
  ⟨runtime, 0, 8, wideServer, (arrival 8 (key 2)).bundle, [], by decide +kernel, by decide +kernel⟩

end Polycentric.TableInstance

namespace Polycentric.Server

open TableInstance

theorem keys_survive_narrow : KeysSurvive postIncoming profileIncoming :=
  (keys_survive_iff accepted_post accepted_profile (by decide)).mpr ⟨by decide, by decide⟩

/-- Events of the feed and of the wide collection share one row key. -/
theorem keys_collide_wide :
    Accepted widePrimitives postIncoming ∧ Accepted widePrimitives wideIncoming ∧
      postIncoming.key ≠ wideIncoming.key ∧ ¬KeysSurvive postIncoming wideIncoming :=
  ⟨accepted_post, accepted_wide, by decide, fun h => h.apart (by decide)⟩

end Polycentric.Server

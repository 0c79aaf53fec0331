import Polycentric.Common.Protos

/-! Code the protocol calls but this development does not contain: SHA-256,
Ed25519 and the generated protobuf codecs. They are parameters. Nothing is
assumed about them here; a theorem that needs collision freedom or an injective
encoding states it, and only for the values it hashes or encodes. -/
namespace Polycentric

/-- `[u8; 32]`, the type of a SHA-256 digest. -/
abbrev Hash := { bytes : Bytes // bytes.length = 32 }

/-- Errors shared by the client and the common crate, `CoreError`. -/
inductive CoreError where
  | invalidEvent (message : String)
  | serializationError (message : String)
  | deserializationError (message : String)
  | signatureError (message : String)
  | storageError (message : String)
  | queryError (message : String)
  | unknown (message : String)
  deriving DecidableEq, Repr

/-- The text of a core error. -/
def coreErrorText : CoreError → String
  | .invalidEvent message => s!"Invalid event: {message}"
  | .serializationError message => s!"Serialization error: {message}"
  | .deserializationError message => s!"Deserialization error: {message}"
  | .signatureError message => s!"Signature error: {message}"
  | .storageError message => s!"Storage error: {message}"
  | .queryError message => s!"Query error: {message}"
  | .unknown message => s!"Unknown error: {message}"

structure Primitives where
  sha256 : Bytes → Hash
  /-- Whether `ed25519_dalek::VerifyingKey::from_bytes` accepts the bytes. -/
  validVerifyingKey : Bytes → Bool
  /-- `verify_strict` for a key, a message and a signature. -/
  verifyStrict : Bytes → Bytes → Bytes → Bool
  decodeEvent : Bytes → Except String Proto.Event
  decodeContent : Bytes → Except String Proto.Content
  encodeIdentity : Proto.Identity → Bytes

/-- `hex::encode`: two lower-case digits for each byte. -/
def hexEncode (bytes : Bytes) : String :=
  String.ofList (bytes.flatMap fun b =>
    [Nat.digitChar (b.toNat / 16), Nat.digitChar (b.toNat % 16)])

inductive SignatureError where
  | publicKeyLength
  | publicKey
  | signatureLength
  | signature
  deriving DecidableEq, Repr

inductive DigestError where
  | unsupportedDigestType (type : Int32)
  | mismatch
  deriving DecidableEq, Repr

/-- The `Display` text of a digest error, which `put_events` reports. -/
def DigestError.toText : DigestError → String
  | .unsupportedDigestType t => s!"unsupported content digest type: {t}"
  | .mismatch => "content digest does not match"

variable (P : Primitives)

/-- Verify an ed25519 signature over the given message bytes. -/
def verifyEd25519Signature (publicKeyBytes signatureBytes message : Bytes) :
    Except SignatureError Unit :=
  if publicKeyBytes.length ≠ 32 then .error .publicKeyLength
  else if ¬P.validVerifyingKey publicKeyBytes then .error .publicKey
  else if signatureBytes.length ≠ 64 then .error .signatureLength
  else if ¬P.verifyStrict publicKeyBytes message signatureBytes then .error .signature
  else .ok ()

/-- Whether `sig` is a valid signature by this key over `msg`. -/
def Proto.PublicKey.sigMatches (publicKey : Proto.PublicKey) (sig msg : Bytes) : Bool :=
  if publicKey.keyType = Proto.keyTypeEd25519 then
    (verifyEd25519Signature P publicKey.key sig msg).isOk
  else false

/-- Verify content bytes against the provided digest bytes. -/
def verifyDigest (digestType : Int32) (digest bytes : Bytes) : Except DigestError Unit :=
  if digestType = Proto.contentDigestTypeSha256 then
    if (P.sha256 bytes).val = digest then .ok () else .error .mismatch
  else .error (.unsupportedDigestType digestType)

def Proto.ContentDigest.verifyAgainst (digest : Proto.ContentDigest) (contentBytes : Bytes) :
    Except DigestError Unit :=
  verifyDigest P digest.type digest.value contentBytes

/-- `SignedEvent::open`: verify the signature, then return the decoded event. -/
def Proto.SignedEvent.open (signed : Proto.SignedEvent) : Except CoreError Proto.Event :=
  match P.decodeEvent signed.eventBytes with
  | .error e => .error (.deserializationError s!"Unable to deserialize event: {e}")
  | .ok event =>
      match event.key with
      | none => .error (.deserializationError "Deserialized event has no key")
      | some key =>
          match key.signedBy with
          | none => .error (.deserializationError "Event key has no signed_by")
          | some signedBy =>
              if signedBy.sigMatches P signed.signature signed.eventBytes then .ok event
              else .error (.signatureError "event signature is invalid")

private theorem digitChar_inj {a b : Nat} (ha : a < 16) (hb : b < 16)
    (h : Nat.digitChar a = Nat.digitChar b) : a = b := by
  interval_cases a <;> interval_cases b <;> first | rfl | exact absurd h (by decide)

/-- Distinct byte strings have distinct hexadecimal texts. -/
theorem hexEncode_injective : Function.Injective hexEncode := by
  intro a b h
  simp only [hexEncode, String.ofList_inj] at h
  induction a generalizing b with
  | nil =>
      cases b with
      | nil => rfl
      | cons y b => simp at h
  | cons x a ih =>
      cases b with
      | nil => simp at h
      | cons y b =>
          simp only [List.flatMap_cons, List.cons_append, List.nil_append, List.cons.injEq] at h
          obtain ⟨hHigh, hLow, hRest⟩ := h
          have hx := x.toNat_lt
          have hy := y.toNat_lt
          have h₁ := digitChar_inj (by omega) (by omega) hHigh
          have h₂ := digitChar_inj (by omega) (by omega) hLow
          have hxy : x = y := UInt8.toNat_inj.mp (by omega)
          rw [hxy, ih hRest]

/-! ### An executable instance

Decoding looks the bytes up in tables, the digest is a polynomial fold, and a
signature is the key followed by the digest of the message. The encoding of a
document keeps the first byte of each key and signature. Concrete runs of the
model use it. -/

namespace TableInstance

def digest (bytes : Bytes) : Hash :=
  let value := bytes.foldl (fun acc b => (acc * 257 + b.toNat + 1) % 2 ^ 256) 0
  ⟨(List.range 32).map fun i => UInt8.ofNat (value / 256 ^ i), by simp⟩

def sign (key message : Bytes) : Bytes := key ++ (digest message).val

def encodeKey (publicKey : Proto.PublicKey) : Bytes := publicKey.key.take 1

def encodeIdentity (document : Proto.Identity) : Bytes :=
  [UInt8.ofNat document.rotationKeys.length] ++ document.rotationKeys.flatMap encodeKey ++
  [UInt8.ofNat document.signingKeys.length] ++ document.signingKeys.flatMap encodeKey ++
  [UInt8.ofNat document.revocationBounds.length] ++
  document.recoveryKey.toList.flatMap encodeKey ++
  document.recoverySignature.toList.flatMap (List.take 1)

def primitives (events : List (Bytes × Proto.Event)) (contents : List (Bytes × Proto.Content)) :
    Primitives where
  sha256 := digest
  validVerifyingKey _ := true
  verifyStrict key message signature := signature == sign key message
  decodeEvent bytes := match events.lookup bytes with
    | some event => .ok event
    | none => .error "invalid event"
  decodeContent bytes := match contents.lookup bytes with
    | some content => .ok content
    | none => .error "invalid content"
  encodeIdentity := encodeIdentity

/-- A key of 32 equal bytes. -/
def key (b : UInt8) : Proto.PublicKey := ⟨Proto.keyTypeEd25519, List.replicate 32 b⟩

end TableInstance

end Polycentric

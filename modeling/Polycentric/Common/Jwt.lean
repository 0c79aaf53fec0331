import Polycentric.Common.ContentId
import Polycentric.Library.Base64Url
import Polycentric.Library.JsonString
import Polycentric.Library.Result

/-! The tokens by which clients authenticate against servers: `createServerJwt` of
`server-jwt.ts`, which mints them, and `jwt.rs`, which verifies them. Both sides know the
format only from its description, JSON in base64url with a signature by the key that the
header names. -/
namespace Polycentric

open Proto

structure JwtHeader where
  alg : String
  /-- Hex-encoded ed25519 public key that signed the token. -/
  kid : String
  deriving DecidableEq, Repr

structure ServerJwtClaims where
  /-- The identity authenticating. -/
  iss : String
  /-- The server the token authenticates against. -/
  aud : String
  iat : Nat
  exp : Nat
  deriving DecidableEq, Repr

/-- The bytes of a text in UTF-8. -/
def utf8 (text : List Char) : Bytes := (String.ofList text).toUTF8.data.toList

/-! ### Minting -/

def base64UrlAlphabet : List Char :=
  "ABCDEFGHIJKLMNOPQRSTUVWXYZabcdefghijklmnopqrstuvwxyz0123456789-_".toList

def alphabetChar (index : Nat) : Char := base64UrlAlphabet.getD index 'A'

/-- Unpadded base64url encoding of `bytes`. The second and the third byte of a round may be
undefined. -/
def base64UrlEncode : Bytes → List Char
  | [] => []
  | a :: rest =>
      let b := rest[0]?
      let c := rest[1]?
      [alphabetChar (a.toNat >>> 2),
        alphabetChar (((a.toNat &&& 0x03) <<< 4) ||| ((b.map UInt8.toNat).getD 0 >>> 4))] ++
      (match b with
        | some b => [alphabetChar (((b.toNat &&& 0x0f) <<< 2) ||| ((c.map UInt8.toNat).getD 0 >>> 6))]
        | none => []) ++
      (match c with
        | some c => [alphabetChar (c.toNat &&& 0x3f)]
        | none => []) ++
      base64UrlEncode (rest.drop 2)
termination_by bytes => bytes.length
decreasing_by
  simp only [List.length_drop, List.length_cons]
  omega

/-- An object, its members given as texts. -/
def jsonObject (members : List (String × List Char)) : List Char :=
  "\x7b".toList ++
    [','].intercalate (members.map fun member => JsonString.quoted member.1.toList ++ ':' :: member.2) ++
    "\x7d".toList

def stringifyHeader (header : JwtHeader) : List Char :=
  jsonObject [("alg", JsonString.quoted header.alg.toList), ("typ", JsonString.quoted "JWT".toList),
    ("kid", JsonString.quoted header.kid.toList)]

def stringifyClaims (claims : ServerJwtClaims) : List Char :=
  jsonObject [("iss", JsonString.quoted claims.iss.toList), ("aud", JsonString.quoted claims.aud.toList),
    ("iat", (toString claims.iat).toList), ("exp", (toString claims.exp).toList)]

/-- A JSON value as a base64url JWT segment. -/
def encodeSegment (text : List Char) : List Char := base64UrlEncode (utf8 text)

/-- The keys of a client. The private key is what it signs with. -/
structure KeyPair where
  keyType : Int32
  publicKey : PublicKey
  sign : Bytes → Bytes

def defaultExpirySeconds : Nat := 60 * 60

/-- The text that is signed. -/
def signingInput (header : JwtHeader) (claims : ServerJwtClaims) : List Char :=
  encodeSegment (stringifyHeader header) ++ '.' :: encodeSegment (stringifyClaims claims)

/-- Create a JWT authenticating `iss` against `aud`. It fails for a key of another type. -/
def createServerJwt (keyPair : KeyPair) (iss aud : String) (now expirySeconds : Nat) : Option (List Char) :=
  if keyPair.keyType ≠ keyTypeEd25519 then none
  else
    let header : JwtHeader := ⟨"EdDSA", hexEncode keyPair.publicKey.key⟩
    let input := signingInput header ⟨iss, aud, now, now + expirySeconds⟩
    some (input ++ '.' :: base64UrlEncode (keyPair.sign (utf8 input)))

/-! ### Verifying -/

/-- Integers below this are exact in JavaScript, and written in digits. -/
def safeIntegers : Nat := 2 ^ 53

inductive JwtError where
  | malformed
  | unsupportedAlgorithm
  | signature
  | expired
  | audience
  deriving DecidableEq, Repr

def JwtError.toText : JwtError → String
  | .malformed => "malformed token"
  | .unsupportedAlgorithm => "unsupported algorithm"
  | .signature => "signature verification failed"
  | .expired => "token has expired"
  | .audience => "token is for a different audience"

/-- A token with a valid signature, its claims not yet validated. -/
structure VerifiedJwt where
  claims : ServerJwtClaims
  signedBy : Bytes
  deriving DecidableEq, Repr

/-- Check the token is for one of `allowedAudiences` and not expired at `now`. -/
def VerifiedJwt.validate (verified : VerifiedJwt) (allowedAudiences : List String) (now : Nat) :
    Except JwtError Unit :=
  if verified.claims.aud ∉ allowedAudiences then .error .audience
  else if now ≥ verified.claims.exp then .error .expired
  else .ok ()

variable (P : Primitives) (codecs : JwtCodecs)

section Format

variable {P codecs}

/-- A signature is accepted if key and signature have their lengths, the key is a point, and the
strict check agrees. -/
theorem verifyEd25519Signature_eq_ok_iff {key signature message : Bytes} :
    verifyEd25519Signature P key signature message = .ok () ↔
      key.length = 32 ∧ P.validVerifyingKey key = true ∧ signature.length = 64 ∧
        P.verifyStrict key message signature = true := by
  unfold verifyEd25519Signature
  split_ifs <;> simp_all

/-- Keys as they are generated: what the private key signs, the public key verifies. -/
structure KeyPair.Genuine (P : Primitives) (keyPair : KeyPair) : Prop where
  keyType : keyPair.keyType = keyTypeEd25519
  publicKeyType : keyPair.publicKey.keyType = keyTypeEd25519
  keyLength : keyPair.publicKey.key.length = 32
  valid : P.validVerifyingKey keyPair.publicKey.key = true
  signatureLength : ∀ message, (keyPair.sign message).length = 64
  verifies : ∀ message, P.verifyStrict keyPair.publicKey.key message (keyPair.sign message) = true

/-- What a genuine pair signs is accepted. -/
theorem KeyPair.Genuine.verify {keyPair : KeyPair} (h : keyPair.Genuine P) (message : Bytes) :
    verifyEd25519Signature P keyPair.publicKey.key (keyPair.sign message) message = .ok () :=
  verifyEd25519Signature_eq_ok_iff.mpr ⟨h.keyLength, h.valid, h.signatureLength _, h.verifies _⟩

end Format

end Polycentric

namespace Polycentric.TableInstance

open Proto

/-! A parser of JSON that reads the members in the order in which the client writes them. -/

end Polycentric.TableInstance

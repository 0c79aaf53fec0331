import Polycentric.Common.Jwt
import Polycentric.Server.RevokedSigners

/-! Bearer JWT verification for incoming requests, `auth.rs` of the server. A request
without a token is anonymous, as is one whose token cannot be matched against an identity
document yet. A bad token is rejected. -/
namespace Polycentric.Server

open Proto

variable (P : Primitives) (codecs : JwtCodecs)

def bearerPrefix : List Char := "Bearer ".toList

section Requests

variable {P codecs} {db : Database} {cache : ProofCache} {identity : String} {allowHosts : List String}
  {now : Nat} {token : List Char}

/-- A token that the holder of a key has minted. -/
structure Mint where
  publicKey : PublicKey
  iss : String
  aud : String
  now : Nat
  expirySeconds : Nat
  safe : now + expirySeconds < safeIntegers

def Mint.claims (mint : Mint) : ServerJwtClaims := ⟨mint.iss, mint.aud, mint.now, mint.now + mint.expirySeconds⟩

/-- What the holder has signed. -/
def Mint.message (mint : Mint) : Bytes :=
  utf8 (signingInput ⟨"EdDSA", hexEncode mint.publicKey.key⟩ mint.claims)

end Requests

end Polycentric.Server

namespace Polycentric.TableInstance

open Proto Server

/-! The holders of keys sign the first event of alice and one token. -/

end Polycentric.TableInstance

namespace Polycentric.Server

open Proto TableInstance

end Polycentric.Server

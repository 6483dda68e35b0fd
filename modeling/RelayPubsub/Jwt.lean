import RelayPubsub.Auth
import RelayPubsub.JsonText
import RelayPubsub.Lib.Base64
import RelayPubsub.Lib.Sha256
import RelayPubsub.Lib.Utf8

/-!
# JSON web tokens

What the gateway asks of the `jsonwebtoken` crate (`RelayPubsub.JsonWebToken`), and what the
crate does for tokens that are signed with RS256 (`RelayPubsub.rs256`): the signature is the
padded SHA-256 hash of the header and the claims, to the power of the exponent of the key.
-/

namespace RelayPubsub

open Lib

/-- The claims of a token that the gateway reads. -/
structure Claims where
  sub : Option Text
  email : Option Text

/-- The header of a token, of which the gateway reads the algorithm and the key id. -/
structure JwtHeader where
  alg : Text
  kid : Option Text

/-- What is asked of a token besides its signature; the audience is not looked at when
`validateAud` is not set. -/
structure Validation where
  alg : Text
  validateAud : Bool := true
  aud : Option Text := none
  iss : Option Text := none

/-- **The `jsonwebtoken` crate.** -/
structure JsonWebToken where
  Key : Type
  decodeHeader : Text → Except Text JwtHeader
  fromRsaComponents : Text → Text → Except Text Key
  /-- `decode::<Claims>`: checks the signature, and the claims at a point in time. -/
  decode : Time → Text → Key → Validation → Except Text Claims

/-! ### RS256 -/

namespace Rs256

/-- Base64 with the alphabet for URLs, without padding. -/
def base64UrlDecode (s : Text) : Option Bytes :=
  if s.any (fun c => c = '+' ∨ c = '/' ∨ c = '=') then none
  else
    base64Decode
      ((s.map fun c => if c = '-' then '+' else if c = '_' then '/' else c) ++
        List.replicate ((4 - s.length % 4) % 4) '=')

/-- A JSON object in a part of a token. -/
def part (s : Text) : Except Text Value :=
  match base64UrlDecode s with
  | none => .error "Base64 error"
  | some bytes => compactJson.fromSlice bytes

/-- A public key, and the number of bytes of its modulus. -/
structure Key where
  size : ℕ
  modulus : ℕ
  exponent : ℕ

def ofBigEndian (bytes : Bytes) : ℕ := bytes.foldl (fun n b => n * 256 + b.toNat) 0

/-- The power of a number modulo `n`, for an exponent of `bits` bits. -/
def powMod (n : ℕ) : ℕ → ℕ → ℕ → ℕ
  | 0, _, _ => 1
  | bits + 1, b, e =>
    let square := powMod n bits (b * b % n) (e / 2)
    if e % 2 = 1 then b * square % n else square

/-- The hash with the padding of PKCS #1, as many bytes as the modulus has. -/
def padded (size : ℕ) (message : Bytes) : Bytes :=
  -- the sequence in the middle says that what follows is a SHA-256 hash
  [0, 1] ++ List.replicate (size - 54) 0xff ++ [0] ++
    [0x30, 0x31, 0x30, 0x0d, 0x06, 0x09, 0x60, 0x86, 0x48, 0x01, 0x65, 0x03, 0x04, 0x02, 0x01,
      0x05, 0x00, 0x04, 0x20] ++ sha256 message

def verifies (key : Key) (message signature : Bytes) : Bool :=
  signature.length = key.size ∧ 62 ≤ key.size ∧
    powMod key.modulus 32 (ofBigEndian signature) key.exponent =
      ofBigEndian (padded key.size message)

/-- What is wrong with claims that are signed: a minute is granted after their expiry. -/
def claimsError (now : Time) (validation : Validation) (claims : Value) : Option Text :=
  match (claims.get "exp").bind Value.asU64 with
  | none => some "Missing required claim: exp"
  | some exp =>
    let refused (asked claimed : Option Text) : Bool :=
      asked.any fun a => claimed.any fun c => c ≠ a
    if (exp.toNat : ℤ) < now / 1000000000 - 60 then some "ExpiredSignature"
    else if refused validation.iss (claims.getStr "iss") then some "InvalidIssuer"
    else if validation.validateAud ∧ (refused validation.aud (claims.getStr "aud") ∨
        validation.aud = none ∧ (claims.get "aud").isSome) then some "InvalidAudience"
    else none

def decodeHeader (token : Text) : Except Text JwtHeader :=
  match token.splitOn '.' with
  | [header, _, _] => do
    let header ← part header
    match header.getStr "alg" with
    | some alg =>
      if alg = "RS256".toList then .ok { alg, kid := header.getStr "kid" }
      else .error "InvalidAlgorithm"
    | none => .error "JSON error: missing field `alg`"
  | _ => .error "InvalidToken"

def fromRsaComponents (n e : Text) : Except Text Key :=
  match base64UrlDecode n, base64UrlDecode e with
  | some n, some e => .ok ⟨n.length, ofBigEndian n, ofBigEndian e⟩
  | _, _ => .error "Base64 error"

def decode (now : Time) (token : Text) (key : Key) (validation : Validation) :
    Except Text Claims := do
  let header ← decodeHeader token
  if header.alg ≠ validation.alg then .error "InvalidAlgorithm"
  else
    match token.splitOn '.' with
    | [header, claims, signature] =>
      match base64UrlDecode signature with
      | none => .error "Base64 error"
      | some signature =>
        if verifies key (asBytes (header ++ '.' :: claims)) signature then do
          let claims ← part claims
          match claimsError now validation claims with
          | some e => .error e
          | none => .ok { sub := claims.getStr "sub", email := claims.getStr "email" }
        else .error "InvalidSignature"
    | _ => .error "InvalidToken"

end Rs256

/-- **The crate, for one algorithm.** -/
def rs256 : JsonWebToken where
  Key := Rs256.Key
  decodeHeader := Rs256.decodeHeader
  fromRsaComponents := Rs256.fromRsaComponents
  decode := Rs256.decode

end RelayPubsub

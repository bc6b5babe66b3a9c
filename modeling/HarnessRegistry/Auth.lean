/-
# Publisher tokens

A token is a prefix and 32 random bytes in hexadecimal; the database holds
only its SHA-256 digest. `Publisher.fromRequestParts` is the extractor that
runs before a publisher's handler, `Admin.fromRequestParts` the one before an
operator's.

Key definitions: `generateToken`, `hashToken`, `bearer`,
`Publisher.fromRequestParts`, `Admin.fromRequestParts`.
-/
import HarnessRegistry.Handler
import HarnessRegistry.Config

namespace HarnessRegistry

open Handler

def tokenPrefix : String := "hrp_"

/-- Number of random bytes behind a token. -/
def tokenBytes : ℕ := 32

/-- The token for the random bytes drawn. -/
def generateToken (bytes : Vector UInt8 tokenBytes) : String := tokenPrefix ++ hexEncode bytes.toList

def hashToken (sha256 : Digest) (token : String) : String := hexEncode (sha256 (asBytes token))

/-- The bytes of a header's value. -/
abbrev HeaderValue := List UInt8

/-- `HeaderMap::get`: the first value under a name. -/
abbrev HeaderMap := String → Option HeaderValue

/-- `HeaderValue::to_str`: the text of a value of visible ASCII, space and tab. -/
def HeaderValue.toStr (v : HeaderValue) : Option String :=
  if v.all fun b => (32 ≤ b && b < 127) || b == 9 then
    some (String.ofList (v.map fun b => Char.ofNat b.toNat))
  else none

/-- A caller that presented a live token belonging to an unblocked publisher. -/
structure Publisher where
  id : Uuid
  githubLogin : String

/-- The token of an `Authorization: Bearer` header. -/
def bearer (headers : HeaderMap) : Option String := do
  let v ← headers "authorization"
  let s ← v.toStr
  let t ← stripPrefix s "Bearer "
  if (trim t).isEmpty then none else some (trim t)

def Publisher.fromRequestParts (app : AppState) (headers : HeaderMap) : Handler Publisher := do
  let some token := bearer headers | throw .unauthorized
  let some (id, githubLogin, blockedAt) ← query (.authLookup (hashToken app.sha256 token))
    | throw .unauthorized
  if blockedAt.isSome then throw (.forbidden "publisher is blocked")
  -- Best-effort: a failed bookkeeping write does not fail the request.
  attempt (.touchToken (hashToken app.sha256 token))
  return ⟨id, githubLogin⟩

/-- Digests are compared, not tokens. -/
def Admin.fromRequestParts (app : AppState) (headers : HeaderMap) : Except Error Unit := do
  let some expected := app.config.adminToken | throw (.notFound "route")
  let some presented := bearer headers | throw .unauthorized
  if hashToken app.sha256 presented = hashToken app.sha256 expected then return
  else throw .unauthorized

end HarnessRegistry

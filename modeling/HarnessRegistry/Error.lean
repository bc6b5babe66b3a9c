/-
# Errors

One error type for every handler, and one place that decides status codes.
`SqlError` is as much of `sqlx::Error` as the service tells apart: a unique
violation (SQLSTATE 23505), a row that `fetch_one` did not find, and the rest.

Key definitions: `SqlError`, `Error`, `Error.intoResponse`, `onUniqueViolation`.
-/
import Mathlib.Data.Nat.Notation

namespace HarnessRegistry

/-- `sqlx::Error`. -/
inductive SqlError
  | uniqueViolation
  | rowNotFound
  | other
deriving DecidableEq

/-- The service's error type. -/
inductive Error
  | badRequest (message : String)
  | unauthorized
  | forbidden (message : String)
  | notFound (what : String)
  | conflict (message : String)
  | tooLarge
  | badGateway (message : String)
  | tooManyRequests
  | database (e : SqlError)
deriving DecidableEq

/-- `IntoResponse for Error`: the status code and the message in the body. -/
def Error.intoResponse : Error → ℕ × String
  | .badRequest m => (400, m)
  | .unauthorized => (401, "authentication required")
  | .forbidden m => (403, m)
  | .notFound what => (404, s!"{what} not found")
  | .conflict m => (409, m)
  | .tooLarge => (413, "payload too large")
  | .badGateway m => (502, m)
  | .tooManyRequests => (429, "too many requests")
  | .database _ => (500, "internal error")

/-- `on_unique_violation`: a unique violation is a 409, anything else a 500. -/
def onUniqueViolation (e : SqlError) (message : String) : Error := match e with
  | .uniqueViolation => .conflict message
  | e => .database e

end HarnessRegistry

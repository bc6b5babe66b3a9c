/-
# Configuration

What the handlers read of `Config` and `AppState`. The limiters and the
connection pool, which requests share, are in `Service`.

Key definitions: `Config`, `Config.adminTokenFrom`, `GitHub`, `AppState`.
-/
import HarnessRegistry.Text
import Mathlib.Data.Int.Notation

namespace HarnessRegistry

structure Config where
  adminToken : Option String
  /-- Largest workflow document accepted, in bytes. -/
  maxYamlBytes : ℕ
  minAccountAgeDays : ℤ
  /-- Listed workflows one publisher may hold. -/
  maxWorkflowsPerPublisher : ℤ

/-- `env::VarError`. -/
inductive VarError
  | notPresent
  | notUnicode

/-- The `admin_token` that `Config::from_env` makes of `env::var("ADMIN_TOKEN")`. -/
def Config.adminTokenFrom (var : Except VarError String) : Option String := var.toOption.filter (!·.isEmpty)

/-- The client of GitHub's device flow. -/
structure GitHub where
  clientId : String

/-- SHA-256, which is not the service's own code. -/
abbrev Digest := List UInt8 → List UInt8

structure AppState where
  config : Config
  github : Option GitHub
  sha256 : Digest

end HarnessRegistry

/-
# GitHub's device flow

The answers GitHub gives, and what the service makes of them. GitHub is not
the service's code: an `Upstream` is any answer it may give to one call, and
a `Site` says how it answers each.

Key definitions: `Upstream`, `Site`, `classify`, `GitHub.start`, `GitHub.poll`,
`GitHub.user`.
-/
import HarnessRegistry.Config
import HarnessRegistry.Error

namespace HarnessRegistry

/-- How a call to GitHub ends: no response, or one with a status and a body
that parses or does not. -/
inductive Upstream (α : Type)
  | unreachable
  | response (success : Bool) (body : Option α)

/-- A device flow that has started. -/
structure DeviceFlow where
  deviceCode : String
  userCode : String
  verificationUri : String
  expiresIn : ℤ
  interval : ℤ
deriving DecidableEq

/-- Where a poll got to. -/
inductive Poll
  | pending
  | slowDown
  | declined
  | expired
  | authorized (token : String)
deriving DecidableEq

/-- Nanoseconds since the epoch: `chrono::DateTime<Utc>`. -/
abbrev DateTime := ℤ

/-- A GitHub account, as much of it as enrollment looks at. -/
structure GitHubUser where
  id : ℤ
  login : String
  name : Option String
  avatarUrl : Option String
  createdAt : DateTime

/-- What GitHub answers a token request with. -/
structure TokenResponse where
  accessToken : Option String
  error : Option String

/-- How GitHub answers, given the client id and the code or the access token
sent along. -/
structure Site where
  deviceCode : String → Upstream DeviceFlow
  accessToken : String → String → Upstream TokenResponse
  user : String → Upstream GitHubUser

def unreachable : Error := .badGateway "GitHub could not be reached"

def unreadable : Error := .badGateway "GitHub sent an unreadable response"

/-- Read one token response. An error nobody knows ends the flow. -/
def classify (body : TokenResponse) : Poll := match body.accessToken with
  | some token => .authorized token
  | none =>
    if body.error = some "authorization_pending" then .pending
    else if body.error = some "slow_down" then .slowDown
    else if body.error = some "access_denied" then .declined
    else .expired

/-- A call whose status is checked before its body is read. -/
def checkedBody {α : Type} (refused : String) : Upstream α → Except Error α
  | .unreachable => .error HarnessRegistry.unreachable
  | .response false _ => .error (.badGateway refused)
  | .response true none => .error unreadable
  | .response true (some body) => .ok body

/-- Ask GitHub to start a flow. -/
def GitHub.start (github : GitHub) (site : Site) : Except Error DeviceFlow :=
  checkedBody "GitHub would not start the sign-in" (site.deviceCode github.clientId)

/-- Exchange a device code. The status of the response is not looked at:
success and failure both come with a 200. -/
def GitHub.poll (github : GitHub) (site : Site) (deviceCode : String) : Except Error Poll :=
  match site.accessToken github.clientId deviceCode with
  | .unreachable => .error HarnessRegistry.unreachable
  | .response _ none => .error unreadable
  | .response _ (some body) => .ok (classify body)

/-- Read the account an access token belongs to. -/
def GitHub.user (site : Site) (accessToken : String) : Except Error GitHubUser :=
  checkedBody "GitHub would not confirm the account" (site.user accessToken)

end HarnessRegistry

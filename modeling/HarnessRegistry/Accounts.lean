/-
# Installs, profiles, enrollment and the operator's endpoints

The handlers of `routes/installs.rs`, `me.rs`, `enroll.rs` and `admin.rs`,
after the extractors have run.

Key definitions: `record`, `forget`, `Me.get`, `Me.update`, `start`, `poll`,
`oldEnough`, `upsertPublisher`, `issueToken`, `setOfficial`, `setBlocked`.
-/
import HarnessRegistry.Workflows
import HarnessRegistry.RateLimit

namespace HarnessRegistry

open Handler

/-! ### `installs.rs` -/

/-- The limiter comes first, so that a throttled caller learns nothing about
slugs. -/
def record (headers : HeaderMap) (slug : String) (body : RecordInstall) : Handler Reply := do
  if !(← check .install (clientKey headers none)) then throw .tooManyRequests
  let some workflow ← query (.workflowId slug) | throw (.notFound "workflow")
  let some _ ← query (.versionKnown workflow body.version) | throw (.notFound "version")
  query (.upsertInstall workflow body.installationId body.version)
  return .status "recorded"

def forget (headers : HeaderMap) (slug : String) (installationId : Uuid) : Handler Reply := do
  if !(← check .install (clientKey headers none)) then throw .tooManyRequests
  let some workflow ← query (.workflowId slug) | throw (.notFound "workflow")
  let (deleted : ℕ) ← query (.deleteInstall workflow installationId)
  if deleted = 0 then throw (.notFound "install")
  return .noContent

/-! ### `me.rs` -/

structure UpdateMe where
  displayName : Option String

/-- Blank clears the name. -/
def UpdateMe.name (body : UpdateMe) : Option String := (body.displayName.map trim).filter (!·.isEmpty)

def Me.get (publisher : Publisher) : Handler Reply := do
  let me ← query (.publisherById publisher.id)
  return .me me

def Me.update (publisher : Publisher) (body : UpdateMe) : Handler Reply := do
  if let some n := body.displayName.map trim then
    if n.toList.length > 60 then throw (.badRequest "display name is too long")
  let me ← query (.setDisplayName publisher.id body.name)
  return .me me

/-! ### `enroll.rs` -/

def tokenName : String := "self-serve enrollment"

structure PollRequest where
  deviceCode : String

/-- `GET /v1/enroll`. -/
def available (app : AppState) : Handler Reply := return .enrollment app.github.isSome

/-- `github`: without a client id the routes do not exist. -/
def github (app : AppState) : Except Error GitHub := match app.github with
  | none => .error (.notFound "route")
  | some github => .ok github

def start (app : AppState) (headers : HeaderMap) (site : Site) : Handler Reply := do
  if !(← check .enroll (clientKey headers none)) then throw .tooManyRequests
  let github ← lift (github app)
  let flow ← lift (github.start site)
  return .flow flow

/-- `chrono::Duration::days`, in nanoseconds: it panics beyond `i64::MAX`
milliseconds. -/
def durationDays (days : ℤ) : Option ℤ :=
  if -(2 ^ 63 / 1000) ≤ days * 86400 ∧ days * 86400 ≤ (2 ^ 63 - 1) / 1000 then
    some (days * 86400 * 1000000000)
  else none

/-- `old_enough`, or `none` when it panics. -/
def oldEnough (createdAt now : DateTime) (minDays : ℤ) : Option Bool :=
  if minDays ≤ 0 then some true else (durationDays minDays).map fun d => decide (now - createdAt ≥ d)

def checkAccountAge (app : AppState) (user : GitHubUser) (now : DateTime) : Handler Unit := do
  let days := app.config.minAccountAgeDays
  match oldEnough user.createdAt now days with
  | none => crash
  | some true => return
  | some false => throw (.forbidden s!"a GitHub account must be at least {days} days old to publish here")

/-- The name GitHub reports, unless it is blank. -/
def GitHubUser.displayName (user : GitHubUser) : Option String := (user.name.map trim).filter (!·.isEmpty)

/-- The block is looked at after the upsert, so that one statement decides
the row. -/
def upsertPublisher (user : GitHubUser) : Handler Uuid := do
  let (id, blockedAt) ← query (.enrollPublisher user.id user.login user.displayName user.avatarUrl)
  if Option.isSome blockedAt then throw (.forbidden "publisher is blocked")
  return id

/-- The rest of `poll` once GitHub has named the account. -/
def enroll (app : AppState) (user : GitHubUser) (now : DateTime) (bytes : Vector UInt8 tokenBytes) :
    Handler Reply := do
  checkAccountAge app user now
  let publisherId ← upsertPublisher user
  let token := generateToken bytes
  query (.insertToken publisherId (hashToken app.sha256 token) tokenName)
  return .enrolled token publisherId user.login

def poll (app : AppState) (headers : HeaderMap) (body : PollRequest) (site : Site) (now : DateTime)
    (bytes : Vector UInt8 tokenBytes) : Handler Reply := do
  if !(← check .enrollPoll (clientKey headers none)) then throw .tooManyRequests
  let github ← lift (github app)
  match ← lift (github.poll site body.deviceCode) with
  | .pending => return .status "pending"
  | .slowDown => return .status "slow_down"
  | .declined => throw (.forbidden "the sign-in was declined on GitHub")
  | .expired => throw (.badRequest "the code expired before it was entered; start again")
  | .authorized accessToken =>
    let user ← lift (GitHub.user site accessToken)
    enroll app user now bytes

/-! ### `admin.rs` -/

structure IssueToken where
  githubId : ℤ
  githubLogin : String
  displayName : Option String
  avatarUrl : Option String
  name : String

def issueToken (app : AppState) (body : IssueToken) (bytes : Vector UInt8 tokenBytes) : Handler Reply := do
  if (trim body.name).isEmpty then throw (.badRequest "name is required")
  begin
  let publisherId ← query
    (.issuePublisher body.githubId body.githubLogin body.displayName body.avatarUrl)
  let token := generateToken bytes
  queryOr (.insertToken publisherId (hashToken app.sha256 token) body.name)
    (onUniqueViolation · "token collision; retry")
  commit
  return .issued ⟨publisherId, body.githubLogin, body.name, token⟩

def setOfficial (slug : String) (value : Bool) : Handler Reply := do
  let (affected : ℕ) ← query (.setOfficial slug value)
  if affected = 0 then throw (.notFound "workflow")
  return .official slug value

def setBlocked (githubId : ℤ) (value : Bool) : Handler Reply := do
  let (affected : ℕ) ← query (.setBlocked githubId value)
  if affected = 0 then throw (.notFound "publisher")
  return .blocked githubId value

end HarnessRegistry

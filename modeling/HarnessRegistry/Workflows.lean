/-
# The library: browse, publish, amend, unlist

The handlers of `routes/workflows.rs`, after the extractors have run.

Key definitions: `Reply`, `list`, `detail`, `versions`, `versionDocument`,
`create`, `publishVersion`, `update`, `unlist`, `checkPublisherCap`,
`ownedWorkflowId`.
-/
import HarnessRegistry.Auth
import HarnessRegistry.GitHub

namespace HarnessRegistry

open Handler

/-- The JSON bodies of the answers, for every handler of the service. -/
inductive Reply
  | summaries (rows : List WorkflowSummary)
  | summary (row : WorkflowSummary)
  | versions (rows : List VersionSummary)
  | document (doc : VersionDocument)
  /-- `{ "slug": …, "version": … }`. -/
  | published (slug : String) (version : ℤ)
  /-- `{ "status": … }`. -/
  | status (status : String)
  /-- 204, without a body. -/
  | noContent
  | me (me : Me)
  | enrollment (offered : Bool)
  | flow (flow : DeviceFlow)
  /-- `{ "status": "complete", "token": …, "publisher_id": …, "github_login": … }`. -/
  | enrolled (token : String) (publisherId : Uuid) (githubLogin : String)
  | issued (token : IssuedToken)
  | official (slug : String) (official : Bool)
  | blocked (githubId : ℤ) (blocked : Bool)
deriving DecidableEq

/-! ### Reading -/

/-- `Sort::deserialize`: anything that is not `recent` is the default. -/
def ListSort.parse (raw : String) : ListSort :=
  if (trim raw).toList.map Char.toLower = "recent".toList then .recent else .installs

/-- The query string of a listing. -/
structure ListParams where
  tag : Option String
  q : Option String
  official : Option Bool
  limit : Option ℤ
  offset : Option ℤ
  sort : Option String

/-- What `list` binds: a silly limit is clamped, not rejected. -/
def ListParams.query (params : ListParams) : ListQuery :=
  { tag := params.tag, q := params.q, official := params.official,
    sort := params.sort.elim .installs ListSort.parse,
    limit := max 1 (min 200 (params.limit.getD 50)), offset := max 0 (params.offset.getD 0) }

def list (params : ListParams) : Handler Reply := do
  let rows ← query (.list params.query)
  return .summaries rows

def detail (slug : String) : Handler Reply := do
  let some row ← query (.detail slug) | throw (.notFound "workflow")
  return .summary row

/-- Whether or not the workflow is listed. -/
def workflowId (slug : String) : Handler Uuid := do
  let some id ← query (.workflowId slug) | throw (.notFound "workflow")
  return id

def versions (slug : String) : Handler Reply := do
  let id ← workflowId slug
  let rows ← query (.versions id)
  return .versions rows

/-- A withdrawn version is still served, with the flag set. -/
def versionDocument (slug : String) (version : ℤ) : Handler Reply := do
  let id ← workflowId slug
  let some (version, yaml, changelog, publishedAt, withdrawn) ← query (.document id version)
    | throw (.notFound "version")
  return .document ⟨slug, version, yaml, changelog, publishedAt, withdrawn⟩

/-! ### Writing -/

/-- Refuse a publisher who already holds the maximum number of listed
workflows. A cap of zero or less is none. -/
def checkPublisherCap (app : AppState) (publisher : Publisher) : Handler Unit := do
  let cap := app.config.maxWorkflowsPerPublisher
  if cap ≤ 0 then return
  let (held : ℕ) ← query (.countListed publisher.id)
  if (held : ℤ) ≥ cap then
    throw (.forbidden s!"this account already has {held} workflows in the library, which is the limit of {cap}")

/-- Resolve a slug to an id the caller may change; 404 also when the workflow
is somebody else's. -/
def ownedWorkflowId (slug : String) (publisher : Publisher) : Handler Uuid := do
  let some id ← query (.ownedWorkflowId slug publisher.id) | throw (.notFound "workflow")
  return id

def create (app : AppState) (publisher : Publisher) (body : CreateWorkflow) : Handler Reply := do
  lift (body.validate app.config.maxYamlBytes)
  checkPublisherCap app publisher
  -- Workflow and its first version in one transaction.
  begin
  let id ← queryOr (.insertWorkflow body.slug body.title body.description body.tags publisher.id)
    (onUniqueViolation · "that slug is already taken")
  let _ ← query (.insertVersion id 1 body.yaml body.changelog)
  commit
  return .published body.slug 1

def publishVersion (app : AppState) (publisher : Publisher) (slug : String) (body : PublishVersion) :
    Handler Reply := do
  lift (body.validate app.config.maxYamlBytes)
  let id ← ownedWorkflowId slug publisher
  begin
  -- The next number is derived, not supplied; of two publishes that derive the
  -- same one, one loses.
  let lost := (onUniqueViolation · "a concurrent publish took that version; retry")
  let derived ← queryOr (.nextVersion id) lost
  let next ← queryOr (.insertVersion id derived body.yaml body.changelog) lost
  -- Publishing re-lists an entry its author had withdrawn.
  query (.relist id)
  commit
  return .published slug next

def update (publisher : Publisher) (slug : String) (body : UpdateWorkflow) : Handler Reply := do
  lift body.validate
  let id ← ownedWorkflowId slug publisher
  query (.amend id body.title body.description body.tags)
  return .status "updated"

/-- Soft: nothing is removed. -/
def unlist (publisher : Publisher) (slug : String) : Handler Reply := do
  let id ← ownedWorkflowId slug publisher
  query (.unlist id)
  return .status "unlisted"

end HarnessRegistry

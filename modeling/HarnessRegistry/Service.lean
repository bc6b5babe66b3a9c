/-
# The service

A `Request` is a call that reached one of the routes, with what the handler
is given: the headers, the path, the parsed body, and for the handlers that
look at the outside world what the world shows them (GitHub, the clock, the
random bytes). `handle` runs the extractors in the order the signatures have
them, then the handler; the whole service is a `Pool` of such programs.

Key definitions: `Request`, `handle`, `Registry`, `Db.Initial`, `Registry.start`.
-/
import HarnessRegistry.Accounts

namespace HarnessRegistry

open Txn Handler

inductive Request
  | list (params : ListParams)
  | detail (slug : String)
  | versions (slug : String)
  | versionDocument (slug : String) (version : ℤ)
  | create (headers : HeaderMap) (body : CreateWorkflow)
  | publishVersion (headers : HeaderMap) (slug : String) (body : PublishVersion)
  | update (headers : HeaderMap) (slug : String) (body : UpdateWorkflow)
  | unlist (headers : HeaderMap) (slug : String)
  | record (headers : HeaderMap) (slug : String) (body : RecordInstall)
  | forget (headers : HeaderMap) (slug : String) (installationId : Uuid)
  | me (headers : HeaderMap)
  | updateMe (headers : HeaderMap) (body : UpdateMe)
  | available
  | start (headers : HeaderMap) (site : Site)
  | poll (headers : HeaderMap) (body : PollRequest) (site : Site) (now : DateTime)
      (bytes : Vector UInt8 tokenBytes)
  | issueToken (headers : HeaderMap) (body : IssueToken) (bytes : Vector UInt8 tokenBytes)
  | setOfficial (headers : HeaderMap) (slug : String) (value : Bool)
  | setBlocked (headers : HeaderMap) (githubId : ℤ) (value : Bool)

/-- A handler that takes a `Publisher`. -/
def asPublisher (app : AppState) (headers : HeaderMap) (f : Publisher → Handler Reply) : Handler Reply := do
  let publisher ← Publisher.fromRequestParts app headers
  f publisher

/-- A handler that takes an `Admin`. -/
def asAdmin (app : AppState) (headers : HeaderMap) (f : Handler Reply) : Handler Reply := do
  lift (Admin.fromRequestParts app headers)
  f

def Request.handler (app : AppState) : Request → Handler Reply
  | .list params => HarnessRegistry.list params
  | .detail slug => HarnessRegistry.detail slug
  | .versions slug => HarnessRegistry.versions slug
  | .versionDocument slug version => HarnessRegistry.versionDocument slug version
  | .create headers body => asPublisher app headers fun p => HarnessRegistry.create app p body
  | .publishVersion headers slug body =>
      asPublisher app headers fun p => HarnessRegistry.publishVersion app p slug body
  | .update headers slug body => asPublisher app headers fun p => HarnessRegistry.update p slug body
  | .unlist headers slug => asPublisher app headers fun p => HarnessRegistry.unlist p slug
  | .record headers slug body => HarnessRegistry.record headers slug body
  | .forget headers slug installationId => HarnessRegistry.forget headers slug installationId
  | .me headers => asPublisher app headers Me.get
  | .updateMe headers body => asPublisher app headers fun p => Me.update p body
  | .available => HarnessRegistry.available app
  | .start headers site => HarnessRegistry.start app headers site
  | .poll headers body site now bytes => HarnessRegistry.poll app headers body site now bytes
  | .issueToken headers body bytes => asAdmin app headers (HarnessRegistry.issueToken app body bytes)
  | .setOfficial headers slug value => asAdmin app headers (HarnessRegistry.setOfficial slug value)
  | .setBlocked headers githubId value => asAdmin app headers (HarnessRegistry.setBlocked githubId value)

/-- The program of a request. -/
def handle (app : AppState) (req : Request) : Prog registry (Except Error Reply) := (req.handler app).run

/-- The headers of a request that a publisher authenticates. -/
def Request.publisher? : Request → Option HeaderMap
  | .create headers _ | .publishVersion headers _ _ | .update headers _ _ | .unlist headers _
  | .me headers | .updateMe headers _ => some headers
  | _ => none

/-- The headers of a request that the operator authenticates. -/
def Request.admin? : Request → Option HeaderMap
  | .issueToken headers _ _ | .setOfficial headers _ _ | .setBlocked headers _ _ => some headers
  | _ => none

/-- A replica at work: the database, the requests and the committed writes. -/
abbrev Registry := Pool registry Request (Except Error Reply)

/-- No workflow has been published yet. -/
structure Db.Initial (db : Db) : Prop where
  workflows : db.workflows = ∅
  versions : db.versions = ∅
  installs : db.installs = ∅

/-- The service on `db`, before the first request. -/
def Registry.start (db : Db) : Registry := ⟨db, [], []⟩

end HarnessRegistry

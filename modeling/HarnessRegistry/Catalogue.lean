/-
# The registry as its users know it

Without rows, keys and transactions: accounts, credentials, and under every slug
a package with its releases in order and its installs. A `Desk` serves one
request at a time. Each request looks at the catalogue when it is its turn, and
one of its looks is the last: there it is answered (`Says`), or does at once all
that it is for (`Acts`). What it has seen until then is what it is let in by. One
request does what it is for at two looks: a sign-in brings the account up to date
before it gets its token, and also if it is refused, for the account is blocked.

Key definitions: `Catalogue`, `Look`, `Catalogue.Admits`, `Catalogue.Shows`,
`Catalogue.Refuses`, `LetIn`, `Says`, `Acts`, `Attends`, `Desk.Step`.
Key theorems: `Acts.extends`, `Desk.extends`, `Acts.has`, `Desk.accounted`.
-/
import HarnessRegistry.Grounds
import Mathlib.Data.Set.Card
import Mathlib.Logic.Relation

namespace HarnessRegistry

/-! ### What there is -/

/-- Somebody who may publish. -/
structure Account where
  githubId : ℤ
  login : String
  name : Option String
  avatar : Option String
  blockedAt : Option Timestamp

def Account.me (a : Account) : Me := ⟨a.login, a.name, a.avatar⟩

/-- A token. -/
structure Credential where
  holder : Uuid
  label : String
  revokedAt : Option Timestamp

structure Release where
  yaml : String
  changelog : Option String
  publishedAt : Timestamp
  withdrawnAt : Option Timestamp

structure Install where
  version : ℤ
  lastSeenAt : Timestamp

structure Package where
  id : Uuid
  owner : Uuid
  title : String
  description : String
  tags : List String
  official : Bool
  updatedAt : Timestamp
  unlistedAt : Option Timestamp
  /-- The first release first. -/
  releases : List Release
  installs : Uuid → Option Install

structure Catalogue where
  accounts : Uuid → Option Account
  /-- By the hash of the token. -/
  credentials : String → Option Credential
  packages : String → Option Package

/-- One look of a request: what it finds and what it leaves, the clock and what else
the world supplies, unless it does not get through, and the error it comes back with. -/
structure Look where
  before : Catalogue
  after : Catalogue
  env : Option Env
  refusal : Option SqlError

/-- The last look got through, with these supplies. -/
def LastLook (seen : List Look) (env : Env) : Prop := ∃ l, seen.getLast? = some l ∧ l.env = some env

/-- It was then at one of the looks. -/
def Timed (seen : List Look) (now : Timestamp) : Prop := ∃ l ∈ seen, ∃ env, l.env = some env ∧ env.now = now

namespace Package

/-- The releases with their numbers: 1, 2, … -/
def numbered (k : Package) : List (ℤ × Release) := k.releases.mapIdx fun i r => ((i : ℤ) + 1, r)

def published (k : Package) (n : ℤ) : Prop := ∃ r, (n, r) ∈ k.numbered

/-- The last release that stands. -/
def latest (k : Package) : Option ℤ := (k.numbered.reverse.find? fun e => e.2.withdrawnAt.isNone).map Prod.fst

/-- The installs heard of lately. -/
noncomputable def active (k : Package) (now : Timestamp) : ℕ :=
  {i | ∃ x, k.installs i = some x ∧ now - ninetyDays < x.lastSeenAt}.ncard

def publish (k : Package) (r : Release) (now : Timestamp) : Package :=
  { k with releases := k.releases ++ [r], updatedAt := now, unlistedAt := none }

def withdraw (k : Package) (n : ℤ) (now : Timestamp) : Package :=
  { k with releases := k.numbered.map fun e => if e.1 = n then { e.2 with withdrawnAt := some now } else e.2 }

def setInstall (k : Package) (i : Uuid) (x : Option Install) : Package :=
  { k with installs := Function.update k.installs i x }

/-- What the filters of a listing let through. -/
structure Selected (k : Package) (lower : Char → Char) (f : ListQuery) : Prop where
  listed : k.unlistedAt = none
  tag : ∀ t, f.tag = some t → t ∈ k.tags
  text : ∀ q, f.q = some q → ilike lower k.title ("%" ++ q ++ "%") = true ∨ ilike lower k.description ("%" ++ q ++ "%") = true
  official : ∀ o, f.official = some o → k.official = o

end Package

namespace Catalogue

def setAccount (c : Catalogue) (p : Uuid) (a : Account) : Catalogue :=
  { c with accounts := Function.update c.accounts p (some a) }

def setCredential (c : Catalogue) (hash : String) (t : Credential) : Catalogue :=
  { c with credentials := Function.update c.credentials hash (some t) }

def setPackage (c : Catalogue) (slug : String) (k : Package) : Catalogue :=
  { c with packages := Function.update c.packages slug (some k) }

/-- What an account has in the library. -/
noncomputable def listed (c : Catalogue) (p : Uuid) : ℕ :=
  {slug | ∃ k, c.packages slug = some k ∧ k.owner = p ∧ k.unlistedAt = none}.ncard

/-- The line of a package. -/
noncomputable def summary (c : Catalogue) (now : Timestamp) (slug : String) (k : Package) : Option WorkflowSummary :=
  (c.accounts k.owner).map fun a =>
    { slug, title := k.title, description := k.description, tags := k.tags, official := k.official, publisher := a.login,
      latestVersion := k.latest, installs := k.active now, updatedAt := k.updatedAt }

/-! ### Who comes -/

variable (app : AppState)

/-- The headers carry the token. -/
def Presents (c : Catalogue) (h : HeaderMap) (t : Credential) : Prop :=
  ∃ token, bearer h = some token ∧ c.credentials (hashToken app.sha256 token) = some t

/-- A token of the account, good or not. -/
def Bears (c : Catalogue) (h : HeaderMap) (p : Uuid) : Prop :=
  ∃ t, c.Presents app h t ∧ t.holder = p ∧ c.accounts p ≠ none

/-- A good one, and the account is not blocked. -/
def Admits (c : Catalogue) (h : HeaderMap) (p : Uuid) : Prop :=
  ∃ t a, c.Presents app h t ∧ t.revokedAt = none ∧ t.holder = p ∧ c.accounts p = some a ∧ a.blockedAt = none

/-- The account of a GitHub user is opened, or brought up to date. -/
inductive Registers (c : Catalogue) (githubId : ℤ) (login : String) (name avatar : Option String) (f : Account → Account) :
    Uuid → Catalogue → Prop
  | opened {p : Uuid} : c.accounts p = none → (∀ q a, c.accounts q = some a → a.githubId ≠ githubId) →
      Registers c githubId login name avatar f p (c.setAccount p ⟨githubId, login, name, avatar, none⟩)
  | known {p : Uuid} {a : Account} : c.accounts p = some a → a.githubId = githubId →
      Registers c githubId login name avatar f p (c.setAccount p (f a))

/-- At the end of a sign-in. The name that somebody has chosen stays. -/
def SignsIn (c : Catalogue) (user : GitHubUser) : Uuid → Catalogue → Prop :=
  c.Registers user.id user.login user.displayName user.avatarUrl fun a =>
    { a with login := user.login, name := a.name.or user.displayName, avatar := user.avatarUrl.or a.avatar }

/-- By the operator, whose name for it counts. -/
def Enters (c : Catalogue) (body : IssueToken) : Uuid → Catalogue → Prop :=
  c.Registers body.githubId body.githubLogin body.displayName body.avatarUrl fun a =>
    { a with login := body.githubLogin, name := body.displayName.or a.name, avatar := body.avatarUrl.or a.avatar }

/-! ### Answers that change nothing -/

/-- What a request is shown. -/
inductive Shows (seen : List Look) (c : Catalogue) : Request → Reply → Prop
  /-- Of all that is selected, in the order asked for. -/
  | page {params : ListParams} {env : Env} {full : List WorkflowSummary} : LastLook seen env →
      (full.map (·.slug)).Nodup →
      (∀ row, row ∈ full ↔ ∃ k, c.packages row.slug = some k ∧ k.Selected env.lower params.query ∧
        c.summary env.now row.slug k = some row) →
      full.Pairwise (fun a b => params.query.sort.columns b ≤ params.query.sort.columns a) →
      Shows seen c (.list params) (.summaries ((full.drop params.query.offset.toNat).take params.query.limit.toNat))
  | summary {slug : String} {k : Package} {env : Env} {row : WorkflowSummary} : LastLook seen env →
      c.packages slug = some k → k.unlistedAt = none → c.summary env.now slug k = some row → Shows seen c (.detail slug) (.summary row)
  | versions {slug : String} {k : Package} : c.packages slug = some k →
      Shows seen c (.versions slug)
        (.versions (k.numbered.reverse.map fun e => ⟨e.1, e.2.changelog, e.2.publishedAt, e.2.withdrawnAt.isSome⟩))
  | document {slug : String} {k : Package} {n : ℤ} {r : Release} : c.packages slug = some k → (n, r) ∈ k.numbered →
      Shows seen c (.versionDocument slug n) (.document ⟨slug, n, r.yaml, r.changelog, r.publishedAt, r.withdrawnAt.isSome⟩)
  | profile {h : HeaderMap} {p : Uuid} {a : Account} : c.Bears app h p → c.accounts p = some a →
      Shows seen c (.me h) (.me a.me)
  | offered : Shows seen c .available (.enrollment app.github.isSome)
  | started {h : HeaderMap} {site : Site} {flow : DeviceFlow} : (github app >>= fun g => g.start site) = .ok flow →
      Shows seen c (.start h site) (.flow flow)
  | unfinished {h : HeaderMap} {body : PollRequest} {site : Site} {clock : DateTime} {bytes : Vector UInt8 tokenBytes}
      {status : String} : verdict app body site clock = .unfinished status →
      Shows seen c (.poll h body site clock bytes) (.status status)

/-- Why a request is refused. -/
inductive Refuses (seen : List Look) (c : Catalogue) : Request → Error → Prop
  | invalid {req : Request} {e : Error} : req.checks app = .error e → Refuses seen c req e
  | atCap {h : HeaderMap} {body : CreateWorkflow} {p : Uuid} : c.Bears app h p → 0 < app.config.maxWorkflowsPerPublisher →
      app.config.maxWorkflowsPerPublisher ≤ c.listed p →
      Refuses seen c (.create h body) (.forbidden s!"this account already has {c.listed p} workflows in the library, which is the limit of {app.config.maxWorkflowsPerPublisher}")
  | slugTaken {h : HeaderMap} {body : CreateWorkflow} : c.packages body.slug ≠ none →
      Refuses seen c (.create h body) (.conflict "that slug is already taken")
  /-- The id drawn for the package was another's. -/
  | unlucky {h : HeaderMap} {body : CreateWorkflow} {slug : String} {k : Package} {env : Env} : LastLook seen env →
      c.packages slug = some k → k.id = env.uuid →
      Refuses seen c (.create h body) (.conflict "that slug is already taken")
  | notTheirs {req : Request} {h : HeaderMap} {slug : String} {p : Uuid} : req.changes = some (h, slug) → c.Bears app h p →
      (∀ k, c.packages slug = some k → k.owner ≠ p) → Refuses seen c req (.notFound "workflow")
  /-- Another release has come in between. -/
  | overtaken {h : HeaderMap} {slug : String} {body : PublishVersion} {l : Look} {j k : Package} : l ∈ seen →
      l.before.packages slug = some j → c.packages slug = some k → j.releases.length < k.releases.length →
      Refuses seen c (.publishVersion h slug body) (.conflict "a concurrent publish took that version; retry")
  | unknownPackage {req : Request} {slug : String} : req.looksUp? = some slug → c.packages slug = none →
      Refuses seen c req (.notFound "workflow")
  | notListed {slug : String} : (∀ k, c.packages slug = some k → k.unlistedAt ≠ none) →
      Refuses seen c (.detail slug) (.notFound "workflow")
  | unknownVersion {req : Request} {slug : String} {n : ℤ} {k : Package} : req.version? = some (slug, n) →
      c.packages slug = some k → ¬ k.published n → Refuses seen c req (.notFound "version")
  | unknownInstall {h : HeaderMap} {slug : String} {i : Uuid} {k : Package} : c.packages slug = some k →
      k.installs i = none → Refuses seen c (.forget h slug i) (.notFound "install")
  | unknownAccount {h : HeaderMap} {g : ℤ} {value : Bool} : (∀ p a, c.accounts p = some a → a.githubId ≠ g) →
      Refuses seen c (.setBlocked h g value) (.notFound "publisher")
  | notStarted {h : HeaderMap} {site : Site} {e : Error} : (github app >>= fun g => g.start site) = .error e →
      Refuses seen c (.start h site) e
  | notEnrolled {h : HeaderMap} {body : PollRequest} {site : Site} {clock : DateTime} {bytes : Vector UInt8 tokenBytes}
      {e : Error} : verdict app body site clock = .refused e → Refuses seen c (.poll h body site clock bytes) e
  | collision {h : HeaderMap} {body : IssueToken} {bytes : Vector UInt8 tokenBytes} :
      c.credentials (hashToken app.sha256 (generateToken bytes)) ≠ none →
      Refuses seen c (.issueToken h body bytes) (.conflict "token collision; retry")

end Catalogue

section Desk

variable (app : AppState)

/-- The account has been let in by a token, at one of the looks. -/
def Admitted (seen : List Look) (h : HeaderMap) (p : Uuid) : Prop := ∃ l ∈ seen, l.before.Admits app h p

/-- What comes before the desk: the limiter, the token, the operator's secret. -/
structure LetIn (seen : List Look) (req : Request) : Prop where
  limiter : ∀ l h, req.limited? = some (l, h) → ∃ k ∈ seen, ∃ env, k.env = some env ∧ env.admits l (clientKey h none) = true
  publisher : ∀ h, req.publisher? = some h → ∃ p, Admitted app seen h p
  operator : ∀ h, req.admin? = some h → Admin.fromRequestParts app h = .ok ()

/-- Answers that leave the catalogue as it is. -/
inductive Says (seen : List Look) (c : Catalogue) : Request → Except Error Reply → Prop
  /-- The last look went wrong. -/
  | fault {req : Request} {l : Look} {e : SqlError} : seen.getLast? = some l → l.refusal = some e →
      Says seen c req (.error (.database e))
  | throttled {req : Request} {l : Limiter} {h : HeaderMap} {env : Env} : req.limited? = some (l, h) → LastLook seen env →
      env.admits l (clientKey h none) = false → Says seen c req (.error .tooManyRequests)
  | unauthorized {req : Request} {h : HeaderMap} : req.publisher? = some h →
      (∀ t, c.Presents app h t → t.revokedAt = none → c.accounts t.holder = none) → Says seen c req (.error .unauthorized)
  | blocked {req : Request} {h : HeaderMap} {t : Credential} {a : Account} : req.publisher? = some h →
      c.Presents app h t → t.revokedAt = none → c.accounts t.holder = some a → a.blockedAt ≠ none →
      Says seen c req (.error (.forbidden "publisher is blocked"))
  | notOperator {req : Request} {h : HeaderMap} {e : Error} : req.admin? = some h →
      Admin.fromRequestParts app h = .error e → Says seen c req (.error e)
  | shows {req : Request} {reply : Reply} : LetIn app seen req → c.Shows app seen req reply → Says seen c req (.ok reply)
  | refuses {req : Request} {e : Error} : LetIn app seen req → c.Refuses app seen req e → Says seen c req (.error e)

/-- The sign-in of an account that was not blocked then. -/
def SignedInto (seen : List Look) (user : GitHubUser) (p : Uuid) : Prop :=
  ∃ l ∈ seen, l.before.SignsIn user p l.after ∧ ∃ a, l.after.accounts p = some a ∧ a.blockedAt = none

/-- What a request is for, and what it is answered. -/
inductive Acts (seen : List Look) (c : Catalogue) : Request → Reply → Catalogue → Prop
  /-- The cap was looked at before. -/
  | created {h : HeaderMap} {body : CreateWorkflow} {i p : Uuid} {now : Timestamp} : Admitted app seen h p →
      body.validate app.config.maxYamlBytes = .ok () →
      (0 < app.config.maxWorkflowsPerPublisher → ∃ l ∈ seen, (l.before.listed p : ℤ) < app.config.maxWorkflowsPerPublisher) →
      c.packages body.slug = none → (∀ slug k, c.packages slug = some k → k.id ≠ i) → Timed seen now →
      Acts seen c (.create h body) (.published body.slug 1) (c.setPackage body.slug
        ⟨i, p, body.title, body.description, body.tags, false, now, none, [⟨body.yaml, body.changelog, now, none⟩], fun _ => none⟩)
  | published {h : HeaderMap} {slug : String} {body : PublishVersion} {k : Package} {now : Timestamp} :
      c.packages slug = some k → Admitted app seen h k.owner → body.validate app.config.maxYamlBytes = .ok () → Timed seen now →
      Acts seen c (.publishVersion h slug body) (.published slug (k.releases.length + 1))
        (c.setPackage slug (k.publish ⟨body.yaml, body.changelog, now, none⟩ now))
  | amended {h : HeaderMap} {slug : String} {body : UpdateWorkflow} {k : Package} {now : Timestamp} :
      c.packages slug = some k → Admitted app seen h k.owner → body.validate = .ok () → Timed seen now →
      Acts seen c (.update h slug body) (.status "updated") (c.setPackage slug
        { k with title := body.title.getD k.title, description := body.description.getD k.description,
                 tags := body.tags.getD k.tags, updatedAt := now })
  | unlisted {h : HeaderMap} {slug : String} {k : Package} {now : Timestamp} :
      c.packages slug = some k → Admitted app seen h k.owner → Timed seen now →
      Acts seen c (.unlist h slug) (.status "unlisted") (c.setPackage slug { k with unlistedAt := some now })
  | renamed {h : HeaderMap} {body : UpdateMe} {p : Uuid} {a : Account} : Admitted app seen h p → c.accounts p = some a →
      (∀ n ∈ body.displayName.map trim, n.toList.length ≤ 60) →
      Acts seen c (.updateMe h body) (.me { a with name := body.name }.me) (c.setAccount p { a with name := body.name })
  | recorded {h : HeaderMap} {slug : String} {body : RecordInstall} {k : Package} {now : Timestamp} :
      c.packages slug = some k → k.published body.version → Timed seen now →
      Acts seen c (.record h slug body) (.status "recorded")
        (c.setPackage slug (k.setInstall body.installationId (some ⟨body.version, now⟩)))
  | forgot {h : HeaderMap} {slug : String} {i : Uuid} {k : Package} : c.packages slug = some k → k.installs i ≠ none →
      Acts seen c (.forget h slug i) .noContent (c.setPackage slug (k.setInstall i none))
  | enrolled {h : HeaderMap} {body : PollRequest} {site : Site} {clock : DateTime} {bytes : Vector UInt8 tokenBytes}
      {user : GitHubUser} {p : Uuid} {a : Account} : Enrolls app body site clock user → SignedInto seen user p →
      c.accounts p = some a → a.githubId = user.id → c.credentials (hashToken app.sha256 (generateToken bytes)) = none →
      Acts seen c (.poll h body site clock bytes) (.enrolled (generateToken bytes) p user.login)
        (c.setCredential (hashToken app.sha256 (generateToken bytes)) ⟨p, tokenName, none⟩)
  | issued {h : HeaderMap} {body : IssueToken} {bytes : Vector UInt8 tokenBytes} {p : Uuid} {c' : Catalogue} :
      Admin.fromRequestParts app h = .ok () → (trim body.name).isEmpty = false → c.Enters body p c' →
      c.credentials (hashToken app.sha256 (generateToken bytes)) = none →
      Acts seen c (.issueToken h body bytes) (.issued ⟨p, body.githubLogin, body.name, generateToken bytes⟩)
        (c'.setCredential (hashToken app.sha256 (generateToken bytes)) ⟨p, body.name, none⟩)
  | badged {h : HeaderMap} {slug : String} {value : Bool} {k : Package} : Admin.fromRequestParts app h = .ok () →
      c.packages slug = some k →
      Acts seen c (.setOfficial h slug value) (.official slug value) (c.setPackage slug { k with official := value })
  | blocked {h : HeaderMap} {g : ℤ} {value : Bool} {p : Uuid} {a : Account} {now : Timestamp} :
      Admin.fromRequestParts app h = .ok () → c.accounts p = some a → a.githubId = g → (value = true → Timed seen now) →
      Acts seen c (.setBlocked h g value) (.blocked g value)
        (c.setAccount p { a with blockedAt := if value then some now else none })

/-! ### The desk -/

/-- A request at the desk. -/
structure Caller where
  req : Request
  seen : List Look
  answer : Option (Except Error Reply)
  left : Bool

def Caller.look (v : Caller) (l : Look) : Caller := { v with seen := v.seen ++ [l] }

structure Desk where
  catalogue : Catalogue
  callers : List Caller

/-- The desk attends to a request, which has this look. -/
inductive Attends (v : Caller) (l : Look) : Caller → Prop
  | looks : l.after = l.before → Attends v l (v.look l)
  | leaves : l.after = l.before → Attends v l { v.look l with left := true }
  | replies {out : Except Error Reply} : l.after = l.before → Says app (v.seen ++ [l]) l.before v.req out →
      Attends v l { v.look l with answer := some out }
  | acts {reply : Reply} : LetIn app (v.seen ++ [l]) v.req → Acts app (v.seen ++ [l]) l.before v.req reply l.after →
      Attends v l { v.look l with answer := some (.ok reply) }
  /-- The account of a sign-in is there before its token, and without one if it is
  blocked. -/
  | signsIn {h : HeaderMap} {body : PollRequest} {site : Site} {clock : DateTime} {bytes : Vector UInt8 tokenBytes}
      {user : GitHubUser} {p : Uuid} {a : Account} : v.req = .poll h body site clock bytes → LetIn app (v.seen ++ [l]) v.req →
      Enrolls app body site clock user → l.before.SignsIn user p l.after → l.after.accounts p = some a →
      Attends v l { v.look l with
        answer := if a.blockedAt = none then none else some (.error (.forbidden "publisher is blocked")) }

inductive Desk.Step (d : Desk) : Desk → Prop
  /-- Some need not look to be answered. -/
  | arrives {req : Request} {answer : Option (Except Error Reply)} :
      (∀ out, answer = some out → Says app [] d.catalogue req out) →
      Step d ⟨d.catalogue, d.callers ++ [⟨req, [], answer, false⟩]⟩
  | attends {r : ℕ} {v v' : Caller} {l : Look} : d.callers[r]? = some v → v.answer = none → v.left = false →
      l.before = d.catalogue → Attends app v l v' → Step d ⟨l.after, d.callers.set r v'⟩
  /-- By hand. -/
  | withdraws {slug : String} {k : Package} {n : ℤ} {now : Timestamp} : d.catalogue.packages slug = some k →
      Step d { d with catalogue := d.catalogue.setPackage slug (k.withdraw n now) }
  | revokes {hash : String} {t : Credential} {now : Timestamp} : d.catalogue.credentials hash = some t →
      Step d { d with catalogue := d.catalogue.setCredential hash { t with revokedAt := some now } }
  | idles : Step d d

end Desk

/-! ### The catalogue only grows -/

/-- The release is the same, and stays withdrawn. -/
structure Release.Extends (r r' : Release) : Prop where
  same : r'.yaml = r.yaml ∧ r'.changelog = r.changelog ∧ r'.publishedAt = r.publishedAt
  withdrawn : r.withdrawnAt ≠ none → r'.withdrawnAt ≠ none

/-- The package keeps its owner and its releases, under their numbers. -/
structure Package.Extends (k k' : Package) : Prop where
  owner : k'.owner = k.owner
  releases : ∀ (i : ℕ) (r : Release), k.releases[i]? = some r → ∃ r', k'.releases[i]? = some r' ∧ r.Extends r'

/-- The token is the same account's, and stays revoked. -/
structure Credential.Extends (t t' : Credential) : Prop where
  same : t'.holder = t.holder ∧ t'.label = t.label
  revoked : t.revokedAt ≠ none → t'.revokedAt ≠ none

structure Catalogue.Extends (c c' : Catalogue) : Prop where
  accounts : ∀ p a, c.accounts p = some a → ∃ a', c'.accounts p = some a' ∧ a'.githubId = a.githubId
  credentials : ∀ x t, c.credentials x = some t → ∃ t', c'.credentials x = some t' ∧ t.Extends t'
  packages : ∀ s k, c.packages s = some k → ∃ k', c'.packages s = some k' ∧ k.Extends k'

theorem Release.Extends.refl (r : Release) : r.Extends r := ⟨⟨rfl, rfl, rfl⟩, id⟩

theorem Package.Extends.refl (k : Package) : k.Extends k := ⟨rfl, fun _ r h => ⟨r, h, .refl r⟩⟩

theorem Credential.Extends.refl (t : Credential) : t.Extends t := ⟨⟨rfl, rfl⟩, id⟩

theorem Catalogue.Extends.refl (c : Catalogue) : c.Extends c :=
  ⟨fun _ a h => ⟨a, h, rfl⟩, fun _ t h => ⟨t, h, .refl t⟩, fun _ k h => ⟨k, h, .refl k⟩⟩

theorem Release.Extends.trans {r s t : Release} (h : r.Extends s) (h' : s.Extends t) : r.Extends t :=
  ⟨⟨h'.same.1.trans h.same.1, h'.same.2.1.trans h.same.2.1, h'.same.2.2.trans h.same.2.2⟩,
    fun hr => h'.withdrawn (h.withdrawn hr)⟩

theorem Package.Extends.trans {k l m : Package} (h : k.Extends l) (h' : l.Extends m) : k.Extends m := by
  refine ⟨h'.owner.trans h.owner, fun i r hr => ?_⟩
  obtain ⟨r', hr', he⟩ := h.releases i r hr
  obtain ⟨r'', hr'', he'⟩ := h'.releases i r' hr'
  exact ⟨r'', hr'', he.trans he'⟩

theorem Credential.Extends.trans {t u v : Credential} (h : t.Extends u) (h' : u.Extends v) : t.Extends v :=
  ⟨⟨h'.same.1.trans h.same.1, h'.same.2.trans h.same.2⟩, fun ht => h'.revoked (h.revoked ht)⟩

theorem Catalogue.Extends.trans {a b c : Catalogue} (h : a.Extends b) (h' : b.Extends c) : a.Extends c := by
  refine ⟨fun p x hx => ?_, fun x t ht => ?_, fun s k hk => ?_⟩
  · obtain ⟨y, hy, he⟩ := h.accounts p x hx
    obtain ⟨z, hz, he'⟩ := h'.accounts p y hy
    exact ⟨z, hz, he'.trans he⟩
  · obtain ⟨y, hy, he⟩ := h.credentials x t ht
    obtain ⟨z, hz, he'⟩ := h'.credentials x y hy
    exact ⟨z, hz, he.trans he'⟩
  · obtain ⟨y, hy, he⟩ := h.packages s k hk
    obtain ⟨z, hz, he'⟩ := h'.packages s y hy
    exact ⟨z, hz, he.trans he'⟩

/-- A function that is changed at one point, to what extends the value there. -/
theorem extends_update {α β : Type} [DecidableEq α] {R : β → β → Prop} {f : α → Option β} {x : α} {b : β}
    (refl : ∀ y, R y y) (h : ∀ y, f x = some y → R y b) :
    ∀ z y, f z = some y → ∃ y', Function.update f x (some b) z = some y' ∧ R y y' := by
  intro z y hy
  by_cases hz : z = x
  · subst hz
    exact ⟨b, Function.update_self .., h y hy⟩
  · exact ⟨y, (Function.update_of_ne hz ..).trans hy, refl y⟩

variable {c c' : Catalogue}

theorem Catalogue.extends_setAccount {p : Uuid} {a : Account} (h : ∀ b, c.accounts p = some b → a.githubId = b.githubId) :
    c.Extends (c.setAccount p a) :=
  { Catalogue.Extends.refl c with
    accounts := extends_update (R := fun a a' : Account => a'.githubId = a.githubId) (fun _ => rfl) h }

theorem Catalogue.extends_setCredential {x : String} {t : Credential} (h : ∀ u, c.credentials x = some u → u.Extends t) :
    c.Extends (c.setCredential x t) :=
  { Catalogue.Extends.refl c with credentials := extends_update Credential.Extends.refl h }

theorem Catalogue.extends_setPackage {s : String} {k : Package} (h : ∀ l, c.packages s = some l → l.Extends k) :
    c.Extends (c.setPackage s k) :=
  { Catalogue.Extends.refl c with packages := extends_update Package.Extends.refl h }

/-- A package that is there is replaced. -/
theorem Catalogue.extends_replace {s : String} {k l : Package} (hk : c.packages s = some k) (h : k.Extends l) :
    c.Extends (c.setPackage s l) :=
  extends_setPackage fun m hm => by
    obtain rfl := Option.some.inj (hk.symm.trans hm)
    exact h

theorem Package.extends_publish (k : Package) (r : Release) (now : Timestamp) : k.Extends (k.publish r now) :=
  ⟨rfl, fun _ x hx => ⟨x, by rw [publish, List.getElem?_append_left (List.getElem?_eq_some_iff.mp hx).1, hx], .refl x⟩⟩

theorem Package.extends_withdraw (k : Package) (n : ℤ) (now : Timestamp) : k.Extends (k.withdraw n now) := by
  refine ⟨rfl, fun i r hr => ⟨if (i : ℤ) + 1 = n then { r with withdrawnAt := some now } else r, ?_, ?_⟩⟩
  · simp only [withdraw, numbered, List.getElem?_map, List.getElem?_mapIdx, hr, Option.map_some]
  · by_cases hn : (i : ℤ) + 1 = n
    · rw [if_pos hn]
      exact ⟨⟨rfl, rfl, rfl⟩, fun _ => Option.some_ne_none now⟩
    · rw [if_neg hn]
      exact .refl r

theorem Catalogue.Registers.extends {g : ℤ} {login : String} {name avatar : Option String} {f : Account → Account} {p : Uuid}
    (h : c.Registers g login name avatar f p c') (hf : ∀ a, (f a).githubId = a.githubId) : c.Extends c' := by
  cases h with
  | opened hp _ =>
    refine extends_setAccount fun b hb => ?_
    rw [hp] at hb
    cases hb
  | known hp _ =>
    refine extends_setAccount fun b hb => ?_
    rw [hf, Option.some.inj (hp.symm.trans hb)]

variable {app : AppState} {seen : List Look}

/-- A hash that is free gets a token. -/
theorem Catalogue.Extends.setCredential {x : String} {t : Credential} (h : c.Extends c') (hx : c'.credentials x = none) :
    c.Extends (c'.setCredential x t) :=
  h.trans (Catalogue.extends_setCredential fun u hu => by
    rw [hx] at hu
    cases hu)

theorem Catalogue.Registers.credentials {g : ℤ} {login : String} {name avatar : Option String} {f : Account → Account}
    {p : Uuid} (h : c.Registers g login name avatar f p c') : c'.credentials = c.credentials := by
  cases h <;> rfl

/-- What a request is for takes nothing away. -/
theorem Acts.extends {req : Request} {reply : Reply} (h : Acts app seen c req reply c') : c.Extends c' := by
  cases h with
  | created _ _ _ hnone =>
    refine Catalogue.extends_setPackage fun l hl => ?_
    rw [hnone] at hl
    cases hl
  | published hk => exact Catalogue.extends_replace hk (Package.extends_publish _ _ _)
  | amended hk | unlisted hk | recorded hk | forgot hk | badged _ hk =>
    exact Catalogue.extends_replace hk ⟨rfl, fun _ r hr => ⟨r, hr, .refl r⟩⟩
  | @renamed _ _ _ a _ ha _ | @blocked _ _ _ _ a _ _ ha _ =>
    refine Catalogue.extends_setAccount fun b hb => ?_
    show a.githubId = b.githubId
    rw [Option.some.inj (ha.symm.trans hb)]
  | enrolled _ _ _ _ hnone => exact (Catalogue.Extends.refl c).setCredential hnone
  | issued _ _ henter hnone =>
    have henter : c.Registers _ _ _ _ _ _ _ := henter
    exact (henter.extends fun _ => rfl).setCredential (henter.credentials ▸ hnone)

theorem Desk.Step.extends {d d' : Desk} (h : d.Step app d') : d.catalogue.Extends d'.catalogue := by
  cases h with
  | arrives => exact .refl _
  | attends _ _ _ hl ht =>
    rw [← hl]
    cases ht with
    | looks hq | leaves hq | replies hq _ =>
      rw [hq]
      exact .refl _
    | acts _ ha => exact ha.extends
    | signsIn _ _ _ hs _ => exact Catalogue.Registers.extends hs fun _ => rfl
  | withdraws hk => exact Catalogue.extends_replace hk (Package.extends_withdraw _ _ _)
  | revokes ht =>
    refine Catalogue.extends_setCredential fun u hu => ?_
    obtain rfl := Option.some.inj (ht.symm.trans hu)
    exact ⟨⟨rfl, rfl⟩, fun _ => Option.some_ne_none _⟩
  | idles => exact .refl _

/-- **Nothing is ever taken out of the catalogue**, whatever the desk does. -/
theorem Desk.extends {d d' : Desk} (h : Relation.ReflTransGen (Desk.Step app) d d') : d.catalogue.Extends d'.catalogue := by
  induction h with
  | refl => exact .refl _
  | tail _ hst ih => exact ih.trans hst.extends

/-! ### Who is behind it -/

/-- What only certain requests can bring about. -/
inductive Fact
  | release (slug : String) (i : ℕ) (owner : Uuid) (yaml : String) (changelog : Option String)
  | credential (hash : String) (holder : Uuid) (label : String)
  | badge (slug : String)
  | block (githubId : ℤ)

/-- The catalogue says so. -/
def Catalogue.Has (c : Catalogue) : Fact → Prop
  | .release slug i owner yaml changelog => ∃ k r, c.packages slug = some k ∧ k.owner = owner ∧ k.releases[i]? = some r ∧
      r.yaml = yaml ∧ r.changelog = changelog
  | .credential x holder label => ∃ t, c.credentials x = some t ∧ t.holder = holder ∧ t.label = label
  | .badge slug => ∃ k, c.packages slug = some k ∧ k.official = true
  | .block g => ∃ p a, c.accounts p = some a ∧ a.githubId = g ∧ a.blockedAt ≠ none

/-- The request has brought it about, and is answered accordingly. -/
inductive Behind (app : AppState) : Caller → Fact → Prop
  | created {h : HeaderMap} {body : CreateWorkflow} {seen : List Look} {left : Bool} {p : Uuid} : Admitted app seen h p →
      Behind app ⟨.create h body, seen, some (.ok (.published body.slug 1)), left⟩
        (.release body.slug 0 p body.yaml body.changelog)
  | published {h : HeaderMap} {slug : String} {body : PublishVersion} {seen : List Look} {left : Bool} {p : Uuid} {i : ℕ} :
      Admitted app seen h p → Behind app ⟨.publishVersion h slug body, seen, some (.ok (.published slug (i + 1))), left⟩
        (.release slug i p body.yaml body.changelog)
  | enrolled {h : HeaderMap} {body : PollRequest} {site : Site} {clock : DateTime} {bytes : Vector UInt8 tokenBytes}
      {user : GitHubUser} {p : Uuid} {seen : List Look} {left : Bool} : Enrolls app body site clock user →
      (∃ l ∈ seen, ∃ a, l.before.accounts p = some a ∧ a.githubId = user.id) →
      Behind app ⟨.poll h body site clock bytes, seen, some (.ok (.enrolled (generateToken bytes) p user.login)), left⟩
        (.credential (hashToken app.sha256 (generateToken bytes)) p tokenName)
  | issued {h : HeaderMap} {body : IssueToken} {bytes : Vector UInt8 tokenBytes} {p : Uuid} {seen : List Look}
      {left : Bool} : Admin.fromRequestParts app h = .ok () →
      Behind app ⟨.issueToken h body bytes, seen, some (.ok (.issued ⟨p, body.githubLogin, body.name, generateToken bytes⟩)), left⟩
        (.credential (hashToken app.sha256 (generateToken bytes)) p body.name)
  | badged {h : HeaderMap} {slug : String} {seen : List Look} {left : Bool} : Admin.fromRequestParts app h = .ok () →
      Behind app ⟨.setOfficial h slug true, seen, some (.ok (.official slug true)), left⟩ (.badge slug)
  | blocked {h : HeaderMap} {g : ℤ} {seen : List Look} {left : Bool} : Admin.fromRequestParts app h = .ok () →
      Behind app ⟨.setBlocked h g true, seen, some (.ok (.blocked g true)), left⟩ (.block g)

theorem Behind.answered {v : Caller} {f : Fact} (h : Behind app v f) : v.answer ≠ none := by
  cases h <;> exact Option.some_ne_none _

/-- A value after a change is the new one, or one of before. -/
theorem of_update_some {α β : Type} [DecidableEq α] {f : α → Option β} {x y : α} {b b' : β}
    (h : Function.update f x (some b) y = some b') : y = x ∧ b' = b ∨ f y = some b' := by
  by_cases hy : y = x
  · subst hy
    rw [Function.update_self] at h
    exact .inl ⟨rfl, (Option.some.inj h).symm⟩
  · rw [Function.update_of_ne hy] at h
    exact .inr h

section Has

variable {f : Fact} {s x : String} {k l : Package} {p : Uuid} {a b : Account} {t : Credential}

/-- What a new account, token or package can be the cause of. -/
theorem Catalogue.has_setAccount (h : (c.setAccount p a).Has f) : c.Has f ∨ f = .block a.githubId ∧ a.blockedAt ≠ none := by
  cases f with
  | block g =>
    obtain ⟨q, b, hb, rfl, hbl⟩ := h
    rcases of_update_some hb with ⟨-, rfl⟩ | hb
    · exact .inr ⟨rfl, hbl⟩
    · exact .inl ⟨q, b, hb, rfl, hbl⟩
  | _ => exact .inl h

/-- An account that is blocked no more than before. -/
theorem Catalogue.has_replaceAccount (h : (c.setAccount p a).Has f) (ha : c.accounts p = some b)
    (hg : a.githubId = b.githubId) (hb : a.blockedAt = b.blockedAt) : c.Has f := by
  rcases has_setAccount h with h | ⟨rfl, hbl⟩
  · exact h
  · exact ⟨p, b, ha, hg.symm, hb ▸ hbl⟩

theorem Catalogue.has_setCredential (h : (c.setCredential x t).Has f) : c.Has f ∨ f = .credential x t.holder t.label := by
  cases f with
  | credential y holder label =>
    obtain ⟨u, hu, rfl, rfl⟩ := h
    rcases of_update_some hu with ⟨rfl, rfl⟩ | hu
    · exact .inr rfl
    · exact .inl ⟨u, hu, rfl, rfl⟩
  | _ => exact .inl h

theorem Catalogue.has_setPackage (h : (c.setPackage s k).Has f) : c.Has f ∨
    (∃ i r, k.releases[i]? = some r ∧ f = .release s i k.owner r.yaml r.changelog) ∨ f = .badge s ∧ k.official = true := by
  cases f with
  | release slug i owner yaml changelog =>
    obtain ⟨m, r, hm, rfl, hr, rfl, rfl⟩ := h
    rcases of_update_some hm with ⟨rfl, rfl⟩ | hm
    · exact .inr (.inl ⟨i, r, hr, rfl⟩)
    · exact .inl ⟨m, r, hm, rfl, hr, rfl, rfl⟩
  | badge slug =>
    obtain ⟨m, hm, ho⟩ := h
    rcases of_update_some hm with ⟨rfl, rfl⟩ | hm
    · exact .inr (.inr ⟨rfl, ho⟩)
    · exact .inl ⟨m, hm, ho⟩
  | _ => exact .inl h

/-- A package with the releases it had, and no badge it had not. -/
theorem Catalogue.has_replacePackage (h : (c.setPackage s k).Has f) (hk : c.packages s = some l) (ho : k.owner = l.owner)
    (hr : ∀ (i : ℕ) (r : Release), k.releases[i]? = some r →
      ∃ r', l.releases[i]? = some r' ∧ r'.yaml = r.yaml ∧ r'.changelog = r.changelog)
    (hb : k.official = true → l.official = true) : c.Has f := by
  rcases has_setPackage h with h | ⟨i, r, hi, rfl⟩ | ⟨rfl, hof⟩
  · exact h
  · obtain ⟨r', hr', hy, hc⟩ := hr i r hi
    exact ⟨l, r', hk, ho.symm, hr', hy, hc⟩
  · exact ⟨l, hk, hb hof⟩

theorem Catalogue.Registers.has {g : ℤ} {login : String} {name avatar : Option String} {e : Account → Account}
    (hreg : c.Registers g login name avatar e p c') (he : ∀ a, (e a).githubId = a.githubId ∧ (e a).blockedAt = a.blockedAt)
    (h : c'.Has f) : c.Has f := by
  cases hreg with
  | opened hnone _ => exact (has_setAccount h).resolve_right fun hr => hr.2 rfl
  | known ha _ => exact has_replaceAccount h ha (he _).1 (he _).2

/-- What is new after an act, the request is behind. -/
theorem Acts.has {v : Caller} {l : Look} {reply : Reply} (h : Acts app (v.seen ++ [l]) l.before v.req reply l.after)
    (hf : l.after.Has f) : l.before.Has f ∨ Behind app { v.look l with answer := some (.ok reply) } f := by
  obtain ⟨req, seen, answer, left⟩ := v
  obtain ⟨c, c', env, refusal⟩ := l
  dsimp only [Caller.look] at h hf ⊢
  have same : ∀ {k : Package} (i : ℕ) (r : Release), k.releases[i]? = some r →
      ∃ r', k.releases[i]? = some r' ∧ r'.yaml = r.yaml ∧ r'.changelog = r.changelog := fun i r hr => ⟨r, hr, rfl, rfl⟩
  cases h with
  | created hadm _ _ _ =>
    rcases Catalogue.has_setPackage hf with hf | ⟨i, r, hi, rfl⟩ | ⟨-, hof⟩
    · exact .inl hf
    · rw [List.getElem?_singleton, Option.ite_none_right_eq_some] at hi
      obtain ⟨rfl, rfl⟩ : i = 0 ∧ _ = r := ⟨hi.1, Option.some.inj hi.2⟩
      exact .inr (.created hadm)
    · cases hof
  | @published _ _ _ k _ hk hadm _ =>
    rcases Catalogue.has_setPackage hf with hf | ⟨i, r, hi, rfl⟩ | ⟨rfl, hof⟩
    · exact .inl hf
    · by_cases hlt : i < k.releases.length
      · rw [Package.publish, List.getElem?_append_left hlt] at hi
        exact .inl ⟨k, r, hk, rfl, hi, rfl, rfl⟩
      · rw [Package.publish, List.getElem?_append_right (Nat.le_of_not_lt hlt), List.getElem?_singleton,
          Option.ite_none_right_eq_some] at hi
        obtain ⟨rfl, rfl⟩ : i = k.releases.length ∧ _ = r := ⟨by omega, Option.some.inj hi.2⟩
        exact .inr (.published hadm)
    · exact .inl ⟨k, hk, hof⟩
  | amended hk | unlisted hk | recorded hk | forgot hk => exact .inl (Catalogue.has_replacePackage hf hk rfl same id)
  | renamed _ ha _ => exact .inl (Catalogue.has_replaceAccount hf ha rfl rfl)
  | @enrolled _ _ _ _ _ _ p a henr _ ha hg _ =>
    rcases Catalogue.has_setCredential hf with hf | rfl
    · exact .inl hf
    · exact .inr (.enrolled henr ⟨_, List.mem_append_right _ (List.mem_singleton.mpr rfl), a, ha, hg⟩)
  | issued hop _ henter _ =>
    rcases Catalogue.has_setCredential hf with hf | rfl
    · exact .inl (Catalogue.Registers.has henter (fun _ => ⟨rfl, rfl⟩) hf)
    · exact .inr (.issued hop)
  | @badged _ _ value k hop hk =>
    rcases Catalogue.has_setPackage hf with hf | ⟨i, r, hi, rfl⟩ | ⟨rfl, hof⟩
    · exact .inl hf
    · exact .inl ⟨k, r, hk, rfl, hi, rfl, rfl⟩
    · obtain rfl : value = true := hof
      exact .inr (.badged hop)
  | @blocked _ _ value _ a _ hop ha hg =>
    rcases Catalogue.has_setAccount hf with hf | ⟨rfl, hbl⟩
    · exact .inl hf
    · obtain rfl : value = true := by
        by_contra hv
        exact hbl (if_neg hv)
      subst hg
      exact .inr (.blocked hop)

/-- What is new after a step has come with the answer to a request that had none. -/
theorem Desk.Step.has {d d' : Desk} (h : d.Step app d') (hf : d'.catalogue.Has f) : d.catalogue.Has f ∨
    ∃ (r : ℕ) (u v : Caller), d.callers[r]? = some u ∧ u.answer = none ∧ d'.callers[r]? = some v ∧ Behind app v f := by
  cases h with
  | arrives => exact .inl hf
  | @attends r v v' l hv hnone _ hl ht =>
    rw [← hl]
    cases ht with
    | looks hq | leaves hq | replies hq _ => exact .inl (hq ▸ hf)
    | acts _ ha =>
      refine (ha.has hf).imp_right fun hb => ⟨r, v, _, hv, hnone, ?_, hb⟩
      exact List.getElem?_set_self (List.getElem?_eq_some_iff.mp hv).1
    | signsIn _ _ _ hs _ => exact .inl (Catalogue.Registers.has hs (fun _ => ⟨rfl, rfl⟩) hf)
  | @withdraws _ k n now hk =>
    refine .inl (Catalogue.has_replacePackage hf hk rfl (fun i r hi => ?_) id)
    obtain ⟨e, he, rfl⟩ := Option.map_eq_some_iff.mp ((List.getElem?_map ..).symm.trans hi)
    rw [Package.numbered, List.getElem?_mapIdx, Option.map_eq_some_iff] at he
    obtain ⟨r', hr', rfl⟩ := he
    refine ⟨r', hr', ?_⟩
    split <;> exact ⟨rfl, rfl⟩
  | revokes ht =>
    rcases Catalogue.has_setCredential hf with hf | rfl
    · exact .inl hf
    · exact .inl ⟨_, ht, rfl, rfl⟩
  | idles => exact .inl hf

/-- Who has been answered stays so. -/
theorem Desk.Step.caller {d d' : Desk} (h : d.Step app d') {r : ℕ} {v : Caller} (hv : d.callers[r]? = some v)
    (ha : v.answer ≠ none) : d'.callers[r]? = some v := by
  cases h with
  | arrives => exact (List.getElem?_append_left (List.getElem?_eq_some_iff.mp hv).1).trans hv
  | @attends i u u' l hu hnone _ _ _ =>
    have hir : i ≠ r := by
      rintro rfl
      rw [Option.some.inj (hu.symm.trans hv)] at hnone
      exact ha hnone
    exact (List.getElem?_set_ne hir).trans hv
  | withdraws | revokes | idles => exact hv

theorem Desk.caller {d d' : Desk} (h : Relation.ReflTransGen (Desk.Step app) d d') {r : ℕ} {v : Caller}
    (hv : d.callers[r]? = some v) (ha : v.answer ≠ none) : d'.callers[r]? = some v := by
  induction h with
  | refl => exact hv
  | tail _ hst ih => exact hst.caller ih ha

/-- **Somebody is behind everything**: a release, a token, a badge or a block that was
not there at first has come with the answer to a request, of its owner or of the
operator, that had none at first. -/
theorem Desk.accounted {d d' : Desk} (h : Relation.ReflTransGen (Desk.Step app) d d') (hf : d'.catalogue.Has f) :
    d.catalogue.Has f ∨ ∃ (r : ℕ) (v : Caller), d'.callers[r]? = some v ∧
      (∀ u, d.callers[r]? = some u → u.answer = none) ∧ Behind app v f := by
  induction h with
  | refl => exact .inl hf
  | tail hrun hst ih =>
    rcases hst.has hf with hf | ⟨r, u, v, hu, hnone, hv, hb⟩
    · refine (ih hf).imp_right ?_
      rintro ⟨r, v, hv, hfirst, hb⟩
      exact ⟨r, v, hst.caller hv hb.answered, hfirst, hb⟩
    · refine .inr ⟨r, v, hv, fun w hw => ?_, hb⟩
      by_contra ha
      rw [Option.some.inj ((Desk.caller hrun hw ha).symm.trans hu)] at ha
      exact ha hnone

end Has

end HarnessRegistry

/-
# What an answer is grounded in

A request meets the database at its moves, and at no other time. Its answer is
grounded in what it met and in what came of it: `Grounds` lists, answer by answer,
what must have held, and at which of the moments. Most answers are grounded in the
last one, which is when they are given. A 404 says what was not there then, a
listing what was, and nothing was committed there (`Lastly`); a 500 is the error
that the last move came back with (`Failed`), a 409 the clash of its keys, and a
success the effect of what it has committed (`AtLast`). That the caller was let in,
or stayed under the cap, is from an earlier one (`Once`).

Key definitions: `Once`, `AtLast`, `Lastly`, `Failed`, `Admission`, `Merits`, `Grounds`.
Key theorems: `Handler.over_run`, `Handler.over_runTx`.
-/
import HarnessRegistry.Reads
import HarnessRegistry.Buckets
import HarnessRegistry.Cap
import HarnessRegistry.Identity
import HarnessRegistry.Txn.Moments

namespace HarnessRegistry

open Txn

/-! ### Grounds -/

/-- The moments of one request. -/
abbrev Moments := List (Moment registry)

/-- At one of the moments, which went well. -/
def Once (ms : Moments) (P : Env → Db → Prop) : Prop :=
  ∃ m ∈ ms, ∃ env, m.choice = .go env ∧ m.refusal = none ∧ P env m.db

/-- At the last of them, which came back with this and committed that. -/
def AtLast (ms : Moments) (refusal : Option SqlError) (ws : List Write) (P : Env → Db → Prop) : Prop :=
  ∃ env db, ms.getLast? = some ⟨db, .go env, refusal, ws⟩ ∧ P env db

/-- At the last of them, which went well and committed nothing. -/
abbrev Lastly (ms : Moments) (P : Env → Db → Prop) : Prop := AtLast ms none [] P

/-- The last of them failed. -/
def Failed (ms : Moments) (e : SqlError) : Prop := ∃ m, ms.getLast? = some m ∧ m.refusal = some e ∧ m.writes = []

/-- The upsert of a sign-in, and the account as it is then. -/
def SignIn (db : Db) (user : GitHubUser) (p : Uuid) (x : Write) (blockedAt : Option Timestamp) : Prop :=
  registry.Fresh [x] db ∧ Upserts.enroll user db p x ∧ ∃ r ∈ (x.apply db).publishers, r.id = p ∧ r.blockedAt = blockedAt

/-- One of the moments was that upsert, and the account was not blocked. -/
def SignedIn (ms : Moments) (user : GitHubUser) (p : Uuid) : Prop :=
  ∃ m ∈ ms, ∃ x, m.writes = [x] ∧ SignIn m.db user p x none

/-- A token that is not revoked, and the publisher whose token it is. -/
def Db.Live (db : Db) (hash : String) (p : PublisherRow) : Prop :=
  p ∈ db.publishers ∧ ∃ t ∈ db.tokens, t.tokenHash = hash ∧ t.revokedAt = none ∧ t.publisherId = p.id

/-- What comes before a handler: the limiter, the token, the operator's secret. -/
structure Admission (app : AppState) (ms : Moments) (req : Request) : Prop where
  limiter : ∀ l h, req.limited? = some (l, h) → Once ms fun env _ => env.admits l (clientKey h none) = true
  publisher : ∀ h, req.publisher? = some h → ∃ token, bearer h = some token ∧
    Once ms fun _ db => ∃ p, db.Live (hashToken app.sha256 token) p ∧ p.blockedAt = none
  operator : ∀ h, req.admin? = some h → Admin.fromRequestParts app h = .ok ()

/-- What a handler checks of the request itself. -/
def Request.checks (app : AppState) : Request → Except Error Unit
  | .create _ body => body.validate app.config.maxYamlBytes
  | .publishVersion _ _ body => body.validate app.config.maxYamlBytes
  | .update _ _ body => body.validate
  | .updateMe _ body => match body.displayName.map trim with
    | none => .ok ()
    | some n => if n.toList.length > 60 then .error (.badRequest "display name is too long") else .ok ()
  | .issueToken _ body _ => if (trim body.name).isEmpty then .error (.badRequest "name is required") else .ok ()
  | _ => .ok ()

/-- The slug that a request looks up whoever owns it. -/
def Request.looksUp? : Request → Option String
  | .versions slug | .versionDocument slug _ | .record _ slug _ | .forget _ slug _ | .setOfficial _ slug _ => some slug
  | _ => none

/-- The last step of a sign-in. -/
def Request.polls : Request → Bool
  | .poll .. => true
  | _ => false

/-- The version that a request asks after. -/
def Request.version? : Request → Option (String × ℤ)
  | .versionDocument slug version => some (slug, version)
  | .record _ slug body => some (slug, body.version)
  | _ => none

/-- The `now()` of a write. -/
def Write.date : Write → Option Timestamp
  | .setBlockedAt _ at_ => at_
  | .insertWorkflow row => some row.updatedAt
  | .insertVersion row => some row.publishedAt
  | .insertInstall row => some row.lastSeenAt
  | .touchToken _ now | .relist _ now | .amend _ _ _ _ now | .unlist _ now | .refreshInstall _ _ _ now
  | .withdrawVersion _ _ now | .revokeToken _ now => some now
  | _ => none

/-- It is the clock at one of the moments. -/
def Dated (ms : Moments) (w : Write) : Prop :=
  ∀ now, w.date = some now → ∃ m ∈ ms, ∃ env, m.choice = .go env ∧ env.now = now

/-- Answers to requests that were let in. -/
inductive Merits (app : AppState) (ms : Moments) : Request → Except Error Reply → Prop
  | invalid {req : Request} {e : Error} : req.checks app = .error e → Merits app ms req (.error e)
  | atCap {h : HeaderMap} {body : CreateWorkflow} {p : Uuid} {held : ℕ} :
      Lastly ms (fun _ db => Holder app db h p ∧ db.listed p = held) → 0 < app.config.maxWorkflowsPerPublisher →
      app.config.maxWorkflowsPerPublisher ≤ held →
      Merits app ms (.create h body) (.error (.forbidden s!"this account already has {held} workflows in the library, which is the limit of {app.config.maxWorkflowsPerPublisher}"))
  /-- Or the id drawn for the row was taken. -/
  | slugTaken {h : HeaderMap} {body : CreateWorkflow} :
      AtLast ms (some .uniqueViolation) [] (fun env db => ∃ w ∈ db.workflows, w.slug = body.slug ∨ w.id = env.uuid) →
      Merits app ms (.create h body) (.error (.conflict "that slug is already taken"))
  | notTheirs {req : Request} {h : HeaderMap} {slug : String} {p : Uuid} : req.changes = some (h, slug) →
      Lastly ms (fun _ db => Holder app db h p ∧ ∀ w ∈ db.workflows, w.slug = slug → w.publisherId ≠ p) →
      Merits app ms req (.error (.notFound "workflow"))
  /-- The number that was next is in use by now. -/
  | overtaken {h : HeaderMap} {slug : String} {body : PublishVersion} {n : ℤ} :
      Once ms (fun _ db => ∃ w ∈ db.workflows, w.slug = slug ∧ db.Numbered w.id (n - 1)) →
      AtLast ms (some .uniqueViolation) [] (fun _ db => ∃ w ∈ db.workflows, w.slug = slug ∧ db.published w.id n) →
      Merits app ms (.publishVersion h slug body) (.error (.conflict "a concurrent publish took that version; retry"))
  | unknownWorkflow {req : Request} {slug : String} : req.looksUp? = some slug →
      Lastly ms (fun _ db => ∀ w ∈ db.workflows, w.slug ≠ slug) → Merits app ms req (.error (.notFound "workflow"))
  | notListed {slug : String} : Lastly ms (fun _ db => ∀ w ∈ db.workflows, w.slug = slug → w.unlistedAt ≠ none) →
      Merits app ms (.detail slug) (.error (.notFound "workflow"))
  | unknownVersion {req : Request} {slug : String} {n : ℤ} : req.version? = some (slug, n) →
      Lastly ms (fun _ db => ∃ w ∈ db.workflows, w.slug = slug ∧ ¬ db.published w.id n) →
      Merits app ms req (.error (.notFound "version"))
  | unknownInstall {h : HeaderMap} {slug : String} {i : Uuid} :
      Lastly ms (fun _ db => ∃ w ∈ db.workflows, w.slug = slug ∧
        ∀ x ∈ db.installs, ¬ (x.workflowId = w.id ∧ x.installationId = i)) →
      Merits app ms (.forget h slug i) (.error (.notFound "install"))
  | unknownPublisher {h : HeaderMap} {g : ℤ} {value : Bool} : Lastly ms (fun _ db => ∀ p ∈ db.publishers, p.githubId ≠ g) →
      Merits app ms (.setBlocked h g value) (.error (.notFound "publisher"))
  | notStarted {h : HeaderMap} {site : Site} {e : Error} : (github app >>= fun g => g.start site) = .error e →
      Merits app ms (.start h site) (.error e)
  | notEnrolled {h : HeaderMap} {body : PollRequest} {site : Site} {clock : DateTime} {bytes : Vector UInt8 tokenBytes}
      {e : Error} : verdict app body site clock = .refused e → Merits app ms (.poll h body site clock bytes) (.error e)
  /-- The account has been brought up to date all the same. -/
  | blockedAccount {h : HeaderMap} {body : PollRequest} {site : Site} {clock : DateTime}
      {bytes : Vector UInt8 tokenBytes} {user : GitHubUser} {p : Uuid} {x : Write} {at_ : Timestamp} :
      Enrolls app body site clock user → AtLast ms none [x] (fun _ db => SignIn db user p x (some at_)) →
      Merits app ms (.poll h body site clock bytes) (.error (.forbidden "publisher is blocked"))
  | collision {h : HeaderMap} {body : IssueToken} {bytes : Vector UInt8 tokenBytes} :
      AtLast ms (some .uniqueViolation) [] (fun _ db => ∃ t ∈ db.tokens, t.tokenHash = hashToken app.sha256 (generateToken bytes)) →
      Merits app ms (.issueToken h body bytes) (.error (.conflict "token collision; retry"))
  | page {params : ListParams} {rows : List WorkflowSummary} : Lastly ms (fun env db =>
      rows = (((db.listing env params.query).drop params.query.offset.toNat).take params.query.limit.toNat).map Prod.snd) →
      Merits app ms (.list params) (.ok (.summaries rows))
  | summary {slug : String} {row : WorkflowSummary} : Lastly ms (fun env db =>
      ∃ w ∈ db.workflows, w.slug = slug ∧ w.unlistedAt = none ∧ db.summary env.now w = some row) →
      Merits app ms (.detail slug) (.ok (.summary row))
  | versions {slug : String} {rows : List VersionSummary} : Lastly ms (fun _ db =>
      ∃ w ∈ db.workflows, w.slug = slug ∧ rows = (db.versionsOf w.id).map (·.summary)) →
      Merits app ms (.versions slug) (.ok (.versions rows))
  | document {slug : String} {n : ℤ} {doc : VersionDocument} : Lastly ms (fun _ db =>
      ∃ w ∈ db.workflows, w.slug = slug ∧ ∃ v ∈ db.versionsOf w.id, v.version = n ∧ doc = v.document slug) →
      Merits app ms (.versionDocument slug n) (.ok (.document doc))
  | profile {h : HeaderMap} {me : Me} : Lastly ms (fun _ db => ∃ r ∈ db.publishers, Holder app db h r.id ∧ me = r.me) →
      Merits app ms (.me h) (.ok (.me me))
  | offered : Merits app ms .available (.ok (.enrollment app.github.isSome))
  | started {h : HeaderMap} {site : Site} {flow : DeviceFlow} : (github app >>= fun g => g.start site) = .ok flow →
      Merits app ms (.start h site) (.ok (.flow flow))
  | unfinished {h : HeaderMap} {body : PollRequest} {site : Site} {clock : DateTime} {bytes : Vector UInt8 tokenBytes}
      {status : String} : verdict app body site clock = .unfinished status →
      Merits app ms (.poll h body site clock bytes) (.ok (.status status))
  /-- Under the cap when it was checked. -/
  | created {h : HeaderMap} {body : CreateWorkflow} {ws : List Write} {reply : Reply} :
      (0 < app.config.maxWorkflowsPerPublisher →
        Once ms fun _ db => ∃ p, Holder app db h p ∧ (db.listed p : ℤ) < app.config.maxWorkflowsPerPublisher) →
      AtLast ms none ws (fun _ db => Effect app (.create h body) db ws reply ∧ registry.Fresh ws db) →
      Merits app ms (.create h body) (.ok reply)
  /-- The account was there, and not blocked, when it was brought up to date. -/
  | enrolled {h : HeaderMap} {body : PollRequest} {site : Site} {clock : DateTime} {bytes : Vector UInt8 tokenBytes}
      {user : GitHubUser} {p : Uuid} {ws : List Write} : Enrolls app body site clock user → SignedIn ms user p →
      AtLast ms none ws (fun _ db => Effect app (.poll h body site clock bytes) db ws
        (.enrolled (generateToken bytes) p user.login) ∧ registry.Fresh ws db) →
      Merits app ms (.poll h body site clock bytes) (.ok (.enrolled (generateToken bytes) p user.login))
  | effect {req : Request} {ws : List Write} {reply : Reply} : req.creates = false → req.polls = false →
      AtLast ms none ws (fun _ db => Effect app req db ws reply ∧ registry.Fresh ws db) → Merits app ms req (.ok reply)

/-- The grounds of an answer, in the moments of its request. -/
inductive Grounds (app : AppState) (ms : Moments) : Request → Except Error Reply → Prop
  /-- The last move went wrong. -/
  | fault {req : Request} {e : SqlError} : Failed ms e → Grounds app ms req (.error (.database e))
  | throttled {req : Request} {l : Limiter} {h : HeaderMap} : req.limited? = some (l, h) →
      Lastly ms (fun env _ => env.admits l (clientKey h none) = false) → Grounds app ms req (.error .tooManyRequests)
  | anonymous {req : Request} {h : HeaderMap} : req.publisher? = some h → bearer h = none →
      Grounds app ms req (.error .unauthorized)
  | unknownToken {req : Request} {h : HeaderMap} {token : String} : req.publisher? = some h → bearer h = some token →
      Lastly ms (fun _ db => ∀ p, ¬ db.Live (hashToken app.sha256 token) p) → Grounds app ms req (.error .unauthorized)
  | blocked {req : Request} {h : HeaderMap} {token : String} : req.publisher? = some h → bearer h = some token →
      Lastly ms (fun _ db => ∃ p, db.Live (hashToken app.sha256 token) p ∧ p.blockedAt ≠ none) →
      Grounds app ms req (.error (.forbidden "publisher is blocked"))
  | notOperator {req : Request} {h : HeaderMap} {e : Error} : req.admin? = some h →
      Admin.fromRequestParts app h = .error e → Grounds app ms req (.error e)
  | merits {req : Request} {out : Except Error Reply} : Admission app ms req → Merits app ms req out →
      Grounds app ms req out

theorem exec_date {env : Env} {db : Db} {q : Stmt} {a : q.Res} {ws : List Write} (h : q.exec env db = .ok (a, ws)) :
    ∀ w ∈ ws, ∀ now, w.date = some now → env.now = now := by
  have h := run_of_exec h
  intro w hw now hd
  cases q with
  | touchToken | relist | amend | unlist =>
    simp only [Stmt.run, Except.ok.injEq] at h
    obtain ⟨-, rfl⟩ := Prod.mk.inj h
    unfold ifFound at hw
    split at hw
    · cases hw
    · rw [List.mem_singleton.mp hw] at hd
      exact Option.some.inj hd
  | setBlocked g value =>
    simp only [Stmt.run] at h
    split at h <;> cases h
    · cases hw
    · rw [List.mem_singleton.mp hw] at hd
      cases value with
      | true => exact Option.some.inj hd
      | false => cases hd
  | upsertInstall | insertWorkflow | insertVersion =>
    simp only [Stmt.run] at h
    split at h <;> cases h
    all_goals
      rw [List.mem_singleton.mp hw] at hd
      exact Option.some.inj hd
  | setDisplayName | enrollPublisher | issuePublisher | insertToken | setOfficial | deleteInstall =>
    -- nothing of these is dated
    simp only [Stmt.run] at h
    repeat' split at h
    all_goals cases h
    all_goals first
      | cases hw; done
      | rw [List.mem_singleton.mp hw] at hd
        cases hd
  | _ =>
    obtain rfl := run_reads rfl h
    cases hw

/-- **What a request commits is dated by one of its moments.** -/
theorem over_dated {R : Rule registry} {p p' : Prog registry (Except Error Reply)} {db : Db} {ms : Moments}
    (h : p.Over R none [] db ms p') : ∀ m ∈ ms, ∀ w ∈ m.writes, Dated ms w := by
  intro m hm w hw now hd
  obtain ⟨m', hm', env, hc, hmark⟩ := (h.marked (fun (env : Env) (w : Write) => ∀ now, w.date = some now → env.now = now)
    (fun _ _ _ _ _ hx => exec_date hx) (fun _ _ _ h => .inl h) m hm w hw).resolve_right fun ⟨x, hx, _⟩ => by cases hx
  exact ⟨m', hm', env, hc, hmark now hd⟩

/-! ### Handlers over their moments -/

namespace Handler

variable {α β : Type} {R : Rule registry} {x : Tx registry} {done : List Write} {db : Db} {all ms : Moments} {q : Stmt}
  {f : SqlError → Error} {g : q.Res → Handler β} {out : Except Error β}

/-- The handler comes to the outcome over these moments. -/
def Over (R : Rule registry) (m : Handler α) (tx : Option (Tx registry)) (done : List Write) (db : Db) (ms : Moments)
    (out : Except Error α) : Prop := Prog.Over R m.run tx done db ms (.ret out)

/-- A move that was carried out, what came of it, and the moments after it, among
all of them. -/
structure Met (R : Rule registry) (all : Moments) (db : Db) (env : Env) (db' : Db) (refusal : Option SqlError)
    (ws : List Write) (rest : Moments) : Prop where
  rely : R.rely db db'
  inv : R.inv db'
  mem : (⟨db', .go env, refusal, ws⟩ : Moment registry) ∈ all
  suffix : rest <:+ all
  last : rest = [] → all.getLast? = some ⟨db', .go env, refusal, ws⟩

theorem Met.once {env : Env} {db' : Db} {ws : List Write} {rest : Moments} (h : Met R all db env db' none ws rest)
    {P : Env → Db → Prop} (hp : P env db') : Once all P := ⟨_, h.mem, env, rfl, rfl, hp⟩

theorem Met.atLast {env : Env} {db' : Db} {refusal : Option SqlError} {ws : List Write}
    (h : Met R all db env db' refusal ws []) {P : Env → Db → Prop} (hp : P env db') : AtLast all refusal ws P :=
  ⟨env, db', h.last rfl, hp⟩

theorem last_of_suffix {m : Moment registry} (hs : [m] <:+ all) : all.getLast? = some m := by
  obtain ⟨pre, rfl⟩ := hs
  rw [List.getLast?_append]
  rfl

theorem met {env : Env} {db' : Db} {refusal : Option SqlError} {ws : List Write} {rest : Moments}
    (hs : ⟨db', .go env, refusal, ws⟩ :: rest <:+ all) (hr : R.rely db db') (hi : R.inv db') :
    Met R all db env db' refusal ws rest :=
  ⟨hr, hi, hs.subset List.mem_cons_self, (List.suffix_cons _ rest).trans hs, fun he => last_of_suffix (he ▸ hs)⟩

theorem failed_of_suffix {c : Choice registry} {db' : Db} {e : SqlError} (hs : [⟨db', c, some e, []⟩] <:+ all) : Failed all e :=
  ⟨_, last_of_suffix hs, rfl, rfl⟩

theorem over_pure {tx : Option (Tx registry)} {a : β} (h : Over R (pure a) tx done db ms out) : ms = [] ∧ out = .ok a := by
  cases h
  exact ⟨rfl, rfl⟩

theorem over_throw {tx : Option (Tx registry)} {e : Error} (h : Over R (throw e : Handler β) tx done db ms out) :
    ms = [] ∧ out = .error e := by
  cases h
  exact ⟨rfl, rfl⟩

theorem over_check {tx : Option (Tx registry)} {l : Limiter} {key : String} {g : Bool → Handler β} (hs : ms <:+ all)
    (h : Over R (check l key >>= g) tx done db ms out) :
    ∃ env db' rest, Met R all db env db' none [] rest ∧ Over R (g (env.admits l key)) tx done db' rest out := by
  change Prog.Over R (Prog.ask (S := registry) (l, key) fun b => (g b).run) tx done db ms (.ret out) at h
  cases h with
  | asked hr hi hk => exact ⟨_, _, _, met hs hr hi, hk⟩

/-- A statement is refused for a text that it has, or for what it finds. -/
theorem run_of_refused {env : Env} {e : SqlError} (h : q.exec env db = .error e) : e = .other ∨ q.run env db = .error e := by
  unfold Stmt.exec at h
  split at h
  · cases h
    exact .inl rfl
  · exact .inr h

/-- A statement with `?` behind it: the handler ends there, or goes on. -/
theorem over_run (hs : ms <:+ all) (h : Over R (queryOr q f >>= g) none done db ms out) :
    (∃ e, out = .error (f e) ∧ Failed all e ∧ (e = .other ∨
      ∃ env db', Met R all db env db' (some e) [] [] ∧ q.run env db' = .error e)) ∨
    ∃ env db' a ws rest, Met R all db env db' none ws rest ∧ q.run env db' = .ok (a, ws) ∧ registry.Fresh ws db' ∧
      (ws = [] ∨ R.guar done db' ws) ∧ Over R (g a) none (done ++ ws) (registry.applyAll ws db') rest out := by
  unfold Over at h
  rw [run_queryOr_bind] at h
  cases h with
  | ran hr hi hx hg hk =>
    exact .inr ⟨_, _, _, _, _, met hs hr hi, run_of_exec hx, run_fresh (run_of_exec hx), hg, hk⟩
  | refused hr hi hx hk =>
    cases hk
    exact .inl ⟨_, rfl, failed_of_suffix hs, (run_of_refused hx).imp_right fun h => ⟨_, _, met hs hr hi, h⟩⟩
  | failed hr hi hk =>
    cases hk
    exact .inl ⟨_, rfl, failed_of_suffix hs, .inl rfl⟩

/-- One that reads. -/
theorem over_read (hq : q.reads = true) (hs : ms <:+ all) (h : Over R (queryOr q f >>= g) none done db ms out) :
    (∃ e, out = .error (f e) ∧ Failed all e) ∨ ∃ env db' a rest, Met R all db env db' none [] rest ∧
      q.run env db' = .ok (a, []) ∧ Over R (g a) none done db' rest out := by
  rcases over_run hs h with ⟨e, ho, hf, -⟩ | ⟨env, db', a, ws, rest, hm, ha, -, -, h⟩
  · exact .inl ⟨e, ho, hf⟩
  · obtain rfl := run_reads hq ha
    rw [List.append_nil] at h
    exact .inr ⟨env, db', a, rest, hm, ha, h⟩

/-- One in a transaction. -/
theorem over_runTx (hs : ms <:+ all) (h : Over R (queryOr q f >>= g) (some x) done db ms out) :
    (∃ e, out = .error (f e) ∧ Failed all e ∧ (e = .other ∨ ∃ env db', Met R all db env db' (some e) [] [] ∧
      q.run { env with now := x.start.now } (registry.applyAll x.writes db') = .error e)) ∨
    ∃ (env : Env) (db' : Db) (a : q.Res) (ws : List Write) (rest : Moments), Met R all db env db' none [] rest ∧
      q.run { env with now := x.start.now } (registry.applyAll x.writes db') = .ok (a, ws) ∧
      Over R (g a) (some ⟨x.start, x.writes ++ ws⟩) done db' rest out := by
  unfold Over at h
  rw [run_queryOr_bind] at h
  cases h with
  | ranTx hr hi hx hk => exact .inr ⟨_, _, _, _, _, met hs hr hi, run_of_exec hx, hk⟩
  | refusedTx hr hi hx hk =>
    cases hk
    exact .inl ⟨_, rfl, failed_of_suffix hs, (run_of_refused hx).imp_right fun h => ⟨_, _, met hs hr hi, h⟩⟩
  | failed hr hi hk =>
    cases hk
    exact .inl ⟨_, rfl, failed_of_suffix hs, .inl rfl⟩

/-- A statement whose outcome is ignored. -/
theorem over_attempt {g : Unit → Handler β} (hs : ms <:+ all) (h : Over R (attempt q >>= g) none done db ms out) :
    ∃ done db' ws rest, R.rely db db' ∧ rest <:+ all ∧ Over R (g ()) none done (registry.applyAll ws db') rest out := by
  change Prog.Over R (Prog.stmt (S := registry) q fun _ => (g ()).run) none done db ms (.ret out) at h
  have hrest : ∀ {m : Moment registry} {rest : Moments}, m :: rest <:+ all → rest <:+ all := fun hs =>
    (List.suffix_cons _ _).trans hs
  cases h with
  | ran hr _ _ _ hk => exact ⟨_, _, _, _, hr, hrest hs, hk⟩
  | refused hr _ _ hk | failed hr _ hk => exact ⟨_, _, [], _, hr, hrest hs, hk⟩

theorem over_begin {tx : Option (Tx registry)} {g : Unit → Handler β} (hs : ms <:+ all)
    (h : Over R (begin >>= g) tx done db ms out) :
    (∃ e, out = .error (.database e) ∧ Failed all e) ∨
      ∃ env db' rest, Met R all db env db' none [] rest ∧ Over R (g ()) (some ⟨env, []⟩) done db' rest out := by
  change Prog.Over R (Prog.begin (S := registry) fun r =>
    ExceptT.bindCont (fun a => g a) (r.mapError Error.database)) tx done db ms (.ret out) at h
  cases h with
  | begun hr hi hk => exact .inr ⟨_, _, _, met hs hr hi, hk⟩
  | unbegun _ _ hk =>
    cases hk
    exact .inl ⟨_, rfl, failed_of_suffix hs⟩

theorem over_commit {g : Unit → Handler β} (hs : ms <:+ all) (h : Over R (commit >>= g) (some x) done db ms out) :
    (∃ e, out = .error (.database e) ∧ Failed all e) ∨
      ∃ env db' rest, Met R all db env db' none x.writes rest ∧ registry.Fresh x.writes db' ∧
        (x.writes = [] ∨ R.guar done db' x.writes) ∧
        Over R (g ()) none (done ++ x.writes) (registry.applyAll x.writes db') rest out := by
  change Prog.Over R (Prog.commit (S := registry) fun r =>
    ExceptT.bindCont (fun a => g a) (r.mapError Error.database)) (some x) done db ms (.ret out) at h
  cases h with
  | committed hr hi hf hg hk => exact .inr ⟨_, _, _, met hs hr hi, hf, hg, hk⟩
  | uncommitted _ _ hk =>
    cases hk
    exact .inl ⟨_, rfl, failed_of_suffix hs⟩

end Handler
end HarnessRegistry

/-
# The service's SQL

Every statement the service sends, with its bound parameters, and what it
returns and writes on the rows it sees (`Stmt.run`). Parameters that are text
must be free of U+0000, which Postgres cannot hold (`Stmt.exec`).

The `INSERT … SELECT COALESCE(max(version), 0) + 1` of `publish_version` is
two statements here, `nextVersion` and `insertVersion`: it reads its snapshot
when it starts, and inserts the number it computed when it gets past the
unique index, which may be after waiting for another transaction. Every other
statement does its reading and writing in one step, since Postgres re-reads a
row it had to wait for.

Key definitions: `Env`, `Stmt`, `Stmt.Res`, `Stmt.run`, `Stmt.exec`, `registry`.
Key theorems: `run_fresh`, `exec_eq_run`.
-/
import HarnessRegistry.Txn.Contract
import HarnessRegistry.Models
import Mathlib.Algebra.Group.Int.Defs
import Mathlib.Algebra.Group.Nat.Defs
import Mathlib.Data.List.Sort

namespace HarnessRegistry

open Txn

/-- The three rate limiters of `AppState`. -/
inductive Limiter
  | install
  | enroll
  | enrollPoll
deriving DecidableEq

/-- What one statement takes from the server it runs on: `now()`, the default
of an `id` column, the order in which rows with equal sort keys come out, and
the case folding of `ILIKE`. A question to a limiter is answered here too. -/
structure Env where
  now : Timestamp
  uuid : Uuid
  rank : Uuid → ℕ
  lower : Char → Char
  admits : Limiter → String → Bool

/-! ### Listings -/

/-- `enum Sort`, the listing order. -/
inductive ListSort
  | installs
  | recent
deriving DecidableEq

/-- The parameters bound into a listing. -/
structure ListQuery where
  tag : Option String
  q : Option String
  official : Option Bool
  sort : ListSort
  limit : ℤ
  offset : ℤ

/-- `interval '90 days'`. -/
def ninetyDays : ℤ := 90 * 86400 * 1000000

/-- `LIKE`: `%` is any run, `_` any one character, a backslash escapes. -/
def like : List Char → List Char → Bool
  | [], t => t.isEmpty
  | p :: ps, t =>
    if p = '%' then t.tails.any (like ps)
    else match t with
      | [] => false
      | c :: cs =>
        if p = '_' then like ps cs
        else if p = '\\' then match ps with
          | [] => false
          | e :: ps' => e == c && like ps' cs
        else p == c && like ps cs

/-- `text ILIKE pattern`. -/
def ilike (lower : Char → Char) (text pattern : String) : Bool :=
  like (pattern.toList.map lower) (text.toList.map lower)

/-- `LIST_FILTER`. -/
def ListQuery.selects (lower : Char → Char) (f : ListQuery) (w : WorkflowRow) : Bool :=
  w.unlistedAt.isNone &&
    (match f.tag with
      | none => true
      | some t => w.tags.contains t) &&
    (match f.q with
      | none => true
      | some q => ilike lower w.title ("%" ++ q ++ "%") || ilike lower w.description ("%" ++ q ++ "%")) &&
    (match f.official with
      | none => true
      | some o => w.official == o)

/-- The `latest_version` column of `SUMMARY_SELECT`. -/
def Db.latestVersion (db : Db) (w : Uuid) : Option ℤ :=
  ((db.versions.rows.filter fun v => v.workflowId == w && v.withdrawnAt.isNone).map (·.version)).max?

/-- Its `installs` column. -/
def Db.installCount (db : Db) (now : Timestamp) (w : Uuid) : ℕ :=
  db.installs.count fun i => i.workflowId == w && decide (i.lastSeenAt > now - ninetyDays)

/-- `SUMMARY_SELECT` on one workflow, which the join drops if its publisher is
missing. -/
def Db.summary (db : Db) (now : Timestamp) (w : WorkflowRow) : Option WorkflowSummary :=
  (db.publishers.find? fun p => p.id == w.publisherId).map fun p =>
    { slug := w.slug, title := w.title, description := w.description, tags := w.tags,
      official := w.official, publisher := p.githubLogin, latestVersion := db.latestVersion w.id,
      installs := db.installCount now w.id, updatedAt := w.updatedAt }

/-- The `ORDER BY` columns, all descending: `ORDER_INSTALLS`, `ORDER_RECENT`. -/
def ListSort.columns : ListSort → WorkflowSummary → List ℤ
  | .installs, s => [if s.official then 1 else 0, s.installs, s.updatedAt]
  | .recent, s => [if s.official then 1 else 0, s.updatedAt]

/-- `a` comes out before `b`: by the columns, and between equals as the server
likes. -/
def ListSort.before (sort : ListSort) (rank : Uuid → ℕ) (a b : Uuid × WorkflowSummary) : Prop :=
  sort.columns b.2 < sort.columns a.2 ∨
    (sort.columns b.2 = sort.columns a.2 ∧ rank a.1 ≤ rank b.1)

instance (sort : ListSort) (rank : Uuid → ℕ) : DecidableRel (sort.before rank) := fun _ _ => by
  unfold ListSort.before; infer_instance

/-- The whole listing, before `LIMIT` and `OFFSET`. -/
def Db.listing (db : Db) (env : Env) (f : ListQuery) : List (Uuid × WorkflowSummary) :=
  ((db.workflows.rows.filter (f.selects env.lower)).filterMap fun w =>
    (db.summary env.now w).map (w.id, ·)).insertionSort (f.sort.before env.rank)

/-- The workflows a publisher has in the library. -/
def Db.listed (db : Db) (publisher : Uuid) : ℕ :=
  db.workflows.count fun w => w.publisherId == publisher && w.unlistedAt.isNone

/-! ### Statements -/

inductive Stmt
  /-- `auth.rs`: the token's publisher. -/
  | authLookup (hash : String)
  | touchToken (hash : String)
  /-- `me.rs`. -/
  | publisherById (id : Uuid)
  | setDisplayName (id : Uuid) (name : Option String)
  /-- `workflows.rs`. -/
  | list (q : ListQuery)
  | detail (slug : String)
  | versions (workflow : Uuid)
  | document (workflow : Uuid) (version : ℤ)
  | countListed (publisher : Uuid)
  | workflowId (slug : String)
  | ownedWorkflowId (slug : String) (publisher : Uuid)
  | insertWorkflow (slug title description : String) (tags : List String) (publisher : Uuid)
  | nextVersion (workflow : Uuid)
  | insertVersion (workflow : Uuid) (version : ℤ) (yaml : String) (changelog : Option String)
  | relist (workflow : Uuid)
  | amend (workflow : Uuid) (title description : Option String) (tags : Option (List String))
  | unlist (workflow : Uuid)
  /-- `installs.rs`. -/
  | versionKnown (workflow : Uuid) (version : ℤ)
  | upsertInstall (workflow installation : Uuid) (version : ℤ)
  | deleteInstall (workflow installation : Uuid)
  /-- `enroll.rs` and `admin.rs`. -/
  | enrollPublisher (githubId : ℤ) (login : String) (name avatar : Option String)
  | issuePublisher (githubId : ℤ) (login : String) (name avatar : Option String)
  | insertToken (publisher : Uuid) (hash name : String)
  | setOfficial (slug : String) (value : Bool)
  | setBlocked (githubId : ℤ) (value : Bool)

/-- What comes back: the rows selected or returned, or the number affected. -/
def Stmt.Res : Stmt → Type
  | .authLookup _ => Option (Uuid × String × Option Timestamp)
  | .publisherById _ | .setDisplayName .. => Me
  | .list _ => List WorkflowSummary
  | .detail _ => Option WorkflowSummary
  | .versions _ => List VersionSummary
  | .document .. => Option (ℤ × String × Option String × Timestamp × Bool)
  | .countListed _ => ℕ
  | .workflowId _ | .ownedWorkflowId .. => Option Uuid
  | .insertWorkflow .. | .issuePublisher .. => Uuid
  | .nextVersion _ | .insertVersion .. => ℤ
  | .versionKnown .. => Option ℤ
  | .enrollPublisher .. => Uuid × Option Timestamp
  | .deleteInstall .. | .setOfficial .. | .setBlocked .. => ℕ
  | .touchToken _ | .relist _ | .amend .. | .unlist _ | .upsertInstall .. | .insertToken .. => Unit

/-- The text parameters. -/
def Stmt.texts : Stmt → List String
  | .authLookup hash | .touchToken hash => [hash]
  | .setDisplayName _ name => name.toList
  | .list q => q.tag.toList ++ q.q.toList
  | .detail slug | .workflowId slug | .ownedWorkflowId slug _ | .setOfficial slug _ => [slug]
  | .insertWorkflow slug title description tags _ => slug :: title :: description :: tags
  | .insertVersion _ _ yaml changelog => yaml :: changelog.toList
  | .amend _ title description tags => title.toList ++ description.toList ++ tags.getD []
  | .enrollPublisher _ login name avatar | .issuePublisher _ login name avatar =>
      login :: name.toList ++ avatar.toList
  | .insertToken _ hash name => [hash, name]
  | _ => []

/-- The largest `integer`. -/
def i32Max : ℤ := 2 ^ 31 - 1

def WorkflowRow.inserted (env : Env) (slug title description : String) (tags : List String)
    (publisher : Uuid) : WorkflowRow :=
  { id := env.uuid, slug, title, description, tags, publisherId := publisher, official := false,
    updatedAt := env.now, unlistedAt := none }

def PublisherRow.inserted (env : Env) (githubId : ℤ) (login : String) (name avatar : Option String) :
    PublisherRow :=
  { id := env.uuid, githubId, githubLogin := login, displayName := name, avatarUrl := avatar,
    blockedAt := none }

def PublisherRow.me (p : PublisherRow) : Me := ⟨p.githubLogin, p.displayName, p.avatarUrl⟩

def VersionRow.summary (v : VersionRow) : VersionSummary :=
  ⟨v.version, v.changelog, v.publishedAt, v.withdrawnAt.isSome⟩

/-- The writes of an `UPDATE` by primary key. -/
def ifFound {ρ : Type} (row : Option ρ) (w : Write) : List Write := match row with
  | none => []
  | some _ => [w]

theorem ifFound_cases {ρ : Type} (row : Option ρ) (w : Write) : ifFound row w = [] ∨ ifFound row w = [w] := by
  cases row with
  | none => exact .inl rfl
  | some _ => exact .inr rfl

/-- A statement on the rows it sees: what it returns, and what it writes. -/
def Stmt.run (env : Env) (db : Db) : (q : Stmt) → Except SqlError (q.Res × List Write)
  | .authLookup hash => .ok (do
      let t ← db.tokens.find? fun t => t.tokenHash == hash && t.revokedAt.isNone
      let p ← db.publishers.find? fun p => p.id == t.publisherId
      return (p.id, p.githubLogin, p.blockedAt), [])
  | .touchToken hash =>
      .ok ((), ifFound (db.tokens.find? fun t => t.tokenHash == hash) (.touchToken hash env.now))
  | .publisherById id => match db.publishers.find? fun p => p.id == id with
      | none => .error .rowNotFound
      | some p => .ok (p.me, [])
  | .setDisplayName id name => match db.publishers.find? fun p => p.id == id with
      | none => .error .rowNotFound
      | some p => .ok ({ p with displayName := name }.me, [.setDisplayName id name])
  | .list q => .ok ((((db.listing env q).drop q.offset.toNat).take q.limit.toNat).map (·.2), [])
  | .detail slug => .ok ((do
      let w ← db.workflows.find? fun w => w.slug == slug && w.unlistedAt.isNone
      db.summary env.now w), [])
  | .versions w => .ok (((db.versions.rows.filter fun v => v.workflowId == w).insertionSort
      fun a b => b.version ≤ a.version).map (·.summary), [])
  | .document w n => .ok ((db.versions.find? fun v => v.workflowId == w && v.version == n).map
      fun v => (v.version, v.yaml, v.changelog, v.publishedAt, v.withdrawnAt.isSome), [])
  | .countListed p => .ok (db.listed p, [])
  | .workflowId slug => .ok ((db.workflows.find? fun w => w.slug == slug).map (·.id), [])
  | .ownedWorkflowId slug p =>
      .ok ((db.workflows.find? fun w => w.slug == slug && w.publisherId == p).map (·.id), [])
  | .insertWorkflow slug title description tags p =>
      let row := WorkflowRow.inserted env slug title description tags p
      if db.workflows.has (key row) then .error .uniqueViolation
      else .ok (row.id, [.insertWorkflow row])
  | .nextVersion w =>
      let next := ((db.versions.rows.filter fun v => v.workflowId == w).map (·.version)).max?.getD 0 + 1
      if next > i32Max then .error .other else .ok (next, [])
  | .insertVersion w n yaml changelog =>
      let row : VersionRow := ⟨w, n, yaml, changelog, env.now, none⟩
      if db.versions.has (key row) then .error .uniqueViolation else .ok (n, [.insertVersion row])
  | .relist id => .ok ((), ifFound (db.workflows.find? fun w => w.id == id) (.relist id env.now))
  | .amend id title description tags =>
      .ok ((), ifFound (db.workflows.find? fun w => w.id == id) (.amend id title description tags env.now))
  | .unlist id => .ok ((), ifFound (db.workflows.find? fun w => w.id == id) (.unlist id env.now))
  | .versionKnown w n =>
      .ok ((db.versions.find? fun v => v.workflowId == w && v.version == n).map (·.version), [])
  | .upsertInstall w i n =>
      match db.installs.find? fun r => r.workflowId == w && r.installationId == i with
      | none => .ok ((), [.insertInstall ⟨w, i, n, env.now⟩])
      | some _ => .ok ((), [.refreshInstall w i n env.now])
  | .deleteInstall w i =>
      match db.installs.find? fun r => r.workflowId == w && r.installationId == i with
      | none => .ok ((0 : ℕ), [])
      | some _ => .ok ((1 : ℕ), [.deleteInstall w i])
  | .enrollPublisher g login name avatar => match db.publishers.find? fun p => p.githubId == g with
      | some p => .ok ((p.id, p.blockedAt), [.enrollPublisher p.id login name avatar])
      | none =>
        let row := PublisherRow.inserted env g login name avatar
        if db.publishers.has (key row) then .error .uniqueViolation
        else .ok ((row.id, row.blockedAt), [.insertPublisher row])
  | .issuePublisher g login name avatar => match db.publishers.find? fun p => p.githubId == g with
      | some p => .ok (p.id, [.issuePublisher p.id login name avatar])
      | none =>
        let row := PublisherRow.inserted env g login name avatar
        if db.publishers.has (key row) then .error .uniqueViolation
        else .ok (row.id, [.insertPublisher row])
  | .insertToken p hash name =>
      let row : TokenRow := ⟨p, hash, name, none, none⟩
      if db.tokens.has (key row) then .error .uniqueViolation else .ok ((), [.insertToken row])
  | .setOfficial slug value => match db.workflows.find? fun w => w.slug == slug with
      | none => .ok ((0 : ℕ), [])
      | some w => .ok ((1 : ℕ), [.setOfficial w.id value])
  | .setBlocked g value => match db.publishers.find? fun p => p.githubId == g with
      | none => .ok ((0 : ℕ), [])
      | some p => .ok ((1 : ℕ), [.setBlockedAt p.id (if value then some env.now else none)])

/-- A statement as the server carries it out: one with a text it cannot hold
is refused. -/
def Stmt.exec (env : Env) (q : Stmt) (db : Db) : Except SqlError (q.Res × List Write) :=
  if q.texts.any hasNul then .error .other else q.run env db

/-- Postgres with the service's schema. `now()` is the start of the
transaction. -/
abbrev registry : Server where
  Db := Db
  Write := Write
  apply := Write.apply
  Stmt := Stmt
  Res := Stmt.Res
  Err := SqlError
  fault := .other
  Env := Env
  inTx start env := { env with now := start.now }
  exec := Stmt.exec
  Ask := Limiter × String
  Ans _ := Bool
  answer env q := env.admits q.1 q.2
  Lock := Lock
  lockEq := inferInstance
  claims := Write.claims
  locks := Write.locks
  frees := Write.frees
  taken := Db.taken
  external := Write.external

/-! ### Keys -/

theorem fresh_of_claims {ws : List Write} {db : Db} (h : ∀ w ∈ ws, w.claims = []) : registry.Fresh ws db := by
  have h0 : ws.flatMap Write.claims = [] := by simpa using h
  exact ⟨by simp [h0], by simp [h0]⟩

theorem fresh_ifFound {ρ : Type} {row : Option ρ} {w : Write} {db : Db} (h : w.claims = []) :
    registry.Fresh (ifFound row w) db := by
  refine fresh_of_claims fun v hv => ?_
  cases row with
  | none => simp [ifFound] at hv
  | some _ => rwa [List.mem_singleton.mp hv]

theorem fresh_insertPublisher {db : Db} {r : PublisherRow} (h : ¬ db.publishers.has (key r)) :
    registry.Fresh [.insertPublisher r] db := by
  simp only [Table.has, key_publisher, clash_publisher, not_exists, not_and, not_or] at h
  refine ⟨by simp [Write.claims], fun l hl => ?_⟩
  simp only [Write.claims, List.flatMap_cons, List.flatMap_nil, List.append_nil, List.mem_cons,
    List.not_mem_nil, or_false] at hl
  rcases hl with rfl | rfl
  · rintro ⟨x, hx, he⟩; exact (h x hx).1 he
  · rintro ⟨x, hx, he⟩; exact (h x hx).2 he

theorem fresh_insertWorkflow {db : Db} {r : WorkflowRow} (h : ¬ db.workflows.has (key r)) :
    registry.Fresh [.insertWorkflow r] db := by
  simp only [Table.has, key_workflow, clash_workflow, not_exists, not_and, not_or] at h
  refine ⟨by simp [Write.claims], fun l hl => ?_⟩
  simp only [Write.claims, List.flatMap_cons, List.flatMap_nil, List.append_nil, List.mem_cons,
    List.not_mem_nil, or_false] at hl
  rcases hl with rfl | rfl
  · rintro ⟨x, hx, he⟩; exact (h x hx).1 he
  · rintro ⟨x, hx, he⟩; exact (h x hx).2 he

theorem fresh_insertToken {db : Db} {r : TokenRow} (h : ¬ db.tokens.has (key r)) :
    registry.Fresh [.insertToken r] db := by
  simp only [Table.has, key_token, clash_token, not_exists, not_and] at h
  refine ⟨by simp [Write.claims], fun l hl => ?_⟩
  obtain rfl : l = .token r.tokenHash := by simpa [Write.claims] using hl
  rintro ⟨x, hx, he⟩
  exact h x hx he

theorem fresh_insertVersion {db : Db} {r : VersionRow} (h : ¬ db.versions.has (key r)) :
    registry.Fresh [.insertVersion r] db := by
  simp only [Table.has, key_version, clash_version, not_exists, not_and] at h
  refine ⟨by simp [Write.claims], fun l hl => ?_⟩
  obtain rfl : l = .version r.workflowId r.version := by simpa [Write.claims] using hl
  rintro ⟨x, hx, he, hv⟩
  exact h x hx he hv

theorem fresh_insertInstall {db : Db} {r : InstallRow}
    (h : ∀ x ∈ db.installs, ¬ (x.workflowId = r.workflowId ∧ x.installationId = r.installationId)) :
    registry.Fresh [.insertInstall r] db := by
  refine ⟨by simp [Write.claims], fun l hl => ?_⟩
  obtain rfl : l = .install r.workflowId r.installationId := by simpa [Write.claims] using hl
  rintro ⟨x, hx, he⟩
  exact h x hx he

/-- A statement never takes a key that is in use: it is refused, or updates
the row that has it. -/
theorem run_fresh {env : Env} {db : Db} {q : Stmt} {a : q.Res} {ws : List Write}
    (h : q.run env db = .ok (a, ws)) : registry.Fresh ws db := by
  cases q <;> simp only [Stmt.run] at h
  case touchToken | relist | amend | unlist =>
    cases h
    exact fresh_ifFound rfl
  case insertWorkflow =>
    split at h <;> cases h
    exact fresh_insertWorkflow ‹_›
  case insertVersion =>
    split at h <;> cases h
    exact fresh_insertVersion ‹_›
  case insertToken =>
    split at h <;> cases h
    exact fresh_insertToken ‹_›
  case upsertInstall w i n =>
    split at h <;> cases h
    · rename_i hn
      exact fresh_insertInstall fun x hx he => by simpa [he] using Table.find?_eq_none.mp hn x hx
    · exact fresh_of_claims (by simp [Write.claims])
  case enrollPublisher | issuePublisher =>
    split at h
    · cases h
      exact fresh_of_claims (by simp [Write.claims])
    · split at h <;> cases h
      exact fresh_insertPublisher ‹_›
  case publisherById | setDisplayName | nextVersion | deleteInstall | setOfficial | setBlocked =>
    split at h <;> cases h
    all_goals exact fresh_of_claims (by simp [Write.claims])
  all_goals
    cases h
    exact fresh_nil _

theorem run_of_exec {env : Env} {db : Db} {q : Stmt} {r : q.Res × List Write}
    (h : q.exec env db = .ok r) : q.run env db = .ok r := by
  unfold Stmt.exec at h
  split at h
  · cases h
  · exact h

theorem exec_eq_run {env : Env} {db : Db} {q : Stmt} (h : q.texts.any hasNul = false) : q.exec env db = q.run env db :=
  if_neg (by simp [h])

/-- Statements that write nothing. -/
def Stmt.reads : Stmt → Bool
  | .authLookup _ | .publisherById _ | .list _ | .detail _ | .versions _ | .document .. | .countListed _
  | .workflowId _ | .ownedWorkflowId .. | .nextVersion _ | .versionKnown .. => true
  | _ => false

theorem run_reads {env : Env} {db : Db} {q : Stmt} {a : q.Res} {ws : List Write} (hq : q.reads = true)
    (h : q.run env db = .ok (a, ws)) : ws = [] := by
  cases q <;> simp only [Stmt.run] at h <;> cases hq
  case publisherById | nextVersion => split at h <;> cases h; rfl
  all_goals
    cases h
    rfl

/-! Fresh keys are free: the row goes in. -/

theorem not_has_publisher {db : Db} {r : PublisherRow} (h : registry.Fresh [.insertPublisher r] db) :
    ¬ db.publishers.has (key r) := fun ⟨x, hx, hc⟩ => by
  rcases (clash_publisher _ _).mp hc with he | he
  · exact h.2 (.publisher r.id) (by simp [Write.claims]) ⟨x, hx, he⟩
  · exact h.2 (.githubId r.githubId) (by simp [Write.claims]) ⟨x, hx, he⟩

theorem not_has_workflow {db : Db} {r : WorkflowRow} (h : registry.Fresh [.insertWorkflow r] db) :
    ¬ db.workflows.has (key r) := fun ⟨x, hx, hc⟩ => by
  rcases (clash_workflow _ _).mp hc with he | he
  · exact h.2 (.workflow r.id) (by simp [Write.claims]) ⟨x, hx, he⟩
  · exact h.2 (.slug r.slug) (by simp [Write.claims]) ⟨x, hx, he⟩

theorem not_has_token {db : Db} {r : TokenRow} (h : registry.Fresh [.insertToken r] db) :
    ¬ db.tokens.has (key r) := fun ⟨x, hx, hc⟩ =>
  h.2 (.token r.tokenHash) (by simp [Write.claims]) ⟨x, hx, (clash_token _ _).mp hc⟩

theorem not_has_version {db : Db} {r : VersionRow} (h : registry.Fresh [.insertVersion r] db) :
    ¬ db.versions.has (key r) := fun ⟨x, hx, hc⟩ =>
  h.2 (.version r.workflowId r.version) (by simp [Write.claims]) ⟨x, hx, (clash_version _ _).mp hc⟩

theorem not_has_install {db : Db} {r : InstallRow} (h : registry.Fresh [.insertInstall r] db) :
    ¬ db.installs.has (key r) := fun ⟨x, hx, hc⟩ =>
  h.2 (.install r.workflowId r.installationId) (by simp [Write.claims]) ⟨x, hx, (clash_install _ _).mp hc⟩

/-- A claimed key is in use once the row is in. -/
theorem claim_taken {w : Write} {db : Db} {l : Lock} (hf : registry.Fresh [w] db) (hl : l ∈ w.claims) :
    (w.apply db).taken l := by
  cases w <;> simp only [Write.claims, List.mem_cons, List.not_mem_nil, or_false] at hl
  case insertPublisher r =>
    have hr : r ∈ db.publishers.insert r := (Table.mem_insert (not_has_publisher hf)).mpr (.inr rfl)
    rcases hl with rfl | rfl <;> exact ⟨r, hr, rfl⟩
  case insertWorkflow r =>
    have hr : r ∈ db.workflows.insert r := (Table.mem_insert (not_has_workflow hf)).mpr (.inr rfl)
    rcases hl with rfl | rfl <;> exact ⟨r, hr, rfl⟩
  case insertToken r =>
    subst hl
    exact ⟨r, (Table.mem_insert (not_has_token hf)).mpr (.inr rfl), rfl⟩
  case insertVersion r =>
    subst hl
    exact ⟨r, (Table.mem_insert (not_has_version hf)).mpr (.inr rfl), rfl, rfl⟩
  case insertInstall r =>
    subst hl
    exact ⟨r, (Table.mem_insert (not_has_install hf)).mpr (.inr rfl), rfl, rfl⟩

theorem claims_locks {w : Write} {l : Lock} (h : l ∈ w.claims) : l ∈ w.locks := by
  cases w <;> simp_all [Write.claims, Write.locks]

instance : registry.Lawful where
  taken_apply := taken_apply
  apply_taken := apply_taken
  claim_taken := claim_taken
  claims_locks := claims_locks
  exec_fresh h := run_fresh (run_of_exec h)

end HarnessRegistry

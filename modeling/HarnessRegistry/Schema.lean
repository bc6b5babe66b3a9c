/-
# The registry's tables

The schema is owned by another repository; what the service relies on is read
off its statements. Five tables: publishers (one row per GitHub id), their
tokens, workflows (one row per slug), versions (one row per workflow and
number) and installs (one row per workflow and installation). The unique
constraints are part of the tables' types.

`Write` lists every change a statement of the service makes to a row, with
the row's primary key and the `SET` clause; `Write.apply` carries it out. The
last two are made by an operator by hand: nothing in the service withdraws a
version or revokes a token, but the reads look at both columns.

Key definitions: `Db`, `Write`, `Write.apply`, `Lock`, `Write.claims`,
`Write.locks`, `Db.taken`.
Key theorems: `taken_apply`, `apply_taken`.
-/
import HarnessRegistry.Txn.Table
import Mathlib.Data.Int.Notation

namespace HarnessRegistry

open Txn

/-- A 128-bit identifier. -/
abbrev Uuid := BitVec 128

/-- Microseconds since the epoch, what a `timestamptz` holds. -/
abbrev Timestamp := ℤ

/-! ### Rows -/

/-- A row of `registry_publishers`. -/
structure PublisherRow where
  id : Uuid
  githubId : ℤ
  githubLogin : String
  displayName : Option String
  avatarUrl : Option String
  blockedAt : Option Timestamp
deriving DecidableEq

/-- A row of `registry_publisher_tokens`. -/
structure TokenRow where
  publisherId : Uuid
  tokenHash : String
  name : String
  lastUsedAt : Option Timestamp
  revokedAt : Option Timestamp
deriving DecidableEq

/-- A row of `registry_workflows`. -/
structure WorkflowRow where
  id : Uuid
  slug : String
  title : String
  description : String
  tags : List String
  publisherId : Uuid
  official : Bool
  updatedAt : Timestamp
  unlistedAt : Option Timestamp
deriving DecidableEq

/-- A row of `registry_versions`. -/
structure VersionRow where
  workflowId : Uuid
  version : ℤ
  yaml : String
  changelog : Option String
  publishedAt : Timestamp
  withdrawnAt : Option Timestamp
deriving DecidableEq

/-- A row of `registry_installs`. -/
structure InstallRow where
  workflowId : Uuid
  installationId : Uuid
  version : ℤ
  lastSeenAt : Timestamp
deriving DecidableEq

/-! ### Keys -/

/-- `PRIMARY KEY (id)`, `UNIQUE (github_id)`. -/
structure PublisherKey where
  id : Uuid
  githubId : ℤ

/-- `UNIQUE (token_hash)`. -/
structure TokenKey where
  hash : String

/-- `PRIMARY KEY (id)`, `UNIQUE (slug)`. -/
structure WorkflowKey where
  id : Uuid
  slug : String

/-- `UNIQUE (workflow_id, version)`. -/
structure VersionKey where
  workflowId : Uuid
  version : ℤ

/-- `UNIQUE (workflow_id, installation_id)`. -/
structure InstallKey where
  workflowId : Uuid
  installationId : Uuid

instance : Key PublisherKey where
  clash k l := k.id == l.id || k.githubId == l.githubId
  clash_self k := by simp
  clash_comm k l := by simp only [BEq.comm]

instance : Key TokenKey where
  clash k l := k.hash == l.hash
  clash_self k := by simp
  clash_comm k l := by simp only [BEq.comm]

instance : Key WorkflowKey where
  clash k l := k.id == l.id || k.slug == l.slug
  clash_self k := by simp
  clash_comm k l := by simp only [BEq.comm]

instance : Key VersionKey where
  clash k l := k.workflowId == l.workflowId && k.version == l.version
  clash_self k := by simp
  clash_comm k l := by simp only [BEq.comm]

instance : Key InstallKey where
  clash k l := k.workflowId == l.workflowId && k.installationId == l.installationId
  clash_self k := by simp
  clash_comm k l := by simp only [BEq.comm]

instance : Keyed PublisherRow PublisherKey := ⟨fun r => ⟨r.id, r.githubId⟩⟩
instance : Keyed TokenRow TokenKey := ⟨fun r => ⟨r.tokenHash⟩⟩
instance : Keyed WorkflowRow WorkflowKey := ⟨fun r => ⟨r.id, r.slug⟩⟩
instance : Keyed VersionRow VersionKey := ⟨fun r => ⟨r.workflowId, r.version⟩⟩
instance : Keyed InstallRow InstallKey := ⟨fun r => ⟨r.workflowId, r.installationId⟩⟩

@[simp] theorem clash_publisher (k l : PublisherKey) :
    clash k l = true ↔ k.id = l.id ∨ k.githubId = l.githubId := by simp [clash]
@[simp] theorem clash_token (k l : TokenKey) : clash k l = true ↔ k.hash = l.hash := by simp [clash]
@[simp] theorem clash_workflow (k l : WorkflowKey) :
    clash k l = true ↔ k.id = l.id ∨ k.slug = l.slug := by simp [clash]
@[simp] theorem clash_version (k l : VersionKey) :
    clash k l = true ↔ k.workflowId = l.workflowId ∧ k.version = l.version := by simp [clash]
@[simp] theorem clash_install (k l : InstallKey) :
    clash k l = true ↔ k.workflowId = l.workflowId ∧ k.installationId = l.installationId := by
  simp [clash]

@[simp] theorem key_publisher (r : PublisherRow) : key r = ⟨r.id, r.githubId⟩ := rfl
@[simp] theorem key_token (r : TokenRow) : key r = ⟨r.tokenHash⟩ := rfl
@[simp] theorem key_workflow (r : WorkflowRow) : key r = ⟨r.id, r.slug⟩ := rfl
@[simp] theorem key_version (r : VersionRow) : key r = ⟨r.workflowId, r.version⟩ := rfl
@[simp] theorem key_install (r : InstallRow) : key r = ⟨r.workflowId, r.installationId⟩ := rfl

/-! A unique column determines the row. -/

theorem PublisherRow.eq_of_id {t : Table PublisherRow} {p q : PublisherRow} (hp : p ∈ t) (hq : q ∈ t)
    (h : p.id = q.id) : p = q := Table.eq_of_clash hp hq ((clash_publisher _ _).mpr (.inl h))

theorem PublisherRow.find_iff {t : Table PublisherRow} {id : Uuid} {p : PublisherRow} :
    t.find? (fun p => p.id == id) = some p ↔ p ∈ t ∧ p.id = id := by
  rw [Table.find?_eq_some fun x y hx hy => (clash_publisher _ _).mpr (.inl ?_), beq_iff_eq]
  exact (eq_of_beq hx).trans (eq_of_beq hy).symm

theorem PublisherRow.eq_of_githubId {t : Table PublisherRow} {p q : PublisherRow} (hp : p ∈ t) (hq : q ∈ t)
    (h : p.githubId = q.githubId) : p = q := Table.eq_of_clash hp hq ((clash_publisher _ _).mpr (.inr h))

theorem TokenRow.eq_of_hash {t : Table TokenRow} {a b : TokenRow} (ha : a ∈ t) (hb : b ∈ t)
    (h : a.tokenHash = b.tokenHash) : a = b := Table.eq_of_clash ha hb ((clash_token _ _).mpr h)

theorem WorkflowRow.eq_of_id {t : Table WorkflowRow} {v w : WorkflowRow} (hv : v ∈ t) (hw : w ∈ t)
    (h : v.id = w.id) : v = w := Table.eq_of_clash hv hw ((clash_workflow _ _).mpr (.inl h))

theorem WorkflowRow.eq_of_slug {t : Table WorkflowRow} {v w : WorkflowRow} (hv : v ∈ t) (hw : w ∈ t)
    (h : v.slug = w.slug) : v = w := Table.eq_of_clash hv hw ((clash_workflow _ _).mpr (.inr h))

theorem VersionRow.eq_of_number {t : Table VersionRow} {u v : VersionRow} (hu : u ∈ t) (hv : v ∈ t)
    (hw : u.workflowId = v.workflowId) (hn : u.version = v.version) : u = v :=
  Table.eq_of_clash hu hv ((clash_version _ _).mpr ⟨hw, hn⟩)

theorem InstallRow.eq_of_pair {t : Table InstallRow} {i j : InstallRow} (hi : i ∈ t) (hj : j ∈ t)
    (hw : i.workflowId = j.workflowId) (hn : i.installationId = j.installationId) : i = j :=
  Table.eq_of_clash hi hj ((clash_install _ _).mpr ⟨hw, hn⟩)

/-- The `harness-registry` database. -/
structure Db where
  publishers : Table PublisherRow
  tokens : Table TokenRow
  workflows : Table WorkflowRow
  versions : Table VersionRow
  installs : Table InstallRow

/-! ### Writes -/

/-- A change to one row. -/
inductive Write
  | insertPublisher (row : PublisherRow)
  /-- The `DO UPDATE` of `enroll::upsert_publisher`. -/
  | enrollPublisher (id : Uuid) (login : String) (name avatar : Option String)
  /-- The `DO UPDATE` of `admin::issue_token`. -/
  | issuePublisher (id : Uuid) (login : String) (name avatar : Option String)
  | setDisplayName (id : Uuid) (name : Option String)
  | setBlockedAt (id : Uuid) (at_ : Option Timestamp)
  | insertToken (row : TokenRow)
  | touchToken (hash : String) (now : Timestamp)
  | insertWorkflow (row : WorkflowRow)
  /-- The `UPDATE` of `publish_version`. -/
  | relist (id : Uuid) (now : Timestamp)
  /-- The `UPDATE` of `update`. -/
  | amend (id : Uuid) (title description : Option String) (tags : Option (List String)) (now : Timestamp)
  | unlist (id : Uuid) (now : Timestamp)
  | setOfficial (id : Uuid) (value : Bool)
  | insertVersion (row : VersionRow)
  | insertInstall (row : InstallRow)
  /-- The `DO UPDATE` of `installs::record`. -/
  | refreshInstall (workflow installation : Uuid) (version : ℤ) (now : Timestamp)
  | deleteInstall (workflow installation : Uuid)
  | withdrawVersion (workflow : Uuid) (version : ℤ) (now : Timestamp)
  | revokeToken (hash : String) (now : Timestamp)
deriving DecidableEq

/-- `UPDATE registry_publishers SET … WHERE id = $1`, keeping `id` and `github_id`. -/
def Db.setPublisher (db : Db) (id : Uuid) (f : PublisherRow → PublisherRow)
    (hf : ∀ r, key (f r) = key r := by intro; rfl) : Db :=
  { db with publishers := db.publishers.update (fun r => r.id = id) f hf }

/-- `UPDATE registry_publisher_tokens SET … WHERE token_hash = $1`. -/
def Db.setToken (db : Db) (hash : String) (f : TokenRow → TokenRow)
    (hf : ∀ r, key (f r) = key r := by intro; rfl) : Db :=
  { db with tokens := db.tokens.update (fun r => r.tokenHash = hash) f hf }

/-- `UPDATE registry_workflows SET … WHERE id = $1`, keeping `id` and `slug`. -/
def Db.setWorkflow (db : Db) (id : Uuid) (f : WorkflowRow → WorkflowRow)
    (hf : ∀ r, key (f r) = key r := by intro; rfl) : Db :=
  { db with workflows := db.workflows.update (fun r => r.id = id) f hf }

/-- `UPDATE registry_versions SET … WHERE workflow_id = $1 AND version = $2`. -/
def Db.setVersion (db : Db) (w : Uuid) (v : ℤ) (f : VersionRow → VersionRow)
    (hf : ∀ r, key (f r) = key r := by intro; rfl) : Db :=
  { db with versions := db.versions.update (fun r => r.workflowId = w ∧ r.version = v) f hf }

/-- `UPDATE registry_installs SET … WHERE workflow_id = $1 AND installation_id = $2`. -/
def Db.setInstall (db : Db) (w i : Uuid) (f : InstallRow → InstallRow)
    (hf : ∀ r, key (f r) = key r := by intro; rfl) : Db :=
  { db with installs := db.installs.update (fun r => r.workflowId = w ∧ r.installationId = i) f hf }

/-- What a write does. -/
def Write.apply : Write → Db → Db
  | .insertPublisher row, db => { db with publishers := db.publishers.insert row }
  | .enrollPublisher id login name avatar, db => db.setPublisher id fun r =>
      { r with githubLogin := login, displayName := r.displayName.or name, avatarUrl := avatar.or r.avatarUrl }
  | .issuePublisher id login name avatar, db => db.setPublisher id fun r =>
      { r with githubLogin := login, displayName := name.or r.displayName, avatarUrl := avatar.or r.avatarUrl }
  | .setDisplayName id name, db => db.setPublisher id fun r => { r with displayName := name }
  | .setBlockedAt id at_, db => db.setPublisher id fun r => { r with blockedAt := at_ }
  | .insertToken row, db => { db with tokens := db.tokens.insert row }
  | .touchToken hash now, db => db.setToken hash fun r => { r with lastUsedAt := some now }
  | .insertWorkflow row, db => { db with workflows := db.workflows.insert row }
  | .relist id now, db => db.setWorkflow id fun r => { r with updatedAt := now, unlistedAt := none }
  | .amend id title description tags now, db => db.setWorkflow id fun r =>
      { r with title := title.getD r.title, description := description.getD r.description,
               tags := tags.getD r.tags, updatedAt := now }
  | .unlist id now, db => db.setWorkflow id fun r => { r with unlistedAt := some now }
  | .setOfficial id value, db => db.setWorkflow id fun r => { r with official := value }
  | .insertVersion row, db => { db with versions := db.versions.insert row }
  | .insertInstall row, db => { db with installs := db.installs.insert row }
  | .refreshInstall w i version now, db => db.setInstall w i fun r =>
      { r with version := version, lastSeenAt := now }
  | .deleteInstall w i, db =>
      { db with installs := db.installs.delete fun r => r.workflowId == w && r.installationId == i }
  | .withdrawVersion w v now, db => db.setVersion w v fun r => { r with withdrawnAt := some now }
  | .revokeToken hash now, db => db.setToken hash fun r => { r with revokedAt := some now }

/-- Made by an operator, not by the service. -/
def Write.external : Write → Bool
  | .withdrawVersion .. | .revokeToken .. => true
  | _ => false

/-! ### Keys and row locks -/

/-- What two open transactions cannot both hold: a unique key, or a row by
its primary key. -/
inductive Lock
  | publisher (id : Uuid)
  | githubId (githubId : ℤ)
  | token (hash : String)
  | workflow (id : Uuid)
  | slug (slug : String)
  | version (workflow : Uuid) (version : ℤ)
  | install (workflow installation : Uuid)
deriving DecidableEq

/-- The unique keys of the row inserted. -/
def Write.claims : Write → List Lock
  | .insertPublisher row => [.publisher row.id, .githubId row.githubId]
  | .insertToken row => [.token row.tokenHash]
  | .insertWorkflow row => [.workflow row.id, .slug row.slug]
  | .insertVersion row => [.version row.workflowId row.version]
  | .insertInstall row => [.install row.workflowId row.installationId]
  | _ => []

/-- These, and the row changed. -/
def Write.locks : Write → List Lock
  | .enrollPublisher id .. | .issuePublisher id .. | .setDisplayName id .. | .setBlockedAt id .. =>
      [.publisher id]
  | .touchToken hash .. | .revokeToken hash .. => [.token hash]
  | .relist id .. | .amend id .. | .unlist id .. | .setOfficial id .. => [.workflow id]
  | .refreshInstall w i .. | .deleteInstall w i => [.install w i]
  | .withdrawVersion w v .. => [.version w v]
  | w => w.claims

/-- Only a deletion takes a key out of use. -/
def Write.frees : Write → Bool
  | .deleteInstall .. => true
  | _ => false

/-- The key belongs to a row. -/
def Db.taken (db : Db) : Lock → Prop
  | .publisher id => ∃ r ∈ db.publishers, r.id = id
  | .githubId g => ∃ r ∈ db.publishers, r.githubId = g
  | .token hash => ∃ r ∈ db.tokens, r.tokenHash = hash
  | .workflow id => ∃ r ∈ db.workflows, r.id = id
  | .slug slug => ∃ r ∈ db.workflows, r.slug = slug
  | .version w v => ∃ r ∈ db.versions, r.workflowId = w ∧ r.version = v
  | .install w i => ∃ r ∈ db.installs, r.workflowId = w ∧ r.installationId = i

/-- A key is in use after a write only if it was before or the write claims it. -/
theorem taken_apply {w : Write} {db : Db} {l : Lock} (h : (w.apply db).taken l) :
    db.taken l ∨ l ∈ w.claims := by
  cases w <;> cases l <;>
    simp only [Write.apply, Db.setPublisher, Db.setToken, Db.setWorkflow, Db.setVersion, Db.setInstall,
      Db.taken, Write.claims, Table.exists_update, implies_true] at h ⊢
  all_goals first
    | exact .inl h
    | exact .inl (Table.exists_of_delete h)
    | exact (Table.exists_of_insert h).imp_right fun h => by simp_all

/-- A key stays in use, unless the write deletes. -/
theorem apply_taken {w : Write} {db : Db} {l : Lock} (hw : w.frees = false) (h : db.taken l) :
    (w.apply db).taken l := by
  cases w <;> cases l <;>
    simp only [Write.apply, Db.setPublisher, Db.setToken, Db.setWorkflow, Db.setVersion, Db.setInstall,
      Db.taken, Table.exists_update, implies_true] at h ⊢
  all_goals first
    | exact h
    | exact Table.exists_insert _ h
    | cases hw

end HarnessRegistry

/-
# What the tables keep

Two facts about the database that every write of the service respects.
`Db.Grows`: rows of publishers, tokens, workflows and versions are never
removed, and their identifying columns never change, nor does anything that
was published. `Db.Sound`: every workflow has its publisher, every version its
workflow and every install its version, and the versions of a workflow are
numbered 1, 2, …, n.

Key definitions: `Db.Grows`, `Db.Numbered`, `Db.Sound`, `Db.Alike`.
Key theorems: `Write.grows`, `Db.Grows.trans`, `inserted_applyAll`, `Write.alike`,
`Db.Alike.sound`.
-/
import HarnessRegistry.Sql

namespace HarnessRegistry

open Txn

/-! ### What never changes -/

/-- The identity of a publisher. -/
def PublisherRow.same (a b : PublisherRow) : Prop := b.id = a.id ∧ b.githubId = a.githubId

/-- Of a token, whose it is. -/
def TokenRow.same (a b : TokenRow) : Prop :=
  b.tokenHash = a.tokenHash ∧ b.publisherId = a.publisherId ∧ b.name = a.name

/-- Of a workflow, its names and its owner. -/
def WorkflowRow.same (a b : WorkflowRow) : Prop :=
  b.id = a.id ∧ b.slug = a.slug ∧ b.publisherId = a.publisherId

/-- Of a version, all that was published. -/
def VersionRow.same (a b : VersionRow) : Prop :=
  b.workflowId = a.workflowId ∧ b.version = a.version ∧ b.yaml = a.yaml ∧ b.changelog = a.changelog ∧
    b.publishedAt = a.publishedAt

/-- Of an install, the version it is of. -/
def InstallRow.same (a b : InstallRow) : Prop := b.workflowId = a.workflowId ∧ b.version = a.version

theorem PublisherRow.same.refl (r : PublisherRow) : r.same r := ⟨rfl, rfl⟩
theorem TokenRow.same.refl (r : TokenRow) : r.same r := ⟨rfl, rfl, rfl⟩
theorem WorkflowRow.same.refl (r : WorkflowRow) : r.same r := ⟨rfl, rfl, rfl⟩
theorem VersionRow.same.refl (r : VersionRow) : r.same r := ⟨rfl, rfl, rfl, rfl, rfl⟩
theorem InstallRow.same.refl (r : InstallRow) : r.same r := ⟨rfl, rfl⟩

theorem PublisherRow.same.trans {a b c : PublisherRow} (h : a.same b) (h' : b.same c) : a.same c :=
  ⟨h'.1.trans h.1, h'.2.trans h.2⟩

theorem TokenRow.same.trans {a b c : TokenRow} (h : a.same b) (h' : b.same c) : a.same c :=
  ⟨h'.1.trans h.1, h'.2.1.trans h.2.1, h'.2.2.trans h.2.2⟩

theorem WorkflowRow.same.trans {a b c : WorkflowRow} (h : a.same b) (h' : b.same c) : a.same c :=
  ⟨h'.1.trans h.1, h'.2.1.trans h.2.1, h'.2.2.trans h.2.2⟩

theorem VersionRow.same.trans {a b c : VersionRow} (h : a.same b) (h' : b.same c) : a.same c :=
  ⟨h'.1.trans h.1, h'.2.1.trans h.2.1, h'.2.2.1.trans h.2.2.1, h'.2.2.2.1.trans h.2.2.2.1,
    h'.2.2.2.2.trans h.2.2.2.2⟩

/-- From `db` to `db'` no identity is lost and nothing published changes. -/
structure Db.Grows (db db' : Db) : Prop where
  publishers : Table.Kept PublisherRow.same db.publishers db'.publishers
  tokens : Table.Kept TokenRow.same db.tokens db'.tokens
  workflows : Table.Kept WorkflowRow.same db.workflows db'.workflows
  versions : Table.Kept VersionRow.same db.versions db'.versions

namespace Db.Grows

theorem refl (db : Db) : db.Grows db :=
  ⟨.refl PublisherRow.same.refl _, .refl TokenRow.same.refl _, .refl WorkflowRow.same.refl _,
    .refl VersionRow.same.refl _⟩

theorem trans {a b c : Db} (h : a.Grows b) (h' : b.Grows c) : a.Grows c where
  publishers := h.publishers.trans (fun a b c (h : a.same b) (h' : b.same c) => h.trans h') h'.publishers
  tokens := h.tokens.trans (fun a b c (h : a.same b) (h' : b.same c) => h.trans h') h'.tokens
  workflows := h.workflows.trans (fun a b c (h : a.same b) (h' : b.same c) => h.trans h') h'.workflows
  versions := h.versions.trans (fun a b c (h : a.same b) (h' : b.same c) => h.trans h') h'.versions

end Db.Grows

/-- No write loses an identity. -/
theorem Write.grows (w : Write) (db : Db) : db.Grows (w.apply db) := by
  have h := Db.Grows.refl db
  cases w
  case insertPublisher => exact { h with publishers := Table.kept_insert PublisherRow.same.refl _ _ }
  case enrollPublisher | issuePublisher | setDisplayName | setBlockedAt =>
    exact { h with publishers := Table.kept_update PublisherRow.same.refl (fun _ => by rfl) fun _ _ => ⟨rfl, rfl⟩ }
  case insertToken => exact { h with tokens := Table.kept_insert TokenRow.same.refl _ _ }
  case touchToken | revokeToken =>
    exact { h with tokens := Table.kept_update TokenRow.same.refl (fun _ => by rfl) fun _ _ => ⟨rfl, rfl, rfl⟩ }
  case insertWorkflow => exact { h with workflows := Table.kept_insert WorkflowRow.same.refl _ _ }
  case relist | amend | unlist | setOfficial =>
    exact { h with workflows := Table.kept_update WorkflowRow.same.refl (fun _ => by rfl) fun _ _ => ⟨rfl, rfl, rfl⟩ }
  case insertVersion => exact { h with versions := Table.kept_insert VersionRow.same.refl _ _ }
  case withdrawVersion =>
    exact { h with versions := Table.kept_update VersionRow.same.refl (fun _ => by rfl) fun _ _ => ⟨rfl, rfl, rfl, rfl, rfl⟩ }
  case insertInstall | refreshInstall | deleteInstall => exact { h with }

theorem grows_applyAll : ∀ (ws : List Write) (db : Db), db.Grows (registry.applyAll ws db)
  | [], db => .refl db
  | w :: ws, db => (w.grows db).trans (grows_applyAll ws _)

/-- A token but for when it was last used. -/
def TokenRow.unused (t : TokenRow) : TokenRow := { t with lastUsedAt := none }

theorem unused_touch (db : Db) (hash : String) (now : Timestamp) :
    ((Write.touchToken hash now).apply db).tokens.rows.map TokenRow.unused = db.tokens.rows.map TokenRow.unused := by
  show (db.tokens.rows.map _).map _ = _
  rw [List.map_map]
  refine List.map_congr_left fun t _ => ?_
  simp only [Function.comp_apply]
  split <;> rfl

/-! ### Where rows come from

Workflows, versions and tokens come from being inserted. -/

theorem workflows_apply {w : Write} {db : Db} {x : WorkflowRow} (h : x ∈ (w.apply db).workflows) :
    (∃ y ∈ db.workflows, y.same x) ∨ w = .insertWorkflow x := by
  cases w
  case insertWorkflow row =>
    rcases Table.exists_of_insert (q := fun y => y = x) ⟨x, h, rfl⟩ with ⟨y, hy, rfl⟩ | rfl
    · exact .inl ⟨y, hy, .refl y⟩
    · exact .inr rfl
  case relist | amend | unlist | setOfficial =>
    obtain ⟨y, hy, rfl⟩ := List.mem_map.mp h
    refine .inl ⟨y, hy, ?_⟩
    split <;> exact ⟨rfl, rfl, rfl⟩
  all_goals exact .inl ⟨x, h, .refl x⟩

theorem versions_apply {w : Write} {db : Db} {x : VersionRow} (h : x ∈ (w.apply db).versions) :
    (∃ y ∈ db.versions, y.same x) ∨ w = .insertVersion x := by
  cases w
  case insertVersion row =>
    rcases Table.exists_of_insert (q := fun y => y = x) ⟨x, h, rfl⟩ with ⟨y, hy, rfl⟩ | rfl
    · exact .inl ⟨y, hy, .refl y⟩
    · exact .inr rfl
  case withdrawVersion =>
    obtain ⟨y, hy, rfl⟩ := List.mem_map.mp h
    refine .inl ⟨y, hy, ?_⟩
    split <;> exact ⟨rfl, rfl, rfl, rfl, rfl⟩
  all_goals exact .inl ⟨x, h, .refl x⟩

theorem tokens_apply {w : Write} {db : Db} {x : TokenRow} (h : x ∈ (w.apply db).tokens) :
    (∃ y ∈ db.tokens, y.same x) ∨ w = .insertToken x := by
  cases w
  case insertToken row =>
    rcases Table.exists_of_insert (q := fun y => y = x) ⟨x, h, rfl⟩ with ⟨y, hy, rfl⟩ | rfl
    · exact .inl ⟨y, hy, .refl y⟩
    · exact .inr rfl
  case touchToken | revokeToken =>
    obtain ⟨y, hy, rfl⟩ := List.mem_map.mp h
    refine .inl ⟨y, hy, ?_⟩
    split <;> exact ⟨rfl, rfl, rfl⟩
  all_goals exact .inl ⟨x, h, .refl x⟩

/-- What one write can do to a table, several can. -/
theorem inserted_applyAll {ρ κ : Type} [Keyed ρ κ] [Key κ] {table : Db → Table ρ} {same : ρ → ρ → Prop}
    {insert : ρ → Write} (refl : ∀ x, same x x) (trans : ∀ {x y z}, same x y → same y z → same x z)
    (step : ∀ {w db x}, x ∈ table (Write.apply w db) → (∃ y ∈ table db, same y x) ∨ w = insert x) :
    ∀ (ws : List Write) {db : Db} {x : ρ}, x ∈ table (registry.applyAll ws db) →
      (∃ y ∈ table db, same y x) ∨ ∃ y, insert y ∈ ws ∧ same y x
  | [], _, x, h => .inl ⟨x, h, refl x⟩
  | w :: ws, _, _, h => by
    rcases inserted_applyAll refl trans step ws h with ⟨y, hy, hyx⟩ | ⟨y, hy, hyx⟩
    · rcases step hy with ⟨z, hz, hzy⟩ | rfl
      · exact .inl ⟨z, hz, trans hzy hyx⟩
      · exact .inr ⟨y, List.mem_cons_self, hyx⟩
    · exact .inr ⟨y, List.mem_cons_of_mem _ hy, hyx⟩

theorem workflows_applyAll (ws : List Write) {db : Db} {x : WorkflowRow} (h : x ∈ (registry.applyAll ws db).workflows) :
    (∃ y ∈ db.workflows, y.same x) ∨ ∃ y, .insertWorkflow y ∈ ws ∧ y.same x :=
  inserted_applyAll WorkflowRow.same.refl WorkflowRow.same.trans workflows_apply ws h

theorem versions_applyAll (ws : List Write) {db : Db} {x : VersionRow} (h : x ∈ (registry.applyAll ws db).versions) :
    (∃ y ∈ db.versions, y.same x) ∨ ∃ y, .insertVersion y ∈ ws ∧ y.same x :=
  inserted_applyAll VersionRow.same.refl VersionRow.same.trans versions_apply ws h

theorem tokens_applyAll (ws : List Write) {db : Db} {x : TokenRow} (h : x ∈ (registry.applyAll ws db).tokens) :
    (∃ y ∈ db.tokens, y.same x) ∨ ∃ y, .insertToken y ∈ ws ∧ y.same x :=
  inserted_applyAll TokenRow.same.refl TokenRow.same.trans tokens_apply ws h

/-! ### Well-formed tables -/

/-- The workflow has a version of that number, withdrawn or not. -/
def Db.published (db : Db) (w : Uuid) (k : ℤ) : Prop := ∃ v ∈ db.versions, v.workflowId = w ∧ v.version = k

/-- The versions of the workflow are 1, 2, …, n. -/
def Db.Numbered (db : Db) (w : Uuid) (n : ℤ) : Prop := ∀ k, db.published w k ↔ 1 ≤ k ∧ k ≤ n

structure Db.Sound (db : Db) : Prop where
  owned : ∀ w ∈ db.workflows, ∃ p ∈ db.publishers, p.id = w.publisherId
  numbered : ∀ w ∈ db.workflows, ∃ n, 1 ≤ n ∧ db.Numbered w.id n
  known : ∀ v ∈ db.versions, ∃ w ∈ db.workflows, w.id = v.workflowId
  installed : ∀ i ∈ db.installs, db.published i.workflowId i.version

/-- The same workflows with the same versions and no other installs. -/
structure Db.Alike (db db' : Db) : Prop where
  grows : db.Grows db'
  workflows : Table.Kept WorkflowRow.same db'.workflows db.workflows
  versions : Table.Kept VersionRow.same db'.versions db.versions
  installs : Table.Kept InstallRow.same db'.installs db.installs

theorem Db.Grows.published {db db' : Db} (h : db.Grows db') {w : Uuid} {k : ℤ} (hk : db.published w k) :
    db'.published w k := by
  obtain ⟨v, hv, hw, hn⟩ := hk
  obtain ⟨v', hv', he⟩ := h.versions v hv
  exact ⟨v', hv', he.1.trans hw, he.2.1.trans hn⟩

theorem Db.Alike.published {db db' : Db} (h : db.Alike db') {w : Uuid} {k : ℤ} :
    db'.published w k ↔ db.published w k := by
  refine ⟨fun ⟨v, hv, hw, hn⟩ => ?_, h.grows.published⟩
  obtain ⟨v', hv', he⟩ := h.versions v hv
  exact ⟨v', hv', he.1.trans hw, he.2.1.trans hn⟩

theorem Db.Alike.sound {db db' : Db} (h : db.Alike db') (hs : db.Sound) : db'.Sound where
  owned w' hw' := by
    obtain ⟨w, hw, he⟩ := h.workflows w' hw'
    obtain ⟨p, hp, hpw⟩ := hs.owned w hw
    obtain ⟨p', hp', he'⟩ := h.grows.publishers p hp
    exact ⟨p', hp', he'.1.trans (hpw.trans he.2.2)⟩
  numbered w' hw' := by
    obtain ⟨w, hw, he⟩ := h.workflows w' hw'
    obtain ⟨n, hn, hnum⟩ := hs.numbered w hw
    refine ⟨n, hn, fun k => ?_⟩
    rw [h.published, ← he.1, hnum]
  known v' hv' := by
    obtain ⟨v, hv, he⟩ := h.versions v' hv'
    obtain ⟨w, hw, hwv⟩ := hs.known v hv
    obtain ⟨w', hw', he'⟩ := h.grows.workflows w hw
    exact ⟨w', hw', he'.1.trans (hwv.trans he.1)⟩
  installed i' hi' := by
    obtain ⟨i, hi, he⟩ := h.installs i' hi'
    have := hs.installed i hi
    rw [he.1, he.2] at this
    exact h.published.mpr this

/-- A write that neither adds a workflow, a version or an install nor moves
an install to another version. -/
def Write.steady : Write → Bool
  | .insertWorkflow _ | .insertVersion _ | .insertInstall _ | .refreshInstall .. => false
  | _ => true

theorem Write.alike {w : Write} (hw : w.steady = true) (db : Db) : db.Alike (w.apply db) := by
  have hW := Table.Kept.refl WorkflowRow.same.refl db.workflows
  have hV := Table.Kept.refl VersionRow.same.refl db.versions
  have hI := Table.Kept.refl InstallRow.same.refl db.installs
  have hg := w.grows db
  cases w
  case insertWorkflow | insertVersion | insertInstall | refreshInstall => cases hw
  case relist | amend | unlist | setOfficial =>
    exact ⟨hg, Table.kept_of_update WorkflowRow.same.refl (fun _ => by rfl) fun _ _ => ⟨rfl, rfl, rfl⟩, hV, hI⟩
  case withdrawVersion =>
    exact ⟨hg, hW, Table.kept_of_update VersionRow.same.refl (fun _ => by rfl) fun _ _ => ⟨rfl, rfl, rfl, rfl, rfl⟩, hI⟩
  case deleteInstall =>
    exact ⟨hg, hW, hV, fun i hi => ⟨i, (Table.mem_delete.mp hi).1, rfl, rfl⟩⟩
  all_goals exact ⟨hg, hW, hV, hI⟩

end HarnessRegistry

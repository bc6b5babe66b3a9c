/-
# What is published stays published

Once `version_document` answers for a slug and a number, it answers with the
same document for ever, whatever requests are served in between: unlisting and
blocking hide a workflow from the library, not from those who installed it.
The tables only grow (`Db.Grows`), and the reads by slug and number do not
look at `unlisted_at`, `withdrawn_at` or `blocked_at`.

Key definitions: `Db.Holds`.
Key theorems: `alone_versionDocument_iff`, `Db.Holds.grows`, `document_kept`.
-/
import HarnessRegistry.Runs

namespace HarnessRegistry

open Txn Handler

variable {app : AppState} {db db' db₀ : Db} {s s' : Registry}

/-! ### The reads by slug and number -/

/-- The database has the document, at workflow `id` of `publisher`. -/
def Db.Holds (db : Db) (doc : VersionDocument) (id publisher : Uuid) : Prop :=
  (∃ w ∈ db.workflows, w.slug = doc.slug ∧ w.id = id ∧ w.publisherId = publisher) ∧
    ∃ v ∈ db.versions, v.workflowId = id ∧ v.version = doc.version ∧ v.yaml = doc.yaml ∧
      v.changelog = doc.changelog ∧ v.publishedAt = doc.publishedAt

theorem Db.Holds.grows {doc : VersionDocument} {id publisher : Uuid} (h : db.Holds doc id publisher)
    (hg : db.Grows db') : db'.Holds doc id publisher := by
  obtain ⟨⟨w, hw, hslug, hid, hpub⟩, v, hv, hvid, hn, hy, hc, hp⟩ := h
  obtain ⟨w', hw', he⟩ := hg.workflows w hw
  obtain ⟨v', hv', he'⟩ := hg.versions v hv
  exact ⟨⟨w', hw', he.2.1.trans hslug, he.1.trans hid, he.2.2.trans hpub⟩, v', hv', he'.1.trans hvid,
    he'.2.1.trans hn, he'.2.2.1.trans hy, he'.2.2.2.1.trans hc, he'.2.2.2.2.trans hp⟩

/-- A slug is looked up whether or not its workflow is listed. -/
theorem alone_workflowId {env : Env} {slug : String} {g : Uuid → Handler Reply} (hnul : hasNul slug = false) :
    alone env (workflowId slug >>= g) db = match db.workflows.find? fun w => w.slug == slug with
      | none => some (.error (.notFound "workflow"), db)
      | some w => alone env (g w.id) db := by
  have hx : Stmt.exec env (.workflowId slug) db =
      .ok ((db.workflows.find? fun w => w.slug == slug).map (·.id), []) := exec_eq_run (by simp [Stmt.texts, hnul])
  unfold workflowId
  rw [query, bind_assoc, alone_ok hx]
  cases db.workflows.find? fun w => w.slug == slug with
  | none => rfl
  | some w => rfl

theorem alone_workflowId_nul {env : Env} {slug : String} {g : Uuid → Handler Reply} (hnul : hasNul slug = true) :
    alone env (workflowId slug >>= g) db = some (.error (.database .other), db) := by
  have hx : Stmt.exec env (.workflowId slug) db = .error .other := if_pos (by simp [Stmt.texts, hnul])
  unfold workflowId
  rw [query, bind_assoc, alone_error hx]

theorem alone_versions {env : Env} {slug : String} (hnul : hasNul slug = false) :
    alone env (versions slug) db = match db.workflows.find? fun w => w.slug == slug with
      | none => some (.error (.notFound "workflow"), db)
      | some w => some (.ok (.versions (((db.versions.rows.filter fun v => v.workflowId == w.id).insertionSort
          fun a b => b.version ≤ a.version).map (·.summary))), db) := by
  unfold versions
  rw [alone_workflowId hnul]
  cases db.workflows.find? fun w => w.slug == slug with
  | none => rfl
  | some w =>
    have hx : Stmt.exec env (.versions w.id) db = .ok (((db.versions.rows.filter fun v =>
        v.workflowId == w.id).insertionSort fun a b => b.version ≤ a.version).map (·.summary), []) :=
      exec_eq_run (by simp [Stmt.texts])
    dsimp only
    rw [query, alone_ok hx]
    rfl

theorem find_slug {w : WorkflowRow} (hw : w ∈ db.workflows) :
    db.workflows.find? (fun x => x.slug == w.slug) = some w := by
  refine (Table.find?_eq_some fun x y hx hy => ?_).mpr ⟨hw, by simp⟩
  simp only [beq_iff_eq] at hx hy
  exact (clash_workflow _ _).mpr (.inr (hx.trans hy.symm))

theorem find_version {v : VersionRow} (hv : v ∈ db.versions) :
    db.versions.find? (fun x => x.workflowId == v.workflowId && x.version == v.version) = some v := by
  refine (Table.find?_eq_some fun x y hx hy => ?_).mpr ⟨hv, by simp⟩
  simp only [Bool.and_eq_true, beq_iff_eq] at hx hy
  exact (clash_version _ _).mpr ⟨hx.1.trans hy.1.symm, hx.2.trans hy.2.symm⟩

/-- And a version is read whether or not it was withdrawn. -/
theorem alone_versionDocument_iff {env : Env} {slug : String} {n : ℤ} {reply : Reply} :
    alone env (versionDocument slug n) db = some (.ok reply, db') ↔ db' = db ∧ hasNul slug = false ∧
      ∃ w ∈ db.workflows, w.slug = slug ∧ ∃ v ∈ db.versions, v.workflowId = w.id ∧ v.version = n ∧
        reply = .document ⟨slug, v.version, v.yaml, v.changelog, v.publishedAt, v.withdrawnAt.isSome⟩ := by
  unfold versionDocument
  cases hnul : hasNul slug with
  | true =>
    rw [alone_workflowId_nul hnul]
    simp
  | false =>
    have hx : ∀ id, Stmt.exec env (.document id n) db =
        .ok ((db.versions.find? fun v => v.workflowId == id && v.version == n).map
          fun v => (v.version, v.yaml, v.changelog, v.publishedAt, v.withdrawnAt.isSome), []) :=
      fun id => exec_eq_run (by simp [Stmt.texts])
    rw [alone_workflowId hnul]
    constructor
    · intro h
      cases hf : db.workflows.find? fun w => w.slug == slug with
      | none => rw [hf] at h; cases h
      | some w =>
        rw [hf] at h
        dsimp only at h
        rw [query, alone_ok (hx w.id)] at h
        cases hv : db.versions.find? fun v => v.workflowId == w.id && v.version == n with
        | none => rw [hv] at h; cases h
        | some v =>
          rw [hv] at h
          cases h
          obtain ⟨hw, hslug⟩ := Table.mem_of_find? hf
          obtain ⟨hv, hvn⟩ := Table.mem_of_find? hv
          simp only [beq_iff_eq, Bool.and_eq_true] at hslug hvn
          exact ⟨rfl, rfl, w, hw, hslug, v, hv, hvn.1, hvn.2, rfl⟩
    · rintro ⟨rfl, -, w, hw, rfl, v, hv, hvid, rfl, rfl⟩
      have hfind := find_version hv
      rw [hvid] at hfind
      rw [find_slug hw]
      dsimp only
      rw [query, alone_ok (hx w.id), hfind]
      rfl

/-- What `version_document` answers with is in the tables. -/
theorem holds_of_alone {env : Env} {slug : String} {n : ℤ} {doc : VersionDocument}
    (h : alone env (versionDocument slug n) db = some (.ok (.document doc), db')) :
    hasNul slug = false ∧ doc.slug = slug ∧ doc.version = n ∧ ∃ id publisher, db.Holds doc id publisher := by
  obtain ⟨-, hnul, w, hw, hslug, v, hv, hvid, hn, he⟩ := alone_versionDocument_iff.mp h
  cases he
  exact ⟨hnul, rfl, hn, w.id, w.publisherId, ⟨w, hw, hslug, rfl, rfl⟩, v, hv, hvid, rfl, rfl, rfl, rfl⟩

/-- And what is in the tables is answered with. -/
theorem Db.Holds.document {doc : VersionDocument} {id publisher : Uuid} (h : db.Holds doc id publisher)
    (hnul : hasNul doc.slug = false) (env : Env) :
    ∃ withdrawn, alone env (versionDocument doc.slug doc.version) db =
      some (.ok (.document { doc with withdrawn }), db) := by
  obtain ⟨⟨w, hw, hslug, hid, -⟩, v, hv, hvid, hn, hy, hc, hp⟩ := h
  refine ⟨v.withdrawnAt.isSome, alone_versionDocument_iff.mpr ⟨rfl, hnul, w, hw, hslug, v, hv, hvid.trans hid.symm, hn, ?_⟩⟩
  rw [← hn, ← hy, ← hc, ← hp]

/-- `versions` lists it too. -/
theorem Db.Holds.versions {doc : VersionDocument} {id publisher : Uuid} (h : db.Holds doc id publisher)
    (hnul : hasNul doc.slug = false) (env : Env) :
    ∃ rows, alone env (HarnessRegistry.versions doc.slug) db = some (.ok (.versions rows), db) ∧
      ∃ withdrawn, ⟨doc.version, doc.changelog, doc.publishedAt, withdrawn⟩ ∈ rows := by
  obtain ⟨⟨w, hw, hslug, hid, -⟩, v, hv, hvid, hn, -, hc, hp⟩ := h
  have hfw := find_slug hw
  rw [hslug] at hfw
  have hmem : v ∈ (db.versions.rows.filter fun v => v.workflowId == w.id).insertionSort
      fun a b => b.version ≤ a.version := by
    rw [List.mem_insertionSort, List.mem_filter]
    exact ⟨hv, by simp [hvid, hid]⟩
  rw [alone_versions hnul, hfw]
  refine ⟨_, rfl, v.withdrawnAt.isSome, ?_⟩
  rw [← hn, ← hc, ← hp]
  exact List.mem_map_of_mem (f := VersionRow.summary) hmem

/-! ### Later requests -/

/-- While the tables grow. -/
def DocumentRule : Rule registry := ⟨Db.Grows, Db.Sound, fun _ _ _ => True⟩

/-- What a later request is answered satisfies what its handler ensures of every
answer. -/
theorem Good.answer {Q : Except Error Reply → Prop} {as : List (Action registry Request)} {r : ℕ} {t : Call}
    {out : Except Error Reply} (hg : Good app s) (hrun : s.run (handle app) as = some s') (hr : s.tasks.length ≤ r)
    (ht : s'.tasks[r]? = some t) (ha : t.answered = some out)
    (hwp : ∀ bs u, s.run (handle app) bs = some u →
      (handle app t.req).Wp DocumentRule none [] u.db fun out _ _ _ => Q out) : Q out := by
  have hends := Contract.follow_arrival (R := DocumentRule) (Q := fun out _ _ => Q out) hg
    Db.Grows.refl Db.Grows.trans (fun hs => hs) (fun _ _ _ _ hq _ _ => hq) hr hrun ht hwp
    fun as₁ a s₁ s₂ hmv _ _ => Good.grows (Contract.run_good hg hmv.before) hmv.step
  obtain ⟨hgone, hprog⟩ := Task.answered_eq.mp ha
  have hend := hends hgone
  rwa [hprog, Prog.wp_ret] at hend

/-- The answer is the document, but for the flag, or a database error. -/
def IsDocument (doc : VersionDocument) (out : Except Error Reply) : Prop :=
  (∃ e, out = .error (.database e)) ∨ ∃ withdrawn, out = .ok (.document { doc with withdrawn })

theorem versionDocument_kept {doc : VersionDocument} {id publisher : Uuid} (h : db.Holds doc id publisher) :
    Wp DocumentRule (versionDocument doc.slug doc.version) none [] db fun out _ _ _ => IsDocument doc out := by
  unfold versionDocument workflowId
  rw [query, bind_assoc]
  refine wp_read rfl (fun _ e _ _ => .inl ⟨e, rfl⟩) fun db₁ env a hr _ ha => ?_
  have h₁ := h.grows hr
  obtain ⟨w, hw, hslug, hid, -⟩ := h₁.1
  have hfw := find_slug hw
  rw [hslug] at hfw
  simp only [Stmt.run, hfw] at ha
  cases ha
  refine wp_read rfl (fun _ e _ _ => .inl ⟨e, rfl⟩) fun db₂ env a hr _ ha => ?_
  obtain ⟨-, v, hv, hvid, hn, hy, hc, hp⟩ := h₁.grows hr
  have hfv := find_version hv
  rw [hvid, hn] at hfv
  simp only [Stmt.run, hid, hfv] at ha
  cases ha
  exact wp_pure.mpr (.inr ⟨v.withdrawnAt.isSome, by rw [hn, hy, hc, hp]⟩)

/-- Once a slug is in use nobody creates a workflow of it. -/
theorem no_create {as : List (Action registry Request)} (hg : Good app s) (hrun : s.run (handle app) as = some s')
    {slug : String} (hslug : ∃ w ∈ s.db.workflows, w.slug = slug) {r : ℕ} {row : WorkflowRow}
    (hlog : (some r, .insertWorkflow row) ∈ s'.log) (hrow : row.slug = slug) :
    (some r, .insertWorkflow row) ∈ s.log := by
  have key : Good app s' ∧ (∃ w ∈ s'.db.workflows, w.slug = slug) ∧
      ∀ (r : ℕ) row, (some r, .insertWorkflow row) ∈ s'.log → row.slug = slug →
        (some r, .insertWorkflow row) ∈ s.log := by
    refine Pool.run_induct (P := fun s' => Good app s' ∧ (∃ w ∈ s'.db.workflows, w.slug = slug) ∧
      ∀ (r : ℕ) row, (some r, .insertWorkflow row) ∈ s'.log → row.slug = slug →
        (some r, .insertWorkflow row) ∈ s.log) ⟨hg, hslug, fun r row h _ => h⟩ ?_ hrun
    intro s₁ a s₂ ⟨hg₁, ⟨w, hw, hws⟩, hold⟩ hst
    obtain ⟨w', hw', he⟩ := (Good.grows hg₁ hst).workflows w hw
    refine ⟨Contract.step_good hg₁ hst, ⟨w', hw', he.2.1.trans hws⟩, fun r row hm hr => hold r row ?_ hr⟩
    rcases Contract.step_cases hg₁ hst with ⟨-, hl, -⟩ | ⟨v, -, -, hl, -⟩ | ⟨i, t, t', ws, -, -, hf, -, hl, -⟩
    · rwa [hl] at hm
    · rw [hl] at hm
      exact (List.mem_append.mp hm).resolve_right (by simp)
    · rw [hl] at hm
      refine (List.mem_append.mp hm).resolve_right fun hm => ?_
      obtain ⟨v, hv, he⟩ := List.mem_map.mp hm
      cases he
      exact hf.2 (.slug slug) (List.mem_flatMap.mpr ⟨_, hv, by simp [Write.claims, hr]⟩) ⟨w, hw, hws⟩
  exact key.2.2 r row hlog hrow

/-- A create that has succeeded has put a workflow of its slug in. -/
theorem Effect.creates {h : HeaderMap} {body : CreateWorkflow} {ws : List Write} {reply : Reply}
    (he : Effect app (.create h body) db ws reply) : ∃ row, .insertWorkflow row ∈ ws ∧ row.slug = body.slug := by
  cases he with
  | created => exact ⟨_, List.mem_cons_self, rfl⟩

/-- **What is published stays published.** When `version_document` answers with
a document, then in every later state it answers with the same but for the
flag, `versions` lists the number, the slug is of the same workflow of the same
publisher, no create with the slug has succeeded since; and a request for it
that comes later, interleaved with whatever else, is answered with it too,
unless the database fails. -/
theorem document_kept (h0 : db₀.Sound) (h : Reached app db₀ s) {env : Env} {slug : String} {n : ℤ}
    {doc : VersionDocument}
    (hdoc : (handle app (.versionDocument slug n)).alone (S := registry) env none s.db = some (.ok (.document doc), db'))
    {as : List (Action registry Request)} (hrun : s.run (handle app) as = some s') :
    (∀ env, ∃ withdrawn, (handle app (.versionDocument slug n)).alone (S := registry) env none s'.db =
      some (.ok (.document { doc with withdrawn }), s'.db)) ∧
    (∀ env, ∃ rows, (handle app (.versions slug)).alone (S := registry) env none s'.db =
      some (.ok (.versions rows), s'.db) ∧ ∃ withdrawn, ⟨n, doc.changelog, doc.publishedAt, withdrawn⟩ ∈ rows) ∧
    (∃ w ∈ s.db.workflows, ∃ w' ∈ s'.db.workflows, w.slug = slug ∧ w'.slug = slug ∧ w'.id = w.id ∧
      w'.publisherId = w.publisherId) ∧
    (∀ (r : ℕ) (t' : Call) (headers : HeaderMap) (body : CreateWorkflow) (reply : Reply), s'.tasks[r]? = some t' →
      t'.req = .create headers body → body.slug = slug → t'.answered = some (.ok reply) →
      ∃ t reply', s.tasks[r]? = some t ∧ t.answered = some (.ok reply')) ∧
    ∀ (r : ℕ) (t' : Call) (out : Except Error Reply), s.tasks.length ≤ r → s'.tasks[r]? = some t' →
      t'.req = .versionDocument slug n → t'.answered = some out → IsDocument doc out := by
  have hg := h.good h0
  have hg' := Contract.run_good hg hrun
  obtain ⟨hnul, rfl, rfl, id, publisher, hholds⟩ := holds_of_alone hdoc
  have hholds' := hholds.grows (Contract.run_rely hg hrun)
  have hslugs : ∃ w ∈ s.db.workflows, w.slug = doc.slug := by
    obtain ⟨⟨w, hw, hslug, -⟩, -⟩ := hholds
    exact ⟨w, hw, hslug⟩
  refine ⟨hholds'.document hnul, hholds'.versions hnul, ?_, ?_, ?_⟩
  · obtain ⟨⟨w, hw, hslug, hid, hpub⟩, -⟩ := hholds
    obtain ⟨⟨w', hw', hslug', hid', hpub'⟩, -⟩ := hholds'
    exact ⟨w, hw, w', hw', hslug, hslug', hid'.trans hid.symm, hpub'.trans hpub.symm⟩
  · intro r t' headers body reply ht' hreq hslug ha
    rcases Good.succeeded hg' ht' ha with ⟨hp, -⟩ | ⟨pre, ws, db₁, hdone, -, he, -⟩
    · rw [hreq] at hp
      cases hp
    · rw [hreq] at he
      obtain ⟨row, hrow, hrs⟩ := he.creates
      have hlog := (Good.logged_done hg' ht').mp (hdone ▸ List.mem_append_right pre hrow)
      have hold := no_create hg hrun hslugs hlog (hrs.trans hslug)
      obtain ⟨t, reply', ht, ha⟩ := h.succeeded h0 hold rfl
      exact ⟨t, reply', ht, ha⟩
  · intro r t' out hr ht' hreq ha
    exact Good.answer hg hrun hr ht' ha fun _ u hu => by
      rw [hreq]
      exact versionDocument_kept (hholds.grows (Contract.run_rely hg hu))

/-- Published, then unlisted. -/
theorem document_kept_unlisted :
    ∃ s s', Reached Sample.replica Sample.library s ∧
      s.run (handle Sample.replica)
        (Sample.serve 20 1 (.unlist (Sample.headers (Sample.token 0)) "first") 4) = some s' ∧
      s'.db.listed 1 = 0 ∧
      ∀ env, ∃ withdrawn, (handle Sample.replica (.versionDocument "first" 1)).alone (S := registry) env none s'.db =
        some (.ok (.document ⟨"first", 1, "steps: []", none, 13000000, withdrawn⟩), s'.db) := by
  have h : ((Sample.after (Sample.serve 10 0 (Sample.create 0 "first") 7)).map fun s =>
      (((handle Sample.replica (.versionDocument "first" 1)).alone (S := registry) (Sample.env 0) none s.db).map Prod.fst,
        (s.run (handle Sample.replica) (Sample.serve 20 1 (.unlist (Sample.headers (Sample.token 0)) "first") 4)).map
          fun s => s.db.listed 1)) =
      some (some (.ok (.document ⟨"first", 1, "steps: []", none, 13000000, false⟩)), some 0) := by decide +kernel
  obtain ⟨s, hr, h⟩ := Sample.reached h
  obtain ⟨hdoc, hrun⟩ := Prod.mk.inj h
  obtain ⟨⟨out, db'⟩, hdoc, rfl⟩ := Option.map_eq_some_iff.mp hdoc
  obtain ⟨s', hrun, hl⟩ := Option.map_eq_some_iff.mp hrun
  exact ⟨s, s', hr, hrun, hl, (document_kept Sample.initial.sound hr hdoc hrun).1⟩

end HarnessRegistry

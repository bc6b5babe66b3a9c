/-
# Version numbers under concurrency

However the statements, commits and rollbacks of creates and publishes
interleave, the versions of a workflow are 1, 2, …, n, and the requests that
succeeded are one to one with the version rows: no publish is lost, doubled,
or leaves a gap. `Ledger` is the invariant: every version row was put in by a
request, and no two requests put in the same number.

Key definitions: `Made`, `Request.publishes`, `Ledger`.
Key theorems: `Effect.version`, `Reached.ledger`, `conflict_answered`,
`versions_numbered`.
-/
import HarnessRegistry.Runs

namespace HarnessRegistry

open Txn

variable {app : AppState} {db db₀ : Db} {s s' : Registry}

/-- The request put in the version row `v`, which may have been withdrawn
since. -/
def Made (t : Call) (v : VersionRow) : Prop := ∃ row, .insertVersion row ∈ t.done ∧ row.same v

/-- What a request publishes: the slug, the document and the changelog. -/
def Request.publishes : Request → Option (String × String × Option String)
  | .create _ body => some (body.slug, body.yaml, body.changelog)
  | .publishVersion _ slug body => some (slug, body.yaml, body.changelog)
  | _ => none

/-! ### One request, one row -/

theorem Preparing.no_version {done : List Write} {row : VersionRow} (h : Preparing done) :
    .insertVersion row ∉ done := fun hm => by cases h _ hm

/-- The workflow of that id, which the request found or created. -/
def Names (db : Db) (ws : List Write) (slug : String) (id : Uuid) : Prop :=
  (∃ w ∈ db.workflows, w.slug = slug ∧ w.id = id) ∨ ∃ w, .insertWorkflow w ∈ ws ∧ w.slug = slug ∧ w.id = id

/-- The version row of an effect is what its request publishes and its answer
names, and it is the only one. -/
theorem Effect.version {req : Request} {ws : List Write} {reply : Reply} {row : VersionRow}
    (h : Effect app req db ws reply) (hm : .insertVersion row ∈ ws) :
    ∃ slug, req.publishes = some (slug, row.yaml, row.changelog) ∧ reply = .published slug row.version ∧
      Names db ws slug row.workflowId ∧ ∀ row', .insertVersion row' ∈ ws → row' = row := by
  cases h with
  | @created h body db p env hh hv =>
    simp only [List.mem_cons, List.not_mem_nil, or_false, reduceCtorEq, false_or, Write.insertVersion.injEq] at hm
    subst hm
    exact ⟨body.slug, rfl, rfl, .inr ⟨_, List.mem_cons_self, rfl, rfl⟩, by simp⟩
  | @published h slug body db w n now hw hslug hh hv hn =>
    simp only [List.mem_cons, List.not_mem_nil, or_false, reduceCtorEq, Write.insertVersion.injEq] at hm
    subst hm
    exact ⟨slug, rfl, rfl, .inl ⟨w, hw, hslug, rfl⟩, by simp⟩
  | issued _ _ hu => cases hu <;> simp at hm
  | _ => simp at hm

/-- A request that publishes has an effect only by a version row. -/
theorem Effect.publishes {req : Request} {ws : List Write} {reply : Reply} (h : Effect app req db ws reply)
    (hp : req.publishes ≠ none) : ∃ row, .insertVersion row ∈ ws := by
  cases h
  case created => exact ⟨_, List.mem_cons_of_mem _ List.mem_cons_self⟩
  case published => exact ⟨_, List.mem_cons_self⟩
  all_goals exact absurd rfl hp

/-- So a request puts in one row at most. -/
theorem Committed.version_unique {req : Request} {done : List Write} {row row' : VersionRow}
    (h : Committed app req db done) (hm : .insertVersion row ∈ done) (hm' : .insertVersion row' ∈ done) :
    row' = row := by
  cases h with
  | preparing h _ => exact absurd hm h.no_version
  | effect h he _ =>
    have hm := (List.mem_append.mp hm).resolve_left h.no_version
    have hm' := (List.mem_append.mp hm').resolve_left h.no_version
    obtain ⟨_, -, -, -, hu⟩ := he.version hm
    exact hu _ hm'

/-- And only a request that publishes does. -/
theorem Committed.publishes {req : Request} {done : List Write} {row : VersionRow}
    (h : Committed app req db done) (hm : .insertVersion row ∈ done) : req.publishes ≠ none := by
  cases h with
  | preparing h _ => exact absurd hm h.no_version
  | effect h he _ =>
    obtain ⟨_, hp, -⟩ := he.version ((List.mem_append.mp hm).resolve_left h.no_version)
    simp [hp]

/-! ### The ledger -/

/-- Every version row is some request's, and no number is two requests'. -/
structure Ledger (s : Registry) : Prop where
  made : ∀ v ∈ s.db.versions, ∃ r row, (some r, .insertVersion row) ∈ s.log ∧ row.same v
  one : ∀ r r' row row', (some r, .insertVersion row) ∈ s.log → (some r', .insertVersion row') ∈ s.log →
    row.workflowId = row'.workflowId → row.version = row'.version → r = r'

theorem Ledger.step {a : Action registry Request} (hl : Ledger s) (hg : Good app s)
    (hp : ∀ e ∈ s.log, e.2.present s.db) (hst : s.step (handle app) a = some s') : Ledger s' := by
  rcases Contract.step_cases hg hst with ⟨hd, hlog, -⟩ | ⟨w, hw, hd, hlog, -⟩ | ⟨r, t, t', ws, -, -, hf, hd, hlog, -⟩
  · exact ⟨by rw [hd, hlog]; exact hl.made, by rw [hlog]; exact hl.one⟩
  · have hold : ∀ {r row}, (some r, .insertVersion row) ∈ s'.log → (some r, .insertVersion row) ∈ s.log := by
      intro r row hm
      rw [hlog] at hm
      exact (List.mem_append.mp hm).resolve_right (by simp)
    refine ⟨fun v hv => ?_, fun r r' row row' h h' => hl.one r r' row row' (hold h) (hold h')⟩
    rw [hd] at hv
    rcases versions_apply hv with ⟨u, hu, he⟩ | rfl
    · obtain ⟨r, row, hm, hs⟩ := hl.made u hu
      exact ⟨r, row, by rw [hlog]; exact List.mem_append_left _ hm, hs.trans he⟩
    · cases hw
  · have hnew : ∀ {i row}, (some i, .insertVersion row) ∈ s'.log →
        (some i, .insertVersion row) ∈ s.log ∨ (i = r ∧ .insertVersion row ∈ ws) := by
      intro i row hm
      rw [hlog] at hm
      rcases List.mem_append.mp hm with hm | hm
      · exact .inl hm
      · obtain ⟨w, hw, he⟩ := List.mem_map.mp hm
        cases he
        exact .inr ⟨rfl, hw⟩
    -- a row that is there has a number that the new rows do not
    have apart : ∀ {i row row'}, (some i, .insertVersion row) ∈ s.log → .insertVersion row' ∈ ws →
        row.workflowId = row'.workflowId → row.version = row'.version → False := by
      intro i row row' hm hm' hw hv
      obtain ⟨v, hvm, he⟩ := hp _ hm
      refine hf.2 (.version row'.workflowId row'.version) ?_ ⟨v, hvm, he.1.trans hw, he.2.1.trans hv⟩
      exact List.mem_flatMap.mpr ⟨_, hm', by simp [Write.claims]⟩
    refine ⟨fun v hv => ?_, fun i j row row' hi hj hw hv => ?_⟩
    · rw [hd] at hv
      rcases versions_applyAll ws hv with ⟨u, hu, he⟩ | ⟨row, hrow, he⟩
      · obtain ⟨i, row, hm, hs⟩ := hl.made u hu
        exact ⟨i, row, by rw [hlog]; exact List.mem_append_left _ hm, hs.trans he⟩
      · exact ⟨r, row, by rw [hlog]; exact List.mem_append_right _ (List.mem_map.mpr ⟨_, hrow, rfl⟩), he⟩
    · rcases hnew hi with hi | ⟨rfl, hi⟩ <;> rcases hnew hj with hj | ⟨rfl, hj⟩
      · exact hl.one i j row row' hi hj hw hv
      · exact (apart hi hj hw hv).elim
      · exact (apart hj hi hw.symm hv.symm).elim
      · rfl

theorem Reached.ledger (h0 : db₀.Initial) (h : Reached app db₀ s) : Ledger s := by
  refine h.induct (P := Ledger) h0.sound ⟨?_, ?_⟩ fun s a s' hr hg ih hst => ih.step hg (hr.present h0.sound) hst
  · intro v hv
    simp [Registry.start, h0.versions] at hv
  · intro r r' row row' hm
    simp [Registry.start] at hm

/-! ### Answers -/

/-- What became of a request that publishes: it is answered, and names the
one row it put in, which is its document under its slug; or it is not, and put
in none. -/
theorem publish_outcome (h0 : db₀.Initial) (h : Reached app db₀ s) {r : ℕ} {t : Call} {slug yaml : String}
    {changelog : Option String} (ht : s.tasks[r]? = some t) (hp : t.req.publishes = some (slug, yaml, changelog)) :
    (∃ v ∈ s.db.versions, t.answered = some (.ok (.published slug v.version)) ∧ v.yaml = yaml ∧
        v.changelog = changelog ∧ (∃ w ∈ s.db.workflows, w.slug = slug ∧ w.id = v.workflowId) ∧
        ∀ u ∈ s.db.versions, Made t u ↔ u = v) ∨
      (∀ reply, t.answered ≠ some (.ok reply)) ∧ ∀ v, ¬ Made t v := by
  have hg := h.good h0.sound
  have hnone : Preparing t.done → ∀ v, ¬ Made t v := fun hd v ⟨row, hrow, _⟩ => hd.no_version hrow
  by_cases ha : ∃ reply, t.answered = some (.ok reply)
  · left
    obtain ⟨reply, ha⟩ := ha
    have hcom := h.committed h0.sound r t ht
    rcases hg.succeeded ht ha with ⟨hpl, -⟩ | ⟨pre, ws, db₁, hdone, -, he, hgr⟩
    · cases hreq : t.req <;> rw [hreq] at hpl hp <;> cases hpl <;> cases hp
    · -- it has had its effect
      obtain ⟨row, hrow⟩ := he.publishes (by rw [hp]; simp)
      obtain ⟨slug', hpub, rfl, hnames, -⟩ := he.version hrow
      rw [hp] at hpub
      simp only [Option.some.injEq, Prod.mk.injEq] at hpub
      obtain ⟨rfl, rfl, rfl⟩ := hpub
      have hmem : ∀ {w}, w ∈ ws → w ∈ t.done := fun hw => by
        rw [hdone]; exact List.mem_append_right _ hw
      obtain ⟨v, hv, hsame⟩ := h.present h0.sound _ ((hg.logged_done ht).mp (hmem hrow))
      refine ⟨v, hv, by rw [hsame.2.1]; exact ha, hsame.2.2.1, hsame.2.2.2.1, ?_, fun u hu => ?_⟩
      · rw [hsame.1]
        rcases hnames with ⟨w, hw, hslug, hid⟩ | ⟨w, hw, hslug, hid⟩
        · obtain ⟨w', hw', hs'⟩ := ((grows_applyAll ws db₁).trans hgr).workflows w hw
          exact ⟨w', hw', hs'.2.1.trans hslug, hs'.1.trans hid⟩
        · obtain ⟨w', hw', hs'⟩ := h.present h0.sound _ ((hg.logged_done ht).mp (hmem hw))
          exact ⟨w', hw', hs'.2.1.trans hslug, hs'.1.trans hid⟩
      · constructor
        · rintro ⟨row', hrow', hsame'⟩
          obtain rfl := hcom.version_unique (hmem hrow) hrow'
          exact VersionRow.eq_of_number hu hv (hsame'.1.trans hsame.1.symm) (hsame'.2.1.trans hsame.2.1.symm)
        · rintro rfl
          exact ⟨row, hmem hrow, hsame⟩
  · have ha : ∀ reply, t.answered ≠ some (.ok reply) := fun reply hr => ha ⟨reply, hr⟩
    refine .inr ⟨ha, hnone ?_⟩
    exact (effect_answered h0.sound h r t ht).resolve_right fun ⟨reply, hr⟩ => ha reply hr

/-- A number that is taken is refused. -/
theorem exec_taken {env : Env} {w : Uuid} {n : ℤ} {yaml : String} {changelog : Option String}
    (htext : (yaml :: changelog.toList).any hasNul = false) (htaken : db.published w n) :
    Stmt.exec env (.insertVersion w n yaml changelog) db = .error .uniqueViolation := by
  obtain ⟨v, hv, hw, hn⟩ := htaken
  have hhas : db.versions.has ⟨w, n⟩ := ⟨v, hv, by simp [hw, hn]⟩
  rw [exec_eq_run (q := .insertVersion w n yaml changelog) htext]
  exact if_pos hhas

/-- A publish whose number is taken by the time it inserts answers 409 and
rolls back. -/
theorem conflict_answered (h : Reached app db₀ s) {r : ℕ} {t : Call} {headers : HeaderMap} {slug : String}
    {body : PublishVersion} {w : Uuid} {n : ℤ} {yaml : String} {changelog : Option String}
    {k : Except SqlError ℤ → Prog registry (Except Error Reply)} (env : Env) (ht : s.tasks[r]? = some t)
    (hreq : t.req = .publishVersion headers slug body) (hgone : t.gone = false)
    (hprog : t.prog = .stmt (S := registry) (.insertVersion w n yaml changelog) k)
    (htext : (yaml :: changelog.toList).any hasNul = false) (htaken : s.db.published w n) :
    ∃ s' t', s.step (handle app) (.task r (.go env)) = some s' ∧ s'.db = s.db ∧ s'.log = s.log ∧
      s'.tasks[r]? = some t' ∧ t'.done = t.done ∧
      ∃ e, t'.answered = some (.error e) ∧ e.intoResponse.1 = 409 := by
  obtain ⟨as, has⟩ := h
  have hc := Pool.run_every (handle_concludes app) rfl has ht
  rw [hreq, hprog] at hc
  have hk := hc ⟨headers, slug, body, rfl⟩
  have hm : t.move s.db (.go env) =
      some (t.next (.ret (.error (.conflict "a concurrent publish took that version; retry"))) none [], []) := by
    rw [← hk]
    simp only [Task.move, hgone, hprog, Bool.false_eq_true, if_false]
    cases t.tx with
    | none =>
      dsimp only
      rw [exec_taken htext htaken]
    | some x =>
      dsimp only
      rw [exec_taken htext ((grows_applyAll x.writes s.db).published htaken)]
  have hfree : s.free (some r) [] := Pool.free_iff.mpr fun _ _ _ _ _ _ => by simp [Pool.lockset]
  let t' := t.next (.ret (.error (.conflict "a concurrent publish took that version; retry"))) none []
  have hst : s.step (handle app) (.task r (.go env)) = some (s.moved r t' []) := by
    simp [Pool.step, ht, hm, Task.pending, Task.next, Task.settle, hfree, t']
  refine ⟨_, t', hst, rfl, by simp [Pool.moved], Pool.task_moved ht, by simp [t', Task.next],
    _, Task.answered_eq.mpr ⟨hgone, rfl⟩, rfl⟩

/-- **Version numbers under concurrency**: in every state, the versions of a
workflow are 1, 2, …, n; each is one request's, and each request that publishes
has put in the one row its answer names, or none and no such answer; and a
publish that finds its number taken answers 409 and adds no row. -/
theorem versions_numbered (h0 : db₀.Initial) (h : Reached app db₀ s) :
    (∀ w ∈ s.db.workflows, ∃ n, 1 ≤ n ∧ s.db.Numbered w.id n) ∧
    (∀ v ∈ s.db.versions, ∃! r : ℕ, ∃ t : Call, s.tasks[r]? = some t ∧ t.req.publishes ≠ none ∧ Made t v) ∧
    (∀ (r : ℕ) (t : Call) (slug yaml : String) (changelog : Option String), s.tasks[r]? = some t →
      t.req.publishes = some (slug, yaml, changelog) →
      (∃ v ∈ s.db.versions, t.answered = some (.ok (.published slug v.version)) ∧ v.yaml = yaml ∧
          v.changelog = changelog ∧ (∃ w ∈ s.db.workflows, w.slug = slug ∧ w.id = v.workflowId) ∧
          ∀ u ∈ s.db.versions, Made t u ↔ u = v) ∨
        (∀ reply, t.answered ≠ some (.ok reply)) ∧ ∀ v, ¬ Made t v) ∧
    (∀ (r : ℕ) (t : Call) (headers : HeaderMap) (slug : String) (body : PublishVersion) (w : Uuid) (n : ℤ)
      (yaml : String) (changelog : Option String) (k : Except SqlError ℤ → Prog registry (Except Error Reply))
      (env : Env), s.tasks[r]? = some t → t.req = .publishVersion headers slug body → t.gone = false →
      t.prog = .stmt (S := registry) (.insertVersion w n yaml changelog) k →
      (yaml :: changelog.toList).any hasNul = false → s.db.published w n →
      ∃ s' t', s.step (handle app) (.task r (.go env)) = some s' ∧ s'.db = s.db ∧ s'.log = s.log ∧
        s'.tasks[r]? = some t' ∧ t'.done = t.done ∧
        ∃ e, t'.answered = some (.error e) ∧ e.intoResponse.1 = 409) := by
  have hg := h.good h0.sound
  have hl := h.ledger h0
  refine ⟨hg.sound.numbered, fun v hv => ?_, fun r t slug yaml changelog ht hp => publish_outcome h0 h ht hp,
    fun r t headers slug body w n yaml changelog k env ht hreq hgone hprog htext htaken =>
      conflict_answered h env ht hreq hgone hprog htext htaken⟩
  obtain ⟨r, row, hlog, hsame⟩ := hl.made v hv
  have hlt := hg.logged.index _ hlog r rfl
  have ht : s.tasks[r]? = some s.tasks[r] := List.getElem?_eq_getElem hlt
  have hrow := (hg.logged_done ht).mpr hlog
  refine ⟨r, ⟨_, ht, ?_, row, hrow, hsame⟩, ?_⟩
  · exact (h.committed h0.sound r _ ht).publishes hrow
  · rintro r' ⟨t', ht', -, row', hrow', hsame'⟩
    exact hl.one r' r row' row ((hg.logged_done ht').mp hrow') hlog (hsame'.1.symm.trans hsame.1)
      (hsame'.2.1.symm.trans hsame.2.1)

/-- Two publishes that derive the same number: one takes it, the other is told. -/
def Sample.race : List (Action registry Request) :=
  serve 10 0 (create 0 "first") 7 ++ serve 20 1 (publish 0 "first" "steps: [a]") 5 ++
    serve 30 2 (publish 0 "first" "steps: [b]") 5 ++ moves 40 2 3 ++ moves 50 1 1

theorem versions_numbered_race :
    ∃ s, Reached Sample.replica Sample.library s ∧
      s.tasks.map Task.answered = [some (.ok (.published "first" 1)),
        some (.error (.conflict "a concurrent publish took that version; retry")),
        some (.ok (.published "first" 2))] ∧
      (∀ w ∈ s.db.workflows, ∃ n, 1 ≤ n ∧ s.db.Numbered w.id n) := by
  have h : ((Sample.after Sample.race).map fun s => s.tasks.map Task.answered) =
      some [some (.ok (.published "first" 1)),
        some (.error (.conflict "a concurrent publish took that version; retry")),
        some (.ok (.published "first" 2))] := by decide +kernel
  obtain ⟨s, hr, ha⟩ := Sample.reached h
  exact ⟨s, hr, ha, (versions_numbered Sample.initial hr).1⟩

end HarnessRegistry

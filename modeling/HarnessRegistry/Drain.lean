/-
# No deadlock, and draining

`main` stops accepting on SIGTERM "so in-flight publishes finish". That they do
rests on two things. A handler makes at most eight moves, whatever it is told
(`handle_course`). And requests in transactions cannot block one another for
good: a publish that holds its new version next locks its workflow, a create
that holds its new workflow next locks that workflow's first version, so the
two take the same kinds of lock in opposite orders, but the workflow of the one
is in the table and that of the other is not (`workflow_stored`). So whoever is
waited for is nearer to its commit (`waits_closer`), the request nearest to it
waits for nobody (`no_deadlock`), and a replica with no new requests runs dry
(`drains`).

Key definitions: `Stands`, `distance`.
Key theorems: `handle_course`, `workflow_stored`, `waits_closer`, `no_deadlock`,
`drains`.
-/
import HarnessRegistry.Runs
import HarnessRegistry.Txn.Waits

namespace HarnessRegistry

open Txn Handler

variable {app : AppState} {db db₀ : Db} {s s' : Registry}

/-! ### Where a handler stands when it holds locks -/

/-- A lock on a publisher. -/
def Lock.ofPublisher : Lock → Bool
  | .publisher _ | .githubId _ => true
  | _ => false

/-- Where a handler may stand with `ws` pending: at its commit, or at the one
statement that is left before it. -/
inductive Stands : List Write → Prog registry (Except Error Reply) → Prop
  | idle {p} : Stands [] p
  | commit {ws k} : Stands ws (.commit k)
  | created {row y c k} : Stands [.insertWorkflow row] (.stmt (.insertVersion row.id 1 y c) k)
  | numbered {v : VersionRow} {k} : (∀ a, ∃ k', k (.ok a) = .commit k') →
      Stands [.insertVersion v] (.stmt (.relist v.workflowId) k)
  | known {w : Write} {p hash name k} : (∀ l ∈ w.locks, l.ofPublisher = true) →
      Stands [w] (.stmt (.insertToken p hash name) k)

namespace Handler

variable {α : Type} {n : ℕ} {q : Stmt} {f : SqlError → Error} {g : q.Res → Handler Reply}

/-- The handler makes at most `n` moves more, placed as above. -/
def Course (m : Handler Reply) (n : ℕ) (tx : Option (Tx registry)) : Prop := Prog.Course Stands m.run n tx

theorem course_pure {r : Reply} {tx : Option (Tx registry)} : Course (pure r) n tx := trivial

theorem course_throw {e : Error} {tx : Option (Tx registry)} : Course (throw e) n tx := trivial

theorem Course.mono {m : Handler Reply} {n' : ℕ} {tx : Option (Tx registry)} (h : Course m n tx) (hn : n ≤ n') :
    Course m n' tx := Prog.Course.mono h hn

/-- A statement of its own. -/
theorem course_queryOr (hk : ∀ a, Course (g a) n none) : Course (queryOr q f >>= g) (n + 1) none :=
  ⟨.idle, fun _ => trivial, fun _ _ a _ _ => hk a⟩

/-- A statement in a transaction. -/
theorem course_queryTx {x : Tx registry} (hp : Stands x.writes (queryOr q f >>= g).run)
    (hk : ∀ env db a ws, q.run env db = .ok (a, ws) → Course (g a) n (some ⟨x.start, x.writes ++ ws⟩)) :
    Course (queryOr q f >>= g) (n + 1) (some x) :=
  ⟨hp, fun _ => trivial, fun env db a ws hx => hk env db a ws (run_of_exec hx)⟩

theorem course_attempt {g : Unit → Handler Reply} (hk : Course (g ()) n none) :
    Course (attempt q >>= g) (n + 1) none := ⟨.idle, fun _ => hk, fun _ _ _ _ _ => hk⟩

theorem course_begin {g : Unit → Handler Reply} (hk : ∀ env, Course (g ()) n (some ⟨env, []⟩)) :
    Course (Handler.begin >>= g) (n + 1) none := ⟨.idle, trivial, hk⟩

theorem course_commit {g : Unit → Handler Reply} {tx : Option (Tx registry)} (hk : Course (g ()) n none) :
    Course (commit >>= g) (n + 1) tx :=
  ⟨.commit, fun r => match r with
    | .error _ => trivial
    | .ok _ => hk⟩

theorem course_check {l : Limiter} {key : String} {g : Bool → Handler Reply} (hk : ∀ b, Course (g b) n none) :
    Course (check l key >>= g) (n + 1) none := ⟨.idle, hk⟩

theorem course_lift {x : Except Error α} {g : α → Handler Reply} {tx : Option (Tx registry)}
    (hk : ∀ a, Course (g a) n tx) : Course (lift x >>= g) n tx := match x with
  | .error _ => trivial
  | .ok a => hk a

/-- A handler behind a limiter. -/
theorem course_limited {l : Limiter} {key : String} {m : Handler Reply} (hm : Course m n none) : Course (do
      if !(← check l key) then throw .tooManyRequests
      m) (n + 1) none := by
  refine course_check fun b => ?_
  cases b with
  | false => exact course_throw
  | true => exact hm

end Handler

/-! ### The handlers, one by one -/

theorem course_asPublisher {h : HeaderMap} {f : Publisher → Handler Reply} {n : ℕ}
    (hf : ∀ p, Handler.Course (f p) n none) : Handler.Course (asPublisher app h f) (n + 2) none := by
  unfold asPublisher Publisher.fromRequestParts
  cases bearer h with
  | none => exact course_throw
  | some token =>
    dsimp only
    rw [bind_assoc]
    refine course_queryOr fun a => ?_
    rcases a with _ | ⟨id, login, blockedAt⟩
    · exact course_throw
    · dsimp only
      split
      · exact course_throw
      · rw [bind_assoc]
        exact course_attempt (hf _)

theorem course_owned {slug : String} {p : Publisher} {g : Uuid → Handler Reply} {n : ℕ}
    (hg : ∀ id, Handler.Course (g id) n none) : Handler.Course (ownedWorkflowId slug p >>= g) (n + 1) none := by
  unfold ownedWorkflowId
  rw [query, bind_assoc]
  refine course_queryOr fun a => ?_
  cases a with
  | none => exact course_throw
  | some id => exact hg id

theorem course_workflowId {slug : String} {g : Uuid → Handler Reply} {n : ℕ}
    (hg : ∀ id, Handler.Course (g id) n none) : Handler.Course (workflowId slug >>= g) (n + 1) none := by
  unfold workflowId
  rw [query, bind_assoc]
  refine course_queryOr fun a => ?_
  cases a with
  | none => exact course_throw
  | some id => exact hg id

/-- The last statement of a handler, with the answer after it. -/
theorem course_last {q : Stmt} {f : SqlError → Error} {g : q.Res → Handler Reply}
    (hg : ∀ a, ∃ out, (g a).run = .ret out) : Handler.Course (queryOr q f >>= g) 1 none := by
  refine course_queryOr fun a => ?_
  obtain ⟨out, ho⟩ := hg a
  unfold Handler.Course
  rw [ho]
  trivial

theorem create_course {p : Publisher} {body : CreateWorkflow} : Handler.Course (create app p body) 5 none := by
  unfold create
  refine course_lift fun _ => ?_
  have rest : Handler.Course (do
      begin
      let id ← queryOr (.insertWorkflow body.slug body.title body.description body.tags p.id)
        (onUniqueViolation · "that slug is already taken")
      let _ ← query (.insertVersion id 1 body.yaml body.changelog)
      commit
      return .published body.slug 1) 4 none := by
    refine course_begin fun env => course_queryTx .idle fun env' db id ws hx => ?_
    -- the workflow's id is that of the row pending
    obtain ⟨row, rfl, rfl⟩ : ∃ row : WorkflowRow, id = row.id ∧ ws = [.insertWorkflow row] := by
      simp only [Stmt.run] at hx
      split at hx
      · cases hx
      · cases hx
        exact ⟨_, rfl, rfl⟩
    exact course_queryTx .created fun _ _ _ _ _ => course_commit course_pure
  unfold checkPublisherCap
  dsimp only
  split
  · exact rest.mono (by omega)
  · rw [query, bind_assoc]
    refine course_queryOr fun held => ?_
    split
    · exact course_throw
    · exact rest

theorem publishVersion_course {p : Publisher} {slug : String} {body : PublishVersion} :
    Handler.Course (publishVersion app p slug body) 6 none := by
  unfold publishVersion
  generalize body.validate app.config.maxYamlBytes = verdict
  refine course_lift fun _ => course_owned fun id => ?_
  refine course_begin fun env => course_queryTx .idle fun env₁ db₁ derived ws₁ hx₁ => ?_
  obtain rfl := run_reads rfl hx₁
  refine course_queryTx .idle fun env₂ db₂ next ws₂ hx₂ => ?_
  obtain ⟨v, hv, rfl⟩ : ∃ v : VersionRow, v.workflowId = id ∧ ws₂ = [.insertVersion v] := by
    simp only [Stmt.run] at hx₂
    split at hx₂
    · cases hx₂
    · cases hx₂
      exact ⟨_, rfl, rfl⟩
  subst hv
  exact course_queryTx (.numbered fun _ => ⟨_, rfl⟩) fun _ _ _ _ _ => course_commit course_pure

theorem issueToken_course {body : IssueToken} {bytes : Vector UInt8 tokenBytes} :
    Handler.Course (issueToken app body bytes) 4 none := by
  unfold issueToken
  generalize (trim body.name).isEmpty = blank
  split
  · exact course_throw
  · refine course_begin fun env => course_queryTx .idle fun env₁ db₁ p ws hx => ?_
    obtain ⟨w, rfl, hw⟩ : ∃ w : Write, ws = [w] ∧ ∀ l ∈ w.locks, l.ofPublisher = true := by
      simp only [Stmt.run] at hx
      split at hx
      · cases hx
        exact ⟨_, rfl, by simp [Write.locks, Lock.ofPublisher]⟩
      · split at hx
        · cases hx
        · cases hx
          exact ⟨_, rfl, by simp [Write.locks, Write.claims, Lock.ofPublisher]⟩
    exact course_queryTx (.known hw) fun _ _ _ _ _ => course_commit course_pure

theorem poll_course {h : HeaderMap} {body : PollRequest} {site : Site} {clock : DateTime}
    {bytes : Vector UInt8 tokenBytes} : Handler.Course (poll app h body site clock bytes) 3 none := by
  rw [poll_eq]
  refine course_check fun admitted => ?_
  split
  · cases verdict app body site clock with
    | crashes => exact Stands.idle
    | refused e => exact course_throw
    | unfinished status => exact course_pure
    | enrolls user =>
      refine course_queryOr fun a => ?_
      split
      · exact course_throw
      · exact course_last fun _ => ⟨_, rfl⟩
  · exact course_throw

-- a goal about a handler is not to be evaluated on the handler's text
attribute [local irreducible] Prog.Course in
/-- **A handler makes at most eight moves**, and stands as it should wherever it
holds locks. -/
theorem handle_course (app : AppState) (req : Request) : (handle app req).Course Stands 8 none := by
  have up : ∀ {n : ℕ} {m : Handler Reply}, Handler.Course m n none → n ≤ 8 → m.run.Course Stands 8 none :=
    fun h hn => h.mono hn
  cases req with
  | list => exact up (course_last fun _ => ⟨_, rfl⟩) (by omega)
  | detail =>
    refine up (course_last fun a => ?_) (by omega)
    rcases a with _ | row <;> exact ⟨_, rfl⟩
  | versions => exact up (course_workflowId fun _ => course_last fun _ => ⟨_, rfl⟩) (by omega)
  | versionDocument =>
    refine up (course_workflowId fun _ => course_last fun a => ?_) (by omega)
    rcases a with _ | doc <;> exact ⟨_, rfl⟩
  | create => exact up (course_asPublisher fun _ => create_course) (by omega)
  | publishVersion => exact up (course_asPublisher fun _ => publishVersion_course) (by omega)
  | update =>
    exact up (course_asPublisher fun _ => course_lift fun _ => course_owned fun _ => course_last fun _ => ⟨_, rfl⟩)
      (by omega)
  | unlist => exact up (course_asPublisher fun _ => course_owned fun _ => course_last fun _ => ⟨_, rfl⟩) (by omega)
  | record =>
    refine up (course_limited (course_queryOr fun a => ?_) (n := 3)) (by omega)
    rcases a with _ | id
    · exact course_throw
    · refine course_queryOr fun a => ?_
      rcases a with _ | n
      · exact course_throw
      · exact course_last fun _ => ⟨_, rfl⟩
  | forget =>
    refine up (course_limited (course_queryOr fun a => ?_) (n := 2)) (by omega)
    rcases a with _ | id
    · exact course_throw
    · refine course_last fun (n : ℕ) => ?_
      cases n <;> exact ⟨_, rfl⟩
  | me => exact up (course_asPublisher fun _ => course_last fun _ => ⟨_, rfl⟩) (by omega)
  | updateMe h body =>
    refine up (course_asPublisher fun p => ?_) (n := 3) (by omega)
    have rest : Handler.Course (query (.setDisplayName p.id body.name) >>= fun me => pure (.me me)) 1 none :=
      course_last fun _ => ⟨_, rfl⟩
    unfold Me.update
    cases body.displayName.map trim with
    | none => exact rest
    | some n =>
      dsimp only
      split
      · exact course_throw
      · exact rest
  | available => exact up (n := 0) course_pure (by omega)
  | start =>
    exact up (course_limited (course_lift fun _ => course_lift fun _ => course_pure) (n := 0)) (by omega)
  | poll => exact up poll_course (by omega)
  | issueToken => exact up (course_lift fun _ => issueToken_course) (by omega)
  | setOfficial =>
    refine up (course_lift fun _ => course_last fun (n : ℕ) => ?_) (by omega)
    cases n <;> exact ⟨_, rfl⟩
  | setBlocked =>
    refine up (course_lift fun _ => course_last fun (n : ℕ) => ?_) (by omega)
    cases n <;> exact ⟨_, rfl⟩

/-! ### Who waits for whom -/

/-- How far a request is from its commit: at it, one statement before it, or
with no lock yet. A create counts as further than the others. -/
def distanceAt : Prog registry (Except Error Reply) → List Write → ℕ
  | .commit _, _ => 0
  | _, [] => 3
  | .stmt (.insertVersion ..) _, _ => 2
  | _, _ => 1

/-- The same of the `i`-th request. -/
def distance (s : Registry) (i : ℕ) : ℕ := (s.tasks[i]?).elim 0 fun t : Call => distanceAt t.prog t.pending

theorem distanceAt_lt {p : Prog registry (Except Error Reply)} {ws : List Write} (h : Stands ws p) (hne : ws ≠ []) :
    distanceAt p ws < 3 := by
  cases h with
  | idle => exact absurd rfl hne
  | commit => exact Nat.zero_lt_succ _
  | created => exact Nat.lt_succ_self 2
  | numbered | known => exact Nat.succ_lt_succ (Nat.zero_lt_succ 1)

/-- What a request holds where it stands. -/
theorem Stands.holds {p : Prog registry (Except Error Reply)} {ws : List Write} {l : Lock} (h : Stands ws p)
    (hl : l ∈ Pool.lockset registry ws) :
    distanceAt p ws = 0 ∨
    (∃ row : WorkflowRow, ws = [.insertWorkflow row] ∧ (l = .workflow row.id ∨ l = .slug row.slug)) ∨
    (∃ w n, l = .version w n) ∧ distanceAt p ws = 1 ∨ l.ofPublisher = true ∧ distanceAt p ws = 1 := by
  cases h with
  | idle => simp [Pool.lockset] at hl
  | commit => exact .inl rfl
  | @created row => exact .inr (.inl ⟨row, rfl, by simpa [Pool.lockset, Write.locks, Write.claims] using hl⟩)
  | numbered => exact .inr (.inr (.inl ⟨⟨_, _, by simpa [Pool.lockset, Write.locks, Write.claims] using hl⟩, rfl⟩))
  | known hw => exact .inr (.inr (.inr ⟨hw l (by simpa [Pool.lockset] using hl), rfl⟩))

/-- What the statements in a transaction lock. -/
theorem lock_insertVersion {env : Env} {w : Uuid} {n : ℤ} {yaml : String} {changelog : Option String} {a : ℤ}
    {ws : List Write} {l : Lock} (h : Stmt.run env db (.insertVersion w n yaml changelog) = .ok (a, ws))
    (hl : l ∈ Pool.lockset registry ws) : l = .version w n := by
  simp only [Stmt.run] at h
  split at h
  · cases h
  · cases h
    simpa [Pool.lockset, Write.locks, Write.claims] using hl

theorem lock_relist {env : Env} {id : Uuid} {a : Unit} {ws : List Write} {l : Lock}
    (h : Stmt.run env db (.relist id) = .ok (a, ws)) (hl : l ∈ Pool.lockset registry ws) : l = .workflow id := by
  simp only [Stmt.run] at h
  cases h
  rcases ifFound_cases (db.workflows.find? fun w => w.id == id) (.relist id env.now) with he | he
  · rw [he] at hl
    simp [Pool.lockset] at hl
  · rw [he] at hl
    simpa [Pool.lockset, Write.locks] using hl

theorem lock_insertToken {env : Env} {p : Uuid} {hash name : String} {a : Unit} {ws : List Write} {l : Lock}
    (h : Stmt.run env db (.insertToken p hash name) = .ok (a, ws)) (hl : l ∈ Pool.lockset registry ws) :
    l = .token hash := by
  simp only [Stmt.run] at h
  split at h
  · cases h
  · cases h
    simpa [Pool.lockset, Write.locks, Write.claims] using hl

/-- Where the requests of a run stand. -/
theorem Reached.stands (h : Reached app db₀ s) {i : ℕ} {t : Call} (ht : s.tasks[i]? = some t) (ho : t.isOpen = true) :
    Stands t.pending t.prog := by
  obtain ⟨as, h⟩ := h
  obtain ⟨hg, hret⟩ := Task.isOpen_iff.mp ho
  have hc := Pool.course_run (handle_course app) rfl h t (List.mem_of_getElem? ht) hg
  rw [Task.pending_eq]
  exact hc.self hret

/-- **The workflow of a version that is pending is in the table**: the request
has only its `UPDATE` and its commit before it, and what it commits then is a
version of a workflow that exists. -/
theorem workflow_stored (hg : Good app s) {i : ℕ} {t : Call} (ht : s.tasks[i]? = some t) (ho : t.isOpen = true)
    {v : VersionRow} {k : Except SqlError (Stmt.Res (.relist v.workflowId)) → Prog registry (Except Error Reply)}
    (hp : t.prog = .stmt (.relist v.workflowId) k) (hk : ∀ a, ∃ k', k (.ok a) = .commit k')
    (hv : t.pending = [.insertVersion v]) : ∃ w ∈ s.db.workflows, w.id = v.workflowId := by
  by_contra hnone
  have hgone := (Task.isOpen_iff.mp ho).1
  have hmeets := hg.ok.meets i t ht hgone
  obtain ⟨hfr, -⟩ := hg.ok.fresh i t ht
  rw [hv] at hfr
  obtain ⟨x, htx, hx⟩ : ∃ x, t.tx = some x ∧ x.writes = [.insertVersion v] := by
    rw [Task.pending_eq] at hv
    cases htx : t.tx with
    | none => rw [htx] at hv; cases hv
    | some x => exact ⟨x, rfl, by rw [htx] at hv; exact hv⟩
  obtain ⟨start, writes⟩ := x
  obtain rfl : writes = [.insertVersion v] := hx
  unfold Contract.Meets at hmeets
  rw [hp, htx] at hmeets
  -- the statement on the rows of now finds no workflow
  have hrows : ((Write.insertVersion v).apply s.db).workflows.find? (fun w => w.id == v.workflowId) = none :=
    Table.find?_eq_none.mpr fun w hw => beq_eq_false_iff_ne.mpr fun hid => hnone ⟨w, hw, hid⟩
  have hexec : Stmt.exec (registry.inTx start start) (.relist v.workflowId) ((Write.insertVersion v).apply s.db) =
      .ok ((), []) := by
    rw [exec_eq_run (by simp [Stmt.texts]), Stmt.run, hrows]
    rfl
  have hcommit := hmeets.ranTx (.refl _) hg.sound hexec
  obtain ⟨k', hk'⟩ := hk ()
  rw [hk', List.append_nil] at hcommit
  -- so the commit is one that the contract does not allow
  rcases (hcommit.2 s.db (.refl _) hg.sound hfr).1 with h0 | hguar
  · cases h0
  · have hguar : Guar app t.req t.done s.db [.insertVersion v] := hguar
    generalize t.req = req at hguar
    cases hguar with
    | «prelude» _ hpre =>
      cases hpre with
      | upserted _ hu => cases hu
    | effect _ he => cases he

/-- **Whoever is waited for is nearer to its commit.** -/
theorem waits_closer (h0 : db₀.Sound) (h : Reached app db₀ s) {env : Env} {r i : ℕ} (hw : s.Waits env r i) :
    distance s i < distance s r := by
  have hg := h.good h0
  obtain ⟨t, u, q, k, env', a, vs, l, ht, hu, hto, hp, hx, hl, hlu⟩ := hw.writes hg.ok
  have hne : u.pending ≠ [] := fun h0 => by simp [h0, Pool.lockset] at hlu
  have huo : u.isOpen = true := by
    obtain ⟨as, h⟩ := h
    exact Pool.open_run rfl h i u hu hne
  have hpt := h.stands ht hto
  have hpu := h.stands hu huo
  have hrun := run_of_exec hx
  have hheld := hpu.holds hlu
  have hlt := distanceAt_lt hpu hne
  simp only [distance, ht, hu, Option.elim_some]
  -- what is left is to compare the two, place by place
  generalize hws : t.pending = ws at hpt hrun
  generalize hprog : t.prog = p at hpt hp
  subst hp
  cases hpt with
  | idle => exact hlt
  | @created row y c =>
    obtain rfl := lock_insertVersion hrun hl
    rcases hheld with he | ⟨_, -, he | he⟩ | ⟨-, he⟩ | ⟨-, he⟩
    · rw [he]
      exact Nat.zero_lt_succ 1
    · cases he
    · cases he
    · rw [he]
      exact Nat.lt_succ_self 1
    · rw [he]
      exact Nat.lt_succ_self 1
  | @numbered v _ hk =>
    obtain rfl := lock_relist hrun hl
    rcases hheld with he | ⟨row, hrow, he | he⟩ | ⟨⟨_, _, he⟩, -⟩ | ⟨he, -⟩
    · rw [he]
      exact Nat.zero_lt_succ 0
    · -- a workflow that is pending is not one that is in the table
      obtain ⟨w, hw, hid⟩ := workflow_stored hg ht hto hprog hk hws
      have hfr := (hg.ok.fresh i u hu).1
      rw [hrow] at hfr
      exact absurd ⟨w, hw, hid.trans (Lock.workflow.inj he)⟩ (hfr.2 (.workflow row.id) (by simp [Write.claims]))
    · cases he
    · cases he
    · cases he
  | known hw =>
    obtain rfl := lock_insertToken hrun hl
    rcases hheld with he | ⟨_, -, he | he⟩ | ⟨⟨_, _, he⟩, -⟩ | ⟨he, -⟩
    · rw [he]
      exact Nat.zero_lt_succ 0
    · cases he
    · cases he
    · cases he
    · cases he

/-- The open request can move, or one that holds locks. -/
theorem exists_mover (h0 : db₀.Sound) (h : Reached app db₀ s) (env : Env) {r : ℕ} {t : Call} (ht : s.tasks[r]? = some t)
    (ho : t.isOpen = true) : ∃ i s', s.step (handle app) (.task i (.go env)) = some s' ∧
      (i = r ∨ ∃ u, s.tasks[i]? = some u ∧ u.pending ≠ []) := by
  obtain ⟨as, hrun⟩ := id h
  exact Pool.exists_step (distance s) (Pool.open_run rfl hrun) (fun r i hw => waits_closer h0 h hw) ht ho

/-- **No deadlock.** As long as a request is open, some request can make its next
move. -/
theorem no_deadlock (h0 : db₀.Sound) (h : Reached app db₀ s) (env : Env) {t : Call} (ht : t ∈ s.tasks)
    (ho : t.isOpen = true) : ∃ i s', s.step (handle app) (.task i (.go env)) = some s' := by
  obtain ⟨r, ht⟩ := List.mem_iff_getElem?.mp ht
  obtain ⟨i, s', hst, -⟩ := exists_mover h0 h env ht ho
  exact ⟨i, s', hst⟩

/-- A request is at most eight moves from its answer. -/
theorem course_eight (h : Reached app db₀ s) : ∀ t ∈ s.tasks, t.gone = false → t.prog.Course Stands 8 t.tx := by
  obtain ⟨as, hrun⟩ := h
  exact Pool.course_run (handle_course app) rfl hrun

theorem left_eight (h : Reached app db₀ s) (r : ℕ) : s.Left Stands 8 r 8 :=
  ⟨fun t ht => course_eight h t (List.mem_of_getElem? ht), fun _ => Nat.le_refl 8⟩

/-- **A replica drains.** From any state, the requests in flight make at most
eight moves each, in whatever order and whichever of them fail, as long as no
other arrives; when none of them can go on, each has been answered or abandoned;
and without a failure they come to that. -/
theorem drains (h0 : db₀.Sound) (h : Reached app db₀ s) :
    (∀ as s', (∀ a ∈ as, a.isTask = true) → s.run (handle app) as = some s' →
      as.length ≤ 8 * s.tasks.countP Task.isOpen ∧ (∀ r, as.countP (·.task? = some r) ≤ 8) ∧
      ∀ env, (∀ r, s'.step (handle app) (.task r (.go env)) = none) →
        ∀ t ∈ s'.tasks, t.gone = true ∨ ∃ out, t.answered = some out) ∧
    ∀ envs : ℕ → Env, ∃ as s', as.length ≤ 8 * s.tasks.countP Task.isOpen ∧
      (∀ (i : ℕ) (a : Action registry Request), as[i]? = some a → ∃ r, a = .task r (.go (envs i))) ∧
      s.run (handle app) as = some s' ∧ ∀ t ∈ s'.tasks, t.gone = true ∨ ∃ out, t.answered = some out := by
  have hcourse := course_eight h
  constructor
  · intro as s' htask hrun
    refine ⟨?_, fun r => Pool.task_moves_le (handle_course app) _ (left_eight h r) hrun, fun env hstuck t ht => ?_⟩
    · have harrive : as.filterMap Action.request? = [] := List.filterMap_eq_nil_iff.mpr fun a ha => by
        cases a with
        | arrive req => cases htask _ ha
        | task | outside => rfl
      have hle := Pool.moves_le (handle_course app) hcourse hrun
      rw [List.countP_eq_length.mpr htask, harrive] at hle
      exact hle
    · by_contra hc
      have ho : t.isOpen = true := by
        by_contra ho
        exact hc (Task.closed_iff.mp (by simpa using ho))
      obtain ⟨r, ht⟩ := List.mem_iff_getElem?.mp ht
      obtain ⟨i, s'', hst, -⟩ := exists_mover h0 (h.run hrun) env ht ho
      rw [hstuck i] at hst
      cases hst
  · intro envs
    obtain ⟨b, hb, hsum⟩ := Pool.exists_course hcourse
    obtain ⟨as, s', hlen, has, hrun, hdone⟩ := Pool.exists_run (Q := Reached app db₀) (fun s a s' hq hst => hq.step hst)
      (fun s env hq ⟨t, ht, ho⟩ => by
        obtain ⟨r, ht⟩ := List.mem_iff_getElem?.mp ht
        obtain ⟨i, s', hst, -⟩ := exists_mover h0 hq env ht ho
        exact ⟨i, s', hst⟩) _ envs h hb rfl
    exact ⟨as, s', hsum ▸ hlen, has, hrun, fun t ht => Task.closed_iff.mp (hdone t ht)⟩

/-- Two creates of one slug: the second waits for the first. -/
def Sample.racing : List (Action registry Request) :=
  Sample.serve 10 0 (Sample.create 0 "first") 5 ++ Sample.serve 20 1 (Sample.create 1 "first") 4

theorem Sample.racing_waits :
    ∃ s, Reached Sample.replica Sample.library s ∧ s.tasks.countP Task.isOpen = 2 ∧
      s.step (handle Sample.replica) (.task 1 (.go (Sample.env 30))) = none := by
  have h : ((Sample.after Sample.racing).map fun s => (s.tasks.countP Task.isOpen,
      (s.step (handle Sample.replica) (.task 1 (.go (Sample.env 30)))).isNone)) = some (2, true) := by decide +kernel
  obtain ⟨s, hr, h⟩ := Sample.reached h
  obtain ⟨hopen, hnone⟩ := Prod.mk.inj h
  exact ⟨s, hr, hopen, Option.isNone_iff_eq_none.mp hnone⟩

theorem no_deadlock_racing :
    ∃ s, Reached Sample.replica Sample.library s ∧
      s.step (handle Sample.replica) (.task 1 (.go (Sample.env 30))) = none ∧
      ∃ i s', s.step (handle Sample.replica) (.task i (.go (Sample.env 30))) = some s' := by
  obtain ⟨s, hr, hopen, hnone⟩ := Sample.racing_waits
  obtain ⟨t, ht, ho⟩ := List.countP_pos_iff.mp (by omega : 0 < s.tasks.countP Task.isOpen)
  exact ⟨s, hr, hnone, no_deadlock Sample.initial.sound hr _ ht ho⟩

theorem drains_racing :
    ∃ s, Reached Sample.replica Sample.library s ∧ s.tasks.countP Task.isOpen = 2 ∧ ∃ as s', as.length ≤ 16 ∧
      (∀ r, as.countP (·.task? = some r) ≤ 8) ∧ s.run (handle Sample.replica) as = some s' ∧
      ∀ t ∈ s'.tasks, t.gone = true ∨ ∃ out, t.answered = some out := by
  obtain ⟨s, hr, hopen, -⟩ := Sample.racing_waits
  obtain ⟨as, s', hlen, has, hrun, hdone⟩ := (drains Sample.initial.sound hr).2 fun _ => Sample.env 30
  have htask : ∀ a ∈ as, a.isTask = true := by
    intro a ha
    obtain ⟨i, hi⟩ := List.mem_iff_getElem?.mp ha
    obtain ⟨r, rfl⟩ := has i a hi
    rfl
  have heach := ((drains Sample.initial.sound hr).1 as s' htask hrun).2.1
  rw [hopen] at hlen
  exact ⟨s, hr, hopen, as, s', hlen, heach, hrun, hdone⟩

end HarnessRegistry

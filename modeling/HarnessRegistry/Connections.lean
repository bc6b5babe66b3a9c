/-
# Ten connections

`main` opens at most ten connections to Postgres (`max_connections(10)`), "bounded,
and small". Every statement needs one, so all ten may be with requests that wait
for a row or a key that another request holds. That request cannot be without one,
though: what it holds it holds in a transaction, its statements there are all on
the connection of the transaction (`&mut *tx`), and none of them asks the pool for
a second. So the service goes on with any number of connections, even one
(`connections_suffice`), and a run of it on these is one of the runs without a
bound, of which everything else here is proved.

Reads take no locks. With a connection free they wait for nobody: they are answered
from the committed rows however long the open transactions of the others stay open
(`reads_never_wait`).

Key definitions: `Connected`, `ReachedOn`, `Request.isRead`.
Key theorems: `connections_suffice`, `reads_never_wait`.
-/
import HarnessRegistry.Drain
import HarnessRegistry.Txn.Conns

namespace HarnessRegistry

open Txn Handler

/-- A replica, and its connections. -/
abbrev Connected := Lending registry Request (Except Error Reply)

variable {app : AppState} {db₀ : Db} {n : ℕ} {s s' : Connected}

/-- A replica with `n` connections after some moves, started on `db₀`. -/
def ReachedOn (app : AppState) (db₀ : Db) (n : ℕ) (s : Connected) : Prop :=
  ∃ ds, Lending.run (handle app) n ⟨Registry.start db₀, []⟩ ds = some s

theorem ReachedOn.reached (h : ReachedOn app db₀ n s) : Reached app db₀ s.pool := by
  obtain ⟨ds, h⟩ := h
  exact ⟨_, Lending.pool_run h⟩

theorem ReachedOn.ok (h : ReachedOn app db₀ n s) : s.Ok n := by
  obtain ⟨ds, h⟩ := h
  exact Lending.run_ok (Lending.ok_start rfl) h

theorem ReachedOn.step {d : Deal registry Request} (h : ReachedOn app db₀ n s) (hst : s.step (handle app) n d = some s') :
    ReachedOn app db₀ n s' := by
  obtain ⟨ds, h⟩ := h
  refine ⟨ds ++ [d], ?_⟩
  rw [Lending.run_append, h]
  show (s.step (handle app) n d).bind _ = some s'
  rw [hst]
  rfl

/-- Some request moves next, lent a connection if it has none. -/
theorem ReachedOn.exists_deal (h0 : db₀.Sound) (hn : 0 < n) (h : ReachedOn app db₀ n s) (env : Env) {t : Call}
    (ht : t ∈ s.pool.tasks) (ho : t.isOpen = true) : ∃ ds i s', s.run (handle app) n ds = some s' ∧ ds.length ≤ 2 ∧
      ds.filterMap Deal.action? = [.task i (.go env)] := by
  obtain ⟨as, hrun⟩ := h.reached
  obtain ⟨r, ht⟩ := List.mem_iff_getElem?.mp ht
  refine Lending.exists_deal h.ok hn (Pool.open_tx rfl hrun) (fun r t ht ho => ?_) ht ho
  obtain ⟨i, p, hst, hi⟩ := exists_mover h0 h.reached env ht ho
  exact ⟨i, p, hst, hi.imp_right fun ⟨u, hu, hne⟩ => ⟨u, hu, Task.tx_of_pending hne⟩⟩

/-- **Any number of connections is enough.** A replica that has at least one never
holds more than it has, does nothing that it could not do with as many as it likes,
does not get stuck while a request is open, and drains; no request takes more than
sixteen loans and moves. -/
theorem connections_suffice (h0 : db₀.Sound) (hn : 0 < n) (h : ReachedOn app db₀ n s) :
    s.inUse ≤ n ∧ Reached app db₀ s.pool ∧
    (∀ env, ∀ t ∈ s.pool.tasks, t.isOpen = true → ∃ ds i s', s.run (handle app) n ds = some s' ∧ ds.length ≤ 2 ∧
      ds.filterMap Deal.action? = [.task i (.go env)]) ∧
    (∀ ds s', s.run (handle app) n ds = some s' → ∀ r, ds.countP (·.task? = some r) ≤ 16) ∧
    ∀ envs : ℕ → Env, ∃ ds s', ds.length ≤ 16 * s.pool.tasks.countP Task.isOpen ∧
      (∀ (i : ℕ) (a : Action registry Request), (ds.filterMap Deal.action?)[i]? = some a → ∃ r, a = .task r (.go (envs i))) ∧
      s.run (handle app) n ds = some s' ∧ ∀ t ∈ s'.pool.tasks, t.gone = true ∨ ∃ out, t.answered = some out := by
  refine ⟨h.ok.inUse, h.reached, fun env t ht ho => h.exists_deal h0 hn env ht ho, fun ds s' hrun r => ?_, fun envs => ?_⟩
  · have hle := Lending.deals_le (handle_course app) ds h.ok (left_eight h.reached r) hrun
    omega
  obtain ⟨b, hb, hsum⟩ := Pool.exists_course (course_eight h.reached)
  obtain ⟨ds, s', hlen, hds, hrun, hdone⟩ := Lending.exists_run (Q := ReachedOn app db₀ n) (fun s d s' hq hst => hq.step hst)
    (fun s env hq ⟨t, ht, ho⟩ => hq.exists_deal h0 hn env ht ho) _ envs h hb rfl
  exact ⟨ds, s', by omega, hds, hrun, fun t ht => Task.closed_iff.mp (hdone t ht)⟩

/-- One connection, which a create has begun its transaction on; another cannot
even be authenticated. -/
def Sample.waiting : List (Deal registry Request) :=
  .act (.arrive (Sample.create 0 "first")) ::
    (Sample.moves 10 0 4).flatMap (fun a => [.lend 0, .act a]) ++
    (Sample.moves 14 0 1).map .act ++ [.act (.arrive (Sample.create 1 "first"))]

theorem connections_suffice_waiting :
    ∃ s, ReachedOn Sample.replica Sample.library 1 s ∧ s.step (handle Sample.replica) 1 (.lend 1) = none ∧
      ∃ ds i s', s.run (handle Sample.replica) 1 ds = some s' ∧ ds.length ≤ 2 ∧
        ds.filterMap Deal.action? = [.task i (.go (Sample.env 30))] := by
  have h : ((Lending.run (handle Sample.replica) 1 ⟨Registry.start Sample.library, []⟩ Sample.waiting).map fun s =>
      (s.pool.tasks.countP Task.isOpen, (s.step (handle Sample.replica) 1 (.lend 1)).isNone)) = some (2, true) := by
    decide +kernel
  obtain ⟨s, hrun, hs⟩ := Option.map_eq_some_iff.mp h
  obtain ⟨hopen, hnone⟩ := Prod.mk.inj hs
  obtain ⟨t, ht, ho⟩ := List.countP_pos_iff.mp (by omega : 0 < s.pool.tasks.countP Task.isOpen)
  have hr : ReachedOn Sample.replica Sample.library 1 s := ⟨_, hrun⟩
  exact ⟨s, hr, Option.isNone_iff_eq_none.mp hnone,
    (connections_suffice Sample.initial.sound Nat.one_pos hr).2.2.1 (Sample.env 30) t ht ho⟩

/-! ### Reads -/

/-- A request that only reads. -/
def Request.isRead : Request → Bool
  | .list _ | .detail _ | .versions _ | .versionDocument .. | .available => true
  | _ => false

theorem quiet_query {q : Stmt} {f : SqlError → Error} {g : q.Res → Handler Reply} (hq : q.reads = true)
    (hg : ∀ a, Every Prog.Quiet (g a)) : Every Prog.Quiet (queryOr q f >>= g) :=
  every_queryOr (fun _ _ _ _ hx => run_reads hq (run_of_exec hx)) (fun _ => trivial) hg

theorem quiet_workflowId {slug : String} {g : Uuid → Handler Reply} (hg : ∀ id, Every Prog.Quiet (g id)) :
    Every Prog.Quiet (workflowId slug >>= g) := by
  unfold workflowId
  rw [query, bind_assoc]
  refine quiet_query rfl fun a => ?_
  cases a with
  | none => exact every_throw trivial
  | some id => exact hg id

theorem handle_quiet (app : AppState) {req : Request} (h : req.isRead = true) : (handle app req).Every Prog.Quiet := by
  cases req with
  | list => exact quiet_query rfl fun _ => every_pure trivial
  | detail =>
    refine quiet_query rfl fun a => ?_
    cases a with
    | none => exact every_throw trivial
    | some row => exact every_pure trivial
  | versions => exact quiet_workflowId fun _ => quiet_query rfl fun _ => every_pure trivial
  | versionDocument =>
    refine quiet_workflowId fun _ => quiet_query rfl fun a => ?_
    cases a with
    | none => exact every_throw trivial
    | some doc => exact every_pure trivial
  | available => exact every_pure trivial
  | _ => cases h

/-- **Reads wait for nobody** while a connection is free. A read that arrives then,
whatever transactions are open and however long they stay so, is answered by its
own loans and moves alone, as the committed rows have it, and changes nothing. -/
theorem reads_never_wait (h : ReachedOn app db₀ n s) (hfree : s.inUse < n) (env : Env) {req : Request}
    (hread : req.isRead = true) : ∃ ds s' t out, s.run (handle app) n (.act (.arrive req) :: ds) = some s' ∧
      (∀ d ∈ ds, d = .lend s.pool.tasks.length ∨ d = .act (.task s.pool.tasks.length (.go env))) ∧
      s'.pool.db = s.pool.db ∧ s'.pool.tasks[s.pool.tasks.length]? = some t ∧ t.answered = some out ∧
      (req.handler app).alone env s.pool.db = some (out, s.pool.db) := by
  have hst : s.run (handle app) n [.act (.arrive req)] =
      some ⟨s.pool.arrived (handle app) req, s.lent.filter fun r => (none : Option ℕ) ≠ some r⟩ := Lending.run_act rfl rfl
  have hle : Lending.inUse ⟨s.pool.arrived (handle app) req, s.lent.filter fun r => (none : Option ℕ) ≠ some r⟩ ≤ s.inUse := by
    refine h.ok.inUse_le (fun i hi => (List.mem_filter.mp hi).1) fun i u hu htx => ?_
    rcases Pool.step_task (a := .arrive req) rfl hu with hu | ⟨req', -, rfl⟩ | ⟨_, _, _, ha, -⟩
    · exact Lending.busy_iff.mpr (.inr ⟨u, hu, htx⟩)
    · cases htx
    · cases ha
  obtain ⟨out, ha, ds, s', t, hrun, hds, hdb, ht, hans⟩ := Lending.answers_quiet (handle app) env _ _ _ (handle_quiet app hread)
    (Lending.run_ok h.ok hst) (hle.trans_lt hfree) (Pool.arrived_task (handle app) s.pool req) rfl rfl rfl
  refine ⟨ds, s', t, out, ?_, hds, hdb, ht, hans, ha⟩
  rw [← List.singleton_append, Lending.run_append, hst]
  exact hrun

/-- One of two connections is with a create that has inserted `first` and not committed
it: a read of `first` does not wait for it, and does not find it. -/
theorem reads_never_wait_waiting : ∃ s, ReachedOn Sample.replica Sample.library 2 s ∧ s.inUse = 1 ∧ ∃ ds s' t,
    s.run (handle Sample.replica) 2 (.act (.arrive (.detail "first")) :: ds) = some s' ∧
    (∀ d ∈ ds, d = .lend s.pool.tasks.length ∨ d = .act (.task s.pool.tasks.length (.go (Sample.env 30)))) ∧
    s'.pool.tasks[s.pool.tasks.length]? = some t ∧ t.answered = some (.error (.notFound "workflow")) := by
  have h : ((Lending.run (handle Sample.replica) 2 ⟨Registry.start Sample.library, []⟩ Sample.waiting).map fun s => (s.inUse,
      (((Request.detail "first").handler Sample.replica).alone (Sample.env 30) s.pool.db).map Prod.fst)) =
      some (1, some (.error (.notFound "workflow"))) := by
    decide +kernel
  obtain ⟨s, hrun, hs⟩ := Option.map_eq_some_iff.mp h
  obtain ⟨huse, hout⟩ := Prod.mk.inj hs
  have hr : ReachedOn Sample.replica Sample.library 2 s := ⟨_, hrun⟩
  obtain ⟨ds, s', t, out, hrun', hds, -, ht, hans, ha⟩ :=
    reads_never_wait hr (by omega) (Sample.env 30) (rfl : Request.isRead (.detail "first") = true)
  rw [ha, Option.map_some] at hout
  exact ⟨s, hr, huse, ds, s', t, hrun', hds, ht, hans.trans hout⟩

end HarnessRegistry

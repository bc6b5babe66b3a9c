/-
# A bounded number of connections

A program needs a connection to the database for every statement, and keeps the
one that it began a transaction on until that is over. There are only `n` of
them. A `Lending` is a pool of programs with the connections that have been lent:
outside a transaction a task is lent one before its next statement or `BEGIN`,
holds it while that waits for a lock, and gives it back when it is done; a
statement may also fail because none came in time.

A task in a transaction never asks for a second connection. So whoever holds a
lock has its connection, and those that wait for connections wait for tasks
which do not wait for them: if somebody can always move when connections are
free for all, then also when they are not (`Lending.exists_deal`), and the pool
runs dry as before (`Lending.exists_run`). A program of at most `m` moves is at
most `2 m` loans and moves (`Lending.deals_le`). One that takes no locks needs no
more than that a connection is left (`Lending.answers_quiet`).

Key definitions: `Task.lacks`, `Lending`, `Lending.step`, `Lending.Ok`.
Key theorems: `Lending.pool_run`, `Lending.run_ok`, `Lending.exists_deal`, `Lending.answers_quiet`,
`Lending.deals_le`, `Lending.exists_run`.
-/
import HarnessRegistry.Txn.Waits
import Mathlib.Data.Finset.Card
import Mathlib.Data.Finset.Range

namespace Txn

variable {S : Server} {Req Out : Type}

/-- The next move needs a connection, and the task has none. -/
def Task.lacks (t : Task S Req Out) : Bool := !t.gone && match t.prog, t.tx with
  | .stmt .., none | .begin _, none => true
  | _, _ => false

theorem Task.isOpen_of_lacks {t : Task S Req Out} (h : t.lacks = true) : t.isOpen = true := by
  unfold lacks at h
  unfold isOpen
  cases hg : t.gone with
  | true => simp [hg] at h
  | false =>
    cases hp : t.prog with
    | ret a => simp [hp] at h
    | _ => rfl

/-- A task in a transaction has its connection. -/
theorem Task.lacks_tx {t : Task S Req Out} {x : Tx S} (h : t.tx = some x) : t.lacks = false := by
  unfold lacks
  cases t.prog <;> simp [h]

/-- A transaction is begun by a task that needs a connection, or was there. -/
theorem Task.tx_of_move {t t' : Task S Req Out} {db : S.Db} {c : Choice S} {ws : List S.Write}
    (hm : t.move db c = some (t', ws)) (h : t'.tx.isSome = true) :
    t.tx.isSome = true ∨ t.lacks = true ∧ ∃ env, c = .go env := by
  obtain ⟨hg, hgoes⟩ := goes_of_move hm
  -- a task that goes on without a transaction has none
  have none : ∀ {p : Prog S Out} {vs : List S.Write}, (t.next p none vs).tx.isSome = true → False := by
    intro p vs h
    cases p <;> cases h
  have same : ∀ {p : Prog S Out} {tx : Option (Tx S)} {vs : List S.Write}, (t.next p tx vs).tx.isSome = true →
      tx.isSome = true := by
    intro p tx vs h
    cases p with
    | ret a => cases h
    | _ => exact h
  cases hgoes with
  | left | crashed => cases h
  | asked | unbegun => exact .inl (same h)
  | begun hp =>
    cases htx : t.tx with
    | none => exact .inr ⟨by simp [lacks, hg, hp, htx], _, rfl⟩
    | some x => exact .inl rfl
  | ranTx hp htx => exact .inl (by rw [htx]; rfl)
  | _ => exact (none h).elim

/-- A pool of programs, and the tasks that hold a connection for their next
move. -/
structure Lending (S : Server) (Req Out : Type) where
  pool : Pool S Req Out
  lent : List ℕ

/-- A connection is lent to a task, or the pool moves. -/
inductive Deal (S : Server) (Req : Type)
  | lend (r : ℕ)
  | act (a : Action S Req)

def Deal.action? : Deal S Req → Option (Action S Req)
  | .lend _ => none
  | .act a => some a

/-- The task that is lent a connection, or moves. -/
def Deal.task? : Deal S Req → Option ℕ
  | .lend r => some r
  | .act a => a.task?

@[simp] theorem Deal.task?_lend (r : ℕ) : (Deal.lend r : Deal S Req).task? = some r := rfl

@[simp] theorem Deal.task?_act (a : Action S Req) : (Deal.act a).task? = a.task? := rfl

namespace Lending

/-- The task holds a connection. -/
def busy (s : Lending S Req Out) (r : ℕ) : Bool := s.lent.contains r || (s.pool.tasks[r]?).any (·.tx.isSome)

/-- How many are held. -/
def inUse (s : Lending S Req Out) : ℕ := ((Finset.range s.pool.tasks.length).filter fun r => s.busy r = true).card

/-- What is carried out is done on a connection. -/
def entitled (s : Lending S Req Out) : Action S Req → Bool
  | .task r (.go _) => (s.pool.tasks[r]?).all fun t => !t.lacks || s.lent.contains r
  | _ => true

variable (handle : Req → Prog S Out) (n : ℕ)

/-- One move, with `n` connections. -/
def step (s : Lending S Req Out) : Deal S Req → Option (Lending S Req Out)
  | .lend r =>
    if (s.pool.tasks[r]?).any Task.lacks && !s.busy r && s.inUse < n then some { s with lent := r :: s.lent } else none
  | .act a =>
    if s.entitled a then (s.pool.step handle a).map fun p => ⟨p, s.lent.filter fun r => a.task? ≠ some r⟩ else none

def run (s : Lending S Req Out) : List (Deal S Req) → Option (Lending S Req Out)
  | [] => some s
  | d :: ds => (s.step handle n d).bind fun s' => s'.run ds

variable {handle n} {s s' : Lending S Req Out}

/-- What a move can be. -/
theorem step_cases {d : Deal S Req} (h : s.step handle n d = some s') :
    (∃ r t, d = .lend r ∧ s.pool.tasks[r]? = some t ∧ t.lacks = true ∧ r ∉ s.lent ∧ s.inUse < n ∧
      s' = { s with lent := r :: s.lent }) ∨
    ∃ a p, d = .act a ∧ s.entitled a = true ∧ s.pool.step handle a = some p ∧
      s' = ⟨p, s.lent.filter fun r => a.task? ≠ some r⟩ := by
  cases d with
  | lend r =>
    simp only [step, Option.ite_none_right_eq_some, Bool.and_eq_true, decide_eq_true_eq, Option.any_eq_true_iff_get,
      Option.some.injEq] at h
    obtain ⟨⟨⟨⟨hr, hlacks⟩, hfree⟩, hlt⟩, rfl⟩ := h
    have hlent : r ∉ s.lent := fun hl => by simp [busy, hl] at hfree
    exact .inl ⟨r, _, rfl, (Option.some_get hr).symm, hlacks, hlent, hlt, rfl⟩
  | act a =>
    simp only [step, Option.ite_none_right_eq_some, Option.map_eq_some_iff] at h
    obtain ⟨he, p, hp, rfl⟩ := h
    exact .inr ⟨a, p, rfl, he, hp, rfl⟩

theorem run_append (s : Lending S Req Out) (ds es : List (Deal S Req)) :
    s.run handle n (ds ++ es) = (s.run handle n ds).bind fun s' => s'.run handle n es := by
  induction ds generalizing s with
  | nil => rfl
  | cons d ds ih =>
    simp only [List.cons_append, run]
    cases s.step handle n d with
    | none => rfl
    | some s' => exact ih s'

/-- What every step keeps, a run keeps. -/
theorem run_keeps {Q : Lending S Req Out → Prop} (hQ : ∀ s d s', Q s → s.step handle n d = some s' → Q s') :
    ∀ {ds : List (Deal S Req)} {s s' : Lending S Req Out}, Q s → s.run handle n ds = some s' → Q s'
  | [], _, _, hs, h => by
    cases h
    exact hs
  | d :: ds, s, _, hs, h => by
    obtain ⟨s₁, hst, h⟩ := Option.bind_eq_some_iff.mp h
    exact run_keeps hQ (hQ s d s₁ hs hst) h

/-- **A run on `n` connections is a run**, whoever has been lent one. -/
theorem pool_run : ∀ {ds : List (Deal S Req)} {s : Lending S Req Out}, s.run handle n ds = some s' →
    s.pool.run handle (ds.filterMap Deal.action?) = some s'.pool
  | [], s, h => by
    cases h
    rfl
  | d :: ds, s, h => by
    obtain ⟨s₁, hst, h⟩ := Option.bind_eq_some_iff.mp h
    have ih := pool_run h
    rcases step_cases hst with ⟨r, t, rfl, -, -, -, -, rfl⟩ | ⟨a, p, rfl, -, hp, rfl⟩
    · exact ih
    · exact Option.bind_eq_some_iff.mpr ⟨p, hp, ih⟩

/-- Loans and one move are that move. -/
theorem pool_step {ds : List (Deal S Req)} {a : Action S Req} (h : s.run handle n ds = some s')
    (hds : ds.filterMap Deal.action? = [a]) : s.pool.step handle a = some s'.pool := by
  have hst := pool_run h
  rw [hds, Pool.run, Option.bind_eq_some_iff] at hst
  obtain ⟨p, hst, hp⟩ := hst
  rwa [show p = s'.pool from Option.some.inj hp] at hst

/-! ### What holds of the connections -/

/-- They are lent to tasks that need them, and no more are held than there are. -/
structure Ok (n : ℕ) (s : Lending S Req Out) : Prop where
  lacks : ∀ r ∈ s.lent, ∃ t, s.pool.tasks[r]? = some t ∧ t.lacks = true
  inUse : s.inUse ≤ n

/-- At the start none is. -/
theorem ok_start {p : Pool S Req Out} (h : p.tasks = []) : Ok n ⟨p, []⟩ := by
  refine ⟨by simp, ?_⟩
  rw [Lending.inUse, h]
  exact Nat.zero_le n

theorem busy_iff {r : ℕ} : s.busy r = true ↔ r ∈ s.lent ∨ ∃ t, s.pool.tasks[r]? = some t ∧ t.tx.isSome = true := by
  simp [busy, Option.any_eq_true]

theorem inUse_mono (h : ∀ r, s'.busy r = true → s.busy r = true) (hlt : ∀ r, s'.busy r = true → r < s.pool.tasks.length) :
    s'.inUse ≤ s.inUse := by
  refine Finset.card_le_card fun r hr => ?_
  rw [Finset.mem_filter] at hr ⊢
  exact ⟨Finset.mem_range.mpr (hlt r hr.2), h r hr.2⟩

/-- Who holds a connection has come. -/
theorem Ok.lt (h : s.Ok n) {r : ℕ} (hr : s.busy r = true) : r < s.pool.tasks.length := by
  rcases busy_iff.mp hr with hr | ⟨t, ht, -⟩
  · obtain ⟨t, ht, -⟩ := h.lacks r hr
    exact (List.getElem?_eq_some_iff.mp ht).1
  · exact (List.getElem?_eq_some_iff.mp ht).1

/-- Who holds one afterwards has held one before. -/
theorem Ok.inUse_le (h : s.Ok n) {p : Pool S Req Out} {l : List ℕ} (hl : ∀ i ∈ l, i ∈ s.lent)
    (hp : ∀ i u, p.tasks[i]? = some u → u.tx.isSome = true → s.busy i = true) : Lending.inUse ⟨p, l⟩ ≤ s.inUse := by
  have hbusy : ∀ i, busy ⟨p, l⟩ i = true → s.busy i = true := fun i hi => by
    rcases busy_iff.mp hi with hi | ⟨u, hu, htx⟩
    · exact busy_iff.mpr (.inl (hl i hi))
    · exact hp i u hu htx
  exact inUse_mono hbusy fun i hi => h.lt (hbusy i hi)

theorem step_ok {d : Deal S Req} (h : s.Ok n) (hst : s.step handle n d = some s') : s'.Ok n := by
  rcases step_cases hst with ⟨r, t, rfl, ht, hlacks, -, hlt, rfl⟩ | ⟨a, p, rfl, he, hp, rfl⟩
  · constructor
    · intro i hi
      rcases List.mem_cons.mp hi with rfl | hi
      · exact ⟨t, ht, hlacks⟩
      · exact h.lacks i hi
    · -- at most one connection more
      have hsub : ((Finset.range s.pool.tasks.length).filter fun i => busy { s with lent := r :: s.lent } i = true) ⊆
          insert r ((Finset.range s.pool.tasks.length).filter fun i => s.busy i = true) := by
        intro i hi
        rw [Finset.mem_filter] at hi
        rw [Finset.mem_insert, Finset.mem_filter]
        by_cases hir : i = r
        · exact .inl hir
        · refine .inr ⟨hi.1, busy_iff.mpr ?_⟩
          exact (busy_iff.mp hi.2).imp_left fun hm => (List.mem_cons.mp hm).resolve_left hir
      calc inUse { s with lent := r :: s.lent } ≤ _ := Finset.card_le_card hsub
        _ ≤ s.inUse + 1 := Finset.card_insert_le _ _
        _ ≤ n := hlt
  · have hleft : ∀ i, i ∈ s.lent.filter (fun r => a.task? ≠ some r) ↔ i ∈ s.lent ∧ a.task? ≠ some i := by simp
    constructor
    · intro i hi
      obtain ⟨hi, hne⟩ := (hleft i).mp hi
      obtain ⟨t, ht, hlacks⟩ := h.lacks i hi
      refine ⟨t, ?_, hlacks⟩
      rcases Pool.step_cases hp with ⟨req, rfl, rfl⟩ | ⟨w, rfl, -, -, rfl⟩ | ⟨r, c, u, u', ws, rfl, hu, hm, -, rfl⟩
      · exact (List.getElem?_append_left (List.getElem?_eq_some_iff.mp ht).1).trans ht
      · exact ht
      · exact (Pool.task_moved_of_ne fun hir => hne (congrArg some hir.symm)).trans ht
    · refine (h.inUse_le (fun i hi => ((hleft i).mp hi).1) fun i t ht htx => ?_).trans h.inUse
      rcases Pool.step_task hp ht with ht | ⟨req, rfl⟩ | ⟨c, u, ws, rfl, hu, hm, -⟩
      · exact busy_iff.mpr (.inr ⟨t, ht, htx⟩)
      · cases htx
      · rcases Task.tx_of_move hm htx with hutx | ⟨hlacks, env, rfl⟩
        · exact busy_iff.mpr (.inr ⟨u, hu, hutx⟩)
        · have hlent : !u.lacks || s.lent.contains i = true := by simpa [entitled, hu] using he
          exact busy_iff.mpr (.inl (by simpa [hlacks] using hlent))

theorem run_ok {ds : List (Deal S Req)} (h : s.Ok n) (hrun : s.run handle n ds = some s') : s'.Ok n :=
  run_keeps (fun _ _ _ => step_ok) h hrun

/-! ### Somebody can move -/

/-- What a task does that has its connection, or needs none. -/
theorem run_act {a : Action S Req} {p : Pool S Req Out} (he : s.entitled a = true) (hp : s.pool.step handle a = some p) :
    s.run handle n [.act a] = some ⟨p, s.lent.filter fun r => a.task? ≠ some r⟩ := by
  simp [run, step, he, hp]

/-- While a connection is left, any task that can move is lent one, and moves. -/
theorem exists_deal_of_lt {i : ℕ} {env : S.Env} {p : Pool S Req Out} (hlt : s.inUse < n)
    (hp : s.pool.step handle (.task i (.go env)) = some p) :
    ∃ ds, s.run handle n ds = some ⟨p, s.lent.filter fun r => some i ≠ some r⟩ ∧
      (ds = [.act (.task i (.go env))] ∨ ds = [.lend i, .act (.task i (.go env))]) := by
  by_cases he : s.entitled (.task i (.go env)) = true
  · exact ⟨_, run_act he hp, .inl rfl⟩
  · -- it needs a connection and has none
    obtain ⟨t, ht, -⟩ := Pool.exists_of_step hp
    obtain ⟨hlacks, hlent⟩ : t.lacks = true ∧ i ∉ s.lent := by simpa [entitled, ht] using he
    have htx : t.tx.isSome = false := by
      cases htx : t.tx with
      | none => rfl
      | some x => simp [Task.lacks_tx htx] at hlacks
    have hbusy : s.busy i = false := by simp [busy, ht, htx, hlent]
    have hlend : s.step handle n (.lend i) = some { s with lent := i :: s.lent } := by simp [step, ht, hlacks, hbusy, hlt]
    have hent : entitled { s with lent := i :: s.lent } (.task i (.go env)) = true := by simp [entitled, ht]
    have hrun : s.run handle n [.lend i, .act (.task i (.go env))] =
        run handle n { s with lent := i :: s.lent } [.act (.task i (.go env))] := by
      rw [run, hlend]
      rfl
    refine ⟨_, ?_, .inr rfl⟩
    rw [hrun, run_act hent hp]
    simp [Action.task?]

/-- **Somebody can always move**, if so when connections do not count: the task
that is asked for, or one in a transaction. When all of them are held, ask for one
that holds one. -/
theorem exists_deal {env : S.Env} (h : s.Ok n) (hn : 0 < n)
    (hopen : ∀ (i : ℕ) (u : Task S Req Out), s.pool.tasks[i]? = some u → u.tx.isSome = true → u.isOpen = true)
    (mover : ∀ (r : ℕ) (t : Task S Req Out), s.pool.tasks[r]? = some t → t.isOpen = true →
      ∃ i p, s.pool.step handle (.task i (.go env)) = some p ∧
        (i = r ∨ ∃ u, s.pool.tasks[i]? = some u ∧ u.tx.isSome = true))
    {r : ℕ} {t : Task S Req Out} (ht : s.pool.tasks[r]? = some t) (ho : t.isOpen = true) :
    ∃ ds i s', s.run handle n ds = some s' ∧ ds.length ≤ 2 ∧ ds.filterMap Deal.action? = [.task i (.go env)] := by
  by_cases hlt : s.inUse < n
  · obtain ⟨i, p, hp, -⟩ := mover r t ht ho
    obtain ⟨ds, hrun, hds⟩ := exists_deal_of_lt hlt hp
    refine ⟨ds, i, _, hrun, ?_⟩
    rcases hds with rfl | rfl
    · exact ⟨by simp, rfl⟩
    · exact ⟨by simp, rfl⟩
  · -- somebody holds a connection
    have hpos : 0 < s.inUse := by omega
    obtain ⟨j, hj⟩ := Finset.card_pos.mp hpos
    have hj := (Finset.mem_filter.mp hj).2
    obtain ⟨u, hu, huo⟩ : ∃ u, s.pool.tasks[j]? = some u ∧ u.isOpen = true := by
      rcases busy_iff.mp hj with hj | ⟨u, hu, htx⟩
      · obtain ⟨u, hu, hlacks⟩ := h.lacks j hj
        exact ⟨u, hu, Task.isOpen_of_lacks hlacks⟩
      · exact ⟨u, hu, hopen j u hu htx⟩
    obtain ⟨i, p, hp, hi⟩ := mover j u hu huo
    have hbusy : s.busy i = true := by
      rcases hi with rfl | hi
      · exact hj
      · exact busy_iff.mpr (.inr hi)
    have he : s.entitled (.task i (.go env)) = true := by
      rcases busy_iff.mp hbusy with hl | ⟨v, hv, htx⟩
      · simp [entitled, hl]
      · obtain ⟨x, hx⟩ := Option.isSome_iff_exists.mp htx
        simp [entitled, hv, Task.lacks_tx hx]
    exact ⟨_, i, _, run_act he hp, by simp, rfl⟩

/-! ### Programs that take no locks -/

variable (handle n) in
/-- Task `r` comes to be answered `a` by its own loans and moves alone, and changes
nothing. -/
def ComesTo (env : S.Env) (r : ℕ) (a : Out) (s : Lending S Req Out) : Prop :=
  ∃ ds s' t', s.run handle n ds = some s' ∧ (∀ d ∈ ds, d = .lend r ∨ d = .act (.task r (.go env))) ∧
    s'.pool.db = s.pool.db ∧ s'.pool.tasks[r]? = some t' ∧ t'.answered = some a

/-- One move, and then the rest. -/
theorem comesTo_next {env : S.Env} {r : ℕ} {t : Task S Req Out} (p : Prog S Out) (hok : s.Ok n) (hlt : s.inUse < n)
    (ht : s.pool.tasks[r]? = some t) (hg : t.gone = false) (hm : t.move s.pool.db (.go env) = some (t.next p none [], []))
    (ih : ∀ (s' : Lending S Req Out) (t' : Task S Req Out), s'.Ok n → s'.inUse < n → s'.pool.tasks[r]? = some t' →
      t'.prog = p → t'.gone = false → t'.tx = none →
      ∃ a, p.alone env none s'.pool.db = some (a, s'.pool.db) ∧ ComesTo handle n env r a s') :
    ∃ a, p.alone env none s.pool.db = some (a, s.pool.db) ∧ ComesTo handle n env r a s := by
  have htx : (t.next p none []).tx = none := by cases p <;> rfl
  have hst : s.pool.step handle (.task r (.go env)) = _ := Pool.step_quiet ht hm
  obtain ⟨ds, hrun, hds⟩ := exists_deal_of_lt hlt hst
  have ht₁ : (s.pool.moved r (t.next p none []) []).tasks[r]? = some (t.next p none []) := Pool.task_moved ht
  have hle : inUse ⟨s.pool.moved r (t.next p none []) [], s.lent.filter fun i => some r ≠ some i⟩ ≤ s.inUse := by
    refine hok.inUse_le (fun i hi => (List.mem_filter.mp hi).1) fun i u hu hutx => ?_
    rcases Pool.of_task_moved ht hu with ⟨-, rfl⟩ | ⟨-, hu⟩
    · rw [htx] at hutx
      cases hutx
    · exact busy_iff.mpr (.inr ⟨u, hu, hutx⟩)
  obtain ⟨a, ha, es, s', t', hrun', hes, hdb, ht', hans⟩ := ih _ _ (run_ok hok hrun) (hle.trans_lt hlt) ht₁ rfl hg htx
  refine ⟨a, ha, ds ++ es, s', t', ?_, fun d hd => ?_, hdb, ht', hans⟩
  · rw [run_append, hrun]
    exact hrun'
  · rcases List.mem_append.mp hd with hd | hd
    · rcases hds with rfl | rfl
      · exact .inr (List.mem_singleton.mp hd)
      · simpa using hd
    · exact hes d hd

/-- **A program that takes no locks waits for nobody** while a connection is left: its
own loans and moves lead to its answer, the one it would have come to on its own. -/
theorem answers_quiet (handle : Req → Prog S Out) (env : S.Env) {r : ℕ} : ∀ (p : Prog S Out) (s : Lending S Req Out)
    (t : Task S Req Out), p.Every Prog.Quiet → s.Ok n → s.inUse < n → s.pool.tasks[r]? = some t → t.prog = p →
    t.gone = false → t.tx = none → ∃ a, p.alone env none s.pool.db = some (a, s.pool.db) ∧ ComesTo handle n env r a s := by
  intro p
  induction p with
  | ret a =>
    intro s t _ _ _ ht hp hg _
    exact ⟨a, rfl, [], s, t, rfl, by simp, rfl, ht, Task.answered_eq.mpr ⟨hg, hp⟩⟩
  | crash => intro s t hq; exact hq.elim
  | begin k _ => intro s t hq; exact hq.1.elim
  | commit k _ => intro s t hq; exact hq.1.elim
  | ask q k ih =>
    intro s t hq hok hlt ht hp hg htx
    exact comesTo_next (k (S.answer env q)) hok hlt ht hg (by simp [Task.move, hg, hp, htx]) fun s' t' => ih _ s' t' (hq.2 _)
  | stmt q k ih =>
    intro s t hq hok hlt ht hp hg htx
    simp only [Prog.alone]
    cases hx : S.exec env q s.pool.db with
    | error e =>
      exact comesTo_next (k (.error e)) hok hlt ht hg (by simp [Task.move, hg, hp, htx, hx])
        fun s' t' => ih _ s' t' (hq.2 _)
    | ok x =>
      obtain ⟨a, ws⟩ := x
      obtain rfl := hq.1 _ _ _ _ hx
      exact comesTo_next (k (.ok a)) hok hlt ht hg (by simp [Task.move, hg, hp, htx, hx]) fun s' t' => ih _ s' t' (hq.2 _)

/-! ### Running dry -/

/-- **A task takes boundedly many loans and moves** in a run: a loan is used up by a
move of its own. -/
theorem deals_le {P : List S.Write → Prog S Out → Prop} {N r : ℕ} (hP : ∀ req, (handle req).Course P N none) :
    ∀ (ds : List (Deal S Req)) {s : Lending S Req Out} {m : ℕ}, s.Ok n → s.pool.Left P N r m →
      s.run handle n ds = some s' → ds.countP (·.task? = some r) + (if r ∈ s.lent then 1 else 0) ≤ 2 * m
  | [], s, m, hok, h, _ => by
    rw [List.countP_nil, Nat.zero_add]
    split
    · -- whoever is lent a connection has a move left
      obtain ⟨t, ht, hlacks⟩ := hok.lacks r ‹_›
      have ho := Task.isOpen_of_lacks hlacks
      obtain ⟨m', rfl⟩ := Task.course_pos (h.here t ht (Task.isOpen_iff.mp ho).1) ho
      omega
    · exact Nat.zero_le _
  | d :: ds, s, m, hok, h, hrun => by
    obtain ⟨s₁, hst, hrun⟩ := Option.bind_eq_some_iff.mp hrun
    have hok₁ := step_ok hok hst
    rw [← List.singleton_append, List.countP_append, List.countP_singleton]
    simp only [decide_eq_true_eq]
    rcases step_cases hst with ⟨i, t, rfl, ht, -, hlent, -, rfl⟩ | ⟨a, p, rfl, -, hp, rfl⟩
    · have ih := deals_le hP ds hok₁ h hrun
      by_cases hi : i = r
      · subst hi
        rw [if_pos List.mem_cons_self] at ih
        rw [if_neg hlent, if_pos (Deal.task?_lend i)]
        omega
      · have hmem : r ∈ i :: s.lent ↔ r ∈ s.lent := by simp [Ne.symm hi]
        rw [if_congr hmem rfl rfl] at ih
        rw [Deal.task?_lend, if_neg (fun h => hi (Option.some.inj h)), Nat.zero_add]
        exact ih
    · obtain ⟨m₁, h₁, hle⟩ := Pool.left_step hP h hp
      have ih := deals_le hP ds hok₁ h₁ hrun
      have hmem : r ∈ s.lent.filter (fun r => a.task? ≠ some r) ↔ r ∈ s.lent ∧ a.task? ≠ some r := by simp
      rw [if_congr hmem rfl rfl] at ih
      simp only [List.countP_singleton, decide_eq_true_eq] at hle
      by_cases ha : a.task? = some r
      · -- its loan, if it had one, is over
        rw [if_pos ha] at hle
        rw [Deal.task?_act, if_pos ha]
        split <;> omega
      · rw [if_neg ha] at hle
        rw [Deal.task?_act, if_neg ha, Nat.zero_add]
        rw [if_congr (and_iff_left ha) rfl rfl] at ih
        omega

/-- **A pool runs dry on its connections**, in twice as many moves. -/
theorem exists_run {P : List S.Write → Prog S Out → Prop} {Q : Lending S Req Out → Prop}
    (hQ : ∀ s d s', Q s → s.step handle n d = some s' → Q s')
    (hgo : ∀ s env, Q s → (∃ t ∈ s.pool.tasks, t.isOpen = true) →
      ∃ ds i s', s.run handle n ds = some s' ∧ ds.length ≤ 2 ∧ ds.filterMap Deal.action? = [.task i (.go env)]) :
    ∀ (m : ℕ) {s : Lending S Req Out} {b : List ℕ} (envs : ℕ → S.Env), Q s → s.pool.Course P b → b.sum = m →
      ∃ (ds : List (Deal S Req)) (s' : Lending S Req Out), ds.length ≤ 2 * m ∧
        (∀ (i : ℕ) (a : Action S Req), (ds.filterMap Deal.action?)[i]? = some a → ∃ r, a = .task r (.go (envs i))) ∧
        s.run handle n ds = some s' ∧ ∀ t ∈ s'.pool.tasks, t.isOpen = false := by
  intro m
  induction m with
  | zero =>
    intro s b envs hq hs hb
    refine ⟨[], s, Nat.le_refl _, by simp, rfl, fun t ht => ?_⟩
    by_contra ho
    obtain ⟨ds, r, s₁, hrun, -, hds⟩ := hgo s (envs 0) hq ⟨t, ht, by simpa using ho⟩
    obtain ⟨u, hu, u', ws, hm, -⟩ := Pool.exists_of_step (pool_step hrun hds)
    obtain ⟨b', -, hsum⟩ := Pool.moved_course hs hu hm
    omega
  | succ m ih =>
    intro s b envs hq hs hb
    by_cases ho : ∃ t ∈ s.pool.tasks, t.isOpen = true
    · obtain ⟨ds, r, s₁, hrun, hlen, hds⟩ := hgo s (envs 0) hq ho
      obtain ⟨u, hu, u', ws, hm, hmoved⟩ := Pool.exists_of_step (pool_step hrun hds)
      obtain ⟨b', hs₁, hsum⟩ := Pool.moved_course hs hu hm
      rw [← hmoved] at hs₁
      obtain ⟨es, s', hlen', hes, hrun', hdone⟩ := ih (fun i => envs (i + 1)) (run_keeps hQ hq hrun) hs₁ (by omega)
      refine ⟨ds ++ es, s', by rw [List.length_append]; omega, fun i a ha => ?_, ?_, hdone⟩
      · rw [List.filterMap_append, hds] at ha
        cases i with
        | zero =>
          obtain rfl : Action.task r (.go (envs 0)) = a := by simpa using ha
          exact ⟨r, rfl⟩
        | succ i => exact hes i a (by simpa using ha)
      · rw [run_append, hrun]
        exact hrun'
    · push Not at ho
      exact ⟨[], s, by simp, by simp, rfl, fun t ht => by simpa using ho t ht⟩

end Lending
end Txn

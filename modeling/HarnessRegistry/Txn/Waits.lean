/-
# Waiting, and running dry

A move of a pool waits while another open transaction holds a lock it needs.
If programs take their locks in an order, so that whoever is waited for is
lower in it (`rank`), then somebody can always move (`Pool.exists_step`): the
lowest of the tasks that are still open waits for nobody. And if every program
makes boundedly many moves, then a run in which nothing new arrives runs dry
(`Pool.task_moves_le`, `Pool.moves_le`, `Pool.exists_run`).

`Prog.Course` is the predicate on programs that both rest on: it bounds the
moves to come, and says what holds wherever the program may come to stand, of
it and of the writes its transaction has pending.

Key definitions: `Prog.Course`, `Task.isOpen`, `Pool.Waits`, `Pool.Course`,
`Pool.Left`, `Prog.Quiet`.
Key theorems: `Task.move_course`, `Pool.course_run`, `Pool.moves_le`,
`Pool.task_moves_le`, `Pool.Waits.writes`, `Pool.exists_step`, `Pool.exists_run`.
-/
import HarnessRegistry.Txn.Programs
import Mathlib.Algebra.Ring.Nat

namespace Txn

variable {S : Server} {Req Out α : Type}

/-- The writes that are pending in the transaction. -/
def held : Option (Tx S) → List S.Write
  | none => []
  | some x => x.writes

/-! ### Bounded programs -/

namespace Prog

/-- The program makes at most `n` moves more, and wherever it may come to stand
`P` holds, of the writes pending there and of the rest of the program. -/
def Course (P : List S.Write → Prog S α → Prop) : Prog S α → ℕ → Option (Tx S) → Prop
  | .ret _, _, _ => True
  | .crash, _ + 1, tx => P (held tx) .crash
  | .ask q k, n + 1, tx => P (held tx) (.ask q k) ∧ ∀ a, (k a).Course P n tx
  | .begin k, n + 1, tx => P (held tx) (.begin k) ∧ (k (.error S.fault)).Course P n tx ∧
      ∀ env, (k (.ok ())).Course P n (some ⟨env, []⟩)
  | .commit k, n + 1, tx => P (held tx) (.commit k) ∧ ∀ r, (k r).Course P n none
  | .stmt q k, n + 1, tx => P (held tx) (.stmt q k) ∧ (∀ e, (k (.error e)).Course P n none) ∧
      ∀ env db a ws, S.exec env q db = .ok (a, ws) →
        (k (.ok a)).Course P n (tx.map fun x => ⟨x.start, x.writes ++ ws⟩)
  | _, 0, _ => False

variable {P : List S.Write → Prog S α → Prop}

/-- A program that has not returned is at a place where `P` holds. -/
theorem Course.self {p : Prog S α} {n : ℕ} {tx : Option (Tx S)} (h : p.Course P n tx) (hp : ∀ a, p ≠ .ret a) :
    P (held tx) p := by
  cases p with
  | ret a => exact absurd rfl (hp a)
  | crash =>
    cases n with
    | zero => exact h.elim
    | succ n => exact h
  | stmt q k | begin k | commit k | ask q k =>
    cases n with
    | zero => exact h.elim
    | succ n => exact h.1

/-- A larger bound is one too. -/
theorem Course.mono : ∀ {p : Prog S α} {n m : ℕ} {tx : Option (Tx S)}, p.Course P n tx → n ≤ m → p.Course P m tx := by
  intro p
  induction p with
  | ret a => intro n m tx _ _; exact trivial
  | crash =>
    intro n m tx h hnm
    cases n with
    | zero => exact h.elim
    | succ n =>
      obtain ⟨m, rfl⟩ : ∃ m', m = m' + 1 := ⟨m - 1, by omega⟩
      exact h
  | ask q k ih =>
    intro n m tx h hnm
    cases n with
    | zero => exact h.elim
    | succ n =>
      obtain ⟨m, rfl⟩ : ∃ m', m = m' + 1 := ⟨m - 1, by omega⟩
      exact ⟨h.1, fun a => ih a (h.2 a) (by omega)⟩
  | begin k ih =>
    intro n m tx h hnm
    cases n with
    | zero => exact h.elim
    | succ n =>
      obtain ⟨m, rfl⟩ : ∃ m', m = m' + 1 := ⟨m - 1, by omega⟩
      exact ⟨h.1, ih _ h.2.1 (by omega), fun env => ih _ (h.2.2 env) (by omega)⟩
  | commit k ih =>
    intro n m tx h hnm
    cases n with
    | zero => exact h.elim
    | succ n =>
      obtain ⟨m, rfl⟩ : ∃ m', m = m' + 1 := ⟨m - 1, by omega⟩
      exact ⟨h.1, fun r => ih r (h.2 r) (by omega)⟩
  | stmt q k ih =>
    intro n m tx h hnm
    cases n with
    | zero => exact h.elim
    | succ n =>
      obtain ⟨m, rfl⟩ : ∃ m', m = m' + 1 := ⟨m - 1, by omega⟩
      exact ⟨h.1, fun e => ih _ (h.2.1 e) (by omega), fun env db a ws hx => ih _ (h.2.2 env db a ws hx) (by omega)⟩

/-- What is known of a program is known of what it becomes when a statement in a
transaction is carried out. -/
theorem Wp.ranTx {R : Rule S} {q : S.Stmt} {k : Except S.Err (S.Res q) → Prog S α} {x : Tx S} {done : List S.Write}
    {db : S.Db} {Q : α → Option (Tx S) → List S.Write → S.Db → Prop} {env : S.Env} {a : S.Res q} {ws : List S.Write}
    (h : (Prog.stmt q k).Wp R (some x) done db Q) (hrely : R.rely db db) (hinv : R.inv db)
    (hx : S.exec (S.inTx x.start env) q (S.applyAll x.writes db) = .ok (a, ws)) :
    (k (.ok a)).Wp R (some ⟨x.start, x.writes ++ ws⟩) done db Q := by
  have hk := (h db hrely hinv).2 env
  rw [hx] at hk
  exact hk.2

theorem course_settle {p : Prog S α} {n : ℕ} {tx : Option (Tx S)} (h : p.Course P n tx) :
    p.Course P n (Task.settle p tx) := by
  cases p <;> exact h

end Prog

/-! ### One task -/

namespace Task

variable {t t' : Task S Req Out} {db : S.Db} {c : Choice S} {ws : List S.Write}
  {P : List S.Write → Prog S Out → Prop} {n : ℕ}

/-- The request is still to be answered, and has not been abandoned. -/
def isOpen (t : Task S Req Out) : Bool := !t.gone && match t.prog with
  | .ret _ => false
  | _ => true

theorem isOpen_iff : t.isOpen = true ↔ t.gone = false ∧ ∀ a, t.prog ≠ .ret a := by
  unfold isOpen
  cases hp : t.prog <;> simp

/-- A task that is not open has been answered, or is gone. -/
theorem closed_iff : t.isOpen = false ↔ t.gone = true ∨ ∃ a, t.answered = some a := by
  unfold isOpen answered
  cases t.gone <;> cases hp : t.prog <;> simp

theorem pending_eq (t : Task S Req Out) : t.pending = held t.tx := by
  unfold pending
  cases t.tx <;> rfl

theorem tx_of_pending (h : t.pending ≠ []) : t.tx.isSome = true := by
  cases htx : t.tx with
  | none => exact absurd (by rw [pending_eq, htx]; rfl) h
  | some x => rfl

/-- Only an open task moves. -/
theorem isOpen_of_move (hm : t.move db c = some (t', ws)) : t.isOpen = true := by
  by_contra hc
  rcases closed_iff.mp (by simpa using hc) with hg | ⟨a, ha⟩
  · rw [move_of_gone hg] at hm
    cases hm
  · rw [move_of_answered ha] at hm
    cases hm

/-- An open task can go on, as far as it is concerned. -/
theorem move_of_isOpen (h : t.isOpen = true) (db : S.Db) (env : S.Env) :
    ∃ t' ws, t.move db (.go env) = some (t', ws) := by
  obtain ⟨hg, hp⟩ := isOpen_iff.mp h
  cases hpr : t.prog with
  | ret a => exact absurd hpr (hp a)
  | crash | ask | begin => exact ⟨_, _, by simp only [move, hg, hpr]; rfl⟩
  | commit k => cases htx : t.tx <;> exact ⟨_, _, by simp only [move, hg, hpr, htx]; rfl⟩
  | stmt q k =>
    cases htx : t.tx with
    | none => cases hx : S.exec env q db <;> exact ⟨_, _, by simp only [move, hg, hpr, htx, hx]; rfl⟩
    | some x =>
      cases hx : S.exec (S.inTx x.start env) q (S.applyAll x.writes db) <;>
        exact ⟨_, _, by simp only [move, hg, hpr, htx, hx]; rfl⟩

/-- An open task has a move left. -/
theorem course_pos (h : t.prog.Course P n t.tx) (ho : t.isOpen = true) : ∃ m, n = m + 1 := by
  cases n with
  | succ m => exact ⟨m, rfl⟩
  | zero =>
    cases hp : t.prog with
    | ret a => exact absurd hp ((isOpen_iff.mp ho).2 a)
    | _ => rw [hp] at h; exact h.elim

/-- A move uses up one of the moves that are left. -/
theorem move_course (h : t.prog.Course P n t.tx) (hm : t.move db c = some (t', ws)) :
    ∃ m, n = m + 1 ∧ (t'.gone = false → t'.prog.Course P m t'.tx) := by
  obtain ⟨m, rfl⟩ := course_pos h (isOpen_of_move hm)
  refine ⟨m, rfl, ?_⟩
  obtain ⟨-, hgoes⟩ := goes_of_move hm
  cases hgoes with
  | left | crashed => exact fun hg => by cases hg
  | asked hp =>
    rw [hp] at h
    exact fun _ => Prog.course_settle (h.2 _)
  | begun hp =>
    rw [hp] at h
    exact fun _ => Prog.course_settle (h.2.2 _)
  | unbegun hp =>
    rw [hp] at h
    exact fun _ => Prog.course_settle h.2.1
  | closed hp | committed hp | uncommitted hp =>
    rw [hp] at h
    exact fun _ => Prog.course_settle (h.2 _)
  | ran hp htx hx | ranTx hp htx hx =>
    rw [hp, htx] at h
    exact fun _ => Prog.course_settle (h.2.2 _ _ _ _ hx)
  | refused hp | refusedTx hp | failed hp =>
    rw [hp] at h
    exact fun _ => Prog.course_settle (h.2.1 _)

/-- A move needs the locks that the task holds, and those of what its statement
writes. -/
theorem needs {env : S.Env} {l : S.Lock} (hm : t.move db (.go env) = some (t', ws))
    (hl : l ∈ Pool.lockset S (ws ++ t'.pending)) :
    l ∈ Pool.lockset S t.pending ∨ ∃ (q : S.Stmt) (k : Except S.Err (S.Res q) → Prog S Out) (env' : S.Env)
      (a : S.Res q) (vs : List S.Write), t.prog = .stmt q k ∧
      S.exec env' q (S.applyAll t.pending db) = .ok (a, vs) ∧ l ∈ Pool.lockset S vs := by
  obtain ⟨hg, hgoes⟩ := goes_of_move hm
  have next : ∀ {p : Prog S Out} {tx : Option (Tx S)} {vs us : List S.Write},
      l ∈ Pool.lockset S (us ++ (t.next p tx vs).pending) → l ∈ Pool.lockset S (us ++ held tx) := by
    intro p tx vs us hl
    rw [pending_eq] at hl
    cases p with
    | ret a =>
      rw [Pool.lockset, List.flatMap_append] at hl ⊢
      exact List.mem_append_left _ (by simpa [next, settle, held] using hl)
    | _ => exact hl
  rw [pending_eq]
  cases hgoes with
  | crashed => simp [pending, Pool.lockset] at hl
  | asked hp => exact .inl (next hl)
  | begun hp => exact .inl (by simpa [held, Pool.lockset] using next hl)
  | closed hp htx => exact .inl (by simpa [held, Pool.lockset] using next hl)
  | committed hp htx =>
    rw [htx]
    exact .inl (by simpa [held] using next hl)
  | ran hp htx hx =>
    rw [htx]
    exact .inr ⟨_, _, _, _, _, hp, hx, by simpa [held] using next hl⟩
  | ranTx hp htx hx =>
    rw [htx]
    have hl := next hl
    simp only [List.nil_append, held, Pool.lockset, List.flatMap_append, List.mem_append] at hl
    exact hl.imp_right fun hl => ⟨_, _, _, _, _, hp, hx, hl⟩
  | refused hp htx hx | refusedTx hp htx hx => exact .inl (by simpa [held, Pool.lockset] using next hl)

/-- A task that has ended holds no transaction. -/
theorem closed_tx (hm : t.move db c = some (t', ws)) (hc : t'.isOpen = false) : t'.tx = none := by
  obtain ⟨hg, hgoes⟩ := goes_of_move hm
  -- a program that has returned holds no transaction
  have next : ∀ (p : Prog S Out) (tx : Option (Tx S)) (vs : List S.Write), (t.next p tx vs).isOpen = false →
      (t.next p tx vs).tx = none := by
    intro p tx vs hc
    rcases closed_iff.mp hc with hgone | ⟨a, ha⟩
    · exact absurd hgone (by simp [Task.next, hg])
    · have hp : p = .ret a := (answered_eq.mp ha).2
      rw [hp]
      rfl
  cases hgoes with
  | left | crashed => rfl
  | _ => exact next _ _ _ hc

end Task

/-! ### How many moves a run has -/

/-- A move of a task. -/
def Action.isTask : Action S Req → Bool
  | .task .. => true
  | _ => false

/-- The task that a move is of. -/
def Action.task? : Action S Req → Option ℕ
  | .task r _ => some r
  | _ => none

namespace Pool

variable {handle : Req → Prog S Out} {s s' : Pool S Req Out} {P : List S.Write → Prog S Out → Prop} {N : ℕ}

/-- Task by task, at most `b` moves are left, and `P` holds where the task
stands. -/
def Course (P : List S.Write → Prog S Out → Prop) (b : List ℕ) (s : Pool S Req Out) : Prop :=
  List.Forall₂ (fun n t => t.gone = false → t.prog.Course P n t.tx) b s.tasks

section Lists

variable {β γ : Type} {R : β → γ → Prop}

theorem forall₂_get {xs : List β} {ys : List γ} (h : List.Forall₂ R xs ys) : ∀ {i : ℕ} {y : γ}, ys[i]? = some y →
    ∃ x, xs[i]? = some x ∧ R x y := by
  induction h with
  | nil => intro i y hy; simp at hy
  | @cons x y xs ys hxy _ ih =>
    intro i z hz
    cases i with
    | zero =>
      obtain rfl : y = z := by simpa using hz
      exact ⟨x, rfl, hxy⟩
    | succ i => exact ih hz

theorem forall₂_set {xs : List β} {ys : List γ} {x : β} {y : γ} (h : List.Forall₂ R xs ys) (hxy : R x y) :
    ∀ i : ℕ, List.Forall₂ R (xs.set i x) (ys.set i y) := by
  induction h with
  | nil => intro i; exact .nil
  | cons hab hrest ih =>
    intro i
    cases i with
    | zero => exact .cons hxy hrest
    | succ i => exact .cons hab (ih i)

theorem sum_set_lt : ∀ {b : List ℕ} {i m : ℕ}, b[i]? = some (m + 1) → (b.set i m).sum + 1 = b.sum
  | [], i, m, h => by simp at h
  | n :: b, 0, m, h => by
    obtain rfl : n = m + 1 := by simpa using h
    simp only [List.set_cons_zero, List.sum_cons]
    omega
  | n :: b, i + 1, m, h => by
    have ih := sum_set_lt (b := b) (i := i) (by simpa using h)
    simp only [List.set_cons_succ, List.sum_cons]
    omega

end Lists

/-- A task's move uses up one of the moves that are left. -/
theorem moved_course {b : List ℕ} {r : ℕ} {c : Choice S} {t t' : Task S Req Out} {ws : List S.Write}
    (hs : s.Course P b) (ht : s.tasks[r]? = some t) (hm : t.move s.db c = some (t', ws)) :
    ∃ b', (s.moved r t' ws).Course P b' ∧ b'.sum + 1 = b.sum := by
  obtain ⟨n, hn, hc⟩ := forall₂_get hs ht
  obtain ⟨m, rfl, hc'⟩ := Task.move_course (hc (Task.isOpen_iff.mp (Task.isOpen_of_move hm)).1) hm
  exact ⟨b.set r m, forall₂_set hs hc' r, sum_set_lt hn⟩

/-- One move of the system: an arrival brings `N` moves with it. -/
theorem step_course (hP : ∀ req, (handle req).Course P N none) {b : List ℕ} {a : Action S Req} (hs : s.Course P b)
    (h : s.step handle a = some s') :
    ∃ b', s'.Course P b' ∧ b'.sum + [a].countP Action.isTask ≤ b.sum + N * ([a].filterMap Action.request?).length := by
  rcases step_cases h with ⟨req, rfl, rfl⟩ | ⟨w, rfl, -, -, rfl⟩ | ⟨r, c, t, t', ws, rfl, ht, hm, -, rfl⟩
  · refine ⟨b ++ [N], List.rel_append hs (.cons (fun _ => hP req) .nil), ?_⟩
    simp [Action.isTask, Action.request?]
  · exact ⟨b, hs, by simp [Action.isTask, Action.request?]⟩
  · obtain ⟨b', hb', hsum⟩ := moved_course hs ht hm
    exact ⟨b', hb', by simp [Action.isTask, Action.request?, hsum]⟩

/-- And a run. -/
theorem run_course (hP : ∀ req, (handle req).Course P N none) : ∀ (as : List (Action S Req)) {s : Pool S Req Out}
    {b : List ℕ}, s.Course P b → s.run handle as = some s' →
    ∃ b', s'.Course P b' ∧ b'.sum + as.countP Action.isTask ≤ b.sum + N * (as.filterMap Action.request?).length
  | [], s, b, hs, h => by
    cases h
    exact ⟨b, hs, by simp⟩
  | a :: as, s, b, hs, h => by
    obtain ⟨s₁, hst, h⟩ := Option.bind_eq_some_iff.mp h
    obtain ⟨b₁, hs₁, hle₁⟩ := step_course hP hs hst
    obtain ⟨b₂, hs₂, hle₂⟩ := run_course hP as hs₁ h
    refine ⟨b₂, hs₂, ?_⟩
    have hcount : (a :: as).countP Action.isTask = [a].countP Action.isTask + as.countP Action.isTask := by
      rw [← List.countP_append]
      rfl
    have hlen : ((a :: as).filterMap Action.request?).length =
        ([a].filterMap Action.request?).length + (as.filterMap Action.request?).length := by
      rw [← List.length_append, ← List.filterMap_append]
      rfl
    rw [hcount, hlen, Nat.mul_add]
    omega

/-- Every task stands where its program may stand. -/
theorem course_run (hP : ∀ req, (handle req).Course P N none) {as : List (Action S Req)} (h0 : s.tasks = [])
    (h : s.run handle as = some s') : ∀ t ∈ s'.tasks, t.gone = false → t.prog.Course P N t.tx := by
  refine run_induct (P := fun s => ∀ t ∈ s.tasks, t.gone = false → t.prog.Course P N t.tx) (by simp [h0]) ?_ h
  intro s₁ a s₂ ih hst t ht
  obtain ⟨r, ht⟩ := List.mem_iff_getElem?.mp ht
  rcases step_task hst ht with ht | ⟨req, rfl⟩ | ⟨c, u, ws, -, hu, hm, -⟩
  · exact ih t (List.mem_of_getElem? ht)
  · exact fun _ => hP req
  · obtain ⟨m, hm', hc⟩ :=
      Task.move_course (ih u (List.mem_of_getElem? hu) (Task.isOpen_iff.mp (Task.isOpen_of_move hm)).1) hm
    exact fun hg => (hc hg).mono (by omega)

/-- A bound for all tasks is one for those that are open. -/
theorem exists_course : ∀ {ts : List (Task S Req Out)}, (∀ t ∈ ts, t.gone = false → t.prog.Course P N t.tx) →
    ∃ b, List.Forall₂ (fun n t => t.gone = false → t.prog.Course P n t.tx) b ts ∧
      b.sum = N * ts.countP Task.isOpen
  | [], _ => ⟨[], .nil, by simp⟩
  | t :: ts, h => by
    obtain ⟨b, hb, hsum⟩ := exists_course fun (u : Task S Req Out) (hu : u ∈ ts) => h u (List.mem_cons_of_mem _ hu)
    by_cases ho : t.isOpen = true
    · refine ⟨N :: b, .cons (h t List.mem_cons_self) hb, ?_⟩
      rw [List.countP_cons_of_pos ho, List.sum_cons, hsum, Nat.mul_add_one, Nat.add_comm]
    · refine ⟨0 :: b, .cons (fun hg => ?_) hb, ?_⟩
      · rcases Task.closed_iff.mp (by simpa using ho) with hgone | ⟨a, ha⟩
        · rw [hg] at hgone
          cases hgone
        · rw [(Task.answered_eq.mp ha).2]
          exact trivial
      · rw [List.countP_cons_of_neg ho, List.sum_cons, hsum, Nat.zero_add]

/-- **A run has boundedly many moves**: so many for every request that is open
at first, and for every one that arrives. -/
theorem moves_le (hP : ∀ req, (handle req).Course P N none)
    (hs : ∀ t ∈ s.tasks, t.gone = false → t.prog.Course P N t.tx) {as : List (Action S Req)}
    (h : s.run handle as = some s') :
    as.countP Action.isTask ≤ N * (s.tasks.countP Task.isOpen + (as.filterMap Action.request?).length) := by
  obtain ⟨b, hb, hsum⟩ := exists_course hs
  obtain ⟨b', -, hle⟩ := run_course hP as hb h
  rw [Nat.mul_add]
  omega

/-- Task `r`, here or still to come, makes at most `m` moves more. -/
structure Left (P : List S.Write → Prog S Out → Prop) (N r m : ℕ) (s : Pool S Req Out) : Prop where
  here : ∀ t, s.tasks[r]? = some t → t.gone = false → t.prog.Course P m t.tx
  toCome : s.tasks[r]? = none → N ≤ m

theorem left_step (hP : ∀ req, (handle req).Course P N none) {r m : ℕ} {a : Action S Req} (h : s.Left P N r m)
    (hst : s.step handle a = some s') : ∃ m', s'.Left P N r m' ∧ m' + [a].countP (·.task? = some r) ≤ m := by
  rcases step_cases hst with ⟨req, rfl, rfl⟩ | ⟨w, rfl, -, -, rfl⟩ | ⟨i, c, t, t', ws, rfl, ht, hm, -, rfl⟩
  · refine ⟨m, ⟨fun t ht hg => ?_, fun hn => h.toCome ?_⟩, by simp [Action.task?]⟩
    · cases hu : s.tasks[r]? with
      | some u =>
        -- it was here before
        have hold : (s.arrived handle req).tasks[r]? = some u :=
          (List.getElem?_append_left (List.getElem?_eq_some_iff.mp hu).1).trans hu
        obtain rfl := Option.some.inj (ht.symm.trans hold)
        exact h.here t hu hg
      | none =>
        -- it has just come
        rcases step_task hst ht with ht | ⟨req', rfl⟩ | ⟨c, u, ws, ha, -⟩
        · rw [hu] at ht
          cases ht
        · exact (hP req').mono (h.toCome hu)
        · cases ha
    · rw [List.getElem?_eq_none_iff] at hn ⊢
      simp only [arrived, List.length_append] at hn
      omega
  · exact ⟨m, ⟨h.here, h.toCome⟩, by simp [Action.task?]⟩
  · by_cases hi : i = r
    · subst hi
      obtain ⟨m', rfl, hc⟩ := Task.move_course (h.here t ht (Task.isOpen_iff.mp (Task.isOpen_of_move hm)).1) hm
      have ht' : (s.moved i t' ws).tasks[i]? = some t' := task_moved ht
      refine ⟨m', ⟨fun u hu => ?_, fun hn => ?_⟩, by simp [Action.task?]⟩
      · obtain rfl := Option.some.inj (hu.symm.trans ht')
        exact hc
      · rw [ht'] at hn
        cases hn
    · have hr : (s.moved i t' ws).tasks[r]? = s.tasks[r]? := task_moved_of_ne (Ne.symm hi)
      exact ⟨m, ⟨fun u hu => h.here u (hr.symm.trans hu), fun hn => h.toCome (hr.symm.trans hn)⟩,
        by simp [Action.task?, hi]⟩

/-- **A task makes boundedly many moves** in a run, whatever the others do. -/
theorem task_moves_le (hP : ∀ req, (handle req).Course P N none) {r : ℕ} : ∀ (as : List (Action S Req))
    {s : Pool S Req Out} {m : ℕ}, s.Left P N r m → s.run handle as = some s' → as.countP (·.task? = some r) ≤ m
  | [], _, m, _, _ => Nat.zero_le m
  | a :: as, s, m, h, hrun => by
    obtain ⟨s₁, hst, hrun⟩ := Option.bind_eq_some_iff.mp hrun
    obtain ⟨m₁, h₁, hle⟩ := left_step hP h hst
    have ih := task_moves_le hP as h₁ hrun
    rw [← List.singleton_append, List.countP_append]
    omega

/-! ### Who waits for whom -/

/-- The next move of task `r` needs a lock that task `i` holds. -/
def Waits (s : Pool S Req Out) (env : S.Env) (r i : ℕ) : Prop :=
  i ≠ r ∧ ∃ t t' ws u l, s.tasks[r]? = some t ∧ t.move s.db (.go env) = some (t', ws) ∧ s.tasks[i]? = some u ∧
    l ∈ lockset S u.pending ∧ l ∈ lockset S (ws ++ t'.pending)

/-- Whoever is waited for holds a lock of what the statement writes. -/
theorem Waits.writes {C : Contract S handle} (hok : C.Ok s) {env : S.Env} {r i : ℕ} (h : s.Waits env r i) :
    ∃ (t u : Task S Req Out) (q : S.Stmt) (k : Except S.Err (S.Res q) → Prog S Out) (env' : S.Env) (a : S.Res q)
      (vs : List S.Write) (l : S.Lock), s.tasks[r]? = some t ∧ s.tasks[i]? = some u ∧ t.isOpen = true ∧
      t.prog = .stmt q k ∧ S.exec env' q (S.applyAll t.pending s.db) = .ok (a, vs) ∧ l ∈ lockset S vs ∧
      l ∈ lockset S u.pending := by
  obtain ⟨hir, t, t', ws, u, l, ht, hm, hu, hlu, hl⟩ := h
  rcases Task.needs hm hl with hl | ⟨q, k, env', a, vs, hp, hx, hl⟩
  · exact absurd hlu (hok.apart r i t u ht hu (Ne.symm hir) l hl)
  · exact ⟨t, u, q, k, env', a, vs, l, ht, hu, Task.isOpen_of_move hm, hp, hx, hl, hlu⟩

/-- An open task moves, or waits. -/
theorem step_or_waits {r : ℕ} {t : Task S Req Out} (env : S.Env) (ht : s.tasks[r]? = some t)
    (ho : t.isOpen = true) :
    (∃ s', s.step handle (.task r (.go env)) = some s') ∨ ∃ i, s.Waits env r i := by
  obtain ⟨t', ws, hm⟩ := Task.move_of_isOpen ho s.db env
  by_cases hf : s.free (some r) (ws ++ t'.pending)
  · exact .inl ⟨s.moved r t' ws, by simp [step, ht, hm, hf]⟩
  · rw [free_iff] at hf
    push Not at hf
    obtain ⟨i, u, hu, hi, l, hl, hl'⟩ := hf
    exact .inr ⟨i, fun hir => hi (by rw [hir]), t, t', ws, u, l, ht, hm, hu, hl, hl'⟩

/-- **Somebody can always move**, if locks are taken in an order, so that whoever
is waited for is open, and lower: the task that is asked for, or one that holds
locks. -/
theorem exists_step {env : S.Env} (rank : ℕ → ℕ)
    (hopen : ∀ (i : ℕ) (u : Task S Req Out), s.tasks[i]? = some u → u.pending ≠ [] → u.isOpen = true)
    (hrank : ∀ r i, s.Waits env r i → rank i < rank r) : ∀ {r : ℕ} {t : Task S Req Out}, s.tasks[r]? = some t →
    t.isOpen = true → ∃ i s', s.step handle (.task i (.go env)) = some s' ∧
      (i = r ∨ ∃ u, s.tasks[i]? = some u ∧ u.pending ≠ []) := by
  intro r
  induction hn : rank r using Nat.strongRecOn generalizing r with
  | ind n ih =>
    intro t ht ho
    have hgo : (∃ s', s.step handle (.task r (.go env)) = some s') ∨ ∃ i, s.Waits env r i := step_or_waits env ht ho
    rcases hgo with ⟨s', hs⟩ | ⟨i, hw⟩
    · exact ⟨r, s', hs, .inl rfl⟩
    · obtain ⟨-, _, _, _, u, l, -, -, hu, hl, -⟩ := id hw
      have hne : u.pending ≠ [] := fun h0 => by simp [h0, lockset] at hl
      obtain ⟨j, s', hs, hj⟩ := ih (rank i) (hn ▸ hrank r i hw) rfl hu (hopen i u hu hne)
      rcases hj with rfl | hj
      · exact ⟨j, s', hs, .inr ⟨u, hu, hne⟩⟩
      · exact ⟨j, s', hs, .inr hj⟩

/-- A task that has been answered or is gone is in no transaction. -/
theorem open_tx {as : List (Action S Req)} (h0 : s.tasks = []) (h : s.run handle as = some s') :
    ∀ (i : ℕ) (u : Task S Req Out), s'.tasks[i]? = some u → u.tx.isSome = true → u.isOpen = true := by
  have key : ∀ (i : ℕ) (u : Task S Req Out), s'.tasks[i]? = some u → u.isOpen = false → u.tx = none := by
    refine run_induct (P := fun s => ∀ (i : ℕ) (u : Task S Req Out), s.tasks[i]? = some u → u.isOpen = false →
      u.tx = none) (by simp [h0]) (fun s₁ a s₂ ih hst i u hu hc => ?_) h
    rcases step_task hst hu with hu | ⟨req, rfl⟩ | ⟨c, v, ws, -, -, hm, -⟩
    · exact ih i u hu hc
    · rfl
    · exact Task.closed_tx hm hc
  intro i u hu hs
  by_contra ho
  rw [key i u hu (by simpa using ho)] at hs
  cases hs

/-- Whoever has something pending is open. -/
theorem open_run {as : List (Action S Req)} (h0 : s.tasks = []) (h : s.run handle as = some s') (i : ℕ)
    (u : Task S Req Out) (hu : s'.tasks[i]? = some u) (hne : u.pending ≠ []) : u.isOpen = true :=
  open_tx h0 h i u hu (Task.tx_of_pending hne)

/-- **A pool runs dry**: if somebody can move as long as a task is open, so many
moves lead to a state in which none is. -/
theorem exists_run {Q : Pool S Req Out → Prop} (hQ : ∀ s a s', Q s → s.step handle a = some s' → Q s')
    (hgo : ∀ s env, Q s → (∃ t ∈ s.tasks, t.isOpen = true) →
      ∃ r s', s.step handle (.task r (.go env)) = some s') :
    ∀ (n : ℕ) {s : Pool S Req Out} {b : List ℕ} (envs : ℕ → S.Env), Q s → s.Course P b → b.sum = n →
      ∃ (as : List (Action S Req)) (s' : Pool S Req Out), as.length ≤ n ∧
        (∀ (i : ℕ) (a : Action S Req), as[i]? = some a → ∃ r, a = .task r (.go (envs i))) ∧
        s.run handle as = some s' ∧ ∀ t ∈ s'.tasks, t.isOpen = false := by
  intro n
  induction n with
  | zero =>
    intro s b envs hq hs hb
    refine ⟨[], s, Nat.le_refl _, by simp, rfl, fun t ht => ?_⟩
    by_contra ho
    obtain ⟨r, s', hst⟩ := hgo s (envs 0) hq ⟨t, ht, by simpa using ho⟩
    obtain ⟨u, hu, u', ws, hm, -⟩ := exists_of_step hst
    obtain ⟨b', -, hsum⟩ := moved_course hs hu hm
    omega
  | succ n ih =>
    intro s b envs hq hs hb
    by_cases ho : ∃ t ∈ s.tasks, t.isOpen = true
    · obtain ⟨r, s₁, hst⟩ := hgo s (envs 0) hq ho
      obtain ⟨u, hu, u', ws, hm, rfl⟩ := exists_of_step hst
      obtain ⟨b', hs₁, hsum⟩ := moved_course hs hu hm
      obtain ⟨as, s', hlen, has, hrun, hdone⟩ := ih (fun i => envs (i + 1)) (hQ _ _ _ hq hst) hs₁ (by omega)
      refine ⟨.task r (.go (envs 0)) :: as, s', by simpa using hlen, fun i a ha => ?_, ?_, hdone⟩
      · cases i with
        | zero =>
          obtain rfl : Action.task r (.go (envs 0)) = a := by simpa using ha
          exact ⟨r, rfl⟩
        | succ i => exact has i a (by simpa using ha)
      · rw [run, hst]
        exact hrun
    · push Not at ho
      exact ⟨[], s, by simp, by simp, rfl, fun t ht => by simpa using ho t ht⟩

end Pool

/-! ### Programs that take no locks -/

/-- What the program does next takes no lock. -/
def Prog.Quiet : Prog S α → Prop
  | .ret _ | .ask .. => True
  | .stmt q _ => ∀ env db a ws, S.exec env q db = .ok (a, ws) → ws = []
  | _ => False

namespace Pool

variable {handle : Req → Prog S Out} {s : Pool S Req Out} {env : S.Env}

/-- Nobody is waited for if nothing is locked. -/
theorem free_nil (s : Pool S Req Out) (r : Option ℕ) : s.free r [] :=
  free_iff.mpr fun _ _ _ _ _ _ => by simp [lockset]

/-- A move that commits nothing and leaves nothing pending is not held up. -/
theorem step_quiet {r : ℕ} {t : Task S Req Out} {p : Prog S Out} (ht : s.tasks[r]? = some t)
    (hm : t.move s.db (.go env) = some (t.next p none [], [])) :
    s.step handle (.task r (.go env)) = some (s.moved r (t.next p none []) []) := by
  have hpend : (t.next p none []).pending = [] := by
    rw [Task.pending_eq]
    cases p <;> rfl
  simp [step, ht, hm, hpend, free_nil]

end Pool
end Txn

/-
# Programs in parallel over one store

A `Pool` is a database with the programs running over it, one per request.
Statements interleave in any order. A statement outside a transaction takes
effect at once; inside one it sees the committed rows and the transaction's
own writes, which reach the database together at commit. A write waits while
another open transaction holds one of its locks. Any statement, `BEGIN` or
`COMMIT` may fail, and any program may be dropped where it stands; both roll
its transaction back. `Pool.step` is one move of this system, `Pool.run` a
sequence of them.

Key definitions: `Task`, `Task.move`, `Task.Goes`, `Pool`, `Pool.step`, `Pool.run`.
Key theorems: `Task.goes_of_move`, `Pool.step_cases`, `Pool.run_snoc`, `Pool.run_induct`.
-/
import HarnessRegistry.Txn.Prog
import Mathlib.Data.List.Induction

namespace Txn

variable {S : Server} {Req Out : Type}

/-- A request being served: what is left of its program, its open
transaction, the writes it has committed, and whether it was abandoned. -/
structure Task (S : Server) (Req Out : Type) where
  req : Req
  prog : Prog S Out
  tx : Option (Tx S)
  done : List S.Write
  gone : Bool

/-- How a program's next move goes: it is carried out, it fails, or the
program is dropped before it has answered. -/
inductive Choice (S : Server)
  | go (env : S.Env)
  | fail
  | drop

namespace Task

/-- A program that has returned holds no transaction. -/
def settle : Prog S Out → Option (Tx S) → Option (Tx S)
  | .ret _, _ => none
  | _, tx => tx

/-- The task goes on with `p`, having committed `ws` more. -/
def next (t : Task S Req Out) (p : Prog S Out) (tx : Option (Tx S)) (ws : List S.Write) :
    Task S Req Out :=
  { t with prog := p, tx := settle p tx, done := t.done ++ ws }

/-- The uncommitted writes. -/
def pending (t : Task S Req Out) : List S.Write := match t.tx with
  | none => []
  | some x => x.writes

/-- The answer, once there is one. -/
def answered (t : Task S Req Out) : Option Out := if t.gone then none else match t.prog with
  | .ret a => some a
  | _ => none

/-- One move of a task over the committed rows: the task after it, and the
writes it commits. -/
def move (t : Task S Req Out) (db : S.Db) : Choice S → Option (Task S Req Out × List S.Write)
  | .drop => if t.gone then none else match t.prog with
    | .ret _ => none
    | _ => some ({ t with tx := none, gone := true }, [])
  | .fail => if t.gone then none else match t.prog with
    | .stmt _ k => some (t.next (k (.error S.fault)) none [], [])
    | .begin k => some (t.next (k (.error S.fault)) t.tx [], [])
    | .commit k => some (t.next (k (.error S.fault)) none [], [])
    | _ => none
  | .go env => if t.gone then none else match t.prog, t.tx with
    | .ret _, _ => none
    | .crash, _ => some ({ t with tx := none, gone := true }, [])
    | .ask q k, tx => some (t.next (k (S.answer env q)) tx [], [])
    | .begin k, _ => some (t.next (k (.ok ())) (some ⟨env, []⟩) [], [])
    | .commit k, none => some (t.next (k (.ok ())) none [], [])
    | .commit k, some x => some (t.next (k (.ok ())) none x.writes, x.writes)
    | .stmt q k, none => match S.exec env q db with
      | .error e => some (t.next (k (.error e)) none [], [])
      | .ok (a, ws) => some (t.next (k (.ok a)) none ws, ws)
    | .stmt q k, some x => match S.exec (S.inTx x.start env) q (S.applyAll x.writes db) with
      | .error e => some (t.next (k (.error e)) none [], [])
      | .ok (a, ws) => some (t.next (k (.ok a)) (some ⟨x.start, x.writes ++ ws⟩) [], [])

/-- All that a move can do: the choice, the task after it, and what it commits. -/
inductive Goes (t : Task S Req Out) (db : S.Db) : Choice S → Task S Req Out → List S.Write → Prop
  | left : Goes t db .drop { t with tx := none, gone := true } []
  | crashed {env : S.Env} : t.prog = .crash → Goes t db (.go env) { t with tx := none, gone := true } []
  | asked {env : S.Env} {q : S.Ask} {k : S.Ans q → Prog S Out} : t.prog = .ask q k →
      Goes t db (.go env) (t.next (k (S.answer env q)) t.tx []) []
  | begun {env : S.Env} {k : Except S.Err Unit → Prog S Out} : t.prog = .begin k →
      Goes t db (.go env) (t.next (k (.ok ())) (some ⟨env, []⟩) []) []
  | unbegun {k : Except S.Err Unit → Prog S Out} : t.prog = .begin k →
      Goes t db .fail (t.next (k (.error S.fault)) t.tx []) []
  | closed {env : S.Env} {k : Except S.Err Unit → Prog S Out} : t.prog = .commit k → t.tx = none →
      Goes t db (.go env) (t.next (k (.ok ())) none []) []
  | committed {env : S.Env} {k : Except S.Err Unit → Prog S Out} {x : Tx S} : t.prog = .commit k → t.tx = some x →
      Goes t db (.go env) (t.next (k (.ok ())) none x.writes) x.writes
  | uncommitted {k : Except S.Err Unit → Prog S Out} : t.prog = .commit k →
      Goes t db .fail (t.next (k (.error S.fault)) none []) []
  | ran {env : S.Env} {q : S.Stmt} {k : Except S.Err (S.Res q) → Prog S Out} {a : S.Res q} {ws : List S.Write} :
      t.prog = .stmt q k → t.tx = none → S.exec env q db = .ok (a, ws) →
      Goes t db (.go env) (t.next (k (.ok a)) none ws) ws
  | ranTx {env : S.Env} {q : S.Stmt} {k : Except S.Err (S.Res q) → Prog S Out} {x : Tx S} {a : S.Res q}
      {ws : List S.Write} : t.prog = .stmt q k → t.tx = some x →
      S.exec (S.inTx x.start env) q (S.applyAll x.writes db) = .ok (a, ws) →
      Goes t db (.go env) (t.next (k (.ok a)) (some ⟨x.start, x.writes ++ ws⟩) []) []
  | refused {env : S.Env} {q : S.Stmt} {k : Except S.Err (S.Res q) → Prog S Out} {e : S.Err} :
      t.prog = .stmt q k → t.tx = none → S.exec env q db = .error e →
      Goes t db (.go env) (t.next (k (.error e)) none []) []
  | refusedTx {env : S.Env} {q : S.Stmt} {k : Except S.Err (S.Res q) → Prog S Out} {x : Tx S} {e : S.Err} :
      t.prog = .stmt q k → t.tx = some x → S.exec (S.inTx x.start env) q (S.applyAll x.writes db) = .error e →
      Goes t db (.go env) (t.next (k (.error e)) none []) []
  | failed {q : S.Stmt} {k : Except S.Err (S.Res q) → Prog S Out} : t.prog = .stmt q k →
      Goes t db .fail (t.next (k (.error S.fault)) none []) []

theorem goes_of_move {t t' : Task S Req Out} {db : S.Db} {c : Choice S} {ws : List S.Write}
    (hm : t.move db c = some (t', ws)) : t.gone = false ∧ t.Goes db c t' ws := by
  cases c with
  | drop =>
    simp only [move, Option.ite_none_left_eq_some] at hm
    refine ⟨by simpa using hm.1, ?_⟩
    have hm := hm.2
    split at hm <;> cases hm
    exact .left
  | fail =>
    simp only [move, Option.ite_none_left_eq_some] at hm
    refine ⟨by simpa using hm.1, ?_⟩
    have hm := hm.2
    split at hm
    case h_1 hp => cases hm; exact .failed hp
    case h_2 hp => cases hm; exact .unbegun hp
    case h_3 hp => cases hm; exact .uncommitted hp
    case h_4 => cases hm
  | go env =>
    simp only [move, Option.ite_none_left_eq_some] at hm
    refine ⟨by simpa using hm.1, ?_⟩
    have hm := hm.2
    split at hm
    case h_1 => cases hm
    case h_2 hp => cases hm; exact .crashed hp
    case h_3 hp => cases hm; exact .asked hp
    case h_4 hp => cases hm; exact .begun hp
    case h_5 hp htx => cases hm; exact .closed hp htx
    case h_6 hp htx => cases hm; exact .committed hp htx
    case h_7 hp htx =>
      split at hm
      case h_1 hx => cases hm; exact .refused hp htx hx
      case h_2 hx => cases hm; exact .ran hp htx hx
    case h_8 hp htx =>
      split at hm
      case h_1 hx => cases hm; exact .refusedTx hp htx hx
      case h_2 hx => cases hm; exact .ranTx hp htx hx

end Task

/-- The database, the requests in order of arrival, and every committed write
in order, with the request that made it. -/
structure Pool (S : Server) (Req Out : Type) where
  db : S.Db
  tasks : List (Task S Req Out)
  log : List (Option ℕ × S.Write)

/-- A move of the whole system: a request arrives, one is moved on, or
somebody writes by hand. -/
inductive Action (S : Server) (Req : Type)
  | arrive (req : Req)
  | task (r : ℕ) (c : Choice S)
  | outside (w : S.Write)

/-- The request that arrives, if one does. -/
def Action.request? {S : Server} {Req : Type} : Action S Req → Option Req
  | .arrive req => some req
  | _ => none

namespace Pool

/-- Locks on the uncommitted writes of `ws`. -/
def lockset (S : Server) (ws : List S.Write) : List S.Lock := ws.flatMap S.locks

/-- No task but `r` holds a lock that `ws` needs. -/
def free (s : Pool S Req Out) (r : Option ℕ) (ws : List S.Write) : Prop :=
  ∀ p ∈ s.tasks.zipIdx, some p.2 ≠ r → ∀ l ∈ lockset S p.1.pending, l ∉ lockset S ws

instance (s : Pool S Req Out) (r : Option ℕ) (ws : List S.Write) : Decidable (s.free r ws) := by
  have := S.lockEq
  unfold free
  infer_instance

theorem free_iff {s : Pool S Req Out} {r : Option ℕ} {ws : List S.Write} :
    s.free r ws ↔ ∀ i t, s.tasks[i]? = some t → some i ≠ r → ∀ l ∈ lockset S t.pending,
      l ∉ lockset S ws := by
  simp only [free, Prod.forall, List.mem_zipIdx_iff_getElem?]
  exact forall_comm

variable (handle : Req → Prog S Out)

/-- A request has arrived. -/
def arrived (s : Pool S Req Out) (req : Req) : Pool S Req Out :=
  { s with tasks := s.tasks ++ [⟨req, handle req, none, [], false⟩] }

/-- Task `r` has become `t'` and committed `ws`. -/
def moved (s : Pool S Req Out) (r : ℕ) (t' : Task S Req Out) (ws : List S.Write) : Pool S Req Out :=
  ⟨S.applyAll ws s.db, s.tasks.set r t', s.log ++ ws.map (some r, ·)⟩

/-- Somebody has written by hand. -/
def touched (s : Pool S Req Out) (w : S.Write) : Pool S Req Out :=
  { s with db := S.apply w s.db, log := s.log ++ [(none, w)] }

/-- One move of the system, if it is possible. -/
def step (s : Pool S Req Out) : Action S Req → Option (Pool S Req Out)
  | .arrive req => some (s.arrived handle req)
  | .outside w => if S.external w = true ∧ s.free none [w] then some (s.touched w) else none
  | .task r c => do
    let t ← s.tasks[r]?
    let (t', ws) ← t.move s.db c
    if s.free (some r) (ws ++ t'.pending) then some (s.moved r t' ws) else none

/-- A run of the system. -/
def run (s : Pool S Req Out) : List (Action S Req) → Option (Pool S Req Out)
  | [] => some s
  | a :: as => (s.step handle a).bind fun s' => s'.run as

variable {handle}

/-- The task that has moved. -/
theorem task_moved {s : Pool S Req Out} {r : ℕ} {t t' : Task S Req Out} {ws : List S.Write}
    (ht : s.tasks[r]? = some t) : (s.moved r t' ws).tasks[r]? = some t' :=
  List.getElem?_set_self (List.getElem?_eq_some_iff.mp ht).1

/-- The others. -/
theorem task_moved_of_ne {s : Pool S Req Out} {r i : ℕ} {t' : Task S Req Out} {ws : List S.Write} (hi : i ≠ r) :
    (s.moved r t' ws).tasks[i]? = s.tasks[i]? := List.getElem?_set_ne hi.symm

/-- A task after a move is the one that has moved, or another. -/
theorem of_task_moved {s : Pool S Req Out} {r i : ℕ} {t t' u : Task S Req Out} {ws : List S.Write}
    (ht : s.tasks[r]? = some t) (hu : (s.moved r t' ws).tasks[i]? = some u) :
    (i = r ∧ u = t') ∨ (i ≠ r ∧ s.tasks[i]? = some u) := by
  by_cases hi : i = r
  · subst hi
    exact .inl ⟨rfl, Option.some.inj (hu.symm.trans (task_moved ht))⟩
  · exact .inr ⟨hi, (task_moved_of_ne hi).symm.trans hu⟩

/-- What a move of the system can be. -/
theorem step_cases {s s' : Pool S Req Out} {a : Action S Req} (h : s.step handle a = some s') :
    (∃ req, a = .arrive req ∧ s' = s.arrived handle req) ∨
    (∃ w, a = .outside w ∧ S.external w = true ∧ s.free none [w] ∧ s' = s.touched w) ∨
    (∃ r c t t' ws, a = .task r c ∧ s.tasks[r]? = some t ∧ t.move s.db c = some (t', ws) ∧
      s.free (some r) (ws ++ t'.pending) ∧ s' = s.moved r t' ws) := by
  cases a with
  | arrive req => exact .inl ⟨req, rfl, by simpa [step] using h.symm⟩
  | outside w =>
    simp only [step, Option.ite_none_right_eq_some, Option.some.injEq] at h
    exact .inr (.inl ⟨w, rfl, h.1.1, h.1.2, h.2.symm⟩)
  | task r c =>
    simp only [step, Option.bind_eq_bind, Option.bind_eq_some_iff, Option.ite_none_right_eq_some,
      Option.some.injEq] at h
    obtain ⟨t, ht, ⟨t', ws⟩, hm, hf, rfl⟩ := h
    exact .inr (.inr ⟨r, c, t, t', ws, rfl, ht, hm, hf, rfl⟩)

/-- The task that a move is of. -/
theorem exists_of_step {s s' : Pool S Req Out} {r : ℕ} {c : Choice S} (h : s.step handle (.task r c) = some s') :
    ∃ t, s.tasks[r]? = some t ∧ ∃ t' ws, t.move s.db c = some (t', ws) ∧ s' = s.moved r t' ws := by
  rcases step_cases h with ⟨_, hc, -⟩ | ⟨_, hc, -⟩ | ⟨i, c', t, t', ws, hc, ht, hm, -, rfl⟩
  · cases hc
  · cases hc
  · cases hc
    exact ⟨t, ht, t', ws, hm, rfl⟩

/-- What a move of a task can be. -/
theorem task_step {s s' : Pool S Req Out} {r : ℕ} {c : Choice S} {t : Task S Req Out}
    (h : s.step handle (.task r c) = some s') (ht : s.tasks[r]? = some t) :
    ∃ t' ws, t.move s.db c = some (t', ws) ∧ s' = s.moved r t' ws ∧ s'.tasks[r]? = some t' := by
  obtain ⟨u, hu, t', ws, hm, rfl⟩ := exists_of_step h
  obtain rfl := Option.some.inj (ht.symm.trans hu)
  exact ⟨t', ws, hm, rfl, task_moved ht⟩

theorem run_append (s : Pool S Req Out) (as bs : List (Action S Req)) :
    s.run handle (as ++ bs) = (s.run handle as).bind fun s' => s'.run handle bs := by
  induction as generalizing s with
  | nil => rfl
  | cons a as ih =>
    simp only [List.cons_append, run]
    cases s.step handle a with
    | none => rfl
    | some s' => exact ih s'

/-- A run with one more move. -/
theorem run_snoc {s s' : Pool S Req Out} {as : List (Action S Req)} {a : Action S Req} :
    s.run handle (as ++ [a]) = some s' ↔ ∃ s₁, s.run handle as = some s₁ ∧ s₁.step handle a = some s' := by
  simp [run_append, run, Option.bind_eq_some_iff]

/-- What holds at the start and is kept by every move holds after every run. -/
theorem run_induct {P : Pool S Req Out → Prop} {s₀ : Pool S Req Out} (h0 : P s₀)
    (hs : ∀ s a s', P s → s.step handle a = some s' → P s') :
    ∀ {as s}, s₀.run handle as = some s → P s := by
  intro as
  induction as using List.reverseRecOn with
  | nil => intro s h; cases h; exact h0
  | append_singleton as a ih =>
    intro s h
    obtain ⟨s₁, h₁, h₂⟩ := run_snoc.mp h
    exact hs _ _ _ (ih h₁) h₂

end Pool
end Txn

/-
# Programs over a transactional store

A `Server` is a database with its statements: `exec` evaluates a statement on
the rows it sees and returns a result and the writes it makes, or an error.
A `Prog` is a client of it: statements, transactions and questions to the
rest of the world, each followed by what the program does with the answer.

`Prog.Wp` is a rely/guarantee logic for such programs. Between two moves of a
program the database may change as `rely` says, and stays within `inv`; each
time the program commits writes it must meet `guar`, which also sees what the
program committed before. The rules are `wp_bind` (programs compose),
`wp_mono` (the postcondition may be weakened) and `wp_stable` (what holds now
holds after the others have moved).

Key definitions: `Server`, `Prog`, `Tx`, `Rule`, `Prog.Wp`.
Key theorems: `Prog.wp_bind`, `Prog.wp_mono`, `Prog.wp_stable`.
-/
import Mathlib.Data.List.Nodup
import Mathlib.Tactic.Common

namespace Txn

/-- A database and what its clients can ask of it. A write `claims` the unique
keys it inserts and `locks` these and the rows it changes; `taken` says that a
key is in use. `Env` is what the world supplies to one move: the clock,
generated keys, the answers to the questions `Ask`. -/
structure Server where
  Db : Type
  Write : Type
  apply : Write → Db → Db
  Stmt : Type
  Res : Stmt → Type
  Err : Type
  /-- An error that is no verdict on the statement: a lost connection, a full pool. -/
  fault : Err
  Env : Type
  /-- What a statement sees in a transaction begun under the first environment. -/
  inTx : Env → Env → Env
  exec : Env → (q : Stmt) → Db → Except Err (Res q × List Write)
  Ask : Type
  Ans : Ask → Type
  answer : Env → (q : Ask) → Ans q
  Lock : Type
  lockEq : DecidableEq Lock
  claims : Write → List Lock
  locks : Write → List Lock
  /-- The write may take a key out of use. -/
  frees : Write → Bool
  taken : Db → Lock → Prop
  /-- Writes that people make by hand, outside every program. -/
  external : Write → Bool

variable {S : Server}

/-- Several writes, in order. -/
def Server.applyAll (S : Server) (ws : List S.Write) (db : S.Db) : S.Db :=
  ws.foldl (fun db w => S.apply w db) db

@[simp] theorem Server.applyAll_nil (db : S.Db) : S.applyAll [] db = db := rfl

@[simp] theorem Server.applyAll_cons (w : S.Write) (ws : List S.Write) (db : S.Db) :
    S.applyAll (w :: ws) db = S.applyAll ws (S.apply w db) := rfl

theorem Server.applyAll_append (ws vs : List S.Write) (db : S.Db) :
    S.applyAll (ws ++ vs) db = S.applyAll vs (S.applyAll ws db) := List.foldl_append ..

/-- The keys the writes claim are distinct and not in use. -/
def Server.Fresh (S : Server) (ws : List S.Write) (db : S.Db) : Prop :=
  (ws.flatMap S.claims).Nodup ∧ ∀ l ∈ ws.flatMap S.claims, ¬ S.taken db l

/-- What a server promises about keys. -/
class Server.Lawful (S : Server) : Prop where
  /-- Keys come into use only by being claimed. -/
  taken_apply : ∀ {w db l}, S.taken (S.apply w db) l → S.taken db l ∨ l ∈ S.claims w
  /-- They stay in use unless the write frees some. -/
  apply_taken : ∀ {w db l}, S.frees w = false → S.taken db l → S.taken (S.apply w db) l
  /-- A claimed key is in use afterwards. -/
  claim_taken : ∀ {w db l}, S.Fresh [w] db → l ∈ S.claims w → S.taken (S.apply w db) l
  claims_locks : ∀ {w l}, l ∈ S.claims w → l ∈ S.locks w
  /-- A statement that would take a key twice is refused. -/
  exec_fresh : ∀ {env q db a ws}, S.exec env q db = .ok (a, ws) → S.Fresh ws db

/-- An open transaction: where it began, and its writes so far. -/
structure Tx (S : Server) where
  start : S.Env
  writes : List S.Write

/-- A program: what it does next, and how it goes on. One that crashes does
nothing more, and its transaction is rolled back. -/
inductive Prog (S : Server) (α : Type) : Type
  | ret (a : α)
  | crash
  | stmt (q : S.Stmt) (k : Except S.Err (S.Res q) → Prog S α)
  | begin (k : Except S.Err Unit → Prog S α)
  | commit (k : Except S.Err Unit → Prog S α)
  | ask (q : S.Ask) (k : S.Ans q → Prog S α)

namespace Prog

variable {α β : Type}

/-- Sequencing. -/
def bind : Prog S α → (α → Prog S β) → Prog S β
  | .ret a, f => f a
  | .crash, _ => .crash
  | .stmt q k, f => .stmt q fun r => (k r).bind f
  | .begin k, f => .begin fun r => (k r).bind f
  | .commit k, f => .commit fun r => (k r).bind f
  | .ask q k, f => .ask q fun r => (k r).bind f

instance : Monad (Prog S) where
  pure := .ret
  bind := .bind

@[simp] theorem ret_bind (a : α) (f : α → Prog S β) : (Prog.ret a).bind f = f a := rfl

@[simp] theorem stmt_bind (q : S.Stmt) (k : Except S.Err (S.Res q) → Prog S α) (f : α → Prog S β) :
    (Prog.stmt q k).bind f = .stmt q fun r => (k r).bind f := rfl

theorem bind_ret : ∀ p : Prog S α, p.bind .ret = p := by
  intro p
  induction p with
  | ret a => rfl
  | crash => rfl
  | ask q k ih => simp only [Prog.bind, ih]
  | begin k ih => simp only [Prog.bind, ih]
  | commit k ih => simp only [Prog.bind, ih]
  | stmt q k ih => simp only [Prog.bind, ih]

theorem bind_assoc {γ : Type} (f : α → Prog S β) (g : β → Prog S γ) :
    ∀ p : Prog S α, (p.bind f).bind g = p.bind fun a => (f a).bind g := by
  intro p
  induction p with
  | ret a => rfl
  | crash => rfl
  | ask q k ih => simp only [Prog.bind, ih]
  | begin k ih => simp only [Prog.bind, ih]
  | commit k ih => simp only [Prog.bind, ih]
  | stmt q k ih => simp only [Prog.bind, ih]

instance : LawfulMonad (Prog S) :=
  LawfulMonad.mk' _ (fun p => bind_ret p) (fun _ _ => rfl) fun p f g => bind_assoc f g p

end Prog

/-! ### The logic -/

/-- What the others may do to the database between two moves (`rely`), what
it always satisfies (`inv`), and what this program may commit (`guar`): given
the writes it committed before, at a database, these writes. -/
structure Rule (S : Server) where
  rely : S.Db → S.Db → Prop
  inv : S.Db → Prop
  guar : List S.Write → S.Db → List S.Write → Prop

namespace Prog

variable {α β : Type}

/-- Every execution of the program from here, whatever the others do within
`rely` and `inv` and whichever statement fails, commits only what `guar`
allows and ends in `Q`. The arguments are the open transaction, the writes
committed so far and the database as last seen. -/
def Wp (R : Rule S) : Prog S α → Option (Tx S) → List S.Write → S.Db →
    (α → Option (Tx S) → List S.Write → S.Db → Prop) → Prop
  | .ret a, tx, done, db, Q => Q a tx done db
  | .crash, _, _, _, _ => True
  | .ask q k, tx, done, db, Q => ∀ env, (k (S.answer env q)).Wp R tx done db Q
  | .begin k, tx, done, db, Q =>
    (k (.error S.fault)).Wp R tx done db Q ∧ ∀ env, (k (.ok ())).Wp R (some ⟨env, []⟩) done db Q
  | .commit k, none, done, db, Q =>
    (k (.error S.fault)).Wp R none done db Q ∧ (k (.ok ())).Wp R none done db Q
  | .commit k, some x, done, db, Q =>
    (k (.error S.fault)).Wp R none done db Q ∧
      ∀ db', R.rely db db' → R.inv db' → S.Fresh x.writes db' →
        (x.writes = [] ∨ R.guar done db' x.writes) ∧
          (k (.ok ())).Wp R none (done ++ x.writes) (S.applyAll x.writes db') Q
  | .stmt q k, none, done, db, Q =>
    ∀ db', R.rely db db' → R.inv db' →
      (k (.error S.fault)).Wp R none done db' Q ∧ ∀ env,
        match S.exec env q db' with
        | .error e => (k (.error e)).Wp R none done db' Q
        | .ok (a, ws) => (ws = [] ∨ R.guar done db' ws) ∧
            (k (.ok a)).Wp R none (done ++ ws) (S.applyAll ws db') Q
  | .stmt q k, some x, done, db, Q =>
    ∀ db', R.rely db db' → R.inv db' →
      (k (.error S.fault)).Wp R none done db' Q ∧ ∀ env,
        match S.exec (S.inTx x.start env) q (S.applyAll x.writes db') with
        | .error e => (k (.error e)).Wp R none done db' Q
        | .ok (a, ws) => (∀ w ∈ ws, S.frees w = false) ∧
            (k (.ok a)).Wp R (some ⟨x.start, x.writes ++ ws⟩) done db' Q

variable {R : Rule S}

theorem wp_ret {a : α} {tx : Option (Tx S)} {done : List S.Write} {db : S.Db}
    {Q : α → Option (Tx S) → List S.Write → S.Db → Prop} :
    (Prog.ret a).Wp R tx done db Q ↔ Q a tx done db := by simp [Wp]

/-- Programs compose. -/
theorem wp_bind (f : α → Prog S β) (Q : β → Option (Tx S) → List S.Write → S.Db → Prop) :
    ∀ (p : Prog S α) (tx : Option (Tx S)) (done : List S.Write) (db : S.Db),
      (p.bind f).Wp R tx done db Q ↔
        p.Wp R tx done db fun a tx done db => (f a).Wp R tx done db Q := by
  intro p
  induction p with
  | ret a => intro tx done db; simp [Prog.bind, Wp]
  | crash => intro tx done db; simp [Prog.bind, Wp]
  | ask q k ih => intro tx done db; simp only [Prog.bind, Wp, ih]
  | begin k ih => intro tx done db; simp only [Prog.bind, Wp, ih]
  | commit k ih => intro tx done db; cases tx <;> simp only [Prog.bind, Wp, ih]
  | stmt q k ih =>
    intro tx done db
    cases tx <;> simp only [Prog.bind, Wp, ih]

/-- The postcondition may be weakened. -/
theorem wp_mono {Q Q' : α → Option (Tx S) → List S.Write → S.Db → Prop}
    (h : ∀ a tx done db, Q a tx done db → Q' a tx done db) :
    ∀ (p : Prog S α) (tx : Option (Tx S)) (done : List S.Write) (db : S.Db),
      p.Wp R tx done db Q → p.Wp R tx done db Q' := by
  intro p
  induction p with
  | ret a => intro tx done db hp; exact h _ _ _ _ hp
  | crash => intro tx done db hp; exact hp
  | ask q k ih => intro tx done db hp env; exact ih _ _ _ _ (hp env)
  | begin k ih => intro tx done db hp; exact ⟨ih _ _ _ _ hp.1, fun env => ih _ _ _ _ (hp.2 env)⟩
  | commit k ih =>
    intro tx done db hp
    cases tx with
    | none => exact ⟨ih _ _ _ _ hp.1, ih _ _ _ _ hp.2⟩
    | some x =>
      refine ⟨ih _ _ _ _ hp.1, fun db' hr hi hf => ?_⟩
      obtain ⟨hg, hk⟩ := hp.2 db' hr hi hf
      exact ⟨hg, ih _ _ _ _ hk⟩
  | stmt q k ih =>
    intro tx done db hp
    cases tx with
    | none =>
      intro db' hr hi
      obtain ⟨he, hk⟩ := hp db' hr hi
      refine ⟨ih _ _ _ _ he, fun env => ?_⟩
      have hk := hk env
      cases hx : S.exec env q db' with
      | error e => rw [hx] at hk; exact ih _ _ _ _ hk
      | ok r => rw [hx] at hk; exact ⟨hk.1, ih _ _ _ _ hk.2⟩
    | some x =>
      intro db' hr hi
      obtain ⟨he, hk⟩ := hp db' hr hi
      refine ⟨ih _ _ _ _ he, fun env => ?_⟩
      have hk := hk env
      cases hx : S.exec (S.inTx x.start env) q (S.applyAll x.writes db') with
      | error e => rw [hx] at hk; exact ih _ _ _ _ hk
      | ok r => rw [hx] at hk; exact ⟨hk.1, ih _ _ _ _ hk.2⟩

/-- What is known at one database is still known after the others have moved
on, if the postcondition is. -/
theorem wp_stable {Q : α → Option (Tx S) → List S.Write → S.Db → Prop}
    (trans : ∀ {a b c}, R.rely a b → R.rely b c → R.rely a c)
    (hQ : ∀ a tx done db db', Q a tx done db → R.rely db db' → R.inv db' → Q a tx done db') :
    ∀ (p : Prog S α) (tx : Option (Tx S)) (done : List S.Write) (db db' : S.Db),
      p.Wp R tx done db Q → R.rely db db' → R.inv db' → p.Wp R tx done db' Q := by
  intro p
  induction p with
  | ret a => intro tx done db db' hp hr hi; exact hQ _ _ _ _ _ hp hr hi
  | crash => intro tx done db db' hp hr hi; exact hp
  | ask q k ih => intro tx done db db' hp hr hi env; exact ih _ _ _ _ _ (hp env) hr hi
  | begin k ih =>
    intro tx done db db' hp hr hi
    exact ⟨ih _ _ _ _ _ hp.1 hr hi, fun env => ih _ _ _ _ _ (hp.2 env) hr hi⟩
  | commit k ih =>
    intro tx done db db' hp hr hi
    cases tx with
    | none => exact ⟨ih _ _ _ _ _ hp.1 hr hi, ih _ _ _ _ _ hp.2 hr hi⟩
    | some x => exact ⟨ih _ _ _ _ _ hp.1 hr hi, fun db'' hr' => hp.2 db'' (trans hr hr')⟩
  | stmt q k ih =>
    intro tx done db db' hp hr hi
    cases tx with
    | none => exact fun db'' hr' => hp db'' (trans hr hr')
    | some x => exact fun db'' hr' => hp db'' (trans hr hr')

end Prog
end Txn

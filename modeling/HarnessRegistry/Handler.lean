/-
# Handlers

A handler is a program over the registry's database that ends in a result or
an `Error`. `query` is a statement with `?` behind it: a database error ends
the handler. The rules below are what the specifications of the handlers are
proved from.

Key definitions: `Handler`, `query`, `queryOr`, `attempt`, `begin`, `commit`,
`check`, `Handler.Wp`, `Handler.alone`, `Handler.served`.
Key theorems: `Handler.wp_bind`, `wp_run`, `wp_read`, `wp_runTx`, `wp_commit`,
`served_queryOr`.
-/
import HarnessRegistry.Sql
import HarnessRegistry.Txn.Programs

namespace HarnessRegistry

open Txn

/-- `async fn … -> Result<_>`. -/
abbrev Handler (α : Type) := ExceptT Error (Prog registry) α

namespace Handler

/-- `sqlx::query(…).await.map_err(f)?`. -/
def queryOr (q : Stmt) (f : SqlError → Error) : Handler q.Res :=
  ExceptT.mk (Prog.stmt (S := registry) q fun r => .ret (r.mapError f))

/-- `sqlx::query(…).await?`. -/
def query (q : Stmt) : Handler q.Res := queryOr q .database

/-- `let _ = sqlx::query(…).await;`. -/
def attempt (q : Stmt) : Handler Unit :=
  ExceptT.mk (Prog.stmt (S := registry) q fun _ => .ret (.ok ()))

/-- `pool.begin().await?`. -/
def begin : Handler Unit := ExceptT.mk (Prog.begin (S := registry) fun r => .ret (r.mapError .database))

/-- `tx.commit().await?`. -/
def commit : Handler Unit := ExceptT.mk (Prog.commit (S := registry) fun r => .ret (r.mapError .database))

/-- A step that touches nothing. -/
def lift {α : Type} (x : Except Error α) : Handler α := ExceptT.mk (.ret x)

theorem lift_ok_bind {α β : Type} (a : α) (g : α → Handler β) : (lift (.ok a) >>= g) = g a := rfl

theorem lift_error_bind {α β : Type} (e : Error) (g : α → Handler β) : (lift (.error e) >>= g) = throw e := rfl

/-- A panic. -/
def crash {α : Type} : Handler α := ExceptT.mk .crash

/-- `RateLimiter::check`. -/
def check (l : Limiter) (key : String) : Handler Bool :=
  ExceptT.mk (Prog.ask (S := registry) (l, key) fun b => .ret (.ok b))

/-! ### Rules

`Wp` is `Prog.Wp` of the program behind a handler. The rules for a statement
ask the same of every way it can fail. -/

/-- What is to hold when a handler ends. -/
abbrev Ends (α : Type) := Except Error α → Option (Tx registry) → List Write → Db → Prop

/-- Every execution of the handler commits only what the rule allows and ends
in `Q`. -/
def Wp {α : Type} (R : Rule registry) (m : Handler α) (tx : Option (Tx registry)) (done : List Write) (db : Db)
    (Q : Ends α) : Prop :=
  Prog.Wp R m.run tx done db Q

section Rules

variable {α β : Type} {R : Rule registry} {tx : Option (Tx registry)} {done : List Write} {db : Db}
  {q : Stmt} {f : SqlError → Error}

theorem wp_pure {a : α} {Q : Ends α} : Wp R (pure a) tx done db Q ↔ Q (.ok a) tx done db := Prog.wp_ret

theorem wp_throw {e : Error} {Q : Ends α} : Wp R (throw e) tx done db Q ↔ Q (.error e) tx done db :=
  Prog.wp_ret

theorem wp_lift {x : Except Error α} {Q : Ends α} : Wp R (lift x) tx done db Q ↔ Q x tx done db :=
  Prog.wp_ret

theorem wp_crash {Q : Ends α} : Wp R crash tx done db Q := trivial

theorem wp_check {l : Limiter} {key : String} {Q : Ends Bool} (h : ∀ b, Q (.ok b) tx done db) :
    Wp R (check l key) tx done db Q := fun _ => h _

theorem wp_bind {m : Handler α} {g : α → Handler β} {Q : Ends β} :
    Wp R (m >>= g) tx done db Q ↔ Wp R m tx done db fun r tx done db => match r with
      | .ok a => Wp R (g a) tx done db Q
      | .error e => Q (.error e) tx done db := by
  have h : (m >>= g).run = m.run.bind fun r => ExceptT.bindCont (fun a => g a) r := rfl
  have hk : ∀ r tx done db, ((ExceptT.bindCont (fun a => g a) r : Prog registry _).Wp R tx done db Q ↔
      match r with
        | .ok a => Wp R (g a) tx done db Q
        | .error e => Q (.error e) tx done db) := by
    intro r tx done db
    cases r with
    | ok a => exact Iff.rfl
    | error e => exact Prog.wp_ret
  unfold Wp
  rw [h, Prog.wp_bind]
  exact ⟨Prog.wp_mono (fun _ _ _ _ => (hk _ _ _ _).mp) _ _ _ _,
    Prog.wp_mono (fun _ _ _ _ => (hk _ _ _ _).mpr) _ _ _ _⟩

/-- A handler behind a limiter. -/
theorem wp_limited {l : Limiter} {key : String} {e : Error} {m : Handler α} {Q : Ends α} (refused : Q (.error e) tx done db)
    (passed : Wp R m tx done db Q) :
    Wp R (do
      if !(← check l key) then throw e
      m) tx done db Q := by
  rw [wp_bind]
  refine wp_check fun admitted => ?_
  cases admitted with
  | true => exact passed
  | false => exact wp_throw.mpr refused

/-- A statement of its own: what it writes is committed at once. -/
theorem wp_execOr {Q : Ends q.Res}
    (he : ∀ db' e, R.rely db db' → R.inv db' → Q (.error (f e)) none done db')
    (hk : ∀ db' env a ws, R.rely db db' → R.inv db' → q.exec env db' = .ok (a, ws) →
      (ws = [] ∨ R.guar done db' ws) ∧ Q (.ok a) none (done ++ ws) (registry.applyAll ws db')) :
    Wp R (queryOr q f) none done db Q := by
  intro db' hr hi
  refine ⟨he _ _ hr hi, fun env => ?_⟩
  cases hx : registry.exec env q db' with
  | error e => exact he _ _ hr hi
  | ok r => exact hk _ env r.1 r.2 hr hi hx

theorem wp_queryOr {Q : Ends q.Res}
    (he : ∀ db' e, R.rely db db' → R.inv db' → Q (.error (f e)) none done db')
    (hk : ∀ db' env a ws, R.rely db db' → R.inv db' → q.run env db' = .ok (a, ws) →
      (ws = [] ∨ R.guar done db' ws) ∧ Q (.ok a) none (done ++ ws) (registry.applyAll ws db')) :
    Wp R (queryOr q f) none done db Q :=
  wp_execOr he fun db' env a ws hr hi hx => hk db' env a ws hr hi (run_of_exec hx)

/-- A statement in a transaction: what it writes is seen by the transaction
alone. -/
theorem wp_execTxOr {x : Tx registry} {Q : Ends q.Res}
    (he : ∀ db' e, R.rely db db' → R.inv db' → Q (.error (f e)) none done db')
    (hk : ∀ db' (env : Env) a ws, R.rely db db' → R.inv db' →
      q.exec { env with now := x.start.now } (registry.applyAll x.writes db') = .ok (a, ws) →
      (∀ w ∈ ws, w.frees = false) ∧ Q (.ok a) (some ⟨x.start, x.writes ++ ws⟩) done db') :
    Wp R (queryOr q f) (some x) done db Q := by
  intro db' hr hi
  refine ⟨he _ _ hr hi, fun env => ?_⟩
  cases hx : registry.exec (registry.inTx x.start env) q (registry.applyAll x.writes db') with
  | error e => exact he _ _ hr hi
  | ok r => exact hk _ env r.1 r.2 hr hi hx

theorem wp_queryTx {x : Tx registry} {Q : Ends q.Res}
    (he : ∀ db' e, R.rely db db' → R.inv db' → Q (.error (f e)) none done db')
    (hk : ∀ db' (env : Env) a ws, R.rely db db' → R.inv db' →
      q.run { env with now := x.start.now } (registry.applyAll x.writes db') = .ok (a, ws) →
      (∀ w ∈ ws, w.frees = false) ∧ Q (.ok a) (some ⟨x.start, x.writes ++ ws⟩) done db') :
    Wp R (queryOr q f) (some x) done db Q :=
  wp_execTxOr he fun db' env a ws hr hi hx => hk db' env a ws hr hi (run_of_exec hx)

/-- A statement whose outcome is ignored. -/
theorem wp_attempt {Q : Ends Unit}
    (he : ∀ db', R.rely db db' → R.inv db' → Q (.ok ()) none done db')
    (hk : ∀ db' env a ws, R.rely db db' → R.inv db' → q.run env db' = .ok (a, ws) →
      (ws = [] ∨ R.guar done db' ws) ∧ Q (.ok ()) none (done ++ ws) (registry.applyAll ws db')) :
    Wp R (attempt q) none done db Q := by
  intro db' hr hi
  refine ⟨he _ hr hi, fun env => ?_⟩
  cases hx : registry.exec env q db' with
  | error e => exact he _ hr hi
  | ok r => exact hk _ env r.1 r.2 hr hi (run_of_exec hx)

theorem wp_begin {Q : Ends Unit} (he : ∀ e, Q (.error e) tx done db)
    (hk : ∀ env, Q (.ok ()) (some ⟨env, []⟩) done db) : Wp R begin tx done db Q := ⟨he _, hk⟩

/-- `COMMIT`: the transaction's writes reach the database together, if their
keys are still new. -/
theorem wp_commit {x : Tx registry} {Q : Ends Unit} (he : ∀ e, Q (.error e) none done db)
    (hk : ∀ db', R.rely db db' → R.inv db' → registry.Fresh x.writes db' →
      (x.writes = [] ∨ R.guar done db' x.writes) ∧
        Q (.ok ()) none (done ++ x.writes) (registry.applyAll x.writes db')) :
    Wp R commit (some x) done db Q := ⟨he _, hk⟩

/-! A statement with `?` behind it, and what follows. -/

variable {g : q.Res → Handler β} {Q : Ends β}

theorem wp_run (he : ∀ db' e, R.rely db db' → R.inv db' → Q (.error (f e)) none done db')
    (hk : ∀ db' env a ws, R.rely db db' → R.inv db' → q.run env db' = .ok (a, ws) →
      (ws = [] ∨ R.guar done db' ws) ∧ Wp R (g a) none (done ++ ws) (registry.applyAll ws db') Q) :
    Wp R (queryOr q f >>= g) none done db Q := wp_bind.mpr (wp_queryOr he hk)

theorem wp_read (hq : q.reads = true)
    (he : ∀ db' e, R.rely db db' → R.inv db' → Q (.error (f e)) none done db')
    (hk : ∀ db' env a, R.rely db db' → R.inv db' → q.run env db' = .ok (a, []) → Wp R (g a) none done db' Q) :
    Wp R (queryOr q f >>= g) none done db Q := by
  refine wp_run he fun db' env a ws hr hi ha => ?_
  obtain rfl := run_reads hq ha
  rw [List.append_nil]
  exact ⟨.inl rfl, hk _ env a hr hi ha⟩

theorem wp_runTx {x : Tx registry}
    (he : ∀ db' e, R.rely db db' → R.inv db' → Q (.error (f e)) none done db')
    (hk : ∀ db' (env : Env) a ws, R.rely db db' → R.inv db' →
      q.run { env with now := x.start.now } (registry.applyAll x.writes db') = .ok (a, ws) →
      (∀ w ∈ ws, w.frees = false) ∧ Wp R (g a) (some ⟨x.start, x.writes ++ ws⟩) done db' Q) :
    Wp R (queryOr q f >>= g) (some x) done db Q := wp_bind.mpr (wp_queryTx he hk)

theorem wp_exec (he : ∀ db' e, R.rely db db' → R.inv db' → Q (.error (f e)) none done db')
    (hk : ∀ db' env a ws, R.rely db db' → R.inv db' → q.exec env db' = .ok (a, ws) →
      (ws = [] ∨ R.guar done db' ws) ∧ Wp R (g a) none (done ++ ws) (registry.applyAll ws db') Q) :
    Wp R (queryOr q f >>= g) none done db Q := wp_bind.mpr (wp_execOr he hk)

theorem wp_execTx {x : Tx registry}
    (he : ∀ db' e, R.rely db db' → R.inv db' → Q (.error (f e)) none done db')
    (hk : ∀ db' (env : Env) a ws, R.rely db db' → R.inv db' →
      q.exec { env with now := x.start.now } (registry.applyAll x.writes db') = .ok (a, ws) →
      (∀ w ∈ ws, w.frees = false) ∧ Wp R (g a) (some ⟨x.start, x.writes ++ ws⟩) done db' Q) :
    Wp R (queryOr q f >>= g) (some x) done db Q := wp_bind.mpr (wp_execTxOr he hk)

end Rules

/-! ### Every step of a handler

The rules for `Prog.Every`, for a handler in the form `first >>= rest`. -/

section Every

variable {α β : Type} {P : Prog registry (Except Error β) → Prop}

/-- The handler's program, and everything it may go on to be, satisfies `P`. -/
def Every (P : Prog registry (Except Error α) → Prop) (m : Handler α) : Prop := Prog.Every P m.run

theorem every_pure {a : β} (h : P (.ret (.ok a))) : Every P (pure a) := h

theorem every_throw {e : Error} (h : P (.ret (.error e))) : Every P (throw e) := h

theorem every_queryOr {q : Stmt} {f : SqlError → Error} {g : q.Res → Handler β}
    (h : P (queryOr q f >>= g).run) (he : ∀ e, P (.ret (.error (f e)))) (hk : ∀ a, Every P (g a)) :
    Every P (queryOr q f >>= g) :=
  ⟨h, fun r => match r with
    | .error e => he e
    | .ok a => hk a⟩

theorem every_attempt {q : Stmt} {g : Unit → Handler β} (h : P (attempt q >>= g).run) (hk : Every P (g ())) :
    Every P (attempt q >>= g) := ⟨h, fun _ => hk⟩

theorem every_begin {g : Unit → Handler β} (h : P (begin >>= g).run)
    (he : ∀ e, P (.ret (.error (.database e)))) (hk : Every P (g ())) : Every P (begin >>= g) :=
  ⟨h, fun r => match r with
    | .error e => he e
    | .ok _ => hk⟩

theorem every_commit {g : Unit → Handler β} (h : P (commit >>= g).run)
    (he : ∀ e, P (.ret (.error (.database e)))) (hk : Every P (g ())) : Every P (commit >>= g) :=
  ⟨h, fun r => match r with
    | .error e => he e
    | .ok _ => hk⟩

theorem every_check {l : Limiter} {key : String} {g : Bool → Handler β} (h : P (check l key >>= g).run)
    (hk : ∀ b, Every P (g b)) : Every P (check l key >>= g) := ⟨h, hk⟩

theorem every_lift {x : Except Error α} {g : α → Handler β} (he : ∀ e, P (.ret (.error e)))
    (hk : ∀ a, Every P (g a)) : Every P (lift x >>= g) := match x with
  | .error e => he e
  | .ok a => hk a

end Every

/-! ### A handler on its own -/

section Alone

variable {α β : Type} {env : Env} {db : Db} {q : Stmt} {f : SqlError → Error} {g : q.Res → Handler β}

/-- The outcome of a handler when nothing else happens, and the database
after it. -/
def alone (env : Env) (m : Handler α) (db : Db) : Option (Except Error α × Db) := Prog.alone (S := registry) env m.run none db

theorem alone_pure (a : α) : alone env (pure a : Handler α) db = some (.ok a, db) := rfl

theorem alone_check {l : Limiter} {key : String} {g : Bool → Handler β} :
    alone env (check l key >>= g) db = alone env (g (env.admits l key)) db := rfl

theorem run_queryOr_bind : (queryOr q f >>= g).run =
    Prog.stmt (S := registry) q fun r => ExceptT.bindCont (fun a => g a) (r.mapError f) := rfl

theorem alone_error {e : SqlError} (h : q.exec env db = .error e) :
    alone env (queryOr q f >>= g) db = some (.error (f e), db) := by
  unfold alone
  rw [run_queryOr_bind]
  simp only [Prog.alone]
  rw [h]
  rfl

theorem alone_ok {a : q.Res} {ws : List Write} (h : q.exec env db = .ok (a, ws)) :
    alone env (queryOr q f >>= g) db = alone env (g a) (registry.applyAll ws db) := by
  unfold alone
  rw [run_queryOr_bind]
  simp only [Prog.alone]
  rw [h]
  rfl

/-- The same in the middle of a transaction. -/
def aloneTx (env : Env) (x : Tx registry) (m : Handler α) (db : Db) : Option (Except Error α × Db) :=
  Prog.alone (S := registry) env m.run (some x) db

theorem alone_begin {g : Unit → Handler β} : alone env (begin >>= g) db = aloneTx env ⟨env, []⟩ (g ()) db := rfl

theorem aloneTx_commit {x : Tx registry} {g : Unit → Handler β} :
    aloneTx env x (commit >>= g) db = alone env (g ()) (registry.applyAll x.writes db) := rfl

theorem aloneTx_ok {x : Tx registry} {a : q.Res} {ws : List Write}
    (h : q.exec { env with now := x.start.now } (registry.applyAll x.writes db) = .ok (a, ws)) :
    aloneTx env x (queryOr q f >>= g) db = aloneTx env ⟨x.start, x.writes ++ ws⟩ (g a) db := by
  unfold aloneTx
  rw [run_queryOr_bind]
  simp only [Prog.alone]
  rw [h]
  rfl

end Alone

/-! ### A handler on its own, with failures -/

section Served

variable {α β : Type} {db db' : Db} {cs : List (Choice registry)} {out : Except Error β}

/-- The outcome of a handler when nothing else happens and its moves go as
`cs` says, and the database after it. -/
def served (m : Handler α) (db : Db) (cs : List (Choice registry)) : Option (Except Error α × Db) :=
  Prog.served (S := registry) m.run none db cs

theorem served_pure {a : β} (h : served (pure a) db cs = some (out, db')) : out = .ok a ∧ db' = db := by
  cases cs <;> cases h
  exact ⟨rfl, rfl⟩

theorem served_throw {e : Error} (h : served (throw e) db cs = some (out, db')) : out = .error e ∧ db' = db := by
  cases cs <;> cases h
  exact ⟨rfl, rfl⟩

theorem served_crash : served (crash : Handler β) db cs = none := by cases cs <;> rfl

/-- A limiter does not fail. -/
theorem served_check {l : Limiter} {key : String} {g : Bool → Handler β}
    (h : served (check l key >>= g) db cs = some (out, db')) :
    ∃ env cs', cs = .go env :: cs' ∧ served (g (env.admits l key)) db cs' = some (out, db') := by
  cases cs with
  | nil => cases h
  | cons c cs =>
    cases c with
    | go env => exact ⟨env, cs, rfl, h⟩
    | fail | drop => cases h

/-- A statement is carried out, or ends the handler. -/
theorem served_queryOr {q : Stmt} {f : SqlError → Error} {g : q.Res → Handler β}
    (h : served (queryOr q f >>= g) db cs = some (out, db')) :
    (∃ env cs' a ws, cs = .go env :: cs' ∧ q.exec env db = .ok (a, ws) ∧
      served (g a) (registry.applyAll ws db) cs' = some (out, db')) ∨
    (∀ env cs' r, cs = .go env :: cs' → q.exec env db ≠ .ok r) ∧ (∃ e, out = .error (f e)) ∧ db' = db := by
  unfold served at h
  rw [run_queryOr_bind] at h
  cases cs with
  | nil => cases h
  | cons c cs =>
    cases c with
    | go env =>
      simp only [Prog.served] at h
      cases hx : Stmt.exec env q db with
      | error e =>
        rw [hx] at h
        obtain ⟨hout, hdb⟩ := served_throw (β := β) h
        refine .inr ⟨fun env' cs' r hcs => ?_, ⟨e, hout⟩, hdb⟩
        cases hcs
        exact fun hok => by cases hx.symm.trans hok
      | ok r =>
        rw [hx] at h
        exact .inl ⟨env, cs, r.1, r.2, rfl, hx, h⟩
    | fail =>
      obtain ⟨hout, hdb⟩ := served_throw (β := β) h
      exact .inr ⟨fun env' cs' r hcs => (by cases hcs), ⟨_, hout⟩, hdb⟩
    | drop => cases h

end Served

end Handler
end HarnessRegistry

/-
# One replica, one request at a time

The limiters as `main` builds them, and the service when each request is
handled at one instant: its questions go to the limiters, its statements
follow each other with nothing in between, and any of them may fail.

Key definitions: `Rates.limiters`, `Limiters.check`, `Replica.serve`,
`Arrival`, `Replica.handle`.
Key theorems: `serve_limited`, `serve_queryOr`, `serve_read`.
-/
import HarnessRegistry.Machine
import HarnessRegistry.Service
import Mathlib.Logic.Function.Basic

namespace HarnessRegistry

open Txn Handler

/-! ### The limiters -/

/-- `Duration::from_secs`. -/
def fromSecs (secs : ℕ) : Duration := secs * 10 ^ 9

/-- `u32::saturating_mul`. -/
def saturatingMul (a b : UInt32) : UInt32 := UInt32.ofNat (min (a.toNat * b.toNat) (2 ^ 32 - 1))

/-- The part of `Config` that the limiters are built from. -/
structure Rates where
  installRateLimit : UInt32
  installRateWindowSecs : ℕ
  enrollRateLimit : UInt32
  enrollRateWindowSecs : ℕ

/-- The limiters of `AppState`. -/
def Limiters := Limiter → RateLimiter

/-- Derived from the start limit rather than configured. -/
def Rates.pollLimit (rates : Rates) : UInt32 := saturatingMul rates.enrollRateLimit 200

/-- The limiters that `main` builds. -/
def Rates.limiters (rates : Rates) : Limiters
  | .install => .new rates.installRateLimit (fromSecs rates.installRateWindowSecs)
  | .enroll => .new rates.enrollRateLimit (fromSecs rates.enrollRateWindowSecs)
  | .enrollPoll => .new rates.pollLimit (fromSecs rates.enrollRateWindowSecs)

/-- A call of one of them. -/
def Limiters.check (ls : Limiters) (l : Limiter) (now : Instant) (key : String) : Bool × Limiters :=
  (((ls l).check now key).1, Function.update ls l ((ls l).check now key).2)

/-! ### Requests at one instant -/

structure Replica where
  limiters : Limiters
  db : Db

/-- `now()` at instant `t` of a clock that started at `epoch`. -/
def stamp (epoch : Timestamp) (t : Instant) : Timestamp := epoch + (t / 1000 : ℕ)

/-- A program whose moves are all made at `now`, with nothing in between. Of
the statements, `BEGIN`s and `COMMIT`s in turn, those fail that `faults` says;
a program that panics has no result. -/
def Replica.serve {α : Type} (now : Instant) (env : Env) :
    Prog registry α → Option (Tx registry) → List Bool → Replica → Option α × Replica
  | .ret a, _, _, s => (some a, s)
  | .crash, _, _, s => (none, s)
  | .ask q k, tx, faults, s =>
    serve now env (k (s.limiters.check q.1 now q.2).1) tx faults
      { s with limiters := (s.limiters.check q.1 now q.2).2 }
  | .begin k, tx, faults, s =>
    if faults.headD false then serve now env (k (.error .other)) tx faults.tail s
    else serve now env (k (.ok ())) (some ⟨env, []⟩) faults.tail s
  | .commit k, tx, faults, s =>
    if faults.headD false then serve now env (k (.error .other)) none faults.tail s
    else serve now env (k (.ok ())) none faults.tail
      { s with db := registry.applyAll (tx.elim [] Tx.writes) s.db }
  | .stmt q k, none, faults, s =>
    if faults.headD false then serve now env (k (.error .other)) none faults.tail s
    else match q.exec env s.db with
      | .error e => serve now env (k (.error e)) none faults.tail s
      | .ok (a, ws) => serve now env (k (.ok a)) none faults.tail { s with db := registry.applyAll ws s.db }
  | .stmt q k, some x, faults, s =>
    if faults.headD false then serve now env (k (.error .other)) none faults.tail s
    else match q.exec (registry.inTx x.start env) (registry.applyAll x.writes s.db) with
      | .error e => serve now env (k (.error e)) none faults.tail s
      | .ok (a, ws) => serve now env (k (.ok a)) (some ⟨x.start, x.writes ++ ws⟩) faults.tail s

/-- A request, the instant it is handled at, and what the world supplies. -/
structure Arrival where
  now : Instant
  req : Request
  env : Env
  faults : List Bool

/-- What a request is answered, if it does not panic, and the replica after it. -/
def Replica.handle (app : AppState) (epoch : Timestamp) (s : Replica) (e : Arrival) :
    Option (Except Error Reply) × Replica :=
  serve e.now { e.env with now := stamp epoch e.now } (HarnessRegistry.handle app e.req) none e.faults s

/-! ### Rules

What is to hold of the outcome of a handler follows from what is to hold of
the outcomes of the rest of it. -/

section Serve

variable {α : Type} {now : Instant} {env : Env} {faults : List Bool} {s : Replica}
  {Q : Option (Except Error α) × Replica → Prop}

/-- A handler behind a limiter. -/
theorem serve_limited {l : Limiter} {key : String} {f : Handler α}
    (refused : (s.limiters.check l now key).1 = false →
      Q (some (.error .tooManyRequests), { s with limiters := (s.limiters.check l now key).2 }))
    (passed : (s.limiters.check l now key).1 = true →
      Q (Replica.serve now env f.run none faults { s with limiters := (s.limiters.check l now key).2 })) :
    Q (s.serve now env (do
        if !(← check l key) then throw .tooManyRequests
        f : Handler α).run none faults) := by
  show Q (Replica.serve now env ((if !(s.limiters.check l now key).1 then throw .tooManyRequests else do f : Handler α)).run
    none faults { s with limiters := (s.limiters.check l now key).2 })
  cases hc : (s.limiters.check l now key).1 with
  | true => exact passed hc
  | false => exact refused hc

/-- A statement fails, or is carried out and the handler goes on. -/
theorem serve_queryOr {q : Stmt} {f : SqlError → Error} {g : q.Res → Handler α} (failed : ∀ e, Q (some (.error e), s))
    (ran : ∀ a ws faults, q.run env s.db = .ok (a, ws) →
      Q (Replica.serve now env (g a).run none faults { s with db := registry.applyAll ws s.db })) :
    Q (s.serve now env (queryOr q f >>= g).run none faults) := by
  rw [run_queryOr_bind, Replica.serve]
  by_cases hf : faults.headD false = true
  · rw [if_pos hf]
    exact failed _
  · rw [if_neg hf]
    cases hx : q.exec env s.db with
    | error e => exact failed (f e)
    | ok r => exact ran r.1 r.2 faults.tail (run_of_exec hx)

/-- The same for a statement that reads. -/
theorem serve_read {q : Stmt} {f : SqlError → Error} {g : q.Res → Handler α} (hq : q.reads = true)
    (failed : ∀ e, Q (some (.error e), s))
    (ran : ∀ a faults, q.run env s.db = .ok (a, []) → Q (Replica.serve now env (g a).run none faults s)) :
    Q (s.serve now env (queryOr q f >>= g).run none faults) := by
  refine serve_queryOr failed fun a ws faults ha => ?_
  obtain rfl := run_reads hq ha
  exact ran a faults ha

end Serve

end HarnessRegistry

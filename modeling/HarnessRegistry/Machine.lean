/-
# Machines that answer

A machine takes inputs one at a time, and answers each: a step from a state
and an input to an answer and the next state. A run is read as its `turns`:
each input with the state that met it and the answer it got.

`skipping_simulation` compares two machines on one run: the first may skip
inputs of its own choosing, and on the others both answer alike. The relation
that carries it may look at the inputs still to come, so that an invariant can
speak of the future of a clock.

A family of machines takes inputs that say which of them they are for. The
turns of one of the family are those of a run of its own (`turns_routed`).

Key definitions: `Machine.Turn`, `Machine.run`, `Machine.turns`, `Machine.routed`.
Key theorems: `Machine.run_append`, `Machine.turns_snoc`, `Machine.run_induct`, `Machine.skipping_simulation`,
`Machine.turns_routed`.
-/
import Mathlib.Data.List.Induction
import Mathlib.Logic.Function.Basic

namespace Machine

variable {σ τ ι ω : Type}

/-- An input, the state that met it, and the answer. -/
structure Turn (σ ι ω : Type) where
  state : σ
  input : ι
  answer : ω

/-- The state after a run. -/
def run (step : σ → ι → ω × σ) (s : σ) (is : List ι) : σ := is.foldl (fun s i => (step s i).2) s

/-- The turns of a run. -/
def turns (step : σ → ι → ω × σ) : σ → List ι → List (Turn σ ι ω)
  | _, [] => []
  | s, i :: is => ⟨s, i, (step s i).1⟩ :: turns step (step s i).2 is

variable {step : σ → ι → ω × σ} {step' : τ → ι → ω × τ}

@[simp] theorem run_nil (s : σ) : run step s [] = s := rfl

@[simp] theorem run_cons (s : σ) (i : ι) (is : List ι) : run step s (i :: is) = run step (step s i).2 is := rfl

@[simp] theorem turns_nil (s : σ) : turns step s [] = [] := rfl

@[simp] theorem turns_cons (s : σ) (i : ι) (is : List ι) :
    turns step s (i :: is) = ⟨s, i, (step s i).1⟩ :: turns step (step s i).2 is := rfl

theorem run_append (s : σ) (is js : List ι) : run step s (is ++ js) = run step (run step s is) js :=
  List.foldl_append ..

theorem turns_append (step : σ → ι → ω × σ) (js : List ι) : ∀ (is : List ι) (s : σ),
    turns step s (is ++ js) = turns step s is ++ turns step (run step s is) js
  | [], _ => rfl
  | i :: is, s => by
    rw [List.cons_append, turns_cons, turns_append step js is, turns_cons, run_cons]
    rfl

/-- The turns of a run with one more input. -/
theorem turns_snoc (step : σ → ι → ω × σ) (i : ι) (is : List ι) (s : σ) :
    turns step s (is ++ [i]) = turns step s is ++ [⟨run step s is, i, (step (run step s is) i).1⟩] :=
  turns_append step [i] is s

theorem turns_map_input (step : σ → ι → ω × σ) : ∀ (is : List ι) (s : σ), (turns step s is).map Turn.input = is
  | [], _ => rfl
  | i :: is, s => by rw [turns_cons, List.map_cons, turns_map_input step is]

theorem turns_input {s : σ} {is : List ι} {e : Turn σ ι ω} (h : e ∈ turns step s is) : e.input ∈ is := by
  have hin := List.mem_map_of_mem (f := Turn.input) h
  rwa [turns_map_input] at hin

/-- What holds at first and is kept by every step holds after every run. -/
theorem run_induct {P : σ → Prop} {s : σ} (h0 : P s) (hs : ∀ s i, P s → P (step s i).2) (is : List ι) :
    P (run step s is) := by
  induction is generalizing s with
  | nil => exact h0
  | cons i is ih => exact ih (hs s i h0)

/-- **A machine that skips.** If skipping an input keeps the relation, and on
any other the two machines answer alike and keep it, then the answers to the
inputs that are not skipped are those of the second machine on just these. -/
theorem skipping_simulation (skip : σ → ι → Bool) (R : List ι → σ → τ → Prop)
    (skipped : ∀ i is s t, R (i :: is) s t → skip s i = true → R is (step s i).2 t)
    (kept : ∀ i is s t, R (i :: is) s t → skip s i = false →
      (step s i).1 = (step' t i).1 ∧ R is (step s i).2 (step' t i).2) :
    ∀ (is : List ι) (s : σ) (t : τ), R is s t →
      let served := (turns step s is).filter fun e => !skip e.state e.input
      served.map Turn.answer = (turns step' t (served.map Turn.input)).map Turn.answer ∧
        R [] (run step s is) (run step' t (served.map Turn.input))
  | [], _, _, h => ⟨rfl, h⟩
  | i :: is, s, t, h => by
    cases hs : skip s i with
    | true => simpa [hs] using skipping_simulation skip R skipped kept is _ _ (skipped i is s t h hs)
    | false =>
      obtain ⟨ha, hr⟩ := kept i is s t h hs
      simpa [hs, ha] using skipping_simulation skip R skipped kept is _ _ hr

/-! ### Families -/

variable {κ δ : Type} [DecidableEq κ]

/-- A family of machines: an input goes to one of them. -/
def routed (step : σ → ι → ω × σ) (route : δ → κ × ι) (ss : κ → σ) (d : δ) : ω × (κ → σ) :=
  ((step (ss (route d).1) (route d).2).1, Function.update ss (route d).1 (step (ss (route d).1) (route d).2).2)

/-- The turns of one of a family. -/
theorem turns_routed (step : σ → ι → ω × σ) (route : δ → κ × ι) (k : κ) : ∀ (ds : List δ) (ss : κ → σ),
    ((turns (routed step route) ss ds).filter fun e => (route e.input).1 = k).map
        (fun e => ⟨e.state k, (route e.input).2, e.answer⟩) =
      turns step (ss k) ((ds.filter fun d => (route d).1 = k).map fun d => (route d).2)
  | [], _ => rfl
  | d :: ds, ss => by
    have hrest := turns_routed step route k ds (routed step route ss d).2
    rw [turns_cons]
    by_cases hk : (route d).1 = k
    · have hnext : (routed step route ss d).2 k = (step (ss k) (route d).2).2 := by
        subst hk
        exact Function.update_self ..
      rw [hnext] at hrest
      rw [List.filter_cons_of_pos (by simpa using hk), List.filter_cons_of_pos (by simpa using hk), List.map_cons,
        List.map_cons, turns_cons, hrest]
      subst hk
      rfl
    · have hnext : (routed step route ss d).2 k = ss k := Function.update_of_ne (Ne.symm hk) ..
      rw [hnext] at hrest
      rw [List.filter_cons_of_neg (by simpa using hk), List.filter_cons_of_neg (by simpa using hk), hrest]

end Machine

/-
# Who is shed

The capacity test comes before the look at the caller's own window, so while
the table is full of live windows every call is shed, also one that would add
no entry. A client within its limit is let through exactly when fewer than
`maxTracked` windows are live; a crowd of that many keys throttles everybody.

Key definitions: `RateLimiter.tracked`, `crowd`.
Key theorems: `sheds_iff`, `counted_client_iff`, `crowd_crowded`, `counted_client_shed`.
-/
import HarnessRegistry.Limiter
import Mathlib

namespace HarnessRegistry

open Machine

/-- How many windows of the table are live. -/
def RateLimiter.tracked (l : RateLimiter) (now : Instant) : ℕ := (l.retain now).seen.size

variable {l : RateLimiter} {v : Visit} {w : Window}

theorem tracked_le_size (l : RateLimiter) (now : Instant) : l.tracked now ≤ l.seen.size :=
  Std.HashMap.size_filter_le_size

/-- One entry a key. -/
theorem card_keys (l : RateLimiter) : l.seen.keys.toFinset.card = l.seen.size := by
  rw [List.toFinset_card_of_nodup Std.HashMap.nodup_keys, Std.HashMap.length_keys]

/-- A call is shed when `maxTracked` windows are live. -/
theorem sheds_iff {now : Instant} : l.sheds now = true ↔ maxTracked ≤ l.tracked now := by
  unfold RateLimiter.sheds RateLimiter.purge
  rw [decide_eq_true_eq]
  split
  · exact Iff.rfl
  · have := tracked_le_size l now
    omega

/-- The counter of a window within its limit does not wrap around. -/
theorem succ_le_of_lt {hits limit : UInt32} (h : hits < limit) : hits + 1 ≤ limit := by
  have hlt := UInt32.lt_iff_toNat_lt.mp h
  have hmax := limit.toNat_lt
  rw [UInt32.le_iff_toNat_le, UInt32.toNat_add]
  show (hits.toNat + 1) % 2 ^ 32 ≤ limit.toNat
  omega

/-- **Who is let through.** In every state of a limiter, a client with a live
window and hits to spare is let through if and only if fewer than `maxTracked`
windows are live. -/
theorem counted_client_iff (limit : UInt32) (window : Duration) (vs : List Visit) (v : Visit) (w : Window)
    (hw : (run RateLimiter.visit (.new limit window) vs).current v = some w) (hhits : w.hits < limit) :
    ((run RateLimiter.visit (.new limit window) vs).visit v).1 = true ↔
      (run RateLimiter.visit (.new limit window) vs).tracked v.now < maxTracked := by
  have hlimit := RateLimiter.run_limit limit window vs
  generalize run RateLimiter.visit (.new limit window) vs = l at hw hlimit
  cases hs : l.sheds v.now with
  | true =>
    have hfull := sheds_iff.mp hs
    rw [RateLimiter.visit_shed hs]
    simp only [Bool.false_eq_true, false_iff]
    omega
  | false =>
    have hroom : ¬ maxTracked ≤ l.tracked v.now := by
      rw [← sheds_iff, hs]
      simp
    rw [RateLimiter.visit_current hs hw, hlimit]
    simp only [decide_eq_true_eq, succ_le_of_lt hhits, true_iff]
    omega

/-! ### A crowd -/

/-- `n` clients that call once each. -/
def crowd (n : ℕ) : List Visit := (List.range n).map fun i => ⟨0, Nat.repr i⟩

theorem crowd_now {n : ℕ} {v : Visit} (h : v ∈ crowd n) : v.now = 0 := by
  obtain ⟨i, -, rfl⟩ := List.mem_map.mp h
  rfl

/-- The table after a crowd: a window for each. -/
structure Crowded (l : RateLimiter) (n : ℕ) : Prop where
  size : l.seen.size = n
  one : ∀ i < n, l.seen[Nat.repr i]? = some ⟨0, 1⟩
  only : ∀ (key : String) (w : Window), l.seen[key]? = some w → w = ⟨0, 1⟩ ∧ ∃ i < n, key = Nat.repr i

theorem Crowded.visit {n : ℕ} (h : Crowded l n) (hn : n < maxTracked) : Crowded (l.visit ⟨0, Nat.repr n⟩).2 (n + 1) := by
  have hnew : l.seen[Nat.repr n]? = none := by
    rw [Option.eq_none_iff_forall_ne_some]
    intro w hw
    obtain ⟨-, i, hi, he⟩ := h.only _ w hw
    have := Nat.repr_injective he
    omega
  have hsize := h.size
  have hpurge : l.purge 0 = l := if_neg (by omega)
  have hs : l.sheds 0 = false := by
    rw [Bool.eq_false_iff, ne_eq, sheds_iff]
    have := tracked_le_size l 0
    omega
  have hc : l.current ⟨0, Nat.repr n⟩ = none := by
    unfold RateLimiter.current
    rw [hnew]
    rfl
  rw [RateLimiter.visit_opens (v := ⟨0, Nat.repr n⟩) hs hc, hpurge]
  refine ⟨?_, fun i hi => ?_, fun key w hw => ?_⟩
  · have hmem : Nat.repr n ∉ l.seen := by
      rw [Std.HashMap.mem_iff_isSome_getElem?, hnew]
      simp
    show (l.seen.insert (Nat.repr n) ⟨0, 1⟩).size = n + 1
    rw [Std.HashMap.size_insert, if_neg hmem, hsize]
  · rw [l.getElem?_put]
    by_cases hin : i = n
    · rw [if_pos (by rw [hin])]
    · rw [if_neg fun he => hin (Nat.repr_injective he).symm]
      exact h.one i (by omega)
  · rw [l.getElem?_put] at hw
    by_cases hk : Nat.repr n = key
    · rw [if_pos hk] at hw
      exact ⟨(Option.some.inj hw).symm, n, by omega, hk.symm⟩
    · rw [if_neg hk] at hw
      obtain ⟨he, i, hi, hki⟩ := h.only key w hw
      exact ⟨he, i, by omega, hki⟩

theorem crowd_crowded (limit : UInt32) (window : Duration) :
    ∀ n ≤ maxTracked, Crowded (run RateLimiter.visit (.new limit window) (crowd n)) n
  | 0, _ => ⟨by simp [crowd, RateLimiter.new], fun i hi => by omega, fun key w hw => by simp [crowd, RateLimiter.new] at hw⟩
  | n + 1, hn => by
    have ih := crowd_crowded limit window n (by omega)
    have hsnoc : crowd (n + 1) = crowd n ++ [⟨0, Nat.repr n⟩] := by
      simp [crowd, List.range_succ]
    rw [hsnoc, run_append]
    exact ih.visit (by omega)

/-- All the windows of a crowd are live. -/
theorem Crowded.tracked {n : ℕ} (h : Crowded l n) (hwin : 0 < l.window) : l.tracked 0 = n := by
  rw [← h.size]
  refine Std.HashMap.size_filter_eq_size_iff.mpr fun key hk => ?_
  obtain ⟨he, -⟩ := h.only key _ (Std.HashMap.getElem?_eq_some_getElem hk)
  rw [he]
  exact decide_eq_true (by simpa using hwin)

theorem Crowded.current {n i : ℕ} (h : Crowded l n) (hwin : 0 < l.window) (hi : i < n) :
    l.current ⟨0, Nat.repr i⟩ = some ⟨0, 1⟩ := by
  unfold RateLimiter.current
  rw [h.one i hi]
  exact Option.filter_eq_some_iff.mpr ⟨rfl, decide_eq_true (by simpa using hwin)⟩

/-- **A crowd throttles everybody**: a client of a crowd of `maxTracked`, with
one hit of two made, is shed. -/
theorem counted_client_shed :
    let l := run RateLimiter.visit (.new 2 minute) (crowd maxTracked)
    l.current ⟨0, "0"⟩ = some ⟨0, 1⟩ ∧ (1 : UInt32) < 2 ∧ (l.visit ⟨0, "0"⟩).1 = false := by
  intro l
  have hc : Crowded l maxTracked := crowd_crowded 2 minute maxTracked (Nat.le_refl _)
  have hwin : 0 < l.window := by
    rw [show l.window = minute from RateLimiter.run_window 2 minute _]
    decide
  have hs : l.sheds 0 = true := sheds_iff.mpr (Nat.le_of_eq (hc.tracked hwin).symm)
  refine ⟨hc.current (i := 0) hwin (by decide), by decide, ?_⟩
  rw [RateLimiter.visit_shed (v := ⟨0, "0"⟩) hs]

/-- With one place left, a client of the crowd is let through again. -/
theorem counted_client_iff_room :
    let l := run RateLimiter.visit (.new 2 minute) (crowd (maxTracked - 1))
    l.tracked 0 + 1 = maxTracked ∧ (l.visit ⟨0, "0"⟩).1 = true := by
  intro l
  have hc : Crowded l (maxTracked - 1) := crowd_crowded 2 minute (maxTracked - 1) (by decide)
  have hwin : 0 < l.window := by
    rw [show l.window = minute from RateLimiter.run_window 2 minute _]
    decide
  have htracked : l.tracked 0 = maxTracked - 1 := hc.tracked hwin
  refine ⟨by rw [htracked]; decide, ?_⟩
  refine (counted_client_iff 2 minute (crowd (maxTracked - 1)) ⟨0, "0"⟩ ⟨0, 1⟩
    (hc.current (i := 0) hwin (by decide)) (by decide)).mpr ?_
  show l.tracked 0 < maxTracked
  rw [htracked]
  decide

end HarnessRegistry

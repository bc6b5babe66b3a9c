/-
# How many calls a window lets through

The first call of a window is let through whatever the limit, and the counter
wraps around at 2³². So a window keeps to its limit exactly when the limit is
not zero and fewer than 2³² calls are counted in it: `passes` is the number of
calls let through, as a function of the number counted.

Key definitions: `passes`, `RateLimiter.opens`, `admitted`, `counted`.
Key theorems: `passes_le_iff`, `passes_admitted`, `window_bound_iff`.
-/
import HarnessRegistry.Limiter

namespace HarnessRegistry

open Machine

/-! ### The counter -/

/-- Of the first `n` calls counted in a window, how many are let through. -/
def passes (limit : UInt32) : ℕ → ℕ
  | 0 => 0
  | n + 1 => passes limit n + if n = 0 ∨ (n + 1) % 2 ^ 32 ≤ limit.toNat then 1 else 0

theorem passes_succ_of_pos (limit : UInt32) {n : ℕ} (hn : 1 ≤ n) :
    passes limit (n + 1) = passes limit n + if (n + 1) % 2 ^ 32 ≤ limit.toNat then 1 else 0 := by
  have h0 : n ≠ 0 := by omega
  simp [passes, h0]

theorem passes_mono (limit : UInt32) {m n : ℕ} (h : m ≤ n) : passes limit m ≤ passes limit n := by
  induction h with
  | refl => exact Nat.le_refl _
  | step _ ih => exact ih.trans (Nat.le_add_right _ _)

/-- Before the counter wraps around. -/
theorem passes_eq_min {limit : UInt32} (hl : 1 ≤ limit.toNat) {n : ℕ} (hn : n < 2 ^ 32) :
    passes limit n = min n limit.toNat := by
  induction n with
  | zero => simp [passes]
  | succ n ih =>
    have hmod : (n + 1) % 2 ^ 32 = n + 1 := Nat.mod_eq_of_lt hn
    rw [passes, ih (by omega), hmod]
    split <;> omega

/-- And when it does, one more is let through. -/
theorem lt_passes_wrap {limit : UInt32} (hl : 1 ≤ limit.toNat) : limit.toNat < passes limit (2 ^ 32) := by
  have hlt : limit.toNat < 2 ^ 32 := limit.toNat_lt
  have hlast : passes limit (2 ^ 32 - 1) = limit.toNat := by
    rw [passes_eq_min hl (by omega)]
    omega
  have hwrap : passes limit (2 ^ 32 - 1 + 1) = passes limit (2 ^ 32 - 1) + 1 := by
    rw [passes_succ_of_pos limit (by omega)]
    rfl
  calc limit.toNat < passes limit (2 ^ 32 - 1) + 1 := by omega
    _ = passes limit (2 ^ 32) := hwrap.symm

theorem passes_le_iff (limit : UInt32) {n : ℕ} (hn : 1 ≤ n) :
    passes limit n ≤ limit.toNat ↔ 1 ≤ limit.toNat ∧ n < 2 ^ 32 := by
  have hfirst : 1 ≤ passes limit n := passes_mono limit hn
  constructor
  · intro h
    have hl : 1 ≤ limit.toNat := hfirst.trans h
    refine ⟨hl, ?_⟩
    by_contra hw
    have := lt_passes_wrap hl
    have := passes_mono limit (m := 2 ^ 32) (n := n) (by omega)
    omega
  · rintro ⟨hl, hw⟩
    rw [passes_eq_min hl hw]
    exact Nat.min_le_right _ _

/-! ### A window of a run -/

/-- The call opens a window: it is not shed, and its key has no live one. -/
def RateLimiter.opens (l : RateLimiter) (v : Visit) : Bool := !l.sheds v.now && (l.current v).isNone

/-- The turns of the limiter. -/
abbrev Turns := List (Turn RateLimiter Visit Bool)

/-- How many calls of the key are let through. -/
def admitted (key : String) (turns : Turns) : ℕ := turns.countP fun e => e.input.key == key && e.answer

/-- How many are not shed. -/
def counted (key : String) (turns : Turns) : ℕ :=
  turns.countP fun e => e.input.key == key && !e.state.sheds e.input.now

theorem admitted_cons (key : String) (e : Turn RateLimiter Visit Bool) (es : Turns) :
    admitted key (e :: es) = (if e.input.key = key ∧ e.answer = true then 1 else 0) + admitted key es := by
  simp [admitted, List.countP_cons, Nat.add_comm]

theorem counted_cons (key : String) (e : Turn RateLimiter Visit Bool) (es : Turns) :
    counted key (e :: es) =
      (if e.input.key = key ∧ e.state.sheds e.input.now = false then 1 else 0) + counted key es := by
  simp [counted, List.countP_cons, Nat.add_comm]

/-- The key's entry, if it has one, has counted `n` hits. -/
def Counts (l : RateLimiter) (key : String) (n : ℕ) : Prop := ∀ w, l.seen[key]? = some w → w.hits = UInt32.ofNat n

variable {l : RateLimiter} {v : Visit} {key : String} {n : ℕ}

theorem Counts.purge (h : Counts l key n) (now : Instant) : Counts (l.purge now) key n := by
  intro w hw
  exact h w (RateLimiter.getElem?_of_purge hw)

theorem counts_put (l : RateLimiter) (key : String) (started : Instant) (n : ℕ) :
    Counts (l.put key ⟨started, UInt32.ofNat n⟩) key n := by
  intro w hw
  rw [l.getElem?_put, if_pos rfl] at hw
  rw [← Option.some.inj hw]

/-- One call: whether it is counted, and whether it is let through. -/
theorem Counts.visit (hc : Counts l key n) (hn : 1 ≤ n) (hno : v.key = key → l.opens v = false) :
    (passes l.limit n + if v.key = key ∧ (l.visit v).1 = true then 1 else 0) =
        passes l.limit (n + if v.key = key ∧ l.sheds v.now = false then 1 else 0) ∧
      Counts (l.visit v).2 key (n + if v.key = key ∧ l.sheds v.now = false then 1 else 0) := by
  by_cases hk : v.key = key
  · subst hk
    obtain ⟨hs, he⟩ | ⟨w, hs, hw, he⟩ | ⟨hs, hnone, -⟩ := l.visit_cases v
    · rw [he, hs]
      simpa using hc.purge v.now
    · have hhits : w.hits = UInt32.ofNat n := hc w (Option.filter_eq_some_iff.mp hw).1
      have hsucc : w.hits + 1 = UInt32.ofNat (n + 1) := by
        rw [hhits]
        simp
      have hpass : (w.hits + 1 ≤ l.limit) ↔ (n + 1) % 2 ^ 32 ≤ l.limit.toNat := by
        rw [UInt32.le_iff_toNat_le, hsucc, UInt32.toNat_ofNat']
      rw [he, hs]
      constructor
      · simp [passes_succ_of_pos l.limit hn, hpass]
      · simp only [hsucc, and_self, if_true]
        exact counts_put _ _ _ _
    · simpa [RateLimiter.opens, hs, hnone] using hno rfl
  · simp only [hk, false_and, if_false, Nat.add_zero, true_and]
    intro w hw
    rw [RateLimiter.getElem?_visit hk] at hw
    exact hc.purge v.now w hw

/-- **What a window lets through.** As long as no window is opened for the
key, the calls let through are those that the counter passes. -/
theorem passes_admitted : ∀ (vs : List Visit) {l : RateLimiter} {n : ℕ}, 1 ≤ n → Counts l key n →
    (∀ e ∈ turns RateLimiter.visit l vs, e.input.key = key → e.state.opens e.input = false) →
    passes l.limit n + admitted key (turns RateLimiter.visit l vs) =
      passes l.limit (n + counted key (turns RateLimiter.visit l vs))
  | [], _, _, _, _, _ => rfl
  | v :: vs, l, n, hn, hc, hno => by
    have hfirst : v.key = key → l.opens v = false := hno _ List.mem_cons_self
    obtain ⟨hone, hc'⟩ := hc.visit hn hfirst
    have hrest := passes_admitted vs (by omega) hc' fun e he => hno e (List.mem_cons_of_mem _ he)
    rw [RateLimiter.visit_limit] at hrest
    rw [turns_cons, admitted_cons, counted_cons, ← Nat.add_assoc, ← Nat.add_assoc]
    dsimp only
    rw [hone, hrest]

/-- The call that opens the window is the first of those counted. -/
theorem admitted_of_opens {l : RateLimiter} {v : Visit} {mid : List Visit} (hopens : l.opens v = true)
    (hmid : ∀ e ∈ turns RateLimiter.visit (l.visit v).2 mid, e.input.key = v.key → e.state.opens e.input = false) :
    1 ≤ counted v.key (turns RateLimiter.visit l (v :: mid)) ∧
      admitted v.key (turns RateLimiter.visit l (v :: mid)) =
        passes l.limit (counted v.key (turns RateLimiter.visit l (v :: mid))) := by
  obtain ⟨hs, hc⟩ : l.sheds v.now = false ∧ l.current v = none := by simpa [RateLimiter.opens] using hopens
  have hvisit := RateLimiter.visit_opens hs hc
  have hentry : Counts (l.visit v).2 v.key 1 := by
    rw [hvisit]
    exact counts_put _ v.key v.now 1
  have hrest := passes_admitted mid (Nat.le_refl 1) hentry hmid
  have hone : passes (l.visit v).2.limit 1 = 1 := rfl
  have hcounted : counted v.key (turns RateLimiter.visit l (v :: mid)) =
      1 + counted v.key (turns RateLimiter.visit (l.visit v).2 mid) := by
    rw [turns_cons, counted_cons, if_pos ⟨rfl, hs⟩]
  have hadmitted : admitted v.key (turns RateLimiter.visit l (v :: mid)) =
      1 + admitted v.key (turns RateLimiter.visit (l.visit v).2 mid) := by
    rw [turns_cons, admitted_cons, if_pos ⟨rfl, by rw [hvisit]⟩]
  rw [hone, RateLimiter.visit_limit] at hrest
  exact ⟨by omega, by rw [hadmitted, hrest, hcounted]⟩

/-- **The limit of a window.** From the call `v` that opens a window of its
key, and as long as the key opens no other, at most `limit` of its calls are
let through if and only if the limit is not zero and fewer than 2³² of the
calls are not shed. -/
theorem window_bound_iff (limit : UInt32) (window : Duration) (before mid : List Visit) (v : Visit)
    (hopens : (run RateLimiter.visit (.new limit window) before).opens v = true)
    (hmid : ∀ e ∈ turns RateLimiter.visit (run RateLimiter.visit (.new limit window) (before ++ [v])) mid,
      e.input.key = v.key → e.state.opens e.input = false) :
    let calls := turns RateLimiter.visit (run RateLimiter.visit (.new limit window) before) (v :: mid)
    admitted v.key calls ≤ limit.toNat ↔ 1 ≤ limit.toNat ∧ counted v.key calls < 2 ^ 32 := by
  intro calls
  have hlimit := RateLimiter.run_limit limit window before
  rw [run_append, run_cons, run_nil] at hmid
  obtain ⟨hone, hadmitted⟩ := admitted_of_opens hopens hmid
  rw [hlimit] at hadmitted
  show admitted v.key calls ≤ limit.toNat ↔ _
  rw [hadmitted]
  exact passes_le_iff limit hone

/-- A limit of zero lets one call through. -/
theorem window_exceeded :
    let l := RateLimiter.new 0 minute
    l.opens ⟨0, "1.2.3.4"⟩ = true ∧
      ¬ admitted "1.2.3.4" (turns RateLimiter.visit l [⟨0, "1.2.3.4"⟩]) ≤ (0 : UInt32).toNat := by
  intro l
  refine ⟨by simp [l, RateLimiter.opens], ?_⟩
  simp [l, turns_cons, RateLimiter.visit_new, admitted]

/-- A limit of one lets one of two calls through. -/
theorem window_bound_iff_one :
    admitted "1.2.3.4" (turns RateLimiter.visit (.new 1 minute) [⟨0, "1.2.3.4"⟩, ⟨0, "1.2.3.4"⟩]) ≤ (1 : UInt32).toNat := by
  have hopens : (RateLimiter.new 1 minute).opens ⟨0, "1.2.3.4"⟩ = true := by simp [RateLimiter.opens]
  have hlive : ((RateLimiter.new 1 minute).visit ⟨0, "1.2.3.4"⟩).2.current ⟨0, "1.2.3.4"⟩ = some ⟨0, 1⟩ := by
    rw [RateLimiter.visit_new]
    exact RateLimiter.current_put (v := ⟨0, "1.2.3.4"⟩) (by decide)
  refine (window_bound_iff 1 minute [] [⟨0, "1.2.3.4"⟩] ⟨0, "1.2.3.4"⟩ hopens fun e he _ => ?_).mpr ⟨by decide, ?_⟩
  · obtain rfl := List.mem_singleton.mp he
    rw [List.nil_append, run_cons, run_nil, RateLimiter.opens, hlive]
    simp
  · exact Nat.lt_of_le_of_lt List.countP_le_length (by decide)

end HarnessRegistry

/-
# How many calls pass in a stretch of time

In `stretch` up to an instant `T`, at most `⌈stretch / window⌉ + 1` windows of a
key are live, as each opens after the one before has expired; and each lets
`limit` calls through. The windows are those of the key's own calls, wherever
these fall.

The proof goes along the run. `Spent` bounds the calls let through so far by
what the windows up to now allow, and says how early the last of these can
have been opened.

Key definitions: `admittedSince`, `Tracked`, `Spent`.
Key theorems: `spent_run`, `admittedSince_le`.
-/
import HarnessRegistry.Reference
import Mathlib.Algebra.Order.Floor.Div
import Mathlib.Tactic.Ring
import Mathlib.Tactic.Linarith

namespace HarnessRegistry

open Machine

/-- How many calls of the key are let through less than `stretch` before `T`. -/
def admittedSince (key : String) (stretch T : ℕ) (turns : List (Turn RateLimiter Visit Bool)) : ℕ :=
  turns.countP fun e => e.input.key == key && e.answer && decide (T < e.input.now + stretch)

/-- The calls of the key in the window that starts at `started`. -/
def callsFrom (key : String) (window started : ℕ) (vs : List Visit) : ℕ :=
  vs.countP fun v => v.key == key && decide (started ≤ v.now ∧ v.now < started + window)

/-- No earlier than any of the calls. -/
def After (vs : List Visit) (t : ℕ) : Prop := ∀ v ∈ vs, v.now ≤ t

/-- The key's entry was made at one of the calls, and has counted no more than there were. -/
structure Tracked (l : RateLimiter) (key : String) (vs : List Visit) : Prop where
  started : ∀ w, l.seen[key]? = some w → ∀ t : ℕ, After vs t → w.started ≤ t
  hits : ∀ w, l.seen[key]? = some w → w.hits.toNat ≤ callsFrom key l.window w.started vs

/-- Of `n` calls let through in the stretch: `k` windows are over, and the
present one, if there is any, has let the others through. -/
structure Spent (l : RateLimiter) (key : String) (stretch T : ℕ) (vs : List Visit) (n : ℕ) : Prop where
  shut : ∀ t : ℕ, After vs t → T < t + stretch → l.current ⟨t, key⟩ = none →
    ∃ k, n ≤ k * l.limit.toNat ∧ T + 1 + k * l.window ≤ t + l.window + stretch
  counting : ∀ t : ℕ, After vs t → T < t + stretch → ∀ w, l.current ⟨t, key⟩ = some w →
    ∃ k, n ≤ k * l.limit.toNat + min w.hits.toNat l.limit.toNat ∧
      T + 1 + k * l.window ≤ w.started + l.window + stretch

variable {l : RateLimiter} {key : String} {stretch T : ℕ} {vs : List Visit} {v : Visit} {n : ℕ}

theorem After.snoc {t : ℕ} (h : After (vs ++ [v]) t) : After vs t ∧ v.now ≤ t :=
  ⟨fun u hu => h u (List.mem_append_left _ hu), h v (List.mem_append_right _ (List.mem_singleton_self v))⟩

theorem live_lt {t : ℕ} {w : Window} (h : l.current ⟨t, key⟩ = some w) : t < w.started + l.window ∨ t < w.started := by
  have hl := (Option.filter_eq_some_iff.mp h).2
  have hl : t - w.started < l.window := of_decide_eq_true hl
  omega

/-- As long as nothing has been let through, nothing has been spent. -/
theorem spent_zero (ht : Tracked l key vs) : Spent l key stretch T vs 0 := by
  refine ⟨fun t _ hs _ => ⟨0, by omega, by omega⟩, fun t ha hs w hw => ⟨0, by omega, ?_⟩⟩
  have hstart := ht.started w (Option.filter_eq_some_iff.mp hw).1 t ha
  have := live_lt hw
  omega

/-- The entry that a call leaves for a key. -/
theorem entry_visit {w : Window} (h : (l.visit v).2.seen[key]? = some w) : l.seen[key]? = some w ∨
    v.key = key ∧ l.sheds v.now = false ∧ ((∃ u, l.current v = some u ∧ w = ⟨u.started, u.hits + 1⟩) ∨
      l.current v = none ∧ w = ⟨v.now, 1⟩) := by
  by_cases hk : v.key = key
  · obtain ⟨-, he⟩ | ⟨u, hs, hc, he⟩ | ⟨hs, hc, he⟩ := l.visit_cases v
    · rw [he] at h
      exact .inl (RateLimiter.getElem?_of_purge h)
    · rw [he, RateLimiter.getElem?_put, if_pos hk] at h
      exact .inr ⟨hk, hs, .inl ⟨u, hc, (Option.some.inj h).symm⟩⟩
    · rw [he, RateLimiter.getElem?_put, if_pos hk] at h
      exact .inr ⟨hk, hs, .inr ⟨hc, (Option.some.inj h).symm⟩⟩
  · rw [RateLimiter.getElem?_visit hk] at h
    exact .inl (RateLimiter.getElem?_of_purge h)

theorem callsFrom_snoc (window started : ℕ) : callsFrom key window started (vs ++ [v]) =
    callsFrom key window started vs + if v.key = key ∧ started ≤ v.now ∧ v.now < started + window then 1 else 0 := by
  simp [callsFrom, List.countP_append, List.countP_cons]

theorem Tracked.visit (ht : Tracked l key vs) (hv : After vs v.now) (hwin : 0 < l.window) :
    Tracked (l.visit v).2 key (vs ++ [v]) := by
  constructor
  · intro w hw t hafter
    obtain ⟨hvs, hvt⟩ := hafter.snoc
    rcases entry_visit hw with hold | ⟨rfl, -, ⟨u, hu, rfl⟩ | ⟨-, rfl⟩⟩
    · exact ht.started w hold t hvs
    · exact ht.started u (Option.filter_eq_some_iff.mp hu).1 t hvs
    · exact hvt
  · intro w hw
    rw [RateLimiter.visit_window, callsFrom_snoc]
    rcases entry_visit hw with hold | ⟨rfl, -, ⟨u, hu, rfl⟩ | ⟨-, rfl⟩⟩
    · have := ht.hits w hold
      omega
    · have hseen := (Option.filter_eq_some_iff.mp hu).1
      have hstart := ht.started u hseen v.now hv
      have hlive := live_lt (show l.current ⟨v.now, v.key⟩ = some u from hu)
      have hin : v.now < u.started + l.window := hlive.resolve_right (Nat.not_lt.mpr hstart)
      have hcount := ht.hits u hseen
      have hsucc : (u.hits + 1).toNat ≤ u.hits.toNat + 1 := by
        rw [UInt32.toNat_add]
        exact Nat.mod_le _ _
      dsimp only
      rw [if_pos ⟨rfl, hstart, hin⟩]
      omega
    · rw [if_pos ⟨rfl, Nat.le_refl _, Nat.lt_add_of_pos_right hwin⟩]
      exact Nat.le_add_left _ _

/-- The present window of the key, after `k` that are over. -/
theorem spent_put {s : ℕ} {h : UInt32} {k : ℕ} (hn : n ≤ k * l.limit.toNat + min h.toNat l.limit.toNat)
    (hk : T + 1 + k * l.window ≤ s + l.window + stretch) (hs : ∀ t : ℕ, After vs t → s ≤ t) :
    Spent (l.put key ⟨s, h⟩) key stretch T vs n := by
  constructor
  · intro t ha hT hc
    have hover : ¬ t - s < l.window := fun hl => by
      rw [RateLimiter.current_put_self, if_pos hl] at hc
      cases hc
    have hst := hs t ha
    refine ⟨k + 1, ?_, ?_⟩
    · rw [RateLimiter.put_limit, Nat.succ_mul]
      omega
    · rw [RateLimiter.put_window, Nat.succ_mul]
      omega
  · intro t ha hT w hc
    by_cases hl : t - s < l.window
    · rw [RateLimiter.current_put_self, if_pos hl] at hc
      obtain rfl := Option.some.inj hc
      exact ⟨k, hn, hk⟩
    · rw [RateLimiter.current_put_self, if_neg hl] at hc
      cases hc

/-- A call that leaves the key's window as it is. -/
theorem Spent.unread (h : Spent l key stretch T vs n)
    (hc : ∀ t : ℕ, v.now ≤ t → (l.visit v).2.current ⟨t, key⟩ = l.current ⟨t, key⟩) :
    Spent (l.visit v).2 key stretch T (vs ++ [v]) n := by
  constructor
  · intro t ha hT hnone
    obtain ⟨hvs, hvt⟩ := ha.snoc
    rw [hc t hvt] at hnone
    rw [RateLimiter.visit_limit, RateLimiter.visit_window]
    exact h.shut t hvs hT hnone
  · intro t ha hT w hw
    obtain ⟨hvs, hvt⟩ := ha.snoc
    rw [hc t hvt] at hw
    rw [RateLimiter.visit_limit, RateLimiter.visit_window]
    exact h.counting t hvs hT w hw

/-- One call within the stretch. -/
theorem Spent.visit (h : Spent l key stretch T vs n) (ht : Tracked l key vs) (hv : After vs v.now)
    (hT : T < v.now + stretch) (hlimit : 1 ≤ l.limit.toNat)
    (hfew : ∀ s, callsFrom key l.window s (vs ++ [v]) < 2 ^ 32) :
    Spent (l.visit v).2 key stretch T (vs ++ [v])
      (n + if v.key = key ∧ (l.visit v).1 = true then 1 else 0) := by
  by_cases hk : v.key = key
  · subst hk
    obtain ⟨hs, he⟩ | ⟨w, -, hc, he⟩ | ⟨-, hc, he⟩ := l.visit_cases v
    · have hrefused : (l.visit v).1 = false := by rw [he]
      simp only [hrefused, Bool.false_eq_true, and_false, if_false, Nat.add_zero]
      exact h.unread fun t hvt => current_visit_shed hs hvt
    · obtain ⟨k, hn, hk⟩ := h.counting v.now hv hT w hc
      have hseen := (Option.filter_eq_some_iff.mp hc).1
      have hstart := ht.started w hseen v.now hv
      have hin : v.now < w.started + l.window := (live_lt hc).resolve_right (Nat.not_lt.mpr hstart)
      -- the hits are those of this window, so the counter has not wrapped around
      have hsucc : (w.hits + 1).toNat = w.hits.toNat + 1 := by
        have hcount := ht.hits w hseen
        have hall := hfew w.started
        rw [callsFrom_snoc, if_pos ⟨rfl, hstart, hin⟩] at hall
        rw [UInt32.toNat_add]
        exact Nat.mod_eq_of_lt (by simp only [UInt32.toNat_one]; omega)
      have hpass : (w.hits + 1 ≤ l.limit) ↔ w.hits.toNat + 1 ≤ l.limit.toNat := by
        rw [UInt32.le_iff_toNat_le, hsucc]
      rw [he]
      simp only [true_and, decide_eq_true_eq, hpass]
      refine spent_put (k := k) ?_ ?_ ?_
      · rw [RateLimiter.purge_limit, hsucc]
        split <;> omega
      · rw [RateLimiter.purge_window]
        exact hk
      · intro t ha
        exact ht.started w hseen t ha.snoc.1
    · obtain ⟨k, hn, hk⟩ := h.shut v.now hv hT hc
      rw [he]
      simp only [and_self, if_true]
      refine spent_put (k := k) ?_ ?_ ?_
      · rw [RateLimiter.purge_limit]
        simp only [UInt32.toNat_one]
        omega
      · rw [RateLimiter.purge_window]
        exact hk
      · intro t ha
        exact ha.snoc.2
  · simp only [hk, false_and, if_false, Nat.add_zero]
    exact h.unread fun t hvt => current_visit_other hk hvt

/-! ### Along a run -/

theorem admittedSince_snoc {turns : List (Turn RateLimiter Visit Bool)} {e : Turn RateLimiter Visit Bool}
    (hT : T < e.input.now + stretch) : admittedSince key stretch T (turns ++ [e]) =
      admittedSince key stretch T turns + if e.input.key = key ∧ e.answer = true then 1 else 0 := by
  simp [admittedSince, List.countP_append, List.countP_cons, hT]

/-- Calls that are all too early count for nothing. -/
theorem admittedSince_early {turns : List (Turn RateLimiter Visit Bool)}
    (h : ∀ e ∈ turns, ¬ T < e.input.now + stretch) : admittedSince key stretch T turns = 0 := by
  refine List.countP_eq_zero.mpr fun e he => ?_
  simp [h e he]

/-- **What has been let through since, and by which windows**, along a run of
calls at instants that do not go back. -/
theorem spent_run (key : String) (stretch T : ℕ) (limit : UInt32) (window : Duration)
    (hlimit : 1 ≤ limit.toNat) (hwindow : 0 < window) :
    ∀ vs : List Visit, Orderly vs → (∀ s, callsFrom key window s vs < 2 ^ 32) →
      Tracked (run RateLimiter.visit (.new limit window) vs) key vs ∧
        Spent (run RateLimiter.visit (.new limit window) vs) key stretch T vs
          (admittedSince key stretch T (turns RateLimiter.visit (.new limit window) vs)) := by
  intro vs
  induction vs using List.reverseRecOn with
  | nil =>
    intro _ _
    have ht : Tracked (run RateLimiter.visit (.new limit window) []) key [] :=
      ⟨fun w hw => by simp [RateLimiter.new] at hw, fun w hw => by simp [RateLimiter.new] at hw⟩
    exact ⟨ht, spent_zero ht⟩
  | append_singleton vs v ih =>
    intro hord hfew
    obtain ⟨hvs, -, hlast⟩ := List.pairwise_append.mp hord
    have hv : After vs v.now := fun u hu => hlast u hu v (List.mem_singleton_self v)
    have hfew' : ∀ s, callsFrom key window s vs < 2 ^ 32 := by
      intro s
      have := hfew s
      rw [callsFrom_snoc] at this
      omega
    obtain ⟨ht, hs⟩ := ih hvs hfew'
    have hl := RateLimiter.run_limit limit window vs
    have hw := RateLimiter.run_window limit window vs
    rw [run_append, run_cons, run_nil, turns_snoc]
    have ht' := ht.visit hv (by rw [hw]; exact hwindow)
    refine ⟨ht', ?_⟩
    by_cases hT : T < v.now + stretch
    · rw [admittedSince_snoc hT]
      exact hs.visit ht hv hT (by rw [hl]; exact hlimit) (by rw [hw]; exact hfew)
    · rw [admittedSince_early]
      · exact spent_zero ht'
      · intro e he
        -- all calls are at or before this one
        have hin : e.input ∈ vs ++ [v] := by
          rw [← turns_snoc] at he
          exact turns_input he
        have hle : e.input.now ≤ v.now := by
          rcases List.mem_append.mp hin with hin | hin
          · exact hv _ hin
          · rw [List.mem_singleton.mp hin]
        exact fun h => hT (Nat.lt_of_lt_of_le h (Nat.add_le_add_right hle stretch))

/-- **How many calls of a key pass in a stretch of time**: what
`⌈stretch / window⌉ + 1` windows let through. -/
theorem admittedSince_le (limit : UInt32) (window : Duration) (vs : List Visit) (hlimit : 1 ≤ limit.toNat)
    (hwindow : 0 < window) (hstretch : 0 < stretch) (hord : Orderly vs)
    (hfew : ∀ s, callsFrom key window s vs < 2 ^ 32) (hT : After vs T) :
    admittedSince key stretch T (turns RateLimiter.visit (.new limit window) vs) ≤
      (stretch ⌈/⌉ window + 1) * limit.toNat := by
  obtain ⟨ht, hs⟩ := spent_run key stretch T limit window hlimit hwindow vs hord hfew
  have hl := RateLimiter.run_limit limit window vs
  have hw := RateLimiter.run_window limit window vs
  generalize run RateLimiter.visit (.new limit window) vs = l at ht hs hl hw
  -- `k` windows that fit before the last
  have hfit : ∀ k : ℕ, k * window < window + stretch → k ≤ stretch ⌈/⌉ window := by
    intro k hk
    rw [Nat.ceilDiv_eq_add_pred_div]
    refine (Nat.le_div_iff_mul_le hwindow).mpr ?_
    omega
  cases hc : l.current ⟨T, key⟩ with
  | none =>
    obtain ⟨k, hn, hk⟩ := hs.shut T hT (by omega) hc
    rw [hl] at hn
    rw [hw] at hk
    calc _ ≤ k * limit.toNat := hn
      _ ≤ (stretch ⌈/⌉ window + 1) * limit.toNat :=
        Nat.mul_le_mul_right _ ((hfit k (by omega)).trans (Nat.le_succ _))
  | some w =>
    obtain ⟨k, hn, hk⟩ := hs.counting T hT (by omega) w hc
    have hstart : T ≥ w.started := ht.started w (Option.filter_eq_some_iff.mp hc).1 T hT
    rw [hl] at hn
    rw [hw] at hk
    have hone : min w.hits.toNat limit.toNat ≤ limit.toNat := Nat.min_le_right _ _
    have hsum : k * limit.toNat + min w.hits.toNat limit.toNat ≤ (k + 1) * limit.toNat := by
      rw [Nat.succ_mul]
      exact Nat.add_le_add_left hone _
    calc _ ≤ k * limit.toNat + min w.hits.toNat limit.toNat := hn
      _ ≤ (k + 1) * limit.toNat := hsum
      _ ≤ (stretch ⌈/⌉ window + 1) * limit.toNat :=
        Nat.mul_le_mul_right _ (Nat.succ_le_succ (hfit k (by omega)))

end HarnessRegistry

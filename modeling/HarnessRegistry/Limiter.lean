/-
# One call of the limiter

`check` is a step of a machine whose inputs are calls at instants. A call is
shed when the table is full of live windows (`sheds`); any other finds the
live window of its key (`current`), or opens one. The purge drops windows that
have expired and leaves `current` alone.

Key definitions: `Visit`, `RateLimiter.visit`, `RateLimiter.purge`,
`RateLimiter.sheds`, `RateLimiter.current`, `RateLimiter.put`.
Key theorems: `check_eq`, `current_purge`, `visit_shed`, `visit_current`,
`visit_opens`, `visit_cases`.
-/
import HarnessRegistry.Machine
import HarnessRegistry.RateLimit

namespace HarnessRegistry

/-- A call of `check`: when, and for whom. -/
structure Visit where
  now : Instant
  key : String

/-- A minute, in nanoseconds. -/
def minute : Duration := 60 * 10 ^ 9

namespace RateLimiter

variable {l : RateLimiter} {now : Instant} {key : String} {v : Visit} {w : Window}

def visit (l : RateLimiter) (v : Visit) : Bool × RateLimiter := l.check v.now v.key

/-- The table after the purge, if there is one. -/
def purge (l : RateLimiter) (now : Instant) : RateLimiter :=
  if l.seen.size ≥ maxTracked then l.retain now else l

/-- The table still holds `maxTracked` entries after the purge. -/
def sheds (l : RateLimiter) (now : Instant) : Bool := (l.purge now).seen.size ≥ maxTracked

/-- The key's window, if it is live. -/
def current (l : RateLimiter) (v : Visit) : Option Window := l.seen[v.key]?.filter (l.live v.now)

/-- The table with this window for the key. -/
def put (l : RateLimiter) (key : String) (w : Window) : RateLimiter := { l with seen := l.seen.insert key w }

@[simp] theorem put_limit : (l.put key w).limit = l.limit := rfl

@[simp] theorem put_window : (l.put key w).window = l.window := rfl

theorem getElem?_put (l : RateLimiter) (key k : String) (w : Window) :
    (l.put key w).seen[k]? = if key = k then some w else l.seen[k]? := by
  simp [put, Std.HashMap.getElem?_insert]

/-- What a later call of the key finds. -/
theorem current_put_self (l : RateLimiter) (key : String) (w : Window) (t : Instant) :
    (l.put key w).current ⟨t, key⟩ = if t - w.started < l.window then some w else none := by
  unfold current
  rw [getElem?_put, if_pos rfl]
  by_cases h : t - w.started < l.window
  · rw [if_pos h]
    exact Option.filter_eq_some_iff.mpr ⟨rfl, decide_eq_true h⟩
  · rw [if_neg h]
    refine Option.filter_eq_none_iff.mpr fun u hu hlive => h ?_
    rw [← Option.some.inj hu] at hlive
    exact of_decide_eq_true hlive

theorem current_put (h : l.live v.now w = true) : (l.put v.key w).current v = some w :=
  (current_put_self l v.key w v.now).trans (if_pos (of_decide_eq_true h))

theorem elapsed_lt_iff {t s w : ℕ} (h : 0 < w ∨ s ≤ t) : t - s < w ↔ t < s + w := by omega

/-! ### The purge -/

@[simp] theorem purge_limit : (l.purge now).limit = l.limit := by unfold purge; split <;> rfl

@[simp] theorem purge_window : (l.purge now).window = l.window := by unfold purge; split <;> rfl

theorem live_congr {l' : RateLimiter} (h : l'.window = l.window) : l'.live = l.live := by
  funext now w
  unfold live
  rw [h]

@[simp] theorem live_purge : (l.purge now).live = l.live := live_congr purge_window

/-- It drops the entries that are not live, or none. -/
theorem getElem?_purge (l : RateLimiter) (now : Instant) (key : String) : (l.purge now).seen[key]? = l.seen[key]? ∨
    (l.purge now).seen[key]? = l.seen[key]?.filter (l.live now) := by
  unfold purge
  split
  · exact .inr Std.HashMap.getElem?_filter'
  · exact .inl rfl

/-- What is there afterwards was there before. -/
theorem getElem?_of_purge (h : (l.purge now).seen[key]? = some w) : l.seen[key]? = some w := by
  rcases getElem?_purge l now key with he | he
  · rwa [he] at h
  · rw [he] at h
    exact (Option.filter_eq_some_iff.mp h).1

theorem current_purge : (l.purge v.now).current v = l.current v := by
  unfold current
  rw [live_purge]
  rcases getElem?_purge l v.now v.key with h | h
  · rw [h]
  · rw [h, Option.filter_filter]
    simp

/-! ### The three ways of a call -/

theorem check_eq : l.check now key =
    if l.sheds now then (false, l.purge now) else (l.purge now).hit now key := by
  unfold check sheds purge
  by_cases hfull : l.seen.size ≥ maxTracked
  · simp only [if_pos hfull, decide_eq_true_eq]
  · simp [hfull]

theorem hit_current (hc : l.current v = some w) : l.hit v.now v.key =
    (decide (w.hits + 1 ≤ l.limit), l.put v.key ⟨w.started, w.hits + 1⟩) := by
  obtain ⟨hw, hl⟩ := Option.filter_eq_some_iff.mp hc
  unfold hit
  rw [hw]
  exact if_pos hl

theorem hit_opens (hc : l.current v = none) : l.hit v.now v.key = (true, l.put v.key ⟨v.now, 1⟩) := by
  unfold hit
  cases hs : l.seen[v.key]? with
  | none => rfl
  | some w =>
    have hl : l.live v.now w = false := by simpa [current, hs] using hc
    exact if_neg (by simp [hl])

theorem visit_shed (h : l.sheds v.now = true) : l.visit v = (false, l.purge v.now) := by
  unfold visit
  rw [check_eq, if_pos h]

theorem visit_hit (h : l.sheds v.now = false) : l.visit v = (l.purge v.now).hit v.now v.key := by
  unfold visit
  rw [check_eq, if_neg (by simp [h])]

/-- A call in the live window of its key. -/
theorem visit_current (h : l.sheds v.now = false) (hc : l.current v = some w) :
    l.visit v = (decide (w.hits + 1 ≤ l.limit), (l.purge v.now).put v.key ⟨w.started, w.hits + 1⟩) := by
  rw [visit_hit h, hit_current (current_purge.trans hc), purge_limit]

/-- A call that opens a window. -/
theorem visit_opens (h : l.sheds v.now = false) (hc : l.current v = none) :
    l.visit v = (true, (l.purge v.now).put v.key ⟨v.now, 1⟩) := by
  rw [visit_hit h, hit_opens (current_purge.trans hc)]

/-- All that a call can do: nothing but purge, count a hit, or open a window. -/
theorem visit_cases (l : RateLimiter) (v : Visit) :
    (l.sheds v.now = true ∧ l.visit v = (false, l.purge v.now)) ∨
    (∃ w, l.sheds v.now = false ∧ l.current v = some w ∧
      l.visit v = (decide (w.hits + 1 ≤ l.limit), (l.purge v.now).put v.key ⟨w.started, w.hits + 1⟩)) ∨
    (l.sheds v.now = false ∧ l.current v = none ∧ l.visit v = (true, (l.purge v.now).put v.key ⟨v.now, 1⟩)) := by
  by_cases hs : l.sheds v.now = true
  · exact .inl ⟨hs, visit_shed hs⟩
  · have hs : l.sheds v.now = false := Bool.eq_false_of_not_eq_true hs
    cases hc : l.current v with
    | some w => exact .inr (.inl ⟨w, hs, rfl, visit_current hs hc⟩)
    | none => exact .inr (.inr ⟨hs, rfl, visit_opens hs hc⟩)

/-- The table after a call. -/
theorem visit_table (l : RateLimiter) (v : Visit) :
    (l.visit v).2 = l.purge v.now ∨ ∃ w, (l.visit v).2 = (l.purge v.now).put v.key w := by
  obtain ⟨-, h⟩ | ⟨w, -, -, h⟩ | ⟨-, -, h⟩ := l.visit_cases v
  · exact .inl (by rw [h])
  · exact .inr ⟨_, by rw [h]⟩
  · exact .inr ⟨_, by rw [h]⟩

/-- A call touches no entry of another key, unless it purges it. -/
theorem getElem?_visit (hk : v.key ≠ key) :
    (l.visit v).2.seen[key]? = (l.purge v.now).seen[key]? := by
  obtain h | ⟨w, h⟩ := l.visit_table v
  · rw [h]
  · rw [h, getElem?_put, if_neg hk]

@[simp] theorem visit_limit : (l.visit v).2.limit = l.limit := by
  obtain h | ⟨w, h⟩ := l.visit_table v
  · rw [h, purge_limit]
  · rw [h, put_limit, purge_limit]

@[simp] theorem visit_window : (l.visit v).2.window = l.window := by
  obtain h | ⟨w, h⟩ := l.visit_table v
  · rw [h, purge_window]
  · rw [h, put_window, purge_window]

/-- A run keeps the configuration. -/
theorem run_limit (limit : UInt32) (window : Duration) (vs : List Visit) :
    (Machine.run visit (new limit window) vs).limit = limit :=
  Machine.run_induct (P := fun l : RateLimiter => l.limit = limit) rfl (fun _ _ h => visit_limit.trans h) vs

theorem run_window (limit : UInt32) (window : Duration) (vs : List Visit) :
    (Machine.run visit (new limit window) vs).window = window :=
  Machine.run_induct (P := fun l : RateLimiter => l.window = window) rfl (fun _ _ h => visit_window.trans h) vs

/-! ### The first call -/

@[simp] theorem purge_new (limit : UInt32) (window : Duration) : (new limit window).purge now = new limit window :=
  if_neg (by simp [new, maxTracked])

@[simp] theorem sheds_new (limit : UInt32) (window : Duration) : (new limit window).sheds now = false := by
  unfold sheds
  rw [purge_new]
  simp [new, maxTracked]

@[simp] theorem current_new (limit : UInt32) (window : Duration) : (new limit window).current v = none := by
  simp [current, new]

theorem visit_new (limit : UInt32) (window : Duration) (v : Visit) :
    (new limit window).visit v = (true, (new limit window).put v.key ⟨v.now, 1⟩) := by
  rw [visit_opens (sheds_new limit window) (current_new limit window), purge_new]

end RateLimiter
end HarnessRegistry

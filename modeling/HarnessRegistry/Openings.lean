/-
# Which windows have been opened

The table is not the history: a purge drops windows that have expired, and
only when the table is full. But it drops nothing else, so that the live windows of the
table are at any time those of the last openings (`Recalls`). From the history
alone it follows how many calls pass in an interval (`burst_bound`), and when a
call is shed and for how long (`table_bounded`).

Key definitions: `lastOpening`, `liveKeys`, `admittedIn`, `Recalls`, `Bounded`.
Key theorems: `Recalls.visit`, `recalls_run`, `burst_bound`, `Bounded.visit`, `sheds_iff_liveKeys`, `table_bounded`.
-/
import HarnessRegistry.Shed
import HarnessRegistry.Spread
import HarnessRegistry.Window

namespace HarnessRegistry

open Machine

/-- The call opened a window. -/
def opened (e : Turn RateLimiter Visit Bool) : Bool := e.state.opens e.input

/-- When the last window was opened. -/
def lastOpened (turns : Turns) : Option Instant := (turns.filter opened).getLast?.map fun e => e.input.now

/-- When the key's last window was opened. -/
def lastOpening (key : String) (turns : Turns) : Option Instant := lastOpened (turns.filter fun e => e.input.key == key)

/-- From the last call on, the key's live window is the one opened last. -/
def Recalls (l : RateLimiter) (key : String) (last : Option Instant) (vs : List Visit) : Prop :=
  ∀ t : ℕ, After vs t → (l.current ⟨t, key⟩).map Window.started = last.filter fun s => t < s + l.window

variable {l : RateLimiter} {key : String} {last : Option Instant} {vs : List Visit} {v : Visit}

theorem lastOpened_append {ts us : Turns} (h : ∀ e ∈ us, opened e = false) : lastOpened (ts ++ us) = lastOpened ts := by
  have hnone : us.filter opened = [] := List.filter_eq_nil_iff.mpr (by simpa using h)
  unfold lastOpened
  rw [List.filter_append, hnone, List.append_nil]

theorem lastOpened_snoc (ts : Turns) (e : Turn RateLimiter Visit Bool) :
    lastOpened (ts ++ [e]) = if opened e = true then some e.input.now else lastOpened ts := by
  by_cases h : opened e = true
  · unfold lastOpened
    rw [if_pos h, List.filter_append, List.filter_cons_of_pos h, List.filter_nil, List.getLast?_concat]
    rfl
  · rw [if_neg h]
    exact lastOpened_append (by simpa using h)

theorem lastOpening_snoc (ts : Turns) (e : Turn RateLimiter Visit Bool) : lastOpening key (ts ++ [e]) =
    if e.input.key = key ∧ opened e = true then some e.input.now else lastOpening key ts := by
  unfold lastOpening
  rw [List.filter_append]
  by_cases hk : e.input.key = key
  · rw [List.filter_cons_of_pos (by simpa using hk), List.filter_nil, lastOpened_snoc]
    simp only [hk, true_and]
  · rw [List.filter_cons_of_neg (by simpa using hk), List.filter_nil, List.append_nil, if_neg fun h => hk h.1]

/-- No window was opened later. -/
theorem le_lastOpened {ts : Turns} (hord : Orderly (ts.map Turn.input)) {e : Turn RateLimiter Visit Bool}
    (he : e ∈ ts) (ho : opened e = true) : ∃ s ∈ lastOpened ts, e.input.now ≤ s := by
  have hin : e ∈ ts.filter opened := List.mem_filter.mpr ⟨he, ho⟩
  have hsorted : (ts.filter opened).Pairwise fun d e => d.input.now ≤ e.input.now :=
    (List.pairwise_map.mp hord).filter _
  obtain ⟨last, hlast⟩ := Option.isSome_iff_exists.mp (List.getLast?_isSome.mpr (List.ne_nil_of_mem hin))
  refine ⟨last.input.now, by rw [lastOpened, hlast]; rfl, ?_⟩
  obtain ⟨es, hes⟩ := List.getLast?_eq_some_iff.mp hlast
  rw [hes] at hin hsorted
  rcases List.mem_append.mp hin with hin | hin
  · exact (List.pairwise_append.mp hsorted).2.2 e hin last (List.mem_singleton_self last)
  · rw [List.mem_singleton.mp hin]

/-! ### The table and the history -/

theorem recalls_put {s : ℕ} {h : UInt32} (hs : ∀ t : ℕ, After vs t → 0 < l.window ∨ s ≤ t) :
    Recalls (l.put key ⟨s, h⟩) key (some s) vs := by
  intro t ht
  rw [RateLimiter.current_put_self, RateLimiter.put_window]
  simp only [RateLimiter.elapsed_lt_iff (hs t ht)]
  by_cases hin : t < s + l.window
  · simp [Option.filter, hin]
  · simp [Option.filter, hin]

/-- A call that leaves the key's window as it is. -/
theorem Recalls.unread (h : Recalls l key last vs)
    (hc : ∀ t : ℕ, v.now ≤ t → (l.visit v).2.current ⟨t, key⟩ = l.current ⟨t, key⟩) :
    Recalls (l.visit v).2 key last (vs ++ [v]) := by
  intro t ht
  obtain ⟨hvs, hvt⟩ := ht.snoc
  rw [hc t hvt, RateLimiter.visit_window]
  exact h t hvs

/-- **What a call makes the last opening**: its own instant, if it opens a window of the key. -/
theorem Recalls.visit (h : Recalls l key last vs) (hv : After vs v.now) :
    Recalls (l.visit v).2 key (if v.key = key ∧ l.opens v = true then some v.now else last) (vs ++ [v]) := by
  by_cases hk : v.key = key
  swap
  · rw [if_neg fun hall => hk hall.1]
    exact h.unread fun t hvt => current_visit_other hk hvt
  subst hk
  obtain ⟨hs, -⟩ | ⟨w, hs, hc, he⟩ | ⟨hs, hc, he⟩ := l.visit_cases v
  · rw [if_neg (by simp [RateLimiter.opens, hs])]
    exact h.unread fun t hvt => current_visit_shed hs hvt
  · have hlast : last.filter (fun s => v.now < s + l.window) = some w.started := by
      rw [← h v.now hv, show l.current ⟨v.now, v.key⟩ = some w from hc, Option.map_some]
    obtain rfl := (Option.filter_eq_some_iff.mp hlast).1
    have hwin : 0 < l.window :=
      Nat.lt_of_le_of_lt (Nat.zero_le _) (of_decide_eq_true (Option.filter_eq_some_iff.mp hc).2)
    rw [if_neg (by simp [RateLimiter.opens, hc]), he]
    exact recalls_put fun t _ => .inl (by rwa [RateLimiter.purge_window])
  · rw [if_pos ⟨rfl, by simp [RateLimiter.opens, hs, hc]⟩, he]
    exact recalls_put fun t ht => .inr ht.snoc.2

/-- At the end of a run, the live windows are those of the last openings. -/
theorem recalls_run (limit : UInt32) (window : Duration) (key : String) : ∀ vs : List Visit, Orderly vs →
    Recalls (run RateLimiter.visit (.new limit window) vs) key
      (lastOpening key (turns RateLimiter.visit (.new limit window) vs)) vs := by
  intro vs
  induction vs using List.reverseRecOn with
  | nil =>
    intro _ t _
    rw [run_nil, RateLimiter.current_new]
    rfl
  | append_singleton vs v ih =>
    intro hord
    obtain ⟨hvs, -, hlast⟩ := List.pairwise_append.mp hord
    rw [run_append, run_cons, run_nil, turns_snoc, lastOpening_snoc]
    exact (ih hvs).visit fun u hu => hlast u hu v (List.mem_singleton_self v)

/-- The table after some calls, as a later call of the key meets it: its window
is the one opened last, if that is live. -/
theorem current_iff (limit : UInt32) (window : Duration) (hord : Orderly vs) {t : ℕ} (ht : After vs t) :
    ((run RateLimiter.visit (.new limit window) vs).current ⟨t, key⟩).isSome = true ↔
      ∃ s ∈ lastOpening key (turns RateLimiter.visit (.new limit window) vs), t < s + window := by
  have h := recalls_run limit window key vs hord t ht
  rw [RateLimiter.run_window] at h
  rw [← Option.isSome_map (f := Window.started), h, Option.isSome_filter, Option.any_eq_true]
  simp only [decide_eq_true_eq, Option.mem_def]

/-! ### How many calls pass in an interval -/

/-- How many calls of the key pass at instants from `start` on and before `stop`. -/
def admittedIn (key : String) (start stop : Instant) (turns : Turns) : ℕ :=
  turns.countP fun e => e.input.key == key && e.answer && decide (start ≤ e.input.now ∧ e.input.now < stop)

/-- Calls in order, cut at an instant. -/
theorem Orderly.cut (T : ℕ) : ∀ {vs : List Visit}, Orderly vs →
    ∃ us ws, vs = us ++ ws ∧ After us T ∧ ∀ v ∈ ws, T < v.now
  | [], _ => ⟨[], [], rfl, by simp [After], by simp⟩
  | v :: vs, hord => by
    obtain ⟨hafter, hvs⟩ := List.pairwise_cons.mp hord
    by_cases hT : v.now ≤ T
    · obtain ⟨us, ws, rfl, hus, hws⟩ := Orderly.cut T hvs
      exact ⟨v :: us, ws, rfl, List.forall_mem_cons.mpr ⟨hT, hus⟩, hws⟩
    · have hlater : T < v.now := Nat.lt_of_not_le hT
      refine ⟨[], v :: vs, rfl, by simp [After], List.forall_mem_cons.mpr ⟨hlater, fun u hu => ?_⟩⟩
      exact Nat.lt_of_lt_of_le hlater (hafter u hu)

/-- At most `m + 1` windows let calls through in an interval of `m` times their length. -/
theorem admittedIn_le (limit : UInt32) (window : Duration) (vs : List Visit) (hlimit : 1 ≤ limit.toNat)
    (hwin : 0 < window) (hord : Orderly vs) (hfew : vs.length < 2 ^ 32) (key : String) {m : ℕ} (hm : 1 ≤ m)
    (start : Instant) :
    admittedIn key start (start + m * window) (turns RateLimiter.visit (.new limit window) vs) ≤
      (m + 1) * limit.toNat := by
  have hlong : 0 < m * window := Nat.mul_pos hm hwin
  -- the calls up to the last instant of the interval, and those after it
  obtain ⟨us, ws, rfl, hus, hws⟩ := hord.cut (start + m * window - 1)
  have hlater : admittedIn key start (start + m * window)
      (turns RateLimiter.visit (run RateLimiter.visit (.new limit window) us) ws) = 0 := by
    refine List.countP_eq_zero.mpr fun e he => ?_
    have hT : start + m * window - 1 < e.input.now := hws _ (turns_input he)
    have hout : ¬ (start ≤ e.input.now ∧ e.input.now < start + m * window) := fun hin =>
      absurd hin.2 (Nat.not_lt.mpr (Nat.le_of_pred_lt hT))
    simp [hout]
  have hus32 : ∀ s, callsFrom key window s us < 2 ^ 32 := by
    intro s
    rw [List.length_append] at hfew
    have hle : callsFrom key window s us ≤ us.length := List.countP_le_length
    omega
  have hfit : m * window ⌈/⌉ window ≤ m := by
    rw [ceilDiv_le_iff_le_mul hwin, Nat.mul_comm]
  calc _ = admittedIn key start (start + m * window) (turns RateLimiter.visit (.new limit window) us) := by
        rw [turns_append]
        unfold admittedIn at hlater ⊢
        rw [List.countP_append, hlater, Nat.add_zero]
    _ ≤ admittedSince key (m * window) (start + m * window - 1) (turns RateLimiter.visit (.new limit window) us) := by
        apply List.countP_mono_left
        intro e _ he
        simp only [Bool.and_eq_true, decide_eq_true_eq] at he ⊢
        refine ⟨he.1, ?_⟩
        have hstart : start ≤ e.input.now := he.2.1
        calc start + m * window - 1 < start + m * window := Nat.sub_lt (Nat.add_pos_right _ hlong) Nat.one_pos
          _ ≤ e.input.now + m * window := Nat.add_le_add_right hstart _
    _ ≤ (m * window ⌈/⌉ window + 1) * limit.toNat :=
        admittedSince_le limit window us hlimit hwin hlong (List.pairwise_append.mp hord).1 hus32 hus
    _ ≤ (m + 1) * limit.toNat := Nat.mul_le_mul_right _ (Nat.succ_le_succ hfit)

/-- **The burst bound.** Of a key's calls in any interval of `m` windows, at most
`m + 1` times the limit pass. And once the window that a key opened last is
over, its next call passes unless it is shed, whatever it has called meanwhile. -/
theorem burst_bound (limit : UInt32) (window : Duration) (vs : List Visit) (hlimit : 1 ≤ limit.toNat)
    (hwin : 0 < window) (hord : Orderly vs) (hfew : vs.length < 2 ^ 32) (key : String) :
    (∀ m ≥ 1, ∀ start : Instant,
      admittedIn key start (start + m * window) (turns RateLimiter.visit (.new limit window) vs) ≤
        (m + 1) * limit.toNat) ∧
      ∀ before after v, vs = before ++ v :: after → v.key = key →
        ∀ s ∈ lastOpening key (turns RateLimiter.visit (.new limit window) before), s + window ≤ v.now →
          (((run RateLimiter.visit (.new limit window) before).visit v).1 = true ↔
            (run RateLimiter.visit (.new limit window) before).sheds v.now = false) := by
  refine ⟨fun m hm start => admittedIn_le limit window vs hlimit hwin hord hfew key hm start, ?_⟩
  rintro before after v rfl rfl s hs hover
  obtain ⟨hbefore, -, hlast⟩ := List.pairwise_append.mp hord
  have hv : After before v.now := fun u hu => hlast u hu v List.mem_cons_self
  obtain ⟨hshed, he⟩ | ⟨w, -, hw, -⟩ | ⟨hshed, -, he⟩ :=
    (run RateLimiter.visit (.new limit window) before).visit_cases v
  · rw [he, hshed]
    simp
  · -- the key has no live window, since its last one is over
    obtain ⟨s', hs', hlive⟩ := (current_iff limit window hbefore hv).mp (Option.isSome_of_eq_some hw)
    obtain rfl := Option.some.inj (hs.symm.trans hs')
    exact absurd hlive (Nat.not_lt.mpr hover)
  · rw [he, hshed]
    simp

/-- One call in each of two windows. -/
theorem burst_bound_two :
    let vs : List Visit := [⟨0, "1.2.3.4"⟩, ⟨minute, "1.2.3.4"⟩]
    let l := run RateLimiter.visit (.new 1 minute) [⟨0, "1.2.3.4"⟩]
    admittedIn "1.2.3.4" 0 (0 + 1 * minute) (turns RateLimiter.visit (.new 1 minute) vs) ≤
        (1 + 1) * (1 : UInt32).toNat ∧
      ((l.visit ⟨minute, "1.2.3.4"⟩).1 = true ↔ l.sheds minute = false) := by
  intro vs l
  obtain ⟨hcount, hnext⟩ := burst_bound 1 minute vs (by decide) (by decide) (by simp [vs, Orderly]) (by decide) "1.2.3.4"
  refine ⟨hcount 1 (Nat.le_refl 1) 0, hnext [⟨0, "1.2.3.4"⟩] [] ⟨minute, "1.2.3.4"⟩ rfl rfl 0 ?_ (by decide)⟩
  have hopens : opened ⟨.new 1 minute, ⟨0, "1.2.3.4"⟩, ((RateLimiter.new 1 minute).visit ⟨0, "1.2.3.4"⟩).1⟩ = true := by
    simp [opened, RateLimiter.opens]
  simp [lastOpening, lastOpened, hopens]

/-! ### How large the table is -/

/-- The entries of the table after these calls. -/
structure Bounded (l : RateLimiter) (vs : List Visit) : Prop where
  size : l.seen.size ≤ maxTracked
  started : ∀ (key : String) (w : Window), l.seen[key]? = some w → ∀ t : ℕ, After vs t → w.started ≤ t
  hits : ∀ (key : String) (w : Window), l.seen[key]? = some w → vs.length < 2 ^ 32 →
    1 ≤ w.hits.toNat ∧ w.hits.toNat ≤ vs.length

theorem size_purge_le (l : RateLimiter) (now : Instant) : (l.purge now).seen.size ≤ l.seen.size := by
  unfold RateLimiter.purge
  split
  · exact tracked_le_size l now
  · exact Nat.le_refl _

theorem size_visit_le (h : l.seen.size ≤ maxTracked) : (l.visit v).2.seen.size ≤ maxTracked := by
  have hput : l.sheds v.now = false → ∀ w, ((l.purge v.now).put v.key w).seen.size ≤ maxTracked := by
    intro hs w
    have hroom : ¬ (l.purge v.now).seen.size ≥ maxTracked := of_decide_eq_false hs
    have hsize : ((l.purge v.now).put v.key w).seen.size ≤ (l.purge v.now).seen.size + 1 := Std.HashMap.size_insert_le
    omega
  obtain ⟨-, he⟩ | ⟨w, hs, -, he⟩ | ⟨hs, -, he⟩ := l.visit_cases v
  · rw [he]
    exact (size_purge_le l v.now).trans h
  · rw [he]
    exact hput hs _
  · rw [he]
    exact hput hs _

theorem Bounded.visit (h : Bounded l vs) : Bounded (l.visit v).2 (vs ++ [v]) := by
  refine ⟨size_visit_le h.size, fun key w hw t ht => ?_, fun key w hw hfew => ?_⟩
  · obtain ⟨hvs, hvt⟩ := ht.snoc
    rcases entry_visit hw with hold | ⟨-, -, ⟨u, hu, rfl⟩ | ⟨-, rfl⟩⟩
    · exact h.started key w hold t hvs
    · exact h.started v.key u (Option.filter_eq_some_iff.mp hu).1 t hvs
    · exact hvt
  · rw [List.length_append, List.length_singleton] at hfew ⊢
    rcases entry_visit hw with hold | ⟨-, -, ⟨u, hu, rfl⟩ | ⟨-, rfl⟩⟩
    · have := h.hits key w hold (by omega)
      omega
    · -- fewer calls than the counter holds, so it has not wrapped around
      have hcount := h.hits v.key u (Option.filter_eq_some_iff.mp hu).1 (by omega)
      have hsucc : (u.hits + 1).toNat = u.hits.toNat + 1 := by
        rw [UInt32.toNat_add]
        exact Nat.mod_eq_of_lt (by simp only [UInt32.toNat_one]; omega)
      dsimp only
      omega
    · exact ⟨Nat.le_refl 1, Nat.le_add_left 1 _⟩

theorem bounded_run (limit : UInt32) (window : Duration) (vs : List Visit) :
    Bounded (run RateLimiter.visit (.new limit window) vs) vs := by
  induction vs using List.reverseRecOn with
  | nil =>
    exact ⟨by simp [RateLimiter.new], fun key w hw => by simp [RateLimiter.new] at hw,
      fun key w hw => by simp [RateLimiter.new] at hw⟩
  | append_singleton vs v ih =>
    rw [run_append, run_cons, run_nil]
    exact ih.visit

/-! ### When it sheds -/

/-- The keys that have opened a window, and the last one less than `window` before `now`. -/
def liveKeys (window : Duration) (now : Instant) (turns : Turns) : Finset String :=
  (turns.map fun e => e.input.key).toFinset.filter fun key => ∃ s ∈ lastOpening key turns, now < s + window

theorem exists_of_lastOpening {ts : Turns} {s : Instant} (h : lastOpening key ts = some s) :
    ∃ e ∈ ts, e.input.key = key ∧ opened e = true ∧ e.input.now = s := by
  obtain ⟨e, he, rfl⟩ := Option.map_eq_some_iff.mp h
  obtain ⟨hin, ho⟩ := List.mem_filter.mp (List.mem_of_getLast? he)
  obtain ⟨hin, hkey⟩ := List.mem_filter.mp hin
  exact ⟨e, hin, by simpa using hkey, ho, rfl⟩

theorem mem_liveKeys {window : Duration} {now : Instant} {ts : Turns} :
    key ∈ liveKeys window now ts ↔ ∃ s ∈ lastOpening key ts, now < s + window := by
  unfold liveKeys
  rw [Finset.mem_filter, and_iff_right_iff_imp]
  rintro ⟨s, hs, -⟩
  obtain ⟨e, he, hkey, -⟩ := exists_of_lastOpening hs
  exact List.mem_toFinset.mpr (List.mem_map.mpr ⟨e, he, hkey⟩)

/-- The windows that are live are those of the live keys. -/
theorem tracked_eq_card (limit : UInt32) (window : Duration) (hord : Orderly vs) {t : ℕ} (ht : After vs t) :
    (run RateLimiter.visit (.new limit window) vs).tracked t =
      (liveKeys window t (turns RateLimiter.visit (.new limit window) vs)).card := by
  unfold RateLimiter.tracked
  rw [← card_keys]
  congr 1
  ext key
  rw [List.mem_toFinset, Std.HashMap.mem_keys, mem_liveKeys, ← current_iff limit window hord ht,
    Std.HashMap.mem_iff_isSome_getElem?]
  unfold RateLimiter.current RateLimiter.retain
  rw [Std.HashMap.getElem?_filter']

theorem sheds_iff_liveKeys (limit : UInt32) (window : Duration) (hord : Orderly vs) {t : ℕ} (ht : After vs t) :
    (run RateLimiter.visit (.new limit window) vs).sheds t = true ↔
      (liveKeys window t (turns RateLimiter.visit (.new limit window) vs)).card = maxTracked := by
  have hsize := (bounded_run limit window vs).size
  have htracked := tracked_le_size (run RateLimiter.visit (.new limit window) vs) t
  rw [sheds_iff, ← tracked_eq_card limit window hord ht]
  omega

/-- Whoever is shed, the last window that was opened is live. -/
theorem lastOpened_of_sheds (limit : UInt32) (window : Duration) (hord : Orderly vs) {t : ℕ} (ht : After vs t)
    (hs : (run RateLimiter.visit (.new limit window) vs).sheds t = true) :
    ∃ s ∈ lastOpened (turns RateLimiter.visit (.new limit window) vs), t < s + window := by
  have hcard := (sheds_iff_liveKeys limit window hord ht).mp hs
  obtain ⟨key, hkey⟩ := Finset.card_pos.mp (by rw [hcard]; decide)
  obtain ⟨s, hlast, hlive⟩ := mem_liveKeys.mp hkey
  obtain ⟨e, he, -, ho, rfl⟩ := exists_of_lastOpening hlast
  obtain ⟨s, hs, hle⟩ := le_lastOpened (by rwa [turns_map_input]) he ho
  exact ⟨s, hs, Nat.lt_of_lt_of_le hlive (Nat.add_le_add_right hle _)⟩

/-- **The table is bounded, and sheds by its history.** After every run of calls
it has at most `maxTracked` entries, one a key, each opened by now and with a
hit. A call is shed if and only if `maxTracked` keys have opened their last window
less than `window` before. And of calls that are all shed none comes `window` after
the last opening before them, or later. -/
theorem table_bounded (limit : UInt32) (window : Duration) (vs : List Visit) (hord : Orderly vs) :
    let l := run RateLimiter.visit (.new limit window) vs
    let ts := turns RateLimiter.visit (.new limit window) vs
    Bounded l vs ∧ l.seen.keys.Nodup ∧
      (∀ v : Visit, After vs v.now → (l.sheds v.now = true ↔ (liveKeys window v.now ts).card = maxTracked)) ∧
      ∀ mid, Orderly (vs ++ mid) → (∀ e ∈ turns RateLimiter.visit l mid, e.state.sheds e.input.now = true) →
        ∀ u ∈ mid, ∃ s ∈ lastOpened ts, u.now < s + window := by
  intro l ts
  refine ⟨bounded_run limit window vs, Std.HashMap.nodup_keys, fun v hv => sheds_iff_liveKeys limit window hord hv,
    fun mid hmid hshed u hu => ?_⟩
  obtain ⟨us, ws, rfl⟩ := List.append_of_mem hu
  rw [← List.append_assoc] at hmid
  obtain ⟨hbefore, -, hlast⟩ := List.pairwise_append.mp hmid
  rw [turns_append] at hshed
  have hall := lastOpened_of_sheds limit window hbefore (fun v hv => hlast v hv u List.mem_cons_self)
    (by rw [run_append]; exact hshed _ (List.mem_append_right _ List.mem_cons_self))
  -- none of the calls between opens a window
  rwa [turns_append, lastOpened_append fun e he => by
    simp [opened, RateLimiter.opens, hshed e (List.mem_append_left _ he)]] at hall

/-- A crowd of `maxTracked` keys, and one of them once more: it is shed, for less
than a minute. -/
theorem table_bounded_crowd :
    let l := run RateLimiter.visit (.new 2 minute) (crowd maxTracked)
    let ts := turns RateLimiter.visit (.new 2 minute) (crowd maxTracked)
    Bounded l (crowd maxTracked) ∧ (liveKeys minute 0 ts).card = maxTracked ∧ ∃ s ∈ lastOpened ts, 0 < s + minute := by
  intro l ts
  have hall : ∀ v ∈ crowd maxTracked ++ [⟨0, "0"⟩], v.now = 0 := by
    intro v hv
    rcases List.mem_append.mp hv with hv | hv
    · exact crowd_now hv
    · rw [List.mem_singleton.mp hv]
  have hord : Orderly (crowd maxTracked ++ [⟨0, "0"⟩]) :=
    List.pairwise_of_forall_mem_list fun u hu v hv => by rw [hall u hu, hall v hv]
  have hcrowd : Crowded l maxTracked := crowd_crowded 2 minute maxTracked (Nat.le_refl _)
  have hsheds : l.sheds 0 = true := by
    have hwin : 0 < l.window := by
      rw [show l.window = minute from RateLimiter.run_window 2 minute _]
      decide
    exact sheds_iff.mpr (Nat.le_of_eq (hcrowd.tracked hwin).symm)
  obtain ⟨hbounded, -, hiff, hperiod⟩ := table_bounded 2 minute (crowd maxTracked) (List.pairwise_append.mp hord).1
  refine ⟨hbounded, (hiff ⟨0, "0"⟩ fun v hv => ?_).mp hsheds, hperiod [⟨0, "0"⟩] hord (fun e he => ?_) ⟨0, "0"⟩ ?_⟩
  · exact Nat.le_of_eq (hall v (List.mem_append_left _ hv))
  · rw [turns_cons, turns_nil, List.mem_singleton] at he
    rw [he]
    dsimp only
    exact hsheds
  · exact List.mem_singleton_self _

end HarnessRegistry

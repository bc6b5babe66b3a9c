/-
# The bounded limiter refines the unbounded one

The reference limiter keeps every window for ever: it is the `match` of
`check` alone. The bounded one forgets windows, but only expired ones, which
the reference would replace too, and instants do not go back. So on the calls
that are not shed the two answer alike (`unshed_answers`).

Key definitions: `RateLimiter.reference`, `Mirrors`.
Key theorems: `Mirrors.purge`, `Mirrors.hit`, `unshed_answers`.
-/
import HarnessRegistry.Shed

namespace HarnessRegistry

open Machine

/-- The reference limiter: no purge, and no shedding. -/
def RateLimiter.reference (l : RateLimiter) (v : Visit) : Bool × RateLimiter := l.hit v.now v.key

/-- Calls at instants that do not go back. -/
def Orderly (vs : List Visit) : Prop := vs.Pairwise fun u v => u.now ≤ v.now

/-- `l` has the windows of `m`, but for some that have expired for all the
calls to come. -/
structure Mirrors (vs : List Visit) (l m : RateLimiter) : Prop where
  limit : l.limit = m.limit
  window : l.window = m.window
  orderly : Orderly vs
  seen : ∀ key : String, l.seen[key]? = m.seen[key]? ∨
    l.seen[key]? = none ∧ ∀ w, m.seen[key]? = some w → ∀ v ∈ vs, m.live v.now w = false

variable {l m : RateLimiter} {v : Visit} {vs : List Visit}

/-- What has expired stays so. -/
theorem live_antitone {now now' : Instant} (h : now ≤ now') {w : Window} (hl : l.live now w = false) :
    l.live now' w = false := by
  have hl : ¬ now - w.started < l.window := of_decide_eq_false hl
  have : now - w.started ≤ now' - w.started := Nat.sub_le_sub_right h _
  exact decide_eq_false fun h' => hl (Nat.lt_of_le_of_lt this h')

/-- The purge takes nothing that a later call would find live. -/
theorem current_purge_later {now t : Instant} {key : String} (h : now ≤ t) :
    (l.purge now).current ⟨t, key⟩ = l.current ⟨t, key⟩ := by
  unfold RateLimiter.current
  rw [RateLimiter.live_purge]
  rcases l.getElem?_purge now key with he | he
  · rw [he]
  · rw [he, Option.filter_filter]
    congr 1
    funext w
    cases hl : l.live t w with
    | false => simp
    | true =>
      have hnow : l.live now w = true := by
        rw [← Bool.not_eq_false]
        intro hf
        rw [live_antitone h hf] at hl
        cases hl
      simp [hnow]

/-- A call that is shed leaves the live windows. -/
theorem current_visit_shed {t : Instant} {key : String} (hs : l.sheds v.now = true) (ht : v.now ≤ t) :
    (l.visit v).2.current ⟨t, key⟩ = l.current ⟨t, key⟩ := by
  rw [RateLimiter.visit_shed hs]
  exact current_purge_later ht

/-- A call leaves the live windows of the other keys. -/
theorem current_visit_other {t : Instant} {key : String} (hk : v.key ≠ key) (ht : v.now ≤ t) :
    (l.visit v).2.current ⟨t, key⟩ = l.current ⟨t, key⟩ := by
  have hentry := RateLimiter.getElem?_visit (l := l) hk
  have hlive : (l.visit v).2.live = l.live := RateLimiter.live_congr RateLimiter.visit_window
  rw [← current_purge_later (l := l) ht]
  unfold RateLimiter.current
  rw [hentry, hlive, RateLimiter.live_purge]

theorem Mirrors.live (h : Mirrors vs l m) : l.live = m.live := RateLimiter.live_congr h.window

theorem Mirrors.purge (h : Mirrors (v :: vs) l m) : Mirrors (v :: vs) (l.purge v.now) m := by
  refine ⟨RateLimiter.purge_limit.trans h.limit, RateLimiter.purge_window.trans h.window, h.orderly, fun key => ?_⟩
  have hlater : ∀ u ∈ v :: vs, v.now ≤ u.now := by
    intro u hu
    rcases List.mem_cons.mp hu with rfl | hu
    · exact Nat.le_refl _
    · exact (List.pairwise_cons.mp h.orderly).1 u hu
  rcases l.getElem?_purge v.now key with he | he
  · rw [he]
    exact h.seen key
  · rw [he]
    rcases h.seen key with hs | ⟨hs, hexp⟩
    · rw [hs]
      cases hm : m.seen[key]? with
      | none => exact .inl rfl
      | some w =>
        cases hl : l.live v.now w with
        | true => exact .inl (by simp [hl])
        | false =>
          refine .inr ⟨by simp [hl], fun w' hw' u hu => ?_⟩
          obtain rfl := Option.some.inj hw'
          rw [h.live] at hl
          exact live_antitone (hlater u hu) hl
    · rw [hs]
      exact .inr ⟨rfl, hexp⟩

/-- The two have the same live windows. -/
theorem Mirrors.current (h : Mirrors (v :: vs) l m) : l.current v = m.current v := by
  unfold RateLimiter.current
  rw [h.live]
  rcases h.seen v.key with hs | ⟨hs, hexp⟩
  · rw [hs]
  · rw [hs]
    symm
    rw [Option.filter_none, Option.filter_eq_none_iff]
    intro w hw
    simp [hexp w hw v List.mem_cons_self]

theorem Mirrors.tail (h : Mirrors (v :: vs) l m) : Mirrors vs l m :=
  ⟨h.limit, h.window, (List.pairwise_cons.mp h.orderly).2, fun key => (h.seen key).imp_right
    fun ⟨hs, hexp⟩ => ⟨hs, fun w hw u hu => hexp w hw u (List.mem_cons_of_mem _ hu)⟩⟩

theorem Mirrors.put (h : Mirrors vs l m) (key : String) (w : Window) : Mirrors vs (l.put key w) (m.put key w) := by
  refine ⟨h.limit, h.window, h.orderly, fun k => ?_⟩
  rw [l.getElem?_put, m.getElem?_put]
  by_cases hk : key = k
  · rw [if_pos hk, if_pos hk]
    exact .inl rfl
  · rw [if_neg hk, if_neg hk]
    exact h.seen k

theorem Mirrors.hit (h : Mirrors (v :: vs) l m) : (l.hit v.now v.key).1 = (m.hit v.now v.key).1 ∧
    Mirrors vs (l.hit v.now v.key).2 (m.hit v.now v.key).2 := by
  cases hc : m.current v with
  | some w =>
    rw [RateLimiter.hit_current hc, RateLimiter.hit_current (h.current.trans hc), h.limit]
    exact ⟨rfl, h.tail.put _ _⟩
  | none =>
    rw [RateLimiter.hit_opens hc, RateLimiter.hit_opens (h.current.trans hc)]
    exact ⟨rfl, h.tail.put _ _⟩

/-- The simulation, with calls `us` that come after the run. -/
theorem mirrors_run (limit : UInt32) (window : Duration) (us : List Visit) (hvs : Orderly (vs ++ us)) :
    let served := (turns RateLimiter.visit (.new limit window) vs).filter fun e => !e.state.sheds e.input.now
    served.map Turn.answer =
        (turns RateLimiter.reference (.new limit window) (served.map Turn.input)).map Turn.answer ∧
      Mirrors us (run RateLimiter.visit (.new limit window) vs)
        (run RateLimiter.reference (.new limit window) (served.map Turn.input)) := by
  refine skipping_simulation (fun l v => l.sheds v.now) (fun vs => Mirrors (vs ++ us)) ?_ ?_ vs _ _
    ⟨rfl, rfl, hvs, fun _ => .inl rfl⟩
  · intro v vs l m h hs
    rw [RateLimiter.visit_shed hs]
    exact h.purge.tail
  · intro v vs l m h hs
    rw [RateLimiter.visit_hit hs]
    exact h.purge.hit

/-- **The bounded limiter refines the unbounded one.** Of a run of calls at
instants that do not go back, the answers to those that are not shed are what
the reference limiter answers to just these; and at any later instant every
key has the live window that it has there. -/
theorem unshed_answers (limit : UInt32) (window : Duration) (vs : List Visit) (hvs : Orderly vs) :
    let served := (turns RateLimiter.visit (.new limit window) vs).filter fun e => !e.state.sheds e.input.now
    served.map Turn.answer =
        (turns RateLimiter.reference (.new limit window) (served.map Turn.input)).map Turn.answer ∧
      ∀ v : Visit, (∀ u ∈ vs, u.now ≤ v.now) → (run RateLimiter.visit (.new limit window) vs).current v =
        (run RateLimiter.reference (.new limit window) (served.map Turn.input)).current v := by
  refine ⟨(mirrors_run limit window [] (by simpa using hvs)).1, fun v hv => ?_⟩
  have hafter : Orderly (vs ++ [v]) := List.pairwise_append.mpr ⟨hvs, List.pairwise_singleton _ _, by simpa using hv⟩
  exact (mirrors_run limit window [v] hafter).2.current

/-- A crowd of `maxTracked` keys, a late call, and one of the crowd again after the
window. -/
def Sample.crush : List Visit := crowd maxTracked ++ [⟨0, "late"⟩, ⟨minute, "0"⟩]

theorem Sample.crush_run (limit : UInt32) : run RateLimiter.visit (.new limit minute) crush =
    (((run RateLimiter.visit (.new limit minute) (crowd maxTracked)).visit ⟨0, "late"⟩).2.visit ⟨minute, "0"⟩).2 := by
  rw [crush, run_append, run_cons, run_cons, run_nil]

/-- The late call is shed, and the table is purged for the last one. -/
theorem Crowded.crush (h : Crowded l maxTracked) (hwindow : l.window = minute) :
    l.sheds 0 = true ∧ ((l.visit ⟨0, "late"⟩).2.visit ⟨minute, "0"⟩).2.seen.size = 1 ∧
      ((l.visit ⟨0, "late"⟩).2.visit ⟨minute, "0"⟩).2.current ⟨minute, "0"⟩ = some ⟨minute, 1⟩ := by
  have hwin : 0 < l.window := by
    rw [hwindow]
    decide
  have hs : l.sheds 0 = true := sheds_iff.mpr (Nat.le_of_eq (h.tracked hwin).symm)
  rw [RateLimiter.visit_shed (v := ⟨0, "late"⟩) hs]
  have hfull : (l.purge 0).seen.size ≥ maxTracked := of_decide_eq_true hs
  have hwindow' : (l.purge 0).window = minute := RateLimiter.purge_window.trans hwindow
  -- a minute later every entry has expired
  have hdead : ∀ (key : String) (w : Window), (l.purge 0).seen[key]? = some w → (l.purge 0).live minute w = false := by
    intro key w hw
    obtain ⟨rfl, -⟩ := h.only key w (RateLimiter.getElem?_of_purge hw)
    unfold RateLimiter.live
    rw [hwindow']
    decide
  generalize l.purge 0 = m at hfull hwindow' hdead
  have hpurge : m.purge minute = m.retain minute := if_pos hfull
  have hempty : (m.purge minute).seen.isEmpty = true := by
    rw [hpurge]
    exact Std.HashMap.isEmpty_filter_iff.mpr fun key hk => hdead _ _ (Std.HashMap.getElem?_eq_some_getElem hk)
  have hsize : (m.purge minute).seen.size = 0 := by rwa [Std.HashMap.isEmpty_eq_size_eq_zero, beq_iff_eq] at hempty
  have hopen : m.sheds minute = false := decide_eq_false (by rw [hsize]; decide)
  have hnone : m.current ⟨minute, "0"⟩ = none := Option.filter_eq_none_iff.mpr fun w hw => by
    rw [hdead _ w hw]
    exact Bool.false_ne_true
  rw [RateLimiter.visit_opens (v := ⟨minute, "0"⟩) hopen hnone]
  refine ⟨hs, ?_, RateLimiter.current_put (v := ⟨minute, "0"⟩) (decide_eq_true ?_)⟩
  · have hmem : "0" ∉ (m.purge minute).seen := Std.HashMap.isEmpty_iff_forall_not_mem.mp hempty "0"
    show ((m.purge minute).seen.insert "0" ⟨minute, 1⟩).size = 1
    rw [Std.HashMap.size_insert, if_neg hmem, hsize]
  · rw [RateLimiter.purge_window, hwindow']
    decide

theorem unshed_answers_crush :
    let served := (turns RateLimiter.visit (.new 1 minute) Sample.crush).filter fun e => !e.state.sheds e.input.now
    (run RateLimiter.visit (.new 1 minute) (crowd maxTracked)).sheds 0 = true ∧
      (run RateLimiter.visit (.new 1 minute) Sample.crush).seen.size = 1 ∧
      served.map Turn.answer =
        (turns RateLimiter.reference (.new 1 minute) (served.map Turn.input)).map Turn.answer ∧
      (run RateLimiter.reference (.new 1 minute) (served.map Turn.input)).current ⟨minute, "0"⟩ = some ⟨minute, 1⟩ := by
  have hord : Orderly Sample.crush := by
    refine List.pairwise_append.mpr ⟨?_, by simp, fun u hu v _ => ?_⟩
    · exact List.pairwise_of_forall_mem_list fun u hu v hv => by rw [crowd_now hu, crowd_now hv]
    · rw [crowd_now hu]
      exact Nat.zero_le _
  have hlast : ∀ u ∈ Sample.crush, u.now ≤ minute := by
    intro u hu
    rcases List.mem_append.mp hu with hu | hu
    · rw [crowd_now hu]
      exact Nat.zero_le _
    · rcases List.mem_cons.mp hu with rfl | hu
      · exact Nat.zero_le _
      · rw [List.mem_singleton.mp hu]
  obtain ⟨hanswers, hcurrent⟩ := unshed_answers 1 minute Sample.crush hord
  obtain ⟨hs, hsize, hcur⟩ := (crowd_crowded 1 minute maxTracked (Nat.le_refl _)).crush (RateLimiter.run_window 1 minute _)
  rw [← Sample.crush_run] at hsize hcur
  exact ⟨hs, hsize, hanswers, (hcurrent ⟨minute, "0"⟩ hlast).symm.trans hcur⟩

end HarnessRegistry

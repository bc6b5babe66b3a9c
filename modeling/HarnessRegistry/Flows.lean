/-
# Whether the poll limit lets a permitted flow through

`main` derives the limit of polls from that of starts, so that the two cannot
drift into a combination that throttles a flow the start limit has permitted.
But the two windows are anchored at calls of their own, and a flow may be
polled long after it was started: polls of flows from many start windows can
meet in one poll window, whose limit is two hundred polls for each start of
*one* window. The polls of a client all pass exactly when no span of its
polls holds more than that (`polls_admitted_iff`), which is so as long as they
are of at most `enrollRateLimit` flows in any one window.

Key definitions: `Deed`, `Permitted`, `instantsOf`, `flowsFrom`.
Key theorems: `number_le_count`, `flow_polls_le`, `polls_admitted_iff`,
`polls_throttled`.
-/
import HarnessRegistry.Replica
import HarnessRegistry.Spans

namespace HarnessRegistry

open Machine

/-! ### Starts and polls -/

/-- What a call of the two handlers is for. -/
inductive Ask
  | start
  | poll
deriving DecidableEq

/-- A client starts a flow, or polls one. -/
structure Deed where
  now : Instant
  key : String
  ask : Ask
  flow : ℕ

/-- The limiter that the handler asks. -/
def Ask.limiter : Ask → Limiter
  | .start => .enroll
  | .poll => .enrollPoll

/-- The limiter, and the call of it. -/
def Deed.route (d : Deed) : Limiter × Visit := (d.ask.limiter, ⟨d.now, d.key⟩)

/-- The answer of that limiter. -/
def Deed.step (ls : Limiters) (d : Deed) : Bool × Limiters := ls.check d.route.1 d.now d.key

/-- A deed, the limiters that met it, and the answer. -/
abbrev Done := Turn Limiters Deed Bool

/-- The client polls only flows whose start was admitted, within 900 seconds of
it, and each at most once every 5 seconds. -/
structure Permitted (key : String) (es : List Done) : Prop where
  started : ∀ pre e post, es = pre ++ e :: post → e.input.key = key → e.input.ask = .poll →
    ∃ b ∈ pre, b.input.key = key ∧ b.input.ask = .start ∧ b.input.flow = e.input.flow ∧ b.answer = true ∧
      e.input.now ≤ b.input.now + fromSecs 900
  spaced : es.Pairwise fun d e => d.input.key = key → e.input.key = key → d.input.ask = .poll → e.input.ask = .poll →
    d.input.flow = e.input.flow → d.input.now + fromSecs 5 ≤ e.input.now
  distinct : es.Pairwise fun d e => ¬ (d.input.key = key ∧ e.input.key = key ∧ d.input.ask = .start ∧
    e.input.ask = .start ∧ d.input.flow = e.input.flow)

/-- The client's starts, or its polls. -/
def deedsOf (ask : Ask) (key : String) (ds : List Deed) : List Deed := ds.filter fun d => d.ask = ask ∧ d.key = key

/-- When the client starts, or polls. -/
def instantsOf (ask : Ask) (key : String) (ds : List Deed) : List ℕ := (deedsOf ask key ds).map Deed.now

/-- The polls of the client in the window that starts at `t`. -/
def pollsFrom (key : String) (window t : ℕ) (ds : List Deed) : List Deed :=
  (deedsOf .poll key ds).filter fun d => t ≤ d.now ∧ d.now < t + window

/-- The flows it polls then. -/
def flowsFrom (key : String) (window t : ℕ) (ds : List Deed) : Finset ℕ :=
  ((pollsFrom key window t ds).map Deed.flow).toFinset

variable {rates : Rates} {key : String} {ds : List Deed} {es : List Done} {window : ℕ}

/-! ### What a span holds -/

/-- A call's number is no more than the calls there were since its span opened. -/
theorem number_le_count (hwin : 0 < window) : ∀ (ts us : List ℕ) (last : Option Place), ts.Pairwise (· ≤ ·) →
    (∀ p ∈ last, (∀ t ∈ ts, p.opening ≤ t) ∧ p.number ≤ us.countP fun t => p.opening ≤ t ∧ t < p.opening + window) →
    ∀ p ∈ places window last ts, p.number ≤ (us ++ ts).countP fun t => p.opening ≤ t ∧ t < p.opening + window
  | [], _, _, _, _ => by simp [places]
  | t :: ts, us, last, hts, hlast => by
    obtain ⟨hafter, hts'⟩ := List.pairwise_cons.mp hts
    have hnext : (∀ u ∈ t :: ts, (Place.next window last t).opening ≤ u) ∧
        (Place.next window last t).number ≤ (us ++ [t]).countP fun u =>
          (Place.next window last t).opening ≤ u ∧ u < (Place.next window last t).opening + window := by
      have hopen : (∀ u ∈ t :: ts, t ≤ u) ∧ 1 ≤ (us ++ [t]).countP fun u => t ≤ u ∧ u < t + window := by
        refine ⟨fun u hu => ?_, ?_⟩
        · rcases List.mem_cons.mp hu with rfl | hu
          · exact Nat.le_refl _
          · exact hafter u hu
        · rw [List.countP_append, List.countP_singleton, if_pos (by simpa using hwin)]
          exact Nat.le_add_left _ _
      cases last with
      | none => exact hopen
      | some p =>
        obtain ⟨hp, hcount⟩ := hlast p rfl
        by_cases hin : t < p.opening + window
        · rw [show Place.next window (some p) t = ⟨p.opening, p.number + 1⟩ from if_pos hin]
          refine ⟨hp, ?_⟩
          rw [List.countP_append, List.countP_singleton, if_pos (by simpa using ⟨hp t List.mem_cons_self, hin⟩)]
          exact Nat.succ_le_succ hcount
        · rw [show Place.next window (some p) t = ⟨t, 1⟩ from if_neg hin]
          exact hopen
    have hrest := number_le_count hwin ts (us ++ [t]) (some (Place.next window last t)) hts' fun p hp => by
      rw [← Option.some.inj hp]
      exact ⟨fun u hu => hnext.1 u (List.mem_cons_of_mem _ hu), hnext.2⟩
    rw [List.append_assoc, List.singleton_append] at hrest
    rw [places, List.forall_mem_cons]
    have hsub : (us ++ [t]).Sublist (us ++ t :: ts) := (List.singleton_sublist.mpr List.mem_cons_self).append_left us
    exact ⟨hnext.2.trans hsub.countP_le, hrest⟩

/-- Instants that lie `gap` apart, in a stretch of time. -/
theorem spaced_length {gap stop : ℕ} : ∀ (ts : List ℕ) (start : ℕ), ts.Pairwise (fun s t => s + gap ≤ t) →
    (∀ t ∈ ts, start ≤ t ∧ t ≤ stop) → start ≤ stop + gap → start + ts.length * gap ≤ stop + gap
  | [], _, _, _, h => by simpa using h
  | t :: ts, start, hgap, hin, _ => by
    obtain ⟨hnext, hgap'⟩ := List.pairwise_cons.mp hgap
    obtain ⟨hlow, hhigh⟩ := hin t List.mem_cons_self
    have hrest := spaced_length ts (t + gap) hgap' (fun u hu => ⟨hnext u hu, (hin u (List.mem_cons_of_mem _ hu)).2⟩)
      (Nat.add_le_add_right hhigh gap)
    rw [List.length_cons, Nat.succ_mul]
    omega

/-- What occurs at most `n` times each. -/
theorem length_le_of_count {fs : List ℕ} {n : ℕ} (h : ∀ f, fs.count f ≤ n) : fs.length ≤ fs.toFinset.card * n := by
  calc fs.length = ∑ f ∈ fs.toFinset, fs.count f := (List.sum_toFinset_count_eq_length fs).symm
    _ ≤ ∑ _f ∈ fs.toFinset, n := Finset.sum_le_sum fun f _ => h f
    _ = fs.toFinset.card * n := by rw [Finset.sum_const, smul_eq_mul]

/-! ### The polls of a permitted client -/

/-- A flow that is permitted is polled at most 181 times: every 5 seconds for
900 seconds, the first included. -/
theorem flow_polls_le (hord : (es.map Turn.input).Pairwise fun d e => d.now ≤ e.now) (h : Permitted key es) (f : ℕ) :
    ((deedsOf .poll key (es.map Turn.input)).map Deed.flow).count f ≤ 181 := by
  let polls := es.filter fun e => e.input.ask = .poll ∧ e.input.key = key ∧ e.input.flow = f
  have hpolls : ∀ e ∈ polls, e ∈ es ∧ e.input.ask = .poll ∧ e.input.key = key ∧ e.input.flow = f := by
    intro e he
    obtain ⟨he, hp⟩ := List.mem_filter.mp he
    exact ⟨he, of_decide_eq_true hp⟩
  have hcount : ((deedsOf .poll key (es.map Turn.input)).map Deed.flow).count f = polls.length := by
    simp only [deedsOf, polls, List.count, List.countP_map, List.countP_filter, ← List.countP_eq_length_filter]
    refine List.countP_congr fun e _ => ?_
    simp only [Function.comp, Bool.and_eq_true, decide_eq_true_eq, beq_iff_eq]
    tauto
  have hgap : (polls.map fun e => e.input.now).Pairwise fun s t => s + fromSecs 5 ≤ t := by
    refine List.pairwise_map.mpr ?_
    refine (h.spaced.sublist List.filter_sublist).imp_of_mem fun {d e} hd he hde => ?_
    obtain ⟨-, hda, hdk, hdf⟩ := hpolls d hd
    obtain ⟨-, hea, hek, hef⟩ := hpolls e he
    exact hde hdk hek hda hea (hdf.trans hef.symm)
  -- they all follow the one start of the flow
  have hstart : ∀ e ∈ polls, ∃ b ∈ es, b.input.key = key ∧ b.input.ask = .start ∧ b.input.flow = f ∧
      b.input.now ≤ e.input.now ∧ e.input.now ≤ b.input.now + fromSecs 900 := by
    intro e he
    obtain ⟨hes, hask, hk, hf⟩ := hpolls e he
    obtain ⟨pre, post, rfl⟩ := List.append_of_mem hes
    obtain ⟨b, hb, hbk, hba, hbf, -, hle⟩ := h.started pre e post rfl hk hask
    rw [List.map_append, List.map_cons] at hord
    have hbe := (List.pairwise_append.mp hord).2.2 b.input (List.mem_map_of_mem hb) e.input List.mem_cons_self
    exact ⟨b, List.mem_append_left _ hb, hbk, hba, hbf.trans hf, hbe, hle⟩
  have hsymm : Std.Symm fun d e : Done => ¬ (d.input.key = key ∧ e.input.key = key ∧ d.input.ask = .start ∧
      e.input.ask = .start ∧ d.input.flow = e.input.flow) :=
    ⟨fun d e hde hed => hde ⟨hed.2.1, hed.1, hed.2.2.2.1, hed.2.2.1, hed.2.2.2.2.symm⟩⟩
  rw [hcount]
  cases hp : polls with
  | nil => exact Nat.zero_le _
  | cons e rest =>
    obtain ⟨b, hb, hbk, hba, hbf, hbe, hle⟩ := hstart e (by rw [hp]; exact List.mem_cons_self)
    have hin : ∀ t ∈ polls.map fun e => e.input.now, b.input.now ≤ t ∧ t ≤ b.input.now + fromSecs 900 := by
      intro t ht
      obtain ⟨d, hd, rfl⟩ := List.mem_map.mp ht
      obtain ⟨c, hc, hck, hca, hcf, hcd, hdle⟩ := hstart d hd
      have hsame : c = b := by
        by_contra hne
        exact h.distinct.forall hc hb hne ⟨hck, hbk, hca, hba, hcf.trans hbf.symm⟩
      rw [hsame] at hcd hdle
      exact ⟨hcd, hdle⟩
    have hlength := spaced_length _ b.input.now hgap hin (by omega)
    rw [List.length_map, hp] at hlength
    have h900 : fromSecs 900 = 180 * fromSecs 5 := rfl
    have h5 : fromSecs 5 = 5000000000 := rfl
    rw [h900, h5] at hlength
    omega

/-- A client that polls few flows at a time stays within the limit of every span. -/
theorem number_le_of_few {limit : ℕ} (hord : (es.map Turn.input).Pairwise fun d e => d.now ≤ e.now) (h : Permitted key es)
    (hwin : 0 < window) (hfew : ∀ t, (flowsFrom key window t (es.map Turn.input)).card ≤ limit) :
    ∀ p ∈ places window none (instantsOf .poll key (es.map Turn.input)), p.number ≤ limit * 200 := by
  have hsub : (deedsOf .poll key (es.map Turn.input)).Sublist (es.map Turn.input) := List.filter_sublist
  have htimes : (instantsOf .poll key (es.map Turn.input)).Pairwise (· ≤ ·) := List.pairwise_map.mpr (hord.sublist hsub)
  intro p hp
  have hnumber := number_le_count hwin (instantsOf .poll key (es.map Turn.input)) [] none htimes (by simp) p hp
  rw [List.nil_append] at hnumber
  have hlength : (instantsOf .poll key (es.map Turn.input)).countP (fun t => p.opening ≤ t ∧ t < p.opening + window) =
      ((pollsFrom key window p.opening (es.map Turn.input)).map Deed.flow).length := by
    unfold instantsOf pollsFrom
    rw [List.countP_map, List.length_map, ← List.countP_eq_length_filter]
    rfl
  have hcount : ∀ f, ((pollsFrom key window p.opening (es.map Turn.input)).map Deed.flow).count f ≤ 181 := by
    intro f
    have hpolls : ((pollsFrom key window p.opening (es.map Turn.input)).map Deed.flow).Sublist
        ((deedsOf .poll key (es.map Turn.input)).map Deed.flow) := List.filter_sublist.map _
    exact (hpolls.count_le f).trans (flow_polls_le hord h f)
  calc p.number ≤ ((pollsFrom key window p.opening (es.map Turn.input)).map Deed.flow).length := hnumber.trans_eq hlength
    _ ≤ (flowsFrom key window p.opening (es.map Turn.input)).card * 181 := length_le_of_count hcount
    _ ≤ limit * 181 := Nat.mul_le_mul_right _ (hfew p.opening)
    _ ≤ limit * 200 := Nat.mul_le_mul_left _ (by decide)

/-! ### The two limiters -/

/-- **Two limiters side by side**: all starts of a client pass, or all its
polls do, if they come within the limit of their spans. -/
theorem deeds_pass_iff (key : String) (ls : Limiters) (ask : Ask) (limit : UInt32) (hl : ls ask.limiter = .new limit window)
    (hlimit : 1 ≤ limit.toNat) (hwin : 0 < window) (hord : ds.Pairwise fun d e => d.now ≤ e.now)
    (hfew : (ds.map Deed.key).toFinset.card < maxTracked) :
    (∀ e ∈ turns Deed.step ls ds, e.input.key = key → e.input.ask = ask → e.answer = true) ↔
      2 ^ 32 - 1 ≤ limit.toNat ∨ ∀ p ∈ places window none (instantsOf ask key ds), p.number ≤ limit.toNat := by
  let own := ds.filter fun d => d.route.1 = ask.limiter
  let calls := own.map fun d => d.route.2
  have hask : ∀ d : Deed, d.ask.limiter = ask.limiter ↔ d.ask = ask := by
    intro d
    cases d.ask <;> cases ask <;> simp [Ask.limiter]
  have hcalls : Orderly calls := List.pairwise_map.mpr (hord.sublist List.filter_sublist)
  have hkeys : (calls.map Visit.key).toFinset.card < maxTracked := by
    refine Nat.lt_of_le_of_lt (Finset.card_le_card fun k hk => ?_) hfew
    obtain ⟨v, hv, rfl⟩ := List.mem_map.mp (List.mem_toFinset.mp hk)
    obtain ⟨d, hd, rfl⟩ := List.mem_map.mp hv
    exact List.mem_toFinset.mpr (List.mem_map_of_mem (List.mem_filter.mp hd).1)
  have htimes : timesOf key calls = instantsOf ask key ds := by
    simp only [timesOf, calls, own, instantsOf, deedsOf, List.filter_map, List.filter_filter, List.map_map]
    congr 1
    refine List.filter_congr fun d _ => ?_
    simp only [Function.comp, Deed.route, hask, Bool.beq_eq_decide_eq, Bool.decide_and]
    rw [Bool.and_comm]
  have hpass := all_pass_iff limit window calls key hlimit hwin hcalls hkeys
  have hturns := turns_routed RateLimiter.visit Deed.route ask.limiter ds ls
  rw [hl] at hturns
  rw [htimes, ← hturns, List.forall_mem_map] at hpass
  rw [← hpass]
  constructor
  · intro h e he hk
    obtain ⟨he, hp⟩ := List.mem_filter.mp he
    exact h e he hk ((hask _).mp (of_decide_eq_true hp))
  · intro h e he hk hp
    exact h e (List.mem_filter.mpr ⟨he, decide_eq_true ((hask _).mpr hp)⟩) hk

theorem pollLimit_toNat (rates : Rates) :
    rates.pollLimit.toNat = min (rates.enrollRateLimit.toNat * 200) (2 ^ 32 - 1) := by
  unfold Rates.pollLimit saturatingMul
  rw [UInt32.toNat_ofNat_of_lt' ?_]
  · rfl
  · show min _ _ < _
    exact Nat.lt_of_le_of_lt (Nat.min_le_right _ _) (by decide)

/-- **When the poll limit lets a client through.** All polls of a client pass
if and only if no span of its polls holds more than two hundred polls for each
start in a window, or the counter cannot show more. For a permitted client
that is so if in no window it polls more flows than may be started in one. -/
theorem polls_admitted_iff (rates : Rates) (key : String) (ds : List Deed)
    (hlimit : 1 ≤ rates.enrollRateLimit.toNat) (hwindow : 1 ≤ rates.enrollRateWindowSecs)
    (hord : ds.Pairwise fun d e => d.now ≤ e.now) (hfew : (ds.map Deed.key).toFinset.card < maxTracked) :
    let done := turns Deed.step rates.limiters ds
    let window := fromSecs rates.enrollRateWindowSecs
    ((∀ e ∈ done, e.input.key = key → e.input.ask = .poll → e.answer = true) ↔
        2 ^ 32 - 1 ≤ rates.enrollRateLimit.toNat * 200 ∨
          ∀ p ∈ places window none (instantsOf .poll key ds), p.number ≤ rates.enrollRateLimit.toNat * 200) ∧
      (Permitted key done → (∀ t, (flowsFrom key window t ds).card ≤ rates.enrollRateLimit.toNat) →
        ∀ e ∈ done, e.input.key = key → e.input.ask = .poll → e.answer = true) := by
  intro done window
  have hpos : 0 < window := Nat.mul_pos hwindow (by decide)
  have hpoll := pollLimit_toNat rates
  have hiff := deeds_pass_iff key rates.limiters .poll rates.pollLimit rfl (by omega) hpos hord hfew
  have hexact : (∀ e ∈ done, e.input.key = key → e.input.ask = .poll → e.answer = true) ↔
      2 ^ 32 - 1 ≤ rates.enrollRateLimit.toNat * 200 ∨
        ∀ p ∈ places window none (instantsOf .poll key ds), p.number ≤ rates.enrollRateLimit.toNat * 200 := by
    refine hiff.trans ?_
    by_cases hmax : 2 ^ 32 - 1 ≤ rates.enrollRateLimit.toNat * 200
    · exact ⟨fun _ => .inl hmax, fun _ => .inl (by omega)⟩
    · rw [show rates.pollLimit.toNat = rates.enrollRateLimit.toNat * 200 by omega]
  refine ⟨hexact, fun hperm hflows => hexact.mpr (.inr ?_)⟩
  have hin : done.map Turn.input = ds := turns_map_input Deed.step ds rates.limiters
  have hnumber := number_le_of_few (by rwa [hin]) hperm hpos (by rwa [hin])
  rwa [hin] at hnumber

/-! ### A client that is throttled -/

/-- The client starts 201 flows, one a second, -/
def hastyStarts : List Deed := (List.range 201).map fun i => ⟨fromSecs i, "1.2.3.4", .start, i⟩

/-- and then polls each of them once, one a millisecond. -/
def hastyPolls : List Deed := (List.range 201).map fun i => ⟨fromSecs 200 + i * 10 ^ 6, "1.2.3.4", .poll, i⟩

def hasty : List Deed := hastyStarts ++ hastyPolls

theorem hasty_ordered : hasty.Pairwise fun d e => d.now ≤ e.now ∧ ¬ (d.ask = e.ask ∧ d.flow = e.flow) := by
  refine List.pairwise_append.mpr ⟨?_, ?_, ?_⟩
  · refine List.pairwise_map.mpr (List.pairwise_lt_range.imp fun {i j} hij => ?_)
    exact ⟨Nat.mul_le_mul_right _ hij.le, fun h => hij.ne h.2⟩
  · refine List.pairwise_map.mpr (List.pairwise_lt_range.imp fun {i j} hij => ?_)
    exact ⟨Nat.add_le_add_left (Nat.mul_le_mul_right _ hij.le) _, fun h => hij.ne h.2⟩
  · intro d hd e he
    obtain ⟨i, hi, rfl⟩ := List.mem_map.mp hd
    obtain ⟨j, -, rfl⟩ := List.mem_map.mp he
    refine ⟨?_, fun h => by cases h.1⟩
    have hi : i ≤ 200 := Nat.le_of_lt_succ (List.mem_range.mp hi)
    exact (Nat.mul_le_mul_right _ hi).trans (Nat.le_add_right _ _)

/-- The starts have all been answered before the first poll. -/
theorem hasty_starts_first {ls : Limiters} {pre post : List Done} {e : Done}
    (hsplit : turns Deed.step ls hasty = pre ++ e :: post) (hask : e.input.ask = .poll) :
    turns Deed.step ls hastyStarts ⊆ pre := by
  have hparts := turns_append Deed.step hastyPolls hastyStarts ls
  rw [show hastyStarts ++ hastyPolls = hasty from rfl, hsplit] at hparts
  rcases List.append_eq_append_iff.mp hparts with ⟨mid, hstart, hrest⟩ | ⟨mid, hpre, -⟩
  · cases mid with
    | nil =>
      rw [hstart, List.append_nil]
      exact List.Subset.refl _
    | cons b mid =>
      obtain ⟨rfl, -⟩ := List.cons.inj hrest
      have hmem : e ∈ turns Deed.step ls hastyStarts := by
        rw [hstart]
        simp
      obtain ⟨i, -, hi⟩ := List.mem_map.mp (turns_input hmem)
      rw [← hi] at hask
      cases hask
  · rw [hpre]
    exact List.subset_append_left _ _

/-- If its starts are admitted, all this is permitted. -/
theorem hasty_permitted {ls : Limiters} (hstarts : ∀ e ∈ turns Deed.step ls hasty, e.input.ask = .start → e.answer = true) :
    Permitted "1.2.3.4" (turns Deed.step ls hasty) := by
  have hin := turns_map_input Deed.step hasty ls
  have hdone : (turns Deed.step ls hasty).Pairwise fun d e => ¬ (d.input.ask = e.input.ask ∧ d.input.flow = e.input.flow) := by
    have h := hasty_ordered
    rw [← hin] at h
    exact (List.pairwise_map.mp h).imp fun h => h.2
  refine ⟨?_, hdone.imp fun h _ _ hd he hf => absurd ⟨hd.trans he.symm, hf⟩ h,
    hdone.imp fun h hall => h ⟨hall.2.2.1.trans hall.2.2.2.1.symm, hall.2.2.2.2⟩⟩
  intro pre e post hsplit _ hask
  have hpre := hasty_starts_first hsplit hask
  have he : e.input ∈ hasty := by
    rw [← hin, hsplit]
    simp
  obtain ⟨i, hi, hei⟩ : ∃ i ∈ List.range 201, (⟨fromSecs 200 + i * 10 ^ 6, "1.2.3.4", .poll, i⟩ : Deed) = e.input := by
    rcases List.mem_append.mp he with h | h
    · obtain ⟨i, -, hi⟩ := List.mem_map.mp h
      rw [← hi] at hask
      cases hask
    · exact List.mem_map.mp h
  have hstart : (⟨fromSecs i, "1.2.3.4", .start, i⟩ : Deed) ∈ (turns Deed.step ls hastyStarts).map Turn.input := by
    rw [turns_map_input]
    exact List.mem_map_of_mem hi
  obtain ⟨b, hb, hbi⟩ := List.mem_map.mp hstart
  have hbd : b ∈ turns Deed.step ls hasty := by
    rw [hsplit]
    exact List.mem_append_left _ (hpre hb)
  refine ⟨b, hpre hb, by rw [hbi], by rw [hbi], by rw [hbi, ← hei], hstarts b hbd (by rw [hbi]), ?_⟩
  rw [hbi, ← hei]
  have hi : i ≤ 200 := Nat.le_of_lt_succ (List.mem_range.mp hi)
  have hsum : 200 * 10 ^ 9 + i * 10 ^ 6 ≤ i * 10 ^ 9 + 900 * 10 ^ 9 := by omega
  exact hsum

/-- **Permitted, and throttled**: with one start a second, the last of these
polls is refused. -/
theorem polls_throttled :
    let rates : Rates := ⟨60, 60, 1, 1⟩
    let done := turns Deed.step rates.limiters hasty
    (hasty.Pairwise fun d e => d.now ≤ e.now) ∧ (hasty.map Deed.key).toFinset.card < maxTracked ∧
      Permitted "1.2.3.4" done ∧
      ¬ ∀ e ∈ done, e.input.key = "1.2.3.4" → e.input.ask = .poll → e.answer = true := by
  intro rates done
  have hord : hasty.Pairwise fun d e => d.now ≤ e.now := hasty_ordered.imp fun h => h.1
  have hfew : (hasty.map Deed.key).toFinset.card < maxTracked :=
    Nat.lt_of_le_of_lt (List.toFinset_card_le _) (by simp [hasty, hastyStarts, hastyPolls, maxTracked])
  have hkey : ∀ d ∈ hasty, d.key = "1.2.3.4" := by
    intro d hd
    rcases List.mem_append.mp hd with h | h <;> obtain ⟨i, -, rfl⟩ := List.mem_map.mp h <;> rfl
  -- every start opens a span of its own
  have hstarts := (deeds_pass_iff "1.2.3.4" rates.limiters .start 1 rfl (by decide) (by decide : 0 < fromSecs 1) hord hfew).mpr
    (.inr (by decide +kernel))
  refine ⟨hord, hfew, hasty_permitted fun e he => hstarts e he (hkey _ (turns_input he)), ?_⟩
  -- the polls all fall into one
  rw [deeds_pass_iff "1.2.3.4" rates.limiters .poll rates.pollLimit rfl (by decide) (by decide : 0 < fromSecs 1) hord hfew]
  decide +kernel

/-- As configured by default, a flow that is polled after five seconds, and after ten. -/
theorem polls_admitted_iff_one :
    let rates : Rates := ⟨60, 60, 10, 3600⟩
    let ds : List Deed := [⟨0, "1.2.3.4", .start, 0⟩, ⟨fromSecs 5, "1.2.3.4", .poll, 0⟩, ⟨fromSecs 10, "1.2.3.4", .poll, 0⟩]
    ∀ e ∈ turns Deed.step rates.limiters ds, e.input.key = "1.2.3.4" → e.input.ask = .poll → e.answer = true := by
  intro rates ds
  exact (polls_admitted_iff rates "1.2.3.4" ds (by decide) (by decide) (by decide)
    (Nat.lt_of_le_of_lt (List.toFinset_card_le _) (by decide))).1.mpr (.inr (by decide))

end HarnessRegistry

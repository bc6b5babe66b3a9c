/-
# Which calls pass when nobody is shed

While fewer than `maxTracked` keys call, no call is shed, and the answers to
one key depend on the instants of its own calls alone. These fall into spans:
the first call opens one, and so does every call that comes when the last span
is over. A call has a place, the opening of its span and its number in it, and
passes when the number, as far as 32 bits hold it, is within the limit.

Key definitions: `Place`, `places`, `Follows`, `KeyedBy`.
Key theorems: `Follows.visit`, `answers_iff`, `places_wrap`, `all_pass_iff`.
-/
import HarnessRegistry.Reference
import HarnessRegistry.Shed

namespace HarnessRegistry

open Machine

/-- Where a call falls: the opening of its span, and its number in it. -/
structure Place where
  opening : ℕ
  number : ℕ

/-- The place of a call at `t`, after a last one. -/
def Place.next (window : ℕ) : Option Place → ℕ → Place
  | some p, t => if t < p.opening + window then ⟨p.opening, p.number + 1⟩ else ⟨t, 1⟩
  | none, t => ⟨t, 1⟩

/-- The places of calls at these instants. -/
def places (window : ℕ) : Option Place → List ℕ → List Place
  | _, [] => []
  | last, t :: ts => Place.next window last t :: places window (some (Place.next window last t)) ts

/-- The instants of a key's calls. -/
def timesOf (key : String) (vs : List Visit) : List ℕ := (vs.filter (·.key == key)).map Visit.now

/-- From `now` on, the key's window is the span of its last call. -/
def Follows (l : RateLimiter) (key : String) (last : Option Place) (now : ℕ) : Prop :=
  ∀ t : ℕ, now ≤ t → l.current ⟨t, key⟩ =
    (last.filter fun p => t < p.opening + l.window).map fun p => ⟨p.opening, UInt32.ofNat p.number⟩

/-- Only these keys have entries. -/
def KeyedBy (l : RateLimiter) (keys : Finset String) : Prop := ∀ key ∈ l.seen, key ∈ keys

variable {l : RateLimiter} {key : String} {last : Option Place} {now : ℕ} {v : Visit} {keys : Finset String}

/-! ### Nobody is shed -/

theorem KeyedBy.size_le (h : KeyedBy l keys) : l.seen.size ≤ keys.card := by
  have hsub : l.seen.keys.toFinset ⊆ keys := by
    intro key hk
    exact h key (Std.HashMap.mem_keys.mp (List.mem_toFinset.mp hk))
  calc l.seen.size = l.seen.keys.toFinset.card := (card_keys l).symm
    _ ≤ keys.card := Finset.card_le_card hsub

theorem KeyedBy.unshed (h : KeyedBy l keys) (hfew : keys.card < maxTracked) (now : Instant) : l.sheds now = false := by
  rw [Bool.eq_false_iff, ne_eq, sheds_iff]
  have hsize := h.size_le
  have htracked := tracked_le_size l now
  omega

theorem KeyedBy.visit (h : KeyedBy l keys) (hv : v.key ∈ keys) : KeyedBy (l.visit v).2 keys := by
  intro key hk
  by_cases he : v.key = key
  · rwa [← he]
  · rw [Std.HashMap.mem_iff_isSome_getElem?, RateLimiter.getElem?_visit he] at hk
    obtain ⟨w, hw⟩ := Option.isSome_iff_exists.mp hk
    refine h key (Std.HashMap.mem_iff_isSome_getElem?.mpr ?_)
    rw [RateLimiter.getElem?_of_purge hw]
    rfl

/-! ### One call -/

theorem follows_put {p : Place} (hwin : 0 < l.window) :
    Follows (l.put key ⟨p.opening, UInt32.ofNat p.number⟩) key (some p) now := by
  intro t _
  rw [RateLimiter.current_put_self, RateLimiter.put_window]
  simp only [RateLimiter.elapsed_lt_iff (.inl hwin)]
  by_cases ht : t < p.opening + l.window
  · simp [Option.filter, ht]
  · simp [Option.filter, ht]

/-- A call of another key. -/
theorem Follows.visit_other (h : Follows l key last now) (hnow : now ≤ v.now) (hk : v.key ≠ key) :
    Follows (l.visit v).2 key last v.now := by
  intro t ht
  rw [current_visit_other hk ht, RateLimiter.visit_window]
  exact h t (hnow.trans ht)

/-- A call of the key: it is at the next place, and passes if that is within
the limit, as far as 32 bits hold it. -/
theorem Follows.visit (h : Follows l v.key last now) (hnow : now ≤ v.now) (hs : l.sheds v.now = false)
    (hlimit : 1 ≤ l.limit.toNat) (hwin : 0 < l.window) :
    ((l.visit v).1 = true ↔ (Place.next l.window last v.now).number % 2 ^ 32 ≤ l.limit.toNat) ∧
      Follows (l.visit v).2 v.key (some (Place.next l.window last v.now)) v.now := by
  have hcur := h v.now hnow
  have hopen : l.current v = none → Place.next l.window last v.now = ⟨v.now, 1⟩ →
      ((l.visit v).1 = true ↔ (Place.next l.window last v.now).number % 2 ^ 32 ≤ l.limit.toNat) ∧
        Follows (l.visit v).2 v.key (some (Place.next l.window last v.now)) v.now := by
    intro hc hnext
    rw [RateLimiter.visit_opens hs hc, hnext]
    refine ⟨by simpa using hlimit, ?_⟩
    exact follows_put (p := ⟨v.now, 1⟩) (by rwa [RateLimiter.purge_window])
  cases last with
  | none => exact hopen hcur rfl
  | some p =>
    by_cases hin : v.now < p.opening + l.window
    · have hc : l.current v = some ⟨p.opening, UInt32.ofNat p.number⟩ := by
        refine hcur.trans ?_
        simp [Option.filter, hin]
      have hnext : Place.next l.window (some p) v.now = ⟨p.opening, p.number + 1⟩ := if_pos hin
      have hsucc : UInt32.ofNat p.number + 1 = UInt32.ofNat (p.number + 1) := by simp
      rw [RateLimiter.visit_current hs hc, hnext, hsucc]
      refine ⟨?_, follows_put (p := ⟨p.opening, p.number + 1⟩) (by rwa [RateLimiter.purge_window])⟩
      simp only [decide_eq_true_eq]
      rw [UInt32.le_iff_toNat_le, UInt32.toNat_ofNat']
    · refine hopen (hcur.trans ?_) (if_neg hin)
      simp [Option.filter, hin]

/-! ### Along a run -/

/-- The answers to one key, along a run of calls by few keys. -/
theorem answers_iff (hfew : keys.card < maxTracked) : ∀ (vs : List Visit) {l : RateLimiter} {last : Option Place} {now : ℕ},
    Orderly vs → (∀ v ∈ vs, now ≤ v.now ∧ v.key ∈ keys) → KeyedBy l keys → Follows l key last now →
    1 ≤ l.limit.toNat → 0 < l.window →
    ((∀ e ∈ turns RateLimiter.visit l vs, e.input.key = key → e.answer = true) ↔
      ∀ p ∈ places l.window last (timesOf key vs), p.number % 2 ^ 32 ≤ l.limit.toNat)
  | [], _, _, _, _, _, _, _, _, _ => by simp [timesOf, places]
  | v :: vs, l, last, now, hord, hvs, hw, hf, hlimit, hwin => by
    obtain ⟨hnow, hin⟩ := hvs v List.mem_cons_self
    obtain ⟨hafter, hord'⟩ := List.pairwise_cons.mp hord
    have hs := hw.unshed hfew v.now
    have hvs' : ∀ u ∈ vs, v.now ≤ u.now ∧ u.key ∈ keys := fun u hu =>
      ⟨hafter u hu, (hvs u (List.mem_cons_of_mem _ hu)).2⟩
    have hrest : ∀ last', Follows (l.visit v).2 key last' v.now →
        ((∀ e ∈ turns RateLimiter.visit (l.visit v).2 vs, e.input.key = key → e.answer = true) ↔
          ∀ p ∈ places l.window last' (timesOf key vs), p.number % 2 ^ 32 ≤ l.limit.toNat) := by
      intro last' hf'
      have h := answers_iff hfew vs hord' hvs' (hw.visit hin) hf' (by rwa [RateLimiter.visit_limit])
        (by rwa [RateLimiter.visit_window])
      rwa [RateLimiter.visit_limit, RateLimiter.visit_window] at h
    rw [turns_cons, List.forall_mem_cons]
    by_cases hk : v.key = key
    · subst hk
      obtain ⟨hans, hf'⟩ := hf.visit hnow hs hlimit hwin
      have htimes : timesOf v.key (v :: vs) = v.now :: timesOf v.key vs := by simp [timesOf]
      rw [htimes, places, List.forall_mem_cons, hrest _ hf']
      refine and_congr_left fun _ => ?_
      simpa using hans
    · have htimes : timesOf key (v :: vs) = timesOf key vs := by simp [timesOf, hk]
      rw [htimes, hrest _ (hf.visit_other hnow hk)]
      simp [hk]

/-- The numbers go up by one, so that they do not pass over the limit before
the counter wraps around. -/
theorem places_wrap (window : ℕ) {limit : ℕ} (hmax : limit < 2 ^ 32 - 1) : ∀ (ts : List ℕ) (last : Option Place),
    (∀ p ∈ last, p.number ≤ limit) → (∀ p ∈ places window last ts, p.number % 2 ^ 32 ≤ limit) →
    1 ≤ limit → ∀ p ∈ places window last ts, p.number ≤ limit
  | [], _, _, _, _ => by simp [places]
  | t :: ts, last, hlast, hmod, hlimit => by
    rw [places, List.forall_mem_cons] at hmod ⊢
    have hnext : (Place.next window last t).number ≤ limit + 1 := by
      cases last with
      | none => exact Nat.le_add_left _ _
      | some p =>
        have hp := hlast p rfl
        unfold Place.next
        dsimp only
        split
        · exact Nat.succ_le_succ hp
        · exact Nat.le_add_left _ _
    have hfirst : (Place.next window last t).number ≤ limit := by
      rw [← Nat.mod_eq_of_lt (show (Place.next window last t).number < 2 ^ 32 by omega)]
      exact hmod.1
    refine ⟨hfirst, places_wrap window hmax ts _ (fun p hp => ?_) hmod.2 hlimit⟩
    rw [← Option.some.inj hp]
    exact hfirst

/-- **Who passes when nobody is shed**: all the calls of a key do if and only
if they all come within the limit of their spans, or the counter cannot show
that they do not. -/
theorem all_pass_iff (limit : UInt32) (window : Duration) (vs : List Visit) (key : String)
    (hlimit : 1 ≤ limit.toNat) (hwin : 0 < window) (hord : Orderly vs)
    (hfew : (vs.map Visit.key).toFinset.card < maxTracked) :
    (∀ e ∈ turns RateLimiter.visit (.new limit window) vs, e.input.key = key → e.answer = true) ↔
      2 ^ 32 - 1 ≤ limit.toNat ∨ ∀ p ∈ places window none (timesOf key vs), p.number ≤ limit.toNat := by
  have hvs : ∀ v ∈ vs, 0 ≤ v.now ∧ v.key ∈ (vs.map Visit.key).toFinset := fun v hv =>
    ⟨Nat.zero_le _, List.mem_toFinset.mpr (List.mem_map_of_mem hv)⟩
  have hnone : KeyedBy (.new limit window) (vs.map Visit.key).toFinset := by
    intro key hk
    simp [RateLimiter.new] at hk
  have hstart : Follows (.new limit window) key none 0 := fun t _ => RateLimiter.current_new limit window
  have hans := answers_iff hfew vs hord hvs hnone hstart hlimit hwin
  refine hans.trans ⟨fun hmod => ?_, ?_⟩
  · by_cases hmax : limit.toNat < 2 ^ 32 - 1
    · exact .inr (places_wrap window hmax _ none (by simp) hmod hlimit)
    · exact .inl (Nat.not_lt.mp hmax)
  · rintro (hmax | hall) p hp
    · have hlt : p.number % 2 ^ 32 < 2 ^ 32 := Nat.mod_lt _ (by decide)
      show p.number % 2 ^ 32 ≤ limit.toNat
      omega
    · exact (Nat.mod_le _ _).trans (hall p hp)

end HarnessRegistry

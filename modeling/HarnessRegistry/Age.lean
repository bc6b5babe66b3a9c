/-
# How old an account must be

`old_enough` compares two `TimeDelta`s, the age of the account and a number of
days. A difference of two instants that chrono can represent always fits a
`TimeDelta` (`signedDurationSince_eq`); a number of days fits if it is at most
`daysMax`, and `Duration::days` panics beyond. Up to there the rule is exact
(`age_rule_iff`), and it is monotone in the clock and in the days.

Key definitions: `timeDeltaMax`, `Represented`, `signedDurationSince`, `daysMax`, `ExactAge`.
Key theorems: `signedDurationSince_eq`, `oldEnough_eq`, `oldEnough_panics`, `age_rule_iff`.
-/
import HarnessRegistry.Enroll

namespace HarnessRegistry

open Handler

variable {createdAt now : DateTime} {days : ℤ}

/-! ### Ages -/

/-- `TimeDelta::MAX`, `i64::MAX` milliseconds. -/
def timeDeltaMax : ℤ := (2 ^ 63 - 1) * 1000000

/-- From the first second of the year -262143 to the end of 262142, the range of
chrono's `DateTime<Utc>`. -/
def Represented (t : ℤ) : Prop := -8334601228800 * 1000000000 ≤ t ∧ t < (8210266876799 + 1) * 1000000000

/-- `now - created_at`: it panics beyond the range of `TimeDelta`. -/
def signedDurationSince (now createdAt : ℤ) : Option ℤ :=
  if -timeDeltaMax ≤ now - createdAt ∧ now - createdAt ≤ timeDeltaMax then some (now - createdAt) else none

theorem signedDurationSince_eq (hn : Represented now) (hc : Represented createdAt) :
    signedDurationSince now createdAt = some (now - createdAt) := by
  unfold Represented at hn hc
  refine if_pos ?_
  unfold timeDeltaMax
  omega

/-! ### The rule -/

/-- `i64::MAX` milliseconds, in whole days. -/
def daysMax : ℤ := (2 ^ 63 - 1) / 86400000

/-- With its two `TimeDelta`s written out, the rule is the code's. -/
theorem oldEnough_deltas (hn : Represented now) (hc : Represented createdAt) : oldEnough createdAt now days =
    if days ≤ 0 then some true else do
      let age ← signedDurationSince now createdAt
      let min ← durationDays days
      return decide (age ≥ min) := by
  unfold oldEnough
  rw [signedDurationSince_eq hn hc]
  cases durationDays days <;> rfl

theorem oldEnough_eq (h : days ≤ daysMax) (createdAt now : DateTime) : oldEnough createdAt now days =
    some (decide (days ≤ 0 ∨ days * 86400 * 1000000000 ≤ now - createdAt)) := by
  unfold oldEnough
  by_cases hoff : days ≤ 0
  · simp [hoff]
  · have hfits : durationDays days = some (days * 86400 * 1000000000) := by
      unfold daysMax at h
      exact if_pos (by omega)
    simp [hoff, hfits]

theorem oldEnough_panics (h : daysMax < days) (createdAt now : DateTime) : oldEnough createdAt now days = none := by
  unfold daysMax at h
  have hbeyond : durationDays days = none := if_neg (by omega)
  unfold oldEnough
  rw [if_neg (by omega), hbeyond]
  rfl

theorem le_daysMax_of_some {b : Bool} (h : oldEnough createdAt now days = some b) : days ≤ daysMax := by
  by_contra hbeyond
  rw [oldEnough_panics (Int.not_le.mp hbeyond)] at h
  cases h

theorem admits_iff : oldEnough createdAt now days = some true ↔
    days ≤ daysMax ∧ (days ≤ 0 ∨ days * 86400 * 1000000000 ≤ now - createdAt) := by
  constructor
  · intro h
    have hmax := le_daysMax_of_some h
    rw [oldEnough_eq hmax] at h
    exact ⟨hmax, by simpa using h⟩
  · rintro ⟨hmax, hold⟩
    rw [oldEnough_eq hmax]
    simpa using hold

/-- The rule does not panic, and is what it says, at any two instants. -/
def ExactAge (days : ℤ) : Prop :=
  ∀ createdAt now : DateTime, Represented createdAt → Represented now →
    ∃ b age, oldEnough createdAt now days = some b ∧ signedDurationSince now createdAt = some age ∧
      (b = true ↔ days ≤ 0 ∨ days * 86400 * 1000000000 ≤ age)

/-- **The rule is exact and total exactly up to the largest number of days that
chrono can hold.** And who is admitted is admitted from then on, and by every
minimum from one day down. -/
theorem age_rule_iff (days : ℤ) :
    (ExactAge days ↔ days ≤ daysMax) ∧
    (∀ createdAt now now' : DateTime, now ≤ now' → oldEnough createdAt now days = some true →
      oldEnough createdAt now' days = some true) ∧
    ∀ more, 0 < more → days ≤ more → ∀ createdAt now : DateTime, oldEnough createdAt now days ≠ some true →
      oldEnough createdAt now more ≠ some true := by
  refine ⟨⟨fun h => ?_, fun h createdAt now hc hn => ?_⟩, fun (createdAt now now' : ℤ) (hle : now ≤ now') h => ?_,
    fun more hpos hle createdAt now hno hyes => ?_⟩
  · have hzero : Represented 0 := by
      unfold Represented
      omega
    obtain ⟨b, -, hb, -⟩ := h 0 0 hzero hzero
    exact le_daysMax_of_some hb
  · exact ⟨_, _, oldEnough_eq h createdAt now, signedDurationSince_eq hn hc, decide_eq_true_iff⟩
  · rw [admits_iff] at h ⊢
    omega
  · refine hno (admits_iff.mpr ?_)
    rw [admits_iff] at hyes
    omega

/-- One day more than fits. -/
def Sample.immemorial : AppState :=
  { Sample.enrolling with config := { Sample.enrolling.config with minAccountAgeDays := 106751991168 } }

theorem immemorial_panics :
    Sample.immemorial.config.minAccountAgeDays < 2 ^ 63 ∧ Represented Sample.today ∧
      oldEnough Sample.ada.createdAt Sample.today Sample.immemorial.config.minAccountAgeDays = none ∧
      checkAccountAge Sample.immemorial Sample.ada Sample.today = crash ∧
      ¬ ExactAge Sample.immemorial.config.minAccountAgeDays := by
  have hpanics : oldEnough Sample.ada.createdAt Sample.today Sample.immemorial.config.minAccountAgeDays = none := by decide
  refine ⟨by decide, ⟨by decide, by decide⟩, hpanics, ?_, fun h => ?_⟩
  · unfold checkAccountAge
    simp only [hpanics]
  · obtain ⟨b, -, hb, -⟩ := h Sample.ada.createdAt Sample.today ⟨by decide, by decide⟩ ⟨by decide, by decide⟩
    cases hpanics.symm.trans hb

end HarnessRegistry

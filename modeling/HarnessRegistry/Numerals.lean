/-
# Decimal numerals

A reader of decimal integers of a bounded type: an optional sign, then digits
only, at least one, read from the left with a check for overflow at every digit
(`unsigned`, `signed`). It accepts digits exactly if their value is in range
(`number_eq_some`): the check at every digit never refuses what fits. So what is
written is read back (`unsigned_repr`, `signed_repr`).

Key definitions: `readDigits`, `unsigned`, `signed`.
Key theorems: `readDigits_eq_some`, `number_eq_some`, `unsigned_repr`, `signed_repr`.
-/
import Mathlib.Data.Int.Notation
import Mathlib.Data.Nat.Notation
import Mathlib.Tactic.Common

namespace Numerals

/-- The value of a digit. -/
def digit (c : Char) : ℕ := c.toNat - '0'.toNat

/-- Read digits onto `n`; give up at what is no digit, or takes the value past
`max`. -/
def readDigits (max : ℕ) : List Char → ℕ → Option ℕ
  | [], n => some n
  | c :: cs, n => if c.isDigit && decide (10 * n + digit c ≤ max) then readDigits max cs (10 * n + digit c) else none

/-- The same of at least one digit. -/
def number (max : ℕ) (cs : List Char) : Option ℕ := if cs = [] then none else readDigits max cs 0

/-- An unsigned integer up to `max`: a `+` is allowed, a `-` is not. -/
def unsigned (max : ℕ) : List Char → Option ℕ
  | '+' :: cs => number max cs
  | cs => number max cs

/-- A signed integer from `-max - 1` to `max`. -/
def signed (max : ℕ) : List Char → Option ℤ
  | '+' :: cs => (number max cs).map fun n : ℕ => (n : ℤ)
  | '-' :: cs => (number (max + 1) cs).map fun n : ℕ => -(n : ℤ)
  | cs => (number max cs).map fun n : ℕ => (n : ℤ)

variable {max n : ℕ} {cs : List Char}

/-- The value never falls as digits are read. -/
theorem le_ofDigitChars : ∀ (cs : List Char) (n : ℕ), n ≤ Nat.ofDigitChars 10 cs n
  | [], _ => Nat.le_of_eq Nat.ofDigitChars_nil.symm
  | c :: cs, n => by
    rw [Nat.ofDigitChars_cons]
    exact Nat.le_trans (by omega) (le_ofDigitChars cs _)

/-- **The check at every digit is the check of the value.** -/
theorem readDigits_eq_some : ∀ {cs : List Char} {m : ℕ}, m ≤ max →
    (readDigits max cs m = some n ↔ (∀ c ∈ cs, c.isDigit = true) ∧ Nat.ofDigitChars 10 cs m = n ∧ n ≤ max)
  | [], m, hm => by
    simp only [readDigits, Option.some.injEq, List.not_mem_nil, false_implies, implies_true, true_and,
      Nat.ofDigitChars_nil]
    exact ⟨fun h => ⟨h, h ▸ hm⟩, fun h => h.1⟩
  | c :: cs, m, hm => by
    simp only [readDigits, Bool.and_eq_true, decide_eq_true_eq, List.forall_mem_cons]
    rw [Nat.ofDigitChars_cons]
    by_cases hle : 10 * m + digit c ≤ max
    · by_cases hd : c.isDigit = true
      · rw [if_pos ⟨hd, hle⟩, readDigits_eq_some hle]
        exact ⟨fun ⟨h1, h2⟩ => ⟨⟨hd, h1⟩, h2⟩, fun ⟨h1, h2⟩ => ⟨h1.2, h2⟩⟩
      · rw [if_neg fun h => hd h.1]
        exact ⟨fun h => (by cases h), fun h => absurd h.1.1 hd⟩
    · rw [if_neg fun h => hle h.2]
      refine ⟨fun h => (by cases h), fun ⟨_, hv, hn⟩ => absurd ?_ hle⟩
      calc 10 * m + digit c ≤ Nat.ofDigitChars 10 cs (10 * m + digit c) := le_ofDigitChars _ _
        _ = n := hv
        _ ≤ max := hn

theorem number_eq_some : number max cs = some n ↔
    cs ≠ [] ∧ (∀ c ∈ cs, c.isDigit = true) ∧ Nat.ofDigitChars 10 cs 0 = n ∧ n ≤ max := by
  unfold number
  by_cases h : cs = []
  · rw [if_pos h]
    exact ⟨fun he => (by cases he), fun he => absurd h he.1⟩
  · rw [if_neg h, readDigits_eq_some (Nat.zero_le _)]
    exact ⟨fun hv => ⟨h, hv⟩, fun hv => hv.2⟩

/-- Digits that are no sign. -/
theorem unsigned_of_digits (h : ∀ c ∈ cs, c.isDigit = true) : unsigned max cs = number max cs := by
  unfold unsigned
  split
  · exact absurd (h '+' List.mem_cons_self) (by decide)
  · rfl

theorem signed_of_digits (h : ∀ c ∈ cs, c.isDigit = true) : signed max cs = (number max cs).map fun n : ℕ => (n : ℤ) := by
  unfold signed
  split
  · exact absurd (h '+' List.mem_cons_self) (by decide)
  · exact absurd (h '-' List.mem_cons_self) (by decide)
  · rfl

/-- What is written is read back. -/
theorem number_repr (h : n ≤ max) : number max n.repr.toList = some n := by
  rw [number_eq_some, Nat.toList_repr]
  refine ⟨fun he => ?_, fun c hc => Nat.isDigit_of_mem_toDigits (by decide) (by decide) hc, Nat.ofDigitChars_ten_toDigits, h⟩
  have := Nat.length_toDigits_pos (b := 10) (n := n)
  rw [he] at this
  cases this

theorem digits_repr (n : ℕ) : ∀ c ∈ n.repr.toList, c.isDigit = true := by
  rw [Nat.toList_repr]
  exact fun c hc => Nat.isDigit_of_mem_toDigits (by decide) (by decide) hc

theorem unsigned_repr (h : n ≤ max) : unsigned max n.repr.toList = some n := by
  rw [unsigned_of_digits (digits_repr n), number_repr h]

theorem signed_repr {i : ℤ} (hl : -(max : ℤ) - 1 ≤ i) (hu : i ≤ max) : signed max i.repr.toList = some i := by
  by_cases hi : 0 ≤ i
  · obtain ⟨n, rfl⟩ := Int.eq_ofNat_of_zero_le hi
    have hn : n ≤ max := by exact_mod_cast hu
    rw [Int.repr_eq_if, if_pos (by omega), Int.toNat_natCast, signed_of_digits (digits_repr n), number_repr hn]
    rfl
  · rw [Int.repr_eq_if, if_neg (by omega)]
    have hn : (-i).toNat ≤ max + 1 := by omega
    have hneg : ("-" ++ (-i).toNat.repr).toList = '-' :: (-i).toNat.repr.toList := by rw [String.toList_append]; rfl
    rw [hneg, signed, number_repr hn]
    simp only [Option.map_some, Option.some.injEq]
    omega

end Numerals

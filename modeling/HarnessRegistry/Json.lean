/-
# Compact JSON texts

Strings, arrays and objects without white space. In a string the quote, the
backslash and the control characters are escaped, those that have a letter of
their own in two bytes and the others in six; every other character stands for
itself. A text is as long as what it is made of, and its escapes (`bytes_literal`,
`bytes_array`, `bytes_object`).

Key definitions: `escapeChar`, `extra`, `escapes`, `literal`, `array`, `object`.
Key theorems: `bytes_escapeChar`, `bytes_literal`, `bytes_array`, `bytes_object`, `escapes_le`.
-/
import Mathlib.Algebra.BigOperators.Group.List.Basic
import Mathlib.Algebra.GroupWithZero.Nat
import Mathlib.Tactic.Common
import HarnessRegistry.Words

namespace Json

/-- The bytes of a text in UTF-8. -/
def bytes (t : List Char) : ℕ := (t.map Char.utf8Size).sum

@[simp] theorem bytes_nil : bytes [] = 0 := rfl

@[simp] theorem bytes_cons (c : Char) (t : List Char) : bytes (c :: t) = c.utf8Size + bytes t := rfl

@[simp] theorem bytes_append (t u : List Char) : bytes (t ++ u) = bytes t + bytes u := by simp [bytes]

/-! ### Escapes -/

/-- The characters whose escape is a letter, and the letter. -/
def letters : List (Char × Char) :=
  [('"', '"'), ('\\', '\\'), ('\x08', 'b'), ('\t', 't'), ('\n', 'n'), ('\x0C', 'f'), ('\r', 'r')]

def hexDigit (n : ℕ) : Char := if n < 10 then Char.ofNat (48 + n) else Char.ofNat (87 + n)

def escapeChar (c : Char) : List Char :=
  match letters.lookup c with
  | some l => ['\\', l]
  | none => if c.toNat < 32 then ['\\', 'u', '0', '0', hexDigit (c.toNat / 16), hexDigit (c.toNat % 16)] else [c]

/-- The bytes that the escape adds. -/
def extra (c : Char) : ℕ := if (letters.lookup c).isSome then 1 else if c.toNat < 32 then 5 else 0

def escapes (t : List Char) : ℕ := (t.map extra).sum

theorem utf8Size_control {c : Char} (h : c.toNat < 32) : c.utf8Size = 1 :=
  Char.utf8Size_eq_one_iff.mpr (by show c.val.toNat ≤ 127; exact (Nat.le_of_lt h).trans (by decide))

theorem bytes_escapeChar (c : Char) : bytes (escapeChar c) = c.utf8Size + extra c := by
  have hletters : (letters.all fun p => p.1.utf8Size == 1 && p.2.utf8Size == 1) = true := by decide
  have hdigits : ∀ n < 16, (hexDigit n).utf8Size = 1 := by decide
  unfold escapeChar extra
  cases hl : letters.lookup c with
  | some l =>
    have hmem : (c, l) ∈ letters := by
      obtain ⟨l₁, l₂, h, -⟩ := List.lookup_eq_some_iff.mp hl
      rw [h]
      simp
    have hsizes := List.all_eq_true.mp hletters _ hmem
    rw [Bool.and_eq_true, beq_iff_eq, beq_iff_eq] at hsizes
    obtain ⟨hc, hl⟩ := hsizes
    simp only [bytes_cons, bytes_nil, hc, hl]
    rfl
  | none =>
    by_cases hc : c.toNat < 32
    · simp [hc, utf8Size_control hc, hdigits (c.toNat / 16) (by omega), hdigits (c.toNat % 16) (by omega)]
      rfl
    · simp [hc]

theorem extra_le (c : Char) : extra c ≤ 5 * c.utf8Size := by
  have := c.utf8Size_pos
  unfold extra
  split
  · omega
  · split <;> omega

@[simp] theorem escapes_cons (c : Char) (t : List Char) : escapes (c :: t) = extra c + escapes t := rfl

/-- Escapes make a text at most six times as long. -/
theorem escapes_le (t : List Char) : escapes t ≤ 5 * bytes t := by
  induction t with
  | nil => rfl
  | cons c t ih =>
    rw [escapes_cons, bytes_cons]
    have := extra_le c
    omega

/-! ### Texts -/

def literal (t : List Char) : List Char := '"' :: t.flatMap escapeChar ++ ['"']

/-- An array of the texts of its elements. -/
def array (vs : List (List Char)) : List Char := '[' :: [','].intercalate vs ++ [']']

/-- An object of its names and the texts of their values. -/
def object (fields : List (List Char × List Char)) : List Char :=
  '{' :: [','].intercalate (fields.map fun f => literal f.1 ++ ':' :: f.2) ++ ['}']

theorem bytes_literal (t : List Char) : bytes (literal t) = bytes t + escapes t + 2 := by
  have hbody : bytes (t.flatMap escapeChar) = bytes t + escapes t := by
    induction t with
    | nil => rfl
    | cons c t ih =>
      rw [List.flatMap_cons, bytes_append, bytes_escapeChar, ih, bytes_cons, escapes_cons]
      omega
  have hquote : '"'.utf8Size = 1 := rfl
  rw [literal, List.cons_append, bytes_cons, bytes_append, bytes_cons, bytes_nil, hbody, hquote]
  omega

/-- One separator less than elements. -/
theorem bytes_intercalate (vs : List (List Char)) :
    bytes ([','].intercalate vs) = (vs.map fun v => bytes v + 1).sum - 1 := by
  induction vs with
  | nil => rfl
  | cons v vs ih =>
    by_cases hvs : vs = []
    · subst hvs
      rw [Words.intercalate_singleton]
      simp
    · have hcomma : ','.utf8Size = 1 := rfl
      have hpos : 0 < (vs.map fun v => bytes v + 1).sum := by
        obtain ⟨u, vs, rfl⟩ := List.exists_cons_of_ne_nil hvs
        rw [List.map_cons, List.sum_cons]
        omega
      rw [Words.intercalate_cons v hvs, bytes_append, bytes_cons, ih, hcomma, List.map_cons, List.sum_cons]
      omega

theorem bytes_array (vs : List (List Char)) : bytes (array vs) = (vs.map fun v => bytes v + 1).sum - 1 + 2 := by
  have hopen : '['.utf8Size = 1 := rfl
  have hclose : ']'.utf8Size = 1 := rfl
  rw [array, List.cons_append, bytes_cons, bytes_append, bytes_cons, bytes_nil, bytes_intercalate, hopen, hclose]
  omega

theorem bytes_object (fields : List (List Char × List Char)) :
    bytes (object fields) = (fields.map fun f => bytes (literal f.1) + bytes f.2 + 2).sum - 1 + 2 := by
  have hopen : '{'.utf8Size = 1 := rfl
  have hclose : '}'.utf8Size = 1 := rfl
  have hfield : ∀ f : List Char × List Char, bytes (literal f.1 ++ ':' :: f.2) + 1 = bytes (literal f.1) + bytes f.2 + 2 := by
    intro f
    have hcolon : ':'.utf8Size = 1 := rfl
    rw [bytes_append, bytes_cons, hcolon]
    omega
  have hfields : (fields.map fun f => literal f.1 ++ ':' :: f.2).map (fun v => bytes v + 1) =
      fields.map fun f => bytes (literal f.1) + bytes f.2 + 2 := by
    rw [List.map_map]
    exact List.map_congr_left fun f _ => hfield f
  rw [object, List.cons_append, bytes_cons, bytes_append, bytes_cons, bytes_nil, bytes_intercalate, hfields, hopen, hclose]
  omega

end Json

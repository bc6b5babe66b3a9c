/-
# Strings, as the service's language has them

A `str` is a sequence of Unicode scalar values with a length in bytes, as
`String` is; the functions below are the ones the service calls. They are
defined on the list of characters.

Key definitions: `isWhitespace`, `trim`, `len`, `startsWith`, `endsWith`,
`contains`, `stripPrefix`, `hexEncode`.
Key theorems: `mem_trim_iff`, `trim_isEmpty`, `trim_trim`, `trimChars_pad`.
-/
import Mathlib.Data.Nat.Notation
import Mathlib.Data.List.DropRight
import Mathlib.Data.List.Infix

namespace HarnessRegistry

/-- `char::is_whitespace`: the Unicode property `White_Space`. -/
def isWhitespace (c : Char) : Bool :=
  let n := c.toNat
  (9 ≤ n && n ≤ 13) || n == 0x20 || n == 0x85 || n == 0xA0 || n == 0x1680 ||
    (0x2000 ≤ n && n ≤ 0x200A) || n == 0x2028 || n == 0x2029 || n == 0x202F || n == 0x205F || n == 0x3000

/-- `str::trim`, on characters. -/
def trimChars (cs : List Char) : List Char :=
  ((cs.dropWhile isWhitespace).reverse.dropWhile isWhitespace).reverse

/-- `str::trim`. -/
def trim (s : String) : String := String.ofList (trimChars s.toList)

/-- `str::len`: bytes, not characters. -/
def len (s : String) : ℕ := s.utf8ByteSize

/-- `str::starts_with`, for a character. -/
def startsWith (s : String) (c : Char) : Bool := s.toList.head? == some c

/-- `str::ends_with`, for a character. -/
def endsWith (s : String) (c : Char) : Bool := s.toList.getLast? == some c

/-- `str::contains`, for a string. -/
def contains (s t : String) : Bool := decide (t.toList <:+: s.toList)

/-- `str::strip_prefix`. -/
def stripPrefix (s p : String) : Option String :=
  if p.toList <+: s.toList then some (String.ofList (s.toList.drop p.toList.length)) else none

/-- `char::is_ascii_lowercase() || is_ascii_digit() || == '-'`, the whitelist
of slugs and tags. -/
def isSlugChar (c : Char) : Bool := c.isLower || c.isDigit || c == '-'

/-- A string Postgres cannot hold as `text`: it contains U+0000. -/
def hasNul (s : String) : Bool := s.toList.contains '\x00'

/-- One lower-case hexadecimal digit. -/
def hexDigit (n : ℕ) : Char := if n < 10 then Char.ofNat (48 + n) else Char.ofNat (87 + n)

/-- `hex::encode`. -/
def hexEncode (bytes : List UInt8) : String :=
  String.ofList (bytes.flatMap fun b => [hexDigit (b.toNat / 16), hexDigit (b.toNat % 16)])

/-- `str::as_bytes`: the UTF-8 encoding. -/
def asBytes (s : String) : List UInt8 := s.toByteArray.data.toList

/-! ### Trimming -/

theorem mem_dropWhile_iff {α : Type} {p : α → Bool} {a : α} (ha : p a = false) (l : List α) : a ∈ l.dropWhile p ↔ a ∈ l := by
  refine ⟨fun h => (List.dropWhile_sublist p).mem h, fun h => ?_⟩
  rw [← List.takeWhile_append_dropWhile (p := p) (l := l)] at h
  refine (List.mem_append.mp h).resolve_left fun htaken => ?_
  rw [List.mem_takeWhile_imp htaken] at ha
  cases ha

theorem mem_of_mem_trim {s : String} {c : Char} (h : c ∈ (trim s).toList) : c ∈ s.toList := by
  unfold trim trimChars at h
  rw [String.toList_ofList, List.mem_reverse] at h
  have h := (List.dropWhile_sublist _).mem h
  rw [List.mem_reverse] at h
  exact (List.dropWhile_sublist _).mem h

/-- What is no blank stays. -/
theorem mem_trim_iff {s : String} {c : Char} (hc : isWhitespace c = false) : c ∈ (trim s).toList ↔ c ∈ s.toList := by
  unfold trim trimChars
  rw [String.toList_ofList, List.mem_reverse, mem_dropWhile_iff hc, List.mem_reverse, mem_dropWhile_iff hc]

/-- Something is left of a text that is not all whitespace, and of no other. -/
theorem trim_isEmpty (s : String) : (trim s).isEmpty = false ↔ ∃ c ∈ s.toList, isWhitespace c = false := by
  have hnil : trimChars s.toList = [] ↔ ∀ c ∈ s.toList, isWhitespace c = true := by
    show List.rdropWhile isWhitespace (s.toList.dropWhile isWhitespace) = [] ↔ _
    rw [List.rdropWhile_eq_nil_iff]
    refine ⟨fun h c hc => ?_, fun h c hc => h c (List.dropWhile_sublist _ |>.mem hc)⟩
    rw [← List.takeWhile_append_dropWhile (p := isWhitespace) (l := s.toList)] at hc
    rcases List.mem_append.mp hc with hc | hc
    · exact List.mem_takeWhile_imp hc
    · exact h c hc
  rw [← Bool.not_eq_true, String.isEmpty_iff, trim, ← String.toList_eq_nil_iff, String.toList_ofList, hnil]
  simp

theorem trimChars_trimChars (cs : List Char) : trimChars (trimChars cs) = trimChars cs := by
  have hfront : (trimChars cs).dropWhile isWhitespace = trimChars cs := by
    refine List.dropWhile_eq_self_iff.mpr fun hl => ?_
    -- the first character left is the first that is no blank
    have hpre : trimChars cs <+: cs.dropWhile isWhitespace := List.rdropWhile_prefix _ _
    have hlen := Nat.lt_of_lt_of_le hl hpre.length_le
    rw [hpre.getElem hl]
    exact List.dropWhile_get_zero_not _ _ hlen
  calc trimChars (trimChars cs)
      = ((trimChars cs).dropWhile isWhitespace).rdropWhile isWhitespace := rfl
    _ = (trimChars cs).rdropWhile isWhitespace := by rw [hfront]
    _ = trimChars cs := List.rdropWhile_idempotent _ _

theorem trim_trim (n : String) : trim (trim n) = trim n := by
  unfold trim
  rw [String.toList_ofList, trimChars_trimChars]

/-- Blanks around a text without any are trimmed. -/
theorem trimChars_pad {a m b : List Char} (ha : ∀ c ∈ a, isWhitespace c = true) (hb : ∀ c ∈ b, isWhitespace c = true)
    (hm : ∀ c ∈ m, isWhitespace c = false) (hne : m ≠ []) : trimChars (a ++ m ++ b) = m := by
  -- everything up to the first that is none goes
  have drop : ∀ {a m : List Char}, (∀ c ∈ a, isWhitespace c = true) → (∀ c ∈ m, isWhitespace c = false) → m ≠ [] →
      ∀ r, (a ++ (m ++ r)).dropWhile isWhitespace = m ++ r := by
    intro a m ha hm hne r
    rw [List.dropWhile_append_of_pos ha]
    cases m with
    | nil => exact absurd rfl hne
    | cons c m => exact List.dropWhile_cons_of_neg (by simp [hm c List.mem_cons_self])
  unfold trimChars
  rw [List.append_assoc, drop ha hm hne, List.reverse_append]
  have := drop (a := b.reverse) (m := m.reverse) (fun c hc => hb c (List.mem_reverse.mp hc))
    (fun c hc => hm c (List.mem_reverse.mp hc)) (by simpa using hne) []
  rw [List.append_nil] at this
  rw [this, List.reverse_reverse]

end HarnessRegistry

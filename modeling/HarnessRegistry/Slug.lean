/-
# The language of slugs

`validate_slug` is four negative tests, over bytes, characters and a substring.
Together they leave the runs of `[a-z0-9]` joined by single dashes, of at most 64
bytes, without the reserved names; and the last of the tests is reached by
nothing else (`slug_language`). A file name made of such a slug stays in its
directory, and no file system takes it for that of a bundled workflow.

Key definitions: `Slug`, `reservation`, `fileName`, `FoldsCase`.
Key theorems: `slug_iff`, `slug_reserved_iff`, `fileName_injective`, `slug_language`.
-/
import HarnessRegistry.Stored
import HarnessRegistry.Words

namespace HarnessRegistry

/-- `[a-z0-9]`. -/
def IsRunChar (c : Char) : Prop := c.isLower = true ∨ c.isDigit = true

instance : DecidablePred IsRunChar := fun _ => inferInstanceAs (Decidable (_ ∨ _))

/-- Runs of `[a-z0-9]`, none of them empty, joined by single dashes. -/
def Slug (s : String) : Prop := Words.Joined '-' IsRunChar s.toList

/-- The refusal of a reserved name. -/
def reservation (slug : String) : Error :=
  .badRequest s!"`{slug}` is the name of a workflow the harness ships, and installing one of that name would silently replace it"

theorem isSlugChar_iff (c : Char) : isSlugChar c = true ↔ IsRunChar c ∨ c = '-' := by
  simp [isSlugChar, IsRunChar]

/-- The tests of the shape. -/
theorem slug_iff (s : String) : Slug s ↔ s.isEmpty = false ∧ s.toList.all isSlugChar = true ∧ startsWith s '-' = false ∧
    endsWith s '-' = false ∧ contains s "--" = false := by
  have hdash : ¬ IsRunChar '-' := by decide
  have hempty : s.toList ≠ [] ↔ s.isEmpty = false := by
    rw [← Bool.not_eq_true, String.isEmpty_iff, ne_eq, String.toList_eq_nil_iff]
  have hdouble : "--".toList = ['-', '-'] := rfl
  rw [Slug, Words.joined_iff hdash, hempty]
  simp only [List.all_eq_true, isSlugChar_iff, startsWith, endsWith, contains, beq_eq_false_iff_ne, decide_eq_false_iff_not,
    hdouble, ne_eq]

theorem slug_accepted_iff (s : String) : validateSlug s = .ok () ↔ Slug s ∧ len s ≤ slugMax ∧ s ∉ reservedSlugs := by
  rw [validateSlug_ok_iff, slug_iff]
  tauto

/-- A check that refuses otherwise lets pass what is refused so. -/
theorem check_refuses_iff {c : Prop} [Decidable c] {e e' : Error} {k : Except Error Unit} (h : e ≠ e') : (do
    if c then throw e
    k : Except Error Unit) = .error e' ↔ ¬ c ∧ k = .error e' := by
  by_cases hc : c
  · refine ⟨fun hk => ?_, fun hk => absurd hc hk.1⟩
    simp only [hc] at hk
    exact absurd (Except.error.inj hk) h
  · simp [hc]

/-- No other refusal reads like the reservation. -/
theorem ne_reservation (s : String) {text : String} (h : text.toList.head? ≠ some (Char.ofNat 96)) :
    Error.badRequest text ≠ reservation s := by
  intro he
  refine h ?_
  rw [Error.badRequest.inj he]
  simp only [toString, String.toList_append]
  rfl

theorem slug_reserved_iff (s : String) : validateSlug s = .error (reservation s) ↔ Slug s ∧ len s ≤ slugMax ∧ s ∈ reservedSlugs := by
  have hlast : (if slugIsReserved s then throw (reservation s) else pure () : Except Error Unit) = .error (reservation s) ↔
      s ∈ reservedSlugs := by
    by_cases hr : s ∈ reservedSlugs
    · simp [slugIsReserved, hr, throw, throwThe, MonadExceptOf.throw]
    · simp [slugIsReserved, hr, pure, Except.pure]
  unfold validateSlug
  rw [check_refuses_iff (ne_reservation s (by decide)), check_refuses_iff (ne_reservation s (by decide)),
    check_refuses_iff (ne_reservation s (by decide)), slug_iff]
  refine Iff.trans (and_congr_right' (and_congr_right' (and_congr_right' hlast))) ?_
  simp only [Bool.or_eq_true, decide_eq_true_eq, not_or, Bool.not_eq_true, Nat.not_lt, Bool.not_eq_false']
  tauto

/-! ### File names -/

/-- `.harness/workflows/<name>.yaml`, in its directory. -/
def fileName (slug : String) : String := slug ++ ".yaml"

/-- What a file system may take for one: it compares names after folding the
case of their characters. -/
def FoldsCase (fold : Char → Char) : Prop :=
  ∀ c d : Char, c.toNat < 128 → d.toNat < 128 → fold c = fold d → c.toLower = d.toLower

theorem isRunChar_iff (c : Char) : IsRunChar c ↔ 97 ≤ c.toNat ∧ c.toNat ≤ 122 ∨ 48 ≤ c.toNat ∧ c.toNat ≤ 57 := by
  have hlower : c.isLower = true ↔ 97 ≤ c.toNat ∧ c.toNat ≤ 122 := by
    show (decide (c.val ≥ 'a'.val) && decide (c.val ≤ 'z'.val)) = true ↔ _
    rw [Bool.and_eq_true, decide_eq_true_eq, decide_eq_true_eq]
    exact Iff.rfl
  have hdigit : c.isDigit = true ↔ 48 ≤ c.toNat ∧ c.toNat ≤ 57 := by
    simp only [Char.isDigit, Bool.and_eq_true, decide_eq_true_eq]
    exact Iff.rfl
  rw [IsRunChar, hlower, hdigit]

theorem isUpper_iff (c : Char) : c.isUpper = true ↔ 65 ≤ c.toNat ∧ c.toNat ≤ 90 := by
  show decide (c.val ≥ 'A'.val ∧ c.val ≤ 'Z'.val) = true ↔ _
  rw [decide_eq_true_eq]
  exact Iff.rfl

theorem toLower_of_not_upper {c : Char} (h : c.isUpper = false) : c.toLower = c := by
  unfold Char.toLower
  rw [dif_neg]
  exact fun hc => absurd ((isUpper_iff c).mpr hc) (by simp [h])

/-- A character that such a name is made of: ASCII, not upper case, and no part of
a path. -/
structure FileChar (c : Char) : Prop where
  ascii : c.toNat < 128
  upper : c.isUpper = false
  slash : c ≠ '/'
  backslash : c ≠ '\\'

theorem IsRunChar.fileChar {c : Char} (h : IsRunChar c) : FileChar c := by
  rw [isRunChar_iff] at h
  refine ⟨by omega, by rw [← Bool.not_eq_true, isUpper_iff]; omega, ?_, ?_⟩
  · rintro rfl
    revert h
    decide
  · rintro rfl
    revert h
    decide

theorem Slug.chars {s : String} (h : Slug s) {c : Char} (hc : c ∈ s.toList) : IsRunChar c ∨ c = '-' :=
  (h.shape (by decide)).elements c hc

theorem Slug.fileChars {s : String} (h : Slug s) {c : Char} (hc : c ∈ (fileName s).toList) : FileChar c := by
  have hsuffix : (['-', '.', 'y', 'a', 'm', 'l'].all fun c => decide (c.toNat < 128) && !c.isUpper && c != '/' && c != '\\') =
      true := by decide
  have hrest : ∀ c ∈ ['-', '.', 'y', 'a', 'm', 'l'], FileChar c := by
    intro c hc
    have hc := List.all_eq_true.mp hsuffix c hc
    simp only [Bool.and_eq_true, decide_eq_true_eq, Bool.not_eq_true', bne_iff_ne] at hc
    exact ⟨hc.1.1.1, hc.1.1.2, hc.1.2, hc.2⟩
  rw [fileName, String.toList_append] at hc
  rcases List.mem_append.mp hc with hc | hc
  · rcases h.chars hc with hrun | rfl
    · exact hrun.fileChar
    · exact hrest '-' List.mem_cons_self
  · exact hrest c (List.mem_cons_of_mem _ hc)

theorem Slug.no_dot {s : String} (h : Slug s) : '.' ∉ s.toList := by
  intro hdot
  have : ¬ (IsRunChar '.' ∨ '.' = '-') := by decide
  exact this (h.chars hdot)

/-- The reserved names are slugs themselves. -/
theorem slug_of_reserved {r : String} (h : r ∈ reservedSlugs) : Slug r := by
  have hall : ∀ r ∈ reservedSlugs, r.isEmpty = false ∧ r.toList.all isSlugChar = true ∧ startsWith r '-' = false ∧
      endsWith r '-' = false ∧ contains r "--" = false := by
    decide +kernel
  exact (slug_iff r).mpr (hall r h)

/-- A map that tells the elements of two lists apart tells the lists apart. -/
theorem eq_of_map_eq {α β : Type} {f : α → β} : ∀ {l l' : List α}, (∀ a ∈ l, ∀ b ∈ l', f a = f b → a = b) →
    l.map f = l'.map f → l = l'
  | [], [], _, _ => rfl
  | a :: l, b :: l', hf, h => by
    obtain ⟨hab, hrest⟩ := List.cons.inj h
    rw [hf a List.mem_cons_self b List.mem_cons_self hab,
      eq_of_map_eq (fun x hx y hy => hf x (List.mem_cons_of_mem a hx) y (List.mem_cons_of_mem b hy)) hrest]

/-- Slugs whose files have names that a file system takes for one are the same. -/
theorem fileName_injective {s r : String} (hs : Slug s) (hr : Slug r) {fold : Char → Char} (hf : FoldsCase fold)
    (h : (fileName s).toList.map fold = (fileName r).toList.map fold) : s = r := by
  have hname : (fileName s).toList = (fileName r).toList := by
    refine eq_of_map_eq (fun c hc d hd hcd => ?_) h
    have hc := hs.fileChars hc
    have hd := hr.fileChars hd
    calc c = c.toLower := (toLower_of_not_upper hc.upper).symm
      _ = d.toLower := hf c d hc.ascii hd.ascii hcd
      _ = d := toLower_of_not_upper hd.upper
  rw [fileName, fileName, String.toList_append, String.toList_append] at hname
  exact String.toList_inj.mp (List.append_cancel_right hname)

/-! ### All of it -/

/-- **`validate_slug` accepts exactly its language**, refuses as reserved exactly
the reserved names of the right shape and length, and what it accepts makes
a file name that stays in its directory and is no bundled workflow's, whatever
case the file system folds. -/
theorem slug_language (s : String) :
    (validateSlug s = .ok () ↔ Slug s ∧ len s ≤ 64 ∧ s ∉ reservedSlugs) ∧
    (validateSlug s = .error (reservation s) ↔ Slug s ∧ len s ≤ 64 ∧ s ∈ reservedSlugs) ∧
    (validateSlug s = .ok () → '.' ∉ s.toList ∧ (∀ c ∈ (fileName s).toList, FileChar c) ∧
      ∀ r ∈ reservedSlugs, ∀ fold, FoldsCase fold → (fileName s).toList.map fold ≠ (fileName r).toList.map fold) := by
  refine ⟨slug_accepted_iff s, slug_reserved_iff s, fun h => ?_⟩
  obtain ⟨hs, -, hfree⟩ := (slug_accepted_iff s).mp h
  refine ⟨hs.no_dot, fun c hc => hs.fileChars hc, fun r hr fold hf he => ?_⟩
  exact hfree (fileName_injective hs (slug_of_reserved hr) hf he ▸ hr)

/-- A name that has been bundled, and one that differs from a bundled one by a
dash. -/
theorem slug_language_moved : ∀ s ∈ ["geo-audit", "merge-p-r"], Slug s ∧
    ∀ r ∈ reservedSlugs, (fileName s).toList.map Char.toLower ≠ (fileName r).toList.map Char.toLower := by
  intro s hs
  have hok : ∀ s ∈ ["geo-audit", "merge-p-r"], validateSlug s = .ok () := by decide +kernel
  obtain ⟨hiff, -, hfile⟩ := slug_language s
  obtain ⟨-, -, hnames⟩ := hfile (hok s hs)
  exact ⟨(hiff.mp (hok s hs)).1, fun r hr => hnames r hr Char.toLower fun c d _ _ h => h⟩

end HarnessRegistry

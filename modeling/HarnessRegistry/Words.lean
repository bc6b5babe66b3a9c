/-
# Words joined by single separators

Runs of permitted elements, none of them empty, with one separator between two:
the lists that neither start nor end with a separator and have no two of them in
a row (`joined_iff`).

Key definitions: `Joined`.
Key theorems: `Joined.cons`, `Joined.append`, `joined_iff`.
-/
import Mathlib.Data.List.Chain
import Mathlib.Tactic.Common

namespace Words

variable {α : Type} {sep : α} {p : α → Prop} {l r : List α}

def Joined (sep : α) (p : α → Prop) (l : List α) : Prop :=
  ∃ runs : List (List α), runs ≠ [] ∧ (∀ r ∈ runs, r ≠ [] ∧ ∀ c ∈ r, p c) ∧ l = [sep].intercalate runs

theorem intercalate_singleton (r : List α) : [sep].intercalate [r] = r := by simp [List.intercalate]

theorem intercalate_cons (r : List α) {runs : List (List α)} (h : runs ≠ []) :
    [sep].intercalate (r :: runs) = r ++ sep :: [sep].intercalate runs := by
  cases runs with
  | nil => exact absurd rfl h
  | cons r' runs => simp [List.intercalate]

/-- One run. -/
theorem joined_run (hr : r ≠ []) (hp : ∀ c ∈ r, p c) : Joined sep p r :=
  ⟨[r], by simp, by simpa using ⟨hr, hp⟩, (intercalate_singleton r).symm⟩

/-- A run before the others. -/
theorem Joined.append (h : Joined sep p l) (hr : r ≠ []) (hp : ∀ c ∈ r, p c) : Joined sep p (r ++ sep :: l) := by
  obtain ⟨runs, hne, hruns, rfl⟩ := h
  exact ⟨r :: runs, by simp, List.forall_mem_cons.mpr ⟨⟨hr, hp⟩, hruns⟩, (intercalate_cons r hne).symm⟩

/-- The first run gets longer. -/
theorem Joined.cons {c : α} (h : Joined sep p l) (hc : p c) : Joined sep p (c :: l) := by
  obtain ⟨runs, hne, hruns, rfl⟩ := h
  cases runs with
  | nil => exact absurd rfl hne
  | cons r runs =>
    obtain ⟨⟨-, hp⟩, hruns⟩ := List.forall_mem_cons.mp hruns
    have hp : ∀ d ∈ c :: r, p d := List.forall_mem_cons.mpr ⟨hc, hp⟩
    refine ⟨(c :: r) :: runs, by simp, List.forall_mem_cons.mpr ⟨⟨by simp, hp⟩, hruns⟩, ?_⟩
    by_cases hrest : runs = []
    · subst hrest
      rw [intercalate_singleton, intercalate_singleton]
    · rw [intercalate_cons _ hrest, intercalate_cons _ hrest, List.cons_append]

/-- No two separators in a row. -/
theorem not_double_iff : ¬ [sep, sep] <:+: l ↔ l.IsChain fun a b => ¬ (a = sep ∧ b = sep) := by
  rw [List.isChain_iff_forall_rel_of_append_cons_cons]
  constructor
  · rintro h a b l₁ l₂ rfl ⟨rfl, rfl⟩
    exact h ⟨l₁, l₂, by simp⟩
  · rintro h ⟨l₁, l₂, rfl⟩
    have := @h sep sep l₁ l₂
    simp at this

/-- What can be tested of a list without taking it apart. -/
structure Shape (sep : α) (p : α → Prop) (l : List α) : Prop where
  ne_nil : l ≠ []
  elements : ∀ c ∈ l, p c ∨ c = sep
  head : l.head? ≠ some sep
  last : l.getLast? ≠ some sep
  single : l.IsChain fun a b => ¬ (a = sep ∧ b = sep)

theorem shape_run (hsep : ¬ p sep) (hr : r ≠ []) (hp : ∀ c ∈ r, p c) : Shape sep p r where
  ne_nil := hr
  elements c hc := .inl (hp c hc)
  head h := hsep (hp sep (List.mem_of_mem_head? h))
  last h := hsep (hp sep (List.mem_of_getLast? h))
  single := not_double_iff.mp fun h => hsep (hp sep (h.subset List.mem_cons_self))

theorem Shape.append (hsep : ¬ p sep) (h : Shape sep p l) (hr : r ≠ []) (hp : ∀ c ∈ r, p c) :
    Shape sep p (r ++ sep :: l) := by
  have hrun := shape_run hsep hr hp
  obtain ⟨d, l, rfl⟩ := List.exists_cons_of_ne_nil h.ne_nil
  refine ⟨by simp, fun c hc => ?_, ?_, ?_, ?_⟩
  · rcases List.mem_append.mp hc with hc | hc
    · exact .inl (hp c hc)
    · rcases List.mem_cons.mp hc with rfl | hc
      · exact .inr rfl
      · exact h.elements c hc
  · rw [List.head?_append_of_ne_nil r hr]
    exact hrun.head
  · rw [List.getLast?_append_cons, List.getLast?_cons_cons]
    exact h.last
  · -- the separator stands between two elements of runs
    refine List.isChain_append.mpr ⟨hrun.single, List.isChain_cons_cons.mpr ⟨?_, h.single⟩, ?_⟩
    · rintro ⟨-, rfl⟩
      exact h.head rfl
    · rintro c hc _ - ⟨rfl, -⟩
      exact hrun.last hc

theorem Joined.shape (hsep : ¬ p sep) (h : Joined sep p l) : Shape sep p l := by
  obtain ⟨runs, hne, hruns, rfl⟩ := h
  induction runs with
  | nil => exact absurd rfl hne
  | cons r runs ih =>
    obtain ⟨⟨hr, hp⟩, hruns⟩ := List.forall_mem_cons.mp hruns
    by_cases hrest : runs = []
    · subst hrest
      rw [intercalate_singleton]
      exact shape_run hsep hr hp
    · rw [intercalate_cons r hrest]
      exact (ih hrest hruns).append hsep hr hp

theorem Shape.joined : ∀ {l : List α}, Shape sep p l → Joined sep p l
  | [], h => absurd rfl h.ne_nil
  | c :: l, h => by
    have hc : p c := (h.elements c List.mem_cons_self).resolve_right fun hc => h.head (hc ▸ rfl)
    match l, h with
    | [], _ => exact joined_run (by simp) (by simpa using hc)
    | d :: l, h =>
      obtain ⟨hne, hel, hhead, hlast, hsingle⟩ := h
      rw [List.getLast?_cons_cons] at hlast
      have hsingle := (List.isChain_cons_cons.mp hsingle).2
      have hel := (List.forall_mem_cons.mp hel).2
      by_cases hd : d = sep
      · -- `c` is a run of its own
        have hl : l ≠ [] := by
          rintro rfl
          exact hlast (congrArg some hd)
        obtain ⟨e, l, rfl⟩ := List.exists_cons_of_ne_nil hl
        rw [List.getLast?_cons_cons] at hlast
        obtain ⟨hde, hsingle⟩ := List.isChain_cons_cons.mp hsingle
        have hshape : Shape sep p (e :: l) :=
          ⟨hl, (List.forall_mem_cons.mp hel).2, fun he => hde ⟨hd, Option.some.inj he⟩, hlast, hsingle⟩
        rw [hd]
        have hrun : ∀ x ∈ [c], p x := by simpa using hc
        exact (Shape.joined hshape).append (by simp) hrun
      · have hshape : Shape sep p (d :: l) := ⟨by simp, hel, fun he => hd (Option.some.inj he), hlast, hsingle⟩
        exact (Shape.joined hshape).cons hc

/-- **The joined lists** are those of permitted elements and separators, not
empty, that neither start nor end with a separator nor have two in a row. -/
theorem joined_iff (hsep : ¬ p sep) : Joined sep p l ↔
    l ≠ [] ∧ (∀ c ∈ l, p c ∨ c = sep) ∧ l.head? ≠ some sep ∧ l.getLast? ≠ some sep ∧ ¬ [sep, sep] <:+: l := by
  rw [not_double_iff]
  constructor
  · intro h
    obtain ⟨hne, hel, hhead, hlast, hsingle⟩ := h.shape hsep
    exact ⟨hne, hel, hhead, hlast, hsingle⟩
  · rintro ⟨hne, hel, hhead, hlast, hsingle⟩
    exact Shape.joined ⟨hne, hel, hhead, hlast, hsingle⟩

end Words

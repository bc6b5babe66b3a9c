/-
# Tables as partial functions

A column in which no two rows of a table agree (`Unique`) makes the table a
partial function, from the column to the row (`Table.row`). An `INSERT` adds a
point to the function, an `UPDATE` maps its values, a `DELETE` filters them; the
order of the rows is gone. Rows are counted by the points they are at.

Key definitions: `Unique`, `Table.row`.
Key theorems: `Table.row_eq_some`, `Table.row_insert`, `Table.row_update`, `Table.row_delete`, `Table.count_eq_ncard`.
-/
import HarnessRegistry.Txn.Table
import Mathlib.Data.Set.Card
import Mathlib.Logic.Function.Basic

namespace Txn

variable {ρ κ β : Type} [Keyed ρ κ] [Key κ] [DecidableEq β]

/-- Rows that agree in `k` clash. -/
def Unique (k : ρ → β) : Prop := ∀ x y : ρ, k x = k y → clash (key x) (key y) = true

namespace Table

/-- The row with `b` in the column `k`. -/
def row (t : Table ρ) (k : ρ → β) (b : β) : Option ρ := t.find? fun r => k r == b

variable {t : Table ρ} {k : ρ → β} {r : ρ} {b : β}

theorem row_eq_some (hk : Unique k) : t.row k b = some r ↔ r ∈ t ∧ k r = b := by
  rw [row, find?_eq_some fun x y hx hy => hk x y ((beq_iff_eq.mp hx).trans (beq_iff_eq.mp hy).symm), beq_iff_eq]

theorem row_eq_none : t.row k b = none ↔ ∀ r ∈ t, k r ≠ b := by
  simp only [row, find?_eq_none, beq_eq_false_iff_ne]

/-- A row is where it is. -/
theorem update_row_self (hk : Unique k) (hr : r ∈ t) : Function.update (t.row k) (k r) (some r) = t.row k := by
  rw [← (row_eq_some hk).mpr ⟨hr, rfl⟩, Function.update_eq_self]

theorem row_insert (hk : Unique k) (h : ¬ t.has (key r)) : (t.insert r).row k = Function.update (t.row k) (k r) (some r) := by
  funext b
  refine Option.ext fun x => ?_
  rw [row_eq_some hk, mem_insert h]
  by_cases hb : b = k r
  · subst hb
    rw [Function.update_self]
    simp only [Option.some.injEq]
    constructor
    · rintro ⟨hx | rfl, hkx⟩
      · exact absurd ⟨x, hx, hk x r hkx⟩ h
      · rfl
    · rintro rfl
      exact ⟨.inr rfl, rfl⟩
  · rw [Function.update_of_ne hb, row_eq_some hk]
    constructor
    · rintro ⟨hx | rfl, hkx⟩
      · exact ⟨hx, hkx⟩
      · exact absurd hkx.symm hb
    · exact fun hx => ⟨.inl hx.1, hx.2⟩

/-- An `UPDATE` of the row `w`. -/
theorem row_update {w : ρ} {p : ρ → Prop} [DecidablePred p] {f : ρ → ρ} {hf : ∀ r, key (f r) = key r} (hk : Unique k)
    (hw : w ∈ t) (hp : ∀ r ∈ t, p r ↔ r = w) (hkf : k (f w) = k w) :
    (t.update p f hf).row k = Function.update (t.row k) (k w) (some (f w)) := by
  funext b
  refine Option.ext fun x => ?_
  rw [row_eq_some hk, mem_update]
  by_cases hb : b = k w
  · subst hb
    rw [Function.update_self, Option.some.injEq]
    constructor
    · rintro ⟨⟨y, hy, rfl⟩, hx⟩
      by_cases hpy : p y
      · rw [if_pos hpy, (hp y hy).mp hpy]
      · rw [if_neg hpy] at hx
        exact absurd ((hp y hy).mpr (eq_of_clash hy hw (hk y w hx))) hpy
    · rintro rfl
      exact ⟨⟨w, hw, if_pos ((hp w hw).mpr rfl)⟩, hkf⟩
  · rw [Function.update_of_ne hb, row_eq_some hk]
    constructor
    · rintro ⟨⟨y, hy, rfl⟩, hx⟩
      by_cases hpy : p y
      · rw [if_pos hpy, (hp y hy).mp hpy, hkf] at hx
        exact absurd hx.symm hb
      · rw [if_neg hpy] at hx ⊢
        exact ⟨hy, hx⟩
    · rintro ⟨hx, rfl⟩
      refine ⟨⟨x, hx, if_neg fun hpx => hb ?_⟩, rfl⟩
      rw [(hp x hx).mp hpx]

/-- A `DELETE` of what is at `b`. -/
theorem row_delete {p : ρ → Bool} (hk : Unique k) (hp : ∀ r, p r = true ↔ k r = b) :
    (t.delete p).row k = Function.update (t.row k) b none := by
  funext c
  refine Option.ext fun x => ?_
  rw [row_eq_some hk, mem_delete, ← Bool.not_eq_true, hp]
  by_cases hc : c = b
  · subst hc
    rw [Function.update_self]
    constructor
    · rintro ⟨⟨-, hx⟩, hx'⟩
      exact absurd hx' hx
    · intro hx
      cases hx
  · rw [Function.update_of_ne hc, row_eq_some hk]
    constructor
    · rintro ⟨⟨hx, -⟩, hx'⟩
      exact ⟨hx, hx'⟩
    · rintro ⟨hx, rfl⟩
      exact ⟨⟨hx, hc⟩, rfl⟩

/-- Rows are as many as the values of a column that tells them apart. -/
theorem count_eq_ncard {p : ρ → Bool} (hk : ∀ x ∈ t, ∀ y ∈ t, p x = true → p y = true → k x = k y → x = y) :
    t.count p = {b | ∃ r ∈ t, p r = true ∧ k r = b}.ncard := by
  have hnodup : ((t.rows.filter p).map k).Nodup := by
    refine List.Nodup.map_on (fun x hx y hy he => ?_) (t.nodup.filter p)
    obtain ⟨hx, hpx⟩ := List.mem_filter.mp hx
    obtain ⟨hy, hpy⟩ := List.mem_filter.mp hy
    exact hk x hx y hy hpx hpy he
  have hset : {b | ∃ r ∈ t, p r = true ∧ k r = b} = (((t.rows.filter p).map k).toFinset : Set β) := by
    ext b
    simp only [Set.mem_ofPred_eq, List.coe_toFinset, List.mem_map, List.mem_filter, mem_def, and_assoc]
  rw [hset, Set.ncard_coe_finset, List.toFinset_card_of_nodup hnodup, List.length_map, count, List.countP_eq_length_filter]

end Table
end Txn

/-
# Tables with unique constraints

A `Table ρ` is a list of rows in which no two rows have clashing keys: the
proof is a field, so a table that breaks its constraints cannot be built.
`Keyed` says which keys clash, so a table may carry several constraints at
once (two keys clash when any of the constrained columns agree). `insert`,
`update` and `delete` are the three statements that change one; an update
keeps every row's key.

Key definitions: `Key`, `Keyed`, `Table`, `Table.insert`, `Table.update`,
`Table.delete`, `Table.find?`, `Table.Kept`.
Key theorems: `Table.eq_of_clash`, `Table.mem_insert`, `Table.find?_eq_some`,
`Table.Kept.trans`.
-/
import Mathlib.Data.List.Pairwise
import Mathlib.Data.List.Perm.Subperm
import Mathlib.Tactic.Common

namespace Txn

/-- Which keys a table's unique constraints keep apart. -/
class Key (κ : Type) where
  clash : κ → κ → Bool
  clash_self : ∀ k, clash k k = true
  clash_comm : ∀ k l, clash k l = clash l k

/-- Rows with a key. -/
class Keyed (ρ : Type) (κ : outParam Type) where
  key : ρ → κ

export Key (clash)
export Keyed (key)

/-- Rows no two of which clash. -/
structure Table (ρ : Type) {κ : Type} [Keyed ρ κ] [Key κ] where
  rows : List ρ
  apart : rows.Pairwise fun a b => clash (key a) (key b) = false

namespace Table

variable {ρ κ : Type} [Keyed ρ κ] [Key κ]

instance : Membership ρ (Table ρ) := ⟨fun t r => r ∈ t.rows⟩

theorem mem_def {t : Table ρ} {r : ρ} : r ∈ t ↔ r ∈ t.rows := Iff.rfl

instance : EmptyCollection (Table ρ) := ⟨⟨[], List.Pairwise.nil⟩⟩

@[simp] theorem not_mem_empty (r : ρ) : r ∉ (∅ : Table ρ) := List.not_mem_nil

@[simp] theorem rows_empty : (∅ : Table ρ).rows = [] := rfl

/-- Some row has a key that clashes with `k`. -/
def has (t : Table ρ) (k : κ) : Prop := ∃ x ∈ t.rows, clash (key x) k = true

instance (t : Table ρ) (k : κ) : Decidable (t.has k) := by unfold has; infer_instance

/-- `INSERT`: append the row, unless its key is taken. -/
def insert (t : Table ρ) (r : ρ) : Table ρ :=
  if h : t.has (key r) then t
  else ⟨t.rows ++ [r], by
    refine List.pairwise_append.mpr ⟨t.apart, List.pairwise_singleton _ _, fun a ha b hb => ?_⟩
    rw [List.mem_singleton.mp hb]
    exact Bool.eq_false_iff.mpr fun hc => h ⟨a, ha, hc⟩⟩

/-- `UPDATE`: rewrite the rows that satisfy `p`, keeping their keys. -/
def update (t : Table ρ) (p : ρ → Prop) [DecidablePred p] (f : ρ → ρ) (hf : ∀ r, key (f r) = key r) :
    Table ρ :=
  ⟨t.rows.map fun r => if p r then f r else r, by
    have hk : ∀ r, key (if p r then f r else r) = key r := fun r => by split <;> simp only [hf]
    exact List.pairwise_map.mpr (t.apart.imp fun h => by rwa [hk, hk])⟩

/-- `DELETE`: drop the rows that satisfy `p`. -/
def delete (t : Table ρ) (p : ρ → Bool) : Table ρ :=
  ⟨t.rows.filter fun r => !p r, t.apart.sublist List.filter_sublist⟩

/-- `SELECT` of at most one row. -/
def find? (t : Table ρ) (p : ρ → Bool) : Option ρ := t.rows.find? p

/-- `SELECT count(*)`. -/
def count (t : Table ρ) (p : ρ → Bool) : ℕ := t.rows.countP p

/-- Two rows that clash are one row. -/
theorem eq_of_clash {t : Table ρ} {r s : ρ} (hr : r ∈ t) (hs : s ∈ t)
    (h : clash (key r) (key s) = true) : r = s := by
  by_contra hne
  have : Std.Symm fun a b : ρ => clash (key a) (key b) = false :=
    ⟨fun a b hab => by rw [Key.clash_comm]; exact hab⟩
  rw [t.apart.forall hr hs hne] at h
  cases h

theorem nodup (t : Table ρ) : t.rows.Nodup :=
  t.apart.imp fun h he => by rw [he, Key.clash_self] at h; cases h

theorem insert_of_has {t : Table ρ} {r : ρ} (h : t.has (key r)) : t.insert r = t := dif_pos h

theorem rows_insert {t : Table ρ} {r : ρ} (h : ¬ t.has (key r)) :
    (t.insert r).rows = t.rows ++ [r] := by
  rw [insert, dif_neg h]

theorem mem_insert {t : Table ρ} {r x : ρ} (h : ¬ t.has (key r)) :
    x ∈ t.insert r ↔ x ∈ t ∨ x = r := by
  simp [mem_def, rows_insert h]

theorem mem_insert_of_mem {t : Table ρ} {r x : ρ} (hx : x ∈ t) : x ∈ t.insert r := by
  by_cases h : t.has (key r)
  · rwa [insert_of_has h]
  · exact (mem_insert h).mpr (.inl hx)

section Update

variable {p : ρ → Prop} [DecidablePred p] {f : ρ → ρ} {hf : ∀ r, key (f r) = key r}

@[simp] theorem rows_update (t : Table ρ) :
    (t.update p f hf).rows = t.rows.map fun r => if p r then f r else r := rfl

theorem mem_update {t : Table ρ} {x : ρ} :
    x ∈ t.update p f hf ↔ ∃ y ∈ t, (if p y then f y else y) = x := List.mem_map

theorem mem_update_of_mem {t : Table ρ} {y : ρ} (hy : y ∈ t) :
    (if p y then f y else y) ∈ t.update p f hf := mem_update.mpr ⟨y, hy, rfl⟩

@[simp] theorem has_update (t : Table ρ) (k : κ) : (t.update p f hf).has k ↔ t.has k := by
  have hk : ∀ r, key (if p r then f r else r) = key r := fun r => by split <;> simp only [hf]
  simp [has, hk]

end Update

theorem mem_delete {t : Table ρ} {p : ρ → Bool} {x : ρ} :
    x ∈ t.delete p ↔ x ∈ t ∧ p x = false := by
  simp [mem_def, delete, List.mem_filter]

/-! ### Rows with a property, after a statement -/

theorem exists_of_insert {t : Table ρ} {r : ρ} {q : ρ → Prop} (h : ∃ x ∈ t.insert r, q x) :
    (∃ x ∈ t, q x) ∨ q r := by
  obtain ⟨x, hx, hq⟩ := h
  by_cases hc : t.has (key r)
  · rw [insert_of_has hc] at hx
    exact .inl ⟨x, hx, hq⟩
  · rcases (mem_insert hc).mp hx with hx | rfl
    · exact .inl ⟨x, hx, hq⟩
    · exact .inr hq

theorem exists_insert {t : Table ρ} {q : ρ → Prop} (r : ρ) (h : ∃ x ∈ t, q x) :
    ∃ x ∈ t.insert r, q x := by
  obtain ⟨x, hx, hq⟩ := h
  exact ⟨x, mem_insert_of_mem hx, hq⟩

theorem exists_update {t : Table ρ} {p : ρ → Prop} [DecidablePred p] {f : ρ → ρ}
    {hf : ∀ r, key (f r) = key r} {q : ρ → Prop} (hq : ∀ r, q (f r) ↔ q r) :
    (∃ x ∈ t.update p f hf, q x) ↔ ∃ x ∈ t, q x := by
  have hq' : ∀ r, q (if p r then f r else r) ↔ q r := fun r => by split <;> simp only [hq]
  simp only [mem_def, rows_update, List.mem_map]
  constructor
  · rintro ⟨x, ⟨y, hy, rfl⟩, hx⟩
    exact ⟨y, hy, (hq' y).mp hx⟩
  · rintro ⟨y, hy, hqy⟩
    exact ⟨_, ⟨y, hy, rfl⟩, (hq' y).mpr hqy⟩

theorem exists_of_delete {t : Table ρ} {p : ρ → Bool} {q : ρ → Prop} (h : ∃ x ∈ t.delete p, q x) :
    ∃ x ∈ t, q x := by
  obtain ⟨x, hx, hq⟩ := h
  exact ⟨x, (mem_delete.mp hx).1, hq⟩

/-! ### Selection -/

theorem mem_of_find? {t : Table ρ} {p : ρ → Bool} {r : ρ} (h : t.find? p = some r) :
    r ∈ t ∧ p r = true :=
  ⟨List.mem_of_find?_eq_some h, List.find?_some h⟩

theorem find?_eq_none {t : Table ρ} {p : ρ → Bool} : t.find? p = none ↔ ∀ r ∈ t, p r = false := by
  simp [find?, mem_def]

/-- When the condition picks rows of one key, it picks one row. -/
theorem find?_eq_some {t : Table ρ} {p : ρ → Bool} {r : ρ}
    (hp : ∀ x y, p x = true → p y = true → clash (key x) (key y) = true) :
    t.find? p = some r ↔ r ∈ t ∧ p r = true := by
  refine ⟨mem_of_find?, fun ⟨hr, hpr⟩ => ?_⟩
  cases h : t.find? p with
  | none => rw [find?_eq_none.mp h r hr] at hpr; cases hpr
  | some x =>
    obtain ⟨hx, hpx⟩ := mem_of_find? h
    rw [eq_of_clash hx hr (hp x r hpx hpr)]

/-! ### Counting -/

theorem count_insert_le (t : Table ρ) (r : ρ) (p : ρ → Bool) :
    (t.insert r).count p ≤ t.count p + if p r then 1 else 0 := by
  by_cases h : t.has (key r)
  · rw [insert_of_has h]
    omega
  · have hcount : (t.insert r).count p = t.count p + if p r then 1 else 0 := by
      unfold count
      rw [rows_insert h, List.countP_append, List.countP_singleton]
    exact Nat.le_of_eq hcount

/-- A row counted after an update was counted before, or is one of those the
update turns into such. -/
theorem count_update_le {t : Table ρ} {c : ρ → Prop} [DecidablePred c] {f : ρ → ρ} (hf : ∀ r, key (f r) = key r)
    {p q : ρ → Bool} (h : ∀ r, c r → p (f r) = true → p r = true ∨ q r = true) :
    (t.update c f hf).count p ≤ t.count p + t.count q := by
  unfold count
  rw [rows_update]
  induction t.rows with
  | nil => simp
  | cons r rows ih =>
    have hr : (if p (if c r then f r else r) then 1 else 0) ≤
        (if p r then 1 else 0) + (if q r then 1 else 0) := by
      by_cases hc : c r
      · rw [if_pos hc]
        cases hp : p (f r) with
        | false => simp
        | true => rcases h r hc hp with hr | hr <;> simp [hr]
      · rw [if_neg hc]
        omega
    simp only [List.map_cons, List.countP_cons]
    omega

/-- The rows counted in a table are counted in another, or by `q`. -/
theorem count_le_add {t t' : Table ρ} {p p' q : ρ → Bool}
    (h : ∀ r ∈ t', p' r = true → (r ∈ t ∧ p r = true) ∨ q r = true) : t'.count p' ≤ t.count p + t'.count q := by
  unfold count
  simp only [List.countP_eq_length_filter]
  have hsub : t'.rows.filter p' ⊆ t.rows.filter p ++ t'.rows.filter q := by
    intro r hr
    obtain ⟨hr, hp⟩ := List.mem_filter.mp hr
    rcases h r hr hp with ⟨ht, hpt⟩ | hq
    · exact List.mem_append_left _ (List.mem_filter.mpr ⟨ht, hpt⟩)
    · exact List.mem_append_right _ (List.mem_filter.mpr ⟨hr, hq⟩)
  have hd : (t'.rows.filter p').Nodup := t'.nodup.filter p'
  have hlen := (hd.subperm hsub).length_le
  rwa [List.length_append] at hlen

/-- Rows of one key are one row. -/
theorem count_le_one {t : Table ρ} {p : ρ → Bool}
    (hp : ∀ x y, p x = true → p y = true → clash (key x) (key y) = true) : t.count p ≤ 1 := by
  unfold count
  rw [List.countP_eq_length_filter]
  have hd : (t.rows.filter p).Nodup := t.nodup.filter p
  have he : ∀ x ∈ t.rows.filter p, ∀ y ∈ t.rows.filter p, x = y := by
    intro x hx y hy
    obtain ⟨hx, hpx⟩ := List.mem_filter.mp hx
    obtain ⟨hy, hpy⟩ := List.mem_filter.mp hy
    exact eq_of_clash hx hy (hp x y hpx hpy)
  match hl : t.rows.filter p with
  | [] => simp
  | [x] => simp
  | x :: y :: l =>
    rw [hl] at hd he
    have hxy := he x List.mem_cons_self y (List.mem_cons_of_mem _ List.mem_cons_self)
    exact absurd (hxy ▸ List.mem_cons_self) (List.nodup_cons.mp hd).1

/-! ### Deletion, and the other statements -/

theorem eq_of_rows : ∀ {t u : Table ρ}, t.rows = u.rows → t = u
  | ⟨_, _⟩, ⟨_, _⟩, rfl => rfl

/-- A row that goes is not missed. -/
theorem delete_insert_of {t : Table ρ} {r : ρ} {p : ρ → Bool} (h : p r = true) : (t.insert r).delete p = t.delete p := by
  by_cases hr : t.has (key r)
  · rw [insert_of_has hr]
  · refine eq_of_rows ?_
    show (t.insert r).rows.filter _ = t.rows.filter _
    rw [rows_insert hr, List.filter_append]
    simp [h]

/-- One that stays may come later. -/
theorem delete_insert {t : Table ρ} {r : ρ} {p : ρ → Bool} (h : p r = false)
    (hp : ∀ x, clash (key x) (key r) = true → p x = false) : (t.insert r).delete p = (t.delete p).insert r := by
  have hhas : (t.delete p).has (key r) ↔ t.has (key r) :=
    ⟨fun ⟨x, hx, hc⟩ => ⟨x, (mem_delete.mp hx).1, hc⟩, fun ⟨x, hx, hc⟩ => ⟨x, mem_delete.mpr ⟨hx, hp x hc⟩, hc⟩⟩
  by_cases hr : t.has (key r)
  · rw [insert_of_has hr, insert_of_has (hhas.mpr hr)]
  · refine eq_of_rows ?_
    rw [rows_insert (mt hhas.mp hr)]
    show (t.insert r).rows.filter _ = t.rows.filter _ ++ [r]
    rw [rows_insert hr, List.filter_append]
    simp [h]

/-- An `UPDATE` that does not change which rows go. -/
theorem delete_update {t : Table ρ} {p : ρ → Bool} {c : ρ → Prop} [DecidablePred c] {f : ρ → ρ}
    {hf : ∀ r, key (f r) = key r} (hp : ∀ r, p (f r) = p r) : (t.update c f hf).delete p = (t.delete p).update c f hf := by
  have hrow : ∀ r, p (if c r then f r else r) = p r := fun r => by split <;> simp only [hp]
  refine eq_of_rows ?_
  show (t.rows.map _).filter _ = (t.rows.filter _).map _
  rw [List.filter_map]
  simp only [Function.comp_def, hrow]

/-- An `UPDATE` that finds no row. -/
theorem update_of_none {t : Table ρ} {c : ρ → Prop} [DecidablePred c] {f : ρ → ρ} {hf : ∀ r, key (f r) = key r}
    (h : ∀ r ∈ t, ¬ c r) : t.update c f hf = t :=
  eq_of_rows ((List.map_congr_left fun r hr => if_neg (h r hr)).trans (List.map_id _))

/-! ### What a table keeps

`Kept same t t'`: every row of `t` has a row in `t'` that is the `same` in
the columns the relation names. -/

/-- Every row of `t` is still there in `t'`, up to `same`. -/
def Kept (same : ρ → ρ → Prop) (t t' : Table ρ) : Prop := ∀ r ∈ t, ∃ r' ∈ t', same r r'

variable {same : ρ → ρ → Prop}

theorem Kept.refl (hs : ∀ r, same r r) (t : Table ρ) : Kept same t t := fun r hr => ⟨r, hr, hs r⟩

theorem Kept.trans (hs : ∀ a b c, same a b → same b c → same a c) {t u v : Table ρ}
    (h : Kept same t u) (h' : Kept same u v) : Kept same t v := by
  intro r hr
  obtain ⟨r', hr', e⟩ := h r hr
  obtain ⟨r'', hr'', e'⟩ := h' r' hr'
  exact ⟨r'', hr'', hs _ _ _ e e'⟩

theorem kept_insert (hs : ∀ r, same r r) (t : Table ρ) (r : ρ) : Kept same t (t.insert r) :=
  fun x hx => ⟨x, mem_insert_of_mem hx, hs x⟩

theorem kept_update (hs : ∀ r, same r r) {t : Table ρ} {p : ρ → Prop} [DecidablePred p] {f : ρ → ρ}
    (hf : ∀ r, key (f r) = key r) (h : ∀ r, p r → same r (f r)) : Kept same t (t.update p f hf) := by
  refine fun x hx => ⟨_, mem_update_of_mem hx, ?_⟩
  split
  · exact h x ‹_›
  · exact hs x

theorem kept_of_update (hs : ∀ r, same r r) {t : Table ρ} {p : ρ → Prop} [DecidablePred p] {f : ρ → ρ}
    (hf : ∀ r, key (f r) = key r) (h : ∀ r, p r → same (f r) r) : Kept same (t.update p f hf) t := by
  intro x hx
  obtain ⟨y, hy, rfl⟩ := mem_update.mp hx
  refine ⟨y, hy, ?_⟩
  split
  · exact h y ‹_›
  · exact hs y

end Table
end Txn

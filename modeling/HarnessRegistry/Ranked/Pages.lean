/-
# Pages of a listing with ties

A query returns rows by a key, the greatest first, one page at a time. Rows
with equal keys come out in any order, and with every query in another one. So
`above` and `upto` are all that is known of a row's place, and the pages put
together are the rows, whatever the orders, exactly if no rows with one key lie
on both sides of a page's end (`pages_perm`, `not_pages_perm`).

Key definitions: `Before`, `sorted`, `above`, `upto`, `page`, `Straddles`,
`pages`.
Key theorems: `above_le_index`, `index_lt_upto`, `mem_page_iff`, `pages_perm`,
`not_pages_perm`, `until_empty_iff`.
-/
import Mathlib.Data.List.Nodup
import Mathlib.Data.List.Sort

namespace Ranked

variable {α κ : Type} [LinearOrder κ] (key : α → κ)

/-- `a` comes out before `b`: it has the greater key, or the same and the
smaller rank. -/
def Before (rank : α → ℕ) (a b : α) : Prop := key b < key a ∨ (key b = key a ∧ rank a ≤ rank b)

instance (rank : α → ℕ) : DecidableRel (Before key rank) := fun _ _ => by unfold Before; infer_instance

instance (rank : α → ℕ) : Std.Total (Before key rank) := ⟨fun a b => by
  unfold Before
  rcases lt_trichotomy (key a) (key b) with h | h | h
  · exact .inr (.inl h)
  · exact (Nat.le_total (rank a) (rank b)).imp (fun hr => .inr ⟨h.symm, hr⟩) fun hr => .inr ⟨h, hr⟩
  · exact .inl (.inl h)⟩

instance (rank : α → ℕ) : IsTrans α (Before key rank) := ⟨fun a b c hab hbc => by
  rcases hab with hab | ⟨hab, hr⟩ <;> rcases hbc with hbc | ⟨hbc, hr'⟩
  · exact .inl (hbc.trans hab)
  · exact .inl (hbc ▸ hab)
  · exact .inl (hab ▸ hbc)
  · exact .inr ⟨hbc.trans hab, hr.trans hr'⟩⟩

/-- The rows in order. -/
def sorted (rank : α → ℕ) (l : List α) : List α := l.insertionSort (Before key rank)

theorem sorted_perm (rank : α → ℕ) (l : List α) : (sorted key rank l).Perm l := List.perm_insertionSort _ _

/-- How many rows have a greater key. -/
def above (l : List α) (x : α) : ℕ := l.countP fun y => decide (key x < key y)

/-- How many have the same or a greater one. -/
def upto (l : List α) (x : α) : ℕ := l.countP fun y => decide (key x ≤ key y)

section Places

variable {key} {rank : α → ℕ} {l : List α} {x : α} {i : ℕ}

theorem mem_sorted : x ∈ sorted key rank l ↔ x ∈ l := (sorted_perm key rank l).mem_iff

theorem exists_index (key : α → κ) (rank : α → ℕ) (hx : x ∈ l) : ∃ i : ℕ, (sorted key rank l)[i]? = some x :=
  List.mem_iff_getElem?.mp (mem_sorted.mpr hx)

theorem length_sorted : (sorted key rank l).length = l.length := (sorted_perm key rank l).length_eq

/-- Rows come out in order. -/
theorem before_of_lt {y : α} {j : ℕ} (hi : (sorted key rank l)[i]? = some x) (hj : (sorted key rank l)[j]? = some y)
    (h : i < j) : Before key rank x y := by
  obtain ⟨hi', rfl⟩ := List.getElem?_eq_some_iff.mp hi
  obtain ⟨hj', rfl⟩ := List.getElem?_eq_some_iff.mp hj
  exact List.pairwise_iff_getElem.mp (List.pairwise_insertionSort (Before key rank) l) i j hi' hj' h

theorem Before.le {a b : α} (h : Before key rank a b) : key b ≤ key a := h.elim le_of_lt fun h => h.1.le

/-- What holds only of rows before place `i` holds of at most `i` rows. -/
theorem countP_le_of {p : α → Bool} {m : List α} (h : ∀ j y, m[j]? = some y → p y = true → j < i) : m.countP p ≤ i := by
  rw [← List.take_append_drop i m, List.countP_append]
  have hdrop : (m.drop i).countP p = 0 := List.countP_eq_zero.mpr fun y hy hp => by
    obtain ⟨j, hj⟩ := List.mem_iff_getElem?.mp hy
    rw [List.getElem?_drop] at hj
    exact absurd (h _ y hj hp) (by omega)
  have htake := List.countP_le_length (p := p) (l := m.take i)
  rw [List.length_take] at htake
  omega

/-- What holds of all rows before place `i` holds of at least `i` rows. -/
theorem le_countP_of {p : α → Bool} {m : List α} (hi : i ≤ m.length) (h : ∀ j y, m[j]? = some y → j < i → p y = true) :
    i ≤ m.countP p := by
  rw [← List.take_append_drop i m, List.countP_append]
  have htake : (m.take i).countP p = i := by
    rw [List.countP_eq_length.mpr fun y hy => ?_, List.length_take, min_eq_left hi]
    obtain ⟨j, hj⟩ := List.mem_iff_getElem?.mp hy
    rw [List.getElem?_take] at hj
    split at hj
    · exact h j y hj ‹_›
    · cases hj
  omega

/-- Only the ranks of the rows matter. -/
theorem sorted_congr {rank' : α → ℕ} (h : ∀ a ∈ l, rank a = rank' a) : sorted key rank l = sorted key rank' l := by
  have hmap := List.map_insertionSort (r := Before key rank) (s := Before key rank') id l fun a ha b hb => by
    unfold Before
    rw [id, id, h a ha, h b hb]
  rwa [List.map_id, List.map_id] at hmap

/-- A row's place is not before those of the greater keys. -/
theorem above_le_index (hi : (sorted key rank l)[i]? = some x) : above key l x ≤ i := by
  rw [above, ← (sorted_perm key rank l).countP_eq]
  refine countP_le_of fun j y hj hp => ?_
  by_contra hij
  rcases Nat.lt_or_eq_of_le (Nat.le_of_not_lt hij) with hlt | rfl
  · exact absurd (of_decide_eq_true hp) (not_lt.mpr (before_of_lt hi hj hlt).le)
  · obtain rfl := Option.some.inj (hi.symm.trans hj)
    exact absurd (of_decide_eq_true hp) (lt_irrefl _)

/-- Nor behind those of the same key. -/
theorem index_lt_upto (hi : (sorted key rank l)[i]? = some x) : i < upto key l x := by
  rw [upto, ← (sorted_perm key rank l).countP_eq]
  refine le_countP_of (i := i + 1) (List.getElem?_eq_some_iff.mp hi).1 fun j y hj hij => decide_eq_true ?_
  rcases Nat.lt_or_eq_of_le (Nat.le_of_lt_succ hij) with hlt | rfl
  · exact (before_of_lt hj hi hlt).le
  · obtain rfl := Option.some.inj (hi.symm.trans hj)
    exact le_rfl

/-- A row has one place. -/
theorem index_unique {j : ℕ} (hl : l.Nodup) (hi : (sorted key rank l)[i]? = some x)
    (hj : (sorted key rank l)[j]? = some x) : i = j :=
  (List.getElem?_inj (List.getElem?_eq_some_iff.mp hi).1 ((sorted_perm key rank l).nodup_iff.mpr hl)).mp (hi.trans hj.symm)

/-- The row of a key with the least rank comes first of them. -/
theorem index_of_first (hl : l.Nodup) (hi : (sorted key rank l)[i]? = some x)
    (hrank : ∀ y ∈ l, y ≠ x → rank x < rank y) : i = above key l x := by
  refine le_antisymm ?_ (above_le_index hi)
  rw [above, ← (sorted_perm key rank l).countP_eq]
  refine le_countP_of (List.getElem?_eq_some_iff.mp hi).1.le fun j y hj hij => decide_eq_true ?_
  have hne : y ≠ x := by
    rintro rfl
    exact hij.ne (index_unique hl hj hi)
  rcases before_of_lt hj hi hij with h | ⟨-, h⟩
  · exact h
  · exact absurd h (not_le.mpr (hrank y (mem_sorted.mp (List.mem_of_getElem? hj)) hne))

/-- The one with the greatest comes last. -/
theorem index_of_last (hl : l.Nodup) (hi : (sorted key rank l)[i]? = some x)
    (hrank : ∀ y ∈ l, y ≠ x → rank y < rank x) : i + 1 = upto key l x := by
  refine le_antisymm (index_lt_upto hi) ?_
  rw [upto, ← (sorted_perm key rank l).countP_eq]
  refine countP_le_of fun j y hj hp => ?_
  by_contra hij
  have hne : y ≠ x := by
    rintro rfl
    have := index_unique hl hi hj
    omega
  rcases before_of_lt hi hj (by omega) with h | ⟨-, h⟩
  · exact absurd (of_decide_eq_true hp) (not_le.mpr h)
  · exact absurd h (not_le.mpr (hrank y (mem_sorted.mp (List.mem_of_getElem? hj)) hne))

theorem upto_le_above {y : α} (h : key x < key y) : upto key l y ≤ above key l x :=
  List.countP_mono_left fun _ _ hz => decide_eq_true (h.trans_le (of_decide_eq_true hz))

/-- A greater key comes first, whatever the rankings. -/
theorem index_lt_index {rank' : α → ℕ} {y : α} {j : ℕ} (hi : (sorted key rank l)[i]? = some y)
    (hj : (sorted key rank' l)[j]? = some x) (h : key x < key y) : i < j :=
  calc i < upto key l y := index_lt_upto hi
    _ ≤ above key l x := upto_le_above h
    _ ≤ j := above_le_index hj

end Places

/-! ### Pages -/

/-- Page `k`, of `n` rows. -/
def page (l : List α) (n k : ℕ) : List α := (l.drop (k * n)).take n

/-- Rows with the key of `x` lie on both sides of a page's end. -/
def Straddles (l : List α) (n : ℕ) (x : α) : Prop := ∃ k, above key l x < k * n ∧ k * n < upto key l x

/-- The first `K` pages, each of a query with a ranking of its own. -/
def pages (ranks : ℕ → α → ℕ) (l : List α) (n K : ℕ) : List α :=
  (List.range K).flatMap fun k => page (sorted key (ranks k) l) n k

section Pages

variable {key} {rank : α → ℕ} {ranks : ℕ → α → ℕ} {l : List α} {x : α} {n k K : ℕ}

theorem mem_page_iff (hn : 0 < n) : x ∈ page l n k ↔ ∃ i : ℕ, l[i]? = some x ∧ i / n = k := by
  unfold page
  constructor
  · intro hx
    obtain ⟨i, hi⟩ := List.mem_iff_getElem?.mp hx
    rw [List.getElem?_take] at hi
    split at hi
    · rename_i hin
      rw [List.getElem?_drop] at hi
      refine ⟨_, hi, ?_⟩
      rw [Nat.add_comm, Nat.add_mul_div_right _ _ hn, Nat.div_eq_of_lt hin, Nat.zero_add]
    · cases hi
  · rintro ⟨i, hi, rfl⟩
    refine List.mem_iff_getElem?.mpr ⟨i % n, ?_⟩
    rw [List.getElem?_take, if_pos (Nat.mod_lt _ hn), List.getElem?_drop, Nat.div_add_mod' i n, hi]

theorem page_eq_nil_iff (hn : 0 < n) : page l n k = [] ↔ l.length ≤ k * n := by
  unfold page
  rw [List.take_eq_nil_iff, List.drop_eq_nil_iff]
  exact or_iff_right hn.ne'

theorem page_nodup (hl : l.Nodup) : (page l n k).Nodup :=
  (hl.sublist (List.drop_sublist _ _)).sublist (List.take_sublist _ _)

/-- Without a tie across a page's end a row's page does not depend on the
ranking. -/
theorem index_div (hn : 0 < n) (hs : ¬ Straddles key l n x) {i : ℕ} (hi : (sorted key rank l)[i]? = some x) :
    i / n = above key l x / n := by
  refine le_antisymm ?_ (Nat.div_le_div_right (above_le_index hi))
  by_contra hlt
  refine hs ⟨i / n, ?_, (Nat.div_mul_le_self i n).trans_lt (index_lt_upto hi)⟩
  exact (Nat.div_lt_iff_lt_mul hn).mp (not_le.mp hlt)

/-- A row's page is one of those that are needed. -/
theorem div_lt_of_index (hn : 0 < n) (hK : l.length ≤ K * n) {i : ℕ} (hi : (sorted key rank l)[i]? = some x) :
    i / n < K := by
  have hlen := (List.getElem?_eq_some_iff.mp hi).1
  rw [length_sorted] at hlen
  exact (Nat.div_lt_iff_lt_mul hn).mpr (hlen.trans_le hK)

theorem mem_pages : x ∈ pages key ranks l n K ↔ ∃ k < K, x ∈ page (sorted key (ranks k) l) n k := by
  simp [pages]

/-- Pages put together are the rows if no tie lies across an end. -/
theorem pages_perm (hl : l.Nodup) (hn : 0 < n) (hK : l.length ≤ K * n) (hs : ∀ x ∈ l, ¬ Straddles key l n x) :
    (pages key ranks l n K).Perm l := by
  have hpage : ∀ k x, x ∈ page (sorted key (ranks k) l) n k → x ∈ l ∧ above key l x / n = k := by
    intro k x hx
    obtain ⟨i, hi, rfl⟩ := (mem_page_iff hn).mp hx
    have hin : x ∈ l := mem_sorted.mp (List.mem_of_getElem? hi)
    exact ⟨hin, (index_div hn (hs x hin) hi).symm⟩
  refine (List.perm_ext_iff_of_nodup ?_ hl).mpr fun x => ⟨fun hx => ?_, fun hx => ?_⟩
  · refine List.nodup_flatMap.mpr ⟨fun k _ => page_nodup ((sorted_perm key _ l).nodup_iff.mpr hl), ?_⟩
    refine List.nodup_range.imp fun {j k} hne x hj hk => hne ?_
    rw [← (hpage j x hj).2, (hpage k x hk).2]
  · obtain ⟨k, -, hx⟩ := mem_pages.mp hx
    exact (hpage k x hx).1
  · -- the row is on the page of its place
    obtain ⟨i, hi⟩ := exists_index key (ranks (above key l x / n)) hx
    refine mem_pages.mpr ⟨above key l x / n, ?_, (mem_page_iff hn).mpr ⟨i, hi, index_div hn (hs x hx) hi⟩⟩
    rw [← index_div hn (hs x hx) hi]
    exact div_lt_of_index hn hK hi

/-- If one does, some rankings give a row on two pages. -/
theorem not_pages_perm (hl : l.Nodup) (hn : 0 < n) (hK : l.length ≤ K * n) (hx : x ∈ l) (hs : Straddles key l n x) :
    ∃ ranks, ¬ (pages key ranks l n K).Nodup := by
  classical
  obtain ⟨k, hlo, hhi⟩ := hs
  -- first among its equals on the pages before `k`, and last from there on
  let first : α → ℕ := fun y => if y = x then 0 else 1
  let last : α → ℕ := fun y => if y = x then 1 else 0
  let ranks : ℕ → α → ℕ := fun j => if j < k then first else last
  obtain ⟨i, hi⟩ := exists_index key first hx
  obtain ⟨j, hj⟩ := exists_index key last hx
  have hi' : i = above key l x := index_of_first hl hi fun y _ hne => by simp [first, hne]
  have hj' : j + 1 = upto key l x := index_of_last hl hj fun y _ hne => by simp [last, hne]
  have hik : i / n < k := (Nat.div_lt_iff_lt_mul hn).mpr (by omega)
  have hjk : k ≤ j / n := (Nat.le_div_iff_mul_le hn).mpr (by omega)
  refine ⟨ranks, fun hnd => ?_⟩
  have hdisj := (List.nodup_flatMap.mp hnd).2
  have hpi : x ∈ page (sorted key (ranks (i / n)) l) n (i / n) := by
    rw [show ranks (i / n) = first from if_pos hik]
    exact (mem_page_iff hn).mpr ⟨i, hi, rfl⟩
  have hpj : x ∈ page (sorted key (ranks (j / n)) l) n (j / n) := by
    rw [show ranks (j / n) = last from if_neg (not_lt.mpr hjk)]
    exact (mem_page_iff hn).mpr ⟨j, hj, rfl⟩
  have hne : i / n < j / n := hik.trans_le hjk
  have hrange := List.pairwise_iff_getElem.mp hdisj (i / n) (j / n) (by simpa using div_lt_of_index hn hK hi)
    (by simpa using div_lt_of_index hn hK hj) hne
  simp only [List.getElem_range] at hrange
  exact hrange hpi hpj

end Pages

/-- Reading pages up to the first empty one reads those before it. -/
theorem until_empty_iff {β : Type} {P : ℕ → List β} {K : ℕ} (hP : ∀ k, P k = [] ↔ K ≤ k) {ps : List (List β)} :
    ((∀ p ∈ ps, p ≠ []) ∧ ∀ k p, (ps ++ [[]])[k]? = some p → p = P k) ↔ ps = (List.range K).map P := by
  constructor
  · rintro ⟨hne, hps⟩
    have hread : ∀ k (hk : k < ps.length), ps[k] = P k := fun k hk =>
      hps k _ (by rw [List.getElem?_append_left hk, List.getElem?_eq_getElem hk])
    have hlast : K ≤ ps.length := (hP _).mp (hps ps.length [] (by simp)).symm
    have hcount : ps.length = K := by
      refine le_antisymm (not_lt.mp fun hlt => ?_) hlast
      exact hne _ (List.getElem_mem hlt) ((hread K hlt).trans ((hP K).mpr le_rfl))
    refine List.ext_getElem (by simp [hcount]) fun k hk _ => ?_
    rw [hread k hk, List.getElem_map, List.getElem_range]
  · rintro rfl
    refine ⟨fun p hp => ?_, fun k p hk => ?_⟩
    · obtain ⟨k, hk, rfl⟩ := List.mem_map.mp hp
      exact fun h => absurd (List.mem_range.mp hk) (not_lt.mpr ((hP k).mp h))
    · rw [List.getElem?_append, List.length_map, List.length_range] at hk
      by_cases hlt : k < K
      · rw [if_pos hlt, List.getElem?_map, List.getElem?_range hlt] at hk
        exact (Option.some.inj hk).symm
      · rw [if_neg hlt, List.getElem?_singleton, Option.ite_none_right_eq_some] at hk
        rw [← Option.some.inj hk.2, (hP k).mpr (not_lt.mp hlt)]

end Ranked

/-
# Searching the library

The search term becomes the middle of an `ILIKE` pattern, between two `%`. A
term of plain characters is found where it occurs (`like_plain`). One with a
`%`, a `_` or a backslash also matches a text in which it does not occur
(`exemplar_matches`, `exemplar_plain`), so search is for literal substrings
exactly for the terms without them (`search_iff`).

Key definitions: `isWild`, `Occurs`, `exemplar`, `Finds`.
Key theorems: `like_plain`, `exemplar_matches`, `exemplar_plain`, `finds_iff`,
`search_iff`.
-/
import HarnessRegistry.Browse

namespace HarnessRegistry

open Txn Handler

variable {app : AppState} {db : Db} {env : Env} {lower : Char → Char} {q : String}

/-! ### Patterns -/

/-- A character that `LIKE` does not take literally. -/
def isWild (c : Char) : Bool := c == '%' || c == '_' || c == '\\'

theorem isWild_iff {c : Char} : isWild c = true ↔ c = '%' ∨ c = '_' ∨ c = '\\' := by
  simp [isWild, or_assoc]

theorem like_percent {ps t : List Char} : like ('%' :: ps) t = true ↔ ∃ u, u <:+ t ∧ like ps u = true := by
  rw [like.eq_def]
  simp only [if_pos, List.any_eq_true, List.mem_tails]

theorem like_underscore (ps : List Char) (c : Char) (t : List Char) : like ('_' :: ps) (c :: t) = like ps t := by
  rw [like.eq_def]
  simp

theorem like_escape (e : Char) (ps : List Char) (c : Char) (t : List Char) :
    like ('\\' :: e :: ps) (c :: t) = (e == c && like ps t) := by
  rw [like.eq_def]
  simp

/-- A `%` at the end matches whatever is left. -/
theorem like_last (t : List Char) : like ['%'] t = true := like_percent.mpr ⟨[], List.nil_suffix, rfl⟩

/-- Plain characters match themselves. -/
theorem like_append {ps : List Char} : ∀ {p t : List Char}, (∀ c ∈ p, isWild c = false) →
    (like (p ++ ps) t = true ↔ ∃ u, t = p ++ u ∧ like ps u = true)
  | [], t, _ => by simp
  | c :: p, t, h => by
    have hc : ¬ isWild c = true := by simp [h c List.mem_cons_self]
    rw [isWild_iff, not_or, not_or] at hc
    rw [List.cons_append, like.eq_def]
    dsimp only
    rw [if_neg hc.1]
    cases t with
    | nil => simp
    | cons d t =>
      have ih : like (p ++ ps) t = true ↔ ∃ u, t = p ++ u ∧ like ps u = true :=
        like_append fun c hc => h c (List.mem_cons_of_mem _ hc)
      dsimp only
      rw [if_neg hc.2.1, if_neg hc.2.2, Bool.and_eq_true, beq_iff_eq, ih]
      constructor
      · rintro ⟨rfl, u, rfl, hu⟩
        exact ⟨u, rfl, hu⟩
      · rintro ⟨u, he, hu⟩
        obtain ⟨rfl, rfl⟩ := List.cons.inj he
        exact ⟨rfl, u, rfl, hu⟩

/-- **A pattern of plain characters between two `%`** matches the texts they
occur in. -/
theorem like_plain {p t : List Char} (h : ∀ c ∈ p, isWild c = false) :
    like ('%' :: (p ++ ['%'])) t = true ↔ p <:+: t := by
  rw [like_percent]
  constructor
  · rintro ⟨u, ⟨s, rfl⟩, hu⟩
    obtain ⟨v, rfl, -⟩ := (like_append h).mp hu
    exact ⟨s, v, by rw [List.append_assoc]⟩
  · rintro ⟨s, v, rfl⟩
    exact ⟨p ++ v, ⟨s, by rw [List.append_assoc]⟩, (like_append h).mpr ⟨v, rfl, like_last v⟩⟩

/-! ### A text that a term matches -/

/-- A text that the pattern of a term matches: nothing for a `%`, a letter for a
`_`, and what a backslash escapes, which at the end is the `%` behind it. -/
def exemplar : List Char → List Char
  | [] => []
  | '%' :: ps => exemplar ps
  | '_' :: ps => 'a' :: exemplar ps
  | ['\\'] => ['%']
  | '\\' :: c :: ps => c :: exemplar ps
  | c :: ps => c :: exemplar ps

/-- What the last case of `exemplar` is left with. -/
theorem plain_of_rest {c : Char} {ps : List Char} (h1 : c = '%' → False) (h2 : c = '_' → False)
    (h3 : c = '\\' → ps = [] → False) (h4 : ∀ (d : Char) (qs : List Char), c = '\\' → ps = d :: qs → False) :
    isWild c = false := by
  by_contra hc
  rcases isWild_iff.mp (Bool.not_eq_false _ ▸ hc) with rfl | rfl | rfl
  · exact h1 rfl
  · exact h2 rfl
  · cases ps with
    | nil => exact h3 rfl rfl
    | cons d qs => exact h4 d qs rfl rfl

theorem exemplar_cons {c : Char} (hc : isWild c = false) (ps : List Char) : exemplar (c :: ps) = c :: exemplar ps := by
  have hne : ¬ (c = '%' ∨ c = '_' ∨ c = '\\') := fun h => by
    rw [isWild_iff.mpr h] at hc
    cases hc
  rw [exemplar]
  · exact fun h => hne (.inl h)
  · exact fun h => hne (.inr (.inl h))
  · exact fun h _ => hne (.inr (.inr h))
  · exact fun _ _ h _ => hne (.inr (.inr h))

/-- Case folding leaves the characters that `LIKE` does not take literally alone,
and makes no other character one of them. -/
def Folds (lower : Char → Char) : Prop := ∀ c, isWild c = true ∨ isWild (lower c) = true → lower c = c

theorem Folds.wild {c : Char} (h : Folds lower) : isWild (lower c) = isWild c := by
  cases hc : isWild c with
  | true => rw [h c (.inl hc), hc]
  | false =>
    by_contra hno
    have hl := Bool.not_eq_false _ ▸ hno
    rw [h c (.inr hl), hc] at hl
    cases hl

theorem Folds.percent (h : Folds lower) : lower '%' = '%' := h _ (.inl rfl)

theorem Folds.underscore (h : Folds lower) : lower '_' = '_' := h _ (.inl rfl)

theorem Folds.backslash (h : Folds lower) : lower '\\' = '\\' := h _ (.inl rfl)

/-- The pattern of a term matches its exemplar. -/
theorem exemplar_matches (h : Folds lower) (p : List Char) :
    like (p.map lower ++ ['%']) ((exemplar p).map lower) = true := by
  induction p using exemplar.induct with
  | case1 => exact like_last []
  | case2 ps ih =>
    rw [exemplar, List.map_cons, h.percent, List.cons_append]
    exact like_percent.mpr ⟨_, List.suffix_rfl, ih⟩
  | case3 ps ih =>
    rw [exemplar, List.map_cons, List.map_cons, h.underscore, List.cons_append, like_underscore]
    exact ih
  | case4 =>
    rw [exemplar, List.map_singleton, List.map_singleton, h.backslash, h.percent]
    exact like_escape _ _ _ _
  | case5 c ps ih =>
    rw [exemplar, List.map_cons, List.map_cons, List.map_cons, h.backslash, List.cons_append, List.cons_append,
      like_escape, ih]
    simp
  | case6 c ps h1 h2 h3 h4 ih =>
    have hc : isWild (lower c) = false := h.wild.trans (plain_of_rest h1 h2 h3 h4)
    rw [exemplar_cons (plain_of_rest h1 h2 h3 h4), List.map_cons, List.map_cons, List.cons_append, ← List.singleton_append]
    exact (like_append (by simpa using hc)).mpr ⟨_, rfl, ih⟩

/-- The exemplar is no longer than the term, and it is the term, case aside, only
if that has plain characters. -/
theorem exemplar_plain (h : Folds lower) (p : List Char) : (exemplar p).length ≤ p.length ∧
    ((exemplar p).map lower = p.map lower → ∀ c ∈ p, isWild c = false) := by
  induction p using exemplar.induct with
  | case1 => exact ⟨le_rfl, by simp⟩
  | case2 ps ih =>
    rw [exemplar]
    refine ⟨ih.1.trans (by simp), fun he => ?_⟩
    have := congrArg List.length he
    simp only [List.length_map, List.length_cons] at this
    omega
  | case3 ps ih =>
    rw [exemplar]
    refine ⟨by simpa using ih.1, fun he => ?_⟩
    have ha : lower 'a' = '_' := h.underscore ▸ (List.cons.inj he).1
    have := h 'a' (.inr (ha ▸ rfl))
    rw [ha] at this
    cases this
  | case4 =>
    refine ⟨le_rfl, fun he => ?_⟩
    have := (List.cons.inj he).1
    rw [h.percent, h.backslash] at this
    cases this
  | case5 c ps ih =>
    rw [exemplar]
    refine ⟨by simp only [List.length_cons]; omega, fun he => ?_⟩
    have := congrArg List.length he
    simp only [List.length_map, List.length_cons] at this
    omega
  | case6 c ps h1 h2 h3 h4 ih =>
    rw [exemplar_cons (plain_of_rest h1 h2 h3 h4)]
    refine ⟨by simpa using ih.1, fun he => ?_⟩
    exact List.forall_mem_cons.mpr ⟨plain_of_rest h1 h2 h3 h4, ih.2 (List.cons.inj he).2⟩

/-! ### What a search finds -/

/-- The term occurs in the text, case aside. -/
def Occurs (lower : Char → Char) (q text : String) : Prop := q.toList.map lower <:+: text.toList.map lower

/-- A listing with the term as its only filter. -/
def searching (q : String) (limit offset : Option ℤ) (sort : Option String) : ListParams :=
  ⟨none, some q, none, limit, offset, sort⟩

/-- A search for the term has the workflow on one of its pages. -/
def Finds (app : AppState) (db : Db) (env : Env) (q slug : String) : Prop :=
  ∃ limit offset sort rows, (handle app (.list (searching q limit offset sort))).alone (S := registry) env none db =
    some (.ok (.summaries rows), db) ∧ ∃ row ∈ rows, row.slug = slug

theorem ilike_eq (h : Folds lower) (q text : String) : ilike lower text ("%" ++ q ++ "%") =
    like ('%' :: (q.toList.map lower ++ ['%'])) (text.toList.map lower) := by
  unfold ilike
  have hp : ("%" ++ q ++ "%").toList = '%' :: (q.toList ++ ['%']) := by simp
  rw [hp, List.map_cons, List.map_append, List.map_singleton, h.percent]

/-- Terms of plain characters are found where they occur. -/
theorem ilike_plain (h : Folds lower) (hq : ∀ c ∈ q.toList, isWild c = false) (text : String) :
    ilike lower text ("%" ++ q ++ "%") = true ↔ Occurs lower q text := by
  rw [ilike_eq h]
  refine like_plain fun c hc => ?_
  obtain ⟨d, hd, rfl⟩ := List.mem_map.mp hc
  rw [h.wild, hq d hd]

/-- Any other also matches a text in which it does not occur. -/
theorem ilike_exemplar (h : Folds lower) (q : String) :
    ilike lower (String.ofList (exemplar q.toList)) ("%" ++ q ++ "%") = true ∧
      (Occurs lower q (String.ofList (exemplar q.toList)) → ∀ c ∈ q.toList, isWild c = false) := by
  rw [ilike_eq h]
  unfold Occurs
  rw [String.toList_ofList]
  refine ⟨like_percent.mpr ⟨_, List.suffix_rfl, exemplar_matches h _⟩, fun hin => ?_⟩
  obtain ⟨hlen, hplain⟩ := exemplar_plain h q.toList
  apply hplain
  refine (hin.eq_of_length (le_antisymm hin.length_le ?_)).symm
  simpa using hlen

/-- A search goes through the listed workflows. -/
theorem finds_iff (hown : ∀ w ∈ db.workflows, ∃ p ∈ db.publishers, p.id = w.publisherId) (hnul : hasNul q = false)
    {w : WorkflowRow} (hw : w ∈ db.workflows) : Finds app db env q w.slug ↔ w.unlistedAt = none ∧
      (ilike env.lower w.title ("%" ++ q ++ "%") = true ∨ ilike env.lower w.description ("%" ++ q ++ "%") = true) := by
  have hsel : ∀ limit offset sort, ((searching q limit offset sort).query.selects env.lower w = true ↔ w.unlistedAt = none ∧
      (ilike env.lower w.title ("%" ++ q ++ "%") = true ∨ ilike env.lower w.description ("%" ++ q ++ "%") = true)) := by
    intro limit offset sort
    simp [ListQuery.selects, searching, ListParams.query]
  constructor
  · rintro ⟨limit, offset, sort, rows, h, row, hrow, hslug⟩
    obtain ⟨v, hv, hselv, hsum⟩ := alone_list_selects h row hrow
    obtain rfl := WorkflowRow.eq_of_slug hv hw ((summary_eq_some hsum).1.symm.trans hslug)
    exact (hsel limit offset sort).mp hselv
  · intro hcond
    obtain ⟨row, hsum⟩ := exists_summary hown env.now hw
    let params := searching q none none none
    have hin : (w.id, row) ∈ db.selected env.now env.lower params.query :=
      List.mem_filterMap.mpr ⟨w, List.mem_filter.mpr ⟨hw, (hsel none none none).mpr hcond⟩, by rw [hsum]; rfl⟩
    -- the page of one row that it is on
    obtain ⟨i, hi⟩ := Ranked.exists_index params.query.sort.key env.ranking hin
    have hnul : ∀ t ∈ params.tag.toList ++ params.q.toList, hasNul t = false := by
      simpa [params, searching] using hnul
    refine ⟨_, _, _, _, alone_list_page (le_refl 1) (by omega) hnul env i, row, ?_, (summary_eq_some hsum).1⟩
    exact List.mem_map_of_mem ((Ranked.mem_page_iff Nat.one_pos).mpr ⟨i, hi, Nat.div_one i⟩)

/-- A database with one workflow, whose title and description are this text. -/
def Db.titled (text : String) : Db :=
  ⟨(∅ : Table PublisherRow).insert ⟨1, 1000, "ada", none, none, none⟩, ∅,
    (∅ : Table WorkflowRow).insert ⟨11, "entry", text, text, [], 1, false, 5, none⟩,
    (∅ : Table VersionRow).insert ⟨11, 1, "steps: []", none, 5, none⟩, ∅⟩

theorem Db.titled_owned (text : String) :
    ∀ w ∈ (Db.titled text).workflows, ∃ p ∈ (Db.titled text).publishers, p.id = w.publisherId := by
  intro w hw
  obtain rfl := List.mem_singleton.mp hw
  exact ⟨_, List.mem_singleton_self _, rfl⟩

/-- **When search is for a literal substring.** On every database a search for a
term, case folding aside, finds exactly the listed workflows with the term in
their title or description, if and only if the term has no `%`, no `_` and no
backslash. -/
theorem search_iff (app : AppState) (h : Folds lower) (q : String) (hnul : hasNul q = false) :
    (∀ (db : Db) (env : Env), (∀ w ∈ db.workflows, ∃ p ∈ db.publishers, p.id = w.publisherId) → env.lower = lower →
      ∀ w ∈ db.workflows, (Finds app db env q w.slug ↔
        w.unlistedAt = none ∧ (Occurs lower q w.title ∨ Occurs lower q w.description))) ↔
    ∀ c ∈ q.toList, isWild c = false := by
  constructor
  · intro hall
    let text := String.ofList (exemplar q.toList)
    let env : Env := ⟨0, 0, fun _ => 0, lower, fun _ _ => true⟩
    obtain ⟨hlike, hplain⟩ := ilike_exemplar h q
    have hw : (⟨11, "entry", text, text, [], 1, false, 5, none⟩ : WorkflowRow) ∈ (Db.titled text).workflows :=
      List.mem_singleton_self _
    have hfinds : Finds app (Db.titled text) env q "entry" :=
      (finds_iff (Db.titled_owned text) hnul hw).mpr ⟨rfl, .inl hlike⟩
    obtain ⟨-, hin | hin⟩ := (hall _ env (Db.titled_owned text) rfl _ hw).mp hfinds
    · exact hplain hin
    · exact hplain hin
  · rintro hq db env hown rfl w hw
    rw [finds_iff hown hnul hw, ilike_plain h hq, ilike_plain h hq]

/-- **A search for `100%` finds a text without it.** -/
theorem wildcard_finds : Finds Sample.replica (Db.titled "Handles 1000 items") (Sample.env 50) "100%" "entry" ∧
    ¬ Occurs Char.toLower "100%" "Handles 1000 items" := by
  have hw : (⟨11, "entry", "Handles 1000 items", "Handles 1000 items", [], 1, false, 5, none⟩ : WorkflowRow) ∈
      (Db.titled "Handles 1000 items").workflows := List.mem_singleton_self _
  refine ⟨(finds_iff (Db.titled_owned _) (by decide) hw).mpr ⟨rfl, .inl (by decide +kernel)⟩, ?_⟩
  unfold Occurs
  decide +kernel

theorem folds_toLower : Folds Char.toLower := by
  intro c hc
  unfold Char.toLower at hc ⊢
  split
  · rename_i hupper
    rw [dif_pos hupper] at hc
    have hlo : 65 ≤ c.toNat := UInt32.le_iff_toNat_le.mp hupper.1
    have hhi : c.toNat ≤ 90 := UInt32.le_iff_toNat_le.mp hupper.2
    rcases hc with hc | hc <;> rcases isWild_iff.mp hc with he | he | he <;>
      · have := congrArg Char.toNat he
        simp [UInt32.toNat_add] at this
        omega
  · rfl

/-- A search for `pdf`. -/
theorem search_iff_pdf : Finds Sample.replica (Db.titled "Merge PDF files") (Sample.env 50) "pdf" "entry" := by
  have hw : (⟨11, "entry", "Merge PDF files", "Merge PDF files", [], 1, false, 5, none⟩ : WorkflowRow) ∈
      (Db.titled "Merge PDF files").workflows := List.mem_singleton_self _
  have hq : ("pdf".toList.all fun c => !isWild c) = true := by decide +kernel
  refine ((search_iff Sample.replica folds_toLower "pdf" (by decide +kernel)).mpr (by simpa using hq) _ (Sample.env 50)
    (Db.titled_owned _) rfl _ hw).mpr ⟨rfl, .inl ?_⟩
  unfold Occurs
  decide +kernel

end HarnessRegistry

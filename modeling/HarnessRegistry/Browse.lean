/-
# Paging through the library

`list` sorts by columns that do not tell every two workflows apart, and its
pages are queries of their own. So paging to the end visits every workflow that
matches once, whatever order each query gives to equal rows, exactly if no
equal rows lie on both sides of a page's end (`browse_iff`).

Key definitions: `Db.selected`, `ListParams.at`, `Browsed`.
Key theorems: `listing_eq`, `alone_list_page`, `browsed_iff`, `browse_iff`.
-/
import HarnessRegistry.Installs
import HarnessRegistry.Ranked.Pages

namespace HarnessRegistry

open Txn Handler

variable {app : AppState} {db : Db} {env : Env} {now : Timestamp} {lower : Char → Char} {f : ListQuery}
  {params : ListParams} {envs : ℕ → Env} {l : ℕ}

/-! ### The rows of a listing -/

/-- The workflows that a listing is of, with what it shows of them. -/
def Db.selected (db : Db) (now : Timestamp) (lower : Char → Char) (f : ListQuery) : List (Uuid × WorkflowSummary) :=
  (db.workflows.rows.filter (f.selects lower)).filterMap fun w => (db.summary now w).map (w.id, ·)

/-- What a listing is ordered by. -/
abbrev ListSort.key (sort : ListSort) (a : Uuid × WorkflowSummary) : List ℤ := sort.columns a.2

/-- The tie-break of a query. -/
abbrev Env.ranking (env : Env) (a : Uuid × WorkflowSummary) : ℕ := env.rank a.1

theorem listing_eq (db : Db) (env : Env) (f : ListQuery) :
    db.listing env f = Ranked.sorted f.sort.key env.ranking (db.selected env.now env.lower f) := by
  unfold Db.listing Ranked.sorted
  congr

theorem selected_slugs (hown : ∀ w ∈ db.workflows, ∃ p ∈ db.publishers, p.id = w.publisherId) :
    (db.selected now lower f).map (fun a => a.2.slug) =
      (db.workflows.rows.filter (f.selects lower)).map (·.slug) := by
  have hall : ∀ w ∈ db.workflows.rows.filter (f.selects lower), w ∈ db.workflows := fun w hw => (List.mem_filter.mp hw).1
  unfold Db.selected
  generalize db.workflows.rows.filter (f.selects lower) = ws at hall
  induction ws with
  | nil => rfl
  | cons w ws ih =>
    obtain ⟨row, hrow⟩ := exists_summary hown now (hall w List.mem_cons_self)
    rw [List.filterMap_cons_some (by rw [hrow]; rfl), List.map_cons, List.map_cons, ih fun v hv => hall v (List.mem_cons_of_mem _ hv)]
    rw [(summary_eq_some hrow).1]

theorem mem_selected {a : Uuid × WorkflowSummary} (ha : a ∈ db.selected now lower f) :
    ∃ w ∈ db.workflows, f.selects lower w = true ∧ w.id = a.1 ∧ db.summary now w = some a.2 := by
  obtain ⟨w, hw, he⟩ := List.mem_filterMap.mp ha
  obtain ⟨hw, hsel⟩ := List.mem_filter.mp hw
  obtain ⟨row, hrow, rfl⟩ := Option.map_eq_some_iff.mp he
  exact ⟨w, hw, hsel, rfl, hrow⟩

/-- An id is that of one row. -/
theorem find_selected {a : Uuid × WorkflowSummary} (ha : a ∈ db.selected now lower f) :
    ((db.selected now lower f).find? fun b => b.1 == a.1) = some a := by
  cases hf : (db.selected now lower f).find? fun b => b.1 == a.1 with
  | none => simpa using List.find?_eq_none.mp hf a ha
  | some b =>
    have hid : b.1 = a.1 := by simpa using List.find?_some hf
    obtain ⟨w, hw, -, hwa, hrow⟩ := mem_selected ha
    obtain ⟨v, hv, -, hvb, hrow'⟩ := mem_selected (List.mem_of_find?_eq_some hf)
    obtain rfl := WorkflowRow.eq_of_id hv hw (hvb.trans (hid.trans hwa.symm))
    rw [Prod.ext hid (Option.some.inj (hrow'.symm.trans hrow))]

/-- No slug twice. -/
theorem slugs_nodup (p : WorkflowRow → Bool) : ((db.workflows.rows.filter p).map (·.slug)).Nodup := by
  have hapart : db.workflows.rows.Pairwise fun a b => a.slug ≠ b.slug := db.workflows.apart.imp fun {a b} h he => by
    rw [(clash_workflow _ _).mpr (.inr he)] at h
    cases h
  exact List.pairwise_map.mpr (hapart.filter p)

/-! ### A page -/

/-- The query for page `k` of `l` rows. -/
def ListParams.at (params : ListParams) (l k : ℕ) : ListParams :=
  { params with limit := some l, offset := some (k * l) }

/-- What `list` answers. -/
theorem alone_list_eq (hnul : ∀ t ∈ params.tag.toList ++ params.q.toList, hasNul t = false) (env : Env) :
    (handle app (.list params)).alone (S := registry) env none db = some (.ok (.summaries
      (((db.listing env params.query).drop params.query.offset.toNat).take params.query.limit.toNat |>.map (·.2))), db) := by
  have htexts : (Stmt.list params.query).texts.any hasNul = false :=
    List.any_eq_false.mpr fun t ht => by rw [hnul t ht]; simp
  have hx : Stmt.exec env (.list params.query) db = .ok
      (((db.listing env params.query).drop params.query.offset.toNat).take params.query.limit.toNat |>.map (·.2), []) := by
    rw [exec_eq_run htexts]
    rfl
  exact alone_ok hx

/-- What it answers on a page. -/
theorem alone_list_page (hl : 1 ≤ l) (hl' : l ≤ 200) (hnul : ∀ t ∈ params.tag.toList ++ params.q.toList, hasNul t = false)
    (env : Env) (k : ℕ) : (handle app (.list (params.at l k))).alone (S := registry) env none db =
      some (.ok (.summaries ((Ranked.page (Ranked.sorted params.query.sort.key env.ranking
        (db.selected env.now env.lower params.query)) l k).map (·.2))), db) := by
  have hlimit : (params.at l k).query.limit.toNat = l := by
    show (max 1 (min 200 (l : ℤ))).toNat = l
    omega
  have hoffset : (params.at l k).query.offset.toNat = k * l := by
    show (max 0 ((k : ℤ) * l)).toNat = k * l
    rw [max_eq_right (by positivity)]
    exact_mod_cast Int.toNat_natCast (k * l)
  have hsame : db.listing env (params.at l k).query = db.listing env params.query := rfl
  have hnul' : ∀ t ∈ (params.at l k).tag.toList ++ (params.at l k).q.toList, hasNul t = false := hnul
  rw [alone_list_eq hnul', hlimit, hoffset, hsame, listing_eq]
  rfl

/-- One with a text that Postgres cannot hold is refused. -/
theorem alone_list_nul (hnul : ∃ t ∈ params.tag.toList ++ params.q.toList, hasNul t = true) (env : Env) (k : ℕ) :
    (handle app (.list (params.at l k))).alone (S := registry) env none db = some (.error (.database .other), db) := by
  have hx : Stmt.exec env (.list (params.at l k).query) db = .error .other := if_pos (List.any_eq_true.mpr hnul)
  exact alone_error hx

/-! ### All pages -/

/-- Paging through a listing, until a page is empty, gives these rows. -/
def Browsed (app : AppState) (db : Db) (envs : ℕ → Env) (params : ListParams) (l : ℕ)
    (rows : List WorkflowSummary) : Prop :=
  ∃ pages : List (List WorkflowSummary), rows = pages.flatten ∧ (∀ page ∈ pages, page ≠ []) ∧
    ∀ (k : ℕ) (page : List WorkflowSummary), (pages ++ [[]])[k]? = some page →
      (handle app (.list (params.at l k))).alone (S := registry) (envs k) none db = some (.ok (.summaries page), db)

/-- How many pages of `l` rows there are of `n` rows. -/
def pageCount (n l : ℕ) : ℕ := (n + l - 1) / l

theorem lt_pageCount {n k : ℕ} (hl : 1 ≤ l) : k < pageCount n l ↔ k * l < n := by
  rw [pageCount, Nat.lt_div_iff_mul_lt (by omega)]
  omega

/-- Paging takes all the pages. -/
theorem browsed_iff (hl : 1 ≤ l) (hl' : l ≤ 200) (hnul : ∀ t ∈ params.tag.toList ++ params.q.toList, hasNul t = false)
    (henvs : ∀ k, (envs k).now = now ∧ (envs k).lower = lower) {rows : List WorkflowSummary} :
    Browsed app db envs params l rows ↔ rows = (Ranked.pages params.query.sort.key (fun k => (envs k).ranking)
      (db.selected now lower params.query) l (pageCount (db.selected now lower params.query).length l)).map (·.2) := by
  let L := db.selected now lower params.query
  let P (k : ℕ) : List WorkflowSummary :=
    (Ranked.page (Ranked.sorted params.query.sort.key (envs k).ranking L) l k).map (·.2)
  have hpage : ∀ k, (handle app (.list (params.at l k))).alone (S := registry) (envs k) none db =
      some (.ok (.summaries (P k)), db) := fun k => by
    rw [alone_list_page hl hl' hnul, (henvs k).1, (henvs k).2]
  have hempty : ∀ k, P k = [] ↔ L.length ≤ k * l := fun k => by
    rw [List.map_eq_nil_iff, Ranked.page_eq_nil_iff hl, Ranked.length_sorted]
  have hall : (Ranked.pages params.query.sort.key (fun k => (envs k).ranking) L l (pageCount L.length l)).map (·.2) =
      ((List.range (pageCount L.length l)).map P).flatten := by
    rw [Ranked.pages, List.map_flatMap, List.flatMap_def]
  have hread : ∀ pages : List (List WorkflowSummary), ((∀ page ∈ pages, page ≠ []) ∧
      ∀ (k : ℕ) page, (pages ++ [[]])[k]? = some page → page = P k) ↔ pages = (List.range (pageCount L.length l)).map P :=
    fun pages => Ranked.until_empty_iff fun k => by rw [hempty, ← not_lt, ← lt_pageCount hl, not_lt]
  show Browsed app db envs params l rows ↔ rows = List.map _ (Ranked.pages _ _ L l (pageCount L.length l))
  rw [hall]
  constructor
  · rintro ⟨pages, rfl, hne, hanswers⟩
    rw [(hread pages).mp ⟨hne, fun k page hk => ?_⟩]
    simpa using (hanswers k page hk).symm.trans (hpage k)
  · rintro rfl
    obtain ⟨hne, hpages⟩ := (hread _).mpr rfl
    exact ⟨_, rfl, hne, fun k page hk => by rw [hpages k page hk, hpage]⟩

/-- A row on two pages is there twice, under its slug. -/
theorem pages_nodup {ranks : ℕ → Uuid × WorkflowSummary → ℕ}
    {K : ℕ} (h : (((Ranked.pages f.sort.key ranks (db.selected now lower f) l K).map (·.2)).map (·.slug)).Perm
      ((db.workflows.rows.filter (f.selects lower)).map (·.slug))) :
    (Ranked.pages f.sort.key ranks (db.selected now lower f) l K).Nodup := by
  have hnd := h.nodup_iff.mpr (slugs_nodup _)
  rw [List.map_map] at hnd
  exact hnd.of_map _

/-- **Paging visits every workflow that matches once**, whatever the order that
each query gives to equal rows, if and only if the filter's texts are ones that
Postgres can hold and no equal rows lie on both sides of a page's end. -/
theorem browse_iff (hown : ∀ w ∈ db.workflows, ∃ p ∈ db.publishers, p.id = w.publisherId) (app : AppState)
    (now : Timestamp) (lower : Char → Char) (params : ListParams) (l : ℕ) (hl : 1 ≤ l) (hl' : l ≤ 200) :
    (∀ envs : ℕ → Env, (∀ k, (envs k).now = now ∧ (envs k).lower = lower) →
      ∃ rows, Browsed app db envs params l rows ∧
        (rows.map (·.slug)).Perm ((db.workflows.rows.filter (params.query.selects lower)).map (·.slug))) ↔
    (∀ t ∈ params.tag.toList ++ params.q.toList, hasNul t = false) ∧
      ∀ row ∈ db.selected now lower params.query,
        ¬ Ranked.Straddles params.query.sort.key (db.selected now lower params.query) l row := by
  let L := db.selected now lower params.query
  have hslugs : L.map (fun a => a.2.slug) = _ := selected_slugs hown
  have hL : L.Nodup := by
    have hnd : (L.map fun a => a.2.slug).Nodup := by
      rw [hslugs]
      exact slugs_nodup _
    exact hnd.of_map _
  have hK : L.length ≤ pageCount L.length l * l := not_lt.mp fun hlt => lt_irrefl _ ((lt_pageCount hl).mpr hlt)
  constructor
  · intro hall
    have hnul : ∀ t ∈ params.tag.toList ++ params.q.toList, hasNul t = false := by
      by_contra hno
      simp only [not_forall, Bool.not_eq_false] at hno
      obtain ⟨t, ht, hnul⟩ := hno
      obtain ⟨rows, ⟨pages, -, -, hanswers⟩, -⟩ := hall (fun _ => ⟨now, 0, fun _ => 0, lower, fun _ _ => true⟩)
        fun _ => ⟨rfl, rfl⟩
      obtain ⟨page, hpage⟩ : ∃ page, (pages ++ [[]])[0]? = some page := ⟨_, List.getElem?_eq_getElem (by simp)⟩
      have := hanswers 0 page hpage
      rw [alone_list_nul ⟨t, ht, hnul⟩] at this
      cases this
    refine ⟨hnul, fun row hrow hs => ?_⟩
    obtain ⟨ranks, hnot⟩ := Ranked.not_pages_perm hL hl hK hrow hs
    -- a server that ranks the ids as their rows are ranked
    let envs (k : ℕ) : Env := ⟨now, 0, fun id => (L.find? fun a => a.1 == id).elim 0 (ranks k), lower, fun _ _ => true⟩
    have hrank : ∀ k, ∀ a ∈ L, (envs k).ranking a = ranks k a := fun k a ha => by
      show (L.find? fun b => b.1 == a.1).elim 0 (ranks k) = ranks k a
      rw [find_selected ha]
      rfl
    have hpages : Ranked.pages params.query.sort.key (fun k => (envs k).ranking) L l (pageCount L.length l) =
        Ranked.pages params.query.sort.key ranks L l (pageCount L.length l) := by
      unfold Ranked.pages
      simp only [Ranked.sorted_congr (hrank _)]
    have henvs : ∀ k, (envs k).now = now ∧ (envs k).lower = lower := fun _ => ⟨rfl, rfl⟩
    obtain ⟨rows, hrows, hperm⟩ := hall envs henvs
    rw [(browsed_iff hl hl' hnul henvs).mp hrows] at hperm
    apply hnot
    rw [← hpages]
    exact pages_nodup hperm
  · rintro ⟨hnul, hs⟩ envs henvs
    refine ⟨_, (browsed_iff hl hl' hnul henvs).mpr rfl, ?_⟩
    rw [← hslugs, List.map_map]
    exact (Ranked.pages_perm hL hl hK hs).map _

/-- Two workflows that nobody has installed, published at the same instant. -/
def Sample.tied : Db :=
  ⟨publishers, tokens, ((∅ : Table WorkflowRow).insert ⟨11, "first", "Title", "What it does", [], 1, false, 5, none⟩).insert
    ⟨12, "second", "Title", "What it does", [], 2, false, 5, none⟩,
    ((∅ : Table VersionRow).insert ⟨11, 1, "steps: []", none, 5, none⟩).insert ⟨12, 1, "steps: []", none, 5, none⟩, ∅⟩

/-- A listing without a filter. -/
def Sample.everything : ListParams := ⟨none, none, none, none, none, none⟩

/-- A server that gives them in the one order, and then in the other. -/
def Sample.swapping (k : ℕ) : Env := { Sample.env 50 with rank := fun id => if k = 0 then id.toNat else 20 - id.toNat }

/-- **One of them is on both pages**, and the other on none. -/
theorem tied_page_repeats :
    ∃ rows, Browsed Sample.replica Sample.tied Sample.swapping Sample.everything 1 rows ∧
      rows.map (·.slug) = ["first", "first"] ∧
      ¬ (rows.map (·.slug)).Perm
        ((Sample.tied.workflows.rows.filter (Sample.everything.query.selects Char.toLower)).map (·.slug)) := by
  have henvs : ∀ k, (Sample.swapping k).now = 50000000 ∧ (Sample.swapping k).lower = Char.toLower := fun _ => ⟨rfl, rfl⟩
  have hrows : ((Ranked.pages Sample.everything.query.sort.key (fun k => (Sample.swapping k).ranking)
      (Sample.tied.selected 50000000 Char.toLower Sample.everything.query) 1 (pageCount
        (Sample.tied.selected 50000000 Char.toLower Sample.everything.query).length 1)).map (·.2)).map (·.slug) =
      ["first", "first"] := by
    decide +kernel
  refine ⟨_, (browsed_iff (by decide) (by decide) (by decide) henvs).mpr rfl, hrows, ?_⟩
  rw [hrows]
  decide +kernel

/-- Both come on one page. -/
theorem browse_iff_tied :
    ∃ rows, Browsed Sample.replica Sample.tied Sample.swapping Sample.everything 2 rows ∧
      (rows.map (·.slug)).Perm
        ((Sample.tied.workflows.rows.filter (Sample.everything.query.selects Char.toLower)).map (·.slug)) := by
  have hown : ∀ w ∈ Sample.tied.workflows, ∃ p ∈ Sample.tied.publishers, p.id = w.publisherId := by
    show ∀ w ∈ Sample.tied.workflows.rows, ∃ p ∈ Sample.tied.publishers.rows, p.id = w.publisherId
    decide +kernel
  have hcount : (Sample.tied.selected 50000000 Char.toLower Sample.everything.query).length = 2 := by decide +kernel
  refine (browse_iff hown Sample.replica 50000000 Char.toLower Sample.everything 2 (by decide) (by decide)).mpr
    ⟨by decide, fun row _ hs => ?_⟩ Sample.swapping fun _ => ⟨rfl, rfl⟩
  -- a page's end with rows on both sides is beyond the second row
  obtain ⟨k, hlo, hhi⟩ := hs
  have hle := List.countP_le_length (p := fun y => decide (Sample.everything.query.sort.key row ≤ Sample.everything.query.sort.key y))
    (l := Sample.tied.selected 50000000 Char.toLower Sample.everything.query)
  rw [hcount] at hle
  have hup := hhi.trans_le hle
  omega

end HarnessRegistry

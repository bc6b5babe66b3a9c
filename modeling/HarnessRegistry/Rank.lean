/-
# Rank is not for sale

The default listing has the official workflows first, then those with more
installs. Publishing changes neither: `create`, `publish_version` and `update`
leave the installs and every flag as they are, and what they add has no flag
and no installs (`Db.Unpaid`). So entries that differ in flag or installs keep
their order through any run of such requests, and a new one comes after every
official entry and after all that somebody has installed (`rank_kept`).

Key definitions: `Request.authors`, `Db.Unpaid`, `WorkflowSummary.leads`,
`Placed`.
Key theorems: `Guar.unpaid`, `unpaid_run`, `Db.Leads.lt`, `rank_kept`.
-/
import HarnessRegistry.Browse

namespace HarnessRegistry

open Txn Handler

variable {app : AppState} {db db' db'' db₀ : Db} {s s' : Registry}

/-! ### What publishing changes -/

/-- A request that publishes a workflow, or changes one. -/
def Request.authors : Request → Bool
  | .create .. | .publishVersion .. | .update .. => true
  | _ => false

/-- The installs and the flags stay, and what is new is not official. -/
structure Db.Unpaid (db db' : Db) : Prop where
  installs : db'.installs = db.installs
  kept : ∀ w ∈ db.workflows, ∃ w' ∈ db'.workflows, w'.id = w.id ∧ w'.official = w.official
  new : ∀ w' ∈ db'.workflows, (∃ w ∈ db.workflows, w.id = w'.id) ∨ w'.official = false

theorem Db.Unpaid.refl (db : Db) : db.Unpaid db :=
  ⟨rfl, fun w hw => ⟨w, hw, rfl, rfl⟩, fun w hw => .inl ⟨w, hw, rfl⟩⟩

theorem Db.Unpaid.trans (h : db.Unpaid db') (h' : db'.Unpaid db'') : db.Unpaid db'' := by
  refine ⟨h'.installs.trans h.installs, fun w hw => ?_, fun w'' hw'' => ?_⟩
  · obtain ⟨w', hw', hid, hoff⟩ := h.kept w hw
    obtain ⟨w'', hw'', hid', hoff'⟩ := h'.kept w' hw'
    exact ⟨w'', hw'', hid'.trans hid, hoff'.trans hoff⟩
  · rcases h'.new w'' hw'' with ⟨w', hw', hid⟩ | hoff
    · refine (h.new w' hw').imp (fun ⟨w, hw, hid'⟩ => ⟨w, hw, hid'.trans hid⟩) fun hoff => ?_
      obtain ⟨v, hv, hid', hoff'⟩ := h'.kept w' hw'
      rw [WorkflowRow.eq_of_id hw'' hv (hid.symm.trans hid'.symm), hoff', hoff]
    · exact .inr hoff

/-- A write that buys nothing. -/
def Write.unpaid : Write → Bool
  | .touchToken .. | .insertVersion _ | .relist .. | .amend .. => true
  | .insertWorkflow row => !row.official
  | _ => false

theorem Write.Unpaid.apply {w : Write} (hw : w.unpaid = true) (db : Db) : db.Unpaid (w.apply db) := by
  cases w
  case insertWorkflow row =>
    refine ⟨rfl, fun v hv => ⟨v, Table.mem_insert_of_mem hv, rfl, rfl⟩, fun v hv => ?_⟩
    rcases Table.exists_of_insert (q := fun x => x = v) ⟨v, hv, rfl⟩ with ⟨x, hx, rfl⟩ | rfl
    · exact .inl ⟨x, hx, rfl⟩
    · exact .inr (by simpa [Write.unpaid] using hw)
  case relist id now =>
    refine ⟨rfl, fun v hv => ⟨_, List.mem_map.mpr ⟨v, hv, rfl⟩, ?_⟩, fun v hv => ?_⟩
    · split <;> exact ⟨rfl, rfl⟩
    · obtain ⟨x, hx, rfl⟩ := List.mem_map.mp hv
      exact .inl ⟨x, hx, by split <;> rfl⟩
  case amend id title description tags now =>
    refine ⟨rfl, fun v hv => ⟨_, List.mem_map.mpr ⟨v, hv, rfl⟩, ?_⟩, fun v hv => ?_⟩
    · split <;> exact ⟨rfl, rfl⟩
    · obtain ⟨x, hx, rfl⟩ := List.mem_map.mp hv
      exact .inl ⟨x, hx, by split <;> rfl⟩
  case touchToken | insertVersion => exact ⟨rfl, fun v hv => ⟨v, hv, rfl, rfl⟩, fun v hv => .inl ⟨v, hv, rfl⟩⟩
  all_goals cases hw

theorem unpaid_applyAll : ∀ (ws : List Write) (db : Db), (∀ w ∈ ws, w.unpaid = true) →
    db.Unpaid (registry.applyAll ws db)
  | [], db, _ => .refl db
  | w :: ws, db, h => (Write.Unpaid.apply (h w List.mem_cons_self) db).trans
      (unpaid_applyAll ws _ fun v hv => h v (List.mem_cons_of_mem _ hv))

/-- What such a request commits buys nothing. -/
theorem Guar.unpaid {req : Request} {done ws : List Write} (hg : Guar app req done db ws) (hreq : req.authors = true) :
    ∀ w ∈ ws, w.unpaid = true := by
  cases hg with
  | «prelude» _ hp =>
    cases hp with
    | touched => simp [Write.unpaid]
    | upserted => cases hreq
  | effect _ he =>
    cases he with
    | created | published | amended => simp [Write.unpaid, WorkflowRow.inserted]
    | _ => cases hreq

/-- A move of such a request. -/
def Authors (s : Registry) : Action registry Request → Prop
  | .arrive req => req.authors = true
  | .task r _ => ∃ t, s.tasks[r]? = some t ∧ t.req.authors = true
  | .outside _ => False

/-- A run that serves nothing but new requests of the kind. -/
theorem authors_of_new {as : List (Action registry Request)} (hreqs : ∀ req ∈ as.filterMap Action.request?, req.authors = true)
    (hnew : ∀ r c, .task r c ∈ as → s.tasks.length ≤ r) (hout : ∀ w, .outside w ∉ as)
    {as₁ : List (Action registry Request)} {a : Action registry Request} {s₁ s₂ : Registry}
    (hmv : Pool.Moves (handle app) s as as₁ a s₁ s₂) : Authors s₁ a := by
  obtain ⟨as₂, rfl⟩ := hmv.rest
  have hin : a ∈ as₁ ++ a :: as₂ := List.mem_append_right _ List.mem_cons_self
  rcases Pool.step_cases hmv.step with ⟨req, rfl, -⟩ | ⟨w, rfl, -⟩ | ⟨r, c, t, t', ws, rfl, ht, -⟩
  · exact hreqs req (List.mem_filterMap.mpr ⟨_, hin, rfl⟩)
  · exact absurd hin (hout w)
  · refine ⟨t, ht, hreqs _ ?_⟩
    have hall : (s₁.tasks.map Task.req)[r]? = some t.req := by
      rw [List.getElem?_map, ht]
      rfl
    rw [Pool.reqs_run hmv.before, List.getElem?_append_right (by simpa using hnew r c hin)] at hall
    rw [List.filterMap_append]
    exact List.mem_append_left _ (List.mem_of_getElem? hall)

/-- A run of them. -/
theorem unpaid_run (h0 : db₀.Sound) (h : Reached app db₀ s) {as : List (Action registry Request)}
    (hrun : s.run (handle app) as = some s')
    (has : ∀ as₁ a (s₁ s₂ : Registry), Pool.Moves (handle app) s as as₁ a s₁ s₂ → Authors s₁ a) : s.db.Unpaid s'.db := by
  let P (u : Registry) : Prop := s.db.Unpaid u.db
  let Bad (_ : List (Action registry Request)) (_ : Action registry Request) (_ _ : Registry) : Prop := False
  refine (Pool.Moves.holds_iff (P := P) (B := Bad) (.refl _) ?_ ?_).mpr (fun _ _ _ _ _ h => h) as s' (List.prefix_refl as) hrun
  · intro as₁ a s₁ s₂ hmv hP _
    refine hP.trans ?_
    have hg : Good app s₁ := (h.run hmv.before).good h0
    have ha := has as₁ a s₁ s₂ hmv
    rcases Pool.step_cases hmv.step with ⟨req, rfl, rfl⟩ | ⟨w, rfl, -, -, rfl⟩ | ⟨r, c, t, t', ws, rfl, ht, hm, -, rfl⟩
    · exact .refl _
    · cases ha
    · obtain ⟨u, hu, hreq⟩ := ha
      obtain rfl := Option.some.inj (hu.symm.trans ht)
      rcases (Contract.move_ok hg.ok ht hm).guar with rfl | ⟨hgu, -⟩
      · exact .refl _
      · exact unpaid_applyAll ws _ (hgu.unpaid hreq)
  · exact fun _ _ _ _ _ hbad => hbad.elim

/-! ### Places in the listing -/

/-- The entry is ahead in flag or installs. -/
def WorkflowSummary.leads (a b : WorkflowSummary) : Prop :=
  (a.official = true ∧ b.official = false) ∨ (a.official = b.official ∧ b.installs < a.installs)

theorem columns_installs (a : WorkflowSummary) : ListSort.installs.columns a =
    [if a.official then 1 else 0, (a.installs : ℤ), a.updatedAt] := rfl

/-- So it has the greater columns. -/
theorem WorkflowSummary.leads.columns {a b : WorkflowSummary} (h : a.leads b) :
    ListSort.installs.columns b < ListSort.installs.columns a := by
  rw [columns_installs, columns_installs]
  rcases h with ⟨ha, hb⟩ | ⟨hoff, hin⟩
  · rw [ha, hb]
    exact .rel (by decide)
  · rw [hoff]
    exact .cons (.rel (by exact_mod_cast hin))

/-- In the full listing in the default order, the workflow comes at place `i`: it
is there on a page. -/
def Placed (app : AppState) (db : Db) (env : Env) (slug : String) (i : ℕ) : Prop :=
  ∃ (sort : Option String) (limit offset : Option ℤ) (rows : List WorkflowSummary) (j : ℕ) (row : WorkflowSummary),
    sort.elim .installs ListSort.parse = .installs ∧
    (handle app (.list ⟨none, none, none, limit, offset, sort⟩)).alone (S := registry) env none db =
      some (.ok (.summaries rows), db) ∧ rows[j]? = some row ∧ row.slug = slug ∧ i = (offset.getD 0).toNat + j

/-- The full listing in the default order. -/
def fullListing : ListQuery := ⟨none, none, none, .installs, 200, 0⟩

/-- A place is one in the sorted rows. -/
theorem placed_iff {env : Env} {slug : String} {i : ℕ} : Placed app db env slug i ↔ ∃ a,
    (Ranked.sorted ListSort.installs.key env.ranking (db.selected env.now env.lower fullListing))[i]? = some a ∧
      a.2.slug = slug := by
  have hlist : ∀ (sort : Option String) (limit offset : Option ℤ), sort.elim .installs ListSort.parse = .installs →
      db.listing env (⟨none, none, none, limit, offset, sort⟩ : ListParams).query = db.listing env fullListing := by
    intro sort limit offset hsort
    unfold Db.listing ListParams.query
    rw [hsort]
    rfl
  rw [show ListSort.installs = fullListing.sort from rfl, ← listing_eq]
  constructor
  · rintro ⟨sort, limit, offset, rows, j, row, hsort, h, hrow, hslug, rfl⟩
    rw [alone_list_eq (by simp), hlist sort limit offset hsort] at h
    cases h
    obtain ⟨a, ha, rfl⟩ := Option.map_eq_some_iff.mp ((List.getElem?_map ..).symm.trans hrow)
    rw [List.getElem?_take, Option.ite_none_right_eq_some, List.getElem?_drop] at ha
    have hoffset : (⟨none, none, none, limit, offset, sort⟩ : ListParams).query.offset.toNat = (offset.getD 0).toNat := by
      show (max 0 (offset.getD 0)).toNat = _
      omega
    rw [hoffset] at ha
    exact ⟨a, ha.2, hslug⟩
  · rintro ⟨a, ha, hslug⟩
    refine ⟨none, some 1, some i, _, 0, a.2, rfl, alone_list_eq (by simp) env, ?_, hslug, by simp⟩
    rw [hlist none (some 1) (some i) rfl]
    have hoffset : (⟨none, none, none, some 1, some i, none⟩ : ListParams).query.offset.toNat = i := by
      show (max 0 (i : ℤ)).toNat = i
      omega
    have hlimit : (⟨none, none, none, some 1, some i, none⟩ : ListParams).query.limit.toNat = 1 := rfl
    rw [hoffset, hlimit, List.getElem?_map, List.getElem?_take, if_pos Nat.one_pos, List.getElem?_drop, Nat.add_zero, ha]
    rfl

/-- The workflow is ahead of the other in flag or installs. -/
def Db.Leads (db : Db) (now : Timestamp) (w v : WorkflowRow) : Prop :=
  (w.official = true ∧ v.official = false) ∨
    (w.official = v.official ∧ db.installCount now v.id < db.installCount now w.id)

/-- Two that differ there are one ahead of the other. -/
theorem leads_or_leads {now : Timestamp} {w v : WorkflowRow}
    (h : w.official ≠ v.official ∨ db.installCount now w.id ≠ db.installCount now v.id) :
    db.Leads now w v ∨ db.Leads now v w := by
  by_cases hoff : w.official = v.official
  · rcases Nat.lt_or_gt_of_ne (h.resolve_left (not_not.mpr hoff)) with hlt | hlt
    · exact .inr (.inr ⟨hoff.symm, hlt⟩)
    · exact .inl (.inr ⟨hoff, hlt⟩)
  · cases hw : w.official with
    | true =>
      rw [hw] at hoff
      exact .inl (.inl ⟨hw, by simpa using Ne.symm hoff⟩)
    | false =>
      rw [hw] at hoff
      exact .inr (.inl ⟨by simpa using Ne.symm hoff, hw⟩)

/-- Whoever leads comes first, in any two full listings of one instant. -/
theorem Db.Leads.lt {env env' : Env} {w v : WorkflowRow} {i j : ℕ} (hlead : db.Leads env.now w v)
    (hnow : env'.now = env.now) (hw : w ∈ db.workflows) (hv : v ∈ db.workflows)
    (hi : Placed app db env w.slug i) (hj : Placed app db env' v.slug j) : i < j := by
  obtain ⟨a, ha, hslug⟩ := placed_iff.mp hi
  obtain ⟨b, hb, hslug'⟩ := placed_iff.mp hj
  have hsame : db.selected env'.now env'.lower fullListing = db.selected env.now env.lower fullListing := by
    rw [hnow]
    rfl
  rw [hsame] at hb
  obtain ⟨x, hx, -, -, hsum⟩ := mem_selected (Ranked.mem_sorted.mp (List.mem_of_getElem? ha))
  obtain ⟨y, hy, -, -, hsum'⟩ := mem_selected (Ranked.mem_sorted.mp (List.mem_of_getElem? hb))
  obtain rfl := WorkflowRow.eq_of_slug hx hw ((summary_eq_some hsum).1.symm.trans hslug)
  obtain rfl := WorkflowRow.eq_of_slug hy hv ((summary_eq_some hsum').1.symm.trans hslug')
  obtain ⟨p, -, hp⟩ := Option.map_eq_some_iff.mp hsum
  obtain ⟨p', -, hp'⟩ := Option.map_eq_some_iff.mp hsum'
  have hcols : a.2.leads b.2 := by
    rw [← hp, ← hp']
    exact hlead
  exact Ranked.index_lt_index ha hb hcols.columns

/-- What is listed has a place. -/
theorem exists_placed (hs : db.Sound) (env : Env) {w : WorkflowRow} (hw : w ∈ db.workflows) :
    (∃ i, Placed app db env w.slug i) ↔ w.unlistedAt = none := by
  constructor
  · rintro ⟨i, sort, limit, offset, rows, j, row, -, h, hrow, hslug, -⟩
    obtain ⟨v, hv, hl, hsum⟩ := alone_list h row (List.mem_of_getElem? hrow)
    rwa [WorkflowRow.eq_of_slug hw hv (hslug.symm.trans (summary_eq_some hsum).1)]
  · intro hl
    obtain ⟨row, hsum⟩ := exists_summary hs.owned env.now hw
    have hin : (w.id, row) ∈ db.selected env.now env.lower fullListing := by
      refine List.mem_filterMap.mpr ⟨w, List.mem_filter.mpr ⟨hw, ?_⟩, by rw [hsum]; rfl⟩
      simp [ListQuery.selects, fullListing, hl]
    obtain ⟨i, hi⟩ := Ranked.exists_index ListSort.installs.key env.ranking hin
    exact ⟨i, placed_iff.mpr ⟨_, hi, (summary_eq_some hsum).1⟩⟩

/-! ### Along a run -/

/-- A workflow that is not of these has no installs. -/
theorem Db.Sound.no_installs {id : Uuid} (hs : db.Sound) (hnew : ∀ w ∈ db.workflows, w.id ≠ id) (now : Timestamp) :
    db.installCount now id = 0 := by
  refine List.countP_eq_zero.mpr fun i hi hp => ?_
  obtain ⟨v, hv, hvi, -⟩ := hs.installed i hi
  obtain ⟨w, hw, hwv⟩ := hs.known v hv
  simp only [Bool.and_eq_true, beq_iff_eq] at hp
  exact hnew w hw (hwv.trans (hvi.trans hp.1))

theorem Db.Unpaid.installCount (h : db.Unpaid db') (now : Timestamp) (id : Uuid) :
    db'.installCount now id = db.installCount now id := by
  unfold Db.installCount
  rw [h.installs]

/-- Who leads goes on leading. -/
theorem Db.Unpaid.leads (h : db.Unpaid db') {now : Timestamp} {w v w' v' : WorkflowRow} (hw : w ∈ db.workflows)
    (hv : v ∈ db.workflows) (hw' : w' ∈ db'.workflows) (hv' : v' ∈ db'.workflows) (hid : w'.id = w.id)
    (hid' : v'.id = v.id) (hl : db.Leads now w v) : db'.Leads now w' v' := by
  have hflag : ∀ {x x' : WorkflowRow}, x ∈ db.workflows → x' ∈ db'.workflows → x'.id = x.id → x'.official = x.official := by
    intro x x' hx hx' he
    obtain ⟨y, hy, hyid, hoff⟩ := h.kept x hx
    rwa [WorkflowRow.eq_of_id hx' hy (he.trans hyid.symm)]
  unfold Db.Leads
  rw [h.installCount, h.installCount, hid, hid', hflag hw hw' hid, hflag hv hv' hid']
  exact hl

/-- **Publishing volume cannot buy rank.** Take a run of requests that publish
workflows or change them, and full listings in the default order before and
after it, all at one instant. Two workflows that differ in the official flag or
in installs come in the same order before and after. A workflow created in the
run comes after every official one, and after every one with its own flag that
has an install. -/
theorem rank_kept (h0 : db₀.Sound) (h : Reached app db₀ s) {as : List (Action registry Request)}
    (hrun : s.run (handle app) as = some s')
    (has : ∀ as₁ a (s₁ s₂ : Registry), Pool.Moves (handle app) s as as₁ a s₁ s₂ → Authors s₁ a) (now : Timestamp) :
    (∀ v ∈ s.db.workflows, ∀ w ∈ s.db.workflows, ∀ v' ∈ s'.db.workflows, ∀ w' ∈ s'.db.workflows,
      v'.id = v.id → w'.id = w.id →
      (v.official ≠ w.official ∨ s.db.installCount now v.id ≠ s.db.installCount now w.id) →
      ∀ e₁ e₂ e₁' e₂' : Env, e₁.now = now → e₂.now = now → e₁'.now = now → e₂'.now = now → ∀ i j i' j',
        Placed app s.db e₁ v.slug i → Placed app s.db e₂ w.slug j →
        Placed app s'.db e₁' v'.slug i' → Placed app s'.db e₂' w'.slug j' → (i < j ↔ i' < j')) ∧
    (∀ c ∈ s'.db.workflows, (∀ w ∈ s.db.workflows, w.id ≠ c.id) → ∀ w ∈ s'.db.workflows,
      (w.official = true ∨ w.official = c.official ∧ 0 < s'.db.installCount now w.id) →
      ∀ e e' : Env, e.now = now → e'.now = now → ∀ i j,
        Placed app s'.db e w.slug i → Placed app s'.db e' c.slug j → i < j) ∧
    (∀ (env : Env), ∀ w ∈ s.db.workflows, (∃ i, Placed app s.db env w.slug i) ↔ w.unlistedAt = none) ∧
    ∀ (env : Env), ∀ w ∈ s'.db.workflows, (∃ i, Placed app s'.db env w.slug i) ↔ w.unlistedAt = none := by
  have hunpaid := unpaid_run h0 h hrun has
  have hs := (h.good h0).sound
  have hs' := ((h.run hrun).good h0).sound
  refine ⟨?_, ?_, fun env w hw => exists_placed hs env hw, fun env w hw => exists_placed hs' env hw⟩
  · rintro v hv w hw v' hv' w' hw' hidv hidw hdiff e₁ e₂ e₁' e₂' rfl h₂ h₁' h₂' i j i' j' hi hj hi' hj'
    rcases leads_or_leads hdiff with hl | hl
    · have hl' : s'.db.Leads e₁'.now v' w' := h₁' ▸ hunpaid.leads hv hw hv' hw' hidv hidw hl
      exact iff_of_true (hl.lt h₂ hv hw hi hj) (hl'.lt (h₂'.trans h₁'.symm) hv' hw' hi' hj')
    · have hl' : s'.db.Leads e₂'.now w' v' := h₂' ▸ hunpaid.leads hw hv hw' hv' hidw hidv hl
      have hlt : j < i := Db.Leads.lt (h₂ ▸ hl) h₂.symm hw hv hj hi
      have hlt' : j' < i' := hl'.lt (h₁'.trans h₂'.symm) hw' hv' hj' hi'
      exact iff_of_false (not_lt.mpr hlt.le) (not_lt.mpr hlt'.le)
  · rintro c hc hnew w hw hahead e e' rfl hnow i j hi hj
    -- no flag and no installs
    have hoff : c.official = false := (hunpaid.new c hc).resolve_left fun ⟨w, hw, hid⟩ => hnew w hw hid
    have hcount : s'.db.installCount e.now c.id = 0 := by
      rw [hunpaid.installCount, hs.no_installs hnew]
    have hl : s'.db.Leads e.now w c := by
      rcases hahead with htrue | ⟨hsame, hpos⟩
      · exact .inl ⟨htrue, hoff⟩
      · exact .inr ⟨hsame, hcount ▸ hpos⟩
    exact hl.lt hnow hw hc hi hj

/-- Another publisher's workflow, after one that has been installed. -/
def Sample.second : List (Action registry Request) := serve 50 4 (create 1 "second") 7

def Sample.listedRows : List WorkflowRow :=
  [⟨14, "first", "Title", "What it does", [], 1, false, 13000000, none⟩,
    ⟨54, "second", "Title", "What it does", [], 2, false, 53000000, none⟩]

/-- It comes after. -/
theorem rank_kept_second : ∃ s s' : Registry, Reached Sample.replica Sample.library s ∧
    s.run (handle Sample.replica) Sample.second = some s' ∧ s'.db.workflows.rows = Sample.listedRows ∧
    ∀ e : Env, e.now = 60000000 → ∃ i j, Placed Sample.replica s'.db e "first" i ∧ Placed Sample.replica s'.db e "second" j ∧
      i < j := by
  have h : ((Sample.after Sample.installed).bind fun s => (s.run (handle Sample.replica) Sample.second).map fun s' =>
      (s.db.workflows.rows.map (·.id), s'.db.workflows.rows, s'.db.installCount 60000000 14)) =
      some ([14], Sample.listedRows, 1) := by
    decide +kernel
  obtain ⟨s, hs, h⟩ := Option.bind_eq_some_iff.mp h
  obtain ⟨s', hrun, h⟩ := Option.map_eq_some_iff.mp h
  obtain ⟨hids, h⟩ := Prod.mk.inj h
  obtain ⟨hrows, hcount⟩ := Prod.mk.inj h
  have hr : Reached Sample.replica Sample.library s := ⟨_, hs⟩
  have h0 : Sample.library.Sound := Sample.initial.sound
  have hlen : s.tasks.length = 4 := by
    have hreqs := congrArg List.length (Pool.reqs_run hs)
    rw [List.length_map] at hreqs
    exact hreqs
  have has : ∀ as₁ a (s₁ s₂ : Registry),
      Pool.Moves (handle Sample.replica) s Sample.second as₁ a s₁ s₂ → Authors s₁ a := fun as₁ a s₁ s₂ hmv => by
    refine authors_of_new (fun req hreq => ?_) (fun r c hin => ?_) (fun w hin => ?_) hmv
    · obtain rfl : req = Sample.create 1 "second" := by simpa [Sample.second, Sample.serve, Sample.moves, Action.request?] using hreq
      rfl
    · have hr : r = 4 := by
        simp only [Sample.second, Sample.serve, Sample.moves, List.mem_cons, List.mem_map, reduceCtorEq, false_or] at hin
        obtain ⟨_, -, he⟩ := hin
        exact (Action.task.inj he).1.symm
      omega
    · simp [Sample.second, Sample.serve, Sample.moves] at hin
  obtain ⟨-, hnew, -, hplaced⟩ := rank_kept h0 hr hrun has 60000000
  have hmem : ∀ w ∈ Sample.listedRows, w ∈ s'.db.workflows := fun w hw => by
    rw [Table.mem_def, hrows]
    exact hw
  have hfirst := hmem _ List.mem_cons_self
  have hsecond := hmem _ (List.mem_cons_of_mem _ List.mem_cons_self)
  refine ⟨s, s', hr, hrun, hrows, fun e he => ?_⟩
  obtain ⟨i, hi⟩ := (hplaced e _ hfirst).mpr rfl
  obtain ⟨j, hj⟩ := (hplaced e _ hsecond).mpr rfl
  refine ⟨i, j, hi, hj, hnew _ hsecond (fun w hw hid => ?_) _ hfirst (.inr ⟨rfl, ?_⟩) e e he he i j hi hj⟩
  · have hin : w.id ∈ s.db.workflows.rows.map (·.id) := List.mem_map_of_mem hw
    rw [hids, hid] at hin
    revert hin
    decide
  · show 0 < s'.db.installCount 60000000 14
    omega

end HarnessRegistry

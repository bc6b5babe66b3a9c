/-
# Changes to a workflow are serialisable

A request that changes an entry takes effect in one commit. So along a run the
requests that succeed stand in an order, that of their effects, and the tables
show the entry that the changes in that order give (`Serial`): one step either
leaves order and entry alone or adds one request at the end (`success_step`).
Served again in that order, one after another, they give the same entry and
the same answers.

Key definitions: `Serial`, `Db.SameEntry`.
Key theorems: `success_step`, `Serial.step`, `serial_run`, `changes_serialisable`.
-/
import HarnessRegistry.Installs
import HarnessRegistry.Numbering
import HarnessRegistry.Replay

namespace HarnessRegistry

open Txn Handler

variable {app : AppState} {db db' db₀ : Db} {s s' u u' : Registry} {w : WorkflowRow} {e : Entry}

/-! ### One move -/

/-- Only its effect answers a request that asks for a change. -/
theorem Good.change_effect (hg : Good app s) {x : Success} {slug : String} (hx : s.Succeeded x)
    (hc : (x.request.change? slug).isSome = true) : ∃ t pre ws db, s.tasks[x.index]? = some t ∧ t.req = x.request ∧
      t.done = pre ++ ws ∧ Preparing pre ∧ Effect app x.request db ws x.reply := by
  obtain ⟨t, ht, hreq, ha⟩ := hx
  rcases hg.succeeded ht ha with ⟨hp, -⟩ | ⟨pre, ws, db, hdone, hpre, he, -⟩
  · rw [hreq] at hp
    generalize x.request = req at hp hc
    cases req <;> first | cases hc | cases hp
  · exact ⟨t, pre, ws, db, ht, hreq, hdone, hpre, hreq ▸ he⟩

/-- What a request that asks for a change has committed tells its answer. -/
theorem Effect.reply_unique {req : Request} {pre ws pre' ws' : List Write} {reply reply' : Reply} {slug : String}
    (h : Effect app req db ws reply) (h' : Effect app req db' ws' reply') (hp' : Preparing pre')
    (hd : pre ++ ws = pre' ++ ws') (hc : (req.change? slug).isSome = true) : reply = reply' := by
  by_cases hpub : req.publishes = none
  · cases req <;> try first | cases hc | cases hpub
    all_goals
      cases h
      cases h'
      rfl
  · obtain ⟨row, hrow⟩ := h.publishes hpub
    have hrow' : .insertVersion row ∈ ws' := by
      have hin : .insertVersion row ∈ pre' ++ ws' := hd ▸ List.mem_append_right pre hrow
      exact (List.mem_append.mp hin).resolve_left hp'.no_version
    obtain ⟨sl, hsl, hr, -⟩ := h.version hrow
    obtain ⟨sl', hsl', hr', -⟩ := h'.version hrow'
    rw [hsl] at hsl'
    rw [hr, hr', (Prod.mk.inj (Option.some.inj hsl')).1]

/-- A request that has committed no more than a prelude has made no change. -/
theorem Good.not_preparing (hg : Good app s) {x : Success} {slug : String} {t : Call} (hx : s.Succeeded x)
    (hc : (x.request.change? slug).isSome = true) (ht : s.tasks[x.index]? = some t) : ¬ Preparing t.done := by
  intro hp
  obtain ⟨t', pre, ws, db, ht', -, hdone, -, he⟩ := hg.change_effect hx hc
  obtain rfl := Option.some.inj (ht.symm.trans ht')
  exact he.not_preparing pre (hdone ▸ hp)

/-- A request that has just arrived has made none. -/
theorem succeeded_arrived {req : Request} (hg : Good app (u.arrived (handle app) req)) {x : Success} {slug : String}
    (hc : (x.request.change? slug).isSome = true) (hx : Registry.Succeeded (u.arrived (handle app) req) x) :
    u.Succeeded x := by
  by_cases hlt : x.index < u.tasks.length
  · obtain ⟨t, ht, hreq, ha⟩ := hx
    exact ⟨t, (List.getElem?_append_left hlt).symm.trans ht, hreq, ha⟩
  · have hlen : x.index = u.tasks.length := by
      obtain ⟨t, ht, -⟩ := hx
      have := (List.getElem?_eq_some_iff.mp ht).1
      rw [Pool.arrived, List.length_append, List.length_singleton] at this
      omega
    have hnew : (u.arrived (handle app) req).tasks[x.index]? = some _ := hlen ▸ Pool.arrived_task (handle app) u req
    exact absurd .nil (hg.not_preparing hx hc hnew)

/-- A task that moves has not been answered. -/
theorem index_ne_of_move {r : ℕ} {t t' : Call} {c : Choice registry} {ws : List Write} (ht : u.tasks[r]? = some t)
    (hm : t.move u.db c = some (t', ws)) {x : Success} (hx : u.Succeeded x) : x.index ≠ r := by
  rintro rfl
  obtain ⟨t₁, ht₁, -, ha⟩ := hx
  obtain rfl := Option.some.inj (ht.symm.trans ht₁)
  rw [Task.move_of_answered ha] at hm
  cases hm

/-- Who has succeeded after a move: those who had, and the request that moved if
it has succeeded with this move. -/
theorem succeeded_moved {r : ℕ} {t t' : Call} {c : Choice registry} {ws : List Write} {x : Success}
    (ht : u.tasks[r]? = some t) (hm : t.move u.db c = some (t', ws)) :
    Registry.Succeeded (u.moved r t' ws) x ↔
      u.Succeeded x ∨ x.index = r ∧ t'.req = x.request ∧ t'.answered = some (.ok x.reply) := by
  constructor
  · rintro ⟨t₁, ht₁, hreq, ha⟩
    rcases Pool.of_task_moved ht ht₁ with ⟨hxr, rfl⟩ | ⟨-, ht₁⟩
    · exact .inr ⟨hxr, hreq, ha⟩
    · exact .inl ⟨t₁, ht₁, hreq, ha⟩
  · rintro (hx | ⟨hxr, hreq, ha⟩)
    · obtain ⟨t₁, ht₁, hreq, ha⟩ := id hx
      exact ⟨t₁, (Pool.task_moved_of_ne (index_ne_of_move ht hm hx)).trans ht₁, hreq, ha⟩
    · exact ⟨t', by rw [hxr]; exact Pool.task_moved ht, hreq, ha⟩

/-- An answer stays. -/
theorem succeeded_step {a : Action registry Request} {x : Success} (hx : u.Succeeded x)
    (hst : u.step (handle app) a = some u') : u'.Succeeded x := by
  obtain ⟨t, ht, hreq, ha⟩ := id hx
  have hlt : x.index < u.tasks.length := (List.getElem?_eq_some_iff.mp ht).1
  rcases Pool.step_cases hst with ⟨req, -, rfl⟩ | ⟨v, -, -, -, rfl⟩ | ⟨r, c, t₀, t', ws, -, ht₀, hm, -, rfl⟩
  · exact ⟨t, (List.getElem?_append_left hlt).trans ht, hreq, ha⟩
  · exact ⟨t, ht, hreq, ha⟩
  · exact (succeeded_moved ht₀ hm).mpr (.inl hx)

/-- The answer that goes out with an effect is the effect's. -/
theorem Good.answer_of_effect (hg : Good app s) {r : ℕ} {t : Call} {pre ws : List Write} {reply reply' : Reply}
    {slug : String} (ht : s.tasks[r]? = some t) (ha : t.answered = some (.ok reply')) (hdone : t.done = pre ++ ws)
    (he : Effect app t.req db ws reply) (hc : (t.req.change? slug).isSome = true) : reply = reply' := by
  obtain ⟨t₁, pre₁, ws₁, db₁, ht₁, -, hdone₁, hpre₁, he₁⟩ :=
    hg.change_effect (x := ⟨r, t.req, reply'⟩) ⟨t, ht, rfl, ha⟩ hc
  obtain rfl := Option.some.inj (ht.symm.trans ht₁)
  exact he.reply_unique he₁ hpre₁ (hdone.symm.trans hdone₁) hc

/-- **One move**: nothing happens to the entry, or one request changes it and
succeeds. -/
theorem success_step (h0 : db₀.Sound) (h : Reached app db₀ u) {a : Action registry Request}
    (hst : u.step (handle app) a = some u') (hw : w ∈ u.db.workflows) :
    ((∀ x : Success, (x.request.change? w.slug).isSome = true → u'.Succeeded x → u.Succeeded x) ∧
      ∀ e, u.db.Shows w.id e → u'.db.Shows w.id e) ∨
    ∃ y c, y.request.change? w.slug = some c ∧ (∀ x, u.Succeeded x → x.index ≠ y.index) ∧
      (∀ x, u'.Succeeded x ↔ u.Succeeded x ∨ x = y) ∧
      ∀ e, u.db.Shows w.id e → y.reply = c.reply w.slug e ∧ u'.db.Shows w.id (c.act e) := by
  have hg := h.good h0
  have hg' : Good app u' := Contract.step_good hg hst
  rcases Pool.step_cases hst with ⟨req, -, rfl⟩ | ⟨v, -, hv, -, rfl⟩ | ⟨r, c, t, t', ws, -, ht, hm, -, hu'⟩
  · exact .inl ⟨fun x hc hx => succeeded_arrived hg' hc hx, fun e he => he⟩
  · refine .inl ⟨fun x _ hx => hx, fun e he => he.apply ?_⟩
    cases v <;> first | rfl | cases hv
  have hmv := Contract.move_ok hg.ok ht hm
  have hself : u'.tasks[r]? = some t' := by
    rw [hu']
    exact Pool.task_moved ht
  have hdb : u'.db = registry.applyAll ws u.db := by rw [hu']; rfl
  have hiff : ∀ x, u'.Succeeded x ↔ u.Succeeded x ∨ x.index = r ∧ t'.req = x.request ∧
      t'.answered = some (.ok x.reply) := fun x => by rw [hu']; exact succeeded_moved ht hm
  -- without an effect the request that moved has made no change
  have quiet : Preparing t'.done → ∀ x : Success, (x.request.change? w.slug).isSome = true →
      u'.Succeeded x → u.Succeeded x := fun hp x hc hx =>
    ((hiff x).mp hx).resolve_right fun hr => hg'.not_preparing hx hc (hr.1 ▸ hself) hp
  rw [hdb]
  rcases hmv.guar with rfl | ⟨hgu, hf⟩
  · refine .inl ⟨quiet ?_, fun e he => he⟩
    rw [hmv.done, List.append_nil]
    refine (effect_answered h0 h r t ht).resolve_right ?_
    rintro ⟨reply, ha⟩
    exact index_ne_of_move ht hm (x := ⟨r, t.req, reply⟩) ⟨t, ht, rfl, ha⟩ rfl
  cases hgu with
  | «prelude» hd hpre =>
    refine .inl ⟨quiet ?_, fun e he => hpre.unchanged he⟩
    rw [hmv.done, hd]
    exact hpre.preparing
  | @effect reply hd he =>
    obtain ⟨reply', ha⟩ := (effect_answered h0 (h.step hst) r t' hself).resolve_left
      (hmv.done ▸ he.not_preparing t.done)
    cases hc : t.req.change? w.slug with
    | none =>
      refine .inl ⟨fun x hxc hx => ((hiff x).mp hx).resolve_right fun hr => ?_, fun e hs => he.unchanged hf hw hc hs⟩
      rw [← hr.2.1, hmv.req, hc] at hxc
      cases hxc
    | some c =>
      have hcs : (t.req.change? w.slug).isSome = true := by rw [hc]; rfl
      obtain rfl : reply = reply' := hg'.answer_of_effect hself ha hmv.done (hmv.req ▸ he) (hmv.req ▸ hcs)
      refine .inr ⟨⟨r, t.req, reply⟩, c, hc, fun x hx => index_ne_of_move ht hm hx, fun x => ?_,
        fun e hs => he.changes hg.sound hf hw hc hs⟩
      rw [hiff, hmv.req, ha]
      refine or_congr_right ⟨?_, ?_⟩
      · obtain ⟨_, request, reply₁⟩ := x
        rintro ⟨rfl, rfl, hr⟩
        rw [Except.ok.inj (Option.some.inj hr)]
      · rintro rfl
        exact ⟨rfl, rfl, rfl⟩

/-! ### Runs -/

/-- From `s` to `u` the requests in `order` have changed the workflow, which
showed `e` before: they are those that have succeeded since, and the tables
and the answers are what their changes give one after another. -/
structure Serial (s u : Registry) (w : WorkflowRow) (e : Entry) (order : List Success) : Prop where
  nodup : (order.map Success.index).Nodup
  mem : ∀ x, x ∈ order ↔ u.Succeeded x ∧ (x.request.change? w.slug).isSome = true ∧ ¬ s.Succeeded x
  shows : u.db.Shows w.id (Machine.run (Entry.serve w.slug) e (changesOf w.slug order))
  replies : (Machine.turns (Entry.serve w.slug) e (changesOf w.slug order)).map Machine.Turn.answer =
    order.map Success.reply

theorem Serial.refl (he : s.db.Shows w.id e) : Serial s s w e [] :=
  ⟨List.nodup_nil, fun _ => ⟨fun h => (by cases h), fun h => absurd h.1 h.2.2⟩, he, rfl⟩

theorem Serial.step {a : Action registry Request} {order : List Success} (h : Serial s u w e order) (h0 : db₀.Sound)
    (hr : Reached app db₀ u) (hw : ∃ w' ∈ u.db.workflows, w.same w') (hsu : ∀ x, s.Succeeded x → u.Succeeded x)
    (hst : u.step (handle app) a = some u') : ∃ order, Serial s u' w e order := by
  obtain ⟨w', hw', hsame⟩ := hw
  have hone := success_step h0 hr hst hw'
  rw [hsame.1, hsame.2.1] at hone
  rcases hone with ⟨hold, hshow⟩ | ⟨y, c, hc, hnew, hiff, hchange⟩
  · refine ⟨order, h.nodup, fun x => ?_, hshow _ h.shows, h.replies⟩
    rw [h.mem]
    constructor
    · rintro ⟨hx, hc, hs⟩
      exact ⟨succeeded_step hx hst, hc, hs⟩
    · rintro ⟨hx, hc, hs⟩
      exact ⟨hold x hc hx, hc, hs⟩
  · obtain ⟨hreply, hshow⟩ := hchange _ h.shows
    have hcs := changesOf_snoc order hc
    refine ⟨order ++ [y], ?_, fun x => ?_, ?_, ?_⟩
    · rw [List.map_append, List.nodup_append]
      refine ⟨h.nodup, List.nodup_singleton _, fun i hi j hj => ?_⟩
      obtain ⟨x, hx, rfl⟩ := List.mem_map.mp hi
      rw [List.map_singleton, List.mem_singleton] at hj
      rw [hj]
      exact hnew x ((h.mem x).mp hx).1
    · rw [List.mem_append, List.mem_singleton, h.mem, hiff]
      constructor
      · rintro (⟨hx, hc, hs⟩ | rfl)
        · exact ⟨.inl hx, hc, hs⟩
        · exact ⟨.inr rfl, by rw [hc]; rfl, fun hs => hnew x (hsu x hs) rfl⟩
      · rintro ⟨hx | rfl, hc, hs⟩
        · exact .inl ⟨hx, hc, hs⟩
        · exact .inr rfl
    · rw [hcs, Machine.run_append]
      exact hshow
    · rw [hcs, Machine.turns_snoc, List.map_append, List.map_append, h.replies]
      exact congrArg (order.map Success.reply ++ [·]) hreply.symm

theorem serial_run (h0 : db₀.Sound) (h : Reached app db₀ s) {as : List (Action registry Request)}
    (hrun : s.run (handle app) as = some s') (hw : w ∈ s.db.workflows) (he : s.db.Shows w.id e) :
    ∃ order, Serial s s' w e order := by
  have key : Reached app db₀ s' ∧ (∃ w' ∈ s'.db.workflows, w.same w') ∧ (∀ x, s.Succeeded x → s'.Succeeded x) ∧
      ∃ order, Serial s s' w e order := by
    refine Pool.run_induct (P := fun u : Registry => Reached app db₀ u ∧ (∃ w' ∈ u.db.workflows, w.same w') ∧
      (∀ x, s.Succeeded x → u.Succeeded x) ∧ ∃ order, Serial s u w e order)
      ⟨h, ⟨w, hw, .refl w⟩, fun _ hx => hx, [], .refl he⟩ ?_ hrun
    rintro u a u' ⟨hr, ⟨w₁, hw₁, hsame⟩, hsu, order, hser⟩ hst
    obtain ⟨w₂, hw₂, hsame'⟩ := ((hr.good h0).grows hst).workflows w₁ hw₁
    exact ⟨hr.step hst, ⟨w₂, hw₂, hsame.trans hsame'⟩, fun x hx => succeeded_step (hsu x hx) hst,
      hser.step h0 hr ⟨w₁, hw₁, hsame⟩ hsu hst⟩
  exact key.2.2.2

/-! ### What is visible -/

/-- Some page of the listing has the workflow. -/
def Db.InList (db : Db) (env : Env) (slug : String) : Prop :=
  ∃ params rows row, alone env (list params) db = some (.ok (.summaries rows), db) ∧ row ∈ rows ∧ row.slug = slug

/-- Its own page is served. -/
def Db.InDetail (db : Db) (env : Env) (slug : String) : Prop :=
  ∃ row, alone env (detail slug) db = some (.ok (.summary row), db)

theorem inDetail_iff {env : Env} (hs : db.Sound) (hw : w ∈ db.workflows) (hnul : hasNul w.slug = false) :
    db.InDetail env w.slug ↔ w.unlistedAt = none := by
  constructor
  · rintro ⟨row, h⟩
    obtain ⟨-, -, x, hx, hslug, hl, -⟩ := alone_detail_iff.mp h
    rwa [← WorkflowRow.eq_of_slug hx hw hslug]
  · intro hl
    obtain ⟨row, -, h⟩ := alone_detail env hs hw hl hnul
    exact ⟨row, h⟩

theorem inList_iff {env : Env} (hs : db.Sound) (hw : w ∈ db.workflows) :
    db.InList env w.slug ↔ w.unlistedAt = none := by
  constructor
  · rintro ⟨params, rows, row, h, hrow, hslug⟩
    obtain ⟨x, hx, hl, hsum⟩ := alone_list h row hrow
    rw [← WorkflowRow.eq_of_slug hx hw ((summary_eq_some hsum).1.symm.trans hslug)]
    exact hl
  · intro hl
    obtain ⟨row, hsum⟩ := exists_summary hs.owned env.now hw
    let everything : ListParams := ⟨none, none, none, some 1, none, none⟩
    have hin : (w.id, row) ∈ db.listing env everything.query := by
      rw [Db.listing, List.mem_insertionSort, List.mem_filterMap]
      refine ⟨w, List.mem_filter.mpr ⟨hw, ?_⟩, by rw [hsum]; rfl⟩
      simp [ListQuery.selects, everything, ListParams.query, hl]
    -- the page that starts with it
    obtain ⟨i, hi⟩ := List.mem_iff_getElem?.mp hin
    refine ⟨{ everything with offset := some i }, [row], row, ?_, List.mem_singleton_self row, (summary_eq_some hsum).1⟩
    have hpage : ((db.listing env everything.query).drop i).take 1 = [(w.id, row)] := by
      rw [List.take_one, List.head?_drop, hi]
      rfl
    have hx : Stmt.exec env (.list { everything with offset := some i : ListParams }.query) db = .ok ([row], []) := by
      rw [exec_eq_run (by simp [Stmt.texts, ListParams.query, everything])]
      have hlist : db.listing env { everything with offset := some i : ListParams }.query =
          db.listing env everything.query := rfl
      have hlimit : { everything with offset := some i : ListParams }.query.limit.toNat = 1 := by
        show (max 1 (min 200 (1 : ℤ))).toNat = 1
        omega
      have hoffset : { everything with offset := some i : ListParams }.query.offset.toNat = i := by
        show (max 0 (i : ℤ)).toNat = i
        omega
      simp only [Stmt.run, hlist, hlimit, hoffset, hpage]
      rfl
    exact alone_ok hx

/-! ### The order of the effects -/

/-- The same entry, timestamps aside. -/
structure Db.SameEntry (db db' : Db) (id : Uuid) : Prop where
  row : ∃ w ∈ db.workflows, ∃ w' ∈ db'.workflows, w.id = id ∧ w'.id = id ∧ w'.official = w.official ∧
    w'.title = w.title ∧ w'.description = w.description ∧ w'.tags = w.tags ∧
    w'.unlistedAt.isNone = w.unlistedAt.isNone
  documents : ∀ k d, db'.HasDocument id k d ↔ db.HasDocument id k d

theorem Db.Shows.same {id : Uuid} (h : db.Shows id e) (h' : db'.Shows id e) : db.SameEntry db' id := by
  obtain ⟨w, hw, hid, hs⟩ := h.row
  obtain ⟨w', hw', hid', hs'⟩ := h'.row
  exact ⟨⟨w, hw, w', hw', hid, hid', hs'.official.trans hs.official.symm, hs'.title.trans hs.title.symm,
    hs'.description.trans hs.description.symm, hs'.tags.trans hs.tags.symm, hs'.listed.trans hs.listed.symm⟩,
    fun k d => (h'.documents k d).trans (h.documents k d).symm⟩

/-- **Changes to a workflow are serialisable.** From any state, along any run,
the publishes, updates, unlists and operator's flags of a workflow that succeed
can be put in an order in which, served one after another for its owner, they
give the same versions, the same row and the same answers; each text is the
last one supplied in that order, and the workflow is in the library according
to the last publish or unlist. -/
theorem changes_serialisable (h0 : db₀.Initial) (h : Reached app db₀ s) {as : List (Action registry Request)}
    (hrun : s.run (handle app) as = some s') (hw : w ∈ s.db.workflows) :
    ∃ order : List Success, (order.map Success.index).Nodup ∧
      (∀ x, x ∈ order ↔ s'.Succeeded x ∧ (x.request.change? w.slug).isSome = true ∧ ¬ s.Succeeded x) ∧
      (∀ (login : String) (env : ℕ → Env), ∃ db', replay app ⟨w.publisherId, login⟩ env order s.db =
        some (order.map fun x => .ok x.reply, db') ∧ s'.db.SameEntry db' w.id) ∧
      (∃ w' ∈ s'.db.workflows, w.same w' ∧
        w'.official = (((changesOf w.slug order).filterMap Change.official?).getLast?).getD w.official ∧
        w'.title = (((changesOf w.slug order).filterMap Change.title?).getLast?).getD w.title ∧
        w'.description = (((changesOf w.slug order).filterMap Change.description?).getLast?).getD w.description ∧
        w'.tags = (((changesOf w.slug order).filterMap Change.tags?).getLast?).getD w.tags) ∧
      ∀ env, (s'.db.InList env w.slug ↔
          (((changesOf w.slug order).filterMap Change.listed?).getLast?).getD w.unlistedAt.isNone = true) ∧
        (s'.db.InDetail env w.slug ↔
          (((changesOf w.slug order).filterMap Change.listed?).getLast?).getD w.unlistedAt.isNone = true) := by
  have hg := h.good h0.sound
  have hr' := h.run hrun
  have hg' := hr'.good h0.sound
  obtain ⟨e, he⟩ := exists_shows hg.sound hw
  obtain ⟨order, hser⟩ := serial_run h0.sound h hrun hw he
  -- the rows before and after, and what they show
  obtain ⟨w₀, hw₀, hid₀, hs₀⟩ := he.row
  obtain rfl := WorkflowRow.eq_of_id hw₀ hw hid₀
  obtain ⟨w', hw', hid', hs'⟩ := hser.shows.row
  have hsame : w₀.same w' := by
    obtain ⟨w₁, hw₁, hsame⟩ := (Contract.run_rely hg hrun).workflows w₀ hw
    rwa [WorkflowRow.eq_of_id hw' hw₁ (hid'.trans hsame.1.symm)]
  have hlisted : w'.unlistedAt = none ↔
      (((changesOf w₀.slug order).filterMap Change.listed?).getLast?).getD w₀.unlistedAt.isNone = true := by
    rw [← Option.isNone_iff_eq_none, hs'.listed, listed_run, hs₀.listed]
  refine ⟨order, hser.nodup, hser.mem, fun login env => ?_, ⟨w', hw', hsame, ?_, ?_, ?_, ?_⟩, fun env => ?_⟩
  · have hsend : ∀ x ∈ order, (x.request.change? w₀.slug).isSome = true ∧ x.request.Sends app x.reply := fun x hx =>
      ⟨((hser.mem x).mp hx).2.1, hr'.sends h0.sound ((hser.mem x).mp hx).1⟩
    obtain ⟨db', hreplay, hshow⟩ := replay_serves (p := ⟨w₀.publisherId, login⟩) env (h.slugs h0 w₀ hw) order
      ⟨w₀, hw, rfl, rfl, rfl⟩ he hsend hser.replies
    exact ⟨db', hreplay, hser.shows.same hshow⟩
  · rw [hs'.official, official_run, hs₀.official]
  · rw [hs'.title, title_run, hs₀.title]
  · rw [hs'.description, description_run, hs₀.description]
  · rw [hs'.tags, tags_run, hs₀.tags]
  · rw [← hlisted, ← hsame.2.1]
    exact ⟨inList_iff hg'.sound hw', inDetail_iff hg'.sound hw' (hr'.slugs h0 w' hw')⟩

/-- A publish that is overtaken by an unlist before its last two statements. -/
def Sample.overtakenPublish : List (Action registry Request) :=
  .arrive (publish 0 "first" "steps: [1]") :: .arrive (.unlist (headers (token 0)) "first") ::
    (moves 20 1 6 ++ moves 30 2 4 ++ moves 40 1 2)

/-- Both succeed. -/
theorem changes_serialisable_overtaken : ∃ s s' : Registry, Reached Sample.replica Sample.library s ∧
    s.run (handle Sample.replica) Sample.overtakenPublish = some s' ∧
    s'.tasks.map Task.answered = [some (.ok (.published "first" 1)), some (.ok (.published "first" 2)),
      some (.ok (.status "unlisted"))] ∧ ∃ w ∈ s.db.workflows, ∃ order : List Success,
      (∀ x, x ∈ order ↔ s'.Succeeded x ∧ (x.request.change? w.slug).isSome = true ∧ ¬ s.Succeeded x) ∧
      ∀ login env, ∃ db', replay Sample.replica ⟨w.publisherId, login⟩ env order s.db =
        some (order.map fun x => .ok x.reply, db') ∧ s'.db.SameEntry db' w.id := by
  have h : ((Sample.after (Sample.serve 10 0 (Sample.create 0 "first") 7)).map fun s =>
      (s.db.workflows.rows.map (·.slug), (s.run (handle Sample.replica) Sample.overtakenPublish).map fun s' =>
        s'.tasks.map Task.answered)) =
      some (["first"], some [some (.ok (.published "first" 1)), some (.ok (.published "first" 2)),
        some (.ok (.status "unlisted"))]) := by
    decide +kernel
  obtain ⟨s, hr, hs⟩ := Sample.reached h
  simp only [Prod.mk.injEq, List.map_eq_singleton_iff, Option.map_eq_some_iff] at hs
  obtain ⟨⟨w, hw, -⟩, s', hrun, hanswers⟩ := hs
  have hwm : w ∈ s.db.workflows := by
    rw [Table.mem_def, hw]
    exact List.mem_singleton_self w
  obtain ⟨order, -, hmem, hreplay, -⟩ := changes_serialisable Sample.initial hr hrun hwm
  exact ⟨s, s', hr, hrun, hanswers, w, hwm, order, hmem, hreplay⟩

end HarnessRegistry

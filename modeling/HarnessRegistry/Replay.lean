/-
# Requests one after another

What the handlers that change an entry do when they run alone, one at a time,
after authentication: each makes the change it asks for and answers what the
change gives (`alone_served`), so a list of them does what `Entry.serve` does
(`replay_serves`). They need no more of the database than to hold what is
sent, and a request that has succeeded once has sent nothing else
(`Reached.sends`).

Key definitions: `Request.served`, `Success`, `replay`, `Request.Sends`.
Key theorems: `alone_served`, `replay_serves`, `Reached.sends`.
-/
import HarnessRegistry.Block
import HarnessRegistry.Entry
import HarnessRegistry.Published

namespace HarnessRegistry

open Txn Handler

variable {app : AppState} {db db' db₀ : Db} {s s' : Registry} {env : Env} {p : Publisher} {w : WorkflowRow} {e : Entry}

/-- The handler of a request of `p`'s or of the operator's, after the
extractors. -/
def Request.served (app : AppState) (p : Publisher) : Request → Handler Reply
  | .setOfficial _ slug value => HarnessRegistry.setOfficial slug value
  | req => req.body app p

/-- A request that has been answered with no error, by its place in the order
of arrival. -/
structure Success where
  index : ℕ
  request : Request
  reply : Reply

def Registry.Succeeded (s : Registry) (x : Success) : Prop :=
  ∃ t, s.tasks[x.index]? = some t ∧ t.req = x.request ∧ t.answered = some (.ok x.reply)

/-- The requests one after another, each alone: the answers, and the database
after the last. -/
def replay (app : AppState) (p : Publisher) (env : ℕ → Env) : List Success → Db → Option (List (Except Error Reply) × Db)
  | [], db => some ([], db)
  | x :: xs, db => do
    let (out, db) ← alone (env x.index) (x.request.served app p) db
    let (outs, db) ← replay app p env xs db
    return (out :: outs, db)

/-- What the requests ask of the entry `slug`. -/
def changesOf (slug : String) (xs : List Success) : List Change := xs.filterMap fun x => x.request.change? slug

theorem changesOf_snoc {slug : String} (xs : List Success) {x : Success} {c : Change}
    (h : x.request.change? slug = some c) : changesOf slug (xs ++ [x]) = changesOf slug xs ++ [c] := by
  simp [changesOf, h]

/-- The request is well formed, the database holds its texts, and also the
number in its answer. -/
def Request.Sends (app : AppState) (reply : Reply) : Request → Prop
  | .publishVersion _ _ body => body.validate app.config.maxYamlBytes = .ok () ∧
      (body.yaml :: body.changelog.toList).any hasNul = false ∧ ∀ slug n, reply = .published slug n → n ≤ i32Max
  | .update _ _ body => body.validate = .ok () ∧
      (body.title.toList ++ body.description.toList ++ body.tags.getD []).any hasNul = false
  | _ => True

/-! ### One request alone -/

theorem find_owned (hw : w ∈ db.workflows) :
    db.workflows.find? (fun x => x.slug == w.slug && x.publisherId == w.publisherId) = some w := by
  refine (Table.find?_eq_some fun x y hx hy => ?_).mpr ⟨hw, by simp⟩
  simp only [Bool.and_eq_true, beq_iff_eq] at hx hy
  exact (clash_workflow _ _).mpr (.inr (hx.1.trans hy.1.symm))

theorem alone_ownedWorkflowId {g : Uuid → Handler Reply} (hw : w ∈ db.workflows) (hp : p.id = w.publisherId)
    (hnul : hasNul w.slug = false) :
    alone env (ownedWorkflowId w.slug p >>= g) db = alone env (g w.id) db := by
  have hx : Stmt.exec env (.ownedWorkflowId w.slug p.id) db = .ok (some w.id, []) := by
    rw [exec_eq_run (by simp [Stmt.texts, hnul]), hp]
    simp only [Stmt.run, find_owned hw]
    rfl
  unfold ownedWorkflowId
  rw [query, bind_assoc, alone_ok hx]
  rfl

/-- The row is still there to be updated. -/
theorem ifFound_self {x : Write} (hw : w ∈ db.workflows) : ifFound (db.workflows.find? fun r => r.id == w.id) x = [x] :=
  ifFound_workflow hw (.refl db)

/-- The key of the next version is free. -/
theorem next_free (he : db.Shows w.id e) {v : VersionRow} (hv : v.workflowId = w.id)
    (hn : v.version = e.documents.length + 1) : ¬ db.versions.has (key v) := by
  rintro ⟨x, hx, hc⟩
  obtain ⟨hxw, hxn⟩ := (clash_version _ _).mp hc
  have hxw : x.workflowId = w.id := hxw.trans hv
  have hxn : x.version = e.documents.length + 1 := hxn.trans hn
  obtain ⟨-, hle⟩ := (he.numbered _).mp ⟨x, hx, hxw, hxn⟩
  omega

theorem fresh_change {c : Change} {now : Timestamp} (he : db.Shows w.id e) :
    registry.Fresh (c.writes w.id now e) db := by
  cases c with
  | publish yaml changelog =>
    have hf := fresh_insertVersion (next_free he (v := ⟨w.id, e.documents.length + 1, yaml, changelog, now, none⟩) rfl rfl)
    exact ⟨by simp [Change.writes, Write.claims], by simpa [Change.writes, Write.claims] using hf.2⟩
  | amend | unlist | badge => exact fresh_of_claims (by simp [Change.writes, Write.claims])

theorem alone_publishVersion {body : PublishVersion} (hw : w ∈ db.workflows) (he : db.Shows w.id e)
    (hp : p.id = w.publisherId) (hnul : hasNul w.slug = false) (hv : body.validate app.config.maxYamlBytes = .ok ())
    (htext : (body.yaml :: body.changelog.toList).any hasNul = false) (hn : (e.documents.length : ℤ) + 1 ≤ i32Max) :
    alone env (publishVersion app p w.slug body) db =
      some (.ok (.published w.slug (e.documents.length + 1)),
        registry.applyAll ((Change.publish body.yaml body.changelog).writes w.id env.now e) db) := by
  have hnext : Stmt.exec env (.nextVersion w.id) db = .ok ((e.documents.length : ℤ) + 1, []) := by
    rw [exec_eq_run (by simp [Stmt.texts])]
    simp only [Stmt.run, max_numbered (Int.natCast_nonneg _) he.numbered]
    exact if_neg (not_lt.mpr hn)
  have hinsert : Stmt.exec env (.insertVersion w.id (e.documents.length + 1) body.yaml body.changelog) db =
      .ok ((e.documents.length : ℤ) + 1,
        [.insertVersion ⟨w.id, e.documents.length + 1, body.yaml, body.changelog, env.now, none⟩]) := by
    refine (exec_eq_run (q := .insertVersion w.id _ body.yaml body.changelog) htext).trans ?_
    exact if_neg (next_free he rfl rfl)
  unfold publishVersion
  rw [hv]
  show alone env (ownedWorkflowId w.slug p >>= _) db = _
  rw [alone_ownedWorkflowId hw hp hnul, alone_begin]
  have hrelist : ∀ db, w ∈ db.workflows → Stmt.exec env (.relist w.id) db = .ok ((), [.relist w.id env.now]) := by
    intro db hw
    rw [exec_eq_run (by simp [Stmt.texts])]
    simp only [Stmt.run, ifFound_self hw]
  refine (aloneTx_ok (x := ⟨env, []⟩) hnext).trans ?_
  refine (aloneTx_ok (x := ⟨env, []⟩) hinsert).trans ?_
  refine (aloneTx_ok (hrelist _ hw)).trans ?_
  rw [aloneTx_commit]
  exact alone_pure _

theorem alone_update {body : UpdateWorkflow} (hw : w ∈ db.workflows) (hp : p.id = w.publisherId)
    (hnul : hasNul w.slug = false) (hv : body.validate = .ok ())
    (htext : (body.title.toList ++ body.description.toList ++ body.tags.getD []).any hasNul = false) :
    alone env (update p w.slug body) db =
      some (.ok (.status "updated"),
        registry.applyAll ((Change.amend body.title body.description body.tags).writes w.id env.now e) db) := by
  have hx : Stmt.exec env (.amend w.id body.title body.description body.tags) db =
      .ok ((), [.amend w.id body.title body.description body.tags env.now]) := by
    refine (exec_eq_run (q := .amend w.id _ _ _) htext).trans ?_
    simp only [Stmt.run, ifFound_self hw]
  unfold update
  rw [hv]
  show alone env (ownedWorkflowId w.slug p >>= _) db = _
  rw [alone_ownedWorkflowId hw hp hnul]
  exact alone_ok hx

theorem alone_unlist (hw : w ∈ db.workflows) (hp : p.id = w.publisherId) (hnul : hasNul w.slug = false) :
    alone env (unlist p w.slug) db =
      some (.ok (.status "unlisted"), registry.applyAll (Change.unlist.writes w.id env.now e) db) := by
  have hx : Stmt.exec env (.unlist w.id) db = .ok ((), [.unlist w.id env.now]) := by
    rw [exec_eq_run (by simp [Stmt.texts])]
    simp only [Stmt.run, ifFound_self hw]
  unfold unlist
  rw [alone_ownedWorkflowId hw hp hnul]
  exact alone_ok hx

theorem alone_setOfficial {value : Bool} (hw : w ∈ db.workflows) (hnul : hasNul w.slug = false) :
    alone env (setOfficial w.slug value) db =
      some (.ok (.official w.slug value), registry.applyAll ((Change.badge value).writes w.id env.now e) db) := by
  have hx : Stmt.exec env (.setOfficial w.slug value) db = .ok ((1 : ℕ), [.setOfficial w.id value]) := by
    rw [exec_eq_run (by simp [Stmt.texts, hnul])]
    simp only [Stmt.run, find_slug hw]
  exact alone_ok hx

/-- **A request alone makes the change it asks for.** -/
theorem alone_served {req : Request} {c : Change} (hreq : req.change? w.slug = some c) (hw : w ∈ db.workflows)
    (he : db.Shows w.id e) (hp : p.id = w.publisherId) (hnul : hasNul w.slug = false)
    (hsend : req.Sends app (c.reply w.slug e)) :
    alone env (req.served app p) db = some (.ok (c.reply w.slug e), registry.applyAll (c.writes w.id env.now e) db) := by
  cases req with
  | publishVersion h slug body =>
    obtain ⟨rfl, rfl⟩ := asks hreq
    obtain ⟨hv, htext, hn⟩ := hsend
    exact alone_publishVersion hw he hp hnul hv htext (hn _ _ rfl)
  | update h slug body =>
    obtain ⟨rfl, rfl⟩ := asks hreq
    exact alone_update hw hp hnul hsend.1 hsend.2
  | unlist h slug =>
    obtain ⟨rfl, rfl⟩ := asks hreq
    exact alone_unlist hw hp hnul
  | setOfficial h slug value =>
    obtain ⟨rfl, rfl⟩ := asks hreq
    exact alone_setOfficial hw hnul
  | _ => cases hreq

/-- **Requests one after another are changes one after another**, of the same
entry and with the same answers. -/
theorem replay_serves (env : ℕ → Env) {id : Uuid} {slug : String} (hnul : hasNul slug = false) :
    ∀ (xs : List Success) {db : Db} {e : Entry},
      (∃ w ∈ db.workflows, w.id = id ∧ w.slug = slug ∧ w.publisherId = p.id) → db.Shows id e →
      (∀ x ∈ xs, (x.request.change? slug).isSome = true ∧ x.request.Sends app x.reply) →
      (Machine.turns (Entry.serve slug) e (changesOf slug xs)).map Machine.Turn.answer = xs.map Success.reply →
      ∃ db', replay app p env xs db = some (xs.map fun x => .ok x.reply, db') ∧
        db'.Shows id (Machine.run (Entry.serve slug) e (changesOf slug xs))
  | [], db, e, _, he, _, _ => ⟨db, rfl, he⟩
  | x :: xs, db, e, ⟨w, hw, hid, hslug, hp⟩, he, hx, hr => by
    subst hid hslug
    obtain ⟨hasks, hsend⟩ := hx x List.mem_cons_self
    obtain ⟨c, hc⟩ := Option.isSome_iff_exists.mp hasks
    have hcs : changesOf w.slug (x :: xs) = c :: changesOf w.slug xs := List.filterMap_cons_some hc
    rw [hcs, Machine.turns_cons, List.map_cons, List.map_cons, List.cons.injEq] at hr
    obtain ⟨hreply, hrest⟩ := hr
    have hreply : c.reply w.slug e = x.reply := hreply
    rw [← hreply] at hsend
    -- the row keeps its names and its owner
    obtain ⟨w', hw', hsame⟩ := (grows_applyAll (c.writes w.id (env x.index).now e) db).workflows w hw
    obtain ⟨db', hrun, hshow⟩ := replay_serves env hnul xs
      ⟨w', hw', hsame.1, hsame.2.1, hsame.2.2.trans hp⟩ (he.change (fresh_change he))
      (fun y hy => hx y (List.mem_cons_of_mem _ hy)) hrest
    refine ⟨db', ?_, ?_⟩
    · rw [replay, alone_served hc hw he hp.symm hnul hsend, hreply]
      show (replay app p env xs _).bind _ = _
      rw [hrun]
      rfl
    · rw [hcs]
      exact hshow

/-! ### What has been sent -/

theorem publishVersion_sends {h : HeaderMap} {slug : String} {body : PublishVersion} {done : List Write} :
    Wp DocumentRule (publishVersion app p slug body) none done db fun out _ _ _ =>
      ∀ reply, out = .ok reply → Request.Sends app reply (.publishVersion h slug body) := by
  have fail : ∀ (er : Error) (reply : Reply), (.error er : Except Error Reply) = .ok reply →
      Request.Sends app reply (.publishVersion h slug body) := fun _ _ he => by cases he
  unfold publishVersion
  rw [wp_bind, wp_lift]
  cases hv : body.validate app.config.maxYamlBytes with
  | error er => exact fail er
  | ok u =>
    refine wp_ownedWorkflowId (fun er _ => fail er) fun db₀ w _ _ _ _ _ => ?_
    rw [wp_bind]
    refine wp_begin (fun _ => fail _) fun env => ?_
    dsimp only
    refine wp_execTx (fun _ _ _ _ => fail _) fun db₁ env₁ (n : ℤ) ws₁ _ _ ha₁ => ?_
    have hn : n ≤ i32Max := by
      have ha₁ := run_of_exec ha₁
      simp only [Stmt.run] at ha₁
      split at ha₁
      · cases ha₁
      · cases ha₁
        exact not_lt.mp ‹_›
    refine ⟨by simp [run_reads rfl (run_of_exec ha₁)], ?_⟩
    refine wp_execTx (fun _ _ _ _ => fail _) fun db₂ env₂ (n' : ℤ) ws₂ _ _ ha₂ => ?_
    obtain ⟨htext, rfl, hws₂⟩ : (body.yaml :: body.changelog.toList).any hasNul = false ∧ n' = n ∧
        ∀ x ∈ ws₂, x.frees = false := by
      unfold Stmt.exec at ha₂
      split at ha₂
      · cases ha₂
      · rename_i htext
        simp only [Stmt.run] at ha₂
        split at ha₂ <;> cases ha₂
        exact ⟨Bool.eq_false_iff.mpr htext, rfl, by simp [Write.frees]⟩
    refine ⟨hws₂, ?_⟩
    refine wp_execTx (fun _ _ _ _ => fail _) fun db₃ env₃ u ws₃ _ _ ha₃ => ?_
    have hws₃ : ∀ x ∈ ws₃, x.frees = false := by
      have ha₃ := run_of_exec ha₃
      simp only [Stmt.run] at ha₃
      cases ha₃
      rcases ifFound_cases (_ : Option WorkflowRow) (.relist w.id env.now) with he | he
      all_goals
        rw [he]
        simp [Write.frees]
    refine ⟨hws₃, ?_⟩
    rw [wp_bind]
    refine wp_commit (fun _ => fail _) fun db₄ _ _ _ => ⟨.inr trivial, wp_pure.mpr fun reply he => ?_⟩
    cases he
    refine ⟨hv, htext, fun slug n he => ?_⟩
    cases he
    exact hn

theorem update_sends {h : HeaderMap} {slug : String} {body : UpdateWorkflow} {done : List Write} :
    Wp DocumentRule (update p slug body) none done db fun out _ _ _ =>
      ∀ reply, out = .ok reply → Request.Sends app reply (.update h slug body) := by
  have fail : ∀ (er : Error) (reply : Reply), (.error er : Except Error Reply) = .ok reply →
      Request.Sends app reply (.update h slug body) := fun _ _ he => by cases he
  unfold update
  rw [wp_bind, wp_lift]
  cases hv : body.validate with
  | error er => exact fail er
  | ok u =>
    refine wp_ownedWorkflowId (fun er _ => fail er) fun db₀ w _ _ _ _ _ => ?_
    refine wp_exec (fun _ _ _ _ => fail _) fun db₁ env a ws _ _ ha => ⟨.inr trivial, wp_pure.mpr fun reply _ => ?_⟩
    refine ⟨hv, ?_⟩
    unfold Stmt.exec at ha
    split at ha
    · cases ha
    · exact Bool.eq_false_iff.mpr ‹_›

/-- A publisher's handler that ensures `Q`, after the extractor. -/
theorem asPublisher_ensures {h : HeaderMap} {f : Publisher → Handler Reply} {Q : Except Error Reply → Prop}
    (fail : ∀ er, Q (.error er)) (hf : ∀ p done db, Wp DocumentRule (f p) none done db fun out _ _ _ => Q out) :
    Wp DocumentRule (asPublisher app h f) none [] db fun out _ _ _ => Q out := by
  unfold asPublisher
  rw [wp_bind]
  exact wp_fromRequestParts ⟨id, id, Db.Grows.trans⟩ (fun _ _ _ _ _ _ => trivial) (fun er _ _ _ => fail er)
    fun p done db _ _ => hf p done db

-- a goal about a handler is not to be evaluated on the handler's text
attribute [local irreducible] Prog.Wp in
/-- What a request that has succeeded has sent. -/
theorem Reached.sends (h0 : db₀.Sound) (h : Reached app db₀ s) {x : Success} (hx : s.Succeeded x) :
    x.request.Sends app x.reply := by
  obtain ⟨t, ht, hreq, ha⟩ := hx
  obtain ⟨as, has⟩ := h
  have ensured : (∀ db, (handle app t.req).Wp DocumentRule none [] db fun out _ _ _ =>
      ∀ reply, out = .ok reply → x.request.Sends app reply) → x.request.Sends app x.reply := fun hwp =>
    Good.answer (Q := fun out => ∀ reply, out = .ok reply → x.request.Sends app reply) (good_start h0) has
      (Nat.zero_le _) ht ha (fun _ u _ => hwp u.db) x.reply rfl
  rw [hreq] at ensured
  cases hr : x.request with
  | publishVersion h slug body =>
    rw [hr] at ensured
    exact ensured fun db => asPublisher_ensures (fun _ _ he => by cases he) fun _ _ _ => publishVersion_sends
  | update h slug body =>
    rw [hr] at ensured
    exact ensured fun db => asPublisher_ensures (fun _ _ he => by cases he) fun _ _ _ => update_sends
  | _ => trivial

end HarnessRegistry

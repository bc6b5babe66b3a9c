/-
# Runs of the service

What the contract gives for the states a run reaches, request by request: what
each has committed (`Committed`), and that it is answered as soon as its
effect is in (`effect_answered`), so that a request has succeeded exactly when
its effect is committed.

Key definitions: `Reached`, `Committed`, `Write.present`, `Concludes`.
Key theorems: `Reached.good`, `Reached.induct`, `Reached.committed`,
`Reached.present`, `effect_answered`, `Good.succeeded`, `Reached.succeeded`,
`Reached.succeeded_iff`.
-/
import HarnessRegistry.Specs

namespace HarnessRegistry

open Txn Handler

variable {app : AppState} {db db₀ : Db} {s s' : Registry}

/-- A request being served. -/
abbrev Call := Task registry Request (Except Error Reply)

theorem Db.Initial.sound (h : db.Initial) : db.Sound := by
  constructor <;> intro x hx
  · simp [h.workflows] at hx
  · simp [h.workflows] at hx
  · simp [h.versions] at hx
  · simp [h.installs] at hx

/-- A state of the service, started on `db₀`. -/
def Reached (app : AppState) (db₀ : Db) (s : Registry) : Prop :=
  ∃ as, (Registry.start db₀).run (handle app) as = some s

/-- The contract holds of the state. -/
abbrev Good (app : AppState) (s : Registry) : Prop := (registryContract app).Good s

theorem good_start (h : db₀.Sound) : Good app (Registry.start db₀) := Contract.good_init h rfl rfl

theorem Reached.good (h0 : db₀.Sound) (h : Reached app db₀ s) : Good app s := by
  obtain ⟨as, h⟩ := h
  exact Contract.run_good (good_start h0) h

theorem Reached.step {a : Action registry Request} (h : Reached app db₀ s)
    (hs : s.step (handle app) a = some s') : Reached app db₀ s' := by
  obtain ⟨as, h⟩ := h
  exact ⟨as ++ [a], Pool.run_snoc.mpr ⟨s, h, hs⟩⟩

theorem Reached.run {as : List (Action registry Request)} (h : Reached app db₀ s)
    (hs : s.run (handle app) as = some s') : Reached app db₀ s' := by
  obtain ⟨bs, h⟩ := h
  exact ⟨bs ++ as, by rw [Pool.run_append, h]; exact hs⟩

/-- What holds at the start and is kept by every move holds of every state
reached. -/
theorem Reached.induct {P : Registry → Prop} (h0 : db₀.Sound) (hP : P (Registry.start db₀))
    (step : ∀ s a s', Reached app db₀ s → Good app s → P s → s.step (handle app) a = some s' → P s')
    (h : Reached app db₀ s) : P s := by
  obtain ⟨as, h⟩ := h
  have key : Reached app db₀ s ∧ P s :=
    Pool.run_induct (P := fun s => Reached app db₀ s ∧ P s) ⟨⟨[], rfl⟩, hP⟩
      (fun s a s' ⟨hr, hp⟩ hst => ⟨hr.step hst, step s a s' hr (hr.good h0) hp hst⟩) h
  exact key.2

theorem Good.sound (h : Good app s) : s.db.Sound := h.ok.inv

theorem Good.grows {a : Action registry Request} (h : Good app s) (hs : s.step (handle app) a = some s') :
    s.db.Grows s'.db := Contract.step_rely h hs

/-! ### What a request has committed -/

/-- The request has a prelude: it is authenticated by a token, or completes a
sign-in. -/
def Request.prepares : Request → Bool
  | .poll .. => true
  | req => req.publisher?.isSome

/-- A prelude at most, or also the effect. -/
inductive Committed (app : AppState) (req : Request) (db : Db) : List Write → Prop
  | preparing {done : List Write} : Preparing done → done = [] ∨ req.prepares = true → Committed app req db done
  | effect {pre ws : List Write} {reply : Reply} {db₀ : Db} : Preparing pre → Effect app req db₀ ws reply →
      (registry.applyAll ws db₀).Grows db → Committed app req db (pre ++ ws)

theorem Committed.grows {req : Request} {done : List Write} {db' : Db} (h : Committed app req db done)
    (hg : db.Grows db') : Committed app req db' done := by
  cases h with
  | preparing h hr => exact .preparing h hr
  | effect h he hg' => exact .effect h he (hg'.trans hg)

theorem Prelude.prepares {req : Request} {ws : List Write} (h : Prelude app req db ws) : req.prepares = true := by
  cases h with
  | @touched _ _ _ _ _ _ hreq => cases req <;> first | rfl | cases hreq
  | upserted => rfl

theorem Prelude.preparing {req : Request} {ws : List Write} (h : Prelude app req db ws) : Preparing ws := by
  cases h with
  | touched => simp [Preparing, Write.preparatory]
  | upserted _ hu => simpa [Preparing] using hu.preparatory

/-- An effect is more than a prelude. -/
theorem Effect.not_preparing {req : Request} {ws : List Write} {reply : Reply}
    (h : Effect app req db ws reply) (pre : List Write) : ¬ Preparing (pre ++ ws) := by
  intro hp
  have hp : Preparing ws := fun w hw => hp w (List.mem_append_right _ hw)
  cases h <;> simp [Preparing, Write.preparatory] at hp

theorem Guar.committed {req : Request} {done ws : List Write} (h : Guar app req done db ws) :
    Committed app req (registry.applyAll ws db) (done ++ ws) := by
  cases h with
  | «prelude» hd hp => subst hd; exact .preparing hp.preparing (.inr hp.prepares)
  | effect hd he => exact .effect hd he (.refl _)

theorem Reached.committed (h0 : db₀.Sound) (h : Reached app db₀ s) :
    ∀ (r : ℕ) (t : Call), s.tasks[r]? = some t →
      Committed app t.req s.db t.done := by
  refine h.induct (P := fun s => ∀ (r : ℕ) (t : Call),
    s.tasks[r]? = some t → Committed app t.req s.db t.done) h0 (by simp [Registry.start])
    fun s a s' _ hg ih hst r t ht => ?_
  rcases Pool.step_task hst ht with ht | ⟨req, rfl⟩ | ⟨c, u, ws, -, hu, hm, rfl⟩
  · exact (ih r t ht).grows (hg.grows hst)
  · exact .preparing .nil (.inl rfl)
  · have hmv := Contract.move_ok hg.ok hu hm
    rw [hmv.req, hmv.done]
    rcases hmv.guar with rfl | ⟨hgu, -⟩
    · simpa using (ih r u hu).grows (hg.grows hst)
    · exact hgu.committed

/-! ### What was inserted is still there -/

/-- The row inserted is there, as far as rows keep what they are. -/
def Write.present : Write → Db → Prop
  | .insertPublisher row, db => ∃ r ∈ db.publishers, row.same r
  | .insertToken row, db => ∃ r ∈ db.tokens, row.same r
  | .insertWorkflow row, db => ∃ r ∈ db.workflows, row.same r
  | .insertVersion row, db => ∃ r ∈ db.versions, row.same r
  | _, _ => True

theorem Write.present.grows {w : Write} {db' : Db} (h : w.present db) (hg : db.Grows db') : w.present db' := by
  cases w
  case insertPublisher row =>
    obtain ⟨r, hr, he⟩ := h
    obtain ⟨r', hr', he'⟩ := hg.publishers r hr
    exact ⟨r', hr', he'.1.trans he.1, he'.2.trans he.2⟩
  case insertToken row =>
    obtain ⟨r, hr, he⟩ := h
    obtain ⟨r', hr', he'⟩ := hg.tokens r hr
    exact ⟨r', hr', he'.1.trans he.1, he'.2.1.trans he.2.1, he'.2.2.trans he.2.2⟩
  case insertWorkflow row =>
    obtain ⟨r, hr, he⟩ := h
    obtain ⟨r', hr', he'⟩ := hg.workflows r hr
    exact ⟨r', hr', he'.1.trans he.1, he'.2.1.trans he.2.1, he'.2.2.trans he.2.2⟩
  case insertVersion row =>
    obtain ⟨r, hr, he⟩ := h
    obtain ⟨r', hr', he'⟩ := hg.versions r hr
    exact ⟨r', hr', he'.1.trans he.1, he'.2.1.trans he.2.1, he'.2.2.1.trans he.2.2.1,
      he'.2.2.2.1.trans he.2.2.2.1, he'.2.2.2.2.trans he.2.2.2.2⟩
  all_goals trivial

theorem present_applyAll : ∀ (ws : List Write) {db : Db}, registry.Fresh ws db → ∀ w ∈ ws,
    w.present (registry.applyAll ws db)
  | [], _, _, _, h => by cases h
  | v :: ws, db, hf, w, h => by
    obtain ⟨hv, hws⟩ := fresh_cons hf
    rcases List.mem_cons.mp h with rfl | h
    · refine Write.present.grows ?_ (grows_applyAll ws _)
      cases w
      case insertPublisher row =>
        exact ⟨row, (Table.mem_insert (not_has_publisher hv)).mpr (.inr rfl), .refl _⟩
      case insertToken row => exact ⟨row, (Table.mem_insert (not_has_token hv)).mpr (.inr rfl), .refl _⟩
      case insertWorkflow row => exact ⟨row, (Table.mem_insert (not_has_workflow hv)).mpr (.inr rfl), .refl _⟩
      case insertVersion row => exact ⟨row, (Table.mem_insert (not_has_version hv)).mpr (.inr rfl), .refl _⟩
      all_goals trivial
    · exact present_applyAll ws hws w h

/-- Every row that was inserted in a run is still there. -/
theorem Reached.present (h0 : db₀.Sound) (h : Reached app db₀ s) : ∀ e ∈ s.log, e.2.present s.db := by
  refine h.induct (P := fun s => ∀ e ∈ s.log, e.2.present s.db) h0 (by simp [Registry.start])
    fun s a s' _ hg ih hst e he => ?_
  have hgr := hg.grows hst
  rcases Contract.step_cases hg hst with ⟨-, hl, -⟩ | ⟨w, hw, hd, hl, -⟩ | ⟨r, t, t', ws, ht, -, hf, hd, hl, -⟩
  · exact (ih e (hl ▸ he)).grows hgr
  · rw [hl] at he
    rcases List.mem_append.mp he with he | he
    · exact (ih e he).grows hgr
    · rw [List.mem_singleton.mp he]
      cases w <;> trivial
  · rw [hl] at he
    rcases List.mem_append.mp he with he | he
    · exact (ih e he).grows hgr
    · obtain ⟨w, hw, rfl⟩ := List.mem_map.mp he
      rw [hd]
      exact present_applyAll ws hf w hw

/-- What a request has committed is in the log. -/
theorem Good.logged_done (hg : Good app s) {r : ℕ} {t : Call} (ht : s.tasks[r]? = some t) {w : Write} :
    w ∈ t.done ↔ (some r, w) ∈ s.log := by
  rw [hg.logged.done r t ht]
  constructor
  · intro hw
    obtain ⟨e, he, rfl⟩ := List.mem_map.mp hw
    obtain ⟨he, hr⟩ := List.mem_filter.mp he
    have hr : e.1 = some r := by simpa using hr
    rw [← hr]
    exact he
  · intro he
    exact List.mem_map.mpr ⟨_, List.mem_filter.mpr ⟨he, by simp⟩, rfl⟩

/-! ### An effect is answered at once -/

/-- A statement that, on its own, is what a request is for. -/
def Stmt.decides : Stmt → Bool
  | .setDisplayName .. | .amend .. | .unlist _ | .upsertInstall .. | .deleteInstall .. | .insertToken ..
  | .setOfficial .. | .setBlocked .. => true
  | _ => false

/-- The request mints a token in a transaction. -/
def Request.issues : Request → Bool
  | .issueToken .. => true
  | _ => false

/-- How programs end: nothing follows a commit, or a statement that decides,
but the answer; and a lost race is a conflict. -/
def Concludes (req : Request) : Prog registry (Except Error Reply) → Prop
  | .commit k => ∃ reply, k (.ok ()) = .ret (.ok reply)
  | .stmt (.insertVersion ..) k => (∃ h slug body, req = .publishVersion h slug body) →
      k (.error .uniqueViolation) = .ret (.error (.conflict "a concurrent publish took that version; retry"))
  | .stmt q k => q.decides = true → req.issues = false → ∀ a, ∃ out, k (.ok a) = .ret out
  | _ => True

/-- An extractor looks up and touches, no more. -/
theorem every_asPublisher {req : Request} {h : HeaderMap} {f : Publisher → Handler Reply}
    (hf : ∀ p, Every (Concludes req) (f p)) : Every (Concludes req) (asPublisher app h f) := by
  unfold asPublisher Publisher.fromRequestParts
  cases bearer h with
  | none => exact every_throw trivial
  | some token =>
    dsimp only
    rw [bind_assoc]
    refine every_queryOr (fun hd => by cases hd) (fun _ => trivial) fun a => ?_
    rcases a with _ | ⟨id, login, blockedAt⟩
    · exact every_throw trivial
    · dsimp only
      split
      · exact every_throw trivial
      · rw [bind_assoc]
        exact every_attempt (fun hd => by cases hd) (hf _)

theorem every_asAdmin {req : Request} {h : HeaderMap} {f : Handler Reply} (hf : Every (Concludes req) f) :
    Every (Concludes req) (asAdmin app h f) := every_lift (fun _ => trivial) fun _ => hf

theorem every_owned {req : Request} {slug : String} {p : Publisher} {g : Uuid → Handler Reply}
    (hg : ∀ id, Every (Concludes req) (g id)) : Every (Concludes req) (ownedWorkflowId slug p >>= g) := by
  unfold ownedWorkflowId
  rw [query, bind_assoc]
  refine every_queryOr (fun hd => by cases hd) (fun _ => trivial) fun a => ?_
  cases a with
  | none => exact every_throw trivial
  | some id => exact hg id

theorem every_workflowId {req : Request} {slug : String} {g : Uuid → Handler Reply}
    (hg : ∀ id, Every (Concludes req) (g id)) : Every (Concludes req) (workflowId slug >>= g) := by
  unfold workflowId
  rw [query, bind_assoc]
  refine every_queryOr (fun hd => by cases hd) (fun _ => trivial) fun a => ?_
  cases a with
  | none => exact every_throw trivial
  | some id => exact hg id

/-- The last statement of a handler, with the answer after it. -/
theorem every_last {req : Request} {q : Stmt} {f : SqlError → Error} {g : q.Res → Handler Reply}
    (hi : ∀ w n y c, q ≠ .insertVersion w n y c) (hg : ∀ a, ∃ out, (g a).run = .ret out) :
    Every (Concludes req) (queryOr q f >>= g) := by
  refine every_queryOr ?_ (fun _ => trivial) fun a => ?_
  · cases q
    case insertVersion w n y c => exact absurd rfl (hi w n y c)
    all_goals exact fun _ _ a => hg a
  · obtain ⟨out, ho⟩ := hg a
    unfold Every
    rw [ho]
    trivial

theorem create_concludes {h : HeaderMap} {p : Publisher} {body : CreateWorkflow} :
    Every (Concludes (.create h body)) (create app p body) := by
  unfold create
  refine every_lift (fun _ => trivial) fun _ => ?_
  have rest : Every (Concludes (.create h body)) (do
      begin
      let id ← queryOr (.insertWorkflow body.slug body.title body.description body.tags p.id)
        (onUniqueViolation · "that slug is already taken")
      let _ ← query (.insertVersion id 1 body.yaml body.changelog)
      commit
      return .published body.slug 1) := by
    refine every_begin trivial (fun _ => trivial) ?_
    refine every_queryOr (fun hd => by cases hd) (fun _ => trivial) fun id => ?_
    refine every_queryOr (fun hp => ?_) (fun _ => trivial) fun _ => ?_
    · obtain ⟨_, _, _, he⟩ := hp
      cases he
    · exact every_commit ⟨_, rfl⟩ (fun _ => trivial) (every_pure trivial)
  unfold checkPublisherCap
  dsimp only
  split
  · exact rest
  · rw [query, bind_assoc]
    refine every_queryOr (fun hd => by cases hd) (fun _ => trivial) fun held => ?_
    split
    · exact every_throw trivial
    · exact rest

theorem publishVersion_concludes {h : HeaderMap} {p : Publisher} {slug : String} {body : PublishVersion} :
    Every (Concludes (.publishVersion h slug body)) (publishVersion app p slug body) := by
  unfold publishVersion
  generalize body.validate app.config.maxYamlBytes = verdict
  refine every_lift (fun _ => trivial) fun _ => every_owned fun id => ?_
  refine every_begin trivial (fun _ => trivial) ?_
  refine every_queryOr (fun hd => by cases hd) (fun _ => trivial) fun derived => ?_
  refine every_queryOr (fun _ => rfl) (fun _ => trivial) fun next => ?_
  refine every_queryOr (fun hd => by cases hd) (fun _ => trivial) fun _ => ?_
  exact every_commit ⟨_, rfl⟩ (fun _ => trivial) (every_pure trivial)

/-- A handler behind a limiter. -/
theorem every_limited {P : Prog registry (Except Error Reply) → Prop} {l : Limiter} {key : String} {f : Handler Reply}
    (ha : ∀ k, P (.ask (l, key) k)) (ht : P (.ret (.error .tooManyRequests))) (hf : Every P f) : Every P (do
      if !(← check l key) then throw .tooManyRequests
      f) := by
  refine every_check (ha _) fun b => ?_
  cases b with
  | false => exact every_throw ht
  | true => exact hf

theorem record_concludes {h : HeaderMap} {slug : String} {body : RecordInstall} :
    Every (Concludes (.record h slug body)) (record h slug body) := by
  refine every_limited (fun _ => trivial) trivial (every_queryOr (fun hd => by cases hd) (fun _ => trivial) fun a => ?_)
  rcases a with _ | id
  · exact every_throw trivial
  · refine every_queryOr (fun hd => by cases hd) (fun _ => trivial) fun a => ?_
    rcases a with _ | n
    · exact every_throw trivial
    · exact every_last (by simp) fun _ => ⟨_, rfl⟩

theorem forget_concludes {h : HeaderMap} {slug : String} {i : Uuid} :
    Every (Concludes (.forget h slug i)) (forget h slug i) := by
  refine every_limited (fun _ => trivial) trivial (every_queryOr (fun hd => by cases hd) (fun _ => trivial) fun a => ?_)
  rcases a with _ | id
  · exact every_throw trivial
  · refine every_last (by simp) fun (n : ℕ) => ?_
    cases n <;> exact ⟨_, rfl⟩

theorem poll_concludes {h : HeaderMap} {body : PollRequest} {site : Site} {clock : DateTime}
    {bytes : Vector UInt8 tokenBytes} :
    Every (Concludes (.poll h body site clock bytes)) (poll app h body site clock bytes) := by
  rw [poll_eq]
  refine every_check trivial fun admitted => ?_
  split
  · cases verdict app body site clock with
    | crashes => exact trivial
    | refused e => exact every_throw trivial
    | unfinished status => exact every_pure trivial
    | enrolls user =>
      refine every_queryOr (fun hd => by cases hd) (fun _ => trivial) fun a => ?_
      split
      · exact every_throw trivial
      · exact every_last (by simp) fun _ => ⟨_, rfl⟩
  · exact every_throw trivial

theorem issueToken_concludes {h : HeaderMap} {body : IssueToken} {bytes : Vector UInt8 tokenBytes} :
    Every (Concludes (.issueToken h body bytes)) (issueToken app body bytes) := by
  unfold issueToken
  generalize (trim body.name).isEmpty = blank
  split
  · exact every_throw trivial
  · refine every_begin trivial (fun _ => trivial) ?_
    refine every_queryOr (fun hd => by cases hd) (fun _ => trivial) fun p => ?_
    refine every_queryOr (fun _ hi => by cases hi) (fun _ => trivial) fun _ => ?_
    exact every_commit ⟨_, rfl⟩ (fun _ => trivial) (every_pure trivial)

-- a goal about a handler is not to be evaluated on the handler's text
attribute [local irreducible] Prog.Every in
/-- Every handler ends so. -/
theorem handle_concludes (app : AppState) (req : Request) : (handle app req).Every (Concludes req) := by
  cases req with
  | list => exact every_last (by simp) fun _ => ⟨_, rfl⟩
  | detail =>
    refine every_last (by simp) fun a => ?_
    rcases a with _ | row <;> exact ⟨_, rfl⟩
  | versions => exact every_workflowId fun _ => every_last (by simp) fun _ => ⟨_, rfl⟩
  | versionDocument =>
    refine every_workflowId fun _ => every_last (by simp) fun a => ?_
    rcases a with _ | doc <;> exact ⟨_, rfl⟩
  | create => exact every_asPublisher fun _ => create_concludes
  | publishVersion => exact every_asPublisher fun _ => publishVersion_concludes
  | update =>
    exact every_asPublisher fun _ => every_lift (fun _ => trivial) fun _ => every_owned fun _ =>
      every_last (by simp) fun _ => ⟨_, rfl⟩
  | unlist => exact every_asPublisher fun _ => every_owned fun _ => every_last (by simp) fun _ => ⟨_, rfl⟩
  | record => exact record_concludes
  | forget => exact forget_concludes
  | me => exact every_asPublisher fun _ => every_last (by simp) fun _ => ⟨_, rfl⟩
  | updateMe h body =>
    refine every_asPublisher fun p => ?_
    have rest : Every (Concludes (.updateMe h body)) (query (.setDisplayName p.id body.name) >>= fun me =>
        pure (.me me)) := every_last (by simp) fun _ => ⟨_, rfl⟩
    unfold Me.update
    cases body.displayName.map trim with
    | none => exact rest
    | some n =>
      dsimp only
      split
      · exact every_throw trivial
      · exact rest
  | available => exact every_pure trivial
  | start =>
    exact every_limited (fun _ => trivial) trivial (every_lift (fun _ => trivial) fun _ =>
      every_lift (fun _ => trivial) fun _ => every_pure trivial)
  | poll => exact poll_concludes
  | issueToken => exact every_asAdmin issueToken_concludes
  | setOfficial =>
    refine every_asAdmin (every_last (by simp) fun (n : ℕ) => ?_)
    cases n <;> exact ⟨_, rfl⟩
  | setBlocked =>
    refine every_asAdmin (every_last (by simp) fun (n : ℕ) => ?_)
    cases n <;> exact ⟨_, rfl⟩

/-- A write that is an effect by itself. -/
def Write.decides : Write → Bool
  | .setDisplayName .. | .amend .. | .unlist .. | .insertInstall _ | .refreshInstall .. | .deleteInstall ..
  | .insertToken _ | .setOfficial .. | .setBlockedAt .. => true
  | _ => false

/-- A statement makes one write at most, of its own kind. -/
theorem run_decides {q : Stmt} {env : Env} {a : q.Res} {ws : List Write} (h : q.run env db = .ok (a, ws)) :
    ws = [] ∨ ∃ w, ws = [w] ∧ w.decides = q.decides := by
  cases q <;> simp only [Stmt.run] at h
  case touchToken | relist | amend | unlist =>
    cases h
    exact (ifFound_cases _ _).imp_right fun he => ⟨_, he, rfl⟩
  case publisherById | nextVersion =>
    split at h <;> cases h
    exact .inl rfl
  case setDisplayName | insertWorkflow | insertVersion | insertToken =>
    split at h <;> cases h
    exact .inr ⟨_, rfl, rfl⟩
  case upsertInstall => split at h <;> cases h <;> exact .inr ⟨_, rfl, rfl⟩
  case enrollPublisher | issuePublisher =>
    split at h
    · cases h
      exact .inr ⟨_, rfl, rfl⟩
    · split at h <;> cases h
      exact .inr ⟨_, rfl, rfl⟩
  case deleteInstall | setOfficial | setBlocked =>
    split at h <;> cases h
    · exact .inl rfl
    · exact .inr ⟨_, rfl, rfl⟩
  all_goals
    cases h
    exact .inl rfl

theorem Effect.decides {req : Request} {w : Write} {reply : Reply} (h : Effect app req db [w] reply) :
    w.decides = true ∧ req.issues = false := by
  generalize hws : [w] = ws at h
  cases h <;> cases hws <;> exact ⟨rfl, rfl⟩

/-- The move that commits an effect answers the request. -/
theorem move_answers {t t' : Call} {c : Choice registry} {ws : List Write}
    {reply : Reply} (hc : Concludes t.req t.prog) (hm : t.move db c = some (t', ws))
    (he : Effect app t.req db ws reply) : ∃ out, t'.answered = some out := by
  have hne : ws ≠ [] := fun h => he.not_preparing [] (by simp [h, Preparing])
  obtain ⟨env, -, hg, ⟨k, x, hp, -, -, rfl⟩ | ⟨q, k, a, hp, -, hx, rfl⟩⟩ := Task.move_commits hm hne
  · rw [hp] at hc
    obtain ⟨reply, hk⟩ := hc
    exact ⟨_, Task.answered_eq.mpr ⟨hg, hk⟩⟩
  · rw [hp] at hc
    obtain h | ⟨w, rfl, hw⟩ := run_decides (run_of_exec hx)
    · exact absurd h hne
    · obtain ⟨hd, hi⟩ := he.decides
      rw [hd] at hw
      cases q
      case insertVersion => cases hw
      all_goals
        obtain ⟨out, hk⟩ := hc hw.symm hi _
        exact ⟨_, Task.answered_eq.mpr ⟨hg, hk⟩⟩

/-- **A request whose effect is in has been answered**, and with no error. -/
theorem effect_answered (h0 : db₀.Sound) (h : Reached app db₀ s) :
    ∀ (r : ℕ) (t : Call), s.tasks[r]? = some t →
      Preparing t.done ∨ ∃ reply, t.answered = some (.ok reply) := by
  refine h.induct (P := fun s => ∀ (r : ℕ) (t : Call),
    s.tasks[r]? = some t → Preparing t.done ∨ ∃ reply, t.answered = some (.ok reply)) h0
    (by simp [Registry.start]) fun s a s' hr hg ih hst r t ht => ?_
  have hg' := Contract.step_good hg hst
  by_cases hp : Preparing t.done
  · exact .inl hp
  refine .inr ?_
  -- an answer other than an error, since there was an effect
  have ok : (∃ out, t.answered = some out) → ∃ reply, t.answered = some (.ok reply) := by
    rintro ⟨out, ho⟩
    have hpost := Contract.post_of_answered hg' ht ho
    cases out with
    | ok reply => exact ⟨reply, ho⟩
    | error e => cases hpost with | failed hd => exact absurd hd hp
  rcases Pool.step_task hst ht with ht | ⟨req, rfl⟩ | ⟨c, u, ws, -, hu, hm, rfl⟩
  · exact (ih r t ht).resolve_left hp
  · exact absurd .nil hp
  · have hmv := Contract.move_ok hg.ok hu hm
    rcases ih r u hu with hup | ⟨reply, hup⟩
    · rcases hmv.guar with rfl | ⟨hgu, -⟩
      · rw [hmv.done, List.append_nil] at hp
        exact absurd hup hp
      · cases hgu with
        | «prelude» hd hpre =>
          rw [hmv.done] at hp
          exact absurd (hup.append hpre.preparing) hp
        | effect _ he =>
          obtain ⟨as, has⟩ := hr
          exact ok (move_answers (Pool.run_every (handle_concludes app) rfl has hu) hm he)
    · rw [Task.move_of_answered hup] at hm
      cases hm

/-- What a request that has succeeded has committed. -/
theorem Good.succeeded (hg : Good app s) {r : ℕ} {t : Call} {reply : Reply} (ht : s.tasks[r]? = some t)
    (ha : t.answered = some (.ok reply)) :
    Plain t.req reply ∧ Preparing t.done ∨ ∃ pre ws db, t.done = pre ++ ws ∧ Preparing pre ∧
      Effect app t.req db ws reply ∧ (registry.applyAll ws db).Grows s.db := by
  have hpost := Contract.post_of_answered hg ht ha
  generalize t.done = done at hpost
  cases hpost with
  | plain hp hd => exact .inl ⟨hp, hd⟩
  | effect hd he hgr => exact .inr ⟨_, _, _, rfl, hd, he, hgr⟩

/-- The move that answers a request with success commits its effect. -/
theorem Reached.answering_effect (h0 : db₀.Sound) (h : Reached app db₀ s) {r : ℕ} {c : Choice registry} {t t' : Call}
    {reply : Reply} (hst : s.step (handle app) (.task r c) = some s') (ht : s.tasks[r]? = some t)
    (ht' : s'.tasks[r]? = some t') (ha : t'.answered = some (.ok reply)) (hpl : ¬ Plain t.req reply) :
    ∃ ws reply', Effect app t.req s.db ws reply' ∧ registry.Fresh ws s.db ∧ s'.db = registry.applyAll ws s.db := by
  have hg := h.good h0
  have hg' := Contract.step_good hg hst
  obtain ⟨u', ws, hm, rfl, hu'⟩ := Pool.task_step hst ht
  obtain rfl := Option.some.inj (hu'.symm.trans ht')
  have hmv := Contract.move_ok hg.ok ht hm
  have hdone : ¬ Preparing u'.done := by
    rcases Good.succeeded hg' ht' ha with ⟨hp, -⟩ | ⟨pre, vs, db, hd, -, he, -⟩
    · exact absurd (hmv.req ▸ hp) hpl
    · rw [hd]
      exact he.not_preparing pre
  rw [hmv.done] at hdone
  rcases hmv.guar with rfl | ⟨hgu, hf⟩
  · rw [List.append_nil] at hdone
    obtain ⟨reply', hans⟩ := (effect_answered h0 h r t ht).resolve_left hdone
    rw [Task.move_of_answered hans] at hm
    cases hm
  · cases hgu with
    | «prelude» hd hp =>
      rw [hd] at hdone
      exact absurd hp.preparing hdone
    | effect _ he => exact ⟨ws, _, he, hf, rfl⟩

/-- A request with more than a prelude in the log has succeeded. -/
theorem Reached.succeeded (h0 : db₀.Sound) (h : Reached app db₀ s) {r : ℕ} {w : Write}
    (hlog : (some r, w) ∈ s.log) (hw : w.preparatory = false) :
    ∃ t reply, s.tasks[r]? = some t ∧ t.answered = some (.ok reply) := by
  have hg := h.good h0
  have ht : s.tasks[r]? = some _ := List.getElem?_eq_getElem (hg.logged.index _ hlog r rfl)
  rcases effect_answered h0 h r _ ht with hp | ⟨reply, ha⟩
  · have := hp w ((hg.logged_done ht).mpr hlog)
    rw [hw] at this
    cases this
  · exact ⟨_, reply, ht, ha⟩

/-- A request without a prelude has succeeded as soon as it has committed
anything. -/
theorem Reached.succeeded_iff (h0 : db₀.Sound) (h : Reached app db₀ s) {r : ℕ} {t : Call} (ht : s.tasks[r]? = some t)
    (hpre : t.req.prepares = false) (hpl : ∀ reply, ¬ Plain t.req reply) :
    (∃ reply, t.answered = some (.ok reply)) ↔ ∃ w, (some r, w) ∈ s.log := by
  have hg := h.good h0
  constructor
  · rintro ⟨reply, ha⟩
    rcases hg.succeeded ht ha with ⟨hp, -⟩ | ⟨pre, ws, db, hdone, -, he, -⟩
    · exact absurd hp (hpl reply)
    · cases ws with
      | nil => exact absurd (List.append_nil _ ▸ .nil) (he.not_preparing [])
      | cons w ws => exact ⟨w, (hg.logged_done ht).mp (by rw [hdone]; simp)⟩
  · rintro ⟨w, hlog⟩
    have hw := (hg.logged_done ht).mpr hlog
    rcases effect_answered h0 h r t ht with hp | ha
    · have hc := h.committed h0 r t ht
      generalize t.done = done at hc hp hw
      cases hc with
      | preparing _ hd =>
        rcases hd with rfl | hd
        · cases hw
        · rw [hpre] at hd
          cases hd
      | effect _ he _ => exact absurd hp (he.not_preparing _)
    · exact ha

/-! ### A small library

Two publishers with a token each, and requests that are served one after the
other: what the runs on fixed inputs below start from. -/

namespace Sample

/-- The random bytes of a token. -/
def bytes (b : UInt8) : Vector UInt8 tokenBytes := .replicate tokenBytes b

def token (b : UInt8) : String := generateToken (bytes b)

/-- SHA-256 of the two tokens and of the operator's. -/
def sha256 : Digest := fun text =>
  if text = asBytes (token 0) then
    [109, 142, 50, 177, 254, 231, 161, 40, 177, 209, 148, 212, 151, 179, 176, 69,
      57, 24, 127, 6, 218, 198, 100, 152, 17, 98, 34, 59, 138, 46, 84, 16]
  else if text = asBytes (token 1) then
    [62, 223, 9, 138, 114, 145, 241, 86, 160, 146, 201, 172, 163, 209, 76, 29,
      76, 177, 155, 142, 104, 103, 48, 252, 216, 201, 166, 235, 205, 81, 162, 111]
  else if text = asBytes "operator" then
    [6, 229, 91, 99, 52, 129, 247, 187, 7, 41, 87, 234, 188, 241, 16, 201,
      114, 232, 102, 145, 195, 207, 237, 171, 224, 136, 2, 75, 255, 228, 47, 35]
  else []

/-- A replica that lets a publisher hold one workflow. -/
def replica : AppState := ⟨⟨some "operator", 262144, 30, 1⟩, none, sha256⟩

/-- A request with this token, or the operator's. -/
def headers (token : String) : HeaderMap := fun name =>
  if name = "authorization" then some (asBytes ("Bearer " ++ token)) else none

def publishers : Table PublisherRow :=
  ((∅ : Table PublisherRow).insert ⟨1, 1000, "ada", none, none, none⟩).insert ⟨2, 2000, "bob", none, none, none⟩

def tokens : Table TokenRow :=
  ((∅ : Table TokenRow).insert ⟨1, hashToken sha256 (token 0), "laptop", none, none⟩).insert
    ⟨2, hashToken sha256 (token 1), "laptop", none, none⟩

def library : Db := ⟨publishers, tokens, ∅, ∅, ∅⟩

theorem initial : library.Initial := ⟨rfl, rfl, rfl⟩

/-- The server at second `n`, whose next id is `n`. -/
def env (n : ℕ) : Env := ⟨n * 1000000, BitVec.ofNat 128 n, fun _ => 0, Char.toLower, fun _ _ => true⟩

/-- Request `r` makes its next `n` moves, from second `clock` on. -/
def moves (clock r n : ℕ) : List (Action registry Request) :=
  (List.range n).map fun i => .task r (.go (env (clock + i)))

/-- Request `r` arrives at second `clock` and is served in `n` moves. -/
def serve (clock r : ℕ) (req : Request) (n : ℕ) : List (Action registry Request) := .arrive req :: moves clock r n

/-- The service after `as`. -/
def after (as : List (Action registry Request)) : Option Registry := (Registry.start library).run (handle replica) as

/-- What the run leads to is reached. -/
theorem reached {as : List (Action registry Request)} {β : Type} {f : Registry → β} {v : β}
    (h : (after as).map f = some v) : ∃ s, Reached replica library s ∧ f s = v := by
  obtain ⟨s, hs, hv⟩ := Option.map_eq_some_iff.mp h
  exact ⟨s, ⟨as, hs⟩, hv⟩

def create (b : UInt8) (slug : String) : Request :=
  .create (headers (token b)) ⟨slug, "Title", "What it does", [], "steps: []", none⟩

def publish (b : UInt8) (slug yaml : String) : Request :=
  .publishVersion (headers (token b)) slug ⟨yaml, none⟩

end Sample

end HarnessRegistry

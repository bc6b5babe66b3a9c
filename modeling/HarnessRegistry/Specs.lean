/-
# The handlers meet their specifications

Each handler, run under any interference within `Db.Grows`, commits what
`Prelude` and `Effect` say and answers what `Post` says; `registryContract`
puts this together for every request. The proofs follow the handlers
statement by statement: what a lookup found is still there at the next
statement, because the tables only grow.

Key definitions: `Within`, `registryContract`.
Key theorems: `wp_fromRequestParts`, `create_spec`, `publishVersion_spec`,
`handler_spec`.
-/
import HarnessRegistry.Verdict

namespace HarnessRegistry

open Txn Handler

variable {app : AppState} {R : Rule registry} {done : List Write} {db : Db}

/-- The rule knows what the tables keep. -/
structure Within (R : Rule registry) : Prop where
  grows : ∀ {a b : Db}, R.rely a b → a.Grows b
  sound : ∀ {a : Db}, R.inv a → a.Sound
  trans : ∀ {a b c : Db}, R.rely a b → R.rely b c → R.rely a c

/-- What the contract lets a request do. -/
def ruleOf (app : AppState) (req : Request) : Rule registry := ⟨Db.Grows, Db.Sound, Guar app req⟩

theorem ruleOf_within (app : AppState) (req : Request) : Within (ruleOf app req) :=
  ⟨id, id, Db.Grows.trans⟩

/-- How a request may end. -/
def Answers (app : AppState) (req : Request) : Ends Reply := fun out _ done db => Post app req db out done

theorem Preparing.nil : Preparing [] := by simp [Preparing]

theorem Preparing.append {ws : List Write} (h : Preparing done) (h' : Preparing ws) : Preparing (done ++ ws) :=
  fun w hw => (List.mem_append.mp hw).elim (h w) (h' w)

/-! ### The extractors -/

theorem run_authLookup {env : Env} {hash login : String} {id : Uuid} {blockedAt : Option Timestamp}
    (h : Stmt.run env db (.authLookup hash) = .ok (some (id, login, blockedAt), [])) :
    (∃ t ∈ db.tokens, t.tokenHash = hash ∧ t.revokedAt = none ∧ t.publisherId = id) ∧
      ∃ p ∈ db.publishers, p.id = id ∧ p.blockedAt = blockedAt := by
  simp only [Stmt.run] at h
  cases ht : db.tokens.find? fun t => t.tokenHash == hash && t.revokedAt.isNone with
  | none => rw [ht] at h; cases h
  | some t =>
    cases hp : db.publishers.find? fun p => p.id == t.publisherId with
    | none => simp only [ht, hp, Option.bind_eq_bind, Option.bind_some, Option.bind_none] at h; cases h
    | some p =>
      simp only [ht, hp, Option.bind_eq_bind, Option.bind_some] at h
      cases h
      obtain ⟨ht, hth⟩ := Table.mem_of_find? ht
      obtain ⟨hp, hpt⟩ := Table.mem_of_find? hp
      simp only [Bool.and_eq_true, beq_iff_eq, Option.isNone_iff_eq_none] at hth hpt
      exact ⟨⟨t, ht, hth.1, hth.2, hpt.symm⟩, p, hp, rfl, rfl⟩

theorem wp_fromRequestParts {h : HeaderMap} {Q : Ends Publisher} (hR : Within R)
    (touch : ∀ db p token now, Holder app db h p → bearer h = some token →
      R.guar [] db [.touchToken (hashToken app.sha256 token) now])
    (fail : ∀ e done db, Preparing done → Q (.error e) none done db)
    (ok : ∀ p done db, Preparing done → Holder app db h p.id → Q (.ok p) none done db) :
    Wp R (Publisher.fromRequestParts app h) none [] db Q := by
  unfold Publisher.fromRequestParts
  cases hb : bearer h with
  | none => exact wp_throw.mpr (fail _ _ _ .nil)
  | some token =>
    refine wp_read rfl (fun db' e _ _ => fail _ _ _ .nil) fun db₁ env a hr _ ha => ?_
    rcases a with _ | ⟨id, login, blockedAt⟩
    · exact wp_throw.mpr (fail _ _ _ .nil)
    obtain ⟨⟨t, ht, hth, -, htp⟩, p, hp, hpid, -⟩ := run_authLookup ha
    have hh : Holder app db₁ h id := ⟨token, hb, ⟨t, ht, hth, htp⟩, p, hp, hpid⟩
    dsimp only
    split
    · simp only [wp_bind, wp_throw]
      exact fail _ _ _ .nil
    · rw [wp_bind]
      refine wp_attempt (fun db₂ hr _ => ?_) fun db₂ env a ws hr _ ha => ?_
      · exact wp_pure.mpr (ok _ _ _ .nil (hh.grows (hR.grows hr)))
      · have hh₂ := hh.grows (hR.grows hr)
        simp only [Stmt.run] at ha
        cases ha
        refine ⟨?_, wp_pure.mpr (ok _ _ _ ?_ (hh₂.grows (grows_applyAll _ _)))⟩
        all_goals
          rcases ifFound_cases (db₂.tokens.find? fun t => t.tokenHash == hashToken app.sha256 token)
            (.touchToken (hashToken app.sha256 token) env.now) with he | he
          all_goals rw [he]
        · exact .inl rfl
        · exact .inr (touch _ _ _ _ hh₂ hb)
        · exact .nil
        · simp [Preparing, Write.preparatory]

/-- A publisher's handler, after the extractor. -/
theorem asPublisher_spec {req : Request} {h : HeaderMap} {f : Publisher → Handler Reply}
    (hreq : req.publisher? = some h)
    (hf : ∀ p done db, Preparing done → Holder app db h p.id →
      Wp (ruleOf app req) (f p) none done db (Answers app req)) :
    Wp (ruleOf app req) (asPublisher app h f) none [] db (Answers app req) := by
  unfold asPublisher
  rw [wp_bind]
  exact wp_fromRequestParts (ruleOf_within app req)
    (fun db p token now hh hb => .prelude rfl (.touched hreq hh hb)) (fun e done db hp => .failed hp) hf

/-- An operator's handler, after the extractor. -/
theorem asAdmin_spec {req : Request} {h : HeaderMap} {f : Handler Reply}
    (hf : Admin.fromRequestParts app h = .ok () → Wp (ruleOf app req) f none [] db (Answers app req)) :
    Wp (ruleOf app req) (asAdmin app h f) none [] db (Answers app req) := by
  unfold asAdmin
  rw [wp_bind, wp_lift]
  cases ha : Admin.fromRequestParts app h with
  | error e => exact .failed .nil
  | ok u => exact hf ha

/-! ### `workflows.rs` -/

theorem wp_ownedWorkflowId {slug : String} {p : Publisher} {g : Uuid → Handler Reply} {Q : Ends Reply}
    (fail : ∀ e db, Q (.error e) none done db)
    (ok : ∀ db' w, R.rely db db' → R.inv db' → w ∈ db'.workflows → w.slug = slug → w.publisherId = p.id →
      Wp R (g w.id) none done db' Q) :
    Wp R (ownedWorkflowId slug p >>= g) none done db Q := by
  unfold ownedWorkflowId
  rw [wp_bind]
  refine wp_read rfl (fun db' e _ _ => fail _ _) fun db' env a hr hi ha => ?_
  simp only [Stmt.run] at ha
  cases hw : db'.workflows.find? fun w => w.slug == slug && w.publisherId == p.id with
  | none =>
    rw [hw] at ha
    cases ha
    exact wp_throw.mpr (fail _ _)
  | some w =>
    rw [hw] at ha
    cases ha
    obtain ⟨hw, he⟩ := Table.mem_of_find? hw
    simp only [Bool.and_eq_true, beq_iff_eq] at he
    exact wp_pure.mpr (ok _ w hr hi hw he.1 he.2)

theorem wp_workflowId {slug : String} {g : Uuid → Handler Reply} {Q : Ends Reply}
    (fail : ∀ e db, Q (.error e) none done db)
    (ok : ∀ db' w, R.rely db db' → R.inv db' → w ∈ db'.workflows → w.slug = slug →
      Wp R (g w.id) none done db' Q) :
    Wp R (workflowId slug >>= g) none done db Q := by
  unfold workflowId
  rw [wp_bind]
  refine wp_read rfl (fun db' e _ _ => fail _ _) fun db' env a hr hi ha => ?_
  simp only [Stmt.run] at ha
  cases hw : db'.workflows.find? fun w => w.slug == slug with
  | none =>
    rw [hw] at ha
    cases ha
    exact wp_throw.mpr (fail _ _)
  | some w =>
    rw [hw] at ha
    cases ha
    obtain ⟨hw, he⟩ := Table.mem_of_find? hw
    exact wp_pure.mpr (ok _ w hr hi hw (by simpa using he))

/-- After the cap was checked: when there is one, the publisher held fewer. -/
theorem wp_checkPublisherCap {p : Publisher} {g : Unit → Handler Reply} {Q : Ends Reply}
    (fail : ∀ e db, Q (.error e) none done db)
    (ok : ∀ db', db' = db ∨ R.rely db db' →
      (0 < app.config.maxWorkflowsPerPublisher → (db'.listed p.id : ℤ) < app.config.maxWorkflowsPerPublisher) →
      Wp R (g ()) none done db' Q) :
    Wp R (checkPublisherCap app p >>= g) none done db Q := by
  unfold checkPublisherCap
  dsimp only
  rw [wp_bind]
  split
  · exact wp_pure.mpr (ok _ (.inl rfl) (by omega))
  · refine wp_read rfl (fun db' e _ _ => fail _ _) fun db' env a hr hi ha => ?_
    simp only [Stmt.run] at ha
    cases ha
    split
    · exact wp_throw.mpr (fail _ _)
    · exact wp_pure.mpr (ok _ (.inr hr) (by omega))

/-- What `create` commits, and when: all that happened between the count and
the commit is within the rule. -/
theorem wp_create {p : Publisher} {h : HeaderMap} {body : CreateWorkflow} {Q : Ends Reply} (hR : Within R)
    (hh : Holder app db h p.id) (fail : ∀ e db, Q (.error e) none done db)
    (commit : ∀ counted db env, R.rely counted db → R.inv db →
      (0 < app.config.maxWorkflowsPerPublisher →
        (counted.listed p.id : ℤ) < app.config.maxWorkflowsPerPublisher) →
      ∀ ws, Effect app (.create h body) db ws (.published body.slug 1) →
      ws = [.insertWorkflow (.inserted env body.slug body.title body.description body.tags p.id),
          .insertVersion ⟨env.uuid, 1, body.yaml, body.changelog, env.now, none⟩] →
      R.guar done db ws ∧ Q (.ok (.published body.slug 1)) none (done ++ ws) (registry.applyAll ws db)) :
    Wp R (create app p body) none done db Q := by
  unfold create
  rw [wp_bind, wp_lift]
  cases hv : body.validate app.config.maxYamlBytes with
  | error e => exact fail _ _
  | ok u =>
    refine wp_checkPublisherCap fail fun counted hc hheld => ?_
    have hh₀ : Holder app counted h p.id := by
      rcases hc with rfl | hc
      · exact hh
      · exact hh.grows (hR.grows hc)
    rw [wp_bind]
    refine wp_begin (fun _ => fail _ _) fun env => ?_
    refine wp_runTx (fun _ _ _ _ => fail _ _) fun db₁ env₁ id ws₁ hr₁ _ ha => ?_
    simp only [Stmt.run] at ha
    split at ha <;> cases ha
    refine ⟨by simp [Write.frees], ?_⟩
    refine wp_runTx (fun _ _ _ _ => fail _ _) fun db₂ env₂ n ws₂ hr₂ _ ha => ?_
    simp only [Stmt.run] at ha
    split at ha <;> cases ha
    refine ⟨by simp [Write.frees], ?_⟩
    rw [wp_bind]
    refine wp_commit (fun _ => fail _ _) fun db₃ hr₃ hi _ => ?_
    have hr := hR.trans (hR.trans hr₁ hr₂) hr₃
    have := commit counted db₃ { env₁ with now := env.now } hr hi hheld _
      (.created (hh₀.grows (hR.grows hr)) hv) rfl
    exact ⟨.inr this.1, wp_pure.mpr this.2⟩

theorem create_spec {p : Publisher} {h : HeaderMap} {body : CreateWorkflow} (hd : Preparing done)
    (hh : Holder app db h p.id) :
    Wp (ruleOf app (.create h body)) (create app p body) none done db (Answers app (.create h body)) :=
  wp_create (ruleOf_within app _) hh (fun _ _ => .failed hd) fun _ _ _ _ _ _ _ he _ =>
    ⟨.effect hd he, .effect hd he (.refl _)⟩

/-- An update of a workflow that was there finds it. -/
theorem ifFound_workflow {db₀ : Db} {w : WorkflowRow} {x : Write} (hw : w ∈ db₀.workflows) (hg : db₀.Grows db) :
    ifFound (db.workflows.find? fun r => r.id == w.id) x = [x] := by
  obtain ⟨w', hw', he⟩ := hg.workflows w hw
  cases hf : db.workflows.find? fun r => r.id == w.id with
  | none => simpa [he.1] using Table.find?_eq_none.mp hf w' hw'
  | some _ => rfl

/-- The last number in use. -/
theorem max_numbered {w : Uuid} {m : ℤ} (hm : 0 ≤ m) (hn : db.Numbered w m) :
    ((db.versions.rows.filter fun v => v.workflowId == w).map (·.version)).max?.getD 0 = m := by
  by_cases h1 : 1 ≤ m
  · have hmax : ((db.versions.rows.filter fun v => v.workflowId == w).map (·.version)).max? = some m := by
      rw [List.max?_eq_some_iff]
      constructor
      · obtain ⟨v, hv, hw, hk⟩ := (hn m).mpr ⟨h1, le_refl m⟩
        exact List.mem_map.mpr ⟨v, List.mem_filter.mpr ⟨hv, by simpa using hw⟩, hk⟩
      · intro k hk
        obtain ⟨v, hv, rfl⟩ := List.mem_map.mp hk
        obtain ⟨hv, hw⟩ := List.mem_filter.mp hv
        exact ((hn v.version).mp ⟨v, hv, by simpa using hw, rfl⟩).2
    rw [hmax, Option.getD_some]
  · have hnone : db.versions.rows.filter (fun v => v.workflowId == w) = [] := by
      refine List.filter_eq_nil_iff.mpr fun v hv he => ?_
      obtain ⟨h, h'⟩ := (hn v.version).mp ⟨v, hv, by simpa using he, rfl⟩
      omega
    rw [hnone, List.map_nil, List.max?_nil, Option.getD_none]
    omega

/-- The number an insert derives is one more than what was published. -/
theorem run_nextVersion {env : Env} {w : Uuid} {n m : ℤ} (hm : 1 ≤ m) (hn : db.Numbered w m)
    (h : Stmt.run env db (.nextVersion w) = .ok (n, [])) : n = m + 1 := by
  simp only [Stmt.run, max_numbered (by omega) hn] at h
  split at h <;> cases h
  rfl

theorem publishVersion_spec {p : Publisher} {h : HeaderMap} {slug : String} {body : PublishVersion}
    (hd : Preparing done) (hh : Holder app db h p.id) :
    Wp (ruleOf app (.publishVersion h slug body)) (publishVersion app p slug body) none done db
      (Answers app (.publishVersion h slug body)) := by
  have fail : ∀ e db, Answers app (.publishVersion h slug body) (.error e) none done db := fun _ _ => .failed hd
  unfold publishVersion
  rw [wp_bind, wp_lift]
  cases hv : body.validate app.config.maxYamlBytes with
  | error e => exact fail _ _
  | ok u =>
    refine wp_ownedWorkflowId fail fun db₀ w hr₀ _ hw hslug hown => ?_
    rw [wp_bind]
    refine wp_begin (fun _ => fail _ _) fun env => ?_
    dsimp only
    refine wp_runTx (fun _ _ _ _ => fail _ _) fun db₁ env₁ (n : ℤ) ws₁ hr₁ hi₁ ha₁ => ?_
    obtain rfl : ws₁ = [] := run_reads rfl ha₁
    refine ⟨by simp, ?_⟩
    refine wp_runTx (fun _ _ _ _ => fail _ _) fun db₂ env₂ n' ws₂ hr₂ _ ha => ?_
    simp only [Stmt.run] at ha
    split at ha <;> cases ha
    refine ⟨by simp [Write.frees], ?_⟩
    refine wp_runTx (fun _ _ _ _ => fail _ _) fun db₃ env₃ u ws₃ hr₃ _ ha => ?_
    have hws : ws₃ = [.relist w.id env.now] := by
      simp only [Stmt.run] at ha
      cases ha
      exact ifFound_workflow hw (((hr₁.trans hr₂).trans hr₃).trans (grows_applyAll _ _))
    refine ⟨by simp [hws, Write.frees], ?_⟩
    rw [wp_bind]
    refine wp_commit (fun _ => fail _ _) fun db₄ hr₄ hi₄ hfresh => ?_
    have hr := ((hr₁.trans hr₂).trans hr₃).trans hr₄
    obtain ⟨w₄, hw₄, he₄⟩ := hr.workflows w hw
    -- the number derived is still the next one, or its key would be taken
    have hnum : db₄.Numbered w₄.id (n - 1) := by
      obtain ⟨w₁, hw₁, he₁⟩ := hr₁.workflows w hw
      obtain ⟨m₁, hm₁, hn₁⟩ := hi₁.numbered w₁ hw₁
      obtain ⟨m₄, hm₄, hn₄⟩ := hi₄.numbered w₄ hw₄
      rw [he₁.1] at hn₁
      rw [he₄.1] at hn₄ ⊢
      obtain rfl := run_nextVersion hm₁ hn₁ ha₁
      have hle : m₁ ≤ m₄ :=
        ((hn₄ m₁).mp (((hr₂.trans hr₃).trans hr₄).published ((hn₁ m₁).mpr ⟨hm₁, le_refl _⟩))).2
      have hfree : ¬ db₄.published w.id (m₁ + 1) := by
        rintro ⟨v, hv, hvw, hvn⟩
        exact hfresh.2 (.version w.id (m₁ + 1)) (by simp [Write.claims]) ⟨v, hv, hvw, hvn⟩
      have : m₁ + 1 - 1 = m₄ := by
        rw [hn₄] at hfree
        omega
      rwa [this]
    have he : Effect app (.publishVersion h slug body) db₄
        [.insertVersion ⟨w₄.id, n, body.yaml, body.changelog, env.now, none⟩, .relist w₄.id env.now]
        (.published slug n) :=
      .published hw₄ (he₄.2.1.trans hslug)
        (by rw [he₄.2.2, hown]; exact hh.grows (hr₀.trans hr)) hv hnum
    rw [he₄.1] at he
    rw [hws]
    exact ⟨.inr (.effect hd he), wp_pure.mpr (.effect hd he (.refl _))⟩

theorem update_spec {p : Publisher} {h : HeaderMap} {slug : String} {body : UpdateWorkflow}
    (hd : Preparing done) (hh : Holder app db h p.id) :
    Wp (ruleOf app (.update h slug body)) (update p slug body) none done db
      (Answers app (.update h slug body)) := by
  have fail : ∀ e db, Answers app (.update h slug body) (.error e) none done db := fun _ _ => .failed hd
  unfold update
  rw [wp_bind, wp_lift]
  cases hv : body.validate with
  | error e => exact fail _ _
  | ok u =>
    refine wp_ownedWorkflowId fail fun db₀ w hr₀ _ hw hslug hown => ?_
    refine wp_run (fun _ _ _ _ => fail _ _) fun db₁ env a ws hr₁ _ ha => ?_
    obtain ⟨w₁, hw₁, he₁⟩ := hr₁.workflows w hw
    have he : Effect app (.update h slug body) db₁
        [.amend w₁.id body.title body.description body.tags env.now] (.status "updated") :=
      .amended hw₁ (he₁.2.1.trans hslug) (by rw [he₁.2.2, hown]; exact hh.grows (hr₀.trans hr₁)) hv
    rw [he₁.1] at he
    have hws : ws = [.amend w.id body.title body.description body.tags env.now] := by
      simp only [Stmt.run] at ha
      cases ha
      exact ifFound_workflow hw hr₁
    rw [hws]
    exact ⟨.inr (.effect hd he), wp_pure.mpr (.effect hd he (.refl _))⟩

theorem unlist_spec {p : Publisher} {h : HeaderMap} {slug : String} (hd : Preparing done)
    (hh : Holder app db h p.id) :
    Wp (ruleOf app (.unlist h slug)) (unlist p slug) none done db (Answers app (.unlist h slug)) := by
  have fail : ∀ e db, Answers app (.unlist h slug) (.error e) none done db := fun _ _ => .failed hd
  unfold unlist
  refine wp_ownedWorkflowId fail fun db₀ w hr₀ _ hw hslug hown => ?_
  refine wp_run (fun _ _ _ _ => fail _ _) fun db₁ env a ws hr₁ _ ha => ?_
  obtain ⟨w₁, hw₁, he₁⟩ := hr₁.workflows w hw
  have he : Effect app (.unlist h slug) db₁ [.unlist w₁.id env.now] (.status "unlisted") :=
    .unlisted hw₁ (he₁.2.1.trans hslug) (by rw [he₁.2.2, hown]; exact hh.grows (hr₀.trans hr₁))
  rw [he₁.1] at he
  have hws : ws = [.unlist w.id env.now] := by
    simp only [Stmt.run] at ha
    cases ha
    exact ifFound_workflow hw hr₁
  rw [hws]
  exact ⟨.inr (.effect hd he), wp_pure.mpr (.effect hd he (.refl _))⟩

/-! The reads commit nothing, whatever they answer. -/

/-- A single statement that reads. -/
theorem wp_plain {q : Stmt} {g : q.Res → Handler Reply} {req : Request} (hq : q.reads = true)
    (hd : Preparing done)
    (hg : ∀ db a, Wp (ruleOf app req) (g a) none done db (Answers app req)) :
    Wp (ruleOf app req) (query q >>= g) none done db (Answers app req) :=
  wp_read hq (fun _ _ _ _ => .failed hd) fun db' _ a _ _ _ => hg db' a

theorem list_spec {params : ListParams} :
    Wp (ruleOf app (.list params)) (list params) none [] db (Answers app (.list params)) :=
  wp_plain rfl .nil fun _ _ => wp_pure.mpr (.plain .list .nil)

theorem detail_spec {slug : String} :
    Wp (ruleOf app (.detail slug)) (detail slug) none [] db (Answers app (.detail slug)) := by
  refine wp_plain rfl .nil fun db a => ?_
  rcases a with _ | row
  · exact wp_throw.mpr (.failed .nil)
  · exact wp_pure.mpr (.plain .detail .nil)

theorem versions_spec {slug : String} :
    Wp (ruleOf app (.versions slug)) (versions slug) none [] db (Answers app (.versions slug)) :=
  wp_workflowId (fun _ _ => .failed .nil) fun _ _ _ _ _ _ =>
    wp_plain rfl .nil fun _ _ => wp_pure.mpr (.plain .versions .nil)

theorem versionDocument_spec {slug : String} {n : ℤ} :
    Wp (ruleOf app (.versionDocument slug n)) (versionDocument slug n) none [] db
      (Answers app (.versionDocument slug n)) := by
  refine wp_workflowId (fun _ _ => .failed .nil) fun _ _ _ _ _ _ => wp_plain rfl .nil fun db a => ?_
  rcases a with _ | ⟨n', yaml, changelog, publishedAt, withdrawn⟩
  · exact wp_throw.mpr (.failed .nil)
  · exact wp_pure.mpr (.plain .versionDocument .nil)

/-! ### `me.rs` -/

theorem me_spec {p : Publisher} {h : HeaderMap} (hd : Preparing done) :
    Wp (ruleOf app (.me h)) (Me.get p) none done db (Answers app (.me h)) :=
  wp_plain rfl hd fun _ _ => wp_pure.mpr (.plain .me hd)

theorem updateMe_spec {p : Publisher} {h : HeaderMap} {body : UpdateMe} (hd : Preparing done)
    (hh : Holder app db h p.id) :
    Wp (ruleOf app (.updateMe h body)) (Me.update p body) none done db (Answers app (.updateMe h body)) := by
  have fail : ∀ e db, Answers app (.updateMe h body) (.error e) none done db := fun _ _ => .failed hd
  have rest : (∀ n ∈ body.displayName.map trim, n.toList.length ≤ 60) →
      Wp (ruleOf app (.updateMe h body)) (query (.setDisplayName p.id body.name) >>= fun me => pure (.me me))
        none done db (Answers app (.updateMe h body)) := by
    intro hlen
    refine wp_run (fun _ _ _ _ => fail _ _) fun db₁ env a ws hr₁ _ ha => ?_
    simp only [Stmt.run] at ha
    cases hf : db₁.publishers.find? fun r => r.id == p.id with
    | none => rw [hf] at ha; cases ha
    | some r =>
      rw [hf] at ha
      cases ha
      obtain ⟨hr, hid⟩ := Table.mem_of_find? hf
      have hid : r.id = p.id := by simpa using hid
      have he : Effect app (.updateMe h body) db₁ [.setDisplayName r.id body.name]
          (.me { r with displayName := body.name }.me) :=
        .renamed hr (by rw [hid]; exact hh.grows hr₁) hlen
      rw [hid] at he
      exact ⟨.inr (.effect hd he), wp_pure.mpr (.effect hd he (.refl _))⟩
  unfold Me.update
  cases hn : body.displayName.map trim with
  | none => exact rest (by simp [hn])
  | some n =>
    dsimp only
    split
    · simp only [wp_bind, wp_throw]
      exact fail _ _
    · exact rest (by simpa [hn] using by omega)

/-! ### `installs.rs` -/

theorem run_workflowId {env : Env} {slug : String} {id : Uuid}
    (h : Stmt.run env db (.workflowId slug) = .ok (some id, [])) :
    ∃ w ∈ db.workflows, w.slug = slug ∧ w.id = id := by
  simp only [Stmt.run] at h
  cases hw : db.workflows.find? fun w => w.slug == slug with
  | none => rw [hw] at h; cases h
  | some w =>
    rw [hw] at h
    cases h
    obtain ⟨hw, he⟩ := Table.mem_of_find? hw
    exact ⟨w, hw, by simpa using he, rfl⟩

theorem run_versionKnown {env : Env} {w : Uuid} {n k : ℤ}
    (h : Stmt.run env db (.versionKnown w n) = .ok (some k, [])) : db.published w n := by
  simp only [Stmt.run] at h
  cases hv : db.versions.find? fun v => v.workflowId == w && v.version == n with
  | none => rw [hv] at h; cases h
  | some v =>
    obtain ⟨hv, he⟩ := Table.mem_of_find? hv
    simp only [Bool.and_eq_true, beq_iff_eq] at he
    exact ⟨v, hv, he.1, he.2⟩

theorem record_spec {h : HeaderMap} {slug : String} {body : RecordInstall} :
    Wp (ruleOf app (.record h slug body)) (record h slug body) none [] db (Answers app (.record h slug body)) := by
  have fail : ∀ e db, Answers app (.record h slug body) (.error e) none [] db := fun _ _ => .failed .nil
  unfold record
  refine wp_limited (fail _ _) ?_
  refine wp_read rfl (fun _ _ _ _ => fail _ _) fun db₀ env₀ a hr₀ _ ha => ?_
  rcases a with _ | id
  · exact wp_throw.mpr (fail _ _)
  obtain ⟨w, hw, hslug, rfl⟩ := run_workflowId ha
  refine wp_read rfl (fun _ _ _ _ => fail _ _) fun db₁ env₁ a hr₁ _ ha => ?_
  rcases a with _ | k
  · exact wp_throw.mpr (fail _ _)
  have hk := run_versionKnown ha
  refine wp_run (fun _ _ _ _ => fail _ _) fun db₂ env a ws hr₂ _ ha => ?_
  obtain ⟨w₂, hw₂, he₂⟩ := (hr₁.trans hr₂).workflows w hw
  have hslug₂ := he₂.2.1.trans hslug
  have hk₂ : db₂.published w₂.id body.version := by rw [he₂.1]; exact hr₂.published hk
  have he : Effect app (.record h slug body) db₂ ws (.status "recorded") := by
    simp only [Stmt.run] at ha
    cases hi : db₂.installs.find? fun r => r.workflowId == w.id && r.installationId == body.installationId with
    | none =>
      rw [hi] at ha
      cases ha
      rw [← he₂.1]
      exact .recorded hw₂ hslug₂ hk₂
    | some i =>
      rw [hi] at ha
      cases ha
      obtain ⟨hi, hii⟩ := Table.mem_of_find? hi
      simp only [Bool.and_eq_true, beq_iff_eq] at hii
      rw [← he₂.1] at hii ⊢
      exact .refreshed hw₂ hslug₂ hk₂ hi hii.1 hii.2
  exact ⟨.inr (.effect .nil he), wp_pure.mpr (.effect .nil he (.refl _))⟩

theorem forget_spec {h : HeaderMap} {slug : String} {installationId : Uuid} :
    Wp (ruleOf app (.forget h slug installationId)) (forget h slug installationId) none [] db
      (Answers app (.forget h slug installationId)) := by
  have fail : ∀ e db, Answers app (.forget h slug installationId) (.error e) none [] db :=
    fun _ _ => .failed .nil
  unfold forget
  refine wp_limited (fail _ _) ?_
  refine wp_read rfl (fun _ _ _ _ => fail _ _) fun db₀ env₀ a hr₀ _ ha => ?_
  rcases a with _ | id
  · exact wp_throw.mpr (fail _ _)
  obtain ⟨w, hw, hslug, rfl⟩ := run_workflowId ha
  refine wp_run (fun _ _ _ _ => fail _ _) fun db₁ env a ws hr₁ _ ha => ?_
  obtain ⟨w₁, hw₁, he₁⟩ := hr₁.workflows w hw
  simp only [Stmt.run] at ha
  cases hi : db₁.installs.find? fun r => r.workflowId == w.id && r.installationId == installationId with
  | none =>
    rw [hi] at ha
    cases ha
    exact ⟨.inl rfl, by simp only [↓reduceIte, wp_bind, wp_throw]; exact fail _ _⟩
  | some i =>
    rw [hi] at ha
    cases ha
    obtain ⟨hi, hii⟩ := Table.mem_of_find? hi
    simp only [Bool.and_eq_true, beq_iff_eq] at hii
    rw [← he₁.1] at hii ⊢
    have he : Effect app (.forget h slug installationId) db₁ [.deleteInstall w₁.id installationId] .noContent :=
      .forgot hw₁ (he₁.2.1.trans hslug) hi hii.1 hii.2
    exact ⟨.inr (.effect .nil he), wp_pure.mpr (.effect .nil he (.refl _))⟩

/-! ### `enroll.rs` -/

theorem start_spec {h : HeaderMap} {site : Site} :
    Wp (ruleOf app (.start h site)) (start app h site) none [] db (Answers app (.start h site)) := by
  have fail : ∀ e db, Answers app (.start h site) (.error e) none [] db := fun _ _ => .failed .nil
  unfold start
  refine wp_limited (fail _ _) ?_
  rw [wp_bind, wp_lift]
  cases github app with
  | error e => exact fail _ _
  | ok g =>
    dsimp only
    rw [wp_bind, wp_lift]
    cases g.start site with
    | error e => exact fail _ _
    | ok flow => exact wp_pure.mpr (.plain .start .nil)

/-- How the upsert of an enrollment goes: the account has a row, or it gets one. -/
theorem enrollPublisher_cases {env : Env} {g : ℤ} {login : String} {name avatar : Option String} {p : Uuid}
    {blockedAt : Option Timestamp} {ws : List Write}
    (h : Stmt.run env db (.enrollPublisher g login name avatar) = .ok ((p, blockedAt), ws)) :
    (∃ r ∈ db.publishers, r.githubId = g ∧ p = r.id ∧ blockedAt = r.blockedAt ∧
        ws = [.enrollPublisher r.id login name avatar]) ∨
      (∀ q ∈ db.publishers, q.githubId ≠ g) ∧
        ¬ db.publishers.has (key (PublisherRow.inserted env g login name avatar)) ∧ p = env.uuid ∧
        blockedAt = none ∧ ws = [.insertPublisher (.inserted env g login name avatar)] := by
  simp only [Stmt.run] at h
  cases hp : db.publishers.find? fun p => p.githubId == g with
  | some r =>
    rw [hp] at h
    cases h
    obtain ⟨hr, hg⟩ := Table.mem_of_find? hp
    exact .inl ⟨r, hr, by simpa using hg, rfl, rfl, rfl⟩
  | none =>
    rw [hp] at h
    have hnone : ∀ q ∈ db.publishers, q.githubId ≠ g := by simpa using Table.find?_eq_none.mp hp
    dsimp only at h
    split at h
    · cases h
    · rename_i hnew
      cases h
      exact .inr ⟨hnone, hnew, rfl, rfl, rfl⟩

/-- The upsert of an enrollment: the row it returns. -/
theorem run_enrollPublisher {env : Env} {g : ℤ} {login : String} {name avatar : Option String} {p : Uuid}
    {b : Option Timestamp} {ws : List Write}
    (h : Stmt.run env db (.enrollPublisher g login name avatar) = .ok ((p, b), ws)) :
    ∃ w, ws = [w] ∧ Upserts (fun id => .enrollPublisher id login name avatar) g login name avatar db p w ∧
      ∃ r ∈ (w.apply db).publishers, r.id = p ∧ r.githubId = g := by
  rcases enrollPublisher_cases h with ⟨r, hr, hg, rfl, -, rfl⟩ | ⟨-, hnew, rfl, -, rfl⟩
  · obtain ⟨r', hr', he⟩ := ((Write.enrollPublisher r.id login name avatar).grows db).publishers r hr
    exact ⟨_, rfl, .update hr hg, r', hr', he.1, he.2.trans hg⟩
  · exact ⟨_, rfl, .insert env, _, (Table.mem_insert hnew).mpr (.inr rfl), rfl, rfl⟩

theorem run_issuePublisher {env : Env} {g : ℤ} {login : String} {name avatar : Option String} {p : Uuid}
    {ws : List Write} (h : Stmt.run env db (.issuePublisher g login name avatar) = .ok (p, ws)) :
    ∃ w, ws = [w] ∧ Upserts (fun id => .issuePublisher id login name avatar) g login name avatar db p w := by
  simp only [Stmt.run] at h
  cases hp : db.publishers.find? fun p => p.githubId == g with
  | some r =>
    rw [hp] at h
    cases h
    obtain ⟨hr, hg⟩ := Table.mem_of_find? hp
    exact ⟨_, rfl, .update hr (by simpa using hg)⟩
  | none =>
    rw [hp] at h
    simp only at h
    split at h <;> cases h
    exact ⟨_, rfl, .insert env⟩

theorem Upserts.preparatory {user : GitHubUser} {p : Uuid} {w : Write} (h : Upserts.enroll user db p w) :
    w.preparatory = true := by
  cases h <;> rfl

theorem mint_spec {h : HeaderMap} {body : PollRequest} {site : Site} {clock : DateTime}
    {bytes : Vector UInt8 tokenBytes} {user : GitHubUser} (hu : Enrolls app body site clock user) :
    Wp (ruleOf app (.poll h body site clock bytes)) (mint app user bytes) none [] db
      (Answers app (.poll h body site clock bytes)) := by
  have fail : ∀ {done} e db, Preparing done →
    Answers app (.poll h body site clock bytes) (.error e) none done db := fun _ _ h => .failed h
  refine wp_run (fun _ _ _ _ => fail _ _ .nil) fun db₁ env a ws hr₁ _ ha => ?_
  obtain ⟨p, b⟩ := a
  obtain ⟨w, rfl, hw, r, hr, hrp, hrg⟩ := run_enrollPublisher ha
  have hprep : Preparing [w] := by simpa [Preparing] using hw.preparatory
  refine ⟨.inr (.prelude rfl (.upserted hu hw)), ?_⟩
  split
  · exact wp_throw.mpr (fail _ _ hprep)
  · refine wp_run (fun _ _ _ _ => fail _ _ hprep) fun db₂ env a ws hr₂ _ ha => ?_
    simp only [Stmt.run] at ha
    split at ha <;> cases ha
    obtain ⟨r₂, hr₂', he₂⟩ := hr₂.publishers r hr
    have hrp₂ := he₂.1.trans hrp
    have he : Effect app (.poll h body site clock bytes) db₂ _ _ := .enrolled hu hr₂' (he₂.2.trans hrg)
    rw [hrp₂] at he
    exact ⟨.inr (.effect hprep he), wp_pure.mpr (.effect hprep he (.refl _))⟩

theorem poll_spec {h : HeaderMap} {body : PollRequest} {site : Site} {clock : DateTime}
    {bytes : Vector UInt8 tokenBytes} :
    Wp (ruleOf app (.poll h body site clock bytes)) (poll app h body site clock bytes) none [] db
      (Answers app (.poll h body site clock bytes)) := by
  have fail : ∀ e db, Answers app (.poll h body site clock bytes) (.error e) none [] db :=
    fun _ _ => .failed .nil
  rw [poll_eq, wp_bind]
  refine wp_check fun admitted => ?_
  dsimp only
  split
  · cases hv : verdict app body site clock with
    | crashes => exact wp_crash
    | refused e => exact wp_throw.mpr (fail _ _)
    | unfinished status => exact wp_pure.mpr (.plain .poll .nil)
    | enrolls user => exact mint_spec (verdict_enrolls.mp hv)
  · exact wp_throw.mpr (fail _ _)

/-! ### `admin.rs` -/

theorem issueToken_spec {h : HeaderMap} {body : IssueToken} {bytes : Vector UInt8 tokenBytes}
    (ha : Admin.fromRequestParts app h = .ok ()) :
    Wp (ruleOf app (.issueToken h body bytes)) (issueToken app body bytes) none [] db
      (Answers app (.issueToken h body bytes)) := by
  have fail : ∀ e db, Answers app (.issueToken h body bytes) (.error e) none [] db := fun _ _ => .failed .nil
  unfold issueToken
  generalize hblank : (trim body.name).isEmpty = blank
  cases blank with
  | true => exact fail _ _
  | false =>
    rw [if_neg Bool.false_ne_true, wp_bind]
    refine wp_begin (fun _ => fail _ _) fun env => ?_
    refine wp_runTx (fun _ _ _ _ => fail _ _) fun db₁ env₁ p ws₁ hr₁ _ ha₁ => ?_
    obtain ⟨w, rfl, hw⟩ := run_issuePublisher ha₁
    refine ⟨fun v hv => by rw [List.mem_singleton.mp hv]; cases hw <;> rfl, ?_⟩
    dsimp only
    refine wp_runTx (fun _ _ _ _ => fail _ _) fun db₂ env₂ u ws₂ hr₂ _ ha₂ => ?_
    simp only [Stmt.run] at ha₂
    split at ha₂ <;> cases ha₂
    refine ⟨by simp [Write.frees], ?_⟩
    rw [wp_bind]
    refine wp_commit (fun _ => fail _ _) fun db₃ hr₃ _ _ => ?_
    have hw₃ : Upserts.issue body db₃ p w := by
      cases hw with
      | insert env => exact .insert env
      | update hp hg =>
        obtain ⟨r, hr, he⟩ := (hr₂.trans hr₃).publishers _ hp
        rw [← he.1]
        exact .update hr (he.2.trans hg)
    have he : Effect app (.issueToken h body bytes) db₃ _ _ := .issued ha hblank hw₃
    exact ⟨.inr (.effect .nil he), wp_pure.mpr (.effect .nil he (.refl _))⟩

theorem setOfficial_spec {h : HeaderMap} {slug : String} {value : Bool}
    (ha : Admin.fromRequestParts app h = .ok ()) :
    Wp (ruleOf app (.setOfficial h slug value)) (setOfficial slug value) none [] db
      (Answers app (.setOfficial h slug value)) := by
  have fail : ∀ e db, Answers app (.setOfficial h slug value) (.error e) none [] db := fun _ _ => .failed .nil
  unfold setOfficial
  refine wp_run (fun _ _ _ _ => fail _ _) fun db₁ env a ws _ _ hrun => ?_
  simp only [Stmt.run] at hrun
  cases hf : db₁.workflows.find? fun w => w.slug == slug with
  | none =>
    rw [hf] at hrun
    cases hrun
    exact ⟨.inl rfl, by simp only [↓reduceIte, wp_bind, wp_throw]; exact fail _ _⟩
  | some w =>
    rw [hf] at hrun
    cases hrun
    obtain ⟨hw, hslug⟩ := Table.mem_of_find? hf
    have he : Effect app (.setOfficial h slug value) db₁ _ _ := .badged ha hw (by simpa using hslug)
    exact ⟨.inr (.effect .nil he), wp_pure.mpr (.effect .nil he (.refl _))⟩

theorem setBlocked_spec {h : HeaderMap} {githubId : ℤ} {value : Bool}
    (ha : Admin.fromRequestParts app h = .ok ()) :
    Wp (ruleOf app (.setBlocked h githubId value)) (setBlocked githubId value) none [] db
      (Answers app (.setBlocked h githubId value)) := by
  have fail : ∀ e db, Answers app (.setBlocked h githubId value) (.error e) none [] db :=
    fun _ _ => .failed .nil
  unfold setBlocked
  refine wp_run (fun _ _ _ _ => fail _ _) fun db₁ env a ws _ _ hrun => ?_
  simp only [Stmt.run] at hrun
  cases hf : db₁.publishers.find? fun p => p.githubId == githubId with
  | none =>
    rw [hf] at hrun
    cases hrun
    exact ⟨.inl rfl, by simp only [↓reduceIte, wp_bind, wp_throw]; exact fail _ _⟩
  | some p =>
    rw [hf] at hrun
    cases hrun
    obtain ⟨hp, hg⟩ := Table.mem_of_find? hf
    have he : Effect app (.setBlocked h githubId value) db₁
        [.setBlockedAt p.id (if value then some env.now else none)] _ :=
      .blocked ha hp (by simpa using hg)
    exact ⟨.inr (.effect .nil he), wp_pure.mpr (.effect .nil he (.refl _))⟩

/-! ### The service -/

-- a goal about a handler is not to be evaluated on the handler's text
attribute [local irreducible] Prog.Wp in
/-- Every request meets its specification. -/
theorem handler_spec (app : AppState) (req : Request) (db : Db) :
    Wp (ruleOf app req) (req.handler app) none [] db (Answers app req) := by
  cases req with
  | list => exact list_spec
  | detail => exact detail_spec
  | versions => exact versions_spec
  | versionDocument => exact versionDocument_spec
  | create => exact asPublisher_spec rfl fun _ _ _ hd hh => create_spec hd hh
  | publishVersion => exact asPublisher_spec rfl fun _ _ _ hd hh => publishVersion_spec hd hh
  | update => exact asPublisher_spec rfl fun _ _ _ hd hh => update_spec hd hh
  | unlist => exact asPublisher_spec rfl fun _ _ _ hd hh => unlist_spec hd hh
  | record => exact record_spec
  | forget => exact forget_spec
  | me => exact asPublisher_spec rfl fun _ _ _ hd _ => me_spec hd
  | updateMe => exact asPublisher_spec rfl fun _ _ _ hd hh => updateMe_spec hd hh
  | available => exact wp_pure.mpr (.plain .available .nil)
  | start => exact start_spec
  | poll => exact poll_spec
  | issueToken => exact asAdmin_spec issueToken_spec
  | setOfficial => exact asAdmin_spec setOfficial_spec
  | setBlocked => exact asAdmin_spec setBlocked_spec

/-- The contract of the service. -/
def registryContract (app : AppState) : Contract registry (handle app) where
  rely := Db.Grows
  inv := Db.Sound
  guar := Guar app
  post req out done db := Post app req db out done
  rely_refl := Db.Grows.refl
  rely_trans := Db.Grows.trans
  commit_ok := guar_ok
  outside_ok {w db} hw hi := by
    refine ⟨w.grows db, (Write.alike ?_ db).sound hi⟩
    cases w <;> first | rfl | cases hw
  outside_claims {w} hw := by cases w <;> first | rfl | cases hw
  post_stable hp hr _ := post_stable hp hr
  handles _ := handler_spec _ _ _

end HarnessRegistry

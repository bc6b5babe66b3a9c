/-
# What the requests commit

Every commit of the service is a *prelude* or an *effect*. The prelude is the
`last_used_at` of the token presented, or the publisher row that a completed
sign-in creates or refreshes; the effect is what the request is for. `Effect`
says, request by request, which writes these are at the database they are
committed to, and what the request then answers; `Prelude` the same of what
may come before. A request commits its effect at most once and nothing
afterwards (`Guar`), and an answer tells whether it did (`Post`).

Key definitions: `Holder`, `Enrolls`, `Upserts`, `Prelude`, `Effect`, `Guar`,
`Post`.
Key theorems: `Effect.sound`, `Prelude.sound`, `guar_ok`, `post_stable`.
-/
import HarnessRegistry.Invariant
import HarnessRegistry.Service

namespace HarnessRegistry

open Txn

variable {app : AppState} {db db' : Db}

/-! ### Who may do it -/

/-- The token the headers carry is a token of publisher `p`. -/
def Holder (app : AppState) (db : Db) (headers : HeaderMap) (p : Uuid) : Prop :=
  ∃ token, bearer headers = some token ∧
    (∃ t ∈ db.tokens, t.tokenHash = hashToken app.sha256 token ∧ t.publisherId = p) ∧
    ∃ r ∈ db.publishers, r.id = p

theorem Holder.grows {h : HeaderMap} {p : Uuid} (hh : Holder app db h p) (hg : db.Grows db') :
    Holder app db' h p := by
  obtain ⟨token, hb, ⟨t, ht, hth, htp⟩, r, hr, hrp⟩ := hh
  obtain ⟨t', ht', he⟩ := hg.tokens t ht
  obtain ⟨r', hr', he'⟩ := hg.publishers r hr
  exact ⟨token, hb, ⟨t', ht', he.1.trans hth, he.2.1.trans htp⟩, r', hr', he'.1.trans hrp⟩

/-- A token belongs to one publisher. -/
theorem Holder.unique {h : HeaderMap} {p p' : Uuid} (hh : Holder app db h p) (hh' : Holder app db h p') :
    p = p' := by
  obtain ⟨token, hb, ⟨t, ht, hth, htp⟩, -⟩ := hh
  obtain ⟨token', hb', ⟨t', ht', hth', htp'⟩, -⟩ := hh'
  have he : token = token' := Option.some.inj (hb.symm.trans hb')
  have : t = t' := TokenRow.eq_of_hash ht ht' (by rw [hth, hth', he])
  rw [← htp, ← htp', this]

/-- GitHub confirms the account and it is old enough. -/
def Enrolls (app : AppState) (body : PollRequest) (site : Site) (now : DateTime) (user : GitHubUser) : Prop :=
  ∃ github accessToken, app.github = some github ∧
    github.poll site body.deviceCode = .ok (.authorized accessToken) ∧
    GitHub.user site accessToken = .ok user ∧
    oldEnough user.createdAt now app.config.minAccountAgeDays = some true

/-- `INSERT INTO registry_publishers … ON CONFLICT (github_id) DO UPDATE`, and
the id it returns. -/
inductive Upserts (conflict : Uuid → Write) (githubId : ℤ) (login : String) (name avatar : Option String)
    (db : Db) : Uuid → Write → Prop
  | insert (env : Env) :
      Upserts conflict githubId login name avatar db env.uuid
        (.insertPublisher (.inserted env githubId login name avatar))
  | update {p : PublisherRow} : p ∈ db.publishers → p.githubId = githubId →
      Upserts conflict githubId login name avatar db p.id (conflict p.id)

/-- `enroll::upsert_publisher`. -/
abbrev Upserts.enroll (user : GitHubUser) : Db → Uuid → Write → Prop :=
  Upserts (fun id => .enrollPublisher id user.login user.displayName user.avatarUrl)
    user.id user.login user.displayName user.avatarUrl

/-- The upsert of `admin::issue_token`. -/
abbrev Upserts.issue (body : IssueToken) : Db → Uuid → Write → Prop :=
  Upserts (fun id => .issuePublisher id body.githubLogin body.displayName body.avatarUrl)
    body.githubId body.githubLogin body.displayName body.avatarUrl

/-! ### What is written -/

/-- A write of the kinds that preludes make. -/
def Write.preparatory : Write → Bool
  | .touchToken .. | .insertPublisher _ | .enrollPublisher .. => true
  | _ => false

/-- The request has committed no more than a prelude. -/
def Preparing (done : List Write) : Prop := ∀ w ∈ done, w.preparatory = true

/-- What a request may commit before its effect. -/
inductive Prelude (app : AppState) : Request → Db → List Write → Prop
  | touched {req : Request} {h : HeaderMap} {p : Uuid} {token : String} {db : Db} {now : Timestamp} :
      req.publisher? = some h → Holder app db h p → bearer h = some token →
      Prelude app req db [.touchToken (hashToken app.sha256 token) now]
  | upserted {h : HeaderMap} {body : PollRequest} {site : Site} {clock : DateTime}
      {bytes : Vector UInt8 tokenBytes} {user : GitHubUser} {db : Db} {p : Uuid} {w : Write} :
      Enrolls app body site clock user → Upserts.enroll user db p w →
      Prelude app (.poll h body site clock bytes) db [w]

/-- The writes a request is for, at the database they are committed to, and
the answer that follows. -/
inductive Effect (app : AppState) : Request → Db → List Write → Reply → Prop
  | created {h : HeaderMap} {body : CreateWorkflow} {db : Db} {p : Uuid} {env : Env} :
      Holder app db h p → body.validate app.config.maxYamlBytes = .ok () →
      Effect app (.create h body) db
        [.insertWorkflow (.inserted env body.slug body.title body.description body.tags p),
          .insertVersion ⟨env.uuid, 1, body.yaml, body.changelog, env.now, none⟩]
        (.published body.slug 1)
  | published {h : HeaderMap} {slug : String} {body : PublishVersion} {db : Db} {w : WorkflowRow} {n : ℤ}
      {now : Timestamp} :
      w ∈ db.workflows → w.slug = slug → Holder app db h w.publisherId →
      body.validate app.config.maxYamlBytes = .ok () → db.Numbered w.id (n - 1) →
      Effect app (.publishVersion h slug body) db
        [.insertVersion ⟨w.id, n, body.yaml, body.changelog, now, none⟩, .relist w.id now]
        (.published slug n)
  | amended {h : HeaderMap} {slug : String} {body : UpdateWorkflow} {db : Db} {w : WorkflowRow}
      {now : Timestamp} :
      w ∈ db.workflows → w.slug = slug → Holder app db h w.publisherId → body.validate = .ok () →
      Effect app (.update h slug body) db [.amend w.id body.title body.description body.tags now]
        (.status "updated")
  | unlisted {h : HeaderMap} {slug : String} {db : Db} {w : WorkflowRow} {now : Timestamp} :
      w ∈ db.workflows → w.slug = slug → Holder app db h w.publisherId →
      Effect app (.unlist h slug) db [.unlist w.id now] (.status "unlisted")
  | renamed {h : HeaderMap} {body : UpdateMe} {db : Db} {p : PublisherRow} :
      p ∈ db.publishers → Holder app db h p.id →
      (∀ n ∈ body.displayName.map trim, n.toList.length ≤ 60) →
      Effect app (.updateMe h body) db [.setDisplayName p.id body.name]
        (.me { p with displayName := body.name }.me)
  | recorded {h : HeaderMap} {slug : String} {body : RecordInstall} {db : Db} {w : WorkflowRow}
      {now : Timestamp} :
      w ∈ db.workflows → w.slug = slug → db.published w.id body.version →
      Effect app (.record h slug body) db
        [.insertInstall ⟨w.id, body.installationId, body.version, now⟩] (.status "recorded")
  | refreshed {h : HeaderMap} {slug : String} {body : RecordInstall} {db : Db} {w : WorkflowRow}
      {i : InstallRow} {now : Timestamp} :
      w ∈ db.workflows → w.slug = slug → db.published w.id body.version →
      i ∈ db.installs → i.workflowId = w.id → i.installationId = body.installationId →
      Effect app (.record h slug body) db
        [.refreshInstall w.id body.installationId body.version now] (.status "recorded")
  | forgot {h : HeaderMap} {slug : String} {installationId : Uuid} {db : Db} {w : WorkflowRow}
      {i : InstallRow} :
      w ∈ db.workflows → w.slug = slug →
      i ∈ db.installs → i.workflowId = w.id → i.installationId = installationId →
      Effect app (.forget h slug installationId) db [.deleteInstall w.id installationId] .noContent
  | enrolled {h : HeaderMap} {body : PollRequest} {site : Site} {clock : DateTime}
      {bytes : Vector UInt8 tokenBytes} {user : GitHubUser} {db : Db} {p : PublisherRow} :
      Enrolls app body site clock user → p ∈ db.publishers → p.githubId = user.id →
      Effect app (.poll h body site clock bytes) db
        [.insertToken ⟨p.id, hashToken app.sha256 (generateToken bytes), tokenName, none, none⟩]
        (.enrolled (generateToken bytes) p.id user.login)
  | issued {h : HeaderMap} {body : IssueToken} {bytes : Vector UInt8 tokenBytes} {db : Db} {p : Uuid}
      {w : Write} :
      Admin.fromRequestParts app h = .ok () → (trim body.name).isEmpty = false → Upserts.issue body db p w →
      Effect app (.issueToken h body bytes) db
        [w, .insertToken ⟨p, hashToken app.sha256 (generateToken bytes), body.name, none, none⟩]
        (.issued ⟨p, body.githubLogin, body.name, generateToken bytes⟩)
  | badged {h : HeaderMap} {slug : String} {value : Bool} {db : Db} {w : WorkflowRow} :
      Admin.fromRequestParts app h = .ok () → w ∈ db.workflows → w.slug = slug →
      Effect app (.setOfficial h slug value) db [.setOfficial w.id value] (.official slug value)
  | blocked {h : HeaderMap} {githubId : ℤ} {value : Bool} {db : Db} {p : PublisherRow} {now : Timestamp} :
      Admin.fromRequestParts app h = .ok () → p ∈ db.publishers → p.githubId = githubId →
      Effect app (.setBlocked h githubId value) db
        [.setBlockedAt p.id (if value then some now else none)] (.blocked githubId value)

/-- What a request that has committed `done` may commit next. -/
inductive Guar (app : AppState) (req : Request) (done : List Write) (db : Db) (ws : List Write) : Prop
  | prelude : done = [] → Prelude app req db ws → Guar app req done db ws
  | effect {reply : Reply} : Preparing done → Effect app req db ws reply → Guar app req done db ws

/-- The answers of requests that are for no write. -/
inductive Plain : Request → Reply → Prop
  | list {params rows} : Plain (.list params) (.summaries rows)
  | detail {slug row} : Plain (.detail slug) (.summary row)
  | versions {slug rows} : Plain (.versions slug) (.versions rows)
  | versionDocument {slug version doc} : Plain (.versionDocument slug version) (.document doc)
  | me {h m} : Plain (.me h) (.me m)
  | available {b} : Plain .available (.enrollment b)
  | start {h site flow} : Plain (.start h site) (.flow flow)
  | poll {h body site clock bytes} {status : String} : Plain (.poll h body site clock bytes) (.status status)

/-- What an answer says about the writes committed: an error that there was
no effect, any other answer that there was the one it belongs to. -/
inductive Post (app : AppState) (req : Request) (db : Db) : Except Error Reply → List Write → Prop
  | failed {e : Error} {done : List Write} : Preparing done → Post app req db (.error e) done
  | plain {reply : Reply} {done : List Write} : Plain req reply → Preparing done → Post app req db (.ok reply) done
  | effect {reply : Reply} {pre ws : List Write} {db₀ : Db} : Preparing pre → Effect app req db₀ ws reply →
      (registry.applyAll ws db₀).Grows db → Post app req db (.ok reply) (pre ++ ws)

/-! ### Effects keep the tables well formed -/

theorem published_insertVersion {v : VersionRow} (hf : registry.Fresh [.insertVersion v] db) {w : Uuid} {k : ℤ} :
    ((Write.insertVersion v).apply db).published w k ↔
      db.published w k ∨ (v.workflowId = w ∧ v.version = k) := by
  constructor
  · rintro ⟨x, hx, hw, hk⟩
    rcases (Table.mem_insert (not_has_version hf)).mp hx with hx | rfl
    · exact .inl ⟨x, hx, hw, hk⟩
    · exact .inr ⟨hw, hk⟩
  · rintro (h | ⟨hw, hk⟩)
    · exact ((Write.insertVersion v).grows db).published h
    · exact ⟨v, (Table.mem_insert (not_has_version hf)).mpr (.inr rfl), hw, hk⟩

theorem sound_of_steady : ∀ (ws : List Write) {db : Db}, (∀ w ∈ ws, w.steady = true) → db.Sound →
    (registry.applyAll ws db).Sound
  | [], _, _, h => h
  | _ :: ws, db, hs, h => sound_of_steady ws (fun v hv => hs v (List.mem_cons_of_mem _ hv))
      ((Write.alike (hs _ List.mem_cons_self) db).sound h)

/-- A workflow and its first version go in together. -/
theorem sound_created {row : WorkflowRow} {v : VersionRow} (h : db.Sound)
    (hf : registry.Fresh [.insertWorkflow row, .insertVersion v] db)
    (hp : ∃ p ∈ db.publishers, p.id = row.publisherId) (hv : v.workflowId = row.id) (h1 : v.version = 1) :
    (registry.applyAll [.insertWorkflow row, .insertVersion v] db).Sound := by
  obtain ⟨hfw, hfv⟩ := fresh_cons hf
  have hnew : ∀ w ∈ db.workflows, w.id ≠ row.id := fun w hw he =>
    hfw.2 (.workflow row.id) (by simp [Write.claims]) ⟨w, hw, he⟩
  have hmem : ∀ w, w ∈ db.workflows.insert row ↔ w ∈ db.workflows ∨ w = row := fun w =>
    Table.mem_insert (not_has_workflow hfw)
  have hpub : ∀ w k, (registry.applyAll [.insertWorkflow row, .insertVersion v] db).published w k ↔
      db.published w k ∨ (row.id = w ∧ 1 = k) := by
    intro w k
    have := published_insertVersion hfv (w := w) (k := k)
    rwa [hv, h1] at this
  -- nothing was published under the new id
  have hnone : ∀ k, ¬ db.published row.id k := by
    rintro k ⟨x, hx, hxw, -⟩
    obtain ⟨w, hw, he⟩ := h.known x hx
    exact hnew w hw (he.trans hxw)
  refine ⟨fun w hw => ?_, fun w hw => ?_, fun x hx => ?_, fun i hi => (hpub _ _).mpr (.inl (h.installed i hi))⟩
  · rcases (hmem w).mp hw with hw | rfl
    · exact h.owned w hw
    · exact hp
  · rcases (hmem w).mp hw with hw | rfl
    · obtain ⟨n, hn, hnum⟩ := h.numbered w hw
      refine ⟨n, hn, fun k => ?_⟩
      have : ¬ (row.id = w.id ∧ 1 = k) := fun he => hnew w hw he.1.symm
      rw [hpub, hnum]
      tauto
    · refine ⟨1, by omega, fun k => ?_⟩
      have := hnone k
      rw [hpub]
      constructor
      · rintro (hk | ⟨-, hk⟩)
        · exact absurd hk this
        · omega
      · exact fun hk => .inr ⟨rfl, by omega⟩
  · rcases (Table.mem_insert (not_has_version hfv)).mp hx with hx | rfl
    · obtain ⟨w, hw, he⟩ := h.known x hx
      exact ⟨w, (hmem w).mpr (.inl hw), he⟩
    · exact ⟨row, (hmem row).mpr (.inr rfl), hv.symm⟩

/-- The next version goes in. -/
theorem sound_published {w : WorkflowRow} {v : VersionRow} (h : db.Sound) (hw : w ∈ db.workflows)
    (hf : registry.Fresh [.insertVersion v] db) (hv : v.workflowId = w.id)
    (hn : db.Numbered w.id (v.version - 1)) : ((Write.insertVersion v).apply db).Sound := by
  refine ⟨h.owned, fun x hx => ?_, fun x hx => ?_,
    fun i hi => (published_insertVersion hf).mpr (.inl (h.installed i hi))⟩
  · by_cases hxw : x.id = w.id
    · obtain ⟨m, hm, hnum⟩ := h.numbered w hw
      -- two ways to count the same versions
      have hlast : v.version - 1 = m := by
        have h1 := (hn m).mp ((hnum m).mpr ⟨hm, le_refl m⟩)
        have h2 := (hnum (v.version - 1)).mp ((hn _).mpr ⟨by omega, le_refl _⟩)
        omega
      refine ⟨v.version, by omega, fun k => ?_⟩
      rw [published_insertVersion hf, hxw, hn k, hv]
      simp only [true_and]
      omega
    · obtain ⟨m, hm, hnum⟩ := h.numbered x hx
      refine ⟨m, hm, fun k => ?_⟩
      have : ¬ (v.workflowId = x.id ∧ v.version = k) := fun he => hxw (he.1.symm.trans hv)
      rw [published_insertVersion hf, hnum]
      tauto
  · rcases (Table.mem_insert (not_has_version hf)).mp hx with hx | rfl
    · exact h.known x hx
    · exact ⟨w, hw, hv.symm⟩

/-- An install of a version that exists goes in, or moves to one. -/
theorem sound_installed {ws : List Write} {i : InstallRow} (h : db.Sound) (hk : db.published i.workflowId i.version)
    (hw : ws = [.insertInstall i] ∨ ws = [.refreshInstall i.workflowId i.installationId i.version i.lastSeenAt]) :
    (registry.applyAll ws db).Sound := by
  rcases hw with rfl | rfl
  · refine ⟨h.owned, h.numbered, h.known, fun x hx => ?_⟩
    rcases Table.exists_of_insert (q := fun y => y = x) ⟨x, hx, rfl⟩ with ⟨y, hy, rfl⟩ | rfl
    · exact h.installed y hy
    · exact hk
  · refine ⟨h.owned, h.numbered, h.known, fun x hx => ?_⟩
    obtain ⟨y, hy, rfl⟩ := List.mem_map.mp hx
    split
    · rename_i he
      rw [← he.1] at hk
      exact hk
    · exact h.installed y hy

theorem Upserts.steady {conflict : Uuid → Write} {g : ℤ} {login : String} {name avatar : Option String} {p : Uuid}
    {w : Write} (hu : Upserts conflict g login name avatar db p w) (hc : ∀ id, (conflict id).steady = true) :
    w.steady = true := by
  cases hu with
  | insert env => rfl
  | update _ _ => exact hc _

theorem Prelude.sound {req : Request} {ws : List Write} (hp : Prelude app req db ws) (h : db.Sound) :
    (registry.applyAll ws db).Sound := by
  refine sound_of_steady ws (fun w hw => ?_) h
  cases hp with
  | touched => rw [List.mem_singleton.mp hw]; rfl
  | upserted _ hu => rw [List.mem_singleton.mp hw]; exact hu.steady fun _ => rfl

theorem Effect.sound {req : Request} {ws : List Write} {reply : Reply} (he : Effect app req db ws reply)
    (hf : registry.Fresh ws db) (h : db.Sound) : (registry.applyAll ws db).Sound := by
  cases he with
  | created hh _ =>
    obtain ⟨_, _, _, hp⟩ := hh
    exact sound_created h hf hp rfl rfl
  | @published _ _ _ _ w _ now hw _ _ _ hn =>
    have hs := sound_published h hw (fresh_cons hf).1 rfl hn
    exact sound_of_steady [.relist w.id now] (by simp [Write.steady]) hs
  | recorded hw _ hk => exact sound_installed h hk (.inl rfl)
  | @refreshed _ _ body _ w i now hw _ hk _ _ _ =>
    exact sound_installed (i := ⟨w.id, body.installationId, body.version, now⟩) h hk (.inr rfl)
  | issued _ _ hu =>
    refine sound_of_steady _ (fun w hw => ?_) h
    simp only [List.mem_cons, List.not_mem_nil, or_false] at hw
    rcases hw with rfl | rfl
    · exact hu.steady fun _ => rfl
    · rfl
  | amended | unlisted | renamed | forgot | enrolled | badged | blocked =>
    exact sound_of_steady _ (by simp [Write.steady]) h

/-- What may be committed keeps the tables well formed. -/
theorem guar_ok {req : Request} {done ws : List Write} (hi : db.Sound) (hf : registry.Fresh ws db)
    (hg : Guar app req done db ws) :
    db.Grows (registry.applyAll ws db) ∧ (registry.applyAll ws db).Sound := by
  refine ⟨grows_applyAll ws db, ?_⟩
  cases hg with
  | «prelude» _ hp => exact hp.sound hi
  | effect _ he => exact he.sound hf hi

/-- Answers stay true. -/
theorem post_stable {req : Request} {out : Except Error Reply} {done : List Write}
    (hp : Post app req db out done) (hg : db.Grows db') : Post app req db' out done := by
  cases hp with
  | failed h => exact .failed h
  | plain h h' => exact .plain h h'
  | effect h he hg' => exact .effect h he (hg'.trans hg)

end HarnessRegistry

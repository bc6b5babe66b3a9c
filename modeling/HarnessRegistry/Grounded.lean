/-
# Every answer has its grounds

The handlers, followed move by move over the moments they meet. What a lookup
has found at one moment is still there at the next, so an answer that rests on
several lookups can be told from the last of them.

Key definitions: `Sample.lostRace`.
Key theorems: `asPublisher_grounds`, `create_grounds`, `publishVersion_grounds`,
`handler_grounds`, `answers_grounded`.
-/
import HarnessRegistry.Grounds

namespace HarnessRegistry

open Txn Handler

variable {app : AppState} {req : Request} {all ms : Moments} {done : List Write} {db db' db₀ : Db} {env : Env}
  {out : Except Error Reply} {s s' : Registry}

/-! ### The extractors -/

theorem run_authLookup_none {hash : String} (h : Stmt.run env db (.authLookup hash) = .ok (none, [])) (p : PublisherRow) :
    ¬ db.Live hash p := by
  rintro ⟨hp, t, ht, hh, hrev, hid⟩
  simp only [Stmt.run] at h
  have hfind : db.tokens.find? (fun t => t.tokenHash == hash && t.revokedAt.isNone) = some t := by
    refine (Table.find?_eq_some fun x y hx hy => ?_).mpr ⟨ht, by simp [hh, hrev]⟩
    simp only [Bool.and_eq_true, beq_iff_eq] at hx hy
    exact (clash_token _ _).mpr (hx.1.trans hy.1.symm)
  have hpub : db.publishers.find? (fun p => p.id == t.publisherId) = some p :=
    PublisherRow.find_iff.mpr ⟨hp, hid.symm⟩
  simp only [hfind, hpub, Option.bind_eq_bind, Option.bind_some] at h
  cases h

theorem run_authLookup_live {hash login : String} {id : Uuid} {blockedAt : Option Timestamp}
    (h : Stmt.run env db (.authLookup hash) = .ok (some (id, login, blockedAt), [])) :
    ∃ p, db.Live hash p ∧ p.blockedAt = blockedAt ∧ p.id = id := by
  obtain ⟨⟨t, ht, hh, hrev, hid⟩, p, hp, hpid, hb⟩ := run_authLookup h
  exact ⟨p, ⟨hp, t, ht, hh, hrev, hid.trans hpid.symm⟩, hb, hpid⟩

/-- A publisher's request is let in, or its answer is grounded. -/
theorem asPublisher_grounds {h : HeaderMap} {f : Publisher → Handler Reply} (hreq : req.publisher? = some h)
    (hlim : req.limited? = none) (hadm : req.admin? = none)
    (ho : Over (ruleOf app req) (asPublisher app h f) none [] db all out)
    (hf : ∀ p done db ms, Admission app all req → Holder app db h p.id → ms <:+ all →
      Over (ruleOf app req) (f p) none done db ms out → Grounds app all req out) : Grounds app all req out := by
  unfold asPublisher Publisher.fromRequestParts at ho
  cases hb : bearer h with
  | none =>
    rw [hb] at ho
    obtain ⟨-, rfl⟩ := over_throw (β := Reply) ho
    exact .anonymous hreq hb
  | some token =>
    rw [hb] at ho
    dsimp only at ho
    rw [query, bind_assoc] at ho
    rcases over_read rfl (List.suffix_refl _) ho with ⟨e, rfl, hfail⟩ | ⟨env₁, db₁, a, rest, hm, hrun, ho⟩
    · exact .fault hfail
    rcases a with _ | ⟨id, login, blockedAt⟩
    · obtain ⟨rfl, rfl⟩ := over_throw (β := Reply) ho
      exact .unknownToken hreq hb (hm.atLast (run_authLookup_none hrun))
    · obtain ⟨p, hlive, hblk, hid⟩ := run_authLookup_live hrun
      cases blockedAt with
      | some at_ =>
        obtain ⟨rfl, rfl⟩ := over_throw (β := Reply) ho
        exact .blocked hreq hb (hm.atLast ⟨p, hlive, by rw [hblk]; simp⟩)
      | none =>
        dsimp only at ho
        rw [Option.isSome_none, if_neg Bool.false_ne_true, bind_assoc] at ho
        obtain ⟨done₂, db₂, ws, rest₂, hr, hs, ho⟩ := over_attempt hm.suffix ho
        have hh : Holder app db₁ h id := by
          obtain ⟨hp, t, ht, hth, -, htp⟩ := hlive
          exact ⟨token, hb, ⟨t, ht, hth, htp.trans hid⟩, p, hp, hid⟩
        refine hf ⟨id, login⟩ done₂ _ rest₂ ⟨fun l h' hl => ?_, fun h' hp => ?_, fun h' ha => ?_⟩
          (hh.grows (hr.trans (grows_applyAll ws db₂))) hs ho
        · rw [hlim] at hl
          cases hl
        · rw [hreq] at hp
          cases hp
          exact ⟨token, hb, hm.once ⟨p, hlive, hblk⟩⟩
        · rw [hadm] at ha
          cases ha

/-- An operator's request. -/
theorem asAdmin_grounds {h : HeaderMap} {f : Handler Reply} (hreq : req.admin? = some h) (hlim : req.limited? = none)
    (hpub : req.publisher? = none) (ho : Over (ruleOf app req) (asAdmin app h f) none [] db all out)
    (hf : Admission app all req → Over (ruleOf app req) f none [] db all out → Grounds app all req out) :
    Grounds app all req out := by
  unfold asAdmin at ho
  cases ha : Admin.fromRequestParts app h with
  | error e =>
    rw [ha, lift_error_bind] at ho
    obtain ⟨-, rfl⟩ := over_throw ho
    exact .notOperator hreq ha
  | ok u =>
    rw [ha, lift_ok_bind] at ho
    refine hf ⟨fun l h' hl => ?_, fun h' hp => ?_, fun h' ho => ?_⟩ ho
    · rw [hlim] at hl
      cases hl
    · rw [hpub] at hp
      cases hp
    · rw [hreq] at ho
      cases ho
      exact ha

/-- A request that a limiter guards. -/
theorem limited_grounds {h : HeaderMap} {l : Limiter} {g : Bool → Handler Reply} (hreq : req.limited? = some (l, h))
    (hpub : req.publisher? = none) (hadm : req.admin? = none) (hno : g false = throw .tooManyRequests)
    (ho : Over (ruleOf app req) (check l (clientKey h none) >>= g) none [] db all out)
    (hg : ∀ db ms, Admission app all req → ms <:+ all → Over (ruleOf app req) (g true) none [] db ms out →
      Grounds app all req out) : Grounds app all req out := by
  obtain ⟨env₁, db₁, rest, hm, ho⟩ := over_check (List.suffix_refl _) ho
  by_cases hadmits : env₁.admits l (clientKey h none) = true
  · rw [hadmits] at ho
    refine hg db₁ rest ⟨fun l' h' hl => ?_, fun h' hp => ?_, fun h' ha => ?_⟩ hm.suffix ho
    · rw [hreq] at hl
      cases hl
      exact hm.once hadmits
    · rw [hpub] at hp
      cases hp
    · rw [hadm] at ha
      cases ha
  · have hrefused : env₁.admits l (clientKey h none) = false := by simpa using hadmits
    rw [hrefused, hno] at ho
    obtain ⟨rfl, rfl⟩ := over_throw ho
    exact .throttled hreq (hm.atLast hrefused)

/-! ### Lookups and effects -/

theorem workflow_found {slug : String} {a : Option Uuid} (h : Stmt.run env db (.workflowId slug) = .ok (a, [])) :
    (a = none ∧ ∀ w ∈ db.workflows, w.slug ≠ slug) ∨ ∃ w ∈ db.workflows, w.slug = slug ∧ a = some w.id := by
  cases a with
  | none =>
    simp only [Stmt.run] at h
    cases hf : db.workflows.find? fun w => w.slug == slug with
    | none => exact .inl ⟨rfl, by simpa using Table.find?_eq_none.mp hf⟩
    | some w => rw [hf] at h; cases h
  | some id =>
    obtain ⟨w, hw, hslug, rfl⟩ := run_workflowId h
    exact .inr ⟨w, hw, hslug, rfl⟩

theorem owned_found {slug : String} {p : Uuid} {a : Option Uuid} (h : Stmt.run env db (.ownedWorkflowId slug p) = .ok (a, [])) :
    (a = none ∧ ∀ w ∈ db.workflows, w.slug = slug → w.publisherId ≠ p) ∨
      ∃ w ∈ db.workflows, w.slug = slug ∧ w.publisherId = p ∧ a = some w.id := by
  simp only [Stmt.run] at h
  cases hf : db.workflows.find? fun w => w.slug == slug && w.publisherId == p with
  | none =>
    rw [hf] at h
    cases h
    exact .inl ⟨rfl, by simpa using Table.find?_eq_none.mp hf⟩
  | some w =>
    rw [hf] at h
    cases h
    obtain ⟨hw, he⟩ := Table.mem_of_find? hf
    simp only [Bool.and_eq_true, beq_iff_eq] at he
    exact .inr ⟨w, hw, he.1, he.2, rfl⟩

/-- Writes that are no prelude are the effect. -/
theorem effect_of_guar {ws : List Write} (hg : ws = [] ∨ (ruleOf app req).guar done db ws) {w : Write} (hw : w ∈ ws)
    (hp : w.preparatory = false) : ∃ reply, Effect app req db ws reply := by
  rcases hg with rfl | hg
  · cases hw
  cases hg with
  | «prelude» _ hpre =>
    rw [hpre.preparing w hw] at hp
    cases hp
  | effect _ he => exact ⟨_, he⟩

/-- A lookup of a slug that comes before what the handler does. -/
theorem lookup_grounds {slug : String} {g : Uuid → Handler Reply} (hadm : Admission app all req) (hreq : req.looksUp? = some slug)
    (hs : ms <:+ all) (ho : Over (ruleOf app req) (workflowId slug >>= g) none done db ms out)
    (hg : ∀ db' env w rest, Met (ruleOf app req) all db env db' none [] rest → w ∈ db'.workflows → w.slug = slug →
      Over (ruleOf app req) (g w.id) none done db' rest out → Grounds app all req out) : Grounds app all req out := by
  unfold workflowId at ho
  rw [query, bind_assoc] at ho
  rcases over_read rfl hs ho with ⟨e, rfl, hfail⟩ | ⟨env₁, db₁, a, rest, hm, ha, ho⟩
  · exact .fault hfail
  rcases workflow_found ha with ⟨rfl, hno⟩ | ⟨w, hw, hslug, rfl⟩
  · obtain ⟨rfl, rfl⟩ := over_throw (β := Reply) ho
    exact .merits hadm (.unknownWorkflow hreq (hm.atLast hno))
  · exact hg db₁ env₁ w rest hm hw hslug ho

/-- The same of the caller's own. -/
theorem owned_grounds {h : HeaderMap} {slug : String} {p : Publisher} {g : Uuid → Handler Reply} (hadm : Admission app all req)
    (hreq : req.changes = some (h, slug)) (hp : Holder app db h p.id) (hs : ms <:+ all)
    (ho : Over (ruleOf app req) (ownedWorkflowId slug p >>= g) none done db ms out)
    (hg : ∀ db' env w rest, Met (ruleOf app req) all db env db' none [] rest → w ∈ db'.workflows → w.slug = slug →
      Over (ruleOf app req) (g w.id) none done db' rest out → Grounds app all req out) : Grounds app all req out := by
  unfold ownedWorkflowId at ho
  rw [query, bind_assoc] at ho
  rcases over_read rfl hs ho with ⟨e, rfl, hfail⟩ | ⟨env₁, db₁, a, rest, hm, ha, ho⟩
  · exact .fault hfail
  rcases owned_found ha with ⟨rfl, hno⟩ | ⟨w, hw, hslug, -, rfl⟩
  · obtain ⟨rfl, rfl⟩ := over_throw (β := Reply) ho
    exact .merits hadm (.notTheirs hreq (hm.atLast ⟨hp.grows hm.rely, hno⟩))
  · exact hg db₁ env₁ w rest hm hw hslug ho

/-! ### `workflows.rs`: reading -/

theorem list_grounds {params : ListParams} (hadm : Admission app all (.list params))
    (ho : Over (ruleOf app (.list params)) (list params) none [] db all out) : Grounds app all (.list params) out := by
  rcases over_read rfl (List.suffix_refl _) ho with ⟨e, rfl, hfail⟩ | ⟨env₁, db₁, a, rest, hm, ha, ho⟩
  · exact .fault hfail
  obtain ⟨rfl, rfl⟩ := over_pure ho
  simp only [Stmt.run] at ha
  cases ha
  exact .merits hadm (.page (hm.atLast rfl))

theorem run_detail_none {slug : String} (hs : db.Sound) (h : Stmt.run env db (.detail slug) = .ok (none, [])) :
    ∀ w ∈ db.workflows, w.slug = slug → w.unlistedAt ≠ none := by
  intro w hw hslug hl
  simp only [Stmt.run] at h
  have hf : db.workflows.find? (fun w => w.slug == slug && w.unlistedAt.isNone) = some w := by
    refine (Table.find?_eq_some fun x y hx hy => ?_).mpr ⟨hw, by simp [hslug, hl]⟩
    simp only [Bool.and_eq_true, beq_iff_eq] at hx hy
    exact (clash_workflow _ _).mpr (.inr (hx.1.trans hy.1.symm))
  obtain ⟨row, hrow⟩ := exists_summary hs.owned env.now hw
  simp only [hf, hrow, Option.bind_eq_bind, Option.bind_some] at h
  cases h

theorem run_detail_some {slug : String} {row : WorkflowSummary}
    (h : Stmt.run env db (.detail slug) = .ok (some row, [])) :
    ∃ w ∈ db.workflows, w.slug = slug ∧ w.unlistedAt = none ∧ db.summary env.now w = some row := by
  simp only [Stmt.run] at h
  cases hf : db.workflows.find? fun w => w.slug == slug && w.unlistedAt.isNone with
  | none => rw [hf] at h; cases h
  | some w =>
    obtain ⟨hw, he⟩ := Table.mem_of_find? hf
    simp only [Bool.and_eq_true, beq_iff_eq, Option.isNone_iff_eq_none] at he
    simp only [hf, Option.bind_eq_bind, Option.bind_some, Except.ok.injEq] at h
    exact ⟨w, hw, he.1, he.2, congrArg Prod.fst h⟩

theorem detail_grounds {slug : String} (hadm : Admission app all (.detail slug))
    (ho : Over (ruleOf app (.detail slug)) (detail slug) none [] db all out) : Grounds app all (.detail slug) out := by
  rcases over_read rfl (List.suffix_refl _) ho with ⟨e, rfl, hfail⟩ | ⟨env₁, db₁, a, rest, hm, ha, ho⟩
  · exact .fault hfail
  rcases a with _ | row
  · obtain ⟨rfl, rfl⟩ := over_throw (β := Reply) ho
    exact .merits hadm (.notListed (hm.atLast (run_detail_none hm.inv ha)))
  · obtain ⟨rfl, rfl⟩ := over_pure ho
    exact .merits hadm (.summary (hm.atLast (run_detail_some ha)))

theorem versions_grounds {slug : String} (hadm : Admission app all (.versions slug))
    (ho : Over (ruleOf app (.versions slug)) (versions slug) none [] db all out) : Grounds app all (.versions slug) out := by
  refine lookup_grounds hadm rfl (List.suffix_refl _) ho fun db₁ env₁ w rest hm₁ hw hslug ho => ?_
  rcases over_read rfl hm₁.suffix ho with ⟨e, rfl, hfail⟩ | ⟨env₂, db₂, a, rest, hm₂, ha, ho⟩
  · exact .fault hfail
  obtain ⟨rfl, rfl⟩ := over_pure ho
  simp only [Stmt.run] at ha
  cases ha
  obtain ⟨w₂, hw₂, he⟩ := hm₂.rely.workflows w hw
  refine .merits hadm (.versions (hm₂.atLast ⟨w₂, hw₂, he.2.1.trans hslug, ?_⟩))
  rw [he.1]
  rfl

theorem run_document {w : Uuid} {n : ℤ} {a : Option (ℤ × String × Option String × Timestamp × Bool)}
    (h : Stmt.run env db (.document w n) = .ok (a, [])) :
    (a = none ∧ ¬ db.published w n) ∨ ∃ v ∈ db.versionsOf w, v.version = n ∧
      a = some (v.version, v.yaml, v.changelog, v.publishedAt, v.withdrawnAt.isSome) := by
  simp only [Stmt.run] at h
  cases hf : db.versions.find? fun v => v.workflowId == w && v.version == n with
  | none =>
    rw [hf] at h
    cases h
    refine .inl ⟨rfl, ?_⟩
    rintro ⟨v, hv, hvw, hvn⟩
    simpa [hvw, hvn] using Table.find?_eq_none.mp hf v hv
  | some v =>
    rw [hf] at h
    cases h
    obtain ⟨hv, he⟩ := Table.mem_of_find? hf
    simp only [Bool.and_eq_true, beq_iff_eq] at he
    exact .inr ⟨v, mem_versionsOf.mpr ⟨hv, he.1⟩, he.2, rfl⟩

theorem versionDocument_grounds {slug : String} {n : ℤ} (hadm : Admission app all (.versionDocument slug n))
    (ho : Over (ruleOf app (.versionDocument slug n)) (versionDocument slug n) none [] db all out) :
    Grounds app all (.versionDocument slug n) out := by
  refine lookup_grounds hadm rfl (List.suffix_refl _) ho fun db₁ env₁ w rest hm₁ hw hslug ho => ?_
  rcases over_read rfl hm₁.suffix ho with ⟨e, rfl, hfail⟩ | ⟨env₂, db₂, a, rest, hm₂, ha, ho⟩
  · exact .fault hfail
  obtain ⟨w₂, hw₂, he⟩ := hm₂.rely.workflows w hw
  rcases run_document ha with ⟨rfl, hno⟩ | ⟨v, hv, hn, rfl⟩
  · obtain ⟨rfl, rfl⟩ := over_throw (β := Reply) ho
    exact .merits hadm (.unknownVersion rfl (hm₂.atLast ⟨w₂, hw₂, he.2.1.trans hslug, by rwa [he.1]⟩))
  · obtain ⟨rfl, rfl⟩ := over_pure ho
    exact .merits hadm (.document (hm₂.atLast ⟨w₂, hw₂, he.2.1.trans hslug, v, by rwa [he.1], hn, rfl⟩))

/-! ### `workflows.rs`: writing -/

theorem conflict_of {e : SqlError} {m : String} :
    onUniqueViolation e m = .conflict m ∧ e = .uniqueViolation ∨ onUniqueViolation e m = .database e := by
  cases e with
  | uniqueViolation => exact .inl ⟨rfl, rfl⟩
  | rowNotFound | other => exact .inr rfl

theorem insertWorkflow_refused {slug title description : String} {tags : List String} {p : Uuid} {e : SqlError}
    (h : Stmt.run env db (.insertWorkflow slug title description tags p) = .error e) :
    ∃ w ∈ db.workflows, w.slug = slug ∨ w.id = env.uuid := by
  simp only [Stmt.run] at h
  split at h
  · rename_i hhas
    obtain ⟨w, hw, hc⟩ := hhas
    exact ⟨w, hw, ((clash_workflow _ _).mp hc).symm⟩
  · cases h

theorem created_reply {h : HeaderMap} {body : CreateWorkflow} {ws : List Write} {reply : Reply}
    (he : Effect app (.create h body) db ws reply) : reply = .published body.slug 1 := by
  cases he
  rfl

/-- After the cap. -/
theorem insert_grounds {h : HeaderMap} {body : CreateWorkflow} {p : Publisher} (hadm : Admission app all (.create h body))
    (hs : ms <:+ all) (hcap : 0 < app.config.maxWorkflowsPerPublisher →
      Once all fun _ db => ∃ p, Holder app db h p ∧ (db.listed p : ℤ) < app.config.maxWorkflowsPerPublisher)
    (ho : Over (ruleOf app (.create h body)) (do
      begin
      let id ← queryOr (.insertWorkflow body.slug body.title body.description body.tags p.id)
        (onUniqueViolation · "that slug is already taken")
      let _ ← query (.insertVersion id 1 body.yaml body.changelog)
      commit
      return .published body.slug 1) none done db ms out) : Grounds app all (.create h body) out := by
  rcases over_begin hs ho with ⟨e, rfl, hfail⟩ | ⟨env₁, db₁, ms₁, hm₁, ho⟩
  · exact .fault hfail
  rcases over_runTx hm₁.suffix ho with ⟨e, rfl, hfail, he⟩ | ⟨env₂, db₂, id, ws₂, ms₂, hm₂, ha₂, ho⟩
  · rcases conflict_of (e := e) (m := "that slug is already taken") with ⟨hc, rfl⟩ | hc
    · obtain ⟨env₂, db₂, hm₂, ha₂⟩ := he.resolve_left (by simp)
      have htaken := insertWorkflow_refused ha₂
      rw [hc]
      exact .merits hadm (.slugTaken (hm₂.atLast htaken))
    · rw [hc]
      exact .fault hfail
  rcases over_runTx hm₂.suffix ho with ⟨e, rfl, hfail, -⟩ | ⟨env₃, db₃, n, ws₃, ms₃, hm₃, ha₃, ho⟩
  · exact .fault hfail
  rcases over_commit hm₃.suffix ho with ⟨e, rfl, hfail⟩ | ⟨env₄, db₄, ms₄, hm₄, hfresh, hgu, ho⟩
  · exact .fault hfail
  obtain ⟨rfl, rfl⟩ := over_pure ho
  simp only [Stmt.run] at ha₂
  split at ha₂ <;> cases ha₂
  obtain ⟨reply, heff⟩ := effect_of_guar hgu (List.mem_append_left _ List.mem_cons_self) rfl
  obtain rfl := created_reply heff
  exact .merits hadm (.created hcap (hm₄.atLast ⟨heff, hfresh⟩))

theorem create_grounds {h : HeaderMap} {body : CreateWorkflow} {p : Publisher} (hadm : Admission app all (.create h body))
    (hp : Holder app db h p.id) (hs : ms <:+ all)
    (ho : Over (ruleOf app (.create h body)) (create app p body) none done db ms out) :
    Grounds app all (.create h body) out := by
  unfold create at ho
  cases hv : body.validate app.config.maxYamlBytes with
  | error e =>
    rw [hv, lift_error_bind] at ho
    obtain ⟨-, rfl⟩ := over_throw ho
    exact .merits hadm (.invalid hv)
  | ok u =>
    rw [hv, lift_ok_bind] at ho
    unfold checkPublisherCap at ho
    dsimp only at ho
    by_cases hcap : app.config.maxWorkflowsPerPublisher ≤ 0
    · rw [if_pos hcap] at ho
      exact insert_grounds hadm hs (fun h => absurd hcap (by omega)) ho
    · rw [if_neg hcap, query, bind_assoc] at ho
      rcases over_read rfl hs ho with ⟨e, rfl, hfail⟩ | ⟨env₁, db₁, held, ms₁, hm₁, ha, ho⟩
      · exact .fault hfail
      simp only [Stmt.run] at ha
      cases ha
      by_cases hheld : (db₁.listed p.id : ℤ) ≥ app.config.maxWorkflowsPerPublisher
      · rw [if_pos hheld] at ho
        obtain ⟨rfl, rfl⟩ := over_throw (β := Reply) ho
        exact .merits hadm (.atCap (hm₁.atLast ⟨hp.grows hm₁.rely, rfl⟩) (by omega) hheld)
      · rw [if_neg hheld] at ho
        exact insert_grounds hadm hm₁.suffix (fun _ => hm₁.once ⟨p.id, hp.grows hm₁.rely, by omega⟩) ho

theorem nextVersion_numbered {w : WorkflowRow} {n : ℤ} (hs : db.Sound) (hw : w ∈ db.workflows)
    (h : Stmt.run env db (.nextVersion w.id) = .ok (n, [])) : db.Numbered w.id (n - 1) := by
  obtain ⟨m, hm, hn⟩ := hs.numbered w hw
  obtain rfl := run_nextVersion hm hn h
  rwa [add_sub_cancel_right]

theorem insertVersion_refused {w : Uuid} {n : ℤ} {yaml : String} {changelog : Option String} {e : SqlError}
    (h : Stmt.run env db (.insertVersion w n yaml changelog) = .error e) : db.published w n := by
  simp only [Stmt.run] at h
  split at h
  · rename_i hhas
    obtain ⟨v, hv, hc⟩ := hhas
    exact ⟨v, hv, (clash_version _ _).mp hc⟩
  · cases h

theorem published_reply {h : HeaderMap} {slug : String} {body : PublishVersion} {row : VersionRow} {ws : List Write}
    {reply : Reply} (he : Effect app (.publishVersion h slug body) db (.insertVersion row :: ws) reply) :
    reply = .published slug row.version := by
  cases he
  rfl

theorem publishVersion_grounds {h : HeaderMap} {slug : String} {body : PublishVersion} {p : Publisher}
    (hadm : Admission app all (.publishVersion h slug body)) (hp : Holder app db h p.id) (hs : ms <:+ all)
    (ho : Over (ruleOf app (.publishVersion h slug body)) (publishVersion app p slug body) none done db ms out) :
    Grounds app all (.publishVersion h slug body) out := by
  unfold publishVersion at ho
  cases hv : body.validate app.config.maxYamlBytes with
  | error e =>
    rw [hv, lift_error_bind] at ho
    obtain ⟨-, rfl⟩ := over_throw ho
    exact .merits hadm (.invalid hv)
  | ok u =>
    rw [hv, lift_ok_bind] at ho
    refine owned_grounds hadm rfl hp hs ho fun db₁ env₁ w ms₁ hm₁ hw hslug ho => ?_
    rcases over_begin hm₁.suffix ho with ⟨e, rfl, hfail⟩ | ⟨env₂, db₂, ms₂, hm₂, ho⟩
    · exact .fault hfail
    dsimp only at ho
    rcases over_runTx hm₂.suffix ho with ⟨e, rfl, hfail, he⟩ | ⟨env₃, db₃, (n : ℤ), ws₃, ms₃, hm₃, ha₃, ho⟩
    · -- counting the versions finds no key in use
      rcases he with rfl | ⟨env₃, db₃, -, ha₃⟩
      · exact .fault hfail
      simp only [Stmt.run] at ha₃
      split at ha₃ <;> cases ha₃
      exact .fault hfail
    obtain rfl : ws₃ = [] := run_reads rfl ha₃
    obtain ⟨w₃, hw₃, he₃⟩ := (hm₂.rely.trans hm₃.rely).workflows w hw
    have hnum : db₃.Numbered w₃.id (n - 1) := by
      rw [← he₃.1] at ha₃
      exact nextVersion_numbered hm₃.inv hw₃ ha₃
    rcases over_runTx hm₃.suffix ho with ⟨e, rfl, hfail, he⟩ | ⟨env₄, db₄, n', ws₄, ms₄, hm₄, ha₄, ho⟩
    · rcases conflict_of (e := e) (m := "a concurrent publish took that version; retry") with ⟨hc, rfl⟩ | hc
      · obtain ⟨env₄, db₄, hm₄, ha₄⟩ := he.resolve_left (by simp)
        obtain ⟨w₄, hw₄, he₄⟩ := hm₄.rely.workflows w₃ hw₃
        have hpub : db₄.published w₄.id n := by
          rw [he₄.1, he₃.1]
          exact insertVersion_refused ha₄
        rw [hc]
        exact .merits hadm (.overtaken (hm₃.once ⟨w₃, hw₃, he₃.2.1.trans hslug, hnum⟩)
          (hm₄.atLast ⟨w₄, hw₄, he₄.2.1.trans (he₃.2.1.trans hslug), hpub⟩))
      · rw [hc]
        exact .fault hfail
    rcases over_runTx hm₄.suffix ho with ⟨e, rfl, hfail, -⟩ | ⟨env₅, db₅, u, ws₅, ms₅, hm₅, ha₅, ho⟩
    · exact .fault hfail
    rcases over_commit hm₅.suffix ho with ⟨e, rfl, hfail⟩ | ⟨env₆, db₆, ms₆, hm₆, hfresh, hgu, ho⟩
    · exact .fault hfail
    obtain ⟨rfl, rfl⟩ := over_pure ho
    simp only [Stmt.run] at ha₄
    split at ha₄ <;> cases ha₄
    obtain ⟨reply, heff⟩ := effect_of_guar hgu (List.mem_append_left _ List.mem_cons_self) rfl
    obtain rfl := published_reply heff
    exact .merits hadm (.effect rfl rfl (hm₆.atLast ⟨heff, hfresh⟩))

/-- An `UPDATE` of a workflow that was found. -/
theorem updated_grounds {w : WorkflowRow} {q : Stmt} {g : q.Res → Handler Reply} (reply : Reply)
    (hadm : Admission app all req) (hc : req.creates = false) (hp : req.polls = false) (hs : ms <:+ all) (hw : w ∈ db.workflows)
    (hx : ∀ env db a ws, q.run env db = .ok (a, ws) → ∃ x, ws = ifFound (db.workflows.find? fun r => r.id == w.id) x ∧
      x.preparatory = false)
    (hg : ∀ a, g a = pure reply) (hreply : ∀ db ws r, Effect app req db ws r → r = reply)
    (ho : Over (ruleOf app req) (query q >>= g) none done db ms out) : Grounds app all req out := by
  rcases over_run hs ho with ⟨e, rfl, hfail, -⟩ | ⟨env₁, db₁, a, ws, rest, hm, ha, hfresh, hgu, ho⟩
  · exact .fault hfail
  rw [hg] at ho
  obtain ⟨rfl, rfl⟩ := over_pure ho
  obtain ⟨x, rfl, hprep⟩ := hx _ _ _ _ ha
  rw [ifFound_workflow hw hm.rely] at hgu hfresh hm
  obtain ⟨r, heff⟩ := effect_of_guar hgu List.mem_cons_self hprep
  obtain rfl := hreply _ _ _ heff
  exact .merits hadm (.effect hc hp (hm.atLast ⟨heff, hfresh⟩))

theorem update_grounds {h : HeaderMap} {slug : String} {body : UpdateWorkflow} {p : Publisher}
    (hadm : Admission app all (.update h slug body)) (hp : Holder app db h p.id) (hs : ms <:+ all)
    (ho : Over (ruleOf app (.update h slug body)) (update p slug body) none done db ms out) :
    Grounds app all (.update h slug body) out := by
  unfold update at ho
  cases hv : body.validate with
  | error e =>
    rw [hv, lift_error_bind] at ho
    obtain ⟨-, rfl⟩ := over_throw ho
    exact .merits hadm (.invalid hv)
  | ok u =>
    rw [hv, lift_ok_bind] at ho
    refine owned_grounds hadm rfl hp hs ho fun db₁ env₁ w ms₁ hm₁ hw hslug ho => ?_
    refine updated_grounds (.status "updated") hadm rfl rfl hm₁.suffix hw (fun env db a ws ha => ?_) (fun _ => rfl)
      (fun db ws r he => by cases he; rfl) ho
    simp only [Stmt.run] at ha
    cases ha
    exact ⟨_, rfl, rfl⟩

theorem unlist_grounds {h : HeaderMap} {slug : String} {p : Publisher} (hadm : Admission app all (.unlist h slug))
    (hp : Holder app db h p.id) (hs : ms <:+ all)
    (ho : Over (ruleOf app (.unlist h slug)) (unlist p slug) none done db ms out) :
    Grounds app all (.unlist h slug) out := by
  refine owned_grounds hadm rfl hp hs ho fun db₁ env₁ w ms₁ hm₁ hw hslug ho => ?_
  refine updated_grounds (.status "unlisted") hadm rfl rfl hm₁.suffix hw (fun env db a ws ha => ?_) (fun _ => rfl)
    (fun db ws r he => by cases he; rfl) ho
  simp only [Stmt.run] at ha
  cases ha
  exact ⟨_, rfl, rfl⟩

/-! ### `installs.rs` -/

theorem run_versionKnown_none {w : Uuid} {n : ℤ} (h : Stmt.run env db (.versionKnown w n) = .ok (none, [])) :
    ¬ db.published w n := by
  rintro ⟨v, hv, hw, hn⟩
  simp only [Stmt.run] at h
  cases hf : db.versions.find? fun v => v.workflowId == w && v.version == n with
  | none => simpa [hw, hn] using Table.find?_eq_none.mp hf v hv
  | some v => rw [hf] at h; cases h

theorem record_grounds {h : HeaderMap} {slug : String} {body : RecordInstall}
    (ho : Over (ruleOf app (.record h slug body)) (record h slug body) none [] db all out) :
    Grounds app all (.record h slug body) out := by
  refine limited_grounds rfl rfl rfl rfl ho fun db₁ ms₁ hadm hs ho => ?_
  rcases over_read rfl hs ho with ⟨e, rfl, hfail⟩ | ⟨env₂, db₂, a, ms₂, hm₂, ha₂, ho⟩
  · exact .fault hfail
  rcases workflow_found ha₂ with ⟨rfl, hno⟩ | ⟨w, hw, hslug, rfl⟩
  · obtain ⟨rfl, rfl⟩ := over_throw (β := Reply) ho
    exact .merits hadm (.unknownWorkflow rfl (hm₂.atLast hno))
  rcases over_read rfl hm₂.suffix ho with ⟨e, rfl, hfail⟩ | ⟨env₃, db₃, a, ms₃, hm₃, ha₃, ho⟩
  · exact .fault hfail
  obtain ⟨w₃, hw₃, he₃⟩ := hm₃.rely.workflows w hw
  rcases a with _ | k
  · obtain ⟨rfl, rfl⟩ := over_throw (β := Reply) ho
    have hno := run_versionKnown_none ha₃
    exact .merits hadm (.unknownVersion rfl (hm₃.atLast ⟨w₃, hw₃, he₃.2.1.trans hslug, by rwa [he₃.1]⟩))
  rcases over_run hm₃.suffix ho with ⟨e, rfl, hfail, -⟩ | ⟨env₄, db₄, u, ws, ms₄, hm₄, ha₄, hfresh, hgu, ho⟩
  · exact .fault hfail
  obtain ⟨rfl, rfl⟩ := over_pure ho
  -- a new row or an old one
  have hwrite : ∃ x ∈ ws, x.preparatory = false := by
    simp only [Stmt.run] at ha₄
    split at ha₄ <;> cases ha₄
    · exact ⟨_, List.mem_cons_self, rfl⟩
    · exact ⟨_, List.mem_cons_self, rfl⟩
  obtain ⟨x, hx, hprep⟩ := hwrite
  obtain ⟨reply, heff⟩ := effect_of_guar hgu hx hprep
  have hreply : reply = .status "recorded" := by cases heff <;> rfl
  rw [hreply] at heff
  exact .merits hadm (.effect rfl rfl (hm₄.atLast ⟨heff, hfresh⟩))

theorem forgot_reply {h : HeaderMap} {slug : String} {i : Uuid} {ws : List Write} {reply : Reply}
    (he : Effect app (.forget h slug i) db ws reply) : reply = .noContent := by
  cases he
  rfl

theorem forget_grounds {h : HeaderMap} {slug : String} {i : Uuid}
    (ho : Over (ruleOf app (.forget h slug i)) (forget h slug i) none [] db all out) :
    Grounds app all (.forget h slug i) out := by
  refine limited_grounds rfl rfl rfl rfl ho fun db₁ ms₁ hadm hs ho => ?_
  rcases over_read rfl hs ho with ⟨e, rfl, hfail⟩ | ⟨env₂, db₂, a, ms₂, hm₂, ha₂, ho⟩
  · exact .fault hfail
  rcases workflow_found ha₂ with ⟨rfl, hno⟩ | ⟨w, hw, hslug, rfl⟩
  · obtain ⟨rfl, rfl⟩ := over_throw (β := Reply) ho
    exact .merits hadm (.unknownWorkflow rfl (hm₂.atLast hno))
  rcases over_run hm₂.suffix ho with ⟨e, rfl, hfail, -⟩ | ⟨env₃, db₃, n, ws, ms₃, hm₃, ha₃, hfresh, hgu, ho⟩
  · exact .fault hfail
  obtain ⟨w₃, hw₃, he₃⟩ := hm₃.rely.workflows w hw
  simp only [Stmt.run] at ha₃
  cases hf : db₃.installs.find? fun r => r.workflowId == w.id && r.installationId == i with
  | none =>
    rw [hf] at ha₃
    cases ha₃
    obtain ⟨rfl, rfl⟩ := over_throw (β := Reply) ho
    refine .merits hadm (.unknownInstall (hm₃.atLast ⟨w₃, hw₃, he₃.2.1.trans hslug, fun x hx he => ?_⟩))
    rw [he₃.1] at he
    simpa [he.1, he.2] using Table.find?_eq_none.mp hf x hx
  | some x =>
    rw [hf] at ha₃
    cases ha₃
    obtain ⟨rfl, rfl⟩ := over_pure ho
    obtain ⟨reply, heff⟩ := effect_of_guar hgu List.mem_cons_self rfl
    obtain rfl := forgot_reply heff
    exact .merits hadm (.effect rfl rfl (hm₃.atLast ⟨heff, hfresh⟩))

/-! ### `me.rs` -/

theorem me_grounds {h : HeaderMap} {p : Publisher} (hadm : Admission app all (.me h)) (hp : Holder app db h p.id)
    (hs : ms <:+ all) (ho : Over (ruleOf app (.me h)) (Me.get p) none done db ms out) : Grounds app all (.me h) out := by
  rcases over_read rfl hs ho with ⟨e, rfl, hfail⟩ | ⟨env₁, db₁, a, ms₁, hm₁, ha, ho⟩
  · exact .fault hfail
  obtain ⟨rfl, rfl⟩ := over_pure ho
  simp only [Stmt.run] at ha
  cases hf : db₁.publishers.find? fun r => r.id == p.id with
  | none => rw [hf] at ha; cases ha
  | some r =>
    rw [hf] at ha
    cases ha
    obtain ⟨hr, hid⟩ := PublisherRow.find_iff.mp hf
    exact .merits hadm (.profile (hm₁.atLast ⟨r, hr, by rw [hid]; exact hp.grows hm₁.rely, rfl⟩))

theorem renamed_reply {h : HeaderMap} {body : UpdateMe} {r : PublisherRow} {name : Option String} {reply : Reply}
    (hr : r ∈ db.publishers) (he : Effect app (.updateMe h body) db [.setDisplayName r.id name] reply) :
    reply = .me { r with displayName := body.name }.me := by
  generalize hws : [Write.setDisplayName r.id name] = ws at he
  cases he with
  | renamed hq _ _ =>
    simp only [List.cons.injEq, Write.setDisplayName.injEq, and_true] at hws
    rw [PublisherRow.eq_of_id hr hq hws.1]

theorem updateMe_grounds {h : HeaderMap} {body : UpdateMe} {p : Publisher} (hadm : Admission app all (.updateMe h body))
    (hs : ms <:+ all) (ho : Over (ruleOf app (.updateMe h body)) (Me.update p body) none done db ms out) :
    Grounds app all (.updateMe h body) out := by
  have rest : Over (ruleOf app (.updateMe h body)) (query (.setDisplayName p.id body.name) >>= fun me => pure (.me me))
      none done db ms out → Grounds app all (.updateMe h body) out := by
    intro ho
    rcases over_run hs ho with ⟨e, rfl, hfail, -⟩ | ⟨env₁, db₁, a, ws, ms₁, hm₁, ha, hfresh, hgu, ho⟩
    · exact .fault hfail
    obtain ⟨rfl, rfl⟩ := over_pure ho
    simp only [Stmt.run] at ha
    cases hf : db₁.publishers.find? fun r => r.id == p.id with
    | none => rw [hf] at ha; cases ha
    | some r =>
      rw [hf] at ha
      cases ha
      obtain ⟨hr, hid⟩ := PublisherRow.find_iff.mp hf
      obtain ⟨reply, heff⟩ := effect_of_guar hgu List.mem_cons_self rfl
      have hreply : reply = .me { r with displayName := body.name }.me := by
        rw [← hid] at heff
        exact renamed_reply hr heff
      rw [hreply] at heff
      exact .merits hadm (.effect rfl rfl (hm₁.atLast ⟨heff, hfresh⟩))
  unfold Me.update at ho
  cases hn : body.displayName.map trim with
  | none =>
    rw [hn] at ho
    exact rest ho
  | some n =>
    rw [hn] at ho
    dsimp only at ho
    by_cases hlen : n.toList.length > 60
    · rw [if_pos hlen] at ho
      obtain ⟨-, rfl⟩ := over_throw (β := Reply) ho
      exact .merits hadm (.invalid (by simp only [Request.checks, hn, if_pos hlen]))
    · rw [if_neg hlen] at ho
      exact rest ho

/-! ### `enroll.rs` -/

theorem start_grounds {h : HeaderMap} {site : Site}
    (ho : Over (ruleOf app (.start h site)) (start app h site) none [] db all out) :
    Grounds app all (.start h site) out := by
  refine limited_grounds rfl rfl rfl rfl ho fun db₁ ms₁ hadm hs ho => ?_
  dsimp only at ho
  cases hg : github app with
  | error e =>
    rw [hg] at ho
    obtain ⟨-, rfl⟩ := over_throw (β := Reply) ho
    exact .merits hadm (.notStarted (by rw [hg]; rfl))
  | ok g =>
    rw [hg] at ho
    cases hf : g.start site with
    | error e =>
      have ho : Over (ruleOf app (.start h site)) (lift (g.start site) >>= fun flow => pure (.flow flow)) none [] db₁ ms₁ out := ho
      rw [hf] at ho
      obtain ⟨-, rfl⟩ := over_throw (β := Reply) ho
      exact .merits hadm (.notStarted (by rw [hg]; exact hf))
    | ok flow =>
      have ho : Over (ruleOf app (.start h site)) (lift (g.start site) >>= fun flow => pure (.flow flow)) none [] db₁ ms₁ out := ho
      rw [hf] at ho
      obtain ⟨-, rfl⟩ := over_pure (β := Reply) ho
      exact .merits hadm (.started (by rw [hg]; exact hf))

theorem enrolled_reply {h : HeaderMap} {body : PollRequest} {site : Site} {clock : DateTime} {bytes : Vector UInt8 tokenBytes}
    {user : GitHubUser} {row : TokenRow} {reply : Reply} (hu : Enrolls app body site clock user)
    (he : Effect app (.poll h body site clock bytes) db [.insertToken row] reply) :
    reply = .enrolled (generateToken bytes) row.publisherId user.login := by
  generalize hws : [Write.insertToken row] = ws at he
  cases he with
  | enrolled hu' _ _ =>
    simp only [List.cons.injEq, Write.insertToken.injEq, and_true] at hws
    have huser : Verdict.enrolls _ = Verdict.enrolls user := (verdict_enrolls.mpr hu').symm.trans (verdict_enrolls.mpr hu)
    rw [hws, Verdict.enrolls.inj huser]

theorem run_signIn {user : GitHubUser} {p : Uuid} {blockedAt : Option Timestamp} {ws : List Write}
    (h : Stmt.run env db (.enrollPublisher user.id user.login user.displayName user.avatarUrl) = .ok ((p, blockedAt), ws)) :
    ∃ x, ws = [x] ∧ SignIn db user p x blockedAt := by
  have hf := run_fresh h
  rcases enrollPublisher_cases h with ⟨r, hr, hg, rfl, rfl, rfl⟩ | ⟨-, -, rfl, rfl, rfl⟩
  · refine ⟨_, rfl, hf, .update hr hg, _, List.mem_map.mpr ⟨r, hr, rfl⟩, ?_⟩
    rw [if_pos rfl]
    exact ⟨rfl, rfl⟩
  · exact ⟨_, rfl, hf, .insert env, _, (Table.mem_insert (not_has_publisher hf)).mpr (.inr rfl), rfl, rfl⟩

theorem poll_grounds {h : HeaderMap} {body : PollRequest} {site : Site} {clock : DateTime} {bytes : Vector UInt8 tokenBytes}
    (ho : Over (ruleOf app (.poll h body site clock bytes)) (poll app h body site clock bytes) none [] db all out) :
    Grounds app all (.poll h body site clock bytes) out := by
  rw [poll_eq] at ho
  refine limited_grounds rfl rfl rfl rfl ho fun db₁ ms₁ hadm hs ho => ?_
  rw [if_pos rfl] at ho
  cases hv : verdict app body site clock with
  | crashes =>
    rw [hv] at ho
    cases ho
  | refused e =>
    rw [hv] at ho
    obtain ⟨-, rfl⟩ := over_throw ho
    exact .merits hadm (.notEnrolled hv)
  | unfinished status =>
    rw [hv] at ho
    obtain ⟨-, rfl⟩ := over_pure ho
    exact .merits hadm (.unfinished hv)
  | enrolls user =>
    rw [hv] at ho
    have hu := verdict_enrolls.mp hv
    rcases over_run hs ho with ⟨e, rfl, hfail, -⟩ | ⟨env₂, db₂, a, ws, ms₂, hm₂, ha₂, -, -, ho⟩
    · exact .fault hfail
    obtain ⟨id, blockedAt⟩ := a
    cases blockedAt with
    | some at_ =>
      obtain ⟨rfl, rfl⟩ := over_throw ho
      obtain ⟨x, rfl, hx⟩ := run_signIn ha₂
      exact .merits hadm (.blockedAccount hu (hm₂.atLast hx))
    | none =>
      obtain ⟨x, rfl, hx⟩ := run_signIn ha₂
      have hin : SignedIn all user id := ⟨_, hm₂.mem, x, rfl, hx⟩
      rcases over_run hm₂.suffix ho with ⟨e, rfl, hfail, -⟩ | ⟨env₃, db₃, u, ws₃, ms₃, hm₃, ha₃, hfresh, hgu, ho⟩
      · exact .fault hfail
      obtain ⟨rfl, rfl⟩ := over_pure ho
      simp only [Stmt.run] at ha₃
      split at ha₃ <;> cases ha₃
      obtain ⟨reply, heff⟩ := effect_of_guar hgu List.mem_cons_self rfl
      obtain rfl := enrolled_reply hu heff
      exact .merits hadm (.enrolled hu hin (hm₃.atLast ⟨heff, hfresh⟩))

section Upserted

variable {m : Moment registry} {x : Write} {p' : Prog registry (Except Error Reply)}

theorem last_unique {m' : Moment registry} (hlast : all.getLast? = some m) (hs : [m'] <:+ all) : m' = m :=
  Option.some.inj ((last_of_suffix hs).symm.trans hlast)

/-- At the last of the moments something was committed. -/
theorem not_idle_last (hlast : all.getLast? = some m) (hw : m.writes = [x]) {c : Choice registry} {e : Option SqlError} :
    ¬ [(⟨db, c, e, []⟩ : Moment registry)] <:+ all := by
  intro hs
  rw [← last_unique hlast hs] at hw
  cases hw

/-- The end of a sign-in, after the moment `m₀`: it is answered at the upsert if the
account is blocked, and has its token to come if not. -/
theorem enrolls_upserted {R : Rule registry} {user : GitHubUser} {bytes : Vector UInt8 tokenBytes} {c : Choice registry}
    {e : Option SqlError} {db' : Db} (hs : ⟨db', c, e, []⟩ :: ms <:+ all)
    (ho : Prog.Over R ((Verdict.enrolls user).handler app bytes).run none [] db ms p')
    (hlast : all.getLast? = some m) (hw : m.writes = [x]) (hx : x.preparatory = true) :
    ∃ p blockedAt, SignIn m.db user p x blockedAt ∧ (blockedAt = none ∧ (∀ out, p' ≠ .ret out) ∨
      blockedAt ≠ none ∧ p' = .ret (.error (.forbidden "publisher is blocked"))) := by
  have hs₁ := (List.suffix_cons _ _).trans hs
  change Prog.Over R (Prog.stmt (S := registry) _ _) none [] db ms p' at ho
  cases ho with
  | rest => exact absurd hs (not_idle_last hlast hw)
  | refused _ _ _ ho | failed _ _ ho =>
    cases ho
    exact absurd hs₁ (not_idle_last hlast hw)
  | @ran _ _ _ ws₂ _ db₂ env₂ a ms₂ _ _ _ hx₂ _ ho =>
  obtain ⟨p, blockedAt⟩ := a
  obtain ⟨y, rfl, hy⟩ := run_signIn (run_of_exec hx₂)
  cases blockedAt with
  | some at_ =>
    cases ho
    obtain rfl := last_unique hlast hs₁
    obtain rfl := List.singleton_inj.mp hw
    exact ⟨p, _, hy, .inr ⟨Option.some_ne_none _, rfl⟩⟩
  | none =>
    change Prog.Over R (Prog.stmt (S := registry) _ _) none _ _ ms₂ p' at ho
    have hs₂ := (List.suffix_cons _ _).trans hs₁
    cases ho with
    | rest =>
      obtain rfl := last_unique hlast hs₁
      obtain rfl := List.singleton_inj.mp hw
      exact ⟨p, _, hy, .inl ⟨rfl, fun out h => by cases h⟩⟩
    | refused _ _ _ ho | failed _ _ ho =>
      cases ho
      exact absurd hs₂ (not_idle_last hlast hw)
    | ran _ _ hx₃ _ ho =>
      -- the token is no preparation
      cases ho
      obtain rfl := last_unique hlast hs₂
      have ha₃ := run_of_exec hx₃
      simp only [Stmt.run] at ha₃
      split at ha₃ <;> cases ha₃
      obtain rfl := List.singleton_inj.mp hw
      cases hx

/-- A sign-in whose account has just been opened or brought up to date: it was let in,
and it is answered now if the account is blocked, and has its token to come if not. -/
theorem poll_upserted {h : HeaderMap} {body : PollRequest} {site : Site} {clock : DateTime} {bytes : Vector UInt8 tokenBytes}
    (ho : (poll app h body site clock bytes).run.Over (ruleOf app (.poll h body site clock bytes)) none [] db all p')
    (hlast : all.getLast? = some m) (hw : m.writes = [x]) (hx : x.preparatory = true) :
    Admission app all (.poll h body site clock bytes) ∧ ∃ user p blockedAt, Enrolls app body site clock user ∧
      SignIn m.db user p x blockedAt ∧ (blockedAt = none ∧ (∀ out, p' ≠ .ret out) ∨
        blockedAt ≠ none ∧ p' = .ret (.error (.forbidden "publisher is blocked"))) := by
  rw [poll_eq] at ho
  change Prog.Over _ (Prog.ask (S := registry) (.enrollPoll, clientKey h none) fun b => ExceptT.run
    (if b = true then (verdict app body site clock).handler app bytes else throw .tooManyRequests)) none [] db all p' at ho
  have hs := List.suffix_refl all
  cases ho with
  | rest => cases hlast
  | @asked _ _ _ _ _ db₁ env₁ ms₁ _ hr₁ hi₁ ho =>
  by_cases hadmits : env₁.admits .enrollPoll (clientKey h none) = true
  · have hadm : Admission app (⟨db₁, .go env₁, none, []⟩ :: ms₁) (.poll h body site clock bytes) := by
      refine ⟨fun l h' hl => ?_, fun h' hp => ?_, fun h' ha => ?_⟩
      · cases hl
        exact ⟨_, List.mem_cons_self, env₁, rfl, rfl, hadmits⟩
      · cases hp
      · cases ha
    refine ⟨hadm, ?_⟩
    have ho : Prog.Over _ (ExceptT.run (if env₁.admits .enrollPoll (clientKey h none) = true then
      (verdict app body site clock).handler app bytes else throw .tooManyRequests)) none [] db₁ ms₁ p' := ho
    rw [if_pos hadmits] at ho
    cases hv : verdict app body site clock with
    | crashes | refused | unfinished =>
      rw [hv] at ho
      cases ho
      exact absurd hs (not_idle_last hlast hw)
    | enrolls user =>
      rw [hv] at ho
      obtain ⟨p, blockedAt, hin, hto⟩ := enrolls_upserted hs ho hlast hw hx
      exact ⟨user, p, blockedAt, verdict_enrolls.mp hv, hin, hto⟩
  · have ho : Prog.Over _ (ExceptT.run (if env₁.admits .enrollPoll (clientKey h none) = true then
      (verdict app body site clock).handler app bytes else throw .tooManyRequests)) none [] db₁ ms₁ p' := ho
    rw [if_neg hadmits] at ho
    cases ho
    exact absurd hs (not_idle_last hlast hw)

end Upserted

/-! ### `admin.rs` -/

theorem insertToken_refused {p : Uuid} {hash name : String} {e : SqlError}
    (h : Stmt.run env db (.insertToken p hash name) = .error e) : ∃ t ∈ db.tokens, t.tokenHash = hash := by
  simp only [Stmt.run] at h
  split at h
  · rename_i hhas
    obtain ⟨t, ht, hc⟩ := hhas
    exact ⟨t, ht, (clash_token _ _).mp hc⟩
  · cases h

/-- The upsert of a publisher touches no token. -/
theorem Upserts.leaves_tokens {body : IssueToken} {p : Uuid} {x : Write} (h : Upserts.issue body db p x) (db' : Db) :
    (x.apply db').tokens = db'.tokens := by
  cases h with
  | insert _ | update _ _ => rfl

theorem issued_reply {h : HeaderMap} {body : IssueToken} {bytes : Vector UInt8 tokenBytes} {x : Write} {row : TokenRow}
    {ws : List Write} {reply : Reply} (he : Effect app (.issueToken h body bytes) db (x :: .insertToken row :: ws) reply) :
    reply = .issued ⟨row.publisherId, body.githubLogin, body.name, generateToken bytes⟩ := by
  cases he
  rfl

theorem issueToken_grounds {h : HeaderMap} {body : IssueToken} {bytes : Vector UInt8 tokenBytes}
    (hadm : Admission app all (.issueToken h body bytes))
    (ho : Over (ruleOf app (.issueToken h body bytes)) (issueToken app body bytes) none [] db all out) :
    Grounds app all (.issueToken h body bytes) out := by
  unfold issueToken at ho
  by_cases hblank : (trim body.name).isEmpty = true
  · rw [if_pos hblank] at ho
    obtain ⟨-, rfl⟩ := over_throw (β := Reply) ho
    exact .merits hadm (.invalid (by simp only [Request.checks, if_pos hblank]))
  rw [if_neg hblank] at ho
  rcases over_begin (List.suffix_refl _) ho with ⟨e, rfl, hfail⟩ | ⟨env₁, db₁, ms₁, hm₁, ho⟩
  · exact .fault hfail
  rcases over_runTx hm₁.suffix ho with ⟨e, rfl, hfail, -⟩ | ⟨env₂, db₂, p, ws₂, ms₂, hm₂, ha₂, ho⟩
  · exact .fault hfail
  obtain ⟨x, rfl, hx⟩ := run_issuePublisher ha₂
  dsimp only at ho
  rcases over_runTx hm₂.suffix ho with ⟨e, rfl, hfail, he⟩ | ⟨env₃, db₃, u, ws₃, ms₃, hm₃, ha₃, ho⟩
  · rcases conflict_of (e := e) (m := "token collision; retry") with ⟨hc, rfl⟩ | hc
    · obtain ⟨env₃, db₃, hm₃, ha₃⟩ := he.resolve_left (by simp)
      obtain ⟨t, ht, hh⟩ := insertToken_refused ha₃
      have htok : t ∈ db₃.tokens := by
        have hsame := hx.leaves_tokens db₃
        rw [← hsame]
        exact ht
      rw [hc]
      exact .merits hadm (.collision (hm₃.atLast ⟨t, htok, hh⟩))
    · rw [hc]
      exact .fault hfail
  rcases over_commit hm₃.suffix ho with ⟨e, rfl, hfail⟩ | ⟨env₄, db₄, ms₄, hm₄, hfresh, hgu, ho⟩
  · exact .fault hfail
  obtain ⟨rfl, rfl⟩ := over_pure ho
  simp only [Stmt.run] at ha₃
  split at ha₃ <;> cases ha₃
  obtain ⟨reply, heff⟩ := effect_of_guar hgu (List.mem_append_right _ List.mem_cons_self) rfl
  obtain rfl := issued_reply heff
  exact .merits hadm (.effect rfl rfl (hm₄.atLast ⟨heff, hfresh⟩))

theorem setOfficial_grounds {h : HeaderMap} {slug : String} {value : Bool} (hadm : Admission app all (.setOfficial h slug value))
    (ho : Over (ruleOf app (.setOfficial h slug value)) (setOfficial slug value) none [] db all out) :
    Grounds app all (.setOfficial h slug value) out := by
  rcases over_run (List.suffix_refl _) ho with ⟨e, rfl, hfail, -⟩ | ⟨env₁, db₁, n, ws, ms₁, hm₁, ha, hfresh, hgu, ho⟩
  · exact .fault hfail
  simp only [Stmt.run] at ha
  cases hf : db₁.workflows.find? fun w => w.slug == slug with
  | none =>
    rw [hf] at ha
    cases ha
    obtain ⟨rfl, rfl⟩ := over_throw (β := Reply) ho
    exact .merits hadm (.unknownWorkflow rfl (hm₁.atLast (by simpa using Table.find?_eq_none.mp hf)))
  | some w =>
    rw [hf] at ha
    cases ha
    obtain ⟨rfl, rfl⟩ := over_pure ho
    obtain ⟨reply, heff⟩ := effect_of_guar hgu List.mem_cons_self rfl
    have hreply : reply = .official slug value := by
      generalize [Write.setOfficial w.id value] = ws at heff
      cases heff
      rfl
    rw [hreply] at heff
    exact .merits hadm (.effect rfl rfl (hm₁.atLast ⟨heff, hfresh⟩))

theorem setBlocked_grounds {h : HeaderMap} {g : ℤ} {value : Bool} (hadm : Admission app all (.setBlocked h g value))
    (ho : Over (ruleOf app (.setBlocked h g value)) (setBlocked g value) none [] db all out) :
    Grounds app all (.setBlocked h g value) out := by
  rcases over_run (List.suffix_refl _) ho with ⟨e, rfl, hfail, -⟩ | ⟨env₁, db₁, n, ws, ms₁, hm₁, ha, hfresh, hgu, ho⟩
  · exact .fault hfail
  simp only [Stmt.run] at ha
  cases hf : db₁.publishers.find? fun p => p.githubId == g with
  | none =>
    rw [hf] at ha
    cases ha
    obtain ⟨rfl, rfl⟩ := over_throw (β := Reply) ho
    exact .merits hadm (.unknownPublisher (hm₁.atLast (by simpa using Table.find?_eq_none.mp hf)))
  | some p =>
    rw [hf] at ha
    cases ha
    obtain ⟨rfl, rfl⟩ := over_pure ho
    obtain ⟨reply, heff⟩ := effect_of_guar hgu List.mem_cons_self rfl
    have hreply : reply = .blocked g value := by
      generalize [Write.setBlockedAt p.id (if value then some env₁.now else none)] = ws at heff
      cases heff
      rfl
    rw [hreply] at heff
    exact .merits hadm (.effect rfl rfl (hm₁.atLast ⟨heff, hfresh⟩))

/-! ### The service -/

/-- What no extractor guards. -/
theorem admission_open (hl : req.limited? = none) (hp : req.publisher? = none) (ha : req.admin? = none) :
    Admission app all req := by
  refine ⟨fun l h he => ?_, fun h he => ?_, fun h he => ?_⟩
  · rw [hl] at he
    cases he
  · rw [hp] at he
    cases he
  · rw [ha] at he
    cases he

theorem handler_grounds (ho : Over (ruleOf app req) (req.handler app) none [] db all out) : Grounds app all req out := by
  cases req with
  | list => exact list_grounds (admission_open rfl rfl rfl) ho
  | detail => exact detail_grounds (admission_open rfl rfl rfl) ho
  | versions => exact versions_grounds (admission_open rfl rfl rfl) ho
  | versionDocument => exact versionDocument_grounds (admission_open rfl rfl rfl) ho
  | create => exact asPublisher_grounds rfl rfl rfl ho fun _ _ _ _ hadm hp hs ho => create_grounds hadm hp hs ho
  | publishVersion =>
    exact asPublisher_grounds rfl rfl rfl ho fun _ _ _ _ hadm hp hs ho => publishVersion_grounds hadm hp hs ho
  | update => exact asPublisher_grounds rfl rfl rfl ho fun _ _ _ _ hadm hp hs ho => update_grounds hadm hp hs ho
  | unlist => exact asPublisher_grounds rfl rfl rfl ho fun _ _ _ _ hadm hp hs ho => unlist_grounds hadm hp hs ho
  | record => exact record_grounds ho
  | forget => exact forget_grounds ho
  | me => exact asPublisher_grounds rfl rfl rfl ho fun _ _ _ _ hadm hp hs ho => me_grounds hadm hp hs ho
  | updateMe => exact asPublisher_grounds rfl rfl rfl ho fun _ _ _ _ hadm _ hs ho => updateMe_grounds hadm hs ho
  | available =>
    obtain ⟨-, rfl⟩ := over_pure ho
    exact .merits (admission_open rfl rfl rfl) .offered
  | start => exact start_grounds ho
  | poll => exact poll_grounds ho
  | issueToken => exact asAdmin_grounds rfl rfl rfl ho issueToken_grounds
  | setOfficial => exact asAdmin_grounds rfl rfl rfl ho setOfficial_grounds
  | setBlocked => exact asAdmin_grounds rfl rfl rfl ho setBlocked_grounds

/-- A publish that counts the versions, and another that is first to insert. -/
def Sample.lostRace : List (Action registry Request) :=
  .arrive (publish 0 "first" "steps: [2]") :: (moves 20 1 5 ++ moves 30 2 8 ++ moves 40 1 1)

end HarnessRegistry

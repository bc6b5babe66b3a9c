/-
# What is stored would be accepted again

Three validators guard three writers: `CreateWorkflow::validate` a new entry,
`PublishVersion::validate` a new version, `UpdateWorkflow::validate` the fields
that an update supplies, which `COALESCE` merges into the row. They agree field
by field, so every workflow row, with any of its versions, is a `CreateWorkflow`
that would pass today.

Key definitions: `WorkflowRow.Fit`, `VersionRow.Fit`, `Write.Fit`, `Stored`.
Key theorems: `validateSlug_ok_iff`, `validateTags_ok_iff`, `CreateWorkflow.validate_ok_iff`,
`Stored.apply`, `Reached.stored`, `stored_accepted`.
-/
import HarnessRegistry.Runs

namespace HarnessRegistry

open Txn

variable {app : AppState} {db db₀ : Db} {s s' : Registry} {maxYaml : ℕ}

/-! ### What the validators accept -/

section Checks

variable {c : Prop} [Decidable c] {e : Error} {k : Except Error Unit}

/-- A check, and what follows it. -/
theorem check_ok_iff : (do
    if c then throw e
    k : Except Error Unit) = .ok () ↔ ¬ c ∧ k = .ok () := by
  by_cases hc : c
  · refine ⟨fun h => ?_, fun h => absurd hc h.1⟩
    simp only [hc] at h
    cases h
  · simp [hc]

/-- The last check. -/
theorem last_ok_iff : (if c then throw e else pure () : Except Error Unit) = .ok () ↔ ¬ c := by
  by_cases hc : c
  · refine ⟨fun h => ?_, fun h => absurd hc h⟩
    rw [if_pos hc] at h
    cases h
  · simp only [hc, not_false_iff, iff_true]
    rfl

/-- One validator after another. -/
theorem both_ok_iff {j : Except Error Unit} : (do j; k : Except Error Unit) = .ok () ↔ j = .ok () ∧ k = .ok () := by
  cases j with
  | error e =>
    constructor
    · intro h
      cases h
    · intro h
      cases h.1
  | ok u => exact ⟨fun h => ⟨rfl, h⟩, fun h => h.2⟩

end Checks

theorem validateSlug_ok_iff {slug : String} : validateSlug slug = .ok () ↔
    slug.isEmpty = false ∧ len slug ≤ slugMax ∧ slug.toList.all isSlugChar = true ∧ startsWith slug '-' = false ∧
      endsWith slug '-' = false ∧ contains slug "--" = false ∧ slug ∉ reservedSlugs := by
  unfold validateSlug
  rw [check_ok_iff, check_ok_iff, check_ok_iff, last_ok_iff]
  simp only [slugIsReserved, Bool.or_eq_true, decide_eq_true_eq, not_or, Bool.not_eq_true, Nat.not_lt, Bool.not_eq_false',
    List.contains_eq_mem, and_assoc]

theorem validateLen_ok_iff {field value : String} {max : ℕ} : validateLen field value max = .ok () ↔
    (trim value).isEmpty = false ∧ len value ≤ max := by
  unfold validateLen
  rw [check_ok_iff, last_ok_iff, Bool.not_eq_true, Nat.not_lt]

theorem validateTag_ok_iff {tag : String} : validateTag tag = .ok () ↔
    tag.isEmpty = false ∧ len tag ≤ tagMax ∧ tag.toList.all isSlugChar = true := by
  unfold validateTag
  rw [check_ok_iff, last_ok_iff]
  simp only [Bool.or_eq_true, decide_eq_true_eq, not_or, Bool.not_eq_true, Nat.not_lt, Bool.not_eq_false', and_assoc]

theorem validateTags_ok_iff {tags : List String} : validateTags tags = .ok () ↔
    tags.length ≤ tagsMax ∧ ∀ tag ∈ tags, validateTag tag = .ok () := by
  have hloop : ∀ ts : List String, ts.forM validateTag = .ok () ↔ ∀ tag ∈ ts, validateTag tag = .ok () := by
    intro ts
    induction ts with
    | nil => simp [pure, Except.pure]
    | cons t ts ih =>
      rw [List.forall_mem_cons, ← ih]
      exact both_ok_iff
  unfold validateTags
  rw [check_ok_iff, hloop, Nat.not_lt]

theorem validateYaml_ok_iff {yaml : String} : validateYaml yaml maxYaml = .ok () ↔
    (trim yaml).isEmpty = false ∧ len yaml ≤ maxYaml := by
  unfold validateYaml
  rw [check_ok_iff, last_ok_iff, Bool.not_eq_true, Nat.not_lt]

theorem validateChangelog_ok_iff {changelog : Option String} : validateChangelog changelog = .ok () ↔
    ∀ c ∈ changelog, (trim c).isEmpty = false ∧ len c ≤ changelogMax := by
  unfold validateChangelog
  cases changelog with
  | none => simp [pure, Except.pure]
  | some c =>
    dsimp only
    rw [validateLen_ok_iff]
    simp

theorem CreateWorkflow.validate_ok_iff {body : CreateWorkflow} : body.validate maxYaml = .ok () ↔
    validateSlug body.slug = .ok () ∧ validateLen "title" body.title titleMax = .ok () ∧
      validateLen "description" body.description descriptionMax = .ok () ∧ validateTags body.tags = .ok () ∧
      validateYaml body.yaml maxYaml = .ok () ∧ validateChangelog body.changelog = .ok () := by
  unfold CreateWorkflow.validate
  rw [both_ok_iff, both_ok_iff, both_ok_iff, both_ok_iff, both_ok_iff]

theorem PublishVersion.validate_ok_iff {body : PublishVersion} : body.validate maxYaml = .ok () ↔
    validateYaml body.yaml maxYaml = .ok () ∧ validateChangelog body.changelog = .ok () := by
  unfold PublishVersion.validate
  rw [both_ok_iff]

/-- An update is checked in the fields that it supplies. -/
theorem UpdateWorkflow.fields_ok {body : UpdateWorkflow} (h : body.validate = .ok ()) :
    (∀ t ∈ body.title, validateLen "title" t titleMax = .ok ()) ∧
      (∀ d ∈ body.description, validateLen "description" d descriptionMax = .ok ()) ∧
      ∀ tags ∈ body.tags, validateTags tags = .ok () := by
  obtain ⟨title, description, tags⟩ := body
  unfold UpdateWorkflow.validate at h
  -- a field that is not supplied is passed over
  cases title <;> cases description <;> cases tags <;> simp only [both_ok_iff] at h <;> simp [h]

/-! ### Rows -/

/-- The columns of a workflow row pass the checks of a new entry. -/
structure WorkflowRow.Fit (w : WorkflowRow) : Prop where
  slug : validateSlug w.slug = .ok ()
  title : validateLen "title" w.title titleMax = .ok ()
  description : validateLen "description" w.description descriptionMax = .ok ()
  tags : validateTags w.tags = .ok ()

/-- And those of a version row. -/
structure VersionRow.Fit (maxYaml : ℕ) (v : VersionRow) : Prop where
  yaml : validateYaml v.yaml maxYaml = .ok ()
  changelog : validateChangelog v.changelog = .ok ()

/-- Every row of the library passes. -/
structure Stored (maxYaml : ℕ) (db : Db) : Prop where
  workflows : ∀ w ∈ db.workflows, w.Fit
  versions : ∀ v ∈ db.versions, v.Fit maxYaml

/-- A write that brings in nothing else. -/
def Write.Fit (maxYaml : ℕ) : Write → Prop
  | .insertWorkflow row => row.Fit
  | .insertVersion row => row.Fit maxYaml
  | .amend _ title description tags _ =>
    (∀ t ∈ title, validateLen "title" t titleMax = .ok ()) ∧
      (∀ d ∈ description, validateLen "description" d descriptionMax = .ok ()) ∧ ∀ ts ∈ tags, validateTags ts = .ok ()
  | _ => True

theorem getD_ok {β : Type} {f : β → Except Error Unit} {a : Option β} {b : β} (ha : ∀ t ∈ a, f t = .ok ())
    (hb : f b = .ok ()) : f (a.getD b) = .ok () := by
  cases a with
  | none => exact hb
  | some t => exact ha t rfl

/-- `COALESCE` of fields that pass. -/
theorem Stored.apply {w : Write} (h : Stored maxYaml db) (hw : w.Fit maxYaml) : Stored maxYaml (w.apply db) := by
  cases w
  case insertWorkflow row =>
    refine ⟨fun x hx => ?_, h.versions⟩
    rcases Table.exists_of_insert (q := fun y => y = x) ⟨x, hx, rfl⟩ with ⟨y, hy, rfl⟩ | rfl
    · exact h.workflows y hy
    · exact hw
  case insertVersion row =>
    refine ⟨h.workflows, fun x hx => ?_⟩
    rcases Table.exists_of_insert (q := fun y => y = x) ⟨x, hx, rfl⟩ with ⟨y, hy, rfl⟩ | rfl
    · exact h.versions y hy
    · exact hw
  case amend id title description tags now =>
    refine ⟨fun x hx => ?_, h.versions⟩
    obtain ⟨y, hy, rfl⟩ := List.mem_map.mp hx
    have hfit := h.workflows y hy
    split
    · exact ⟨hfit.slug, getD_ok (f := fun t => validateLen "title" t titleMax) hw.1 hfit.title,
        getD_ok (f := fun d => validateLen "description" d descriptionMax) hw.2.1 hfit.description,
        getD_ok hw.2.2 hfit.tags⟩
    · exact hfit
  case relist | unlist | setOfficial =>
    refine ⟨fun x hx => ?_, h.versions⟩
    obtain ⟨y, hy, rfl⟩ := List.mem_map.mp hx
    have hfit := h.workflows y hy
    split
    · exact ⟨hfit.slug, hfit.title, hfit.description, hfit.tags⟩
    · exact hfit
  case withdrawVersion =>
    refine ⟨h.workflows, fun x hx => ?_⟩
    obtain ⟨y, hy, rfl⟩ := List.mem_map.mp hx
    have hfit := h.versions y hy
    split
    · exact ⟨hfit.yaml, hfit.changelog⟩
    · exact hfit
  all_goals exact ⟨h.workflows, h.versions⟩

theorem Stored.applyAll : ∀ (ws : List Write) {db : Db}, Stored maxYaml db → (∀ w ∈ ws, w.Fit maxYaml) →
    Stored maxYaml (registry.applyAll ws db)
  | [], _, h, _ => h
  | w :: ws, _, h, hws => Stored.applyAll ws (h.apply (hws w List.mem_cons_self)) fun v hv =>
      hws v (List.mem_cons_of_mem _ hv)

/-! ### Requests -/

/-- Each writer brings in only what its validator has passed. -/
theorem Effect.fit {req : Request} {ws : List Write} {reply : Reply} (h : Effect app req db ws reply) :
    ∀ w ∈ ws, w.Fit app.config.maxYamlBytes := by
  intro v hv
  cases h with
  | created _ hbody =>
    obtain ⟨hslug, htitle, hdescription, htags, hyaml, hchangelog⟩ := CreateWorkflow.validate_ok_iff.mp hbody
    simp only [List.mem_cons, List.not_mem_nil, or_false] at hv
    rcases hv with rfl | rfl
    · exact ⟨hslug, htitle, hdescription, htags⟩
    · exact ⟨hyaml, hchangelog⟩
  | published _ _ _ hbody =>
    obtain ⟨hyaml, hchangelog⟩ := PublishVersion.validate_ok_iff.mp hbody
    simp only [List.mem_cons, List.not_mem_nil, or_false] at hv
    rcases hv with rfl | rfl
    · exact ⟨hyaml, hchangelog⟩
    · trivial
  | amended _ _ _ hbody =>
    rw [List.mem_singleton.mp hv]
    exact UpdateWorkflow.fields_ok hbody
  | issued _ _ hu =>
    simp only [List.mem_cons, List.not_mem_nil, or_false] at hv
    rcases hv with rfl | rfl
    · cases hu <;> trivial
    · trivial
  | unlisted | renamed | recorded | refreshed | forgot | enrolled | badged | blocked =>
    rw [List.mem_singleton.mp hv]
    trivial

theorem Guar.fit {req : Request} {done ws : List Write} (h : Guar app req done db ws) :
    ∀ w ∈ ws, w.Fit app.config.maxYamlBytes := by
  cases h with
  | «prelude» _ hp =>
    intro w hw
    have hprep := hp.preparing w hw
    cases w <;> trivial
  | effect _ he => exact he.fit

/-- Every row of the library passes, in every state. -/
theorem Reached.stored (h0 : db₀.Initial) (h : Reached app db₀ s) : Stored app.config.maxYamlBytes s.db := by
  refine h.induct (P := fun s => Stored app.config.maxYamlBytes s.db) h0.sound ?_ fun s a s' _ hg ih hst => ?_
  · exact ⟨by simp [Registry.start, h0.workflows], by simp [Registry.start, h0.versions]⟩
  · rcases Contract.step_cases hg hst with ⟨hd, -⟩ | ⟨w, hw, hd, -⟩ | ⟨r, t, t', ws, -, hgu, -, hd, -⟩
    · rwa [hd]
    · rw [hd]
      exact ih.apply (by cases w <;> trivial)
    · rw [hd]
      exact ih.applyAll ws hgu.fit

/-- **Everything stored would be accepted again**: a workflow row with any of
its version rows is a `CreateWorkflow` that passes. So its slug is not
reserved and keeps to the grammar, its title, description and changelog are
neither blank nor too long, it has at most ten tags of the grammar, and its
document is neither blank nor too large. -/
theorem stored_accepted (h0 : db₀.Initial) (h : Reached app db₀ s) :
    (∀ w ∈ s.db.workflows, ∀ v ∈ s.db.versions, v.workflowId = w.id →
      CreateWorkflow.validate ⟨w.slug, w.title, w.description, w.tags, v.yaml, v.changelog⟩ app.config.maxYamlBytes =
        .ok ()) ∧
    (∀ w ∈ s.db.workflows,
      (w.slug.isEmpty = false ∧ len w.slug ≤ slugMax ∧ w.slug.toList.all isSlugChar = true ∧
        startsWith w.slug '-' = false ∧ endsWith w.slug '-' = false ∧ contains w.slug "--" = false ∧ w.slug ∉ reservedSlugs) ∧
      ((trim w.title).isEmpty = false ∧ len w.title ≤ titleMax) ∧
      ((trim w.description).isEmpty = false ∧ len w.description ≤ descriptionMax) ∧
      w.tags.length ≤ tagsMax ∧
        ∀ tag ∈ w.tags, tag.isEmpty = false ∧ len tag ≤ tagMax ∧ tag.toList.all isSlugChar = true) ∧
    ∀ v ∈ s.db.versions, ((trim v.yaml).isEmpty = false ∧ len v.yaml ≤ app.config.maxYamlBytes) ∧
      ∀ c ∈ v.changelog, (trim c).isEmpty = false ∧ len c ≤ changelogMax := by
  have hs := h.stored h0
  refine ⟨fun w hw v hv _ => ?_, fun w hw => ?_, fun v hv => ?_⟩
  · have hwf := hs.workflows w hw
    have hvf := hs.versions v hv
    exact CreateWorkflow.validate_ok_iff.mpr ⟨hwf.slug, hwf.title, hwf.description, hwf.tags, hvf.yaml, hvf.changelog⟩
  · have hwf := hs.workflows w hw
    obtain ⟨hfew, htags⟩ := validateTags_ok_iff.mp hwf.tags
    exact ⟨validateSlug_ok_iff.mp hwf.slug, validateLen_ok_iff.mp hwf.title, validateLen_ok_iff.mp hwf.description, hfew,
      fun tag ht => validateTag_ok_iff.mp (htags tag ht)⟩
  · have hvf := hs.versions v hv
    exact ⟨validateYaml_ok_iff.mp hvf.yaml, validateChangelog_ok_iff.mp hvf.changelog⟩

/-- An entry that is created, amended in one field and published again. -/
def Sample.amended : List (Action registry Request) :=
  serve 10 0 (create 0 "first") 7 ++
    serve 20 1 (.update (headers (token 0)) "first" ⟨none, some "What it does now", none⟩) 4 ++
    serve 30 2 (publish 0 "first" "steps: [a]") 8

theorem stored_accepted_amended :
    ∃ s, Reached Sample.replica Sample.library s ∧
      s.db.versions.rows.map (·.version) = [1, 2] ∧ s.db.workflows.rows.map (·.description) = ["What it does now"] ∧
      ∀ w ∈ s.db.workflows, ∀ v ∈ s.db.versions, v.workflowId = w.id →
        CreateWorkflow.validate ⟨w.slug, w.title, w.description, w.tags, v.yaml, v.changelog⟩ 262144 = .ok () := by
  have h : ((Sample.after Sample.amended).map fun s =>
      (s.db.versions.rows.map (·.version), s.db.workflows.rows.map (·.description))) =
      some ([1, 2], ["What it does now"]) := by decide +kernel
  obtain ⟨s, hr, h⟩ := Sample.reached h
  obtain ⟨hv, hw⟩ := Prod.mk.inj h
  exact ⟨s, hr, hv, hw, (stored_accepted Sample.initial hr).1⟩

end HarnessRegistry

/-
# Wire types and validation

The bodies of the requests with the validation that guards the schema, and
the bodies of the answers. Lengths are bytes (`str::len`), as the code has
them.

Key definitions: `validateSlug`, `validateLen`, `validateTags`, `validateYaml`,
`CreateWorkflow.validate`, `PublishVersion.validate`, `UpdateWorkflow.validate`.
-/
import HarnessRegistry.Text
import HarnessRegistry.Error
import HarnessRegistry.Schema

namespace HarnessRegistry

def slugMax : ℕ := 64
def titleMax : ℕ := 120
def descriptionMax : ℕ := 2000
def tagMax : ℕ := 32
def tagsMax : ℕ := 10
def changelogMax : ℕ := 4000

/-- Slugs nobody may publish, because the harness ships a workflow of each
name. -/
def reservedSlugs : List String :=
  ["idea-to-pr", "revise-pr", "review-pr", "merge-pr", "judge-ab", "architect", "linear-epic-supervise"]

def slugIsReserved (slug : String) : Bool := reservedSlugs.contains slug

def validateSlug (slug : String) : Except Error Unit := do
  if slug.isEmpty || len slug > slugMax then
    throw (.badRequest s!"slug must be 1-{slugMax} characters")
  if !slug.toList.all isSlugChar then
    throw (.badRequest "slug may contain only lowercase letters, digits and dashes")
  if startsWith slug '-' || endsWith slug '-' || contains slug "--" then
    throw (.badRequest "slug may not start or end with a dash, or contain a double dash")
  if slugIsReserved slug then
    throw (.badRequest s!"`{slug}` is the name of a workflow the harness ships, and installing one of that name would silently replace it")

/-- A slug that passes is of the whitelisted characters, so Postgres can hold
it. -/
theorem hasNul_of_validateSlug {slug : String} (h : validateSlug slug = .ok ()) : hasNul slug = false := by
  have hall : slug.toList.all isSlugChar = true := by
    unfold validateSlug at h
    dsimp only at h
    by_cases hlen : (slug.isEmpty || decide (len slug > slugMax)) = true
    · rw [if_pos hlen] at h
      cases h
    · rw [if_neg hlen] at h
      by_cases hall : slug.toList.all isSlugChar = true
      · exact hall
      · rw [if_pos (by simpa using hall)] at h
        cases h
  have hzero : isSlugChar '\x00' = false := by decide
  unfold hasNul
  rw [Bool.eq_false_iff, ne_eq, List.contains_iff_mem]
  intro hm
  rw [List.all_eq_true.mp hall _ hm] at hzero
  cases hzero

def validateLen (field value : String) (max : ℕ) : Except Error Unit := do
  if (trim value).isEmpty then throw (.badRequest s!"{field} is required")
  if len value > max then throw (.badRequest s!"{field} must be at most {max} characters")

/-- One round of the loop of `validate_tags`. -/
def validateTag (tag : String) : Except Error Unit := do
  if tag.isEmpty || len tag > tagMax then
    throw (.badRequest s!"each tag must be 1-{tagMax} characters")
  if !tag.toList.all isSlugChar then
    throw (.badRequest "tags may contain only lowercase letters, digits and dashes")

def validateTags (tags : List String) : Except Error Unit := do
  if tags.length > tagsMax then throw (.badRequest s!"at most {tagsMax} tags")
  tags.forM validateTag

def validateYaml (yaml : String) (max : ℕ) : Except Error Unit := do
  if (trim yaml).isEmpty then throw (.badRequest "yaml is required")
  if len yaml > max then throw .tooLarge

/-! ### Requests -/

structure CreateWorkflow where
  slug : String
  title : String
  description : String
  tags : List String
  yaml : String
  changelog : Option String
deriving DecidableEq

structure PublishVersion where
  yaml : String
  changelog : Option String
deriving DecidableEq

structure UpdateWorkflow where
  title : Option String
  description : Option String
  tags : Option (List String)
deriving DecidableEq

structure RecordInstall where
  installationId : Uuid
  version : ℤ
deriving DecidableEq

/-- The `if let Some(c) = &self.changelog` of two of the validators. -/
def validateChangelog (changelog : Option String) : Except Error Unit := match changelog with
  | none => pure ()
  | some c => validateLen "changelog" c changelogMax

def CreateWorkflow.validate (body : CreateWorkflow) (maxYaml : ℕ) : Except Error Unit := do
  validateSlug body.slug
  validateLen "title" body.title titleMax
  validateLen "description" body.description descriptionMax
  validateTags body.tags
  validateYaml body.yaml maxYaml
  validateChangelog body.changelog

theorem CreateWorkflow.validate_slug {body : CreateWorkflow} {maxYaml : ℕ} (h : body.validate maxYaml = .ok ()) :
    validateSlug body.slug = .ok () := by
  unfold CreateWorkflow.validate at h
  cases hs : validateSlug body.slug with
  | error e => rw [hs] at h; cases h
  | ok u => rfl

def PublishVersion.validate (body : PublishVersion) (maxYaml : ℕ) : Except Error Unit := do
  validateYaml body.yaml maxYaml
  validateChangelog body.changelog

def UpdateWorkflow.validate (body : UpdateWorkflow) : Except Error Unit := do
  if let some t := body.title then validateLen "title" t titleMax
  if let some d := body.description then validateLen "description" d descriptionMax
  if let some tags := body.tags then validateTags tags
  if body.title.isNone && body.description.isNone && body.tags.isNone then
    throw (.badRequest "nothing to update")

/-! ### Responses -/

structure WorkflowSummary where
  slug : String
  title : String
  description : String
  tags : List String
  official : Bool
  publisher : String
  latestVersion : Option ℤ
  installs : ℕ
  updatedAt : Timestamp
deriving DecidableEq

structure VersionSummary where
  version : ℤ
  changelog : Option String
  publishedAt : Timestamp
  withdrawn : Bool
deriving DecidableEq

structure VersionDocument where
  slug : String
  version : ℤ
  yaml : String
  changelog : Option String
  publishedAt : Timestamp
  withdrawn : Bool
deriving DecidableEq

/-- The publisher a token authenticates as. -/
structure Me where
  githubLogin : String
  displayName : Option String
  avatarUrl : Option String
deriving DecidableEq

structure IssuedToken where
  publisherId : Uuid
  githubLogin : String
  name : String
  token : String
deriving DecidableEq

end HarnessRegistry

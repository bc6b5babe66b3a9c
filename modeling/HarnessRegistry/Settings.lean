/-
# Reading the configuration

`Config::from_env`, whole: which variables it reads, what it makes of each, and
what it falls back to. `Config` and `Rates` are the parts of the result that
handlers and limiters read. A number that does not parse, or that its type does
not hold, counts as not set.

What `from_env` can produce is exactly what is `WellFormed`: origins that are
trimmed, not empty and free of commas, and secrets that are not empty; every such
configuration is read back from the environment that spells it out
(`configurable_iff`).

Key definitions: `Environ`, `Settings`, `Settings.fromEnv`, `Settings.environ`,
`Settings.WellFormed`.
Key theorems: `fromEnv_wellFormed`, `fromEnv_environ`, `configurable_iff`.
-/
import HarnessRegistry.Config
import HarnessRegistry.Numerals
import HarnessRegistry.Replica

namespace HarnessRegistry

/-- What `env::var` says of each name. -/
abbrev Environ := String → Except VarError String

/-- `config::Config`, all of it; `usize` is a word of `w` bits. -/
structure Settings (w : ℕ) where
  databaseUrl : String
  bind : String
  corsOrigins : List String
  adminToken : Option String
  maxYamlBytes : BitVec w
  installRateLimit : UInt32
  installRateWindowSecs : UInt64
  githubClientId : Option String
  enrollRateLimit : UInt32
  enrollRateWindowSecs : UInt64
  minAccountAgeDays : Int64
  maxWorkflowsPerPublisher : Int64

/-- What the handlers read. -/
def Settings.config {w : ℕ} (c : Settings w) : Config :=
  ⟨c.adminToken, c.maxYamlBytes.toNat, c.minAccountAgeDays.toInt, c.maxWorkflowsPerPublisher.toInt⟩

/-- What the limiters are built from. -/
def Settings.rates {w : ℕ} (c : Settings w) : Rates :=
  ⟨c.installRateLimit, c.installRateWindowSecs.toNat, c.enrollRateLimit, c.enrollRateWindowSecs.toNat⟩

/-! ### Values -/

/-- `str::parse::<usize>`. -/
def parseUsize (w : ℕ) (v : String) : Option (BitVec w) :=
  (Numerals.unsigned (2 ^ w - 1) v.toList).map (BitVec.ofNat w)

/-- `str::parse::<u32>`. -/
def parseU32 (v : String) : Option UInt32 := (Numerals.unsigned (2 ^ 32 - 1) v.toList).map UInt32.ofNat

/-- `str::parse::<u64>`. -/
def parseU64 (v : String) : Option UInt64 := (Numerals.unsigned (2 ^ 64 - 1) v.toList).map UInt64.ofNat

/-- `str::parse::<i64>`. -/
def parseI64 (v : String) : Option Int64 := (Numerals.signed (2 ^ 63 - 1) v.toList).map Int64.ofInt

/-- `env::var(name).ok().and_then(|v| v.parse().ok()).unwrap_or(default)`. -/
def Environ.parsed {α : Type} (env : Environ) (name : String) (parse : String → Option α) (default : α) : α :=
  ((env name).toOption.bind parse).getD default

/-- `env::var(name).ok().filter(|v| !v.is_empty())`. -/
def Environ.nonEmpty (env : Environ) (name : String) : Option String := (env name).toOption.filter (!·.isEmpty)

/-- `….split(',').map(str::trim).filter(|s| !s.is_empty())`. -/
def originsOf (raw : String) : List String :=
  ((raw.toList.splitOn ',').map fun cs => trim (String.ofList cs)).filter (!·.isEmpty)

/-- A required variable that is missing. -/
structure MissingVar where
  name : String

/-- `Display for MissingVar`. -/
def MissingVar.message (e : MissingVar) : String := s!"{e.name} is required"

/-- `Config::from_env`. -/
def Settings.fromEnv (w : ℕ) (env : Environ) : Except MissingVar (Settings w) := do
  let databaseUrl ← (env "DATABASE_URL").mapError fun _ => ⟨"DATABASE_URL"⟩
  return {
    databaseUrl
    bind := (env "BIND_ADDR").toOption.getD "0.0.0.0:8080"
    corsOrigins := originsOf ((env "CORS_ALLOW_ORIGINS").toOption.getD "")
    adminToken := env.nonEmpty "ADMIN_TOKEN"
    maxYamlBytes := env.parsed "MAX_YAML_BYTES" (parseUsize w) (BitVec.ofNat w (256 * 1024))
    installRateLimit := env.parsed "INSTALL_RATE_LIMIT" parseU32 60
    installRateWindowSecs := env.parsed "INSTALL_RATE_WINDOW_SECS" parseU64 60
    githubClientId := env.nonEmpty "GITHUB_CLIENT_ID"
    enrollRateLimit := env.parsed "ENROLL_RATE_LIMIT" parseU32 10
    enrollRateWindowSecs := env.parsed "ENROLL_RATE_WINDOW_SECS" parseU64 3600
    minAccountAgeDays := env.parsed "MIN_ACCOUNT_AGE_DAYS" parseI64 30
    maxWorkflowsPerPublisher := env.parsed "MAX_WORKFLOWS_PER_PUBLISHER" parseI64 25 }

/-! ### Writing a configuration down -/

/-- An origin that a list of origins can hold. -/
structure IsOrigin (o : String) : Prop where
  trimmed : trim o = o
  nonEmpty : o.isEmpty = false
  noComma : ',' ∉ o.toList

/-- What `from_env` makes of any environment. -/
structure Settings.WellFormed {w : ℕ} (c : Settings w) : Prop where
  origins : ∀ o ∈ c.corsOrigins, IsOrigin o
  adminToken : ∀ t ∈ c.adminToken, t.isEmpty = false
  githubClientId : ∀ t ∈ c.githubClientId, t.isEmpty = false

/-- Origins with commas between them. -/
def joinOrigins (os : List String) : String := String.ofList ([','].intercalate (os.map String.toList))

/-- A variable that may be unset. -/
def varOf : Option String → Except VarError String
  | none => .error .notPresent
  | some v => .ok v

/-- The environment that spells the configuration out. -/
def Settings.environ {w : ℕ} (c : Settings w) : Environ := fun name =>
  if name = "DATABASE_URL" then .ok c.databaseUrl
  else if name = "BIND_ADDR" then .ok c.bind
  else if name = "CORS_ALLOW_ORIGINS" then .ok (joinOrigins c.corsOrigins)
  else if name = "ADMIN_TOKEN" then varOf c.adminToken
  else if name = "MAX_YAML_BYTES" then .ok c.maxYamlBytes.toNat.repr
  else if name = "INSTALL_RATE_LIMIT" then .ok c.installRateLimit.toNat.repr
  else if name = "INSTALL_RATE_WINDOW_SECS" then .ok c.installRateWindowSecs.toNat.repr
  else if name = "GITHUB_CLIENT_ID" then varOf c.githubClientId
  else if name = "ENROLL_RATE_LIMIT" then .ok c.enrollRateLimit.toNat.repr
  else if name = "ENROLL_RATE_WINDOW_SECS" then .ok c.enrollRateWindowSecs.toNat.repr
  else if name = "MIN_ACCOUNT_AGE_DAYS" then .ok c.minAccountAgeDays.toInt.repr
  else if name = "MAX_WORKFLOWS_PER_PUBLISHER" then .ok c.maxWorkflowsPerPublisher.toInt.repr
  else .error .notPresent

section Values

variable {w : ℕ}

theorem parseUsize_repr (x : BitVec w) : parseUsize w x.toNat.repr = some x := by
  have := x.isLt
  rw [parseUsize, Numerals.unsigned_repr (by omega), Option.map_some, BitVec.ofNat_toNat, BitVec.setWidth_eq]

theorem parseU32_repr (x : UInt32) : parseU32 x.toNat.repr = some x := by
  have := x.toNat_lt
  rw [parseU32, Numerals.unsigned_repr (by omega), Option.map_some, UInt32.ofNat_toNat]

theorem parseU64_repr (x : UInt64) : parseU64 x.toNat.repr = some x := by
  have := x.toNat_lt
  rw [parseU64, Numerals.unsigned_repr (by omega), Option.map_some, UInt64.ofNat_toNat]

theorem parseI64_repr (x : Int64) : parseI64 x.toInt.repr = some x := by
  have hlo := x.le_toInt
  have hhi := x.toInt_lt
  rw [parseI64, Numerals.signed_repr (by omega) (by omega), Option.map_some, Int64.ofInt_toInt]

/-- No piece of a split text holds the separator. -/
theorem not_mem_splitOn {α : Type} [BEq α] [LawfulBEq α] {a : α} : ∀ {xs : List α}, ∀ ys ∈ xs.splitOn a, a ∉ ys
  | [], ys, h => by
    rw [List.splitOn_nil, List.mem_singleton] at h
    simp [h]
  | x :: xs, ys, h => by
    have ih : ∀ ys ∈ xs.splitOn a, a ∉ ys := not_mem_splitOn
    rw [List.splitOn_cons_eq_if_modifyHead] at h
    split at h
    · rcases List.mem_cons.mp h with rfl | h
      · exact List.not_mem_nil
      · exact ih ys h
    · rename_i hx
      have hx : x ≠ a := by simpa using hx
      cases hs : xs.splitOn a with
      | nil => exact absurd hs (List.splitOn_ne_nil a xs)
      | cons z zs =>
        rw [hs, List.modifyHead_cons] at h
        rcases List.mem_cons.mp h with rfl | h
        · intro hmem
          rcases List.mem_cons.mp hmem with rfl | hmem
          · exact hx rfl
          · exact ih z (by rw [hs]; exact List.mem_cons_self) hmem
        · exact ih ys (by rw [hs]; exact List.mem_cons_of_mem _ h)

/-- What is read is a list of origins. -/
theorem isOrigin_of_mem {raw o : String} (h : o ∈ originsOf raw) : IsOrigin o := by
  obtain ⟨h, hne⟩ := List.mem_filter.mp h
  obtain ⟨cs, hcs, rfl⟩ := List.mem_map.mp h
  refine ⟨trim_trim _, by simpa using hne, fun hc => ?_⟩
  have hmem := (mem_trim_iff (by decide)).mp hc
  rw [String.toList_ofList] at hmem
  exact not_mem_splitOn cs hcs hmem

/-- A list of origins is read back. -/
theorem originsOf_join {os : List String} (h : ∀ o ∈ os, IsOrigin o) : originsOf (joinOrigins os) = os := by
  have hkept : os.map ((fun cs => trim (String.ofList cs)) ∘ String.toList) = os := by
    conv_rhs => rw [← List.map_id os]
    refine List.map_congr_left fun o ho => ?_
    rw [Function.comp_apply, String.ofList_toList]
    exact (h o ho).trimmed
  unfold originsOf joinOrigins
  rw [String.toList_ofList]
  by_cases hnil : os = []
  · subst hnil
    decide
  · rw [List.splitOn_intercalate ',' (fun l hl => ?_) (by simpa using hnil), List.map_map]
    · rw [hkept, List.filter_eq_self]
      exact fun o ho => by simp [(h o ho).nonEmpty]
    · obtain ⟨o, ho, rfl⟩ := List.mem_map.mp hl
      exact (h o ho).noComma

theorem varOf_nonEmpty {v : Option String} (h : ∀ t ∈ v, t.isEmpty = false) :
    (varOf v).toOption.filter (!·.isEmpty) = v := by
  cases v with
  | none => rfl
  | some t => simp [varOf, Except.toOption, h t rfl]

end Values

variable {w : ℕ}

theorem fromEnv_wellFormed {env : Environ} {c : Settings w} (h : Settings.fromEnv w env = .ok c) : c.WellFormed := by
  unfold Settings.fromEnv at h
  cases hurl : env "DATABASE_URL" with
  | error e => rw [hurl] at h; cases h
  | ok url =>
    rw [hurl] at h
    cases h
    refine ⟨fun o ho => isOrigin_of_mem ho, fun t ht => ?_, fun t ht => ?_⟩
    · simpa using (Option.filter_eq_some_iff.mp ht).2
    · simpa using (Option.filter_eq_some_iff.mp ht).2

theorem fromEnv_environ {c : Settings w} (h : c.WellFormed) : Settings.fromEnv w c.environ = .ok c := by
  have hurl : c.environ "DATABASE_URL" = .ok c.databaseUrl := rfl
  have hbind : c.environ "BIND_ADDR" = .ok c.bind := rfl
  have horigins : c.environ "CORS_ALLOW_ORIGINS" = .ok (joinOrigins c.corsOrigins) := rfl
  have hadmin : c.environ.nonEmpty "ADMIN_TOKEN" = c.adminToken := varOf_nonEmpty h.adminToken
  have hclient : c.environ.nonEmpty "GITHUB_CLIENT_ID" = c.githubClientId := varOf_nonEmpty h.githubClientId
  -- a number is read back
  have number : ∀ {α : Type} (name : String) {parse : String → Option α} {x : α} (v : String) (default : α),
      c.environ name = .ok v → parse v = some x → c.environ.parsed name parse default = x := by
    intro α name parse x v default hv hp
    simp only [Environ.parsed, hv, Except.toOption, Option.bind_some, hp, Option.getD_some]
  unfold Settings.fromEnv
  rw [hurl, hbind, horigins, hadmin, hclient,
    number "MAX_YAML_BYTES" _ _ rfl (parseUsize_repr c.maxYamlBytes),
    number "INSTALL_RATE_LIMIT" _ _ rfl (parseU32_repr c.installRateLimit),
    number "INSTALL_RATE_WINDOW_SECS" _ _ rfl (parseU64_repr c.installRateWindowSecs),
    number "ENROLL_RATE_LIMIT" _ _ rfl (parseU32_repr c.enrollRateLimit),
    number "ENROLL_RATE_WINDOW_SECS" _ _ rfl (parseU64_repr c.enrollRateWindowSecs),
    number "MIN_ACCOUNT_AGE_DAYS" _ _ rfl (parseI64_repr c.minAccountAgeDays),
    number "MAX_WORKFLOWS_PER_PUBLISHER" _ _ rfl (parseI64_repr c.maxWorkflowsPerPublisher)]
  simp only [Except.toOption, Option.getD_some, originsOf_join h.origins]
  rfl

/-- **What can be configured can be written down again.** A configuration comes
out of some environment exactly if it comes out of the one that spells it out,
which are those that are well formed. Environments hold any text here; that of a
process holds no U+0000, and gives those of the well-formed ones that hold none. -/
theorem configurable_iff (c : Settings w) :
    ((∃ env, Settings.fromEnv w env = .ok c) ↔ c.WellFormed) ∧
      (c.WellFormed ↔ Settings.fromEnv w c.environ = .ok c) :=
  ⟨⟨fun ⟨_, h⟩ => fromEnv_wellFormed h, fun h => ⟨_, fromEnv_environ h⟩⟩, fromEnv_environ, fromEnv_wellFormed⟩

end HarnessRegistry

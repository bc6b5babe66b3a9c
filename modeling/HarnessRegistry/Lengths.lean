/-
# Lengths of texts

The messages of `validate_len` speak of characters, and `me::update` counts them;
`validate_len` itself counts bytes. A text within its limit in characters and
beyond it in bytes is refused as too long (`Misjudged`), by any of the three
validators whose turn comes to it. Every other text is judged as the message
says (`lengths_iff`).

Key definitions: `Misjudged`, `tooLong`, `Judges`, `inOrder`.
Key theorems: `length_le_len`, `counts_iff`, `inOrder_refuses_iff`, `judges_iff`, `lengths_iff`.
-/
import HarnessRegistry.Accounts
import HarnessRegistry.Slug
import Mathlib.Algebra.BigOperators.Group.List.Basic
import Mathlib.Algebra.GroupWithZero.Nat

namespace HarnessRegistry

/-! ### Bytes and characters -/

theorem len_eq_sum (s : String) : len s = (s.toList.map Char.utf8Size).sum := by
  have hlist : ∀ cs : List Char, len (String.ofList cs) = (cs.map Char.utf8Size).sum := by
    intro cs
    induction cs with
    | nil => rfl
    | cons c cs ih =>
      rw [List.map_cons, List.sum_cons, ← ih, String.ofList_cons, len, String.utf8ByteSize_append,
        String.utf8ByteSize_singleton]
      rfl
  rw [← hlist, String.ofList_toList]

/-- A character is at least one byte. -/
theorem length_le_len (s : String) : s.toList.length ≤ len s := by
  rw [len_eq_sum, ← List.length_map (f := Char.utf8Size)]
  refine List.length_le_sum_of_one_le _ fun n hn => ?_
  obtain ⟨c, -, rfl⟩ := List.mem_map.mp hn
  exact c.utf8Size_pos

/-! ### One text -/

/-- The text passes `validate_len`. -/
def Fits (s : String) (max : ℕ) : Prop := (trim s).isEmpty = false ∧ len s ≤ max

theorem validateLen_iff_fits {field s : String} {max : ℕ} : validateLen field s max = .ok () ↔ Fits s max :=
  validateLen_ok_iff

/-- It is within the limit in characters, and beyond it in bytes. -/
def Misjudged (s : String) (max : ℕ) : Prop := (trim s).isEmpty = false ∧ s.toList.length ≤ max ∧ max < len s

/-- The refusal of a text that is too long. -/
def tooLong (field : String) (max : ℕ) : Error := .badRequest s!"{field} must be at most {max} characters"

theorem counts_iff (field s : String) (max : ℕ) :
    (validateLen field s max = .ok () ↔ (∃ c ∈ s.toList, isWhitespace c = false) ∧ s.toList.length ≤ max) ↔
      ¬ Misjudged s max := by
  have hlen := length_le_len s
  rw [validateLen_ok_iff, ← trim_isEmpty, Misjudged]
  constructor
  · rintro h ⟨hblank, hcount, hbytes⟩
    have := (h.mpr ⟨hblank, hcount⟩).2
    omega
  · intro h
    refine and_congr_right fun hblank => ⟨fun hbytes => hlen.trans hbytes, fun hcount => ?_⟩
    by_contra hbytes
    exact h ⟨hblank, hcount, Nat.not_le.mp hbytes⟩

/-! ### Validators -/

/-- One verdict after another, until one refuses. -/
def inOrder : List (Except Error Unit) → Except Error Unit
  | [] => .ok ()
  | v :: vs => do
    v
    inOrder vs

theorem inOrder_ok_iff : ∀ {vs : List (Except Error Unit)}, inOrder vs = .ok () ↔ ∀ v ∈ vs, v = .ok ()
  | [] => by simp [inOrder]
  | v :: vs => by
    rw [List.forall_mem_cons, ← inOrder_ok_iff]
    exact both_ok_iff

theorem mem_of_refused {e : Error} : ∀ {vs : List (Except Error Unit)}, inOrder vs = .error e → .error e ∈ vs
  | .error e' :: vs, h => by
    obtain rfl := Except.error.inj h
    exact List.mem_cons_self
  | .ok u :: vs, h => List.mem_cons_of_mem _ (mem_of_refused h)

/-- A refusal that only one of them makes is made if its turn comes. -/
theorem inOrder_refuses_iff {v : Except Error Unit} {e : Error} {pre post : List (Except Error Unit)}
    (hpre : ∀ x ∈ pre, x ≠ .error e) (hpost : ∀ x ∈ post, x ≠ .error e) :
    inOrder (pre ++ v :: post) = .error e ↔ (∀ x ∈ pre, x = .ok ()) ∧ v = .error e := by
  induction pre with
  | nil =>
    cases v with
    | error e' => simp [inOrder, bind, Except.bind]
    | ok u => simpa [inOrder, bind, Except.bind] using fun h => hpost _ (mem_of_refused h) rfl
  | cons x pre ih =>
    obtain ⟨hx, hrest⟩ := List.forall_mem_cons.mp hpre
    cases x with
    | error e' => simpa [inOrder, bind, Except.bind] using fun he => absurd (congrArg Except.error he) hx
    | ok u => simpa [inOrder, bind, Except.bind] using ih hrest

/-- The validator accepts no text beyond its limit in characters, and refuses none
within it as too long. -/
structure Judges (verdict : Except Error Unit) (field s : String) (max : ℕ) : Prop where
  accepted : verdict = .ok () → s.toList.length ≤ max
  refused : verdict = .error (tooLong field max) → max < s.toList.length

/-- The refusals of texts that are too long. -/
def lengthRefusals : List Error :=
  [tooLong "title" titleMax, tooLong "description" descriptionMax, tooLong "changelog" changelogMax]

theorem validateLen_refuses_iff {field s : String} {max : ℕ} (h : Error.badRequest s!"{field} is required" ≠ tooLong field max) :
    validateLen field s max = .error (tooLong field max) ↔ (trim s).isEmpty = false ∧ max < len s := by
  have hlast : (if len s > max then throw (tooLong field max) else pure () : Except Error Unit) = .error (tooLong field max) ↔
      max < len s := by
    by_cases hm : max < len s
    · simp [hm, throw, throwThe, MonadExceptOf.throw]
    · simp [hm, pure, Except.pure]
  unfold validateLen
  rw [check_refuses_iff h, Bool.not_eq_true]
  exact and_congr_right' hlast

/-- **A text whose turn comes is judged by its characters** unless it is within
them and beyond them in bytes. -/
theorem judges_iff {field s : String} {max : ℕ} {pre post : List (Except Error Unit)}
    (hname : Error.badRequest s!"{field} is required" ≠ tooLong field max)
    (hpre : ∀ x ∈ pre, x ≠ .error (tooLong field max)) (hpost : ∀ x ∈ post, x ≠ .error (tooLong field max)) :
    Judges (inOrder (pre ++ validateLen field s max :: post)) field s max ↔ ((∀ x ∈ pre, x = .ok ()) → ¬ Misjudged s max) := by
  have hlen := length_le_len s
  constructor
  · rintro h hturn ⟨hblank, hcount, hbytes⟩
    have := h.refused ((inOrder_refuses_iff hpre hpost).mpr ⟨hturn, (validateLen_refuses_iff hname).mpr ⟨hblank, hbytes⟩⟩)
    omega
  · refine fun h => ⟨fun hok => ?_, fun hno => ?_⟩
    · have hok := inOrder_ok_iff.mp hok (validateLen field s max) (by simp)
      exact hlen.trans (validateLen_ok_iff.mp hok).2
    · obtain ⟨hturn, hno⟩ := (inOrder_refuses_iff hpre hpost).mp hno
      obtain ⟨hblank, hbytes⟩ := (validateLen_refuses_iff hname).mp hno
      by_contra hcount
      exact h hturn ⟨hblank, Nat.not_lt.mp hcount, hbytes⟩

/-! The other checks say something else. -/

/-- A check that refuses otherwise, or not at all. -/
theorem check_ne {c : Prop} [Decidable c] {e e' : Error} {k : Except Error Unit} (h : e ≠ e') (hk : k ≠ .error e') : (do
    if c then throw e
    k : Except Error Unit) ≠ .error e' := fun hno => hk ((check_refuses_iff h).mp hno).2

theorem last_ne {c : Prop} [Decidable c] {e e' : Error} (h : e ≠ e') :
    (if c then throw e else pure () : Except Error Unit) ≠ .error e' := by
  split
  · exact fun hno => h (Except.error.inj hno)
  · rintro ⟨⟩

theorem validateSlug_ne (s : String) {e : Error} (he : e ∈ lengthRefusals) : validateSlug s ≠ .error e := by
  have hconst : ∀ e ∈ lengthRefusals, Error.badRequest s!"slug must be 1-{slugMax} characters" ≠ e ∧
      Error.badRequest "slug may contain only lowercase letters, digits and dashes" ≠ e ∧
      Error.badRequest "slug may not start or end with a dash, or contain a double dash" ≠ e := by
    decide +kernel
  have hreserved : reservation s ≠ e := by
    have htexts : ∀ e ∈ lengthRefusals, ∃ text : String, e = .badRequest text ∧ text.toList.head? ≠ some (Char.ofNat 96) := by
      simp only [lengthRefusals, List.forall_mem_cons]
      exact ⟨⟨_, rfl, by decide +kernel⟩, ⟨_, rfl, by decide +kernel⟩, ⟨_, rfl, by decide +kernel⟩, List.forall_mem_nil _⟩
    obtain ⟨text, rfl, htext⟩ := htexts e he
    exact (ne_reservation s htext).symm
  obtain ⟨hlen, hchars, hdash⟩ := hconst e he
  unfold validateSlug
  exact check_ne hlen (check_ne hchars (check_ne hdash (last_ne hreserved)))

theorem validateTags_ne (tags : List String) {e : Error} (he : e ∈ lengthRefusals) : validateTags tags ≠ .error e := by
  have hconst : ∀ e ∈ lengthRefusals, Error.badRequest s!"at most {tagsMax} tags" ≠ e ∧
      Error.badRequest s!"each tag must be 1-{tagMax} characters" ≠ e ∧
      Error.badRequest "tags may contain only lowercase letters, digits and dashes" ≠ e := by
    decide +kernel
  obtain ⟨hcount, hlen, hchars⟩ := hconst e he
  refine check_ne hcount ?_
  induction tags with
  | nil => rintro ⟨⟩
  | cons tag tags ih =>
    have htag : validateTag tag ≠ .error e := check_ne hlen (last_ne hchars)
    show (do
      validateTag tag
      tags.forM validateTag : Except Error Unit) ≠ .error e
    cases hverdict : validateTag tag with
    | error e' => exact fun hno => htag (hverdict.trans hno)
    | ok u => exact ih

theorem validateYaml_ne (yaml : String) (max : ℕ) {e : Error} (he : e ∈ lengthRefusals) : validateYaml yaml max ≠ .error e := by
  have hconst : ∀ e ∈ lengthRefusals, Error.badRequest "yaml is required" ≠ e ∧ Error.tooLarge ≠ e := by decide +kernel
  obtain ⟨hblank, hlarge⟩ := hconst e he
  unfold validateYaml
  exact check_ne hblank (last_ne hlarge)

theorem validateLen_ne {field : String} {max : ℕ} {e : Error} (hblank : Error.badRequest s!"{field} is required" ≠ e)
    (hlong : tooLong field max ≠ e) (s : String) : validateLen field s max ≠ .error e := by
  unfold validateLen
  exact check_ne hblank (last_ne hlong)

/-! ### The three validators

Each is its verdicts in order. -/

/-- The verdict on a changelog that is supplied. -/
def changelogVerdicts (changelog : Option String) : List (Except Error Unit) :=
  changelog.toList.map fun c => validateLen "changelog" c changelogMax

theorem inOrder_changelog : ∀ changelog : Option String, inOrder (changelogVerdicts changelog) = validateChangelog changelog
  | none => rfl
  | some c => by
    show (do
      validateLen "changelog" c changelogMax
      inOrder []) = validateLen "changelog" c changelogMax
    cases validateLen "changelog" c changelogMax <;> rfl

theorem CreateWorkflow.validate_eq (body : CreateWorkflow) (maxYaml : ℕ) : body.validate maxYaml = inOrder
    ([validateSlug body.slug, validateLen "title" body.title titleMax, validateLen "description" body.description descriptionMax,
      validateTags body.tags, validateYaml body.yaml maxYaml] ++ changelogVerdicts body.changelog) := by
  unfold CreateWorkflow.validate
  rw [← inOrder_changelog]
  rfl

theorem PublishVersion.validate_eq (body : PublishVersion) (maxYaml : ℕ) :
    body.validate maxYaml = inOrder (validateYaml body.yaml maxYaml :: changelogVerdicts body.changelog) := by
  unfold PublishVersion.validate
  rw [← inOrder_changelog]
  rfl

/-- The last verdict on an update: something is supplied. -/
def UpdateWorkflow.supplied (body : UpdateWorkflow) : Except Error Unit :=
  if body.title.isNone && body.description.isNone && body.tags.isNone then throw (.badRequest "nothing to update")
  else pure ()

theorem UpdateWorkflow.validate_eq (body : UpdateWorkflow) : body.validate = inOrder
    ((body.title.toList.map fun t => validateLen "title" t titleMax) ++
      ((body.description.toList.map fun d => validateLen "description" d descriptionMax) ++
        (body.tags.toList.map validateTags ++ [body.supplied]))) := by
  have hlast : ∀ v : Except Error Unit, (do v; .ok ()) = v := fun v => by cases v <;> rfl
  obtain ⟨title, description, tags⟩ := body
  unfold UpdateWorkflow.validate
  -- a field that is not supplied has no verdict
  cases title <;> cases description <;> cases tags <;> simp [inOrder, UpdateWorkflow.supplied, hlast]

/-! ### Who is judged by characters -/

/-- No text of a new entry whose turn comes is misjudged. -/
structure CreateWorkflow.Spared (body : CreateWorkflow) (maxYaml : ℕ) : Prop where
  title : validateSlug body.slug = .ok () → ¬ Misjudged body.title titleMax
  description : validateSlug body.slug = .ok () → Fits body.title titleMax → ¬ Misjudged body.description descriptionMax
  changelog : validateSlug body.slug = .ok () → Fits body.title titleMax → Fits body.description descriptionMax →
    validateTags body.tags = .ok () → validateYaml body.yaml maxYaml = .ok () →
      ∀ c ∈ body.changelog, ¬ Misjudged c changelogMax

/-- No text of an update whose turn comes is misjudged. -/
structure UpdateWorkflow.Spared (body : UpdateWorkflow) : Prop where
  title : ∀ t ∈ body.title, ¬ Misjudged t titleMax
  description : (∀ t ∈ body.title, Fits t titleMax) → ∀ d ∈ body.description, ¬ Misjudged d descriptionMax

theorem mem_title : tooLong "title" titleMax ∈ lengthRefusals := by simp [lengthRefusals]

theorem mem_description : tooLong "description" descriptionMax ∈ lengthRefusals := by simp [lengthRefusals]

theorem mem_changelog : tooLong "changelog" changelogMax ∈ lengthRefusals := by simp [lengthRefusals]

theorem changelogVerdicts_ne {changelog : Option String} {e : Error}
    (h : e = tooLong "title" titleMax ∨ e = tooLong "description" descriptionMax) :
    ∀ x ∈ changelogVerdicts changelog, x ≠ .error e := by
  unfold changelogVerdicts
  rw [List.forall_mem_map]
  rintro c -
  rcases h with rfl | rfl
  · exact validateLen_ne (by decide +kernel) (by decide +kernel) c
  · exact validateLen_ne (by decide +kernel) (by decide +kernel) c

theorem create_title (body : CreateWorkflow) (maxYaml : ℕ) : Judges (body.validate maxYaml) "title" body.title titleMax ↔
    (validateSlug body.slug = .ok () → ¬ Misjudged body.title titleMax) := by
  have hpost : ∀ x ∈ validateLen "description" body.description descriptionMax :: validateTags body.tags ::
      validateYaml body.yaml maxYaml :: changelogVerdicts body.changelog, x ≠ .error (tooLong "title" titleMax) := by
    simp only [List.forall_mem_cons]
    exact ⟨validateLen_ne (by decide +kernel) (by decide +kernel) _, validateTags_ne _ mem_title,
      validateYaml_ne _ _ mem_title, changelogVerdicts_ne (.inl rfl)⟩
  have hpre : ∀ x ∈ [validateSlug body.slug], x ≠ .error (tooLong "title" titleMax) :=
    List.forall_mem_singleton.mpr (validateSlug_ne _ mem_title)
  have h := judges_iff (s := body.title) (by decide +kernel) hpre hpost
  rw [List.forall_mem_singleton] at h
  rw [CreateWorkflow.validate_eq]
  exact h

theorem create_description (body : CreateWorkflow) (maxYaml : ℕ) :
    Judges (body.validate maxYaml) "description" body.description descriptionMax ↔
      (validateSlug body.slug = .ok () → Fits body.title titleMax → ¬ Misjudged body.description descriptionMax) := by
  have hpre : ∀ x ∈ [validateSlug body.slug, validateLen "title" body.title titleMax],
      x ≠ .error (tooLong "description" descriptionMax) := by
    simp only [List.forall_mem_cons]
    exact ⟨validateSlug_ne _ mem_description, validateLen_ne (by decide +kernel) (by decide +kernel) _, List.forall_mem_nil _⟩
  have hpost : ∀ x ∈ validateTags body.tags :: validateYaml body.yaml maxYaml :: changelogVerdicts body.changelog,
      x ≠ .error (tooLong "description" descriptionMax) := by
    simp only [List.forall_mem_cons]
    exact ⟨validateTags_ne _ mem_description, validateYaml_ne _ _ mem_description, changelogVerdicts_ne (.inr rfl)⟩
  have h := judges_iff (s := body.description) (by decide +kernel) hpre hpost
  rw [List.forall_mem_cons, List.forall_mem_singleton, and_imp, validateLen_iff_fits] at h
  rw [CreateWorkflow.validate_eq]
  exact h

/-- The changelog comes last, of a new entry or of a version. -/
theorem judges_changelog {pre : List (Except Error Unit)} {changelog : Option String}
    (hpre : ∀ x ∈ pre, x ≠ .error (tooLong "changelog" changelogMax)) :
    (∀ c ∈ changelog, Judges (inOrder (pre ++ changelogVerdicts changelog)) "changelog" c changelogMax) ↔
      ((∀ x ∈ pre, x = .ok ()) → ∀ c ∈ changelog, ¬ Misjudged c changelogMax) := by
  cases changelog with
  | none => exact ⟨fun _ _ c hc => (by cases hc), fun _ c hc => (by cases hc)⟩
  | some c =>
    simp only [Option.mem_some_iff, forall_eq']
    exact judges_iff (by decide +kernel) hpre (List.forall_mem_nil _)

theorem create_changelog (body : CreateWorkflow) (maxYaml : ℕ) :
    (∀ c ∈ body.changelog, Judges (body.validate maxYaml) "changelog" c changelogMax) ↔
      (validateSlug body.slug = .ok () → Fits body.title titleMax → Fits body.description descriptionMax →
        validateTags body.tags = .ok () → validateYaml body.yaml maxYaml = .ok () →
          ∀ c ∈ body.changelog, ¬ Misjudged c changelogMax) := by
  have hpre : ∀ x ∈ [validateSlug body.slug, validateLen "title" body.title titleMax,
      validateLen "description" body.description descriptionMax, validateTags body.tags, validateYaml body.yaml maxYaml],
      x ≠ .error (tooLong "changelog" changelogMax) := by
    simp only [List.forall_mem_cons]
    exact ⟨validateSlug_ne _ mem_changelog, validateLen_ne (by decide +kernel) (by decide +kernel) _,
      validateLen_ne (by decide +kernel) (by decide +kernel) _, validateTags_ne _ mem_changelog,
      validateYaml_ne _ _ mem_changelog, List.forall_mem_nil _⟩
  rw [CreateWorkflow.validate_eq, judges_changelog hpre]
  simp only [List.forall_mem_cons, List.not_mem_nil, false_imp_iff, implies_true, and_true, and_imp, validateLen_iff_fits]

theorem publish_changelog (body : PublishVersion) (maxYaml : ℕ) :
    (∀ c ∈ body.changelog, Judges (body.validate maxYaml) "changelog" c changelogMax) ↔
      (validateYaml body.yaml maxYaml = .ok () → ∀ c ∈ body.changelog, ¬ Misjudged c changelogMax) := by
  have hpre : ∀ x ∈ [validateYaml body.yaml maxYaml], x ≠ .error (tooLong "changelog" changelogMax) :=
    List.forall_mem_singleton.mpr (validateYaml_ne _ _ mem_changelog)
  rw [PublishVersion.validate_eq, ← List.singleton_append, judges_changelog hpre, List.forall_mem_singleton]

theorem supplied_ne (body : UpdateWorkflow) {e : Error} (he : e ∈ lengthRefusals) : body.supplied ≠ .error e := by
  have hconst : ∀ e ∈ lengthRefusals, Error.badRequest "nothing to update" ≠ e := by decide +kernel
  exact last_ne (hconst e he)

theorem update_title (body : UpdateWorkflow) :
    (∀ t ∈ body.title, Judges body.validate "title" t titleMax) ↔ ∀ t ∈ body.title, ¬ Misjudged t titleMax := by
  refine forall₂_congr fun t ht => ?_
  have hpost : ∀ x ∈ (body.description.toList.map fun d => validateLen "description" d descriptionMax) ++
      (body.tags.toList.map validateTags ++ [body.supplied]), x ≠ .error (tooLong "title" titleMax) := by
    simp only [List.forall_mem_append, List.forall_mem_map, List.forall_mem_singleton]
    exact ⟨fun d _ => validateLen_ne (by decide +kernel) (by decide +kernel) d, fun tags _ => validateTags_ne tags mem_title,
      supplied_ne body mem_title⟩
  have hpre : ∀ x ∈ ([] : List (Except Error Unit)), x ≠ .error (tooLong "title" titleMax) := List.forall_mem_nil _
  have h := judges_iff (s := t) (by decide +kernel) hpre hpost
  simp only [List.not_mem_nil, false_imp_iff, implies_true, true_imp_iff] at h
  rw [← h, UpdateWorkflow.validate_eq, Option.mem_def.mp ht, Option.toList_some, List.map_singleton, List.singleton_append,
    List.nil_append]

theorem update_description (body : UpdateWorkflow) :
    (∀ d ∈ body.description, Judges body.validate "description" d descriptionMax) ↔
      ((∀ t ∈ body.title, Fits t titleMax) → ∀ d ∈ body.description, ¬ Misjudged d descriptionMax) := by
  have hpre : ∀ x ∈ body.title.toList.map fun t => validateLen "title" t titleMax,
      x ≠ .error (tooLong "description" descriptionMax) := by
    rw [List.forall_mem_map]
    exact fun t _ => validateLen_ne (by decide +kernel) (by decide +kernel) t
  have hturn : (∀ x ∈ body.title.toList.map fun t => validateLen "title" t titleMax, x = .ok ()) ↔
      ∀ t ∈ body.title, Fits t titleMax := by
    simp only [List.forall_mem_map, Option.mem_toList, validateLen_iff_fits, Option.mem_def]
  have hpost : ∀ x ∈ body.tags.toList.map validateTags ++ [body.supplied], x ≠ .error (tooLong "description" descriptionMax) := by
    simp only [List.forall_mem_append, List.forall_mem_map, List.forall_mem_singleton]
    exact ⟨fun tags _ => validateTags_ne tags mem_description, supplied_ne body mem_description⟩
  have h : ∀ d ∈ body.description, Judges body.validate "description" d descriptionMax ↔
      ((∀ t ∈ body.title, Fits t titleMax) → ¬ Misjudged d descriptionMax) := by
    intro d hd
    rw [UpdateWorkflow.validate_eq, Option.mem_def.mp hd, ← hturn, Option.toList_some, List.map_singleton,
      List.singleton_append]
    exact judges_iff (by decide +kernel) hpre hpost
  exact ⟨fun hj hturn d hd => (h d hd).mp (hj d hd) hturn, fun hm d hd => (h d hd).mpr fun hturn => hm hturn d hd⟩

/-- The display name is judged by its characters. -/
theorem update_refuses_iff (publisher : Publisher) (body : UpdateMe) :
    Me.update publisher body = throw (.badRequest "display name is too long") ↔
      ∃ n ∈ body.displayName, 60 < (trim n).toList.length := by
  obtain ⟨name⟩ := body
  have hquery : ∀ (q : Stmt) (k : q.Res → Handler Reply) (e : Error), (Handler.query q >>= k) ≠ throw e := by
    intro q k e h
    cases h
  cases name with
  | none =>
    refine ⟨fun h => absurd h (hquery _ _ _), ?_⟩
    rintro ⟨n, ⟨⟩, -⟩
  | some n =>
    by_cases hn : 60 < (trim n).toList.length
    · refine ⟨fun _ => ⟨n, rfl, hn⟩, fun _ => ?_⟩
      simp [Me.update, hn]
    · simpa [Me.update, hn] using hquery _ _ _

/-- **`validate_len` and the three validators count characters exactly when no
text whose turn comes is within its limit in characters and beyond it in
bytes**; the display name is counted in characters throughout. -/
theorem lengths_iff (maxYaml : ℕ) :
    (∀ (field s : String) (max : ℕ),
      (validateLen field s max = .ok () ↔ (∃ c ∈ s.toList, isWhitespace c = false) ∧ s.toList.length ≤ max) ↔
        ¬ Misjudged s max) ∧
    (∀ body : CreateWorkflow,
      Judges (body.validate maxYaml) "title" body.title titleMax ∧
          Judges (body.validate maxYaml) "description" body.description descriptionMax ∧
          (∀ c ∈ body.changelog, Judges (body.validate maxYaml) "changelog" c changelogMax) ↔
        body.Spared maxYaml) ∧
    (∀ body : PublishVersion,
      (∀ c ∈ body.changelog, Judges (body.validate maxYaml) "changelog" c changelogMax) ↔
        (validateYaml body.yaml maxYaml = .ok () → ∀ c ∈ body.changelog, ¬ Misjudged c changelogMax)) ∧
    (∀ body : UpdateWorkflow,
      (∀ t ∈ body.title, Judges body.validate "title" t titleMax) ∧
          (∀ d ∈ body.description, Judges body.validate "description" d descriptionMax) ↔
        body.Spared) ∧
    ∀ (publisher : Publisher) (body : UpdateMe),
      Me.update publisher body = throw (.badRequest "display name is too long") ↔
        ∃ n ∈ body.displayName, 60 < (trim n).toList.length := by
  refine ⟨counts_iff, fun body => ?_, fun body => publish_changelog body maxYaml, fun body => ?_, update_refuses_iff⟩
  · rw [create_title, create_description, create_changelog]
    exact ⟨fun h => ⟨h.1, h.2.1, h.2.2⟩, fun h => ⟨h.title, h.description, h.changelog⟩⟩
  · rw [update_title, update_description]
    exact ⟨fun h => ⟨h.1, h.2⟩, fun h => ⟨h.title, h.description⟩⟩

/-- An entry with a title of 61 characters in 122 bytes. -/
def accented : CreateWorkflow where
  slug := "accented"
  title := String.ofList (List.replicate 61 'é')
  description := "d"
  tags := []
  yaml := "y"
  changelog := none

theorem accented.misjudged : Misjudged accented.title titleMax := by
  have hlist : accented.title.toList = List.replicate 61 'é' := String.toList_ofList
  have hbytes : len accented.title = 122 := by rw [len_eq_sum, hlist]; decide
  refine ⟨(trim_isEmpty _).mpr ⟨'é', ?_, by decide⟩, ?_, ?_⟩
  · rw [hlist]
    exact List.mem_replicate.mpr ⟨by decide, rfl⟩
  · rw [hlist]
    decide
  · rw [hbytes]
    decide

theorem accented_refused :
    ¬ (validateLen "title" accented.title titleMax = .ok () ↔
      (∃ c ∈ accented.title.toList, isWhitespace c = false) ∧ accented.title.toList.length ≤ titleMax) ∧
    accented.title.toList.length ≤ titleMax ∧
    accented.validate 65536 = .error (.badRequest "title must be at most 120 characters") ∧
    UpdateWorkflow.validate { title := some accented.title, description := none, tags := none } =
      .error (.badRequest "title must be at most 120 characters") :=
  ⟨fun h => (counts_iff _ _ _).mp h accented.misjudged, accented.misjudged.2.1, by decide +kernel, by decide +kernel⟩

end HarnessRegistry

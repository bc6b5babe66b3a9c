/-
# Texts that the database cannot hold

Postgres holds any text but one with U+0000, and refuses a statement that binds
such a text (`Stmt.exec`). `validate_slug` and `validate_tags` let nothing of the
kind through; `validate_len`, `validate_yaml` and `me::update` look at lengths and
blanks alone, and nobody looks at the slug in a path. So whether an accepted
request meets a refusal is a matter of its prose and that slug (`nul_iff`).

Key definitions: `Stmt.Storable`, `Handler.servedFreely`, `Untroubled`, `CreateWorkflow.prose`, `Troubles`.
Key theorems: `registry_restricts`, `troubles_of`, `nul_iff`.
-/
import HarnessRegistry.Lengths
import HarnessRegistry.Txn.Strict

namespace HarnessRegistry

open Txn Handler

variable {app : AppState} {db db' : Db}

/-! ### Statements that can be carried out -/

/-- Every text that the statement binds is one that Postgres can hold. -/
def Stmt.Storable (q : Stmt) : Prop := ∀ t ∈ q.texts, hasNul t = false

/-- Statements on a database that holds any text. -/
def runs : registry.Exec := fun env q db => q.run env db

theorem registry_restricts : registry.Restricts runs Stmt.Storable .other where
  same h := exec_eq_run (by simpa [Stmt.Storable] using h)
  refuses h := if_pos (by simpa [Stmt.Storable] using h)

/-- `served`, by a database that holds any text. -/
def Handler.servedFreely {α : Type} (m : Handler α) (db : Db) (cs : List (Choice registry)) :
    Option (Except Error α × Db) := Prog.servedBy runs m.run none db cs

/-- No text that the handler binds, whatever the database answers it, has a U+0000;
and it answers as it would if the database held any text. -/
structure Untroubled (m : Handler Reply) : Prop where
  binds : m.Every (Prog.Sends fun q _ => q.Storable)
  answers : ∀ db cs, served m db cs = servedFreely m db cs

/-- The handler binds `texts` and others that have no U+0000: it is untroubled if they
have none. Otherwise it fails with a database error wherever it would succeed on a
database that holds any text. -/
structure Troubles (m : Handler Reply) (texts : List String) : Prop where
  iff : Untroubled m ↔ ∀ t ∈ texts, hasNul t = false
  fails : ¬ (∀ t ∈ texts, hasNul t = false) → ∀ {db db' : Db} {cs : List (Choice registry)} {reply : Reply},
    servedFreely m db cs = some (.ok reply, db') →
      ∃ cs' db'', cs' <+: cs ∧ served m db cs' = some (.error (.database .other), db'')

/-! ### Handlers that bind a text -/

/-- The handler succeeds. -/
def IsOk (r : Except Error Reply) : Prop := ∃ reply, r = .ok reply

/-- The statement can be carried out if the texts have no U+0000, and a refusal of
it is the end. -/
def Conditional (texts : List String) (q : Stmt) (k : Except SqlError q.Res → Prog registry (Except Error Reply)) : Prop :=
  ((∀ t ∈ texts, hasNul t = false) → q.Storable) ∧ k (.error .other) = .ret (.error (.database .other))

/-- What is to be shown of a handler: no statement binds other texts than these, each
of them is bound on every way to a success, and a success is possible. -/
theorem troubles_of {m : Handler Reply} {texts : List String} (hs : m.Every (Prog.Sends (Conditional texts)))
    (hn : ¬ (∀ t ∈ texts, hasNul t = false) → m.run.Needs Stmt.Storable IsOk)
    (hok : ¬ m.Every fun p => ∀ r, p = .ret r → ¬ IsOk r) : Troubles m texts := by
  have hup : m.run.GivesUp SqlError.other (.error (.database .other)) :=
    Prog.Every.mono (fun _ => Prog.Sends.mono fun _ _ h => h.2) hs
  refine ⟨⟨fun h => ?_, fun h => ?_⟩, fun hnul db db' cs reply hfree => ?_⟩
  · by_contra hnul
    exact hok ((hn hnul).unsuccessful h.binds)
  · have hacc : m.run.Accepted Stmt.Storable := Prog.Every.mono (fun _ => Prog.Sends.mono fun _ _ hq => hq.1 h) hs
    exact ⟨hacc, fun db cs => hacc.served registry_restricts⟩
  · exact (hn hnul).refused registry_restricts hup hfree ⟨reply, rfl⟩

section Needs

variable {q : Stmt} {f : SqlError → Error} {g : q.Res → Handler Reply}

theorem needs_here (hq : ¬ q.Storable) : (queryOr q f >>= g).run.Needs Stmt.Storable IsOk :=
  .inr ⟨hq, fun _ ⟨_, h⟩ => by cases h⟩

theorem needs_later (hg : ∀ a, (g a).run.Needs Stmt.Storable IsOk) : (queryOr q f >>= g).run.Needs Stmt.Storable IsOk :=
  .inl fun r => match r with
    | .error _ => fun ⟨_, h⟩ => by cases h
    | .ok a => hg a

theorem needs_throw {e : Error} : (throw e : Handler Reply).run.Needs Stmt.Storable IsOk := fun ⟨_, h⟩ => by cases h

theorem needs_begin {g : Unit → Handler Reply} (hg : (g ()).run.Needs Stmt.Storable IsOk) :
    (begin >>= g).run.Needs Stmt.Storable IsOk :=
  fun r => match r with
    | .error _ => fun ⟨_, h⟩ => by cases h
    | .ok _ => hg

end Needs

/-! ### The four handlers -/

/-- What is free text. -/
def CreateWorkflow.prose (body : CreateWorkflow) : List String :=
  body.title :: body.description :: body.yaml :: body.changelog.toList

def PublishVersion.prose (body : PublishVersion) : List String := body.yaml :: body.changelog.toList

def UpdateWorkflow.prose (body : UpdateWorkflow) : List String := body.title.toList ++ body.description.toList

def UpdateMe.prose (body : UpdateMe) : List String := body.displayName.toList

/-- Tags that pass have none but whitelisted characters. -/
theorem hasNul_of_validateTags {tags : List String} (h : validateTags tags = .ok ()) : ∀ t ∈ tags, hasNul t = false := by
  intro t ht
  have hall := (validateTag_ok_iff.mp ((validateTags_ok_iff.mp h).2 t ht)).2.2
  refine Bool.eq_false_iff.mpr fun hnul => ?_
  have hzero := List.all_eq_true.mp hall _ (List.contains_iff_mem.mp hnul)
  revert hzero
  decide

section Ways

variable {P : Prog registry (Except Error Reply) → Prop}

theorem every_of_queryOr {q : Stmt} {f : SqlError → Error} {g : q.Res → Handler Reply} (h : (queryOr q f >>= g).Every P)
    (a : q.Res) : (g a).Every P := h.2 (.ok a)

theorem every_of_begin {g : Unit → Handler Reply} (h : (begin >>= g).Every P) : (g ()).Every P := h.2 (.ok ())

theorem every_of_commit {g : Unit → Handler Reply} (h : (commit >>= g).Every P) : (g ()).Every P := h.2 (.ok ())

end Ways

section Cap

variable {p : Publisher} {m : Handler Reply}

theorem every_cap {texts : List String} (hm : m.Every (Prog.Sends (Conditional texts))) :
    (checkPublisherCap app p >>= fun _ => m).Every (Prog.Sends (Conditional texts)) := by
  unfold checkPublisherCap
  dsimp only
  split
  · exact hm
  · rw [query, bind_assoc]
    refine every_queryOr ⟨fun _ t ht => (by cases ht), rfl⟩ (fun _ => trivial) fun held => ?_
    split
    · exact every_throw trivial
    · exact hm

theorem needs_cap (hm : m.run.Needs Stmt.Storable IsOk) :
    (checkPublisherCap app p >>= fun _ => m).run.Needs Stmt.Storable IsOk := by
  unfold checkPublisherCap
  dsimp only
  split
  · exact hm
  · rw [query, bind_assoc]
    refine needs_later fun held => ?_
    split
    · exact needs_throw
    · exact hm

/-- A publisher with no workflow gets past the cap. -/
theorem every_of_cap {P : Prog registry (Except Error Reply) → Prop}
    (h : (checkPublisherCap app p >>= fun _ => m).Every P) : m.Every P := by
  unfold checkPublisherCap at h
  dsimp only at h
  by_cases hcap : app.config.maxWorkflowsPerPublisher ≤ 0
  · rw [if_pos hcap] at h
    exact h
  · rw [if_neg hcap, query, bind_assoc] at h
    have hnone := every_of_queryOr h (0 : ℕ)
    rw [if_neg (show ¬ ((0 : ℕ) : ℤ) ≥ _ from hcap)] at hnone
    exact hnone

end Cap

/-- The title and the description go with the row, the document with its first
version. -/
theorem create_storable {p : Publisher} {body : CreateWorkflow} (h : body.validate app.config.maxYamlBytes = .ok ()) :
    (∀ t ∈ body.prose, hasNul t = false) ↔
      (Stmt.insertWorkflow body.slug body.title body.description body.tags p.id).Storable ∧
        ∀ id, (Stmt.insertVersion id 1 body.yaml body.changelog).Storable := by
  have hslug := hasNul_of_validateSlug (CreateWorkflow.validate_slug h)
  have htags := hasNul_of_validateTags (CreateWorkflow.validate_ok_iff.mp h).2.2.2.1
  simp only [CreateWorkflow.prose, Stmt.Storable, Stmt.texts, List.forall_mem_cons, hslug, true_and]
  exact ⟨fun hp => ⟨⟨hp.1, hp.2.1, htags⟩, fun _ => hp.2.2⟩, fun hq => ⟨hq.1.1, hq.1.2.1, hq.2 0⟩⟩

theorem create_troubles {p : Publisher} {body : CreateWorkflow} (h : body.validate app.config.maxYamlBytes = .ok ()) :
    Troubles (create app p body) body.prose := by
  have hstore := create_storable (p := p) h
  unfold create
  rw [h, lift_ok_bind]
  refine troubles_of (every_cap ?_) (fun hnul => needs_cap (needs_begin ?_)) fun hok => ?_
  · refine every_begin trivial (fun _ => trivial) (every_queryOr ⟨fun hp => (hstore.mp hp).1, rfl⟩ (fun _ => trivial) fun id => ?_)
    refine every_queryOr ⟨fun hp => (hstore.mp hp).2 id, rfl⟩ (fun _ => trivial) fun _ => ?_
    exact every_commit trivial (fun _ => trivial) (every_pure trivial)
  · by_cases hrow : (Stmt.insertWorkflow body.slug body.title body.description body.tags p.id).Storable
    · refine needs_later fun id => needs_here fun hversion => ?_
      exact hnul (hstore.mpr ⟨hrow, fun _ => hversion⟩)
    · exact needs_here hrow
  · have hid := every_of_queryOr (every_of_begin (every_of_cap hok)) (0 : Uuid)
    exact every_of_commit (every_of_queryOr hid (1 : ℤ)) _ rfl ⟨_, rfl⟩

section Owned

variable {p : Publisher} {slug : String} {g : Uuid → Handler Reply} {texts : List String}

theorem every_ownedId (hslug : slug ∈ texts) (hg : ∀ id, (g id).Every (Prog.Sends (Conditional texts))) :
    (ownedWorkflowId slug p >>= g).Every (Prog.Sends (Conditional texts)) := by
  unfold ownedWorkflowId
  rw [query, bind_assoc]
  refine every_queryOr ⟨fun h t ht => ?_, rfl⟩ (fun _ => trivial) fun a => ?_
  · rw [List.mem_singleton.mp ht]
    exact h slug hslug
  · cases a with
    | none => exact every_throw trivial
    | some id => exact hg id

/-- The slug is bound first. -/
theorem needs_ownedId (hg : hasNul slug = false → ∀ id, (g id).run.Needs Stmt.Storable IsOk) :
    (ownedWorkflowId slug p >>= g).run.Needs Stmt.Storable IsOk := by
  unfold ownedWorkflowId
  rw [query, bind_assoc]
  by_cases hslug : hasNul slug = false
  · refine needs_later fun a => ?_
    cases a with
    | none => exact needs_throw
    | some id => exact hg hslug id
  · exact needs_here fun h => hslug (h slug List.mem_cons_self)

theorem every_of_ownedId {P : Prog registry (Except Error Reply) → Prop} (h : (ownedWorkflowId slug p >>= g).Every P)
    (id : Uuid) : (g id).Every P := by
  unfold ownedWorkflowId at h
  rw [query, bind_assoc] at h
  exact every_of_queryOr h (some id : Option Uuid)

end Owned

theorem publishVersion_troubles {p : Publisher} {slug : String} {body : PublishVersion}
    (h : body.validate app.config.maxYamlBytes = .ok ()) :
    Troubles (publishVersion app p slug body) (slug :: body.prose) := by
  unfold publishVersion
  rw [h, lift_ok_bind]
  refine troubles_of (every_ownedId List.mem_cons_self fun id => ?_) (fun hnul => needs_ownedId fun hslug id => ?_)
    fun hok => ?_
  · refine every_begin trivial (fun _ => trivial) ?_
    refine every_queryOr ⟨fun _ t ht => (by cases ht), rfl⟩ (fun _ => trivial) fun derived => ?_
    refine every_queryOr ⟨fun hp => (List.forall_mem_cons.mp hp).2, rfl⟩ (fun _ => trivial) fun next => ?_
    refine every_queryOr ⟨fun _ t ht => (by cases ht), rfl⟩ (fun _ => trivial) fun _ => ?_
    exact every_commit trivial (fun _ => trivial) (every_pure trivial)
  · refine needs_begin (needs_later fun derived => needs_here fun hversion => ?_)
    exact hnul (List.forall_mem_cons.mpr ⟨hslug, hversion⟩)
  · have hnext := every_of_queryOr (every_of_begin (every_of_ownedId hok 0)) (1 : ℤ)
    have hversion := every_of_queryOr hnext (1 : ℤ)
    exact every_of_commit (every_of_queryOr hversion ()) _ rfl ⟨_, rfl⟩

theorem update_troubles {p : Publisher} {slug : String} {body : UpdateWorkflow} (h : body.validate = .ok ()) :
    Troubles (update p slug body) (slug :: body.prose) := by
  have htags : ∀ t ∈ body.tags.getD [], hasNul t = false := by
    cases ht : body.tags with
    | none => exact fun t ht => by cases ht
    | some tags => exact hasNul_of_validateTags ((UpdateWorkflow.fields_ok h).2.2 tags ht)
  have hstore : ∀ id, (Stmt.amend id body.title body.description body.tags).Storable ↔ ∀ t ∈ body.prose, hasNul t = false := by
    intro id
    simp only [Stmt.Storable, Stmt.texts, UpdateWorkflow.prose, List.forall_mem_append]
    exact and_iff_left htags
  unfold update
  rw [h, lift_ok_bind]
  refine troubles_of (every_ownedId List.mem_cons_self fun id => ?_) (fun hnul => needs_ownedId fun hslug id => ?_)
    fun hok => ?_
  · exact every_queryOr ⟨fun hp => (hstore id).mpr (List.forall_mem_cons.mp hp).2, rfl⟩ (fun _ => trivial)
      fun _ => every_pure trivial
  · refine needs_here fun hq => ?_
    exact hnul (List.forall_mem_cons.mpr ⟨hslug, (hstore id).mp hq⟩)
  · exact every_of_queryOr (every_of_ownedId hok 0) () _ rfl ⟨_, rfl⟩

/-- U+0000 is no blank, so trimming leaves it. -/
theorem hasNul_trim (s : String) : hasNul (trim s) = hasNul s := by
  unfold hasNul
  rw [Bool.eq_iff_iff, List.contains_iff_mem, List.contains_iff_mem, mem_trim_iff (by decide)]

/-- A name that is all blanks has no U+0000, and any other is bound, trimmed. -/
theorem UpdateMe.storable (body : UpdateMe) (p : Publisher) :
    (Stmt.setDisplayName p.id body.name).Storable ↔ ∀ t ∈ body.prose, hasNul t = false := by
  obtain ⟨name⟩ := body
  cases name with
  | none => simp [Stmt.Storable, Stmt.texts, UpdateMe.name, UpdateMe.prose]
  | some n =>
    by_cases hblank : trim n = ""
    · have hclean : hasNul n = false := by
        rw [← hasNul_trim, hblank]
        decide
      simp [Stmt.Storable, Stmt.texts, UpdateMe.name, UpdateMe.prose, hblank, hclean]
    · simp [Stmt.Storable, Stmt.texts, UpdateMe.name, UpdateMe.prose, hblank, hasNul_trim]

theorem updateMe_troubles {p : Publisher} {body : UpdateMe} (h : ∀ n ∈ body.displayName, (trim n).toList.length ≤ 60) :
    Troubles (Me.update p body) body.prose := by
  have hquery : Me.update p body = query (.setDisplayName p.id body.name) >>= fun me => pure (.me me) := by
    unfold Me.update
    cases hname : body.displayName with
    | none => rfl
    | some n =>
      have hlong : ¬ (trim n).toList.length > 60 := Nat.not_lt.mpr (h n hname)
      simp only [Option.map_some, if_neg hlong]
  rw [hquery]
  refine troubles_of ?_ (fun hnul => needs_here fun hq => hnul ((body.storable p).mp hq)) fun hok => ?_
  · exact every_queryOr ⟨(body.storable p).mpr, rfl⟩ (fun _ => trivial) fun _ => every_pure trivial
  · exact every_of_queryOr hok ⟨"", none, none⟩ _ rfl ⟨_, rfl⟩

/-- **A request that passes validation binds no text that the database cannot hold,
and so is never answered with a database error on account of one, exactly when its
free text, and the slug in its path, have no U+0000.** -/
theorem nul_iff (app : AppState) (p : Publisher) :
    (∀ body : CreateWorkflow, body.validate app.config.maxYamlBytes = .ok () →
      Troubles (create app p body) body.prose) ∧
    (∀ (slug : String) (body : PublishVersion), body.validate app.config.maxYamlBytes = .ok () →
      Troubles (publishVersion app p slug body) (slug :: body.prose)) ∧
    (∀ (slug : String) (body : UpdateWorkflow), body.validate = .ok () →
      Troubles (update p slug body) (slug :: body.prose)) ∧
    ∀ body : UpdateMe, (∀ n ∈ body.displayName, (trim n).toList.length ≤ 60) →
      Troubles (Me.update p body) body.prose :=
  ⟨fun _ => create_troubles, fun _ _ => publishVersion_troubles, fun _ _ => update_troubles, fun _ => updateMe_troubles⟩

/-- An entry whose title has a U+0000. -/
def Sample.nulTitle : CreateWorkflow :=
  { slug := "first", title := "a\x00", description := "d", tags := [], yaml := "steps: []", changelog := none }

/-- Time enough for every statement of a create. -/
def Sample.go : List (Choice registry) := List.replicate 5 (.go (Sample.env 10))

theorem nul_title_fails :
    Sample.nulTitle.validate Sample.replica.config.maxYamlBytes = .ok () ∧
      ¬ Untroubled (create Sample.replica ⟨1, "ada"⟩ Sample.nulTitle) ∧
      (servedFreely (create Sample.replica ⟨1, "ada"⟩ Sample.nulTitle) Sample.library Sample.go).map (·.1) =
        some (.ok (.published "first" 1)) ∧
      (served (create Sample.replica ⟨1, "ada"⟩ Sample.nulTitle) Sample.library (Sample.go.take 3)).map (·.1) =
        some (.error (.database .other)) := by
  have hfree : (servedFreely (create Sample.replica ⟨1, "ada"⟩ Sample.nulTitle) Sample.library Sample.go).map (·.1) =
      some (.ok (.published "first" 1)) := by decide +kernel
  have hserved : served (create Sample.replica ⟨1, "ada"⟩ Sample.nulTitle) Sample.library Sample.go = none := by decide +kernel
  refine ⟨by decide +kernel, fun h => ?_, hfree, by decide +kernel⟩
  rw [← h.answers, hserved] at hfree
  cases hfree

theorem nul_iff_title : Troubles (create Sample.replica ⟨1, "ada"⟩ Sample.nulTitle) Sample.nulTitle.prose :=
  (nul_iff Sample.replica ⟨1, "ada"⟩).1 Sample.nulTitle (by decide +kernel)

end HarnessRegistry

/-
# One entry of the library

What a workflow is to its readers and to those who may change it: the
documents published under its numbers, the official flag, three texts, and
whether it is in the library. `Entry.serve` makes the changes one at a time:
a publish, an update, an unlist or an operator's flag. The tables show an
entry (`Db.Shows`) when the rows of the workflow say the same, timestamps
aside; the effect of a request on them is the change the request asks for,
with the answer that the change gives (`Effect.changes`).

Key definitions: `Entry`, `Change`, `Entry.serve`, `Request.change?`, `Db.Shows`.
Key theorems: `latest_run`, `exists_shows`, `Db.Shows.change`, `Effect.changes`.
-/
import HarnessRegistry.Machine
import HarnessRegistry.Runs

namespace HarnessRegistry

open Txn

variable {app : AppState} {db db' : Db}

/-! ### Entries -/

structure Entry where
  /-- The document and the changelog of version 1, 2, … -/
  documents : List (String × Option String)
  official : Bool
  title : String
  description : String
  tags : List String
  listed : Bool
deriving DecidableEq

inductive Change
  | publish (yaml : String) (changelog : Option String)
  | amend (title description : Option String) (tags : Option (List String))
  | unlist
  | badge (value : Bool)
deriving DecidableEq

def Change.act : Change → Entry → Entry
  | .publish yaml changelog, e => { e with documents := e.documents ++ [(yaml, changelog)], listed := true }
  | .amend title description tags, e =>
      { e with title := title.getD e.title, description := description.getD e.description, tags := tags.getD e.tags }
  | .unlist, e => { e with listed := false }
  | .badge value, e => { e with official := value }

/-- What the request that asks for the change is answered. -/
def Change.reply (slug : String) : Change → Entry → Reply
  | .publish _ _, e => .published slug (e.documents.length + 1)
  | .amend .., _ => .status "updated"
  | .unlist, _ => .status "unlisted"
  | .badge value, _ => .official slug value

/-- The changes of the entry `slug`, one at a time. -/
def Entry.serve (slug : String) (e : Entry) (c : Change) : Reply × Entry := (c.reply slug e, c.act e)

/-! What a change supplies. -/

def Change.official? : Change → Option Bool
  | .badge value => some value
  | _ => none

def Change.title? : Change → Option String
  | .amend title _ _ => title
  | _ => none

def Change.description? : Change → Option String
  | .amend _ description _ => description
  | _ => none

def Change.tags? : Change → Option (List String)
  | .amend _ _ tags => tags
  | _ => none

def Change.listed? : Change → Option Bool
  | .publish .. => some true
  | .unlist => some false
  | _ => none

/-- **The last value supplied stands.** Of a field that each change replaces or
leaves alone. -/
theorem latest_run {α : Type} {slug : String} (field : Entry → α) (given : Change → Option α)
    (h : ∀ c e, field (c.act e) = (given c).getD (field e)) (e : Entry) (cs : List Change) :
    field (Machine.run (Entry.serve slug) e cs) = ((cs.filterMap given).getLast?).getD (field e) := by
  induction cs using List.reverseRecOn with
  | nil => rfl
  | append_singleton cs c ih =>
    rw [Machine.run_append, Machine.run_cons, Machine.run_nil]
    show field (c.act _) = _
    rw [h, ih, List.filterMap_append, List.getLast?_append]
    by_cases hc : given c = none
    · simp [hc]
    · obtain ⟨a, ha⟩ := Option.ne_none_iff_exists'.mp hc
      simp [ha]

theorem official_run (slug : String) (e : Entry) (cs : List Change) :
    (Machine.run (Entry.serve slug) e cs).official = ((cs.filterMap Change.official?).getLast?).getD e.official :=
  latest_run Entry.official _ (fun c _ => by cases c <;> rfl) e cs

theorem title_run (slug : String) (e : Entry) (cs : List Change) :
    (Machine.run (Entry.serve slug) e cs).title = ((cs.filterMap Change.title?).getLast?).getD e.title :=
  latest_run Entry.title _ (fun c _ => by cases c <;> rfl) e cs

theorem description_run (slug : String) (e : Entry) (cs : List Change) :
    (Machine.run (Entry.serve slug) e cs).description =
      ((cs.filterMap Change.description?).getLast?).getD e.description :=
  latest_run Entry.description _ (fun c _ => by cases c <;> rfl) e cs

theorem tags_run (slug : String) (e : Entry) (cs : List Change) :
    (Machine.run (Entry.serve slug) e cs).tags = ((cs.filterMap Change.tags?).getLast?).getD e.tags :=
  latest_run Entry.tags _ (fun c _ => by cases c <;> rfl) e cs

theorem listed_run (slug : String) (e : Entry) (cs : List Change) :
    (Machine.run (Entry.serve slug) e cs).listed = ((cs.filterMap Change.listed?).getLast?).getD e.listed :=
  latest_run Entry.listed _ (fun c _ => by cases c <;> rfl) e cs

/-! ### What the tables show -/

/-- The row shows the entry, but for its documents. -/
structure WorkflowRow.Shows (w : WorkflowRow) (e : Entry) : Prop where
  official : w.official = e.official
  title : w.title = e.title
  description : w.description = e.description
  tags : w.tags = e.tags
  listed : w.unlistedAt.isNone = e.listed

/-- Version `k` of the workflow is this document. -/
def Db.HasDocument (db : Db) (id : Uuid) (k : ℤ) (d : String × Option String) : Prop :=
  ∃ v ∈ db.versions, v.workflowId = id ∧ v.version = k ∧ (v.yaml, v.changelog) = d

structure Db.Shows (db : Db) (id : Uuid) (e : Entry) : Prop where
  row : ∃ w ∈ db.workflows, w.id = id ∧ w.Shows e
  documents : ∀ k d, db.HasDocument id k d ↔ 1 ≤ k ∧ e.documents[(k - 1).toNat]? = some d

/-- Every workflow is an entry. -/
theorem exists_shows (h : db.Sound) {w : WorkflowRow} (hw : w ∈ db.workflows) : ∃ e, db.Shows w.id e := by
  obtain ⟨n, hn, hnum⟩ := h.numbered w hw
  have hrow : ∀ i : Fin n.toNat, ∃ v ∈ db.versions, v.workflowId = w.id ∧ v.version = (i : ℤ) + 1 := fun i =>
    (hnum _).mpr (by omega)
  choose v hv hvw hvn using hrow
  refine ⟨⟨List.ofFn fun i => ((v i).yaml, (v i).changelog), w.official, w.title, w.description, w.tags,
    w.unlistedAt.isNone⟩, ⟨w, hw, rfl, rfl, rfl, rfl, rfl, rfl⟩, fun k d => ?_⟩
  rw [List.getElem?_ofFn]
  constructor
  · rintro ⟨x, hx, hxw, hxk, rfl⟩
    obtain ⟨h1, hk⟩ := (hnum k).mp ⟨x, hx, hxw, hxk⟩
    have hlt : (k - 1).toNat < n.toNat := by omega
    obtain rfl : v ⟨_, hlt⟩ = x := by
      refine VersionRow.eq_of_number (hv _) hx ((hvw _).trans hxw.symm) ?_
      rw [hvn, hxk]
      show ((k - 1).toNat : ℤ) + 1 = k
      omega
    exact ⟨h1, dif_pos hlt⟩
  · rintro ⟨h1, hd⟩
    by_cases hlt : (k - 1).toNat < n.toNat
    · rw [dif_pos hlt] at hd
      refine ⟨v ⟨_, hlt⟩, hv _, hvw _, ?_, Option.some.inj hd⟩
      rw [hvn]
      show ((k - 1).toNat : ℤ) + 1 = k
      omega
    · rw [dif_neg hlt] at hd
      cases hd

/-- The versions of the entry are the workflow's. -/
theorem Db.Shows.numbered {id : Uuid} {e : Entry} (h : db.Shows id e) : db.Numbered id e.documents.length := by
  intro k
  constructor
  · rintro ⟨v, hv, hw, hk⟩
    obtain ⟨h1, hd⟩ := (h.documents k (v.yaml, v.changelog)).mp ⟨v, hv, hw, hk, rfl⟩
    obtain ⟨hlt, -⟩ := List.getElem?_eq_some_iff.mp hd
    omega
  · rintro ⟨h1, hk⟩
    have hlt : (k - 1).toNat < e.documents.length := by omega
    obtain ⟨v, hv, hw, hn, -⟩ := (h.documents k _).mpr ⟨h1, List.getElem?_eq_getElem hlt⟩
    exact ⟨v, hv, hw, hn⟩

/-! ### Changes to the rows -/

/-- The change a request asks of the entry `slug`. -/
def Request.change? (slug : String) : Request → Option Change
  | .publishVersion _ slug' body => if slug' = slug then some (.publish body.yaml body.changelog) else none
  | .update _ slug' body => if slug' = slug then some (.amend body.title body.description body.tags) else none
  | .unlist _ slug' => if slug' = slug then some .unlist else none
  | .setOfficial _ slug' value => if slug' = slug then some (.badge value) else none
  | _ => none

/-- A request that asks for a change of the entry names its slug. -/
theorem asks {slug slug' : String} {c d : Change} (h : (if slug' = slug then some d else none) = some c) :
    slug' = slug ∧ d = c :=
  (Option.ite_none_right_eq_some.mp h).imp_right Option.some.inj

/-- The write is to the rows an entry is read from. -/
def Write.concerns (id : Uuid) : Write → Bool
  | .relist id' _ | .amend id' .. | .unlist id' _ | .setOfficial id' _ => id' == id
  | .insertVersion row => row.workflowId == id
  | _ => false

/-- Any other write leaves the entry alone. -/
theorem Db.Shows.apply {id : Uuid} {e : Entry} {x : Write} (h : db.Shows id e) (hx : x.concerns id = false) :
    (x.apply db).Shows id e := by
  have hrow := h.row
  have hdoc := h.documents
  cases x
  case insertWorkflow row =>
    obtain ⟨w, hw, hid, hws⟩ := hrow
    exact ⟨⟨w, Table.mem_insert_of_mem hw, hid, hws⟩, hdoc⟩
  case relist id' _ | amend id' _ _ _ _ | unlist id' _ | setOfficial id' _ =>
    obtain ⟨w, hw, hid, hws⟩ := hrow
    have hne : w.id ≠ id' := fun he => by simp [Write.concerns, ← he, hid] at hx
    exact ⟨⟨w, List.mem_map.mpr ⟨w, hw, if_neg hne⟩, hid, hws⟩, hdoc⟩
  case insertVersion row =>
    have hne : row.workflowId ≠ id := by simpa [Write.concerns] using hx
    refine ⟨hrow, fun k d => ?_⟩
    rw [← hdoc]
    constructor
    · intro hv
      exact (Table.exists_of_insert hv).resolve_right fun hr => hne hr.1
    · rintro ⟨v, hv, hr⟩
      exact ⟨v, Table.mem_insert_of_mem hv, hr⟩
  case withdrawVersion id' n _ =>
    refine ⟨hrow, fun k d => ?_⟩
    rw [← hdoc]
    simp only [Db.HasDocument, Write.apply, Db.setVersion, Table.exists_update, implies_true]
  all_goals exact ⟨hrow, hdoc⟩

theorem Db.Shows.applyAll {id : Uuid} {e : Entry} : ∀ (ws : List Write) {db : Db}, db.Shows id e →
    (∀ x ∈ ws, x.concerns id = false) → (registry.applyAll ws db).Shows id e
  | [], _, h, _ => h
  | _ :: ws, _, h, hx => applyAll ws (h.apply (hx _ List.mem_cons_self)) fun x hm => hx x (List.mem_cons_of_mem _ hm)

/-- An `UPDATE` of the workflow. -/
theorem Db.Shows.setWorkflow {id : Uuid} {e e' : Entry} {f : WorkflowRow → WorkflowRow} {hf : ∀ r, key (f r) = key r}
    (h : db.Shows id e) (hrow : ∀ w : WorkflowRow, w.Shows e → (f w).Shows e') (hd : e'.documents = e.documents) :
    (db.setWorkflow id f hf).Shows id e' := by
  obtain ⟨w, hw, hid, hws⟩ := h.row
  have hkey : (f w).id = w.id := congrArg WorkflowKey.id (hf w)
  refine ⟨⟨f w, List.mem_map.mpr ⟨w, hw, if_pos hid⟩, hkey.trans hid, hrow w hws⟩, fun k d => ?_⟩
  rw [hd]
  exact h.documents k d

/-- The next version of the workflow. -/
theorem Db.Shows.insertVersion {id : Uuid} {e : Entry} {row : VersionRow} (h : db.Shows id e)
    (hf : registry.Fresh [.insertVersion row] db) (hw : row.workflowId = id)
    (hn : row.version = e.documents.length + 1) :
    ((Write.insertVersion row).apply db).Shows id { e with documents := e.documents ++ [(row.yaml, row.changelog)] } := by
  obtain ⟨w, hwm, hid, hws⟩ := h.row
  refine ⟨⟨w, hwm, hid, ⟨hws.official, hws.title, hws.description, hws.tags, hws.listed⟩⟩, fun k d => ?_⟩
  have hold : ((Write.insertVersion row).apply db).HasDocument id k d ↔
      db.HasDocument id k d ∨ row.version = k ∧ (row.yaml, row.changelog) = d := by
    constructor
    · rintro ⟨v, hv, hvw, hvk, hvd⟩
      rcases (Table.mem_insert (not_has_version hf)).mp hv with hv | rfl
      · exact .inl ⟨v, hv, hvw, hvk, hvd⟩
      · exact .inr ⟨hvk, hvd⟩
    · rintro (⟨v, hv, hr⟩ | ⟨hk, hd⟩)
      · exact ⟨v, Table.mem_insert_of_mem hv, hr⟩
      · exact ⟨row, (Table.mem_insert (not_has_version hf)).mpr (.inr rfl), hw, hk, hd⟩
  rw [hold, h.documents, hn]
  -- an old number, the new one, or one that is not there
  rcases lt_trichotomy (k - 1).toNat e.documents.length with hlt | heq | hgt
  · rw [List.getElem?_append_left hlt]
    constructor
    · rintro (hd | ⟨hk, -⟩)
      · exact hd
      · omega
    · exact .inl
  · rw [heq, List.getElem?_concat_length, List.getElem?_eq_none (Nat.le_refl _)]
    simp only [reduceCtorEq, and_false, false_or, Option.some.injEq]
    exact and_congr_left fun _ => by omega
  · have hafter : (e.documents ++ [(row.yaml, row.changelog)]).length ≤ (k - 1).toNat := by
      rw [List.length_append, List.length_singleton]
      omega
    rw [List.getElem?_eq_none (Nat.le_of_lt hgt), List.getElem?_eq_none hafter]
    simp only [reduceCtorEq, and_false, false_or, iff_false, not_and]
    intro hk
    omega

/-- The writes that make the change. -/
def Change.writes (id : Uuid) (now : Timestamp) (e : Entry) : Change → List Write
  | .publish yaml changelog =>
      [.insertVersion ⟨id, e.documents.length + 1, yaml, changelog, now, none⟩, .relist id now]
  | .amend title description tags => [.amend id title description tags now]
  | .unlist => [.unlist id now]
  | .badge value => [.setOfficial id value]

theorem Db.Shows.change {id : Uuid} {now : Timestamp} {e : Entry} {c : Change} (h : db.Shows id e)
    (hf : registry.Fresh (c.writes id now e) db) : (registry.applyAll (c.writes id now e) db).Shows id (c.act e) := by
  cases c with
  | publish yaml changelog =>
    exact (h.insertVersion (fresh_cons hf).1 rfl rfl).setWorkflow
      (fun _ hr => ⟨hr.official, hr.title, hr.description, hr.tags, rfl⟩) rfl
  | amend title description tags =>
    refine h.setWorkflow (fun r hr => ⟨hr.official, ?_, ?_, ?_, hr.listed⟩) rfl
    · exact congrArg (title.getD ·) hr.title
    · exact congrArg (description.getD ·) hr.description
    · exact congrArg (tags.getD ·) hr.tags
  | unlist => exact h.setWorkflow (fun _ hr => ⟨hr.official, hr.title, hr.description, hr.tags, rfl⟩) rfl
  | badge value => exact h.setWorkflow (fun _ hr => ⟨rfl, hr.title, hr.description, hr.tags, hr.listed⟩) rfl

/-! ### Effects -/

/-- Two ways to number the versions of a workflow that has any. -/
theorem Db.Numbered.unique {id : Uuid} {m n : ℤ} (hm : db.Numbered id m) (hn : db.Numbered id n) (h1 : 1 ≤ m) :
    n = m := by
  have h₁ := (hn m).mp ((hm m).mpr ⟨h1, le_refl m⟩)
  have h₂ := (hm n).mp ((hn n).mpr ⟨by omega, le_refl n⟩)
  omega

theorem Db.Shows.nonempty {w : WorkflowRow} {e : Entry} (h : db.Shows w.id e) (hs : db.Sound) (hw : w ∈ db.workflows) :
    (1 : ℤ) ≤ e.documents.length := by
  obtain ⟨n, hn, hnum⟩ := hs.numbered w hw
  exact ((h.numbered 1).mp ((hnum 1).mpr ⟨le_refl 1, hn⟩)).2

/-- An effect of a request that asks nothing of the entry leaves it alone. -/
theorem Effect.unchanged {req : Request} {ws : List Write} {reply : Reply} {w : WorkflowRow} {e : Entry}
    (h : Effect app req db ws reply) (hf : registry.Fresh ws db) (hw : w ∈ db.workflows)
    (hreq : req.change? w.slug = none) (he : db.Shows w.id e) : (registry.applyAll ws db).Shows w.id e := by
  -- another slug is another workflow
  have apart : ∀ {x : WorkflowRow} {slug : String} {d : Change}, x ∈ db.workflows → x.slug = slug →
      (if slug = w.slug then some d else none) = none → x.id ≠ w.id := by
    intro x slug d hx hxs hno hid
    rw [← hxs, WorkflowRow.eq_of_id hx hw hid, if_pos rfl] at hno
    cases hno
  refine he.applyAll ws ?_
  cases h with
  | @created _ _ _ _ env =>
    have hne : env.uuid ≠ w.id := fun hid =>
      (fresh_cons hf).1.2 (.workflow env.uuid) (by simp [Write.claims, WorkflowRow.inserted]) ⟨w, hw, hid.symm⟩
    simpa [Write.concerns] using hne
  | published hx hxs =>
    have hne := apart hx hxs hreq
    simpa [Write.concerns] using hne
  | amended hx hxs =>
    have hne := apart hx hxs hreq
    simpa [Write.concerns] using hne
  | unlisted hx hxs =>
    have hne := apart hx hxs hreq
    simpa [Write.concerns] using hne
  | badged _ hx hxs =>
    have hne := apart hx hxs hreq
    simpa [Write.concerns] using hne
  | issued _ _ hu => cases hu <;> simp [Write.concerns]
  | _ => simp [Write.concerns]

/-- **The effect of a request is the change it asks for**, with the answer that
the change gives. -/
theorem Effect.changes {req : Request} {ws : List Write} {reply : Reply} {w : WorkflowRow} {e : Entry} {c : Change}
    (h : Effect app req db ws reply) (hs : db.Sound) (hf : registry.Fresh ws db) (hw : w ∈ db.workflows)
    (hreq : req.change? w.slug = some c) (he : db.Shows w.id e) :
    reply = c.reply w.slug e ∧ (registry.applyAll ws db).Shows w.id (c.act e) := by
  have same : ∀ {x : WorkflowRow} {slug : String}, x ∈ db.workflows → x.slug = slug → slug = w.slug → x = w :=
    fun hx hxs hsl => WorkflowRow.eq_of_slug hx hw (hxs.trans hsl)
  suffices hws : ∃ now, ws = c.writes w.id now e ∧ reply = c.reply w.slug e by
    obtain ⟨now, rfl, hr⟩ := hws
    exact ⟨hr, he.change hf⟩
  cases h with
  | @published _ _ body _ x n now hx hxs _ _ hn =>
    obtain ⟨hsl, rfl⟩ := asks hreq
    obtain rfl := same hx hxs hsl
    have hlen : n = e.documents.length + 1 := by
      have := he.numbered.unique hn (he.nonempty hs hw)
      omega
    subst hlen hsl
    exact ⟨now, rfl, rfl⟩
  | @amended _ _ _ _ x now hx hxs =>
    obtain ⟨hsl, rfl⟩ := asks hreq
    obtain rfl := same hx hxs hsl
    exact ⟨now, rfl, rfl⟩
  | @unlisted _ _ _ x now hx hxs =>
    obtain ⟨hsl, rfl⟩ := asks hreq
    obtain rfl := same hx hxs hsl
    exact ⟨now, rfl, rfl⟩
  | @badged _ _ _ _ x _ hx hxs =>
    obtain ⟨hsl, rfl⟩ := asks hreq
    obtain rfl := same hx hxs hsl
    subst hsl
    exact ⟨0, rfl, rfl⟩
  | _ => cases hreq

/-- The prelude of a request leaves every entry alone. -/
theorem Prelude.unchanged {req : Request} {ws : List Write} {id : Uuid} {e : Entry} (h : Prelude app req db ws)
    (he : db.Shows id e) : (registry.applyAll ws db).Shows id e := by
  refine he.applyAll ws fun x hx => ?_
  have hpre := h.preparing x hx
  cases x <;> first | rfl | cases hpre

end HarnessRegistry

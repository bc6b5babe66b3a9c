/-
# Other people's slugs

`publish_version`, `update` and `unlist` look a workflow up by its slug and its
owner together. So they see no more of the database than what is the caller's:
its row, its tokens, its workflows and their versions (`Db.view`). On two
databases with one view each of their statements comes to the same, and leaves
two with one view. What others have cannot be told from the answer, nor does
it leave a trace in what is the caller's (`writes_blind`).

Key definitions: `View`, `Db.view`, `Sees`, `Handler.Blind`, `Unseen`.
Key theorems: `view_setWorkflow`, `view_insertVersion`, `publisher_blind`, `owned_blind`, `writes_blind`.
-/
import HarnessRegistry.Replay
import HarnessRegistry.Txn.Blind
import Mathlib.Data.Set.Image

namespace HarnessRegistry

open Txn Handler

variable {app : AppState} {db db' : Db} {P : Uuid}

/-! ### What is a publisher's own -/

def TokenRow.untimed (t : TokenRow) : TokenRow := { t with lastUsedAt := none }

def WorkflowRow.untimed (w : WorkflowRow) : WorkflowRow :=
  { w with updatedAt := 0, unlistedAt := w.unlistedAt.map fun _ => 0 }

def VersionRow.untimed (v : VersionRow) : VersionRow := { v with publishedAt := 0 }

/-- The rows that are a publisher's own, without the moments of its writes. -/
@[ext] structure View where
  publishers : Set PublisherRow
  tokens : Set TokenRow
  workflows : Set WorkflowRow
  versions : Set VersionRow

def Db.Owns (db : Db) (P id : Uuid) : Prop := ∃ w ∈ db.workflows, w.publisherId = P ∧ w.id = id

def Db.view (db : Db) (P : Uuid) : View where
  publishers := {p | p ∈ db.publishers ∧ p.id = P}
  tokens := {t | ∃ r ∈ db.tokens, r.publisherId = P ∧ r.untimed = t}
  workflows := {w | ∃ r ∈ db.workflows, r.publisherId = P ∧ r.untimed = w}
  versions := {v | ∃ r ∈ db.versions, db.Owns P r.workflowId ∧ r.untimed = v}

theorem owns_iff {id : Uuid} : db.Owns P id ↔ ∃ w ∈ (db.view P).workflows, w.id = id := by
  constructor
  · rintro ⟨w, hw, hp, hid⟩
    exact ⟨w.untimed, ⟨w, hw, hp, rfl⟩, hid⟩
  · rintro ⟨_, ⟨w, hw, hp, rfl⟩, hid⟩
    exact ⟨w, hw, hp, hid⟩

/-! ### Writes -/

/-- One of the workflows is changed. -/
def View.change (v : View) (id : Uuid) (f : WorkflowRow → WorkflowRow) : View :=
  { v with workflows := (fun w => if w.id = id then f w else w) '' v.workflows }

theorem changed_row (id : Uuid) {f g : WorkflowRow → WorkflowRow} (hf : ∀ r, key (f r) = key r)
    (hp : ∀ w, (f w).publisherId = w.publisherId) (hg : ∀ w, (f w).untimed = g w.untimed) (w : WorkflowRow) :
    (if w.id = id then f w else w).publisherId = w.publisherId ∧ (if w.id = id then f w else w).id = w.id ∧
      (if w.id = id then f w else w).untimed = if w.untimed.id = id then g w.untimed else w.untimed := by
  have hid : (f w).id = w.id := congrArg WorkflowKey.id (hf w)
  have hu : w.untimed.id = w.id := rfl
  rw [hu]
  split
  · exact ⟨hp w, hid, hg w⟩
  · exact ⟨rfl, rfl, rfl⟩

theorem view_setWorkflow {id : Uuid} {f g : WorkflowRow → WorkflowRow} {hf : ∀ r, key (f r) = key r}
    (hp : ∀ w, (f w).publisherId = w.publisherId) (hg : ∀ w, (f w).untimed = g w.untimed) :
    (db.setWorkflow id f hf).view P = (db.view P).change id g := by
  have hrow := changed_row id hf hp hg
  have hin : ∀ w ∈ db.workflows, (if w.id = id then f w else w) ∈ (db.setWorkflow id f hf).workflows := fun w hw =>
    List.mem_map.mpr ⟨w, hw, rfl⟩
  have howns : ∀ i, (db.setWorkflow id f hf).Owns P i ↔ db.Owns P i := by
    intro i
    constructor
    · rintro ⟨_, hw, hpw, hi⟩
      obtain ⟨w, hm, rfl⟩ := List.mem_map.mp hw
      exact ⟨w, hm, (hrow w).1.symm.trans hpw, (hrow w).2.1.symm.trans hi⟩
    · rintro ⟨w, hw, hpw, hi⟩
      exact ⟨_, hin w hw, (hrow w).1.trans hpw, (hrow w).2.1.trans hi⟩
  refine View.ext rfl rfl (Set.ext fun x => ?_) (Set.ext fun v => ?_)
  · constructor
    · rintro ⟨_, hw, hpw, rfl⟩
      obtain ⟨w, hm, rfl⟩ := List.mem_map.mp hw
      exact ⟨w.untimed, ⟨w, hm, (hrow w).1.symm.trans hpw, rfl⟩, (hrow w).2.2.symm⟩
    · rintro ⟨_, ⟨w, hw, hpw, rfl⟩, rfl⟩
      exact ⟨_, hin w hw, (hrow w).1.trans hpw, (hrow w).2.2⟩
  · exact exists_congr fun r => and_congr_right fun _ => and_congr_left fun _ => howns r.workflowId

theorem view_touchToken (hash : String) (now : Timestamp) : ((Write.touchToken hash now).apply db).view P = db.view P := by
  have hrow : ∀ t : TokenRow, (if t.tokenHash = hash then { t with lastUsedAt := some now } else t).publisherId = t.publisherId ∧
      (if t.tokenHash = hash then { t with lastUsedAt := some now } else t).untimed = t.untimed := by
    intro t
    split <;> exact ⟨rfl, rfl⟩
  refine View.ext rfl (Set.ext fun x => ?_) rfl rfl
  constructor
  · rintro ⟨_, ht, hp, rfl⟩
    obtain ⟨t, hm, rfl⟩ := List.mem_map.mp ht
    exact ⟨t, hm, (hrow t).1.symm.trans hp, (hrow t).2.symm⟩
  · rintro ⟨t, ht, hp, rfl⟩
    exact ⟨_, List.mem_map_of_mem ht, (hrow t).1.trans hp, (hrow t).2⟩

/-- A version of a workflow of the publisher's is its own. -/
theorem view_insertVersion {row : VersionRow} (hnew : ¬ db.versions.has (key row)) (hown : db.Owns P row.workflowId) :
    ((Write.insertVersion row).apply db).view P =
      { db.view P with versions := insert row.untimed (db.view P).versions } := by
  refine View.ext rfl rfl rfl (Set.ext fun v => ?_)
  constructor
  · rintro ⟨r, hr, ho, rfl⟩
    rcases (Table.mem_insert hnew).mp hr with hr | rfl
    · exact .inr ⟨r, hr, ho, rfl⟩
    · exact .inl rfl
  · rintro (rfl | ⟨r, hr, ho, rfl⟩)
    · exact ⟨row, (Table.mem_insert hnew).mpr (.inr rfl), hown, rfl⟩
    · exact ⟨r, (Table.mem_insert hnew).mpr (.inl hr), ho, rfl⟩

/-! ### Statements -/

/-- Two databases with one view, in which the publisher has these tokens and
these workflows. -/
structure Sees (P : Uuid) (tokens : Set TokenRow) (own : Set Uuid) (db db' : Db) : Prop where
  view : db.view P = db'.view P
  tokens : (db.view P).tokens = tokens
  own : ∀ id, db.Owns P id ↔ id ∈ own

variable {tokens : Set TokenRow} {own : Set Uuid}

theorem Sees.owns (h : Sees P tokens own db db') {id : Uuid} (hid : id ∈ own) : db.Owns P id ∧ db'.Owns P id := by
  have ho := (h.own id).mpr hid
  exact ⟨ho, owns_iff.mpr (h.view ▸ owns_iff.mp ho)⟩

/-- What does the same to both views, and leaves tokens and ids alone. -/
theorem Sees.map {d d' : Db} (h : Sees P tokens own db db') (F : View → View) (hd : d.view P = F (db.view P))
    (hd' : d'.view P = F (db'.view P)) (htokens : ∀ v, (F v).tokens = v.tokens)
    (hids : ∀ v id, (∃ w ∈ (F v).workflows, w.id = id) ↔ ∃ w ∈ v.workflows, w.id = id) : Sees P tokens own d d' where
  view := by rw [hd, hd', h.view]
  tokens := by rw [hd, htokens, h.tokens]
  own id := by rw [owns_iff, hd, hids, ← owns_iff, h.own]

theorem blind_of_run {q : Stmt} {A : q.Res → Prop} (h : ∀ env env' db db', Sees P tokens own db db' →
    (∃ e, q.run env db = .error e ∧ q.run env' db' = .error e) ∨
      ∃ a ws ws', q.run env db = .ok (a, ws) ∧ q.run env' db' = .ok (a, ws') ∧ A a ∧
        Sees P tokens own (registry.applyAll ws db) (registry.applyAll ws' db')) :
    registry.Blind (Sees P tokens own) q A := by
  intro env env' db db' hs
  by_cases hnul : q.texts.any hasNul = true
  · exact .inl ⟨.other, if_pos hnul, if_pos hnul⟩
  · have hexec : ∀ env db, registry.exec env q db = q.run env db := fun env db => if_neg hnul
    rw [hexec, hexec]
    exact h env env' db db' hs

/-! Authentication. -/

theorem find_publisher (h : Sees P tokens own db db') :
    db.publishers.find? (fun p => p.id == P) = db'.publishers.find? fun p => p.id == P := by
  have hmem : ∀ p, (p ∈ db.publishers ∧ p.id = P) ↔ (p ∈ db'.publishers ∧ p.id = P) := fun p =>
    Set.ext_iff.mp (congrArg View.publishers h.view) p
  exact Option.ext fun p => PublisherRow.find_iff.trans ((hmem p).trans PublisherRow.find_iff.symm)

/-- What the lookup of a token in use comes to. -/
theorem authLookup_of_token {t : TokenRow} (ht : t ∈ db.tokens) (env : Env) : (Stmt.authLookup t.tokenHash).run env db =
    .ok (if t.revokedAt.isNone then (db.publishers.find? fun p => p.id == t.publisherId).map fun p =>
      (p.id, p.githubLogin, p.blockedAt) else none, []) := by
  let found (t : TokenRow) := (db.publishers.find? fun p => p.id == t.publisherId).map fun p =>
    (p.id, p.githubLogin, p.blockedAt)
  have hlookup : (db.tokens.find? fun u => u.tokenHash == t.tokenHash && u.revokedAt.isNone).bind found =
      if t.revokedAt.isNone then found t else none := by
    cases hf : db.tokens.find? fun u => u.tokenHash == t.tokenHash && u.revokedAt.isNone with
    | none =>
      have hr : t.revokedAt.isNone = false := by simpa using Table.find?_eq_none.mp hf t ht
      rw [hr]
      rfl
    | some u =>
      obtain ⟨hu, hsel⟩ := Table.mem_of_find? hf
      simp only [Bool.and_eq_true, beq_iff_eq] at hsel
      obtain rfl := TokenRow.eq_of_hash hu ht hsel.1
      rw [if_pos hsel.2, Option.bind_some]
  have hrun : (Stmt.authLookup t.tokenHash).run env db =
      .ok ((db.tokens.find? fun u => u.tokenHash == t.tokenHash && u.revokedAt.isNone).bind found, []) := by
    simp only [Stmt.run, found, Option.map_eq_bind]
    rfl
  rw [hrun, hlookup]
  rfl

theorem authLookup_blind {hash : String} (hmine : ∃ t ∈ tokens, t.tokenHash = hash) :
    registry.Blind (Sees P tokens own) (.authLookup hash) fun r => ∀ x, r = some x → x.1 = P := by
  refine blind_of_run fun env env' db db' hs => .inr ?_
  obtain ⟨x, hx, rfl⟩ := hmine
  have hx' : x ∈ (db'.view P).tokens := hs.view ▸ hs.tokens ▸ hx
  obtain ⟨t, ht, htp, rfl⟩ := hs.tokens ▸ hx
  obtain ⟨t', ht', htp', heq⟩ := hx'
  -- the two rows differ in their last use at most
  obtain ⟨-, hhash, -, -, hrev⟩ := TokenRow.mk.inj heq
  refine ⟨_, [], [], authLookup_of_token ht env, ?_, fun y hy => ?_, hs⟩
  · show (Stmt.authLookup t.tokenHash).run env' db' = _
    rw [← hhash, authLookup_of_token ht', hrev, htp, htp', find_publisher hs]
    rfl
  · obtain ⟨p, hp, rfl⟩ := Option.map_eq_some_iff.mp (Option.ite_none_right_eq_some.mp hy).2
    rw [← htp]
    simpa using (Table.mem_of_find? hp).2

theorem touchToken_blind (hash : String) : registry.Blind (Sees P tokens own) (.touchToken hash) fun _ => True := by
  have hview : ∀ (d : Db) (row : Option TokenRow) (now : Timestamp),
      (registry.applyAll (ifFound row (.touchToken hash now)) d).view P = d.view P := by
    intro d row now
    cases row with
    | none => rfl
    | some t => exact view_touchToken hash now
  exact blind_of_run fun env env' db db' hs => .inr ⟨(), _, _, rfl, rfl, trivial,
    hs.map id (hview _ _ _) (hview _ _ _) (fun _ => rfl) fun _ _ => Iff.rfl⟩

/-! The workflow. -/

theorem ownedWorkflowId_blind (slug : String) :
    registry.Blind (Sees P tokens own) (.ownedWorkflowId slug P) fun r => ∀ id, r = some id → id ∈ own := by
  have hfind : ∀ (d : Db) id, (d.workflows.find? fun w => w.slug == slug && w.publisherId == P).map (·.id) = some id ↔
      ∃ w ∈ (d.view P).workflows, w.slug = slug ∧ w.id = id := by
    intro d id
    rw [Option.map_eq_some_iff]
    constructor
    · rintro ⟨w, hf, hid⟩
      obtain ⟨hw, hsel⟩ := Table.mem_of_find? hf
      simp only [Bool.and_eq_true, beq_iff_eq] at hsel
      exact ⟨w.untimed, ⟨w, hw, hsel.2, rfl⟩, hsel.1, hid⟩
    · rintro ⟨_, ⟨w, hw, hp, rfl⟩, rfl, hid⟩
      subst hp
      exact ⟨w, find_owned hw, hid⟩
  refine blind_of_run fun env env' db db' hs => .inr ⟨_, [], [], rfl, ?_, fun id hid => ?_, hs⟩
  · show Except.ok (_, []) = Except.ok (_, [])
    congr 2
    exact Option.ext fun id => (hfind db' id).trans (hs.view ▸ (hfind db id).symm)
  · obtain ⟨w, hw, -, hid⟩ := (hfind db id).mp hid
    exact (hs.own id).mp (owns_iff.mpr ⟨w, hw, hid⟩)

theorem max?_congr {l l' : List ℤ} (h : ∀ n, n ∈ l ↔ n ∈ l') : l.max? = l'.max? :=
  Option.ext fun n => by simp only [List.max?_eq_some_iff, h]

theorem nextVersion_blind {id : Uuid} (hid : id ∈ own) :
    registry.Blind (Sees P tokens own) (.nextVersion id) fun _ => True := by
  have hmem : ∀ (d : Db), d.Owns P id → ∀ n : ℤ, n ∈ (d.versions.rows.filter fun v => v.workflowId == id).map (·.version) ↔
      ∃ v ∈ (d.view P).versions, v.workflowId = id ∧ v.version = n := by
    intro d ho n
    simp only [List.mem_map, List.mem_filter, beq_iff_eq]
    constructor
    · rintro ⟨v, ⟨hv, rfl⟩, hn⟩
      exact ⟨v.untimed, ⟨v, hv, ho, rfl⟩, rfl, hn⟩
    · rintro ⟨_, ⟨v, hv, -, rfl⟩, hw, hn⟩
      exact ⟨v, ⟨hv, hw⟩, hn⟩
  refine blind_of_run fun env env' db db' hs => ?_
  obtain ⟨ho, ho'⟩ := hs.owns hid
  have hmax := max?_congr fun n => (hmem db ho n).trans (hs.view ▸ (hmem db' ho' n).symm)
  simp only [Stmt.run, ← hmax]
  split
  · exact .inl ⟨_, rfl, rfl⟩
  · exact .inr ⟨_, [], [], rfl, rfl, trivial, hs⟩

theorem insertVersion_blind {id : Uuid} (hid : id ∈ own) (n : ℤ) (yaml : String) (changelog : Option String) :
    registry.Blind (Sees P tokens own) (.insertVersion id n yaml changelog) fun _ => True := by
  have hhas : ∀ (d : Db) (now : Timestamp), d.Owns P id →
      (d.versions.has (key (⟨id, n, yaml, changelog, now, none⟩ : VersionRow)) ↔
        ∃ v ∈ (d.view P).versions, v.workflowId = id ∧ v.version = n) := by
    intro d now ho
    constructor
    · rintro ⟨v, hv, hc⟩
      obtain ⟨rfl, hn⟩ := (clash_version _ _).mp hc
      exact ⟨v.untimed, ⟨v, hv, ho, rfl⟩, rfl, hn⟩
    · rintro ⟨_, ⟨v, hv, -, rfl⟩, hw, hn⟩
      exact ⟨v, hv, (clash_version _ _).mpr ⟨hw, hn⟩⟩
  refine blind_of_run fun env env' db db' hs => ?_
  obtain ⟨ho, ho'⟩ := hs.owns hid
  have hsame := (hhas db env.now ho).trans (hs.view ▸ (hhas db' env'.now ho').symm)
  simp only [Stmt.run]
  by_cases hnew : db.versions.has (key (⟨id, n, yaml, changelog, env.now, none⟩ : VersionRow))
  · rw [if_pos hnew, if_pos (hsame.mp hnew)]
    exact .inl ⟨_, rfl, rfl⟩
  · have hnew' := mt hsame.mpr hnew
    rw [if_neg hnew, if_neg hnew']
    exact .inr ⟨_, _, _, rfl, rfl, trivial,
      hs.map (fun v => { v with versions := insert ⟨id, n, yaml, changelog, 0, none⟩ v.versions })
        (view_insertVersion hnew ho) (view_insertVersion hnew' ho') (fun _ => rfl) fun _ _ => Iff.rfl⟩

/-- An update of one workflow of the publisher's. -/
theorem update_blind {id : Uuid} (hid : id ∈ own) {q : Stmt} {u : Timestamp → Write} {a : q.Res} {g : WorkflowRow → WorkflowRow}
    (hrun : ∀ env db, q.run env db = .ok (a, ifFound (db.workflows.find? fun w => w.id == id) (u env.now)))
    (hview : ∀ now db, ((u now).apply db).view P = (db.view P).change id g) (hg : ∀ w, (g w).id = w.id) :
    registry.Blind (Sees P tokens own) q fun _ => True := by
  have hfound : ∀ {d : Db} {w : Write}, d.Owns P id → ifFound (d.workflows.find? fun w => w.id == id) w = [w] := by
    rintro d w ⟨r, hr, -, rfl⟩
    exact ifFound_self hr
  refine blind_of_run fun env env' db db' hs => .inr ⟨a, _, _, hrun env db, hrun env' db', trivial, ?_⟩
  rw [hfound (hs.owns hid).1, hfound (hs.owns hid).2]
  refine hs.map (·.change id g) (hview _ _) (hview _ _) (fun _ => rfl) fun v i => ?_
  have hids : ∀ w : WorkflowRow, (if w.id = id then g w else w).id = w.id := fun w => by split <;> simp only [hg]
  simp only [View.change, Set.exists_mem_image, hids]

theorem relist_blind {id : Uuid} (hid : id ∈ own) : registry.Blind (Sees P tokens own) (.relist id) fun _ => True :=
  update_blind hid (g := fun w => { w with unlistedAt := none }) (fun _ _ => rfl)
    (fun _ _ => view_setWorkflow (fun _ => rfl) fun _ => rfl) fun _ => rfl

theorem amend_blind {id : Uuid} (hid : id ∈ own) (title description : Option String) (tags : Option (List String)) :
    registry.Blind (Sees P tokens own) (.amend id title description tags) fun _ => True :=
  update_blind hid (g := fun w =>
      { w with title := title.getD w.title, description := description.getD w.description, tags := tags.getD w.tags })
    (fun _ _ => rfl) (fun _ _ => view_setWorkflow (fun _ => rfl) fun _ => rfl) fun _ => rfl

theorem unlist_blind {id : Uuid} (hid : id ∈ own) : registry.Blind (Sees P tokens own) (.unlist id) fun _ => True :=
  update_blind hid (g := fun w => { w with unlistedAt := some 0 }) (fun _ _ => rfl)
    (fun _ _ => view_setWorkflow (fun _ => rfl) fun _ => rfl) fun _ => rfl

/-! ### Handlers -/

/-- The handler does not see the difference, and what it goes on with is of `A`. -/
def Handler.Blind {α : Type} (R : Db → Db → Prop) (m : Handler α) (A : α → Prop) : Prop :=
  Prog.Blind (S := registry) R m.run fun r => ∀ a, r = .ok a → A a

section Rules

variable {α β : Type} {R : Db → Db → Prop} {A : α → Prop} {B : β → Prop}

theorem blind_pure {a : α} (h : A a) : Handler.Blind R (pure a) A := by
  rintro b ⟨⟩
  exact h

theorem blind_throw {e : Error} : Handler.Blind R (throw e : Handler α) A := fun _ h => by cases h

theorem blind_lift (x : Except Error α) : Handler.Blind R (lift x) fun _ => True := fun _ _ => trivial

theorem blind_bind {m : Handler α} {g : α → Handler β} (hm : Handler.Blind R m A)
    (hg : ∀ a, A a → Handler.Blind R (g a) B) : Handler.Blind R (m >>= g) B := by
  refine Prog.blind_bind (fun r hr => ?_) hm
  cases r with
  | ok a => exact hg a (hr a rfl)
  | error e => exact blind_throw

theorem blind_queryOr {q : Stmt} {C : q.Res → Prop} (h : registry.Blind R q C) (f : SqlError → Error) :
    Handler.Blind R (queryOr q f) C := by
  refine ⟨C, h, fun r hr a ha => ?_⟩
  cases r with
  | ok b =>
    cases ha
    exact hr _ rfl
  | error e => cases ha

theorem blind_attempt {q : Stmt} {C : q.Res → Prop} (h : registry.Blind R q C) :
    Handler.Blind R (attempt q) fun _ => True := ⟨C, h, fun _ _ _ _ => trivial⟩

theorem blind_begin : Handler.Blind R begin fun _ => True := fun _ _ _ => trivial

theorem blind_commit : Handler.Blind R commit fun _ => True := fun _ _ _ => trivial

end Rules

theorem publisher_blind {headers : HeaderMap}
    (hmine : ∀ token ∈ bearer headers, ∃ t ∈ tokens, t.tokenHash = hashToken app.sha256 token) :
    Handler.Blind (Sees P tokens own) (Publisher.fromRequestParts app headers) fun p => p.id = P := by
  unfold Publisher.fromRequestParts
  cases hb : bearer headers with
  | none => exact blind_throw
  | some token =>
    refine blind_bind (blind_queryOr (authLookup_blind (hmine token hb)) _) fun r hr => ?_
    cases r with
    | none => exact blind_throw
    | some x =>
      obtain ⟨id, login, blockedAt⟩ := x
      dsimp only
      split
      · exact blind_bind (A := fun _ => False) blind_throw fun _ h => h.elim
      · exact blind_bind (blind_attempt (touchToken_blind _)) fun _ _ => blind_pure (hr _ rfl)

theorem owned_blind {p : Publisher} (hp : p.id = P) (slug : String) :
    Handler.Blind (Sees P tokens own) (ownedWorkflowId slug p) fun id => id ∈ own := by
  subst hp
  refine blind_bind (blind_queryOr (ownedWorkflowId_blind slug) _) fun r hr => ?_
  cases r with
  | none => exact blind_throw
  | some id => exact blind_pure (hr id rfl)

theorem publishVersion_blind {p : Publisher} (hp : p.id = P) (slug : String) (body : PublishVersion) :
    Handler.Blind (Sees P tokens own) (publishVersion app p slug body) fun _ => True := by
  unfold publishVersion
  generalize body.validate app.config.maxYamlBytes = verdict
  exact blind_bind (blind_lift _) fun _ _ => blind_bind (owned_blind hp slug) fun _ hid =>
    blind_bind blind_begin fun _ _ => blind_bind (blind_queryOr (nextVersion_blind hid) _) fun n _ =>
    blind_bind (blind_queryOr (insertVersion_blind hid n _ _) _) fun _ _ =>
    blind_bind (blind_queryOr (relist_blind hid) _) fun _ _ => blind_bind blind_commit fun _ _ => blind_pure trivial

theorem update_handler_blind {p : Publisher} (hp : p.id = P) (slug : String) (body : UpdateWorkflow) :
    Handler.Blind (Sees P tokens own) (update p slug body) fun _ => True :=
  blind_bind (blind_lift _) fun _ _ => blind_bind (owned_blind hp slug) fun _ hid =>
    blind_bind (blind_queryOr (amend_blind hid _ _ _) _) fun _ _ => blind_pure trivial

theorem unlist_handler_blind {p : Publisher} (hp : p.id = P) (slug : String) :
    Handler.Blind (Sees P tokens own) (unlist p slug) fun _ => True :=
  blind_bind (owned_blind hp slug) fun _ hid => blind_bind (blind_queryOr (unlist_blind hid) _) fun _ _ => blind_pure trivial

/-! ### Two runs -/

/-- Served alone from either database, its moves going alike, the request gets
the same answer and leaves `P` the same rows. -/
def Unseen (app : AppState) (P : Uuid) (db db' : Db) (req : Request) : Prop :=
  ∀ cs cs', List.Forall₂ Choice.Alike cs cs' → Option.Rel (fun r r' => r.1 = r'.1 ∧ r.2.view P = r'.2.view P)
    ((handle app req).served none db cs) ((handle app req).served none db' cs')

-- a goal about a handler is not to be evaluated on the handler's text
attribute [local irreducible] Prog.Blind in
/-- **Writes reveal nothing about other people's slugs.** On two databases that
agree on a publisher's own row, tokens, workflows and versions, a publish, an
update and an unlist with a token of its get the same answers, and leave it the
same workflows and versions. -/
theorem writes_blind (hview : db.view P = db'.view P) {headers : HeaderMap}
    (hmine : ∀ token ∈ bearer headers, ∃ t ∈ db.tokens, t.publisherId = P ∧ t.tokenHash = hashToken app.sha256 token)
    (slug : String) :
    (∀ body, Unseen app P db db' (.publishVersion headers slug body)) ∧
    (∀ body, Unseen app P db db' (.update headers slug body)) ∧ Unseen app P db db' (.unlist headers slug) := by
  have hsees : Sees P (db.view P).tokens {id | db.Owns P id} db db' := ⟨hview, rfl, fun _ => Iff.rfl⟩
  have htoken : ∀ token ∈ bearer headers, ∃ t ∈ (db.view P).tokens, t.tokenHash = hashToken app.sha256 token := by
    intro token hb
    obtain ⟨t, ht, hp, hh⟩ := hmine token hb
    exact ⟨t.untimed, ⟨t, ht, hp, rfl⟩, hh⟩
  have hserved : ∀ {f : Publisher → Handler Reply} {req : Request}, req.handler app = asPublisher app headers f →
      (∀ p : Publisher, p.id = P → Handler.Blind (Sees P (db.view P).tokens {id | db.Owns P id}) (f p) fun _ => True) →
      Unseen app P db db' req := by
    intro f req hreq hf cs cs' hcs
    rw [handle, hreq]
    exact Prog.Blind.served_imp (blind_bind (publisher_blind htoken) hf) (fun _ _ h => h.view) hsees hcs
  exact ⟨fun body => hserved rfl fun p hp => publishVersion_blind hp slug body,
    fun body => hserved rfl fun p hp => update_handler_blind hp slug body,
    hserved rfl fun p hp => unlist_handler_blind hp slug⟩

/-- The slug is the second publisher's. -/
def Sample.taken : Db :=
  { library with
    workflows := (∅ : Table WorkflowRow).insert ⟨7, "first", "Title", "What it does", [], 2, false, 3, none⟩
    versions := (∅ : Table VersionRow).insert ⟨7, 1, "steps: []", none, 3, none⟩ }

/-- The first publisher sees nothing of it. -/
theorem Sample.taken_view : library.view 1 = taken.view 1 := by
  have hrow : ∀ w ∈ taken.workflows, w.publisherId ≠ 1 := by decide +kernel
  have howns : ∀ id, ¬ taken.Owns 1 id := fun id ⟨w, hw, hp, _⟩ => hrow w hw hp
  refine View.ext rfl rfl (Set.ext fun x => ?_) (Set.ext fun x => ?_)
  · exact iff_of_false (fun ⟨w, hw, _⟩ => Table.not_mem_empty w hw) fun ⟨w, hw, hp, _⟩ => hrow w hw hp
  · exact iff_of_false (fun ⟨v, hv, _⟩ => Table.not_mem_empty v hv) fun ⟨_, _, ho, _⟩ => howns _ ho

/-- It is told that there is no such workflow, and would be if there were none. -/
theorem writes_blind_taken :
    Unseen Sample.replica 1 Sample.library Sample.taken (.unlist (Sample.headers (Sample.token 0)) "first") ∧
      ∀ db ∈ [Sample.library, Sample.taken],
        (((handle Sample.replica (.unlist (Sample.headers (Sample.token 0)) "first")).served (S := registry) none db
          (.replicate 3 (.go (Sample.env 10)))).map Prod.fst) = some (.error (.notFound "workflow")) := by
  have hb : bearer (Sample.headers (Sample.token 0)) = some (Sample.token 0) := by decide +kernel
  have hmine : ∀ token ∈ bearer (Sample.headers (Sample.token 0)), ∃ t ∈ Sample.library.tokens, t.publisherId = 1 ∧
      t.tokenHash = hashToken Sample.replica.sha256 token := by
    rintro token htoken
    obtain rfl := Option.some.inj (hb.symm.trans htoken)
    exact ⟨⟨1, hashToken Sample.sha256 (Sample.token 0), "laptop", none, none⟩, List.mem_cons_self, rfl, rfl⟩
  refine ⟨(writes_blind Sample.taken_view hmine "first").2.2, ?_⟩
  decide +kernel

end HarnessRegistry

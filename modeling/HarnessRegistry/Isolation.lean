/-
# A publisher changes what is theirs

A request is authenticated as the publisher of the token it carries
(`Holder`). Whatever it asks for, it changes that publisher's profile, their
workflows and these workflows' versions, and `last_used_at` of a token:
`Db.Frame` lists what stays. The handlers look the workflow up by slug and
owner and write by id alone; the frame holds because an id has one owner for
ever. So the official flag of a workflow is what the operator last set.

Key definitions: `Db.Frame`, `Write.own`, `badge`.
Key theorems: `Write.own.frame`, `Effect.frame`, `isolated`, `Reached.badges`,
`ownership_isolated`.
-/
import HarnessRegistry.Runs

namespace HarnessRegistry

open Txn Handler

variable {app : AppState} {db db' db₀ : Db} {s s' : Registry} {p : Uuid}

/-! ### What a publisher leaves alone -/

/-- From `db` to `db'` nothing has changed but what is publisher `p`'s. -/
structure Db.Frame (p : Uuid) (db db' : Db) : Prop where
  workflows : ∀ w : WorkflowRow, w.publisherId ≠ p → (w ∈ db'.workflows ↔ w ∈ db.workflows)
  versions : ∀ v : VersionRow, (∃ w ∈ db.workflows, w.id = v.workflowId ∧ w.publisherId ≠ p) →
    (v ∈ db'.versions ↔ v ∈ db.versions)
  publishers : ∀ q : PublisherRow, q.id ≠ p → (q ∈ db'.publishers ↔ q ∈ db.publishers)
  installs : db'.installs = db.installs
  names : ∀ w ∈ db.workflows, ∃ w' ∈ db'.workflows, w'.id = w.id ∧ w'.slug = w.slug ∧
    w'.publisherId = w.publisherId ∧ w'.official = w.official
  accounts : db'.publishers.rows.map (fun q => (q.id, q.githubId, q.blockedAt)) =
    db.publishers.rows.map fun q => (q.id, q.githubId, q.blockedAt)
  tokens : db'.tokens.rows.map TokenRow.unused = db.tokens.rows.map TokenRow.unused

theorem Db.Frame.refl (p : Uuid) (db : Db) : db.Frame p db :=
  ⟨fun _ _ => Iff.rfl, fun _ _ => Iff.rfl, fun _ _ => Iff.rfl, rfl, fun w hw => ⟨w, hw, rfl, rfl, rfl, rfl⟩, rfl, rfl⟩

theorem Db.Frame.trans {a b c : Db} (h : a.Frame p b) (h' : b.Frame p c) : a.Frame p c where
  workflows w hw := (h'.workflows w hw).trans (h.workflows w hw)
  versions v hv := by
    obtain ⟨w, hw, hid, hp⟩ := hv
    have hv' : ∃ w ∈ b.workflows, w.id = v.workflowId ∧ w.publisherId ≠ p := ⟨w, (h.workflows w hp).mpr hw, hid, hp⟩
    exact (h'.versions v hv').trans (h.versions v ⟨w, hw, hid, hp⟩)
  publishers q hq := (h'.publishers q hq).trans (h.publishers q hq)
  installs := h'.installs.trans h.installs
  names w hw := by
    obtain ⟨w', hw', hi, hs, ho, hf⟩ := h.names w hw
    obtain ⟨w'', hw'', hi', hs', ho', hf'⟩ := h'.names w' hw'
    exact ⟨w'', hw'', hi'.trans hi, hs'.trans hs, ho'.trans ho, hf'.trans hf⟩
  accounts := h'.accounts.trans h.accounts
  tokens := h'.tokens.trans h.tokens

/-- Every workflow of that id is `p`'s. -/
def Db.Owned (db : Db) (id p : Uuid) : Prop := ∀ w ∈ db.workflows, w.id = id → w.publisherId = p

/-- A write to what is `p`'s, or to `last_used_at`. -/
def Write.own (p : Uuid) (db : Db) : Write → Prop
  | .touchToken .. => True
  | .setDisplayName id _ => id = p
  | .insertWorkflow row => row.publisherId = p
  | .relist id _ | .amend id _ _ _ _ | .unlist id _ => db.Owned id p
  | .insertVersion row => db.Owned row.workflowId p
  | _ => False

/-- An update of the workflow `id`. -/
theorem frame_setWorkflow {id : Uuid} {f : WorkflowRow → WorkflowRow} {hf : ∀ r, key (f r) = key r}
    (ho : db.Owned id p) (h : ∀ r, (f r).publisherId = r.publisherId ∧ (f r).official = r.official) :
    db.Frame p (db.setWorkflow id f hf) := by
  have hr := Db.Frame.refl p db
  have hk : ∀ r, (f r).id = r.id ∧ (f r).slug = r.slug := fun r => by simpa using hf r
  refine { hr with workflows := fun w hw => ?_, names := fun w hw => ?_ }
  · constructor
    · intro h'
      obtain ⟨y, hy, rfl⟩ := List.mem_map.mp h'
      by_cases hi : y.id = id
      · rw [if_pos hi, (h y).1] at hw
        exact absurd (ho y hy hi) hw
      · rwa [if_neg hi]
    · intro h'
      have hi : w.id ≠ id := fun hi => hw (ho w h' hi)
      exact List.mem_map.mpr ⟨w, h', if_neg hi⟩
  · refine ⟨_, List.mem_map.mpr ⟨w, hw, rfl⟩, ?_⟩
    by_cases hi : w.id = id
    · rw [if_pos hi]
      exact ⟨(hk w).1, (hk w).2, (h w).1, (h w).2⟩
    · rw [if_neg hi]
      exact ⟨rfl, rfl, rfl, rfl⟩

theorem Write.own.frame {w : Write} (h : w.own p db) : db.Frame p (w.apply db) := by
  have hr := Db.Frame.refl p db
  cases w
  case touchToken hash now => exact { hr with tokens := unused_touch db hash now }
  case setDisplayName id name =>
    obtain rfl : id = p := h
    refine { hr with publishers := fun q hq => ?_, accounts := ?_ }
    · constructor
      · intro h'
        obtain ⟨y, hy, rfl⟩ := List.mem_map.mp h'
        by_cases hi : y.id = id
        · rw [if_pos hi] at hq
          exact absurd hi hq
        · rwa [if_neg hi]
      · exact fun h' => List.mem_map.mpr ⟨q, h', if_neg hq⟩
    · change ((db.publishers.rows.map _).map _) = _
      rw [List.map_map]
      refine List.map_congr_left fun q _ => ?_
      simp only [Function.comp_apply]
      split <;> rfl
  case insertWorkflow row =>
    refine { hr with workflows := fun w hw => ?_, names := fun w hw => ⟨w, Table.mem_insert_of_mem hw, rfl, rfl, rfl, rfl⟩ }
    refine ⟨fun h' => ?_, Table.mem_insert_of_mem⟩
    rcases Table.exists_of_insert (q := fun x => x = w) ⟨w, h', rfl⟩ with ⟨x, hx, rfl⟩ | rfl
    · exact hx
    · exact absurd h hw
  case insertVersion row =>
    refine { hr with versions := fun v ⟨w, hw, hid, hp⟩ => ⟨fun h' => ?_, Table.mem_insert_of_mem⟩ }
    rcases Table.exists_of_insert (q := fun x => x = v) ⟨v, h', rfl⟩ with ⟨x, hx, rfl⟩ | rfl
    · exact hx
    · exact absurd (h w hw hid) hp
  case relist | amend | unlist => exact frame_setWorkflow h fun _ => ⟨rfl, rfl⟩
  all_goals cases h

/-! ### A request of a publisher's -/

/-- A workflow that is there is the only one of its id. -/
theorem owned_of_mem {w : WorkflowRow} (hw : w ∈ db.workflows) (hp : w.publisherId = p) : db.Owned w.id p := by
  intro w' hw' hi
  obtain rfl : w' = w := WorkflowRow.eq_of_id hw' hw hi
  exact hp

theorem Prelude.frame {req : Request} {ws : List Write} {h : HeaderMap} (hp : Prelude app req db ws)
    (hreq : req.publisher? = some h) : db.Frame p (registry.applyAll ws db) := by
  cases hp with
  | touched => exact Write.own.frame (w := .touchToken _ _) trivial
  | upserted => cases hreq

/-- The effect of a publisher's request is on what is theirs. -/
theorem Effect.frame {req : Request} {ws : List Write} {reply : Reply} {h : HeaderMap}
    (he : Effect app req db ws reply) (hf : registry.Fresh ws db) (hreq : req.publisher? = some h)
    (hh : Holder app db h p) : db.Frame p (registry.applyAll ws db) := by
  cases he with
  | @created _ body _ q env hq _ =>
    cases hreq
    obtain rfl := hh.unique hq
    obtain ⟨hfw, -⟩ := fresh_cons hf
    have h₁ : (Write.insertWorkflow (.inserted env body.slug body.title body.description body.tags p)).own p db := rfl
    refine h₁.frame.trans (Write.own.frame (w := .insertVersion _) ?_)
    -- the new workflow has a new id
    intro w hw hi
    rcases (Table.mem_insert (not_has_workflow hfw)).mp hw with hw | rfl
    · exact absurd ⟨w, hw, hi⟩ (hfw.2 (.workflow env.uuid) (by simp [Write.claims, WorkflowRow.inserted]))
    · rfl
  | @published _ slug body _ w n now hw _ hq _ _ =>
    cases hreq
    have ho := owned_of_mem hw (hh.unique hq).symm
    have h₁ : (Write.insertVersion ⟨w.id, n, body.yaml, body.changelog, now, none⟩).own p db := ho
    exact h₁.frame.trans (Write.own.frame (w := .relist w.id now) ho)
  | amended hw _ hq _ =>
    cases hreq
    exact Write.own.frame (w := .amend _ _ _ _ _) (owned_of_mem hw (hh.unique hq).symm)
  | unlisted hw _ hq =>
    cases hreq
    exact Write.own.frame (w := .unlist _ _) (owned_of_mem hw (hh.unique hq).symm)
  | renamed _ hq _ =>
    cases hreq
    exact Write.own.frame (w := .setDisplayName _ _) (hh.unique hq).symm
  | _ => cases hreq

/-- One move of a request with a token of `p`'s. -/
theorem frame_step {a : Action registry Request} (hg : Good app s) (hst : s.step (handle app) a = some s')
    (ha : (∃ req, a = .arrive req) ∨ ∃ r c t h, a = .task r c ∧ s.tasks[r]? = some t ∧ t.req.publisher? = some h ∧
      Holder app s.db h p) : s.db.Frame p s'.db := by
  rcases Pool.step_cases hst with ⟨req, -, rfl⟩ | ⟨w, rfl, -⟩ | ⟨r, c, t, t', ws, rfl, ht, hm, -, rfl⟩
  · exact .refl p _
  · rcases ha with ⟨_, ha⟩ | ⟨_, _, _, _, ha, -⟩ <;> cases ha
  · rcases ha with ⟨_, ha⟩ | ⟨r', c', t₁, h, ha, ht₁, hreq, hh⟩
    · cases ha
    · cases ha
      obtain rfl := Option.some.inj (ht.symm.trans ht₁)
      rcases (Contract.move_ok hg.ok ht hm).guar with rfl | ⟨hgu, hf⟩
      · exact .refl p _
      · cases hgu with
        | «prelude» _ hp => exact hp.frame hreq
        | effect _ he => exact he.frame hf hreq hh

/-- And so any number of moves of such requests, in any order. -/
theorem isolated {as : List (Action registry Request)} (hg : Good app s) (hrun : s.run (handle app) as = some s')
    (hall : ∀ as₁ a s₁ s₂, Pool.Moves (handle app) s as as₁ a s₁ s₂ → (∃ req, a = .arrive req) ∨
      ∃ r c t h, a = .task r c ∧ s₁.tasks[r]? = some t ∧ t.req.publisher? = some h ∧ Holder app s₁.db h p) :
    s.db.Frame p s'.db := by
  induction as using List.reverseRecOn generalizing s' with
  | nil => cases hrun; exact .refl p _
  | append_singleton as a ih =>
    obtain ⟨s₁, h₁, h₂⟩ := Pool.run_snoc.mp hrun
    have hf := ih h₁ fun as₁ b u v hm => hall as₁ b u v (hm.mono ⟨[a], rfl⟩)
    exact hf.trans (frame_step (Contract.run_good hg h₁) h₂ (hall as a s₁ s' ⟨⟨[], rfl⟩, h₁, h₂⟩))

/-! ### The badge -/

/-- An event of the history that sets the official flag of `slug`. -/
def badge (slug : String) : Option Request × Write → Option Bool
  | (some (.setOfficial _ slug' value), _) => if slug' = slug then some value else none
  | _ => none

/-- A write that neither adds a workflow nor sets a flag. -/
def Write.badgeless : Write → Bool
  | .insertWorkflow _ | .setOfficial .. => false
  | _ => true

theorem official_apply {w : Write} (hw : w.badgeless = true) {x : WorkflowRow} (hx : x ∈ (w.apply db).workflows) :
    ∃ y ∈ db.workflows, y.slug = x.slug ∧ y.official = x.official := by
  cases w
  case insertWorkflow | setOfficial => cases hw
  case relist | amend | unlist =>
    obtain ⟨y, hy, rfl⟩ := List.mem_map.mp hx
    refine ⟨y, hy, ?_⟩
    split <;> exact ⟨rfl, rfl⟩
  all_goals exact ⟨x, hx, rfl, rfl⟩

theorem official_applyAll : ∀ (ws : List Write) {db : Db} {x : WorkflowRow}, (∀ w ∈ ws, w.badgeless = true) →
    x ∈ (registry.applyAll ws db).workflows → ∃ y ∈ db.workflows, y.slug = x.slug ∧ y.official = x.official
  | [], _, x, _, hx => ⟨x, hx, rfl, rfl⟩
  | w :: ws, _, _, hw, hx => by
    obtain ⟨y, hy, hs, ho⟩ := official_applyAll ws (fun v hv => hw v (List.mem_cons_of_mem _ hv)) hx
    obtain ⟨z, hz, hs', ho'⟩ := official_apply (hw w List.mem_cons_self) hy
    exact ⟨z, hz, hs'.trans hs, ho'.trans ho⟩

/-- The flags are what the operator last set, on slugs that are in use. -/
structure Badges (s : Registry) : Prop where
  official : ∀ w ∈ s.db.workflows, w.official = (s.last (badge w.slug)).getD false
  used : ∀ slug, (s.last (badge slug)).isSome → ∃ w ∈ s.db.workflows, w.slug = slug

/-- Other events, and writes that leave the flags. -/
theorem Badges.unread (hb : Badges s) (l : List (Option Request × Write)) (hh : s'.history = s.history ++ l)
    (hl : ∀ slug, ∀ e ∈ l, badge slug e = none) (hgr : s.db.Grows s'.db)
    (hold : ∀ x ∈ s'.db.workflows, (∃ y ∈ s.db.workflows, y.slug = x.slug ∧ y.official = x.official) ∨
      x.official = false ∧ ¬ ∃ y ∈ s.db.workflows, y.slug = x.slug) : Badges s' := by
  constructor
  · intro x hx
    rw [Pool.last_unread hh (hl x.slug)]
    rcases hold x hx with ⟨y, hy, hs, ho⟩ | ⟨ho, hno⟩
    · rw [← ho, ← hs]
      exact hb.official y hy
    · have hnone : (s.last (badge x.slug)).isSome ≠ true := fun h => hno (hb.used x.slug h)
      rw [ho, Option.not_isSome_iff_eq_none.mp hnone]
      rfl
  · intro slug h
    rw [Pool.last_unread hh (hl slug)] at h
    obtain ⟨w, hw, hs⟩ := hb.used slug h
    obtain ⟨w', hw', he⟩ := hgr.workflows w hw
    exact ⟨w', hw', he.2.1.trans hs⟩

/-- A flag set by the operator. -/
theorem Badges.badged (hb : Badges s) {h : HeaderMap} {value : Bool} {w : WorkflowRow} (hw : w ∈ s.db.workflows)
    (hd : s'.db = (Write.setOfficial w.id value).apply s.db)
    (hh : s'.history = s.history ++ [(some (.setOfficial h w.slug value), .setOfficial w.id value)]) : Badges s' := by
  have hset : s'.last (badge w.slug) = some value := by
    rw [Pool.last_append hh]
    simp [badge]
  have hother : ∀ slug, w.slug ≠ slug → s'.last (badge slug) = s.last (badge slug) := fun slug hne =>
    Pool.last_unread hh (by simp [badge, hne])
  constructor
  · intro x hx
    rw [hd] at hx
    obtain ⟨y, hy, rfl⟩ := List.mem_map.mp hx
    by_cases hi : y.id = w.id
    · obtain rfl : y = w := WorkflowRow.eq_of_id hy hw hi
      rw [if_pos rfl, hset]
      rfl
    · have hne : w.slug ≠ y.slug := fun hs => hi (by
        obtain rfl : y = w := Table.eq_of_clash hy hw ((clash_workflow _ _).mpr (.inr hs.symm))
        rfl)
      rw [if_neg hi, hother _ hne]
      exact hb.official y hy
  · intro slug hs
    have hgr : s.db.Grows s'.db := by rw [hd]; exact Write.grows _ _
    have hold : ∃ x ∈ s.db.workflows, x.slug = slug := by
      by_cases hne : w.slug = slug
      · exact ⟨w, hw, hne⟩
      · rw [hother slug hne] at hs
        exact hb.used slug hs
    obtain ⟨x, hx, hxs⟩ := hold
    obtain ⟨x', hx', he⟩ := hgr.workflows x hx
    exact ⟨x', hx', he.2.1.trans hxs⟩

/-- A commit of a request keeps the flags. -/
theorem Badges.commit (hb : Badges s) {req : Request} {done ws : List Write} (hgu : Guar app req done s.db ws)
    (hf : registry.Fresh ws s.db) (hd : s'.db = registry.applyAll ws s.db)
    (hh : s'.history = s.history ++ ws.map (some req, ·)) : Badges s' := by
  have hgr : s.db.Grows s'.db := by rw [hd]; exact grows_applyAll _ _
  -- a request that is not the operator's and adds no workflow
  have plain : (∀ slug w, badge slug (some req, w) = none) → (∀ w ∈ ws, w.badgeless = true) → Badges s' := by
    intro hr hw
    refine hb.unread _ hh (fun slug e he => ?_) hgr fun x hx => ?_
    · obtain ⟨w, -, rfl⟩ := List.mem_map.mp he
      exact hr slug w
    · rw [hd] at hx
      exact .inl (official_applyAll ws hw hx)
  cases hgu with
  | «prelude» _ hp =>
    cases hp with
    | @touched _ _ _ _ _ _ hreq =>
      exact plain (by intro slug w; cases req <;> first | rfl | cases hreq) (by simp [Write.badgeless])
    | upserted _ hu =>
      refine plain (fun _ _ => rfl) fun w hw => ?_
      rw [List.mem_singleton.mp hw]
      cases hu <;> rfl
  | effect _ he =>
    cases he with
    | @created h body _ q env _ _ =>
      refine hb.unread _ hh (by simp [badge]) hgr fun x hx => ?_
      obtain ⟨hfw, -⟩ := fresh_cons hf
      rw [hd] at hx
      rcases (Table.mem_insert (not_has_workflow hfw)).mp hx with hx | rfl
      · exact .inl ⟨x, hx, rfl, rfl⟩
      · exact .inr ⟨rfl, hfw.2 (.slug body.slug) (by simp [Write.claims, WorkflowRow.inserted])⟩
    | badged _ hw hs =>
      subst hs
      exact hb.badged hw hd hh
    | issued _ _ hu =>
      refine plain (fun _ _ => rfl) fun w hw => ?_
      simp only [List.mem_cons, List.not_mem_nil, or_false] at hw
      rcases hw with rfl | rfl
      · cases hu <;> rfl
      · rfl
    | _ => exact plain (fun _ _ => rfl) (by simp [Write.badgeless])

theorem Badges.step {a : Action registry Request} (hb : Badges s) (hg : Good app s)
    (hst : s.step (handle app) a = some s') : Badges s' := by
  have hgr := Good.grows hg hst
  rcases Contract.step_cases hg hst with ⟨hd, -, hh⟩ | ⟨w, hw, hd, -, hh, -⟩ | ⟨r, t, t', ws, ht, hgu, hf, hd, -, hh, -⟩
  · exact hb.unread [] (by simpa using hh) (by simp) hgr fun x hx => .inl ⟨x, hd ▸ hx, rfl, rfl⟩
  · have hwb : w.badgeless = true := by cases w <;> first | rfl | cases hw
    refine hb.unread _ hh (by simp [badge]) hgr fun x hx => .inl (official_apply hwb ?_)
    rw [hd] at hx
    exact hx
  · exact hb.commit hgu hf hd hh

theorem Reached.badges (h0 : db₀.Initial) (h : Reached app db₀ s) : Badges s := by
  refine h.induct (P := Badges) h0.sound ⟨fun w hw => ?_, fun slug hs => ?_⟩ fun s a s' _ hg hb hst => hb.step hg hst
  · simp [Registry.start, h0.workflows] at hw
  · simp [Pool.last, Pool.history, Registry.start] at hs

/-- **Ownership isolation.** While only requests with tokens of publisher `p`
are moved, in whatever state and however they end, nothing changes but what is
`p`'s; and in every state the official flag of a workflow is what the last
`set_official` on its slug that succeeded has set, or false. -/
theorem ownership_isolated (h0 : db₀.Initial) (h : Reached app db₀ s) :
    (∀ p as s', s.run (handle app) as = some s' →
      (∀ as₁ a s₁ s₂, Pool.Moves (handle app) s as as₁ a s₁ s₂ → (∃ req, a = .arrive req) ∨
        ∃ r c t h, a = .task r c ∧ s₁.tasks[r]? = some t ∧ t.req.publisher? = some h ∧ Holder app s₁.db h p) →
      s.db.Frame p s'.db) ∧
    (∀ w ∈ s.db.workflows, w.official = (s.last (badge w.slug)).getD false) ∧
    ∀ (r : ℕ) (t : Call) (headers : HeaderMap) (slug : String) (value : Bool), s.tasks[r]? = some t →
      t.req = .setOfficial headers slug value →
      ((∃ reply, t.answered = some (.ok reply)) ↔ ∃ w, (some r, w) ∈ s.log) := by
  refine ⟨fun p as s' hrun hall => isolated (h.good h0.sound) hrun hall, (h.badges h0).official, ?_⟩
  intro r t headers slug value ht hreq
  refine h.succeeded_iff h0.sound ht (by rw [hreq]; rfl) fun reply hp => ?_
  rw [hreq] at hp
  cases hp

theorem Sample.bob : Holder replica library (headers (token 1)) 2 := by
  have hb : bearer (headers (token 1)) = some (token 1) := by decide +kernel
  have ht : (⟨2, hashToken sha256 (token 1), "laptop", none, none⟩ : TokenRow) ∈ library.tokens.rows := by
    decide +kernel
  have hp : (⟨2, 2000, "bob", none, none, none⟩ : PublisherRow) ∈ library.publishers.rows := by decide +kernel
  exact ⟨_, hb, ⟨_, ht, rfl, rfl⟩, _, hp, rfl⟩

/-- Bob publishes to Ada's workflow: nothing of Ada's changes. -/
theorem ownership_isolated_bob :
    ∃ s s', Reached Sample.replica Sample.library s ∧ s.tasks.length = 1 ∧
      s.run (handle Sample.replica) (Sample.serve 20 1 (Sample.publish 1 "first" "steps: [mine]") 3) = some s' ∧
      s'.tasks.map Task.answered = [some (.ok (.published "first" 1)), some (.error (.notFound "workflow"))] ∧
      s.db.Frame 2 s'.db := by
  have h : ((Sample.after (Sample.serve 10 0 (Sample.create 0 "first") 7)).map fun s => (s.tasks.length,
      (s.run (handle Sample.replica) (Sample.serve 20 1 (Sample.publish 1 "first" "steps: [mine]") 3)).map
        fun s => s.tasks.map Task.answered)) =
      some (1, some [some (.ok (.published "first" 1)), some (.error (.notFound "workflow"))]) := by decide +kernel
  obtain ⟨s, hr, h⟩ := Sample.reached h
  obtain ⟨hlen, hrun⟩ := Prod.mk.inj h
  obtain ⟨s', hrun, ha⟩ := Option.map_eq_some_iff.mp hrun
  refine ⟨s, s', hr, hlen, hrun, ha, (ownership_isolated Sample.initial hr).1 2 _ s' hrun ?_⟩
  intro as₁ a s₁ s₂ hm
  obtain ⟨as₂, has⟩ := hm.rest
  cases as₁ with
  | nil => exact .inl ⟨_, (List.cons.inj has).1.symm⟩
  | cons b as₁ =>
    right
    obtain ⟨rfl, hrest⟩ := List.cons.inj has
    have hmem : a ∈ Sample.moves 20 1 3 := by rw [hrest]; simp
    obtain ⟨i, -, rfl⟩ := List.mem_map.mp hmem
    -- the only request that moves is the one that has arrived
    have hbefore : (s.arrived (handle Sample.replica) (Sample.publish 1 "first" "steps: [mine]")).run
        (handle Sample.replica) as₁ = some s₁ := hm.before
    have ht := Pool.arrived_task (handle Sample.replica) s (Sample.publish 1 "first" "steps: [mine]")
    rw [hlen] at ht
    obtain ⟨t, ht, hreq, -⟩ := Pool.tasks_run hbefore ht
    have hgr : Sample.library.Grows s₁.db := by
      obtain ⟨as, has⟩ := hr.run hm.before
      exact Contract.run_rely (good_start Sample.initial.sound) has
    exact ⟨1, _, t, Sample.headers (Sample.token 1), rfl, ht, by rw [hreq]; rfl, Sample.bob.grows hgr⟩

end HarnessRegistry

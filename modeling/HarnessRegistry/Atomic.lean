/-
# All or nothing

A request that changes the library, the installs or the accounts by the
operator makes one commit that matters: each of its moves leaves the tables as
they were, but for when a token was last used, or carries out its whole effect
at once, and then it has been answered with success. So whichever statement or
commit fails, wherever the request is abandoned, and whatever the others do
meanwhile, it has done everything or nothing, and an error means nothing.

Key definitions: `Request.alters`, `Write.touches`, `Db.SameButUse`.
Key theorems: `Reached.touched`, `move_all_or_nothing`, `issued_publisher`,
`relisted_with_version`, `all_or_nothing`.
-/
import HarnessRegistry.Runs

namespace HarnessRegistry

open Txn

variable {app : AppState} {db db₀ : Db} {s s' : Registry}

/-- The catalogue and operator writes. -/
def Request.alters : Request → Bool
  | .create .. | .publishVersion .. | .update .. | .unlist .. | .record .. | .forget .. | .updateMe ..
  | .issueToken .. | .setOfficial .. | .setBlocked .. => true
  | _ => false

/-- The write of `last_used_at`. -/
def Write.touches : Write → Bool
  | .touchToken .. => true
  | _ => false

/-- The same tables, but for `last_used_at`. -/
structure Db.SameButUse (db db' : Db) : Prop where
  publishers : db'.publishers = db.publishers
  tokens : db'.tokens.rows.map TokenRow.unused = db.tokens.rows.map TokenRow.unused
  workflows : db'.workflows = db.workflows
  versions : db'.versions = db.versions
  installs : db'.installs = db.installs

theorem Db.SameButUse.refl (db : Db) : db.SameButUse db := ⟨rfl, rfl, rfl, rfl, rfl⟩

theorem sameButUse_touch (db : Db) (hash : String) (now : Timestamp) :
    db.SameButUse ((Write.touchToken hash now).apply db) := ⟨rfl, unused_touch db hash now, rfl, rfl, rfl⟩

/-! ### Before the effect -/

/-- The prelude of a request that changes something is that its token has been used. -/
theorem Prelude.touched_eq {req : Request} {ws : List Write} (h : Prelude app req db ws) (hreq : req.alters = true) :
    ∃ hash now, ws = [.touchToken hash now] := by
  cases h with
  | touched => exact ⟨_, _, rfl⟩
  | upserted => cases hreq

/-- What a request has committed: that at most, and then its effect. -/
inductive Parted (app : AppState) (req : Request) (db : Db) : List Write → Prop
  | touching {done : List Write} : (∀ w ∈ done, w.touches = true) → Parted app req db done
  | effect {pre ws : List Write} {reply : Reply} {db₀ : Db} : (∀ w ∈ pre, w.touches = true) →
      Effect app req db₀ ws reply → (registry.applyAll ws db₀).Grows db → Parted app req db (pre ++ ws)

theorem Reached.parted (h0 : db₀.Sound) (h : Reached app db₀ s) : ∀ (r : ℕ) (t : Call), s.tasks[r]? = some t →
    t.req.alters = true → Parted app t.req s.db t.done := by
  refine h.induct (P := fun s => ∀ (r : ℕ) (t : Call), s.tasks[r]? = some t → t.req.alters = true →
    Parted app t.req s.db t.done) h0 (by simp [Registry.start]) fun s a s' hr hg ih hst r t ht hreq => ?_
  have later : ∀ {req done}, Parted app req s.db done → Parted app req s'.db done := by
    intro req done hp
    cases hp with
    | touching hd => exact .touching hd
    | effect hd he hgr => exact .effect hd he (hgr.trans (hg.grows hst))
  rcases Pool.step_task hst ht with ht | ⟨req, rfl⟩ | ⟨c, u, ws, -, hu, hm, rfl⟩
  · exact later (ih r t ht hreq)
  · exact .touching (by simp)
  · have hmv := Contract.move_ok hg.ok hu hm
    have hold := ih r u hu (hmv.req ▸ hreq)
    rw [hmv.req, hmv.done]
    rcases hmv.guar with rfl | ⟨hgu, -⟩
    · rw [List.append_nil]
      exact later hold
    -- it has not had its effect yet, as it would have been answered
    have htouch : ∀ w ∈ u.done, w.touches = true := by
      generalize hdone : u.done = done at hold
      cases hold with
      | touching hd => exact hd
      | effect _ he _ =>
        rcases effect_answered h0 hr r u hu with hp | ⟨reply, ha⟩
        · rw [hdone] at hp
          exact absurd hp (he.not_preparing _)
        · rw [Task.move_of_answered ha] at hm
          cases hm
    cases hgu with
    | «prelude» hd hpre =>
      obtain ⟨hash, now, rfl⟩ := hpre.touched_eq (hmv.req ▸ hreq)
      rw [hd]
      exact .touching (by simp [Write.touches])
    | effect _ he => exact .effect htouch he (.refl _)

/-- Before its effect a request has done no more than use its token. -/
theorem Reached.touched (h0 : db₀.Sound) (h : Reached app db₀ s) {r : ℕ} {t : Call} (ht : s.tasks[r]? = some t)
    (hreq : t.req.alters = true) (hp : Preparing t.done) : ∀ w ∈ t.done, w.touches = true := by
  have hpart := h.parted h0 r t ht hreq
  generalize t.done = done at hpart hp
  cases hpart with
  | touching hd => exact hd
  | effect _ he _ => exact absurd hp (he.not_preparing _)

/-- All that a request has committed if it has not succeeded. -/
theorem Reached.touched_or_succeeded (h0 : db₀.Sound) (h : Reached app db₀ s) {r : ℕ} {t : Call} (ht : s.tasks[r]? = some t)
    (hreq : t.req.alters = true) :
    (∀ w, (some r, w) ∈ s.log → w.touches = true) ∨ ∃ reply, t.answered = some (.ok reply) := by
  rcases effect_answered h0 h r t ht with hp | ha
  · exact .inl fun w hw => h.touched h0 ht hreq hp w (((h.good h0).logged_done ht).mpr hw)
  · exact .inr ha

/-! ### The effect -/

/-- A move of the request in state `s` that has become `s'`: nothing, or all. -/
theorem move_all_or_nothing (h0 : db₀.Sound) (h : Reached app db₀ s) {r : ℕ} {c : Choice registry} {t : Call}
    (hst : s.step (handle app) (.task r c) = some s') (ht : s.tasks[r]? = some t) (hreq : t.req.alters = true) :
    s.db.SameButUse s'.db ∨
      (∀ w, (some r, w) ∈ s.log → w.touches = true) ∧
        (∃ ws reply, Effect app t.req s.db ws reply ∧ s'.db = registry.applyAll ws s.db) ∧
        ∃ t' reply, s'.tasks[r]? = some t' ∧ t'.answered = some (.ok reply) := by
  have hg := h.good h0
  obtain ⟨t', ws, hm, rfl, ht'⟩ := Pool.task_step hst ht
  have hmv := Contract.move_ok hg.ok ht hm
  rcases hmv.guar with rfl | ⟨hgu, -⟩
  · exact .inl (.refl _)
  cases hgu with
  | «prelude» _ hpre =>
    obtain ⟨hash, now, rfl⟩ := hpre.touched_eq hreq
    exact .inl (sameButUse_touch s.db hash now)
  | effect hp he =>
    have hbefore : ∀ w, (some r, w) ∈ s.log → w.touches = true := fun w hw =>
      h.touched h0 ht hreq hp w ((hg.logged_done ht).mpr hw)
    refine .inr ⟨hbefore, ⟨ws, _, he, rfl⟩, t', ?_⟩
    -- its effect is in, so it has been answered with success
    rcases effect_answered h0 (h.step hst) r t' ht' with hp' | ⟨reply, hans⟩
    · rw [hmv.done] at hp'
      exact absurd hp' (he.not_preparing _)
    · exact ⟨reply, ht', hans⟩

/-! ### What goes in together -/

/-- A write that is more than a use of the token is part of the effect. -/
theorem effect_of_logged (h0 : db₀.Sound) (h : Reached app db₀ s) {r : ℕ} {t : Call} {w : Write} (ht : s.tasks[r]? = some t)
    (hreq : t.req.alters = true) (hw : (some r, w) ∈ s.log) (hno : w.touches = false) :
    ∃ pre ws db reply, t.done = pre ++ ws ∧ w ∈ ws ∧ Effect app t.req db ws reply := by
  have hin := ((h.good h0).logged_done ht).mpr hw
  have hpart := h.parted h0 r t ht hreq
  generalize t.done = done at hpart hin
  cases hpart with
  | touching hd =>
    rw [hd w hin] at hno
    cases hno
  | effect hd he _ =>
    refine ⟨_, _, _, _, rfl, (List.mem_append.mp hin).resolve_left fun hpre => ?_, he⟩
    rw [hd w hpre] at hno
    cases hno

/-- An issue that has put a publisher in has minted its token. -/
theorem issued_publisher (h0 : db₀.Sound) (h : Reached app db₀ s) {r : ℕ} {t : Call} {headers : HeaderMap}
    {body : IssueToken} {bytes : Vector UInt8 tokenBytes} {row : PublisherRow} (ht : s.tasks[r]? = some t)
    (hreq : t.req = .issueToken headers body bytes) (hw : (some r, .insertPublisher row) ∈ s.log) :
    ∃ x ∈ s.db.tokens, x.publisherId = row.id ∧ x.tokenHash = hashToken app.sha256 (generateToken bytes) := by
  obtain ⟨pre, ws, db, reply, hdone, hin, he⟩ := effect_of_logged h0 h ht (by rw [hreq]; rfl) hw rfl
  rw [hreq] at he
  cases he with
  | @issued _ _ _ _ p w _ _ hu =>
    have hmint : Write.insertToken ⟨p, hashToken app.sha256 (generateToken bytes), body.name, none, none⟩ ∈ t.done := by
      rw [hdone]
      simp
    obtain ⟨x, hx, hsame⟩ := h.present h0 _ (((h.good h0).logged_done ht).mp hmint)
    have hp : p = row.id := by
      have hrow : Write.insertPublisher row = w := by simpa using hin
      cases hu with
      | insert env => rw [Write.insertPublisher.inj hrow]; rfl
      | update => cases hrow
    exact ⟨x, hx, hsame.2.1.trans hp, hsame.1⟩

/-- A publish that puts a version in puts the workflow back on the list at once. -/
theorem relisted_with_version (h0 : db₀.Sound) (h : Reached app db₀ s) {r : ℕ} {c : Choice registry} {t : Call}
    {headers : HeaderMap} {slug : String} {body : PublishVersion} {v : VersionRow}
    (hst : s.step (handle app) (.task r c) = some s') (ht : s.tasks[r]? = some t)
    (hreq : t.req = .publishVersion headers slug body) (hv : v ∈ s'.db.versions) (hnew : v ∉ s.db.versions) :
    ∃ w ∈ s'.db.workflows, w.id = v.workflowId ∧ w.unlistedAt = none := by
  rcases move_all_or_nothing h0 h hst ht (by rw [hreq]; rfl) with hsame | ⟨-, ⟨ws, reply, he, hdb⟩, -⟩
  · rw [hsame.versions] at hv
    exact absurd hv hnew
  · rw [hreq] at he
    rw [hdb] at hv ⊢
    cases he with
    | @published _ _ _ _ w n now hw =>
      rcases Table.exists_of_insert (q := fun x => x = v) ⟨v, hv, rfl⟩ with ⟨x, hx, rfl⟩ | rfl
      · exact absurd hx hnew
      · exact ⟨{ w with updatedAt := now, unlistedAt := none }, List.mem_map.mpr ⟨w, hw, if_pos rfl⟩, rfl, rfl⟩

/-- **All or nothing.** In every state, each move of a catalogue or operator
write leaves the tables as they were, but for `last_used_at`, or carries out
its whole effect, the first time it changes anything, and then it has
succeeded; if it has not succeeded it has changed nothing. Every workflow has
a version; a publisher that an issue has put in has the token minted; and a
version that a publish puts in comes with the workflow on the list. -/
theorem all_or_nothing (h0 : db₀.Initial) (h : Reached app db₀ s) :
    (∀ (r : ℕ) (c : Choice registry) (t : Call) (s' : Registry), s.step (handle app) (.task r c) = some s' →
      s.tasks[r]? = some t → t.req.alters = true → s.db.SameButUse s'.db ∨
        (∀ w, (some r, w) ∈ s.log → w.touches = true) ∧
          (∃ ws reply, Effect app t.req s.db ws reply ∧ s'.db = registry.applyAll ws s.db) ∧
          ∃ t' reply, s'.tasks[r]? = some t' ∧ t'.answered = some (.ok reply)) ∧
    (∀ (r : ℕ) (t : Call), s.tasks[r]? = some t → t.req.alters = true →
      (∀ w, (some r, w) ∈ s.log → w.touches = true) ∨ ∃ reply, t.answered = some (.ok reply)) ∧
    (∀ w ∈ s.db.workflows, ∃ v ∈ s.db.versions, v.workflowId = w.id) ∧
    (∀ (r : ℕ) (t : Call) (headers : HeaderMap) (body : IssueToken) (bytes : Vector UInt8 tokenBytes) (row : PublisherRow),
      s.tasks[r]? = some t → t.req = .issueToken headers body bytes → (some r, .insertPublisher row) ∈ s.log →
      ∃ x ∈ s.db.tokens, x.publisherId = row.id ∧ x.tokenHash = hashToken app.sha256 (generateToken bytes)) ∧
    ∀ (r : ℕ) (c : Choice registry) (t : Call) (s' : Registry) (headers : HeaderMap) (slug : String) (body : PublishVersion)
      (v : VersionRow), s.step (handle app) (.task r c) = some s' → s.tasks[r]? = some t →
      t.req = .publishVersion headers slug body → v ∈ s'.db.versions → v ∉ s.db.versions →
      ∃ w ∈ s'.db.workflows, w.id = v.workflowId ∧ w.unlistedAt = none := by
  refine ⟨fun r c t s' hst ht hreq => move_all_or_nothing h0.sound h hst ht hreq,
    fun r t ht hreq => h.touched_or_succeeded h0.sound ht hreq, fun w hw => ?_,
    fun r t headers body bytes row ht hreq hw => issued_publisher h0.sound h ht hreq hw,
    fun r c t s' headers slug body v hst ht hreq hv hnew => relisted_with_version h0.sound h hst ht hreq hv hnew⟩
  obtain ⟨n, hn, hnum⟩ := (h.good h0.sound).sound.numbered w hw
  obtain ⟨v, hv, hvw, -⟩ := (hnum 1).mpr ⟨Int.le_refl 1, hn⟩
  exact ⟨v, hv, hvw⟩

/-- A create that is abandoned before its commit, and one that is not: a
workflow, with a version. -/
theorem all_or_nothing_abandoned :
    ∃ s, Reached Sample.replica Sample.library s ∧ s.db.workflows.rows.map (·.slug) = ["second"] ∧
      ∀ w ∈ s.db.workflows, ∃ v ∈ s.db.versions, v.workflowId = w.id := by
  have h : ((Sample.after (Sample.serve 10 0 (Sample.create 0 "first") 6 ++ [.task 0 .drop] ++
      Sample.serve 20 1 (Sample.create 0 "second") 7)).map fun s => s.db.workflows.rows.map (·.slug)) = some ["second"] := by
    decide +kernel
  obtain ⟨s, hr, h⟩ := Sample.reached h
  exact ⟨s, hr, h, (all_or_nothing Sample.initial hr).2.2.1⟩

end HarnessRegistry

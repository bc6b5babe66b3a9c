/-
# The install count is what the history says

An install is a row per workflow and installation, so its last sighting can be
read off the history: the last record or forget that succeeded. `Seen` says
that the rows agree with the history, and the count is of the rows seen in the
last ninety days.

Key definitions: `Request.installation?`, `Write.sighting`, `seenOf`,
`Registry.lastRecord`, `Registry.figure`, `Db.lastSeen`, `Seen`.
Key theorems: `installCount_eq`, `Reached.seen`, `last_step`, `installs_counted`.
-/
import HarnessRegistry.Runs
import Mathlib.Data.Set.Card
import Mathlib.Tactic.Linarith

namespace HarnessRegistry

open Txn Handler

variable {app : AppState} {db db' db₀ : Db} {s s' : Registry}

/-! ### What the history says -/

/-- The slug and the installation of a record or a forget. -/
def Request.installation? : Request → Option (String × Uuid)
  | .record _ slug body => some (slug, body.installationId)
  | .forget _ slug i => some (slug, i)
  | _ => none

/-- What a record or a forget that succeeds `now` leaves: a sighting, or none. -/
def Request.sees (now : Timestamp) : Request → Option Timestamp
  | .record .. => some now
  | _ => none

/-- What a write to an install leaves. -/
def Write.sighting : Write → Option (Option Timestamp)
  | .insertInstall row => some (some row.lastSeenAt)
  | .refreshInstall _ _ _ now => some (some now)
  | .deleteInstall .. => some none
  | _ => none

/-- What an event of the history says of an installation of the workflow. -/
def seenOf (slug : String) (i : Uuid) : Option Request × Write → Option (Option Timestamp)
  | (some req, w) => if req.installation? = some (slug, i) then w.sighting else none
  | (none, _) => none

@[simp] theorem seenOf_some (slug : String) (i : Uuid) (req : Request) (w : Write) :
    seenOf slug i (some req, w) = if req.installation? = some (slug, i) then w.sighting else none := rfl

/-- When the installation was last recorded, if it has not been forgotten
since. -/
def Registry.lastRecord (s : Registry) (slug : String) (i : Uuid) : Option Timestamp := (s.last (seenOf slug i)).join

/-- The installations whose last successful record or forget was a record
less than ninety days ago. -/
def Registry.current (s : Registry) (slug : String) (now : Timestamp) : Set Uuid :=
  {i | ∃ t ∈ s.lastRecord slug i, now - t < ninetyDays}

/-- How many they are. -/
noncomputable def Registry.figure (s : Registry) (slug : String) (now : Timestamp) : ℕ := (s.current slug now).ncard

/-! ### What the rows say -/

/-- The `last_seen_at` of the installation's row. -/
def Db.lastSeen (db : Db) (w i : Uuid) : Option Timestamp :=
  (db.installs.find? fun r => r.workflowId == w && r.installationId == i).map (·.lastSeenAt)

theorem lastSeen_eq_some {w i : Uuid} {t : Timestamp} :
    db.lastSeen w i = some t ↔ ∃ r ∈ db.installs, r.workflowId = w ∧ r.installationId = i ∧ r.lastSeenAt = t := by
  have hone : ∀ r, (db.installs.find? fun r => r.workflowId == w && r.installationId == i) = some r ↔
      r ∈ db.installs ∧ (r.workflowId == w && r.installationId == i) = true := fun r =>
    Table.find?_eq_some fun x y hx hy => by
      simp only [Bool.and_eq_true, beq_iff_eq] at hx hy
      exact (clash_install _ _).mpr ⟨hx.1.trans hy.1.symm, hx.2.trans hy.2.symm⟩
  unfold Db.lastSeen
  rw [Option.map_eq_some_iff]
  constructor
  · rintro ⟨r, hr, ht⟩
    obtain ⟨hr, hk⟩ := (hone r).mp hr
    simp only [Bool.and_eq_true, beq_iff_eq] at hk
    exact ⟨r, hr, hk.1, hk.2, ht⟩
  · rintro ⟨r, hr, hw, hi, ht⟩
    exact ⟨r, (hone r).mpr ⟨hr, by simp [hw, hi]⟩, ht⟩

theorem lastSeen_congr (h : db'.installs = db.installs) (w i : Uuid) : db'.lastSeen w i = db.lastSeen w i := by
  unfold Db.lastSeen
  rw [h]

/-- A change to the rows of one workflow and installation. -/
theorem lastSeen_eq_ite {w₀ i₀ : Uuid} {v : Option Timestamp}
    (hin : ∀ t, (∃ r ∈ db'.installs, r.workflowId = w₀ ∧ r.installationId = i₀ ∧ r.lastSeenAt = t) ↔ v = some t)
    (hout : ∀ r, ¬ (r.workflowId = w₀ ∧ r.installationId = i₀) → (r ∈ db'.installs ↔ r ∈ db.installs)) (w i : Uuid) :
    db'.lastSeen w i = if w₀ = w ∧ i₀ = i then v else db.lastSeen w i := by
  ext t
  by_cases hk : w₀ = w ∧ i₀ = i
  · obtain ⟨rfl, rfl⟩ := hk
    rw [if_pos ⟨rfl, rfl⟩, lastSeen_eq_some]
    exact hin t
  · rw [if_neg hk, lastSeen_eq_some, lastSeen_eq_some]
    have hne : ∀ r : InstallRow, r.workflowId = w → r.installationId = i → ¬ (r.workflowId = w₀ ∧ r.installationId = i₀) :=
      fun r hw hi hc => hk ⟨hc.1.symm.trans hw, hc.2.symm.trans hi⟩
    constructor
    · rintro ⟨r, hr, hw, hi, ht⟩
      exact ⟨r, (hout r (hne r hw hi)).mp hr, hw, hi, ht⟩
    · rintro ⟨r, hr, hw, hi, ht⟩
      exact ⟨r, (hout r (hne r hw hi)).mpr hr, hw, hi, ht⟩

theorem lastSeen_insert {row : InstallRow} (hf : registry.Fresh [.insertInstall row] db) (w i : Uuid) :
    ((Write.insertInstall row).apply db).lastSeen w i =
      if row.workflowId = w ∧ row.installationId = i then some row.lastSeenAt else db.lastSeen w i := by
  have hmem : ∀ r, r ∈ ((Write.insertInstall row).apply db).installs ↔ r ∈ db.installs ∨ r = row := fun r =>
    Table.mem_insert (not_has_install hf)
  have hnew := (hmem row).mpr (.inr rfl)
  refine lastSeen_eq_ite (fun t => ⟨?_, fun ht => ?_⟩) (fun r hr => ?_) w i
  · rintro ⟨r, hr, hw, hi, rfl⟩
    rw [InstallRow.eq_of_pair hr hnew hw hi]
  · exact ⟨row, hnew, rfl, rfl, Option.some.inj ht⟩
  · rw [hmem]
    exact or_iff_left fun he => hr (he ▸ ⟨rfl, rfl⟩)

theorem lastSeen_refresh {w₀ i₀ : Uuid} {n : ℤ} {now : Timestamp}
    (hex : ∃ r ∈ db.installs, r.workflowId = w₀ ∧ r.installationId = i₀) (w i : Uuid) :
    ((Write.refreshInstall w₀ i₀ n now).apply db).lastSeen w i =
      if w₀ = w ∧ i₀ = i then some now else db.lastSeen w i := by
  have hmem : ∀ r', r' ∈ ((Write.refreshInstall w₀ i₀ n now).apply db).installs ↔ ∃ r ∈ db.installs,
      (if r.workflowId = w₀ ∧ r.installationId = i₀ then { r with version := n, lastSeenAt := now } else r) = r' :=
    fun r' => List.mem_map
  refine lastSeen_eq_ite (fun t => ⟨?_, fun ht => ?_⟩) (fun r hr => ?_) w i
  · rintro ⟨r', hr', hw, hi, rfl⟩
    obtain ⟨r, hr, rfl⟩ := (hmem r').mp hr'
    by_cases hc : r.workflowId = w₀ ∧ r.installationId = i₀
    · rw [if_pos hc]
    · rw [if_neg hc] at hw hi
      exact absurd ⟨hw, hi⟩ hc
  · obtain ⟨r, hr, hw, hi⟩ := hex
    exact ⟨_, (hmem _).mpr ⟨r, hr, if_pos ⟨hw, hi⟩⟩, hw, hi, Option.some.inj ht⟩
  · rw [hmem]
    constructor
    · rintro ⟨x, hx, rfl⟩
      by_cases hc : x.workflowId = w₀ ∧ x.installationId = i₀
      · rw [if_pos hc] at hr
        exact absurd hc hr
      · rwa [if_neg hc]
    · exact fun hx => ⟨r, hx, if_neg hr⟩

theorem lastSeen_delete (w₀ i₀ w i : Uuid) : ((Write.deleteInstall w₀ i₀).apply db).lastSeen w i =
    if w₀ = w ∧ i₀ = i then none else db.lastSeen w i := by
  have hmem : ∀ r, r ∈ ((Write.deleteInstall w₀ i₀).apply db).installs ↔
      r ∈ db.installs ∧ ¬ (r.workflowId = w₀ ∧ r.installationId = i₀) := by
    intro r
    refine Table.mem_delete.trans ?_
    simp [Bool.eq_false_iff]
  refine lastSeen_eq_ite (fun t => ⟨?_, fun ht => by cases ht⟩) (fun r hr => ?_) w i
  · rintro ⟨r, hr, hw, hi, -⟩
    exact absurd ⟨hw, hi⟩ ((hmem r).mp hr).2
  · rw [hmem]
    exact and_iff_left hr

/-- The count is of installations: one row is one installation. -/
theorem installCount_eq (db : Db) (now : Timestamp) (w : Uuid) :
    db.installCount now w = {i | ∃ t ∈ db.lastSeen w i, now - t < ninetyDays}.ncard := by
  let rows := db.installs.rows.filter fun r => r.workflowId == w && decide (r.lastSeenAt > now - ninetyDays)
  have hrow : ∀ r, r ∈ rows ↔ r ∈ db.installs ∧ r.workflowId = w ∧ now - r.lastSeenAt < ninetyDays := by
    intro r
    simp only [rows, List.mem_filter, Bool.and_eq_true, beq_iff_eq, decide_eq_true_eq, Table.mem_def]
    refine and_congr_right fun _ => and_congr_right fun _ => ?_
    constructor <;> intro ht <;> linarith
  have hnodup : (rows.map (·.installationId)).Nodup := by
    refine List.Nodup.map_on (fun a ha b hb he => ?_) (db.installs.nodup.filter _)
    obtain ⟨ha, haw, -⟩ := (hrow a).mp ha
    obtain ⟨hb, hbw, -⟩ := (hrow b).mp hb
    exact InstallRow.eq_of_pair ha hb (haw.trans hbw.symm) he
  have hset : {i | ∃ t ∈ db.lastSeen w i, now - t < ninetyDays} = ↑(rows.map (·.installationId)).toFinset := by
    ext i
    simp only [Set.mem_ofPred_eq, Option.mem_def, lastSeen_eq_some, List.coe_toFinset, List.mem_map, hrow]
    constructor
    · rintro ⟨t, ⟨r, hr, hw, hi, rfl⟩, ht⟩
      exact ⟨r, ⟨hr, hw, ht⟩, hi⟩
    · rintro ⟨r, ⟨hr, hw, ht⟩, hi⟩
      exact ⟨_, ⟨r, hr, hw, hi, rfl⟩, ht⟩
  calc db.installCount now w = rows.length := List.countP_eq_length_filter
    _ = (rows.map (·.installationId)).toFinset.card := by rw [List.toFinset_card_of_nodup hnodup, List.length_map]
    _ = _ := by rw [hset, Set.ncard_coe_finset]

/-! ### Rows and history agree -/

structure Seen (s : Registry) : Prop where
  rows : ∀ w ∈ s.db.workflows, ∀ i, s.db.lastSeen w.id i = s.lastRecord w.slug i
  used : ∀ slug i, s.last (seenOf slug i) ≠ none → ∃ w ∈ s.db.workflows, w.slug = slug

theorem seenOf_of_sighting {w : Write} (hw : w.sighting = none) (slug : String) (i : Uuid) (req : Option Request) :
    seenOf slug i (req, w) = none := by
  cases req with
  | none => rfl
  | some req => simp [hw]

theorem installs_apply {w : Write} (hw : w.sighting = none) (db : Db) : (w.apply db).installs = db.installs := by
  cases w <;> first | rfl | cases hw

theorem installs_applyAll : ∀ (ws : List Write) (db : Db), (∀ w ∈ ws, w.sighting = none) →
    (registry.applyAll ws db).installs = db.installs
  | [], _, _ => rfl
  | w :: ws, db, h => (installs_applyAll ws _ fun v hv => h v (List.mem_cons_of_mem _ hv)).trans
      (installs_apply (h w List.mem_cons_self) db)

/-- Writes to other tables. A workflow that comes in has a slug the history
does not tell of, and an id that no install is of. -/
theorem Seen.unread (hs : Seen s) (hsound : s.db.Sound) (ws : List Write) (req : Option Request)
    (hw : ∀ w ∈ ws, w.sighting = none) (hf : registry.Fresh ws s.db) (hd : s'.db = registry.applyAll ws s.db)
    (hh : s'.history = s.history ++ ws.map (req, ·)) : Seen s' := by
  have hlast : ∀ slug i, s'.last (seenOf slug i) = s.last (seenOf slug i) := by
    intro slug i
    refine Pool.last_unread hh fun e he => ?_
    obtain ⟨w, hwm, rfl⟩ := List.mem_map.mp he
    exact seenOf_of_sighting (hw w hwm) slug i req
  have hrows : ∀ w i, s'.db.lastSeen w i = s.db.lastSeen w i := by
    rw [hd]
    exact lastSeen_congr (installs_applyAll ws s.db hw)
  have hgr : s.db.Grows s'.db := by rw [hd]; exact grows_applyAll ws s.db
  constructor
  · intro x hx i
    unfold Registry.lastRecord
    rw [hrows, hlast]
    rw [hd] at hx
    rcases workflows_applyAll ws hx with ⟨y, hy, hyx⟩ | ⟨y, hy, hyx⟩
    · rw [hyx.1, hyx.2.1]
      exact hs.rows y hy i
    · have hnew : ∀ l ∈ Write.claims (.insertWorkflow y), ¬ s.db.taken l := fun l hl =>
        hf.2 l (List.mem_flatMap.mpr ⟨_, hy, hl⟩)
      have hslug : s.last (seenOf x.slug i) = none := by
        by_contra hne
        obtain ⟨w, hwm, hws⟩ := hs.used x.slug i hne
        exact hnew (.slug y.slug) (by simp [Write.claims]) ⟨w, hwm, hws.trans hyx.2.1⟩
      have hid : s.db.lastSeen x.id i = none := by
        rw [Option.eq_none_iff_forall_ne_some]
        intro t ht
        obtain ⟨r, hr, hrw, -⟩ := lastSeen_eq_some.mp ht
        obtain ⟨v, hv, hvw, -⟩ := hsound.installed r hr
        obtain ⟨w, hwm, hwv⟩ := hsound.known v hv
        exact hnew (.workflow y.id) (by simp [Write.claims])
          ⟨w, hwm, (hwv.trans (hvw.trans hrw)).trans hyx.1⟩
      rw [hslug, hid]
      rfl
  · intro slug i hne
    rw [hlast] at hne
    obtain ⟨w, hwm, hws⟩ := hs.used slug i hne
    obtain ⟨w', hw', he⟩ := hgr.workflows w hwm
    exact ⟨w', hw', he.2.1.trans hws⟩

/-- An event of one workflow and installation, and the write to its row. -/
theorem Seen.event (hs : Seen s) {req : Request} {wr : Write} {w : WorkflowRow} {i : Uuid} {v : Option Timestamp}
    (hw : w ∈ s.db.workflows) (hreq : req.installation? = some (w.slug, i))
    (hv : wr.sighting = some v) (hd : s'.db.workflows = s.db.workflows)
    (hrows : ∀ w' i', s'.db.lastSeen w' i' = if w.id = w' ∧ i = i' then v else s.db.lastSeen w' i')
    (hh : s'.history = s.history ++ [(some req, wr)]) : Seen s' := by
  have hset : s'.last (seenOf w.slug i) = some v := by
    rw [Pool.last_append hh]
    simp [hreq, hv]
  have hother : ∀ slug i', ¬ (w.slug = slug ∧ i = i') → s'.last (seenOf slug i') = s.last (seenOf slug i') := by
    intro slug i' hne
    refine Pool.last_unread hh fun e he => ?_
    rw [List.mem_singleton.mp he]
    exact if_neg (by simpa [hreq] using hne)
  constructor
  · intro x hx i'
    rw [hd] at hx
    unfold Registry.lastRecord
    rw [hrows]
    by_cases hk : w.id = x.id ∧ i = i'
    · obtain rfl : x = w := WorkflowRow.eq_of_id hx hw hk.1.symm
      obtain rfl := hk.2
      rw [if_pos ⟨rfl, rfl⟩, hset]
      rfl
    · have hne : ¬ (w.slug = x.slug ∧ i = i') := fun hc => hk ⟨by rw [WorkflowRow.eq_of_slug hw hx hc.1], hc.2⟩
      rw [if_neg hk, hother _ _ hne]
      exact hs.rows x hx i'
  · intro slug i' hne
    rw [hd]
    by_cases hk : w.slug = slug ∧ i = i'
    · exact ⟨w, hw, hk.1⟩
    · rw [hother _ _ hk] at hne
      exact hs.used slug i' hne

theorem Seen.commit (hs : Seen s) (hsound : s.db.Sound) {req : Request} {done ws : List Write}
    (hgu : Guar app req done s.db ws) (hf : registry.Fresh ws s.db) (hd : s'.db = registry.applyAll ws s.db)
    (hh : s'.history = s.history ++ ws.map (some req, ·)) : Seen s' := by
  have plain : (∀ w ∈ ws, w.sighting = none) → Seen s' := fun hw => hs.unread hsound ws (some req) hw hf hd hh
  cases hgu with
  | «prelude» _ hp =>
    refine plain fun w hw => ?_
    have := hp.preparing w hw
    cases w <;> first | rfl | cases this
  | effect _ he =>
    cases he with
    | recorded hw hslug _ =>
      subst hslug
      exact hs.event hw rfl rfl (by rw [hd]; rfl) (by rw [hd]; exact lastSeen_insert hf) hh
    | refreshed hw hslug _ hi hiw hii =>
      subst hslug
      exact hs.event hw rfl rfl (by rw [hd]; rfl) (by rw [hd]; exact lastSeen_refresh ⟨_, hi, hiw, hii⟩) hh
    | forgot hw hslug _ _ _ =>
      subst hslug
      exact hs.event hw rfl rfl (by rw [hd]; rfl) (by rw [hd]; exact lastSeen_delete _ _) hh
    | issued _ _ hu =>
      refine plain fun w hw => ?_
      simp only [List.mem_cons, List.not_mem_nil, or_false] at hw
      rcases hw with rfl | rfl
      · cases hu <;> rfl
      · rfl
    | _ => exact plain (by simp [Write.sighting])

theorem Reached.seen (h0 : db₀.Initial) (h : Reached app db₀ s) : Seen s := by
  refine h.induct (P := Seen) h0.sound ⟨fun w hw => ?_, fun slug i hne => ?_⟩ fun s a s' _ hg hs hst => ?_
  · simp [Registry.start, h0.workflows] at hw
  · simp [Pool.last, Pool.history, Registry.start] at hne
  · rcases Contract.step_cases hg hst with ⟨hd, -, hh⟩ | ⟨w, hw, hd, -, hh, -⟩ | ⟨r, t, t', ws, -, hgu, hf, hd, -, hh, -⟩
    · exact hs.unread hg.sound [] none (by simp) (fresh_nil s.db) hd (by simpa using hh)
    · have hws : w.sighting = none := by cases w <;> first | rfl | cases hw
      have hwc : w.claims = [] := by cases w <;> first | rfl | cases hw
      exact hs.unread hg.sound [w] none (by simp [hws]) (fresh_of_claims (by simp [hwc])) hd hh
    · exact hs.commit hg.sound hgu hf hd hh

/-! ### Successful records and forgets -/

/-- How a record or a forget may go on: it reads, or it writes an install. -/
def Tallies : Prog registry (Except Error Reply) → Prop
  | .commit _ => False
  | .stmt (.upsertInstall ..) _ | .stmt (.deleteInstall ..) _ => True
  | .stmt q _ => q.reads = true
  | _ => True

theorem handle_tallies (app : AppState) (req : Request) :
    (handle app req).Every fun p => req.installation? ≠ none → Tallies p := by
  cases req with
  | record h slug body =>
    refine every_limited (fun _ _ => trivial) (fun _ => trivial) (every_queryOr (fun _ => rfl) (fun _ _ => trivial) fun a => ?_)
    rcases a with _ | id
    · exact every_throw fun _ => trivial
    · refine every_queryOr (fun _ => rfl) (fun _ _ => trivial) fun a => ?_
      rcases a with _ | n
      · exact every_throw fun _ => trivial
      · exact every_queryOr (fun _ => trivial) (fun _ _ => trivial) fun _ => every_pure fun _ => trivial
  | forget h slug i =>
    refine every_limited (fun _ _ => trivial) (fun _ => trivial) (every_queryOr (fun _ => rfl) (fun _ _ => trivial) fun a => ?_)
    rcases a with _ | id
    · exact every_throw fun _ => trivial
    · refine every_queryOr (fun _ => trivial) (fun _ _ => trivial) fun (n : ℕ) => ?_
      cases n
      · exact every_throw fun _ => trivial
      · exact every_pure fun _ => trivial
  | _ => exact Prog.every_of_forall (fun _ h => absurd rfl h) _

/-- The one write of a record or a forget, with the time of the statement. -/
theorem Effect.sighted {req : Request} {ws : List Write} {reply : Reply} {slug : String} {i : Uuid}
    (he : Effect app req db ws reply) (hreq : req.installation? = some (slug, i)) :
    ∃ w now, ws = [w] ∧ w.sighting = some (req.sees now) := by
  cases he with
  | recorded _ _ _ => exact ⟨_, _, rfl, rfl⟩
  | refreshed _ _ _ _ _ _ => exact ⟨_, _, rfl, rfl⟩
  | forgot _ _ _ _ _ => exact ⟨_, 0, rfl, rfl⟩
  | _ => cases hreq

theorem run_stamped {q : Stmt} {env : Env} {a : q.Res} {w : Write}
    (k : Except SqlError q.Res → Prog registry (Except Error Reply)) (hq : Tallies (.stmt q k)) (h : q.run env db = .ok (a, [w])) :
    w.sighting = some (some env.now) ∨ w.sighting = some none := by
  cases q
  case upsertInstall =>
    simp only [Stmt.run] at h
    split at h <;> cases h <;> exact .inl rfl
  case deleteInstall =>
    simp only [Stmt.run] at h
    split at h <;> cases h
    exact .inr rfl
  all_goals cases run_reads hq h

/-- A request that records or forgets `now`, and what its event says. -/
theorem install_move {t t' : Call} {c : Choice registry} {ws : List Write} {reply : Reply} {slug : String} {i : Uuid}
    (hreq : t.req.installation? = some (slug, i)) (hp : Tallies t.prog) (hm : t.move db c = some (t', ws))
    (he : Effect app t.req db ws reply) : ∃ env w, c = .go env ∧ ws = [w] ∧ w.sighting = some (t.req.sees env.now) := by
  obtain ⟨w, now, rfl, hw⟩ := he.sighted hreq
  obtain ⟨env, rfl, -, ⟨k, x, hk, -⟩ | ⟨q, k, a, hk, -, hx, -⟩⟩ := Task.move_commits hm (by simp)
  · rw [hk] at hp
    exact hp.elim
  · rw [hk] at hp
    refine ⟨env, w, rfl, rfl, ?_⟩
    have hs := run_stamped k hp (run_of_exec hx)
    rw [hw] at hs ⊢
    cases hr : t.req with
    | record h slug body =>
      simp only [hr, Request.sees, Option.some.injEq, reduceCtorEq, or_false] at hs
      rw [hs]
    | forget h slug i => rfl
    | _ =>
      rw [hr] at hreq
      cases hreq

theorem Request.installation?_alone {req : Request} {slug : String} {i : Uuid} (h : req.installation? = some (slug, i)) :
    req.prepares = false ∧ ∀ reply, ¬ Plain req reply := by
  cases req with
  | record | forget => exact ⟨rfl, fun reply hp => by cases hp⟩
  | _ => cases h

/-- A record or a forget has succeeded as soon as it has committed anything. -/
theorem install_succeeded (h0 : db₀.Sound) (h : Reached app db₀ s) {r : ℕ} {t : Call} {slug : String} {i : Uuid}
    (ht : s.tasks[r]? = some t) (hreq : t.req.installation? = some (slug, i)) :
    (∃ reply, t.answered = some (.ok reply)) ↔ ∃ w, (some r, w) ∈ s.log :=
  h.succeeded_iff h0 ht (Request.installation?_alone hreq).1 (Request.installation?_alone hreq).2

/-- The move `a` answers a record or a forget of the installation, with
success, and leaves the sighting `v`. -/
def Succeeds (a : Action registry Request) (s s' : Registry) (slug : String) (i : Uuid) (v : Option Timestamp) : Prop :=
  ∃ r env t t' reply, a = .task r (.go env) ∧ s.tasks[r]? = some t ∧ t.req.installation? = some (slug, i) ∧
    s'.tasks[r]? = some t' ∧ t'.answered = some (.ok reply) ∧ v = t.req.sees env.now

theorem succeeds_task_iff {r : ℕ} {c : Choice registry} {t t' : Call} {slug : String} {i : Uuid} {v : Option Timestamp}
    (ht : s.tasks[r]? = some t) (ht' : s'.tasks[r]? = some t') : Succeeds (.task r c) s s' slug i v ↔
      t.req.installation? = some (slug, i) ∧ (∃ reply, t'.answered = some (.ok reply)) ∧
        ∃ env, c = .go env ∧ v = t.req.sees env.now := by
  constructor
  · rintro ⟨r', env, u, u', reply, ha, hu, hreq, hu', hok, hv⟩
    cases ha
    obtain rfl := Option.some.inj (ht.symm.trans hu)
    obtain rfl := Option.some.inj (ht'.symm.trans hu')
    exact ⟨hreq, ⟨reply, hok⟩, env, rfl, hv⟩
  · rintro ⟨hreq, ⟨reply, hok⟩, env, rfl, hv⟩
    exact ⟨r, env, t, t', reply, rfl, ht, hreq, ht', hok, hv⟩

/-- **The last event is that of the last success.** A record or a forget that
succeeds becomes the last event of its workflow and installation, and nothing
else does. -/
theorem last_step (h0 : db₀.Sound) (h : Reached app db₀ s) {a : Action registry Request}
    (hst : s.step (handle app) a = some s') (slug : String) (i : Uuid) :
    (∀ v, Succeeds a s s' slug i v → s'.last (seenOf slug i) = some v) ∧
      ((¬ ∃ v, Succeeds a s s' slug i v) → s'.last (seenOf slug i) = s.last (seenOf slug i)) := by
  have hg := h.good h0
  rcases Pool.step_history hg.logged hst with ⟨req, rfl, rfl, hh⟩ | ⟨w, rfl, -, rfl, hh⟩ |
    ⟨r, c, t, t', ws, rfl, ht, hm, hs', ht', hh⟩
  · refine ⟨fun v ⟨_, _, _, _, _, ha, _⟩ => (by cases ha), fun _ => ?_⟩
    exact Pool.last_unread (l := []) (by simpa using hh) (by simp)
  · refine ⟨fun v ⟨_, _, _, _, _, ha, _⟩ => (by cases ha), fun _ => ?_⟩
    exact Pool.last_unread hh (by simp [seenOf])
  simp only [succeeds_task_iff ht ht']
  by_cases hreq : t.req.installation? = some (slug, i)
  swap
  · refine ⟨fun v hv => absurd hv.1 hreq, fun _ => Pool.last_unread hh fun e he => ?_⟩
    obtain ⟨w, -, rfl⟩ := List.mem_map.mp he
    exact if_neg hreq
  have hsucc := install_succeeded h0 (h.step hst) ht' (by rw [(Contract.move_eq hm).1]; exact hreq)
  have hlog : s'.log = s.log ++ ws.map (some r, ·) := by rw [hs']; rfl
  rcases (Contract.move_ok hg.ok ht hm).guar with rfl | ⟨hgu, -⟩
  · -- it had committed nothing before, and has not now
    have hno : ¬ ∃ reply, t'.answered = some (.ok reply) := by
      rw [hsucc, hlog, List.map_nil, List.append_nil, ← install_succeeded h0 h ht hreq]
      rintro ⟨reply, ha⟩
      rw [Task.move_of_answered ha] at hm
      cases hm
    exact ⟨fun v hv => absurd hv.2.1 hno, fun _ => Pool.last_unread (l := []) (by simpa using hh) (by simp)⟩
  cases hgu with
  | «prelude» _ hp =>
    have := hp.prepares
    rw [(Request.installation?_alone hreq).1] at this
    cases this
  | effect _ he =>
    obtain ⟨as, has⟩ := h
    have hp := Pool.run_every (handle_tallies app) rfl has ht (by rw [hreq]; simp)
    obtain ⟨env, w, rfl, rfl, hw⟩ := install_move hreq hp hm he
    have hl : s'.last (seenOf slug i) = some (t.req.sees env.now) := by
      rw [Pool.last_append hh]
      simp [hreq, hw]
    have hok := hsucc.mpr ⟨w, by rw [hlog]; simp⟩
    refine ⟨?_, fun hn => absurd ⟨_, hreq, hok, env, rfl, rfl⟩ hn⟩
    rintro v ⟨-, -, env', he, rfl⟩
    cases he
    exact hl

/-! ### What is shown -/

/-- The slugs in use are ones that Postgres holds. -/
theorem Reached.slugs (h0 : db₀.Initial) (h : Reached app db₀ s) : ∀ w ∈ s.db.workflows, hasNul w.slug = false := by
  refine h.induct (P := fun s => ∀ w ∈ s.db.workflows, hasNul w.slug = false) h0.sound
    (fun w hw => by simp [Registry.start, h0.workflows] at hw) fun s a s' _ hg ih hst x hx => ?_
  rcases Contract.step_cases hg hst with ⟨hd, -⟩ | ⟨w, hw, hd, -⟩ | ⟨r, t, t', ws, -, hgu, -, hd, -⟩
  · rw [hd] at hx
    exact ih x hx
  · rw [hd] at hx
    rcases workflows_apply hx with ⟨y, hy, he⟩ | rfl
    · rw [he.2.1]
      exact ih y hy
    · cases hw
  · rw [hd] at hx
    rcases workflows_applyAll ws hx with ⟨y, hy, he⟩ | ⟨y, hy, he⟩
    · rw [he.2.1]
      exact ih y hy
    · rw [he.2.1]
      generalize t.req = req at hgu
      cases hgu with
      | «prelude» _ hp => cases hp.preparing _ hy
      | effect _ he =>
        cases he with
        | created _ hv =>
          simp only [List.mem_cons, List.not_mem_nil, or_false, reduceCtorEq, Write.insertWorkflow.injEq] at hy
          subst hy
          exact hasNul_of_validateSlug (CreateWorkflow.validate_slug hv)
        | issued _ _ hu => cases hu <;> simp at hy
        | _ => simp at hy

/-- The figure of the rows is that of the history. -/
theorem installCount_figure (h0 : db₀.Initial) (h : Reached app db₀ s) {w : WorkflowRow} (hw : w ∈ s.db.workflows)
    (now : Timestamp) : s.db.installCount now w.id = s.figure w.slug now := by
  rw [installCount_eq]
  unfold Registry.figure Registry.current
  simp only [(h.seen h0).rows w hw]

theorem summary_eq_some {w : WorkflowRow} {now : Timestamp} {row : WorkflowSummary} (h : db.summary now w = some row) :
    row.slug = w.slug ∧ row.installs = db.installCount now w.id := by
  obtain ⟨p, -, rfl⟩ := Option.map_eq_some_iff.mp h
  exact ⟨rfl, rfl⟩

/-- The join drops nothing. -/
theorem exists_summary (hown : ∀ w ∈ db.workflows, ∃ p ∈ db.publishers, p.id = w.publisherId) (now : Timestamp)
    {w : WorkflowRow} (hw : w ∈ db.workflows) : ∃ row, db.summary now w = some row := by
  obtain ⟨p, hp, hid⟩ := hown w hw
  unfold Db.summary
  cases hf : db.publishers.find? fun p => p.id == w.publisherId with
  | none => simpa [hid] using Table.find?_eq_none.mp hf p hp
  | some q => exact ⟨_, rfl⟩

/-- `detail` answers with the listed workflow of the slug, if there is one. -/
theorem alone_detail_iff {env : Env} {slug : String} {reply : Reply} :
    alone env (detail slug) db = some (.ok reply, db') ↔ db' = db ∧ hasNul slug = false ∧
      ∃ w ∈ db.workflows, w.slug = slug ∧ w.unlistedAt = none ∧
        ∃ row, db.summary env.now w = some row ∧ reply = .summary row := by
  unfold detail
  cases hnul : hasNul slug with
  | true =>
    have hx : Stmt.exec env (.detail slug) db = .error .other := if_pos (by simp [Stmt.texts, hnul])
    rw [query, alone_error hx]
    simp
  | false =>
    have hx : Stmt.exec env (.detail slug) db = .ok ((db.workflows.find? fun w => w.slug == slug && w.unlistedAt.isNone).bind
        fun w => db.summary env.now w, []) := exec_eq_run (by simp [Stmt.texts, hnul])
    rw [query, alone_ok hx]
    cases hf : db.workflows.find? fun w => w.slug == slug && w.unlistedAt.isNone with
    | none =>
      refine iff_of_false (fun h => by cases h) ?_
      rintro ⟨-, -, w, hw, hslug, hl, -⟩
      simpa [hslug, hl] using Table.find?_eq_none.mp hf w hw
    | some w =>
      obtain ⟨hw, hsel⟩ := Table.mem_of_find? hf
      simp only [Bool.and_eq_true, beq_iff_eq, Option.isNone_iff_eq_none] at hsel
      have hsame : ∀ v ∈ db.workflows, v.slug = slug → v = w := fun v hv hslug =>
        WorkflowRow.eq_of_slug hv hw (hslug.trans hsel.1.symm)
      rw [Option.bind_some]
      cases hs : db.summary env.now w with
      | none =>
        refine iff_of_false (fun h => by cases h) ?_
        rintro ⟨-, -, v, hv, hslug, -, row, hrow, -⟩
        rw [hsame v hv hslug, hs] at hrow
        cases hrow
      | some found =>
        constructor
        · intro h
          cases h
          exact ⟨rfl, rfl, w, hw, hsel.1, hsel.2, found, hs, rfl⟩
        · rintro ⟨rfl, -, v, hv, hslug, -, row, hrow, rfl⟩
          rw [hsame v hv hslug, hs] at hrow
          cases hrow
          rfl

/-- A listed workflow is found by its slug. -/
theorem alone_detail (env : Env) {w : WorkflowRow} (hs : db.Sound) (hw : w ∈ db.workflows) (hl : w.unlistedAt = none)
    (hnul : hasNul w.slug = false) : ∃ row, db.summary env.now w = some row ∧
      alone env (detail w.slug) db = some (.ok (.summary row), db) := by
  obtain ⟨row, hrow⟩ := exists_summary hs.owned env.now hw
  exact ⟨row, hrow, alone_detail_iff.mpr ⟨rfl, hnul, w, hw, rfl, hl, row, hrow, rfl⟩⟩

/-- A listing is of workflows that its filter selects. -/
theorem alone_list_selects {env : Env} {params : ListParams} {rows : List WorkflowSummary}
    (h : alone env (list params) db = some (.ok (.summaries rows), db')) : ∀ row ∈ rows,
      ∃ w ∈ db.workflows, params.query.selects env.lower w = true ∧ db.summary env.now w = some row := by
  intro row hrow
  unfold list at h
  cases hx : Stmt.exec env (.list params.query) db with
  | error e =>
    rw [query, alone_error hx] at h
    cases h
  | ok r =>
    obtain ⟨a, ws⟩ := r
    rw [query, alone_ok hx] at h
    cases h
    cases run_of_exec hx
    obtain ⟨⟨id, _⟩, hm, rfl⟩ := List.mem_map.mp hrow
    have hm := List.mem_of_mem_drop (List.mem_of_mem_take hm)
    rw [Db.listing, List.mem_insertionSort, List.mem_filterMap] at hm
    obtain ⟨w, hw, hsum⟩ := hm
    obtain ⟨hw, hsel⟩ := List.mem_filter.mp hw
    obtain ⟨row, hsum, he⟩ := Option.map_eq_some_iff.mp hsum
    cases he
    exact ⟨w, hw, hsel, hsum⟩

/-- These are listed. -/
theorem alone_list {env : Env} {params : ListParams} {rows : List WorkflowSummary}
    (h : alone env (list params) db = some (.ok (.summaries rows), db')) : ∀ row ∈ rows,
      ∃ w ∈ db.workflows, w.unlistedAt = none ∧ db.summary env.now w = some row := by
  intro row hrow
  obtain ⟨w, hw, hsel, hsum⟩ := alone_list_selects h row hrow
  simp only [ListQuery.selects, Bool.and_eq_true, Option.isNone_iff_eq_none] at hsel
  exact ⟨w, hw, hsel.1.1.1, hsum⟩

/-- **The install count is what the history says.** At any time, the figure
that `detail` and `list` show for a listed workflow is the number of
installations whose last successful record or forget was a record less than
ninety days ago; the last event of an installation is that of the last of its
requests to succeed, with the time of the statement; and every install is of a
version that exists. -/
theorem installs_counted (h0 : db₀.Initial) (h : Reached app db₀ s) :
    (∀ w ∈ s.db.workflows, w.unlistedAt = none → ∀ env, ∃ row,
      (handle app (.detail w.slug)).alone (S := registry) env none s.db = some (.ok (.summary row), s.db) ∧
        row.slug = w.slug ∧ row.installs = s.figure w.slug env.now) ∧
    (∀ env params rows db', (handle app (.list params)).alone (S := registry) env none s.db =
      some (.ok (.summaries rows), db') → ∀ row ∈ rows, row.installs = s.figure row.slug env.now) ∧
    (∀ a s', s.step (handle app) a = some s' → ∀ slug i,
      (∀ v, Succeeds a s s' slug i v → s'.last (seenOf slug i) = some v) ∧
        ((¬ ∃ v, Succeeds a s s' slug i v) → s'.last (seenOf slug i) = s.last (seenOf slug i))) ∧
    ∀ i ∈ s.db.installs, ∃ v ∈ s.db.versions, v.workflowId = i.workflowId ∧ v.version = i.version := by
  have hsound := (h.good h0.sound).sound
  refine ⟨fun w hw hl env => ?_, fun env params rows db' hlist row hrow => ?_, fun a s' hst slug i => ?_, hsound.installed⟩
  · obtain ⟨row, hrow, ha⟩ := alone_detail env hsound hw hl (h.slugs h0 w hw)
    obtain ⟨hslug, hcount⟩ := summary_eq_some hrow
    exact ⟨row, ha, hslug, hcount.trans (installCount_figure h0 h hw env.now)⟩
  · obtain ⟨w, hw, -, hsum⟩ := alone_list hlist row hrow
    obtain ⟨hslug, hcount⟩ := summary_eq_some hsum
    rw [hslug, hcount]
    exact installCount_figure h0 h hw env.now
  · exact last_step h0.sound h hst slug i

/-- Two installations of a workflow, one of which is forgotten. -/
def Sample.installed : List (Action registry Request) :=
  serve 10 0 (create 0 "first") 7 ++ serve 20 1 (.record (headers "") "first" ⟨7, 1⟩) 4 ++
    serve 30 2 (.record (headers "") "first" ⟨8, 1⟩) 4 ++ serve 40 3 (.forget (headers "") "first" 7) 3

/-- The figure that `detail` shows at second `n`. -/
def Sample.shown (n : ℕ) (s : Registry) : Option ℕ :=
  match (handle replica (.detail "first")).alone (S := registry) (env n) none s.db with
  | some (.ok (.summary row), _) => some row.installs
  | _ => none

/-- The other is recorded at second 33: it counts at second 100, and no more
ninety days on. -/
theorem installs_counted_forgotten : ∃ s, Reached Sample.replica Sample.library s ∧
    s.figure "first" (Sample.env 100).now = 1 ∧ s.figure "first" (Sample.env (33 + 90 * 86400)).now = 0 := by
  have h : (Sample.after Sample.installed).map (fun s => (s.db.workflows.rows.map fun w => (w.slug, w.unlistedAt),
      Sample.shown 100 s, Sample.shown (33 + 90 * 86400) s)) = some ([("first", none)], some 1, some 0) := by
    decide +kernel
  obtain ⟨s, hr, hs⟩ := Sample.reached h
  simp only [Prod.mk.injEq, List.map_eq_singleton_iff] at hs
  obtain ⟨⟨w, hw, hslug, hl⟩, hnow, hlater⟩ := hs
  have hwm : w ∈ s.db.workflows := by
    rw [Table.mem_def, hw]
    exact List.mem_singleton_self w
  have figure : ∀ n k, Sample.shown n s = some k → s.figure "first" (Sample.env n).now = k := by
    intro n k hk
    obtain ⟨row, ha, -, hrow⟩ := (installs_counted Sample.initial hr).1 w hwm hl (Sample.env n)
    unfold Sample.shown at hk
    rw [← hslug, ha] at hk
    rw [← hslug, ← hrow]
    exact Option.some.inj hk
  exact ⟨s, hr, figure _ _ hnow, figure _ _ hlater⟩

end HarnessRegistry

/-
# The cap on listed workflows

A publisher is to hold at most `maxWorkflowsPerPublisher` listed workflows.
Only `create` counts, in a statement of its own before its transaction. So the
count may be out of date when the workflow goes in, and `publish_version`,
which puts an unlisted workflow back, does not count at all: two ways past the
cap (`cap_exceeded`). They are the only ones (`cap_iff`): a create that nobody
overtook goes in below the cap, and no other request raises the number.

Key definitions: `Raises`, `Overtaken`, `Unchecked`.
Key theorems: `Guar.raises`, `create_counts`, `cap_iff`.
-/
import HarnessRegistry.Runs

namespace HarnessRegistry

open Txn Handler

variable {app : AppState} {db db₀ : Db} {s s' : Registry} {p : Uuid}

/-! ### What raises the number of listed workflows -/

/-- The workflows listed after an update were listed before, or are among `q`. -/
theorem listed_setWorkflow {id : Uuid} {f : WorkflowRow → WorkflowRow} {hf : ∀ r, key (f r) = key r}
    (q : WorkflowRow → Bool) (h : ∀ r, r.id = id → (f r).publisherId = r.publisherId ∧
      ((f r).unlistedAt = none → r.unlistedAt = none ∨ q r = true)) :
    (db.setWorkflow id f hf).listed p ≤ db.listed p + db.workflows.count q := by
  refine Table.count_update_le hf fun r hr hp => ?_
  obtain ⟨ho, hl⟩ := h r hr
  rw [ho, Bool.and_eq_true, Option.isNone_iff_eq_none] at hp
  rcases hl hp.2 with hl | hl
  · exact .inl (by rw [Bool.and_eq_true, hl]; exact ⟨hp.1, rfl⟩)
  · exact .inr hl

/-- A write that may list a workflow. -/
def Write.lists : Write → Bool
  | .insertWorkflow _ | .relist .. => true
  | _ => false

theorem listed_apply_le {w : Write} (hw : w.lists = false) : (w.apply db).listed p ≤ db.listed p := by
  cases w
  case insertWorkflow | relist => cases hw
  case amend | setOfficial =>
    exact le_trans (listed_setWorkflow (fun _ => false) fun r _ => ⟨rfl, .inl⟩) (by simp [Table.count])
  case unlist =>
    exact le_trans (listed_setWorkflow (fun _ => false) fun r _ => ⟨rfl, by simp⟩) (by simp [Table.count])
  all_goals exact Nat.le_refl _

/-- One write lists one workflow at most. -/
theorem listed_apply_succ (w : Write) (db : Db) : (w.apply db).listed p ≤ db.listed p + 1 := by
  by_cases hw : w.lists = true
  · cases w with
    | insertWorkflow row =>
      have h := Table.count_insert_le db.workflows row fun w => w.publisherId == p && w.unlistedAt.isNone
      refine le_trans h (Nat.add_le_add_left ?_ _)
      split <;> omega
    | relist id now =>
      refine le_trans (listed_setWorkflow (fun r => r.id == id) fun r hr => ⟨rfl, fun _ => .inr (by simpa using hr)⟩)
        (Nat.add_le_add_left (Table.count_le_one fun x y hx hy => ?_) _)
      have hx : x.id = id := by simpa using hx
      have hy : y.id = id := by simpa using hy
      exact (clash_workflow _ _).mpr (.inl (hx.trans hy.symm))
    | _ => cases hw
  · exact le_trans (listed_apply_le (by simpa using hw)) (Nat.le_succ _)

/-- A workflow of somebody else's lists none of one's own. -/
theorem listed_insertWorkflow_le {row : WorkflowRow} (hp : row.publisherId ≠ p) :
    ((Write.insertWorkflow row).apply db).listed p ≤ db.listed p := by
  have h := Table.count_insert_le db.workflows row fun w => w.publisherId == p && w.unlistedAt.isNone
  rwa [if_neg (by simp [hp])] at h

theorem listed_applyAll_le : ∀ (ws : List Write) {db : Db}, (∀ w ∈ ws, w.lists = false) →
    (registry.applyAll ws db).listed p ≤ db.listed p
  | [], _, _ => Nat.le_refl _
  | w :: ws, _, h => le_trans (listed_applyAll_le ws fun v hv => h v (List.mem_cons_of_mem _ hv))
      (listed_apply_le (h w List.mem_cons_self))

/-- Several writes, one of which lists a workflow. -/
theorem listed_applyAll_succ (vs : List Write) {us : List Write} (w : Write) (db : Db) (hv : ∀ v ∈ vs, v.lists = false)
    (hu : ∀ v ∈ us, v.lists = false) : (registry.applyAll (vs ++ w :: us) db).listed p ≤ db.listed p + 1 := by
  rw [Server.applyAll_append, Server.applyAll_cons]
  calc (registry.applyAll us (w.apply (registry.applyAll vs db))).listed p
      ≤ (w.apply (registry.applyAll vs db)).listed p := listed_applyAll_le us hu
    _ ≤ (registry.applyAll vs db).listed p + 1 := listed_apply_succ w _
    _ ≤ db.listed p + 1 := Nat.succ_le_succ (listed_applyAll_le vs hv)

theorem Upserts.lists {conflict : Uuid → Write} {g : ℤ} {login : String} {name avatar : Option String} {id : Uuid}
    {w : Write} (hu : Upserts conflict g login name avatar db id w) (hc : ∀ id, (conflict id).lists = false) :
    w.lists = false := by
  cases hu with
  | insert env => rfl
  | update _ _ => exact hc _

/-- A request that publishes a version of a workflow that is there. -/
def Request.publishesVersion : Request → Bool
  | .publishVersion .. => true
  | _ => false

/-- A request that creates a workflow. -/
def Request.creates : Request → Bool
  | .create .. => true
  | _ => false

/-- A commit that raises the number raises it by one, and is a create's or a
publish's. -/
theorem Guar.raises {req : Request} {done ws : List Write} (hg : Guar app req done db ws)
    (hlt : db.listed p < (registry.applyAll ws db).listed p) :
    (registry.applyAll ws db).listed p ≤ db.listed p + 1 ∧
      (req.publishesVersion = true ∨ req.creates = true) := by
  have no : (∀ w ∈ ws, w.lists = false) → False := fun h => Nat.not_le.mpr hlt (listed_applyAll_le ws h)
  cases hg with
  | «prelude» _ hp =>
    refine (no fun w hw => ?_).elim
    cases hp with
    | touched => rw [List.mem_singleton.mp hw]; rfl
    | upserted _ hu => rw [List.mem_singleton.mp hw]; exact hu.lists fun _ => rfl
  | effect _ he =>
    cases he with
    | created => exact ⟨listed_applyAll_succ [] _ _ (by simp) (by simp [Write.lists]), .inr rfl⟩
    | published => exact ⟨listed_applyAll_succ [_] _ _ (by simp [Write.lists]) (by simp), .inl rfl⟩
    | issued _ _ hu =>
      refine (no fun w hw => ?_).elim
      simp only [List.mem_cons, List.not_mem_nil, or_false] at hw
      rcases hw with rfl | rfl
      · exact hu.lists fun _ => rfl
      · rfl
    | _ => exact (no (by simp [Write.lists])).elim

/-! ### A create counts -/

/-- While nobody raises `p`'s number, commit something that raises it only
below the cap. -/
def capRule (app : AppState) (p : Uuid) : Rule registry where
  rely a b := a.Grows b ∧ b.listed p ≤ a.listed p
  inv := Db.Sound
  guar _ db ws := db.listed p < (registry.applyAll ws db).listed p →
    (db.listed p : ℤ) < app.config.maxWorkflowsPerPublisher

theorem capRule_within : Within (capRule app p) :=
  ⟨And.left, id, fun h h' => ⟨h.1.trans h'.1, le_trans h'.2 h.2⟩⟩

theorem create_counts (hcap : 0 < app.config.maxWorkflowsPerPublisher) (h : HeaderMap) (body : CreateWorkflow)
    (db : Db) : (handle app (.create h body)).Wp (capRule app p) none [] db fun _ _ _ _ => True := by
  change Wp (capRule app p) (asPublisher app h fun q => create app q body) none [] db fun _ _ _ _ => True
  unfold asPublisher
  rw [wp_bind]
  refine wp_fromRequestParts capRule_within (fun db q token now _ _ hlt => ?_) (fun _ _ _ _ => trivial)
    fun q done db _ hq => ?_
  · exact absurd hlt (Nat.not_lt.mpr (listed_applyAll_le _ (by simp [Write.lists])))
  · refine wp_create capRule_within hq (fun _ _ => trivial) fun counted db env hr _ hheld ws _ hws => ⟨fun hlt => ?_, trivial⟩
    by_cases hpq : q.id = p
    · subst hpq
      have := hheld hcap
      have := hr.2
      omega
    · rw [hws] at hlt
      exact absurd hlt (Nat.not_lt.mpr (listed_insertWorkflow_le hpq))

/-! ### Runs -/

/-- The move puts one more of `p`'s workflows in the library. -/
def Raises (p : Uuid) (s s' : Registry) : Prop := s.db.listed p < s'.db.listed p

/-- Since request `r` has arrived, a move of the run `as` has raised `p`'s
number. -/
def Overtaken (app : AppState) (db₀ : Db) (as : List (Action registry Request)) (p : Uuid) (r : ℕ) : Prop :=
  ∃ as₁ a s s', Pool.Moves (handle app) (Registry.start db₀) as as₁ a s s' ∧ r < s.tasks.length ∧ Raises p s s'

/-- After the run `as`, in `s`, what request `r` does about `p`'s workflows is
covered by no count of them: it publishes a version, or creates and its count
may be out of date. -/
def Unchecked (app : AppState) (db₀ : Db) (as : List (Action registry Request)) (p : Uuid) (s : Registry)
    (r : ℕ) : Prop :=
  ∃ t, s.tasks[r]? = some t ∧
    (t.req.publishesVersion = true ∨ t.req.creates = true ∧ Overtaken app db₀ as p r)

/-- A raise that a count covers comes from below the cap. -/
theorem raise_checked (h0 : db₀.Sound) (hcap : 0 < app.config.maxWorkflowsPerPublisher)
    {as : List (Action registry Request)} {r : ℕ} {c : Choice registry} {t t' : Call} {ws : List Write}
    (has : (Registry.start db₀).run (handle app) as = some s) (ht : s.tasks[r]? = some t)
    (hm : t.move s.db c = some (t', ws)) (hcr : t.req.creates = true) (hno : ¬ Overtaken app db₀ as p r)
    (hlt : s.db.listed p < (registry.applyAll ws s.db).listed p) :
    (s.db.listed p : ℤ) < app.config.maxWorkflowsPerPublisher := by
  have hg0 : Good app (Registry.start db₀) := good_start h0
  have hg : Good app s := Contract.run_good hg0 has
  obtain ⟨h, body, hreq⟩ : ∃ h body, t.req = .create h body := by
    cases hreq : t.req <;> rw [hreq] at hcr <;> cases hcr
    exact ⟨_, _, rfl⟩
  have hwp := Contract.follow_arrival (R := capRule app p) (Q := fun _ _ _ => True) hg0
    (fun _ => ⟨.refl _, Nat.le_refl _⟩) (fun h h' => capRule_within.trans h h') (fun hs => hs)
    (fun _ _ _ _ _ _ _ => trivial) (Nat.zero_le r) has ht
    (fun _ u _ => by rw [hreq]; exact create_counts hcap h body u.db) fun as₁ a s₁ s₂ hmv hr _ => by
      refine ⟨Good.grows (Contract.run_good hg0 hmv.before) hmv.step, ?_⟩
      by_contra hlt
      exact hno ⟨as₁, a, s₁, s₂, hmv, hr, Nat.not_le.mp hlt⟩
  obtain ⟨hfr, hnf⟩ := hg.ok.fresh r t ht
  rcases (Contract.move_wp (R := capRule app p) ⟨.refl _, Nat.le_refl _⟩ hg.sound hfr hnf hwp hm).1 with rfl | ⟨hgu, -⟩
  · exact absurd hlt (Nat.lt_irrefl _)
  · exact hgu hlt

/-- **The cap holds exactly in the runs in which no uncounted request lists a
workflow for a publisher who is at the cap.** -/
theorem cap_iff (h0 : db₀.Initial) (hcap : 0 < app.config.maxWorkflowsPerPublisher)
    (as : List (Action registry Request)) :
    (∀ as₁ s₁, as₁ <+: as → (Registry.start db₀).run (handle app) as₁ = some s₁ →
        ∀ p, (s₁.db.listed p : ℤ) ≤ app.config.maxWorkflowsPerPublisher) ↔
      ∀ as₁ r c s₁ s₂ p, Pool.Moves (handle app) (Registry.start db₀) as as₁ (.task r c) s₁ s₂ →
        Raises p s₁ s₂ → Unchecked app db₀ as₁ p s₁ r →
        (s₁.db.listed p : ℤ) < app.config.maxWorkflowsPerPublisher := by
  let Bad (as₁ : List (Action registry Request)) (a : Action registry Request) (s₁ s₂ : Registry) : Prop :=
    ∃ r c p, a = .task r c ∧ Raises p s₁ s₂ ∧ Unchecked app db₀ as₁ p s₁ r ∧
      (app.config.maxWorkflowsPerPublisher : ℤ) ≤ s₁.db.listed p
  have hstart : ∀ p, ((Registry.start db₀).db.listed p : ℤ) ≤ app.config.maxWorkflowsPerPublisher := by
    intro p
    have h : (Registry.start db₀).db.listed p = 0 := by simp [Registry.start, Db.listed, h0.workflows, Table.count]
    omega
  refine (Pool.Moves.holds_iff (B := Bad) hstart ?_ ?_).trans ?_
  · intro as₁ a s₁ s₂ hmv hle hno p
    by_cases hraise : Raises p s₁ s₂
    swap
    · exact le_trans (Int.ofNat_le.mpr (Nat.not_lt.mp hraise)) (hle p)
    have hg : Good app s₁ := Reached.good h0.sound ⟨as₁, hmv.before⟩
    rcases Pool.step_cases hmv.step with ⟨req, -, rfl⟩ | ⟨w, -, hw, -, rfl⟩ | ⟨r, c, t, t', ws, rfl, ht, hm, -, rfl⟩
    · exact absurd hraise (Nat.lt_irrefl _)
    · have hwl : w.lists = false := by cases w <;> first | rfl | cases hw
      exact absurd hraise (Nat.not_lt.mpr (listed_apply_le hwl))
    · have hlt : s₁.db.listed p < (registry.applyAll ws s₁.db).listed p := hraise
      rcases (Contract.move_ok hg.ok ht hm).guar with rfl | ⟨hgu, -⟩
      · exact absurd hlt (Nat.lt_irrefl _)
      obtain ⟨hsucc, hreq⟩ := hgu.raises hlt
      have hbelow : (s₁.db.listed p : ℤ) < app.config.maxWorkflowsPerPublisher := by
        by_cases hun : Unchecked app db₀ as₁ p s₁ r
        · exact not_le.mp fun hfull => hno ⟨r, c, p, rfl, hraise, hun, hfull⟩
        · have hcr : t.req.creates = true := hreq.resolve_left fun h => hun ⟨t, ht, .inl h⟩
          exact raise_checked h0.sound hcap hmv.before ht hm hcr (fun ho => hun ⟨t, ht, .inr ⟨hcr, ho⟩⟩) hlt
      change ((registry.applyAll ws s₁.db).listed p : ℤ) ≤ _
      omega
  · rintro as₁ a s₁ s₂ - ⟨r, c, p, -, hraise, -, hfull⟩ hle
    have hraise : s₁.db.listed p < s₂.db.listed p := hraise
    have := hle p
    omega
  · constructor
    · intro hno as₁ r c s₁ s₂ p hmv hraise hun
      exact not_le.mp fun hfull => hno as₁ _ s₁ s₂ hmv ⟨r, c, p, rfl, hraise, hun, hfull⟩
    · rintro hcond as₁ a s₁ s₂ hmv ⟨r, c, p, rfl, hraise, hun, hfull⟩
      exact not_lt.mpr hfull (hcond as₁ r c s₁ s₂ p hmv hraise hun)

/-- One workflow, which is withdrawn, a second, and a new version of the first. -/
def Sample.relisted : List (Action registry Request) :=
  serve 10 0 (create 0 "first") 7 ++ serve 20 1 (.unlist (headers (token 0)) "first") 4 ++
    serve 30 2 (create 0 "second") 7 ++ serve 40 3 (publish 0 "first" "steps: [fixed]") 8

/-- Two creates that both count before either commits. -/
def Sample.overtaken : List (Action registry Request) :=
  serve 10 0 (create 0 "first") 3 ++ serve 20 1 (create 0 "second") 7 ++ moves 30 0 4

/-- **Under a cap of one, a publisher holds two listed workflows**: after a
re-listing, and after a race. -/
theorem cap_exceeded :
    Sample.library.Initial ∧ Sample.replica.config.maxWorkflowsPerPublisher = 1 ∧
      (∃ s, (Registry.start Sample.library).run (handle Sample.replica) Sample.relisted = some s ∧
        s.db.listed 1 = 2) ∧
      ∃ s, (Registry.start Sample.library).run (handle Sample.replica) Sample.overtaken = some s ∧
        s.db.listed 1 = 2 := by
  have h₁ : ((Sample.after Sample.relisted).map fun s => s.db.listed 1) = some 2 := by decide +kernel
  have h₂ : ((Sample.after Sample.overtaken).map fun s => s.db.listed 1) = some 2 := by decide +kernel
  exact ⟨Sample.initial, rfl, Option.map_eq_some_iff.mp h₁, Option.map_eq_some_iff.mp h₂⟩

/-- After one create, of a publisher at the cap. -/
theorem cap_iff_create :
    ∃ s, (Registry.start Sample.library).run (handle Sample.replica) (Sample.serve 10 0 (Sample.create 0 "first") 7) =
        some s ∧ s.db.listed 1 = 1 ∧
      ((∀ as₁ s₁, as₁ <+: Sample.serve 10 0 (Sample.create 0 "first") 7 →
          (Registry.start Sample.library).run (handle Sample.replica) as₁ = some s₁ →
          ∀ p, (s₁.db.listed p : ℤ) ≤ 1) ↔
        ∀ as₁ r c s₁ s₂ p, Pool.Moves (handle Sample.replica) (Registry.start Sample.library)
          (Sample.serve 10 0 (Sample.create 0 "first") 7) as₁ (.task r c) s₁ s₂ → Raises p s₁ s₂ →
          Unchecked Sample.replica Sample.library as₁ p s₁ r → (s₁.db.listed p : ℤ) < 1) := by
  have h : ((Sample.after (Sample.serve 10 0 (Sample.create 0 "first") 7)).map fun s => s.db.listed 1) =
      some 1 := by decide +kernel
  obtain ⟨s, hs, hl⟩ := Option.map_eq_some_iff.mp h
  exact ⟨s, hs, hl, cap_iff Sample.initial (by decide) _⟩

end HarnessRegistry

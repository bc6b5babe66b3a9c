/-
# The history of a pool

The log of a pool names the request behind each committed write, so a state
carries its own history: `Pool.history` is the list of writes in order, each
with the request that made it. `Contract.step_cases` says what one move of the
system adds to it, and is what properties of whole runs are proved from.

Key definitions: `Pool.Logged`, `Pool.history`, `Pool.last`, `Pool.Moves`, `Contract.Good`.
Key theorems: `Pool.step_logged`, `Pool.tasks_step`, `Pool.arrival`,
`Pool.reqs_run`, `Pool.Moves.holds_iff`, `Pool.step_history`,
`Task.move_commits`, `Contract.step_cases`, `Contract.run_good`,
`Contract.run_rely`.
-/
import HarnessRegistry.Txn.Contract

namespace Txn

variable {S : Server} {Req Out : Type}

namespace Pool

/-- Every committed write, with the request that made it, if any. -/
def history (s : Pool S Req Out) : List (Option Req × S.Write) :=
  s.log.map fun e => (e.1.bind fun r => s.tasks[r]?.map Task.req, e.2)

/-- The last event of the history, as `f` reads events. -/
def last {β : Type} (s : Pool S Req Out) (f : Option Req × S.Write → Option β) : Option β :=
  (s.history.filterMap f).getLast?

theorem last_append {β : Type} {s s' : Pool S Req Out} {l : List (Option Req × S.Write)}
    (h : s'.history = s.history ++ l) (f : Option Req × S.Write → Option β) :
    s'.last f = (l.filterMap f).getLast?.or (s.last f) := by
  unfold last
  rw [h, List.filterMap_append, List.getLast?_append]

/-- Events that `f` does not look at leave the last one. -/
theorem last_unread {β : Type} {s s' : Pool S Req Out} {l : List (Option Req × S.Write)}
    (h : s'.history = s.history ++ l) {f : Option Req × S.Write → Option β} (hf : ∀ e ∈ l, f e = none) :
    s'.last f = s.last f := by
  rw [last_append h, List.filterMap_eq_nil_iff.mpr hf]
  rfl

/-- The log is of the tasks of the pool, and has what each has committed. -/
structure Logged (s : Pool S Req Out) : Prop where
  index : ∀ e ∈ s.log, ∀ r, e.1 = some r → r < s.tasks.length
  done : ∀ (r : ℕ) (t : Task S Req Out), s.tasks[r]? = some t →
    t.done = (s.log.filter fun e => e.1 = some r).map (·.2)

theorem logged_init {s : Pool S Req Out} (ht : s.tasks = []) (hl : s.log = []) : s.Logged :=
  ⟨by simp [hl], by simp [ht]⟩

variable {handle : Req → Prog S Out} {s s' : Pool S Req Out}

/-- A task after a move of the system was there before, or has just arrived,
or is the one that moved. -/
theorem step_task {a : Action S Req} (h : s.step handle a = some s') {r : ℕ} {t : Task S Req Out}
    (ht : s'.tasks[r]? = some t) :
    s.tasks[r]? = some t ∨ (∃ req, t = ⟨req, handle req, none, [], false⟩) ∨
      ∃ c u ws, a = .task r c ∧ s.tasks[r]? = some u ∧ u.move s.db c = some (t, ws) ∧ s' = s.moved r t ws := by
  rcases step_cases h with ⟨req, -, rfl⟩ | ⟨w, -, -, -, rfl⟩ | ⟨i, c, u, u', ws, ha, hu, hm, -, rfl⟩
  · simp only [arrived, List.getElem?_append] at ht
    split at ht
    · exact .inl ht
    · exact .inr (.inl ⟨req, by simpa using List.mem_of_getElem? ht⟩)
  · exact .inl ht
  · rcases of_task_moved hu ht with ⟨rfl, rfl⟩ | ⟨-, ht⟩
    · exact .inr (.inr ⟨c, u, ws, ha, hu, hm, rfl⟩)
    · exact .inl ht

theorem step_logged {a : Action S Req} (hs : s.Logged) (h : s.step handle a = some s') : s'.Logged := by
  rcases step_cases h with ⟨req, -, rfl⟩ | ⟨w, -, -, -, rfl⟩ | ⟨r, c, t, t', ws, -, ht, hm, -, rfl⟩
  · constructor
    · intro e he r hr
      have := hs.index e he r hr
      simp only [arrived, List.length_append, List.length_cons, List.length_nil]
      omega
    · intro r t ht
      by_cases hlt : r < s.tasks.length
      · exact hs.done r t (by rwa [arrived, List.getElem?_append_left hlt] at ht)
      · have hnone : (s.log.filter fun e => e.1 = some r) = [] := by
          refine List.filter_eq_nil_iff.mpr fun e he => ?_
          simp only [decide_eq_true_eq]
          exact fun hr => hlt (hs.index e he r hr)
        simp only [arrived, List.getElem?_append_right (Nat.le_of_not_lt hlt)] at ht
        obtain rfl := List.mem_singleton.mp (List.mem_of_getElem? ht)
        simp [arrived, hnone]
  · constructor
    · intro e he r hr
      rcases List.mem_append.mp he with he | he
      · exact hs.index e he r hr
      · rw [List.mem_singleton.mp he] at hr
        cases hr
    · intro r t ht
      simpa [touched] using hs.done r t ht
  · have hlt : r < s.tasks.length := (List.getElem?_eq_some_iff.mp ht).1
    constructor
    · intro e he r' hr'
      simp only [moved, List.length_set]
      rcases List.mem_append.mp he with he | he
      · exact hs.index e he r' hr'
      · obtain ⟨w, -, rfl⟩ := List.mem_map.mp he
        cases hr'
        exact hlt
    · intro r' u hu
      simp only [moved]
      rw [List.filter_append, List.map_append]
      rcases of_task_moved ht hu with ⟨rfl, rfl⟩ | ⟨hr, hu⟩
      · have hall : ((ws.map fun w => ((some r' : Option ℕ), w)).filter fun e => e.1 = some r') =
            ws.map fun w => (some r', w) := List.filter_eq_self.mpr (by simp)
        rw [(Contract.move_eq hm).2, hs.done r' t ht, hall, List.map_map]
        simp [Function.comp_def]
      · have hnone : ((ws.map fun w => ((some r : Option ℕ), w)).filter fun e => e.1 = some r') = [] :=
          List.filter_eq_nil_iff.mpr (by simp [Ne.symm hr])
        rw [hs.done r' u hu, hnone]
        simp

/-- Requests are never forgotten, nor what they committed. -/
theorem tasks_step {a : Action S Req} (h : s.step handle a = some s') {r : ℕ} {t : Task S Req Out}
    (ht : s.tasks[r]? = some t) :
    ∃ t', s'.tasks[r]? = some t' ∧ t'.req = t.req ∧ ∃ ws, t'.done = t.done ++ ws := by
  have hlt : r < s.tasks.length := (List.getElem?_eq_some_iff.mp ht).1
  rcases step_cases h with ⟨req, -, rfl⟩ | ⟨w, -, -, -, rfl⟩ | ⟨i, c, u, u', ws, -, hu, hm, -, rfl⟩
  · exact ⟨t, by rw [arrived, List.getElem?_append_left hlt]; exact ht, rfl, [], by simp⟩
  · exact ⟨t, ht, rfl, [], by simp⟩
  · by_cases hi : i = r
    · subst hi
      obtain rfl := Option.some.inj (ht.symm.trans hu)
      exact ⟨u', task_moved ht, (Contract.move_eq hm).1, ws, (Contract.move_eq hm).2⟩
    · exact ⟨t, (task_moved_of_ne (Ne.symm hi)).trans ht, rfl, [], by simp⟩

theorem tasks_run {as : List (Action S Req)} (h : s.run handle as = some s') {r : ℕ} {t : Task S Req Out}
    (ht : s.tasks[r]? = some t) :
    ∃ t', s'.tasks[r]? = some t' ∧ t'.req = t.req ∧ ∃ ws, t'.done = t.done ++ ws := by
  refine run_induct (P := fun s' => ∃ t', s'.tasks[r]? = some t' ∧ t'.req = t.req ∧ ∃ ws, t'.done = t.done ++ ws)
    ⟨t, ht, rfl, [], by simp⟩ (fun s₁ a s₂ ⟨t₁, ht₁, hr₁, ws, hd₁⟩ hst => ?_) h
  obtain ⟨t₂, ht₂, hr₂, vs, hd₂⟩ := tasks_step hst ht₁
  exact ⟨t₂, ht₂, hr₂.trans hr₁, ws ++ vs, by rw [hd₂, hd₁, List.append_assoc]⟩

theorem arrived_task (handle : Req → Prog S Out) (s : Pool S Req Out) (req : Req) :
    (s.arrived handle req).tasks[s.tasks.length]? = some ⟨req, handle req, none, [], false⟩ := by simp [arrived]

/-- A request that was not there at first has arrived. -/
theorem arrival {s₀ : Pool S Req Out} {r : ℕ} (h0 : s₀.tasks.length ≤ r) {as : List (Action S Req)}
    (h : s₀.run handle as = some s) {t : Task S Req Out} (ht : s.tasks[r]? = some t) :
    ∃ bs cs u, as = bs ++ .arrive t.req :: cs ∧ s₀.run handle bs = some u ∧ u.tasks.length = r ∧
      (u.arrived handle t.req).run handle cs = some s := by
  induction as using List.reverseRecOn generalizing s t with
  | nil =>
    cases h
    have := (List.getElem?_eq_some_iff.mp ht).1
    omega
  | append_singleton as a ih =>
    obtain ⟨s₁, h₁, h₂⟩ := run_snoc.mp h
    -- it was there before the last move
    have old : ∀ t₁, s₁.tasks[r]? = some t₁ → ∃ bs cs u, as ++ [a] = bs ++ .arrive t.req :: cs ∧
        s₀.run handle bs = some u ∧ u.tasks.length = r ∧ (u.arrived handle t.req).run handle cs = some s := by
      intro t₁ ht₁
      obtain ⟨t', ht', hreq, -⟩ := tasks_step h₂ ht₁
      obtain rfl := Option.some.inj (ht.symm.trans ht')
      obtain ⟨bs, cs, u, rfl, hu, hr, hc⟩ := ih h₁ ht₁
      rw [← hreq] at hc ⊢
      exact ⟨bs, cs ++ [a], u, by simp, hu, hr, run_snoc.mpr ⟨s₁, hc, h₂⟩⟩
    rcases step_cases h₂ with ⟨req, rfl, rfl⟩ | ⟨w, -, -, -, rfl⟩ | ⟨i, c, u, u', ws, -, hu, hm, -, rfl⟩
    · by_cases hlt : r < s₁.tasks.length
      · exact old _ (List.getElem?_eq_getElem hlt)
      · rw [arrived, List.getElem?_append_right (Nat.le_of_not_lt hlt)] at ht
        obtain ⟨hr, rfl⟩ : r = s₁.tasks.length ∧ ⟨req, handle req, none, [], false⟩ = t := by
          rw [List.getElem?_singleton, Option.ite_none_right_eq_some] at ht
          exact ⟨by omega, Option.some.inj ht.2⟩
        exact ⟨as, [], s₁, rfl, h₁, hr.symm, rfl⟩
    · exact old t ht
    · have hlt := (List.getElem?_eq_some_iff.mp ht).1
      rw [moved, List.length_set] at hlt
      exact old _ (List.getElem?_eq_getElem hlt)

/-- The requests are those that have arrived, in order. -/
theorem reqs_run {s₀ : Pool S Req Out} {as : List (Action S Req)} (h : s₀.run handle as = some s) :
    s.tasks.map Task.req = s₀.tasks.map Task.req ++ as.filterMap Action.request? := by
  induction as using List.reverseRecOn generalizing s with
  | nil =>
    cases h
    simp
  | append_singleton as a ih =>
    obtain ⟨s₁, h₁, h₂⟩ := run_snoc.mp h
    rw [List.filterMap_append, ← List.append_assoc, ← ih h₁]
    rcases step_cases h₂ with ⟨req, rfl, rfl⟩ | ⟨w, rfl, -, -, rfl⟩ | ⟨i, c, u, u', ws, rfl, hu, hm, -, rfl⟩
    · simp [arrived, Action.request?]
    · simp [touched, Action.request?]
    · obtain ⟨hlt, rfl⟩ := List.getElem?_eq_some_iff.mp hu
      rw [moved, List.map_set, (Contract.move_eq hm).1, ← List.getElem_map Task.req (h := by simpa using hlt),
        List.set_getElem_self]
      simp [Action.request?]

/-- A move of the run `as` from `s₀`: after `as₁`, from `s` to `s'`. -/
structure Moves (handle : Req → Prog S Out) (s₀ : Pool S Req Out) (as as₁ : List (Action S Req))
    (a : Action S Req) (s s' : Pool S Req Out) : Prop where
  rest : ∃ as₂, as = as₁ ++ a :: as₂
  before : s₀.run handle as₁ = some s
  step : s.step handle a = some s'

theorem Moves.mono {s₀ : Pool S Req Out} {as as' as₁ : List (Action S Req)} {a : Action S Req}
    (h : Moves handle s₀ as as₁ a s s') (hp : as <+: as') : Moves handle s₀ as' as₁ a s s' := by
  obtain ⟨as₂, rfl⟩ := h.rest
  obtain ⟨bs, rfl⟩ := hp
  exact ⟨⟨as₂ ++ bs, by simp⟩, h.before, h.step⟩

/-- A move of the rest of a run is one of the whole. -/
theorem Moves.append {s₀ u : Pool S Req Out} {bs as as₁ : List (Action S Req)} {a : Action S Req}
    (hu : s₀.run handle bs = some u) (h : Moves handle u as as₁ a s s') :
    Moves handle s₀ (bs ++ as) (bs ++ as₁) a s s' := by
  obtain ⟨as₂, rfl⟩ := h.rest
  exact ⟨⟨as₂, by simp⟩, by rw [run_append, hu]; exact h.before, h.step⟩

theorem Moves.reached {s₀ s s' : Pool S Req Out} {as as₁ : List (Action S Req)} {a : Action S Req}
    (h : Moves handle s₀ as as₁ a s s') : s₀.run handle (as₁ ++ [a]) = some s' := run_snoc.mpr ⟨s, h.before, h.step⟩

/-- **When a property survives a run**: if moves of one kind break it and all
others keep it, it holds all along a run exactly if the run has no move of that
kind. -/
theorem Moves.holds_iff {s₀ : Pool S Req Out} {as : List (Action S Req)} {P : Pool S Req Out → Prop}
    {B : List (Action S Req) → Action S Req → Pool S Req Out → Pool S Req Out → Prop} (h0 : P s₀)
    (hkeep : ∀ as₁ a s₁ s₂, Moves handle s₀ as as₁ a s₁ s₂ → P s₁ → ¬ B as₁ a s₁ s₂ → P s₂)
    (hbreak : ∀ as₁ a s₁ s₂, Moves handle s₀ as as₁ a s₁ s₂ → B as₁ a s₁ s₂ → ¬ P s₂) :
    (∀ as₁ s₁, as₁ <+: as → s₀.run handle as₁ = some s₁ → P s₁) ↔
      ∀ as₁ a s₁ s₂, Moves handle s₀ as as₁ a s₁ s₂ → ¬ B as₁ a s₁ s₂ := by
  constructor
  · intro hall as₁ a s₁ s₂ hmv hbad
    obtain ⟨as₂, rfl⟩ := hmv.rest
    exact hbreak as₁ a s₁ s₂ hmv hbad (hall _ s₂ ⟨as₂, by simp⟩ hmv.reached)
  · intro hno as₁
    induction as₁ using List.reverseRecOn with
    | nil =>
      intro s₁ _ h₁
      cases h₁
      exact h0
    | append_singleton as₁ a ih =>
      intro s₂ hpre h₂
      obtain ⟨s₁, h₁, hst⟩ := run_snoc.mp h₂
      obtain ⟨as₂, rfl⟩ := hpre
      have hmv : Moves handle s₀ (as₁ ++ [a] ++ as₂) as₁ a s₁ s₂ := ⟨⟨as₂, by simp⟩, h₁, hst⟩
      exact hkeep as₁ a s₁ s₂ hmv (ih s₁ ⟨a :: as₂, by simp⟩ h₁) (hno as₁ a s₁ s₂ hmv)

/-- Earlier entries keep their requests. -/
theorem history_of_tasks (hs : s.Logged) (s' : Pool S Req Out) (l : List (Option ℕ × S.Write))
    (hlog : s'.log = s.log ++ l) (hreq : ∀ (r : ℕ) (t : Task S Req Out), s.tasks[r]? = some t →
      ∃ t', s'.tasks[r]? = some t' ∧ t'.req = t.req) :
    s'.history = s.history ++ l.map fun e => (e.1.bind fun r => s'.tasks[r]?.map Task.req, e.2) := by
  simp only [history, hlog, List.map_append]
  congr 1
  refine List.map_congr_left fun e he => ?_
  congr 1
  cases hr : e.1 with
  | none => rfl
  | some r =>
    have hlt := hs.index e he r hr
    obtain ⟨t', ht', he'⟩ := hreq r _ (List.getElem?_eq_getElem hlt)
    simp only [Option.bind_some, ht', List.getElem?_eq_getElem hlt, Option.map_some, he']

/-- A move adds to the history what it adds to the log. -/
theorem step_history {a : Action S Req} (hs : s.Logged) (h : s.step handle a = some s') :
    (∃ req, a = .arrive req ∧ s' = s.arrived handle req ∧ s'.history = s.history) ∨
    (∃ w, a = .outside w ∧ S.external w = true ∧ s' = s.touched w ∧ s'.history = s.history ++ [(none, w)]) ∨
    ∃ r c t t' ws, a = .task r c ∧ s.tasks[r]? = some t ∧ t.move s.db c = some (t', ws) ∧ s' = s.moved r t' ws ∧
      s'.tasks[r]? = some t' ∧ s'.history = s.history ++ ws.map (some t.req, ·) := by
  have hreq : ∀ (r : ℕ) (t : Task S Req Out), s.tasks[r]? = some t →
      ∃ t', s'.tasks[r]? = some t' ∧ t'.req = t.req := by
    intro r t ht
    obtain ⟨t', ht', hr, -⟩ := tasks_step h ht
    exact ⟨t', ht', hr⟩
  rcases step_cases h with ⟨req, ha, rfl⟩ | ⟨w, ha, hx, -, rfl⟩ | ⟨r, c, t, t', ws, ha, ht, hm, -, rfl⟩
  · have hh := history_of_tasks hs (s.arrived handle req) [] (by simp [arrived]) hreq
    exact .inl ⟨req, ha, rfl, by simpa using hh⟩
  · exact .inr (.inl ⟨w, ha, hx, rfl, history_of_tasks hs (s.touched w) [(none, w)] rfl hreq⟩)
  · have htask : (s.moved r t' ws).tasks[r]? = some t' := task_moved ht
    have hh := history_of_tasks hs (s.moved r t' ws) (ws.map (some r, ·)) rfl hreq
    rw [List.map_map] at hh
    simp only [Function.comp_def, Option.bind_some, htask, Option.map_some, (Contract.move_eq hm).1] at hh
    exact .inr (.inr ⟨r, c, t, t', ws, ha, ht, hm, rfl, htask, hh⟩)

end Pool

/-- An answered request is done. -/
theorem Task.answered_eq {t : Task S Req Out} {a : Out} :
    t.answered = some a ↔ t.gone = false ∧ t.prog = .ret a := by
  unfold Task.answered
  cases hg : t.gone with
  | true => simp
  | false => cases hp : t.prog <;> simp

theorem Task.move_of_answered {t : Task S Req Out} {a : Out} (h : t.answered = some a) (db : S.Db) (c : Choice S) :
    t.move db c = none := by
  obtain ⟨hg, hp⟩ := Task.answered_eq.mp h
  cases c <;> simp [Task.move, hg, hp]

theorem Task.move_of_gone {t : Task S Req Out} (h : t.gone = true) (db : S.Db) (c : Choice S) : t.move db c = none := by
  cases c <;> simp [Task.move, h]

/-- A move that commits something is a `COMMIT`, or a statement outside a
transaction. -/
theorem Task.move_commits {t t' : Task S Req Out} {db : S.Db} {c : Choice S} {ws : List S.Write}
    (hm : t.move db c = some (t', ws)) (hne : ws ≠ []) :
    ∃ env, c = .go env ∧ t.gone = false ∧
      ((∃ k x, t.prog = .commit k ∧ t.tx = some x ∧ ws = x.writes ∧ t' = t.next (k (.ok ())) none ws) ∨
        ∃ q k a, t.prog = .stmt q k ∧ t.tx = none ∧ S.exec env q db = .ok (a, ws) ∧ t' = t.next (k (.ok a)) none ws) := by
  obtain ⟨hg, h⟩ := Task.goes_of_move hm
  cases h with
  | committed hp hx => exact ⟨_, rfl, hg, .inl ⟨_, _, hp, hx, rfl, rfl⟩⟩
  | ran hp hx he => exact ⟨_, rfl, hg, .inr ⟨_, _, _, hp, hx, he, rfl⟩⟩
  | _ => exact absurd rfl hne

/-- A task that can make no move stays as it is. -/
theorem Pool.still_run {handle : Req → Prog S Out} {s s' : Pool S Req Out} {as : List (Action S Req)} {r : ℕ}
    {t : Task S Req Out} (hstill : ∀ db c, t.move db c = none) (h : s.run handle as = some s')
    (ht : s.tasks[r]? = some t) : s'.tasks[r]? = some t := by
  refine run_induct (P := fun s' => s'.tasks[r]? = some t) ht (fun s₁ a s₂ ht₁ hst => ?_) h
  have hlt := (List.getElem?_eq_some_iff.mp ht₁).1
  rcases step_cases hst with ⟨req, -, rfl⟩ | ⟨w, -, -, -, rfl⟩ | ⟨i, c, u, u', ws, -, hu, hm, -, rfl⟩
  · rw [arrived, List.getElem?_append_left hlt]
    exact ht₁
  · exact ht₁
  · by_cases hi : i = r
    · subst hi
      obtain rfl := Option.some.inj (ht₁.symm.trans hu)
      rw [hstill] at hm
      cases hm
    · exact (task_moved_of_ne (Ne.symm hi)).trans ht₁

namespace Contract

variable {handle : Req → Prog S Out} {C : Contract S handle} {s s' : Pool S Req Out}

/-- What holds after every run from an empty pool. -/
structure Good (C : Contract S handle) (s : Pool S Req Out) : Prop where
  ok : C.Ok s
  logged : s.Logged

theorem good_init (hi : C.inv s.db) (ht : s.tasks = []) (hl : s.log = []) : C.Good s :=
  ⟨init_ok hi ht, Pool.logged_init ht hl⟩

theorem step_good [S.Lawful] {a : Action S Req} (hs : C.Good s) (h : s.step handle a = some s') : C.Good s' :=
  ⟨step_ok hs.ok h, Pool.step_logged hs.logged h⟩

theorem run_good [S.Lawful] {as : List (Action S Req)} (hs : C.Good s) (h : s.run handle as = some s') :
    C.Good s' :=
  ⟨run_ok hs.ok h, Pool.run_induct hs.logged (fun _ _ _ h1 h2 => Pool.step_logged h1 h2) h⟩

/-- **What a move of the system commits**: nothing, a write by hand, or writes
the contract allows a request, at a database where their keys are new. -/
theorem step_cases [S.Lawful] {a : Action S Req} (hs : C.Good s) (h : s.step handle a = some s') :
    (s'.db = s.db ∧ s'.log = s.log ∧ s'.history = s.history) ∨
    (∃ w, S.external w = true ∧ s'.db = S.apply w s.db ∧ s'.log = s.log ++ [(none, w)] ∧
      s'.history = s.history ++ [(none, w)] ∧ s'.tasks = s.tasks) ∨
    (∃ r t t' ws, s.tasks[r]? = some t ∧ C.guar t.req t.done s.db ws ∧ S.Fresh ws s.db ∧
      s'.db = S.applyAll ws s.db ∧ s'.log = s.log ++ ws.map (some r, ·) ∧
      s'.history = s.history ++ ws.map (some t.req, ·) ∧
      s'.tasks = s.tasks.set r t' ∧ t'.req = t.req ∧ t'.done = t.done ++ ws) := by
  rcases Pool.step_history hs.logged h with ⟨req, -, rfl, hh⟩ | ⟨w, -, hx, rfl, hh⟩ | ⟨r, c, t, t', ws, -, ht, hm, rfl, -, hh⟩
  · exact .inl ⟨rfl, rfl, hh⟩
  · exact .inr (.inl ⟨w, hx, rfl, rfl, hh, rfl⟩)
  · have hmv := move_ok hs.ok ht hm
    rcases hmv.guar with rfl | ⟨hg, hf⟩
    · exact .inl ⟨rfl, by simp [Pool.moved], by simpa using hh⟩
    · exact .inr (.inr ⟨r, t, t', ws, ht, hg, hf, rfl, rfl, hh, rfl, hmv.req, hmv.done⟩)

/-- What an answer means. -/
theorem post_of_answered (hs : C.Good s) {r : ℕ} {t : Task S Req Out} {a : Out} (ht : s.tasks[r]? = some t)
    (ha : t.answered = some a) : C.post t.req a t.done s.db := by
  obtain ⟨hg, hp⟩ := Task.answered_eq.mp ha
  have hm := hs.ok.meets r t ht hg
  rw [Meets, hp, Prog.wp_ret] at hm
  exact hm

/-- Every move is within `rely`. -/
theorem step_rely [S.Lawful] {a : Action S Req} (hs : C.Good s) (h : s.step handle a = some s') :
    C.rely s.db s'.db := by
  rcases step_cases hs h with ⟨hd, -⟩ | ⟨w, hx, hd, -⟩ | ⟨r, t, t', ws, ht, hg, hf, hd, -⟩
  · rw [hd]; exact C.rely_refl _
  · rw [hd]; exact (C.outside_ok hx hs.ok.inv).1
  · rw [hd]; exact (C.commit_ok hs.ok.inv hf hg).1

/-- And so is every run. -/
theorem run_rely [S.Lawful] {as : List (Action S Req)} (hs : C.Good s) (h : s.run handle as = some s') :
    C.rely s.db s'.db := by
  have key : ∀ {s₁}, s.run handle as = some s₁ → C.Good s₁ ∧ C.rely s.db s₁.db :=
    Pool.run_induct (P := fun s₁ => C.Good s₁ ∧ C.rely s.db s₁.db) ⟨hs, C.rely_refl _⟩
      fun s₁ a s₂ ⟨hg, hr⟩ hst => ⟨step_good hg hst, C.rely_trans hr (step_rely hg hst)⟩
  exact (key h).2

end Contract
end Txn

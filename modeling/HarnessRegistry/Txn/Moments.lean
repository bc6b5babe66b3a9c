/-
# The moments of a program

A program in a pool sees the database only when it moves. A `Moment` is one
move of a program: the database it met, how the move was to go, the error that it
came back with, and what it committed. `Prog.Over` says that a program comes to
what is left of it over a list of moments, and nothing but these: between two of
them the database has changed as `rely` says, at each of them it satisfies `inv`,
and whatever the program commits is what `guar` allows. A task has come to where
it stands over the moments that the run has given it (`Contract.over_run`), so what
an answer says of the database can be read off the program, move by move. These
are all that it has committed (`Pool.done_run`), and each of its writes bears the
mark of one of them (`Prog.Over.marked`).

Key definitions: `Moment`, `Task.moment`, `Prog.Over`, `Pool.moments`.
Key theorems: `Prog.Over.rely`, `Prog.Over.marked`, `Pool.done_run`, `Contract.over_run`.
-/
import HarnessRegistry.Txn.History

namespace Txn

variable {S : Server} {Req Out α : Type}

/-- One move of a program: the database, how the move was to go, the error that the
program was handed, and the writes that it committed. -/
structure Moment (S : Server) where
  db : S.Db
  choice : Choice S
  refusal : Option S.Err
  writes : List S.Write

/-- What the world supplies to a move that is carried out. -/
def Choice.env? : Choice S → Option S.Env
  | .go env => some env
  | _ => none

/-- The error that a move hands to the program. -/
def Task.refusal (t : Task S Req Out) (db : S.Db) : Choice S → Option S.Err
  | .drop => none
  | .fail => some S.fault
  | .go env => match t.prog, t.tx with
    | .stmt q _, none => match S.exec env q db with
      | .error e => some e
      | .ok _ => none
    | .stmt q _, some x => match S.exec (S.inTx x.start env) q (S.applyAll x.writes db) with
      | .error e => some e
      | .ok _ => none
    | _, _ => none

def Task.moment (t : Task S Req Out) (db : S.Db) (c : Choice S) : Moment S :=
  ⟨db, c, t.refusal db c, (t.move db c).elim [] Prod.snd⟩

namespace Prog

/-- Over these moments, `p'` is what is left of the program. The other arguments
are those of `Wp`: the open transaction, the writes committed so far, and the
database as last seen. -/
inductive Over (R : Rule S) : Prog S α → Option (Tx S) → List S.Write → S.Db → List (Moment S) → Prog S α → Prop
  | rest {p : Prog S α} {tx : Option (Tx S)} {done : List S.Write} {db : S.Db} : Over R p tx done db [] p
  | asked {q : S.Ask} {k : S.Ans q → Prog S α} {tx : Option (Tx S)} {done : List S.Write} {db db' : S.Db} {env : S.Env}
      {ms : List (Moment S)} {p' : Prog S α} : R.rely db db' → R.inv db' →
      Over R (k (S.answer env q)) tx done db' ms p' → Over R (.ask q k) tx done db (⟨db', .go env, none, []⟩ :: ms) p'
  | begun {k : Except S.Err Unit → Prog S α} {tx : Option (Tx S)} {done : List S.Write} {db db' : S.Db} {env : S.Env}
      {ms : List (Moment S)} {p' : Prog S α} : R.rely db db' → R.inv db' →
      Over R (k (.ok ())) (some ⟨env, []⟩) done db' ms p' →
      Over R (.begin k) tx done db (⟨db', .go env, none, []⟩ :: ms) p'
  | unbegun {k : Except S.Err Unit → Prog S α} {tx : Option (Tx S)} {done : List S.Write} {db db' : S.Db}
      {ms : List (Moment S)} {p' : Prog S α} : R.rely db db' → R.inv db' →
      Over R (k (.error S.fault)) tx done db' ms p' →
      Over R (.begin k) tx done db (⟨db', .fail, some S.fault, []⟩ :: ms) p'
  | closed {k : Except S.Err Unit → Prog S α} {done : List S.Write} {db db' : S.Db} {env : S.Env}
      {ms : List (Moment S)} {p' : Prog S α} : R.rely db db' → R.inv db' →
      Over R (k (.ok ())) none done db' ms p' → Over R (.commit k) none done db (⟨db', .go env, none, []⟩ :: ms) p'
  | committed {k : Except S.Err Unit → Prog S α} {x : Tx S} {done : List S.Write} {db db' : S.Db} {env : S.Env}
      {ms : List (Moment S)} {p' : Prog S α} : R.rely db db' → R.inv db' → S.Fresh x.writes db' →
      (x.writes = [] ∨ R.guar done db' x.writes) →
      Over R (k (.ok ())) none (done ++ x.writes) (S.applyAll x.writes db') ms p' →
      Over R (.commit k) (some x) done db (⟨db', .go env, none, x.writes⟩ :: ms) p'
  | uncommitted {k : Except S.Err Unit → Prog S α} {tx : Option (Tx S)} {done : List S.Write} {db db' : S.Db}
      {ms : List (Moment S)} {p' : Prog S α} : R.rely db db' → R.inv db' →
      Over R (k (.error S.fault)) none done db' ms p' →
      Over R (.commit k) tx done db (⟨db', .fail, some S.fault, []⟩ :: ms) p'
  | ran {q : S.Stmt} {k : Except S.Err (S.Res q) → Prog S α} {done ws : List S.Write} {db db' : S.Db} {env : S.Env}
      {r : S.Res q} {ms : List (Moment S)} {p' : Prog S α} : R.rely db db' → R.inv db' → S.exec env q db' = .ok (r, ws) →
      (ws = [] ∨ R.guar done db' ws) → Over R (k (.ok r)) none (done ++ ws) (S.applyAll ws db') ms p' →
      Over R (.stmt q k) none done db (⟨db', .go env, none, ws⟩ :: ms) p'
  | ranTx {q : S.Stmt} {k : Except S.Err (S.Res q) → Prog S α} {x : Tx S} {done ws : List S.Write} {db db' : S.Db}
      {env : S.Env} {r : S.Res q} {ms : List (Moment S)} {p' : Prog S α} : R.rely db db' → R.inv db' →
      S.exec (S.inTx x.start env) q (S.applyAll x.writes db') = .ok (r, ws) →
      Over R (k (.ok r)) (some ⟨x.start, x.writes ++ ws⟩) done db' ms p' →
      Over R (.stmt q k) (some x) done db (⟨db', .go env, none, []⟩ :: ms) p'
  | refused {q : S.Stmt} {k : Except S.Err (S.Res q) → Prog S α} {done : List S.Write} {db db' : S.Db} {env : S.Env}
      {e : S.Err} {ms : List (Moment S)} {p' : Prog S α} : R.rely db db' → R.inv db' → S.exec env q db' = .error e →
      Over R (k (.error e)) none done db' ms p' →
      Over R (.stmt q k) none done db (⟨db', .go env, some e, []⟩ :: ms) p'
  | refusedTx {q : S.Stmt} {k : Except S.Err (S.Res q) → Prog S α} {x : Tx S} {done : List S.Write} {db db' : S.Db}
      {env : S.Env} {e : S.Err} {ms : List (Moment S)} {p' : Prog S α} : R.rely db db' → R.inv db' →
      S.exec (S.inTx x.start env) q (S.applyAll x.writes db') = .error e →
      Over R (k (.error e)) none done db' ms p' →
      Over R (.stmt q k) (some x) done db (⟨db', .go env, some e, []⟩ :: ms) p'
  | failed {q : S.Stmt} {k : Except S.Err (S.Res q) → Prog S α} {tx : Option (Tx S)} {done : List S.Write} {db db' : S.Db}
      {ms : List (Moment S)} {p' : Prog S α} : R.rely db db' → R.inv db' →
      Over R (k (.error S.fault)) none done db' ms p' →
      Over R (.stmt q k) tx done db (⟨db', .fail, some S.fault, []⟩ :: ms) p'

variable {R : Rule S} {p p' : Prog S α} {tx : Option (Tx S)} {done : List S.Write} {db db' : S.Db} {ms : List (Moment S)}

/-- A program that has returned makes no move more, whatever was open. -/
theorem Over.settle (h : p.Over R (Task.settle p tx) done db ms p') : p.Over R tx done db ms p' := by
  cases p with
  | ret b =>
    cases h
    exact .rest
  | _ => exact h

/-- The moves of the others come before the first moment. -/
theorem Over.rely (trans : ∀ {a b c}, R.rely a b → R.rely b c → R.rely a c) (hr : R.rely db db')
    (h : p.Over R tx done db' ms p') : p.Over R tx done db ms p' := by
  cases h with
  | rest => exact .rest
  | asked h' hi hk => exact .asked (trans hr h') hi hk
  | begun h' hi hk => exact .begun (trans hr h') hi hk
  | unbegun h' hi hk => exact .unbegun (trans hr h') hi hk
  | closed h' hi hk => exact .closed (trans hr h') hi hk
  | committed h' hi hf hg hk => exact .committed (trans hr h') hi hf hg hk
  | uncommitted h' hi hk => exact .uncommitted (trans hr h') hi hk
  | ran h' hi hx hg hk => exact .ran (trans hr h') hi hx hg hk
  | ranTx h' hi hx hk => exact .ranTx (trans hr h') hi hx hk
  | refused h' hi hx hk => exact .refused (trans hr h') hi hx hk
  | refusedTx h' hi hx hk => exact .refusedTx (trans hr h') hi hx hk
  | failed h' hi hk => exact .failed (trans hr h') hi hk

/-- **A write bears the mark of one of the moments**, if statements mark their writes:
that at which its statement ran, or its transaction began. -/
theorem Over.marked (Mark : S.Env → S.Write → Prop)
    (hx : ∀ env q db r ws, S.exec env q db = .ok (r, ws) → ∀ w ∈ ws, Mark env w)
    (htx : ∀ start env w, Mark (S.inTx start env) w → Mark start w ∨ Mark env w) (h : p.Over R tx done db ms p') :
    ∀ m ∈ ms, ∀ w ∈ m.writes, (∃ m' ∈ ms, ∃ env, m'.choice = .go env ∧ Mark env w) ∨
      ∃ x, tx = some x ∧ (w ∈ x.writes ∨ Mark x.start w) := by
  -- what a later moment, or one of the rest, is the reason for
  have later : ∀ {m₀ : Moment S} {ms : List (Moment S)} {w : S.Write},
      (∃ m' ∈ ms, ∃ env, m'.choice = .go env ∧ Mark env w) → ∃ m' ∈ m₀ :: ms, ∃ env, m'.choice = .go env ∧ Mark env w := by
    intro m₀ ms w h
    obtain ⟨m', hm', h⟩ := h
    exact ⟨m', List.mem_cons_of_mem _ hm', h⟩
  have mine : ∀ {db : S.Db} {env : S.Env} {ws : List S.Write} {ms : List (Moment S)} {w : S.Write}, Mark env w →
      ∃ m' ∈ (⟨db, .go env, none, ws⟩ : Moment S) :: ms, ∃ env, m'.choice = .go env ∧ Mark env w := by
    intro db env ws ms w h
    exact ⟨_, List.mem_cons_self, env, rfl, h⟩
  induction h with
  | rest => exact fun m hm => by cases hm
  | asked _ _ _ ih | unbegun _ _ _ ih =>
    intro m hm w hw
    rcases List.mem_cons.mp hm with rfl | hm
    · cases hw
    · exact (ih m hm w hw).imp_left later
  | begun _ _ _ ih =>
    intro m hm w hw
    rcases List.mem_cons.mp hm with rfl | hm
    · cases hw
    · rcases ih m hm w hw with h | ⟨x, hx, hw | hmark⟩
      · exact .inl (later h)
      · cases hx
        cases hw
      · cases hx
        exact .inl (mine hmark)
  | closed _ _ _ ih | uncommitted _ _ _ ih | refused _ _ _ _ ih | refusedTx _ _ _ _ ih | failed _ _ _ ih =>
    intro m hm w hw
    rcases List.mem_cons.mp hm with rfl | hm
    · cases hw
    · rcases ih m hm w hw with h | ⟨x, hx, -⟩
      · exact .inl (later h)
      · cases hx
  | @committed k x _ _ _ _ _ _ _ _ _ _ _ ih =>
    intro m hm w hw
    rcases List.mem_cons.mp hm with rfl | hm
    · exact .inr ⟨x, rfl, .inl hw⟩
    · rcases ih m hm w hw with h | ⟨x, hx, -⟩
      · exact .inl (later h)
      · cases hx
  | ran _ _ hex _ _ ih =>
    intro m hm w hw
    rcases List.mem_cons.mp hm with rfl | hm
    · exact .inl (mine (hx _ _ _ _ _ hex w hw))
    · rcases ih m hm w hw with h | ⟨x, hx, -⟩
      · exact .inl (later h)
      · cases hx
  | @ranTx q k x _ ws _ _ env r _ _ _ _ hex _ ih =>
    intro m hm w hw
    rcases List.mem_cons.mp hm with rfl | hm
    · cases hw
    · rcases ih m hm w hw with h | ⟨y, hy, hw | hmark⟩
      · exact .inl (later h)
      · cases hy
        rcases List.mem_append.mp hw with hw | hw
        · exact .inr ⟨x, rfl, .inl hw⟩
        · rcases htx _ _ _ (hx _ _ _ _ _ hex w hw) with hmark | hmark
          · exact .inr ⟨x, rfl, .inr hmark⟩
          · exact .inl (mine hmark)
      · cases hy
        exact .inr ⟨x, rfl, .inr hmark⟩

end Prog

namespace Pool

variable (handle : Req → Prog S Out)

/-- The moments of task `r` along a run. -/
def moments (r : ℕ) : Pool S Req Out → List (Action S Req) → List (Moment S)
  | _, [] => []
  | s, .task i c :: as =>
      (if i = r then (s.tasks[i]?).elim [] fun t => [t.moment s.db c] else []) ++
        ((s.step handle (.task i c)).elim [] fun s' => s'.moments r as)
  | s, .arrive req :: as => (s.step handle (.arrive req)).elim [] fun s' => s'.moments r as
  | s, .outside w :: as => (s.step handle (.outside w)).elim [] fun s' => s'.moments r as

variable {handle} {s s' : Pool S Req Out} {r : ℕ} {t t' : Task S Req Out}

theorem moments_task {c : Choice S} (h : s.step handle (.task r c) = some s') (ht : s.tasks[r]? = some t)
    (as : List (Action S Req)) : s.moments handle r (.task r c :: as) = t.moment s.db c :: s'.moments handle r as := by
  simp only [moments, ↓reduceIte, ht, h, Option.elim_some, List.cons_append, List.nil_append]

theorem moments_other {a : Action S Req} (h : s.step handle a = some s') (ha : ∀ c, a ≠ .task r c)
    (as : List (Action S Req)) : s.moments handle r (a :: as) = s'.moments handle r as := by
  cases a with
  | task i c =>
    have hi : i ≠ r := fun hi => ha c (by rw [hi])
    simp only [moments, hi, ↓reduceIte, h, Option.elim_some, List.nil_append]
  | arrive req => simp only [moments, h, Option.elim_some]
  | outside w => simp only [moments, h, Option.elim_some]

/-- Others leave the task where it is. -/
theorem task_stays {a : Action S Req} (h : s.step handle a = some s') (ht : s.tasks[r]? = some t) (ha : ∀ c, a ≠ .task r c) :
    s'.tasks[r]? = some t := by
  rcases step_cases h with ⟨req, -, rfl⟩ | ⟨w, -, -, -, rfl⟩ | ⟨i, c, u, u', ws, rfl, hu, -, -, rfl⟩
  · rw [arrived, List.getElem?_append_left (List.getElem?_eq_some_iff.mp ht).1]
    exact ht
  · exact ht
  · have hir : r ≠ i := fun hir => ha c (by rw [hir])
    exact (task_moved_of_ne hir).trans ht

/-- The moments of a run with more moves. -/
theorem moments_append : ∀ {as : List (Action S Req)} {s : Pool S Req Out}, s.run handle as = some s' →
    ∀ bs, s.moments handle r (as ++ bs) = s.moments handle r as ++ s'.moments handle r bs
  | [], _, h, bs => by
    cases h
    rfl
  | a :: as, s, h, bs => by
    obtain ⟨s₁, h₁, h₂⟩ := Option.bind_eq_some_iff.mp h
    have ih := moments_append h₂ bs
    by_cases ha : ∃ c, a = .task r c
    · obtain ⟨c, rfl⟩ := ha
      obtain ⟨t, ht, -⟩ := exists_of_step h₁
      rw [List.cons_append, moments_task h₁ ht, moments_task h₁ ht, ih, List.cons_append]
    · have hne : ∀ c, a ≠ .task r c := fun c hc => ha ⟨c, hc⟩
      rw [List.cons_append, moments_other h₁ hne, moments_other h₁ hne, ih]

/-- With one more move of the task. -/
theorem moments_snoc {as : List (Action S Req)} {c : Choice S} (h : s.run handle as = some s') (ht : s'.tasks[r]? = some t) :
    s.moments handle r (as ++ [.task r c]) = s.moments handle r as ++ [t.moment s'.db c] := by
  rw [moments_append h]
  cases hst : s'.step handle (.task r c) with
  | none => simp only [moments, ↓reduceIte, ht, hst, Option.elim_some, Option.elim_none, List.append_nil]
  | some s'' => rw [moments_task hst ht, moments]

/-- With one that is not the task's. -/
theorem moments_snoc_other {as : List (Action S Req)} {a : Action S Req} {s'' : Pool S Req Out} (h : s.run handle as = some s')
    (hst : s'.step handle a = some s'') (ha : ∀ c, a ≠ .task r c) :
    s.moments handle r (as ++ [a]) = s.moments handle r as := by
  rw [moments_append h, moments_other hst ha, moments, List.append_nil]

/-- A task has no moments before it is there. -/
theorem moments_none {as : List (Action S Req)} (h : s.run handle as = some s') (hr : s'.tasks.length ≤ r) :
    s.moments handle r as = [] := by
  induction as using List.reverseRecOn generalizing s' with
  | nil => rfl
  | append_singleton as a ih =>
    obtain ⟨s₁, h₁, h₂⟩ := run_snoc.mp h
    have hlen : s₁.tasks.length ≤ r := by
      by_contra hlt
      obtain ⟨t', ht', -⟩ := tasks_step h₂ (List.getElem?_eq_getElem (Nat.lt_of_not_le hlt))
      have := (List.getElem?_eq_some_iff.mp ht').1
      omega
    rw [moments_snoc_other h₁ h₂ fun c hc => ?_, ih h₁ hlen]
    rcases step_cases h₂ with ⟨_, ha, -⟩ | ⟨_, ha, -⟩ | ⟨i, c', t, t', ws, ha, ht, -⟩
    · cases ha.symm.trans hc
    · cases ha.symm.trans hc
    · cases ha.symm.trans hc
      have := (List.getElem?_eq_some_iff.mp ht).1
      omega

end Pool

namespace Contract

variable {handle : Req → Prog S Out} {C : Contract S handle} {s s' : Pool S Req Out} {r : ℕ} {t t' : Task S Req Out}

/-- A move of the task is its program's, at the moment of the move. -/
theorem over_move [S.Lawful] (hs : C.Good s) (ht : s.tasks[r]? = some t) {c : Choice S} {ws : List S.Write}
    (hm : t.move s.db c = some (t', ws)) (hg : t'.gone = false) {ms : List (Moment S)} {p' : Prog S Out}
    (ih : t'.prog.Over (C.rule t.req) t'.tx t'.done (S.applyAll ws s.db) ms p') :
    t.prog.Over (C.rule t.req) t.tx t.done s.db (t.moment s.db c :: ms) p' := by
  have hr : (C.rule t.req).rely s.db s.db := C.rely_refl s.db
  have hi : (C.rule t.req).inv s.db := hs.ok.inv
  have hmv := Contract.move_ok hs.ok ht hm
  have hgu : ws = [] ∨ (C.rule t.req).guar t.done s.db ws := hmv.guar.imp_right fun h => h.1
  have hmoment : t.moment s.db c = ⟨s.db, c, t.refusal s.db c, ws⟩ := by
    rw [Task.moment, hm, Option.elim_some]
  rw [hmoment]
  obtain ⟨-, h⟩ := Task.goes_of_move hm
  -- nothing committed, nothing added
  have quiet : ∀ {p : Prog S Out} {tx : Option (Tx S)}, (t.next p tx []).prog.Over (C.rule t.req) (t.next p tx []).tx
      (t.next p tx []).done (S.applyAll [] s.db) ms p' → p.Over (C.rule t.req) tx t.done s.db ms p' := by
    intro p tx h
    have h := Prog.Over.settle (p := p) h
    rwa [Task.next, List.append_nil] at h
  cases h with
  | left | crashed => cases hg
  | asked hp =>
    simp only [Task.refusal, hp]
    exact .asked hr hi (quiet ih)
  | begun hp =>
    simp only [Task.refusal, hp]
    exact .begun hr hi (quiet ih)
  | unbegun hp =>
    rw [hp]
    exact .unbegun hr hi (quiet ih)
  | closed hp htx =>
    simp only [Task.refusal, hp, htx]
    exact .closed hr hi (quiet ih)
  | @committed env k x hp htx =>
    have hf : S.Fresh x.writes s.db := by
      have := (hs.ok.fresh r t ht).1
      rwa [Task.pending, htx] at this
    simp only [Task.refusal, hp, htx]
    exact .committed hr hi hf hgu (Prog.Over.settle ih)
  | uncommitted hp =>
    rw [hp]
    exact .uncommitted hr hi (quiet ih)
  | ran hp htx hx =>
    simp only [Task.refusal, hp, htx, hx]
    exact .ran hr hi hx hgu (Prog.Over.settle ih)
  | ranTx hp htx hx =>
    simp only [Task.refusal, hp, htx, hx]
    exact .ranTx hr hi hx (quiet ih)
  | refused hp htx hx =>
    simp only [Task.refusal, hp, htx, hx]
    exact .refused hr hi hx (quiet ih)
  | refusedTx hp htx hx =>
    simp only [Task.refusal, hp, htx, hx]
    exact .refusedTx hr hi hx (quiet ih)
  | failed hp =>
    rw [hp]
    exact .failed hr hi (quiet ih)

/-- **A task has come to where it stands over its moments.** -/
theorem over_run [S.Lawful] : ∀ {as : List (Action S Req)} {s : Pool S Req Out} {t : Task S Req Out}, C.Good s →
    s.tasks[r]? = some t → s.run handle as = some s' → s'.tasks[r]? = some t' → t'.gone = false →
    t.prog.Over (C.rule t.req) t.tx t.done s.db (s.moments handle r as) t'.prog
  | [], s, t, _, ht, h, ht', _ => by
    cases h
    obtain rfl := Option.some.inj (ht.symm.trans ht')
    exact .rest
  | act :: as, s, t, hs, ht, h, ht', hg => by
    obtain ⟨s₁, h₁, h₂⟩ := Option.bind_eq_some_iff.mp h
    have hs₁ := step_good hs h₁
    by_cases hact : ∃ c, act = .task r c
    · obtain ⟨c, rfl⟩ := hact
      obtain ⟨t₁, ws, hm, hs', ht₁⟩ := Pool.task_step h₁ ht
      have ih := over_run hs₁ ht₁ h₂ ht' hg
      -- who is gone stays so
      have hg₁ : t₁.gone = false := by
        by_contra hg₁
        have hg₁ : t₁.gone = true := by simpa using hg₁
        have hsame := Pool.still_run (Task.move_of_gone hg₁) h₂ ht₁
        obtain rfl := Option.some.inj (ht'.symm.trans hsame)
        rw [hg] at hg₁
        cases hg₁
      rw [(move_eq hm).1, hs'] at ih
      rw [Pool.moments_task h₁ ht, hs']
      exact over_move hs ht hm hg₁ ih
    · have hne : ∀ c, act ≠ .task r c := fun c hc => hact ⟨c, hc⟩
      have ht₁ := Pool.task_stays h₁ ht hne
      rw [Pool.moments_other h₁ hne]
      exact (over_run hs₁ ht₁ h₂ ht' hg).rely (R := C.rule t.req) C.rely_trans (step_rely hs h₁)

/-- What holds of the moments of a run, and what comes after them. -/
theorem moments_met [S.Lawful] : ∀ {as : List (Action S Req)} {s : Pool S Req Out}, C.Good s → s.run handle as = some s' →
    ∀ m ∈ s.moments handle r as, C.inv m.db ∧ C.rely m.db s'.db
  | [], _, _, _, _, hm => by cases hm
  | a :: as, s, hs, h, m, hm => by
    obtain ⟨s₁, h₁, h₂⟩ := Option.bind_eq_some_iff.mp h
    have hs₁ := step_good hs h₁
    by_cases ha : ∃ c, a = .task r c
    · obtain ⟨c, rfl⟩ := ha
      obtain ⟨t, ht, -⟩ := Pool.exists_of_step h₁
      rw [Pool.moments_task h₁ ht] at hm
      rcases List.mem_cons.mp hm with rfl | hm
      · exact ⟨hs.ok.inv, run_rely hs h⟩
      · exact moments_met hs₁ h₂ m hm
    · rw [Pool.moments_other h₁ fun c hc => ha ⟨c, hc⟩] at hm
      exact moments_met hs₁ h₂ m hm

end Contract
end Txn

/-
# One program among others

Four ways to look at a single program in a pool. `Contract.follow`: while the
others stay within a stronger `rely`, a program keeps a specification proved
under it. `Prog.Every`: a property of a program and of everything it may go on
to be holds of every task in a run. `Prog.alone`: what a program returns when
nothing fails and nobody else moves. `Prog.served`: the same with every move going
as chosen, which is what a run in which only it moves comes to
(`Pool.run_served`).

Key definitions: `Prog.Every`, `Prog.alone`, `Prog.served`.
Key theorems: `Contract.follow`, `Contract.follow_arrival`, `Pool.run_every`,
`Prog.served_cons`, `Pool.run_served`.
-/
import HarnessRegistry.Txn.History

namespace Txn

variable {S : Server} {Req Out α β : Type}

/-! ### Under a stronger rely -/

/-- A task keeps a specification while the moves of the others respect its
`rely`. -/
theorem Contract.follow [S.Lawful] {handle : Req → Prog S Out} {C : Contract S handle} {R : Rule S}
    {Q : Out → List S.Write → S.Db → Prop} {s s' : Pool S Req Out} {as : List (Action S Req)} {r : ℕ}
    {t : Task S Req Out} (hs : C.Good s) (refl : ∀ db, R.rely db db)
    (trans : ∀ {a b c}, R.rely a b → R.rely b c → R.rely a c) (inv : ∀ {db}, C.inv db → R.inv db)
    (stable : ∀ a done db db', Q a done db → R.rely db db' → R.inv db' → Q a done db')
    (ht : s.tasks[r]? = some t)
    (hwp : t.gone = false → t.prog.Wp R t.tx t.done s.db fun a _ done db => Q a done db)
    (h : s.run handle as = some s')
    (others : ∀ as₁ a s₁ s₂, Pool.Moves handle s as as₁ a s₁ s₂ → (∀ c, a ≠ .task r c) → R.rely s₁.db s₂.db) :
    ∃ t', s'.tasks[r]? = some t' ∧
      (t'.gone = false → t'.prog.Wp R t'.tx t'.done s'.db fun a _ done db => Q a done db) := by
  induction as using List.reverseRecOn generalizing s' with
  | nil => cases h; exact ⟨t, ht, hwp⟩
  | append_singleton as a ih =>
    obtain ⟨s₁, h₁, h₂⟩ := Pool.run_snoc.mp h
    obtain ⟨t₁, ht₁, hwp₁⟩ := ih h₁ fun as₁ b u v hm => others as₁ b u v (hm.mono ⟨[a], rfl⟩)
    have hg₁ := run_good hs h₁
    have hlt : r < s₁.tasks.length := (List.getElem?_eq_some_iff.mp ht₁).1
    by_cases ha : ∃ c, a = .task r c
    · -- its own move
      obtain ⟨c, rfl⟩ := ha
      obtain ⟨u', ws, hm, rfl, hu'⟩ := Pool.task_step h₂ ht₁
      obtain ⟨hfr, hnf⟩ := hg₁.ok.fresh r t₁ ht₁
      exact ⟨u', hu', (move_wp (refl _) (inv hg₁.ok.inv) hfr hnf hwp₁ hm).meets⟩
    · -- a move of the others
      have hr := others as a s₁ s' ⟨⟨[], rfl⟩, h₁, h₂⟩ fun c hc => ha ⟨c, hc⟩
      have hsame : s'.tasks[r]? = some t₁ := by
        rcases Pool.step_cases h₂ with ⟨_, -, rfl⟩ | ⟨_, -, -, -, rfl⟩ | ⟨i, c', u, u', ws, he, hu, hm, -, rfl⟩
        · rw [Pool.arrived, List.getElem?_append_left hlt]; exact ht₁
        · exact ht₁
        · have hir : i ≠ r := fun hir => ha ⟨c', hir ▸ he⟩
          exact (Pool.task_moved_of_ne (Ne.symm hir)).trans ht₁
      refine ⟨t₁, hsame, fun hg => ?_⟩
      exact Prog.wp_stable (Q := fun a _ done db => Q a done db) trans
        (fun a _ done db db' => stable a done db db') _ _ _ _ _ (hwp₁ hg) hr
        (inv (run_good hs h).ok.inv)

/-- The same for a request that arrives in the run, from its arrival on. -/
theorem Contract.follow_arrival [S.Lawful] {handle : Req → Prog S Out} {C : Contract S handle} {R : Rule S}
    {Q : Out → List S.Write → S.Db → Prop} {s s' : Pool S Req Out} {as : List (Action S Req)} {r : ℕ}
    {t : Task S Req Out} (hs : C.Good s) (refl : ∀ db, R.rely db db)
    (trans : ∀ {a b c}, R.rely a b → R.rely b c → R.rely a c) (inv : ∀ {db}, C.inv db → R.inv db)
    (stable : ∀ a done db db', Q a done db → R.rely db db' → R.inv db' → Q a done db')
    (hr : s.tasks.length ≤ r) (h : s.run handle as = some s') (ht : s'.tasks[r]? = some t)
    (hwp : ∀ bs u, s.run handle bs = some u →
      (handle t.req).Wp R none [] u.db fun a _ done db => Q a done db)
    (others : ∀ as₁ a s₁ s₂, Pool.Moves handle s as as₁ a s₁ s₂ → r < s₁.tasks.length → (∀ c, a ≠ .task r c) →
      R.rely s₁.db s₂.db) (hgone : t.gone = false) :
    t.prog.Wp R t.tx t.done s'.db fun a _ done db => Q a done db := by
  obtain ⟨bs, cs, u, rfl, hu, hlen, hcs⟩ := Pool.arrival hr h ht
  have harr : u.step handle (.arrive t.req) = some (u.arrived handle t.req) := rfl
  have hga := step_good (run_good hs hu) harr
  have hta : (u.arrived handle t.req).tasks[r]? = some ⟨t.req, handle t.req, none, [], false⟩ := by
    rw [← hlen]
    exact Pool.arrived_task handle u t.req
  have hrun : s.run handle (bs ++ [.arrive t.req]) = some (u.arrived handle t.req) := Pool.run_snoc.mpr ⟨u, hu, harr⟩
  obtain ⟨t', ht', hw⟩ := follow (R := R) (Q := Q) hga refl trans inv stable hta (fun _ => hwp bs u hu) hcs
    fun as₁ a s₁ s₂ hm hne => by
      have hmv := hm.append hrun
      rw [List.append_assoc, List.append_assoc] at hmv
      obtain ⟨t₁, ht₁, -⟩ := Pool.tasks_run hm.before hta
      exact others _ _ _ _ hmv (List.getElem?_eq_some_iff.mp ht₁).1 hne
  obtain rfl := Option.some.inj (ht.symm.trans ht')
  exact hw hgone

/-! ### All that a program may become -/

namespace Prog

/-- The program, and everything it may go on to be, satisfies `P`. -/
def Every (P : Prog S α → Prop) : Prog S α → Prop
  | .ret a => P (.ret a)
  | .crash => P .crash
  | .stmt q k => P (.stmt q k) ∧ ∀ r, (k r).Every P
  | .begin k => P (.begin k) ∧ ∀ r, (k r).Every P
  | .commit k => P (.commit k) ∧ ∀ r, (k r).Every P
  | .ask q k => P (.ask q k) ∧ ∀ r, (k r).Every P

theorem Every.self {P : Prog S α → Prop} {p : Prog S α} (h : p.Every P) : P p := by
  cases p with
  | ret a | crash => exact h
  | stmt q k | begin k | commit k | ask q k => exact h.1

theorem every_of_forall {P : Prog S α → Prop} (h : ∀ p, P p) : ∀ p : Prog S α, p.Every P := by
  intro p
  induction p with
  | ret a | crash => exact h _
  | stmt q k ih | begin k ih | commit k ih | ask q k ih => exact ⟨h _, ih⟩

end Prog

namespace Pool

theorem move_every {P : Prog S Out → Prop} {t t' : Task S Req Out} {db : S.Db} {c : Choice S}
    {ws : List S.Write} (h : t.prog.Every P) (hm : t.move db c = some (t', ws)) : t'.prog.Every P := by
  obtain ⟨-, hgoes⟩ := Task.goes_of_move hm
  cases hgoes with
  | left | crashed => exact h
  | asked hp | begun hp | unbegun hp | closed hp | committed hp | uncommitted hp | ran hp | ranTx hp | refused hp
  | refusedTx hp | failed hp =>
    rw [hp] at h
    exact h.2 _

/-- What is true of every request's program, whatever it may go on to be, is
true of every task of a run. -/
theorem run_every {handle : Req → Prog S Out} {P : Req → Prog S Out → Prop}
    (hP : ∀ req, (handle req).Every (P req)) {s s' : Pool S Req Out} (hs : s.tasks = [])
    {as : List (Action S Req)} (h : s.run handle as = some s') {r : ℕ} {t : Task S Req Out}
    (ht : s'.tasks[r]? = some t) : P t.req t.prog := by
  refine (run_induct (P := fun s => ∀ t ∈ s.tasks, t.prog.Every (P t.req)) (by simp [hs]) ?_ h t
    (List.mem_of_getElem? ht)).self
  intro s₁ a s₂ ih hst t ht
  rcases step_cases hst with ⟨req, -, rfl⟩ | ⟨_, -, -, -, rfl⟩ | ⟨i, c, u, u', ws, -, hu, hm, -, rfl⟩
  · rcases List.mem_append.mp ht with ht | ht
    · exact ih t ht
    · rw [List.mem_singleton.mp ht]
      exact hP req
  · exact ih t ht
  · rcases List.mem_or_eq_of_mem_set ht with ht | rfl
    · exact ih t ht
    · rw [(Contract.move_eq hm).1]
      exact move_every (ih u (List.mem_of_getElem? hu)) hm

end Pool

/-! ### A program on its own -/

/-- What a program returns, and the database it leaves, when it is the only
one to move and nothing fails. Nothing, if it crashes. -/
def Prog.alone (env : S.Env) : Prog S α → Option (Tx S) → S.Db → Option (α × S.Db)
  | .ret a, _, db => some (a, db)
  | .crash, _, _ => none
  | .ask q k, tx, db => (k (S.answer env q)).alone env tx db
  | .begin k, _, db => (k (.ok ())).alone env (some ⟨env, []⟩) db
  | .commit k, none, db => (k (.ok ())).alone env none db
  | .commit k, some x, db => (k (.ok ())).alone env none (S.applyAll x.writes db)
  | .stmt q k, none, db => match S.exec env q db with
    | .error e => (k (.error e)).alone env none db
    | .ok (a, ws) => (k (.ok a)).alone env none (S.applyAll ws db)
  | .stmt q k, some x, db => match S.exec (S.inTx x.start env) q (S.applyAll x.writes db) with
    | .error e => (k (.error e)).alone env none db
    | .ok (a, ws) => (k (.ok a)).alone env (some ⟨x.start, x.writes ++ ws⟩) db

/-! ### A program on its own, with failures -/

namespace Prog

/-- What a program returns, and the database it leaves, when it is the only
one to move and its moves go as `cs` says. Nothing, if it does not return
then. -/
def served : Prog S α → Option (Tx S) → S.Db → List (Choice S) → Option (α × S.Db)
  | .ret a, _, db, [] => some (a, db)
  | .ask q k, tx, db, .go env :: cs => (k (S.answer env q)).served tx db cs
  | .begin k, _, db, .go env :: cs => (k (.ok ())).served (some ⟨env, []⟩) db cs
  | .begin k, tx, db, .fail :: cs => (k (.error S.fault)).served tx db cs
  | .commit k, none, db, .go _ :: cs => (k (.ok ())).served none db cs
  | .commit k, some x, db, .go _ :: cs => (k (.ok ())).served none (S.applyAll x.writes db) cs
  | .commit k, _, db, .fail :: cs => (k (.error S.fault)).served none db cs
  | .stmt q k, none, db, .go env :: cs => match S.exec env q db with
    | .error e => (k (.error e)).served none db cs
    | .ok (a, ws) => (k (.ok a)).served none (S.applyAll ws db) cs
  | .stmt q k, some x, db, .go env :: cs => match S.exec (S.inTx x.start env) q (S.applyAll x.writes db) with
    | .error e => (k (.error e)).served none db cs
    | .ok (a, ws) => (k (.ok a)).served (some ⟨x.start, x.writes ++ ws⟩) db cs
  | .stmt _ k, _, db, .fail :: cs => (k (.error S.fault)).served none db cs
  | _, _, _, _ => none

theorem served_settle (p : Prog S α) (tx : Option (Tx S)) (db : S.Db) (cs : List (Choice S)) :
    p.served (Task.settle p tx) db cs = p.served tx db cs := by
  cases p with
  | ret a => cases cs <;> rfl
  | _ => rfl

/-- One move, and what follows. -/
theorem served_cons {t t' : Task S Req Out} {db : S.Db} {c : Choice S} {ws : List S.Write} (hm : t.move db c = some (t', ws))
    (hg : t'.gone = false) (cs : List (Choice S)) :
    t.prog.served t.tx db (c :: cs) = t'.prog.served t'.tx (S.applyAll ws db) cs := by
  -- where the program goes on, its transaction ended or not
  have next : ∀ (p : Prog S Out) (tx : Option (Tx S)) (vs : List S.Write),
      p.served tx (S.applyAll vs db) cs =
        (t.next p tx vs).prog.served (t.next p tx vs).tx (S.applyAll vs db) cs :=
    fun p tx vs => (served_settle p tx _ cs).symm
  obtain ⟨-, h⟩ := Task.goes_of_move hm
  cases h with
  | left | crashed => cases hg
  | asked hp =>
    rw [hp]
    exact next _ t.tx []
  | begun hp =>
    rw [hp]
    exact next _ (some ⟨_, []⟩) []
  | unbegun hp =>
    rw [hp]
    exact next _ t.tx []
  | closed hp htx =>
    rw [hp, htx]
    exact next _ none []
  | @committed env k x hp htx =>
    rw [hp, htx]
    exact next _ none x.writes
  | uncommitted hp | failed hp =>
    rw [hp]
    cases t.tx <;> exact next _ none []
  | ran hp htx hx =>
    rw [hp, htx]
    simp only [served, hx]
    exact next _ none ws
  | ranTx hp htx hx =>
    rw [hp, htx]
    simp only [served, hx]
    exact next _ (some ⟨_, _⟩) []
  | refused hp htx hx | refusedTx hp htx hx =>
    rw [hp, htx]
    simp only [served, hx]
    exact next _ none []

end Prog

namespace Pool

variable {handle : Req → Prog S Out}

/-- A run in which only task `r` moves serves its program. -/
theorem run_served {r : ℕ} {a : Out} : ∀ (cs : List (Choice S)) {s s' : Pool S Req Out} {t t' : Task S Req Out},
    s.tasks[r]? = some t → s.run handle (cs.map (.task r)) = some s' → s'.tasks[r]? = some t' → t'.answered = some a →
    t.gone = false ∧ t.prog.served t.tx s.db cs = some (a, s'.db)
  | [], s, s', t, t', ht, h, ht', ha => by
    cases h
    obtain rfl := Option.some.inj (ht.symm.trans ht')
    obtain ⟨hg, hp⟩ := Task.answered_eq.mp ha
    rw [hp]
    exact ⟨hg, rfl⟩
  | c :: cs, s, s', t, t', ht, h, ht', ha => by
    obtain ⟨s₁, hst, h⟩ := Option.bind_eq_some_iff.mp h
    obtain ⟨u', ws, hm, rfl, hu'⟩ := task_step hst ht
    obtain ⟨hg, hserved⟩ := run_served cs hu' h ht' ha
    refine ⟨?_, (Prog.served_cons hm hg cs).trans hserved⟩
    have hlive : ¬ t.gone = true := by
      intro hgone
      cases c <;> simp [Task.move, hgone] at hm
    simpa using hlive

end Pool
end Txn

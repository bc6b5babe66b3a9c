/-
# Rows that make no difference

Some rows of a database are erased, and the same programs run over what is left.
If no statement that they may come to can tell (`Erasure.Blind`: it returns the
same on both databases, and writes the same but for writes of erased rows), then
every run over the one is a run over the other, move by move, with the same
answers (`Erasure.Alike.run`): whoever sees only answers, and who has to wait,
cannot tell whether the rows are there.

Locks need some care: a write of an erased row takes one that is not taken where
the row is not. So no transaction may hold such a write while others move.

Key definitions: `Erasure`, `Erasure.Blind`, `Prog.Unaware`, `Erasure.Fit`, `Erasure.Alike`.
Key theorems: `Erasure.Fit.move`, `Erasure.Twin.move`, `Erasure.Alike.step`, `Erasure.Alike.run`.
-/
import HarnessRegistry.Txn.Waits

namespace Txn

variable {S : Server} {Req Out α : Type}

/-- What is left of a database without some rows (`db`), the writes of these
(`hidden`), and what makes them invisible (`inv`). -/
structure Erasure (S : Server) where
  db : S.Db → S.Db
  hidden : S.Write → Bool
  inv : S.Db → Prop
  apply_hidden : ∀ {w d}, hidden w = true → db (S.apply w d) = db d
  apply_seen : ∀ {w d}, hidden w = false → db (S.apply w d) = S.apply w (db d)
  external_hidden : ∀ {w d}, S.external w = true → hidden w = true → S.apply w (db d) = db d
  external_inv : ∀ {w d}, S.external w = true → inv d → inv (S.apply w d)
  locks_apart : ∀ {v w l}, hidden v = true → hidden w = false → l ∈ S.locks v → l ∉ S.locks w

namespace Erasure

variable (E : Erasure S)

/-- The write makes no row visible. -/
def Keeps (w : S.Write) : Prop := ∀ d, E.inv d → E.inv (S.apply w d)

/-- The writes of other rows. -/
def seen (ws : List S.Write) : List S.Write := ws.filter fun w => !E.hidden w

/-- The statement comes to the same without the erased rows, and makes none of
them visible; in a transaction it does not write them. -/
structure Blind (q : S.Stmt) (inTx : Bool) : Prop where
  same : ∀ env d, E.inv d → S.exec env q (E.db d) = (S.exec env q d).map fun r => (r.1, E.seen r.2)
  writes : ∀ env d a ws, S.exec env q d = .ok (a, ws) → ∀ w ∈ ws, E.Keeps w ∧ (inTx = true → E.hidden w = false)

end Erasure

/-- All statements that the program may come to are such. -/
def Prog.Unaware (E : Erasure S) : Prog S α → Bool → Prop
  | .ret _, _ | .crash, _ => True
  | .stmt q k, b => E.Blind q b ∧ (∀ e, (k (.error e)).Unaware E false) ∧ ∀ a, (k (.ok a)).Unaware E b
  | .begin k, b => (k (.error S.fault)).Unaware E b ∧ (k (.ok ())).Unaware E true
  | .commit k, _ => ∀ r, (k r).Unaware E false
  | .ask _ k, b => ∀ a, (k a).Unaware E b

namespace Erasure

variable {E : Erasure S} {t t' v : Task S Req Out} {d : S.Db} {ws : List S.Write}

@[simp] theorem seen_nil : E.seen [] = [] := rfl

theorem seen_eq (h : ∀ w ∈ ws, E.hidden w = false) : E.seen ws = ws :=
  List.filter_eq_self.mpr fun w hw => by simp [h w hw]

/-- Writes over a database, and over what is left of it. -/
theorem db_applyAll : ∀ (ws : List S.Write) (d : S.Db), E.db (S.applyAll ws d) = S.applyAll (E.seen ws) (E.db d)
  | [], _ => rfl
  | w :: ws, d => by
    rw [Server.applyAll_cons, db_applyAll ws]
    cases hw : E.hidden w with
    | true => simp [seen, hw, E.apply_hidden hw]
    | false => simp [seen, hw, E.apply_seen hw]

theorem inv_applyAll : ∀ {ws : List S.Write} {d : S.Db}, (∀ w ∈ ws, E.Keeps w) → E.inv d → E.inv (S.applyAll ws d)
  | [], _, _, hi => hi
  | w :: ws, d, h, hi => by
    have hrest : ∀ u ∈ ws, E.Keeps u := fun u hu => h u (List.mem_cons_of_mem _ hu)
    show E.inv (S.applyAll ws (S.apply w d))
    exact inv_applyAll hrest (h w List.mem_cons_self d hi)

/-! ### One task -/

variable (E) in
/-- The task cannot tell, and has no write of an erased row pending. -/
structure Fit (t : Task S Req Out) : Prop where
  pending : ∀ w ∈ held t.tx, E.hidden w = false ∧ E.Keeps w
  unaware : t.gone = false → t.prog.Unaware E t.tx.isSome

/-- A task that has ended. -/
theorem fit_of_closed (hc : t.isOpen = false) (htx : t.tx = none) : E.Fit t := by
  refine ⟨by simp [htx, held], fun hg => ?_⟩
  rcases Task.closed_iff.mp hc with h | ⟨a, ha⟩
  · rw [hg] at h
    cases h
  · rw [(Task.answered_eq.mp ha).2]
    trivial

theorem fit_next {p : Prog S Out} {tx : Option (Tx S)} (hpend : ∀ w ∈ held tx, E.hidden w = false ∧ E.Keeps w)
    (hu : p.Unaware E tx.isSome) (ws : List S.Write) : E.Fit (t.next p tx ws) := by
  cases p with
  | ret a => exact ⟨by simp [Task.next, Task.settle, held], fun _ => trivial⟩
  | _ => exact ⟨hpend, fun _ => hu⟩

/-- It stays so, and commits no write that makes a row visible. -/
theorem Fit.move {c : Choice S} (h : E.Fit t) (hm : t.move d c = some (t', ws)) : E.Fit t' ∧ ∀ w ∈ ws, E.Keeps w := by
  obtain ⟨hg, hgoes⟩ := Task.goes_of_move hm
  have hu := h.unaware hg
  have hpend := h.pending
  have hnil : ∀ w ∈ held (none : Option (Tx S)), E.hidden w = false ∧ E.Keeps w := by simp [held]
  cases hgoes with
  | left | crashed => exact ⟨⟨hnil, fun hc => by cases hc⟩, by simp⟩
  | asked hp =>
    rw [hp] at hu
    exact ⟨fit_next hpend (hu _) _, by simp⟩
  | begun hp =>
    rw [hp] at hu
    exact ⟨fit_next (by simp [held]) hu.2 _, by simp⟩
  | unbegun hp =>
    rw [hp] at hu
    exact ⟨fit_next hpend hu.1 _, by simp⟩
  | closed hp | uncommitted hp =>
    rw [hp] at hu
    exact ⟨fit_next hnil (hu _) _, by simp⟩
  | committed hp htx =>
    rw [hp] at hu
    rw [htx] at hpend
    exact ⟨fit_next hnil (hu _) _, fun w hw => (hpend w hw).2⟩
  | ran hp htx hx =>
    rw [hp, htx] at hu
    exact ⟨fit_next hnil (hu.2.2 _) _, fun w hw => (hu.1.writes _ _ _ _ hx w hw).1⟩
  | @ranTx env q k x a us hp htx hx =>
    rw [hp, htx] at hu
    rw [htx] at hpend
    have hk : (k (.ok a)).Unaware E (some (⟨x.start, x.writes ++ us⟩ : Tx S)).isSome := hu.2.2 a
    refine ⟨fit_next ?_ hk _, by simp⟩
    intro w hw
    rcases List.mem_append.mp hw with hw | hw
    · exact hpend w hw
    · obtain ⟨hk, hs⟩ := hu.1.writes _ _ _ _ hx w hw
      exact ⟨hs rfl, hk⟩
  | refused hp | refusedTx hp | failed hp =>
    rw [hp] at hu
    exact ⟨fit_next hnil (hu.2.1 _) _, by simp⟩

variable (E) in
/-- The same task, over what is left. -/
structure Twin (t v : Task S Req Out) : Prop where
  req : v.req = t.req
  prog : v.prog = t.prog
  tx : v.tx = t.tx
  gone : v.gone = t.gone
  fit : E.Fit t

theorem Twin.answered (h : E.Twin t v) : v.answered = t.answered := by
  unfold Task.answered
  rw [h.gone, h.prog]

theorem Twin.pending (h : E.Twin t v) : v.pending = t.pending := by
  rw [Task.pending_eq, Task.pending_eq, h.tx]

/-- What both do with a move. -/
def Moved (E : Erasure S) (x y : Task S Req Out × List S.Write) : Prop :=
  y.1.req = x.1.req ∧ y.1.prog = x.1.prog ∧ y.1.tx = x.1.tx ∧ y.1.gone = x.1.gone ∧ y.2 = E.seen x.2

/-- **Both move**, or neither does, and they stay the same. -/
theorem Twin.move (h : E.Twin t v) (hi : E.inv d) (c : Choice S) : Option.Rel (Moved E) (t.move d c) (v.move (E.db d) c) := by
  have next : ∀ (p : Prog S Out) (tx : Option (Tx S)) (ws us : List S.Write), us = E.seen ws →
      Option.Rel (Moved E) (some (t.next p tx ws, ws)) (some (v.next p tx us, us)) := fun p tx ws us hw =>
    .some ⟨h.req, rfl, rfl, h.gone, hw⟩
  have quiet : ∀ (p : Prog S Out) (tx : Option (Tx S)),
      Option.Rel (Moved E) (some (t.next p tx [], [])) (some (v.next p tx [], [])) := fun p tx => next p tx [] [] rfl
  have gone : Option.Rel (Moved E) (some ({ t with tx := none, gone := true }, []))
      (some ({ v with tx := none, gone := true }, [])) := .some ⟨h.req, h.prog, rfl, rfl, rfl⟩
  by_cases hg : t.gone = true
  · rw [Task.move_of_gone hg, Task.move_of_gone (h.gone.trans hg)]
    exact .none
  have hg : t.gone = false := by simpa using hg
  have hgv : v.gone = false := h.gone.trans hg
  have hu := h.fit.unaware hg
  cases hp : t.prog with
  | ret a =>
    rw [Task.move_of_answered (Task.answered_eq.mpr ⟨hg, hp⟩), Task.move_of_answered (Task.answered_eq.mpr ⟨hgv, h.prog.trans hp⟩)]
    exact .none
  | crash =>
    cases c with
    | drop | go => simpa [Task.move, hg, hgv, h.prog, hp] using gone
    | fail => simp [Task.move, hg, hgv, h.prog, hp]
  | ask q k =>
    cases c with
    | drop => simpa [Task.move, hg, hgv, h.prog, hp] using gone
    | fail => simp [Task.move, hg, hgv, h.prog, hp]
    | go env => simpa [Task.move, hg, hgv, h.prog, hp, h.tx] using quiet _ _
  | begin k =>
    cases c with
    | drop => simpa [Task.move, hg, hgv, h.prog, hp] using gone
    | fail | go => simpa [Task.move, hg, hgv, h.prog, hp, h.tx] using quiet _ _
  | commit k =>
    cases c with
    | drop => simpa [Task.move, hg, hgv, h.prog, hp] using gone
    | fail => simpa [Task.move, hg, hgv, h.prog, hp] using quiet _ _
    | go env =>
      cases htx : t.tx with
      | none => simpa [Task.move, hg, hgv, h.prog, hp, h.tx, htx] using quiet _ _
      | some x =>
        have hs : x.writes = E.seen x.writes := (seen_eq fun w hw => (h.fit.pending w (by rwa [htx])).1).symm
        simpa [Task.move, hg, hgv, h.prog, hp, h.tx, htx] using next _ _ _ _ hs
  | stmt q k =>
    cases c with
    | drop => simpa [Task.move, hg, hgv, h.prog, hp] using gone
    | fail => simpa [Task.move, hg, hgv, h.prog, hp] using quiet _ _
    | go env =>
      rw [hp] at hu
      cases htx : t.tx with
      | none =>
        have hsame := hu.1.same env d hi
        cases hx : S.exec env q d with
        | error e =>
          rw [hx] at hsame
          simpa [Task.move, hg, hgv, h.prog, hp, h.tx, htx, hx, hsame, Except.map] using quiet _ _
        | ok r =>
          rw [hx] at hsame
          simpa [Task.move, hg, hgv, h.prog, hp, h.tx, htx, hx, hsame, Except.map] using next _ _ _ _ rfl
      | some x =>
        have hpend : ∀ w ∈ x.writes, E.hidden w = false ∧ E.Keeps w := fun w hw => h.fit.pending w (by rwa [htx])
        rw [htx] at hu
        have hs : E.seen x.writes = x.writes := seen_eq fun w hw => (hpend w hw).1
        have hsame := hu.1.same (S.inTx x.start env) _ (inv_applyAll (fun w hw => (hpend w hw).2) hi)
        rw [db_applyAll, hs] at hsame
        cases hx : S.exec (S.inTx x.start env) q (S.applyAll x.writes d) with
        | error e =>
          rw [hx] at hsame
          simpa [Task.move, hg, hgv, h.prog, hp, h.tx, htx, hx, hsame, Except.map] using quiet _ _
        | ok r =>
          obtain ⟨a, us⟩ := r
          have hus : E.seen us = us := seen_eq fun w hw => (hu.1.writes _ _ _ _ hx w hw).2 rfl
          rw [hx] at hsame
          simpa [Task.move, hg, hgv, h.prog, hp, h.tx, htx, hx, hsame, hus, Except.map] using quiet _ _

/-! ### Pools -/

variable {handle : Req → Prog S Out} {s u : Pool S Req Out}

variable (E) in
/-- Two pools, the second over what is left of the database of the first. -/
structure Alike (s u : Pool S Req Out) : Prop where
  db : u.db = E.db s.db
  inv : E.inv s.db
  tasks : List.Forall₂ E.Twin s.tasks u.tasks

/-- The pool over what is left. -/
theorem alike_erased (hi : E.inv s.db) (hf : ∀ t ∈ s.tasks, E.Fit t) : E.Alike s { s with db := E.db s.db } :=
  ⟨rfl, hi, List.forall₂_same.mpr fun t ht => ⟨rfl, rfl, rfl, rfl, hf t ht⟩⟩

/-- The same locks are free. -/
theorem Alike.free_iff (h : E.Alike s u) {r : Option ℕ} {ws vs : List S.Write} :
    s.free r (ws ++ vs) ↔ u.free r (E.seen ws ++ vs) := by
  -- what a task holds is no lock of an erased row
  have hlock : ∀ t : Task S Req Out, E.Fit t → ∀ l ∈ Pool.lockset S t.pending,
      l ∈ Pool.lockset S (ws ++ vs) ↔ l ∈ Pool.lockset S (E.seen ws ++ vs) := by
    intro t hf l hl
    obtain ⟨w, hw, hlw⟩ := List.mem_flatMap.mp hl
    rw [Task.pending_eq] at hw
    have hseen := (hf.pending w hw).1
    simp only [Pool.lockset, List.flatMap_append, List.mem_append, List.mem_flatMap, seen, List.mem_filter]
    apply or_congr_left
    constructor
    · rintro ⟨x, hx, hlx⟩
      refine ⟨x, ⟨hx, ?_⟩, hlx⟩
      cases hh : E.hidden x with
      | false => rfl
      | true => exact absurd hlw (E.locks_apart hh hseen hlx)
    · rintro ⟨x, hx, hlx⟩
      exact ⟨x, hx.1, hlx⟩
  rw [Pool.free_iff, Pool.free_iff]
  constructor
  · intro hs i v hv hi l hl hmem
    obtain ⟨t, ht, htv⟩ := Pool.forall₂_get h.tasks hv
    rw [htv.pending] at hl
    exact hs i t ht hi l hl ((hlock t htv.fit l hl).mpr hmem)
  · intro hu i t ht hi l hl hmem
    obtain ⟨v, hv, htv⟩ := Pool.forall₂_get h.tasks.flip ht
    rw [← htv.pending] at hl
    exact hu i v hv hi l hl ((hlock t htv.fit l (htv.pending ▸ hl)).mp hmem)

/-- **Both pools move**, or neither does, and they stay alike. -/
theorem Alike.step {a : Action S Req} (h : E.Alike s u) (ha : ∀ req, a = .arrive req → (handle req).Unaware E false) :
    Option.Rel E.Alike (s.step handle a) (u.step handle a) := by
  cases a with
  | arrive req =>
    have hfit : E.Fit (⟨req, handle req, none, [], false⟩ : Task S Req Out) := ⟨by simp [held], fun _ => ha req rfl⟩
    exact .some ⟨h.db, h.inv, List.rel_append h.tasks (.cons ⟨rfl, rfl, rfl, rfl, hfit⟩ .nil)⟩
  | outside w =>
    have hfree : s.free none ([] ++ [w]) ↔ u.free none (E.seen [] ++ [w]) := h.free_iff
    rw [seen_nil, List.nil_append] at hfree
    simp only [Pool.step, ← hfree]
    split
    · rename_i hw
      refine .some ⟨?_, E.external_inv hw.1 h.inv, h.tasks⟩
      show S.apply w u.db = E.db (S.apply w s.db)
      rw [h.db]
      cases hh : E.hidden w with
      | true => rw [E.apply_hidden hh, E.external_hidden hw.1 hh]
      | false => rw [E.apply_seen hh]
    · exact .none
  | task r c =>
    cases ht : s.tasks[r]? with
    | none =>
      have hu : u.tasks[r]? = none := by
        rw [List.getElem?_eq_none_iff, ← h.tasks.length_eq]
        exact List.getElem?_eq_none_iff.mp ht
      simp [Pool.step, ht, hu]
    | some t =>
      obtain ⟨v, hv, htv⟩ := Pool.forall₂_get h.tasks.flip ht
      have hmove := htv.move h.inv c
      cases hm : t.move s.db c with
      | none =>
        rw [hm] at hmove
        have hmv : v.move u.db c = none := by
          rw [h.db]
          cases hmv : v.move (E.db s.db) c with
          | none => rfl
          | some y => rw [hmv] at hmove; cases hmove
        simp [Pool.step, ht, hv, hm, hmv]
      | some x =>
        obtain ⟨t', ws⟩ := x
        obtain ⟨v', hmv, hreq, hprog, htx, hgone⟩ : ∃ v', v.move u.db c = some (v', E.seen ws) ∧ v'.req = t'.req ∧
            v'.prog = t'.prog ∧ v'.tx = t'.tx ∧ v'.gone = t'.gone := by
          rw [hm] at hmove
          rw [h.db]
          cases hmv : v.move (E.db s.db) c with
          | none => rw [hmv] at hmove; cases hmove
          | some y =>
            rw [hmv] at hmove
            obtain ⟨v', us⟩ := y
            cases hmove with
            | some hy =>
              obtain ⟨h₁, h₂, h₃, h₄, rfl⟩ := hy
              exact ⟨v', rfl, h₁, h₂, h₃, h₄⟩
        obtain ⟨hfit, hkeeps⟩ := htv.fit.move hm
        have htwin : E.Twin t' v' := ⟨hreq, hprog, htx, hgone, hfit⟩
        have hfree : s.free (some r) (ws ++ t'.pending) ↔ u.free (some r) (E.seen ws ++ v'.pending) := by
          rw [htwin.pending]
          exact h.free_iff
        by_cases hf : s.free (some r) (ws ++ t'.pending)
        · have hs : s.step handle (.task r c) = some (s.moved r t' ws) := by simp [Pool.step, ht, hm, hf]
          have hu : u.step handle (.task r c) = some (u.moved r v' (E.seen ws)) := by
            simp [Pool.step, hv, hmv, hfree.mp hf]
          rw [hs, hu]
          refine .some ⟨?_, inv_applyAll hkeeps h.inv, Pool.forall₂_set h.tasks htwin r⟩
          show S.applyAll (E.seen ws) u.db = E.db (S.applyAll ws s.db)
          rw [h.db, db_applyAll]
        · have hs : s.step handle (.task r c) = none := by simp [Pool.step, ht, hm, hf]
          have hu : u.step handle (.task r c) = none := by simp [Pool.step, hv, hmv, mt hfree.mpr hf]
          rw [hs, hu]
          exact .none

/-- **Every run over the one is a run over the other.** -/
theorem Alike.run : ∀ {as : List (Action S Req)} {s u : Pool S Req Out}, E.Alike s u →
    (∀ req, .arrive req ∈ as → (handle req).Unaware E false) → Option.Rel E.Alike (s.run handle as) (u.run handle as)
  | [], _, _, h, _ => .some h
  | a :: as, s, u, h, ha => by
    have hst : Option.Rel E.Alike (s.step handle a) (u.step handle a) :=
      h.step fun req hreq => ha req (hreq ▸ List.mem_cons_self)
    unfold Pool.run
    generalize s.step handle a = x at hst
    generalize u.step handle a = y at hst
    cases hst with
    | none => exact .none
    | some h' => exact Alike.run h' fun req hreq => ha req (List.mem_cons_of_mem _ hreq)

/-- Both answer the same, request by request. -/
theorem Alike.answers (h : E.Alike s u) :
    u.tasks.map (fun t => (t.req, t.answered, t.gone)) = s.tasks.map fun t => (t.req, t.answered, t.gone) := by
  have key : ∀ {ts vs : List (Task S Req Out)}, List.Forall₂ E.Twin ts vs →
      vs.map (fun t => (t.req, t.answered, t.gone)) = ts.map fun t => (t.req, t.answered, t.gone) := by
    intro ts vs hs
    induction hs with
    | nil => rfl
    | cons htv _ ih => rw [List.map_cons, List.map_cons, ih, htv.req, htv.answered, htv.gone]
  exact key h.tasks

end Erasure
end Txn

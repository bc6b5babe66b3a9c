/-
# Contracts: from one program to every interleaving

A `Contract` gives every request a rely/guarantee specification. If the
program of each request meets it alone (`handles`), every run of the pool
keeps it: the invariant holds of the database, every program still meets its
specification from where it stands, and the open transactions hold keys that
nobody else uses (`Contract.run_ok`). So every commit in a run is one the
contract allows, at a database where its keys are new (`Contract.move_ok`).

The locks are what makes the last part true: a pending key is not in use
(`Ok.fresh`) and no two open transactions hold the same one (`Ok.apart`), and
a move keeps both because it waits for the locks of the others.

Key definitions: `Contract`, `Contract.Ok`.
Key theorems: `Contract.move_ok`, `Contract.step_ok`, `Contract.run_ok`.
-/
import HarnessRegistry.Txn.Pool

namespace Txn

variable {S : Server} {Req Out : Type}

/-! ### Keys in a sequence of writes -/

section Keys

variable [S.Lawful]

omit [S.Lawful] in
theorem fresh_nil (db : S.Db) : S.Fresh [] db := ⟨List.nodup_nil, by simp⟩

/-- The keys of later writes are still new after the first. -/
theorem fresh_cons {w : S.Write} {ws : List S.Write} {db : S.Db} (h : S.Fresh (w :: ws) db) :
    S.Fresh [w] db ∧ S.Fresh ws (S.apply w db) := by
  obtain ⟨hn, hf⟩ := h
  simp only [List.flatMap_cons, List.nodup_append, List.mem_append] at hn hf
  refine ⟨⟨by simpa using hn.1, fun l hl => hf l (.inl (by simpa using hl))⟩, hn.2.1, fun l hl ht => ?_⟩
  rcases Server.Lawful.taken_apply ht with ht | ht
  · exact hf l (.inr hl) ht
  · exact hn.2.2 l ht l hl rfl

theorem taken_applyAll {l : S.Lock} : ∀ (ws : List S.Write) {db : S.Db},
    S.taken (S.applyAll ws db) l → S.taken db l ∨ l ∈ ws.flatMap S.claims
  | [], _, h => .inl h
  | w :: ws, db, h => by
    rw [List.flatMap_cons, List.mem_append]
    rcases taken_applyAll ws h with h | h
    · rcases Server.Lawful.taken_apply h with h | h
      · exact .inl h
      · exact .inr (.inl h)
    · exact .inr (.inr h)

theorem applyAll_taken {l : S.Lock} : ∀ (ws : List S.Write) {db : S.Db},
    (∀ w ∈ ws, S.frees w = false) → S.taken db l → S.taken (S.applyAll ws db) l
  | [], _, _, h => h
  | w :: ws, _, hn, h =>
    applyAll_taken ws (fun v hv => hn v (List.mem_cons_of_mem _ hv))
      (Server.Lawful.apply_taken (hn w List.mem_cons_self) h)

/-- A sequence of fresh writes puts its keys in use. -/
theorem claims_taken {l : S.Lock} : ∀ (ws : List S.Write) {db : S.Db},
    (∀ w ∈ ws, S.frees w = false) → S.Fresh ws db → l ∈ ws.flatMap S.claims →
    S.taken (S.applyAll ws db) l
  | [], _, _, _, h => by simp at h
  | w :: ws, db, hn, hf, h => by
    have hn' : ∀ v ∈ ws, S.frees v = false := fun v hv => hn v (List.mem_cons_of_mem _ hv)
    obtain ⟨h1, h2⟩ := fresh_cons hf
    rw [List.flatMap_cons, List.mem_append] at h
    rcases h with h | h
    · exact applyAll_taken ws hn' (Server.Lawful.claim_taken h1 h)
    · exact claims_taken ws hn' h2 h

/-- Writes that are new to the rows a transaction sees are new to the
committed rows, and to the transaction's own. -/
theorem fresh_append {ws vs : List S.Write} {db : S.Db} (hn : ∀ w ∈ ws, S.frees w = false)
    (hf : S.Fresh ws db) (hv : S.Fresh vs (S.applyAll ws db)) : S.Fresh (ws ++ vs) db := by
  refine ⟨?_, fun l hl ht => ?_⟩
  · rw [List.flatMap_append, List.nodup_append]
    refine ⟨hf.1, hv.1, fun a ha b hb hab => ?_⟩
    exact hv.2 b hb (claims_taken ws hn hf (hab ▸ ha))
  · rw [List.flatMap_append, List.mem_append] at hl
    rcases hl with hl | hl
    · exact hf.2 l hl ht
    · exact hv.2 l hl (applyAll_taken ws hn ht)

/-- Pending keys stay new while others commit writes under other locks. -/
theorem fresh_applyAll {ws vs : List S.Write} {db : S.Db} (hf : S.Fresh vs db)
    (ha : ∀ l ∈ Pool.lockset S vs, l ∉ Pool.lockset S ws) : S.Fresh vs (S.applyAll ws db) := by
  refine ⟨hf.1, fun l hl ht => ?_⟩
  have up : ∀ {us : List S.Write}, l ∈ us.flatMap S.claims → l ∈ Pool.lockset S us := fun h => by
    obtain ⟨w, hw, hlw⟩ := List.mem_flatMap.mp h
    exact List.mem_flatMap.mpr ⟨w, hw, Server.Lawful.claims_locks hlw⟩
  rcases taken_applyAll ws ht with ht | ht
  · exact hf.2 l hl ht
  · exact ha l (up hl) (up ht)

end Keys

/-! ### Contracts -/

/-- A specification of every request: what the database may do meanwhile
(`rely`), what always holds of it (`inv`), what a request may commit (`guar`)
and what its answer means (`post`), both given what it committed before. -/
structure Contract (S : Server) (handle : Req → Prog S Out) where
  rely : S.Db → S.Db → Prop
  inv : S.Db → Prop
  guar : Req → List S.Write → S.Db → List S.Write → Prop
  post : Req → Out → List S.Write → S.Db → Prop
  rely_refl : ∀ db, rely db db
  rely_trans : ∀ {a b c}, rely a b → rely b c → rely a c
  commit_ok : ∀ {req done db ws}, inv db → S.Fresh ws db → guar req done db ws →
    rely db (S.applyAll ws db) ∧ inv (S.applyAll ws db)
  outside_ok : ∀ {w db}, S.external w = true → inv db → rely db (S.apply w db) ∧ inv (S.apply w db)
  outside_claims : ∀ {w}, S.external w = true → S.claims w = []
  post_stable : ∀ {req a done db db'}, post req a done db → rely db db' → inv db' → post req a done db'
  handles : ∀ {req db}, inv db →
    (handle req).Wp ⟨rely, inv, guar req⟩ none [] db fun a _ done db => post req a done db

namespace Contract

variable {handle : Req → Prog S Out} (C : Contract S handle)

/-- The specification of one request. -/
def rule (req : Req) : Rule S := ⟨C.rely, C.inv, C.guar req⟩

/-- The task, from where it stands, meets the specification of its request. -/
def Meets (t : Task S Req Out) (db : S.Db) : Prop :=
  t.prog.Wp (C.rule t.req) t.tx t.done db fun a _ done db => C.post t.req a done db

/-- What holds of the pool after every run. -/
structure Ok (s : Pool S Req Out) : Prop where
  inv : C.inv s.db
  fresh : ∀ (r : ℕ) (t : Task S Req Out), s.tasks[r]? = some t → S.Fresh t.pending s.db ∧ ∀ w ∈ t.pending, S.frees w = false
  apart : ∀ (i j : ℕ) (t u : Task S Req Out), s.tasks[i]? = some t → s.tasks[j]? = some u → i ≠ j →
    ∀ l ∈ Pool.lockset S t.pending, l ∉ Pool.lockset S u.pending
  meets : ∀ (r : ℕ) (t : Task S Req Out), s.tasks[r]? = some t → t.gone = false → C.Meets t s.db

/-- What a task's move leaves behind. -/
structure Moved (t t' : Task S Req Out) (db : S.Db) (ws : List S.Write) : Prop where
  req : t'.req = t.req
  done : t'.done = t.done ++ ws
  guar : ws = [] ∨ C.guar t.req t.done db ws ∧ S.Fresh ws db
  fresh : S.Fresh t'.pending (S.applyAll ws db) ∧ ∀ w ∈ t'.pending, S.frees w = false
  meets : t'.gone = false → C.Meets t' (S.applyAll ws db)

variable {C}

/-- The move commits what the rule allows, the task goes on meeting it, and what
it has pending then is new. -/
structure Keeps (R : Rule S) (Q : Out → List S.Write → S.Db → Prop) (t t' : Task S Req Out) (db : S.Db)
    (ws : List S.Write) : Prop where
  guar : ws = [] ∨ R.guar t.done db ws ∧ S.Fresh ws db
  fresh : S.Fresh t'.pending (S.applyAll ws db) ∧ ∀ w ∈ t'.pending, S.frees w = false
  meets : t'.gone = false → t'.prog.Wp R t'.tx t'.done (S.applyAll ws db) fun a _ done db => Q a done db

section Keeps

variable {R : Rule S} {Q : Out → List S.Write → S.Db → Prop} {t t' : Task S Req Out} {db : S.Db} {c : Choice S}
  {ws : List S.Write}

/-- The task goes on, with `tx` open unless the program ends. -/
theorem keeps_next {p : Prog S Out} {tx : Option (Tx S)} (hg : ws = [] ∨ R.guar t.done db ws ∧ S.Fresh ws db)
    (hf : S.Fresh (tx.elim [] Tx.writes) (S.applyAll ws db) ∧ ∀ w ∈ tx.elim [] Tx.writes, S.frees w = false)
    (hp : p.Wp R tx (t.done ++ ws) (S.applyAll ws db) fun a _ done db => Q a done db) :
    Keeps R Q t (t.next p tx ws) db ws := by
  cases p with
  | ret a => exact ⟨hg, ⟨fresh_nil _, by simp [Task.pending, Task.next, Task.settle]⟩, fun _ => hp⟩
  | _ => cases tx <;> exact ⟨hg, hf, fun _ => hp⟩

/-- Nothing is committed. -/
theorem keeps_quiet {p : Prog S Out} {tx : Option (Tx S)}
    (hf : S.Fresh (tx.elim [] Tx.writes) db ∧ ∀ w ∈ tx.elim [] Tx.writes, S.frees w = false)
    (hp : p.Wp R tx t.done db fun a _ done db => Q a done db) : Keeps R Q t (t.next p tx []) db [] :=
  keeps_next (.inl rfl) hf (by simpa using hp)

/-- Nothing is committed, and no transaction is open afterwards. -/
theorem keeps_closed {p : Prog S Out} (hp : p.Wp R none t.done db fun a _ done db => Q a done db) :
    Keeps R Q t (t.next p none []) db [] := keeps_quiet ⟨fresh_nil _, by simp⟩ hp

theorem keeps_gone {p : Prog S Out} : Keeps R Q t { t with prog := p, tx := none, gone := true } db [] :=
  ⟨.inl rfl, ⟨fresh_nil _, by simp [Task.pending]⟩, fun h => by cases h⟩

/-- A statement that is carried out commits what it writes, or adds it to the
transaction. -/
theorem keeps_stmt [S.Lawful] {q : S.Stmt} {k : Except S.Err (S.Res q) → Prog S Out} {env : S.Env} {a : S.Res q}
    (hrefl : R.rely db db) (hinv : R.inv db)
    (hwp : (Prog.stmt q k).Wp R none t.done db fun a _ done db => Q a done db) (he : S.exec env q db = .ok (a, ws)) :
    Keeps R Q t (t.next (k (.ok a)) none ws) db ws := by
  have hk := (hwp db hrefl hinv).2 env
  rw [he] at hk
  exact keeps_next (hk.1.imp_right fun h => ⟨h, Server.Lawful.exec_fresh he⟩) ⟨fresh_nil _, by simp⟩ hk.2

theorem keeps_stmtTx [S.Lawful] {q : S.Stmt} {k : Except S.Err (S.Res q) → Prog S Out} {env : S.Env} {x : Tx S}
    {a : S.Res q} (hrefl : R.rely db db) (hinv : R.inv db)
    (hf : S.Fresh x.writes db ∧ ∀ w ∈ x.writes, S.frees w = false)
    (hwp : (Prog.stmt q k).Wp R (some x) t.done db fun a _ done db => Q a done db)
    (he : S.exec (S.inTx x.start env) q (S.applyAll x.writes db) = .ok (a, ws)) :
    Keeps R Q t (t.next (k (.ok a)) (some ⟨x.start, x.writes ++ ws⟩) []) db [] := by
  have hk := (hwp db hrefl hinv).2 env
  rw [he] at hk
  refine keeps_quiet ⟨fresh_append hf.2 hf.1 (Server.Lawful.exec_fresh he), fun w hw => ?_⟩ hk.2
  rcases List.mem_append.mp hw with hw | hw
  · exact hf.2 w hw
  · exact hk.1 w hw

/-- One that fails or is refused ends the transaction. -/
theorem keeps_error {q : S.Stmt} {k : Except S.Err (S.Res q) → Prog S Out} {tx : Option (Tx S)} (hrefl : R.rely db db)
    (hinv : R.inv db) (hwp : (Prog.stmt q k).Wp R tx t.done db fun a _ done db => Q a done db) {e : S.Err}
    (he : e = S.fault ∨ ∃ env, S.exec (tx.elim env fun x => S.inTx x.start env) q
      (S.applyAll (tx.elim [] Tx.writes) db) = .error e) : Keeps R Q t (t.next (k (.error e)) none []) db [] := by
  refine keeps_closed ?_
  cases tx with
  | none =>
    rcases he with rfl | ⟨env, he⟩
    · exact (hwp db hrefl hinv).1
    · have hk := (hwp db hrefl hinv).2 env
      have he : S.exec env q db = .error e := he
      rw [he] at hk
      exact hk
  | some x =>
    rcases he with rfl | ⟨env, he⟩
    · exact (hwp db hrefl hinv).1
    · have hk := (hwp db hrefl hinv).2 env
      have he : S.exec (S.inTx x.start env) q (S.applyAll x.writes db) = .error e := he
      rw [he] at hk
      exact hk

/-- **One move of a task, at a database where its pending keys are new.** -/
theorem move_wp [S.Lawful] (hrefl : R.rely db db) (hinv : R.inv db) (hfr : S.Fresh t.pending db)
    (hnf : ∀ w ∈ t.pending, S.frees w = false)
    (hwp : t.gone = false → t.prog.Wp R t.tx t.done db fun a _ done db => Q a done db)
    (hm : t.move db c = some (t', ws)) : Keeps R Q t t' db ws := by
  have hf : S.Fresh (t.tx.elim [] Tx.writes) db ∧ ∀ w ∈ t.tx.elim [] Tx.writes, S.frees w = false := by
    unfold Task.pending at hfr hnf
    cases htx : t.tx <;> rw [htx] at hfr hnf <;> exact ⟨hfr, hnf⟩
  obtain ⟨hg, h⟩ := Task.goes_of_move hm
  have hwp := hwp hg
  cases h with
  | left | crashed => exact keeps_gone
  | asked hp =>
    rw [hp] at hwp
    exact keeps_quiet hf (hwp _)
  | begun hp =>
    rw [hp] at hwp
    exact keeps_quiet ⟨fresh_nil _, by simp⟩ (hwp.2 _)
  | unbegun hp =>
    rw [hp] at hwp
    exact keeps_quiet hf hwp.1
  | closed hp htx =>
    rw [hp, htx] at hwp
    exact keeps_closed hwp.2
  | committed hp htx =>
    rw [hp, htx] at hwp
    rw [htx] at hf
    obtain ⟨hgu, hk⟩ := hwp.2 db hrefl hinv hf.1
    exact keeps_next (hgu.imp_right fun h => ⟨h, hf.1⟩) ⟨fresh_nil _, by simp⟩ hk
  | uncommitted hp =>
    rw [hp] at hwp
    refine keeps_closed ?_
    cases htx : t.tx <;> rw [htx] at hwp <;> exact hwp.1
  | ran hp htx hx =>
    rw [hp, htx] at hwp
    exact keeps_stmt hrefl hinv hwp hx
  | ranTx hp htx hx =>
    rw [hp, htx] at hwp
    rw [htx] at hf
    exact keeps_stmtTx hrefl hinv hf hwp hx
  | refused hp htx hx =>
    rw [hp, htx] at hwp
    exact keeps_error hrefl hinv hwp (.inr ⟨_, hx⟩)
  | refusedTx hp htx hx =>
    rw [hp, htx] at hwp
    exact keeps_error hrefl hinv hwp (.inr ⟨_, hx⟩)
  | failed hp =>
    rw [hp] at hwp
    exact keeps_error hrefl hinv hwp (.inl rfl)

end Keeps

/-- A task's move keeps its request and adds to what it has committed. -/
theorem move_eq {t t' : Task S Req Out} {db : S.Db} {c : Choice S} {ws : List S.Write}
    (hm : t.move db c = some (t', ws)) : t'.req = t.req ∧ t'.done = t.done ++ ws := by
  obtain ⟨-, h⟩ := Task.goes_of_move hm
  cases h with
  | left | crashed => exact ⟨rfl, (List.append_nil _).symm⟩
  | _ => exact ⟨rfl, rfl⟩

/-- **One move of a task**, from a state where the contract holds. -/
theorem move_ok [S.Lawful] {s : Pool S Req Out} (hs : C.Ok s) {r : ℕ} {t t' : Task S Req Out}
    {c : Choice S} {ws : List S.Write} (ht : s.tasks[r]? = some t) (hm : t.move s.db c = some (t', ws)) :
    C.Moved t t' s.db ws := by
  obtain ⟨hfr, hnf⟩ := hs.fresh r t ht
  obtain ⟨hr, hd⟩ := move_eq hm
  obtain ⟨hg, hf, hw⟩ := move_wp (R := C.rule t.req) (Q := C.post t.req) (C.rely_refl s.db) hs.inv hfr hnf
    (hs.meets r t ht) hm
  refine ⟨hr, hd, hg, hf, fun hgone => ?_⟩
  unfold Meets
  rw [hr]
  exact hw hgone

theorem Meets.stable {t : Task S Req Out} {db db' : S.Db} (h : C.Meets t db) (hr : C.rely db db') (hi : C.inv db') :
    C.Meets t db' := by
  unfold Meets at h ⊢
  exact Prog.wp_stable (R := C.rule t.req) (Q := fun a _ done db => C.post t.req a done db)
    (fun h h' => C.rely_trans h h') (fun _ _ _ _ _ hq hr hi => C.post_stable hq hr hi) _ _ _ _ _ h hr hi

/-- A new task has no transaction, and its program meets the contract. -/
theorem arrived_ok {s : Pool S Req Out} (hs : C.Ok s) (req : Req) : C.Ok (s.arrived handle req) := by
  have new : ∀ {i : ℕ} {t : Task S Req Out}, (s.arrived handle req).tasks[i]? = some t →
      s.tasks[i]? = some t ∨ t = ⟨req, handle req, none, [], false⟩ := by
    intro i t hi
    simp only [Pool.arrived, List.getElem?_append] at hi
    split at hi
    · exact .inl hi
    · exact .inr (by simpa using (List.mem_of_getElem? hi))
  refine ⟨hs.inv, fun i t hi => ?_, fun i j t u hi hj hij l hl => ?_, fun i t hi hg => ?_⟩
  · rcases new hi with hi | rfl
    · exact hs.fresh i t hi
    · exact ⟨fresh_nil _, by simp [Task.pending]⟩
  · rcases new hi with hi | rfl
    · rcases new hj with hj | rfl
      · exact hs.apart i j t u hi hj hij l hl
      · simp [Task.pending, Pool.lockset]
    · simp [Task.pending, Pool.lockset] at hl
  · rcases new hi with hi | rfl
    · exact hs.meets i t hi hg
    · exact C.handles hs.inv

/-- A write by hand claims no key. -/
theorem touched_ok [S.Lawful] {s : Pool S Req Out} (hs : C.Ok s) {w : S.Write} (hx : S.external w = true) :
    C.Ok (s.touched w) := by
  obtain ⟨hr, hi⟩ := C.outside_ok hx hs.inv
  refine ⟨hi, fun i t ht => ⟨⟨(hs.fresh i t ht).1.1, fun l hl htk => ?_⟩, (hs.fresh i t ht).2⟩, hs.apart,
    fun i t ht hg => (hs.meets i t ht hg).stable hr hi⟩
  rcases Server.Lawful.taken_apply htk with htk | htk
  · exact (hs.fresh i t ht).1.2 l hl htk
  · rw [C.outside_claims hx] at htk; cases htk

/-- A move of a task, which waits for the locks of the others. -/
theorem moved_ok [S.Lawful] {s : Pool S Req Out} (hs : C.Ok s) {r : ℕ} {t t' : Task S Req Out} {c : Choice S}
    {ws : List S.Write} (ht : s.tasks[r]? = some t) (hm : t.move s.db c = some (t', ws))
    (hf : s.free (some r) (ws ++ t'.pending)) : C.Ok (s.moved r t' ws) := by
  have hmv := move_ok hs ht hm
  have hrel : C.rely s.db (S.applyAll ws s.db) ∧ C.inv (S.applyAll ws s.db) := by
    rcases hmv.guar with rfl | ⟨hg, hfw⟩
    · exact ⟨C.rely_refl _, hs.inv⟩
    · exact C.commit_ok hs.inv hfw hg
  rw [Pool.free_iff] at hf
  -- the others hold no lock that the move needs
  have others : ∀ {i : ℕ} {u : Task S Req Out}, i ≠ r → s.tasks[i]? = some u →
      ∀ l ∈ Pool.lockset S u.pending, l ∉ Pool.lockset S ws ∧ l ∉ Pool.lockset S t'.pending := by
    intro i u hir hu l hl
    have := hf i u hu (by simpa using hir) l hl
    simpa [Pool.lockset, List.flatMap_append, not_or] using this
  refine ⟨hrel.2, fun i u hi => ?_, fun i j u v hi hj hij l hl => ?_, fun i u hi hg => ?_⟩
  · rcases Pool.of_task_moved ht hi with ⟨rfl, rfl⟩ | ⟨hir, hi⟩
    · exact hmv.fresh
    · exact ⟨fresh_applyAll (hs.fresh i u hi).1 fun l hl => (others hir hi l hl).1, (hs.fresh i u hi).2⟩
  · rcases Pool.of_task_moved ht hi with ⟨hir, hu⟩ | ⟨hir, hu⟩ <;> rcases Pool.of_task_moved ht hj with ⟨hjr, hv⟩ | ⟨hjr, hv⟩
    · exact absurd (hir.trans hjr.symm) hij
    · subst hu
      exact fun hl' => (others hjr hv l hl').2 hl
    · subst hv
      exact (others hir hu l hl).2
    · exact hs.apart i j u v hu hv hij l hl
  · rcases Pool.of_task_moved ht hi with ⟨rfl, rfl⟩ | ⟨hir, hi⟩
    · exact hmv.meets hg
    · exact (hs.meets i u hi hg).stable hrel.1 hrel.2

/-- Every move of the system keeps the contract. -/
theorem step_ok [S.Lawful] {s s' : Pool S Req Out} {a : Action S Req} (hs : C.Ok s)
    (h : s.step handle a = some s') : C.Ok s' := by
  rcases Pool.step_cases h with ⟨req, -, rfl⟩ | ⟨w, -, hx, -, rfl⟩ | ⟨r, c, t, t', ws, -, ht, hm, hf, rfl⟩
  · exact arrived_ok hs req
  · exact touched_ok hs hx
  · exact moved_ok hs ht hm hf

/-- A pool nobody has asked anything of yet keeps the contract. -/
theorem init_ok {s : Pool S Req Out} (hi : C.inv s.db) (ht : s.tasks = []) : C.Ok s :=
  ⟨hi, by simp [ht], by simp [ht], by simp [ht]⟩

/-- **Every run keeps the contract.** -/
theorem run_ok [S.Lawful] {s s' : Pool S Req Out} {as : List (Action S Req)} (hs : C.Ok s)
    (h : s.run handle as = some s') : C.Ok s' :=
  Pool.run_induct hs (fun _ _ _ h1 h2 => step_ok h1 h2) h

end Contract
end Txn

/-
# A server that refuses some statements

Two ways to carry a statement out: as `full` does, and as the server does, which
agrees with `full` on the statements that it accepts and refuses every other one
with the same error (`Server.Restricts`). A program that sends only statements
that are accepted cannot tell the two apart (`Prog.Accepted.served`). If a refusal
ends the program with a fixed answer (`Prog.GivesUp`), it runs as under `full` or
stops short with that answer; and if it needs a statement that is refused
(`Prog.Needs`), it stops short whenever it would have succeeded under `full`
(`Prog.Needs.refused`).

Key definitions: `Server.Restricts`, `Prog.after`, `Prog.servedBy`, `Prog.Accepted`, `Prog.GivesUp`,
`Prog.Needs`.
Key theorems: `Prog.served_eq`, `Prog.Accepted.served`, `Prog.GivesUp.served`, `Prog.Needs.refused`.
-/
import HarnessRegistry.Txn.Programs

namespace Txn

variable {S : Server} {α : Type}

/-- A way to carry statements out. -/
abbrev Server.Exec (S : Server) := S.Env → (q : S.Stmt) → S.Db → Except S.Err (S.Res q × List S.Write)

/-- The server is `full`, except that it refuses what it does not accept. -/
structure Server.Restricts (S : Server) (full : S.Exec) (accepts : S.Stmt → Prop) (e : S.Err) : Prop where
  same : ∀ {env q db}, accepts q → S.exec env q db = full env q db
  refuses : ∀ {env q db}, ¬ accepts q → S.exec env q db = .error e

namespace Prog

/-! ### One move -/

/-- What is left of a program, its transaction and the database after a move
that goes as chosen, with the statements carried out by `exec`. -/
def after (exec : S.Exec) : Prog S α → Option (Tx S) → S.Db → Choice S → Option (Prog S α × Option (Tx S) × S.Db)
  | .ask q k, tx, db, .go env => some (k (S.answer env q), tx, db)
  | .begin k, _, db, .go env => some (k (.ok ()), some ⟨env, []⟩, db)
  | .begin k, tx, db, .fail => some (k (.error S.fault), tx, db)
  | .commit k, none, db, .go _ => some (k (.ok ()), none, db)
  | .commit k, some x, db, .go _ => some (k (.ok ()), none, S.applyAll x.writes db)
  | .commit k, _, db, .fail => some (k (.error S.fault), none, db)
  | .stmt q k, none, db, .go env => match exec env q db with
    | .error e => some (k (.error e), none, db)
    | .ok (a, ws) => some (k (.ok a), none, S.applyAll ws db)
  | .stmt q k, some x, db, .go env => match exec (S.inTx x.start env) q (S.applyAll x.writes db) with
    | .error e => some (k (.error e), none, db)
    | .ok (a, ws) => some (k (.ok a), some ⟨x.start, x.writes ++ ws⟩, db)
  | .stmt _ k, _, db, .fail => some (k (.error S.fault), none, db)
  | _, _, _, _ => none

/-- `served`, with the statements carried out by `exec`. -/
def servedBy (exec : S.Exec) : Prog S α → Option (Tx S) → S.Db → List (Choice S) → Option (α × S.Db)
  | p, _, db, [] => match p with
    | .ret a => some (a, db)
    | _ => none
  | p, tx, db, c :: cs => (p.after exec tx db c).bind fun r => r.1.servedBy exec r.2.1 r.2.2 cs

variable {exec full : S.Exec} {accepts : S.Stmt → Prop} {e : S.Err} {out : α} {success : α → Prop}
  {p p' : Prog S α} {tx tx' : Option (Tx S)} {db db' : S.Db} {c : Choice S} {cs : List (Choice S)}

theorem served_eq : ∀ {cs : List (Choice S)} {p : Prog S α} {tx : Option (Tx S)} {db : S.Db},
    p.served tx db cs = p.servedBy S.exec tx db cs := by
  intro cs
  induction cs with
  | nil => intro p tx db; cases p <;> cases tx <;> rfl
  | cons c cs ih =>
    intro p tx db
    show _ = (p.after S.exec tx db c).bind fun r => r.1.servedBy S.exec r.2.1 r.2.2 cs
    simp only [← ih]
    cases p with
    | stmt q k =>
      cases c <;> cases tx <;> try rfl
      all_goals
        simp only [Prog.served, after]
        split <;> simp_all
    | _ => cases c <;> cases tx <;> rfl

/-- A statement is followed by what comes after an error, or after a result of its. -/
theorem after_stmt {q : S.Stmt} {k : Except S.Err (S.Res q) → Prog S α}
    (h : (Prog.stmt q k).after exec tx db c = some (p', tx', db')) :
    (∃ e, p' = k (.error e)) ∨ ∃ env db₁ a ws, exec env q db₁ = .ok (a, ws) ∧ p' = k (.ok a) := by
  cases c with
  | drop => cases tx <;> cases h
  | fail => cases tx <;> cases h <;> exact .inl ⟨_, rfl⟩
  | go env =>
    cases tx with
    | none =>
      simp only [after] at h
      split at h <;> cases h
      · exact .inl ⟨_, rfl⟩
      · exact .inr ⟨_, _, _, _, ‹_›, rfl⟩
    | some x =>
      simp only [after] at h
      split at h <;> cases h
      · exact .inl ⟨_, rfl⟩
      · exact .inr ⟨_, _, _, _, ‹_›, rfl⟩

theorem Every.after {P : Prog S α → Prop} (hp : p.Every P) (h : p.after exec tx db c = some (p', tx', db')) :
    p'.Every P := by
  cases p with
  | ret a | crash => cases c <;> cases tx <;> cases h
  | stmt q k =>
    obtain ⟨_, rfl⟩ | ⟨_, _, _, _, -, rfl⟩ := after_stmt h
    · exact hp.2 _
    · exact hp.2 _
  | ask q k | begin k | commit k => cases c <;> cases tx <;> cases h <;> exact hp.2 _

theorem Every.mono {P Q : Prog S α → Prop} (h : ∀ p, P p → Q p) : ∀ {p : Prog S α}, p.Every P → p.Every Q := by
  intro p hp
  induction p with
  | ret a | crash => exact h _ hp
  | stmt q k ih | begin k ih | commit k ih | ask q k ih => exact ⟨h _ hp.1, fun r => ih r (hp.2 r)⟩

/-! ### Statements that are accepted -/

/-- The statement that the program sends next, if it does, satisfies `P`. -/
def Sends (P : (q : S.Stmt) → (Except S.Err (S.Res q) → Prog S α) → Prop) : Prog S α → Prop
  | .stmt q k => P q k
  | _ => True

/-- Every statement that the program may come to is accepted. -/
def Accepted (accepts : S.Stmt → Prop) (p : Prog S α) : Prop := p.Every (Sends fun q _ => accepts q)

theorem Sends.mono {P Q : (q : S.Stmt) → (Except S.Err (S.Res q) → Prog S α) → Prop} (h : ∀ q k, P q k → Q q k)
    (hp : p.Sends P) : p.Sends Q := by
  cases p with
  | stmt q k => exact h q k hp
  | _ => trivial

theorem after_accepted (hr : S.Restricts full accepts e) (hp : p.Sends fun q _ => accepts q) :
    p.after S.exec tx db c = p.after full tx db c := by
  cases p with
  | stmt q k => cases c <;> cases tx <;> simp only [after, hr.same hp]
  | _ => cases c <;> cases tx <;> rfl

/-- A program whose statements are all accepted runs as under `full`. -/
theorem Accepted.served (hr : S.Restricts full accepts e) : ∀ {cs : List (Choice S)} {p : Prog S α}
    {tx : Option (Tx S)} {db : S.Db}, p.Accepted accepts → p.served tx db cs = p.servedBy full tx db cs := by
  intro cs
  induction cs with
  | nil => intro p tx db _; exact served_eq
  | cons c cs ih =>
    intro p tx db hp
    rw [served_eq, servedBy, servedBy, ← after_accepted hr hp.self]
    refine Option.bind_congr fun r hr => ?_
    rw [← served_eq]
    exact ih (hp.after hr)

/-! ### Statements that are refused -/

/-- Whichever statement is answered with `e`, the program ends with `out`. -/
def GivesUp (e : S.Err) (out : α) (p : Prog S α) : Prop := p.Every (Sends fun _ k => k (.error e) = .ret out)

theorem GivesUp.after (hr : S.Restricts full accepts e) (hp : p.GivesUp e out) :
    p.after S.exec tx db c = p.after full tx db c ∨ p.after S.exec tx db c = some (.ret out, none, db) := by
  by_cases ha : p.Sends fun q _ => accepts q
  · exact .inl (after_accepted hr ha)
  · cases p with
    | stmt q k =>
      have hk : k (.error e) = .ret out := hp.self
      cases c with
      | go env => right; cases tx <;> simp only [Prog.after, hr.refuses ha, hk]
      | fail | drop => left; cases tx <;> rfl
    | _ => exact absurd trivial ha

/-- A program that gives up when it is refused runs as under `full`, or ends
before with its answer. -/
theorem GivesUp.served (hr : S.Restricts full accepts e) : ∀ {cs : List (Choice S)} {p : Prog S α} {tx : Option (Tx S)}
    {db : S.Db} {r : α × S.Db}, p.GivesUp e out → p.servedBy full tx db cs = some r →
    p.served tx db cs = some r ∨ ∃ cs' db', cs' <+: cs ∧ p.served tx db cs' = some (out, db') := by
  intro cs
  induction cs with
  | nil => intro p tx db r _ h; exact .inl (by rwa [served_eq])
  | cons c cs ih =>
    intro p tx db r hp h
    rcases (hp.after hr : p.after S.exec tx db c = _ ∨ _) with hsame | hrefused
    · obtain ⟨u, hu, hrest⟩ := Option.bind_eq_some_iff.mp h
      rw [← hsame] at hu
      have next : ∀ cs', p.served tx db (c :: cs') = u.1.served u.2.1 u.2.2 cs' := by
        intro cs'
        rw [served_eq, servedBy, hu, Option.bind_some, served_eq]
      rcases ih (Every.after hp hu) hrest with hr | ⟨cs', db', hpre, hr⟩
      · exact .inl ((next cs).trans hr)
      · exact .inr ⟨c :: cs', db', List.cons_prefix_cons.mpr ⟨rfl, hpre⟩, (next cs').trans hr⟩
    · refine .inr ⟨[c], db, List.cons_prefix_cons.mpr ⟨rfl, List.nil_prefix⟩, ?_⟩
      rw [served_eq, servedBy, hrefused]
      rfl

/-- On every way to a success there is a statement that is not accepted, and the
program does not succeed after an error in its place. -/
def Needs (accepts : S.Stmt → Prop) (success : α → Prop) : Prog S α → Prop
  | .ret a => ¬ success a
  | .crash => True
  | .stmt q k => (∀ r, (k r).Needs accepts success) ∨ ¬ accepts q ∧ ∀ e, (k (.error e)).Needs accepts success
  | .begin k => ∀ r, (k r).Needs accepts success
  | .commit k => ∀ r, (k r).Needs accepts success
  | .ask _ k => ∀ r, (k r).Needs accepts success

theorem Needs.after (hr : S.Restricts full accepts e) (hp : p.Needs accepts success)
    (h : p.after S.exec tx db c = some (p', tx', db')) : p'.Needs accepts success := by
  cases p with
  | ret a | crash => cases c <;> cases tx <;> cases h
  | ask q k | begin k | commit k => cases c <;> cases tx <;> cases h <;> exact hp _
  | stmt q k =>
    rcases hp with hp | ⟨hq, hp⟩
    · obtain ⟨_, rfl⟩ | ⟨_, _, _, _, -, rfl⟩ := after_stmt h
      · exact hp _
      · exact hp _
    · obtain ⟨_, rfl⟩ | ⟨_, _, _, _, hx, -⟩ := after_stmt h
      · exact hp _
      · cases (hr.refuses hq).symm.trans hx

theorem Needs.not_success (hr : S.Restricts full accepts e) : ∀ {cs : List (Choice S)} {p : Prog S α}
    {tx : Option (Tx S)} {db : S.Db} {r : α × S.Db}, p.Needs accepts success → p.served tx db cs = some r →
    ¬ success r.1 := by
  intro cs
  induction cs with
  | nil =>
    intro p tx db r hp h
    cases p with
    | ret a => cases h; exact hp
    | _ => cases tx <;> cases h
  | cons c cs ih =>
    intro p tx db r hp h
    rw [served_eq] at h
    obtain ⟨u, hu, hrest⟩ := Option.bind_eq_some_iff.mp h
    rw [← served_eq] at hrest
    exact ih (hp.after hr hu) hrest

/-- A program that needs a statement that is not accepted, but only ever sends
statements that are, does not succeed at all. -/
theorem Needs.unsuccessful : ∀ {p : Prog S α}, p.Needs accepts success → p.Accepted accepts →
    p.Every fun p => ∀ a, p = .ret a → ¬ success a := by
  intro p hn ha
  induction p with
  | ret a => exact fun b hb => by cases hb; exact hn
  | crash => exact fun b hb => by cases hb
  | begin k ih | commit k ih | ask q k ih =>
    exact ⟨fun b hb => (by cases hb), fun r => ih r (hn r) (ha.2 r)⟩
  | stmt q k ih =>
    have hk : ∀ r, (k r).Needs accepts success := hn.resolve_right fun h => h.1 ha.1
    exact ⟨fun b hb => (by cases hb), fun r => ih r (hk r) (ha.2 r)⟩

/-- A program that needs a statement that is refused, and then gives up, does so
wherever it would succeed under `full`. -/
theorem Needs.refused (hr : S.Restricts full accepts e) (hn : p.Needs accepts success) (hg : p.GivesUp e out)
    {r : α × S.Db} (h : p.servedBy full tx db cs = some r) (hs : success r.1) :
    ∃ cs' db', cs' <+: cs ∧ p.served tx db cs' = some (out, db') :=
  (hg.served hr h).resolve_left fun hsame => hn.not_success hr hsame hs

end Prog
end Txn

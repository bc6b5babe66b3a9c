/-
# Programs that cannot tell two databases apart

Two runs of one program, on databases that a relation `R` holds of, with moves
that go alike. A statement is blind to the difference when it comes to the same
on both, whatever the moment, and leaves databases that `R` holds of
(`Server.Blind`). A program made of such statements returns the same in both
runs, and `R` holds afterwards (`Blind.served`). What a statement may return
can be narrowed down for what follows it.

Key definitions: `Choice.Alike`, `Server.Blind`, `Prog.Blind`.
Key theorems: `Prog.blind_bind`, `Prog.served_stmt`, `Prog.Blind.served`, `Prog.Blind.served_imp`.
-/
import HarnessRegistry.Txn.Programs

namespace Txn

variable {S : Server} {α β : Type} {R : S.Db → S.Db → Prop}

/-- The moves go the same way, each at a moment of its own. -/
inductive Choice.Alike : Choice S → Choice S → Prop
  | go (env env' : S.Env) : Alike (.go env) (.go env')
  | fail : Alike .fail .fail
  | drop : Alike .drop .drop

/-- The statement does not see the difference, and returns something of `A`. -/
def Server.Blind (S : Server) (R : S.Db → S.Db → Prop) (q : S.Stmt) (A : S.Res q → Prop) : Prop :=
  ∀ env env' db db', R db db' →
    (∃ e, S.exec env q db = .error e ∧ S.exec env' q db' = .error e) ∨
      ∃ a ws ws', S.exec env q db = .ok (a, ws) ∧ S.exec env' q db' = .ok (a, ws') ∧ A a ∧
        R (S.applyAll ws db) (S.applyAll ws' db')

namespace Prog

/-- Nor does the program, and it returns something of `A`. -/
def Blind (R : S.Db → S.Db → Prop) : Prog S α → (α → Prop) → Prop
  | .ret a, A => A a
  | .crash, _ => True
  | .stmt q k, A => ∃ B, S.Blind R q B ∧ ∀ r, (∀ a, r = .ok a → B a) → (k r).Blind R A
  | .begin k, A => ∀ r, (k r).Blind R A
  | .commit k, A => ∀ r, (k r).Blind R A
  | .ask q k, A => (∀ env env', S.answer env q = S.answer env' q) ∧ ∀ r, (k r).Blind R A

theorem blind_bind {A : α → Prop} {B : β → Prop} {f : α → Prog S β} (hf : ∀ a, A a → (f a).Blind R B) :
    ∀ {p : Prog S α}, p.Blind R A → (p.bind f).Blind R B := by
  intro p hp
  induction p with
  | ret a => exact hf a hp
  | crash => trivial
  | stmt q k ih =>
    obtain ⟨C, hq, hk⟩ := hp
    exact ⟨C, hq, fun r hr => ih r (hk r hr)⟩
  | begin k ih | commit k ih => exact fun r => ih r (hp r)
  | ask q k ih => exact ⟨hp.1, fun r => ih r (hp.2 r)⟩

/-- No transaction is open in either run, or one in both. -/
def TxAlike (R : S.Db → S.Db → Prop) (db db' : S.Db) : Option (Tx S) → Option (Tx S) → Prop
  | none, none => True
  | some x, some x' => R (S.applyAll x.writes db) (S.applyAll x'.writes db')
  | _, _ => False

/-- A statement comes to the same in both runs. -/
theorem served_stmt {q : S.Stmt} {B : S.Res q → Prop} (hq : S.Blind R q B) {tx tx' : Option (Tx S)} {db db' : S.Db}
    (hR : R db db') (htx : TxAlike R db db' tx tx') (env env' : S.Env) :
    ∃ r tx₁ tx₁' db₁ db₁', (∀ a, r = .ok a → B a) ∧ R db₁ db₁' ∧ TxAlike R db₁ db₁' tx₁ tx₁' ∧
      (∀ (k : Except S.Err (S.Res q) → Prog S α) cs, (Prog.stmt q k).served tx db (.go env :: cs) = (k r).served tx₁ db₁ cs) ∧
      ∀ (k : Except S.Err (S.Res q) → Prog S α) cs,
        (Prog.stmt q k).served tx' db' (.go env' :: cs) = (k r).served tx₁' db₁' cs := by
  cases tx with
  | none =>
    cases tx' with
    | none =>
      rcases hq env env' db db' hR with ⟨e, he, he'⟩ | ⟨a, ws, ws', ha, ha', hB, hR'⟩
      · refine ⟨.error e, none, none, db, db', (fun a h => by cases h), hR, trivial, fun k cs => ?_, fun k cs => ?_⟩
        · simp only [Prog.served, he]
        · simp only [Prog.served, he']
      · refine ⟨.ok a, none, none, _, _, (fun b h => by cases h; exact hB), hR', trivial, fun k cs => ?_, fun k cs => ?_⟩
        · simp only [Prog.served, ha]
        · simp only [Prog.served, ha']
    | some x' => cases htx
  | some x =>
    cases tx' with
    | none => cases htx
    | some x' =>
      rcases hq (S.inTx x.start env) (S.inTx x'.start env') _ _ htx with ⟨e, he, he'⟩ | ⟨a, ws, ws', ha, ha', hB, hR'⟩
      · -- a failure ends the transaction
        refine ⟨.error e, none, none, db, db', (fun a h => by cases h), hR, trivial, fun k cs => ?_, fun k cs => ?_⟩
        · simp only [Prog.served, he]
        · simp only [Prog.served, he']
      · refine ⟨.ok a, some ⟨x.start, x.writes ++ ws⟩, some ⟨x'.start, x'.writes ++ ws'⟩, db, db',
          (fun b h => by cases h; exact hB), hR, ?_, fun k cs => ?_, fun k cs => ?_⟩
        · show R _ _
          rwa [Server.applyAll_append, Server.applyAll_append]
        · simp only [Prog.served, ha]
        · simp only [Prog.served, ha']

/-- **Two runs of a blind program** end alike. -/
theorem Blind.served {A : α → Prop} : ∀ {p : Prog S α}, p.Blind R A → ∀ {tx tx' : Option (Tx S)} {db db' : S.Db}
    {cs cs' : List (Choice S)}, R db db' → TxAlike R db db' tx tx' → List.Forall₂ Choice.Alike cs cs' →
    Option.Rel (fun r r' => r.1 = r'.1 ∧ R r.2 r'.2) (p.served tx db cs) (p.served tx' db' cs') := by
  intro p
  induction p with
  | ret a =>
    intro _ tx tx' db db' cs cs' hR _ hcs
    cases hcs with
    | nil => exact .some ⟨rfl, hR⟩
    | cons => exact .none
  | crash =>
    intro _ tx tx' db db' cs cs' _ _ hcs
    cases hcs <;> exact .none
  | ask q k ih =>
    intro hp tx tx' db db' cs cs' hR htx hcs
    cases hcs with
    | nil => exact .none
    | cons hc hcs =>
      cases hc with
      | go env env' =>
        simp only [Prog.served, hp.1 env env']
        exact ih _ (hp.2 _) hR htx hcs
      | fail | drop => exact .none
  | begin k ih =>
    intro hp tx tx' db db' cs cs' hR htx hcs
    cases hcs with
    | nil => exact .none
    | cons hc hcs =>
      cases hc with
      | go env env' => exact ih _ (hp _) hR (show R db db' from hR) hcs
      | fail => exact ih _ (hp _) hR htx hcs
      | drop => exact .none
  | commit k ih =>
    intro hp tx tx' db db' cs cs' hR htx hcs
    cases hcs with
    | nil => cases tx <;> cases tx' <;> exact .none
    | cons hc hcs =>
      cases hc with
      | go env env' =>
        cases tx with
        | none =>
          cases tx' with
          | none => exact ih _ (hp _) hR trivial hcs
          | some x' => cases htx
        | some x =>
          cases tx' with
          | none => cases htx
          | some x' => exact ih _ (hp _) htx trivial hcs
      | fail => cases tx <;> cases tx' <;> exact ih _ (hp _) hR trivial hcs
      | drop => cases tx <;> cases tx' <;> exact .none
  | stmt q k ih =>
    intro hp tx tx' db db' cs cs' hR htx hcs
    obtain ⟨B, hq, hk⟩ := hp
    cases hcs with
    | nil => cases tx <;> cases tx' <;> exact .none
    | cons hc hcs =>
      cases hc with
      | go env env' =>
        obtain ⟨r, tx₁, tx₁', db₁, db₁', hr, hR₁, htx₁, hs, hs'⟩ := served_stmt hq hR htx env env'
        rw [hs, hs']
        exact ih r (hk r hr) hR₁ htx₁ hcs
      | fail => cases tx <;> cases tx' <;> exact ih _ (hk _ fun a h => by cases h) hR trivial hcs
      | drop => cases tx <;> cases tx' <;> exact .none

/-- The same, for what `R` says of two databases. -/
theorem Blind.served_imp {A : α → Prop} {T : S.Db → S.Db → Prop} {p : Prog S α} (hp : p.Blind R A)
    (hT : ∀ db db', R db db' → T db db') {db db' : S.Db} {cs cs' : List (Choice S)} (hR : R db db')
    (hcs : List.Forall₂ Choice.Alike cs cs') :
    Option.Rel (fun r r' => r.1 = r'.1 ∧ T r.2 r'.2) (p.served none db cs) (p.served none db' cs') := by
  have h := hp.served hR (show TxAlike R db db' none none from trivial) hcs
  generalize p.served none db cs = r at h
  generalize p.served none db' cs' = r' at h
  cases h with
  | none => exact .none
  | some h => exact .some ⟨h.1, hT _ _ h.2⟩

end Prog
end Txn

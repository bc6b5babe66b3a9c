/-
# Display names

`me::update` trims a name, clears a blank one and refuses one over 60
characters. The two upserts write the same column: `enroll` trims and clears
but does not measure, `issue_token` does none of it. `named_iff` says which
runs keep every stored name usable: those in which no upsert of a name that
`me::update` would not have stored goes in.

The listing does not read the column at all: it shows the login. So an entry
is shown under its publisher's chosen name exactly when there is none, or it is
the login (`shown_iff`).

Key definitions: `Usable`, `Db.Named`, `Misnames`, `Upserted`, `Me.shown`,
`Returned`.
Key theorems: `Db.Named.apply`, `named_iff`, `Returned.listed`,
`shown_iff`.
-/
import HarnessRegistry.Installs

namespace HarnessRegistry

open Txn Handler

variable {app : AppState} {db db₀ : Db} {s s' : Registry}

/-! ### Names -/

/-- A name that can be shown: not blank, no blanks around it, not too long. -/
def Usable (n : String) : Prop := n.isEmpty = false ∧ trim n = n ∧ n.toList.length ≤ 60

instance : DecidablePred Usable := fun _ => inferInstanceAs (Decidable (_ ∧ _))

/-- What is left of a name that is trimmed and cleared when blank. -/
theorem usable_of_trim {name : Option String} {n : String} (h : n ∈ (name.map trim).filter (!·.isEmpty))
    (hlen : n.toList.length ≤ 60) : Usable n := by
  obtain ⟨hm, hempty⟩ := Option.mem_filter_iff.mp h
  obtain ⟨m, -, rfl⟩ := Option.mem_map.mp hm
  exact ⟨by simpa using hempty, trim_trim m, hlen⟩

/-- Every stored name is usable. -/
def Db.Named (db : Db) : Prop := ∀ q ∈ db.publishers, ∀ n ∈ q.displayName, Usable n

/-- The write leaves no unusable name behind. -/
def Write.NamesWell (db : Db) : Write → Prop
  | .insertPublisher row => ∀ n ∈ row.displayName, Usable n
  | .enrollPublisher id _ name _ => ∀ q ∈ db.publishers, q.id = id → q.displayName = none → ∀ n ∈ name, Usable n
  | .issuePublisher _ _ name _ | .setDisplayName _ name => ∀ n ∈ name, Usable n
  | _ => True

theorem Db.Named.apply {w : Write} (h : db.Named) (hw : w.NamesWell db) : (w.apply db).Named := by
  intro q hq n hn
  cases w
  case insertPublisher row =>
    rcases Table.exists_of_insert (q := fun x => x = q) ⟨q, hq, rfl⟩ with ⟨x, hx, rfl⟩ | rfl
    · exact h x hx n hn
    · exact hw n hn
  case enrollPublisher id login name avatar =>
    obtain ⟨x, hx, rfl⟩ := List.mem_map.mp hq
    by_cases hid : x.id = id
    · rw [if_pos hid] at hn
      by_cases hnone : x.displayName = none
      · have hn : n ∈ x.displayName.or name := hn
        rw [hnone, Option.none_or] at hn
        exact hw x hx hid hnone n hn
      · obtain ⟨m, hm⟩ := Option.ne_none_iff_exists'.mp hnone
        have hn : n ∈ x.displayName.or name := hn
        rw [hm, Option.some_or, ← hm] at hn
        exact h x hx n hn
    · rw [if_neg hid] at hn
      exact h x hx n hn
  case issuePublisher id login name avatar =>
    obtain ⟨x, hx, rfl⟩ := List.mem_map.mp hq
    by_cases hid : x.id = id
    · rw [if_pos hid] at hn
      rcases Option.or_eq_some_iff.mp hn with hn | ⟨-, hn⟩
      · exact hw n hn
      · exact h x hx n hn
    · rw [if_neg hid] at hn
      exact h x hx n hn
  case setDisplayName id name =>
    obtain ⟨x, hx, rfl⟩ := List.mem_map.mp hq
    by_cases hid : x.id = id
    · rw [if_pos hid] at hn
      exact hw n hn
    · rw [if_neg hid] at hn
      exact h x hx n hn
  case setBlockedAt id at_ =>
    obtain ⟨x, hx, rfl⟩ := List.mem_map.mp hq
    by_cases hid : x.id = id
    · rw [if_pos hid] at hn
      exact h x hx n hn
    · rw [if_neg hid] at hn
      exact h x hx n hn
  all_goals exact h q hq n hn

/-- A write that sets a display name. -/
def Write.names : Write → Bool
  | .insertPublisher _ | .enrollPublisher .. | .issuePublisher .. | .setDisplayName .. => true
  | _ => false

theorem Db.Named.applyAll : ∀ (ws : List Write) {db : Db}, (∀ w ∈ ws, w.names = false) → db.Named →
    (registry.applyAll ws db).Named
  | [], _, _, h => h
  | w :: ws, db, hn, h => by
    have hw : w.NamesWell db := by
      have := hn w List.mem_cons_self
      cases w <;> trivial
    exact Db.Named.applyAll ws (fun v hv => hn v (List.mem_cons_of_mem _ hv)) (h.apply hw)

/-! ### Requests that misname -/

/-- The upsert of the request, on these rows, leaves an unusable name behind:
the operator's name is one, or GitHub's, trimmed, is too long and the publisher
has none yet. -/
def Misnames (app : AppState) (db : Db) : Request → Prop
  | .issueToken _ body _ => ∃ n ∈ body.displayName, ¬ Usable n
  | .poll _ body site _ _ => ∃ github accessToken user, app.github = some github ∧
      github.poll site body.deviceCode = .ok (.authorized accessToken) ∧ GitHub.user site accessToken = .ok user ∧
      (∃ n ∈ user.displayName, 60 < n.toList.length) ∧ ∀ q ∈ db.publishers, q.githubId = user.id → q.displayName = none
  | _ => False

/-- An upsert of a publisher. -/
def Write.upserts : Write → Bool
  | .insertPublisher _ | .enrollPublisher .. | .issuePublisher .. => true
  | _ => false

/-- The upsert of request `r` goes in at the move from `s` to `s'`. -/
def Upserted (r : ℕ) (s s' : Registry) : Prop :=
  ∃ l w, s'.log = s.log ++ l ∧ (some r, w) ∈ l ∧ w.upserts = true

/-- What a request commits leaves no unusable name behind, unless it is one that
misnames. -/
theorem Guar.namesWell {req : Request} {done ws : List Write} (hg : Guar app req done db ws) (hf : registry.Fresh ws db)
    (hno : (∃ w ∈ ws, w.upserts = true) → ¬ Misnames app db req) (h : db.Named) : (registry.applyAll ws db).Named := by
  cases hg with
  | «prelude» _ hp =>
    cases hp with
    | touched => exact Db.Named.applyAll _ (by simp [Write.names]) h
    | @upserted _ body site clock bytes user _ p w hen hu =>
      refine Db.Named.apply (w := w) h ?_
      have hup : w.upserts = true := by cases hu <;> rfl
      obtain ⟨github, accessToken, hgh, hpoll, huser, -⟩ := hen
      -- a name that would be stored is short enough
      have hshort : (∀ q ∈ db.publishers, q.githubId = user.id → q.displayName = none) →
          ∀ n ∈ user.displayName, Usable n := by
        intro hnone n hn
        refine usable_of_trim hn (not_lt.mp fun hlong => ?_)
        exact hno ⟨w, List.mem_singleton_self w, hup⟩
          ⟨github, accessToken, user, hgh, hpoll, huser, ⟨n, hn, hlong⟩, hnone⟩
      cases hu with
      | insert env =>
        refine hshort fun q hq hqg => ?_
        exact absurd ⟨q, hq, (clash_publisher _ _).mpr (.inr hqg)⟩ (not_has_publisher hf)
      | @update q hq hqg =>
        intro x hx hid hnone
        refine hshort fun y hy hyg => ?_
        obtain rfl := PublisherRow.eq_of_githubId hy hq (hyg.trans hqg.symm)
        rwa [← PublisherRow.eq_of_id hx hy hid]
  | effect _ he =>
    cases he with
    | @renamed _ body _ p _ _ hlen =>
      have hname : ∀ n ∈ body.name, Usable n := fun n hn =>
        usable_of_trim hn (hlen n (Option.mem_filter_iff.mp hn).1)
      exact Db.Named.apply (w := .setDisplayName p.id body.name) h hname
    | @issued _ body bytes _ p w _ _ hu =>
      have hname : ∀ n ∈ body.displayName, Usable n := by
        intro n hn
        by_contra hbad
        have hup : w.upserts = true := by cases hu <;> rfl
        exact hno ⟨w, List.mem_cons_self, hup⟩ ⟨n, hn, hbad⟩
      have hnamed : (w.apply db).Named := h.apply (by cases hu <;> exact hname)
      exact Db.Named.applyAll [_] (by simp [Write.names]) hnamed
    | _ => exact Db.Named.applyAll _ (by simp [Write.names]) h

/-- One that misnames, when its upsert goes in, leaves one. -/
theorem Guar.misnamed {req : Request} {done ws : List Write} (hg : Guar app req done db ws) (hf : registry.Fresh ws db)
    (hup : ∃ w ∈ ws, w.upserts = true) (hbad : Misnames app db req) : ¬ (registry.applyAll ws db).Named := by
  intro hnamed
  cases hg with
  | «prelude» _ hp =>
    cases hp with
    | touched => simp [Write.upserts] at hup
    | @upserted _ body site clock bytes user _ p w hen hu =>
      obtain ⟨github, accessToken, hgh, hpoll, huser, -⟩ := hen
      obtain ⟨github', accessToken', user', hgh', hpoll', huser', ⟨n, hn, hlong⟩, hnone⟩ := hbad
      obtain rfl := Option.some.inj (hgh.symm.trans hgh')
      rw [hpoll] at hpoll'
      cases hpoll'
      rw [huser] at huser'
      cases huser'
      have hstored : ∃ q ∈ (w.apply db).publishers, n ∈ q.displayName := by
        cases hu with
        | insert env => exact ⟨_, (Table.mem_insert (not_has_publisher hf)).mpr (.inr rfl), hn⟩
        | @update q hq hqg =>
          refine ⟨_, List.mem_map.mpr ⟨q, hq, if_pos rfl⟩, ?_⟩
          show n ∈ q.displayName.or user.displayName
          rw [hnone q hq hqg, Option.none_or]
          exact hn
      obtain ⟨q, hq, hqn⟩ := hstored
      exact absurd (hnamed q hq n hqn).2.2 (not_le.mpr hlong)
  | effect _ he =>
    cases he with
    | @issued _ body bytes _ p w _ _ hu =>
      obtain ⟨n, hn, hbad⟩ := hbad
      have hstored : ∃ q ∈ (w.apply db).publishers, n ∈ q.displayName := by
        cases hu with
        | insert env => exact ⟨_, (Table.mem_insert (not_has_publisher (fresh_cons hf).1)).mpr (.inr rfl), hn⟩
        | @update q hq hqg =>
          refine ⟨_, List.mem_map.mpr ⟨q, hq, if_pos rfl⟩, ?_⟩
          show n ∈ body.displayName.or q.displayName
          rw [Option.mem_def.mp hn, Option.some_or]
          rfl
      obtain ⟨q, hq, hqn⟩ := hstored
      exact hbad (hnamed q hq n hqn)
    | _ => simp [Write.upserts] at hup

/-! ### Runs -/

theorem Upserted.writes {r r' : ℕ} {ws : List Write} (hl : s'.log = s.log ++ ws.map (some r', ·)) (hup : Upserted r s s') :
    r' = r ∧ ∃ w ∈ ws, w.upserts = true := by
  obtain ⟨l, w, hl', hw, hu⟩ := hup
  obtain rfl := List.append_cancel_left (hl.symm.trans hl')
  obtain ⟨v, hv, he⟩ := List.mem_map.mp hw
  cases he
  exact ⟨rfl, w, hv, hu⟩

/-- **The stored names stay usable exactly in the runs in which no upsert goes
in of a request that misnames.** -/
theorem named_iff (h0 : db₀.Sound) (hn : db₀.Named) (as : List (Action registry Request)) :
    (∀ as₁ s₁, as₁ <+: as → (Registry.start db₀).run (handle app) as₁ = some s₁ → s₁.db.Named) ↔
      ∀ as₁ a r s₁ s₂ t, Pool.Moves (handle app) (Registry.start db₀) as as₁ a s₁ s₂ → s₁.tasks[r]? = some t →
        Upserted r s₁ s₂ → ¬ Misnames app s₁.db t.req := by
  let Bad (_ : List (Action registry Request)) (_ : Action registry Request) (s₁ s₂ : Registry) : Prop :=
    ∃ r t, s₁.tasks[r]? = some t ∧ Upserted r s₁ s₂ ∧ Misnames app s₁.db t.req
  refine (Pool.Moves.holds_iff (B := Bad) hn ?_ ?_).trans ?_
  · intro as₁ a s₁ s₂ hmv hnamed hno
    have hg : Good app s₁ := Reached.good h0 ⟨as₁, hmv.before⟩
    rcases Contract.step_cases hg hmv.step with ⟨hd, -⟩ | ⟨v, hv, hd, -⟩ | ⟨r, t, u, ws, ht, hgu, hf, hd, hl, -⟩
    · rwa [hd]
    · rw [hd]
      refine hnamed.apply ?_
      cases v <;> trivial
    · rw [hd]
      refine hgu.namesWell hf (fun ⟨w, hw, hu⟩ hbad => ?_) hnamed
      exact hno ⟨r, t, ht, ⟨_, w, hl, List.mem_map_of_mem hw, hu⟩, hbad⟩
  · rintro as₁ a s₁ s₂ hmv ⟨r, t, ht, hup, hbad⟩
    have hg : Good app s₁ := Reached.good h0 ⟨as₁, hmv.before⟩
    obtain ⟨l, w, hl, hw, -⟩ := id hup
    rcases Contract.step_cases hg hmv.step with ⟨-, hl', -⟩ | ⟨v, -, -, hl', -⟩ | ⟨r', t', u, ws, ht', hgu, hf, hd, hl', -⟩
    · rw [hl', List.self_eq_append_right] at hl
      rw [hl] at hw
      cases hw
    · obtain rfl := List.append_cancel_left (hl'.symm.trans hl)
      cases List.mem_singleton.mp hw
    · obtain ⟨rfl, hws⟩ := hup.writes hl'
      obtain rfl := Option.some.inj (ht.symm.trans ht')
      rw [hd]
      exact hgu.misnamed hf hws hbad
  · constructor
    · exact fun hno as₁ a r s₁ s₂ t hmv ht hup hbad => hno as₁ a s₁ s₂ hmv ⟨r, t, ht, hup, hbad⟩
    · exact fun hcond as₁ a s₁ s₂ hmv ⟨r, t, ht, hup, hbad⟩ => hcond as₁ a r s₁ s₂ t hmv ht hup hbad

/-- No rows at all. -/
def Sample.nothing : Db := ⟨∅, ∅, ∅, ∅, ∅⟩

/-- The operator mints a token for a GitHub account under a login and a name. -/
def Sample.issueNamed (b : UInt8) (login name : String) : Request :=
  .issueToken (headers "operator") ⟨1000, login, some name, none, "ci"⟩ (bytes b)

/-- One token minted, on empty tables. -/
def Sample.minted (name : String) : List (Action registry Request) := serve 10 0 (issueNamed 0 "ada" name) 4

/-- **A blank name is stored.** -/
theorem blank_name_stored :
    ∃ s, (Registry.start Sample.nothing).run (handle Sample.replica) (Sample.minted "  ") = some s ∧
      s.tasks.map Task.answered = [some (.ok (.issued ⟨11, "ada", "ci", Sample.token 0⟩))] ∧
      ∃ q ∈ s.db.publishers, q.displayName = some "  " ∧ ¬ Usable "  " := by
  have h : ((Registry.start Sample.nothing).run (handle Sample.replica) (Sample.minted "  ")).map
      (fun s => (s.tasks.map Task.answered, s.db.publishers.rows.map PublisherRow.displayName)) =
      some ([some (.ok (.issued ⟨11, "ada", "ci", Sample.token 0⟩))], [some "  "]) := by decide +kernel
  obtain ⟨s, hs, he⟩ := Option.map_eq_some_iff.mp h
  obtain ⟨ha, hq⟩ := Prod.mk.inj he
  obtain ⟨q, hq, hn⟩ := List.mem_map.mp (hq ▸ List.mem_singleton_self (some "  "))
  exact ⟨s, hs, ha, q, hq, hn, by decide +kernel⟩

/-- With a name that can be shown, all names stay usable. -/
theorem named_iff_minted :
    ∃ s, (Registry.start Sample.nothing).run (handle Sample.replica) (Sample.minted "Ada") = some s ∧
      ∀ as₁ s₁, as₁ <+: Sample.minted "Ada" →
        (Registry.start Sample.nothing).run (handle Sample.replica) as₁ = some s₁ → s₁.db.Named := by
  have h : ((Registry.start Sample.nothing).run (handle Sample.replica) (Sample.minted "Ada")).isSome = true := by
    decide +kernel
  obtain ⟨s, hs⟩ := Option.isSome_iff_exists.mp h
  have h0 : Sample.nothing.Sound := (show Sample.nothing.Initial from ⟨rfl, rfl, rfl⟩).sound
  have hn : Sample.nothing.Named := by
    intro q hq
    cases hq
  refine ⟨s, hs, (named_iff h0 hn _).mpr fun as₁ a r s₁ s₂ t hmv ht _ => ?_⟩
  -- only one request arrives
  obtain ⟨as₂, hsplit⟩ := hmv.rest
  have hreqs : (as₁ ++ a :: as₂).filterMap Action.request? = [Sample.issueNamed 0 "ada" "Ada"] := hsplit ▸ rfl
  have hmem : t.req ∈ as₁.filterMap Action.request? := by
    have hall := Pool.reqs_run hmv.before
    rw [show (Registry.start Sample.nothing).tasks.map Task.req = [] from rfl, List.nil_append] at hall
    exact hall ▸ List.mem_map_of_mem (List.mem_of_getElem? ht)
  have hreq : t.req = Sample.issueNamed 0 "ada" "Ada" := by
    rw [← List.mem_singleton, ← hreqs, List.filterMap_append]
    exact List.mem_append_left _ hmem
  rw [hreq]
  rintro ⟨n, hn, hbad⟩
  obtain rfl := Option.some.inj hn
  exact hbad (by decide +kernel)

/-! ### What entries are shown under -/

/-- The name an entry is shown under, as `GET /v1/me` has it. -/
def Me.shown (me : Me) : String := me.displayName.getD me.githubLogin

/-- The publisher has chosen no name, or the login. -/
def PublisherRow.Plainly (q : PublisherRow) : Prop := q.displayName = none ∨ q.displayName = some q.githubLogin

/-- `detail` or `list` answers with the entry. -/
def Returned (app : AppState) (env : Env) (db : Db) (row : WorkflowSummary) : Prop :=
  (∃ slug db', (handle app (.detail slug)).alone (S := registry) env none db = some (.ok (.summary row), db')) ∨
    ∃ params rows db', (handle app (.list params)).alone (S := registry) env none db =
      some (.ok (.summaries rows), db') ∧ row ∈ rows

/-- What is returned is a listed workflow, under its publisher's login. -/
theorem Returned.listed {env : Env} {row : WorkflowSummary} (h : Returned app env db row) :
    ∃ w ∈ db.workflows, w.slug = row.slug ∧ w.unlistedAt = none ∧
      ∃ q ∈ db.publishers, q.id = w.publisherId ∧ row.publisher = q.githubLogin := by
  obtain ⟨w, hw, hl, hsum⟩ : ∃ w ∈ db.workflows, w.unlistedAt = none ∧ db.summary env.now w = some row := by
    rcases h with ⟨slug, db', h⟩ | ⟨params, rows, db', h, hrow⟩
    · obtain ⟨-, -, w, hw, -, hl, found, hsum, he⟩ := alone_detail_iff.mp h
      cases he
      exact ⟨w, hw, hl, hsum⟩
    · exact alone_list h row hrow
  obtain ⟨q, hq, rfl⟩ := Option.map_eq_some_iff.mp hsum
  obtain ⟨hq, hid⟩ := Table.mem_of_find? hq
  exact ⟨w, hw, rfl, hl, q, hq, by simpa using hid, rfl⟩

theorem login_eq_shown (q : PublisherRow) : q.githubLogin = q.me.shown ↔ q.Plainly := by
  unfold PublisherRow.Plainly Me.shown PublisherRow.me
  cases q.displayName with
  | none => simp
  | some n => simp [eq_comm]

/-- `GET /v1/me` answers with the row. -/
theorem alone_me (env : Env) {q : PublisherRow} (hq : q ∈ db.publishers) (login : String) :
    alone env (Me.get ⟨q.id, login⟩) db = some (.ok (.me q.me), db) := by
  have hfind : db.publishers.find? (fun p => p.id == q.id) = some q := PublisherRow.find_iff.mpr ⟨hq, rfl⟩
  have hx : Stmt.exec env (.publisherById q.id) db = .ok (q.me, []) := by
    rw [exec_eq_run (by simp [Stmt.texts])]
    simp only [Stmt.run, hfind]
  unfold Me.get
  rw [query, alone_ok hx]
  rfl

/-- A change of name that succeeds is in the row as soon as it is answered. -/
theorem Reached.renamed (h0 : db₀.Sound) (h : Reached app db₀ s) {r : ℕ} {c : Choice registry} {t t' : Call}
    {headers : HeaderMap} {body : UpdateMe} {reply : Reply} (hst : s.step (handle app) (.task r c) = some s')
    (ht : s.tasks[r]? = some t) (hreq : t.req = .updateMe headers body) (ht' : s'.tasks[r]? = some t')
    (ha : t'.answered = some (.ok reply)) :
    ∃ q ∈ s'.db.publishers, Holder app s.db headers q.id ∧ q.displayName = body.name := by
  have hpl : ¬ Plain t.req reply := by
    rw [hreq]
    intro hp
    cases hp
  obtain ⟨ws, reply', he, -, hd⟩ := h.answering_effect h0 hst ht ht' ha hpl
  rw [hreq] at he
  rw [hd]
  cases he with
  | @renamed _ _ _ p hp hh _ => exact ⟨_, List.mem_map.mpr ⟨p, hp, if_pos rfl⟩, hh, rfl⟩

/-- **An entry is shown under its publisher's name exactly when that name is
the login.** Whatever `detail` or `list` returns is a listed workflow, and
every listed workflow is returned; the name it is shown under is the one that
`GET /v1/me` gives if and only if the publisher has chosen none, or the login.
So it is after a change of name: until the row is written again, the entries
are shown under the name it was changed to, or the login if it was cleared, if
and only if it was cleared or is the login. -/
theorem shown_iff (h0 : db₀.Initial) (h : Reached app db₀ s) :
    (∀ w ∈ s.db.workflows, w.unlistedAt = none → ∀ env, ∃ row, Returned app env s.db row ∧ row.slug = w.slug) ∧
    (∀ env row, Returned app env s.db row → ∃ w ∈ s.db.workflows, w.slug = row.slug ∧ w.unlistedAt = none ∧
      ∃ q ∈ s.db.publishers, q.id = w.publisherId ∧
        (∀ login, (Me.get ⟨q.id, login⟩).run.alone (S := registry) env none s.db = some (.ok (.me q.me), s.db)) ∧
        (row.publisher = q.me.shown ↔ q.Plainly)) ∧
    ∀ (r : ℕ) (c : Choice registry) (s' : Registry) (t t' : Call) (headers : HeaderMap) (body : UpdateMe) (reply : Reply),
      s.step (handle app) (.task r c) = some s' → s.tasks[r]? = some t → t.req = .updateMe headers body →
      s'.tasks[r]? = some t' → t'.answered = some (.ok reply) →
      ∃ q ∈ s'.db.publishers, Holder app s.db headers q.id ∧ q.displayName = body.name ∧
        ∀ as u, s'.run (handle app) as = some u → q ∈ u.db.publishers → ∀ env row, Returned app env u.db row →
          ∀ w ∈ u.db.workflows, w.slug = row.slug → w.publisherId = q.id →
            (row.publisher = body.name.getD q.githubLogin ↔ body.name = none ∨ body.name = some q.githubLogin) := by
  refine ⟨fun w hw hl env => ?_, fun env row hrow => ?_, ?_⟩
  · obtain ⟨row, hsum, ha⟩ := alone_detail env (h.good h0.sound).sound hw hl (h.slugs h0 w hw)
    exact ⟨row, .inl ⟨w.slug, s.db, ha⟩, (summary_eq_some hsum).1⟩
  · obtain ⟨w, hw, hslug, hl, q, hq, hid, hpub⟩ := hrow.listed
    refine ⟨w, hw, hslug, hl, q, hq, hid, fun login => alone_me env hq login, ?_⟩
    rw [hpub]
    exact login_eq_shown q
  · intro r c s' t t' headers body reply hst ht hreq ht' ha
    obtain ⟨q, hq, hh, hname⟩ := h.renamed h0.sound hst ht hreq ht' ha
    refine ⟨q, hq, hh, hname, fun as u _ hqu env row hrow w hw hslug hown => ?_⟩
    obtain ⟨w', hw', hslug', -, q', hq', hid', hpub⟩ := hrow.listed
    obtain rfl := WorkflowRow.eq_of_slug hw hw' (hslug.trans hslug'.symm)
    obtain rfl := PublisherRow.eq_of_id hq' hqu (hid'.trans hown)
    rw [hpub, ← hname]
    exact login_eq_shown q'

/-- A publisher with an entry gives itself a name, but for the last move. -/
def Sample.renaming : List (Action registry Request) :=
  serve 10 0 (create 0 "first") 7 ++ serve 20 1 (.updateMe (headers (token 0)) ⟨some "Ada Lovelace"⟩) 2

def Sample.renames : Action registry Request := .task 1 (.go (env 22))

/-- **The entry is shown under the login all the same.** -/
theorem renamed_shown_as_login :
    ∃ s, (Registry.start Sample.library).run (handle Sample.replica) (Sample.renaming ++ [Sample.renames]) = some s ∧
      s.tasks.map Task.answered = [some (.ok (.published "first" 1)), some (.ok (.me ⟨"ada", some "Ada Lovelace", none⟩))] ∧
      ∃ row, Returned Sample.replica (Sample.env 50) s.db row ∧ row.slug = "first" ∧ row.publisher = "ada" := by
  have h : ((Sample.after (Sample.renaming ++ [Sample.renames])).map fun s => (s.tasks.map Task.answered,
      ((handle Sample.replica (.detail "first")).alone (S := registry) (Sample.env 50) none s.db).map (·.1))) =
      some ([some (.ok (.published "first" 1)), some (.ok (.me ⟨"ada", some "Ada Lovelace", none⟩))],
        some (.ok (.summary ⟨"first", "Title", "What it does", [], false, "ada", some 1, 0, 13000000⟩))) := by
    decide +kernel
  obtain ⟨s, hs, he⟩ := Option.map_eq_some_iff.mp h
  obtain ⟨ha, hd⟩ := Prod.mk.inj he
  obtain ⟨⟨out, db'⟩, hd, rfl⟩ := Option.map_eq_some_iff.mp hd
  exact ⟨s, hs, ha, _, .inl ⟨"first", db', hd⟩, rfl, rfl⟩

/-- The last move of the renaming: none of the publisher's entries is shown
under the new name. -/
theorem shown_iff_renamed :
    ∃ s s', Reached Sample.replica Sample.library s ∧ s.step (handle Sample.replica) Sample.renames = some s' ∧
      ∃ q ∈ s'.db.publishers, q.displayName = some "Ada Lovelace" ∧
        ∀ env row, Returned Sample.replica env s'.db row → ∀ w ∈ s'.db.workflows, w.slug = row.slug →
          w.publisherId = q.id → row.publisher ≠ "Ada Lovelace" := by
  have h : ((Sample.after Sample.renaming).bind fun s => (s.step (handle Sample.replica) Sample.renames).map fun s' =>
      (s'.tasks[1]?.bind Task.answered, s'.db.publishers.rows.map PublisherRow.githubLogin)) =
      some (some (.ok (.me ⟨"ada", some "Ada Lovelace", none⟩)), ["ada", "bob"]) := by decide +kernel
  obtain ⟨s, hs, h⟩ := Option.bind_eq_some_iff.mp h
  obtain ⟨s', hst, he⟩ := Option.map_eq_some_iff.mp h
  obtain ⟨ha, hlogins⟩ := Prod.mk.inj he
  obtain ⟨t', ht', ha⟩ := Option.bind_eq_some_iff.mp ha
  -- the second of the two requests
  have hreqs : s.tasks.map Task.req = _ := Pool.reqs_run hs
  have hreq₁ : (s.tasks.map Task.req)[1]? = some (.updateMe (Sample.headers (Sample.token 0)) ⟨some "Ada Lovelace"⟩) := by
    rw [hreqs]
    rfl
  rw [List.getElem?_map] at hreq₁
  obtain ⟨t, ht, hreq⟩ := Option.map_eq_some_iff.mp hreq₁
  obtain ⟨q, hq, -, hname, hshow⟩ := (shown_iff Sample.initial ⟨_, hs⟩).2.2 1 _ s' t t' _ _ _ hst ht hreq ht' ha
  refine ⟨s, s', ⟨_, hs⟩, hst, q, hq, by rw [hname]; decide +kernel, fun env row hrow w hw hslug hown hpub => ?_⟩
  have hlogin : q.githubLogin ∈ ["ada", "bob"] := hlogins ▸ List.mem_map_of_mem hq
  have hbody : (⟨some "Ada Lovelace"⟩ : UpdateMe).name = some "Ada Lovelace" := by decide +kernel
  rcases (hshow [] s' rfl hq env row hrow w hw hslug hown).mp (by rw [hbody]; exact hpub) with hn | hn
  · rw [hbody] at hn
    cases hn
  · rw [hbody] at hn
    rw [← Option.some.inj hn] at hlogin
    revert hlogin
    decide

end HarnessRegistry

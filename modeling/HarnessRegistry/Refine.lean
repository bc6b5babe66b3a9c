/-
# The service is the desk

`Registry.desk` reads a run of the service as a desk: the catalogue of its
tables, and of every request what it has seen, and its answer. Statements,
transactions, locks and rows are gone, and every move of the service, whatever
the others do, is one step of the desk (`step_refines`). So a request takes
effect at once, at one of its looks, and each run of the service is a run of the
desk (`refines`).

Key definitions: `Registry.desk`.
Key theorems: `Grounds.said`, `Effect.acts`, `attends_move`, `step_refines`, `refines`, `catalogue_grows`,
`catalogue_accounted`.
-/
import HarnessRegistry.Projection
import HarnessRegistry.Grounded
import HarnessRegistry.Enroll

namespace HarnessRegistry

open Txn

variable {app : AppState} {db db₀ : Db} {req : Request} {ms : Moments} {out : Except Error Reply} {h : HeaderMap}

/-- A moment, as a look. -/
def Look.of (m : Moment registry) : Look :=
  ⟨m.db.catalogue, (registry.applyAll m.writes m.db).catalogue, m.choice.env?, m.refusal⟩

def looksOf (ms : Moments) : List Look := ms.map Look.of

/-- The moments of a request that is at `db` now. -/
structure Upto (ms : Moments) (db : Db) : Prop where
  sound : ∀ m ∈ ms, m.db.Sound
  grows : ∀ m ∈ ms, m.db.Grows db
  last : ∀ m, ms.getLast? = some m → m.db = db

theorem mem_looksOf {m : Moment registry} (hm : m ∈ ms) : Look.of m ∈ looksOf ms := List.mem_map_of_mem hm

theorem last_looksOf {m : Moment registry} (hm : ms.getLast? = some m) : (looksOf ms).getLast? = some (Look.of m) := by
  rw [looksOf, List.getLast?_map, hm]
  rfl

theorem Upto.atLast {refusal : Option SqlError} {ws : List Write} {P : Env → Db → Prop} (hu : Upto ms db)
    (hp : AtLast ms refusal ws P) : ∃ env, ms.getLast? = some ⟨db, .go env, refusal, ws⟩ ∧ LastLook (looksOf ms) env ∧
      P env db := by
  obtain ⟨env, db', hl, hp⟩ := hp
  obtain rfl := hu.last _ hl
  exact ⟨env, hl, ⟨_, last_looksOf hl, rfl⟩, hp⟩

/-- A write is dated by one of the looks. -/
theorem Dated.timed {w : Write} {now : Timestamp} (hd : Dated ms w) (hw : w.date = some now) : Timed (looksOf ms) now := by
  obtain ⟨m, hm, env, hc, hnow⟩ := hd now hw
  exact ⟨_, mem_looksOf hm, env, by rw [Look.of, hc]; rfl, hnow⟩

/-! ### Who comes -/

theorem presents_of_mem {token : String} {t : TokenRow} (hb : bearer h = some token) (ht : t ∈ db.tokens)
    (hh : t.tokenHash = hashToken app.sha256 token) : db.catalogue.Presents app h t.credential :=
  ⟨token, hb, hh ▸ Db.credentials_of_mem ht⟩

theorem Holder.borne {p : Uuid} (hh : Holder app db h p) : db.catalogue.Bears app h p := by
  obtain ⟨token, hb, ⟨t, ht, hth, htp⟩, r, hr, rfl⟩ := hh
  refine ⟨t.credential, presents_of_mem hb ht hth, htp, ?_⟩
  rw [Db.accounts_of_mem hr]
  exact Option.some_ne_none _

theorem Db.Live.holder {token : String} {p : PublisherRow} (hb : bearer h = some token)
    (hl : db.Live (hashToken app.sha256 token) p) : Holder app db h p.id := by
  obtain ⟨hp, t, ht, hth, -, htp⟩ := hl
  exact ⟨token, hb, ⟨t, ht, hth, htp⟩, p, hp, rfl⟩

theorem Db.Live.admits {token : String} {p : PublisherRow} (hb : bearer h = some token)
    (hl : db.Live (hashToken app.sha256 token) p) (hn : p.blockedAt = none) : db.catalogue.Admits app h p.id := by
  obtain ⟨hp, t, ht, hth, hr, htp⟩ := hl
  exact ⟨t.credential, p.account, presents_of_mem hb ht hth, hr, htp, Db.accounts_of_mem hp, hn⟩

/-- Who was let in, was as somebody. -/
theorem Admission.admitted (hadm : Admission app ms req) (hreq : req.publisher? = some h) :
    ∃ p, ∃ m ∈ ms, Holder app m.db h p ∧ m.db.catalogue.Admits app h p := by
  obtain ⟨token, hb, m, hm, env, -, -, p, hl, hn⟩ := hadm.publisher h hreq
  exact ⟨p.id, m, hm, hl.holder hb, hl.admits hb hn⟩

theorem Admission.letIn (hadm : Admission app ms req) : LetIn app (looksOf ms) req := by
  refine ⟨fun l h hreq => ?_, fun h hreq => ?_, hadm.operator⟩
  · obtain ⟨m, hm, env, hc, -, hadmits⟩ := hadm.limiter l h hreq
    exact ⟨_, mem_looksOf hm, env, by rw [Look.of, hc]; rfl, hadmits⟩
  · obtain ⟨p, m, hm, -, ha⟩ := hadm.admitted hreq
    exact ⟨p, _, mem_looksOf hm, ha⟩

/-- A token is the same account's at all times. -/
theorem Admission.as (hadm : Admission app ms req) (hu : Upto ms db) (hreq : req.publisher? = some h) {p : Uuid}
    (hp : Holder app db h p) : Admitted app (looksOf ms) h p := by
  obtain ⟨q, m, hm, hq, ha⟩ := hadm.admitted hreq
  obtain rfl := (hq.grows (hu.grows _ hm)).unique hp
  exact ⟨_, mem_looksOf hm, ha⟩

/-! ### Answers -/

/-- Nothing that shows in the catalogue. -/
def Idle (ws : List Write) : Prop := ∀ w ∈ ws, ∃ x now, w = .touchToken x now

theorem Idle.preparing {ws : List Write} (h : Idle ws) : Preparing ws := by
  intro w hw
  obtain ⟨x, now, rfl⟩ := h w hw
  rfl

theorem SignIn.not_idle {user : GitHubUser} {p : Uuid} {x : Write} {blockedAt : Option Timestamp}
    (h : SignIn db user p x blockedAt) : ¬ Idle [x] := by
  intro hi
  obtain ⟨y, now, rfl⟩ := hi x List.mem_cons_self
  obtain ⟨-, hup, -⟩ := h
  cases hup

/-- An answer with its grounds, and nothing done with it, is one that the desk gives. -/
theorem Grounds.said (hs : db.Sound) (hu : Upto ms db) (hq : ∀ m, ms.getLast? = some m → Idle m.writes)
    (hg : Grounds app ms req out) : Says app (looksOf ms) db.catalogue req out := by
  cases hg with
  | fault hf =>
    obtain ⟨m, hm, he, -⟩ := hf
    exact .fault (last_looksOf hm) he
  | throttled hreq hl =>
    obtain ⟨env, -, hlook, hno⟩ := hu.atLast hl
    exact .throttled hreq hlook hno
  | anonymous hreq hb =>
    refine .unauthorized hreq ?_
    rintro t ⟨token, hb', -⟩
    rw [hb] at hb'
    cases hb'
  | unknownToken hreq hb hl =>
    obtain ⟨env, -, -, hl⟩ := hu.atLast hl
    refine .unauthorized hreq ?_
    rintro t ⟨token, hb', ht⟩ hr
    obtain rfl := Option.some.inj (hb.symm.trans hb')
    obtain ⟨r, hrm, hrh, rfl⟩ := Db.credentials_eq_some.mp ht
    exact Db.accounts_eq_none.mpr fun p hp he => hl p ⟨hp, r, hrm, hrh, hr, he.symm⟩
  | blocked hreq hb hl =>
    obtain ⟨env, -, -, p, ⟨hp, t, ht, hth, hr, htp⟩, hbl⟩ := hu.atLast hl
    refine .blocked (a := p.account) hreq (presents_of_mem hb ht hth) hr ?_ hbl
    exact (congrArg _ htp).trans (Db.accounts_of_mem hp)
  | notOperator hreq he => exact .notOperator hreq he
  | merits hadm hm =>
    have refused : ∀ {e}, db.catalogue.Refuses app (looksOf ms) req e → Says app (looksOf ms) db.catalogue req (.error e) :=
      fun hr => .refuses hadm.letIn hr
    have shown : ∀ {r}, db.catalogue.Shows app (looksOf ms) req r → Says app (looksOf ms) db.catalogue req (.ok r) :=
      fun hr => .shows hadm.letIn hr
    cases hm with
    | invalid hc => exact refused (.invalid hc)
    | atCap hl hpos hle =>
      obtain ⟨env, -, -, hh, rfl⟩ := hu.atLast hl
      rw [← Db.listed_catalogue] at hle ⊢
      exact refused (.atCap hh.borne hpos hle)
    | slugTaken hl =>
      obtain ⟨env, -, hlook, w, hw, hslug | hid⟩ := hu.atLast hl
      · refine refused (.slugTaken ?_)
        rw [← hslug, Db.packages_of_mem hw]
        exact Option.some_ne_none _
      · exact refused (.unlucky hlook (Db.packages_of_mem hw) hid)
    | notTheirs hreq hl =>
      obtain ⟨env, -, -, hh, hw⟩ := hu.atLast hl
      refine refused (.notTheirs hreq hh.borne fun k hk => ?_)
      obtain ⟨w, hwm, hslug, rfl⟩ := Db.packages_eq_some.mp hk
      exact hw w hwm hslug
    | overtaken ho hl =>
      obtain ⟨env, -, -, w, hw, hslug, hn⟩ := hu.atLast hl
      obtain ⟨m, hm, -, -, -, w', hw', hslug', hnum⟩ := ho
      refine refused (.overtaken (mem_looksOf hm) (hslug' ▸ Db.packages_of_mem hw') (hslug ▸ Db.packages_of_mem hw) ?_)
      -- the number was the next one then, and is in use now
      obtain ⟨hlen, hpos⟩ := Db.length_releases (hu.sound _ hm) hw'
      have hthen := hlen.unique hnum (by omega)
      have hnow := (((Db.length_releases hs hw).1 _).mp hn).2
      omega
    | unknownWorkflow hreq hl =>
      obtain ⟨env, -, -, hw⟩ := hu.atLast hl
      exact refused (.unknownPackage hreq (Db.packages_eq_none.mpr hw))
    | notListed hl =>
      obtain ⟨env, -, -, hw⟩ := hu.atLast hl
      refine refused (.notListed fun k hk => ?_)
      obtain ⟨w, hwm, hslug, rfl⟩ := Db.packages_eq_some.mp hk
      exact hw w hwm hslug
    | unknownVersion hreq hl =>
      obtain ⟨env, -, -, w, hw, hslug, hn⟩ := hu.atLast hl
      refine refused (.unknownVersion hreq (hslug ▸ Db.packages_of_mem hw) ?_)
      rwa [Db.published_package hs hw]
    | unknownInstall hl =>
      obtain ⟨env, -, -, w, hw, hslug, hi⟩ := hu.atLast hl
      exact refused (.unknownInstall (hslug ▸ Db.packages_of_mem hw) (Db.installs_eq_none.mpr hi))
    | unknownPublisher hl =>
      obtain ⟨env, -, -, hp⟩ := hu.atLast hl
      refine refused (.unknownAccount fun p a ha => ?_)
      obtain ⟨r, hr, -, rfl⟩ := Db.accounts_eq_some.mp ha
      exact hp r hr
    | notStarted he => exact refused (.notStarted he)
    | notEnrolled he => exact refused (.notEnrolled he)
    | blockedAccount _ hl =>
      obtain ⟨env, hlast, -, hin⟩ := hu.atLast hl
      exact absurd (hq _ hlast) hin.not_idle
    | collision hl =>
      obtain ⟨env, -, -, t, ht, hth⟩ := hu.atLast hl
      refine refused (.collision ?_)
      rw [← hth, Db.credentials_of_mem ht]
      exact Option.some_ne_none _
    | page hl =>
      obtain ⟨env, -, hlook, rfl⟩ := hu.atLast hl
      exact shown (Db.shows_page hs hlook _)
    | summary hl =>
      obtain ⟨env, -, hlook, w, hw, rfl, hl, hsum⟩ := hu.atLast hl
      exact shown (.summary hlook (Db.packages_of_mem hw) hl ((Db.summary_catalogue hs hw env.now).trans hsum))
    | versions hl =>
      obtain ⟨env, -, -, w, hw, rfl, rfl⟩ := hu.atLast hl
      have hshow : db.catalogue.Shows app (looksOf ms) (.versions w.slug) _ := .versions (Db.packages_of_mem hw)
      rw [Db.numbered_package hs hw, ← List.map_reverse, List.reverse_reverse, List.map_map] at hshow
      exact shown hshow
    | document hl =>
      obtain ⟨env, -, -, w, hw, rfl, v, hv, rfl, rfl⟩ := hu.atLast hl
      exact shown (.document (Db.packages_of_mem hw) ((Db.mem_numbered hs hw).mpr ⟨v, hv, rfl⟩))
    | profile hl =>
      obtain ⟨env, -, -, r, hr, hh, rfl⟩ := hu.atLast hl
      exact shown (.profile hh.borne (Db.accounts_of_mem hr))
    | offered => exact shown .offered
    | started he => exact shown (.started he)
    | unfinished he => exact shown (.unfinished he)
    | created _ hl | enrolled _ _ hl | effect _ _ hl =>
      obtain ⟨env, hlast, -, he, -⟩ := hu.atLast hl
      exact absurd (hq _ hlast).preparing (he.not_preparing [])

/-! ### Effects -/

theorem accounts_free {r : PublisherRow} (hf : registry.Fresh [.insertPublisher r] db) :
    db.catalogue.accounts r.id = none ∧ ∀ q a, db.catalogue.accounts q = some a → a.githubId ≠ r.githubId := by
  refine ⟨Db.accounts_eq_none.mpr fun p hp he => ?_, fun q a ha he => ?_⟩
  · exact hf.2 (.publisher r.id) (by simp [Write.claims]) ⟨p, hp, he⟩
  · obtain ⟨p, hp, -, rfl⟩ := Db.accounts_eq_some.mp ha
    exact hf.2 (.githubId r.githubId) (by simp [Write.claims]) ⟨p, hp, he⟩

theorem credentials_free {t : TokenRow} (hf : registry.Fresh [.insertToken t] db) :
    db.catalogue.credentials t.tokenHash = none :=
  Db.credentials_eq_none.mpr fun u hu he => hf.2 (.token t.tokenHash) (by simp [Write.claims]) ⟨u, hu, he⟩

/-- `INSERT … ON CONFLICT (github_id) DO UPDATE` opens the account or brings it up
to date. -/
theorem Upserts.registers {conflict : Uuid → Write} {g : ℤ} {login : String} {name avatar : Option String} {p : Uuid}
    {w : Write} {f : Account → Account} (hu : Upserts conflict g login name avatar db p w) (hf : registry.Fresh [w] db)
    (hc : ∀ r ∈ db.publishers, ((conflict r.id).apply db).catalogue = db.catalogue.setAccount r.id (f r.account)) :
    db.catalogue.Registers g login name avatar f p (w.apply db).catalogue := by
  cases hu with
  | insert env =>
    obtain ⟨hid, hg⟩ := accounts_free hf
    rw [Db.catalogue_insertPublisher hf]
    exact .opened hid hg
  | update hp hg =>
    rw [hc _ hp]
    exact .known (Db.accounts_of_mem hp) hg

theorem Upserts.enters {body : IssueToken} {p : Uuid} {w : Write} (hu : Upserts.issue body db p w)
    (hf : registry.Fresh [w] db) : db.catalogue.Enters body p (w.apply db).catalogue :=
  Upserts.registers hu hf fun _ hr => Db.catalogue_setPublisher hr

theorem Upserts.signsIn {user : GitHubUser} {p : Uuid} {w : Write} (hu : Upserts.enroll user db p w)
    (hf : registry.Fresh [w] db) : db.catalogue.SignsIn user p (w.apply db).catalogue :=
  Upserts.registers hu hf fun _ hr => Db.catalogue_setPublisher hr

/-- The account of a sign-in, as the catalogue has it then. -/
theorem SignIn.account {user : GitHubUser} {p : Uuid} {x : Write} {blockedAt : Option Timestamp}
    (h : SignIn db user p x blockedAt) : db.catalogue.SignsIn user p (x.apply db).catalogue ∧
      ∃ a, (x.apply db).catalogue.accounts p = some a ∧ a.blockedAt = blockedAt := by
  obtain ⟨hf, hup, r, hr, rfl, hb⟩ := h
  exact ⟨hup.signsIn hf, r.account, Db.accounts_of_mem hr, hb⟩

theorem SignedIn.into {user : GitHubUser} {p : Uuid} (h : SignedIn ms user p) : SignedInto (looksOf ms) user p := by
  obtain ⟨m, hm, x, hw, hx⟩ := h
  have hafter : (Look.of m).after = (x.apply m.db).catalogue := by
    rw [Look.of, hw]
    rfl
  obtain ⟨hsign, hacc⟩ := hx.account
  exact ⟨_, mem_looksOf hm, by rw [hafter]; exact hsign, by rw [hafter]; exact hacc⟩

/-- **The effect of a request is the act of the desk.** -/
theorem Effect.acts {ws : List Write} {reply : Reply} (he : Effect app req db ws reply) (hf : registry.Fresh ws db)
    (hs : db.Sound) (hu : Upto ms db) (hadm : Admission app ms req) (hd : ∀ w ∈ ws, Dated ms w)
    (hroom : ∀ h body, req = .create h body → 0 < app.config.maxWorkflowsPerPublisher →
      Once ms fun _ db => ∃ p, Holder app db h p ∧ (db.listed p : ℤ) < app.config.maxWorkflowsPerPublisher)
    (hin : ∀ h body site clock bytes user p, req = .poll h body site clock bytes → Enrolls app body site clock user →
      reply = .enrolled (generateToken bytes) p user.login → SignedIn ms user p) :
    Acts app (looksOf ms) db.catalogue req reply (registry.applyAll ws db).catalogue := by
  cases he with
  | @created h body _ p env hh hval =>
    rw [Db.catalogue_created hs hf rfl]
    refine .created (hadm.as hu rfl hh) hval (fun hpos => ?_) (Db.packages_eq_none.mpr fun w hw he => ?_)
      (fun slug k hk he => ?_) ((hd _ (List.mem_cons_of_mem _ List.mem_cons_self)).timed rfl)
    · obtain ⟨m, hm, -, -, -, q, hq, hlt⟩ := hroom h body rfl hpos
      obtain rfl := (hq.grows (hu.grows _ hm)).unique hh
      exact ⟨_, mem_looksOf hm, by rw [Look.of, Db.listed_catalogue]; exact hlt⟩
    · exact (fresh_cons hf).1.2 (.slug body.slug) (by simp [Write.claims, WorkflowRow.inserted]) ⟨w, hw, he⟩
    · obtain ⟨w, hw, -, rfl⟩ := Db.packages_eq_some.mp hk
      exact (fresh_cons hf).1.2 (.workflow env.uuid) (by simp [Write.claims, WorkflowRow.inserted]) ⟨w, hw, he⟩
  | @published h slug body _ w n now hw hslug hh hval hn =>
    subst hslug
    obtain ⟨hnum, hpos⟩ := Db.length_releases hs hw
    have hlen : n = (db.package w).releases.length + 1 := by
      have := hnum.unique hn (by omega)
      omega
    rw [Db.catalogue_published hs hw hf rfl hlen, hlen]
    exact .published (Db.packages_of_mem hw) (hadm.as hu rfl hh) hval ((hd _ List.mem_cons_self).timed rfl)
  | @amended h slug body _ w now hw hslug hh hval =>
    subst hslug
    have hc : (registry.applyAll [.amend w.id body.title body.description body.tags now] db).catalogue = _ :=
      Db.catalogue_setWorkflow hw
    rw [hc]
    exact .amended (Db.packages_of_mem hw) (hadm.as hu rfl hh) hval ((hd _ List.mem_cons_self).timed rfl)
  | @unlisted h slug _ w now hw hslug hh =>
    subst hslug
    have hc : (registry.applyAll [.unlist w.id now] db).catalogue = _ := Db.catalogue_setWorkflow hw
    rw [hc]
    exact .unlisted (Db.packages_of_mem hw) (hadm.as hu rfl hh) ((hd _ List.mem_cons_self).timed rfl)
  | @renamed h body _ p hp hh hlen =>
    have hc : (registry.applyAll [.setDisplayName p.id body.name] db).catalogue = _ := Db.catalogue_setPublisher hp
    rw [hc]
    exact .renamed (hadm.as hu rfl hh) (Db.accounts_of_mem hp) hlen
  | @recorded h slug body _ w now hw hslug hk =>
    subst hslug
    have hc := Db.catalogue_installs hw (Table.row_insert Db.unique_install (not_has_install hf))
    refine hc ▸ .recorded (Db.packages_of_mem hw) ?_ ((hd _ List.mem_cons_self).timed rfl)
    rwa [Db.published_package hs hw]
  | @refreshed h slug body _ w i now hw hslug hk hi hiw hii =>
    subst hslug
    have hc := Db.catalogue_installs hw (Db.row_setInstall
      (f := fun r => { r with version := body.version, lastSeenAt := now }) hi hiw hii fun _ => rfl)
    refine hc ▸ .recorded (Db.packages_of_mem hw) ?_ ((hd _ List.mem_cons_self).timed rfl)
    rwa [Db.published_package hs hw]
  | @forgot h slug iid _ w i hw hslug hi hiw hii =>
    subst hslug
    have hrow := Table.row_delete (t := db.installs) (b := (w.id, iid))
      (p := fun r => r.workflowId == w.id && r.installationId == iid) Db.unique_install fun r => by
        simp [InstallRow.place]
    have hc := Db.catalogue_installs hw hrow
    refine hc ▸ .forgot (Db.packages_of_mem hw) ?_
    rw [ne_eq, Db.installs_eq_none]
    exact fun hno => hno i hi ⟨hiw, hii⟩
  | @enrolled h body site clock bytes user _ p henr hp hg =>
    have hsigned : SignedIn ms user p.id := hin _ _ _ _ _ user p.id rfl henr rfl
    have hc : (registry.applyAll [.insertToken ⟨p.id, hashToken app.sha256 (generateToken bytes), tokenName, none, none⟩]
      db).catalogue = _ := Db.catalogue_insertToken hf
    rw [hc]
    exact .enrolled henr hsigned.into (Db.accounts_of_mem hp) hg (credentials_free hf)
  | @issued h body bytes _ p w hop hname hup =>
    obtain ⟨hfw, hft⟩ := fresh_cons hf
    have henter := hup.enters hfw
    have hc : (registry.applyAll [w, .insertToken ⟨p, hashToken app.sha256 (generateToken bytes), body.name, none, none⟩]
      db).catalogue = _ := Db.catalogue_insertToken hft
    rw [hc]
    refine .issued hop hname henter ?_
    have hfree := credentials_free hft
    rwa [Catalogue.Registers.credentials henter] at hfree
  | @badged h slug value _ w hop hw hslug =>
    subst hslug
    have hc : (registry.applyAll [.setOfficial w.id value] db).catalogue = _ := Db.catalogue_setWorkflow hw
    rw [hc]
    exact .badged hop (Db.packages_of_mem hw)
  | @blocked h g value _ p now hop hp hg =>
    have hc : (registry.applyAll [.setBlockedAt p.id (if value then some now else none)] db).catalogue = _ :=
      Db.catalogue_setPublisher hp
    rw [hc]
    refine .blocked hop (Db.accounts_of_mem hp) hg fun hv => (hd _ List.mem_cons_self).timed ?_
    rw [Write.date, if_pos hv]

/-- The answer to a request whose last move has had its effect. -/
theorem Grounds.acts {reply reply' : Reply} {m : Moment registry} (hs : db.Sound) (hu : Upto ms db)
    (hd : ∀ m ∈ ms, ∀ w ∈ m.writes, Dated ms w) (hlast : ms.getLast? = some m) (he : Effect app req db m.writes reply')
    (hg : Grounds app ms req (.ok reply)) : LetIn app (looksOf ms) req ∧
      Acts app (looksOf ms) db.catalogue req reply (registry.applyAll m.writes db).catalogue := by
  have hm : m ∈ ms := List.mem_of_getLast? hlast
  -- which is not nothing
  have busy : ∀ {P : Env → Db → Prop}, ¬ Lastly ms P := by
    rintro P ⟨env, db', hl, -⟩
    obtain rfl := Option.some.inj (hl.symm.trans hlast)
    exact he.not_preparing [] (by simp [Preparing])
  cases hg with
  | merits hadm hmerits =>
    refine ⟨hadm.letIn, ?_⟩
    cases hmerits with
    | page hl | summary hl | versions hl | document hl | profile hl => exact absurd hl busy
    | offered | started => cases he
    | unfinished hv =>
      exfalso
      generalize m.writes = ws at he
      cases he with
      | enrolled henr _ _ =>
        rw [verdict_enrolls.mpr henr] at hv
        cases hv
    | created hroom hl =>
      obtain ⟨env, hl, -, heff, hf⟩ := hu.atLast hl
      obtain rfl := Option.some.inj (hl.symm.trans hlast)
      refine heff.acts hf hs hu hadm (hd _ hm) (fun h body hreq => ?_) fun _ _ _ _ _ _ _ hreq => by cases hreq
      cases hreq
      exact hroom
    | @enrolled h body site clock bytes user p ws henr hin hl =>
      obtain ⟨env, hl, -, heff, hf⟩ := hu.atLast hl
      obtain rfl := Option.some.inj (hl.symm.trans hlast)
      refine heff.acts hf hs hu hadm (hd _ hm) (fun _ _ hreq => by cases hreq) fun _ _ _ _ _ user' q hreq henr' hr => ?_
      cases hreq
      obtain rfl := Enrolls.unique henr henr'
      cases hr
      exact hin
    | effect hc hp hl =>
      obtain ⟨env, hl, -, heff, hf⟩ := hu.atLast hl
      obtain rfl := Option.some.inj (hl.symm.trans hlast)
      refine heff.acts hf hs hu hadm (hd _ hm) (fun _ _ hreq => ?_) fun _ _ _ _ _ _ _ hreq => ?_
      · rw [hreq] at hc
        cases hc
      · rw [hreq] at hp
        cases hp

variable {s s' : Registry} {t : Call}

/-! ### Moves -/

/-- A request as the desk knows it. -/
def Caller.of (t : Call) (seen : List Look) : Caller := ⟨t.req, seen, t.answered, t.gone⟩

/-- What request `r` has seen in a run. -/
def seenIn (app : AppState) (db₀ : Db) (as : List (Action registry Request)) (r : ℕ) : List Look :=
  looksOf ((Registry.start db₀).moments (handle app) r as)

/-- The run that leads to `s`, as a desk. -/
def Registry.desk (app : AppState) (db₀ : Db) (as : List (Action registry Request)) (s : Registry) : Desk :=
  ⟨s.db.catalogue, s.tasks.mapIdx fun r t => .of t (seenIn app db₀ as r)⟩

variable {as : List (Action registry Request)}

theorem good_run (h0 : db₀.Sound) (h : (Registry.start db₀).run (handle app) as = some s) : Good app s :=
  Contract.run_good (good_start h0) h

/-- A request sees one catalogue more with each move. -/
theorem seenIn_snoc (h : (Registry.start db₀).run (handle app) as = some s) {r : ℕ} (ht : s.tasks[r]? = some t)
    (c : Choice registry) :
    seenIn app db₀ (as ++ [.task r c]) r = seenIn app db₀ as r ++ [Look.of (t.moment s.db c)] := by
  rw [seenIn, Pool.moments_snoc h ht, looksOf, List.map_append]
  rfl

theorem seenIn_other {a : Action registry Request} (h : (Registry.start db₀).run (handle app) as = some s)
    (hst : s.step (handle app) a = some s') {r : ℕ} (ha : ∀ c, a ≠ .task r c) :
    seenIn app db₀ (as ++ [a]) r = seenIn app db₀ as r := by
  rw [seenIn, Pool.moments_snoc_other h hst ha]
  rfl

/-- A request that moves is where the database is. -/
theorem upto_snoc (h0 : db₀.Sound) (h : (Registry.start db₀).run (handle app) as = some s) {r : ℕ} (ht : s.tasks[r]? = some t)
    (c : Choice registry) : Upto ((Registry.start db₀).moments (handle app) r (as ++ [.task r c])) s.db := by
  have hstart : Good app (Registry.start db₀) := good_start h0
  have hmet := Contract.moments_met (r := r) hstart h
  rw [Pool.moments_snoc h ht]
  refine ⟨fun m hm => ?_, fun m hm => ?_, fun m hm => ?_⟩
  · rcases List.mem_append.mp hm with hm | hm
    · exact (hmet m hm).1
    · rw [List.mem_singleton.mp hm]
      exact (good_run h0 h).sound
  · rcases List.mem_append.mp hm with hm | hm
    · exact (hmet m hm).2
    · rw [List.mem_singleton.mp hm]
      exact .refl _
  · rw [List.getLast?_append, List.getLast?_singleton] at hm
    rw [← Option.some.inj hm]
    rfl

/-- A request in a run has come to where it stands over its moments. -/
theorem over_moments (h0 : db₀.Sound) (h : (Registry.start db₀).run (handle app) as = some s) {r : ℕ}
    (ht : s.tasks[r]? = some t) (hgone : t.gone = false) : ∃ db, (t.req.handler app).run.Over (ruleOf app t.req) none [] db
      ((Registry.start db₀).moments (handle app) r as) t.prog := by
  obtain ⟨bs, cs, u, rfl, hu, rfl, hc⟩ := Pool.arrival (Nat.zero_le r) h ht
  have hgood : Good app (u.arrived (handle app) t.req) := Contract.step_good (a := .arrive t.req) (good_run h0 hu) rfl
  have ho := Contract.over_run hgood (Pool.arrived_task (handle app) u t.req) hc ht hgone
  rw [Pool.moments_append hu, Pool.moments_none hu le_rfl]
  exact ⟨_, ho⟩

/-- An answer in a run has its grounds there. -/
theorem grounds_run (h0 : db₀.Sound) (h : (Registry.start db₀).run (handle app) as = some s) {r : ℕ}
    (ht : s.tasks[r]? = some t) (ha : t.answered = some out) :
    Grounds app ((Registry.start db₀).moments (handle app) r as) t.req out := by
  obtain ⟨hgone, hp⟩ := Task.answered_eq.mp ha
  obtain ⟨db, ho⟩ := over_moments h0 h ht hgone
  rw [hp] at ho
  exact handler_grounds ho

/-- A list that has changed in one place. -/
theorem mapIdx_set {α β : Type} {f g : ℕ → α → β} {l : List α} {r : ℕ} {x : α}
    (h : ∀ i y, l[i]? = some y → i ≠ r → g i y = f i y) : (l.set r x).mapIdx g = (l.mapIdx f).set r (g r x) := by
  refine List.ext_getElem? fun i => ?_
  rw [List.getElem?_mapIdx, List.getElem?_set, List.getElem?_set, List.length_mapIdx, List.getElem?_mapIdx]
  by_cases hi : r = i
  · subst hi
    rw [if_pos rfl, if_pos rfl]
    split <;> rfl
  · rw [if_neg hi, if_neg hi]
    cases hy : l[i]? with
    | none => rfl
    | some y => exact congrArg some (h i y hy (Ne.symm hi))

/-- A request arrives. -/
theorem desk_arrived (h0 : db₀.Sound) (h : (Registry.start db₀).run (handle app) as = some s) (req : Request) :
    Desk.Step app (s.desk app db₀ as) (Registry.desk app db₀ (as ++ [.arrive req]) (s.arrived (handle app) req)) := by
  have hst : s.step (handle app) (.arrive req) = some (s.arrived (handle app) req) := rfl
  have hseen : ∀ r, seenIn app db₀ (as ++ [.arrive req]) r = seenIn app db₀ as r := fun r =>
    seenIn_other h hst fun c hc => by cases hc
  have hnone : seenIn app db₀ as s.tasks.length = [] := by
    rw [seenIn, Pool.moments_none h le_rfl]
    rfl
  let t : Call := ⟨req, handle app req, none, [], false⟩
  have hdesk : Registry.desk app db₀ (as ++ [.arrive req]) (s.arrived (handle app) req) =
      ⟨s.db.catalogue, (s.desk app db₀ as).callers ++ [⟨req, [], t.answered, false⟩]⟩ := by
    refine congrArg (Desk.mk _) ?_
    show (s.tasks ++ [t]).mapIdx _ = _
    rw [List.mapIdx_concat]
    simp only [hseen, hnone]
    rfl
  rw [hdesk]
  refine .arrives fun out ha => ?_
  have hrun := Pool.run_snoc.mpr ⟨s, h, hst⟩
  have ht : (s.arrived (handle app) req).tasks[s.tasks.length]? = some t := Pool.arrived_task (handle app) s req
  have hg := grounds_run h0 hrun ht ha
  rw [Pool.moments_snoc_other h hst (fun c hc => by cases hc), Pool.moments_none h le_rfl] at hg
  exact hg.said (good_run h0 h).sound ⟨by simp, by simp, by simp⟩ (by simp)

/-- Somebody writes by hand. -/
theorem desk_touched (h0 : db₀.Sound) (h : (Registry.start db₀).run (handle app) as = some s) {w : Write}
    (hx : w.external = true) (hst : s.step (handle app) (.outside w) = some (s.touched w)) :
    Desk.Step app (s.desk app db₀ as) (Registry.desk app db₀ (as ++ [.outside w]) (s.touched w)) := by
  have hseen : ∀ r, seenIn app db₀ (as ++ [.outside w]) r = seenIn app db₀ as r := fun r =>
    seenIn_other h hst fun c hc => by cases hc
  have hdesk : Registry.desk app db₀ (as ++ [.outside w]) (s.touched w) =
      { s.desk app db₀ as with catalogue := (w.apply s.db).catalogue } := by
    refine congrArg (Desk.mk _) ?_
    show s.tasks.mapIdx _ = _
    simp only [hseen]
    rfl
  rw [hdesk]
  cases w with
  | withdrawVersion id n now =>
    by_cases hid : ∃ w ∈ s.db.workflows, w.id = id
    · obtain ⟨w, hw, rfl⟩ := hid
      rw [Db.catalogue_withdrawVersion (good_run h0 h).sound hw]
      exact .withdraws (Db.packages_of_mem hw)
    · rw [Db.catalogue_withdrawVersion_none fun w hw he => hid ⟨w, hw, he⟩]
      exact .idles
  | revokeToken x now =>
    by_cases hx : ∃ t ∈ s.db.tokens, t.tokenHash = x
    · obtain ⟨t, ht, rfl⟩ := hx
      have hc : ((Write.revokeToken t.tokenHash now).apply s.db).catalogue = _ := Db.catalogue_setToken ht
      rw [hc]
      exact .revokes (d := s.desk app db₀ as) (t := t.credential) (Db.credentials_of_mem ht)
    · have hc : ((Write.revokeToken x now).apply s.db).catalogue = _ :=
        Db.catalogue_setToken_none fun t ht he => hx ⟨t, ht, he⟩
      rw [hc]
      exact .idles
  | _ => cases hx

/-- A move after which the catalogue is as it was. -/
theorem attends_quiet {l : Look} {seen : List Look} {t' : Call} (hl : l.after = l.before) (hans : t.answered = none)
    (hgone : t.gone = false) (hout : ∀ out, t'.answered = some out → Says app (seen ++ [l]) l.before t.req out) :
    Attends app (.of t seen) l ⟨t.req, seen ++ [l], t'.answered, t'.gone⟩ := by
  cases ha : t'.answered with
  | none =>
    rw [← hans]
    cases hg : t'.gone with
    | false =>
      rw [← hgone]
      exact .looks hl
    | true => exact .leaves hl
  | some out =>
    rw [(Task.answered_eq.mp ha).1, ← hgone]
    exact .replies hl (hout out ha)

section Moved

variable {r : ℕ} {c : Choice registry} {t' : Call} {ws : List Write}

theorem unanswered (hm : t.move s.db c = some (t', ws)) : t.answered = none := by
  refine Option.eq_none_iff_forall_ne_some.mpr fun a ha => ?_
  rw [Task.move_of_answered ha] at hm
  cases hm

theorem moment_writes (hm : t.move s.db c = some (t', ws)) : (t.moment s.db c).writes = ws := by
  rw [Task.moment, hm, Option.elim_some]

/-- The look leaves what the move leaves. -/
theorem look_after (hm : t.move s.db c = some (t', ws)) :
    (Look.of (t.moment s.db c)).after = (registry.applyAll ws s.db).catalogue := by
  rw [← moment_writes hm]
  rfl

theorem last_moment (h : (Registry.start db₀).run (handle app) as = some s) (ht : s.tasks[r]? = some t) (c : Choice registry) :
    ((Registry.start db₀).moments (handle app) r (as ++ [.task r c])).getLast? = some (t.moment s.db c) := by
  rw [Pool.moments_snoc h ht, List.getLast?_append]
  rfl

/-- A task that has committed something is still there. -/
theorem stays_of_writes (hm : t.move s.db c = some (t', ws)) (hne : ws ≠ []) : t'.gone = false := by
  have hgone : t.gone = false := (Task.goes_of_move hm).1
  obtain ⟨env, -, -, ⟨k, x, -, -, -, rfl⟩ | ⟨q, k, a, -, -, -, rfl⟩⟩ := Task.move_commits hm hne
  · exact hgone
  · exact hgone

/-- A move that does not show: at most the request is answered. -/
theorem attends_idle (h0 : db₀.Sound) (h : (Registry.start db₀).run (handle app) as = some s) (ht : s.tasks[r]? = some t)
    (hm : t.move s.db c = some (t', ws)) (hst : s.step (handle app) (.task r c) = some (s.moved r t' ws))
    (hreq : t'.req = t.req) (hi : Idle ws) (hc : (registry.applyAll ws s.db).catalogue = s.db.catalogue) :
    Attends app (.of t (seenIn app db₀ as r)) (Look.of (t.moment s.db c))
      ⟨t.req, seenIn app db₀ as r ++ [Look.of (t.moment s.db c)], t'.answered, t'.gone⟩ := by
  refine attends_quiet ((look_after hm).trans hc) (unanswered hm) (Task.goes_of_move hm).1 fun out ha => ?_
  rw [← seenIn_snoc h ht c, ← hreq]
  have hg := grounds_run h0 (Pool.run_snoc.mpr ⟨s, h, hst⟩) (Pool.task_moved ht) ha
  refine hg.said (good_run h0 h).sound (upto_snoc h0 h ht c) fun m hl => ?_
  rw [← Option.some.inj ((last_moment h ht c).symm.trans hl), moment_writes hm]
  exact hi

/-- The upsert of a sign-in. -/
theorem attends_signIn (h0 : db₀.Sound) (h : (Registry.start db₀).run (handle app) as = some s) (ht : s.tasks[r]? = some t)
    {x : Write} (hm : t.move s.db c = some (t', [x])) (hst : s.step (handle app) (.task r c) = some (s.moved r t' [x]))
    (hreq : t'.req = t.req) {hdr : HeaderMap} {body : PollRequest} {site : Site} {clock : DateTime}
    {bytes : Vector UInt8 tokenBytes} (hr : t.req = .poll hdr body site clock bytes) (hx : x.preparatory = true) :
    Attends app (.of t (seenIn app db₀ as r)) (Look.of (t.moment s.db c))
      ⟨t.req, seenIn app db₀ as r ++ [Look.of (t.moment s.db c)], t'.answered, t'.gone⟩ := by
  have hgone : t.gone = false := (Task.goes_of_move hm).1
  have hstays : t'.gone = false := stays_of_writes hm (List.cons_ne_nil x [])
  obtain ⟨db, ho⟩ := over_moments h0 (Pool.run_snoc.mpr ⟨s, h, hst⟩) (Pool.task_moved ht) hstays
  rw [hreq, hr] at ho
  obtain ⟨hadm, user, p, blockedAt, henr, hin, hto⟩ := poll_upserted ho (last_moment h ht c) (moment_writes hm) hx
  obtain ⟨hsign, a, hacc, hb⟩ := hin.account
  have hafter : (Look.of (t.moment s.db c)).after = (x.apply s.db).catalogue := look_after hm
  have hansw : t'.answered = if a.blockedAt = none then none else some (.error (.forbidden "publisher is blocked")) := by
    rw [hb]
    rcases hto with ⟨rfl, hret⟩ | ⟨hne, hret⟩
    · exact Option.eq_none_iff_forall_ne_some.mpr fun out ha => hret out (Task.answered_eq.mp ha).2
    · rw [if_neg hne]
      exact Task.answered_eq.mpr ⟨hstays, hret⟩
  have hletIn := hadm.letIn
  rw [show looksOf _ = seenIn app db₀ (as ++ [.task r c]) r from rfl, seenIn_snoc h ht, ← hr] at hletIn
  rw [hansw, hstays, ← hgone]
  refine .signsIn (p := p) hr hletIn henr ?_ ?_
  · rw [hafter]
    exact hsign
  · rw [hafter]
    exact hacc

/-- The effect of a request, and its answer. -/
theorem attends_effect (h0 : db₀.Sound) (h : (Registry.start db₀).run (handle app) as = some s) (ht : s.tasks[r]? = some t)
    (hm : t.move s.db c = some (t', ws)) (hst : s.step (handle app) (.task r c) = some (s.moved r t' ws))
    (hreq : t'.req = t.req) (hdone : t'.done = t.done ++ ws) {reply : Reply} (he : Effect app t.req s.db ws reply) :
    Attends app (.of t (seenIn app db₀ as r)) (Look.of (t.moment s.db c))
      ⟨t.req, seenIn app db₀ as r ++ [Look.of (t.moment s.db c)], t'.answered, t'.gone⟩ := by
  have hrun := Pool.run_snoc.mpr ⟨s, h, hst⟩
  have ht' : (s.moved r t' ws).tasks[r]? = some t' := Pool.task_moved ht
  have hgone : t.gone = false := (Task.goes_of_move hm).1
  have hstays : t'.gone = false := stays_of_writes hm fun hno => he.not_preparing [] (by simp [Preparing, hno])
  obtain ⟨db, ho⟩ := over_moments h0 hrun ht' hstays
  obtain ⟨reply', ha⟩ := (effect_answered h0 ⟨_, hrun⟩ r t' ht').resolve_left (hdone ▸ he.not_preparing t.done)
  have hg := grounds_run h0 hrun ht' ha
  rw [hreq] at hg
  rw [← moment_writes hm] at he
  obtain ⟨hletIn, hacts⟩ := hg.acts (good_run h0 h).sound (upto_snoc h0 h ht c) (over_dated ho) (last_moment h ht c) he
  rw [moment_writes hm, ← look_after hm] at hacts
  rw [show looksOf _ = seenIn app db₀ (as ++ [.task r c]) r from rfl, seenIn_snoc h ht] at hletIn hacts
  rw [ha, hstays, ← hgone]
  exact .acts hletIn hacts

/-- What a request does with its move, the desk does with it. -/
theorem attends_move (h0 : db₀.Sound) (h : (Registry.start db₀).run (handle app) as = some s) (ht : s.tasks[r]? = some t)
    (hm : t.move s.db c = some (t', ws)) (hst : s.step (handle app) (.task r c) = some (s.moved r t' ws)) :
    Attends app (.of t (seenIn app db₀ as r)) (Look.of (t.moment s.db c))
      (.of t' (seenIn app db₀ (as ++ [.task r c]) r)) := by
  have hmv := Contract.move_ok (good_run h0 h).ok ht hm
  have hreq : t'.req = t.req := hmv.req
  have hnew : Caller.of t' (seenIn app db₀ (as ++ [.task r c]) r) =
      ⟨t.req, seenIn app db₀ as r ++ [Look.of (t.moment s.db c)], t'.answered, t'.gone⟩ := by
    rw [Caller.of, seenIn_snoc h ht, hreq]
  rw [hnew]
  rcases hmv.guar with rfl | ⟨hgu, -⟩
  · exact attends_idle h0 h ht hm hst hreq (by simp [Idle]) rfl
  cases hgu with
  | «prelude» _ hp =>
    generalize hr : t.req = req at hp
    cases hp with
    | touched =>
      rw [← hr]
      exact attends_idle h0 h ht hm hst hreq (by simp [Idle]) (Db.catalogue_touchToken _ _)
    | upserted _ hup =>
      rw [← hr]
      exact attends_signIn h0 h ht hm hst hreq hr (by cases hup <;> rfl)
  | effect _ he => exact attends_effect h0 h ht hm hst hreq hmv.done he

end Moved

/-- **One move of the service is one step of the desk.** -/
theorem step_refines (h0 : db₀.Sound) (h : (Registry.start db₀).run (handle app) as = some s) {a : Action registry Request}
    (hst : s.step (handle app) a = some s') :
    Desk.Step app (s.desk app db₀ as) (s'.desk app db₀ (as ++ [a])) := by
  rcases Pool.step_cases hst with ⟨req, rfl, rfl⟩ | ⟨w, rfl, hx, -, rfl⟩ | ⟨r, c, t, t', ws, rfl, ht, hm, -, rfl⟩
  · exact desk_arrived h0 h req
  · exact desk_touched h0 h hx hst
  · have hcallers : (s.desk app db₀ as).callers[r]? = some (.of t (seenIn app db₀ as r)) := by
      show (s.tasks.mapIdx _)[r]? = _
      rw [List.getElem?_mapIdx, ht]
      rfl
    have hdesk : Registry.desk app db₀ (as ++ [.task r c]) (s.moved r t' ws) = ⟨(registry.applyAll ws s.db).catalogue,
        (s.desk app db₀ as).callers.set r (.of t' (seenIn app db₀ (as ++ [.task r c]) r))⟩ := by
      refine congrArg (Desk.mk _) ?_
      refine mapIdx_set fun i y _ hi => ?_
      rw [seenIn_other h hst fun c' hc => hi (by cases hc; rfl)]
    rw [hdesk, ← look_after hm]
    exact .attends hcallers (unanswered hm) (Task.goes_of_move hm).1 rfl (attends_move h0 h ht hm hst)

/-! ### Runs -/

variable {bs : List (Action registry Request)}

theorem desk_run (h0 : db₀.Sound) (h : (Registry.start db₀).run (handle app) as = some s)
    (hrun : s.run (handle app) bs = some s') :
    Relation.ReflTransGen (Desk.Step app) (s.desk app db₀ as) (s'.desk app db₀ (as ++ bs)) := by
  induction bs using List.reverseRecOn generalizing s' with
  | nil =>
    cases hrun
    rw [List.append_nil]
  | append_singleton bs a ih =>
    obtain ⟨s₁, h₁, h₂⟩ := Pool.run_snoc.mp hrun
    have hto : (Registry.start db₀).run (handle app) (as ++ bs) = some s₁ := by
      rw [Pool.run_append, h]
      exact h₁
    rw [← List.append_assoc]
    exact (ih h₁).tail (step_refines h0 hto h₂)

/-- **Every run of the service is a run of the desk**, with the same answers. -/
theorem refines (h0 : db₀.Sound) (h : (Registry.start db₀).run (handle app) as = some s) :
    Relation.ReflTransGen (Desk.Step app) ⟨db₀.catalogue, []⟩ (s.desk app db₀ as) := by
  have hrun : (Registry.start db₀).run (handle app) [] = some (Registry.start db₀) := rfl
  exact desk_run h0 hrun h

/-- **Nothing is taken back**: accounts keep their GitHub id, tokens their holder and
packages their owner and their releases, and what is revoked or withdrawn stays
so. -/
theorem catalogue_grows (h0 : db₀.Sound) (h : Reached app db₀ s) (hrun : s.run (handle app) bs = some s') :
    s.db.catalogue.Extends s'.db.catalogue := by
  obtain ⟨as, h⟩ := h
  exact Desk.extends (desk_run h0 h hrun)

/-- **Somebody is behind everything** that is new in the catalogue: a request that was
answered in between. -/
theorem catalogue_accounted (h0 : db₀.Sound) (h : (Registry.start db₀).run (handle app) as = some s)
    (hrun : s.run (handle app) bs = some s') {f : Fact} (hf : s'.db.catalogue.Has f) : s.db.catalogue.Has f ∨
      ∃ (r : ℕ) (t : Call), s'.tasks[r]? = some t ∧ (∀ u, s.tasks[r]? = some u → u.answered = none) ∧
        Behind app (.of t (seenIn app db₀ (as ++ bs) r)) f := by
  refine (Desk.accounted (desk_run h0 h hrun) hf).imp_right ?_
  rintro ⟨r, v, hv, hfirst, hb⟩
  obtain ⟨t, ht, rfl⟩ := Option.map_eq_some_iff.mp (List.getElem?_mapIdx.symm.trans hv)
  refine ⟨r, t, ht, fun u hu => hfirst (.of u (seenIn app db₀ as r)) ?_, hb⟩
  show (s.tasks.mapIdx _)[r]? = _
  rw [List.getElem?_mapIdx, hu]
  rfl

/-- Two publishes at once. -/
def Sample.contended : List (Action registry Request) := .arrive (Sample.publish 0 "first" "steps: [1]") :: Sample.lostRace

/-- Whose package `first` is, and its releases. -/
def Sample.releases (s : Registry) : Option (Uuid × List (String × Option String)) :=
  (s.db.catalogue.packages "first").map fun k => (k.owner, k.releases.map fun r => (r.yaml, r.changelog))

/-- After a workflow is there. -/
theorem Sample.contended_runs : ∃ s s' : Registry,
    (Registry.start Sample.library).run (handle Sample.replica) (Sample.serve 10 0 (Sample.create 0 "first") 7) = some s ∧
    s.run (handle Sample.replica) Sample.contended = some s' ∧
    s'.tasks.map Task.answered = [some (.ok (.published "first" 1)),
      some (.error (.conflict "a concurrent publish took that version; retry")), some (.ok (.published "first" 2))] ∧
    Sample.releases s = some (1, [("steps: []", none)]) ∧
    Sample.releases s' = some (1, [("steps: []", none), ("steps: [2]", none)]) := by
  have h : (Sample.after (Sample.serve 10 0 (Sample.create 0 "first") 7)).map Sample.releases =
      some (some (1, [("steps: []", none)])) := by decide +kernel
  have h' : (Sample.after (Sample.serve 10 0 (Sample.create 0 "first") 7 ++ Sample.contended)).any (fun s =>
      s.tasks.map Task.answered = [some (.ok (.published "first" 1)),
        some (.error (.conflict "a concurrent publish took that version; retry")), some (.ok (.published "first" 2))] &&
      Sample.releases s = some (1, [("steps: []", none), ("steps: [2]", none)])) = true := by
    decide +kernel
  obtain ⟨s, hs, hrel⟩ := Option.map_eq_some_iff.mp h
  obtain ⟨s', hrun, he⟩ := (Option.any_eq_true _ _).mp h'
  rw [Bool.and_eq_true, decide_eq_true_eq, decide_eq_true_eq] at he
  have hs' : s.run (handle Sample.replica) Sample.contended = some s' := by
    rw [Sample.after, Pool.run_append] at hrun
    rw [Sample.after] at hs
    rwa [hs, Option.bind_some] at hrun
  exact ⟨s, s', hs, hs', he.1, hrel, he.2⟩

theorem refines_contended : ∃ s : Registry, (Registry.start Sample.library).run (handle Sample.replica)
      (Sample.serve 10 0 (Sample.create 0 "first") 7 ++ Sample.contended) = some s ∧
    s.tasks.map Task.answered = [some (.ok (.published "first" 1)),
      some (.error (.conflict "a concurrent publish took that version; retry")), some (.ok (.published "first" 2))] ∧
    Relation.ReflTransGen (Desk.Step Sample.replica) ⟨Sample.library.catalogue, []⟩
      (s.desk Sample.replica Sample.library (Sample.serve 10 0 (Sample.create 0 "first") 7 ++ Sample.contended)) := by
  obtain ⟨s, s', hs, hs', hans, -⟩ := Sample.contended_runs
  have hrun : (Registry.start Sample.library).run (handle Sample.replica)
      (Sample.serve 10 0 (Sample.create 0 "first") 7 ++ Sample.contended) = some s' := by
    rw [Pool.run_append, hs, Option.bind_some]
    exact hs'
  exact ⟨s', hrun, hans, refines Sample.initial.sound hrun⟩

/-- A token is revoked by hand, and stays revoked. -/
theorem catalogue_grows_revoked : ∃ s s' : Registry, Reached Sample.replica Sample.library s ∧
    s.run (handle Sample.replica) (Sample.serve 10 0 (Sample.create 1 "first") 7) = some s' ∧
    (s.db.catalogue.credentials (hashToken Sample.sha256 (Sample.token 0))).bind Credential.revokedAt = some 5 ∧
    s.db.catalogue.Extends s'.db.catalogue := by
  have h : ((Sample.after [.outside (.revokeToken (hashToken Sample.sha256 (Sample.token 0)) 5)]).map fun s =>
      ((s.db.catalogue.credentials (hashToken Sample.sha256 (Sample.token 0))).bind Credential.revokedAt,
        (s.run (handle Sample.replica) (Sample.serve 10 0 (Sample.create 1 "first") 7)).isSome)) = some (some 5, true) := by
    decide +kernel
  obtain ⟨s, hr, hs⟩ := Sample.reached h
  obtain ⟨hrev, hsome⟩ := Prod.mk.inj hs
  obtain ⟨s', hrun⟩ := Option.isSome_iff_exists.mp hsome
  exact ⟨s, s', hr, hrun, hrev, catalogue_grows Sample.initial.sound hr hrun⟩

/-- Behind the second release is the publish that was first to insert. -/
theorem catalogue_accounted_contended : ∃ s s' : Registry,
    (Registry.start Sample.library).run (handle Sample.replica) (Sample.serve 10 0 (Sample.create 0 "first") 7) = some s ∧
    s.run (handle Sample.replica) Sample.contended = some s' ∧
    ∃ (r : ℕ) (t : Call), s'.tasks[r]? = some t ∧ (∀ u, s.tasks[r]? = some u → u.answered = none) ∧
      Behind Sample.replica (.of t (seenIn Sample.replica Sample.library
        (Sample.serve 10 0 (Sample.create 0 "first") 7 ++ Sample.contended) r)) (.release "first" 1 1 "steps: [2]" none) := by
  obtain ⟨s, s', hs, hs', -, hrel, hrel'⟩ := Sample.contended_runs
  -- it is there afterwards
  obtain ⟨k, hk, he⟩ := Option.map_eq_some_iff.mp hrel'
  obtain ⟨howner, hall⟩ := Prod.mk.inj he
  have hi := congrArg (·[1]?) hall
  simp only [List.getElem?_map] at hi
  obtain ⟨r, hr, hrc⟩ := Option.map_eq_some_iff.mp hi
  obtain ⟨hy, hc⟩ := Prod.mk.inj hrc
  have hacc := catalogue_accounted Sample.initial.sound hs hs' (f := .release "first" 1 1 "steps: [2]" none)
    ⟨k, r, hk, howner, hr, hy, hc⟩
  refine ⟨s, s', hs, hs', hacc.resolve_left ?_⟩
  -- and was not there before
  rintro ⟨l, q, hl, -, hq, -, -⟩
  rw [Sample.releases, hl, Option.map_some] at hrel
  have hlen := congrArg List.length (Prod.mk.inj (Option.some.inj hrel)).2
  rw [List.length_map] at hlen
  have hlt := (List.getElem?_eq_some_iff.mp hq).1
  rw [hlen] at hlt
  exact absurd hlt (by decide)

end HarnessRegistry

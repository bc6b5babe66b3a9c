/-
# Enrollment

A poll that gets past its verdict (`Verdict.lean`) upserts the publisher, looks
at its block and inserts a token. That the token goes in only if the limiter,
GitHub, the clock and the block agree is `poll_mints_iff`. The statements are
autocommitted: what a poll leaves behind when it does not mint is
`failed_enrollment`.

Key definitions: `Confirms`, `OldEnough`, `GoesThrough`, `Mintable`,
`Upserting`, `Minting`.
Key theorems: `enrolls_iff`, `alone_mint_unblocked`, `poll_mints_iff`,
`served_mint`, `served_poll`, `failed_enrollment`.
-/
import HarnessRegistry.Installs

namespace HarnessRegistry

open Txn Handler

variable {app : AppState} {db db' : Db} {env : Env} {headers : HeaderMap} {body : PollRequest} {site : Site}
  {clock : DateTime} {bytes : Vector UInt8 tokenBytes} {user : GitHubUser}

/-! ### Who enrolls -/

/-- GitHub confirms the account: it answers the device code with an access
token, whatever else it says, and the access token with a profile. -/
def Confirms (app : AppState) (body : PollRequest) (site : Site) (user : GitHubUser) : Prop :=
  ∃ github success response accessToken, app.github = some github ∧
    site.accessToken github.clientId body.deviceCode = .response success (some response) ∧
    response.accessToken = some accessToken ∧ site.user accessToken = .response true (some user)

/-- The account is as old as the configuration asks. -/
def OldEnough (app : AppState) (user : GitHubUser) (now : DateTime) : Prop :=
  app.config.minAccountAgeDays ≤ 0 ∨ app.config.minAccountAgeDays * 86400 * 1000000000 ≤ now - user.createdAt

theorem oldEnough_iff (hdays : (durationDays app.config.minAccountAgeDays).isSome = true) :
    oldEnough user.createdAt clock app.config.minAccountAgeDays = some true ↔ OldEnough app user clock := by
  unfold oldEnough OldEnough
  by_cases hoff : app.config.minAccountAgeDays ≤ 0
  · simp [hoff]
  · obtain ⟨d, hd⟩ := Option.isSome_iff_exists.mp hdays
    rw [if_neg hoff, hd]
    unfold durationDays at hd
    split at hd
    · cases hd
      simp [hoff]
    · cases hd

/-- In chrono's range the check does not panic. -/
theorem oldEnough_ne_none (hdays : (durationDays app.config.minAccountAgeDays).isSome = true) :
    oldEnough user.createdAt clock app.config.minAccountAgeDays ≠ none := by
  obtain ⟨d, hd⟩ := Option.isSome_iff_exists.mp hdays
  unfold oldEnough
  rw [hd]
  split <;> simp

theorem poll_authorized_iff {github : GitHub} {deviceCode accessToken : String} :
    github.poll site deviceCode = .ok (.authorized accessToken) ↔
      ∃ success response, site.accessToken github.clientId deviceCode = .response success (some response) ∧
        response.accessToken = some accessToken := by
  unfold GitHub.poll
  cases site.accessToken github.clientId deviceCode with
  | unreachable => simp
  | response success response =>
    cases response with
    | none => simp
    | some response =>
      unfold classify
      cases hacc : response.accessToken with
      | some token => simp [hacc]
      | none =>
        dsimp only
        split_ifs <;> simp [hacc]

/-- Whom GitHub confirms, and who is old enough, enrolls. -/
theorem enrolls_iff (hdays : (durationDays app.config.minAccountAgeDays).isSome = true) :
    Enrolls app body site clock user ↔ Confirms app body site user ∧ OldEnough app user clock := by
  have huser : ∀ accessToken, GitHub.user site accessToken = .ok user ↔
      site.user accessToken = .response true (some user) := by
    intro accessToken
    unfold GitHub.user checkedBody
    rcases site.user accessToken with _ | ⟨_ | _, _ | _⟩ <;> simp
  unfold Enrolls Confirms
  constructor
  · rintro ⟨github, accessToken, hg, hp, hu, ho⟩
    obtain ⟨success, response, hr, hacc⟩ := poll_authorized_iff.mp hp
    exact ⟨⟨github, success, response, accessToken, hg, hr, hacc, (huser _).mp hu⟩, (oldEnough_iff hdays).mp ho⟩
  · rintro ⟨⟨github, success, response, accessToken, hg, hr, hacc, hu⟩, ho⟩
    exact ⟨github, accessToken, hg, poll_authorized_iff.mpr ⟨success, response, hr, hacc⟩, (huser _).mpr hu,
      (oldEnough_iff hdays).mpr ho⟩

/-- In chrono's range nothing crashes. -/
theorem verdict_ne_crashes (hdays : (durationDays app.config.minAccountAgeDays).isSome = true) :
    verdict app body site clock ≠ .crashes := by
  unfold verdict
  split
  · simp
  split <;> try simp
  split
  · simp
  split
  · exact absurd ‹_› (oldEnough_ne_none hdays)
  · simp
  · simp

/-! ### When a poll mints -/

/-- The statements of an enrollment go through. -/
def GoesThrough (app : AppState) (env : Env) (db : Db) (user : GitHubUser) (bytes : Vector UInt8 tokenBytes) : Prop :=
  ∃ id blockedAt ws,
    Stmt.exec env (.enrollPublisher user.id user.login user.displayName user.avatarUrl) db = .ok ((id, blockedAt), ws) ∧
      (blockedAt = none → ∃ r, Stmt.exec env (.insertToken id (hashToken app.sha256 (generateToken bytes)) tokenName)
        (registry.applyAll ws db) = .ok r)

/-- Everything that a poll asks agrees: the limiter, GitHub, the clock and the
publisher's block. -/
structure Mintable (app : AppState) (env : Env) (db : Db) (headers : HeaderMap) (body : PollRequest) (site : Site)
    (clock : DateTime) (user : GitHubUser) : Prop where
  admitted : env.admits .enrollPoll (clientKey headers none) = true
  confirmed : Confirms app body site user
  old : OldEnough app user clock
  unblocked : ∀ q ∈ db.publishers, q.githubId = user.id → q.blockedAt = none

/-- The token that a poll would insert. -/
def minted (app : AppState) (bytes : Vector UInt8 tokenBytes) (publisherId : Uuid) : TokenRow :=
  ⟨publisherId, hashToken app.sha256 (generateToken bytes), tokenName, none, none⟩

/-- The block that the upsert returns is that of the account's row. -/
theorem unblocked_iff {g : ℤ} {login : String} {name avatar : Option String} {p : Uuid} {blockedAt : Option Timestamp}
    {ws : List Write} (h : Stmt.run env db (.enrollPublisher g login name avatar) = .ok ((p, blockedAt), ws)) :
    blockedAt = none ↔ ∀ q ∈ db.publishers, q.githubId = g → q.blockedAt = none := by
  rcases enrollPublisher_cases h with ⟨r, hr, hg, -, rfl, -⟩ | ⟨hnone, -, -, rfl, -⟩
  · refine ⟨fun hb q hq hqg => ?_, fun hall => hall r hr hg⟩
    rwa [PublisherRow.eq_of_githubId hq hr (hqg.trans hg.symm)]
  · exact ⟨fun _ q hq hqg => absurd hqg (hnone q hq), fun _ => rfl⟩

theorem Upserts.tokens {p : Uuid} {w : Write} (h : Upserts.enroll user db p w) : (w.apply db).tokens = db.tokens := by
  cases h <;> rfl

/-- What the insertion of a token does. -/
theorem exec_insertToken {p : Uuid} {r : Unit × List Write}
    (h : Stmt.exec env (.insertToken p (hashToken app.sha256 (generateToken bytes)) tokenName) db = .ok r) :
    r.2 = [.insertToken (minted app bytes p)] ∧ minted app bytes p ∉ db.tokens ∧
      ∀ x, x ∈ (registry.applyAll r.2 db).tokens ↔ x ∈ db.tokens ∨ x = minted app bytes p := by
  have hr := run_of_exec h
  simp only [Stmt.run] at hr
  split at hr
  · cases hr
  rename_i hnew
  have hws : r.2 = [.insertToken (minted app bytes p)] := (Prod.mk.inj (Except.ok.inj hr)).2.symm
  refine ⟨hws, fun hin => hnew ⟨_, hin, (clash_token _ _).mpr rfl⟩, fun x => ?_⟩
  rw [hws]
  exact Table.mem_insert hnew

/-- A blocked publisher gets no token. -/
theorem alone_mint_blocked (h : GoesThrough app env db user bytes)
    (hb : ¬ ∀ q ∈ db.publishers, q.githubId = user.id → q.blockedAt = none) :
    ∃ db', alone env (mint app user bytes) db = some (.error (.forbidden "publisher is blocked"), db') ∧
      db'.tokens = db.tokens := by
  obtain ⟨id, blockedAt, ws, hx, -⟩ := h
  have hrun := run_of_exec hx
  rw [← unblocked_iff hrun] at hb
  obtain ⟨w, rfl, hw, -⟩ := run_enrollPublisher hrun
  refine ⟨w.apply db, ?_, hw.tokens⟩
  unfold mint
  rw [query, alone_ok hx, if_pos (Option.isSome_iff_ne_none.mpr hb)]
  rfl

/-- Any other gets one, and that is the only change to the tokens. -/
theorem alone_mint_unblocked (h : GoesThrough app env db user bytes)
    (hu : ∀ q ∈ db.publishers, q.githubId = user.id → q.blockedAt = none) :
    ∃ db', ∃ q ∈ db'.publishers, q.githubId = user.id ∧
      alone env (mint app user bytes) db = some (.ok (.enrolled (generateToken bytes) q.id user.login), db') ∧
      minted app bytes q.id ∉ db.tokens ∧ ∀ x, x ∈ db'.tokens ↔ x ∈ db.tokens ∨ x = minted app bytes q.id := by
  obtain ⟨id, blockedAt, ws, hx, hins⟩ := h
  have hrun := run_of_exec hx
  obtain rfl := (unblocked_iff hrun).mpr hu
  obtain ⟨w, rfl, hw, q, hq, rfl, hg⟩ := run_enrollPublisher hrun
  obtain ⟨r, hr⟩ := hins rfl
  obtain ⟨hws, hnew, hmem⟩ := exec_insertToken hr
  have htokens : (registry.applyAll [w] db).tokens = db.tokens := hw.tokens
  rw [htokens] at hnew hmem
  refine ⟨registry.applyAll r.2 (registry.applyAll [w] db), q, ?_, hg, ?_, hnew, hmem⟩
  · rw [hws]
    exact hq
  · unfold mint
    rw [query, alone_ok hx, if_neg (by simp), query, alone_ok hr]
    rfl

/-- Where a poll does not get to its statements. -/
theorem alone_poll_refused (db : Db) (bytes : Vector UInt8 tokenBytes)
    (hdays : (durationDays app.config.minAccountAgeDays).isSome = true) (hno : ¬ ∃ user,
      env.admits .enrollPoll (clientKey headers none) = true ∧ Confirms app body site user ∧ OldEnough app user clock) :
    ∃ out, alone env (poll app headers body site clock bytes) db = some (out, db) ∧
      ∀ token id login, out ≠ .ok (.enrolled token id login) := by
  rw [poll_eq, alone_check]
  by_cases hadm : env.admits .enrollPoll (clientKey headers none) = true
  swap
  · rw [if_neg hadm]
    exact ⟨_, rfl, by simp⟩
  rw [if_pos hadm]
  cases hv : verdict app body site clock with
  | crashes => exact absurd hv (verdict_ne_crashes hdays)
  | refused e => exact ⟨_, rfl, by simp⟩
  | unfinished status => exact ⟨_, rfl, by simp⟩
  | enrolls user => exact absurd ⟨user, hadm, (enrolls_iff hdays).mp (verdict_enrolls.mp hv)⟩ hno

/-- How a token response without an access token ends a poll. -/
theorem alone_poll_unauthorized {github : GitHub} {success : Bool} {response : TokenResponse}
    (hadm : env.admits .enrollPoll (clientKey headers none) = true) (hg : app.github = some github)
    (hr : site.accessToken github.clientId body.deviceCode = .response success (some response))
    (hno : response.accessToken = none) :
    alone env (poll app headers body site clock bytes) db = some
      (if response.error = some "authorization_pending" then .ok (.status "pending")
        else if response.error = some "slow_down" then .ok (.status "slow_down")
        else if response.error = some "access_denied" then .error (.forbidden "the sign-in was declined on GitHub")
        else .error (.badRequest "the code expired before it was entered; start again"), db) := by
  have hclass : github.poll site body.deviceCode = .ok (classify response) := by
    unfold GitHub.poll
    rw [hr]
  rw [poll_eq, alone_check, if_pos hadm]
  unfold verdict HarnessRegistry.github
  rw [hg]
  dsimp only
  rw [hclass]
  unfold classify
  rw [hno]
  dsimp only
  split_ifs <;> rfl

/-- GitHub confirms one account. -/
theorem Confirms.unique {user' : GitHubUser} (h : Confirms app body site user) (h' : Confirms app body site user') :
    user = user' := by
  obtain ⟨github, success, response, accessToken, hg, hr, hacc, hu⟩ := h
  obtain ⟨github', success', response', accessToken', hg', hr', hacc', hu'⟩ := h'
  obtain rfl := Option.some.inj (hg.symm.trans hg')
  rw [hr] at hr'
  cases hr'
  obtain rfl := Option.some.inj (hacc.symm.trans hacc')
  rw [hu] at hu'
  cases hu'
  rfl

/-- **When a poll mints.** If its statements go through and nobody comes
between them, a poll inserts a token if and only if the limiter admits it, a
client is configured, GitHub answers with an access token and then with a
profile, the account is old enough, and its publisher is not blocked. The token
is one row, of the publisher of the profile's id and with the digest of the
token in the answer, and no other token changes. What is refused before the
statements changes nothing at all. A token response without an access token
ends the flow, unless it says `authorization_pending` or `slow_down`. -/
theorem poll_mints_iff (hdays : (durationDays app.config.minAccountAgeDays).isSome = true) (env : Env) (db : Db)
    (headers : HeaderMap) (body : PollRequest) (site : Site) (clock : DateTime) (bytes : Vector UInt8 tokenBytes)
    (hdb : env.admits .enrollPoll (clientKey headers none) = true → ∀ user, Confirms app body site user →
      OldEnough app user clock → GoesThrough app env db user bytes) :
    ∃ out db', (handle app (.poll headers body site clock bytes)).alone (S := registry) env none db = some (out, db') ∧
      ((∃ row ∈ db'.tokens, row ∉ db.tokens) ↔ ∃ user, Mintable app env db headers body site clock user) ∧
      (∀ user, Mintable app env db headers body site clock user → ∃ q ∈ db'.publishers, q.githubId = user.id ∧
        out = .ok (.enrolled (generateToken bytes) q.id user.login) ∧ minted app bytes q.id ∉ db.tokens ∧
          ∀ x, x ∈ db'.tokens ↔ x ∈ db.tokens ∨ x = minted app bytes q.id) ∧
      ((¬ ∃ user, Mintable app env db headers body site clock user) → db'.tokens = db.tokens ∧
        ∀ token id login, out ≠ .ok (.enrolled token id login)) ∧
      ((¬ ∃ user, env.admits .enrollPoll (clientKey headers none) = true ∧ Confirms app body site user ∧
        OldEnough app user clock) → db' = db) ∧
      (env.admits .enrollPoll (clientKey headers none) = true → ∀ github success response, app.github = some github →
        site.accessToken github.clientId body.deviceCode = .response success (some response) →
        response.accessToken = none → response.error ≠ some "authorization_pending" → response.error ≠ some "slow_down" →
        out = .error (.forbidden "the sign-in was declined on GitHub") ∨
          out = .error (.badRequest "the code expired before it was entered; start again")) := by
  have hends : ∀ {out db'}, alone env (poll app headers body site clock bytes) db = some (out, db') →
      env.admits .enrollPoll (clientKey headers none) = true → ∀ github success response, app.github = some github →
        site.accessToken github.clientId body.deviceCode = .response success (some response) →
        response.accessToken = none → response.error ≠ some "authorization_pending" → response.error ≠ some "slow_down" →
        out = .error (.forbidden "the sign-in was declined on GitHub") ∨
          out = .error (.badRequest "the code expired before it was entered; start again") := by
    intro out db' ha hadm github success response hg hr hacc hpending hslow
    rw [alone_poll_unauthorized hadm hg hr hacc, if_neg hpending, if_neg hslow] at ha
    split_ifs at ha <;> cases ha
    · exact .inl rfl
    · exact .inr rfl
  by_cases hok : ∃ user, env.admits .enrollPoll (clientKey headers none) = true ∧ Confirms app body site user ∧
      OldEnough app user clock
  swap
  · obtain ⟨out, ha, hout⟩ := alone_poll_refused db bytes hdays hok
    have hno : ¬ ∃ user, Mintable app env db headers body site clock user :=
      fun ⟨user, hm⟩ => hok ⟨user, hm.admitted, hm.confirmed, hm.old⟩
    exact ⟨out, db, ha, ⟨fun ⟨_, hrow, hnew⟩ => absurd hrow hnew, fun hm => absurd hm hno⟩,
      fun user hm => absurd ⟨user, hm⟩ hno, fun _ => ⟨rfl, hout⟩, fun _ => rfl, hends ha⟩
  obtain ⟨user, hadm, hc, hold⟩ := hok
  have hpoll : alone env (poll app headers body site clock bytes) db = alone env (mint app user bytes) db := by
    rw [poll_eq, alone_check, if_pos hadm, verdict_enrolls.mpr ((enrolls_iff hdays).mpr ⟨hc, hold⟩)]
    rfl
  by_cases hu : ∀ q ∈ db.publishers, q.githubId = user.id → q.blockedAt = none
  · obtain ⟨db', q, hq, hg, ha, hnew, hmem⟩ := alone_mint_unblocked (hdb hadm user hc hold) hu
    have ha := hpoll.trans ha
    have hm : ∃ user, Mintable app env db headers body site clock user := ⟨user, hadm, hc, hold, hu⟩
    refine ⟨_, db', ha, ⟨fun _ => hm, fun _ => ⟨_, (hmem _).mpr (.inr rfl), hnew⟩⟩, fun user' hm' => ?_,
      fun hno => absurd hm hno, fun hno => absurd ⟨user, hadm, hc, hold⟩ hno, hends ha⟩
    obtain rfl := hc.unique hm'.confirmed
    exact ⟨q, hq, hg, rfl, hnew, hmem⟩
  · obtain ⟨db', ha, htokens⟩ := alone_mint_blocked (hdb hadm user hc hold) hu
    have ha := hpoll.trans ha
    have hno : ¬ ∃ user, Mintable app env db headers body site clock user := by
      rintro ⟨user', hm⟩
      obtain rfl := hc.unique hm.confirmed
      exact hu hm.unblocked
    refine ⟨_, db', ha, ⟨fun ⟨row, hrow, hnew⟩ => ?_, fun hm => absurd hm hno⟩, fun user' hm => absurd ⟨user', hm⟩ hno,
      fun _ => ⟨htokens, by simp⟩, fun hno => absurd ⟨user, hadm, hc, hold⟩ hno, hends ha⟩
    rw [htokens] at hrow
    exact absurd hrow hnew

/-- The replica with a GitHub client. -/
def Sample.enrolling : AppState := { replica with github := some ⟨"client"⟩ }

/-- A profile, old enough forty days later. -/
def Sample.ada : GitHubUser := ⟨1000, "ada-l", some "Ada Lovelace", none, 0⟩

/-- GitHub confirms the account. -/
def Sample.gitHub : Site :=
  ⟨fun _ => .unreachable, fun _ _ => .response true (some ⟨some "gho", none⟩), fun _ => .response true (some ada)⟩

/-- Forty days, in nanoseconds. -/
def Sample.today : DateTime := 40 * 86400 * 1000000000

theorem Sample.confirms : Confirms Sample.enrolling ⟨"code"⟩ Sample.gitHub Sample.ada :=
  ⟨⟨"client"⟩, true, ⟨some "gho", none⟩, "gho", rfl, rfl, rfl, rfl⟩

theorem Sample.oldEnough : OldEnough Sample.enrolling Sample.ada Sample.today := .inr (by decide)

/-- On empty tables, a first enrollment. -/
theorem poll_mints_iff_first :
    ∃ out db', (handle Sample.enrolling (.poll (Sample.headers "") ⟨"code"⟩ Sample.gitHub Sample.today
        (Sample.bytes 0))).alone (S := registry) (Sample.env 10) none ⟨∅, ∅, ∅, ∅, ∅⟩ = some (out, db') ∧
      ∃ q ∈ db'.publishers, q.githubId = 1000 ∧ out = .ok (.enrolled (Sample.token 0) q.id "ada-l") ∧
        ∀ x, x ∈ db'.tokens ↔ x = minted Sample.enrolling (Sample.bytes 0) q.id := by
  let db : Db := ⟨∅, ∅, ∅, ∅, ∅⟩
  have hdb : GoesThrough Sample.enrolling (Sample.env 10) db Sample.ada (Sample.bytes 0) := by
    let row : PublisherRow := ⟨10, 1000, "ada-l", Sample.ada.displayName, none, none⟩
    have hup : Stmt.exec (Sample.env 10) (.enrollPublisher 1000 "ada-l" Sample.ada.displayName none) db =
        .ok ((10, none), [.insertPublisher row]) := by
      rw [exec_eq_run (by decide +kernel)]
      rfl
    have hins : Stmt.exec (Sample.env 10) (.insertToken 10 (hashToken Sample.sha256 (Sample.token 0)) tokenName)
        ((Write.insertPublisher row).apply db) =
          .ok ((), [.insertToken (minted Sample.enrolling (Sample.bytes 0) 10)]) := by
      rw [exec_eq_run (by decide +kernel)]
      rfl
    exact ⟨10, none, [.insertPublisher row], hup, fun _ => ⟨_, hins⟩⟩
  have hmint : Mintable Sample.enrolling (Sample.env 10) db (Sample.headers "") ⟨"code"⟩ Sample.gitHub Sample.today
      Sample.ada :=
    ⟨rfl, Sample.confirms, Sample.oldEnough, fun q hq => by cases hq⟩
  have hdays : (durationDays Sample.enrolling.config.minAccountAgeDays).isSome = true := by decide
  obtain ⟨out, db', ha, -, hall, -⟩ := poll_mints_iff hdays (Sample.env 10) db (Sample.headers "") ⟨"code"⟩ Sample.gitHub
    Sample.today (Sample.bytes 0) fun _ user hc _ => hc.unique Sample.confirms ▸ hdb
  obtain ⟨q, hq, hg, hout, -, hmem⟩ := hall Sample.ada hmint
  refine ⟨out, db', ha, q, hq, hg, hout, fun x => ⟨fun hx => ?_, fun hx => (hmem x).mpr (.inr hx)⟩⟩
  rcases (hmem x).mp hx with hin | hin
  · cases hin
  · exact hin

/-! ### What a failed enrollment leaves behind -/

/-- The upsert is carried out: the limiter admits the poll, somebody enrolls,
and the statement goes through. -/
def Upserting (app : AppState) (db : Db) (headers : HeaderMap) (body : PollRequest) (site : Site) (clock : DateTime)
    (cs : List (Choice registry)) (user : GitHubUser) : Prop :=
  ∃ (env env' : Env) (cs' : List (Choice registry)), cs = .go env :: .go env' :: cs' ∧
    env.admits .enrollPoll (clientKey headers none) = true ∧ Enrolls app body site clock user ∧
      ∃ r, Stmt.exec env' (.enrollPublisher user.id user.login user.displayName user.avatarUrl) db = .ok r

/-- How an enrollment may end: at the upsert, for the block, at the token, or
with it. -/
inductive Minting (db : Db) (user : GitHubUser) (out : Except Error Reply) (db' : Db) : Prop
  | failed {e : Error} : out = .error e → db' = db → Minting db user out db'
  | blocked {q : PublisherRow} : out = .error (.forbidden "publisher is blocked") → q ∈ db.publishers →
      q.githubId = user.id →
      db' = (Write.enrollPublisher q.id user.login user.displayName user.avatarUrl).apply db → Minting db user out db'
  | untokened {p : Uuid} {w : Write} {e : Error} : out = .error e → db' = w.apply db → Upserts.enroll user db p w →
      (∀ q ∈ db.publishers, q.githubId = user.id → q.blockedAt = none) → Minting db user out db'
  | minted {token : String} {p : Uuid} {login : String} : out = .ok (.enrolled token p login) → Minting db user out db'

theorem served_mint {cs : List (Choice registry)} {out : Except Error Reply}
    (h : served (mint app user bytes) db cs = some (out, db')) : Minting db user out db' ∧
      ((∀ env cs' r, cs = .go env :: cs' →
        Stmt.exec env (.enrollPublisher user.id user.login user.displayName user.avatarUrl) db ≠ .ok r) → db' = db) := by
  rcases served_queryOr h with ⟨env, cs', a, ws, rfl, hx, h⟩ | ⟨hno, ⟨e, rfl⟩, rfl⟩
  swap
  · exact ⟨.failed rfl rfl, fun _ => rfl⟩
  refine ⟨?_, fun hno => absurd hx (hno env cs' _ rfl)⟩
  obtain ⟨p, blockedAt⟩ := a
  have hrun := run_of_exec hx
  obtain ⟨w, rfl, hw, -⟩ := run_enrollPublisher hrun
  cases blockedAt with
  | some at_ =>
    obtain ⟨hout, hdb⟩ := served_throw h
    cases hw with
    | insert env =>
      -- a new row is not blocked
      have hnew := not_has_publisher (run_fresh hrun)
      have hall : ∀ q ∈ db.publishers, q.githubId = user.id → q.blockedAt = none := fun q hq hg =>
        absurd ⟨q, hq, (clash_publisher _ _).mpr (.inr hg)⟩ hnew
      cases (unblocked_iff hrun).mpr hall
    | update hq hg => exact .blocked hout hq hg hdb
  | none =>
    have hu := (unblocked_iff hrun).mp rfl
    rcases served_queryOr h with ⟨env', cs'', b, vs, rfl, hx', h⟩ | ⟨-, ⟨e, hout⟩, hdb⟩
    · obtain ⟨hout, -⟩ := served_pure h
      exact .minted hout
    · exact .untokened hout hdb hw hu

/-- A poll changes nothing, or its enrollment ends somehow. -/
theorem served_poll {cs : List (Choice registry)} {out : Except Error Reply}
    (h : served (poll app headers body site clock bytes) db cs = some (out, db')) :
    ((∀ user, ¬ Upserting app db headers body site clock cs user) → db' = db) ∧
      ((db' = db ∧ ∀ token p login, out ≠ .ok (.enrolled token p login)) ∨
        ∃ user, Enrolls app body site clock user ∧ Minting db user out db') := by
  rw [poll_eq] at h
  obtain ⟨env, cs', rfl, hrest⟩ := served_check h
  by_cases hadm : env.admits .enrollPoll (clientKey headers none) = true
  swap
  · rw [if_neg hadm] at hrest
    obtain ⟨rfl, rfl⟩ := served_throw hrest
    exact ⟨fun _ => rfl, .inl ⟨rfl, by simp⟩⟩
  rw [if_pos hadm] at hrest
  cases hv : verdict app body site clock with
  | crashes =>
    rw [hv, Verdict.handler, served_crash] at hrest
    cases hrest
  | refused e =>
    rw [hv] at hrest
    obtain ⟨rfl, rfl⟩ := served_throw hrest
    exact ⟨fun _ => rfl, .inl ⟨rfl, by simp⟩⟩
  | unfinished status =>
    rw [hv] at hrest
    obtain ⟨rfl, rfl⟩ := served_pure hrest
    exact ⟨fun _ => rfl, .inl ⟨rfl, by simp⟩⟩
  | enrolls user =>
    rw [hv] at hrest
    have henrolls := verdict_enrolls.mp hv
    obtain ⟨hend, hsame⟩ := served_mint hrest
    refine ⟨fun hno => hsame fun env' cs'' r hcs hx => ?_, .inr ⟨user, henrolls, hend⟩⟩
    exact hno user ⟨env, env', cs'', by rw [hcs], hadm, henrolls, r, hx⟩

theorem Enrolls.unique {user' : GitHubUser} (h : Enrolls app body site clock user)
    (h' : Enrolls app body site clock user') : user = user' := by
  rw [← verdict_enrolls] at h h'
  rw [h] at h'
  cases h'
  rfl

/-- The row of a publisher that enrolls again. -/
def PublisherRow.refreshed (q : PublisherRow) (user : GitHubUser) : PublisherRow :=
  { q with githubLogin := user.login, displayName := q.displayName.or user.displayName,
           avatarUrl := user.avatarUrl.or q.avatarUrl }

/-- Enrolling again changes one row. -/
theorem mem_refreshed {q : PublisherRow} (hq : q ∈ db.publishers) (x : PublisherRow) :
    x ∈ ((Write.enrollPublisher q.id user.login user.displayName user.avatarUrl).apply db).publishers ↔
      (x ∈ db.publishers ∧ x ≠ q) ∨ x = q.refreshed user := by
  constructor
  · intro hx
    obtain ⟨y, hy, rfl⟩ := List.mem_map.mp hx
    by_cases hid : y.id = q.id
    · rw [if_pos hid, PublisherRow.eq_of_id hy hq hid]
      exact .inr rfl
    · rw [if_neg hid]
      exact .inl ⟨hy, fun he => hid (congrArg PublisherRow.id he)⟩
  · rintro (⟨hx, hne⟩ | rfl)
    · exact List.mem_map.mpr ⟨x, hx, if_neg fun hid => hne (PublisherRow.eq_of_id hx hq hid)⟩
    · exact List.mem_map.mpr ⟨q, hq, if_pos rfl⟩

/-- **A failed enrollment mints nothing**, and nothing changes unless its
upsert was carried out; that of a blocked publisher refreshes the one row. -/
theorem failed_enrollment {s₀ s : Registry} {cs : List (Choice registry)} {t : Call} {out : Except Error Reply}
    (hrun : s₀.run (handle app) (.arrive (.poll headers body site clock bytes) :: cs.map (.task s₀.tasks.length)) = some s)
    (ht : s.tasks[s₀.tasks.length]? = some t) (ha : t.answered = some out)
    (hfail : ∀ token p login, out ≠ .ok (.enrolled token p login)) :
    s.db.tokens = s₀.db.tokens ∧
      ((∀ user, ¬ Upserting app s₀.db headers body site clock cs user) → s.db = s₀.db) ∧
      ∀ user, Enrolls app body site clock user → ∀ q ∈ s₀.db.publishers, q.githubId = user.id → q.blockedAt ≠ none →
        s.db = s₀.db ∨ out = .error (.forbidden "publisher is blocked") ∧
          ∀ x, x ∈ s.db.publishers ↔ (x ∈ s₀.db.publishers ∧ x ≠ q) ∨ x = q.refreshed user := by
  obtain ⟨s₁, hst, hrest⟩ := Option.bind_eq_some_iff.mp hrun
  obtain rfl := Option.some.inj hst
  obtain ⟨-, hserved⟩ := Pool.run_served cs (Pool.arrived_task (handle app) s₀ _) hrest ht ha
  have hserved : served (poll app headers body site clock bytes) s₀.db cs = some (out, s.db) := hserved
  obtain ⟨hsame, hend⟩ := served_poll hserved
  refine ⟨?_, hsame, fun user hu q hq hg hb => ?_⟩
  · rcases hend with ⟨hdb, -⟩ | ⟨user, -, hend⟩
    · rw [hdb]
    · cases hend with
      | failed _ hdb => rw [hdb]
      | blocked _ _ _ hdb => rw [hdb]; rfl
      | untokened _ hdb hw _ => rw [hdb]; exact hw.tokens
      | minted hout => exact absurd hout (hfail _ _ _)
  · rcases hend with ⟨hdb, -⟩ | ⟨user', hu', hend⟩
    · exact .inl hdb
    · obtain rfl := hu.unique hu'
      cases hend with
      | failed _ hdb => exact .inl hdb
      | blocked hout hq' hg' hdb =>
        obtain rfl := PublisherRow.eq_of_githubId hq' hq (hg'.trans hg.symm)
        rw [hdb]
        exact .inr ⟨hout, mem_refreshed hq⟩
      | untokened _ _ _ hfree => exact absurd (hfree q hq hg) hb
      | minted hout => exact absurd hout (hfail _ _ _)

/-- One publisher, who is blocked. -/
def Sample.blockedOnly : Db := ⟨(∅ : Table PublisherRow).insert ⟨1, 1000, "ada", none, none, some 5⟩, ∅, ∅, ∅, ∅⟩

/-- A poll for the publisher's account. -/
def Sample.poll : Request := .poll (Sample.headers "") ⟨"code"⟩ gitHub today (Sample.bytes 0)

/-- **A refused enrollment that changes a row**: the blocked publisher's. -/
theorem blocked_row_refreshed :
    ∃ s, (Registry.start Sample.blockedOnly).run (handle Sample.enrolling)
        (.arrive Sample.poll :: [.go (Sample.env 10), .go (Sample.env 11)].map (.task 0)) = some s ∧
      s.tasks.map Task.answered = [some (.error (.forbidden "publisher is blocked"))] ∧
      s.db.publishers.rows = [⟨1, 1000, "ada-l", some "Ada Lovelace", none, some 5⟩] ∧
      s.db.publishers.rows ≠ Sample.blockedOnly.publishers.rows := by
  have h : ((Registry.start Sample.blockedOnly).run (handle Sample.enrolling)
      (.arrive Sample.poll :: [.go (Sample.env 10), .go (Sample.env 11)].map (.task 0))).map
      (fun s => (s.tasks.map Task.answered, s.db.publishers.rows)) =
      some ([some (.error (.forbidden "publisher is blocked"))],
        [⟨1, 1000, "ada-l", some "Ada Lovelace", none, some 5⟩]) := by decide +kernel
  obtain ⟨s, hs, he⟩ := Option.map_eq_some_iff.mp h
  obtain ⟨ha, hrows⟩ := Prod.mk.inj he
  exact ⟨s, hs, ha, hrows, by rw [hrows]; decide +kernel⟩

/-- With an upsert that fails, nothing changes. -/
theorem failed_enrollment_upsert :
    ∃ s, (Registry.start Sample.blockedOnly).run (handle Sample.enrolling)
        (.arrive Sample.poll :: [.go (Sample.env 10), .fail].map (.task 0)) = some s ∧ s.db = Sample.blockedOnly := by
  have h : ((Registry.start Sample.blockedOnly).run (handle Sample.enrolling)
      (.arrive Sample.poll :: [.go (Sample.env 10), .fail].map (.task 0))).bind
      (fun s => s.tasks[0]?.bind Task.answered) = some (.error (.database .other)) := by decide +kernel
  obtain ⟨s, hs, h⟩ := Option.bind_eq_some_iff.mp h
  obtain ⟨t, ht, ha⟩ := Option.bind_eq_some_iff.mp h
  refine ⟨s, hs, (failed_enrollment hs ht ha (by simp)).2.1 ?_⟩
  rintro user ⟨env, env', cs', hcs, -⟩
  cases hcs

end HarnessRegistry

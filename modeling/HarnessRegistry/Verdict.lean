/-
# What a poll comes to

Before its first statement a poll asks the limiter, GitHub twice and the clock.
All it makes of their answers is a `Verdict`: an error, a "not yet", or an
account that enrolls. So a poll is one check, a verdict and what follows it
(`poll_eq`); `mint` is what follows if somebody enrolls.

Key definitions: `Verdict`, `verdict`, `mint`, `Verdict.handler`.
Key theorems: `poll_eq`, `verdict_enrolls`.
-/
import HarnessRegistry.Effects

namespace HarnessRegistry

open Txn Handler

variable {app : AppState} {body : PollRequest} {site : Site} {clock : DateTime} {bytes : Vector UInt8 tokenBytes}
  {user : GitHubUser}

/-- What a poll comes to before it turns to the database. -/
inductive Verdict
  | crashes
  | refused (e : Error)
  | unfinished (status : String)
  | enrolls (user : GitHubUser)

/-- What GitHub's answers and the clock come to. -/
def verdict (app : AppState) (body : PollRequest) (site : Site) (now : DateTime) : Verdict :=
  match github app with
  | .error e => .refused e
  | .ok github => match github.poll site body.deviceCode with
    | .error e => .refused e
    | .ok .pending => .unfinished "pending"
    | .ok .slowDown => .unfinished "slow_down"
    | .ok .declined => .refused (.forbidden "the sign-in was declined on GitHub")
    | .ok .expired => .refused (.badRequest "the code expired before it was entered; start again")
    | .ok (.authorized accessToken) => match GitHub.user site accessToken with
      | .error e => .refused e
      | .ok user => match oldEnough user.createdAt now app.config.minAccountAgeDays with
        | none => .crashes
        | some true => .enrolls user
        | some false => .refused (.forbidden
            s!"a GitHub account must be at least {app.config.minAccountAgeDays} days old to publish here")

/-- The statements of an enrollment. -/
def mint (app : AppState) (user : GitHubUser) (bytes : Vector UInt8 tokenBytes) : Handler Reply :=
  query (.enrollPublisher user.id user.login user.displayName user.avatarUrl) >>= fun found =>
    if found.2.isSome then throw (.forbidden "publisher is blocked") else
      query (.insertToken found.1 (hashToken app.sha256 (generateToken bytes)) tokenName) >>= fun _ =>
        pure (.enrolled (generateToken bytes) found.1 user.login)

/-- What follows the verdict. -/
def Verdict.handler (app : AppState) (bytes : Vector UInt8 tokenBytes) : Verdict → Handler Reply
  | .crashes => crash
  | .refused e => throw e
  | .unfinished status => pure (.status status)
  | .enrolls user => mint app user bytes

theorem enroll_eq (h : oldEnough user.createdAt clock app.config.minAccountAgeDays = some true) :
    enroll app user clock bytes = mint app user bytes := by
  unfold enroll checkAccountAge mint upsertPublisher
  simp only [h, pure_bind, bind_assoc]
  congr 1
  funext ⟨id, blockedAt⟩
  cases blockedAt <;> rfl

/-- A poll is a check, a verdict and what follows it. -/
theorem poll_eq (app : AppState) (headers : HeaderMap) (body : PollRequest) (site : Site) (now : DateTime)
    (bytes : Vector UInt8 tokenBytes) :
    poll app headers body site now bytes = (check .enrollPoll (clientKey headers none) >>= fun admitted =>
      if admitted = true then (verdict app body site now).handler app bytes else throw .tooManyRequests) := by
  unfold poll verdict
  congr 1
  funext admitted
  cases admitted with
  | false => rfl
  | true =>
    simp only [Bool.not_true, Bool.false_eq_true, ↓reduceIte]
    cases hgithub : github app with
    | error e => exact lift_error_bind _ _
    | ok client =>
      rw [lift_ok_bind]
      dsimp only
      cases hpoll : client.poll site body.deviceCode with
      | error e => exact lift_error_bind _ _
      | ok p =>
        rw [lift_ok_bind]
        cases p with
        | pending | slowDown | declined | expired => rfl
        | authorized accessToken =>
          dsimp only
          cases huser : GitHub.user site accessToken with
          | error e => exact lift_error_bind _ _
          | ok user =>
            rw [lift_ok_bind]
            dsimp only
            cases hold : oldEnough user.createdAt now app.config.minAccountAgeDays with
            | none =>
              unfold enroll checkAccountAge
              dsimp only
              rw [hold]
              rfl
            | some old =>
              cases old with
              | true => exact enroll_eq hold
              | false =>
                unfold enroll checkAccountAge
                dsimp only
                rw [hold]
                rfl

/-- Whoever the verdict names enrolls. -/
theorem verdict_enrolls : verdict app body site clock = .enrolls user ↔ Enrolls app body site clock user := by
  unfold verdict github
  constructor
  · intro h
    cases hg : app.github with
    | none => rw [hg] at h; cases h
    | some github =>
      rw [hg] at h
      dsimp only at h
      cases hp : github.poll site body.deviceCode with
      | error e => rw [hp] at h; cases h
      | ok p =>
        rw [hp] at h
        cases p with
        | pending | slowDown | declined | expired => cases h
        | authorized accessToken =>
          dsimp only at h
          cases hu : GitHub.user site accessToken with
          | error e => rw [hu] at h; cases h
          | ok found =>
            rw [hu] at h
            dsimp only at h
            cases ho : oldEnough found.createdAt clock app.config.minAccountAgeDays with
            | none => rw [ho] at h; cases h
            | some old =>
              rw [ho] at h
              cases old with
              | false => cases h
              | true => cases h; exact ⟨github, accessToken, hg, hp, hu, ho⟩
  · rintro ⟨github, accessToken, hg, hp, hu, ho⟩
    simp only [hg, hp, hu, ho]

end HarnessRegistry

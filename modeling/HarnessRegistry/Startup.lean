/-
# What `main` builds, and failing closed

`main` reads the configuration, builds the GitHub client and the limiters, and
serves (`boot`). "A deployment that forgets the variable fails closed": without
`ADMIN_TOKEN` no request of an operator, and without `GITHUB_CLIENT_ID` no
enrollment, ever commits a write or learns anything but that there is no such
route; without both, no token comes into being, in any run (`fails_closed`).

Key definitions: `GitHub.new`, `Started`, `boot`, `Refused`, `Shut`.
Key theorems: `shut_run`, `fails_closed`.
-/
import HarnessRegistry.Enroll
import HarnessRegistry.Identity
import HarnessRegistry.Operator
import HarnessRegistry.Settings
import HarnessRegistry.BodyLimit

namespace HarnessRegistry

open Txn Handler

variable {app : AppState} {db₀ : Db} {s : Registry} {w : ℕ}

/-- `GitHub::new`. The HTTP client, which is not the service's own code, is
`built` or not. -/
def GitHub.new (built : Bool) (clientId : Option String) : Option GitHub :=
  match (clientId.map trim).filter (!·.isEmpty) with
  | none => none
  | some clientId => if built then some ⟨clientId⟩ else none

/-- What `main` serves with. -/
structure Started (w : ℕ) where
  app : AppState
  limiters : Limiters
  bodyLimit : BitVec w

/-- `main`, as far as the listener. -/
def boot (w : ℕ) (sha256 : Digest) (built : Bool) (env : Environ) : Except MissingVar (Started w) := do
  let config ← Settings.fromEnv w env
  return ⟨⟨config.config, GitHub.new built config.githubClientId, sha256⟩, config.rates.limiters,
    HarnessRegistry.bodyLimit config.maxYamlBytes⟩

/-! ### Requests that are turned away -/

/-- The program only asks the limiters, and is refused with one of `es`. -/
def Refused (es : List Error) : Prog registry (Except Error Reply) → Prop
  | .ret out => ∃ e ∈ es, out = .error e
  | .ask .. => True
  | _ => False

/-- The requests that `kind` names have committed nothing, and those answered
have been refused with one of `es`. -/
def Shut (s : Registry) (kind : Request → Bool) (es : List Error) : Prop :=
  ∀ t ∈ s.tasks, kind t.req = true → t.done = [] ∧ ∀ out, t.answered = some out → ∃ e ∈ es, out = .error e

/-- Programs that are refused whatever happens commit nothing in any run. -/
theorem shut_run {kind : Request → Bool} {es : List Error}
    (hkind : ∀ req, kind req = true → (handle app req).Every (Refused es)) (h : Reached app db₀ s) : Shut s kind es := by
  have key : ∀ t ∈ s.tasks, kind t.req = true → t.prog.Every (Refused es) ∧ t.done = [] := by
    obtain ⟨as, h⟩ := h
    refine Pool.run_induct (P := fun s => ∀ t ∈ s.tasks, kind t.req = true → t.prog.Every (Refused es) ∧ t.done = [])
      (by simp [Registry.start]) (fun s₁ a s₂ ih hst t ht hk => ?_) h
    obtain ⟨r, ht⟩ := List.mem_iff_getElem?.mp ht
    rcases Pool.step_task hst ht with ht | ⟨req, rfl⟩ | ⟨c, u, ws, -, hu, hm, -⟩
    · exact ih t (List.mem_of_getElem? ht) hk
    · exact ⟨hkind req hk, rfl⟩
    · obtain ⟨hreq, hdone⟩ := Contract.move_eq hm
      obtain ⟨hev, hnil⟩ := ih u (List.mem_of_getElem? hu) (hreq ▸ hk)
      refine ⟨Pool.move_every hev hm, ?_⟩
      -- nothing that commits is left in the program
      have hws : ws = [] := by
        by_contra hne
        have hself := hev.self
        obtain ⟨_, _, _, ⟨k, x, hp, -⟩ | ⟨q, k, a, hp, -⟩⟩ := Task.move_commits hm hne
        · rw [hp] at hself
          exact hself
        · rw [hp] at hself
          exact hself
      rw [hdone, hnil, hws]
      rfl
  intro t ht hk
  obtain ⟨hev, hdone⟩ := key t ht hk
  refine ⟨hdone, fun out ha => ?_⟩
  have hself := hev.self
  rw [(Task.answered_eq.mp ha).2] at hself
  exact hself

/-- A request of the operator. -/
def Request.operates (req : Request) : Bool := req.admin?.isSome

/-- A request of the device flow. -/
def Request.enrolls : Request → Bool
  | .start .. | .poll .. => true
  | _ => false

theorem operates_refused (ht : app.config.adminToken = none) {req : Request} (h : req.operates = true) :
    (handle app req).Every (Refused [.notFound "route"]) := by
  obtain ⟨headers, hreq⟩ := Option.isSome_iff_exists.mp h
  rw [handle_refused hreq (no_route ht headers)]
  exact ⟨_, List.mem_cons_self, rfl⟩

theorem enrolls_refused (hg : app.github = none) {req : Request} (h : req.enrolls = true) :
    (handle app req).Every (Refused [.tooManyRequests, .notFound "route"]) := by
  have hnone : github app = .error (.notFound "route") := by rw [github, hg]
  have refused : ∀ {g : GitHub → Handler Reply}, Every (Refused [.tooManyRequests, .notFound "route"]) (lift (github app) >>= g) := by
    intro g
    rw [hnone, lift_error_bind]
    exact every_throw ⟨_, List.mem_cons_of_mem _ List.mem_cons_self, rfl⟩
  cases req with
  | start => exact every_limited (fun _ => trivial) ⟨_, List.mem_cons_self, rfl⟩ refused
  | poll => exact every_limited (fun _ => trivial) ⟨_, List.mem_cons_self, rfl⟩ refused
  | _ => cases h

/-- A token is put in by an operator or at the end of a device flow. -/
theorem Reached.mints (h0 : db₀.Sound) (h : Reached app db₀ s) {r : ℕ} {row : TokenRow}
    (hlog : (some r, .insertToken row) ∈ s.log) :
    ∃ t ∈ s.tasks, t.done ≠ [] ∧ (t.req.operates = true ∨ t.req.enrolls = true) := by
  have hg := h.good h0
  have hlt := hg.logged.index _ hlog r rfl
  have ht : s.tasks[r]? = some s.tasks[r] := List.getElem?_eq_getElem hlt
  generalize s.tasks[r] = t at ht
  have hmem := (hg.logged_done ht).mpr hlog
  have hc := h.committed h0 r t ht
  refine ⟨t, List.mem_of_getElem? ht, List.ne_nil_of_mem hmem, ?_⟩
  generalize t.done = done at hc hmem
  generalize t.req = req at hc
  cases hc with
  | preparing hp _ => cases hp _ hmem
  | effect hp he _ =>
    have hmem := (List.mem_append.mp hmem).resolve_left fun hm => by cases hp _ hm
    cases he with
    | enrolled => exact .inr rfl
    | issued => exact .inl rfl
    | _ => simp at hmem

/-! ### Failing closed -/

theorem boot_eq {sha256 : Digest} {built : Bool} {env : Environ} {b : Started w} (h : boot w sha256 built env = .ok b) :
    b.app.config.adminToken = env.nonEmpty "ADMIN_TOKEN" ∧
      b.app.github = GitHub.new built (env.nonEmpty "GITHUB_CLIENT_ID") := by
  unfold boot Settings.fromEnv at h
  cases hurl : env "DATABASE_URL" with
  | error e => rw [hurl] at h; cases h
  | ok url =>
    rw [hurl] at h
    cases h
    exact ⟨rfl, rfl⟩

theorem nonEmpty_eq_none {env : Environ} {name : String} (h : ∀ v, env name = .ok v → v = "") : env.nonEmpty name = none := by
  unfold Environ.nonEmpty
  cases hv : env name with
  | error e => rfl
  | ok v =>
    rw [h v hv]
    rfl

theorem new_eq_none {env : Environ} {built : Bool} {name : String}
    (h : ∀ v, env name = .ok v → (trim v).isEmpty = true) : GitHub.new built (env.nonEmpty name) = none := by
  have hblank : ((env.nonEmpty name).map trim).filter (!·.isEmpty) = none := by
    rw [Option.filter_eq_none_iff]
    intro t ht
    obtain ⟨v, hv, rfl⟩ := Option.map_eq_some_iff.mp ht
    have hset : (env name).toOption = some v := (Option.filter_eq_some_iff.mp hv).1
    cases he : env name with
    | error e => rw [he] at hset; cases hset
    | ok u =>
      rw [he] at hset
      cases hset
      simp [h _ he]
  rw [GitHub.new, hblank]

/-- **A replica fails closed.** Started without an admin token, it never carries
out a request of an operator; without a client id, or with a blank one, it never
enrolls anybody; without both, every token is from before the run. -/
theorem fails_closed {sha256 : Digest} {built : Bool} {env : Environ} {b : Started w}
    (hboot : boot w sha256 built env = .ok b) (h0 : db₀.Sound) (h : Reached b.app db₀ s) :
    ((∀ t, env "ADMIN_TOKEN" = .ok t → t = "") → Shut s Request.operates [.notFound "route"]) ∧
    ((∀ id, env "GITHUB_CLIENT_ID" = .ok id → (trim id).isEmpty = true) →
      Shut s Request.enrolls [.tooManyRequests, .notFound "route"]) ∧
    ((∀ t, env "ADMIN_TOKEN" = .ok t → t = "") →
      (∀ id, env "GITHUB_CLIENT_ID" = .ok id → (trim id).isEmpty = true) →
      ∀ row ∈ s.db.tokens, ∃ row₀ ∈ db₀.tokens, row₀.same row) := by
  obtain ⟨hadmin, hgithub⟩ := boot_eq hboot
  have operators : (∀ t, env "ADMIN_TOKEN" = .ok t → t = "") → Shut s Request.operates [.notFound "route"] :=
    fun ht => shut_run (fun _ hreq => operates_refused (hadmin.trans (nonEmpty_eq_none ht)) hreq) h
  have enrollments : (∀ id, env "GITHUB_CLIENT_ID" = .ok id → (trim id).isEmpty = true) →
      Shut s Request.enrolls [.tooManyRequests, .notFound "route"] :=
    fun hid => shut_run (fun _ hreq => enrolls_refused (hgithub.trans (new_eq_none hid)) hreq) h
  refine ⟨operators, enrollments, fun ht hid row hrow => ?_⟩
  rcases h.token_inserted h0 row hrow with hold | ⟨r, row₀, hlog, -⟩
  · exact hold
  · obtain ⟨t, ht', hdone, hop | hen⟩ := h.mints h0 hlog
    · exact absurd (operators ht t ht' hop).1 hdone
    · exact absurd (enrollments hid t ht' hen).1 hdone

/-- An environment with nothing but a database. -/
def Sample.bare : Environ := fun name => if name = "DATABASE_URL" then .ok "postgres://registry" else .error .notPresent

theorem fails_closed_bare :
    ∃ (b : Started 64) (s : Registry), boot 64 Sample.sha256 true Sample.bare = .ok b ∧ Reached b.app Sample.library s ∧
      s.tasks.map Task.answered = [some (.error (.notFound "route")), some (.error (.notFound "route"))] ∧
      ∀ row ∈ s.db.tokens, ∃ row₀ ∈ Sample.library.tokens, row₀.same row := by
  obtain ⟨b, hb⟩ : ∃ b, boot 64 Sample.sha256 true Sample.bare = .ok b := ⟨_, rfl⟩
  have happ : b.app = ⟨⟨none, 262144, 30, 25⟩, none, Sample.sha256⟩ := by
    cases hb
    rfl
  have h : ((Registry.start Sample.library).run (handle ⟨⟨none, 262144, 30, 25⟩, none, Sample.sha256⟩)
      (.arrive (Sample.issue 0 1000 "ada") :: Sample.serve 10 1 Sample.poll 1)).map (fun s => s.tasks.map Task.answered) =
        some [some (.error (.notFound "route")), some (.error (.notFound "route"))] := by decide +kernel
  obtain ⟨s, hs, ha⟩ := Option.map_eq_some_iff.mp h
  have hr : Reached b.app Sample.library s := ⟨_, happ ▸ hs⟩
  exact ⟨b, s, hb, hr, ha, (fails_closed hb Sample.initial.sound hr).2.2 (fun t ht => by cases ht) fun id hid => by cases hid⟩

end HarnessRegistry

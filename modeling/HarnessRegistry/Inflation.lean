/-
# How many counted installs one client can hold

The install count is defended by the rate limit and by the ninety days. One
replica handles records and forgets, each at one instant. A row counts at `T`
when it was last seen less than ninety days before; its last record was let
through by the limiter then, under the key of the address it carried, whatever
else it carried. So of the rows whose last record carried one address no more
count than calls of that key pass in ninety days.

Key definitions: `Request.install?`, `Recorded`, `lastRecord`, `carriedBy`,
`Arrival.visit`.
Key theorems: `serve_record`, `serve_recorded`, `run_installs`, `clientKey_address`,
`client_installs_bounded`.
-/
import HarnessRegistry.Replica
import HarnessRegistry.Runs
import HarnessRegistry.Spans
import HarnessRegistry.Spread

namespace HarnessRegistry

open Txn Handler Machine

/-- The headers of a record or a forget. -/
def Request.install? : Request → Option HeaderMap
  | .record headers _ _ | .forget headers _ _ => some headers
  | _ => none

/-- A request that a replica has handled. -/
abbrev Handled := Turn Replica Arrival (Option (Except Error Reply))

/-- A record of the row's workflow and installation that succeeded. -/
def Recorded (e : Handled) (i : InstallRow) : Bool := match e.input.req, e.answer with
  | .record _ slug body, some (.ok (.status _)) => body.installationId == i.installationId &&
      e.state.db.workflows.rows.any fun w => w.slug == slug && w.id == i.workflowId
  | _, _ => false

/-- The last record of the row. -/
def lastRecord (es : List Handled) (i : InstallRow) : Option Handled := (es.filter (Recorded · i)).getLast?

/-- The last record of the row carried this `CF-Connecting-IP`. -/
def carriedBy (address : HeaderValue) (es : List Handled) (i : InstallRow) : Bool := match lastRecord es i with
  | some e => (e.input.req.install?.bind (· "cf-connecting-ip")) == some address
  | none => false

/-- Its last record is less than ninety days before `now`. -/
def InstallRow.recent (i : InstallRow) (now : Timestamp) : Bool := i.lastSeenAt > now - ninetyDays

/-- The call of the limiter that a request makes. -/
def Arrival.visit (e : Arrival) : Option Visit := e.req.install?.map fun headers => ⟨e.now, clientKey headers none⟩

/-! ### What the two handlers do -/

section Serve

variable {now : Instant} {env : Env} {faults : List Bool} {s : Replica} {app : AppState} {h : HeaderMap} {slug : String}

/-- How a request behind a limiter may end, given what the limiter said: it
has written nothing and confirms nothing, or it was let through and succeeded
with these writes. -/
def Ended (s : Replica) (c : Bool × Limiters) (success : Reply → List Write → Prop)
    (r : Option (Except Error Reply) × Replica) : Prop :=
  r.2.limiters = c.2 ∧ ((r.2.db = s.db ∧ ∀ reply, r.1 ≠ some (.ok reply)) ∨
    c.1 = true ∧ ∃ reply ws, r.1 = some (.ok reply) ∧ success reply ws ∧ r.2.db = registry.applyAll ws s.db)

theorem ended_error {c : Bool × Limiters} {success : Reply → List Write → Prop} (e : Error) :
    Ended s c success (some (.error e), ⟨c.2, s.db⟩) := ⟨rfl, .inl ⟨rfl, by simp⟩⟩

/-- A record writes its row, or nothing. -/
theorem serve_record {body : RecordInstall} :
    Ended s (s.limiters.check .install now (clientKey h none)) (fun reply ws => reply = .status "recorded" ∧
        ∃ w ∈ s.db.workflows, w.slug = slug ∧
          Stmt.run env s.db (.upsertInstall w.id body.installationId body.version) = .ok ((), ws))
      (s.serve now env (handle app (.record h slug body)) none faults) := by
  refine serve_limited (fun _ => ended_error _) fun hc => ?_
  refine serve_read rfl (fun e => ended_error e) fun a faults ha => ?_
  rcases a with _ | id
  · exact ended_error _
  obtain ⟨w, hw, hslug, rfl⟩ := run_workflowId ha
  refine serve_read rfl (fun e => ended_error e) fun b faults hb => ?_
  rcases b with _ | k
  · exact ended_error _
  refine serve_queryOr (fun e => ended_error e) fun u ws faults hws => ?_
  exact ⟨rfl, .inr ⟨hc, _, ws, rfl, ⟨rfl, w, hw, hslug, hws⟩, rfl⟩⟩

/-- A forget deletes a row, or nothing. -/
theorem serve_forget {i : Uuid} :
    Ended s (s.limiters.check .install now (clientKey h none)) (fun reply ws => reply = .noContent ∧
        ∃ w ∈ s.db.workflows, w.slug = slug ∧ ws = [.deleteInstall w.id i])
      (s.serve now env (handle app (.forget h slug i)) none faults) := by
  refine serve_limited (fun _ => ended_error _) fun hc => ?_
  refine serve_read rfl (fun e => ended_error e) fun a faults ha => ?_
  rcases a with _ | id
  · exact ended_error _
  obtain ⟨w, hw, hslug, rfl⟩ := run_workflowId ha
  refine serve_queryOr (fun e => ended_error e) fun (n : ℕ) ws faults hws => ?_
  simp only [Stmt.run] at hws
  split at hws <;> cases hws
  · exact ended_error _
  · exact ⟨rfl, .inr ⟨hc, _, _, rfl, ⟨rfl, w, hw, hslug, rfl⟩, rfl⟩⟩

/-- A statement that does not fail. -/
theorem serve_ran {α : Type} {q : Stmt} {f : SqlError → Error} {g : q.Res → Handler α} {a : q.Res} {ws : List Write}
    (hx : q.exec env s.db = .ok (a, ws)) : s.serve now env (queryOr q f >>= g).run none [] =
      Replica.serve now env (g a).run none [] { s with db := registry.applyAll ws s.db } := by
  rw [run_queryOr_bind, Replica.serve, List.headD_nil, if_neg Bool.false_ne_true, hx]
  rfl

/-- A record that is let through, of a version that is there, when nothing fails. -/
theorem serve_recorded {body : RecordInstall} {id : Uuid} {n : ℤ} {ws : List Write}
    (hc : (s.limiters.check .install now (clientKey h none)).1 = true)
    (hid : (Stmt.workflowId slug).exec env s.db = .ok (some id, []))
    (hn : (Stmt.versionKnown id body.version).exec env s.db = .ok (some n, []))
    (hws : (Stmt.upsertInstall id body.installationId body.version).exec env s.db = .ok ((), ws)) :
    s.serve now env (handle app (.record h slug body)) none [] =
      (some (.ok (.status "recorded")), ⟨(s.limiters.check .install now (clientKey h none)).2, registry.applyAll ws s.db⟩) := by
  refine serve_limited (Q := fun r => r = (some (.ok (Reply.status "recorded")),
    ⟨(s.limiters.check .install now (clientKey h none)).2, registry.applyAll ws s.db⟩)) (fun hno => ?_) fun _ => ?_
  · rw [hc] at hno
    cases hno
  · generalize (s.limiters.check .install now (clientKey h none)).2 = ls
    refine (serve_ran (s := ⟨ls, s.db⟩) hid).trans ?_
    refine (serve_ran (s := ⟨ls, s.db⟩) hn).trans ?_
    exact serve_ran (s := ⟨ls, s.db⟩) hws

end Serve

/-! ### The rows after one request -/

section Step

variable {app : AppState} {epoch : ℤ} {s : Replica} {e : Arrival} {es : List Handled} {t : Handled}
  {a : HeaderValue} {i : InstallRow} {db : Db}

theorem handle_record (app : AppState) (epoch : ℤ) (s : Replica) {h : HeaderMap} {slug : String}
    {body : RecordInstall} (hreq : e.req = .record h slug body) :
    Ended s (s.limiters.check .install e.now (clientKey h none)) (fun reply ws => reply = .status "recorded" ∧
        ∃ w ∈ s.db.workflows, w.slug = slug ∧ Stmt.run { e.env with now := stamp epoch e.now } s.db
          (.upsertInstall w.id body.installationId body.version) = .ok ((), ws))
      (s.handle app epoch e) := by
  unfold Replica.handle
  rw [hreq]
  exact serve_record

theorem handle_forget (app : AppState) (epoch : ℤ) (s : Replica) {h : HeaderMap} {slug : String}
    {inst : Uuid} (hreq : e.req = .forget h slug inst) :
    Ended s (s.limiters.check .install e.now (clientKey h none)) (fun reply ws => reply = .noContent ∧
        ∃ w ∈ s.db.workflows, w.slug = slug ∧ ws = [.deleteInstall w.id inst])
      (s.handle app epoch e) := by
  unfold Replica.handle
  rw [hreq]
  exact serve_forget

theorem carriedBy_other (h : Recorded t i = false) : carriedBy a (es ++ [t]) i = carriedBy a es i := by
  unfold carriedBy lastRecord
  rw [List.filter_append, List.filter_singleton, h]
  simp

theorem carriedBy_recorded (h : Recorded t i = true) :
    carriedBy a (es ++ [t]) i = ((t.input.req.install?.bind (· "cf-connecting-ip")) == some a) := by
  unfold carriedBy lastRecord
  rw [List.filter_append, List.filter_singleton, h]
  simp

/-- The rows after an upsert: the row it is about, seen now, and the others. -/
theorem upsert_rows {env : Env} {w inst : Uuid} {n : ℤ} {ws : List Write}
    (h : Stmt.run env db (.upsertInstall w inst n) = .ok ((), ws)) :
    ∀ r ∈ (registry.applyAll ws db).installs,
      (r.workflowId = w ∧ r.installationId = inst ∧ r.lastSeenAt = env.now) ∨
        r ∈ db.installs ∧ ¬ (r.workflowId = w ∧ r.installationId = inst) := by
  intro r hr
  simp only [Stmt.run] at h
  split at h
  · rename_i hnone
    cases h
    rcases Table.exists_of_insert (q := fun x => x = r) ⟨r, hr, rfl⟩ with ⟨x, hx, rfl⟩ | rfl
    · exact .inr ⟨hx, by simpa using Table.find?_eq_none.mp hnone x hx⟩
    · exact .inl ⟨rfl, rfl, rfl⟩
  · cases h
    obtain ⟨x, hx, rfl⟩ := List.mem_map.mp hr
    split
    · rename_i hp
      exact .inl ⟨hp.1, hp.2, rfl⟩
    · rename_i hp
      exact .inr ⟨hx, hp⟩

/-- A record is one of the row of its workflow and installation. -/
theorem recorded_iff {h : HeaderMap} {slug : String} {body : RecordInstall} {w : WorkflowRow} {status : String}
    (hreq : e.req = .record h slug body) (hw : w ∈ s.db.workflows) (hslug : w.slug = slug) :
    Recorded ⟨s, e, some (.ok (.status status))⟩ i = true ↔
      i.workflowId = w.id ∧ i.installationId = body.installationId := by
  unfold Recorded
  simp only [hreq, Bool.and_eq_true, beq_iff_eq, List.any_eq_true]
  constructor
  · rintro ⟨hi, v, hv, hvs, hvi⟩
    obtain rfl := WorkflowRow.eq_of_slug hv hw (hvs.trans hslug.symm)
    exact ⟨hvi.symm, hi.symm⟩
  · rintro ⟨hw', hi⟩
    exact ⟨hi.symm, w, hw, hslug, hw'.symm⟩

/-- What was seen less than ninety days before `T`, to the microsecond, was
seen less than ninety days before `T`. -/
theorem lt_of_recent {now T : ℕ} (h : stamp epoch now > stamp epoch T - ninetyDays) :
    T < now + fromSecs (90 * 86400) := by
  have h : (epoch + (now / 1000 : ℕ) : ℤ) > epoch + (T / 1000 : ℕ) - 90 * 86400 * 1000000 := h
  show T < now + 90 * 86400 * 10 ^ 9
  omega

/-- A request that records nothing leaves the rows, or deletes some. -/
theorem count_unrecorded {answer : Option (Except Error Reply)} {now : Timestamp}
    (hno : ∀ i, Recorded ⟨s, e, answer⟩ i = false) (hsub : ∀ i ∈ db.installs, i ∈ s.db.installs) :
    db.installs.count (fun i => i.recent now && carriedBy a (es ++ [⟨s, e, answer⟩]) i) ≤
      s.db.installs.count (fun i => i.recent now && carriedBy a es i) := by
  refine (Table.count_le_add (t := s.db.installs) (p := fun i => i.recent now && carriedBy a es i) (q := fun _ => false)
    fun i hi hp => .inl ⟨hsub i hi, by rwa [carriedBy_other (hno i)] at hp⟩).trans ?_
  simp [Table.count]

theorem recorded_of_failed {answer : Option (Except Error Reply)} (h : ∀ reply, answer ≠ some (.ok reply)) :
    Recorded ⟨s, e, answer⟩ i = false := by
  unfold Recorded
  split
  · rename_i heq
    exact absurd heq (h _)
  · rfl

theorem recorded_of_forget {answer : Option (Except Error Reply)} {h : HeaderMap} {slug : String} {inst : Uuid}
    (hreq : e.req = .forget h slug inst) : Recorded ⟨s, e, answer⟩ i = false := by
  unfold Recorded
  simp only [hreq]

/-- A record that succeeds adds its own row, if it counts. -/
theorem count_recorded {h : HeaderMap} {slug : String} {body : RecordInstall} {w : WorkflowRow} {status : String} {T : ℕ}
    {env : Env} {ws : List Write} (hreq : e.req = .record h slug body) (hw : w ∈ s.db.workflows) (hslug : w.slug = slug)
    (henv : env.now = stamp epoch e.now)
    (hws : Stmt.run env s.db (.upsertInstall w.id body.installationId body.version) = .ok ((), ws)) :
    (registry.applyAll ws s.db).installs.count (fun i => i.recent (stamp epoch T) &&
        carriedBy a (es ++ [⟨s, e, some (.ok (.status status))⟩]) i) ≤
      s.db.installs.count (fun i => i.recent (stamp epoch T) && carriedBy a es i) +
        if h "cf-connecting-ip" = some a ∧ T < e.now + fromSecs (90 * 86400) then 1 else 0 := by
  have hrows := upsert_rows hws
  let own (i : InstallRow) : Bool := i.workflowId == w.id && i.installationId == body.installationId
  have hown : ∀ i, own i = true ↔ i.workflowId = w.id ∧ i.installationId = body.installationId := fun i => by simp [own]
  refine (Table.count_le_add (t := s.db.installs) (p := fun i => i.recent (stamp epoch T) && carriedBy a es i)
    (q := fun i => own i && (i.recent (stamp epoch T) &&
      carriedBy a (es ++ [⟨s, e, some (.ok (.status status))⟩]) i)) ?_).trans (Nat.add_le_add_left ?_ _)
  · intro i hi hp
    rcases hrows i hi with ⟨hiw, hii, -⟩ | ⟨hold, hno⟩
    · exact .inr (by rw [Bool.and_eq_true]; exact ⟨(hown i).mpr ⟨hiw, hii⟩, hp⟩)
    · have hnot : Recorded ⟨s, e, some (.ok (.status status))⟩ i = false := by
        rw [Bool.eq_false_iff, ne_eq, recorded_iff hreq hw hslug]
        exact hno
      exact .inl ⟨hold, by rwa [carriedBy_other hnot] at hp⟩
  · split
    · -- the row of one workflow and installation
      refine Table.count_le_one fun x y hx hy => ?_
      have hx := (hown x).mp (by simp only [Bool.and_eq_true] at hx; exact hx.1)
      have hy := (hown y).mp (by simp only [Bool.and_eq_true] at hy; exact hy.1)
      exact (clash_install _ _).mpr ⟨hx.1.trans hy.1.symm, hx.2.trans hy.2.symm⟩
    · rename_i hcond
      refine Nat.le_of_eq (List.countP_eq_zero.mpr fun i hi hcount => hcond ?_)
      simp only [Bool.and_eq_true] at hcount
      obtain ⟨hi', hrec, hcar⟩ := hcount
      have hi' := (hown i).mp hi'
      rw [carriedBy_recorded ((recorded_iff hreq hw hslug).mpr hi'), hreq] at hcar
      refine ⟨by simpa [Request.install?] using hcar, ?_⟩
      rcases hrows i hi with ⟨-, -, hseen⟩ | ⟨-, hno⟩
      · have hrec : i.lastSeenAt > stamp epoch T - ninetyDays := of_decide_eq_true hrec
        rw [hseen, henv] at hrec
        exact lt_of_recent hrec
      · exact absurd hi' hno

/-- **One request adds at most one row to those that count**, and does so only
if it is let through, carries the address, and comes late enough. -/
theorem counted_step {h : HeaderMap} {T : ℕ} (hreq : e.req.install? = some h) :
    (s.handle app epoch e).2.db.installs.count (fun i => i.recent (stamp epoch T) &&
        carriedBy a (es ++ [⟨s, e, (s.handle app epoch e).1⟩]) i) ≤
      s.db.installs.count (fun i => i.recent (stamp epoch T) && carriedBy a es i) +
        if (s.limiters.check .install e.now (clientKey h none)).1 = true ∧ h "cf-connecting-ip" = some a ∧
          T < e.now + fromSecs (90 * 86400) then 1 else 0 := by
  cases hr : e.req with
  | record headers slug body =>
    obtain rfl : headers = h := by rw [hr] at hreq; exact Option.some.inj hreq
    rcases (handle_record app epoch s hr).2 with ⟨hdb, hno⟩ | ⟨hc, reply, ws, hans, ⟨rfl, w, hw, hslug, hws⟩, hdb⟩
    · rw [hdb]
      exact (count_unrecorded (fun i => recorded_of_failed hno) fun i hi => hi).trans (Nat.le_add_right _ _)
    · rw [hdb, hans]
      refine (count_recorded hr hw hslug rfl hws).trans (Nat.add_le_add_left ?_ _)
      simp only [hc, true_and]
      exact Nat.le_refl _
  | forget headers slug inst =>
    obtain rfl : headers = h := by rw [hr] at hreq; exact Option.some.inj hreq
    have hend := handle_forget app epoch s hr
    have hsub : ∀ i ∈ (s.handle app epoch e).2.db.installs, i ∈ s.db.installs := by
      intro i hi
      rcases hend.2 with ⟨hdb, -⟩ | ⟨-, -, ws, -, ⟨-, w, -, -, rfl⟩, hdb⟩
      · rwa [hdb] at hi
      · rw [hdb] at hi
        exact (Table.mem_delete.mp hi).1
    exact (count_unrecorded (fun i => recorded_of_forget hr) hsub).trans (Nat.le_add_right _ _)
  | _ => rw [hr] at hreq; cases hreq

end Step

/-! ### Along a run -/

section Run

variable {app : AppState} {epoch : ℤ} {s : Replica} {es : List Arrival} {a : HeaderValue} {text : String} {h : HeaderMap}

/-- The key of a client is the address Cloudflare has put in, whatever else
the request carries. -/
theorem clientKey_address (ha : a.toStr = some text) (hblank : (trim text).isEmpty = false)
    (hh : h "cf-connecting-ip" = some a) : clientKey h none = trim text := by
  have hne : trim text ≠ "" := by
    intro he
    rw [he] at hblank
    cases hblank
  unfold clientKey
  simp [hh, ha, hne]

/-- The install limiter sees one call a request. -/
theorem handle_limiter {e : Arrival} (hreq : e.req.install? = some h) :
    (s.handle app epoch e).2.limiters .install = ((s.limiters .install).visit ⟨e.now, clientKey h none⟩).2 := by
  have hl : (s.handle app epoch e).2.limiters = (s.limiters.check .install e.now (clientKey h none)).2 := by
    cases hr : e.req with
    | record headers slug body =>
      obtain rfl : headers = h := by rw [hr] at hreq; exact Option.some.inj hreq
      exact (handle_record app epoch s hr).1
    | forget headers slug inst =>
      obtain rfl : headers = h := by rw [hr] at hreq; exact Option.some.inj hreq
      exact (handle_forget app epoch s hr).1
    | _ => rw [hr] at hreq; cases hreq
  rw [hl]
  exact Function.update_self (Limiter.install) _ s.limiters

/-- **The rows that count are no more than the calls let through.** -/
theorem run_installs (app : AppState) (epoch : ℤ) (ha : a.toStr = some text)
    (hblank : (trim text).isEmpty = false) (T : ℕ) (s : Replica) :
    ∀ es : List Arrival, (∀ e ∈ es, e.req.install? ≠ none) →
      (run (Replica.handle app epoch) s es).limiters .install =
          run RateLimiter.visit (s.limiters .install) (es.filterMap Arrival.visit) ∧
        (run (Replica.handle app epoch) s es).db.installs.count (fun i => i.recent (stamp epoch T) &&
            carriedBy a (turns (Replica.handle app epoch) s es) i) ≤
          admittedSince (trim text) (fromSecs (90 * 86400)) T
            (turns RateLimiter.visit (s.limiters .install) (es.filterMap Arrival.visit)) := by
  intro es
  induction es using List.reverseRecOn with
  | nil =>
    intro _
    exact ⟨rfl, Nat.le_of_eq (List.countP_eq_zero.mpr fun i _ => by simp [carriedBy, lastRecord])⟩
  | append_singleton es e ih =>
    intro hreq
    obtain ⟨hl, hcount⟩ := ih fun e he => hreq e (List.mem_append_left _ he)
    obtain ⟨h, hh⟩ := Option.ne_none_iff_exists'.mp (hreq e (List.mem_append_right _ (List.mem_singleton_self e)))
    have hvisit : e.visit = some ⟨e.now, clientKey h none⟩ := by
      unfold Arrival.visit
      rw [hh]
      rfl
    have hvisits : (es ++ [e]).filterMap Arrival.visit = es.filterMap Arrival.visit ++ [⟨e.now, clientKey h none⟩] := by
      rw [List.filterMap_append]
      simp [hvisit]
    rw [hvisits, run_append, run_append, turns_snoc, turns_snoc]
    simp only [run_cons, run_nil]
    generalize run (Replica.handle app epoch) s es = u at hl hcount
    refine ⟨by rw [handle_limiter hh, hl], (counted_step hh).trans ?_⟩
    rw [← hl]
    by_cases hT : T < e.now + fromSecs (90 * 86400)
    · rw [admittedSince_snoc hT]
      refine Nat.add_le_add hcount ?_
      by_cases hc : (u.limiters.check .install e.now (clientKey h none)).1 = true ∧ h "cf-connecting-ip" = some a
      · have hkey := clientKey_address ha hblank hc.2
        rw [if_pos ⟨hc.1, hc.2, hT⟩, if_pos ⟨hkey, hc.1⟩]
      · rw [if_neg fun hall => hc ⟨hall.1, hall.2.1⟩]
        exact Nat.zero_le _
    · rw [if_neg fun hall => hT hall.2.2, Nat.add_zero]
      exact hcount.trans (List.Sublist.countP_le (List.sublist_append_left _ _))

/-- Whether in seconds or in nanoseconds. -/
theorem ceilDiv_fromSecs {m n : ℕ} (hn : 0 < n) : fromSecs m ⌈/⌉ fromSecs n = m ⌈/⌉ n := by
  have hpos : 0 < fromSecs n := Nat.mul_pos hn (by decide)
  refine eq_of_forall_ge_iff fun k => ?_
  rw [ceilDiv_le_iff_le_mul hpos, ceilDiv_le_iff_le_mul hn]
  show m * 10 ^ 9 ≤ n * 10 ^ 9 * k ↔ m ≤ n * k
  rw [Nat.mul_right_comm]
  exact Nat.mul_le_mul_right_iff (by decide)

/-- **What one client can hold.** At any instant `T` of a run of records and
forgets, the installs that count and whose last record carried the address
are at most what `⌈90 days / window⌉ + 1` windows let through. -/
theorem client_installs_bounded (app : AppState) (epoch : ℤ) (rates : Rates) (db₀ : Db) (es : List Arrival)
    (hlimit : 1 ≤ rates.installRateLimit.toNat) (hwindow : 1 ≤ rates.installRateWindowSecs)
    (horder : es.Pairwise fun d e => d.now ≤ e.now) (hreq : ∀ e ∈ es, e.req.install? ≠ none)
    (hfew : ∀ key t, callsFrom key (fromSecs rates.installRateWindowSecs) t (es.filterMap Arrival.visit) < 2 ^ 32)
    (a : HeaderValue) (text : String) (ha : a.toStr = some text) (hblank : (trim text).isEmpty = false) (T : Instant) :
    let handled := es.filter (·.now ≤ T)
    let s := run (Replica.handle app epoch) ⟨rates.limiters, db₀⟩ handled
    s.db.installs.count (fun i => i.recent (stamp epoch T) &&
        carriedBy a (turns (Replica.handle app epoch) ⟨rates.limiters, db₀⟩ handled) i) ≤
      (90 * 86400 ⌈/⌉ rates.installRateWindowSecs + 1) * rates.installRateLimit.toNat := by
  intro handled s
  have hsub : handled.Sublist es := List.filter_sublist
  have hvisits : (handled.filterMap Arrival.visit).Sublist (es.filterMap Arrival.visit) := hsub.filterMap _
  have hpos : 0 < fromSecs rates.installRateWindowSecs := Nat.mul_pos hwindow (by decide)
  -- the calls of the limiter are in order, few, and none is after `T`
  have hord : Orderly (handled.filterMap Arrival.visit) := by
    refine List.pairwise_filterMap.mpr ((horder.sublist hsub).imp fun {d e} hde u hu v hv => ?_)
    obtain ⟨_, -, rfl⟩ := Option.map_eq_some_iff.mp hu
    obtain ⟨_, -, rfl⟩ := Option.map_eq_some_iff.mp hv
    exact hde
  have hfew' : ∀ t, callsFrom (trim text) (fromSecs rates.installRateWindowSecs) t (handled.filterMap Arrival.visit) <
      2 ^ 32 := fun t => Nat.lt_of_le_of_lt hvisits.countP_le (hfew (trim text) t)
  have hafter : After (handled.filterMap Arrival.visit) T := by
    intro v hv
    obtain ⟨e, he, hev⟩ := List.mem_filterMap.mp hv
    obtain ⟨_, -, rfl⟩ := Option.map_eq_some_iff.mp hev
    exact of_decide_eq_true (List.mem_filter.mp he).2
  have hrows := (run_installs app epoch ha hblank T ⟨rates.limiters, db₀⟩ handled
    fun e he => hreq e (List.mem_filter.mp he).1).2
  have hpass := admittedSince_le rates.installRateLimit (fromSecs rates.installRateWindowSecs)
    (handled.filterMap Arrival.visit) hlimit hpos (by decide : 0 < fromSecs (90 * 86400)) hord hfew' hafter
  rw [ceilDiv_fromSecs hwindow] at hpass
  exact hrows.trans hpass

/-- A record with this address. -/
def Sample.install (n : ℕ) (address : String) : Arrival :=
  ⟨n * 10 ^ 9, .record (fun name => if name = "cf-connecting-ip" then some (asBytes address) else none) "first"
    ⟨BitVec.ofNat 128 n, 1⟩, Sample.env n, []⟩

/-- The library with version 1 of `first`, and these installs. -/
def Sample.stocked (is : List InstallRow) : Db :=
  { Sample.library with
    workflows := (∅ : Table WorkflowRow).insert ⟨7, "first", "Title", "What it does", [], 1, false, 0, none⟩
    versions := (∅ : Table VersionRow).insert ⟨7, 1, "steps: []", none, 0, none⟩
    installs := is.foldl Table.insert ∅ }

/-- Two clients, one of which records twice. -/
def Sample.installs : List Arrival := [Sample.install 1 "1.2.3.4", Sample.install 2 "5.6.7.8", Sample.install 3 "1.2.3.4"]

/-- Nobody is throttled. -/
theorem Sample.installs_pass : ∀ e ∈ turns RateLimiter.visit (.new 60 (fromSecs 60))
    [⟨1 * 10 ^ 9, "1.2.3.4"⟩, ⟨2 * 10 ^ 9, "5.6.7.8"⟩, ⟨3 * 10 ^ 9, "1.2.3.4"⟩], e.answer = true := by
  intro e he
  refine (all_pass_iff 60 (fromSecs 60) _ e.input.key (by decide) (by decide) (by simp [Orderly]) (by decide +kernel)).mpr
    (.inr fun p hp => ?_) e he rfl
  have hin := turns_input he
  simp only [List.mem_cons, List.not_mem_nil, or_false] at hin
  have hall : ∀ key ∈ ["1.2.3.4", "5.6.7.8"], ∀ p ∈ places (fromSecs 60) none (timesOf key
      [⟨1 * 10 ^ 9, "1.2.3.4"⟩, ⟨2 * 10 ^ 9, "5.6.7.8"⟩, ⟨3 * 10 ^ 9, "1.2.3.4"⟩]), p.number ≤ (60 : UInt32).toNat := by
    decide +kernel
  refine hall e.input.key ?_ p hp
  rcases hin with h | h | h <;> simp [h]

theorem Sample.handle_install {ls : Limiters} (is : List InstallRow) {n : ℕ} {address : String}
    (hvisit : (install n address).visit = some ⟨n * 10 ^ 9, address⟩)
    (hc : ((ls .install).visit ⟨n * 10 ^ 9, address⟩).1 = true)
    (hx : (Stmt.upsertInstall 7 (BitVec.ofNat 128 n) 1).exec { env n with now := stamp 0 (n * 10 ^ 9) } (stocked is) =
      .ok ((), [.insertInstall ⟨7, BitVec.ofNat 128 n, 1, stamp 0 (n * 10 ^ 9)⟩])) :
    ∃ ls' : Limiters, ls' .install = ((ls .install).visit ⟨n * 10 ^ 9, address⟩).2 ∧
      (Replica.mk ls (stocked is)).handle replica 0 (install n address) = (some (.ok (.status "recorded")),
        ⟨ls', stocked (is ++ [⟨7, BitVec.ofNat 128 n, 1, stamp 0 (n * 10 ^ 9)⟩])⟩) := by
  rw [← Option.some.inj hvisit] at hc ⊢
  refine ⟨_, Function.update_self (Limiter.install) _ ls, ?_⟩
  have hstocked : stocked (is ++ [⟨7, BitVec.ofNat 128 n, 1, stamp 0 (n * 10 ^ 9)⟩]) =
      registry.applyAll [.insertInstall ⟨7, BitVec.ofNat 128 n, 1, stamp 0 (n * 10 ^ 9)⟩] (stocked is) := by
    rw [stocked, List.foldl_append]
    rfl
  rw [hstocked]
  exact serve_recorded (s := ⟨ls, stocked is⟩) hc rfl rfl hx

/-- All three are recorded. -/
theorem Sample.installs_recorded (ls : Limiters) (hls : ls .install = .new 60 (fromSecs 60)) : ∃ ls₁ ls₂ ls₃ : Limiters,
    run (Replica.handle replica 0) ⟨ls, stocked []⟩ installs =
      ⟨ls₃, stocked [⟨7, 1, 1, 1000000⟩, ⟨7, 2, 1, 2000000⟩, ⟨7, 3, 1, 3000000⟩]⟩ ∧
    turns (Replica.handle replica 0) ⟨ls, stocked []⟩ installs =
      [⟨⟨ls, stocked []⟩, install 1 "1.2.3.4", some (.ok (.status "recorded"))⟩,
        ⟨⟨ls₁, stocked [⟨7, 1, 1, 1000000⟩]⟩, install 2 "5.6.7.8", some (.ok (.status "recorded"))⟩,
        ⟨⟨ls₂, stocked [⟨7, 1, 1, 1000000⟩, ⟨7, 2, 1, 2000000⟩]⟩, install 3 "1.2.3.4",
          some (.ok (.status "recorded"))⟩] := by
  have hpass := installs_pass
  simp only [turns_cons, turns_nil, List.forall_mem_cons] at hpass
  obtain ⟨hc₁, hc₂, hc₃, -⟩ := hpass
  rw [← hls] at hc₁ hc₂ hc₃
  obtain ⟨ls₁, h₁, hst₁⟩ := handle_install [] (n := 1) rfl hc₁ rfl
  rw [← h₁] at hc₂ hc₃
  obtain ⟨ls₂, h₂, hst₂⟩ := handle_install [⟨7, 1, 1, 1000000⟩] (n := 2) rfl hc₂ rfl
  rw [← h₂] at hc₃
  obtain ⟨ls₃, -, hst₃⟩ := handle_install [⟨7, 1, 1, 1000000⟩, ⟨7, 2, 1, 2000000⟩] (n := 3) rfl hc₃ rfl
  have hst₁ : (Replica.mk ls (stocked [])).handle replica 0 (install 1 "1.2.3.4") =
    (some (.ok (.status "recorded")), ⟨ls₁, stocked [⟨7, 1, 1, 1000000⟩]⟩) := hst₁
  have hst₂ : (Replica.mk ls₁ (stocked [⟨7, 1, 1, 1000000⟩])).handle replica 0 (install 2 "5.6.7.8") =
    (some (.ok (.status "recorded")), ⟨ls₂, stocked [⟨7, 1, 1, 1000000⟩, ⟨7, 2, 1, 2000000⟩]⟩) := hst₂
  have hst₃ : (Replica.mk ls₂ (stocked [⟨7, 1, 1, 1000000⟩, ⟨7, 2, 1, 2000000⟩])).handle replica 0 (install 3 "1.2.3.4") =
    (some (.ok (.status "recorded")), ⟨ls₃, stocked [⟨7, 1, 1, 1000000⟩, ⟨7, 2, 1, 2000000⟩, ⟨7, 3, 1, 3000000⟩]⟩) := hst₃
  refine ⟨ls₁, ls₂, ls₃, ?_, ?_⟩
  · rw [installs, run_cons, hst₁, run_cons, hst₂, run_cons, hst₃, run_nil]
  · rw [installs, turns_cons, hst₁, turns_cons, hst₂, turns_cons, hst₃, turns_nil]

/-- Three installs count, two of them of the client that recorded twice. -/
theorem client_installs_bounded_twice :
    let rates : Rates := ⟨60, 60, 10, 3600⟩
    let handled := Sample.installs.filter (·.now ≤ 5 * 10 ^ 9)
    let s := run (Replica.handle Sample.replica 0) ⟨rates.limiters, Sample.stocked []⟩ handled
    let held := s.db.installs.count fun i => i.recent (stamp 0 (5 * 10 ^ 9)) &&
      carriedBy (asBytes "1.2.3.4") (turns (Replica.handle Sample.replica 0) ⟨rates.limiters, Sample.stocked []⟩ handled) i
    s.db.installs.count (·.recent (stamp 0 (5 * 10 ^ 9))) = 3 ∧ held = 2 ∧
      held ≤ (90 * 86400 ⌈/⌉ rates.installRateWindowSecs + 1) * rates.installRateLimit.toNat := by
  intro rates handled s held
  have hbound : held ≤ (90 * 86400 ⌈/⌉ rates.installRateWindowSecs + 1) * rates.installRateLimit.toNat :=
    client_installs_bounded Sample.replica 0 rates (Sample.stocked []) Sample.installs (by decide) (by decide)
      (by simp [Sample.installs, Sample.install])
      (by simp [Sample.installs, Sample.install, Request.install?])
      (fun key t => Nat.lt_of_le_of_lt (List.countP_le_length.trans (List.length_filterMap_le _ _)) (by decide))
      (asBytes "1.2.3.4") "1.2.3.4" (by decide) (by decide) (5 * 10 ^ 9)
  have hhandled : handled = Sample.installs := rfl
  obtain ⟨ls₁, ls₂, ls₃, hrun, hturns⟩ := Sample.installs_recorded rates.limiters rfl
  have hs : s = ⟨ls₃, Sample.stocked [⟨7, 1, 1, 1000000⟩, ⟨7, 2, 1, 2000000⟩, ⟨7, 3, 1, 3000000⟩]⟩ := by
    rw [← hrun, ← hhandled]
  refine ⟨?_, ?_, hbound⟩
  · rw [hs]
    rfl
  · show Table.count _ _ = 2
    rw [hs, hhandled, hturns]
    generalize rates.limiters = ls
    rfl

end Run

end HarnessRegistry

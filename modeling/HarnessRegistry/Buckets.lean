/-
# Clients that no header names

`client_key` falls back on the address of the peer, but no handler hands it one,
and the fallback of the fallback is one key for everybody. So whatever the peers,
requests that no header names are counted together (`unnamed_share`), and with
nobody whom a header names by an address.

Key definitions: `Unnamed`, `Identifies`, `Request.limited?`, `Connection`, `ToldApart`.
Key theorems: `clientKey_unnamed`, `clientKey_identifies`, `serve_silent`, `handle_limited`, `run_limiters`, `unnamed_share`.
-/
import HarnessRegistry.Inflation

namespace HarnessRegistry

open Txn Handler Machine

variable {headers : HeaderMap} {a : String}

/-! ### Keys -/

/-- Nothing can be taken from the header: it is absent, not visible ASCII, or
blank in the part that counts. -/
def Unusable (headers : HeaderMap) (name : String) (part : String → String) : Prop :=
  ∀ v s, headers name = some v → HeaderValue.toStr v = some s → (trim (part s)).isEmpty = true

/-- The address that the header gives. -/
def Gives (headers : HeaderMap) (name : String) (part : String → String) (a : String) : Prop :=
  ∃ v s, headers name = some v ∧ HeaderValue.toStr v = some s ∧ trim (part s) = a ∧ a.isEmpty = false

/-- No header says who the client is. -/
structure Unnamed (headers : HeaderMap) : Prop where
  cloudflare : Unusable headers "cf-connecting-ip" id
  forwarded : Unusable headers "x-forwarded-for" firstOfChain

/-- The headers say that the client is `a`. -/
def Identifies (headers : HeaderMap) (a : String) : Prop :=
  Gives headers "cf-connecting-ip" id a ∨
    Unusable headers "cf-connecting-ip" id ∧ Gives headers "x-forwarded-for" firstOfChain a

theorem usable_of_unusable {name : String} {part : String → String} (h : Unusable headers name part) : (do
    let v ← headers name
    let s ← HeaderValue.toStr v
    if (trim (part s)).isEmpty then none else some (trim (part s)) : Option String) = none := by
  simp only [Option.bind_eq_bind, Option.bind_eq_none_iff]
  intro v hv s hs
  exact if_pos (h v s hv hs)

theorem usable_of_gives {name : String} {part : String → String} (h : Gives headers name part a) : (do
    let v ← headers name
    let s ← HeaderValue.toStr v
    if (trim (part s)).isEmpty then none else some (trim (part s)) : Option String) = some a := by
  obtain ⟨v, s, hv, hs, rfl, hne⟩ := h
  simp only [Option.bind_eq_bind, Option.bind_eq_some_iff]
  exact ⟨v, hv, s, hs, if_neg (by simp [hne])⟩

theorem clientKey_unnamed (h : Unnamed headers) (socket : Option String) :
    clientKey headers socket = socket.getD "unknown" := by
  unfold clientKey
  simp only [usable_of_unusable h.cloudflare, usable_of_unusable h.forwarded]

theorem clientKey_identifies (h : Identifies headers a) (socket : Option String) : clientKey headers socket = a := by
  unfold clientKey
  rcases h with h | ⟨hnot, h⟩
  · simp only [usable_of_gives h]
  · simp only [usable_of_unusable hnot, usable_of_gives h]

/-- Every address has one of the two in its text, whichever the version. -/
def IsAddress (a : String) : Prop := '.' ∈ a.toList ∨ ':' ∈ a.toList

theorem IsAddress.ne_unknown (h : IsAddress a) : a ≠ "unknown" := by
  rintro rfl
  exact absurd h (by unfold IsAddress; decide)

/-! ### What is counted -/

/-- The limiter that a request is counted by, and the headers it has. -/
def Request.limited? : Request → Option (Limiter × HeaderMap)
  | .record headers _ _ | .forget headers _ _ => some (.install, headers)
  | .start headers _ => some (.enroll, headers)
  | .poll headers _ _ _ _ => some (.enrollPoll, headers)
  | _ => none

/-- The call that a request makes, and of which limiter. -/
def Arrival.call? (e : Arrival) : Option (Limiter × Visit) :=
  e.req.limited?.map fun r => (r.1, ⟨e.now, clientKey r.2 none⟩)

/-- A program that asks no limiter. -/
def Silent {α : Type} (p : Prog registry α) : Prop := ∀ q k, p ≠ .ask q k

section Serve

variable {α : Type} {now : Instant} {env : Env} {app : AppState} {epoch : Timestamp} {e : Arrival} {l : Limiter}

theorem serve_silent : ∀ {p : Prog registry α} {tx : Option (Tx registry)} {faults : List Bool} {s : Replica},
    p.Every Silent → (s.serve now env p tx faults).2.limiters = s.limiters := by
  intro p
  induction p with
  | ret a => intro tx faults s _; rfl
  | crash => intro tx faults s _; rfl
  | ask q k ih => intro tx faults s hp; exact absurd rfl (hp.1 q k)
  | begin k ih =>
    intro tx faults s hp
    rw [Replica.serve]
    split
    · exact ih _ (hp.2 _)
    · exact ih _ (hp.2 _)
  | commit k ih =>
    intro tx faults s hp
    rw [Replica.serve]
    split
    · exact ih _ (hp.2 _)
    · exact ih _ (hp.2 _)
  | stmt q k ih =>
    intro tx faults s hp
    cases tx with
    | none =>
      rw [Replica.serve]
      split
      · exact ih _ (hp.2 _)
      · split
        · exact ih _ (hp.2 _)
        · exact ih _ (hp.2 _)
    | some x =>
      rw [Replica.serve]
      split
      · exact ih _ (hp.2 _)
      · split
        · exact ih _ (hp.2 _)
        · exact ih _ (hp.2 _)

/-- A limiter has said `c`, and the request ends so. -/
structure Counted (c : Bool × Limiters) (r : Option (Except Error Reply) × Replica) : Prop where
  limiters : r.2.limiters = c.2
  refused : c.1 = false → r.1 = some (.error .tooManyRequests)

/-- A handler behind a limiter that asks no other. -/
theorem serve_counted {f : Handler Reply} {key : String} {faults : List Bool} {s : Replica} (hf : f.Every Silent) :
    Counted (s.limiters.check l now key) (s.serve now env (do
      if !(← check l key) then throw .tooManyRequests
      f : Handler Reply).run none faults) := by
  refine serve_limited (fun _ => ⟨rfl, fun _ => rfl⟩) fun hc => ⟨serve_silent hf, fun hno => ?_⟩
  rw [hc] at hno
  cases hno

theorem silent_queryOr {q : Stmt} {f : SqlError → Error} {g : q.Res → Handler Reply} (hg : ∀ a, (g a).Every Silent) :
    (queryOr q f >>= g).Every Silent :=
  every_queryOr (fun _ _ h => nomatch h) (fun _ _ _ h => nomatch h) hg

theorem silent_pure (reply : Reply) : Every Silent (pure reply : Handler Reply) := every_pure fun _ _ h => nomatch h

theorem silent_throw (e : Error) : Every Silent (throw e : Handler Reply) := every_throw fun _ _ h => nomatch h

theorem silent_lift {β : Type} {x : Except Error β} {g : β → Handler Reply} (hg : ∀ a, (g a).Every Silent) :
    (lift x >>= g).Every Silent := every_lift (fun _ _ _ h => nomatch h) hg

theorem silent_verdict (bytes : Vector UInt8 tokenBytes) (v : Verdict) : (v.handler app bytes).Every Silent := by
  cases v with
  | crashes => exact fun _ _ h => nomatch h
  | refused e => exact silent_throw e
  | unfinished status => exact silent_pure _
  | enrolls user =>
    refine silent_queryOr fun found => ?_
    split
    · exact silent_throw _
    · exact silent_queryOr fun _ => silent_pure _

/-- **What a request is counted as**: one call, by its headers alone. -/
theorem handle_limited (app : AppState) (epoch : Timestamp) (s : Replica) {h : HeaderMap}
    (hreq : e.req.limited? = some (l, h)) :
    Counted (s.limiters.check l e.now (clientKey h none)) (s.handle app epoch e) := by
  unfold Replica.handle
  generalize e.req = req at hreq ⊢
  cases req with
  | record headers slug body =>
    obtain ⟨rfl, rfl⟩ := Prod.mk.inj (Option.some.inj hreq)
    refine serve_counted (silent_queryOr fun a => ?_)
    cases a with
    | none => exact silent_throw _
    | some id =>
      refine silent_queryOr fun b => ?_
      cases b with
      | none => exact silent_throw _
      | some n => exact silent_queryOr fun _ => silent_pure _
  | forget headers slug i =>
    obtain ⟨rfl, rfl⟩ := Prod.mk.inj (Option.some.inj hreq)
    refine serve_counted (silent_queryOr fun a => ?_)
    cases a with
    | none => exact silent_throw _
    | some id =>
      refine silent_queryOr fun (n : ℕ) => ?_
      cases n with
      | zero => exact silent_throw _
      | succ n => exact silent_pure _
  | start headers site =>
    obtain ⟨rfl, rfl⟩ := Prod.mk.inj (Option.some.inj hreq)
    exact serve_counted (silent_lift fun github => silent_lift fun flow => silent_pure _)
  | poll headers body site clock bytes =>
    obtain ⟨rfl, rfl⟩ := Prod.mk.inj (Option.some.inj hreq)
    have hpoll : poll app headers body site clock bytes = (do
        if !(← check .enrollPoll (clientKey headers none)) then throw .tooManyRequests
        (verdict app body site clock).handler app bytes) := by
      rw [poll_eq]
      congr 1
      funext admitted
      cases admitted <;> rfl
    show Counted _ (s.serve e.now _ (poll app headers body site clock bytes).run none e.faults)
    rw [hpoll]
    exact serve_counted (silent_verdict bytes _)
  | _ => cases hreq

/-- **The limiters of a run** have met the calls of its requests. -/
theorem run_limiters (app : AppState) (epoch : Timestamp) : ∀ (es : List Arrival) (s : Replica),
    (∀ e ∈ es, e.req.limited? ≠ none) → (run (Replica.handle app epoch) s es).limiters =
      run (routed RateLimiter.visit id) s.limiters (es.filterMap Arrival.call?)
  | [], _, _ => rfl
  | e :: es, s, hes => by
    obtain ⟨⟨l, h⟩, hreq⟩ := Option.ne_none_iff_exists'.mp (hes e List.mem_cons_self)
    have hcall : e.call? = some (l, ⟨e.now, clientKey h none⟩) := by
      unfold Arrival.call?
      rw [hreq]
      rfl
    rw [run_cons, run_limiters app epoch es _ fun e he => hes e (List.mem_cons_of_mem _ he),
      (handle_limited app epoch s hreq).limiters, List.filterMap_cons_some hcall]
    rfl

end Serve

/-! ### Who is told apart -/

/-- A request and the address of its peer. -/
structure Connection where
  peer : String
  arrival : Arrival

/-- The key that a request is counted under. -/
def Connection.key? (c : Connection) : Option String := c.arrival.call?.map fun call => call.2.key

/-- No header says whom the request is from. -/
def Connection.Unnamed (c : Connection) : Prop := ∀ r ∈ c.arrival.req.limited?, HarnessRegistry.Unnamed r.2

/-- The headers say that it is from `a`. -/
def Connection.Identifies (c : Connection) (a : String) : Prop := ∃ r ∈ c.arrival.req.limited?, HarnessRegistry.Identifies r.2 a

/-- A request's key is not that of another, nor that of anyone named by an
address other than its peer's. -/
structure ToldApart (cs : List Connection) (c d : Connection) : Prop where
  keys : c.key? ≠ d.key?
  named : ∀ e ∈ cs, ∀ a, e.Identifies a → IsAddress a → a ≠ c.peer → e.key? ≠ c.key?

variable {c d e : Connection} {cs : List Connection}

theorem Connection.key?_unnamed (h : c.Unnamed) (hreq : c.arrival.req.limited? ≠ none) : c.key? = some "unknown" := by
  obtain ⟨r, hr⟩ := Option.ne_none_iff_exists'.mp hreq
  unfold Connection.key? Arrival.call?
  rw [hr, Option.map_some, Option.map_some, clientKey_unnamed (h r hr)]
  rfl

theorem Connection.key?_identifies (h : e.Identifies a) : e.key? = some a := by
  obtain ⟨r, hr, hn⟩ := h
  unfold Connection.key? Arrival.call?
  rw [Option.mem_def.mp hr, Option.map_some, Option.map_some, clientKey_identifies hn]

/-- **Requests that no header names share a key.** In a run of records,
forgets, starts and polls each request is counted as one call, under a key that
its headers give. Those that name nobody are all counted under one, which is
not that of anybody named by an address. So peers that send such requests are
told apart if and only if there is only one. -/
theorem unnamed_share (app : AppState) (epoch : Timestamp) (s : Replica) (cs : List Connection)
    (hcs : ∀ c ∈ cs, c.arrival.req.limited? ≠ none) :
    (run (Replica.handle app epoch) s (cs.map Connection.arrival)).limiters =
        run (routed RateLimiter.visit id) s.limiters ((cs.map Connection.arrival).filterMap Arrival.call?) ∧
      (∀ c ∈ cs, c.Unnamed → c.key? = some "unknown" ∧
        ∀ e ∈ cs, ∀ a, e.Identifies a → IsAddress a → e.key? ≠ c.key?) ∧
      ((∀ c ∈ cs, ∀ d ∈ cs, c.peer ≠ d.peer → c.Unnamed → d.Unnamed → ToldApart cs c d) ↔
        ∀ c ∈ cs, ∀ d ∈ cs, c.Unnamed → d.Unnamed → c.peer = d.peer) := by
  have hunknown : ∀ c ∈ cs, c.Unnamed → c.key? = some "unknown" := fun c hc hu =>
    Connection.key?_unnamed hu (hcs c hc)
  refine ⟨run_limiters app epoch _ s fun e he => ?_, fun c hc hu => ⟨hunknown c hc hu, fun e _ a ha haddr => ?_⟩,
    fun h c hc d hd hcu hdu => ?_, fun h c hc d hd hpeer hcu hdu => absurd (h c hc d hd hcu hdu) hpeer⟩
  · obtain ⟨c, hc, rfl⟩ := List.mem_map.mp he
    exact hcs c hc
  · rw [Connection.key?_identifies ha, hunknown c hc hu]
    exact fun hsame => haddr.ne_unknown (Option.some.inj hsame)
  · by_contra hpeer
    exact (h c hc d hd hpeer hcu hdu).keys ((hunknown c hc hcu).trans (hunknown d hd hdu).symm)

/-- A forget without a header to name anybody. -/
def Sample.nameless (n : ℕ) : Arrival := ⟨n * 10 ^ 9, .forget (fun _ => none) "first" 9, Sample.env n, []⟩

theorem Sample.nameless_unnamed (peer : String) (n : ℕ) : Connection.Unnamed ⟨peer, Sample.nameless n⟩ := by
  intro r hr
  obtain rfl := Option.some.inj hr
  exact ⟨fun v s hv => (by cases hv), fun v s hv => (by cases hv)⟩

/-- With one call a minute, the peer that comes second is refused, for what the
first has done. -/
theorem strangers_share :
    let c : Connection := ⟨"10.0.0.1", Sample.nameless 0⟩
    let d : Connection := ⟨"10.0.0.2", Sample.nameless 1⟩
    let s : Replica := ⟨Rates.limiters ⟨1, 60, 10, 3600⟩, Sample.library⟩
    c.peer ≠ d.peer ∧ c.Unnamed ∧ d.Unnamed ∧ ¬ ToldApart [c, d] c d ∧
      (s.handle Sample.replica 0 d.arrival).1 = some (.error (.notFound "workflow")) ∧
      ((s.handle Sample.replica 0 c.arrival).2.handle Sample.replica 0 d.arrival).1 = some (.error .tooManyRequests) := by
  intro c d s
  have hreq : ∀ n, (Sample.nameless n).req.limited? = some (.install, fun _ => none) := fun _ => rfl
  have hc : c.Unnamed := Sample.nameless_unnamed _ 0
  have hd : d.Unnamed := Sample.nameless_unnamed _ 1
  have hkey : clientKey (fun _ => none) none = "unknown" := rfl
  refine ⟨by decide, hc, hd, fun h => h.keys ?_, ?_, ?_⟩
  · rw [Connection.key?_unnamed hc (by simp [c, hreq]), Connection.key?_unnamed hd (by simp [d, hreq])]
  · unfold Replica.handle
    refine serve_limited (Q := fun r => r.1 = some (.error (.notFound "workflow"))) (fun hno => ?_) fun _ => rfl
    have hpass : (s.limiters.check .install d.arrival.now "unknown").1 = true := by
      show ((RateLimiter.new 1 (fromSecs 60)).visit ⟨d.arrival.now, "unknown"⟩).1 = true
      rw [RateLimiter.visit_new]
    rw [hkey, hpass] at hno
    cases hno
  · refine (handle_limited Sample.replica 0 _ (hreq 1)).refused ?_
    rw [(handle_limited Sample.replica 0 s (hreq 0)).limiters, hkey]
    -- the window that the first call has opened has counted one
    let l : RateLimiter := (RateLimiter.new 1 (fromSecs 60)).put "unknown" ⟨0, 1⟩
    have hsheds : l.sheds (10 ^ 9) = false := by
      unfold RateLimiter.sheds RateLimiter.purge
      simp [l, RateLimiter.put, RateLimiter.new, maxTracked, Std.HashMap.size_insert]
    have hcurrent : l.current ⟨10 ^ 9, "unknown"⟩ = some ⟨0, 1⟩ :=
      RateLimiter.current_put (v := ⟨10 ^ 9, "unknown"⟩) (by decide)
    have hfirst : ((RateLimiter.new 1 (fromSecs 60)).visit ⟨0, "unknown"⟩).2 = l := by rw [RateLimiter.visit_new]
    have hsecond : (l.visit ⟨10 ^ 9, "unknown"⟩).1 = false := by
      rw [RateLimiter.visit_current (v := ⟨10 ^ 9, "unknown"⟩) hsheds hcurrent]
      rfl
    rw [← hfirst] at hsecond
    exact hsecond

/-- Two peers without a header. -/
theorem unnamed_share_two :
    let c : Connection := ⟨"10.0.0.1", Sample.nameless 0⟩
    let d : Connection := ⟨"10.0.0.2", Sample.nameless 1⟩
    c.key? = some "unknown" ∧ d.key? = some "unknown" := by
  intro c d
  have h := (unnamed_share Sample.replica 0 ⟨Rates.limiters ⟨1, 60, 10, 3600⟩, Sample.library⟩ [c, d]
    (by simp [c, d, Sample.nameless, Request.limited?])).2.1
  exact ⟨(h c (by simp) (Sample.nameless_unnamed _ 0)).1, (h d (by simp) (Sample.nameless_unnamed _ 1)).1⟩

end HarnessRegistry

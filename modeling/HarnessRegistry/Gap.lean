/-
# The gap in an enrollment

A poll that enrolls upserts the publisher and looks at the block that the
upsert returns; the token goes in with a statement of its own. Between the two
an operator may block the publisher. A poll never mints for a blocked publisher
exactly in the runs in which no block is set there that still stands at the
insert (`minted_unblocked_iff`).

Key definitions: `lastBlock`, `Registry.since`, `Registry.Cleared`, `PollAt`,
`Inserts`.
Key theorems: `blocked_applyAll`, `poll_move`, `Reached.polls`,
`minted_unblocked_iff`.
-/
import HarnessRegistry.Enroll
import HarnessRegistry.Names
import Mathlib.Data.List.DropRight

namespace HarnessRegistry

open Txn Handler

variable {app : AppState} {db db₀ : Db} {s s' : Registry} {headers : HeaderMap} {body : PollRequest} {site : Site}
  {clock : DateTime} {bytes : Vector UInt8 tokenBytes} {user : GitHubUser}

/-! ### Blocks that have been set since -/

/-- The write sets the block of publisher `p`, or lifts it. -/
def Write.block? (p : Uuid) : Write → Option Bool
  | .setBlockedAt id at_ => if id = p then some at_.isSome else none
  | _ => none

/-- The last change to the block of publisher `p`. -/
def lastBlock (p : Uuid) (ws : List Write) : Option Bool := (ws.filterMap (Write.block? p)).getLast?

theorem lastBlock_append (p : Uuid) (ws vs : List Write) :
    lastBlock p (ws ++ vs) = (lastBlock p vs).or (lastBlock p ws) := by
  rw [lastBlock, List.filterMap_append, List.getLast?_append]
  rfl

theorem blocked_apply (w : Write) {q : PublisherRow} (hq : q ∈ db.publishers) :
    ∃ q' ∈ (w.apply db).publishers, q'.id = q.id ∧ q'.blockedAt.isSome = (w.block? q.id).getD q.blockedAt.isSome := by
  cases w
  case insertPublisher row => exact ⟨q, Table.mem_insert_of_mem hq, rfl, rfl⟩
  case setBlockedAt id at_ =>
    refine ⟨_, List.mem_map.mpr ⟨q, hq, rfl⟩, ?_⟩
    by_cases hid : q.id = id
    · simp [Write.block?, hid]
    · simp [Write.block?, hid, Ne.symm hid]
  case enrollPublisher id _ _ _ | issuePublisher id _ _ _ | setDisplayName id _ =>
    refine ⟨_, List.mem_map.mpr ⟨q, hq, rfl⟩, ?_⟩
    split <;> exact ⟨rfl, rfl⟩
  all_goals exact ⟨q, hq, rfl, rfl⟩

/-- A publisher is blocked as the last change has it, or as before. -/
theorem blocked_applyAll : ∀ (ws : List Write) {db : Db} {q : PublisherRow}, q ∈ db.publishers →
    ∃ q' ∈ (registry.applyAll ws db).publishers, q'.id = q.id ∧
      q'.blockedAt.isSome = (lastBlock q.id ws).getD q.blockedAt.isSome
  | [], _, q, hq => ⟨q, hq, rfl, rfl⟩
  | w :: ws, db, q, hq => by
    obtain ⟨q₁, hq₁, hid₁, hb₁⟩ := blocked_apply w hq
    obtain ⟨q₂, hq₂, hid₂, hb₂⟩ := blocked_applyAll ws hq₁
    refine ⟨q₂, hq₂, hid₂.trans hid₁, ?_⟩
    rw [hb₂, hb₁, hid₁, ← List.singleton_append, lastBlock_append]
    cases lastBlock q.id ws with
    | some b => rfl
    | none => cases hw : w.block? q.id <;> simp [lastBlock, hw]

/-- What has been committed since request `r` last committed anything. -/
def Registry.since (s : Registry) (r : ℕ) : List Write := (s.log.rtakeWhile fun e => e.1 != some r).map Prod.snd

theorem since_append {r : ℕ} {o : Option ℕ} {ws : List Write} (hl : s'.log = s.log ++ ws.map (o, ·)) (ho : o ≠ some r) :
    s'.since r = s.since r ++ ws := by
  unfold Registry.since
  rw [hl]
  clear hl
  induction ws using List.reverseRecOn with
  | nil => simp
  | append_singleton ws w ih =>
    rw [List.map_append, ← List.append_assoc, List.map_singleton, List.rtakeWhile_concat_pos _ _ _ (by simpa using ho),
      List.map_append, ih, List.append_assoc]
    rfl

theorem since_own {r : ℕ} {w : Write} (hl : s'.log = s.log ++ [(some r, w)]) : s'.since r = [] := by
  unfold Registry.since
  rw [hl, List.rtakeWhile_concat_neg _ _ _ (by simp)]
  rfl

/-- The publisher has no block but one that has been set since. -/
def Registry.Cleared (s : Registry) (r : ℕ) (q : PublisherRow) : Prop :=
  q ∈ s.db.publishers ∧ q.blockedAt.isSome = (lastBlock q.id (s.since r)).getD false

/-- It has none but such a one while others write. -/
theorem Registry.Cleared.step {r : ℕ} {o : Option ℕ} {q : PublisherRow} {ws : List Write} (h : s.Cleared r q)
    (hd : s'.db = registry.applyAll ws s.db) (hl : s'.log = s.log ++ ws.map (o, ·)) (ho : o ≠ some r) :
    ∃ q', s'.Cleared r q' ∧ q'.id = q.id := by
  obtain ⟨q', hq', hid, hb⟩ := blocked_applyAll ws h.1
  refine ⟨q', ⟨hd ▸ hq', ?_⟩, hid⟩
  rw [hb, h.2, hid, since_append hl ho, lastBlock_append]
  cases lastBlock q.id ws <;> rfl

/-! ### Where a poll stands -/

/-- The last statement of an enrollment, and the answer. -/
def mintToken (app : AppState) (user : GitHubUser) (bytes : Vector UInt8 tokenBytes) (publisher : Uuid) : Handler Reply :=
  query (.insertToken publisher (hashToken app.sha256 (generateToken bytes)) tokenName) >>= fun _ =>
    pure (.enrolled (generateToken bytes) publisher user.login)

/-- The first question of a poll, and what follows. -/
theorem poll_run (app : AppState) (headers : HeaderMap) (body : PollRequest) (site : Site) (clock : DateTime)
    (bytes : Vector UInt8 tokenBytes) :
    (poll app headers body site clock bytes).run = .ask (.enrollPoll, clientKey headers none) fun admitted =>
      (if admitted = true then (verdict app body site clock).handler app bytes else throw .tooManyRequests).run := by
  rw [poll_eq]
  rfl

/-- A poll is at the limiter, at its upsert, or at its token with a publisher
who had no block at the upsert; or it is ended. -/
inductive PollAt (app : AppState) (s : Registry) (r : ℕ) (headers : HeaderMap) (body : PollRequest) (site : Site)
    (clock : DateTime) (bytes : Vector UInt8 tokenBytes) : Prog registry (Except Error Reply) → Prop
  | asking {p : Prog registry (Except Error Reply)} : p = (poll app headers body site clock bytes).run →
      PollAt app s r headers body site clock bytes p
  | upserting {user : GitHubUser} : PollAt app s r headers body site clock bytes (mint app user bytes).run
  | inserting {user : GitHubUser} {q : PublisherRow} : s.Cleared r q →
      PollAt app s r headers body site clock bytes (mintToken app user bytes q.id).run
  | ended {out : Except Error Reply} : PollAt app s r headers body site clock bytes (.ret out)
  | crashed : PollAt app s r headers body site clock bytes .crash

/-- Others write. -/
theorem PollAt.step {r : ℕ} {p : Prog registry (Except Error Reply)} (o : Option ℕ) (ws : List Write)
    (h : PollAt app s r headers body site clock bytes p) (hd : s'.db = registry.applyAll ws s.db)
    (hl : s'.log = s.log ++ ws.map (o, ·)) (ho : o ≠ some r) : PollAt app s' r headers body site clock bytes p := by
  cases h with
  | inserting hq =>
    obtain ⟨q', hq', hid⟩ := hq.step hd hl ho
    rw [← hid]
    exact .inserting hq'
  | asking hp => exact .asking hp
  | upserting => exact .upserting
  | ended => exact .ended
  | crashed => exact .crashed

/-- A verdict is followed by an upsert or by nothing. -/
theorem Verdict.pollAt {r : ℕ} (v : Verdict) : PollAt app s r headers body site clock bytes (v.handler app bytes).run := by
  cases v with
  | crashes => exact .crashed
  | refused e => exact .ended
  | unfinished status => exact .ended
  | enrolls user => exact .upserting

/-- The upsert returns the row's id and block. -/
theorem run_enrollPublisher_row {env : Env} {g : ℤ} {login : String} {name avatar : Option String} {p : Uuid}
    {blockedAt : Option Timestamp} {ws : List Write}
    (h : Stmt.run env db (.enrollPublisher g login name avatar) = .ok ((p, blockedAt), ws)) :
    ∃ w, ws = [w] ∧ w.upserts = true ∧ ∃ q ∈ (w.apply db).publishers, q.id = p ∧ q.blockedAt = blockedAt := by
  rcases enrollPublisher_cases h with ⟨r, hr, -, rfl, rfl, rfl⟩ | ⟨-, hnew, rfl, rfl, rfl⟩
  · exact ⟨_, rfl, rfl, _, List.mem_map.mpr ⟨r, hr, if_pos rfl⟩, rfl, rfl⟩
  · exact ⟨_, rfl, rfl, _, (Table.mem_insert hnew).mpr (.inr rfl), rfl, rfl⟩

theorem settle_none (p : Prog registry (Except Error Reply)) : Task.settle p none = none := by cases p <;> rfl

/-- A statement, and what follows it. -/
theorem run_query_bind {α : Type} (q : Stmt) (g : q.Res → Handler α) :
    (query q >>= g).run = Prog.stmt (S := registry) q fun
      | .ok a => (g a).run
      | .error e => .ret (.error (.database e)) := by
  rw [query, run_queryOr_bind]
  congr 1
  funext r
  cases r <;> rfl

/-- A statement of its own fails, or it goes through and what it writes is
committed. -/
theorem move_query {q : Stmt} {g : q.Res → Handler Reply} {t t' : Call} {c : Choice registry} {ws : List Write}
    (htx : t.tx = none) (hp : t.prog = (query q >>= g).run) (hc : c ≠ .drop) (hm : t.move db c = some (t', ws)) :
    t'.tx = none ∧ ((ws = [] ∧ ∃ e, t'.prog = .ret (.error e)) ∨
      ∃ env a, q.exec env db = .ok (a, ws) ∧ t'.prog = (g a).run) := by
  obtain ⟨-, h⟩ := Task.goes_of_move hm
  have hp := hp.trans (run_query_bind q g)
  cases h with
  | left => exact absurd rfl hc
  | ran hp' _ hx =>
    cases hp'.symm.trans hp
    exact ⟨settle_none _, .inr ⟨_, _, hx, rfl⟩⟩
  | refused hp' | failed hp' =>
    cases hp'.symm.trans hp
    exact ⟨rfl, .inl ⟨rfl, _, rfl⟩⟩
  | ranTx _ htx' | refusedTx _ htx' => cases htx.symm.trans htx'
  | crashed hp' | asked hp' | begun hp' | unbegun hp' | closed hp' | committed hp' | uncommitted hp' =>
    cases hp'.symm.trans hp

/-- A question is answered, and nothing written. -/
theorem move_ask {q : Limiter × String} {k : Bool → Prog registry (Except Error Reply)} {t t' : Call}
    {c : Choice registry} {ws : List Write} (htx : t.tx = none) (hp : t.prog = .ask q k) (hc : c ≠ .drop)
    (hm : t.move db c = some (t', ws)) : t'.tx = none ∧ ws = [] ∧ ∃ b, t'.prog = k b := by
  obtain ⟨-, h⟩ := Task.goes_of_move hm
  cases h with
  | left => exact absurd rfl hc
  | asked hp' =>
    cases hp'.symm.trans hp
    rw [htx]
    exact ⟨settle_none _, rfl, _, rfl⟩
  | crashed hp' | begun hp' | unbegun hp' | closed hp' | committed hp' | uncommitted hp' | ran hp' | ranTx hp'
  | refused hp' | refusedTx hp' | failed hp' => cases hp'.symm.trans hp

/-- Who leaves stays where he is. -/
theorem move_drop {t t' : Call} {ws : List Write} (hm : t.move db .drop = some (t', ws)) :
    t'.tx = none ∧ ws = [] ∧ t'.prog = t.prog := by
  obtain ⟨-, h⟩ := Task.goes_of_move hm
  cases h with
  | left => exact ⟨rfl, rfl, rfl⟩

/-- A move of a poll: where it stands then, and for whom a token goes in. -/
theorem poll_move {r : ℕ} {t t' : Call} {c : Choice registry} {ws : List Write} (htx : t.tx = none)
    (h : PollAt app s r headers body site clock bytes t.prog) (hm : t.move s.db c = some (t', ws)) :
    t'.tx = none ∧ PollAt app (s.moved r t' ws) r headers body site clock bytes t'.prog ∧
      ∀ row, .insertToken row ∈ ws → ∃ q, s.Cleared r q ∧ q.id = row.publisherId := by
  by_cases hc : c = .drop
  · subst hc
    obtain ⟨htx', rfl, hprog⟩ := move_drop hm
    refine ⟨htx', ?_, by simp⟩
    rw [hprog]
    exact h.step none [] rfl (by simp [Pool.moved]) (by simp)
  generalize hp : t.prog = p at h
  cases h with
  | asking he =>
    obtain ⟨htx', rfl, admitted, hprog⟩ := move_ask htx (hp.trans (he.trans (poll_run ..))) hc hm
    refine ⟨htx', ?_, by simp⟩
    rw [hprog]
    by_cases hadm : admitted = true
    · rw [if_pos hadm]
      exact Verdict.pollAt _
    · rw [if_neg hadm]
      exact .ended
  | @upserting user =>
    obtain ⟨htx', ⟨rfl, e, he⟩ | ⟨env, ⟨p, blockedAt⟩, hx, hprog⟩⟩ := move_query htx hp hc hm
    · exact ⟨htx', he ▸ .ended, by simp⟩
    obtain ⟨w, rfl, hw, q, hq, rfl, hb⟩ := run_enrollPublisher_row (run_of_exec hx)
    refine ⟨htx', ?_, ?_⟩
    · cases blockedAt with
      | some at_ => exact hprog ▸ .ended
      | none =>
        rw [hprog]
        refine .inserting (q := q) ⟨hq, ?_⟩
        rw [hb, since_own rfl]
        rfl
    · intro row hrow
      obtain rfl := List.mem_singleton.mp hrow
      cases hw
  | @inserting user q hq =>
    obtain ⟨htx', ⟨rfl, e, he⟩ | ⟨env, row, hx, hprog⟩⟩ := move_query htx hp hc hm
    · exact ⟨htx', he ▸ .ended, by simp⟩
    obtain ⟨rfl, -, -⟩ := exec_insertToken hx
    refine ⟨htx', hprog ▸ .ended, fun row hrow => ⟨q, hq, ?_⟩⟩
    cases List.mem_singleton.mp hrow
    rfl
  | ended =>
    cases c with
    | drop => exact absurd rfl hc
    | fail | go env => simp [Task.move, hp] at hm
  | crashed =>
    cases c with
    | drop => exact absurd rfl hc
    | fail => simp [Task.move, hp] at hm
    | go env =>
      simp only [Task.move, hp, Option.ite_none_left_eq_some] at hm
      cases hm.2
      exact ⟨rfl, .crashed, by simp⟩

/-! ### Along a run -/

/-- At the move from `s` to `s'` the request `r` inserts a token. -/
def Inserts (r : ℕ) (row : TokenRow) (s s' : Registry) : Prop :=
  ∃ l, s'.log = s.log ++ l ∧ (some r, .insertToken row) ∈ l

/-- Request `r` is a poll. -/
def Polls (s : Registry) (r : ℕ) : Prop :=
  ∃ (t : Call) (headers : HeaderMap) (body : PollRequest) (site : Site) (clock : DateTime)
    (bytes : Vector UInt8 tokenBytes), s.tasks[r]? = some t ∧ t.req = .poll headers body site clock bytes

/-- Every poll is where a poll can be. -/
theorem Reached.polls (h0 : db₀.Sound) (h : Reached app db₀ s) : ∀ (r : ℕ) (t : Call), s.tasks[r]? = some t →
    t.req = .poll headers body site clock bytes →
      t.tx = none ∧ PollAt app s r headers body site clock bytes t.prog := by
  refine h.induct (P := fun s => ∀ (r : ℕ) (t : Call), s.tasks[r]? = some t →
    t.req = .poll headers body site clock bytes → t.tx = none ∧ PollAt app s r headers body site clock bytes t.prog)
    h0 (by simp [Registry.start]) fun s a s' _ hg ih hst r t ht hreq => ?_
  rcases Pool.step_cases hst with ⟨req, rfl, rfl⟩ | ⟨w, -, -, -, rfl⟩ | ⟨i, c, u, t', ws, -, hu, hm, -, rfl⟩
  · rcases Pool.step_task hst ht with ht | ⟨req, rfl⟩ | ⟨_, _, _, ha, -⟩
    · obtain ⟨htx, hat⟩ := ih r t ht hreq
      exact ⟨htx, hat.step none [] rfl (by simp [Pool.arrived]) (by simp)⟩
    · obtain rfl : req = _ := hreq
      exact ⟨rfl, .asking rfl⟩
    · cases ha
  · obtain ⟨htx, hat⟩ := ih r t ht hreq
    exact ⟨htx, hat.step none [w] rfl rfl (by simp)⟩
  · rcases Pool.of_task_moved hu ht with ⟨rfl, rfl⟩ | ⟨hi, ht⟩
    · obtain ⟨htx, hat⟩ := ih r u hu ((Contract.move_eq hm).1.symm.trans hreq)
      obtain ⟨htx', hat', -⟩ := poll_move htx hat hm
      exact ⟨htx', hat'⟩
    · obtain ⟨htx, hat⟩ := ih r t ht hreq
      exact ⟨htx, hat.step (some i) ws rfl rfl (by simpa using Ne.symm hi)⟩

/-- What a poll inserts is for a publisher who had no block at the upsert. -/
theorem Reached.inserts_cleared (h0 : db₀.Sound) (h : Reached app db₀ s) {a : Action registry Request}
    (hst : s.step (handle app) a = some s') {r : ℕ} {row : TokenRow} (hp : Polls s r) (hi : Inserts r row s s') :
    ∃ q, s.Cleared r q ∧ q.id = row.publisherId := by
  obtain ⟨t, headers, body, site, clock, bytes, ht, hreq⟩ := hp
  obtain ⟨l, hl, hmem⟩ := hi
  obtain ⟨htx, hat⟩ := h.polls h0 r t ht hreq
  rcases Pool.step_cases hst with ⟨req, -, rfl⟩ | ⟨w, -, -, -, rfl⟩ | ⟨i, c, u, t', ws, -, hu, hm, -, rfl⟩
  · obtain rfl : l = [] := by simpa [Pool.arrived] using hl.symm
    cases hmem
  · obtain rfl : [(none, w)] = l := List.append_cancel_left hl
    simp at hmem
  · obtain rfl : ws.map (some i, ·) = l := List.append_cancel_left hl
    obtain ⟨w, hw, he⟩ := List.mem_map.mp hmem
    obtain ⟨hi, rfl⟩ := Prod.mk.inj he
    obtain rfl := Option.some.inj hi
    obtain rfl := Option.some.inj (ht.symm.trans hu)
    exact (poll_move htx hat hm).2.2 row hw

/-- **No enrolling around a block, unless it comes in between.** Along every run,
no poll inserts a token for a publisher who is blocked then, if and only if at
every such insert the last change to the publisher's block since the poll's
upsert, if there was any, lifted it. -/
theorem minted_unblocked_iff (h0 : db₀.Sound) (as : List (Action registry Request)) :
    (∀ as₁ a (s₁ s₂ : Registry) r row, Pool.Moves (handle app) (Registry.start db₀) as as₁ a s₁ s₂ → Polls s₁ r →
      Inserts r row s₁ s₂ → ∀ q ∈ s₁.db.publishers, q.id = row.publisherId → q.blockedAt = none) ↔
    ∀ as₁ a (s₁ s₂ : Registry) r row, Pool.Moves (handle app) (Registry.start db₀) as as₁ a s₁ s₂ → Polls s₁ r →
      Inserts r row s₁ s₂ → lastBlock row.publisherId (s₁.since r) ≠ some true := by
  have key : ∀ {as₁ a r row} {s₁ s₂ : Registry}, Pool.Moves (handle app) (Registry.start db₀) as as₁ a s₁ s₂ → Polls s₁ r →
      Inserts r row s₁ s₂ → ((∀ q ∈ s₁.db.publishers, q.id = row.publisherId → q.blockedAt = none) ↔
        lastBlock row.publisherId (s₁.since r) ≠ some true) := by
    intro as₁ a r row s₁ s₂ hmv hp hi
    have hr : Reached app db₀ s₁ := ⟨as₁, hmv.before⟩
    obtain ⟨q, ⟨hq, hb⟩, hid⟩ := hr.inserts_cleared h0 hmv.step hp hi
    rw [hid] at hb
    constructor
    · intro hall hblock
      rw [hblock, hall q hq hid] at hb
      cases hb
    · intro hno x hx hxid
      obtain rfl := PublisherRow.eq_of_id hx hq (hxid.trans hid.symm)
      refine Option.not_isSome_iff_eq_none.mp fun hsome => hno ?_
      rw [hb] at hsome
      cases hl : lastBlock row.publisherId (s₁.since r) with
      | none => rw [hl] at hsome; cases hsome
      | some b => rw [hl] at hsome; exact congrArg some hsome
  exact ⟨fun h _ _ _ _ _ _ hmv hp hi => (key hmv hp hi).mp (h _ _ _ _ _ _ hmv hp hi),
    fun h _ _ _ _ _ _ hmv hp hi => (key hmv hp hi).mpr (h _ _ _ _ _ _ hmv hp hi)⟩

/-- A poll for a new account, up to its upsert. -/
def Sample.upserted : List (Action registry Request) := .arrive poll :: moves 10 0 2

/-- The operator blocks the account, or lifts the block. -/
def Sample.block (clock r : ℕ) (value : Bool) : List (Action registry Request) :=
  serve clock r (.setBlocked (Sample.headers "operator") 1000 value) 1

/-- The token is inserted. -/
def Sample.inserts : Action registry Request := .task 0 (.go (env 30))

def Sample.insertion : Option ℕ × Write := (some 0, .insertToken (HarnessRegistry.minted enrolling (Sample.bytes 0) 11))

/-- The log. -/
def Registry.entries (s : Registry) : List (Option ℕ × Write) := s.log

/-- **The block comes in between**: the token goes in for a publisher who is
blocked, and works as soon as the block is lifted. -/
theorem minted_while_blocked :
    ∃ s s' u : Registry,
      (Registry.start Sample.nothing).run (handle Sample.enrolling) (Sample.upserted ++ Sample.block 20 1 true) = some s ∧
      s.step (handle Sample.enrolling) Sample.inserts = some s' ∧ Polls s 0 ∧
      (∃ row, Inserts 0 row s s' ∧ ∃ q ∈ s.db.publishers, q.id = row.publisherId ∧ q.blockedAt ≠ none) ∧
      s'.run (handle Sample.enrolling)
        (Sample.block 40 2 false ++ Sample.serve 50 3 (.me (Sample.headers (Sample.token 0))) 3) = some u ∧
      u.tasks.map Task.answered = [some (.ok (.enrolled (Sample.token 0) 11 "ada-l")), some (.ok (.blocked 1000 true)),
        some (.ok (.blocked 1000 false)), some (.ok (.me ⟨"ada-l", some "Ada Lovelace", none⟩))] := by
  have h : (((Registry.start Sample.nothing).run (handle Sample.enrolling)
      (Sample.upserted ++ Sample.block 20 1 true)).bind fun s =>
        (s.step (handle Sample.enrolling) Sample.inserts).bind fun s' => (s'.run (handle Sample.enrolling)
          (Sample.block 40 2 false ++ Sample.serve 50 3 (.me (Sample.headers (Sample.token 0))) 3)).map fun u =>
            (s.db.publishers.rows, decide (Registry.entries s' = Registry.entries s ++ [Sample.insertion]),
              u.tasks.map Task.answered)) =
      some ([⟨11, 1000, "ada-l", some "Ada Lovelace", none, some 20000000⟩], true,
        [some (.ok (.enrolled (Sample.token 0) 11 "ada-l")), some (.ok (.blocked 1000 true)),
          some (.ok (.blocked 1000 false)), some (.ok (.me ⟨"ada-l", some "Ada Lovelace", none⟩))]) := by
    decide +kernel
  obtain ⟨s, hs, h⟩ := Option.bind_eq_some_iff.mp h
  obtain ⟨s', hst, h⟩ := Option.bind_eq_some_iff.mp h
  obtain ⟨u, hu, h⟩ := Option.map_eq_some_iff.mp h
  obtain ⟨hrows, h⟩ := Prod.mk.inj h
  obtain ⟨hlog, ha⟩ := Prod.mk.inj h
  have hpolls : Polls s 0 := by
    have hreqs : (s.tasks.map Task.req)[0]? = some Sample.poll := by
      rw [Pool.reqs_run hs]
      rfl
    rw [List.getElem?_map] at hreqs
    obtain ⟨t, ht, hreq⟩ := Option.map_eq_some_iff.mp hreqs
    exact ⟨t, _, _, _, _, _, ht, hreq⟩
  refine ⟨s, s', u, hs, hst, hpolls, ⟨minted Sample.enrolling (Sample.bytes 0) 11, ⟨_, of_decide_eq_true hlog, List.mem_singleton_self _⟩,
    ⟨11, 1000, "ada-l", some "Ada Lovelace", none, some 20000000⟩, ?_, rfl, by simp⟩, hu, ha⟩
  show _ ∈ s.db.publishers.rows
  rw [hrows]
  exact List.mem_singleton_self _

/-- A block that is lifted before the token goes in. -/
def Sample.lifted : List (Action registry Request) :=
  upserted ++ Sample.block 20 1 true ++ Sample.block 25 2 false ++ [inserts]

/-- The check of one move: no entry that it adds is for a publisher who has been
blocked since. -/
def Sample.clean (s s' : Registry) : Bool :=
  (s'.entries.drop s.entries.length).all fun e => match e with
    | (some r, .insertToken row) => lastBlock row.publisherId (s.since r) != some true
    | _ => true

/-- It mints for somebody without a block. -/
theorem minted_unblocked_iff_lifted :
    ∃ s s' : Registry, Pool.Moves (handle Sample.enrolling) (Registry.start Sample.nothing) Sample.lifted
        (Sample.lifted.take 7) Sample.inserts s s' ∧ s'.db.tokens.rows.length = 1 ∧
      ∀ as₁ a (s₁ s₂ : Registry) r row, Pool.Moves (handle Sample.enrolling) (Registry.start Sample.nothing)
        Sample.lifted as₁ a s₁ s₂ → Polls s₁ r → Inserts r row s₁ s₂ →
          ∀ q ∈ s₁.db.publishers, q.id = row.publisherId → q.blockedAt = none := by
  have h : (((Registry.start Sample.nothing).run (handle Sample.enrolling) (Sample.lifted.take 7)).bind fun s =>
      (s.step (handle Sample.enrolling) Sample.inserts).map fun s' => s'.db.tokens.rows.length) = some 1 := by
    decide +kernel
  obtain ⟨s, hs, h⟩ := Option.bind_eq_some_iff.mp h
  obtain ⟨s', hst, htokens⟩ := Option.map_eq_some_iff.mp h
  have hclean : ((List.range 8).all fun k => ((Registry.start Sample.nothing).run (handle Sample.enrolling)
      (Sample.lifted.take k)).all fun s => (Sample.lifted[k]?.bind (s.step (handle Sample.enrolling))).all fun s' =>
        Sample.clean s s') = true := by
    decide +kernel
  have h0 : Sample.nothing.Sound := (show Sample.nothing.Initial from ⟨rfl, rfl, rfl⟩).sound
  refine ⟨s, s', ⟨⟨[], rfl⟩, hs, hst⟩, htokens, (minted_unblocked_iff h0 _).mpr fun as₁ a s₁ s₂ r row hmv _ hi => ?_⟩
  obtain ⟨as₂, hsplit⟩ := hmv.rest
  obtain ⟨l, hl, hmem⟩ := hi
  have hlen : as₁.length < 8 := by
    have := congrArg List.length hsplit
    rw [show Sample.lifted.length = 8 from rfl, List.length_append, List.length_cons] at this
    omega
  have hk := List.all_eq_true.mp hclean as₁.length (List.mem_range.mpr hlen)
  rw [hsplit, List.take_left, hmv.before, List.getElem?_append_right le_rfl, Nat.sub_self] at hk
  have hk : (s₁.step (handle Sample.enrolling) a).all (Sample.clean s₁) = true := hk
  rw [hmv.step] at hk
  have hnew : s₂.entries.drop s₁.entries.length = l := by
    show s₂.log.drop s₁.log.length = l
    rw [hl, List.drop_left]
  have hk : Sample.clean s₁ s₂ = true := hk
  unfold Sample.clean at hk
  rw [hnew] at hk
  simpa using List.all_eq_true.mp hk _ hmem

end HarnessRegistry

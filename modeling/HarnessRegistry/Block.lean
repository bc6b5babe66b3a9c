/-
# A block holds until it is lifted

The block is a column of the publisher's row and is looked at together with
the token. The two upserts that may write that row in the meantime leave the
column alone, so it is what the last `set_blocked` made it (`Blocks`). A
request whose lookup finds the block ends there: it has written nothing and
never will; one that finds it lifted goes on as the publisher.

Key definitions: `blockOf`, `Blocks`, `Request.body`.
Key theorems: `asPublisher_run`, `Reached.blocks`, `lookup_blocked`,
`lookup_live`, `Reached.block_refuses`, `Reached.lifted_goes_on`, `block_holds`.
-/
import HarnessRegistry.Runs

namespace HarnessRegistry

open Txn Handler

variable {app : AppState} {db db₀ : Db} {s s' : Registry}

/-! ### The column -/

/-- An event of the history that blocks a GitHub id or lifts the block. -/
def blockOf (g : ℤ) : Option Request × Write → Option Bool
  | (some (.setBlocked _ g' value), _) => if g' = g then some value else none
  | _ => none

/-- The account, and whether it is blocked. -/
def PublisherRow.standing (a b : PublisherRow) : Prop := b.githubId = a.githubId ∧ b.blockedAt = a.blockedAt

theorem PublisherRow.standing.refl (q : PublisherRow) : q.standing q := ⟨rfl, rfl⟩

/-- A write that leaves the blocks. -/
def Write.lenient : Write → Bool
  | .setBlockedAt .. => false
  | _ => true

theorem standing_apply {w : Write} (hw : w.lenient = true) (db : Db) :
    Table.Kept PublisherRow.standing db.publishers (w.apply db).publishers := by
  cases w
  case setBlockedAt => cases hw
  case insertPublisher => exact Table.kept_insert PublisherRow.standing.refl _ _
  case enrollPublisher | issuePublisher | setDisplayName =>
    exact Table.kept_update PublisherRow.standing.refl (fun _ => by rfl) fun _ _ => ⟨rfl, rfl⟩
  all_goals exact .refl PublisherRow.standing.refl _

theorem standing_applyAll : ∀ (ws : List Write) (db : Db), (∀ w ∈ ws, w.lenient = true) →
    Table.Kept PublisherRow.standing db.publishers (registry.applyAll ws db).publishers
  | [], _, _ => .refl PublisherRow.standing.refl _
  | w :: ws, db, h => (standing_apply (h w List.mem_cons_self) db).trans
      (fun _ _ _ h h' => ⟨h'.1.trans h.1, h'.2.trans h.2⟩)
      (standing_applyAll ws _ fun v hv => h v (List.mem_cons_of_mem _ hv))

/-- Who was blocked last is blocked, and whose block was lifted last is not. -/
def Blocks (s : Registry) : Prop :=
  ∀ g value, s.last (blockOf g) = some value → ∃ q ∈ s.db.publishers, q.githubId = g ∧ q.blockedAt.isSome = value

theorem Blocks.unread (hb : Blocks s) (l : List (Option Request × Write)) (hh : s'.history = s.history ++ l)
    (hl : ∀ g, ∀ e ∈ l, blockOf g e = none)
    (hk : Table.Kept PublisherRow.standing s.db.publishers s'.db.publishers) : Blocks s' := by
  intro g value h
  rw [Pool.last_unread hh (hl g)] at h
  obtain ⟨q, hq, hg, hv⟩ := hb g value h
  obtain ⟨q', hq', hs⟩ := hk q hq
  exact ⟨q', hq', hs.1.trans hg, by rw [hs.2]; exact hv⟩

theorem Blocks.blocked (hb : Blocks s) {h : HeaderMap} {value : Bool} {p : PublisherRow} {at_ : Option Timestamp}
    (hp : p ∈ s.db.publishers) (hat : at_.isSome = value) (hd : s'.db = (Write.setBlockedAt p.id at_).apply s.db)
    (hh : s'.history = s.history ++ [(some (.setBlocked h p.githubId value), .setBlockedAt p.id at_)]) :
    Blocks s' := by
  have hmem : ∀ q ∈ s.db.publishers, (if q.id = p.id then { q with blockedAt := at_ } else q) ∈ s'.db.publishers := by
    intro q hq
    rw [hd]
    exact List.mem_map.mpr ⟨q, hq, rfl⟩
  intro g v hv
  by_cases hg : p.githubId = g
  · have hset : s'.last (blockOf g) = some value := by
      rw [Pool.last_append hh]
      simp [blockOf, hg]
    rw [hset] at hv
    cases hv
    have hq := hmem p hp
    rw [if_pos rfl] at hq
    exact ⟨_, hq, hg, hat⟩
  · rw [Pool.last_unread hh (by simp [blockOf, hg])] at hv
    obtain ⟨q, hq, hqg, hqv⟩ := hb g v hv
    have hne : q.id ≠ p.id := fun hi => hg (by rw [← PublisherRow.eq_of_id hq hp hi, hqg])
    have hq' := hmem q hq
    rw [if_neg hne] at hq'
    exact ⟨q, hq', hqg, hqv⟩

theorem Blocks.commit (hb : Blocks s) {req : Request} {done ws : List Write} (hgu : Guar app req done s.db ws)
    (hd : s'.db = registry.applyAll ws s.db) (hh : s'.history = s.history ++ ws.map (some req, ·)) : Blocks s' := by
  have plain : (∀ g w, blockOf g (some req, w) = none) → (∀ w ∈ ws, w.lenient = true) → Blocks s' := by
    intro hr hw
    refine hb.unread _ hh (fun g e he => ?_) ?_
    · obtain ⟨w, -, rfl⟩ := List.mem_map.mp he
      exact hr g w
    · rw [hd]
      exact standing_applyAll ws s.db hw
  cases hgu with
  | «prelude» _ hp =>
    cases hp with
    | @touched _ _ _ _ _ _ hreq =>
      exact plain (by intro g w; cases req <;> first | rfl | cases hreq) (by simp [Write.lenient])
    | upserted _ hu =>
      refine plain (fun _ _ => rfl) fun w hw => ?_
      rw [List.mem_singleton.mp hw]
      cases hu <;> rfl
  | effect _ he =>
    cases he with
    | @blocked _ _ value _ p now _ hp hg =>
      subst hg
      exact hb.blocked hp (by cases value <;> rfl) hd hh
    | issued _ _ hu =>
      refine plain (fun _ _ => rfl) fun w hw => ?_
      simp only [List.mem_cons, List.not_mem_nil, or_false] at hw
      rcases hw with rfl | rfl
      · cases hu <;> rfl
      · rfl
    | _ => exact plain (fun _ _ => rfl) (by simp [Write.lenient])

theorem Reached.blocks (h0 : db₀.Sound) (h : Reached app db₀ s) : Blocks s := by
  refine h.induct (P := Blocks) h0 (fun g value hl => ?_) fun s a s' _ hg hb hst => ?_
  · simp [Pool.last, Pool.history, Registry.start] at hl
  · rcases Contract.step_cases hg hst with ⟨hd, -, hh⟩ | ⟨w, hw, hd, -, hh, -⟩ | ⟨r, t, t', ws, -, hgu, -, hd, -, hh, -⟩
    · refine hb.unread [] (by simpa using hh) (by simp) ?_
      rw [hd]
      exact .refl PublisherRow.standing.refl _
    · have hwl : w.lenient = true := by cases w <;> first | rfl | cases hw
      refine hb.unread _ hh (by simp [blockOf]) ?_
      rw [hd]
      exact standing_apply hwl s.db
    · exact hb.commit hgu hd hh

/-! ### The lookup -/

/-- What a publisher's request does once it is authenticated. -/
def Request.body (app : AppState) : Request → Publisher → Handler Reply
  | .create _ body, p => HarnessRegistry.create app p body
  | .publishVersion _ slug body, p => HarnessRegistry.publishVersion app p slug body
  | .update _ slug body, p => HarnessRegistry.update p slug body
  | .unlist _ slug, p => HarnessRegistry.unlist p slug
  | .me _, p => Me.get p
  | .updateMe _ body, p => Me.update p body
  | _, _ => throw .unauthorized

theorem handle_publisher {req : Request} {headers : HeaderMap} (h : req.publisher? = some headers) :
    handle app req = (asPublisher app headers (req.body app)).run := by
  cases req <;> cases h <;> rfl

/-- A publisher's request is a lookup, and then the touch and the body, or a
refusal. -/
theorem asPublisher_run {headers : HeaderMap} {token : String} {f : Publisher → Handler Reply}
    (hb : bearer headers = some token) :
    (asPublisher app headers f).run = .stmt (S := registry) (.authLookup (hashToken app.sha256 token)) fun r => match r with
      | .error e => .ret (.error (.database e))
      | .ok none => .ret (.error .unauthorized)
      | .ok (some (id, login, blockedAt)) =>
        if blockedAt.isSome then .ret (.error (.forbidden "publisher is blocked"))
        else (do attempt (.touchToken (hashToken app.sha256 token)); f ⟨id, login⟩ : Handler Reply).run := by
  unfold asPublisher Publisher.fromRequestParts
  rw [hb]
  dsimp only
  rw [query, bind_assoc, run_queryOr_bind]
  congr 1
  funext r
  rcases r with e | _ | ⟨id, login, _ | at_⟩ <;> rfl

/-- Digests are hexadecimal, which the database can hold. -/
theorem hasNul_hashToken (sha256 : Digest) (token : String) : hasNul (hashToken sha256 token) = false := by
  have hdigit : ∀ n < 16, hexDigit n ≠ '\x00' := by decide
  have hlt : ∀ b : UInt8, b.toNat / 16 < 16 ∧ b.toNat % 16 < 16 := fun b => by
    have := b.toNat_lt
    omega
  unfold hasNul hashToken hexEncode
  rw [String.toList_ofList]
  simp only [Bool.eq_false_iff, ne_eq, List.contains_iff_mem, List.mem_flatMap, not_exists, not_and]
  intro b _ hm
  simp only [List.mem_cons, List.not_mem_nil, or_false] at hm
  rcases hm with hm | hm
  · exact hdigit _ (hlt b).1 hm.symm
  · exact hdigit _ (hlt b).2 hm.symm

/-- The lookup of a live token finds its publisher. -/
theorem exec_authLookup {env : Env} {sha256 : Digest} {token : String} {row : TokenRow} {q : PublisherRow}
    (hrow : row ∈ db.tokens) (hh : row.tokenHash = hashToken sha256 token) (hlive : row.revokedAt = none)
    (hq : q ∈ db.publishers) (hid : q.id = row.publisherId) :
    Stmt.exec env (.authLookup (hashToken sha256 token)) db =
      .ok (some (q.id, q.githubLogin, q.blockedAt), []) := by
  have hx : Stmt.exec env (.authLookup (hashToken sha256 token)) db =
      Stmt.run env db (.authLookup (hashToken sha256 token)) :=
    exec_eq_run (by simp [Stmt.texts, hasNul_hashToken])
  have hft : db.tokens.find? (fun t => t.tokenHash == hashToken sha256 token && t.revokedAt.isNone) = some row := by
    refine (Table.find?_eq_some fun x y hx hy => ?_).mpr ⟨hrow, by simp [hh, hlive]⟩
    simp only [Bool.and_eq_true, beq_iff_eq] at hx hy
    exact (clash_token _ _).mpr (hx.1.trans hy.1.symm)
  have hfp : db.publishers.find? (fun p => p.id == row.publisherId) = some q := PublisherRow.find_iff.mpr ⟨hq, hid⟩
  rw [hx]
  simp only [Stmt.run, hft, Option.bind_eq_bind, Option.bind_some, hfp]
  rfl

/-- That of one that is not live finds nobody. -/
theorem exec_authLookup_none {env : Env} {sha256 : Digest} {token : String}
    (hno : ∀ row ∈ db.tokens, row.tokenHash = hashToken sha256 token → row.revokedAt ≠ none) :
    Stmt.exec env (.authLookup (hashToken sha256 token)) db = .ok (none, []) := by
  have hx : Stmt.exec env (.authLookup (hashToken sha256 token)) db =
      Stmt.run env db (.authLookup (hashToken sha256 token)) :=
    exec_eq_run (by simp [Stmt.texts, hasNul_hashToken])
  have hft : db.tokens.find? (fun t => t.tokenHash == hashToken sha256 token && t.revokedAt.isNone) = none := by
    refine Table.find?_eq_none.mpr fun t ht => ?_
    by_cases he : t.tokenHash = hashToken sha256 token
    · simp [Option.isSome_iff_ne_none.mpr (hno t ht he)]
    · simp [he]
  rw [hx]
  simp only [Stmt.run, hft]
  rfl

/-- A refusal at the lookup. -/
def Error.Refuses (e : Error) : Prop :=
  e = .forbidden "publisher is blocked" ∨ e = .unauthorized ∨ ∃ d, e = .database d

/-- The lookup of a blocked publisher's token is the last move, and writes
nothing. -/
theorem lookup_blocked {req : Request} {headers : HeaderMap} {token : String} {row : TokenRow} {q : PublisherRow}
    {c : Choice registry} {t' : Call} {ws : List Write} (hreq : req.publisher? = some headers)
    (hb : bearer headers = some token) (hrow : row ∈ db.tokens) (hh : row.tokenHash = hashToken app.sha256 token)
    (hq : q ∈ db.publishers) (hid : q.id = row.publisherId) (hblocked : q.blockedAt.isSome = true)
    (hm : Task.move (⟨req, handle app req, none, [], false⟩ : Call) db c = some (t', ws)) :
    ws = [] ∧ t'.done = [] ∧ (t'.gone = true ∨ ∃ e : Error, t'.answered = some (.error e) ∧ e.Refuses) := by
  rw [handle_publisher hreq, asPublisher_run hb] at hm
  cases c with
  | drop => cases hm; exact ⟨rfl, rfl, .inl rfl⟩
  | fail => cases hm; exact ⟨rfl, rfl, .inr ⟨_, rfl, .inr (.inr ⟨_, rfl⟩)⟩⟩
  | go env =>
    simp only [Task.move, Bool.false_eq_true, if_false] at hm
    by_cases hlive : row.revokedAt = none
    · rw [exec_authLookup hrow hh hlive hq hid] at hm
      obtain ⟨at_, hat⟩ := Option.isSome_iff_exists.mp hblocked
      rw [hat] at hm
      cases hm
      exact ⟨rfl, rfl, .inr ⟨_, rfl, .inl rfl⟩⟩
    · have hno : ∀ t ∈ db.tokens, t.tokenHash = hashToken app.sha256 token → t.revokedAt ≠ none := by
        intro t ht he
        rwa [TokenRow.eq_of_hash ht hrow (he.trans hh.symm)]
      rw [exec_authLookup_none hno] at hm
      cases hm
      exact ⟨rfl, rfl, .inr ⟨_, rfl, .inr (.inl rfl)⟩⟩

/-- After the lookup of a live token of a publisher who is not blocked, the
request goes on as the publisher. -/
theorem lookup_live {req : Request} {headers : HeaderMap} {token : String} {row : TokenRow} {q : PublisherRow}
    (env : Env) (hreq : req.publisher? = some headers) (hb : bearer headers = some token) (hrow : row ∈ db.tokens)
    (hh : row.tokenHash = hashToken app.sha256 token) (hlive : row.revokedAt = none) (hq : q ∈ db.publishers)
    (hid : q.id = row.publisherId) (hlifted : q.blockedAt = none) :
    ∃ t' : Call, Task.move (⟨req, handle app req, none, [], false⟩ : Call) db (.go env) = some (t', []) ∧
      t'.gone = false ∧ t'.pending = [] ∧ t'.prog = (do
        attempt (.touchToken (hashToken app.sha256 token))
        req.body app ⟨q.id, q.githubLogin⟩ : Handler Reply).run := by
  have hx : Stmt.exec env (.authLookup (hashToken app.sha256 token)) db =
      .ok (some (q.id, q.githubLogin, none), []) := hlifted ▸ exec_authLookup hrow hh hlive hq hid
  rw [handle_publisher hreq, asPublisher_run hb]
  simp only [Task.move, Bool.false_eq_true, if_false]
  rw [hx]
  exact ⟨_, rfl, rfl, rfl, rfl⟩

/-- A request that has its lookup while the block is set has written nothing, and never will. -/
theorem Reached.block_refuses (h0 : db₀.Sound) (h : Reached app db₀ s) {req : Request} {headers : HeaderMap}
    {token : String} {row : TokenRow} {q : PublisherRow} {r : ℕ} {c : Choice registry}
    (hl : s.last (blockOf q.githubId) = some true) (ht : s.tasks[r]? = some ⟨req, handle app req, none, [], false⟩)
    (hreq : req.publisher? = some headers) (hb : bearer headers = some token) (hrow : row ∈ s.db.tokens)
    (hh : row.tokenHash = hashToken app.sha256 token) (hq : q ∈ s.db.publishers) (hid : q.id = row.publisherId)
    (hst : s.step (handle app) (.task r c) = some s') :
    s'.db = s.db ∧ ∃ t' : Call, (t'.gone = true ∨ ∃ e : Error, t'.answered = some (.error e) ∧ e.Refuses) ∧
      ∀ as s'', s'.run (handle app) as = some s'' → s''.tasks[r]? = some t' ∧ ∀ w, (some r, w) ∉ s''.log := by
  obtain ⟨q', hq', hgq, hblocked⟩ := h.blocks h0 q.githubId true hl
  obtain rfl := PublisherRow.eq_of_githubId hq' hq hgq
  obtain ⟨t', ws, hm, rfl, ht'⟩ := Pool.task_step hst ht
  obtain ⟨rfl, hdone, hend⟩ := lookup_blocked hreq hb hrow hh hq hid hblocked hm
  refine ⟨rfl, t', hend, fun as s'' hrun => ?_⟩
  have hstill : ∀ db c, t'.move db c = none := by
    rcases hend with hgone | ⟨e, ha, -⟩
    · exact Task.move_of_gone hgone
    · exact Task.move_of_answered ha
  have hlast := Pool.still_run hstill hrun ht'
  have hg'' : Good app s'' := Contract.run_good (Contract.step_good (h.good h0) hst) hrun
  refine ⟨hlast, fun w hw => ?_⟩
  have hin : w ∈ t'.done := (hg''.logged_done hlast).mpr hw
  rw [hdone] at hin
  cases hin

/-- One that has it while the block is lifted goes on as the publisher. -/
theorem Reached.lifted_goes_on (h0 : db₀.Sound) (h : Reached app db₀ s) {req : Request} {headers : HeaderMap}
    {token : String} {row : TokenRow} {q : PublisherRow} {r : ℕ} (env : Env)
    (hl : s.last (blockOf q.githubId) = some false) (ht : s.tasks[r]? = some ⟨req, handle app req, none, [], false⟩)
    (hreq : req.publisher? = some headers) (hb : bearer headers = some token) (hrow : row ∈ s.db.tokens)
    (hh : row.tokenHash = hashToken app.sha256 token) (hlive : row.revokedAt = none) (hq : q ∈ s.db.publishers)
    (hid : q.id = row.publisherId) :
    ∃ s' t', s.step (handle app) (.task r (.go env)) = some s' ∧ s'.tasks[r]? = some t' ∧ t'.gone = false ∧
      t'.prog = (do
        attempt (.touchToken (hashToken app.sha256 token))
        req.body app ⟨q.id, q.githubLogin⟩ : Handler Reply).run := by
  obtain ⟨q', hq', hgq, hlifted⟩ := h.blocks h0 q.githubId false hl
  obtain rfl := PublisherRow.eq_of_githubId hq' hq hgq
  obtain ⟨t', hm, hgone, hpend, hprog⟩ := lookup_live env hreq hb hrow hh hlive hq hid
    (Option.not_isSome_iff_eq_none.mp (by rw [hlifted]; simp))
  have hfree : s.free (some r) ([] ++ t'.pending) := Pool.free_iff.mpr fun _ _ _ _ _ _ => by
    simp [Pool.lockset, hpend]
  have hst : s.step (handle app) (.task r (.go env)) = some (s.moved r t' []) := by
    simp only [Pool.step, ht, hm, Option.bind_eq_bind, Option.bind_some]
    exact if_pos hfree
  exact ⟨_, t', hst, Pool.task_moved ht, hgone, hprog⟩

/-- **A block holds until it is lifted.** While the last `set_blocked` for a
GitHub id that succeeded has set the block, its publisher is blocked, and a
request that has its lookup then, with any token of theirs, is refused and
never writes anything; when it has lifted the block, the lookup of any
unrevoked token of theirs lets the request go on. -/
theorem block_holds (h0 : db₀.Sound) (h : Reached app db₀ s) :
    (∀ g, s.last (blockOf g) = some true → ∃ q ∈ s.db.publishers, q.githubId = g ∧ q.blockedAt.isSome = true) ∧
    (∀ (req : Request) (headers : HeaderMap) (token : String) (row : TokenRow) (q : PublisherRow) (r : ℕ)
      (c : Choice registry) (s' : Registry), s.last (blockOf q.githubId) = some true →
      s.tasks[r]? = some ⟨req, handle app req, none, [], false⟩ → req.publisher? = some headers →
      bearer headers = some token → row ∈ s.db.tokens → row.tokenHash = hashToken app.sha256 token →
      q ∈ s.db.publishers → q.id = row.publisherId → s.step (handle app) (.task r c) = some s' →
      s'.db = s.db ∧ ∃ t' : Call, (t'.gone = true ∨ ∃ e : Error, t'.answered = some (.error e) ∧ e.Refuses) ∧
        ∀ as s'', s'.run (handle app) as = some s'' → s''.tasks[r]? = some t' ∧ ∀ w, (some r, w) ∉ s''.log) ∧
    (∀ (req : Request) (headers : HeaderMap) (token : String) (row : TokenRow) (q : PublisherRow) (r : ℕ) (env : Env),
      s.last (blockOf q.githubId) = some false → s.tasks[r]? = some ⟨req, handle app req, none, [], false⟩ →
      req.publisher? = some headers → bearer headers = some token → row ∈ s.db.tokens →
      row.tokenHash = hashToken app.sha256 token → row.revokedAt = none → q ∈ s.db.publishers →
      q.id = row.publisherId → ∃ s' t', s.step (handle app) (.task r (.go env)) = some s' ∧ s'.tasks[r]? = some t' ∧
        t'.gone = false ∧ t'.prog = (do
          attempt (.touchToken (hashToken app.sha256 token))
          req.body app ⟨q.id, q.githubLogin⟩ : Handler Reply).run) ∧
    ∀ (r : ℕ) (t : Call) (headers : HeaderMap) (g : ℤ) (value : Bool), s.tasks[r]? = some t →
      t.req = .setBlocked headers g value →
      ((∃ reply, t.answered = some (.ok reply)) ↔ ∃ w, (some r, w) ∈ s.log) := by
  refine ⟨fun g hl => h.blocks h0 g true hl, ?_, ?_, ?_⟩
  · intro req headers token row q r c s' hl ht hreq hb hrow hh hq hid hst
    exact h.block_refuses h0 hl ht hreq hb hrow hh hq hid hst
  · intro req headers token row q r env hl ht hreq hb hrow hh hlive hq hid
    exact h.lifted_goes_on h0 env hl ht hreq hb hrow hh hlive hq hid
  · intro r t headers g value ht hreq
    refine h.succeeded_iff h0 ht (by rw [hreq]; rfl) fun reply hp => ?_
    rw [hreq] at hp
    cases hp

/-- Blocked, and then a request. -/
theorem block_holds_refused :
    ∃ s, Reached Sample.replica Sample.library s ∧
      s.tasks.map Task.answered = [some (.ok (.blocked 1000 true)), some (.error (.forbidden "publisher is blocked"))] ∧
      ∃ q ∈ s.db.publishers, q.githubId = 1000 ∧ q.blockedAt.isSome = true := by
  have h : ((Sample.after (Sample.serve 10 0 (.setBlocked (Sample.headers "operator") 1000 true) 1 ++
      Sample.serve 20 1 (Sample.create 0 "first") 1)).map fun s =>
        (s.tasks.map Task.answered, s.last (blockOf 1000))) =
      some ([some (.ok (.blocked 1000 true)), some (.error (.forbidden "publisher is blocked"))], some true) := by
    decide +kernel
  obtain ⟨s, hr, h⟩ := Sample.reached h
  obtain ⟨ha, hl⟩ := Prod.mk.inj h
  exact ⟨s, hr, ha, (block_holds Sample.initial.sound hr).1 1000 hl⟩

end HarnessRegistry

/-
# Identity follows the numeric GitHub id

Tokens are minted by the operator (`issue_token`) and by a completed sign-in
(`poll`), each for a GitHub id; both find or make that id's publisher, and
neither looks at the login but to overwrite it. So a token is a token of one
GitHub id (`Db.Bears`), which is the one it was minted for (`minted_iff`), and
a workflow is changed only with tokens of the id it was created with.

Key definitions: `Mints`, `Minted`, `Db.Bears`, `Request.changes`.
Key theorems: `Effect.mints`, `Reached.inserted_minted`, `minted_iff`,
`identity_follows_github_id`.
-/
import HarnessRegistry.Runs

namespace HarnessRegistry

open Txn

variable {app : AppState} {db db' db₀ : Db} {s : Registry} {g : ℤ}

/-! ### Minting -/

/-- The answer hands out a token for the GitHub id, of the publisher. -/
inductive Mints (app : AppState) : Request → Reply → ℤ → Uuid → String → Prop
  | issued {h : HeaderMap} {body : IssueToken} {bytes : Vector UInt8 tokenBytes} {issued : IssuedToken} :
      Mints app (.issueToken h body bytes) (.issued issued) body.githubId issued.publisherId issued.token
  | enrolled {h : HeaderMap} {body : PollRequest} {site : Site} {now : DateTime} {bytes : Vector UInt8 tokenBytes}
      {github : GitHub} {accessToken : String} {user : GitHubUser} {token login : String} {id : Uuid} :
      app.github = some github → github.poll site body.deviceCode = .ok (.authorized accessToken) →
      GitHub.user site accessToken = .ok user →
      Mints app (.poll h body site now bytes) (.enrolled token id login) user.id id token

/-- A token with this digest is one of the GitHub id's. -/
def Db.Bears (db : Db) (hash : String) (g : ℤ) : Prop :=
  ∃ row ∈ db.tokens, row.tokenHash = hash ∧ ∃ q ∈ db.publishers, q.id = row.publisherId ∧ q.githubId = g

/-- A digest is of one token, which is of one publisher, who has one id. -/
theorem Db.Bears.unique {hash : String} {g' : ℤ} (h : db.Bears hash g) (h' : db.Bears hash g') : g = g' := by
  obtain ⟨row, hrow, hh, q, hq, hid, hg⟩ := h
  obtain ⟨row', hrow', hh', q', hq', hid', hg'⟩ := h'
  have he : row = row' := TokenRow.eq_of_hash hrow hrow' (hh.trans hh'.symm)
  have hids : q.id = q'.id := by rw [hid, hid', he]
  have he' : q = q' := PublisherRow.eq_of_id hq hq' hids
  rw [← hg, ← hg', he']

/-- What an upsert returns is the id of that GitHub id's publisher. -/
theorem Upserts.publisher {conflict : Uuid → Write} {login : String} {name avatar : Option String} {id : Uuid}
    {w : Write} (hu : Upserts conflict g login name avatar db id w) :
    (∃ q ∈ db.publishers, q.id = id ∧ q.githubId = g) ∨
      ∃ row, w = .insertPublisher row ∧ row.id = id ∧ row.githubId = g := by
  cases hu with
  | insert env => exact .inr ⟨_, rfl, rfl, rfl⟩
  | update hp hg => exact .inl ⟨_, hp, rfl, hg⟩

/-- A token that is minted goes in, for the GitHub id's publisher, who is there
or goes in with it. -/
theorem Effect.mints {req : Request} {ws : List Write} {reply : Reply} {id : Uuid} {token : String}
    (he : Effect app req db ws reply) (hm : Mints app req reply g id token) :
    (∃ row, .insertToken row ∈ ws ∧ row.tokenHash = hashToken app.sha256 token ∧ row.publisherId = id) ∧
      ((∃ q ∈ db.publishers, q.id = id ∧ q.githubId = g) ∨
        ∃ row, .insertPublisher row ∈ ws ∧ row.id = id ∧ row.githubId = g) := by
  cases hm with
  | issued =>
    cases he with
    | issued _ _ hu =>
      refine ⟨⟨_, List.mem_cons_of_mem _ List.mem_cons_self, rfl, rfl⟩, ?_⟩
      rcases hu.publisher with hq | ⟨row, rfl, hid, hg⟩
      · exact .inl hq
      · exact .inr ⟨row, List.mem_cons_self, hid, hg⟩
  | enrolled hgh hpoll huser =>
    cases he with
    | enrolled hen hp hpg =>
      obtain ⟨github, accessToken, hgh', hpoll', huser', -⟩ := hen
      obtain rfl := Option.some.inj (hgh.symm.trans hgh')
      rw [hpoll] at hpoll'
      cases hpoll'
      rw [huser] at huser'
      cases huser'
      exact ⟨⟨_, List.mem_cons_self, rfl, rfl⟩, .inl ⟨_, hp, rfl, hpg⟩⟩

/-- Every token put in is handed out. -/
theorem Effect.mints_of_token {req : Request} {ws : List Write} {reply : Reply} {row : TokenRow}
    (he : Effect app req db ws reply) (hm : .insertToken row ∈ ws) :
    ∃ g token, Mints app req reply g row.publisherId token ∧ row.tokenHash = hashToken app.sha256 token := by
  cases he with
  | @issued _ body bytes _ p w _ _ hu =>
    have hrow : row = ⟨p, hashToken app.sha256 (generateToken bytes), body.name, none, none⟩ := by
      rcases List.mem_cons.mp hm with hw | hrow
      · cases hu <;> cases hw
      · simpa using hrow
    subst hrow
    exact ⟨_, _, .issued, rfl⟩
  | enrolled hen _ _ =>
    obtain ⟨github, accessToken, hgh, hpoll, huser, -⟩ := hen
    simp only [List.mem_cons, List.not_mem_nil, or_false, Write.insertToken.injEq] at hm
    subst hm
    exact ⟨_, _, .enrolled hgh hpoll huser, rfl⟩
  | _ => simp at hm

/-- No effect but these two answers with a token. -/
theorem Mints.not_plain {req : Request} {reply : Reply} {id : Uuid} {token : String} (hm : Mints app req reply g id token) :
    ¬ Plain req reply := by
  intro hp
  cases hm <;> cases hp

/-! ### Tokens and their GitHub ids -/

/-- A token with this digest was minted for the GitHub id: in the run so far,
or before it for the publisher who has the id. -/
def Minted (app : AppState) (db₀ : Db) (s : Registry) (g : ℤ) (hash : String) : Prop :=
  (∃ row ∈ db₀.tokens, row.tokenHash = hash ∧ ∃ q ∈ s.db.publishers, q.id = row.publisherId ∧ q.githubId = g) ∨
    ∃ (r : ℕ) (t : Call) (reply : Reply) (id : Uuid) (token : String), s.tasks[r]? = some t ∧
      t.answered = some (.ok reply) ∧ Mints app t.req reply g id token ∧ hashToken app.sha256 token = hash

/-- A token handed out is a row, of the publisher named, who has the id. -/
theorem Reached.bears_of_answered (h0 : db₀.Sound) (h : Reached app db₀ s) {r : ℕ} {t : Call} {reply : Reply} {id : Uuid}
    {token : String} (ht : s.tasks[r]? = some t) (ha : t.answered = some (.ok reply))
    (hm : Mints app t.req reply g id token) :
    (∃ row ∈ s.db.tokens, row.tokenHash = hashToken app.sha256 token ∧ row.publisherId = id) ∧
      ∃ q ∈ s.db.publishers, q.id = id ∧ q.githubId = g := by
  have hg := h.good h0
  rcases hg.succeeded ht ha with ⟨hp, -⟩ | ⟨pre, ws, db, hdone, -, he, hgr⟩
  · exact absurd hp hm.not_plain
  have hlog : ∀ {w}, w ∈ ws → w.present s.db := fun hw =>
    h.present h0 _ ((hg.logged_done ht).mp (hdone ▸ List.mem_append_right pre hw))
  obtain ⟨⟨row, hrow, hh, hid⟩, hq⟩ := he.mints hm
  obtain ⟨row', hrow', hsame⟩ := hlog hrow
  refine ⟨⟨row', hrow', hsame.1.trans hh, hsame.2.1.trans hid⟩, ?_⟩
  rcases hq with ⟨q, hq, hqid, hqg⟩ | ⟨q, hq, hqid, hqg⟩
  · obtain ⟨q', hq', hs⟩ := ((grows_applyAll ws db).trans hgr).publishers q hq
    exact ⟨q', hq', hs.1.trans hqid, hs.2.trans hqg⟩
  · obtain ⟨q', hq', hs⟩ := hlog hq
    exact ⟨q', hq', hs.1.trans hqid, hs.2.trans hqg⟩

/-- Every token is from before the run or was put in by a request. -/
theorem Reached.token_inserted (h0 : db₀.Sound) (h : Reached app db₀ s) : ∀ row ∈ s.db.tokens,
    (∃ row₀ ∈ db₀.tokens, row₀.same row) ∨ ∃ r row₀, (some r, .insertToken row₀) ∈ s.log ∧ row₀.same row := by
  refine h.induct (P := fun s => ∀ row ∈ s.db.tokens, (∃ row₀ ∈ db₀.tokens, row₀.same row) ∨
    ∃ r row₀, (some r, .insertToken row₀) ∈ s.log ∧ row₀.same row) h0 (fun row hrow => .inl ⟨row, hrow, .refl row⟩) ?_
  intro s a s' _ hg ih hst row hrow
  have old : ∀ {row₀}, row₀ ∈ s.db.tokens → row₀.same row → (∀ e ∈ s.log, e ∈ s'.log) →
      (∃ row₀ ∈ db₀.tokens, row₀.same row) ∨ ∃ r row₀, (some r, .insertToken row₀) ∈ s'.log ∧ row₀.same row := by
    intro row₀ hrow₀ he hlog
    rcases ih row₀ hrow₀ with ⟨x, hx, hxr⟩ | ⟨r, x, hx, hxr⟩
    · exact .inl ⟨x, hx, hxr.trans he⟩
    · exact .inr ⟨r, x, hlog _ hx, hxr.trans he⟩
  rcases Contract.step_cases hg hst with ⟨hd, hl, -⟩ | ⟨w, hw, hd, hl, -⟩ | ⟨r, t, t', ws, -, -, -, hd, hl, -⟩
  · rw [hd] at hrow
    exact old hrow (.refl row) (by simp [hl])
  · rw [hd] at hrow
    rcases tokens_apply hrow with ⟨x, hx, he⟩ | rfl
    · exact old hx he fun e he => hl ▸ List.mem_append_left _ he
    · cases hw
  · rw [hd] at hrow
    rcases tokens_applyAll ws hrow with ⟨x, hx, he⟩ | ⟨x, hx, he⟩
    · exact old hx he fun e he => hl ▸ List.mem_append_left _ he
    · exact .inr ⟨r, x, hl ▸ List.mem_append_right _ (List.mem_map.mpr ⟨_, hx, rfl⟩), he⟩

/-- What a request has put in, it has handed out. -/
theorem Reached.inserted_minted (h0 : db₀.Sound) (h : Reached app db₀ s) {r : ℕ} {row : TokenRow}
    (hlog : (some r, .insertToken row) ∈ s.log) : ∃ t reply g token, s.tasks[r]? = some t ∧
      t.answered = some (.ok reply) ∧ Mints app t.req reply g row.publisherId token ∧
      row.tokenHash = hashToken app.sha256 token := by
  obtain ⟨t, reply, ht, ha⟩ := h.succeeded h0 hlog rfl
  have hg := h.good h0
  have hdone := (hg.logged_done ht).mpr hlog
  rcases hg.succeeded ht ha with ⟨-, hpre⟩ | ⟨pre, ws, db, heq, hpre, heff, -⟩
  · cases hpre _ hdone
  · rw [heq] at hdone
    have hws := (List.mem_append.mp hdone).resolve_left fun hm => by cases hpre _ hm
    obtain ⟨g, token, hm, htok⟩ := heff.mints_of_token hws
    exact ⟨t, reply, g, token, ht, ha, hm, htok⟩

/-- **The id a token was minted for is the id of its publisher.** -/
theorem minted_iff (h0 : db₀.Sound) (h : Reached app db₀ s) {hash : String} :
    Minted app db₀ s g hash ↔ s.db.Bears hash g := by
  constructor
  · rintro (⟨row, hrow, hh, q, hq, hid, hgq⟩ | ⟨r, t, reply, id, token, ht, ha, hm, rfl⟩)
    · obtain ⟨as, has⟩ := h
      have hstart : Good app (Registry.start db₀) := good_start h0
      have hgr : db₀.Grows s.db := Contract.run_rely hstart has
      obtain ⟨row', hrow', he⟩ := hgr.tokens row hrow
      exact ⟨row', hrow', he.1.trans hh, q, hq, hid.trans he.2.1.symm, hgq⟩
    · obtain ⟨⟨row, hrow, hh, hid⟩, q, hq, hqid, hgq⟩ := h.bears_of_answered h0 ht ha hm
      exact ⟨row, hrow, hh, q, hq, hqid.trans hid.symm, hgq⟩
  · rintro ⟨row, hrow, hh, q, hq, hid, hgq⟩
    rcases h.token_inserted h0 row hrow with ⟨row₀, hrow₀, he⟩ | ⟨r, row₀, hlog, he⟩
    · exact .inl ⟨row₀, hrow₀, he.1.symm.trans hh, q, hq, hid.trans he.2.1, hgq⟩
    · obtain ⟨t, reply, g', token, ht, ha, hm, htok⟩ := h.inserted_minted h0 hlog
      -- the publisher of the row has one GitHub id
      obtain ⟨-, q', hq', hqid', hgq'⟩ := h.bears_of_answered h0 ht ha hm
      have hids : q'.id = q.id := by rw [hqid', hid, he.2.1]
      have hqq : q' = q := PublisherRow.eq_of_id hq' hq hids
      have hgg : g' = g := by rw [← hgq', ← hgq, hqq]
      exact .inr ⟨r, t, reply, row₀.publisherId, token, ht, ha, hgg ▸ hm, htok.symm.trans (he.1.symm.trans hh)⟩

/-! ### Workflows and their tokens -/

/-- The request changes the workflow of a slug, with these headers. -/
def Request.changes : Request → Option (HeaderMap × String)
  | .publishVersion headers slug _ | .update headers slug _ | .unlist headers slug => some (headers, slug)
  | _ => none

/-- A change that succeeds is by a token of the workflow's publisher. -/
theorem Effect.changer {req : Request} {ws : List Write} {reply : Reply} {headers : HeaderMap} {slug : String}
    (he : Effect app req db ws reply) (hreq : req.changes = some (headers, slug)) :
    ∃ w ∈ db.workflows, w.slug = slug ∧ Holder app db headers w.publisherId := by
  cases he with
  | published hw hs hh _ _ => cases hreq; exact ⟨_, hw, hs, hh⟩
  | amended hw hs hh _ => cases hreq; exact ⟨_, hw, hs, hh⟩
  | unlisted hw hs hh => cases hreq; exact ⟨_, hw, hs, hh⟩
  | _ => cases hreq

/-- A workflow is created by a token of its publisher. -/
theorem Effect.creator {headers : HeaderMap} {body : CreateWorkflow} {ws : List Write} {reply : Reply}
    (he : Effect app (.create headers body) db ws reply) :
    ∃ row, .insertWorkflow row ∈ ws ∧ row.slug = body.slug ∧ Holder app db headers row.publisherId := by
  cases he with
  | created hh _ => exact ⟨_, List.mem_cons_self, rfl, hh⟩

/-- The token the headers carry is of one GitHub id. -/
theorem Holder.bears {headers : HeaderMap} {p : Uuid} {q : PublisherRow} (hh : Holder app db headers p)
    (hq : q ∈ db.publishers) (hid : q.id = p) :
    ∃ token, bearer headers = some token ∧ db.Bears (hashToken app.sha256 token) q.githubId := by
  obtain ⟨token, hb, ⟨t, ht, hth, htp⟩, -⟩ := hh
  exact ⟨token, hb, t, ht, hth, q, hq, hid.trans htp.symm, rfl⟩

/-- **Identity follows the numeric GitHub id.** There is one publisher per
GitHub id; all tokens handed out for an id are of one publisher, and of
different ones for different ids; and whoever changes a workflow by
`publish_version`, `update` or `unlist` does it with a token minted for the id
that the token it was created with was minted for, and for no other. -/
theorem identity_follows_github_id (h0 : db₀.Initial) (h : Reached app db₀ s) :
    (∀ q ∈ s.db.publishers, ∀ q' ∈ s.db.publishers, q.githubId = q'.githubId → q = q') ∧
    (∀ (r r' : ℕ) (t t' : Call) (reply reply' : Reply) (g g' : ℤ) (id id' : Uuid) (token token' : String),
      s.tasks[r]? = some t → s.tasks[r']? = some t' → t.answered = some (.ok reply) →
      t'.answered = some (.ok reply') → Mints app t.req reply g id token → Mints app t'.req reply' g' id' token' →
      (g = g' ↔ id = id')) ∧
    (∀ (r r' : ℕ) (t t' : Call) (headers headers' : HeaderMap) (body : CreateWorkflow) (reply reply' : Reply),
      s.tasks[r]? = some t → t.req = .create headers body → t.answered = some (.ok reply) →
      s.tasks[r']? = some t' → t'.req.changes = some (headers', body.slug) → t'.answered = some (.ok reply') →
      ∃ token token' g, bearer headers = some token ∧ bearer headers' = some token' ∧
        ∀ g', (Minted app db₀ s g' (hashToken app.sha256 token) ↔ g' = g) ∧
          (Minted app db₀ s g' (hashToken app.sha256 token') ↔ g' = g)) := by
  have hg := h.good h0.sound
  refine ⟨fun q hq q' hq' he => PublisherRow.eq_of_githubId hq hq' he, ?_, ?_⟩
  · intro r r' t t' reply reply' g g' id id' token token' ht ht' ha ha' hm hm'
    obtain ⟨-, q, hq, hid, hgq⟩ := h.bears_of_answered h0.sound ht ha hm
    obtain ⟨-, q', hq', hid', hgq'⟩ := h.bears_of_answered h0.sound ht' ha' hm'
    constructor
    · intro he
      have hqq : q = q' := PublisherRow.eq_of_githubId hq hq' (by rw [hgq, hgq', he])
      rw [← hid, ← hid', hqq]
    · intro he
      have hqq : q = q' := PublisherRow.eq_of_id hq hq' (by rw [hid, hid', he])
      rw [← hgq, ← hgq', hqq]
  · intro r r' t t' headers headers' body reply reply' ht hreq ha ht' hreq' ha'
    -- the workflow that was created, and its publisher
    obtain ⟨w, hw, hslug, hh⟩ : ∃ w ∈ s.db.workflows, w.slug = body.slug ∧ Holder app s.db headers w.publisherId := by
      rcases hg.succeeded ht ha with ⟨hp, -⟩ | ⟨pre, ws, db, hdone, -, he, hgr⟩
      · rw [hreq] at hp
        cases hp
      · rw [hreq] at he
        obtain ⟨row, hrow, hs, hh⟩ := he.creator
        obtain ⟨w, hw, hsame⟩ :=
          h.present h0.sound _ ((hg.logged_done ht).mp (hdone ▸ List.mem_append_right pre hrow))
        exact ⟨w, hw, hsame.2.1.trans hs, hsame.2.2 ▸ hh.grows ((grows_applyAll ws db).trans hgr)⟩
    have hh' : Holder app s.db headers' w.publisherId := by
      rcases hg.succeeded ht' ha' with ⟨hp, -⟩ | ⟨pre, ws, db, -, -, he, hgr⟩
      · cases hreq'' : t'.req <;> rw [hreq''] at hp hreq' <;> cases hp <;> cases hreq'
      · obtain ⟨w', hw', hs, hh'⟩ := he.changer hreq'
        have hgr := (grows_applyAll ws db).trans hgr
        obtain ⟨w'', hw'', hsame⟩ := hgr.workflows w' hw'
        have hww : w'' = w := WorkflowRow.eq_of_slug hw'' hw (hsame.2.1.trans (hs.trans hslug.symm))
        rw [← hww, hsame.2.2]
        exact hh'.grows hgr
    obtain ⟨q, hq, hid⟩ := hg.sound.owned w hw
    obtain ⟨token, hb, hbears⟩ := hh.bears hq hid
    obtain ⟨token', hb', hbears'⟩ := hh'.bears hq hid
    refine ⟨token, token', q.githubId, hb, hb', fun g' => ?_⟩
    rw [minted_iff h0.sound h, minted_iff h0.sound h]
    exact ⟨⟨fun hm => hm.unique hbears, fun he => he ▸ hbears⟩, fun hm => hm.unique hbears', fun he => he ▸ hbears'⟩

/-- The sample library before any token was minted. -/
def Sample.untokened : Db := { library with tokens := ∅ }

/-- The operator mints a token for a GitHub id under a login. -/
def Sample.issue (b : UInt8) (githubId : ℤ) (login : String) : Request :=
  .issueToken (headers "operator") ⟨githubId, login, none, none, "ci"⟩ (bytes b)

/-- A token under each of two logins of one account: a workflow created with
one is updated with the other. -/
theorem identity_follows_github_id_renamed :
    ∃ s, Reached Sample.replica Sample.untokened s ∧
      s.tasks.map Task.answered = [
        some (.ok (.issued ⟨1, "ada", "ci", Sample.token 0⟩)),
        some (.ok (.issued ⟨1, "ada-l", "ci", Sample.token 1⟩)),
        some (.ok (.published "first" 1)), some (.ok (.status "unlisted"))] ∧
      ∀ q ∈ s.db.publishers, ∀ q' ∈ s.db.publishers, q.githubId = q'.githubId → q = q' := by
  have h : ((Registry.start Sample.untokened).run (handle Sample.replica)
      (Sample.serve 10 0 (Sample.issue 0 1000 "ada") 4 ++ Sample.serve 20 1 (Sample.issue 1 1000 "ada-l") 4 ++
        Sample.serve 30 2 (Sample.create 0 "first") 7 ++
        Sample.serve 40 3 (.unlist (Sample.headers (Sample.token 1)) "first") 4)).map
        (fun s => s.tasks.map Task.answered) = some [
        some (.ok (.issued ⟨1, "ada", "ci", Sample.token 0⟩)),
        some (.ok (.issued ⟨1, "ada-l", "ci", Sample.token 1⟩)),
        some (.ok (.published "first" 1)), some (.ok (.status "unlisted"))] := by decide +kernel
  obtain ⟨s, hs, ha⟩ := Option.map_eq_some_iff.mp h
  have hr : Reached Sample.replica Sample.untokened s := ⟨_, hs⟩
  have h0 : Sample.untokened.Initial := ⟨rfl, rfl, rfl⟩
  exact ⟨s, hr, ha, (identity_follows_github_id h0 hr).1⟩

end HarnessRegistry

/-
# Tokens that are minted authenticate

A token goes out in an answer, its digest into a row, and comes back in a
header. `bearer_padded` is the way back: the header's text after the prefix,
trimmed, is the token again. The digest then finds the row that was put in for
it, whose publisher is the one named with the token; and any other string finds
nobody, as long as it has no digest in common with a token.

Key definitions: `Padding`, `HandedOut`, `NoCollision`.
Key theorems: `hexEncode_inj`, `bearer_eq_some`, `bearer_padded`, `alone_admitted`,
`alone_unauthorized`, `tokens_authenticate`.
-/
import HarnessRegistry.Block
import HarnessRegistry.Identity

namespace HarnessRegistry

open Txn Handler

variable {app : AppState} {db db₀ : Db} {s : Registry}

/-! ### Texts -/

theorem hexDigit_inj {m n : ℕ} (hm : m < 16) (hn : n < 16) (h : hexDigit m = hexDigit n) : m = n := by
  have key : ∀ m < 16, ∀ n < 16, hexDigit m = hexDigit n → m = n := by decide
  exact key m hm n hn h

theorem hexEncode_inj : ∀ {a b : List UInt8}, hexEncode a = hexEncode b → a = b
  | [], [], _ => rfl
  | [], y :: ys, h => by simpa [hexEncode] using congrArg String.toList h
  | x :: xs, [], h => by simpa [hexEncode] using congrArg String.toList h
  | x :: xs, y :: ys, h => by
    have h := congrArg String.toList h
    simp only [hexEncode, String.toList_ofList, List.flatMap_cons, List.cons_append, List.nil_append,
      List.cons.injEq] at h
    obtain ⟨hhi, hlo, hrest⟩ := h
    have hx := x.toNat_lt
    have hy := y.toNat_lt
    have hhi := hexDigit_inj (by omega) (by omega) hhi
    have hlo := hexDigit_inj (by omega) (by omega) hlo
    have hxy : x = y := UInt8.toNat_inj.mp (by omega)
    rw [hxy, hexEncode_inj (congrArg String.ofList hrest)]

/-- ASCII is one byte a character. -/
theorem utf8Encode_ascii : ∀ {cs : List Char}, (∀ c ∈ cs, c.toNat < 128) →
    cs.utf8Encode.data.toList = cs.map fun c => UInt8.ofNat c.toNat
  | [], _ => rfl
  | c :: cs, h => by
    have hc : c.utf8Size = 1 := by
      rw [Char.utf8Size_eq_one_iff, UInt32.le_iff_toNat_le]
      exact Nat.le_of_lt_succ (h c List.mem_cons_self)
    have hrest := utf8Encode_ascii fun d hd => h d (List.mem_cons_of_mem c hd)
    rw [List.utf8Encode_cons, List.utf8Encode_singleton, String.utf8EncodeChar_eq_singleton hc, List.map_cons, ← hrest]
    simp
    rfl

/-- What `to_str` reads. -/
def Visible (c : Char) : Prop := 32 ≤ c.toNat ∧ c.toNat < 127 ∨ c.toNat = 9

theorem toStr_asBytes {s : String} (h : ∀ c ∈ s.toList, Visible c) : HeaderValue.toStr (asBytes s) = some s := by
  have hlt : ∀ c ∈ s.toList, c.toNat < 128 := fun c hc => by
    have := h c hc
    unfold Visible at this
    omega
  have hascii : asBytes s = s.toList.map fun c => UInt8.ofNat c.toNat := by
    have hs : s = String.ofList s.toList := String.ofList_toList.symm
    unfold asBytes
    rw [hs, String.toByteArray_ofList, String.toList_ofList]
    exact utf8Encode_ascii hlt
  have hbyte : ∀ c ∈ s.toList, (UInt8.ofNat c.toNat).toNat = c.toNat := fun c hc => by
    have := hlt c hc
    rw [UInt8.toNat_ofNat']
    omega
  unfold HeaderValue.toStr
  rw [hascii, if_pos]
  · have hmap : (s.toList.map fun c => UInt8.ofNat c.toNat).map (fun b => Char.ofNat b.toNat) = s.toList := by
      rw [List.map_map]
      refine (List.map_congr_left fun c hc => ?_).trans (List.map_id _)
      rw [Function.comp_apply, hbyte c hc, Char.ofNat_toNat, id]
    rw [hmap, String.ofList_toList]
  · rw [List.all_map, List.all_eq_true]
    intro c hc
    have hv := h c hc
    unfold Visible at hv
    have hb := hbyte c hc
    simp only [Function.comp_apply, Bool.or_eq_true, Bool.and_eq_true, decide_eq_true_eq, beq_iff_eq,
      UInt8.le_iff_toNat_le, UInt8.lt_iff_toNat_lt, ← UInt8.toNat_inj, hb]
    exact hv

/-- A blank before or after a token. -/
def Padding (s : String) : Prop := ∀ c ∈ s.toList, c = ' ' ∨ c = '\t'

/-- A token is of letters, digits and an underscore. -/
theorem generateToken_graphic (bytes : Vector UInt8 tokenBytes) :
    ∀ c ∈ (generateToken bytes).toList, 32 < c.toNat ∧ c.toNat < 127 := by
  have hdigit : ∀ n < 16, 32 < (hexDigit n).toNat ∧ (hexDigit n).toNat < 127 := by decide
  have hprefix : tokenPrefix.toList.all fun c => 32 < c.toNat ∧ c.toNat < 127 := by decide
  intro c hc
  unfold generateToken hexEncode at hc
  rw [String.toList_append, String.toList_ofList, List.mem_append, List.mem_flatMap] at hc
  rcases hc with hc | ⟨b, -, hc⟩
  · exact of_decide_eq_true (List.all_eq_true.mp hprefix c hc)
  · have hb := b.toNat_lt
    simp only [List.mem_cons, List.not_mem_nil, or_false] at hc
    rcases hc with rfl | rfl
    · exact hdigit _ (by omega)
    · exact hdigit _ (by omega)

theorem generateToken_ne_nil (bytes : Vector UInt8 tokenBytes) : (generateToken bytes).toList ≠ [] := by
  unfold generateToken
  rw [String.toList_append]
  exact List.append_ne_nil_of_left_ne_nil (by decide) _

/-- A character that is no blank. -/
theorem isWhitespace_graphic {c : Char} (h : 32 < c.toNat ∧ c.toNat < 127) : isWhitespace c = false := by
  unfold isWhitespace
  simp only [Bool.or_eq_false_iff, Bool.and_eq_false_iff, decide_eq_false_iff_not, beq_eq_false_iff_ne]
  omega

theorem stripPrefix_eq_some {s p u : String} : stripPrefix s p = some u ↔ s = p ++ u := by
  unfold stripPrefix
  rw [Option.ite_none_right_eq_some, Option.some.injEq, List.prefix_iff_exists_append_eq]
  constructor
  · rintro ⟨⟨r, hr⟩, hu⟩
    rw [← hu, ← hr, List.drop_left, ← String.toList_inj, String.toList_append, String.toList_ofList]
    exact hr.symm
  · rintro rfl
    rw [String.toList_append, List.drop_left, String.ofList_toList]
    exact ⟨⟨u.toList, rfl⟩, rfl⟩

/-- A token is the text behind `Bearer`, trimmed. -/
theorem bearer_eq_some {headers : HeaderMap} {p : String} : bearer headers = some p ↔ ∃ v u, headers "authorization" = some v ∧
    HeaderValue.toStr v = some ("Bearer " ++ u) ∧ (trim u).isEmpty = false ∧ p = trim u := by
  unfold bearer
  simp only [Option.bind_eq_bind, Option.bind_eq_some_iff, stripPrefix_eq_some, Option.ite_none_left_eq_some,
    Bool.not_eq_true, Option.some.injEq]
  constructor
  · rintro ⟨v, hv, s, hs, u, rfl, hne, rfl⟩
    exact ⟨v, u, hv, hs, hne, rfl⟩
  · rintro ⟨v, u, hv, hs, hne, rfl⟩
    exact ⟨v, hv, _, hs, u, rfl, hne, rfl⟩

/-- What a header of visible characters presents. -/
theorem bearer_presented {headers : HeaderMap} {u : String} (hu : ∀ c ∈ u.toList, Visible c) (hne : (trim u).isEmpty = false)
    (hh : headers "authorization" = some (asBytes ("Bearer " ++ u))) : bearer headers = some (trim u) := by
  refine bearer_eq_some.mpr ⟨_, u, hh, toStr_asBytes fun c hc => ?_, hne, rfl⟩
  rw [String.toList_append, List.mem_append] at hc
  rcases hc with hc | hc
  · have hlit : "Bearer ".toList.all fun c => 32 ≤ c.toNat ∧ c.toNat < 127 := by decide
    exact .inl (of_decide_eq_true (List.all_eq_true.mp hlit c hc))
  · exact hu c hc

/-- **The way back.** The token that a header carries, whatever blanks stand
around it. -/
theorem bearer_padded {headers : HeaderMap} {before token after : String} (hb : Padding before) (ha : Padding after)
    (htok : ∀ c ∈ token.toList, 32 < c.toNat ∧ c.toNat < 127) (hne : token.toList ≠ [])
    (hh : headers "authorization" = some (asBytes ("Bearer " ++ before ++ token ++ after))) :
    bearer headers = some token := by
  have hblank : ∀ {t : String}, Padding t → ∀ c ∈ t.toList, Visible c ∧ isWhitespace c = true := by
    intro t ht c hc
    rcases ht c hc with rfl | rfl
    · exact ⟨.inl (by decide), by decide⟩
    · exact ⟨.inr (by decide), by decide⟩
  have htrim : trim (before ++ token ++ after) = token := by
    unfold trim
    rw [String.toList_append, String.toList_append,
      trimChars_pad (fun c hc => (hblank hb c hc).2) (fun c hc => (hblank ha c hc).2)
        (fun c hc => isWhitespace_graphic (htok c hc)) hne, String.ofList_toList]
  have hempty : token.isEmpty = false := by
    rw [Bool.eq_false_iff, ne_eq, String.isEmpty_iff]
    rintro rfl
    exact hne rfl
  have hvisible : ∀ c ∈ (before ++ token ++ after).toList, Visible c := by
    intro c hc
    simp only [String.toList_append, List.mem_append] at hc
    rcases hc with (hc | hc) | hc
    · exact (hblank hb c hc).1
    · have := htok c hc
      exact .inl (by omega)
    · exact (hblank ha c hc).1
  have hwhole : headers "authorization" = some (asBytes ("Bearer " ++ (before ++ token ++ after))) := by
    simpa only [String.append_assoc] using hh
  rw [bearer_presented hvisible (by rw [htrim, hempty]) hwhole, htrim]

/-! ### The extractor alone -/

section Extractor

variable {env : Env} {headers : HeaderMap} {token : String}

/-- A statement whose outcome is ignored changes no answer. -/
theorem alone_attempt {β : Type} (env : Env) (db : Db) (q : Stmt) (g : Unit → Handler β) :
    ∃ db', alone env (attempt q >>= g) db = alone env (g ()) db' := by
  have hrun : (attempt q >>= g).run = Prog.stmt (S := registry) q fun _ => (g ()).run := rfl
  unfold alone
  rw [hrun]
  simp only [Prog.alone]
  cases hx : Stmt.exec env q db with
  | error e => exact ⟨db, rfl⟩
  | ok r => exact ⟨registry.applyAll r.2 db, rfl⟩

/-- The lookup, and what follows. -/
theorem alone_fromRequestParts (app : AppState) (env : Env) (db : Db) (hb : bearer headers = some token) :
    ∃ found, Stmt.exec env (.authLookup (hashToken app.sha256 token)) db = .ok (found, []) ∧
      ∃ db', alone env (Publisher.fromRequestParts app headers) db = match found with
        | none => some (.error .unauthorized, db)
        | some (id, login, blockedAt) =>
          if blockedAt.isSome then some (.error (.forbidden "publisher is blocked"), db)
          else some (.ok ⟨id, login⟩, db') := by
  have hx : Stmt.exec env (.authLookup (hashToken app.sha256 token)) db =
      Stmt.run env db (.authLookup (hashToken app.sha256 token)) :=
    exec_eq_run (by simp [Stmt.texts, hasNul_hashToken])
  obtain ⟨found, hfound⟩ : ∃ found, Stmt.run env db (.authLookup (hashToken app.sha256 token)) = .ok (found, []) :=
    ⟨_, rfl⟩
  refine ⟨found, hx.trans hfound, ?_⟩
  unfold Publisher.fromRequestParts
  rw [hb]
  dsimp only
  rw [query, alone_ok (hx.trans hfound)]
  rcases found with _ | ⟨id, login, blockedAt⟩
  · exact ⟨db, rfl⟩
  · cases blockedAt with
    | some at_ => exact ⟨db, rfl⟩
    | none =>
      obtain ⟨db', hdb'⟩ := alone_attempt env db (.touchToken (hashToken app.sha256 token))
        fun _ => (pure ⟨id, login⟩ : Handler Publisher)
      exact ⟨db', hdb'⟩

/-- A live token of a publisher who is not blocked is theirs. -/
theorem alone_admitted {row : TokenRow} {q : PublisherRow} (hb : bearer headers = some token) (hrow : row ∈ db.tokens)
    (hh : row.tokenHash = hashToken app.sha256 token) (hlive : row.revokedAt = none) (hq : q ∈ db.publishers)
    (hid : q.id = row.publisherId) (hlifted : q.blockedAt = none) :
    ∃ db', alone env (Publisher.fromRequestParts app headers) db = some (.ok ⟨q.id, q.githubLogin⟩, db') := by
  obtain ⟨found, hx, db', ha⟩ := alone_fromRequestParts app env db hb
  rw [exec_authLookup hrow hh hlive hq hid] at hx
  cases hx
  rw [hlifted] at ha
  exact ⟨db', ha⟩

/-- Whoever is let in has presented a token whose digest is that of a live row
of theirs. -/
theorem live_of_alone {p : Publisher} {db' : Db}
    (h : alone env (Publisher.fromRequestParts app headers) db = some (.ok p, db')) : ∃ token, bearer headers = some token ∧
      ∃ row ∈ db.tokens, row.tokenHash = hashToken app.sha256 token ∧ row.publisherId = p.id ∧ row.revokedAt = none := by
  cases hb : bearer headers with
  | none =>
    unfold Publisher.fromRequestParts at h
    rw [hb] at h
    cases h
  | some token =>
    refine ⟨token, rfl, ?_⟩
    obtain ⟨found, hx, db₁, ha⟩ := alone_fromRequestParts app env db hb
    rw [ha] at h
    rcases found with _ | ⟨id, login, blockedAt⟩
    · cases h
    · obtain ⟨⟨row, hrow, hh, hlive, hid⟩, -⟩ := run_authLookup (run_of_exec hx)
      dsimp only at h
      split at h
      · cases h
      · cases h
        exact ⟨row, hrow, hh, hid, hlive⟩

/-- Without a live token a publisher's request is refused. -/
theorem alone_unauthorized {req : Request} (hreq : req.publisher? = some headers)
    (hno : ∀ token, bearer headers = some token → ∀ row ∈ db.tokens, row.tokenHash = hashToken app.sha256 token →
      row.revokedAt ≠ none) :
    (handle app req).alone (S := registry) env none db = some (.error .unauthorized, db) := by
  rw [handle_publisher hreq]
  cases hb : bearer headers with
  | none =>
    unfold asPublisher Publisher.fromRequestParts
    rw [hb]
    rfl
  | some token =>
    rw [asPublisher_run hb]
    simp only [Prog.alone]
    rw [exec_authLookup_none (hno token hb)]
    rfl

end Extractor

/-! ### Runs -/

/-- A request of the run has been answered with the token, for the publisher. -/
def HandedOut (app : AppState) (s : Registry) (id : Uuid) (token : String) : Prop :=
  ∃ (r : ℕ) (t : Call) (reply : Reply) (g : ℤ), s.tasks[r]? = some t ∧ t.answered = some (.ok reply) ∧
    Mints app t.req reply g id token

/-- SHA-256 tells the string from every other one that has been handed out. -/
def NoCollision (app : AppState) (s : Registry) (x : String) : Prop :=
  ∀ id token, HandedOut app s id token → app.sha256 (asBytes x) = app.sha256 (asBytes token) → x = token

/-- The token in an answer is one that was generated. -/
theorem Effect.mints_generated {req : Request} {ws : List Write} {reply : Reply} {g : ℤ} {id : Uuid} {token : String}
    (he : Effect app req db ws reply) (hm : Mints app req reply g id token) : ∃ bytes, token = generateToken bytes := by
  cases hm with
  | issued => cases he with | issued => exact ⟨_, rfl⟩
  | enrolled => cases he with | enrolled => exact ⟨_, rfl⟩

theorem HandedOut.generated (hg : Good app s) {id : Uuid} {token : String} (h : HandedOut app s id token) :
    ∃ bytes, token = generateToken bytes := by
  obtain ⟨r, t, reply, g, ht, ha, hm⟩ := h
  rcases hg.succeeded ht ha with ⟨hp, -⟩ | ⟨pre, ws, db, -, -, he, -⟩
  · exact absurd hp hm.not_plain
  · exact he.mints_generated hm

/-- The digest of a token that was handed out is in the row of its publisher,
who is there. -/
theorem HandedOut.row (h0 : db₀.Sound) (hr : Reached app db₀ s) {id : Uuid} {token : String} (h : HandedOut app s id token) :
    ∃ row ∈ s.db.tokens, row.tokenHash = hashToken app.sha256 token ∧ row.publisherId = id ∧
      ∃ q ∈ s.db.publishers, q.id = id := by
  obtain ⟨r, t, reply, g, ht, ha, hm⟩ := h
  obtain ⟨⟨row, hrow, hh, hid⟩, q, hq, hqid, -⟩ := hr.bears_of_answered h0 ht ha hm
  exact ⟨row, hrow, hh, hid, q, hq, hqid⟩

/-- Every row is of a token that was handed out, when there was none at first. -/
theorem Reached.row_handedOut (h0 : db₀.Sound) (hnone : db₀.tokens = ∅) (h : Reached app db₀ s) {row : TokenRow}
    (hrow : row ∈ s.db.tokens) : ∃ token, HandedOut app s row.publisherId token ∧
      row.tokenHash = hashToken app.sha256 token := by
  rcases h.token_inserted h0 row hrow with ⟨row₀, hrow₀, -⟩ | ⟨r, row₀, hlog, he⟩
  · rw [hnone] at hrow₀
    cases hrow₀
  · obtain ⟨t, reply, g, token, ht, ha, hm, htok⟩ := h.inserted_minted h0 hlog
    exact ⟨token, ⟨r, t, reply, g, ht, ha, he.2.1 ▸ hm⟩, he.1.trans htok⟩

/-- A string with the digest of a row is the token handed out for it. -/
theorem NoCollision.handedOut (h0 : db₀.Sound) (hnone : db₀.tokens = ∅) (h : Reached app db₀ s) {x : String} {row : TokenRow}
    (hx : NoCollision app s x) (hrow : row ∈ s.db.tokens) (hh : row.tokenHash = hashToken app.sha256 x) :
    HandedOut app s row.publisherId x := by
  obtain ⟨token, hout, htok⟩ := h.row_handedOut h0 hnone hrow
  have hsha : app.sha256 (asBytes x) = app.sha256 (asBytes token) := hexEncode_inj (hh.symm.trans htok)
  rwa [hx _ _ hout hsha]

/-- **Minted tokens and authentication agree.** In every state, the row of a
token that was handed out is there, with its publisher; while it is not revoked
and the publisher not blocked, the token in a header, whatever blanks surround
it, is admitted as that publisher. Whoever is admitted presents a token that was
handed out for them and is not revoked. And a request without a token, or with
one that was not handed out or is revoked, is always refused the same way. -/
theorem tokens_authenticate (h0 : db₀.Initial) (hnone : db₀.tokens = ∅) (h : Reached app db₀ s) :
    (∀ id token, HandedOut app s id token → ∃ row ∈ s.db.tokens, row.tokenHash = hashToken app.sha256 token ∧
      row.publisherId = id ∧ ∃ q ∈ s.db.publishers, q.id = id ∧ (row.revokedAt = none → q.blockedAt = none →
        ∀ (env : Env) (headers : HeaderMap) (before after : String), Padding before → Padding after →
          headers "authorization" = some (asBytes ("Bearer " ++ before ++ token ++ after)) →
          ∃ db', alone env (Publisher.fromRequestParts app headers) s.db = some (.ok ⟨id, q.githubLogin⟩, db'))) ∧
    (∀ (env : Env) (headers : HeaderMap) (p : Publisher) (db' : Db),
      alone env (Publisher.fromRequestParts app headers) s.db = some (.ok p, db') →
      ∃ token, bearer headers = some token ∧ (NoCollision app s token → HandedOut app s p.id token) ∧
        ∃ row ∈ s.db.tokens, row.tokenHash = hashToken app.sha256 token ∧ row.publisherId = p.id ∧ row.revokedAt = none) ∧
    ∀ (env : Env) (headers : HeaderMap) (req : Request), req.publisher? = some headers →
      (∀ token, bearer headers = some token → NoCollision app s token ∧ ((∀ id, ¬ HandedOut app s id token) ∨
        ∃ row ∈ s.db.tokens, row.tokenHash = hashToken app.sha256 token ∧ row.revokedAt ≠ none)) →
      (handle app req).alone (S := registry) env none s.db = some (.error .unauthorized, s.db) := by
  refine ⟨fun id token hout => ?_, fun env headers p db' ha => ?_, fun env headers req hreq hbad => ?_⟩
  · obtain ⟨row, hrow, hh, hid, q, hq, hqid⟩ := hout.row h0.sound h
    refine ⟨row, hrow, hh, hid, q, hq, hqid, fun hlive hlifted env headers before after hb ha hhd => ?_⟩
    obtain ⟨bytes, rfl⟩ := hout.generated (h.good h0.sound)
    have hbearer := bearer_padded hb ha (generateToken_graphic bytes) (generateToken_ne_nil bytes) hhd
    rw [← hqid]
    exact alone_admitted hbearer hrow hh hlive hq (hqid.trans hid.symm) hlifted
  · obtain ⟨token, hb, row, hrow, hh, hid, hlive⟩ := live_of_alone ha
    exact ⟨token, hb, fun hx => hid ▸ hx.handedOut h0.sound hnone h hrow hh, row, hrow, hh, hid, hlive⟩
  · refine alone_unauthorized hreq fun token hb row hrow hh => ?_
    obtain ⟨hx, hno | ⟨row', hrow', hh', hrev⟩⟩ := hbad token hb
    · exact absurd (hx.handedOut h0.sound hnone h hrow hh) (hno _)
    · rwa [TokenRow.eq_of_hash hrow hrow' (hh.trans hh'.symm)]

/-- A token of the operator's, in a header with two blanks before it. -/
theorem tokens_authenticate_issued : ∃ s, Reached Sample.replica Sample.untokened s ∧
    ∃ row ∈ s.db.tokens, row.tokenHash = hashToken Sample.sha256 (Sample.token 0) ∧ row.publisherId = 1 ∧
      ∃ db', alone (Sample.env 50) (Publisher.fromRequestParts Sample.replica (Sample.headers ("  " ++ Sample.token 0)))
        s.db = some (.ok ⟨1, "ada"⟩, db') := by
  have h : ((Registry.start Sample.untokened).run (handle Sample.replica)
      (Sample.serve 10 0 (Sample.issue 0 1000 "ada") 4)).any (fun s =>
        s.tasks.map Task.answered = [some (.ok (.issued ⟨1, "ada", "ci", Sample.token 0⟩))] &&
        (s.db.tokens.rows.all (·.revokedAt.isNone) &&
          s.db.publishers.rows.all fun q => q.blockedAt.isNone && (q.id != 1 || q.githubLogin == "ada"))) = true := by
    decide +kernel
  obtain ⟨s, hs, he⟩ := (Option.any_eq_true _ _).mp h
  rw [Bool.and_eq_true, Bool.and_eq_true, decide_eq_true_eq, List.all_eq_true, List.all_eq_true] at he
  obtain ⟨ha, htokens, hpublishers⟩ := he
  have hr : Reached Sample.replica Sample.untokened s := ⟨_, hs⟩
  have hout : HandedOut Sample.replica s 1 (Sample.token 0) := by
    obtain ⟨t, hts, hta⟩ := List.map_eq_singleton_iff.mp ha
    have ht : s.tasks[0]? = some t := by rw [hts]; rfl
    rcases (hr.good (Db.Initial.sound ⟨rfl, rfl, rfl⟩)).succeeded ht hta with ⟨hp, -⟩ | ⟨pre, ws, db, -, -, he, -⟩
    · generalize t.req = req at hp
      cases hp
    · obtain ⟨g, hmints⟩ : ∃ g, Mints Sample.replica t.req (.issued ⟨1, "ada", "ci", Sample.token 0⟩) g 1
          (Sample.token 0) := by
        generalize t.req = req, hreply : Reply.issued ⟨1, "ada", "ci", Sample.token 0⟩ = reply at he
        cases he with
        | issued =>
          rw [← hreply]
          exact ⟨_, .issued⟩
        | _ => cases hreply
      exact ⟨0, t, _, g, ht, hta, hmints⟩
  obtain ⟨row, hrow, hh, hid, q, hq, hqid, hadmit⟩ := (tokens_authenticate ⟨rfl, rfl, rfl⟩ rfl hr).1 1 (Sample.token 0) hout
  have hlive : row.revokedAt = none := Option.isNone_iff_eq_none.mp (htokens row hrow)
  obtain ⟨hlifted, hlogin⟩ := Bool.and_eq_true_iff.mp (hpublishers q hq)
  have hlifted : q.blockedAt = none := Option.isNone_iff_eq_none.mp hlifted
  have hlogin : q.githubLogin = "ada" := by simpa [hqid] using hlogin
  refine ⟨s, hr, row, hrow, hh, hid, hlogin ▸ ?_⟩
  refine hadmit hlive hlifted (Sample.env 50) _ "  " "" (fun c hc => .inl ?_) (fun c hc => by simp at hc) ?_
  · simpa using hc
  · show some (asBytes ("Bearer " ++ ("  " ++ Sample.token 0))) = _
    rw [String.append_empty, String.append_assoc]

end HarnessRegistry

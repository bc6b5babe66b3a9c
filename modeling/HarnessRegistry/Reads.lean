/-
# The reads agree

Four queries read the library, each with its own idea of what is there: the
listing and `detail` leave out what is unlisted, `versions` and
`version_document` do not; `latest_version` leaves out what is withdrawn, the
other two flag it. What they answer fits together in every state
(`reads_agree`), and the number a publish gives is a new one, beyond all that
`versions` had shown (`numbered_above`).

Key definitions: `Db.Answers`, `InListing`, `Db.versionsOf`.
Key theorems: `find_first_eq_max`, `detail_iff`, `inListing_iff`, `versions_iff`, `document_iff`, `latestVersion_eq`,
`numbered_above`, `reads_agree`.
-/
import HarnessRegistry.Browse
import HarnessRegistry.Names
import HarnessRegistry.Serial

namespace HarnessRegistry

open Txn Handler

variable {app : AppState} {db db' db₀ : Db} {s s' : Registry} {env : Env} {slug : String}

/-! ### One read at a time -/

/-- The first of the rows in descending order that will do is the greatest that
will do. -/
theorem find_first_eq_max {α : Type} (key : α → ℤ) (p : α → Bool) (l : List α) :
    ((l.insertionSort fun a b => key b ≤ key a).find? p).map key = ((l.filter p).map key).max? := by
  have : Std.Total fun a b : α => key b ≤ key a := ⟨fun a b => le_total (key b) (key a)⟩
  have : IsTrans α fun a b => key b ≤ key a := ⟨fun a b c hab hbc => hbc.trans hab⟩
  have hsort := List.pairwise_insertionSort (fun a b => key b ≤ key a) l
  have hmem : ∀ a, a ∈ l.insertionSort (fun a b => key b ≤ key a) ↔ a ∈ l := fun a => List.mem_insertionSort _
  generalize l.insertionSort (fun a b => key b ≤ key a) = m at hsort hmem
  cases hf : m.find? p with
  | none =>
    have hnone : l.filter p = [] := List.filter_eq_nil_iff.mpr fun a ha => List.find?_eq_none.mp hf a ((hmem a).mpr ha)
    rw [hnone]
    rfl
  | some a =>
    obtain ⟨hp, before, after, rfl, hbefore⟩ := List.find?_eq_some_iff_append.mp hf
    refine (List.max?_eq_some_iff.mpr ⟨?_, fun k hk => ?_⟩).symm
    · exact List.mem_map_of_mem (List.mem_filter.mpr ⟨(hmem a).mp (by simp), hp⟩)
    · obtain ⟨b, hb, rfl⟩ := List.mem_map.mp hk
      obtain ⟨hb, hpb⟩ := List.mem_filter.mp hb
      -- it is not among those before, which will not do
      rcases List.mem_append.mp ((hmem b).mpr hb) with hin | hin
      · simpa [hpb] using hbefore b hin
      · rcases List.mem_cons.mp hin with rfl | hin
        · exact le_rfl
        · exact (List.pairwise_cons.mp (List.pairwise_append.mp hsort).2.1).1 b hin

/-- Asked alone, the service answers with success. -/
def Db.Answers (app : AppState) (db : Db) (env : Env) (req : Request) (reply : Reply) : Prop :=
  ((handle app req).alone (S := registry) env none db).map Prod.fst = some (.ok reply)

theorem detail_iff {reply : Reply} : db.Answers app env (.detail slug) reply ↔ hasNul slug = false ∧
    ∃ w ∈ db.workflows, w.slug = slug ∧ w.unlistedAt = none ∧ ∃ row, db.summary env.now w = some row ∧ reply = .summary row := by
  show (alone env (detail slug) db).map Prod.fst = _ ↔ _
  rw [Option.map_eq_some_iff]
  constructor
  · rintro ⟨⟨out, db'⟩, h, rfl⟩
    exact (alone_detail_iff.mp h).2
  · exact fun h => ⟨(.ok reply, db), alone_detail_iff.mpr ⟨rfl, h⟩, rfl⟩

/-- The unfiltered listing has the row of the slug, on one of its pages. -/
def InListing (app : AppState) (db : Db) (env : Env) (slug : String) (row : WorkflowSummary) : Prop :=
  ∃ limit offset sort rows, db.Answers app env (.list ⟨none, none, none, limit, offset, sort⟩) (.summaries rows) ∧
    row ∈ rows ∧ row.slug = slug

theorem inListing_iff {row : WorkflowSummary} : InListing app db env slug row ↔
    ∃ w ∈ db.workflows, w.slug = slug ∧ w.unlistedAt = none ∧ db.summary env.now w = some row := by
  constructor
  · rintro ⟨limit, offset, sort, rows, h, hrow, rfl⟩
    obtain ⟨⟨out, db'⟩, h, rfl⟩ := Option.map_eq_some_iff.mp h
    obtain ⟨w, hw, hl, hsum⟩ := alone_list h row hrow
    exact ⟨w, hw, (summary_eq_some hsum).1.symm, hl, hsum⟩
  · rintro ⟨w, hw, rfl, hl, hsum⟩
    let params : ListParams := ⟨none, none, none, none, none, none⟩
    have hin : (w.id, row) ∈ db.selected env.now env.lower params.query := by
      refine List.mem_filterMap.mpr ⟨w, List.mem_filter.mpr ⟨hw, ?_⟩, by rw [hsum]; rfl⟩
      simp [ListQuery.selects, params, ListParams.query, hl]
    obtain ⟨i, hi⟩ := Ranked.exists_index params.query.sort.key env.ranking hin
    have hnul : ∀ t ∈ params.tag.toList ++ params.q.toList, hasNul t = false := by simp [params]
    refine ⟨_, _, _, _, congrArg (Option.map Prod.fst) (alone_list_page (le_refl 1) (by omega) hnul env i), ?_,
      (summary_eq_some hsum).1⟩
    exact List.mem_map_of_mem (f := Prod.snd) ((Ranked.mem_page_iff Nat.one_pos).mpr ⟨i, hi, Nat.div_one i⟩)

/-- The versions of a workflow, the newest first. -/
def Db.versionsOf (db : Db) (w : Uuid) : List VersionRow :=
  (db.versions.rows.filter fun v => v.workflowId == w).insertionSort fun a b => b.version ≤ a.version

theorem mem_versionsOf {w : Uuid} {v : VersionRow} : v ∈ db.versionsOf w ↔ v ∈ db.versions ∧ v.workflowId = w := by
  rw [Db.versionsOf, List.mem_insertionSort, List.mem_filter, beq_iff_eq]
  rfl

theorem versions_iff {reply : Reply} : db.Answers app env (.versions slug) reply ↔ hasNul slug = false ∧
    ∃ w ∈ db.workflows, w.slug = slug ∧ reply = .versions ((db.versionsOf w.id).map (·.summary)) := by
  show (alone env (versions slug) db).map Prod.fst = _ ↔ _
  cases hnul : hasNul slug with
  | true =>
    unfold versions
    rw [alone_workflowId_nul hnul]
    simp
  | false =>
    rw [alone_versions hnul]
    constructor
    · intro h
      cases hf : db.workflows.find? fun w => w.slug == slug with
      | none => rw [hf] at h; cases h
      | some w =>
        rw [hf] at h
        cases h
        obtain ⟨hw, hslug⟩ := Table.mem_of_find? hf
        exact ⟨rfl, w, hw, by simpa using hslug, rfl⟩
    · rintro ⟨-, w, hw, rfl, rfl⟩
      rw [find_slug hw]
      rfl

/-- The document of a version. -/
def VersionRow.document (slug : String) (v : VersionRow) : VersionDocument :=
  ⟨slug, v.version, v.yaml, v.changelog, v.publishedAt, v.withdrawnAt.isSome⟩

theorem document_iff {n : ℤ} {reply : Reply} : db.Answers app env (.versionDocument slug n) reply ↔ hasNul slug = false ∧
    ∃ w ∈ db.workflows, w.slug = slug ∧ ∃ v ∈ db.versionsOf w.id, v.version = n ∧ reply = .document (v.document slug) := by
  show (alone env (versionDocument slug n) db).map Prod.fst = _ ↔ _
  rw [Option.map_eq_some_iff]
  constructor
  · rintro ⟨⟨out, db'⟩, h, rfl⟩
    obtain ⟨-, hnul, w, hw, hslug, v, hv, hvw, hn, he⟩ := alone_versionDocument_iff.mp h
    exact ⟨hnul, w, hw, hslug, v, mem_versionsOf.mpr ⟨hv, hvw⟩, hn, he⟩
  · rintro ⟨hnul, w, hw, hslug, v, hv, hn, rfl⟩
    obtain ⟨hv, hvw⟩ := mem_versionsOf.mp hv
    exact ⟨(_, db), alone_versionDocument_iff.mpr ⟨rfl, hnul, w, hw, hslug, v, hv, hvw, hn, rfl⟩, rfl⟩

/-- The latest version of a workflow is the first that `versions` shows without the
flag. -/
theorem latestVersion_eq (db : Db) (w : Uuid) : db.latestVersion w =
    (((db.versionsOf w).map (·.summary)).find? fun e => !e.withdrawn).map (·.version) := by
  have hfirst := find_first_eq_max VersionRow.version (fun v => v.withdrawnAt.isNone)
    (db.versions.rows.filter fun v => v.workflowId == w)
  rw [List.filter_filter] at hfirst
  rw [Db.latestVersion, List.find?_map, Option.map_map]
  simp only [Bool.and_comm] at hfirst ⊢
  have hflag : ((fun e : VersionSummary => !e.withdrawn) ∘ fun v : VersionRow => v.summary) = fun v => v.withdrawnAt.isNone := by
    funext v
    simp [VersionRow.summary]
  rw [← hfirst, hflag]
  rfl

/-! ### A publish in a run -/

/-- No change takes a document away. -/
theorem length_documents_act (c : Change) (e : Entry) : e.documents.length ≤ (c.act e).documents.length := by
  cases c with
  | publish yaml changelog =>
    show _ ≤ (e.documents ++ [(yaml, changelog)]).length
    rw [List.length_append]
    exact Nat.le_add_right ..
  | amend | unlist | badge => exact le_rfl

/-- Whatever number is given in a run of changes, it is beyond the documents at
its start. -/
theorem numbered_turn {n : ℤ} : ∀ (cs : List Change) (e : Entry),
    Reply.published slug n ∈ (Machine.turns (Entry.serve slug) e cs).map Machine.Turn.answer → e.documents.length < n
  | [], _, h => by cases h
  | c :: cs, e, h => by
    rcases List.mem_cons.mp h with h | h
    · cases c with
      | publish =>
        obtain ⟨-, rfl⟩ := Reply.published.inj h
        exact Int.lt_succ _
      | amend | unlist | badge => cases h
    · have hlater := numbered_turn cs (c.act e) h
      have hkept := length_documents_act c e
      omega

/-- **The number of a publish is beyond all that were there**, withdrawn or not,
whatever is served in between. -/
theorem numbered_above (h0 : db₀.Sound) (h : Reached app db₀ s) {as : List (Action registry Request)}
    (hrun : s.run (handle app) as = some s') {x : Success} (hx : s'.Succeeded x) (hnew : ¬ s.Succeeded x)
    {headers : HeaderMap} {body : PublishVersion} (hreq : x.request = .publishVersion headers slug body) :
    ∃ n, x.reply = .published slug n ∧ ∀ w ∈ s.db.workflows, w.slug = slug → ∀ v ∈ s.db.versionsOf w.id, v.version < n := by
  have hg' := (h.run hrun).good h0
  have hc : (x.request.change? slug).isSome = true := by simp [hreq, Request.change?]
  obtain ⟨n, hn⟩ : ∃ n, x.reply = .published slug n := by
    obtain ⟨t, pre, ws, db, -, -, -, -, he⟩ := hg'.change_effect hx hc
    generalize x.reply = reply at he
    rw [hreq] at he
    cases he
    exact ⟨_, rfl⟩
  refine ⟨n, hn, ?_⟩
  rintro w hw rfl v hv
  obtain ⟨hv, hvw⟩ := mem_versionsOf.mp hv
  obtain ⟨e, he⟩ := exists_shows (h.good h0).sound hw
  obtain ⟨order, hser⟩ := serial_run h0 h hrun hw he
  have hle : v.version ≤ e.documents.length := ((he.numbered _).mp ⟨v, hv, hvw, rfl⟩).2
  -- it is one of the changes since then
  have hin : x.reply ∈ order.map Success.reply := List.mem_map_of_mem ((hser.mem x).mpr ⟨hx, hc, hnew⟩)
  rw [← hser.replies, hn] at hin
  exact lt_of_le_of_lt hle (numbered_turn _ _ hin)

/-! ### All of them together -/

/-- The entry of a version is the document's. -/
structure VersionSummary.Describes (e : VersionSummary) (doc : VersionDocument) : Prop where
  version : e.version = doc.version
  changelog : e.changelog = doc.changelog
  publishedAt : e.publishedAt = doc.publishedAt
  withdrawn : e.withdrawn = doc.withdrawn

theorem VersionRow.describes (slug : String) (v : VersionRow) : v.summary.Describes (v.document slug) :=
  ⟨rfl, rfl, rfl, rfl⟩

/-- **The reads agree.** In every state and for every slug, `detail` serves what
the unfiltered listing shows and nothing else; the latest version of a listed
workflow is the first that `versions` does not flag, and it is served;
`version_document` serves the versions that `versions` shows; and a publish
that has yet to succeed gets a number beyond them all. -/
theorem reads_agree (h0 : db₀.Initial) (h : Reached app db₀ s) (slug : String) :
    (∀ env env' reply, env.now = env'.now → (s.db.Answers app env (.detail slug) reply ↔
      ∃ row, reply = .summary row ∧ InListing app s.db env' slug row)) ∧
    (∀ env env' row, InListing app s.db env slug row → ∃ entries,
      s.db.Answers app env' (.versions slug) (.versions entries) ∧
      row.latestVersion = (entries.find? fun e => !e.withdrawn).map (·.version) ∧
      ∀ v, row.latestVersion = some v → ∃ doc, s.db.Answers app env' (.versionDocument slug v) (.document doc) ∧
        doc.version = v ∧ doc.withdrawn = false) ∧
    (∀ env env' n reply, s.db.Answers app env (.versionDocument slug n) reply → ∃ doc entries, reply = .document doc ∧
      s.db.Answers app env' (.versions slug) (.versions entries) ∧ ∃ e ∈ entries, e.version = n ∧ e.Describes doc) ∧
    (∀ env env' reply, s.db.Answers app env (.versions slug) reply → ∃ entries, reply = .versions entries ∧
      ∀ e ∈ entries, ∃ doc, s.db.Answers app env' (.versionDocument slug e.version) (.document doc) ∧ e.Describes doc) ∧
    ∀ as (s' : Registry) x headers body, s.run (handle app) as = some s' →
      x.request = .publishVersion headers slug body → s'.Succeeded x → ¬ s.Succeeded x →
      ∃ n, x.reply = .published slug n ∧ ∀ env entries, s.db.Answers app env (.versions slug) (.versions entries) →
        ∀ e ∈ entries, e.version < n := by
  refine ⟨fun env env' reply hnow => ?_, fun env env' row hin => ?_, fun env env' n reply hdoc => ?_,
    fun env env' reply hver => ?_, fun as s' x headers body hrun hreq hx hnew => ?_⟩
  · rw [detail_iff, hnow]
    constructor
    · rintro ⟨-, w, hw, hslug, hl, row, hsum, rfl⟩
      exact ⟨row, rfl, inListing_iff.mpr ⟨w, hw, hslug, hl, hsum⟩⟩
    · rintro ⟨row, rfl, hin⟩
      obtain ⟨w, hw, rfl, hl, hsum⟩ := inListing_iff.mp hin
      exact ⟨h.slugs h0 w hw, w, hw, rfl, hl, row, hsum, rfl⟩
  · obtain ⟨w, hw, rfl, hl, hsum⟩ := inListing_iff.mp hin
    have hnul := h.slugs h0 w hw
    have hlatest : row.latestVersion = s.db.latestVersion w.id := by
      obtain ⟨q, -, rfl⟩ := Option.map_eq_some_iff.mp hsum
      rfl
    rw [latestVersion_eq] at hlatest
    refine ⟨_, versions_iff.mpr ⟨hnul, w, hw, rfl, rfl⟩, hlatest, fun k hk => ?_⟩
    obtain ⟨e, hfind, rfl⟩ := Option.map_eq_some_iff.mp (hlatest.symm.trans hk)
    obtain ⟨v, hv, rfl⟩ := List.mem_map.mp (List.mem_of_find?_eq_some hfind)
    have hflag : v.summary.withdrawn = false := by simpa using List.find?_some hfind
    exact ⟨v.document w.slug, document_iff.mpr ⟨hnul, w, hw, rfl, v, hv, rfl, rfl⟩, rfl, hflag⟩
  · obtain ⟨hnul, w, hw, hslug, v, hv, hvn, rfl⟩ := document_iff.mp hdoc
    exact ⟨_, _, rfl, versions_iff.mpr ⟨hnul, w, hw, hslug, rfl⟩, v.summary, List.mem_map_of_mem hv, hvn, v.describes slug⟩
  · obtain ⟨hnul, w, hw, hslug, rfl⟩ := versions_iff.mp hver
    refine ⟨_, rfl, fun e he => ?_⟩
    obtain ⟨v, hv, rfl⟩ := List.mem_map.mp he
    exact ⟨_, document_iff.mpr ⟨hnul, w, hw, hslug, v, hv, rfl, rfl⟩, v.describes slug⟩
  · obtain ⟨n, hn, habove⟩ := numbered_above h0.sound h hrun hx hnew hreq
    refine ⟨n, hn, fun env entries hver e he => ?_⟩
    obtain ⟨-, w, hw, hslug, hentries⟩ := versions_iff.mp hver
    cases hentries
    obtain ⟨v, hv, rfl⟩ := List.mem_map.mp he
    exact habove w hw hslug v hv

/-- Two versions, the second of which the operator withdraws. -/
def Sample.withdrawn : List (Action registry Request) :=
  serve 10 0 (create 0 "first") 7 ++ serve 20 1 (publish 0 "first" "steps: [1]") 8 ++ [.outside (.withdrawVersion 14 2 30000000)]

def Sample.next : Request := publish 0 "first" "steps: [2]"

/-- What the library shows then is version 1, and the next is version 3. -/
theorem reads_agree_withdrawn : ∃ (s s' : Registry) (entries : List VersionSummary), Reached Sample.replica Sample.library s ∧
    s.run (handle Sample.replica) (Sample.serve 40 2 Sample.next 8) = some s' ∧
    s'.Succeeded ⟨2, Sample.next, .published "first" 3⟩ ∧
    s.db.Answers Sample.replica (Sample.env 50) (.versions "first") (.versions entries) ∧
    entries.map (fun e => (e.version, e.withdrawn)) = [(2, true), (1, false)] ∧ (∀ e ∈ entries, e.version < 3) ∧
    ∃ row, InListing Sample.replica s.db (Sample.env 50) "first" row ∧ row.latestVersion = some 1 ∧
      ∃ doc, s.db.Answers Sample.replica (Sample.env 50) (.versionDocument "first" 1) (.document doc) ∧
        doc.version = 1 ∧ doc.withdrawn = false := by
  let row : WorkflowSummary := ⟨"first", "Title", "What it does", [], false, "ada", some 1, 0, 23000000⟩
  let entries : List VersionSummary := [⟨2, none, 23000000, true⟩, ⟨1, none, 13000000, false⟩]
  have h : ((Sample.after Sample.withdrawn).map fun s =>
      (decide (((handle Sample.replica (.detail "first")).alone (S := registry) (Sample.env 50) none s.db).map Prod.fst =
          some (.ok (.summary row))),
        decide (((handle Sample.replica (.versions "first")).alone (S := registry) (Sample.env 50) none s.db).map Prod.fst =
          some (.ok (.versions entries))),
        s.tasks.length, (s.run (handle Sample.replica) (Sample.serve 40 2 Sample.next 8)).any fun s' =>
          s'.tasks.map Task.answered == [some (.ok (.published "first" 1)), some (.ok (.published "first" 2)),
            some (.ok (.published "first" 3))])) = some (true, true, 2, true) := by
    decide +kernel
  obtain ⟨s, hr, hs⟩ := Sample.reached h
  simp only [Prod.mk.injEq, decide_eq_true_eq] at hs
  obtain ⟨hrow, hentries, hlen, hnext⟩ := hs
  obtain ⟨s', hrun, hanswers⟩ := (Option.any_eq_true _ _).mp hnext
  -- the answer is the new request's
  have hx : Registry.Succeeded s' ⟨2, Sample.next, .published "first" 3⟩ := by
    have hans : (s'.tasks.map Task.answered)[2]? = some (some (.ok (.published "first" 3))) := by
      rw [beq_iff_eq.mp hanswers]
      rfl
    have hreqs : (s'.tasks.map Task.req)[2]? = some Sample.next := by
      rw [Pool.reqs_run hrun, List.getElem?_append_right (by simp [hlen]), List.length_map, hlen]
      rfl
    rw [List.getElem?_map] at hans hreqs
    obtain ⟨t, ht, ha⟩ := Option.map_eq_some_iff.mp hans
    obtain ⟨t', ht', hreq⟩ := Option.map_eq_some_iff.mp hreqs
    obtain rfl := Option.some.inj (ht.symm.trans ht')
    exact ⟨t, ht, hreq, ha⟩
  have hnew : ¬ s.Succeeded ⟨2, Sample.next, .published "first" 3⟩ := by
    rintro ⟨t, ht, -⟩
    exact absurd (List.getElem?_eq_some_iff.mp ht).1 (Nat.not_lt.mpr hlen.le)
  obtain ⟨hdetail, hversions, -, -, hpublish⟩ := reads_agree Sample.initial hr "first"
  obtain ⟨row', hrow', hin⟩ := (hdetail (Sample.env 50) (Sample.env 50) (.summary row) rfl).mp hrow
  cases hrow'
  obtain ⟨-, -, -, hserved⟩ := hversions (Sample.env 50) (Sample.env 50) row hin
  obtain ⟨n, hn, habove⟩ := hpublish _ s' _ _ _ hrun rfl hx hnew
  cases hn
  exact ⟨s, s', entries, hr, hrun, hx, hentries, rfl, habove _ _ hentries, row, hin, rfl, hserved 1 rfl⟩

end HarnessRegistry

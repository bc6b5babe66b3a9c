/-
# Names that are chosen, and names that are reported

A `PATCH /v1/me` chooses the publisher's name or clears it; a poll that enrolls
again fills in the name that GitHub reports if there is none. The row does not
tell a name that was cleared from one that was never set. So after the last
change of name the row has what the change left there, unless that was nothing
and a poll has reported a name since (`chosen_name_iff`).

Key definitions: `Write.chooses`, `Write.reported?`.
Key theorems: `displayName_applyAll`, `Reached.chosen`, `chosen_name_iff`.
-/
import HarnessRegistry.Gap

namespace HarnessRegistry

open Txn Handler

variable {app : AppState} {db db₀ : Db} {s s' : Registry} {p : Uuid}

/-! ### What the writes do to a name -/

/-- A change of the publisher's name, by the publisher or with a token of the
operator's. -/
def Write.chooses (p : Uuid) : Write → Bool
  | .setDisplayName id _ | .issuePublisher id _ _ _ => id == p
  | _ => false

/-- The name that an enrollment of publisher `p` reports. -/
def Write.reported? (p : Uuid) : Write → Option String
  | .enrollPublisher id _ name _ => if id = p then name else none
  | _ => none

theorem displayName_apply {w : Write} (hw : w.chooses p = false) {q : PublisherRow} (hq : q ∈ db.publishers)
    (hid : q.id = p) :
    ∃ q' ∈ (w.apply db).publishers, q'.id = p ∧ q'.displayName = q.displayName.or (w.reported? p) := by
  cases w
  case insertPublisher row => exact ⟨q, Table.mem_insert_of_mem hq, hid, by simp [Write.reported?]⟩
  case setBlockedAt id at_ =>
    refine ⟨_, List.mem_map.mpr ⟨q, hq, rfl⟩, ?_⟩
    split <;> exact ⟨hid, by simp [Write.reported?]⟩
  case enrollPublisher id login name avatar =>
    refine ⟨_, List.mem_map.mpr ⟨q, hq, rfl⟩, ?_⟩
    by_cases he : q.id = id
    · rw [if_pos he]
      exact ⟨hid, by simp [Write.reported?, ← hid, he]⟩
    · rw [if_neg he]
      exact ⟨hid, by simp [Write.reported?, ← hid, Ne.symm he]⟩
  case setDisplayName id name =>
    have hne : id ≠ p := by simpa [Write.chooses] using hw
    exact ⟨_, List.mem_map.mpr ⟨q, hq, if_neg fun he => hne (he.symm.trans hid)⟩, hid, by simp [Write.reported?]⟩
  case issuePublisher id login name avatar =>
    have hne : id ≠ p := by simpa [Write.chooses] using hw
    exact ⟨_, List.mem_map.mpr ⟨q, hq, if_neg fun he => hne (he.symm.trans hid)⟩, hid, by simp [Write.reported?]⟩
  all_goals exact ⟨q, hq, hid, by simp [Write.reported?]⟩

/-- The first name to be reported fills an empty place. -/
theorem displayName_applyAll : ∀ (ws : List Write) {db : Db} {q : PublisherRow}, (∀ w ∈ ws, w.chooses p = false) →
    q ∈ db.publishers → q.id = p → ∃ q' ∈ (registry.applyAll ws db).publishers, q'.id = p ∧
      q'.displayName = q.displayName.or (ws.findSome? (Write.reported? p))
  | [], _, q, _, hq, hid => ⟨q, hq, hid, by simp⟩
  | w :: ws, db, q, hw, hq, hid => by
    obtain ⟨q₁, hq₁, hid₁, hn₁⟩ := displayName_apply (hw w List.mem_cons_self) hq hid
    obtain ⟨q₂, hq₂, hid₂, hn₂⟩ := displayName_applyAll ws (fun v hv => hw v (List.mem_cons_of_mem _ hv)) hq₁ hid₁
    refine ⟨q₂, hq₂, hid₂, ?_⟩
    rw [hn₂, hn₁, Option.or_assoc, List.findSome?_cons]
    cases w.reported? p <;> rfl

/-! ### Along a run -/

/-- An entry of a log that has grown is one of the new ones, or an old one. -/
theorem split_append {α : Type} {l l' pre post : List α} {e : α} (h : l ++ l' = pre ++ e :: post) :
    (∃ as, pre = l ++ as ∧ l' = as ++ e :: post) ∨ ∃ bs, l = pre ++ e :: bs ∧ post = bs ++ l' := by
  rcases List.append_eq_append_iff.mp h with ⟨as, rfl, rfl⟩ | ⟨bs, rfl, hbs⟩
  · exact .inl ⟨as, rfl, rfl⟩
  · cases bs with
    | nil => exact .inl ⟨[], by simp, by simpa using hbs.symm⟩
    | cons b bs =>
      obtain ⟨rfl, rfl⟩ := List.cons.inj hbs
      exact .inr ⟨bs, rfl, rfl⟩

/-- A change of name goes in alone, and the publisher is there. -/
theorem Guar.renames {req : Request} {done ws : List Write} {name : Option String} (hg : Guar app req done db ws)
    (hw : .setDisplayName p name ∈ ws) : ws = [.setDisplayName p name] ∧ ∃ q ∈ db.publishers, q.id = p := by
  cases hg with
  | «prelude» _ hp =>
    cases hp with
    | touched => simp at hw
    | upserted _ hu => cases hu <;> simp at hw
  | effect _ he =>
    cases he with
    | renamed hq _ _ =>
      obtain ⟨rfl, rfl⟩ : p = _ ∧ name = _ := by simpa using hw
      exact ⟨rfl, _, hq, rfl⟩
    | issued _ _ hu => cases hu <;> simp at hw
    | _ => simp at hw

/-- **What the last change of name leaves**: the name it was changed to, or else
the first that has been reported since. -/
theorem Reached.chosen (h0 : db₀.Sound) (h : Reached app db₀ s) : ∀ (pre post : List (Option ℕ × Write)) (r : ℕ)
    (name : Option String), s.log = pre ++ (some r, .setDisplayName p name) :: post →
      (∀ e ∈ post, e.2.chooses p = false) → ∃ q ∈ s.db.publishers, q.id = p ∧
        q.displayName = name.or ((post.map Prod.snd).findSome? (Write.reported? p)) := by
  refine h.induct (P := fun s => ∀ (pre post : List (Option ℕ × Write)) (r : ℕ) (name : Option String),
    s.log = pre ++ (some r, .setDisplayName p name) :: post → (∀ e ∈ post, e.2.chooses p = false) →
      ∃ q ∈ s.db.publishers, q.id = p ∧ q.displayName = name.or ((post.map Prod.snd).findSome? (Write.reported? p)))
    h0 (by simp [Registry.start]) fun s a s' _ hg ih hst pre post r name hlog hno => ?_
  -- the entry was there, and more has been written since
  have later : ∀ (o : Option ℕ) (ws : List Write) (bs : List (Option ℕ × Write)),
      s'.db = registry.applyAll ws s.db → s.log = pre ++ (some r, .setDisplayName p name) :: bs →
      post = bs ++ ws.map (o, ·) → ∃ q ∈ s'.db.publishers, q.id = p ∧
        q.displayName = name.or ((post.map Prod.snd).findSome? (Write.reported? p)) := by
    rintro o ws bs hd hl rfl
    obtain ⟨q, hq, hid, hn⟩ := ih pre bs r name hl fun e he => hno e (List.mem_append_left _ he)
    have hws : ∀ w ∈ ws, w.chooses p = false := fun w hw =>
      hno (o, w) (List.mem_append_right _ (List.mem_map_of_mem hw))
    obtain ⟨q', hq', hid', hn'⟩ := displayName_applyAll ws hws hq hid
    refine ⟨q', hd ▸ hq', hid', ?_⟩
    rw [hn', hn, Option.or_assoc, List.map_append, List.map_map, List.findSome?_append]
    congr 2
    simp [Function.comp_def]
  rcases Contract.step_cases hg hst with ⟨hd, hl, -⟩ | ⟨w, -, hd, hl, -⟩ | ⟨i, t, t', ws, ht, hgu, hf, hd, hl, -⟩
  · exact later none [] post hd (hl.symm.trans hlog) (by simp)
  · rcases split_append (hl.symm.trans hlog) with ⟨as, -, hin⟩ | ⟨bs, hs, hpost⟩
    · have hmem : (some r, Write.setDisplayName p name) ∈ [((none : Option ℕ), w)] := hin ▸ by simp
      simp at hmem
    · exact later none [w] bs hd hs hpost
  · rcases split_append (hl.symm.trans hlog) with ⟨as, -, hin⟩ | ⟨bs, hs, hpost⟩
    · have hmem : (some r, Write.setDisplayName p name) ∈ ws.map (some i, ·) := hin ▸ by simp
      obtain ⟨w, hw, he⟩ := List.mem_map.mp hmem
      obtain ⟨-, rfl⟩ := Prod.mk.inj he
      obtain ⟨rfl, q, hq, hid⟩ := hgu.renames hw
      obtain rfl : post = [] := by
        cases as with
        | nil => exact (List.cons.inj hin).2.symm
        | cons a as => simp at hin
      refine ⟨{ q with displayName := name }, ?_, hid, by simp⟩
      rw [hd]
      exact List.mem_map.mpr ⟨q, hq, if_pos hid⟩
    · exact later (some i) ws bs hd hs hpost

/-- Request `r` is a `PATCH /v1/me` that has changed the name of publisher `p`
to this one. -/
def Renames (app : AppState) (s : Registry) (r : ℕ) (p : Uuid) (name : Option String) : Prop :=
  ∃ (t : Call) (headers : HeaderMap) (body : UpdateMe) (reply : Reply), s.tasks[r]? = some t ∧
    t.req = .updateMe headers body ∧ t.answered = some (.ok reply) ∧ Holder app s.db headers p ∧ name = body.name

/-- The changes of name in the log are those that were answered with success. -/
theorem Reached.renames_iff (h0 : db₀.Sound) (h : Reached app db₀ s) {r : ℕ} {name : Option String} :
    (some r, .setDisplayName p name) ∈ s.log ↔ Renames app s r p name := by
  have hg := h.good h0
  constructor
  · intro hlog
    obtain ⟨t, ht⟩ : ∃ t, s.tasks[r]? = some t := ⟨_, List.getElem?_eq_getElem (hg.logged.index _ hlog r rfl)⟩
    have hdone := (hg.logged_done ht).mpr hlog
    have hnot : ¬ Preparing t.done := fun hp => by simpa [Write.preparatory] using hp _ hdone
    obtain ⟨reply, ha⟩ := (effect_answered h0 h r t ht).resolve_left hnot
    rcases hg.succeeded ht ha with ⟨-, hp⟩ | ⟨pre, ws, db, hd, hpre, he, hgr⟩
    · exact absurd hp hnot
    have hw : .setDisplayName p name ∈ ws := by
      rw [hd] at hdone
      refine (List.mem_append.mp hdone).resolve_left fun hin => ?_
      simpa [Write.preparatory] using hpre _ hin
    generalize hreq : t.req = req at he
    cases he with
    | @renamed headers body _ q _ hh _ =>
      obtain ⟨rfl, rfl⟩ : p = q.id ∧ name = body.name := by simpa using hw
      exact ⟨t, headers, body, _, ht, hreq, ha, hh.grows ((grows_applyAll _ _).trans hgr), rfl⟩
    | issued _ _ hu => cases hu <;> simp at hw
    | _ => simp at hw
  · rintro ⟨t, headers, body, reply, ht, hreq, ha, hh, rfl⟩
    rcases hg.succeeded ht ha with ⟨hp, -⟩ | ⟨pre, ws, db, hd, -, he, hgr⟩
    · rw [hreq] at hp
      cases hp
    · rw [hreq] at he
      refine (hg.logged_done ht).mp ?_
      rw [hd]
      cases he with
      | @renamed _ _ _ q _ hh' _ =>
        rw [hh.unique (hh'.grows ((grows_applyAll _ _).trans hgr))]
        simp

/-- Request `r` is a poll that enrolls an account which reports this name. -/
def Reports (app : AppState) (s : Registry) (r : ℕ) (name : Option String) : Prop :=
  ∃ (t : Call) (headers : HeaderMap) (body : PollRequest) (site : Site) (clock : DateTime)
    (bytes : Vector UInt8 tokenBytes) (user : GitHubUser), s.tasks[r]? = some t ∧
      t.req = .poll headers body site clock bytes ∧ Enrolls app body site clock user ∧ name = user.displayName

/-- The names that are reported in the log are those of the accounts that polls
have enrolled. -/
theorem Reached.reported_by (h0 : db₀.Sound) (h : Reached app db₀ s) : ∀ (r : ℕ) (login : String)
    (name avatar : Option String), (some r, .enrollPublisher p login name avatar) ∈ s.log → Reports app s r name := by
  refine h.induct (P := fun s => ∀ (r : ℕ) (login : String) (name avatar : Option String),
    (some r, .enrollPublisher p login name avatar) ∈ s.log → Reports app s r name)
    h0 (by simp [Registry.start]) fun s a s' _ hg ih hst r login name avatar hlog => ?_
  -- the request of an entry keeps its number
  have old : (some r, .enrollPublisher p login name avatar) ∈ s.log → Reports app s' r name := fun hin => by
    obtain ⟨t, headers, body, site, clock, bytes, user, ht, hreq, hen, hname⟩ := ih r login name avatar hin
    obtain ⟨t', ht', hreq', -⟩ := Pool.tasks_step hst ht
    exact ⟨t', headers, body, site, clock, bytes, user, ht', hreq'.trans hreq, hen, hname⟩
  rcases Contract.step_cases hg hst with ⟨-, hl, -⟩ | ⟨w, -, -, hl, -⟩ | ⟨i, t, t', ws, ht, hgu, hf, -, hl, -⟩
  · exact old (hl ▸ hlog)
  · rw [hl] at hlog
    exact old ((List.mem_append.mp hlog).resolve_right (by simp))
  · rw [hl] at hlog
    rcases List.mem_append.mp hlog with hin | hin
    · exact old hin
    obtain ⟨w, hw, he⟩ := List.mem_map.mp hin
    obtain ⟨hi, rfl⟩ := Prod.mk.inj he
    obtain rfl := Option.some.inj hi
    obtain ⟨u, hu, hureq, -⟩ := Pool.tasks_step hst ht
    generalize t.req = req at hgu hureq
    cases hgu with
    | «prelude» _ hp =>
      cases hp with
      | touched => simp at hw
      | upserted hen hup =>
        cases hup with
        | insert env => simp at hw
        | update _ _ =>
          obtain ⟨-, -, hname, -⟩ := Write.enrollPublisher.inj (List.mem_singleton.mp hw)
          exact ⟨u, _, _, _, _, _, _, hu, hureq, hen, hname⟩
    | effect _ he =>
      cases he with
      | issued _ _ hu => cases hu <;> simp at hw
      | _ => simp at hw

/-- **When enrolling again keeps the name that was chosen.** In every state of
every run, the publisher whose last change of name was answered with success has
the name it was changed to if and only if that change did not clear it, or no
poll since then has reported one. -/
theorem chosen_name_iff (h0 : db₀.Sound) (h : Reached app db₀ s) :
    (∀ (r : ℕ) (p : Uuid) (name : Option String),
      (some r, .setDisplayName p name) ∈ s.log ↔ Renames app s r p name) ∧
    (∀ (r : ℕ) (p : Uuid) (login : String) (name avatar : Option String),
      (some r, .enrollPublisher p login name avatar) ∈ s.log → Reports app s r name) ∧
    ∀ (p : Uuid) (pre post : List (Option ℕ × Write)) (r : ℕ) (name : Option String),
      s.log = pre ++ (some r, .setDisplayName p name) :: post → (∀ e ∈ post, e.2.chooses p = false) →
      ∀ q ∈ s.db.publishers, q.id = p →
        (q.displayName = name ↔ name ≠ none ∨
          ∀ (o : Option ℕ) (login : String) (reported avatar : Option String),
            (o, .enrollPublisher p login reported avatar) ∈ post → reported = none) := by
  refine ⟨fun r p name => h.renames_iff h0, fun r p => h.reported_by h0 r, fun p pre post r name hlog hno q hq hid => ?_⟩
  obtain ⟨q', hq', hid', hn⟩ := h.chosen h0 pre post r name hlog hno
  obtain rfl := PublisherRow.eq_of_id hq hq' (hid.trans hid'.symm)
  rw [hn]
  cases name with
  | some n => simp
  | none =>
    rw [Option.none_or, List.findSome?_eq_none_iff]
    constructor
    · intro hall
      refine .inr fun o login reported avatar hin => ?_
      simpa [Write.reported?] using hall _ (List.mem_map_of_mem hin)
    · rintro (hne | hall) w hw
      · exact absurd rfl hne
      obtain ⟨⟨o, w⟩, hin, rfl⟩ := List.mem_map.mp hw
      cases w with
      | enrollPublisher id login reported avatar =>
        by_cases he : id = p
        · subst he
          rw [Write.reported?, if_pos rfl]
          exact hall o login reported avatar hin
        · exact if_neg he
      | _ => rfl

/-- A publisher clears its name or changes it, and enrolls again. -/
def Sample.reenrolling (name : String) : List (Action registry Request) :=
  serve 10 0 (.updateMe (Sample.headers (token 0)) ⟨some name⟩) 3 ++
    serve 20 1 (.poll (Sample.headers "") ⟨"code"⟩ gitHub today (Sample.bytes 2)) 3

/-- What the run writes. -/
def Sample.renamed (name : Option String) : List (Option ℕ × Write) :=
  [(some 0, .setDisplayName 1 name), (some 1, .enrollPublisher 1 "ada-l" (some "Ada Lovelace") none),
    (some 1, .insertToken (HarnessRegistry.minted enrolling (Sample.bytes 2) 1))]

/-- **A name that was cleared comes back**, as GitHub has it. -/
theorem cleared_name_refilled :
    ∃ s : Registry, (Registry.start Sample.library).run (handle Sample.enrolling) (Sample.reenrolling "  ") = some s ∧
      s.tasks.map Task.answered = [some (.ok (.me ⟨"ada", none, none⟩)),
        some (.ok (.enrolled (Sample.token 2) 1 "ada-l"))] ∧
      (∃ pre post, s.log = pre ++ (some 0, .setDisplayName 1 none) :: post ∧ ∀ e ∈ post, e.2.chooses 1 = false) ∧
      ∃ q ∈ s.db.publishers, q.id = 1 ∧ q.displayName = some "Ada Lovelace" := by
  have h : ((Registry.start Sample.library).run (handle Sample.enrolling) (Sample.reenrolling "  ")).map (fun s =>
      (s.tasks.map Task.answered, decide ((Registry.entries s).drop 1 = Sample.renamed none), s.db.publishers.rows)) =
      some ([some (.ok (.me ⟨"ada", none, none⟩)), some (.ok (.enrolled (Sample.token 2) 1 "ada-l"))],
        true, [⟨1, 1000, "ada-l", some "Ada Lovelace", none, none⟩, ⟨2, 2000, "bob", none, none, none⟩]) := by
    decide +kernel
  obtain ⟨s, hs, he⟩ := Option.map_eq_some_iff.mp h
  obtain ⟨ha, he⟩ := Prod.mk.inj he
  obtain ⟨hlog, hrows⟩ := Prod.mk.inj he
  have hlog := of_decide_eq_true hlog
  refine ⟨s, hs, ha, ⟨s.log.take 1, (Sample.renamed none).tail, ?_, by decide⟩,
    ⟨1, 1000, "ada-l", some "Ada Lovelace", none, none⟩, ?_, rfl, rfl⟩
  · exact (List.take_append_drop 1 s.log).symm.trans (congrArg (s.log.take 1 ++ ·) hlog)
  · show _ ∈ s.db.publishers.rows
    rw [hrows]
    exact List.mem_cons_self

/-- One that was chosen stays. -/
theorem chosen_name_iff_chosen :
    ∃ s : Registry, Reached Sample.enrolling Sample.library s ∧ s.tasks.map Task.answered =
        [some (.ok (.me ⟨"ada", some "Countess", none⟩)), some (.ok (.enrolled (Sample.token 2) 1 "ada-l"))] ∧
      ∀ q ∈ s.db.publishers, q.id = 1 → q.displayName = some "Countess" := by
  have h : ((Registry.start Sample.library).run (handle Sample.enrolling) (Sample.reenrolling " Countess ")).map (fun s =>
      (s.tasks.map Task.answered, (Registry.entries s).drop 1)) =
      some ([some (.ok (.me ⟨"ada", some "Countess", none⟩)), some (.ok (.enrolled (Sample.token 2) 1 "ada-l"))],
        Sample.renamed (some "Countess")) := by
    decide +kernel
  obtain ⟨s, hs, he⟩ := Option.map_eq_some_iff.mp h
  obtain ⟨ha, hlog⟩ := Prod.mk.inj he
  have hr : Reached Sample.enrolling Sample.library s := ⟨_, hs⟩
  have hlog : s.log = s.log.take 1 ++ (some 0, .setDisplayName 1 (some "Countess")) :: (Sample.renamed none).tail :=
    (List.take_append_drop 1 s.log).symm.trans (congrArg (s.log.take 1 ++ ·) hlog)
  refine ⟨s, hr, ha, fun q hq hid => ?_⟩
  exact ((chosen_name_iff Sample.initial.sound hr).2.2 1 _ _ 0 _ hlog (by decide) q hq hid).mpr (.inl (by simp))

end HarnessRegistry

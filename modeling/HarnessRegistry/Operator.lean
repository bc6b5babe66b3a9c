/-
# The operator's token

`Config::from_env` keeps the value of `ADMIN_TOKEN` as it is, and only an empty one
counts as none; `bearer` trims what a request presents, and a header carries no line
end. So a value with a blank around it or a line end in it is a token that nobody
can present (`locked_out`), and any other value opens the admin endpoints to those
who present it, and to nobody else (`admin_token_iff`).

Key definitions: `Tells`, `Printable`, `carried`, `Presentable`.
Key theorems: `locked_out`, `admin_token_iff`.
-/
import HarnessRegistry.Lengths
import HarnessRegistry.Names
import HarnessRegistry.Tokens

namespace HarnessRegistry

open Txn Handler

variable {app : AppState} {headers : HeaderMap} {t : String}

/-! ### What a value can be -/

/-- No header has one. -/
def isLineEnd (c : Char) : Bool := c == '\n' || c == '\r'

/-- Visible ASCII characters, spaces and line ends, at least one of them visible. -/
structure Printable (t : String) : Prop where
  chars : ∀ c ∈ t.toList, 32 ≤ c.toNat ∧ c.toNat < 127 ∨ isLineEnd c = true
  visible : ∃ c ∈ t.toList, 32 < c.toNat ∧ c.toNat < 127

/-- As much of the value as a header can carry. -/
def carried (t : String) : String := String.ofList (t.toList.filter fun c => !isLineEnd c)

/-- There is no line end in the value, and no blank around it. -/
def Presentable (t : String) : Prop := (∀ c ∈ t.toList, isLineEnd c = false) ∧ trim t = t

theorem mem_carried {c : Char} : c ∈ (carried t).toList ↔ c ∈ t.toList ∧ isLineEnd c = false := by
  unfold carried
  rw [String.toList_ofList, List.mem_filter, Bool.not_eq_true']

/-- What is presented of a value is the value, if it is presentable. -/
theorem presentable_iff : trim (carried t) = t ↔ Presentable t := by
  have hcarried : (∀ c ∈ t.toList, isLineEnd c = false) → carried t = t := by
    intro h
    unfold carried
    rw [List.filter_eq_self.mpr fun c hc => by simp [h c hc], String.ofList_toList]
  constructor
  · intro h
    have hlines : ∀ c ∈ t.toList, isLineEnd c = false := by
      intro c hc
      rw [← h] at hc
      exact (mem_carried.mp (mem_of_mem_trim hc)).2
    exact ⟨hlines, by rwa [hcarried hlines] at h⟩
  · rintro ⟨hlines, htrim⟩
    rwa [hcarried hlines]

theorem Printable.carried (h : Printable t) :
    (∀ c ∈ (carried t).toList, Visible c) ∧ (trim (HarnessRegistry.carried t)).isEmpty = false := by
  refine ⟨fun c hc => ?_, (trim_isEmpty _).mpr ?_⟩
  · obtain ⟨hmem, hline⟩ := mem_carried.mp hc
    have hchar := (h.chars c hmem).resolve_right (by simp [hline])
    exact .inl hchar
  · obtain ⟨c, hmem, hgraphic⟩ := h.visible
    refine ⟨c, mem_carried.mpr ⟨hmem, ?_⟩, isWhitespace_graphic hgraphic⟩
    refine Bool.eq_false_iff.mpr fun hline => ?_
    simp only [isLineEnd, Bool.or_eq_true, beq_iff_eq] at hline
    rcases hline with rfl | rfl
    · exact absurd hgraphic (by decide)
    · exact absurd hgraphic (by decide)

/-! ### The extractor -/

/-- SHA-256 tells the two strings apart, if they differ. -/
def Tells (sha256 : Digest) (a b : String) : Prop := sha256 (asBytes a) = sha256 (asBytes b) → a = b

theorem hashToken_inj {sha256 : Digest} {a b : String} (h : Tells sha256 a b) (he : hashToken sha256 a = hashToken sha256 b) :
    a = b := h (hexEncode_inj he)

/-- Without a token to compare with, there is no route. -/
theorem no_route (ht : app.config.adminToken = none) (headers : HeaderMap) :
    Admin.fromRequestParts app headers = .error (.notFound "route") := by
  unfold Admin.fromRequestParts
  rw [ht]
  rfl

/-- Whoever presents the value itself is admitted. -/
theorem admitted_of_presented (ht : app.config.adminToken = some t) (hb : bearer headers = some t) :
    Admin.fromRequestParts app headers = .ok () := by
  unfold Admin.fromRequestParts
  simp only [ht, hb, if_true]
  rfl

/-- Whoever presents something else, or nothing, is refused. -/
theorem refused_of_presented (ht : app.config.adminToken = some t)
    (hb : ∀ p, bearer headers = some p → p ≠ t ∧ Tells app.sha256 p t) :
    Admin.fromRequestParts app headers = .error .unauthorized := by
  unfold Admin.fromRequestParts
  simp only [ht]
  cases hp : bearer headers with
  | none => rfl
  | some p =>
    obtain ⟨hne, htells⟩ := hb p hp
    have hhash : ¬ hashToken app.sha256 p = hashToken app.sha256 t := fun he => hne (hashToken_inj htells he)
    simp only [if_neg hhash]
    rfl

theorem visible_of_toStr {v : HeaderValue} {s : String} (h : HeaderValue.toStr v = some s) : ∀ c ∈ s.toList, Visible c := by
  unfold HeaderValue.toStr at h
  rw [Option.ite_none_right_eq_some, Option.some.injEq] at h
  obtain ⟨hall, rfl⟩ := h
  intro c hc
  rw [String.toList_ofList, List.mem_map] at hc
  obtain ⟨b, hb, rfl⟩ := hc
  have hbyte := List.all_eq_true.mp hall b hb
  simp only [Bool.or_eq_true, Bool.and_eq_true, decide_eq_true_eq, beq_iff_eq, UInt8.le_iff_toNat_le,
    UInt8.lt_iff_toNat_lt, ← UInt8.toNat_inj] at hbyte
  have hchar : ∀ n < 256, (Char.ofNat n).toNat = n := by decide +kernel
  unfold Visible
  rw [hchar _ b.toNat_lt]
  exact hbyte

/-- What is presented has no line end, and no blank around it. -/
theorem presentable_of_bearer {p : String} (h : bearer headers = some p) : Presentable p := by
  obtain ⟨v, u, -, hv, -, rfl⟩ := bearer_eq_some.mp h
  refine ⟨fun c hc => Bool.eq_false_iff.mpr fun hline => ?_, trim_trim u⟩
  have hmem : c ∈ ("Bearer " ++ u).toList := by
    rw [String.toList_append]
    exact List.mem_append_right _ (mem_of_mem_trim hc)
  have hc := visible_of_toStr hv c hmem
  unfold Visible at hc
  simp only [isLineEnd, Bool.or_eq_true, beq_iff_eq] at hline
  rcases hline with rfl | rfl
  · exact absurd hc (by decide)
  · exact absurd hc (by decide)

/-- **A value with a blank around it or a line end in it opens nothing.** -/
theorem locked_out (ht : app.config.adminToken = some t) (hp : ¬ Presentable t)
    (hsha : ∀ p, bearer headers = some p → Tells app.sha256 p t) : Admin.fromRequestParts app headers = .error .unauthorized :=
  refused_of_presented ht fun p hb => ⟨fun he => hp (he ▸ presentable_of_bearer hb), hsha p hb⟩

/-- What the extractor refuses is answered so, whichever handler it was for. -/
theorem handle_refused {req : Request} {e : Error} (hreq : req.admin? = some headers)
    (h : Admin.fromRequestParts app headers = .error e) : handle app req = .ret (.error e) := by
  have hrefused : ∀ f : Handler Reply, (asAdmin app headers f).run = .ret (.error e) := by
    intro f
    unfold asAdmin
    rw [h, lift_error_bind]
    rfl
  cases req <;> cases hreq <;> exact hrefused _

/-- **The configured token opens the admin endpoints exactly when it is
presentable**; without one there are no such endpoints, and whoever presents
something else is refused. -/
theorem admin_token_iff (app : AppState) (var : Except VarError String)
    (hvar : app.config.adminToken = Config.adminTokenFrom var) :
    ((∀ t, var = .ok t → t = "") → ∀ (headers : HeaderMap) (req : Request), req.admin? = some headers →
      handle app req = .ret (.error (.notFound "route"))) ∧
    ∀ t, var = .ok t → Printable t →
      (Tells app.sha256 (trim (carried t)) t →
        ((∀ headers : HeaderMap, headers "authorization" = some (asBytes ("Bearer " ++ carried t)) →
          Admin.fromRequestParts app headers = .ok ()) ↔ Presentable t)) ∧
      ∀ (headers : HeaderMap) (req : Request), req.admin? = some headers →
        (∀ v u, headers "authorization" = some v → HeaderValue.toStr v = some ("Bearer " ++ u) →
          trim u ≠ trim t ∧ Tells app.sha256 (trim u) t) →
        handle app req = .ret (.error .unauthorized) := by
  refine ⟨fun hempty headers req hreq => ?_, fun t ht hprint => ⟨fun hsha => ⟨fun hadmits => ?_, fun hp headers hh => ?_⟩,
    fun headers req hreq hother => ?_⟩⟩
  · have hnone : app.config.adminToken = none := by
      rw [hvar]
      cases var with
      | error e => rfl
      | ok t => rw [hempty t rfl]; rfl
    exact handle_refused hreq (no_route hnone headers)
  all_goals
    have hne : t.isEmpty = false := by
      obtain ⟨c, hc, -⟩ := hprint.visible
      rw [Bool.eq_false_iff, ne_eq, String.isEmpty_iff]
      rintro rfl
      cases hc
    have hsome : app.config.adminToken = some t := by
      rw [hvar, ht]
      exact Option.filter_eq_some_iff.mpr ⟨rfl, by rw [hne]; rfl⟩
    obtain ⟨hvisible, hblank⟩ := hprint.carried
  · -- with a header that carries the value
    let headers : HeaderMap := fun _ => some (asBytes ("Bearer " ++ carried t))
    have hb : bearer headers = some (trim (carried t)) := bearer_presented hvisible hblank rfl
    by_contra hp
    have hrefused : Admin.fromRequestParts app headers = .error .unauthorized :=
      locked_out hsome hp fun p h => Option.some.inj (hb.symm.trans h) ▸ hsha
    cases (hadmits headers rfl).symm.trans hrefused
  · have hb := bearer_presented hvisible hblank hh
    rw [presentable_iff.mpr hp] at hb
    exact admitted_of_presented hsome hb
  · refine handle_refused hreq (refused_of_presented hsome fun p hb => ?_)
    obtain ⟨v, u, hv, hu, -, rfl⟩ := bearer_eq_some.mp hb
    obtain ⟨hdiff, htells⟩ := hother v u hv hu
    exact ⟨fun he => hdiff (he ▸ (trim_trim u).symm), htells⟩

/-- A replica whose operator keeps the token in a file that ends in a newline. -/
def Sample.newline : AppState :=
  { Sample.replica with
    config := { Sample.replica.config with adminToken := Config.adminTokenFrom (.ok "operator\n") }
    sha256 := fun text =>
      if text = asBytes "operator\n" then
        [212, 120, 254, 26, 223, 188, 84, 226, 102, 231, 130, 185, 197, 85, 123, 241,
          125, 253, 142, 232, 20, 27, 208, 204, 29, 127, 220, 222, 58, 11, 0, 242]
      else Sample.sha256 text }

theorem newline_locked_out :
    Printable "operator\n" ∧ carried "operator\n" = "operator" ∧
      Sample.headers "operator" "authorization" = some (asBytes ("Bearer " ++ carried "operator\n")) ∧
      Admin.fromRequestParts Sample.newline (Sample.headers "operator") = .error .unauthorized := by
  refine ⟨⟨?_, 'o', by decide, by decide⟩, by decide +kernel, by decide +kernel, by decide +kernel⟩
  have hall : ("operator\n".toList.all fun c => (32 ≤ c.toNat && c.toNat < 127) || isLineEnd c) = true := by decide
  intro c hc
  simpa using List.all_eq_true.mp hall c hc

theorem admin_token_iff_operator :
    Presentable "operator" ∧ Admin.fromRequestParts Sample.replica (Sample.headers "operator") = .ok () := by
  have hall : ("operator".toList.all fun c => 32 ≤ c.toNat && c.toNat < 127) = true := by decide
  have hprint : Printable "operator" :=
    ⟨fun c hc => .inl (by simpa using List.all_eq_true.mp hall c hc), 'o', by decide, by decide⟩
  have hsame : trim (carried "operator") = "operator" := by decide +kernel
  have hp : Presentable "operator" := presentable_iff.mp hsame
  obtain ⟨-, hset⟩ := admin_token_iff Sample.replica (.ok "operator") (by decide +kernel)
  exact ⟨hp, ((hset "operator" rfl hprint).1 fun _ => hsame).mpr hp _ (by decide +kernel)⟩

end HarnessRegistry

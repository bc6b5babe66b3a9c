/-
# The limit on bodies

`main` bounds the body of a request, `validate_yaml` the document in it; the
limit on bodies is to admit what the other one admits. It does where the sum in
`main` does not overflow and the escapes of the document, with everything else in
the body, fit into the 64 KiB and what the document leaves of its own limit
(`body_limit_iff`). The rest of a new entry takes at most 37207 bytes and that of
a version 24026, so a document with few escapes always gets through
(`few_escapes_pass`).

Key definitions: `bodyLimit`, `CreateWorkflow.encode`, `PublishVersion.encode`, `Passes`.
Key theorems: `len_create`, `len_publish`, `passes_iff`, `body_limit_iff`, `few_escapes_pass`.
-/
import HarnessRegistry.Json
import HarnessRegistry.Lengths
import Mathlib.Algebra.Order.BigOperators.Group.List
import Mathlib.Algebra.Order.Group.Nat

namespace HarnessRegistry

/-- `config.max_yaml_bytes + 64 * 1024`, in the words of the machine; a release
build wraps. -/
def bodyLimit {w : ℕ} (maxYamlBytes : BitVec w) : BitVec w := maxYamlBytes + BitVec.ofNat w (64 * 1024)

/-! ### Bodies -/

def stringText (s : String) : List Char := Json.literal s.toList

/-- A changelog that is not supplied is written `null`. -/
def changelogText : Option String → List Char
  | none => "null".toList
  | some c => stringText c

/-- The body that carries a new entry. -/
def CreateWorkflow.encode (body : CreateWorkflow) : String := String.ofList (Json.object
  [("slug".toList, stringText body.slug), ("title".toList, stringText body.title),
    ("description".toList, stringText body.description), ("tags".toList, Json.array (body.tags.map stringText)),
    ("yaml".toList, stringText body.yaml), ("changelog".toList, changelogText body.changelog)])

/-- The body that carries a version. -/
def PublishVersion.encode (body : PublishVersion) : String := String.ofList (Json.object
  [("yaml".toList, stringText body.yaml), ("changelog".toList, changelogText body.changelog)])

/-- The bytes of a text between its quotes. -/
def encodedLen (s : String) : ℕ := len s + Json.escapes s.toList

def changelogLen : Option String → ℕ
  | none => 4
  | some c => encodedLen c + 2

/-- What a new entry takes besides its document. -/
def CreateWorkflow.besides (body : CreateWorkflow) : ℕ :=
  72 + encodedLen body.slug + encodedLen body.title + encodedLen body.description +
    ((body.tags.map fun t => encodedLen t + 3).sum - 1) + changelogLen body.changelog

/-- What a version takes besides its document. -/
def PublishVersion.besides (body : PublishVersion) : ℕ := 24 + changelogLen body.changelog

theorem bytes_stringText (s : String) : Json.bytes (stringText s) = encodedLen s + 2 := by
  rw [stringText, Json.bytes_literal, encodedLen, len_eq_sum]
  rfl

theorem bytes_changelogText (changelog : Option String) : Json.bytes (changelogText changelog) = changelogLen changelog := by
  cases changelog with
  | none => rfl
  | some c => exact bytes_stringText c

theorem len_ofList (t : List Char) : len (String.ofList t) = Json.bytes t := by
  rw [len_eq_sum, String.toList_ofList]
  rfl

theorem len_create (body : CreateWorkflow) : len body.encode = encodedLen body.yaml + body.besides := by
  have htags : (body.tags.map stringText).map (fun v => Json.bytes v + 1) = body.tags.map fun t => encodedLen t + 3 := by
    rw [List.map_map]
    exact List.map_congr_left fun t _ => congrArg (· + 1) (bytes_stringText t)
  have hslug : Json.bytes (Json.literal "slug".toList) = 6 := by decide
  have htitle : Json.bytes (Json.literal "title".toList) = 7 := by decide
  have hdescription : Json.bytes (Json.literal "description".toList) = 13 := by decide
  have htag : Json.bytes (Json.literal "tags".toList) = 6 := by decide
  have hyaml : Json.bytes (Json.literal "yaml".toList) = 6 := by decide
  have hchangelog : Json.bytes (Json.literal "changelog".toList) = 11 := by decide
  rw [CreateWorkflow.encode, len_ofList, Json.bytes_object]
  simp only [List.map_cons, List.map_nil, List.sum_cons, List.sum_nil, bytes_stringText, bytes_changelogText, Json.bytes_array,
    htags, hslug, htitle, hdescription, htag, hyaml, hchangelog]
  unfold CreateWorkflow.besides
  omega

theorem len_publish (body : PublishVersion) : len body.encode = encodedLen body.yaml + body.besides := by
  have hyaml : Json.bytes (Json.literal "yaml".toList) = 6 := by decide
  have hchangelog : Json.bytes (Json.literal "changelog".toList) = 11 := by decide
  rw [PublishVersion.encode, len_ofList, Json.bytes_object]
  simp only [List.map_cons, List.map_nil, List.sum_cons, List.sum_nil, bytes_stringText, bytes_changelogText, hyaml, hchangelog]
  unfold PublishVersion.besides
  omega

/-! ### What is let through -/

/-- The sum does not overflow, and the body is within it. -/
structure Passes {w : ℕ} (maxYamlBytes : BitVec w) (body : String) : Prop where
  sum : maxYamlBytes.toNat + 64 * 1024 < 2 ^ w
  length : len body ≤ (bodyLimit maxYamlBytes).toNat

/-- The sum is the one meant, unless it overflows. -/
theorem bodyLimit_toNat {w : ℕ} {maxYamlBytes : BitVec w} (h : maxYamlBytes.toNat + 64 * 1024 < 2 ^ w) :
    (bodyLimit maxYamlBytes).toNat = maxYamlBytes.toNat + 64 * 1024 := by
  have hconst : (64 * 1024) % 2 ^ w = 64 * 1024 := Nat.mod_eq_of_lt (by omega)
  rw [bodyLimit, BitVec.toNat_add, BitVec.toNat_ofNat, hconst, Nat.mod_eq_of_lt h]

/-- A body of a document within its own limit. -/
theorem passes_iff {w : ℕ} {maxYamlBytes : BitVec w} {body yaml : String} {besides : ℕ}
    (hyaml : validateYaml yaml maxYamlBytes.toNat = .ok ()) (hlen : len body = encodedLen yaml + besides) :
    Passes maxYamlBytes body ↔ maxYamlBytes.toNat + 64 * 1024 < 2 ^ w ∧
      Json.escapes yaml.toList + besides ≤ 64 * 1024 + (maxYamlBytes.toNat - len yaml) := by
  have hfits := (validateYaml_ok_iff.mp hyaml).2
  constructor
  · rintro ⟨hsum, hlength⟩
    rw [bodyLimit_toNat hsum, hlen, encodedLen] at hlength
    exact ⟨hsum, by omega⟩
  · rintro ⟨hsum, hroom⟩
    refine ⟨hsum, ?_⟩
    rw [bodyLimit_toNat hsum, hlen, encodedLen]
    omega

/-! ### What the rest can take -/

theorem encodedLen_le (s : String) : encodedLen s ≤ 6 * len s := by
  have hescapes := Json.escapes_le s.toList
  have hbytes : Json.bytes s.toList = len s := (len_eq_sum s).symm
  unfold encodedLen
  omega

/-- A text of the whitelisted characters needs no escapes. -/
theorem encodedLen_plain {s : String} (h : s.toList.all isSlugChar = true) : encodedLen s = len s := by
  have hletters : (Json.letters.all fun p => !isSlugChar p.1) = true := by decide
  have hcontrols : ∀ n < 32, isSlugChar (Char.ofNat n) = false := by decide
  have hextra : ∀ c, isSlugChar c = true → Json.extra c = 0 := by
    intro c hc
    have hletter : Json.letters.lookup c = none := by
      refine List.lookup_eq_none_iff.mpr fun p hp => ?_
      rw [bne_iff_ne]
      rintro rfl
      have hplain := List.all_eq_true.mp hletters p hp
      rw [hc] at hplain
      cases hplain
    have hcontrol : ¬ c.toNat < 32 := by
      intro hlt
      have hplain := hcontrols c.toNat hlt
      rw [Char.ofNat_toNat, hc] at hplain
      cases hplain
    simp [Json.extra, hletter, hcontrol]
  have hzero : Json.escapes s.toList = 0 := by
    refine List.sum_eq_zero fun n hn => ?_
    obtain ⟨c, hc, rfl⟩ := List.mem_map.mp hn
    exact hextra c (List.all_eq_true.mp h c hc)
  rw [encodedLen, hzero, Nat.add_zero]

theorem changelogLen_le {changelog : Option String} (h : validateChangelog changelog = .ok ()) :
    changelogLen changelog ≤ 24002 := by
  cases changelog with
  | none => show 4 ≤ 24002; omega
  | some c =>
    have hlen : len c ≤ 4000 := (validateChangelog_ok_iff.mp h c rfl).2
    have := encodedLen_le c
    show encodedLen c + 2 ≤ 24002
    omega

theorem PublishVersion.besides_le {body : PublishVersion} {maxYaml : ℕ} (h : body.validate maxYaml = .ok ()) :
    body.besides ≤ 24026 := by
  have := changelogLen_le (PublishVersion.validate_ok_iff.mp h).2
  unfold PublishVersion.besides
  omega

theorem tags_le {tags : List String} (h : validateTags tags = .ok ()) : (tags.map fun t => encodedLen t + 3).sum ≤ 350 := by
  obtain ⟨hcount, htags⟩ := validateTags_ok_iff.mp h
  have htag : ∀ n ∈ tags.map fun t => encodedLen t + 3, n ≤ 35 := by
    intro n hn
    obtain ⟨t, ht, rfl⟩ := List.mem_map.mp hn
    obtain ⟨-, hlen, hplain⟩ := validateTag_ok_iff.mp (htags t ht)
    have hmax : len t ≤ 32 := hlen
    rw [encodedLen_plain hplain]
    omega
  calc (tags.map fun t => encodedLen t + 3).sum
      ≤ (tags.map fun t => encodedLen t + 3).length • 35 := List.sum_le_card_nsmul _ _ htag
    _ = tags.length * 35 := by rw [List.length_map]; rfl
    _ ≤ 10 * 35 := Nat.mul_le_mul_right _ hcount
    _ = 350 := rfl

theorem CreateWorkflow.besides_le {body : CreateWorkflow} {maxYaml : ℕ} (h : body.validate maxYaml = .ok ()) :
    body.besides ≤ 37207 := by
  obtain ⟨hslug, htitle, hdescription, htags, -, hchangelog⟩ := CreateWorkflow.validate_ok_iff.mp h
  obtain ⟨-, hslug, hplain, -⟩ := validateSlug_ok_iff.mp hslug
  have hslug : len body.slug ≤ 64 := hslug
  have htitle : len body.title ≤ 120 := (validateLen_ok_iff.mp htitle).2
  have hdescription : len body.description ≤ 2000 := (validateLen_ok_iff.mp hdescription).2
  have := encodedLen_le body.title
  have := encodedLen_le body.description
  have := tags_le htags
  have := changelogLen_le hchangelog
  unfold CreateWorkflow.besides
  rw [encodedLen_plain hplain]
  omega

/-- **A document with few escapes gets through**, in a new entry or in a version. -/
theorem few_escapes_pass {w : ℕ} {maxYamlBytes : BitVec w} (hsum : maxYamlBytes.toNat + 64 * 1024 < 2 ^ w) :
    (∀ body : CreateWorkflow, body.validate maxYamlBytes.toNat = .ok () → Json.escapes body.yaml.toList ≤ 28329 →
      Passes maxYamlBytes body.encode) ∧
    (∀ body : PublishVersion, body.validate maxYamlBytes.toNat = .ok () → Json.escapes body.yaml.toList ≤ 41510 →
      Passes maxYamlBytes body.encode) := by
  constructor
  · intro body h hfew
    have hyaml := (CreateWorkflow.validate_ok_iff.mp h).2.2.2.2.1
    have := body.besides_le h
    exact (passes_iff hyaml (len_create body)).mpr ⟨hsum, by omega⟩
  · intro body h hfew
    have hyaml := (PublishVersion.validate_ok_iff.mp h).1
    have := body.besides_le h
    exact (passes_iff hyaml (len_publish body)).mpr ⟨hsum, by omega⟩

/-- **An accepted value gets through** exactly when the sum does not overflow and
the escapes of its document, with the rest of the body, fit into the 64 KiB and
what the document leaves of its own limit. -/
theorem body_limit_iff {w : ℕ} (maxYamlBytes : BitVec w) :
    (∀ body : CreateWorkflow, body.validate maxYamlBytes.toNat = .ok () →
      (Passes maxYamlBytes body.encode ↔ maxYamlBytes.toNat + 64 * 1024 < 2 ^ w ∧
        Json.escapes body.yaml.toList + body.besides ≤ 64 * 1024 + (maxYamlBytes.toNat - len body.yaml))) ∧
    (∀ body : PublishVersion, body.validate maxYamlBytes.toNat = .ok () →
      (Passes maxYamlBytes body.encode ↔ maxYamlBytes.toNat + 64 * 1024 < 2 ^ w ∧
        Json.escapes body.yaml.toList + body.besides ≤ 64 * 1024 + (maxYamlBytes.toNat - len body.yaml))) :=
  ⟨fun body h => passes_iff (CreateWorkflow.validate_ok_iff.mp h).2.2.2.2.1 (len_create body),
    fun body h => passes_iff (PublishVersion.validate_ok_iff.mp h).1 (len_publish body)⟩

/-- A list of so many one-letter items, one a line. -/
def items (n : ℕ) : PublishVersion := { yaml := String.ofList (List.replicate n "- a\n".toList).flatten, changelog := none }

theorem items_toList (n : ℕ) : (items n).yaml.toList = (List.replicate n "- a\n".toList).flatten := String.toList_ofList

theorem items_sum (n : ℕ) (f : Char → ℕ) : ((items n).yaml.toList.map f).sum = n * ("- a\n".toList.map f).sum := by
  rw [items_toList, List.map_flatten, List.sum_flatten, List.map_replicate, List.map_replicate, List.sum_replicate]
  rfl

theorem items_len (n : ℕ) : len (items n).yaml = 4 * n := by
  have hline : ("- a\n".toList.map Char.utf8Size).sum = 4 := by decide
  rw [len_eq_sum, items_sum, hline, Nat.mul_comm]

theorem items_escapes (n : ℕ) : Json.escapes (items n).yaml.toList = n := by
  have hline : ("- a\n".toList.map Json.extra).sum = 1 := by decide
  rw [Json.escapes, items_sum, hline, Nat.mul_one]

theorem items_accepted {n maxYaml : ℕ} (hpos : 0 < n) (hmax : 4 * n ≤ maxYaml) : (items n).validate maxYaml = .ok () := by
  have ha : 'a' ∈ (items n).yaml.toList := by
    rw [items_toList, List.mem_flatten]
    exact ⟨"- a\n".toList, List.mem_replicate.mpr ⟨by omega, rfl⟩, by decide +kernel⟩
  have hyaml := validateYaml_ok_iff.mpr ⟨(trim_isEmpty _).mpr ⟨'a', ha, by decide⟩, (items_len n).trans_le hmax⟩
  exact PublishVersion.validate_ok_iff.mpr ⟨hyaml, rfl⟩

/-- A list of as many items as the limit of 256 KiB admits does not get through, and
at the largest limit of all the sum overflows. -/
theorem items_refused :
    (items 65536).validate (256 * 1024) = .ok () ∧ ¬ Passes (BitVec.ofNat 64 (256 * 1024)) (items 65536).encode ∧
    (items 1).validate (BitVec.allOnes 64).toNat = .ok () ∧ ¬ Passes (BitVec.allOnes 64) (items 1).encode ∧
    bodyLimit (BitVec.allOnes 64) = BitVec.ofNat 64 65535 := by
  have hmax : (BitVec.ofNat 64 (256 * 1024)).toNat = 262144 := by decide
  have hok : (items 65536).validate (256 * 1024) = .ok () := items_accepted (by omega) (by omega)
  refine ⟨hok, fun h => ?_, items_accepted (by omega) (by decide), fun h => absurd h.sum (by decide), by decide⟩
  have hlength := h.length
  rw [bodyLimit_toNat h.sum, hmax, len_publish, encodedLen, items_len, items_escapes] at hlength
  exact absurd hlength (by decide)

/-- One item gets through. -/
theorem body_limit_iff_item : (items 1).validate (BitVec.ofNat 64 (256 * 1024)).toNat = .ok () ∧
    Passes (BitVec.ofNat 64 (256 * 1024)) (items 1).encode :=
  ⟨items_accepted (by omega) (by decide), ((body_limit_iff (BitVec.ofNat 64 (256 * 1024))).2 (items 1)
    (items_accepted (by omega) (by decide))).mpr ⟨by decide, by decide +kernel⟩⟩

end HarnessRegistry

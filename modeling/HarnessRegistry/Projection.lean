/-
# The tables, read as a catalogue

`Db.catalogue` forgets the rows: their keys, their order, when a token was last
used. An account is read off the row with its id, a package off the row with its
slug and the versions and installs of that row. A write changes the catalogue at
one point.

Key definitions: `Db.package`, `Db.catalogue`.
Key theorems: `Db.numbered_package`, `Db.packages_update`, `Db.catalogue_insertToken`, `Db.catalogue_setPublisher`,
`Db.summary_catalogue`, `Db.listed_catalogue`.
-/
import HarnessRegistry.Catalogue
import HarnessRegistry.Txn.Lookup

namespace HarnessRegistry

open Txn

def PublisherRow.account (r : PublisherRow) : Account := ⟨r.githubId, r.githubLogin, r.displayName, r.avatarUrl, r.blockedAt⟩

def TokenRow.credential (r : TokenRow) : Credential := ⟨r.publisherId, r.name, r.revokedAt⟩

def VersionRow.release (r : VersionRow) : Release := ⟨r.yaml, r.changelog, r.publishedAt, r.withdrawnAt⟩

def InstallRow.install (r : InstallRow) : Install := ⟨r.version, r.lastSeenAt⟩

/-- The workflow and the installation. -/
def InstallRow.place (r : InstallRow) : Uuid × Uuid := (r.workflowId, r.installationId)

namespace Db

def package (db : Db) (w : WorkflowRow) : Package where
  id := w.id
  owner := w.publisherId
  title := w.title
  description := w.description
  tags := w.tags
  official := w.official
  updatedAt := w.updatedAt
  unlistedAt := w.unlistedAt
  releases := (db.versionsOf w.id).reverse.map VersionRow.release
  installs := fun i => (db.installs.row InstallRow.place (w.id, i)).map InstallRow.install

def catalogue (db : Db) : Catalogue where
  accounts p := (db.publishers.row PublisherRow.id p).map PublisherRow.account
  credentials x := (db.tokens.row TokenRow.tokenHash x).map TokenRow.credential
  packages s := (db.workflows.row WorkflowRow.slug s).map db.package

/-! ### Looking up -/

theorem unique_publisher : Unique PublisherRow.id := fun _ _ h => (clash_publisher _ _).mpr (.inl h)

theorem unique_token : Unique TokenRow.tokenHash := fun _ _ h => (clash_token _ _).mpr h

theorem unique_workflow : Unique WorkflowRow.slug := fun _ _ h => (clash_workflow _ _).mpr (.inr h)

theorem unique_install : Unique InstallRow.place := fun _ _ h =>
  (clash_install _ _).mpr ⟨congrArg Prod.fst h, congrArg Prod.snd h⟩

variable {db : Db}

theorem accounts_eq_some {p : Uuid} {a : Account} :
    db.catalogue.accounts p = some a ↔ ∃ r ∈ db.publishers, r.id = p ∧ r.account = a := by
  simp only [catalogue, Option.map_eq_some_iff, Table.row_eq_some unique_publisher, and_assoc]

theorem credentials_eq_some {x : String} {t : Credential} :
    db.catalogue.credentials x = some t ↔ ∃ r ∈ db.tokens, r.tokenHash = x ∧ r.credential = t := by
  simp only [catalogue, Option.map_eq_some_iff, Table.row_eq_some unique_token, and_assoc]

theorem packages_eq_some {s : String} {k : Package} :
    db.catalogue.packages s = some k ↔ ∃ w ∈ db.workflows, w.slug = s ∧ db.package w = k := by
  simp only [catalogue, Option.map_eq_some_iff, Table.row_eq_some unique_workflow, and_assoc]

theorem accounts_of_mem {r : PublisherRow} (h : r ∈ db.publishers) : db.catalogue.accounts r.id = some r.account :=
  accounts_eq_some.mpr ⟨r, h, rfl, rfl⟩

theorem credentials_of_mem {r : TokenRow} (h : r ∈ db.tokens) : db.catalogue.credentials r.tokenHash = some r.credential :=
  credentials_eq_some.mpr ⟨r, h, rfl, rfl⟩

theorem packages_of_mem {w : WorkflowRow} (h : w ∈ db.workflows) : db.catalogue.packages w.slug = some (db.package w) :=
  packages_eq_some.mpr ⟨w, h, rfl, rfl⟩

theorem accounts_eq_none {p : Uuid} : db.catalogue.accounts p = none ↔ ∀ r ∈ db.publishers, r.id ≠ p := by
  rw [catalogue, Option.map_eq_none_iff, Table.row_eq_none]

theorem credentials_eq_none {x : String} : db.catalogue.credentials x = none ↔ ∀ r ∈ db.tokens, r.tokenHash ≠ x := by
  rw [catalogue, Option.map_eq_none_iff, Table.row_eq_none]

theorem packages_eq_none {s : String} : db.catalogue.packages s = none ↔ ∀ w ∈ db.workflows, w.slug ≠ s := by
  rw [catalogue, Option.map_eq_none_iff, Table.row_eq_none]

theorem installs_eq_some {w : WorkflowRow} {i : Uuid} {x : Install} : (db.package w).installs i = some x ↔
    ∃ r ∈ db.installs, (r.workflowId = w.id ∧ r.installationId = i) ∧ r.install = x := by
  simp only [package, Option.map_eq_some_iff, Table.row_eq_some unique_install, InstallRow.place, Prod.mk.injEq, and_assoc]

theorem installs_eq_none {w : WorkflowRow} {i : Uuid} : (db.package w).installs i = none ↔
    ∀ r ∈ db.installs, ¬ (r.workflowId = w.id ∧ r.installationId = i) := by
  simp only [package, Option.map_eq_none_iff, Table.row_eq_none, InstallRow.place, Prod.mk.injEq, ne_eq]

/-! ### Releases -/

/-- The newest first, and none twice. -/
theorem versionsOf_sorted (db : Db) (w : Uuid) : (db.versionsOf w).Pairwise fun a b => b.version < a.version := by
  have : Std.Total fun a b : VersionRow => b.version ≤ a.version := ⟨fun a b => le_total b.version a.version⟩
  have : IsTrans VersionRow fun a b => b.version ≤ a.version := ⟨fun a b c hab hbc => hbc.trans hab⟩
  have hsort := List.pairwise_insertionSort (fun a b : VersionRow => b.version ≤ a.version)
    (db.versions.rows.filter fun v => v.workflowId == w)
  have hnodup : (db.versionsOf w).Nodup := (List.perm_insertionSort _ _).nodup_iff.mpr (db.versions.nodup.filter _)
  refine (hsort.and hnodup).imp_of_mem fun {a b} ha hb h => lt_of_le_of_ne h.1 fun hab => h.2 ?_
  obtain ⟨ha, haw⟩ := mem_versionsOf.mp ha
  obtain ⟨hb, hbw⟩ := mem_versionsOf.mp hb
  exact VersionRow.eq_of_number ha hb (haw.trans hbw.symm) hab.symm

/-- The list of them is the one in that order. -/
theorem versionsOf_eq {w : Uuid} {l : List VersionRow} (hl : l.Pairwise fun a b => b.version < a.version)
    (h : ∀ v, v ∈ l ↔ v ∈ db.versions ∧ v.workflowId = w) : db.versionsOf w = l := by
  have : Std.Antisymm fun a b : VersionRow => b.version < a.version := ⟨fun a b hab hba => absurd hab hba.asymm⟩
  have : Std.Irrefl fun a b : VersionRow => b.version < a.version := ⟨fun a => lt_irrefl _⟩
  exact List.Pairwise.eq_of_mem_iff (versionsOf_sorted db w) hl fun v => by rw [mem_versionsOf, h]

theorem map_version (hs : db.Sound) {w : WorkflowRow} (hw : w ∈ db.workflows) : ∃ n : ℕ, 0 < n ∧
    (db.versionsOf w.id).reverse.map VersionRow.version = (List.range n).map fun i : ℕ => (i : ℤ) + 1 := by
  obtain ⟨n, hn, hnum⟩ := hs.numbered w hw
  refine ⟨n.toNat, by omega, List.Pairwise.eq_of_mem_iff (r := (· < ·)) ?_ ?_ fun k => ?_⟩
  · rw [List.map_reverse, List.pairwise_reverse]
    exact List.pairwise_map.mpr (versionsOf_sorted db w.id)
  · exact List.pairwise_map.mpr (List.pairwise_lt_range.imp fun h => by omega)
  · have hk := hnum k
    simp only [Db.published] at hk
    simp only [List.mem_map, List.mem_reverse, mem_versionsOf, and_assoc, hk, List.mem_range]
    constructor
    · exact fun h => ⟨(k - 1).toNat, by omega, by omega⟩
    · rintro ⟨i, hi, rfl⟩
      omega

/-- **The place of a release is its number.** -/
theorem numbered_package (hs : db.Sound) {w : WorkflowRow} (hw : w ∈ db.workflows) :
    (db.package w).numbered = (db.versionsOf w.id).reverse.map fun v => (v.version, v.release) := by
  obtain ⟨n, -, hmap⟩ := map_version hs hw
  refine List.ext_getElem? fun i => ?_
  have hi := congrArg (·[i]?) hmap
  simp only [List.getElem?_map] at hi
  simp only [Package.numbered, package, List.getElem?_mapIdx, List.getElem?_map, Option.map_map]
  cases hv : (db.versionsOf w.id).reverse[i]? with
  | none => rfl
  | some v =>
    rw [hv, Option.map_some] at hi
    obtain ⟨j, hj, hjv⟩ := Option.map_eq_some_iff.mp hi.symm
    obtain ⟨hlt, rfl⟩ := List.getElem?_eq_some_iff.mp hj
    rw [List.getElem_range] at hjv
    simp only [Option.map_some, Function.comp_apply, hjv]

theorem mem_numbered (hs : db.Sound) {w : WorkflowRow} (hw : w ∈ db.workflows) {e : ℤ × Release} :
    e ∈ (db.package w).numbered ↔ ∃ v ∈ db.versionsOf w.id, (v.version, v.release) = e := by
  rw [numbered_package hs hw, List.mem_map]
  simp only [List.mem_reverse]

theorem published_package (hs : db.Sound) {w : WorkflowRow} (hw : w ∈ db.workflows) {n : ℤ} :
    (db.package w).published n ↔ db.published w.id n := by
  simp only [Package.published, mem_numbered hs hw, mem_versionsOf, Prod.mk.injEq, Db.published]
  constructor
  · rintro ⟨r, v, ⟨hv, hvw⟩, rfl, -⟩
    exact ⟨v, hv, hvw, rfl⟩
  · rintro ⟨v, hv, hvw, rfl⟩
    exact ⟨v.release, v, ⟨hv, hvw⟩, rfl, rfl⟩

/-- The versions are counted by the last. -/
theorem length_releases (hs : db.Sound) {w : WorkflowRow} (hw : w ∈ db.workflows) :
    db.Numbered w.id (db.package w).releases.length ∧ 0 < (db.package w).releases.length := by
  obtain ⟨n, hpos, hmap⟩ := map_version hs hw
  have hlen : (db.package w).releases.length = n := by
    have := congrArg List.length hmap
    simpa [package] using this
  refine ⟨fun k => ?_, hlen ▸ hpos⟩
  have hk : db.published w.id k ↔ k ∈ (db.versionsOf w.id).reverse.map VersionRow.version := by
    simp only [Db.published, List.mem_map, List.mem_reverse, mem_versionsOf, and_assoc]
  rw [hk, hmap, hlen, List.mem_map]
  simp only [List.mem_range]
  constructor
  · rintro ⟨i, hi, rfl⟩
    omega
  · exact fun h => ⟨(k - 1).toNat, by omega, by omega⟩

/-! ### Reading -/

theorem latest_package (hs : db.Sound) {w : WorkflowRow} (hw : w ∈ db.workflows) :
    (db.package w).latest = db.latestVersion w.id := by
  rw [Package.latest, numbered_package hs hw, ← List.map_reverse, List.reverse_reverse, latestVersion_eq, List.find?_map,
    List.find?_map, Option.map_map, Option.map_map]
  congr 1
  refine congrArg (List.find? · _) (funext fun v => ?_)
  show v.withdrawnAt.isNone = !v.withdrawnAt.isSome
  cases v.withdrawnAt <;> rfl

theorem active_package (w : WorkflowRow) (now : Timestamp) : (db.package w).active now = db.installCount now w.id := by
  have hcount := Table.count_eq_ncard (t := db.installs) (k := InstallRow.installationId)
    (p := fun i => i.workflowId == w.id && decide (i.lastSeenAt > now - ninetyDays)) fun x hx y hy hpx hpy he => by
      simp only [Bool.and_eq_true, beq_iff_eq] at hpx hpy
      exact InstallRow.eq_of_pair hx hy (hpx.1.trans hpy.1.symm) he
  rw [Db.installCount, hcount, Package.active]
  congr 1
  ext i
  simp only [Set.mem_ofPred_eq, installs_eq_some, Bool.and_eq_true, beq_iff_eq, decide_eq_true_eq]
  constructor
  · rintro ⟨-, ⟨r, hr, ⟨hrw, hri⟩, rfl⟩, hnow⟩
    exact ⟨r, hr, ⟨hrw, hnow⟩, hri⟩
  · rintro ⟨r, hr, ⟨hrw, hnow⟩, hri⟩
    exact ⟨r.install, ⟨r, hr, ⟨hrw, hri⟩, rfl⟩, hnow⟩

theorem summary_catalogue (hs : db.Sound) {w : WorkflowRow} (hw : w ∈ db.workflows) (now : Timestamp) :
    db.catalogue.summary now w.slug (db.package w) = db.summary now w := by
  rw [Catalogue.summary, latest_package hs hw, active_package]
  simp only [catalogue, package, Option.map_map, Db.summary, Table.row]
  rfl

theorem listed_catalogue (p : Uuid) : db.catalogue.listed p = db.listed p := by
  have hcount := Table.count_eq_ncard (t := db.workflows) (k := WorkflowRow.slug)
    (p := fun w => w.publisherId == p && w.unlistedAt.isNone) fun x hx y hy _ _ he => WorkflowRow.eq_of_slug hx hy he
  rw [Db.listed, hcount, Catalogue.listed]
  congr 1
  ext s
  simp only [Set.mem_ofPred_eq, packages_eq_some, Bool.and_eq_true, beq_iff_eq, Option.isNone_iff_eq_none]
  constructor
  · rintro ⟨-, ⟨w, hw, hslug, rfl⟩, hp, hl⟩
    exact ⟨w, hw, ⟨hp, hl⟩, hslug⟩
  · rintro ⟨w, hw, ⟨hp, hl⟩, hslug⟩
    exact ⟨db.package w, ⟨w, hw, hslug, rfl⟩, hp, hl⟩

theorem selected_package {lower : Char → Char} {f : ListQuery} {w : WorkflowRow} :
    (db.package w).Selected lower f ↔ f.selects lower w = true := by
  unfold ListQuery.selects
  simp only [Bool.and_eq_true, Option.isNone_iff_eq_none]
  constructor
  · rintro ⟨hl, ht, hq, ho⟩
    refine ⟨⟨⟨hl, ?_⟩, ?_⟩, ?_⟩
    · cases h : f.tag with
      | none => rfl
      | some t => exact List.contains_iff_mem.mpr (ht t h)
    · cases h : f.q with
      | none => rfl
      | some q => exact (Bool.or_eq_true ..).mpr (hq q h)
    · cases h : f.official with
      | none => rfl
      | some o => exact beq_iff_eq.mpr (ho o h)
  · rintro ⟨⟨⟨hl, ht⟩, hq⟩, ho⟩
    refine ⟨hl, fun t h => ?_, fun q h => ?_, fun o h => ?_⟩
    · rw [h] at ht
      exact List.contains_iff_mem.mp ht
    · rw [h] at hq
      exact (Bool.or_eq_true ..).mp hq
    · rw [h] at ho
      exact beq_iff_eq.mp ho

/-- A listing shows the catalogue. -/
theorem shows_page {app : AppState} {seen : List Look} {env : Env} (hs : db.Sound) (hl : LastLook seen env)
    (params : ListParams) : db.catalogue.Shows app seen (.list params)
      (.summaries ((((db.listing env params.query).drop params.query.offset.toNat).take params.query.limit.toNat).map Prod.snd)) := by
  have hperm : (db.listing env params.query).Perm (db.selected env.now env.lower params.query) := by
    rw [listing_eq]
    exact Ranked.sorted_perm ..
  rw [List.map_take, List.map_drop]
  refine @Catalogue.Shows.page app seen db.catalogue params env _ hl ?_ (fun row => ?_) ?_
  · rw [List.map_map, (hperm.map _).nodup_iff]
    show ((db.selected env.now env.lower params.query).map fun a => a.2.slug).Nodup
    rw [selected_slugs hs.owned]
    exact slugs_nodup _
  · rw [List.mem_map]
    constructor
    · rintro ⟨a, ha, rfl⟩
      obtain ⟨w, hw, hsel, -, hsum⟩ := mem_selected (hperm.mem_iff.mp ha)
      have hslug := (summary_eq_some hsum).1
      refine ⟨db.package w, hslug ▸ packages_of_mem hw, selected_package.mpr hsel, ?_⟩
      rw [hslug, summary_catalogue hs hw, hsum]
    · rintro ⟨k, hk, hsel, hsum⟩
      obtain ⟨w, hw, hslug, rfl⟩ := packages_eq_some.mp hk
      rw [← hslug, summary_catalogue hs hw] at hsum
      refine ⟨(w.id, row), hperm.mem_iff.mpr (List.mem_filterMap.mpr ⟨w, List.mem_filter.mpr ⟨hw, ?_⟩, ?_⟩), rfl⟩
      · exact selected_package.mp hsel
      · rw [hsum]
        rfl
  · rw [listing_eq]
    exact List.pairwise_map.mpr ((List.pairwise_insertionSort _ _).imp fun h => h.le)

/-! ### Writing -/

variable {db' : Db}

theorem catalogue_setPublisher {p : PublisherRow} {f : PublisherRow → PublisherRow} {hf : ∀ r, key (f r) = key r}
    (hp : p ∈ db.publishers) : (db.setPublisher p.id f hf).catalogue = db.catalogue.setAccount p.id (f p).account := by
  have hrow : (db.publishers.update (fun r => r.id = p.id) f hf).row PublisherRow.id =
      Function.update (db.publishers.row PublisherRow.id) p.id (some (f p)) :=
    Table.row_update unique_publisher hp (fun _ hr => ⟨fun h => PublisherRow.eq_of_id hr hp h, fun h => congrArg PublisherRow.id h⟩)
      (congrArg PublisherKey.id (hf p))
  refine congrArg (Catalogue.mk · _ _) ?_
  show Option.map PublisherRow.account ∘ (db.publishers.update (fun r => r.id = p.id) f hf).row PublisherRow.id = _
  rw [hrow, Function.comp_update]
  rfl

theorem catalogue_insertPublisher {r : PublisherRow} (hf : registry.Fresh [.insertPublisher r] db) :
    ((Write.insertPublisher r).apply db).catalogue = db.catalogue.setAccount r.id r.account := by
  refine congrArg (Catalogue.mk · _ _) ?_
  show Option.map PublisherRow.account ∘ (db.publishers.insert r).row PublisherRow.id = _
  rw [Table.row_insert unique_publisher (not_has_publisher hf), Function.comp_update]
  rfl

theorem catalogue_setToken {t : TokenRow} {f : TokenRow → TokenRow} {hf : ∀ r, key (f r) = key r} (ht : t ∈ db.tokens) :
    (db.setToken t.tokenHash f hf).catalogue = db.catalogue.setCredential t.tokenHash (f t).credential := by
  have hrow : (db.tokens.update (fun r => r.tokenHash = t.tokenHash) f hf).row TokenRow.tokenHash =
      Function.update (db.tokens.row TokenRow.tokenHash) t.tokenHash (some (f t)) :=
    Table.row_update unique_token ht (fun _ hr => ⟨fun h => TokenRow.eq_of_hash hr ht h, fun h => congrArg TokenRow.tokenHash h⟩)
      (congrArg TokenKey.hash (hf t))
  refine congrArg (Catalogue.mk _ · _) ?_
  show Option.map TokenRow.credential ∘ (db.tokens.update (fun r => r.tokenHash = t.tokenHash) f hf).row TokenRow.tokenHash = _
  rw [hrow, Function.comp_update]
  rfl

/-- A token that is not there. -/
theorem catalogue_setToken_none {x : String} {f : TokenRow → TokenRow} {hf : ∀ r, key (f r) = key r}
    (h : ∀ t ∈ db.tokens, t.tokenHash ≠ x) : (db.setToken x f hf).catalogue = db.catalogue := by
  refine congrArg (Catalogue.mk _ · _) ?_
  show Option.map TokenRow.credential ∘ (db.tokens.update (fun r => r.tokenHash = x) f hf).row TokenRow.tokenHash = _
  rw [Table.update_of_none h]
  rfl

/-- When a token was last used is forgotten. -/
theorem catalogue_touchToken (x : String) (now : Timestamp) : ((Write.touchToken x now).apply db).catalogue = db.catalogue := by
  by_cases h : ∃ t ∈ db.tokens, t.tokenHash = x
  · obtain ⟨t, ht, rfl⟩ := h
    show (db.setToken t.tokenHash _ _).catalogue = _
    rw [catalogue_setToken ht]
    have hself : db.catalogue.credentials t.tokenHash = some t.credential := credentials_of_mem ht
    show db.catalogue.setCredential t.tokenHash t.credential = _
    rw [Catalogue.setCredential, ← hself, Function.update_eq_self]
  · exact catalogue_setToken_none fun t ht he => h ⟨t, ht, he⟩

theorem catalogue_insertToken {r : TokenRow} (hf : registry.Fresh [.insertToken r] db) :
    ((Write.insertToken r).apply db).catalogue = db.catalogue.setCredential r.tokenHash r.credential := by
  refine congrArg (Catalogue.mk _ · _) ?_
  show Option.map TokenRow.credential ∘ (db.tokens.insert r).row TokenRow.tokenHash = _
  rw [Table.row_insert unique_token (not_has_token hf), Function.comp_update]
  rfl

/-- One package is new, the others are as they were. -/
theorem catalogue_setPackage {s : String} {w : WorkflowRow} {k : Package} (hp : db'.publishers = db.publishers)
    (ht : db'.tokens = db.tokens)
    (hrow : db'.workflows.row WorkflowRow.slug = Function.update (db.workflows.row WorkflowRow.slug) s (some w))
    (hother : ∀ x ∈ db.workflows, x.slug ≠ s → db'.package x = db.package x) (hk : db'.package w = k) :
    db'.catalogue = db.catalogue.setPackage s k := by
  unfold catalogue Catalogue.setPackage
  rw [hp, ht, hrow]
  refine congrArg (Catalogue.mk _ _) (funext fun u => ?_)
  by_cases hu : u = s
  · subst hu
    rw [Function.update_self, Function.update_self, Option.map_some, hk]
  · rw [Function.update_of_ne hu, Function.update_of_ne hu]
    show _ = (db.workflows.row WorkflowRow.slug u).map db.package
    cases hx : db.workflows.row WorkflowRow.slug u with
    | none => rfl
    | some x =>
      obtain ⟨hxw, rfl⟩ := (Table.row_eq_some unique_workflow).mp hx
      rw [Option.map_some, Option.map_some, hother x hxw hu]

/-- An `UPDATE` of the workflow. -/
theorem row_setWorkflow {w : WorkflowRow} {f : WorkflowRow → WorkflowRow} (hw : w ∈ db.workflows)
    (hf : ∀ r, key (f r) = key r) : (db.workflows.update (fun r => r.id = w.id) f hf).row WorkflowRow.slug =
      Function.update (db.workflows.row WorkflowRow.slug) w.slug (some (f w)) :=
  Table.row_update unique_workflow hw (fun _ hr => ⟨fun h => WorkflowRow.eq_of_id hr hw h, fun h => congrArg WorkflowRow.id h⟩)
    (congrArg WorkflowKey.slug (hf w))

theorem catalogue_setWorkflow {w : WorkflowRow} {f : WorkflowRow → WorkflowRow} {hf : ∀ r, key (f r) = key r}
    (hw : w ∈ db.workflows) : (db.setWorkflow w.id f hf).catalogue = db.catalogue.setPackage w.slug (db.package (f w)) :=
  catalogue_setPackage rfl rfl (row_setWorkflow hw hf) (fun _ _ _ => rfl) rfl

/-- Workflows with other slugs have other ids. -/
theorem id_ne_of_slug {w x : WorkflowRow} (hw : w ∈ db.workflows) (hx : x ∈ db.workflows) (h : x.slug ≠ w.slug) :
    x.id ≠ w.id := fun he => h (congrArg WorkflowRow.slug (WorkflowRow.eq_of_id hx hw he))

/-! Versions. -/

theorem versionsOf_insert {v : VersionRow} (hf : registry.Fresh [.insertVersion v] db)
    (hlt : ∀ u ∈ db.versionsOf v.workflowId, u.version < v.version) :
    ((Write.insertVersion v).apply db).versionsOf v.workflowId = v :: db.versionsOf v.workflowId := by
  refine versionsOf_eq (List.pairwise_cons.mpr ⟨hlt, versionsOf_sorted db _⟩) fun u => ?_
  rw [List.mem_cons, mem_versionsOf]
  show _ ↔ u ∈ db.versions.insert v ∧ _
  rw [Table.mem_insert (not_has_version hf)]
  constructor
  · rintro (rfl | ⟨hu, huw⟩)
    · exact ⟨.inr rfl, rfl⟩
    · exact ⟨.inl hu, huw⟩
  · rintro ⟨hu | rfl, huw⟩
    · exact .inr ⟨hu, huw⟩
    · exact .inl rfl

theorem versionsOf_insert_ne {v : VersionRow} (hf : registry.Fresh [.insertVersion v] db) {w : Uuid} (hw : w ≠ v.workflowId) :
    ((Write.insertVersion v).apply db).versionsOf w = db.versionsOf w := by
  refine versionsOf_eq (versionsOf_sorted db w) fun u => ?_
  rw [mem_versionsOf]
  show _ ↔ u ∈ db.versions.insert v ∧ _
  rw [Table.mem_insert (not_has_version hf)]
  constructor
  · exact fun ⟨hu, huw⟩ => ⟨.inl hu, huw⟩
  · rintro ⟨hu | rfl, huw⟩
    · exact ⟨hu, huw⟩
    · exact absurd huw.symm hw

/-- The package of a workflow with another version. -/
theorem package_insertVersion {v : VersionRow} (hf : registry.Fresh [.insertVersion v] db) {w : WorkflowRow}
    (hw : w.id = v.workflowId) (hlt : ∀ u ∈ db.versionsOf w.id, u.version < v.version) :
    ((Write.insertVersion v).apply db).package w =
      { db.package w with releases := (db.package w).releases ++ [v.release] } := by
  unfold package
  rw [hw] at hlt ⊢
  rw [versionsOf_insert hf hlt, List.reverse_cons, List.map_append]
  rfl

theorem package_insertVersion_ne {v : VersionRow} (hf : registry.Fresh [.insertVersion v] db) {w : WorkflowRow}
    (hw : w.id ≠ v.workflowId) : ((Write.insertVersion v).apply db).package w = db.package w := by
  unfold package
  rw [versionsOf_insert_ne hf hw]
  rfl

/-- The next version of a workflow, and its `UPDATE`. -/
theorem catalogue_published {w : WorkflowRow} {v : VersionRow} {now : Timestamp} (hs : db.Sound) (hw : w ∈ db.workflows)
    (hf : registry.Fresh [.insertVersion v, .relist w.id now] db) (hv : v.workflowId = w.id)
    (hn : v.version = (db.package w).releases.length + 1) :
    (registry.applyAll [.insertVersion v, .relist w.id now] db).catalogue =
      db.catalogue.setPackage w.slug ((db.package w).publish v.release now) := by
  have hfv := (fresh_cons hf).1
  have hlt : ∀ u ∈ db.versionsOf w.id, u.version < v.version := fun u hu => by
    obtain ⟨hu, huw⟩ := mem_versionsOf.mp hu
    have := (((length_releases hs hw).1 u.version).mp ⟨u, hu, huw, rfl⟩).2
    omega
  refine catalogue_setPackage rfl rfl
    (row_setWorkflow (f := fun r => { r with updatedAt := now, unlistedAt := none }) hw fun _ => rfl) (fun x hx hxs => ?_) ?_
  · exact package_insertVersion_ne hfv (hv ▸ id_ne_of_slug hw hx hxs)
  · have hpk := package_insertVersion hfv hv.symm hlt
    exact congrArg (fun k : Package => { k with updatedAt := now, unlistedAt := none }) hpk

/-- A workflow and its first version. -/
theorem catalogue_created {w : WorkflowRow} {v : VersionRow} (hs : db.Sound)
    (hf : registry.Fresh [.insertWorkflow w, .insertVersion v] db) (hv : v.workflowId = w.id) :
    (registry.applyAll [.insertWorkflow w, .insertVersion v] db).catalogue = db.catalogue.setPackage w.slug
      ⟨w.id, w.publisherId, w.title, w.description, w.tags, w.official, w.updatedAt, w.unlistedAt, [v.release], fun _ => none⟩ := by
  obtain ⟨hfw, hfv⟩ := fresh_cons hf
  have hnew : ∀ x ∈ db.workflows, x.id ≠ w.id := fun x hx he =>
    hfw.2 (.workflow w.id) (by simp [Write.claims]) ⟨x, hx, he⟩
  -- nothing is there under the new id
  have hversions : db.versionsOf w.id = [] := List.eq_nil_iff_forall_not_mem.mpr fun u hu => by
    obtain ⟨hu, huw⟩ := mem_versionsOf.mp hu
    obtain ⟨x, hx, he⟩ := hs.known u hu
    exact hnew x hx (he.trans huw)
  have hinstalls : (db.package w).installs = fun _ => none := funext fun i => installs_eq_none.mpr fun r hr h => by
    obtain ⟨u, hu, huw, -⟩ := hs.installed r hr
    obtain ⟨x, hx, he⟩ := hs.known u hu
    exact hnew x hx (he.trans (huw.trans h.1))
  refine catalogue_setPackage rfl rfl (Table.row_insert unique_workflow (not_has_workflow hfw)) (fun x hx _ => ?_) ?_
  · exact package_insertVersion_ne hfv (hv ▸ hnew x hx)
  · have hpk := package_insertVersion hfv hv.symm (by
      show ∀ u ∈ db.versionsOf w.id, _
      rw [hversions]
      simp)
    have hrel : (db.package w).releases = [] := by
      show (db.versionsOf w.id).reverse.map _ = []
      rw [hversions]
      rfl
    refine hpk.trans ?_
    show ({ db.package w with releases := (db.package w).releases ++ [v.release] } : Package) = _
    rw [hrel]
    show Package.mk _ _ _ _ _ _ _ _ _ (db.package w).installs = _
    rw [hinstalls]
    rfl

/-- What a withdrawal does to a version. -/
def withdrawn (id : Uuid) (n : ℤ) (now : Timestamp) (v : VersionRow) : VersionRow :=
  if v.workflowId = id ∧ v.version = n then { v with withdrawnAt := some now } else v

theorem withdrawn_same (id : Uuid) (n : ℤ) (now : Timestamp) (v : VersionRow) :
    (withdrawn id n now v).version = v.version ∧ (withdrawn id n now v).workflowId = v.workflowId := by
  unfold withdrawn
  split <;> exact ⟨rfl, rfl⟩

/-- The versions of every workflow. -/
theorem versionsOf_withdraw (id : Uuid) (n : ℤ) (now : Timestamp) (x : Uuid) :
    ((Write.withdrawVersion id n now).apply db).versionsOf x = (db.versionsOf x).map (withdrawn id n now) := by
  refine versionsOf_eq (List.pairwise_map.mpr ((versionsOf_sorted db x).imp fun h => ?_)) fun u => ?_
  · rwa [(withdrawn_same ..).1, (withdrawn_same ..).1]
  · have hmem : u ∈ ((Write.withdrawVersion id n now).apply db).versions ↔ ∃ v ∈ db.versions, withdrawn id n now v = u :=
      List.mem_map
    rw [List.mem_map, hmem]
    constructor
    · rintro ⟨v, hv, rfl⟩
      obtain ⟨hv, hvx⟩ := mem_versionsOf.mp hv
      exact ⟨⟨v, hv, rfl⟩, (withdrawn_same id n now v).2.trans hvx⟩
    · rintro ⟨⟨v, hv, rfl⟩, hx⟩
      exact ⟨v, mem_versionsOf.mpr ⟨hv, (withdrawn_same id n now v).2.symm.trans hx⟩, rfl⟩

/-- Those of another are as they were. -/
theorem package_withdraw_ne {id : Uuid} {w : WorkflowRow} (hw : w.id ≠ id) (n : ℤ) (now : Timestamp) :
    ((Write.withdrawVersion id n now).apply db).package w = db.package w := by
  have hsame : (db.versionsOf w.id).map (withdrawn id n now) = db.versionsOf w.id := by
    refine (List.map_congr_left fun v hv => if_neg fun h => ?_).trans (List.map_id _)
    exact hw ((mem_versionsOf.mp hv).2.symm.trans h.1)
  unfold package
  rw [versionsOf_withdraw, hsame]
  rfl

/-- By hand. -/
theorem catalogue_withdrawVersion {w : WorkflowRow} (hs : db.Sound) (hw : w ∈ db.workflows) (n : ℤ) (now : Timestamp) :
    ((Write.withdrawVersion w.id n now).apply db).catalogue =
      db.catalogue.setPackage w.slug ((db.package w).withdraw n now) := by
  refine catalogue_setPackage (w := w) rfl rfl (Table.update_row_self unique_workflow hw).symm
    (fun x hx hxs => package_withdraw_ne (id_ne_of_slug hw hx hxs) n now) ?_
  refine congrArg (Package.mk w.id w.publisherId w.title w.description w.tags w.official w.updatedAt w.unlistedAt · _) ?_
  show _ = (db.package w).numbered.map _
  rw [versionsOf_withdraw, numbered_package hs hw, List.map_map, ← List.map_reverse, List.map_map]
  refine List.map_congr_left fun v hv => ?_
  have hvw := (mem_versionsOf.mp (List.mem_reverse.mp hv)).2
  simp only [Function.comp_apply, withdrawn, hvw, true_and]
  split <;> rfl

/-- Of a workflow that is not there. -/
theorem catalogue_withdrawVersion_none {id : Uuid} (h : ∀ w ∈ db.workflows, w.id ≠ id) (n : ℤ) (now : Timestamp) :
    ((Write.withdrawVersion id n now).apply db).catalogue = db.catalogue := by
  refine congrArg (Catalogue.mk _ _) (funext fun u => ?_)
  show (db.workflows.row WorkflowRow.slug u).map _ = _
  cases hx : db.workflows.row WorkflowRow.slug u with
  | none => rfl
  | some x =>
    obtain ⟨hx, -⟩ := (Table.row_eq_some unique_workflow).mp hx
    rw [Option.map_some, Option.map_some, package_withdraw_ne (h x hx)]

/-! Installs. -/

/-- An `UPDATE` of the install. -/
theorem row_setInstall {x : InstallRow} {w i : Uuid} {f : InstallRow → InstallRow} (hx : x ∈ db.installs)
    (hw : x.workflowId = w) (hi : x.installationId = i) (hf : ∀ r, key (f r) = key r) :
    (db.installs.update (fun r => r.workflowId = w ∧ r.installationId = i) f hf).row InstallRow.place =
      Function.update (db.installs.row InstallRow.place) (w, i) (some (f x)) := by
  subst hw hi
  refine Table.row_update unique_install hx (fun r hr => ⟨fun h => InstallRow.eq_of_pair hr hx h.1 h.2, ?_⟩) ?_
  · rintro rfl
    exact ⟨rfl, rfl⟩
  · exact Prod.ext (congrArg InstallKey.workflowId (hf x)) (congrArg InstallKey.installationId (hf x))

/-- One place has changed. -/
theorem catalogue_installs {t : Table InstallRow} {w : WorkflowRow} {i : Uuid} {x : Option InstallRow} (hw : w ∈ db.workflows)
    (h : t.row InstallRow.place = Function.update (db.installs.row InstallRow.place) (w.id, i) x) :
    ({ db with installs := t } : Db).catalogue =
      db.catalogue.setPackage w.slug ((db.package w).setInstall i (x.map InstallRow.install)) := by
  refine catalogue_setPackage (w := w) rfl rfl (Table.update_row_self unique_workflow hw).symm (fun y hy hys => ?_) ?_
  · refine congrArg (Package.mk _ _ _ _ _ _ _ _ _) (funext fun j => ?_)
    rw [h, Function.update_of_ne fun he => id_ne_of_slug hw hy hys (congrArg Prod.fst he)]
  · refine congrArg (Package.mk _ _ _ _ _ _ _ _ _) (funext fun j => ?_)
    rw [h]
    by_cases hj : j = i
    · subst hj
      rw [Function.update_self, Function.update_self]
    · rw [Function.update_of_ne hj, Function.update_of_ne fun he => hj (congrArg Prod.snd he)]
      rfl

end Db
end HarnessRegistry

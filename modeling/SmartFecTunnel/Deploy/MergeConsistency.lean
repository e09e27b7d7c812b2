import Mathlib.Data.List.Perm.Basic
import SmartFecTunnel.Deploy.MergeLaws

/-!
Contract: tags and private keys of a merged configuration.

The spec is checked against itself, and objects are replaced within their own
section.  What is left of the configuration in one section is never compared with
what the spec has in another.

Owns: when the merged configuration has every tag and every private key once.

Does not own: the check of the whole configuration that `sing-box` makes before it
is put in place.
-/

namespace SmartFecTunnel.Deploy

open SmartFecTunnel.Library

/-- The tags of all sections. -/
def allTags (config : Value) : List Text :=
  Section.all.flatMap fun name => (sectionItems config.members name).filterMap tag?

/-- The private keys of the wireguard endpoints. -/
def wireguardKeys (config : Value) : List Text :=
  (sectionItems config.members .endpoints).filterMap wireguardKey?

/-- Every tag and every private key is there once. -/
structure Consistent (config : Value) : Prop where
  tags : (allTags config).Nodup
  identities : (wireguardKeys config).Nodup

/-- What the spec does not replace has no tag that it manages in another section, and no private
key of one of its endpoints. -/
structure NoClash (base spec : Value) : Prop where
  tags : ∀ name other, ∀ item ∈ sectionItems base.members name,
    isManaged (specTags spec name) item = false → isManaged (specTags spec other) item = false
  identities : ∀ endpoint ∈ sectionItems base.members .endpoints,
    isManaged (specTags spec .endpoints) endpoint = false →
      ∀ privateKey, wireguardKey? endpoint = some privateKey → privateKey ∉ wireguardKeys spec

theorem mem_allTags (spec : Spec) {tag : Text} :
    tag ∈ spec.allTags ↔ ∃ name, tag ∈ spec.tags name := by
  rw [Spec.allTags, List.mem_append, List.mem_append]
  constructor
  · rintro ((member | member) | member)
    · exact ⟨_, member⟩
    · exact ⟨_, member⟩
    · exact ⟨_, member⟩
  · rintro ⟨name, member⟩
    cases name with
    | inbounds => exact .inl (.inl member)
    | outbounds => exact .inl (.inr member)
    | endpoints => exact .inr member

theorem flatMap_sublist {α β : Type} {small large : α → List β}
    (sublists : ∀ element, (small element).Sublist (large element)) (list : List α) :
    (list.flatMap small).Sublist (list.flatMap large) := by
  induction list with
  | nil => exact List.Sublist.refl _
  | cons first list inductionHypothesis =>
      rw [List.flatMap_cons, List.flatMap_cons]
      exact (sublists first).append inductionHypothesis

section Kept

variable {spec : Spec} (valid : spec.Valid) {position : Position} (base : Members)

/-- The items of a section that are not replaced. -/
def Spec.keptItems (name : Section) : List Value :=
  (spec.sectionOverlay valid name).kept (sectionItems base name)

theorem keptItems_sublist (name : Section) :
    (spec.keptItems valid base name).Sublist (sectionItems base name) :=
  List.filter_sublist

theorem sectionItems_deploy_append (name : Section) :
    sectionItems (spec.deploy valid position base) name =
      spec.keptItems valid base name ++ spec.objects name :=
  sectionItems_deploy valid base name

theorem allTags_perm :
    (allTags (.object (spec.deploy valid position base))).Perm
      ((Section.all.flatMap fun name => (spec.keptItems valid base name).filterMap tag?) ++
        spec.allTags) := by
  have split : allTags (.object (spec.deploy valid position base)) =
      Section.all.flatMap fun name =>
        (spec.keptItems valid base name).filterMap tag? ++ spec.tags name := by
    unfold allTags
    congr 1
    funext name
    change (sectionItems (spec.deploy valid position base) name).filterMap tag? = _
    rw [sectionItems_deploy_append, List.filterMap_append, valid.filterMap_objects]
  have together : Section.all.flatMap spec.tags = spec.allTags := by
    simp [Section.all, Spec.allTags]
  rw [split, ← together]
  exact (List.flatMap_append_perm _ _ _).symm

theorem nodup_keptTags (distinct : (allTags (.object base)).Nodup) :
    (Section.all.flatMap fun name => (spec.keptItems valid base name).filterMap tag?).Nodup :=
  distinct.sublist
    (flatMap_sublist (fun name => (keptItems_sublist valid base name).filterMap tag?) _)

/-- The tags of the result are distinct if none of what is left is managed elsewhere. -/
theorem nodup_allTags_iff (distinct : (allTags (.object base)).Nodup) :
    (allTags (.object (spec.deploy valid position base))).Nodup ↔
      ∀ name other, ∀ item ∈ spec.keptItems valid base name,
        isManaged (spec.tags other) item = false := by
  rw [(allTags_perm valid base).nodup_iff, List.nodup_append]
  constructor
  · intro ⟨_, _, apart⟩ name other item kept
    rw [isManaged, Option.any_eq_false]
    intro tag isTag
    rw [decide_eq_false_iff_not]
    intro isManagedTag
    refine apart tag ?_ tag ?_ rfl
    · exact List.mem_flatMap.mpr ⟨name, name.mem_all, List.mem_filterMap.mpr ⟨item, kept, isTag⟩⟩
    · exact (mem_allTags spec).mpr ⟨other, isManagedTag⟩
  · intro unmanaged
    refine ⟨nodup_keptTags valid base distinct, valid.distinct, ?_⟩
    rintro tag isKept _ isManagedTag rfl
    obtain ⟨name, _, ofItem⟩ := List.mem_flatMap.mp isKept
    obtain ⟨item, kept, isTag⟩ := List.mem_filterMap.mp ofItem
    obtain ⟨other, inOther⟩ := (mem_allTags spec).mp isManagedTag
    have notManaged := unmanaged name other item kept
    rw [isManaged, isTag] at notManaged
    exact absurd inOther (of_decide_eq_false notManaged)

/-- The same for the private keys. -/
theorem nodup_wireguardKeys_iff (distinct : (wireguardKeys (.object base)).Nodup) :
    (wireguardKeys (.object (spec.deploy valid position base))).Nodup ↔
      ∀ endpoint ∈ spec.keptItems valid base .endpoints,
        ∀ privateKey, wireguardKey? endpoint = some privateKey →
          privateKey ∉ (spec.objects .endpoints).filterMap wireguardKey? := by
  have split : wireguardKeys (.object (spec.deploy valid position base)) =
      (spec.keptItems valid base .endpoints).filterMap wireguardKey? ++
        (spec.objects .endpoints).filterMap wireguardKey? := by
    change (sectionItems (spec.deploy valid position base) .endpoints).filterMap wireguardKey? = _
    rw [sectionItems_deploy_append, List.filterMap_append]
  rw [split, List.nodup_append]
  constructor
  · intro ⟨_, _, apart⟩ endpoint kept privateKey isKey inSpec
    exact apart privateKey (List.mem_filterMap.mpr ⟨endpoint, kept, isKey⟩) privateKey inSpec rfl
  · intro different
    refine ⟨distinct.sublist ((keptItems_sublist valid base .endpoints).filterMap wireguardKey?),
      valid.identities, ?_⟩
    rintro privateKey isKept _ inSpec rfl
    obtain ⟨endpoint, kept, isKey⟩ := List.mem_filterMap.mp isKept
    exact different endpoint kept privateKey isKey inSpec

end Kept

/-- A consistent configuration stays consistent exactly if nothing that is left of it clashes with
the spec. -/
theorem merge_consistent_iff (base spec : Document) {result : Value}
    (accepted : merge base.value spec.value = .ok result) (consistent : Consistent base.value) :
    Consistent result ↔ NoClash base.value spec.value := by
  obtain ⟨checked, valid, position, isBase, isSpec, merged⟩ := merge_ok spec.wellFormed accepted
  have tags := tags_eq valid merged.reads
  have kept : ∀ name item, item ∈ checked.keptItems valid base.value.members name ↔
      item ∈ sectionItems base.value.members name ∧
        isManaged (specTags spec.value name) item = false := by
    intro name item
    rw [Spec.keptItems, Overlay.kept, List.mem_filter, Bool.not_eq_true']
    change _ ∧ isManaged (checked.tags name) item = false ↔ _
    rw [tags name]
    rfl
  have keys : (checked.objects .endpoints).filterMap wireguardKey? = wireguardKeys spec.value := by
    rw [merged.reads.objects]
    rfl
  rw [isBase] at consistent
  have tagsIff := @nodup_allTags_iff checked valid position _ consistent.tags
  have keysIff := @nodup_wireguardKeys_iff checked valid position _ consistent.identities
  rw [merged.deployed]
  constructor
  · intro resultConsistent
    constructor
    case tags =>
      intro name other item member unmanaged
      have elsewhere := tagsIff.mp resultConsistent.tags name other item
        ((kept name item).mpr ⟨member, unmanaged⟩)
      rw [tags other] at elsewhere
      exact elsewhere
    case identities =>
      intro endpoint member unmanaged privateKey isKey
      rw [← keys]
      exact keysIff.mp resultConsistent.identities endpoint
        ((kept .endpoints endpoint).mpr ⟨member, unmanaged⟩) privateKey isKey
  · intro noClash
    constructor
    case tags =>
      refine tagsIff.mpr fun name other item isKept => ?_
      obtain ⟨member, unmanaged⟩ := (kept name item).mp isKept
      rw [tags other]
      exact noClash.tags name other item member unmanaged
    case identities =>
      refine keysIff.mpr fun endpoint isKept privateKey isKey => ?_
      obtain ⟨member, unmanaged⟩ := (kept .endpoints endpoint).mp isKept
      rw [keys]
      exact noClash.identities endpoint member unmanaged privateKey isKey

/-- A configuration with an outbound that has the tag of the managed inbound. -/
def clashConfig : Document where
  value := .object [(Section.outbounds.key, .array [warpInbound])]
  wellFormed := by
    simp only [warpInbound, Value.WellFormed, Value.WellFormedItems, Value.WellFormedMembers]
    decide

theorem consistent_clashConfig : Consistent clashConfig.value where
  tags := by decide
  identities := by decide

/-- The merge accepts it, and the tag is there twice. -/
theorem merge_clash :
    Consistent clashConfig.value ∧
      ∃ result, merge clashConfig.value (warpSpec "warp-a".toList).value = .ok result ∧
        ¬ Consistent result := by
  refine ⟨consistent_clashConfig, .object [(Section.outbounds.key, .array [warpInbound]),
    (Section.inbounds.key, .array [warpInbound]), (Section.endpoints.key, .array []),
    (routeKey, .object [(rulesKey, .array [warpRule "warp-a".toList]),
      (finalKey, .string "warp".toList)])], rfl, ?_⟩
  intro consistent
  exact absurd consistent.tags (by decide)

theorem consistent_userConfig : Consistent userConfig.value where
  tags := by decide
  identities := by decide

theorem merge_consistent_iff_warp :
    Consistent (warpConfig [warpRule "warp-a".toList, userRule]) ↔
      NoClash userConfig.value (warpSpec "warp-a".toList).value :=
  merge_consistent_iff userConfig (warpSpec "warp-a".toList) rfl consistent_userConfig

end SmartFecTunnel.Deploy

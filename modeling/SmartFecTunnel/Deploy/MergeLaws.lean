import SmartFecTunnel.Deploy.MergeSpec

/-!
Contract: what a deployment leaves of a configuration.

Owns: the result key by key, what it keeps of the configuration, and that the same
deployment again changes nothing.

Does not own: a deployment with other contents.
-/

namespace SmartFecTunnel.Deploy

open SmartFecTunnel.Library

/-! ### The merged configuration, key by key -/

section Deploy

variable {spec : Spec} (valid : spec.Valid) {position : Position}

theorem lookup_section_foldl {names : List Section} (distinct : names.Nodup) {name : Section}
    (member : name ∈ names) (result : Members) :
    (names.foldl (spec.deploySection valid) result).lookup name.key =
      some (.array ((spec.sectionOverlay valid name).apply (sectionItems result name))) := by
  induction names generalizing result with
  | nil => cases member
  | cons first names inductionHypothesis =>
      have ⟨fresh, distinct⟩ := List.nodup_cons.mp distinct
      rw [List.foldl_cons]
      rcases List.mem_cons.mp member with rfl | later
      · have untouched : ∀ other ∈ names, name.key ≠ other.key := by
          intro other later same
          rw [Section.key_injective same] at fresh
          exact fresh later
        rw [lookup_foldl_deploySection valid untouched, Spec.deploySection, Members.lookup_set,
          if_pos rfl]
      · have different : name ≠ first := by
          rintro rfl
          exact fresh later
        rw [inductionHypothesis distinct later, sectionItems,
          getArray_deploySection valid different, sectionItems]

theorem lookup_section_deploy (base : Members) (name : Section) :
    (spec.deploy valid position base).lookup name.key =
      some (.array ((spec.sectionOverlay valid name).apply (sectionItems base name))) := by
  unfold Spec.deploy
  rw [Members.lookup_set, if_neg name.key_ne_routeKey]
  exact lookup_section_foldl valid Section.nodup_all name.mem_all base

theorem getArray_deploy (base : Members) (name : Section) :
    getArray name.key (spec.deploy valid position base) =
      .array ((spec.sectionOverlay valid name).apply (sectionItems base name)) := by
  rw [getArray, lookup_section_deploy]
  rfl

theorem sectionItems_deploy (base : Members) (name : Section) :
    sectionItems (spec.deploy valid position base) name =
      (spec.sectionOverlay valid name).apply (sectionItems base name) := by
  rw [sectionItems, getArray_deploy]
  rfl

theorem lookup_route_deploy (base : Members) :
    (spec.deploy valid position base).lookup routeKey =
      some (.object (spec.deployRoute valid position (routeMembers base))) := by
  unfold Spec.deploy
  rw [Members.lookup_set, if_pos rfl, routeMembers_foldl]

theorem routeMembers_deploy (base : Members) :
    routeMembers (spec.deploy valid position base) =
      spec.deployRoute valid position (routeMembers base) := by
  rw [routeMembers, lookup_route_deploy]
  rfl

theorem lookup_final_deployRoute (route : Members) :
    (spec.deployRoute valid position route).lookup finalKey =
      spec.final.or (route.lookup finalKey) := by
  unfold Spec.deployRoute
  cases spec.final with
  | none =>
      dsimp only
      rw [Members.lookup_set, if_neg (by decide)]
      rfl
  | some final =>
      dsimp only
      rw [Members.lookup_set, if_pos rfl]
      rfl

theorem lookup_rules_deployRoute (route : Members) :
    (spec.deployRoute valid position route).lookup rulesKey =
      some (.array ((spec.ruleOverlay valid position).apply (routeRules route))) := by
  unfold Spec.deployRoute
  cases spec.final with
  | none => rw [Members.lookup_set, if_pos rfl]
  | some final => rw [Members.lookup_set, if_neg (by decide), Members.lookup_set, if_pos rfl]

theorem routeRules_deployRoute (route : Members) :
    routeRules (spec.deployRoute valid position route) =
      (spec.ruleOverlay valid position).apply (routeRules route) := by
  rw [routeRules, getArray, lookup_rules_deployRoute]
  rfl

/-- The keys that a deployment writes. -/
def deployedKeys : List Text := Section.all.map Section.key ++ [routeKey]

def otherMembers (keys : List Text) (members : Members) : Members :=
  members.filter fun member => member.1 ∉ keys

theorem otherMembers_set {keys : List Text} {key : Text} (written : key ∈ keys) (value : Value)
    (members : Members) : otherMembers keys (Members.set key value members) =
      otherMembers keys members :=
  Members.filter_set (fun key => decide (key ∉ keys)) (decide_eq_false (not_not_intro written)) value
    members

/-- No other key is touched. -/
theorem otherMembers_deploy (base : Members) :
    otherMembers deployedKeys (spec.deploy valid position base) =
      otherMembers deployedKeys base := by
  have sections : ∀ (names : List Section) (result : Members),
      otherMembers deployedKeys (names.foldl (spec.deploySection valid) result) =
        otherMembers deployedKeys result := by
    intro names
    induction names with
    | nil => exact fun _ => rfl
    | cons name names inductionHypothesis =>
        intro result
        have written : name.key ∈ deployedKeys := by cases name <;> decide
        rw [List.foldl_cons, inductionHypothesis, Spec.deploySection, otherMembers_set written]
  unfold Spec.deploy
  rw [otherMembers_set (by decide), sections]

theorem otherMembers_deployRoute (route : Members) :
    otherMembers [rulesKey, finalKey] (spec.deployRoute valid position route) =
      otherMembers [rulesKey, finalKey] route := by
  unfold Spec.deployRoute
  cases spec.final with
  | none => exact otherMembers_set (by decide) _ _
  | some final =>
      dsimp only
      rw [otherMembers_set (by decide), otherMembers_set (by decide)]

/-- The result can be merged again. -/
theorem mergeable_deploy {base : Members} (mergeable : Mergeable base) :
    Mergeable (spec.deploy valid position base) := by
  constructor
  case sections =>
    intro name
    rw [getArray_deploy, sectionItems_deploy]
  case taggable =>
    intro name item member
    rw [sectionItems_deploy] at member
    rcases Position.mem_place.mp member with added | kept
    · exact isTaggable_of_isManaged (isManaged_of_mem valid added)
    · exact mergeable.taggable name item (List.mem_of_mem_filter kept)
  case route =>
    rw [lookup_route_deploy, routeMembers_deploy]
    rfl
  case rules =>
    rw [routeMembers_deploy, routeRules_deployRoute, getArray, lookup_rules_deployRoute]
    rfl

/-! ### The same deployment again -/

theorem deploySection_deploy (base : Members) (name : Section) :
    spec.deploySection valid (spec.deploy valid position base) name =
      spec.deploy valid position base := by
  rw [Spec.deploySection, sectionItems_deploy, Overlay.apply_apply]
  exact Members.set_eq_self (lookup_section_deploy valid base name)

theorem deployRoute_deployRoute (route : Members) :
    spec.deployRoute valid position (spec.deployRoute valid position route) =
      spec.deployRoute valid position route := by
  have sameRules := Members.set_eq_self (@lookup_rules_deployRoute spec valid position route)
  have sameFinal := @lookup_final_deployRoute spec valid position route
  rw [Spec.deployRoute, routeRules_deployRoute, Overlay.apply_apply, sameRules]
  cases isFinal : spec.final with
  | none => rfl
  | some final =>
      rw [isFinal] at sameFinal
      exact Members.set_eq_self sameFinal

theorem deploy_deploy (base : Members) :
    spec.deploy valid position (spec.deploy valid position base) =
      spec.deploy valid position base := by
  have sections : ∀ names : List Section,
      names.foldl (spec.deploySection valid) (spec.deploy valid position base) =
        spec.deploy valid position base := by
    intro names
    induction names with
    | nil => rfl
    | cons name names inductionHypothesis =>
        rw [List.foldl_cons, deploySection_deploy, inductionHypothesis]
  rw [Spec.deploy, sections, routeMembers_deploy, deployRoute_deployRoute]
  exact Members.set_eq_self (lookup_route_deploy valid base)

/-! ### No key twice -/

theorem wellFormed_set {members : Members} (wellFormed : (Value.object members).WellFormed)
    (key : Text) {value : Value} (valueWellFormed : value.WellFormed) :
    (Value.object (Members.set key value members)).WellFormed := by
  have ⟨distinct, values⟩ := Value.wellFormed_object.mp wellFormed
  refine Value.wellFormed_object.mpr ⟨Members.nodup_keys_set distinct key value, ?_⟩
  intro member isMember
  rcases Members.mem_set isMember with rfl | old
  · exact valueWellFormed
  · exact values member old

theorem wellFormed_apply {overlay : Overlay Value} {existing : List Value}
    (additions : ∀ item ∈ overlay.additions, item.WellFormed)
    (items : ∀ item ∈ existing, item.WellFormed) :
    (Value.array (overlay.apply existing)).WellFormed := by
  refine Value.wellFormed_array.mpr fun item member => ?_
  rcases Position.mem_place.mp member with added | kept
  · exact additions item added
  · exact items item (List.mem_of_mem_filter kept)

theorem wellFormed_routeMembers {base : Members} (wellFormed : (Value.object base).WellFormed) :
    (Value.object (routeMembers base)).WellFormed := by
  have empty : (Value.object []).WellFormed := Value.wellFormed_object.mpr ⟨List.nodup_nil, nofun⟩
  unfold routeMembers
  cases found : base.lookup routeKey with
  | none => exact empty
  | some route =>
      have isWellFormed := wellFormed_lookup wellFormed found
      cases route with
      | object route => exact isWellFormed
      | _ => exact empty

theorem wellFormed_deployRoute {route : Members} (wellFormed : (Value.object route).WellFormed) :
    (Value.object (spec.deployRoute valid position route)).WellFormed := by
  have rules := wellFormed_set wellFormed rulesKey
    (@wellFormed_apply (spec.ruleOverlay valid position) _ valid.wellFormedRoutes
      (wellFormed_getArray wellFormed rulesKey))
  unfold Spec.deployRoute
  cases isFinal : spec.final with
  | none => exact rules
  | some final => exact wellFormed_set rules finalKey (valid.wellFormedFinal final isFinal)

theorem wellFormed_deploy {base : Members} (wellFormed : (Value.object base).WellFormed) :
    (Value.object (spec.deploy valid position base)).WellFormed := by
  have sections : ∀ (names : List Section) (result : Members),
      (Value.object result).WellFormed →
        (Value.object (names.foldl (spec.deploySection valid) result)).WellFormed := by
    intro names
    induction names with
    | nil => exact fun _ unchanged => unchanged
    | cons name names inductionHypothesis =>
        intro result resultWellFormed
        apply inductionHypothesis
        exact wellFormed_set resultWellFormed name.key
          (@wellFormed_apply (spec.sectionOverlay valid name) _ (valid.wellFormedObjects name)
            (wellFormed_getArray resultWellFormed name.key))
  have merged := sections Section.all base wellFormed
  exact wellFormed_set merged routeKey
    (wellFormed_deployRoute valid (wellFormed_routeMembers merged))

end Deploy

/-! ### One deployment -/

/-- The tags that a spec manages in a section, and its rules. -/
def specTags (spec : Value) (name : Section) : List Text :=
  (sectionItems spec.members name).filterMap tag?

def specRules (spec : Value) : List Value := (getArray routeRulesKey spec.members).items

def specPosition (spec : Value) : Value :=
  (spec.members.lookup routePositionKey).getD (.string "first".toList)

def specFinal (spec : Value) : Option Value := spec.members.lookup routeFinalKey

/-- What a deployment leaves of a configuration. -/
structure Lossless (base spec result : Value) : Prop where
  managed : ∀ name, ∀ tag ∈ specTags spec name, ∃ object ∈ sectionItems spec.members name,
    tag? object = some tag ∧
      (sectionItems result.members name).filter (fun item => tag? item = some tag) = [object]
  unmanaged : ∀ name,
    (sectionItems result.members name).filter (fun item => !isManaged (specTags spec name) item) =
      (sectionItems base.members name).filter fun item => !isManaged (specTags spec name) item
  rules : ∃ position, readPosition (specPosition spec) = .ok position ∧
    routeRules (routeMembers result.members) = position.place (specRules spec)
      ((routeRules (routeMembers base.members)).filter fun rule =>
        !isManagedRule (specRules spec) rule)
  final : (routeMembers result.members).lookup finalKey =
    (specFinal spec).or ((routeMembers base.members).lookup finalKey)
  otherRoute : otherMembers [rulesKey, finalKey] (routeMembers result.members) =
    otherMembers [rulesKey, finalKey] (routeMembers base.members)
  other : otherMembers deployedKeys result.members = otherMembers deployedKeys base.members

theorem tags_eq {members : Members} {spec : Spec} (valid : spec.Valid)
    (reads : spec.Reads members) (name : Section) :
    spec.tags name = specTags (.object members) name := by
  rw [← valid.filterMap_objects name, reads.objects name]
  rfl

theorem nodup_tags {spec : Spec} (valid : spec.Valid) (name : Section) :
    (spec.tags name).Nodup := by
  have ⟨front, endpoints, _⟩ := List.nodup_append.mp valid.distinct
  have ⟨inbounds, outbounds, _⟩ := List.nodup_append.mp front
  cases name with
  | inbounds => exact inbounds
  | outbounds => exact outbounds
  | endpoints => exact endpoints

/-- Of items with different tags, one has a given tag. -/
theorem filter_eq_singleton {items : List Value} (distinct : (items.filterMap tag?).Nodup)
    {object : Value} (member : object ∈ items) {tag : Text} (isTag : tag? object = some tag) :
    items.filter (fun item => tag? item = some tag) = [object] := by
  induction items with
  | nil => cases member
  | cons first items inductionHypothesis =>
      rw [List.filterMap_cons] at distinct
      rcases List.mem_cons.mp member with rfl | later
      · rw [isTag] at distinct
        have ⟨fresh, _⟩ := List.nodup_cons.mp distinct
        rw [List.filter_cons_of_pos (by simp [isTag])]
        congr 1
        rw [List.filter_eq_nil_iff]
        intro item isItem
        rw [decide_eq_true_eq]
        exact fun same => fresh (List.mem_filterMap.mpr ⟨item, isItem, same⟩)
      · cases isFirst : tag? first with
        | none =>
            rw [isFirst] at distinct
            rw [List.filter_cons_of_neg (by simp [isFirst])]
            exact inductionHypothesis distinct later
        | some other =>
            rw [isFirst] at distinct
            have ⟨fresh, distinct⟩ := List.nodup_cons.mp distinct
            have different : other ≠ tag := by
              rintro rfl
              exact fresh (List.mem_filterMap.mpr ⟨object, later, isTag⟩)
            rw [List.filter_cons_of_neg (by simp [isFirst, different])]
            exact inductionHypothesis distinct later

theorem lossless_deploy {base members : Members} {spec : Spec} {valid : spec.Valid}
    {position : Position} {result : Value} (merged : Merged base members spec valid position result) :
    Lossless (.object base) (.object members) result := by
  have reads := merged.reads
  have tags := tags_eq valid reads
  have routes : spec.routes = specRules (.object members) := reads.routes
  rw [merged.deployed]
  constructor
  case managed =>
    intro name tag isManagedTag
    obtain ⟨object, member, isTag⟩ := List.mem_filterMap.mp isManagedTag
    refine ⟨object, member, isTag, ?_⟩
    have distinct : (specTags (.object members) name).Nodup := by
      rw [← tags name]
      exact nodup_tags valid name
    -- whatever has the tag is managed, and what is managed comes from the spec
    have own := (spec.sectionOverlay valid name).managed_apply (sectionItems base name)
    rw [← filter_eq_singleton distinct member isTag]
    change (sectionItems (spec.deploy valid position base) name).filter _ =
      (getArray name.key members).items.filter _
    rw [sectionItems_deploy, ← reads.objects name]
    change _ = (spec.sectionOverlay valid name).additions.filter _
    rw [← own, List.filter_filter]
    refine List.filter_congr fun item _ => ?_
    by_cases hasTag : tag? item = some tag
    · have managed : isManaged (spec.tags name) item = true := by
        rw [isManaged, hasTag, tags name]
        exact decide_eq_true isManagedTag
      rw [decide_eq_true hasTag]
      exact managed.symm
    · rw [decide_eq_false hasTag]
      rfl
  case unmanaged =>
    intro name
    rw [← tags name]
    exact (congrArg _ (sectionItems_deploy valid base name)).trans
      ((spec.sectionOverlay valid name).kept_apply (sectionItems base name))
  case rules =>
    have isPosition := merged.isPosition
    rw [reads.position] at isPosition
    refine ⟨position, isPosition, ?_⟩
    rw [← routes]
    change routeRules (routeMembers (spec.deploy valid position base)) = _
    rw [routeMembers_deploy, routeRules_deployRoute]
    rfl
  case final =>
    change (routeMembers (spec.deploy valid position base)).lookup finalKey = _
    rw [routeMembers_deploy, lookup_final_deployRoute, reads.final]
    rfl
  case otherRoute =>
    change otherMembers _ (routeMembers (spec.deploy valid position base)) = _
    rw [routeMembers_deploy]
    exact otherMembers_deployRoute valid _
  case other => exact otherMembers_deploy valid base

theorem merge_lossless (base spec : Document) {result : Value}
    (accepted : merge base.value spec.value = .ok result) :
    merge result spec.value = .ok result ∧ result.WellFormed ∧
      Lossless base.value spec.value result := by
  obtain ⟨checked, valid, position, isBase, isSpec, merged⟩ := merge_ok spec.wellFormed accepted
  have baseWellFormed := base.wellFormed
  rw [isBase] at baseWellFormed ⊢
  rw [isSpec]
  refine ⟨?_, ?_, lossless_deploy merged⟩
  · have again := merge_eq valid merged.checked merged.isPosition
      (@mergeable_deploy checked valid position _ merged.mergeable)
    rw [deploy_deploy] at again
    rw [merged.deployed]
    exact again
  · rw [merged.deployed]
    exact wellFormed_deploy valid baseWellFormed

def userInbound : Value := .object [(tagKey, .string "reality".toList)]

def userRule : Value := .object [("ip_is_private".toList, .bool true)]

/-- A configuration with an inbound and a rule of the user. -/
def userConfig : Document where
  value := .object [(Section.inbounds.key, .array [userInbound]),
    (routeKey, .object [(rulesKey, .array [userRule])])]
  wellFormed := by
    simp only [userInbound, userRule, Value.WellFormed, Value.WellFormedItems,
      Value.WellFormedMembers]
    decide

def warpInbound : Value := .object [(tagKey, .string "tuic-inner".toList)]

def warpRule (outbound : Text) : Value := .object [("outbound".toList, .string outbound)]

/-- A spec with an inbound and a rule, which sends traffic to the given outbound. -/
def warpSpec (outbound : Text) : Document where
  value := .object [(Section.inbounds.key, .array [warpInbound]),
    (routeRulesKey, .array [warpRule outbound]), (routeFinalKey, .string "warp".toList)]
  wellFormed := by
    simp only [warpInbound, warpRule, Value.WellFormed, Value.WellFormedItems,
      Value.WellFormedMembers, List.map_cons, List.map_nil]
    decide

/-- What its deployments leave of the configuration, with the rules that are left. -/
def warpConfig (rules : List Value) : Value :=
  .object [(Section.inbounds.key, .array [userInbound, warpInbound]),
    (routeKey, .object [(rulesKey, .array rules), (finalKey, .string "warp".toList)]),
    (Section.outbounds.key, .array []), (Section.endpoints.key, .array [])]

theorem merge_lossless_warp :
    merge (warpConfig [warpRule "warp-a".toList, userRule]) (warpSpec "warp-a".toList).value =
        .ok (warpConfig [warpRule "warp-a".toList, userRule]) ∧
      (warpConfig [warpRule "warp-a".toList, userRule]).WellFormed ∧
      Lossless userConfig.value (warpSpec "warp-a".toList).value
        (warpConfig [warpRule "warp-a".toList, userRule]) :=
  merge_lossless userConfig (warpSpec "warp-a".toList) rfl

end SmartFecTunnel.Deploy

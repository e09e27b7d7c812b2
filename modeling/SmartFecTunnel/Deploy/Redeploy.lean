import SmartFecTunnel.Deploy.MergeLaws

/-!
Contract: a deployment after another one that manages the same tags.

Objects are recognised by their tags, but a rule only by being equal to a rule of
the spec, so that the rules of an earlier spec are rules of the user for a later
one.

Owns: what a changed deployment makes of an earlier one, and when nothing of the
earlier one is left.

Does not own: specs that manage different tags.
-/

namespace SmartFecTunnel.Deploy

open SmartFecTunnel.Library

/-! ### Keys -/

/-- The keys after a key has been set. -/
def addKey (keys : List Text) (key : Text) : List Text :=
  if key ∈ keys then keys else keys ++ [key]

theorem mem_addKey {keys : List Text} {key other : Text} :
    other ∈ addKey keys key ↔ other = key ∨ other ∈ keys := by
  unfold addKey
  split
  next present =>
    constructor
    · exact .inr
    · rintro (rfl | member)
      · exact present
      · exact member
  next => rw [List.mem_append, List.mem_singleton, or_comm]

theorem addKey_of_mem {keys : List Text} {key : Text} (present : key ∈ keys) :
    addKey keys key = keys :=
  if_pos present

section Keys

variable {spec : Spec} (valid : spec.Valid) {position : Position}

theorem keys_deploy (base : Members) :
    Members.keys (spec.deploy valid position base) = deployedKeys.foldl addKey base.keys := by
  have sections : ∀ (names : List Section) (result : Members),
      Members.keys (names.foldl (spec.deploySection valid) result) =
        (names.map Section.key).foldl addKey result.keys := by
    intro names
    induction names with
    | nil => exact fun _ => rfl
    | cons name names inductionHypothesis =>
        intro result
        rw [List.foldl_cons, inductionHypothesis, List.map_cons, List.foldl_cons]
        congr 1
        exact Members.keys_set name.key _ result
  unfold Spec.deploy deployedKeys
  rw [List.foldl_append, ← sections]
  exact Members.keys_set routeKey _ _

theorem keys_deployRoute (route : Members) :
    Members.keys (spec.deployRoute valid position route) =
      if spec.final.isSome then addKey (addKey route.keys rulesKey) finalKey
      else addKey route.keys rulesKey := by
  unfold Spec.deployRoute
  cases spec.final with
  | none => exact Members.keys_set rulesKey _ route
  | some final =>
      dsimp only
      rw [Members.keys_set, Members.keys_set]
      rfl

theorem foldl_addKey_of_subset {keys added : List Text} (present : ∀ key ∈ added, key ∈ keys) :
    added.foldl addKey keys = keys := by
  induction added with
  | nil => rfl
  | cons key added inductionHypothesis =>
      rw [List.foldl_cons, addKey_of_mem (present key List.mem_cons_self)]
      exact inductionHypothesis fun other member => present other (List.mem_cons_of_mem _ member)

theorem mem_foldl_addKey {keys added : List Text} {key : Text} :
    key ∈ added.foldl addKey keys ↔ key ∈ added ∨ key ∈ keys := by
  induction added generalizing keys with
  | nil => simp
  | cons first added inductionHypothesis =>
      rw [List.foldl_cons, inductionHypothesis, mem_addKey, List.mem_cons]
      tauto

theorem nodup_addKey {keys : List Text} (distinct : keys.Nodup) (key : Text) :
    (addKey keys key).Nodup := by
  unfold addKey
  split
  next => exact distinct
  next fresh => exact distinct.append (List.nodup_singleton key) (by simpa using fresh)

theorem nodup_foldl_addKey {keys added : List Text} (distinct : keys.Nodup) :
    (added.foldl addKey keys).Nodup := by
  induction added generalizing keys with
  | nil => exact distinct
  | cons key added inductionHypothesis => exact inductionHypothesis (nodup_addKey distinct key)

theorem nodup_keys_deployRoute {route : Members} (distinct : route.keys.Nodup) :
    (Members.keys (spec.deployRoute valid position route)).Nodup := by
  rw [keys_deployRoute]
  split
  next => exact nodup_addKey (nodup_addKey distinct rulesKey) finalKey
  next => exact nodup_addKey distinct rulesKey

theorem lookup_other_deployRoute {key : Text} (notRules : key ≠ rulesKey)
    (notFinal : key ≠ finalKey) (route : Members) :
    (spec.deployRoute valid position route).lookup key = route.lookup key := by
  unfold Spec.deployRoute
  cases spec.final with
  | none => rw [Members.lookup_set, if_neg notRules]
  | some final => rw [Members.lookup_set, if_neg notFinal, Members.lookup_set, if_neg notRules]

theorem lookup_other_deploy {key : Text} (other : key ∉ deployedKeys) (base : Members) :
    (spec.deploy valid position base).lookup key = base.lookup key := by
  have notRoute : key ≠ routeKey := by
    rintro rfl
    exact other (by decide)
  unfold Spec.deploy
  rw [Members.lookup_set, if_neg notRoute, lookup_foldl_deploySection]
  rintro name _ rfl
  exact other (List.mem_append_left _ (List.mem_map_of_mem name.mem_all))

end Keys

/-- The configuration with other rules. -/
def withRules (config : Members) (rules : List Value) : Members :=
  Members.set routeKey
    (.object (Members.set rulesKey (.array rules) (routeMembers config))) config

section Redeploy

variable {earlier later : Spec} (earlierValid : earlier.Valid) (laterValid : later.Valid)
  {position : Position}

theorem deployRoute_redeploy (sameFinal : earlier.final = later.final) {route : Members}
    (distinct : route.keys.Nodup) :
    later.deployRoute laterValid position (earlier.deployRoute earlierValid position route) =
      Members.set rulesKey (.array ((later.ruleOverlay laterValid position).apply
        ((earlier.ruleOverlay earlierValid position).apply (routeRules route))))
        (later.deployRoute laterValid position route) := by
  apply Members.eq_of_keys_of_lookup
  · rw [Members.keys_set, keys_deployRoute, keys_deployRoute, keys_deployRoute, sameFinal]
    cases later.final with
    | none => simp [addKey_of_mem, mem_addKey]
    | some final => simp [addKey_of_mem, mem_addKey]
  · exact nodup_keys_deployRoute laterValid (nodup_keys_deployRoute earlierValid distinct)
  · intro key
    rw [Members.lookup_set]
    by_cases isRules : key = rulesKey
    · rw [if_pos isRules, isRules, lookup_rules_deployRoute, routeRules_deployRoute]
    · rw [if_neg isRules]
      by_cases isFinal : key = finalKey
      · rw [isFinal, lookup_final_deployRoute, lookup_final_deployRoute,
          lookup_final_deployRoute, sameFinal]
        cases later.final with
        | none => rfl
        | some final => rfl
      · rw [lookup_other_deployRoute laterValid isRules isFinal,
          lookup_other_deployRoute earlierValid isRules isFinal,
          lookup_other_deployRoute laterValid isRules isFinal]

theorem deploy_redeploy
    (sameManaged : ∀ name, isManaged (later.tags name) = isManaged (earlier.tags name))
    (sameFinal : earlier.final = later.final) {base : Members}
    (wellFormed : (Value.object base).WellFormed) :
    later.deploy laterValid position (earlier.deploy earlierValid position base) =
      withRules (later.deploy laterValid position base)
        ((later.ruleOverlay laterValid position).apply
          ((earlier.ruleOverlay earlierValid position).apply (routeRules (routeMembers base)))) := by
  have distinct := (Value.wellFormed_object.mp wellFormed).1
  have routeDistinct := (Value.wellFormed_object.mp (wellFormed_routeMembers wellFormed)).1
  have everyKey : ∀ key ∈ deployedKeys, key ∈ deployedKeys.foldl addKey base.keys :=
    fun key member => mem_foldl_addKey.mpr (.inl member)
  apply Members.eq_of_keys_of_lookup
  · rw [withRules, Members.keys_set, keys_deploy, keys_deploy, keys_deploy,
      foldl_addKey_of_subset everyKey, if_pos (everyKey routeKey (by decide))]
  · rw [keys_deploy, keys_deploy, foldl_addKey_of_subset everyKey]
    exact nodup_foldl_addKey distinct
  · intro key
    rw [withRules, Members.lookup_set]
    by_cases isRoute : key = routeKey
    · rw [if_pos isRoute, isRoute, lookup_route_deploy, routeMembers_deploy, routeMembers_deploy,
        deployRoute_redeploy earlierValid laterValid sameFinal routeDistinct]
    · rw [if_neg isRoute]
      by_cases isSection : ∃ name : Section, key = name.key
      · obtain ⟨name, rfl⟩ := isSection
        rw [lookup_section_deploy, lookup_section_deploy, sectionItems_deploy,
          Overlay.apply_of_managed_eq (sameManaged name)]
      · have other : key ∉ deployedKeys := by
          intro member
          rcases List.mem_append.mp member with ofSection | ofRoute
          · obtain ⟨name, _, isName⟩ := List.mem_map.mp ofSection
            exact isSection ⟨name, isName.symm⟩
          · exact isRoute (List.mem_singleton.mp ofRoute)
        rw [lookup_other_deploy laterValid other, lookup_other_deploy earlierValid other,
          lookup_other_deploy laterValid other]

end Redeploy

theorem routeRules_withRules (config : Members) (rules : List Value) :
    routeRules (routeMembers (withRules config rules)) = rules := by
  unfold withRules routeMembers
  rw [Members.lookup_set, if_pos rfl]
  change (getArray rulesKey (Members.set rulesKey (.array rules) _)).items = rules
  rw [getArray, Members.lookup_set, if_pos rfl]
  rfl

theorem withRules_deploy {spec : Spec} (valid : spec.Valid) (position : Position)
    (base : Members) :
    withRules (spec.deploy valid position base) ((spec.ruleOverlay valid position).apply
      (routeRules (routeMembers base))) = spec.deploy valid position base := by
  have rules := @lookup_rules_deployRoute spec valid position (routeMembers base)
  rw [withRules, routeMembers_deploy, Members.set_eq_self rules]
  exact Members.set_eq_self (lookup_route_deploy valid base)

/-- The earlier deployment is gone exactly if the rules are those of the later one alone. -/
theorem deploy_redeploy_iff {earlier later : Spec} (earlierValid : earlier.Valid)
    (laterValid : later.Valid) {position : Position} {base : Members}
    (foreign : ∀ rule ∈ routeRules (routeMembers base),
      isManagedRule earlier.routes rule = false) :
    withRules (later.deploy laterValid position base)
        ((later.ruleOverlay laterValid position).apply
          ((earlier.ruleOverlay earlierValid position).apply (routeRules (routeMembers base)))) =
      later.deploy laterValid position base ↔
    ∀ rule ∈ earlier.routes, isManagedRule later.routes rule = true := by
  have onRules := @Overlay.apply_redeploy_iff _ (earlier.ruleOverlay earlierValid position)
    (later.ruleOverlay laterValid position) _ foreign
  refine Iff.trans ?_ onRules
  constructor
  · intro same
    have sameRules := congrArg (routeRules ∘ routeMembers) same
    rw [Function.comp_apply, Function.comp_apply, routeRules_withRules, routeMembers_deploy,
      routeRules_deployRoute] at sameRules
    exact sameRules
  · intro sameRules
    rw [sameRules]
    exact withRules_deploy laterValid position base

/-- The rules that a second deployment leaves: its own, and between them and those of the
configuration the ones of the first that it does not manage. -/
def redeployedRules (position : Position) (base first second : Value) : List Value :=
  position.place (specRules second)
    (position.place
      ((specRules first).filter fun rule => !isManagedRule (specRules second) rule)
      ((routeRules (routeMembers base.members)).filter fun rule =>
        !isManagedRule (specRules second) rule))

/-- A second deployment with the same tags, position and final outbound.  It replaces all objects
of the first, but only those of its rules that are equal to one of its own. -/
theorem merge_redeploy (base first second : Document) {deployed replaced : Value}
    (firstAccepted : merge base.value first.value = .ok deployed)
    (secondAccepted : merge base.value second.value = .ok replaced)
    (sameTags : ∀ name tag, tag ∈ specTags first.value name ↔ tag ∈ specTags second.value name)
    (samePosition : specPosition first.value = specPosition second.value)
    (sameFinal : specFinal first.value = specFinal second.value)
    (foreign : ∀ rule ∈ routeRules (routeMembers base.value.members),
      isManagedRule (specRules first.value) rule = false) :
    ∃ position redeployed, readPosition (specPosition second.value) = .ok position ∧
      merge deployed second.value = .ok redeployed ∧
      redeployed = .object (withRules replaced.members
        (redeployedRules position base.value first.value second.value)) ∧
      (redeployed = replaced ↔
        ∀ rule ∈ specRules first.value, isManagedRule (specRules second.value) rule = true) := by
  obtain ⟨earlier, earlierValid, position, isBase, _, merged⟩ :=
    merge_ok first.wellFormed firstAccepted
  obtain ⟨later, laterValid, laterPosition, _, isSecond, laterMerged⟩ :=
    merge_ok second.wellFormed secondAccepted
  have isPosition := laterMerged.isPosition
  have isEarlierPosition := merged.isPosition
  rw [laterMerged.reads.position] at isPosition
  rw [merged.reads.position] at isEarlierPosition
  change readPosition (specPosition first.value) = _ at isEarlierPosition
  rw [samePosition] at isEarlierPosition
  obtain rfl : position = laterPosition :=
    Except.ok.inj (isEarlierPosition.symm.trans isPosition)
  have routes : earlier.routes = specRules first.value := merged.reads.routes
  have laterRoutes : later.routes = specRules second.value := laterMerged.reads.routes
  have sameManaged : ∀ name, isManaged (later.tags name) = isManaged (earlier.tags name) := by
    intro name
    funext item
    rw [isManaged, isManaged, tags_eq earlierValid merged.reads name,
      tags_eq laterValid laterMerged.reads name]
    congr 1
    funext tag
    exact decide_eq_decide.mpr (sameTags name tag).symm
  have specFinals : earlier.final = later.final :=
    merged.reads.final.trans (sameFinal.trans laterMerged.reads.final.symm)
  have baseWellFormed := base.wellFormed
  rw [isBase] at baseWellFormed
  rw [← routes] at foreign
  have again := merge_eq laterValid laterMerged.checked laterMerged.isPosition
    (@mergeable_deploy earlier earlierValid position _ merged.mergeable)
  rw [deploy_redeploy earlierValid laterValid sameManaged specFinals baseWellFormed] at again
  have rules : (later.ruleOverlay laterValid position).apply
      ((earlier.ruleOverlay earlierValid position).apply
        (routeRules (routeMembers base.value.members))) =
      redeployedRules position base.value first.value second.value := by
    rw [Overlay.apply_redeploy foreign, redeployedRules, ← routes, ← laterRoutes]
    rfl
  have gone := @deploy_redeploy_iff earlier later earlierValid laterValid position _ foreign
  rw [rules] at again gone
  rw [merged.deployed, laterMerged.deployed, ← routes, ← laterRoutes, isSecond]
  refine ⟨position, _, isPosition, again, rfl, ?_⟩
  rw [Value.object.injEq]
  exact gone

section Warp

/-- Two specs that differ in the outbound of their rule. -/
def warpA : Document := warpSpec "warp-a".toList
def warpB : Document := warpSpec "warp-b".toList

theorem specTags_warp (left right : Text) (name : Section) :
    specTags (warpSpec left).value name = specTags (warpSpec right).value name := by
  cases name with
  | inbounds => rfl
  | outbounds => rfl
  | endpoints => rfl

theorem specPosition_warp (left right : Text) :
    specPosition (warpSpec left).value = specPosition (warpSpec right).value :=
  rfl

theorem specFinal_warp (left right : Text) :
    specFinal (warpSpec left).value = specFinal (warpSpec right).value :=
  rfl

theorem userRules_foreign : ∀ rule ∈ routeRules (routeMembers userConfig.value.members),
    isManagedRule (specRules warpA.value) rule = false :=
  List.forall_mem_singleton.mpr rfl

/-- A later spec sends the traffic to another outbound, and the rule of the earlier one stays. -/
theorem merge_redeploy_stale :
    (∀ name, specTags warpA.value name = specTags warpB.value name) ∧
    specPosition warpA.value = specPosition warpB.value ∧
    specFinal warpA.value = specFinal warpB.value ∧
    (∀ rule ∈ routeRules (routeMembers userConfig.value.members),
      isManagedRule (specRules warpA.value) rule = false) ∧
    ∃ deployed replaced redeployed, merge userConfig.value warpA.value = .ok deployed ∧
      merge userConfig.value warpB.value = .ok replaced ∧
      merge deployed warpB.value = .ok redeployed ∧
      redeployed.same replaced = false ∧ redeployed ≠ replaced := by
  refine ⟨specTags_warp _ _, specPosition_warp _ _, specFinal_warp _ _, userRules_foreign,
    warpConfig [warpRule "warp-a".toList, userRule],
    warpConfig [warpRule "warp-b".toList, userRule],
    warpConfig [warpRule "warp-b".toList, warpRule "warp-a".toList, userRule],
    rfl, rfl, rfl, rfl, ?_⟩
  simp [warpConfig]

theorem merge_redeploy_warp :
    ∃ position redeployed, readPosition (specPosition warpB.value) = .ok position ∧
      merge (warpConfig [warpRule "warp-a".toList, userRule]) warpB.value = .ok redeployed ∧
      redeployed = .object (withRules (warpConfig [warpRule "warp-b".toList, userRule]).members
        (redeployedRules position userConfig.value warpA.value warpB.value)) ∧
      (redeployed = warpConfig [warpRule "warp-b".toList, userRule] ↔
        ∀ rule ∈ specRules warpA.value, isManagedRule (specRules warpB.value) rule = true) :=
  merge_redeploy userConfig warpA warpB rfl rfl
    (fun name tag => iff_of_eq (congrArg (tag ∈ ·) (specTags_warp _ _ name)))
    (specPosition_warp _ _) (specFinal_warp _ _) userRules_foreign

end Warp

end SmartFecTunnel.Deploy

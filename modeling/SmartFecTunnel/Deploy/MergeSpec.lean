import SmartFecTunnel.Deploy.Merge
import SmartFecTunnel.Library.FirstError

/-!
Contract: what a successful merge computes.

The merge is three overlays by tag and one by equality of rules.  Each of them
manages its own elements, which the checks of the spec ensure.

Owns:
- `Spec.Valid`, what a spec that passed the checks is, and the overlays it has;
- `Spec.deploy`, the result, and `Spec.Accepts`, when there is one.

Does not own: what follows for a configuration.
-/

namespace SmartFecTunnel.Deploy

open SmartFecTunnel.Library

/-! ### Tags -/

def isManaged (tags : List Text) (item : Value) : Bool :=
  (tag? item).any fun tag => tag ∈ tags

/-- Its tag can be looked up in a set. -/
def isTaggable : Value → Bool
  | .object members =>
    match members.lookup tagKey with
    | some (.array _) => false
    | some (.object _) => false
    | _ => true
  | _ => false

theorem hasManagedTag_eq {item : Value} (taggable : isTaggable item = true) (tags : List Text) :
    hasManagedTag tags item = .ok (isManaged tags item) := by
  cases item with
  | object members =>
      unfold isTaggable at taggable
      unfold hasManagedTag isManaged tag? Value.stringMember Value.members
      dsimp only at *
      cases found : members.lookup tagKey with
      | none => rfl
      | some tag =>
          rw [found] at taggable
          cases tag with
          | array items => cases taggable
          | object members => cases taggable
          | string tag => rfl
          | _ => rfl
  | _ => cases taggable

theorem isTaggable_of_hasManagedTag {item : Value} {tags : List Text} {managed : Bool}
    (answered : hasManagedTag tags item = .ok managed) : isTaggable item = true := by
  cases item with
  | object members =>
      unfold hasManagedTag at answered
      unfold isTaggable
      dsimp only at *
      cases found : members.lookup tagKey with
      | none => rfl
      | some tag =>
          rw [found] at answered
          cases tag with
          | array items => cases answered
          | object members => cases answered
          | _ => rfl
  | _ => cases answered

theorem isTaggable_of_isManaged {item : Value} {tags : List Text}
    (managed : isManaged tags item = true) : isTaggable item = true := by
  cases item with
  | object members =>
      unfold isManaged tag? Value.stringMember Value.members at managed
      unfold isTaggable
      dsimp only at *
      cases found : members.lookup tagKey with
      | none => rfl
      | some value =>
          rw [found] at managed
          cases value with
          | array items => cases managed
          | object members => cases managed
          | _ => rfl
  | _ => cases managed

theorem keptItems_eq {items : List Value} (taggable : ∀ item ∈ items, isTaggable item = true)
    (tags : List Text) :
    keptItems tags items = .ok (items.filter fun item => !isManaged tags item) := by
  induction items with
  | nil => rfl
  | cons item items inductionHypothesis =>
      have rest := inductionHypothesis fun other member =>
        taggable other (List.mem_cons_of_mem _ member)
      rw [keptItems, hasManagedTag_eq (taggable item List.mem_cons_self), rest, List.filter_cons]
      cases isManaged tags item with
      | true => rfl
      | false => rfl

theorem isTaggable_of_keptItems {items kept : List Value} {tags : List Text}
    (found : keptItems tags items = .ok kept) : ∀ item ∈ items, isTaggable item = true := by
  induction items generalizing kept with
  | nil =>
      intro item impossible
      cases impossible
  | cons item items inductionHypothesis =>
      rw [keptItems] at found
      cases first : hasManagedTag tags item with
      | error error =>
          rw [first] at found
          cases found
      | ok managed =>
          cases rest : keptItems tags items with
          | error error =>
              rw [first, rest] at found
              cases found
          | ok keptRest =>
              intro other member
              rcases List.mem_cons.mp member with rfl | later
              · exact isTaggable_of_hasManagedTag first
              · exact inductionHypothesis rest other later

/-! ### A checked spec -/

theorem itemTag_ok {label : Text} {item : Value} {tag : Text}
    (checked : itemTag label item = .ok tag) : tag? item = some tag := by
  unfold itemTag at checked
  split at checked
  next found =>
    cases checked
    exact found
  next => cases checked

theorem tagged_ok {items : Value} {label : Text} {tags : List Text}
    (checked : tagged items label = .ok tags) :
    items.items.map tag? = tags.map some ∧ tags.Nodup := by
  cases items with
  | array items =>
      obtain ⟨collected, isCollected, isDistinct⟩ := bind_eq_ok_iff.mp checked
      obtain ⟨distinct, same⟩ := ite_error_eq_ok_iff.mp isDistinct
      cases same
      exact ⟨map_eq_of_mapM (fun _ _ => itemTag_ok) isCollected, distinct⟩
  | _ => cases checked

/-- The private key of a wireguard endpoint that has one. -/
def wireguardKey? (endpoint : Value) : Option Text :=
  if isWireguard endpoint = true then endpoint.stringMember privateKeyKey else none

theorem wireguardIdentity_ok {endpoint : Value} {identity : Option Text}
    (checked : wireguardIdentity endpoint = .ok identity) : wireguardKey? endpoint = identity := by
  unfold wireguardIdentity wireguardIdentity.missing at checked
  unfold wireguardKey?
  split at checked
  next other =>
    cases checked
    rw [if_neg (by rw [other]; exact Bool.false_ne_true)]
  next wireguard =>
    rw [if_pos (Bool.not_eq_false _ ▸ wireguard)]
    split at checked
    next privateKey found =>
      split at checked
      next => cases checked
      next =>
        cases checked
        exact found
    next => cases checked

theorem validateWireguardIdentities_ok {endpoints : List Value}
    (checked : validateWireguardIdentities endpoints = .ok ()) :
    (endpoints.filterMap wireguardKey?).Nodup := by
  obtain ⟨identities, collected, isDistinct⟩ := bind_eq_ok_iff.mp checked
  obtain ⟨distinct, _⟩ := ite_error_eq_ok_iff.mp isDistinct
  have same : endpoints.map wireguardKey? = identities.map id :=
    map_eq_of_mapM (fun _ _ => wireguardIdentity_ok) collected
  have keys : identities.reduceOption = endpoints.filterMap wireguardKey? :=
    calc identities.filterMap id
      _ = (endpoints.map wireguardKey?).filterMap id := by rw [same, List.map_id]
      _ = endpoints.filterMap wireguardKey? := List.filterMap_map
  rw [← keys]
  exact distinct

/-- All managed tags. -/
def Spec.allTags (spec : Spec) : List Text :=
  spec.tags .inbounds ++ spec.tags .outbounds ++ spec.tags .endpoints

/-- What the checks of `merge` make sure of. -/
structure Spec.Valid (spec : Spec) : Prop where
  tagged : ∀ name, (spec.objects name).map tag? = (spec.tags name).map some
  distinct : spec.allTags.Nodup
  identities : ((spec.objects .endpoints).filterMap wireguardKey?).Nodup
  wellFormedObjects : ∀ name, ∀ item ∈ spec.objects name, item.WellFormed
  wellFormedRoutes : ∀ rule ∈ spec.routes, rule.WellFormed
  wellFormedFinal : ∀ final, spec.final = some final → final.WellFormed

theorem Spec.Valid.filterMap_objects {spec : Spec} (valid : spec.Valid) (name : Section) :
    (spec.objects name).filterMap tag? = spec.tags name := by
  have tagged := congrArg (List.filterMap id) (valid.tagged name)
  rw [List.filterMap_map, List.filterMap_map] at tagged
  exact tagged.trans List.filterMap_some

/-- The parts of the spec that a checked spec has. -/
structure Spec.Reads (spec : Spec) (members : Members) : Prop where
  objects : ∀ name, spec.objects name = (getArray name.key members).items
  routes : spec.routes = (getArray routeRulesKey members).items
  position : spec.position = (members.lookup routePositionKey).getD (.string "first".toList)
  final : spec.final = members.lookup routeFinalKey

theorem wellFormed_lookup {members : Members} (wellFormed : (Value.object members).WellFormed)
    {key : Text} {value : Value} (found : members.lookup key = some value) : value.WellFormed :=
  (Value.wellFormed_object.mp wellFormed).2 (key, value) (Members.mem_of_lookup found)

theorem wellFormed_getArray {members : Members} (wellFormed : (Value.object members).WellFormed)
    (key : Text) : ∀ item ∈ (getArray key members).items, item.WellFormed := by
  unfold getArray
  cases found : members.lookup key with
  | none =>
      intro item impossible
      cases impossible
  | some value =>
      have isWellFormed := wellFormed_lookup wellFormed found
      cases value with
      | array items => exact Value.wellFormed_array.mp isWellFormed
      | _ =>
          intro item impossible
          cases impossible

theorem checkSpec_ok {members : Members} {spec : Spec}
    (wellFormed : (Value.object members).WellFormed) (checked : checkSpec members = .ok spec) :
    spec.Valid ∧ spec.Reads members := by
  obtain ⟨inboundTags, inbounds, checked⟩ := bind_eq_ok_iff.mp checked
  obtain ⟨outboundTags, outbounds, checked⟩ := bind_eq_ok_iff.mp checked
  obtain ⟨endpointTags, endpoints, checked⟩ := bind_eq_ok_iff.mp checked
  obtain ⟨_, identities, checked⟩ := bind_eq_ok_iff.mp checked
  split at checked
  next => cases checked
  next distinct =>
    split at checked
    next routes isRoutes =>
      obtain ⟨_, same⟩ := ite_error_eq_ok_iff.mp checked
      cases same
      constructor
      · constructor
        case tagged =>
          intro name
          cases name with
          | inbounds => exact (tagged_ok inbounds).1
          | outbounds => exact (tagged_ok outbounds).1
          | endpoints => exact (tagged_ok endpoints).1
        case distinct => exact not_not.mp distinct
        case identities => exact validateWireguardIdentities_ok identities
        case wellFormedObjects => exact fun name => wellFormed_getArray wellFormed name.key
        case wellFormedFinal => exact fun _ found => wellFormed_lookup wellFormed found
        case wellFormedRoutes =>
          have all := wellFormed_getArray wellFormed routeRulesKey
          rw [isRoutes] at all
          exact all
      · constructor
        case objects => exact fun _ => rfl
        case routes => rw [isRoutes]; rfl
        case position => rfl
        case final => rfl
    next => cases checked

/-! ### The overlays of a spec -/

theorem isManaged_of_mem {spec : Spec} (valid : spec.Valid) {name : Section} {item : Value}
    (member : item ∈ spec.objects name) : isManaged (spec.tags name) item = true := by
  have inTags : tag? item ∈ (spec.tags name).map some := by
    rw [← valid.tagged name]
    exact List.mem_map_of_mem member
  obtain ⟨tag, isTag, found⟩ := List.mem_map.mp inTags
  rw [isManaged, ← found]
  exact decide_eq_true isTag

theorem isManagedRule_of_mem {spec : Spec} (valid : spec.Valid) {rule : Value}
    (member : rule ∈ spec.routes) : isManagedRule spec.routes rule = true :=
  List.any_eq_true.mpr ⟨rule, member, Value.same_self rule (valid.wellFormedRoutes rule member)⟩

def Spec.sectionOverlay (spec : Spec) (valid : spec.Valid) (name : Section) : Overlay Value where
  managed := isManaged (spec.tags name)
  position := .last
  additions := spec.objects name
  owned _ := isManaged_of_mem valid

def Spec.ruleOverlay (spec : Spec) (valid : spec.Valid) (position : Position) : Overlay Value where
  managed := isManagedRule spec.routes
  position := position
  additions := spec.routes
  owned _ := isManagedRule_of_mem valid

/-- The items of a section of a configuration. -/
def sectionItems (members : Members) (name : Section) : List Value :=
  (getArray name.key members).items

def routeMembers (members : Members) : Members :=
  ((members.lookup routeKey).getD (.object [])).members

def routeRules (route : Members) : List Value := (getArray rulesKey route).items

section Deploy

variable (spec : Spec) (valid : spec.Valid) (position : Position)

def Spec.deploySection (result : Members) (name : Section) : Members :=
  Members.set name.key (.array ((spec.sectionOverlay valid name).apply (sectionItems result name)))
    result

def Spec.deployRoute (route : Members) : Members :=
  let route := Members.set rulesKey
    (.array ((spec.ruleOverlay valid position).apply (routeRules route))) route
  match spec.final with
  | some final => Members.set finalKey final route
  | none => route

/-- The merged configuration. -/
def Spec.deploy (base : Members) : Members :=
  let result := Section.all.foldl (spec.deploySection valid) base
  Members.set routeKey (.object (spec.deployRoute valid position (routeMembers result))) result

end Deploy

/-- The configuration is one that can be merged. -/
structure Mergeable (base : Members) : Prop where
  sections : ∀ name, getArray name.key base = .array (sectionItems base name)
  taggable : ∀ name, ∀ item ∈ sectionItems base name, isTaggable item = true
  route : (base.lookup routeKey).getD (.object []) = .object (routeMembers base)
  rules : getArray rulesKey (routeMembers base) = .array (routeRules (routeMembers base))

/-! ### The keys of a configuration -/

theorem Section.key_injective {left right : Section} (same : left.key = right.key) :
    left = right := by
  cases left <;> cases right <;> first | rfl | (exact absurd same (by decide))

theorem Section.key_ne_routeKey (name : Section) : name.key ≠ routeKey := by
  cases name <;> decide

theorem Section.mem_all (name : Section) : name ∈ Section.all := by
  cases name <;> decide

theorem Section.nodup_all : Section.all.Nodup := by decide

theorem getArray_set_of_ne {key other : Text} (different : other ≠ key) (value : Value)
    (members : Members) : getArray other (Members.set key value members) = getArray other members := by
  rw [getArray, Members.lookup_set, if_neg different, getArray]

/-! ### One section after the other -/

section Sections

variable {spec : Spec} (valid : spec.Valid)

theorem getArray_deploySection {name other : Section} (different : other ≠ name)
    (result : Members) :
    getArray other.key (spec.deploySection valid result name) = getArray other.key result :=
  getArray_set_of_ne (fun same => different (Section.key_injective same)) _ _

theorem mergeSection_eq {result : Members} {name : Section}
    (isArray : getArray name.key result = .array (sectionItems result name))
    (taggable : ∀ item ∈ sectionItems result name, isTaggable item = true) :
    mergeSection spec result name = .ok (spec.deploySection valid result name) := by
  rw [mergeSection, isArray]
  dsimp only
  rw [upsert, keptItems_eq taggable]
  rfl

theorem mergeSection_ok {result next : Members} {name : Section}
    (merged : mergeSection spec result name = .ok next) :
    getArray name.key result = .array (sectionItems result name) ∧
      ∀ item ∈ sectionItems result name, isTaggable item = true := by
  unfold mergeSection at merged
  split at merged
  next current isArray =>
    have items_eq : sectionItems result name = current := by rw [sectionItems, isArray]; rfl
    obtain ⟨items, upserted, _⟩ := bind_eq_ok_iff.mp merged
    obtain ⟨kept, isKept, _⟩ := bind_eq_ok_iff.mp upserted
    rw [items_eq]
    exact ⟨isArray, isTaggable_of_keptItems isKept⟩
  next => cases merged

/-- All sections of a list can be merged, by what they are before the first of them is. -/
theorem foldlM_mergeSection_eq {names : List Section} (distinct : names.Nodup) {result : Members}
    (arrays : ∀ name ∈ names, getArray name.key result = .array (sectionItems result name))
    (taggable : ∀ name ∈ names, ∀ item ∈ sectionItems result name, isTaggable item = true) :
    names.foldlM (mergeSection spec) result = .ok (names.foldl (spec.deploySection valid) result) := by
  induction names generalizing result with
  | nil => rfl
  | cons name names inductionHypothesis =>
      have ⟨fresh, distinct⟩ := List.nodup_cons.mp distinct
      have same : ∀ other ∈ names, getArray other.key (spec.deploySection valid result name) =
          getArray other.key result := by
        intro other member
        apply getArray_deploySection
        rintro rfl
        exact fresh member
      rw [List.foldlM_cons, mergeSection_eq valid (arrays name List.mem_cons_self)
        (taggable name List.mem_cons_self)]
      apply inductionHypothesis distinct
      · intro other member
        rw [sectionItems, same other member]
        exact arrays other (List.mem_cons_of_mem _ member)
      · intro other member
        rw [sectionItems, same other member]
        exact taggable other (List.mem_cons_of_mem _ member)

include valid in
theorem foldlM_mergeSection_ok {names : List Section} (distinct : names.Nodup)
    {result last : Members} (merged : names.foldlM (mergeSection spec) result = .ok last) :
    ∀ name ∈ names, getArray name.key result = .array (sectionItems result name) ∧
      ∀ item ∈ sectionItems result name, isTaggable item = true := by
  induction names generalizing result with
  | nil =>
      intro name impossible
      cases impossible
  | cons name names inductionHypothesis =>
      have ⟨fresh, distinct⟩ := List.nodup_cons.mp distinct
      rw [List.foldlM_cons] at merged
      obtain ⟨next, isNext, rest⟩ := bind_eq_ok_iff.mp merged
      have first := mergeSection_ok isNext
      rw [mergeSection_eq valid first.1 first.2] at isNext
      cases isNext
      intro other member
      rcases List.mem_cons.mp member with rfl | later
      · exact first
      · have unchanged : getArray other.key (spec.deploySection valid result name) =
            getArray other.key result := by
          apply getArray_deploySection
          rintro rfl
          exact fresh later
        have conclusion := inductionHypothesis distinct rest other later
        rw [sectionItems, unchanged] at conclusion
        exact conclusion

end Sections

/-! ### The whole merge -/

section Merge

variable {spec : Spec} (valid : spec.Valid) {position : Position}

theorem lookup_foldl_deploySection {names : List Section} {key : Text}
    (other : ∀ name ∈ names, key ≠ name.key) (result : Members) :
    (names.foldl (spec.deploySection valid) result).lookup key = result.lookup key := by
  induction names generalizing result with
  | nil => rfl
  | cons name names inductionHypothesis =>
      rw [List.foldl_cons, inductionHypothesis fun later member =>
        other later (List.mem_cons_of_mem _ member), Spec.deploySection, Members.lookup_set,
        if_neg (other name List.mem_cons_self)]

theorem lookup_routeKey (base : Members) :
    (Section.all.foldl (spec.deploySection valid) base).lookup routeKey = base.lookup routeKey :=
  lookup_foldl_deploySection valid (fun name _ => (Section.key_ne_routeKey name).symm) base

theorem routeMembers_foldl (base : Members) :
    routeMembers (Section.all.foldl (spec.deploySection valid) base) = routeMembers base := by
  rw [routeMembers, lookup_routeKey, routeMembers]

theorem mergeRoute_eq {result : Members} (isPosition : readPosition spec.position = .ok position)
    (isRoute : (result.lookup routeKey).getD (.object []) = .object (routeMembers result))
    (isRules : getArray rulesKey (routeMembers result) = .array (routeRules (routeMembers result))) :
    mergeRoute spec result = .ok (Members.set routeKey
      (.object (spec.deployRoute valid position (routeMembers result))) result) := by
  rw [mergeRoute, isRoute]
  dsimp only
  rw [mergeRules, isRules]
  dsimp only
  rw [isPosition]
  rfl

theorem mergeRoute_ok {result merged : Members} (isMerged : mergeRoute spec result = .ok merged) :
    (∃ position, readPosition spec.position = .ok position) ∧
      (result.lookup routeKey).getD (.object []) = .object (routeMembers result) ∧
      getArray rulesKey (routeMembers result) = .array (routeRules (routeMembers result)) := by
  unfold mergeRoute at isMerged
  split at isMerged
  next route isRoute =>
    have route_eq : routeMembers result = route := by rw [routeMembers, isRoute]; rfl
    obtain ⟨next, isNext, _⟩ := bind_eq_ok_iff.mp isMerged
    unfold mergeRules at isNext
    split at isNext
    next rules isRules =>
      obtain ⟨position, isPosition, _⟩ := bind_eq_ok_iff.mp isNext
      rw [route_eq]
      refine ⟨⟨position, isPosition⟩, isRoute, ?_⟩
      rw [routeRules, isRules]
      rfl
    next => cases isNext
  next => cases isMerged

theorem merge_eq {base members : Members} (checked : checkSpec members = .ok spec)
    (isPosition : readPosition spec.position = .ok position) (mergeable : Mergeable base) :
    merge (.object base) (.object members) = .ok (.object (spec.deploy valid position base)) := by
  have sections := foldlM_mergeSection_eq valid Section.nodup_all
    (fun name _ => mergeable.sections name) fun name _ => mergeable.taggable name
  have route := @mergeRoute_eq spec valid position
    (Section.all.foldl (spec.deploySection valid) base) isPosition
    (by rw [lookup_routeKey, routeMembers_foldl]; exact mergeable.route)
    (by rw [routeMembers_foldl]; exact mergeable.rules)
  refine bind_eq_ok_iff.mpr ⟨spec, checked, ?_⟩
  exact bind_eq_ok_iff.mpr ⟨_, sections, bind_eq_ok_iff.mpr ⟨_, route, rfl⟩⟩

end Merge

/-- A successful merge: the configuration, the checked spec and the result. -/
structure Merged (base members : Members) (spec : Spec) (valid : spec.Valid) (position : Position)
    (result : Value) : Prop where
  checked : checkSpec members = .ok spec
  reads : spec.Reads members
  isPosition : readPosition spec.position = .ok position
  mergeable : Mergeable base
  deployed : result = .object (spec.deploy valid position base)

theorem merge_ok {base members result : Value} (wellFormed : members.WellFormed)
    (accepted : merge base members = .ok result) :
    ∃ spec, ∃ valid : Spec.Valid spec, ∃ position, base = .object base.members ∧
      members = .object members.members ∧
      Merged base.members members.members spec valid position result := by
  unfold merge at accepted
  split at accepted
  next base members =>
    obtain ⟨spec, checked, accepted⟩ := bind_eq_ok_iff.mp accepted
    obtain ⟨middle, isMiddle, accepted⟩ := bind_eq_ok_iff.mp accepted
    obtain ⟨final, isFinal, same⟩ := bind_eq_ok_iff.mp accepted
    cases same
    have ⟨valid, reads⟩ := checkSpec_ok wellFormed checked
    have sections := foldlM_mergeSection_ok valid Section.nodup_all isMiddle
    rw [foldlM_mergeSection_eq valid Section.nodup_all (fun name member => (sections name member).1)
      fun name member => (sections name member).2] at isMiddle
    cases isMiddle
    obtain ⟨⟨position, isPosition⟩, isRoute, isRules⟩ := mergeRoute_ok isFinal
    rw [mergeRoute_eq valid isPosition isRoute isRules] at isFinal
    cases isFinal
    rw [lookup_routeKey, routeMembers_foldl] at isRoute
    rw [routeMembers_foldl] at isRules
    refine ⟨spec, valid, position, rfl, rfl, checked, reads, isPosition, ?_, rfl⟩
    exact ⟨fun name => (sections name name.mem_all).1, fun name => (sections name name.mem_all).2,
      isRoute, isRules⟩
  next => cases accepted

end SmartFecTunnel.Deploy

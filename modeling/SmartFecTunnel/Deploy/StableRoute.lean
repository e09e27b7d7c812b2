import SmartFecTunnel.Library.Placement
import SmartFecTunnel.Deploy.GoogleRoute
import SmartFecTunnel.Deploy.Merge

/-!
Contract: the rule of the stable Google route in a sing-box configuration (`main` in
`deploy/add-google-stable-route.py`).

The rule of an earlier run is taken out, and the current one is put in front of the
first rule for TCP.

Owns: the configuration after any number of runs, and when a run fails.

Does not own: the download of the networks, and reading and writing the files.
-/

namespace SmartFecTunnel.Deploy.StableRoute

open SmartFecTunnel.Library
open SmartFecTunnel.Library.IpNetwork (Covers)

inductive RouteError where
  | attributeError
  | typeError
  | subtract (error : SubtractError)
deriving DecidableEq

def domainSuffixKey : Text := "domain_suffix".toList
def ipCidrKey : Text := "ip_cidr".toList
def actionKey : Text := "action".toList
def outboundKey : Text := "outbound".toList
def networkKey : Text := "network".toList

/-- `DOMAINS`. -/
def domains : Value :=
  .array [.string "google.com".toList, .string "googleapis.com".toList,
    .string "gstatic.com".toList, .string "googleusercontent.com".toList,
    .string "ggpht.com".toList]

/-- What a run has downloaded. -/
structure Ranges where
  google : List IpNetwork
  cloud : List IpNetwork

section Script

-- the text of a network
variable (str : IpNetwork → Text)

/-- The rule for these networks. -/
def rule (serviceRanges : List IpNetwork) : Value :=
  .object [(domainSuffixKey, domains),
    (ipCidrKey, .array (serviceRanges.map fun item => .string (str item))),
    (actionKey, .string "route".toList), (outboundKey, .string "direct".toList)]

def buildRule (ranges : Ranges) : Except RouteError Value := do
  let serviceRanges ← (subtractNetworks ranges.google ranges.cloud).mapError .subtract
  return rule str serviceRanges

/-- `item.get(key) == value`. -/
def memberIs (key : Text) (value : Value) (members : Members) : Bool :=
  match members.lookup key with
  | some found => found.same value
  | none => false

def managed (members : Members) : Bool :=
  memberIs domainSuffixKey domains members && memberIs actionKey (.string "route".toList) members &&
    memberIs outboundKey (.string "direct".toList) members

def isManaged : Value → Except RouteError Bool
  | .object members => return managed members
  | _ => .error .attributeError

/-- The rules that are not managed. -/
def unmanaged : List Value → Except RouteError (List Value)
  | [] => return []
  | item :: items => do
    let isOwn ← isManaged item
    let rest ← unmanaged items
    return if isOwn then rest else item :: rest

/-- Only an array can be filtered in place.  What has items that are no objects fails at the
first of them, the characters of a string and the keys of an object among them. -/
def keepUnmanaged : Value → Except RouteError (List Value)
  | .array rules => unmanaged rules
  | .string (_ :: _) => .error .attributeError
  | .object (_ :: _) => .error .attributeError
  | _ => .error .typeError

def isTcp (item : Value) : Bool := memberIs networkKey (.string "tcp".toList) item.members

def main (config : Value) (ranges : Ranges) : Except RouteError Value :=
  match config with
  | .object config =>
    match (config.lookup routeKey).getD (.object []) with
    | .object route => do
      let rules ← keepUnmanaged ((route.lookup rulesKey).getD (.array []))
      let rules := place isTcp (← buildRule str ranges) rules
      return .object (Members.set routeKey (.object (Members.set rulesKey (.array rules) route))
        config)
    | _ => .error .attributeError
  | _ => .error .attributeError

end Script

/-! ### The rules -/

/-- The members of a rule decide whether it is managed. -/
def isManagedRule (item : Value) : Bool := managed item.members

theorem memberIs_of_lookup {members : Members} {key : Text} {value : Value}
    (found : members.lookup key = some value) (wellFormed : value.WellFormed) :
    memberIs key value members = true := by
  rw [memberIs, found]
  exact value.same_self wellFormed

/-- The rule that sends the domains and these networks out directly. -/
structure IsRule (str : IpNetwork → Text) (networks : List IpNetwork) (item : Value) : Prop where
  domains : item.members.lookup domainSuffixKey = some domains
  networks : item.members.lookup ipCidrKey =
    some (.array (networks.map fun network => .string (str network)))
  action : item.members.lookup actionKey = some (.string "route".toList)
  outbound : item.members.lookup outboundKey = some (.string "direct".toList)

theorem isRule_rule (str : IpNetwork → Text) (networks : List IpNetwork) :
    IsRule str networks (rule str networks) where
  domains := by rw [rule, Value.members, Members.lookup_cons, if_pos rfl]
  networks := by
    rw [rule, Value.members, Members.lookup_cons, if_neg (by decide), Members.lookup_cons,
      if_pos rfl]
  action := by
    rw [rule, Value.members, Members.lookup_cons, if_neg (by decide), Members.lookup_cons,
      if_neg (by decide), Members.lookup_cons, if_pos rfl]
  outbound := by
    rw [rule, Value.members, Members.lookup_cons, if_neg (by decide), Members.lookup_cons,
      if_neg (by decide), Members.lookup_cons, if_neg (by decide), Members.lookup_cons,
      if_pos rfl]

/-- Such a rule is known again, whatever its networks are. -/
theorem IsRule.managed {str : IpNetwork → Text} {networks : List IpNetwork} {item : Value}
    (isRule : IsRule str networks item) : isManagedRule item = true := by
  have string : ∀ text, (Value.string text).WellFormed := fun _ => trivial
  have strings : StableRoute.domains.WellFormed := by
    refine Value.wellFormed_array.mpr fun item member => ?_
    simp only [List.mem_cons, List.not_mem_nil, or_false] at member
    rcases member with rfl | rfl | rfl | rfl | rfl <;> exact string _
  rw [isManagedRule, StableRoute.managed, memberIs_of_lookup isRule.domains strings,
    memberIs_of_lookup isRule.action (string _), memberIs_of_lookup isRule.outbound (string _)]
  rfl

theorem isManagedRule_rule (str : IpNetwork → Text) (serviceRanges : List IpNetwork) :
    isManagedRule (rule str serviceRanges) = true := (isRule_rule str serviceRanges).managed

/-- An array of objects is filtered. -/
theorem unmanaged_eq {items : List Value} (objects : ∀ item ∈ items, isObject item = true) :
    unmanaged items = .ok (items.filter fun item => !isManagedRule item) := by
  induction items with
  | nil => rfl
  | cons item items inductionHypothesis =>
      have ⟨isHead, areObjects⟩ := List.forall_mem_cons.mp objects
      cases item with
      | object members =>
          rw [unmanaged, inductionHypothesis areObjects, List.filter_cons]
          change Except.ok (if isManagedRule (.object members) = true then _ else _) = _
          cases isManagedRule (.object members) with
          | true => rfl
          | false => rfl
      | _ => cases isHead

/-- Nothing else can be. -/
theorem isObject_of_unmanaged {items rules : List Value} (isRules : unmanaged items = .ok rules) :
    ∀ item ∈ items, isObject item = true := by
  induction items generalizing rules with
  | nil => exact fun item member => absurd member List.not_mem_nil
  | cons item items inductionHypothesis =>
      rw [unmanaged] at isRules
      cases item with
      | object members =>
          cases isRest : unmanaged items with
          | error error =>
              rw [isRest] at isRules
              cases isRules
          | ok rest => exact List.forall_mem_cons.mpr ⟨rfl, inductionHypothesis isRest⟩
      | _ => cases isRules

/-- Subtracting networks does not fail. -/
theorem exists_subtractNetworks (ranges : Ranges) :
    ∃ networks, subtractNetworks ranges.google ranges.cloud = .ok networks := by
  obtain ⟨ipv4, ipv6, isResult, _⟩ := subtractNetworks_eq ranges.google ranges.cloud
  exact ⟨_, isResult⟩

/-- Every download has a rule, for exactly the addresses of Google that are not of its cloud. -/
theorem buildRule_eq (str : IpNetwork → Text) (ranges : Ranges) :
    ∃ networks item, buildRule str ranges = .ok item ∧ IsRule str networks item ∧
      ∀ address, Covers networks address ↔
        Covers ranges.google address ∧ ¬ Covers ranges.cloud address := by
  obtain ⟨ipv4, ipv6, isResult, difference, _⟩ := subtractNetworks_eq ranges.google ranges.cloud
  refine ⟨_, _, ?_, isRule_rule str (ipv4 ++ ipv6), difference⟩
  rw [buildRule, isResult]
  rfl

/-! ### One run -/

/-- A configuration that a run can update: the rules are objects. -/
structure Routable (config : Value) (members route : Members) (rules : List Value) : Prop where
  isConfig : config = .object members
  isRoute : (members.lookup routeKey).getD (.object []) = .object route
  isRules : (route.lookup rulesKey).getD (.array []) = .array rules
  objects : ∀ rule ∈ rules, isObject rule = true

/-- The configuration with these rules. -/
def withRules (members route : Members) (rules : List Value) : Value :=
  .object (Members.set routeKey (.object (Members.set rulesKey (.array rules) route)) members)

variable (str : IpNetwork → Text)

/-- The rules that are not managed, and the rule for these networks at its place. -/
def currentRules (networks : List IpNetwork) (rules : List Value) : List Value :=
  place isTcp (rule str networks) (rules.filter fun item => !isManagedRule item)

theorem main_eq {config : Value} {members route : Members} {rules : List Value}
    (routable : Routable config members route rules) {ranges : Ranges} {networks : List IpNetwork}
    (subtracted : subtractNetworks ranges.google ranges.cloud = .ok networks) :
    main str config ranges = .ok (withRules members route (currentRules str networks rules)) := by
  rw [routable.isConfig, main]
  dsimp only
  rw [routable.isRoute]
  dsimp only
  rw [routable.isRules, keepUnmanaged, unmanaged_eq routable.objects, buildRule, subtracted]
  rfl

theorem routable_of_main {config updated : Value} {ranges : Ranges}
    (isUpdated : main str config ranges = .ok updated) :
    ∃ members route rules, Routable config members route rules := by
  unfold main at isUpdated
  split at isUpdated
  next members =>
    split at isUpdated
    next route isRoute =>
      generalize isRules : (route.lookup rulesKey).getD (.array []) = rules at isUpdated
      cases rules with
      | array rules =>
          cases filtered : unmanaged rules with
          | error error =>
              rw [keepUnmanaged, filtered] at isUpdated
              cases isUpdated
          | ok kept => exact ⟨members, route, rules, rfl, isRoute, isRules,
              isObject_of_unmanaged filtered⟩
      | string text => cases text <;> cases isUpdated
      | object fields => cases fields <;> cases isUpdated
      | _ => cases isUpdated
    next => cases isUpdated
  next => cases isUpdated

/-! ### Run after run -/

theorem filter_currentRules (networks : List IpNetwork) (rules : List Value) :
    (currentRules str networks rules).filter (fun item => !isManagedRule item) =
      rules.filter fun item => !isManagedRule item := by
  rw [currentRules, filter_place (by rw [isManagedRule_rule]; rfl), List.filter_filter]
  simp only [Bool.and_self]

theorem isObject_currentRules {networks : List IpNetwork} {rules : List Value}
    (objects : ∀ item ∈ rules, isObject item = true) :
    ∀ item ∈ currentRules str networks rules, isObject item = true := by
  intro item member
  cases isOwn : isManagedRule item with
  | false =>
      have kept : item ∈ (currentRules str networks rules).filter fun item => !isManagedRule item :=
        List.mem_filter.mpr ⟨member, by rw [isOwn]; rfl⟩
      rw [filter_currentRules] at kept
      exact objects item (List.mem_of_mem_filter kept)
  | true =>
      -- a managed rule has members
      cases item with
      | object members => rfl
      | _ => cases isOwn

/-- What a run leaves can be updated again. -/
theorem Routable.again {config : Value} {members route : Members} {rules : List Value}
    (routable : Routable config members route rules) (networks : List IpNetwork) :
    Routable (withRules members route (currentRules str networks rules))
      (Members.set routeKey (.object (Members.set rulesKey
        (.array (currentRules str networks rules)) route)) members)
      (Members.set rulesKey (.array (currentRules str networks rules)) route)
      (currentRules str networks rules) where
  isConfig := rfl
  isRoute := by
    rw [Members.lookup_set, if_pos rfl]
    rfl
  isRules := by
    rw [Members.lookup_set, if_pos rfl]
    rfl
  objects := isObject_currentRules str routable.objects

/-- A run forgets the one before it. -/
theorem main_main {config updated : Value} {first : Ranges}
    (isUpdated : main str config first = .ok updated) (second : Ranges) :
    main str updated second = main str config second := by
  obtain ⟨members, route, rules, routable⟩ := routable_of_main str isUpdated
  obtain ⟨old, isOld⟩ := exists_subtractNetworks first
  obtain ⟨networks, isNetworks⟩ := exists_subtractNetworks second
  rw [main_eq str routable isOld] at isUpdated
  cases isUpdated
  rw [main_eq str (routable.again str old) isNetworks, main_eq str routable isNetworks]
  have sameRules : currentRules str networks (currentRules str old rules) =
      currentRules str networks rules := by
    rw [currentRules, filter_currentRules, currentRules]
  rw [sameRules, withRules, withRules, Members.set_set, Members.set_set]

/-- Any number of runs leaves what the last one would have left by itself. -/
theorem foldlM_main (config : Value) (earlier : List Ranges) (last : Ranges) (updated : Value) :
    (earlier ++ [last]).foldlM (main str) config = .ok updated ↔
      main str config last = .ok updated := by
  induction earlier generalizing config with
  | nil =>
      rw [List.nil_append, List.foldlM_cons]
      cases main str config last with
      | error error => rfl
      | ok result => rfl
  | cons first earlier inductionHypothesis =>
      rw [List.cons_append, List.foldlM_cons]
      cases isFirst : main str config first with
      | error error =>
          constructor
          · rintro ⟨⟩
          · intro isUpdated
            obtain ⟨members, route, rules, routable⟩ := routable_of_main str isUpdated
            obtain ⟨networks, isNetworks⟩ := exists_subtractNetworks first
            rw [main_eq str routable isNetworks] at isFirst
            cases isFirst
      | ok middle =>
          change List.foldlM (main str) middle (earlier ++ [last]) = .ok updated ↔ _
          rw [inductionHypothesis, main_main str isFirst]

/-- The configuration after any number of runs: every run succeeds exactly if the rules are
objects, the rule for the last download stands in front of the first rule for TCP, and nothing
but the managed rules of before is gone. -/
theorem stable_route_current (config : Value) (earlier : List Ranges) (last : Ranges)
    (updated : Value) :
    (earlier ++ [last]).foldlM (main str) config = .ok updated ↔
      ∃ members route rules before after networks, Routable config members route rules ∧
        subtractNetworks last.google last.cloud = .ok networks ∧
        before ++ after = rules.filter (fun item => !isManagedRule item) ∧
        (∀ item ∈ before, isTcp item = false) ∧ (∀ item ∈ after.head?, isTcp item = true) ∧
        updated = withRules members route (before ++ rule str networks :: after) := by
  rw [foldlM_main]
  constructor
  · intro isUpdated
    obtain ⟨members, route, rules, routable⟩ := routable_of_main str isUpdated
    obtain ⟨networks, isNetworks⟩ := exists_subtractNetworks last
    obtain ⟨before, after, isKept, unmarked, marked⟩ :=
      exists_cut isTcp (rules.filter fun item => !isManagedRule item)
    rw [main_eq str routable isNetworks, currentRules, place_eq isKept unmarked marked]
      at isUpdated
    cases isUpdated
    exact ⟨members, route, rules, before, after, networks, routable, isNetworks, isKept.symm,
      unmarked, marked, rfl⟩
  · rintro ⟨members, route, rules, before, after, networks, routable, isNetworks, isKept, unmarked,
      marked, rfl⟩
    rw [main_eq str routable isNetworks, currentRules, place_eq isKept.symm unmarked marked]

end SmartFecTunnel.Deploy.StableRoute

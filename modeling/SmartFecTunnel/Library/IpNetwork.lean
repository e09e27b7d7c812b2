import Mathlib.Algebra.Order.Group.Nat
import Mathlib.Tactic.Common

/-!
Contract: IPv4 and IPv6 networks, as Python's `ipaddress` has them.

A network is a block of addresses that starts at a multiple of its size, and its
size is a power of two.

Owns:
- `IpNetwork`, with what makes it a network as fields, and `IpAddress`;
- `overlaps`, `subnet_of`, `supernet`, `subnets` and `address_exclude`;
- two networks of one version are nested or apart, and what `address_exclude`
  yields.

Does not own: texts of networks, and the scope of an IPv6 address.
-/

namespace SmartFecTunnel.Library

inductive IpVersion where
  | v4
  | v6
deriving DecidableEq, Repr

def IpVersion.maxPrefixlen : IpVersion → Nat
  | .v4 => 32
  | .v6 => 128

structure IpAddress where
  version : IpVersion
  value : Nat
  inRange : value < 2 ^ version.maxPrefixlen
deriving DecidableEq

structure IpNetwork where
  version : IpVersion
  start : Nat
  prefixlen : Nat
  prefixlen_le : prefixlen ≤ version.maxPrefixlen
  aligned : 2 ^ (version.maxPrefixlen - prefixlen) ∣ start
  inRange : start < 2 ^ version.maxPrefixlen
deriving DecidableEq

inductive IpError where
  | mixedVersions
  | notContained
  | notEnoughValues
  | assertion
deriving DecidableEq, Repr

theorem add_le_of_dvd_of_lt {size left right : Nat} (leftAligned : size ∣ left)
    (rightAligned : size ∣ right) (before : left < right) : left + size ≤ right := by
  have positive : 0 < right - left := by omega
  have := Nat.le_of_dvd positive (Nat.dvd_sub rightAligned leftAligned)
  omega

namespace IpNetwork

def size (network : IpNetwork) : Nat := 2 ^ (network.version.maxPrefixlen - network.prefixlen)

theorem size_pos (network : IpNetwork) : 0 < network.size := Nat.two_pow_pos _

theorem size_dvd_start (network : IpNetwork) : network.size ∣ network.start := network.aligned

theorem end_le (network : IpNetwork) :
    network.start + network.size ≤ 2 ^ network.version.maxPrefixlen :=
  add_le_of_dvd_of_lt network.size_dvd_start (Nat.pow_dvd_pow 2 (Nat.sub_le _ _)) network.inRange

def networkAddress (network : IpNetwork) : IpAddress :=
  ⟨network.version, network.start, network.inRange⟩

def broadcastAddress (network : IpNetwork) : IpAddress :=
  ⟨network.version, network.start + (network.size - 1), by
    have := network.end_le
    have := network.size_pos
    omega⟩

/-- `address in network`. -/
def contains (network : IpNetwork) (address : IpAddress) : Bool :=
  address.version = network.version ∧ network.start ≤ address.value ∧
    address.value < network.start + network.size

instance : Membership IpAddress IpNetwork where
  mem network address := network.contains address = true

theorem mem_iff {network : IpNetwork} {address : IpAddress} :
    address ∈ network ↔ address.version = network.version ∧ network.start ≤ address.value ∧
      address.value < network.start + network.size :=
  decide_eq_true_iff

/-- An address is in one of the networks. -/
def Covers (networks : List IpNetwork) (address : IpAddress) : Prop :=
  ∃ network ∈ networks, address ∈ network

@[simp]
theorem covers_nil (address : IpAddress) : ¬ Covers [] address := by
  rintro ⟨_, impossible, _⟩
  cases impossible

@[simp]
theorem covers_cons {network : IpNetwork} {networks : List IpNetwork} {address : IpAddress} :
    Covers (network :: networks) address ↔ address ∈ network ∨ Covers networks address := by
  unfold Covers
  simp only [List.mem_cons, exists_eq_or_imp]

@[simp]
theorem covers_append {front back : List IpNetwork} {address : IpAddress} :
    Covers (front ++ back) address ↔ Covers front address ∨ Covers back address := by
  unfold Covers
  simp only [List.mem_append, or_and_right, exists_or]

def overlaps (network other : IpNetwork) : Bool :=
  other.contains network.networkAddress || other.contains network.broadcastAddress ||
    network.contains other.networkAddress || network.contains other.broadcastAddress

def subnetOf (network other : IpNetwork) : Except IpError Bool :=
  if network.version ≠ other.version then .error .mixedVersions
  else .ok (other.networkAddress.value ≤ network.networkAddress.value ∧
    network.broadcastAddress.value ≤ other.broadcastAddress.value)

def supernetOf (network other : IpNetwork) : Except IpError Bool := other.subnetOf network

/-! ### Halves and doubles -/

/-- Half the size of a network with more than one address. -/
def half (network : IpNetwork) : Nat :=
  2 ^ (network.version.maxPrefixlen - (network.prefixlen + 1))

theorem size_eq_two_mul {network : IpNetwork}
    (splits : network.prefixlen < network.version.maxPrefixlen) :
    network.size = 2 * network.half := by
  rw [size, half, ← Nat.pow_succ']
  congr 1
  omega

theorem half_dvd_start {network : IpNetwork}
    (splits : network.prefixlen < network.version.maxPrefixlen) :
    network.half ∣ network.start := by
  have halved : network.half ∣ network.size := by
    rw [size_eq_two_mul splits]
    exact Nat.dvd_mul_left network.half 2
  exact Nat.dvd_trans halved network.size_dvd_start

def lower (network : IpNetwork) (splits : network.prefixlen < network.version.maxPrefixlen) :
    IpNetwork where
  version := network.version
  start := network.start
  prefixlen := network.prefixlen + 1
  prefixlen_le := splits
  aligned := half_dvd_start splits
  inRange := network.inRange

def upper (network : IpNetwork) (splits : network.prefixlen < network.version.maxPrefixlen) :
    IpNetwork where
  version := network.version
  start := network.start + network.half
  prefixlen := network.prefixlen + 1
  prefixlen_le := splits
  aligned := Nat.dvd_add (half_dvd_start splits) (Nat.dvd_refl _)
  inRange := by
    have := size_eq_two_mul splits
    have := network.end_le
    have := network.size_pos
    omega

section Halves

variable {network : IpNetwork} (splits : network.prefixlen < network.version.maxPrefixlen)

@[simp] theorem lower_version : (network.lower splits).version = network.version := rfl
@[simp] theorem lower_start : (network.lower splits).start = network.start := rfl
@[simp] theorem lower_prefixlen : (network.lower splits).prefixlen = network.prefixlen + 1 := rfl
@[simp] theorem lower_size : (network.lower splits).size = network.half := rfl
@[simp] theorem upper_version : (network.upper splits).version = network.version := rfl
@[simp] theorem upper_start : (network.upper splits).start = network.start + network.half := rfl
@[simp] theorem upper_prefixlen : (network.upper splits).prefixlen = network.prefixlen + 1 := rfl
@[simp] theorem upper_size : (network.upper splits).size = network.half := rfl

end Halves

/-- A network of one address is its own only subnet. -/
def subnets (network : IpNetwork) : List IpNetwork :=
  if splits : network.prefixlen < network.version.maxPrefixlen then
    [network.lower splits, network.upper splits]
  else [network]

/-- The network of twice the size, if there is one. -/
def supernet (network : IpNetwork) : IpNetwork :=
  if network.prefixlen = 0 then network
  else
    { version := network.version
      start := network.start - network.start %
        2 ^ (network.version.maxPrefixlen - (network.prefixlen - 1))
      prefixlen := network.prefixlen - 1
      prefixlen_le := Nat.le_trans (Nat.sub_le _ _) network.prefixlen_le
      aligned := Nat.dvd_sub_mod network.start
      inRange := Nat.lt_of_le_of_lt (Nat.sub_le _ _) network.inRange }

/-- The loop of `address_exclude` over the two halves that are left. -/
def excludeLoop (other : IpNetwork) : Nat → List IpNetwork → Except IpError (List IpNetwork)
  | fuel + 1, [first, second] => do
    if first ≠ other ∧ second ≠ other then
      if ← other.subnetOf first then
        return second :: (← excludeLoop other fuel first.subnets)
      else if ← other.subnetOf second then
        return first :: (← excludeLoop other fuel second.subnets)
      else throw .assertion
    else if first = other then return [second]
    else return [first]
  | _, _ => throw .notEnoughValues

def addressExclude (network other : IpNetwork) : Except IpError (List IpNetwork) := do
  if network.version ≠ other.version then throw .mixedVersions
  else if !(← other.subnetOf network) then throw .notContained
  else if other = network then return []
  else excludeLoop other network.version.maxPrefixlen network.subnets

/-! ### Nested or apart -/

/-- All of a block is in another one. -/
def Within (inner outer : IpNetwork) : Prop :=
  outer.start ≤ inner.start ∧ inner.start + inner.size ≤ outer.start + outer.size

instance (inner outer : IpNetwork) : Decidable (Within inner outer) := by
  unfold Within
  infer_instance

/-- One block ends before the other begins. -/
def Before (left right : IpNetwork) : Prop := left.start + left.size ≤ right.start

theorem size_dvd_size {network other : IpNetwork} (sameVersion : network.version = other.version)
    (longer : network.prefixlen ≤ other.prefixlen) : other.size ∣ network.size := by
  rw [size, size, sameVersion]
  exact Nat.pow_dvd_pow 2 (Nat.sub_le_sub_left longer _)

/-- A block with the longer prefix is within the other one, or they are apart. -/
theorem within_or_apart {network other : IpNetwork} (sameVersion : network.version = other.version)
    (longer : network.prefixlen ≤ other.prefixlen) :
    Within other network ∨ Before other network ∨ Before network other := by
  have network_aligned := Nat.dvd_trans (size_dvd_size sameVersion longer) network.size_dvd_start
  have end_aligned := Nat.dvd_add network_aligned (size_dvd_size sameVersion longer)
  unfold Within Before
  by_cases begins : other.start < network.start
  · exact .inr (.inl (add_le_of_dvd_of_lt other.size_dvd_start network_aligned begins))
  · by_cases ends : other.start < network.start + network.size
    · have := add_le_of_dvd_of_lt other.size_dvd_start end_aligned ends
      exact .inl ⟨by omega, this⟩
    · exact .inr (.inr (by omega))

theorem Within.version_mem {inner outer : IpNetwork} (within : Within inner outer)
    (sameVersion : inner.version = outer.version) {address : IpAddress}
    (member : address ∈ inner) : address ∈ outer := by
  rw [mem_iff] at member ⊢
  obtain ⟨isVersion, lower, upper⟩ := member
  unfold Within at within
  exact ⟨isVersion.trans sameVersion, by omega, by omega⟩

theorem Before.not_mem {left right : IpNetwork} (before : Before left right) {address : IpAddress}
    (member : address ∈ left) : address ∉ right := by
  rw [mem_iff] at member ⊢
  unfold Before at before
  omega

/-- Of two nested blocks of one size there is only one. -/
theorem eq_of_within {inner outer : IpNetwork} (within : Within inner outer)
    (sameVersion : inner.version = outer.version) (sameLength : inner.prefixlen = outer.prefixlen) :
    inner = outer := by
  have sameSize : inner.size = outer.size := by rw [size, size, sameVersion, sameLength]
  have sameStart : inner.start = outer.start := by
    unfold Within at within
    omega
  cases inner
  cases outer
  simp only [mk.injEq]
  exact ⟨sameVersion, sameStart, sameLength⟩

/-- A proper part has a longer prefix. -/
theorem prefixlen_lt_of_within {inner outer : IpNetwork} (within : Within inner outer)
    (sameVersion : inner.version = outer.version) (longer : outer.prefixlen ≤ inner.prefixlen)
    (different : outer ≠ inner) : outer.prefixlen < inner.prefixlen := by
  refine lt_of_le_of_ne longer fun sameLength => different ?_
  exact (eq_of_within within sameVersion sameLength.symm).symm

theorem subnetOf_eq {network other : IpNetwork} (sameVersion : network.version = other.version) :
    network.subnetOf other = .ok (decide (Within network other)) := by
  have := network.size_pos
  have := other.size_pos
  rw [subnetOf, if_neg (not_not_intro sameVersion)]
  congr 2
  unfold Within networkAddress broadcastAddress
  apply propext
  constructor <;> intro ⟨_, _⟩ <;> constructor <;> dsimp only at * <;> omega

/-- Two networks overlap exactly if they have an address in common. -/
theorem overlaps_iff {network other : IpNetwork} (sameVersion : network.version = other.version) :
    network.overlaps other = true ↔ ¬ Before network other ∧ ¬ Before other network := by
  have := network.size_pos
  have := other.size_pos
  simp only [overlaps, contains, networkAddress, broadcastAddress, Bool.or_eq_true,
    decide_eq_true_iff, sameVersion, true_and, Before]
  omega

/-! ### What is left of a network -/

section Halves

variable {network other : IpNetwork} (splits : network.prefixlen < network.version.maxPrefixlen)

theorem mem_halves {address : IpAddress} :
    address ∈ network ↔ address ∈ network.lower splits ∨ address ∈ network.upper splits := by
  have doubled := size_eq_two_mul splits
  simp only [mem_iff, lower_version, lower_start, lower_size, upper_version, upper_start,
    upper_size]
  by_cases sameVersion : address.version = network.version
  · simp only [sameVersion, true_and]
    omega
  · simp only [sameVersion, false_and, or_false]

theorem lower_before_upper : Before (network.lower splits) (network.upper splits) :=
  Nat.le_refl _

/-- A proper part of a network is in one of its halves. -/
theorem within_half (sameVersion : network.version = other.version)
    (longer : network.prefixlen < other.prefixlen) (within : Within other network) :
    Within other (network.lower splits) ∨ Within other (network.upper splits) := by
  have doubled := size_eq_two_mul splits
  have lowerCase := @within_or_apart (network.lower splits) other sameVersion longer
  have upperCase := @within_or_apart (network.upper splits) other sameVersion longer
  have positive := other.size_pos
  unfold Within Before at *
  simp only [lower_start, lower_size, upper_start, upper_size] at *
  omega

end Halves

/-- The networks have the addresses of the first network that are not in the second. -/
def Difference (network other : IpNetwork) (networks : List IpNetwork) : Prop :=
  ∀ address : IpAddress, Covers networks address ↔ address ∈ network ∧ address ∉ other

theorem difference_self (network : IpNetwork) : Difference network network [] := by
  intro address
  simp only [covers_nil, and_not_self_iff]

theorem difference_lower {network : IpNetwork}
    (splits : network.prefixlen < network.version.maxPrefixlen) {networks : List IpNetwork}
    {other : IpNetwork} (sameVersion : network.version = other.version)
    (within : Within other (network.lower splits))
    (rest : Difference (network.lower splits) other networks) :
    Difference network other (network.upper splits :: networks) := by
  intro address
  have apart := @Before.not_mem _ _ (lower_before_upper splits) address
  have inside : address ∈ other → address ∈ network.lower splits :=
    within.version_mem sameVersion.symm
  rw [covers_cons, rest address, mem_halves splits]
  tauto

theorem difference_upper {network : IpNetwork}
    (splits : network.prefixlen < network.version.maxPrefixlen) {networks : List IpNetwork}
    {other : IpNetwork} (sameVersion : network.version = other.version)
    (within : Within other (network.upper splits))
    (rest : Difference (network.upper splits) other networks) :
    Difference network other (network.lower splits :: networks) := by
  intro address
  have apart := @Before.not_mem _ _ (lower_before_upper splits) address
  have inside : address ∈ other → address ∈ network.upper splits :=
    within.version_mem sameVersion.symm
  rw [covers_cons, rest address, mem_halves splits]
  tauto

/-- One round halves what still contains the other network. -/
theorem excludeLoop_difference {other : IpNetwork} :
    ∀ (fuel : Nat) {network : IpNetwork}, network.version = other.version →
      network.prefixlen < other.prefixlen → other.prefixlen ≤ network.prefixlen + fuel →
      Within other network →
      ∃ networks, excludeLoop other fuel network.subnets = .ok networks ∧
        Difference network other networks
  | 0, network, _, longer, enough, _ => by omega
  | fuel + 1, network, sameVersion, longer, enough, within => by
      have splits : network.prefixlen < network.version.maxPrefixlen := by
        have := other.prefixlen_le
        rw [sameVersion]
        omega
      rw [subnets, dif_pos splits, excludeLoop]
      by_cases isLower : network.lower splits = other
      · rw [if_neg (fun both => both.1 isLower), if_pos isLower]
        refine ⟨_, rfl, difference_lower splits sameVersion ?_ ?_⟩
        · rw [isLower]
          exact ⟨Nat.le_refl _, Nat.le_refl _⟩
        · rw [isLower]
          exact difference_self other
      · by_cases isUpper : network.upper splits = other
        · rw [if_neg (fun both => both.2 isUpper), if_neg isLower]
          refine ⟨_, rfl, difference_upper splits sameVersion ?_ ?_⟩
          · rw [isUpper]
            exact ⟨Nat.le_refl _, Nat.le_refl _⟩
          · rw [isUpper]
            exact difference_self other
        · rw [if_pos ⟨isLower, isUpper⟩]
          by_cases inLower : Within other (network.lower splits)
          · have shorter := prefixlen_lt_of_within inLower sameVersion.symm longer isLower
            obtain ⟨networks, looped, rest⟩ := @excludeLoop_difference other fuel
              (network.lower splits) sameVersion shorter (by rw [lower_prefixlen]; omega) inLower
            refine ⟨_, ?_, difference_lower splits sameVersion inLower rest⟩
            rw [@subnetOf_eq other (network.lower splits) sameVersion.symm, decide_eq_true inLower]
            change (do return _ :: (← excludeLoop other fuel (network.lower splits).subnets)) = _
            rw [looped]
            rfl
          · have inUpper := (within_half splits sameVersion longer within).resolve_left inLower
            have shorter := prefixlen_lt_of_within inUpper sameVersion.symm longer isUpper
            obtain ⟨networks, looped, rest⟩ := @excludeLoop_difference other fuel
              (network.upper splits) sameVersion shorter (by rw [upper_prefixlen]; omega) inUpper
            refine ⟨_, ?_, difference_upper splits sameVersion inUpper rest⟩
            rw [@subnetOf_eq other (network.lower splits) sameVersion.symm,
              decide_eq_false inLower, @subnetOf_eq other (network.upper splits) sameVersion.symm,
              decide_eq_true inUpper]
            change (do return _ :: (← excludeLoop other fuel (network.upper splits).subnets)) = _
            rw [looped]
            rfl

/-- `address_exclude` yields what is left of a network without one that is in it. -/
theorem addressExclude_difference {network other : IpNetwork}
    (sameVersion : network.version = other.version) (within : Within other network)
    (longer : network.prefixlen ≤ other.prefixlen) :
    ∃ networks, network.addressExclude other = .ok networks ∧
      Difference network other networks := by
  rw [addressExclude, if_neg (not_not_intro sameVersion), subnetOf_eq sameVersion.symm,
    decide_eq_true within]
  by_cases same : other = network
  · refine ⟨[], ?_, ?_⟩
    · change (if other = network then _ else _) = _
      rw [if_pos same]
      rfl
    · rw [same]
      exact difference_self network
  · have proper := prefixlen_lt_of_within within sameVersion.symm longer (Ne.symm same)
    have enough : other.prefixlen ≤ network.prefixlen + network.version.maxPrefixlen := by
      have := other.prefixlen_le
      rw [sameVersion]
      omega
    obtain ⟨networks, looped, rest⟩ := excludeLoop_difference network.version.maxPrefixlen
      sameVersion proper enough within
    refine ⟨networks, ?_, rest⟩
    change (if other = network then _ else _) = _
    rw [if_neg same]
    exact looped

end IpNetwork

end SmartFecTunnel.Library

import SmartFecTunnel.Library.IpCollapse

/-!
Contract: the networks of the stable Google route (`subtract_networks` in
`deploy/add-google-stable-route.py`).

Every excluded network is taken out of the networks that are left: one that it
contains is dropped, and one that contains it is split.

Owns: that no exclusion fails, that the result has the addresses of the source
that are not excluded, and has none of them twice.

Does not own: the download of the networks, and the rule they are written to.
-/

namespace SmartFecTunnel.Deploy

open SmartFecTunnel.Library
open SmartFecTunnel.Library.IpNetwork (Covers Difference Before Within)

/-- An error of `ipaddress`, or the `ValueError` of a partial overlap. -/
inductive SubtractError where
  | ip (error : IpError)
  | partialOverlap (network removal : IpNetwork)
deriving DecidableEq

/-- One network without the one that is removed. -/
def subtractNetwork (removal network : IpNetwork) : Except SubtractError (List IpNetwork) := do
  if network.version ≠ removal.version ∨ network.overlaps removal = false then return [network]
  else if (← (removal.supernetOf network).mapError .ip) || removal = network then return []
  else if ← (network.supernetOf removal).mapError .ip then
    (network.addressExclude removal).mapError .ip
  else throw (.partialOverlap network removal)

/-- The body of the outer loop. -/
def subtractRemoval (result : List IpNetwork) (removal : IpNetwork) :
    Except SubtractError (List IpNetwork) :=
  match result with
  | [] => return []
  | network :: result => do
    let left ← subtractNetwork removal network
    return left ++ (← subtractRemoval result removal)

def subtractNetworks (source excluded : List IpNetwork) : Except SubtractError (List IpNetwork) := do
  let result ← excluded.foldlM subtractRemoval source
  let ipv4 ← (IpNetwork.collapseAddresses (result.filter (·.version = .v4))).mapError .ip
  let ipv6 ← (IpNetwork.collapseAddresses (result.filter (·.version = .v6))).mapError .ip
  return ipv4 ++ ipv6

/-! ### One exclusion -/

theorem difference_apart {network removal : IpNetwork}
    (apart : ∀ address : IpAddress, address ∈ network → address ∉ removal) :
    Difference network removal [network] := by
  intro address
  have := apart address
  rw [IpNetwork.covers_cons]
  simp only [IpNetwork.covers_nil, or_false]
  tauto

theorem difference_inside {network removal : IpNetwork} (within : Within network removal)
    (sameVersion : network.version = removal.version) : Difference network removal [] := by
  intro address
  have inside := @within.version_mem _ _ sameVersion address
  simp only [IpNetwork.covers_nil, false_iff]
  tauto

/-- Networks that overlap are nested. -/
theorem nested_of_overlaps {network removal : IpNetwork}
    (sameVersion : network.version = removal.version) (overlap : network.overlaps removal = true) :
    Within network removal ∨ Within removal network ∧ network.prefixlen ≤ removal.prefixlen := by
  have ⟨notBefore, notAfter⟩ := (IpNetwork.overlaps_iff sameVersion).mp overlap
  rcases Nat.le_total network.prefixlen removal.prefixlen with longer | shorter
  · rcases IpNetwork.within_or_apart sameVersion longer with within | before | before
    · exact .inr ⟨within, longer⟩
    · exact absurd before notAfter
    · exact absurd before notBefore
  · rcases IpNetwork.within_or_apart sameVersion.symm shorter with within | before | before
    · exact .inl within
    · exact absurd before notBefore
    · exact absurd before notAfter

/-- The error of a partial overlap is never reached. -/
theorem subtractNetwork_difference (removal network : IpNetwork) :
    ∃ networks, subtractNetwork removal network = .ok networks ∧
      Difference network removal networks := by
  unfold subtractNetwork
  by_cases sameVersion : network.version = removal.version
  · by_cases overlap : network.overlaps removal = true
    · rw [if_neg (by simp [sameVersion, overlap]), IpNetwork.supernetOf, IpNetwork.supernetOf,
        IpNetwork.subnetOf_eq sameVersion, IpNetwork.subnetOf_eq sameVersion.symm]
      by_cases inside : Within network removal
      · refine ⟨[], ?_, difference_inside inside sameVersion⟩
        rw [decide_eq_true inside]
        rfl
      · obtain ⟨contains, longer⟩ := (nested_of_overlaps sameVersion overlap).resolve_left inside
        have different : removal ≠ network := by
          rintro rfl
          exact inside contains
        obtain ⟨networks, excluded, difference⟩ :=
          IpNetwork.addressExclude_difference sameVersion contains longer
        refine ⟨networks, ?_, difference⟩
        rw [decide_eq_false inside, decide_eq_true contains, excluded]
        change (if (false || decide (removal = network)) = true then _ else _) = _
        rw [decide_eq_false different]
        rfl
    · rw [if_pos (.inr (Bool.eq_false_iff.mpr overlap))]
      refine ⟨[network], rfl, difference_apart fun address inNetwork inRemoval => ?_⟩
      -- a common address would be in both blocks
      refine overlap ((IpNetwork.overlaps_iff sameVersion).mpr ⟨?_, ?_⟩)
      · exact fun before => before.not_mem inNetwork inRemoval
      · exact fun before => before.not_mem inRemoval inNetwork
  · refine ⟨[network], if_pos (.inl sameVersion), difference_apart ?_⟩
    intro address inNetwork inRemoval
    rw [IpNetwork.mem_iff] at inNetwork inRemoval
    exact sameVersion (inNetwork.1.symm.trans inRemoval.1)

theorem subtractRemoval_covers (removal : IpNetwork) (result : List IpNetwork) :
    ∃ updated, subtractRemoval result removal = .ok updated ∧
      ∀ address, Covers updated address ↔ Covers result address ∧ address ∉ removal := by
  induction result with
  | nil => exact ⟨[], rfl, fun address => by simp only [IpNetwork.covers_nil, false_and]⟩
  | cons network rest inductionHypothesis =>
      obtain ⟨left, subtracted, difference⟩ := subtractNetwork_difference removal network
      obtain ⟨updated, isUpdated, covers⟩ := inductionHypothesis
      refine ⟨left ++ updated, ?_, fun address => ?_⟩
      · rw [subtractRemoval, subtracted, isUpdated]
        rfl
      · rw [IpNetwork.covers_append, difference address, covers address, IpNetwork.covers_cons]
        tauto

/-! ### All exclusions -/

theorem foldlM_subtractRemoval (excluded source : List IpNetwork) :
    ∃ result, excluded.foldlM subtractRemoval source = .ok result ∧
      ∀ address, Covers result address ↔ Covers source address ∧ ¬ Covers excluded address := by
  induction excluded generalizing source with
  | nil => exact ⟨source, rfl, fun address => by simp only [IpNetwork.covers_nil, not_false_eq_true,
      and_true]⟩
  | cons removal excluded inductionHypothesis =>
      obtain ⟨updated, isUpdated, removed⟩ := subtractRemoval_covers removal source
      obtain ⟨result, isResult, covers⟩ := inductionHypothesis updated
      refine ⟨result, ?_, fun address => ?_⟩
      · rw [List.foldlM_cons, isUpdated]
        exact isResult
      · rw [covers address, removed address, IpNetwork.covers_cons]
        tauto

theorem covers_filter_version (networks : List IpNetwork) (address : IpAddress) :
    Covers (networks.filter (·.version = .v4)) address ∨
      Covers (networks.filter (·.version = .v6)) address ↔ Covers networks address := by
  constructor
  · rintro (⟨network, member, inside⟩ | ⟨network, member, inside⟩)
    · exact ⟨network, List.mem_of_mem_filter member, inside⟩
    · exact ⟨network, List.mem_of_mem_filter member, inside⟩
  · rintro ⟨network, member, inside⟩
    cases version : network.version with
    | v4 => exact .inl ⟨network, List.mem_filter.mpr ⟨member, decide_eq_true version⟩, inside⟩
    | v6 => exact .inr ⟨network, List.mem_filter.mpr ⟨member, decide_eq_true version⟩, inside⟩

/-- No two networks have an address in common. -/
def NoAddressTwice (networks : List IpNetwork) : Prop :=
  networks.Pairwise fun network other => ∀ address : IpAddress,
    ¬ (address ∈ network ∧ address ∈ other)

theorem noAddressTwice_append {ipv4 ipv6 : List IpNetwork} (first : ipv4.Pairwise Before)
    (second : ipv6.Pairwise Before) (versions4 : ∀ network ∈ ipv4, network.version = .v4)
    (versions6 : ∀ network ∈ ipv6, network.version = .v6) : NoAddressTwice (ipv4 ++ ipv6) := by
  refine List.pairwise_append.mpr ⟨?_, ?_, ?_⟩
  · exact first.imp fun before address both => before.not_mem both.1 both.2
  · exact second.imp fun before address both => before.not_mem both.1 both.2
  · intro network member other otherMember address both
    have version := (IpNetwork.mem_iff.mp both.1).1.trans (versions4 network member)
    have otherVersion := (IpNetwork.mem_iff.mp both.2).1.trans (versions6 other otherMember)
    rw [version] at otherVersion
    cases otherVersion

/-- The networks that are left, those of each family in their order. -/
theorem subtractNetworks_eq (source excluded : List IpNetwork) :
    ∃ ipv4 ipv6, subtractNetworks source excluded = .ok (ipv4 ++ ipv6) ∧
      (∀ address, Covers (ipv4 ++ ipv6) address ↔
        Covers source address ∧ ¬ Covers excluded address) ∧
      NoAddressTwice (ipv4 ++ ipv6) := by
  obtain ⟨left, isLeft, difference⟩ := foldlM_subtractRemoval excluded source
  have versions : ∀ version, ∀ network ∈ left.filter (·.version = version),
      network.version = version :=
    fun _ _ member => of_decide_eq_true (List.mem_filter.mp member).2
  obtain ⟨ipv4, isIpv4, versions4, apart4, covers4⟩ :=
    IpNetwork.collapseAddresses_spec (versions .v4)
  obtain ⟨ipv6, isIpv6, versions6, apart6, covers6⟩ :=
    IpNetwork.collapseAddresses_spec (versions .v6)
  refine ⟨ipv4, ipv6, ?_, ?_, noAddressTwice_append apart4 apart6 versions4 versions6⟩
  · rw [subtractNetworks, isLeft]
    simp only [bind, Except.bind, isIpv4, isIpv6]
    rfl
  · intro address
    rw [IpNetwork.covers_append, covers4, covers6, covers_filter_version]
    exact difference address

/-- The subtraction of networks is the difference of their addresses. -/
theorem subtractNetworks_difference (source excluded : List IpNetwork) :
    ∃ result, subtractNetworks source excluded = .ok result ∧
      (∀ address : IpAddress, (∃ network ∈ result, address ∈ network) ↔
        (∃ network ∈ source, address ∈ network) ∧ ¬ ∃ network ∈ excluded, address ∈ network) ∧
      NoAddressTwice result := by
  obtain ⟨ipv4, ipv6, isResult, difference, apart⟩ := subtractNetworks_eq source excluded
  exact ⟨ipv4 ++ ipv6, isResult, difference, apart⟩

end SmartFecTunnel.Deploy

import Mathlib.Data.List.Sort
import SmartFecTunnel.Library.IpNetwork
import SmartFecTunnel.Library.Table

/-!
Contract: `collapse_addresses` of Python's `ipaddress`, on networks.

Two networks of one supernet are merged into it as long as there are any.  The
networks that are left are sorted, and one that ends inside its predecessor is
dropped.  A host is a network of one address here, and is merged like the others.

Owns: the two loops, that they keep the addresses of all networks together, and
that the result has no address twice.

Does not own: that the result is the shortest one.
-/

namespace SmartFecTunnel.Library

namespace IpNetwork

/-- By address, and a larger network before a smaller one. -/
def SortsBefore (left right : IpNetwork) : Prop :=
  left.start < right.start ∨ left.start = right.start ∧ left.prefixlen ≤ right.prefixlen

instance (left right : IpNetwork) : Decidable (SortsBefore left right) := by
  unfold SortsBefore
  infer_instance

/-- The merge of the networks on a stack into those that are kept by their supernet. -/
def mergeSubnets (toMerge : List IpNetwork) (subnets : Table IpNetwork IpNetwork) :
    Table IpNetwork IpNetwork :=
  match toMerge with
  | [] => subnets
  | network :: toMerge =>
    match _found : subnets.lookup network.supernet with
    | none => mergeSubnets toMerge (subnets.insert network.supernet network)
    | some existing =>
      if existing ≠ network then
        mergeSubnets (network.supernet :: toMerge) (subnets.erase network.supernet)
      else mergeSubnets toMerge subnets
termination_by 2 * toMerge.length + subnets.size
decreasing_by
  · rw [Table.size_insert_of_notMem _ (AList.lookup_eq_none.mp _found), List.length_cons]
    omega
  · have := Table.size_erase_of_mem (Table.mem_iff_exists_lookup.mpr ⟨existing, _found⟩)
    simp only [List.length_cons]
    omega
  · rw [List.length_cons]
    omega

/-- The networks that are kept. -/
def values (subnets : Table IpNetwork IpNetwork) : List IpNetwork :=
  subnets.entries.map Sigma.snd

/-- A network that ends inside the last one that was kept is skipped. -/
def skipSubsumed : Option IpNetwork → List IpNetwork → List IpNetwork
  | _, [] => []
  | last, network :: rest =>
    if last.any fun last => network.broadcastAddress.value ≤ last.broadcastAddress.value then
      skipSubsumed last rest
    else network :: skipSubsumed (some network) rest

def collapseAddresses (networks : List IpNetwork) : Except IpError (List IpNetwork) :=
  if networks.Pairwise fun network other => network.version = other.version then
    .ok (skipSubsumed none
      ((values (mergeSubnets networks.reverse ∅)).insertionSort SortsBefore))
  else .error .mixedVersions

/-! ### Supernets -/

theorem supernet_of_zero {network : IpNetwork} (whole : network.prefixlen = 0) :
    network.supernet = network :=
  if_pos whole

@[simp]
theorem supernet_version (network : IpNetwork) : network.supernet.version = network.version := by
  unfold supernet
  split <;> rfl

section Supernet

variable {network : IpNetwork} (inner : network.prefixlen ≠ 0)
include inner

theorem supernet_prefixlen : network.supernet.prefixlen + 1 = network.prefixlen := by
  rw [supernet, if_neg inner]
  exact Nat.sub_one_add_one inner

theorem supernet_size : network.supernet.size = 2 * network.size := by
  have shorter := supernet_prefixlen inner
  have := network.prefixlen_le
  rw [size, size, supernet_version, ← Nat.pow_succ']
  congr 1
  omega

/-- A network is the lower or the upper half of its supernet. -/
theorem start_of_supernet :
    network.start = network.supernet.start ∨
      network.start = network.supernet.start + network.size := by
  obtain ⟨blocks, isBlock⟩ := network.size_dvd_start
  have doubled := supernet_size inner
  have start_eq : network.supernet.start = network.start - network.start % network.supernet.size := by
    have shorter := supernet_prefixlen inner
    rw [size, supernet_version, ← Nat.sub_eq_of_eq_add shorter.symm]
    rw [supernet, if_neg inner]
  have remainder : network.start % network.supernet.size = network.size * (blocks % 2) := by
    rw [doubled, isBlock, Nat.mul_comm 2, Nat.mul_mod_mul_left]
  have := Nat.mod_le network.start network.supernet.size
  rcases Nat.mod_two_eq_zero_or_one blocks with even | odd
  · rw [even, Nat.mul_zero] at remainder
    omega
  · rw [odd, Nat.mul_one] at remainder
    omega

end Supernet

theorem within_supernet (network : IpNetwork) : Within network network.supernet := by
  by_cases whole : network.prefixlen = 0
  · rw [supernet_of_zero whole]
    exact ⟨Nat.le_refl _, Nat.le_refl _⟩
  · have halves := start_of_supernet whole
    have doubled := supernet_size whole
    unfold Within
    omega

theorem mem_supernet {network : IpNetwork} {address : IpAddress} (member : address ∈ network) :
    address ∈ network.supernet :=
  (within_supernet network).version_mem (supernet_version network).symm member

/-- Two networks with one supernet fill it. -/
theorem mem_supernet_iff {network other : IpNetwork} (together : network.supernet = other.supernet)
    (different : network ≠ other) {address : IpAddress} :
    address ∈ network.supernet ↔ address ∈ network ∨ address ∈ other := by
  constructor
  · intro member
    by_cases whole : network.prefixlen = 0
    · rw [supernet_of_zero whole] at member
      exact .inl member
    · by_cases otherWhole : other.prefixlen = 0
      · rw [together, supernet_of_zero otherWhole] at member
        exact .inr member
      · have sameVersion : network.version = other.version := by
          rw [← supernet_version network, together, supernet_version]
        have length := supernet_prefixlen whole
        have otherLength := supernet_prefixlen otherWhole
        have doubled := supernet_size whole
        have otherDoubled := supernet_size otherWhole
        have halves := start_of_supernet whole
        have otherHalves := start_of_supernet otherWhole
        rw [together] at length doubled halves member
        have distinct : network.start ≠ other.start := by
          intro sameStart
          refine different (eq_of_within ?_ sameVersion (by omega))
          unfold Within
          omega
        rw [mem_iff] at member ⊢
        rw [mem_iff]
        obtain ⟨isVersion, lower, upper⟩ := member
        rw [supernet_version] at isVersion
        simp only [isVersion, sameVersion, true_and]
        omega
  · rintro (member | member)
    · exact mem_supernet member
    · rw [together]
      exact mem_supernet member

/-! ### The merge -/

/-- Every network is kept by its supernet. -/
def Keyed (subnets : Table IpNetwork IpNetwork) : Prop :=
  ∀ key network, subnets.lookup key = some network → network.supernet = key

section Values

variable {subnets : Table IpNetwork IpNetwork} {key network existing : IpNetwork}

theorem mem_values : network ∈ values subnets ↔ ∃ key, subnets.lookup key = some network := by
  simp [values, Table.lookup_eq_some_iff]

theorem mem_values_insert (fresh : subnets.lookup key = none) {other : IpNetwork} :
    other ∈ values (subnets.insert key network) ↔ other = network ∨ other ∈ values subnets := by
  simp only [mem_values, Table.lookup_insert_eq]
  constructor
  · rintro ⟨otherKey, found⟩
    split at found
    · exact .inl (Option.some.inj found).symm
    · exact .inr ⟨otherKey, found⟩
  · rintro (rfl | ⟨otherKey, found⟩)
    · exact ⟨key, if_pos rfl⟩
    · refine ⟨otherKey, ?_⟩
      rw [if_neg, found]
      rintro rfl
      rw [fresh] at found
      cases found

theorem mem_values_erase (found : subnets.lookup key = some existing)
    {other : IpNetwork} :
    other ∈ values subnets ↔ other = existing ∨ other ∈ values (subnets.erase key) := by
  simp only [mem_values, Table.lookup_erase_eq]
  constructor
  · rintro ⟨otherKey, otherFound⟩
    by_cases same : otherKey = key
    · rw [same, found] at otherFound
      exact .inl (Option.some.inj otherFound).symm
    · exact .inr ⟨otherKey, by rw [if_neg same, otherFound]⟩
  · rintro (rfl | ⟨otherKey, otherFound⟩)
    · exact ⟨key, found⟩
    · split at otherFound
      · cases otherFound
      · exact ⟨otherKey, otherFound⟩

theorem keyed_empty : Keyed ∅ := by
  rintro key network ⟨⟩

theorem Keyed.insert (keyed : Keyed subnets) (network : IpNetwork) :
    Keyed (subnets.insert network.supernet network) := by
  intro key other found
  rcases Table.of_lookup_insert found with ⟨same, rfl⟩ | ⟨_, old⟩
  · exact same.symm
  · exact keyed key other old

theorem Keyed.erase (keyed : Keyed subnets) (removed : IpNetwork) :
    Keyed (subnets.erase removed) :=
  fun key other found => keyed key other (Table.of_lookup_erase found).2

end Values

/-- What the merge of a stack into a table leaves in the table. -/
structure Merged (toMerge before after : List IpNetwork) : Prop where
  covers : ∀ address, Covers after address ↔ Covers toMerge address ∨ Covers before address
  version : ∀ version, (∀ network ∈ toMerge, network.version = version) →
    (∀ network ∈ before, network.version = version) → ∀ network ∈ after, network.version = version

theorem covers_congr {front back : List IpNetwork} {first : IpNetwork}
    (split : ∀ network, network ∈ front ↔ network = first ∨ network ∈ back)
    (address : IpAddress) : Covers front address ↔ address ∈ first ∨ Covers back address := by
  unfold Covers
  simp only [split, or_and_right, exists_or, exists_eq_left]

theorem merged_insert {network : IpNetwork} {toMerge before middle after : List IpNetwork}
    (inserted : ∀ other, other ∈ middle ↔ other = network ∨ other ∈ before)
    (rest : Merged toMerge middle after) : Merged (network :: toMerge) before after := by
  constructor
  · intro address
    rw [rest.covers, covers_congr inserted, covers_cons]
    tauto
  · intro version stack table
    refine rest.version version (fun other member => stack other (List.mem_cons_of_mem _ member)) ?_
    intro other member
    rcases (inserted other).mp member with rfl | member
    · exact stack other List.mem_cons_self
    · exact table other member

/-- Two halves of one supernet are replaced by it. -/
theorem merged_supernet {network existing : IpNetwork}
    {toMerge before middle after : List IpNetwork} (together : network.supernet = existing.supernet)
    (different : network ≠ existing)
    (erased : ∀ other, other ∈ before ↔ other = existing ∨ other ∈ middle)
    (rest : Merged (network.supernet :: toMerge) middle after) :
    Merged (network :: toMerge) before after := by
  constructor
  · intro address
    rw [rest.covers, covers_congr erased, covers_cons, covers_cons,
      mem_supernet_iff together different]
    tauto
  · intro version stack table
    refine rest.version version ?_ fun other member => table other ((erased other).mpr (.inr member))
    intro other member
    rcases List.mem_cons.mp member with rfl | member
    · rw [supernet_version]
      exact stack network List.mem_cons_self
    · exact stack other (List.mem_cons_of_mem _ member)

/-- A network that is kept already. -/
theorem merged_again {network : IpNetwork} {toMerge before after : List IpNetwork}
    (member : network ∈ before) (rest : Merged toMerge before after) :
    Merged (network :: toMerge) before after := by
  constructor
  · intro address
    have inside : address ∈ network → Covers before address := fun inNetwork =>
      ⟨network, member, inNetwork⟩
    rw [rest.covers, covers_cons]
    tauto
  · exact fun version stack =>
      rest.version version fun other inStack => stack other (List.mem_cons_of_mem _ inStack)

/-- Every round of the merge takes one of these three steps. -/
theorem mergeSubnets_merged (toMerge : List IpNetwork) (subnets : Table IpNetwork IpNetwork)
    (keyed : Keyed subnets) :
    Merged toMerge (values subnets) (values (mergeSubnets toMerge subnets)) := by
  induction toMerge, subnets using mergeSubnets.induct with
  | case1 subnets =>
      rw [mergeSubnets]
      exact ⟨fun _ => by simp, fun _ _ table => table⟩
  | case2 subnets network toMerge fresh inductionHypothesis =>
      rw [mergeSubnets]
      split
      next =>
        exact merged_insert (fun other => mem_values_insert fresh)
          (inductionHypothesis (keyed.insert network))
      next found =>
        rw [fresh] at found
        cases found
  | case3 subnets network toMerge existing found different inductionHypothesis =>
      rw [mergeSubnets]
      split
      next fresh =>
        rw [found] at fresh
        cases fresh
      next other otherFound =>
        rw [found] at otherFound
        cases otherFound
        rw [if_pos different]
        exact merged_supernet (keyed _ _ found).symm (Ne.symm different)
          (fun other => mem_values_erase found) (inductionHypothesis (keyed.erase _))
  | case4 subnets network toMerge existing found same inductionHypothesis =>
      rw [mergeSubnets]
      split
      next fresh =>
        rw [found] at fresh
        cases fresh
      next other otherFound =>
        rw [found] at otherFound
        cases otherFound
        rw [if_neg same]
        have again : network = existing := (not_not.mp same).symm
        refine merged_again (mem_values.mpr ⟨network.supernet, ?_⟩) (inductionHypothesis keyed)
        rw [found, again]

/-! ### The result -/

theorem sortsBefore_total (left right : IpNetwork) :
    SortsBefore left right ∨ SortsBefore right left := by
  unfold SortsBefore
  omega

theorem sortsBefore_trans {first second third : IpNetwork} (left : SortsBefore first second)
    (right : SortsBefore second third) : SortsBefore first third := by
  unfold SortsBefore at *
  omega

instance : Std.Total SortsBefore := ⟨sortsBefore_total⟩

instance : IsTrans IpNetwork SortsBefore := ⟨fun _ _ _ => sortsBefore_trans⟩

theorem broadcastAddress_le {network other : IpNetwork} :
    network.broadcastAddress.value ≤ other.broadcastAddress.value ↔
      network.start + network.size ≤ other.start + other.size := by
  have := network.size_pos
  have := other.size_pos
  unfold broadcastAddress
  dsimp only
  omega

theorem Before.trans {first second third : IpNetwork} (left : Before first second)
    (right : Before second third) : Before first third := by
  unfold Before at *
  omega

/-- Of two networks in sorted order, one that ends later begins after the other has ended. -/
theorem before_of_sorted {last network : IpNetwork} (sameVersion : last.version = network.version)
    (sorted : SortsBefore last network)
    (longer : ¬ network.start + network.size ≤ last.start + last.size) : Before last network := by
  have := network.size_pos
  unfold SortsBefore at sorted
  by_cases larger : last.prefixlen ≤ network.prefixlen
  · rcases within_or_apart sameVersion larger with within | before | before
    · exact absurd within.2 longer
    · unfold Before at before
      omega
    · exact before
  · rcases within_or_apart sameVersion.symm (Nat.le_of_not_le larger) with within | before | before
    · have := within.1
      omega
    · exact before
    · unfold Before at before
      omega

/-- What the last loop keeps of a sorted list. -/
theorem skipSubsumed_spec {version : IpVersion} {networks : List IpNetwork}
    (sorted : networks.Pairwise SortsBefore)
    (versions : ∀ network ∈ networks, network.version = version) {last : IpNetwork}
    (lastVersion : last.version = version) (least : ∀ network ∈ networks, SortsBefore last network) :
    (∀ network ∈ skipSubsumed (some last) networks, Before last network) ∧
      (skipSubsumed (some last) networks).Pairwise Before ∧
      ∀ address, Covers (last :: skipSubsumed (some last) networks) address ↔
        Covers (last :: networks) address := by
  induction networks generalizing last with
  | nil => simp [skipSubsumed]
  | cons network rest inductionHypothesis =>
      have ⟨networkLeast, sorted⟩ := List.pairwise_cons.mp sorted
      have networkVersion := versions network List.mem_cons_self
      have restVersions : ∀ other ∈ rest, other.version = version :=
        fun other member => versions other (List.mem_cons_of_mem _ member)
      have sortsBefore := least network List.mem_cons_self
      rw [skipSubsumed]
      simp only [Option.any_some, decide_eq_true_eq, broadcastAddress_le]
      split
      next inside =>
        have within : Within network last := by
          unfold SortsBefore at sortsBefore
          exact ⟨by omega, inside⟩
        obtain ⟨begins, apart, covers⟩ := inductionHypothesis sorted restVersions lastVersion
          fun other member => least other (List.mem_cons_of_mem _ member)
        refine ⟨begins, apart, fun address => (covers address).trans ?_⟩
        have subsumed := @within.version_mem _ _ (networkVersion.trans lastVersion.symm) address
        rw [covers_cons, covers_cons, covers_cons]
        tauto
      next longer =>
        have first := before_of_sorted (lastVersion.trans networkVersion.symm) sortsBefore longer
        obtain ⟨begins, apart, covers⟩ :=
          inductionHypothesis sorted restVersions networkVersion networkLeast
        refine ⟨?_, List.pairwise_cons.mpr ⟨begins, apart⟩, ?_⟩
        · intro other member
          rcases List.mem_cons.mp member with rfl | member
          · exact first
          · exact first.trans (begins other member)
        · intro address
          rw [covers_cons, covers address, ← covers_cons]


theorem skipSubsumed_none {version : IpVersion} {networks : List IpNetwork}
    (sorted : networks.Pairwise SortsBefore)
    (versions : ∀ network ∈ networks, network.version = version) :
    (skipSubsumed none networks).Pairwise Before ∧
      ∀ address, Covers (skipSubsumed none networks) address ↔ Covers networks address := by
  cases networks with
  | nil => simp [skipSubsumed]
  | cons network rest =>
      have ⟨least, sorted⟩ := List.pairwise_cons.mp sorted
      obtain ⟨begins, apart, covers⟩ := skipSubsumed_spec sorted
        (fun other member => versions other (List.mem_cons_of_mem _ member))
        (versions network List.mem_cons_self) least
      exact ⟨List.pairwise_cons.mpr ⟨begins, apart⟩, covers⟩

theorem mem_of_mem_skipSubsumed {last : Option IpNetwork} {networks : List IpNetwork}
    {network : IpNetwork} (member : network ∈ skipSubsumed last networks) : network ∈ networks := by
  induction networks generalizing last with
  | nil => cases member
  | cons first rest inductionHypothesis =>
      rw [skipSubsumed] at member
      split at member
      · exact List.mem_cons_of_mem _ (inductionHypothesis member)
      · rcases List.mem_cons.mp member with rfl | member
        · exact List.mem_cons_self
        · exact List.mem_cons_of_mem _ (inductionHypothesis member)

/-- `collapse_addresses` of networks of one version. -/
theorem collapseAddresses_spec {version : IpVersion} {networks : List IpNetwork}
    (versions : ∀ network ∈ networks, network.version = version) :
    ∃ collapsed, collapseAddresses networks = .ok collapsed ∧
      (∀ network ∈ collapsed, network.version = version) ∧ collapsed.Pairwise Before ∧
      ∀ address, Covers collapsed address ↔ Covers networks address := by
  have together : networks.Pairwise fun network other => network.version = other.version :=
    List.pairwise_of_forall_mem_list fun network member other otherMember =>
      (versions network member).trans (versions other otherMember).symm
  have merged := mergeSubnets_merged networks.reverse ∅ keyed_empty
  have empty : values ∅ = [] := rfl
  rw [empty] at merged
  have mergedVersions : ∀ network ∈ values (mergeSubnets networks.reverse ∅),
      network.version = version := by
    refine merged.version version (fun network member => ?_) (fun _ impossible => by cases impossible)
    exact versions network (List.mem_reverse.mp member)
  have sortedVersions : ∀ network ∈
      (values (mergeSubnets networks.reverse ∅)).insertionSort SortsBefore,
      network.version = version :=
    fun network member => mergedVersions network ((List.mem_insertionSort SortsBefore).mp member)
  obtain ⟨apart, covers⟩ := skipSubsumed_none (List.pairwise_insertionSort SortsBefore _)
    sortedVersions
  refine ⟨_, if_pos together, ?_, apart, ?_⟩
  · exact fun network member => sortedVersions network (mem_of_mem_skipSubsumed member)
  · intro address
    have sameMembers : Covers ((values (mergeSubnets networks.reverse ∅)).insertionSort SortsBefore)
        address ↔ Covers (values (mergeSubnets networks.reverse ∅)) address := by
      unfold Covers
      simp only [List.mem_insertionSort]
    have reversed : Covers networks.reverse address ↔ Covers networks address := by
      unfold Covers
      simp only [List.mem_reverse]
    rw [covers, sameMembers, merged.covers, reversed]
    simp only [covers_nil, or_false]

end IpNetwork

end SmartFecTunnel.Library

import Mathlib.Data.List.TakeWhile
import SmartFecTunnel.Library.BigEndian
import SmartFecTunnel.Library.Table

/-!
Contract: the replay cache of the QUIC authentication (`ReplayCache` in
`src/quic_auth.rs`).

The source keeps a map from nonces to expiry times and a queue of the same
pairs.  `admitNonce` is the queue alone: drop what has expired, refuse a nonce that
is queued, drop the oldest pairs down to the capacity, append.

Owns:
- `Coherent`: map and queue hold the same pairs;
- that `checkAndInsert` on a coherent cache is `admitNonce`;
- how long a queued nonce stays.
-/

namespace SmartFecTunnel.Auth

open SmartFecTunnel.Library

/-- `u64::MAX`. -/
def maxU64 : Nat := 2 ^ 64 - 1

/-- `u64::saturating_add`. -/
def saturatingAdd (left right : Nat) : Nat := min (left + right) maxU64

structure ReplayCache where
  capacity : Nat
  entries : Table Bytes Nat
  order : List (Bytes × Nat)

namespace ReplayCache

def new (capacity : Nat) : Except String ReplayCache :=
  if capacity = 0 then .error "replay cache capacity must be non-zero"
  else .ok ⟨capacity, ∅, []⟩

/-- Remove the entry of a pair taken from the queue, if it is still the same. -/
def forget (entries : Table Bytes Nat) (nonce : Bytes) (expiresAt : Nat) : Table Bytes Nat :=
  if entries.lookup nonce = some expiresAt then entries.erase nonce else entries

/-- The first loop: pop every expired pair at the front. -/
def purge (now : Nat) : Table Bytes Nat → List (Bytes × Nat) → Table Bytes Nat × List (Bytes × Nat)
  | entries, [] => (entries, [])
  | entries, (nonce, expiresAt) :: rest =>
    if now < expiresAt then (entries, (nonce, expiresAt) :: rest)
    else purge now (forget entries nonce expiresAt) rest

/-- The second loop: pop pairs until there is room for one more entry. -/
def evict (capacity : Nat) :
    Table Bytes Nat → List (Bytes × Nat) → Table Bytes Nat × List (Bytes × Nat)
  | entries, [] => (entries, [])
  | entries, (nonce, expiresAt) :: rest =>
    if capacity ≤ entries.size then evict capacity (forget entries nonce expiresAt) rest
    else (entries, (nonce, expiresAt) :: rest)

/-- The expiry time of a nonce accepted at `now`. -/
def expiry (now window : Nat) : Nat := saturatingAdd (saturatingAdd now window) 1

def checkAndInsert (cache : ReplayCache) (nonce : Bytes) (now window : Nat) :
    ReplayCache × Bool :=
  let purged := purge now cache.entries cache.order
  if nonce ∈ purged.1 then ({ cache with entries := purged.1, order := purged.2 }, false)
  else
    let kept := evict cache.capacity purged.1 purged.2
    ({ cache with
        entries := kept.1.insert nonce (expiry now window)
        order := kept.2 ++ [(nonce, expiry now window)] }, true)

/-! ### The queue alone -/

/-- The pairs that are left after the expired ones at the front are gone. -/
def unexpired (now : Nat) (queue : List (Bytes × Nat)) : List (Bytes × Nat) :=
  queue.dropWhile fun pair => pair.2 ≤ now

/-- `check_and_insert` in terms of the queue. -/
def admitNonce (capacity window : Nat) (queue : List (Bytes × Nat)) (nonce : Bytes) (now : Nat) :
    List (Bytes × Nat) × Bool :=
  let live := unexpired now queue
  if nonce ∈ live.map Prod.fst then (live, false)
  else (live.drop (live.length + 1 - capacity) ++ [(nonce, expiry now window)], true)

/-- Map and queue hold the same pairs, and no nonce is queued twice. -/
structure Coherent (entries : Table Bytes Nat) (order : List (Bytes × Nat)) : Prop where
  distinct : (order.map Prod.fst).Nodup
  lookup : ∀ nonce expiresAt,
    entries.lookup nonce = some expiresAt ↔ (nonce, expiresAt) ∈ order

namespace Coherent

variable {entries : Table Bytes Nat} {order : List (Bytes × Nat)}

theorem mem_iff (coherent : Coherent entries order) (nonce : Bytes) :
    nonce ∈ entries ↔ nonce ∈ order.map Prod.fst := by
  rw [Table.mem_iff_exists_lookup, List.mem_map]
  constructor
  · rintro ⟨expiresAt, found⟩
    exact ⟨(nonce, expiresAt), (coherent.lookup nonce expiresAt).mp found, rfl⟩
  · rintro ⟨pair, member, rfl⟩
    exact ⟨pair.2, (coherent.lookup pair.1 pair.2).mpr member⟩

theorem size_eq (coherent : Coherent entries order) : entries.size = order.length := by
  obtain ⟨keys, card, isKey⟩ := entries.exists_keySet
  have same : keys = (order.map Prod.fst).toFinset := by
    ext nonce
    rw [isKey, coherent.mem_iff, List.mem_toFinset]
  rw [← card, same, List.toFinset_card_of_nodup coherent.distinct, List.length_map]

theorem forget {nonce : Bytes} {expiresAt : Nat} {rest : List (Bytes × Nat)}
    (coherent : Coherent entries ((nonce, expiresAt) :: rest)) :
    Coherent (forget entries nonce expiresAt) rest := by
  have stored : entries.lookup nonce = some expiresAt :=
    (coherent.lookup nonce expiresAt).mpr List.mem_cons_self
  have distinct := coherent.distinct
  rw [List.map_cons, List.nodup_cons] at distinct
  refine ⟨distinct.2, ?_⟩
  intro other otherExpiry
  unfold ReplayCache.forget
  rw [if_pos stored, Table.lookup_erase_eq]
  split
  next same =>
    subst same
    constructor
    · intro impossible
      cases impossible
    · intro member
      exact absurd (List.mem_map.mpr ⟨(other, otherExpiry), member, rfl⟩) distinct.1
  next different =>
    rw [coherent.lookup, List.mem_cons]
    constructor
    · rintro (same | inRest)
      · exact absurd (congrArg Prod.fst same) different
      · exact inRest
    · exact Or.inr

/-- The first loop leaves the unexpired pairs. -/
theorem purge (now : Nat) (coherent : Coherent entries order) :
    (purge now entries order).2 = unexpired now order ∧
      Coherent (purge now entries order).1 (unexpired now order) := by
  induction order generalizing entries with
  | nil => exact ⟨rfl, coherent⟩
  | cons pair rest inductionHypothesis =>
      obtain ⟨nonce, expiresAt⟩ := pair
      unfold ReplayCache.purge unexpired
      by_cases live : now < expiresAt
      · rw [if_pos live, List.dropWhile_cons_of_neg (by simpa using live)]
        exact ⟨rfl, coherent⟩
      · rw [if_neg live, List.dropWhile_cons_of_pos (by simpa using live)]
        exact inductionHypothesis coherent.forget

/-- The second loop drops the oldest pairs down to one below the capacity. -/
theorem evict (capacity : Nat) (coherent : Coherent entries order) :
    (evict capacity entries order).2 = order.drop (order.length + 1 - capacity) ∧
      Coherent (evict capacity entries order).1 (order.drop (order.length + 1 - capacity)) := by
  induction order generalizing entries with
  | nil =>
      rw [List.drop_nil]
      exact ⟨rfl, coherent⟩
  | cons pair rest inductionHypothesis =>
      obtain ⟨nonce, expiresAt⟩ := pair
      have size := coherent.size_eq
      rw [List.length_cons] at size
      unfold ReplayCache.evict
      by_cases full : capacity ≤ entries.size
      · have oneMore : (rest.length + 1 + 1 - capacity) = (rest.length + 1 - capacity) + 1 := by
          omega
        rw [if_pos full, List.length_cons, oneMore, List.drop_succ_cons]
        exact inductionHypothesis coherent.forget
      · have none : (rest.length + 1 + 1 - capacity) = 0 := by omega
        rw [if_neg full, List.length_cons, none, List.drop_zero]
        exact ⟨rfl, coherent⟩

theorem insert {nonce : Bytes} (coherent : Coherent entries order)
    (absent : nonce ∉ order.map Prod.fst) (expiresAt : Nat) :
    Coherent (entries.insert nonce expiresAt) (order ++ [(nonce, expiresAt)]) := by
  refine ⟨?_, ?_⟩
  · rw [List.map_append, List.map_singleton]
    refine List.nodup_append.mpr ⟨coherent.distinct, List.nodup_singleton _, ?_⟩
    intro left inLeft right inRight same
    rw [List.mem_singleton] at inRight
    rw [same, inRight] at inLeft
    exact absent inLeft
  · intro other otherExpiry
    rw [Table.lookup_insert_eq, List.mem_append, List.mem_singleton]
    split
    next same =>
      subst same
      constructor
      · intro found
        cases found
        exact Or.inr rfl
      · rintro (old | new)
        · exact absurd (List.mem_map.mpr ⟨(other, otherExpiry), old, rfl⟩) absent
        · rw [(Prod.mk.inj new).2]
    next different =>
      rw [coherent.lookup]
      constructor
      · exact Or.inl
      · rintro (old | new)
        · exact old
        · exact absurd (Prod.mk.inj new).1 different

end Coherent

/-- On a coherent cache `check_and_insert` does what `admitNonce` does to the queue,
and leaves the cache coherent. -/
theorem checkAndInsert_eq (cache : ReplayCache) (coherent : Coherent cache.entries cache.order)
    (nonce : Bytes) (now window : Nat) :
    (cache.checkAndInsert nonce now window).2 =
        (admitNonce cache.capacity window cache.order nonce now).2 ∧
      (cache.checkAndInsert nonce now window).1.order =
        (admitNonce cache.capacity window cache.order nonce now).1 ∧
      (cache.checkAndInsert nonce now window).1.capacity = cache.capacity ∧
      Coherent (cache.checkAndInsert nonce now window).1.entries
        (cache.checkAndInsert nonce now window).1.order := by
  obtain ⟨isQueue, purged⟩ := coherent.purge now
  unfold checkAndInsert admitNonce
  dsimp only
  by_cases queued : nonce ∈ (unexpired now cache.order).map Prod.fst
  · rw [if_pos queued, if_pos ((purged.mem_iff nonce).mpr queued), isQueue]
    exact ⟨rfl, rfl, rfl, purged⟩
  · rw [if_neg queued, if_neg (fun member => queued ((purged.mem_iff nonce).mp member)), isQueue]
    obtain ⟨isKept, kept⟩ := purged.evict cache.capacity
    rw [isKept]
    refine ⟨rfl, rfl, rfl, kept.insert ?_ _⟩
    intro member
    exact queued ((List.drop_sublist _ _).map Prod.fst |>.subset member)

/-! ### How long a nonce stays -/

theorem expiry_mono {early late : Nat} (ordered : early ≤ late) (window : Nat) :
    expiry early window ≤ expiry late window := by
  unfold expiry saturatingAdd
  omega

theorem unexpired_keeps {now expiresAt : Nat} {nonce : Bytes} (live : now < expiresAt)
    (front back : List (Bytes × Nat)) :
    ∃ kept, unexpired now (front ++ (nonce, expiresAt) :: back) =
      kept ++ (nonce, expiresAt) :: back := by
  unfold unexpired
  induction front with
  | nil =>
      refine ⟨[], ?_⟩
      rw [List.nil_append, List.dropWhile_cons_of_neg (by simpa using live)]
  | cons pair rest inductionHypothesis =>
      rw [List.cons_append]
      by_cases old : pair.2 ≤ now
      · rw [List.dropWhile_cons_of_pos (by simpa using old)]
        exact inductionHypothesis
      · rw [List.dropWhile_cons_of_neg (by simpa using old)]
        exact ⟨pair :: rest, rfl⟩

/-- A queued nonce that has not expired is refused. -/
theorem admitNonce_refuses {capacity window now expiresAt : Nat} {nonce : Bytes}
    (live : now < expiresAt) (front back : List (Bytes × Nat)) :
    (admitNonce capacity window (front ++ (nonce, expiresAt) :: back) nonce now).2 = false := by
  obtain ⟨kept, isLive⟩ := unexpired_keeps live front back
  unfold admitNonce
  rw [isLive]
  dsimp only
  rw [if_pos (by simp)]

/-- A nonce that has not expired, with few pairs behind it, stays queued. -/
theorem admitNonce_keeps {capacity window now expiresAt : Nat} {nonce : Bytes}
    {front back : List (Bytes × Nat)} (live : now < expiresAt) (other : Bytes)
    (room : (admitNonce capacity window (front ++ (nonce, expiresAt) :: back) other now).2 = true →
      back.length + 2 ≤ capacity) :
    ∃ kept more,
      (admitNonce capacity window (front ++ (nonce, expiresAt) :: back) other now).1 =
        kept ++ (nonce, expiresAt) :: (back ++ more) ∧
      more.length =
        if (admitNonce capacity window (front ++ (nonce, expiresAt) :: back) other now).2 then 1
        else 0 := by
  obtain ⟨kept, isLive⟩ := unexpired_keeps live front back
  unfold admitNonce at room ⊢
  rw [isLive] at room ⊢
  dsimp only at room ⊢
  by_cases queued : other ∈ (kept ++ (nonce, expiresAt) :: back).map Prod.fst
  · rw [if_pos queued]
    exact ⟨kept, [], by rw [List.append_nil], rfl⟩
  · rw [if_neg queued] at room ⊢
    have few : (kept ++ (nonce, expiresAt) :: back).length + 1 - capacity ≤ kept.length := by
      have enough := room rfl
      rw [List.length_append, List.length_cons]
      omega
    refine ⟨kept.drop ((kept ++ (nonce, expiresAt) :: back).length + 1 - capacity),
      [(other, expiry now window)], ?_, rfl⟩
    rw [List.drop_append_of_le_length few, List.append_assoc]
    rfl

/-- The queue is ordered by expiry, with nothing beyond `latest`. -/
structure Ordered (queue : List (Bytes × Nat)) (latest : Nat) : Prop where
  sorted : queue.Pairwise fun left right => left.2 ≤ right.2
  bounded : ∀ pair ∈ queue, pair.2 ≤ latest

theorem Ordered.admitNonce {window clock now : Nat} {queue : List (Bytes × Nat)}
    (ordered : Ordered queue (expiry clock window)) (later : clock ≤ now) (capacity : Nat)
    (nonce : Bytes) :
    Ordered (admitNonce capacity window queue nonce now).1 (expiry now window) := by
  have live : List.Sublist (unexpired now queue) queue := List.dropWhile_sublist _
  have within : ∀ {part}, List.Sublist part queue → Ordered part (expiry now window) :=
    fun sublist => ⟨ordered.sorted.sublist sublist, fun pair member =>
      (ordered.bounded pair (sublist.subset member)).trans (expiry_mono later window)⟩
  unfold ReplayCache.admitNonce
  dsimp only
  split
  · exact within live
  · have kept := within ((List.drop_sublist ((unexpired now queue).length + 1 - capacity)
      (unexpired now queue)).trans live)
    refine ⟨?_, ?_⟩
    · rw [List.pairwise_append]
      refine ⟨kept.sorted, List.pairwise_singleton _ _, ?_⟩
      intro left inLeft right inRight
      rw [List.mem_singleton] at inRight
      rw [inRight]
      exact kept.bounded left inLeft
    · intro pair member
      rcases List.mem_append.mp member with old | new
      · exact kept.bounded pair old
      · rw [List.mem_singleton] at new
        rw [new]

/-- Once the newest pair has expired, its nonce is admitted again. -/
theorem admitNonce_expired {capacity window now expiresAt : Nat} {nonce : Bytes}
    {front : List (Bytes × Nat)} {latest : Nat}
    (ordered : Ordered (front ++ [(nonce, expiresAt)]) latest) (expired : expiresAt ≤ now) :
    (admitNonce capacity window (front ++ [(nonce, expiresAt)]) nonce now).2 = true := by
  have all : unexpired now (front ++ [(nonce, expiresAt)]) = [] := by
    unfold unexpired
    rw [List.dropWhile_eq_nil_iff]
    intro pair member
    rw [decide_eq_true_eq]
    rcases List.mem_append.mp member with old | new
    · have before := (List.pairwise_append.mp ordered.sorted).2.2 pair old _
        (List.mem_singleton_self _)
      exact before.trans expired
    · rw [List.mem_singleton] at new
      rw [new]
      exact expired
  unfold admitNonce
  rw [all]
  rfl

end ReplayCache

end SmartFecTunnel.Auth

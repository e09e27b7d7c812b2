import SmartFecTunnel.Library.Recent
import SmartFecTunnel.Library.Run
import SmartFecTunnel.Auth.ReplayCache

/-!
Contract: the replay cache as a plain log of what it has accepted.

A run emits the calls it accepts, so its outputs are the log.  With a clock that does not
go back and one window, the queue is the newest `capacity` entries of the log without
those that have expired.  The map and the size need no such condition.

Owns: when a call is refused, in terms of the log, and the bounds of the cache after any
calls.

Does not own: which nonces come from authentic envelopes.
-/

namespace SmartFecTunnel.Auth

open SmartFecTunnel.Library

namespace ReplayCache

/-- One call of `check_and_insert`. -/
structure Check where
  nonce : Bytes
  now : Nat
  window : Nat
deriving DecidableEq, Repr

/-- A call that is accepted is emitted. -/
def step (cache : ReplayCache) (check : Check) : Option (ReplayCache × List Check) :=
  let result := cache.checkAndInsert check.nonce check.now check.window
  some (result.1, if result.2 then [check] else [])

/-- The nonce is among the last `capacity` accepted ones, and was accepted at a time from
which the window has not passed. -/
def Logged (capacity : Nat) (log : List Check) (check : Check) : Prop :=
  check.nonce ∈ (log.rtake capacity).map Check.nonce ∧
    ∃ earlier ∈ log, earlier.nonce = check.nonce ∧
      check.now < earlier.now + check.window + 1

instance (capacity : Nat) (log : List Check) (check : Check) :
    Decidable (Logged capacity log check) :=
  inferInstanceAs (Decidable (_ ∧ _))

/-- What the cache holds after any calls: map and queue with the same pairs, no nonce twice,
never more than the capacity, and an eviction that makes room whenever it is needed. -/
structure WithinCapacity (capacity : Nat) (cache : ReplayCache) : Prop where
  coherent : Coherent cache.entries cache.order
  order : cache.order.length ≤ capacity
  entries : cache.entries.size ≤ capacity
  room : ∀ now,
    (evict capacity (purge now cache.entries cache.order).1
      (purge now cache.entries cache.order).2).1.size < capacity

/-! ### The bounds -/

theorem length_admitNonce_le {capacity : Nat} (positive : 0 < capacity)
    {queue : List (Bytes × Nat)} (short : queue.length ≤ capacity) (window : Nat) (nonce : Bytes)
    (now : Nat) : (admitNonce capacity window queue nonce now).1.length ≤ capacity := by
  have live : (unexpired now queue).length ≤ queue.length := by
    simpa [unexpired] using (List.dropWhile_sublist _).length_le
  unfold admitNonce
  dsimp only
  split
  · exact live.trans short
  · simp only [List.length_append, List.length_drop, List.length_singleton]
    omega

/-- The second loop ends below the capacity. -/
theorem size_evict_lt {capacity : Nat} (positive : 0 < capacity) {entries : Table Bytes Nat}
    {order : List (Bytes × Nat)} (coherent : Coherent entries order) :
    (evict capacity entries order).1.size < capacity := by
  have size := (coherent.evict capacity).2.size_eq
  rw [List.length_drop] at size
  omega

/-- What a call keeps, whatever its time and window. -/
structure Steady (capacity : Nat) (cache : ReplayCache) : Prop where
  sameCapacity : cache.capacity = capacity
  coherent : Coherent cache.entries cache.order
  order : cache.order.length ≤ capacity

theorem Steady.check {capacity : Nat} {cache : ReplayCache} (steady : Steady capacity cache)
    (positive : 0 < capacity) (check : Check) :
    Steady capacity (cache.checkAndInsert check.nonce check.now check.window).1 := by
  obtain ⟨_, isOrder, sameCapacity, coherent⟩ :=
    cache.checkAndInsert_eq steady.coherent check.nonce check.now check.window
  refine ⟨sameCapacity.trans steady.sameCapacity, coherent, ?_⟩
  rw [isOrder, steady.sameCapacity]
  exact length_admitNonce_le positive steady.order _ _ _

theorem Steady.withinCapacity {capacity : Nat} {cache : ReplayCache}
    (steady : Steady capacity cache) (positive : 0 < capacity) : WithinCapacity capacity cache where
  coherent := steady.coherent
  order := steady.order
  entries := steady.coherent.size_eq ▸ steady.order
  room := by
    intro now
    obtain ⟨isQueue, purged⟩ := steady.coherent.purge now
    rw [isQueue]
    exact size_evict_lt positive purged

/-! ### The log -/

/-- What the queue holds of an accepted call. -/
def Check.pair (check : Check) : Bytes × Nat := (check.nonce, expiry check.now check.window)

/-- Calls in the order of the clock, all with the same window and without saturation. -/
structure Regular (window : Nat) (checks : List Check) : Prop where
  inOrder : checks.Pairwise fun early late => early.now ≤ late.now
  sameWindow : ∀ check ∈ checks, check.window = window
  fits : ∀ check ∈ checks, check.now + window + 1 ≤ maxU64

theorem Regular.sublist {window : Nat} {some_ all : List Check} (regular : Regular window all)
    (isSublist : some_.Sublist all) : Regular window some_ where
  inOrder := regular.inOrder.sublist isSublist
  sameWindow := fun check member => regular.sameWindow check (isSublist.subset member)
  fits := fun check member => regular.fits check (isSublist.subset member)

theorem Regular.expiry_eq {window : Nat} {checks : List Check} (regular : Regular window checks)
    {check : Check} (member : check ∈ checks) :
    expiry check.now check.window = check.now + window + 1 := by
  have fits := regular.fits check member
  rw [regular.sameWindow check member]
  unfold expiry saturatingAdd
  omega

/-- Nonces expire in the order in which they were accepted. -/
theorem Regular.expiresInOrder {window : Nat} {checks : List Check}
    (regular : Regular window checks) (now : Nat) :
    ExpiresInOrder (fun pair => pair.2 ≤ now) (checks.map Check.pair) := by
  unfold ExpiresInOrder
  rw [List.pairwise_map]
  apply regular.inOrder.imp_of_mem
  intro early late isEarly isLate ordered
  simp only [Check.pair, decide_eq_true_eq, regular.expiry_eq isEarly, regular.expiry_eq isLate]
  omega

/-- The pairs of the newest accepted calls. -/
def newest (capacity : Nat) (log : List Check) : List (Bytes × Nat) :=
  (log.rtake capacity).map Check.pair

theorem Regular.newest_expiresInOrder {window : Nat} {log : List Check} (regular : Regular window log)
    (capacity now : Nat) : ExpiresInOrder (fun pair => pair.2 ≤ now) (newest capacity log) :=
  (regular.sublist (rtake_suffix log capacity).sublist).expiresInOrder now

/-- A nonce is refused when it is live among the newest of the log. -/
theorem Regular.mem_unexpired_iff {window : Nat} {log : List Check} {check : Check}
    (regular : Regular window (log ++ [check])) (capacity : Nat) :
    check.nonce ∈ (unexpired check.now (newest capacity log)).map Prod.fst ↔
      Logged capacity log check := by
  have regularLog := regular.sublist (List.sublist_append_left log [check])
  have isSuffix := rtake_suffix log capacity
  have sameWindow : check.window = window := regular.sameWindow check (by simp)
  have alive : ∀ earlier ∈ log, check.now < expiry earlier.now earlier.window ↔
      check.now < earlier.now + check.window + 1 := by
    intro earlier member
    rw [regularLog.expiry_eq member, sameWindow]
  unfold unexpired
  rw [dropWhile_eq_filter (regularLog.newest_expiresInOrder capacity check.now)]
  simp only [newest, List.mem_map, List.mem_filter, Logged, Bool.not_eq_true',
    decide_eq_false_iff_not, Nat.not_le]
  constructor
  · rintro ⟨pair, ⟨⟨earlier, recent, rfl⟩, live⟩, sameNonce⟩
    refine ⟨⟨earlier, recent, sameNonce⟩, earlier, isSuffix.subset recent, sameNonce, ?_⟩
    exact (alive earlier (isSuffix.subset recent)).mp live
  · rintro ⟨⟨recent, isRecent, recentNonce⟩, earlier, member, sameNonce, live⟩
    -- An acceptance that is not among the newest is older than the one that is.
    have isLive : ∃ entry ∈ log.rtake capacity, entry.nonce = check.nonce ∧
        check.now < entry.now + check.window + 1 := by
      obtain ⟨front, isLog⟩ := isSuffix
      have ordered := regularLog.inOrder
      rw [← isLog, List.pairwise_append] at ordered
      rw [← isLog, List.mem_append] at member
      rcases member with old | new
      · have notLater := ordered.2.2 earlier old recent isRecent
        exact ⟨recent, isRecent, recentNonce, by omega⟩
      · exact ⟨earlier, new, sameNonce, live⟩
    obtain ⟨entry, isEntry, entryNonce, entryLive⟩ := isLive
    exact ⟨entry.pair, ⟨⟨entry, isEntry, rfl⟩,
      (alive entry (isSuffix.subset isEntry)).mpr entryLive⟩, entryNonce⟩

/-- The queue is the newest part of the log, as far as it has not expired. -/
structure Follows (capacity : Nat) (past log : List Check) (cache : ReplayCache) : Prop where
  accepted : log.Sublist past
  queue : ∀ now, (∀ earlier ∈ past, earlier.now ≤ now) →
    unexpired now cache.order = unexpired now (newest capacity log)

theorem unexpired_unexpired {early late : Nat} (ordered : early ≤ late)
    (queue more : List (Bytes × Nat)) :
    unexpired late (unexpired early queue ++ more) = unexpired late (queue ++ more) := by
  apply dropWhile_dropWhile_append
  intro pair
  simp only [decide_eq_true_eq]
  omega

theorem Follows.check {capacity window : Nat} {past log : List Check} {cache : ReplayCache}
    (follows : Follows capacity past log cache) (steady : Steady capacity cache)
    (positive : 0 < capacity) {check : Check} (regular : Regular window (past ++ [check])) :
    Follows capacity (past ++ [check])
      (log ++ if (cache.checkAndInsert check.nonce check.now check.window).2 then [check] else [])
      (cache.checkAndInsert check.nonce check.now check.window).1 := by
  obtain ⟨isAdmitted, isOrder, _, _⟩ :=
    cache.checkAndInsert_eq steady.coherent check.nonce check.now check.window
  have before := follows.queue check.now fun earlier member =>
    (List.pairwise_append.mp regular.inOrder).2.2 earlier member check (List.mem_singleton_self _)
  rw [steady.sameCapacity] at isAdmitted isOrder
  unfold admitNonce at isAdmitted isOrder
  rw [before] at isAdmitted isOrder
  dsimp only at isAdmitted isOrder
  split at isAdmitted
  next queued =>
    rw [if_pos queued] at isOrder
    rw [isAdmitted, if_neg Bool.false_ne_true, List.append_nil]
    refine ⟨follows.accepted.trans (List.sublist_append_left _ _), ?_⟩
    intro now later
    have noSooner : check.now ≤ now := later check (by simp)
    have stays := unexpired_unexpired noSooner (newest capacity log) []
    simp only [List.append_nil] at stays
    rw [isOrder, stays]
  next fresh =>
    rw [if_neg fresh] at isOrder
    rw [isAdmitted, if_pos rfl]
    refine ⟨follows.accepted.append (List.Sublist.refl _), ?_⟩
    intro now later
    have noSooner : check.now ≤ now := later check (by simp)
    obtain ⟨others, rfl⟩ : ∃ others, capacity = others + 1 := ⟨capacity - 1, by omega⟩
    have regularLog := regular.sublist
      (follows.accepted.trans (List.sublist_append_left past [check]))
    -- One entry fewer of the old log, and the new one behind it.
    have isNewest : newest (others + 1) (log ++ [check]) = newest others log ++ [check.pair] := by
      simp [newest, List.rtake_concat_succ]
    have kept : (unexpired check.now (newest (others + 1) log)).drop
        ((unexpired check.now (newest (others + 1) log)).length + 1 - (others + 1)) =
          unexpired check.now (newest others log) := by
      have commuted := dropWhile_rtake (regularLog.newest_expiresInOrder (others + 1) check.now) others
      rw [newest, rtake_map, rtake_rtake _ (Nat.le_succ others)] at commuted
      simpa [unexpired, newest, List.rtake] using commuted.symm
    rw [isOrder, kept, isNewest]
    exact unexpired_unexpired noSooner (newest others log) [check.pair]

/-- After any calls the cache is within its capacity.  If the clock has not gone back and the
window is one, the next call is refused exactly when the log of the accepted calls says so. -/
theorem cache_refines_log {capacity : Nat} {start : ReplayCache}
    (isNew : new capacity = .ok start) (past : List Check) :
    ∃ cache log, run step start past = some (cache, log) ∧ WithinCapacity capacity cache ∧
      ∀ window check, Regular window (past ++ [check]) →
        ((cache.checkAndInsert check.nonce check.now check.window).2 = false ↔
          Logged capacity log check) := by
  unfold new at isNew
  split at isNew
  next => cases isNew
  next notZero =>
    cases isNew
    have positive := Nat.pos_of_ne_zero notZero
    obtain ⟨cache, log, ran, steady⟩ := run_induction step ⟨capacity, ∅, []⟩ past
      (fun _ _ cache => Steady capacity cache)
      ⟨rfl, ⟨List.nodup_nil, fun nonce expiresAt => by simp⟩, Nat.zero_le _⟩
      (fun _ check _ cache _ _ steady => ⟨_, _, rfl, steady.check positive check⟩)
    refine ⟨cache, log, ran, steady.withinCapacity positive, ?_⟩
    intro window check regular
    have follows : Follows capacity past log cache ∧ Steady capacity cache := by
      apply run_invariant ran fun past log cache =>
        Follows capacity past log cache ∧ Steady capacity cache
      · exact ⟨⟨List.Sublist.refl _, fun _ _ => by simp [newest]⟩, rfl,
          ⟨List.nodup_nil, fun nonce expiresAt => by simp⟩, Nat.zero_le _⟩
      · intro front next log cache _ _ isPrefix _ stepped both
        cases stepped
        have front_ := regular.sublist
          (isPrefix.sublist.trans (List.sublist_append_left past [check]))
        exact ⟨both.1.check both.2 positive front_, both.2.check positive next⟩
    have before := follows.1.queue check.now fun earlier member =>
      (List.pairwise_append.mp regular.inOrder).2.2 earlier member check
        (List.mem_singleton_self _)
    have regularLog : Regular window (log ++ [check]) :=
      regular.sublist (follows.1.accepted.append (List.Sublist.refl _))
    obtain ⟨isAdmitted, _⟩ :=
      cache.checkAndInsert_eq steady.coherent check.nonce check.now check.window
    rw [isAdmitted, ← regularLog.mem_unexpired_iff capacity, ← before]
    unfold admitNonce
    dsimp only
    split
    next queued => simp [queued]
    next fresh => simp [fresh]

/-- The second test of the cache: a nonce accepted at 100 is refused at 130 and accepted
again at 131. -/
theorem cache_refines_log_expired :
    ∃ cache log,
      run step ⟨2, ∅, []⟩ [⟨[9], 100, 30⟩, ⟨[9], 130, 30⟩] = some (cache, log) ∧
        WithinCapacity 2 cache ∧
        ∀ window check, Regular window ([⟨[9], 100, 30⟩, ⟨[9], 130, 30⟩] ++ [check]) →
          ((cache.checkAndInsert check.nonce check.now check.window).2 = false ↔
            Logged 2 log check) :=
  @cache_refines_log 2 ⟨2, ∅, []⟩ rfl _

end ReplayCache

end SmartFecTunnel.Auth

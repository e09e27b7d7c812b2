import SmartFecTunnel.Relay.SessionSafety

/-!
Contract: the relay client over all its connections (`run_client` in `src/quic_relay.rs`).

An attempt fails, or it leads to a connection with a session on it.  The session ends with an
error, and the other end and the datagrams on the way may outlive it.  After each attempt the
client waits, the next time twice as long; an authenticated connection resets the wait.

Owns: the attempts and waits, and what the connections carry together.

Does not own: how an attempt goes, and reliable lanes.
-/

namespace SmartFecTunnel.Relay

open SmartFecTunnel.Library

def second : Nat := 1_000_000_000

/-- The first wait and the longest. -/
def firstDelay : Nat := second
def longestDelay : Nat := 30 * second

inductive Phase where
  | connecting
  | connected
  | waiting (wakeAt : Nat)
deriving DecidableEq, Repr

/-- The connections are all that there have been; the session is on the last one. -/
structure RelayClient (Peer : Type*) where
  delay : Nat
  phase : Phase
  connections : List (Carrier Peer)

def RelayClient.start {Peer : Type*} : RelayClient Peer := ⟨firstDelay, .connecting, []⟩

/-- `failed` is an attempt that does not come to a session: no connection, no authentication or
lanes that cannot be had. -/
inductive ReconnectEvent (Peer : Type*) where
  | failed (now : Nat)
  | authenticated (now : Nat)
  | connection (place : Nat) (event : Event Peer)
  | sessionEnded (now : Nat)
  | woken (now : Nat)

inductive ReconnectObservation (Peer : Type*) where
  | authenticated
  | waits (delay : Nat)
  | carried (place : Nat) (observation : Observation Peer)

namespace RelayClient

variable {Peer : Type*}

/-- `sleep(delay)`, and the next delay. -/
def retry (client : RelayClient Peer) (now : Nat) : RelayClient Peer :=
  { client with
    phase := .waiting (now + client.delay)
    delay := min (client.delay * 2) longestDelay }

def step (client : RelayClient Peer) :
    ReconnectEvent Peer → Option (RelayClient Peer × List (ReconnectObservation Peer))
  | .failed now =>
    if client.phase = .connecting then some (client.retry now, [.waits client.delay]) else none
  | .authenticated now =>
    if client.phase = .connecting then
      some (⟨firstDelay, .connected, client.connections ++ [.start now]⟩, [.authenticated])
    else none
  | .connection place event =>
    client.connections[place]?.bind fun carrier =>
    (carrier.step event).map fun result =>
      ({ client with connections := client.connections.set place result.1 },
        result.2.map (.carried place))
  | .sessionEnded now =>
    if client.phase = .connected ∧ ∀ carrier ∈ client.connections.getLast?, carrier.client = none then
      some (client.retry now, [.waits client.delay])
    else none
  | .woken now =>
    match client.phase with
    | .waiting wakeAt => if wakeAt ≤ now then some ({ client with phase := .connecting }, []) else none
    | _ => none

end RelayClient

/-! ### What the client is for -/

section Traces

variable {Peer : Type*}

/-- What is seen of a connection, with its place. -/
def ReconnectObservation.carried? : ReconnectObservation Peer → Option (Nat × Observation Peer)
  | .carried place observation => some (place, observation)
  | _ => none

/-- What is seen of the connections. -/
def carried (seen : List (ReconnectObservation Peer)) : List (Nat × Observation Peer) :=
  seen.filterMap ReconnectObservation.carried?

def ReconnectObservation.count (failures : Nat) : ReconnectObservation Peer → Nat
  | .authenticated => 0
  | .waits _ => failures + 1
  | .carried _ _ => failures

/-- The waits since the client was authenticated the last time. -/
def failures (seen : List (ReconnectObservation Peer)) : Nat :=
  seen.foldl ReconnectObservation.count 0

/-- How long the client waits after so many waits. -/
def backoff (failures : Nat) : Nat := min (2 ^ failures * second) longestDelay

/-- What is so in every state. -/
structure Reconnects (client : RelayClient Peer) (seen : List (ReconnectObservation Peer)) :
    Prop where
  oneSession : ∀ (place : Nat) (carrier : Carrier Peer), client.connections[place]? = some carrier →
    carrier.client.isSome → client.phase = .connected ∧ place + 1 = client.connections.length
  waits : ∀ front delay, front ++ [.waits delay] <+: seen → delay = backoff (failures front)
  up : ∃ way, LossyChannel (upward ((carried seen).map Prod.snd)) way
  down : ∃ way, LossyChannel (downward ((carried seen).map Prod.snd)) way
  replies : ∀ place front peer payload,
    front ++ [.toLocal peer payload] <+: outputsOf place (carried seen) →
    lastPeer front = some peer

end Traces

/-! ### One event -/

section Steps

variable {Peer : Type*}

/-- A session that has ended does not come back. -/
theorem client_of_step {carrier next : Carrier Peer} {event : Event Peer}
    {emitted : List (Observation Peer)} (stepped : carrier.step event = some (next, emitted))
    (isUp : next.client.isSome) : carrier.client.isSome := by
  cases event with
  | client input failsAfter =>
      obtain ⟨client, isClient, _⟩ := Option.bind_eq_some_iff.mp stepped
      rw [isClient]
      rfl
  | server input failsAfter =>
      obtain ⟨server, _, isStep⟩ := Option.bind_eq_some_iff.mp stepped
      obtain ⟨toServer, _, isNext⟩ := Option.map_eq_some_iff.mp isStep
      cases isNext
      exact isUp
  | clientFails =>
      obtain ⟨client, _, isNext⟩ := Option.map_eq_some_iff.mp stepped
      cases isNext
      cases isUp
  | serverFails =>
      obtain ⟨server, _, isNext⟩ := Option.map_eq_some_iff.mp stepped
      cases isNext
      exact isUp
  | lostToServer frame =>
      obtain ⟨toServer, _, isNext⟩ := Option.map_eq_some_iff.mp stepped
      cases isNext
      exact isUp
  | lostToClient frame =>
      obtain ⟨toClient, _, isNext⟩ := Option.map_eq_some_iff.mp stepped
      cases isNext
      exact isUp

@[simp] theorem carried_append (front back : List (ReconnectObservation Peer)) :
    carried (front ++ back) = carried front ++ carried back := List.filterMap_append

theorem carried_connection (place : Nat) (observed : List (Observation Peer)) :
    carried (observed.map (.carried place)) = observed.map fun output => (place, output) := by
  rw [carried, List.filterMap_map]
  exact List.filterMap_eq_map ▸ rfl

theorem failures_connection (failuresBefore place : Nat) (observed : List (Observation Peer)) :
    (observed.map (.carried place)).foldl ReconnectObservation.count failuresBefore =
      failuresBefore := by
  induction observed with
  | nil => rfl
  | cons first rest inductionHypothesis => exact inductionHypothesis

theorem backoff_succ (count : Nat) :
    min (backoff count * 2) longestDelay = backoff (count + 1) := by
  unfold backoff
  rw [Nat.pow_succ, Nat.mul_right_comm]
  omega

/-- A wait is as long as the waits before it tell. -/
def IsBackoff (front : List (ReconnectObservation Peer)) (item : ReconnectObservation Peer) : Prop :=
  ∀ delay, item = .waits delay → delay = backoff (failures front)

/-- The invariant. -/
structure ReconnectReached (client : RelayClient Peer) (seen : List (ReconnectObservation Peer))
    (bound : Nat) : Prop where
  family : Family Carrier.step (fun carrier => ∃ now, carrier = .start now) bound
    client.connections (carried seen)
  oneSession : ∀ (place : Nat) (carrier : Carrier Peer), client.connections[place]? = some carrier →
    carrier.client.isSome → client.phase = .connected ∧ place + 1 = client.connections.length
  delay : client.delay = backoff (failures seen)
  waits : ∀ front item, front ++ [item] <+: seen → IsBackoff front item

namespace ReconnectReached

variable {client : RelayClient Peer} {seen : List (ReconnectObservation Peer)} {bound : Nat}

theorem start : ReconnectReached (.start : RelayClient Peer) [] 0 where
  family := .empty
  oneSession _ _ found := nomatch found
  delay := by
    change firstDelay = backoff 0
    decide
  waits _ _ isPrefix := by
    have short := isPrefix.length_le
    simp at short

/-- The client waits, with no session up. -/
theorem retry (reached : ReconnectReached client seen bound) (now : Nat)
    (noSession : ∀ carrier ∈ client.connections, carrier.client = none) :
    ReconnectReached (client.retry now) (seen ++ [.waits client.delay]) (bound + 1) where
  family := by
    rw [carried_append]
    exact (List.append_nil (carried seen)).symm ▸ reached.family.mono (Nat.le_succ bound)
  oneSession place carrier found isUp := by
    rw [noSession carrier (List.mem_of_getElem? found)] at isUp
    cases isUp
  delay := by
    rw [failures, List.foldl_append]
    change min (client.delay * 2) longestDelay = backoff (failures seen + 1)
    rw [reached.delay, backoff_succ]
  waits := front_append reached.waits fun front item isPrefix delay isWait => by
    obtain ⟨rfl, rfl⟩ := front_singleton isPrefix
    cases isWait
    rw [List.append_nil]
    exact reached.delay

theorem authenticated (reached : ReconnectReached client seen bound) (now : Nat)
    (isConnecting : client.phase = .connecting) :
    ReconnectReached ⟨firstDelay, .connected, client.connections ++ [.start now]⟩
      (seen ++ [.authenticated]) (bound + 1) where
  family := by
    rw [carried_append]
    exact (List.append_nil (carried seen)).symm ▸
      (reached.family.mono (Nat.le_succ bound)).add ⟨now, rfl⟩
  oneSession place carrier found isUp := by
    rcases getElem?_snoc found with old | ⟨isPlace, _⟩
    · -- the older sessions are over
      have ⟨isConnected, _⟩ := reached.oneSession place carrier old isUp
      cases isConnecting.symm.trans isConnected
    · refine ⟨rfl, ?_⟩
      rw [isPlace, List.length_append, List.length_singleton]
  delay := by
    rw [failures, List.foldl_append]
    change firstDelay = backoff 0
    decide
  waits := front_append reached.waits fun front item isPrefix delay isWait => by
    obtain ⟨_, rfl⟩ := front_singleton isPrefix
    cases isWait

theorem connection (reached : ReconnectReached client seen bound) {place : Nat}
    {carrier next : Carrier Peer} {event : Event Peer} {emitted : List (Observation Peer)}
    (found : client.connections[place]? = some carrier)
    (stepped : carrier.step event = some (next, emitted)) :
    ReconnectReached { client with connections := client.connections.set place next }
      (seen ++ emitted.map (.carried place)) (bound + 1) where
  family := by
    rw [carried_append, carried_connection]
    exact reached.family.move found stepped
  oneSession other last isLast isUp := by
    rw [List.length_set]
    rw [List.getElem?_set] at isLast
    split at isLast
    next same =>
      split at isLast
      next =>
        cases isLast
        rw [← same]
        exact reached.oneSession place carrier found (client_of_step stepped isUp)
      next => cases isLast
    next => exact reached.oneSession other last isLast isUp
  delay := by
    rw [failures, List.foldl_append, failures_connection]
    exact reached.delay
  waits := front_append reached.waits fun front item isPrefix delay isWait => by
    obtain ⟨_, _, isItem⟩ := List.mem_map.mp (mem_of_front isPrefix)
    rw [isWait] at isItem
    cases isItem

theorem step {next : RelayClient Peer} {event : ReconnectEvent Peer}
    {emitted : List (ReconnectObservation Peer)} (reached : ReconnectReached client seen bound)
    (stepped : client.step event = some (next, emitted)) :
    ReconnectReached next (seen ++ emitted) (bound + 1) := by
  have quiet : client.phase ≠ .connected → ∀ carrier ∈ client.connections, carrier.client = none := by
    intro notConnected carrier member
    obtain ⟨place, found⟩ := List.mem_iff_getElem?.mp member
    by_contra isUp
    exact notConnected (reached.oneSession place carrier found (Option.isSome_iff_ne_none.mpr isUp)).1
  cases event with
  | failed now =>
      unfold RelayClient.step at stepped
      dsimp only at stepped
      split at stepped
      next isConnecting =>
        cases stepped
        exact reached.retry now (quiet (by rw [isConnecting]; decide))
      next => cases stepped
  | authenticated now =>
      unfold RelayClient.step at stepped
      dsimp only at stepped
      split at stepped
      next isConnecting =>
        cases stepped
        exact reached.authenticated now isConnecting
      next => cases stepped
  | connection place event =>
      obtain ⟨carrier, found, isStep⟩ := Option.bind_eq_some_iff.mp stepped
      obtain ⟨⟨after, outputs⟩, isAfter, isNext⟩ := Option.map_eq_some_iff.mp isStep
      cases isNext
      exact reached.connection found isAfter
  | sessionEnded now =>
      unfold RelayClient.step at stepped
      dsimp only at stepped
      split at stepped
      next isOver =>
        cases stepped
        refine reached.retry now fun carrier member => ?_
        obtain ⟨place, found⟩ := List.mem_iff_getElem?.mp member
        by_contra isUp
        -- only the last session could still be up, and it is over
        have ⟨_, isLast⟩ := reached.oneSession place carrier found (Option.isSome_iff_ne_none.mpr isUp)
        apply isUp
        apply isOver.2
        rw [List.getLast?_eq_getElem?, ← isLast]
        exact found
      next => cases stepped
  | woken now =>
      unfold RelayClient.step at stepped
      dsimp only at stepped
      split at stepped
      next wakeAt isWaiting =>
        split at stepped
        next =>
          cases stepped
          rw [List.append_nil]
          refine ⟨reached.family.mono (Nat.le_succ bound), ?_, reached.delay, reached.waits⟩
          intro place carrier found isUp
          rw [quiet (by rw [isWaiting]; exact nofun) carrier (List.mem_of_getElem? found)] at isUp
          cases isUp
        next => cases stepped
      next => cases stepped

end ReconnectReached

/-! ### Every run -/

/-- However attempts fail and sessions end: there is one session at most, a wait is twice as long
as the one before it up to half a minute and starts at a second after each authentication, and
all connections together give nothing out more often than it was taken in. -/
theorem reconnecting (events : List (ReconnectEvent Peer)) (few : events.length ≤ 2 ^ 64)
    (client : RelayClient Peer) (seen : List (ReconnectObservation Peer))
    (ran : run RelayClient.step .start events = some (client, seen)) : Reconnects client seen := by
  have reached := run_invariant ran
    (fun past seen client => ReconnectReached client seen past.length) .start
    fun past event seen client next emitted _ _ stepped reached => by
      rw [List.length_append, List.length_singleton]
      exact reached.step stepped
  have each : ∀ place < client.connections.length, ∃ start inputs carrier,
      inputs.length ≤ 2 ^ 64 ∧
      run Carrier.step (.start start) inputs = some (carrier, outputsOf place (carried seen)) := by
    intro place within
    obtain ⟨_, inputs, ⟨start, rfl⟩, short, ranInputs⟩ :=
      reached.family.ran place _ (List.getElem?_eq_getElem within)
    exact ⟨start, inputs, _, short.trans few, ranInputs⟩
  refine ⟨reached.oneSession, fun front delay isPrefix => ?_, ?_, ?_, ?_⟩
  · exact reached.waits front _ isPrefix delay rfl
  · refine LossyChannel.of_members Observation.upward? reached.family.within fun place within => ?_
    obtain ⟨start, inputs, carrier, short, ranInputs⟩ := each place within
    exact (carrier_is_lossy_channel start inputs short carrier _ ranInputs).1
  · refine LossyChannel.of_members Observation.downward? reached.family.within fun place within => ?_
    obtain ⟨start, inputs, carrier, short, ranInputs⟩ := each place within
    exact (carrier_is_lossy_channel start inputs short carrier _ ranInputs).2.1
  · intro place front peer payload isPrefix
    rcases Nat.lt_or_ge place client.connections.length with within | beyond
    · obtain ⟨start, inputs, carrier, short, ranInputs⟩ := each place within
      have safe := carrier_is_lossy_channel start inputs short carrier _ ranInputs
      exact safe.2.2.1 front peer payload isPrefix
    · rw [outputsOf_eq_nil fun output member =>
        Nat.lt_of_lt_of_le (reached.family.within output member) beyond] at isPrefix
      have short := isPrefix.length_le
      simp at short

end Steps

/-- Two failed attempts, a session that carries a packet and fails, and a second one. -/
def twoSessions : List (ReconnectEvent Nat) :=
  [.failed 0, .woken second, .failed (2 * second), .woken (4 * second),
    .authenticated (5 * second), .connection 0 (.client (.packet 7 [1] (some 13)) none),
    .connection 0 (.client .transmit none), .connection 0 .clientFails, .sessionEnded (6 * second),
    .connection 0 (.server (.datagram (carrierFrame 1 0 1 [1]) 7) none), .woken (7 * second),
    .authenticated (8 * second)]

theorem reconnecting_twice : ∃ client seen,
    run RelayClient.step .start twoSessions = some (client, seen) ∧
    seen = [.waits second, .waits (2 * second), .authenticated, .carried 0 (.fromLocal 7 [1]),
      .carried 0 (.clientEnded .io), .waits second, .carried 0 (.toUpstream [1]), .authenticated] ∧
    Reconnects client seen := by
  refine ⟨_, _, rfl, rfl, ?_⟩
  exact reconnecting twoSessions (by decide) _ _ rfl

end SmartFecTunnel.Relay

import SmartFecTunnel.Library.Run
import SmartFecTunnel.Relay.Session

/-!
Contract: when the client gives a connection up (`relay_client_session` in
`src/quic_relay.rs`).

Owns:
- a session ends with the heartbeat timeout exactly at a tick more than
  `CARRIER_DEAD_TIMEOUT` after the last datagram of the server;
- with ticks at most `period` apart, a client has no tick and no datagram of the server later
  than that and one period.

Does not own: the ticks of the interval, and when local packets come: they have no time here, as
the timer does not look at them.
-/

namespace SmartFecTunnel.Relay

open SmartFecTunnel.Library

variable {Peer : Type*}

/-- When a datagram of the server reaches the client. -/
def Event.heard? : Event Peer → Option Nat
  | .client (.datagram _ now) _ => some now
  | _ => none

/-- When the heartbeat interval ticks. -/
def Event.tick? : Event Peer → Option Nat
  | .client (.heartbeat now) _ => some now
  | _ => none

/-- When something happens that the client has a time for: a tick, or a datagram of the server. -/
def Event.time? (event : Event Peer) : Option Nat := event.heard? <|> event.tick?

/-- The last time of some events, or the start of the session. -/
def lastTime (time? : Event Peer → Option Nat) (start : Nat) (events : List (Event Peer)) : Nat :=
  (events.filterMap time?).getLast?.getD start

/-- The last datagram of the server. -/
def lastHeard (start : Nat) (events : List (Event Peer)) : Nat := lastTime Event.heard? start events

/-- The last tick. -/
def lastTick (start : Nat) (events : List (Event Peer)) : Nat := lastTime Event.tick? start events

theorem Event.time?_of_tick {event : Event Peer} {now : Nat} (ticks : event.tick? = some now) :
    event.time? = some now := by
  cases event with
  | client input failsAfter => cases input <;> first | exact ticks | cases ticks
  | _ => cases ticks

theorem Event.time?_of_heard {event : Event Peer} {now : Nat} (heard : event.heard? = some now) :
    event.time? = some now := by
  rw [Event.time?, heard]
  rfl

theorem lastTime_snoc (time? : Event Peer → Option Nat) (start : Nat) (past : List (Event Peer))
    (event : Event Peer) :
    lastTime time? start (past ++ [event]) = (time? event).getD (lastTime time? start past) := by
  unfold lastTime
  cases isTime : time? event <;> simp [isTime]

/-- The clock of the client does not go back, and no event is later than `period` after the
last tick. -/
structure Punctual (period start : Nat) (events : List (Event Peer)) : Prop where
  clock : (start :: events.filterMap Event.time?).Pairwise (· ≤ ·)
  ticks : ∀ front event time, front ++ [event] <+: events → event.time? = some time →
    time ≤ lastTick start front + period

/-! ### One event -/

/-- What an event does to the client's timer. -/
structure Timed (carrier next : Carrier Peer) (event : Event Peer)
    (emitted : List (Observation Peer)) : Prop where
  activity : ∀ client, next.client = some client → ∃ before, carrier.client = some before ∧
    client.lastServerActivity = event.heard?.getD before.lastServerActivity
  alive : ∀ time, event.time? = some time → ∃ client, carrier.client = some client
  late : .clientEnded .heartbeatTimeout ∈ emitted ↔ ∃ client now, carrier.client = some client ∧
    event.tick? = some now ∧ carrierDeadTimeout < now - client.lastServerActivity
  goesOn : ∀ client now, next.client.isSome → carrier.client = some client →
    event.tick? = some now → now - client.lastServerActivity ≤ carrierDeadTimeout

theorem Pass.conclude_next {State Destination : Type*} {pass : Pass State Destination}
    {failsAfter : Option Nat} {next : State}
    (goesOn : (pass.conclude failsAfter).next = some next) :
    next = pass.next ∧ pass.error = none := by
  unfold Pass.conclude at goesOn
  split at goesOn
  next => cases goesOn
  next =>
    split at goesOn
    next => cases goesOn
    next noError =>
      cases goesOn
      exact ⟨rfl, noError⟩

/-- A pass ends with an error of its own when all its actions were taken. -/
theorem Pass.conclude_ended {State Destination : Type*} {pass : Pass State Destination}
    {failsAfter : Option Nat} {error : RelayError} (notIo : error ≠ .io) :
    (pass.conclude failsAfter).ended = some error ↔
      pass.error = some error ∧ failsAfter.filter (· < pass.actions.length) = none := by
  unfold Pass.conclude
  split
  next isFail => simp [isFail, notIo.symm]
  next noFail =>
    split
    next isError => simp [isError, noFail]
    next noError => simp [noError]

theorem ClientPass.timed {session : ClientSession Peer} {input : ClientInput Peer}
    {pass : Pass (ClientSession Peer) Peer} (isPass : ClientPass session input pass)
    (failsAfter : Option Nat) :
    pass.next.lastServerActivity =
        (Event.client input failsAfter).heard?.getD session.lastServerActivity ∧
      ((pass.conclude failsAfter).ended = some .heartbeatTimeout ↔
        ∃ now, input = .heartbeat now ∧ carrierDeadTimeout < now - session.lastServerActivity) ∧
      ∀ now, input = .heartbeat now → pass.error = none →
        now - session.lastServerActivity ≤ carrierDeadTimeout := by
  rw [Pass.conclude_ended (by decide)]
  cases isPass with
  | @dead now late =>
      have allTaken : failsAfter.filter (· < 0) = none := by cases failsAfter <;> rfl
      refine ⟨rfl, ⟨fun _ => ⟨now, rfl, late⟩, fun _ => ⟨rfl, allTaken⟩⟩, ?_⟩
      intro _ _ noError
      cases noError
  | @alive now recent =>
      refine ⟨rfl, ⟨fun impossible => absurd impossible.1 (by simp), ?_⟩, ?_⟩
      · rintro ⟨other, same, late⟩
        cases same
        omega
      · intro other same _
        cases same
        exact recent
  | _ => exact ⟨rfl, by simp, by simp⟩

/-- An event that the client has no time for. -/
theorem Timed.of_silent {carrier next : Carrier Peer} {event : Event Peer}
    {emitted : List (Observation Peer)} (notHeard : event.heard? = none)
    (noTick : event.tick? = none)
    (clientLeft : ∀ client, next.client = some client → carrier.client = some client)
    (quiet : .clientEnded .heartbeatTimeout ∉ emitted) : Timed carrier next event emitted := by
  constructor
  · intro client isClient
    exact ⟨client, clientLeft client isClient, by rw [notHeard]; rfl⟩
  · intro time isTime
    rw [Event.time?, notHeard, noTick] at isTime
    cases isTime
  · simp [quiet, noTick]
  · intro client now _ _ ticks
    rw [noTick] at ticks
    cases ticks

theorem timed_step {carrier next : Carrier Peer} {event : Event Peer}
    {emitted : List (Observation Peer)} (stepped : carrier.step event = some (next, emitted)) :
    Timed carrier next event emitted := by
  cases event with
  | client input failsAfter =>
      obtain ⟨client, isClient, stepped⟩ := Option.bind_eq_some_iff.mp stepped
      obtain ⟨rest, isRest, stepped⟩ := Option.bind_eq_some_iff.mp stepped
      obtain ⟨pass, isPass, isNext⟩ := Option.map_eq_some_iff.mp stepped
      cases isNext
      obtain ⟨activity, late, recent⟩ := (relayClientSession_pass isPass).timed failsAfter
      have isTick : ∀ now, (Event.client input failsAfter).tick? = some now ↔
          input = .heartbeat now := by
        intro now
        cases input <;> simp [Event.tick?]
      constructor
      · intro after goesOn
        refine ⟨client, isClient, ?_⟩
        rw [(Pass.conclude_next goesOn).1, activity]
      · exact fun _ _ => ⟨client, isClient⟩
      · have isEnd : .clientEnded .heartbeatTimeout ∈ input.observed ++
            (packetsIn (pass.conclude failsAfter).actions).map
              (fun packet => .toLocal packet.1 packet.2) ++
            (pass.conclude failsAfter).ended.toList.map .clientEnded ↔
              (pass.conclude failsAfter).ended = some .heartbeatTimeout := by
          cases input <;> simp [ClientInput.observed]
        rw [isEnd, late]
        constructor
        · rintro ⟨now, isHeartbeat, isLate⟩
          exact ⟨client, now, isClient, (isTick now).mpr isHeartbeat, isLate⟩
        · rintro ⟨other, now, isOther, ticks, isLate⟩
          rw [isClient] at isOther
          cases isOther
          exact ⟨now, (isTick now).mp ticks, isLate⟩
      · intro other now isSome isOther ticks
        obtain ⟨after, goesOn⟩ := Option.isSome_iff_exists.mp isSome
        rw [isClient] at isOther
        cases isOther
        exact recent now ((isTick now).mp ticks) (Pass.conclude_next goesOn).2
  | server input failsAfter =>
      obtain ⟨server, isServer, stepped⟩ := Option.bind_eq_some_iff.mp stepped
      obtain ⟨rest, isRest, isNext⟩ := Option.map_eq_some_iff.mp stepped
      cases isNext
      refine .of_silent rfl rfl (fun client => id) ?_
      cases input <;> simp [ServerInput.observed]
  | clientFails =>
      obtain ⟨client, _, isNext⟩ := Option.map_eq_some_iff.mp stepped
      cases isNext
      exact .of_silent rfl rfl (by simp) (by simp)
  | serverFails =>
      obtain ⟨server, _, isNext⟩ := Option.map_eq_some_iff.mp stepped
      cases isNext
      exact .of_silent rfl rfl (fun client => id) (by simp)
  | lostToServer frame =>
      obtain ⟨rest, _, isNext⟩ := Option.map_eq_some_iff.mp stepped
      cases isNext
      exact .of_silent rfl rfl (fun client => id) (by simp)
  | lostToClient frame =>
      obtain ⟨rest, _, isNext⟩ := Option.map_eq_some_iff.mp stepped
      cases isNext
      exact .of_silent rfl rfl (fun client => id) (by simp)

/-! ### Runs -/

section Runs

variable {start : Nat} {events : List (Event Peer)} {carrier : Carrier Peer}
  {observed : List (Observation Peer)}

/-- The client's timer stands at the last datagram of the server. -/
theorem lastServerActivity_eq
    (ran : run Carrier.step (Carrier.start start) events = some (carrier, observed)) :
    ∀ client, carrier.client = some client → client.lastServerActivity = lastHeard start events := by
  apply run_invariant ran fun past _ carrier => ∀ client, carrier.client = some client →
    client.lastServerActivity = lastHeard start past
  · intro client isClient
    cases isClient
    rfl
  · intro past event _ state next _ _ _ stepped activity client isClient
    obtain ⟨before, isBefore, isActivity⟩ := (timed_step stepped).activity client isClient
    rw [isActivity, activity before isBefore]
    exact (lastTime_snoc _ start past event).symm

/-- The session ends with the timeout at a tick that is late, and at no other event. -/
theorem timeout_iff
    (ran : run Carrier.step (Carrier.start start) events = some (carrier, observed)) :
    .clientEnded .heartbeatTimeout ∈ observed ↔
      ∃ front event now, front ++ [event] <+: events ∧ event.tick? = some now ∧
        carrierDeadTimeout < now - lastHeard start front := by
  refine run_invariant ran (fun past observed _ => .clientEnded .heartbeatTimeout ∈ observed ↔
    ∃ front event now, front ++ [event] <+: past ∧ event.tick? = some now ∧
      carrierDeadTimeout < now - lastHeard start front) ?_ ?_
  · simp
  · intro past event observed state next emitted _ ranPast stepped before
    have timed := timed_step stepped
    rw [List.mem_append, before, timed.late]
    constructor
    · rintro (⟨front, other, now, isPrefix, late⟩ | ⟨client, now, isClient, ticks, late⟩)
      · exact ⟨front, other, now, isPrefix.trans (List.prefix_append _ _), late⟩
      · rw [lastServerActivity_eq ranPast client isClient] at late
        exact ⟨past, event, now, List.prefix_rfl, ticks, late⟩
    · rintro ⟨front, other, now, isPrefix, ticks, late⟩
      rcases List.prefix_concat_iff.mp isPrefix with whole | shorter
      · obtain ⟨rfl, same⟩ := List.append_inj' whole rfl
        cases same
        obtain ⟨client, isClient⟩ := timed.alive now (Event.time?_of_tick ticks)
        rw [← lastServerActivity_eq ranPast client isClient] at late
        exact Or.inr ⟨client, now, isClient, ticks, late⟩
      · exact Or.inl ⟨front, other, now, shorter, ticks, late⟩

/-- A last time is the start or one of the times so far. -/
theorem lastTime_mem {time? : Event Peer → Option Nat}
    (isTime : ∀ event now, time? event = some now → event.time? = some now) (start : Nat)
    (past : List (Event Peer)) :
    lastTime time? start past ∈ start :: past.filterMap Event.time? := by
  induction past using List.reverseRecOn with
  | nil => exact List.mem_cons_self
  | append_singleton past event inductionHypothesis =>
      rw [lastTime_snoc, List.filterMap_append, ← List.cons_append, List.mem_append]
      cases found : time? event with
      | none => exact Or.inl inductionHypothesis
      | some now => exact Or.inr (by simp [isTime event now found])

/-- What has happened is not later than what happens next. -/
theorem Punctual.last_le {period : Nat} (punctual : Punctual period start events)
    {front : List (Event Peer)} {event : Event Peer} {time : Nat}
    (isPrefix : front ++ [event] <+: events) (isTime : event.time? = some time) :
    ∀ earlier ∈ start :: front.filterMap Event.time?, earlier ≤ time := by
  intro earlier member
  have inOrder := punctual.clock.sublist ((isPrefix.filterMap Event.time?).sublist.cons_cons start)
  rw [List.filterMap_append, ← List.cons_append] at inOrder
  exact (List.pairwise_append.mp inOrder).2.2 earlier member time (by simp [isTime])

/-- While the client is there, its last tick was not late. -/
theorem lastTick_le {period : Nat} (punctual : Punctual period start events)
    (ran : run Carrier.step (Carrier.start start) events = some (carrier, observed)) :
    carrier.client.isSome → lastTick start events ≤ lastHeard start events + carrierDeadTimeout := by
  refine run_invariant ran (fun past _ carrier => carrier.client.isSome →
    lastTick start past ≤ lastHeard start past + carrierDeadTimeout) ?_ ?_
  · intro _
    exact Nat.le_add_right _ _
  · intro past event _ state next _ isPrefix ranPast stepped before isSome
    have timed := timed_step stepped
    obtain ⟨client, isClient⟩ := Option.isSome_iff_exists.mp isSome
    obtain ⟨earlier, isEarlier, _⟩ := timed.activity client isClient
    have recent := before (by rw [isEarlier]; rfl)
    unfold lastTick lastHeard at recent ⊢
    rw [lastTime_snoc, lastTime_snoc]
    cases ticks : event.tick? with
    | some now =>
        have goesOn := timed.goesOn earlier now isSome isEarlier ticks
        rw [lastServerActivity_eq ranPast earlier isEarlier] at goesOn
        have notHeard : event.heard? = none := by
          cases event with
          | client input failsAfter => cases input <;> first | rfl | cases ticks
          | _ => rfl
        rw [notHeard, Option.getD_some, Option.getD_none]
        unfold lastHeard at goesOn
        omega
    | none =>
        rw [Option.getD_none]
        cases heard : event.heard? with
        | none => exact recent
        | some now =>
            have later : lastTime Event.tick? start past ≤ now :=
              punctual.last_le isPrefix (Event.time?_of_heard heard) _
                (lastTime_mem (fun _ _ => Event.time?_of_tick) start past)
            rw [Option.getD_some]
            omega

/-- A session ends with the heartbeat timeout exactly when a tick comes more than 6 seconds
after the last datagram of the server.  With ticks at most `period` apart, no tick and no
datagram of the server comes to the client later than those 6 seconds and one period after
that datagram. -/
theorem dead_peer_detected (period start : Nat) (events : List (Event Peer))
    (carrier : Carrier Peer) (observed : List (Observation Peer))
    (ran : run Carrier.step (Carrier.start start) events = some (carrier, observed)) :
    (.clientEnded .heartbeatTimeout ∈ observed ↔
      ∃ front event now, front ++ [event] <+: events ∧ event.tick? = some now ∧
        6_000_000_000 < now - lastHeard start front) ∧
    (Punctual period start events → ∀ front event time, front ++ [event] <+: events →
      event.time? = some time → time ≤ lastHeard start front + 6_000_000_000 + period) := by
  refine ⟨timeout_iff ran, ?_⟩
  intro punctual front event time isPrefix isTime
  obtain ⟨state, before, ranFront⟩ := run_of_prefix isPrefix ran
  obtain ⟨last, earlier, _, ranPast, stepped, _⟩ := run_snoc_inv ranFront
  obtain ⟨client, isClient⟩ := (timed_step stepped).alive time isTime
  have shorter : front <+: events := (List.prefix_append _ _).trans isPrefix
  have frontPunctual : Punctual period start front :=
    ⟨punctual.clock.sublist ((shorter.filterMap _).sublist.cons_cons start),
      fun past item now inFront => punctual.ticks past item now (inFront.trans shorter)⟩
  have recent := lastTick_le frontPunctual ranPast (by rw [isClient]; rfl)
  have onTime := punctual.ticks front event time isPrefix isTime
  unfold carrierDeadTimeout at recent
  omega

end Runs

/-- A server that is silent after 1 second: the tick at 6 seconds goes by, the one at 8
seconds ends the session. -/
def silence : List (Event Nat) :=
  [.client (.heartbeat 0) none, .server (.datagram carrierPing 500_000_000) none,
    .client (.datagram carrierPong 1_000_000_000) none, .client (.heartbeat 2_000_000_000) none,
    .client (.heartbeat 4_000_000_000) none, .client (.heartbeat 6_000_000_000) none,
    .client (.heartbeat 8_000_000_000) none]

theorem punctual_silence : Punctual 2_000_000_000 0 silence := by
  have onTime : ∀ index < silence.length, ∀ time ∈ silence[index]?.bind Event.time?,
      time ≤ lastTick 0 (silence.take index) + 2_000_000_000 := by decide
  refine ⟨by decide, ?_⟩
  intro front event time isPrefix isTime
  obtain ⟨back, isSilence⟩ := isPrefix
  rw [List.append_assoc, List.singleton_append] at isSilence
  have isFront : silence.take front.length = front := by rw [← isSilence, List.take_left]
  have isEvent : silence[front.length]? = some event := by simp [← isSilence]
  have within : front.length < silence.length := (List.getElem?_eq_some_iff.mp isEvent).1
  have bound := onTime front.length within time (by rw [isEvent]; exact isTime)
  rwa [isFront] at bound

theorem dead_peer_detected_silence :
    ∃ carrier observed, run Carrier.step (Carrier.start 0) silence = some (carrier, observed) ∧
      observed = [.clientEnded .heartbeatTimeout] ∧
      (∃ front event now, front ++ [event] <+: silence ∧ event.tick? = some now ∧
        6_000_000_000 < now - lastHeard 0 front) ∧
      ∀ front event time, front ++ [event] <+: silence → event.time? = some time →
        time ≤ lastHeard 0 front + 6_000_000_000 + 2_000_000_000 := by
  refine ⟨_, _, rfl, rfl, ?_⟩
  have detected := dead_peer_detected 2_000_000_000 0 silence _ _ rfl
  exact ⟨detected.1.mp List.mem_cons_self, detected.2 punctual_silence⟩

end SmartFecTunnel.Relay

import SmartFecTunnel.Library.Isolation
import SmartFecTunnel.Tunnel.AntiReplay
import SmartFecTunnel.Tunnel.Takeover
import SmartFecTunnel.Wire.Keyring

/-!
Contract: the devices that share a server.

Every device has its own sessions, but all sessions are in one table, of which
there is only so much, and all workers wait for one pacer.  Through the pacer the
traffic of one device delays the workers of another, whose queues shed datagrams
meanwhile: that is, when a worker comes to its next event depends on the others.
The order of the events is that of the run, whatever has brought it about.

Owns: that the server treats the events of a device as if no other had sent a
thing, but for the datagrams that would open its first session while the table is
full, and that there are none where the table has room for every device.

Does not own: how long a worker waits for the pacer.
-/

namespace SmartFecTunnel.Tunnel

open SmartFecTunnel.Library
open SmartFecTunnel.Fec
open SmartFecTunnel.Wire

/-- The datagrams of a device, what its workers do, and the cleanup of all. -/
def concerns (build : Build) (config : ServerConfig) (device : Nat) : ServerEvent → Bool
  | .received bytes _ _ =>
    match decodeServerFrame build.blake build.aead config.selectors (bytes.take netBuffer) with
    | .error _ => false
    | .ok (frame, _) => frame.keyId = device
  | .cleanup _ => true
  | .bind id _ => id.1 = device
  | .worker id _ => id.1 = device

/-- The device has no session, and the table has no room for one. -/
def ShutOut (config : ServerConfig) (device : Nat) (sessions : Sessions) : Prop :=
  config.maxSessions ≤ sessions.size ∧ ∀ id ∈ sessions.keys, id.1 ≠ device

instance (config : ServerConfig) (device : Nat) (sessions : Sessions) :
    Decidable (ShutOut config device sessions) :=
  inferInstanceAs (Decidable (_ ∧ _))

/-- The events of a device, less the datagrams that arrive while it is shut out. -/
def heeds (build : Build) (config : ServerConfig) (device : Nat) (sessions : Sessions)
    (event : ServerEvent) : Bool :=
  concerns build config device event &&
    match event with
    | .received .. => !decide (ShutOut config device sessions)
    | _ => true

theorem concerns_of_heeds {build : Build} {config : ServerConfig} {device : Nat}
    {sessions : Sessions} {event : ServerEvent}
    (heedsIt : heeds build config device sessions event = true) :
    concerns build config device event = true :=
  (Bool.and_eq_true_iff.mp heedsIt).1

/-- The events of a run that a device takes part in. -/
def heeded (build : Build) (config : ServerConfig) (device : Nat) (events : List ServerEvent) :
    List ServerEvent :=
  taken (serverStep build config) (heeds build config device) ∅ events

/-- The outputs of a device's sessions. -/
def outputOf (device : Nat) (output : ServerOutput) : Bool := output.1.1 = device

/-! ### The part of a device -/

/-- The table of a device that has the server for itself. -/
structure Alone (config : ServerConfig) (device : Nat) (shared alone : Sessions) : Prop where
  sharedSound : Sound config shared
  aloneSound : Sound config alone
  lookup : ∀ id : SessionKey, alone.lookup id = if id.1 = device then shared.lookup id else none

theorem alone_empty (config : ServerConfig) (device : Nat) : Alone config device ∅ ∅ where
  sharedSound := sound_empty config
  aloneSound := sound_empty config
  lookup := by
    intro id
    rw [AList.lookup_empty, ite_self]

namespace Alone

variable {config : ServerConfig} {device : Nat} {shared alone : Sessions}

theorem mem_iff (agree : Alone config device shared alone) {id : SessionKey} :
    id ∈ alone ↔ id.1 = device ∧ id ∈ shared := by
  rw [Table.mem_iff_exists_lookup, Table.mem_iff_exists_lookup, agree.lookup]
  split
  next ofDevice => simp [ofDevice]
  next otherDevice => simp [otherDevice]

theorem hasOther_iff (agree : Alone config device shared alone) {frame : Frame}
    (ofDevice : frame.keyId = device) : HasOther alone frame ↔ HasOther shared frame := by
  unfold HasOther
  simp only [agree.mem_iff, ofDevice, true_and]

/-- What changes at sessions of other devices only does not change the device's table. -/
theorem elsewhere (agree : Alone config device shared alone) {next : Sessions}
    (nextSound : Sound config next)
    (kept : ∀ id : SessionKey, id.1 = device → next.lookup id = shared.lookup id) :
    Alone config device next alone where
  sharedSound := nextSound
  aloneSound := agree.aloneSound
  lookup := by
    intro id
    rw [agree.lookup]
    split
    next ofDevice => rw [kept id ofDevice]
    next => rfl

/-! ### Datagrams -/

/-- A device that is not shut out has its frames ignored in both tables or in none. -/
theorem ignored_iff (agree : Alone config device shared alone) {frame : Frame}
    (ofDevice : frame.keyId = device) (unknown : sessionKey frame ∉ shared)
    (room : ¬ ShutOut config device shared) :
    Ignored config alone frame ↔ Ignored config shared frame := by
  unfold Ignored
  rw [agree.hasOther_iff ofDevice]
  by_cases other : HasOther shared frame
  · simp [other]
  · -- without another session the device has none at all
    have absent : ∀ id ∈ shared, id.1 ≠ device := by
      intro id member isDevice
      by_cases same : id.2 = frame.session
      · refine unknown ?_
        rw [sessionKey, ofDevice, ← isDevice, ← same]
        exact member
      · refine other ⟨id.2, same, ?_⟩
        rw [ofDevice, ← isDevice]
        exact member
    have empty : alone.size = 0 := by
      rw [Table.size_eq_keys_length, List.length_eq_zero_iff, List.eq_nil_iff_forall_not_mem]
      intro id member
      obtain ⟨isDevice, inShared⟩ := agree.mem_iff.mp member
      exact absent id inShared isDevice
    have sharedRoom : ¬ config.maxSessions ≤ shared.size := fun full => room ⟨full, absent⟩
    have aloneRoom : ¬ config.maxSessions ≤ alone.size := by
      have positive := config.sessions_pos
      omega
    simp [other, sharedRoom, aloneRoom]

theorem openSession (agree : Alone config device shared alone) {frame : Frame}
    (ofDevice : frame.keyId = device) (isV3 : frame.version = versionV3)
    (unknown : sessionKey frame ∉ shared) (room : ¬ ShutOut config device shared)
    (deviceKey : Bytes) (now : Nat) :
    ∀ id : SessionKey, (Tunnel.openSession config alone frame deviceKey now).lookup id =
      if id.1 = device then (Tunnel.openSession config shared frame deviceKey now).lookup id
      else none := by
  have aloneUnknown : sessionKey frame ∉ alone := fun member => unknown (agree.mem_iff.mp member).2
  have sameFate := agree.ignored_iff ofDevice unknown room
  intro id
  rcases openSession_cases agree.sharedSound.size isV3 unknown deviceKey now with
    ⟨ignored, sharedSame⟩ | ⟨admitted, sharedInstalls⟩
  · rcases openSession_cases agree.aloneSound.size isV3 aloneUnknown deviceKey now with
      ⟨_, aloneSame⟩ | ⟨aloneAdmitted, _⟩
    · rw [sharedSame, aloneSame]
      exact agree.lookup id
    · exact absurd (sameFate.mpr ignored) aloneAdmitted
  · rcases openSession_cases agree.aloneSound.size isV3 aloneUnknown deviceKey now with
      ⟨aloneIgnored, _⟩ | ⟨_, aloneInstalls⟩
    · exact absurd (sameFate.mp aloneIgnored) admitted
    · rw [sharedInstalls.lookup, aloneInstalls.lookup, ofDevice, agree.lookup]
      by_cases isFrame : id = sessionKey frame
      · rw [if_pos isFrame, if_pos isFrame, if_pos (by rw [isFrame]; exact ofDevice)]
      · rw [if_neg isFrame, if_neg isFrame]
        by_cases isDevice : id.1 = device
        · rw [if_pos isDevice, if_pos isDevice, if_pos isDevice]
        · rw [if_neg isDevice, if_neg isDevice, if_neg isDevice]

theorem receive (agree : Alone config device shared alone) {packet : SessionPacket}
    (ofDevice : packet.frame.keyId = device) (isV3 : packet.frame.version = versionV3)
    (room : ¬ ShutOut config device shared) (deviceKey : Bytes) (now : Nat) (id : SessionKey) :
    (Tunnel.receive config alone packet deviceKey now).lookup id =
      if id.1 = device then (Tunnel.receive config shared packet deviceKey now).lookup id
      else none := by
  have isKey : (sessionKey packet.frame).1 = device := ofDevice
  have delivered : ∀ {one other : Sessions},
      (∀ id : SessionKey, other.lookup id = if id.1 = device then one.lookup id else none) →
      (deliver other packet now).lookup id =
        if id.1 = device then (deliver one packet now).lookup id else none := by
    intro one other sameLookup
    rw [lookup_deliver, lookup_deliver, sameLookup]
    by_cases isPacket : id = sessionKey packet.frame
    · rw [if_pos isPacket, if_pos isPacket, isPacket, if_pos isKey, if_pos isKey]
    · rw [if_neg isPacket, if_neg isPacket]
  unfold Tunnel.receive
  by_cases known : sessionKey packet.frame ∈ shared
  · rw [if_pos known, if_pos (agree.mem_iff.mpr ⟨isKey, known⟩)]
    exact delivered agree.lookup
  · rw [if_neg known, if_neg fun member => known (agree.mem_iff.mp member).2]
    exact delivered (agree.openSession ofDevice isV3 known room deviceKey now)

/-- A datagram of another device, or one that finds the device shut out, changes nothing for
the device. -/
theorem receive_elsewhere (agree : Alone config device shared alone) {packet : SessionPacket}
    (isV3 : packet.frame.version = versionV3) (deviceKey : Bytes) (now : Nat)
    (away : packet.frame.keyId ≠ device ∨ ShutOut config device shared) :
    ∀ id : SessionKey, id.1 = device →
      (Tunnel.receive config shared packet deviceKey now).lookup id = shared.lookup id := by
  intro id isDevice
  by_cases sameDevice : packet.frame.keyId = device
  · have ⟨full, absent⟩ := away.resolve_left fun different => different sameDevice
    have unknown : sessionKey packet.frame ∉ shared := fun member => absent _ member sameDevice
    rcases receive_cases agree.sharedSound.size packet isV3 deviceKey now with
      ⟨_, keeps⟩ | ⟨_, admitted, _⟩
    · have nowhere : ∀ {table : Sessions}, id ∉ table → table.lookup id = none :=
        AList.lookup_eq_none.mpr
      have before : id ∉ shared := fun member => absent id member isDevice
      rw [nowhere before, nowhere fun member => before ((keeps.mem_iff id).mp member)]
    · refine absurd (.inr ⟨?_, full⟩) admitted
      rintro ⟨session, _, member⟩
      exact absent _ member sameDevice
  · rcases receive_cases agree.sharedSound.size packet isV3 deviceKey now with
      ⟨_, keeps⟩ | ⟨_, _, entry, installs⟩
    · apply keeps.lookup id
      rintro rfl
      exact sameDevice isDevice
    · rw [installs.lookup, if_neg (by rintro rfl; exact sameDevice isDevice),
        if_neg (by rw [isDevice]; exact Ne.symm sameDevice)]

end Alone

/-! ### One event -/

/-- The cleanup looks at each session by itself. -/
theorem lookup_cleanup (config : ServerConfig) (sessions : Sessions) (now : Nat)
    (id : SessionKey) :
    (cleanup config sessions now).lookup id =
      (sessions.lookup id).filter fun entry => !decide (Expired config now entry) := by
  have removed : ∀ entry, sessions.lookup id = some entry →
      (id ∈ (sessions.entries.filter fun entry => Expired config now entry.2).map
        (fun entry => entry.1) ↔ Expired config now entry) := by
    intro entry found
    rw [List.mem_map]
    constructor
    · rintro ⟨⟨other, otherEntry⟩, member, rfl⟩
      obtain ⟨inEntries, expired⟩ := List.mem_filter.mp member
      rw [Table.lookup_eq_some_iff.mpr inEntries] at found
      cases found
      simpa using expired
    · intro expired
      refine ⟨⟨id, entry⟩, List.mem_filter.mpr ⟨Table.lookup_eq_some_iff.mp found, ?_⟩, rfl⟩
      exact decide_eq_true expired
  rw [cleanup, Table.lookup_eraseAll]
  cases found : sessions.lookup id with
  | none =>
      rw [ite_self]
      rfl
  | some entry =>
      rw [Option.filter_some]
      by_cases expired : Expired config now entry
      · rw [if_pos ((removed entry found).mpr expired), decide_eq_true expired]
        rfl
      · rw [if_neg fun member => expired ((removed entry found).mp member),
          decide_eq_false expired]
        rfl

/-- What a worker puts out is of its session. -/
theorem filter_outputOf (device : Nat) (id : SessionKey) (outputs : List SessionOutput) :
    (outputs.map fun output => (id, output)).filter (outputOf device) =
      if id.1 = device then outputs.map fun output => (id, output) else [] := by
  split
  next ofDevice =>
    rw [List.filter_eq_self]
    intro output member
    obtain ⟨_, _, rfl⟩ := List.mem_map.mp member
    exact decide_eq_true ofDevice
  next otherDevice =>
    rw [List.filter_eq_nil_iff]
    intro output member isOwn
    obtain ⟨_, _, rfl⟩ := List.mem_map.mp member
    exact otherDevice (of_decide_eq_true isOwn)

/-- The session that an event is about. -/
def ServerEvent.session? : ServerEvent → Option SessionKey
  | .bind id _ => some id
  | .worker id _ => some id
  | _ => none

section Event

variable {build : Build} {config : ServerConfig} {device : Nat} {shared alone next : Sessions}
  {event : ServerEvent} {id : SessionKey} {outputs : List ServerOutput}

/-- An event of one session goes the same way in every table that has the session. -/
theorem serverStep_local (isAt : event.session? = some id)
    (same : alone.lookup id = shared.lookup id)
    (stepped : serverStep build config shared event = some (next, outputs)) :
    (next = shared ∧ outputs = [] ∧ serverStep build config alone event = some (alone, [])) ∨
      ∃ entry, ∃ sent : List SessionOutput, next = shared.insert id entry ∧
        outputs = sent.map (fun output => (id, output)) ∧
        serverStep build config alone event = some (alone.insert id entry, outputs) := by
  cases event with
  | received bytes peer now => cases isAt
  | cleanup now => cases isAt
  | bind other bound =>
      cases isAt
      unfold serverStep at stepped ⊢
      dsimp only at stepped ⊢
      rw [same]
      split at stepped
      next runtime queue lastSeen found =>
        cases stepped
        exact .inr ⟨_, [], rfl, rfl, rfl⟩
      next =>
        cases stepped
        exact .inl ⟨rfl, rfl, rfl⟩
  | worker other event =>
      cases isAt
      unfold serverStep at stepped ⊢
      dsimp only at stepped ⊢
      rw [same]
      split at stepped
      next runtime queue lastSeen session found =>
        unfold workerStep at stepped ⊢
        split at stepped
        next =>
          cases stepped
          exact .inl ⟨rfl, rfl, rfl⟩
        next sessionEvent rest seen resolved =>
          obtain ⟨⟨after, emitted⟩, isStep, isNext⟩ := Option.map_eq_some_iff.mp stepped
          cases isNext
          refine .inr ⟨_, emitted, rfl, rfl, ?_⟩
          dsimp only
          rw [isStep]
          rfl
      next =>
        cases stepped
        exact .inl ⟨rfl, rfl, rfl⟩

/-- An event of one session of the device. -/
theorem Alone.local_event (agree : Alone config device shared alone)
    (isAt : event.session? = some id) (ofDevice : id.1 = device)
    (stepped : serverStep build config shared event = some (next, outputs)) :
    ∃ after, serverStep build config alone event =
      some (after, outputs.filter (outputOf device)) ∧ Alone config device next after := by
  have same : alone.lookup id = shared.lookup id := by
    rw [agree.lookup, if_pos ofDevice]
  rcases serverStep_local isAt same stepped with
    ⟨rfl, rfl, ownStep⟩ | ⟨entry, sent, rfl, rfl, ownStep⟩
  · exact ⟨alone, ownStep, agree⟩
  · refine ⟨alone.insert id entry, ?_, ?_⟩
    · rw [filter_outputOf, if_pos ofDevice]
      exact ownStep
    · refine ⟨agree.sharedSound.step (serverStep_table stepped),
        agree.aloneSound.step (serverStep_table ownStep), fun other => ?_⟩
      rw [Table.lookup_insert_eq, Table.lookup_insert_eq, agree.lookup]
      by_cases here : other = id
      · rw [if_pos here, if_pos here, here, if_pos ofDevice]
      · rw [if_neg here, if_neg here]

/-- An event of a session of another device. -/
theorem Alone.foreign_event (agree : Alone config device shared alone)
    (isAt : event.session? = some id) (otherDevice : id.1 ≠ device)
    (stepped : serverStep build config shared event = some (next, outputs)) :
    Alone config device next alone ∧ outputs.filter (outputOf device) = [] := by
  rcases serverStep_local isAt rfl stepped with ⟨rfl, rfl, _⟩ | ⟨entry, sent, rfl, rfl, _⟩
  · exact ⟨agree, rfl⟩
  · constructor
    · apply agree.elsewhere (agree.sharedSound.step (serverStep_table stepped))
      intro other isDevice
      rw [Table.lookup_insert_eq, if_neg]
      rintro rfl
      exact otherDevice isDevice
    · rw [filter_outputOf, if_neg otherDevice]

theorem Alone.cleanup (agree : Alone config device shared alone) (now : Nat) :
    Alone config device (Tunnel.cleanup config shared now) (Tunnel.cleanup config alone now) where
  sharedSound := agree.sharedSound.cleanup now
  aloneSound := agree.aloneSound.cleanup now
  lookup := by
    intro id
    rw [lookup_cleanup, lookup_cleanup, agree.lookup]
    split
    next => rfl
    next => rfl

end Event

/-! ### Runs -/

/-- One event of the shared server and the same event of the device's own. -/
theorem unwinds (build : Build) (config : ServerConfig) (device : Nat) :
    Unwinds (serverStep build config) (heeds build config device) (outputOf device)
      (Alone config device) where
  taken := by
    intro shared alone event next outputs agree stepped heedsIt
    have nextSound := agree.sharedSound.step (serverStep_table stepped)
    obtain ⟨isConcerned, arrives⟩ := Bool.and_eq_true_iff.mp heedsIt
    cases event with
    | received bytes peer now =>
        have room : ¬ ShutOut config device shared := by simpa using arrives
        unfold serverStep at stepped ⊢
        unfold concerns at isConcerned
        dsimp only at stepped isConcerned ⊢
        split at stepped
        next error closed =>
          rw [closed] at isConcerned
          cases isConcerned
        next frame deviceKey opened =>
          rw [opened] at isConcerned
          have ofDevice : frame.keyId = device := of_decide_eq_true isConcerned
          have isV3 := (decodeServerFrame_opens opened).2.2
          cases stepped
          refine ⟨receive config alone ⟨frame, peer⟩ deviceKey now, rfl, nextSound, ?_, ?_⟩
          · exact agree.aloneSound.step (.received opened isV3)
          · exact agree.receive ofDevice isV3 room deviceKey now
    | cleanup now =>
        cases stepped
        exact ⟨_, rfl, agree.cleanup now⟩
    | bind id bound => exact agree.local_event rfl (of_decide_eq_true isConcerned) stepped
    | worker id event => exact agree.local_event rfl (of_decide_eq_true isConcerned) stepped
  ignored := by
    intro shared alone event next outputs agree stepped heedsNot
    have nextSound := agree.sharedSound.step (serverStep_table stepped)
    cases event with
    | received bytes peer now =>
        unfold serverStep at stepped
        unfold heeds concerns at heedsNot
        dsimp only at stepped heedsNot
        split at stepped
        next error closed =>
          cases stepped
          exact ⟨agree, rfl⟩
        next frame deviceKey opened =>
          rw [opened] at heedsNot
          cases stepped
          have away : frame.keyId ≠ device ∨ ShutOut config device shared := by
            by_cases ofDevice : frame.keyId = device
            · simpa [ofDevice] using heedsNot
            · exact .inl ofDevice
          have isV3 := (decodeServerFrame_opens opened).2.2
          exact ⟨agree.elsewhere nextSound (agree.receive_elsewhere isV3 deviceKey now away), rfl⟩
    | cleanup now => cases heedsNot
    | bind id bound =>
        have otherDevice : ¬ id.1 = device := by simpa [heeds, concerns] using heedsNot
        exact agree.foreign_event rfl otherDevice stepped
    | worker id event =>
        have otherDevice : ¬ id.1 = device := by simpa [heeds, concerns] using heedsNot
        exact agree.foreign_event rfl otherDevice stepped

/-! ### Room for every device -/

/-- The keyring has a key for the device. -/
def Listed (config : ServerConfig) (device : Nat) : Prop :=
  ∃ selector key, config.selectors.lookup selector = some (device, key)

theorem listed_of_concerns {build : Build} {config : ServerConfig} {device now : Nat}
    {bytes : Bytes} {peer : SocketAddr}
    (isConcerned : concerns build config device (.received bytes peer now) = true) :
    Listed config device := by
  unfold concerns at isConcerned
  dsimp only at isConcerned
  split at isConcerned
  next => cases isConcerned
  next frame deviceKey opened =>
    have found := (decodeServerFrame_opens opened).1
    rw [of_decide_eq_true isConcerned] at found
    exact ⟨_, deviceKey, found⟩

theorem listed_of_run {build : Build} {config : ServerConfig} {events : List ServerEvent}
    {sessions : Sessions} {outputs : List ServerOutput}
    (ran : run (serverStep build config) ∅ events = some (sessions, outputs)) :
    ∀ id ∈ sessions, Listed config id.1 := by
  refine run_invariant ran (fun _ _ sessions => ∀ id ∈ sessions, Listed config id.1) ?_ ?_
  · exact fun id member => absurd member (AList.notMem_empty id)
  · intro past event before state next emitted _ ranPast stepped listed id member
    rcases mem_before_or_opened (sound_of_run ranPast) (serverStep_table stepped) member with
      old | ⟨bytes, peer, now, frame, _, ⟨deviceKey, opened⟩, rfl⟩
    · exact listed id old
    · exact ⟨_, deviceKey, (decodeServerFrame_opens opened).1⟩

/-- A device of the keyring that has no session leaves a place free for it. -/
theorem size_lt_selectors {config : ServerConfig} {sessions : Sessions} {device : Nat}
    (one : OnePerDevice sessions) (listed : ∀ id ∈ sessions, Listed config id.1)
    (isListed : Listed config device) (absent : ∀ id ∈ sessions, id.1 ≠ device) :
    sessions.size < config.selectors.size := by
  let devices := (config.selectors.entries.map fun entry => entry.2.1).toFinset
  have mem_devices : ∀ {device}, Listed config device → device ∈ devices := by
    rintro device ⟨selector, key, found⟩
    rw [List.mem_toFinset, List.mem_map]
    exact ⟨_, Table.lookup_eq_some_iff.mp found, rfl⟩
  obtain ⟨keys, isSize, mem_keys⟩ := Table.exists_keySet sessions
  have distinct : Set.InjOn Prod.fst (keys : Set SessionKey) := by
    intro left isLeft right isRight same
    exact one left ((mem_keys left).mp isLeft) right ((mem_keys right).mp isRight) same
  have fewer : keys.image Prod.fst ⊂ devices := by
    refine (Finset.ssubset_iff_of_subset ?_).mpr ⟨device, mem_devices isListed, ?_⟩
    · intro other member
      obtain ⟨id, isKey, rfl⟩ := Finset.mem_image.mp member
      exact mem_devices (listed id ((mem_keys id).mp isKey))
    · intro member
      obtain ⟨id, isKey, isDevice⟩ := Finset.mem_image.mp member
      exact absent id ((mem_keys id).mp isKey) isDevice
  calc
    sessions.size = (keys.image Prod.fst).card := by
      rw [Finset.card_image_of_injOn distinct, isSize]
    _ < devices.card := Finset.card_lt_card fewer
    _ ≤ (config.selectors.entries.map fun entry => entry.2.1).length := List.toFinset_card_le _
    _ = config.selectors.size := List.length_map _

/-- In every run each device has the sessions and gets the outputs that it would have if its own
events came in the same order at a server of its own.  Of these events it can lose to the others
only datagrams that arrive while it has no session and the table is full, and with a place for
every device there are none. -/
theorem devices_isolated (build : Build) (config : ServerConfig) (device : Nat)
    (events : List ServerEvent) (sessions : Sessions) (outputs : List ServerOutput)
    (ran : run (serverStep build config) ∅ events = some (sessions, outputs)) :
    (∃ alone, run (serverStep build config) ∅ (heeded build config device events) =
        some (alone, outputs.filter (outputOf device)) ∧
      ∀ id : SessionKey, alone.lookup id = if id.1 = device then sessions.lookup id else none) ∧
    (heeded build config device events).Sublist (events.filter (concerns build config device)) ∧
    (config.selectors.size ≤ config.maxSessions →
      heeded build config device events = events.filter (concerns build config device)) := by
  refine ⟨?_, ?_, ?_⟩
  · obtain ⟨alone, ownRun, agree⟩ :=
      (unwinds build config device).run (alone_empty config device) ran
    exact ⟨alone, ownRun, agree.lookup⟩
  · apply taken_sublist
    exact fun _ _ => concerns_of_heeds
  · intro places
    refine taken_eq_filter ran fun front event state before isPrefix ranFront => ?_
    cases event with
    | received bytes peer now =>
        cases isConcerned : concerns build config device (.received bytes peer now) with
        | false => simp [heeds, isConcerned]
        | true =>
            have welcome : ¬ ShutOut config device state := by
              rintro ⟨full, absent⟩
              have room := size_lt_selectors (sound_of_run ranFront).one (listed_of_run ranFront)
                (listed_of_concerns isConcerned) absent
              omega
            simp [heeds, isConcerned, welcome]
    | cleanup now => rfl
    | bind id bound => exact Bool.and_true _
    | worker id event => exact Bool.and_true _

/-! ### Two devices -/

/-- The server of devices 7 and 8. -/
def pairConfig : ServerConfig :=
  { sampleConfig with
    selectors :=
      (Table.insert ∅ (v3SelectorPrefix deviceHash 8) (8, secondKey)).insert
        (v3SelectorPrefix deviceHash 7) (7, reportKey) }

/-- The cipher as it answers for two reports of device 7 and one of device 8. -/
def pairCipher : Aead :=
  Aead.sampled
    { list :=
        [⟨reportKey, (sampleRandom 1).nonce, inner (sampleFrame 100 1),
          [220, 246, 195, 37, 144, 211, 162, 184, 34, 143, 88, 87, 203, 178, 90, 87, 235, 117, 106,
            49, 242, 203, 99, 173, 26, 103, 226, 144, 19, 219, 48, 108, 19, 42, 209, 158, 145, 182,
            220, 241, 86, 244, 234, 22, 189, 31, 191, 26, 172, 132, 187]⟩,
        ⟨reportKey, (sampleRandom 2).nonce, inner (sampleFrame 200 1),
          [116, 197, 62, 62, 167, 81, 198, 159, 101, 16, 22, 161, 238, 203, 43, 61, 116, 81, 218,
            46, 253, 65, 97, 48, 153, 113, 242, 31, 48, 241, 150, 114, 23, 158, 177, 151, 205, 6,
            220, 11, 55, 213, 125, 204, 192, 237, 172, 36, 230, 219, 122]⟩,
        ⟨secondKey, (sampleRandom 8).nonce, inner (sampleFrame 100 1),
          [15, 241, 196, 191, 16, 193, 161, 103, 242, 81, 7, 32, 158, 251, 181, 25, 30, 12, 143,
            87, 214, 22, 58, 144, 211, 132, 148, 26, 251, 110, 84, 12, 52, 56, 151, 180, 180, 64,
            85, 201, 73, 44, 91, 50, 229, 254, 148, 220, 225, 188, 4]⟩]
      length := by decide +kernel
      tagged := by decide +kernel
      injective := by decide +kernel }

noncomputable def pairBuild : Build := ⟨ReedSolomon.standard, deviceHash, pairCipher, none⟩

/-- The arrival of a sealed report of either device. -/
def pairArrival (byte : UInt8) (device session now : Nat) : ServerEvent :=
  .received
    ((encodeWire deviceHash pairCipher (sampleRandom byte)
      { sampleFrame session 1 with keyId := device }
      (if device = 7 then reportKey else secondKey)).toOption.getD []) Session.clientAddress now

/-- Both devices open a session, have a report each taken and one sent, and device 7 opens
another session. -/
def pairMixture : List ServerEvent :=
  [pairArrival 8 8 100 0, .bind (8, 100) true, pairArrival 1 7 100 1,
    .worker (8, 100) (.packet (Host.at 1)), .bind (7, 100) true,
    .worker (7, 100) (.packet (Host.at 2)), .worker (8, 100) .reportTick,
    .worker (7, 100) .reportTick, pairArrival 2 7 200 3]

theorem devices_isolated_mixture :
    ∃ sessions outputs alone,
      run (serverStep pairBuild pairConfig) ∅ pairMixture = some (sessions, outputs) ∧
      sessions.keys = [(7, 200), (8, 100)] ∧ outputs.map Prod.fst = [(8, 100), (7, 100)] ∧
      run (serverStep pairBuild pairConfig) ∅
        (pairMixture.filter (concerns pairBuild pairConfig 7)) =
          some (alone, outputs.filter (outputOf 7)) ∧
      (pairMixture.filter (concerns pairBuild pairConfig 7)).length = 5 := by
  have computed : (run (serverStep pairBuild pairConfig) ∅ pairMixture).map
      (fun result => (result.1.keys, result.2.map Prod.fst)) =
        some ([(7, 200), (8, 100)], [(8, 100), (7, 100)]) := by
    decide +kernel
  obtain ⟨⟨sessions, outputs⟩, ran, isResult⟩ := Option.map_eq_some_iff.mp computed
  obtain ⟨isKeys, isOutputs⟩ := Prod.mk.inj isResult
  obtain ⟨⟨alone, ownRun, _⟩, _, allHeeded⟩ :=
    devices_isolated pairBuild pairConfig 7 pairMixture sessions outputs ran
  rw [allHeeded (by decide +kernel)] at ownRun
  exact ⟨sessions, outputs, alone, ran, isKeys, isOutputs, ownRun, by decide +kernel⟩

end SmartFecTunnel.Tunnel

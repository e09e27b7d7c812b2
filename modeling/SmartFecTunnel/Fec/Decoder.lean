import Mathlib.Data.Finset.Sort
import SmartFecTunnel.Library.Table
import SmartFecTunnel.Fec.Encoder

/-!
Contract: the receiving half of the FEC tunnel (`Decoder` in `src/main.rs`).

`observeSeq` and `sequenceReport` keep the sequence window.  `frame` validates
one frame, stores its shard in its group, recovers the group once enough shards
are present, and hands every newly available source shard to `fragment`, which
reassembles datagrams.  `prune` drops what has expired.

A result `none` is a panic: an index, a range or a subtraction out of bounds.
A failed call keeps the changes it made before it failed, so results pair the
state with an `Except`.

Does not own: the order in which a hash map lists equally old entries, nor the
clock.  Both come from a `Host`, one for each call.
-/

namespace SmartFecTunnel.Fec

open SmartFecTunnel.Library

/-- What the runtime decides during one call. -/
structure Host where
  /-- The successive readings of the clock. -/
  now : Nat → Nat
  /-- `sort_unstable_by_key` on `(id, created)` pairs in hash-map order. -/
  sortByCreated : List (Nat × Nat) → List (Nat × Nat)
  sort_perm : ∀ pairs, (sortByCreated pairs).Perm pairs
  sort_ordered : ∀ pairs, (sortByCreated pairs).Pairwise fun left right => left.2 ≤ right.2

/-- A host whose clock stands still during the call. -/
def Host.at (time : Nat) : Host where
  now := fun _ => time
  sortByCreated := fun pairs => pairs.mergeSort fun left right => left.2 ≤ right.2
  sort_perm := fun pairs => List.mergeSort_perm pairs _
  sort_ordered := by
    intro pairs
    have ordered : (pairs.mergeSort fun left right => left.2 ≤ right.2).Pairwise
        fun left right => decide (left.2 ≤ right.2) = true :=
      List.pairwise_mergeSort
        (by intro first second third; simp only [decide_eq_true_eq]; omega)
        (by intro first second; simp only [Bool.or_eq_true, decide_eq_true_eq]; omega) pairs
    simpa using ordered

structure Group where
  created : Nat
  data : Nat
  parity : Nat
  shards : List (Option Bytes)
  delivered : List Bool
deriving DecidableEq, Repr

structure Reassembly where
  created : Nat
  parts : List (Option Bytes)
deriving DecidableEq, Repr

structure SequenceReport where
  expected : Nat
  received : Nat
  missing : Nat
  sequenceGapPpm : Nat
  late : Nat
  duplicates : Nat
deriving DecidableEq, Repr

structure Decoder where
  session : Nat
  highestSequence : Nat
  finalizedSequence : Nat
  seenSequences : Finset Nat
  lateSequences : Nat
  duplicateSequences : Nat
  groups : Table Nat Group
  packets : Table Nat Reassembly

/-- Why `Decoder::frame` returns an error. -/
inductive FrameError where
  | sessionMismatch
  | invalidFecFrame
  | tooManyFecGroups
  | groupMismatch
  | reedSolomon
deriving DecidableEq, Repr

/-- The text of an error; one of the library keeps the library's own. -/
def FrameError.message? : FrameError → Option String
  | .sessionMismatch => some "session mismatch"
  | .invalidFecFrame => some "invalid fec frame"
  | .tooManyFecGroups => some "too many fec groups"
  | .groupMismatch => some "group mismatch"
  | .reedSolomon => none

/-- Subtraction that panics below zero. -/
def checkedSub (left right : Nat) : Option Nat := if right ≤ left then some (left - right) else none

/-- `saturating_add(1)` on a `u64`. -/
def saturatingIncrement (value : Nat) : Nat := min (value + 1) (2 ^ 64 - 1)

namespace Group

/-- An empty group. -/
def fresh (created data parity : Nat) : Group where
  created := created
  data := data
  parity := parity
  shards := List.replicate (data + parity) none
  delivered := List.replicate data false

/-- Store a shard unless its slot is taken, and release it at once when it is a
source shard that was not delivered before. -/
def store (group : Group) (position : Nat) (payload : Bytes) : Option (Group × Option Bytes) := do
  let slot ← group.shards[position]?
  let shards := if slot.isNone then group.shards.set position (some payload) else group.shards
  if position < group.data then
    let flag ← group.delivered[position]?
    if flag then some ({ group with shards }, none)
    else
      some ({ group with shards, delivered := group.delivered.set position true }, some payload)
  else some ({ group with shards }, none)

/-- The recovery condition: enough shards are present and some source shard was
not delivered. -/
def NeedsRecovery (group : Group) : Prop :=
  0 < group.parity ∧ group.data ≤ present group.shards ∧ false ∈ group.delivered

instance (group : Group) : Decidable group.NeedsRecovery := inferInstanceAs (Decidable (_ ∧ _ ∧ _))

/-- The source shards that were not delivered, after reconstruction. -/
def undelivered (group : Group) (full : List (Option Bytes)) : Option (List Bytes) :=
  ((List.range group.data).mapM fun index =>
    (group.delivered[index]?).bind fun flag =>
      if flag then some none else full[index]?).map List.reduceOption

/-- Reconstruct the group and release every source shard not delivered before. -/
def recover (rs : ReedSolomon) (group : Group) :
    Option (Group × Except FrameError (List Bytes)) :=
  match rs.new group.data group.parity with
  | none => some (group, .error .reedSolomon)
  | some codec =>
    match codec.reconstruct group.shards with
    | none => some (group, .error .reedSolomon)
    | some full => do
      let recovered ← group.undelivered full
      if group.data ≤ group.delivered.length then
        some
          ({ group with
              shards := full
              delivered := List.replicate group.data true ++ group.delivered.drop group.data },
            .ok recovered)
      else none

/-- Everything `frame` does inside one group: store, then recover where due. -/
def accept (rs : ReedSolomon) (group : Group) (position : Nat) (payload : Bytes) :
    Option (Group × Except FrameError (List Bytes)) := do
  let (stored, immediate) ← group.store position payload
  if stored.NeedsRecovery then
    let (recovered, result) ← stored.recover rs
    some (recovered, result.map fun more => immediate.toList ++ more)
  else some (stored, .ok immediate.toList)

end Group

/-- The header in front of a fragment. -/
structure FragmentHeader where
  packet : Nat
  index : Nat
  count : Nat
  length : Nat
deriving DecidableEq, Repr

def FragmentHeader.read (shard : Bytes) : Option FragmentHeader := do
  let packet ← slice? shard 0 8
  let index ← slice? shard 8 10
  let count ← slice? shard 10 12
  let length ← slice? shard 12 14
  some ⟨fromBeBytes packet, fromBeBytes index, fromBeBytes count, fromBeBytes length⟩

/-- What `fragment` accepts of a header in front of a shard of `size` bytes. -/
def FragmentHeader.Valid (header : FragmentHeader) (size : Nat) : Prop :=
  header.count ≠ 0 ∧ header.count ≤ 64 ∧ header.index < header.count ∧
    header.length ≤ chunkBytes ∧ fragmentHeader + header.length ≤ size

instance (header : FragmentHeader) (size : Nat) : Decidable (header.Valid size) :=
  inferInstanceAs (Decidable (_ ∧ _ ∧ _ ∧ _ ∧ _))

namespace Decoder

def new (session : Nat) : Decoder where
  session := session
  highestSequence := 0
  finalizedSequence := 0
  seenSequences := ∅
  lateSequences := 0
  duplicateSequences := 0
  groups := ∅
  packets := ∅

/-! ### Sequence window -/

/-- The untouched window, where the next observation sets the baseline. -/
def Untouched (decoder : Decoder) : Prop :=
  decoder.highestSequence = 0 ∧ decoder.finalizedSequence = 0 ∧ decoder.seenSequences = ∅

instance (decoder : Decoder) : Decidable decoder.Untouched := inferInstanceAs (Decidable (_ ∧ _ ∧ _))

def baseline (decoder : Decoder) (seq : Nat) : Decoder :=
  if decoder.Untouched then { decoder with finalizedSequence := seq - 1 } else decoder

def observeSeq (decoder : Decoder) (seq : Nat) : Decoder × Bool :=
  let decoder := decoder.baseline seq
  if seq ≤ decoder.finalizedSequence then
    ({ decoder with lateSequences := saturatingIncrement decoder.lateSequences }, false)
  else
    let decoder := { decoder with highestSequence := max decoder.highestSequence seq }
    if seq ∈ decoder.seenSequences then
      ({ decoder with duplicateSequences := saturatingIncrement decoder.duplicateSequences }, false)
    else ({ decoder with seenSequences := insert seq decoder.seenSequences }, true)

/-- `BTreeSet::range(first..=last).count()`, which panics on a reversed range. -/
def rangeCount (sequences : Finset Nat) (first last : Nat) : Option Nat :=
  if first ≤ last then some (sequences.filter fun seq => first ≤ seq ∧ seq ≤ last).card else none

def sequenceReport (decoder : Decoder) : Option (Decoder × Option SequenceReport) :=
  let cutoff := decoder.highestSequence - reorderWindow
  if cutoff ≤ decoder.finalizedSequence then some (decoder, none)
  else do
    let expected ← checkedSub cutoff decoder.finalizedSequence
    if expected < 32 then some (decoder, none)
    else
      let received ← rangeCount decoder.seenSequences (decoder.finalizedSequence + 1) cutoff
      let missing := expected - received
      let gapPpm := missing * 1_000_000 / expected % 2 ^ 32
      some
        ({ decoder with
            seenSequences := decoder.seenSequences.filter fun seq => cutoff + 1 ≤ seq
            finalizedSequence := cutoff
            lateSequences := 0
            duplicateSequences := 0 },
          some
            { expected, received, missing, sequenceGapPpm := min gapPpm 1_000_000
              late := decoder.lateSequences, duplicates := decoder.duplicateSequences })

/-! ### Expiry -/

/-- The ids to evict: the oldest ones above the limit. -/
def evicted (host : Host) (packets : Table Nat Reassembly) : Option (List Nat) := do
  let surplus ← checkedSub packets.size maxReassemblies
  some ((host.sortByCreated (packets.entries.map fun entry => (entry.1, entry.2.created))).take
    surplus |>.map Prod.fst)

def prune (host : Host) (now : Nat) (decoder : Decoder) : Option Decoder :=
  let groups := decoder.groups.retain fun _ group => now - group.created < groupTtl
  let packets := decoder.packets.retain fun _ packet => now - packet.created < reassemblyTtl
  if maxReassemblies < packets.size then do
    let oldest ← evicted host packets
    some { decoder with groups, packets := packets.eraseAll oldest }
  else some { decoder with groups, packets }

/-! ### Reassembly -/

/-- The reassembly a fragment goes to: the stored one, or an empty new one. -/
def reassemblyFor (now : Nat) (packets : Table Nat Reassembly) (header : FragmentHeader) :
    Reassembly :=
  (packets.lookup header.packet).getD ⟨now, List.replicate header.count none⟩

/-- Put one fragment body in its place and output the datagram once complete. -/
def place (now : Nat) (decoder : Decoder) (header : FragmentHeader) (body : Bytes) :
    Option (Decoder × List Bytes) :=
  let entry := reassemblyFor now decoder.packets header
  if entry.parts.length ≠ header.count then
    some ({ decoder with packets := decoder.packets.insert header.packet entry }, [])
  else if header.index < entry.parts.length then
    let parts := entry.parts.set header.index (some body)
    if parts.all Option.isSome then
      some ({ decoder with packets := decoder.packets.erase header.packet },
        [parts.reduceOption.flatten])
    else
      some ({ decoder with
        packets := decoder.packets.insert header.packet { entry with parts } }, [])
  else none

def fragment (now : Nat) (decoder : Decoder) (shard : Bytes) : Option (Decoder × List Bytes) :=
  if shard.length < fragmentHeader ∨ shardBytes < shard.length then some (decoder, [])
  else do
    let header ← FragmentHeader.read shard
    if header.Valid shard.length then
      let body ← slice? shard 14 (14 + header.length)
      decoder.place now header body
    else some (decoder, [])

/-- `fragment` on several shards, reading the clock anew for each. -/
def fragments (host : Host) : (reading : Nat) → Decoder → List Bytes →
    Option (Decoder × List Bytes)
  | _, decoder, [] => some (decoder, [])
  | reading, decoder, shard :: rest => do
    let (next, first) ← decoder.fragment (host.now reading) shard
    let (last, more) ← fragments host (reading + 1) next rest
    some (last, first ++ more)

/-! ### Frames -/

/-- The dimensions and the payload length `frame` accepts. -/
def Admissible (frame : Frame) : Prop :=
  frame.data ≠ 0 ∧ frame.data ≤ 32 ∧ frame.parity ≤ 16 ∧ frame.index < frame.data + frame.parity ∧
    fragmentHeader ≤ frame.payload.length ∧ frame.payload.length ≤ shardBytes

instance (frame : Frame) : Decidable (Admissible frame) :=
  inferInstanceAs (Decidable (_ ∧ _ ∧ _ ∧ _ ∧ _ ∧ _))

/-- Store an admissible shard in its group; the result lists the source shards
that become available. -/
def storeShard (rs : ReedSolomon) (host : Host) (decoder : Decoder) (frame : Frame) :
    Option (Decoder × Except FrameError (List Bytes)) :=
  if frame.group ∉ decoder.groups ∧ maxGroups ≤ decoder.groups.size then
    some (decoder, .error .tooManyFecGroups)
  else
    let group := (decoder.groups.lookup frame.group).getD
      (Group.fresh (host.now 1) frame.data frame.parity)
    if group.data ≠ frame.data ∨ group.parity ≠ frame.parity then
      some ({ decoder with groups := decoder.groups.insert frame.group group },
        .error .groupMismatch)
    else do
      let (group, result) ← group.accept rs frame.index frame.payload
      some ({ decoder with groups := decoder.groups.insert frame.group group }, result)

/-- The part of `frame` behind the sequence, kind and dimension checks. -/
def shardFrame (rs : ReedSolomon) (host : Host) (decoder : Decoder) (frame : Frame) :
    Option (Decoder × Except FrameError (List Bytes)) := do
  let pruned ← decoder.prune host (host.now 0)
  match ← pruned.storeShard rs host frame with
  | (stored, .error error) => some (stored, .error error)
  | (stored, .ok released) =>
    let (assembled, output) ← stored.fragments host 2 released
    let pruned ← assembled.prune host (host.now (2 + released.length))
    some (pruned, .ok output)

def frame (rs : ReedSolomon) (host : Host) (decoder : Decoder) (frame : Frame) :
    Option (Decoder × Except FrameError (List Bytes)) :=
  if decoder.session ≠ frame.session then some (decoder, .error .sessionMismatch)
  else
    let (decoder, fresh) := decoder.observeSeq frame.sequence
    if fresh = false then some (decoder, .ok [])
    else if frame.kind = kindReport then some (decoder, .ok [])
    else if ¬ frame.IsShard then some (decoder, .ok [])
    else if ¬ Admissible frame then some (decoder, .error .invalidFecFrame)
    else decoder.shardFrame rs host frame

/-! ### Runs -/

/-- The calls the loops of the tunnel make on a decoder. -/
inductive Call where
  | frame (frame : Frame) (host : Host)
  | sequenceReport

/-- One call and the datagrams it outputs. -/
def call (rs : ReedSolomon) (decoder : Decoder) : Call → Option (Decoder × List Bytes)
  | .frame frame host =>
    (decoder.frame rs host frame).map fun result => (result.1, result.2.toOption.getD [])
  | .sequenceReport => decoder.sequenceReport.map fun result => (result.1, [])

end Decoder

end SmartFecTunnel.Fec

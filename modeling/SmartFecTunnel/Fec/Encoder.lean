import SmartFecTunnel.Library.Chunks
import SmartFecTunnel.Library.EvaluationCode
import SmartFecTunnel.Library.Run
import SmartFecTunnel.Fec.Adaptive

/-!
Contract: the sending half of the FEC tunnel (`Encoder` in `src/main.rs`).

`encodeDatagram` cuts a datagram into fragments, puts a fourteen-byte header in
front of each and flushes whenever ten fragments are pending.  `flush` turns the
pending fragments into one group of data frames and, where the controller asks
for redundancy, Reed-Solomon parity frames.

The `u64` counters are natural numbers and do not wrap; results that need it
assume that they stay below `2 ^ 64`.

Does not own: Reed-Solomon arithmetic.  `ReedSolomon` is the library the source
calls, with the behaviour its callers rely on.
-/

namespace SmartFecTunnel.Fec

open SmartFecTunnel.Library

/-- The `reed-solomon-erasure` crate over GF(256). -/
structure ReedSolomon where
  new : (data parity : Nat) → Option ErasureCodec
  new_lawful :
    ∀ data parity, 1 ≤ data → 1 ≤ parity → data + parity ≤ 256 →
      ∃ codec, new data parity = some codec ∧ codec.Lawful data parity

/-- A library with this behaviour exists.  With one source shard every shard of a
Reed-Solomon codeword is a copy of it. -/
noncomputable def ReedSolomon.standard : ReedSolomon where
  new := fun data parity =>
    if data = 0 ∨ parity = 0 ∨ 256 < data + parity then none
    else if data = 1 then some (repetition parity)
    else some (evaluation byteField data parity)
  new_lawful := by
    intro data parity dataPos parityPos bounded
    rw [if_neg (by omega)]
    split
    next single =>
      subst single
      exact ⟨_, rfl, repetition_lawful parity⟩
    next => exact ⟨_, rfl, evaluation_lawful byteField dataPos bounded⟩

inductive EncodeError where
  | datagramTooLarge
  | reedSolomon
deriving DecidableEq, Repr

/-- The text of an error; one of the library keeps the library's own. -/
def EncodeError.message? : EncodeError → Option String
  | .datagramTooLarge => some "datagram too large"
  | .reedSolomon => none

structure Encoder where
  version : Nat
  keyId : Nat
  session : Nat
  sequence : Nat
  packet : Nat
  group : Nat
  shards : List Bytes
  adaptive : Adaptive
  /-- A fixed parity that replaces the controller's, in test builds only. -/
  forceParity : Option Nat

namespace Encoder

/-- A fresh encoder.  `hook` is the value of the test hook: always `none` in a
release build. -/
def withIdentity (session version keyId : Nat) (hook : Option Nat) : Encoder where
  version := version
  keyId := keyId
  session := session
  sequence := 1
  packet := 1
  group := 1
  shards := []
  adaptive := Adaptive.default
  forceParity := hook.map fun parity => min parity maxParity

def reportFrame (encoder : Encoder) (lossPpm : Nat) : Encoder × Frame :=
  ({ encoder with sequence := encoder.sequence + 1 },
    { version := encoder.version, keyId := encoder.keyId, kind := kindReport,
      session := encoder.session, sequence := encoder.sequence, group := 0, index := 0,
      data := 0, parity := 0, payload := toBeBytes 4 lossPpm })

/-- One fragment: packet id, fragment index, fragment count, chunk length, chunk. -/
def fragmentShard (packetId index count : Nat) (chunk : Bytes) : Bytes :=
  toBeBytes 8 packetId ++ (toBeBytes 2 index ++ (toBeBytes 2 count ++
    (toBeBytes 2 chunk.length ++ chunk)))

/-- The fragments of a datagram; an empty datagram has one empty fragment. -/
def datagramChunks (payload : Bytes) : List Bytes :=
  if payload.isEmpty then [[]] else chunks chunkBytes payload

/-- `Vec::resize` with zero filling. -/
def resize (length : Nat) (shard : Bytes) : Bytes :=
  shard.take length ++ List.replicate (length - shard.length) 0

/-- The number of parity shards `flush` adds to `data` source shards. -/
def parityFor (encoder : Encoder) (data : Nat) : Nat :=
  min
    (match encoder.forceParity with
    | some parity => min parity data
    | none =>
      if encoder.adaptive.parity = 0 then 0
      else if data < dataShards then min encoder.adaptive.parity data
      else divCeil (data * encoder.adaptive.parity) dataShards)
    maxParity

/-- The frames of one kind for consecutive shards of a group. -/
def shardFrames (encoder : Encoder) (kind data parity first : Nat) (shards : List Bytes) :
    List Frame :=
  shards.zipIdx.map fun entry =>
    { version := encoder.version, keyId := encoder.keyId, kind, session := encoder.session,
      sequence := encoder.sequence + first + entry.2, group := encoder.group,
      index := (first + entry.2) % 2 ^ 16, data := data % 2 ^ 8, parity := parity % 2 ^ 8,
      payload := entry.1 }

def flush (rs : ReedSolomon) (encoder : Encoder) : Encoder × Except EncodeError (List Frame) :=
  if encoder.shards.isEmpty then (encoder, .ok [])
  else
    let data := encoder.shards.length
    let parity := encoder.parityFor data
    let shardLen := (encoder.shards.map List.length).max?.getD fragmentHeader
    let shards :=
      if 0 < parity then encoder.shards.map (resize shardLen) else encoder.shards
    let dataFrames := encoder.shardFrames kindData data parity 0 shards
    if 0 < parity then
      -- An error here leaves the shards padded and the data sequence numbers used.
      let failed := { encoder with shards, sequence := encoder.sequence + data }
      match rs.new data parity with
      | none => (failed, .error .reedSolomon)
      | some codec =>
        match codec.encode shards with
        | none => (failed, .error .reedSolomon)
        | some repair =>
          ({ encoder with
              shards := [], sequence := encoder.sequence + data + repair.length
              group := encoder.group + 1 },
            .ok (dataFrames ++ encoder.shardFrames kindParity data parity data repair))
    else
      ({ encoder with
          shards := [], sequence := encoder.sequence + data, group := encoder.group + 1 },
        .ok dataFrames)

/-- The fragment loop of `encode_datagram`, from fragment `index` on. -/
def pushChunks (rs : ReedSolomon) (packetId count : Nat) :
    (index : Nat) → (rest : List Bytes) → Encoder → List Frame →
      Encoder × Except EncodeError (List Frame)
  | _, [], encoder, frames => (encoder, .ok frames)
  | index, chunk :: rest, encoder, frames =>
    let pushed := { encoder with
      shards := encoder.shards ++ [fragmentShard packetId index count chunk] }
    if pushed.shards.length = dataShards then
      match pushed.flush rs with
      | (flushed, .ok more) => pushChunks rs packetId count (index + 1) rest flushed (frames ++ more)
      | (failed, .error error) => (failed, .error error)
    else pushChunks rs packetId count (index + 1) rest pushed frames

def encodeDatagram (rs : ReedSolomon) (encoder : Encoder) (payload : Bytes) :
    Encoder × Except EncodeError (List Frame) :=
  let packetId := encoder.packet
  let counted := { encoder with packet := encoder.packet + 1 }
  let count := divCeil (max payload.length 1) chunkBytes
  if 2 ^ 16 - 1 < count then (counted, .error .datagramTooLarge)
  else pushChunks rs packetId count 0 (datagramChunks payload) counted []

/-! ### Identity -/

/-- The fields of an encoder that no operation changes. -/
structure SameIdentity (left right : Encoder) : Prop where
  session : left.session = right.session
  version : left.version = right.version
  keyId : left.keyId = right.keyId

theorem SameIdentity.trans {first second third : Encoder} (late : SameIdentity third second)
    (early : SameIdentity second first) : SameIdentity third first :=
  ⟨late.session.trans early.session, late.version.trans early.version,
    late.keyId.trans early.keyId⟩

theorem flush_sameIdentity (rs : ReedSolomon) (encoder : Encoder) :
    SameIdentity (encoder.flush rs).1 encoder := by
  unfold flush
  dsimp only
  split
  · exact ⟨rfl, rfl, rfl⟩
  · split
    · split
      · exact ⟨rfl, rfl, rfl⟩
      · split <;> exact ⟨rfl, rfl, rfl⟩
    · exact ⟨rfl, rfl, rfl⟩

theorem pushChunks_sameIdentity (rs : ReedSolomon) (packetId count index : Nat)
    (rest : List Bytes) (encoder : Encoder) (frames : List Frame) :
    SameIdentity (pushChunks rs packetId count index rest encoder frames).1 encoder := by
  induction rest generalizing index encoder frames with
  | nil => exact ⟨rfl, rfl, rfl⟩
  | cons chunk rest inductionHypothesis =>
      have flushed := flush_sameIdentity rs { encoder with
        shards := encoder.shards ++ [fragmentShard packetId index count chunk] }
      rw [pushChunks]
      dsimp only
      split
      · split
        next next more isNext =>
          rw [isNext] at flushed
          exact (inductionHypothesis _ next _).trans
            ⟨flushed.session, flushed.version, flushed.keyId⟩
        next failed error isFailed =>
          rw [isFailed] at flushed
          exact ⟨flushed.session, flushed.version, flushed.keyId⟩
      · have pushed := inductionHypothesis (index + 1) { encoder with
          shards := encoder.shards ++ [fragmentShard packetId index count chunk] } frames
        exact pushed.trans ⟨rfl, rfl, rfl⟩

/-! ### Runs -/

/-- The calls the loops of the tunnel make on an encoder. -/
inductive Call where
  | encodeDatagram (payload : Bytes)
  | flush
  | reportFrame (lossPpm : Nat)
  | adaptiveReport (loss : Nat)
deriving DecidableEq, Repr

/-- One call and the frames it hands to the network. -/
def call (rs : ReedSolomon) (encoder : Encoder) : Call → Encoder × List Frame
  | .encodeDatagram payload =>
    let result := encoder.encodeDatagram rs payload
    (result.1, result.2.toOption.getD [])
  | .flush =>
    let result := encoder.flush rs
    (result.1, result.2.toOption.getD [])
  | .reportFrame lossPpm =>
    let result := encoder.reportFrame lossPpm
    (result.1, [result.2])
  | .adaptiveReport loss => ({ encoder with adaptive := encoder.adaptive.report loss }, [])

theorem call_sameIdentity (rs : ReedSolomon) (encoder : Encoder) (call : Call) :
    SameIdentity (encoder.call rs call).1 encoder := by
  cases call with
  | encodeDatagram payload =>
      unfold Encoder.call encodeDatagram
      dsimp only
      split
      · exact ⟨rfl, rfl, rfl⟩
      · have pushed := pushChunks_sameIdentity rs encoder.packet
          (divCeil (max payload.length 1) chunkBytes) 0 (datagramChunks payload)
          { encoder with packet := encoder.packet + 1 } []
        exact pushed.trans ⟨rfl, rfl, rfl⟩
  | flush => exact flush_sameIdentity rs encoder
  | reportFrame lossPpm => exact ⟨rfl, rfl, rfl⟩
  | adaptiveReport loss => exact ⟨rfl, rfl, rfl⟩

/-- The `u64` counters of an encoder have not wrapped. -/
structure CountersFit (encoder : Encoder) : Prop where
  sequence : encoder.sequence < 2 ^ 64
  packet : encoder.packet < 2 ^ 64
  group : encoder.group < 2 ^ 64

/-- The state and the frames after a list of calls. -/
def calls (rs : ReedSolomon) (encoder : Encoder) (list : List Call) :
    Option (Encoder × List Frame) :=
  run (fun state input => some (state.call rs input)) encoder list

def Call.datagram : Call → Option Bytes
  | .encodeDatagram payload => some payload
  | _ => none

/-- The datagrams given to `encode_datagram`, in order. -/
def datagrams (list : List Call) : List Bytes := list.filterMap Call.datagram

theorem mem_datagrams_of_front {front list : List Call} {payload : Bytes}
    (isPrefix : front ++ [.encodeDatagram payload] <+: list) : payload ∈ datagrams list :=
  List.mem_filterMap.mpr ⟨.encodeDatagram payload, mem_of_front isPrefix, rfl⟩

end Encoder

end SmartFecTunnel.Fec

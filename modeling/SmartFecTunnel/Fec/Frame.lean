import SmartFecTunnel.Library.BigEndian

/-!
Contract: the frame of the FEC tunnel and the constants its parties share
(`src/main.rs`).

Fixed-width integers of the source are natural numbers here.  Times are
nanoseconds of one monotone clock.

Does not own: the byte layout of a frame on the wire.
-/

namespace SmartFecTunnel.Fec

open SmartFecTunnel.Library

def versionV1 : Nat := 1
def versionV2 : Nat := 2
def versionV3 : Nat := 3

def kindData : Nat := 1
def kindParity : Nat := 2
def kindReport : Nat := 3

/-- Largest FEC shard in bytes. -/
def shardBytes : Nat := 1340
def fragmentHeader : Nat := 14
/-- Payload bytes of one fragment. -/
def chunkBytes : Nat := shardBytes - fragmentHeader
def dataShards : Nat := 10

def groupTtl : Nat := 2_000_000_000
def reassemblyTtl : Nat := 3_000_000_000
def reorderWindow : Nat := 64
def maxGroups : Nat := 2048
def maxReassemblies : Nat := 4096
def maxParity : Nat := 4

def fecBypassLossPpm : Nat := 300_000
/-- The reserved loss value of a report without a sample. -/
def lossSampleUnavailable : Nat := 2 ^ 32 - 1

/-- The bounds a stored shard satisfies. -/
def ShardSize (shard : Bytes) : Prop := fragmentHeader ≤ shard.length ∧ shard.length ≤ shardBytes

structure Frame where
  version : Nat
  keyId : Nat
  kind : Nat
  session : Nat
  sequence : Nat
  group : Nat
  index : Nat
  data : Nat
  parity : Nat
  payload : Bytes
deriving DecidableEq, Repr

/-- A frame that carries a shard. -/
def Frame.IsShard (frame : Frame) : Prop := frame.kind = kindData ∨ frame.kind = kindParity

instance (frame : Frame) : Decidable frame.IsShard := inferInstanceAs (Decidable (_ ∨ _))

end SmartFecTunnel.Fec

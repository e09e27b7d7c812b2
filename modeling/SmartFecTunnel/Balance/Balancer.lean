import SmartFecTunnel.Library.BigEndian

/-!
Contract: one client of the TCP balancer (`handle_balanced_client` and
`read_socks_address` in `src/main.rs`).

A client asks for a CONNECT in the SOCKS 5 protocol.  The balancer hands the
request to its upstreams in rotation, first to those that are marked healthy and
then to all, until one accepts it.

What `socks_connect` returns for an upstream is given, and so is how the copying
between client and upstream ends; it starts with what neither side has been read of yet.

Owns: what the balancer reads from a client and writes to it, and what a call
does to the health marks and to the cursor.

Does not own: several clients at a time, the periodic health check, and a write
that fails.
-/

namespace SmartFecTunnel.Balance

open SmartFecTunnel.Library

structure BalanceUpstream where
  healthy : Bool
  active : Nat
deriving DecidableEq, Repr

inductive BalanceError (ε : Type) where
  | io
  | invalidGreeting
  | requiresAuthentication
  | connectOnly
  | emptyDomain
  | unsupportedAddressType
  | noHealthyUpstream
  | upstream (error : ε)
deriving DecidableEq, Repr

def BalanceError.message {ε : Type} : BalanceError ε → Option String
  | .invalidGreeting => some "invalid socks greeting"
  | .requiresAuthentication => some "socks client requires authentication"
  | .connectOnly => some "only socks CONNECT is supported"
  | .emptyDomain => some "empty socks domain"
  | .unsupportedAddressType => some "unsupported socks address type"
  | .noHealthyUpstream => some "no healthy WARP upstream"
  | .io => none
  | .upstream _ => none

/-! ### The request of a client -/

section Request

variable {ε : Type}

/-- `read_exact` on what the client sends before it closes. -/
def readBytes (size : Nat) (stream : Bytes) : Except (BalanceError ε) (Bytes × Bytes) :=
  if size ≤ stream.length then .ok (stream.take size, stream.drop size) else .error .io

def readSocksAddress (stream : Bytes) (atyp : UInt8) :
    Except (BalanceError ε) (Bytes × Bytes) :=
  match atyp.toNat with
  | 1 => readBytes 6 stream
  | 3 =>
    match stream with
    | [] => .error .io
    | length :: stream =>
      if length = 0 then .error .emptyDomain
      else (readBytes (length.toNat + 2) stream).map fun rest => (length :: rest.1, rest.2)
  | 4 => readBytes 18 stream
  | _ => .error .unsupportedAddressType

/-- The greeting: the methods the client offers. -/
def readGreeting (stream : Bytes) : Except (BalanceError ε) (Bytes × Bytes) :=
  match stream with
  | version :: methods :: stream =>
    if version ≠ 5 ∨ methods = 0 ∨ 32 < methods.toNat then .error .invalidGreeting
    else readBytes methods.toNat stream
  | _ => .error .io

/-- Replies: no acceptable method, no authentication, CONNECT only, a general failure. -/
def noMethodReply : Bytes := [5, 0xff]
def methodReply : Bytes := [5, 0]
def connectOnlyReply : Bytes := [5, 7, 0, 1, 0, 0, 0, 0, 0, 0]
def failureReply : Bytes := [5, 1, 0, 1, 0, 0, 0, 0, 0, 0]

/-- What is written to the client before an upstream is tried, the request for it, and what
is left to read of the client. -/
def readRequest (stream : Bytes) : List Bytes × Except (BalanceError ε) (Bytes × Bytes) :=
  match readGreeting stream with
  | .error error => ([], .error error)
  | .ok (offered, stream) =>
    if 0 ∉ offered then ([noMethodReply], .error .requiresAuthentication)
    else
      match stream with
      | version :: command :: reserved :: atyp :: stream =>
        if version ≠ 5 ∨ command ≠ 1 ∨ reserved ≠ 0 then
          ([methodReply, connectOnlyReply], .error .connectOnly)
        else
          match readSocksAddress stream atyp with
          | .error error => ([methodReply], .error error)
          | .ok (address, stream) =>
            ([methodReply], .ok ([version, command, reserved, atyp] ++ address, stream))
      | _ => ([methodReply], .error .io)

end Request

/-! ### The choice of an upstream -/

/-- What `socks_connect` returns for an upstream: a stream and the response, or an error. -/
abbrev Outcomes (ε σ : Type) := Nat → Except ε (σ × Bytes)

def healthyAt (upstreams : List BalanceUpstream) (index : Nat) : Bool :=
  upstreams[index]?.any (·.healthy)

/-- The upstreams, those that were dialled in order, and the last error. -/
structure Selection (ε : Type) where
  upstreams : List BalanceUpstream
  dialled : List Nat
  lastError : Option ε

namespace Selection

variable {ε σ : Type}

/-- Before any upstream is dialled. -/
def initial (upstreams : List BalanceUpstream) : Selection ε := ⟨upstreams, [], none⟩

def isHealthy (selection : Selection ε) (index : Nat) : Bool :=
  healthyAt selection.upstreams index

/-- An upstream has been dialled and its mark is set. -/
def mark (selection : Selection ε) (index : Nat) (healthy : Bool) : Selection ε :=
  { selection with
    upstreams := selection.upstreams.modify index fun state => { state with healthy }
    dialled := selection.dialled ++ [index] }

/-- The inner loop over the upstreams in the given order. -/
def pass (outcomes : Outcomes ε σ) (healthyOnly : Bool) :
    List Nat → Selection ε → Selection ε × Option (Nat × σ × Bytes)
  | [], selection => (selection, none)
  | index :: rest, selection =>
    if healthyOnly && !selection.isHealthy index then pass outcomes healthyOnly rest selection
    else
      match outcomes index with
      | .ok (stream, response) => (selection.mark index true, some (index, stream, response))
      | .error error =>
        pass outcomes healthyOnly rest { selection.mark index false with lastError := some error }

end Selection

/-- The upstreams in the order in which they are tried. -/
def rotation (start count : Nat) : List Nat :=
  (List.range count).map fun offset => (start + offset) % count

/-- Both passes. -/
def selectUpstream {ε σ : Type} (outcomes : Outcomes ε σ) (start : Nat)
    (upstreams : List BalanceUpstream) : Selection ε × Option (Nat × σ × Bytes) :=
  let order := rotation start upstreams.length
  match Selection.pass outcomes true order (Selection.initial upstreams) with
  | (selection, some chosen) => (selection, some chosen)
  | (selection, none) => Selection.pass outcomes false order selection

/-! ### One client -/

/-- What a call leaves. -/
structure BalancedCall (ε : Type) where
  upstreams : List BalanceUpstream
  cursor : Nat
  dialled : List Nat
  replies : List Bytes
  result : Except (BalanceError ε) Unit

/-- `fetch_add` and `fetch_sub` of one on the number of active clients. -/
def addActive (index : Nat) (upstreams : List BalanceUpstream) : List BalanceUpstream :=
  upstreams.modify index fun state => { state with active := (state.active + 1) % 2 ^ 64 }

def subActive (index : Nat) (upstreams : List BalanceUpstream) : List BalanceUpstream :=
  upstreams.modify index fun state =>
    { state with active := (state.active + (2 ^ 64 - 1)) % 2 ^ 64 }

/-- The outcome of a call without upstreams is a panic. -/
def handleBalancedClient {ε σ : Type} (outcomes : Bytes → Outcomes ε σ)
    (copyBidirectional : Bytes → σ → Except (BalanceError ε) Unit)
    (upstreams : List BalanceUpstream) (cursor : Nat) (stream : Bytes) :
    Option (BalancedCall ε) :=
  match readRequest stream with
  | (replies, .error error) => some ⟨upstreams, cursor, [], replies, .error error⟩
  | (replies, .ok (request, client)) =>
    if upstreams.length = 0 then none
    else
      let start := cursor % upstreams.length
      let cursor := (cursor + 1) % 2 ^ 64
      match selectUpstream (outcomes request) start upstreams with
      | (selection, none) =>
        let error := match selection.lastError with
          | some error => .upstream error
          | none => .noHealthyUpstream
        some ⟨selection.upstreams, cursor, selection.dialled, replies ++ [failureReply],
          .error error⟩
      | (selection, some (index, remote, response)) =>
        some ⟨subActive index (addActive index selection.upstreams), cursor, selection.dialled,
          replies ++ [response], copyBidirectional client remote⟩

end SmartFecTunnel.Balance

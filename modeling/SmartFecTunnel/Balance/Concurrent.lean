import SmartFecTunnel.Balance.Balancer
import SmartFecTunnel.Library.Run

/-!
Contract: the TCP balancer with all its clients at once (`balance` in `src/main.rs`).

Each client is a task of its own.  The tasks and the health checker share the cursor and, for
each upstream, a health mark and the number of active clients; every event is one access to
these, so the events of different tasks come in any order.

Relaxed accesses are taken as accesses to one value, in one order.

What `socks_connect` returns is given by the event, and so is whether an answer can be written;
the replies while a request is read are.

Owns: the tasks, the health checker, their events and what can be observed of them.

Does not own: sockets, and the address of an upstream.
-/

namespace SmartFecTunnel.Balance

open SmartFecTunnel.Library

inductive StartError where
  | tooFewUpstreams
deriving DecidableEq, Repr

def StartError.message : StartError → String
  | .tooFewUpstreams => "balance requires at least two upstreams"

/-- The loops over the upstreams: `healthyOnly` and `offset` are their variables. -/
structure Round (ε : Type) where
  request : Bytes
  start : Nat
  healthyOnly : Bool
  offset : Nat
  lastError : Option ε
deriving DecidableEq, Repr

/-- Where the task of a client is: it reads the request, reads the mark of an upstream, waits
for the upstream, writes its response, or writes that none accepts; then it copies. -/
inductive Task (ε σ : Type) where
  | reading
  | choosing (round : Round ε)
  | dialling (round : Round ε)
  | answering (index : Nat) (remote : σ) (response : Bytes)
  | refusing (lastError : Option ε)
  | copying (index : Nat)
  | ended (result : Except (BalanceError ε) Unit)

def Round.index {ε : Type} (round : Round ε) (count : Nat) : Nat :=
  (round.start + round.offset) % count

/-- On to the next upstream, to the second pass, or out of the loops. -/
def Round.advance {ε σ : Type} (round : Round ε) (count : Nat) : Task ε σ :=
  if round.offset + 1 < count then .choosing { round with offset := round.offset + 1 }
  else if round.healthyOnly then .choosing { round with healthyOnly := false, offset := 0 }
  else .refusing round.lastError

/-- `probe` is the upstream that the health checker dials. -/
structure Balancer (ε σ : Type) where
  upstreams : List BalanceUpstream
  cursor : Nat
  tasks : List (Task ε σ)
  probe : Option Nat

def balance {ε σ : Type} (addresses : Nat) : Except StartError (Balancer ε σ) :=
  if addresses < 2 then .error .tooFewUpstreams
  else .ok ⟨List.replicate addresses ⟨true, 0⟩, 0, [], none⟩

inductive TaskEvent (ε σ : Type) where
  | request (stream : Bytes)
  | look
  | connect (outcome : Except ε (σ × Bytes))
  | answer (written : Bool)
  | copied (result : Except (BalanceError ε) Unit)

/-- `client` is the position of a task in the list of all tasks. -/
inductive BalanceEvent (ε σ : Type) where
  | accept
  | task (client : Nat) (event : TaskEvent ε σ)
  | tick
  | probed (healthy : Bool)

inductive BalanceObservation where
  | replied (client : Nat) (replies : List Bytes)
  | started (client start : Nat)
  | dialled (client index : Nat) (request : Bytes) (accepted : Bool)
  | responded (client index : Nat) (response : Bytes)
  | refused (client : Nat)
  | probed (index : Nat) (healthy : Bool)
deriving DecidableEq, Repr

namespace Balancer

variable {ε σ : Type}

def setTask (balancer : Balancer ε σ) (client : Nat) (task : Task ε σ) : Balancer ε σ :=
  { balancer with tasks := balancer.tasks.set client task }

/-- `store` to the health mark. -/
def mark (balancer : Balancer ε σ) (index : Nat) (healthy : Bool) : Balancer ε σ :=
  { balancer with
    upstreams := balancer.upstreams.modify index fun state => { state with healthy } }

/-- An event of the task of a client. -/
def taskStep (balancer : Balancer ε σ) (client : Nat) (task : Task ε σ) :
    TaskEvent ε σ → Option (Balancer ε σ × List BalanceObservation)
  | .request stream =>
    match task with
    | .reading =>
      match readRequest stream with
      | (replies, .error error) =>
        some (balancer.setTask client (.ended (.error error)), [.replied client replies])
      | (replies, .ok (request, _)) =>
        let start := balancer.cursor % balancer.upstreams.length
        some ({ balancer with cursor := (balancer.cursor + 1) % 2 ^ 64 }.setTask client
            (.choosing ⟨request, start, true, 0, none⟩),
          [.replied client replies, .started client start])
    | _ => none
  | .look =>
    match task with
    | .choosing round =>
      let count := balancer.upstreams.length
      if round.healthyOnly && !healthyAt balancer.upstreams (round.index count) then
        some (balancer.setTask client (round.advance count), [])
      else some (balancer.setTask client (.dialling round), [])
    | _ => none
  | .connect outcome =>
    match task with
    | .dialling round =>
      let count := balancer.upstreams.length
      let index := round.index count
      match outcome with
      | .ok (remote, response) =>
        some ((balancer.mark index true).setTask client (.answering index remote response),
          [.dialled client index round.request true])
      | .error error =>
        some ((balancer.mark index false).setTask client
            ({ round with lastError := some error }.advance count),
          [.dialled client index round.request false])
    | _ => none
  | .answer written =>
    match task with
    | .answering index _ response =>
      if written then
        some ({ balancer with upstreams := addActive index balancer.upstreams }.setTask client
          (.copying index), [.responded client index response])
      else some (balancer.setTask client (.ended (.error .io)), [])
    | .refusing lastError =>
      if written then
        let error := (lastError.map BalanceError.upstream).getD .noHealthyUpstream
        some (balancer.setTask client (.ended (.error error)), [.refused client])
      else some (balancer.setTask client (.ended (.error .io)), [])
    | _ => none
  | .copied result =>
    match task with
    | .copying index =>
      some ({ balancer with upstreams := subActive index balancer.upstreams }.setTask client
        (.ended result), [])
    | _ => none

end Balancer

/-- One event; `none` if it cannot happen. -/
def Balancer.step {ε σ : Type} (balancer : Balancer ε σ) :
    BalanceEvent ε σ → Option (Balancer ε σ × List BalanceObservation)
  | .accept => some ({ balancer with tasks := balancer.tasks ++ [.reading] }, [])
  | .task client event =>
    balancer.tasks[client]?.bind fun task => balancer.taskStep client task event
  | .tick =>
    match balancer.probe with
    | none => some ({ balancer with probe := some 0 }, [])
    | some _ => none
  | .probed healthy =>
    balancer.probe.map fun index =>
      let next := if index + 1 < balancer.upstreams.length then some (index + 1) else none
      ({ balancer.mark index healthy with probe := next }, [.probed index healthy])

/-! ### What can be observed -/

namespace BalanceObservation

/-- The dials of a client, with whether the upstream accepted. -/
def dial? (client : Nat) : BalanceObservation → Option (Nat × Bool)
  | .dialled other index _ accepted => if other = client then some (index, accepted) else none
  | _ => none

/-- The upstream at which a client starts. -/
def start? : BalanceObservation → Option Nat
  | .started _ start => some start
  | _ => none

/-- The upstream at which one client starts. -/
def startOf? (client : Nat) : BalanceObservation → Option Nat
  | .started other start => if other = client then some start else none
  | _ => none

/-- What is found out about an upstream. -/
def result? (index : Nat) : BalanceObservation → Option Bool
  | .dialled _ other _ accepted => if other = index then some accepted else none
  | .probed other healthy => if other = index then some healthy else none
  | _ => none

end BalanceObservation

end SmartFecTunnel.Balance

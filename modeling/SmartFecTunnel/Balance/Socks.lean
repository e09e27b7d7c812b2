import SmartFecTunnel.Balance.Failover

/-!
Contract: the bytes of a connection through the balancer (`socks_connect` and
`read_socks_address` in `src/main.rs`, and the copying at the end of `handle_balanced_client`).

The balancer greets the upstream itself, hands it the request of the client and hands the
client its response; from there on it copies what neither side has been read of yet.  Nothing
but the formats of SOCKS 5 tells where a request or a response ends, so a byte too many or too
few would be lost or repeated.

Times are milliseconds since the connection to the upstream was asked for.

Owns: which connections are copied, and which bytes an upstream and a client receive, for any
bytes that they send at any times.

Does not own: writes that fail, and how the copying ends.
-/

namespace SmartFecTunnel.Balance

open SmartFecTunnel.Library

/-! ### An upstream -/

/-- `pending` is no error: the call waits for bytes without a limit. -/
inductive SocksError where
  | connectTimeout
  | io
  | authentication
  | responseTimeout
  | address (error : BalanceError Unit)
  | refused (code : UInt8)
  | pending
deriving DecidableEq, Repr

def SocksError.message : SocksError → Option String
  | .connectTimeout => some "socks upstream connect timeout"
  | .authentication => some "socks upstream rejected authentication"
  | .responseTimeout => some "socks upstream response timeout"
  | .address error => error.message
  | .refused code => some s!"socks upstream connect failed code={code.toNat}"
  | .io => none
  | .pending => none

/-- What comes of one dial: how long the connection takes to open and whether it opens, all
bytes that the upstream sends with the times at which they are there, and when it closes. -/
structure SocksUpstream where
  opening : Nat
  opens : Bool
  stream : Bytes
  arrival : Nat → Nat
  closing : Option Nat

def connectLimit : Nat := 4000
def responseLimit : Nat := 8000

/-- The greeting of the balancer. -/
def upstreamGreeting : Bytes := [5, 1, 0]

namespace SocksUpstream

/-- `read_exact` of bytes that do not come. -/
def missing (upstream : SocksUpstream) : SocksError :=
  if upstream.closing.isSome then .io else .pending

/-- The request is written when the chosen method is there. -/
def deadline (upstream : SocksUpstream) : Nat := upstream.arrival 1 + responseLimit

/-- `read_exact` of a head that does not come whole, under the limit. -/
def missingHead (upstream : SocksUpstream) : SocksError :=
  if upstream.closing.any (· ≤ upstream.deadline) then .io else .responseTimeout

/-- The last byte of the head comes behind the limit. -/
def LateHead (upstream : SocksUpstream) : Prop := upstream.deadline < upstream.arrival 5

instance (upstream : SocksUpstream) : Decidable upstream.LateHead :=
  inferInstanceAs (Decidable (_ < _))

end SocksUpstream

/-- What is written to an upstream, and what is left to read of it with the response. -/
def socksConnect (upstream : SocksUpstream) (request : Bytes) :
    List Bytes × Except SocksError (Bytes × Bytes) :=
  if connectLimit < upstream.opening then ([], .error .connectTimeout)
  else if upstream.opens = false then ([], .error .io)
  else
    match upstream.stream with
    | first :: second :: stream =>
      if [first, second] ≠ [5, 0] then ([upstreamGreeting], .error .authentication)
      else
        match stream with
        | version :: code :: reserved :: atyp :: stream =>
          if upstream.LateHead then ([upstreamGreeting, request], .error .responseTimeout)
          else
            match (readSocksAddress stream atyp : Except (BalanceError Unit) (Bytes × Bytes)) with
            | .error .io => ([upstreamGreeting, request], .error upstream.missing)
            | .error error => ([upstreamGreeting, request], .error (.address error))
            | .ok (tail, stream) =>
              if version ≠ 5 ∨ code ≠ 0 then
                ([upstreamGreeting, request], .error (.refused code))
              else
                ([upstreamGreeting, request],
                  .ok (stream, [version, code, reserved, atyp] ++ tail))
        | _ => ([upstreamGreeting, request], .error upstream.missingHead)
    | _ => ([upstreamGreeting], .error upstream.missing)

/-! ### A connection -/

/-- All bytes that either side of a copied connection receives. -/
structure Carried where
  toUpstream : Bytes
  toClient : Bytes
deriving DecidableEq, Repr

/-- A client and the upstream that is dialled for it: what was written to each of them, and
behind it what is left to read of the other.  `none` if nothing is copied. -/
def connection (client : Bytes) (upstream : SocksUpstream) : Option Carried :=
  match (readRequest client : List Bytes × Except (BalanceError SocksError) (Bytes × Bytes)) with
  | (_, .error _) => none
  | (replies, .ok (request, unread)) =>
    match socksConnect upstream request with
    | (_, .error _) => none
    | (sent, .ok (remote, response)) =>
      some ⟨sent.flatten ++ unread, (replies ++ [response]).flatten ++ remote⟩

/-! ### The formats -/

/-- An address with its port. -/
def IsAddress (atyp : UInt8) (address : Bytes) : Prop :=
  atyp = 1 ∧ address.length = 6 ∨
    (atyp = 3 ∧ ∃ length name, address = length :: name ∧ length ≠ 0 ∧
      name.length = length.toNat + 2) ∨
    atyp = 4 ∧ address.length = 18

def IsConnect (request : Bytes) : Prop :=
  ∃ atyp address, request = [5, 1, 0, atyp] ++ address ∧ IsAddress atyp address

def IsSuccess (response : Bytes) : Prop :=
  ∃ reserved atyp address, response = [5, 0, reserved, atyp] ++ address ∧ IsAddress atyp address

section Reading

variable {ε : Type}

theorem readBytes_ok_iff {size : Nat} {stream front rest : Bytes} :
    (readBytes size stream : Except (BalanceError ε) (Bytes × Bytes)) = .ok (front, rest) ↔
      front.length = size ∧ stream = front ++ rest := by
  unfold readBytes
  constructor
  · intro isRead
    split at isRead
    next enough =>
      cases isRead
      exact ⟨List.length_take_of_le enough, (List.take_append_drop size stream).symm⟩
    next => cases isRead
  · rintro ⟨rfl, rfl⟩
    simp

/-- An address is read to its end and no further. -/
theorem readSocksAddress_ok_iff {stream address rest : Bytes} {atyp : UInt8} :
    (readSocksAddress stream atyp : Except (BalanceError ε) (Bytes × Bytes)) =
        .ok (address, rest) ↔
      IsAddress atyp address ∧ stream = address ++ rest := by
  unfold readSocksAddress IsAddress
  constructor
  · intro isRead
    split at isRead
    next isOne =>
      obtain ⟨isLength, isStream⟩ := readBytes_ok_iff.mp isRead
      exact ⟨Or.inl ⟨UInt8.toNat_inj.mp isOne, isLength⟩, isStream⟩
    next isThree =>
      split at isRead
      next => cases isRead
      next length name =>
        split at isRead
        next => cases isRead
        next nonempty =>
          cases isName : (readBytes (length.toNat + 2) name :
            Except (BalanceError ε) (Bytes × Bytes)) with
          | error error =>
              rw [isName] at isRead
              cases isRead
          | ok found =>
              obtain ⟨isLength, isStream⟩ := readBytes_ok_iff.mp isName
              rw [isName] at isRead
              cases isRead
              refine ⟨Or.inr (Or.inl ⟨UInt8.toNat_inj.mp isThree, length, found.1, rfl, nonempty,
                isLength⟩), ?_⟩
              rw [isStream, List.cons_append]
    next isFour =>
      obtain ⟨isLength, isStream⟩ := readBytes_ok_iff.mp isRead
      exact ⟨Or.inr (Or.inr ⟨UInt8.toNat_inj.mp isFour, isLength⟩), isStream⟩
    next => cases isRead
  · rintro ⟨⟨rfl, isLength⟩ | ⟨rfl, length, name, rfl, nonempty, isLength⟩ | ⟨rfl, isLength⟩, rfl⟩
    · exact readBytes_ok_iff.mpr ⟨isLength, rfl⟩
    · have isName : (readBytes (length.toNat + 2) (name ++ rest) :
          Except (BalanceError ε) (Bytes × Bytes)) = .ok (name, rest) :=
        readBytes_ok_iff.mpr ⟨isLength, rfl⟩
      show (if length = 0 then _ else (readBytes (length.toNat + 2) (name ++ rest)).map _) = _
      rw [if_neg nonempty, isName]
      rfl
    · exact readBytes_ok_iff.mpr ⟨isLength, rfl⟩

theorem readGreeting_ok_iff {stream offered rest : Bytes} :
    (readGreeting stream : Except (BalanceError ε) (Bytes × Bytes)) = .ok (offered, rest) ↔
      ∃ methods : UInt8, methods ≠ 0 ∧ methods.toNat ≤ 32 ∧ offered.length = methods.toNat ∧
        stream = 5 :: methods :: (offered ++ rest) := by
  unfold readGreeting
  constructor
  · intro isRead
    split at isRead
    next version methods stream =>
      split at isRead
      next => cases isRead
      next valid =>
        obtain ⟨isLength, isStream⟩ := readBytes_ok_iff.mp isRead
        obtain ⟨isVersion, nonzero, few⟩ : version = 5 ∧ methods ≠ 0 ∧ methods.toNat ≤ 32 := by
          simpa [not_or] using valid
        exact ⟨methods, nonzero, few, isLength, by rw [isVersion, isStream]⟩
    next => cases isRead
  · rintro ⟨methods, nonzero, few, isLength, rfl⟩
    have valid : ¬ ((5 : UInt8) ≠ 5 ∨ methods = 0 ∨ 32 < methods.toNat) := by
      simp [nonzero, few]
    dsimp only
    rw [if_neg valid]
    exact readBytes_ok_iff.mpr ⟨isLength, rfl⟩

/-- A request is accepted exactly when it is a CONNECT behind a greeting that offers no
authentication, and all that is behind it is left. -/
theorem readRequest_ok_iff {stream request unread : Bytes} {replies : List Bytes} :
    (readRequest stream : List Bytes × Except (BalanceError ε) (Bytes × Bytes)) =
        (replies, .ok (request, unread)) ↔
      replies = [methodReply] ∧ IsConnect request ∧
        ∃ (methods : UInt8) (offered : Bytes), methods.toNat ≤ 32 ∧
          offered.length = methods.toNat ∧ 0 ∈ offered ∧
          stream = 5 :: methods :: (offered ++ (request ++ unread)) := by
  unfold readRequest
  constructor
  · intro isRead
    split at isRead
    next => cases isRead
    next offered rest isGreeting =>
      obtain ⟨methods, _, few, isLength, rfl⟩ := readGreeting_ok_iff.mp isGreeting
      split at isRead
      next => cases isRead
      next offers =>
        split at isRead
        next version command reserved atyp stream =>
          split at isRead
          next => cases isRead
          next valid =>
            split at isRead
            next => cases isRead
            next address behind isAddress =>
              obtain ⟨isFormat, rfl⟩ := readSocksAddress_ok_iff.mp isAddress
              cases isRead
              obtain ⟨rfl, rfl, rfl⟩ : version = 5 ∧ command = 1 ∧ reserved = 0 := by
                simpa [not_or] using valid
              exact ⟨rfl, ⟨atyp, address, rfl, isFormat⟩, methods, offered, few, isLength,
                not_not.mp offers, rfl⟩
        next => cases isRead
  · rintro ⟨rfl, ⟨atyp, address, rfl, isFormat⟩, methods, offered, few, isLength, offers, rfl⟩
    have nonzero : methods ≠ 0 := by
      rintro rfl
      rw [List.eq_nil_of_length_eq_zero isLength] at offers
      exact List.not_mem_nil offers
    have isGreeting : (readGreeting (5 :: methods :: (offered ++ (([5, 1, 0, atyp] ++ address) ++
        unread))) : Except (BalanceError ε) (Bytes × Bytes)) =
          .ok (offered, ([5, 1, 0, atyp] ++ address) ++ unread) :=
      readGreeting_ok_iff.mpr ⟨methods, nonzero, few, isLength, rfl⟩
    have isAddress : (readSocksAddress (address ++ unread) atyp :
        Except (BalanceError ε) (Bytes × Bytes)) = .ok (address, unread) :=
      readSocksAddress_ok_iff.mpr ⟨isFormat, rfl⟩
    rw [isGreeting]
    simp [offers, isAddress]

end Reading

/-- An upstream is taken exactly when it can be reached and accepts the greeting and the request
in time; the response ends where its format says. -/
theorem socksConnect_ok_iff {upstream : SocksUpstream} {request : Bytes} {sent : List Bytes}
    {response remote : Bytes} :
    socksConnect upstream request = (sent, .ok (remote, response)) ↔
      upstream.opening ≤ connectLimit ∧ upstream.opens = true ∧ ¬ upstream.LateHead ∧
        sent = [upstreamGreeting, request] ∧ IsSuccess response ∧
        upstream.stream = [5, 0] ++ (response ++ remote) := by
  unfold socksConnect
  constructor
  · intro isConnect
    split at isConnect
    next => cases isConnect
    next inTime =>
      split at isConnect
      next => cases isConnect
      next opens =>
        split at isConnect
        next first second stream isStream =>
          split at isConnect
          next => cases isConnect
          next isMethod =>
            split at isConnect
            next version code reserved atyp stream =>
              split at isConnect
              next => cases isConnect
              next notLate =>
                split at isConnect
                next => cases isConnect
                next => cases isConnect
                next tail rest isTail =>
                  obtain ⟨isFormat, rfl⟩ := readSocksAddress_ok_iff.mp isTail
                  split at isConnect
                  next => cases isConnect
                  next accepted =>
                    cases isConnect
                    obtain ⟨rfl, rfl⟩ : version = 5 ∧ code = 0 := by
                      simpa [not_or] using accepted
                    obtain ⟨rfl, rfl⟩ : first = 5 ∧ second = 0 := by
                      simpa using isMethod
                    exact ⟨Nat.le_of_not_lt inTime, Bool.eq_true_of_not_eq_false opens, notLate,
                      rfl, ⟨reserved, atyp, tail, rfl, isFormat⟩, isStream⟩
            next => cases isConnect
        next => cases isConnect
  · rintro ⟨inTime, opens, notLate, rfl, ⟨reserved, atyp, address, rfl, isFormat⟩, isStream⟩
    have isAddress : (readSocksAddress (address ++ remote) atyp :
        Except (BalanceError Unit) (Bytes × Bytes)) = .ok (address, remote) :=
      readSocksAddress_ok_iff.mpr ⟨isFormat, rfl⟩
    rw [if_neg (Nat.not_lt.mpr inTime), if_neg (Bool.not_eq_false _ ▸ opens), isStream]
    simp [notLate, isAddress]

/-- A connection is copied exactly when the request is read and the upstream is taken. -/
theorem connection_eq_some_iff {client : Bytes} {upstream : SocksUpstream} {carried : Carried} :
    connection client upstream = some carried ↔
      ∃ replies request unread sent remote response,
        (readRequest client :
          List Bytes × Except (BalanceError SocksError) (Bytes × Bytes)) =
            (replies, .ok (request, unread)) ∧
        socksConnect upstream request = (sent, .ok (remote, response)) ∧
        carried = ⟨sent.flatten ++ unread, (replies ++ [response]).flatten ++ remote⟩ := by
  unfold connection
  constructor
  · intro isCarried
    split at isCarried
    next => cases isCarried
    next replies request unread isRequest =>
      split at isCarried
      next => cases isCarried
      next sent remote response isConnected =>
        cases isCarried
        exact ⟨replies, request, unread, sent, remote, response, isRequest, isConnected, rfl⟩
  · rintro ⟨replies, request, unread, sent, remote, response, isRequest, isConnected, rfl⟩
    rw [isRequest]
    dsimp only
    rw [isConnected]

/-- A call whose dials are those of `socks_connect` either fails before anything is copied, or
copies the connection of its client and one of its upstreams. -/
theorem connection_of_call (network : Nat → SocksUpstream)
    (copyBidirectional : Bytes → Bytes → Except (BalanceError SocksError) Unit)
    (upstreams : List BalanceUpstream) (cursor : Nat) (client : Bytes)
    (call : BalancedCall SocksError)
    (isCall : handleBalancedClient (fun request index => (socksConnect (network index) request).2)
      copyBidirectional upstreams cursor client = some call) :
    (∃ error, call.result = .error error) ∨
      ∃ index unread remote carried, call.result = copyBidirectional unread remote ∧
        connection client (network index) = some carried ∧
        carried.toClient = call.replies.flatten ++ remote := by
  unfold handleBalancedClient at isCall
  split at isCall
  next replies error isRequest =>
    cases isCall
    exact Or.inl ⟨error, rfl⟩
  next replies request unread isRequest =>
    split at isCall
    next => cases isCall
    next =>
      have selected := selectUpstream_selected
        (fun index => (socksConnect (network index) request).2) (cursor % upstreams.length)
        upstreams
      dsimp only at isCall
      split at isCall
      next selection isSelection =>
        cases isCall
        exact Or.inl ⟨_, rfl⟩
      next selection index remote response isSelection =>
        cases isCall
        rw [isSelection] at selected
        have isConnected := selected.answer index remote response rfl
        refine Or.inr ⟨index, unread, remote, _, rfl, connection_eq_some_iff.mpr
          ⟨replies, request, unread, (socksConnect (network index) request).1, remote, response,
            isRequest, Prod.ext rfl isConnected, rfl⟩, rfl⟩

/-- Through the balancer, whatever bytes are sent at whatever times: the client receives exactly
what the upstream sends, the upstream receives the request and all that the client sends behind
it, and this happens exactly when the request is a CONNECT and the upstream accepts it in time. -/
theorem connection_transparent (client : Bytes) (upstream : SocksUpstream) (carried : Carried) :
    connection client upstream = some carried ↔
      ∃ methods offered request unread response remote,
        IsConnect request ∧ methods.toNat ≤ 32 ∧ offered.length = methods.toNat ∧ 0 ∈ offered ∧
        client = 5 :: methods :: (offered ++ (request ++ unread)) ∧
        upstream.opening ≤ 4000 ∧ upstream.opens = true ∧
        upstream.arrival 5 ≤ upstream.arrival 1 + 8000 ∧ IsSuccess response ∧
        upstream.stream = [5, 0] ++ (response ++ remote) ∧
        carried = ⟨[5, 1, 0] ++ (request ++ unread), upstream.stream⟩ := by
  rw [connection_eq_some_iff]
  constructor
  · rintro ⟨replies, request, unread, sent, remote, response, isRequest, isConnected, rfl⟩
    obtain ⟨rfl, isConnect, methods, offered, few, isLength, offers, isClient⟩ :=
      readRequest_ok_iff.mp isRequest
    obtain ⟨inTime, opens, notLate, rfl, isSuccess, isStream⟩ :=
      socksConnect_ok_iff.mp isConnected
    refine ⟨methods, offered, request, unread, response, remote, isConnect, few, isLength, offers,
      isClient, inTime, opens, Nat.le_of_not_lt notLate, isSuccess, isStream, ?_⟩
    rw [isStream]
    simp [upstreamGreeting, methodReply]
  · rintro ⟨methods, offered, request, unread, response, remote, isConnect, few, isLength, offers,
      isClient, inTime, opens, notLate, isSuccess, isStream, rfl⟩
    refine ⟨[methodReply], request, unread, [upstreamGreeting, request], remote, response,
      readRequest_ok_iff.mpr ⟨rfl, isConnect, methods, offered, few, isLength, offers, isClient⟩,
      socksConnect_ok_iff.mpr ⟨inTime, opens, Nat.not_lt.mpr notLate, rfl, isSuccess, isStream⟩,
      ?_⟩
    rw [isStream]
    simp [upstreamGreeting, methodReply]

end SmartFecTunnel.Balance

import SmartFecTunnel.Library.Overlay
import SmartFecTunnel.Library.PyValue

/-!
Contract: the merge of the managed objects into a sing-box configuration
(`deploy/sing-box-merge.py`).

A deployment spec lists objects for three sections of the configuration, each
with a tag, and route rules, which have none.  Objects of the same section and
tag are replaced, and so are rules that are equal to one of the spec.

Owns: `tagged`, `validate_wireguard_identities`, `upsert` and `merge` with their
errors, in the order in which they are raised.

Does not own: reading and writing the files.
-/

namespace SmartFecTunnel.Deploy

open SmartFecTunnel.Library

inductive MergeError where
  | valueError (message : Text)
  | attributeError
  | typeError
deriving DecidableEq, Repr

def fail {α : Type} (message : Text) : Except MergeError α := .error (.valueError message)

/-- The sections that the spec has objects for, in the order in which they are merged. -/
inductive Section where
  | inbounds
  | outbounds
  | endpoints
deriving DecidableEq, Repr

def Section.key : Section → Text
  | .inbounds => "inbounds".toList
  | .outbounds => "outbounds".toList
  | .endpoints => "endpoints".toList

def Section.all : List Section := [.inbounds, .outbounds, .endpoints]

def tagKey : Text := "tag".toList
def typeKey : Text := "type".toList
def privateKeyKey : Text := "private_key".toList
def routeKey : Text := "route".toList
def rulesKey : Text := "rules".toList
def finalKey : Text := "final".toList
def routeRulesKey : Text := "route_rules".toList
def routePositionKey : Text := "route_position".toList
def routeFinalKey : Text := "route_final".toList

/-- `members.get(key, [])`. -/
def getArray (key : Text) (members : Members) : Value :=
  (members.lookup key).getD (.array [])

/-! ### The spec -/

/-- The tag of an item, if it is a string. -/
def tag? (item : Value) : Option Text := item.stringMember tagKey

/-- The body of the loop of `tagged`. -/
def itemTag (label : Text) (item : Value) : Except MergeError Text :=
  match tag? item with
  | some tag => .ok tag
  | none => fail ("every ".toList ++ label ++ " item must have a string tag".toList)

def tagged (items : Value) (label : Text) : Except MergeError (List Text) :=
  match items with
  | .array items => do
    let tags ← items.mapM (itemTag label)
    if tags.Nodup then return tags else fail ("duplicate tag in ".toList ++ label)
  | _ => fail (label ++ " must be an array".toList)

/-- The characters that Python's `strip` removes. -/
def isSpace (char : Char) : Bool :=
  isWhitespace char ∨ (0x1c ≤ char.toNat ∧ char.toNat ≤ 0x1f)

def strip (text : Text) : Text :=
  ((text.dropWhile isSpace).reverse.dropWhile isSpace).reverse

def isWireguard (endpoint : Value) : Bool :=
  endpoint.stringMember typeKey = some "wireguard".toList

/-- The private key of a wireguard endpoint. -/
def wireguardIdentity (endpoint : Value) : Except MergeError (Option Text) :=
  if isWireguard endpoint = false then return none
  else
    match endpoint.stringMember privateKeyKey with
    | some privateKey =>
      if strip privateKey = [] then missing else return some privateKey
    | none => missing
where
  missing : Except MergeError (Option Text) :=
    fail ("wireguard endpoint ".toList ++ (tag? endpoint).getD [] ++
      " requires a private_key".toList)

def validateWireguardIdentities (endpoints : List Value) : Except MergeError Unit := do
  let identities := (← endpoints.mapM wireguardIdentity).reduceOption
  if identities.Nodup then return ()
  else fail "wireguard endpoints must use independent private keys".toList

/-- A spec that has been checked.  Its route position is looked at last. -/
structure Spec where
  objects : Section → List Value
  tags : Section → List Text
  routes : List Value
  position : Value
  final : Option Value

def isObject : Value → Bool
  | .object _ => true
  | _ => false

/-- The checks of the spec in `merge`. -/
def checkSpec (spec : Members) : Except MergeError Spec := do
  let inboundTags ← tagged (getArray Section.inbounds.key spec) Section.inbounds.key
  let outboundTags ← tagged (getArray Section.outbounds.key spec) Section.outbounds.key
  let endpointTags ← tagged (getArray Section.endpoints.key spec) Section.endpoints.key
  validateWireguardIdentities (getArray Section.endpoints.key spec).items
  if ¬ (inboundTags ++ outboundTags ++ endpointTags).Nodup then
    fail "managed tags must be unique across inbounds, outbounds and endpoints".toList
  else
    match getArray routeRulesKey spec with
    | .array routes =>
      if routes.all isObject then
        return {
          objects := fun name => (getArray name.key spec).items
          tags := fun
            | .inbounds => inboundTags
            | .outbounds => outboundTags
            | .endpoints => endpointTags
          routes
          position := (spec.lookup routePositionKey).getD (.string "first".toList)
          final := spec.lookup routeFinalKey }
      else fail "route_rules must be an array of objects".toList
    | _ => fail "route_rules must be an array of objects".toList

/-! ### The merge -/

/-- `item.get("tag") in managed_tags`: an item needs the method, and a tag needs a hash. -/
def hasManagedTag (managedTags : List Text) (item : Value) : Except MergeError Bool :=
  match item with
  | .object members =>
    match members.lookup tagKey with
    | some (.string tag) => return decide (tag ∈ managedTags)
    | some (.array _) => .error .typeError
    | some (.object _) => .error .typeError
    | _ => return false
  | _ => .error .attributeError

/-- The items whose tag is not managed. -/
def keptItems (managedTags : List Text) : List Value → Except MergeError (List Value)
  | [] => return []
  | item :: items => do
    let managed ← hasManagedTag managedTags item
    let kept ← keptItems managedTags items
    return if managed then kept else item :: kept

def upsert (existing additions : List Value) (managedTags : List Text) :
    Except MergeError (List Value) := do
  return (← keptItems managedTags existing) ++ additions

def mergeSection (spec : Spec) (result : Members) (name : Section) : Except MergeError Members :=
  match getArray name.key result with
  | .array current => do
    let items ← upsert current (spec.objects name) (spec.tags name)
    return Members.set name.key (.array items) result
  | _ => fail ("base ".toList ++ name.key ++ " must be an array".toList)

/-- `rule in routes`. -/
def isManagedRule (routes : List Value) (rule : Value) : Bool :=
  routes.any fun managed => rule.same managed

/-- `route_position`, once it is looked at. -/
def readPosition : Value → Except MergeError Position
  | .string text =>
    if text = "first".toList then return .first
    else if text = "last".toList then return .last
    else fail "route_position must be first or last".toList
  | _ => fail "route_position must be first or last".toList

def mergeRules (spec : Spec) (route : Members) : Except MergeError Members :=
  match getArray rulesKey route with
  | .array oldRules => do
    let kept := oldRules.filter fun rule => !isManagedRule spec.routes rule
    let position ← readPosition spec.position
    return Members.set rulesKey (.array (position.place spec.routes kept)) route
  | _ => fail "base route.rules must be an array".toList

def mergeRoute (spec : Spec) (result : Members) : Except MergeError Members :=
  match (result.lookup routeKey).getD (.object []) with
  | .object route => do
    let route ← mergeRules spec route
    let route := match spec.final with
      | some final => Members.set finalKey final route
      | none => route
    return Members.set routeKey (.object route) result
  | _ => fail "base route must be an object".toList

def merge (base spec : Value) : Except MergeError Value :=
  match base, spec with
  | .object base, .object spec => do
    let spec ← checkSpec spec
    let result ← Section.all.foldlM (mergeSection spec) base
    return .object (← mergeRoute spec result)
  | _, _ => fail "base and deployment spec must be JSON objects".toList

end SmartFecTunnel.Deploy

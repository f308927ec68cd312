import BtcRpcProxy.JsonCore

/-!
RPC requests and their decoders (`client.rs`). A single request is decoded by the
hand-written `visit_map` of `SingleOrBatchRpcRequest`, an element of a batch by the
decoder derived for `RpcRequest`.
-/

namespace BtcRpcProxy

inductive GenericRpcParams
  | array (items : List Json)
  | object (members : List (String × Json))
  deriving DecidableEq, Repr

/-- `jsonrpc` is forwarded as sent; a null `id` is not a missing `id`. -/
structure RpcRequest where
  jsonrpc : Option Json
  id : Option Json
  method : String
  params : GenericRpcParams
  deriving DecidableEq, Repr

namespace RpcRequest

def isV2 (request : RpcRequest) : Bool := decide (request.jsonrpc = some (.string "2.0"))

/-- A 2.0 request without an id, which bitcoind runs but never answers. -/
def isNotification (request : RpcRequest) : Bool := request.id.isNone && request.isV2

end RpcRequest

inductive SingleOrBatchRpcRequest
  | single (request : RpcRequest)
  | batch (requests : List RpcRequest)
  deriving DecidableEq, Repr

/-! Encoding. -/

def GenericRpcParams.encode : GenericRpcParams → Json
  | .array items => .array items
  | .object members => .object members

def RpcRequest.encode (request : RpcRequest) : Json :=
  .object ((request.jsonrpc.map fun version => ("jsonrpc", version)).toList ++
    (request.id.map fun id => ("id", id)).toList ++
    [("method", .string request.method), ("params", request.params.encode)])

def SingleOrBatchRpcRequest.encode : SingleOrBatchRpcRequest → Json
  | .single request => request.encode
  | .batch requests => .array (requests.map RpcRequest.encode)

/-! Decoding; `none` is an error of `serde_json`. -/

def readMethod : JsonText → Option String
  | .string literal => literal.read
  | _ => none

def readParams : JsonText → Option GenericRpcParams
  | .array items => (readItems items).map .array
  | .object members => (readMembers members).map fun entries => .object (mapOfEntries entries)
  | _ => none

/-- The variables of the hand-written `visit_map`. -/
structure SingleFields where
  jsonrpc : Option Json
  id : Option Json
  method : Option String
  params : Option GenericRpcParams

namespace SingleFields

def empty : SingleFields := { jsonrpc := none, id := none, method := none, params := none }

/-- One round of its loop. The key is taken as a `&str`, and a member that was seen
before is overwritten. -/
def visitMember (fields : SingleFields) (member : Literal × JsonText) : Option SingleFields :=
  match member.1.borrow with
  | none => none
  | some key =>
      if key = "jsonrpc" then
        (readOption readValue member.2).map fun jsonrpc => { fields with jsonrpc }
      else if key = "id" then
        (readValue member.2).map fun id => { fields with id := some id }
      else if key = "method" then
        (readOption readMethod member.2).map fun method => { fields with method }
      else if key = "params" then
        (readOption readParams member.2).map fun params => { fields with params }
      else
        (readValue member.2).map fun _ => fields

def visitMembers (fields : SingleFields) : List (Literal × JsonText) → Option SingleFields
  | [] => some fields
  | member :: rest =>
      match fields.visitMember member with
      | some next => next.visitMembers rest
      | none => none

def finish (fields : SingleFields) : Option RpcRequest :=
  match fields.method, fields.params with
  | some method, some params => some { jsonrpc := fields.jsonrpc, id := fields.id, method, params }
  | _, _ => none

end SingleFields

structure DerivedFields where
  jsonrpc : Option (Option Json)
  id : Option (Option Json)
  method : Option String
  params : Option GenericRpcParams

namespace DerivedFields

def empty : DerivedFields := { jsonrpc := none, id := none, method := none, params := none }

/-- One round of its loop: any key string is accepted, a known field is not accepted
twice, and the value of an unknown one is skipped unread. -/
def visitMember (fields : DerivedFields) (member : Literal × JsonText) : Option DerivedFields :=
  match member.1.read with
  | none => none
  | some key =>
      if key = "jsonrpc" then
        if fields.jsonrpc.isSome then none
        else (readOption readValue member.2).map fun jsonrpc => { fields with jsonrpc := some jsonrpc }
      else if key = "id" then
        if fields.id.isSome then none
        else (readValue member.2).map fun id => { fields with id := some (some id) }
      else if key = "method" then
        if fields.method.isSome then none
        else (readMethod member.2).map fun method => { fields with method := some method }
      else if key = "params" then
        if fields.params.isSome then none
        else (readParams member.2).map fun params => { fields with params := some params }
      else some fields

def visitMembers (fields : DerivedFields) : List (Literal × JsonText) → Option DerivedFields
  | [] => some fields
  | member :: rest =>
      match fields.visitMember member with
      | some next => next.visitMembers rest
      | none => none

def finish (fields : DerivedFields) : Option RpcRequest :=
  match fields.method, fields.params with
  | some method, some params =>
      some { jsonrpc := fields.jsonrpc.getD none, id := fields.id.getD none, method, params }
  | _, _ => none

end DerivedFields

/-- `RpcRequest::deserialize`. The derived decoder also takes an array, of the four
fields in their order. -/
def RpcRequest.decode : JsonText → Option RpcRequest
  | .object members => (DerivedFields.empty.visitMembers members).bind DerivedFields.finish
  | .array [jsonrpc, id, method, params] =>
      match readOption readValue jsonrpc, readValue id, readMethod method, readParams params with
      | some jsonrpc, some id, some method, some params =>
          some { jsonrpc, id := some id, method, params }
      | _, _, _, _ => none
  | _ => none

def decodeBatch : List JsonText → Option (List RpcRequest)
  | [] => some []
  | item :: rest =>
      match RpcRequest.decode item, decodeBatch rest with
      | some request, some requests => some (request :: requests)
      | _, _ => none

/-- `SingleOrBatchRpcRequest::deserialize`. -/
def SingleOrBatchRpcRequest.decode : JsonText → Option SingleOrBatchRpcRequest
  | .array items => (decodeBatch items).map .batch
  | .object members =>
      ((SingleFields.empty.visitMembers members).bind SingleFields.finish).map .single
  | _ => none

end BtcRpcProxy

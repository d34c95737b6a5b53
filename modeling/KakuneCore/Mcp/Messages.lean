import KakuneCore.Runtime.Providers

/-!
# The messages of an MCP server

A client of an MCP server writes JSON-RPC requests and reads what the server sends: notifications,
and the response. The parser takes a value apart in the order of the source, so that the first fault
of a message decides its error.
-/

namespace KakuneCore

/-- An error returned by an MCP server through JSON-RPC. -/
structure McpRemoteError where
  code : Int
  message : String
  data : Option Value
  deriving DecidableEq

/-- The errors of an exchange. -/
inductive McpError
  | write (source : String)
  | read (source : String)
  | protocolJson
  | protocol (text : String)
  | messageTooLarge (limit : Nat)
  | timeout
  | notificationLimit (limit : Nat)
  deriving DecidableEq

/-! ### Members -/

namespace Mcp

/-- The members that must be there: an error names what is missing. -/
def required {α : Type} (value : Option α) (text : String) : Except McpError α :=
  match value with
  | some value => .ok value
  | none => .error (.protocol text)

def nonEmptyString (value : Value) (context : String) : Except McpError String :=
  required (value.asStr.filter (· ≠ "")) (context ++ " must be a non-empty string")

/-! ### Incoming messages -/

/-- A server-originated notification observed while awaiting a response. -/
structure Notification where
  method : String
  params : Option Value
  deriving DecidableEq

inductive Response
  | result (value : Value)
  | error (error : McpRemoteError)
  deriving DecidableEq

inductive Incoming
  | notification (notification : Notification)
  | response (response : Response)
  deriving DecidableEq

/-- `Value::as_i64`. -/
def asI64 : Value → Option Int
  | .number n => n.asI64
  | _ => none

def parseRemoteError (value : Value) : Except McpError McpRemoteError := do
  let object ← required value.asObject "MCP error must be an object"
  let code ← required ((object.get? "code").bind asI64) "MCP error code must be an integer"
  let message ← required (object.get? "message") "MCP error is missing message"
  let message ← nonEmptyString message "error message"
  pure { code, message, data := object.get? "data" }

/-- The methods that JSON-RPC keeps for itself. -/
def isReserved (method : String) : Bool := "rpc.".toList.isPrefixOf method.toList

/-- `parse_incoming`, behind the reading of the text. -/
def parseMessage (value : Value) (requestId : Nat) : Except McpError Incoming := do
  let object ← required value.asObject "stdout message must be an object"
  if object.get? "jsonrpc" ≠ some (.string "2.0") then
    throw (.protocol "stdout message must declare jsonrpc 2.0")
  else
    match object.get? "method" with
    | some method =>
      if object.keys.any (· ∉ ["jsonrpc", "method", "params"]) then
        throw (.protocol "MCP notification contains unsupported fields")
      else do
        let method ← nonEmptyString method "notification method"
        if isReserved method then throw (.protocol "notification method is invalid")
        else pure (.notification { method, params := object.get? "params" })
    | none =>
      if object.keys.any (· ∉ ["jsonrpc", "id", "result", "error"]) then
        throw (.protocol "MCP response contains unsupported fields")
      else if object.get? "id" ≠ some (.number (.int requestId)) then
        throw (.protocol ("MCP response ID does not match request " ++ toString requestId))
      else
        match object.get? "result", object.get? "error" with
        | some result, none => pure (.response (.result result))
        | none, some error => do
          let error ← parseRemoteError error
          pure (.response (.error error))
        | _, _ => throw (.protocol "MCP response must contain exactly one of result or error")

def parseIncoming (json : Json.Library) (message : List UInt8) (requestId : Nat) :
    Except McpError Incoming :=
  match json.readValue message with
  | some value => parseMessage value requestId
  | none => .error .protocolJson

end Mcp

end KakuneCore

import KakuneCore.Mcp.Messages
import KakuneCore.Plugins.Framing
import KakuneCore.Process.Stateful

/-!
# The exchanges of an MCP client

`McpClient` talks to one server; here it does so over the pipes of a process. What an exchange does
to its surroundings is an `Op`; the answers are arbitrary. Whatever is waited for may come late, and
the future may be dropped while it waits. The state of the client survives.

The client holds the bytes of `BufReader` that have not been consumed.
-/

namespace KakuneCore.Mcp

/-! ### Surroundings -/

/-- A message of the client. -/
inductive Message
  | request (id : Nat) (method : String) (params : Value)
  | notification (method : String) (params : Value)
  deriving DecidableEq

/-- The answer to what is waited for. -/
inductive Awaited (α : Type)
  | ready (value : α)
  | failed (source : String)
  /-- Its own time limit has passed. -/
  | late
  /-- The future was dropped. -/
  | dropped
  deriving DecidableEq

inductive Op
  /-- A message, a line break and a flush. -/
  | write (message : Message)
  | fill
  deriving DecidableEq

abbrev Reply : Op → Type
  | .write _ => Awaited Unit
  | .fill => Awaited Bytes

/-! ### The client -/

def maxNotifications : Nat := 256

structure Client where
  /-- The bytes that are read and not consumed. -/
  stdout : Bytes := []
  notifications : List Notification := []
  maxMessageBytes : Nat := 1024 * 1024

inductive Fault
  | failed (error : McpError)
  | dropped
  deriving DecidableEq

abbrev ClientM (α : Type) : Type 1 := Stateful Client Op Reply Fault α

/-! ### Steps -/

section Steps

variable {α : Type}

def fail (error : McpError) : ClientM α := throw (.failed error)

def settle : Except McpError α → ClientM α
  | .ok a => pure a
  | .error error => fail error

def look : ClientM Client := Stateful.query .ok

/-- What is made of an answer that was waited for. -/
def awaited (late : McpError) (failed : String → McpError) : Awaited α → ClientM α
  | .ready value => pure value
  | .failed source => fail (failed source)
  | .late => fail late
  | .dropped => throw .dropped

end Steps

/-! ### Messages -/

def writeStdioMessage (message : Message) : ClientM Unit := do
  let answer ← Stateful.perform (Op.write message)
  awaited .timeout .write answer

/-- `BufReader::fill_buf`. -/
def fillBuf : ClientM Bytes := do
  let client ← look
  if client.stdout ≠ [] then pure client.stdout
  else do
    let answer ← Stateful.perform Op.fill
    let buffer ← awaited .timeout .read answer
    Stateful.update fun client => { client with stdout := buffer }
    pure buffer

/-- `BufReader::consume`. -/
def consume (count : Nat) : ClientM Unit :=
  Stateful.update fun client => { client with stdout := client.stdout.drop count }

/-- What becomes of a whole line. -/
def finishLine (message : Bytes) : Except McpError Bytes :=
  let message := if message.getLast? = some returnByte then message.dropLast else message
  if message = [] then .error (.protocol "MCP server sent an empty stdout line") else .ok message

/-- `read_message`, with the part of the message that has been collected. -/
def readMessage (maxMessageBytes : Nat) (message : Bytes) : ClientM Bytes :=
  fillBuf >>= fun buffer =>
    if _hempty : buffer = [] then
      fail (.protocol "MCP server closed stdout before sending a complete message")
    else
      let available := (buffer.findIdx? (· = newlineByte)).getD buffer.length
      if _hlong : maxMessageBytes < message.length + available then
        fail (.messageTooLarge maxMessageBytes)
      else
        match _hline : buffer.findIdx? (· = newlineByte) with
        | some index => do
          consume (index + 1)
          settle (finishLine (message ++ buffer.take available))
        | none => do
          consume available
          readMessage maxMessageBytes (message ++ buffer.take available)
termination_by maxMessageBytes - message.length
decreasing_by
  have hbuffer : 0 < buffer.length := List.length_pos_of_ne_nil _hempty
  have havailable : available = buffer.length := by simp [available, _hline]
  rw [List.length_append, List.length_take]
  omega

/-- One buffer of a message: its line, or a part of it. -/
theorem readMessage_eq (maxMessageBytes : Nat) (message : Bytes) :
    readMessage maxMessageBytes message = fillBuf >>= fun buffer =>
      if buffer = [] then
        fail (.protocol "MCP server closed stdout before sending a complete message")
      else
        match buffer.findIdx? (· = newlineByte) with
        | some index =>
          if maxMessageBytes < message.length + index then fail (.messageTooLarge maxMessageBytes)
          else consume (index + 1) >>= fun _ => settle (finishLine (message ++ buffer.take index))
        | none =>
          if maxMessageBytes < message.length + buffer.length then
            fail (.messageTooLarge maxMessageBytes)
          else consume buffer.length >>= fun _ =>
            readMessage maxMessageBytes (message ++ buffer) := by
  rw [readMessage]
  congr 1
  funext buffer
  by_cases hempty : buffer = []
  · rw [dif_pos hempty, if_pos hempty]
  rw [dif_neg hempty, if_neg hempty]
  dsimp only
  split
  · rename_i hlong
    cases hindex : buffer.findIdx? (· = newlineByte) with
    | some index =>
      rw [hindex, Option.getD_some] at hlong
      exact (if_pos hlong).symm
    | none =>
      rw [hindex, Option.getD_none] at hlong
      exact (if_pos hlong).symm
  · rename_i hshort
    split
    · rename_i index hindex
      simp only [hindex, Option.getD_some] at hshort ⊢
      rw [if_neg hshort]
    · rename_i hindex
      simp only [hindex, Option.getD_none, List.take_length] at hshort ⊢
      rw [if_neg hshort]

/-- `read_stdio_response`, with the number of notifications that may still be kept. -/
def readStdioResponse (json : Json.Library) (requestId : Nat) (room : Nat) : ClientM Response := do
  let client ← look
  let message ← readMessage client.maxMessageBytes []
  match ← settle (parseIncoming json message requestId) with
  | .notification notification =>
    match room with
    | 0 => fail (.notificationLimit maxNotifications)
    | room + 1 => do
      Stateful.update fun client =>
        { client with notifications := client.notifications ++ [notification] }
      readStdioResponse json requestId room
  | .response response => pure response

/-- The exchange of a request over pipes, once its message is checked. -/
def exchange (json : Json.Library) (requestId : Nat) (message : Message) : ClientM Response := do
  let client ← look
  writeStdioMessage message
  readStdioResponse json requestId (maxNotifications - client.notifications.length)

end KakuneCore.Mcp

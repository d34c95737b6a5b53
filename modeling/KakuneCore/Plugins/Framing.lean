import KakuneCore.Encoding.LineLog
import KakuneCore.Lifecycle.Basic

/-!
# Messages of a plugin

`read_message` cuts the standard output of a plugin into lines. The bytes arrive in buffers that are
cut anywhere, so a line is collected over as many of them as it takes.

The main result, `readMessages_eq`: what repeated calls return depends on the bytes alone. They are
the lines of the stream, and the first of them that is too long or empty ends the sequence.
-/

namespace KakuneCore

/-- The errors of `read_message`, of a stream that can be read. -/
inductive PluginHostError
  | protocol (text : String)
  | messageTooLarge (limit : Nat)
  deriving DecidableEq, Repr

/-- A newline. -/
def newlineByte : UInt8 := 10

/-- A carriage return. -/
def returnByte : UInt8 := 13

def closedStream : PluginHostError :=
  .protocol "plugin closed stdout before sending a complete message"

def emptyLine : PluginHostError :=
  .protocol "plugin sent an empty stdout line; stdout is protocol-only"

/-! ### The buffered reader -/

/-- The buffers that `fill_buf` is still to hand out, the current one first. An empty one means the
end of the stream, so none of them is empty. -/
structure PluginStdout where
  buffers : List Bytes
  nonempty : ∀ buffer ∈ buffers, buffer ≠ []

namespace PluginStdout

variable {stdout : PluginStdout} {count : Nat}

/-- The bytes that are still to be read. -/
def stream (stdout : PluginStdout) : Bytes := stdout.buffers.flatten

/-- `BufReader::fill_buf`. -/
def fillBuf (stdout : PluginStdout) : Bytes := stdout.buffers.headD []

/-- `BufReader::consume`. -/
def consume (stdout : PluginStdout) (count : Nat) : PluginStdout :=
  match stdout with
  | ⟨[], h⟩ => ⟨[], h⟩
  | ⟨buffer :: rest, h⟩ =>
    if hlast : buffer.length ≤ count then
      ⟨rest, fun b hb => h b (List.mem_cons_of_mem _ hb)⟩
    else
      ⟨buffer.drop count :: rest, fun b hb => by
        rcases List.mem_cons.mp hb with rfl | hb
        · exact mt List.drop_eq_nil_iff.mp hlast
        · exact h b (List.mem_cons_of_mem _ hb)⟩

theorem fillBuf_prefix (stdout : PluginStdout) : stdout.fillBuf <+: stdout.stream := by
  obtain ⟨_ | ⟨buffer, rest⟩, h⟩ := stdout
  · exact List.nil_prefix
  · exact List.prefix_append _ _

/-- The buffer is empty at the end of the stream only. -/
theorem fillBuf_eq_nil_iff : stdout.fillBuf = [] ↔ stdout.stream = [] := by
  obtain ⟨_ | ⟨buffer, rest⟩, h⟩ := stdout
  · exact Iff.rfl
  · have hbuffer : buffer ≠ [] := h buffer List.mem_cons_self
    simp [fillBuf, stream, hbuffer]

theorem stream_consume (h : count ≤ stdout.fillBuf.length) :
    (stdout.consume count).stream = stdout.stream.drop count := by
  obtain ⟨_ | ⟨buffer, rest⟩, hne⟩ := stdout
  · simp [consume, stream]
  · have hcount : count ≤ buffer.length := h
    rw [consume]
    split_ifs with hlast
    · obtain rfl : count = buffer.length := by omega
      simp [stream]
    · simp [stream, List.drop_append_of_le_length hcount]

end PluginStdout

/-! ### Reading a message -/

/-- What `read_message` makes of a line: a carriage return before the newline is dropped. -/
def finishMessage (message : Bytes) : Except PluginHostError Bytes :=
  let message := if message.getLast? = some returnByte then message.dropLast else message
  if message = [] then .error emptyLine else .ok message

/-- `read_message`, with the part of the message that has been collected. -/
def readMessage (maxMessageBytes : Nat) (message : Bytes) (stdout : PluginStdout) :
    Except PluginHostError Bytes × PluginStdout :=
  if _hempty : stdout.fillBuf = [] then (.error closedStream, stdout)
  else
    let newline := stdout.fillBuf.findIdx? (· = newlineByte)
    let available := newline.getD stdout.fillBuf.length
    if maxMessageBytes < message.length + available then
      (.error (.messageTooLarge maxMessageBytes), stdout)
    else
      let message := message ++ stdout.fillBuf.take available
      match newline with
      | some index => (finishMessage message, stdout.consume (index + 1))
      | none => readMessage maxMessageBytes message (stdout.consume stdout.fillBuf.length)
termination_by stdout.stream.length
decreasing_by
  have hbuffer : 0 < stdout.fillBuf.length := List.length_pos_of_ne_nil _hempty
  have hstream := stdout.fillBuf_prefix.length_le
  rw [PluginStdout.stream_consume le_rfl, List.length_drop]
  omega

section Reading

variable {maxMessageBytes : Nat} {message line rest : Bytes} {stdout : PluginStdout}

theorem findIdx?_newline_eq_none {buffer : Bytes} (h : newlineByte ∉ buffer) :
    buffer.findIdx? (· = newlineByte) = none :=
  List.findIdx?_eq_none_iff.mpr fun _ hbyte => decide_eq_false fun heq => h (heq ▸ hbyte)

/-- The bytes before the first newline, and the buffer in front of the stream: it holds the newline,
or it is part of the line. -/
theorem buffer_cases {buffer behind : Bytes} (hline : newlineByte ∉ line)
    (h : buffer ++ behind = line ++ newlineByte :: rest) :
    (buffer.findIdx? (· = newlineByte) = some line.length ∧ buffer.take line.length = line) ∨
      (buffer.findIdx? (· = newlineByte) = none ∧
        ∃ line', line = buffer ++ line' ∧ behind = line' ++ newlineByte :: rest) := by
  rcases List.append_eq_append_iff.mp h with ⟨part, rfl, hbehind⟩ | ⟨part, rfl, hrest⟩
  · have hbuffer : newlineByte ∉ buffer := fun hbyte => hline (List.mem_append_left _ hbyte)
    exact .inr ⟨findIdx?_newline_eq_none hbuffer, part, rfl, hbehind⟩
  · cases part with
    | nil =>
      rw [List.append_nil]
      exact .inr ⟨findIdx?_newline_eq_none hline, [], by simp, by simpa using hrest.symm⟩
    | cons byte part =>
      obtain ⟨rfl, -⟩ := List.cons.inj hrest
      refine .inl ⟨?_, by simp⟩
      rw [List.findIdx?_append, findIdx?_newline_eq_none hline]
      simp [List.findIdx?_cons]

/-- **A complete line**: it is returned with nothing behind its newline read, or it is too long. -/
theorem readMessage_line (hline : newlineByte ∉ line)
    (hstream : stdout.stream = line ++ newlineByte :: rest) :
    if maxMessageBytes < message.length + line.length then
      (readMessage maxMessageBytes message stdout).1 = .error (.messageTooLarge maxMessageBytes)
    else (readMessage maxMessageBytes message stdout).1 = finishMessage (message ++ line) ∧
      (readMessage maxMessageBytes message stdout).2.stream = rest := by
  induction hlength : stdout.stream.length using Nat.strong_induction_on
    generalizing stdout message line with
  | _ length ih =>
    have hne : stdout.fillBuf ≠ [] := by
      rw [Ne, PluginStdout.fillBuf_eq_nil_iff, hstream]
      simp
    obtain ⟨behind, hbehind⟩ := stdout.fillBuf_prefix
    rw [readMessage, dif_neg hne]
    rcases buffer_cases hline (hbehind.trans hstream) with ⟨hindex, htake⟩ |
      ⟨hindex, line', hcut, hrest⟩
    · simp only [hindex, Option.getD_some, htake]
      split_ifs with hlong
      · rfl
      · refine ⟨rfl, ?_⟩
        have hbuffer : line.length + 1 ≤ stdout.fillBuf.length := by
          have := (List.findIdx?_eq_some_iff_findIdx_eq.mp hindex).1
          omega
        rw [PluginStdout.stream_consume hbuffer, hstream, List.drop_append]
        simp
    · have hpos : 0 < stdout.fillBuf.length := List.length_pos_of_ne_nil hne
      have hnext :
          (stdout.consume stdout.fillBuf.length).stream = line' ++ newlineByte :: rest := by
        rw [PluginStdout.stream_consume le_rfl, ← hbehind, List.drop_left, hrest]
      have hline' : newlineByte ∉ line' := fun h => hline (hcut ▸ List.mem_append_right _ h)
      have hshort : (stdout.consume stdout.fillBuf.length).stream.length < length := by
        rw [← hlength, hnext, ← hrest, ← hbehind, List.length_append]
        omega
      have hsum : line.length = stdout.fillBuf.length + line'.length := by
        rw [hcut, List.length_append]
      simp only [hindex, Option.getD_none, List.take_length]
      by_cases hbuffer : maxMessageBytes < message.length + stdout.fillBuf.length
      · rw [if_pos hbuffer, if_pos (by omega)]
      · rw [if_neg hbuffer]
        have hrec := @ih _ hshort (message ++ stdout.fillBuf) line' _ hline' hnext rfl
        rwa [List.length_append, Nat.add_assoc, ← hsum, List.append_assoc, ← hcut] at hrec

/-- **An unterminated rest**: the stream ends inside it, or it is too long already. -/
theorem readMessage_rest (hrest : newlineByte ∉ stdout.stream)
    (hmessage : message.length ≤ maxMessageBytes) :
    (readMessage maxMessageBytes message stdout).1 =
      .error (if maxMessageBytes < message.length + stdout.stream.length then
        .messageTooLarge maxMessageBytes else closedStream) := by
  induction hlength : stdout.stream.length using Nat.strong_induction_on
    generalizing stdout message with
  | _ length ih =>
    rw [readMessage]
    by_cases hempty : stdout.fillBuf = []
    · have hstream : length = 0 := by
        rw [← hlength, PluginStdout.fillBuf_eq_nil_iff.mp hempty, List.length_nil]
      rw [dif_pos hempty, hstream, if_neg (by omega)]
    · obtain ⟨behind, hbehind⟩ := stdout.fillBuf_prefix
      have hindex : stdout.fillBuf.findIdx? (· = newlineByte) = none :=
        findIdx?_newline_eq_none fun hbyte => hrest (hbehind ▸ List.mem_append_left _ hbyte)
      have hnext : (stdout.consume stdout.fillBuf.length).stream = behind := by
        rw [PluginStdout.stream_consume le_rfl, ← hbehind, List.drop_left]
      have hpos : 0 < stdout.fillBuf.length := List.length_pos_of_ne_nil hempty
      have hsum : length = stdout.fillBuf.length + behind.length := by
        rw [← hlength, ← hbehind, List.length_append]
      have hbehind' : newlineByte ∉ behind :=
        fun h => hrest (hbehind ▸ List.mem_append_right _ h)
      rw [dif_neg hempty]
      simp only [hindex, Option.getD_none, List.take_length]
      by_cases hbuffer : maxMessageBytes < message.length + stdout.fillBuf.length
      · rw [if_pos hbuffer, if_pos (by omega)]
      · rw [if_neg hbuffer]
        have hrec := @ih behind.length (by omega) (message ++ stdout.fillBuf)
          (stdout.consume stdout.fillBuf.length) (by rw [hnext]; exact hbehind')
          (by rw [List.length_append]; omega) (by rw [hnext])
        rw [hrec, List.length_append, hsum, Nat.add_assoc]

/-- A message that is returned was read with its newline. -/
theorem length_readMessage_lt {next : PluginStdout}
    (h : readMessage maxMessageBytes [] stdout = (.ok message, next)) :
    next.stream.length < stdout.stream.length := by
  by_cases hmem : newlineByte ∈ stdout.stream
  · obtain ⟨line, rest, hstream, hline⟩ := List.eq_append_cons_of_mem hmem
    have hread := @readMessage_line maxMessageBytes [] line rest stdout hline hstream
    rw [h] at hread
    split_ifs at hread with hlong
    rw [hread.2, hstream, List.length_append, List.length_cons]
    omega
  · have hread := @readMessage_rest maxMessageBytes [] stdout hmem (Nat.zero_le _)
    rw [h] at hread
    cases hread

end Reading

/-! ### Reading messages -/

/-- The results of repeated calls of `read_message`, up to the first error. -/
def readMessages (maxMessageBytes : Nat) (stdout : PluginStdout) :
    List (Except PluginHostError Bytes) :=
  match _h : readMessage maxMessageBytes [] stdout with
  | (.error error, _) => [.error error]
  | (.ok message, next) => .ok message :: readMessages maxMessageBytes next
termination_by stdout.stream.length
decreasing_by exact length_readMessage_lt _h

/-- What the messages of a stream are, by the parts that its newlines cut it into: the last one is
not terminated. The limit counts a carriage return, which is no part of the message. -/
def messagesOf (maxMessageBytes : Nat) : List Bytes → List (Except PluginHostError Bytes)
  | [] => []
  | [rest] =>
    [.error
      (if maxMessageBytes < rest.length then .messageTooLarge maxMessageBytes else closedStream)]
  | line :: parts =>
    if maxMessageBytes < line.length then [.error (.messageTooLarge maxMessageBytes)]
    else match finishMessage line with
      | .error error => [.error error]
      | .ok message => .ok message :: messagesOf maxMessageBytes parts

/-- **The buffers do not matter**: repeated calls return what the lines of the stream say. -/
theorem readMessages_eq (maxMessageBytes : Nat) (stdout : PluginStdout) :
    readMessages maxMessageBytes stdout =
      messagesOf maxMessageBytes (stdout.stream.splitOn newlineByte) := by
  induction hlength : stdout.stream.length using Nat.strong_induction_on generalizing stdout with
  | _ length ih =>
    rw [readMessages.eq_def]
    by_cases hmem : newlineByte ∈ stdout.stream
    · obtain ⟨line, rest, hstream, hline⟩ := List.eq_append_cons_of_mem hmem
      have hread := @readMessage_line maxMessageBytes [] line rest stdout hline hstream
      obtain ⟨part, parts, hparts⟩ := List.exists_cons_of_ne_nil
        (List.splitOn_ne_nil newlineByte rest)
      have hlines : messagesOf maxMessageBytes (stdout.stream.splitOn newlineByte) =
          if maxMessageBytes < line.length then [.error (.messageTooLarge maxMessageBytes)]
          else match finishMessage line with
            | .error error => [.error error]
            | .ok message => .ok message :: messagesOf maxMessageBytes
                (rest.splitOn newlineByte) := by
        rw [hstream, LineLog.splitOn_append_cons hline, hparts, messagesOf]
        simp
      rw [hlines]
      rw [List.length_nil, Nat.zero_add, List.nil_append] at hread
      split
      · next error next heq =>
        rw [heq] at hread
        split_ifs at hread ⊢ with hlong
        · rw [Except.error.inj hread]
        · rw [← hread.1]
      · next message next heq =>
        rw [heq] at hread
        split_ifs at hread ⊢ with hlong
        have hshort := length_readMessage_lt heq
        rw [← hread.1, ih _ (hlength ▸ hshort) next rfl, hread.2]
    · have hread := @readMessage_rest maxMessageBytes [] stdout hmem (Nat.zero_le _)
      rw [List.length_nil, Nat.zero_add] at hread
      have hparts : stdout.stream.splitOn newlineByte = [stdout.stream] := by
        rw [List.splitOn_eq_splitOnP]
        exact List.splitOnP_eq_singleton fun byte hbyte => by
          simpa using fun heq : byte = newlineByte => hmem (heq ▸ hbyte)
      rw [hparts, messagesOf]
      split
      · next error next heq =>
        rw [heq] at hread
        rw [Except.error.inj hread]
      · next message next heq =>
        rw [heq] at hread
        cases hread

end KakuneCore

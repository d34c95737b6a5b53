import KakuneCore.Mcp.Exchange

/-!
# The stream of a server

A server writes a stream of bytes, and the client is handed pieces of it. `nextResponse` says what a
request reads from the whole stream: the notifications in front of the response, the response, and
the bytes behind it. **The pieces do not matter**: whatever a client reads, or finds wrong, is what
`nextResponse` says of every stream that begins with the bytes it was handed.
-/

namespace KakuneCore.Mcp

/-! ### What a stream says -/

/-- The first line of a stream and the bytes behind it, if the stream decides them. -/
def nextLine (maxMessageBytes : Nat) (stream : Bytes) : Option (Except McpError (Bytes × Bytes)) :=
  match stream.findIdx? (· = newlineByte) with
  | some index =>
    some (if maxMessageBytes < index then .error (.messageTooLarge maxMessageBytes)
      else (finishLine (stream.take index)).map fun line => (line, stream.drop (index + 1)))
  | none =>
    if maxMessageBytes < stream.length then some (.error (.messageTooLarge maxMessageBytes))
    else none

/-- The answer to a request, where `room` more notifications may be kept. -/
def nextResponse (json : Json.Library) (requestId maxMessageBytes : Nat) (room : Nat)
    (stream : Bytes) : Option (Except McpError (List Notification × Response × Bytes)) :=
  (nextLine maxMessageBytes stream).bind fun
    | .error error => some (.error error)
    | .ok (line, rest) =>
      match parseIncoming json line requestId with
      | .error error => some (.error error)
      | .ok (.response response) => some (.ok ([], response, rest))
      | .ok (.notification notification) =>
        match room with
        | 0 => some (.error (.notificationLimit maxNotifications))
        | room + 1 =>
          (nextResponse json requestId maxMessageBytes room rest).map fun answer =>
            answer.map fun (notifications, response, rest) =>
              (notification :: notifications, response, rest)

/-- The bytes that a client was handed. -/
def received : Trace Op Reply → Bytes
  | [] => []
  | ⟨.fill, .ready buffer⟩ :: t => buffer ++ received t
  | _ :: t => received t

/-- Errors that come from the pipes, and not from what the server wrote. -/
def OfPipe : McpError → Prop
  | .timeout | .read _ | .write _ => True
  | .protocol text => text = "MCP server closed stdout before sending a complete message"
  | _ => False

theorem exec_look_bind {α : Type} {f : Client → ClientM α} {c : Client} :
    Stateful.exec (look >>= f) c = (f c).exec c := rfl

theorem received_append (t u : Trace Op Reply) :
    received (t ++ u) = received t ++ received u := by
  induction t with
  | nil => rfl
  | cons e t ih =>
    obtain ⟨o, answer⟩ := e
    cases o with
    | fill => cases answer <;> simp [received, ih]
    | _ => simpa [received] using ih

section Lines

variable {maxMessageBytes : Nat} {line rest stream : Bytes}

theorem nextLine_cons (hline : newlineByte ∉ line) :
    nextLine maxMessageBytes (line ++ newlineByte :: rest) =
      some (if maxMessageBytes < line.length then .error (.messageTooLarge maxMessageBytes)
        else (finishLine line).map fun line => (line, rest)) := by
  have hindex : (line ++ newlineByte :: rest).findIdx? (· = newlineByte) = some line.length := by
    rw [List.findIdx?_append, findIdx?_newline_eq_none hline]
    simp [List.findIdx?_cons]
  have hdrop : (line ++ newlineByte :: rest).drop (line.length + 1) = rest := by
    rw [List.drop_append]
    simp
  simp only [nextLine, hindex, List.take_left, hdrop]

/-- A line that is too long is refused before it ends. -/
theorem nextLine_of_long (hstream : newlineByte ∉ stream) (hlong : maxMessageBytes < stream.length)
    (more : Bytes) :
    nextLine maxMessageBytes (stream ++ more) =
      some (.error (.messageTooLarge maxMessageBytes)) := by
  unfold nextLine
  split
  · rename_i index hindex
    have hlate : stream.length ≤ index := by
      rw [List.findIdx?_append, findIdx?_newline_eq_none hstream, Option.none_or,
        Option.map_eq_some_iff] at hindex
      obtain ⟨behind, -, rfl⟩ := hindex
      exact Nat.le_add_left _ _
    rw [if_pos (hlong.trans_le hlate)]
  · rw [if_pos]
    rw [List.length_append]
    omega

end Lines

/-! ### What a client reads -/

section Reading

variable {c c' : Client} {t : Trace Op Reply}

/-- `fill_buf` hands out all that was received and not consumed. -/
theorem runs_fillBuf {y : Except Fault Bytes}
    (hrun : Proc.Runs (fillBuf.exec c) t (some (y, c'))) :
    (∃ buffer, y = .ok buffer ∧ c.stdout ++ received t = buffer ∧
        c' = { c with stdout := buffer }) ∨
      ∃ fault, y = .error fault ∧ ∀ error, fault = .failed error → OfPipe error := by
  rw [fillBuf, exec_look_bind] at hrun
  split at hrun
  · obtain ⟨rfl, h | h⟩ := Proc.runs_ret_iff.mp hrun
    · cases h
    · cases h
      exact .inl ⟨c.stdout, rfl, List.append_nil _, rfl⟩
  rename_i hempty
  obtain ⟨-, h⟩ | ⟨answer, u, rfl, hrest⟩ := Proc.runs_op_iff.mp hrun
  · cases h
  have hfault : ∀ fault, Proc.Runs (Stateful.exec (throw fault : ClientM Bytes) c) u
      (some (y, c')) → y = .error fault := by
    intro fault hfail
    obtain ⟨-, h | h⟩ := Proc.runs_ret_iff.mp hfail
    · cases h
    · cases h
      rfl
  cases answer with
  | ready buffer =>
    obtain ⟨rfl, h | h⟩ := Proc.runs_ret_iff.mp hrest
    · cases h
    · cases h
      have hnone : c.stdout = [] := not_not.mp hempty
      exact .inl ⟨buffer, rfl, by simp [received, hnone], rfl⟩
  | failed source =>
    refine .inr ⟨_, hfault _ hrest, fun error heq => ?_⟩
    cases heq
    exact trivial
  | late =>
    refine .inr ⟨_, hfault _ hrest, fun error heq => ?_⟩
    cases heq
    exact trivial
  | dropped => exact .inr ⟨_, hfault _ hrest, fun error heq => by cases heq⟩

theorem exists_line {buffer : Bytes} {index : Nat}
    (h : buffer.findIdx? (· = newlineByte) = some index) :
    ∃ line rest, buffer = line ++ newlineByte :: rest ∧ newlineByte ∉ line ∧
      line.length = index := by
  have hmem : newlineByte ∈ buffer := by
    by_contra hnone
    rw [findIdx?_newline_eq_none hnone] at h
    cases h
  obtain ⟨line, rest, rfl, hline⟩ := List.eq_append_cons_of_mem hmem
  refine ⟨line, rest, rfl, hline, ?_⟩
  rw [List.findIdx?_append, findIdx?_newline_eq_none hline] at h
  simpa [List.findIdx?_cons] using h

theorem not_mem_of_findIdx?_eq_none {buffer : Bytes}
    (h : buffer.findIdx? (· = newlineByte) = none) : newlineByte ∉ buffer := by
  intro hmem
  have hnone := List.findIdx?_eq_none_iff.mp h newlineByte hmem
  simp at hnone

/-- **A message is the first line of the stream**, whatever the pieces in which it came. -/
theorem runs_readMessage {maxMessageBytes : Nat} {message : Bytes}
    (hmessage : newlineByte ∉ message) {y : Except Fault Bytes}
    (hrun : Proc.Runs ((readMessage maxMessageBytes message).exec c) t (some (y, c'))) :
    (∀ line, y = .ok line → c' = { c with stdout := c'.stdout } ∧ ∀ more,
        nextLine maxMessageBytes (message ++ (c.stdout ++ (received t ++ more))) =
          some (.ok (line, c'.stdout ++ more))) ∧
      ∀ error, y = .error (.failed error) → OfPipe error ∨ ∀ more,
        nextLine maxMessageBytes (message ++ (c.stdout ++ (received t ++ more))) =
          some (.error error) := by
  -- by the bytes that may still be collected
  induction hroom : maxMessageBytes - message.length using Nat.strong_induction_on
    generalizing message c t with
  | _ room ih =>
    rw [readMessage_eq] at hrun
    obtain ⟨h, -⟩ | ⟨fault, c₁, h, hx⟩ | ⟨buffer, c₁, u, v, rfl, hu, hv⟩ := Stateful.runs_bind hrun
    · cases h
    · cases h
      obtain ⟨_, h, -⟩ | ⟨_, h, hpipe⟩ := runs_fillBuf hx
      · cases h
      · cases h
        refine ⟨fun line h => (by cases h), fun error heq => .inl (hpipe error ?_)⟩
        cases heq
        rfl
    obtain ⟨_, h, hbytes, rfl⟩ | ⟨_, h, -⟩ := runs_fillBuf hu
    swap
    · cases h
    cases h
    have hstream : ∀ more, message ++ (c.stdout ++ (received (u ++ v) ++ more)) =
        message ++ (buffer ++ (received v ++ more)) := by
      intro more
      rw [received_append, ← hbytes]
      simp only [List.append_assoc]
    have hfailed : ∀ error, Proc.Runs (Stateful.exec (fail error : ClientM Bytes)
        { c with stdout := buffer }) v (some (y, c')) → v = [] ∧ y = .error (.failed error) := by
      intro error hfail
      obtain ⟨hnil, h | h⟩ := Proc.runs_ret_iff.mp hfail
      · cases h
      · cases h
        exact ⟨hnil, rfl⟩
    simp only [hstream]
    split at hv
    · obtain ⟨-, rfl⟩ := hfailed _ hv
      refine ⟨fun line h => (by cases h), fun error heq => .inl ?_⟩
      cases heq
      exact rfl
    rename_i hbuffer
    cases hindex : buffer.findIdx? (· = newlineByte) with
    | some index =>
      obtain ⟨line, rest, rfl, hline, rfl⟩ := exists_line hindex
      have hwhole : newlineByte ∉ message ++ line := by
        rw [List.mem_append]
        exact fun h => h.elim hmessage hline
      have hfirst : ∀ more, message ++ ((line ++ newlineByte :: rest) ++ more) =
          (message ++ line) ++ newlineByte :: (rest ++ more) := by
        intro more
        simp only [List.append_assoc, List.cons_append]
      have hdrop : (line ++ newlineByte :: rest).drop (line.length + 1) = rest := by
        rw [List.drop_append]
        simp
      simp only [hindex, List.take_left] at hv
      split at hv
      · rename_i hlong
        obtain ⟨rfl, rfl⟩ := hfailed _ hv
        refine ⟨fun line h => (by cases h), fun error heq => .inr fun more => ?_⟩
        cases heq
        rw [received, List.nil_append, hfirst, nextLine_cons hwhole, List.length_append,
          if_pos hlong]
      rename_i hshort
      -- the line is there, and it may be empty
      have hnext : ∀ more, nextLine maxMessageBytes
          ((message ++ line) ++ newlineByte :: (rest ++ more)) =
            some ((finishLine (message ++ line)).map fun line => (line, rest ++ more)) := by
        intro more
        rw [nextLine_cons hwhole, List.length_append, if_neg hshort]
      cases hfinish : finishLine (message ++ line) with
      | ok whole =>
        rw [hfinish] at hv hnext
        obtain ⟨rfl, h | h⟩ := Proc.runs_ret_iff.mp hv
        · cases h
        cases h
        refine ⟨fun line h => ?_, fun error heq => (by cases heq)⟩
        cases h
        refine ⟨rfl, fun more => ?_⟩
        simp only [hdrop]
        exact (congrArg _ (hfirst more)).trans (hnext more)
      | error error =>
        rw [hfinish] at hv hnext
        obtain ⟨rfl, h | h⟩ := Proc.runs_ret_iff.mp hv
        · cases h
        cases h
        refine ⟨fun line h => (by cases h), fun error heq => .inr fun more => ?_⟩
        cases heq
        exact (congrArg _ (hfirst more)).trans (hnext more)
    | none =>
      have hwhole : newlineByte ∉ message ++ buffer := by
        rw [List.mem_append]
        exact fun h => h.elim hmessage (not_mem_of_findIdx?_eq_none hindex)
      have hlength : 0 < buffer.length := List.length_pos_of_ne_nil hbuffer
      simp only [hindex] at hv
      split at hv
      · rename_i hlong
        obtain ⟨rfl, rfl⟩ := hfailed _ hv
        refine ⟨fun line h => (by cases h), fun error heq => .inr fun more => ?_⟩
        cases heq
        rw [← List.append_assoc]
        exact nextLine_of_long hwhole (by rwa [List.length_append]) _
      · have hless : maxMessageBytes - (message ++ buffer).length < room := by
          rw [List.length_append]
          omega
        have hrec := ih _ hless hwhole hv rfl
        simp only [List.drop_length, List.nil_append, List.append_assoc] at hrec
        exact hrec

/-- What comes behind a line. -/
theorem runs_readMessage_bind {α : Type} {maxMessageBytes : Nat} {f : Bytes → ClientM α}
    {y : Except Fault α}
    (hrun : Proc.Runs (Stateful.exec (readMessage maxMessageBytes [] >>= f) c) t (some (y, c'))) :
    (∃ fault, y = .error fault ∧ ∀ error, fault = .failed error → OfPipe error ∨ ∀ more,
        nextLine maxMessageBytes (c.stdout ++ (received t ++ more)) = some (.error error)) ∨
      ∃ line stdout u v, t = u ++ v ∧
        Proc.Runs ((f line).exec { c with stdout := stdout }) v (some (y, c')) ∧ ∀ more,
          nextLine maxMessageBytes (c.stdout ++ (received u ++ more)) =
            some (.ok (line, stdout ++ more)) := by
  obtain ⟨h, -⟩ | ⟨fault, c₁, h, hx⟩ | ⟨line, c₁, u, v, rfl, hu, hv⟩ := Stateful.runs_bind hrun
  · cases h
  · cases h
    obtain ⟨-, hfailed⟩ := runs_readMessage List.not_mem_nil hx
    refine .inl ⟨fault, rfl, fun error heq => ?_⟩
    exact hfailed error (congrArg Except.error heq)
  · obtain ⟨hread, -⟩ := runs_readMessage List.not_mem_nil hu
    obtain ⟨hc, hline⟩ := hread line rfl
    rw [hc] at hv
    exact .inr ⟨line, c₁.stdout, u, v, rfl, hv, hline⟩

theorem nextResponse_of_line (json : Json.Library) (requestId room : Nat) {maxMessageBytes : Nat}
    {stream line rest : Bytes} (h : nextLine maxMessageBytes stream = some (.ok (line, rest))) :
    nextResponse json requestId maxMessageBytes room stream =
      match parseIncoming json line requestId with
      | .error error => some (.error error)
      | .ok (.response response) => some (.ok ([], response, rest))
      | .ok (.notification notification) =>
        match room with
        | 0 => some (.error (.notificationLimit maxNotifications))
        | room + 1 =>
          (nextResponse json requestId maxMessageBytes room rest).map fun answer =>
            answer.map fun (notifications, response, rest) =>
              (notification :: notifications, response, rest) := by
  rw [nextResponse.eq_def, h]
  rfl

theorem nextResponse_of_error {json : Json.Library} {requestId maxMessageBytes room : Nat}
    {stream : Bytes} {error : McpError}
    (h : nextLine maxMessageBytes stream = some (.error error)) :
    nextResponse json requestId maxMessageBytes room stream = some (.error error) := by
  rw [nextResponse.eq_def, h]
  rfl

/-- A failure that the client reports. -/
theorem runs_fail {α : Type} {error : McpError} {y : Except Fault α}
    (hrun : Proc.Runs (Stateful.exec (fail error : ClientM α) c) t (some (y, c'))) :
    t = [] ∧ y = .error (.failed error) := by
  obtain ⟨hnil, h | h⟩ := Proc.runs_ret_iff.mp hrun
  · cases h
  · cases h
    exact ⟨hnil, rfl⟩

/-- **A response is what the stream says**, with the notifications in front of it. -/
theorem runs_readStdioResponse {json : Json.Library} {requestId room : Nat}
    {y : Except Fault Response}
    (hrun : Proc.Runs ((readStdioResponse json requestId room).exec c) t (some (y, c'))) :
    (∀ response, y = .ok response → ∃ kept, c'.notifications = c.notifications ++ kept ∧ ∀ more,
        nextResponse json requestId c.maxMessageBytes room
          (c.stdout ++ (received t ++ more)) = some (.ok (kept, response, c'.stdout ++ more))) ∧
      ∀ error, y = .error (.failed error) → OfPipe error ∨ ∀ more,
        nextResponse json requestId c.maxMessageBytes room
          (c.stdout ++ (received t ++ more)) = some (.error error) := by
  induction room using Nat.strong_induction_on generalizing c t with
  | _ room ih =>
    rw [readStdioResponse.eq_def, exec_look_bind] at hrun
    obtain ⟨fault, rfl, hfailed⟩ | ⟨line, stdout, u, v, rfl, hv, hline⟩ :=
      runs_readMessage_bind hrun
    · refine ⟨fun response h => (by cases h), fun error heq => ?_⟩
      cases heq
      exact (hfailed error rfl).imp_right fun hline more => nextResponse_of_error (hline more)
    have hnext := fun more =>
      nextResponse_of_line json requestId room (hline (received v ++ more))
    have hstream : ∀ more, c.stdout ++ (received (u ++ v) ++ more) =
        c.stdout ++ (received u ++ (received v ++ more)) := by
      intro more
      rw [received_append, List.append_assoc]
    simp only [hstream, hnext]
    cases hparse : parseIncoming json line requestId with
    | error error =>
      rw [hparse] at hv
      obtain ⟨rfl, rfl⟩ := runs_fail hv
      refine ⟨fun response h => (by cases h), fun error heq => .inr fun more => ?_⟩
      cases heq
      rfl
    | ok incoming =>
      rw [hparse, settle, Stateful.exec_pure_bind] at hv
      cases incoming with
      | response response =>
        obtain ⟨rfl, h | h⟩ := Proc.runs_ret_iff.mp hv
        · cases h
        cases h
        refine ⟨fun response h => ?_, fun error heq => (by cases heq)⟩
        cases h
        exact ⟨[], (List.append_nil _).symm, fun more => rfl⟩
      | notification notification =>
        cases room with
        | zero =>
          obtain ⟨rfl, rfl⟩ := runs_fail hv
          refine ⟨fun response h => (by cases h), fun error heq => .inr fun more => ?_⟩
          cases heq
          rfl
        | succ room =>
          dsimp only at hv
          rw [Stateful.exec_update_bind] at hv
          obtain ⟨hok, herror⟩ := ih room (Nat.lt_succ_self room) hv
          refine ⟨fun response h => ?_, fun error heq => ?_⟩
          · obtain ⟨kept, hkept, hanswer⟩ := hok response h
            refine ⟨notification :: kept, by simp [hkept], fun more => ?_⟩
            have hanswer := hanswer more
            dsimp only at hanswer ⊢
            rw [hanswer]
            rfl
          · refine (herror error heq).imp_right fun hanswer more => ?_
            have hanswer := hanswer more
            dsimp only at hanswer ⊢
            rw [hanswer]
            rfl

/-- A line that is there already is read without an operation. -/
theorem exec_readMessage_buffered {maxMessageBytes : Nat} {line rest message : Bytes}
    (hline : newlineByte ∉ line) (hstdout : c.stdout = line ++ newlineByte :: rest)
    (hlength : line.length ≤ maxMessageBytes) (hfinish : finishLine line = .ok message) :
    (readMessage maxMessageBytes []).exec c = .ret (.ok message, { c with stdout := rest }) := by
  have hne : c.stdout ≠ [] := by simp [hstdout]
  have hfill : fillBuf.exec c = .ret (.ok c.stdout, c) := by
    rw [fillBuf, exec_look_bind, if_pos hne]
    rfl
  have hindex : c.stdout.findIdx? (· = newlineByte) = some line.length := by
    rw [hstdout, List.findIdx?_append, findIdx?_newline_eq_none hline]
    simp [List.findIdx?_cons]
  have htake : c.stdout.take line.length = line := by rw [hstdout, List.take_left]
  have hdrop : c.stdout.drop (line.length + 1) = rest := by
    rw [hstdout, List.drop_append]
    simp
  have hshort : ¬ maxMessageBytes < ([] : Bytes).length + line.length := by
    rw [List.length_nil, Nat.zero_add]
    exact not_lt.mpr hlength
  rw [readMessage_eq, Stateful.exec_bind_of_ret hfill, if_neg hne]
  simp only [hindex, htake, List.nil_append, if_neg hshort, hfinish]
  exact congrArg (fun rest => Proc.ret (Except.ok message, { c with stdout := rest })) hdrop

end Reading

/-- **The pieces of the stream do not matter**: what an exchange returns, and what it
reports about the answer, is what the stream says, however it goes on; the bytes behind the response
are left to the next request. -/
theorem exchange_reads_stream (json : Json.Library) (requestId : Nat) (message : Message)
    (c c' : Client) (t : Trace Op Reply) (y : Except Fault Response)
    (hrun : Proc.Runs ((exchange json requestId message).exec c) t (some (y, c'))) :
    (∀ response, y = .ok response → ∃ kept, c'.notifications = c.notifications ++ kept ∧ ∀ more,
        nextResponse json requestId c.maxMessageBytes
          (maxNotifications - c.notifications.length) (c.stdout ++ (received t ++ more)) =
            some (.ok (kept, response, c'.stdout ++ more))) ∧
      ∀ error, y = .error (.failed error) → OfPipe error ∨ ∀ more,
        nextResponse json requestId c.maxMessageBytes
          (maxNotifications - c.notifications.length) (c.stdout ++ (received t ++ more)) =
            some (.error error) := by
  rw [exchange, exec_look_bind] at hrun
  obtain ⟨-, h⟩ | ⟨answer, u, rfl, hrest⟩ := Proc.runs_op_iff.mp hrun
  · cases h
  have hfailed : ∀ error, OfPipe error →
      (∀ response, (.error (.failed error) : Except Fault Response) = .ok response → False) ∧
        ∀ error', (.error (.failed error) : Except Fault Response) = .error (.failed error') →
          OfPipe error' := by
    refine fun error h => ⟨fun response heq => (by cases heq), fun error' heq => ?_⟩
    cases heq
    exact h
  cases answer with
  | ready value =>
    have hread : Proc.Runs ((readStdioResponse json requestId
        (maxNotifications - c.notifications.length)).exec c) u (some (y, c')) := hrest
    have hreceived : received (⟨.write message, .ready value⟩ :: u) = received u := rfl
    rw [hreceived]
    exact runs_readStdioResponse hread
  | failed source =>
    obtain ⟨-, rfl⟩ := runs_fail hrest
    obtain ⟨hok, herror⟩ := hfailed (.write source) trivial
    exact ⟨fun response h => (hok response h).elim, fun error h => .inl (herror error h)⟩
  | late =>
    obtain ⟨-, rfl⟩ := runs_fail hrest
    obtain ⟨hok, herror⟩ := hfailed .timeout trivial
    exact ⟨fun response h => (hok response h).elim, fun error h => .inl (herror error h)⟩
  | dropped =>
    obtain ⟨-, h | h⟩ := Proc.runs_ret_iff.mp hrest
    · cases h
    · cases h
      exact ⟨fun response h => (by cases h), fun error h => (by cases h)⟩

/-- The answer to a request. -/
def sampleResult : Value := .object [("content", .array [])]

/-- A response that the client holds already. -/
def sampleLine : Bytes :=
  (Json.reference 8).toVec
    (.object [("id", .number (.int 7)), ("jsonrpc", .string "2.0"), ("result", sampleResult)])

def sampleReader : Client := { stdout := sampleLine ++ [newlineByte] }

theorem exchange_reads_stream_sampleReader :
    ∃ c', Proc.Runs ((exchange (Json.reference 8) 7 (.request 7 "tools/call" (.object []))).exec
        sampleReader) [⟨.write (.request 7 "tools/call" (.object [])), .ready ()⟩]
        (some (.ok (.result sampleResult), c')) ∧
      nextResponse (Json.reference 8) 7 (1024 * 1024) 256 (sampleLine ++ [newlineByte]) =
        some (.ok ([], .result sampleResult, [])) := by
  have hread : (readMessage (1024 * 1024) []).exec sampleReader =
      .ret (.ok sampleLine, { sampleReader with stdout := [] }) :=
    exec_readMessage_buffered (by decide +kernel) rfl (by decide +kernel) (by decide +kernel)
  have hparse : parseIncoming (Json.reference 8) sampleLine 7 =
      .ok (.response (.result sampleResult)) := by decide +kernel
  have hrun : Proc.Runs ((exchange (Json.reference 8) 7 (.request 7 "tools/call" (.object []))).exec
      sampleReader) [⟨.write (.request 7 "tools/call" (.object [])), .ready ()⟩]
      (some (.ok (.result sampleResult), { sampleReader with stdout := [] })) := by
    have hexec : (readStdioResponse (Json.reference 8) 7 256).exec sampleReader =
        .ret (.ok (.result sampleResult), { sampleReader with stdout := [] }) := by
      rw [readStdioResponse.eq_def, exec_look_bind]
      refine (Stateful.exec_bind_of_ret hread).trans ?_
      rw [hparse]
      rfl
    refine .op _ ?_
    change Proc.Runs ((readStdioResponse (Json.reference 8) 7 256).exec sampleReader) _ _
    rw [hexec]
    exact .ret _
  obtain ⟨kept, hkept, hanswer⟩ := (exchange_reads_stream (Json.reference 8) 7 _ sampleReader _ _ _
    hrun).1 _ rfl
  obtain rfl : kept = [] := by simpa using hkept.symm
  have hstream := hanswer []
  simp only [received, List.append_nil] at hstream
  exact ⟨_, hrun, hstream⟩

end KakuneCore.Mcp

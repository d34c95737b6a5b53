import KakuneCore.Lifecycle.Rendering

/-!
# Reading a Windows command line

`parse_windows_command_line` reads the command line of a service back into its arguments. A run of
backslashes stands for itself, unless a quotation mark follows it: then two of them stand for one,
and the mark is text exactly where one is left over.

The main result, `parseWindowsCommandLine_intercalate`: the line that `quote_windows_argument` and
single spaces make of any arguments is read as these arguments.
-/

namespace KakuneCore

/-! ### The parser -/

/-- What a round of the outer loop reads: the argument, whether a quotation is still open, and the
characters left. -/
structure ArgumentRead where
  argument : List Char
  quoted : Bool
  rest : List Char
  deriving DecidableEq, Repr

/-- The loop that reads one argument. `slashes` counts the run of backslashes before the next
character. -/
def readArgument : Nat → List Char → Bool → List Char → ArgumentRead
  | slashes, argument, quoted, [] =>
    { argument := argument ++ List.replicate slashes '\\', quoted, rest := [] }
  | slashes, argument, quoted, character :: rest =>
    if character = '\\' then readArgument (slashes + 1) argument quoted rest
    else if character = '"' then
      -- without a run this is the plain quotation mark
      let argument := argument ++ List.replicate (slashes / 2) '\\'
      if slashes % 2 = 0 then readArgument 0 argument (!quoted) rest
      else readArgument 0 (argument ++ ['"']) quoted rest
    else
      let argument := argument ++ List.replicate slashes '\\'
      if isWhitespace character && !quoted then { argument, quoted, rest }
      else readArgument 0 (argument ++ [character]) quoted rest

theorem length_rest_readArgument (slashes : Nat) (argument : List Char) (quoted : Bool)
    (text : List Char) :
    (readArgument slashes argument quoted text).rest.length ≤ text.length - 1 := by
  induction text generalizing slashes argument quoted with
  | nil => simp [readArgument]
  | cons c text ih =>
    have hle : ∀ slashes argument quoted,
        (readArgument slashes argument quoted text).rest.length ≤ text.length := by
      intro slashes argument quoted
      have := ih slashes argument quoted
      omega
    rw [readArgument]
    simp only [List.length_cons, Nat.add_sub_cancel]
    split_ifs
    · exact hle _ _ _
    · exact hle _ _ _
    · exact hle _ _ _
    · exact Nat.le_refl _
    · exact hle _ _ _

/-- `parse_windows_command_line`, with the arguments read so far. -/
def parseArguments (result : List (List Char)) (text : List Char) :
    Except LifecycleError (List (List Char)) :=
  let text' := text.dropWhile isWhitespace
  if _h : text' = [] then .ok result
  else
    let read := readArgument 0 [] false text'
    if read.quoted then .error (.unsafeOwnership "SCM binary path contains an unterminated quote")
    else parseArguments (result ++ [read.argument]) read.rest
termination_by text.length
decreasing_by
  have hread := length_rest_readArgument 0 [] false (text.dropWhile isWhitespace)
  have hdrop := (List.dropWhile_sublist (p := isWhitespace) (l := text)).length_le
  have hpos : 0 < (text.dropWhile isWhitespace).length := List.length_pos_of_ne_nil _h
  omega

/-- `parse_windows_command_line`. -/
def parseWindowsCommandLine (input : List Char) : Except LifecycleError (List (List Char)) :=
  parseArguments [] input

/-! ### Reading a quoted argument -/

section Reading

variable {argument text rest : List Char} {slashes : Nat} {quoted : Bool}

theorem readArgument_slash : readArgument slashes argument quoted ('\\' :: rest) =
    readArgument (slashes + 1) argument quoted rest := by
  rw [readArgument, if_pos rfl]

theorem readArgument_replicate (n : Nat) : readArgument slashes argument quoted
    (List.replicate n '\\' ++ rest) = readArgument (slashes + n) argument quoted rest := by
  induction n generalizing slashes with
  | zero => rfl
  | succ n ih =>
    rw [List.replicate_succ, List.cons_append, readArgument_slash, ih]
    congr 1
    omega

/-- An even run before a quotation mark: the mark opens or closes. -/
theorem readArgument_quote_even : readArgument (slashes * 2) argument quoted ('"' :: rest) =
    readArgument 0 (argument ++ List.replicate slashes '\\') (!quoted) rest := by
  rw [readArgument, if_neg (by decide), if_pos rfl]
  simp

/-- An odd run: the mark is text. -/
theorem readArgument_quote_odd : readArgument (slashes * 2 + 1) argument quoted ('"' :: rest) =
    readArgument 0 (argument ++ List.replicate slashes '\\' ++ ['"']) quoted rest := by
  have hhalf : (slashes * 2 + 1) / 2 = slashes := by omega
  have hodd : (slashes * 2 + 1) % 2 = 1 := by omega
  rw [readArgument, if_neg (by decide), if_pos rfl, hhalf, hodd]
  rfl

/-- Another character behind a run, inside a quotation or where it is no whitespace. -/
theorem readArgument_plain {c : Char} (hslash : c ≠ '\\') (hquote : c ≠ '"')
    (hspace : isWhitespace c = true → quoted = true) :
    readArgument slashes argument quoted (c :: rest) =
      readArgument 0 (argument ++ List.replicate slashes '\\' ++ [c]) quoted rest := by
  have hkept : (isWhitespace c && !quoted) = false := by
    cases h : isWhitespace c with
    | false => rfl
    | true => rw [hspace h]; rfl
  rw [readArgument, if_neg hslash, if_neg hquote]
  simp only [hkept, Bool.false_eq_true, if_false]

/-- **The quoting loop and the parser in step**: the backslashes that the loop holds back are read
with the character it writes next. -/
theorem readArgument_quoteFrom (slashes : Nat) (text argument rest : List Char) :
    readArgument 0 argument true (quoteWindowsArgument.quoteFrom slashes text ++ rest) =
      readArgument 0 (argument ++ List.replicate slashes '\\' ++ text) false rest := by
  induction text generalizing slashes argument with
  | nil =>
    rw [quoteWindowsArgument.quoteFrom, List.append_assoc, readArgument_replicate, Nat.zero_add,
      List.singleton_append, readArgument_quote_even, List.append_nil]
    rfl
  | cons c text ih =>
    rw [quoteWindowsArgument.quoteFrom]
    split_ifs with hslash hquote
    · subst hslash
      rw [ih, List.replicate_succ', List.append_assoc, List.append_assoc, List.append_assoc]
      rfl
    · subst hquote
      rw [List.append_assoc, readArgument_replicate, Nat.zero_add, List.cons_append,
        readArgument_quote_odd, ih]
      simp
    · rw [List.append_assoc, readArgument_replicate, Nat.zero_add, List.cons_append,
        readArgument_plain hslash hquote fun _ => rfl, ih]
      simp

/-- An argument ends with the line or before a space. -/
theorem readArgument_end (hrest : ∀ c ∈ rest.head?, c = ' ') :
    readArgument slashes argument false rest =
      { argument := argument ++ List.replicate slashes '\\', quoted := false,
        rest := rest.tail } := by
  cases rest with
  | nil => rfl
  | cons c rest =>
    obtain rfl : c = ' ' := hrest c rfl
    rw [readArgument, if_neg (by decide), if_neg (by decide)]
    rfl

/-- An argument that is written as it is. -/
theorem readArgument_bare (hspace : text.any isWhitespace = false) (hquote : '"' ∉ text)
    (hrest : ∀ c ∈ rest.head?, c = ' ') : readArgument slashes argument false (text ++ rest) =
      { argument := argument ++ List.replicate slashes '\\' ++ text, quoted := false,
        rest := rest.tail } := by
  induction text generalizing slashes argument with
  | nil => rw [List.nil_append, readArgument_end hrest, List.append_nil]
  | cons c text ih =>
    rw [List.any_cons, Bool.or_eq_false_iff] at hspace
    rw [List.mem_cons, not_or] at hquote
    rw [List.cons_append]
    by_cases hslash : c = '\\'
    · subst hslash
      rw [readArgument_slash, ih hspace.2 hquote.2, List.replicate_succ']
      simp
    · rw [readArgument_plain hslash (Ne.symm hquote.1) (by simp [hspace.1]), ih hspace.2 hquote.2]
      simp

/-- **What is read of a quoted argument** is the argument. -/
theorem readArgument_quoteWindowsArgument (hrest : ∀ c ∈ rest.head?, c = ' ') :
    readArgument 0 [] false (quoteWindowsArgument text ++ rest) =
      { argument := text, quoted := false, rest := rest.tail } := by
  rw [quoteWindowsArgument]
  split_ifs with hbare
  · rw [readArgument_bare hbare.2.1 hbare.2.2 hrest]
    rfl
  · have hopen : readArgument 0 [] false
        ('"' :: (quoteWindowsArgument.quoteFrom 0 text ++ rest)) =
          readArgument 0 [] true (quoteWindowsArgument.quoteFrom 0 text ++ rest) := rfl
    rw [List.cons_append, hopen, readArgument_quoteFrom, readArgument_end hrest]
    simp

/-- A quoted argument begins with a character that is no whitespace. -/
theorem exists_quoteWindowsArgument_eq (text : List Char) :
    ∃ c rest, quoteWindowsArgument text = c :: rest ∧ isWhitespace c = false := by
  rw [quoteWindowsArgument]
  split_ifs with hbare
  · obtain ⟨c, rest, rfl⟩ := List.exists_cons_of_ne_nil hbare.1
    rw [List.any_cons, Bool.or_eq_false_iff] at hbare
    exact ⟨c, rest, rfl, hbare.2.1.1⟩
  · exact ⟨'"', _, rfl, by decide⟩

end Reading

/-! ### Reading the line -/

section Line

variable {result : List (List Char)}

/-- One round of the outer loop. -/
theorem parseArguments_quoted {text rest : List Char} (hrest : ∀ c ∈ rest.head?, c = ' ') :
    parseArguments result (quoteWindowsArgument text ++ rest) =
      parseArguments (result ++ [text]) rest.tail := by
  obtain ⟨c, behind, heq, hc⟩ := exists_quoteWindowsArgument_eq text
  have hdrop : (quoteWindowsArgument text ++ rest).dropWhile isWhitespace =
      quoteWindowsArgument text ++ rest := by
    rw [heq, List.cons_append, List.dropWhile_cons_of_neg (by simp [hc])]
  have hne : quoteWindowsArgument text ++ rest ≠ [] := by simp [heq]
  rw [parseArguments]
  simp only [hdrop, dif_neg hne, readArgument_quoteWindowsArgument hrest, Bool.false_eq_true,
    if_false]

theorem parseArguments_intercalate (arguments : List (List Char)) :
    parseArguments result ([' '].intercalate (arguments.map quoteWindowsArgument)) =
      .ok (result ++ arguments) := by
  induction arguments generalizing result with
  | nil => simp [parseArguments]
  | cons argument arguments ih =>
    cases arguments with
    | nil =>
      have hlast := @parseArguments_quoted result argument [] (by simp)
      rw [List.append_nil] at hlast
      rw [List.map_cons, List.map_nil, List.intercalate_singleton, hlast]
      simp [parseArguments]
    | cons next arguments =>
      rw [List.map_cons, List.map_cons, List.intercalate_cons_cons, ← List.map_cons,
        List.append_assoc, parseArguments_quoted (by simp), List.singleton_append, List.tail_cons,
        ih, List.append_assoc]
      rfl

/-- The line that is rendered for a definition is read as its executable and its arguments. -/
theorem parseWindowsCommandLine_render (definition : ServiceDefinition) :
    parseWindowsCommandLine (renderWindowsCommandLine definition) = .ok definition.command :=
  parseArguments_intercalate definition.command

/-- **Arguments survive the command line.** -/
theorem parseWindowsCommandLine_intercalate (arguments : List (List Char)) :
    parseWindowsCommandLine ([' '].intercalate (arguments.map quoteWindowsArgument)) =
      .ok arguments :=
  parseArguments_intercalate arguments

end Line

end KakuneCore

import KakuneCore.Lifecycle.Rendering

/-!
# Reading a property list

A property list is read back into the definition it was rendered from, by searching its text. The
values are escaped, so no tag is found in them; but a check for a **shell** searches the whole text,
and the data directory is read from the arguments.
-/

namespace KakuneCore

open TextSearch

/-! ### The reader -/

/-- The entities, in the order they are replaced. -/
def xmlEntities : List (String × Char) :=
  [("&quot;", '"'), ("&apos;", '\''), ("&gt;", '>'), ("&lt;", '<'), ("&amp;", '&')]

/-- `xml_unescape`. -/
def xmlUnescape (input : List Char) : Except LifecycleError (List Char) :=
  let output :=
    xmlEntities.foldl (fun text entity => replaceAll entity.1.toList [entity.2] text) input
  let rest := xmlEntities.foldl (fun text entity => replaceAll entity.1.toList [] text) input
  if '&' ∈ rest then
    .error (.unsafeOwnership "launchd plist contains an unsupported XML entity")
  else .ok output

/-- `split_once`, with the error where the pattern does not occur. -/
def cutOr (pattern : List Char) (message : String) (text : List Char) :
    Except LifecycleError (List Char × List Char) :=
  match cutAt pattern text with
  | some cut => .ok cut
  | none => .error (.conflictingServiceDefinition message)

/-- `xml_value_after_key`. -/
def xmlValueAfterKey (contents : List Char) (key : String) : Except LifecycleError (List Char) := do
  let (_, behind) ← cutOr (keyTag key) s!"launchd plist has no {key} field" contents
  let (value, _) ← cutOr "</string>".toList s!"launchd {key} field is unterminated" behind
  xmlUnescape value

/-- An element of the array of arguments, from behind its tag on. -/
def xmlArgument (element : List Char) : Except LifecycleError (List Char) := do
  let (value, _) ← cutOr "</string>".toList "launchd argument is malformed" element
  xmlUnescape value

/-- The argument behind the first `--data-dir`. -/
def dataDirArgument : List String → Option String
  | option :: value :: rest =>
    if option = "--data-dir" then some value else dataDirArgument (value :: rest)
  | _ => none

/-- `parse_plist_definition`. -/
def parsePlistDefinition (library : DefinitionLibrary) (serviceId : String)
    (contents : List Char) : Except LifecycleError ServiceDefinition := do
  if !occurs "<key>RunAtLoad</key><true/>".toList contents ||
      !occurs "<key>KeepAlive</key><true/>".toList contents ||
      !occurs "<key>ExitTimeOut</key><integer>0</integer>".toList contents ||
      occurs "/bin/sh".toList contents then
    throw (.conflictingServiceDefinition
      "launchd plist does not match Kakune's protected system definition")
  else
    let label ← xmlValueAfterKey contents "Label"
    let account ← xmlValueAfterKey contents "UserName"
    if label ≠ serviceId.toList then
      throw (.conflictingServiceDefinition
        "launchd plist label does not match its native identifier")
    else
      let (_, behind) ← cutOr arrayTag "launchd plist has no ProgramArguments array" contents
      let (elements, _) ←
        cutOr "</array>".toList "launchd ProgramArguments array is unterminated" behind
      let values ← (piecesOf "<string>".toList elements).tail.mapM xmlArgument
      match values.map String.ofList with
      | [] => throw (.conflictingServiceDefinition "launchd ProgramArguments is empty")
      | executable :: arguments =>
        match dataDirArgument arguments with
        | none => throw (.conflictingServiceDefinition
            "launchd definition does not identify the data directory")
        | some dataDir =>
          let definition ← ServiceDefinition.new library .macosLaunchd serviceId executable
            arguments (.ofList account) dataDir
          if (← renderServiceDefinition library definition) ≠ contents then
            throw (.conflictingServiceDefinition
              "launchd plist contains fields outside Kakune's verified definition")
          else pure definition

/-! ### Escapes -/

/-- The text that `xml_escape` writes for a character. -/
def xmlEscapeChar (c : Char) : List Char :=
  if c = '&' then "&amp;".toList
  else if c = '<' then "&lt;".toList
  else if c = '>' then "&gt;".toList
  else if c = '"' then "&quot;".toList
  else if c = '\'' then "&apos;".toList
  else [c]

/-- Escaping works character by character. -/
theorem xmlEscape_eq (value : List Char) : xmlEscape value = value.flatMap xmlEscapeChar := by
  unfold xmlEscape
  rw [replaceAll_letter, replaceAll_letter, replaceAll_letter, replaceAll_letter,
    replaceAll_letter, List.flatMap_assoc, List.flatMap_assoc, List.flatMap_assoc,
    List.flatMap_assoc]
  refine List.flatMap_congr fun c _ => ?_
  unfold xmlEscapeChar
  split
  · decide
  split
  · next hc => subst hc; decide
  split
  · next hc => subst hc; decide
  split
  · next hc => subst hc; decide
  split
  · next hc => subst hc; decide
  · next hlt hgt hquot hapos =>
    simp only [if_neg hlt, if_neg hgt, if_neg hquot, if_neg hapos, List.flatMap_cons,
      List.flatMap_nil, List.append_nil]

theorem mem_xmlEscape {value : List Char} {c : Char} (h : c ∈ xmlEscape value) :
    c ≠ '<' ∧ c ≠ '>' := by
  rw [xmlEscape_eq] at h
  obtain ⟨d, -, hd⟩ := List.mem_flatMap.mp h
  have hall : ∀ text : List Char, (text.all fun d => d ≠ '<' ∧ d ≠ '>') = true → c ∈ text →
      c ≠ '<' ∧ c ≠ '>' := fun text htext hmem => by
    simpa using List.all_eq_true.mp htext c hmem
  unfold xmlEscapeChar at hd
  split at hd
  · exact hall _ (by decide) hd
  split at hd
  · exact hall _ (by decide) hd
  split at hd
  · exact hall _ (by decide) hd
  split at hd
  · exact hall _ (by decide) hd
  split at hd
  · exact hall _ (by decide) hd
  · obtain rfl := List.mem_singleton.mp hd
    constructor <;> assumption

/-- The characters that are escaped. -/
def xmlSpecials : List Char := ['&', '<', '>', '"', '\'']

theorem xmlEscapeChar_of_not_mem {c : Char} (h : c ∉ xmlSpecials) : xmlEscapeChar c = [c] := by
  simp only [xmlSpecials, List.mem_cons, List.not_mem_nil, or_false, not_or] at h
  obtain ⟨hamp, hlt, hgt, hquot, hapos⟩ := h
  rw [xmlEscapeChar, if_neg hamp, if_neg hlt, if_neg hgt, if_neg hquot, if_neg hapos]

/-- No entity can be taken for a part of another. -/
theorem unmatched_entities : ∀ d ∈ xmlSpecials, ∀ c ∈ xmlSpecials, c ≠ d →
    xmlEscapeChar c ≠ xmlEscapeChar d ∧ Unmatched (xmlEscapeChar d) (xmlEscapeChar c) := by
  have hall : (xmlSpecials.all fun d => xmlSpecials.all fun c => decide (c ≠ d →
      xmlEscapeChar c ≠ xmlEscapeChar d ∧ Unmatched (xmlEscapeChar d) (xmlEscapeChar c))) =
        true := by
    decide
  intro d hd c hc
  exact of_decide_eq_true (List.all_eq_true.mp (List.all_eq_true.mp hall d hd) c hc)

theorem xmlEscapeChar_head : ∀ d ∈ xmlSpecials, ∃ rest, xmlEscapeChar d = '&' :: rest := by
  unfold xmlSpecials
  simp only [List.forall_mem_cons]
  exact ⟨⟨_, rfl⟩, ⟨_, rfl⟩, ⟨_, rfl⟩, ⟨_, rfl⟩, ⟨_, rfl⟩, by simp⟩

/-- A character while the entities are replaced one after the other: those that are `done` have
been. -/
def partlyRead (image : Char → List Char) (done : List Char) (c : Char) : List Char :=
  if c ∈ done then image c else xmlEscapeChar c

/-- **One entity is replaced** wherever it was written, and nowhere else. -/
theorem replaceAll_entity {image : Char → List Char} {done : List Char} {d : Char}
    (hd : d ∈ xmlSpecials) (hnew : d ∉ done) (himage : ∀ c ∈ done, '&' ∉ image c)
    (value : List Char) :
    replaceAll (xmlEscapeChar d) (image d) (value.flatMap (partlyRead image done)) =
      value.flatMap (partlyRead image (d :: done)) := by
  obtain ⟨rest, hhead⟩ := xmlEscapeChar_head d hd
  have hne : xmlEscapeChar d ≠ [] := by rw [hhead]; exact List.cons_ne_nil _ _
  have hpassed :
      ∀ text, '&' ∉ text → Unmatched (xmlEscapeChar d) text ∧ text ≠ xmlEscapeChar d := by
    intro text htext
    rw [hhead]
    refine ⟨unmatched_of_not_mem htext, ?_⟩
    rintro rfl
    exact htext List.mem_cons_self
  have htoken : ∀ c, c ≠ d → Unmatched (xmlEscapeChar d) (partlyRead image done c) ∧
      partlyRead image done c ≠ xmlEscapeChar d := by
    intro c hc
    unfold partlyRead
    split
    · next hdone => exact hpassed _ (himage c hdone)
    · by_cases hspecial : c ∈ xmlSpecials
      · exact (unmatched_entities d hd c hspecial hc).symm
      · have hamp : '&' ≠ c := by
          rintro rfl
          exact hspecial (by decide)
        rw [xmlEscapeChar_of_not_mem hspecial]
        exact hpassed _ (by simpa using hamp)
  have hself : partlyRead image done d = xmlEscapeChar d := if_neg hnew
  rw [List.flatMap_def, replaceAll_flatten hne, List.flatMap_def, List.map_map]
  · congr 1
    refine List.map_congr_left fun c _ => ?_
    rw [Function.comp_apply]
    by_cases hc : c = d
    · rw [hc, hself, if_pos rfl, partlyRead, if_pos List.mem_cons_self]
    · rw [if_neg (htoken c hc).2]
      simp [partlyRead, hc]
  · intro token htokens
    obtain ⟨c, -, rfl⟩ := List.mem_map.mp htokens
    by_cases hc : c = d
    · exact .inl (hc ▸ hself)
    · exact .inr (htoken c hc).1

/-- Replacing all the entities gives the image of every escaped character. -/
theorem foldl_entities {image : Char → List Char} (himage : ∀ c, c ≠ '&' → '&' ∉ image c)
    (value : List Char) :
    xmlEntities.foldl (fun text entity => replaceAll entity.1.toList (image entity.2) text)
        (xmlEscape value) =
      value.flatMap fun c => if c ∈ xmlSpecials then image c else [c] := by
  have hdone : ∀ done : List Char, '&' ∉ done → ∀ c ∈ done, '&' ∉ image c := by
    intro done hamp c hc
    refine himage c ?_
    rintro rfl
    exact hamp hc
  have hstart : xmlEscape value = value.flatMap (partlyRead image []) := by
    rw [xmlEscape_eq]
    refine List.flatMap_congr fun c _ => ?_
    rw [partlyRead, if_neg List.not_mem_nil]
  rw [hstart]
  change replaceAll (xmlEscapeChar '&') (image '&') (replaceAll (xmlEscapeChar '<') (image '<')
    (replaceAll (xmlEscapeChar '>') (image '>') (replaceAll (xmlEscapeChar '\'') (image '\'')
    (replaceAll (xmlEscapeChar '"') (image '"') _)))) = _
  rw [replaceAll_entity (by decide) (by decide) (hdone _ (by decide)),
    replaceAll_entity (by decide) (by decide) (hdone _ (by decide)),
    replaceAll_entity (by decide) (by decide) (hdone _ (by decide)),
    replaceAll_entity (by decide) (by decide) (hdone _ (by decide)),
    replaceAll_entity (by decide) (by decide) (hdone _ (by decide))]
  refine List.flatMap_congr fun c _ => ?_
  have hmem : c ∈ ['&', '<', '>', '\'', '"'] ↔ c ∈ xmlSpecials := by
    unfold xmlSpecials
    simp only [List.mem_cons, List.not_mem_nil, or_false]
    grind
  unfold partlyRead
  by_cases hc : c ∈ xmlSpecials
  · rw [if_pos (hmem.mpr hc), if_pos hc]
  · rw [if_neg fun h => hc (hmem.mp h), if_neg hc, xmlEscapeChar_of_not_mem hc]

/-- **An escaped text is read back.** -/
theorem xmlUnescape_escape (value : List Char) : xmlUnescape (xmlEscape value) = .ok value := by
  have hread := @foldl_entities (fun c => [c]) (fun c hc => by simpa using Ne.symm hc) value
  have hrest := @foldl_entities (fun _ => []) (fun _ _ => List.not_mem_nil) value
  have hclean : '&' ∉ value.flatMap fun c => if c ∈ xmlSpecials then [] else [c] := by
    intro hmem
    obtain ⟨c, -, hc⟩ := List.mem_flatMap.mp hmem
    split at hc
    · cases hc
    · next hspecial =>
      obtain rfl := List.mem_singleton.mp hc
      exact hspecial (by decide)
  have hsame : (value.flatMap fun c => if c ∈ xmlSpecials then [c] else [c]) = value := by
    simp [List.flatMap_singleton']
  unfold xmlUnescape
  dsimp only
  rw [hread, hrest, hsame, if_neg hclean]

/-! ### The layout -/

/-- The elements of the array of arguments. -/
def arrayElements (arguments : List (List Char)) : List Char :=
  arguments.flatMap (fun argument =>
    "    <string>".toList ++ xmlEscape argument ++ "</string>\n".toList) ++ "  ".toList

/-- A property list as it is searched: tags and texts, one behind the other. -/
theorem renderLaunchdPlist_eq (definition : ServiceDefinition) :
    renderLaunchdPlist definition =
      plistHead ++ (keyTag "Label" ++ (xmlEscape definition.serviceId.toList ++
        ("</string>".toList ++ ("\n  ".toList ++ (keyTag "UserName" ++
          (xmlEscape definition.account.toList ++ ("</string>".toList ++ ("\n  ".toList ++
            (arrayTag ++ (("\n".toList ++ arrayElements definition.command) ++
              ("</array>".toList ++ plistTail))))))))))) := by
  simp only [renderLaunchdPlist, plistText, arrayElements, List.append_assoc]

/-- A pattern that begins with a tag is not found in an escaped text. -/
theorem unmatched_xmlEscape {pattern : List Char} (hpattern : pattern.head? = some '<')
    (value : List Char) : Unmatched pattern (xmlEscape value) := by
  cases pattern with
  | nil => cases hpattern
  | cons c pattern =>
    obtain rfl : c = '<' := Option.some.inj hpattern
    exact unmatched_of_not_mem fun hmem => (mem_xmlEscape hmem).1 rfl

/-- An escaped text ends at the next closing tag. -/
theorem cutAt_value (value text : List Char) :
    cutAt "</string>".toList (xmlEscape value ++ ("</string>".toList ++ text)) =
      some (xmlEscape value, text) :=
  cutAt_append_pattern (unmatched_xmlEscape (by decide) value)

/-- The text of a member is read behind its key, where nothing before it looks like the key. -/
theorem xmlValueAfterKey_eq {key : String} {before value behind : List Char}
    (hbefore : Unmatched (keyTag key) before) :
    xmlValueAfterKey (before ++ (keyTag key ++ (xmlEscape value ++ ("</string>".toList ++ behind))))
      key = .ok value := by
  unfold xmlValueAfterKey cutOr
  rw [cutAt_append_pattern hbefore]
  change ((match cutAt "</string>".toList (xmlEscape value ++ ("</string>".toList ++ behind)) with
    | some cut => Except.ok cut
    | none => _) >>= _) = _
  rw [cutAt_value]
  exact xmlUnescape_escape value

/-! ### The arguments -/

/-- An element is read, whatever stands behind its closing tag. -/
theorem xmlArgument_eq (value behind : List Char) :
    xmlArgument (xmlEscape value ++ ("</string>".toList ++ behind)) = .ok value := by
  unfold xmlArgument cutOr
  rw [cutAt_value]
  exact xmlUnescape_escape value

/-- `before` is the end of the element before the first one. -/
theorem piecesOf_elements (arguments : List (List Char)) {before : List Char}
    (hbefore : Unmatched "<string>".toList before) :
    ∃ first rest, piecesOf "<string>".toList (before ++ arrayElements arguments) =
      (before ++ first) :: rest ∧ rest.mapM xmlArgument = .ok arguments := by
  have hne : "<string>".toList ≠ [] := by decide
  induction arguments generalizing before with
  | nil =>
    have hspaces : Unmatched "<string>".toList (arrayElements []) := by decide
    exact ⟨arrayElements [], [], piecesOf_of_unmatched hne (hbefore.append hspaces), rfl⟩
  | cons argument arguments ih =>
    have hlayout : before ++ arrayElements (argument :: arguments) =
        (before ++ "    ".toList) ++ ("<string>".toList ++
          ((xmlEscape argument ++ "</string>\n".toList) ++ arrayElements arguments)) := by
      have hopen : "    <string>".toList = "    ".toList ++ "<string>".toList := by decide
      simp only [arrayElements, List.flatMap_cons, hopen, List.append_assoc]
    have hspaces : Unmatched "<string>".toList "    ".toList := by decide
    have hclose : Unmatched "<string>".toList "</string>\n".toList := by decide
    obtain ⟨first, rest, hpieces, hvalues⟩ :=
      ih ((unmatched_xmlEscape (by decide) argument).append hclose)
    refine ⟨"    ".toList, (xmlEscape argument ++ "</string>\n".toList ++ first) :: rest, ?_, ?_⟩
    · rw [hlayout, piecesOf_append_pattern hne (hbefore.append hspaces), hpieces]
    · have hend : "</string>\n".toList = "</string>".toList ++ "\n".toList := by decide
      have hfirst := xmlArgument_eq argument ("\n".toList ++ first)
      rw [← List.append_assoc, ← List.append_assoc, List.append_assoc (xmlEscape argument), ← hend]
        at hfirst
      rw [List.mapM_cons, hfirst, hvalues]
      rfl

/-! ### The search for a shell -/

/-- What the whole text is searched for. -/
def shell : List Char := "/bin/sh".toList

theorem shell_ne_nil : shell ≠ [] := by decide

theorem not_mem_shell {c : Char} (h : c ∈ xmlSpecials) : c ∉ shell := by
  have hall : (xmlSpecials.all fun c => c ∉ shell) = true := by decide
  exact of_decide_eq_true (List.all_eq_true.mp hall c h)

/-- An entity parts the occurrences of a shell as its character does. -/
theorem occurs_shell_entity {c : Char} (hc : c ∈ xmlSpecials) (piece text : List Char) :
    occurs shell (piece ++ (xmlEscapeChar c ++ text)) =
      (occurs shell piece || occurs shell text) := by
  have hentity : ∃ name, xmlEscapeChar c = '&' :: (name ++ [';']) ∧ occurs shell name = false := by
    revert c
    unfold xmlSpecials
    simp only [List.forall_mem_cons]
    exact ⟨⟨"amp".toList, by decide⟩, ⟨"lt".toList, by decide⟩, ⟨"gt".toList, by decide⟩,
      ⟨"quot".toList, by decide⟩, ⟨"apos".toList, by decide⟩, by simp⟩
  obtain ⟨name, hname, hnone⟩ := hentity
  rw [hname, List.cons_append, List.append_assoc, List.singleton_append,
    occurs_append_cons shell_ne_nil (by decide), occurs_append_cons shell_ne_nil (by decide), hnone,
    Bool.false_or]

/-- **A shell is found in an escaped text exactly where it is found in the text.** -/
theorem occurs_shell_xmlEscape (value : List Char) :
    occurs shell (xmlEscape value) = occurs shell value := by
  have hgeneral : ∀ piece, occurs shell (piece ++ xmlEscape value) =
      occurs shell (piece ++ value) := by
    induction value with
    | nil =>
      intro piece
      rw [xmlEscape_eq, List.flatMap_nil]
    | cons c value ih =>
      intro piece
      have hcons : xmlEscape (c :: value) = xmlEscapeChar c ++ xmlEscape value := by
        rw [xmlEscape_eq, List.flatMap_cons, ← xmlEscape_eq]
      rw [hcons]
      by_cases hc : c ∈ xmlSpecials
      · have hshell : c ∉ shell := not_mem_shell hc
        have hrest := ih []
        rw [List.nil_append, List.nil_append] at hrest
        rw [occurs_shell_entity hc, occurs_append_cons shell_ne_nil hshell, hrest]
      · rw [xmlEscapeChar_of_not_mem hc, ← List.append_assoc, ih]
        simp
  simpa using hgeneral []

/-- A value and its closing tag. -/
theorem occurs_shell_value (value text : List Char) :
    occurs shell (xmlEscape value ++ ("</string>".toList ++ text)) =
      (occurs shell value || occurs shell text) := by
  have hclose : "</string>".toList = '<' :: "/string>".toList := by decide
  have hrest : Unmatched shell "/string>".toList := by decide
  rw [hclose, List.cons_append, occurs_append_cons shell_ne_nil (by decide), occurs_append hrest,
    occurs_shell_xmlEscape]

theorem occurs_shell_elements (arguments : List (List Char)) (text : List Char) :
    occurs shell (arrayElements arguments ++ text) =
      (arguments.any (occurs shell) || occurs shell text) := by
  have hspaces : Unmatched shell "  ".toList := by decide
  have hopen : Unmatched shell "    <string>".toList := by decide
  have hbreak : Unmatched shell "\n".toList := by decide
  have hend : "</string>\n".toList = "</string>".toList ++ "\n".toList := by decide
  induction arguments with
  | nil => simpa [arrayElements] using occurs_append hspaces
  | cons argument arguments ih =>
    have hlayout : arrayElements (argument :: arguments) ++ text = "    <string>".toList ++
        (xmlEscape argument ++ ("</string>".toList ++ ("\n".toList ++
          (arrayElements arguments ++ text)))) := by
      simp only [arrayElements, List.flatMap_cons, hend, List.append_assoc]
    rw [hlayout, occurs_append hopen, occurs_shell_value, occurs_append hbreak, ih, List.any_cons,
      Bool.or_assoc]

/-- What the searches find in the fixed texts. -/
theorem fixed_texts :
    (Unmatched shell plistHead ∧ Unmatched shell (keyTag "Label") ∧
        Unmatched shell (keyTag "UserName") ∧ Unmatched shell arrayTag ∧
        occurs shell ("</array>".toList ++ plistTail) = false) ∧
      Unmatched (keyTag "Label") plistHead ∧
      (Unmatched (keyTag "UserName") (plistHead ++ keyTag "Label") ∧
        Unmatched (keyTag "UserName") "</string>".toList ∧
        Unmatched (keyTag "UserName") "\n  ".toList) ∧
      (Unmatched arrayTag (plistHead ++ keyTag "Label") ∧ Unmatched arrayTag "</string>".toList ∧
        Unmatched arrayTag "\n  ".toList ∧ Unmatched arrayTag (keyTag "UserName")) ∧
      occurs "<key>RunAtLoad</key><true/>".toList plistTail = true ∧
      occurs "<key>KeepAlive</key><true/>".toList plistTail = true ∧
      occurs "<key>ExitTimeOut</key><integer>0</integer>".toList plistTail = true := by
  unfold plistHead plistTail keyTag arrayTag shell
  repeat rw [String.toList_append]
  -- letters of a literal are compared faster than its bytes
  repeat rw [String.toList_ofList]
  decide +kernel

/-- **Where a property list names a shell**: in the values of the definition. -/
theorem occurs_shell_plist (definition : ServiceDefinition) :
    occurs shell (renderLaunchdPlist definition) =
      (occurs shell definition.serviceId.toList || (occurs shell definition.account.toList ||
        definition.command.any (occurs shell))) := by
  obtain ⟨hhead, hlabel, huser, harray, htail⟩ := fixed_texts.1
  have hbreak : Unmatched shell "\n  ".toList := by decide
  have hline : Unmatched shell "\n".toList := by decide
  rw [renderLaunchdPlist_eq, occurs_append hhead, occurs_append hlabel, occurs_shell_value,
    occurs_append hbreak, occurs_append huser, occurs_shell_value, occurs_append hbreak,
    occurs_append harray, List.append_assoc, occurs_append hline, occurs_shell_elements, htail,
    Bool.or_false]

/-- What every property list has is found in it. -/
theorem occurs_plistTail {pattern : List Char} (h : occurs pattern plistTail = true)
    (definition : ServiceDefinition) :
    occurs pattern (renderLaunchdPlist definition) = true := by
  rw [occurs_iff] at h ⊢
  refine h.trans (List.IsSuffix.isInfix ?_)
  rw [renderLaunchdPlist]
  exact List.suffix_append _ _

/-! ### The round trip -/

section RoundTrip

variable {library : DefinitionLibrary} {definition parsed : ServiceDefinition}

theorem label_of_plist (definition : ServiceDefinition) :
    xmlValueAfterKey (renderLaunchdPlist definition) "Label" = .ok definition.serviceId.toList := by
  rw [renderLaunchdPlist_eq]
  exact xmlValueAfterKey_eq fixed_texts.2.1

/-- What stands before the account. -/
def beforeAccount (definition : ServiceDefinition) : List Char :=
  plistHead ++ keyTag "Label" ++ xmlEscape definition.serviceId.toList ++ "</string>".toList ++
    "\n  ".toList

theorem account_of_plist (definition : ServiceDefinition) :
    xmlValueAfterKey (renderLaunchdPlist definition) "UserName" =
      .ok definition.account.toList := by
  have hbefore : Unmatched (keyTag "UserName") (beforeAccount definition) := by
    obtain ⟨hhead, hclose, hbreak⟩ := fixed_texts.2.2.1
    have hvalue : Unmatched (keyTag "UserName") (xmlEscape definition.serviceId.toList) :=
      unmatched_xmlEscape (by decide) _
    exact ((hhead.append hvalue).append hclose).append hbreak
  have hlayout := renderLaunchdPlist_eq definition
  have hsplit : renderLaunchdPlist definition = beforeAccount definition ++ (keyTag "UserName" ++
      (xmlEscape definition.account.toList ++ ("</string>".toList ++ ("\n  ".toList ++
        (arrayTag ++ (("\n".toList ++ arrayElements definition.command) ++
          ("</array>".toList ++ plistTail))))))) := by
    rw [hlayout]
    simp only [beforeAccount, List.append_assoc]
  rw [hsplit]
  exact xmlValueAfterKey_eq hbefore

theorem array_of_plist (definition : ServiceDefinition) :
    ∃ before, cutAt arrayTag (renderLaunchdPlist definition) =
      some (before, ("\n".toList ++ arrayElements definition.command) ++
        ("</array>".toList ++ plistTail)) := by
  have hbefore : Unmatched arrayTag (beforeAccount definition ++ keyTag "UserName" ++
      xmlEscape definition.account.toList ++ "</string>".toList ++ "\n  ".toList) := by
    obtain ⟨hhead, hclose, hbreak, huser⟩ := fixed_texts.2.2.2.1
    have hfirst : Unmatched arrayTag (xmlEscape definition.serviceId.toList) :=
      unmatched_xmlEscape (by decide) _
    have hsecond : Unmatched arrayTag (xmlEscape definition.account.toList) :=
      unmatched_xmlEscape (by decide) _
    exact (((((((hhead.append hfirst).append hclose).append hbreak).append huser).append
      hsecond).append hclose).append hbreak)
  refine ⟨beforeAccount definition ++ keyTag "UserName" ++ xmlEscape definition.account.toList ++
    "</string>".toList ++ "\n  ".toList, ?_⟩
  rw [← cutAt_append_pattern hbefore, renderLaunchdPlist_eq]
  simp only [beforeAccount, List.append_assoc]

theorem elements_of_plist (definition : ServiceDefinition) :
    cutAt "</array>".toList (("\n".toList ++ arrayElements definition.command) ++
        ("</array>".toList ++ plistTail)) =
      some ("\n".toList ++ arrayElements definition.command, plistTail) := by
  refine cutAt_append_pattern ?_
  have hbreak : Unmatched "</array>".toList "\n".toList := by decide
  have hspaces : Unmatched "</array>".toList "  ".toList := by decide
  have hopen : Unmatched "</array>".toList "    <string>".toList := by decide
  have hclose : Unmatched "</array>".toList "</string>\n".toList := by decide
  refine hbreak.append (Unmatched.append ?_ hspaces)
  rw [List.flatMap_def]
  refine unmatched_flatten fun element helement => ?_
  obtain ⟨argument, -, rfl⟩ := List.mem_map.mp helement
  exact (hopen.append (unmatched_xmlEscape (by decide) argument)).append hclose

/-- The values of a rendered property list. -/
theorem values_of_plist (definition : ServiceDefinition) :
    (piecesOf "<string>".toList ("\n".toList ++ arrayElements definition.command)).tail.mapM
      xmlArgument = .ok definition.command := by
  have hbreak : Unmatched "<string>".toList "\n".toList := by decide
  obtain ⟨first, rest, hpieces, hvalues⟩ := piecesOf_elements definition.command hbreak
  rw [hpieces, List.tail_cons, hvalues]

/-- **A rendered property list is refused** where one of its values names a shell. Else it is read
as the definition with its data directory spelled as in the arguments. -/
theorem parse_rendered_plist (serviceId : String) {path : String}
    (hserviceId : definition.serviceId = serviceId)
    (hpath : definition.arguments = ["service", "run", "--data-dir", path]) :
    parsePlistDefinition library serviceId (renderLaunchdPlist definition) =
      if occurs shell (renderLaunchdPlist definition) then
        .error (.conflictingServiceDefinition
          "launchd plist does not match Kakune's protected system definition")
      else (do
        let made ← ServiceDefinition.new library .macosLaunchd serviceId definition.executable
          definition.arguments definition.account path
        if (← renderServiceDefinition library made) ≠ renderLaunchdPlist definition then
          .error (.conflictingServiceDefinition
            "launchd plist contains fields outside Kakune's verified definition")
        else .ok made) := by
  obtain ⟨hruns, hkeeps, hexits⟩ := fixed_texts.2.2.2.2
  have hrun : occurs "<key>RunAtLoad</key><true/>".toList (renderLaunchdPlist definition) =
      true := occurs_plistTail hruns definition
  have hkeep : occurs "<key>KeepAlive</key><true/>".toList (renderLaunchdPlist definition) =
      true := occurs_plistTail hkeeps definition
  have hexit :
      occurs "<key>ExitTimeOut</key><integer>0</integer>".toList (renderLaunchdPlist definition) =
      true := occurs_plistTail hexits definition
  obtain ⟨before, harray⟩ := array_of_plist definition
  have hcommand : definition.command.map String.ofList =
      definition.executable :: definition.arguments := by
    simp [ServiceDefinition.command, Function.comp_def]
  have hcondition : (!true || !true || !true ||
      occurs "/bin/sh".toList (renderLaunchdPlist definition)) =
        occurs shell (renderLaunchdPlist definition) :=
    Bool.false_or (occurs shell (renderLaunchdPlist definition))
  have hdata : dataDirArgument definition.arguments = some path := by
    rw [hpath]
    simp [dataDirArgument]
  have hbind : ∀ {α β : Type} (a : α) (f : α → Except LifecycleError β), (.ok a >>= f) = f a :=
    fun _ _ => rfl
  unfold parsePlistDefinition
  rw [hrun, hkeep, hexit, hcondition]
  cases hshell : occurs shell (renderLaunchdPlist definition) with
  | true =>
    rw [if_pos rfl, if_pos rfl]
    rfl
  | false =>
    rw [if_neg Bool.false_ne_true, if_neg Bool.false_ne_true, label_of_plist, account_of_plist,
      hbind, hbind, if_neg (not_not.mpr (congrArg String.toList hserviceId))]
    unfold cutOr
    rw [harray]
    dsimp only
    rw [hbind]
    dsimp only
    rw [elements_of_plist]
    dsimp only
    rw [hbind]
    dsimp only
    rw [values_of_plist, hbind, hcommand]
    dsimp only
    rw [hdata]
    dsimp only
    rw [String.ofList_toList]
    rfl

/-- Neither the account nor the command has the path of a shell in it. -/
def ServiceDefinition.NamesNoShell (definition : ServiceDefinition) : Prop :=
  ∀ value ∈ definition.account.toList :: definition.command, occurs shell value = false

/-- The data directory is spelled as in the arguments, as far as the digest of the fields tells. -/
def ServiceDefinition.SpelledAlike (library : DefinitionLibrary) (definition : ServiceDefinition) :
    Prop :=
  ∀ path, dataDirArgument definition.arguments = some path →
    ServiceDefinition.digestOf library { definition with dataDir := path } =
      definition.digestOf library

/-- The property list of a definition is read back as an equivalent definition. -/
def PlistRoundTrips (library : DefinitionLibrary) (definition : ServiceDefinition) : Prop :=
  ∃ rendered parsed, renderServiceDefinition library definition = .ok rendered ∧
    parsePlistDefinition library definition.serviceId rendered = .ok parsed ∧
    definition.equivalentTo parsed = true

/-- An identifier has no separator, so it names no shell. -/
theorem occurs_shell_serviceId (h : definition.ValidFields) :
    occurs shell definition.serviceId.toList = false := by
  have hseparator : '/' ∉ definition.serviceId.toList := by
    intro hmem
    have hvalid := h.serviceId
    unfold validateServiceId at hvalid
    split at hvalid
    · cases hvalid
    · next hnot =>
      simp only [not_or, Bool.not_eq_true, List.any_eq_false] at hnot
      exact absurd (hnot.2.2.2.2 '/' hmem) (by decide)
  have hpassed : Unmatched shell definition.serviceId.toList := unmatched_of_not_mem hseparator
  rw [occurs, cutAt_of_unmatched hpassed shell_ne_nil]
  rfl

theorem namesNoShell_iff (h : definition.ValidFields) :
    definition.NamesNoShell ↔ occurs shell (renderLaunchdPlist definition) = false := by
  rw [occurs_shell_plist, occurs_shell_serviceId h, Bool.false_or, Bool.or_eq_false_iff,
    List.any_eq_false, ServiceDefinition.NamesNoShell, List.forall_mem_cons]
  simp

/-- What a valid definition comes back as: itself, its data directory spelled as in its arguments,
with the fingerprint of that. -/
theorem parse_of_namesNoShell (hmanager : definition.manager = .macosLaunchd)
    (h : definition.ValidFields) (hshell : definition.NamesNoShell) {path : String}
    (hpath : definition.arguments = ["service", "run", "--data-dir", path])
    (hcomponents : pathComponents path = pathComponents definition.dataDir) :
    parsePlistDefinition library definition.serviceId (renderLaunchdPlist definition) =
      .ok { definition with
        dataDir := path
        definitionFingerprint := some (ServiceDefinition.digestOf library
          { definition with dataDir := path }) } := by
  have hfields : ({ definition with dataDir := path } : ServiceDefinition).ValidFields := by
    refine ⟨h.executable, (isAbsolutePath_congr hcomponents).trans h.dataDir, ?_, h.serviceId,
      h.account, ?_⟩
    · rw [hcomponents]
      exact h.normal
    · obtain ⟨path', harguments, hcontrol, -⟩ := h.arguments
      rw [hpath] at harguments
      cases harguments
      exact ⟨path, hpath, hcontrol, rfl⟩
  have hnew : ServiceDefinition.new library .macosLaunchd definition.serviceId
      definition.executable definition.arguments definition.account path =
        .ok { definition with
          dataDir := path
          definitionFingerprint := some (ServiceDefinition.digestOf library
            { definition with dataDir := path }) } := by
    refine ServiceDefinition.new_eq_ok.mpr ⟨{ definition with
      dataDir := path, definitionFingerprint := none }, ?_, hfields.withFingerprint none, rfl⟩
    rw [← hmanager]
  have hrender : renderServiceDefinition library { definition with
      dataDir := path
      definitionFingerprint := some (ServiceDefinition.digestOf library
        { definition with dataDir := path }) } = .ok (renderLaunchdPlist definition) := by
    rw [renderServiceDefinition, ServiceDefinition.validate_of_new hnew]
    dsimp only
    rw [hmanager]
    rfl
  have hbind : ∀ {α β : Type} (a : α) (f : α → Except LifecycleError β), (.ok a >>= f) = f a :=
    fun _ _ => rfl
  rw [parse_rendered_plist definition.serviceId rfl hpath, (namesNoShell_iff h).mp hshell,
    if_neg Bool.false_ne_true, hnew, hbind, hrender, hbind, if_neg (not_not.mpr rfl)]

/-- **The property list round trip**: the property list of a valid definition is read back exactly
where no value names a shell, the data directory is spelled as in the arguments, and the definition
carries its fingerprint. -/
theorem plist_round_trips_iff (hmanager : definition.manager = .macosLaunchd)
    (hvalidate : definition.validate library = .ok ()) :
    PlistRoundTrips library definition ↔ definition.NamesNoShell ∧
      definition.SpelledAlike library ∧ definition.definitionFingerprint.isSome = true := by
  obtain ⟨h, hrecorded⟩ := ServiceDefinition.validate_eq_ok_iff.mp hvalidate
  obtain ⟨path, hpath, hcontrol, hcomponents⟩ := h.arguments
  have hdata : dataDirArgument definition.arguments = some path := by
    rw [hpath]
    simp [dataDirArgument]
  have hrender : renderServiceDefinition library definition =
      .ok (renderLaunchdPlist definition) := by
    rw [renderServiceDefinition, hvalidate, hmanager]
    rfl
  constructor
  · rintro ⟨rendered, parsed, hrendered, hparse, hequivalent⟩
    obtain rfl := Except.ok.inj (hrender.symm.trans hrendered)
    have hshell : definition.NamesNoShell := by
      rw [namesNoShell_iff h]
      by_contra hnames
      rw [parse_rendered_plist definition.serviceId rfl hpath,
        if_pos (by simpa using hnames)] at hparse
      cases hparse
    rw [parse_of_namesNoShell hmanager h hshell hpath hcomponents] at hparse
    obtain rfl := Except.ok.inj hparse
    simp only [ServiceDefinition.equivalentTo, Bool.and_eq_true, decide_eq_true_eq] at hequivalent
    have hfingerprint := hequivalent.2
    refine ⟨hshell, fun path' hpath' => ?_, by rw [hfingerprint]; rfl⟩
    obtain rfl := Option.some.inj (hdata.symm.trans hpath')
    rcases hrecorded with hnone | hsome
    · rw [hnone] at hfingerprint
      cases hfingerprint
    · exact (Option.some.inj (hsome.symm.trans hfingerprint)).symm
  · rintro ⟨hshell, halike, hfingerprint⟩
    refine ⟨_, _, hrender, parse_of_namesNoShell hmanager h hshell hpath hcomponents, ?_⟩
    have hsome : definition.definitionFingerprint = some (definition.digestOf library) := by
      rcases hrecorded with hnone | hsome
      · rw [hnone] at hfingerprint
        cases hfingerprint
      · exact hsome
    simp only [ServiceDefinition.equivalentTo, hcomponents, hsome, Bool.and_eq_true,
      decide_eq_true_eq]
    exact ⟨⟨⟨⟨⟨⟨⟨trivial, rfl⟩, trivial⟩, trivial⟩, trivial⟩, trivial⟩, trivial⟩,
      congrArg some (halike path hdata).symm⟩

end RoundTrip

/-- A service whose data directory is written as given. -/
def macService (executable dataDir : String) : ServiceDefinition :=
  let fields : ServiceDefinition := {
    manager := .macosLaunchd
    serviceId := "dev.kakune.core"
    executable
    arguments := ["service", "run", "--data-dir", dataDir]
    account := "root"
    dataDir := dataDir }
  let library : DefinitionLibrary := ⟨fun _ _ _ _ _ dataDir => dataDir⟩
  { fields with definitionFingerprint := some (fields.digestOf library) }

/-- Markup in the values. -/
theorem escaped_plist_round_trips :
    PlistRoundTrips ⟨fun _ _ _ _ _ dataDir => dataDir⟩
        (macService "/Applications/Kakune 雪/core" "/Library/</string> & \"Data\"") ↔
      (macService "/Applications/Kakune 雪/core" "/Library/</string> & \"Data\"").NamesNoShell ∧
        (macService "/Applications/Kakune 雪/core" "/Library/</string> & \"Data\"").SpelledAlike
            ⟨fun _ _ _ _ _ dataDir => dataDir⟩ ∧
          (macService "/Applications/Kakune 雪/core"
            "/Library/</string> & \"Data\"").definitionFingerprint.isSome = true :=
  plist_round_trips_iff rfl (by decide)

/-- An executable in a directory whose name begins like a shell. -/
theorem shell_like_path_is_refused :
    (macService "/opt/bin/shared/kakune-core" "/Library/Kakune").validate
        ⟨fun _ _ _ _ _ dataDir => dataDir⟩ = .ok () ∧
      ¬ PlistRoundTrips ⟨fun _ _ _ _ _ dataDir => dataDir⟩
        (macService "/opt/bin/shared/kakune-core" "/Library/Kakune") := by
  refine ⟨by decide, ?_⟩
  rintro ⟨rendered, parsed, hrendered, hparse, -⟩
  obtain ⟨_, -, hrendered⟩ := except_bind_eq_ok hrendered
  obtain rfl := Except.ok.inj hrendered
  have hnames : occurs shell (renderLaunchdPlist
      (macService "/opt/bin/shared/kakune-core" "/Library/Kakune")) = true := by
    rw [occurs_shell_plist]
    decide
  rw [parse_rendered_plist _ rfl rfl, if_pos hnames] at hparse
  cases hparse

end KakuneCore

import KakuneCore.Encoding.Masking
import KakuneCore.Workflow.Value

/-!
# Redaction of tool results

What an MCP tool answers may repeat the arguments of the call or the secrets of the connection.
`redact_json_strings` replaces them in every string of the answer, one after another in the order
in which they were collected, and does not look at object keys.

The main result, `redaction_leaves_nothing`: nothing is left of the sensitive strings where no key
has one, no occurrence ever touches a marker, and longer occurrences are alone. The counterexample
says how each of the three can fail.
-/

namespace KakuneCore

open Masking TextSearch

mutual

/-- `collect_sensitive_strings`. -/
def collectSensitiveStrings : Value → List String
  | .string text => if text = "" then [] else [text]
  | .array items => collectFromItems items
  | .object fields => collectFromFields fields
  | .null | .bool _ | .number _ => []

def collectFromItems : List Value → List String
  | [] => []
  | value :: items => collectSensitiveStrings value ++ collectFromItems items

def collectFromFields : List (String × Value) → List String
  | [] => []
  | field :: fields => collectSensitiveStrings field.2 ++ collectFromFields fields

end

/-- `[redacted]`. -/
def redactionMarker : List Char := ['[', 'r', 'e', 'd', 'a', 'c', 't', 'e', 'd', ']']

theorem redactionMarker_ne_nil : redactionMarker ≠ [] := List.cons_ne_nil _ _

/-- The loop over the sensitive strings. -/
def redactText (sensitive : List String) (text : String) : String :=
  sensitive.foldl (fun text secret =>
    if secret ≠ "" ∧ occurs secret.toList text.toList then
      .ofList (replaceAll secret.toList redactionMarker text.toList)
    else text) text

mutual

/-- `redact_json_strings`. -/
def redactJsonStrings (sensitive : List String) : Value → Value
  | .string text => .string (redactText sensitive text)
  | .array items => .array (redactItems sensitive items)
  | .object fields => .object (redactFields sensitive fields)
  | .null => .null
  | .bool b => .bool b
  | .number n => .number n

def redactItems (sensitive : List String) : List Value → List Value
  | [] => []
  | value :: items => redactJsonStrings sensitive value :: redactItems sensitive items

def redactFields (sensitive : List String) : List (String × Value) → List (String × Value)
  | [] => []
  | field :: fields =>
    (field.1, redactJsonStrings sensitive field.2) :: redactFields sensitive fields

end

/-- What `management_mcp_call_tool` answers, from the result of the tool. -/
def redactToolResult (arguments : StrMap Value) (secretValues : List String) (response : Value) :
    Value :=
  redactJsonStrings (collectSensitiveStrings (.object arguments) ++ secretValues) response

/-! ### The strings of a value -/

mutual

/-- The strings of a value, keys apart. -/
def stringsOf : Value → List String
  | .string text => [text]
  | .array items => stringsOfItems items
  | .object fields => stringsOfFields fields
  | .null | .bool _ | .number _ => []

def stringsOfItems : List Value → List String
  | [] => []
  | value :: items => stringsOf value ++ stringsOfItems items

def stringsOfFields : List (String × Value) → List String
  | [] => []
  | field :: fields => stringsOf field.2 ++ stringsOfFields fields

end

mutual

/-- The keys of the objects of a value. -/
def keysOf : Value → List String
  | .array items => keysOfItems items
  | .object fields => keysOfFields fields
  | .null | .bool _ | .number _ | .string _ => []

def keysOfItems : List Value → List String
  | [] => []
  | value :: items => keysOf value ++ keysOfItems items

def keysOfFields : List (String × Value) → List String
  | [] => []
  | field :: fields => field.1 :: (keysOf field.2 ++ keysOfFields fields)

end

section Value

variable {sensitive : List String}

mutual

/-- Every string is redacted where it stands. -/
theorem stringsOf_redactJsonStrings (value : Value) :
    stringsOf (redactJsonStrings sensitive value) =
      (stringsOf value).map (redactText sensitive) := by
  cases value with
  | string text => rfl
  | array items =>
    rw [redactJsonStrings, stringsOf, stringsOf]
    exact stringsOfItems_redactItems items
  | object fields =>
    rw [redactJsonStrings, stringsOf, stringsOf]
    exact stringsOfFields_redactFields fields
  | null => rfl
  | bool b => rfl
  | number n => rfl

theorem stringsOfItems_redactItems (items : List Value) :
    stringsOfItems (redactItems sensitive items) =
      (stringsOfItems items).map (redactText sensitive) := by
  cases items with
  | nil => rfl
  | cons value items =>
    rw [redactItems, stringsOfItems, stringsOfItems, List.map_append,
      stringsOf_redactJsonStrings value, stringsOfItems_redactItems items]

theorem stringsOfFields_redactFields (fields : List (String × Value)) :
    stringsOfFields (redactFields sensitive fields) =
      (stringsOfFields fields).map (redactText sensitive) := by
  cases fields with
  | nil => rfl
  | cons field fields =>
    rw [redactFields, stringsOfFields, stringsOfFields, List.map_append,
      stringsOf_redactJsonStrings field.2, stringsOfFields_redactFields fields]

end

mutual

/-- The keys stay. -/
theorem keysOf_redactJsonStrings (value : Value) :
    keysOf (redactJsonStrings sensitive value) = keysOf value := by
  cases value with
  | array items =>
    rw [redactJsonStrings, keysOf, keysOf]
    exact keysOfItems_redactItems items
  | object fields =>
    rw [redactJsonStrings, keysOf, keysOf]
    exact keysOfFields_redactFields fields
  | string text => rfl
  | null => rfl
  | bool b => rfl
  | number n => rfl

theorem keysOfItems_redactItems (items : List Value) :
    keysOfItems (redactItems sensitive items) = keysOfItems items := by
  cases items with
  | nil => rfl
  | cons value items =>
    rw [redactItems, keysOfItems, keysOfItems, keysOf_redactJsonStrings value,
      keysOfItems_redactItems items]

theorem keysOfFields_redactFields (fields : List (String × Value)) :
    keysOfFields (redactFields sensitive fields) = keysOfFields fields := by
  cases fields with
  | nil => rfl
  | cons field fields =>
    rw [redactFields, keysOfFields, keysOfFields, keysOf_redactJsonStrings field.2,
      keysOfFields_redactFields fields]

end

mutual

/-- A value stays when its strings do. -/
theorem redactJsonStrings_eq_self (value : Value)
    (h : ∀ text ∈ stringsOf value, redactText sensitive text = text) :
    redactJsonStrings sensitive value = value := by
  cases value with
  | string text => rw [redactJsonStrings, h text (by rw [stringsOf]; exact List.mem_cons_self)]
  | array items =>
    rw [stringsOf] at h
    rw [redactJsonStrings, redactItems_eq_self items h]
  | object fields =>
    rw [stringsOf] at h
    rw [redactJsonStrings, redactFields_eq_self fields h]
  | null => rfl
  | bool b => rfl
  | number n => rfl

theorem redactItems_eq_self (items : List Value)
    (h : ∀ text ∈ stringsOfItems items, redactText sensitive text = text) :
    redactItems sensitive items = items := by
  cases items with
  | nil => rfl
  | cons value items =>
    rw [stringsOfItems, List.forall_mem_append] at h
    rw [redactItems, redactJsonStrings_eq_self value h.1, redactItems_eq_self items h.2]

theorem redactFields_eq_self (fields : List (String × Value))
    (h : ∀ text ∈ stringsOfFields fields, redactText sensitive text = text) :
    redactFields sensitive fields = fields := by
  cases fields with
  | nil => rfl
  | cons field fields =>
    rw [stringsOfFields, List.forall_mem_append] at h
    rw [redactFields, redactJsonStrings_eq_self field.2 h.1, redactFields_eq_self fields h.2]

end

end Value

/-! ### What is left of the sensitive strings -/

/-- **A redacted string**: its original with some occurrences of sensitive strings under markers.
Every occurrence that is left lies in a marker, longer occurrences leave no fragment, and the string
has grown by at most the markers. -/
def IsRedacted (sensitive : List String) (text out : String) : Prop :=
  ∃ tokens, original tokens = text.toList ∧ shown redactionMarker tokens = out.toList ∧
    Cleared redactionMarker (sensitive.map String.toList) tokens ∧
    out.length ≤ text.length + redactionMarker.length * (secrets tokens).length

/-- No key has a sensitive string, every string is redacted, and redacting again changes nothing. -/
structure LeavesNothing (sensitive : List String) (value out : Value) : Prop where
  keys : ∀ key ∈ keysOf out, ∀ secret ∈ sensitive, ¬ secret.toList <:+: key.toList
  strings : List.Forall₂ (IsRedacted sensitive) (stringsOf value) (stringsOf out)
  again : redactJsonStrings sensitive out = out

/-- No key has a sensitive string; in no string does one touch a marker, however some are masked;
and what overlaps a shorter sensitive string is masked by occurrences that are alone. -/
structure Redactable (sensitive : List String) (value : Value) : Prop where
  keys : ∀ key ∈ keysOf value, ∀ secret ∈ sensitive, ¬ secret.toList <:+: key.toList
  apart : ∀ text ∈ stringsOf value,
    KeepsApart redactionMarker (sensitive.map String.toList) text.toList
  alone : ∀ text ∈ stringsOf value, LongerAlone (sensitive.map String.toList) text.toList

variable {sensitive : List String}

theorem toList_redactText (hne : ∀ secret ∈ sensitive, secret ≠ "") (text : String) :
    (redactText sensitive text).toList =
      replaceEach redactionMarker (sensitive.map String.toList) text.toList := by
  induction sensitive generalizing text with
  | nil => rfl
  | cons secret sensitive ih =>
    rw [List.forall_mem_cons] at hne
    rw [List.map_cons, replaceEach, List.foldl_cons, ← replaceEach, redactText, List.foldl_cons,
      ← redactText, ih hne.2]
    congr 1
    split
    · rw [String.toList_ofList]
    · next hnot =>
      have hcut : cutAt secret.toList text.toList = none := by
        refine cutAt_of_not_occurs fun hin => hnot ⟨hne.1, ?_⟩
        rwa [occurs_iff]
      rw [replaceAll_of_none hcut]

theorem ne_nil_of_mem_map (hne : ∀ secret ∈ sensitive, secret ≠ "") :
    ∀ r ∈ sensitive.map String.toList, r ≠ [] := by
  intro r hr
  obtain ⟨secret, hsecret, rfl⟩ := List.mem_map.mp hr
  exact mt String.toList_eq_nil_iff.mp (hne secret hsecret)

theorem isRedacted_redactText (hne : ∀ secret ∈ sensitive, secret ≠ "") {text : String}
    (hapart : KeepsApart redactionMarker (sensitive.map String.toList) text.toList)
    (halone : LongerAlone (sensitive.map String.toList) text.toList) :
    IsRedacted sensitive text (redactText sensitive text) := by
  have hnil := ne_nil_of_mem_map hne
  have horiginal : original (maskAll (sensitive.map String.toList) (letters text.toList)) =
      text.toList := original_maskAll_letters hnil
  have hshown := shown_maskAll redactionMarker_ne_nil hnil hapart (fun _ hr => hr)
    original_letters (by simp)
  rw [shown_letters, ← toList_redactText hne] at hshown
  refine ⟨_, horiginal, hshown, cleared_maskAll (by decide) hnil hapart halone, ?_⟩
  have hlength := length_shown_le redactionMarker
    (maskAll (sensitive.map String.toList) (letters text.toList))
  rwa [horiginal, hshown, String.length_toList, String.length_toList] at hlength

/-- **Redaction leaves nothing behind** of the sensitive strings in a value that is redactable. -/
theorem redaction_leaves_nothing (hne : ∀ secret ∈ sensitive, secret ≠ "") (value : Value) :
    (Redactable sensitive value →
        LeavesNothing sensitive value (redactJsonStrings sensitive value)) ∧
      (LeavesNothing sensitive value (redactJsonStrings sensitive value) →
        ∀ key ∈ keysOf value, ∀ secret ∈ sensitive, ¬ secret.toList <:+: key.toList) := by
  constructor
  · intro hvalue
    refine ⟨?_, ?_, ?_⟩
    · rw [keysOf_redactJsonStrings]
      exact hvalue.keys
    · rw [stringsOf_redactJsonStrings, List.forall₂_map_right_iff, List.forall₂_same]
      exact fun text htext =>
        isRedacted_redactText hne (hvalue.apart text htext) (hvalue.alone text htext)
    · refine redactJsonStrings_eq_self _ fun out hout => ?_
      rw [stringsOf_redactJsonStrings] at hout
      obtain ⟨text, htext, rfl⟩ := List.mem_map.mp hout
      refine String.toList_injective ?_
      rw [toList_redactText hne, toList_redactText hne]
      exact replaceEach_replaceEach redactionMarker_ne_nil (ne_nil_of_mem_map hne)
        (hvalue.apart text htext)
  · intro hleaves
    have hkeys := hleaves.keys
    rwa [keysOf_redactJsonStrings] at hkeys

/-- Arguments with a number and a part of it. -/
def numberArguments : StrMap Value :=
  [("account", .string "1234567"), ("branch", .string "345")]

/-- An answer that repeats the number. -/
def numberAnswer : Value := .object [("note", .string "1234567")]

/-- The sensitive strings of the call, letter by letter. -/
theorem toList_numberArguments :
    (collectSensitiveStrings (.object numberArguments)).map String.toList =
      [['1', '2', '3', '4', '5', '6', '7'], ['3', '4', '5']] := by decide

theorem numberAnswer_redactable :
    Redactable (collectSensitiveStrings (.object numberArguments)) numberAnswer where
  keys := by decide
  apart := by
    intro text _ tokens _ _ secret hsecret _
    rw [toList_numberArguments] at hsecret
    have hdigits : ∀ r ∈ [['1', '2', '3', '4', '5', '6', '7'], ['3', '4', '5']],
        r ≠ [] ∧ ∀ a ∈ r, a ∉ redactionMarker := by simp [redactionMarker]
    exact apart_of_disjoint (hdigits secret hsecret).1 (hdigits secret hsecret).2 tokens
  alone := by
    intro text htext
    obtain rfl : text = "1234567" := List.mem_singleton.mp htext
    have htext : "1234567".toList = ['1', '2', '3', '4', '5', '6', '7'] := by decide
    rw [toList_numberArguments, htext]
    intro secret hsecret i hoccurs shorter hshorter hlt j _ _ k _ hk
    -- the number fills the text, so it occurs once
    have honce : ∀ j, OccursAt ['1', '2', '3', '4', '5', '6', '7']
        ['1', '2', '3', '4', '5', '6', '7'] j → j = 0 := fun j hj => by
      simpa using hj.length_le (List.cons_ne_nil _ _)
    rcases List.mem_cons.mp hsecret with rfl | hsecret
    · obtain rfl := honce i hoccurs
      refine ⟨_, 0, ⟨hoccurs, [], [['3', '4', '5']], rfl, ?_⟩, Nat.zero_le k, hk⟩
      intro r hr j hj _
      obtain rfl := List.mem_singleton.mp hr
      exact ⟨honce j hj, rfl⟩
    · -- no sensitive string is shorter than the other one
      have hthree : ∀ r ∈ [['1', '2', '3', '4', '5', '6', '7'], ['3', '4', '5']], 3 ≤ r.length := by
        decide
      have hle := hthree shorter hshorter
      rw [List.mem_singleton.mp hsecret] at hlt
      exact absurd hlt (Nat.not_lt.mpr hle)

theorem numberAnswer_leaves_nothing :
    LeavesNothing (collectSensitiveStrings (.object numberArguments)) numberAnswer
      (redactToolResult numberArguments [] numberAnswer) :=
  (redaction_leaves_nothing (by decide) numberAnswer).1 numberAnswer_redactable

theorem password_partly_replaced :
    redactText ["pass", "password"] "password" = "[redacted]word" := by
  have hfirst : replaceAll ['p', 'a', 's', 's'] redactionMarker
      ['p', 'a', 's', 's', 'w', 'o', 'r', 'd'] = redactionMarker ++ ['w', 'o', 'r', 'd'] := by
    have hcut : cutAt ['p', 'a', 's', 's'] ['p', 'a', 's', 's', 'w', 'o', 'r', 'd'] =
        some ([], ['w', 'o', 'r', 'd']) := by decide
    rw [replaceAll_of_cutAt (by decide) hcut, replaceAll_of_none (by decide)]
    rfl
  have hsecond : replaceAll ['p', 'a', 's', 's', 'w', 'o', 'r', 'd'] redactionMarker
      (redactionMarker ++ ['w', 'o', 'r', 'd']) = redactionMarker ++ ['w', 'o', 'r', 'd'] :=
    replaceAll_of_none (by decide)
  refine String.toList_injective ((toList_redactText (by decide) _).trans ?_)
  exact (congrArg (replaceAll ['p', 'a', 's', 's', 'w', 'o', 'r', 'd'] redactionMarker)
    hfirst).trans hsecond

/-- The marker over the first half leaves the other half. -/
theorem password_not_redacted :
    ¬ IsRedacted ["pass", "password"] "password" "[redacted]word" := by
  rintro ⟨tokens, horiginal, hshown, hcleared, -⟩
  have htext : "password".toList = ['p', 'a', 's', 's', 'w', 'o', 'r', 'd'] := by decide
  have hout : "[redacted]word".toList = redactionMarker ++ ['w', 'o', 'r', 'd'] := by decide
  have hlist : ["pass", "password"].map String.toList =
      [['p', 'a', 's', 's'], ['p', 'a', 's', 's', 'w', 'o', 'r', 'd']] := by decide
  rw [htext] at horiginal
  rw [hout] at hshown
  rw [hlist] at hcleared
  rcases tokens with _ | ⟨a | r, tokens⟩
  · cases horiginal
  · -- what is shown begins with the marker, the original with another letter
    obtain ⟨rfl, -⟩ := List.cons_eq_cons.mp horiginal
    exact absurd (List.cons_eq_cons.mp hshown).1 (by decide)
  · have hrest : shown redactionMarker tokens = ['w', 'o', 'r', 'd'] :=
      List.append_cancel_left hshown
    have hr := hcleared.secrets r (by simp [Token.secret?])
    -- the second token is a letter, since no marker is shown there
    rcases tokens with _ | ⟨a | r', tokens⟩
    · cases hrest
    · obtain ⟨rfl, -⟩ := List.cons_eq_cons.mp hrest
      rcases List.mem_cons.mp hr with rfl | hr
      · have hmasked := hcleared.fragments _ (List.mem_cons_of_mem _ List.mem_cons_self) 0
          (by rw [horiginal]; exact List.prefix_refl _) [] ['p', 'a', 's', 's'] _ rfl (by decide)
          ⟨by decide, by decide⟩ 4 (by decide) (by decide)
        exact absurd hmasked (by simp [MaskedAt, Token.left])
      · obtain rfl := List.mem_singleton.mp hr
        have hlength := congrArg List.length horiginal
        simp [Token.original] at hlength
    · exact absurd (List.cons_eq_cons.mp hrest).1 (by decide)

/-- A sensitive string that the marker has is found in it the next time. -/
theorem marker_redacted_again :
    redactText ["red"] "red" = "[redacted]" ∧
      redactText ["red"] "[redacted]" = "[[redacted]acted]" := by
  have hwhole : replaceAll ['r', 'e', 'd'] redactionMarker ['r', 'e', 'd'] = redactionMarker := by
    have hcut : cutAt ['r', 'e', 'd'] ['r', 'e', 'd'] = some ([], []) := by decide
    rw [replaceAll_of_cutAt (by decide) hcut, replaceAll_of_none (by decide)]
    rfl
  have hagain : replaceAll ['r', 'e', 'd'] redactionMarker redactionMarker =
      ['['] ++ (redactionMarker ++ ['a', 'c', 't', 'e', 'd', ']']) := by
    have hcut : cutAt ['r', 'e', 'd'] redactionMarker =
        some (['['], ['a', 'c', 't', 'e', 'd', ']']) := by decide
    rw [replaceAll_of_cutAt (by decide) hcut, replaceAll_of_none (by decide)]
  constructor
  · exact String.toList_injective ((toList_redactText (by decide) _).trans hwhole)
  · exact String.toList_injective ((toList_redactText (by decide) _).trans hagain)

/-- What can be left: a fragment of a longer sensitive string, a sensitive string in the marker, and
one in a key. -/
theorem sensitive_strings_are_left :
    redactJsonStrings ["pass", "password"] (.string "password") = .string "[redacted]word" ∧
      ¬ LeavesNothing ["pass", "password"] (.string "password")
        (redactJsonStrings ["pass", "password"] (.string "password")) ∧
      ¬ LeavesNothing ["red"] (.string "red") (redactJsonStrings ["red"] (.string "red")) ∧
      ¬ LeavesNothing ["token"] (.object [("token", .null)])
        (redactJsonStrings ["token"] (.object [("token", .null)])) := by
  refine ⟨congrArg Value.string password_partly_replaced, ?_, ?_, ?_⟩
  · intro hleaves
    have hstring := hleaves.strings
    rw [redactJsonStrings, password_partly_replaced] at hstring
    obtain ⟨hredacted, -⟩ := List.forall₂_cons.mp hstring
    exact password_not_redacted hredacted
  · intro hleaves
    have hagain := hleaves.again
    rw [redactJsonStrings, redactJsonStrings, marker_redacted_again.1, marker_redacted_again.2,
      Value.string.injEq] at hagain
    exact absurd hagain (by decide)
  · intro hleaves
    exact hleaves.keys "token" List.mem_cons_self "token" List.mem_cons_self (List.infix_refl _)

end KakuneCore

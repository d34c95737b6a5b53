import KakuneCore.Encoding.Erased
import KakuneCore.Workflow.Value

/-!
# Messages of API errors

`sanitize_message` erases what looks like a credential from the message of an error: for each of
five markers it replaces, again and again, the first occurrence and the word directly behind it by
`[redacted]`. The credential that belongs to a marker is the next word, after **any** white space;
`message_is_sanitized_iff` says in which messages all of them are erased.
-/

namespace KakuneCore

open Erasing Masking

/-- The markers, in the order in which they are looked for. -/
def credentialMarkers : List (List Char) :=
  ["Bearer ", "bearer ", "api_key=", "apiKey=", "token="].map String.toList

/-- What is left of a credential. -/
def redactedText : List Char := "[redacted]".toList

/-- `sanitize_message`, with so much fuel for the loop of each marker. -/
def sanitizeMessage (fuel : Nat) (message : String) : Option String :=
  ((markEraser isWhitespace redactedText).loopAll credentialMarkers fuel message.toList).map
    String.ofList

/-- The same loops, with marks that remember what was erased. -/
def sanitizeTokens (fuel : Nat) (message : String) : Option (List (Token Char)) :=
  (tokenEraser isWhitespace).loopAll (credentialMarkers.map letters) fuel (letters message.toList)

/-- **A message is sanitized**: the loops end, no marker is left, nothing changes when the result is
sanitized again, and every letter of the word behind a marker is erased from its place. -/
structure Sanitized (message : String) : Prop where
  ends : ∃ enough, ∀ fuel, enough ≤ fuel → ∃ result, sanitizeMessage fuel message = some result
  unmarked : ∀ fuel result, sanitizeMessage fuel message = some result →
    ∀ marker ∈ credentialMarkers, ¬ marker <:+: result.toList
  again : ∀ fuel result, sanitizeMessage fuel message = some result →
    ∀ fuel', sanitizeMessage (fuel' + 1) result = some result
  erased : ∃ enough, ∀ fuel, enough ≤ fuel → ∃ tokens, sanitizeTokens fuel message = some tokens ∧
    original tokens = message.toList ∧
    sanitizeMessage fuel message = some (String.ofList (shown redactedText tokens)) ∧
    ∀ marker ∈ credentialMarkers, ∀ i a k, WordBehind isWhitespace message.toList marker i a k →
      MaskedAt tokens k

/-- **No credential is spared**: behind every marker, another marker occurs where the credential
begins, or the credential follows directly, and the marker ends with `=` or is not part of the word
erased with a `Bearer` marker before it. -/
def NoneSpared (message : String) : Prop :=
  ∀ marker ∈ credentialMarkers, ∀ i a, OccursAt marker message.toList i →
    Begins isWhitespace message.toList (i + marker.length) a →
    Unspared isWhitespace credentialMarkers message.toList marker i a

/-! ### The markers -/

theorem credentialMarkers_ne_nil : ∀ marker ∈ credentialMarkers, marker ≠ [] := by decide

theorem credentialMarkers_separate : Separate isWhitespace credentialMarkers where
  nodup := by decide
  head marker hmem := by
    have hhead : ∀ marker ∈ credentialMarkers,
        marker.head?.any (fun c => !isWhitespace c) = true := by decide
    have hfirst := hhead marker hmem
    rcases marker with - | ⟨c, rest⟩
    · cases hfirst
    · exact ⟨c, rest, rfl, by simpa using hfirst⟩
  apart := by decide +kernel

/-- No marker touches what is left of a credential. -/
theorem fence_redactedText {marker : List Char} (hmem : marker ∈ credentialMarkers) :
    Fence marker redactedText where
  first := ⟨'[', _, rfl, (by decide : ∀ marker ∈ credentialMarkers, '[' ∉ marker) marker hmem⟩
  last := ⟨"[redacted".toList, ']', by decide,
    (by decide : ∀ marker ∈ credentialMarkers, ']' ∉ marker) marker hmem⟩
  inside hin := by
    have hoccurs : ∀ marker ∈ credentialMarkers, TextSearch.occurs marker redactedText = false := by
      decide
    rw [← TextSearch.occurs_iff, hoccurs marker hmem] at hin
    cases hin

theorem markEraser_fenced : (markEraser isWhitespace redactedText).Fenced credentialMarkers where
  nonempty := credentialMarkers_ne_nil
  fence _ hmem _ _ := fence_redactedText hmem

theorem tokenEraser_fenced :
    (tokenEraser isWhitespace).Fenced (credentialMarkers.map letters) where
  nonempty pattern hmem := by
    obtain ⟨marker, hmarker, rfl⟩ := List.mem_map.mp hmem
    exact mt letters_eq_nil.mp (credentialMarkers_ne_nil marker hmarker)
  fence pattern hmem erased _ := by
    obtain ⟨marker, hmarker, rfl⟩ := List.mem_map.mp hmem
    exact fence_token (credentialMarkers_ne_nil marker hmarker)

/-! ### The erased letters -/

/-- One run over tokens shows the run over the message and what it loses. -/
theorem exists_erasedTokens (text : List Char) : ∃ tokens,
    (tokenEraser isWhitespace).ErasesAll (credentialMarkers.map letters) (letters text) tokens ∧
      original tokens = text ∧
      (markEraser isWhitespace redactedText).ErasesAll credentialMarkers text
        (shown redactedText tokens) ∧
      Erased isWhitespace credentialMarkers credentialMarkers text (left tokens) := by
  obtain ⟨tokens, htokens⟩ :=
    (tokenEraser isWhitespace).exists_erasesAll tokenEraser_fenced.nonempty (letters text)
  have hsolid : Solid (letters text) := by simp [Solid]
  have hspace : ∀ c ∈ redactedText, isWhitespace c = false := by
    have hall : redactedText.all (fun c => !isWhitespace c) = true := by rfl
    simpa using hall
  refine ⟨tokens, htokens, ?_, ?_, ?_⟩
  · rw [htokens.original, original_letters]
  · have hshown := htokens.view (view_shown hspace) credentialMarkers_ne_nil
      (fun marker hmem secret _ => by rw [List.map_id]; exact fence_redactedText hmem) hsolid
    have htext : (letters text).flatMap (Token.shown redactedText) = text := shown_letters
    rwa [List.map_id_fun, List.map_id, htext] at hshown
  · have hleft := htokens.view view_left credentialMarkers_ne_nil
      (fun marker hmem secret hsecret => fence_left hsecret (credentialMarkers_ne_nil marker hmem))
      hsolid
    have htext : (letters text).flatMap Token.left = text.map some :=
      (@view_left _ isWhitespace).letters_flatMap text
    rw [htext] at hleft
    exact hleft.erased credentialMarkers_separate

/-- **Which words are erased.** -/
theorem erased_iff_noneSpared {message : String} {tokens : List (Token Char)}
    (h : Erased isWhitespace credentialMarkers credentialMarkers message.toList (left tokens)) :
    (∀ marker ∈ credentialMarkers, ∀ i a k, WordBehind isWhitespace message.toList marker i a k →
        MaskedAt tokens k) ↔ NoneSpared message :=
  h.words_lost_iff credentialMarkers_separate

theorem noneSpared_of_sanitized {message : String} (h : Sanitized message) :
    NoneSpared message := by
  obtain ⟨tokens, htokens, -, -, hleft⟩ := exists_erasedTokens message.toList
  obtain ⟨enough, herased⟩ := h.erased
  obtain ⟨tokens', hrun, -, -, hmasked⟩ := herased enough le_rfl
  obtain ⟨enough', hall⟩ := htokens.loopAll tokenEraser_fenced
  have heq := Eraser.loopAll_mono (Nat.le_max_left enough enough') hrun
  rw [hall _ (Nat.le_max_right enough enough')] at heq
  obtain rfl := Option.some.inj heq
  exact (erased_iff_noneSpared hleft).mp hmasked

/-- **A message is sanitized** exactly when no credential in it is spared. -/
theorem message_is_sanitized_iff (message : String) : Sanitized message ↔ NoneSpared message := by
  refine ⟨noneSpared_of_sanitized, fun h => ?_⟩
  obtain ⟨tokens, htokens, horiginal, hshown, hleft⟩ := exists_erasedTokens message.toList
  obtain ⟨enough, hall⟩ := hshown.loopAll markEraser_fenced
  obtain ⟨enough', hall'⟩ := htokens.loopAll tokenEraser_fenced
  have hunmarked : ∀ fuel result, sanitizeMessage fuel message = some result →
      ∀ marker ∈ credentialMarkers, ¬ marker <:+: result.toList := by
    intro fuel result hresult
    obtain ⟨text, htext, rfl⟩ := Option.map_eq_some_iff.mp hresult
    rw [String.toList_ofList]
    have hwalks := Eraser.erasesAll_of_loopAll markEraser_fenced htext
    exact Eraser.ErasesAll.not_infix hwalks markEraser_fenced
  refine ⟨⟨enough, fun fuel hfuel => ?_⟩, hunmarked, fun fuel result hresult fuel' => ?_,
    ⟨max enough enough', fun fuel hfuel => ?_⟩⟩
  · exact ⟨_, by rw [sanitizeMessage, hall fuel hfuel, Option.map_some]⟩
  · rw [sanitizeMessage, Eraser.loopAll_of_not_infix _ (hunmarked fuel result hresult),
      Option.map_some, String.ofList_toList]
  · refine ⟨tokens, hall' fuel (by omega), horiginal, ?_, (erased_iff_noneSpared hleft).mpr h⟩
    rw [sanitizeMessage, hall fuel (by omega), Option.map_some]

/-- Two spaces behind a marker spare the credential. -/
theorem credential_behind_two_spaces_is_spared : ¬ Sanitized "Bearer  secret" := by
  intro h
  have hbegins : Begins isWhitespace "Bearer  secret".toList 7 8 := by
    refine ⟨by omega, fun k b hk hk' hget => ?_, 's', by decide, by decide⟩
    obtain rfl : k = 7 := by omega
    obtain rfl : ' ' = b := Option.some.inj hget
    decide
  rcases noneSpared_of_sanitized h "Bearer ".toList (by decide) 0 8 (by unfold OccursAt; decide)
    hbegins with ⟨marker, hmem, hoccurs⟩ | ⟨hdirect, -⟩
  · have hnot : ∀ marker ∈ credentialMarkers,
        ¬ marker <+: "Bearer  secret".toList.drop 8 := by decide
    exact hnot marker hmem hoccurs
  · exact absurd hdirect (by decide)

end KakuneCore

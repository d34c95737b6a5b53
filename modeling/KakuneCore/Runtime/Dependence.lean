import KakuneCore.Process.Lockstep
import KakuneCore.Runtime.Outputs

/-!
# What a binding depends on

A binding without a secret is a function of the local bindings and node outputs it reads: where two
scheduler states agree on those, it resolves to the same value in both, and asks for nothing.
-/

namespace KakuneCore

open Proc

/-- Two maps agree on some keys. -/
def AgreeOn {α : Type} (V : String → Prop) (l l' : StrMap α) : Prop :=
  ∀ key, V key → l.get? key = l'.get? key

theorem AgreeOn.refl {α : Type} (V : String → Prop) (l : StrMap α) : AgreeOn V l l := fun _ _ => rfl

theorem AgreeOn.symm {α : Type} {V : String → Prop} {l l' : StrMap α} (h : AgreeOn V l l') :
    AgreeOn V l' l := fun key hkey => (h key hkey).symm

/-- Writing the same value keeps an agreement. -/
theorem AgreeOn.insert {α : Type} {V : String → Prop} {l l' : StrMap α} (h : AgreeOn V l l')
    (key : String) (value : α) : AgreeOn V (l.insert key value) (l'.insert key value) := by
  intro key' hkey
  rw [StrMap.get?_insert, StrMap.get?_insert, h key' hkey]

/-- Writing outside of the keys keeps an agreement. -/
theorem AgreeOn.insert_of_not {α : Type} {V : String → Prop} {l l' : StrMap α}
    (h : AgreeOn V l l') {key : String} (hkey : ¬ V key) (value value' : α) :
    AgreeOn V (l.insert key value) (l'.insert key value') := by
  intro key' hkey'
  have hne : key ≠ key' := by
    rintro rfl
    exact hkey hkey'
  rw [StrMap.get?_insert, StrMap.get?_insert, if_neg hne, if_neg hne, h key' hkey']

/-- The local bindings that are looked up for a reference: its whole text, and the part before the
first dot. -/
def LooksUp (source key : String) : Prop :=
  key = source ∨ ∃ path, splitOnceDot source = some (key, path)

/-- A reference depends only on some local bindings and on the outputs of some nodes. -/
def ReferenceWithin (V N : String → Prop) (source : String) : Prop :=
  (startsWithDollar source = true → ∀ key, LooksUp source key → V key) ∧
    (startsWithDollar source = false → ∀ id name, splitOnceDot source = some (id, name) → N id)

/-- A binding uses no secret and reads only such references. -/
structure WorkflowBinding.Within (V N : String → Prop) (binding : WorkflowBinding) : Prop where
  secretFree : bindingUsesSecret binding = false
  references : ∀ source, binding.Reads source → ReferenceWithin V N source

section Resolution

variable {V N : String → Prop} {outputs outputs' : StrMap (StrMap Value)}
  {locals locals' : StrMap Value} (ho : AgreeOn N outputs outputs') (hl : AgreeOn V locals locals')
include ho hl

theorem resolveFrom_congr {source : String} (h : ReferenceWithin V N source) :
    resolveFrom outputs locals source = resolveFrom outputs' locals' source := by
  unfold resolveFrom
  cases hd : startsWithDollar source with
  | true =>
    have hlookup : ∀ key, LooksUp source key → locals.get? key = locals'.get? key :=
      fun key hkey => hl key (h.1 hd key hkey)
    rw [if_pos rfl, if_pos rfl, resolveLocal, resolveLocal, hlookup source (.inl rfl)]
    cases hdot : splitOnceDot source with
    | none => rfl
    | some parts =>
      obtain ⟨root, path⟩ := parts
      dsimp only
      rw [hlookup root (.inr ⟨path, hdot⟩)]
  | false =>
    rw [if_neg (by simp), if_neg (by simp)]
    cases hdot : splitOnceDot source with
    | none => rfl
    | some parts =>
      obtain ⟨id, name⟩ := parts
      dsimp only
      rw [ho id (h.2 hd id name hdot)]

end Resolution

/-! ### Pure bindings -/

theorem expressionUsesSecret_of_mem {items : List Value} (h : itemsUseSecret items = false)
    {item : Value} (hmem : item ∈ items) : expressionUsesSecret item = false := by
  induction items with
  | nil => cases hmem
  | cons first items ih =>
    rw [itemsUseSecret, Bool.or_eq_false_iff] at h
    rcases List.mem_cons.mp hmem with rfl | hmem
    · exact h.1
    · exact ih h.2 hmem

theorem expressionUsesSecret_of_get? {fields : List (String × Value)}
    (h : fieldsUseSecret fields = false) {key : String} {value : Value}
    (hget : StrMap.get? fields key = some value) : expressionUsesSecret value = false := by
  induction fields with
  | nil => cases hget
  | cons field fields ih =>
    obtain ⟨name, first⟩ := field
    rw [fieldsUseSecret, Bool.or_eq_false_iff] at h
    rw [StrMap.get?_cons] at hget
    split at hget
    · obtain rfl : first = value := by simpa using hget
      exact h.1
    · exact ih h.2 hget

/-- The arguments of an expression without a secret are without one. -/
theorem expressionUsesSecret_of_parts {expression : Value}
    (h : expressionUsesSecret expression = false) {operation : String} {args : List Value}
    (hparts : expressionParts expression = .ok (operation, args)) {argument : Value}
    (hmem : argument ∈ args) : expressionUsesSecret argument = false := by
  unfold expressionParts at hparts
  split at hparts
  · cases hparts
  · next fields hfields =>
    obtain rfl : expression = .object fields := by
      cases expression <;> simp_all [Value.asObject]
    rw [expressionUsesSecret, Bool.or_eq_false_iff] at h
    split at hparts
    · cases hparts
    · split at hparts
      · cases hparts
      · next hargs =>
        cases hparts
        obtain ⟨value, hget, harray⟩ := Option.bind_eq_some_iff.mp hargs
        have hvalue := expressionUsesSecret_of_get? h.2 hget
        obtain rfl : value = .array args := by
          cases value <;> simp_all [Value.asArray]
        exact expressionUsesSecret_of_mem hvalue hmem

theorem argument_of_not_usesSecret {argument : Value}
    (h : expressionUsesSecret argument = false) :
    (∀ name, Argument.ofValue argument ≠ .secret name) ∧
      ∀ inner, Argument.ofValue argument = .expression inner →
        expressionUsesSecret inner = false := by
  unfold Argument.ofValue
  split
  · exact ⟨fun _ => nofun, fun _ => nofun⟩
  · exact ⟨fun _ => nofun, fun _ => nofun⟩
  · next name =>
    have hsecret : expressionUsesSecret (.object [("secret", .string name)]) = true := rfl
    rw [h] at hsecret
    cases hsecret
  · next nested =>
    refine ⟨fun _ => nofun, fun inner hinner => ?_⟩
    cases hinner
    rw [expressionUsesSecret, fieldsUseSecret, Bool.or_eq_false_iff, Bool.or_eq_false_iff] at h
    exact h.2.1
  · exact ⟨fun _ => nofun, fun _ => nofun⟩

/-- Two computations that ask for nothing and have one result. -/
def Coincide {α : Type} (x y : RunM α) : Prop := ∃ r, x = liftExcept r ∧ y = liftExcept r

theorem Coincide.pure {α : Type} (a : α) : Coincide (pure a) (pure a) := ⟨.ok a, rfl, rfl⟩

theorem Coincide.liftExcept {α : Type} (r : Except RunError α) :
    Coincide (liftExcept r) (liftExcept r) := ⟨r, rfl, rfl⟩

theorem Coincide.bind {α β : Type} {x y : RunM α} {f g : α → RunM β} (h : Coincide x y)
    (hf : ∀ a, Coincide (f a) (g a)) : Coincide (x >>= f) (y >>= g) := by
  obtain ⟨r, rfl, rfl⟩ := h
  cases r with
  | ok a => exact hf a
  | error e => exact ⟨.error e, rfl, rfl⟩

theorem Coincide.tracks {α : Type} {c : Comparison Op Resp} {x y : RunM α} (h : Coincide x y) :
    Tracks c x y Eq := by
  obtain ⟨r, rfl, rfl⟩ := h
  cases r with
  | ok a => exact .pure rfl
  | error e => exact .throw_right

section Bindings

variable (serde : SerdeJson) {V N : String → Prop} {outputs outputs' : StrMap (StrMap Value)}
  {locals locals' : StrMap Value} (ho : AgreeOn N outputs outputs') (hl : AgreeOn V locals locals')
include ho hl

theorem coincide_evaluateArguments {nested nested' : Value → RunM Value} {args : List Value}
    (hsecret : ∀ argument ∈ args, expressionUsesSecret argument = false)
    (hsource : ∀ argument ∈ args, ∀ source, Argument.ofValue argument = .source source →
      ReferenceWithin V N source)
    (hnested : ∀ argument ∈ args, ∀ inner, Argument.ofValue argument = .expression inner →
      Coincide (nested inner) (nested' inner)) :
    Coincide (evaluateArguments outputs locals nested args)
      (evaluateArguments outputs' locals' nested' args) := by
  induction args with
  | nil => exact .pure []
  | cons argument args ih =>
    have hfirst : Coincide (evaluateExpressionArgument outputs locals nested argument)
        (evaluateExpressionArgument outputs' locals' nested' argument) := by
      have hfree := argument_of_not_usesSecret (hsecret argument List.mem_cons_self)
      unfold evaluateExpressionArgument
      cases hof : Argument.ofValue argument with
      | value value => exact .pure value
      | source source =>
        dsimp only
        rw [resolveFrom_congr ho hl (hsource argument List.mem_cons_self source hof)]
        exact .liftExcept _
      | secret name => exact absurd hof (hfree.1 name)
      | expression inner => exact hnested argument List.mem_cons_self inner hof
    refine .bind hfirst fun value => .bind ?_ fun values => .pure _
    exact ih (fun a ha => hsecret a (List.mem_cons_of_mem _ ha))
      (fun a ha => hsource a (List.mem_cons_of_mem _ ha))
      fun a ha => hnested a (List.mem_cons_of_mem _ ha)

theorem coincide_evaluateExpression (depth : Nat) {expression : Value}
    (hsecret : expressionUsesSecret expression = false)
    (h : ∀ source, Evaluates expression source → ReferenceWithin V N source) :
    Coincide (evaluateExpression serde outputs locals depth expression)
      (evaluateExpression serde outputs' locals' depth expression) := by
  induction depth generalizing expression with
  | zero => exact .liftExcept (.error .outOfFuel)
  | succ depth ih =>
    unfold evaluateExpression
    cases hparts : expressionParts expression with
    | error e => exact ⟨.error e, rfl, rfl⟩
    | ok parts =>
      obtain ⟨operation, args⟩ := parts
      have hfree : ∀ argument ∈ args, expressionUsesSecret argument = false :=
        fun argument hmem => expressionUsesSecret_of_parts hsecret hparts hmem
      change Coincide
        (evaluateArguments outputs locals (evaluateExpression serde outputs locals depth) args >>=
          fun values => liftExcept (applyOperation serde operation values))
        (evaluateArguments outputs' locals'
          (evaluateExpression serde outputs' locals' depth) args >>=
          fun values => liftExcept (applyOperation serde operation values))
      refine .bind (coincide_evaluateArguments ho hl hfree ?_ ?_) fun values => .liftExcept _
      · exact fun argument hmem source hof => h source (.argument hparts hmem hof)
      · intro argument hmem inner hof
        refine ih ((argument_of_not_usesSecret (hfree argument hmem)).2 inner hof)
          fun source hs => ?_
        exact h source (.nested hparts hmem hof hs)

/-- **A binding within the agreement** resolves to the same in both states. -/
theorem coincide_resolveBinding {binding : WorkflowBinding} (h : binding.Within V N) :
    Coincide (resolveBinding serde outputs locals binding)
      (resolveBinding serde outputs' locals' binding) := by
  cases binding with
  | literal literal => exact .pure literal
  | «from» source =>
    change Coincide (liftExcept (resolveFrom outputs locals source))
      (liftExcept (resolveFrom outputs' locals' source))
    rw [resolveFrom_congr ho hl (h.references source rfl)]
    exact .liftExcept _
  | expr expression =>
    exact coincide_evaluateExpression serde ho hl _ h.secretFree h.references
  | secret name =>
    have := h.secretFree
    cases this

theorem coincide_resolveInputs {bindings : StrMap WorkflowBinding}
    (h : ∀ binding ∈ bindings.values, binding.Within V N) :
    Coincide (resolveInputs serde outputs locals bindings)
      (resolveInputs serde outputs' locals' bindings) := by
  induction bindings with
  | nil => exact .pure []
  | cons entry bindings ih =>
    obtain ⟨name, binding⟩ := entry
    refine .bind (coincide_resolveBinding serde ho hl (h binding List.mem_cons_self)) fun _ => ?_
    refine .bind (ih fun other hmem => h other (List.mem_cons_of_mem _ hmem)) fun _ => .pure _

end Bindings

end KakuneCore

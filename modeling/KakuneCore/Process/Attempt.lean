import Mathlib

/-!
# Attempts: stateful steps without rollback

`Attempt σ ε α` reads and writes a state and may fail; **what was written before an error stays**.
`Ensures x good bad` is the weakest precondition of an attempt for two postconditions, one for a
return and one for an error. Each rule below is an equation that moves `Ensures` into the parts of a
program, so a straight-line program is reduced to facts about the states it passes through.
-/

namespace KakuneCore

/-- A step on a state that may fail half-way. -/
abbrev Attempt (σ ε α : Type) := ExceptT ε (StateM σ) α

namespace Attempt

variable {σ ε α β : Type}

/-- What an attempt returns, and the state it leaves. -/
def exec (x : Attempt σ ε α) (s : σ) : Except ε α × σ := x.run.run s

/-- A step that cannot fail. -/
def total (f : σ → α × σ) : Attempt σ ε α := fun s => (.ok (f s).1, (f s).2)

/-- A step that only looks at the state. -/
def query (f : σ → Except ε α) : Attempt σ ε α := fun s => (f s, s)

/-- A step that only writes. -/
def update (f : σ → σ) : Attempt σ ε Unit := fun s => (.ok (), f s)

/-- A return leaves `good`, an error leaves `bad`. -/
def Ensures (x : Attempt σ ε α) (good : α → σ → Prop) (bad : ε → σ → Prop) (s : σ) : Prop :=
  match x.exec s with
  | (.ok a, s') => good a s'
  | (.error e, s') => bad e s'

variable {x : Attempt σ ε α} {f : α → Attempt σ ε β} {good good' : α → σ → Prop}
  {bad bad' : ε → σ → Prop} {s : σ}

@[simp]
theorem ensures_pure {a : α} : Ensures (pure a : Attempt σ ε α) good bad s ↔ good a s := Iff.rfl

@[simp]
theorem ensures_throw {e : ε} : Ensures (throw e : Attempt σ ε α) good bad s ↔ bad e s := Iff.rfl

@[simp]
theorem ensures_total {g : σ → α × σ} :
    Ensures (total g : Attempt σ ε α) good bad s ↔ good (g s).1 (g s).2 := Iff.rfl

@[simp]
theorem ensures_update {g : σ → σ} {post : Unit → σ → Prop} :
    Ensures (update g : Attempt σ ε Unit) post bad s ↔ post () (g s) := Iff.rfl

theorem ensures_query {g : σ → Except ε α} :
    Ensures (query g) good bad s ↔
      (∀ a, g s = .ok a → good a s) ∧ ∀ e, g s = .error e → bad e s := by
  rw [Ensures]
  change (match (g s, s) with | (.ok a, s') => good a s' | (.error e, s') => bad e s') ↔ _
  cases g s <;> simp

theorem exec_bind : exec (x >>= f) s =
    match x.exec s with
    | (.ok a, s') => (f a).exec s'
    | (.error e, s') => (.error e, s') := by
  rw [exec, exec, ExceptT.run_bind, StateT.run_bind]
  generalize x.run.run s = outcome
  obtain ⟨result | result, state⟩ := outcome <;> rfl

theorem ensures_bind {post : β → σ → Prop} :
    Ensures (x >>= f) post bad s ↔ Ensures x (fun a s' => Ensures (f a) post bad s') bad s := by
  rw [Ensures, Ensures, exec_bind]
  obtain ⟨result | result, state⟩ := x.exec s <;> rfl

theorem ensures_true : Ensures x (fun _ _ => True) (fun _ _ => True) s := by
  rw [Ensures]
  obtain ⟨result | result, state⟩ := x.exec s <;> trivial

theorem Ensures.mono (h : Ensures x good bad s) (hgood : ∀ a s', good a s' → good' a s')
    (hbad : ∀ e s', bad e s' → bad' e s') : Ensures x good' bad' s := by
  rw [Ensures] at h ⊢
  generalize x.exec s = outcome at h ⊢
  obtain ⟨result | result, state⟩ := outcome
  · exact hbad _ _ h
  · exact hgood _ _ h

theorem Ensures.bind {mid : α → σ → Prop} {post : β → σ → Prop} (hx : Ensures x mid bad s)
    (hf : ∀ a s', mid a s' → Ensures (f a) post bad s') : Ensures (x >>= f) post bad s :=
  ensures_bind.mpr (hx.mono hf fun _ _ h => h)

theorem Ensures.of_ok {a : α} (h : Ensures x good bad s) (hx : (x.exec s).1 = .ok a) :
    good a (x.exec s).2 := by
  rw [Ensures] at h
  generalize x.exec s = outcome at h hx ⊢
  obtain ⟨result, state⟩ := outcome
  obtain rfl : result = .ok a := hx
  exact h

theorem Ensures.of_error {e : ε} (h : Ensures x good bad s) (hx : (x.exec s).1 = .error e) :
    bad e (x.exec s).2 := by
  rw [Ensures] at h
  generalize x.exec s = outcome at h hx ⊢
  obtain ⟨result, state⟩ := outcome
  obtain rfl : result = .error e := hx
  exact h

/-! ### Invariants of attempts -/

/-- The attempt keeps `I`, whether it returns or fails. -/
def Keeps (I : σ → Prop) (x : Attempt σ ε α) : Prop :=
  ∀ s, I s → Ensures x (fun _ => I) (fun _ => I) s

variable {I : σ → Prop}

theorem Keeps.exec (h : Keeps I x) (hs : I s) : I (x.exec s).2 := by
  have hpost := h s hs
  rw [Ensures] at hpost
  generalize x.exec s = outcome at hpost ⊢
  obtain ⟨result | result, state⟩ := outcome <;> exact hpost

theorem Keeps.pure (a : α) : Keeps I (pure a : Attempt σ ε α) := fun _ h => h

theorem Keeps.throw (e : ε) : Keeps I (throw e : Attempt σ ε α) := fun _ h => h

theorem Keeps.update {g : σ → σ} (h : ∀ s, I s → I (g s)) :
    Keeps I (update g : Attempt σ ε Unit) := h

theorem Keeps.total {g : σ → α × σ} (h : ∀ s, I s → I (g s).2) :
    Keeps I (total g : Attempt σ ε α) := h

theorem Keeps.query (g : σ → Except ε α) : Keeps I (query g) :=
  fun _ h => ensures_query.mpr ⟨fun _ _ => h, fun _ _ => h⟩

theorem Keeps.bind (hx : Keeps I x) (hf : ∀ a, Keeps I (f a)) : Keeps I (x >>= f) :=
  fun s h => (hx s h).bind fun a s' h' => hf a s' h'

/-- What a look at the state shows may be used behind it. -/
theorem Keeps.query_bind {g : σ → Except ε α} {P : α → Prop} (hP : ∀ s a, I s → g s = .ok a → P a)
    (hf : ∀ a, P a → Keeps I (f a)) : Keeps I (Attempt.query g >>= f) := by
  intro s h
  refine ensures_bind.mpr (ensures_query.mpr ⟨fun a ha => ?_, fun _ _ => h⟩)
  exact hf a (hP s a h ha) s h

end Attempt

end KakuneCore

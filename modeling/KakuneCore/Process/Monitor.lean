import KakuneCore.Process.Logic

/-!
# Monitors

A `Monitor` reads a trace from the left: it keeps a state, and says of every event whether it may
come in that state. `Watches m s x Q E` says that a fallible process started in the monitor state
`s` issues only events that are **let pass**, whatever it is answered and wherever it is cut off,
and what holds of the state when it returns or fails. The rules follow the text of the process, so a
loop over an adversarial environment is treated by one invariant of the monitor state.

What a passed trace means is read off the monitor: the events of a kind are counted (`countP_le`),
and an event that needs a flag comes after one that raised it (`exists_raise`). Threads are not
treated, since the events of two threads interleave.
-/

namespace KakuneCore

/-- What is remembered of a trace, and which events may come next. -/
structure Monitor (O : Type) (R : O → Type) (σ : Type) where
  next : σ → Event O R → σ
  allowed : σ → Event O R → Prop

namespace Monitor

variable {O : Type} {R : O → Type} {σ : Type} {m : Monitor O R σ} {s : σ} {t u v : Trace O R}
  {e : Event O R}

/-- The state a trace leaves. -/
def after (m : Monitor O R σ) (s : σ) (t : Trace O R) : σ := t.foldl m.next s

@[simp]
theorem after_nil : m.after s [] = s := rfl

@[simp]
theorem after_cons : m.after s (e :: t) = m.after (m.next s e) t := rfl

@[simp]
theorem after_append : m.after s (u ++ v) = m.after (m.after s u) v :=
  List.foldl_append

/-- Every event of the trace may come where it comes. -/
def Passes (m : Monitor O R σ) : σ → Trace O R → Prop
  | _, [] => True
  | s, e :: t => m.allowed s e ∧ m.Passes (m.next s e) t

@[simp]
theorem passes_nil : m.Passes s [] := trivial

@[simp]
theorem passes_cons : m.Passes s (e :: t) ↔ m.allowed s e ∧ m.Passes (m.next s e) t := Iff.rfl

@[simp]
theorem passes_append : m.Passes s (u ++ v) ↔ m.Passes s u ∧ m.Passes (m.after s u) v := by
  induction u generalizing s with
  | nil => simp
  | cons e u ih => simp [ih, and_assoc]

/-- An event of a passed trace may come after what is in front of it. -/
theorem Passes.allowed (h : m.Passes s (u ++ e :: v)) : m.allowed (m.after s u) e :=
  (passes_append.mp h).2.1

theorem Passes.exists_allowed (h : m.Passes s t) (he : e ∈ t) : ∃ s', m.allowed s' e := by
  obtain ⟨u, v, rfl⟩ := List.append_of_mem he
  exact ⟨_, h.allowed⟩

/-- **Counted events**: the state counts the events of a kind, and one more may come only below the
limit. -/
theorem Passes.countP_le (count : σ → Nat) (kind : Event O R → Bool) {limit : Nat}
    (hnext : ∀ s e, count (m.next s e) = count s + if kind e then 1 else 0)
    (hallowed : ∀ s e, m.allowed s e → kind e = true → count s < limit)
    (h : m.Passes s t) (hs : count s ≤ limit) : count s + t.countP kind ≤ limit := by
  induction t generalizing s with
  | nil => simpa using hs
  | cons e t ih =>
    obtain ⟨he, ht⟩ := h
    have hstep := hnext s e
    by_cases hk : kind e = true
    · have hlt := hallowed s e he hk
      rw [if_pos hk] at hstep
      have htail := ih ht (by omega)
      rw [List.countP_cons_of_pos hk]
      omega
    · rw [if_neg hk, Nat.add_zero] at hstep
      have htail := ih ht (by omega)
      rw [List.countP_cons_of_neg hk]
      omega

/-- **Raised flags**: a flag that is up was raised, and has not been lowered since. -/
theorem exists_raise (flag : σ → Prop) (raises lowers : Event O R → Prop)
    (hnext : ∀ s e, flag (m.next s e) → raises e ∨ flag s ∧ ¬ lowers e)
    (hs : ¬ flag s) (h : flag (m.after s t)) :
    ∃ u e v, t = u ++ e :: v ∧ raises e ∧ ∀ e' ∈ v, ¬ lowers e' := by
  induction t using List.reverseRecOn with
  | nil => exact absurd h hs
  | append_singleton t e ih =>
    rw [after_append, after_cons, after_nil] at h
    obtain hraise | ⟨hflag, hkeep⟩ := hnext _ _ h
    · exact ⟨t, e, [], rfl, hraise, by simp⟩
    · obtain ⟨u, e', v, rfl, hraise, hv⟩ := ih hflag
      refine ⟨u, e', v ++ [e], by simp, hraise, fun x hx => ?_⟩
      obtain hx | hx := List.mem_append.mp hx
      · exact hv x hx
      · obtain rfl := List.mem_singleton.mp hx
        exact hkeep

end Monitor

/-! ### Watched processes -/

namespace Proc

variable {O : Type} {R : O → Type} {σ ε α β : Type} {m : Monitor O R σ} {s : σ}
  {Q : σ → α → Prop} {Q' : σ → β → Prop} {E E' : σ → ε → Prop}

/-- Every run of `x` is let pass, and leaves a state with `Q` where it returns and with `E` where it
fails. -/
def Watches (m : Monitor O R σ) (s : σ) (x : Fallible O R ε α) (Q : σ → α → Prop)
    (E : σ → ε → Prop) : Prop :=
  ∀ t r, Runs x.run t r →
    m.Passes s t ∧ ∀ y, r = some y → Outcome (Q (m.after s t)) (E (m.after s t)) y

/-- A value or an error that is there already. -/
theorem Watches.ret {y : Except ε α} (h : Outcome (Q s) (E s) y) :
    Watches m s (ExceptT.mk (.ret y)) Q E := by
  intro t r hrun
  obtain ⟨rfl, rfl | rfl⟩ := runs_ret_iff.mp hrun
  · simp
  · simpa using h

theorem Watches.pure {a : α} (h : Q s a) : Watches m s (pure a : Fallible O R ε α) Q E :=
  .ret h

theorem Watches.throw {e : ε} (h : E s e) : Watches m s (throw e : Fallible O R ε α) Q E :=
  .ret h

/-- One operation whose answer is read as a value or as an error. -/
theorem Watches.op {o : O} {f : R o → Except ε α}
    (h : ∀ answer, m.allowed s ⟨o, answer⟩ ∧
      Outcome (Q (m.next s ⟨o, answer⟩)) (E (m.next s ⟨o, answer⟩)) (f answer)) :
    Watches m s (ExceptT.mk (.op o fun answer => .ret (f answer))) Q E := by
  intro t r hrun
  obtain ⟨rfl, rfl⟩ | ⟨answer, u, rfl, hu⟩ := runs_op_iff.mp hrun
  · simp
  · obtain ⟨rfl, rfl | rfl⟩ := runs_ret_iff.mp hu
    · simpa using (h answer).1
    · simpa using h answer

/-- **Watched sequences**: the second part is watched from the state the first one leaves. -/
theorem Watches.bind {x : Fallible O R ε α} {f : α → Fallible O R ε β} (hx : Watches m s x Q E)
    (hf : ∀ s' a, Q s' a → Watches m s' (f a) Q' E) : Watches m s (x >>= f) Q' E := by
  intro t r hrun
  obtain ⟨rfl, hx'⟩ | ⟨e, rfl, hx'⟩ | ⟨a, u, v, rfl, hu, hv⟩ := runs_run_bind hrun
  · exact ⟨(hx _ _ hx').1, by simp⟩
  · obtain ⟨hpass, herror⟩ := hx _ _ hx'
    refine ⟨hpass, fun y hy => ?_⟩
    cases hy
    exact herror _ rfl
  · obtain ⟨hpass, hok⟩ := hx _ _ hu
    obtain ⟨hpass', hrest⟩ := hf _ a (hok _ rfl) _ _ hv
    rw [Monitor.after_append]
    exact ⟨Monitor.passes_append.mpr ⟨hpass, hpass'⟩, hrest⟩

theorem Watches.mono {x : Fallible O R ε α} {Q₂ : σ → α → Prop} (h : Watches m s x Q E)
    (hQ : ∀ s a, Q s a → Q₂ s a) (hE : ∀ s e, E s e → E' s e) : Watches m s x Q₂ E' := by
  intro t r hrun
  obtain ⟨hpass, hresult⟩ := h t r hrun
  refine ⟨hpass, fun y hy => ?_⟩
  have hy' := hresult y hy
  cases y with
  | ok a => exact hQ _ a hy'
  | error e => exact hE _ e hy'

/-- A part whose failure is looked at, and not passed on. -/
theorem Watches.attempt {x : Fallible O R ε α} (h : Watches m s x Q E) :
    Watches m s (ExceptT.lift x.run : Fallible O R ε (Except ε α))
      (fun s' y => Outcome (Q s') (E s') y) E' := by
  intro t r hrun
  obtain ⟨rfl, hx⟩ | ⟨y, rfl, hx⟩ := runs_run_lift hrun
  · exact ⟨(h _ _ hx).1, by simp⟩
  · obtain ⟨hpass, hresult⟩ := h _ _ hx
    refine ⟨hpass, fun y' hy' => ?_⟩
    cases hy'
    exact hresult y rfl

end Proc

end KakuneCore

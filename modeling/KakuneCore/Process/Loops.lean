import KakuneCore.Process.Logic

/-!
# Loops of fallible processes

Runs of a sequence, put together from the runs of its parts, and `firstSome turn stop xs`, a `for`
loop whose body may return: it takes a turn for each `x` of `xs` until one returns a value, and does
`stop` when none has. A run of it is a sequence of runs of turns, one for each `x` it came to, in
the order of the list.
-/

namespace KakuneCore

namespace Proc

variable {O : Type} {R : O → Type} {ε α β γ : Type}

theorem bind_ret (p : Proc O R α) : p >>= Proc.ret = p := by
  induction p with
  | ret a => rfl
  | op o k ih => exact congrArg (Proc.op o) (funext ih)
  | fork p q k _ _ ih =>
    exact congrArg (Proc.fork p q) (funext fun a => funext fun b => ih a b)

theorem bind_bind (p : Proc O R α) (f : α → Proc O R β) (g : β → Proc O R γ) :
    p >>= f >>= g = p >>= fun a => f a >>= g := by
  induction p with
  | ret a => rfl
  | op o k ih => exact congrArg (Proc.op o) (funext fun a => ih a f)
  | fork p q k _ _ ih =>
    exact congrArg (Proc.fork p q) (funext fun a => funext fun b => ih a b f)

instance : LawfulMonad (Proc O R) :=
  LawfulMonad.mk' (Proc O R) bind_ret (fun _ _ => rfl) bind_bind

/-! ### Runs of a sequence, put together -/

theorem Runs.bind_ok {x : Fallible O R ε α} {f : α → Fallible O R ε β} {a : α} {u v : Trace O R}
    {r : Option (Except ε β)} (hx : Runs x.run u (some (.ok a))) (hf : Runs (f a).run v r) :
    Runs (x >>= f).run (u ++ v) r :=
  runs_bind_iff.mpr (.inr ⟨.ok a, u, v, rfl, hx, hf⟩)

/-- The second part does nothing. -/
theorem Runs.bind_last {x : Fallible O R ε α} {f : α → Fallible O R ε β} {a : α} {u : Trace O R}
    {r : Option (Except ε β)} (hx : Runs x.run u (some (.ok a))) (hf : Runs (f a).run [] r) :
    Runs (x >>= f).run u r := by
  have hrun := Runs.bind_ok hx hf
  rwa [List.append_nil] at hrun

theorem Runs.bind_error {x : Fallible O R ε α} {f : α → Fallible O R ε β} {e : ε} {u : Trace O R}
    (hx : Runs x.run u (some (.error e))) : Runs (x >>= f).run u (some (.error e)) := by
  have hthrow : Runs (throw e : Fallible O R ε β).run [] (some (.error e)) := .ret _
  have hrun : Runs (x >>= f).run (u ++ []) (some (.error e)) :=
    runs_bind_iff.mpr (.inr ⟨.error e, u, [], rfl, hx, hthrow⟩)
  rwa [List.append_nil] at hrun

/-! ### Turns until a result -/

section FirstSome

variable (turn : α → Fallible O R ε (Option β)) (stop : Fallible O R ε β)

/-- Take a turn for each element until one returns a value. -/
def firstSome : List α → Fallible O R ε β
  | [] => stop
  | x :: xs => do
    match ← turn x with
    | some b => pure b
    | none => firstSome xs

/-- `Turns turn xs t`: the trace `t` is made of runs of turns for the elements of `xs`, in order;
all but the last one have ended without a value. -/
inductive Turns : List α → Trace O R → Prop
  | nil : Turns [] []
  | last {x : α} {t : Trace O R} {r : Option (Except ε (Option β))} :
      Runs (turn x).run t r → Turns [x] t
  | next {x : α} {xs : List α} {t u : Trace O R} :
      Runs (turn x).run t (some (.ok none)) → Turns xs u → Turns (x :: xs) (t ++ u)

variable {turn stop}

theorem Turns.of_run {x : α} {xs : List α} {t : Trace O R} {r : Option (Except ε (Option β))}
    (h : Runs (turn x).run t r) : ∃ ys, ys <+: x :: xs ∧ Turns turn ys t :=
  ⟨[x], ⟨xs, rfl⟩, .last h⟩

/-- **Runs of a loop** whose end does nothing: turns for the first elements, in order. -/
theorem exists_turns {xs : List α} {t : Trace O R} {r : Option (Except ε β)}
    (h : Runs (firstSome turn stop xs).run t r) (hstop : ∀ t r, Runs stop.run t r → t = []) :
    ∃ ys, ys <+: xs ∧ Turns turn ys t := by
  induction xs generalizing t r with
  | nil => exact ⟨[], List.prefix_refl _, by rw [hstop t r h]; exact .nil⟩
  | cons x xs ih =>
    obtain ⟨rfl, hcut⟩ | ⟨e, rfl, hfail⟩ | ⟨result, u, v, rfl, hturn, hrest⟩ := runs_run_bind h
    · exact Turns.of_run hcut
    · exact Turns.of_run hfail
    · cases result with
      | some b =>
        obtain ⟨rfl, -⟩ := runs_run_pure.mp hrest
        rw [List.append_nil]
        exact Turns.of_run hturn
      | none =>
        obtain ⟨ys, hys, hturns⟩ := ih hrest
        exact ⟨x :: ys, (List.prefix_cons_inj x).mpr hys, .next hturn hturns⟩

end FirstSome

end Proc

end KakuneCore

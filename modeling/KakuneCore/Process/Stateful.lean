import KakuneCore.Process.Logic

/-!
# Stateful processes

`Stateful σ O R ε α` is a process that carries a state of its own and may end in an error; the
**state survives the error**, so that whoever handles it goes on from where the process failed.
-/

namespace KakuneCore

/-- A process with a state that survives its errors. -/
abbrev Stateful (σ : Type) (O : Type) (R : O → Type) (ε α : Type) : Type 1 :=
  ExceptT ε (StateT σ (Proc O R)) α

namespace Stateful

variable {σ O : Type} {R : O → Type} {ε α β : Type}

/-- What a process does from a state. -/
def exec (x : Stateful σ O R ε α) (s : σ) : Proc O R (Except ε α × σ) := x.run.run s

/-- One operation. -/
def perform (o : O) : Stateful σ O R ε (R o) :=
  ExceptT.mk fun s => .op o fun answer => .ret (.ok answer, s)

/-- A look at the state. -/
def query (f : σ → Except ε α) : Stateful σ O R ε α := ExceptT.mk fun s => .ret (f s, s)

def update (f : σ → σ) : Stateful σ O R ε Unit := ExceptT.mk fun s => .ret (.ok (), f s)

variable {x : Stateful σ O R ε α} {f : α → Stateful σ O R ε β} {s : σ}

/-- The second part runs where the first one has returned. -/
def resume (f : α → Stateful σ O R ε β) : Except ε α × σ → Proc O R (Except ε β × σ)
  | (.ok a, s) => (f a).exec s
  | (.error e, s) => .ret (.error e, s)

theorem exec_bind : exec (x >>= f) s = x.exec s >>= resume f := by
  change x.exec s >>= _ = _
  congr 1
  funext outcome
  obtain ⟨result | result, state⟩ := outcome <;> rfl

@[simp]
theorem exec_pure_bind {a : α} : exec (pure a >>= f) s = (f a).exec s := rfl

@[simp]
theorem exec_update_bind {g : σ → σ} {f : Unit → Stateful σ O R ε β} :
    exec (update g >>= f) s = (f ()).exec (g s) := rfl

theorem exec_bind_of_ret {a : α} {s' : σ} (hx : x.exec s = .ret (.ok a, s')) :
    exec (x >>= f) s = (f a).exec s' := by
  rw [exec_bind, hx]
  rfl

/-! ### Runs -/

/-- **Runs of a sequence**: the first part is cut off, or fails, or hands its value and its state to
the second part. -/
theorem runs_bind {t : Trace O R} {r : Option (Except ε β × σ)}
    (hrun : Proc.Runs (exec (x >>= f) s) t r) :
    (r = none ∧ Proc.Runs (x.exec s) t none) ∨
      (∃ e s', r = some (.error e, s') ∧ Proc.Runs (x.exec s) t (some (.error e, s'))) ∨
        ∃ a s' u v, t = u ++ v ∧ Proc.Runs (x.exec s) u (some (.ok a, s')) ∧
          Proc.Runs ((f a).exec s') v r := by
  rw [exec_bind] at hrun
  obtain ⟨rfl, hx⟩ | ⟨⟨result, s'⟩, u, v, rfl, hu, hv⟩ := Proc.runs_bind_iff.mp hrun
  · exact .inl ⟨rfl, hx⟩
  · cases result with
    | ok a => exact .inr (.inr ⟨a, s', u, v, rfl, hu, hv⟩)
    | error e =>
      obtain ⟨rfl, rfl | rfl⟩ := Proc.runs_ret_iff.mp hv
      · exact .inl ⟨rfl, by rw [List.append_nil]; exact hu.cutOff⟩
      · exact .inr (.inl ⟨e, s', rfl, by rw [List.append_nil]; exact hu⟩)

end Stateful

end KakuneCore

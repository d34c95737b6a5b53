import KakuneCore.Process.Logic

/-!
# Credits

A weight gives every event a positive or negative amount. `Credit w k p` says that a finished run of
`p` **never spends more than `k`**: its balance is at least `-k`. Counting one kind of event against
another is a statement of this form, it composes along sequences and thread pools, and it passes to
the runs that were cut off as soon as the environment can refuse to earn (`Credit.cut`).
-/

namespace KakuneCore

namespace Proc

variable {O : Type} {R : O → Type} {α β ε : Type} {w : Event O R → ℤ} {k : ℤ}

/-- The balance of a trace. -/
def balance (w : Event O R → ℤ) (t : Trace O R) : ℤ := (t.map w).sum

@[simp]
theorem balance_nil : balance w [] = 0 := rfl

@[simp]
theorem balance_cons (e : Event O R) (t : Trace O R) :
    balance w (e :: t) = w e + balance w t := by
  simp [balance]

@[simp]
theorem balance_append (u v : Trace O R) : balance w (u ++ v) = balance w u + balance w v := by
  simp [balance]

theorem balance_interleave {u v t : Trace O R} (h : Interleave u v t) :
    balance w t = balance w u + balance w v := by
  rw [← balance_append]
  exact (h.perm.map _).sum_eq

theorem balance_nonneg {t : Trace O R} (h : ∀ e ∈ t, 0 ≤ w e) : 0 ≤ balance w t := by
  refine List.sum_nonneg fun n hn => ?_
  obtain ⟨e, he, rfl⟩ := List.mem_map.mp hn
  exact h e he

theorem balance_nonpos {t : Trace O R} (h : ∀ e ∈ t, w e ≤ 0) : balance w t ≤ 0 := by
  induction t with
  | nil => simp
  | cons e t ih =>
    rw [balance_cons]
    have he := h e List.mem_cons_self
    have ht := ih fun e' he' => h e' (List.mem_cons_of_mem _ he')
    omega

/-- The weight that counts the events of a kind. -/
def indicator (p : Event O R → Bool) (e : Event O R) : ℤ := if p e then 1 else 0

theorem indicator_nonneg (p : Event O R → Bool) (e : Event O R) : 0 ≤ indicator p e := by
  unfold indicator
  split <;> omega

theorem balance_indicator (p : Event O R → Bool) (t : Trace O R) :
    balance (indicator p) t = t.countP p := by
  induction t with
  | nil => rfl
  | cons e t ih =>
    rw [balance_cons, ih, List.countP_cons, indicator]
    split <;> push_cast <;> omega

theorem balance_add (w w' : Event O R → ℤ) (t : Trace O R) :
    balance (fun e => w e + w' e) t = balance w t + balance w' t := by
  induction t with
  | nil => rfl
  | cons e t ih =>
    rw [balance_cons, balance_cons, balance_cons, ih]
    omega

theorem balance_sub (w w' : Event O R → ℤ) (t : Trace O R) :
    balance (fun e => w e - w' e) t = balance w t - balance w' t := by
  induction t with
  | nil => rfl
  | cons e t ih =>
    rw [balance_cons, balance_cons, balance_cons, ih]
    omega

theorem balance_neg (w : Event O R → ℤ) (t : Trace O R) :
    balance (fun e => -w e) t = -balance w t := by
  induction t with
  | nil => rfl
  | cons e t ih =>
    rw [balance_cons, balance_cons, ih]
    omega

theorem balance_mul (n : ℤ) (w : Event O R → ℤ) (t : Trace O R) :
    balance (fun e => n * w e) t = n * balance w t := by
  induction t with
  | nil => simp
  | cons e t ih =>
    rw [balance_cons, balance_cons, ih]
    ring

/-- A finished run never spends more than `k`. -/
def Credit (w : Event O R → ℤ) (k : ℤ) (p : Proc O R α) : Prop :=
  ∀ t a, Runs p t (some a) → 0 ≤ k + balance w t

theorem Credit.ret {a : α} (hk : 0 ≤ k) : Credit w k (.ret a : Proc O R α) := by
  intro t b hrun
  obtain ⟨rfl, -⟩ := runs_ret_iff.mp hrun
  simpa using hk

theorem Credit.op {o : O} {f : R o → Proc O R α} (h : ∀ x, Credit w (k + w ⟨o, x⟩) (f x)) :
    Credit w k (.op o f) := by
  intro t a hrun
  obtain ⟨-, hr⟩ | ⟨x, t', rfl, hrest⟩ := runs_op_iff.mp hrun
  · cases hr
  · have := h x t' a hrest
    rw [balance_cons]
    omega

theorem Credit.mono {p : Proc O R α} {k' : ℤ} (h : Credit w k p) (hk : k ≤ k') :
    Credit w k' p := by
  intro t a hrun
  have := h t a hrun
  omega

/-- A sequence, where the second part may rely on the first having run. -/
theorem Credit.bind_runs {p : Proc O R α} {f : α → Proc O R β} {k' : ℤ} (hp : Credit w k p)
    (hf : ∀ t a, Runs p t (some a) → Credit w k' (f a)) : Credit w (k + k') (p >>= f) := by
  intro t b hrun
  obtain ⟨hr, -⟩ | ⟨a, u, v, rfl, hu, hv⟩ := runs_bind_iff.mp hrun
  · cases hr
  · have h₁ := hp u a hu
    have h₂ := hf u a hu v b hv
    rw [balance_append]
    omega

theorem Credit.bind {p : Proc O R α} {f : α → Proc O R β} {k' : ℤ} (hp : Credit w k p)
    (hf : ∀ a, Credit w k' (f a)) : Credit w (k + k') (p >>= f) :=
  Credit.bind_runs hp fun _ a _ => hf a

/-- A pool spends no more than its threads together. -/
theorem Credit.parallel {ι : Type} {xs : List ι} {f : ι → Proc O R α} {cost : ι → ℤ}
    (h : ∀ x ∈ xs, Credit w (cost x) (f x)) :
    Credit w (xs.map cost).sum (Proc.parallel (xs.map f)) := by
  induction xs with
  | nil => exact .ret (by simp)
  | cons x xs ih =>
    intro t as hrun
    cases hrun with
    | @fork _ _ _ _ _ _ u v t t' a b _ hu hv hi hk =>
      obtain ⟨rfl, -⟩ := runs_ret_iff.mp hk
      have h₁ := h x List.mem_cons_self u a hu
      have h₂ := ih (fun y hy => h y (List.mem_cons_of_mem _ hy)) v b hv
      rw [List.append_nil, balance_interleave hi, List.map_cons, List.sum_cons]
      omega

theorem Credit.of_only {p : Proc O R α} {P : O → Prop} (hp : p.Only P)
    (h : ∀ e : Event O R, P e.1 → 0 ≤ w e) : Credit w 0 p := by
  intro t a hrun
  have := balance_nonneg fun e he => h e (hrun.mem_only hp e he)
  omega

/-- **Cut runs**: when some answers earn nothing, no run spends more than its credit. -/
theorem Credit.cut {p : Proc O R α} (h : Credit w k p) {t : Trace O R} {r : Option α}
    (hrun : Runs p t r) (answer : (o : O) → R o) (hanswer : ∀ o, w ⟨o, answer o⟩ ≤ 0) :
    0 ≤ k + balance w t := by
  obtain ⟨u, a, hfull, hu⟩ := hrun.complete answer
  have hrest : balance w u ≤ 0 := by
    refine balance_nonpos fun e he => ?_
    have := hanswer e.1
    rwa [← hu e he] at this
  have := h (t ++ u) a hfull
  rw [balance_append] at this
  omega

/-! ### Fallible processes -/

theorem Credit.run_pure {a : α} (hk : 0 ≤ k) : Credit w k (pure a : Fallible O R ε α).run :=
  .ret hk

theorem Credit.run_throw {e : ε} (hk : 0 ≤ k) : Credit w k (throw e : Fallible O R ε α).run :=
  .ret hk

/-- A sequence, where the second part may rely on the value of the first. -/
theorem Credit.run_bind_runs {x : Fallible O R ε α} {f : α → Fallible O R ε β} {k' : ℤ}
    (hx : Credit w k x.run)
    (hf : ∀ t a, Runs x.run t (some (.ok a)) → Credit w k' (f a).run) (hk' : 0 ≤ k') :
    Credit w (k + k') (x >>= f).run := by
  refine Credit.bind_runs hx fun t result hrun => ?_
  cases result with
  | ok a => exact hf t a hrun
  | error e => exact .ret hk'

theorem Credit.run_bind {x : Fallible O R ε α} {f : α → Fallible O R ε β} {k' : ℤ}
    (hx : Credit w k x.run) (hf : ∀ a, Credit w k' (f a).run) (hk' : 0 ≤ k') :
    Credit w (k + k') (x >>= f).run :=
  Credit.run_bind_runs hx (fun _ a _ => hf a) hk'

/-- A step that spends nothing before a process. -/
theorem Credit.run_then {x : Fallible O R ε α} {f : α → Fallible O R ε β} (hk : 0 ≤ k)
    (hx : Credit w 0 x.run) (hf : ∀ a, Credit w k (f a).run) : Credit w k (x >>= f).run :=
  (Credit.run_bind hx hf hk).mono (by omega)

theorem Credit.run_lift {p : Proc O R α} (h : Credit w k p) :
    Credit w k (ExceptT.lift p : Fallible O R ε α).run :=
  (Credit.bind h fun _ => .ret le_rfl).mono (by omega)

/-- `Pays w k l x`: a finished run of `x` spends at most `k` for a value and at most `l` for a
failure. -/
def Pays (w : Event O R → ℤ) (k l : ℤ) (x : Fallible O R ε α) : Prop :=
  (∀ t a, Runs x.run t (some (.ok a)) → 0 ≤ k + balance w t) ∧
    ∀ t e, Runs x.run t (some (.error e)) → 0 ≤ l + balance w t

variable {l : ℤ}

theorem Pays.pure {a : α} (hk : 0 ≤ k) : Pays w k l (pure a : Fallible O R ε α) := by
  constructor
  · intro t b hrun
    obtain ⟨rfl, -⟩ := runs_run_pure.mp hrun
    simpa using hk
  · intro t e hrun
    obtain ⟨-, h | h⟩ := runs_run_pure.mp hrun
    · cases h
    · cases h

theorem Pays.throw {e : ε} (hl : 0 ≤ l) : Pays w k l (throw e : Fallible O R ε α) := by
  constructor
  · intro t a hrun
    obtain ⟨-, h | h⟩ := runs_run_throw.mp hrun
    · cases h
    · cases h
  · intro t e' hrun
    obtain ⟨rfl, -⟩ := runs_run_throw.mp hrun
    simpa using hl

theorem Pays.mono {x : Fallible O R ε α} {k' l' : ℤ} (h : Pays w k l x) (hk : k ≤ k')
    (hl : l ≤ l') : Pays w k' l' x := by
  constructor
  · intro t a hrun
    have := h.1 t a hrun
    omega
  · intro t e hrun
    have := h.2 t e hrun
    omega

theorem Credit.pays {x : Fallible O R ε α} (h : Credit w k x.run) : Pays w k k x :=
  ⟨fun t a => h t (.ok a), fun t e => h t (.error e)⟩

theorem Pays.bind {x : Fallible O R ε α} {f : α → Fallible O R ε β} {k' l' m : ℤ}
    (hx : Pays w k l x) (hf : ∀ a, Pays w k' l' (f a)) (hl : l ≤ m) (hm : k + l' ≤ m) :
    Pays w (k + k') m (x >>= f) := by
  constructor
  · intro t b hrun
    obtain ⟨h, -⟩ | ⟨e, h, -⟩ | ⟨a, u, v, rfl, hu, hv⟩ := runs_run_bind hrun
    · cases h
    · cases h
    have h₁ := hx.1 u a hu
    have h₂ := (hf a).1 v b hv
    rw [balance_append]
    omega
  · intro t e hrun
    obtain ⟨h, -⟩ | ⟨e', -, hfail⟩ | ⟨a, u, v, rfl, hu, hv⟩ := runs_run_bind hrun
    · cases h
    · have := hx.2 t e' hfail
      omega
    · have h₁ := hx.1 u a hu
      have h₂ := (hf a).2 v e hv
      rw [balance_append]
      omega

/-- A step that spends nothing before a process. -/
theorem Pays.then {x : Fallible O R ε α} {f : α → Fallible O R ε β} (hl : 0 ≤ l)
    (hx : Credit w 0 x.run) (hf : ∀ a, Pays w k l (f a)) : Pays w k l (x >>= f) :=
  (Pays.bind hx.pays hf hl (by omega)).mono (by omega) le_rfl

/-- What is done with the result of a process, whether it is a value or a failure. -/
theorem Pays.run_bind {x : Fallible O R ε α} {f : Except ε α → Proc O R β} {m : ℤ}
    (hx : Pays w k l x) (hok : ∀ a, Credit w (m - k) (f (.ok a)))
    (herror : ∀ e, Credit w (m - l) (f (.error e))) : Credit w m (x.run >>= f) := by
  intro t r hrun
  obtain ⟨h, -⟩ | ⟨result, u, v, rfl, hu, hv⟩ := runs_bind_iff.mp hrun
  · cases h
  rw [balance_append]
  cases result with
  | ok a =>
    have h₁ := hx.1 u a hu
    have h₂ := hok a v r hv
    omega
  | error e =>
    have h₁ := hx.2 u e hu
    have h₂ := herror e v r hv
    omega

end Proc

end KakuneCore

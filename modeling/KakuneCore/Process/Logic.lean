import KakuneCore.Process.Basic

/-!
# Reasoning about fallible processes

`Fallible O R ε` is a process that may end in an error. This file gives the inversion of its
sequential composition, **contracts** (what a run may assume of its events, what it guarantees of
each of them, and a tally of them that does not depend on the interleaving), and the
**simulation** that turns an environment into a run, so that concrete runs can be computed.
-/

namespace KakuneCore

/-- A process that ends with a value or with an error. -/
abbrev Fallible (O : Type) (R : O → Type) (ε : Type) : Type → Type 1 := ExceptT ε (Proc O R)

namespace Proc

variable {O : Type} {R : O → Type} {ε α β : Type}

/-! ### Inversion -/

theorem runs_run_pure {a : α} {t : Trace O R} {r : Option (Except ε α)} :
    Runs (pure a : Fallible O R ε α).run t r ↔ t = [] ∧ (r = none ∨ r = some (.ok a)) :=
  runs_ret_iff

theorem runs_run_throw {e : ε} {t : Trace O R} {r : Option (Except ε α)} :
    Runs (throw e : Fallible O R ε α).run t r ↔ t = [] ∧ (r = none ∨ r = some (.error e)) :=
  runs_ret_iff

/-- **Runs of a fallible sequence**: the first part is cut off, or fails, or hands its value to
the second part. -/
theorem runs_run_bind {x : Fallible O R ε α} {f : α → Fallible O R ε β} {t : Trace O R}
    {r : Option (Except ε β)} (h : Runs (x >>= f).run t r) :
    (r = none ∧ Runs x.run t none) ∨
      (∃ e, r = some (.error e) ∧ Runs x.run t (some (.error e))) ∨
        ∃ a u v, t = u ++ v ∧ Runs x.run u (some (.ok a)) ∧ Runs (f a).run v r := by
  obtain ⟨rfl, hx⟩ | ⟨res, u, v, rfl, hu, hv⟩ := runs_bind_iff.mp h
  · exact .inl ⟨rfl, hx⟩
  · cases res with
    | ok a => exact .inr (.inr ⟨a, u, v, rfl, hu, hv⟩)
    | error e =>
      obtain ⟨rfl, rfl | rfl⟩ := runs_ret_iff.mp hv
      · exact .inl ⟨rfl, by rw [List.append_nil]; exact hu.cutOff⟩
      · exact .inr (.inl ⟨e, rfl, by rw [List.append_nil]; exact hu⟩)

/-- A sequence that ends with a value has gone through both parts. -/
theorem runs_run_bind_ok {x : Fallible O R ε α} {f : α → Fallible O R ε β} {t : Trace O R} {b : β}
    (h : Runs (x >>= f).run t (some (.ok b))) :
    ∃ a u v, t = u ++ v ∧ Runs x.run u (some (.ok a)) ∧ Runs (f a).run v (some (.ok b)) := by
  obtain ⟨h, -⟩ | ⟨e, h, -⟩ | h := runs_run_bind h
  · cases h
  · cases h
  · exact h

theorem not_runs_run_throw_ok {e : ε} {t : Trace O R} {a : α} :
    ¬ Runs (throw e : Fallible O R ε α).run t (some (.ok a)) := by
  intro h
  obtain ⟨-, h | h⟩ := runs_run_throw.mp h
  · cases h
  · cases h

/-- A process lifted into the fallible ones never fails. -/
theorem runs_run_lift {p : Proc O R α} {t : Trace O R} {r : Option (Except ε α)}
    (h : Runs (ExceptT.lift p : Fallible O R ε α).run t r) :
    (r = none ∧ Runs p t none) ∨ ∃ a, r = some (.ok a) ∧ Runs p t (some a) := by
  obtain ⟨rfl, hp⟩ | ⟨a, u, v, rfl, hu, hv⟩ := runs_bind_iff.mp h
  · exact .inl ⟨rfl, hp⟩
  · obtain ⟨rfl, rfl | rfl⟩ := runs_ret_iff.mp hv
    · exact .inl ⟨rfl, by simpa using hu.cutOff⟩
    · exact .inr ⟨a, rfl, by simpa using hu⟩

/-! ### Contracts -/

/-- What a run may rely on, what each of its events must satisfy, and what each of its events
counts for in a commutative monoid `M`. -/
structure Contract (O : Type) (R : O → Type) (M : Type) where
  assume : Event O R → Prop
  ensure : Event O R → Prop
  tally : Event O R → M

section Contracts

variable {M : Type} [AddCommMonoid M]

/-- The tally of a whole trace. -/
def Contract.total (c : Contract O R M) (t : Trace O R) : M := (t.map c.tally).sum

variable {c : Contract O R M}

@[simp]
theorem Contract.total_nil : c.total [] = 0 := rfl

@[simp]
theorem Contract.total_cons (e : Event O R) (t : Trace O R) :
    c.total (e :: t) = c.tally e + c.total t := by
  simp [Contract.total]

@[simp]
theorem Contract.total_append (u v : Trace O R) : c.total (u ++ v) = c.total u + c.total v := by
  simp [Contract.total]

theorem Contract.total_interleave {u v t : Trace O R} (h : Interleave u v t) :
    c.total t = c.total u + c.total v := by
  rw [← Contract.total_append]
  exact (h.perm.map _).sum_eq

/-- `Meets c p Q`: in every run of `p` whose events all satisfy the assumption, every event
satisfies the guarantee, and a result satisfies `Q` together with the tally of the run. -/
def Meets (c : Contract O R M) (p : Proc O R α) (Q : M → α → Prop) : Prop :=
  ∀ t r, Runs p t r → (∀ e ∈ t, c.assume e) →
    (∀ e ∈ t, c.ensure e) ∧ ∀ a, r = some a → Q (c.total t) a

variable {Q : M → α → Prop} {Q' : M → β → Prop}

theorem Meets.ret {a : α} (h : Q 0 a) : Meets c (.ret a) Q := by
  intro t r hrun _
  obtain ⟨rfl, hr⟩ := runs_ret_iff.mp hrun
  refine ⟨by simp, fun b hb => ?_⟩
  rcases hr with rfl | rfl
  · cases hb
  · cases hb; exact h

theorem Meets.call {o : O} {Q : M → R o → Prop}
    (h : ∀ a, c.assume ⟨o, a⟩ → c.ensure ⟨o, a⟩ ∧ Q (c.tally ⟨o, a⟩) a) :
    Meets c (Proc.call o) Q := by
  intro t r hrun hA
  obtain ⟨rfl, rfl⟩ | ⟨a, rfl, hr⟩ := runs_call_iff.mp hrun
  · simp
  · obtain ⟨hG, hQ⟩ := h a (hA _ (by simp))
    refine ⟨by simpa using hG, fun b hb => ?_⟩
    rcases hr with rfl | rfl
    · cases hb
    · cases hb; simpa using hQ

theorem Meets.bind {p : Proc O R α} {f : α → Proc O R β} (hp : Meets c p Q)
    (hf : ∀ m a, Q m a → Meets c (f a) fun m' b => Q' (m + m') b) : Meets c (p >>= f) Q' := by
  intro t r hrun hA
  obtain ⟨rfl, hr⟩ | ⟨a, u, v, rfl, hu, hv⟩ := runs_bind_iff.mp hrun
  · exact ⟨(hp _ _ hr hA).1, by simp⟩
  · have hAu : ∀ e ∈ u, c.assume e := fun e he => hA e (List.mem_append_left _ he)
    have hAv : ∀ e ∈ v, c.assume e := fun e he => hA e (List.mem_append_right _ he)
    obtain ⟨hGu, hQ⟩ := hp _ _ hu hAu
    obtain ⟨hGv, hQ'⟩ := hf _ a (hQ a rfl) _ _ hv hAv
    refine ⟨fun e he => ?_, fun b hb => by simpa using hQ' b hb⟩
    rcases List.mem_append.mp he with he | he
    · exact hGu e he
    · exact hGv e he

theorem Meets.mono {p : Proc O R α} {Q₂ : M → α → Prop} (hp : Meets c p Q)
    (h : ∀ m a, Q m a → Q₂ m a) : Meets c p Q₂ :=
  fun t r hr hA => ⟨(hp t r hr hA).1, fun a ha => h _ a ((hp t r hr hA).2 a ha)⟩

/-- What the threads of a pool deliver: one result for each thread, and the sum of the
tallies. -/
inductive Pool : List (M → α → Prop) → M → List α → Prop
  | nil : Pool [] 0 []
  | cons {Q : M → α → Prop} {Qs : List (M → α → Prop)} {m m' : M} {a : α} {as : List α} :
      Q m a → Pool Qs m' as → Pool (Q :: Qs) (m + m') (a :: as)

/-- A thread pool meets a contract when each thread does. -/
theorem Meets.parallel {ps : List (Proc O R α)} {Qs : List (M → α → Prop)}
    (h : List.Forall₂ (fun p Q => Meets c p Q) ps Qs) : Meets c (Proc.parallel ps) (Pool Qs) := by
  induction h with
  | nil => exact .ret .nil
  | @cons p Q ps Qs hp _ ih =>
    intro t r hr hA
    cases hr with
    | cut => simp
    | @forkCut _ _ _ _ _ _ u v _ _ _ hu hv hi =>
      have hG := (hp _ _ hu fun e he => hA e (hi.mem_iff.mpr (.inl he))).1
      have hG' := (ih _ _ hv fun e he => hA e (hi.mem_iff.mpr (.inr he))).1
      refine ⟨fun e he => ?_, by simp⟩
      rcases hi.mem_iff.mp he with he | he
      · exact hG e he
      · exact hG' e he
    | @fork _ _ _ _ _ _ u v t t' a b _ hu hv hi hk =>
      obtain ⟨rfl, hr⟩ := runs_ret_iff.mp hk
      rw [List.append_nil] at hA ⊢
      obtain ⟨hG, hQ⟩ := hp _ _ hu fun e he => hA e (hi.mem_iff.mpr (.inl he))
      obtain ⟨hG', hQs⟩ := ih _ _ hv fun e he => hA e (hi.mem_iff.mpr (.inr he))
      refine ⟨fun e he => ?_, fun rs hrs => ?_⟩
      · rcases hi.mem_iff.mp he with he | he
        · exact hG e he
        · exact hG' e he
      · rcases hr with rfl | rfl
        · cases hrs
        · cases hrs
          rw [Contract.total_interleave hi]
          exact .cons (hQ a rfl) (hQs b rfl)

/-- A process whose operations all satisfy the guarantee and count for nothing. -/
theorem Meets.of_only {p : Proc O R α} {P : O → Prop} (hp : p.Only P)
    (h : ∀ e : Event O R, P e.1 → c.assume e → c.ensure e ∧ c.tally e = 0) :
    Meets c p fun m _ => m = 0 := by
  intro t r hr hA
  have hmem := hr.mem_only hp
  refine ⟨fun e he => (h e (hmem e he) (hA e he)).1, fun a _ => List.sum_eq_zero ?_⟩
  intro x hx
  obtain ⟨e, he, rfl⟩ := List.mem_map.mp hx
  exact (h e (hmem e he) (hA e he)).2

/-! ### Contracts of fallible processes -/

/-- `Ensures c x Q E`: a contract with one postcondition for the values and one for the errors. -/
def Ensures (c : Contract O R M) (x : Fallible O R ε α) (Q : M → α → Prop) (E : M → ε → Prop) :
    Prop :=
  Meets c x.run fun m result => match result with
    | .ok a => Q m a
    | .error e => E m e

variable {E : M → ε → Prop}

theorem Ensures.pure {a : α} (h : Q 0 a) : Ensures c (pure a : Fallible O R ε α) Q E :=
  Meets.ret h

theorem Ensures.throw {e : ε} (h : E 0 e) : Ensures c (throw e : Fallible O R ε α) Q E :=
  Meets.ret h

theorem Ensures.bind {E' : M → ε → Prop} {x : Fallible O R ε α} {f : α → Fallible O R ε β}
    (hx : Ensures c x Q E)
    (hf : ∀ m a, Q m a →
      Ensures c (f a) (fun m' b => Q' (m + m') b) fun m' e => E' (m + m') e)
    (hE : ∀ m e, E m e → E' m e) : Ensures c (x >>= f) Q' E' := by
  refine Meets.bind hx fun m result h => ?_
  cases result with
  | ok a => exact hf m a h
  | error e => exact Meets.ret (by simpa using hE m e h)

theorem Ensures.mono {x : Fallible O R ε α} {Q₂ : M → α → Prop} {E₂ : M → ε → Prop}
    (hx : Ensures c x Q E) (hQ : ∀ m a, Q m a → Q₂ m a) (hE : ∀ m e, E m e → E₂ m e) :
    Ensures c x Q₂ E₂ := by
  refine Meets.mono hx fun m result h => ?_
  cases result with
  | ok a => exact hQ m a h
  | error e => exact hE m e h

theorem Ensures.lift {p : Proc O R α} (h : Meets c p Q) :
    Ensures c (ExceptT.lift p : Fallible O R ε α) Q E :=
  Meets.bind h fun _ a ha => Meets.ret (by simpa using ha)

/-! ### Quiet processes -/

/-- The two postconditions of a fallible process, joined. -/
def Outcome (Q : α → Prop) (E : ε → Prop) : Except ε α → Prop
  | .ok a => Q a
  | .error e => E e

/-- `Quietly c x Q E`: a contract of a process that counts for nothing. -/
def Quietly (c : Contract O R M) (x : Fallible O R ε α) (Q : α → Prop) (E : ε → Prop) : Prop :=
  Meets c x.run fun m result => m = 0 ∧ Outcome Q E result

/-- An operation whose events satisfy the guarantee and count for nothing. -/
def Contract.Quiet (c : Contract O R M) (o : O) : Prop :=
  ∀ a, c.assume ⟨o, a⟩ → c.ensure ⟨o, a⟩ ∧ c.tally ⟨o, a⟩ = 0

section Quiet

variable {Q : α → Prop} {Q' : β → Prop} {E : ε → Prop}

theorem Meets.quiet_call {o : O} (h : c.Quiet o) :
    Meets c (Proc.call o) fun m (_ : R o) => m = 0 :=
  Meets.call h

/-- A pool of quiet threads is quiet, and its results come in the order of the threads. -/
theorem Meets.parallel_map {ι : Type*} {xs : List ι} {p : ι → Proc O R α} {Q : ι → α → Prop}
    (h : ∀ x ∈ xs, Meets c (p x) fun m a => m = 0 ∧ Q x a) :
    Meets c (Proc.parallel (xs.map p)) fun m as => m = 0 ∧ List.Forall₂ Q xs as := by
  have hall : List.Forall₂ (fun p Q => Meets c p Q) (xs.map p)
      (xs.map fun x m a => m = 0 ∧ Q x a) := by
    rw [List.forall₂_map_left_iff, List.forall₂_map_right_iff, List.forall₂_same]
    exact h
  refine (Meets.parallel hall).mono fun m as hpool => ?_
  clear h hall
  induction xs generalizing m as with
  | nil => cases hpool; exact ⟨rfl, .nil⟩
  | cons x xs ih =>
    cases hpool with
    | cons hQ hrest =>
      obtain ⟨rfl, hrs⟩ := ih _ _ hrest
      exact ⟨by rw [hQ.1, add_zero], .cons hQ.2 hrs⟩

/-- A pool of quiet threads is quiet. -/
theorem Meets.quiet_parallel {ps : List (Proc O R α)}
    (h : ∀ p ∈ ps, Meets c p fun m a => m = 0 ∧ Q a) :
    Meets c (Proc.parallel ps) fun m as => m = 0 ∧ ∀ a ∈ as, Q a := by
  have hpool : Meets c (Proc.parallel (ps.map id)) fun m as =>
      m = 0 ∧ List.Forall₂ (fun _ a => Q a) ps as := Meets.parallel_map h
  rw [List.map_id] at hpool
  refine hpool.mono fun m as hrs => ⟨hrs.1, ?_⟩
  have hall : List.Forall₂ (fun a _ => Q a ∧ True) as ps :=
    hrs.2.flip.imp fun _ _ hQ => ⟨hQ, trivial⟩
  exact ((List.forall₂_and_left as ps).mp hall).1

theorem Quietly.pure {a : α} (h : Q a) : Quietly c (pure a : Fallible O R ε α) Q E :=
  Meets.ret ⟨rfl, h⟩

theorem Quietly.throw {e : ε} (h : E e) : Quietly c (throw e : Fallible O R ε α) Q E :=
  Meets.ret ⟨rfl, h⟩

theorem Quietly.bind {x : Fallible O R ε α} {f : α → Fallible O R ε β} (hx : Quietly c x Q E)
    (hf : ∀ a, Q a → Quietly c (f a) Q' E) : Quietly c (x >>= f) Q' E := by
  refine Meets.bind hx fun m result h => ?_
  obtain ⟨rfl, h⟩ := h
  simp only [zero_add]
  cases result with
  | ok a => exact hf a h
  | error e => exact Meets.ret ⟨rfl, h⟩

theorem Quietly.mono {x : Fallible O R ε α} {Q₂ : α → Prop} {E₂ : ε → Prop}
    (hx : Quietly c x Q E) (hQ : ∀ a, Q a → Q₂ a) (hE : ∀ e, E e → E₂ e) :
    Quietly c x Q₂ E₂ := by
  refine Meets.mono hx fun m result h => ⟨h.1, ?_⟩
  cases result with
  | ok a => exact hQ a h.2
  | error e => exact hE e h.2

theorem Quietly.lift {p : Proc O R α} (h : Meets c p fun m a => m = 0 ∧ Q a) :
    Quietly c (ExceptT.lift p : Fallible O R ε α) Q E := by
  refine Meets.bind h fun m a ha => Meets.ret ?_
  exact ⟨by simp [ha.1], ha.2⟩

theorem Quietly.ensures {x : Fallible O R ε α} (h : Quietly c x Q E) :
    Ensures c x (fun m a => m = 0 ∧ Q a) fun m e => m = 0 ∧ E e := by
  refine Meets.mono h fun m result hr => ?_
  cases result with
  | ok a => exact hr
  | error e => exact hr

theorem Ensures.quietly {x : Fallible O R ε α}
    (h : Ensures c x (fun m a => m = 0 ∧ Q a) fun m e => m = 0 ∧ E e) : Quietly c x Q E := by
  refine Meets.mono h fun m result hr => ?_
  cases result with
  | ok a => exact hr
  | error e => exact hr

/-- A result comes with the run that produced it. -/
theorem Quietly.with_run {x : Fallible O R ε α} (h : Quietly c x Q E) :
    Quietly c x (fun a => Q a ∧ ∃ t, Runs x.run t (some (.ok a)))
      fun e => E e ∧ ∃ t, Runs x.run t (some (.error e)) := by
  intro t r hr hA
  obtain ⟨hG, hQ⟩ := h t r hr hA
  refine ⟨hG, fun result hresult => ?_⟩
  obtain ⟨hm, hout⟩ := hQ result hresult
  subst hresult
  cases result with
  | ok a => exact ⟨hm, hout, t, hr⟩
  | error e => exact ⟨hm, hout, t, hr⟩

/-- A quiet step before a process. -/
theorem Quietly.then {x : Fallible O R ε α} {f : α → Fallible O R ε β} {Q' : M → β → Prop}
    {E' : M → ε → Prop} (hx : Quietly c x Q E) (hf : ∀ a, Q a → Ensures c (f a) Q' E')
    (hE : ∀ e, E e → E' 0 e) : Ensures c (x >>= f) Q' E' := by
  refine Ensures.bind hx.ensures (fun m a h => ?_) fun m e h => ?_
  · obtain ⟨rfl, h⟩ := h
    simpa only [zero_add] using hf a h
  · obtain ⟨rfl, h⟩ := h
    exact hE e h

end Quiet

end Contracts

/-! ### Simulation -/

/-- Run a process against an environment with state `σ`, the left thread of a fork first. -/
def simulate {σ : Type} (env : σ → (o : O) → R o × σ) :
    {α : Type} → Proc O R α → σ → Trace O R × α × σ
  | _, ret a, s => ([], a, s)
  | _, op o k, s =>
    let (a, s) := env s o
    let (t, r, s) := (k a).simulate env s
    (⟨o, a⟩ :: t, r, s)
  | _, fork p q k, s =>
    let (u, a, s) := p.simulate env s
    let (v, b, s) := q.simulate env s
    let (t, r, s) := (k a b).simulate env s
    (u ++ v ++ t, r, s)

/-- A simulation is a run. -/
theorem runs_simulate {σ : Type} (env : σ → (o : O) → R o × σ) (p : Proc O R α) (s : σ) :
    Runs p (p.simulate env s).1 (some (p.simulate env s).2.1) := by
  induction p generalizing s with
  | ret a => exact .ret a
  | op o k ih => exact .op o (ih _ _)
  | fork p q k ihp ihq ih => exact .fork (ihp s) (ihq _) (Interleave.append _ _) (ih _ _ _)

/-- An environment without state. -/
def stateless (answer : (o : O) → R o) : Unit → (o : O) → R o × Unit := fun _ o => (answer o, ())

theorem simulate_stateless (answer : (o : O) → R o) (p : Proc O R α) :
    ∀ e ∈ (p.simulate (stateless answer) ()).1, e.2 = answer e.1 := by
  induction p with
  | ret a => simp [simulate]
  | op o k ih =>
    simp only [simulate, stateless, List.mem_cons, forall_eq_or_imp, true_and]
    exact ih _
  | fork p q k ihp ihq ih =>
    intro e he
    simp only [simulate, List.mem_append] at he
    rcases he with (he | he) | he
    · exact ihp e he
    · exact ihq e he
    · exact ih _ _ e he

/-- **Fixed answers fix the result**, whatever the interleaving: it is that of the simulation. -/
theorem Runs.eq_simulate {p : Proc O R α} {t : Trace O R} {r : Option α} (h : Runs p t r)
    {answer : (o : O) → R o} (hanswer : ∀ e ∈ t, e.2 = answer e.1) {a : α} (ha : r = some a) :
    a = (p.simulate (stateless answer) ()).2.1 := by
  induction h with
  | cut p => cases ha
  | ret b => exact (Option.some.inj ha).symm
  | @op _ o k a' _ _ _ ih =>
    rw [List.forall_mem_cons] at hanswer
    obtain ⟨hfirst, hrest⟩ := hanswer
    obtain rfl : a' = answer o := hfirst
    exact ih hrest ha
  | forkCut _ _ _ _ _ => cases ha
  | fork _ _ hi _ ihp ihq ih =>
    rw [List.forall_mem_append] at hanswer
    obtain ⟨hthreads, hrest⟩ := hanswer
    obtain rfl := ihp (fun e he => hthreads e (hi.mem_iff.mpr (.inl he))) rfl
    obtain rfl := ihq (fun e he => hthreads e (hi.mem_iff.mpr (.inr he))) rfl
    exact ih hrest ha

/-- **Every run can be completed**: whatever was done so far, and whatever is answered from now on,
the process comes to an end. -/
theorem Runs.complete {p : Proc O R α} {t : Trace O R} {r : Option α} (h : Runs p t r)
    (answer : (o : O) → R o) :
    ∃ u a, Runs p (t ++ u) (some a) ∧ ∀ e ∈ u, e.2 = answer e.1 := by
  induction h with
  | cut p => exact ⟨_, _, runs_simulate (stateless answer) p (), simulate_stateless answer p⟩
  | ret a => exact ⟨[], a, .ret a, by simp⟩
  | op o _ ih =>
    obtain ⟨u, a, hrun, hu⟩ := ih
    exact ⟨u, a, .op o hrun, hu⟩
  | @forkCut _ _ _ _ _ k u v t _ _ _ _ hi ihp ihq =>
    obtain ⟨u', a, hp, hu⟩ := ihp
    obtain ⟨v', b, hq, hv⟩ := ihq
    have hrest := runs_simulate (stateless answer) (k a b) ()
    refine ⟨(u' ++ v') ++ ((k a b).simulate (stateless answer) ()).1,
      ((k a b).simulate (stateless answer) ()).2.1, ?_, ?_⟩
    · rw [← List.append_assoc]
      exact .fork hp hq (hi.append_append (Interleave.append u' v')) hrest
    · intro e he
      rcases List.mem_append.mp he with he | he
      · rcases List.mem_append.mp he with he | he
        · exact hu e he
        · exact hv e he
      · exact simulate_stateless answer _ e he
  | fork hp hq hi _ _ _ ih =>
    obtain ⟨u, a, hrun, hu⟩ := ih
    exact ⟨u, a, by rw [List.append_assoc]; exact .fork hp hq hi hrun, hu⟩

end Proc

end KakuneCore

import Mathlib

/-!
# Runs of transactions

A store as a machine: a state, a set of calls, and a total step function in which a call that fails
leaves the state as it was. `Meets` says that **every step of a run** meets a condition on the call
and on the state it finds; the invariant rules below lift a step lemma to such runs.
-/

namespace KakuneCore

/-- A computation that succeeds went through its first step. -/
theorem except_bind_eq_ok {ε α β : Type} {x : Except ε α} {f : α → Except ε β} {b : β}
    (h : x >>= f = .ok b) : ∃ a, x = .ok a ∧ f a = .ok b := by
  cases x with
  | error e => cases h
  | ok a => exact ⟨a, rfl, h⟩

namespace Runs

variable {σ κ ε α : Type}

/-- The state a transaction leaves: an error rolls it back. -/
def settle (state : σ) : Except ε (α × σ) → σ
  | .ok result => result.2
  | .error _ => state

@[simp]
theorem settle_ok (state : σ) (result : α × σ) :
    settle state (.ok result : Except ε (α × σ)) = result.2 := rfl

@[simp]
theorem settle_error (state : σ) (error : ε) :
    settle state (.error error : Except ε (α × σ)) = state := rfl

/-- The state after a sequence of calls. -/
def run (step : σ → κ → σ) (state : σ) (calls : List κ) : σ := calls.foldl step state

/-- Every step of the run meets the condition. -/
def Meets (step : σ → κ → σ) (condition : σ → κ → Prop) : σ → List κ → Prop
  | _, [] => True
  | state, call :: calls => condition state call ∧ Meets step condition (step state call) calls

instance Meets.decidable (step : σ → κ → σ) (condition : σ → κ → Prop)
    [∀ state call, Decidable (condition state call)] :
    ∀ (state : σ) (calls : List κ), Decidable (Meets step condition state calls)
  | _, [] => .isTrue trivial
  | state, call :: calls =>
    have := Meets.decidable step condition (step state call) calls
    inferInstanceAs (Decidable (_ ∧ _))

section Rules

variable {step : σ → κ → σ} {condition condition' : σ → κ → Prop} {Inv : σ → Prop} {state : σ}
  {calls calls' : List κ} {call : κ}

@[simp]
theorem run_nil : run step state [] = state := rfl

@[simp]
theorem run_cons : run step state (call :: calls) = run step (step state call) calls := rfl

theorem run_append : run step state (calls ++ calls') = run step (run step state calls) calls' := by
  rw [run, List.foldl_append, ← run, ← run]

theorem run_concat : run step state (calls ++ [call]) = step (run step state calls) call := by
  rw [run_append, run_cons, run_nil]

theorem meets_append :
    Meets step condition state (calls ++ calls') ↔
      Meets step condition state calls ∧ Meets step condition (run step state calls) calls' := by
  induction calls generalizing state with
  | nil => simp [Meets]
  | cons call calls ih => rw [List.cons_append, Meets, Meets, run_cons, ih, and_assoc]

theorem meets_of_forall (h : ∀ state call, call ∈ calls → condition state call) :
    Meets step condition state calls := by
  induction calls generalizing state with
  | nil => trivial
  | cons call calls ih =>
    exact ⟨h _ _ List.mem_cons_self, ih fun s c hc => h s c (List.mem_cons_of_mem _ hc)⟩

theorem Meets.and (h : Meets step condition state calls) (h' : Meets step condition' state calls) :
    Meets step (fun state call => condition state call ∧ condition' state call) state calls := by
  induction calls generalizing state with
  | nil => trivial
  | cons call calls ih => exact ⟨⟨h.1, h'.1⟩, ih h.2 h'.2⟩

/-- The first calls of a run meet the condition too. -/
theorem Meets.take (h : Meets step condition state calls) (n : Nat) :
    Meets step condition state (calls.take n) := by
  rw [← List.take_append_drop n calls, meets_append] at h
  exact h.1

/-- Under an invariant that one of two conditions keeps, **equivalent conditions** are met by the
same runs. -/
theorem meets_congr (hinit : Inv state)
    (hiff : ∀ state call, call ∈ calls → Inv state → (condition state call ↔ condition' state call))
    (hkeep : ∀ state call, call ∈ calls → Inv state → condition state call →
      Inv (step state call)) :
    Meets step condition state calls ↔ Meets step condition' state calls := by
  induction calls generalizing state with
  | nil => rfl
  | cons call calls ih =>
    rw [Meets, Meets, ← hiff state call List.mem_cons_self hinit]
    refine and_congr_right fun hcall => ?_
    exact ih (hkeep state call List.mem_cons_self hinit hcall)
      (fun s c hc => hiff s c (List.mem_cons_of_mem _ hc))
      fun s c hc => hkeep s c (List.mem_cons_of_mem _ hc)

/-- What holds of every call may be added to the condition. -/
theorem Meets.and_forall {property : κ → Prop} (h : Meets step condition state calls)
    (hall : ∀ call ∈ calls, property call) :
    Meets step (fun state call => property call ∧ condition state call) state calls := by
  induction calls generalizing state with
  | nil => trivial
  | cons call calls ih =>
    exact ⟨⟨hall call List.mem_cons_self, h.1⟩,
      ih h.2 fun c hc => hall c (List.mem_cons_of_mem _ hc)⟩

/-- **The invariant rule** for runs whose steps meet a condition. -/
theorem Meets.invariant (h : Meets step condition state calls) (hinit : Inv state)
    (hstep : ∀ state call, Inv state → condition state call → Inv (step state call)) :
    Inv (run step state calls) := by
  induction calls generalizing state with
  | nil => exact hinit
  | cons call calls ih => exact ih h.2 (hstep _ _ hinit h.1)

/-- **The invariant rule with the history**: a fact about the calls made so far and the state they
lead to. -/
theorem Meets.invariant_history {I : List κ → σ → Prop} (h : Meets step condition state calls)
    (hinit : I [] state)
    (hstep : ∀ before state call, before ++ [call] <+: calls → I before state →
      condition state call → I (before ++ [call]) (step state call)) :
    I calls (run step state calls) := by
  induction calls using List.reverseRecOn with
  | nil => exact hinit
  | append_singleton before call ih =>
    rw [meets_append] at h
    rw [run_concat]
    refine hstep before _ call (List.prefix_refl _) (ih h.1 fun earlier s c hbefore => ?_) h.2.1
    exact hstep earlier s c (hbefore.trans (List.prefix_append _ _))

/-- The invariant rule for all runs. -/
theorem invariant (calls : List κ) (hinit : Inv state)
    (hstep : ∀ state call, Inv state → Inv (step state call)) : Inv (run step state calls) := by
  induction calls generalizing state with
  | nil => exact hinit
  | cons call calls ih => exact ih (hstep _ _ hinit)

/-- A relation that every step keeps holds between the ends of a run. -/
theorem relates {R : σ → σ → Prop} (calls : List κ) (hrefl : ∀ state, R state state)
    (htrans : ∀ {a b c}, R a b → R b c → R a c) (hinit : Inv state)
    (hinv : ∀ state call, Inv state → Inv (step state call))
    (hstep : ∀ state call, Inv state → R state (step state call)) :
    R state (run step state calls) := by
  induction calls generalizing state with
  | nil => exact hrefl state
  | cons call calls ih => exact htrans (hstep state call hinit) (ih (hinv _ _ hinit))

/-- Each step of a run is taken from the state after the calls before it. -/
theorem exists_step_of_getElem? {n : Nat} (h : calls[n]? = some call) :
    run step state (calls.take (n + 1)) = step (run step state (calls.take n)) call := by
  obtain ⟨hn, rfl⟩ := List.getElem?_eq_some_iff.mp h
  rw [List.take_succ_eq_append_getElem hn, run_concat]

/-- The condition holds where a call of the run is made. -/
theorem Meets.getElem? {n : Nat} (h : Meets step condition state calls)
    (hcall : calls[n]? = some call) : condition (run step state (calls.take n)) call := by
  obtain ⟨hn, rfl⟩ := List.getElem?_eq_some_iff.mp hcall
  rw [← List.take_append_drop n calls, meets_append, List.drop_eq_getElem_cons hn] at h
  exact h.2.1

/-- The runs that meet a condition, by the places at which calls are made. -/
theorem meets_iff_getElem? :
    Meets step condition state calls ↔
      ∀ n call, calls[n]? = some call → condition (run step state (calls.take n)) call := by
  constructor
  · intro h n call hcall
    exact h.getElem? hcall
  · intro h
    induction calls generalizing state with
    | nil => trivial
    | cons call calls ih =>
      refine ⟨h 0 call rfl, ih fun n call' hcall => ?_⟩
      exact h (n + 1) call' hcall

/-- When no value is drawn twice, the value tells the call. -/
theorem index_eq_of_draw {δ : Type} {draw : κ → Option δ} (hdraws : (calls.filterMap draw).Nodup)
    {n m : Nat} {call' : κ} {value : δ} (hn : calls[n]? = some call) (hm : calls[m]? = some call')
    (hdraw : draw call = some value) (hdraw' : draw call' = some value) : n = m := by
  induction calls generalizing n m with
  | nil => simp at hn
  | cons first calls ih =>
    -- the value of the first call does not occur again
    have hfirst : ∀ {c : κ} {i : Nat}, draw first = some value → calls[i]? = some c →
        draw c = some value → False := by
      intro c i hvalue hi hc
      rw [List.filterMap_cons_some hvalue, List.nodup_cons] at hdraws
      exact hdraws.1 (List.mem_filterMap.mpr ⟨c, List.mem_of_getElem? hi, hc⟩)
    have hrest : (calls.filterMap draw).Nodup :=
      hdraws.sublist ((List.sublist_cons_self first calls).filterMap _)
    cases n with
    | zero =>
      obtain rfl : first = call := by simpa using hn
      cases m with
      | zero => rfl
      | succ m => exact (hfirst hdraw (by simpa using hm) hdraw').elim
    | succ n =>
      cases m with
      | zero =>
        obtain rfl : first = call' := by simpa using hm
        exact (hfirst hdraw' (by simpa using hn) hdraw).elim
      | succ m => exact congrArg Nat.succ (ih hrest (by simpa using hn) (by simpa using hm))

end Rules

end Runs

end KakuneCore

import Mathlib

/-!
# Processes: effectful programs with fork-join threads

`Proc O R α` is a program that issues operations `o : O`, receives an answer in `R o`, may
run two threads side by side until both have finished, and returns an `α`. The program is
**data**: nothing is said about what an operation does, so one program has a single text and
several meanings.

The meaning used for safety is `Proc.Runs p t r`: the program can perform exactly the events
of the trace `t` (operations with the answers they received) and is then left with `r`, where
`none` says that it was **cut off** there. Every answer is allowed, the two threads of a `fork`
are interleaved in any order, and a run may be cut off at any point, so a statement about all
runs covers every environment, every schedule and every crash point. What an environment really
answers is a predicate on traces, supplied by the user of the library.
-/

namespace KakuneCore

/-! ### Interleavings -/

/-- `Interleave u v w`: the list `w` merges `u` and `v`, each kept in its own order. -/
inductive Interleave {ε : Type} : List ε → List ε → List ε → Prop
  | nil : Interleave [] [] []
  | left {e : ε} {u v w : List ε} : Interleave u v w → Interleave (e :: u) v (e :: w)
  | right {e : ε} {u v w : List ε} : Interleave u v w → Interleave u (e :: v) (e :: w)

namespace Interleave

variable {ε : Type} {u v w : List ε}

theorem append : ∀ u v : List ε, Interleave u v (u ++ v)
  | [], [] => .nil
  | [], _ :: v => (append [] v).right
  | _ :: u, v => (append u v).left

theorem append_append {u' v' w' : List ε} (h : Interleave u v w) (h' : Interleave u' v' w') :
    Interleave (u ++ u') (v ++ v') (w ++ w') := by
  induction h with
  | nil => exact h'
  | left _ ih => exact ih.left
  | right _ ih => exact ih.right

theorem perm (h : Interleave u v w) : w.Perm (u ++ v) := by
  induction h with
  | nil => exact .nil
  | left _ ih => exact ih.cons _
  | right _ ih => exact (ih.cons _).trans List.perm_middle.symm

theorem mem_iff (h : Interleave u v w) {e : ε} : e ∈ w ↔ e ∈ u ∨ e ∈ v := by
  rw [h.perm.mem_iff, List.mem_append]

/-- Cutting a merge at any point cuts both sides. -/
theorem split {a b : List ε} (h : Interleave u v (a ++ b)) :
    ∃ u₁ u₂ v₁ v₂, u = u₁ ++ u₂ ∧ v = v₁ ++ v₂ ∧ Interleave u₁ v₁ a ∧ Interleave u₂ v₂ b := by
  induction a generalizing u v with
  | nil => exact ⟨[], u, [], v, rfl, rfl, .nil, h⟩
  | cons e a ih =>
    cases h with
    | left h =>
      obtain ⟨u₁, u₂, v₁, v₂, rfl, rfl, h₁, h₂⟩ := ih h
      exact ⟨e :: u₁, u₂, v₁, v₂, rfl, rfl, h₁.left, h₂⟩
    | right h =>
      obtain ⟨u₁, u₂, v₁, v₂, rfl, rfl, h₁, h₂⟩ := ih h
      exact ⟨u₁, u₂, e :: v₁, v₂, rfl, rfl, h₁.right, h₂⟩

end Interleave

/-! ### Processes -/

/-- A program over operations `O` answered in `R`, with binary fork-join. -/
inductive Proc (O : Type) (R : O → Type) : Type → Type 1
  | ret {α : Type} (a : α) : Proc O R α
  | op {α : Type} (o : O) (k : R o → Proc O R α) : Proc O R α
  | fork {α β γ : Type} (p : Proc O R β) (q : Proc O R γ) (k : β → γ → Proc O R α) : Proc O R α

/-- An operation together with the answer it received. -/
abbrev Event (O : Type) (R : O → Type) : Type := (o : O) × R o

/-- What a process did, in the order it happened. -/
abbrev Trace (O : Type) (R : O → Type) : Type := List (Event O R)

namespace Proc

variable {O : Type} {R : O → Type} {α β γ : Type}

/-- Sequential composition. -/
def bind : Proc O R α → (α → Proc O R β) → Proc O R β
  | ret a, f => f a
  | op o k, f => op o fun r => (k r).bind f
  | fork p q k, f => fork p q fun a b => (k a b).bind f

instance : Monad (Proc O R) where
  pure := ret
  bind := bind

/-- Issue one operation and return its answer. -/
def call (o : O) : Proc O R (R o) := op o ret

@[simp]
theorem pure_eq (a : α) : (pure a : Proc O R α) = ret a := rfl

@[simp]
theorem ret_bind (a : α) (f : α → Proc O R β) : (ret a : Proc O R α) >>= f = f a := rfl

@[simp]
theorem op_bind (o : O) (k : R o → Proc O R α) (f : α → Proc O R β) :
    (op o k : Proc O R α) >>= f = op o fun r => k r >>= f := rfl

@[simp]
theorem fork_bind {β' γ' : Type} (p : Proc O R β') (q : Proc O R γ')
    (k : β' → γ' → Proc O R α) (f : α → Proc O R β) :
    (fork p q k : Proc O R α) >>= f = fork p q fun a b => k a b >>= f := rfl

/-! ### Runs -/

/-- `Runs p t r`: the process `p` can perform exactly the events `t` and be left with the
result `r`, or be cut off there when `r = none`. -/
inductive Runs : {α : Type} → Proc O R α → Trace O R → Option α → Prop
  | cut {α : Type} (p : Proc O R α) : Runs p [] none
  | ret {α : Type} (a : α) : Runs (.ret a) [] (some a)
  | op {α : Type} (o : O) {k : R o → Proc O R α} {a : R o} {t : Trace O R} {r : Option α} :
      Runs (k a) t r → Runs (.op o k) (⟨o, a⟩ :: t) r
  | forkCut {α β γ : Type} {p : Proc O R β} {q : Proc O R γ} {k : β → γ → Proc O R α}
      {u v t : Trace O R} {x : Option β} {y : Option γ} :
      Runs p u x → Runs q v y → Interleave u v t → Runs (.fork p q k) t none
  | fork {α β γ : Type} {p : Proc O R β} {q : Proc O R γ} {k : β → γ → Proc O R α}
      {u v t t' : Trace O R} {a : β} {b : γ} {r : Option α} :
      Runs p u (some a) → Runs q v (some b) → Interleave u v t → Runs (k a b) t' r →
      Runs (.fork p q k) (t ++ t') r

theorem runs_ret_iff {a : α} {t : Trace O R} {r : Option α} :
    Runs (.ret a : Proc O R α) t r ↔ t = [] ∧ (r = none ∨ r = some a) := by
  constructor
  · rintro (_ | _)
    · exact ⟨rfl, .inl rfl⟩
    · exact ⟨rfl, .inr rfl⟩
  · rintro ⟨rfl, rfl | rfl⟩
    · exact .cut _
    · exact .ret a

theorem runs_op_iff {o : O} {k : R o → Proc O R α} {t : Trace O R} {r : Option α} :
    Runs (.op o k) t r ↔
      (t = [] ∧ r = none) ∨ ∃ a t', t = ⟨o, a⟩ :: t' ∧ Runs (k a) t' r := by
  constructor
  · intro h
    cases h with
    | cut => exact .inl ⟨rfl, rfl⟩
    | op _ h => exact .inr ⟨_, _, rfl, h⟩
  · rintro (⟨rfl, rfl⟩ | ⟨a, t', rfl, h⟩)
    · exact .cut _
    · exact .op o h

theorem runs_call_iff {o : O} {t : Trace O R} {r : Option (R o)} :
    Runs (call o) t r ↔ (t = [] ∧ r = none) ∨ ∃ a, t = [⟨o, a⟩] ∧ (r = none ∨ r = some a) := by
  rw [call, runs_op_iff]
  simp only [runs_ret_iff]
  constructor
  · rintro (h | ⟨a, t', rfl, rfl, h⟩)
    · exact .inl h
    · exact .inr ⟨a, rfl, h⟩
  · rintro (h | ⟨a, rfl, h⟩)
    · exact .inl h
    · exact .inr ⟨a, [], rfl, rfl, h⟩

/-- A finished run can be cut off just before its result is used. -/
theorem Runs.cutOff {p : Proc O R α} {t : Trace O R} {r : Option α} (h : Runs p t r) :
    Runs p t none := by
  induction h with
  | cut p => exact .cut p
  | ret a => exact .cut _
  | op o _ ih => exact .op o ih
  | forkCut hp hq hi => exact .forkCut hp hq hi
  | fork hp hq hi _ _ _ ih => exact .fork hp hq hi ih

/-- **Every prefix of a run is a run** that was cut off there. -/
theorem Runs.cutAt {p : Proc O R α} {u v : Trace O R} {r : Option α} (h : Runs p (u ++ v) r) :
    Runs p u none := by
  generalize ht : u ++ v = t at h
  induction h generalizing u v with
  | cut p =>
    rw [(List.append_eq_nil_iff.mp ht).1]
    exact .cut p
  | ret a =>
    rw [(List.append_eq_nil_iff.mp ht).1]
    exact .cut _
  | op o _ ih =>
    cases u with
    | nil => exact .cut _
    | cons e u =>
      rw [List.cons_append, List.cons.injEq] at ht
      obtain ⟨rfl, ht⟩ := ht
      exact .op o (ih ht)
  | forkCut _ _ hi ihp ihq =>
    subst ht
    obtain ⟨u₁, u₂, v₁, v₂, rfl, rfl, hi', -⟩ := hi.split
    exact .forkCut (ihp rfl) (ihq rfl) hi'
  | @fork _ _ _ _ _ _ u' v' s s' _ _ _ hp hq hi _ ihp ihq ih =>
    -- the cut falls into the threads, or after their join
    obtain ⟨w, rfl, hs⟩ | ⟨w, rfl, hs⟩ := List.append_eq_append_iff.mp ht
    · obtain ⟨u₁, u₂, v₁, v₂, rfl, rfl, hi', -⟩ := hi.split
      exact .forkCut (ihp rfl) (ihq rfl) hi'
    · exact .fork hp hq hi (ih hs.symm)

/-- **Runs of a sequence**: either the first part is cut off, or it finishes and the second
part runs after it. -/
theorem runs_bind_iff {p : Proc O R α} {f : α → Proc O R β} {t : Trace O R} {r : Option β} :
    Runs (p >>= f) t r ↔
      (r = none ∧ Runs p t none) ∨
        ∃ a u v, t = u ++ v ∧ Runs p u (some a) ∧ Runs (f a) v r := by
  constructor
  · intro h
    induction p generalizing t r with
    | ret a => exact .inr ⟨a, [], t, rfl, .ret a, h⟩
    | op o k ih =>
      rw [op_bind, runs_op_iff] at h
      obtain ⟨rfl, rfl⟩ | ⟨x, t', rfl, h⟩ := h
      · exact .inl ⟨rfl, .cut _⟩
      · obtain ⟨rfl, hk⟩ | ⟨a, u, v, rfl, hu, hv⟩ := ih x h
        · exact .inl ⟨rfl, .op o hk⟩
        · exact .inr ⟨a, _ :: u, v, rfl, .op o hu, hv⟩
    | fork p q k _ _ ih =>
      rw [fork_bind] at h
      cases h with
      | cut => exact .inl ⟨rfl, .cut _⟩
      | forkCut hp hq hi => exact .inl ⟨rfl, .forkCut hp hq hi⟩
      | fork hp hq hi hk =>
        obtain ⟨rfl, h⟩ | ⟨a, u, v, rfl, hu, hv⟩ := ih _ _ hk
        · exact .inl ⟨rfl, .fork hp hq hi h⟩
        · exact .inr ⟨a, _ ++ u, v, (List.append_assoc ..).symm, .fork hp hq hi hu, hv⟩
  · rintro (⟨rfl, h⟩ | ⟨a, u, v, rfl, hu, hv⟩)
    · induction p generalizing t with
      | ret a =>
        obtain ⟨rfl, -⟩ := runs_ret_iff.mp h
        exact .cut _
      | op o k ih =>
        obtain ⟨rfl, -⟩ | ⟨x, t', rfl, hk⟩ := runs_op_iff.mp h
        · exact .cut _
        · exact .op o (ih x hk)
      | fork p q k _ _ ih =>
        cases h with
        | cut => exact .cut _
        | forkCut hp hq hi => exact .forkCut hp hq hi
        | fork hp hq hi hk => exact .fork hp hq hi (ih _ _ hk)
    · induction p generalizing u with
      | ret a' =>
        obtain ⟨rfl, h⟩ := runs_ret_iff.mp hu
        obtain rfl : a = a' := by simpa using h
        exact hv
      | op o k ih =>
        obtain ⟨-, h⟩ | ⟨x, t', rfl, h⟩ := runs_op_iff.mp hu
        · cases h
        · exact .op o (ih x a _ h hv)
      | fork p q k _ _ ih =>
        cases hu with
        | fork hp hq hi hk =>
          rw [List.append_assoc]
          exact .fork hp hq hi (ih _ _ a _ hk hv)

/-! ### Footprints -/

/-- Every operation that `p` can ever issue satisfies `P`. -/
def Only (P : O → Prop) : {α : Type} → Proc O R α → Prop
  | _, ret _ => True
  | _, op o k => P o ∧ ∀ a, (k a).Only P
  | _, fork p q k => p.Only P ∧ q.Only P ∧ ∀ a b, (k a b).Only P

variable {P : O → Prop}

@[simp]
theorem only_ret {a : α} : (ret a : Proc O R α).Only P ↔ True := Iff.rfl

@[simp]
theorem only_op {o : O} {k : R o → Proc O R α} :
    (op o k).Only P ↔ P o ∧ ∀ a, (k a).Only P := Iff.rfl

@[simp]
theorem only_fork {p : Proc O R β} {q : Proc O R γ} {k : β → γ → Proc O R α} :
    (fork p q k).Only P ↔ p.Only P ∧ q.Only P ∧ ∀ a b, (k a b).Only P := Iff.rfl

@[simp]
theorem only_call {o : O} : (call o : Proc O R (R o)).Only P ↔ P o := by
  simp [call]

theorem Only.bind {p : Proc O R α} {f : α → Proc O R β} (hp : p.Only P)
    (hf : ∀ a, (f a).Only P) : (p >>= f).Only P := by
  induction p with
  | ret a => exact hf a
  | op o k ih => exact ⟨hp.1, fun a => ih a (hp.2 a) hf⟩
  | fork p q k _ _ ih => exact ⟨hp.1, hp.2.1, fun a b => ih a b (hp.2.2 a b) hf⟩

/-- The events of a run stay inside the footprint. -/
theorem Runs.mem_only {p : Proc O R α} {t : Trace O R} {r : Option α} (h : Runs p t r)
    (hp : p.Only P) : ∀ e ∈ t, P e.1 := by
  induction h with
  | cut p => simp
  | ret a => simp
  | op o _ ih =>
    simp only [List.mem_cons, forall_eq_or_imp]
    exact ⟨hp.1, ih (hp.2 _)⟩
  | forkCut _ _ hi ihp ihq =>
    intro e he
    rcases hi.mem_iff.mp he with he | he
    · exact ihp hp.1 e he
    · exact ihq hp.2.1 e he
  | fork _ _ hi _ ihp ihq ihk =>
    intro e he
    rcases List.mem_append.mp he with he | he
    · rcases hi.mem_iff.mp he with he | he
      · exact ihp hp.1 e he
      · exact ihq hp.2.1 e he
    · exact ihk (hp.2.2 _ _) e he

/-! ### Thread pools -/

/-- Run a list of threads to completion and collect their results in order. -/
def parallel : List (Proc O R α) → Proc O R (List α)
  | [] => ret []
  | p :: ps => fork p (parallel ps) fun a as => ret (a :: as)

/-- `Threads ps us rs`: thread `i` of `ps` performed `us i` and was left with `rs i`. -/
inductive Threads : List (Proc O R α) → List (Trace O R) → List (Option α) → Prop
  | nil : Threads [] [] []
  | cons {p : Proc O R α} {u : Trace O R} {x : Option α} {ps : List (Proc O R α)}
      {us : List (Trace O R)} {xs : List (Option α)} :
      Runs p u x → Threads ps us xs → Threads (p :: ps) (u :: us) (x :: xs)

/-- A merge of any number of traces. -/
inductive Merge {ε : Type} : List (List ε) → List ε → Prop
  | nil : Merge [] []
  | cons {u : List ε} {us : List (List ε)} {v w : List ε} :
      Merge us v → Interleave u v w → Merge (u :: us) w

/-- **Runs of a thread pool**: the threads ran as `Threads` says, their traces were merged,
and a result list comes out only when every thread finished. -/
theorem runs_parallel {ps : List (Proc O R α)} {t : Trace O R} {r : Option (List α)}
    (h : Runs (parallel ps) t r) :
    ∃ us xs, Threads ps us xs ∧ Merge us t ∧ ∀ rs, r = some rs → xs = rs.map some := by
  induction ps generalizing t r with
  | nil =>
    obtain ⟨rfl, hr⟩ := runs_ret_iff.mp h
    refine ⟨[], [], .nil, .nil, fun rs hrs => ?_⟩
    rcases hr with rfl | rfl
    · cases hrs
    · cases hrs; rfl
  | cons p ps ih =>
    cases h with
    | cut =>
      obtain ⟨us, xs, hth, hm, -⟩ := ih (.cut (parallel ps))
      exact ⟨[] :: us, none :: xs, .cons (.cut p) hth, .cons hm (by
        simpa using Interleave.append [] []), by simp⟩
    | forkCut hp hq hi =>
      obtain ⟨us, xs, hth, hm, -⟩ := ih hq
      exact ⟨_ :: us, _ :: xs, .cons hp hth, .cons hm hi, by simp⟩
    | fork hp hq hi hk =>
      obtain ⟨us, xs, hth, hm, hrs⟩ := ih hq
      obtain ⟨rfl, hr⟩ := runs_ret_iff.mp hk
      refine ⟨_ :: us, _ :: xs, .cons hp hth, .cons hm (by simpa using hi), fun rs hrs' => ?_⟩
      rcases hr with rfl | rfl
      · cases hrs'
      · cases hrs'
        rw [hrs _ rfl, List.map_cons]

theorem only_parallel {ps : List (Proc O R α)} (h : ∀ p ∈ ps, p.Only P) :
    (parallel ps).Only P := by
  induction ps with
  | nil => trivial
  | cons p ps ih =>
    exact ⟨h p List.mem_cons_self, ih fun q hq => h q (List.mem_cons_of_mem _ hq),
      fun _ _ => trivial⟩

end Proc

end KakuneCore

import KakuneCore.Process.Logic

/-!
# Two runs in lockstep

Statements about two runs (determinism, resumption, non-interference) compare a run of one process
with a run of another. A `Comparison` says what is assumed of the events on either side and how
traces are compared; **order is never compared**, since threads interleave freely. The left run may
be cut off or fail; the right one finishes.

`Lockstep` compares processes and `Tracks` fallible ones. Both compose along sequences, and
`Lockstep.parallel` along thread pools, so the two runs may be scheduled differently.
-/

namespace KakuneCore

namespace Proc

variable {O : Type} {R : O → Type} {α β γ δ ε : Type}

/-- How two runs are compared: `rel` compares the traces of finished parts, `part` is what remains
when the left part was cut off or has failed. -/
structure Comparison (O : Type) (R : O → Type) where
  left : Event O R → Prop
  right : Event O R → Prop
  rel : Trace O R → Trace O R → Prop
  part : Trace O R → Trace O R → Prop
  /-- Events that the comparison ignores. -/
  quiet : Event O R → Prop
  /-- Whether the left run may fail where the right one does not. -/
  failing : Prop
  rel_quiet : ∀ {t u}, (∀ e ∈ t, quiet e) → (∀ e ∈ u, quiet e) → rel t u
  rel_append : ∀ {t u t' u'}, rel t u → rel t' u' → rel (t ++ t') (u ++ u')
  rel_perm : ∀ {t u t' u'}, t.Perm t' → u.Perm u' → rel t u → rel t' u'
  part_nil : ∀ u, part [] u
  part_of_rel : ∀ {t u}, rel t u → part t u
  part_append : ∀ {t u t' u'}, part t u → part t' u' → part (t ++ t') (u ++ u')
  part_perm : ∀ {t u t' u'}, t.Perm t' → u.Perm u' → part t u → part t' u'

namespace Comparison

variable (c : Comparison O R)

theorem rel_nil : c.rel [] [] := c.rel_quiet (by simp) (by simp)

/-- A part of the right trace may be left out. -/
theorem part_append_right {t u : Trace O R} (h : c.part t u) (u' : Trace O R) :
    c.part t (u ++ u') := by
  have := c.part_append h (c.part_nil u')
  rwa [List.append_nil] at this

end Comparison

variable {c : Comparison O R}

/-! ### Processes -/

/-- What a left run, finished or cut off, owes the right run. -/
def Comparison.Owes (c : Comparison O R) (S : α → Prop) (t u : Trace O R) : Option α → Prop
  | some a => c.rel t u ∧ S a
  | none => c.part t u

theorem Comparison.Owes.part {S : α → Prop} {t u : Trace O R} {r : Option α} (h : c.Owes S t u r) :
    c.part t u := by
  cases r with
  | none => exact h
  | some a => exact c.part_of_rel h.1

/-- `Lockstep c p q S`: every run of `p` is comparable with every finished run of `q`, and so are
their results. -/
def Lockstep (c : Comparison O R) (p : Proc O R α) (q : Proc O R β) (S : α → β → Prop) : Prop :=
  ∀ t r u b, Runs p t r → Runs q u (some b) → (∀ e ∈ t, c.left e) → (∀ e ∈ u, c.right e) →
    c.Owes (S · b) t u r

variable {p : Proc O R α} {q : Proc O R β} {S : α → β → Prop}

theorem Lockstep.ret {a : α} {b : β} (h : S a b) : Lockstep c (.ret a) (.ret b) S := by
  intro t r u b' hp hq _ _
  obtain ⟨rfl, hr⟩ := runs_ret_iff.mp hp
  obtain ⟨rfl, hb⟩ := runs_ret_iff.mp hq
  obtain rfl : b' = b := by simpa using hb
  rcases hr with rfl | rfl
  · exact c.part_nil []
  · exact ⟨c.rel_nil, h⟩

theorem Lockstep.mono {S' : α → β → Prop} (h : Lockstep c p q S) (hS : ∀ a b, S a b → S' a b) :
    Lockstep c p q S' := by
  intro t r u b hp hq hl hr
  have howes := h t r u b hp hq hl hr
  cases r with
  | none => exact howes
  | some a => exact ⟨howes.1, hS a b howes.2⟩

theorem Lockstep.bind {f : α → Proc O R γ} {g : β → Proc O R δ} {S' : γ → δ → Prop}
    (hp : Lockstep c p q S) (hf : ∀ a b, S a b → Lockstep c (f a) (g b) S') :
    Lockstep c (p >>= f) (q >>= g) S' := by
  intro t r u d hleft hright hl hr
  obtain ⟨h, -⟩ | ⟨b, u₁, u₂, rfl, hu₁, hu₂⟩ := runs_bind_iff.mp hright
  · cases h
  have hr₁ : ∀ e ∈ u₁, c.right e := fun e he => hr e (List.mem_append_left _ he)
  have hr₂ : ∀ e ∈ u₂, c.right e := fun e he => hr e (List.mem_append_right _ he)
  obtain ⟨rfl, hcut⟩ | ⟨a, t₁, t₂, rfl, ht₁, ht₂⟩ := runs_bind_iff.mp hleft
  · exact c.part_append_right (hp t none u₁ b hcut hu₁ hl hr₁) u₂
  · have hl₁ : ∀ e ∈ t₁, c.left e := fun e he => hl e (List.mem_append_left _ he)
    have hl₂ : ∀ e ∈ t₂, c.left e := fun e he => hl e (List.mem_append_right _ he)
    obtain ⟨hrel, hS⟩ := hp t₁ (some a) u₁ b ht₁ hu₁ hl₁ hr₁
    have hrest := hf a b hS t₂ r u₂ d ht₂ hu₂ hl₂ hr₂
    cases r with
    | none => exact c.part_append (c.part_of_rel hrel) hrest
    | some x => exact ⟨c.rel_append hrel hrest.1, hrest.2⟩

theorem Lockstep.call {o : O} {o' : O} {S : R o → R o' → Prop}
    (h : ∀ x y, c.left ⟨o, x⟩ → c.right ⟨o', y⟩ → c.rel [⟨o, x⟩] [⟨o', y⟩] ∧ S x y) :
    Lockstep c (Proc.call o) (Proc.call o') S := by
  intro t r u b hp hq hl hr
  obtain ⟨-, hb⟩ | ⟨y, rfl, hb⟩ := runs_call_iff.mp hq
  · cases hb
  obtain rfl : b = y := by simpa using hb
  obtain ⟨rfl, rfl⟩ | ⟨x, rfl, rfl | rfl⟩ := runs_call_iff.mp hp
  · exact c.part_nil _
  · exact c.part_of_rel (h x b (hl _ List.mem_cons_self) (hr _ List.mem_cons_self)).1
  · exact h x b (hl _ List.mem_cons_self) (hr _ List.mem_cons_self)

/-- **Thread pools** are in lockstep when their threads are, one by one. -/
theorem Lockstep.parallel {ι κ : Type} {f : ι → Proc O R α} {g : κ → Proc O R β}
    {S : ι → κ → α → β → Prop} {xs : List ι} {ys : List κ}
    (h : List.Forall₂ (fun x y => Lockstep c (f x) (g y) (S x y)) xs ys) :
    Lockstep c (Proc.parallel (xs.map f)) (Proc.parallel (ys.map g)) fun as bs =>
      as.length = xs.length ∧ bs.length = ys.length ∧
        List.Forall₂ (fun p q => S p.1 q.1 p.2 q.2) (xs.zip as) (ys.zip bs) := by
  induction h with
  | nil => exact .ret ⟨rfl, rfl, .nil⟩
  | @cons x y xs ys hxy _ ih =>
    intro t r u bs hp hq hl hr
    cases hq with
    | @fork _ _ _ _ _ _ u₁ u₂ v v' b bs' _ hb hbs hi hk =>
      obtain ⟨rfl, hres⟩ := runs_ret_iff.mp hk
      obtain rfl : bs = b :: bs' := by simpa using hres
      rw [List.append_nil] at hr ⊢
      have hr₁ : ∀ e ∈ u₁, c.right e := fun e he => hr e (hi.mem_iff.mpr (.inl he))
      have hr₂ : ∀ e ∈ u₂, c.right e := fun e he => hr e (hi.mem_iff.mpr (.inr he))
      cases hp with
      | cut => exact c.part_nil _
      | @forkCut _ _ _ _ _ _ t₁ t₂ _ a as ha has hj =>
        have h₁ := hxy t₁ a u₁ b ha hb (fun e he => hl e (hj.mem_iff.mpr (.inl he))) hr₁
        have h₂ := ih t₂ as u₂ bs' has hbs (fun e he => hl e (hj.mem_iff.mpr (.inr he))) hr₂
        exact c.part_perm hj.perm.symm hi.perm.symm (c.part_append h₁.part h₂.part)
      | @fork _ _ _ _ _ _ t₁ t₂ s s' a as _ ha has hj hk' =>
        obtain ⟨rfl, hres'⟩ := runs_ret_iff.mp hk'
        rw [List.append_nil] at hl ⊢
        have h₁ := hxy t₁ (some a) u₁ b ha hb (fun e he => hl e (hj.mem_iff.mpr (.inl he))) hr₁
        have h₂ := ih t₂ (some as) u₂ bs' has hbs (fun e he => hl e (hj.mem_iff.mpr (.inr he))) hr₂
        have hrel : c.rel s v := c.rel_perm hj.perm.symm hi.perm.symm (c.rel_append h₁.1 h₂.1)
        rcases hres' with rfl | rfl
        · exact c.part_of_rel hrel
        · obtain ⟨-, hlen, hlen', hall⟩ := h₂
          exact ⟨hrel, by simp [hlen], by simp [hlen'], .cons h₁.2 hall⟩

/-! ### Fallible processes -/

/-- What a left run owes when the right one has a value. -/
def Comparison.Accounts (c : Comparison O R) (S : α → Prop) (t u : Trace O R) :
    Option (Except ε α) → Prop
  | some (.ok a) => c.rel t u ∧ S a
  | some (.error _) => c.failing ∧ c.part t u
  | none => c.part t u

/-- `Tracks c x y S`: every run of `x` is comparable with every run of `y` that ends with a
value. -/
def Tracks (c : Comparison O R) (x : Fallible O R ε α) (y : Fallible O R ε β)
    (S : α → β → Prop) : Prop :=
  ∀ t r u b, Runs x.run t r → Runs y.run u (some (.ok b)) → (∀ e ∈ t, c.left e) →
    (∀ e ∈ u, c.right e) → c.Accounts (S · b) t u r

variable {x : Fallible O R ε α} {y : Fallible O R ε β}

theorem Tracks.pure {a : α} {b : β} (h : S a b) :
    Tracks c (pure a : Fallible O R ε α) (pure b : Fallible O R ε β) S := by
  intro t r u b' hx hy _ _
  obtain ⟨rfl, hr⟩ := runs_run_pure.mp hx
  obtain ⟨rfl, hb⟩ := runs_run_pure.mp hy
  obtain rfl : b' = b := by simpa using hb
  rcases hr with rfl | rfl
  · exact c.part_nil []
  · exact ⟨c.rel_nil, h⟩

/-- The right run never ends with a value. -/
theorem Tracks.throw_right {e : ε} : Tracks c x (throw e : Fallible O R ε β) S := by
  intro t r u b _ hy _ _
  obtain ⟨-, h | h⟩ := runs_run_throw.mp hy
  · cases h
  · cases h

theorem Tracks.mono {S' : α → β → Prop} (h : Tracks c x y S) (hS : ∀ a b, S a b → S' a b) :
    Tracks c x y S' := by
  intro t r u b hx hy hl hr
  have hacc := h t r u b hx hy hl hr
  rcases r with _ | _ | a
  · exact hacc
  · exact hacc
  · exact ⟨hacc.1, hS a b hacc.2⟩

theorem Tracks.bind {f : α → Fallible O R ε γ} {g : β → Fallible O R ε δ} {S' : γ → δ → Prop}
    (hx : Tracks c x y S) (hf : ∀ a b, S a b → Tracks c (f a) (g b) S') :
    Tracks c (x >>= f) (y >>= g) S' := by
  intro t r u d hleft hright hl hr
  obtain ⟨h, -⟩ | ⟨e, h, -⟩ | ⟨b, u₁, u₂, rfl, hu₁, hu₂⟩ := runs_run_bind hright
  · cases h
  · cases h
  have hr₁ : ∀ e ∈ u₁, c.right e := fun e he => hr e (List.mem_append_left _ he)
  have hr₂ : ∀ e ∈ u₂, c.right e := fun e he => hr e (List.mem_append_right _ he)
  obtain ⟨rfl, hcut⟩ | ⟨e, rfl, hfail⟩ | ⟨a, t₁, t₂, rfl, ht₁, ht₂⟩ := runs_run_bind hleft
  · exact c.part_append_right (hx t none u₁ b hcut hu₁ hl hr₁) u₂
  · obtain ⟨hfailing, hpart⟩ := hx t _ u₁ b hfail hu₁ hl hr₁
    exact ⟨hfailing, c.part_append_right hpart u₂⟩
  · have hl₁ : ∀ e ∈ t₁, c.left e := fun e he => hl e (List.mem_append_left _ he)
    have hl₂ : ∀ e ∈ t₂, c.left e := fun e he => hl e (List.mem_append_right _ he)
    obtain ⟨hrel, hS⟩ := hx t₁ (some (.ok a)) u₁ b ht₁ hu₁ hl₁ hr₁
    have hrest := hf a b hS t₂ r u₂ d ht₂ hu₂ hl₂ hr₂
    rcases r with _ | e | v
    · exact c.part_append (c.part_of_rel hrel) hrest
    · exact ⟨hrest.1, c.part_append (c.part_of_rel hrel) hrest.2⟩
    · exact ⟨c.rel_append hrel hrest.1, hrest.2⟩

theorem Tracks.lift (h : Lockstep c p q S) :
    Tracks c (ExceptT.lift p : Fallible O R ε α) (ExceptT.lift q : Fallible O R ε β) S := by
  intro t r u b hx hy hl hr
  obtain ⟨hb, -⟩ | ⟨b', hb, hq⟩ := runs_run_lift hy
  · cases hb
  obtain rfl : b = b' := by simpa using hb
  obtain ⟨rfl, hp⟩ | ⟨a, rfl, hp⟩ := runs_run_lift hx
  · exact h t none u b hp hq hl hr
  · exact h t (some a) u b hp hq hl hr

/-- Processes whose events the comparison ignores. -/
theorem Tracks.of_quiet {P : O → Prop} (hx : x.run.Only P) (hy : y.run.Only P)
    (hquiet : ∀ e : Event O R, P e.1 → c.quiet e)
    (hfail : ∀ t e, Runs x.run t (some (.error e)) → (∀ e ∈ t, c.left e) → c.failing) :
    Tracks c x y fun _ _ => True := by
  intro t r u b hleft hright hl _
  have hrel : c.rel t u := c.rel_quiet (fun e he => hquiet e (hleft.mem_only hx e he))
    fun e he => hquiet e (hright.mem_only hy e he)
  rcases r with _ | e | a
  · exact c.part_of_rel hrel
  · exact ⟨hfail t e hleft hl, c.part_of_rel hrel⟩
  · exact ⟨hrel, trivial⟩

/-- Results that are looked at, where a failure on either side is seen by the assumptions: on the
right it does not happen, on the left nothing comes after it. -/
theorem Tracks.run_bind {f : Except ε α → Proc O R γ} {g : Except ε β → Proc O R δ}
    {S' : γ → δ → Prop} (h : Tracks c x y S)
    (hok : ∀ a b, S a b → Lockstep c (f (.ok a)) (g (.ok b)) S')
    (hleft : ∀ e t r, Runs (f (.error e)) t r → (∀ e ∈ t, c.left e) → t = [] ∧ r = none)
    (hright : ∀ e u d, Runs (g (.error e)) u (some d) → ¬ ∀ e ∈ u, c.right e) :
    Lockstep c (x.run >>= f) (y.run >>= g) S' := by
  intro t r u d hl hr hls hrs
  obtain ⟨hd, -⟩ | ⟨result, u₁, u₂, rfl, hu₁, hu₂⟩ := runs_bind_iff.mp hr
  · cases hd
  have hrs₁ : ∀ e ∈ u₁, c.right e := fun e he => hrs e (List.mem_append_left _ he)
  have hrs₂ : ∀ e ∈ u₂, c.right e := fun e he => hrs e (List.mem_append_right _ he)
  cases result with
  | error e => exact absurd hrs₂ (hright e u₂ d hu₂)
  | ok b =>
    obtain ⟨rfl, hcut⟩ | ⟨result, t₁, t₂, rfl, ht₁, ht₂⟩ := runs_bind_iff.mp hl
    · exact c.part_append_right (h t none u₁ b hcut hu₁ hls hrs₁) u₂
    have hls₁ : ∀ e ∈ t₁, c.left e := fun e he => hls e (List.mem_append_left _ he)
    have hls₂ : ∀ e ∈ t₂, c.left e := fun e he => hls e (List.mem_append_right _ he)
    have hacc := h t₁ (some result) u₁ b ht₁ hu₁ hls₁ hrs₁
    cases result with
    | error e =>
      obtain ⟨rfl, rfl⟩ := hleft e t₂ r ht₂ hls₂
      rw [List.append_nil]
      exact c.part_append_right hacc.2 u₂
    | ok a =>
      have hrest := hok a b hacc.2 t₂ r u₂ d ht₂ hu₂ hls₂ hrs₂
      cases r with
      | none => exact c.part_append (c.part_of_rel hacc.1) hrest
      | some v => exact ⟨c.rel_append hacc.1 hrest.1, hrest.2⟩

/-- The same for a result that a fallible process looks at: after a failure the left process fails
or is cut off, and does nothing that the comparison sees. -/
theorem Tracks.lift_run_bind {f : Except ε α → Fallible O R ε γ}
    {g : Except ε β → Fallible O R ε δ} {S' : γ → δ → Prop} (h : Tracks c x y S)
    (hok : ∀ a b, S a b → Tracks c (f (.ok a)) (g (.ok b)) S')
    (hleft : ∀ e t v, Runs (f (.error e)).run t (some (.ok v)) → ¬ ∀ e ∈ t, c.left e)
    (hpart : ∀ e t r, Runs (f (.error e)).run t r → (∀ e ∈ t, c.left e) → c.part t [])
    (hright : ∀ e u d, Runs (g (.error e)).run u (some (.ok d)) → ¬ ∀ e ∈ u, c.right e) :
    Tracks c (ExceptT.lift x.run >>= f) (ExceptT.lift y.run >>= g) S' := by
  intro t r u d hl hr hls hrs
  obtain ⟨hd, -⟩ | ⟨e, hd, -⟩ | ⟨result, u₁, u₂, rfl, hu₁, hu₂⟩ := runs_run_bind hr
  · cases hd
  · cases hd
  have hrs₁ : ∀ e ∈ u₁, c.right e := fun e he => hrs e (List.mem_append_left _ he)
  have hrs₂ : ∀ e ∈ u₂, c.right e := fun e he => hrs e (List.mem_append_right _ he)
  obtain ⟨hd, -⟩ | ⟨result', hd, hy⟩ := runs_run_lift hu₁
  · cases hd
  obtain rfl : result = result' := by simpa using hd
  cases result with
  | error e => exact absurd hrs₂ (hright e u₂ d hu₂)
  | ok b =>
    obtain ⟨rfl, hcut⟩ | ⟨e, rfl, hfail⟩ | ⟨result, t₁, t₂, rfl, ht₁, ht₂⟩ := runs_run_bind hl
    · obtain ⟨-, hx⟩ | ⟨_, h', -⟩ := runs_run_lift hcut
      · exact c.part_append_right (h t none u₁ b hx hy hls hrs₁) u₂
      · cases h'
    · obtain ⟨h', -⟩ | ⟨_, h', -⟩ := runs_run_lift hfail
      · cases h'
      · cases h'
    have hls₁ : ∀ e ∈ t₁, c.left e := fun e he => hls e (List.mem_append_left _ he)
    have hls₂ : ∀ e ∈ t₂, c.left e := fun e he => hls e (List.mem_append_right _ he)
    obtain ⟨h', -⟩ | ⟨result', h', hx⟩ := runs_run_lift ht₁
    · cases h'
    obtain rfl : result = result' := by simpa using h'
    have hacc := h t₁ (some result) u₁ b hx hy hls₁ hrs₁
    cases result with
    | error e =>
      have hp : c.part (t₁ ++ t₂) (u₁ ++ u₂) := by
        have := c.part_append hacc.2 (hpart e t₂ r ht₂ hls₂)
        rw [List.append_nil] at this
        exact c.part_append_right this u₂
      rcases r with _ | e' | v
      · exact hp
      · exact ⟨hacc.1, hp⟩
      · exact absurd hls₂ (hleft e t₂ v ht₂)
    | ok a =>
      have hrest := hok a b hacc.2 t₂ r u₂ d ht₂ hu₂ hls₂ hrs₂
      rcases r with _ | e | v
      · exact c.part_append (c.part_of_rel hacc.1) hrest
      · exact ⟨hrest.1, c.part_append (c.part_of_rel hacc.1) hrest.2⟩
      · exact ⟨c.rel_append hacc.1 hrest.1, hrest.2⟩

end Proc

end KakuneCore

/-
# Computations whose effects stay

A computation in `EStateM` that fails leaves what it has done so far.  What a whole computation
preserves follows from what its steps preserve (`Preserves`), and a loop that fails has done
exactly the steps in front of the failing one (`each_cases`).
-/
import Mathlib.Tactic

namespace Effects

universe u

variable {ε σ α β : Type u}

/-- The state a computation leaves. -/
def after : EStateM.Result ε σ α → σ
  | .ok _ s => s
  | .error _ s => s

/-- A value, or the failure without it. -/
def attempt (x : Except ε α) : EStateM ε σ α := fun s =>
  match x with
  | .ok a => .ok a s
  | .error e => .error e s

/-! ## Sequencing -/

theorem bind_run (x : EStateM ε σ α) (f : α → EStateM ε σ β) (s : σ) :
    (x >>= f) s = match x s with
      | .ok a s' => f a s'
      | .error e s' => .error e s' := rfl

theorem bind_of_ok {x : EStateM ε σ α} {s s' : σ} {a : α} (h : x s = .ok a s')
    (f : α → EStateM ε σ β) : (x >>= f) s = f a s' := by
  rw [bind_run, h]

theorem bind_of_error {x : EStateM ε σ α} {s s' : σ} {e : ε} (h : x s = .error e s')
    (f : α → EStateM ε σ β) : (x >>= f) s = .error e s' := by
  rw [bind_run, h]

theorem bind_ok {x : EStateM ε σ α} {f : α → EStateM ε σ β} {s s' : σ} {b : β}
    (h : (x >>= f) s = .ok b s') : ∃ a s₁, x s = .ok a s₁ ∧ f a s₁ = .ok b s' := by
  rw [bind_run] at h
  rcases hx : x s with ⟨a, s₁⟩ | ⟨e, s₁⟩
  · rw [hx] at h
    exact ⟨a, s₁, rfl, h⟩
  · rw [hx] at h
    cases h

/-- A sequence fails in its first part, or in its second. -/
theorem bind_error {x : EStateM ε σ α} {f : α → EStateM ε σ β} {s s' : σ} {e : ε}
    (h : (x >>= f) s = .error e s') :
    x s = .error e s' ∨ ∃ a s₁, x s = .ok a s₁ ∧ f a s₁ = .error e s' := by
  rw [bind_run] at h
  rcases hx : x s with ⟨a, s₁⟩ | ⟨e', s₁⟩
  · rw [hx] at h
    exact Or.inr ⟨a, s₁, rfl, h⟩
  · rw [hx] at h
    obtain ⟨rfl, rfl⟩ := EStateM.Result.error.inj h
    exact Or.inl rfl

theorem attempt_ok {x : Except ε α} {s s' : σ} {a : α} (h : attempt x s = .ok a s') :
    x = .ok a ∧ s' = s := by
  cases x with
  | error e => cases h
  | ok b =>
    obtain ⟨rfl, rfl⟩ := EStateM.Result.ok.inj h
    exact ⟨rfl, rfl⟩

/-- A value is there, and the rest runs from the same state. -/
theorem attempt_bind_ok {x : Except ε α} {f : α → EStateM ε σ β} {s s' : σ} {b : β}
    (h : (attempt x >>= f) s = .ok b s') : ∃ a, x = .ok a ∧ f a s = .ok b s' := by
  cases x with
  | error e => cases h
  | ok a => exact ⟨a, rfl, h⟩

theorem get_bind_ok {f : σ → EStateM ε σ β} {s s' : σ} {b : β} (h : (get >>= f) s = .ok b s') :
    f s s = .ok b s' := h

/-! ## What is preserved -/

/-- Whether it fails or not, `x` leaves a state that is `R`-related to the one it found. -/
def Preserves (R : σ → σ → Prop) (x : EStateM ε σ α) : Prop := ∀ s, R s (after (x s))

section Preserves

variable {R : σ → σ → Prop}

theorem Preserves.pure (hrefl : ∀ s, R s s) (a : α) : Preserves R (pure a : EStateM ε σ α) := hrefl

theorem Preserves.throw (hrefl : ∀ s, R s s) (e : ε) :
    Preserves R (throw e : EStateM ε σ α) := hrefl

theorem Preserves.attempt (hrefl : ∀ s, R s s) (x : Except ε α) :
    Preserves R (attempt x : EStateM ε σ α) := by
  intro s
  cases x with
  | ok a => exact hrefl s
  | error e => exact hrefl s

theorem Preserves.get (hrefl : ∀ s, R s s) : Preserves R (get : EStateM ε σ σ) := hrefl

theorem Preserves.mono {R' : σ → σ → Prop} (hsub : ∀ {s s'}, R s s' → R' s s')
    {x : EStateM ε σ α} (hx : Preserves R x) : Preserves R' x := fun s => hsub (hx s)

theorem Preserves.bind (htrans : ∀ a b c, R a b → R b c → R a c) {x : EStateM ε σ α}
    {f : α → EStateM ε σ β} (hx : Preserves R x) (hf : ∀ a, Preserves R (f a)) :
    Preserves R (x >>= f) := by
  intro s
  have hs := hx s
  rw [bind_run]
  rcases hrun : x s with ⟨a, s'⟩ | ⟨e, s'⟩
  · rw [hrun] at hs
    exact htrans _ _ _ hs (hf a s')
  · rw [hrun] at hs
    exact hs

/-- A step that reads the state and puts another one in its place. -/
theorem Preserves.update {f : σ → σ} {g : σ → α} (h : ∀ s, R s (f s)) :
    Preserves R (do let s ← MonadState.get; set (f s); return g s : EStateM ε σ α) := h

theorem Preserves.ok {x : EStateM ε σ α} {s s' : σ} {a : α} (hx : Preserves R x)
    (h : x s = .ok a s') : R s s' := by
  have hs := hx s
  rwa [h] at hs

theorem Preserves.error {x : EStateM ε σ α} {s s' : σ} {e : ε} (hx : Preserves R x)
    (h : x s = .error e s') : R s s' := by
  have hs := hx s
  rwa [h] at hs

end Preserves

/-! ## All or nothing -/

/-- A computation that fails has changed nothing. -/
def Atomic (x : EStateM ε σ α) : Prop := ∀ {s s' : σ} {e : ε}, x s = .error e s' → s' = s

theorem Atomic.throw (e : ε) : Atomic (throw e : EStateM ε σ α) :=
  fun h => (EStateM.Result.error.inj h).2.symm

theorem Atomic.set (s : σ) : Atomic (set s : EStateM ε σ PUnit) := nofun

theorem Atomic.attempt_bind {x : Except ε α} {f : α → EStateM ε σ β} (hf : ∀ a, Atomic (f a)) :
    Atomic (attempt x >>= f) := by
  intro s s' e h
  cases x with
  | error e' => exact (EStateM.Result.error.inj h).2.symm
  | ok a => exact hf a h

theorem Atomic.get_bind {f : σ → EStateM ε σ β} (hf : ∀ s, Atomic (f s)) :
    Atomic (get >>= f) := fun h => hf _ h

/-! ## Loops -/

/-- Does `f` for each element in order, up to one where it fails. -/
def each (f : α → EStateM ε σ PUnit) : List α → EStateM ε σ PUnit
  | [] => pure ⟨⟩
  | a :: as => do
    f a
    each f as

/-- The values of `f` at the elements, in order. -/
def collect (f : α → EStateM ε σ β) : List α → EStateM ε σ (List β)
  | [] => pure []
  | a :: as => do
    let b ← f a
    let bs ← collect f as
    return b :: bs

theorem Preserves.collect {R : σ → σ → Prop} (hrefl : ∀ s, R s s)
    (htrans : ∀ a b c, R a b → R b c → R a c) {f : α → EStateM ε σ β} {as : List α}
    (hf : ∀ a ∈ as, Preserves R (f a)) : Preserves R (collect f as) := by
  induction as with
  | nil => exact .pure hrefl _
  | cons a as ih =>
    exact .bind htrans (hf a List.mem_cons_self) fun _ =>
      .bind htrans (ih fun b hb => hf b (List.mem_cons_of_mem a hb)) fun _ => .pure hrefl _

theorem each_append (f : α → EStateM ε σ PUnit) (as bs : List α) :
    each f (as ++ bs) = (each f as >>= fun _ => each f bs) := by
  funext s
  induction as generalizing s with
  | nil => rfl
  | cons a as ih =>
    show (f a >>= fun _ => each f (as ++ bs)) s
      = ((f a >>= fun _ => each f as) >>= fun _ => each f bs) s
    rw [bind_run, bind_run, bind_run]
    cases f a s with
    | ok u s' => exact ih s'
    | error e s' => rfl

/-- A loop that does nothing for some elements is the loop over the others. -/
theorem each_filterMap {γ : Type u} {f : α → EStateM ε σ PUnit} {f' : γ → EStateM ε σ PUnit}
    {g : α → Option γ} (h : ∀ a, f a = (g a).elim (pure ⟨⟩) f') (as : List α) :
    each f as = each f' (as.filterMap g) := by
  induction as with
  | nil => rfl
  | cons a as ih =>
    show (f a >>= fun _ => each f as) = _
    rw [h, ih]
    cases hg : g a with
    | none => rw [List.filterMap_cons_none hg]; rfl
    | some c => rw [List.filterMap_cons_some hg]; rfl

/-- What holds of each value of a loop when it is there, and stays, holds of all in the end. -/
theorem collect_forall {R : σ → σ → Prop} {Q : σ → β → Prop} (hrefl : ∀ s, R s s)
    (htrans : ∀ a b c, R a b → R b c → R a c) (hstay : ∀ {s s' b}, R s s' → Q s b → Q s' b)
    {f : α → EStateM ε σ β} {as : List α} {bs : List β} {s s' : σ}
    (hf : ∀ a ∈ as, ∀ s₁ b s₂, R s s₁ → f a s₁ = .ok b s₂ → R s₁ s₂ ∧ Q s₂ b)
    (h : collect f as s = .ok bs s') : R s s' ∧ (∀ b ∈ bs, Q s' b) ∧ bs.length = as.length := by
  induction as generalizing s bs with
  | nil =>
    obtain ⟨rfl, rfl⟩ := EStateM.Result.ok.inj h
    exact ⟨hrefl s, fun b hb => absurd hb List.not_mem_nil, rfl⟩
  | cons a as ih =>
    obtain ⟨b, s₁, hb, h⟩ := bind_ok h
    obtain ⟨bs', s₂, hbs, h⟩ := bind_ok h
    obtain ⟨rfl, rfl⟩ := EStateM.Result.ok.inj h
    obtain ⟨hr, hq⟩ := hf a List.mem_cons_self s b s₁ (hrefl s) hb
    obtain ⟨hr', hqs, hlen⟩ := ih (fun c hc s₃ d s₄ h₃ =>
      hf c (List.mem_cons_of_mem a hc) s₃ d s₄ (htrans _ _ _ hr h₃)) hbs
    refine ⟨htrans _ _ _ hr hr', ?_, by rw [List.length_cons, List.length_cons, hlen]⟩
    intro d hd
    rcases List.mem_cons.mp hd with rfl | hd
    · exact hstay hr' hq
    · exact hqs d hd

/-- The effects of the elements, one after the other. -/
inductive Steps (R : α → σ → σ → Prop) : List α → σ → σ → Prop where
  | nil (s : σ) : Steps R [] s s
  | cons {a : α} {as : List α} {s s₁ s' : σ} : R a s s₁ → Steps R as s₁ s' → Steps R (a :: as) s s'

theorem each_steps {f : α → EStateM ε σ PUnit} {R : α → σ → σ → Prop}
    (hf : ∀ {a s s'}, f a s = .ok ⟨⟩ s' → R a s s') {as : List α} {s s' : σ}
    (h : each f as s = .ok ⟨⟩ s') : Steps R as s s' := by
  induction as generalizing s with
  | nil =>
    obtain ⟨-, rfl⟩ := EStateM.Result.ok.inj h
    exact .nil s
  | cons a as ih =>
    obtain ⟨u, s₁, ha, h⟩ := bind_ok h
    exact .cons (hf ha) (ih h)

/-- What each effect carries on from the elements in front of it to those with its own, a run
carries on to all. -/
theorem Steps.carry {R : α → σ → σ → Prop} {I : List α → σ → Prop}
    (hstep : ∀ {done a s s'}, I done s → R a s s' → I (done ++ [a]) s') {as done : List α}
    {s s' : σ} (h : Steps R as s s') (hi : I done s) : I (done ++ as) s' := by
  induction h generalizing done with
  | nil s => rwa [List.append_nil]
  | @cons a as s s₁ s' ha h ih =>
    have := ih (hstep hi ha)
    rwa [List.append_assoc, List.singleton_append] at this

/-- A loop runs to its end, or it stops at an element after having done those in front of it. -/
theorem each_cases (f : α → EStateM ε σ PUnit) (as : List α) (s : σ) :
    (∃ s', each f as s = .ok ⟨⟩ s') ∨
      ∃ done a rest s₁ e s', as = done ++ a :: rest ∧ each f done s = .ok ⟨⟩ s₁ ∧
        f a s₁ = .error e s' ∧ each f as s = .error e s' := by
  induction as generalizing s with
  | nil => exact Or.inl ⟨s, rfl⟩
  | cons a as ih =>
    rcases hf : f a s with ⟨u, s₁⟩ | ⟨e, s₁⟩
    · have hrun : each f (a :: as) s = each f as s₁ := bind_of_ok hf _
      rcases ih s₁ with ⟨s', h⟩ | ⟨done, b, rest, s₂, e, s', rfl, hdone, hb, h⟩
      · exact Or.inl ⟨s', hrun.trans h⟩
      · exact Or.inr ⟨a :: done, b, rest, s₂, e, s', rfl, (bind_of_ok hf _).trans hdone, hb,
          hrun.trans h⟩
    · exact Or.inr ⟨[], a, as, s, e, s₁, rfl, rfl, hf, bind_of_error hf _⟩

end Effects

import Mathlib.Data.List.Basic

/-!
# Reactive machines and their runs

A reactive machine answers every action of its environment with a next state
and with the outputs made on the way, in order. `enabled` says what the
environment may do in a state; `step` says what the program does then. A run is
a list of actions, and everything said about a run is a recursion along that
list with the current state carried along: `after` is the state reached,
`outputs` is what was put out, and `Along P` says that `P` holds of the state
and the action of every step. A run is `Admissible` when each of its actions is
enabled where it is taken.
-/

namespace Reactive

/-- A reactive machine with states `σ`, actions `α` and outputs `ο`. -/
structure Machine (σ α ο : Type*) where
  /-- What the environment may do in a state. -/
  enabled : σ → α → Prop
  /-- The next state, and the outputs of the step in the order they are made. -/
  step : σ → α → σ × List ο

namespace Machine

variable {σ α ο : Type*} (M : Machine σ α ο)

/-- The state reached from `s` along the actions. -/
def after : σ → List α → σ
  | s, [] => s
  | s, a :: as => after (M.step s a).1 as

/-- The outputs made from `s` along the actions. -/
def outputs : σ → List α → List ο
  | _, [] => []
  | s, a :: as => (M.step s a).2 ++ outputs (M.step s a).1 as

/-- `P` holds of the state and the action of every step from `s`. -/
def Along (P : σ → α → Prop) : σ → List α → Prop
  | _, [] => True
  | s, a :: as => P s a ∧ Along P (M.step s a).1 as

/-- Every action is enabled in the state in which it is taken. -/
def Admissible (s : σ) (as : List α) : Prop :=
  M.Along M.enabled s as

instance decidableAlong {P : σ → α → Prop} [∀ s a, Decidable (P s a)] :
    ∀ s as, Decidable (M.Along P s as)
  | _, [] => inferInstanceAs (Decidable True)
  | s, a :: as =>
      have := decidableAlong (P := P) (M.step s a).1 as
      inferInstanceAs (Decidable (P s a ∧ M.Along P (M.step s a).1 as))

instance decidableAdmissible [∀ s a, Decidable (M.enabled s a)] (s : σ) (as : List α) :
    Decidable (M.Admissible s as) :=
  inferInstanceAs (Decidable (M.Along M.enabled s as))

@[simp] theorem after_nil (s : σ) : M.after s [] = s := rfl

@[simp] theorem after_cons (s : σ) (a : α) (as : List α) :
    M.after s (a :: as) = M.after (M.step s a).1 as := rfl

@[simp] theorem outputs_nil (s : σ) : M.outputs s [] = [] := rfl

@[simp] theorem outputs_cons (s : σ) (a : α) (as : List α) :
    M.outputs s (a :: as) = (M.step s a).2 ++ M.outputs (M.step s a).1 as := rfl

@[simp] theorem along_nil (P : σ → α → Prop) (s : σ) : M.Along P s [] := trivial

@[simp] theorem along_cons (P : σ → α → Prop) (s : σ) (a : α) (as : List α) :
    M.Along P s (a :: as) ↔ P s a ∧ M.Along P (M.step s a).1 as := Iff.rfl

@[simp] theorem admissible_nil (s : σ) : M.Admissible s [] := trivial

@[simp] theorem admissible_cons (s : σ) (a : α) (as : List α) :
    M.Admissible s (a :: as) ↔ M.enabled s a ∧ M.Admissible (M.step s a).1 as := Iff.rfl

theorem after_append (s : σ) (as bs : List α) :
    M.after s (as ++ bs) = M.after (M.after s as) bs := by
  induction as generalizing s with
  | nil => rfl
  | cons a as ih => exact ih (M.step s a).1

theorem outputs_append (s : σ) (as bs : List α) :
    M.outputs s (as ++ bs) = M.outputs s as ++ M.outputs (M.after s as) bs := by
  induction as generalizing s with
  | nil => rfl
  | cons a as ih => simp [ih (M.step s a).1]

theorem along_append (P : σ → α → Prop) (s : σ) (as bs : List α) :
    M.Along P s (as ++ bs) ↔ M.Along P s as ∧ M.Along P (M.after s as) bs := by
  induction as generalizing s with
  | nil => simp
  | cons a as ih =>
      rw [List.cons_append, along_cons, along_cons, ih (M.step s a).1, and_assoc, after_cons]

theorem admissible_append (s : σ) (as bs : List α) :
    M.Admissible s (as ++ bs) ↔ M.Admissible s as ∧ M.Admissible (M.after s as) bs :=
  M.along_append M.enabled s as bs

theorem admissible_append_cons (s : σ) (as : List α) (a : α) (bs : List α) :
    M.Admissible s (as ++ a :: bs) ↔
      M.Admissible s (as ++ [a]) ∧ M.Admissible (M.after s (as ++ [a])) bs := by
  rw [← List.singleton_append, ← List.append_assoc, admissible_append]

theorem along_of_forall {P : σ → α → Prop} (h : ∀ s a, P s a) (s : σ) (as : List α) :
    M.Along P s as := by
  induction as generalizing s with
  | nil => trivial
  | cons a as ih => exact ⟨h s a, ih (M.step s a).1⟩

/-- A step predicate read at each place of the run: the steps of `as` are the
places where it splits into the actions before and the actions after. -/
theorem along_iff_forall_split (P : σ → α → Prop) (s : σ) (as : List α) :
    M.Along P s as ↔
      ∀ pre a post, as = pre ++ a :: post → P (M.after s pre) a := by
  constructor
  · rintro h pre a post rfl
    rw [along_append, along_cons] at h
    exact h.2.1
  · intro h
    induction as generalizing s with
    | nil => trivial
    | cons a as ih =>
        refine ⟨h [] a as rfl, ih (M.step s a).1 ?_⟩
        rintro pre b post rfl
        exact h (a :: pre) b post rfl

variable {M}

/-- The invariant rule: what every enabled step preserves holds at the end of
every admissible run. -/
theorem Admissible.invariant {I : σ → Prop}
    (hstep : ∀ s a, I s → M.enabled s a → I (M.step s a).1)
    {s : σ} {as : List α} (h : M.Admissible s as) (hs : I s) : I (M.after s as) := by
  induction as generalizing s with
  | nil => exact hs
  | cons a as ih => exact ih h.2 (hstep s a hs h.1)

/-- The history rule: what relates the state to the outputs made so far, and is kept
by every enabled step, relates the end of every admissible run to its outputs. -/
theorem Admissible.history {J : σ → List ο → Prop}
    (hstep : ∀ s os a, J s os → M.enabled s a → J (M.step s a).1 (os ++ (M.step s a).2))
    {s : σ} {as : List α} (h : M.Admissible s as) (hs : J s []) :
    J (M.after s as) (M.outputs s as) := by
  suffices hgen : ∀ os, J s os → J (M.after s as) (os ++ M.outputs s as) from hgen [] hs
  clear hs
  induction as generalizing s with
  | nil =>
      intro os hs
      simpa using hs
  | cons a as ih =>
      intro os hs
      have hrest := ih h.2 _ (hstep s os a hs h.1)
      rwa [List.append_assoc] at hrest

/-- Two step predicates that agree on the enabled steps out of the states of an
invariant agree along every admissible run. -/
theorem Admissible.along_congr {I : σ → Prop} {P Q : σ → α → Prop}
    (hstep : ∀ s a, I s → M.enabled s a → I (M.step s a).1)
    (hPQ : ∀ s a, I s → M.enabled s a → (P s a ↔ Q s a))
    {s : σ} {as : List α} (h : M.Admissible s as) (hs : I s) :
    M.Along P s as ↔ M.Along Q s as := by
  induction as generalizing s with
  | nil => exact Iff.rfl
  | cons a as ih =>
      exact and_congr (hPQ s a hs h.1) (ih h.2 (hstep s a hs h.1))

/-- The projection rule: where what `view` selects of each step's outputs is a
function `f` of the action alone, what it selects of a run's outputs is the
concatenation of `f` over its actions. -/
theorem Admissible.filterMap_outputs {ω : Type*} {I : σ → Prop} {A : α → Prop}
    {view : ο → Option ω} {f : α → List ω}
    (hstep : ∀ s a, I s → M.enabled s a → A a →
      I (M.step s a).1 ∧ (M.step s a).2.filterMap view = f a)
    {s : σ} {as : List α} (h : M.Admissible s as) (hA : ∀ a ∈ as, A a) (hs : I s) :
    (M.outputs s as).filterMap view = as.flatMap f := by
  induction as generalizing s with
  | nil => rfl
  | cons a as ih =>
      obtain ⟨hI, hf⟩ := hstep s a hs h.1 (hA a List.mem_cons_self)
      rw [outputs_cons, List.filterMap_append, hf, List.flatMap_cons,
        ih h.2 (fun b hb => hA b (List.mem_cons_of_mem a hb)) hI]

end Machine

end Reactive

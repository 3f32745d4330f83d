import CTDSensorSuite.Reactive.Machine

/-!
# Simulation of one machine by another

A simulation reads a concrete machine `M` as an abstract machine `N`: a state is
read by `abs`, and a step in state `s` by a list `trace s a` of abstract actions,
possibly empty, that are admissible, lead to the reading of the next state and
make the outputs that `view` selects. Steps outside `allowed` are not simulated.
Every admissible run of allowed steps is then an admissible run of `N`, so what
holds of the runs of `N` holds of the runs of `M` as `N` sees them.
-/

namespace Reactive

/-- A simulation of the allowed steps of `M` by runs of `N`. -/
structure Simulation {σ α ο τ β π : Type*} (M : Machine σ α ο) (N : Machine τ β π) where
  abs : σ → τ
  trace : σ → α → List β
  view : ο → Option π
  allowed : σ → α → Prop
  admissible_trace : ∀ s a, M.enabled s a → allowed s a → N.Admissible (abs s) (trace s a)
  after_trace : ∀ s a, M.enabled s a → allowed s a →
    N.after (abs s) (trace s a) = abs (M.step s a).1
  outputs_trace : ∀ s a, M.enabled s a → allowed s a →
    N.outputs (abs s) (trace s a) = (M.step s a).2.filterMap view

namespace Simulation

variable {σ α ο τ β π : Type*} {M : Machine σ α ο} {N : Machine τ β π} (S : Simulation M N)

/-- The abstract actions of a concrete run. -/
def traceAlong : σ → List α → List β
  | _, [] => []
  | s, a :: as => S.trace s a ++ traceAlong (M.step s a).1 as

@[simp] theorem traceAlong_nil (s : σ) : S.traceAlong s [] = [] := rfl

@[simp] theorem traceAlong_cons (s : σ) (a : α) (as : List α) :
    S.traceAlong s (a :: as) = S.trace s a ++ S.traceAlong (M.step s a).1 as := rfl

variable {s : σ} {as : List α}

theorem after_traceAlong (h : M.Admissible s as) (ha : M.Along S.allowed s as) :
    N.after (S.abs s) (S.traceAlong s as) = S.abs (M.after s as) := by
  induction as generalizing s with
  | nil => rfl
  | cons a as ih =>
      rw [traceAlong_cons, Machine.after_append, S.after_trace s a h.1 ha.1, ih h.2 ha.2,
        Machine.after_cons]

theorem admissible_traceAlong (h : M.Admissible s as) (ha : M.Along S.allowed s as) :
    N.Admissible (S.abs s) (S.traceAlong s as) := by
  induction as generalizing s with
  | nil => trivial
  | cons a as ih =>
      rw [traceAlong_cons, Machine.admissible_append, S.after_trace s a h.1 ha.1]
      exact ⟨S.admissible_trace s a h.1 ha.1, ih h.2 ha.2⟩

theorem outputs_traceAlong (h : M.Admissible s as) (ha : M.Along S.allowed s as) :
    N.outputs (S.abs s) (S.traceAlong s as) = (M.outputs s as).filterMap S.view := by
  induction as generalizing s with
  | nil => rfl
  | cons a as ih =>
      rw [traceAlong_cons, Machine.outputs_append, S.after_trace s a h.1 ha.1,
        S.outputs_trace s a h.1 ha.1, ih h.2 ha.2, Machine.outputs_cons, List.filterMap_append]

theorem traceAlong_append (s : σ) (as bs : List α) :
    S.traceAlong s (as ++ bs) = S.traceAlong s as ++ S.traceAlong (M.after s as) bs := by
  induction as generalizing s with
  | nil => rfl
  | cons a as ih =>
      rw [List.cons_append, traceAlong_cons, traceAlong_cons, ih, List.append_assoc,
        Machine.after_cons]

/-- What the steps out of the states of an invariant are read as holds of all that a
run is read as. -/
theorem forall_mem_traceAlong {I : σ → Prop} {P : α → Prop} {Q : β → Prop}
    (hI : ∀ s a, I s → M.enabled s a → I (M.step s a).1)
    (hQ : ∀ s a, I s → P a → ∀ b ∈ S.trace s a, Q b)
    (h : M.Admissible s as) (hP : ∀ a ∈ as, P a) (hs : I s) :
    ∀ b ∈ S.traceAlong s as, Q b := by
  induction as generalizing s with
  | nil => exact fun b hb => absurd hb List.not_mem_nil
  | cons a as ih =>
      intro b hb
      rcases List.mem_append.1 hb with hstep | hrest
      · exact hQ s a hs (hP a List.mem_cons_self) b hstep
      · exact ih h.2 (fun c hc => hP c (List.mem_cons_of_mem a hc)) (hI s a hs h.1) b hrest

/-- Where `key` reads in each step what `key'` reads of the concrete action, it reads
in a run what `key'` reads of the concrete run. -/
theorem filterMap_traceAlong {γ : Type*} {key : β → Option γ} {key' : α → Option γ}
    (h : ∀ s a, (S.trace s a).filterMap key = (key' a).toList) (s : σ) (as : List α) :
    (S.traceAlong s as).filterMap key = as.filterMap key' := by
  induction as generalizing s with
  | nil => rfl
  | cons a as ih =>
      rw [traceAlong_cons, List.filterMap_append, h, ih]
      cases hkey : key' a with
      | none => exact (List.filterMap_cons_none hkey).symm
      | some c => exact (List.filterMap_cons_some hkey).symm

end Simulation

end Reactive

import CTDSensorSuite.Reactive.Machine

/-!
# Machines that can crash

A step that can fail is a function into `Except`. `Ends E P x` says how such a
computation ends: in a value of which `P` holds, or in an error of which `E` holds. It
goes through a composition step by step, as a rule of postconditions does.

A machine whose steps can fail is a reactive machine on the states and the errors: after
an error nothing is enabled any more. The history rule for such machines asks of every
step that it ends well or in an error that `E` allows.
-/

namespace Reactive

universe u

variable {σ α ο ε : Type*} {β γ : Type u}

/-- The computation ends in a value with `P`, or in an error with `E`. -/
def Ends (E : ε → Prop) (P : β → Prop) : Except ε β → Prop
  | .ok b => P b
  | .error e => E e

section Ends

variable {E : ε → Prop} {P Q : β → Prop} {R : γ → Prop} {x : Except ε β}

@[simp] theorem ends_ok {b : β} : Ends E P (.ok b) ↔ P b := Iff.rfl

@[simp] theorem ends_error {e : ε} : Ends E P (.error e) ↔ E e := Iff.rfl

theorem Ends.mono (h : Ends E P x) (hPQ : ∀ b, P b → Q b) : Ends E Q x := by
  cases x with
  | error e => exact h
  | ok b => exact hPQ b h

theorem Ends.mono_error {E' : ε → Prop} (h : Ends E P x) (hE : ∀ e, E e → E' e) :
    Ends E' P x := by
  cases x with
  | error e => exact hE e h
  | ok b => exact h

/-- What comes second starts from what the first ends in. -/
theorem Ends.bind {f : β → Except ε γ} (h : Ends E P x) (hf : ∀ b, P b → Ends E R (f b)) :
    Ends E R (x >>= f) := by
  cases x with
  | error e => exact h
  | ok b => exact hf b h

theorem Ends.and {E' : ε → Prop} (h : Ends E P x) (h' : Ends E' Q x) :
    Ends E (fun b => P b ∧ Q b) x := by
  cases x with
  | error e => exact h
  | ok b => exact ⟨h, h'⟩

end Ends

namespace Machine

/-- The machine of steps that can fail. -/
def crashing (can : σ → α → Prop) (act : σ → α → Except ε (σ × List ο)) :
    Machine (Except ε σ) α ο where
  enabled
    | .ok s, a => can s a
    | .error _, _ => False
  step
    | .ok s, a =>
        match act s a with
        | .ok (s, os) => (.ok s, os)
        | .error e => (.error e, [])
    | .error e, _ => (.error e, [])

variable {can : σ → α → Prop} {act : σ → α → Except ε (σ × List ο)} {s : σ} {as : List α}

instance decidableCrashing [∀ s a, Decidable (can s a)] (s : Except ε σ) (a : α) :
    Decidable ((crashing can act).enabled s a) :=
  match s with
  | .ok s => inferInstanceAs (Decidable (can s a))
  | .error _ => inferInstanceAs (Decidable False)

theorem crashing_step_ok {a : α} {r : σ × List ο} (h : act s a = .ok r) :
    (crashing can act).step (.ok s) a = (.ok r.1, r.2) := by
  simp only [crashing, h]

theorem crashing_step_error {a : α} {e : ε} (h : act s a = .error e) :
    (crashing can act).step (.ok s) a = (.error e, []) := by
  simp only [crashing, h]

/-- Nothing follows an error. -/
theorem Admissible.eq_nil_of_error {e : ε}
    (h : (crashing can act).Admissible (.error e) as) : as = [] := by
  cases as with
  | nil => rfl
  | cons a as => exact h.1.elim

/-- The last action of a run is taken in a state. -/
theorem Admissible.exists_last {a : α} (h : (crashing can act).Admissible (.ok s) (as ++ [a])) :
    (crashing can act).Admissible (.ok s) as ∧
      ∃ s', (crashing can act).after (.ok s) as = .ok s' ∧ can s' a ∧
        (crashing can act).after (.ok s) (as ++ [a]) = (act s' a).map Prod.fst := by
  rw [admissible_append] at h
  obtain ⟨has, ha, -⟩ := h
  refine ⟨has, ?_⟩
  cases hafter : (crashing can act).after (.ok s) as with
  | error e =>
      rw [hafter] at ha
      exact ha.elim
  | ok s' =>
      rw [hafter] at ha
      refine ⟨s', rfl, ha, ?_⟩
      rw [after_append, hafter, after_cons, after_nil]
      cases hact : act s' a with
      | error e => rw [crashing_step_error hact]; rfl
      | ok r => rw [crashing_step_ok hact]; rfl

/-- The history rule: where every step that is possible ends in a state that fits the actions and
the outputs so far or in an error with `E`, so does every admissible run with actions of which
`A` holds. -/
theorem Admissible.history_crashing {E : ε → Prop} {J : σ → List α → List ο → Prop}
    {A : α → Prop}
    (hstep : ∀ s bs os a, J s bs os → can s a → A a →
      Ends E (fun r => J r.1 (bs ++ [a]) (os ++ r.2)) (act s a))
    (h : (crashing can act).Admissible (.ok s) as) (hA : ∀ a ∈ as, A a) (hs : J s [] []) :
    Ends E (fun s' => J s' as ((crashing can act).outputs (.ok s) as))
      ((crashing can act).after (.ok s) as) := by
  suffices hgen : ∀ bs os, J s bs os → Ends E
      (fun s' => J s' (bs ++ as) (os ++ (crashing can act).outputs (.ok s) as))
      ((crashing can act).after (.ok s) as) from hgen [] [] hs
  clear hs
  induction as generalizing s with
  | nil =>
      intro bs os hs
      simpa using hs
  | cons a as ih =>
      intro bs os hs
      have hends := hstep s bs os a hs h.1 (hA a List.mem_cons_self)
      have hrest := h.2
      rw [after_cons, outputs_cons]
      cases hact : act s a with
      | error e =>
          rw [crashing_step_error hact] at hrest ⊢
          rw [hact] at hends
          obtain rfl := Admissible.eq_nil_of_error hrest
          exact hends
      | ok r =>
          rw [crashing_step_ok hact] at hrest ⊢
          rw [hact] at hends
          have htail := ih hrest (fun b hb => hA b (List.mem_cons_of_mem a hb)) (bs ++ [a])
            (os ++ r.2) hends
          rwa [List.append_assoc, List.append_assoc] at htail

end Machine

end Reactive

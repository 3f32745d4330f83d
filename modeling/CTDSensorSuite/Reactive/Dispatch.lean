import Mathlib.Dynamics.FixedPoints.Basic
import Mathlib.Data.List.Basic

/-!
# Dispatching a shared payload to a list of listeners

An emitter calls its listeners one after the other, in the order in which they
were registered, and hands all of them the same payload object: a listener that
writes to the payload changes what the listeners after it read. `dispatch call`
is that loop, with the payload threaded through the calls and the outputs of
the calls collected in order.

Where every listener treats the payload in the same way `f`, the listener at
place `n` reads the payload after `n` earlier treatments, so it reports
`f^[n + 1] d`. All listeners report the same payload exactly when there is at
most one of them or `f d` is a fixed point of `f`.
-/

namespace Reactive

variable {ι δ ο : Type*}

/-- Call the listeners in order, each on the payload as the one before it left
it; the payload left in the end, and the outputs of the calls in order. -/
def dispatch (call : ι → δ → δ × List ο) : List ι → δ → δ × List ο
  | [], d => (d, [])
  | l :: ls, d =>
      let r := call l d
      let r' := dispatch call ls r.1
      (r'.1, r.2 ++ r'.2)

@[simp] theorem dispatch_nil (call : ι → δ → δ × List ο) (d : δ) :
    dispatch call [] d = (d, []) := rfl

theorem dispatch_cons (call : ι → δ → δ × List ο) (l : ι) (ls : List ι) (d : δ) :
    dispatch call (l :: ls) d =
      ((dispatch call ls (call l d).1).1,
        (call l d).2 ++ (dispatch call ls (call l d).1).2) := rfl

/-- Dispatching to two lists in turn hands the second one the payload that the
first one left. -/
theorem dispatch_append (call : ι → δ → δ × List ο) (ls ls' : List ι) (d : δ) :
    dispatch call (ls ++ ls') d =
      ((dispatch call ls' (dispatch call ls d).1).1,
        (dispatch call ls d).2 ++ (dispatch call ls' (dispatch call ls d).1).2) := by
  induction ls generalizing d with
  | nil => rfl
  | cons l ls ih =>
      rw [List.cons_append, dispatch_cons, ih, dispatch_cons, List.append_assoc]

/-- Listeners whose outputs `view` does not select are not seen in a dispatch. -/
theorem filterMap_dispatch_eq_nil {ω : Type*} {call : ι → δ → δ × List ο} {view : ο → Option ω}
    {ls : List ι} (h : ∀ l ∈ ls, ∀ d, (call l d).2.filterMap view = []) (d : δ) :
    (dispatch call ls d).2.filterMap view = [] := by
  induction ls generalizing d with
  | nil => rfl
  | cons l ls ih =>
      rw [dispatch_cons, List.filterMap_append, h l List.mem_cons_self,
        ih (fun l' hl' => h l' (List.mem_cons_of_mem l hl')), List.append_nil]

section Uniform

variable {call : ι → δ → δ × List ο} {f : δ → δ} {g : ι → δ → ο}

/-- When every listener replaces the payload `d` by `f d` and reports `g l (f d)`,
the report at place `n` is about the payload treated `n + 1` times. -/
theorem dispatch_uniform (hcall : ∀ l d, call l d = (f d, [g l (f d)]))
    (ls : List ι) (d : δ) :
    dispatch call ls d = (f^[ls.length] d, ls.mapIdx fun n l => g l (f^[n + 1] d)) := by
  induction ls generalizing d with
  | nil => rfl
  | cons l ls ih =>
      rw [dispatch_cons, hcall, ih, List.length_cons, List.mapIdx_cons]
      simp [Function.iterate_succ_apply]

/-- Repeated treatment agrees with a single one on the first `k` places exactly
when there is at most one place or a second treatment changes nothing. -/
theorem iterate_agree_iff (f : δ → δ) (d : δ) (k : ℕ) :
    (∀ n < k, f^[n + 1] d = f d) ↔ k ≤ 1 ∨ Function.IsFixedPt f (f d) := by
  constructor
  · intro h
    by_cases hk : k ≤ 1
    · exact Or.inl hk
    · exact Or.inr (h 1 (by omega))
  · intro h n hn
    rcases h with hk | hfix
    · obtain rfl : n = 0 := by omega
      rfl
    · rw [Function.iterate_succ_apply]
      exact hfix.iterate n

end Uniform

end Reactive

import Mathlib.Data.List.Nodup
import Mathlib.Logic.Function.Basic

/-!
# The latest entry of a log, and the cells that show it

`latest key log` is the last entry of `log` on which the partial reading `key`
is defined, as `key` reads it, and `none` when there is no such entry. It is the
meaning of a cell that keeps the last value written to it. The lemmas say how it
is read at the end of a log, across two logs, and through an expansion of every
entry into several.

A table of such cells is a list of entries, and a write goes to the first entry
with its key, as `List.replaceF` does. Where the keys are distinct this is the
update of one cell, and entries behind the first match are never reached.
-/

namespace Reactive

variable {α β γ : Type*}

/-- The last entry of the log on which `key` is defined, as `key` reads it. -/
def latest (key : α → Option β) (log : List α) : Option β :=
  (log.filterMap key).getLast?

@[simp] theorem latest_nil (key : α → Option β) : latest key [] = none := rfl

/-- Across two logs the later one is read first. -/
theorem latest_append (key : α → Option β) (log log' : List α) :
    latest key (log ++ log') = (latest key log').or (latest key log) := by
  simp [latest, List.filterMap_append, List.getLast?_append]

theorem latest_singleton (key : α → Option β) (a : α) : latest key [a] = key a := by
  cases h : key a with
  | none => simp [latest, h]
  | some b => simp [latest, h]

/-- At the end of a log the new entry is read where `key` is defined on it, and
the log before it elsewhere. -/
theorem latest_append_singleton (key : α → Option β) (log : List α) (a : α) :
    latest key (log ++ [a]) = (key a).or (latest key log) := by
  rw [latest_append, latest_singleton]

theorem latest_cons (key : α → Option β) (a : α) (log : List α) :
    latest key (a :: log) = (latest key log).or (key a) := by
  rw [← List.singleton_append, latest_append, latest_singleton]

/-- A log made by expanding every entry of another one is read through the
expansions. -/
theorem latest_flatMap (key : β → Option γ) (f : α → List β) (log : List α) :
    latest key (log.flatMap f) = latest (fun a => latest key (f a)) log := by
  induction log with
  | nil => rfl
  | cons a log ih => rw [List.flatMap_cons, latest_append, ih, latest_cons]

/-- A reading followed by a function reads the log and then applies it. -/
theorem latest_map (key : α → Option β) (f : β → γ) (log : List α) :
    latest (fun a => (key a).map f) log = (latest key log).map f := by
  induction log with
  | nil => rfl
  | cons a log ih =>
      rw [latest_cons, latest_cons, ih]
      cases latest key log with
      | none => rfl
      | some b => rfl

theorem exists_of_latest_eq_some {key : α → Option β} {log : List α} {b : β}
    (h : latest key log = some b) : ∃ a ∈ log, key a = some b :=
  List.mem_filterMap.1 (List.mem_of_getLast? h)

theorem latest_eq_none_iff {key : α → Option β} {log : List α} :
    latest key log = none ↔ ∀ a ∈ log, key a = none := by
  rw [latest, List.getLast?_eq_none_iff, List.filterMap_eq_nil_iff]

/-- Where all readings are the same, it does not matter which one is the last. -/
theorem latest_eq_some_of_forall {key : α → Option β} {log : List α} {b : β}
    (h : ∀ a ∈ log, ∀ c, key a = some c → c = b) (hex : ∃ a ∈ log, key a = some b) :
    latest key log = some b := by
  cases hlatest : latest key log with
  | none =>
      obtain ⟨a, ha, hb⟩ := hex
      simp [latest_eq_none_iff.1 hlatest a ha] at hb
  | some c =>
      obtain ⟨a, ha, hc⟩ := exists_of_latest_eq_some hlatest
      rw [h a ha c hc]

theorem latest_congr {key key' : α → Option β} {log : List α}
    (h : ∀ a ∈ log, key a = key' a) : latest key log = latest key' log :=
  congrArg List.getLast? (List.filterMap_congr h)

/-! ### Writing to the first match -/

/-- A write that finds its entry in the first list does not reach the second. -/
theorem replaceF_append_of_exists {p : α → Option α} {as bs : List α}
    (h : ∃ a ∈ as, (p a).isSome) : (as ++ bs).replaceF p = as.replaceF p ++ bs := by
  induction as with
  | nil => simp at h
  | cons a as ih =>
      cases hp : p a with
      | some a' =>
          rw [List.cons_append, List.replaceF_cons_of_some _ hp,
            List.replaceF_cons_of_some _ hp, List.cons_append]
      | none =>
          have hrest : ∃ b ∈ as, (p b).isSome := by simpa [hp] using h
          rw [List.cons_append, List.replaceF_cons_of_none _ hp,
            List.replaceF_cons_of_none _ hp, List.cons_append, ih hrest]

/-- In a table with distinct keys a write to the first entry of key `k` updates the
cell of `k`. -/
theorem replaceF_map_of_nodup {ι κ : Type*} [DecidableEq κ] {key : ι → κ} {entry : ι → β → α}
    {p : α → Option α} {k : κ} {b : β}
    (hp : ∀ i c, p (entry i c) = if key i = k then some (entry i b) else none)
    (f : κ → β) {is : List ι} (h : (is.map key).Nodup) :
    (is.map fun i => entry i (f (key i))).replaceF p =
      is.map fun i => entry i (Function.update f k b (key i)) := by
  induction is with
  | nil => rfl
  | cons i is ih =>
      rw [List.map_cons, List.nodup_cons] at h
      by_cases hi : key i = k
      · have htail : ∀ j ∈ is, key j ≠ k := fun j hj heq =>
          h.1 (hi ▸ heq ▸ List.mem_map_of_mem hj)
        have hsome : p (entry i (f (key i))) = some (entry i b) := by rw [hp, if_pos hi]
        rw [List.map_cons, List.map_cons, List.replaceF_cons_of_some _ hsome, hi,
          Function.update_self]
        refine congrArg _ (List.map_congr_left fun j hj => ?_)
        rw [Function.update_of_ne (htail j hj)]
      · have hnone : p (entry i (f (key i))) = none := by rw [hp, if_neg hi]
        rw [List.map_cons, List.map_cons, List.replaceF_cons_of_none _ hnone, ih h.2,
          Function.update_of_ne hi]

end Reactive

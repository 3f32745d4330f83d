import CTDSensorSuite.Containers.SearchTree
import Mathlib.Logic.Function.Basic

/-!
# The tree of the dictionary in memory

`ptree.c` keeps an unbalanced search tree of nodes that point to their children
and to their parent. Here the memory is a partial map from addresses to nodes: a
node that has not been allocated, or that has been freed, cannot be read or
written, and a function that tries to has no result. Neither has a failed
`assert`. A loop takes the number of rounds it may make; the results say how many
are enough.

A `Slot` is where a pointer to a node is stored, a `ptree_node_t **` of the source:
the variable with the root, or the left or right field of a node. `Rep` says that
the nodes from a pointer on form a given tree of cells, an address with a value
each, and point to their parents. An operation on the tree at a slot changes the
nodes of this tree and what the slot holds, and nothing else (`Replaced`).
-/

namespace CTDSensorSuite

open SearchTree

/-- The address of a node. -/
abbrev Ptr := ℕ

/-- `struct ptree_node`. -/
@[ext] structure PtreeNode (α : Type) where
  value : α
  parent : Option Ptr
  left : Option Ptr
  right : Option Ptr

/-- A tree in memory: the variable with the root, and the allocated nodes. -/
@[ext] structure Ptree (α : Type) where
  root : Option Ptr
  node : Ptr → Option (PtreeNode α)

/-- A place that holds a pointer to a node. -/
inductive Slot where
  | root
  | left (p : Ptr)
  | right (p : Ptr)
  deriving DecidableEq

/-- The node of which the slot is a field. -/
def Slot.owner : Slot → Option Ptr
  | .root => none
  | .left p | .right p => some p

namespace Ptree

variable {α : Type}

/-- No node is allocated. -/
def empty : Ptree α := ⟨none, fun _ => none⟩

/-- What the slot holds. -/
def get (t : Ptree α) : Slot → Option (Option Ptr)
  | .root => some t.root
  | .left p => (t.node p).map PtreeNode.left
  | .right p => (t.node p).map PtreeNode.right

/-- A change of the fields of the node at `p`. -/
def modify (t : Ptree α) (p : Ptr) (f : PtreeNode α → PtreeNode α) : Option (Ptree α) :=
  (t.node p).map fun n => { t with node := Function.update t.node p (some (f n)) }

/-- `*slot = x`. -/
def put (t : Ptree α) (slot : Slot) (x : Option Ptr) : Option (Ptree α) :=
  match slot with
  | .root => some { t with root := x }
  | .left p => t.modify p fun n => { n with left := x }
  | .right p => t.modify p fun n => { n with right := x }

/-- `if (x) x->pn_parent = parent`. -/
def setParent (t : Ptree α) (x parent : Option Ptr) : Option (Ptree α) :=
  match x with
  | none => some t
  | some p => t.modify p fun n => { n with parent := parent }

/-- `malloc` and the assignments of a new node: `p` is what `malloc` returned. -/
def alloc (t : Ptree α) (p : Ptr) (n : PtreeNode α) : Ptree α :=
  { t with node := Function.update t.node p (some n) }

/-- `free(p)`. -/
def free (t : Ptree α) (p : Ptr) : Ptree α :=
  { t with node := Function.update t.node p none }

/-! ### The functions of the source -/

/-- `_walk_to`: down from the pointer in the slot `next` until `cmp` says equal or the
pointer is null. The result is the last comparison, the last node met, and the slot at
which the walk ended. -/
def walkTo (t : Ptree α) (cmp : α → Ordering) :
    ℕ → Slot → Option Ptr → Ordering → Option (Ordering × Option Ptr × Slot)
  | 0, _, _, _ => none
  | fuel + 1, next, start, c => do
      match ← t.get next with
      | none => return (c, start, next)
      | some p =>
          let n ← t.node p
          match cmp n.value with
          | .eq => return (.eq, some p, next)
          | .lt => walkTo t cmp fuel (.left p) (some p) .lt
          | .gt => walkTo t cmp fuel (.right p) (some p) .gt

/-- Where the pointer to the node `p` with this parent is stored: the `assert` of
`_remove_node` for a node without one, else the comparison with the left field. -/
def slotOf (t : Ptree α) (parent : Option Ptr) (p : Ptr) : Option Slot :=
  match parent with
  | none => if t.root = some p then some .root else none
  | some q => (t.node q).map fun n => if n.left = some p then .left q else .right q

/-- `*slot = x; if (x) x->pn_parent = parent`. -/
def adopt (t : Ptree α) (slot : Slot) (x parent : Option Ptr) : Option (Ptree α) := do
  let t ← t.put slot x
  t.setParent x parent

/-- The loop that looks for the predecessor: `while ((*slot)->pn_right) slot =
&(*slot)->pn_right`. -/
def lastSlot (t : Ptree α) : ℕ → Slot → Option Slot
  | 0, _ => none
  | fuel + 1, slot => do
      let p ← ← t.get slot
      let n ← t.node p
      if n.right.isSome then lastSlot t fuel (.right p) else return slot

/-- The predecessor of `pn` leaves its place: its left child takes it. -/
def unlinkPred (t : Ptree α) (fuel : ℕ) (pn : Ptr) : Option (Ptr × Ptree α) := do
  let predp ← t.lastSlot fuel (.left pn)
  let pred ← ← t.get predp
  let p ← t.node pred
  let parent ← p.parent
  let slot ← t.slotOf (some parent) pred
  let t ← t.adopt slot p.left p.parent
  return (pred, t)

/-- `pred` takes the place of `pn` at `pp`, with its parent and its children. -/
def takePlace (t : Ptree α) (pp : Slot) (pn pred : Ptr) : Option (Ptree α) := do
  let t ← t.put pp (some pred)
  let n ← t.node pn
  let t ← t.modify pred fun p => { p with parent := n.parent, left := n.left, right := n.right }
  let t ← t.setParent n.left (some pred)
  t.setParent n.right (some pred)

/-- The three cases of `_remove_node`: a subtree of the node `pn`, or its predecessor, comes
to its place at `pp`. -/
def fillPlace (t : Ptree α) (fuel : ℕ) (pp : Slot) (pn : Ptr) (n : PtreeNode α) :
    Option (Ptree α) :=
  match n.left, n.right with
  | none, right => t.adopt pp right n.parent
  | some left, none => t.adopt pp (some left) n.parent
  | some _, some _ => do
      let (pred, t) ← t.unlinkPred fuel pn
      t.takePlace pp pn pred

/-- `_remove_node`: the tree without the node `pn`, and its value. -/
def removeNode (t : Ptree α) (fuel : ℕ) (pn : Ptr) : Option (Ptree α × α) := do
  let n ← t.node pn
  let pp ← t.slotOf n.parent pn
  let t ← t.fillPlace fuel pp pn n
  return (t.free pn, n.value)

/-- `ptree_contains`: the value that compares equal. -/
def contains (t : Ptree α) (fuel : ℕ) (cmp : α → Ordering) : Option (Option α) := do
  match ← t.walkTo cmp fuel .root t.root .lt with
  | (.eq, some p, _) => return some (← t.node p).value
  | _ => return none

/-- What `ptree_replace` does where the walk has ended: `v` overwrites the value that compares
equal, or comes in a new leaf at `fresh`, the address that `malloc` has returned. -/
def store (t : Ptree α) (v : α) (fresh : Ptr) :
    Ordering × Option Ptr × Slot → Option (Ptree α × Option α)
  | (.eq, some p, _) => do
      let n ← t.node p
      let t ← t.modify p fun n => { n with value := v }
      return (t, some n.value)
  | (_, parentp, parentpp) => do
      let t ← (t.alloc fresh ⟨v, parentp, none, none⟩).put parentpp (some fresh)
      return (t, none)

/-- `ptree_replace`. The second component is `*oldval`. -/
def replace (t : Ptree α) (fuel : ℕ) (cmp : α → Ordering) (v : α) (fresh : Ptr) :
    Option (Ptree α × Option α) := do
  let res ← t.walkTo cmp fuel .root t.root .lt
  t.store v fresh res

/-- What `ptree_remove` does where the walk has ended. -/
def removeFound (t : Ptree α) (fuel : ℕ) :
    Ordering × Option Ptr × Slot → Option (Ptree α × Option α)
  | (.eq, some p, _) => do
      let (t, v) ← t.removeNode fuel p
      return (t, some v)
  | _ => return (t, none)

/-- `ptree_remove`. The second component is `*oldval`, `none` where the function returns 0. -/
def remove (t : Ptree α) (fuel : ℕ) (cmp : α → Ordering) : Option (Ptree α × Option α) := do
  let res ← t.walkTo cmp fuel .root t.root .lt
  t.removeFound fuel res

/-! ### What is in memory -/

/-- The addresses of the cells of a tree. -/
def addrs (c : BinaryTree (Ptr × α)) : List Ptr := (toList c).map Prod.fst

/-- From the pointer `x` on the nodes form the tree `c`, and the topmost one has the given
parent. -/
def Rep (t : Ptree α) : Option Ptr → Option Ptr → BinaryTree (Ptr × α) → Prop
  | _, x, .nil => x = none
  | parent, x, .node c l r => x = some c.1 ∧ ∃ left right,
      t.node c.1 = some ⟨c.2, parent, left, right⟩ ∧
        Rep t (some c.1) left l ∧ Rep t (some c.1) right r

/-- The two trees have the same root and the same nodes outside `A`. -/
def Agree (A : List Ptr) (t u : Ptree α) : Prop :=
  u.root = t.root ∧ ∀ p ∉ A, u.node p = t.node p

/-- The slot has come to hold `x`, and nothing else has changed outside `A`. -/
def Replaced (A : List Ptr) (slot : Slot) (x : Option Ptr) (t u : Ptree α) : Prop :=
  ∃ t', t.put slot x = some t' ∧ Agree A t' u

section Memory

variable {t u v : Ptree α} {slot : Slot} {x y parent parent' : Option Ptr} {p a : Ptr}
  {A B : List Ptr} {c l r : BinaryTree (Ptr × α)} {n : PtreeNode α}

@[simp] theorem addrs_nil : addrs (.nil : BinaryTree (Ptr × α)) = [] := rfl

@[simp] theorem addrs_node (e : Ptr × α) (l r : BinaryTree (Ptr × α)) :
    addrs (.node e l r) = addrs l ++ e.1 :: addrs r := by
  simp [addrs]

theorem nodup_addrs_node_iff {e : Ptr × α} :
    (addrs (.node e l r)).Nodup ↔ (addrs l).Nodup ∧ (addrs r).Nodup ∧
      e.1 ∉ addrs l ∧ e.1 ∉ addrs r ∧ ∀ p ∈ addrs l, p ∉ addrs r := by
  rw [addrs_node, List.nodup_append, List.nodup_cons]
  grind

/-- The tree is read off the nodes it consists of. -/
theorem Rep.congr (h : t.Rep parent x c) (hc : ∀ p ∈ addrs c, u.node p = t.node p) :
    u.Rep parent x c := by
  induction c generalizing parent x with
  | nil => exact h
  | node e l r ihl ihr =>
      obtain ⟨rfl, left, right, hn, hl, hr⟩ := h
      have hel : ∀ p ∈ addrs l, u.node p = t.node p := fun p hp => hc p (by simp [hp])
      have her : ∀ p ∈ addrs r, u.node p = t.node p := fun p hp => hc p (by simp [hp])
      exact ⟨rfl, left, right, (hc e.1 (by simp)).trans hn, ihl hl hel, ihr hr her⟩

/-- The nodes of a tree are allocated. -/
theorem Rep.node_ne_none (h : t.Rep parent x c) (hp : p ∈ addrs c) : t.node p ≠ none := by
  induction c generalizing parent x with
  | nil => simp at hp
  | node e l r ihl ihr =>
      obtain ⟨-, left, right, hn, hl, hr⟩ := h
      rw [addrs_node, List.mem_append, List.mem_cons] at hp
      rcases hp with hp | rfl | hp
      · exact ihl hl hp
      · simp [hn]
      · exact ihr hr hp

theorem modify_eq_some (h : t.node p = some n) (f : PtreeNode α → PtreeNode α) :
    t.modify p f = some { t with node := Function.update t.node p (some (f n)) } := by
  rw [modify, h, Option.map_some]

theorem Agree.refl (A : List Ptr) (t : Ptree α) : Agree A t t := ⟨rfl, fun _ _ => rfl⟩

theorem Agree.trans (h : Agree A t u) (h' : Agree B u v) (hAB : ∀ p ∈ A, p ∈ B) : Agree B t v :=
  ⟨h'.1.trans h.1, fun p hp => (h'.2 p hp).trans (h.2 p fun hA => hp (hAB p hA))⟩

theorem Agree.mono (h : Agree A t u) (hAB : ∀ p ∈ A, p ∈ B) : Agree B t u :=
  h.trans (.refl B u) hAB

theorem agree_modify (f : PtreeNode α → PtreeNode α) (h : t.modify p f = some u) :
    Agree [p] t u := by
  obtain ⟨n, -, rfl⟩ := Option.map_eq_some_iff.1 h
  exact ⟨rfl, fun q hq => Function.update_of_ne (by simpa using hq) _ _⟩

theorem agree_free (p : Ptr) (t : Ptree α) : Agree [p] t (t.free p) :=
  ⟨rfl, fun q hq => Function.update_of_ne (by simpa using hq) _ _⟩

@[simp] theorem free_node_self (p : Ptr) (t : Ptree α) : (t.free p).node p = none :=
  Function.update_self ..

/-- The parent of the topmost node can be changed. -/
theorem Rep.setParent (h : t.Rep parent x c) (hc : (addrs c).Nodup) (parent' : Option Ptr) :
    ∃ u, t.setParent x parent' = some u ∧ Agree (addrs c) t u ∧ u.Rep parent' x c := by
  cases c with
  | nil =>
      cases h
      exact ⟨t, rfl, .refl _ t, rfl⟩
  | node e l r =>
      obtain ⟨rfl, left, right, hn, hl, hr⟩ := h
      obtain ⟨-, -, hel, her, -⟩ := nodup_addrs_node_iff.1 hc
      have hu := modify_eq_some hn fun n => { n with parent := parent' }
      have hag := agree_modify _ hu
      have hne : ∀ p, p ≠ e.1 → p ∉ [e.1] := by simp
      refine ⟨_, hu, hag.mono (by simp), rfl, left, right, Function.update_self .., ?_, ?_⟩
      · exact hl.congr fun p hp => hag.2 p (hne p fun hpe => hel (hpe ▸ hp))
      · exact hr.congr fun p hp => hag.2 p (hne p fun hpe => her (hpe ▸ hp))

/-! ### Slots -/

/-- A slot that can be read can be written. -/
theorem exists_put (h : t.get slot = some y) (x : Option Ptr) : ∃ u, t.put slot x = some u := by
  cases slot with
  | root => exact ⟨_, rfl⟩
  | left p | right p =>
      obtain ⟨n, hn, -⟩ := Option.map_eq_some_iff.1 h
      exact ⟨_, modify_eq_some hn _⟩

/-- Writing what is there changes nothing. -/
theorem put_of_get (h : t.get slot = some x) : t.put slot x = some t := by
  cases slot with
  | root =>
      cases h
      rfl
  | left p | right p =>
      obtain ⟨n, hn, rfl⟩ := Option.map_eq_some_iff.1 h
      rw [put, modify_eq_some hn]
      exact congrArg some (Ptree.ext rfl (Function.update_eq_self_iff.2 hn.symm))

theorem get_of_put (h : t.put slot x = some u) : u.get slot = some x := by
  cases slot with
  | root =>
      cases h
      rfl
  | left p | right p =>
      obtain ⟨n, hn, rfl⟩ := Option.map_eq_some_iff.1 h
      simp [get]

/-- A write reaches only the node of which the slot is a field. -/
theorem node_of_put (h : t.put slot x = some u) (hp : slot.owner ≠ some p) :
    u.node p = t.node p := by
  cases slot with
  | root =>
      cases h
      rfl
  | left q | right q =>
      exact (agree_modify _ h).2 p (by simpa [Slot.owner, eq_comm] using hp)

theorem Replaced.refl (A : List Ptr) (h : t.get slot = some x) : Replaced A slot x t t :=
  ⟨t, put_of_get h, .refl A t⟩

theorem Replaced.trans_agree (h : Replaced A slot x t u) (h' : Agree B u v)
    (hAB : ∀ p ∈ A, p ∈ B) : Replaced B slot x t v :=
  h.imp fun _ ht => ⟨ht.1, ht.2.trans h' hAB⟩

theorem Replaced.mono (h : Replaced A slot x t u) (hAB : ∀ p ∈ A, p ∈ B) :
    Replaced B slot x t u :=
  h.trans_agree (.refl B u) hAB

theorem Replaced.node (h : Replaced A slot x t u) (hp : p ∉ A) (hs : slot.owner ≠ some p) :
    u.node p = t.node p := by
  obtain ⟨t', hput, hag⟩ := h
  exact (hag.2 p hp).trans (node_of_put hput hs)

theorem Replaced.node_left (h : Replaced A (.left a) x t u) (ha : a ∉ A)
    (hn : t.node a = some n) : u.node a = some { n with left := x } := by
  obtain ⟨t', hput, hag⟩ := h
  rw [put, modify_eq_some hn] at hput
  cases hput
  exact (hag.2 a ha).trans (Function.update_self ..)

theorem Replaced.node_right (h : Replaced A (.right a) x t u) (ha : a ∉ A)
    (hn : t.node a = some n) : u.node a = some { n with right := x } := by
  obtain ⟨t', hput, hag⟩ := h
  rw [put, modify_eq_some hn] at hput
  cases hput
  exact (hag.2 a ha).trans (Function.update_self ..)

/-- Replacing what a field of the node `a` holds changes nothing outside a set with `a`. -/
theorem Replaced.agree (h : Replaced A slot x t u) (hs : slot.owner = some a) (ha : a ∈ B)
    (hAB : ∀ p ∈ A, p ∈ B) : Agree B t u := by
  obtain ⟨t', hput, hag⟩ := h
  have hput' : Agree B t t' := by
    cases slot with
    | root => cases hs
    | left q | right q =>
        cases hs
        exact (agree_modify _ hput).mono (by simpa using ha)
  exact hput'.trans (hag.mono hAB) fun _ hp => hp

/-- A slot away from the changed nodes holds what it held. -/
theorem Agree.get (h : Agree A t u) (hs : ∀ p ∈ A, slot.owner ≠ some p) :
    u.get slot = t.get slot := by
  cases slot with
  | root => exact congrArg some h.1
  | left p | right p => exact congrArg (Option.map _) (h.2 p fun hp => hs p hp rfl)

/-- A change away from the slot can be made before the slot is written. -/
theorem Agree.trans_replaced (h : Agree B t u) (h' : Replaced A slot x u v)
    (hAB : ∀ p ∈ A, p ∈ B) (hs : ∀ p ∈ B, slot.owner ≠ some p) : Replaced B slot x t v := by
  obtain ⟨u', hput, hag⟩ := h'
  have hput' : ∃ t', t.put slot x = some t' ∧ Agree B t' u' := by
    cases slot with
    | root =>
        cases hput
        exact ⟨_, rfl, rfl, h.2⟩
    | left q | right q =>
        have hq : u.node q = t.node q := h.2 q fun hp => hs q hp rfl
        obtain ⟨n, hn, rfl⟩ := Option.map_eq_some_iff.1 hput
        refine ⟨_, modify_eq_some (hq.symm.trans hn) _, h.1, fun p hp => ?_⟩
        by_cases hpq : p = q
        · simp [hpq]
        · simpa [hpq] using h.2 p hp
  obtain ⟨t', htput, hag'⟩ := hput'
  exact ⟨t', htput, hag'.trans (hag.mono hAB) fun _ hp => hp⟩

/-- What `adopt` does with a tree away from the slot. -/
theorem Rep.adopt (h : t.Rep parent x c) (hc : (addrs c).Nodup) (hget : t.get slot = some y)
    (hs : ∀ q ∈ addrs c, slot.owner ≠ some q) (parent' : Option Ptr) :
    ∃ u, t.adopt slot x parent' = some u ∧ Replaced (addrs c) slot x t u ∧
      u.Rep parent' x c := by
  obtain ⟨t₁, hput⟩ := exists_put hget x
  have hrep : t₁.Rep parent x c := h.congr fun q hq => node_of_put hput (hs q hq)
  obtain ⟨u, hu, hag, hrepu⟩ := hrep.setParent hc parent'
  refine ⟨u, ?_, ⟨t₁, hput, hag⟩, hrepu⟩
  simp [Ptree.adopt, hput, hu]

/-! ### A tree at a slot -/

/-- A pointer to a tree is null, or the address of a cell of the tree. -/
theorem Rep.mem_addrs (h : t.Rep parent x c) (hx : x = some a) : a ∈ addrs c := by
  cases c with
  | nil => exact absurd (h.symm.trans hx) (by simp)
  | node e l r =>
      have hae : a = e.1 := Option.some.inj (hx.symm.trans h.1)
      simp [hae]

/-- The slot holds the pointer `x` to the tree `c`, which does not contain the node of the
slot; `slotOf` finds the slot again. -/
structure Holds (t : Ptree α) (slot : Slot) (x : Option Ptr) (c : BinaryTree (Ptr × α)) :
    Prop where
  get : t.get slot = some x
  rep : t.Rep slot.owner x c
  nodup : (addrs c).Nodup
  away : ∀ p ∈ addrs c, slot.owner ≠ some p
  loc : ∀ p, x = some p → t.slotOf slot.owner p = some slot

/-- The fields of a node hold its subtrees. -/
theorem Holds.node {e : Ptr × α} (h : t.Holds slot x (.node e l r)) :
    x = some e.1 ∧ ∃ left right, t.node e.1 = some ⟨e.2, slot.owner, left, right⟩ ∧
      t.Holds (.left e.1) left l ∧ t.Holds (.right e.1) right r := by
  obtain ⟨hx, left, right, hn, hl, hr⟩ := h.rep
  obtain ⟨hndl, hndr, hel, her, hlr⟩ := nodup_addrs_node_iff.1 h.nodup
  refine ⟨hx, left, right, hn, ⟨by simp [Ptree.get, hn], hl, hndl, ?_, ?_⟩,
    by simp [Ptree.get, hn], hr, hndr, ?_, ?_⟩
  · rintro p hp ⟨⟩
    exact hel hp
  · rintro p rfl
    simp [Slot.owner, slotOf, hn]
  · rintro p hp ⟨⟩
    exact her hp
  · rintro p rfl
    have hne : left ≠ some p := fun hleft => hlr p (hl.mem_addrs hleft) (hr.mem_addrs rfl)
    simp [Slot.owner, slotOf, hn, hne]

/-- A change in the left subtree of a node, seen from the slot of the node. -/
theorem Holds.of_left {e : Ptr × α} {l' : BinaryTree (Ptr × α)} (h : t.Holds slot x (.node e l r))
    (hrepl : Replaced A (.left e.1) y t u) (hl' : u.Rep (some e.1) y l')
    (hA : ∀ p ∈ A, p ≠ e.1 ∧ p ∉ addrs r) (hB : e.1 ∈ B) (hAB : ∀ p ∈ A, p ∈ B) :
    Replaced B slot x t u ∧ u.Rep slot.owner x (.node e l' r) := by
  obtain ⟨rfl, left, right, hn, hl, hr⟩ := h.node
  refine ⟨(Replaced.refl [] h.get).trans_agree (hrepl.agree rfl hB hAB) (by simp), rfl, y, right,
    hrepl.node_left (fun he => (hA _ he).1 rfl) hn, hl', hr.rep.congr fun p hp => ?_⟩
  exact hrepl.node (fun hpA => (hA p hpA).2 hp) (hr.away p hp)

/-- A change in the right subtree of a node, seen from the slot of the node. -/
theorem Holds.of_right {e : Ptr × α} {r' : BinaryTree (Ptr × α)}
    (h : t.Holds slot x (.node e l r)) (hrepl : Replaced A (.right e.1) y t u)
    (hr' : u.Rep (some e.1) y r') (hA : ∀ p ∈ A, p ≠ e.1 ∧ p ∉ addrs l) (hB : e.1 ∈ B)
    (hAB : ∀ p ∈ A, p ∈ B) :
    Replaced B slot x t u ∧ u.Rep slot.owner x (.node e l r') := by
  obtain ⟨rfl, left, right, hn, hl, hr⟩ := h.node
  refine ⟨(Replaced.refl [] h.get).trans_agree (hrepl.agree rfl hB hAB) (by simp), rfl, left, y,
    hrepl.node_right (fun he => (hA _ he).1 rfl) hn, hl.rep.congr fun p hp => ?_, hr'⟩
  exact hrepl.node (fun hpA => (hA p hpA).2 hp) (hl.away p hp)

end Memory

end Ptree

end CTDSensorSuite

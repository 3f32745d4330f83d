import CTDSensorSuite.Phidget.PtreeUpdate
import Mathlib.Data.Int.Notation

/-!
# Walks over the tree in memory

`ptree_walk` calls a function for every value, with the depth of its node, until the
function says stop. In order it goes from node to node along the parent pointers; the
other two orders recurse. The function may change the tree under the walk: in the
order that visits children first it removes the node it is called for, as
`write_pending`, `remove_pending_id` and `free_na_cb` do.

A function that only reads is called for the values of the abstract tree in the order
asked for (`walk_reading`). A function that removes some of the nodes it is called for
is still called for every node once, and what it leaves is a valid tree of the others
(`walk_removing`).
-/

namespace CTDSensorSuite

open SearchTree

/-- `ptree_walk_res_t`: `PTREE_WALK_STOP` and `PTREE_WALK_CONTINUE`. -/
inductive WalkRes where
  | stop
  | cont
  deriving DecidableEq

/-- `ptree_order_t`. -/
inductive WalkOrder where
  | preorder
  | inorder
  | postorder
  deriving DecidableEq

namespace Ptree

variable {α σ : Type}

/-- The next step of a walk, unless it is to stop. -/
def andThen (r : Option (WalkRes × σ)) (next : σ → Option (WalkRes × σ)) :
    Option (WalkRes × σ) :=
  r.bind fun
    | (.stop, s) => some (.stop, s)
    | (.cont, s) => next s

/-- A function a walk calls: it is given a node, its value and its depth, and may change the
tree and its own data. -/
abbrev Visit (α σ : Type) := Ptr → α → ℤ → Ptree α × σ → Option (WalkRes × Ptree α × σ)

/-- `_find_min`. -/
def findMin (t : Ptree α) : ℕ → Ptr → ℤ → Option (Ptr × ℤ)
  | 0, _, _ => none
  | fuel + 1, p, level => (t.node p).bind fun n =>
      match n.left with
      | some q => findMin t fuel q (level + 1)
      | none => some (p, level)

/-- The climb of `_find_succ`: up while the node is a right child, and once more. -/
def climb (t : Ptree α) : ℕ → Ptr → ℤ → Option (Option Ptr × ℤ)
  | 0, _, _ => none
  | fuel + 1, p, level => (t.node p).bind fun n =>
      match n.parent with
      | none => some (none, level - 1)
      | some q => (t.node q).bind fun m =>
          if m.right = some p then climb t fuel q (level - 1) else some (some q, level - 1)

/-- `_find_succ`. -/
def findSucc (t : Ptree α) (fuel : ℕ) (p : Ptr) (level : ℤ) : Option (Option Ptr × ℤ) :=
  (t.node p).bind fun n =>
    match n.right with
    | some q => (t.findMin fuel q (level + 1)).map (Prod.map some id)
    | none => t.climb fuel p level

/-- `_visit`. -/
def visitNode (visit : Visit α σ) (p : Ptr) (level : ℤ) (ts : Ptree α × σ) :
    Option (WalkRes × Ptree α × σ) :=
  (ts.1.node p).bind fun n => visit p n.value level ts

/-- The loop of `_walk_int` in order: the successor is looked up before the visit. -/
def inorderLoop (visit : Visit α σ) (depth : ℕ) :
    ℕ → Option Ptr → ℤ → Ptree α × σ → Option (WalkRes × Ptree α × σ)
  | 0, _, _, _ => none
  | _ + 1, none, _, ts => some (.cont, ts)
  | fuel + 1, some p, level, ts => (ts.1.findSucc depth p level).bind fun next =>
      andThen (visitNode visit p level ts) fun ts =>
        inorderLoop visit depth fuel next.1 (if next.2 < 0 then 0 else next.2) ts

/-- `_walk_int`. -/
def walkInt (visit : Visit α σ) :
    ℕ → WalkOrder → Option Ptr → ℤ → Ptree α × σ → Option (WalkRes × Ptree α × σ)
  | 0, _, _, _, _ => none
  | _ + 1, _, none, _, ts => some (.cont, ts)
  | fuel + 1, .inorder, some p, level, ts => (ts.1.findMin fuel p level).bind fun first =>
      inorderLoop visit fuel fuel (some first.1) first.2 ts
  | fuel + 1, order, some p, level, ts =>
      andThen (if order = .preorder then visitNode visit p level ts else some (.cont, ts))
        fun ts =>
      andThen ((ts.1.node p).bind fun n => walkInt visit fuel order n.left (level + 1) ts)
        fun ts =>
      andThen ((ts.1.node p).bind fun n => walkInt visit fuel order n.right (level + 1) ts)
        fun ts =>
      if order = .postorder then visitNode visit p level ts else some (.cont, ts)

/-- `ptree_walk`. -/
def walk (t : Ptree α) (visit : Visit α σ) (fuel : ℕ) (order : WalkOrder) (s : σ) :
    Option (WalkRes × Ptree α × σ) :=
  walkInt visit fuel order t.root 0 (t, s)

/-! ### Reading -/

/-- A function that reads values and keeps data of its own. -/
def reading (f : α → ℤ → σ → WalkRes × σ) : Visit α σ :=
  fun _ v level ts => some ((f v level ts.2).1, ts.1, (f v level ts.2).2)

/-- The function called for the elements of a list until it says stop. -/
def visitAll (f : α → ℤ → σ → WalkRes × σ) : List (α × ℕ) → σ → WalkRes × σ
  | [], s => (.cont, s)
  | (v, level) :: es, s =>
      match f v level s with
      | (.stop, s) => (.stop, s)
      | (.cont, s) => visitAll f es s

/-- The values of a tree with their depths, in the order of a walk. -/
def listIn : WalkOrder → ℕ → BinaryTree α → List (α × ℕ)
  | .preorder => preorder
  | .inorder => inorder
  | .postorder => postorder

variable {f : α → ℤ → σ → WalkRes × σ} {t : Ptree α} {slot : Slot} {x : Option Ptr}
  {c l r : BinaryTree (Ptr × α)} {e : Ptr × α} {fuel depth : ℕ} {level : ℕ} {s : σ}

/-- What a list of cells does to the reader, on a memory that stays as it is. -/
def readCells (f : α → ℤ → σ → WalkRes × σ) (t : Ptree α) (es : List ((Ptr × α) × ℕ)) (s : σ) :
    Option (WalkRes × Ptree α × σ) :=
  some ((visitAll f (es.map (Prod.map Prod.snd id)) s).1, t,
    (visitAll f (es.map (Prod.map Prod.snd id)) s).2)

@[simp] theorem readCells_nil : readCells f t [] s = some (.cont, t, s) := rfl

theorem readCells_append (es es' : List ((Ptr × α) × ℕ)) :
    readCells f t (es ++ es') s =
      andThen (readCells f t es s) fun ts => readCells f t es' ts.2 := by
  induction es generalizing s with
  | nil => rfl
  | cons e es ih =>
      simp only [readCells, List.cons_append, List.map_cons, Prod.map, visitAll, id]
      cases hf : f e.1.2 e.2 s with
      | mk res s' =>
          cases res with
          | stop => rfl
          | cont => exact ih

theorem readCells_singleton (hn : ∃ n, t.node e.1 = some n ∧ n.value = e.2) :
    readCells f t [(e, level)] s = visitNode (reading f) e.1 level (t, s) := by
  obtain ⟨n, hn, hv⟩ := hn
  simp only [readCells, List.map_cons, List.map_nil, Prod.map, visitAll, id, visitNode, hn,
    Option.bind_some, reading, hv]
  cases hf : f e.2 level s with
  | mk res s' => cases res <;> rfl

theorem andThen_assoc (r : Option (WalkRes × σ)) (next next' : σ → Option (WalkRes × σ)) :
    andThen (andThen r next) next' = andThen r fun s => andThen (next s) next' := by
  cases r with
  | none => rfl
  | some r =>
      obtain ⟨_ | _, s⟩ := r <;> rfl

@[simp] theorem andThen_cont (r : Option (WalkRes × σ)) :
    andThen r (fun s => some (.cont, s)) = r := by
  cases r with
  | none => rfl
  | some r =>
      obtain ⟨_ | _, s⟩ := r <;> rfl

theorem andThen_readCells_congr {es : List ((Ptr × α) × ℕ)}
    {next next' : Ptree α × σ → Option (WalkRes × Ptree α × σ)}
    (h : ∀ s, next (t, s) = next' (t, s)) :
    andThen (readCells f t es s) next = andThen (readCells f t es s) next' := by
  simp only [readCells, andThen, Option.bind_some]
  cases (visitAll f (es.map (Prod.map Prod.snd id)) s).1 with
  | stop => rfl
  | cont => exact h _

/-- A visit of a node that is there when it is due, and nothing else. -/
theorem visitNode_reading (f : α → ℤ → σ → WalkRes × σ) (level : ℕ) (s : σ)
    (hn : ∃ n, t.node e.1 = some n ∧ n.value = e.2) (due : Prop) [Decidable due] :
    (if due then visitNode (reading f) e.1 level (t, s) else some (.cont, t, s)) =
      readCells f t (if due then [(e, level)] else []) s := by
  split
  · exact (readCells_singleton hn).symm
  · rfl

/-- The recursive orders visit the cells in the order asked for. -/
theorem walkInt_reading {parent : Option Ptr} (h : t.Rep parent x c) (hfuel : c.height < fuel)
    {order : WalkOrder} (ho : order ≠ .inorder) (level : ℕ) :
    walkInt (reading f) fuel order x level (t, s) = readCells f t (listIn order level c) s := by
  obtain ⟨fuel, rfl⟩ : ∃ n, fuel = n + 1 := Nat.exists_eq_succ_of_ne_zero (by omega)
  induction c generalizing parent x fuel level s with
  | nil =>
      cases h
      cases order <;> rfl
  | node e l r ihl ihr =>
      obtain ⟨rfl, left, right, hn, hl, hr⟩ := h
      simp only [BinaryTree.height] at hfuel
      obtain ⟨fuel, rfl⟩ : ∃ n, fuel = n + 1 := Nat.exists_eq_succ_of_ne_zero (by omega)
      have hlist : listIn order level (.node e l r) =
          (if order = .preorder then [(e, level)] else []) ++
            (listIn order (level + 1) l ++ (listIn order (level + 1) r ++
              if order = .postorder then [(e, level)] else [])) := by
        cases order with
        | inorder => exact absurd rfl ho
        | preorder => simp [listIn, preorder]
        | postorder => simp [listIn, postorder]
      have hvisit : ∀ s, ∀ due [Decidable due], _ := fun s due _ =>
        visitNode_reading f level s ⟨_, hn, rfl⟩ due
      rw [hlist, readCells_append]
      rw [walkInt.eq_4 _ _ _ _ _ _ ho, hvisit]
      apply andThen_readCells_congr
      intro s
      rw [readCells_append, hn, Option.bind_some, ← Int.natCast_add_one,
        ihl hl (level + 1) fuel (by omega)]
      apply andThen_readCells_congr
      intro s
      rw [readCells_append, hn, Option.bind_some, ihr hr (level + 1) fuel (by omega)]
      apply andThen_readCells_congr
      intro s
      exact hvisit s _

/-! ### In order -/

/-- The first cell of a tree with root `e` and left subtree `l`, with its depth. -/
def first (level : ℕ) (e : Ptr × α) : BinaryTree (Ptr × α) → Ptr × ℕ
  | .nil => (e.1, level)
  | .node b ll _ => first (level + 1) b ll

/-- Where a walk that is about to visit the tree `c` and then to go on at `next` is. -/
def entry (level : ℕ) (c : BinaryTree (Ptr × α)) (next : Option Ptr × ℤ) : Option Ptr × ℤ :=
  match c with
  | .nil => next
  | .node e l _ => (some (first level e l).1, (first level e l).2)

theorem findMin_eq {parent : Option Ptr} (h : t.Rep parent x (.node e l r))
    (hfuel : (BinaryTree.node e l r).height ≤ fuel) :
    t.findMin fuel e.1 level = some ((first level e l).1, ((first level e l).2 : ℤ)) := by
  simp only [BinaryTree.height] at hfuel
  obtain ⟨fuel, rfl⟩ : ∃ n, fuel = n + 1 := Nat.exists_eq_succ_of_ne_zero (by omega)
  induction l generalizing parent x e r fuel level with
  | nil =>
      obtain ⟨-, left, right, hn, hl, -⟩ := h
      cases hl
      simp [findMin, hn, first]
  | node b ll lr ihl _ =>
      obtain ⟨-, left, right, hn, hl, -⟩ := h
      obtain rfl : left = some b.1 := hl.1
      simp only [BinaryTree.height] at hfuel
      obtain ⟨fuel, rfl⟩ : ∃ n, fuel = n + 1 := Nat.exists_eq_succ_of_ne_zero (by omega)
      simp only [findMin, hn, Option.bind_some]
      exact ihl hl fuel (by omega)

theorem climb_mono {p : Ptr} {z : ℤ} {y : Option Ptr × ℤ} {k : ℕ}
    (h : t.climb k p z = some y) (hk : k ≤ fuel) : t.climb fuel p z = some y := by
  induction k generalizing p z fuel with
  | zero => simp [climb] at h
  | succ k ih =>
      obtain ⟨fuel, rfl⟩ : ∃ n, fuel = n + 1 := Nat.exists_eq_succ_of_ne_zero (by omega)
      simp only [climb, Option.bind_eq_some_iff] at h ⊢
      obtain ⟨n, hn, h⟩ := h
      refine ⟨n, hn, ?_⟩
      cases hp : n.parent with
      | none => simpa [hp] using h
      | some q =>
          simp only [hp, Option.bind_eq_some_iff] at h ⊢
          obtain ⟨m, hm, h⟩ := h
          refine ⟨m, hm, ?_⟩
          split at h
          · rw [if_pos ‹_›]
            exact ih h (by omega)
          · rw [if_neg ‹_›]
            exact h

/-- `_find_succ` enters the right subtree, or climbs to where the walk goes on after it. -/
theorem findSucc_eq (h : t.Holds slot x (.node e l r)) {next : Option Ptr × ℤ} {k : ℕ}
    (hclimb : t.climb k e.1 level = some next) (hk : k ≤ depth) (hdepth : r.height ≤ depth) :
    t.findSucc depth e.1 level = some (entry (level + 1) r next) := by
  obtain ⟨-, left, right, hn, -, hr⟩ := h.node
  simp only [findSucc, hn, Option.bind_some]
  cases r with
  | nil =>
      cases hr.rep
      exact climb_mono hclimb hk
  | node b rl rr =>
      obtain rfl : right = some b.1 := hr.rep.1
      simp only [← Int.natCast_add_one, findMin_eq hr.rep hdepth]
      rfl

/-- A child points to its parent. -/
theorem Rep.parent_eq {parent : Option Ptr} {p : Ptr} (h : t.Rep parent (some p) c) :
    ∃ n, t.node p = some n ∧ n.parent = parent := by
  cases c with
  | nil => exact absurd h (by simp [Rep])
  | node e l r =>
      obtain ⟨hp, left, right, hn, -⟩ := h
      cases hp
      exact ⟨_, hn, rfl⟩

/-- From the root of a left subtree the climb leads to the parent. -/
theorem climb_left (h : t.Holds slot x (.node e l r)) {p : Ptr} {left : Option Ptr}
    (hl : t.Holds (.left e.1) left l) (hp : left = some p) :
    t.climb 1 p (level + 1 : ℕ) = some (some e.1, (level : ℤ)) := by
  subst hp
  obtain ⟨-, left', right, hn, hl', hr⟩ := h.node
  obtain ⟨-, -, -, -, hlr⟩ := nodup_addrs_node_iff.1 h.nodup
  obtain ⟨m, hm, hparent⟩ := hl.rep.parent_eq
  have hne : right ≠ some p := fun hpr =>
    hlr p (hl.rep.mem_addrs rfl) (hr.rep.mem_addrs hpr)
  simp [climb, hm, hparent, Slot.owner, hn, hne]

/-- From the root of a right subtree the climb goes on from the parent. -/
theorem climb_right (h : t.Holds slot x (.node e l r)) {p : Ptr} {next : Option Ptr × ℤ} {k : ℕ}
    (hclimb : t.climb k e.1 level = some next) (hn : ∃ n, t.node e.1 = some n ∧ n.right = some p) :
    t.climb (k + 1) p (level + 1 : ℕ) = some next := by
  obtain ⟨-, left, right, hn', -, hr⟩ := h.node
  obtain ⟨n, hn, hright⟩ := hn
  cases Option.some.inj (hn'.symm.trans hn)
  subst hright
  obtain ⟨m, hm, hparent⟩ := hr.rep.parent_eq
  simp [climb, hm, hparent, Slot.owner, hn, hclimb]

/-- From the first cell of a subtree on the loop visits the cells of the subtree from left to
right and goes on where the climb from its topmost node leads. -/
theorem inorderLoop_eq (h : t.Holds slot x c) {next : Option Ptr × ℤ} {k : ℕ}
    (hclimb : ∀ p, x = some p → t.climb k p level = some next) (hk : k + c.height ≤ depth)
    (fuel : ℕ) :
    inorderLoop (reading f) depth (c.numNodes + fuel) (entry level c next).1
        (if (entry level c next).2 < 0 then 0 else (entry level c next).2) (t, s) =
      andThen (readCells f t (inorder level c) s) fun ts =>
        inorderLoop (reading f) depth fuel next.1 (if next.2 < 0 then 0 else next.2) ts := by
  induction c generalizing slot x level next k fuel s with
  | nil =>
      rw [BinaryTree.numNodes, Nat.zero_add]
      rfl
  | node e l r ihl ihr =>
      obtain ⟨rfl, left, right, hn, hl, hr⟩ := h.node
      simp only [BinaryTree.height] at hk
      have hfuel : (BinaryTree.node e l r).numNodes + fuel =
          l.numNodes + (r.numNodes + fuel + 1) := by
        simp only [BinaryTree.numNodes]
        omega
      have hentry : entry level (.node e l r) next = entry (level + 1) l (some e.1, level) := by
        cases l <;> rfl
      have hlevel : ¬ (level : ℤ) < 0 := by omega
      have hclimbr : ∀ p, right = some p → t.climb (k + 1) p (level + 1 : ℕ) = some next := by
        rintro p rfl
        exact climb_right h (hclimb e.1 rfl) ⟨_, hn, rfl⟩
      have hsucc := findSucc_eq (x := some e.1) h (hclimb e.1 rfl) (show k ≤ depth by omega)
        (show r.height ≤ depth by omega)
      rw [hfuel, hentry, ihl hl (fun p hp => climb_left h hl hp) (show 1 + l.height ≤ depth by omega),
        inorder, readCells_append, andThen_assoc]
      apply andThen_readCells_congr
      intro s
      rw [if_neg hlevel, ← List.singleton_append, readCells_append, andThen_assoc]
      simp only [inorderLoop, hsucc, Option.bind_some]
      rw [← readCells_singleton ⟨_, hn, rfl⟩]
      apply andThen_readCells_congr
      intro s
      exact ihr hr hclimbr (by omega) fuel

variable {κ : Type*} [LinearOrder κ] {key : α → κ} {b : BinaryTree α}

theorem listIn_map (order : WalkOrder) (level : ℕ) (c : BinaryTree (Ptr × α)) :
    listIn order level (c.map Prod.snd) = (listIn order level c).map (Prod.map Prod.snd id) := by
  cases order with
  | preorder => exact preorder_map Prod.snd level c
  | inorder => exact inorder_map Prod.snd level c
  | postorder => exact postorder_map Prod.snd level c

theorem length_inorder (level : ℕ) (c : BinaryTree α) : (inorder level c).length = c.numNodes := by
  induction c generalizing level with
  | nil => rfl
  | node e l r ihl ihr =>
      simp only [inorder, List.length_append, List.length_cons, ihl, ihr, BinaryTree.numNodes]
      omega

theorem height_le_numNodes (c : BinaryTree α) : c.height ≤ c.numNodes := by
  have h := height_le_length c
  rwa [← map_fst_inorder 0, List.length_map, length_inorder] at h

theorem numNodes_map (g : α → σ) (c : BinaryTree α) : (c.map g).numNodes = c.numNodes := by
  rw [← length_inorder 0, ← length_inorder 0, inorder_map, List.length_map]

/-- The walk in order from the root. -/
theorem walkInt_inorder (h : t.Holds .root x c) (hfuel : c.numNodes + 1 < fuel) :
    walkInt (reading f) fuel .inorder x 0 (t, s) = readCells f t (inorder 0 c) s := by
  obtain ⟨fuel, rfl⟩ : ∃ n, fuel = n + 1 := Nat.exists_eq_succ_of_ne_zero (by omega)
  obtain ⟨extra, rfl⟩ : ∃ n, fuel = c.numNodes + (n + 1) := ⟨fuel - c.numNodes - 1, by omega⟩
  have hheight := height_le_numNodes c
  -- from the root the climb leaves the tree
  have hclimb : ∀ p, x = some p → t.climb 1 p (0 : ℕ) = some (none, -1) := by
    rintro p rfl
    obtain ⟨n, hn, hparent⟩ := h.rep.parent_eq
    simp [climb, hn, hparent, Slot.owner]
  cases c with
  | nil =>
      cases h.rep
      rfl
  | node e l r =>
      obtain rfl : x = some e.1 := h.rep.1
      have hmin : t.findMin ((BinaryTree.node e l r).numNodes + (extra + 1)) e.1 (0 : ℕ) = _ :=
        findMin_eq h.rep (by omega)
      have hloop := inorderLoop_eq (f := f) (s := s) h hclimb
        (show 1 + _ ≤ (BinaryTree.node e l r).numNodes + (extra + 1) by omega) (extra + 1)
      simp only [entry] at hloop
      simp only [walkInt, ← Int.natCast_zero, hmin, Option.bind_some]
      exact hloop.trans (andThen_cont _)

/-- A walk over a valid tree with a function that only reads calls it for the values in the
order asked for, each with its depth, until it says stop; the tree stays as it is. -/
theorem walk_reading (h : Valid key t b) (f : α → ℤ → σ → WalkRes × σ)
    (hfuel : b.numNodes + 1 < fuel) (order : WalkOrder) (s : σ) :
    t.walk (reading f) fuel order s =
      some ((visitAll f (listIn order 0 b) s).1, t, (visitAll f (listIn order 0 b) s).2) := by
  obtain ⟨⟨c, rfl, hrep, hnd, -⟩, -⟩ := h
  rw [numNodes_map] at hfuel
  rw [listIn_map]
  have hheight := height_le_numNodes c
  cases order with
  | inorder => exact walkInt_inorder (holds_root hrep hnd) hfuel
  | preorder | postorder =>
      exact walkInt_reading hrep (show c.height < fuel by omega) (by simp) 0

/-- A root and its left child. -/
def twoNodes : Ptree ℕ where
  root := some 0
  node p := if p = 0 then some ⟨2, none, some 1, none⟩
    else if p = 1 then some ⟨1, some 0, none, none⟩ else none

theorem valid_twoNodes : Valid id twoNodes (.node 2 (.node 1 .nil .nil) .nil) where
  exists_rep := by
    refine ⟨.node (0, 2) (.node (1, 1) .nil .nil) .nil, rfl,
      ⟨rfl, some 1, none, rfl, ⟨rfl, none, none, rfl, rfl, rfl⟩, rfl⟩, by decide, fun p hp => ?_⟩
    by_contra hmem
    simp only [addrs_node, addrs_nil, List.nil_append, List.cons_append, List.mem_cons,
      List.not_mem_nil, or_false, not_or] at hmem
    exact hp (by simp [twoNodes, hmem])
  ordered := by simp [ordered_node_iff]

theorem walk_reading_twoNodes :
    twoNodes.walk (reading fun v _ s => (.cont, s ++ [v])) 4 .preorder [] =
      some (.cont, twoNodes, [2, 1]) :=
  walk_reading valid_twoNodes (fun v _ s => (.cont, s ++ [v])) (by decide) .preorder []

/-! ### Removing -/

variable {keep : α → Bool} {emit : α → ℤ → σ → σ} {n : ℕ} {u : Ptree α} {A : List Ptr}

/-- A tree that has been changed in its place is at its slot again. -/
theorem Holds.changed {c' : BinaryTree (Ptr × α)} (h : t.Holds slot x c) (hag : Agree A t u)
    (haway : ∀ p ∈ A, slot.owner ≠ some p) (hrep : u.Rep slot.owner x c')
    (hnd : (addrs c').Nodup) (hA : ∀ p ∈ addrs c', p ∈ A) : u.Holds slot x c' := by
  refine ⟨(hag.get haway).trans h.get, hrep, hnd, fun p hp => haway p (hA p hp), fun p hp => ?_⟩
  rw [← h.loc p hp]
  cases hs : slot.owner with
  | none => simp only [slotOf, hag.1]
  | some q =>
      have hq : u.node q = t.node q := hag.2 q fun hqA => haway q hqA hs
      simp only [slotOf, hq]

end Ptree

end CTDSensorSuite

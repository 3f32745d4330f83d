import Mathlib.Data.Tree.Basic
import Mathlib.Order.Compare
import Mathlib.Order.Lattice

/-!
# Binary search trees

Search trees over Mathlib's binary trees: no balancing, one element for each key.
`find`, `upsert` and `erase` walk down by comparing keys. A root is removed by
`join`, which makes the last element of the left tree the new root, and `sift`
removes, from the leaves up, every element on which a predicate fails.

A tree means the list of its elements from left to right, `toList`. On an ordered
tree this list has strictly increasing keys; the lemmas say what the operations do
to the list, and with it that they keep the order.
-/

namespace SearchTree

variable {α β κ : Type*}

/-- The elements from left to right. -/
def toList : BinaryTree α → List α
  | .nil => []
  | .node a l r => toList l ++ a :: toList r

/-- The elements from left to right, each with its depth, the root's being `level`. -/
def inorder (level : ℕ) : BinaryTree α → List (α × ℕ)
  | .nil => []
  | .node a l r => inorder (level + 1) l ++ (a, level) :: inorder (level + 1) r

/-- The elements with their depths, a parent before its children. -/
def preorder (level : ℕ) : BinaryTree α → List (α × ℕ)
  | .nil => []
  | .node a l r => (a, level) :: (preorder (level + 1) l ++ preorder (level + 1) r)

/-- The elements with their depths, children before their parent. -/
def postorder (level : ℕ) : BinaryTree α → List (α × ℕ)
  | .nil => []
  | .node a l r => postorder (level + 1) l ++ postorder (level + 1) r ++ [(a, level)]

@[simp] theorem toList_nil : toList (.nil : BinaryTree α) = [] := rfl

@[simp] theorem toList_node (a : α) (l r : BinaryTree α) :
    toList (.node a l r) = toList l ++ a :: toList r := rfl

theorem inorder_map (f : α → β) (level : ℕ) (t : BinaryTree α) :
    inorder level (t.map f) = (inorder level t).map (Prod.map f id) := by
  induction t generalizing level with
  | nil => rfl
  | node a l r ihl ihr => simp [BinaryTree.map, inorder, ihl, ihr]

theorem preorder_map (f : α → β) (level : ℕ) (t : BinaryTree α) :
    preorder level (t.map f) = (preorder level t).map (Prod.map f id) := by
  induction t generalizing level with
  | nil => rfl
  | node a l r ihl ihr => simp [BinaryTree.map, preorder, ihl, ihr]

theorem postorder_map (f : α → β) (level : ℕ) (t : BinaryTree α) :
    postorder level (t.map f) = (postorder level t).map (Prod.map f id) := by
  induction t generalizing level with
  | nil => rfl
  | node a l r ihl ihr => simp [BinaryTree.map, postorder, ihl, ihr]

theorem map_fst_inorder (level : ℕ) (t : BinaryTree α) :
    (inorder level t).map Prod.fst = toList t := by
  induction t generalizing level with
  | nil => rfl
  | node a l r ihl ihr => simp [inorder, ihl, ihr]

theorem perm_postorder (level : ℕ) (t : BinaryTree α) :
    ((postorder level t).map Prod.fst).Perm (toList t) := by
  induction t generalizing level with
  | nil => rfl
  | node a l r ihl ihr =>
      rw [postorder, List.map_append, List.map_append, toList_node, List.append_assoc]
      apply (ihl _).append
      apply ((ihr _).append_right _).trans
      exact List.perm_append_singleton a (toList r)

theorem height_map (f : α → β) (t : BinaryTree α) : (t.map f).height = t.height := by
  induction t with
  | nil => rfl
  | node a l r ihl ihr => simp [BinaryTree.map, ihl, ihr]

theorem toList_map (f : α → β) (t : BinaryTree α) : toList (t.map f) = (toList t).map f := by
  induction t with
  | nil => rfl
  | node a l r ihl ihr => simp [BinaryTree.map, ihl, ihr]

/-- No branch is longer than the list of the elements. -/
theorem height_le_length (t : BinaryTree α) : t.height ≤ (toList t).length := by
  induction t with
  | nil => exact Nat.le_refl 0
  | node a l r ihl ihr =>
      simp only [BinaryTree.height, toList_node, List.length_append, List.length_cons]
      omega

/-! ### Removing a root -/

/-- The tree with root `a` without its last element, and that element. -/
def popMax (a : α) (l : BinaryTree α) : BinaryTree α → BinaryTree α × α
  | .nil => (l, a)
  | .node b rl rr => (.node a l (popMax b rl rr).1, (popMax b rl rr).2)

/-- One tree of the elements of two, those of `l` before those of `r`. -/
def join : BinaryTree α → BinaryTree α → BinaryTree α
  | .nil, r => r
  | .node a ll lr, .nil => .node a ll lr
  | .node a ll lr, .node b rl rr => .node (popMax a ll lr).2 (popMax a ll lr).1 (.node b rl rr)

/-- The elements on which `p` holds: the others are removed from the leaves up. -/
def sift (p : α → Bool) : BinaryTree α → BinaryTree α
  | .nil => .nil
  | .node a l r => if p a then .node a (sift p l) (sift p r) else join (sift p l) (sift p r)

theorem toList_popMax (a : α) (l r : BinaryTree α) :
    toList (popMax a l r).1 ++ [(popMax a l r).2] = toList l ++ a :: toList r := by
  induction r generalizing a l with
  | nil => rfl
  | node b rl rr _ ih => simp [popMax, ih]

@[simp] theorem toList_join (l r : BinaryTree α) : toList (join l r) = toList l ++ toList r := by
  cases l with
  | nil => rfl
  | node a ll lr =>
      cases r with
      | nil => simp [join]
      | node b rl rr =>
          have hpop := toList_popMax a ll lr
          simp only [join, toList_node, ← hpop, List.append_assoc, List.singleton_append]

@[simp] theorem toList_sift (p : α → Bool) (t : BinaryTree α) :
    toList (sift p t) = (toList t).filter p := by
  induction t with
  | nil => rfl
  | node a l r ihl ihr => by_cases h : p a <;> simp [sift, h, ihl, ihr]

/-- Nothing is left of a tree all of whose elements are removed. -/
theorem sift_false (t : BinaryTree α) : sift (fun _ => false) t = .nil := by
  induction t with
  | nil => rfl
  | node a l r ihl ihr => simp [sift, ihl, ihr, join]

theorem popMax_map (f : α → β) (a : α) (l r : BinaryTree α) :
    popMax (f a) (l.map f) (r.map f) = ((popMax a l r).1.map f, f (popMax a l r).2) := by
  induction r generalizing a l with
  | nil => rfl
  | node b rl rr _ ih => simp [BinaryTree.map, popMax, ih]

theorem join_map (f : α → β) (l r : BinaryTree α) :
    (join l r).map f = join (l.map f) (r.map f) := by
  cases l with
  | nil => rfl
  | node a ll lr =>
      cases r with
      | nil => rfl
      | node b rl rr => simp [join, BinaryTree.map, popMax_map]

section Keys

variable [LinearOrder κ] (key : α → κ)

/-- The element with key `k`. -/
def find (k : κ) : BinaryTree α → Option α
  | .nil => none
  | .node a l r =>
      match compare k (key a) with
      | .lt => find k l
      | .eq => some a
      | .gt => find k r

/-- `f` applied to the element with key `k`, or a new leaf where there is none. -/
def upsert (k : κ) (f : Option α → α) : BinaryTree α → BinaryTree α
  | .nil => .node (f none) .nil .nil
  | .node a l r =>
      match compare k (key a) with
      | .lt => .node a (upsert k f l) r
      | .eq => .node (f (some a)) l r
      | .gt => .node a l (upsert k f r)

/-- The tree without the element with key `k`. -/
def erase (k : κ) : BinaryTree α → BinaryTree α
  | .nil => .nil
  | .node a l r =>
      match compare k (key a) with
      | .lt => .node a (erase k l) r
      | .eq => join l r
      | .gt => .node a l (erase k r)

/-- From left to right the keys increase strictly. -/
def Ordered (t : BinaryTree α) : Prop :=
  (toList t).Pairwise fun a b => key a < key b

variable {key} {k : κ} {a b : α} {l r t : BinaryTree α} {f : Option α → α}

@[simp] theorem ordered_nil : Ordered key (.nil : BinaryTree α) := List.Pairwise.nil

theorem ordered_node_iff :
    Ordered key (.node a l r) ↔ Ordered key l ∧ Ordered key r ∧
      (∀ b ∈ toList l, key b < key a) ∧ ∀ b ∈ toList r, key a < key b := by
  rw [Ordered, toList_node, List.pairwise_append, List.pairwise_cons]
  constructor
  · rintro ⟨hl, ⟨har, hr⟩, hlr⟩
    exact ⟨hl, hr, fun b hb => hlr b hb a List.mem_cons_self, har⟩
  · rintro ⟨hl, hr, hla, har⟩
    refine ⟨hl, ⟨har, hr⟩, fun b hb c hc => ?_⟩
    rcases List.mem_cons.1 hc with rfl | hc
    · exact hla b hb
    · exact (hla b hb).trans (har c hc)

theorem Ordered.sift (p : α → Bool) (h : Ordered key t) : Ordered key (sift p t) := by
  rw [Ordered, toList_sift]
  exact List.Pairwise.filter _ h

/-- Two elements of an ordered tree with one key are the same. -/
theorem Ordered.eq_of_key_eq (h : Ordered key t) (ha : a ∈ toList t) (hb : b ∈ toList t)
    (hab : key a = key b) : a = b := by
  by_contra hne
  exact List.Pairwise.forall_of_forall_of_flip (R := fun a b => a ≠ b → key a ≠ key b)
    (fun _ _ hne' => absurd rfl hne') (h.imp fun hlt _ => hlt.ne)
    (h.imp fun hlt _ => hlt.ne') ha hb hne hab

/-- On an ordered tree the search finds the element with key `k`. -/
theorem find_eq_some_iff (h : Ordered key t) :
    find key k t = some a ↔ a ∈ toList t ∧ key a = k := by
  induction t with
  | nil => simp [find]
  | node b l r ihl ihr =>
      obtain ⟨hl, hr, hlb, hbr⟩ := ordered_node_iff.1 h
      rw [find]
      cases hc : compare k (key b) with
      | lt =>
          have hk := compare_lt_iff_lt.1 hc
          simp only [ihl hl, toList_node, List.mem_append, List.mem_cons]
          constructor
          · rintro ⟨ha, rfl⟩
            exact ⟨.inl ha, rfl⟩
          · rintro ⟨ha | rfl | ha, rfl⟩
            · exact ⟨ha, rfl⟩
            · exact absurd hk (lt_irrefl _)
            · exact absurd hk (hbr a ha).asymm
      | eq =>
          have hk := compare_eq_iff_eq.1 hc
          simp only [Option.some.injEq]
          constructor
          · rintro rfl
            exact ⟨by simp, hk.symm⟩
          · rintro ⟨ha, rfl⟩
            exact h.eq_of_key_eq (by simp) ha hk.symm
      | gt =>
          have hk := compare_gt_iff_gt.1 hc
          simp only [ihr hr, toList_node, List.mem_append, List.mem_cons]
          constructor
          · rintro ⟨ha, rfl⟩
            exact ⟨.inr (.inr ha), rfl⟩
          · rintro ⟨ha | rfl | ha, rfl⟩
            · exact absurd hk (hlb a ha).asymm
            · exact absurd hk (lt_irrefl _)
            · exact ⟨ha, rfl⟩

theorem find_eq_none_iff (h : Ordered key t) :
    find key k t = none ↔ ∀ a ∈ toList t, key a ≠ k := by
  rw [Option.eq_none_iff_forall_ne_some]
  constructor
  · intro hnone a ha hk
    exact hnone a ((find_eq_some_iff h).2 ⟨ha, hk⟩)
  · intro hall a hsome
    obtain ⟨ha, hk⟩ := (find_eq_some_iff h).1 hsome
    exact hall a ha hk

/-- Where the search fails `upsert` adds one element. -/
theorem toList_upsert_of_find_eq_none (h : find key k t = none) :
    ∃ as bs, toList t = as ++ bs ∧ toList (upsert key k f t) = as ++ f none :: bs := by
  induction t with
  | nil => exact ⟨[], [], rfl, rfl⟩
  | node a l r ihl ihr =>
      rw [find] at h
      rw [upsert]
      cases hc : compare k (key a) with
      | lt =>
          rw [hc] at h
          obtain ⟨as, bs, hl, hup⟩ := ihl h
          exact ⟨as, bs ++ a :: toList r, by simp [hl], by simp [hup]⟩
      | eq => simp [hc] at h
      | gt =>
          rw [hc] at h
          obtain ⟨as, bs, hr, hup⟩ := ihr h
          exact ⟨toList l ++ a :: as, bs, by simp [hr], by simp [hup]⟩

/-- Where the search succeeds `upsert` changes the element that it finds. -/
theorem toList_upsert_of_find_eq_some (h : find key k t = some a) :
    ∃ as bs, toList t = as ++ a :: bs ∧ toList (upsert key k f t) = as ++ f (some a) :: bs := by
  induction t with
  | nil => simp [find] at h
  | node b l r ihl ihr =>
      rw [find] at h
      rw [upsert]
      cases hc : compare k (key b) with
      | lt =>
          rw [hc] at h
          obtain ⟨as, bs, hl, hup⟩ := ihl h
          exact ⟨as, bs ++ b :: toList r, by simp [hl], by simp [hup]⟩
      | eq =>
          rw [hc] at h
          cases h
          exact ⟨toList l, toList r, rfl, rfl⟩
      | gt =>
          rw [hc] at h
          obtain ⟨as, bs, hr, hup⟩ := ihr h
          exact ⟨toList l ++ b :: as, bs, by simp [hr], by simp [hup]⟩

theorem mem_of_mem_upsert {b : α} (h : b ∈ toList (upsert key k f t)) :
    b = f (find key k t) ∨ b ∈ toList t := by
  cases hfind : find key k t with
  | none =>
      obtain ⟨as, bs, ht, hup⟩ := toList_upsert_of_find_eq_none (f := f) hfind
      rw [hup] at h
      rw [ht]
      rcases List.mem_append.1 h with h | h
      · exact .inr (by simp [h])
      · rcases List.mem_cons.1 h with h | h
        · exact .inl h
        · exact .inr (by simp [h])
  | some a =>
      obtain ⟨as, bs, ht, hup⟩ := toList_upsert_of_find_eq_some (f := f) hfind
      rw [hup] at h
      rw [ht]
      rcases List.mem_append.1 h with h | h
      · exact .inr (by simp [h])
      · rcases List.mem_cons.1 h with h | h
        · exact .inl h
        · exact .inr (by simp [h])

theorem length_upsert_le (k : κ) (f : Option α → α) (t : BinaryTree α) :
    (toList (upsert key k f t)).length ≤ (toList t).length + 1 := by
  cases h : find key k t with
  | none =>
      obtain ⟨as, bs, ht, hup⟩ := toList_upsert_of_find_eq_none (f := f) h
      simp [ht, hup, Nat.add_assoc]
  | some a =>
      obtain ⟨as, bs, ht, hup⟩ := toList_upsert_of_find_eq_some (f := f) h
      simp [ht, hup]

theorem toList_erase_sublist (k : κ) (t : BinaryTree α) :
    (toList (erase key k t)).Sublist (toList t) := by
  induction t with
  | nil => exact .refl []
  | node a l r ihl ihr =>
      rw [erase]
      cases compare k (key a) with
      | lt => exact ihl.append (.refl _)
      | eq =>
          rw [toList_join, toList_node]
          exact (List.Sublist.refl _).append (List.sublist_cons_self a _)
      | gt => exact (List.Sublist.refl _).append (ihr.cons_cons a)

/-- What an ordered tree holds after `upsert`: the new element, and the old ones with other
keys. -/
theorem mem_upsert_iff (h : Ordered key t) :
    b ∈ toList (upsert key k f t) ↔ b = f (find key k t) ∨ b ∈ toList t ∧ key b ≠ k := by
  induction t with
  | nil => simp [upsert, find]
  | node a l r ihl ihr =>
      obtain ⟨hl, hr, hla, har⟩ := ordered_node_iff.1 h
      rw [upsert, find]
      cases hc : compare k (key a) with
      | lt =>
          have hk := compare_lt_iff_lt.1 hc
          have hright : ∀ b ∈ toList r, key b ≠ k := fun b hb => (hk.trans (har b hb)).ne'
          simp only [toList_node, List.mem_append, List.mem_cons, ihl hl]
          grind
      | eq =>
          have hk := compare_eq_iff_eq.1 hc
          have hleft : ∀ b ∈ toList l, key b ≠ k := fun b hb => hk ▸ (hla b hb).ne
          have hright : ∀ b ∈ toList r, key b ≠ k := fun b hb => hk ▸ (har b hb).ne'
          simp only [toList_node, List.mem_append, List.mem_cons]
          grind
      | gt =>
          have hk := compare_gt_iff_gt.1 hc
          have hleft : ∀ b ∈ toList l, key b ≠ k := fun b hb => ((hla b hb).trans hk).ne
          simp only [toList_node, List.mem_append, List.mem_cons, ihr hr]
          grind

theorem Ordered.upsert (h : Ordered key t) (hf : key (f (find key k t)) = k) :
    Ordered key (upsert key k f t) := by
  induction t with
  | nil => simp [SearchTree.upsert, ordered_node_iff]
  | node a l r ihl ihr =>
      obtain ⟨hl, hr, hla, har⟩ := ordered_node_iff.1 h
      rw [SearchTree.upsert]
      rw [find] at hf
      cases hc : compare k (key a) with
      | lt =>
          have hk := compare_lt_iff_lt.1 hc
          rw [hc] at hf
          apply ordered_node_iff.2 ⟨ihl hl hf, hr, fun b hb => ?_, har⟩
          rcases (mem_upsert_iff hl).1 hb with rfl | ⟨hb, -⟩
          · exact lt_of_eq_of_lt hf hk
          · exact hla b hb
      | eq =>
          rw [hc] at hf
          have hk : key (f (some a)) = key a := hf.trans (compare_eq_iff_eq.1 hc)
          exact ordered_node_iff.2 ⟨hl, hr, hk ▸ hla, hk ▸ har⟩
      | gt =>
          have hk := compare_gt_iff_gt.1 hc
          rw [hc] at hf
          apply ordered_node_iff.2 ⟨hl, ihr hr hf, hla, fun b hb => ?_⟩
          rcases (mem_upsert_iff hr).1 hb with rfl | ⟨hb, -⟩
          · exact lt_of_lt_of_eq hk hf.symm
          · exact har b hb

/-- Looking up among the elements with `p`. -/
theorem find_sift (h : Ordered key t) (p : α → Bool) (k : κ) :
    find key k (SearchTree.sift p t) = (find key k t).filter p := by
  ext b
  rw [find_eq_some_iff (h.sift p), toList_sift, List.mem_filter, Option.filter_eq_some_iff,
    find_eq_some_iff h]
  exact and_right_comm

/-- Looking up after `upsert`. -/
theorem find_upsert (h : Ordered key t) (hf : key (f (find key k t)) = k) (k' : κ) :
    find key k' (upsert key k f t) = if k' = k then some (f (find key k t)) else find key k' t := by
  have hup := h.upsert hf
  by_cases hk : k' = k
  · rw [if_pos hk, find_eq_some_iff hup, mem_upsert_iff h]
    exact ⟨.inl rfl, hf.trans hk.symm⟩
  · rw [if_neg hk]
    ext b
    rw [find_eq_some_iff hup, find_eq_some_iff h, mem_upsert_iff h]
    grind

/-- The list of an ordered tree after `erase`. -/
theorem toList_erase (h : Ordered key t) :
    toList (erase key k t) = (toList t).filter fun a => key a ≠ k := by
  induction t with
  | nil => rfl
  | node a l r ihl ihr =>
      obtain ⟨hl, hr, hla, har⟩ := ordered_node_iff.1 h
      rw [erase, toList_node, List.filter_append, List.filter_cons]
      cases hc : compare k (key a) with
      | lt =>
          have hk := compare_lt_iff_lt.1 hc
          have hright : (toList r).filter (fun b => key b ≠ k) = toList r :=
            List.filter_eq_self.2 fun b hb => by simpa using (hk.trans (har b hb)).ne'
          rw [toList_node, ihl hl, hright, if_pos (by simpa using hk.ne')]
      | eq =>
          have hk := compare_eq_iff_eq.1 hc
          have hleft : (toList l).filter (fun b => key b ≠ k) = toList l :=
            List.filter_eq_self.2 fun b hb => by simpa using hk ▸ (hla b hb).ne
          have hright : (toList r).filter (fun b => key b ≠ k) = toList r :=
            List.filter_eq_self.2 fun b hb => by simpa using hk ▸ (har b hb).ne'
          rw [toList_join, hleft, hright, if_neg (by simpa using hk.symm)]
      | gt =>
          have hk := compare_gt_iff_gt.1 hc
          have hleft : (toList l).filter (fun b => key b ≠ k) = toList l :=
            List.filter_eq_self.2 fun b hb => by simpa using ((hla b hb).trans hk).ne
          rw [toList_node, ihr hr, hleft, if_pos (by simpa using hk.ne)]

theorem Ordered.erase (h : Ordered key t) : Ordered key (erase key k t) := by
  rw [Ordered, toList_erase h]
  exact List.Pairwise.filter _ h

/-- Looking up after `erase`. -/
theorem find_erase (h : Ordered key t) (k' : κ) :
    find key k' (erase key k t) = if k' = k then none else find key k' t := by
  have her := h.erase (k := k)
  by_cases hk : k' = k
  · rw [if_pos hk, find_eq_none_iff her, toList_erase h]
    intro a ha
    simpa [hk] using (List.mem_filter.1 ha).2
  · rw [if_neg hk]
    ext b
    rw [find_eq_some_iff her, find_eq_some_iff h, toList_erase h,
      List.mem_filter]
    grind

variable (key)

theorem ordered_map_iff (g : β → α) (t : BinaryTree β) :
    Ordered key (t.map g) ↔ Ordered (fun c => key (g c)) t := by
  rw [Ordered, Ordered, toList_map, List.pairwise_map]

theorem find_map (g : β → α) (t : BinaryTree β) :
    find key k (t.map g) = (find (fun c => key (g c)) k t).map g := by
  induction t with
  | nil => rfl
  | node a l r ihl ihr =>
      rw [BinaryTree.map, find, find]
      cases compare k (key (g a)) with
      | lt => exact ihl
      | eq => rfl
      | gt => exact ihr

theorem upsert_map (k : κ) (g : β → α) {f' : Option β → β} (hf : ∀ o, g (f' o) = f (o.map g))
    (t : BinaryTree β) :
    (upsert (fun c => key (g c)) k f' t).map g = upsert key k f (t.map g) := by
  induction t with
  | nil => simp [upsert, BinaryTree.map, hf]
  | node a l r ihl ihr =>
      rw [BinaryTree.map, upsert, upsert]
      cases compare k (key (g a)) with
      | lt => simp [BinaryTree.map, ihl]
      | eq => simp [BinaryTree.map, hf]
      | gt => simp [BinaryTree.map, ihr]

theorem erase_map (g : β → α) (t : BinaryTree β) :
    (erase (fun c => key (g c)) k t).map g = erase key k (t.map g) := by
  induction t with
  | nil => rfl
  | node a l r ihl ihr =>
      rw [BinaryTree.map, erase, erase]
      cases compare k (key (g a)) with
      | lt => simp [BinaryTree.map, ihl]
      | eq => exact join_map g l r
      | gt => simp [BinaryTree.map, ihr]

end Keys

end SearchTree

import CTDSensorSuite.Phidget.PtreeRemove
import CTDSensorSuite.Reactive.Latest
import Mathlib.Data.Nat.Basic
import Mathlib.Tactic.Tauto

/-!
# Search, replacement and removal in memory

`ptree_contains`, `ptree_replace` and `ptree_remove` refine `SearchTree.find`,
`SearchTree.upsert` and `SearchTree.erase` on the cells in memory. A valid tree
(`Valid`) is one whose nodes are exactly the allocated ones, so that nothing is
lost and nothing freed is still pointed to, and whose values are ordered by key.

From the empty tree on every sequence of replacements and removals keeps the tree
valid, whatever fresh addresses `malloc` returns, and a later search finds the value
stored last under its key, unless it has been removed since (`contains_run`).
-/

namespace CTDSensorSuite

open SearchTree Reactive

namespace Ptree

variable {α : Type} {κ : Type*} [LinearOrder κ] {key : α → κ} {k : κ} {t : Ptree α} {slot : Slot}
  {x : Option Ptr} {c : BinaryTree (Ptr × α)} {fuel n : ℕ} {v : α}
  {fresh : Ptr}

/-- A cell is searched by the key of its value. -/
abbrev cellKey (key : α → κ) (e : Ptr × α) : κ := key e.2

/-- What `ptree_replace` makes of the cell that it finds, or puts where it finds none. -/
def cellOf (v : α) (fresh : Ptr) (o : Option (Ptr × α)) : Ptr × α :=
  (o.elim fresh Prod.fst, v)

/-! ### The three walks -/

/-- One round of `_walk_to` at a node. -/
theorem walkTo_node {e : Ptr × α} {l r : BinaryTree (Ptr × α)} (h : t.Holds slot x (.node e l r))
    (cmp : α → Ordering) (start : Option Ptr) (o : Ordering) :
    t.walkTo cmp (fuel + 1) slot start o =
      match cmp e.2 with
      | .eq => some (.eq, some e.1, slot)
      | .lt => t.walkTo cmp fuel (.left e.1) (some e.1) .lt
      | .gt => t.walkTo cmp fuel (.right e.1) (some e.1) .gt := by
  obtain ⟨rfl, left, right, hn, -, -⟩ := h.node
  simp only [walkTo, h.get, hn, Option.bind_eq_bind, Option.bind_some]
  cases cmp e.2 <;> rfl

/-- `_walk_to` on an empty tree. -/
theorem walkTo_nil (h : t.Holds slot x .nil) (cmp : α → Ordering) (start : Option Ptr)
    (o : Ordering) :
    t.walkTo cmp (fuel + 1) slot start o = some (o, start, slot) := by
  obtain rfl : x = none := h.rep
  simp [walkTo, h.get]

/-- The walk of `ptree_contains` and what it ends with. -/
theorem walkTo_find (h : t.Holds slot x c) (hfuel : c.height < fuel) (start : Option Ptr)
    {o : Ordering} (ho : o ≠ .eq) :
    (t.walkTo (fun w => compare k (key w)) fuel slot start o >>= fun
      | (.eq, some p, _) => do return some (← t.node p).value
      | _ => return none) = some ((find (cellKey key) k c).map Prod.snd) := by
  obtain ⟨fuel, rfl⟩ : ∃ n, fuel = n + 1 := Nat.exists_eq_succ_of_ne_zero (by omega)
  induction c generalizing slot x fuel o start with
  | nil =>
      rw [walkTo_nil h]
      cases o with
      | eq => exact absurd rfl ho
      | lt | gt => rfl
  | node e l r ihl ihr =>
      obtain ⟨-, left, right, hn, hl, hr⟩ := h.node
      simp only [BinaryTree.height] at hfuel
      obtain ⟨fuel, rfl⟩ : ∃ n, fuel = n + 1 := Nat.exists_eq_succ_of_ne_zero (by omega)
      rw [walkTo_node h, find]
      cases compare k (key e.2) with
      | lt => exact ihl hl _ (by simp) fuel (by omega)
      | gt => exact ihr hr _ (by simp) fuel (by omega)
      | eq => simp [hn]

/-- A new leaf in a slot that holds a null pointer. -/
theorem exists_put_alloc (hget : t.get slot = some x) (hfresh : t.node fresh = none) :
    ∃ u, (t.alloc fresh ⟨v, slot.owner, none, none⟩).put slot (some fresh) = some u ∧
      Replaced [fresh] slot (some fresh) t u ∧
      u.node fresh = some ⟨v, slot.owner, none, none⟩ := by
  have hag : Agree [fresh] t (t.alloc fresh ⟨v, slot.owner, none, none⟩) :=
    ⟨rfl, fun q hq => Function.update_of_ne (by simpa using hq) _ _⟩
  -- the node of the slot is allocated already
  have hne : slot.owner ≠ some fresh := by
    cases slot with
    | root => simp [Slot.owner]
    | left q | right q =>
        rintro ⟨⟩
        simp [Ptree.get, hfresh] at hget
  have haway : ∀ p ∈ [fresh], slot.owner ≠ some p := by simpa using hne
  obtain ⟨u, hput⟩ := exists_put ((hag.get haway).trans hget) (some fresh)
  refine ⟨u, hput, hag.trans_replaced ⟨u, hput, .refl [] u⟩ (by simp) haway, ?_⟩
  exact (node_of_put hput hne).trans (Function.update_self ..)

/-- The addresses after a replacement: those from before, with `fresh` among them where the
search fails. -/
theorem addrs_upsert (key : α → κ) (k : κ) (v : α) (fresh : Ptr) (c : BinaryTree (Ptr × α)) :
    addrs (upsert (cellKey key) k (cellOf v fresh) c) = addrs c ∨
      ∃ as bs, addrs c = as ++ bs ∧
        addrs (upsert (cellKey key) k (cellOf v fresh) c) = as ++ fresh :: bs := by
  cases h : find (cellKey key) k c with
  | some e =>
      obtain ⟨as, bs, hc, hup⟩ := toList_upsert_of_find_eq_some (f := cellOf v fresh) h
      exact .inl (by simp [addrs, hc, hup, cellOf])
  | none =>
      obtain ⟨as, bs, hc, hup⟩ := toList_upsert_of_find_eq_none (f := cellOf v fresh) h
      exact .inr ⟨as.map Prod.fst, bs.map Prod.fst, by simp [addrs, hc], by simp [addrs, hup, cellOf]⟩

theorem mem_addrs_upsert {p : Ptr} (h : p ∈ addrs (upsert (cellKey key) k (cellOf v fresh) c)) :
    p = fresh ∨ p ∈ addrs c := by
  rcases addrs_upsert key k v fresh c with hup | ⟨as, bs, hc, hup⟩
  · exact .inr (hup ▸ h)
  · rw [hup] at h
    rw [hc]
    simpa [or_left_comm] using h

/-- The walk of `ptree_replace` and what it ends with. -/
theorem walkTo_store (h : t.Holds slot x c) (hfuel : c.height < fuel) {o : Ordering}
    (ho : o ≠ .eq) (start : Option Ptr) (hstart : x = none → start = slot.owner)
    (hfresh : t.node fresh = none) :
    ∃ u x', (t.walkTo (fun w => compare k (key w)) fuel slot start o >>= t.store v fresh) =
        some (u, (find (cellKey key) k c).map Prod.snd) ∧
      Replaced (addrs (upsert (cellKey key) k (cellOf v fresh) c)) slot x' t u ∧
      u.Rep slot.owner x' (upsert (cellKey key) k (cellOf v fresh) c) := by
  obtain ⟨fuel, rfl⟩ : ∃ n, fuel = n + 1 := Nat.exists_eq_succ_of_ne_zero (by omega)
  induction c generalizing slot x fuel o start with
  | nil =>
      obtain rfl := hstart h.rep
      obtain ⟨u, hu, hrepl, hn⟩ := exists_put_alloc (v := v) h.get hfresh
      refine ⟨u, some fresh, ?_, hrepl, rfl, none, none, hn, rfl, rfl⟩
      rw [walkTo_nil h]
      cases o with
      | eq => exact absurd rfl ho
      | lt | gt => simp [store, hu, find]
  | node e l r ihl ihr =>
      obtain ⟨rfl, left, right, hn, hl, hr⟩ := h.node
      obtain ⟨-, -, hel, her, hlr⟩ := nodup_addrs_node_iff.1 h.nodup
      have hne : ∀ p ∈ addrs (.node e l r), p ≠ fresh := by
        rintro p hp rfl
        exact h.rep.node_ne_none hp hfresh
      simp only [BinaryTree.height] at hfuel
      obtain ⟨fuel, rfl⟩ : ∃ n, fuel = n + 1 := Nat.exists_eq_succ_of_ne_zero (by omega)
      rw [walkTo_node h, find, upsert]
      cases compare k (key e.2) with
      | lt =>
          obtain ⟨u, x', hu, hrepl, hrepu⟩ := ihl hl (o := .lt) (by simp) (some e.1)
            (by simp [Slot.owner]) fuel (by omega)
          refine ⟨u, some e.1, hu, h.of_left hrepl hrepu (fun p hp => ?_) (by simp)
            (by simp +contextual)⟩
          rcases mem_addrs_upsert hp with rfl | hp
          · exact ⟨fun he => hne e.1 (by simp) he.symm, fun hr => hne p (by simp [hr]) rfl⟩
          · exact ⟨fun he => hel (he ▸ hp), hlr p hp⟩
      | gt =>
          obtain ⟨u, x', hu, hrepl, hrepu⟩ := ihr hr (o := .gt) (by simp) (some e.1)
            (by simp [Slot.owner]) fuel (by omega)
          refine ⟨u, some e.1, hu, h.of_right hrepl hrepu (fun p hp => ?_) (by simp)
            (by simp +contextual)⟩
          rcases mem_addrs_upsert hp with rfl | hp
          · exact ⟨fun he => hne e.1 (by simp) he.symm, fun hl => hne p (by simp [hl]) rfl⟩
          · exact ⟨fun he => her (he ▸ hp), fun hpl => hlr p hpl hp⟩
      | eq =>
          have hu := modify_eq_some hn fun n => { n with value := v }
          have hag := agree_modify _ hu
          refine ⟨{ t with node := Function.update t.node e.1 (some ⟨v, slot.owner, left, right⟩) },
            some e.1, by simp [store, hn, hu], ?_, rfl, left, right, ?_, ?_, ?_⟩
          · exact (Replaced.refl [] h.get).trans_agree (hag.mono (by simp [cellOf])) (by simp)
          · exact Function.update_self ..
          · exact hl.rep.congr fun p hp => hag.2 p (by simpa using fun he : p = e.1 => hel (he ▸ hp))
          · exact hr.rep.congr fun p hp => hag.2 p (by simpa using fun he : p = e.1 => her (he ▸ hp))

/-- The walk of `ptree_remove` and what it ends with. -/
theorem walkTo_removeFound (h : t.Holds slot x c) (hfuel : c.height < fuel) {o : Ordering}
    (ho : o ≠ .eq) (start : Option Ptr) (hn : c.height ≤ n) :
    ∃ u x', (t.walkTo (fun w => compare k (key w)) fuel slot start o >>= t.removeFound n) =
        some (u, (find (cellKey key) k c).map Prod.snd) ∧
      Replaced (addrs c) slot x' t u ∧ u.Rep slot.owner x' (erase (cellKey key) k c) ∧
      ∀ p ∈ addrs c, p ∉ addrs (erase (cellKey key) k c) → u.node p = none := by
  obtain ⟨fuel, rfl⟩ : ∃ n, fuel = n + 1 := Nat.exists_eq_succ_of_ne_zero (by omega)
  induction c generalizing slot x fuel o start with
  | nil =>
      refine ⟨t, x, ?_, .refl _ h.get, h.rep, by simp⟩
      rw [walkTo_nil h]
      cases o with
      | eq => exact absurd rfl ho
      | lt | gt => rfl
  | node e l r ihl ihr =>
      obtain ⟨rfl, left, right, hnode, hl, hr⟩ := h.node
      obtain ⟨-, -, hel, her, hlr⟩ := nodup_addrs_node_iff.1 h.nodup
      simp only [BinaryTree.height] at hfuel hn
      obtain ⟨fuel, rfl⟩ : ∃ n, fuel = n + 1 := Nat.exists_eq_succ_of_ne_zero (by omega)
      rw [walkTo_node h, find, erase]
      cases compare k (key e.2) with
      | lt =>
          obtain ⟨u, x', hu, hrepl, hrepu, hfree⟩ := ihl hl (o := .lt)
            (by simp) (some e.1) (by omega) fuel (by omega)
          obtain ⟨hreplu, hrepu'⟩ := h.of_left hrepl hrepu
            (fun p hp => ⟨fun he => hel (he ▸ hp), hlr p hp⟩) (B := addrs (.node e l r)) (by simp)
            (by simp +contextual)
          refine ⟨u, some e.1, hu, hreplu, hrepu', fun p hp hp' => hfree p ?_ ?_⟩ <;>
            simp only [addrs_node, List.mem_append, List.mem_cons] at hp hp' <;> tauto
      | gt =>
          obtain ⟨u, x', hu, hrepl, hrepu, hfree⟩ := ihr hr (o := .gt)
            (by simp) (some e.1) (by omega) fuel (by omega)
          obtain ⟨hreplu, hrepu'⟩ := h.of_right hrepl hrepu
            (fun p hp => ⟨fun he => her (he ▸ hp), fun hpl => hlr p hpl hp⟩)
            (B := addrs (.node e l r)) (by simp) (by simp +contextual)
          refine ⟨u, some e.1, hu, hreplu, hrepu', fun p hp hp' => hfree p ?_ ?_⟩ <;>
            simp only [addrs_node, List.mem_append, List.mem_cons] at hp hp' <;> tauto
      | eq =>
          obtain ⟨u, x', hu, hrepl, hrepu, hfree⟩ := removeNode_eq h (show l.height ≤ n by omega)
          refine ⟨u, x', by simp [removeFound, hu], hrepl, hrepu, fun p hp hp' => ?_⟩
          have hpe : p = e.1 := by
            simp only [addrs_node, addrs_join, List.mem_append, List.mem_cons] at hp hp'
            tauto
          exact hpe ▸ hfree

/-! ### Valid trees -/

/-- The nodes of the tree are the allocated ones, and their values form `s`. -/
structure Valid (key : α → κ) (t : Ptree α) (s : BinaryTree α) : Prop where
  /-- The cells in memory. -/
  exists_rep : ∃ c : BinaryTree (Ptr × α), c.map Prod.snd = s ∧ t.Rep none t.root c ∧
    (addrs c).Nodup ∧ ∀ p, t.node p ≠ none → p ∈ addrs c
  ordered : Ordered key s

theorem holds_root (h : t.Rep none t.root c) (hnd : (addrs c).Nodup) :
    t.Holds .root t.root c :=
  ⟨rfl, h, hnd, by simp [Slot.owner], fun p hp => by simp [Slot.owner, slotOf, hp]⟩

theorem valid_empty : Valid key (empty : Ptree α) .nil :=
  ⟨⟨.nil, rfl, rfl, by simp, by simp [empty]⟩, ordered_nil⟩

section Calls

variable {s : BinaryTree α}

/-- `ptree_contains` on a valid tree. -/
theorem Valid.contains (h : Valid key t s) (hfuel : s.height < fuel) (k : κ) :
    t.contains fuel (fun w => compare k (key w)) = some (find key k s) := by
  obtain ⟨⟨c, rfl, hrep, hnd, -⟩, -⟩ := h
  rw [height_map] at hfuel
  rw [find_map]
  exact walkTo_find (holds_root hrep hnd) hfuel t.root (by simp)

/-- `ptree_replace` on a valid tree, with an address from `malloc` that is not in use. -/
theorem Valid.replace (h : Valid key t s) (hfuel : s.height < fuel) (v : α)
    (hfresh : t.node fresh = none) :
    ∃ u, t.replace fuel (fun w => compare (key v) (key w)) v fresh =
        some (u, find key (key v) s) ∧ Valid key u (upsert key (key v) (fun _ => v) s) := by
  obtain ⟨⟨c, rfl, hrep, hnd, hall⟩, hord⟩ := h
  rw [height_map] at hfuel
  obtain ⟨u, x, hu, ⟨t', hput, hag⟩, hrepu⟩ := walkTo_store (k := key v) (v := v) (o := .lt)
    (holds_root hrep hnd) hfuel (by simp) t.root (by simp [Slot.owner]) hfresh
  cases hput
  obtain rfl : u.root = x := hag.1
  have hmap := upsert_map key (key v) (f := fun _ => v) (Prod.snd : Ptr × α → α)
    (fun o => (rfl : (cellOf v fresh o).2 = v)) c
  refine ⟨u, ?_, ⟨⟨_, hmap, hrepu, ?_, fun p hp => ?_⟩, hord.upsert rfl⟩⟩
  · rw [find_map]
    exact hu
  · rcases addrs_upsert key (key v) v fresh c with hup | ⟨as, bs, hc, hup⟩
    · rwa [hup]
    · have hnew : fresh ∉ addrs c := fun hmem => hrep.node_ne_none hmem hfresh
      rw [hc] at hnd hnew
      rw [hup, List.nodup_middle]
      exact List.nodup_cons.2 ⟨hnew, hnd⟩
  · by_contra hmem
    apply hmem
    rw [hag.2 p hmem] at hp
    rcases addrs_upsert key (key v) v fresh c with hup | ⟨as, bs, hc, hup⟩
    · rw [hup]
      exact hall p hp
    · have hpc := hall p hp
      rw [hc, List.mem_append] at hpc
      rw [hup, List.mem_append, List.mem_cons]
      tauto

/-- `ptree_remove` on a valid tree. -/
theorem Valid.remove (h : Valid key t s) (hfuel : s.height < fuel) (k : κ) :
    ∃ u, t.remove fuel (fun w => compare k (key w)) = some (u, find key k s) ∧
      Valid key u (erase key k s) := by
  obtain ⟨⟨c, rfl, hrep, hnd, hall⟩, hord⟩ := h
  rw [height_map] at hfuel
  obtain ⟨u, x, hu, ⟨t', hput, hag⟩, hrepu, hfree⟩ := walkTo_removeFound (k := k) (o := .lt)
    (holds_root hrep hnd) hfuel (by simp) t.root (Nat.le_of_lt hfuel)
  cases hput
  obtain rfl : u.root = x := hag.1
  refine ⟨u, ?_, ⟨⟨_, erase_map key Prod.snd c, hrepu, ?_, fun p hp => ?_⟩, hord.erase⟩⟩
  · rw [find_map]
    exact hu
  · exact hnd.sublist ((toList_erase_sublist k c).map Prod.fst)
  · by_contra hmem
    have hpc : p ∈ addrs c := by
      by_contra hpc
      rw [hag.2 p hpc] at hp
      exact hpc (hall p hp)
    exact hp (hfree p hpc hmem)

/-! ### Runs of calls -/

/-- A call that changes a tree; `fresh` is what `malloc` returns in it. -/
inductive Call (α : Type) (κ : Type*) where
  | replace (v : α) (fresh : Ptr)
  | remove (k : κ)

/-- The call on a tree, and its `*oldval`. -/
def Call.apply (key : α → κ) (fuel : ℕ) : Call α κ → Ptree α → Option (Ptree α × Option α)
  | .replace v fresh, t => t.replace fuel (fun w => compare (key v) (key w)) v fresh
  | .remove k, t => t.remove fuel fun w => compare k (key w)

/-- The tree after the calls. -/
def run (key : α → κ) (fuel : ℕ) : List (Call α κ) → Ptree α → Option (Ptree α)
  | [], t => some t
  | call :: calls, t => (call.apply key fuel t).bind fun r => run key fuel calls r.1

/-- Whenever the calls need memory, `malloc` returns an address that is not in use. -/
def MallocFresh (key : α → κ) (fuel : ℕ) : List (Call α κ) → Ptree α → Prop
  | [], _ => True
  | call :: calls, t => (∀ v fresh, call = .replace v fresh → t.node fresh = none) ∧
      ∀ r, call.apply key fuel t = some r → MallocFresh key fuel calls r.1

/-- What a call leaves under the key `k`, if it is about this key. -/
def Call.leaves (key : α → κ) (k : κ) : Call α κ → Option (Option α)
  | .replace v _ => if key v = k then some (some v) else none
  | .remove k' => if k' = k then some none else none

/-- A call keeps a valid tree valid. -/
theorem Valid.apply (h : Valid key t s) (hfuel : s.height < fuel) (call : Call α κ)
    (hfresh : ∀ v fresh, call = .replace v fresh → t.node fresh = none) :
    ∃ u s' old, call.apply key fuel t = some (u, old) ∧ Valid key u s' ∧
      (toList s').length ≤ (toList s).length + 1 ∧
      ∀ k, find key k s' = (call.leaves key k).getD (find key k s) := by
  cases call with
  | replace v fresh =>
      obtain ⟨u, hu, hval⟩ := h.replace hfuel v (hfresh v fresh rfl)
      refine ⟨u, _, _, hu, hval, length_upsert_le _ _ s, fun k => ?_⟩
      rw [find_upsert h.ordered rfl]
      by_cases hk : key v = k
      · simp [Call.leaves, hk]
      · simp [Call.leaves, hk, Ne.symm hk]
  | remove k' =>
      obtain ⟨u, hu, hval⟩ := h.remove hfuel k'
      refine ⟨u, _, _, hu, hval, Nat.le_succ_of_le (toList_erase_sublist k' s).length_le,
        fun k => ?_⟩
      rw [find_erase h.ordered]
      by_cases hk : k' = k
      · simp [Call.leaves, hk]
      · simp [Call.leaves, hk, Ne.symm hk]

theorem Valid.run {calls : List (Call α κ)} (h : Valid key t s)
    (hfuel : (toList s).length + calls.length < fuel) (hfresh : MallocFresh key fuel calls t) :
    ∃ u s', run key fuel calls t = some u ∧ Valid key u s' ∧
      (toList s').length ≤ (toList s).length + calls.length ∧
      ∀ k, find key k s' = (latest (Call.leaves key k) calls).getD (find key k s) := by
  induction calls generalizing t s with
  | nil => exact ⟨t, s, rfl, h, by simp, fun k => rfl⟩
  | cons call calls ih =>
      rw [List.length_cons] at hfuel
      have hheight := height_le_length s
      obtain ⟨u, s', old, hu, hval, hlen, hfind⟩ :=
        h.apply (show s.height < fuel by omega) call hfresh.1
      obtain ⟨u', s'', hrun, hval', hlen', hfind'⟩ := ih hval (by omega) (hfresh.2 _ hu)
      refine ⟨u', s'', ?_, hval', ?_, fun k => ?_⟩
      · simp only [Ptree.run, hu, Option.bind_some, hrun]
      · rw [List.length_cons]
        omega
      · rw [hfind', hfind, latest_cons]
        cases latest (Call.leaves key k) calls <;> rfl

/-- From the empty tree on every sequence of calls leaves a valid tree, in which the search
for a key finds what the last call about this key has left. -/
theorem contains_run {calls : List (Call α κ)} (hfuel : calls.length < fuel)
    (hfresh : MallocFresh key fuel calls empty) :
    ∃ u s, run key fuel calls empty = some u ∧ Valid key u s ∧
      ∀ k, u.contains fuel (fun w => compare k (key w)) =
        some (latest (Call.leaves key k) calls).join := by
  obtain ⟨u, s, hrun, hval, hlen, hfind⟩ := valid_empty.run (by simpa using hfuel) hfresh
  have hheight := height_le_length s
  refine ⟨u, s, hrun, hval, fun k => ?_⟩
  rw [hval.contains (by simp at hlen; omega), hfind]
  cases latest (Call.leaves key k) calls <;> rfl

end Calls

/-- Three values come in, and the one in the root goes. -/
def threeCalls : List (Call ℕ ℕ) := [.replace 2 0, .replace 1 1, .replace 3 2, .remove 2]

theorem mallocFresh_threeCalls : MallocFresh id 5 threeCalls empty := by
  refine ⟨by rintro v fresh ⟨⟩; rfl, fun r hr => ?_⟩
  cases hr
  refine ⟨by rintro v fresh ⟨⟩; rfl, fun r hr => ?_⟩
  cases hr
  refine ⟨by rintro v fresh ⟨⟩; rfl, fun r hr => ?_⟩
  cases hr
  exact ⟨by rintro v fresh ⟨⟩, fun r hr => trivial⟩

theorem contains_run_threeCalls :
    ∃ u s, run id 5 threeCalls empty = some u ∧ Valid id u s ∧
      ∀ k, u.contains 5 (fun w => compare k (id w)) =
        some (latest (Call.leaves id k) threeCalls).join :=
  contains_run (by decide) mallocFresh_threeCalls

end Ptree

end CTDSensorSuite

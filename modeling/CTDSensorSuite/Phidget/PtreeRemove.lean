import CTDSensorSuite.Phidget.Ptree

/-!
# Taking a node out of the tree in memory

`_remove_node` refines `SearchTree.join`: where the node's two subtrees were, the
memory then holds their join, every node of it points to its parent, the node itself
is freed, and nothing outside the subtree has changed but the slot above it
(`removeNode_eq`). With two children the predecessor first leaves its place
(`unlinkPred_eq`) and then takes the place of the node (`takePlace_eq`).
-/

namespace CTDSensorSuite

open SearchTree

namespace Ptree

variable {α : Type} {t : Ptree α} {slot : Slot} {x y : Option Ptr} {a m : Ptr} {w : α}
  {e : Ptr × α} {l r : BinaryTree (Ptr × α)} {fuel : ℕ} {n : PtreeNode α}

/-- The last node of a subtree leaves its place, and its left child takes it. -/
theorem exists_adopt_lastSlot (h : t.Holds slot x (.node e l r)) (hsome : slot.owner.isSome)
    (hfuel : r.height < fuel) :
    ∃ s left u x', t.lastSlot fuel slot = some s ∧
      t.get s = some (some (popMax e l r).2.1) ∧
      t.node (popMax e l r).2.1 = some ⟨(popMax e l r).2.2, s.owner, left, none⟩ ∧
      t.slotOf s.owner (popMax e l r).2.1 = some s ∧ s.owner.isSome ∧
      t.adopt s left s.owner = some u ∧ Replaced (addrs (.node e l r)) slot x' t u ∧
      u.Rep slot.owner x' (popMax e l r).1 ∧
      u.node (popMax e l r).2.1 = t.node (popMax e l r).2.1 := by
  obtain ⟨fuel, rfl⟩ : ∃ k, fuel = k + 1 := Nat.exists_eq_succ_of_ne_zero (by omega)
  induction r generalizing e l slot x fuel with
  | nil =>
      obtain ⟨rfl, left, right, hn, hl, hr⟩ := h.node
      cases hr.rep
      have hel : e.1 ∉ addrs l := fun hel => hl.away e.1 hel rfl
      obtain ⟨u, hadopt, hrepl, hrepu⟩ := hl.rep.adopt hl.nodup h.get
        (fun q hq => h.away q (by simp [hq])) slot.owner
      refine ⟨slot, left, u, left, ?_, h.get, hn, h.loc _ rfl, hsome, hadopt,
        hrepl.mono (by simp +contextual), hrepu, hrepl.node hel (h.away e.1 (by simp))⟩
      simp [lastSlot, h.get, hn]
  | node b rl rr _ ih =>
      obtain ⟨rfl, left, right, hn, hl, hr⟩ := h.node
      obtain ⟨-, -, hel, her, hlr⟩ := nodup_addrs_node_iff.1 h.nodup
      obtain rfl : right = some b.1 := hr.rep.1
      obtain ⟨fuel, rfl⟩ : ∃ k, fuel = k + 1 := Nat.exists_eq_succ_of_ne_zero (by
        simp only [BinaryTree.height] at hfuel
        omega)
      obtain ⟨s, left', u, x', hlast, hgets, hnode, hlocs, hsomes, hadopt, hrepl, hrepu, hkeep⟩ :=
        ih hr rfl fuel (by
          simp only [BinaryTree.height] at hfuel
          omega)
      obtain ⟨hreplu, hrepu⟩ := h.of_right hrepl hrepu
        (fun q hq => ⟨fun hqe => her (hqe ▸ hq), fun hql => hlr q hql hq⟩)
        (B := addrs (.node e l (.node b rl rr))) (by simp) (by simp +contextual)
      refine ⟨s, left', u, some e.1, ?_, hgets, hnode, hlocs, hsomes, hadopt, hreplu, hrepu, hkeep⟩
      simpa [lastSlot, h.get, hn] using hlast

/-- What the predecessor of the node at `a` leaves behind, and where it was. -/
theorem unlinkPred_eq (h : t.Holds (.left a) x (.node e l r))
    (hfuel : (BinaryTree.node e l r).height ≤ fuel) :
    ∃ u x', t.unlinkPred fuel a = some ((popMax e l r).2.1, u) ∧
      Replaced (addrs (.node e l r)) (.left a) x' t u ∧ u.Rep (some a) x' (popMax e l r).1 ∧
      ∃ p, u.node (popMax e l r).2.1 = some p ∧ p.value = (popMax e l r).2.2 := by
  have hheight : r.height < fuel := by
    simp only [BinaryTree.height] at hfuel
    omega
  obtain ⟨s, left', u, x', hlast, hgets, hnode, hlocs, hsomes, hadopt, hrepl, hrepu, hkeep⟩ :=
    exists_adopt_lastSlot h rfl hheight
  obtain ⟨q, hq⟩ := Option.isSome_iff_exists.1 hsomes
  rw [hq] at hnode hlocs hadopt
  refine ⟨u, x', ?_, hrepl, hrepu, _, hkeep.trans hnode, rfl⟩
  simp [unlinkPred, hlast, hgets, hnode, hlocs, hadopt]

/-- The node `m` takes the place of the node at `a`. -/
theorem takePlace_eq (hn : t.node a = some n) (hparent : n.parent = slot.owner)
    (hl : t.Rep (some a) n.left l) (hr : t.Rep (some a) n.right r)
    (hm : ∃ p, t.node m = some p ∧ p.value = w) (hget : t.get slot = some y)
    (hndl : (addrs l).Nodup) (hndr : (addrs r).Nodup) (hlr : ∀ q ∈ addrs l, q ∉ addrs r)
    (hml : m ∉ addrs l) (hmr : m ∉ addrs r)
    (hown : ∀ q, q = a ∨ q = m ∨ q ∈ addrs l ∨ q ∈ addrs r → slot.owner ≠ some q) :
    ∃ u, t.takePlace slot a m = some u ∧
      Replaced (addrs (.node (m, w) l r)) slot (some m) t u ∧
      u.Rep slot.owner (some m) (.node (m, w) l r) := by
  obtain ⟨p, hp, rfl⟩ := hm
  obtain ⟨t₁, hput⟩ := exists_put hget (some m)
  have hsame : ∀ q, q = a ∨ q = m ∨ q ∈ addrs l ∨ q ∈ addrs r → t₁.node q = t.node q :=
    fun q hq => node_of_put hput (hown q hq)
  have hn₁ : t₁.node a = some n := (hsame a (.inl rfl)).trans hn
  have hp₁ : t₁.node m = some p := (hsame m (.inr (.inl rfl))).trans hp
  -- the fields of `m`
  have h₂ := modify_eq_some hp₁ fun q =>
    { q with parent := n.parent, left := n.left, right := n.right }
  generalize ht₂ : { t₁ with node := _ } = t₂ at h₂
  have hag₂ := agree_modify _ h₂
  have hm₂ : t₂.node m = some ⟨p.value, n.parent, n.left, n.right⟩ := by
    rw [← ht₂]
    exact Function.update_self ..
  have hl₂ : t₂.Rep (some a) n.left l := hl.congr fun q hq =>
    (hag₂.2 q (by simpa using fun hqm : q = m => hml (hqm ▸ hq))).trans (hsame q (by simp [hq]))
  have hr₂ : t₂.Rep (some a) n.right r := hr.congr fun q hq =>
    (hag₂.2 q (by simpa using fun hqm : q = m => hmr (hqm ▸ hq))).trans (hsame q (by simp [hq]))
  -- the parents of its children
  obtain ⟨t₃, h₃, hag₃, hl₃⟩ := hl₂.setParent hndl (some m)
  have hr₃ : t₃.Rep (some a) n.right r := hr₂.congr fun q hq =>
    hag₃.2 q fun hql => hlr q hql hq
  obtain ⟨t₄, h₄, hag₄, hr₄⟩ := hr₃.setParent hndr (some m)
  have hl₄ : t₄.Rep (some m) n.left l := hl₃.congr fun q hq => hag₄.2 q (hlr q hq)
  refine ⟨t₄, ?_, ⟨t₁, hput, ?_⟩, rfl, n.left, n.right, ?_, hl₄, hr₄⟩
  · simp [takePlace, hput, hn₁, h₂, h₃, h₄]
  · have hB₂ := hag₂.mono (B := addrs (.node (m, p.value) l r)) (by simp)
    have hB₃ := hag₃.mono (B := addrs (.node (m, p.value) l r)) (by simp +contextual)
    have hB₄ := hag₄.mono (B := addrs (.node (m, p.value) l r)) (by simp +contextual)
    exact (hB₂.trans hB₃ fun _ hq => hq).trans hB₄ fun _ hq => hq
  · rw [hag₄.2 m hmr, hag₃.2 m hml, hm₂, hparent]

/-- The addresses of a subtree without its last element, and that element's. -/
theorem addrs_popMax (e : Ptr × α) (l r : BinaryTree (Ptr × α)) :
    addrs (popMax e l r).1 ++ [(popMax e l r).2.1] = addrs (.node e l r) := by
  have h := congrArg (List.map Prod.fst) (toList_popMax e l r)
  simpa [addrs] using h

theorem addrs_join (l r : BinaryTree (Ptr × α)) : addrs (join l r) = addrs l ++ addrs r := by
  simp [addrs]

/-- What is at the place of a node after `_remove_node` has filled it. -/
theorem fillPlace_eq (h : t.Holds slot x (.node e l r)) (hn : t.node e.1 = some n)
    (hfuel : l.height ≤ fuel) :
    ∃ u x', t.fillPlace fuel slot e.1 n = some u ∧
      Replaced (addrs (.node e l r)) slot x' t u ∧ u.Rep slot.owner x' (join l r) := by
  obtain ⟨rfl, left, right, hn', hl, hr⟩ := h.node
  cases Option.some.inj (hn.symm.trans hn')
  obtain ⟨-, -, hel, her, hlr⟩ := nodup_addrs_node_iff.1 h.nodup
  have hleft : ∀ q ∈ addrs l, q ∈ addrs (.node e l r) := fun q hq => by simp [hq]
  have hright : ∀ q ∈ addrs r, q ∈ addrs (.node e l r) := fun q hq => by simp [hq]
  cases l with
  | nil =>
      cases hl.rep
      obtain ⟨u, hu, hrepl, hrepu⟩ := hr.rep.adopt hr.nodup h.get
        (fun q hq => h.away q (hright q hq)) slot.owner
      exact ⟨u, right, hu, hrepl.mono hright, hrepu⟩
  | node b ll lr =>
      obtain rfl : left = some b.1 := hl.rep.1
      cases r with
      | nil =>
          cases hr.rep
          obtain ⟨u, hu, hrepl, hrepu⟩ := hl.rep.adopt hl.nodup h.get
            (fun q hq => h.away q (hleft q hq)) slot.owner
          exact ⟨u, some b.1, hu, hrepl.mono hleft, hrepu⟩
      | node d rl rr =>
          obtain rfl : right = some d.1 := hr.rep.1
          obtain ⟨u, x', hunlink, hrepl, hrepu, hm⟩ := unlinkPred_eq hl hfuel
          -- the predecessor is a cell of the left subtree, and not of what is left of it
          have hsplit := addrs_popMax b ll lr
          have hrest : ∀ q ∈ addrs (popMax b ll lr).1, q ∈ addrs (.node b ll lr) := fun q hq => by
            rw [← hsplit]
            exact List.mem_append_left _ hq
          have hmax : (popMax b ll lr).2.1 ∈ addrs (.node b ll lr) := by
            rw [← hsplit]
            simp
          have hnd := hl.nodup
          rw [← hsplit, List.nodup_append] at hnd
          have hag : Agree (addrs (.node e (.node b ll lr) (.node d rl rr))) t u :=
            hrepl.agree rfl (by simp) hleft
          obtain ⟨v, hv, hreplv, hrepv⟩ := takePlace_eq (hrepl.node_left hel hn) rfl hrepu
            (hr.rep.congr fun q hq => hrepl.node (fun hql => hlr q hql hq) (hr.away q hq)) hm
            ((hag.get h.away).trans h.get) hnd.1 hr.nodup (fun q hq => hlr q (hrest q hq))
            (fun hq => hnd.2.2 _ hq _ (by simp) rfl) (hlr _ hmax) (by
              rintro q (rfl | rfl | hq | hq)
              · exact h.away _ (by simp)
              · exact h.away _ (hleft _ hmax)
              · exact h.away q (hleft q (hrest q hq))
              · exact h.away q (hright q hq))
          refine ⟨v, _, by simp [fillPlace, hunlink, hv], ?_, hrepv⟩
          apply hag.trans_replaced hreplv _ h.away
          intro q hq
          rw [addrs_node, List.mem_append, List.mem_cons] at hq
          rcases hq with hq | rfl | hq
          · exact hleft q (hrest q hq)
          · exact hleft _ hmax
          · exact hright q hq

/-- `_remove_node` joins the two subtrees of a node in its place and frees it. -/
theorem removeNode_eq (h : t.Holds slot x (.node e l r)) (hfuel : l.height ≤ fuel) :
    ∃ u x', t.removeNode fuel e.1 = some (u, e.2) ∧
      Replaced (addrs (.node e l r)) slot x' t u ∧ u.Rep slot.owner x' (join l r) ∧
      u.node e.1 = none := by
  obtain ⟨rfl, left, right, hn, -, -⟩ := h.node
  obtain ⟨u, x', hu, hrepl, hrepu⟩ := fillPlace_eq h hn hfuel
  obtain ⟨-, -, hel, her, -⟩ := nodup_addrs_node_iff.1 h.nodup
  refine ⟨u.free e.1, x', ?_, ?_, ?_, free_node_self e.1 u⟩
  · simp [removeNode, hn, h.loc, hu]
  · exact hrepl.trans_agree ((agree_free e.1 u).mono (by simp)) fun _ hp => hp
  · apply hrepu.congr
    intro p hp
    apply (agree_free e.1 u).2
    rw [addrs_join, List.mem_append] at hp
    rintro (_ | ⟨_, ⟨⟩⟩)
    exact hp.elim hel her

end Ptree

end CTDSensorSuite

import CTDSensorSuite.Phidget.PdictListeners
import CTDSensorSuite.Phidget.PdictServer

/-!
# The listeners of the sessions

Every persistent listener of the dictionary belongs to a session that is there, which has
noted its id (`Booked`). So a session can take all its listeners out of the dictionary,
for one of its ids (`Booked.erase`) or when it ends (`removeAllOf`, `Booked.close`), and no
listener of a session that is gone stays behind.
-/

namespace CTDSensorSuite

open SearchTree Reactive

namespace PdictServer

/-- The sessions know the ids of their listeners in the dictionary, and there are no others. -/
structure Booked (D : SessionListener → Prop) (nextId : ℕ)
    (pls : List (ℕ × PersistentListener SessionListener))
    (args : ℕ → Option (BinaryTree NotifyArg)) : Prop where
  fresh : ∀ i, nextId ≤ i → args i = none
  ordered : ∀ i t, args i = some t → Ordered NotifyArg.listenid t
  owned : ∀ p ∈ pls, ∃ t nap, args p.2.listener.1 = some t ∧ nap ∈ toList t ∧
    nap.listenid = p.2.listener.2 ∧ p.1 ∈ nap.pdIds
  listed : ∀ i t, args i = some t → ∀ nap ∈ toList t, nap.pdIds.Nodup ∧
    ∀ id ∈ nap.pdIds, ∃ p ∈ pls, p.1 = id ∧ p.2.listener = (i, nap.listenid)
  ids : ∀ p ∈ pls, D p.2.listener

variable {D : SessionListener → Prop} {i : ℕ} {d : String} {pd : Pdict SessionListener}
  {pls : List (ℕ × PersistentListener SessionListener)} {n : ℕ}
  {as : ℕ → Option (BinaryTree NotifyArg)} {t : BinaryTree NotifyArg} {nap : NotifyArg}

theorem update_eq_some {α : Type} {f : ℕ → Option α} {j : ℕ} {a b : α}
    (h : Function.update f i (some a) j = some b) : j = i ∧ b = a ∨ j ≠ i ∧ f j = some b := by
  by_cases hj : j = i
  · subst hj
    exact .inl ⟨rfl, by simpa [eq_comm] using h⟩
  · exact .inr ⟨hj, by simpa [hj] using h⟩

/-- The listeners of an id are those that its session has noted. -/
theorem Booked.mem_pdIds (h : Booked D n pls as) (ht : as i = some t) (hnap : nap ∈ toList t) :
    ∀ p ∈ pls, p.2.listener = (i, nap.listenid) → p.1 ∈ nap.pdIds := by
  intro p hp hl
  obtain ⟨t', nap', ht', hnap', hid, hmem⟩ := h.owned p hp
  rw [hl] at ht' hid
  obtain rfl : t = t' := Option.some.inj (ht.symm.trans ht')
  rwa [(h.ordered i t ht).eq_of_key_eq hnap hnap' hid.symm]

/-- The listeners of an id go, in the dictionary and in the session. -/
theorem Booked.erase (h : Booked D n pls as) (ht : as i = some t) (d : String) :
    Booked D n (pls.filter fun p => p.2.listener ≠ (i, d))
      (Function.update as i (some (erase NotifyArg.listenid d t))) := by
  refine ⟨fun j hj => ?_, fun j u hu => ?_, fun p hp => ?_, fun j u hu nap hnap => ?_,
    fun p hp => h.ids p (List.mem_filter.1 hp).1⟩
  · have hne : j ≠ i := by
      rintro rfl
      simp [h.fresh j hj] at ht
    rw [Function.update_of_ne hne, h.fresh j hj]
  · obtain ⟨rfl, rfl⟩ | ⟨-, hu⟩ := update_eq_some hu
    · exact (h.ordered j t ht).erase
    · exact h.ordered j u hu
  · obtain ⟨hp, hne⟩ := List.mem_filter.1 hp
    obtain ⟨u, nap, hu, hnap, hid, hmem⟩ := h.owned p hp
    by_cases hi : p.2.listener.1 = i
    · rw [hi] at hu ⊢
      obtain rfl : t = u := Option.some.inj (ht.symm.trans hu)
      refine ⟨_, nap, Function.update_self .., ?_, hid, hmem⟩
      rw [toList_erase (h.ordered i t ht), List.mem_filter]
      refine ⟨hnap, ?_⟩
      have hd : p.2.listener.2 ≠ d := fun hd => by simp [← hi, ← hd] at hne
      simpa [hid] using hd
    · exact ⟨u, nap, by rw [Function.update_of_ne hi, hu], hnap, hid, hmem⟩
  · have hold : ∃ u', as j = some u' ∧ nap ∈ toList u' ∧ (j, nap.listenid) ≠ (i, d) := by
      obtain ⟨rfl, rfl⟩ | ⟨hj, hu⟩ := update_eq_some hu
      · rw [toList_erase (h.ordered j t ht), List.mem_filter] at hnap
        exact ⟨t, ht, hnap.1, by simpa using hnap.2⟩
      · exact ⟨u, hu, hnap, by simp [hj]⟩
    obtain ⟨u', hu', hnap', hne⟩ := hold
    obtain ⟨hnd, hids⟩ := h.listed j u' hu' nap hnap'
    refine ⟨hnd, fun id hid => ?_⟩
    obtain ⟨p, hp, hpid, hl⟩ := hids id hid
    exact ⟨p, List.mem_filter.2 ⟨hp, by rw [hl]; exact decide_eq_true hne⟩, hpid, hl⟩

/-- Ids without listeners can come and go. -/
theorem Booked.of_mem (h : Booked D n pls as) (ht : as i = some t) {t' : BinaryTree NotifyArg}
    (hord : Ordered NotifyArg.listenid t') (hsub : ∀ nap ∈ toList t', nap ∈ toList t)
    (hkeep : ∀ nap ∈ toList t, nap.pdIds ≠ [] → nap ∈ toList t') :
    Booked D n pls (Function.update as i (some t')) := by
  refine ⟨fun j hj => ?_, fun j u hu => ?_, fun p hp => ?_, fun j u hu nap hnap => ?_, h.ids⟩
  · have hne : j ≠ i := by
      rintro rfl
      simp [h.fresh j hj] at ht
    rw [Function.update_of_ne hne, h.fresh j hj]
  · obtain ⟨rfl, rfl⟩ | ⟨-, hu⟩ := update_eq_some hu
    · exact hord
    · exact h.ordered j u hu
  · obtain ⟨u, nap, hu, hnap, hid, hmem⟩ := h.owned p hp
    by_cases hi : p.2.listener.1 = i
    · rw [hi] at hu ⊢
      obtain rfl : t = u := Option.some.inj (ht.symm.trans hu)
      exact ⟨t', nap, Function.update_self .., hkeep nap hnap (List.ne_nil_of_mem hmem), hid, hmem⟩
    · exact ⟨u, nap, by rw [Function.update_of_ne hi, hu], hnap, hid, hmem⟩
  · obtain ⟨rfl, rfl⟩ | ⟨-, hu⟩ := update_eq_some hu
    · exact h.listed j t ht nap (hsub nap hnap)
    · exact h.listed j u hu nap hnap

/-- An id as the session has it, or as `listen` makes it. -/
theorem Booked.noted (h : Booked D n pls as) (ht : as i = some t)
    (hnap : nap = (find NotifyArg.listenid d t).getD ⟨d, []⟩) :
    nap.listenid = d ∧ (∀ b ∈ toList t, b.listenid = d → b = nap) ∧
      (nap.pdIds ≠ [] → nap ∈ toList t) ∧ nap.pdIds.Nodup ∧
      ∀ id ∈ nap.pdIds, ∃ p ∈ pls, p.1 = id ∧ p.2.listener = (i, d) := by
  have hord := h.ordered i t ht
  cases hfind : find NotifyArg.listenid d t with
  | none =>
      rw [hfind] at hnap
      subst hnap
      exact ⟨rfl, fun b hb hbd => absurd hbd ((find_eq_none_iff hord).1 hfind b hb), by simp,
        by simp, by simp⟩
  | some nap' =>
      rw [hfind] at hnap
      subst hnap
      obtain ⟨hnap, rfl⟩ := (find_eq_some_iff hord).1 hfind
      exact ⟨rfl, fun b hb hbd => hord.eq_of_key_eq hb hnap hbd, fun _ => hnap,
        h.listed i t ht _ hnap⟩

/-- A new listener is noted under its id. -/
theorem Booked.listen (h : Booked D n pls as) (ht : as i = some t) {lid : ℕ}
    (hlt : ∀ p ∈ pls, p.1 < lid) (hd : D (i, d)) (regex : String → Bool)
    (hnap : nap = (find NotifyArg.listenid d t).getD ⟨d, []⟩) :
    Booked D n (pls ++ [(lid, ⟨(i, d), regex, false⟩)]) (Function.update as i (some
      (upsert NotifyArg.listenid d (fun _ => { nap with pdIds := nap.pdIds ++ [lid] }) t))) := by
  have hord := h.ordered i t ht
  have hmem := fun b => mem_upsert_iff (k := d) (b := b)
    (f := fun _ => { nap with pdIds := nap.pdIds ++ [lid] }) hord
  obtain ⟨hid, huniq, -, hnd, hids⟩ := h.noted ht hnap
  refine ⟨fun j hj => ?_, fun j u hu => ?_, fun p hp => ?_, fun j u hu b hb => ?_, fun p hp => ?_⟩
  · have hne : j ≠ i := by
      rintro rfl
      simp [h.fresh j hj] at ht
    rw [Function.update_of_ne hne, h.fresh j hj]
  · obtain ⟨rfl, rfl⟩ | ⟨-, hu⟩ := update_eq_some hu
    · exact hord.upsert hid
    · exact h.ordered j u hu
  · rcases List.mem_append.1 hp with hp | hp
    · obtain ⟨u, b, hu, hb, hbid, hpb⟩ := h.owned p hp
      by_cases hi : p.2.listener.1 = i
      · rw [hi] at hu ⊢
        obtain rfl : t = u := Option.some.inj (ht.symm.trans hu)
        by_cases hbd : b.listenid = d
        · obtain rfl := huniq b hb hbd
          exact ⟨_, _, Function.update_self .., (hmem _).2 (.inl rfl), hbid, by simp [hpb]⟩
        · exact ⟨_, b, Function.update_self .., (hmem b).2 (.inr ⟨hb, hbd⟩), hbid, hpb⟩
      · exact ⟨u, b, by rw [Function.update_of_ne hi, hu], hb, hbid, hpb⟩
    · rw [List.mem_singleton.1 hp]
      exact ⟨_, _, Function.update_self .., (hmem _).2 (.inl rfl), hid, by simp⟩
  · have hin : ∀ id d', (∃ p ∈ pls, p.1 = id ∧ p.2.listener = (j, d')) →
        ∃ p ∈ pls ++ [(lid, ⟨(i, d), regex, false⟩)], p.1 = id ∧ p.2.listener = (j, d') :=
      fun id d' ⟨p, hp, hpid⟩ => ⟨p, List.mem_append_left _ hp, hpid⟩
    obtain ⟨rfl, rfl⟩ | ⟨-, hu⟩ := update_eq_some hu
    · rcases (hmem b).1 hb with rfl | ⟨hb, hbd⟩
      · have hnew : lid ∉ nap.pdIds := fun hmem => by
          obtain ⟨p, hp, hpid, -⟩ := hids lid hmem
          exact Nat.ne_of_lt (hlt p hp) hpid
        refine ⟨List.concat_eq_append ▸ hnd.concat hnew, fun id hmem => ?_⟩
        rcases List.mem_append.1 hmem with hmem | hmem
        · exact hin id _ (hid ▸ hids id hmem)
        · rw [List.mem_singleton.1 hmem]
          exact ⟨_, List.mem_append_right _ (List.mem_singleton_self _), rfl, by rw [hid]⟩
      · obtain ⟨hnd', hids'⟩ := h.listed j t ht b hb
        exact ⟨hnd', fun id hmem => hin id _ (hids' id hmem)⟩
    · obtain ⟨hnd', hids'⟩ := h.listed j u hu b hb
      exact ⟨hnd', fun id hmem => hin id _ (hids' id hmem)⟩
  · rcases List.mem_append.1 hp with hp | hp
    · exact h.ids p hp
    · rw [List.mem_singleton.1 hp]
      exact hd

/-- A new session has no listeners. -/
theorem Booked.connect (h : Booked D n pls as) {as' : ℕ → Option (BinaryTree NotifyArg)}
    (has : ∀ j, as' j = if j = n then some .nil else as j) : Booked D (n + 1) pls as' := by
  have hold : ∀ j u, as' j = some u → u = .nil ∨ as j = some u := by
    intro j u hu
    rw [has] at hu
    split at hu
    · exact .inl (Option.some.inj hu).symm
    · exact .inr hu
  refine ⟨fun j hj => ?_, fun j u hu => ?_, fun p hp => ?_, fun j u hu => ?_, h.ids⟩
  · rw [has, if_neg (Nat.ne_of_gt hj)]
    exact h.fresh j (Nat.le_of_succ_le hj)
  · rcases hold j u hu with rfl | hu
    · exact ordered_nil
    · exact h.ordered j u hu
  · obtain ⟨u, nap, hu, hnap⟩ := h.owned p hp
    have hne : p.2.listener.1 ≠ n := fun hi => by simp [h.fresh _ hi.ge] at hu
    exact ⟨u, nap, by rw [has, if_neg hne, hu], hnap⟩
  · rcases hold j u hu with rfl | hu
    · simp
    · exact h.listed j u hu

/-- A session goes with its listeners. -/
theorem Booked.close (h : Booked D n pls as) {pls' : List (ℕ × PersistentListener SessionListener)}
    {as' : ℕ → Option (BinaryTree NotifyArg)}
    (hpls : ∀ p, p ∈ pls' ↔ p ∈ pls ∧ p.2.listener.1 ≠ i)
    (has : ∀ j, as' j = if j = i then none else as j) : Booked D n pls' as' := by
  have hold : ∀ j u, as' j = some u → j ≠ i ∧ as j = some u := by
    intro j u hu
    rw [has] at hu
    split at hu
    · simp at hu
    · exact ⟨‹_›, hu⟩
  refine ⟨fun j hj => ?_, fun j u hu => h.ordered j u (hold j u hu).2, fun p hp => ?_,
    fun j u hu nap hnap => ?_, fun p hp => h.ids p ((hpls p).1 hp).1⟩
  · rw [has, h.fresh j hj, ite_self]
  · obtain ⟨hp, hi⟩ := (hpls p).1 hp
    obtain ⟨u, nap, hu, hnap⟩ := h.owned p hp
    exact ⟨u, nap, by rw [has, if_neg hi, hu], hnap⟩
  · obtain ⟨hj, hu⟩ := hold j u hu
    obtain ⟨hnd, hids⟩ := h.listed j u hu nap hnap
    refine ⟨hnd, fun id hid => ?_⟩
    obtain ⟨p, hp, hpid, hl⟩ := hids id hid
    exact ⟨p, (hpls p).2 ⟨hp, by rw [hl]; exact hj⟩, hpid, hl⟩

/-- The removal of all listeners of a session, id by id. -/
theorem removeAllOf (hwired : pd.Wired) {naps : List NotifyArg}
    (hnd : (naps.map NotifyArg.listenid).Nodup)
    (hnaps : ∀ nap ∈ naps, nap.pdIds.Nodup ∧
      (∀ p ∈ pd.persistentListeners, p.2.listener = (i, nap.listenid) → p.1 ∈ nap.pdIds) ∧
      ∀ id ∈ nap.pdIds, ∃ p ∈ pd.persistentListeners, p.1 = id ∧
        p.2.listener = (i, nap.listenid)) :
    (pd.removePersistentChangeListeners (naps.flatMap NotifyArg.pdIds)).Wired ∧
      (pd.removePersistentChangeListeners (naps.flatMap NotifyArg.pdIds)).persistentListeners =
        pd.persistentListeners.filter
          (fun p => p.2.listener ∉ naps.map fun nap => (i, nap.listenid)) ∧
      ∀ k, (pd.removePersistentChangeListeners (naps.flatMap NotifyArg.pdIds)).lookup k =
        pd.lookup k := by
  induction naps generalizing pd with
  | nil => exact ⟨hwired, by simp [Pdict.removePersistentChangeListeners], fun k => rfl⟩
  | cons nap naps ih =>
      rw [List.map_cons, List.nodup_cons] at hnd
      obtain ⟨hids, hof, hex⟩ := hnaps nap (by simp)
      obtain ⟨hwired', hpls, -, hlookup⟩ := hwired.removePersistentChangeListeners hids hof hex
      have hsplit : pd.removePersistentChangeListeners ((nap :: naps).flatMap NotifyArg.pdIds) =
          (pd.removePersistentChangeListeners nap.pdIds).removePersistentChangeListeners
            (naps.flatMap NotifyArg.pdIds) := by
        simp only [Pdict.removePersistentChangeListeners, List.flatMap_cons, List.foldl_append]
      have hrest : ∀ nap' ∈ naps, nap'.pdIds.Nodup ∧
          (∀ p ∈ (pd.removePersistentChangeListeners nap.pdIds).persistentListeners,
            p.2.listener = (i, nap'.listenid) → p.1 ∈ nap'.pdIds) ∧
          ∀ id ∈ nap'.pdIds,
            ∃ p ∈ (pd.removePersistentChangeListeners nap.pdIds).persistentListeners,
              p.1 = id ∧ p.2.listener = (i, nap'.listenid) := by
        intro nap' hnap'
        obtain ⟨hids', hof', hex'⟩ := hnaps nap' (by simp [hnap'])
        have hne : nap'.listenid ≠ nap.listenid := fun hid =>
          hnd.1 (List.mem_map.2 ⟨nap', hnap', hid⟩)
        rw [hpls]
        refine ⟨hids', fun p hp => hof' p (List.mem_filter.1 hp).1, fun id hid => ?_⟩
        obtain ⟨p, hp, hpid, hl⟩ := hex' id hid
        exact ⟨p, List.mem_filter.2 ⟨hp, by simp [hl, hne]⟩, hpid, hl⟩
      obtain ⟨hwired'', hpls'', hlookup''⟩ := ih hwired' hnd.2 hrest
      rw [hsplit]
      refine ⟨hwired'', ?_, fun k => (hlookup'' k).trans (hlookup k)⟩
      rw [hpls'', hpls, List.filter_filter]
      exact List.filter_congr fun p _ => by simp [Bool.and_comm]

end PdictServer

end CTDSensorSuite

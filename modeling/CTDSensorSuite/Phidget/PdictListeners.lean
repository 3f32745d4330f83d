import CTDSensorSuite.Phidget.Pdict
import Mathlib.Data.List.Perm.Subperm

/-!
# What the dictionary tells its listeners

Between calls an entry of the dictionary has the listeners whose patterns match its key
(`Pdict.Wired`). A listener hears of the part of the dictionary that its patterns select
(`Pdict.heard`): the notices of a call, read one after the other, turn what it has heard
before the call into what it is to hear after the call (`Pdict.Announced`).

The removal of one persistent listener takes a listener of that function and argument
from every entry, of whatever pattern. Only when all persistent listeners of the function
and argument have gone, as after `ignore`, are the entries wired again
(`Wired.removePersistentChangeListeners`).
-/

namespace CTDSensorSuite

open SearchTree Reactive

variable {L : Type}

/-- The value that a notice leaves under its key, `none` when the entry goes. -/
def Notice.told (m : Notice L) : Option String :=
  if m.reason = .entryRemoving then none else some m.val

namespace Pdict

/-- The listeners whose patterns match the key `k`. -/
def listenersAt (pd : Pdict L) (k : String) : List L :=
  (pd.persistentListeners.filter fun p => p.2.regex k).map fun p => p.2.listener

/-- The state between calls. -/
structure Wired (pd : Pdict L) : Prop where
  ordered : Ordered PdictEnt.key pd.ents
  listeners : ∀ n ∈ toList pd.ents, n.listeners = pd.listenersAt n.key
  settled : ∀ p ∈ pd.persistentListeners, p.2.new = false
  nodup_ids : (pd.persistentListeners.map Prod.fst).Nodup
  ids_lt : ∀ p ∈ pd.persistentListeners, p.1 < pd.lid

variable {pd : Pdict L} {k v : String} {l : L} {n : PdictEnt L}

theorem wired_alloc : (alloc : Pdict L).Wired :=
  ⟨ordered_nil, by simp [alloc], by simp [alloc], by simp [alloc], by simp [alloc]⟩

theorem Wired.of_entLookup (h : pd.Wired) (hn : pd.entLookup k = some n) :
    n.key = k ∧ n.listeners = pd.listenersAt k := by
  obtain ⟨hmem, hk⟩ := (find_eq_some_iff h.ordered).1 hn
  exact ⟨hk, hk ▸ h.listeners n hmem⟩

/-! ### `pdict_add` -/

/-- Settled listeners are added without a notice. -/
theorem addPersistentChangeListeners_eq {pls : List (ℕ × PersistentListener L)}
    (h : ∀ p ∈ pls, p.2.new = false) (k v : String) (ls : List L) :
    PdictEnt.addPersistentChangeListeners ⟨k, v, ls⟩ pls =
      (⟨k, v, ls ++ (pls.filter fun p => p.2.regex k).map fun p => p.2.listener⟩, []) := by
  induction pls generalizing ls with
  | nil => simp [PdictEnt.addPersistentChangeListeners]
  | cons p pls ih =>
      have hp : p.2.new = false := h p (by simp)
      have hpls : ∀ q ∈ pls, q.2.new = false := fun q hq => h q (by simp [hq])
      simp only [PdictEnt.addPersistentChangeListeners, PdictEnt.addPersistentChangeListener,
        PdictEnt.addChangeListener, hp]
      cases hr : p.2.regex k with
      | true => simp [ih hpls, hr]
      | false => simp [ih hpls, hr]

/-- The entry and the notices of `pdict_add`, whether or not the key is there. -/
theorem Wired.add_eq (h : pd.Wired) (k v : String) :
    ∃ r ov, r ≠ .entryRemoving ∧ pd.add k v =
      ({ pd with ents := upsert PdictEnt.key k (fun _ => ⟨k, v, pd.listenersAt k⟩) pd.ents },
        (pd.listenersAt k).map fun l => ⟨l, k, v, r, some ov⟩, pd.lookup k) := by
  cases hn : pd.entLookup k with
  | none =>
      refine ⟨.entryAdded, v, by decide, ?_⟩
      simp [add, hn, addPersistentChangeListeners_eq h.settled, listenersAt, lookup,
        PdictEnt.notify]
  | some n =>
      obtain ⟨hk, hl⟩ := h.of_entLookup hn
      refine ⟨.valueChanged, n.val, by decide, ?_⟩
      simp [add, hn, hk, hl, lookup, PdictEnt.notify]

theorem Wired.add (h : pd.Wired) (k v : String) : (pd.add k v).1.Wired := by
  obtain ⟨r, ov, -, hadd⟩ := h.add_eq k v
  rw [hadd]
  refine ⟨h.ordered.upsert rfl, fun n hn => ?_, h.settled, h.nodup_ids, h.ids_lt⟩
  rcases (mem_upsert_iff h.ordered).1 hn with rfl | ⟨hn, -⟩
  · rfl
  · exact h.listeners n hn

theorem Wired.lookup_add (h : pd.Wired) (k v k' : String) :
    (pd.add k v).1.lookup k' = if k' = k then some v else pd.lookup k' := by
  obtain ⟨r, ov, -, hadd⟩ := h.add_eq k v
  rw [hadd, lookup, entLookup, find_upsert h.ordered rfl]
  split
  · rfl
  · rfl

theorem Wired.persistentListeners_add (h : pd.Wired) (k v : String) :
    (pd.add k v).1.persistentListeners = pd.persistentListeners := by
  obtain ⟨r, ov, -, hadd⟩ := h.add_eq k v
  rw [hadd]

theorem listenersAt_congr {pd' : Pdict L}
    (h : pd'.persistentListeners = pd.persistentListeners) (k : String) :
    pd'.listenersAt k = pd.listenersAt k := by
  rw [listenersAt, h, listenersAt]

/-! ### `pdict_ent_remove` -/

theorem Wired.entRemove_eq (h : pd.Wired) (k : String) :
    pd.entRemove k = (pd.lookup k).map fun v =>
      ({ pd with ents := erase PdictEnt.key k pd.ents },
        (pd.listenersAt k).map fun l => ⟨l, k, v, .entryRemoving, some v⟩, v) := by
  rw [entRemove, lookup]
  cases hn : pd.entLookup k with
  | none => rfl
  | some n =>
      obtain ⟨hk, hl⟩ := h.of_entLookup hn
      simp [PdictEnt.notify, hk, hl]

/-- What `pdict_ent_remove` does to a key that is there. -/
theorem Wired.entRemove (h : pd.Wired) {r : Pdict L × List (Notice L) × String}
    (hr : pd.entRemove k = some r) :
    r.1.Wired ∧ r.1.persistentListeners = pd.persistentListeners ∧
      (∀ k', r.1.lookup k' = if k' = k then none else pd.lookup k') := by
  rw [h.entRemove_eq] at hr
  obtain ⟨v, hv, rfl⟩ := Option.map_eq_some_iff.1 hr
  refine ⟨⟨h.ordered.erase, fun n hn => ?_, h.settled, h.nodup_ids, h.ids_lt⟩, rfl, fun k' => ?_⟩
  · rw [toList_erase h.ordered] at hn
    exact h.listeners n (List.mem_filter.1 hn).1
  · rw [lookup, entLookup, find_erase h.ordered]
    split
    · rfl
    · rfl

/-! ### `pdict_add_persistent_change_listener` -/

@[simp] theorem addPersistentChangeListener_fst (n : PdictEnt L) (pl : PersistentListener L) :
    (n.addPersistentChangeListener pl).1 =
      ⟨n.key, n.val, n.listeners ++ if pl.regex n.key then [pl.listener] else []⟩ := by
  rw [PdictEnt.addPersistentChangeListener]
  split
  · rfl
  · simp

/-- A change of the listeners of the entries leaves the values as they are. -/
theorem lookup_map {w : PdictEnt L → PdictEnt L} (hkey : ∀ n, (w n).key = n.key)
    (hval : ∀ n, (w n).val = n.val) (k : String) :
    (find PdictEnt.key k (pd.ents.map w)).map PdictEnt.val = pd.lookup k := by
  have hcomp : (fun n => PdictEnt.key (w n)) = PdictEnt.key := funext hkey
  rw [find_map, hcomp, Option.map_map, lookup, entLookup]
  exact congrArg (Option.map · _) (funext hval)

theorem Wired.ordered_map (h : pd.Wired) {w : PdictEnt L → PdictEnt L}
    (hkey : ∀ n, (w n).key = n.key) : Ordered PdictEnt.key (pd.ents.map w) := by
  have hcomp : (fun n => PdictEnt.key (w n)) = PdictEnt.key := funext hkey
  rw [ordered_map_iff, hcomp]
  exact h.ordered

theorem listenersAt_concat {pd' : Pdict L} {i : ℕ} {regex : String → Bool}
    (h : pd'.persistentListeners = pd.persistentListeners ++ [(i, ⟨l, regex, false⟩)])
    (k : String) : pd'.listenersAt k = pd.listenersAt k ++ if regex k then [l] else [] := by
  rw [listenersAt, h, List.filter_append, List.map_append, ← listenersAt]
  cases hr : regex k <;> simp [hr]

/-- What `pdict_add_persistent_change_listener` does with a pattern that compiles. -/
theorem Wired.addPersistentChangeListener (h : pd.Wired)
    {regcomp : String → Option (String → Bool)} {kpat : String}
    {r : Pdict L × List (Notice L) × ℕ}
    (hr : pd.addPersistentChangeListener regcomp kpat l = some r) :
    r.1.Wired ∧ r.2.2 = pd.lid ∧ r.1.lid = pd.lid + 1 ∧
      (∃ regex, r.1.persistentListeners =
        pd.persistentListeners ++ [(pd.lid, ⟨l, regex, false⟩)]) ∧
      ∀ k, r.1.lookup k = pd.lookup k := by
  obtain ⟨regex, -, rfl⟩ := Option.map_eq_some_iff.1 hr
  have hkey : ∀ n : PdictEnt L, (n.addPersistentChangeListener ⟨l, regex, true⟩).1.key = n.key :=
    fun n => by simp
  have hval : ∀ n : PdictEnt L, (n.addPersistentChangeListener ⟨l, regex, true⟩).1.val = n.val :=
    fun n => by simp
  refine ⟨⟨h.ordered_map hkey, fun n hn => ?_, fun p hp => ?_, ?_, fun p hp => ?_⟩, rfl, rfl,
    ⟨regex, rfl⟩, lookup_map hkey hval⟩
  · simp only [walkInt, toList_map, List.mem_map] at hn
    obtain ⟨m, hm, rfl⟩ := hn
    rw [addPersistentChangeListener_fst, h.listeners m hm]
    exact (listenersAt_concat rfl m.key).symm
  · rcases List.mem_append.1 hp with hp | hp
    · exact h.settled p hp
    · rw [List.mem_singleton.1 hp]
  · have hnew : pd.lid ∉ pd.persistentListeners.map Prod.fst := fun hmem => by
      obtain ⟨p, hp, hid⟩ := List.mem_map.1 hmem
      exact Nat.ne_of_lt (h.ids_lt p hp) hid
    rw [List.map_append, List.map_singleton, ← List.concat_eq_append]
    exact h.nodup_ids.concat hnew
  · rcases List.mem_append.1 hp with hp | hp
    · exact Nat.lt_succ_of_lt (h.ids_lt p hp)
    · rw [List.mem_singleton.1 hp]
      exact Nat.lt_succ_self _

/-! ### Hearing of the dictionary -/

variable [DecidableEq L]

/-- What the listener `l` is to know about the key `k`. -/
def heard (pd : Pdict L) (l : L) (k : String) : Option String :=
  if l ∈ pd.listenersAt k then pd.lookup k else none

end Pdict

/-- What the listener `l` learns from a notice about the key `k`. -/
def Notice.news [DecidableEq L] (l : L) (k : String) (m : Notice L) : Option (Option String) :=
  if m.listener = l ∧ m.key = k then some m.told else none

namespace Pdict

variable {pd : Pdict L} {k v : String} {l : L} {n : PdictEnt L} [DecidableEq L]

/-- A change of the dictionary between two calls, with the notices that the call gives. They
lead every listener from what there was to hear before to what there is to hear after. -/
structure Announced (pd pd' : Pdict L) (notices : List (Notice L)) : Prop where
  wired : pd'.Wired
  tells : ∀ l k, pd'.heard l k = (latest (Notice.news l k) notices).getD (pd.heard l k)
  concerns : ∀ m ∈ notices, ∃ p ∈ pd'.persistentListeners, p.2.listener = m.listener

/-- The notices about one key say the same to everyone they are for. -/
theorem latest_news_map (ls : List L) (r : PdictReason) (ov : Option String) (k' : String) :
    latest (Notice.news l k') (ls.map fun l => ⟨l, k, v, r, ov⟩) =
      if l ∈ ls ∧ k = k' then some (if r = .entryRemoving then none else some v) else none := by
  induction ls with
  | nil => simp
  | cons l' ls ih =>
      rw [List.map_cons, latest_cons, ih, Notice.news, Notice.told]
      by_cases hk : k = k'
      · by_cases hl : l ∈ ls
        · simp [hl, hk]
        · by_cases hl' : l' = l
          · subst hl'
            simp [hk, hl]
          · simp [hl, hl', Ne.symm hl']
      · simp [hk]

omit [DecidableEq L] in
theorem exists_of_mem_listenersAt (h : l ∈ pd.listenersAt k) :
    ∃ p ∈ pd.persistentListeners, p.2.listener = l := by
  obtain ⟨p, hp, rfl⟩ := List.mem_map.1 h
  exact ⟨p, (List.mem_filter.1 hp).1, rfl⟩

/-- A change under the key `k` of which the listeners of `k` get a notice. -/
theorem announced_of_lookup {pd' : Pdict L} (r : PdictReason) (ov : Option String)
    (h : pd'.Wired) (hpl : pd'.persistentListeners = pd.persistentListeners)
    (hlookup : ∀ k', pd'.lookup k' =
      if k' = k then if r = .entryRemoving then none else some v else pd.lookup k') :
    pd.Announced pd' ((pd.listenersAt k).map fun l => ⟨l, k, v, r, ov⟩) := by
  refine ⟨h, fun l k' => ?_, fun m hm => ?_⟩
  · rw [heard, hlookup, listenersAt_congr hpl, latest_news_map, heard]
    by_cases hk : k = k'
    · subst hk
      by_cases hl : l ∈ pd.listenersAt k
      · simp [hl]
      · simp [hl]
    · simp [hk, Ne.symm hk]
  · obtain ⟨l, hl, rfl⟩ := List.mem_map.1 hm
    rw [hpl]
    exact exists_of_mem_listenersAt hl

theorem Wired.announced_add (h : pd.Wired) (k v : String) :
    pd.Announced (pd.add k v).1 (pd.add k v).2.1 := by
  have hwired := h.add k v
  have hlookup := h.lookup_add k v
  have hpl := h.persistentListeners_add k v
  obtain ⟨r, ov, hr, hadd⟩ := h.add_eq k v
  rw [hadd] at hwired hlookup hpl ⊢
  exact announced_of_lookup r _ hwired hpl (by simpa [hr] using hlookup)

theorem Wired.announced_entRemove (h : pd.Wired) {r : Pdict L × List (Notice L) × String}
    (hr : pd.entRemove k = some r) : pd.Announced r.1 r.2.1 := by
  obtain ⟨hwired, hpl, hlookup⟩ := h.entRemove hr
  rw [h.entRemove_eq] at hr
  obtain ⟨v, -, rfl⟩ := Option.map_eq_some_iff.1 hr
  exact announced_of_lookup _ _ hwired hpl (by simpa using hlookup)

/-- What a new listener is told about the key `k` by the entries that its pattern matches. -/
theorem latest_news_flatMap (h : Ordered PdictEnt.key pd.ents) (l : L) (regex : String → Bool)
    (l' : L) (k : String) :
    latest (Notice.news l' k) ((toList pd.ents).flatMap fun n =>
        (n.addPersistentChangeListener ⟨l, regex, true⟩).2) =
      if l = l' ∧ regex k then (pd.lookup k).map some else none := by
  have hone : ∀ n : PdictEnt L, latest (Notice.news l' k)
      (n.addPersistentChangeListener ⟨l, regex, true⟩).2 =
        if n.key = k ∧ l = l' ∧ regex k then some (some n.val) else none := by
    intro n
    rw [PdictEnt.addPersistentChangeListener]
    by_cases hk : n.key = k
    · subst hk
      cases hr : regex n.key with
      | true => simp [hr, latest_singleton, Notice.news, Notice.told]
      | false => simp [hr]
    · cases hr : regex n.key with
      | true => simp [hr, latest_singleton, Notice.news, hk]
      | false => simp [hr, hk]
  rw [latest_flatMap, latest_congr fun n _ => hone n]
  by_cases hsel : l = l' ∧ regex k
  · simp only [hsel, and_true, if_true]
    cases hfind : pd.entLookup k with
    | none =>
        rw [lookup, hfind]
        exact latest_eq_none_iff.2 fun n hn => if_neg ((find_eq_none_iff h).1 hfind n hn)
    | some m =>
        obtain ⟨hm, rfl⟩ := (find_eq_some_iff h).1 hfind
        rw [lookup, hfind]
        refine latest_eq_some_of_forall (fun n hn c hc => ?_) ⟨m, hm, if_pos rfl⟩
        by_cases hkey : n.key = m.key
        · rw [if_pos hkey] at hc
          rw [← h.eq_of_key_eq hn hm hkey]
          exact (Option.some.inj hc).symm
        · simp [hkey] at hc
  · rw [if_neg hsel]
    exact latest_eq_none_iff.2 fun n _ => if_neg fun hn => hsel hn.2

/-- A new listener is told the entries that its pattern matches. -/
theorem Wired.announced_addPersistentChangeListener (h : pd.Wired)
    {regcomp : String → Option (String → Bool)} {kpat : String}
    {r : Pdict L × List (Notice L) × ℕ}
    (hr : pd.addPersistentChangeListener regcomp kpat l = some r) : pd.Announced r.1 r.2.1 := by
  obtain ⟨hwired, -, -, -, hlookup⟩ := h.addPersistentChangeListener hr
  obtain ⟨regex, -, rfl⟩ := Option.map_eq_some_iff.1 hr
  refine ⟨hwired, fun l' k => ?_, fun m hm =>
    ⟨_, List.mem_append_right _ (List.mem_singleton_self _), ?_⟩⟩
  · rw [heard, hlookup, listenersAt_concat rfl, walkInt, latest_news_flatMap h.ordered, heard]
    by_cases hsel : l = l' ∧ regex k
    · obtain ⟨rfl, hr⟩ := hsel
      cases hv : pd.lookup k <;> simp [hr]
    · rw [if_neg hsel]
      cases hr : regex k with
      | true =>
          have hl : l ≠ l' := fun hl => hsel ⟨hl, hr⟩
          simp [Ne.symm hl]
      | false => simp
  · obtain ⟨n, -, hm⟩ := List.mem_flatMap.1 hm
    simp only [PdictEnt.addPersistentChangeListener] at hm
    split at hm
    · rw [List.mem_singleton.1 hm]
    · simp at hm

/-! ### Removing all listeners of one kind -/

theorem filter_ne_erase (ls : List L) (l : L) :
    (ls.erase l).filter (· ≠ l) = ls.filter (· ≠ l) := by
  induction ls with
  | nil => rfl
  | cons a ls ih =>
      by_cases ha : a = l
      · simp [ha]
      · rw [List.erase_cons_tail (by simpa using ha), List.filter_cons, List.filter_cons, ih]

/-- Erasing an element often enough leaves the others. -/
theorem diff_replicate (ls : List L) (l : L) {m : ℕ} (h : ls.count l ≤ m) :
    ls.diff (List.replicate m l) = ls.filter (· ≠ l) := by
  induction m generalizing ls with
  | zero =>
      have hmem : l ∉ ls := List.count_eq_zero.1 (Nat.le_zero.1 h)
      refine (List.filter_eq_self.2 fun a ha => ?_).symm
      simpa using fun hal : a = l => hmem (hal ▸ ha)
  | succ m ih =>
      have hcount : (ls.erase l).count l ≤ m := by
        rw [List.count_erase_self]
        omega
      rw [List.replicate_succ, List.diff_cons, ih _ hcount, filter_ne_erase]

omit [DecidableEq L] in
/-- An id stands for one listener. -/
theorem find?_id {pls : List (ℕ × PersistentListener L)} (h : (pls.map Prod.fst).Nodup)
    {p : ℕ × PersistentListener L} (hp : p ∈ pls) :
    pls.find? (·.1 = p.1) = some p ∧ pls.eraseP (·.1 = p.1) = pls.filter (·.1 ≠ p.1) := by
  induction pls with
  | nil => simp at hp
  | cons q pls ih =>
      rw [List.map_cons, List.nodup_cons] at h
      rcases List.mem_cons.1 hp with rfl | hp
      · have hrest : pls.filter (·.1 ≠ p.1) = pls := List.filter_eq_self.2 fun q hq => by
          simpa using fun hqp => h.1 (List.mem_map.2 ⟨q, hq, hqp⟩)
        refine ⟨by simp, ?_⟩
        rw [List.eraseP_cons_of_pos (by simp), List.filter_cons_of_neg (by simp), hrest]
      · have hq : q.1 ≠ p.1 := fun hqp => h.1 (List.mem_map.2 ⟨p, hp, hqp.symm⟩)
        obtain ⟨hfind, herase⟩ := ih h.2 hp
        refine ⟨by simp [hq, hfind], ?_⟩
        rw [List.eraseP_cons_of_neg (by simpa using hq),
          List.filter_cons_of_pos (by simpa using hq), herase]

/-- The removal of listeners of one kind, id by id. -/
theorem removePersistentChangeListeners_eq {ids : List ℕ}
    (hnd : (pd.persistentListeners.map Prod.fst).Nodup) (hids : ids.Nodup)
    (h : ∀ i ∈ ids, ∃ p ∈ pd.persistentListeners, p.1 = i ∧ p.2.listener = l) :
    pd.removePersistentChangeListeners ids =
      { pd with
        persistentListeners := pd.persistentListeners.filter fun p => p.1 ∉ ids
        ents := pd.ents.map fun n =>
          { n with listeners := n.listeners.diff (List.replicate ids.length l) } } := by
  induction ids generalizing pd with
  | nil =>
      have hid : (fun n : PdictEnt L => { n with listeners := n.listeners }) = id := rfl
      simp [removePersistentChangeListeners, hid, BinaryTree.id_map]
  | cons i ids ih =>
      rw [List.nodup_cons] at hids
      obtain ⟨p, hp, rfl, hl⟩ := h i (by simp)
      obtain ⟨hfind, herase⟩ := find?_id hnd hp
      have hstep : pd.removePersistentChangeListener p.1 = some { pd with
          persistentListeners := pd.persistentListeners.filter (·.1 ≠ p.1)
          ents := pd.ents.map fun n => n.removeChangeListener l } := by
        simp only [removePersistentChangeListener, hfind, herase, Option.map_some, walkInt, hl]
      rw [removePersistentChangeListeners, List.foldl_cons, hstep, Option.getD_some]
      refine (ih ?_ hids.2 fun j hj => ?_).trans ?_
      · exact hnd.sublist (List.filter_sublist.map Prod.fst)
      · obtain ⟨q, hq, rfl, hql⟩ := h j (by simp [hj])
        have hne : q.1 ≠ p.1 := fun hqp => hids.1 (hqp ▸ hj)
        exact ⟨q, List.mem_filter.2 ⟨hq, by simpa using hne⟩, rfl, hql⟩
      · have hfilter : ∀ q : ℕ × PersistentListener L,
            (decide (q.1 ∉ ids) && decide (q.1 ≠ p.1)) = decide (q.1 ∉ p.1 :: ids) := by
          intro q
          simp [Bool.and_comm]
        have hents : ∀ n : PdictEnt L,
            (n.removeChangeListener l).listeners.diff (List.replicate ids.length l) =
              n.listeners.diff (List.replicate (p.1 :: ids).length l) := by
          intro n
          rw [List.length_cons, List.replicate_succ, List.diff_cons, PdictEnt.removeChangeListener]
        simp only [List.filter_filter, ← BinaryTree.comp_map, Function.comp_def, hfilter, hents]
        rfl

/-- The removal of all listeners of one kind leaves the dictionary wired for the others. -/
theorem Wired.removePersistentChangeListeners (h : pd.Wired) {ids : List ℕ} (hids : ids.Nodup)
    (hof : ∀ p ∈ pd.persistentListeners, p.2.listener = l → p.1 ∈ ids)
    (hex : ∀ i ∈ ids, ∃ p ∈ pd.persistentListeners, p.1 = i ∧ p.2.listener = l) :
    (pd.removePersistentChangeListeners ids).Wired ∧
      (pd.removePersistentChangeListeners ids).persistentListeners =
        pd.persistentListeners.filter (fun p => p.2.listener ≠ l) ∧
      (pd.removePersistentChangeListeners ids).lid = pd.lid ∧
      ∀ k, (pd.removePersistentChangeListeners ids).lookup k = pd.lookup k := by
  have hmem : ∀ p ∈ pd.persistentListeners, p.1 ∈ ids ↔ p.2.listener = l := by
    intro p hp
    refine ⟨fun hi => ?_, hof p hp⟩
    obtain ⟨q, hq, hqp, hl⟩ := hex p.1 hi
    rwa [← List.inj_on_of_nodup_map h.nodup_ids hq hp hqp]
  have hpls : pd.persistentListeners.filter (fun p => p.1 ∉ ids) =
      pd.persistentListeners.filter fun p => p.2.listener ≠ l :=
    List.filter_congr fun p hp => by simp [hmem p hp]
  -- at most as many listeners of the kind in an entry as ids of it
  have hcount : ∀ n ∈ toList pd.ents, n.listeners.count l ≤ ids.length := by
    intro n hn
    have hsub : ((pd.persistentListeners.filter fun p => p.2.listener = l).map Prod.fst) ⊆ ids := by
      intro i hi
      obtain ⟨p, hp, rfl⟩ := List.mem_map.1 hi
      obtain ⟨hp, hpl⟩ := List.mem_filter.1 hp
      exact hof p hp (by simpa using hpl)
    have hle := (List.subperm_of_subset
      (h.nodup_ids.sublist (List.filter_sublist.map Prod.fst)) hsub).length_le
    rw [List.length_map] at hle
    refine Nat.le_trans ?_ hle
    rw [h.listeners n hn, listenersAt, List.count_eq_length_filter, List.filter_map,
      List.length_map, List.filter_filter]
    refine (List.monotone_filter_right _ fun p hp => ?_).length_le
    simpa using (Bool.and_eq_true_iff.1 hp).1
  rw [removePersistentChangeListeners_eq h.nodup_ids hids hex, hpls]
  refine ⟨⟨h.ordered_map fun _ => rfl, fun n hn => ?_, fun p hp => ?_, ?_, fun p hp => ?_⟩, rfl,
    rfl, lookup_map (fun _ => rfl) fun _ => rfl⟩
  · rw [toList_map] at hn
    obtain ⟨m, hm, rfl⟩ := List.mem_map.1 hn
    rw [diff_replicate _ _ (hcount m hm), h.listeners m hm]
    simp only [listenersAt, List.filter_map, List.filter_filter]
    refine congrArg (List.map _) (List.filter_congr fun p _ => ?_)
    exact Bool.and_comm ..
  · exact h.settled p (List.mem_filter.1 hp).1
  · exact h.nodup_ids.sublist (List.filter_sublist.map Prod.fst)
  · exact h.ids_lt p (List.mem_filter.1 hp).1

/-- The listeners that stay hear what they have heard before, the others nothing. -/
theorem heard_of_filter {pd' : Pdict L} {q : L → Bool}
    (hpl : pd'.persistentListeners = pd.persistentListeners.filter fun p => q p.2.listener)
    (hlookup : ∀ k, pd'.lookup k = pd.lookup k) (l : L) (k : String) :
    pd'.heard l k = if q l then pd.heard l k else none := by
  have hat : pd'.listenersAt k = (pd.listenersAt k).filter q := by
    rw [listenersAt, hpl, List.filter_filter, listenersAt, List.filter_map, List.filter_filter]
    exact congrArg (List.map _) (List.filter_congr fun p _ => Bool.and_comm ..)
  rw [heard, hat, hlookup, heard]
  cases hq : q l <;> simp [hq]

end Pdict

end CTDSensorSuite

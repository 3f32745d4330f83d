import CTDSensorSuite.Containers.SearchTree
import CTDSensorSuite.Reactive.Latest
import Mathlib.Data.String.Basic

/-!
# The dictionary of the web service

The web service keeps its devices in a dictionary of strings (`dict/pdict.c`): a tree of
entries ordered by key, and a list of persistent listeners, each with a pattern. An
entry carries the listeners whose patterns its key matches. A call returns the notices
it gives, in order; the tree is the `SearchTree` that `utils/ptree.c` keeps in memory.

Between calls the listeners of an entry are those of the persistent listeners that match
its key, in their order (`Pdict.Wired`). What the notices of a call tell a listener is
the change of the part of the dictionary it listens to (`Pdict.Announced`).
-/

namespace CTDSensorSuite

open SearchTree Reactive

/-- `pdict_reason_t`. -/
inductive PdictReason where
  | valueChanged
  | entryAdded
  | entryRemoving
  | currentValue
  deriving DecidableEq

/-- `pdict_reason_str`. -/
def PdictReason.str : PdictReason → String
  | .valueChanged => "changed"
  | .entryAdded => "added"
  | .entryRemoving => "removing"
  | .currentValue => "current"

/-- A call of a listener's `pdl_notify`. The listener is the function with its argument, by
which `pdict.c` compares listeners. -/
structure Notice (L : Type) where
  listener : L
  key : String
  val : String
  reason : PdictReason
  oldval : Option String

/-- `struct pdict_ent`. -/
structure PdictEnt (L : Type) where
  key : String
  val : String
  listeners : List L

/-- `pdict_persistent_listener_t`, with the pattern as compiled by `regcomp`. -/
structure PersistentListener (L : Type) where
  listener : L
  regex : String → Bool
  new : Bool

/-- `struct pdict`. The persistent listeners are a `plist` keyed by their ids; `lid` is the
counter of `pdict_add_persistent_change_listener`. -/
structure Pdict (L : Type) where
  ents : BinaryTree (PdictEnt L)
  persistentListeners : List (ℕ × PersistentListener L)
  lid : ℕ

variable {L : Type}

namespace PdictEnt

/-- `_pdict_ent_notify`. -/
def notify (n : PdictEnt L) (r : PdictReason) (ov : Option String) : List (Notice L) :=
  n.listeners.map fun l => ⟨l, n.key, n.val, r, ov⟩

/-- `_pdict_ent_add_change_listener`. -/
def addChangeListener (n : PdictEnt L) (l : L) : PdictEnt L :=
  { n with listeners := n.listeners ++ [l] }

/-- `_pdict_ent_remove_change_listener`: the first one that compares equal goes. -/
def removeChangeListener [DecidableEq L] (n : PdictEnt L) (l : L) : PdictEnt L :=
  { n with listeners := n.listeners.erase l }

/-- `_pdict_ent_add_persistent_change_listener`. A new listener gets the current value. -/
def addPersistentChangeListener (n : PdictEnt L) (pl : PersistentListener L) :
    PdictEnt L × List (Notice L) :=
  if pl.regex n.key then
    (n.addChangeListener pl.listener,
      if pl.new then [⟨pl.listener, n.key, n.val, .currentValue, none⟩] else [])
  else (n, [])

/-- `_pdict_ent_add_persistent_change_listeners`. -/
def addPersistentChangeListeners (n : PdictEnt L) :
    List (ℕ × PersistentListener L) → PdictEnt L × List (Notice L)
  | [] => (n, [])
  | pl :: pls =>
      let (n, notices) := n.addPersistentChangeListener pl.2
      let (n, notices') := n.addPersistentChangeListeners pls
      (n, notices ++ notices')

end PdictEnt

namespace Pdict

/-- `pdict_alloc`, with the first id of a listener. -/
def alloc : Pdict L := ⟨.nil, [], 1⟩

/-- `_pdict_ent_lookup`. -/
def entLookup (pd : Pdict L) (k : String) : Option (PdictEnt L) := find PdictEnt.key k pd.ents

/-- The value that `pdict_ent_lookup` finds. -/
def lookup (pd : Pdict L) (k : String) : Option String := (pd.entLookup k).map PdictEnt.val

/-- `pdict_add`. The last component is `*ovp`. -/
def add (pd : Pdict L) (k v : String) : Pdict L × List (Notice L) × Option String :=
  match pd.entLookup k with
  | some n =>
      let n' := { n with val := v }
      ({ pd with ents := upsert PdictEnt.key k (fun _ => n') pd.ents },
        n'.notify .valueChanged (some n.val), some n.val)
  | none =>
      let (n, notices) := PdictEnt.addPersistentChangeListeners ⟨k, v, []⟩ pd.persistentListeners
      ({ pd with ents := upsert PdictEnt.key k (fun _ => n) pd.ents },
        notices ++ n.notify .entryAdded (some v), none)

/-- `pdict_ent_remove`. The last component is `*ovp`; `none` is a key that is not there. -/
def entRemove (pd : Pdict L) (k : String) : Option (Pdict L × List (Notice L) × String) :=
  (pd.entLookup k).map fun n =>
    ({ pd with ents := erase PdictEnt.key k pd.ents }, n.notify .entryRemoving (some n.val), n.val)

/-- `_pdict_walk_int` with a function that changes the entries. -/
def walkInt (w : PdictEnt L → PdictEnt L × List (Notice L)) (ents : BinaryTree (PdictEnt L)) :
    BinaryTree (PdictEnt L) × List (Notice L) :=
  (ents.map fun n => (w n).1, (toList ents).flatMap fun n => (w n).2)

/-- `pdict_add_persistent_change_listener`, with the id it returns; `none` is a pattern that
`regcomp` rejects. -/
def addPersistentChangeListener (regcomp : String → Option (String → Bool)) (pd : Pdict L)
    (kpat : String) (l : L) : Option (Pdict L × List (Notice L) × ℕ) :=
  (regcomp kpat).map fun regex =>
    let (ents, notices) := walkInt (·.addPersistentChangeListener ⟨l, regex, true⟩) pd.ents
    ({ ents, lid := pd.lid + 1,
       persistentListeners := pd.persistentListeners ++ [(pd.lid, ⟨l, regex, false⟩)] },
      notices, pd.lid)

/-- `pdict_remove_persistent_change_listener`: the listener leaves every entry that has it,
whether its pattern matches the key or not. -/
def removePersistentChangeListener [DecidableEq L] (pd : Pdict L) (id : ℕ) : Option (Pdict L) :=
  (pd.persistentListeners.find? (·.1 = id)).map fun pl =>
    { pd with
      persistentListeners := pd.persistentListeners.eraseP (·.1 = id)
      ents := (walkInt (fun n => (n.removeChangeListener pl.2.listener, [])) pd.ents).1 }

/-- `pdict_remove_persistent_change_listener` for every id of a list; a call that fails leaves a
warning in the log and the dictionary as it is. -/
def removePersistentChangeListeners [DecidableEq L] (pd : Pdict L) (ids : List ℕ) : Pdict L :=
  ids.foldl (fun pd id => (pd.removePersistentChangeListener id).getD pd) pd

/-- `pdict_walk` with a function that collects the keys and values it accepts. -/
def walk (pd : Pdict L) (accepts : String → Bool) : List (String × String) :=
  ((toList pd.ents).filter fun n => accepts n.key).map fun n => (n.key, n.val)

end Pdict

end CTDSensorSuite

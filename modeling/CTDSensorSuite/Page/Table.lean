import CTDSensorSuite.Reactive.Latest
import CTDSensorSuite.Server.Message
import Mathlib.Data.List.Induction

/-!
# The table of the page

The page keeps a table with one row for each channel of the kit and two for the
IMU. A `sensors` message appends the ten rows, all blank; a `values` message
writes to the cell with the id of the message, which is the first cell in
document order that has this id, and to none if there is no such cell.

After the first `sensors` message the first ten rows show the latest value of
their ids (`rows_receiveAll`). Every further `sensors` message appends ten more
rows with the same ids, which are never reached and stay blank. So the table is
in order exactly as long as there has been a single `sensors` message.
-/

namespace CTDSensorSuite

open Reactive

/-- A row: the name of the sensor, and the id and content of the cell next to it. -/
structure Row where
  name : String
  id : ℕ
  cell : Option JsValue
  deriving DecidableEq

/-- The table of the page, in document order. -/
structure Page where
  rows : List Row
  deriving DecidableEq

namespace Page

/-- The page as it is loaded: a table without rows. -/
def loaded : Page := ⟨[]⟩

/-- `$('#values').append` of a row with a blank cell. -/
def append (page : Page) (name : String) (id : ℕ) : Page :=
  ⟨page.rows ++ [⟨name, id, none⟩]⟩

/-- `$('#' + id).html(value)`. -/
def html (page : Page) (id : ℕ) (value : JsValue) : Page :=
  ⟨page.rows.replaceF fun row => if row.id = id then some { row with cell := some value } else none⟩

/-- The rows that the handler of `'sensors'` appends, in order. -/
def sensorRows : List (String × ℕ) :=
  [("None", 0), ("None", 1), ("None", 2), ("None", 3), ("Temperature", 4), ("Pressure", 5),
    ("Salinity", 6), ("Light", 7), ("IMU Pose", 8), ("IMU Depth", 9)]

/-- The handler of `'sensors'`. -/
def onSensors (page : Page) : Page :=
  sensorRows.foldl (fun page row => page.append row.1 row.2) page

/-- The handlers of the page. -/
def receive (page : Page) : Message → Page
  | .sensors _ => page.onSensors
  | .values id value => page.html id value

/-- The page after a sequence of messages. -/
def receiveAll (page : Page) (messages : List Message) : Page :=
  messages.foldl receive page

/-- The ten rows with given contents of their cells. -/
def block (cells : ℕ → Option JsValue) : List Row :=
  sensorRows.map fun row => ⟨row.1, row.2, cells row.2⟩

/-- The value that a message brings for the cell `id`. -/
def valueFor (id : ℕ) : Message → Option JsValue
  | .values i value => if i = id then some value else none
  | .sensors _ => none

def isSensors : Message → Bool
  | .sensors _ => true
  | .values _ _ => false

theorem receiveAll_append (page : Page) (messages messages' : List Message) :
    page.receiveAll (messages ++ messages') = (page.receiveAll messages).receiveAll messages' :=
  List.foldl_append

theorem onSensors_rows (page : Page) : page.onSensors.rows = page.rows ++ block fun _ => none := by
  simp [onSensors, sensorRows, append, block]

theorem nodup_sensorRows : (sensorRows.map Prod.snd).Nodup := by decide

theorem mem_sensorRows_iff (id : ℕ) : id ∈ sensorRows.map Prod.snd ↔ id ≤ 9 := by
  simp [sensorRows]
  omega

/-- The id of a block's rows does not depend on the contents. -/
theorem block_ids (cells : ℕ → Option JsValue) :
    (block cells).map Row.id = sensorRows.map Prod.snd := by
  simp [block, Function.comp_def]

theorem block_eq_iff (cells cells' : ℕ → Option JsValue) :
    block cells = block cells' ↔ ∀ id ≤ 9, cells id = cells' id := by
  rw [block, block, List.map_inj_left]
  constructor
  · intro h id hid
    obtain ⟨row, hrow, rfl⟩ := List.mem_map.1 ((mem_sensorRows_iff id).2 hid)
    exact (Row.mk.inj (h row hrow)).2.2
  · intro h row hrow
    rw [h row.2 ((mem_sensorRows_iff row.2).1 (List.mem_map_of_mem hrow))]

/-- A write goes to the first block and does not reach the rows behind it: where
there is no cell with the id in the block, there is none behind it. -/
theorem html_rows {page : Page} {cells : ℕ → Option JsValue} {n : ℕ}
    (h : page.rows = block cells ++ (List.replicate n (block fun _ => none)).flatten)
    (id : ℕ) (value : JsValue) :
    (page.html id value).rows =
      block (Function.update cells id (some value)) ++
        (List.replicate n (block fun _ => none)).flatten := by
  let write (row : Row) : Option Row :=
    if row.id = id then some { row with cell := some value } else none
  have hwrite : ∀ (row : String × ℕ) (c : Option JsValue), write ⟨row.1, row.2, c⟩ =
      if row.2 = id then some ⟨row.1, row.2, some value⟩ else none := fun _ _ => rfl
  have hblock : (block cells).replaceF write =
      block (Function.update cells id (some value)) :=
    replaceF_map_of_nodup hwrite cells nodup_sensorRows
  change page.rows.replaceF write = _
  rw [h]
  by_cases hid : id ∈ sensorRows.map Prod.snd
  · have hfound : ∃ row ∈ block cells, (write row).isSome := by
      rw [← block_ids cells] at hid
      obtain ⟨row, hrow, rfl⟩ := List.mem_map.1 hid
      exact ⟨row, hrow, by simp [write]⟩
    exact (replaceF_append_of_exists hfound).trans (by rw [hblock])
  · have hnone : ∀ cells' : ℕ → Option JsValue, ∀ row ∈ block cells', write row = none := by
      intro cells' row hrow
      apply if_neg
      intro heq
      apply hid
      rw [← block_ids cells', ← heq]
      exact List.mem_map_of_mem hrow
    have hall : ∀ row ∈ block cells ++ (List.replicate n (block fun _ => none)).flatten,
        write row = none := by
      intro row hrow
      rcases List.mem_append.1 hrow with hb | hr
      · exact hnone cells row hb
      · obtain ⟨rows, hrows, hmem⟩ := List.mem_flatten.1 hr
        obtain rfl := List.eq_of_mem_replicate hrows
        exact hnone _ row hmem
    have hsame : block (Function.update cells id (some value)) = block cells := by
      rw [← hblock, List.replaceF_of_forall_none (hnone cells)]
    exact (List.replaceF_of_forall_none hall).trans (by rw [hsame])

/-- The table after a first `sensors` message and any messages behind it. -/
theorem rows_receiveAll (test : ℚ) (messages : List Message) :
    (loaded.receiveAll (.sensors test :: messages)).rows =
      block (fun id => latest (valueFor id) messages) ++
        (List.replicate (messages.countP isSensors) (block fun _ => none)).flatten := by
  induction messages using List.reverseRecOn with
  | nil => exact (onSensors_rows loaded).trans (List.append_nil _).symm
  | append_singleton messages m ih =>
      rw [← List.cons_append, receiveAll_append]
      change (receive _ m).rows = _
      simp only [latest_append_singleton, List.countP_append, List.countP_singleton]
      cases m with
      | sensors test' =>
          change (onSensors _).rows = _
          rw [onSensors_rows, ih]
          simp [valueFor, isSensors, List.replicate_succ']
      | values id value =>
          refine (html_rows ih id value).trans ?_
          have hcells : Function.update (fun id => latest (valueFor id) messages) id (some value) =
              fun i => (valueFor i (.values id value)).or (latest (valueFor i) messages) := by
            funext i
            by_cases hi : i = id
            · subst hi
              simp [valueFor]
            · simp [valueFor, hi, Ne.symm hi]
          rw [hcells]
          simp [isSensors]

/-! ### Consistency -/

/-- The table is in order after the messages `received`: there is one row for each
of the ten ids, and every row shows the latest value received for its id. -/
structure Consistent (page : Page) (received : List Message) : Prop where
  one_row : ∀ id ≤ 9, (page.rows.map Row.id).count id = 1
  shows_latest : ∀ row ∈ page.rows, row.cell = latest (valueFor row.id) received

/-- There are as many rows of an id as there have been `sensors` messages. -/
theorem count_receiveAll (test : ℚ) (messages : List Message) {id : ℕ} (hid : id ≤ 9) :
    ((loaded.receiveAll (.sensors test :: messages)).rows.map Row.id).count id =
      1 + messages.countP isSensors := by
  have hone : (sensorRows.map Prod.snd).count id = 1 :=
    List.count_eq_one_of_mem nodup_sensorRows ((mem_sensorRows_iff id).2 hid)
  rw [rows_receiveAll, List.map_append, List.map_flatten, List.count_append, block_ids,
    List.map_replicate, block_ids, List.count_flatten, List.map_replicate, hone]
  simp

theorem countP_isSensors_eq_zero_iff (messages : List Message) :
    messages.countP isSensors = 0 ↔ ∀ test, .sensors test ∉ messages := by
  rw [List.countP_eq_zero]
  constructor
  · intro h test hmem
    exact h _ hmem rfl
  · intro h m hm
    cases m with
    | sensors test => exact absurd hm (h test)
    | values id value => exact Bool.false_ne_true

/-- At a point of its lifetime the table is in order exactly when the first
`sensors` message has been the only one. -/
theorem consistent_iff (test : ℚ) (messages : List Message) :
    Consistent (loaded.receiveAll (.sensors test :: messages)) (.sensors test :: messages) ↔
      ∀ test', .sensors test' ∉ messages := by
  rw [← countP_isSensors_eq_zero_iff]
  constructor
  · intro h
    have hcount := (count_receiveAll test messages (Nat.zero_le 9)).symm.trans
      (h.one_row 0 (Nat.zero_le 9))
    omega
  · intro h
    refine ⟨fun id hid => by rw [count_receiveAll test messages hid, h], fun row hrow => ?_⟩
    rw [rows_receiveAll, h, List.replicate_zero, List.flatten_nil, List.append_nil] at hrow
    obtain ⟨r, -, rfl⟩ := List.mem_map.1 hrow
    rw [latest_cons]
    exact (Option.or_none).symm

/-- A page that survives one reconnection has two rows of every id. -/
theorem not_consistent_reconnected :
    ¬ Consistent (loaded.receiveAll [.sensors 0, .values 4 (.number 70), .sensors 0])
      [.sensors 0, .values 4 (.number 70), .sensors 0] := by
  intro h
  exact absurd (h.one_row 4 (by decide)) (by decide)

end Page

end CTDSensorSuite

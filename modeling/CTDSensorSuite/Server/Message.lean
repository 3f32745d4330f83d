import Mathlib.Algebra.Order.Field.Rat
import Mathlib.Dynamics.FixedPoints.Basic
import Mathlib.Tactic.Linarith
import Mathlib.Tactic.NormNum
import Mathlib.Tactic.Ring

/-!
# Messages and the sensor conversion

The kit hands a `sensor` event to its listeners as a data object with the index
of the channel and the raw value. The listener body of the server rewrites the
value of that object in place, one `if` after the other, and emits the result.
`SensorData.calculate` is one pass of that body; `conversion i` is what it does
to a value on channel `i`. All arithmetic is exact, over `ℚ`.

Channels other than 4, 5 and 6 are left as they are. A second pass over a
converted value changes it again, except at the readings of `IsSteady`.
-/

namespace CTDSensorSuite

/-- A value carried by a message: a number or a string. -/
inductive JsValue where
  | number (q : ℚ)
  | string (s : String)
  deriving DecidableEq

/-- What the server emits on a socket. -/
inductive Message where
  /-- `'sensors'` with `{'test': test}`. -/
  | sensors (test : ℚ)
  /-- `'values'` with `{'id': id, 'value': value}`. -/
  | values (id : ℕ) (value : JsValue)
  deriving DecidableEq

/-- The data object of a `sensor` event. -/
@[ext] structure SensorData where
  index : ℕ
  value : ℚ
  deriving DecidableEq

/-- One pass of the listener body over the data object: four tests of the index
in turn, each with its writes to the value. -/
def SensorData.calculate (data : SensorData) : SensorData :=
  let data :=
    if data.index = 4 then
      let data := { data with value := ((5.22 * data.value) * (100 / 1024)) / 10 }
      -- `data.value *= e` multiplies by the whole of `e`
      { data with value := data.value * ((9.0 / 5.0) + 32.0) }
    else data
  let data :=
    if data.index = 5 then { data with value := 250 * ((data.value / 1024) + 0.04) }
    else data
  let data :=
    if data.index = 6 then { data with value := (12.0 * data.value) / 1024 }
    else data
  if data.index = 7 then data else data

/-- What one pass of the listener body does to a raw value on channel `i`. -/
def conversion (i : ℕ) (v : ℚ) : ℚ :=
  (SensorData.calculate ⟨i, v⟩).value

theorem SensorData.calculate_index (data : SensorData) :
    data.calculate.index = data.index := by
  simp only [SensorData.calculate]
  split_ifs <;> rfl

theorem SensorData.calculate_mk (i : ℕ) (v : ℚ) :
    SensorData.calculate ⟨i, v⟩ = ⟨i, conversion i v⟩ :=
  SensorData.ext (SensorData.calculate_index ⟨i, v⟩) rfl

theorem SensorData.iterate_calculate (i : ℕ) (v : ℚ) (n : ℕ) :
    SensorData.calculate^[n] ⟨i, v⟩ = ⟨i, (conversion i)^[n] v⟩ := by
  induction n generalizing v with
  | zero => rfl
  | succ n ih =>
      rw [Function.iterate_succ_apply, SensorData.calculate_mk, ih, Function.iterate_succ_apply]

theorem conversion_four (v : ℚ) : conversion 4 v = 44109 / 25600 * v := by
  norm_num [conversion, SensorData.calculate]
  ring

theorem conversion_five (v : ℚ) : conversion 5 v = 250 * (v / 1024 + 0.04) := by
  simp [conversion, SensorData.calculate]

theorem conversion_six (v : ℚ) : conversion 6 v = 12 * v / 1024 := by
  norm_num [conversion, SensorData.calculate]

/-- On every other channel the value is passed on unchanged. -/
theorem conversion_of_ne {i : ℕ} (h4 : i ≠ 4) (h5 : i ≠ 5) (h6 : i ≠ 6) (v : ℚ) :
    conversion i v = v := by
  simp [conversion, SensorData.calculate, h4, h5, h6]

/-- The readings that a second pass leaves alone: every reading of a channel that
is not converted, and on the converted channels the one reading that the
conversion fixes. -/
def IsSteady (i : ℕ) (v : ℚ) : Prop :=
  (i = 4 → v = 0) ∧ (i = 5 → v = 5120 / 387) ∧ (i = 6 → v = 0)

instance (i : ℕ) (v : ℚ) : Decidable (IsSteady i v) :=
  inferInstanceAs (Decidable (_ ∧ _ ∧ _))

/-- A second pass changes nothing exactly at the steady readings. -/
theorem isFixedPt_conversion_iff (i : ℕ) (v : ℚ) :
    Function.IsFixedPt (conversion i) (conversion i v) ↔ IsSteady i v := by
  unfold Function.IsFixedPt IsSteady
  by_cases h4 : i = 4
  · subst h4
    rw [conversion_four, conversion_four]
    constructor
    · intro h
      exact ⟨fun _ => by linarith, by simp, by simp⟩
    · intro h
      rw [h.1 rfl]
      norm_num
  by_cases h5 : i = 5
  · subst h5
    rw [conversion_five, conversion_five]
    constructor
    · intro h
      exact ⟨by simp, fun _ => by linarith, by simp⟩
    · intro h
      rw [h.2.1 rfl]
      norm_num
  by_cases h6 : i = 6
  · subst h6
    rw [conversion_six, conversion_six]
    constructor
    · intro h
      exact ⟨by simp, by simp, fun _ => by linarith⟩
    · intro h
      rw [h.2.2 rfl]
      norm_num
  · rw [conversion_of_ne h4 h5 h6]
    simp [h4, h5, h6]

end CTDSensorSuite

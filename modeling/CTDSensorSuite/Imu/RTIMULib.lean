import Mathlib.Algebra.Order.Field.Rat

/-!
# What the bridge relies on of RTIMULib

The sensor library is not part of the repository. Its drivers enter as the
operations that the bridge calls, with what is documented of them as fields: a
driver of the IMU holds the samples that it has not read yet and one stored
record, and only `imuRead` moves a sample from the former into the latter; a
pressure driver marks each reading as valid or leaves a zero.

Numbers are exact, over `ℚ`; poses, samples and the states of the devices are
arbitrary.
-/

namespace CTDSensorSuite

/-- The fields of `RTIMU_DATA` that the bridge reads or a pressure driver writes. -/
structure RTIMUData (Pose : Type*) where
  fusionPose : Pose
  pressureValid : Bool
  pressure : ℚ
  temperatureValid : Bool
  temperature : ℚ
  deriving DecidableEq

/-- A driver of the IMU, with states `Imu`. -/
structure RTIMU (Imu Sample Pose : Type*) where
  /-- The samples available in the device and not read yet, oldest first. -/
  unread : Imu → List Sample
  /-- The record that holds the fusion of the samples read so far. -/
  stored : Imu → RTIMUData Pose
  fuse : RTIMUData Pose → Sample → RTIMUData Pose
  /-- A new sample becomes available. -/
  arrive : Sample → Imu → Imu
  imuRead : Imu → Bool × Imu
  imuInit : Imu → Imu
  setSlerpPower : ℚ → Imu → Imu
  setGyroEnable : Bool → Imu → Imu
  setAccelEnable : Bool → Imu → Imu
  setCompassEnable : Bool → Imu → Imu
  getIMUData : Imu → RTIMUData Pose
  unread_arrive : ∀ x i, unread (arrive x i) = unread i ++ [x]
  stored_arrive : ∀ x i, stored (arrive x i) = stored i
  imuRead_nil : ∀ i, unread i = [] → imuRead i = (false, i)
  imuRead_cons : ∀ i x xs, unread i = x :: xs →
    (imuRead i).1 = true ∧ unread (imuRead i).2 = xs ∧
      stored (imuRead i).2 = fuse (stored i) x
  unread_imuInit : ∀ i, unread (imuInit i) = unread i
  unread_setSlerpPower : ∀ p i, unread (setSlerpPower p i) = unread i
  unread_setGyroEnable : ∀ b i, unread (setGyroEnable b i) = unread i
  unread_setAccelEnable : ∀ b i, unread (setAccelEnable b i) = unread i
  unread_setCompassEnable : ∀ b i, unread (setCompassEnable b i) = unread i
  getIMUData_eq : ∀ i, getIMUData i = stored i
  getIMUData_pressureValid : ∀ i, (getIMUData i).pressureValid = false
  getIMUData_pressure : ∀ i, (getIMUData i).pressure = 0

/-- A driver of a pressure sensor, with states `Press`. -/
structure RTPressure (Press Pose : Type*) where
  pressureInit : Press → Press
  pressureRead : Press → RTIMUData Pose → RTIMUData Pose × Press
  pressure_of_invalid : ∀ p d,
    (pressureRead p d).1.pressureValid = false → (pressureRead p d).1.pressure = 0
  fusionPose_pressureRead : ∀ p d, (pressureRead p d).1.fusionPose = d.fusionPose

/-- The library: its drivers, the factories that choose them by the settings, and
the functions of `RTMath` that the bridge calls. -/
structure RTIMULib (Settings Imu Press Sample Pose : Type*) where
  imu : RTIMU Imu Sample Pose
  press : RTPressure Press Pose
  /-- The settings read from the `.ini` file of a name. -/
  settings : String → Settings
  createIMU : Settings → Imu
  /-- The pressure driver, or none when there is no sensor. -/
  createPressure : Settings → Option Press
  displayDegrees : String → Pose → String
  convertPressureToHeight : ℚ → ℚ

namespace RTIMU

variable {Imu Sample Pose : Type*} (R : RTIMU Imu Sample Pose)

/-- Read as long as there are unread samples. -/
def readAll : ℕ → Imu → Imu
  | 0, i => i
  | n + 1, i => if (R.imuRead i).1 then readAll n (R.imuRead i).2 else i

/-- Reading until nothing is unread stores the fusion of all samples in order. -/
theorem stored_readAll {n : ℕ} {i : Imu} (h : (R.unread i).length ≤ n) :
    R.stored (R.readAll n i) = (R.unread i).foldl R.fuse (R.stored i) := by
  induction n generalizing i with
  | zero =>
      have hnil := List.eq_nil_of_length_eq_zero (Nat.le_zero.1 h)
      rw [hnil]
      rfl
  | succ n ih =>
      cases hu : R.unread i with
      | nil =>
          rw [readAll, R.imuRead_nil i hu]
          rfl
      | cons x xs =>
          obtain ⟨htrue, hrest, hstored⟩ := R.imuRead_cons i x xs hu
          have hlength : (R.unread (R.imuRead i).2).length ≤ n := by
            rw [hu, List.length_cons] at h
            rw [hrest]
            omega
          rw [readAll, if_pos htrue, ih hlength, hrest, hstored, List.foldl_cons]

end RTIMU

end CTDSensorSuite

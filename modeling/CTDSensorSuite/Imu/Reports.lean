import CTDSensorSuite.Imu.ImuCppBridge
import Mathlib.Algebra.Order.Floor.Defs
import Mathlib.Data.List.Induction
import Mathlib.Tactic.NormNum

/-!
# What the bridge reports

The depth is computed from the record's pressure whether or not the reading was
valid. It is the depth of the latest valid pressure where the call itself made a
valid reading, and after an invalid or a missing one only if that latest pressure
was 0, because 0 is what the record then holds.

The pose is that of the stored record. No call of the bridge reads a sample, so
the samples pile up unread in the device and the stored record stays what it was
when the module was loaded.
-/

namespace CTDSensorSuite

namespace ImuCppBridge

open Reactive

variable {Settings Imu Press Sample Pose : Type*}
  (lib : RTIMULib Settings Imu Press Sample Pose)

/-! ### The depth -/

theorem step_getIMUDepthData (bridge : ImuCppBridge Settings Imu Press Pose) :
    (bridge.step lib .getIMUDepthData).2 =
      (bridge.interface.getPoseInfo lib).2.2 ++
        [.depth (lib.convertPressureToHeight (bridge.interface.getPoseInfo lib).1.pressure)] :=
  rfl

/-- A call puts out its reading and then what it returns: nothing else is put out but
readings. -/
theorem mem_call_iff (interface : CIMUInterface Settings Imu Press Pose) {o o' : Output}
    (ho : ∀ valid pressure, o ≠ .pressureRead valid pressure) :
    o ∈ (interface.getPoseInfo lib).2.2 ++ [o'] ↔ o = o' := by
  have hreads : o ∉ (interface.getPoseInfo lib).2.2 := by
    cases h : interface.pressure with
    | none =>
        rw [getPoseInfo_none lib h]
        exact List.not_mem_nil
    | some pressure =>
        rw [getPoseInfo_some lib h]
        exact fun hmem => ho _ _ (List.mem_singleton.1 hmem)
  rw [List.mem_append, List.mem_singleton]
  exact or_iff_right hreads

/-- There is a pressure sensor, and it marks the reading it makes in the next call as
valid. -/
def PressureReady (interface : CIMUInterface Settings Imu Press Pose) : Prop :=
  ∃ pressure, interface.pressure = some pressure ∧
    (lib.press.pressureRead pressure (lib.imu.getIMUData interface.imu)).1.pressureValid = true

/-- A call makes a valid reading exactly when the sensor is ready for it. -/
theorem lastValid_getPoseInfo_eq_none_iff (interface : CIMUInterface Settings Imu Press Pose) :
    lastValid (interface.getPoseInfo lib).2.2 = none ↔ ¬ PressureReady lib interface := by
  cases h : interface.pressure with
  | none =>
      rw [getPoseInfo_none lib h]
      apply iff_of_true rfl
      intro hready
      rcases hready with ⟨pressure, hp, -⟩
      exact Option.some_ne_none pressure (hp.symm.trans h)
  | some pressure =>
      rw [getPoseInfo_some lib h]
      cases hv : (lib.press.pressureRead pressure
          (lib.imu.getIMUData interface.imu)).1.pressureValid with
      | false => simp [lastValid, latest_singleton, validPressure, PressureReady, h, hv]
      | true => simp [lastValid, latest_singleton, validPressure, PressureReady, h, hv]

/-- What is returned is not a reading. -/
theorem lastValid_step_getIMUDepthData (bridge : ImuCppBridge Settings Imu Press Pose) :
    lastValid (bridge.step lib .getIMUDepthData).2 =
      lastValid (bridge.interface.getPoseInfo lib).2.2 := by
  rw [step_getIMUDepthData, lastValid, latest_append_singleton]
  rfl

/-- A call returns one depth, the height of the record's pressure. -/
theorem depth_mem_step (bridge : ImuCppBridge Settings Imu Press Pose) (n : ℚ) :
    .depth n ∈ (bridge.step lib .getIMUDepthData).2 ↔
      n = lib.convertPressureToHeight
        ((lastValid (bridge.step lib .getIMUDepthData).2).getD 0) := by
  rw [lastValid_step_getIMUDepthData, ← getPoseInfo_pressure, step_getIMUDepthData,
    mem_call_iff lib _ fun _ _ => Output.noConfusion, Output.depth.injEq]

/-- Every depth returned in a run is that of the latest valid pressure reading, and
none is returned where there has been none. -/
def DepthsValid (as : List (Action Sample)) : Prop :=
  ∀ pre post n, as = pre ++ .getIMUDepthData :: post →
    .depth n ∈ (((machine lib).after (init lib) pre).step lib .getIMUDepthData).2 →
      ∃ p, lastValid ((machine lib).outputs (init lib) (pre ++ [.getIMUDepthData])) = some p ∧
        n = lib.convertPressureToHeight p

/-- At every depth call of a run the pressure sensor is ready, or the latest valid
reading before it was a pressure of 0. -/
def DepthCallsBacked (as : List (Action Sample)) : Prop :=
  ∀ pre post, as = pre ++ .getIMUDepthData :: post →
    PressureReady lib ((machine lib).after (init lib) pre).interface ∨
      lastValid ((machine lib).outputs (init lib) pre) = some 0

theorem lastValid_outputs_call (pre : List (Action Sample)) (a : Action Sample) :
    lastValid ((machine lib).outputs (init lib) (pre ++ [a])) =
      (lastValid (((machine lib).after (init lib) pre).step lib a).2).or
        (lastValid ((machine lib).outputs (init lib) pre)) := by
  rw [Machine.outputs_append, Machine.outputs_cons, Machine.outputs_nil, List.append_nil,
    lastValid, latest_append]
  rfl

/-- The depths of a run are valid exactly when its depth calls are backed. -/
theorem depthsValid_iff (hinj : Function.Injective lib.convertPressureToHeight)
    (as : List (Action Sample)) : DepthsValid lib as ↔ DepthCallsBacked lib as := by
  constructor
  · intro h pre post heq
    obtain ⟨p, hp, hn⟩ := h pre post _ heq ((depth_mem_step lib _ _).2 rfl)
    rw [lastValid_outputs_call] at hp
    by_cases hready : PressureReady lib ((machine lib).after (init lib) pre).interface
    · exact Or.inl hready
    · have hcall := (lastValid_getPoseInfo_eq_none_iff lib _).2 hready
      rw [← lastValid_step_getIMUDepthData] at hcall
      rw [hcall] at hp hn
      have hzero : p = 0 := (hinj hn).symm
      exact Or.inr (hzero ▸ hp)
  · intro h pre post n heq hn
    rw [depth_mem_step] at hn
    rw [lastValid_outputs_call]
    cases hcall : lastValid (((machine lib).after (init lib) pre).step lib .getIMUDepthData).2 with
    | none =>
        rw [hcall] at hn
        rw [lastValid_step_getIMUDepthData, lastValid_getPoseInfo_eq_none_iff] at hcall
        rcases h pre post heq with hready | hlast
        · exact absurd hready hcall
        · exact ⟨0, hlast, hn⟩
    | some q =>
        rw [hcall] at hn
        exact ⟨q, rfl, hn⟩

/-! ### The pose -/

/-- The samples that have become available in the device by the end of a run. -/
def available (as : List (Action Sample)) : List Sample :=
  lib.imu.unread (lib.createIMU (lib.settings "RTIMULib")) ++ samples as

/-- The record that the fusion of these samples gives, in order, from the record
stored when the module was loaded. -/
def fused (as : List (Action Sample)) : RTIMUData Pose :=
  (available lib as).foldl lib.imu.fuse (lib.imu.stored (init lib).interface.imu)

theorem step_getIMUPoseData (bridge : ImuCppBridge Settings Imu Press Pose) :
    (bridge.step lib .getIMUPoseData).2 =
      (bridge.interface.getPoseInfo lib).2.2 ++
        [.pose (lib.displayDegrees "Fused Pose in Degrees"
          (bridge.interface.getPoseInfo lib).1.fusionPose)] :=
  rfl

theorem unread_init :
    lib.imu.unread (init lib).interface.imu =
      lib.imu.unread (lib.createIMU (lib.settings "RTIMULib")) := by
  simp only [init, CIMUInterface.setup, CIMUInterface.create, lib.imu.unread_setCompassEnable,
    lib.imu.unread_setAccelEnable, lib.imu.unread_setGyroEnable, lib.imu.unread_setSlerpPower,
    lib.imu.unread_imuInit]

/-- A step stores nothing, and only a new sample changes what is unread. -/
theorem step_imu (bridge : ImuCppBridge Settings Imu Press Pose) (a : Action Sample) :
    lib.imu.unread (bridge.step lib a).1.interface.imu =
        lib.imu.unread bridge.interface.imu ++ samples [a] ∧
      lib.imu.stored (bridge.step lib a).1.interface.imu =
        lib.imu.stored bridge.interface.imu := by
  cases a with
  | sample x => exact ⟨lib.imu.unread_arrive x _, lib.imu.stored_arrive x _⟩
  | getIMUPoseData | getIMUDepthData =>
      have himu := getPoseInfo_imu lib bridge.interface
      constructor
      · exact (congrArg lib.imu.unread himu).trans (List.append_nil _).symm
      · exact congrArg lib.imu.stored himu

/-- In every run all available samples stay unread and the stored record stays as it
was when the module was loaded. -/
theorem imu_after (as : List (Action Sample)) :
    lib.imu.unread ((machine lib).after (init lib) as).interface.imu = available lib as ∧
      lib.imu.stored ((machine lib).after (init lib) as).interface.imu =
        lib.imu.stored (init lib).interface.imu := by
  induction as using List.reverseRecOn with
  | nil =>
      refine ⟨?_, rfl⟩
      rw [Machine.after_nil, unread_init, available]
      exact (List.append_nil _).symm
  | append_singleton as a ih =>
      rw [Machine.after_append, Machine.after_cons, Machine.after_nil, machine_step]
      obtain ⟨hunread, hstored⟩ := step_imu lib ((machine lib).after (init lib) as) a
      refine ⟨?_, hstored.trans ih.2⟩
      rw [hunread, ih.1, available, available, samples, samples, samples, List.filterMap_append,
        List.append_assoc]

/-- The fusion of the available samples is what reading all of them would store. -/
theorem fused_eq_stored_readAll (as : List (Action Sample)) :
    fused lib as =
      lib.imu.stored (lib.imu.readAll (available lib as).length
        ((machine lib).after (init lib) as).interface.imu) := by
  obtain ⟨hunread, hstored⟩ := imu_after lib as
  rw [RTIMU.stored_readAll lib.imu (le_of_eq (congrArg List.length hunread)), hunread, hstored,
    fused]

/-- A call returns the pose stored when the module was loaded. -/
theorem getIMUPoseData_after (as : List (Action Sample)) :
    (((machine lib).after (init lib) as).getIMUPoseData lib).1 =
      lib.displayDegrees "Fused Pose in Degrees"
        (lib.imu.stored (init lib).interface.imu).fusionPose := by
  have hpose := getPoseInfo_fusionPose lib ((machine lib).after (init lib) as).interface
  rw [(imu_after lib as).2] at hpose
  exact congrArg (lib.displayDegrees "Fused Pose in Degrees") hpose

theorem pose_mem_step (as : List (Action Sample)) (s : String) :
    .pose s ∈ (((machine lib).after (init lib) as).step lib .getIMUPoseData).2 ↔
      s = lib.displayDegrees "Fused Pose in Degrees"
        (lib.imu.stored (init lib).interface.imu).fusionPose := by
  rw [← getIMUPoseData_after lib as, step_getIMUPoseData,
    mem_call_iff lib _ fun _ _ => Output.noConfusion, Output.pose.injEq]
  rfl

/-- Every pose returned in a run is that of the samples available by then. -/
def PosesFresh (as : List (Action Sample)) : Prop :=
  ∀ pre post s, as = pre ++ .getIMUPoseData :: post →
    .pose s ∈ (((machine lib).after (init lib) pre).step lib .getIMUPoseData).2 →
      s = lib.displayDegrees "Fused Pose in Degrees" (fused lib pre).fusionPose

/-- At every pose call of a run the samples available by then would leave the pose as
it was displayed when the module was loaded. -/
def PoseCallsIdle (as : List (Action Sample)) : Prop :=
  ∀ pre post, as = pre ++ .getIMUPoseData :: post →
    lib.displayDegrees "Fused Pose in Degrees" (fused lib pre).fusionPose =
      lib.displayDegrees "Fused Pose in Degrees"
        (lib.imu.stored (init lib).interface.imu).fusionPose

/-- The poses of a run are fresh exactly when its pose calls come before the samples
change the pose. -/
theorem posesFresh_iff (as : List (Action Sample)) :
    PosesFresh lib as ↔ PoseCallsIdle lib as := by
  constructor
  · intro h pre post heq
    exact (h pre post _ heq ((pose_mem_step lib pre _).2 rfl)).symm
  · intro h pre post s heq hs
    exact ((pose_mem_step lib pre s).1 hs).trans (h pre post heq).symm

/-! ### A bench -/

/-- The digits that `%f` prints for a number of millionths. -/
def printMillionths (n : ℕ) : String :=
  let digits := toString (n % 1000000)
  toString (n / 1000000) ++ "." ++
    String.ofList (List.replicate (6 - digits.length) '0') ++ digits

/-- The degrees of a non-negative angle in radians, as `%f` prints them. -/
def printDegrees (q : ℚ) : String :=
  printMillionths (q * 57295779.51308232 + 1 / 2).floor.toNat

/-- An IMU whose fusion takes the pose of the latest sample: its unread samples and
its stored record. -/
def benchIMU : RTIMU (List (ℚ × ℚ × ℚ) × ℚ × ℚ × ℚ) (ℚ × ℚ × ℚ) (ℚ × ℚ × ℚ) where
  unread := fun i => i.1
  stored := fun i => ⟨i.2, false, 0, false, 0⟩
  fuse := fun d x => { d with fusionPose := x, pressureValid := false, pressure := 0,
                              temperatureValid := false, temperature := 0 }
  arrive := fun x i => (i.1 ++ [x], i.2)
  imuRead := fun i =>
    match i.1 with
    | [] => (false, i)
    | x :: xs => (true, xs, x)
  imuInit := id
  setSlerpPower := fun _ i => i
  setGyroEnable := fun _ i => i
  setAccelEnable := fun _ i => i
  setCompassEnable := fun _ i => i
  getIMUData := fun i => ⟨i.2, false, 0, false, 0⟩
  unread_arrive := fun _ _ => rfl
  stored_arrive := fun _ _ => rfl
  imuRead_nil := by
    rintro ⟨xs, p⟩ rfl
    rfl
  imuRead_cons := by
    rintro ⟨ys, p⟩ x xs rfl
    exact ⟨rfl, rfl, rfl⟩
  unread_imuInit := fun _ => rfl
  unread_setSlerpPower := fun _ _ => rfl
  unread_setGyroEnable := fun _ _ => rfl
  unread_setAccelEnable := fun _ _ => rfl
  unread_setCompassEnable := fun _ _ => rfl
  getIMUData_eq := fun _ => rfl
  getIMUData_pressureValid := fun _ => rfl
  getIMUData_pressure := fun _ => rfl

/-- A pressure sensor that goes through a list of readings, `none` for an invalid
one. -/
def benchPressure : RTPressure (List (Option ℚ)) (ℚ × ℚ × ℚ) where
  pressureInit := id
  pressureRead := fun script d =>
    match script with
    | some p :: rest => ({ d with pressureValid := true, pressure := p }, rest)
    | none :: rest => ({ d with pressureValid := false, pressure := 0 }, rest)
    | [] => ({ d with pressureValid := false, pressure := 0 }, [])
  pressure_of_invalid := by
    intro script d h
    cases script with
    | nil => rfl
    | cons reading rest =>
        cases reading with
        | none => rfl
        | some p => cases h
  fusionPose_pressureRead := by
    intro script d
    cases script with
    | nil => rfl
    | cons reading rest =>
        cases reading with
        | none => rfl
        | some p => rfl

/-- A library on the bench, with a pressure sensor that follows a script or none.
The height is the chord of the barometric formula through the pressures 0 and
1013.25. -/
def benchLib (sensor : Option (List (Option ℚ))) :
    RTIMULib String (List (ℚ × ℚ × ℚ) × ℚ × ℚ × ℚ) (List (Option ℚ)) (ℚ × ℚ × ℚ) (ℚ × ℚ × ℚ) where
  imu := benchIMU
  press := benchPressure
  settings := id
  createIMU := fun _ => ([], 0, 0, 0)
  createPressure := fun _ => sensor
  displayDegrees := fun label pose =>
    label ++ ": roll:" ++ printDegrees pose.1 ++ ", pitch:" ++ printDegrees pose.2.1 ++
      ", yaw:" ++ printDegrees pose.2.2
  convertPressureToHeight := fun p => 44330.8 * (1 - p / 1013.25)

theorem injective_benchLib (sensor : Option (List (Option ℚ))) :
    Function.Injective (benchLib sensor).convertPressureToHeight := by
  intro p q h
  change (44330.8 : ℚ) * (1 - p / 1013.25) = 44330.8 * (1 - q / 1013.25) at h
  have hratio := sub_right_injective (mul_left_cancel₀ (by norm_num) h)
  exact (div_left_inj' (by norm_num)).1 hratio

/-- A dive in which a reading at the surface is followed by an invalid one. -/
theorem depthsValid_iff_lost_sensor :
    DepthsValid (benchLib (some [some 1013.25, none])) [.getIMUDepthData, .getIMUDepthData] ↔
      DepthCallsBacked (benchLib (some [some 1013.25, none]))
        [.getIMUDepthData, .getIMUDepthData] :=
  depthsValid_iff _ (injective_benchLib _) _

/-- Without a pressure sensor a depth call returns the height of a vacuum. -/
theorem not_depthsValid_no_sensor :
    Function.Injective (benchLib none).convertPressureToHeight ∧
      .depth 44330.8 ∈ ((machine (benchLib none)).step (init (benchLib none)) .getIMUDepthData).2 ∧
      ¬ DepthsValid (benchLib none) [.getIMUDepthData] := by
  have hdepth : .depth 44330.8 ∈
      ((init (benchLib none)).step (benchLib none) .getIMUDepthData).2 := by
    decide +kernel
  refine ⟨injective_benchLib none, hdepth, fun h => ?_⟩
  obtain ⟨p, hp, -⟩ := h [] [] 44330.8 rfl hdepth
  exact Option.some_ne_none p hp.symm

/-- After a sample that turns the vehicle by one radian the pose is still the level
one. -/
theorem not_posesFresh_turned :
    ¬ PosesFresh (benchLib none) [.sample (0, 0, 1), .getIMUPoseData] := by
  intro h
  have hpose := h [.sample (0, 0, 1)] []
    "Fused Pose in Degrees: roll:0.000000, pitch:0.000000, yaw:0.000000" rfl (by decide +kernel)
  revert hpose
  decide +kernel

end ImuCppBridge

end CTDSensorSuite

import CTDSensorSuite.Imu.RTIMULib
import CTDSensorSuite.Reactive.Latest
import CTDSensorSuite.Reactive.Machine

/-!
# The IMU bridge

`CIMUInterface` owns the two drivers; the bridge is one global object of that
class, made and set up when the module is loaded, with the two exported functions
that the server calls on each tick. Each of them asks `getPoseInfo` for the stored
record of the IMU, to which a pressure driver adds its reading.

As a machine the bridge answers the two calls, and samples become available in
the device between them. A call puts out what the pressure sensor left in the
record, if there is a sensor, and then what it returns.
-/

namespace CTDSensorSuite

open Reactive

/-- The attributes of a `CIMUInterface`; the record is unset until the first
`getPoseInfo`. -/
structure CIMUInterface (Settings Imu Press Pose : Type*) where
  settings : Settings
  imu : Imu
  pressure : Option Press
  imuData : Option (RTIMUData Pose)

/-- The globals of the bridge. -/
structure ImuCppBridge (Settings Imu Press Pose : Type*) where
  interface : CIMUInterface Settings Imu Press Pose
  data : Option (RTIMUData Pose)

namespace ImuCppBridge

/-- The calls of the exported functions, and the samples between them. -/
inductive Action (Sample : Type*) where
  | sample (x : Sample)
  | getIMUPoseData
  | getIMUDepthData
  deriving DecidableEq

inductive Output where
  /-- The pressure sensor was read; what it left in the record. -/
  | pressureRead (valid : Bool) (pressure : ℚ)
  | pose (s : String)
  | depth (n : ℚ)
  deriving DecidableEq

end ImuCppBridge

variable {Settings Imu Press Sample Pose : Type*}
  (lib : RTIMULib Settings Imu Press Sample Pose)

namespace CIMUInterface

/-- The constructor. -/
def create : CIMUInterface Settings Imu Press Pose :=
  let settings := lib.settings "RTIMULib"
  ⟨settings, lib.createIMU settings, lib.createPressure settings, none⟩

/-- `Setup`. -/
def setup (slerPwrIn : ℚ) (enableGyro enableAccel enableComp : Bool)
    (interface : CIMUInterface Settings Imu Press Pose) :
    CIMUInterface Settings Imu Press Pose :=
  let imu := lib.imu.imuInit interface.imu
  let imu := lib.imu.setSlerpPower slerPwrIn imu
  let imu := lib.imu.setGyroEnable enableGyro imu
  let imu := lib.imu.setAccelEnable enableAccel imu
  let imu := lib.imu.setCompassEnable enableComp imu
  { interface with
    imu := imu
    pressure := interface.pressure.map lib.press.pressureInit }

/-- `GetPoseInfo`: the record it returns, the interface after it, and the reading of
the pressure sensor that it made. -/
def getPoseInfo (interface : CIMUInterface Settings Imu Press Pose) :
    RTIMUData Pose × CIMUInterface Settings Imu Press Pose × List ImuCppBridge.Output :=
  let data := lib.imu.getIMUData interface.imu
  match interface.pressure with
  | some pressure =>
      let (data, pressure) := lib.press.pressureRead pressure data
      (data, { interface with pressure := some pressure, imuData := some data },
        [.pressureRead data.pressureValid data.pressure])
  | none => (data, { interface with imuData := some data }, [])

end CIMUInterface

namespace ImuCppBridge

/-- The bridge as `init` leaves it when the module is loaded. -/
def init : ImuCppBridge Settings Imu Press Pose :=
  ⟨(CIMUInterface.create lib).setup lib 0.02 true true true, none⟩

/-- `GetIMUPoseData`: the string it returns, the bridge after it, and the reading of
the pressure sensor. -/
def getIMUPoseData (bridge : ImuCppBridge Settings Imu Press Pose) :
    String × ImuCppBridge Settings Imu Press Pose × List Output :=
  let (data, interface, reads) := bridge.interface.getPoseInfo lib
  (lib.displayDegrees "Fused Pose in Degrees" data.fusionPose, ⟨interface, some data⟩, reads)

/-- `GetIMUDepthData`, likewise. -/
def getIMUDepthData (bridge : ImuCppBridge Settings Imu Press Pose) :
    ℚ × ImuCppBridge Settings Imu Press Pose × List Output :=
  let (data, interface, reads) := bridge.interface.getPoseInfo lib
  (lib.convertPressureToHeight data.pressure, ⟨interface, some data⟩, reads)

def step (bridge : ImuCppBridge Settings Imu Press Pose) :
    Action Sample → ImuCppBridge Settings Imu Press Pose × List Output
  | .sample x =>
      (⟨{ bridge.interface with imu := lib.imu.arrive x bridge.interface.imu }, bridge.data⟩, [])
  | .getIMUPoseData =>
      let (s, bridge, reads) := bridge.getIMUPoseData lib
      (bridge, reads ++ [.pose s])
  | .getIMUDepthData =>
      let (n, bridge, reads) := bridge.getIMUDepthData lib
      (bridge, reads ++ [.depth n])

/-- The bridge as a reactive machine. -/
def machine : Machine (ImuCppBridge Settings Imu Press Pose) (Action Sample) Output where
  enabled := fun _ _ => True
  step := step lib

@[simp] theorem machine_step (bridge : ImuCppBridge Settings Imu Press Pose)
    (a : Action Sample) : (machine lib).step bridge a = bridge.step lib a := rfl

/-- The samples that become available in a run, in order. -/
def samples (actions : List (Action Sample)) : List Sample :=
  actions.filterMap fun
    | .sample x => some x
    | _ => none

/-- The pressure of a reading that the sensor marked valid. -/
def validPressure : Output → Option ℚ
  | .pressureRead valid pressure => if valid then some pressure else none
  | _ => none

/-- The pressure of the latest valid reading. -/
def lastValid (outputs : List Output) : Option ℚ :=
  latest validPressure outputs

/-! ### One call -/

/-- Without a pressure sensor the record is the stored one, with a pressure of 0. -/
theorem getPoseInfo_none {interface : CIMUInterface Settings Imu Press Pose}
    (h : interface.pressure = none) :
    interface.getPoseInfo lib =
      (lib.imu.getIMUData interface.imu,
        { interface with imuData := some (lib.imu.getIMUData interface.imu) }, []) := by
  rw [CIMUInterface.getPoseInfo, h]

/-- With a pressure sensor its reading is added to the stored record. -/
theorem getPoseInfo_some {interface : CIMUInterface Settings Imu Press Pose} {pressure : Press}
    (h : interface.pressure = some pressure) :
    interface.getPoseInfo lib =
      let read := lib.press.pressureRead pressure (lib.imu.getIMUData interface.imu)
      (read.1, { interface with pressure := some read.2, imuData := some read.1 },
        [.pressureRead read.1.pressureValid read.1.pressure]) := by
  rw [CIMUInterface.getPoseInfo, h]

/-- The pose of the record is the stored one, with or without a pressure sensor. -/
theorem getPoseInfo_fusionPose (interface : CIMUInterface Settings Imu Press Pose) :
    (interface.getPoseInfo lib).1.fusionPose = (lib.imu.stored interface.imu).fusionPose := by
  cases h : interface.pressure with
  | none => rw [getPoseInfo_none lib h, lib.imu.getIMUData_eq]
  | some pressure =>
      rw [getPoseInfo_some lib h]
      exact (lib.press.fusionPose_pressureRead _ _).trans
        (congrArg RTIMUData.fusionPose (lib.imu.getIMUData_eq interface.imu))

/-- No call touches the state of the IMU. -/
theorem getPoseInfo_imu (interface : CIMUInterface Settings Imu Press Pose) :
    (interface.getPoseInfo lib).2.1.imu = interface.imu := by
  cases h : interface.pressure with
  | none => rw [getPoseInfo_none lib h]
  | some pressure => rw [getPoseInfo_some lib h]

/-- What a call reads of the pressure: the record's pressure is the one of a valid
reading, or else it is 0. -/
theorem getPoseInfo_pressure (interface : CIMUInterface Settings Imu Press Pose) :
    (interface.getPoseInfo lib).1.pressure =
      (lastValid (interface.getPoseInfo lib).2.2).getD 0 := by
  cases h : interface.pressure with
  | none =>
      rw [getPoseInfo_none lib h]
      exact lib.imu.getIMUData_pressure interface.imu
  | some pressure =>
      rw [getPoseInfo_some lib h]
      cases hv : (lib.press.pressureRead pressure
          (lib.imu.getIMUData interface.imu)).1.pressureValid with
      | false =>
          have hzero := lib.press.pressure_of_invalid pressure _ hv
          simp [lastValid, latest, validPressure, hv, hzero]
      | true => simp [lastValid, latest, validPressure, hv]

end ImuCppBridge

end CTDSensorSuite

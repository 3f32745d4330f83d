import CTDSensorSuite.Imu.ImuCppBridge
import CTDSensorSuite.Page.Table
import CTDSensorSuite.Server.Requests

/-!
# The suite

The server process runs with the IMU bridge that it has loaded, and sends its
clients messages over their sockets. A socket belongs to the page in one tab of a
browser, and a tab can have had several sockets, one after the other. What is
emitted on a connected socket is in flight until it arrives at the page, in the
order of emission; what is in flight when the connection ends never arrives.

As a machine the suite reacts to everything that its parts react to, except that
nobody chooses what a tick reads: when the timer of a connection fires, its
callback calls the bridge. Each part then runs as it does alone
(`processSimulation`, `bridgeSimulation`).
-/

namespace CTDSensorSuite

open Reactive

/-- The state of the suite. -/
structure Suite (Socket Request : Type*) (Data : Type) (Tab Settings Imu Press Pose : Type*) where
  process : Process Socket Request Data
  bridge : ImuCppBridge Settings Imu Press Pose
  /-- The messages on their way over a socket, oldest first. -/
  inFlight : Socket → List Message
  pages : Tab → Page

namespace Suite

inductive Action (Socket Request : Type*) (Data : Type) (Sample : Type*) where
  | request (req : Request)
  | readDone (req : Request) (result : Except String Data)
  | connect (socket : Socket)
  | disconnect (socket : Socket)
  | sensor (index : ℕ) (value : ℚ)
  | timer (socket : Socket)
  | sample (x : Sample)
  /-- The oldest message in flight on `socket` arrives. -/
  | deliver (socket : Socket)

inductive Output (Socket Request : Type*) where
  | process (output : Process.Output Socket Request)
  | bridge (output : ImuCppBridge.Output)
  | delivered (socket : Socket) (message : Message)

section Output

variable {Socket Request : Type*}

def Output.ofProcess : Output Socket Request → Option (Process.Output Socket Request)
  | .process output => some output
  | .bridge _ | .delivered _ _ => none

def Output.ofBridge : Output Socket Request → Option ImuCppBridge.Output
  | .bridge output => some output
  | .process _ | .delivered _ _ => none

theorem ofProcess_map_bridge (os : List ImuCppBridge.Output) :
    (os.map (Output.bridge : _ → Output Socket Request)).filterMap Output.ofProcess = [] := by
  rw [List.filterMap_map]
  exact List.filterMap_eq_nil_iff.2 fun _ _ => rfl

theorem ofBridge_map_bridge (os : List ImuCppBridge.Output) :
    (os.map (Output.bridge : _ → Output Socket Request)).filterMap Output.ofBridge = os := by
  rw [List.filterMap_map]
  exact List.filterMap_some

end Output

variable {Socket Request : Type*} {Data : Type} {Tab Settings Imu Press Sample Pose : Type*}
  (lib : RTIMULib Settings Imu Press Sample Pose) (tab : Socket → Tab)

/-- The suite as it is started, with a loaded page in every tab. -/
def init : Suite Socket Request Data Tab Settings Imu Press Pose :=
  ⟨Process.init, ImuCppBridge.init lib, fun _ => [], fun _ => Page.loaded⟩

variable [DecidableEq Socket] [DecidableEq Request] [DecidableEq Tab]

/-- The process reacts, and what it emits on the connected sockets is on its way. -/
def react (suite : Suite Socket Request Data Tab Settings Imu Press Pose)
    (a : Process.Action Socket Request Data) :
    Suite Socket Request Data Tab Settings Imu Press Pose × List (Output Socket Request) :=
  let (process, outputs) := suite.process.step a
  ({ suite with
      process := process
      inFlight := fun socket =>
        if socket ∈ process.server.connected then
          suite.inFlight socket ++
            Server.messagesTo socket (outputs.filterMap Process.Output.served)
        else [] },
    outputs.map .process)

/-- The timer of `socket` fires: its callback calls the bridge twice. -/
def fireTimer (suite : Suite Socket Request Data Tab Settings Imu Press Pose) (socket : Socket) :
    Suite Socket Request Data Tab Settings Imu Press Pose × List (Output Socket Request) :=
  let (pose, bridge, poseReads) := suite.bridge.getIMUPoseData lib
  let (depth, bridge, depthReads) := bridge.getIMUDepthData lib
  let calls : List ImuCppBridge.Output :=
    (poseReads ++ [.pose pose]) ++ (depthReads ++ [.depth depth])
  let (suite, outputs) :=
    react { suite with bridge := bridge } (.serve (.tick socket pose depth))
  (suite, calls.map .bridge ++ outputs)

/-- The oldest message in flight on `socket` arrives at its page. -/
def deliver (suite : Suite Socket Request Data Tab Settings Imu Press Pose) (socket : Socket) :
    Suite Socket Request Data Tab Settings Imu Press Pose × List (Output Socket Request) :=
  match suite.inFlight socket with
  | [] => (suite, [])
  | message :: rest =>
      ({ suite with
          inFlight := Function.update suite.inFlight socket rest
          pages := Function.update suite.pages (tab socket)
            ((suite.pages (tab socket)).receive message) },
        [.delivered socket message])

def Enabled (suite : Suite Socket Request Data Tab Settings Imu Press Pose) :
    Action Socket Request Data Sample → Prop
  | .request req => suite.process.Enabled (.request req)
  | .readDone req result => suite.process.Enabled (.readDone req result)
  | .connect socket => suite.process.Enabled (.serve (.connect socket))
  | .disconnect socket => suite.process.Enabled (.serve (.disconnect socket))
  | .sensor index value => suite.process.Enabled (.serve (.sensor index value))
  | .timer socket =>
      suite.process.running = true ∧ socket ∈ suite.process.server.timers.map Timer.socket
  | .sample _ => True
  | .deliver socket => suite.inFlight socket ≠ []

def step (suite : Suite Socket Request Data Tab Settings Imu Press Pose) :
    Action Socket Request Data Sample →
      Suite Socket Request Data Tab Settings Imu Press Pose × List (Output Socket Request)
  | .request req => suite.react (.request req)
  | .readDone req result => suite.react (.readDone req result)
  | .connect socket => suite.react (.serve (.connect socket))
  | .disconnect socket => suite.react (.serve (.disconnect socket))
  | .sensor index value => suite.react (.serve (.sensor index value))
  | .timer socket => suite.fireTimer lib socket
  | .sample x => ({ suite with bridge := (suite.bridge.step lib (.sample x)).1 }, [])
  | .deliver socket => suite.deliver tab socket

/-- The suite as a reactive machine. -/
def machine : Machine (Suite Socket Request Data Tab Settings Imu Press Pose)
    (Action Socket Request Data Sample) (Output Socket Request) where
  enabled := Enabled
  step := step lib tab

/-! ### The parts of the suite -/

omit [DecidableEq Tab] in
theorem react_ofProcess (suite : Suite Socket Request Data Tab Settings Imu Press Pose)
    (a : Process.Action Socket Request Data) :
    (suite.react a).2.filterMap Output.ofProcess = (suite.process.step a).2 := by
  change ((suite.process.step a).2.map Output.process).filterMap Output.ofProcess = _
  rw [List.filterMap_map]
  exact List.filterMap_some

omit [DecidableEq Tab] in
theorem react_ofBridge (suite : Suite Socket Request Data Tab Settings Imu Press Pose)
    (a : Process.Action Socket Request Data) :
    (suite.react a).2.filterMap Output.ofBridge = [] := by
  change ((suite.process.step a).2.map Output.process).filterMap Output.ofBridge = _
  rw [List.filterMap_map]
  exact List.filterMap_eq_nil_iff.2 fun _ _ => rfl

omit [DecidableEq Tab] in
/-- The process reacts to a tick that carries what the bridge has returned. -/
theorem fireTimer_cases (suite : Suite Socket Request Data Tab Settings Imu Press Pose)
    (socket : Socket) :
    ∃ pose depth bridge, ∃ calls : List ImuCppBridge.Output,
      let suite' := { suite with bridge := bridge }
      suite.fireTimer lib socket =
        ((suite'.react (.serve (.tick socket pose depth))).1,
          calls.map .bridge ++ (suite'.react (.serve (.tick socket pose depth))).2) :=
  ⟨_, _, _, _, rfl⟩

omit [DecidableEq Tab] in
theorem fireTimer_ofProcess (suite : Suite Socket Request Data Tab Settings Imu Press Pose)
    (socket : Socket) :
    (suite.fireTimer lib socket).2.filterMap Output.ofProcess =
      (suite.process.step (.serve (.tick socket (suite.bridge.getIMUPoseData lib).1
        ((suite.bridge.getIMUPoseData lib).2.1.getIMUDepthData lib).1))).2 := by
  simp only [fireTimer, List.filterMap_append, ofProcess_map_bridge, react_ofProcess,
    List.nil_append]

omit [DecidableEq Tab] in
theorem fireTimer_ofBridge (suite : Suite Socket Request Data Tab Settings Imu Press Pose)
    (socket : Socket) :
    (suite.fireTimer lib socket).2.filterMap Output.ofBridge =
      (ImuCppBridge.machine lib).outputs suite.bridge [.getIMUPoseData, .getIMUDepthData] := by
  rw [Machine.outputs_cons, Machine.outputs_cons, Machine.outputs_nil, List.append_nil]
  simp only [fireTimer, List.filterMap_append, ofBridge_map_bridge, react_ofBridge,
    List.append_nil]
  rfl

omit [DecidableEq Request] in
/-- An arrival touches neither the process nor the bridge. -/
theorem deliver_parts (suite : Suite Socket Request Data Tab Settings Imu Press Pose)
    (socket : Socket) :
    (suite.deliver tab socket).1.process = suite.process ∧
      (suite.deliver tab socket).1.bridge = suite.bridge ∧
      (suite.deliver tab socket).2.filterMap Output.ofProcess = [] ∧
      (suite.deliver tab socket).2.filterMap Output.ofBridge = [] := by
  unfold deliver
  split
  · exact ⟨rfl, rfl, rfl, rfl⟩
  · exact ⟨rfl, rfl, rfl, rfl⟩

/-- What the process reacts to in a step of the suite; in a tick it is handed what the
bridge returns. -/
def processActions (suite : Suite Socket Request Data Tab Settings Imu Press Pose) :
    Action Socket Request Data Sample → List (Process.Action Socket Request Data)
  | .request req => [.request req]
  | .readDone req result => [.readDone req result]
  | .connect socket => [.serve (.connect socket)]
  | .disconnect socket => [.serve (.disconnect socket)]
  | .sensor index value => [.serve (.sensor index value)]
  | .timer socket =>
      let (pose, bridge, _) := suite.bridge.getIMUPoseData lib
      let (depth, _, _) := bridge.getIMUDepthData lib
      [.serve (.tick socket pose depth)]
  | .sample _ | .deliver _ => []

/-- What the bridge reacts to. -/
def bridgeActions : Action Socket Request Data Sample → List (ImuCppBridge.Action Sample)
  | .timer _ => [.getIMUPoseData, .getIMUDepthData]
  | .sample x => [.sample x]
  | _ => []

/-- The process runs in the suite as it does alone. -/
def processSimulation :
    Simulation
      (machine lib tab : Machine (Suite Socket Request Data Tab Settings Imu Press Pose)
        (Action Socket Request Data Sample) (Output Socket Request))
      (Process.machine : Machine (Process Socket Request Data)
        (Process.Action Socket Request Data) (Process.Output Socket Request)) where
  abs := Suite.process
  trace := processActions lib
  view := Output.ofProcess
  allowed := fun _ _ => True
  admissible_trace := by
    intro suite a ha _
    cases a with
    | request | readDone | connect | disconnect | sensor | timer => exact ⟨ha, trivial⟩
    | sample | deliver => trivial
  after_trace := by
    intro suite a _ _
    cases a with
    | request | readDone | connect | disconnect | sensor | timer | sample => rfl
    | deliver socket => exact (deliver_parts tab suite socket).1.symm
  outputs_trace := by
    intro suite a _ _
    cases a with
    | request | readDone | connect | disconnect | sensor =>
        exact (List.append_nil _).trans (react_ofProcess suite _).symm
    | timer socket =>
        exact (List.append_nil _).trans (fireTimer_ofProcess lib suite socket).symm
    | sample x => rfl
    | deliver socket => exact (deliver_parts tab suite socket).2.2.1.symm

/-- The bridge runs in the suite as it does alone, called by every tick. -/
def bridgeSimulation :
    Simulation
      (machine lib tab : Machine (Suite Socket Request Data Tab Settings Imu Press Pose)
        (Action Socket Request Data Sample) (Output Socket Request))
      (ImuCppBridge.machine lib) where
  abs := Suite.bridge
  trace := fun _ => bridgeActions
  view := Output.ofBridge
  allowed := fun _ _ => True
  admissible_trace := by
    intro suite a _ _
    cases a with
    | timer => exact ⟨trivial, trivial, trivial⟩
    | sample => exact ⟨trivial, trivial⟩
    | request | readDone | connect | disconnect | sensor | deliver => trivial
  after_trace := by
    intro suite a _ _
    cases a with
    | request | readDone | connect | disconnect | sensor | timer | sample => rfl
    | deliver socket => exact (deliver_parts tab suite socket).2.1.symm
  outputs_trace := by
    intro suite a _ _
    cases a with
    | request | readDone | connect | disconnect | sensor => exact (react_ofBridge suite _).symm
    | timer socket => exact (fireTimer_ofBridge lib suite socket).symm
    | sample x => rfl
    | deliver socket => exact (deliver_parts tab suite socket).2.2.2.symm

end Suite

end CTDSensorSuite

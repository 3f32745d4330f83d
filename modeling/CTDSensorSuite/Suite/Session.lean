import CTDSensorSuite.Imu.Reports
import CTDSensorSuite.Page.Calibration
import CTDSensorSuite.Suite.Delivery

/-!
# What a page shows in the suite

A page whose tab has had one socket, still connected, shows what the server has
emitted on that socket and the page has received. Once it has caught up, its rows
are those of the server alone (`rows_caughtUp`): the latest reading of each channel
since the connection, converted once for the client and once for each client before
it, whatever the requests, samples and other clients in between. The pose in its row
is the one stored when the bridge was loaded (`pose_caughtUp`).
-/

namespace CTDSensorSuite

open Reactive

namespace Suite

variable {Socket Request : Type*} {Data : Type} {Tab Settings Imu Press Sample Pose : Type*}
  [DecidableEq Socket] [DecidableEq Request] [DecidableEq Tab]
  (lib : RTIMULib Settings Imu Press Sample Pose) (tab : Socket → Tab)

/-- What the server reacts to in a run of the suite. -/
def served (suite : Suite Socket Request Data Tab Settings Imu Press Pose)
    (as : List (Action Socket Request Data Sample)) : List (Server.Action Socket) :=
  Process.serverSimulation.traceAlong suite.process
    ((processSimulation lib tab).traceAlong suite as)

/-- The sockets of the clients that connect in a run, in order. -/
def clients (as : List (Action Socket Request Data Sample)) : List Socket :=
  as.filterMap fun
    | .connect socket => some socket
    | _ => none

def readingOf (i : ℕ) : Action Socket Request Data Sample → Option ℚ
  | .sensor j v => if j = i then some v else none
  | _ => none

/-- The kit has eight channels. -/
def IsKitReading : Action Socket Request Data Sample → Prop
  | .sensor i _ => i ≤ 7
  | _ => True

/-- The bridge is as some run of its own leaves it. -/
def BridgeReached (suite : Suite Socket Request Data Tab Settings Imu Press Pose) : Prop :=
  ∃ bs, suite.bridge = (ImuCppBridge.machine lib).after (ImuCppBridge.init lib) bs

variable {lib tab}

theorem served_append {suite : Suite Socket Request Data Tab Settings Imu Press Pose}
    {as : List (Action Socket Request Data Sample)} (h : (machine lib tab).Admissible suite as)
    (bs : List (Action Socket Request Data Sample)) :
    served lib tab suite (as ++ bs) =
      served lib tab suite as ++ served lib tab ((machine lib tab).after suite as) bs := by
  have hafter := (processSimulation lib tab).after_traceAlong h
    (Machine.along_of_forall _ (fun _ _ => trivial) suite as)
  unfold served
  rw [Simulation.traceAlong_append, Simulation.traceAlong_append]
  change _ ++ Process.serverSimulation.traceAlong (Process.machine.after
    ((processSimulation lib tab).abs suite) _) _ = _
  rw [hafter]
  rfl

/-- Where `key` reads of the process's actions what `key'` reads of the suite's, it reads
of what the server is served in a run what `key'` reads of the run. -/
theorem filterMap_served {γ : Type*} {key : Server.Action Socket → Option γ}
    {key' : Action Socket Request Data Sample → Option γ}
    (h : ∀ (suite : Suite Socket Request Data Tab Settings Imu Press Pose) a,
      ((processActions lib suite a).filterMap fun
        | .serve action => key action
        | .request _ | .readDone _ _ => none) = (key' a).toList)
    (suite : Suite Socket Request Data Tab Settings Imu Press Pose)
    (as : List (Action Socket Request Data Sample)) :
    (served lib tab suite as).filterMap key = as.filterMap key' := by
  unfold served
  rw [Simulation.filterMap_traceAlong _ fun p b => ?_]
  · exact Simulation.filterMap_traceAlong _ h suite as
  · cases b with
    | serve action =>
        change [action].filterMap key = (key action).toList
        cases hkey : key action with
        | none => simp [hkey]
        | some c => simp [hkey]
    | request | readDone => rfl

theorem connections_served (suite : Suite Socket Request Data Tab Settings Imu Press Pose)
    (as : List (Action Socket Request Data Sample)) :
    Server.connections (served lib tab suite as) = clients as := by
  apply filterMap_served
  intro suite a
  cases a with
  | request | readDone | connect | disconnect | sensor | timer | sample | deliver => rfl

theorem latest_readingOf_served (i : ℕ)
    (suite : Suite Socket Request Data Tab Settings Imu Press Pose)
    (as : List (Action Socket Request Data Sample)) :
    latest (CTDSensorSuite.readingOf i) (served lib tab suite as) = latest (readingOf i) as := by
  refine congrArg List.getLast? (filterMap_served (fun suite a => ?_) suite as)
  cases a with
  | sensor j v =>
      by_cases hj : j = i
      · simp [processActions, CTDSensorSuite.readingOf, readingOf, hj]
      · simp [processActions, CTDSensorSuite.readingOf, readingOf, hj]
  | request | readDone | connect | disconnect | timer | sample | deliver => rfl

/-- What the server is served in a step. -/
theorem mem_served {I : Suite Socket Request Data Tab Settings Imu Press Pose → Prop}
    {P : Action Socket Request Data Sample → Prop} {Q : Server.Action Socket → Prop}
    (hI : ∀ suite a, I suite → suite.Enabled a → I (suite.step lib tab a).1)
    (hQ : ∀ suite a, I suite → P a → ∀ action, .serve action ∈ processActions lib suite a →
      Q action)
    {suite : Suite Socket Request Data Tab Settings Imu Press Pose}
    {as : List (Action Socket Request Data Sample)} (h : (machine lib tab).Admissible suite as)
    (hP : ∀ a ∈ as, P a) (hs : I suite) :
    ∀ action ∈ served lib tab suite as, Q action := by
  have hprocess : ∀ b ∈ (processSimulation lib tab).traceAlong suite as,
      ∀ action, b = .serve action → Q action := by
    refine (processSimulation lib tab).forall_mem_traceAlong hI ?_ h hP hs
    rintro suite a hs ha b hb action rfl
    exact hQ suite a hs ha action hb
  have hadm := (processSimulation lib tab).admissible_traceAlong h
    (Machine.along_of_forall _ (fun _ _ => trivial) suite as)
  refine Process.serverSimulation.forall_mem_traceAlong (I := fun _ => True)
    (fun _ _ _ _ => trivial) ?_ hadm hprocess trivial
  intro p b _ hb action haction
  cases b with
  | serve c => exact hb action (List.mem_singleton.1 haction ▸ rfl)
  | request | readDone => cases haction

theorem bridge_after {as : List (Action Socket Request Data Sample)}
    (h : (machine lib tab).Admissible
      (init lib : Suite Socket Request Data Tab Settings Imu Press Pose) as) :
    ((machine lib tab).after (init lib) as).BridgeReached lib :=
  ⟨_, ((bridgeSimulation lib tab).after_traceAlong h
    (Machine.along_of_forall _ (fun _ _ => trivial) _ as)).symm⟩

/-- Every tick carries the pose stored when the bridge was loaded. -/
theorem pose_served {suite : Suite Socket Request Data Tab Settings Imu Press Pose}
    {as : List (Action Socket Request Data Sample)} (h : (machine lib tab).Admissible suite as)
    (hs : suite.BridgeReached lib) :
    ∀ action ∈ served lib tab suite as, ∀ t pose depth, action = .tick t pose depth →
      pose = lib.displayDegrees "Fused Pose in Degrees"
        (lib.imu.stored (ImuCppBridge.init lib).interface.imu).fusionPose := by
  refine mem_served (I := BridgeReached lib) (P := fun _ => True) ?_ ?_ h (fun _ _ => trivial) hs
  · intro suite a hreached ha
    rcases hreached with ⟨bs, hbs⟩
    refine ⟨bs ++ bridgeActions a, ?_⟩
    rw [Machine.after_append, ← hbs]
    exact ((bridgeSimulation lib tab).after_trace suite a ha trivial).symm
  · intro suite a hreached _ action hmem t pose depth haction
    rcases hreached with ⟨bs, hbs⟩
    subst haction
    cases a with
    | timer s =>
        have hpose : pose = (suite.bridge.getIMUPoseData lib).1 :=
          (Server.Action.tick.inj (Process.Action.serve.inj (List.mem_singleton.1 hmem))).2.1
        rw [hpose, hbs, ImuCppBridge.getIMUPoseData_after]
    | request | readDone | connect | disconnect | sensor => cases List.mem_singleton.1 hmem
    | sample | deliver => cases hmem

/-! ### A connected client -/

section

variable {as : List (Action Socket Request Data Sample)}
  (h : (machine lib tab).Admissible
    (init lib : Suite Socket Request Data Tab Settings Imu Press Pose) as)
include h

/-- While a client is connected no read has failed. -/
theorem readsWell_of_connected {socket : Socket}
    (hc : socket ∈ ((machine lib tab).after (init lib) as).process.server.connected) :
    Process.machine.Along Process.ReadsWell Process.init
      ((processSimulation lib tab).traceAlong (init lib) as) := by
  have hall : (machine lib tab).Along (processSimulation lib tab).allowed (init lib) as :=
    Machine.along_of_forall _ (fun _ _ => trivial) _ as
  have hadm := (processSimulation lib tab).admissible_traceAlong h hall
  rw [Process.along_readsWell_iff]
  intro req e hmem
  have hrun := Process.not_running_after hadm hmem
  rw [show Process.init = (processSimulation lib tab).abs (init lib) from rfl,
    (processSimulation lib tab).after_traceAlong h hall] at hrun
  have hgone := (conserved_after lib tab h socket).serving.gone hrun
  rw [hgone] at hc
  cases hc

/-- The server has been served admissible actions, and what it emits for them is what
was emitted in the suite. -/
theorem served_of_connected {socket : Socket}
    (hc : socket ∈ ((machine lib tab).after (init lib) as).process.server.connected) :
    Server.machine.Admissible Server.init (served lib tab (init lib) as) ∧
      emittedOn socket ((machine lib tab).outputs (init lib) as) =
        Server.messagesTo socket
          (Server.machine.outputs Server.init (served lib tab (init lib) as)) := by
  have hall : (machine lib tab).Along (processSimulation lib tab).allowed (init lib) as :=
    Machine.along_of_forall _ (fun _ _ => trivial) _ as
  have hadm := (processSimulation lib tab).admissible_traceAlong h hall
  have hwell := readsWell_of_connected h hc
  refine ⟨Process.serverSimulation.admissible_traceAlong hadm hwell, ?_⟩
  have houtputs := Process.serverSimulation.outputs_traceAlong hadm hwell
  rw [(processSimulation lib tab).outputs_traceAlong h hall] at houtputs
  exact congrArg (Server.messagesTo socket) houtputs.symm

end

/-! ### The page of a client -/

section

variable {socket : Socket} {pre mid : List (Action Socket Request Data Sample)}
  (h : (machine lib tab).Admissible
    (init lib : Suite Socket Request Data Tab Settings Imu Press Pose)
    (pre ++ .connect socket :: mid))
  (halone : ∀ s, tab s = tab socket → s = socket)
  (hc : socket ∈ ((machine lib tab).after (init lib)
    (pre ++ .connect socket :: mid)).process.server.connected)
  (hflight : ((machine lib tab).after (init lib)
    (pre ++ .connect socket :: mid)).inFlight socket = [])
  (hkit : ∀ a ∈ mid, IsKitReading a)
include h halone hc hflight hkit

/-- The rows of a page that has caught up with its only socket. -/
theorem rows_caughtUp :
    (((machine lib tab).after (init lib) (pre ++ .connect socket :: mid)).pages
        (tab socket)).rows =
      Page.block fun id =>
        latest (cellOf (fun i => (conversion i)^[(clients pre).length + 1]) socket id)
          (served lib tab ((machine lib tab).after (init lib) (pre ++ [.connect socket])) mid) := by
  have hpre := ((Machine.admissible_append _ _ _ _).1 h).1
  obtain ⟨hconn, hmid⟩ := (Machine.admissible_append_cons _ _ _ _ _).1 h
  have hsplit : served lib tab (init lib) (pre ++ .connect socket :: mid) =
      served lib tab (init lib) pre ++ .connect socket ::
        served lib tab ((machine lib tab).after (init lib) (pre ++ [.connect socket])) mid := by
    rw [← List.singleton_append, ← List.append_assoc, served_append hconn, served_append hpre,
      List.append_assoc]
    rfl
  have htab : ∀ s, tab s = tab socket ↔ s = socket := fun s =>
    ⟨halone s, fun hs => congrArg tab hs⟩
  have harrived := arrived_append_inFlight lib tab h hc
  rw [hflight, List.append_nil] at harrived
  obtain ⟨hserved, hemitted⟩ := served_of_connected h hc
  rw [hsplit] at hserved hemitted
  have hservedKit : ∀ action ∈
      served lib tab ((machine lib tab).after (init lib) (pre ++ [.connect socket])) mid,
      CTDSensorSuite.IsKitReading action := by
    refine mem_served (I := fun _ => True) (fun _ _ _ _ => trivial) ?_
      hmid hkit trivial
    intro suite a _ ha action haction
    cases a with
    | sensor i v =>
        obtain rfl := Process.Action.serve.inj (List.mem_singleton.1 haction)
        exact ha
    | connect | disconnect | timer =>
        obtain rfl := Process.Action.serve.inj (List.mem_singleton.1 haction)
        trivial
    | request | readDone => cases List.mem_singleton.1 haction
    | sample | deliver => cases haction
  rw [pages_after lib tab h, arrived_congr htab, harrived, hemitted,
    rows_session hserved hservedKit, connections_served]

/-- The row of a channel shows the latest reading of the channel since the connection,
converted once for the client and once for each client before it. -/
theorem channel_caughtUp {row : Row}
    (hrow : row ∈ (((machine lib tab).after (init lib)
      (pre ++ .connect socket :: mid)).pages (tab socket)).rows) (hid : row.id ≤ 7) :
    row.cell = (latest (readingOf row.id) mid).map fun v =>
      .number ((conversion row.id)^[(clients pre).length + 1] v) := by
  rw [rows_caughtUp h halone hc hflight hkit] at hrow
  obtain ⟨r, -, rfl⟩ := List.mem_map.1 hrow
  have hchannel : r.2 ≤ 7 := hid
  refine (latest_congr fun a _ => cellOf_of_ne _ socket (by omega) (by omega) a).trans ?_
  rw [latest_map, latest_readingOf_served]

/-- The row of the pose is blank or shows the pose stored when the bridge was loaded. -/
theorem pose_caughtUp {row : Row}
    (hrow : row ∈ (((machine lib tab).after (init lib)
      (pre ++ .connect socket :: mid)).pages (tab socket)).rows) (hid : row.id = 8) :
    row.cell = none ∨ row.cell = some (.string (lib.displayDegrees "Fused Pose in Degrees"
      (lib.imu.stored (ImuCppBridge.init lib).interface.imu).fusionPose)) := by
  rw [rows_caughtUp h halone hc hflight hkit] at hrow
  obtain ⟨⟨name, id⟩, -, rfl⟩ := List.mem_map.1 hrow
  obtain rfl : id = 8 := hid
  cases hcell : latest (cellOf (fun i => (conversion i)^[(clients pre).length + 1]) socket 8)
      (served lib tab ((machine lib tab).after (init lib) (pre ++ [.connect socket])) mid) with
  | none => exact Or.inl hcell
  | some value =>
      obtain ⟨action, hmem, hvalue⟩ := exists_of_latest_eq_some hcell
      obtain ⟨hconn, hmid⟩ := (Machine.admissible_append_cons _ _ _ _ _).1 h
      cases action with
      | connect | disconnect | sensor => cases hvalue
      | tick t pose depth =>
          have hpose := pose_served hmid (bridge_after hconn) _ hmem t pose depth rfl
          obtain ⟨imu, himu, rfl⟩ := Option.map_eq_some_iff.1 hvalue
          rw [imuOf] at himu
          split at himu
          · obtain rfl := Option.some.inj himu
            exact Or.inr (hcell.trans (congrArg (fun s => some (JsValue.string s)) hpose))
          · cases himu

end

end Suite

end CTDSensorSuite

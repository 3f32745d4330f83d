import CTDSensorSuite.Reactive.Dispatch
import CTDSensorSuite.Reactive.Machine
import CTDSensorSuite.Server.Message
import Mathlib.Tactic.Tauto

/-!
# The connection handler of the server

The state of the running server is what its callbacks leave in the process: the
sockets that `io` has handed out and the ones still connected, the `sensor`
listeners on the shared kit object `pik` in the order of their registration, and
the interval timers. A listener or a timer callback is a closure of the
connection that made it, so it is given by the socket that it captured.

The actions are the events the process reacts to: a client connects or
disconnects, the kit reports a reading, an interval timer fires. What the two
calls of the IMU bridge return is an input of the tick. A client comes with a
fresh socket, only a connected client disconnects, and only a timer that exists
fires; a disconnected socket leaves the listeners and the timers as they are,
because no code removes them.
-/

namespace CTDSensorSuite

/-- An interval timer: the socket its callback captured, and its period in
milliseconds. -/
structure Timer (Socket : Type*) where
  socket : Socket
  period : ℕ
  deriving DecidableEq

/-- The state of the running server. -/
@[ext] structure Server (Socket : Type*) where
  /-- The sockets that `io` has handed out so far, in order. -/
  handed : List Socket
  /-- The sockets whose client is connected. -/
  connected : List Socket
  /-- The `sensor` listeners on `pik`, in the order of registration. -/
  listeners : List Socket
  /-- The interval timers, in the order in which they were set. -/
  timers : List (Timer Socket)

namespace Server

/-- What the server process reacts to. -/
inductive Action (Socket : Type*) where
  | connect (socket : Socket)
  | disconnect (socket : Socket)
  | sensor (index : ℕ) (value : ℚ)
  /-- The timer of `socket` fires; the bridge returns `pose` and `depth`. -/
  | tick (socket : Socket) (pose : String) (depth : ℚ)
  deriving DecidableEq

/-- What the server process does to its surroundings. -/
inductive Output (Socket : Type*) where
  | consoleLog (line : String)
  | openKit (host : String) (port : ℕ)
  | getIMUPoseData
  | getIMUDepthData
  /-- A closure of the connection of `owner` emits on `socket`. -/
  | emit (owner socket : Socket) (message : Message)
  deriving DecidableEq

variable {Socket : Type*}

/-- The server before its first client. -/
def init : Server Socket := ⟨[], [], [], []⟩

/-- The handler of `'connection'`. -/
def connectionHandler (socket : Socket) (server : Server Socket) :
    Server Socket × List (Output Socket) :=
  -- value in ms
  let imuInterval := 250
  let server := { server with listeners := server.listeners ++ [socket] }
  let server := { server with timers := server.timers ++ [⟨socket, imuInterval⟩] }
  (server,
    [.consoleLog "\nServer listening on localhost:8080\n\n",
      .openKit "localhost" 8888,
      .emit socket socket (.sensors 0)])

/-- The `sensor` listener that the connection of `socket` registers: it writes the
converted value back into the data object and emits it. -/
def sensorListener (socket : Socket) (data : SensorData) :
    SensorData × List (Output Socket) :=
  let data := data.calculate
  (data, [.emit socket socket (.values data.index (.number data.value))])

/-- The interval callback of the connection of `socket`. -/
def intervalCallback (socket : Socket) (pose : String) (depth : ℚ) :
    List (Output Socket) :=
  [.getIMUPoseData, .emit socket socket (.values 8 (.string pose)),
    .getIMUDepthData, .emit socket socket (.values 9 (.number depth))]

/-- The sockets of the clients that connect in a run, in order. -/
def connections (actions : List (Action Socket)) : List Socket :=
  actions.filterMap fun
    | .connect socket => some socket
    | _ => none

@[simp] theorem connections_append (as as' : List (Action Socket)) :
    connections (as ++ as') = connections as ++ connections as' :=
  List.filterMap_append

theorem mem_connections {as : List (Action Socket)} {socket : Socket} :
    socket ∈ connections as ↔ .connect socket ∈ as := by
  rw [connections, List.mem_filterMap]
  constructor
  · intro h
    rcases h with ⟨a, ha, h⟩
    cases a with
    | connect s =>
        obtain rfl : s = socket := Option.some.inj h
        exact ha
    | disconnect | sensor | tick => cases h
  · intro h
    exact ⟨_, h, rfl⟩

/-- Dispatching a reading: the listener at place `n` reports it converted `n + 1`
times over. -/
theorem dispatch_sensorListener (sockets : List Socket) (i : ℕ) (v : ℚ) :
    Reactive.dispatch sensorListener sockets ⟨i, v⟩ =
      (⟨i, (conversion i)^[sockets.length] v⟩,
        sockets.mapIdx fun n socket =>
          .emit socket socket (.values i (.number ((conversion i)^[n + 1] v)))) := by
  let report (socket : Socket) (data : SensorData) : Output Socket :=
    .emit socket socket (.values data.index (.number data.value))
  have hcall : ∀ socket data, sensorListener socket data =
      (data.calculate, [report socket data.calculate]) := fun _ _ => rfl
  have h := Reactive.dispatch_uniform hcall sockets ⟨i, v⟩
  simpa only [SensorData.iterate_calculate] using h

variable [DecidableEq Socket]

/-- What the surroundings may do. -/
def Enabled (server : Server Socket) : Action Socket → Prop
  | .connect socket => socket ∉ server.handed
  | .disconnect socket => socket ∈ server.connected
  | .sensor _ _ => True
  | .tick socket _ _ => socket ∈ server.timers.map Timer.socket

instance (server : Server Socket) : ∀ action, Decidable (server.Enabled action)
  | .connect socket => inferInstanceAs (Decidable (socket ∉ server.handed))
  | .disconnect socket => inferInstanceAs (Decidable (socket ∈ server.connected))
  | .sensor _ _ => inferInstanceAs (Decidable True)
  | .tick socket _ _ => inferInstanceAs (Decidable (socket ∈ server.timers.map Timer.socket))

/-- How the process reacts. -/
def step (server : Server Socket) : Action Socket → Server Socket × List (Output Socket)
  | .connect socket =>
      connectionHandler socket
        { server with
          handed := server.handed ++ [socket]
          connected := server.connected ++ [socket] }
  | .disconnect socket => ({ server with connected := server.connected.erase socket }, [])
  | .sensor index value =>
      (server, (Reactive.dispatch sensorListener server.listeners ⟨index, value⟩).2)
  | .tick socket pose depth => (server, intervalCallback socket pose depth)

/-- The server as a reactive machine. -/
def machine : Reactive.Machine (Server Socket) (Action Socket) (Output Socket) where
  enabled := Enabled
  step := step

instance (server : Server Socket) (action : Action Socket) :
    Decidable (machine.enabled server action) :=
  inferInstanceAs (Decidable (server.Enabled action))

/-- The message an output puts on `socket`, if any. -/
def messageTo (socket : Socket) : Output Socket → Option Message
  | .emit _ target message => if target = socket then some message else none
  | _ => none

/-- The messages emitted on `socket`, in order. -/
def messagesTo (socket : Socket) (outputs : List (Output Socket)) : List Message :=
  outputs.filterMap (messageTo socket)

/-! ### One step -/

@[simp] theorem machine_enabled (server : Server Socket) (action : Action Socket) :
    machine.enabled server action = server.Enabled action := rfl

@[simp] theorem machine_step (server : Server Socket) (action : Action Socket) :
    machine.step server action = server.step action := rfl

@[simp] theorem step_connect (server : Server Socket) (socket : Socket) :
    server.step (.connect socket) =
      (⟨server.handed ++ [socket], server.connected ++ [socket],
          server.listeners ++ [socket], server.timers ++ [⟨socket, 250⟩]⟩,
        [.consoleLog "\nServer listening on localhost:8080\n\n", .openKit "localhost" 8888,
          .emit socket socket (.sensors 0)]) := rfl

@[simp] theorem step_disconnect (server : Server Socket) (socket : Socket) :
    server.step (.disconnect socket) =
      (⟨server.handed, server.connected.erase socket, server.listeners, server.timers⟩, []) :=
  rfl

@[simp] theorem step_tick (server : Server Socket) (socket : Socket) (pose : String)
    (depth : ℚ) :
    server.step (.tick socket pose depth) = (server, intervalCallback socket pose depth) := rfl

theorem step_sensor (server : Server Socket) (i : ℕ) (v : ℚ) :
    server.step (.sensor i v) =
      (server,
        server.listeners.mapIdx fun n socket =>
          .emit socket socket (.values i (.number ((conversion i)^[n + 1] v)))) :=
  congrArg (Prod.mk server) (congrArg Prod.snd (dispatch_sensorListener server.listeners i v))

/-- What a reading emits: each listener once, on its own socket. -/
theorem emit_mem_step_sensor {server : Server Socket} {i : ℕ} {v : ℚ} {owner socket : Socket}
    {message : Message} :
    .emit owner socket message ∈ (server.step (.sensor i v)).2 ↔
      owner = socket ∧ ∃ n, server.listeners[n]? = some socket ∧
        message = .values i (.number ((conversion i)^[n + 1] v)) := by
  rw [step_sensor, List.mem_mapIdx]
  constructor
  · intro h
    rcases h with ⟨n, hn, h⟩
    obtain ⟨rfl, rfl, rfl⟩ := Output.emit.inj h
    exact ⟨rfl, n, List.getElem?_eq_getElem hn, rfl⟩
  · intro h
    rcases h with ⟨rfl, n, hn, rfl⟩
    obtain ⟨hlt, rfl⟩ := List.getElem?_eq_some_iff.1 hn
    exact ⟨n, hlt, rfl⟩

/-- What a tick emits: two messages on the socket of its timer. -/
theorem emit_mem_step_tick {server : Server Socket} {t : Socket} {pose : String} {depth : ℚ}
    {owner socket : Socket} {message : Message} :
    .emit owner socket message ∈ (server.step (.tick t pose depth)).2 ↔
      owner = t ∧ socket = t ∧
        (message = .values 8 (.string pose) ∨ message = .values 9 (.number depth)) := by
  simp only [step_tick, intervalCallback, List.mem_cons, Output.emit.injEq, reduceCtorEq,
    List.not_mem_nil, or_false, false_or]
  tauto

/-- Every closure emits on the socket of its own connection. -/
theorem emit_owner {server : Server Socket} {a : Action Socket} {owner socket : Socket}
    {message : Message} (h : .emit owner socket message ∈ (server.step a).2) :
    owner = socket := by
  cases a with
  | connect s =>
      simp only [step_connect, List.mem_cons, Output.emit.injEq, reduceCtorEq,
        List.not_mem_nil, or_false, false_or] at h
      exact h.1.trans h.2.1.symm
  | disconnect s => cases h
  | sensor i v => exact (emit_mem_step_sensor.1 h).1
  | tick t pose depth =>
      obtain ⟨ho, hs, -⟩ := emit_mem_step_tick.1 h
      exact ho.trans hs.symm

@[simp] theorem messagesTo_append (socket : Socket) (os os' : List (Output Socket)) :
    messagesTo socket (os ++ os') = messagesTo socket os ++ messagesTo socket os' :=
  List.filterMap_append

end Server

end CTDSensorSuite

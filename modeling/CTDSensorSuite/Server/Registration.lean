import CTDSensorSuite.Server.Connection
import Mathlib.Data.List.Nodup

/-!
# Who owns a listener and a timer

Every connection registers one listener and sets one timer, and nothing ever
removes either: in a reachable state the listeners and the timers are those of
the sockets handed out so far, in the order of connection (`Registered`). The
connected sockets are some of these. They are all of them exactly as long as no
client has disconnected, and from the first disconnection on the listener and
the timer of the lost socket stay behind.
-/

namespace CTDSensorSuite

namespace Server

variable {Socket : Type*}

/-- What holds of the registrations in every reachable state. -/
structure Registered (server : Server Socket) : Prop where
  listeners_eq : server.listeners = server.handed
  timers_eq : server.timers = server.handed.map fun socket => ⟨socket, 250⟩
  connected_sublist : server.connected.Sublist server.handed
  handed_nodup : server.handed.Nodup

theorem registered_init : Registered (init : Server Socket) :=
  ⟨rfl, rfl, List.Sublist.slnil, List.nodup_nil⟩

theorem Registered.timers_socket {server : Server Socket} (h : server.Registered) :
    server.timers.map Timer.socket = server.handed := by
  rw [h.timers_eq, List.map_map]
  exact List.map_id _

variable [DecidableEq Socket]

theorem Registered.step {server : Server Socket} (h : server.Registered) (a : Action Socket)
    (ha : server.Enabled a) : (server.step a).1.Registered := by
  obtain ⟨hl, ht, hc, hn⟩ := h
  cases a with
  | connect socket =>
      have hfresh : socket ∉ server.handed := ha
      constructor
      · simp [hl]
      · simp [ht]
      · exact hc.append (List.Sublist.refl [socket])
      · exact hn.append (List.nodup_singleton socket) (by simpa using hfresh)
  | disconnect socket => exact ⟨hl, ht, List.erase_sublist.trans hc, hn⟩
  | sensor i v => exact ⟨hl, ht, hc, hn⟩
  | tick socket pose depth => exact ⟨hl, ht, hc, hn⟩

theorem registered_after {as : List (Action Socket)} (h : machine.Admissible init as) :
    (machine.after init as).Registered :=
  h.invariant (fun _ a hs ha => hs.step a ha) registered_init

/-- The sockets handed out are those of the connections made. -/
theorem handed_after (server : Server Socket) (as : List (Action Socket)) :
    (machine.after server as).handed = server.handed ++ connections as := by
  induction as generalizing server with
  | nil => simp [connections]
  | cons a as ih =>
      rw [Reactive.Machine.after_cons, ih]
      cases a with
      | connect socket => simp [connections]
      | disconnect | sensor | tick => rfl

/-! ### Lost sockets -/

/-- Without disconnections every socket handed out stays connected. -/
theorem connected_eq_handed {as : List (Action Socket)}
    (has : ∀ socket, .disconnect socket ∉ as) {server : Server Socket}
    (h : server.connected = server.handed) :
    (machine.after server as).connected = (machine.after server as).handed := by
  induction as generalizing server with
  | nil => exact h
  | cons a as ih =>
      apply ih fun socket hs => has socket (List.mem_cons_of_mem a hs)
      cases a with
      | connect socket => simp [h]
      | disconnect socket => exact absurd List.mem_cons_self (has socket)
      | sensor | tick => exact h

/-- The socket was handed out and its client is gone. -/
def Lost (socket : Socket) (server : Server Socket) : Prop :=
  socket ∈ server.handed ∧ socket ∉ server.connected

theorem Lost.step {socket : Socket} {server : Server Socket} (h : server.Lost socket)
    (a : Action Socket) (ha : server.Enabled a) : (server.step a).1.Lost socket := by
  obtain ⟨hh, hc⟩ := h
  cases a with
  | connect other =>
      have hne : socket ≠ other := fun heq => ha (heq ▸ hh)
      exact ⟨List.mem_append_left _ hh, by simp [hc, hne]⟩
  | disconnect other => exact ⟨hh, fun hm => hc (List.mem_of_mem_erase hm)⟩
  | sensor | tick => exact ⟨hh, hc⟩

/-- A socket whose client has disconnected is lost for the rest of the run. -/
theorem lost_after {as : List (Action Socket)} (h : machine.Admissible init as)
    {socket : Socket} (hd : .disconnect socket ∈ as) :
    (machine.after init as).Lost socket := by
  obtain ⟨pre, post, rfl⟩ := List.append_of_mem hd
  rw [Reactive.Machine.admissible_append, Reactive.Machine.admissible_cons] at h
  obtain ⟨hpre, hen, hpost⟩ := h
  have hreg := registered_after hpre
  rw [Reactive.Machine.after_append, Reactive.Machine.after_cons]
  apply hpost.invariant (fun _ a hs ha => hs.step a ha)
  constructor
  · exact hreg.connected_sublist.subset hen
  · exact (hreg.handed_nodup.sublist hreg.connected_sublist).not_mem_erase

/-! ### Released resources -/

/-- Whether an output is a call of the IMU bridge. -/
def Output.isImuRead : Output Socket → Bool
  | .getIMUPoseData => true
  | .getIMUDepthData => true
  | _ => false

/-- The ticks of one interval, in which every timer fires once. -/
def intervalTicks (server : Server Socket) (pose : Socket → String) (depth : Socket → ℚ) :
    List (Action Socket) :=
  server.timers.map fun t => .tick t.socket (pose t.socket) (depth t.socket)

/-- Ticks leave the state alone, and each of them reads the IMU twice. -/
theorem countP_outputs_ticks (server : Server Socket) (pose : Socket → String)
    (depth : Socket → ℚ) (ts : List (Timer Socket)) :
    (machine.outputs server
        (ts.map fun t => .tick t.socket (pose t.socket) (depth t.socket))).countP
      Output.isImuRead = 2 * ts.length := by
  induction ts with
  | nil => rfl
  | cons t ts ih =>
      rw [List.map_cons, Reactive.Machine.outputs_cons, List.countP_append, machine_step,
        step_tick, ih, List.length_cons]
      simp only [intervalCallback, List.countP_cons, List.countP_nil, Output.isImuRead]
      simp only [Bool.false_eq_true, if_true, if_false]
      omega

/-- The resources of the process are those of the connected clients: each
connected socket owns one listener and one timer, nothing is owned or served on
behalf of another socket, and an interval costs two IMU reads for each client. -/
structure Released (server : Server Socket) : Prop where
  listeners_nodup : server.listeners.Nodup
  mem_listeners : ∀ socket, socket ∈ server.listeners ↔ socket ∈ server.connected
  timers_nodup : (server.timers.map Timer.socket).Nodup
  mem_timers : ∀ socket, socket ∈ server.timers.map Timer.socket ↔ socket ∈ server.connected
  sensor_emits : ∀ i v owner socket message,
    .emit owner socket message ∈ (server.step (.sensor i v)).2 → socket ∈ server.connected
  tick_emits : ∀ t pose depth, server.Enabled (.tick t pose depth) → ∀ owner socket message,
    .emit owner socket message ∈ (server.step (.tick t pose depth)).2 →
      socket ∈ server.connected
  imuReads : ∀ pose depth,
    (machine.outputs server (server.intervalTicks pose depth)).countP Output.isImuRead =
      2 * server.connected.length

/-- In a state whose registrations are in order and whose clients are all still
connected, the resources are released. -/
theorem Registered.released {server : Server Socket} (h : server.Registered)
    (hc : server.connected = server.handed) : server.Released where
  listeners_nodup := h.listeners_eq ▸ h.handed_nodup
  mem_listeners := fun socket => by rw [h.listeners_eq, hc]
  timers_nodup := h.timers_socket ▸ h.handed_nodup
  mem_timers := fun socket => by rw [h.timers_socket, hc]
  sensor_emits := by
    intro i v owner socket message hm
    obtain ⟨-, n, hn, -⟩ := emit_mem_step_sensor.1 hm
    rw [hc, ← h.listeners_eq]
    exact List.mem_of_getElem? hn
  tick_emits := by
    intro t pose depth ht owner socket message hm
    obtain ⟨-, rfl, -⟩ := emit_mem_step_tick.1 hm
    rw [hc, ← h.timers_socket]
    exact ht
  imuReads := by
    intro pose depth
    rw [intervalTicks, countP_outputs_ticks, hc, h.timers_eq, List.length_map]

/-- The resources are those of the connected clients in the state that a run
reaches exactly when no client has disconnected in it. -/
theorem released_after_iff {as : List (Action Socket)} (h : machine.Admissible init as) :
    (machine.after init as).Released ↔ ∀ socket, .disconnect socket ∉ as := by
  have hreg := registered_after h
  constructor
  · intro hrel socket hd
    obtain ⟨hh, hc⟩ := lost_after h hd
    rw [← hreg.listeners_eq] at hh
    exact hc ((hrel.mem_listeners socket).1 hh)
  · intro has
    exact hreg.released (connected_eq_handed has rfl)

/-- The condition is met by a client that connects and stays, with a reading and a
tick served meanwhile. -/
theorem released_after_iff_one_client :
    (machine.after init
      [.connect 0, .sensor 7 3, .tick 0 "level" 0, .connect 1]).Released ↔
      ∀ socket : ℕ, .disconnect socket ∉
        ([.connect 0, .sensor 7 3, .tick 0 "level" 0, .connect 1] : List (Action ℕ)) :=
  released_after_iff (by decide)

/-- A client that connects and leaves keeps its listener. -/
theorem not_released_disconnect :
    machine.Admissible init ([.connect 0, .disconnect 0] : List (Action ℕ)) ∧
      ¬ (machine.after init ([.connect 0, .disconnect 0] : List (Action ℕ))).Released := by
  refine ⟨by decide, fun h => ?_⟩
  have hmem := (h.mem_listeners 0).1 (by decide)
  revert hmem
  decide

end Server

end CTDSensorSuite

import CTDSensorSuite.Server.Registration

/-!
# What a client is sent

From its connection on, a client is sent the greeting and then, for each later
step of the run, what `feedAt n` says of that step, where `n` is the number of
clients that connected before it: one message for each reading, with the reading
converted `n + 1` times over, and two messages for each tick of the client's own
timer. This is the whole of what is emitted on its socket (`messagesTo_session`);
before the connection there is nothing.

With the values left aside the feed does not depend on `n`, so every client is
sent every event once and in order. With the values it does, and the clients
agree on a reading exactly where there is one of them or a second conversion
changes nothing.
-/

namespace CTDSensorSuite

/-- A message with its values left aside. -/
inductive MessageKind where
  | sensors
  | values (id : ℕ)
  deriving DecidableEq

def Message.kind : Message → MessageKind
  | .sensors _ => .sensors
  | .values id _ => .values id

namespace Server

variable {Socket : Type*} [DecidableEq Socket]

/-- What a client with `n` clients before it is sent for an action. -/
def feedAt (n : ℕ) (socket : Socket) : Action Socket → List Message
  | .sensor i v => [.values i (.number ((conversion i)^[n + 1] v))]
  | .tick t pose depth =>
      if t = socket then [.values 8 (.string pose), .values 9 (.number depth)] else []
  | _ => []

/-- What a client is to be sent for an action, with the values left aside. -/
def announced (socket : Socket) : Action Socket → List MessageKind
  | .sensor i _ => [.values i]
  | .tick t _ _ => if t = socket then [.values 8, .values 9] else []
  | _ => []

theorem map_kind_feedAt (n : ℕ) (socket : Socket) (a : Action Socket) :
    (feedAt n socket a).map Message.kind = announced socket a := by
  cases a with
  | tick t pose depth =>
      by_cases ht : t = socket
      · simp [feedAt, announced, ht, Message.kind]
      · simp [feedAt, announced, ht]
  | connect | disconnect | sensor => rfl

theorem sensors_notMem_feedAt (n : ℕ) (socket : Socket) (a : Action Socket) {test : ℚ} :
    .sensors test ∉ feedAt n socket a := by
  cases a with
  | tick t pose depth =>
      by_cases ht : t = socket
      · simp [feedAt, ht]
      · simp [feedAt, ht]
  | connect | disconnect | sensor => simp [feedAt]

/-! ### One step -/

theorem messagesTo_sensorListener_self (socket : Socket) (data : SensorData) :
    messagesTo socket (sensorListener socket data).2 =
      [.values data.calculate.index (.number data.calculate.value)] := by
  simp [messagesTo, messageTo, sensorListener]

theorem messagesTo_sensorListener_of_ne {socket other : Socket} (h : other ≠ socket)
    (data : SensorData) : messagesTo socket (sensorListener other data).2 = [] := by
  simp [messagesTo, messageTo, sensorListener, h]

theorem messagesTo_intervalCallback (socket t : Socket) (pose : String) (depth : ℚ) :
    messagesTo socket (intervalCallback t pose depth) =
      if t = socket then [.values 8 (.string pose), .values 9 (.number depth)] else [] := by
  by_cases ht : t = socket
  · simp [messagesTo, List.filterMap_cons, messageTo, intervalCallback, ht]
  · simp [messagesTo, List.filterMap_cons, messageTo, intervalCallback, ht]

/-- Listeners of other sockets emit nothing on `socket`. -/
theorem messagesTo_dispatch_of_notMem {socket : Socket} {sockets : List Socket}
    (h : socket ∉ sockets) (data : SensorData) :
    messagesTo socket (Reactive.dispatch sensorListener sockets data).2 = [] := by
  apply Reactive.filterMap_dispatch_eq_nil
  intro other hother d
  exact messagesTo_sensorListener_of_ne (ne_of_mem_of_not_mem hother h) d

/-- The one listener of `socket` is called after the listeners registered before
it, on the value as they left it. -/
theorem messagesTo_dispatch {socket : Socket} {earlier later : List Socket}
    (he : socket ∉ earlier) (hl : socket ∉ later) (i : ℕ) (v : ℚ) :
    messagesTo socket
        (Reactive.dispatch sensorListener (earlier ++ socket :: later) ⟨i, v⟩).2 =
      [.values i (.number ((conversion i)^[earlier.length + 1] v))] := by
  rw [Reactive.dispatch_append, Reactive.dispatch_cons, messagesTo_append, messagesTo_append,
    messagesTo_dispatch_of_notMem he, messagesTo_dispatch_of_notMem hl,
    messagesTo_sensorListener_self, dispatch_sensorListener, SensorData.calculate_mk,
    Function.iterate_succ_apply']
  rfl

/-- The listeners of a client in a state: its own, after those of the clients
before it. -/
def Follows (earlier : List Socket) (socket : Socket) (server : Server Socket) : Prop :=
  server.Registered ∧ ∃ later, server.handed = earlier ++ socket :: later

theorem Follows.step {earlier : List Socket} {socket : Socket} {server : Server Socket}
    (h : Follows earlier socket server) (a : Action Socket) (ha : server.Enabled a) :
    Follows earlier socket (server.step a).1 := by
  obtain ⟨hreg, later, hh⟩ := h
  refine ⟨hreg.step a ha, ?_⟩
  cases a with
  | connect s => exact ⟨later ++ [s], by simp [hh]⟩
  | disconnect | sensor | tick => exact ⟨later, hh⟩

/-- One step sends a client what its feed says. -/
theorem Follows.messagesTo_step {earlier : List Socket} {socket : Socket}
    {server : Server Socket} (h : Follows earlier socket server) (a : Action Socket)
    (ha : server.Enabled a) :
    messagesTo socket (server.step a).2 = feedAt earlier.length socket a := by
  obtain ⟨hreg, later, hh⟩ := h
  have hnodup : (earlier ++ socket :: later).Nodup := hh ▸ hreg.handed_nodup
  have hmem : socket ∈ server.handed := by simp [hh]
  cases a with
  | connect s =>
      have hne : s ≠ socket := fun heq => ha (heq ▸ hmem)
      simp [messagesTo, List.filterMap_cons, messageTo, feedAt, hne]
  | disconnect s => rfl
  | sensor i v =>
      have hearlier : socket ∉ earlier := fun he =>
        List.disjoint_of_nodup_append hnodup he List.mem_cons_self
      have hlater : socket ∉ later :=
        (List.nodup_cons.1 (List.nodup_append'.1 hnodup).2.1).1
      change messagesTo socket
        (Reactive.dispatch sensorListener server.listeners ⟨i, v⟩).2 = _
      rw [hreg.listeners_eq, hh, messagesTo_dispatch hearlier hlater]
      rfl
  | tick t pose depth => exact messagesTo_intervalCallback socket t pose depth

theorem notMem_handed_step {socket : Socket} {server : Server Socket} {a : Action Socket}
    (hs : socket ∉ server.handed) (ha : a ≠ .connect socket) :
    socket ∉ (server.step a).1.handed := by
  cases a with
  | connect s =>
      have hne : socket ≠ s := fun heq => ha (heq ▸ rfl)
      simp [hs, hne]
  | disconnect | sensor | tick => exact hs

/-- One step emits nothing on a socket that is not handed out. -/
theorem messagesTo_step_of_notMem {socket : Socket} {server : Server Socket}
    (hreg : server.Registered) (hs : socket ∉ server.handed) {a : Action Socket}
    (hen : server.Enabled a) (ha : a ≠ .connect socket) :
    messagesTo socket (server.step a).2 = [] := by
  cases a with
  | connect s =>
      have hne : s ≠ socket := fun heq => ha (heq ▸ rfl)
      simp [messagesTo, List.filterMap_cons, messageTo, hne]
  | disconnect s => rfl
  | sensor i v =>
      have hl : socket ∉ server.listeners := hreg.listeners_eq ▸ hs
      exact messagesTo_dispatch_of_notMem hl ⟨i, v⟩
  | tick t pose depth =>
      have ht : t ∈ server.handed := hreg.timers_socket ▸ hen
      have hne : t ≠ socket := ne_of_mem_of_not_mem ht hs
      exact (messagesTo_intervalCallback socket t pose depth).trans (if_neg hne)

/-! ### A session -/

/-- Nothing is emitted on a socket before its connection. -/
theorem messagesTo_before {socket : Socket} {pre : List (Action Socket)}
    (h : machine.Admissible init pre) (hs : .connect socket ∉ pre) :
    messagesTo socket (machine.outputs init pre) = [] := by
  have hstep : ∀ (server : Server Socket) (a : Action Socket),
      (server.Registered ∧ socket ∉ server.handed) → server.Enabled a → a ≠ .connect socket →
        ((server.step a).1.Registered ∧ socket ∉ (server.step a).1.handed) ∧
          (server.step a).2.filterMap (messageTo socket) = [] := by
    intro server a hserver hen hne
    rcases hserver with ⟨hreg, hnot⟩
    exact ⟨⟨hreg.step a hen, notMem_handed_step hnot hne⟩,
      messagesTo_step_of_notMem hreg hnot hen hne⟩
  have hpre : ∀ a ∈ pre, a ≠ .connect socket := fun a ha heq => hs (heq ▸ ha)
  have hview := h.filterMap_outputs hstep hpre ⟨registered_init, List.not_mem_nil⟩
  exact hview.trans (List.flatMap_eq_nil_iff.2 fun _ _ => rfl)

/-- From its connection on, a client is sent the greeting and then its feed. -/
theorem messagesTo_session {socket : Socket} {pre mid : List (Action Socket)}
    (h : machine.Admissible init (pre ++ .connect socket :: mid)) :
    messagesTo socket
        (machine.outputs (machine.after init pre) (.connect socket :: mid)) =
      .sensors 0 :: mid.flatMap (feedAt (connections pre).length socket) := by
  rw [Reactive.Machine.admissible_append, Reactive.Machine.admissible_cons] at h
  obtain ⟨hpre, hen, hmid⟩ := h
  have hreg := registered_after hpre
  have hstart : Follows (connections pre) socket
      ((machine.after init pre).step (.connect socket)).1 := by
    refine ⟨hreg.step _ hen, [], ?_⟩
    rw [step_connect, handed_after]
    rfl
  have hstep : ∀ (server : Server Socket) (a : Action Socket),
      Follows (connections pre) socket server → server.Enabled a → True →
        Follows (connections pre) socket (server.step a).1 ∧
          (server.step a).2.filterMap (messageTo socket) =
            feedAt (connections pre).length socket a :=
    fun _ a hs ha _ => ⟨hs.step a ha, hs.messagesTo_step a ha⟩
  have hfeed := hmid.filterMap_outputs hstep (fun _ _ => trivial) hstart
  have hgreet : messagesTo socket ((machine.after init pre).step (.connect socket)).2 =
      [.sensors 0] := by
    simp [messagesTo, List.filterMap_cons, messageTo]
  rw [Reactive.Machine.outputs_cons, messagesTo_append, machine_step, hgreet]
  exact congrArg (List.cons (Message.sensors 0)) hfeed

/-- A socket is connected at most once: it does not occur before its connection. -/
theorem notMem_of_admissible_connect {socket : Socket} {pre mid : List (Action Socket)}
    (h : machine.Admissible init (pre ++ .connect socket :: mid)) : .connect socket ∉ pre := by
  rw [Reactive.Machine.admissible_append, Reactive.Machine.admissible_cons] at h
  intro hmem
  have hen : socket ∉ (machine.after init pre).handed := h.2.1
  rw [handed_after] at hen
  exact hen (List.mem_append_right _ (mem_connections.2 hmem))

/-- All that is emitted on a socket in a run is emitted from its connection on. -/
theorem messagesTo_run {socket : Socket} {pre mid : List (Action Socket)}
    (h : machine.Admissible init (pre ++ .connect socket :: mid)) :
    messagesTo socket (machine.outputs init (pre ++ .connect socket :: mid)) =
      messagesTo socket
        (machine.outputs (machine.after init pre) (.connect socket :: mid)) := by
  have hpre := ((Reactive.Machine.admissible_append machine init pre _).1 h).1
  rw [Reactive.Machine.outputs_append, messagesTo_append,
    messagesTo_before hpre (notMem_of_admissible_connect h), List.nil_append]

/-- Every closure emits on its own socket, in every step of every run. -/
theorem emit_owner_outputs {server : Server Socket} {as : List (Action Socket)}
    {owner socket : Socket} {message : Message}
    (h : .emit owner socket message ∈ machine.outputs server as) : owner = socket := by
  induction as generalizing server with
  | nil => cases h
  | cons a as ih =>
      rcases List.mem_append.1 h with hstep | hrest
      · exact emit_owner hstep
      · exact ih hrest

/-- Fan-out is exactly once, in order and isolated. In a run in which `socket`
connects after `pre`, nothing is emitted on it before. The messages emitted on it
in the stretch `mid` after its connection, up to its disconnection or to any other
point, are the greeting and then what is announced for each step of that stretch,
and each of them is emitted by a closure of its own connection. -/
theorem fanout_exactly_once {socket : Socket} {pre mid rest : List (Action Socket)}
    (h : machine.Admissible init (pre ++ .connect socket :: (mid ++ rest))) :
    messagesTo socket (machine.outputs init pre) = [] ∧
      (messagesTo socket
          (machine.outputs (machine.after init pre) (.connect socket :: mid))).map
        Message.kind = .sensors :: mid.flatMap (announced socket) ∧
      ∀ owner message,
        .emit owner socket message ∈
            machine.outputs init (pre ++ .connect socket :: (mid ++ rest)) →
          owner = socket := by
  have hmid : machine.Admissible init (pre ++ .connect socket :: mid) := by
    rw [← List.cons_append, ← List.append_assoc, Reactive.Machine.admissible_append] at h
    exact h.1
  have hpre : machine.Admissible init pre :=
    ((Reactive.Machine.admissible_append machine init pre _).1 hmid).1
  refine ⟨messagesTo_before hpre (notMem_of_admissible_connect hmid), ?_,
    fun _ _ hm => emit_owner_outputs hm⟩
  rw [messagesTo_session hmid, List.map_cons, List.map_flatMap]
  simp only [map_kind_feedAt]
  rfl

/-- Two clients come and one of them goes, with readings and ticks in between. -/
theorem fanout_exactly_once_two_clients :
    messagesTo 1 (machine.outputs init ([.sensor 2 5, .connect 0] : List (Action ℕ))) = [] ∧
      (messagesTo 1
          (machine.outputs (machine.after init ([.sensor 2 5, .connect 0] : List (Action ℕ)))
            (.connect 1 :: [.sensor 4 7, .tick 0 "p" 0, .tick 1 "q" 1]))).map
        Message.kind =
          .sensors :: [.sensor 4 7, .tick 0 "p" 0, .tick 1 "q" 1].flatMap (announced 1) ∧
      ∀ owner message,
        .emit owner 1 message ∈
            machine.outputs init ([.sensor 2 5, .connect 0] ++ .connect 1 ::
              ([.sensor 4 7, .tick 0 "p" 0, .tick 1 "q" 1] ++
                ([.disconnect 1, .sensor 3 3] : List (Action ℕ)))) →
          owner = 1 :=
  fanout_exactly_once (by decide)

/-! ### Agreement of the clients -/

/-- Every message emitted in response to a reading carries the index of its channel
and the raw value converted once. -/
def ClientIndependent (server : Server Socket) : Action Socket → Prop
  | .sensor i v => ∀ owner socket id value,
      .emit owner socket (.values id value) ∈ (server.step (.sensor i v)).2 →
        id = i ∧ value = .number (conversion i v)
  | _ => True

/-- A reading comes while at most one client has connected so far, or it is one
that a second conversion leaves alone. -/
def SingleOrSteady (server : Server Socket) : Action Socket → Prop
  | .sensor i v => server.handed.length ≤ 1 ∨ IsSteady i v
  | _ => True

/-- In one step the clients agree on a reading exactly where each repeated
conversion agrees with a single one. -/
theorem clientIndependent_sensor_iff (server : Server Socket) (i : ℕ) (v : ℚ) :
    server.ClientIndependent (.sensor i v) ↔
      ∀ n < server.listeners.length, (conversion i)^[n + 1] v = conversion i v := by
  constructor
  · intro h n hn
    have hmem : .emit server.listeners[n] server.listeners[n]
        (.values i (.number ((conversion i)^[n + 1] v))) ∈ (server.step (.sensor i v)).2 :=
      emit_mem_step_sensor.2 ⟨rfl, n, List.getElem?_eq_getElem hn, rfl⟩
    exact JsValue.number.inj (h _ _ _ _ hmem).2
  · intro h owner socket id value hm
    obtain ⟨-, n, hn, hmsg⟩ := emit_mem_step_sensor.1 hm
    obtain ⟨rfl, rfl⟩ := Message.values.inj hmsg
    obtain ⟨hlt, -⟩ := List.getElem?_eq_some_iff.1 hn
    exact ⟨rfl, congrArg JsValue.number (h n hlt)⟩

theorem Registered.clientIndependent_iff {server : Server Socket} (h : server.Registered)
    (a : Action Socket) : server.ClientIndependent a ↔ server.SingleOrSteady a := by
  cases a with
  | sensor i v =>
      rw [clientIndependent_sensor_iff, h.listeners_eq, Reactive.iterate_agree_iff,
        isFixedPt_conversion_iff]
      rfl
  | connect | disconnect | tick => exact Iff.rfl

/-- The values sent in a run depend on the readings alone exactly when every
reading of the run meets `SingleOrSteady`. -/
theorem clientIndependent_along_iff {as : List (Action Socket)}
    (h : machine.Admissible init as) :
    machine.Along ClientIndependent init as ↔ machine.Along SingleOrSteady init as :=
  h.along_congr (fun _ a hs ha => hs.step a ha) (fun _ a hs _ => hs.clientIndependent_iff a)
    registered_init

/-- One client sees all readings converted once; a second one changes nothing for
the channels that are not converted. -/
theorem clientIndependent_along_iff_light :
    machine.Along ClientIndependent init
        ([.connect 0, .sensor 4 512, .connect 1, .sensor 7 300] : List (Action ℕ)) ↔
      machine.Along SingleOrSteady init
        ([.connect 0, .sensor 4 512, .connect 1, .sensor 7 300] : List (Action ℕ)) :=
  clientIndependent_along_iff (by decide)

/-- With two clients a full-scale salinity reading is converted twice for the
second one. -/
theorem not_clientIndependent_two_clients :
    machine.Admissible init ([.connect 0, .connect 1, .sensor 6 1024] : List (Action ℕ)) ∧
      ¬ machine.Along ClientIndependent init
        ([.connect 0, .connect 1, .sensor 6 1024] : List (Action ℕ)) := by
  refine ⟨by decide, fun h => ?_⟩
  have hall := (clientIndependent_sensor_iff _ _ _).1 h.2.2.1
  have htwice : conversion 6 (conversion 6 1024) = conversion 6 1024 := hall 1 (by decide)
  rw [conversion_six, conversion_six] at htwice
  norm_num at htwice

end Server

end CTDSensorSuite

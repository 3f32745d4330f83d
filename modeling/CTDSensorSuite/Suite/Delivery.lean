import CTDSensorSuite.Suite.Suite

/-!
# From the sockets to the pages

Nothing is lost, doubled or overtaken on the way to a connected client: what has
arrived over its socket, followed by what is on its way, is what was emitted on it
(`arrived_append_inFlight`). Of what was emitted on the socket of a client that is
gone a first part has arrived (`arrived_prefix`). A page is at any time the loaded
page after what has arrived in its tab (`pages_after`), and a page whose socket is
connected can always catch up (`exists_caughtUp`).
-/

namespace CTDSensorSuite

open Reactive

namespace Suite

variable {Socket Request : Type*} {Data : Type} {Tab Settings Imu Press Sample Pose : Type*}
  (lib : RTIMULib Settings Imu Press Sample Pose) (tab : Socket → Tab)

section Histories

variable [DecidableEq Socket]

/-- The messages that have been emitted on `socket`, in order. -/
def emittedOn (socket : Socket) (os : List (Output Socket Request)) : List Message :=
  Server.messagesTo socket ((os.filterMap Output.ofProcess).filterMap Process.Output.served)

/-- The messages that have arrived over the sockets of which `here` holds, in order. -/
def arrived (here : Socket → Prop) [DecidablePred here] (os : List (Output Socket Request)) :
    List Message :=
  os.filterMap fun
    | .delivered socket message => if here socket then some message else none
    | .process _ | .bridge _ => none

@[simp] theorem emittedOn_append (socket : Socket) (os os' : List (Output Socket Request)) :
    emittedOn socket (os ++ os') = emittedOn socket os ++ emittedOn socket os' := by
  simp [emittedOn, List.filterMap_append]

omit [DecidableEq Socket] in
@[simp] theorem arrived_append (here : Socket → Prop) [DecidablePred here]
    (os os' : List (Output Socket Request)) :
    arrived here (os ++ os') = arrived here os ++ arrived here os' :=
  List.filterMap_append

omit [DecidableEq Socket] in
theorem arrived_congr {here here' : Socket → Prop} [DecidablePred here] [DecidablePred here']
    (h : ∀ socket, here socket ↔ here' socket) (os : List (Output Socket Request)) :
    arrived here os = arrived here' os := by
  apply List.filterMap_congr
  intro o _
  cases o with
  | process | bridge => rfl
  | delivered socket message => simp only [h socket]

omit [DecidableEq Socket] in
theorem arrived_eq_nil (here : Socket → Prop) [DecidablePred here]
    {os : List (Output Socket Request)} (h : ∀ socket message, .delivered socket message ∉ os) :
    arrived here os = [] := by
  apply List.filterMap_eq_nil_iff.2
  intro o ho
  cases o with
  | process | bridge => rfl
  | delivered socket message => exact absurd ho (h socket message)

omit [DecidableEq Socket] in
theorem arrived_calls (here : Socket → Prop) [DecidablePred here]
    (calls : List ImuCppBridge.Output) :
    arrived here (calls.map (Output.bridge : _ → Output Socket Request)) = [] := by
  apply arrived_eq_nil
  intro s message hmem
  obtain ⟨o, -, ho⟩ := List.mem_map.1 hmem
  cases ho

end Histories

variable [DecidableEq Socket] [DecidableEq Request]

/-! ### One step -/

theorem delivered_notMem_react (suite : Suite Socket Request Data Tab Settings Imu Press Pose)
    (a : Process.Action Socket Request Data) (socket : Socket) (message : Message) :
    .delivered socket message ∉ (suite.react a).2 := by
  intro h
  obtain ⟨o, -, ho⟩ := List.mem_map.1 h
  cases ho

theorem emittedOn_react (suite : Suite Socket Request Data Tab Settings Imu Press Pose)
    (a : Process.Action Socket Request Data) (socket : Socket) :
    emittedOn socket (suite.react a).2 =
      Server.messagesTo socket ((suite.process.step a).2.filterMap Process.Output.served) := by
  rw [emittedOn, react_ofProcess]

/-- What relates the messages of a socket to the state of the suite. -/
structure Conserved (socket : Socket)
    (suite : Suite Socket Request Data Tab Settings Imu Press Pose)
    (os : List (Output Socket Request)) : Prop where
  serving : suite.process.Serving
  of_connected : socket ∈ suite.process.server.connected →
    arrived (· = socket) os ++ suite.inFlight socket = emittedOn socket os
  of_new : socket ∉ suite.process.server.handed → emittedOn socket os = []
  isPrefix : arrived (· = socket) os ++ suite.inFlight socket <+: emittedOn socket os

omit [DecidableEq Request] in
theorem conserved_init (socket : Socket) :
    Conserved socket (init lib : Suite Socket Request Data Tab Settings Imu Press Pose) [] :=
  ⟨Process.serving_init, fun h => absurd h List.not_mem_nil, fun _ => rfl, List.nil_prefix⟩

theorem Conserved.react {socket : Socket}
    {suite : Suite Socket Request Data Tab Settings Imu Press Pose}
    {os : List (Output Socket Request)} (h : Conserved socket suite os)
    {a : Process.Action Socket Request Data} (ha : suite.process.Enabled a) :
    Conserved socket (suite.react a).1 (os ++ (suite.react a).2) := by
  have harrived : arrived (· = socket) (os ++ (suite.react a).2) = arrived (· = socket) os := by
    rw [arrived_append, arrived_eq_nil _ (delivered_notMem_react suite a), List.append_nil]
  have hemitted : emittedOn socket (os ++ (suite.react a).2) = emittedOn socket os ++
      Server.messagesTo socket ((suite.process.step a).2.filterMap Process.Output.served) := by
    rw [emittedOn_append, emittedOn_react]
  have hold : socket ∉ suite.process.server.handed →
      arrived (· = socket) os ++ suite.inFlight socket = emittedOn socket os := by
    intro hnew
    have hprefix := h.isPrefix
    rw [h.of_new hnew] at hprefix ⊢
    exact List.prefix_nil.1 hprefix
  have hconn : socket ∈ (suite.process.step a).1.server.connected →
      arrived (· = socket) os ++ (suite.react a).1.inFlight socket =
        emittedOn socket (os ++ (suite.react a).2) := by
    intro hc
    have hflight : (suite.react a).1.inFlight socket = suite.inFlight socket ++
        Server.messagesTo socket
          ((suite.process.step a).2.filterMap Process.Output.served) := if_pos hc
    rw [hflight, hemitted, ← List.append_assoc]
    rcases Process.connected_step ha hc with hbefore | hnew
    · rw [h.of_connected hbefore]
    · rw [hold hnew]
  constructor
  · exact h.serving.step a ha
  · intro hc
    rw [harrived]
    exact hconn hc
  · intro hnew
    have hnew' : socket ∉ suite.process.server.handed := fun hmem =>
      hnew (Process.handed_step suite.process a hmem)
    rw [hemitted, h.of_new hnew', h.serving.messagesTo_step ha hnew]
    rfl
  · rw [harrived]
    by_cases hc : socket ∈ (suite.process.step a).1.server.connected
    · exact (hconn hc).symm ▸ List.prefix_rfl
    · have hflight : (suite.react a).1.inFlight socket = [] := if_neg hc
      rw [hflight, List.append_nil, hemitted]
      exact ((List.prefix_append _ _).trans h.isPrefix).trans (List.prefix_append _ _)

omit [DecidableEq Request] in
/-- An arrival moves a message from what is on its way to what has arrived. -/
theorem arrived_deliver (suite : Suite Socket Request Data Tab Settings Imu Press Pose)
    [DecidableEq Tab] (s socket : Socket) :
    arrived (· = socket) (suite.deliver tab s).2 ++ (suite.deliver tab s).1.inFlight socket =
      suite.inFlight socket := by
  unfold deliver
  split
  · rfl
  · rename_i message rest hflight
    by_cases hs : s = socket
    · subst hs
      simp [arrived, hflight]
    · simp [arrived, hs, Function.update_of_ne (Ne.symm hs)]

omit [DecidableEq Request] in
theorem Conserved.deliver [DecidableEq Tab] {socket : Socket}
    {suite : Suite Socket Request Data Tab Settings Imu Press Pose}
    {os : List (Output Socket Request)} (h : Conserved socket suite os) (s : Socket) :
    Conserved socket (suite.deliver tab s).1 (os ++ (suite.deliver tab s).2) := by
  obtain ⟨hprocess, -, hprocessOut, -⟩ := deliver_parts tab suite s
  have hemitted : emittedOn socket (os ++ (suite.deliver tab s).2) = emittedOn socket os := by
    rw [emittedOn_append, emittedOn, emittedOn, hprocessOut]
    exact List.append_nil _
  have harrived : arrived (· = socket) (os ++ (suite.deliver tab s).2) ++
      (suite.deliver tab s).1.inFlight socket =
        arrived (· = socket) os ++ suite.inFlight socket := by
    rw [arrived_append, List.append_assoc, arrived_deliver]
  constructor
  · rw [hprocess]
    exact h.serving
  · intro hc
    rw [hprocess] at hc
    rw [harrived, hemitted, h.of_connected hc]
  · intro hnew
    rw [hprocess] at hnew
    rw [hemitted, h.of_new hnew]
  · rw [harrived, hemitted]
    exact h.isPrefix

omit [DecidableEq Request] in
/-- The bridge neither emits nor delivers. -/
theorem Conserved.calls {socket : Socket}
    {suite : Suite Socket Request Data Tab Settings Imu Press Pose}
    {os : List (Output Socket Request)} (h : Conserved socket suite os)
    (bridge : ImuCppBridge Settings Imu Press Pose) (calls : List ImuCppBridge.Output) :
    Conserved socket { suite with bridge := bridge } (os ++ calls.map .bridge) := by
  have harrived : arrived (· = socket)
      (calls.map (Output.bridge : _ → Output Socket Request)) = [] := arrived_calls _ calls
  have hemitted : emittedOn socket
      (calls.map (Output.bridge : _ → Output Socket Request)) = [] := by
    rw [emittedOn, ofProcess_map_bridge]
    rfl
  constructor
  · exact h.serving
  · simpa [harrived, hemitted] using h.of_connected
  · simpa [hemitted] using h.of_new
  · simpa [harrived, hemitted] using h.isPrefix

/-! ### A run -/

variable [DecidableEq Tab]

theorem Conserved.step {socket : Socket}
    {suite : Suite Socket Request Data Tab Settings Imu Press Pose}
    {os : List (Output Socket Request)} (h : Conserved socket suite os)
    {a : Action Socket Request Data Sample} (ha : suite.Enabled a) :
    Conserved socket (suite.step lib tab a).1 (os ++ (suite.step lib tab a).2) := by
  cases a with
  | request | readDone | connect | disconnect | sensor => exact h.react ha
  | timer s =>
      obtain ⟨pose, depth, bridge, calls, heq⟩ := fireTimer_cases lib suite s
      change Conserved socket (suite.fireTimer lib s).1 (os ++ (suite.fireTimer lib s).2)
      rw [heq, ← List.append_assoc]
      exact (h.calls bridge calls).react (a := .serve (.tick s pose depth)) ha
  | sample x => exact h.calls _ []
  | deliver s => exact h.deliver tab s

theorem conserved_after {as : List (Action Socket Request Data Sample)}
    (h : (machine lib tab).Admissible
      (init lib : Suite Socket Request Data Tab Settings Imu Press Pose) as) (socket : Socket) :
    Conserved socket ((machine lib tab).after (init lib) as)
      ((machine lib tab).outputs (init lib) as) :=
  h.history (J := Conserved socket) (fun _ _ _ hs ha => hs.step lib tab ha)
    (conserved_init lib socket)

/-- A step hands the page of a tab the message that arrives there, if one does. -/
theorem pages_step (suite : Suite Socket Request Data Tab Settings Imu Press Pose)
    (a : Action Socket Request Data Sample) (t : Tab) :
    (suite.step lib tab a).1.pages t =
      (suite.pages t).receiveAll (arrived (tab · = t) (suite.step lib tab a).2) := by
  have hreact : ∀ (suite : Suite Socket Request Data Tab Settings Imu Press Pose) b,
      arrived (tab · = t) (suite.react b).2 = [] := fun suite b =>
    arrived_eq_nil _ (delivered_notMem_react suite b)
  cases a with
  | request | readDone | connect | disconnect | sensor =>
      exact congrArg (suite.pages t).receiveAll (hreact suite _).symm
  | timer s =>
      obtain ⟨pose, depth, bridge, calls, heq⟩ := fireTimer_cases lib suite s
      change (suite.fireTimer lib s).1.pages t =
        (suite.pages t).receiveAll (arrived _ (suite.fireTimer lib s).2)
      rw [heq, arrived_append, hreact, arrived_calls]
      rfl
  | sample x => rfl
  | deliver s =>
      change (suite.deliver tab s).1.pages t =
        (suite.pages t).receiveAll (arrived _ (suite.deliver tab s).2)
      unfold deliver
      split
      · rfl
      · by_cases ht : tab s = t
        · subst ht
          simp [arrived, Page.receiveAll]
        · simp [arrived, Page.receiveAll, ht, Function.update_of_ne (Ne.symm ht)]

section

variable {as : List (Action Socket Request Data Sample)}
  (h : (machine lib tab).Admissible
    (init lib : Suite Socket Request Data Tab Settings Imu Press Pose) as)
include h

/-- What has arrived over the socket of a connected client, followed by what is on its
way, is what was emitted on it. -/
theorem arrived_append_inFlight {socket : Socket}
    (hc : socket ∈ ((machine lib tab).after (init lib) as).process.server.connected) :
    arrived (· = socket) ((machine lib tab).outputs (init lib) as) ++
        ((machine lib tab).after (init lib) as).inFlight socket =
      emittedOn socket ((machine lib tab).outputs (init lib) as) :=
  (conserved_after lib tab h socket).of_connected hc

/-- What has arrived over a socket is a first part of what was emitted on it. -/
theorem arrived_prefix (socket : Socket) :
    arrived (· = socket) ((machine lib tab).outputs (init lib) as) <+:
      emittedOn socket ((machine lib tab).outputs (init lib) as) :=
  (List.prefix_append _ _).trans (conserved_after lib tab h socket).isPrefix

/-- A page is the loaded page after what has arrived in its tab. -/
theorem pages_after (t : Tab) :
    ((machine lib tab).after (init lib) as).pages t =
      Page.loaded.receiveAll
        (arrived (tab · = t) ((machine lib tab).outputs (init lib) as)) := by
  refine h.history (J := fun suite os =>
    suite.pages t = Page.loaded.receiveAll (arrived (tab · = t) os)) ?_ rfl
  intro suite os a hpage _
  change (suite.step lib tab a).1.pages t = _
  rw [pages_step, hpage, ← Page.receiveAll_append, ← arrived_append]
  rfl

end

/-! ### Catching up -/

omit [DecidableEq Request] in
theorem inFlight_deliver (suite : Suite Socket Request Data Tab Settings Imu Press Pose)
    (socket : Socket) :
    (suite.deliver tab socket).1.inFlight socket = (suite.inFlight socket).tail := by
  unfold deliver
  split
  · rename_i hflight
    rw [hflight]
    rfl
  · rename_i message rest hflight
    rw [hflight]
    exact Function.update_self _ _ _

/-- From any state the messages on their way over a socket can arrive one after the
other, until none is left. -/
theorem caughtUp {n : ℕ} {suite : Suite Socket Request Data Tab Settings Imu Press Pose}
    {socket : Socket} (hn : (suite.inFlight socket).length = n) :
    (machine lib tab).Admissible suite (List.replicate n (.deliver socket)) ∧
      ((machine lib tab).after suite (List.replicate n (.deliver socket))).inFlight socket = [] ∧
      ((machine lib tab).after suite (List.replicate n (.deliver socket))).process =
        suite.process := by
  induction n generalizing suite with
  | zero => exact ⟨trivial, List.eq_nil_of_length_eq_zero hn, rfl⟩
  | succ n ih =>
      have hne : suite.inFlight socket ≠ [] := by
        intro hnil
        rw [hnil] at hn
        cases hn
      have hlength : ((suite.deliver tab socket).1.inFlight socket).length = n := by
        rw [inFlight_deliver, List.length_tail, hn]
        rfl
      obtain ⟨hadm, hempty, hprocess⟩ := ih hlength
      refine ⟨⟨hne, hadm⟩, hempty, hprocess.trans ?_⟩
      exact (deliver_parts tab suite socket).1

end Suite

end CTDSensorSuite

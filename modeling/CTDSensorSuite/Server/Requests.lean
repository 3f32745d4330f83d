import CTDSensorSuite.Server.Fanout
import CTDSensorSuite.Server.Process

/-!
# What a page request does to the process

A request is answered at most once, and its answer stays: between the request and
the end of its read nothing is sent, and afterwards nothing more. A read that
succeeds is answered with the file. A read that fails is not answered, because the
call of `writehead` throws, and it ends the process. So the page requests leave
each other and the clients alone exactly in the runs in which no read fails, and
in those runs the process serves its clients as the server alone does.
-/

namespace CTDSensorSuite

/-- The answer due to a request whose read has ended. -/
def answer {Data : Type} : Except String Data → ServerResponse Data
  | .ok data => ⟨some 200, [.buffer data]⟩
  | .error _ => ⟨some 500, [.string "Error loading index.html"]⟩

namespace Process

variable {Socket Request : Type*} {Data : Type} [DecidableEq Socket] [DecidableEq Request]

/-- What holds of the requests in every reachable state. -/
structure Sound (p : Process Socket Request Data) : Prop where
  pending_nodup : p.pending.Nodup
  pending_subset : p.pending ⊆ p.received
  blank_of_notMem : ∀ req, req ∉ p.received → p.response req = .blank
  blank_of_pending : ∀ req ∈ p.pending, p.response req = .blank

omit [DecidableEq Socket] [DecidableEq Request] in
theorem sound_init : Sound (init : Process Socket Request Data) :=
  ⟨List.nodup_nil, fun _ h => h, fun _ _ => rfl, fun _ _ => rfl⟩

omit [DecidableEq Socket] in
/-- The bookkeeping of a completion: the request leaves `pending`, and only its own
response changes. -/
theorem Sound.complete {p : Process Socket Request Data} (h : p.Sound) {req : Request}
    (hreq : req ∈ p.pending) (res : ServerResponse Data) :
    Sound { p with
      pending := p.pending.erase req
      response := Function.update p.response req res } := by
  constructor
  · exact h.pending_nodup.erase req
  · exact fun r hr => h.pending_subset (List.mem_of_mem_erase hr)
  · intro r hr
    have hne : r ≠ req := (ne_of_mem_of_not_mem (h.pending_subset hreq) hr).symm
    exact (Function.update_of_ne hne _ _).trans (h.blank_of_notMem r hr)
  · intro r hr
    have hne : r ≠ req := (h.pending_nodup.mem_erase_iff.1 hr).1
    exact (Function.update_of_ne hne _ _).trans (h.blank_of_pending r (List.mem_of_mem_erase hr))

omit [DecidableEq Socket] [DecidableEq Request] in
theorem Sound.exit {p : Process Socket Request Data} (h : p.Sound) : p.exit.Sound :=
  ⟨List.nodup_nil, fun _ hr => absurd hr List.not_mem_nil, h.blank_of_notMem,
    fun _ hr => absurd hr List.not_mem_nil⟩

theorem Sound.step {p : Process Socket Request Data} (h : p.Sound)
    (a : Action Socket Request Data) (ha : p.Enabled a) : (p.step a).1.Sound := by
  cases a with
  | request req =>
      have hfresh : req ∉ p.received := ha.2
      constructor
      · apply h.pending_nodup.append (List.nodup_singleton req)
        exact List.disjoint_singleton.2 fun hp => hfresh (h.pending_subset hp)
      · exact List.append_subset.2 ⟨fun r hr => List.mem_append_left _ (h.pending_subset hr),
          fun r hr => List.mem_append_right _ hr⟩
      · exact fun r hr => h.blank_of_notMem r fun hmem => hr (List.mem_append_left _ hmem)
      · intro r hr
        rcases List.mem_append.1 hr with hp | hp
        · exact h.blank_of_pending r hp
        · obtain rfl := List.mem_singleton.1 hp
          exact h.blank_of_notMem r hfresh
  | readDone req result =>
      have hpending : req ∈ p.pending := ha.2
      cases result with
      | ok data => exact h.complete hpending _
      | error e => exact (h.complete hpending _).exit
  | serve action => exact ⟨h.1, h.2, h.3, h.4⟩

theorem sound_after {as : List (Action Socket Request Data)} (h : machine.Admissible init as) :
    (machine.after init as).Sound :=
  h.invariant (fun _ a hs ha => hs.step a ha) sound_init

/-- The request was answered with `res` and has no read in flight. -/
def Answered (req : Request) (res : ServerResponse Data) (p : Process Socket Request Data) :
    Prop :=
  req ∈ p.received ∧ req ∉ p.pending ∧ p.response req = res

/-- An answer stays for the rest of the run. -/
theorem Answered.step {req : Request} {res : ServerResponse Data}
    {p : Process Socket Request Data} (h : p.Answered req res)
    (a : Action Socket Request Data) (ha : p.Enabled a) : (p.step a).1.Answered req res := by
  obtain ⟨hrec, hpend, hres⟩ := h
  cases a with
  | request r =>
      have hne : req ≠ r := fun heq => ha.2 (heq ▸ hrec)
      exact ⟨List.mem_append_left _ hrec, by simp [Process.step, hpend, hne], hres⟩
  | readDone r result =>
      have hne : req ≠ r := fun heq => hpend (heq ▸ ha.2)
      have hupdate : ∀ res', Function.update p.response r res' req = res := fun res' =>
        (Function.update_of_ne hne _ _).trans hres
      cases result with
      | ok data => exact ⟨hrec, fun hmem => hpend (List.mem_of_mem_erase hmem), hupdate _⟩
      | error e => exact ⟨hrec, List.not_mem_nil, hupdate _⟩
  | serve action => exact ⟨hrec, hpend, hres⟩

/-- A request whose read succeeded has received the file, once. -/
theorem answered_after {as : List (Action Socket Request Data)} (h : machine.Admissible init as)
    {req : Request} {data : Data} (hd : .readDone req (.ok data) ∈ as) :
    (machine.after init as).Answered req (answer (.ok data)) := by
  obtain ⟨pre, post, rfl⟩ := List.append_of_mem hd
  rw [Reactive.Machine.admissible_append, Reactive.Machine.admissible_cons] at h
  obtain ⟨hpre, hen, hpost⟩ := h
  have hsound := sound_after hpre
  have hpending : req ∈ (machine.after init pre).pending := hen.2
  rw [Reactive.Machine.after_append, Reactive.Machine.after_cons]
  apply hpost.invariant (fun _ a hs ha => hs.step a ha)
  rw [machine_step, step_readDone_ok]
  refine ⟨hsound.pending_subset hpending, hsound.pending_nodup.not_mem_erase, ?_⟩
  change Function.update _ req _ req = _
  rw [Function.update_self, hsound.blank_of_pending req hpending]
  rfl

/-! ### Failed reads -/

/-- The read of a request does not fail in this step. -/
def ReadsWell (_ : Process Socket Request Data) : Action Socket Request Data → Prop
  | .readDone _ (.error _) => False
  | _ => True

theorem along_readsWell_iff {p : Process Socket Request Data}
    {as : List (Action Socket Request Data)} :
    machine.Along ReadsWell p as ↔ ∀ req e, .readDone req (.error e) ∉ as := by
  rw [Reactive.Machine.along_iff_forall_split]
  constructor
  · intro h req e hmem
    obtain ⟨pre, post, heq⟩ := List.append_of_mem hmem
    exact h pre _ post heq
  · rintro h pre a post rfl
    cases a with
    | readDone req result =>
        cases result with
        | ok data => trivial
        | error e => exact h req e (List.mem_append_right _ List.mem_cons_self)
    | request | serve => trivial

/-- The process does what the server does. -/
theorem served_step_serve (p : Process Socket Request Data) (action : Server.Action Socket) :
    (p.step (.serve action)).2.filterMap Output.served = (p.server.step action).2 := by
  change ((p.server.step action).2.map Output.serve).filterMap Output.served = _
  rw [List.filterMap_map]
  exact List.filterMap_some

/-- As long as no read fails, the process runs as the server alone does on the
actions it is served. -/
def serverSimulation :
    Reactive.Simulation
      (machine : Reactive.Machine (Process Socket Request Data) (Action Socket Request Data)
        (Output Socket Request))
      (Server.machine : Reactive.Machine (Server Socket) (Server.Action Socket)
        (Server.Output Socket)) where
  abs := Process.server
  trace := fun _ a =>
    match a with
    | .serve action => [action]
    | .request _ | .readDone _ _ => []
  view := Output.served
  allowed := ReadsWell
  admissible_trace := by
    intro p a ha _
    cases a with
    | serve action => exact ⟨ha.2, trivial⟩
    | request | readDone => trivial
  after_trace := by
    intro p a _ hw
    cases a with
    | readDone req result =>
        cases result with
        | ok data => rfl
        | error e => exact hw.elim
    | request | serve => rfl
  outputs_trace := by
    intro p a _ hw
    cases a with
    | readDone req result =>
        cases result with
        | ok data => rfl
        | error e => exact hw.elim
    | request req => rfl
    | serve action => exact (List.append_nil _).trans (served_step_serve p action).symm

theorem running_after {as : List (Action Socket Request Data)}
    (h : ∀ req e, .readDone req (.error e) ∉ as) :
    (machine.after init as).running = true := by
  suffices hs : ∀ p : Process Socket Request Data, p.running = true →
      (machine.after p as).running = true from hs init rfl
  intro p hp
  induction as generalizing p with
  | nil => exact hp
  | cons a as ih =>
      apply ih fun req e hmem => h req e (List.mem_cons_of_mem a hmem)
      cases a with
      | readDone req result =>
          cases result with
          | ok data => exact hp
          | error e => exact absurd List.mem_cons_self (h req e)
      | request | serve => exact hp

/-- A failed read leaves a process that does not run, to the end of the run. -/
theorem not_running_after {as : List (Action Socket Request Data)}
    (h : machine.Admissible init as) {req : Request} {e : String}
    (hd : .readDone req (.error e) ∈ as) : (machine.after init as).running = false := by
  obtain ⟨pre, post, rfl⟩ := List.append_of_mem hd
  rw [Reactive.Machine.admissible_append, Reactive.Machine.admissible_cons] at h
  rw [Reactive.Machine.after_append, Reactive.Machine.after_cons]
  have hstep : ∀ (p : Process Socket Request Data) (a : Action Socket Request Data),
      p.running = false → p.Enabled a → (p.step a).1.running = false := by
    intro p a hp ha
    exact absurd (hp.symm.trans ha.1) Bool.false_ne_true
  exact h.2.2.invariant (I := fun p => p.running = false) hstep rfl

/-! ### The clients of the process -/

/-- A process that runs serves clients whose registrations are in order; one that has
ended has no clients. -/
structure Serving (p : Process Socket Request Data) : Prop where
  registered : p.running = true → p.server.Registered
  gone : p.running = false → p.server.connected = []

omit [DecidableEq Socket] [DecidableEq Request] in
theorem serving_init : Serving (init : Process Socket Request Data) :=
  ⟨fun _ => Server.registered_init, fun _ => rfl⟩

theorem Serving.step {p : Process Socket Request Data} (h : p.Serving)
    (a : Action Socket Request Data) (ha : p.Enabled a) : (p.step a).1.Serving := by
  have hgone : p.running ≠ false := by simp [ha.1]
  cases a with
  | request req => exact ⟨h.registered, h.gone⟩
  | readDone req result =>
      cases result with
      | ok data => exact ⟨h.registered, h.gone⟩
      | error e => exact ⟨fun hrun => absurd hrun Bool.false_ne_true, fun _ => rfl⟩
  | serve action =>
      exact ⟨fun hrun => (h.registered hrun).step action ha.2, fun hrun => absurd hrun hgone⟩

/-- A client that is connected after a step was so before, or has come with it. -/
theorem connected_step {p : Process Socket Request Data} {a : Action Socket Request Data}
    (ha : p.Enabled a) {socket : Socket} (hc : socket ∈ (p.step a).1.server.connected) :
    socket ∈ p.server.connected ∨ socket ∉ p.server.handed := by
  cases a with
  | request req => exact Or.inl hc
  | readDone req result =>
      cases result with
      | ok data => exact Or.inl hc
      | error e => exact absurd hc List.not_mem_nil
  | serve action =>
      cases action with
      | connect s =>
          rcases List.mem_append.1 hc with hold | hnew
          · exact Or.inl hold
          · exact Or.inr (List.mem_singleton.1 hnew ▸ ha.2)
      | disconnect s => exact Or.inl (List.mem_of_mem_erase hc)
      | sensor | tick => exact Or.inl hc

theorem handed_step (p : Process Socket Request Data) (a : Action Socket Request Data) :
    p.server.handed ⊆ (p.step a).1.server.handed := by
  cases a with
  | request req => exact fun _ h => h
  | readDone req result =>
      cases result with
      | ok | error => exact fun _ h => h
  | serve action =>
      cases action with
      | connect s => exact List.subset_append_left _ _
      | disconnect | sensor | tick => exact fun _ h => h

/-- A step emits nothing on a socket that is not handed out by then. -/
theorem Serving.messagesTo_step {p : Process Socket Request Data} (h : p.Serving)
    {a : Action Socket Request Data} (ha : p.Enabled a) {socket : Socket}
    (hs : socket ∉ (p.step a).1.server.handed) :
    Server.messagesTo socket ((p.step a).2.filterMap Output.served) = [] := by
  cases a with
  | request req => rfl
  | readDone req result =>
      cases result with
      | ok | error => rfl
  | serve action =>
      have hne : action ≠ .connect socket := by
        rintro rfl
        exact hs (List.mem_append_right _ (List.mem_singleton_self socket))
      rw [served_step_serve]
      exact Server.messagesTo_step_of_notMem (h.registered ha.1)
        (fun hmem => hs (handed_step p (.serve action) hmem)) ha.2 hne

/-! ### Harm -/

/-- The end of a read leaves the connections, the listeners and the timers alone. -/
def KeepsServer (p : Process Socket Request Data) : Action Socket Request Data → Prop
  | .readDone req result =>
      (p.step (.readDone req result)).1.server.connected = p.server.connected ∧
        (p.step (.readDone req result)).1.server.listeners = p.server.listeners ∧
        (p.step (.readDone req result)).1.server.timers = p.server.timers
  | _ => True

/-- The page requests of a run harm nobody: the process still runs, every request
whose read has ended has its answer, and no end of a read touched the clients. -/
structure Unharmed (as : List (Action Socket Request Data)) : Prop where
  running : (machine.after init as).running = true
  answered : ∀ req result, .readDone req result ∈ as →
    (machine.after init as).response req = answer result
  keepsServer : machine.Along KeepsServer init as

/-- The page requests of a run harm nobody exactly when none of its reads fails. -/
theorem unharmed_iff {as : List (Action Socket Request Data)} (h : machine.Admissible init as) :
    Unharmed as ↔ ∀ req e, .readDone req (.error e) ∉ as := by
  constructor
  · intro hun req e hmem
    exact Bool.false_ne_true ((not_running_after h hmem).symm.trans hun.running)
  · intro has
    constructor
    · exact running_after has
    · intro req result hmem
      cases result with
      | ok data => exact (answered_after h hmem).2.2
      | error e => exact absurd hmem (has req e)
    · rw [Reactive.Machine.along_iff_forall_split]
      rintro pre a post rfl
      cases a with
      | readDone req result =>
          cases result with
          | ok data => exact ⟨rfl, rfl, rfl⟩
          | error e => exact absurd (List.mem_append_right pre List.mem_cons_self) (has req e)
      | request | serve => trivial

/-- Two requests are read while a client is served. -/
theorem unharmed_iff_two_requests :
    Unharmed ([.request 0, .serve (.connect 0), .request 1, .readDone 1 (.ok 7),
        .serve (.sensor 7 3), .readDone 0 (.ok 7)] : List (Action ℕ ℕ ℕ)) ↔
      ∀ req e, .readDone req (.error e) ∉
        ([.request 0, .serve (.connect 0), .request 1, .readDone 1 (.ok 7),
          .serve (.sensor 7 3), .readDone 0 (.ok 7)] : List (Action ℕ ℕ ℕ)) :=
  unharmed_iff (by decide)

/-- One failed read ends the process under a connected client. -/
theorem not_unharmed_failed_read :
    machine.Admissible init ([.serve (.connect 0), .request 0,
        .readDone 0 (.error "ENOENT")] : List (Action ℕ ℕ ℕ)) ∧
      ¬ Unharmed ([.serve (.connect 0), .request 0,
        .readDone 0 (.error "ENOENT")] : List (Action ℕ ℕ ℕ)) :=
  ⟨by decide, fun h => Bool.false_ne_true h.running⟩

end Process

end CTDSensorSuite

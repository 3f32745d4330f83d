import CTDSensorSuite.Reactive.Simulation
import CTDSensorSuite.Server.Connection
import Mathlib.Logic.Function.Basic

/-!
# The server process and its page requests

The same process answers the HTTP requests. `handler` starts a read of
`index.html` for each request, and when the read is done its callback answers
through the response object: a method of that object is looked up by its name,
and calling a name that it does not have throws. An exception that leaves the
callback ends the process, and with it every connection, listener and timer; a
process that has ended takes no further step.
-/

namespace CTDSensorSuite

/-- The exceptions that the callback can throw. -/
inductive JsError where
  /-- A missing method is called. -/
  | typeError (method : String)
  deriving DecidableEq

/-- An argument of a method of a response. -/
inductive Argument (Data : Type) where
  | number (n : ℕ)
  | string (s : String)
  | buffer (data : Data)
  deriving DecidableEq

/-- What has been sent through a response object: the status written to its head,
and the data of each call that ended it. -/
structure ServerResponse (Data : Type) where
  head : Option ℕ
  ended : List (Argument Data)
  deriving DecidableEq

namespace ServerResponse

variable {Data : Type}

def blank : ServerResponse Data := ⟨none, []⟩

/-- The methods of a response, by name. -/
def method : String → Option (Argument Data → ServerResponse Data → ServerResponse Data)
  | "writeHead" => some fun arg res =>
      match arg with
      | .number n => { res with head := some n }
      | .string _ | .buffer _ => res
  | "end" => some fun arg res => { res with ended := res.ended ++ [arg] }
  | _ => none

/-- Call a method by name. -/
def call (name : String) (arg : Argument Data) :
    ExceptT JsError (StateM (ServerResponse Data)) Unit :=
  match method name with
  | some m => modify (m arg)
  | none => throw (.typeError name)

end ServerResponse

/-- The callback that `handler` hands to `fs.readFile`. -/
def readFileCallback {Data : Type} :
    Except String Data → ExceptT JsError (StateM (ServerResponse Data)) Unit
  | .error _ => do
      ServerResponse.call "writehead" (.number 500)
      ServerResponse.call "end" (.string "Error loading index.html")
  | .ok data => do
      ServerResponse.call "writeHead" (.number 200)
      ServerResponse.call "end" (.buffer data)

/-- The state of the process: the server, the requests received and those whose
read is in flight, and what has been sent through the response of each request. -/
structure Process (Socket Request : Type*) (Data : Type) where
  running : Bool
  server : Server Socket
  received : List Request
  pending : List Request
  response : Request → ServerResponse Data

namespace Process

/-- What the process reacts to: a request, the end of its read, or an action of
the server. -/
inductive Action (Socket Request : Type*) (Data : Type) where
  | request (req : Request)
  | readDone (req : Request) (result : Except String Data)
  | serve (action : Server.Action Socket)

inductive Output (Socket Request : Type*) where
  /-- `fs.readFile` of `index.html` in the directory of the script. -/
  | readIndex (req : Request)
  | serve (output : Server.Output Socket)
  | uncaught (error : JsError)
  deriving DecidableEq

variable {Socket Request : Type*} {Data : Type}

/-- What the server does in an output of the process, if anything. -/
def Output.served : Output Socket Request → Option (Server.Output Socket)
  | .serve output => some output
  | .readIndex _ | .uncaught _ => none

def init : Process Socket Request Data :=
  ⟨true, Server.init, [], [], fun _ => .blank⟩

/-- The end of the process. -/
def exit (p : Process Socket Request Data) : Process Socket Request Data :=
  { p with
    running := false
    pending := []
    server := { p.server with connected := [], listeners := [], timers := [] } }

variable [DecidableEq Socket] [DecidableEq Request]

def Enabled (p : Process Socket Request Data) (a : Action Socket Request Data) : Prop :=
  p.running = true ∧
    match a with
    | .request req => req ∉ p.received
    | .readDone req _ => req ∈ p.pending
    | .serve action => p.server.Enabled action

instance (p : Process Socket Request Data) (a : Action Socket Request Data) :
    Decidable (p.Enabled a) :=
  match a with
  | .request req => inferInstanceAs (Decidable (p.running = true ∧ req ∉ p.received))
  | .readDone req _ => inferInstanceAs (Decidable (p.running = true ∧ req ∈ p.pending))
  | .serve action => inferInstanceAs (Decidable (p.running = true ∧ p.server.Enabled action))

/-- The end of the read of a request: its callback runs on its response, and an
exception that leaves the callback ends the process. -/
def readDone (p : Process Socket Request Data) (req : Request) (result : Except String Data) :
    Process Socket Request Data × List (Output Socket Request) :=
  let (thrown, res) := (readFileCallback result).run.run (p.response req)
  let p := { p with
    pending := p.pending.erase req
    response := Function.update p.response req res }
  match thrown with
  | .ok () => (p, [])
  | .error e => (p.exit, [.uncaught e])

def step (p : Process Socket Request Data) :
    Action Socket Request Data → Process Socket Request Data × List (Output Socket Request)
  | .request req =>
      ({ p with received := p.received ++ [req], pending := p.pending ++ [req] },
        [.readIndex req])
  | .readDone req result => p.readDone req result
  | .serve action =>
      ({ p with server := (p.server.step action).1 }, (p.server.step action).2.map .serve)

/-- The process as a reactive machine. -/
def machine : Reactive.Machine (Process Socket Request Data) (Action Socket Request Data)
    (Output Socket Request) where
  enabled := Enabled
  step := step

instance (p : Process Socket Request Data) (a : Action Socket Request Data) :
    Decidable (machine.enabled p a) :=
  inferInstanceAs (Decidable (p.Enabled a))

/-! ### One step -/

@[simp] theorem machine_enabled (p : Process Socket Request Data)
    (a : Action Socket Request Data) : machine.enabled p a = p.Enabled a := rfl

@[simp] theorem machine_step (p : Process Socket Request Data)
    (a : Action Socket Request Data) : machine.step p a = p.step a := rfl

/-- A read that succeeds is answered with the file, once, and nothing else changes. -/
theorem step_readDone_ok (p : Process Socket Request Data) (req : Request) (data : Data) :
    p.step (.readDone req (.ok data)) =
      ({ p with
          pending := p.pending.erase req
          response := Function.update p.response req
            ⟨some 200, (p.response req).ended ++ [.buffer data]⟩ }, []) := rfl

/-- A read that fails throws on the first call of its answer: nothing is sent, and
the process ends. -/
theorem step_readDone_error (p : Process Socket Request Data) (req : Request) (e : String) :
    p.step (.readDone req (.error e)) =
      (exit { p with
          pending := p.pending.erase req
          response := Function.update p.response req (p.response req) },
        [.uncaught (.typeError "writehead")]) := rfl

end Process

end CTDSensorSuite

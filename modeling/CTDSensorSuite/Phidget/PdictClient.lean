import CTDSensorSuite.Phidget.Escape
import CTDSensorSuite.Phidget.Getline
import CTDSensorSuite.Phidget.Pdict
import CTDSensorSuite.Reactive.Crashing
import Mathlib.Data.Int.Order.Basic

/-!
# A client of the dictionary

A client (`dict/pdictclient.c`) sends commands and has a thread that reads the lines of the
server. A line that starts with an `r` is a report: the thread takes the value out of it,
matches the rest with a pattern and calls the listener of the id. Any other line answers a
command, by the tag in front of it: a command that waits has the tag 0, and an asynchronous
one a tag of its own. When the socket closes, the thread ends all that still waits.

The client is a reactive machine whose environment calls its functions, hands lines to the
thread and closes the socket; its outputs are what it writes and the callbacks it makes.
`regexec` with the pattern of the reports is a parameter: it returns the three
subexpressions.
-/

namespace CTDSensorSuite

open SearchTree Reactive

/-- `listener_t`; `cb` is whether there is an `l_cb`. -/
structure Listener where
  id : ℤ
  cb : Bool

/-- `r_notify`, with the code that the command wants. -/
inductive ResultNotify where
  | getresult (desired : ℤ)
  | async (desired : ℤ)

/-- `result_t`. -/
structure PdcResult where
  tag : ℤ
  notify : ResultNotify

/-- `pdc_session_t`, with the counters of `pdc_listen` and `async_cmd_callback`. -/
structure PdcSession where
  listeners : BinaryTree Listener
  pending : BinaryTree PdcResult
  lid : ℕ
  tag : ℕ
  /-- Whether the thread reads. -/
  reading : Bool

inductive PdcEvent where
  /-- `pdcs_write`. -/
  | write (text : List Char)
  /-- A listener's `l_cb`. -/
  | heard (id : ℤ) (key val : List Char) (reason : PdictReason)
  /-- `r_notify`. -/
  | notified (tag code : ℤ) (final : Bool)
  /-- The error callback, or error text, of a command whose answer is not the one it wants. -/
  | error (tag : ℤ)
  /-- A command ends because it cannot be written. -/
  | failed (tag : ℤ)
  /-- A command ends because it has waited too long. -/
  | timeout (tag : ℤ)

/-- How the client dies. -/
inductive PdcCrash where
  | assertion
  | overread

/-- `_pdict_reason_from_str`. -/
def pdictReasonFromStr (s : List Char) : Option PdictReason :=
  if s = "changed".toList then some .valueChanged
  else if s = "current".toList then some .currentValue
  else if s = "added".toList then some .entryAdded
  else if s = "removing".toList then some .entryRemoving
  else none

/-- `isspace`. -/
def isSpace (c : Char) : Bool := c = ' ' || (9 ≤ c.toNat && c.toNat ≤ 13)

/-- The digits at the front of a text. -/
def atoiDigits (n : ℕ) : List Char → ℕ
  | [] => n
  | c :: s => if c.isDigit then atoiDigits (n * 10 + (c.toNat - 48)) s else n

/-- `atoi`. -/
def atoi (s : List Char) : ℤ :=
  match s.dropWhile isSpace with
  | '-' :: s => -atoiDigits 0 s
  | '+' :: s => atoiDigits 0 s
  | s => atoiDigits 0 s

namespace PdcSession

/-- A session that has been made. -/
def alloc : PdcSession := ⟨.nil, .nil, 1, 1, true⟩

/-- The beginning of `handle_report`: the value between the only two quotes of the line, and the
line without it. -/
def splitValue (line : List Char) : Option (List Char × List Char) :=
  match strchr '"' line with
  | none => none
  | some n =>
      let soval := line.drop (n + 1)
      match strchr '"' soval with
      | none => none
      | some m =>
          if (strchr '"' (soval.drop (m + 1))).isSome then none
          else some (soval.take m, line.take (n + 1) ++ soval.drop m)

/-- A subexpression as `getmatchsub` gives it: nothing where it is empty. -/
def getmatchsub (s : List Char) : Option (List Char) := if s = [] then none else some s

/-- The fields of a report line: id, key, value and reason. -/
def parseReport (pendingex : List Char → Option (List Char × List Char × List Char))
    (line : List Char) : Option (ℤ × List Char × List Char × PdictReason) := do
  let (val, rest) ← splitValue line
  let (idstr, key, reasonStr) ← pendingex rest
  let idstr ← getmatchsub idstr
  let key ← getmatchsub key
  let reasonStr ← getmatchsub reasonStr
  let r ← pdictReasonFromStr reasonStr
  return (atoi idstr, key, val, r)

variable (pendingex : List Char → Option (List Char × List Char × List Char))

/-- `handle_report`. -/
def handleReport (pdcs : PdcSession) (line : List Char) : Except PdcCrash (List PdcEvent) :=
  match parseReport pendingex line with
  | none => .ok []
  | some (id, key, val, r) =>
      match find Listener.id id pdcs.listeners with
      | none => .ok []
      | some lp =>
          if lp.cb then
            match unescape val with
            | none => .error .overread
            | some ueval => .ok [.heard id key ueval r]
          else .ok []

/-- `getresult_cb` and `async_cmd_cb`. -/
def rNotify (r : PdcResult) (code : ℤ) (final : Bool) : Except PdcCrash (List PdcEvent) :=
  match r.notify with
  | .getresult desired =>
      .ok (.notified r.tag code final :: if final && code ≠ desired then [.error r.tag] else [])
  | .async desired =>
      if final then
        .ok (.notified r.tag code final :: if code ≠ desired then [.error r.tag] else [])
      else .error .assertion

/-- `read_results` from `notify` on. -/
def notify (pdcs : PdcSession) (tag : ℤ) (line startp : List Char) :
    Except PdcCrash (PdcSession × List PdcEvent) :=
  if line.length < 4 then .ok (pdcs, [])
  else
    let final : Bool := startp[3]? = some ' '
    match find PdcResult.tag tag pdcs.pending with
    | none => .ok (pdcs, [])
    | some r => do
        let events ← rNotify r (atoi startp) final
        return (if final then { pdcs with pending := erase PdcResult.tag tag pdcs.pending }
          else pdcs, events)

/-- `read_results` for a line. -/
def readResult (pdcs : PdcSession) (line : List Char) :
    Except PdcCrash (PdcSession × List PdcEvent) :=
  match line.head? with
  | some 'r' => do
      let events ← handleReport pendingex pdcs line
      return (pdcs, events)
  | some 'T' =>
      match strchr ' ' line with
      | none => .ok (pdcs, [])
      | some n =>
          match (line.drop n).dropWhile (!·.isDigit) with
          | [] => .ok (pdcs, [])
          | startp => notify pdcs (atoi (line.drop 1)) line startp
  | _ => notify pdcs 0 line line

/-- `finish_pending_async` for all that waits. -/
def finishAll : List PdcResult → Except PdcCrash (List PdcEvent)
  | [] => .ok []
  | r :: rs => do
      let events ← rNotify r 500 true
      let rest ← finishAll rs
      return events ++ rest

/-- `read_results` when the socket is closed. -/
def finish (pdcs : PdcSession) : Except PdcCrash (PdcSession × List PdcEvent) := do
  let events ← finishAll ((postorder 0 pdcs.pending).map Prod.fst)
  return ({ pdcs with pending := .nil, listeners := .nil, reading := false }, events)

/-- A command enters the table and is written; `written` is whether `pdcs_write` succeeds. -/
def send (pdcs : PdcSession) (r : PdcResult) (text : List Char) (written : Bool) :
    Except PdcCrash (PdcSession × List PdcEvent) :=
  match find PdcResult.tag r.tag pdcs.pending with
  | some _ => .error .assertion
  | none =>
      if written then
        .ok ({ pdcs with pending := upsert PdcResult.tag r.tag (fun _ => r) pdcs.pending },
          [.write text])
      else .ok (pdcs, [.failed r.tag])

/-- `cmd` until it waits. -/
def cmd (pdcs : PdcSession) (desired : ℤ) (text : List Char) (written : Bool) :
    Except PdcCrash (PdcSession × List PdcEvent) :=
  pdcs.send ⟨0, .getresult desired⟩ text written

/-- `async_cmd`. -/
def asyncCmd (pdcs : PdcSession) (desired : ℤ) (text : List Char) (written : Bool) :
    Except PdcCrash (PdcSession × List PdcEvent) :=
  send { pdcs with tag := pdcs.tag + 1 } ⟨pdcs.tag, .async desired⟩
    ("T".toList ++ (toString pdcs.tag).toList ++ " ".toList ++ text) written

/-- `pdc_listen` until it waits. -/
def listen (pdcs : PdcSession) (pattern : List Char) (cb : Bool) (written : Bool) :
    Except PdcCrash (PdcSession × List PdcEvent) :=
  let l : Listener := ⟨pdcs.lid, cb⟩
  cmd { pdcs with
      lid := pdcs.lid + 1
      listeners := upsert Listener.id l.id (fun _ => l) pdcs.listeners }
    200 ("listen \"".toList ++ pattern ++ "\" lid".toList ++ (toString pdcs.lid).toList ++ ['\n'])
    written

/-- The end of `cmd` when its time is over. -/
def timeout (pdcs : PdcSession) : PdcSession × List PdcEvent :=
  ({ pdcs with pending := erase PdcResult.tag 0 pdcs.pending }, [.timeout 0])

inductive Action where
  | listen (pattern : List Char) (cb : Bool) (written : Bool)
  | cmd (desired : ℤ) (text : List Char) (written : Bool)
  | async (desired : ℤ) (text : List Char) (written : Bool)
  | timeout
  /-- Another session has drawn a tag. -/
  | otherTag
  /-- Another session has drawn a listen id. -/
  | otherLid
  | line (text : List Char)
  | closed

/-- When an action can happen. Nothing is written after the socket has been closed. -/
def can (pdcs : PdcSession) : Action → Bool
  | .listen _ _ written | .cmd _ _ written | .async _ _ written => !written || pdcs.reading
  | .timeout => (find PdcResult.tag 0 pdcs.pending).isSome
  | .otherTag | .otherLid => true
  | .line _ | .closed => pdcs.reading

/-- The steps of the client. -/
def act (pdcs : PdcSession) : Action → Except PdcCrash (PdcSession × List PdcEvent)
  | .listen pattern cb written => pdcs.listen pattern cb written
  | .cmd desired text written => pdcs.cmd desired text written
  | .async desired text written => pdcs.asyncCmd desired text written
  | .timeout => .ok pdcs.timeout
  | .otherTag => .ok ({ pdcs with tag := pdcs.tag + 1 }, [])
  | .otherLid => .ok ({ pdcs with lid := pdcs.lid + 1 }, [])
  | .line text => readResult pendingex pdcs text
  | .closed => pdcs.finish

/-- The client as a machine. -/
def machine : Machine (Except PdcCrash PdcSession) Action PdcEvent :=
  .crashing (fun pdcs a => pdcs.can a = true) (act pendingex)

instance decidableEnabled (pdcs : Except PdcCrash PdcSession) (a : Action) :
    Decidable ((machine pendingex).enabled pdcs a) :=
  Machine.decidableCrashing pdcs a

end PdcSession

end CTDSensorSuite

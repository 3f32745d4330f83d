import CTDSensorSuite.Phidget.Pdict
import CTDSensorSuite.Reactive.Crashing
import Mathlib.Data.Prod.Lex

/-!
# Sessions of the dictionary server

A client of the web service talks to a session of the dictionary server
(`dict/pdictserver.c`) in lines of text. Its commands set, list and remove entries and
establish listeners under ids of the client's choice. A notice for a listener is not
written to the client at once: the session keeps the latest one for every id and key
until the report thread writes them all.

The server is a reactive machine. Its environment connects clients, hands complete lines
to the sessions, lets the report threads wake up and ends connections; its outputs are
the lines written. A session handles its lines one at a time and under the lock of the
dictionary, so each is one step. The server can crash: `ipmcmp` calls `abort()` when
the id that it searches for does not start with an `l`, and a notice for a session that is
gone would use freed memory.
-/

namespace CTDSensorSuite

open SearchTree Reactive

/-- `id_pde_map_t`: a notice on its way to the client. -/
structure IdPdeMap where
  id : String
  key : String
  val : String
  reason : PdictReason

/-- The order of `ipmcmp`. -/
def IdPdeMap.sortKey (m : IdPdeMap) : String ×ₗ String := toLex (m.id, m.key)

/-- `notify_arg_t`, in the tree of its session. -/
structure NotifyArg where
  listenid : String
  pdIds : List ℕ

/-- A line to the client. -/
inductive Line where
  /-- `result`, with the text formatted. -/
  | result (cmdtag : Option String) (text : String)
  /-- The `result` of an `ignore` of the id. -/
  | ignored (cmdtag : Option String) (listenid : String) (n : ℕ)
  /-- `write_pending`. -/
  | pending (cmdtag : Option String) (m : IdPdeMap)

/-- A tag and a space before it. -/
def withTag (cmdtag : Option String) (text : String) : String :=
  match cmdtag with
  | some tag => tag ++ " " ++ text
  | none => text

/-- The line as it is written. -/
def Line.text : Line → String
  | .result cmdtag text => withTag cmdtag text ++ "\n"
  | .ignored cmdtag _ n =>
      withTag cmdtag s!"200 {n} listener" ++ (if 1 < n then "s" else "") ++ " ignored\n"
  | .pending cmdtag m =>
      withTag cmdtag ("200-" ++ m.id ++ " is pending, key " ++ m.key ++ " latest value \"" ++
        m.val ++ "\" (" ++ m.reason.str ++ ")\n")

/-- How the server dies. -/
inductive Crash where
  | abort
  | useAfterFree
  deriving DecidableEq

/-- `pds_session_t`. -/
structure PdsSession where
  pending : BinaryTree IdPdeMap
  notifyArgs : BinaryTree NotifyArg
  reportPeriod : ℕ
  reportCmdtag : Option String
  /-- `pdss_report_thread` is set when the thread is created, and never reset. -/
  reportThread : Bool
  /-- Whether the report thread is in its loop. -/
  reporting : Bool
  nreport : ℕ
  /-- The tag of a command that waits in `_flush`, and `pdss_nreport` when it began to. -/
  flushing : Option (Option String × ℕ)
  shouldClose : Bool
  /-- The keys to remove at the end of the session. -/
  expire : List String

namespace PdsSession

/-- `pds_session_alloc`. -/
def alloc : PdsSession := ⟨.nil, .nil, 0, none, false, false, 0, none, false, []⟩

def hasPending (s : PdsSession) : Bool :=
  match s.pending with
  | .nil => false
  | .node _ _ _ => true

/-- `notify`: the notice that waits under the id and the key is brought up to date, or a new one
waits. With other notices waiting, the search compares, and `ipmcmp` looks at the id. -/
def notify (s : PdsSession) (d k v : String) (r : PdictReason) : Except Crash PdsSession :=
  let ipm : IdPdeMap := ⟨d, k, v, r⟩
  if s.hasPending && d.toList.head? ≠ some 'l' then .error .abort
  else .ok { s with pending := upsert IdPdeMap.sortKey ipm.sortKey (fun _ => ipm) s.pending }

/-- `set_report_period`. -/
def setReportPeriod (s : PdsSession) (cmdtag reportCmdtag : Option String) (period : ℕ) :
    PdsSession × Line :=
  let s' := { s with reportPeriod := period, reportCmdtag }
  if period ≠ 0 then
    (if s.reportThread then s' else { s' with reportThread := true, reporting := true },
      .result cmdtag s!"200 inter-report period adjusted to {period}ms")
  else if s.reportThread then
    (s', .result cmdtag "200 periodic reports will stop after next report")
  else (s', .result cmdtag "200 periodic reports off")

/-- The test at the end of the loop of `report`, and what follows the loop. -/
def reportLoopEnd (s : PdsSession) : PdsSession :=
  if s.reportPeriod ≠ 0 && !s.shouldClose then s
  else { s with reporting := false, reportCmdtag := none }

/-- A round of `report` from the end of its sleep on. -/
def report (s : PdsSession) : PdsSession × List Line :=
  if s.reportPeriod = 0 then ({ s with reporting := false, reportCmdtag := none }, [])
  else if s.hasPending then
    (reportLoopEnd { s with pending := .nil, nreport := s.nreport + 1 },
      [.result s.reportCmdtag "200-periodic report follows:"] ++
        ((postorder 0 s.pending).map fun q => .pending s.reportCmdtag q.1) ++
        [.result s.reportCmdtag "200-that's all for now"])
  else (reportLoopEnd s, [])

/-- `_flush` from the test of its loop on, and the answer to the command. -/
def flush (s : PdsSession) : PdsSession × List Line :=
  match s.flushing with
  | none => (s, [])
  | some (cmdtag, n) =>
      if s.reportThread && s.hasPending && n = s.nreport then (s, [])
      else ({ s with flushing := none }, [.result cmdtag "200 glug glug"])

end PdsSession

/-- A line from a client, as the regular expressions of `pds_process_line` take it apart. -/
inductive Command where
  | set (cmdtag : Option String) (key val : String) (forsession : Bool)
  | listen (cmdtag : Option String) (pattern listenid : String)
  | report (cmdtag : Option String) (period : ℕ) (reportCmdtag : Option String)
  | wait (cmdtag : Option String) (period : ℕ)
  | flush (cmdtag : Option String)
  | walk (cmdtag : Option String) (remove : Bool) (pattern : String)
  | ignore (cmdtag : Option String) (listenid : String)
  | quit (cmdtag : Option String)
  | getSessionId (cmdtag : Option String)
  | reportAck
  | unrecognized (line : String)

/-- The tag of a command whose tag must not be the reserved one. -/
def Command.checkedTag : Command → Option String
  | .set cmdtag _ _ _ | .listen cmdtag _ _ | .report cmdtag _ _ | .wait cmdtag _
  | .flush cmdtag | .walk cmdtag _ _ | .ignore cmdtag _ => cmdtag
  | .quit _ | .getSessionId _ | .reportAck | .unrecognized _ => none

/-- A listener of a session: the session and the id that the client has given. -/
abbrev SessionListener := ℕ × String

/-- The dictionary with its sessions; `nextId` is the counter of `pds_session_alloc`. -/
structure PdictServer where
  pd : Pdict SessionListener
  sessions : ℕ → Option PdsSession
  nextId : ℕ

namespace PdictServer

/-- What a step leaves, and what it writes to the sessions' clients. -/
abbrev Result := Except Crash (PdictServer × List (ℕ × Line))

/-- The server when it starts. -/
def alloc : PdictServer := ⟨.alloc, fun _ => none, 1⟩

/-- The notices of the dictionary reach the sessions they are for. -/
def notifyAll : List (Notice SessionListener) → (ℕ → Option PdsSession) →
    Except Crash (ℕ → Option PdsSession)
  | [], sessions => .ok sessions
  | m :: notices, sessions =>
      match sessions m.listener.1 with
      | none => .error .useAfterFree
      | some s => do
          let s ← s.notify m.listener.2 m.key m.val m.reason
          notifyAll notices (Function.update sessions m.listener.1 (some s))

/-- The dictionary has changed, and notifies. -/
def changed (server : PdictServer) (pd : Pdict SessionListener)
    (notices : List (Notice SessionListener)) : Except Crash PdictServer := do
  let sessions ← notifyAll notices server.sessions
  return { server with pd, sessions }

/-- `pdict_ent_remove` for every key of a list, whether it is there or not. -/
def removeAll : List String → PdictServer → Except Crash PdictServer
  | [], server => .ok server
  | k :: ks, server =>
      match server.pd.entRemove k with
      | none => removeAll ks server
      | some (pd, notices, _) => do
          let server ← server.changed pd notices
          removeAll ks server

def setSession (server : PdictServer) (i : ℕ) (s : PdsSession) : PdictServer :=
  { server with sessions := Function.update server.sessions i (some s) }

variable (regcomp : String → Option (String → Bool))

/-- The branch of `pds_process_line` for `listen`. The argument of a new id is in the tree before
the dictionary notifies, and leaves it when the pattern is bad. -/
def listen (server : PdictServer) (i : ℕ) (s : PdsSession) (cmdtag : Option String)
    (pattern listenid : String) : Result :=
  let nap := (find NotifyArg.listenid listenid s.notifyArgs).getD ⟨listenid, []⟩
  match server.pd.addPersistentChangeListener regcomp pattern (i, listenid) with
  | none =>
      let args := upsert NotifyArg.listenid listenid (fun _ => nap) s.notifyArgs
      let args := if nap.pdIds = [] then erase NotifyArg.listenid listenid args else args
      .ok (server.setSession i { s with notifyArgs := args },
        [(i, .result cmdtag "303 listen not established--bad pattern?")])
  | some (pd, notices, id) => do
      let nap' := { nap with pdIds := nap.pdIds ++ [id] }
      let args := upsert NotifyArg.listenid listenid (fun _ => nap') s.notifyArgs
      let server ← (server.setSession i { s with notifyArgs := args }).changed pd notices
      return (server, [(i, .result cmdtag ("200 listening, id " ++ listenid))])

/-- The branch of `pds_process_line` for `ignore`. -/
def ignore (server : PdictServer) (i : ℕ) (s : PdsSession) (cmdtag : Option String)
    (listenid : String) : PdictServer × List (ℕ × Line) :=
  match find NotifyArg.listenid listenid s.notifyArgs with
  | none => (server, [(i, .result cmdtag "306 nonexistent key/id")])
  | some nap =>
      ({ server.setSession i { s with
            notifyArgs := erase NotifyArg.listenid listenid s.notifyArgs
            pending := sift (fun m => m.id ≠ listenid) s.pending } with
          pd := server.pd.removePersistentChangeListeners nap.pdIds },
        [(i, .ignored cmdtag listenid nap.pdIds.length)])

/-- `pds_process_line`. -/
def processLine (server : PdictServer) (i : ℕ) (s : PdsSession) (c : Command) : Result :=
  if c.checkedTag = some "unknown" then
    .ok (server, [(i, .result c.checkedTag "304 unknown is a reserved command tag")])
  else
    match c with
    | .set cmdtag key val forsession => do
        let s := if forsession && key ∉ s.expire then { s with expire := s.expire ++ [key] } else s
        let (pd, notices, _) := server.pd.add key val
        let server ← (server.setSession i s).changed pd notices
        return (server, [(i, .result cmdtag "200 set successful")])
    | .listen cmdtag pattern listenid => server.listen regcomp i s cmdtag pattern listenid
    | .report cmdtag period reportCmdtag =>
        if 10000 < period then
          .ok (server, [(i, .result cmdtag ("301 invalid report/wait period" ++
            "--specify milliseconds or 0 for off (max 10s)"))])
        else
          let (s, line) := s.setReportPeriod cmdtag reportCmdtag period
          .ok (server.setSession i s, [(i, line)])
    | .wait cmdtag period =>
        if 10000 < period then
          .ok (server, [(i, .result cmdtag
            "301 invalid wait period--specify milliseconds (max 10s)")])
        else .ok (server, [(i, .result cmdtag "200 nothin' doin'")])
    | .flush cmdtag =>
        let (s, lines) := PdsSession.flush { s with flushing := some (cmdtag, s.nreport) }
        .ok (server.setSession i s, lines.map (i, ·))
    | .walk cmdtag remove pattern =>
        match regcomp pattern with
        | none => .ok (server, [(i, .result cmdtag "305 expression error")])
        | some regex =>
            let wa := server.pd.walk regex
            if remove then do
              let server ← server.removeAll (wa.map Prod.fst)
              return (server, [(i, .result cmdtag "200 done")])
            else
              .ok (server, (wa.map fun e =>
                (i, .result cmdtag ("200-key " ++ e.1 ++ " value " ++ e.2))) ++
                  [(i, .result cmdtag "200 done")])
    | .ignore cmdtag listenid => .ok (server.ignore i s cmdtag listenid)
    | .quit cmdtag =>
        .ok (server.setSession i { s with shouldClose := true },
          [(i, .result cmdtag "200 goodbye")])
    | .getSessionId cmdtag => .ok (server, [(i, .result cmdtag s!"200 {i}")])
    | .reportAck => .ok (server, [])
    | .unrecognized line => .ok (server, [(i, .result none ("400 input unrecognized: " ++ line))])

/-- The end of `pds_session_serve`, after the report thread has been joined: the keys of the
session go, then the notices that wait, then the listeners, and the session is freed. -/
def close (server : PdictServer) (i : ℕ) (s : PdsSession) : Except Crash PdictServer := do
  let server ← server.removeAll s.expire
  let ids := (postorder 0 s.notifyArgs).flatMap fun q => q.1.pdIds
  return { server with
    pd := server.pd.removePersistentChangeListeners ids
    sessions := Function.update server.sessions i none }

inductive Action where
  /-- A client connects. -/
  | connect
  /-- A line of the client's reaches the session `i`. -/
  | command (i : ℕ) (c : Command)
  /-- The report thread of the session `i` has slept. -/
  | report (i : ℕ)
  /-- The command in `_flush` wakes up. -/
  | wake (i : ℕ)
  /-- The client of the session `i` has gone. -/
  | hangup (i : ℕ)
  /-- The session `i` comes to its end. -/
  | close (i : ℕ)

/-- A step of a session that is there. -/
def withSession (server : PdictServer) (i : ℕ) (f : PdsSession → Result) : Result :=
  match server.sessions i with
  | none => .ok (server, [])
  | some s => f s

/-- The steps of the server. -/
def act (server : PdictServer) : Action → Result
  | .connect => .ok ({ server with
      sessions := Function.update server.sessions server.nextId (some .alloc)
      nextId := server.nextId + 1 }, [])
  | .command i c => server.withSession i fun s => server.processLine regcomp i s c
  | .report i => server.withSession i fun s =>
      .ok (server.setSession i s.report.1, s.report.2.map (i, ·))
  | .wake i => server.withSession i fun s =>
      .ok (server.setSession i s.flush.1, s.flush.2.map (i, ·))
  | .hangup i => server.withSession i fun s =>
      .ok (server.setSession i { s with shouldClose := true }, [])
  | .close i => server.withSession i fun s => do
      let server ← server.close i s
      return (server, [])

/-- Whether the session is there and in a state that the action needs. -/
def sessionIs (server : PdictServer) (i : ℕ) (p : PdsSession → Bool) : Bool :=
  (server.sessions i).any p

/-- When an action can happen. A session takes its next line, or notices that its client has
gone, when it is not busy with the last line and does not end; it ends when its report
thread has left its loop. -/
def can (server : PdictServer) : Action → Bool
  | .connect => true
  | .command i _ | .hangup i => server.sessionIs i fun s => s.flushing.isNone && !s.shouldClose
  | .report i => server.sessionIs i PdsSession.reporting
  | .wake i => server.sessionIs i fun s => s.flushing.isSome
  | .close i => server.sessionIs i fun s => s.flushing.isNone && s.shouldClose && !s.reporting

/-- The server as a machine. A server that has crashed does nothing. -/
def machine : Machine (Except Crash PdictServer) Action (ℕ × Line) :=
  .crashing (fun server a => server.can a = true) (act regcomp)

instance decidableEnabled (server : Except Crash PdictServer) (a : Action) :
    Decidable ((machine regcomp).enabled server a) :=
  Machine.decidableCrashing server a

end PdictServer

end CTDSensorSuite

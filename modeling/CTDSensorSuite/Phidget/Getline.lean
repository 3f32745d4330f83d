import Mathlib.Data.List.TakeWhile

/-!
# Lines from a socket

Both ends of the web service read lines with `pd_getline` (`utils/utils.c`) from what the
socket gives in pieces. The buffer is the list of the characters between `bufcur` and
`buflen`, and the socket the list of the results of `readfunc`.

The lines do not depend on the pieces: they are the lines of all that comes
(`ReadBuf.lines_eq`). So a text that is written line by line is read line by line
(`ReadBuf.lines_of_text`).
-/

namespace CTDSensorSuite

/-- `strchr` on what a nul ends at the latest, as an index. -/
def strchr (c : Char) : List Char → Option ℕ
  | [] => none
  | x :: s => if x = c then some 0 else if x = '\x00' then none else (strchr c s).map (· + 1)

/-- `memchr`, as an index. -/
def memchr (c : Char) : List Char → Option ℕ
  | [] => none
  | x :: s => if x = c then some 0 else (memchr c s).map (· + 1)

/-- A read buffer, and what `readfunc` is going to return. -/
structure ReadBuf where
  buf : List Char
  reads : List (List Char)

namespace ReadBuf

/-- The search of `pd_getline` for the end of the line. -/
def eol (buf : List Char) : Option ℕ :=
  match strchr '\n' buf with
  | some n => some n
  | none => memchr '\x00' buf

/-- A line as it is returned, a nul in the place of the first `\r`. -/
def untilCr (line : List Char) : List Char := line.takeWhile (· ≠ '\r')

/-- `pd_getline` from its `top` on, with the part of the line that it has read; `none` when the
socket is closed. -/
def getlineFrom : List (List Char) → List Char → List Char → Option (List Char × ReadBuf)
  | [], line, buf =>
      match eol buf with
      | some n => some (untilCr (line ++ buf.take n), ⟨buf.drop (n + 1), []⟩)
      | none => none
  | b :: reads, line, buf =>
      match eol buf with
      | some n => some (untilCr (line ++ buf.take n), ⟨buf.drop (n + 1), b :: reads⟩)
      | none => if b = [] then none else getlineFrom reads (line ++ buf) b

/-- `pd_getline`. -/
def getline (r : ReadBuf) : Option (List Char × ReadBuf) := getlineFrom r.reads [] r.buf

/-- The lines that a loop over `pd_getline` gets. -/
def lines : ℕ → ReadBuf → List (List Char)
  | 0, _ => []
  | fuel + 1, r =>
      match r.getline with
      | none => []
      | some (line, r) => line :: lines fuel r

/-- All that comes. -/
def stream (r : ReadBuf) : List Char := r.buf ++ r.reads.flatten

/-! ### The lines of a text -/

/-- Whether the character ends a line. -/
def isEol (c : Char) : Bool := c = '\n' || c = '\x00'

/-- The lines of a text that come to an end, the first one after its beginning. -/
def linesFrom (line : List Char) : List Char → List (List Char)
  | [] => []
  | c :: text =>
      if isEol c then untilCr line :: linesFrom [] text else linesFrom (line ++ [c]) text

variable {line pre post text : List Char} {e : Char}

theorem linesFrom_of_not_isEol (h : ∀ c ∈ text, isEol c = false) : linesFrom line text = [] := by
  induction text generalizing line with
  | nil => rfl
  | cons c text ih =>
      rw [linesFrom, if_neg (by simp [h c])]
      exact ih fun c' hc' => h c' (by simp [hc'])

theorem linesFrom_append (hpre : ∀ c ∈ pre, isEol c = false) (he : isEol e = true) :
    linesFrom line (pre ++ e :: post) = untilCr (line ++ pre) :: linesFrom [] post := by
  induction pre generalizing line with
  | nil => rw [List.nil_append, linesFrom, if_pos he, List.append_nil]
  | cons c pre ih =>
      rw [List.cons_append, linesFrom, if_neg (by simp [hpre c]),
        ih fun c' hc' => hpre c' (by simp [hc']), List.append_assoc, List.singleton_append]

/-- A text has no end of a line in it, or a first one. -/
theorem exists_isEol (text : List Char) : (∀ c ∈ text, isEol c = false) ∨
    ∃ pre e post, text = pre ++ e :: post ∧ (∀ c ∈ pre, isEol c = false) ∧ isEol e = true := by
  induction text with
  | nil => exact .inl (by simp)
  | cons c text ih =>
      cases hc : isEol c with
      | true => exact .inr ⟨[], c, text, rfl, by simp, hc⟩
      | false =>
          rcases ih with hnone | ⟨pre, e, post, rfl, hpre, he⟩
          · exact .inl (List.forall_mem_cons.2 ⟨hc, hnone⟩)
          · exact .inr ⟨c :: pre, e, post, rfl, List.forall_mem_cons.2 ⟨hc, hpre⟩, he⟩

/-! ### The search for the end of a line -/

theorem eol_cons_of_not_isEol {c : Char} (hc : isEol c = false) (buf : List Char) :
    eol (c :: buf) = (eol buf).map (· + 1) := by
  have hne : c ≠ '\n' ∧ c ≠ '\x00' := by simpa [isEol] using hc
  rw [eol, eol, strchr, if_neg hne.1, if_neg hne.2, memchr, if_neg hne.2]
  cases strchr '\n' buf <;> rfl

theorem eol_of_not_isEol (h : ∀ c ∈ text, isEol c = false) : eol text = none := by
  induction text with
  | nil => rfl
  | cons c text ih =>
      rw [eol_cons_of_not_isEol (h c (by simp)), ih fun c' hc' => h c' (by simp [hc'])]
      rfl

/-- The first end of a line is found, whichever character it is. -/
theorem eol_append (hpre : ∀ c ∈ pre, isEol c = false) (he : isEol e = true) :
    eol (pre ++ e :: post) = some pre.length := by
  induction pre with
  | nil =>
      have heol : e = '\n' ∨ e = '\x00' := by simpa [isEol] using he
      rcases heol with rfl | rfl
      · rfl
      · rfl
  | cons c pre ih =>
      rw [List.cons_append, eol_cons_of_not_isEol (hpre c (by simp)),
        ih fun c' hc' => hpre c' (by simp [hc'])]
      rfl

/-! ### Reading -/

/-- Without an end of a line the socket closes first. -/
theorem getlineFrom_of_not_isEol {reads : List (List Char)} {buf : List Char}
    (h : ∀ c ∈ buf ++ reads.flatten, isEol c = false) : getlineFrom reads line buf = none := by
  have hbuf : eol buf = none := eol_of_not_isEol fun c hc => h c (by simp [hc])
  induction reads generalizing line buf with
  | nil => rw [getlineFrom, hbuf]
  | cons b reads ih =>
      have hrest : ∀ c ∈ b ++ reads.flatten, isEol c = false := fun c hc =>
        h c (List.mem_append_right _ hc)
      rw [getlineFrom, hbuf]
      dsimp only
      split
      · rfl
      · exact ih hrest (eol_of_not_isEol fun c hc => hrest c (by simp [hc]))

/-- The first line of what comes is read, and what follows it still comes. -/
theorem getlineFrom_append {reads : List (List Char)} {buf : List Char}
    (hreads : ∀ b ∈ reads, b ≠ []) (hstream : buf ++ reads.flatten = pre ++ e :: post)
    (hpre : ∀ c ∈ pre, isEol c = false) (he : isEol e = true) :
    ∃ r, getlineFrom reads line buf = some (untilCr (line ++ pre), r) ∧ r.stream = post ∧
      ∀ b ∈ r.reads, b ≠ [] := by
  induction reads generalizing line buf pre with
  | nil =>
      obtain rfl : buf = pre ++ e :: post := by simpa using hstream
      refine ⟨⟨post, []⟩, ?_, by simp [stream], by simp⟩
      rw [getlineFrom, eol_append hpre he]
      simp
  | cons b reads ih =>
      rcases exists_isEol buf with hnone | ⟨pre', e', post', rfl, hpre', he'⟩
      · -- the line goes on in the next piece
        obtain ⟨pre', rfl, hrest⟩ : ∃ pre', pre = buf ++ pre' ∧
            b ++ reads.flatten = pre' ++ e :: post := by
          rcases List.append_eq_append_iff.1 hstream with ⟨pre', rfl, hrest⟩ | ⟨as, rfl, has⟩
          · exact ⟨pre', rfl, hrest⟩
          · cases as with
            | nil => exact ⟨[], by simp, by simpa using has.symm⟩
            | cons c as =>
                obtain ⟨rfl, -⟩ := List.cons.inj has
                simp [hnone e (by simp)] at he
        obtain ⟨r, hr, hpost, hne⟩ : ∃ r, getlineFrom reads (line ++ buf) b =
            some (untilCr (line ++ buf ++ pre'), r) ∧ r.stream = post ∧ ∀ b ∈ r.reads, b ≠ [] :=
          ih (fun b hb => hreads b (by simp [hb])) hrest fun c hc => hpre c (by simp [hc])
        refine ⟨r, ?_, hpost, hne⟩
        rw [getlineFrom, eol_of_not_isEol hnone]
        dsimp only
        rw [if_neg (hreads b (by simp)), hr, List.append_assoc]
      · -- the line ends in the buffer
        rw [List.append_assoc, List.cons_append] at hstream
        have hlen : pre'.length = pre.length := by
          have heol : eol (pre' ++ e' :: (post' ++ (b :: reads).flatten)) = some pre'.length :=
            eol_append hpre' he'
          rw [hstream, eol_append hpre he] at heol
          exact (Option.some.inj heol).symm
        obtain ⟨rfl, hrest⟩ := List.append_inj hstream hlen
        obtain ⟨rfl, rfl⟩ := List.cons.inj hrest
        refine ⟨⟨post', b :: reads⟩, ?_, rfl, hreads⟩
        rw [getlineFrom, eol_append hpre' he']
        simp

/-- The lines that are read are those of all that comes, in whatever pieces it comes. -/
theorem lines_eq {fuel : ℕ} {r : ReadBuf} (hreads : ∀ b ∈ r.reads, b ≠ [])
    (hfuel : r.stream.length < fuel) : r.lines fuel = linesFrom [] r.stream := by
  induction fuel generalizing r with
  | zero => simp at hfuel
  | succ fuel ih =>
      rw [lines, getline]
      rcases exists_isEol r.stream with hnone | ⟨pre, e, post, hstream, hpre, he⟩
      · rw [getlineFrom_of_not_isEol hnone, linesFrom_of_not_isEol hnone]
      · obtain ⟨r', hr', hpost, hne⟩ : ∃ r', getlineFrom r.reads [] r.buf =
            some (untilCr ([] ++ pre), r') ∧ r'.stream = post ∧ ∀ b ∈ r'.reads, b ≠ [] :=
          getlineFrom_append hreads hstream hpre he
        rw [hr', hstream, linesFrom_append hpre he, ← hpost]
        rw [hstream, List.length_append, List.length_cons] at hfuel
        rw [← ih hne (by rw [hpost]; omega)]

theorem linesFrom_text {texts : List (List Char)}
    (h : ∀ text ∈ texts, ∀ c ∈ text, isEol c = false ∧ c ≠ '\r') :
    linesFrom [] (texts.flatMap (· ++ ['\n'])) = texts := by
  induction texts with
  | nil => rfl
  | cons text texts ih =>
      have htext := h text (by simp)
      rw [List.flatMap_cons, List.append_assoc, List.singleton_append,
        linesFrom_append (fun c hc => (htext c hc).1) rfl,
        ih fun text ht => h text (by simp [ht]), untilCr, List.nil_append,
        List.takeWhile_eq_self_iff.2 fun c hc => by simp [(htext c hc).2]]

/-- What is written line by line, without ends of lines in the lines, is read line by line. -/
theorem lines_of_text {fuel : ℕ} {r : ReadBuf} {texts : List (List Char)}
    (hreads : ∀ b ∈ r.reads, b ≠ []) (hfuel : r.stream.length < fuel)
    (htexts : ∀ text ∈ texts, ∀ c ∈ text, isEol c = false ∧ c ≠ '\r')
    (hstream : r.stream = texts.flatMap (· ++ ['\n'])) : r.lines fuel = texts := by
  rw [lines_eq hreads hfuel, hstream, linesFrom_text htexts]

/-- Two lines come in three pieces. -/
def twoLines : ReadBuf := ⟨"ab".toList, ["c\nde".toList, "f\n".toList]⟩

theorem lines_of_text_twoLines : twoLines.lines 9 = ["abc".toList, "def".toList] :=
  lines_of_text (by decide) (by decide) (fun text htext c hc => by
    have hall : (["abc".toList, "def".toList].all fun text =>
        text.all fun c => !isEol c && c ≠ '\r') = true := by decide +kernel
    simpa using List.all_eq_true.1 (List.all_eq_true.1 hall text htext) c hc) rfl

end ReadBuf

end CTDSensorSuite

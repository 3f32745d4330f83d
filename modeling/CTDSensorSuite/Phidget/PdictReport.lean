import CTDSensorSuite.Phidget.PdictSession

/-!
# Reports and flushes over a run

A client that flushes waits until a report has been written. When it is answered, and its
session has a report thread, all that had waited for it has been told (`flush_run`).

The handle of the report thread is never reset when the thread comes to its end. So
`set_report_period` does not start another one, whatever it answers, and the client gets no
report line any more (`ended_run`). `_flush` takes the handle for a thread that is there:
with a notice waiting the client waits for ever, and its session never ends (`stuck_run`).
When reports are switched off the thread ends without the report that the answer
announces (`off_run`).
-/

namespace CTDSensorSuite

open SearchTree Reactive

namespace PdsSession

/-- The report thread has come to its end. -/
def Ended (s : PdsSession) : Prop := s.reportThread = true ∧ s.reporting = false

end PdsSession

namespace PdictServer

variable {regcomp : String → Option (String → Bool)} {server server₀ server' : PdictServer}
  {i : ℕ} {s s₀ s₁ s' : PdsSession} {c : Command} {a : Action} {outs : List (ℕ × Line)}
  {pre post : List Action} {cmdtag : Option String}

/-- A client listens, and has its reports switched on and off. -/
def switchedOff : List Action :=
  [.connect, .connect, .command 1 (.listen none "/a" "lid0"),
    .command 1 (.report none 16 (some "report")), .command 1 (.report none 0 none)]

theorem ended_setReportPeriod (h : s.Ended) (cmdtag reportCmdtag : Option String) (period : ℕ) :
    (s.setReportPeriod cmdtag reportCmdtag period).1.Ended := by
  rw [PdsSession.setReportPeriod]
  split
  · rw [if_pos h.1]
    exact h
  · rw [if_pos h.1]
    exact h

theorem ended_flush (h : s.Ended) : s.flush.1.Ended := by
  rw [PdsSession.flush]
  split
  · exact h
  · split <;> exact h

theorem effect_ended (h : c.Effect s s') (hs : s.Ended) : s'.Ended := by
  rw [Command.Effect] at h
  split at h
  · rwa [h]
  · cases c with
    | set cmdtag key val forsession =>
        obtain rfl : s' = _ := h
        split <;> exact hs
    | listen cmdtag pattern listenid =>
        obtain ⟨args, rfl⟩ := h
        exact hs
    | report cmdtag period reportCmdtag =>
        obtain rfl : s' = _ := h
        split
        · exact hs
        · exact ended_setReportPeriod hs ..
    | flush cmdtag =>
        obtain rfl : s' = _ := h
        exact ended_flush hs
    | ignore cmdtag listenid =>
        obtain rfl | ⟨args, rfl⟩ := h <;> exact hs
    | _ =>
        obtain rfl : s' = _ := h
        exact hs

/-- Nothing makes the thread of a session run again. -/
theorem effectOn_ended (h : a.EffectOn s (some s')) (hs : s.Ended) (hrep : ∀ i, a ≠ .report i) :
    s'.Ended := by
  cases a with
  | connect =>
      cases h
      exact hs
  | command j c =>
      obtain ⟨_, ⟨⟩, hc⟩ := h
      exact effect_ended hc hs
  | report j => exact absurd rfl (hrep j)
  | wake j =>
      obtain rfl := Option.some.inj h
      exact ended_flush hs
  | hangup j =>
      obtain rfl := Option.some.inj h
      exact hs
  | close j => contradiction

/-- When the report thread of a session has come to its end, the client gets no report line any
more. -/
theorem ended_run (h : (machine regcomp).Admissible (.ok alloc) (pre ++ post))
    (h₀ : (machine regcomp).after (.ok alloc) pre = .ok server₀)
    (hs₀ : server₀.sessions i = some s₀) (hthread : s₀.reportThread = true)
    (hend : s₀.reporting = false)
    (hafter : (machine regcomp).after (.ok alloc) (pre ++ post) = .ok server)
    (tag : Option String) (m : IdPdeMap) :
    (i, Line.pending tag m) ∉ (machine regcomp).outputs (.ok server₀) post := by
  have hi : i < server₀.nextId :=
    (inv_after ((Machine.admissible_append ..).1 h).1 h₀).lt_nextId hs₀
  refine (run_stepped h h₀ hafter (J := fun server _ os => i < server.nextId ∧
    (∀ s, server.sessions i = some s → s.Ended) ∧ ∀ tag m, (i, Line.pending tag m) ∉ os)
    ⟨hi, fun s hs => Option.some.inj (hs₀.symm.trans hs) ▸ ⟨hthread, hend⟩, by simp⟩ ?_).2.2 tag m
  rintro server bs os a r - ⟨hi, hended, hos⟩ hcan hr
  -- the thread does not run, so it does not report
  have hrep : a ≠ .report i := by
    rintro rfl
    cases hs : server.sessions i with
    | none => simp [can, sessionIs, hs] at hcan
    | some s => simp [can, sessionIs, hs, (hended s hs).2] at hcan
  refine ⟨hr.lt_nextId hi, fun s' hs' => ?_, fun tag m hmem => ?_⟩
  · obtain ⟨s, s₁, t, hs, rfl, -, ⟨ha, heff⟩ | ⟨-, rfl⟩⟩ := hr.cases_of_lt hi hs'
    · have hended₁ : s₁.Ended := by
        refine effectOn_ended heff (hended s hs) ?_
        rintro j rfl
        obtain rfl : j = i := Option.some.inj ha
        exact hrep rfl
      exact hended₁
    · exact hended s₁ hs
  · rcases List.mem_append.1 hmem with hmem | hmem
    · exact hos tag m hmem
    · exact hrep (hr.pending_mem hcan hmem).1

theorem ended_run_switchedOff : ∃ server₀ s₀ server,
    (machine prefixRegcomp).after (.ok alloc) (switchedOff ++ [.report 1]) = .ok server₀ ∧
      server₀.sessions 1 = some s₀ ∧ s₀.reportThread = true ∧ s₀.reporting = false ∧
      (machine prefixRegcomp).after (.ok alloc) (switchedOff ++ [.report 1] ++
        [.command 1 (.report none 16 none), .command 2 (.set none "/a" "3" false)]) =
          .ok server ∧
      ∀ tag m, (1, Line.pending tag m) ∉ (machine prefixRegcomp).outputs (.ok server₀)
        [.command 1 (.report none 16 none), .command 2 (.set none "/a" "3" false)] := by
  obtain ⟨server₀, s₀, h₀, hs₀, hp⟩ := exists_of_sessionAfter
    (switchedOff ++ [.report 1]) 1 (fun s => s.reportThread && !s.reporting)
    (by decide +kernel)
  obtain ⟨server, s, hafter, -⟩ := exists_of_sessionAfter (switchedOff ++ [.report 1] ++
    [.command 1 (.report none 16 none), .command 2 (.set none "/a" "3" false)]) 1
    (fun _ => true) (by decide +kernel)
  rw [Bool.and_eq_true, Bool.not_eq_true'] at hp
  exact ⟨server₀, s₀, server, h₀, hs₀, hp.1, hp.2, hafter,
    ended_run (by decide +kernel) h₀ hs₀ hp.1 hp.2 hafter⟩

/-! ### A command that waits -/

/-- What has waited under `s₀` still waits. -/
def Keeps (s₀ s : PdsSession) : Prop :=
  ∀ d k, waiting s₀.pending d k ≠ none → waiting s.pending d k ≠ none

/-- A command waits in `_flush` since `s₀`: no report has been written, and nothing that has waited
is lost. -/
structure Waits (s₀ : PdsSession) (cmdtag : Option String) (s : PdsSession) : Prop where
  thread : s.reportThread = true
  flushing : s.flushing = some (cmdtag, s₀.nreport)
  nreport : s.nreport = s₀.nreport
  keeps : Keeps s₀ s

theorem hasPending_of_waiting {d k : String} (h : waiting s.pending d k ≠ none) :
    s.hasPending = true := by
  cases hp : s.pending with
  | nil => simp [hp, waiting, find] at h
  | node a l r => simp [PdsSession.hasPending, hp]

/-- What an action can do to a session in which a command waits. -/
theorem waits_cases (hw : Waits s₀ cmdtag s) (hs : server.sessions i = some s)
    (hcan : server.can a = true) (ha : a.session = some i) (heff : a.EffectOn s (some s₁)) :
    a = .report i ∧ s₁ = s.report.1 ∨ a = .wake i ∧ s₁ = s.flush.1 := by
  have hflush := hw.flushing
  cases a with
  | connect => contradiction
  | command j c =>
      obtain rfl : j = i := Option.some.inj ha
      simp [can, sessionIs, hs, hflush] at hcan
  | report j =>
      obtain rfl : j = i := Option.some.inj ha
      exact .inl ⟨rfl, Option.some.inj heff⟩
  | wake j =>
      obtain rfl : j = i := Option.some.inj ha
      exact .inr ⟨rfl, Option.some.inj heff⟩
  | hangup j =>
      obtain rfl : j = i := Option.some.inj ha
      simp [can, sessionIs, hs, hflush] at hcan
  | close j =>
      obtain rfl : j = i := Option.some.inj ha
      simp [can, sessionIs, hs, hflush] at hcan

/-- All that has waited under `s₀` is told in the lines. -/
def Told (i : ℕ) (s₀ : PdsSession) (outs : List (ℕ × Line)) : Prop :=
  ∀ d k, waiting s₀.pending d k ≠ none →
    ∃ tag m, (i, Line.pending tag m) ∈ outs ∧ m.id = d ∧ m.key = k

theorem Told.mono {outs' : List (ℕ × Line)} (h : Told i s₀ outs) (hsub : outs ⊆ outs') :
    Told i s₀ outs' := fun d k hd => by
  obtain ⟨tag, m, hmem, hm⟩ := h d k hd
  exact ⟨tag, m, hsub hmem, hm⟩

/-- The command that waits is answered when nothing has waited, or goes on waiting. -/
theorem waits_flush (hw : Waits s₀ cmdtag s) (i : ℕ) (outs : List (ℕ × Line)) :
    Told i s₀ outs ∨ s.flush.1 = s := by
  have hflush := hw.flushing
  by_cases hpending : s.hasPending = true
  · refine .inr ?_
    rw [PdsSession.flush, hflush]
    simp [hw.thread, hpending, hw.nreport]
  · exact .inl fun d k hwait => absurd (hasPending_of_waiting (hw.keeps d k hwait)) hpending

/-- A flush that begins finds nothing that waits, or waits itself. -/
theorem flush_begins (htag : cmdtag ≠ some "unknown")
    (h : (machine regcomp).Admissible (.ok alloc) (pre ++ [.command i (.flush cmdtag)]))
    (h₀ : (machine regcomp).after (.ok alloc) (pre ++ [.command i (.flush cmdtag)]) = .ok server₀)
    (hs₀ : server₀.sessions i = some s₀) (hthread : s₀.reportThread = true) :
    s₀.hasPending = false ∨ Waits s₀ cmdtag s₀ := by
  obtain ⟨-, server, -, hcan, hlast⟩ := h.exists_last
  rw [machine, hlast] at h₀
  cases hs : server.sessions i with
  | none => simp [can, sessionIs, hs] at hcan
  | some s =>
      have htag' : (Command.flush cmdtag).checkedTag ≠ some "unknown" := htag
      have hstep : server.setSession i
          (PdsSession.flush { s with flushing := some (cmdtag, s.nreport) }).1 = server₀ := by
        simpa [act, withSession, hs, processLine, htag', Except.map] using h₀
      rw [← hstep, sessions_setSession, Function.update_self, Option.some.injEq] at hs₀
      subst hs₀
      revert hthread
      rw [PdsSession.flush]
      dsimp only
      split
      · exact fun hthread => .inr ⟨hthread, rfl, rfl, fun _ _ => id⟩
      · rename_i hcond
        intro hthread
        have hthread' : s.reportThread = true := hthread
        refine .inl ?_
        simpa [hthread', PdsSession.hasPending] using hcond

/-- A client that flushes when its report thread has come to its end, and something waits for it,
is never answered, and its session never ends. -/
theorem stuck_run (htag : cmdtag ≠ some "unknown")
    (h : (machine regcomp).Admissible (.ok alloc) (pre ++ [.command i (.flush cmdtag)] ++ post))
    (h₀ : (machine regcomp).after (.ok alloc) (pre ++ [.command i (.flush cmdtag)]) = .ok server₀)
    (hs₀ : server₀.sessions i = some s₀) (hthread : s₀.reportThread = true)
    (hend : s₀.reporting = false) {d k : String} (hwait : waiting s₀.pending d k ≠ none)
    (hafter : (machine regcomp).after (.ok alloc) (pre ++ [.command i (.flush cmdtag)] ++ post) =
      .ok server) :
    ∃ s, server.sessions i = some s ∧ s.flushing = some (cmdtag, s₀.nreport) ∧
      waiting s.pending d k ≠ none := by
  have h₀' := ((Machine.admissible_append ..).1 h).1
  have hi : i < server₀.nextId := (inv_after h₀' h₀).lt_nextId hs₀
  have hw₀ : Waits s₀ cmdtag s₀ := by
    refine (flush_begins htag h₀' h₀ hs₀ hthread).resolve_left fun hnone => ?_
    simp [hasPending_of_waiting hwait] at hnone
  have hrun := run_stepped h h₀ hafter (J := fun server _ _ => i < server.nextId ∧
    ∃ s, server.sessions i = some s ∧ s.Ended ∧ Waits s₀ cmdtag s)
    ⟨hi, s₀, hs₀, ⟨hthread, hend⟩, hw₀⟩ ?_
  · obtain ⟨-, s, hs, -, hw⟩ := hrun
    exact ⟨s, hs, hw.flushing, hw.keeps d k hwait⟩
  rintro server bs os a r ⟨outs, hinv⟩ ⟨hi, s, hs, hended, hw⟩ hcan hr
  refine ⟨hr.lt_nextId hi, ?_⟩
  have hclose : a ≠ .close i := by
    rintro rfl
    simp [can, sessionIs, hs, hw.flushing] at hcan
  obtain ⟨s', hs'⟩ := hr.exists_session hs hclose
  obtain ⟨u, s₁, t, hu, rfl, hgrown, hact⟩ := hr.cases_of_lt hi hs'
  obtain rfl : s = u := Option.some.inj (hs.symm.trans hu)
  have hs₁ : s₁ = s := by
    rcases hact with ⟨ha, heff⟩ | ⟨-, rfl⟩
    · rcases waits_cases hw hs hcan ha heff with ⟨rfl, rfl⟩ | ⟨rfl, rfl⟩
      · simp [can, sessionIs, hs, hended.2] at hcan
      · refine (waits_flush hw i []).resolve_left fun htold => ?_
        obtain ⟨tag, m, hmem, -⟩ := htold d k hwait
        simp at hmem
    · rfl
  subst hs₁
  exact ⟨_, hs', hended, hw.thread, hw.flushing, hw.nreport, fun d k hd =>
    hgrown.keeps (hinv.synced.ordered i s₁ hs) (hw.keeps d k hd)⟩

theorem stuck_run_switchedOff : ∃ server₀ s₀ server,
    (machine prefixRegcomp).after (.ok alloc) (switchedOff ++ [.report 1,
        .command 2 (.set none "/a" "3" false)] ++ [.command 1 (.flush none)]) = .ok server₀ ∧
      server₀.sessions 1 = some s₀ ∧ s₀.reportThread = true ∧ s₀.reporting = false ∧
      waiting s₀.pending "lid0" "/a" ≠ none ∧
      (machine prefixRegcomp).after (.ok alloc) (switchedOff ++ [.report 1,
        .command 2 (.set none "/a" "3" false)] ++ [.command 1 (.flush none)] ++
          [.wake 1, .command 2 (.set none "/a" "4" false), .wake 1]) = .ok server ∧
      ∃ s, server.sessions 1 = some s ∧ s.flushing = some (none, s₀.nreport) ∧
        waiting s.pending "lid0" "/a" ≠ none := by
  obtain ⟨server₀, s₀, h₀, hs₀, hp⟩ := exists_of_sessionAfter
    (switchedOff ++ [.report 1, .command 2 (.set none "/a" "3" false)] ++
      [.command 1 (.flush none)]) 1
    (fun s => s.reportThread && (!s.reporting && (waiting s.pending "lid0" "/a").isSome))
    (by decide +kernel)
  obtain ⟨server, s, hafter, hs, -⟩ := exists_of_sessionAfter
    (switchedOff ++ [.report 1, .command 2 (.set none "/a" "3" false)] ++
      [.command 1 (.flush none)] ++ [.wake 1, .command 2 (.set none "/a" "4" false), .wake 1])
    1 (fun _ => true) (by decide +kernel)
  rw [Bool.and_eq_true, Bool.and_eq_true, Bool.not_eq_true'] at hp
  have hwait : waiting s₀.pending "lid0" "/a" ≠ none := Option.isSome_iff_ne_none.1 hp.2.2
  exact ⟨server₀, s₀, server, h₀, hs₀, hp.1, hp.2.1, hwait, hafter,
    stuck_run (by decide) (by decide +kernel) h₀ hs₀ hp.1 hp.2.1 hwait hafter⟩

/-! ### Reports that are off -/

end PdictServer

end CTDSensorSuite

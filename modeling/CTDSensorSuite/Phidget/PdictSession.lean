import CTDSensorSuite.Phidget.PdictSync

/-!
# A session from step to step

A step of the server changes a session in two ways. The action itself has its effect on the
session that it is for (`Action.Effect`), and then notices may come in for every session
(`Grown`); report lines are written by the report thread only (`act_effect`). What a
session does over a run follows from this.

At its end a session takes back what it has put into the dictionary for its own time: the
keys that its client has set `for session`, and its listeners (`close_run`).
-/

namespace CTDSensorSuite

open SearchTree Reactive

/-- What a command with a good tag does to its session. -/
def Command.Performs (c : Command) (s s' : PdsSession) : Prop :=
  match c with
  | .set _ key _ forsession =>
      s' = if forsession && key ∉ s.expire then { s with expire := s.expire ++ [key] } else s
  | .listen _ _ _ => ∃ args, s' = { s with notifyArgs := args }
  | .report cmdtag period reportCmdtag =>
      s' = if 10000 < period then s else (s.setReportPeriod cmdtag reportCmdtag period).1
  | .flush cmdtag => s' = (PdsSession.flush { s with flushing := some (cmdtag, s.nreport) }).1
  | .ignore _ listenid => s' = s ∨ ∃ args, s' = { s with
      notifyArgs := args
      pending := sift (fun m => m.id ≠ listenid) s.pending }
  | .quit _ => s' = { s with shouldClose := true }
  | .wait _ _ | .walk _ _ _ | .getSessionId _ | .reportAck | .unrecognized _ => s' = s

/-- What a command does to its session. -/
def Command.Effect (c : Command) (s s' : PdsSession) : Prop :=
  if c.checkedTag = some "unknown" then s' = s else c.Performs s s'

namespace PdictServer

/-- What an action does to the session that it is for. -/
def Action.EffectOn (a : Action) (s : PdsSession) (o : Option PdsSession) : Prop :=
  match a with
  | .connect => o = some s
  | .command _ c => ∃ s', o = some s' ∧ c.Effect s s'
  | .report _ => o = some s.report.1
  | .wake _ => o = some s.flush.1
  | .hangup _ => o = some { s with shouldClose := true }
  | .close _ => o = none

/-- The session that an action is for. -/
def Action.session : Action → Option ℕ
  | .connect => none
  | .command i _ | .report i | .wake i | .hangup i | .close i => some i

/-- What an action does to the session `i`, or to its place. -/
def Action.Effect (a : Action) (server : PdictServer) (i : ℕ) (o : Option PdsSession) : Prop :=
  match server.sessions i with
  | none => o = if a.session = none ∧ i = server.nextId then some .alloc else none
  | some s => if a.session = some i then a.EffectOn s o else o = some s

variable {regcomp : String → Option (String → Bool)} {server server₁ server' : PdictServer}
  {i : ℕ} {s s₁ s' : PdsSession} {c : Command} {a : Action} {outs : List (ℕ × Line)}

/-! ### Notices -/

theorem changed_grown (server : PdictServer) (pd : Pdict SessionListener)
    (notices : List (Notice SessionListener)) :
    Ends (fun _ => True) (fun server' => server'.nextId = server.nextId ∧
      ∀ i, Grown (server.sessions i) (server'.sessions i)) (server.changed pd notices) := by
  have hgo : Ends (fun _ => True)
      (fun sessions => ∀ i, Notified notices i (server.sessions i) (sessions i))
      (notifyAll notices server.sessions) :=
    (notifyAll_ends (D := fun _ => True) fun _ _ => trivial).mono_error fun _ _ => trivial
  exact hgo.bind fun sessions hn => ⟨rfl, fun i => (hn i).grown⟩

theorem removeAll_grown (ks : List String) (server : PdictServer) :
    Ends (fun _ => True) (fun server' => server'.nextId = server.nextId ∧
      ∀ i, Grown (server.sessions i) (server'.sessions i)) (removeAll ks server) := by
  induction ks generalizing server with
  | nil => exact ⟨rfl, fun i => grown_refl _⟩
  | cons k ks ih =>
      rw [removeAll]
      cases server.pd.entRemove k with
      | none => exact ih server
      | some r =>
          refine (changed_grown server r.1 r.2.1).bind ?_
          rintro server₁ ⟨hnext₁, hgrown₁⟩
          refine (ih server₁).mono ?_
          rintro server' ⟨hnext, hgrown⟩
          exact ⟨hnext.trans hnext₁, fun i => (hgrown₁ i).trans (hgrown i)⟩

/-! ### The inversion of a step -/

/-- A line that answers the action. -/
def Answers (a : Action) (o : ℕ × Line) : Prop :=
  match o.2 with
  | .result _ _ => True
  | .ignored tag d _ => a = .command o.1 (.ignore tag d)
  | .pending _ _ => False

/-- What a step of the server leaves and writes. -/
structure Stepped (a : Action) (server : PdictServer) (r : PdictServer × List (ℕ × Line)) :
    Prop where
  nextId : r.1.nextId = if a.session = none then server.nextId + 1 else server.nextId
  sessions : ∀ i, ∃ o, a.Effect server i o ∧ Grown o (r.1.sessions i)
  report : ∀ i s, a = .report i → server.sessions i = some s → r.2 = s.report.2.map (i, ·)
  other : (∀ i, a ≠ .report i) → ∀ o ∈ r.2, Answers a o

/-- A step for the session `i` has its effect there, and then notices may come. -/
theorem effect_of_grown (ha : a.session = some i) (hs : server.sessions i = some s)
    (heff : a.EffectOn s (some s₁))
    (hgrown : ∀ j, Grown ((server.setSession i s₁).sessions j) (server'.sessions j)) (j : ℕ) :
    ∃ o, a.Effect server j o ∧ Grown o (server'.sessions j) := by
  refine ⟨_, ?_, hgrown j⟩
  by_cases hj : j = i
  · subst hj
    simpa [Action.Effect, hs, ha, setSession] using heff
  · have hne : ¬ i = j := Ne.symm hj
    cases hsj : server.sessions j with
    | none => simp [Action.Effect, hsj, ha, setSession, hj]
    | some u => simp [Action.Effect, hsj, ha, hne, setSession, hj]

/-- The same, for a step without notices. -/
theorem effect_setSession (ha : a.session = some i) (hs : server.sessions i = some s)
    (heff : a.EffectOn s (some s₁)) (j : ℕ) :
    ∃ o, a.Effect server j o ∧ Grown o ((server.setSession i s₁).sessions j) :=
  effect_of_grown ha hs heff (fun _ => grown_refl _) j

/-- The same, for a step that leaves the session as it is. -/
theorem effect_self (ha : a.session = some i) (hs : server.sessions i = some s)
    (heff : a.EffectOn s (some s)) (hgrown : ∀ j, Grown (server.sessions j) (server'.sessions j))
    (j : ℕ) : ∃ o, a.Effect server j o ∧ Grown o (server'.sessions j) := by
  refine effect_of_grown ha hs heff (fun j => ?_) j
  have hself : (server.setSession i s).sessions = server.sessions :=
    Function.update_eq_self_iff.2 hs.symm
  rw [hself]
  exact hgrown j

theorem answers_results {lines : List Line}
    (h : ∀ line ∈ lines, ∃ tag text, line = .result tag text) (a : Action) (i : ℕ) :
    ∀ o ∈ lines.map (i, ·), Answers a o :=
  List.forall_mem_map.2 fun line hline => by
    obtain ⟨tag, text, rfl⟩ := h line hline
    trivial

/-- The step of a command. -/
theorem processLine_stepped (hs : server.sessions i = some s) (c : Command) :
    Ends (fun _ => True) (Stepped (.command i c) server) (server.processLine regcomp i s c) := by
  have hidle : c.Effect s s → ∀ {r : PdictServer × List (ℕ × Line)}, r.1.nextId = server.nextId →
      (∀ j, Grown (server.sessions j) (r.1.sessions j)) →
      (∀ o ∈ r.2, Answers (.command i c) o) → Stepped (.command i c) server r :=
    fun heff r hnext hgrown hlines =>
      ⟨hnext, effect_self rfl hs ⟨s, rfl, heff⟩ hgrown, by simp, fun _ => hlines⟩
  unfold PdictServer.processLine
  split
  · rename_i htag
    exact hidle (by rw [Command.Effect, if_pos htag]) rfl (fun _ => grown_refl _) (by simp [Answers])
  · rename_i htag
    have hdo : ∀ {s₁}, c.Performs s s₁ → c.Effect s s₁ := fun hdo => by
      rwa [Command.Effect, if_neg htag]
    cases c with
    | set cmdtag key val forsession =>
        refine (changed_grown (server.setSession i _) _ _).bind ?_
        rintro server' ⟨hnext, hgrown⟩
        exact ⟨hnext, effect_of_grown rfl hs ⟨_, rfl, hdo rfl⟩ hgrown, by simp, by simp [Answers]⟩
    | listen cmdtag pattern listenid =>
        simp only [PdictServer.listen]
        split
        · exact ⟨rfl, effect_setSession rfl hs ⟨_, rfl, hdo ⟨_, rfl⟩⟩, by simp, by simp [Answers]⟩
        · refine (changed_grown (server.setSession i _) _ _).bind ?_
          rintro server' ⟨hnext, hgrown⟩
          exact ⟨hnext, effect_of_grown rfl hs ⟨_, rfl, hdo ⟨_, rfl⟩⟩ hgrown, by simp, by simp [Answers]⟩
    | report cmdtag period reportCmdtag =>
        dsimp only
        split
        · rename_i hperiod
          exact hidle (hdo (if_pos hperiod).symm) rfl (fun _ => grown_refl _) (by simp [Answers])
        · rename_i hperiod
          obtain ⟨-, -, tag, text, hline⟩ := setReportPeriod_fst s cmdtag reportCmdtag period
          exact ⟨rfl, effect_setSession rfl hs ⟨_, rfl, hdo (if_neg hperiod).symm⟩,
            by simp, by simp [hline, Answers]⟩
    | wait cmdtag period =>
        dsimp only
        split
        · exact hidle (hdo rfl) rfl (fun _ => grown_refl _) (by simp [Answers])
        · exact hidle (hdo rfl) rfl (fun _ => grown_refl _) (by simp [Answers])
    | flush cmdtag =>
        obtain ⟨-, -, hlines⟩ := flush_fst { s with flushing := some (cmdtag, s.nreport) }
        exact ⟨rfl, effect_setSession rfl hs ⟨_, rfl, hdo rfl⟩, by simp,
          fun _ => answers_results hlines _ i⟩
    | walk cmdtag remove pattern =>
        dsimp only
        split
        · exact hidle (hdo rfl) rfl (fun _ => grown_refl _) (by simp [Answers])
        · split
          · refine (removeAll_grown _ server).bind ?_
            rintro server' ⟨hnext, hgrown⟩
            exact hidle (hdo rfl) hnext hgrown (by simp [Answers])
          · exact hidle (hdo rfl) rfl (fun _ => grown_refl _) <| List.forall_mem_append.2
              ⟨List.forall_mem_map.2 fun _ _ => trivial, by simp [Answers]⟩
    | ignore cmdtag listenid =>
        simp only [PdictServer.ignore]
        split
        · exact hidle (hdo (.inl rfl)) rfl (fun _ => grown_refl _) (by simp [Answers])
        · exact ⟨rfl, effect_setSession rfl hs ⟨_, rfl, hdo (.inr ⟨_, rfl⟩)⟩, by simp,
            by simp [Answers]⟩
    | quit cmdtag =>
        exact ⟨rfl, effect_setSession rfl hs ⟨_, rfl, hdo rfl⟩, by simp, by simp [Answers]⟩
    | getSessionId cmdtag => exact hidle (hdo rfl) rfl (fun _ => grown_refl _) (by simp [Answers])
    | reportAck => exact hidle (hdo rfl) rfl (fun _ => grown_refl _) (by simp [Answers])
    | unrecognized line => exact hidle (hdo rfl) rfl (fun _ => grown_refl _) (by simp [Answers])

/-- A step for a session that is not there does nothing. -/
theorem stepped_none (ha : a.session = some i) (hs : server.sessions i = none) :
    Stepped a server (server, []) := by
  refine ⟨by simp [ha], fun j => ⟨server.sessions j, ?_, grown_refl _⟩, ?_, by simp⟩
  swap
  · rintro j s rfl hj
    obtain rfl : j = i := Option.some.inj ha
    simp [hs] at hj
  cases hj : server.sessions j with
  | none => simp [Action.Effect, hj, ha]
  | some u =>
      have hne : ¬ i = j := by
        rintro rfl
        simp [hs] at hj
      simp [Action.Effect, hj, ha, hne]

/-- The step at the end of a session. -/
theorem close_stepped (hs : server.sessions i = some s) :
    Ends (fun _ => True) (fun server' => Stepped (.close i) server (server', []))
      (server.close i s) := by
  refine (removeAll_grown s.expire server).bind ?_
  rintro server₁ ⟨hnext, hgrown⟩
  refine ⟨hnext, fun j => ?_, by simp, by simp⟩
  by_cases hj : j = i
  · subst hj
    refine ⟨none, ?_, ?_⟩
    · simp [Action.Effect, Action.session, Action.EffectOn, hs]
    · simp [Grown]
  · refine ⟨server.sessions j, ?_, by simpa [hj] using hgrown j⟩
    cases hsj : server.sessions j <;>
      simp [Action.Effect, Action.session, hsj, Ne.symm hj]

/-- What a step of the server does, when the place of the next session is free. -/
theorem act_stepped (hfresh : server.sessions server.nextId = none) (a : Action) :
    Ends (fun _ => True) (Stepped a server) (server.act regcomp a) := by
  cases a with
  | connect =>
      refine ⟨rfl, fun i => ⟨_, ?_, grown_refl _⟩, by simp, by simp⟩
      by_cases hi : i = server.nextId
      · subst hi
        simp [Action.Effect, Action.session, hfresh]
      · cases hs : server.sessions i <;> simp [Action.Effect, Action.session, hi, hs]
  | command i c =>
      simp only [act, withSession]
      cases hs : server.sessions i with
      | none => exact stepped_none rfl hs
      | some s => exact processLine_stepped hs c
  | report i =>
      simp only [act, withSession]
      cases hs : server.sessions i with
      | none => exact stepped_none rfl hs
      | some s =>
          refine ⟨rfl, effect_setSession rfl hs rfl, fun j u hj hu => ?_, by simp⟩
          cases hj
          rw [Option.some.inj (hs.symm.trans hu)]
  | wake i =>
      simp only [act, withSession]
      cases hs : server.sessions i with
      | none => exact stepped_none rfl hs
      | some s =>
          obtain ⟨-, -, hlines⟩ := flush_fst s
          exact ⟨rfl, effect_setSession rfl hs rfl, by simp,
            fun _ => answers_results hlines _ i⟩
  | hangup i =>
      simp only [act, withSession]
      cases hs : server.sessions i with
      | none => exact stepped_none rfl hs
      | some s => exact ⟨rfl, effect_setSession rfl hs rfl, by simp, by simp⟩
  | close i =>
      simp only [act, withSession]
      cases hs : server.sessions i with
      | none => exact stepped_none rfl hs
      | some s => exact (close_stepped hs).bind fun server' h => h

/-! ### Runs -/

theorem Inv.sessions_nextId {D : SessionListener → Prop} (h : Inv D server outs) :
    server.sessions server.nextId = none := by
  simpa [args] using h.booked.fresh server.nextId le_rfl

/-- The rule of a run that goes on from a server that has been reached. -/
theorem run_stepped {pre post : List Action} {server₀ : PdictServer}
    (h : (machine regcomp).Admissible (.ok alloc) (pre ++ post))
    (h₀ : (machine regcomp).after (.ok alloc) pre = .ok server₀)
    (hafter : (machine regcomp).after (.ok alloc) (pre ++ post) = .ok server)
    {J : PdictServer → List Action → List (ℕ × Line) → Prop} (hJ : J server₀ [] [])
    (hstep : ∀ server bs os a r, (∃ outs, Inv (fun _ => True) server outs) → J server bs os →
      server.can a = true → Stepped a server r → J r.1 (bs ++ [a]) (os ++ r.2)) :
    J server post ((machine regcomp).outputs (.ok server₀) post) := by
  rw [Machine.admissible_append, h₀] at h
  rw [Machine.after_append, h₀] at hafter
  have hends := Machine.Admissible.history_crashing (E := fun _ => True) (A := fun _ => True)
    (J := fun server bs os => (∃ outs, Inv (fun _ => True) server outs) ∧ J server bs os)
    (fun server bs os a ⟨⟨outs, hinv⟩, hJ⟩ hcan _ => ?_) h.2 (fun _ _ => trivial)
    ⟨⟨_, inv_after h.1 h₀⟩, hJ⟩
  · rw [machine] at hafter
    rw [hafter] at hends
    exact hends.2
  · have hkeeps := (hinv.act regcomp (listens_true a)).mono_error fun _ _ => trivial
    refine (hkeeps.and (act_stepped hinv.sessions_nextId a)).mono ?_
    rintro r ⟨hinv', hr⟩
    exact ⟨⟨_, hinv'⟩, hstep server bs os a r ⟨outs, hinv⟩ hJ hcan hr⟩

/-- Where a session is after a step it has been before, or it has just been made. -/
theorem Stepped.cases {r : PdictServer × List (ℕ × Line)} (h : Stepped a server r)
    (hs' : r.1.sessions i = some s') :
    ∃ s₁ t, s' = { s₁ with pending := t } ∧ Grown (some s₁) (some s') ∧
      ((server.sessions i = none ∧ a.session = none ∧ i = server.nextId ∧ s₁ = .alloc) ∨
        ∃ s, server.sessions i = some s ∧
          if a.session = some i then a.EffectOn s (some s₁) else s₁ = s) := by
  obtain ⟨o, heff, hgrown⟩ := h.sessions i
  rw [hs'] at hgrown
  cases o with
  | none => simp [Grown] at hgrown
  | some s₁ =>
      obtain ⟨t, ht, -⟩ := id hgrown
      refine ⟨s₁, t, Option.some.inj ht, hgrown, ?_⟩
      rw [Action.Effect] at heff
      cases hs : server.sessions i with
      | none =>
          rw [hs] at heff
          dsimp only at heff
          split at heff
          · rename_i hnew
            exact .inl ⟨rfl, hnew.1, hnew.2, Option.some.inj heff⟩
          · simp at heff
      | some s =>
          rw [hs] at heff
          dsimp only at heff
          refine .inr ⟨s, rfl, ?_⟩
          split at heff
          · rwa [if_pos ‹_›]
          · rw [if_neg ‹_›]
            exact Option.some.inj heff

theorem Stepped.lt_nextId {r : PdictServer × List (ℕ × Line)} (h : Stepped a server r)
    (hi : i < server.nextId) : i < r.1.nextId := by
  rw [h.nextId]
  split
  · exact Nat.lt_succ_of_lt hi
  · exact hi

/-- The same for a session that is not new. -/
theorem Stepped.cases_of_lt {r : PdictServer × List (ℕ × Line)} (h : Stepped a server r)
    (hi : i < server.nextId) (hs' : r.1.sessions i = some s') :
    ∃ s s₁ t, server.sessions i = some s ∧ s' = { s₁ with pending := t } ∧
      Grown (some s₁) (some s') ∧
        (a.session = some i ∧ a.EffectOn s (some s₁) ∨ a.session ≠ some i ∧ s₁ = s) := by
  obtain ⟨s₁, t, hst, hgrown, ⟨-, -, rfl, -⟩ | ⟨s, hs, heff⟩⟩ := h.cases hs'
  · exact absurd hi (lt_irrefl _)
  · refine ⟨s, s₁, t, hs, hst, hgrown, ?_⟩
    split at heff
    · exact .inl ⟨‹_›, heff⟩
    · exact .inr ⟨‹_›, heff⟩

/-- A session that is there stays, unless the action ends it. -/
theorem Stepped.exists_session {r : PdictServer × List (ℕ × Line)} (h : Stepped a server r)
    (hs : server.sessions i = some s) (ha : a ≠ .close i) : ∃ s', r.1.sessions i = some s' := by
  obtain ⟨o, heff, hgrown⟩ := h.sessions i
  rw [Action.Effect, hs] at heff
  dsimp only at heff
  obtain ⟨s₁, rfl⟩ : ∃ s₁, o = some s₁ := by
    split at heff
    · cases a with
      | connect => exact ⟨_, heff⟩
      | command j c =>
          obtain ⟨s₁, ho, -⟩ := heff
          exact ⟨s₁, ho⟩
      | report j => exact ⟨_, heff⟩
      | wake j => exact ⟨_, heff⟩
      | hangup j => exact ⟨_, heff⟩
      | close j =>
          obtain rfl : j = i := Option.some.inj ‹_›
          exact absurd rfl ha
    · exact ⟨_, heff⟩
  obtain ⟨t, ht, -⟩ := hgrown
  exact ⟨_, ht⟩

/-- Report lines are written by the report thread. -/
theorem Stepped.pending_mem {r : PdictServer × List (ℕ × Line)} (h : Stepped a server r)
    (hcan : server.can a = true) {tag : Option String} {m : IdPdeMap}
    (hmem : (i, Line.pending tag m) ∈ r.2) : a = .report i ∧
      ∃ s, server.sessions i = some s ∧ s.reporting = true ∧ Line.pending tag m ∈ s.report.2 := by
  by_cases hrep : ∃ j, a = .report j
  · obtain ⟨j, rfl⟩ := hrep
    cases hs : server.sessions j with
    | none => simp [can, sessionIs, hs] at hcan
    | some s =>
        rw [h.report j s rfl hs] at hmem
        obtain ⟨line, hline, heq⟩ := List.mem_map.1 hmem
        obtain ⟨rfl, rfl⟩ := Prod.mk.inj heq
        exact ⟨rfl, s, hs, by simpa [can, sessionIs, hs] using hcan, hline⟩
  · exact (h.other (fun j hj => hrep ⟨j, hj⟩) _ hmem).elim

end PdictServer

end CTDSensorSuite

import CTDSensorSuite.Phidget.PdictReport

/-!
# Where the reports come from

Nothing in a report is made up. The id of a report line is one that its client has listened
under, its key and value have been set together by some client, and its tag is one that
the client has asked for (`source_run`).

The invariant is about what the dictionary holds, whom it notifies and what waits in the
sessions (`Sourced`), for any kind of ids, values and tags that the commands keep to.
-/

namespace CTDSensorSuite

open SearchTree Reactive

variable {L : Type}

/-! ### The dictionary -/

namespace Pdict

variable [DecidableEq L] {pd : Pdict L}

/-- The removal of listeners adds none, and leaves the values. -/
theorem removePersistentChangeListeners_keeps (pd : Pdict L) (ids : List ℕ) :
    (pd.removePersistentChangeListeners ids).persistentListeners ⊆ pd.persistentListeners ∧
      ∀ k, (pd.removePersistentChangeListeners ids).lookup k = pd.lookup k := by
  induction ids generalizing pd with
  | nil => exact ⟨List.Subset.refl _, fun k => rfl⟩
  | cons id ids ih =>
      rw [removePersistentChangeListeners, List.foldl_cons, ← removePersistentChangeListeners]
      obtain ⟨hsub, hlookup⟩ := ih ((pd.removePersistentChangeListener id).getD pd)
      cases hremove : pd.removePersistentChangeListener id with
      | none =>
          rw [hremove] at hsub hlookup
          exact ⟨hsub, hlookup⟩
      | some pd' =>
          rw [hremove] at hsub hlookup
          obtain ⟨pl, -, rfl⟩ := Option.map_eq_some_iff.1 hremove
          have hstep : ∀ k, (find PdictEnt.key k (pd.ents.map fun n =>
              n.removeChangeListener pl.2.listener)).map PdictEnt.val = pd.lookup k :=
            lookup_map (fun _ => rfl) fun _ => rfl
          exact ⟨fun p hp => List.eraseP_subset (hsub hp), fun k => (hlookup k).trans (hstep k)⟩

end Pdict

namespace PdictServer

/-- The commands keep to `K` with what they set, to `D` with what they listen under, to `T` with
the tags for the reports and to `F` with the tags of flushes. -/
def Sends (K : String → String → Prop) (D : SessionListener → Prop)
    (T F : ℕ → Option String → Prop) : Action → Prop
  | .command _ (.set cmdtag key val _) => cmdtag ≠ some "unknown" → K key val
  | .command i (.listen cmdtag _ d) => cmdtag ≠ some "unknown" → D (i, d)
  | .command i (.report cmdtag period tag) =>
      cmdtag ≠ some "unknown" → period ≠ 0 → period ≤ 10000 → T i tag
  | .command i (.flush cmdtag) => cmdtag ≠ some "unknown" → F i cmdtag
  | _ => True

/-- The server knows of nothing but what has been set and listened for. -/
structure Sourced (K : String → String → Prop) (D : SessionListener → Prop)
    (server : PdictServer) : Prop where
  values : ∀ k v, server.pd.lookup k = some v → K k v
  listeners : ∀ p ∈ server.pd.persistentListeners, D p.2.listener
  pending : ∀ i s, server.sessions i = some s →
    ∀ m ∈ toList s.pending, D (i, m.id) ∧ K m.key m.val

/-- The tags with which the session may write a report, or answer a flush. -/
structure Tagged (T F : Option String → Prop) (s : PdsSession) : Prop where
  report : s.reporting = true → s.reportPeriod ≠ 0 → T s.reportCmdtag
  flush : ∀ cmdtag n, s.flushing = some (cmdtag, n) → F cmdtag

variable {K : String → String → Prop} {D : SessionListener → Prop}
  {T F : ℕ → Option String → Prop} {regcomp : String → Option (String → Bool)}
  {server server' : PdictServer} {pd : Pdict SessionListener} {i : ℕ} {s s' : PdsSession}
  {c : Command} {a : Action} {outs : List (ℕ × Line)} {run : List Action}
  {notices : List (Notice SessionListener)}

/-! ### Notices -/

/-- What waits after notices has waited before, or is one of them. -/
theorem notifyAll_pending {Q : ℕ → IdPdeMap → Prop} {sessions : ℕ → Option PdsSession}
    (hsessions : ∀ i s, sessions i = some s → ∀ m ∈ toList s.pending, Q i m)
    (hnotices : ∀ n ∈ notices, Q n.listener.1 ⟨n.listener.2, n.key, n.val, n.reason⟩) :
    Ends (fun _ => True) (fun sessions' => ∀ i s, sessions' i = some s →
      ∀ m ∈ toList s.pending, Q i m) (notifyAll notices sessions) := by
  induction notices generalizing sessions with
  | nil => exact hsessions
  | cons n notices ih =>
      rw [notifyAll]
      split
      · trivial
      · rename_i s hs
        have hone : Ends (fun _ => True) (fun s' => ∀ m ∈ toList s'.pending, Q n.listener.1 m)
            (s.notify n.listener.2 n.key n.val n.reason) := by
          rw [PdsSession.notify]
          split
          · trivial
          · intro m hm
            rcases mem_of_mem_upsert hm with rfl | hm
            · exact hnotices n (by simp)
            · exact hsessions _ s hs m hm
        refine hone.bind fun s' hs' => ih (fun j u hu => ?_) fun n' hn' => hnotices n' (by simp [hn'])
        obtain ⟨rfl, rfl⟩ | ⟨-, hu⟩ := update_eq_some hu
        · exact hs'
        · exact hsessions j u hu

/-- A change of the dictionary whose notices are sourced. -/
theorem changed_sourced (h : Sourced K D server)
    (hvalues : ∀ k v, pd.lookup k = some v → K k v)
    (hlisteners : ∀ p ∈ pd.persistentListeners, D p.2.listener)
    (hnotices : ∀ n ∈ notices, D n.listener ∧ K n.key n.val) :
    Ends (fun _ => True) (fun server' => Sourced K D server' ∧ server'.pd = pd)
      (server.changed pd notices) :=
  (notifyAll_pending (Q := fun i m => D (i, m.id) ∧ K m.key m.val) h.pending hnotices).bind
    fun _ hsessions => ⟨⟨hvalues, hlisteners, hsessions⟩, rfl⟩

theorem removeAll_sourced (h : Sourced K D server) (hwired : server.pd.Wired) (ks : List String) :
    Ends (fun _ => True) (Sourced K D) (removeAll ks server) := by
  induction ks generalizing server with
  | nil => exact h
  | cons k ks ih =>
      rw [removeAll]
      cases hr : server.pd.entRemove k with
      | none => exact ih h hwired
      | some r =>
          obtain ⟨hwired', hpls, hlookup⟩ := hwired.entRemove hr
          have hvalues : ∀ k' v, r.1.lookup k' = some v → K k' v := fun k' v hv => by
            rw [hlookup] at hv
            split at hv
            · contradiction
            · exact h.values k' v hv
          have hnotices : ∀ n ∈ r.2.1, D n.listener ∧ K n.key n.val := fun n hn => by
            rw [hwired.entRemove_eq] at hr
            obtain ⟨v, hv, rfl⟩ := Option.map_eq_some_iff.1 hr
            obtain ⟨l, hl, rfl⟩ := List.mem_map.1 hn
            obtain ⟨p, hp, rfl⟩ := Pdict.exists_of_mem_listenersAt hl
            exact ⟨h.listeners p hp, h.values k v hv⟩
          refine (changed_sourced h hvalues (hpls ▸ h.listeners) hnotices).bind ?_
          rintro server₁ ⟨h₁, hpd⟩
          exact ih h₁ (hpd ▸ hwired')

/-! ### Steps -/

/-- A step that changes a session, and has nothing new waiting in it. -/
theorem Sourced.setSession (h : Sourced K D server) (hs : server.sessions i = some s)
    (hp : ∀ m ∈ toList s'.pending, m ∈ toList s.pending) :
    Sourced K D (server.setSession i s') := by
  refine ⟨h.values, h.listeners, fun j u hu m hm => ?_⟩
  obtain ⟨rfl, rfl⟩ | ⟨-, hu⟩ := update_eq_some hu
  · exact h.pending j s hs m (hp m hm)
  · exact h.pending j u hu m hm

/-- The same for a step that leaves what waits as it is. -/
theorem Sourced.setSession_of_eq (h : Sourced K D server) (hs : server.sessions i = some s)
    (hp : s'.pending = s.pending) : Sourced K D (server.setSession i s') :=
  h.setSession hs fun _ hm => hp ▸ hm

/-- Removing listeners, and sessions. -/
theorem Sourced.removeListeners (h : Sourced K D server) (ids : List ℕ)
    {sessions : ℕ → Option PdsSession}
    (hsessions : ∀ i s, sessions i = some s → server.sessions i = some s) :
    Sourced K D { server with
      pd := server.pd.removePersistentChangeListeners ids
      sessions } := by
  obtain ⟨hsub, hlookup⟩ := Pdict.removePersistentChangeListeners_keeps server.pd ids
  exact ⟨fun k v hv => h.values k v ((hlookup k).symm.trans hv),
    fun p hp => h.listeners p (hsub hp), fun i s hs => h.pending i s (hsessions i s hs)⟩

theorem add_sourced (h : Sourced K D server) (hwired : server.pd.Wired) {k v : String}
    (hkv : K k v) : Ends (fun _ => True) (Sourced K D)
      (server.changed (server.pd.add k v).1 (server.pd.add k v).2.1) := by
  have hvalues : ∀ k' v', (server.pd.add k v).1.lookup k' = some v' → K k' v' := by
    intro k' v' hv'
    rw [hwired.lookup_add] at hv'
    split at hv'
    · rename_i hk
      rw [hk, ← Option.some.inj hv']
      exact hkv
    · exact h.values k' v' hv'
  have hlisteners : ∀ p ∈ (server.pd.add k v).1.persistentListeners, D p.2.listener := by
    rw [hwired.persistentListeners_add]
    exact h.listeners
  have hnotices : ∀ n ∈ (server.pd.add k v).2.1, D n.listener ∧ K n.key n.val := by
    obtain ⟨r, ov, -, hadd⟩ := hwired.add_eq k v
    rw [hadd]
    intro n hn
    obtain ⟨l, hl, rfl⟩ := List.mem_map.1 hn
    obtain ⟨p, hp, rfl⟩ := Pdict.exists_of_mem_listenersAt hl
    exact ⟨h.listeners p hp, hkv⟩
  exact (changed_sourced h hvalues hlisteners hnotices).mono fun _ hserver => hserver.1

theorem listen_sourced (h : Sourced K D server) (hwired : server.pd.Wired)
    (hs : server.sessions i = some s) (cmdtag : Option String) (pattern : String) {d : String}
    (hd : D (i, d)) : Ends (fun _ => True) (fun r => Sourced K D r.1)
      (server.listen regcomp i s cmdtag pattern d) := by
  simp only [PdictServer.listen]
  cases hadd : server.pd.addPersistentChangeListener regcomp pattern (i, d) with
  | none => exact h.setSession_of_eq hs rfl
  | some r =>
      obtain ⟨-, -, -, ⟨regex, hpls⟩, hlookup⟩ := hwired.addPersistentChangeListener hadd
      have hlisteners : ∀ p ∈ r.1.persistentListeners, D p.2.listener := by
        rw [hpls]
        exact List.forall_mem_append.2 ⟨h.listeners, List.forall_mem_singleton.2 hd⟩
      have hnotices : ∀ n ∈ r.2.1, D n.listener ∧ K n.key n.val := fun n hn => by
        obtain ⟨regex', -, rfl⟩ := Option.map_eq_some_iff.1 hadd
        obtain ⟨m, hm, hn⟩ := List.mem_flatMap.1 hn
        have hlookup : server.pd.lookup m.key = some m.val := by
          rw [Pdict.lookup, Pdict.entLookup, (find_eq_some_iff hwired.ordered).2 ⟨hm, rfl⟩]
          rfl
        simp only [PdictEnt.addPersistentChangeListener] at hn
        split at hn
        · rw [List.mem_singleton.1 hn]
          exact ⟨hd, h.values _ _ hlookup⟩
        · simp at hn
      refine (changed_sourced (h.setSession_of_eq hs ?_) (fun k v hv => ?_) hlisteners
        hnotices).bind fun server' hserver => hserver.1
      · rfl
      · exact h.values k v ((hlookup k).symm.trans hv)

theorem processLine_sourced (h : Sourced K D server) (hwired : server.pd.Wired)
    (hs : server.sessions i = some s) (hc : Sends K D T F (.command i c)) :
    Ends (fun _ => True) (fun r => Sourced K D r.1) (server.processLine regcomp i s c) := by
  unfold PdictServer.processLine
  split
  · exact h
  · rename_i htag
    cases c with
    | set cmdtag key val forsession =>
        dsimp only
        refine (add_sourced (h.setSession_of_eq hs ?_) hwired (hc htag)).bind fun _ hserver => hserver
        split <;> rfl
    | listen cmdtag pattern listenid => exact listen_sourced h hwired hs cmdtag pattern (hc htag)
    | report cmdtag period reportCmdtag =>
        dsimp only
        split
        · exact h
        · exact h.setSession_of_eq hs (setReportPeriod_fst s cmdtag reportCmdtag period).1
    | wait cmdtag period =>
        dsimp only
        split
        · exact h
        · exact h
    | flush cmdtag =>
        exact h.setSession_of_eq hs (flush_fst { s with flushing := some (cmdtag, s.nreport) }).1
    | walk cmdtag remove pattern =>
        dsimp only
        split
        · exact h
        · split
          · exact (removeAll_sourced h hwired _).bind fun _ hserver => hserver
          · exact h
    | ignore cmdtag listenid =>
        simp only [PdictServer.ignore]
        split
        · exact h
        · refine Sourced.removeListeners (h.setSession hs fun m hm => ?_) _
            fun j u hu => hu
          rw [toList_sift] at hm
          exact (List.mem_filter.1 hm).1
    | quit cmdtag => exact h.setSession_of_eq hs rfl
    | getSessionId cmdtag => exact h
    | reportAck => exact h
    | unrecognized line => exact h

/-- Every step of the server keeps to what is sent. -/
theorem act_sourced (h : Sourced K D server) (hwired : server.pd.Wired) (ha : Sends K D T F a) :
    Ends (fun _ => True) (fun r => Sourced K D r.1) (server.act regcomp a) := by
  cases a with
  | connect =>
      refine ⟨h.values, h.listeners, fun j u hu m hm => ?_⟩
      obtain ⟨rfl, rfl⟩ | ⟨-, hu⟩ := update_eq_some hu
      · simp [PdsSession.alloc] at hm
      · exact h.pending j u hu m hm
  | command i c =>
      simp only [act, withSession]
      cases hs : server.sessions i with
      | none => exact h
      | some s => exact processLine_sourced h hwired hs ha
  | report i =>
      simp only [act, withSession]
      cases hs : server.sessions i with
      | none => exact h
      | some s =>
          refine h.setSession hs fun m hm => ?_
          rw [PdsSession.report] at hm
          split at hm
          · exact hm
          · split at hm
            · rw [reportLoopEnd_pending] at hm
              simp at hm
            · rwa [reportLoopEnd_pending] at hm
  | wake i =>
      simp only [act, withSession]
      cases hs : server.sessions i with
      | none => exact h
      | some s => exact h.setSession_of_eq hs (flush_fst s).1
  | hangup i =>
      simp only [act, withSession]
      cases hs : server.sessions i with
      | none => exact h
      | some s => exact h.setSession_of_eq hs rfl
  | close i =>
      simp only [act, withSession]
      cases hs : server.sessions i with
      | none => exact h
      | some s =>
          refine ((removeAll_sourced h hwired s.expire).bind fun server₁ h₁ => ?_).bind
            fun server' hserver => hserver
          refine Sourced.removeListeners h₁ _ fun j u hu => ?_
          by_cases hj : j = i
          · simp [hj] at hu
          · simpa [hj] using hu

/-! ### Tags -/

variable {T₀ F₀ : Option String → Prop} {s₁ : PdsSession}

theorem tagged_reportLoopEnd (h : Tagged T₀ F₀ s) : Tagged T₀ F₀ s.reportLoopEnd := by
  rw [PdsSession.reportLoopEnd]
  split
  · exact h
  · exact ⟨by simp, h.flush⟩

theorem tagged_report (h : Tagged T₀ F₀ s) : Tagged T₀ F₀ s.report.1 := by
  rw [PdsSession.report]
  split
  · exact ⟨by simp, h.flush⟩
  · split
    · exact tagged_reportLoopEnd ⟨h.report, h.flush⟩
    · exact tagged_reportLoopEnd h

theorem tagged_flush (h : Tagged T₀ F₀ s) : Tagged T₀ F₀ s.flush.1 := by
  rw [PdsSession.flush]
  split
  · exact h
  · split
    · exact h
    · exact ⟨h.report, by simp⟩

theorem tagged_setReportPeriod (h : Tagged T₀ F₀ s) (cmdtag : Option String) {period : ℕ}
    {tag : Option String} (htag : period ≠ 0 → T₀ tag) :
    Tagged T₀ F₀ (s.setReportPeriod cmdtag tag period).1 := by
  rw [PdsSession.setReportPeriod]
  split
  · split
    · exact ⟨fun _ => htag, h.flush⟩
    · exact ⟨fun _ => htag, h.flush⟩
  · split
    · exact ⟨fun _ => htag, h.flush⟩
    · exact ⟨fun _ => htag, h.flush⟩

theorem effect_tagged (h : c.Effect s s₁) (hs : Tagged (T i) (F i) s)
    (hc : Sends K D T F (.command i c)) : Tagged (T i) (F i) s₁ := by
  rw [Command.Effect] at h
  split at h
  · rwa [h]
  · rename_i htag
    cases c with
    | set cmdtag key val forsession =>
        obtain rfl : s₁ = _ := h
        split
        · exact ⟨hs.report, hs.flush⟩
        · exact hs
    | listen cmdtag pattern listenid =>
        obtain ⟨args, rfl⟩ := h
        exact ⟨hs.report, hs.flush⟩
    | report cmdtag period reportCmdtag =>
        obtain rfl : s₁ = _ := h
        split
        · exact hs
        · exact tagged_setReportPeriod hs cmdtag fun hperiod => hc htag hperiod (by omega)
    | flush cmdtag =>
        obtain rfl : s₁ = _ := h
        refine tagged_flush ⟨hs.report, fun cmdtag' n hflush => ?_⟩
        obtain ⟨rfl, -⟩ := Prod.mk.inj (Option.some.inj hflush)
        exact hc htag
    | ignore cmdtag listenid =>
        obtain rfl | ⟨args, rfl⟩ := h
        · exact hs
        · exact ⟨hs.report, hs.flush⟩
    | quit cmdtag =>
        obtain rfl : s₁ = _ := h
        exact ⟨hs.report, hs.flush⟩
    | _ =>
        obtain rfl : s₁ = _ := h
        exact hs

theorem effectOn_tagged (h : a.EffectOn s (some s₁)) (hs : Tagged (T i) (F i) s)
    (ha : a.session = some i) (hsends : Sends K D T F a) : Tagged (T i) (F i) s₁ := by
  cases a with
  | connect => contradiction
  | command j c =>
      obtain rfl : j = i := Option.some.inj ha
      obtain ⟨_, ⟨⟩, hc⟩ := h
      exact effect_tagged hc hs hsends
  | report j =>
      obtain rfl := Option.some.inj h
      exact tagged_report hs
  | wake j =>
      obtain rfl := Option.some.inj h
      exact tagged_flush hs
  | hangup j =>
      obtain rfl := Option.some.inj h
      exact ⟨hs.report, hs.flush⟩
  | close j => contradiction

theorem Stepped.tagged {r : PdictServer × List (ℕ × Line)} (h : Stepped a server r)
    (hsends : Sends K D T F a)
    (htagged : ∀ i s, server.sessions i = some s → Tagged (T i) (F i) s)
    (hs' : r.1.sessions i = some s') : Tagged (T i) (F i) s' := by
  obtain ⟨s₁, t, rfl, -, ⟨-, -, -, rfl⟩ | ⟨s, hs, heff⟩⟩ := h.cases hs'
  · exact ⟨by simp [PdsSession.alloc], by simp [PdsSession.alloc]⟩
  · have hs₁ : Tagged (T i) (F i) s₁ := by
      split at heff
      · exact effectOn_tagged heff (htagged i s hs) ‹_› hsends
      · exact heff ▸ htagged i s hs
    exact ⟨hs₁.report, hs₁.flush⟩

/-! ### Runs -/

/-- A report line has the tag of its session, and a notice that has waited there. -/
theorem mem_report {tag : Option String} {m : IdPdeMap} (h : Line.pending tag m ∈ s.report.2) :
    s.reportPeriod ≠ 0 ∧ tag = s.reportCmdtag ∧ m ∈ toList s.pending := by
  rw [PdsSession.report] at h
  split at h
  · simp at h
  · rename_i hperiod
    refine ⟨hperiod, ?_⟩
    split at h
    · obtain ⟨q, hq, heq⟩ : ∃ q ∈ postorder 0 s.pending,
          Line.pending s.reportCmdtag q.1 = .pending tag m := by
        simpa using h
      obtain ⟨rfl, rfl⟩ := Line.pending.inj heq
      exact ⟨rfl, (perm_postorder 0 s.pending).mem_iff.1 (List.mem_map_of_mem hq)⟩
    · simp at h

/-- What holds of a server whose commands keep to `K`, `D`, `T` and `F`. -/
structure Sound (K : String → String → Prop) (D : SessionListener → Prop)
    (T F : ℕ → Option String → Prop) (server : PdictServer) : Prop where
  inv : ∃ outs, Inv (fun _ => True) server outs
  sourced : Sourced K D server
  tagged : ∀ i s, server.sessions i = some s → Tagged (T i) (F i) s

theorem Sound.act (h : Sound K D T F server) (ha : Sends K D T F a) :
    Ends (fun _ => True) (fun r => Stepped a server r ∧ Sound K D T F r.1)
      (server.act regcomp a) := by
  obtain ⟨outs, hinv⟩ := h.inv
  have hkeeps := (hinv.act regcomp (listens_true a)).mono_error fun _ _ => trivial
  refine ((hkeeps.and (act_stepped hinv.sessions_nextId a)).and
    (act_sourced h.sourced hinv.wired ha)).mono ?_
  rintro r ⟨⟨hinv', hr⟩, hsourced⟩
  exact ⟨hr, ⟨_, hinv'⟩, hsourced, fun i s hs => hr.tagged ha h.tagged hs⟩

/-- A step writes the report lines of a session that reports. -/
theorem Sound.pending_mem (h : Sound K D T F server) {r : PdictServer × List (ℕ × Line)}
    (hr : Stepped a server r) (hcan : server.can a = true) {tag : Option String} {m : IdPdeMap}
    (hmem : (i, Line.pending tag m) ∈ r.2) : T i tag ∧ D (i, m.id) ∧ K m.key m.val := by
  obtain ⟨-, s, hs, hreporting, hline⟩ := hr.pending_mem hcan hmem
  obtain ⟨hperiod, rfl, hm⟩ := mem_report hline
  exact ⟨(h.tagged i s hs).report hreporting hperiod, h.sourced.pending i s hs m hm⟩

end PdictServer

end CTDSensorSuite

import CTDSensorSuite.Phidget.PdictBooks
import CTDSensorSuite.Phidget.PdictNotify

/-!
# What the clients of the dictionary server know

A client that has listened under an id can keep a copy of the part of the dictionary that
its patterns select: it reads the report lines with this id one after the other, and
begins anew when it has had the id ignored. What it knows is then what the dictionary
holds, but for the notices that still wait in its session (`told_run`, `told_report`). So
the server may keep only the latest notice for every key without a client missing a
change.

The server stays alive: no notice goes to a session that is gone, and `ipmcmp` aborts
only if some client listens under an id that does not start with an `l` (`crash_run`).
-/

namespace CTDSensorSuite

open SearchTree Reactive

namespace PdictServer

/-! ### The invariant -/

/-- The listeners of the sessions, for every session that is there. -/
def args (server : PdictServer) (i : ℕ) : Option (BinaryTree NotifyArg) :=
  (server.sessions i).map PdsSession.notifyArgs

/-- What the clients have been told, with what waits for them, is what there is to hear. -/
structure Synced (pd : Pdict SessionListener) (sessions : ℕ → Option PdsSession)
    (outs : List (ℕ × Line)) : Prop where
  ordered : ∀ i s, sessions i = some s → Ordered IdPdeMap.sortKey s.pending
  knows : ∀ i s, sessions i = some s → ∀ d k,
    ((waiting s.pending d k).or (latest (Line.news i d k) outs)).join = pd.heard (i, d) k

/-- What holds of the server and the lines that it has written. -/
structure Inv (D : SessionListener → Prop) (server : PdictServer) (outs : List (ℕ × Line)) : Prop where
  wired : server.pd.Wired
  booked : Booked D server.nextId server.pd.persistentListeners server.args
  synced : Synced server.pd server.sessions outs
  outs_lt : ∀ o ∈ outs, o.1 < server.nextId

variable {D : SessionListener → Prop} {s s' : PdsSession} {i : ℕ} {d : String}
  {server : PdictServer} {pd : Pdict SessionListener} {outs : List (ℕ × Line)}
  {notices : List (Notice SessionListener)}

theorem Inv.lt_nextId (h : Inv D server outs) (hs : server.sessions i = some s) :
    i < server.nextId := by
  by_contra hi
  have hnone := h.booked.fresh i (Nat.le_of_not_lt hi)
  simp [args, hs] at hnone

/-- After a change that the dictionary has announced the sessions are in step with it. -/
theorem changed_ends {pd₀ : Pdict SessionListener} (hann : pd₀.Announced pd notices)
    (hbooked : Booked D server.nextId pd.persistentListeners server.args)
    (hsync : Synced pd₀ server.sessions outs) (houts : ∀ o ∈ outs, o.1 < server.nextId) :
    Ends (Aborts D) (fun server' => Inv D server' outs ∧ server'.pd = pd ∧
        server'.nextId = server.nextId ∧ ∀ i, Grown (server.sessions i) (server'.sessions i))
      (server.changed pd notices) := by
  have hD : ∀ m ∈ notices, D m.listener := fun m hm => by
    obtain ⟨p, hp, hl⟩ := hann.concerns m hm
    exact hl ▸ hbooked.ids p hp
  have halive : ∀ m ∈ notices, server.sessions m.listener.1 ≠ none := fun m hm => by
    obtain ⟨p, hp, hl⟩ := hann.concerns m hm
    obtain ⟨t, nap, hargs, -⟩ := hbooked.owned p hp
    rw [hl] at hargs
    intro hnone
    simp [args, hnone] at hargs
  have hgo : Ends (Aborts D)
      (fun sessions => ∀ i, Notified notices i (server.sessions i) (sessions i))
      (notifyAll notices server.sessions) :=
    (notifyAll_ends hD).mono_error fun crash =>
      Or.rec id fun ⟨m, hm, hnone⟩ => absurd hnone (halive m hm)
  refine hgo.bind fun sessions' hn => ?_
  have hargs : PdictServer.args { server with pd, sessions := sessions' } = server.args :=
    funext fun i => (hn i).grown.map_notifyArgs
  have hsession : ∀ i s', sessions' i = some s' → ∃ s, server.sessions i = some s ∧
      Notified notices i (some s) (some s') := by
    intro i s' hs'
    have hi := hn i
    rw [hs'] at hi
    cases hs : server.sessions i with
    | some s => exact ⟨s, rfl, hs ▸ hi⟩
    | none =>
        rw [hs] at hi
        exact absurd hi (by simp [Notified])
  refine ⟨⟨hann.wired, hargs ▸ hbooked, ⟨fun i s' hs' => ?_, fun i s' hs' d k => ?_⟩, houts⟩, rfl,
    rfl, fun i => (hn i).grown⟩
  · obtain ⟨s, hs, t, ⟨⟩, hwait⟩ := hsession i s' hs'
    exact (hwait (hsync.ordered i s hs)).1
  · obtain ⟨s, hs, t, ⟨⟩, hwait⟩ := hsession i s' hs'
    rw [hann.tells, ← hsync.knows i s hs, (hwait (hsync.ordered i s hs)).2]
    cases latest (Notice.news (i, d) k) notices <;> rfl

/-- The removal of the keys of a list. -/
theorem removeAll_ends (h : Inv D server outs) (ks : List String) :
    Ends (Aborts D) (fun server' => Inv D server' outs ∧
        server'.pd.persistentListeners = server.pd.persistentListeners ∧
        (∀ k, server'.pd.lookup k = if k ∈ ks then none else server.pd.lookup k) ∧
        server'.nextId = server.nextId ∧ ∀ i, Grown (server.sessions i) (server'.sessions i))
      (removeAll ks server) := by
  induction ks generalizing server with
  | nil => exact ⟨h, rfl, by simp, rfl, fun i => grown_refl _⟩
  | cons k ks ih =>
      rw [removeAll]
      cases hr : server.pd.entRemove k with
      | none =>
          have hk : server.pd.lookup k = none := by
            simpa [Pdict.entRemove, Pdict.lookup] using hr
          refine (ih h).mono ?_
          rintro server' ⟨hinv, hpls, hlookup, hnext, hgrown⟩
          refine ⟨hinv, hpls, fun k' => ?_, hnext, hgrown⟩
          rw [hlookup]
          by_cases hkk : k' = k
          · simp [hkk, hk]
          · simp [hkk]
      | some r =>
          obtain ⟨pd, notices, v⟩ := r
          obtain ⟨-, hpls, hlookup⟩ := h.wired.entRemove hr
          have hann := h.wired.announced_entRemove hr
          refine (changed_ends hann (hpls ▸ h.booked) h.synced h.outs_lt).bind ?_
          rintro server₁ ⟨hinv₁, rfl, hnext₁, hgrown₁⟩
          refine (ih hinv₁).mono ?_
          rintro server' ⟨hinv, hpls', hlookup', hnext, hgrown⟩
          refine ⟨hinv, hpls'.trans hpls, fun k' => ?_, hnext.trans hnext₁,
            fun i => (hgrown₁ i).trans (hgrown i)⟩
          rw [hlookup', hlookup]
          by_cases hkk : k' = k
          · simp [hkk]
          · simp [hkk]

/-! ### Steps of a session -/

@[simp] theorem sessions_setSession (server : PdictServer) (i : ℕ) (s : PdsSession) :
    (server.setSession i s).sessions = Function.update server.sessions i (some s) := rfl

theorem args_setSession (server : PdictServer) (i : ℕ) (s : PdsSession) :
    (server.setSession i s).args = Function.update server.args i (some s.notifyArgs) := by
  funext j
  by_cases hj : j = i
  · subst hj
    simp [args, setSession]
  · simp [args, setSession, hj]

theorem args_setSession_of_eq (hs : server.sessions i = some s)
    (hargs : s'.notifyArgs = s.notifyArgs) : (server.setSession i s').args = server.args := by
  rw [args_setSession, hargs]
  exact Function.update_eq_self_iff.2 (by simp [args, hs])

theorem Synced.setSession (h : Synced pd server.sessions outs) (hs : server.sessions i = some s)
    (hp : s'.pending = s.pending) : Synced pd (server.setSession i s').sessions outs := by
  refine ⟨fun j u hu => ?_, fun j u hu => ?_⟩
  · obtain ⟨rfl, rfl⟩ | ⟨-, hu⟩ := update_eq_some hu
    · exact hp ▸ h.ordered j s hs
    · exact h.ordered j u hu
  · obtain ⟨rfl, rfl⟩ | ⟨-, hu⟩ := update_eq_some hu
    · exact hp ▸ h.knows j s hs
    · exact h.knows j u hu

/-- A session writes lines, and what they do not tell keeps waiting. -/
theorem Inv.write (h : Inv D server outs) (hs : server.sessions i = some s)
    (hargs : s'.notifyArgs = s.notifyArgs) {lines : List Line}
    (hord : Ordered IdPdeMap.sortKey s'.pending)
    (hwait : ∀ d k, (waiting s'.pending d k).or (latest (Line.news i d k) (lines.map (i, ·))) =
      waiting s.pending d k) :
    Inv D (server.setSession i s') (outs ++ lines.map (i, ·)) := by
  refine ⟨h.wired, (args_setSession_of_eq hs hargs).symm ▸ h.booked, ⟨fun j t ht => ?_, fun j t ht d k => ?_⟩, fun o ho => ?_⟩
  · obtain ⟨rfl, rfl⟩ | ⟨-, ht⟩ := update_eq_some ht
    · exact hord
    · exact h.synced.ordered j t ht
  · rw [latest_append, ← Option.or_assoc]
    obtain ⟨rfl, rfl⟩ | ⟨hj, ht⟩ := update_eq_some ht
    · rw [hwait]
      exact h.synced.knows j s hs d k
    · have hnone : latest (Line.news j d k) (lines.map (i, ·)) = none := by
        refine latest_eq_none_iff.2 fun o ho => ?_
        obtain ⟨line, -, rfl⟩ := List.mem_map.1 ho
        exact if_neg (Ne.symm hj)
      rw [hnone, Option.or_none]
      exact h.synced.knows j t ht d k
  · rcases List.mem_append.1 ho with ho | ho
    · exact h.outs_lt o ho
    · obtain ⟨line, -, rfl⟩ := List.mem_map.1 ho
      exact h.lt_nextId hs

/-- A step that changes the ids of a session. -/
theorem Inv.setSession (h : Inv D server outs) (hs : server.sessions i = some s)
    (hp : s'.pending = s.pending)
    (hbooked : Booked D server.nextId server.pd.persistentListeners
      (Function.update server.args i (some s'.notifyArgs))) :
    Inv D (server.setSession i s') outs :=
  ⟨h.wired, (args_setSession server i s').symm ▸ hbooked, h.synced.setSession hs hp, h.outs_lt⟩

/-- A step that changes neither what waits nor the listeners, and answers with results. -/
theorem Inv.answer (h : Inv D server outs) (hs : server.sessions i = some s)
    (hp : s'.pending = s.pending) (hargs : s'.notifyArgs = s.notifyArgs) {lines : List Line}
    (hlines : ∀ line ∈ lines, ∃ cmdtag text, line = .result cmdtag text) :
    Inv D (server.setSession i s') (outs ++ lines.map (i, ·)) := by
  refine h.write hs hargs (hp ▸ h.synced.ordered i s hs) fun d k => ?_
  rw [latest_news_results hlines, Option.or_none, hp]

/-- A step that answers with one result. -/
theorem Inv.answer_result (h : Inv D server outs) (hs : server.sessions i = some s)
    (hp : s'.pending = s.pending) (hargs : s'.notifyArgs = s.notifyArgs) {line : Line}
    (hline : ∃ cmdtag text, line = .result cmdtag text) :
    Inv D (server.setSession i s') (outs ++ [(i, line)]) :=
  h.answer hs hp hargs (List.forall_mem_singleton.2 hline)

/-- A step that only answers. -/
theorem Inv.results (h : Inv D server outs) (hi : i < server.nextId) {lines : List Line}
    (hlines : ∀ line ∈ lines, ∃ cmdtag text, line = .result cmdtag text) :
    Inv D server (outs ++ lines.map (i, ·)) := by
  refine ⟨h.wired, h.booked, ⟨h.synced.ordered, fun j s hs d k => ?_⟩, fun o ho => ?_⟩
  · rw [latest_append, latest_news_results hlines, Option.none_or]
    exact h.synced.knows j s hs d k
  · rcases List.mem_append.1 ho with ho | ho
    · exact h.outs_lt o ho
    · obtain ⟨line, -, rfl⟩ := List.mem_map.1 ho
      exact hi

theorem Inv.result (h : Inv D server outs) (hi : i < server.nextId) (cmdtag : Option String)
    (text : String) : Inv D server (outs ++ [(i, .result cmdtag text)]) :=
  h.results hi (List.forall_mem_singleton.2 ⟨cmdtag, text, rfl⟩)

theorem reportLoopEnd_pending (s : PdsSession) : s.reportLoopEnd.pending = s.pending := by
  rw [PdsSession.reportLoopEnd]
  split <;> rfl

theorem reportLoopEnd_notifyArgs (s : PdsSession) :
    s.reportLoopEnd.notifyArgs = s.notifyArgs := by
  rw [PdsSession.reportLoopEnd]
  split <;> rfl

/-- After a report nothing waits, and the client has been told what there is to hear. -/
theorem Inv.report (h : Inv D server outs) (hs : server.sessions i = some s) :
    Inv D (server.setSession i s.report.1) (outs ++ s.report.2.map (i, ·)) := by
  rw [PdsSession.report]
  split
  · refine h.answer hs ?_ ?_ ?_
    · rfl
    · rfl
    · simp
  · split
    · refine h.write hs ?_ ?_ fun d k => ?_
      · exact reportLoopEnd_notifyArgs _
      · rw [reportLoopEnd_pending]
        exact ordered_nil
      · have hresult : ∀ text, latest (Line.news i d k)
            ([Line.result s.reportCmdtag text].map (i, ·)) = none :=
          fun text => latest_news_results (by simp) i i d k
        rw [reportLoopEnd_pending, List.map_append, List.map_append, latest_append,
          latest_append, hresult, hresult, latest_news_postorder (h.synced.ordered i s hs)]
        simp [waiting, find]
    · refine h.answer hs ?_ ?_ ?_
      · exact reportLoopEnd_pending s
      · exact reportLoopEnd_notifyArgs s
      · simp

/-! ### Connections -/

theorem Inv.heard_eq_none (h : Inv D server outs) (hs : server.sessions i = none) (d k : String) :
    server.pd.heard (i, d) k = none := by
  refine if_neg fun hmem => ?_
  obtain ⟨p, hp, hl⟩ := Pdict.exists_of_mem_listenersAt hmem
  obtain ⟨t, nap, hargs, -⟩ := h.booked.owned p hp
  simp [args, hl, hs] at hargs

theorem Inv.connect (h : Inv D server outs) :
    Inv D { server with
      sessions := Function.update server.sessions server.nextId (some .alloc)
      nextId := server.nextId + 1 } outs := by
  have hnone : server.sessions server.nextId = none := by
    simpa [args] using h.booked.fresh server.nextId le_rfl
  have hargs : ∀ i, PdictServer.args { server with
      sessions := Function.update server.sessions server.nextId (some .alloc)
      nextId := server.nextId + 1 } i =
        if i = server.nextId then some .nil else server.args i := by
    intro i
    by_cases hi : i = server.nextId
    · subst hi
      simp [args, PdsSession.alloc]
    · simp [args, hi]
  refine ⟨h.wired, h.booked.connect hargs, ⟨fun i s hs => ?_, fun i s hs d k => ?_⟩, fun o ho => ?_⟩
  · by_cases hi : i = server.nextId
    · subst hi
      obtain rfl : PdsSession.alloc = s := by simpa using hs
      exact ordered_nil
    · exact h.synced.ordered i s (by simpa [hi] using hs)
  · by_cases hi : i = server.nextId
    · subst hi
      obtain rfl : PdsSession.alloc = s := by simpa using hs
      have houts : latest (Line.news server.nextId d k) outs = none :=
        latest_eq_none_iff.2 fun o ho => if_neg (Nat.ne_of_lt (h.outs_lt o ho))
      rw [h.heard_eq_none hnone, houts]
      rfl
    · exact h.synced.knows i s (by simpa [hi] using hs) d k
  · exact Nat.lt_succ_of_lt (h.outs_lt o ho)

/-! ### Listening and ignoring -/

theorem Inv.ignore (h : Inv D server outs) (hs : server.sessions i = some s)
    (cmdtag : Option String) (d : String) :
    Inv D (server.ignore i s cmdtag d).1 (outs ++ (server.ignore i s cmdtag d).2) := by
  have ht : server.args i = some s.notifyArgs := by simp [args, hs]
  rw [PdictServer.ignore]
  cases hfind : find NotifyArg.listenid d s.notifyArgs with
  | none => exact h.result (h.lt_nextId hs) cmdtag _
  | some nap =>
      obtain ⟨hnap, rfl⟩ := (find_eq_some_iff (h.booked.ordered i _ ht)).1 hfind
      obtain ⟨hnd, hids⟩ := h.booked.listed i _ ht nap hnap
      obtain ⟨hwired, hpls, -, hlookup⟩ := h.wired.removePersistentChangeListeners hnd
        (h.booked.mem_pdIds ht hnap) hids
      have hheard := Pdict.heard_of_filter (q := fun l => l ≠ (i, nap.listenid)) hpls hlookup
      refine ⟨hwired, ?_, ⟨fun j u hu => ?_, fun j u hu d k => ?_⟩, fun o ho => ?_⟩
      · have hbooked := h.booked.erase ht nap.listenid
        rw [← hpls] at hbooked
        exact (args_setSession server i _).symm ▸ hbooked
      · obtain ⟨rfl, rfl⟩ | ⟨-, hu⟩ := update_eq_some hu
        · exact (h.synced.ordered j s hs).sift _
        · exact h.synced.ordered j u hu
      · rw [latest_append_singleton, ← Option.or_assoc]
        refine Eq.trans ?_ (hheard (j, d) k).symm
        obtain ⟨rfl, rfl⟩ | ⟨hj, hu⟩ := update_eq_some hu
        · simp only [waiting_sift (h.synced.ordered j s hs)]
          by_cases hd : d = nap.listenid
          · simp [hd, Line.news]
          · simp [hd, Ne.symm hd, Line.news, h.synced.knows j s hs]
        · simp [Line.news, hj, Ne.symm hj, h.synced.knows j u hu]
      · rcases List.mem_append.1 ho with ho | ho
        · exact h.outs_lt o ho
        · rw [List.mem_singleton.1 ho]
          exact h.lt_nextId hs

theorem Inv.listen (h : Inv D server outs) (hs : server.sessions i = some s)
    (regcomp : String → Option (String → Bool)) (cmdtag : Option String) (pattern : String)
    (hd : D (i, d)) :
    Ends (Aborts D) (fun r => Inv D r.1 (outs ++ r.2))
      (server.listen regcomp i s cmdtag pattern d) := by
  have ht : server.args i = some s.notifyArgs := by simp [args, hs]
  have hord := h.booked.ordered i _ ht
  simp only [PdictServer.listen]
  cases hadd : server.pd.addPersistentChangeListener regcomp pattern (i, d) with
  | none =>
      obtain ⟨hid, huniq, hnap, -⟩ := h.booked.noted (d := d) ht rfl
      have hup := hord.upsert (k := d)
        (f := fun _ => (find NotifyArg.listenid d s.notifyArgs).getD ⟨d, []⟩) hid
      have hmem := fun b => mem_upsert_iff (k := d) (b := b)
        (f := fun _ => (find NotifyArg.listenid d s.notifyArgs).getD ⟨d, []⟩) hord
      refine Inv.result (h.setSession hs ?_ ?_) (h.lt_nextId hs) ..
      · rfl
      · apply h.booked.of_mem ht
        · split
          · exact hup.erase
          · exact hup
        · intro b hb
          split at hb
          · rw [toList_erase hup, List.mem_filter, hmem] at hb
            obtain ⟨rfl | ⟨hb, -⟩, hbd⟩ := hb
            · simp [hid] at hbd
            · exact hb
          · rcases (hmem b).1 hb with rfl | ⟨hb, -⟩
            · exact hnap ‹_›
            · exact hb
        · intro b hb hne
          split
          · rename_i hnil
            have hbd : b.listenid ≠ d := fun hbd => hne (huniq b hb hbd ▸ hnil)
            rw [toList_erase hup, List.mem_filter, hmem]
            exact ⟨.inr ⟨hb, hbd⟩, by simpa using hbd⟩
          · rw [hmem]
            by_cases hbd : b.listenid = d
            · exact .inl (huniq b hb hbd)
            · exact .inr ⟨hb, hbd⟩
  | some r =>
      obtain ⟨pd, notices, lid⟩ := r
      obtain ⟨-, hlid, -, ⟨regex, hpls⟩, -⟩ := h.wired.addPersistentChangeListener hadd
      have hann := h.wired.announced_addPersistentChangeListener hadd
      simp only at hlid hpls hann ⊢
      subst hlid
      have hbooked := h.booked.listen ht h.wired.ids_lt hd regex rfl
      rw [← hpls] at hbooked
      refine (changed_ends hann ?_ (h.synced.setSession hs ?_) h.outs_lt).bind ?_
      · rw [args_setSession]
        exact hbooked
      · rfl
      · rintro server' ⟨hinv, -, hnext, -⟩
        exact hinv.result (hnext ▸ h.lt_nextId hs) cmdtag _

/-! ### The end of a session -/

theorem Inv.close (h : Inv D server outs) (hs : server.sessions i = some s) :
    Ends (Aborts D) (fun server' => Inv D server' outs ∧ server'.sessions i = none ∧
        (∀ d k, server'.pd.heard (i, d) k = none) ∧
        ∀ k, server'.pd.lookup k = if k ∈ s.expire then none else server.pd.lookup k)
      (server.close i s) := by
  refine (removeAll_ends h s.expire).bind ?_
  rintro server₁ ⟨h₁, -, hlookup₁, hnext₁, hgrown⟩
  have ht : server₁.args i = some s.notifyArgs := by
    have hargs := (hgrown i).map_notifyArgs
    rw [hs] at hargs
    exact hargs
  have hord := h₁.booked.ordered i _ ht
  -- the listeners in the order in which they are removed
  have hperm := perm_postorder 0 s.notifyArgs
  have hids : ((postorder 0 s.notifyArgs).flatMap fun q => q.1.pdIds) =
      ((postorder 0 s.notifyArgs).map Prod.fst).flatMap NotifyArg.pdIds := by
    rw [List.flatMap_map]
  have hnd : (((postorder 0 s.notifyArgs).map Prod.fst).map NotifyArg.listenid).Nodup := by
    rw [(hperm.map NotifyArg.listenid).nodup_iff, List.Nodup, List.pairwise_map]
    exact hord.imp fun hlt => hlt.ne
  obtain ⟨hwired, hpls, hlookup⟩ := removeAllOf h₁.wired hnd fun nap hnap => by
    have hmem := hperm.mem_iff.1 hnap
    obtain ⟨hids, hex⟩ := h₁.booked.listed i _ ht nap hmem
    exact ⟨hids, h₁.booked.mem_pdIds ht hmem, hex⟩
  rw [← hids] at hwired hpls hlookup
  have hheard := Pdict.heard_of_filter
    (q := fun l => l ∉ ((postorder 0 s.notifyArgs).map Prod.fst).map fun nap => (i, nap.listenid))
    hpls hlookup
  have hargs : ∀ j, PdictServer.args { server₁ with
      sessions := Function.update server₁.sessions i none } j =
        if j = i then none else server₁.args j := by
    intro j
    by_cases hj : j = i
    · simp [args, hj]
    · simp [args, hj]
  have hsession : ∀ j u, Function.update server₁.sessions i none j = some u →
      j ≠ i ∧ server₁.sessions j = some u := by
    intro j u hu
    by_cases hj : j = i
    · simp [hj] at hu
    · exact ⟨hj, by simpa [hj] using hu⟩
  have hmem : ∀ p, p ∈ (server₁.pd.removePersistentChangeListeners
      ((postorder 0 s.notifyArgs).flatMap fun q => q.1.pdIds)).persistentListeners ↔
        p ∈ server₁.pd.persistentListeners ∧ p.2.listener.1 ≠ i := by
    intro p
    rw [hpls, List.mem_filter]
    refine and_congr_right fun hp => ?_
    rw [decide_eq_true_iff, List.mem_map]
    constructor
    · rintro hnot rfl
      obtain ⟨u, nap, hu, hnap, hid, -⟩ := h₁.booked.owned p hp
      obtain rfl := Option.some.inj (ht.symm.trans hu)
      exact hnot ⟨nap, hperm.mem_iff.2 hnap, by rw [hid]⟩
    · rintro hne ⟨nap, -, hl⟩
      exact hne (by rw [← hl])
  have hinv : Inv D { server₁ with
      pd := server₁.pd.removePersistentChangeListeners
        ((postorder 0 s.notifyArgs).flatMap fun q => q.1.pdIds)
      sessions := Function.update server₁.sessions i none } outs := by
    refine ⟨hwired, h₁.booked.close hmem hargs, ⟨fun j u hu => ?_, fun j u hu d k => ?_⟩, h₁.outs_lt⟩
    · exact h₁.synced.ordered j u (hsession j u hu).2
    · obtain ⟨hj, hu⟩ := hsession j u hu
      refine (h₁.synced.knows j u hu d k).trans (Eq.trans ?_ (hheard (j, d) k).symm)
      rw [if_pos]
      simp [Ne.symm hj]
  refine ⟨hinv, Function.update_self .., hinv.heard_eq_none (Function.update_self ..), fun k => ?_⟩
  exact (hlookup k).trans (hlookup₁ k)

/-! ### Runs -/

/-- The listener that an action adds is in `D`. -/
def Listens (D : SessionListener → Prop) : Action → Prop
  | .command i (.listen _ _ d) => D (i, d)
  | _ => True

theorem listens_true (a : Action) : Listens (fun _ => True) a := by
  cases a with
  | command i c => cases c <;> trivial
  | _ => trivial

theorem setReportPeriod_fst (s : PdsSession) (cmdtag reportCmdtag : Option String) (period : ℕ) :
    (s.setReportPeriod cmdtag reportCmdtag period).1.pending = s.pending ∧
      (s.setReportPeriod cmdtag reportCmdtag period).1.notifyArgs = s.notifyArgs ∧
      ∃ tag text, (s.setReportPeriod cmdtag reportCmdtag period).2 = .result tag text := by
  rw [PdsSession.setReportPeriod]
  split
  · split <;> exact ⟨rfl, rfl, _, _, rfl⟩
  · split <;> exact ⟨rfl, rfl, _, _, rfl⟩

theorem flush_fst (s : PdsSession) :
    s.flush.1.pending = s.pending ∧ s.flush.1.notifyArgs = s.notifyArgs ∧
      ∀ line ∈ s.flush.2, ∃ tag text, line = .result tag text := by
  rw [PdsSession.flush]
  split
  · exact ⟨rfl, rfl, by simp⟩
  · split
    · exact ⟨rfl, rfl, by simp⟩
    · exact ⟨rfl, rfl, by simp⟩

theorem lines_get (cmdtag : Option String) (wa : List (String × String)) :
    ∀ line ∈ wa.map fun e => Line.result cmdtag ("200-key " ++ e.1 ++ " value " ++ e.2),
      ∃ tag text, line = .result tag text := by
  intro line hline
  obtain ⟨e, -, rfl⟩ := List.mem_map.1 hline
  exact ⟨_, _, rfl⟩

theorem Inv.processLine (h : Inv D server outs) (hs : server.sessions i = some s)
    (regcomp : String → Option (String → Bool)) (c : Command) (hc : Listens D (.command i c)) :
    Ends (Aborts D) (fun r => Inv D r.1 (outs ++ r.2)) (server.processLine regcomp i s c) := by
  have hi := h.lt_nextId hs
  unfold PdictServer.processLine
  split
  · exact h.result hi ..
  · cases c with
    | set cmdtag key val forsession =>
        have hann := h.wired.announced_add key val
        have hbooked := h.booked
        rw [← h.wired.persistentListeners_add key val] at hbooked
        refine (changed_ends hann ?_ (h.synced.setSession hs ?_) h.outs_lt).bind ?_
        · rw [args_setSession_of_eq hs (by split <;> rfl)]
          exact hbooked
        · split <;> rfl
        · rintro server' ⟨hinv, -, hnext, -⟩
          exact hinv.result (hnext ▸ hi) ..
    | listen cmdtag pattern listenid => exact h.listen hs regcomp cmdtag pattern hc
    | report cmdtag period reportCmdtag =>
        dsimp only
        split
        · exact h.result hi ..
        · obtain ⟨hp, hargs, hline⟩ := setReportPeriod_fst s cmdtag reportCmdtag period
          exact h.answer_result hs hp hargs hline
    | wait cmdtag period =>
        dsimp only
        split
        · exact h.result hi ..
        · exact h.result hi ..
    | flush cmdtag =>
        obtain ⟨hp, hargs, hlines⟩ := flush_fst { s with flushing := some (cmdtag, s.nreport) }
        exact h.answer hs hp hargs hlines
    | walk cmdtag remove pattern =>
        dsimp only
        split
        · exact h.result hi ..
        · split
          · refine (removeAll_ends h _).bind ?_
            rintro server' ⟨hinv, -, -, hnext, -⟩
            exact hinv.result (hnext ▸ hi) ..
          · have hget := h.results hi (lines_get cmdtag (server.pd.walk ‹_›))
            rw [List.map_map] at hget
            rw [ends_ok, ← List.append_assoc]
            exact hget.result hi ..
    | ignore cmdtag listenid => exact h.ignore hs cmdtag listenid
    | quit cmdtag =>
        refine h.answer_result hs ?_ ?_ ⟨_, _, rfl⟩
        · rfl
        · rfl
    | getSessionId cmdtag => exact h.result hi ..
    | reportAck =>
        rw [← List.append_nil outs] at h
        exact h
    | unrecognized line => exact h.result hi ..

/-- Every step of the server keeps the invariant, or aborts. -/
theorem Inv.act (h : Inv D server outs) (regcomp : String → Option (String → Bool)) {a : Action}
    (ha : Listens D a) :
    Ends (Aborts D) (fun r => Inv D r.1 (outs ++ r.2)) (server.act regcomp a) := by
  have hidle : Inv D server (outs ++ []) := by rwa [List.append_nil]
  cases a with
  | connect =>
      rw [← List.append_nil outs] at h
      exact h.connect
  | command i c =>
      simp only [PdictServer.act, withSession]
      cases hs : server.sessions i with
      | none => exact hidle
      | some s => exact h.processLine hs regcomp c ha
  | report i =>
      simp only [PdictServer.act, withSession]
      cases hs : server.sessions i with
      | none => exact hidle
      | some s => exact h.report hs
  | wake i =>
      simp only [PdictServer.act, withSession]
      cases hs : server.sessions i with
      | none => exact hidle
      | some s =>
          obtain ⟨hp, hargs, hlines⟩ := flush_fst s
          exact h.answer hs hp hargs hlines
  | hangup i =>
      simp only [PdictServer.act, withSession]
      cases hs : server.sessions i with
      | none => exact hidle
      | some s =>
          have hclosing : Inv D (server.setSession i { s with shouldClose := true })
              (outs ++ ([] : List Line).map (i, ·)) := by
            refine h.answer hs ?_ ?_ ?_
            · rfl
            · rfl
            · simp
          exact hclosing
  | close i =>
      simp only [PdictServer.act, withSession]
      cases hs : server.sessions i with
      | none => exact hidle
      | some s =>
          refine (h.close hs).bind ?_
          rintro server' ⟨hinv, -⟩
          rw [← List.append_nil outs] at hinv
          exact hinv

theorem inv_alloc (D : SessionListener → Prop) : Inv D alloc [] :=
  ⟨Pdict.wired_alloc, ⟨by simp [args, alloc], by simp [args, alloc],
    by simp [alloc, Pdict.alloc], by simp [args, alloc], by simp [alloc, Pdict.alloc]⟩,
    ⟨by simp [alloc], by simp [alloc]⟩, by simp⟩

/-- Every run from the start keeps the invariant, or aborts. -/
theorem run_ends (regcomp : String → Option (String → Bool)) {run : List Action}
    (h : (machine regcomp).Admissible (.ok alloc) run) (hD : ∀ a ∈ run, Listens D a) :
    Ends (Aborts D) (fun server => Inv D server ((machine regcomp).outputs (.ok alloc) run))
      ((machine regcomp).after (.ok alloc) run) :=
  Machine.Admissible.history_crashing (J := fun server _ outs => Inv D server outs)
    (fun _ _ _ _ hinv _ ha => hinv.act regcomp ha) h hD (inv_alloc D)

theorem inv_after {regcomp : String → Option (String → Bool)} {run : List Action}
    (h : (machine regcomp).Admissible (.ok alloc) run)
    (hafter : (machine regcomp).after (.ok alloc) run = .ok server) :
    Inv (fun _ => True) server ((machine regcomp).outputs (.ok alloc) run) := by
  have hends := run_ends regcomp h fun a _ => listens_true a
  rwa [hafter] at hends

/-- Patterns for keys that they are a prefix of. -/
def prefixRegcomp (pattern : String) : Option (String → Bool) :=
  if pattern = "(" then none else some fun key => pattern.isPrefixOf key

/-- The session `i` after a run. -/
def sessionAfter (run : List Action) (i : ℕ) : Option PdsSession :=
  match (machine prefixRegcomp).after (.ok alloc) run with
  | .ok server => server.sessions i
  | .error _ => none

theorem exists_of_sessionAfter (run : List Action) (i : ℕ) (p : PdsSession → Bool)
    (h : (sessionAfter run i).any p = true) :
    ∃ server s, (machine prefixRegcomp).after (.ok alloc) run = .ok server ∧
      server.sessions i = some s ∧ p s = true := by
  obtain ⟨s, hs, hp⟩ := (Option.any_eq_true _ _).1 h
  rw [sessionAfter] at hs
  cases hafter : (machine prefixRegcomp).after (.ok alloc) run with
  | error crash => simp [hafter] at hs
  | ok server => exact ⟨server, s, rfl, by simpa [hafter] using hs, hp⟩

end PdictServer

end CTDSensorSuite

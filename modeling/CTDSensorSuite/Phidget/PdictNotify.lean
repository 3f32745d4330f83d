import CTDSensorSuite.Phidget.PdictListeners
import CTDSensorSuite.Phidget.PdictServer

/-!
# Notices on their way to the clients

A notice of the dictionary waits in its session until a report line tells it to the
client, and of several notices about one key only the last one waits. The lemmas say what
waits after notices have been given (`Notified`), and that a report tells it all
(`latest_news_postorder`).

A notice goes through unless `ipmcmp` aborts on its id (`notifyAll_ends`).
-/

namespace CTDSensorSuite

open SearchTree Reactive

/-- The value that a notice leaves under its key, `none` when the entry goes. -/
def IdPdeMap.told (m : IdPdeMap) : Option String :=
  if m.reason = .entryRemoving then none else some m.val

/-- What a line tells the client of the session `i` about the key `k` under the id `d`. -/
def Line.news (i : ℕ) (d k : String) (o : ℕ × Line) : Option (Option String) :=
  if o.1 = i then
    match o.2 with
    | .pending _ m => if m.id = d ∧ m.key = k then some m.told else none
    | .ignored _ d' _ => if d' = d then some none else none
    | .result _ _ => none
  else none

/-- What waits for the client about the key `k` under the id `d`. -/
def waiting (t : BinaryTree IdPdeMap) (d k : String) : Option (Option String) :=
  (find IdPdeMap.sortKey (toLex (d, k)) t).map IdPdeMap.told

namespace PdictServer

/-- The one crash that can be: a search for a listener of `D` whose id does not start with an
`l`. -/
def Aborts (D : SessionListener → Prop) (crash : Crash) : Prop :=
  crash = .abort ∧ ∃ l, D l ∧ l.2.toList.head? ≠ some 'l'

/-! ### Notices on their way to the sessions -/

/-- The session `i` has got its part of the notices, and nothing else in it has changed. -/
def Notified (notices : List (Notice SessionListener)) (i : ℕ) (o o' : Option PdsSession) :
    Prop :=
  match o with
  | none => o' = none
  | some s => ∃ t, o' = some { s with pending := t } ∧ (Ordered IdPdeMap.sortKey s.pending →
      Ordered IdPdeMap.sortKey t ∧ ∀ d k,
        waiting t d k = (latest (Notice.news (i, d) k) notices).or (waiting s.pending d k))

/-- A session, where there is one, has got notices of some kind: what has waited still waits or
has been replaced. -/
def Grown (o o' : Option PdsSession) : Prop :=
  match o with
  | none => o' = none
  | some s => ∃ t, o' = some { s with pending := t } ∧ (Ordered IdPdeMap.sortKey s.pending →
      Ordered IdPdeMap.sortKey t ∧ ∀ d k, waiting s.pending d k ≠ none → waiting t d k ≠ none)

variable {D : SessionListener → Prop} {s s' : PdsSession} {i : ℕ} {d k v : String} {r : PdictReason}
  {o o' o'' : Option PdsSession} {notices notices' : List (Notice SessionListener)}
  {sessions sessions' : ℕ → Option PdsSession}

theorem grown_refl (o : Option PdsSession) : Grown o o := by
  cases o with
  | none => rfl
  | some s => exact ⟨s.pending, rfl, fun hord => ⟨hord, fun _ _ => id⟩⟩

theorem Grown.trans (h : Grown o o') (h' : Grown o' o'') : Grown o o'' := by
  cases o with
  | none =>
      obtain rfl : o' = none := h
      exact h'
  | some s =>
      obtain ⟨t, rfl, hkeep⟩ := h
      obtain ⟨t', rfl, hkeep'⟩ := h'
      refine ⟨t', rfl, fun hord => ?_⟩
      obtain ⟨hord', hwait⟩ := hkeep hord
      obtain ⟨hord'', hwait'⟩ := hkeep' hord'
      exact ⟨hord'', fun d k hs => hwait' d k (hwait d k hs)⟩

theorem Grown.map_notifyArgs (h : Grown o o') :
    o'.map PdsSession.notifyArgs = o.map PdsSession.notifyArgs := by
  cases o with
  | none =>
      obtain rfl : o' = none := h
      rfl
  | some s =>
      obtain ⟨t, rfl, -⟩ := h
      rfl

theorem Grown.keeps (h : Grown (some s) (some s')) (hord : Ordered IdPdeMap.sortKey s.pending)
    (hwait : waiting s.pending d k ≠ none) : waiting s'.pending d k ≠ none := by
  obtain ⟨t, ⟨⟩, hkeep⟩ := h
  exact (hkeep hord).2 d k hwait

theorem Notified.grown (h : Notified notices i o o') : Grown o o' := by
  cases o with
  | none => exact h
  | some s =>
      obtain ⟨t, rfl, hwait⟩ := h
      refine ⟨t, rfl, fun hord => ⟨(hwait hord).1, fun d k hs => ?_⟩⟩
      rw [(hwait hord).2]
      cases latest (Notice.news (i, d) k) notices with
      | none => exact hs
      | some v => simp

/-- Notices for other sessions. -/
theorem notified_of_ne (h : ∀ m ∈ notices, m.listener.1 ≠ i) (o : Option PdsSession) :
    Notified notices i o o := by
  cases o with
  | none => rfl
  | some s =>
      refine ⟨s.pending, rfl, fun hord => ⟨hord, fun d k => ?_⟩⟩
      have hnone : latest (Notice.news (i, d) k) notices = none :=
        latest_eq_none_iff.2 fun m hm => if_neg fun hnews => h m hm (by rw [hnews.1])
      rw [hnone, Option.none_or]

theorem Notified.append (h : Notified notices i o o') (h' : Notified notices' i o' o'') :
    Notified (notices ++ notices') i o o'' := by
  cases o with
  | none =>
      obtain rfl : o' = none := h
      exact h'
  | some s =>
      obtain ⟨t, rfl, hwait⟩ := h
      obtain ⟨t', rfl, hwait'⟩ := h'
      refine ⟨t', rfl, fun hord => ⟨(hwait' (hwait hord).1).1, fun d k => ?_⟩⟩
      rw [(hwait' (hwait hord).1).2, (hwait hord).2, latest_append, Option.or_assoc]

/-- A session gets a notice, or the comparison aborts. -/
theorem notify_ends (m : Notice SessionListener) (hd : D m.listener) :
    Ends (Aborts D) (fun s' => Notified [m] m.listener.1 (some s) (some s'))
      (s.notify m.listener.2 m.key m.val m.reason) := by
  rw [PdsSession.notify]
  split
  · rename_i hcond
    rw [Bool.and_eq_true, decide_eq_true_iff] at hcond
    exact ⟨rfl, _, hd, hcond.2⟩
  · rw [ends_ok]
    refine ⟨_, rfl, fun hord => ⟨hord.upsert rfl, fun d' k' => ?_⟩⟩
    rw [waiting, find_upsert hord rfl, latest_singleton, waiting]
    by_cases hdk : m.listener = (m.listener.1, d') ∧ m.key = k'
    · obtain ⟨hd', rfl⟩ := hdk
      obtain rfl : m.listener.2 = d' := congrArg Prod.snd hd'
      simp [IdPdeMap.sortKey, Notice.news, Notice.told, IdPdeMap.told]
    · have hne : ¬ (d' = m.listener.2 ∧ k' = m.key) := fun h => hdk ⟨by rw [h.1], h.2.symm⟩
      simp [IdPdeMap.sortKey, Notice.news, hdk, hne]

/-- All notices go through, or one aborts, or a session is missing. -/
theorem notifyAll_ends (hD : ∀ m ∈ notices, D m.listener) :
    Ends (fun crash => Aborts D crash ∨ ∃ m ∈ notices, sessions m.listener.1 = none)
      (fun sessions' => ∀ i, Notified notices i (sessions i) (sessions' i))
      (notifyAll notices sessions) := by
  induction notices generalizing sessions with
  | nil => exact fun i => notified_of_ne (by simp) _
  | cons m notices ih =>
      rw [notifyAll]
      cases hs : sessions m.listener.1 with
      | none => exact .inr ⟨m, by simp, hs⟩
      | some s =>
          refine ((notify_ends m (hD m (by simp))).mono_error fun _ => .inl).bind fun s' hs' => ?_
          have hone : ∀ i, Notified [m] i (sessions i)
              (Function.update sessions m.listener.1 (some s') i) := by
            intro i
            by_cases hi : i = m.listener.1
            · subst hi
              rw [Function.update_self, hs]
              exact hs'
            · rw [Function.update_of_ne hi]
              exact notified_of_ne (by simpa using Ne.symm hi) _
          refine ((ih fun m' hm' => hD m' (by simp [hm'])).mono
            fun sessions' hrest i => (hone i).append (hrest i)).mono_error fun crash => ?_
          refine Or.imp_right fun ⟨m', hm', hnone⟩ => ⟨m', by simp [hm'], ?_⟩
          by_cases hi : m'.listener.1 = m.listener.1
          · simp [hi] at hnone
          · rwa [Function.update_of_ne hi] at hnone

/-! ### What lines tell -/

/-- Results tell nothing. -/
theorem latest_news_results {lines : List Line}
    (h : ∀ line ∈ lines, ∃ cmdtag text, line = .result cmdtag text) (i j : ℕ) (d k : String) :
    latest (Line.news i d k) (lines.map (j, ·)) = none := by
  refine latest_eq_none_iff.2 fun o ho => ?_
  obtain ⟨line, hline, rfl⟩ := List.mem_map.1 ho
  obtain ⟨cmdtag, text, rfl⟩ := h line hline
  simp [Line.news]

/-- The report lines tell what has waited. -/
theorem latest_news_postorder {t : BinaryTree IdPdeMap} (h : Ordered IdPdeMap.sortKey t)
    (tag : Option String) (i : ℕ) (d k : String) :
    latest (Line.news i d k) (((postorder 0 t).map fun q => Line.pending tag q.1).map (i, ·)) =
      waiting t d k := by
  have hmem : ∀ m, (∃ o ∈ ((postorder 0 t).map fun q => Line.pending tag q.1).map (i, ·),
      o = (i, .pending tag m)) ↔ m ∈ toList t := by
    intro m
    rw [← (perm_postorder 0 t).mem_iff]
    simp
  have hnews : ∀ m : IdPdeMap, Line.news i d k (i, .pending tag m) =
      if m.sortKey = toLex (d, k) then some m.told else none := by
    intro m
    simp [Line.news, IdPdeMap.sortKey]
  have hlines : ∀ o ∈ ((postorder 0 t).map fun q => Line.pending tag q.1).map (i, ·),
      ∃ m ∈ toList t, o = (i, .pending tag m) := by
    intro o ho
    obtain ⟨line, hline, rfl⟩ := List.mem_map.1 ho
    obtain ⟨q, hq, rfl⟩ := List.mem_map.1 hline
    exact ⟨q.1, (hmem q.1).1 ⟨_, ho, rfl⟩, rfl⟩
  rw [waiting]
  cases hfind : find IdPdeMap.sortKey (toLex (d, k)) t with
  | none =>
      refine latest_eq_none_iff.2 fun o ho => ?_
      obtain ⟨m, hm, rfl⟩ := hlines o ho
      rw [hnews, if_neg ((find_eq_none_iff h).1 hfind m hm)]
  | some m =>
      obtain ⟨hm, hkey⟩ := (find_eq_some_iff h).1 hfind
      refine latest_eq_some_of_forall (fun o ho c hc => ?_) ?_
      · obtain ⟨m', hm', rfl⟩ := hlines o ho
        rw [hnews] at hc
        split at hc
        · rename_i hkey'
          rw [h.eq_of_key_eq hm hm' (hkey.trans hkey'.symm)]
          exact (Option.some.inj hc).symm
        · simp at hc
      · obtain ⟨o, ho, rfl⟩ := (hmem m).2 hm
        exact ⟨_, ho, by rw [hnews, if_pos hkey]⟩

/-- When an id is ignored, nothing waits under it any more. -/
theorem waiting_sift {u : BinaryTree IdPdeMap} (h : Ordered IdPdeMap.sortKey u) (d d' k : String) :
    waiting (sift (fun m => m.id ≠ d) u) d' k = if d' = d then none else waiting u d' k := by
  rw [waiting, find_sift h, waiting]
  cases hfind : find IdPdeMap.sortKey (toLex (d', k)) u with
  | none => simp
  | some m =>
      have hid : m.id = d' := congrArg (fun c => (ofLex c).1) ((find_eq_some_iff h).1 hfind).2
      by_cases hd : d' = d
      · simp [hd, hid]
      · simp [hd, hid]

end PdictServer

end CTDSensorSuite

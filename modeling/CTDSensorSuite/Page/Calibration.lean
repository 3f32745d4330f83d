import CTDSensorSuite.Page.Table
import CTDSensorSuite.Server.Fanout

/-!
# From the kit to the page

With a single client the server and its page make one instrument: a reading goes
through the listener of the client and is written to the row of its channel, and
a tick writes the two rows of the IMU. After any sequence of readings and ticks
the page shows, row by row, the conversion of the latest reading of the channel,
and the latest answers of the bridge (`rows_page`).

`calibrated` is what the rows are meant to show. The server's conversion agrees
with it on every channel but the temperature, where `data.value *= 9 / 5 + 32`
scales the Celsius value by the whole right-hand side instead of adding 32. The
two agree at the one raw value that stands for one degree Celsius.
-/

namespace CTDSensorSuite

open Reactive Server

/-- The Celsius value of a raw value on the temperature channel. -/
def celsius (v : ℚ) : ℚ := ((5.22 * v) * (100 / 1024)) / 10

/-- What the row of a channel is to show for a raw value. -/
def calibrated : ℕ → ℚ → ℚ
  | 4, v => 9 / 5 * celsius v + 32
  | 5, v => 250 * (v / 1024 + 0.04)
  | 6, v => 12 * v / 1024
  | _, v => v

theorem conversion_four_eq_calibrated_iff (v : ℚ) :
    conversion 4 v = calibrated 4 v ↔ v = 5120 / 261 := by
  rw [conversion_four]
  simp only [calibrated, celsius]
  constructor
  · intro h
    linarith
  · rintro rfl
    norm_num

theorem conversion_eq_calibrated {i : ℕ} (h4 : i ≠ 4) (v : ℚ) :
    conversion i v = calibrated i v := by
  by_cases h5 : i = 5
  · subst h5
    exact conversion_five v
  by_cases h6 : i = 6
  · subst h6
    exact conversion_six v
  · rw [conversion_of_ne h4 h5 h6]
    match i, h4, h5, h6 with
    | 0, _, _, _ | 1, _, _, _ | 2, _, _, _ | 3, _, _, _ => rfl
    | _ + 7, _, _, _ => rfl

variable {Socket : Type*} [DecidableEq Socket]

def readingOf (i : ℕ) : Server.Action Socket → Option ℚ
  | .sensor j v => if j = i then some v else none
  | _ => none

/-- The answers of the bridge in a tick of the timer of `socket`. -/
def imuOf (socket : Socket) : Server.Action Socket → Option (String × ℚ)
  | .tick t pose depth => if t = socket then some (pose, depth) else none
  | _ => none

/-- What an action brings for the cell `id` of the client of `socket`, when readings
are shown through `convert`: the cells 8 and 9 hold the answers of the bridge, every
other one the readings of its own channel. -/
def cellOf (convert : ℕ → ℚ → ℚ) (socket : Socket) (id : ℕ) (a : Server.Action Socket) :
    Option JsValue :=
  match id with
  | 8 => (imuOf socket a).map fun imu => .string imu.1
  | 9 => (imuOf socket a).map fun imu => .number imu.2
  | i => (readingOf i a).map fun v => .number (convert i v)

theorem cellOf_of_ne (convert : ℕ → ℚ → ℚ) (socket : Socket) {id : ℕ} (h8 : id ≠ 8)
    (h9 : id ≠ 9) (a : Server.Action Socket) :
    cellOf convert socket id a = (readingOf id a).map fun v => .number (convert id v) := by
  unfold cellOf
  split
  · exact absurd rfl h8
  · exact absurd rfl h9
  · rfl

/-- The kit has eight channels. -/
def IsKitReading : Server.Action Socket → Prop
  | .sensor i _ => i ≤ 7
  | _ => True

/-- A reading of one of the eight channels of the kit, or a tick. -/
def IsService : Server.Action Socket → Prop
  | .sensor i _ => i ≤ 7
  | .tick _ _ _ => True
  | _ => False

instance : ∀ a : Server.Action Socket, Decidable (IsService a)
  | .sensor i _ => inferInstanceAs (Decidable (i ≤ 7))
  | .tick _ _ _ => inferInstanceAs (Decidable True)
  | .connect _ => inferInstanceAs (Decidable False)
  | .disconnect _ => inferInstanceAs (Decidable False)

omit [DecidableEq Socket] in
theorem IsService.isKitReading {a : Server.Action Socket} (h : IsService a) :
    IsKitReading a := by
  cases a with
  | sensor i v => exact h
  | connect | disconnect | tick => trivial

theorem cellOf_sensor (convert : ℕ → ℚ → ℚ) (socket : Socket) {i : ℕ} (hi : i ≤ 7) (v : ℚ)
    (id : ℕ) :
    cellOf convert socket id (.sensor i v) =
      if i = id then some (.number (convert id v)) else none := by
  unfold cellOf
  split
  · exact (if_neg (by omega)).symm
  · exact (if_neg (by omega)).symm
  · by_cases hid : i = id
    · simp [readingOf, hid]
    · simp [readingOf, hid]

/-- What a client with `n` clients before it is sent for an action brings its cells
what the action brings them, with readings converted `n + 1` times over. -/
theorem latest_feedAt (n : ℕ) (socket : Socket) {a : Server.Action Socket}
    (hkit : IsKitReading a) (id : ℕ) :
    latest (Page.valueFor id) (feedAt n socket a) =
      cellOf (fun i => (conversion i)^[n + 1]) socket id a := by
  cases a with
  | connect | disconnect =>
      unfold cellOf
      split
      · rfl
      · rfl
      · rfl
  | sensor i v =>
      rw [cellOf_sensor _ socket hkit, feedAt, latest_singleton, Page.valueFor]
      by_cases hid : i = id
      · rw [hid]
      · rw [if_neg hid, if_neg hid]
  | tick t pose depth =>
      by_cases ht : t = socket
      · unfold cellOf
        split
        · simp [feedAt, ht, latest_cons, Page.valueFor, imuOf]
        · simp [feedAt, ht, latest_cons, Page.valueFor, imuOf]
        · rename_i h8 h9
          have hne : ¬ 8 = id ∧ ¬ 9 = id := ⟨fun h => h8 h.symm, fun h => h9 h.symm⟩
          simp [feedAt, ht, latest_cons, Page.valueFor, readingOf, hne]
      · unfold cellOf
        split
        · simp [feedAt, ht, imuOf]
        · simp [feedAt, ht, imuOf]
        · simp [feedAt, ht, readingOf]

/-- The rows of the page of any client, from its connection on: the latest reading
of each channel, converted once for the client and once for each client before it,
and the latest answers of the bridge in its own ticks. -/
theorem rows_session {socket : Socket} {pre mid : List (Server.Action Socket)}
    (h : Server.machine.Admissible Server.init (pre ++ .connect socket :: mid))
    (hkit : ∀ a ∈ mid, IsKitReading a) :
    (Page.loaded.receiveAll (messagesTo socket
        (Server.machine.outputs Server.init (pre ++ .connect socket :: mid)))).rows =
      Page.block fun id =>
        latest (cellOf (fun i => (conversion i)^[(connections pre).length + 1]) socket id) mid := by
  have hcells : ∀ id,
      latest (Page.valueFor id) (mid.flatMap (feedAt (connections pre).length socket)) =
        latest (cellOf (fun i => (conversion i)^[(connections pre).length + 1]) socket id)
          mid := by
    intro id
    rw [latest_flatMap]
    exact latest_congr fun a ha => latest_feedAt _ socket (hkit a ha) id
  have hsensors :
      (mid.flatMap (feedAt (connections pre).length socket)).countP Page.isSensors = 0 := by
    rw [Page.countP_isSensors_eq_zero_iff]
    intro test hmem
    obtain ⟨a, -, hm⟩ := List.mem_flatMap.1 hmem
    exact sensors_notMem_feedAt _ socket a hm
  rw [messagesTo_run h, messagesTo_session h, Page.rows_receiveAll, hsensors]
  simp only [hcells, List.replicate_zero, List.flatten_nil, List.append_nil]

/-- The rows of the page of the only client. -/
theorem rows_page {socket : Socket} {pre post : List (Server.Action Socket)}
    (h : Server.machine.Admissible Server.init (pre ++ .connect socket :: post))
    (hone : connections (pre ++ .connect socket :: post) = [socket])
    (hkit : ∀ a ∈ post, IsKitReading a) :
    (Page.loaded.receiveAll (messagesTo socket
        (Server.machine.outputs Server.init (pre ++ .connect socket :: post)))).rows =
      Page.block fun id => latest (cellOf conversion socket id) post := by
  have hnone : connections pre = [] := by
    have hlength := congrArg List.length hone
    have hcons : connections (.connect socket :: post) = socket :: connections post := rfl
    rw [connections_append, hcons, List.length_append, List.length_cons,
      List.length_singleton] at hlength
    exact List.eq_nil_of_length_eq_zero (by omega)
  have hrows := rows_session h hkit
  rw [hnone] at hrows
  exact hrows

/-- The page of the only client shows every reading calibrated, and the latest pose
and depth, exactly when the latest reading of the temperature channel, if there is
one, is the raw value of one degree Celsius. -/
theorem rows_page_calibrated_iff {socket : Socket} {pre post : List (Server.Action Socket)}
    (h : Server.machine.Admissible Server.init (pre ++ .connect socket :: post))
    (hone : connections (pre ++ .connect socket :: post) = [socket])
    (hservice : ∀ a ∈ post, IsService a) :
    (Page.loaded.receiveAll (messagesTo socket
        (Server.machine.outputs Server.init (pre ++ .connect socket :: post)))).rows =
      Page.block (fun id => latest (cellOf calibrated socket id) post) ↔
      ∀ v, latest (readingOf 4) post = some v → v = 5120 / 261 := by
  rw [rows_page h hone fun a ha => (hservice a ha).isKitReading, Page.block_eq_iff]
  have hcell : ∀ convert, latest (cellOf convert socket 4) post =
      (latest (readingOf 4) post).map fun v => .number (convert 4 v) := fun convert =>
    latest_map (readingOf 4) (fun v => JsValue.number (convert 4 v)) post
  constructor
  · intro hrows v hv
    have hfour := hrows 4 (by decide)
    rw [hcell, hcell, hv] at hfour
    exact (conversion_four_eq_calibrated_iff v).1 (JsValue.number.inj (Option.some.inj hfour))
  · intro hv id hid
    by_cases h4 : id = 4
    · subst h4
      rw [hcell, hcell]
      cases hlatest : latest (readingOf 4) post with
      | none => rfl
      | some v =>
          have hconv := (conversion_four_eq_calibrated_iff v).2 (hv v hlatest)
          exact congrArg (fun q => some (JsValue.number q)) hconv
    · apply latest_congr
      intro a _
      unfold cellOf
      split
      · rfl
      · rfl
      · simp only [conversion_eq_calibrated h4]

/-- A client that sees readings of three channels, the temperature one at one degree
Celsius, and a tick. -/
theorem rows_page_calibrated_iff_one_degree :
    (Page.loaded.receiveAll (messagesTo 0 (Server.machine.outputs Server.init
        ([.sensor 4 3] ++ .connect 0 ::
          ([.sensor 5 512, .tick 0 "level" 2, .sensor 6 4, .sensor 4 (5120 / 261)] :
            List (Server.Action ℕ)))))).rows =
      Page.block (fun id => latest (cellOf calibrated 0 id)
        ([.sensor 5 512, .tick 0 "level" 2, .sensor 6 4, .sensor 4 (5120 / 261)] :
          List (Server.Action ℕ))) ↔
      ∀ v, latest (readingOf 4)
        ([.sensor 5 512, .tick 0 "level" 2, .sensor 6 4, .sensor 4 (5120 / 261)] :
          List (Server.Action ℕ)) = some v → v = 5120 / 261 :=
  rows_page_calibrated_iff (by decide) rfl (by decide)

/-- At half of full scale the page shows 882 degrees Fahrenheit and a fraction, where
the Celsius value is 26.1. -/
theorem not_calibrated_half_scale :
    Server.machine.Admissible Server.init
        ([] ++ .connect 0 :: ([.sensor 4 512] : List (Server.Action ℕ))) ∧
      (Page.loaded.receiveAll (messagesTo 0 (Server.machine.outputs Server.init
        ([] ++ .connect 0 :: ([.sensor 4 512] : List (Server.Action ℕ)))))).rows ≠
      Page.block (fun id => latest (cellOf calibrated 0 id)
        ([.sensor 4 512] : List (Server.Action ℕ))) := by
  have hservice : ∀ a ∈ ([.sensor 4 512] : List (Server.Action ℕ)), IsService a := by decide
  refine ⟨by decide, fun h => ?_⟩
  rw [rows_page (by decide) rfl (fun a ha => (hservice a ha).isKitReading), Page.block_eq_iff] at h
  have hcell : some (JsValue.number (conversion 4 512)) =
      some (JsValue.number (calibrated 4 512)) := h 4 (by decide)
  have hvalue := (conversion_four_eq_calibrated_iff 512).1
    (JsValue.number.inj (Option.some.inj hcell))
  norm_num at hvalue

end CTDSensorSuite

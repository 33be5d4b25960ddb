/-
Requests over the wire (`clock-wire.c`).

Encoding a request writes the fields of its operation and no others, and reads
them back first; decoding reads the same object from the text.  What comes back
is the request with those fields, a label as the C string it is, and zeros
elsewhere (`Request.kept`).  Both requests have the same object, so the owner
cannot tell them apart.

Main results:
- `readAlarmSpec_inv`, `readRequest_inv`: what the readers hand out;
- `makeRequest_kept`: the fields that were dropped were not written;
- `request_roundtrip`: decoding inverts encoding, up to the unused fields.
-/
import Fplinux.Clock.RoundTrip

namespace Clock

open Bytes (ascii)
open Json (print Fits FitsMembers)
open Option (bind_eq_bind bind_eq_some_iff bind_some)

/-! ### Encoder and decoder -/

def requestEncode (request : Request) (capacity : ℕ) : Except Status (List UInt8) :=
  match readRequest (makeRequest request) with
  | none => .error .invalid
  | some _ => writeObject (makeRequest request) capacity

def requestDecode (tokener : Tokener) (text : List UInt8) : Option Request :=
  (parseObject tokener text).bind readRequest

/-! ### What is kept -/

/-- A specification with its label as a C string. -/
def AlarmSpec.cut (spec : AlarmSpec) : AlarmSpec :=
  { spec with label := spec.label.takeWhile (· ≠ 0) }

/-- The operation of a request and the row it names. -/
def Request.named (request : Request) : Request :=
  { Request.zero with
    op := request.op
    id := if request.op.hasId then request.id else 0
    cancelActive := if request.op.hasCancel then request.cancelActive else false }

/-- A request with the fields of its operation, and zeros elsewhere. -/
def Request.kept (request : Request) : Request :=
  match request.op with
  | .alarmAdd | .alarmEdit => { request.named with alarm := request.alarm.cut }
  | .alarmEnable => { request.named with enabled := request.enabled }
  | .dismiss => { request.named with eventId := request.eventId }
  | .snooze => { request.named with eventId := request.eventId, minutes := request.minutes }
  | .timerSet => { request.named with seconds := request.seconds }
  | .worldAdd | .worldEdit => { request.named with offsetMinutes := request.offsetMinutes }
  | .setView => { request.named with view := request.view }
  | .setSnooze => { request.named with minutes := request.minutes }
  | _ => request.named

/-- The ranges of the fields that are written. -/
structure Request.InRange (request : Request) : Prop where
  id : request.op.hasId = true → request.id < 2 ^ 32
  alarm : request.op = .alarmAdd ∨ request.op = .alarmEdit → SpecOk request.alarm.cut
  eventId : request.op = .dismiss ∨ request.op = .snooze → request.eventId < 2 ^ 64
  minutes : request.op = .snooze ∨ request.op = .setSnooze → request.minutes ≤ 30
  seconds : request.op = .timerSet → request.seconds ≤ timerMaxSeconds
  offset : request.op = .worldAdd ∨ request.op = .worldEdit →
    worldOffsetValid request.offsetMinutes = true

/-! ### Readers -/

variable {name : String} {object : Json} {count : ℕ} {read request : Request}

theorem unsignedValue_inv {maximum n m : ℕ} (hfield : field object name = some (.int m))
    (h : unsignedValue object name maximum = some n) :
    n = m ∧ m ≤ maximum := by
  rw [unsignedValue, hfield] at h
  simp only at h
  split at h
  · simp at h
  · split at h
    · rename_i hle
      rw [Int.toNat_natCast] at h hle
      exact ⟨(Option.some.inj h).symm, hle⟩
    · simp at h

theorem signedValue_inv {minimum maximum n m : ℤ} (hfield : field object name = some (.int m))
    (h : signedValue object name minimum maximum = some n) : n = m ∧ minimum ≤ m ∧ m ≤ maximum := by
  rw [signedValue, hfield] at h
  simp only at h
  split at h
  · simp at h
  · split at h
    · rename_i hrange
      exact ⟨(Option.some.inj h).symm, hrange⟩
    · simp at h

theorem booleanValue_inv {a b : Bool} (hfield : field object name = some (.bool a))
    (h : booleanValue object name = some b) :
    b = a := by
  rw [booleanValue_of_field hfield] at h
  exact (Option.some.inj h).symm

theorem textValue_inv {value label : List UInt8} (hfield : field object name = some (text value))
    (h : textValue object name true = some label) :
    label = value.takeWhile (· ≠ 0) ∧ LabelOk label := by
  refine ⟨?_, textValue_labelOk h⟩
  rw [textValue, hfield, text] at h
  split at h
  · rename_i hstr
    split at hstr
    · obtain rfl := Json.str.inj (Option.some.inj hstr)
      split at h
      · exact (Option.some.inj h).symm
      · simp at h
    · simp at hstr
  · simp at h

theorem offsetValue_inv {n m : ℤ} (hfield : field object "offset_minutes" = some (.int m))
    (h : offsetValue object = some n) :
    n = m ∧ worldOffsetValid m = true := by
  rw [offsetValue, bind_eq_bind, bind_eq_some_iff] at h
  obtain ⟨value, hvalue, h⟩ := h
  obtain ⟨rfl, -⟩ := signedValue_inv hfield hvalue
  split at h
  · rename_i hvalid
    exact ⟨(Option.some.inj h).symm, hvalid⟩
  · simp at h

theorem LabelOk.validateString {label : List UInt8} (h : LabelOk label) :
    validateString label true = .ok := by
  have hall : label.takeWhile (· ≠ 0) = label := by
    have htext := h.text_eq
    rw [text] at htext
    split at htext
    · exact Json.str.inj htext
    · simp at htext
  have hlen := h.scalars.1
  rw [Clock.validateString, hall, List.take_of_length_le (by omega)]
  exact h

/-- **What the reader of a specification hands out.** -/
theorem readAlarmSpec_inv {spec spec' : AlarmSpec}
    (h : readAlarmSpec (makeAlarmSpec spec) = some spec') : spec' = spec.cut ∧ SpecOk spec' := by
  have hlabelOk := readAlarmSpec_labelOk h
  rw [readAlarmSpec] at h
  split at h
  · simp only [bind_eq_bind, bind_eq_some_iff] at h
    obtain ⟨label, hlabel, schedule, hschedule, onceUtc, honce, hour, hhour, minute, hminute, days,
      hdays, enabled, henabled, h⟩ := h
    obtain ⟨rfl, hok⟩ := textValue_inv rfl hlabel
    obtain ⟨rfl, -⟩ := unsignedValue_inv rfl hschedule
    obtain ⟨rfl, -, hmax⟩ := signedValue_inv rfl honce
    obtain ⟨rfl, hhours⟩ := unsignedValue_inv rfl hhour
    obtain ⟨rfl, hminutes⟩ := unsignedValue_inv rfl hminute
    obtain ⟨rfl, hrepeat⟩ := unsignedValue_inv rfl hdays
    obtain rfl := booleanValue_inv rfl henabled
    rw [Schedule.ofCode_code] at h
    have hstring := hok.validateString
    -- Both kinds of schedule are checked alike, by rules of their own.
    cases hsched : spec.schedule
    all_goals
      rw [hsched] at h
      simp only at h
      split at h
      case isFalse => simp at h
      rename_i hrules
      obtain rfl := Option.some.inj h
      refine ⟨by rw [AlarmSpec.cut, ← hsched], hlabelOk, ?_⟩
      rw [validSpec]
      simp only [hstring, ne_eq, not_true_eq_false, if_false, decide_eq_true_eq]
    · exact ⟨validWall_iff.mpr ⟨hrules.1, hmax⟩, hrules.2⟩
    · exact ⟨hrules.1, by omega, by omega, hrules.2, hrepeat⟩
  · simp at h

/-! ### Requests -/

theorem find_requestName (op : RequestOp) :
    requestOps.find? (fun other => decide (ascii (requestName op) = ascii (requestName other))) =
      some op := by
  cases op with
  | _ => decide

theorem readOp_makeRequest (request : Request) :
    requestOps.find? (fun op => literalValue (makeRequest request) "op" (requestName op)) =
      some request.op := by
  have hfield : field (makeRequest request) "op" =
      some (.str (ascii (requestName request.op))) := rfl
  simp only [literalValue_of_field hfield, find_requestName]

theorem readId_inv
    (h : readId (makeRequest request) { Request.zero with op := request.op } = some (read, count)) :
    read = { Request.zero with
        op := request.op
        id := if request.op.hasId then request.id else 0 } ∧
      (request.op.hasId = true → request.id < 2 ^ 32) := by
  rw [readId] at h
  by_cases hid : request.op.hasId = true
  · have hfield : field (makeRequest request) "id" = some (.int request.id) := by
      rw [makeRequest, hid]
      rfl
    simp only [hid, if_true, bind_eq_bind, bind_eq_some_iff] at h ⊢
    obtain ⟨id, hvalue, h⟩ := h
    obtain ⟨rfl, hle⟩ := unsignedValue_inv hfield hvalue
    split at h
    · simp at h
    · obtain ⟨rfl, -⟩ := Prod.mk.inj (Option.some.inj h)
      refine ⟨rfl, fun _ => ?_⟩
      rw [Word.maxVal] at hle
      omega
  · simp only [hid, Bool.false_eq_true, if_false] at h ⊢
    obtain ⟨rfl, -⟩ := Prod.mk.inj (Option.some.inj h)
    exact ⟨rfl, fun hno => absurd hno (by simp)⟩

theorem readCancel_inv {id : ℕ}
    (h : readCancel (makeRequest request) { Request.zero with op := request.op, id := id } =
      some (read, count)) :
    read = { Request.zero with
      op := request.op
      id := id
      cancelActive := if request.op.hasCancel then request.cancelActive else false } := by
  rw [readCancel] at h
  by_cases hcancel : request.op.hasCancel = true
  · have hfield : field (makeRequest request) "cancel_active" =
        some (.bool request.cancelActive) := by
      obtain ⟨op, _⟩ := request
      cases op with
      | alarmEdit | alarmEnable | alarmDelete => rfl
      | _ => cases hcancel
    simp only [hcancel, if_true, bind_eq_bind, bind_eq_some_iff] at h ⊢
    obtain ⟨cancelActive, hvalue, h⟩ := h
    obtain rfl := booleanValue_inv hfield hvalue
    exact (Prod.mk.inj (Option.some.inj h)).1.symm
  · simp only [hcancel, Bool.false_eq_true, if_false] at h ⊢
    exact (Prod.mk.inj (Option.some.inj h)).1.symm

theorem inRange_plain (hid : request.op.hasId = true → request.id < 2 ^ 32)
    (h : request.op ∉ [.alarmAdd, .alarmEdit, .dismiss, .snooze, .timerSet, .worldAdd, .worldEdit,
      .setSnooze]) :
    request.InRange := by
  simp only [List.mem_cons, List.not_mem_nil, or_false, not_or] at h
  exact ⟨hid, by tauto, by tauto, by tauto, by tauto, by tauto⟩

theorem unsigned_bind {maximum n : ℕ} {rest : ℕ → Option (Request × ℕ)}
    (hfield : field object name = some (.int n))
    (h : (unsignedValue object name maximum).bind rest = some (read, count)) :
    n ≤ maximum ∧ rest n = some (read, count) := by
  obtain ⟨m, hm, h⟩ := bind_eq_some_iff.mp h
  obtain ⟨rfl, hle⟩ := unsignedValue_inv hfield hm
  exact ⟨hle, h⟩

/-- **What the reader of the arguments hands out.** -/
theorem readArguments_inv (hid : request.op.hasId = true → request.id < 2 ^ 32)
    (h : readArguments (makeRequest request) request.named = some (read, count)) :
    read = request.kept ∧ request.InRange := by
  have hread : ∀ {result : Request} {n : ℕ}, some (result, n) = some (read, count) →
      read = result := fun heq => (Prod.mk.inj (Option.some.inj heq)).1.symm
  obtain ⟨op, _⟩ := request
  cases op with
  | dismiss =>
    obtain ⟨hle, h⟩ := unsigned_bind (by rfl) h
    split at h
    · simp at h
    · rw [Word.maxVal] at hle
      exact ⟨hread h, hid, by simp, fun _ => by omega, by simp, by simp, by simp⟩
  | snooze =>
    obtain ⟨hle, h⟩ := unsigned_bind (by rfl) h
    split at h
    · simp at h
    · obtain ⟨hle', h⟩ := unsigned_bind (by rfl) h
      rw [Word.maxVal] at hle
      exact ⟨hread h, hid, by simp, fun _ => by omega, fun _ => hle', by simp, by simp⟩
  | timerSet =>
    obtain ⟨hle, h⟩ := unsigned_bind (by rfl) h
    exact ⟨hread h, hid, by simp, by simp, by simp, fun _ => hle, by simp⟩
  | setView =>
    obtain ⟨-, h⟩ := unsigned_bind (by rfl) h
    rw [View.ofCode_code] at h
    exact ⟨hread h, inRange_plain hid (by simp)⟩
  | setSnooze =>
    obtain ⟨hle, h⟩ := unsigned_bind (by rfl) h
    split at h
    · simp at h
    · exact ⟨hread h, hid, by simp, by simp, fun _ => hle, by simp, by simp⟩
  | alarmAdd | alarmEdit =>
    obtain ⟨alarm, halarm, h⟩ := bind_eq_some_iff.mp h
    obtain ⟨rfl, hok⟩ := readAlarmSpec_inv halarm
    exact ⟨hread h, hid, fun _ => hok, by simp, by simp, by simp, by simp⟩
  | alarmEnable =>
    unfold readArguments at h
    obtain ⟨enabled, henabled, h⟩ := bind_eq_some_iff.mp h
    obtain rfl := booleanValue_inv (by rfl) henabled
    exact ⟨hread h, inRange_plain hid (by simp)⟩
  | worldAdd | worldEdit =>
    obtain ⟨offset, hoffset, h⟩ := bind_eq_some_iff.mp h
    obtain ⟨rfl, hvalid⟩ := offsetValue_inv (by rfl) hoffset
    exact ⟨hread h, hid, by simp, by simp, by simp, by simp, fun _ => hvalid⟩
  | _ => exact ⟨hread h, inRange_plain hid (by simp)⟩

/-- **What the reader of a request hands out.** -/
theorem readRequest_inv (h : readRequest (makeRequest request) = some read) :
    read = request.kept ∧ request.InRange := by
  simp only [readRequest, readOp_makeRequest, bind_eq_bind, bind_some,
    bind_eq_some_iff] at h
  obtain ⟨⟨withId, ids⟩, hid, ⟨named, cancels⟩, hcancel, ⟨full, count⟩, harguments, h⟩ := h
  obtain ⟨rfl, hidRange⟩ := readId_inv hid
  obtain rfl := readCancel_inv hcancel
  simp only at h harguments
  split at h
  · obtain rfl := Option.some.inj h
    exact readArguments_inv hidRange harguments
  · simp at h

/-! ### Round trip -/

theorem makeAlarmSpec_cut (spec : AlarmSpec) : makeAlarmSpec spec.cut = makeAlarmSpec spec := by
  have htext : text spec.cut.label = text spec.label := by
    rw [text, text, AlarmSpec.cut]
    simp only [List.takeWhile_idem]
  rw [makeAlarmSpec, htext]
  rfl

theorem kept_op (request : Request) : request.kept.op = request.op := by
  rw [Request.kept]
  split
  all_goals rfl

/-- **The fields that were dropped were not written.** -/
theorem makeRequest_kept (request : Request) : makeRequest request.kept = makeRequest request := by
  obtain ⟨op, alarm, _⟩ := request
  cases op with
  | alarmAdd | alarmEdit =>
    simp only [makeRequest, makeArguments, Request.kept, makeAlarmSpec_cut]
    rfl
  | _ => rfl

theorem fits_requestName (op : RequestOp) {depth : ℕ} :
    Fits TextOk (.str (ascii (requestName op))) depth 40 := by
  refine fits_literal (n := 19) ?_ ?_
  · cases op with
    | _ => rfl
  · cases op with
    | _ => decide

theorem fits_makeArguments (h : request.InRange) :
    ∃ size ≤ 369, FitsMembers TextOk (makeArguments request) 1 size := by
  rw [makeArguments]
  cases hop : request.op with
  | alarmAdd | alarmEdit =>
    have hfits := @fits_makeAlarmSpec _ (h.alarm (by simp [hop])) 0
    rw [makeAlarmSpec_cut] at hfits
    exact ⟨_, by decide, .cons rfl hfits .nil⟩
  | alarmEnable => exact ⟨_, by decide, .cons rfl (Fits.bool _) .nil⟩
  | dismiss => exact ⟨_, by decide, .cons rfl (fits64 (h.eventId (by simp [hop]))) .nil⟩
  | snooze =>
    exact ⟨_, by decide, .cons rfl (fits64 (h.eventId (by simp [hop]))) <|
      .cons rfl (fits_le 1 (h.minutes (by simp [hop])) (by decide) (by decide)) .nil⟩
  | timerSet =>
    exact ⟨_, by decide, .cons rfl (fits_le 5 (h.seconds hop) (by decide) (by decide)) .nil⟩
  | worldAdd | worldEdit =>
    have hbounds := offset_bounds (h.offset (by simp [hop]))
    exact ⟨_, by decide, .cons rfl (Fits.signed (k := 2) (by omega) (by omega)) .nil⟩
  | setView => exact ⟨_, by decide, .cons rfl (fits_le 0 request.view.code_le (by decide) (by decide)) .nil⟩
  | setSnooze =>
    exact ⟨_, by decide, .cons rfl (fits_le 1 (h.minutes (by simp [hop])) (by decide) (by decide)) .nil⟩
  | _ => exact ⟨_, by decide, .nil⟩

theorem fits_makeRequest (h : request.InRange) :
    ∃ size ≤ 455, Fits TextOk (makeRequest request) 2 size := by
  obtain ⟨size, hsize, harguments⟩ := fits_makeArguments h
  have hnames : (((("op", Json.str (ascii (requestName request.op))) ::
      (if request.op.hasId then [("id", Json.int request.id)] else []) ++
      (if request.op.hasCancel then [("cancel_active", Json.bool request.cancelActive)] else []) ++
      makeArguments request) : List (String × Json)).map (·.1)).Nodup := by
    rw [makeArguments]
    cases hop : request.op with
    | _ => simp [RequestOp.hasId, RequestOp.hasCancel]
  have hcancels : ∃ size ≤ 391, FitsMembers TextOk
      ((if request.op.hasCancel then [("cancel_active", Json.bool request.cancelActive)] else []) ++
        makeArguments request) 1 size := by
    split
    · refine ⟨_, ?_, .cons rfl (Fits.bool _) harguments⟩
      have hname : "cancel_active".length = 13 := rfl
      omega
    · exact ⟨size, by omega, harguments⟩
  obtain ⟨size', hsize', hcancels⟩ := hcancels
  have hids : ∃ size ≤ 407, FitsMembers TextOk
      ((if request.op.hasId then [("id", Json.int request.id)] else []) ++
        ((if request.op.hasCancel then [("cancel_active", Json.bool request.cancelActive)] else []) ++
          makeArguments request)) 1 size := by
    split
    · rename_i hid
      refine ⟨_, ?_, .cons rfl (fits32 (h.id hid)) hcancels⟩
      have hname : "id".length = 2 := rfl
      omega
    · exact ⟨size', by omega, hcancels⟩
  obtain ⟨size'', hsize'', hids⟩ := hids
  rw [← List.append_assoc] at hids
  refine ⟨_, ?_, Fits.obj hnames (.cons rfl (fits_requestName _) hids)⟩
  have hname : "op".length = 2 := rfl
  omega

theorem requestEncode_ok (h : readRequest (makeRequest request) = some read) :
    requestEncode request wireCapacity = .ok (print (makeRequest request)) := by
  obtain ⟨size, hsize, hfits⟩ := fits_makeRequest (readRequest_inv h).2
  have hlen := hfits.length_le
  have hcapacity : wireCapacity = 16384 := rfl
  rw [requestEncode, h]
  simp only [writeObject]
  rw [if_neg (by omega), if_neg (by omega)]

theorem requestApply_kept (model : Model) (request : Request) :
    requestApply model request.kept = requestApply model request := by
  rw [requestApply, requestApply, makeRequest_kept]

/-- **Requests survive the wire**: the text of a request that can be encoded
decodes to the request with the fields of its operation, and applying either has
the same effect on every model. -/
theorem request_roundtrip {tokener : Tokener} (hinv : Inverts tokener) {request : Request}
    {capacity : ℕ} {text : List UInt8} (h : requestEncode request capacity = .ok text) :
    requestDecode tokener text = some request.kept ∧
      ∀ model, requestApply model request.kept = requestApply model request := by
  refine ⟨?_, fun model => requestApply_kept model request⟩
  rw [requestEncode] at h
  split at h
  · simp at h
  · rename_i read hread
    obtain ⟨rfl, hrange⟩ := readRequest_inv hread
    simp only [writeObject] at h
    split at h
    · simp at h
    · split at h
      · simp at h
      · obtain rfl := Except.ok.inj h
        obtain ⟨size, hsize, hfits⟩ := fits_makeRequest hrange
        have hlen : (print (makeRequest request)).length < wireCapacity := by
          have hle := hfits.length_le
          have hcapacity : wireCapacity = 16384 := rfl
          omega
        have hparse : parseObject tokener (print (makeRequest request)) =
            some (makeRequest request) :=
          parseObject_print hinv hfits.plain (Nat.lt_of_le_of_lt hfits.height_le (by decide)) hlen
        rw [requestDecode, hparse]
        exact hread

/-- A request to snooze, with a number above the signed range and a field that is
not its own. -/
theorem request_roundtrip_snooze :
    ∃ text, requestEncode { Request.zero with
        op := .snooze, eventId := 2 ^ 63 + 1, minutes := 5, seconds := 9 } wireCapacity = .ok text ∧
      requestDecode plainTokener text = some { Request.zero with
        op := .snooze, eventId := 2 ^ 63 + 1, minutes := 5 } := by
  have hread : readRequest (makeRequest { Request.zero with
      op := .snooze, eventId := 2 ^ 63 + 1, minutes := 5, seconds := 9 }) =
      some { Request.zero with op := .snooze, eventId := 2 ^ 63 + 1, minutes := 5 } := by
    decide
  have hencode := requestEncode_ok hread
  exact ⟨_, hencode, (request_roundtrip inverts_plainTokener hencode).1⟩

end Clock

/-
Forwarding of a keyboard over USB (`fplinux-usb-keyboard.c`).

Events are written into a buffer, which goes out at the end of a frame or when it is full.
`pending` has the keys of what was written, `pressed` those of what went out.  Sends succeed;
`sent` and `flushes`, which are not in the source, have all bytes that went out, and the bytes and
the pressed keys after each flush.

Main results:
- `queue_spec`, `flush_spec`: the two tables are those of the two streams;
- `resync_spec`: a resynchronisation reaches the physical state;
- `never_stuck`: both over any run, and no key left at its end.
-/
import Mathlib.Order.Fin.Basic
import Fplinux.Host.KeyboardLines

namespace UsbKeyboard

/-! ### The forwarder -/

def synReport : ℕ := 0

def synDropped : ℕ := 3

def bufferBytes : ℕ := 512

structure State where
  buffer : List UInt8 := []
  pressed : KeySet := fun _ => false
  pending : KeySet := fun _ => false
  dropping : Bool := false
  sent : List UInt8 := []
  flushes : List (List UInt8 × KeySet) := []

/-- `struct input_event`. -/
structure InputEvent where
  type : UInt16
  code : UInt16
  value : Int32

/-- `keyboard_modifier`: left and right Shift, Ctrl, Alt and Meta. -/
def keyboardModifier (code : ℕ) : Bool :=
  code ∈ [42, 54, 29, 97, 56, 100, 125, 126]

/-- `flush_keyboard_events`. -/
def flush (s : State) : State :=
  if s.buffer = [] then s
  else { s with
    sent := s.sent ++ s.buffer, pressed := s.pending, buffer := [],
    flushes := (s.sent ++ s.buffer, s.pending) :: s.flushes }

/-- A line is copied into the buffer. -/
def put (s : State) (line : Line) : State :=
  { s with buffer := s.buffer ++ format line, pending := act s.pending line }

/-- `queue_keyboard_event`; a line has at most 24 of the 64 bytes of its array. -/
def queue (s : State) (type code : ℕ) (value : ℤ) : State :=
  let line := Line.event type code value
  put (if (format line).length > bufferBytes - s.buffer.length then flush s else s) line

/-- The body of the loop of `queue_keyboard_state_changes`. -/
def queueChange (physical : KeySet) (down modifiers : Bool) (s : State) (code : Fin keyCnt) :
    State :=
  if physical code ≠ down ∨ s.pending code = down ∨ keyboardModifier code ≠ modifiers then s
  else queue s evKey code (if down then 1 else 0)

/-- `queue_keyboard_state_changes`. -/
def queueStateChanges (physical : KeySet) (s : State) (phase : Bool × Bool) : State :=
  (List.finRange keyCnt).foldl (queueChange physical phase.1 phase.2) s

/-- `resync_keyboard` with a state that could be read. -/
def resync (s : State) (physical : KeySet) : State :=
  let s := [(false, false), (false, true), (true, true), (true, false)].foldl
    (queueStateChanges physical) s
  flush (queue s evSyn synReport 0)

/-- `release_keyboard`. -/
def release (s : State) : State :=
  let s := { s with buffer := [], pending := s.pressed }
  if ∀ code, s.pressed code = false then s
  else
    let s := [(false, false), (false, true)].foldl (queueStateChanges fun _ => false) s
    flush (queue s evSyn synReport 0)

/-- What a round of the loop of `forward_keyboard` meets: an event with the physical state, if it
can be read then, a poll without events, or an interruption. -/
inductive Input
  | event (event : InputEvent) (physical : Option KeySet)
  | timeout
  | interrupted

/-- An event while no frame is dropped. -/
def forward (s : State) (type code : ℕ) (value : ℤ) : State :=
  if type = evSyn ∧ code = synDropped then
    { s with buffer := [], pending := s.pressed, dropping := true }
  else if (type ≠ evKey ∧ type ≠ evSyn) ∨ (type = evKey ∧ value = 2) then s
  else if type = evSyn then flush (queue s type code value)
  else queue s type code value

/-- A round of the loop, and whether the loop goes on. -/
def round (s : State) (input : Input) : State × Bool :=
  match input with
  | .interrupted => (s, true)
  | .timeout => ({ s with sent := s.sent ++ format .blank }, true)
  | .event event physical =>
    let type := event.type.toNat
    let code := event.code.toNat
    if s.dropping then
      if type ≠ evSyn ∨ code ≠ synReport then (s, true)
      else match physical with
      | none => ({ s with dropping := false }, false)
      | some physical => (resync { s with dropping := false } physical, true)
    else (forward s type code event.value.toInt, true)

/-- The loop, up to an exit. -/
def run (s : State) : List Input → State
  | [] => s
  | input :: rest => if (round s input).2 then run (round s input).1 rest else (round s input).1

/-- The channel is reset, and the keys that are down are sent. -/
def started (physical : KeySet) : State := resync { sent := format .reset } physical

/-! ### Streams and tables -/

/-- What went out has the pressed keys, and the buffer leads from them to the pending ones. -/
structure Sound (s : State) : Prop where
  pressed : Reads s.sent s.pressed
  pending : ∃ lines : List Line,
    s.buffer = lines.flatMap format ∧ lines.foldl act s.pressed = s.pending
  length_le : s.buffer.length ≤ bufferBytes
  flushes : ∀ entry ∈ s.flushes, Reads entry.1 entry.2

/-- Lines that are written, and what they do to the pending keys. -/
def Emits (s s' : State) (lines : List Line) : Prop :=
  s'.sent ++ s'.buffer = s.sent ++ s.buffer ++ lines.flatMap format ∧
    s'.pending = lines.foldl act s.pending

variable {s s' s'' : State}

theorem Emits.refl (s : State) : Emits s s [] := ⟨(List.append_nil _).symm, rfl⟩

theorem Emits.trans {lines lines' : List Line} (h : Emits s s' lines) (h' : Emits s' s'' lines') :
    Emits s s'' (lines ++ lines') := by
  constructor
  · rw [h'.1, h.1, List.flatMap_append, List.append_assoc]
  · rw [h'.2, h.2, List.foldl_append]

theorem flush_spec (h : Sound s) :
    Sound (flush s) ∧ Emits s (flush s) [] ∧ (flush s).buffer = [] ∧
      (s.buffer ≠ [] → (flush s).pressed = s.pending) := by
  rw [flush]
  split_ifs with hempty
  · exact ⟨h, Emits.refl s, hempty, fun hfull => absurd hempty hfull⟩
  · have hsent : Reads (s.sent ++ s.buffer) s.pending := by
      obtain ⟨lines, hbuffer, hpending⟩ := h.pending
      rw [hbuffer, ← hpending]
      exact h.pressed.append lines
    refine ⟨⟨hsent, ⟨[], rfl, rfl⟩, Nat.zero_le _, ?_⟩, ⟨by simp, rfl⟩, rfl, fun _ => rfl⟩
    exact List.forall_mem_cons.mpr ⟨hsent, h.flushes⟩

theorem put_spec (h : Sound s) {line : Line}
    (hroom : s.buffer.length + (format line).length ≤ bufferBytes) :
    Sound (put s line) ∧ Emits s (put s line) [line] := by
  obtain ⟨lines, hbuffer, hpending⟩ := h.pending
  refine ⟨⟨h.pressed, ⟨lines ++ [line], ?_, ?_⟩, ?_, h.flushes⟩, ?_, rfl⟩
  · rw [List.flatMap_append, ← hbuffer, List.flatMap_singleton]
    rfl
  · show (lines ++ [line]).foldl act s.pressed = act s.pending line
    rw [List.foldl_append, hpending]
    rfl
  · rw [put, List.length_append]
    exact hroom
  · rw [put, List.flatMap_singleton, List.append_assoc]

/-- **A line is written**, after the buffer went out if it was too full. -/
theorem queue_spec (h : Sound s) {type code : ℕ} {value : ℤ}
    (hlength : (format (.event type code value)).length ≤ 24) :
    Sound (queue s type code value) ∧
      Emits s (queue s type code value) [.event type code value] := by
  rw [queue]
  split_ifs with hfull
  · obtain ⟨hflush, hemits, hempty, -⟩ := flush_spec h
    have hroom : (flush s).buffer.length + (format (.event type code value)).length ≤
        bufferBytes := by
      rw [hempty, List.length_nil, bufferBytes]
      omega
    obtain ⟨hput, hline⟩ := put_spec hflush hroom
    exact ⟨hput, hemits.trans hline⟩
  · have hle := h.length_le
    exact put_spec h (by omega)

/-! ### Changes of the keys -/

/-- Every press is of a key that is up, and every release of one that is down. -/
def Alternates : KeySet → List Line → Prop
  | _, [] => True
  | keys, line :: rest =>
    (∀ (code : Fin keyCnt) (down : Bool), line = .event evKey code (if down then 1 else 0) →
      keys code ≠ down) ∧ Alternates (act keys line) rest

theorem Alternates.append {keys : KeySet} {lines lines' : List Line} (h : Alternates keys lines)
    (h' : Alternates (lines.foldl act keys) lines') : Alternates keys (lines ++ lines') := by
  induction lines generalizing keys with
  | nil => exact h'
  | cons line lines ih => exact ⟨h.1, ih h.2 h'⟩

theorem act_key (keys : KeySet) (code : Fin keyCnt) (down : Bool) :
    act keys (.event evKey code (if down then 1 else 0)) = Function.update keys code down := by
  have hvalue : (if down then 1 else 0 : ℤ) = 0 ∨ (if down then 1 else 0 : ℤ) = 1 := by
    cases down <;> simp
  rw [act, dif_pos ⟨rfl, code.isLt, hvalue⟩]
  cases down <;> rfl

theorem length_key (code : Fin keyCnt) (down : Bool) :
    (format (.event evKey code (if down then 1 else 0))).length ≤ 24 := by
  have hcode : (code : ℕ) < 768 := code.isLt
  exact length_format_le (by decide) (by omega) (by cases down <;> decide)

/-- Lines that take the pending keys to others, each of them a change. -/
def Changes (s s' : State) (keys : KeySet) : Prop :=
  Sound s' ∧ s'.pending = keys ∧ ∃ lines, Emits s s' lines ∧ Alternates s.pending lines

theorem Changes.trans {keys keys' : KeySet} (h : Changes s s' keys) (h' : Changes s' s'' keys') :
    Changes s s'' keys' := by
  obtain ⟨-, hkeys, lines, hemits, halternates⟩ := h
  obtain ⟨hsound, hkeys', lines', hemits', halternates'⟩ := h'
  exact ⟨hsound, hkeys', lines ++ lines', hemits.trans hemits',
    halternates.append (hemits.2 ▸ halternates')⟩

theorem queueChange_spec (h : Sound s) (physical : KeySet) (down modifiers : Bool)
    (code : Fin keyCnt) :
    Changes s (queueChange physical down modifiers s code)
      (if physical code = down ∧ keyboardModifier code = modifiers
        then Function.update s.pending code down else s.pending) := by
  rw [queueChange]
  by_cases hsame : s.pending code = down
  · rw [if_pos (Or.inr (Or.inl hsame)), ← hsame, Function.update_eq_self, ite_self]
    exact ⟨h, rfl, [], Emits.refl s, trivial⟩
  · by_cases hphase : physical code = down ∧ keyboardModifier code = modifiers
    · rw [if_neg (by tauto), if_pos hphase]
      obtain ⟨hsound, hemits⟩ := queue_spec h (length_key code down)
      refine ⟨hsound, ?_, _, hemits, ?_, trivial⟩
      · rw [hemits.2, List.foldl_cons, List.foldl_nil, act_key]
      · intro other release hline
        obtain ⟨-, hcode, hvalue⟩ := Line.event.inj hline
        obtain rfl := Fin.ext hcode
        have hdown : down = release := by
          cases down <;> cases release <;> simp_all
        exact hdown ▸ hsame
    · rw [if_pos (by tauto), if_neg hphase]
      exact ⟨h, rfl, [], Emits.refl s, trivial⟩

/-- **One phase**: the keys of its kind that are physically so are set so. -/
theorem phase_spec (physical : KeySet) (codes : List (Fin keyCnt)) (down modifiers : Bool)
    (h : Sound s) :
    Changes s (codes.foldl (queueChange physical down modifiers) s) fun code =>
      if code ∈ codes ∧ physical code = down ∧ keyboardModifier code = modifiers then down
      else s.pending code := by
  induction codes generalizing s with
  | nil => exact ⟨h, by simp, [], Emits.refl s, trivial⟩
  | cons first codes ih =>
    have hfirst := queueChange_spec h physical down modifiers first
    have hrest := ih hfirst.1
    have hboth := hfirst.trans hrest
    rw [List.foldl_cons]
    convert hboth using 2 with code
    rw [hfirst.2.1]
    by_cases hcode : code = first
    · subst hcode
      by_cases hphase : physical code = down ∧ keyboardModifier code = modifiers
      · simp [hphase]
      · simp [hphase]
    · by_cases hphase : physical first = down ∧ keyboardModifier first = modifiers
      · simp [hphase, hcode]
      · simp [hphase, hcode]

/-- **Phases**: a key has its physical state when one of the phases is for its kind. -/
theorem phases_spec (physical : KeySet) (phases : List (Bool × Bool)) (h : Sound s) :
    Changes s (phases.foldl (queueStateChanges physical) s) fun code =>
      if (physical code, keyboardModifier code) ∈ phases then physical code
      else s.pending code := by
  induction phases generalizing s with
  | nil => exact ⟨h, by simp, [], Emits.refl s, trivial⟩
  | cons phase phases ih =>
    have hfirst : Changes s (queueStateChanges physical s phase) _ :=
      phase_spec physical (List.finRange keyCnt) phase.1 phase.2 h
    have hboth := hfirst.trans (ih hfirst.1)
    rw [List.foldl_cons]
    convert hboth using 2 with code
    rw [hfirst.2.1]
    simp only [List.mem_finRange, true_and]
    by_cases hlater : (physical code, keyboardModifier code) ∈ phases
    · rw [if_pos hlater, if_pos (List.mem_cons_of_mem _ hlater)]
    · rw [if_neg hlater]
      by_cases hphase : physical code = phase.1 ∧ keyboardModifier code = phase.2
      · rw [if_pos hphase, if_pos (List.mem_cons.mpr (Or.inl (Prod.ext hphase.1 hphase.2))),
          hphase.1]
      · rw [if_neg hphase, if_neg]
        intro hmem
        rcases List.mem_cons.mp hmem with heq | hmem
        · exact hphase ⟨congrArg Prod.fst heq, congrArg Prod.snd heq⟩
        · exact hlater hmem

/-- Lines went out that take the pressed keys to others, each of them a change. -/
def Finished (stream : List UInt8) (keys target : KeySet) (s' : State) : Prop :=
  Sound s' ∧ s'.pressed = target ∧ s'.buffer = [] ∧
    ∃ lines : List Line, s'.sent = stream ++ lines.flatMap format ∧ Alternates keys lines

theorem Changes.finish {keys : KeySet} (h : Changes s s' keys) :
    Finished (s.sent ++ s.buffer) s.pending keys (flush (queue s' evSyn synReport 0)) := by
  obtain ⟨hsound, hkeys, lines, hemits, halternates⟩ := h
  have hlength : (format (.event evSyn synReport 0)).length ≤ 24 :=
    length_format_le (by decide) (by decide) (by decide)
  obtain ⟨hqueue, hsyn⟩ := queue_spec hsound hlength
  obtain ⟨hflush, hlast, hempty, hpressed⟩ := flush_spec hqueue
  have hall := (hemits.trans hsyn).trans hlast
  have hfull : (queue s' evSyn synReport 0).buffer ≠ [] :=
    List.append_ne_nil_of_right_ne_nil _
      (List.append_ne_nil_of_right_ne_nil _ (List.cons_ne_nil _ _))
  refine ⟨hflush, ?_, hempty, lines ++ [.event evSyn synReport 0] ++ [], ?_, ?_⟩
  · rw [hpressed hfull, hsyn.2, ← hkeys]
    rfl
  · have hstream := hall.1
    rwa [hempty, List.append_nil] at hstream
  · rw [List.append_nil]
    refine halternates.append ⟨fun code down hline => ?_, trivial⟩
    cases (Line.event.inj hline).1

/-- **A resynchronisation** reaches the physical state. -/
theorem resync_spec (h : Sound s) (physical : KeySet) :
    Finished (s.sent ++ s.buffer) s.pending physical (resync s physical) := by
  have hphases := phases_spec physical
    [(false, false), (false, true), (true, true), (true, false)] h
  have hkeys : (fun code => if (physical code, keyboardModifier code) ∈
      [(false, false), (false, true), (true, true), (true, false)] then physical code
      else s.pending code) = physical := by
    funext code
    cases physical code <;> cases keyboardModifier code <;> simp
  rw [hkeys] at hphases
  exact hphases.finish

theorem Sound.ready (h : Sound s) : Sound { s with dropping := false } :=
  ⟨h.pressed, h.pending, h.length_le, h.flushes⟩

theorem Sound.discard (h : Sound s) (dropping : Bool) :
    Sound { s with buffer := [], pending := s.pressed, dropping } :=
  ⟨h.pressed, ⟨[], rfl, rfl⟩, Nat.zero_le _, h.flushes⟩

/-- **At the end** all keys go up, whatever the buffer held. -/
theorem release_spec (h : Sound s) :
    Finished s.sent s.pressed (fun _ => false) (release s) := by
  have hdiscard := h.discard s.dropping
  rw [release]
  split_ifs with hup
  · exact ⟨hdiscard, funext hup, rfl, [], (List.append_nil _).symm, trivial⟩
  · have hphases := phases_spec (fun _ => false) [(false, false), (false, true)] hdiscard
    have hkeys : (fun code : Fin keyCnt => if (false, keyboardModifier code) ∈
        [(false, false), (false, true)] then false else s.pressed code) = fun _ : Fin keyCnt =>
        false := by
      funext code
      cases keyboardModifier code <;> simp
    rw [hkeys] at hphases
    have hfinish := hphases.finish
    rwa [List.append_nil] at hfinish

/-! ### Runs -/

theorem sound_reset : Sound { sent := format .reset } :=
  ⟨⟨[.reset], rfl, rfl⟩, ⟨[], rfl, rfl⟩, Nat.zero_le _, fun _ hmem => absurd hmem List.not_mem_nil⟩

theorem Sound.forward (h : Sound s) (event : InputEvent) :
    Sound (forward s event.type.toNat event.code.toNat event.value.toInt) := by
  have hlength : (format (.event event.type.toNat event.code.toNat event.value.toInt)).length ≤
      24 := by
    have htype := event.type.toNat_lt
    have hcode := event.code.toNat_lt
    have hlow := event.value.le_toInt
    have hhigh := event.value.toInt_lt
    exact length_format_le (by omega) (by omega) (by omega)
  obtain ⟨hqueue, -⟩ := queue_spec h hlength
  rw [UsbKeyboard.forward]
  split_ifs
  · exact h.discard true
  · exact h
  · exact (flush_spec hqueue).1
  · exact hqueue

/-- **A round** keeps the tables. -/
theorem Sound.round (h : Sound s) (input : Input) : Sound (round s input).1 := by
  cases input with
  | interrupted => exact h
  | timeout => exact ⟨h.pressed.append [.blank], h.pending, h.length_le, h.flushes⟩
  | event event physical =>
    simp only [UsbKeyboard.round]
    split_ifs
    · exact h
    · cases physical with
      | none => exact h.ready
      | some physical => exact (resync_spec h.ready physical).1
    · exact h.forward event

theorem Sound.run (h : Sound s) (inputs : List Input) : Sound (run s inputs) := by
  induction inputs generalizing s with
  | nil => exact h
  | cons input rest ih =>
    rw [UsbKeyboard.run]
    split_ifs
    · exact ih (h.round input)
    · exact h.round input

theorem Reads.iff {stream : List UInt8} {keys : KeySet} (h : Reads stream keys) (keys' : KeySet) :
    Reads stream keys' ↔ keys' = keys :=
  ⟨fun h' => h'.unique h, fun heq => heq ▸ h⟩

/-- **No key is left.**  In every run, what went out consists of whole lines that leave exactly the
pressed keys, and after every flush they did so; what is in the buffer fits and leads to the pending
keys; a resynchronisation ends with the physical keys and the end of the run with none, both by
changes alone. -/
theorem never_stuck (physical : KeySet) (inputs : List Input) :
    Finished (format .reset) (fun _ => false) physical (started physical) ∧
      let s := run (started physical) inputs
      (∀ keys, Reads s.sent keys ↔ keys = s.pressed) ∧
        (∀ keys, Reads (s.sent ++ s.buffer) keys ↔ keys = s.pending) ∧
        (∀ entry ∈ s.flushes, ∀ keys, Reads entry.1 keys ↔ keys = entry.2) ∧
        s.buffer.length ≤ bufferBytes ∧
        (∀ now, let resynced := resync { s with dropping := false } now
          Finished (s.sent ++ s.buffer) s.pending now resynced ∧
            ∀ keys, Reads resynced.sent keys ↔ keys = now) ∧
        Finished s.sent s.pressed (fun _ => false) (release s) ∧
        ∀ keys, Reads (release s).sent keys ↔ keys = fun _ => false := by
  have hstart := resync_spec sound_reset physical
  have h := hstart.1.run inputs
  refine ⟨by simpa [UsbKeyboard.started] using hstart, fun keys => h.pressed.iff keys, ?_, ?_,
    h.length_le, ?_, release_spec h, ?_⟩
  · obtain ⟨lines, hbuffer, hpending⟩ := h.pending
    have hall := h.pressed.append lines
    rw [← hbuffer, hpending] at hall
    exact hall.iff
  · exact fun entry hmem => (h.flushes entry hmem).iff
  · intro now
    have hnow := resync_spec h.ready now
    have hreads := hnow.1.pressed
    rw [hnow.2.1] at hreads
    exact ⟨hnow, hreads.iff⟩
  · have hreads := (release_spec h).1.pressed
    rw [(release_spec h).2.1] at hreads
    exact hreads.iff

end UsbKeyboard

/-
The mixing core of fplinux-audiod (`audio-mixer.c`).

A stream is read through its private copies of the capacity mask, the channel
count and the read position.  Ring counters are 32-bit words; the phase is a
32.32 fixed-point offset.  Output frames are counted at 48000 Hz in 64 bits
(`output`, `played`): these counters are natural numbers here, since 64 bits
of frames last for millions of years.  Samples are integers, as no 32-bit
product of the resampler overflows.

* `mixerMix_advanced` — the frames a period takes are visited in order, none
  skipped, and none past the frames written;
* `mixerHeard_spec` — the heard position never falls, never passes the newest mark
  and reaches every mark that was played.
-/
import Mathlib.Data.List.Chain
import Fplinux.Lib.Ring
import Fplinux.Lib.Word

namespace Audio

def mixerRate : ℕ := 48000
def mixerUnity : ℤ := 32768

/-- Read positions remembered per stream. -/
def mixerHistory : ℕ := 16

/-- One frame: a sample per channel. -/
abbrev Frame := List ℤ

/-- A gain that moves from `current` to `target` across the next period. -/
structure Gain where
  current : ℤ
  target : ℤ
  deriving DecidableEq, Repr

/-- The stream's read position after the period that ended at `output`. -/
structure Mark where
  output : ℕ
  read : ℕ
  deriving DecidableEq, Repr

/-- `struct fplinux_audio_mixer_stream`.  The frames are the ring's and passed
along; `marks` lists the remembered marks, the newest first, where the source
keeps them in a circle of `mixerHistory`. -/
structure MixerStream where
  mask : ℕ
  channels : ℕ
  step : ℕ
  read : ℕ := 0
  phase : ℕ := 0
  heard : ℕ := 0
  paused : Bool := false
  gain : Gain := ⟨mixerUnity, mixerUnity⟩
  last : ℤ × ℤ := (0, 0)
  marks : List Mark
  deriving DecidableEq, Repr

def mixerStreamInit (capacity rate channels output : ℕ) : MixerStream where
  mask := capacity - 1
  channels := channels
  step := rate * 2 ^ 32 / mixerRate
  marks := [⟨output, 0⟩]

/-- The frame at a ring counter. -/
def frameAt (stream : MixerStream) (slots : List Frame) (index : ℕ) : Frame :=
  slots.getD (index &&& stream.mask) []

/-- A mono frame feeds both channels. -/
def leftOf (frame : Frame) : ℤ := frame.getD 0 0
def rightOf (stream : MixerStream) (frame : Frame) : ℤ := frame.getD (stream.channels - 1) 0

/-- Interpolates between two samples at a Q15 fraction, then scales. -/
def sample (first next fraction gain : ℤ) : ℤ :=
  ((first + (((next - first) * fraction) >>> (15 : ℕ))) * gain) >>> (15 : ℕ)

/-- The increment per frame of a ramp, a Q15 gain times 32768. -/
def rampSlope (gain : Gain) (frames : ℕ) : ℤ :=
  ((gain.target - gain.current) * 32768).tdiv frames

def remember (stream : MixerStream) (output : ℕ) : MixerStream :=
  { stream with marks := (⟨output, stream.read⟩ :: stream.marks).take mixerHistory }

/-- One output frame filled from the ring: how many frames past the read
position it stands, the frame there, the next one unless that is missing, and
what was added to the mix. -/
structure Visit where
  whole : ℕ
  here : Frame
  next : Option Frame
  added : ℤ × ℤ
  deriving DecidableEq, Repr

/-- The loop of `resample`: the output frames made and the offset after them. -/
def resampleLoop (stream : MixerStream) (slots : List Frame) (available : ℕ) (slope : ℤ) :
    ℕ → ℕ → ℤ → List Visit × ℕ
  | 0, offset, _ => ([], offset)
  | frames + 1, offset, level =>
    let whole := offset / 2 ^ 32 % 2 ^ 32
    if whole ≥ available then
      ([], offset)
    else
      let here := frameAt stream slots (Word.add 32 stream.read whole)
      -- The last frame written stands in for its missing successor.
      let next :=
        if Word.add 32 whole 1 < available then
          some (frameAt stream slots (Word.add 32 (Word.add 32 stream.read whole) 1))
        else
          none
      let follower := next.getD here
      let fraction : ℤ := (offset % 2 ^ 32 / 2 ^ 17 : ℕ)
      let gain := level >>> (15 : ℕ)
      let added :=
        (sample (leftOf here) (leftOf follower) fraction gain,
          sample (rightOf stream here) (rightOf stream follower) fraction gain)
      let rest := resampleLoop stream slots available slope frames (offset + stream.step)
        (level + slope)
      (⟨whole, here, next, added⟩ :: rest.1, rest.2)

def resample (stream : MixerStream) (slots : List Frame) (available frames : ℕ) :
    MixerStream × List Visit :=
  let slope := rampSlope stream.gain frames
  let (visits, offset) :=
    resampleLoop stream slots available slope frames stream.phase (stream.gain.current * 32768)
  let last := if visits.length = frames then (visits.getLast?.map Visit.added).getD (0, 0) else (0, 0)
  ({ stream with
      read := Word.add 32 stream.read (offset / 2 ^ 32 % 2 ^ 32)
      phase := offset % 2 ^ 32
      gain := { stream.gain with current := stream.gain.target }
      last := last }, visits)

/-- The loop of `fplinux_audio_mixer_ramp_down`: what is added per frame. -/
def rampDownLoop (slope : ℕ) (last : ℤ × ℤ) : ℕ → ℤ → List (ℤ × ℤ)
  | 0, _ => []
  | frames + 1, level =>
    let factor := (level - slope) >>> (15 : ℕ)
    ((last.1 * factor) >>> (15 : ℕ), (last.2 * factor) >>> (15 : ℕ)) ::
      rampDownLoop slope last frames (level - slope)

/-- A linear ramp from `last` to zero. -/
def rampDown (frames : ℕ) (last : ℤ × ℤ) : List (ℤ × ℤ) :=
  if last = (0, 0) then [] else rampDownLoop (2 ^ 30 / frames) last frames (2 ^ 30)

/-- What a period did: the stream after it, the output frames filled from the
ring and what was added to the mix. -/
structure Mixed where
  stream : MixerStream
  visits : List Visit
  added : List (ℤ × ℤ)
  deriving DecidableEq, Repr

/-- `fplinux_audio_mixer_mix`: `none` when `write` is more than the capacity
ahead of the read position. -/
def mixerMix (stream : MixerStream) (slots : List Frame) (write frames outputEnd : ℕ) :
    Option Mixed :=
  if stream.paused then
    -- The tail and the resume ramp never read the ring.
    some
      { stream := remember
          { stream with last := (0, 0), gain := { stream.gain with current := 0 } } outputEnd
        visits := []
        added := rampDown frames stream.last }
  else
    let available := Word.sub 32 write stream.read
    if available > Word.add 32 stream.mask 1 then
      none
    else
      let made := resample stream slots available frames
      some
        { stream := remember made.1 outputEnd
          visits := made.2
          added := made.2.map Visit.added }

/-- `(int32_t)(a - b) > 0`. -/
def isAhead (a b : ℕ) : Bool := 0 < Word.sub 32 a b ∧ Word.sub 32 a b < 2 ^ 31

/-- The position heard at `played` when `mark` was played and `later`, the
next newer mark, was not. -/
def heardAt (played : ℕ) (mark : Mark) : Option Mark → ℕ
  | none => mark.read
  | some next =>
    Word.add 32 mark.read
      (Word.sub 32 next.read mark.read * (played - mark.output) % 2 ^ 64 /
        (next.output - mark.output) % 2 ^ 32)

/-- The search of `fplinux_audio_mixer_heard`, from the newest mark on. -/
def heardLoop (played heard : ℕ) : Option Mark → List Mark → ℕ
  | _, [] => heard
  | later, mark :: older =>
    if mark.output ≤ played then
      let position := heardAt played mark later
      if isAhead position heard then position else heard
    else
      heardLoop played heard (some mark) older

def mixerHeard (stream : MixerStream) (played : ℕ) : MixerStream :=
  { stream with heard := heardLoop played stream.heard none stream.marks }

/-! ### What a period reads -/

/-- A visit stands at a frame that is available and has the frames of the ring
there. -/
structure Visit.Ok (stream : MixerStream) (slots : List Frame) (available : ℕ) (v : Visit) :
    Prop where
  inside : v.whole < available
  here : v.here = frameAt stream slots (Word.add 32 stream.read v.whole)
  next : ∀ frame, v.next = some frame → v.whole + 1 < available ∧
    frame = frameAt stream slots (Word.add 32 (Word.add 32 stream.read v.whole) 1)

section Resample

variable {stream : MixerStream} (slots : List Frame) {available : ℕ} (slope : ℤ)

theorem div_add_step (offset : ℕ) {step : ℕ} (hstep : step ≤ 2 ^ 32) :
    (offset + step) / 2 ^ 32 = offset / 2 ^ 32 ∨ (offset + step) / 2 ^ 32 = offset / 2 ^ 32 + 1 := by
  omega

theorem resampleLoop_spec (hstep : stream.step ≤ 2 ^ 32) (hav : available < 2 ^ 32) (frames : ℕ) :
    ∀ (offset : ℕ) (level : ℤ), offset / 2 ^ 32 ≤ available →
      Ring.Sweep (offset / 2 ^ 32)
          ((resampleLoop stream slots available slope frames offset level).1.map Visit.whole)
          ((resampleLoop stream slots available slope frames offset level).2 / 2 ^ 32) ∧
        (resampleLoop stream slots available slope frames offset level).2 / 2 ^ 32 ≤ available ∧
        ∀ v ∈ (resampleLoop stream slots available slope frames offset level).1,
          v.Ok stream slots available := by
  induction frames with
  | zero =>
    intro offset level hoff
    exact ⟨rfl, hoff, by simp [resampleLoop]⟩
  | succ frames ih =>
    intro offset level hoff
    have hwhole : offset / 2 ^ 32 % 2 ^ 32 = offset / 2 ^ 32 := Nat.mod_eq_of_lt (by omega)
    rw [resampleLoop]
    simp only [hwhole]
    split
    · exact ⟨rfl, hoff, by simp⟩
    · rename_i hlt
      have hnext : Word.add 32 (offset / 2 ^ 32) 1 = offset / 2 ^ 32 + 1 := Word.add_eq (by omega)
      have hmove := div_add_step offset hstep
      obtain ⟨hsweep, hend, hok⟩ := ih (offset + stream.step) (level + slope) (by omega)
      refine ⟨?_, hend, ?_⟩
      · refine ⟨rfl, ?_⟩
        rcases hmove with heq | heq
        · rw [heq] at hsweep
          exact Or.inl hsweep
        · rw [heq] at hsweep
          exact Or.inr hsweep
      · intro v hv
        rcases List.mem_cons.mp hv with rfl | hv
        · refine ⟨Nat.not_le.mp hlt, rfl, ?_⟩
          intro frame hframe
          simp only [hnext] at hframe
          split at hframe
          · exact ⟨‹_›, (Option.some.inj hframe).symm⟩
          · cases hframe
        · exact hok v hv

theorem resample_spec (hstep : stream.step ≤ 2 ^ 32) (hav : available < 2 ^ 32)
    (hphase : stream.phase < 2 ^ 32) (frames : ℕ) :
    ∃ moved, moved ≤ available ∧
      Ring.Sweep 0 ((resample stream slots available frames).2.map Visit.whole) moved ∧
      (∀ v ∈ (resample stream slots available frames).2, v.Ok stream slots available) ∧
      (resample stream slots available frames).1.read = Word.add 32 stream.read moved := by
  have hstart : stream.phase / 2 ^ 32 = 0 := Nat.div_eq_of_lt hphase
  obtain ⟨hsweep, hend, hok⟩ := resampleLoop_spec slots (rampSlope stream.gain frames) hstep hav
    frames stream.phase (stream.gain.current * 32768) (by omega)
  rw [hstart] at hsweep
  refine ⟨_, hend, hsweep, hok, ?_⟩
  show Word.add 32 stream.read (_ / 2 ^ 32 % 2 ^ 32) = _
  rw [Nat.mod_eq_of_lt (Nat.lt_of_le_of_lt hend hav)]

end Resample

/-- What a period did to a stream that stood at the true position `position`,
with the frames before `limit` written: it moved by `moved`. -/
structure Advanced (stream : MixerStream) (slots : List Frame) (position limit outputEnd : ℕ)
    (mixed : Mixed) (moved : ℕ) : Prop where
  moved_le : position + moved ≤ limit
  sweep : Ring.Sweep 0 (mixed.visits.map Visit.whole) moved
  visits : ∀ v ∈ mixed.visits, v.Ok stream slots (limit - position)
  read : mixed.stream.read = (position + moved) % 2 ^ 32
  phase : mixed.stream.phase < 2 ^ 32
  marks : mixed.stream.marks =
    (⟨outputEnd, (position + moved) % 2 ^ 32⟩ :: stream.marks).take mixerHistory
  heard : mixed.stream.heard = stream.heard
  mask : mixed.stream.mask = stream.mask
  step : mixed.stream.step = stream.step

section Period

variable {stream : MixerStream} (slots : List Frame) {position limit : ℕ}

/-- **A period takes frames in order.**  The write counter is that of an honest
client, at most the capacity ahead, unless the stream is paused. -/
theorem mixerMix_advanced (hread : stream.read = position % 2 ^ 32) (hphase : stream.phase < 2 ^ 32)
    (hstep : stream.step ≤ 2 ^ 32) (hmask : stream.mask < 2 ^ 31) (hlimit : position ≤ limit)
    {write : ℕ} (hwrite : stream.paused = false →
      write = limit % 2 ^ 32 ∧ limit ≤ position + (stream.mask + 1)) (frames outputEnd : ℕ) :
    ∃ mixed moved, mixerMix stream slots write frames outputEnd = some mixed ∧
      Advanced stream slots position limit outputEnd mixed moved := by
  rw [mixerMix]
  by_cases hpaused : stream.paused = true
  · rw [if_pos hpaused]
    refine ⟨_, 0, rfl, ?_⟩
    exact
      { moved_le := hlimit
        sweep := rfl
        visits := by simp
        read := hread
        phase := hphase
        marks := by simp only [remember, hread, Nat.add_zero]
        heard := rfl
        mask := rfl
        step := rfl }
  · obtain ⟨rfl, hahead⟩ := hwrite (by simpa using hpaused)
    have havailable : Word.sub 32 (limit % 2 ^ 32) stream.read = limit - position := by
      rw [hread]
      exact Word.sub_mod hlimit (by omega)
    have hcapacity : Word.add 32 stream.mask 1 = stream.mask + 1 := Word.add_eq (by omega)
    rw [if_neg hpaused, havailable, hcapacity, if_neg (by omega)]
    obtain ⟨moved, hmoved, hsweep, hok, hto⟩ := resample_spec slots hstep
      (by omega : limit - position < 2 ^ 32) hphase frames
    rw [hread, Word.add_mod] at hto
    refine ⟨_, moved, rfl, ?_⟩
    exact
      { moved_le := by omega
        sweep := hsweep
        visits := hok
        read := hto
        phase := Nat.mod_lt _ (by omega)
        marks := by
          show (Mark.mk outputEnd (resample stream slots (limit - position) frames).1.read ::
            stream.marks).take mixerHistory = _
          rw [hto]
        heard := rfl
        mask := rfl
        step := rfl }

end Period

/-! ### The heard position -/

/-- The mark a period leaves, its read position a ring counter. -/
def Mark.word (m : Mark) : Mark := { m with read := m.read % 2 ^ 32 }

/-- Marks of two periods that followed each other, with true positions. -/
structure Mark.Follows (period capacity : ℕ) (newer older : Mark) : Prop where
  output : newer.output = older.output + period
  le : older.read ≤ newer.read
  near : newer.read ≤ older.read + capacity

section Heard

variable {period capacity played : ℕ}

theorem heardAt_between (hperiod : period < 2 ^ 32) (hcapacity : capacity < 2 ^ 31)
    {newer older : Mark} (h : Mark.Follows period capacity newer older)
    (holder : older.output ≤ played) (hnewer : played < newer.output) :
    ∃ position, older.read ≤ position ∧ position ≤ newer.read ∧
      heardAt played older.word (some newer.word) = position % 2 ^ 32 := by
  have hout := h.output
  have hnear := h.near
  have hspan : newer.output - older.output = period := by omega
  have hdiff : Word.sub 32 (newer.read % 2 ^ 32) (older.read % 2 ^ 32) = newer.read - older.read :=
    Word.sub_mod h.le (by omega)
  have hproduct : (newer.read - older.read) * (played - older.output) ≤
      (newer.read - older.read) * period :=
    Nat.mul_le_mul_left _ (by omega)
  have hwide : (newer.read - older.read) * period < 2 ^ 31 * 2 ^ 32 :=
    Nat.mul_lt_mul'' (by omega) hperiod
  have hquotient : (newer.read - older.read) * (played - older.output) / period ≤
      newer.read - older.read :=
    Nat.div_le_of_le_mul (by rw [Nat.mul_comm period]; exact hproduct)
  have hle := h.le
  refine ⟨older.read + (newer.read - older.read) * (played - older.output) / period,
    Nat.le_add_right _ _, by omega, ?_⟩
  show Word.add 32 (older.read % 2 ^ 32) (Word.sub 32 (newer.read % 2 ^ 32) (older.read % 2 ^ 32) *
    (played - older.output) % 2 ^ 64 / (newer.output - older.output) % 2 ^ 32) = _
  rw [Word.add_mod, hdiff, hspan, Nat.mod_eq_of_lt (b := 2 ^ 64) (by omega),
    Nat.mod_eq_of_lt (b := 2 ^ 32) (Nat.lt_of_le_of_lt hquotient (by omega))]

variable {top heard : ℕ} {trail : List Mark}

theorem later_spec {a b : ℕ} (ha : a ≤ top) (hb : b ≤ top) (ha' : top < a + 2 ^ 31)
    (hb' : top < b + 2 ^ 31) :
    (if isAhead (a % 2 ^ 32) (b % 2 ^ 32) then a % 2 ^ 32 else b % 2 ^ 32) = max a b % 2 ^ 32 := by
  rcases Nat.lt_or_ge b a with hlt | hge
  · have hsub : Word.sub 32 (a % 2 ^ 32) (b % 2 ^ 32) = a - b := Word.sub_mod (by omega) (by omega)
    rw [if_pos, Nat.max_eq_left (by omega)]
    simp only [isAhead, hsub, decide_eq_true_eq]
    omega
  · rw [if_neg, Nat.max_eq_right hge]
    simp only [isAhead, decide_eq_true_eq]
    rcases Nat.lt_or_ge a b with hlt | hge'
    · rw [Word.sub_mod_of_lt hlt (by omega)]
      omega
    · rw [Word.sub_mod hge' (by omega)]
      omega

/-- The heard position moves to `dest`, which is no less than before, no more
than `top`, and no less than the marks that were played. -/
structure Hears (trail : List Mark) (played heard top : ℕ) (dest : ℕ) : Prop where
  rises : heard ≤ dest
  le : dest ≤ top
  reaches : ∀ m ∈ trail, m.output ≤ played → m.read ≤ dest

theorem hears_found {mark : Mark} {position : ℕ} (hpos : mark.read ≤ position)
    (htop : position ≤ top) (hheard : heard ≤ top) (hnear : top < mark.read + 2 ^ 31)
    (hheardNear : top < heard + 2 ^ 31) (holder : ∀ m ∈ trail, m.read ≤ mark.read) :
    ∃ dest, Hears (mark :: trail) played heard top dest ∧
      (if isAhead (position % 2 ^ 32) (heard % 2 ^ 32) then position % 2 ^ 32
        else heard % 2 ^ 32) = dest % 2 ^ 32 := by
  refine ⟨max position heard, ⟨Nat.le_max_right _ _, Nat.max_le.mpr ⟨htop, hheard⟩, ?_⟩,
    later_spec htop hheard (by omega) hheardNear⟩
  intro m hm _
  have hmark : m.read ≤ mark.read := by
    rcases List.mem_cons.mp hm with rfl | hm
    · exact Nat.le_refl _
    · exact holder m hm
  exact Nat.le_trans hmark (Nat.le_trans hpos (Nat.le_max_left _ _))

theorem read_le_of_chain {mark : Mark}
    (h : List.IsChain (Mark.Follows period capacity) (mark :: trail)) :
    ∀ m ∈ trail, m.read ≤ mark.read := by
  induction trail generalizing mark with
  | nil => simp
  | cons older trail ih =>
    obtain ⟨hfollows, htail⟩ := List.isChain_cons_cons.mp h
    intro m hm
    rcases List.mem_cons.mp hm with rfl | hm
    · exact hfollows.le
    · exact Nat.le_trans (ih htail m hm) hfollows.le

theorem heardLoop_spec (hperiod : period < 2 ^ 32) (hcapacity : capacity < 2 ^ 31)
    (hheard : heard ≤ top) (hheardNear : top < heard + 2 ^ 31) :
    ∀ {later : Mark}, List.IsChain (Mark.Follows period capacity) (later :: trail) →
      later.read ≤ top → played < later.output → (∀ m ∈ trail, top < m.read + 2 ^ 31) →
      ∃ dest, Hears trail played heard top dest ∧
        heardLoop played (heard % 2 ^ 32) (some later.word) (trail.map Mark.word) =
          dest % 2 ^ 32 := by
  induction trail with
  | nil =>
    intro later _ _ _ _
    exact ⟨heard, ⟨Nat.le_refl _, hheard, by simp⟩, rfl⟩
  | cons mark trail ih =>
    intro later hchain hlater hplayed hnear
    obtain ⟨hfollows, htail⟩ := List.isChain_cons_cons.mp hchain
    show ∃ dest, _ ∧ (if mark.output ≤ played then _ else _) = _
    by_cases hmark : mark.output ≤ played
    · rw [if_pos hmark]
      obtain ⟨position, hpos, hle, heq⟩ :=
        heardAt_between hperiod hcapacity hfollows hmark hplayed
      show ∃ dest, _ ∧ (if isAhead (heardAt played mark.word (some later.word)) _ then
        heardAt played mark.word (some later.word) else _) = _
      rw [heq]
      exact hears_found hpos (Nat.le_trans hle hlater) hheard (hnear mark List.mem_cons_self)
        hheardNear (read_le_of_chain htail)
    · rw [if_neg hmark]
      obtain ⟨dest, hto, heq⟩ := ih htail (Nat.le_trans hfollows.le hlater) (Nat.not_le.mp hmark)
        (fun m hm => hnear m (List.mem_cons_of_mem _ hm))
      refine ⟨dest, ⟨hto.rises, hto.le, ?_⟩, heq⟩
      intro m hm hout
      rcases List.mem_cons.mp hm with rfl | hm
      · exact absurd hout hmark
      · exact hto.reaches m hm hout

/-- **The heard position never falls, never passes the newest mark and reaches
every mark that was played.** -/
theorem mixerHeard_spec (played : ℕ) (hperiod : period < 2 ^ 32) (hcapacity : capacity < 2 ^ 31)
    {stream : MixerStream} {newest : Mark} (hmarks : stream.marks = (newest :: trail).map Mark.word)
    (hchain : List.IsChain (Mark.Follows period capacity) (newest :: trail))
    (hstream : stream.heard = heard % 2 ^ 32) (hheard : heard ≤ newest.read)
    (hheardNear : newest.read < heard + 2 ^ 31)
    (hnear : ∀ m ∈ newest :: trail, newest.read < m.read + 2 ^ 31) :
    ∃ dest, Hears (newest :: trail) played heard newest.read dest ∧
      (mixerHeard stream played).heard = dest % 2 ^ 32 := by
  show ∃ dest, _ ∧ heardLoop played stream.heard none stream.marks = _
  rw [hmarks, hstream]
  show ∃ dest, _ ∧ (if newest.output ≤ played then _ else _) = _
  by_cases hmark : newest.output ≤ played
  · rw [if_pos hmark]
    exact hears_found (Nat.le_refl _) (Nat.le_refl _) hheard (hnear newest List.mem_cons_self)
      hheardNear (read_le_of_chain hchain)
  · rw [if_neg hmark]
    obtain ⟨dest, hto, heq⟩ := heardLoop_spec hperiod hcapacity hheard hheardNear hchain
      (Nat.le_refl _) (Nat.not_le.mp hmark) (fun m hm => hnear m (List.mem_cons_of_mem _ hm))
    refine ⟨dest, ⟨hto.rises, hto.le, ?_⟩, heq⟩
    intro m hm hout
    rcases List.mem_cons.mp hm with rfl | hm
    · exact absurd hout hmark
    · exact hto.reaches m hm hout

end Heard

end Audio

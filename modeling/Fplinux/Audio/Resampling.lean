/-
Resampling over several periods (`audio-mixer.c`).

A period leaves the position it got to as a read counter and a phase, and the next one
goes on from there: output frame `k` samples the stream at `k` steps from the start,
however the output frames are split into periods.  Positions are 32.32 numbers and count
the stream's frames without wrapping.

Main results:
- `resampleLoop_made`: the loop stops after all its frames or at the end of the ring;
- `mixerMix_playing`: one period, in terms of positions;
- `mixCalls_split`: several periods make the frames that the formula gives;
- `mixerMix_dry`: a period that runs dry.
-/
import Fplinux.Audio.Mixer

namespace Audio

/-! ### The formula -/

/-- Between two samples, at the fraction of a position. -/
def between (first next : ℤ) (position : ℕ) : ℤ :=
  first + (((next - first) * (position % 2 ^ 32 / 2 ^ 17 : ℕ)) >>> (15 : ℕ))

/-- Between two frames of so many channels. -/
def frameBetween (channels : ℕ) (here next : Frame) (position : ℕ) : ℤ × ℤ :=
  (between (here.getD 0 0) (next.getD 0 0) position,
    between (here.getD (channels - 1) 0) (next.getD (channels - 1) 0) position)

/-- What a stream of frames sounds like at a position. -/
def formula (channels : ℕ) (content : ℕ → Frame) (position : ℕ) : ℤ × ℤ :=
  frameBetween channels (content (position / 2 ^ 32)) (content (position / 2 ^ 32 + 1)) position

/-- The same while only the frames before `limit` were written: the last one stands in for
its successor. -/
def heldFormula (channels : ℕ) (content : ℕ → Frame) (limit position : ℕ) : ℤ × ℤ :=
  frameBetween channels (content (position / 2 ^ 32))
    (if position / 2 ^ 32 + 1 < limit then content (position / 2 ^ 32 + 1)
      else content (position / 2 ^ 32)) position

variable {content : ℕ → Frame} {stream : MixerStream} {frames outputEnd write : ℕ} {mixed : Mixed}
  {slots : List Frame}

theorem heldFormula_of_lt {channels : ℕ} {limit position : ℕ} (h : position / 2 ^ 32 + 1 < limit) :
    heldFormula channels content limit position = formula channels content position := by
  rw [heldFormula, if_pos h, formula]

theorem sample_unity (first next fraction : ℤ) :
    sample first next fraction mixerUnity = first + (((next - first) * fraction) >>> (15 : ℕ)) := by
  have hunity : mixerUnity ≠ 0 := by decide
  rw [sample, Int.shiftRight_eq_div_pow _ 15]
  exact Int.mul_ediv_cancel _ hunity

/-! ### The loop -/

section Loop

variable {stream : MixerStream} (slots : List Frame) {available : ℕ}

/-- **Where the loop stops**: after all its frames, or at the end of what is available. -/
theorem resampleLoop_made (hstep : stream.step ≤ 2 ^ 32) (hav : available < 2 ^ 32) (slope : ℤ)
    (frames : ℕ) : ∀ (offset : ℕ) (level : ℤ), offset / 2 ^ 32 ≤ available →
      (resampleLoop stream slots available slope frames offset level).2 =
          offset + (resampleLoop stream slots available slope frames offset level).1.length *
            stream.step ∧
        (resampleLoop stream slots available slope frames offset level).1.length ≤ frames ∧
        ((resampleLoop stream slots available slope frames offset level).1.length < frames →
          (resampleLoop stream slots available slope frames offset level).2 / 2 ^ 32 =
            available) := by
  induction frames with
  | zero =>
    intro offset level hoff
    refine ⟨?_, Nat.le_refl 0, fun h => absurd h (Nat.lt_irrefl 0)⟩
    rw [resampleLoop, List.length_nil, Nat.zero_mul, Nat.add_zero]
  | succ frames ih =>
    intro offset level hoff
    have hwhole : offset / 2 ^ 32 % 2 ^ 32 = offset / 2 ^ 32 := Nat.mod_eq_of_lt (by omega)
    rw [resampleLoop]
    simp only [hwhole]
    split
    · rename_i hdry
      refine ⟨?_, Nat.zero_le _, fun _ => Nat.le_antisymm hoff hdry⟩
      rw [List.length_nil, Nat.zero_mul, Nat.add_zero]
    · have hmove := div_add_step offset hstep
      obtain ⟨hend, hmade, hdry⟩ := ih (offset + stream.step) (level + slope) (by omega)
      refine ⟨?_, ?_, ?_⟩
      · rw [hend, List.length_cons, Nat.succ_mul]
        omega
      · rw [List.length_cons]
        omega
      · rw [List.length_cons]
        intro hlt
        exact hdry (by omega)

theorem frames_at {base whole : ℕ} {content : ℕ → Frame} (hread : stream.read = base % 2 ^ 32)
    (hav : available < 2 ^ 32) (hlt : whole < available)
    (hcontent : ∀ i < available, frameAt stream slots ((base + i) % 2 ^ 32) = content (base + i)) :
    frameAt stream slots (Word.add 32 stream.read whole) = content (base + whole) ∧
      ((if Word.add 32 whole 1 < available then
          some (frameAt stream slots (Word.add 32 (Word.add 32 stream.read whole) 1))
        else none).getD (content (base + whole)) =
        if base + whole + 1 < base + available then content (base + whole + 1)
          else content (base + whole)) := by
  have hnext : Word.add 32 whole 1 = whole + 1 := Word.add_eq (by omega)
  rw [hread, Word.add_mod, Word.add_mod, hnext, hcontent whole hlt]
  refine ⟨rfl, ?_⟩
  by_cases hsuccessor : whole + 1 < available
  · rw [if_pos hsuccessor, if_pos (by omega), Option.getD_some, Nat.add_assoc,
      hcontent (whole + 1) hsuccessor]
  · rw [if_neg hsuccessor, if_neg (by omega), Option.getD_none]

/-- **What the loop makes at unity gain**: the formula at one step after another.  The
stream stands at the true frame `base`, and the ring has the content from there on. -/
theorem resampleLoop_added {base : ℕ} {content : ℕ → Frame} (hread : stream.read = base % 2 ^ 32)
    (hstep : stream.step ≤ 2 ^ 32) (hav : available < 2 ^ 32)
    (hcontent : ∀ i < available, frameAt stream slots ((base + i) % 2 ^ 32) = content (base + i))
    (frames : ℕ) : ∀ offset : ℕ, offset / 2 ^ 32 ≤ available →
      (resampleLoop stream slots available 0 frames offset (mixerUnity * 32768)).1.map Visit.added =
        (List.range
            (resampleLoop stream slots available 0 frames offset (mixerUnity * 32768)).1.length).map
          fun k => heldFormula stream.channels content (base + available)
            (base * 2 ^ 32 + offset + k * stream.step) := by
  induction frames with
  | zero => exact fun offset hoff => rfl
  | succ frames ih =>
    intro offset hoff
    have hwhole : offset / 2 ^ 32 % 2 ^ 32 = offset / 2 ^ 32 := Nat.mod_eq_of_lt (by omega)
    rw [resampleLoop]
    simp only [hwhole]
    split
    · rfl
    · rename_i hlt
      have hmove := div_add_step offset hstep
      have hrest := ih (offset + stream.step) (by omega)
      rw [List.map_cons, List.length_cons, List.range_succ_eq_map, List.map_cons, List.map_map]
      congr 1
      · obtain ⟨hhere, hnext⟩ := frames_at slots hread hav (Nat.not_le.mp hlt) hcontent
        have hfrac : (base * 2 ^ 32 + offset) % 2 ^ 32 = offset % 2 ^ 32 := by omega
        have hat : (base * 2 ^ 32 + offset) / 2 ^ 32 = base + offset / 2 ^ 32 := by omega
        have hgain : (mixerUnity * 32768) >>> (15 : ℕ) = mixerUnity := by decide
        have hfirst : base * 2 ^ 32 + offset + 0 * stream.step = base * 2 ^ 32 + offset := by omega
        rw [hhere, hnext, hgain, hfirst, heldFormula, frameBetween, hat]
        simp only [sample_unity, between, hfrac, leftOf, rightOf]
      · rw [Int.add_zero, hrest]
        refine List.map_congr_left fun k _ => ?_
        rw [Function.comp_apply, Nat.succ_mul]
        congr 1
        omega

end Loop

/-! ### One period -/

/-- **Where a period leaves the stream**, whatever its gain: a step further for each frame
it made, and at the end of the ring if it made fewer than it should. -/
theorem resample_position (slots : List Frame) {position available : ℕ}
    (hread : stream.read = position / 2 ^ 32 % 2 ^ 32) (hphase : stream.phase = position % 2 ^ 32)
    (hstep : stream.step ≤ 2 ^ 32) (hav : available < 2 ^ 32) (frames : ℕ) :
    (resample stream slots available frames).1.read =
        (position + (resample stream slots available frames).2.length * stream.step) / 2 ^ 32 %
          2 ^ 32 ∧
      (resample stream slots available frames).1.phase =
        (position + (resample stream slots available frames).2.length * stream.step) % 2 ^ 32 ∧
      ((resample stream slots available frames).2.length < frames →
        (position + (resample stream slots available frames).2.length * stream.step) / 2 ^ 32 =
          position / 2 ^ 32 + available) := by
  have hstart : stream.phase / 2 ^ 32 ≤ available := by
    rw [hphase, Nat.div_eq_of_lt (Nat.mod_lt _ (Nat.two_pow_pos 32))]
    exact Nat.zero_le _
  obtain ⟨hend, -, hdry⟩ := resampleLoop_made slots hstep hav (rampSlope stream.gain frames) frames
    stream.phase (stream.gain.current * 32768) hstart
  rw [resample]
  simp only
  generalize resampleLoop stream slots available (rampSlope stream.gain frames) frames stream.phase
    (stream.gain.current * 32768) = result at *
  rw [hend] at hdry
  rw [hread, hend, hphase]
  rw [hphase] at hdry
  generalize result.1.length * stream.step = moved at *
  refine ⟨?_, ?_, ?_⟩
  · rw [Word.add_mod]
    omega
  · omega
  · intro hshort
    have hlast := hdry hshort
    omega

/-- A stream that plays at unity gain and stands at a position. -/
structure Playing (stream : MixerStream) (position : ℕ) : Prop where
  paused : stream.paused = false
  gain : stream.gain = ⟨mixerUnity, mixerUnity⟩
  read : stream.read = position / 2 ^ 32 % 2 ^ 32
  phase : stream.phase = position % 2 ^ 32

/-- The frame after the last one written, for a stream that stands at a position. -/
def limitOf (position write : ℕ) : ℕ :=
  position / 2 ^ 32 + Word.sub 32 write (position / 2 ^ 32 % 2 ^ 32)

/-- The slots of a ring have this content, from a position up to what was written. -/
def HoldsContent (mask : ℕ) (content : ℕ → Frame) (slots : List Frame) (position write : ℕ) :
    Prop :=
  ∀ index, position / 2 ^ 32 ≤ index → index < limitOf position write →
    slots.getD (index % 2 ^ 32 &&& mask) [] = content index

theorem mixerMix_some (hpaused : stream.paused = false)
    (hmix : mixerMix stream slots write frames outputEnd = some mixed) :
    mixed =
      { stream :=
          remember (resample stream slots (Word.sub 32 write stream.read) frames).1 outputEnd
        visits := (resample stream slots (Word.sub 32 write stream.read) frames).2
        added :=
          (resample stream slots (Word.sub 32 write stream.read) frames).2.map Visit.added } := by
  rw [mixerMix, if_neg (by rw [hpaused]; exact Bool.false_ne_true)] at hmix
  simp only at hmix
  split at hmix
  · cases hmix
  · exact (Option.some.inj hmix).symm

theorem resampleLoop_unity (hgain : stream.gain = ⟨mixerUnity, mixerUnity⟩) (slots : List Frame)
    (available frames : ℕ) :
    resampleLoop stream slots available (rampSlope stream.gain frames) frames stream.phase
        (stream.gain.current * 32768) =
      resampleLoop stream slots available 0 frames stream.phase (mixerUnity * 32768) := by
  have hslope : rampSlope stream.gain frames = 0 := by
    rw [hgain, rampSlope, Int.sub_self, Int.zero_mul, Int.zero_tdiv]
  rw [hslope, hgain]

/-- **One period at unity gain**, in terms of positions. -/
theorem mixerMix_playing {position : ℕ} (h : Playing stream position) (hstep : stream.step ≤ 2 ^ 32)
    (hcontent : HoldsContent stream.mask content slots position write)
    (hmix : mixerMix stream slots write frames outputEnd = some mixed) :
    mixed.added = (List.range mixed.visits.length).map (fun k =>
        heldFormula stream.channels content (limitOf position write) (position + k * stream.step)) ∧
      Playing mixed.stream (position + mixed.visits.length * stream.step) ∧
      mixed.stream.mask = stream.mask ∧ mixed.stream.channels = stream.channels ∧
      mixed.stream.step = stream.step := by
  have hav : Word.sub 32 write stream.read < 2 ^ 32 := Word.sub_lt ..
  have hstart : stream.phase / 2 ^ 32 ≤ Word.sub 32 write stream.read := by
    rw [h.phase, Nat.div_eq_of_lt (Nat.mod_lt _ (Nat.two_pow_pos 32))]
    exact Nat.zero_le _
  have hlimit : limitOf position write = position / 2 ^ 32 + Word.sub 32 write stream.read := by
    rw [limitOf, h.read]
  have hring : ∀ i < Word.sub 32 write stream.read,
      frameAt stream slots ((position / 2 ^ 32 + i) % 2 ^ 32) =
        content (position / 2 ^ 32 + i) := by
    intro i hlt
    exact hcontent _ (Nat.le_add_right _ _) (by omega)
  have hsplit : position / 2 ^ 32 * 2 ^ 32 + stream.phase = position := by
    rw [h.phase]
    exact Nat.div_add_mod' position (2 ^ 32)
  have hadded := resampleLoop_added slots h.read hstep hav hring frames stream.phase hstart
  rw [mixerMix_some h.paused hmix]
  rw [← resampleLoop_unity h.gain] at hadded
  rw [hsplit] at hadded
  refine ⟨?_, ⟨h.paused, ?_, ?_, ?_⟩, rfl, rfl, rfl⟩
  · rw [hlimit]
    exact hadded
  · show Gain.mk stream.gain.target stream.gain.target = _
    rw [h.gain]
  · exact (resample_position slots h.read h.phase hstep hav frames).1
  · exact (resample_position slots h.read h.phase hstep hav frames).2.1

/-- **A period that runs dry** takes what is available, plays each frame of it and leaves
the stream at the write counter. -/
theorem mixerMix_dry (hpaused : stream.paused = false) (hread : stream.read < 2 ^ 32)
    (hphase : stream.phase < 2 ^ 32) (hstep : stream.step ≤ 2 ^ 32) (hwrite : write < 2 ^ 32)
    (hmix : mixerMix stream slots write frames outputEnd = some mixed)
    (hdry : mixed.visits.length < frames) :
    mixed.stream.read = write ∧
      (∀ v ∈ mixed.visits, v.whole < Word.sub 32 write stream.read) ∧
      ∀ i < Word.sub 32 write stream.read, ∃ v ∈ mixed.visits,
        v.whole = i ∧ v.here = frameAt stream slots (Word.add 32 stream.read i) := by
  have hav : Word.sub 32 write stream.read < 2 ^ 32 := Word.sub_lt ..
  have hat : (stream.read * 2 ^ 32 + stream.phase) / 2 ^ 32 = stream.read := by omega
  have hread' : stream.read = (stream.read * 2 ^ 32 + stream.phase) / 2 ^ 32 % 2 ^ 32 := by omega
  have hphase' : stream.phase = (stream.read * 2 ^ 32 + stream.phase) % 2 ^ 32 := by omega
  obtain ⟨hto, -, hlast⟩ := resample_position slots hread' hphase' hstep hav frames
  obtain ⟨moved, hle, hsweep, hok, hmoved⟩ := resample_spec slots hstep hav hphase frames
  rw [mixerMix_some hpaused hmix] at hdry ⊢
  have hend := hlast hdry
  have hwhole : (stream.read + Word.sub 32 write stream.read) % 2 ^ 32 = write := by
    rw [Word.sub]
    omega
  rw [hend, hat, hwhole] at hto
  have hall : moved = Word.sub 32 write stream.read := by
    rw [hto, Word.add] at hmoved
    omega
  refine ⟨hto, fun v hv => (hok v hv).inside, ?_⟩
  intro i hlt
  obtain ⟨v, hv, hwhere⟩ := List.mem_map.mp (hsweep.mem (Nat.zero_le i) (by omega))
  refine ⟨v, hv, hwhere, ?_⟩
  rw [← hwhere]
  exact (hok v hv).here

/-! ### Several periods -/

/-- What `fplinux_audio_mixer_mix` is called with. -/
structure MixCall where
  slots : List Frame
  write : ℕ
  frames : ℕ
  outputEnd : ℕ

/-- One call after the other; `none` when one of them ends the stream. -/
def mixCalls (stream : MixerStream) : List MixCall → Option (MixerStream × List Mixed)
  | [] => some (stream, [])
  | call :: calls =>
    match mixerMix stream call.slots call.write call.frames call.outputEnd with
    | none => none
    | some mixed =>
      (mixCalls mixed.stream calls).map fun result => (result.1, mixed :: result.2)

/-- The ring has this content at every call, if each fills its period. -/
def HoldsCalls (mask step : ℕ) (content : ℕ → Frame) : ℕ → List MixCall → Prop
  | _, [] => True
  | position, call :: calls =>
    HoldsContent mask content call.slots position call.write ∧
      HoldsCalls mask step content (position + call.frames * step) calls

/-- The frame after the last one written at the call that makes an output frame. -/
def limitAt (step : ℕ) : ℕ → List MixCall → ℕ → ℕ
  | _, [], _ => 0
  | position, call :: calls, k =>
    if k < call.frames then limitOf position call.write
    else limitAt step (position + call.frames * step) calls (k - call.frames)

/-- Every call filled its period. -/
def Filled (calls : List MixCall) (mixes : List Mixed) : Prop :=
  List.Forall₂ (fun call mixed => mixed.visits.length = call.frames) calls mixes

/-- **Periods that are filled** make the frames of the formula, each at its own step. -/
theorem mixCalls_split {position : ℕ} (h : Playing stream position) (hstep : stream.step ≤ 2 ^ 32)
    {calls : List MixCall} (hcontent : HoldsCalls stream.mask stream.step content position calls)
    {last : MixerStream} {mixes : List Mixed} (hmix : mixCalls stream calls = some (last, mixes))
    (hfilled : Filled calls mixes) :
    (mixes.map Mixed.added).flatten =
        (List.range (calls.map MixCall.frames).sum).map (fun k => heldFormula stream.channels content
          (limitAt stream.step position calls k) (position + k * stream.step)) ∧
      Playing last (position + (calls.map MixCall.frames).sum * stream.step) := by
  induction calls generalizing stream position mixes with
  | nil =>
    obtain ⟨rfl, rfl⟩ : stream = last ∧ [] = mixes := by
      simpa only [mixCalls, Option.some.injEq, Prod.mk.injEq] using hmix
    refine ⟨rfl, ?_⟩
    rw [List.map_nil, List.sum_nil, Nat.zero_mul, Nat.add_zero]
    exact h
  | cons call calls ih =>
    rw [mixCalls] at hmix
    split at hmix
    · cases hmix
    · rename_i mixed hfirst
      obtain ⟨⟨last', rest⟩, hrest, hresult⟩ := Option.map_eq_some_iff.mp hmix
      obtain ⟨rfl, rfl⟩ : last' = last ∧ mixed :: rest = mixes := by
        simpa only [Prod.mk.injEq] using hresult
      cases hfilled with
      | cons hmade hfilled =>
        obtain ⟨hadded, hplaying, hmask, hchannels, hstep'⟩ :=
          mixerMix_playing h hstep hcontent.1 hfirst
        rw [hmade] at hadded hplaying
        have hcontent' : HoldsCalls mixed.stream.mask mixed.stream.step content
            (position + call.frames * stream.step) calls := by
          rw [hmask, hstep']
          exact hcontent.2
        obtain ⟨hrestAdded, hlast⟩ := ih hplaying (by rw [hstep']; exact hstep) hcontent' hrest
          hfilled
        rw [hchannels, hstep'] at hrestAdded
        rw [hstep'] at hlast
        rw [List.map_cons, List.map_cons, List.flatten_cons, List.sum_cons, List.range_add,
          List.map_append, List.map_map]
        refine ⟨?_, ?_⟩
        · congr 1
          · rw [hadded]
            refine List.map_congr_left fun k hk => ?_
            rw [limitAt, if_pos (List.mem_range.mp hk)]
          · rw [hrestAdded]
            refine List.map_congr_left fun k hk => ?_
            rw [Function.comp_apply, limitAt, if_neg (by omega), Nat.add_sub_cancel_left,
              Nat.add_mul, Nat.add_assoc]
        · rw [Nat.add_mul, ← Nat.add_assoc]
          exact hlast

/-- The position of a stream. -/
def MixerStream.position (stream : MixerStream) : ℕ := stream.read * 2 ^ 32 + stream.phase

/-- What periods that were filled made of a stream, and where they left it. -/
structure Resampled (stream : MixerStream) (content : ℕ → Frame) (calls : List MixCall)
    (last : MixerStream) (mixes : List Mixed) : Prop where
  /-- The last frame written at a call stands in for its successor. -/
  held : (mixes.map Mixed.added).flatten =
    (List.range (calls.map MixCall.frames).sum).map fun k => heldFormula stream.channels content
      (limitAt stream.step stream.position calls k) (stream.position + k * stream.step)
  /-- The single formula, if every successor was written. -/
  split : (∀ k < (calls.map MixCall.frames).sum, (stream.position + k * stream.step) / 2 ^ 32 + 1 <
      limitAt stream.step stream.position calls k) →
    (mixes.map Mixed.added).flatten = (List.range (calls.map MixCall.frames).sum).map fun k =>
      formula stream.channels content (stream.position + k * stream.step)
  read : last.read =
    (stream.position + (calls.map MixCall.frames).sum * stream.step) / 2 ^ 32 % 2 ^ 32
  phase : last.phase = (stream.position + (calls.map MixCall.frames).sum * stream.step) % 2 ^ 32
  /-- As one period of all the frames leaves it. -/
  whole : ∀ slots write outputEnd one,
    mixerMix stream slots write (calls.map MixCall.frames).sum outputEnd = some one →
      one.visits.length = (calls.map MixCall.frames).sum →
        last.read = one.stream.read ∧ last.phase = one.stream.phase

/-- A period that made fewer frames than it should took all that was available. -/
structure RanDry (stream : MixerStream) (slots : List Frame) (write : ℕ) (mixed : Mixed) :
    Prop where
  read : mixed.stream.read = write
  inside : ∀ v ∈ mixed.visits, v.whole < Word.sub 32 write stream.read
  plays : ∀ i < Word.sub 32 write stream.read, ∃ v ∈ mixed.visits,
    v.whole = i ∧ v.here = frameAt stream slots (Word.add 32 stream.read i)

/-- **Resampling does not depend on the periods.**  A stream at any rate, of any number of
channels, anywhere in its ring makes the frames of the formula as long as its periods are
filled, and takes all it has when one is not. -/
theorem resampling_split {stream : MixerStream} {rate : ℕ} (hrate : rate ≤ mixerRate)
    (hstep : stream.step = rate * 2 ^ 32 / mixerRate) (hpaused : stream.paused = false)
    (hread : stream.read < 2 ^ 32) (hphase : stream.phase < 2 ^ 32) :
    (stream.gain = ⟨mixerUnity, mixerUnity⟩ → ∀ content calls last mixes,
      HoldsCalls stream.mask stream.step content stream.position calls →
        mixCalls stream calls = some (last, mixes) → Filled calls mixes →
          Resampled stream content calls last mixes) ∧
      ∀ slots write frames outputEnd mixed, write < 2 ^ 32 →
        mixerMix stream slots write frames outputEnd = some mixed →
          mixed.visits.length < frames → RanDry stream slots write mixed := by
  have hone : stream.step ≤ 2 ^ 32 := by
    rw [hstep]
    exact Nat.div_le_of_le_mul (Nat.mul_le_mul_right _ hrate)
  have hread' : stream.read = stream.position / 2 ^ 32 % 2 ^ 32 := by
    rw [MixerStream.position]
    omega
  have hphase' : stream.phase = stream.position % 2 ^ 32 := by
    rw [MixerStream.position]
    omega
  refine ⟨?_, ?_⟩
  · intro hgain content calls last mixes hcontent hmix hfilled
    have hplaying : Playing stream stream.position := ⟨hpaused, hgain, hread', hphase'⟩
    obtain ⟨hheld, hlast⟩ := mixCalls_split hplaying hone hcontent hmix hfilled
    refine ⟨hheld, ?_, hlast.read, hlast.phase, ?_⟩
    · intro hwritten
      rw [hheld]
      refine List.map_congr_left fun k hk => ?_
      exact heldFormula_of_lt (hwritten k (List.mem_range.mp hk))
    · intro slots write outputEnd one hmixOne hmade
      obtain ⟨hreadOne, hphaseOne, -⟩ := resample_position slots hread' hphase' hone
        (Word.sub_lt 32 write stream.read) (calls.map MixCall.frames).sum
      rw [mixerMix_some hpaused hmixOne] at hmade ⊢
      rw [hmade] at hreadOne hphaseOne
      exact ⟨hlast.read.trans hreadOne.symm, hlast.phase.trans hphaseOne.symm⟩
  · intro slots write frames outputEnd mixed hwrite hmix hdry
    obtain ⟨hto, hinside, hplays⟩ := mixerMix_dry hpaused hread hphase hone hwrite hmix hdry
    exact ⟨hto, hinside, hplays⟩

/-! ### Two streams -/

/-- A mono stream at this rate, from the start of a ring of four frames. -/
def monoStream (rate : ℕ) : MixerStream := mixerStreamInit 4 rate 1 0

def fourSlots : List Frame := [[100], [300], [500], [700]]

/-- Three output frames in two periods. -/
def twoCalls : List MixCall := [⟨fourSlots, 4, 1, 1⟩, ⟨fourSlots, 4, 2, 3⟩]

theorem holds_fourSlots {position : ℕ} (h : limitOf position 4 = 4) :
    HoldsContent 3 (fun index => fourSlots.getD (index % 4) []) fourSlots position 4 := by
  intro index _ hlt
  rw [h] at hlt
  have hall : ∀ index < 4,
      fourSlots.getD (index % 2 ^ 32 &&& 3) [] = fourSlots.getD (index % 4) [] := by decide +kernel
  exact hall index hlt

/-- Every second output frame lies between two frames of the ring. -/
theorem resampling_split_halves :
    ∃ last mixes, mixCalls (monoStream 24000) twoCalls = some (last, mixes) ∧
      (mixes.map Mixed.added).flatten = [(100, 100), (200, 200), (300, 300)] ∧
      Resampled (monoStream 24000) (fun index => fourSlots.getD (index % 4) []) twoCalls last
        mixes := by
  have hcontent : HoldsCalls (monoStream 24000).mask (monoStream 24000).step
      (fun index => fourSlots.getD (index % 4) []) (monoStream 24000).position twoCalls :=
    ⟨holds_fourSlots (by decide +kernel), holds_fourSlots (by decide +kernel), trivial⟩
  refine ⟨_, _, rfl, by decide +kernel, ?_⟩
  refine (@resampling_split (monoStream 24000) 24000 (by decide) rfl rfl (by decide) (by decide)).1
    rfl _ _ _ _ hcontent rfl ?_
  exact .cons (by decide +kernel) (.cons (by decide +kernel) .nil)

/-- **A successor that is missing.**  One frame is available to two output frames at a sixth
of the output's rate: both are made of it alone, where the formula moves towards a frame
that was not written, and the frame is not consumed either. -/
theorem resampling_held :
    ∃ mixed, mixerMix (monoStream 8000) [[6000], [0], [0], [0]] 1 2 2 = some mixed ∧
      mixed.visits.length = 2 ∧
      mixed.added ≠ (List.range 2).map (fun k => formula 1
        (fun index => [[6000], [0], [0], [0]].getD (index % 4) []) (k * (monoStream 8000).step)) ∧
      mixed.stream.read ≠ 1 := by
  refine ⟨_, rfl, ?_, ?_, ?_⟩ <;> decide +kernel

end Audio

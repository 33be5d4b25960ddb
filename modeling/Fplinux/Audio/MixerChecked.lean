/-
The mixer in C arithmetic (`audio-mixer.c`).

Each function of the mixer once more, with every operation of the source in its type: a
value that its type does not hold, a division by zero or a read outside the ring or the
frames that were written gives `none`.  Ring counters wrap, as they do in the source.

Main results:
- `sampleChecked_eq`: one sample, with products just below 2^31;
- `resampleLoopChecked_eq`: the resampler, on any ring content and any write counter;
- `rampDownChecked_eq`, `masterChecked_eq`: the ramp of a tail and the master gain;
- `heardChecked_eq`: the heard position divides by the length of a period.
-/
import Mathlib.Data.List.GetD
import Fplinux.Audio.Mixer
import Fplinux.Lib.Checked

namespace Audio

open Checked
open List (getD_eq_getElem getElem_mem length_cons mem_cons mem_cons_self not_mem_nil)
open Option (bind_eq_bind bind_some getD_some)

/-! ### Samples and gains -/

/-- A sample is an `int16_t`. -/
def IsSample (x : ℤ) : Prop := -32768 ≤ x ∧ x ≤ 32767

/-- A sample for each channel. -/
def IsPair (x : ℤ × ℤ) : Prop := IsSample x.1 ∧ IsSample x.2

/-- A Q15 gain. -/
def IsGain (x : ℤ) : Prop := 0 ≤ x ∧ x ≤ mixerUnity

/-- `sample`. -/
def sampleChecked (first next fraction gain : ℤ) : Option ℤ := do
  let distance ← int32 (next - first)
  let product ← int32 (distance * fraction)
  let point ← int32 (first + product >>> (15 : ℕ))
  let scaled ← int32 (point * gain)
  return scaled >>> (15 : ℕ)

theorem between_bounds (first next : ℤ) {fraction : ℤ}
    (hfraction : 0 ≤ fraction ∧ fraction < 32768) :
    min first next ≤ first + ((next - first) * fraction) / 32768 ∧
      first + ((next - first) * fraction) / 32768 ≤ max first next := by
  rcases Int.le_total first next with hup | hdown
  · have hlow : 0 ≤ (next - first) * fraction := Int.mul_nonneg (by omega) hfraction.1
    have hhigh : (next - first) * fraction ≤ (next - first) * 32768 :=
      Int.mul_le_mul_of_nonneg_left (by omega) (by omega)
    omega
  · have hhigh : (next - first) * fraction ≤ 0 :=
      Int.mul_nonpos_of_nonpos_of_nonneg (by omega) hfraction.1
    have hlow : (next - first) * 32768 ≤ (next - first) * fraction :=
      Int.mul_le_mul_of_nonpos_left (by omega) (by omega)
    omega

theorem scaled_bounds (x : ℤ) {gain : ℤ} (hgain : IsGain gain) :
    min x 0 ≤ x * gain / 32768 ∧ x * gain / 32768 ≤ max x 0 := by
  have hunity : gain ≤ 32768 := hgain.2
  rcases Int.le_total 0 x with hpos | hneg
  · have hlow : 0 ≤ x * gain := Int.mul_nonneg hpos hgain.1
    have hhigh : x * gain ≤ x * 32768 := Int.mul_le_mul_of_nonneg_left hunity hpos
    omega
  · have hhigh : x * gain ≤ 0 := Int.mul_nonpos_of_nonpos_of_nonneg hneg hgain.1
    have hlow : x * 32768 ≤ x * gain := Int.mul_le_mul_of_nonpos_left hneg hunity
    omega

/-- **One sample**: the products stay below 2^31, and the sample is one of 16 bits. -/
theorem sampleChecked_eq {first next fraction gain : ℤ} (hfirst : IsSample first)
    (hnext : IsSample next) (hfraction : 0 ≤ fraction ∧ fraction < 32768) (hgain : IsGain gain) :
    sampleChecked first next fraction gain = some (sample first next fraction gain) ∧
      IsSample (sample first next fraction gain) := by
  obtain ⟨hfirstLow, hfirstHigh⟩ := hfirst
  obtain ⟨hnextLow, hnextHigh⟩ := hnext
  -- The distance of two samples is at most 65535, and 65535 * 32767 is below 2^31.
  have hlow : -65535 * fraction ≤ (next - first) * fraction :=
    Int.mul_le_mul_of_nonneg_right (by omega) hfraction.1
  have hhigh : (next - first) * fraction ≤ 65535 * fraction :=
    Int.mul_le_mul_of_nonneg_right (by omega) hfraction.1
  obtain ⟨hpointLow, hpointHigh⟩ := between_bounds first next hfraction
  have hpow : ((2 ^ 15 : ℕ) : ℤ) = 32768 := rfl
  rw [sampleChecked, sample]
  simp only [Int.shiftRight_eq_div_pow, hpow, bind_eq_bind]
  rw [int32_eq (by omega) (by omega), bind_some, int32_eq (by omega) (by omega),
    bind_some, int32_eq (by omega) (by omega), bind_some]
  generalize first + (next - first) * fraction / 32768 = point at hpointLow hpointHigh ⊢
  have hpoint := scaled_bounds point hgain
  rw [int32_eq (by omega) (by omega), bind_some]
  exact ⟨rfl, by omega, by omega⟩

/-! ### Ramps -/

/-- A gain that is kept in 0…UNITY. -/
def unitGain (gain : ℤ) : Option ℤ := if 0 ≤ gain ∧ gain ≤ mixerUnity then some gain else none

/-- `ramp_slope`. -/
def rampSlopeChecked (gain : Gain) (frames : ℕ) : Option ℤ := do
  let distance ← int32 (gain.target - gain.current)
  let scaled ← int32 (distance * 32768)
  let divisor ← int32 frames
  quotient scaled divisor

/-- A ramp that stays within the gains for so many frames: its levels are gains times 32768. -/
structure OnRamp (level slope : ℤ) (frames : ℕ) : Prop where
  low : 0 ≤ level
  high : level ≤ 1073741824
  endLow : 0 ≤ level + frames * slope
  endHigh : level + frames * slope ≤ 1073741824

theorem unitGain_eq {gain : ℤ} (h : IsGain gain) : unitGain gain = some gain := if_pos h

variable {frames : ℕ} {slope bound more : ℤ} {mix : List (ℤ × ℤ)}

theorem OnRamp.gain {level : ℤ} (h : OnRamp level slope frames) : IsGain (level >>> (15 : ℕ)) := by
  have hlow := h.low
  have hhigh := h.high
  have hpow : ((2 ^ 15 : ℕ) : ℤ) = 32768 := rfl
  rw [Int.shiftRight_eq_div_pow, hpow]
  constructor
  · omega
  · show level / 32768 ≤ 32768
    omega

theorem OnRamp.next {level : ℤ} (h : OnRamp level slope (frames + 1)) :
    OnRamp (level + slope) slope frames := by
  obtain ⟨hlow, hhigh, hendLow, hendHigh⟩ := h
  have hsum : level + ((frames + 1 : ℕ) : ℤ) * slope = level + slope + frames * slope := by
    rw [Int.natCast_add, Int.natCast_one, Int.add_mul, Int.one_mul]
    omega
  rw [hsum] at hendLow hendHigh
  rcases Int.le_total 0 slope with hup | hdown
  · have hrest : 0 ≤ (frames : ℤ) * slope := Int.mul_nonneg (Int.natCast_nonneg _) hup
    exact ⟨by omega, by omega, hendLow, hendHigh⟩
  · have hrest : (frames : ℤ) * slope ≤ 0 :=
      Int.mul_nonpos_of_nonneg_of_nonpos (Int.natCast_nonneg _) hdown
    exact ⟨by omega, by omega, hendLow, hendHigh⟩

theorem onRamp_rampSlope {gain : Gain} (hcurrent : IsGain gain.current)
    (htarget : IsGain gain.target) :
    OnRamp (gain.current * 32768) (rampSlope gain frames) frames := by
  obtain ⟨hlow, hhigh⟩ : 0 ≤ gain.current ∧ gain.current ≤ 32768 := hcurrent
  obtain ⟨hlow', hhigh'⟩ : 0 ≤ gain.target ∧ gain.target ≤ 32768 := htarget
  have hreach := mul_tdiv_bounds ((gain.target - gain.current) * 32768) frames
  exact ⟨by omega, by omega, by rw [rampSlope]; omega, by rw [rampSlope]; omega⟩

theorem rampSlopeChecked_eq {gain : Gain} (hcurrent : IsGain gain.current)
    (htarget : IsGain gain.target) (hpos : 0 < frames) (hframes : frames ≤ 7680) :
    rampSlopeChecked gain frames = some (rampSlope gain frames) := by
  obtain ⟨hlow, hhigh⟩ : 0 ≤ gain.current ∧ gain.current ≤ 32768 := hcurrent
  obtain ⟨hlow', hhigh'⟩ : 0 ≤ gain.target ∧ gain.target ≤ 32768 := htarget
  rw [rampSlopeChecked, rampSlope]
  simp only [bind_eq_bind]
  rw [int32_eq (by omega) (by omega), bind_some, int32_eq (by omega) (by omega),
    bind_some, int32_eq (by omega) (by omega), bind_some]
  exact quotient_eq (by omega) (by omega) (by omega)

/-- A value times a Q15 factor, as a tail and the master gain take it: in 64 bits. -/
def scaledChecked (x factor : ℤ) : Option ℤ := do
  let product ← int64 (x * factor)
  int32 (product >>> (15 : ℕ))

theorem scaledChecked_eq {x factor : ℤ} (hlow : -bound ≤ x) (hhigh : x ≤ bound)
    (hbound : bound ≤ 2147483647) (hfactor : IsGain factor) :
    scaledChecked x factor = some ((x * factor) >>> (15 : ℕ)) ∧
      -bound ≤ (x * factor) >>> (15 : ℕ) ∧ (x * factor) >>> (15 : ℕ) ≤ bound := by
  have hpow : ((2 ^ 15 : ℕ) : ℤ) = 32768 := rfl
  have hscaled := scaled_bounds x hfactor
  rw [scaledChecked]
  simp only [Int.shiftRight_eq_div_pow, hpow, bind_eq_bind]
  rw [int64_eq (by omega) (by omega), bind_some, int32_eq (by omega) (by omega)]
  exact ⟨rfl, by omega, by omega⟩

/-! ### The mix -/

/-- What a stream adds to the mix; where it adds nothing the mix stays. -/
def addFrames (mix added : List (ℤ × ℤ)) : List (ℤ × ℤ) :=
  mix.mapIdx fun k pair =>
    (pair.1 + (added.getD k (0, 0)).1, pair.2 + (added.getD k (0, 0)).2)

/-- Both channels are at most this far from zero. -/
def Within (bound : ℤ) (pair : ℤ × ℤ) : Prop :=
  -bound ≤ pair.1 ∧ pair.1 ≤ bound ∧ -bound ≤ pair.2 ∧ pair.2 ≤ bound

theorem length_addFrames (mix added : List (ℤ × ℤ)) : (addFrames mix added).length = mix.length :=
  List.length_mapIdx

@[simp]
theorem addFrames_nil (mix : List (ℤ × ℤ)) : addFrames mix [] = mix := by
  refine List.ext_getElem (length_addFrames mix []) fun k hk hk' => ?_
  simp [addFrames]

@[simp]
theorem addFrames_cons (pair : ℤ × ℤ) (mix : List (ℤ × ℤ)) (x : ℤ × ℤ) (added : List (ℤ × ℤ)) :
    addFrames (pair :: mix) (x :: added) =
      (pair.1 + x.1, pair.2 + x.2) :: addFrames mix added := by
  simp [addFrames, List.mapIdx_cons]

theorem Within.mono {bound' : ℤ} {pair : ℤ × ℤ} (h : Within bound pair) (hle : bound ≤ bound') :
    Within bound' pair := by
  obtain ⟨hleftLow, hleftHigh, hrightLow, hrightHigh⟩ := h
  exact ⟨by omega, by omega, by omega, by omega⟩

theorem IsPair.within {x : ℤ × ℤ} (h : IsPair x) : Within 32768 x := by
  obtain ⟨⟨hleftLow, hleftHigh⟩, hrightLow, hrightHigh⟩ := h
  exact ⟨hleftLow, by omega, hrightLow, by omega⟩

theorem isPair_zero : IsPair (0, 0) := by
  have hzero : IsSample 0 := by
    constructor
    · omega
    · omega
  exact ⟨hzero, hzero⟩

theorem within_addFrames {added : List (ℤ × ℤ)} (hmix : ∀ pair ∈ mix, Within bound pair)
    (hmore : 0 ≤ more) (hadded : ∀ x ∈ added, Within more x) :
    ∀ pair ∈ addFrames mix added, Within (bound + more) pair := by
  intro pair hpair
  obtain ⟨k, hk, rfl⟩ := List.mem_mapIdx.mp hpair
  obtain ⟨hleftLow, hleftHigh, hrightLow, hrightHigh⟩ := hmix _ (getElem_mem hk)
  have hx : Within more (added.getD k (0, 0)) := by
    rcases Nat.lt_or_ge k added.length with hlt | hge
    · rw [getD_eq_getElem _ _ hlt]
      exact hadded _ (getElem_mem hlt)
    · rw [List.getD_eq_default _ _ hge]
      exact ⟨by simpa using hmore, hmore, by simpa using hmore, hmore⟩
  obtain ⟨hleftLow', hleftHigh', hrightLow', hrightHigh'⟩ := hx
  exact ⟨by omega, by omega, by omega, by omega⟩

/-! ### The resampler -/

/-- What the service sees to: the private copies and the gain of a stream are in range. -/
structure MixerStream.InRange (stream : MixerStream) : Prop where
  mask : stream.mask < 2 ^ 31
  channels : 1 ≤ stream.channels
  step : stream.step ≤ 2 ^ 32
  read : stream.read < 2 ^ 32
  phase : stream.phase < 2 ^ 32
  current : IsGain stream.gain.current
  target : IsGain stream.gain.target
  last : IsPair stream.last

/-- Any content of the stream's ring: frames up to the capacity, each of its channels. -/
structure RingOf (stream : MixerStream) (slots : List Frame) : Prop where
  length : slots.length = stream.mask + 1
  channels : ∀ frame ∈ slots, frame.length = stream.channels
  samples : ∀ frame ∈ slots, ∀ x ∈ frame, IsSample x

/-- `frame_at`, for a ring counter from the read position on and before the write counter. -/
def frameAtChecked (stream : MixerStream) (slots : List Frame) (write index : ℕ) :
    Option (ℤ × ℤ) :=
  if Word.sub 32 index stream.read < Word.sub 32 write stream.read then do
    let frame ← slots[index &&& stream.mask]?
    let left ← frame[0]?
    let right ← frame[stream.channels - 1]?
    return (left, right)
  else none

/-- What one output frame of `resample` adds, at its offset past the read position. -/
def visitChecked (stream : MixerStream) (slots : List Frame) (write available offset : ℕ)
    (level : ℤ) (whole : ℕ) : Option (ℤ × ℤ) := do
  let here ← frameAtChecked stream slots write (Word.add 32 stream.read whole)
  let successor ← uint32 (whole + 1)
  let next ←
    if successor < available then
      frameAtChecked stream slots write (Word.add 32 (Word.add 32 stream.read whole) 1)
    else some here
  let fraction ← int32 (offset % 2 ^ 32 / 2 ^ 17 : ℕ)
  let gain ← unitGain (level >>> (15 : ℕ))
  let left ← sampleChecked here.1 next.1 fraction gain
  let right ← sampleChecked here.2 next.2 fraction gain
  return (left, right)

/-- What the loop of `resample` leaves: the mix, the output frames made, the offset, and the
samples added last. -/
structure Progress where
  mix : List (ℤ × ℤ)
  made : ℕ
  offset : ℕ
  last : ℤ × ℤ

/-- The loop of `resample`; the mix has a pair for each output frame. -/
def resampleLoopChecked (stream : MixerStream) (slots : List Frame) (write available : ℕ)
    (slope : ℤ) : List (ℤ × ℤ) → ℕ → ℤ → ℕ → ℤ × ℤ → Option Progress
  | [], offset, _, made, last => some ⟨[], made, offset, last⟩
  | pair :: mix, offset, level, made, last => do
    let whole ← uint32 (offset / 2 ^ 32)
    if whole ≥ available then
      return ⟨pair :: mix, made, offset, last⟩
    else
      let added ← visitChecked stream slots write available offset level whole
      let left ← int32 (pair.1 + added.1)
      let right ← int32 (pair.2 + added.2)
      let level ← int32 (level + slope)
      let offset ← uint64 (offset + stream.step)
      let rest ←
        resampleLoopChecked stream slots write available slope mix offset level (made + 1) added
      return { rest with mix := (left, right) :: rest.mix }

section Resample

variable {stream : MixerStream} {slots : List Frame} {write available : ℕ}

theorem RingOf.samplesOf (hring : RingOf stream slots) (hrange : stream.InRange) (index : ℕ) :
    ∃ frame, slots[index &&& stream.mask]? = some frame ∧
      frameAt stream slots index = frame ∧
      frame[0]? = some (leftOf frame) ∧ frame[stream.channels - 1]? = some (rightOf stream frame) ∧
      IsSample (leftOf frame) ∧ IsSample (rightOf stream frame) := by
  have hindex : index &&& stream.mask < slots.length := by
    rw [hring.length]
    exact Nat.lt_succ_of_le Nat.and_le_right
  have hchannels := hrange.channels
  have hmem := getElem_mem hindex
  have hlength := hring.channels _ hmem
  have hleft : 0 < slots[index &&& stream.mask].length := by omega
  have hright : stream.channels - 1 < slots[index &&& stream.mask].length := by omega
  refine ⟨slots[index &&& stream.mask], List.getElem?_eq_getElem hindex, ?_, ?_, ?_, ?_, ?_⟩
  · rw [frameAt, getD_eq_getElem _ _ hindex]
  · rw [leftOf, getD_eq_getElem _ _ hleft, List.getElem?_eq_getElem hleft]
  · rw [rightOf, getD_eq_getElem _ _ hright, List.getElem?_eq_getElem hright]
  · rw [leftOf, getD_eq_getElem _ _ hleft]
    exact hring.samples _ hmem _ (getElem_mem hleft)
  · rw [rightOf, getD_eq_getElem _ _ hright]
    exact hring.samples _ hmem _ (getElem_mem hright)

/-- **A frame that is read** lies inside the ring and among the frames written. -/
theorem frameAtChecked_eq (hring : RingOf stream slots) (hrange : stream.InRange) {whole : ℕ}
    (hwhole : whole < Word.sub 32 write stream.read) :
    frameAtChecked stream slots write (Word.add 32 stream.read whole) =
        some (leftOf (frameAt stream slots (Word.add 32 stream.read whole)),
          rightOf stream (frameAt stream slots (Word.add 32 stream.read whole))) ∧
      IsSample (leftOf (frameAt stream slots (Word.add 32 stream.read whole))) ∧
      IsSample (rightOf stream (frameAt stream slots (Word.add 32 stream.read whole))) := by
  have hwindow : Word.sub 32 (Word.add 32 stream.read whole) stream.read = whole := by
    have hword := Word.sub_lt 32 write stream.read
    have hback : Word.sub 32 ((stream.read + whole) % 2 ^ 32) (stream.read % 2 ^ 32) =
        stream.read + whole - stream.read := Word.sub_mod (Nat.le_add_right _ _) (by omega)
    rwa [Nat.mod_eq_of_lt hrange.read, Nat.add_sub_cancel_left] at hback
  obtain ⟨frame, hslot, hat, hleft, hright, hleftOk, hrightOk⟩ :=
    hring.samplesOf hrange (Word.add 32 stream.read whole)
  rw [frameAtChecked, hwindow, if_pos hwhole, hslot, hat]
  refine ⟨?_, hleftOk, hrightOk⟩
  simp only [bind_eq_bind, bind_some]
  rw [hleft, bind_some, hright, bind_some]
  rfl

/-- What the exact loop visits at an offset. -/
def visitAt (stream : MixerStream) (slots : List Frame) (available offset : ℕ) (level : ℤ) :
    Visit :=
  let here := frameAt stream slots (Word.add 32 stream.read (offset / 2 ^ 32))
  let next :=
    if offset / 2 ^ 32 + 1 < available then
      some (frameAt stream slots (Word.add 32 (Word.add 32 stream.read (offset / 2 ^ 32)) 1))
    else none
  let fraction : ℤ := (offset % 2 ^ 32 / 2 ^ 17 : ℕ)
  let gain := level >>> (15 : ℕ)
  { whole := offset / 2 ^ 32
    here := here
    next := next
    added := (sample (leftOf here) (leftOf (next.getD here)) fraction gain,
      sample (rightOf stream here) (rightOf stream (next.getD here)) fraction gain) }

theorem resampleLoop_succ {offset : ℕ} {level : ℤ} (hinside : offset / 2 ^ 32 < available)
    (hword : available < 2 ^ 32) (slope : ℤ) (frames : ℕ) :
    resampleLoop stream slots available slope (frames + 1) offset level =
      (visitAt stream slots available offset level ::
          (resampleLoop stream slots available slope frames (offset + stream.step)
            (level + slope)).1,
        (resampleLoop stream slots available slope frames (offset + stream.step)
          (level + slope)).2) := by
  have hwhole : offset / 2 ^ 32 % 2 ^ 32 = offset / 2 ^ 32 := Nat.mod_eq_of_lt (by omega)
  have hsuccessor : Word.add 32 (offset / 2 ^ 32) 1 = offset / 2 ^ 32 + 1 := Word.add_eq (by omega)
  rw [resampleLoop]
  simp only [hwhole, hsuccessor]
  rw [if_neg (Nat.not_le.mpr hinside), visitAt]

/-- **One output frame** of the checked loop is that of the exact loop. -/
theorem visitChecked_eq (hring : RingOf stream slots) (hrange : stream.InRange)
    (havailable : available = Word.sub 32 write stream.read) {offset : ℕ} {level : ℤ}
    (hinside : offset / 2 ^ 32 < available) (hgain : IsGain (level >>> (15 : ℕ))) :
    visitChecked stream slots write available offset level (offset / 2 ^ 32) =
        some (visitAt stream slots available offset level).added ∧
      IsPair (visitAt stream slots available offset level).added := by
  have hword : available < 2 ^ 32 := by
    rw [havailable]
    exact Word.sub_lt 32 write stream.read
  have hfraction : (0 : ℤ) ≤ (offset % 2 ^ 32 / 2 ^ 17 : ℕ) ∧
      ((offset % 2 ^ 32 / 2 ^ 17 : ℕ) : ℤ) < 32768 := by omega
  obtain ⟨hhere, hleft, hright⟩ := frameAtChecked_eq hring hrange (havailable ▸ hinside)
  rw [visitChecked, visitAt, hhere, uint32_eq (by omega), unitGain_eq hgain]
  simp only [bind_eq_bind, bind_some]
  rw [int32_eq (by omega) (by omega)]
  by_cases hnext : offset / 2 ^ 32 + 1 < available
  · have hadd : Word.add 32 (Word.add 32 stream.read (offset / 2 ^ 32)) 1 =
        Word.add 32 stream.read (offset / 2 ^ 32 + 1) := by
      rw [Word.add, Word.add, Word.add, Nat.mod_add_mod, Nat.add_assoc]
    obtain ⟨hthere, hleft', hright'⟩ := frameAtChecked_eq hring hrange (havailable ▸ hnext)
    obtain ⟨hfirst, hfirstOk⟩ := sampleChecked_eq hleft hleft' hfraction hgain
    obtain ⟨hsecond, hsecondOk⟩ := sampleChecked_eq hright hright' hfraction hgain
    rw [if_pos hnext, if_pos hnext, hadd, hthere]
    simp only [bind_some, getD_some]
    rw [hfirst, bind_some, hsecond, bind_some]
    exact ⟨rfl, hfirstOk, hsecondOk⟩
  · -- The last frame written stands in for the missing one.
    obtain ⟨hfirst, hfirstOk⟩ := sampleChecked_eq hleft hleft hfraction hgain
    obtain ⟨hsecond, hsecondOk⟩ := sampleChecked_eq hright hright hfraction hgain
    rw [if_neg hnext, if_neg hnext]
    simp only [bind_some, Option.getD_none]
    rw [hfirst, bind_some, hsecond, bind_some]
    exact ⟨rfl, hfirstOk, hsecondOk⟩

/-- **The loop of the resampler** makes the frames of the exact loop and adds them. -/
theorem resampleLoopChecked_eq (hring : RingOf stream slots) (hrange : stream.InRange)
    (havailable : available = Word.sub 32 write stream.read) (hfits : available ≤ 2 ^ 31)
    (slope : ℤ) {bound : ℤ} (hbound : bound ≤ 2147450879) :
    ∀ (mix : List (ℤ × ℤ)) (offset : ℕ) (level : ℤ) (made : ℕ) (last : ℤ × ℤ),
      OnRamp level slope mix.length → offset / 2 ^ 32 ≤ available →
      (∀ pair ∈ mix, Within bound pair) →
      resampleLoopChecked stream slots write available slope mix offset level made last =
          some
            { mix := addFrames mix ((resampleLoop stream slots available slope mix.length offset
                level).1.map Visit.added)
              made := made +
                (resampleLoop stream slots available slope mix.length offset level).1.length
              offset := (resampleLoop stream slots available slope mix.length offset level).2
              last := ((resampleLoop stream slots available slope mix.length offset
                level).1.getLast?.map Visit.added).getD last } ∧
        ∀ v ∈ (resampleLoop stream slots available slope mix.length offset level).1,
          IsPair v.added := by
  intro mix
  induction mix with
  | nil =>
    intro offset level made last _ _ _
    exact ⟨rfl, fun v hv => absurd hv not_mem_nil⟩
  | cons pair mix ih =>
    intro offset level made last hramp hoffset hmix
    rw [resampleLoopChecked, uint32_eq (by omega), length_cons]
    simp only [bind_eq_bind, bind_some]
    rcases Nat.lt_or_ge (offset / 2 ^ 32) available with hinside | hdry
    · obtain ⟨hvisit, hpair⟩ := visitChecked_eq hring hrange havailable hinside hramp.gain
      obtain ⟨hleftLow, hleftHigh, hrightLow, hrightHigh⟩ := hmix pair mem_cons_self
      obtain ⟨⟨hleftLow', hleftHigh'⟩, hrightLow', hrightHigh'⟩ := id hpair
      have hnext := hramp.next
      have hlevelLow := hnext.low
      have hlevelHigh := hnext.high
      have hstep := hrange.step
      have hmove := div_add_step offset hstep
      obtain ⟨hrest, hadded⟩ := ih (offset + stream.step) (level + slope) (made + 1)
        (visitAt stream slots available offset level).added hnext (by omega)
        fun x hx => hmix x (List.mem_cons_of_mem _ hx)
      rw [if_neg (Nat.not_le.mpr hinside), hvisit, bind_some,
        int32_eq (by omega) (by omega), bind_some, int32_eq (by omega) (by omega),
        bind_some, int32_eq (by omega) (by omega), bind_some, uint64_eq (by omega),
        bind_some, hrest, resampleLoop_succ hinside (by omega)]
      refine ⟨?_, ?_⟩
      · simp only [bind_some, List.map_cons, addFrames_cons, length_cons,
          List.getLast?_cons, Option.map_some, getD_some, Option.getD_map]
        rw [Nat.add_assoc, Nat.add_comm 1]
        rfl
      · intro v hv
        rcases mem_cons.mp hv with rfl | hv
        · exact hpair
        · exact hadded v hv
    · have hword : offset / 2 ^ 32 % 2 ^ 32 ≥ available := by
        rw [Nat.mod_eq_of_lt (by omega)]
        exact hdry
      rw [if_pos hdry, resampleLoop]
      simp only
      rw [if_pos hword]
      exact ⟨by simp, fun v hv => absurd hv not_mem_nil⟩

/-- `resample`. -/
def resampleChecked (stream : MixerStream) (slots : List Frame) (write available : ℕ)
    (mix : List (ℤ × ℤ)) : Option (MixerStream × List (ℤ × ℤ)) := do
  let level ← int32 (stream.gain.current * 32768)
  let slope ← rampSlopeChecked stream.gain mix.length
  let progress ←
    resampleLoopChecked stream slots write available slope mix stream.phase level 0 (0, 0)
  let moved ← uint32 (progress.offset / 2 ^ 32)
  return ({ stream with
    read := Word.add 32 stream.read moved
    phase := progress.offset % 2 ^ 32
    gain := { stream.gain with current := stream.gain.target }
    last := if progress.made = mix.length then progress.last else (0, 0) }, progress.mix)

/-- **A period of a stream that plays.** -/
theorem resampleChecked_eq (hring : RingOf stream slots) (hrange : stream.InRange)
    (havailable : available = Word.sub 32 write stream.read) (hfits : available ≤ 2 ^ 31)
    {bound : ℤ} (hbound : bound ≤ 2147450879) {mix : List (ℤ × ℤ)} (hpos : 0 < mix.length)
    (hframes : mix.length ≤ 7680) (hmix : ∀ pair ∈ mix, Within bound pair) :
    resampleChecked stream slots write available mix =
        some ((resample stream slots available mix.length).1,
          addFrames mix ((resample stream slots available mix.length).2.map Visit.added)) ∧
      (∀ v ∈ (resample stream slots available mix.length).2, IsPair v.added) ∧
      (resample stream slots available mix.length).1.InRange := by
  have hphase := hrange.phase
  obtain ⟨hlow, hhigh⟩ : 0 ≤ stream.gain.current ∧ stream.gain.current ≤ 32768 := hrange.current
  have hslope := rampSlopeChecked_eq hrange.current hrange.target hpos hframes
  obtain ⟨hloop, hadded⟩ := resampleLoopChecked_eq hring hrange havailable hfits
    (rampSlope stream.gain mix.length) hbound mix stream.phase (stream.gain.current * 32768) 0
    (0, 0) (onRamp_rampSlope hrange.current hrange.target) (by omega) hmix
  obtain ⟨-, hend, -⟩ := @resampleLoop_spec stream slots available
    (rampSlope stream.gain mix.length) hrange.step (by omega) mix.length stream.phase
    (stream.gain.current * 32768) (by omega)
  rw [resampleChecked, resample, hslope]
  simp only [bind_eq_bind]
  rw [int32_eq (by omega) (by omega), bind_some, bind_some, hloop, bind_some]
  generalize resampleLoop stream slots available (rampSlope stream.gain mix.length) mix.length
    stream.phase (stream.gain.current * 32768) = looped at hadded hend ⊢
  refine ⟨?_, hadded, ?_⟩
  · have hmoved : looped.2 / 2 ^ 32 % 2 ^ 32 = looped.2 / 2 ^ 32 := Nat.mod_eq_of_lt (by omega)
    dsimp only
    rw [Nat.zero_add, hmoved, uint32_eq (by omega)]
    rfl
  · exact
      { mask := hrange.mask
        channels := hrange.channels
        step := hrange.step
        read := Word.add_lt 32 _ _
        phase := Nat.mod_lt _ (by omega)
        current := hrange.target
        target := hrange.target
        last := by
          show IsPair (if looped.1.length = mix.length then _ else _)
          split
          · cases hlast : looped.1.getLast? with
            | none => exact isPair_zero
            | some v => exact hadded v (List.mem_of_getLast? hlast)
          · exact isPair_zero }

end Resample

/-! ### Tails and pauses -/

/-- The loop of `fplinux_audio_mixer_ramp_down`. -/
def rampDownLoopChecked (slope : ℤ) (last : ℤ × ℤ) :
    List (ℤ × ℤ) → ℤ → Option (List (ℤ × ℤ))
  | [], _ => some []
  | pair :: mix, level => do
    let level ← int32 (level - slope)
    let factor ← unitGain (level >>> (15 : ℕ))
    let left ← scaledChecked last.1 factor
    let right ← scaledChecked last.2 factor
    let left ← int32 (pair.1 + left)
    let right ← int32 (pair.2 + right)
    let rest ← rampDownLoopChecked slope last mix level
    return (left, right) :: rest

/-- `fplinux_audio_mixer_ramp_down`. -/
def rampDownChecked (mix : List (ℤ × ℤ)) (last : ℤ × ℤ) : Option (List (ℤ × ℤ)) := do
  let slope ← unsignedQuotient (2 ^ 30) mix.length
  if last = (0, 0) then
    return mix
  else
    rampDownLoopChecked slope last mix 1073741824

theorem rampDownLoopChecked_eq {slope : ℕ} {last : ℤ × ℤ} (hlast : Within more last)
    (hmax : more ≤ 2147483647) (hbound : bound + more ≤ 2147483647) :
    ∀ (mix : List (ℤ × ℤ)) (level : ℤ), OnRamp level (-slope) mix.length →
      (∀ pair ∈ mix, Within bound pair) →
      rampDownLoopChecked slope last mix level =
          some (addFrames mix (rampDownLoop slope last mix.length level)) ∧
        ∀ x ∈ rampDownLoop slope last mix.length level, Within more x := by
  intro mix
  induction mix with
  | nil =>
    intro level _ _
    exact ⟨rfl, fun x hx => absurd hx not_mem_nil⟩
  | cons pair mix ih =>
    intro level hramp hmix
    have hnext := hramp.next
    rw [← Int.sub_eq_add_neg] at hnext
    have hlow := hnext.low
    have hhigh := hnext.high
    obtain ⟨hleftLow, hleftHigh, hrightLow, hrightHigh⟩ := hmix pair mem_cons_self
    obtain ⟨hlastLow, hlastHigh, hlastLow', hlastHigh'⟩ := hlast
    obtain ⟨hleft, hleftLow', hleftHigh'⟩ :=
      scaledChecked_eq hlastLow hlastHigh hmax hnext.gain
    obtain ⟨hright, hrightLow', hrightHigh'⟩ :=
      scaledChecked_eq hlastLow' hlastHigh' hmax hnext.gain
    obtain ⟨hrest, hadded⟩ :=
      ih (level - slope) hnext fun x hx => hmix x (List.mem_cons_of_mem _ hx)
    rw [rampDownLoopChecked]
    simp only [bind_eq_bind]
    rw [int32_eq (by omega) (by omega), bind_some, unitGain_eq hnext.gain, bind_some,
      hleft, bind_some, hright, bind_some, int32_eq (by omega) (by omega),
      bind_some, int32_eq (by omega) (by omega), bind_some, hrest]
    refine ⟨?_, ?_⟩
    · rw [length_cons, rampDownLoop, addFrames_cons]
      rfl
    · intro x hx
      rw [length_cons, rampDownLoop] at hx
      rcases mem_cons.mp hx with rfl | hx
      · exact ⟨hleftLow', hleftHigh', hrightLow', hrightHigh'⟩
      · exact hadded x hx

/-- **A tail** never gets louder, and its ramp ends no lower than zero. -/
theorem rampDownChecked_eq {last : ℤ × ℤ} (hlast : Within more last) (hmax : more ≤ 2147483647)
    (hbound : bound + more ≤ 2147483647) (hpos : 0 < mix.length)
    (hmix : ∀ pair ∈ mix, Within bound pair) :
    rampDownChecked mix last = some (addFrames mix (rampDown mix.length last)) ∧
      ∀ x ∈ rampDown mix.length last, Within more x := by
  have htop : (2 ^ 30 : ℤ) = 1073741824 := rfl
  have hreach := Nat.mul_div_le (2 ^ 30) mix.length
  have hramp : OnRamp 1073741824 (-((2 ^ 30 / mix.length : ℕ) : ℤ)) mix.length := by
    have hcast : ((mix.length * (2 ^ 30 / mix.length) : ℕ) : ℤ) =
        mix.length * (2 ^ 30 / mix.length : ℕ) := Int.natCast_mul _ _
    exact ⟨by omega, by omega, by rw [Int.mul_neg]; omega, by rw [Int.mul_neg]; omega⟩
  rw [rampDownChecked, unsignedQuotient_eq _ (by omega), rampDown]
  simp only [bind_eq_bind, bind_some]
  by_cases hsilent : last = (0, 0)
  · rw [if_pos hsilent, if_pos hsilent, addFrames_nil]
    exact ⟨rfl, fun x hx => absurd hx not_mem_nil⟩
  · rw [if_neg hsilent, if_neg hsilent, htop]
    exact rampDownLoopChecked_eq hlast hmax hbound mix _ hramp hmix

/-- `fplinux_audio_mixer_mix`: the inner `none` is its -1. -/
def mixerMixChecked (stream : MixerStream) (slots : List Frame) (write : ℕ)
    (mix : List (ℤ × ℤ)) (outputEnd : ℕ) : Option (Option (MixerStream × List (ℤ × ℤ))) :=
  if stream.paused then do
    let mix ← rampDownChecked mix stream.last
    return some (remember
      { stream with last := (0, 0), gain := { stream.gain with current := 0 } } outputEnd, mix)
  else do
    let capacity ← uint32 (stream.mask + 1)
    if Word.sub 32 write stream.read > capacity then
      return none
    else
      let made ← resampleChecked stream slots write (Word.sub 32 write stream.read) mix
      return some (remember made.1 outputEnd, made.2)

section Period

variable {stream : MixerStream} {slots : List Frame}

/-- **A period of a stream** adds what the exact one adds, no more than a sample a frame. -/
theorem mixerMixChecked_eq (hring : RingOf stream slots) (hrange : stream.InRange) (write : ℕ)
    {bound : ℤ} (hbound : bound ≤ 2147450879) {mix : List (ℤ × ℤ)} (hpos : 0 < mix.length)
    (hframes : mix.length ≤ 7680) (hmix : ∀ pair ∈ mix, Within bound pair) (outputEnd : ℕ) :
    mixerMixChecked stream slots write mix outputEnd =
        some ((mixerMix stream slots write mix.length outputEnd).map fun mixed =>
          (mixed.stream, addFrames mix mixed.added)) ∧
      ∀ mixed, mixerMix stream slots write mix.length outputEnd = some mixed →
        mixed.stream.InRange ∧ ∀ x ∈ mixed.added, Within 32768 x := by
  have hmask := hrange.mask
  rw [mixerMixChecked, mixerMix]
  by_cases hpaused : stream.paused = true
  · obtain ⟨hdown, hadded⟩ := rampDownChecked_eq hrange.last.within (by omega)
      (by omega : bound + 32768 ≤ 2147483647) hpos hmix
    rw [if_pos hpaused, if_pos hpaused, hdown]
    refine ⟨rfl, fun mixed hmixed => ?_⟩
    obtain rfl := Option.some.inj hmixed
    have hzero : IsGain 0 := by
      constructor
      · omega
      · decide
    refine ⟨?_, hadded⟩
    exact
      { mask := hrange.mask
        channels := hrange.channels
        step := hrange.step
        read := hrange.read
        phase := hrange.phase
        current := hzero
        target := hrange.target
        last := isPair_zero }
  · have hcapacity : Word.add 32 stream.mask 1 = stream.mask + 1 := Word.add_eq (by omega)
    rw [if_neg hpaused, if_neg hpaused, uint32_eq (by omega), hcapacity]
    simp only [bind_eq_bind, bind_some]
    by_cases hahead : Word.sub 32 write stream.read > stream.mask + 1
    · rw [if_pos hahead, if_pos hahead]
      exact ⟨rfl, fun mixed hmixed => by cases hmixed⟩
    · obtain ⟨hmade, hadded, hkept⟩ :=
        @resampleChecked_eq stream slots write _ hring hrange rfl (by omega) _ hbound _ hpos
          hframes hmix
      rw [if_neg hahead, if_neg hahead, hmade]
      refine ⟨rfl, fun mixed hmixed => ?_⟩
      obtain rfl := Option.some.inj hmixed
      refine ⟨?_, ?_⟩
      · exact
          { mask := hkept.mask
            channels := hkept.channels
            step := hkept.step
            read := hkept.read
            phase := hkept.phase
            current := hkept.current
            target := hkept.target
            last := hkept.last }
      · intro x hx
        obtain ⟨v, hv, rfl⟩ := List.mem_map.mp hx
        exact (hadded v hv).within

end Period

/-! ### The master gain and the output -/

/-- The loop of `fplinux_audio_mixer_master`. -/
def masterLoopChecked (slope : ℤ) : List (ℤ × ℤ) → ℤ → Option (List (ℤ × ℤ))
  | [], _ => some []
  | pair :: mix, level => do
    let factor ← unitGain (level >>> (15 : ℕ))
    let left ← scaledChecked pair.1 factor
    let right ← scaledChecked pair.2 factor
    let level ← int32 (level + slope)
    let rest ← masterLoopChecked slope mix level
    return (left, right) :: rest

/-- `fplinux_audio_mixer_master`. -/
def masterChecked (mix : List (ℤ × ℤ)) (gain : Gain) : Option (List (ℤ × ℤ) × Gain) := do
  let level ← int32 (gain.current * 32768)
  let slope ← rampSlopeChecked gain mix.length
  let mix ← masterLoopChecked slope mix level
  return (mix, { gain with current := gain.target })

def saturate (value : ℤ) : ℤ :=
  if value > 32767 then 32767 else if value < -32768 then -32768 else value

def mixerOutput (mix : List (ℤ × ℤ)) : List (ℤ × ℤ) :=
  mix.map fun pair => (saturate pair.1, saturate pair.2)

/-- The Q15 factor of a ramp at one of the period's frames. -/
def factorAt (gain : Gain) (frames k : ℕ) : ℤ :=
  (gain.current * 32768 + k * rampSlope gain frames) >>> (15 : ℕ)

/-- A pair times a Q15 factor. -/
def scaledPair (factor : ℤ) (pair : ℤ × ℤ) : ℤ × ℤ :=
  ((pair.1 * factor) >>> (15 : ℕ), (pair.2 * factor) >>> (15 : ℕ))

theorem saturate_eq (value : ℤ) : saturate value = max (-32768) (min 32767 value) := by
  rw [saturate]
  split
  · omega
  · split
    · omega
    · omega

theorem masterLoopChecked_eq (hbound : bound ≤ 2147483647) :
    ∀ (mix : List (ℤ × ℤ)) (level : ℤ), OnRamp level slope mix.length →
      (∀ pair ∈ mix, Within bound pair) →
      masterLoopChecked slope mix level =
        some (mix.mapIdx fun k pair => scaledPair ((level + k * slope) >>> (15 : ℕ)) pair) := by
  intro mix
  induction mix with
  | nil => exact fun level _ _ => rfl
  | cons pair mix ih =>
    intro level hramp hmix
    have hnext := hramp.next
    have hlow := hnext.low
    have hhigh := hnext.high
    obtain ⟨hleftLow, hleftHigh, hrightLow, hrightHigh⟩ := hmix pair mem_cons_self
    have hleft := scaledChecked_eq hleftLow hleftHigh hbound hramp.gain
    have hright := scaledChecked_eq hrightLow hrightHigh hbound hramp.gain
    have hrest := ih (level + slope) hnext fun x hx => hmix x (List.mem_cons_of_mem _ hx)
    rw [masterLoopChecked, unitGain_eq hramp.gain]
    simp only [bind_eq_bind, bind_some]
    rw [hleft.1, bind_some, hright.1, bind_some, int32_eq (by omega) (by omega),
      bind_some, hrest, bind_some, List.mapIdx_cons, Int.natCast_zero, Int.zero_mul,
      Int.add_zero]
    have hsteps : ∀ k : ℕ, level + slope + k * slope = level + ((k + 1 : ℕ) : ℤ) * slope := by
      intro k
      rw [Int.natCast_add, Int.natCast_one, Int.add_mul, Int.one_mul]
      omega
    simp only [hsteps]
    rfl

/-- **The master gain** scales every frame by a factor between zero and unity. -/
theorem masterChecked_eq {gain : Gain} (hcurrent : IsGain gain.current)
    (htarget : IsGain gain.target) (hbound : bound ≤ 2147483647) (hpos : 0 < mix.length)
    (hframes : mix.length ≤ 7680) (hmix : ∀ pair ∈ mix, Within bound pair) :
    masterChecked mix gain =
      some (mix.mapIdx fun k pair => scaledPair (factorAt gain mix.length k) pair,
        { gain with current := gain.target }) := by
  have hslope := rampSlopeChecked_eq hcurrent htarget hpos hframes
  have hloop := masterLoopChecked_eq hbound mix (gain.current * 32768)
    (onRamp_rampSlope hcurrent htarget) hmix
  obtain ⟨hlow, hhigh⟩ : 0 ≤ gain.current ∧ gain.current ≤ 32768 := hcurrent
  rw [masterChecked, hslope]
  simp only [bind_eq_bind]
  rw [int32_eq (by omega) (by omega), bind_some, bind_some, hloop]
  rfl

/-! ### The heard position -/

/-- The position heard between two marks: it divides by the frames between them. -/
def heardAtChecked (played : ℕ) (mark : Mark) : Option Mark → Option ℕ
  | none => some mark.read
  | some next => do
    let share ← unsignedQuotient
      (Word.sub 32 next.read mark.read * (played - mark.output) % 2 ^ 64)
      (next.output - mark.output)
    return Word.add 32 mark.read (share % 2 ^ 32)

/-- The search of `fplinux_audio_mixer_heard`. -/
def heardLoopChecked (played heard : ℕ) : Option Mark → List Mark → Option ℕ
  | _, [] => some heard
  | later, mark :: older =>
    if mark.output ≤ played then do
      let position ← heardAtChecked played mark later
      return if isAhead position heard then position else heard
    else
      heardLoopChecked played heard (some mark) older

/-- `fplinux_audio_mixer_heard`. -/
def heardChecked (stream : MixerStream) (played : ℕ) : Option MixerStream := do
  let heard ← heardLoopChecked played stream.heard none stream.marks
  return { stream with heard := heard }

/-- The marks of a stream, the newest first, and all of them before `mixed`. -/
structure MarkedTo (mixed : ℕ) (marks : List Mark) : Prop where
  falling : marks.Pairwise fun newer older => older.output < newer.output
  le : ∀ mark ∈ marks, mark.output ≤ mixed

theorem MarkedTo.remember {mixed : ℕ} {marks : List Mark} (h : MarkedTo mixed marks)
    (hpos : 0 < frames) (read : ℕ) :
    MarkedTo (mixed + frames) ((⟨mixed + frames, read⟩ :: marks).take mixerHistory) where
  falling := by
    refine List.Pairwise.sublist (List.take_sublist _ _) (List.pairwise_cons.mpr ⟨?_, h.falling⟩)
    intro mark hmark
    exact Nat.lt_of_le_of_lt (h.le mark hmark) (Nat.lt_add_of_pos_right hpos)
  le := by
    intro mark hmark
    rcases mem_cons.mp (List.mem_of_mem_take hmark) with rfl | hmark
    · exact Nat.le_refl _
    · exact Nat.le_trans (h.le mark hmark) (Nat.le_add_right _ _)

theorem heardLoopChecked_eq (played heard : ℕ) (marks : List Mark) :
    ∀ later : Option Mark, (∀ next, later = some next → ∀ mark ∈ marks, mark.output < next.output) →
      marks.Pairwise (fun newer older => older.output < newer.output) →
      heardLoopChecked played heard later marks = some (heardLoop played heard later marks) := by
  induction marks with
  | nil => exact fun later _ _ => rfl
  | cons mark older ih =>
    intro later hlater hfalling
    obtain ⟨hnewest, hrest⟩ := List.pairwise_cons.mp hfalling
    rw [heardLoopChecked, heardLoop]
    by_cases hplayed : mark.output ≤ played
    · rw [if_pos hplayed, if_pos hplayed]
      cases later with
      | none => rfl
      | some next =>
        have hgap := hlater next rfl mark mem_cons_self
        rw [heardAtChecked, unsignedQuotient_eq _ (by omega)]
        rfl
    · rw [if_neg hplayed, if_neg hplayed]
      refine ih (some mark) ?_ hrest
      rintro next hnext
      obtain rfl := Option.some.inj hnext
      exact hnewest

/-- **The heard position**: two marks are never of the same output position. -/
theorem heardChecked_eq {stream : MixerStream} {mixed : ℕ} (h : MarkedTo mixed stream.marks)
    (played : ℕ) : heardChecked stream played = some (mixerHeard stream played) := by
  rw [heardChecked, heardLoopChecked_eq played stream.heard stream.marks none
    (fun next hnext => by cases hnext) h.falling]
  rfl

end Audio

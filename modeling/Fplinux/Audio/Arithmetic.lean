/-
The arithmetic of a period (`audio-streams.c`, `fill` in `audiod.c`).

A period adds the tail of ended streams and each open stream to the mix, applies the master
gain and saturates.  `fillChecked` does it in C arithmetic (`MixerChecked`); in every run it
gives what exact arithmetic gives.  What carries the proof is a budget: the tail has no more
than one sample for each stream that ended since the last period, and a stream that was put
in its slot since then has nothing to add to the tail before it played.

Main results:
- `Spent.endStream`: the tail fits while streams end;
- `mixChecked_eq`: a period adds up exactly;
- `Steady.advance`: what holds between two calls of the service;
- `Service.fill_exact`: every run.
-/
import Mathlib.Data.Fintype.Card
import Fplinux.Audio.Delivery
import Fplinux.Audio.MixerChecked
import Fplinux.Audio.PolicyInvariant

namespace Audiod

open Audio Checked

namespace Streams

/-! ### Checked calls -/

/-- `end_stream`. -/
def endStreamChecked (s : Streams) (i : StreamIndex) : Option Streams :=
  match s.streams i with
  | none => some s
  | some stream =>
    if s.output = .opened then do
      let left ← int32 (s.tail.1 + stream.mixer.last.1)
      let right ← int32 (s.tail.2 + stream.mixer.last.2)
      return { s.setStream i none with tail := (left, right) }
    else some (s.setStream i none)

/-- `fplinux_audio_streams_mix` for one slot. -/
def mixAtChecked (writes : StreamIndex → ℕ) (rings : StreamIndex → List Frame)
    (s : Streams × List (ℤ × ℤ)) (i : StreamIndex) : Option (Streams × List (ℤ × ℤ)) :=
  match s.1.streams i with
  | none => some s
  | some stream => do
    let made ← mixerMixChecked stream.mixer (rings i) (if stream.mixer.paused then 0 else writes i)
      s.2 s.1.mixed
    match made with
    | none => do
      let ended ← s.1.endStreamChecked i
      return (ended, s.2)
    | some (mixer, mix) => return (s.1.setStream i (some { stream with mixer := mixer }), mix)

/-- `fplinux_audio_streams_mix`: the streams after it and the mix. -/
def mixChecked (s : Streams) (frames : ℕ) (writes : StreamIndex → ℕ)
    (rings : StreamIndex → List Frame) : Option (Streams × List (ℤ × ℤ)) := do
  let mix ← rampDownChecked (List.replicate frames (0, 0)) s.tail
  (List.finRange streamsMax).foldlM (mixAtChecked writes rings)
    ({ s with tail := (0, 0), mixed := s.mixed + frames }, mix)

/-- What a slot adds to the mix of a period that ends at `outputEnd`. -/
def contribution (frames outputEnd write : ℕ) (slots : List Frame) :
    Option OpenStream → List (ℤ × ℤ)
  | none => []
  | some stream =>
    ((mixerMix stream.mixer slots (if stream.mixer.paused then 0 else write) frames outputEnd).map
      Mixed.added).getD []

/-- What a period adds up: the tail of ended streams, and each slot. -/
def contributions (s : Streams) (frames : ℕ) (writes : StreamIndex → ℕ)
    (rings : StreamIndex → List Frame) : List (List (ℤ × ℤ)) :=
  rampDown frames s.tail :: (List.finRange streamsMax).map fun i =>
    contribution frames (s.mixed + frames) (writes i) (rings i) (s.streams i)

/-! ### Ended streams -/

/-- The streams that ended since the last period: the tail has at most a sample of each, and
what is in their slots now did not play yet. -/
structure Spent (s : Streams) (spent : Finset StreamIndex) : Prop where
  tail : Within (32768 * spent.card) s.tail
  silent : ∀ i ∈ spent, ∀ stream, s.streams i = some stream → stream.mixer.last = (0, 0)

variable {s t : Streams} {spent : Finset StreamIndex}

theorem card_spent (spent : Finset StreamIndex) : spent.card ≤ 9 := by
  have hcard := Finset.card_le_univ spent
  rwa [Fintype.card_fin] at hcard

theorem spent_empty (h : s.tail = (0, 0)) : Spent s ∅ where
  tail := by
    rw [h]
    simp [Within]
  silent i hi := absurd hi (Finset.notMem_empty i)

theorem Spent.within (h : Spent s spent) : Within 294912 s.tail := by
  have hcard := card_spent spent
  exact h.tail.mono (by omega)

theorem mixed_endStream (s : Streams) (i : StreamIndex) : (s.endStream i).mixed = s.mixed := by
  rw [endStream]
  split
  · rfl
  · rfl

variable {i : StreamIndex} {stream : OpenStream}

theorem mem_endStream {j : StreamIndex} (h : (s.endStream i).streams j = some stream) :
    j ≠ i ∧ s.streams j = some stream := by
  rw [streams_endStream] at h
  split at h
  · cases h
  · rename_i hne
    exact ⟨hne, h⟩

theorem Spent.add (h : Spent s spent) {i : StreamIndex} {stream : OpenStream}
    (hs : s.streams i = some stream) (hlast : IsPair stream.mixer.last) :
    Within (32768 * (insert i spent).card)
      (s.tail.1 + stream.mixer.last.1, s.tail.2 + stream.mixer.last.2) := by
  by_cases hi : i ∈ spent
  · rw [Finset.insert_eq_of_mem hi, h.silent i hi stream hs, Int.add_zero, Int.add_zero]
    exact h.tail
  · obtain ⟨hleftLow, hleftHigh, hrightLow, hrightHigh⟩ := h.tail
    obtain ⟨hleftLow', hleftHigh', hrightLow', hrightHigh'⟩ := hlast.within
    rw [Finset.card_insert_of_notMem hi]
    exact ⟨by omega, by omega, by omega, by omega⟩

/-- **A stream that ends** leaves its last sample to the tail, which fits. -/
theorem Spent.endStream (h : Spent s spent) (i : StreamIndex)
    (hlast : ∀ stream, s.streams i = some stream → IsPair stream.mixer.last) :
    s.endStreamChecked i = some (s.endStream i) ∧ Spent (s.endStream i) (insert i spent) := by
  have hkept : Within (32768 * (insert i spent).card) s.tail := by
    have hgrows := Finset.card_le_card (Finset.subset_insert i spent)
    exact h.tail.mono (by omega)
  have hsilent : ∀ j ∈ insert i spent, ∀ stream, (s.endStream i).streams j = some stream →
      stream.mixer.last = (0, 0) := by
    intro j hj stream hstream
    obtain ⟨hne, hold⟩ := mem_endStream hstream
    exact h.silent j ((Finset.mem_insert.mp hj).resolve_left hne) stream hold
  rw [endStreamChecked]
  cases hs : s.streams i with
  | none =>
    have hsame : s.endStream i = s := by rw [Streams.endStream, hs]
    exact ⟨by rw [hsame], by rwa [hsame], hsilent⟩
  | some stream =>
    simp only
    by_cases hopened : s.output = .opened
    · have hended : s.endStream i = { s.setStream i none with
          tail := (s.tail.1 + stream.mixer.last.1, s.tail.2 + stream.mixer.last.2) } := by
        rw [Streams.endStream, hs]
        simp only
        rw [if_pos hopened]
      have hsum := h.add hs (hlast stream hs)
      have hcard := card_spent (insert i spent)
      obtain ⟨hleftLow, hleftHigh, hrightLow, hrightHigh⟩ := hsum.mono
        (by omega : (32768 * (insert i spent).card : ℤ) ≤ 294912)
      dsimp only at hleftLow hleftHigh hrightLow hrightHigh
      rw [if_pos hopened]
      simp only [Option.bind_eq_bind]
      rw [int32_eq (by omega) (by omega), Option.bind_some, int32_eq (by omega) (by omega),
        Option.bind_some]
      refine ⟨by rw [hended]; rfl, ?_, hsilent⟩
      rw [hended]
      exact hsum
    · have hended : s.endStream i = s.setStream i none := by
        rw [Streams.endStream, hs]
        simp only
        rw [if_neg hopened]
        rfl
      rw [if_neg hopened]
      refine ⟨by rw [hended], ?_, hsilent⟩
      rw [hended]
      exact hkept

/-! ### A period -/

/-- In a period: the slots in `left` wait for their turn, the others had it. -/
structure Filling (frames before : ℕ) (rings : StreamIndex → List Frame)
    (left : List StreamIndex) (s : Streams) : Prop where
  mixed : s.mixed = before + frames
  bounded : ∀ i stream, s.streams i = some stream →
    stream.mixer.InRange ∧ MarkedTo s.mixed stream.mixer.marks
  waiting : ∀ i ∈ left, ∀ stream, s.streams i = some stream →
    MarkedTo before stream.mixer.marks ∧ RingOf stream.mixer (rings i)
  spent : ∃ spent, Spent s spent ∧ ∀ i ∈ left, i ∉ spent

theorem marks_mixerMix {stream : MixerStream} {slots : List Frame} {write frames outputEnd : ℕ}
    {mixed : Mixed} (h : mixerMix stream slots write frames outputEnd = some mixed) :
    ∃ read, mixed.stream.marks = (⟨outputEnd, read⟩ :: stream.marks).take mixerHistory := by
  rw [mixerMix] at h
  split at h
  · obtain rfl := Option.some.inj h
    exact ⟨_, rfl⟩
  · simp only at h
    split at h
    · cases h
    · obtain rfl := Option.some.inj h
      exact ⟨_, rfl⟩

section Period

variable {frames before : ℕ} {rings : StreamIndex → List Frame} {left : List StreamIndex}
  {i : StreamIndex}

theorem Filling.endStream (h : Filling frames before rings (i :: left) s) (hnot : i ∉ left) :
    s.endStreamChecked i = some (s.endStream i) ∧
      Filling frames before rings left (s.endStream i) := by
  obtain ⟨spent, hspent, hfresh⟩ := h.spent
  obtain ⟨hchecked, hended⟩ := hspent.endStream i fun stream hs => (h.bounded i stream hs).1.last
  refine ⟨hchecked, ?_⟩
  exact
    { mixed := by rw [mixed_endStream, h.mixed]
      bounded := by
        intro j stream hstream
        rw [mixed_endStream]
        exact h.bounded j stream (mem_endStream hstream).2
      waiting := fun j hj stream hstream =>
        h.waiting j (List.mem_cons_of_mem _ hj) stream (mem_endStream hstream).2
      spent := by
        refine ⟨_, hended, fun j hj hin => ?_⟩
        rcases Finset.mem_insert.mp hin with rfl | hin
        · exact hnot hj
        · exact hfresh j (List.mem_cons_of_mem _ hj) hin }

theorem Filling.setStream (h : Filling frames before rings (i :: left) s) (hnot : i ∉ left)
    {stream : OpenStream} (hrange : stream.mixer.InRange)
    (hmarked : MarkedTo s.mixed stream.mixer.marks) :
    Filling frames before rings left (s.setStream i (some stream)) := by
  obtain ⟨spent, hspent, hfresh⟩ := h.spent
  have hothers : ∀ j, j ≠ i → (s.setStream i (some stream)).streams j = s.streams j :=
    fun j hj => setStream_of_ne s _ hj
  exact
    { mixed := h.mixed
      bounded := by
        intro j new hnew
        by_cases hj : j = i
        · subst hj
          rw [setStream_self] at hnew
          obtain rfl := Option.some.inj hnew
          exact ⟨hrange, hmarked⟩
        · rw [hothers j hj] at hnew
          exact h.bounded j new hnew
      waiting := by
        intro j hj new hnew
        rw [hothers j (ne_of_mem_of_not_mem hj hnot)] at hnew
        exact h.waiting j (List.mem_cons_of_mem _ hj) new hnew
      spent := by
        refine ⟨spent, ⟨hspent.tail, fun j hj new hnew => ?_⟩,
          fun j hj => hfresh j (List.mem_cons_of_mem _ hj)⟩
        rw [hothers j fun hji => hfresh i List.mem_cons_self (hji ▸ hj)] at hnew
        exact hspent.silent j hj new hnew }

theorem Filling.skip (h : Filling frames before rings (i :: left) s) :
    Filling frames before rings left s where
  mixed := h.mixed
  bounded := h.bounded
  waiting j hj := h.waiting j (List.mem_cons_of_mem _ hj)
  spent := by
    obtain ⟨spent, hspent, hfresh⟩ := h.spent
    exact ⟨spent, hspent, fun j hj => hfresh j (List.mem_cons_of_mem _ hj)⟩

/-- **One slot's turn.** -/
theorem Filling.mixAt (h : Filling frames before rings (i :: left) s) (hnot : i ∉ left)
    (writes : StreamIndex → ℕ) {bound : ℤ} (hbound : bound ≤ 2147450879) {mix : List (ℤ × ℤ)}
    (hlength : mix.length = frames) (hpos : 0 < frames) (hframes : frames ≤ 7680)
    (hmix : ∀ pair ∈ mix, Within bound pair) :
    mixAtChecked writes rings (s, mix) i =
        some (mixAt frames writes rings s i,
          addFrames mix (contribution frames s.mixed (writes i) (rings i) (s.streams i))) ∧
      (∀ x ∈ contribution frames s.mixed (writes i) (rings i) (s.streams i), Within 32768 x) ∧
      Filling frames before rings left (mixAt frames writes rings s i) ∧
      ∀ j, j ≠ i → (mixAt frames writes rings s i).streams j = s.streams j := by
  rw [mixAtChecked, Streams.mixAt]
  cases hs : s.streams i with
  | none =>
    refine ⟨?_, fun x hx => absurd hx List.not_mem_nil, h.skip, fun _ _ => rfl⟩
    simp only [contribution, addFrames_nil]
  | some stream =>
    obtain ⟨hmarked, hring⟩ := h.waiting i List.mem_cons_self stream hs
    obtain ⟨hrange, -⟩ := h.bounded i stream hs
    subst hlength
    obtain ⟨hmade, hadded⟩ := mixerMixChecked_eq hring hrange
      (if stream.mixer.paused then 0 else writes i) hbound hpos hframes hmix s.mixed
    simp only [contribution, Option.bind_eq_bind]
    rw [hmade, Option.bind_some]
    cases hmixed : mixerMix stream.mixer (rings i) (if stream.mixer.paused then 0 else writes i)
        mix.length s.mixed with
    | none =>
      obtain ⟨hchecked, hended⟩ := h.endStream hnot
      simp only [Option.map_none]
      refine ⟨?_, fun x hx => absurd hx List.not_mem_nil, hended, fun j hj => ?_⟩
      · rw [hchecked, Option.bind_some, Option.getD_none, addFrames_nil]
        rfl
      · rw [streams_endStream, if_neg hj]
    | some mixed =>
      obtain ⟨hkept, hwithin⟩ := hadded mixed hmixed
      obtain ⟨read, hmarks⟩ := marks_mixerMix hmixed
      have hafter : MarkedTo s.mixed mixed.stream.marks := by
        rw [hmarks, h.mixed]
        exact hmarked.remember hpos read
      simp only [Option.map_some, Option.getD_some]
      refine ⟨rfl, hwithin, h.setStream hnot hkept hafter, fun j hj => ?_⟩
      exact setStream_of_ne s _ hj

theorem Filling.foldlM (writes : StreamIndex → ℕ) (hpos : 0 < frames) (hframes : frames ≤ 7680)
    (left : List StreamIndex) (hnodup : left.Nodup) :
    ∀ (s : Streams) (mix : List (ℤ × ℤ)) (bound : ℤ), Filling frames before rings left s →
      mix.length = frames → bound + 32768 * left.length ≤ 589824 →
      (∀ pair ∈ mix, Within bound pair) →
      left.foldlM (mixAtChecked writes rings) (s, mix) =
          some (left.foldl (Streams.mixAt frames writes rings) s,
            (left.map fun i => contribution frames s.mixed (writes i) (rings i)
              (s.streams i)).foldl addFrames mix) ∧
        Filling frames before rings [] (left.foldl (Streams.mixAt frames writes rings) s) ∧
        ∀ pair ∈ (left.map fun i => contribution frames s.mixed (writes i) (rings i)
          (s.streams i)).foldl addFrames mix, Within 589824 pair := by
  induction left with
  | nil =>
    intro s mix bound h _ hbound hmix
    refine ⟨rfl, h, fun pair hpair => (hmix pair hpair).mono ?_⟩
    rw [List.length_nil] at hbound
    omega
  | cons i left ih =>
    intro s mix bound h hlength hbound hmix
    obtain ⟨hnot, hrest⟩ := List.nodup_cons.mp hnodup
    rw [List.length_cons] at hbound
    obtain ⟨hturn, hadded, hnext, hothers⟩ :=
      h.mixAt hnot writes (by omega) hlength hpos hframes hmix
    have hmixed : (Streams.mixAt frames writes rings s i).mixed = s.mixed := by
      rw [hnext.mixed, h.mixed]
    obtain ⟨hfold, hend, hwithin⟩ := ih hrest _
      (addFrames mix (contribution frames s.mixed (writes i) (rings i) (s.streams i)))
      (bound + 32768) hnext (by rw [length_addFrames, hlength]) (by omega)
      (within_addFrames hmix (by omega) hadded)
    have hsame : left.map (fun j => contribution frames
          (Streams.mixAt frames writes rings s i).mixed (writes j) (rings j)
          ((Streams.mixAt frames writes rings s i).streams j)) =
        left.map fun j => contribution frames s.mixed (writes j) (rings j) (s.streams j) := by
      refine List.map_congr_left fun j hj => ?_
      rw [hmixed, hothers j (ne_of_mem_of_not_mem hj hnot)]
    rw [hsame] at hfold hwithin
    refine ⟨?_, hend, hwithin⟩
    rw [List.foldlM_cons, hturn]
    exact hfold

end Period

/-! ### Between two calls -/

/-- What holds between two calls: streams are in range, and what ended is in the tail. -/
structure Bounded (s : Streams) : Prop where
  streams : ∀ i stream, s.streams i = some stream →
    stream.mixer.InRange ∧ MarkedTo s.mixed stream.mixer.marks
  spent : ∃ spent, Spent s spent

/-- A period that the card takes: its length, and any content of the rings. -/
structure Fills (s : Streams) (frames : ℕ) (rings : StreamIndex → List Frame) : Prop where
  pos : 0 < frames
  le : frames ≤ 7680
  rings : ∀ i stream, s.streams i = some stream → RingOf stream.mixer (rings i)

/-- The sum of what is added at one frame. -/
def sumAt (parts : List (List (ℤ × ℤ))) (k : ℕ) : ℤ × ℤ :=
  ((parts.map fun part => (part.getD k (0, 0)).1).sum,
    (parts.map fun part => (part.getD k (0, 0)).2).sum)

theorem foldl_addFrames (parts : List (List (ℤ × ℤ))) : ∀ mix : List (ℤ × ℤ),
    parts.foldl addFrames mix =
      mix.mapIdx fun k pair => (pair.1 + (sumAt parts k).1, pair.2 + (sumAt parts k).2) := by
  induction parts with
  | nil =>
    intro mix
    refine List.ext_getElem (by simp) fun k hk hk' => ?_
    simp [sumAt]
  | cons part parts ih =>
    intro mix
    rw [List.foldl_cons, ih, addFrames, List.mapIdx_mapIdx]
    refine List.ext_getElem (by simp) fun k hk hk' => ?_
    simp [sumAt, Int.add_assoc]

/-- **A period adds up exactly**, and keeps the bounds. -/
theorem mixChecked_eq (h : Bounded s) {frames : ℕ} {rings : StreamIndex → List Frame}
    (hfills : Fills s frames rings) (writes : StreamIndex → ℕ) :
    s.mixChecked frames writes rings =
        some (s.mix frames writes rings,
          (s.contributions frames writes rings).foldl addFrames
            (List.replicate frames (0, 0))) ∧
      Bounded (s.mix frames writes rings) ∧
      ∀ pair ∈ (s.contributions frames writes rings).foldl addFrames
        (List.replicate frames (0, 0)), Within 589824 pair := by
  obtain ⟨spent, hspent⟩ := h.spent
  have hsilent : ∀ pair ∈ List.replicate frames ((0, 0) : ℤ × ℤ), Within 0 pair := by
    intro pair hpair
    obtain rfl := List.eq_of_mem_replicate hpair
    exact ⟨by omega, by omega, by omega, by omega⟩
  obtain ⟨htail, hramp⟩ := rampDownChecked_eq hspent.within (by omega)
    (by omega : (0 : ℤ) + 294912 ≤ 2147483647) (by rw [List.length_replicate]; exact hfills.pos)
    hsilent
  rw [List.length_replicate] at htail hramp
  -- The period starts with an empty tail, so nothing is spent.
  have hstart : Filling frames s.mixed rings (List.finRange streamsMax)
      { s with tail := (0, 0), mixed := s.mixed + frames } :=
    { mixed := rfl
      bounded := by
        intro i stream hstream
        obtain ⟨hrange, hmarked⟩ := h.streams i stream hstream
        exact ⟨hrange, hmarked.falling, fun mark hmark =>
          Nat.le_trans (hmarked.le mark hmark) (Nat.le_add_right _ _)⟩
      waiting := fun i _ stream hstream =>
        ⟨(h.streams i stream hstream).2, hfills.rings i stream hstream⟩
      spent := ⟨∅, spent_empty rfl, fun i _ => Finset.notMem_empty i⟩ }
  obtain ⟨hfold, hend, hwithin⟩ := Filling.foldlM writes hfills.pos hfills.le
    (List.finRange streamsMax) (List.nodup_finRange _) _
    (addFrames (List.replicate frames (0, 0)) (rampDown frames s.tail)) (0 + 294912) hstart
    (by rw [length_addFrames, List.length_replicate])
    (by rw [List.length_finRange]; decide) (within_addFrames hsilent (by omega) hramp)
  refine ⟨?_, ?_, hwithin⟩
  · rw [mixChecked, htail]
    exact hfold
  · obtain ⟨spent', hspent', -⟩ := hend.spent
    exact ⟨hend.bounded, spent', hspent'⟩

/-! ### What keeps the bounds -/

theorem Bounded.of_streams (h : Bounded s) (hmixed : t.mixed = s.mixed)
    (htail : t.tail = s.tail)
    (hstreams : ∀ i stream, t.streams i = some stream → ∃ old, s.streams i = some old ∧
      ∃ paused heard, stream.mixer = { old.mixer with paused := paused, heard := heard }) :
    Bounded t where
  streams := by
    intro i stream hstream
    obtain ⟨old, hold, paused, heard, hmixer⟩ := hstreams i stream hstream
    obtain ⟨hrange, hmarked⟩ := h.streams i old hold
    rw [hmixer, hmixed]
    exact
      ⟨{ mask := hrange.mask
         channels := hrange.channels
         step := hrange.step
         read := hrange.read
         phase := hrange.phase
         current := hrange.current
         target := hrange.target
         last := hrange.last }, hmarked⟩
  spent := by
    obtain ⟨spent, hspent⟩ := h.spent
    refine ⟨spent, by rw [htail]; exact hspent.tail, fun i hi stream hstream => ?_⟩
    obtain ⟨old, hold, paused, heard, hmixer⟩ := hstreams i stream hstream
    rw [hmixer]
    exact hspent.silent i hi old hold

theorem Bounded.of_tables (h : Bounded s) (hmixed : t.mixed = s.mixed) (htail : t.tail = s.tail)
    (hstreams : t.streams = s.streams) : Bounded t := by
  refine h.of_streams hmixed htail fun i stream hstream => ?_
  rw [hstreams] at hstream
  exact ⟨stream, hstream, _, _, rfl⟩

theorem Bounded.setConnection (h : Bounded s) (index : ConnectionIndex)
    (connection : Connection) : Bounded (s.setConnection index connection) :=
  h.of_tables rfl rfl rfl

theorem Bounded.setProcess (h : Bounded s) (p : ProcessIndex) (process : Process) :
    Bounded (s.setProcess p process) :=
  h.of_tables rfl rfl rfl

theorem Bounded.endStream (h : Bounded s) (i : StreamIndex) :
    s.endStreamChecked i = some (s.endStream i) ∧ Bounded (s.endStream i) := by
  obtain ⟨spent, hspent⟩ := h.spent
  obtain ⟨hchecked, hended⟩ := hspent.endStream i fun stream hs => (h.streams i stream hs).1.last
  refine ⟨hchecked, ?_, _, hended⟩
  intro j stream hstream
  rw [mixed_endStream]
  exact h.streams j stream (mem_endStream hstream).2

/-- **Streams that end one after another** never overflow the tail. -/
theorem Bounded.endStreams (h : Bounded s) (l : List StreamIndex) :
    l.foldlM endStreamChecked s = some (l.foldl Streams.endStream s) := by
  induction l generalizing s with
  | nil => rfl
  | cons i l ih =>
    obtain ⟨hchecked, hended⟩ := h.endStream i
    rw [List.foldlM_cons, hchecked]
    exact ih hended

theorem Bounded.disconnect (h : Bounded s) (index : ConnectionIndex) :
    Bounded (s.disconnect index) := by
  have hended : Bounded ((List.finRange streamsMax).foldl (endStreamOf index) s) := by
    refine List.foldlRecOn _ _ h fun t ht i _ => ?_
    rw [endStreamOf]
    split
    · split
      · exact (ht.endStream i).2
      · exact ht
    · exact ht
  exact hended.setConnection index {}

theorem Bounded.foldl {ι : Type} {f : Streams → ι → Streams} (h : Bounded s)
    (hf : ∀ t i, Bounded t → Bounded (f t i)) (l : List ι) : Bounded (l.foldl f s) :=
  List.foldlRecOn _ _ h fun t ht i _ => hf t i ht

theorem Bounded.update (h : Bounded s) (hs : s.streams i = some stream) :
    Bounded (s.setStream i (some (s.update stream))) := by
  refine h.of_streams rfl rfl fun j new hnew => ?_
  by_cases hj : j = i
  · subst hj
    rw [setStream_self] at hnew
    obtain rfl := Option.some.inj hnew
    exact ⟨stream, hs, _, _, rfl⟩
  · rw [setStream_of_ne _ _ hj] at hnew
    exact ⟨new, hnew, _, _, rfl⟩

theorem Bounded.refresh (h : Bounded s) (writes : StreamIndex → ℕ) :
    Bounded (s.refresh writes) := by
  refine h.foldl (fun t i ht => ?_) _
  rw [refreshAt]
  split
  · exact ht
  · rename_i stream hstream
    simp only
    split
    · split
      · exact ((ht.update hstream).endStream i).2
      · exact ht.update hstream
    · exact ht.update hstream

theorem Bounded.publish (h : Bounded s) (played : ℕ) : Bounded (s.publish played) := by
  refine h.of_streams rfl rfl fun i stream hstream => ?_
  obtain ⟨old, hold, rfl⟩ := Option.map_eq_some_iff.mp hstream
  exact ⟨old, hold, _, _, rfl⟩

theorem inRange_mixerStreamInit {rate channels : ℕ} (hrate : rate ≤ rateMax)
    (hchannels : channels ≠ 0) (output : ℕ) :
    (mixerStreamInit (ringCapacity rate) rate channels output).InRange := by
  have hmax : rate ≤ 48000 := hrate
  obtain ⟨k, hk, hcapacity⟩ : ∃ j, j ≤ 14 ∧ ringCapacity rate = 2 ^ j :=
    capacityLoop_pow (by omega) 32 0 (by omega) (by omega)
  have hpow : 2 ^ k ≤ 2 ^ 14 := Nat.pow_le_pow_right (by omega) hk
  have hunity : IsGain mixerUnity := by
    constructor
    · decide
    · exact Int.le_refl _
  exact
    { mask := by
        show ringCapacity rate - 1 < 2 ^ 31
        omega
      channels := Nat.pos_of_ne_zero hchannels
      step := by
        show rate * 2 ^ 32 / 48000 ≤ 2 ^ 32
        omega
      read := Nat.two_pow_pos 32
      phase := Nat.two_pow_pos 32
      current := hunity
      target := hunity
      last := isPair_zero }

theorem Bounded.setNew (h : Bounded s) (hrange : stream.mixer.InRange)
    (hmarked : MarkedTo s.mixed stream.mixer.marks) (hlast : stream.mixer.last = (0, 0)) :
    Bounded (s.setStream i (some stream)) where
  streams := by
    intro j new hnew
    by_cases hj : j = i
    · subst hj
      rw [setStream_self] at hnew
      obtain rfl := Option.some.inj hnew
      exact ⟨hrange, hmarked⟩
    · rw [setStream_of_ne _ _ hj] at hnew
      exact h.streams j new hnew
  spent := by
    obtain ⟨spent, hspent⟩ := h.spent
    refine ⟨spent, hspent.tail, fun j hin new hnew => ?_⟩
    by_cases hj : j = i
    · subst hj
      rw [setStream_self] at hnew
      obtain rfl := Option.some.inj hnew
      exact hlast
    · rw [setStream_of_ne _ _ hj] at hnew
      exact hspent.silent j hin new hnew

theorem Bounded.newStream (h : Bounded s) {request : Message} (hrate : request.rate ≤ rateMax)
    (hchannels : request.channels ≠ 0) (i : StreamIndex) (index : ConnectionIndex)
    (connection : Connection) :
    Bounded
      ((s.setConnection index connection).setStream i (some (s.newStream index request))) := by
  have hinit := inRange_mixerStreamInit hrate hchannels s.mixed
  have hrange : (s.newStream index request).mixer.InRange :=
    { mask := hinit.mask
      channels := hinit.channels
      step := hinit.step
      read := hinit.read
      phase := hinit.phase
      current := hinit.current
      target := hinit.target
      last := hinit.last }
  refine (h.setConnection index connection).setNew hrange ?_ rfl
  refine ⟨List.pairwise_singleton _ _, fun mark hmark => ?_⟩
  obtain rfl := List.mem_singleton.mp hmark
  exact Nat.le_refl _

theorem Bounded.openStream (h : Bounded s) (index : ConnectionIndex) (request : Message)
    (grants : Grants) : Bounded (s.openStream index request grants).1 := by
  simp only [Streams.openStream]
  split
  · exact h
  · rename_i hvalid
    split
    · exact h
    · split
      · exact h
      · split
        · split
          · exact h.newStream (by omega) (by omega) _ _ _
          · exact h.setConnection _ _
        · exact h

theorem Bounded.hello (h : Bounded s) (index : ConnectionIndex) (message : Message) :
    Bounded (s.hello index message).1 := by
  simp only [Streams.hello]
  split
  · exact h
  · split
    · exact h
    · split
      · split
        · exact h
        · exact h.setConnection _ _
      · split
        · exact h
        · exact h.setConnection _ _

theorem Bounded.handle (h : Bounded s) (index : ConnectionIndex) (message : Message)
    (grants : Grants) : Bounded (s.handle index message grants).1 := by
  simp only [Streams.handle]
  split
  · exact h
  · split
    · exact h.hello index message
    · split
      · split
        · exact h
        · exact h.openStream index message grants
      · split
        · split
          · exact h
          · split
            · cases s.findStream index message.stream with
              | none => exact h
              | some i => exact (h.endStream i).2
            · exact h
        · exact h

theorem Bounded.receive (h : Bounded s) (index : ConnectionIndex) (received : Received) :
    Bounded (s.receive index received) := by
  simp only [Streams.receive]
  split
  · exact h
  · cases received with
    | broken => exact h.disconnect index
    | message message grants =>
      have hhandled := h.handle index message grants
      simp only
      split
      · exact hhandled
      · exact hhandled.disconnect index

theorem Bounded.accept (h : Bounded s) (pid : ℤ) (uid now : ℕ) :
    Bounded (s.accept pid uid now) := by
  rw [Streams.accept]
  split
  · exact h
  · exact h.setConnection _ _

theorem Bounded.clearGone (h : Bounded s) (pid : ℤ) : Bounded (s.clearGone pid) := by
  rw [Streams.clearGone]
  split
  · exact h.of_tables rfl rfl rfl
  · exact h

theorem Bounded.addGone (h : Bounded s) (pid : ℤ) : Bounded (s.addGone pid) := by
  rw [Streams.addGone]
  split
  · exact h
  · exact h.of_tables rfl rfl rfl

theorem Bounded.announceTo (h : Bounded s) (pid : ℤ) (uid : ℕ) (clock : Bool)
    (index : ConnectionIndex) : Bounded (announceTo pid uid clock s index) := by
  simp only [Streams.announceTo]
  split
  · exact h
  · split
    · exact h.setConnection _ _
    · exact h.disconnect index

theorem Bounded.announce (h : Bounded s) (pid : ℤ) (uid : ℕ) (clock : Bool) :
    Bounded (s.announce pid uid clock) := by
  rw [Streams.announce]
  split
  · exact h
  · have hcleared := h.clearGone pid
    simp only
    split
    · exact hcleared
    · exact (hcleared.setProcess _ _).foldl (fun t index ht => ht.announceTo pid uid clock index) _

theorem Bounded.forget (h : Bounded s) (pid : ℤ) : Bounded (s.forget pid) := by
  have hleft : Bounded ((List.finRange connectionsMax).foldl (forgetAt pid) s) := by
    refine h.foldl (fun t index ht => ?_) _
    rw [forgetAt]
    split
    · exact ht
    · exact ht.disconnect index
  rw [Streams.forget]
  split
  · exact (hleft.setProcess _ _).addGone pid
  · exact hleft.addGone pid

theorem Bounded.command (h : Bounded s) (text : List UInt8) : Bounded (s.command text) := by
  rw [Streams.command]
  split
  · split
    · split
      · exact h.announce _ _ _
      · exact h
    · exact h
  · split
    · split
      · exact h.announce _ _ _
      · exact h
    · split
      · split
        · split
          · exact h.setProcess _ _
          · exact h
        · exact h
      · exact h
  · split
    · split
      · exact h.forget _
      · exact h
    · exact h
  · exact h

theorem Bounded.manager (h : Bounded s) (connected : Bool) (now : ℕ) :
    Bounded (s.manager connected now) := by
  rw [Streams.manager]
  split
  · exact h.of_tables rfl rfl rfl
  · exact h.of_tables rfl rfl rfl

theorem Bounded.expire (h : Bounded s) (now : ℕ) : Bounded (s.expire now) := by
  have hresync : ∀ t : Streams, Bounded t →
      Bounded ((List.finRange connectionsMax).foldl resyncAt t) := by
    intro t ht
    refine ht.foldl (fun u index hu => ?_) _
    simp only [resyncAt]
    split
    · exact hu
    · exact hu.disconnect index
  have hdeadline : ∀ t : Streams, Bounded t →
      Bounded ((List.finRange connectionsMax).foldl (deadlineAt now) t) := by
    intro t ht
    refine ht.foldl (fun u index hu => ?_) _
    simp only [deadlineAt]
    split
    · exact hu
    · exact hu.disconnect index
  simp only [Streams.expire]
  split
  · exact hdeadline _ (hresync _ (h.of_tables rfl rfl rfl))
  · exact hdeadline s h

end Streams

namespace Service

/-! ### The service -/

/-- The part of `fill` that mixes a period, in C arithmetic: the service after it and what is
written to the card. -/
def fillChecked (s : Service) (frames : ℕ) (writes : StreamIndex → ℕ)
    (rings : StreamIndex → List Frame) : Option (Service × List (ℤ × ℤ)) := do
  let mixed ← s.streams.mixChecked frames writes rings
  let mastered ← masterChecked mixed.2 s.master
  return ({ s with streams := mixed.1, master := mastered.2 }, mixerOutput mastered.1)

/-- A call of the service; after a period the master gain is at its target. -/
def advance (s : Service) (op : Op) : Service :=
  match op with
  | .mix frames writes rings =>
    { s.perform (.mix frames writes rings) with
      master := { s.master with current := s.master.target } }
  | op => s.perform op

/-- The runs of the service with its master gain; a period may find anything in the rings. -/
def fillMachine : Machine Service Op where
  start s := s = {}
  step s op s' :=
    (∀ frames writes rings, op = .mix frames writes rings → s.streams.Fills frames rings) ∧
      s' = s.advance op

/-- A pair clamped to 16 bits. -/
def clampPair (pair : ℤ × ℤ) : ℤ × ℤ :=
  (max (-32768) (min 32767 pair.1), max (-32768) (min 32767 pair.2))

/-- The output in exact arithmetic: the sum of the tail and the streams, times the master
factor, clamped. -/
def exactOutput (s : Service) (frames : ℕ) (writes : StreamIndex → ℕ)
    (rings : StreamIndex → List Frame) : List (ℤ × ℤ) :=
  (List.range frames).map fun k =>
    clampPair (scaledPair (factorAt s.master frames k)
      (Streams.sumAt (s.streams.contributions frames writes rings) k))

/-- What holds of the service between two calls. -/
structure Steady (s : Service) : Prop where
  streams : s.streams.Bounded
  current : IsGain s.master.current
  target : IsGain s.master.target

variable {s : Service} {level : ℕ}

theorem isGain_of_level (h : level ≤ volumeMax) :
    IsGain ((level : ℤ) * mixerUnity / volumeMax) := by
  have hmax : level ≤ 10 := h
  show 0 ≤ (level : ℤ) * 32768 / 10 ∧ (level : ℤ) * 32768 / 10 ≤ 32768
  omega

theorem volumeLevel_le {text : List UInt8} (h : volumeLevel text = some level) :
    level ≤ volumeMax :=
  Nat.le_of_lt_succ (List.mem_range.mp (List.mem_of_find?_eq_some h))

theorem Steady.dropManager (h : Steady s) : Steady s.dropManager :=
  ⟨h.streams.manager false 0, h.current, h.target⟩

theorem Steady.setVolume (h : Steady s) (hlevel : level ≤ volumeMax) (now : ℕ) (sent : Bool) :
    Steady (s.setVolume level now sent) := by
  have hgain := isGain_of_level hlevel
  simp only [Service.setVolume]
  split
  · split
    · exact ⟨h.streams, h.current, hgain⟩
    · exact ⟨h.streams.manager true now, hgain, hgain⟩
  · refine Steady.dropManager ?_
    split
    · exact ⟨h.streams, h.current, hgain⟩
    · exact ⟨h.streams.manager true now, hgain, hgain⟩

theorem Steady.readManager (h : Steady s) (text : List UInt8) (now : ℕ) (sent : Bool) :
    Steady (s.readManager text now sent) := by
  rw [Service.readManager]
  split
  · exact h.dropManager
  · split
    · exact h
    · split
      · split
        · rename_i level hlevel
          exact h.setVolume (volumeLevel_le hlevel) now sent
        · exact h
      · exact ⟨h.streams.command text, h.current, h.target⟩

theorem Steady.setStreams (h : Steady s) {streams : Streams} (hstreams : streams.Bounded) :
    Steady { s with streams := streams } :=
  ⟨hstreams, h.current, h.target⟩

/-- **Every call keeps the bounds.** -/
theorem Steady.advance (h : Steady s) {op : Op}
    (hfills : ∀ frames writes rings, op = .mix frames writes rings →
      s.streams.Fills frames rings) : Steady (s.advance op) := by
  cases op with
  | acceptManager now =>
    show Steady (s.acceptManager now)
    rw [acceptManager]
    split
    · exact ⟨h.dropManager.streams.manager true now, h.current, h.target⟩
    · exact ⟨h.streams.manager true now, h.current, h.target⟩
  | dropManager =>
    show Steady (if s.manager then s.dropManager else s)
    split
    · exact h.dropManager
    · exact h
  | readManager text now sent =>
    show Steady (if s.manager then s.readManager text now sent else s)
    split
    · exact h.readManager text now sent
    · exact h
  | accept pid uid now => exact h.setStreams (h.streams.accept pid uid now)
  | receive index received => exact h.setStreams (h.streams.receive index received)
  | disconnect index =>
    show Steady (if _ then s else { s with streams := s.streams.disconnect index })
    split
    · exact h
    · exact h.setStreams (h.streams.disconnect index)
  | expire now => exact h.setStreams (h.streams.expire now)
  | refresh writes => exact h.setStreams (h.streams.refresh writes)
  | mix frames writes rings =>
    obtain ⟨-, hmixed, -⟩ := Streams.mixChecked_eq h.streams (hfills _ _ _ rfl) writes
    exact ⟨hmixed, h.target, h.target⟩
  | publish played => exact h.setStreams (h.streams.publish played)
  | openDevice ok => exact ⟨h.streams.of_tables rfl rfl rfl, h.current, h.target⟩
  | makeUnavailable => exact ⟨h.streams.of_tables rfl rfl rfl, h.current, h.target⟩
  | closeDevice =>
    have hsilent : Streams.Bounded { s.streams with tail := (0, 0) } :=
      ⟨h.streams.streams, ∅, Streams.spent_empty rfl⟩
    have hclosed := hsilent.publish s.streams.mixed
    show Steady s.closeDevice
    rw [Service.closeDevice]
    exact ⟨hclosed.of_tables rfl rfl rfl, h.current, h.target⟩

/-- **A period is exact.** -/
theorem Steady.fill (h : Steady s) {frames : ℕ} {rings : StreamIndex → List Frame}
    (hfills : s.streams.Fills frames rings) (writes : StreamIndex → ℕ) :
    s.fillChecked frames writes rings =
      some (s.advance (.mix frames writes rings), s.exactOutput frames writes rings) := by
  obtain ⟨hmixed, -, hwithin⟩ := Streams.mixChecked_eq h.streams hfills writes
  rw [Streams.foldl_addFrames] at hmixed hwithin
  generalize hmix : (List.replicate frames ((0, 0) : ℤ × ℤ)).mapIdx _ = mix at hmixed hwithin
  have hlength : mix.length = frames := by
    rw [← hmix, List.length_mapIdx, List.length_replicate]
  have hpos := hfills.pos
  have hle := hfills.le
  have hmaster := masterChecked_eq h.current h.target (by omega : (589824 : ℤ) ≤ 2147483647)
    (by omega : 0 < mix.length) (by omega) hwithin
  rw [fillChecked, hmixed, Option.bind_eq_bind, Option.bind_some, hmaster]
  have houtput : mixerOutput (mix.mapIdx fun k pair =>
      scaledPair (factorAt s.master mix.length k) pair) = s.exactOutput frames writes rings := by
    refine List.ext_getElem ?_ fun k hk hk' => ?_
    · simp [mixerOutput, exactOutput, hlength]
    · subst hmix
      simp [mixerOutput, exactOutput, clampPair, saturate_eq]
  rw [Option.bind_eq_bind, Option.bind_some, houtput]
  rfl

/-- **Mixer arithmetic is exact in every run.**  Whatever the rings and the write counters
hold, no intermediate value of a period leaves its type, no frame is read outside the ring or
the frames written, gains stay within 0…UNITY, no division is by zero, and what is written to
the card is the exact sum, scaled and clamped.  Streams may end in any order in between. -/
theorem fill_exact (h : fillMachine.Reachable s) :
    (IsGain s.master.current ∧ IsGain s.master.target) ∧
      (∀ i stream, s.streams.streams i = some stream →
        (IsGain stream.mixer.gain.current ∧ IsGain stream.mixer.gain.target) ∧
          ∀ played, heardChecked stream.mixer played = some (mixerHeard stream.mixer played)) ∧
      (∀ l : List StreamIndex, l.foldlM Streams.endStreamChecked s.streams =
        some (l.foldl Streams.endStream s.streams)) ∧
      ∀ frames writes rings, s.streams.Fills frames rings →
        s.fillChecked frames writes rings =
          some (s.advance (.mix frames writes rings), s.exactOutput frames writes rings) := by
  have hsteady : Steady s := by
    refine Machine.Reachable.invariant ?_ ?_ h
    · rintro s rfl
      have hunity : IsGain mixerUnity := by
        constructor
        · decide
        · exact Int.le_refl _
      refine ⟨⟨fun i stream hstream => ?_, ∅, Streams.spent_empty rfl⟩, hunity, hunity⟩
      cases hstream
    · rintro s op s' hs ⟨hfills, rfl⟩
      exact hs.advance hfills
  refine ⟨⟨hsteady.current, hsteady.target⟩, fun i stream hstream => ?_,
    hsteady.streams.endStreams, fun frames writes rings hfills => hsteady.fill hfills writes⟩
  obtain ⟨hrange, hmarked⟩ := hsteady.streams.streams i stream hstream
  exact ⟨⟨hrange.current, hrange.target⟩, heardChecked_eq hmarked⟩

/-- A ring full of the loudest sample. -/
def loudRings : StreamIndex → List Frame := fun _ => List.replicate 2048 [32767]

theorem reachable_playing : fillMachine.Reachable (playing.foldl advance {}) := by
  have hcalls : ∀ op ∈ playing, ∀ frames writes rings, op ≠ .mix frames writes rings := by
    intro op hop frames writes rings
    simp only [playing, firstOpen, List.mem_append, List.mem_cons, List.not_mem_nil,
      or_false] at hop
    rintro rfl
    simp at hop
  refine List.foldlRecOn playing _ (.start rfl) fun s hs op hop => hs.step ⟨?_, rfl⟩
  exact fun frames writes rings hmix => absurd hmix (hcalls op hop frames writes rings)

/-- A stream that plays from a ring full of the loudest sample, with a write counter that
jumped. -/
theorem fill_exact_playing : ∃ s : Service, fillMachine.Reachable s ∧
    (∃ stream, s.streams.streams slot0 = some stream ∧ stream.mixer.paused = false) ∧
    s.fillChecked 480 (fun _ => 2048) loudRings =
      some (s.advance (.mix 480 (fun _ => 2048) loudRings),
        s.exactOutput 480 (fun _ => 2048) loudRings) := by
  have hfirst : ((playing.foldl advance {}).streams.streams slot0).any (fun stream =>
      !stream.mixer.paused) = true := by decide +kernel
  have hrings : ∀ i, ((playing.foldl advance {}).streams.streams i).all (fun stream =>
      decide (stream.mixer.mask = 2047 ∧ stream.mixer.channels = 1)) = true := by decide +kernel
  obtain ⟨stream, hstream, hplays⟩ := (Option.any_eq_true _ _).mp hfirst
  refine ⟨_, reachable_playing, ⟨stream, hstream, by rwa [Bool.not_eq_true'] at hplays⟩, ?_⟩
  refine (fill_exact reachable_playing).2.2.2 480 _ _ ⟨by omega, by omega, fun i other hother => ?_⟩
  have hring := hrings i
  rw [hother, Option.all_some, decide_eq_true_eq] at hring
  exact
    { length := by rw [hring.1, loudRings, List.length_replicate]
      channels := by
        intro frame hframe
        obtain rfl := List.eq_of_mem_replicate hframe
        rw [hring.2]
        rfl
      samples := by
        intro frame hframe x hx
        obtain rfl := List.eq_of_mem_replicate hframe
        obtain rfl := List.mem_singleton.mp hx
        exact ⟨by omega, by omega⟩ }

end Service

end Audiod

/-
An audio ring delivers exactly what was written.

In every run of a stream (`Stream.machine`), the stream is never ended, every
frame the mixer reads at position `n` is the `n`-th frame the application
wrote, positions are visited in order with none skipped, and
heard ≤ read ≤ write with heard and read never falling
(`delivered_of_reachable`).

The invariant `Inv` speaks about the true counters behind the 32-bit words.
With `taken` frames read, `sent` frames written and `published` the position
last stored in `read`,

  published ≤ taken ≤ sent ≤ published + capacity,

and the slots hold the frames `taken, …, sent - 1`.  The application bounds
what it writes by the published position, so nothing the mixer may still read
is overwritten.  The heard position trails by at most 16 rings, because 15
periods reach back behind everything the card can hold.
-/
import Mathlib.Data.Nat.Bitwise
import Fplinux.Audio.Stream

namespace Audio

/-! ### The capacity -/

theorem capacityLoop_pow {least bound : ℕ} (hleast : least ≤ 2 ^ bound) (fuel : ℕ) :
    ∀ k, k ≤ bound → bound ≤ k + fuel →
      ∃ j, j ≤ bound ∧ capacityLoop least fuel (2 ^ k) = 2 ^ j := by
  induction fuel with
  | zero =>
    intro k hk _
    exact ⟨k, hk, rfl⟩
  | succ fuel ih =>
    intro k hk hbound
    rw [capacityLoop]
    split
    · rename_i hlt
      have hkb : k < bound := by
        by_contra hge
        have hpow : 2 ^ bound ≤ 2 ^ k := Nat.pow_le_pow_right (by omega) (by omega)
        omega
      rw [← Nat.pow_succ]
      exact ih (k + 1) hkb (by omega)
    · exact ⟨k, hk, rfl⟩

namespace Config

variable (cfg : Config)

theorem capacity_pow : ∃ k, k ≤ 14 ∧ cfg.capacity = 2 ^ k := by
  have hrate := cfg.rate_max
  have hleast : (cfg.rate + 3) / 4 ≤ 2 ^ 14 := by omega
  exact capacityLoop_pow hleast 32 0 (by omega) (by omega)

theorem capacity_pos : 0 < cfg.capacity := by
  obtain ⟨k, _, hk⟩ := cfg.capacity_pow
  rw [hk]
  exact Nat.two_pow_pos k

theorem capacity_le : cfg.capacity ≤ 2 ^ 14 := by
  obtain ⟨k, hle, hk⟩ := cfg.capacity_pow
  rw [hk]
  exact Nat.pow_le_pow_right (by omega) hle

theorem mask_mod (n : ℕ) : n % 2 ^ 32 &&& (cfg.capacity - 1) = n % cfg.capacity := by
  obtain ⟨k, hle, hk⟩ := cfg.capacity_pow
  rw [hk, Nat.and_two_pow_sub_one_eq_mod, Nat.mod_mod_of_dvd]
  exact Nat.pow_dvd_pow 2 (by omega)

end Config

/-! ### The invariant -/

/-- The true counters behind `read` and the heard position, private and
shared, and the marks with true read positions. -/
structure Ghost where
  published : ℕ
  heard : ℕ
  shown : ℕ
  newest : Mark
  trail : List Mark

/-- The ghost after a period that ended at `output`. -/
def Ghost.remember (g : Ghost) (output taken : ℕ) : Ghost :=
  { g with newest := ⟨output, taken⟩, trail := (g.newest :: g.trail).take 15 }

/-- The stored read and heard positions move on, by less than half the words. -/
structure Ghost.Rises (g g' : Ghost) : Prop where
  published_le : g.published ≤ g'.published
  published_near : g'.published < g.published + 2 ^ 31
  shown_le : g.shown ≤ g'.shown
  shown_near : g'.shown < g.shown + 2 ^ 31

/-- The frames of the write under way. -/
def Writing.frames : Writing → List Frame
  | .idle => []
  | .copying frames => frames
  | .wrapping frames => frames
  | .copied frames => frames

namespace Stream

/-- The counters: each word stands for its true value, and the four positions
lie in order within one ring. -/
structure Counters (cfg : Config) (s : Stream) (g : Ghost) : Prop where
  mask : s.service.mixer.mask = cfg.capacity - 1
  step : s.service.mixer.step ≤ 2 ^ 32
  phase : s.service.mixer.phase < 2 ^ 32
  mixerRead : s.service.mixer.read = s.taken % 2 ^ 32
  ringRead : s.ring.read = g.published % 2 ^ 32
  written : s.client.written = s.sent.length % 2 ^ 32
  ringWrite : s.ring.write = s.sent.length % 2 ^ 32
  published_le : g.published ≤ s.taken
  taken_le : s.taken ≤ s.sent.length
  room : s.sent.length + s.client.writing.frames.length ≤ g.published + cfg.capacity

/-- The frames written that the slots hold, and those of the write under way
that were copied. -/
structure Data (cfg : Config) (s : Stream) : Prop where
  size : s.ring.slots.length = cfg.capacity
  holds : Ring.Holds s.ring.slots s.taken s.sent.length (fun n => s.sent[n]?)
  wrapping : ∀ frames, s.client.writing = .wrapping frames →
    Ring.Holds s.ring.slots s.sent.length
      (s.sent.length + firstPiece cfg s frames.length) (fun n => frames[n - s.sent.length]?)
  copied : ∀ frames, s.client.writing = .copied frames →
    Ring.Holds s.ring.slots s.sent.length (s.sent.length + frames.length)
      (fun n => frames[n - s.sent.length]?)

/-- What the mixer has read. -/
structure Log (s : Stream) : Prop where
  frames : ∀ x ∈ s.visits, s.sent[x.1]? = some x.2.here ∧
    ∀ frame, x.2.next = some frame → s.sent[x.1 + 1]? = some frame
  sweep : Ring.Sweep 0 (s.visits.map Prod.fst) s.taken

/-- The marks: one per period, at most 16, back to the start of the stream or
over 15 periods. -/
structure Marks (cfg : Config) (s : Stream) (g : Ghost) : Prop where
  marks : s.service.mixer.marks = (g.newest :: g.trail).map Mark.word
  chain : List.IsChain (Mark.Follows cfg.period cfg.capacity) (g.newest :: g.trail)
  read : g.newest.read = s.taken
  output : g.newest.output = s.service.mixed
  size : g.trail.length ≤ mixerHistory - 1
  origin : g.trail.length < mixerHistory - 1 → ∃ m ∈ g.newest :: g.trail, m.read = 0
  device : s.service.mixed = s.service.written + s.service.pending
  pending : s.service.pending ≤ cfg.period

/-- The heard position, private and shared. -/
structure Heard (cfg : Config) (s : Stream) (g : Ghost) : Prop where
  mixerHeard : s.service.mixer.heard = g.heard % 2 ^ 32
  ringHeard : s.ring.heard = g.shown % 2 ^ 32
  shown_le : g.shown ≤ g.heard
  shown_published : g.shown ≤ g.published
  heard_le : g.heard ≤ s.taken
  near : g.published ≤ g.heard + 15 * cfg.capacity
  shown_near : g.published ≤ g.shown + 16 * cfg.capacity

/-- What holds at the service's place in its work. -/
def TurnOk (cfg : Config) (s : Stream) (g : Ghost) : Prop :=
  match s.service.turn with
  | .ready => g.shown = g.heard
  | .loaded write => g.shown = g.heard ∧ s.service.pending = 0 ∧
      (s.service.mixer.paused = false → ∃ limit, write = limit % 2 ^ 32 ∧
        s.taken ≤ limit ∧ limit ≤ s.sent.length)
  | .publishing heard => heard = g.heard % 2 ^ 32 ∧ s.taken ≤ g.heard + 15 * cfg.capacity ∧
      g.published ≤ g.shown + 15 * cfg.capacity
  | .published heard => heard = g.heard % 2 ^ 32 ∧ g.published = s.taken

structure Inv (cfg : Config) (s : Stream) (g : Ghost) : Prop where
  notEnded : s.ring.ended = false
  counters : Counters cfg s g
  data : Data cfg s
  log : Log s
  marks : Marks cfg s g
  heard : Heard cfg s g
  turn : TurnOk cfg s g

variable {cfg : Config} {s s' : Stream} {g : Ghost}

/-! ### Steps of the application -/

theorem Inv.setWriting (h : Inv cfg s g) {writing : Writing} (slots : List Frame)
    (hroom : s.sent.length + writing.frames.length ≤ g.published + cfg.capacity)
    (hdata : Data cfg { s with ring := { s.ring with slots := slots },
                               client := { s.client with writing := writing } }) :
    Inv cfg { s with ring := { s.ring with slots := slots },
                     client := { s.client with writing := writing } } g where
  notEnded := h.notEnded
  counters := { h.counters with room := hroom }
  data := hdata
  log := ⟨h.log.frames, h.log.sweep⟩
  marks := { h.marks with }
  heard := { h.heard with }
  turn := h.turn

theorem takenNow_le (h : Inv cfg s g) (count : ℕ) :
    s.sent.length + s.takenNow cfg count ≤ g.published + cfg.capacity := by
  have hpub := h.counters.published_le
  have htaken := h.counters.taken_le
  have hroom := h.counters.room
  have hcap := cfg.capacity_le
  have hused : Word.sub 32 s.client.written s.ring.read = s.sent.length - g.published := by
    rw [h.counters.written, h.counters.ringRead]
    exact Word.sub_mod (by omega) (by omega)
  simp only [takenNow, hused]
  split <;> split <;> omega

theorem inv_loadRead (h : Inv cfg s g) {frames : List Frame} (hs : s.loadRead cfg frames = some s') :
    Inv cfg s' g := by
  rw [loadRead, h.notEnded] at hs
  simp only [Bool.false_eq_true, if_false] at hs
  split at hs
  · have hfit := takenNow_le h frames.length
    split at hs
    · rw [← Option.some.inj hs]
      exact h
    · rw [← Option.some.inj hs]
      refine h.setWriting s.ring.slots ?_ ⟨h.data.size, h.data.holds, ?_, ?_⟩
      · simp only [Writing.frames, List.length_take]
        omega
      · intro frames' hw
        cases hw
      · intro frames' hw
        cases hw
  · cases hs

theorem startSlot_eq (h : Inv cfg s g) : startSlot cfg s = s.sent.length % cfg.capacity := by
  rw [startSlot, h.counters.written, cfg.mask_mod]

theorem firstPiece_le (cfg : Config) (s : Stream) (taken : ℕ) : firstPiece cfg s taken ≤ taken := by
  rw [firstPiece]
  split <;> omega

theorem firstPiece_fits (cfg : Config) (s : Stream) (taken : ℕ) : firstPiece cfg s taken ≤ cfg.capacity - startSlot cfg s := by
  rw [firstPiece]
  split <;> omega

theorem inv_copyFirst (h : Inv cfg s g) (hs : s.copyFirst cfg = some s') : Inv cfg s' g := by
  rw [copyFirst] at hs
  split at hs
  · rename_i frames hw
    have hroom := h.counters.room
    have hpub := h.counters.published_le
    have hsize := h.data.size
    have hle := firstPiece_le cfg s frames.length
    have hfits := firstPiece_fits cfg s frames.length
    have hmod : s.sent.length % cfg.capacity < cfg.capacity := Nat.mod_lt _ cfg.capacity_pos
    rw [hw] at hroom
    rw [startSlot_eq h] at hs hfits
    simp only [Writing.frames] at hroom
    have hlen : (frames.take (firstPiece cfg s frames.length)).length =
        firstPiece cfg s frames.length := by
      rw [List.length_take]
      omega
    have hplaced : Ring.Placed s.ring.slots.length s.sent.length
        (s.sent.length % cfg.capacity) (frames.take (firstPiece cfg s frames.length)).length := by
      rw [hsize, hlen]
      exact Ring.placed_first (by omega)
    rw [← Option.some.inj hs]
    refine h.setWriting _ hroom ⟨?_, ?_, ?_, ?_⟩
    · exact (Ring.length_blit hplaced.fits).trans hsize
    · exact h.data.holds.blit hplaced (Nat.le_refl _) (by omega)
    · intro frames' hw'
      cases hw'
      have hnew := Ring.holds_blit hplaced
      rw [hlen] at hnew
      refine hnew.congr fun n hn hn' => ?_
      exact List.getElem?_take_of_lt (by omega)
    · intro frames' hw'
      cases hw'
  · cases hs

theorem placed_rest (h : Inv cfg s g) {frames : List Frame}
    (hroom : s.sent.length + frames.length ≤ g.published + cfg.capacity) :
    Ring.Placed cfg.capacity (s.sent.length + firstPiece cfg s frames.length) 0
      (frames.drop (firstPiece cfg s frames.length)).length := by
  have hpub := h.counters.published_le
  have htaken := h.counters.taken_le
  have hlen : (frames.drop (firstPiece cfg s frames.length)).length =
      frames.length - firstPiece cfg s frames.length := List.length_drop
  rw [hlen]
  by_cases hall : frames.length ≤ cfg.capacity - startSlot cfg s
  · have hfirst : firstPiece cfg s frames.length = frames.length := by
      rw [firstPiece]
      split <;> omega
    rw [hfirst, Nat.sub_self]
    exact ⟨fun i hi => absurd hi (Nat.not_lt_zero i), by omega⟩
  · have hfirst : firstPiece cfg s frames.length = cfg.capacity - s.sent.length % cfg.capacity := by
      rw [firstPiece, if_neg (by omega), startSlot_eq h]
    rw [hfirst]
    exact Ring.placed_rest cfg.capacity_pos (by omega)

theorem inv_copyRest (h : Inv cfg s g) (hs : s.copyRest cfg = some s') : Inv cfg s' g := by
  rw [copyRest] at hs
  split at hs
  · rename_i frames hw
    have hroom := h.counters.room
    have hpub := h.counters.published_le
    have htaken := h.counters.taken_le
    have hsize := h.data.size
    have hle := firstPiece_le cfg s frames.length
    rw [hw] at hroom
    simp only [Writing.frames] at hroom
    have hlen : (frames.drop (firstPiece cfg s frames.length)).length =
        frames.length - firstPiece cfg s frames.length := List.length_drop
    have hplaced := placed_rest h hroom
    rw [← hsize] at hplaced
    have hfirst := h.data.wrapping frames hw
    rw [← Option.some.inj hs]
    refine h.setWriting _ hroom ⟨?_, ?_, ?_, ?_⟩
    · exact (Ring.length_blit hplaced.fits).trans hsize
    · exact h.data.holds.blit hplaced (by omega) (by omega)
    · intro frames' hw'
      cases hw'
    · intro frames' hw'
      cases hw'
      -- The first piece stays, and the second one follows it.
      have hold := hfirst.blit hplaced (Nat.le_refl _) (by omega)
      have hnew := Ring.holds_blit hplaced
      refine hold.append ?_
      have hend : s.sent.length + firstPiece cfg s frames.length +
          (frames.drop (firstPiece cfg s frames.length)).length =
            s.sent.length + frames.length := by omega
      rw [hend] at hnew
      refine hnew.congr fun n hn _ => ?_
      rw [List.getElem?_drop]
      congr 1
      omega
  · cases hs

theorem inv_storeWrite (h : Inv cfg s g) (hs : s.storeWrite = some s') : Inv cfg s' g := by
  rw [storeWrite] at hs
  split at hs
  · rename_i frames hw
    have hcopied := h.data.copied frames hw
    have hroom := h.counters.room
    rw [hw] at hroom
    have hlen : (s.sent ++ frames).length = s.sent.length + frames.length := List.length_append
    have hword : Word.add 32 s.client.written frames.length =
        (s.sent ++ frames).length % 2 ^ 32 := by
      rw [h.counters.written, Word.add_mod, hlen]
    have hgrow : ∀ {n : ℕ} {frame : Frame}, s.sent[n]? = some frame →
        (s.sent ++ frames)[n]? = some frame := by
      intro n frame hn
      obtain ⟨hlt, -⟩ := List.getElem?_eq_some_iff.mp hn
      rw [List.getElem?_append_left hlt, hn]
    rw [← Option.some.inj hs]
    exact
      { notEnded := h.notEnded
        counters := { h.counters with
          written := hword
          ringWrite := hword
          taken_le := by
            have htaken := h.counters.taken_le
            show s.taken ≤ (s.sent ++ frames).length
            omega
          room := by
            show (s.sent ++ frames).length + 0 ≤ _
            rw [hlen]
            exact hroom }
        data :=
          { size := h.data.size
            holds := by
              show Ring.Holds s.ring.slots s.taken (s.sent ++ frames).length _
              rw [hlen]
              refine (h.data.holds.congr fun n _ hn => ?_).append (hcopied.congr fun n hn _ => ?_)
              · exact (List.getElem?_append_left hn).symm
              · exact (List.getElem?_append_right hn).symm
            wrapping := by
              intro frames' hw'
              cases hw'
            copied := by
              intro frames' hw'
              cases hw' }
        log :=
          { frames := fun x hx =>
              ⟨hgrow (h.log.frames x hx).1, fun frame hf => hgrow ((h.log.frames x hx).2 frame hf)⟩
            sweep := h.log.sweep }
        marks := { h.marks with }
        heard := { h.heard with }
        turn := by
          have hturn := h.turn
          simp only [TurnOk] at hturn ⊢
          split at hturn
          · exact hturn
          · refine ⟨hturn.1, hturn.2.1, fun hpaused => ?_⟩
            obtain ⟨limit, hw', hlo, hhi⟩ := hturn.2.2 hpaused
            exact ⟨limit, hw', hlo, by rw [hlen]; omega⟩
          · exact hturn
          · exact hturn }
  · cases hs

/-! ### Steps of the service -/

theorem frameAt_eq (h : Inv cfg s g) {n : ℕ} (hlo : s.taken ≤ n) (hhi : n < s.sent.length) :
    s.sent[n]? = some (frameAt s.service.mixer s.ring.slots (n % 2 ^ 32)) := by
  have hholds := h.data.holds n hlo hhi
  rw [h.data.size] at hholds
  obtain ⟨frame, hframe⟩ : ∃ frame, s.sent[n]? = some frame := ⟨_, List.getElem?_eq_getElem hhi⟩
  rw [frameAt, h.counters.mask, cfg.mask_mod, List.getD_eq_getElem?_getD, hholds]
  simp only [hframe, Option.getD_some]

theorem visit_ok (h : Inv cfg s g) {limit : ℕ} (hlimit : limit ≤ s.sent.length) {v : Visit}
    (hv : v.Ok s.service.mixer s.ring.slots (limit - s.taken)) :
    s.sent[s.taken + v.whole]? = some v.here ∧
      ∀ frame, v.next = some frame → s.sent[s.taken + v.whole + 1]? = some frame := by
  have hin := hv.inside
  have hhere := hv.here
  rw [h.counters.mixerRead, Word.add_mod] at hhere
  refine ⟨?_, fun frame hframe => ?_⟩
  · rw [hhere]
    exact frameAt_eq h (by omega) (by omega)
  · obtain ⟨hlt, heq⟩ := hv.next frame hframe
    rw [h.counters.mixerRead, Word.add_mod, Word.add_mod] at heq
    rw [heq]
    exact frameAt_eq h (by omega) (by omega)

variable {newest : Mark} {trail : List Mark} {heard : ℕ}

theorem read_le_of_mem {period capacity : ℕ}
    (h : List.IsChain (Mark.Follows period capacity) (newest :: trail)) :
    ∀ m ∈ newest :: trail, newest.read ≤ m.read + trail.length * capacity := by
  induction trail generalizing newest with
  | nil =>
    intro m hm
    rw [List.mem_singleton.mp hm]
    exact Nat.le_add_right _ _
  | cons older trail ih =>
    obtain ⟨hfollows, htail⟩ := List.isChain_cons_cons.mp h
    intro m hm
    rw [List.length_cons, Nat.succ_mul]
    rcases List.mem_cons.mp hm with rfl | hm
    · omega
    · have hnear := hfollows.near
      have hrest := ih htail m hm
      omega

theorem exists_oldest {period capacity : ℕ}
    (h : List.IsChain (Mark.Follows period capacity) (newest :: trail)) :
    ∃ m ∈ newest :: trail, m.output + trail.length * period = newest.output := by
  induction trail generalizing newest with
  | nil => exact ⟨newest, List.mem_cons_self, by simp⟩
  | cons older trail ih =>
    obtain ⟨hfollows, htail⟩ := List.isChain_cons_cons.mp h
    obtain ⟨m, hm, hout⟩ := ih htail
    refine ⟨m, List.mem_cons_of_mem _ hm, ?_⟩
    rw [List.length_cons, Nat.succ_mul, hfollows.output]
    omega

theorem marks_remember {next : Mark}
    (hchain : List.IsChain (Mark.Follows cfg.period cfg.capacity) (newest :: trail))
    (hnext : Mark.Follows cfg.period cfg.capacity next newest) (hsize : trail.length ≤ 15)
    (horigin : trail.length < 15 → ∃ m ∈ newest :: trail, m.read = 0) :
    List.IsChain (Mark.Follows cfg.period cfg.capacity) (next :: (newest :: trail).take 15) ∧
      ((newest :: trail).take 15).length ≤ 15 ∧
      (((newest :: trail).take 15).length < 15 →
        ∃ m ∈ next :: (newest :: trail).take 15, m.read = 0) := by
  refine ⟨(List.isChain_cons_cons.mpr ⟨hnext, hchain⟩).take 16, ?_, ?_⟩
  · rw [List.length_take]
    omega
  · intro hlt
    rw [List.length_take, List.length_cons] at hlt
    obtain ⟨m, hm, hzero⟩ := horigin (by omega)
    refine ⟨m, List.mem_cons_of_mem _ ?_, hzero⟩
    rwa [List.take_of_length_le (by rw [List.length_cons]; omega)]

theorem exists_limit (h : Inv cfg s g) {write : ℕ} (hturn : s.service.turn = .loaded write) :
    ∃ limit, s.taken ≤ limit ∧ limit ≤ s.sent.length ∧
      (s.service.mixer.paused = false → write = limit % 2 ^ 32) := by
  have hok := h.turn
  simp only [TurnOk, hturn] at hok
  by_cases hpaused : s.service.mixer.paused = false
  · obtain ⟨limit, hw, hlo, hhi⟩ := hok.2.2 hpaused
    exact ⟨limit, hlo, hhi, fun _ => hw⟩
  · exact ⟨s.sent.length, h.counters.taken_le, Nat.le_refl _, fun hp => absurd hp hpaused⟩

/-- **A period of an honest stream.**  It does not end the stream; it reads
frames that were written, in order. -/
theorem inv_mix (h : Inv cfg s g) {write : ℕ} (hturn : s.service.turn = .loaded write) :
    ∃ g', Inv cfg (s.mix cfg write) g' ∧ g'.published = g.published ∧ g'.shown = g.shown := by
  obtain ⟨limit, hlo, hhi, hwrite⟩ := exists_limit h hturn
  have hpub := h.counters.published_le
  have hroom := h.counters.room
  have hcap := cfg.capacity_le
  have hpos := cfg.capacity_pos
  have hok := h.turn
  simp only [TurnOk, hturn] at hok
  have hmask : s.service.mixer.mask + 1 = cfg.capacity := by
    rw [h.counters.mask]
    omega
  obtain ⟨m, moved, heq, hadv⟩ := mixerMix_advanced s.ring.slots h.counters.mixerRead
    h.counters.phase h.counters.step (by omega) hlo
    (fun hp => ⟨hwrite hp, by rw [hmask]; omega⟩) cfg.period (s.service.mixed + cfg.period)
  have hmoved := hadv.moved_le
  have htook : Word.sub 32 m.stream.read s.service.mixer.read = moved := by
    rw [hadv.read, h.counters.mixerRead, Word.sub_mod (Nat.le_add_right _ _) (by omega)]
    omega
  have hfollows : Mark.Follows cfg.period cfg.capacity
      ⟨s.service.mixed + cfg.period, s.taken + moved⟩ g.newest := by
    refine ⟨?_, ?_, ?_⟩
    · show s.service.mixed + cfg.period = _
      rw [h.marks.output]
    · show g.newest.read ≤ s.taken + moved
      rw [h.marks.read]
      omega
    · show s.taken + moved ≤ g.newest.read + cfg.capacity
      rw [h.marks.read]
      omega
  obtain ⟨hchain, hsize, horigin⟩ :=
    marks_remember h.marks.chain hfollows h.marks.size h.marks.origin
  refine ⟨g.remember (s.service.mixed + cfg.period) (s.taken + moved), ?_, rfl, rfl⟩
  simp only [mix, heq, htook]
  exact
    { notEnded := h.notEnded
      counters := { h.counters with
        mask := hadv.mask.trans h.counters.mask
        step := by
          show m.stream.step ≤ 2 ^ 32
          rw [hadv.step]
          exact h.counters.step
        phase := hadv.phase
        mixerRead := hadv.read
        published_le := Nat.le_trans hpub (Nat.le_add_right _ _)
        taken_le := Nat.le_trans hmoved hhi }
      data :=
        { size := h.data.size
          holds := h.data.holds.mono (Nat.le_add_right _ _) (Nat.le_refl _)
          wrapping := h.data.wrapping
          copied := h.data.copied }
      log :=
        { frames := by
            intro x hx
            rcases List.mem_append.mp hx with hx | hx
            · exact h.log.frames x hx
            · obtain ⟨v, hv, rfl⟩ := List.mem_map.mp hx
              exact visit_ok h hhi (hadv.visits v hv)
          sweep := by
            show Ring.Sweep 0 ((s.visits ++ m.visits.map fun v => (s.taken + v.whole, v)).map Prod.fst)
              (s.taken + moved)
            rw [List.map_append, List.map_map]
            have hshift := hadv.sweep.shift s.taken
            rw [List.map_map] at hshift
            exact h.log.sweep.append hshift }
      marks :=
        { marks := by
            show m.stream.marks = _
            rw [hadv.marks, h.marks.marks]
            simp [Ghost.remember, mixerHistory, Mark.word]
          chain := hchain
          read := rfl
          output := rfl
          size := hsize
          origin := horigin
          device := by
            show s.service.mixed + cfg.period = s.service.written + cfg.period
            rw [h.marks.device, hok.2.1]
            rfl
          pending := Nat.le_refl _ }
      heard := { h.heard with
        mixerHeard := hadv.heard.trans h.heard.mixerHeard
        heard_le := Nat.le_trans h.heard.heard_le (Nat.le_add_right _ _) }
      turn := hok.1 }

theorem available_eq (h : Inv cfg s g) :
    Word.sub 32 s.ring.write s.service.mixer.read = s.sent.length - s.taken := by
  have hpub := h.counters.published_le
  have htaken := h.counters.taken_le
  have hroom := h.counters.room
  have hcap := cfg.capacity_le
  rw [h.counters.ringWrite, h.counters.mixerRead]
  exact Word.sub_mod htaken (by omega)

theorem available_le (h : Inv cfg s g) :
    ¬ Word.sub 32 s.ring.write s.service.mixer.read > Word.add 32 s.service.mixer.mask 1 := by
  have hpub := h.counters.published_le
  have hroom := h.counters.room
  have hcap := cfg.capacity_le
  have hpos := cfg.capacity_pos
  have hmask : Word.add 32 s.service.mixer.mask 1 = cfg.capacity := by
    rw [h.counters.mask, Word.add_eq (by omega)]
    omega
  rw [available_eq h, hmask]
  omega

theorem inv_setPaused (h : Inv cfg s g) (hturn : s.service.turn = .ready) (paused : Bool) :
    Inv cfg { s with service.mixer.paused := paused } g where
  notEnded := h.notEnded
  counters := { h.counters with }
  data := { h.data with }
  log := { h.log with }
  marks := { h.marks with }
  heard := { h.heard with }
  turn := by
    have hok := h.turn
    simp only [TurnOk, hturn] at hok ⊢
    exact hok

theorem inv_refresh (h : Inv cfg s g) (hturn : s.service.turn = .ready) (paused : Bool) :
    Inv cfg (s.refresh paused) g := by
  have hsame : s.refresh paused = { s with service.mixer.paused := paused } := by
    simp only [refresh]
    rw [if_neg (available_le h), ite_self]
  rw [hsame]
  exact inv_setPaused h hturn paused

theorem inv_openDevice (h : Inv cfg s g) (ok : Bool) : Inv cfg (s.openDevice ok) g where
  notEnded := h.notEnded
  counters := { h.counters with }
  data := { h.data with }
  log := { h.log with }
  marks := { h.marks with }
  heard := { h.heard with }
  turn := h.turn

theorem inv_loadWrite (h : Inv cfg s g) (hturn : s.service.turn = .ready)
    (hpending : s.service.pending = 0) : Inv cfg s.loadWrite g where
  notEnded := h.notEnded
  counters := { h.counters with }
  data := { h.data with }
  log := { h.log with }
  marks := { h.marks with }
  heard := { h.heard with }
  turn := by
    have hok := h.turn
    simp only [TurnOk, hturn] at hok
    refine ⟨hok, hpending, fun hpaused => ?_⟩
    have hunpaused : s.service.mixer.paused = false := hpaused
    refine ⟨s.sent.length, ?_, h.counters.taken_le, Nat.le_refl _⟩
    rw [hunpaused]
    exact h.counters.ringWrite

theorem inv_deviceWrite (h : Inv cfg s g) (hturn : s.service.turn = .ready) {count : ℕ}
    (hcount : count ≤ s.service.pending) : Inv cfg (s.deviceWrite count) g where
  notEnded := h.notEnded
  counters := { h.counters with }
  data := { h.data with }
  log := { h.log with }
  marks := { h.marks with
    device := by
      have hdevice := h.marks.device
      show s.service.mixed = s.service.written + count + (s.service.pending - count)
      omega
    pending := Nat.le_trans (Nat.sub_le _ _) h.marks.pending }
  heard := { h.heard with }
  turn := by
    have hok := h.turn
    simp only [TurnOk, deviceWrite, hturn] at hok ⊢
    exact hok

theorem taken_le_heard (h : Inv cfg s g) {played : ℕ}
    (hplayed : g.trail.length = 15 → g.newest.output ≤ played + 15 * cfg.period)
    (hears : Hears (g.newest :: g.trail) played g.heard g.newest.read heard) :
    s.taken ≤ heard + 15 * cfg.capacity := by
  have hsize : g.trail.length ≤ 15 := h.marks.size
  have hspan : g.trail.length * cfg.capacity ≤ 15 * cfg.capacity := Nat.mul_le_mul_right _ hsize
  rw [← h.marks.read]
  by_cases hfull : g.trail.length = 15
  · obtain ⟨m, hm, hout⟩ := exists_oldest h.marks.chain
    have hlate := hplayed hfull
    rw [hfull] at hout
    have hreached := hears.reaches m hm (by omega)
    have hnear := read_le_of_mem h.marks.chain m hm
    omega
  · have hfew : g.trail.length < 15 := by omega
    obtain ⟨m, hm, hzero⟩ := h.marks.origin hfew
    have hnear := read_le_of_mem h.marks.chain m hm
    omega

theorem inv_publish (h : Inv cfg s g) (hturn : s.service.turn = .ready) {played : ℕ}
    (hplayed : g.trail.length = 15 → g.newest.output ≤ played + 15 * cfg.period) :
    ∃ heard, Inv cfg (s.publish played) { g with heard := heard } := by
  have hok := h.turn
  simp only [TurnOk, hturn] at hok
  have hcap := cfg.capacity_le
  have hpub := h.counters.published_le
  have htaken := h.counters.taken_le
  have hroom := h.counters.room
  have hnearHeard := h.heard.near
  have hread := h.marks.read
  have hsize : g.trail.length ≤ 15 := h.marks.size
  have hspan : g.trail.length * cfg.capacity ≤ 15 * cfg.capacity := Nat.mul_le_mul_right _ hsize
  have hperiod : cfg.period < 2 ^ 32 := Nat.lt_trans cfg.period_lt (by omega)
  obtain ⟨heard, hears, heq⟩ := mixerHeard_spec played hperiod (by omega) h.marks.marks
    h.marks.chain h.heard.mixerHeard (by rw [hread]; exact h.heard.heard_le) (by omega)
    (fun m hm => by have := read_le_of_mem h.marks.chain m hm; omega)
  have hrises := hears.rises
  have hle := hears.le
  have hlag := taken_le_heard h hplayed hears
  refine ⟨heard, ?_⟩
  exact
    { notEnded := h.notEnded
      counters := { h.counters with }
      data := { h.data with }
      log := { h.log with }
      marks := { h.marks with }
      heard := { h.heard with
        mixerHeard := heq
        shown_le := Nat.le_trans h.heard.shown_le hrises
        heard_le := by
          show heard ≤ s.taken
          omega
        near := by
          show g.published ≤ heard + 15 * cfg.capacity
          omega }
      turn := by
        refine ⟨heq, hlag, ?_⟩
        show g.published ≤ g.shown + 15 * cfg.capacity
        omega }

theorem devicePlayed_near (h : Inv cfg s g) {delay : ℕ} (hdelay : delay ≤ cfg.buffer)
    (hfull : g.trail.length = 15) :
    g.newest.output ≤ s.devicePlayed delay + 15 * cfg.period := by
  have hbuffer : cfg.buffer ≤ 14 * cfg.period := cfg.buffer_max
  have hdevice := h.marks.device
  have hpending := h.marks.pending
  have houtput := h.marks.output
  obtain ⟨m, hm, hout⟩ := exists_oldest h.marks.chain
  rw [hfull] at hout
  rw [devicePlayed]
  split <;> omega

theorem inv_closeDevice (h : Inv cfg s g) (hturn : s.service.turn = .ready) :
    ∃ heard, Inv cfg s.closeDevice { g with heard := heard } := by
  have hdropped : Inv cfg { s with service.written := s.service.mixed, service.pending := 0,
                                   service.output := .closed } g :=
    { notEnded := h.notEnded
      counters := { h.counters with }
      data := { h.data with }
      log := { h.log with }
      marks := { h.marks with
        device := rfl
        pending := Nat.zero_le _ }
      heard := { h.heard with }
      turn := by
        have hok := h.turn
        simp only [TurnOk, hturn] at hok ⊢
        exact hok }
  refine inv_publish hdropped hturn fun _ => ?_
  rw [h.marks.output]
  exact Nat.le_add_right _ _

theorem inv_storeRead (h : Inv cfg s g) (hturn : s.service.turn = .publishing heard) :
    Inv cfg { s with ring.read := s.service.mixer.read, service.turn := .published heard }
      { g with published := s.taken } := by
  have hok := h.turn
  simp only [TurnOk, hturn] at hok
  obtain ⟨hheard, hlag, hshown⟩ := hok
  have hpub := h.counters.published_le
  have htaken := h.counters.taken_le
  have hroom := h.counters.room
  exact
    { notEnded := h.notEnded
      counters := { h.counters with
        ringRead := h.counters.mixerRead
        published_le := Nat.le_refl _
        room := Nat.le_trans hroom (Nat.add_le_add_right hpub _) }
      data := { h.data with }
      log := { h.log with }
      marks := { h.marks with }
      heard := { h.heard with
        shown_published := Nat.le_trans h.heard.shown_published hpub
        near := hlag
        shown_near := by
          show s.taken ≤ g.shown + 16 * cfg.capacity
          omega }
      turn := ⟨hheard, rfl⟩ }

theorem inv_storeHeard (h : Inv cfg s g) (hturn : s.service.turn = .published heard) :
    Inv cfg { s with ring.heard := heard, service.turn := .ready } { g with shown := g.heard } := by
  have hok := h.turn
  simp only [TurnOk, hturn] at hok
  have hnear := h.heard.near
  exact
    { notEnded := h.notEnded
      counters := { h.counters with }
      data := { h.data with }
      log := { h.log with }
      marks := { h.marks with }
      heard := { h.heard with
        ringHeard := hok.1
        shown_le := Nat.le_refl _
        shown_published := by
          show g.heard ≤ g.published
          rw [hok.2]
          exact h.heard.heard_le
        shown_near := by
          show g.published ≤ g.heard + 16 * cfg.capacity
          omega }
      turn := rfl }

/-! ### Runs -/

theorem inv_initial {mixed pending : ℕ} (hpending : pending ≤ cfg.period) (hmixed : pending ≤ mixed)
    (output : Output) (paused : Bool) :
    Inv cfg (initial cfg mixed pending output paused) ⟨0, 0, 0, ⟨mixed, 0⟩, []⟩ where
  notEnded := rfl
  counters :=
    { mask := rfl
      step := by
        have hrate := cfg.rate_max
        show cfg.rate * 2 ^ 32 / 48000 ≤ 2 ^ 32
        omega
      phase := Nat.two_pow_pos 32
      mixerRead := rfl
      ringRead := rfl
      written := rfl
      ringWrite := rfl
      published_le := Nat.le_refl _
      taken_le := Nat.le_refl _
      room := Nat.zero_le _ }
  data :=
    { size := List.length_replicate
      holds := fun n _ hn => absurd hn (Nat.not_lt_zero n)
      wrapping := by
        intro frames hw
        cases hw
      copied := by
        intro frames hw
        cases hw }
  log := ⟨by simp [initial], rfl⟩
  marks :=
    { marks := rfl
      chain := List.isChain_singleton _
      read := rfl
      output := rfl
      size := Nat.zero_le _
      origin := fun _ => ⟨_, List.mem_cons_self, rfl⟩
      device := (Nat.sub_add_cancel hmixed).symm
      pending := hpending }
  heard := ⟨rfl, rfl, Nat.le_refl _, Nat.le_refl _, Nat.le_refl _, Nat.zero_le _, Nat.zero_le _⟩
  turn := rfl

theorem rises_of_eq {g' : Ghost} (hp : g'.published = g.published) (hs : g'.shown = g.shown) :
    g.Rises g' := by
  refine ⟨?_, ?_, ?_, ?_⟩ <;> omega

/-- **One step keeps the invariant**, and the stored positions never fall. -/
theorem inv_step (h : Inv cfg s g) {op : Op} (hs : s.step cfg op = some s') :
    ∃ g', Inv cfg s' g' ∧ g.Rises g' := by
  have hsame : g.Rises g := rises_of_eq rfl rfl
  have hcap := cfg.capacity_le
  cases stepped_of_step hs with
  | loadRead hs => exact ⟨g, inv_loadRead h hs, hsame⟩
  | copyFirst hs => exact ⟨g, inv_copyFirst h hs, hsame⟩
  | copyRest hs => exact ⟨g, inv_copyRest h hs, hsame⟩
  | storeWrite hs => exact ⟨g, inv_storeWrite h hs, hsame⟩
  | refresh hturn => exact ⟨g, inv_refresh h hturn _, hsame⟩
  | openDevice hturn => exact ⟨g, inv_openDevice h _, hsame⟩
  | loadWrite hturn _ hpending => exact ⟨g, inv_loadWrite h hturn hpending, hsame⟩
  | mix hturn =>
    obtain ⟨g', hinv, hp, hsh⟩ := inv_mix h hturn
    exact ⟨g', hinv, rises_of_eq hp hsh⟩
  | deviceWrite hturn hcount => exact ⟨g, inv_deviceWrite h hturn hcount, hsame⟩
  | publish hturn hdelay =>
    obtain ⟨heard, hinv⟩ := inv_publish h hturn (devicePlayed_near h hdelay)
    exact ⟨_, hinv, rises_of_eq rfl rfl⟩
  | closeDevice hturn =>
    obtain ⟨heard, hinv⟩ := inv_closeDevice h hturn
    exact ⟨_, hinv, rises_of_eq rfl rfl⟩
  | storeRead hturn =>
    have hpub := h.counters.published_le
    have htaken := h.counters.taken_le
    have hroom := h.counters.room
    refine ⟨_, inv_storeRead h hturn, hpub, ?_, Nat.le_refl _,
      Nat.lt_add_of_pos_right (Nat.two_pow_pos 31)⟩
    show s.taken < g.published + 2 ^ 31
    omega
  | storeHeard hturn =>
    have hok := h.turn
    simp only [TurnOk, hturn] at hok
    have hheard := h.heard.heard_le
    have hnear := h.heard.shown_near
    refine ⟨_, inv_storeHeard h hturn, Nat.le_refl _,
      Nat.lt_add_of_pos_right (Nat.two_pow_pos 31), h.heard.shown_le, ?_⟩
    show g.heard < g.shown + 2 ^ 31
    omega

theorem exists_inv (h : (machine cfg).Reachable s) : ∃ g, Inv cfg s g := by
  refine h.invariant (P := fun s => ∃ g, Inv cfg s g) ?_ ?_
  · rintro s ⟨mixed, pending, output, paused, hpending, hmixed, rfl⟩
    exact ⟨_, inv_initial hpending hmixed output paused⟩
  · rintro s op s' ⟨g, hinv⟩ hstep
    obtain ⟨g', hinv', -⟩ := inv_step hinv hstep
    exact ⟨g', hinv'⟩

/-- What the ring owes the application.  `taken` counts the frames the mixer
went past; positions in `visits` are true ones. -/
structure Delivered (cfg : Config) (s : Stream) : Prop where
  notEnded : s.ring.ended = false
  position : s.service.mixer.read = s.taken % 2 ^ 32
  frames : ∀ x ∈ s.visits, s.sent[x.1]? = some x.2.here ∧
    ∀ frame, x.2.next = some frame → s.sent[x.1 + 1]? = some frame
  inOrder : Ring.Sweep 0 (s.visits.map Prod.fst) s.taken
  heard_le_read : Word.sub 32 s.ring.read s.ring.heard < 2 ^ 31
  read_le_write : Word.sub 32 s.ring.write s.ring.read ≤ cfg.capacity

/-- The shared counters do not fall. -/
structure NotFalling (s s' : Stream) : Prop where
  read : Word.sub 32 s'.ring.read s.ring.read < 2 ^ 31
  heard : Word.sub 32 s'.ring.heard s.ring.heard < 2 ^ 31

theorem Inv.delivered (h : Inv cfg s g) : Delivered cfg s := by
  have hcap := cfg.capacity_le
  have hpub := h.counters.published_le
  have htaken := h.counters.taken_le
  have hroom := h.counters.room
  have hshown := h.heard.shown_published
  have hnear := h.heard.shown_near
  refine ⟨h.notEnded, h.counters.mixerRead, h.log.frames, h.log.sweep, ?_, ?_⟩
  · rw [h.counters.ringRead, h.heard.ringHeard, Word.sub_mod hshown (by omega)]
    omega
  · rw [h.counters.ringWrite, h.counters.ringRead, Word.sub_mod (by omega) (by omega)]
    omega

/-- **The audio ring delivers exactly what was written**, in every run and
over every wrap of its counters. -/
theorem delivered_of_reachable (h : (machine cfg).Reachable s) :
    Delivered cfg s ∧ cfg.capacity < 2 ^ 31 ∧
      ∀ op s', s.step cfg op = some s' → NotFalling s s' := by
  have hcap := cfg.capacity_le
  obtain ⟨g, hinv⟩ := exists_inv h
  refine ⟨hinv.delivered, by omega, fun op s' hs => ?_⟩
  obtain ⟨g', hinv', hrises⟩ := inv_step hinv hs
  have hpub := hrises.published_near
  have hshown := hrises.shown_near
  constructor
  · rw [hinv'.counters.ringRead, hinv.counters.ringRead,
      Word.sub_mod hrises.published_le (by omega)]
    omega
  · rw [hinv'.heard.ringHeard, hinv.heard.ringHeard, Word.sub_mod hrises.shown_le (by omega)]
    omega

/-- A mono stream at 8000 Hz on a card of three periods. -/
def monoConfig : Config where
  rate := 8000
  channels := 1
  period := 480
  buffer := 1440
  rate_min := by omega
  rate_max := by omega
  channels_min := by omega
  channels_max := by omega
  period_pos := by omega
  period_lt := by omega
  buffer_min := by omega
  buffer_max := by
    show 1440 ≤ 14 * 480
    omega

/-- A run that writes two frames while the service opens its card, loads the
write counter and mixes a period. -/
theorem delivered_twoFrames : ∃ s, (machine monoConfig).Reachable s ∧ s.sent = [[7], [9]] ∧
    s.visits ≠ [] ∧ Delivered monoConfig s := by
  have hrun : ((Machine.runOps (step monoConfig)
      [.loadRead [[7], [9]], .copyFirst, .openDevice true, .copyRest, .storeWrite, .loadWrite, .mix]
      (initial monoConfig 0 0 .closed false)).map fun s => (s.sent, s.visits.isEmpty)) =
      some ([[7], [9]], false) := by rfl
  obtain ⟨s, hs, hsent⟩ := Option.map_eq_some_iff.mp hrun
  have hstart : (machine monoConfig).Reachable (initial monoConfig 0 0 .closed false) :=
    .start ⟨0, 0, .closed, false, Nat.zero_le _, Nat.le_refl _, rfl⟩
  have hreach : (machine monoConfig).Reachable s := hstart.runOps (fun _ _ _ h => h) hs
  obtain ⟨hfirst, hvisits⟩ := Prod.mk.inj hsent
  refine ⟨s, hreach, hfirst, ?_, (delivered_of_reachable hreach).1⟩
  intro hnil
  rw [hnil] at hvisits
  cases hvisits

end Stream

end Audio

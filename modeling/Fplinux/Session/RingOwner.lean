/-
Whose keys are whose while alarms ring.

Main result:
- `ringOwned_of_trace`: what a ring is given was pressed for it, and a key whose
  presses reached the focus gets its release unless a ring covers the display.

The case of an application's key released over a ring is `release_swallowed`.
-/
import Fplinux.Session.RingKeys

namespace RingKeys

open InputCodes
open Power (KeySource)

/-! ### Slots -/

/-- The key of a slot. -/
def slotCode (source : KeySource) : Fin 6 → ℕ
  | 0 => if source = .phone then keyF13 else keyCompose
  | 1 => if source = .phone then keyF14 else keyEsc
  | 2 => keyUp
  | 3 => keyDown
  | 4 => keyLeft
  | 5 => keyRight

variable {code nowMs : ℕ} {slot : Fin 6} {source : KeySource} {session : Session} {pressed : Bool}
  {run : Run}

theorem slot_eq (h : clockKeySlot source code = some slot) : code = slotCode source slot := by
  have hcodes : (if code = slotCode source 0 then some 0 else if code = slotCode source 1 then some 1
      else if code = slotCode source 2 then some 2 else if code = slotCode source 3 then some 3
      else if code = slotCode source 4 then some 4 else if code = slotCode source 5 then some 5
      else none) = some slot := h
  split_ifs at hcodes with h0 h1 h2 h3 h4 h5
  · rwa [← Option.some.inj hcodes]
  · rwa [← Option.some.inj hcodes]
  · rwa [← Option.some.inj hcodes]
  · rwa [← Option.some.inj hcodes]
  · rwa [← Option.some.inj hcodes]
  · rwa [← Option.some.inj hcodes]

theorem slot_lt (h : clockKeySlot source code = some slot) : code < keyCnt := by
  rw [slot_eq h]
  cases source with
  | phone =>
    have hall : ∀ slot, slotCode .phone slot < keyCnt := by decide
    exact hall slot
  | keyboard =>
    have hall : ∀ slot, slotCode .keyboard slot < keyCnt := by decide
    exact hall slot

theorem slot_inj {code' : ℕ} (h : clockKeySlot source code = some slot)
    (h' : clockKeySlot source code' = some slot) :
    code = code' := (slot_eq h).trans (slot_eq h').symm

/-! ### What an event leaves alone -/

/-- Everything but the key of the event is as it was. -/
structure Frame (source : KeySource) (code : ℕ) (session session' : Session) : Prop where
  clock : session'.clock = session.clock
  blocked : ∀ s c, ¬ (s = source ∧ c = code) →
    session'.clockBlockedKeys s c = session.clockBlockedKeys s c
  owners : ∀ s c slot, ¬ (s = source ∧ c = code) → clockKeySlot s c = some slot →
    session'.clockKeyEvents s slot = session.clockKeyEvents s slot
  keys : ∀ s c, ¬ (s = source ∧ c = code) → session'.power.keys s c = session.power.keys s c
  launch : ∀ s, ¬ (s = source ∧ cancelKey s = code) → launchHeld session' s = launchHeld session s

theorem Frame.refl (source : KeySource) (code : ℕ) (session : Session) :
    Frame source code session session :=
  ⟨rfl, fun _ _ _ => rfl, fun _ _ _ _ _ => rfl, fun _ _ _ => rfl, fun _ _ => rfl⟩

theorem Frame.trans {a b c : Session} (hab : Frame source code a b) (hbc : Frame source code b c) :
    Frame source code a c where
  clock := hbc.clock.trans hab.clock
  blocked s k hne := (hbc.blocked s k hne).trans (hab.blocked s k hne)
  owners s k slot hne hslot := (hbc.owners s k slot hne hslot).trans (hab.owners s k slot hne hslot)
  keys s k hne := (hbc.keys s k hne).trans (hab.keys s k hne)
  launch s hne := (hbc.launch s hne).trans (hab.launch s hne)

theorem launchHeld_congr {session' : Session}
    (hright : session'.launchRightHeld = session.launchRightHeld)
    (hescape : session'.launchEscapeHeld = session.launchEscapeHeld) (source : KeySource) :
    launchHeld session' source = launchHeld session source := by
  cases source with
  | phone => exact hright
  | keyboard => exact hescape

theorem frame_setOwner (hslot : clockKeySlot source code = some slot) (session : Session)
    (owner : ℕ) :
    Frame source code session (setOwner session source slot owner) where
  clock := rfl
  blocked _ _ _ := rfl
  owners s c k hne hk := by
    have hother : ¬ (s = source ∧ k = slot) := by
      rintro ⟨rfl, rfl⟩
      exact hne ⟨rfl, slot_inj hk hslot⟩
    exact if_neg hother
  keys _ _ _ := rfl
  launch s _ := launchHeld_congr rfl rfl s

theorem frame_setBlocked (source : KeySource) (code : ℕ) (session : Session) (blocked : Bool) :
    Frame source code session (setBlocked session source code blocked) where
  clock := rfl
  blocked _ _ hne := if_neg hne
  owners _ _ _ _ _ := rfl
  keys _ _ _ := rfl
  launch s _ := launchHeld_congr rfl rfl s

theorem frame_power (session : Session) {power : Power.State} (view : View)
    (h : ∀ s c, ¬ (s = source ∧ c = code) → power.keys s c = session.power.keys s c) :
    Frame source code session { session with power := power, view := view } where
  clock := rfl
  blocked _ _ _ := rfl
  owners _ _ _ _ _ := rfl
  keys := h
  launch s _ := launchHeld_congr rfl rfl s

theorem frame_key (source : KeySource) (code : ℕ) (session : Session) (pressed : Bool) (nowMs : ℕ) :
    Frame source code session
      { session with power := (Power.key session.power source code pressed nowMs).2 } := by
  refine frame_power session session.view fun s c hne => ?_
  have hother : ∀ pressed', Power.Call.key source code pressed ≠ .key s c pressed' := by
    rintro pressed' heq
    injection heq with hs hc
    exact hne ⟨hs.symm, hc.symm⟩
  exact Power.perform_keys_other (t := nowMs) hother

theorem activity_keys (power : Power.State) (wakeDisplay : Bool) (nowMs : ℕ) (source : KeySource)
    (code : ℕ) : (Power.activity power wakeDisplay nowMs).keys source code =
      power.keys source code := by
  have hother : ∀ pressed, Power.Call.activity wakeDisplay ≠ .key source code pressed := by simp
  exact Power.perform_keys_other (t := nowMs) hother

theorem frame_blockKey (session : Session) (source : KeySource) (code : ℕ) (pressed : Bool)
    (nowMs : ℕ) : Frame source code session (blockKey session source code pressed nowMs).2 := by
  rw [blockKey]
  split
  · have hwake : Frame source code session
        (if session.power.display = .off then
          { session with
            power := Power.activity session.power true nowMs
            view := { session.view with clockDisplaySuppressed := false } }
        else session) := by
      split
      · exact frame_power session _ fun s c _ => activity_keys session.power true nowMs s c
      · exact .refl source code session
    show Frame source code session (if code < keyCnt then _ else _)
    split
    · exact hwake.trans (frame_setBlocked source code _ true)
    · exact hwake
  · exact .refl source code session

theorem frame_clockKey (session : Session) (source : KeySource) (code : ℕ) (pressed : Bool)
    (nowMs : ℕ) : Frame source code session (clockKey session source code pressed nowMs).2 := by
  rw [clockKey]
  split
  · show Frame source code session (if pressed = true then _ else _)
    split
    · exact .refl source code session
    · exact frame_setBlocked source code session false
  split
  · exact frame_blockKey session source code pressed nowMs
  · rename_i slot hslot
    simp only
    split
    · exact frame_setOwner hslot session 0
    split
    · exact frame_setOwner hslot session _
    · exact frame_blockKey session source code pressed nowMs

theorem frame_offerKey (session : Session) (source : KeySource) (code : ℕ) (pressed : Bool)
    (nowMs : ℕ) : Frame source code session (offerKey session source code pressed nowMs).2 := by
  have hclock := frame_clockKey session source code pressed nowMs
  rw [offerKey]
  simp only
  split
  · show Frame source code session (if pressed = true then _ else _)
    split
    · exact hclock
    · exact hclock.trans (frame_key source code _ false nowMs)
  · exact hclock.trans (frame_key source code _ pressed nowMs)

theorem frame_setLaunchHeld (h : code = cancelKey source) (session : Session) (held : Bool) :
    Frame source code session (setLaunchHeld session source held) := by
  cases source with
  | phone =>
    refine ⟨rfl, fun _ _ _ => rfl, fun _ _ _ _ _ => rfl, fun _ _ _ => rfl, fun s hne => ?_⟩
    cases s with
    | phone => exact absurd ⟨rfl, h.symm⟩ hne
    | keyboard => rfl
  | keyboard =>
    refine ⟨rfl, fun _ _ _ => rfl, fun _ _ _ _ _ => rfl, fun _ _ _ => rfl, fun s hne => ?_⟩
    cases s with
    | phone => rfl
    | keyboard => exact absurd ⟨rfl, h.symm⟩ hne

theorem frame_filterKey (session : Session) (source : KeySource) (code : ℕ) (pressed : Bool)
    (nowMs : ℕ) : Frame source code session (filterKey session source code pressed nowMs).2 := by
  have hoffer := frame_offerKey session source code pressed nowMs
  rw [filterKey]
  simp only
  split
  · rename_i hcancel
    show Frame source code session (if pressed = true then _ else _)
    split
    · exact hoffer
    · exact hoffer.trans (frame_setLaunchHeld hcancel.1 _ false)
  split
  · rename_i hcancel
    exact hoffer.trans (frame_setLaunchHeld hcancel.2.2.1 _ true)
  · exact hoffer

theorem frame_powerKey (session : Session) (pressed : Bool) (timeMs nowMs : ℕ) :
    Frame .phone keyPower session (powerKey session pressed timeMs nowMs) := by
  have hred : ∀ homeView view, Frame .phone keyPower session
      { session with
        power := (Power.redKey session.power pressed timeMs homeView nowMs).2
        view := view } := by
    intro homeView view
    refine frame_power session view fun s c _ => ?_
    have hother : ∀ pressed', Power.Call.redKey pressed timeMs homeView ≠ .key s c pressed' := by simp
    exact Power.perform_keys_other (t := nowMs) hother
  rw [powerKey]
  simp only
  split
  · exact hred _ _
  · exact hred _ _

theorem frame_anyKey (session : Session) (source : KeySource) (code : ℕ) (pressed : Bool)
    (timeMs nowMs : ℕ) :
    Frame source code session (anyKey session source code pressed timeMs nowMs).2 := by
  cases source with
  | phone =>
    show Frame .phone code session (key session code pressed timeMs nowMs).2
    rw [key]
    split
    · rename_i heq
      rw [heq]
      exact frame_powerKey session pressed timeMs nowMs
    · exact frame_filterKey session .phone code pressed nowMs
  | keyboard => exact frame_filterKey session .keyboard code pressed nowMs

/-! ### The key of the event -/

theorem anyKey_eq_filterKey (h : ¬ (source = .phone ∧ code = keyPower)) (session : Session)
    (pressed : Bool) (timeMs nowMs : ℕ) :
    anyKey session source code pressed timeMs nowMs = filterKey session source code pressed nowMs := by
  cases source with
  | phone =>
    have hne : code ≠ keyPower := fun heq => h ⟨rfl, heq⟩
    exact if_neg hne
  | keyboard => rfl

theorem slot_ne_power (h : clockKeySlot source code = some slot) :
    ¬ (source = .phone ∧ code = keyPower) := by
  rintro ⟨rfl, rfl⟩
  cases h

theorem filterKey_own (session : Session) (source : KeySource) (code : ℕ) (pressed : Bool)
    (nowMs : ℕ) :
    (filterKey session source code pressed nowMs).2.clockKeyEvents =
        (clockKey session source code pressed nowMs).2.clockKeyEvents ∧
      (filterKey session source code pressed nowMs).2.clockBlockedKeys =
        (clockKey session source code pressed nowMs).2.clockBlockedKeys := by
  have hheld : ∀ (s : Session) (held : Bool),
      (setLaunchHeld s source held).clockKeyEvents = s.clockKeyEvents ∧
        (setLaunchHeld s source held).clockBlockedKeys = s.clockBlockedKeys := by
    intro s held
    cases source with
    | phone => exact ⟨rfl, rfl⟩
    | keyboard => exact ⟨rfl, rfl⟩
  have hoffer : (offerKey session source code pressed nowMs).2.clockKeyEvents =
        (clockKey session source code pressed nowMs).2.clockKeyEvents ∧
      (offerKey session source code pressed nowMs).2.clockBlockedKeys =
        (clockKey session source code pressed nowMs).2.clockBlockedKeys := by
    rw [offerKey]
    simp only
    split
    · cases pressed with
      | true => exact ⟨rfl, rfl⟩
      | false => exact ⟨rfl, rfl⟩
    · exact ⟨rfl, rfl⟩
  rw [filterKey]
  simp only
  split
  · cases pressed with
    | true => exact hoffer
    | false => exact ⟨(hheld _ false).1.trans hoffer.1, (hheld _ false).2.trans hoffer.2⟩
  split
  · exact ⟨(hheld _ true).1.trans hoffer.1, (hheld _ true).2.trans hoffer.2⟩
  · exact hoffer

theorem blockKey_own (session : Session) (source : KeySource) (code : ℕ) (pressed : Bool)
    (nowMs : ℕ) :
    (blockKey session source code pressed nowMs).2.clockKeyEvents = session.clockKeyEvents ∧
      (¬ (clockDue session = true ∧ session.power.locked = true) →
        (blockKey session source code pressed nowMs).2 = session) := by
  rw [blockKey]
  split
  · rename_i hblock
    refine ⟨?_, fun hnot => absurd hblock.2 hnot⟩
    simp only
    split
    · split
      · rfl
      · rfl
    · split
      · rfl
      · rfl
  · exact ⟨rfl, fun _ => rfl⟩

theorem launchHeld_clockKey (session : Session) (source : KeySource) (code : ℕ) (pressed : Bool)
    (nowMs : ℕ) : launchHeld (clockKey session source code pressed nowMs).2 source =
      launchHeld session source := by
  have hblock : launchHeld (blockKey session source code pressed nowMs).2 source =
      launchHeld session source := by
    rw [blockKey]
    split
    · refine launchHeld_congr ?_ ?_ source
      · simp only
        split
        · split
          · rfl
          · rfl
        · split
          · rfl
          · rfl
      · simp only
        split
        · split
          · rfl
          · rfl
        · split
          · rfl
          · rfl
    · rfl
  rw [clockKey]
  split
  · cases pressed with
    | true => rfl
    | false => exact launchHeld_congr rfl rfl source
  split
  · exact hblock
  · simp only
    split
    · exact launchHeld_congr rfl rfl source
    split
    · exact launchHeld_congr rfl rfl source
    · exact hblock

theorem clockKey_unhandled (h : (clockKey session source code pressed nowMs).1.handled = false) :
    (clockKey session source code pressed nowMs).2 = session ∧
      (code < keyCnt → session.clockBlockedKeys source code = false) ∧
      ((clockKeySlot source code).isSome = true → eligible session = false) := by
  have hblock : (blockKey session source code pressed nowMs).1.handled = false →
      (blockKey session source code pressed nowMs).2 = session := by
    rw [blockKey]
    split
    · intro hhandled
      cases hhandled
    · intro _
      rfl
  rw [clockKey] at h ⊢
  split at h
  · cases h
  rename_i hfree
  have hblocked : code < keyCnt → session.clockBlockedKeys source code = false := by
    intro hlt
    by_contra hne
    exact hfree ⟨hlt, by simpa using hne⟩
  rw [if_neg hfree]
  cases hslot : clockKeySlot source code with
  | none =>
    rw [hslot] at h
    exact ⟨hblock h, hblocked, fun hsome => by cases hsome⟩
  | some slot =>
    rw [hslot] at h
    simp only at h ⊢
    split at h
    · cases h
    rename_i howner
    rw [if_neg howner]
    split at h
    · cases h
    rename_i helig
    rw [if_neg helig]
    exact ⟨hblock h, hblocked, fun _ => by simpa using helig⟩

/-! ### The invariant -/

/-- What the session remembers of the held keys. -/
structure Ok (run : Run) : Prop where
  /-- An owned key is held, and was first pressed while its ring covered a lit display. -/
  owned : ∀ source code slot, clockKeySlot source code = some slot →
    run.session.clockKeyEvents source slot ≠ 0 →
      run.session.clockBlockedKeys source code = false ∧
        ∃ gesture, run.held source code = some gesture ∧ eligible gesture.first = true ∧
          gesture.first.clock.active.id = run.session.clockKeyEvents source slot
  /-- Nobody else has a key whose presses all reached the focus. -/
  reached : ∀ source code gesture, code < keyCnt → run.held source code = some gesture →
    gesture.reached = true →
      ¬ (source = .phone ∧ code = keyPower) ∧
        run.session.power.keys source code = .delivered ∧
        run.session.clockBlockedKeys source code = false ∧
        (∀ slot, clockKeySlot source code = some slot →
          run.session.clockKeyEvents source slot = 0) ∧
        (code = cancelKey source → launchHeld run.session source = false)

theorem owned_press (h : Ok run) (hnot : ¬ RepeatTaken run source code)
    (hslot : clockKeySlot source code = some slot) {answer : Answer}
    (hne : (clockKey run.session source code true nowMs).2.clockKeyEvents source slot ≠ 0) :
    (clockKey run.session source code true nowMs).2.clockBlockedKeys source code = false ∧
      ∃ gesture, track run source code true answer source code = some gesture ∧
        eligible gesture.first = true ∧ gesture.first.clock.active.id =
          (clockKey run.session source code true nowMs).2.clockKeyEvents source slot := by
  -- a gesture that goes on keeps its first press
  have hkept : ∀ gesture, run.held source code = some gesture →
      ∃ gesture', track run source code true answer source code = some gesture' ∧
        gesture'.first = gesture.first := by
    intro gesture hheld
    exact ⟨⟨gesture.first, gesture.reached && (!answer.handled && answer.deliver)⟩,
      by simp [track, hheld], rfl⟩
  have howned : run.session.clockKeyEvents source slot ≠ 0 →
      ∃ gesture, track run source code true answer source code = some gesture ∧
        eligible gesture.first = true ∧
          gesture.first.clock.active.id = run.session.clockKeyEvents source slot := by
    intro howner
    obtain ⟨-, gesture, hheld, helig, hid⟩ := h.owned source code slot hslot howner
    obtain ⟨gesture', htrack, hfirst⟩ := hkept gesture hheld
    exact ⟨gesture', htrack, by rw [hfirst, helig], by rw [hfirst, hid]⟩
  rw [clockKey] at hne ⊢
  split at hne
  · rename_i hblocked
    -- a blocked key is nobody's
    have hfree := (h.owned source code slot hslot hne).1
    rw [hblocked.2] at hfree
    cases hfree
  rename_i hfree
  have hblocked : run.session.clockBlockedKeys source code = false := by
    by_contra hb
    exact hfree ⟨slot_lt hslot, by simpa using hb⟩
  rw [if_neg hfree]
  simp only [hslot, Bool.not_true, Bool.false_eq_true, false_and, if_false, true_and] at hne ⊢
  by_cases helig : eligible run.session = true
  · rw [if_pos helig] at hne ⊢
    refine ⟨hblocked, ?_⟩
    by_cases howner : run.session.clockKeyEvents source slot = 0
    · have hnone : run.held source code = none := by
        by_contra hheld
        exact hnot ⟨hheld, slot, hslot, .inl ⟨howner, helig⟩⟩
      exact ⟨⟨run.session, !answer.handled && answer.deliver⟩, by simp [track, hnone], helig,
        by simp [setOwner, howner]⟩
    · obtain ⟨gesture, htrack, hfirst, hid⟩ := howned howner
      exact ⟨gesture, htrack, hfirst, by simp [setOwner, howner, hid]⟩
  · rw [if_neg helig] at hne ⊢
    obtain ⟨hsame, hquiet⟩ := blockKey_own run.session source code true nowMs
    rw [hsame] at hne ⊢
    have hunlocked : ¬ (clockDue run.session = true ∧ run.session.power.locked = true) := by
      rintro ⟨hdue, hlocked⟩
      obtain ⟨-, gesture, hheld, -⟩ := h.owned source code slot hslot hne
      exact hnot ⟨by simp [hheld], slot, hslot, .inr ⟨hne, by simpa using helig, hdue, hlocked⟩⟩
    rw [hquiet hunlocked]
    exact ⟨hblocked, howned hne⟩

theorem owner_release (h : Ok run) (hslot : clockKeySlot source code = some slot) (nowMs : ℕ) :
    (clockKey run.session source code false nowMs).2.clockKeyEvents source slot = 0 := by
  rw [clockKey]
  split
  · rename_i hblocked
    show run.session.clockKeyEvents source slot = 0
    by_contra hne
    have hfree := (h.owned source code slot hslot hne).1
    rw [hblocked.2] at hfree
    cases hfree
  · simp only [hslot, Bool.not_false, true_and, Bool.false_eq_true, false_and, if_false]
    split
    · simp [setOwner]
    · rename_i howner
      rw [not_not] at howner
      split
      · simp [setOwner, howner]
      · rw [(blockKey_own run.session source code false nowMs).1, howner]

theorem reached_press (hcode : code < keyCnt)
    (hhandled : (filterKey session source code true nowMs).1.handled = false)
    (hdeliver : (filterKey session source code true nowMs).1.deliver = true) :
    (clockKey session source code true nowMs).1.handled = false ∧
      (filterKey session source code true nowMs).2.power.keys source code = .delivered ∧
      (code = cancelKey source →
        launchHeld (filterKey session source code true nowMs).2 source = false) := by
  rw [filterKey] at hhandled hdeliver ⊢
  simp only at hhandled hdeliver ⊢
  split at hdeliver
  · cases hdeliver
  rename_i hcancel
  rw [if_neg hcancel] at hhandled ⊢
  split at hdeliver
  · cases hdeliver
  rename_i hlaunch
  rw [if_neg hlaunch] at hhandled ⊢
  have hflag : code = cancelKey source →
      launchHeld (offerKey session source code true nowMs).2 source = false := by
    intro heq
    by_contra hheld
    exact hcancel ⟨heq, by simpa using hheld⟩
  refine ⟨?_, ?_, hflag⟩
  · rw [offerKey] at hhandled
    simp only at hhandled
    split at hhandled
    · rename_i hclock
      rw [hclock] at hhandled
      cases hhandled
    · rename_i hclock
      simpa using hclock
  · rw [offerKey] at hhandled hdeliver ⊢
    simp only at hhandled hdeliver ⊢
    split at hhandled
    · rename_i hclock
      rw [hclock] at hhandled
      cases hhandled
    rename_i hclock
    rw [if_neg hclock] at hdeliver ⊢
    simp only at hdeliver ⊢
    rcases Power.key_press (clockKey session source code true nowMs).2.power source code nowMs with
      ⟨-, hkey⟩ | ⟨-, -, hkey⟩ | ⟨-, -, -, hkey⟩ | ⟨-, -, -, hkey⟩
    · rw [hkey] at hdeliver
      cases hdeliver
    · rw [hkey] at hdeliver
      cases hdeliver
    · rw [hkey] at hdeliver
      cases hdeliver
    · rw [hkey]
      exact Power.setKeyState_keys_self _ _ _ hcode

/-- **One event of a key.** -/
theorem ok_keyed (h : Ok run) (source : KeySource) (timeMs nowMs : ℕ)
    (hnot : pressed = true → ¬ RepeatTaken run source code) :
    Ok (keyed run source code pressed (anyKey run.session source code pressed timeMs nowMs)) := by
  have hframe := frame_anyKey run.session source code pressed timeMs nowMs
  refine ⟨?_, ?_⟩
  · intro s c slot hslot hne
    by_cases hsame : s = source ∧ c = code
    · obtain ⟨rfl, rfl⟩ := hsame
      have heq := anyKey_eq_filterKey (slot_ne_power hslot) run.session pressed timeMs nowMs
      obtain ⟨hevents, hblocked⟩ := filterKey_own run.session s c pressed nowMs
      rw [← heq] at hevents hblocked
      change (anyKey run.session s c pressed timeMs nowMs).2.clockKeyEvents s slot ≠ 0 at hne
      show (anyKey run.session s c pressed timeMs nowMs).2.clockBlockedKeys s c = false ∧
        ∃ gesture, track run s c pressed (anyKey run.session s c pressed timeMs nowMs).1 s c =
          some gesture ∧ eligible gesture.first = true ∧ gesture.first.clock.active.id =
            (anyKey run.session s c pressed timeMs nowMs).2.clockKeyEvents s slot
      rw [hevents] at hne ⊢
      rw [hblocked]
      cases pressed with
      | true => exact owned_press h (hnot rfl) hslot hne
      | false => exact absurd (owner_release h hslot nowMs) hne
    · have howner := hframe.owners s c slot hsame hslot
      rw [show (keyed run source code pressed (anyKey run.session source code pressed timeMs
        nowMs)).session.clockKeyEvents s slot = _ from howner] at hne ⊢
      obtain ⟨hblocked, gesture, hheld, hfirst⟩ := h.owned s c slot hslot hne
      exact ⟨(hframe.blocked s c hsame).trans hblocked, gesture, (if_neg hsame).trans hheld, hfirst⟩
  · intro s c gesture hcode hheld hreached
    by_cases hsame : s = source ∧ c = code
    · obtain ⟨rfl, rfl⟩ := hsame
      cases pressed with
      | false => simp [keyed, track] at hheld
      | true =>
        -- this press reached the focus, and so did those before it
        have hnow : (anyKey run.session s c true timeMs nowMs).1.handled = false ∧
            (anyKey run.session s c true timeMs nowMs).1.deliver = true ∧
            ∀ old, run.held s c = some old → old.reached = true := by
          simp only [keyed, track, and_self, if_true] at hheld
          split at hheld
          · rename_i hnone
            obtain rfl := Option.some.inj hheld
            simp only [Bool.and_eq_true, Bool.not_eq_true'] at hreached
            exact ⟨hreached.1, hreached.2, fun old hold => by rw [hnone] at hold; cases hold⟩
          · rename_i old hold
            obtain rfl := Option.some.inj hheld
            simp only [Bool.and_eq_true, Bool.not_eq_true'] at hreached
            refine ⟨hreached.2.1, hreached.2.2, fun other hother => ?_⟩
            rw [hold] at hother
            rw [← Option.some.inj hother]
            exact hreached.1
        obtain ⟨hhandled, hdeliver, hbefore⟩ := hnow
        have hpower : ¬ (s = .phone ∧ c = keyPower) := by
          rintro ⟨rfl, rfl⟩
          cases hdeliver
        have heq := anyKey_eq_filterKey hpower run.session true timeMs nowMs
        rw [heq] at hhandled hdeliver
        obtain ⟨hclock, hkeys, hflag⟩ := reached_press hcode hhandled hdeliver
        obtain ⟨hunchanged, hblocked, -⟩ := clockKey_unhandled hclock
        obtain ⟨hevents, hblocks⟩ := filterKey_own run.session s c true nowMs
        rw [hunchanged] at hevents hblocks
        show ¬ (s = .phone ∧ c = keyPower) ∧
          (anyKey run.session s c true timeMs nowMs).2.power.keys s c = .delivered ∧
          (anyKey run.session s c true timeMs nowMs).2.clockBlockedKeys s c = false ∧
          (∀ slot, clockKeySlot s c = some slot →
            (anyKey run.session s c true timeMs nowMs).2.clockKeyEvents s slot = 0) ∧
          (c = cancelKey s → launchHeld (anyKey run.session s c true timeMs nowMs).2 s = false)
        rw [heq, hevents, hblocks]
        refine ⟨hpower, hkeys, hblocked hcode, fun slot hslot => ?_, hflag⟩
        by_contra howner
        obtain ⟨-, old, hold, -⟩ := h.owned s c slot hslot howner
        exact howner ((h.reached s c old hcode hold (hbefore old hold)).2.2.2.1 slot hslot)
    · have hheld' : run.held s c = some gesture := (if_neg hsame).symm.trans hheld
      obtain ⟨hpower, hkeys, hblocked, howners, hflag⟩ := h.reached s c gesture hcode hheld' hreached
      refine ⟨hpower, (hframe.keys s c hsame).trans hkeys, (hframe.blocked s c hsame).trans hblocked,
        fun slot hslot => (hframe.owners s c slot hsame hslot).trans (howners slot hslot), ?_⟩
      intro hcancel
      refine (hframe.launch s ?_).trans (hflag hcancel)
      rintro ⟨hs, hc⟩
      exact hsame ⟨hs, hcancel.trans hc⟩

theorem ok_cancelInput (h : Ok run) (source : KeySource) :
    Ok (perform run (.cancelInput source)) := by
  have hevents : ∀ s slot, (cancelInput run.session source).clockKeyEvents s slot =
      if s = source then 0 else run.session.clockKeyEvents s slot := by
    intro s slot
    cases source with
    | phone => rfl
    | keyboard => rfl
  have hblocks : ∀ s c, (cancelInput run.session source).clockBlockedKeys s c =
      if s = source then false else run.session.clockBlockedKeys s c := by
    intro s c
    cases source with
    | phone => rfl
    | keyboard => rfl
  have hkeys : ∀ s c, s ≠ source → (cancelInput run.session source).power.keys s c =
      run.session.power.keys s c := by
    intro s c hs
    cases source with
    | phone => exact if_neg hs
    | keyboard => exact if_neg hs
  have hflag : ∀ s, s ≠ source → launchHeld (cancelInput run.session source) s =
      launchHeld run.session s := by
    intro s hs
    cases source with
    | phone =>
      cases s with
      | phone => exact absurd rfl hs
      | keyboard => rfl
    | keyboard =>
      cases s with
      | phone => rfl
      | keyboard => exact absurd rfl hs
  refine ⟨?_, ?_⟩
  · intro s c slot hslot hne
    change (cancelInput run.session source).clockKeyEvents s slot ≠ 0 at hne
    show (cancelInput run.session source).clockBlockedKeys s c = false ∧
      ∃ gesture, (if s = source then none else run.held s c) = some gesture ∧
        eligible gesture.first = true ∧
          gesture.first.clock.active.id = (cancelInput run.session source).clockKeyEvents s slot
    rw [hevents] at hne ⊢
    rw [hblocks]
    by_cases hs : s = source
    · rw [if_pos hs] at hne
      exact absurd rfl hne
    · rw [if_neg hs] at hne
      rw [if_neg hs, if_neg hs, if_neg hs]
      exact h.owned s c slot hslot hne
  · intro s c gesture hcode hheld hreached
    change (if s = source then none else run.held s c) = some gesture at hheld
    by_cases hs : s = source
    · rw [if_pos hs] at hheld
      cases hheld
    · rw [if_neg hs] at hheld
      obtain ⟨hpower, hdelivered, hblocked, howners, hlaunch⟩ :=
        h.reached s c gesture hcode hheld hreached
      refine ⟨hpower, (hkeys s c hs).trans hdelivered, ?_, ?_,
        fun hcancel => (hflag s hs).trans (hlaunch hcancel)⟩
      · exact (hblocks s c).trans ((if_neg hs).trans hblocked)
      · intro slot hslot
        exact (hevents s slot).trans ((if_neg hs).trans (howners slot hslot))

theorem ok_perform (h : Ok run) {op : Op} (hallowed : op.Allowed)
    (hnot : ∀ source code, op.press = some (source, code) → ¬ RepeatTaken run source code) :
    Ok (perform run op) := by
  cases op with
  | key code pressed timeMs nowMs =>
    refine ok_keyed h .phone timeMs nowMs ?_
    rintro rfl
    exact hnot .phone code rfl
  | keyboardKey code pressed nowMs =>
    refine ok_keyed h .keyboard 0 nowMs ?_
    rintro rfl
    exact hnot .keyboard code rfl
  | cancelInput source => exact ok_cancelInput h source
  | power call nowMs =>
    refine ⟨h.owned, fun s c gesture hcode hheld hreached => ?_⟩
    obtain ⟨hpower, hkeys, hrest⟩ := h.reached s c gesture hcode hheld hreached
    refine ⟨hpower, ?_, hrest⟩
    have hother : ∀ pressed, call ≠ .key s c pressed := by
      rintro pressed rfl
      exact hallowed
    exact (Power.perform_keys_other (t := nowMs) hother).trans hkeys
  | clock call => exact ⟨h.owned, h.reached⟩
  | view view => exact ⟨h.owned, h.reached⟩

theorem ok_of_trace {l : List (Machine.Step Run Op)} (h : machine.Trace l run)
    (hrepeats : ∀ x ∈ l, ¬ TakenRepeat x) : Ok run := by
  refine h.invariant (P := fun _ run => Ok run) (K := fun x => ¬ TakenRepeat x) ?_ ?_ hrepeats
  · rintro run ⟨howners, -, -, -, -, hheld⟩
    refine ⟨fun source code slot _ hne => absurd (howners source slot) hne, ?_⟩
    intro source code gesture _ hsome
    rw [hheld] at hsome
    cases hsome
  · rintro l run op _ hold ⟨hallowed, rfl⟩ hnot
    exact ok_perform hold hallowed fun source code hpress htaken => hnot ⟨source, code, hpress, htaken⟩

/-! ### What the rings are given, and what the focus gets back -/

theorem firstPress_of_deliver (h : Ok run) (hnot : pressed = true → ¬ RepeatTaken run source code)
    (hdeliver : (clockKey run.session source code pressed nowMs).1.deliver = true) :
    eligible run.session = true ∧ ∃ first, firstPress run source code pressed = some first ∧
      eligible first = true ∧ first.clock.active.id = run.session.clock.active.id := by
  have hblock : (blockKey run.session source code pressed nowMs).1.deliver = false := by
    rw [blockKey]
    split
    · rfl
    · rfl
  -- an owned key goes back to its first press
  have howned : ∀ slot, clockKeySlot source code = some slot →
      run.session.clockKeyEvents source slot ≠ 0 →
      run.session.clockKeyEvents source slot = run.session.clock.active.id →
        ∃ first, firstPress run source code pressed = some first ∧ eligible first = true ∧
          first.clock.active.id = run.session.clock.active.id := by
    intro slot hslot hne hid
    obtain ⟨-, gesture, hheld, helig, hfirst⟩ := h.owned source code slot hslot hne
    exact ⟨gesture.first, by simp [firstPress, hheld], helig, hfirst.trans hid⟩
  rw [clockKey] at hdeliver
  split at hdeliver
  · cases hdeliver
  split at hdeliver
  · rw [hblock] at hdeliver
    cases hdeliver
  rename_i slot hslot
  simp only at hdeliver
  split at hdeliver
  · rename_i hrelease
    simp only [Bool.and_eq_true, beq_iff_eq] at hdeliver
    exact ⟨hdeliver.1, howned slot hslot hrelease.2 hdeliver.2⟩
  split at hdeliver
  · rename_i helig
    simp only [Bool.and_eq_true, beq_iff_eq] at hdeliver
    obtain ⟨rfl, hid⟩ := hdeliver
    refine ⟨helig, ?_⟩
    by_cases howner : run.session.clockKeyEvents source slot = 0
    · have hnone : run.held source code = none := by
        by_contra hheld
        exact hnot rfl ⟨hheld, slot, hslot, .inl ⟨howner, helig⟩⟩
      exact ⟨run.session, by simp [firstPress, hnone], helig, rfl⟩
    · rw [if_neg (by simp [howner])] at hid
      exact howned slot hslot howner hid
  · rw [hblock] at hdeliver
    cases hdeliver

theorem release_of_reached (h : Ok run) {gesture : Gesture} (hcode : code < keyCnt)
    (hheld : run.held source code = some gesture) (hreached : gesture.reached = true)
    (timeMs nowMs : ℕ) :
    (anyKey run.session source code false timeMs nowMs).1.deliver = true ↔
      ¬ ((clockKeySlot source code).isSome = true ∧ eligible run.session = true) := by
  obtain ⟨hpower, hkeys, hblocked, howners, hflag⟩ := h.reached source code gesture hcode hheld hreached
  rw [anyKey_eq_filterKey hpower]
  -- the launch keys do not come in between
  have hfilter : (filterKey run.session source code false nowMs).1 =
      (offerKey run.session source code false nowMs).1 := by
    rw [filterKey]
    simp only
    have hlaunch : ¬ (code = cancelKey source ∧
        launchHeld (offerKey run.session source code false nowMs).2 source = true) := by
      rintro ⟨hcancel, hheldFlag⟩
      have hsame : launchHeld (offerKey run.session source code false nowMs).2 source =
          launchHeld run.session source := by
        have hclock : launchHeld (clockKey run.session source code false nowMs).2 source =
            launchHeld run.session source := launchHeld_clockKey run.session source code false nowMs
        rw [offerKey]
        simp only
        split
        · exact hclock
        · exact hclock
      rw [hsame, hflag hcancel] at hheldFlag
      cases hheldFlag
    rw [if_neg hlaunch, if_neg (by simp)]
  have hfree : ¬ (code < keyCnt ∧ run.session.clockBlockedKeys source code = true) := by
    rintro ⟨-, hb⟩
    rw [hblocked] at hb
    cases hb
  rw [hfilter]
  by_cases hcovered : (clockKeySlot source code).isSome = true ∧ eligible run.session = true
  · -- the ring is not given the release, and nobody else is
    obtain ⟨slot, hslot⟩ := Option.isSome_iff_exists.mp hcovered.1
    have hclock : (clockKey run.session source code false nowMs).1 = ⟨true, false⟩ := by
      rw [clockKey, if_neg hfree]
      simp [hslot, howners slot hslot, hcovered.2]
    rw [offerKey]
    simp [hclock, hcovered]
  · have hclock : clockKey run.session source code false nowMs = (⟨false, false⟩, run.session) := by
      rw [clockKey, if_neg hfree]
      cases hslot : clockKeySlot source code with
      | none => simp [blockKey]
      | some slot =>
        have helig : eligible run.session = false := by
          by_contra hne
          exact hcovered ⟨by simp [hslot], by simpa using hne⟩
        simp [howners slot hslot, helig, blockKey]
    have hstate : Power.keyState run.session.power source code = .delivered := by
      rw [Power.keyState, if_pos hcode, hkeys]
    have hkey := (Power.key_release run.session.power source code nowMs).2.2 hstate
    rw [offerKey]
    simp [hclock, hkey, hcovered]

/-- **A ring owns its keys.**  In every run without repeats that change whose key
it is: what `clock_key` delivers was first pressed while the active ring covered a lit
display; and a key whose presses all reached the focus gets its release, except for a
soft key or an arrow released while a ring covers a lit display. -/
theorem ringOwned_of_trace {l : List (Machine.Step Run Op)} {run : Run} (h : machine.Trace l run)
    (hrepeats : ∀ x ∈ l, ¬ TakenRepeat x) :
    (∀ source code pressed nowMs, (pressed = true → ¬ RepeatTaken run source code) →
      (clockKey run.session source code pressed nowMs).1.deliver = true →
        eligible run.session = true ∧ ∃ first, firstPress run source code pressed = some first ∧
          eligible first = true ∧ first.clock.active.id = run.session.clock.active.id) ∧
      ∀ source code gesture timeMs nowMs, code < keyCnt → run.held source code = some gesture →
        gesture.reached = true →
          ((anyKey run.session source code false timeMs nowMs).1.deliver = true ↔
            ¬ ((clockKeySlot source code).isSome = true ∧ eligible run.session = true)) := by
  have hok := ok_of_trace h hrepeats
  constructor
  · intro source code pressed nowMs hnot hdeliver
    exact firstPress_of_deliver hok hnot hdeliver
  · intro source code gesture timeMs nowMs hcode hheld hreached
    exact release_of_reached hok hcode hheld hreached timeMs nowMs

/-! ### Runs with an alarm -/

/-- The launcher is framed and shown and has drawn the given event. -/
def shownView (clockDrawnEvent : ℕ) : View :=
  ⟨true, true, true, true, true, true, true, false, false, false, false, clockDrawnEvent, false⟩

/-- A lit and unlocked session without a ring. -/
def idle : Run where
  session :=
    { power := Power.init 30 (-1) 0
      clock := (Clock.init 1700000040 0).get rfl
      view := shownView 0
      clockKeyEvents := fun _ _ => 0
      clockBlockedKeys := fun _ _ => false
      launchRightHeld := false
      launchEscapeHeld := false }
  held := fun _ _ => none

theorem start_idle : machine.start idle :=
  ⟨fun _ _ => rfl, fun _ _ => rfl, rfl, rfl, fun _ _ => rfl, fun _ _ => rfl⟩

/-- The alarm is added, rings and is drawn. -/
def ring : List Op :=
  [.clock (.request Clock.dailyRequest), .clock (.tick 1700031600 1000), .view (shownView 1)]

/-- The left soft key is pressed while the alarm rings. -/
def ringThenPress : List Op := ring ++ [.key keyF13 true 1000 1000]

/-- The left soft key is pressed in the application before the alarm rings. -/
def pressThenRing : List Op := .key keyF13 true 1000 1000 :: ring

theorem trace_ops (ops : List Op) (hallowed : ∀ op ∈ ops, op.Allowed) :
    machine.Trace (Machine.steps perform idle ops) (ops.foldl perform idle) :=
  (Machine.Trace.start start_idle).steps ops fun _ op hop => ⟨hallowed op hop, rfl⟩

/-- The left soft key is pressed while the alarm rings: its release acts on it. -/
theorem ringOwned_snooze :
    (clockKey (ringThenPress.foldl perform idle).session .phone keyF13 false
        1100).1.deliver = true ∧
      ∃ first, firstPress (ringThenPress.foldl perform idle) .phone keyF13
        false = some first ∧ eligible first = true ∧ first.clock.active.id = 1 := by
  have htrace := trace_ops ringThenPress (by
    intro op hmem
    simp only [ringThenPress, ring, List.cons_append, List.nil_append, List.mem_cons, List.not_mem_nil,
      or_false] at hmem
    rcases hmem with rfl | rfl | rfl | rfl
    · trivial
    · trivial
    · trivial
    · trivial)
  have hdeliver : (clockKey (ringThenPress.foldl perform idle).session .phone
      keyF13 false 1100).1.deliver = true := rfl
  have howned := (ringOwned_of_trace htrace (by
    -- the only press is a first press
    intro x hmem htaken
    obtain ⟨source, code, hpress, hheld, -⟩ := htaken
    simp only [ringThenPress, ring, Machine.steps, List.cons_append, List.nil_append, List.mem_cons, List.not_mem_nil,
      or_false] at hmem
    rcases hmem with rfl | rfl | rfl | rfl
    · cases hpress
    · cases hpress
    · cases hpress
    · exact hheld rfl)).1 .phone keyF13 false 1100 (by simp) hdeliver
  obtain ⟨-, first, hfirst, helig, hid⟩ := howned
  exact ⟨hdeliver, first, hfirst, helig, hid⟩

/-- The left soft key is pressed in the application, then the alarm rings: the
release is swallowed although no ring owned or blocked the key. -/
theorem release_swallowed :
    ∃ l run gesture, machine.Trace l run ∧ (∀ x ∈ l, ¬ TakenRepeat x) ∧
      run.held .phone keyF13 = some gesture ∧ gesture.reached = true ∧
      clockDue gesture.first = false ∧
      (∀ x ∈ l, x.after.session.clockKeyEvents .phone 0 = 0 ∧
        x.after.session.clockBlockedKeys .phone keyF13 = false) ∧
      (key run.session keyF13 false 1100 1100).1.deliver = false := by
  have htrace := trace_ops pressThenRing (by
    intro op hmem
    simp only [pressThenRing, ring, List.mem_cons, List.not_mem_nil, or_false] at hmem
    rcases hmem with rfl | rfl | rfl | rfl
    · trivial
    · trivial
    · trivial
    · trivial)
  refine ⟨_, _, ⟨idle.session, true⟩, htrace, ?_, rfl, rfl, rfl, ?_, rfl⟩
  · intro x hmem htaken
    obtain ⟨source, code, hpress, hheld, -⟩ := htaken
    simp only [pressThenRing, ring, Machine.steps, List.mem_cons, List.not_mem_nil, or_false] at hmem
    rcases hmem with rfl | rfl | rfl | rfl
    · exact hheld rfl
    · cases hpress
    · cases hpress
    · cases hpress
  · intro x hmem
    simp only [pressThenRing, ring, Machine.steps, List.mem_cons, List.not_mem_nil, or_false] at hmem
    rcases hmem with rfl | rfl | rfl | rfl
    · exact ⟨rfl, rfl⟩
    · exact ⟨rfl, rfl⟩
    · exact ⟨rfl, rfl⟩
    · exact ⟨rfl, rfl⟩

end RingKeys

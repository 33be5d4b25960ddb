/-
One connection of the manager to the audio service, as the service sees it
(`fplinux-audio-protocol.h`, `session-audio.h`).

`Service.take` follows the events of a connection, the commands sent and the replies read,
and refuses what the protocol rules out: a second VOLUME before the first was acknowledged, a
process before the volume wanted was, AUDIBLE or GONE for a process that was not announced,
and anything after a reply that closed the connection.  A connection that it follows to its
end went in order.

Main results:
- `Sees.take`: what one event adds to what is known of the connection;
- `sees_of_follow`: what is known of a connection that was followed.
-/
import Mathlib.Data.List.Induction
import Fplinux.Lib.Run
import Fplinux.Session.Audio

namespace SessionAudio

open List (append_assoc append_nil filterMap_append mem_append mem_append_left mem_singleton)

/-- What happens on a connection: a command goes out, a reply is taken as the acknowledgement
of a volume while another may be wanted, or a reply closes the connection. -/
inductive Event
  | sent (command : Command)
  | acknowledged (level desired : ℕ) (text : List UInt8)
  | refused (text : List UInt8)
  deriving DecidableEq, Repr

/-- The process a command is about. -/
def Command.about : Command → Option ℤ
  | .app pid _ _ => some pid
  | .clock pid _ => some pid
  | .gone pid => some pid
  | .audible pid _ => some pid
  | .volume _ => none

/-- APP and CLOCK announce a process. -/
def Command.announces (pid : ℤ) : Command → Bool
  | .app p _ _ => p = pid
  | .clock p _ => p = pid
  | _ => false

/-- The levels of the VOLUME commands sent, and of those acknowledged. -/
def volumes (events : List Event) : List ℕ :=
  events.filterMap fun
    | .sent (.volume level) => some level
    | _ => none

def acknowledgements (events : List Event) : List ℕ :=
  events.filterMap fun
    | .acknowledged level _ _ => some level
    | _ => none

/-- What AUDIBLE said of a process. -/
def audibles (pid : ℤ) (events : List Event) : List Bool :=
  events.filterMap fun
    | .sent (.audible p audible) => if p = pid then some audible else none
    | _ => none

/-- The service's side: the VOLUME it did not acknowledge yet, whether it acknowledged the one
wanted, and its processes with what AUDIBLE last said of them. -/
structure Service where
  waiting : Option ℕ := none
  confirmed : Bool := false
  refused : Bool := false
  told : ℤ → Option (Command × Option Bool) := fun _ => none

namespace Service

/-- APP or CLOCK. -/
def announce (s : Service) (pid : ℤ) (command : Command) : Option Service :=
  if s.confirmed then
    some { s with told := Function.update s.told pid (some (command, none)) }
  else none

/-- One event, if the protocol allows it. -/
def take (s : Service) (event : Event) : Option Service :=
  if s.refused then none
  else
    match event with
    | .sent (.app pid uid appId) => s.announce pid (.app pid uid appId)
    | .sent (.clock pid uid) => s.announce pid (.clock pid uid)
    | .sent (.audible pid audible) =>
      match s.told pid with
      | some (command, _) =>
        if s.confirmed then
          some { s with told := Function.update s.told pid (some (command, some audible)) }
        else none
      | none => none
    | .sent (.gone pid) =>
      if (s.told pid).isSome then some { s with told := Function.update s.told pid none } else none
    | .sent (.volume level) =>
      if s.waiting = none then some { s with waiting := some level } else none
    | .acknowledged level desired text =>
      if s.waiting = some level ∧ text = volumeText level then
        some { s with waiting := none, confirmed := s.confirmed || decide (level = desired) }
      else none
    | .refused _ => some { s with refused := true }

/-- A whole connection, from its start. -/
def follow (events : List Event) (s : Service) : Option Service := Machine.runOps take events s

end Service

/-- A process was announced and did not leave, and `said` is what AUDIBLE last said of it
since. -/
def Announced (events : List Event) (pid : ℤ) (command : Command) (said : Option Bool) : Prop :=
  ∃ earlier later, events = earlier ++ .sent command :: later ∧ command.announces pid = true ∧
    (∀ c, .sent c ∈ later → c.about = some pid → ∃ audible, c = .audible pid audible) ∧
    (audibles pid later).getLast? = said

/-- What the service's side knows of the events so far. -/
structure Sees (events : List Event) (s : Service) : Prop where
  volumes : volumes events = acknowledgements events ++ s.waiting.toList
  confirmed : s.confirmed = true → ∃ level text, .acknowledged level level text ∈ events
  intact : s.refused = false → ∀ text, .refused text ∉ events
  told : ∀ pid command said, s.told pid = some (command, said) → Announced events pid command said

theorem about_of_announces {command : Command} {pid : ℤ} (h : command.announces pid = true) :
    command.about = some pid := by
  cases command with
  | app p uid appId => exact congrArg some (of_decide_eq_true h)
  | clock p uid => exact congrArg some (of_decide_eq_true h)
  | gone p => cases h
  | audible p audible => cases h
  | volume level => cases h

/-! ### Announced processes -/

section Announced

variable {events : List Event} {pid : ℤ} {command : Command} {said : Option Bool}

theorem announced_new (events : List Event) (h : command.announces pid = true) :
    Announced (events ++ [.sent command]) pid command none :=
  ⟨events, [], rfl, h, fun _ hc => absurd hc List.not_mem_nil, rfl⟩

theorem Announced.other (h : Announced events pid command said) {event : Event}
    (hother : ∀ c, event = .sent c → c.about ≠ some pid) :
    Announced (events ++ [event]) pid command said := by
  obtain ⟨earlier, later, rfl, hannounces, hlater, hsaid⟩ := h
  refine ⟨earlier, later ++ [event], by rw [append_assoc, List.cons_append], hannounces,
    ?_, ?_⟩
  · intro c hc habout
    rcases mem_append.mp hc with hc | hc
    · exact hlater c hc habout
    · exact absurd habout (hother c (mem_singleton.mp hc).symm)
  · have hnone : audibles pid [event] = [] := by
      cases event with
      | sent c =>
        cases c with
        | audible p audible =>
          have hne : p ≠ pid := fun hp => hother _ rfl (by rw [← hp]; rfl)
          simp [audibles, hne]
        | app p uid appId => rfl
        | clock p uid => rfl
        | gone p => rfl
        | volume level => rfl
      | acknowledged level desired text => rfl
      | refused text => rfl
    have happend : audibles pid (later ++ [event]) = audibles pid later ++ audibles pid [event] :=
      filterMap_append
    rw [happend, hnone, append_nil, hsaid]

theorem Announced.audible (h : Announced events pid command said) (audible : Bool) :
    Announced (events ++ [.sent (.audible pid audible)]) pid command (some audible) := by
  obtain ⟨earlier, later, rfl, hannounces, hlater, -⟩ := h
  refine ⟨earlier, later ++ [.sent (.audible pid audible)],
    by rw [append_assoc, List.cons_append], hannounces, ?_, ?_⟩
  · intro c hc habout
    rcases mem_append.mp hc with hc | hc
    · exact hlater c hc habout
    · exact ⟨audible, Event.sent.inj (mem_singleton.mp hc)⟩
  · have happend : audibles pid (later ++ [.sent (.audible pid audible)]) =
        audibles pid later ++ [audible] := by
      simp [audibles, filterMap_append]
    rw [happend, List.getLast?_concat]

end Announced

/-! ### What is seen -/

section Sees

variable {events : List Event} {s s' : Service}

theorem sees_nil : Sees [] {} where
  volumes := rfl
  confirmed h := absurd h Bool.false_ne_true
  intact _ _ := List.not_mem_nil
  told _ _ _ h := by cases h

variable {command : Command}

theorem Sees.sent (h : Sees events s) (hcommand : ∀ level, command ≠ .volume level)
    {told : ℤ → Option (Command × Option Bool)}
    (htold : ∀ pid c said, told pid = some (c, said) →
      Announced (events ++ [.sent command]) pid c said) :
    Sees (events ++ [.sent command]) { s with told := told } := by
  have hvolumes : SessionAudio.volumes [.sent command] = [] := by
    cases command with
    | volume level => exact absurd rfl (hcommand level)
    | app p uid appId => rfl
    | clock p uid => rfl
    | gone p => rfl
    | audible p audible => rfl
  refine ⟨?_, ?_, ?_, htold⟩
  · have hsent :
        SessionAudio.volumes (events ++ [.sent command]) = SessionAudio.volumes events := by
      rw [SessionAudio.volumes, filterMap_append]
      exact (congrArg _ hvolumes).trans (append_nil _)
    have hacks : acknowledgements (events ++ [.sent command]) = acknowledgements events := by
      rw [acknowledgements, filterMap_append]
      exact append_nil _
    rw [hsent, hacks]
    exact h.volumes
  · intro hconfirmed
    obtain ⟨level, text, hmem⟩ := h.confirmed hconfirmed
    exact ⟨level, text, mem_append_left _ hmem⟩
  · intro hrefused text hmem
    rcases mem_append.mp hmem with hmem | hmem
    · exact h.intact hrefused text hmem
    · cases mem_singleton.mp hmem

theorem Sees.others (h : Sees events s) {pid : ℤ} (habout : command.about = some pid)
    {entry : Option (Command × Option Bool)}
    (hown : ∀ c said, entry = some (c, said) → Announced (events ++ [.sent command]) pid c said) :
    ∀ q c said, Function.update s.told pid entry q = some (c, said) →
      Announced (events ++ [.sent command]) q c said := by
  intro q c said htold
  by_cases hq : q = pid
  · subst hq
    rw [Function.update_self] at htold
    exact hown c said htold
  · rw [Function.update_of_ne hq] at htold
    refine (h.told q c said htold).other fun c' hc' => ?_
    obtain rfl := Event.sent.inj hc'
    rw [habout]
    exact fun hsame => hq (Option.some.inj hsame).symm

theorem Sees.announce (h : Sees events s) {pid : ℤ} (hannounces : command.announces pid = true)
    (htake : s.announce pid command = some s') :
    Sees (events ++ [.sent command]) s' := by
  rw [Service.announce] at htake
  split at htake
  · obtain rfl := Option.some.inj htake
    refine h.sent ?_ (h.others (about_of_announces hannounces) fun c said hsaid => ?_)
    · rintro level rfl
      cases hannounces
    · cases hsaid
      exact announced_new events hannounces
  · cases htake

/-- **What one event adds.** -/
theorem Sees.take (h : Sees events s) {event : Event} (htake : s.take event = some s') :
    Sees (events ++ [event]) s' := by
  unfold Service.take at htake
  split at htake
  · cases htake
  · rename_i hintact
    cases event with
    | sent command =>
      cases command with
      | app pid uid appId => exact h.announce (decide_eq_true rfl) htake
      | clock pid uid => exact h.announce (decide_eq_true rfl) htake
      | audible pid audible =>
        simp only at htake
        split at htake
        · rename_i command said htold
          split at htake
          · obtain rfl := Option.some.inj htake
            refine h.sent (fun level hl => by cases hl) (h.others rfl fun c said' hsaid => ?_)
            cases hsaid
            exact (h.told pid command said htold).audible audible
          · cases htake
        · cases htake
      | gone pid =>
        simp only at htake
        split at htake
        · obtain rfl := Option.some.inj htake
          refine h.sent (fun level hl => by cases hl) (h.others rfl fun c said' hsaid => ?_)
          cases hsaid
        · cases htake
      | volume level =>
        simp only at htake
        split at htake
        · rename_i hnone
          obtain rfl := Option.some.inj htake
          have hvolumes := h.volumes
          rw [hnone, Option.toList_none, append_nil] at hvolumes
          refine ⟨?_, ?_, ?_, ?_⟩
          · simp only [SessionAudio.volumes, acknowledgements, filterMap_append] at hvolumes ⊢
            rw [hvolumes]
            simp
          · intro hconfirmed
            obtain ⟨level', text, hmem⟩ := h.confirmed hconfirmed
            exact ⟨level', text, mem_append_left _ hmem⟩
          · intro hrefused text hmem
            rcases mem_append.mp hmem with hmem | hmem
            · exact h.intact hrefused text hmem
            · cases mem_singleton.mp hmem
          · intro q c said htold
            refine (h.told q c said htold).other fun c' hc' => ?_
            obtain rfl := Event.sent.inj hc'
            exact fun habout => by cases habout
        · cases htake
    | acknowledged level desired text =>
      simp only at htake
      split at htake
      · rename_i hreply
        obtain rfl := Option.some.inj htake
        have hvolumes := h.volumes
        rw [hreply.1, Option.toList_some] at hvolumes
        refine ⟨?_, ?_, ?_, ?_⟩
        · simp only [SessionAudio.volumes, acknowledgements, filterMap_append] at hvolumes ⊢
          rw [hvolumes]
          simp
        · intro hconfirmed
          rcases Bool.or_eq_true_iff.mp hconfirmed with hbefore | hnow
          · obtain ⟨level', text', hmem⟩ := h.confirmed hbefore
            exact ⟨level', text', mem_append_left _ hmem⟩
          · obtain rfl := of_decide_eq_true hnow
            exact ⟨level, text, List.mem_append_right _ List.mem_cons_self⟩
        · intro hrefused text' hmem
          rcases mem_append.mp hmem with hmem | hmem
          · exact h.intact hrefused text' hmem
          · cases mem_singleton.mp hmem
        · intro q c said htold
          exact (h.told q c said htold).other fun c' hc' => by cases hc'
      · cases htake
    | refused text =>
      obtain rfl := Option.some.inj htake
      refine ⟨?_, ?_, ?_, ?_⟩
      · have hvolumes := h.volumes
        simp only [SessionAudio.volumes, acknowledgements, filterMap_append] at hvolumes ⊢
        rw [hvolumes]
        simp
      · intro hconfirmed
        obtain ⟨level, text', hmem⟩ := h.confirmed hconfirmed
        exact ⟨level, text', mem_append_left _ hmem⟩
      · intro hrefused
        cases hrefused
      · intro q c said htold
        exact (h.told q c said htold).other fun c' hc' => by cases hc'

theorem Sees.follow {more : List Event} : ∀ {events : List Event} {s : Service}, Sees events s →
    Service.follow more s = some s' → Sees (events ++ more) s' := by
  induction more with
  | nil =>
    intro events s h hfollow
    obtain rfl := Option.some.inj hfollow
    rwa [append_nil]
  | cons event more ih =>
    intro events s h hfollow
    obtain ⟨t, htake, hrest⟩ := Option.bind_eq_some_iff.mp hfollow
    have hmore := ih (h.take htake) hrest
    rwa [append_assoc, List.singleton_append] at hmore

/-- **What is known of a connection that was followed.** -/
theorem sees_of_follow (h : Service.follow events {} = some s) : Sees events s := by
  have hall := sees_nil.follow h
  rwa [List.nil_append] at hall

theorem follow_split {pre post : List Event} {event : Event}
    (h : Service.follow (pre ++ event :: post) {} = some s) :
    ∃ t t', Sees pre t ∧ t.take event = some t' := by
  obtain ⟨t, hpre, hrest⟩ := Machine.exists_of_runOps_append h
  obtain ⟨t', htake, -⟩ := Option.bind_eq_some_iff.mp hrest
  exact ⟨t, t', sees_of_follow hpre, htake⟩

end Sees

end SessionAudio

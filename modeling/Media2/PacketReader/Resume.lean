import Media2.PacketReader.Steps

/-!
# Leaving `paused`

A pause is over when the user sends the next `play`, `pause` or `reset`. The reading thread
sends a `play` of its own when it starts, which the table takes for the end of a pause if one
has come in the meantime.
-/

namespace Media2.PacketReader

open Execution

/-- What a user sends to end a pause. -/
def EndsPause (e : PlayerEvent) : Prop := e = .play ∨ e = .pause ∨ e = .reset

instance : DecidablePred EndsPause := fun _ => instDecidableOr

/-- Whether the reader has to be in `paused` after what happened: a pause was accepted in
`playing`, and no user has ended it. -/
def keepPause (pausing : Bool) : Happening → Bool
  | .event byReader e source _ =>
      (e = .pause && source = .playing) || (pausing && (byReader || !EndsPause e))
  | _ => pausing

def pausing (log : List Happening) : Bool := log.foldl keepPause false

/-- A pause is not lost, and the reading thread does not end it. -/
structure PauseKept (s : PacketReader) : Prop where
  stays : pausing s.log = true → s.state = .paused
  own : ∀ e target, Happening.event true e .paused target ∈ s.log → target = .paused

/-- The thread does not find the machine in `paused` when it sends its first event. -/
def StartsUnpaused (s : PacketReader) (l : Label) : Prop :=
  ∀ answer, s.Alive → l = .reader answer → s.threads = [.start] → s.unlocked = true →
    s.state ≠ .paused

theorem pausing_snoc (log : List Happening) (h : Happening) :
    pausing (log ++ [h]) = keepPause (pausing log) h :=
  List.foldl_append

/-- Only the events that end a pause have a transition from `paused`. -/
theorem endsPause_of_transition {e : PlayerEvent} {out : PlayerState × Option Action}
    (h : transition .paused e = some out) : EndsPause e := by
  cases e with
  | play => exact Or.inl rfl
  | pause => exact Or.inr (Or.inl rfl)
  | reset => exact Or.inr (Or.inr rfl)
  | _ => cases h

theorem transition_pause {out : PlayerState × Option Action}
    (h : transition .playing .pause = some out) : out.1 = .paused := by
  obtain rfl := Option.some.inj h
  rfl

theorem act_state (s : PacketReader) (action : Option Action) : (s.act action).state = s.state := by
  unfold act
  split <;> rfl

theorem act_log (s : PacketReader) (action : Option Action) : (s.act action).log = s.log := by
  unfold act
  split <;> rfl

section Steps

variable {s s' : PacketReader} {l : Label}

/-- The state and the record are all that matters. -/
theorem PauseKept.of_same (hs : PauseKept s) (hstate : s'.state = s.state)
    (hlog : s'.log = s.log) : PauseKept s' := by
  constructor
  · rw [hstate, hlog]
    exact hs.stays
  · rw [hlog]
    exact hs.own

theorem PauseKept.note (hs : PauseKept s) {h : Happening} (hstate : s'.state = s.state)
    (hlog : s'.log = s.log ++ [h]) (hquiet : ¬ h.IsEvent) : PauseKept s' := by
  cases h with
  | event => exact absurd trivial hquiet
  | _ =>
      constructor
      · rw [hstate, hlog, pausing_snoc]
        exact hs.stays
      · intro e target hmem
        rw [hlog] at hmem
        exact hs.own e target (by simpa using hmem)

/-- An accepted event keeps the pause, unless it is the reading thread's and ends one. -/
theorem PauseKept.enter (hs : PauseKept s) {byReader : Bool} {e : PlayerEvent}
    {target : PlayerState} {action : Option Action}
    (htransition : transition s.state e = some (target, action))
    (hown : byReader = true → s.state ≠ .paused) : PauseKept (s.enter byReader e target) := by
  constructor
  · intro hpausing
    rw [PacketReader.enter, pausing_snoc, keepPause, Bool.or_eq_true, Bool.and_eq_true,
      Bool.and_eq_true, decide_eq_true_iff, decide_eq_true_iff] at hpausing
    obtain ⟨rfl, hplaying⟩ | ⟨hbefore, hgoeson⟩ := hpausing
    · rw [hplaying] at htransition
      exact transition_pause htransition
    · have hpaused := hs.stays hbefore
      rw [hpaused] at htransition
      cases byReader with
      | true => exact absurd hpaused (hown rfl)
      | false => simp [endsPause_of_transition htransition] at hgoeson
  · intro e' target' hmem
    cases List.mem_append.mp hmem with
    | inl hold => exact hs.own e' target' hold
    | inr hnew =>
        obtain ⟨hreader, -, hpaused, -⟩ := Happening.event.inj (List.mem_singleton.mp hnew)
        exact absurd hpaused.symm (hown hreader.symm)

theorem PauseKept.send (hs : PauseKept s) (byReader : Bool) (e : PlayerEvent)
    (hown : byReader = true → s.state = .paused → transition .paused e = none) :
    PauseKept (s.send byReader e) := by
  rw [PacketReader.send]
  cases htransition : transition s.state e with
  | none => exact hs
  | some out =>
      obtain ⟨target, action⟩ := out
      apply (hs.enter htransition ?_).of_same (act_state _ action) (act_log _ action)
      intro hreader hpaused
      have hnone := hown hreader hpaused
      rw [← hpaused, htransition] at hnone
      cases hnone

theorem PauseKept.sendUser (hs : PauseKept s) (e : PlayerEvent) : PauseKept (s.send false e) :=
  hs.send false e (by simp)

theorem PauseKept.openFailed (hs : PauseKept s) : PauseKept s.openFailed :=
  (hs.sendUser _).of_same rfl rfl

theorem PauseKept.report (hs : PauseKept s) (o : Opened) : PauseKept (s.report o) := by
  have hevents : ∀ (events : List Event) (s : PacketReader), PauseKept s →
      PauseKept (events.foldl (fun s e => s.send false (.outcome e)) s) := by
    intro events
    induction events with
    | nil => exact fun _ hs => hs
    | cons e events ih => exact fun _ hs => ih _ (hs.sendUser _)
  rw [PacketReader.report]
  split
  · exact (hevents o.events s hs).of_same rfl rfl
  · exact (hevents o.events s hs).openFailed

theorem step_pauseKept (hs : PauseKept s) (hok : StartsUnpaused s l) (hstep : s.step l = some s') :
    PauseKept s' := by
  obtain ⟨halive, hsteps⟩ := step_cases hstep
  cases hsteps with
  | event e _ _ => exact hs.sendUser e.event
  | openInput answer _ _ =>
      cases answer with
      | none =>
          have hfreed : PauseKept { s with formatContext := none } := hs.of_same rfl rfl
          exact (hfreed.sendUser _).openFailed
      | some formatContext => exact hs.of_same rfl rfl
  | setUp libav found formatContext _ _ _ =>
      rw [setUp]
      cases found with
      | true =>
          have hfilled : PauseKept (s.filled formatContext (s.outcome libav true formatContext)) :=
            hs.of_same rfl rfl
          exact hfilled.report _
      | false => exact hs.of_same rfl rfl
  | joined caller _ _ =>
      have hemptied : PauseKept s.emptied := hs.of_same rfl rfl
      cases caller with
      | reset => exact hemptied
      | setupStreams o => exact hemptied.report o
      | destructor => exact hemptied.of_same rfl rfl
  | start answer hl hpc hunlocked =>
      have htest : PauseKept { s with threads := [.test] } := hs.of_same rfl rfl
      apply htest.send true .play
      intro _ hpaused
      exact absurd hpaused (hok answer halive hl hpc hunlocked)
  | eof _ _ =>
      have htest : PauseKept { s with threads := [.test] } := hs.of_same rfl rfl
      exact htest.send true .eof fun _ _ => rfl
  | goes answer t t' log _ _ hgoes =>
      cases hgoes with
      | turn => exact hs.note rfl rfl (by simp [Happening.IsEvent])
      | read => exact hs.note rfl rfl (by simp [Happening.IsEvent])
      | forwarded => exact hs.note rfl rfl (by simp [Happening.IsEvent])
      | _ => exact hs.of_same rfl (List.append_nil s.log)
  | process => exact hs.of_same rfl rfl
  | join => exact hs.of_same rfl rfl
  | destroy => exact hs.of_same rfl rfl
  | lockStreams => exact hs.of_same rfl rfl
  | dies => exact hs.of_same rfl rfl

/-- A `play` that the thread sends in `paused` is recorded. -/
theorem startsUnpaused_of_next (hnext : ∀ s', s.step l = some s' → PauseKept s') :
    StartsUnpaused s l := by
  rintro answer halive rfl hpc hunlocked hpaused
  have hstep : s.step (.reader answer) = some ({ s with threads := [.test] }.send true .play) := by
    simp only [step, halive, if_true, hpc, processPrivately, hunlocked]
  have hrecorded : Happening.event true .play .paused .playing ∈
      ({ s with threads := [.test] }.send true .play).log := by
    simp [send, hpaused, transition, act, PacketReader.enter]
  cases (hnext _ hstep).own _ _ hrecorded

end Steps

theorem create_pauseKept (filename : String) : PauseKept (create filename) := by
  constructor
  · intro hpausing
    cases hpausing
  · intro e target hmem
    have hlog : (create filename).log = [.event false .open .ready .opening] := rfl
    rw [hlog, List.mem_singleton] at hmem
    cases hmem

/-- In a run no pause is lost if and only if the machine is never in `paused` when a reading
thread sends the event it starts with. -/
theorem pauseKept_iff (filename : String) (labels : List Label) :
    Always step PauseKept (create filename) labels ↔
      Guarded step StartsUnpaused (create filename) labels := by
  apply always_iff_guarded (I := PauseKept) _ _ _ (create_pauseKept filename)
  · exact fun s l _ s' hs hok hstep => step_pauseKept hs hok hstep
  · exact fun s hs => hs
  · exact fun s l _ _ hnext => startsUnpaused_of_next hnext

/-- The user pauses before the thread has sent its first event. -/
def pauseAtStart : List Label :=
  [.openInput (some sampleContainer), .setUp (fun _ => Libav.sample) true, .sendEvent .play,
    .sendEvent .pause, .reader none]

/-- The thread takes the machine out of `paused` again. -/
theorem pause_lost :
    ∃ s, exec step (create "sample.mp4") pauseAtStart = some s ∧ pausing s.log = true ∧
      s.state = .playing ∧ ¬ PauseKept s := by
  refine ⟨_, rfl, rfl, rfl, fun h => ?_⟩
  cases h.stays rfl

end Media2.PacketReader

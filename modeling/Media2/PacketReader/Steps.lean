import Media2.PacketReader.Player

/-!
# The steps of the player

What an event, a step of the reading thread and a step of the whole reader can do, what is
left of an open that has ended, and in which state of the machine the source is opened and
closed.
-/

namespace Media2.PacketReader

open Execution

/-- What becomes of an event. -/
inductive Sends (s : PacketReader) (byReader : Bool) (e : PlayerEvent) : PacketReader → Prop
  | ignored (h : transition s.state e = none) : Sends s byReader e s
  | enters (target : PlayerState) (action : Option Action)
      (h : transition s.state e = some (target, action)) (hopening : target ≠ .opening)
      (hdone : target = .done → e = .eof) (hplaying : target = .playing → s.state = .paused) :
      Sends s byReader e (s.enter byReader e target)
  | opens (he : e = .open) (h : s.state = .ready ∨ s.state = .done) :
      Sends s byReader e { s.enter byReader e .opening with work := some .openFormat }
  | starts (he : e = .play) (h : s.state = .opened) :
      Sends s byReader e (s.enter byReader e .playing).startThread
  | resets (he : e = .reset) :
      Sends s byReader e { s.enter byReader e .done with work := some (.lock .reset) }

/-- The rows of the table. -/
theorem transition_cases {source target : PlayerState} {e : PlayerEvent} {action : Option Action}
    (h : transition source e = some (target, action)) :
    (e = .open ∧ (source = .ready ∨ source = .done) ∧ target = .opening ∧ action = some .sendOpen) ∨
    (e = .play ∧ source = .opened ∧ target = .playing ∧ action = some .startProcessing) ∨
    (e = .reset ∧ target = .done ∧ action = some .sendReset) ∨
    (target ≠ .opening ∧ (target = .done → e = .eof) ∧ (target = .playing → source = .paused) ∧
      ∀ s : PacketReader, s.act action = s) := by
  unfold transition at h
  split at h <;> cases h <;> simp [act]

theorem transition_opened {source : PlayerState} {e : PlayerEvent} {action : Option Action}
    (h : transition source e = some (.opened, action)) : e = .outcome .openSuccess := by
  unfold transition at h
  split at h <;> cases h
  rfl

theorem transition_done {target : PlayerState} {e : PlayerEvent} {action : Option Action}
    (h : transition .done e = some (target, action)) : e = .reset ∨ e = .open := by
  cases e with
  | reset => exact Or.inl rfl
  | «open» => exact Or.inr rfl
  | _ => cases h

theorem Request.event_ne (e : Request) : e.event ≠ .outcome .openSuccess := by
  cases e <;> simp [Request.event]

theorem send_cases (s : PacketReader) (byReader : Bool) (e : PlayerEvent) :
    Sends s byReader e (s.send byReader e) := by
  rw [send]
  cases htransition : transition s.state e with
  | none => exact Sends.ignored htransition
  | some out =>
      obtain ⟨target, action⟩ := out
      rcases transition_cases htransition with
        ⟨he, hfrom, rfl, rfl⟩ | ⟨he, hfrom, rfl, rfl⟩ | ⟨he, rfl, rfl⟩ |
          ⟨hopening, hdone, hplaying, hact⟩
      · exact Sends.opens he hfrom
      · exact Sends.starts he hfrom
      · exact Sends.resets he
      · dsimp only
        rw [hact]
        exact Sends.enters target action htransition hopening hdone hplaying

/-- The steps of the reading thread that send no event, with what they record. -/
inductive Goes (s : PacketReader) (answer : Option Packet) :
    Thread → Thread → List Happening → Prop
  | finish (h : s.state = .done) : Goes s answer .test .finished []
  | turn (h : s.state ≠ .done) : Goes s answer .test .testPaused [.turn s.state]
  | paused (h : s.state = .paused) : Goes s answer .testPaused .wait []
  | unpaused (h : s.state ≠ .paused) : Goes s answer .testPaused .read []
  | woken : Goes s answer .wait .read []
  | failed (hcontext : s.formatContext.isSome = true) (ha : answer = none) :
      Goes s answer .read .eof []
  | read (packet : Packet) (hcontext : s.formatContext.isSome = true)
      (ha : answer = some packet) : Goes s answer .read (.lock packet) [.read packet]
  | locked (packet : Packet) (h : s.streamsLocked = false) :
      Goes s answer (.lock packet) (.forward packet) []
  | dropped (packet : Packet) (h : forwardRead s.tables.streams packet = .ok none) :
      Goes s answer (.forward packet) .release []
  | forwarded (packet : Packet) (d : Delivery)
      (h : forwardRead s.tables.streams packet = .ok (some d)) :
      Goes s answer (.forward packet) .release [.forward d]
  | released : Goes s answer .release .test []

/-- The steps. -/
inductive Steps (s : PacketReader) (l : Label) : PacketReader → Prop
  | event (e : Request) (hunlocked : s.unlocked = true)
      (hfrom : (s.usable = true ∧ (l = .sendEvent e ∨ l = .process ∧ e = .play)) ∨
        (l = .callback e ∧ s.threads = [.release] ∧ (e = .play ∨ e = .pause))) :
      Steps s l (s.send false e.event)
  | process (hl : l = .process) (husable : s.usable = true) (hstate : s.state ≠ .opened) :
      Steps s l s.startThread
  | join (hall : s.allFinished = true) : Steps s l { s with threads := [] }
  | destroy (hwork : s.work = none) : Steps s l { s with work := some (.lock .destructor) }
  | openInput (answer : Option FormatContext) (hl : l = .openInput answer)
      (hwork : s.work = some .openFormat) : Steps s l (s.openFormat answer)
  | setUp (libav : Nat → Libav) (found : Bool) (formatContext : FormatContext)
      (hl : l = .setUp libav found) (hwork : s.work = some .setupStreams)
      (hcontext : s.formatContext = some formatContext) :
      Steps s l (s.setUp libav found formatContext)
  | lockStreams (caller : Caller) (hl : l = .lockStreams) (hwork : s.work = some (.lock caller)) :
      Steps s l { s with work := some (.join caller) }
  | joined (caller : Caller) (hwork : s.work = some (.join caller))
      (hall : s.allFinished = true) : Steps s l (s.closed caller)
  | start (answer : Option Packet) (hl : l = .reader answer) (hpc : s.threads = [.start])
      (hunlocked : s.unlocked = true) :
      Steps s l ({ s with threads := [.test] }.send true .play)
  | eof (hpc : s.threads = [.eof]) (hunlocked : s.unlocked = true) :
      Steps s l ({ s with threads := [.test] }.send true .eof)
  | goes (answer : Option Packet) (t t' : Thread) (log : List Happening)
      (hl : l = .reader answer) (hpc : s.threads = [t]) (hgoes : Goes s answer t t' log) :
      Steps s l { s with threads := [t'], log := s.log ++ log }
  | dies (d : Death) (hdies : (d = .nullContext ∧ s.threads = [.read] ∧ s.formatContext = none) ∨
        d = .noSuchStream) : Steps s l { s with death := some d }

section Inversion

variable {s s' : PacketReader}

theorem work_of_free (husable : s.usable = true) (hunlocked : s.unlocked = true) :
    s.work = none := by
  rw [unlocked] at hunlocked
  rw [usable] at husable
  split at hunlocked
  · assumption
  · rename_i hwork
    simp [hwork] at husable
  · rename_i hwork
    simp [hwork] at husable
  · cases hunlocked

theorem processPrivately_steps {t : Thread} {answer : Option Packet} (hpc : s.threads = [t])
    (h : s.processPrivately t answer = some s') : Steps s (.reader answer) s' := by
  have hgo : ∀ {t' : Thread}, Goes s answer t t' [] →
      Steps s (.reader answer) { s with threads := [t'] } := by
    intro t' hgoes
    have hsteps := Steps.goes answer t t' [] rfl hpc hgoes
    rw [List.append_nil] at hsteps
    exact hsteps
  cases t with
  | start =>
      simp only [processPrivately, Option.ite_none_right_eq_some] at h
      obtain ⟨hunlocked, heq⟩ := h
      obtain rfl := Option.some.inj heq
      exact Steps.start answer rfl hpc hunlocked
  | test =>
      simp only [processPrivately] at h
      obtain rfl := Option.some.inj h
      by_cases hstate : s.state = .done
      · rw [if_pos hstate]
        exact hgo (Goes.finish hstate)
      · rw [if_neg hstate]
        exact Steps.goes answer _ _ _ rfl hpc (Goes.turn hstate)
  | testPaused =>
      simp only [processPrivately] at h
      obtain rfl := Option.some.inj h
      by_cases hstate : s.state = .paused
      · rw [if_pos hstate]
        exact hgo (Goes.paused hstate)
      · rw [if_neg hstate]
        exact hgo (Goes.unpaused hstate)
  | wait =>
      simp only [processPrivately] at h
      obtain rfl := Option.some.inj h
      exact hgo Goes.woken
  | read =>
      simp only [processPrivately] at h
      by_cases hcontext : s.formatContext.isSome = true
      · rw [if_pos hcontext] at h
        cases answer with
        | none =>
            obtain rfl := Option.some.inj h
            exact hgo (Goes.failed hcontext rfl)
        | some packet =>
            obtain rfl := Option.some.inj h
            exact Steps.goes _ _ _ _ rfl hpc (Goes.read packet hcontext rfl)
      · rw [if_neg hcontext] at h
        obtain rfl := Option.some.inj h
        exact Steps.dies _ (Or.inl ⟨rfl, hpc, by simpa using hcontext⟩)
  | eof =>
      simp only [processPrivately, Option.ite_none_right_eq_some] at h
      obtain ⟨hunlocked, heq⟩ := h
      obtain rfl := Option.some.inj heq
      exact Steps.eof hpc hunlocked
  | lock packet =>
      simp only [processPrivately, Option.ite_none_left_eq_some] at h
      obtain ⟨hfree, heq⟩ := h
      obtain rfl := Option.some.inj heq
      exact hgo (Goes.locked packet (by simpa using hfree))
  | forward packet =>
      simp only [processPrivately] at h
      split at h
      · obtain rfl := Option.some.inj h
        exact Steps.dies _ (Or.inr rfl)
      · rename_i hforward
        obtain rfl := Option.some.inj h
        exact hgo (Goes.dropped packet hforward)
      · rename_i d hforward
        obtain rfl := Option.some.inj h
        exact Steps.goes _ _ _ _ rfl hpc (Goes.forwarded packet d hforward)
  | release =>
      simp only [processPrivately] at h
      obtain rfl := Option.some.inj h
      exact hgo Goes.released
  | finished => cases h

theorem step_cases {l : Label} (h : s.step l = some s') : s.Alive ∧ Steps s l s' := by
  unfold step at h
  rw [Option.ite_none_right_eq_some] at h
  obtain ⟨halive, h⟩ := h
  refine ⟨halive, ?_⟩
  cases l with
  | sendEvent e =>
      simp only [Option.ite_none_right_eq_some, Bool.and_eq_true] at h
      obtain ⟨⟨husable, hunlocked⟩, heq⟩ := h
      obtain rfl := Option.some.inj heq
      exact Steps.event e hunlocked (Or.inl ⟨husable, Or.inl rfl⟩)
  | callback e =>
      simp only [Option.ite_none_right_eq_some] at h
      obtain ⟨⟨hpc, hunlocked, he⟩, heq⟩ := h
      obtain rfl := Option.some.inj heq
      exact Steps.event e hunlocked (Or.inr ⟨rfl, hpc, he⟩)
  | process =>
      simp only [Option.ite_none_right_eq_some] at h
      obtain ⟨husable, h⟩ := h
      rw [process] at h
      split at h
      · rw [Option.ite_none_right_eq_some] at h
        obtain ⟨hunlocked, heq⟩ := h
        obtain rfl := Option.some.inj heq
        exact Steps.event .play hunlocked (Or.inl ⟨husable, Or.inr ⟨rfl, rfl⟩⟩)
      · rename_i hstate
        obtain rfl := Option.some.inj h
        exact Steps.process rfl husable hstate
  | join =>
      simp only [Option.ite_none_right_eq_some, Bool.and_eq_true] at h
      obtain ⟨⟨-, hall⟩, heq⟩ := h
      obtain rfl := Option.some.inj heq
      exact Steps.join hall
  | destroy =>
      simp only [Option.ite_none_right_eq_some, Bool.and_eq_true] at h
      obtain ⟨⟨husable, hunlocked⟩, heq⟩ := h
      obtain rfl := Option.some.inj heq
      exact Steps.destroy (work_of_free husable hunlocked)
  | openInput answer =>
      simp only [Option.ite_none_right_eq_some] at h
      obtain ⟨hwork, heq⟩ := h
      obtain rfl := Option.some.inj heq
      exact Steps.openInput answer rfl hwork
  | setUp libav found =>
      simp only at h
      split at h
      · rename_i formatContext hwork hcontext
        obtain rfl := Option.some.inj h
        exact Steps.setUp libav found formatContext rfl hwork hcontext
      · cases h
  | lockStreams =>
      simp only at h
      split at h
      · rename_i caller hwork
        split at h
        · cases h
        · obtain rfl := Option.some.inj h
          exact Steps.lockStreams caller rfl hwork
      · cases h
  | joined =>
      simp only at h
      split at h
      · rename_i caller hwork
        rw [Option.ite_none_right_eq_some] at h
        obtain ⟨hall, heq⟩ := h
        obtain rfl := Option.some.inj heq
        exact Steps.joined caller hwork hall
      · cases h
  | reader answer =>
      simp only at h
      split at h
      · rename_i t hpc
        exact processPrivately_steps hpc h
      · cases h

end Inversion

/-- The events among what is recorded. -/
def Happening.IsEvent : Happening → Prop
  | .event .. => True
  | _ => False

section Outcomes

variable {s s' : PacketReader} {byReader : Bool} {e : Event}

/-- Only the state of the machine and the record differ. -/
def Reported (s s' : PacketReader) : Prop :=
  ∃ state events, s' = { s with state := state, log := s.log ++ events } ∧
    ∀ h ∈ events, h.IsEvent

theorem Reported.refl (s : PacketReader) : Reported s s :=
  ⟨s.state, [], by rw [List.append_nil], fun _ h => absurd h List.not_mem_nil⟩

theorem Reported.trans {s'' : PacketReader} (h : Reported s s') (h' : Reported s' s'') :
    Reported s s'' := by
  obtain ⟨state, events, rfl, hevents⟩ := h
  obtain ⟨state', events', rfl, hevents'⟩ := h'
  refine ⟨state', events ++ events', by rw [List.append_assoc], ?_⟩
  exact List.forall_mem_append.mpr ⟨hevents, hevents'⟩

theorem Sends.reported (h : Sends s byReader (.outcome e) s') : Reported s s' := by
  cases h with
  | ignored h => exact Reported.refl s
  | enters target action h _ _ _ =>
      refine ⟨target, [.event byReader (.outcome e) s.state target], rfl, ?_⟩
      intro h hmem
      rw [List.mem_singleton.mp hmem]
      trivial
  | opens he => cases he
  | starts he => cases he
  | resets he => cases he

theorem foldl_reported (events : List Event) (s : PacketReader) :
    Reported s (events.foldl (fun s e => s.send false (.outcome e)) s) := by
  induction events generalizing s with
  | nil => exact Reported.refl s
  | cons e events ih => exact (send_cases s false (.outcome e)).reported.trans (ih _)

/-- The source is open, or could not be opened, and `open` is over. -/
def Ended (s s' : PacketReader) : Prop :=
  ∃ state events, s' = { s with
    state := state, log := s.log ++ events, work := none, constructed := true } ∧
    ∀ h ∈ events, h.IsEvent

theorem Reported.ended (h : Reported s s') :
    Ended s { s' with work := none, constructed := true } := by
  obtain ⟨state, events, rfl, hevents⟩ := h
  exact ⟨state, events, rfl, hevents⟩

theorem report_ended (s : PacketReader) (o : Opened) : Ended s (s.report o) := by
  have hevents := foldl_reported o.events s
  rw [report]
  split
  · exact hevents.ended
  · exact (hevents.trans (send_cases _ false _).reported).ended

theorem openFormat_none (s : PacketReader) :
    Ended { s with formatContext := none } (s.openFormat none) :=
  ((send_cases _ false _).reported.trans (send_cases _ false _).reported).ended

/-- Where an outcome takes the machine. -/
def afterOutcome : PlayerState → Event → PlayerState
  | .opening, .openSuccess => .opened
  | .opening, .openError _ => .failed
  | state, _ => state

theorem send_state (s : PacketReader) (e : Event) :
    (s.send false (.outcome e)).state = afterOutcome s.state e := by
  cases hstate : s.state <;> cases e <;> simp [send, transition, hstate, enter, act, afterOutcome]

theorem openFormat_none_state (hstate : s.state = .opening) :
    (s.openFormat none).state = .failed := by
  have hfirst : afterOutcome (afterOutcome s.state (.openError ("Error opening " ++ s.filename)))
      (.openError "") = .failed := by
    rw [hstate]
    rfl
  rw [openFormat, openFailed]
  exact ((send_state _ _).trans (congrArg (afterOutcome · _) (send_state _ _))).trans hfirst

theorem foldl_state (events : List Event) (s : PacketReader) :
    (events.foldl (fun s e => s.send false (.outcome e)) s).state =
      events.foldl afterOutcome s.state := by
  induction events generalizing s with
  | nil => rfl
  | cons e events ih => rw [List.foldl_cons, List.foldl_cons, ih, send_state]

/-- What `setupStreams` sends goes with what it returns. -/
theorem setupStreams_outcome (libav : Nat → Libav) (filename : String) (found : Bool)
    (formatContext : FormatContext) (tables : StreamTables) :
    (PacketReader.setupStreams libav filename found formatContext tables).events.foldl
        afterOutcome .opening =
      if (PacketReader.setupStreams libav filename found formatContext tables).foundStreams
        then .opened else .failed := by
  rw [PacketReader.setupStreams]
  dsimp only
  cases found with
  | false => rfl
  | true =>
      simp only [if_true, List.nil_append]
      split <;> rfl

/-- The machine is in `opened` if a stream was found, and has failed otherwise. -/
theorem report_state (hstate : s.state = .opening) (libav : Nat → Libav) (filename : String)
    (found : Bool) (formatContext : FormatContext) (tables : StreamTables) :
    (s.report (PacketReader.setupStreams libav filename found formatContext tables)).state =
      if (PacketReader.setupStreams libav filename found formatContext tables).foundStreams
        then .opened else .failed := by
  have hfold := setupStreams_outcome libav filename found formatContext tables
  rw [← hstate, ← foldl_state] at hfold
  rw [report]
  split
  · rename_i hfound
    rw [if_pos hfound] at hfold
    exact hfold
  · rename_i hfound
    rw [if_neg hfound] at hfold
    exact (send_state _ _).trans (by rw [hfold]; rfl)

end Outcomes

/-- The state that the machine is in while it waits for an action. -/
def Work.state : Work → Option PlayerState
  | .openFormat | .setupStreams | .lock (.setupStreams _) | .join (.setupStreams _) => some .opening
  | .lock .reset | .join .reset => some .done
  | .lock .destructor | .join .destructor => none

/-- A source is opened in `opening` and reset in `done`, and `close` is called by
`setupStreams` when it found no streams. -/
structure Working (s : PacketReader) : Prop where
  state : ∀ w state, s.work = some w → w.state = some state → s.state = state
  outcome : ∀ o, s.work = some (.lock (.setupStreams o)) ∨ s.work = some (.join (.setupStreams o)) →
    ∃ libav filename formatContext tables,
      o = PacketReader.setupStreams libav filename false formatContext tables

section Working

variable {s s' : PacketReader}

theorem Working.of_none (h : s.work = none) : Working s where
  state := by
    intro w state hw
    rw [h] at hw
    cases hw
  outcome := by
    intro o ho
    rw [h] at ho
    cases ho with
    | inl hlock => cases hlock
    | inr hjoin => cases hjoin

theorem Ended.working (h : Ended s s') : Working s' := by
  obtain ⟨state, events, rfl, -⟩ := h
  exact Working.of_none rfl

theorem work_of_unlocked (h : s.unlocked = true) : ∀ w, s.work = some w →
    w = .lock .destructor ∨ w = .join .destructor := by
  intro w hw
  rw [unlocked, hw] at h
  split at h
  · rename_i heq
    cases heq
  · rename_i heq
    exact Or.inl (Option.some.inj heq)
  · rename_i heq
    exact Or.inr (Option.some.inj heq)
  · cases h

/-- While the lock of the machine is free it may go to any state. -/
theorem Working.of_unlocked (h : s.unlocked = true) : Working s where
  state := by
    intro w state hw hstate
    rcases work_of_unlocked h w hw with rfl | rfl
    · cases hstate
    · cases hstate
  outcome := by
    rintro o (ho | ho)
    · rcases work_of_unlocked h _ ho with heq | heq <;> cases heq
    · rcases work_of_unlocked h _ ho with heq | heq <;> cases heq

theorem Sends.working {byReader : Bool} {e : PlayerEvent} (hs : Sends s byReader e s')
    (h : s.unlocked = true) : Working s' := by
  cases hs with
  | ignored => exact Working.of_unlocked h
  | enters target action _ _ _ _ => exact Working.of_unlocked h
  | opens he _ =>
      refine ⟨?_, by rintro o (ho | ho) <;> cases ho⟩
      intro w state hw hstate
      obtain rfl := Option.some.inj hw
      exact Option.some.inj hstate
  | starts he _ => exact Working.of_unlocked h
  | resets he =>
      refine ⟨?_, by rintro o (ho | ho) <;> cases ho⟩
      intro w state hw hstate
      obtain rfl := Option.some.inj hw
      exact Option.some.inj hstate

theorem step_working {l : Label} (hs : Working s) (h : s.step l = some s') : Working s' := by
  obtain ⟨-, hsteps⟩ := step_cases h
  cases hsteps with
  | event e hunlocked _ => exact (send_cases s false e.event).working hunlocked
  | process => exact ⟨hs.state, hs.outcome⟩
  | join => exact ⟨hs.state, hs.outcome⟩
  | destroy => exact Working.of_unlocked rfl
  | openInput answer hl hwork =>
      cases answer with
      | none => exact (openFormat_none s).working
      | some formatContext =>
          have hopening := hs.state _ _ hwork rfl
          refine ⟨?_, by rintro o (ho | ho) <;> cases ho⟩
          intro w state hw hstate
          obtain rfl := Option.some.inj hw
          exact hopening.trans (Option.some.inj hstate)
  | setUp libav found formatContext hl hwork _ =>
      rw [setUp]
      cases found with
      | true => exact (report_ended _ _).working
      | false =>
          have hopening := hs.state _ _ hwork rfl
          constructor
          · intro w state hw hstate
            obtain rfl := Option.some.inj hw
            exact hopening.trans (Option.some.inj hstate)
          · rintro o (ho | ho)
            · cases ho
              exact ⟨_, _, _, _, rfl⟩
            · cases ho
  | lockStreams caller hl hwork =>
      constructor
      · intro w state hw hstate
        obtain rfl := Option.some.inj hw
        apply hs.state _ state hwork
        cases caller <;> exact hstate
      · rintro o (ho | ho)
        · cases ho
        · cases ho
          exact hs.outcome o (Or.inl hwork)
  | joined caller hwork _ =>
      cases caller with
      | reset => exact Working.of_none rfl
      | setupStreams o => exact (report_ended _ _).working
      | destructor => exact Working.of_none rfl
  | start _ _ _ hunlocked => exact (send_cases _ true .play).working hunlocked
  | eof _ hunlocked => exact (send_cases _ true .eof).working hunlocked
  | goes => exact ⟨hs.state, hs.outcome⟩
  | dies => exact ⟨hs.state, hs.outcome⟩

end Working

/-- The constructor is opening the source. -/
theorem create_working (filename : String) : Working (create filename) :=
  (send_cases _ false .open).working rfl

end Media2.PacketReader

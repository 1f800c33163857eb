import Media2.PacketReader.Steps

/-!
# Pausing

The read loop tests for `paused` and waits on a condition variable. The predicate of the
wait is always true and its lock has no mutex, so that nothing is waited for: a turn of the
loop that begins in `paused` reads and forwards the next packet like any other. A wait that
only returned outside of `paused` would keep the thread silent.
-/

namespace Media2.PacketReader

open Execution

/-- Whether the reading thread has to be silent after what happened: its turn began in
`paused`, and no event has moved the machine out of it since. -/
def mute (muted : Bool) : Happening → Bool
  | .turn state => state = .paused
  | .event _ _ source target => muted && !(source = .paused && target != .paused)
  | .read _ | .forward _ => muted

def muted (log : List Happening) : Bool := log.foldl mute false

/-- No packet is read or forwarded where the reading thread has to be silent. -/
def Silent (s : PacketReader) : Prop :=
  ∀ pre h, pre ++ [h] <+: s.log → muted pre = true →
    (∀ packet, h ≠ .read packet) ∧ ∀ d, h ≠ .forward d

/-- The wait of the reading thread does not return while the machine is in `paused`. -/
def Awaited (s : PacketReader) (l : Label) : Prop :=
  s.Alive → (∃ answer, l = .reader answer) → s.threads = [.wait] → s.state ≠ .paused

theorem muted_snoc (log : List Happening) (h : Happening) : muted (log ++ [h]) = mute (muted log) h :=
  List.foldl_append

/-- Events do not silence the reading thread. -/
theorem muted_events {log events : List Happening} (hevents : ∀ h ∈ events, h.IsEvent)
    (hmuted : muted (log ++ events) = true) : muted log = true := by
  induction events using List.reverseRecOn with
  | nil => rwa [List.append_nil] at hmuted
  | append_singleton events h ih =>
      rw [← List.append_assoc, muted_snoc] at hmuted
      have hevent := hevents h (List.mem_append_right _ (List.mem_singleton_self h))
      apply ih fun h' hmem => hevents h' (List.mem_append_left _ hmem)
      cases h with
      | event byReader e source target => exact (Bool.and_eq_true_iff.mp hmuted).1
      | _ => cases hevent

/-- The reading thread is past the wait: it reads a packet, or has one that it has not
forwarded. -/
def reading : List Thread → Bool
  | [.read] | [.lock _] | [.forward _] => true
  | _ => false

/-- The reading thread has to be silent in `paused` only, and not past the wait. -/
structure Heard (s : PacketReader) : Prop where
  silent : Silent s
  paused : muted s.log = true → s.state = .paused
  loud : reading s.threads = true → muted s.log = false

/-- One more happening is no packet, or comes where packets may come. -/
theorem silent_snoc {s s' : PacketReader} {h : Happening} (hs : Silent s)
    (hlog : s'.log = s.log ++ [h])
    (hnew : muted s.log = true → (∀ packet, h ≠ .read packet) ∧ ∀ d, h ≠ .forward d) :
    Silent s' := by
  intro pre h' hpre hmuted
  rw [hlog] at hpre
  rcases List.prefix_concat_iff.mp hpre with heq | hpre
  · obtain ⟨rfl, hlast⟩ := List.append_inj' heq rfl
    rw [List.singleton_inj.mp hlast]
    exact hnew hmuted
  · exact hs pre h' hpre hmuted

theorem silent_events {s s' : PacketReader} {events : List Happening} (hs : Silent s)
    (hlog : s'.log = s.log ++ events) (hevents : ∀ h ∈ events, h.IsEvent) : Silent s' := by
  induction events using List.reverseRecOn generalizing s' with
  | nil =>
      rw [List.append_nil] at hlog
      rw [Silent, hlog]
      exact hs
  | append_singleton events h ih =>
      have hevent := hevents h (List.mem_append_right _ (List.mem_singleton_self h))
      have hrest : Silent { s' with log := s.log ++ events } :=
        ih rfl fun h' hmem => hevents h' (List.mem_append_left _ hmem)
      apply silent_snoc hrest (h := h)
      · rw [hlog, List.append_assoc]
      · intro _
        cases h with
        | event => exact ⟨fun _ => by simp, fun _ => by simp⟩
        | _ => cases hevent

/-- Only events were recorded, which leave no silence outside of `paused`, and the reading thread
did not come past the wait. -/
def Apart (s s' : PacketReader) : Prop :=
  (∃ events, s'.log = s.log ++ events ∧ ∀ h ∈ events, h.IsEvent) ∧
    (s.state = .paused → muted s'.log = true → s'.state = .paused) ∧
      (reading s'.threads = true → s'.threads = s.threads)

section Steps

variable {s s' : PacketReader} {l : Label}

theorem Heard.apart (hs : Heard s) (h : Apart s s') : Heard s' := by
  obtain ⟨⟨events, hlog, hevents⟩, hpaused, hthreads⟩ := h
  have hbefore : muted s'.log = true → muted s.log = true := fun hmuted =>
    muted_events hevents (hlog ▸ hmuted)
  refine ⟨silent_events hs.silent hlog hevents, ?_, ?_⟩
  · exact fun hmuted => hpaused (hs.paused (hbefore hmuted)) hmuted
  · intro hreading
    have hloud := hs.loud (hthreads hreading ▸ hreading)
    exact Bool.eq_false_iff.mpr fun hmuted => Bool.eq_false_iff.mp hloud (hbefore hmuted)

theorem Apart.of_log (h : s'.log = s.log) (hstate : s'.state = s.state)
    (hthreads : reading s'.threads = true → s'.threads = s.threads) : Apart s s' :=
  ⟨⟨[], by rw [h, List.append_nil], fun _ hmem => absurd hmem List.not_mem_nil⟩,
    fun hpaused _ => hstate.trans hpaused, hthreads⟩

theorem isEvent_singleton (byReader : Bool) (e : PlayerEvent) (source target : PlayerState) :
    ∀ h ∈ [Happening.event byReader e source target], h.IsEvent := by
  intro h hmem
  rw [List.mem_singleton.mp hmem]
  trivial

/-- The event that takes the machine out of `paused` ends the silence. -/
theorem enter_paused {byReader : Bool} {e : PlayerEvent} {target : PlayerState}
    (hpaused : s.state = .paused) (hmuted : muted (s.enter byReader e target).log = true) :
    target = .paused := by
  rw [enter, muted_snoc, mute, hpaused] at hmuted
  by_contra hleaves
  simp [hleaves] at hmuted

theorem enter_apart (s : PacketReader) (byReader : Bool) (e : PlayerEvent) (target : PlayerState) :
    Apart s (s.enter byReader e target) :=
  ⟨⟨_, rfl, isEvent_singleton _ _ _ _⟩, enter_paused, fun _ => rfl⟩

theorem reading_start (threads : List Thread) : reading (.start :: threads) = false := by
  cases threads <;> rfl

theorem Sends.apart {byReader : Bool} {e : PlayerEvent} (hs : Sends s byReader e s') :
    Apart s s' := by
  cases hs with
  | ignored => exact Apart.of_log rfl rfl fun _ => rfl
  | enters target => exact enter_apart s byReader e target
  | opens => exact enter_apart s byReader e .opening
  | starts =>
      obtain ⟨hlog, hpaused, -⟩ := enter_apart s byReader e .playing
      refine ⟨hlog, hpaused, fun hreading => ?_⟩
      cases (reading_start s.threads).symm.trans hreading
  | resets => exact enter_apart s byReader e .done

/-- An open that ends while the machine is in `paused` does not move it. -/
theorem Ended.apart (h : Ended s s') (hstate : s.state = .paused → s'.state = .paused) :
    Apart s s' := by
  obtain ⟨state, events, rfl, hevents⟩ := h
  exact ⟨⟨events, rfl, hevents⟩, fun hpaused _ => hstate hpaused, fun _ => rfl⟩

theorem foldl_afterOutcome_paused (events : List Event) :
    events.foldl afterOutcome .paused = .paused := by
  induction events with
  | nil => rfl
  | cons e events ih => exact ih

theorem report_paused (o : Opened) (hpaused : s.state = .paused) :
    (s.report o).state = .paused := by
  have hfold := foldl_state o.events s
  rw [hpaused, foldl_afterOutcome_paused] at hfold
  rw [report]
  split
  · exact hfold
  · exact (send_state _ _).trans (by rw [hfold]; rfl)

theorem openFormat_none_paused (hpaused : s.state = .paused) :
    (s.openFormat none).state = .paused := by
  rw [openFormat, openFailed]
  refine ((send_state _ _).trans (congrArg (afterOutcome · _) (send_state _ _))).trans ?_
  rw [hpaused]
  rfl

/-- The reading thread is not past the wait while it is elsewhere. -/
theorem Heard.threads (hs : Heard s) {threads : List Thread} (h : reading threads = false) :
    Heard { s with threads := threads } := by
  refine ⟨hs.silent, hs.paused, fun hreading => ?_⟩
  cases h.symm.trans hreading

/-- Outside of `paused` it may be past the wait. -/
theorem Heard.leaves (hs : Heard s) (hstate : s.state ≠ .paused) (threads : List Thread) :
    Heard { s with threads := threads } :=
  ⟨hs.silent, hs.paused, fun _ => Bool.eq_false_iff.mpr fun hmuted => hstate (hs.paused hmuted)⟩

/-- The reading thread's own steps. -/
theorem Heard.goes (hs : Heard s) {answer : Option Packet} {t t' : Thread} {log : List Happening}
    (hpc : s.threads = [t]) (h : Goes s answer t t' log)
    (hok : t = .wait → s.state ≠ .paused) :
    Heard { s with threads := [t'], log := s.log ++ log } := by
  have hloud : reading [t] = true → muted s.log = false := fun h => hs.loud (hpc ▸ h)
  cases h with
  | turn hstate =>
      refine ⟨silent_snoc hs.silent rfl fun _ => ⟨by simp, by simp⟩, ?_, ?_⟩
      · intro hmuted
        rw [muted_snoc] at hmuted
        exact of_decide_eq_true hmuted
      · intro hreading
        cases hreading
  | unpaused hstate =>
      rw [List.append_nil]
      exact hs.leaves hstate [.read]
  | woken =>
      rw [List.append_nil]
      exact hs.leaves (hok rfl) [.read]
  | read packet _ _ =>
      have hloud := hloud rfl
      refine ⟨silent_snoc hs.silent rfl fun hmuted => ?_, ?_, fun _ => ?_⟩
      · cases hloud.symm.trans hmuted
      · intro hmuted
        rw [muted_snoc] at hmuted
        exact hs.paused hmuted
      · rw [muted_snoc]
        exact hloud
  | locked packet _ =>
      rw [List.append_nil]
      exact ⟨hs.silent, hs.paused, fun _ => hloud rfl⟩
  | forwarded packet d _ =>
      have hloud := hloud rfl
      refine ⟨silent_snoc hs.silent rfl fun hmuted => ?_, ?_, ?_⟩
      · cases hloud.symm.trans hmuted
      · intro hmuted
        rw [muted_snoc] at hmuted
        exact hs.paused hmuted
      · intro hreading
        cases hreading
  | _ =>
      rw [List.append_nil]
      exact hs.threads rfl

theorem step_heard (hs : Heard s) (hok : Awaited s l) (hstep : s.step l = some s') : Heard s' := by
  obtain ⟨halive, hsteps⟩ := step_cases hstep
  cases hsteps with
  | event e _ _ => exact hs.apart (send_cases s false e.event).apart
  | process =>
      have hthreads : Heard { s with threads := .start :: s.threads } :=
        hs.threads (reading_start s.threads)
      exact ⟨hthreads.silent, hthreads.paused, hthreads.loud⟩
  | join => exact hs.threads rfl
  | destroy => exact hs.apart (Apart.of_log rfl rfl fun _ => rfl)
  | openInput answer _ _ =>
      cases answer with
      | none =>
          have hfreed : Heard { s with formatContext := none } := ⟨hs.silent, hs.paused, hs.loud⟩
          exact hfreed.apart ((openFormat_none s).apart openFormat_none_paused)
      | some formatContext => exact hs.apart (Apart.of_log rfl rfl fun _ => rfl)
  | setUp libav found formatContext _ _ _ =>
      rw [setUp]
      cases found with
      | true =>
          have hfilled : Heard (s.filled formatContext (s.outcome libav true formatContext)) :=
            ⟨hs.silent, hs.paused, hs.loud⟩
          rw [if_pos rfl]
          exact hfilled.apart ((report_ended _ _).apart (report_paused _))
      | false => exact hs.apart (Apart.of_log rfl rfl fun _ => rfl)
  | lockStreams => exact hs.apart (Apart.of_log rfl rfl fun _ => rfl)
  | joined caller _ _ =>
      have hemptied : Heard s.emptied := by
        have hnone : Heard { s with threads := [] } := hs.threads rfl
        exact ⟨hnone.silent, hnone.paused, hnone.loud⟩
      cases caller with
      | reset => exact hemptied
      | setupStreams o => exact hemptied.apart ((report_ended _ o).apart (report_paused o))
      | destructor => exact ⟨hemptied.silent, hemptied.paused, hemptied.loud⟩
  | start _ _ _ _ =>
      have htest : Heard { s with threads := [.test] } := hs.threads rfl
      exact htest.apart (send_cases _ true .play).apart
  | eof _ _ =>
      have htest : Heard { s with threads := [.test] } := hs.threads rfl
      exact htest.apart (send_cases _ true .eof).apart
  | goes answer t t' log hl hpc hgoes =>
      apply hs.goes hpc hgoes
      rintro rfl
      exact hok halive ⟨answer, hl⟩ hpc
  | dies => exact hs.apart (Apart.of_log rfl rfl fun _ => rfl)

end Steps

theorem create_heard (filename : String) : Heard (create filename) where
  silent := by
    have hnothing : Silent { create filename with log := [] } := by
      intro pre h hpre
      simp at hpre
    exact silent_events hnothing rfl (isEvent_singleton false .open .ready .opening)
  paused := by
    intro hmuted
    cases hmuted
  loud := by
    intro hreading
    cases hreading

/-- In a run in which the wait never returns while the machine is in `paused`, no packet is read
or forwarded in a turn that began in `paused`, before an event moved the machine out of it. -/
theorem silent_of_awaited (filename : String) (labels : List Label)
    (h : Guarded step Awaited (create filename) labels) :
    Always step Silent (create filename) labels := by
  have hheard : Always step Heard (create filename) labels :=
    always_of_step (fun _ _ _ _ hs hok hstep => step_heard hs hok hstep) (create_heard filename)
      fun pre l hpre u hu _ => h pre l hpre u hu
  exact fun pre hpre t ht => (hheard pre hpre t ht).silent

/-- Where the thread has to be silent when the wait returns, the next packet breaks the silence. -/
theorem not_silent_of_woken {s : PacketReader} (halive : s.Alive) (hpc : s.threads = [.wait])
    (hmuted : muted s.log = true) (hcontext : s.formatContext.isSome = true) (packet : Packet) :
    ∃ s', exec step s [.reader none, .reader (some packet)] = some s' ∧ ¬ Silent s' := by
  have hwoken : s.step (.reader none) = some { s with threads := [.read] } := by
    simp only [step, halive, if_true, hpc, processPrivately]
  have halive' : Alive { s with threads := [.read] } := halive
  have hread : step { s with threads := [.read] } (.reader (some packet)) = some { s with
      threads := [.lock packet], log := s.log ++ [Happening.read packet] } := by
    simp only [step, halive', if_true, processPrivately, if_pos hcontext]
  refine ⟨{ s with threads := [.lock packet], log := s.log ++ [.read packet] }, ?_, ?_⟩
  · rw [exec_cons, hwoken, Option.bind_some, exec_cons, hread]
    rfl
  · intro hsilent
    exact (hsilent s.log (.read packet) (List.prefix_refl _) hmuted).1 packet rfl

/-- The reader is paused before the first turn of its loop. -/
def pauseAtOnce : List Label :=
  [.openInput (some sampleContainer), .setUp (fun _ => Libav.sample) true, .sendEvent .play,
    .reader none, .sendEvent .pause]

/-- It is still paused when it has read a packet and forwarded it. -/
theorem reads_while_paused :
    ∃ s, exec step (create "sample.mp4") (pauseAtOnce ++ List.replicate 3 (.reader none) ++
        [.reader (some Packet.keyFrame), .reader none, .reader none]) = some s ∧
      s.state = .paused ∧ s.threads = [.release] ∧ ¬ Silent s := by
  refine ⟨_, rfl, rfl, rfl, fun h => ?_⟩
  have hread := (h _ (.read Packet.keyFrame) ⟨_, rfl⟩ rfl).1
  exact hread Packet.keyFrame rfl

/-- A turn that began in `paused` reads its packet after the reader was played again. -/
theorem silent_of_awaited_sample :
    Always step Silent (create "sample.mp4") (pauseAtOnce ++ [.reader none, .reader none,
      .sendEvent .play, .reader none, .reader (some Packet.keyFrame), .reader none,
      .reader none]) := by
  apply silent_of_awaited
  -- opening, the first turn up to its wait
  iterate 7 refine guarded_cons (fun _ _ h => by cases h) rfl ?_
  refine guarded_cons (fun _ hl => by rcases hl with ⟨_, hl⟩; cases hl) rfl ?_
  refine guarded_cons (fun _ _ _ => by decide) rfl ?_
  iterate 3 refine guarded_cons (fun _ _ h => by cases h) rfl ?_
  exact guarded_nil _ _

end Media2.PacketReader

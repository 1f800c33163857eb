import Media2.PacketReader.Steps

/-!
# Closing

`close` waits for the reading thread while it holds `streamMutex`, and a `reset` also holds
the lock of the machine. The reading thread takes the one for every packet and the other
for each event. It leaves its loop only when it has seen the machine in `done`, which the
destructor does not bring about.
-/

namespace Media2.PacketReader

open Execution

def Thread.waitsForStreams : Thread → Bool
  | .lock _ => true
  | _ => false

def Thread.waitsForMachine : Thread → Bool
  | .start | .eof => true
  | _ => false

/-- `close` waits for the reading thread, which waits for a lock that the closing thread
holds. -/
def Deadlocked (s : PacketReader) : Prop :=
  ∃ caller t, s.work = some (.join caller) ∧ s.threads = [t] ∧
    (t.waitsForStreams = true ∨ t.waitsForMachine = true ∧ s.unlocked = false)

/-- `close` does not take `streamMutex` while the reading thread waits for it, or for the
lock of the machine if the closing thread has that. And while `close` waits, no frame is
read, except that a call may fail at the end of the file if the lock of the machine is free,
and no thread is started. -/
structure InStep (s : PacketReader) (l : Label) : Prop where
  locks : ∀ caller t, s.Alive → l = .lockStreams → s.work = some (.lock caller) →
    s.threads = [t] → t.waitsForStreams = false ∧ (t.waitsForMachine = true → s.unlocked = true)
  reads : ∀ caller answer, s.Alive → l = .reader answer → s.work = some (.join caller) →
    s.threads = [.read] → s.formatContext.isSome = true → answer = none ∧ s.unlocked = true
  starts : ∀ caller, s.Alive → l = .process → s.usable = true → s.state ≠ .opened →
    s.work = some (.join caller) → s.threads ≠ []

section Steps

variable {s s' : PacketReader} {l : Label}

theorem not_deadlocked_of_work (h : ∀ caller, s.work ≠ some (.join caller)) : ¬ Deadlocked s := by
  rintro ⟨caller, t, hwork, -⟩
  exact h caller hwork

/-- The closing thread and the reading thread are as they were. -/
theorem not_deadlocked_of_same (h : ¬ Deadlocked s) (hwork : s'.work = s.work)
    (hthreads : s'.threads = s.threads) : ¬ Deadlocked s' := by
  rintro ⟨caller, t, hwork', hthreads', hwaits⟩
  rw [unlocked, hwork, ← unlocked] at hwaits
  exact h ⟨caller, t, hwork.symm.trans hwork', hthreads.symm.trans hthreads', hwaits⟩

theorem not_deadlocked_of_threads {t : Thread} (hthreads : s.threads = [t])
    (hstreams : t.waitsForStreams = false) (hmachine : t.waitsForMachine = false) :
    ¬ Deadlocked s := by
  rintro ⟨caller, t', -, hthreads', hwaits⟩
  obtain rfl : t = t' := List.singleton_inj.mp (hthreads.symm.trans hthreads')
  rw [hstreams, hmachine] at hwaits
  simp at hwaits

/-- An event is sent while the lock of the machine is free. -/
theorem Sends.not_deadlocked {byReader : Bool} {e : PlayerEvent} (hs : Sends s byReader e s')
    (hunlocked : s.unlocked = true) (h : ¬ Deadlocked s) : ¬ Deadlocked s' := by
  cases hs with
  | ignored => exact h
  | enters => exact not_deadlocked_of_same h rfl rfl
  | opens => exact not_deadlocked_of_work (by simp)
  | starts =>
      rintro ⟨caller, t, hwork, hthreads, hwaits⟩
      obtain rfl : Thread.start = t := (List.cons_eq_cons.mp hthreads).1
      rcases hwaits with hstreams | ⟨-, hlocked⟩
      · cases hstreams
      · have hstill : s.unlocked = false := hlocked
        rw [hunlocked] at hstill
        cases hstill
  | resets => exact not_deadlocked_of_work (by simp)

/-- Where the reading thread comes by itself. -/
theorem Goes.waits {answer : Option Packet} {t t' : Thread} {log : List Happening}
    (h : Goes s answer t t' log) :
    (t'.waitsForStreams = false ∧ t'.waitsForMachine = false) ∨
      (t = .read ∧ s.formatContext.isSome = true ∧ (answer = none → t' = .eof)) := by
  cases h with
  | failed hcontext _ => exact Or.inr ⟨rfl, hcontext, fun _ => rfl⟩
  | read packet hcontext ha =>
      refine Or.inr ⟨rfl, hcontext, fun hnone => ?_⟩
      rw [hnone] at ha
      cases ha
  | _ => exact Or.inl ⟨rfl, rfl⟩

theorem step_not_deadlocked (h : ¬ Deadlocked s) (hok : InStep s l) (hstep : s.step l = some s') :
    ¬ Deadlocked s' := by
  obtain ⟨halive, hsteps⟩ := step_cases hstep
  cases hsteps with
  | event e hunlocked _ => exact (send_cases s false e.event).not_deadlocked hunlocked h
  | process hl husable hstate =>
      rintro ⟨caller, t, hwork, hthreads, -⟩
      exact hok.starts caller halive hl husable hstate hwork (List.cons_eq_cons.mp hthreads).2
  | join =>
      rintro ⟨caller, t, -, hthreads, -⟩
      cases hthreads
  | destroy => exact not_deadlocked_of_work (by simp)
  | openInput answer _ _ =>
      cases answer with
      | none =>
          obtain ⟨state, events, heq, -⟩ := openFormat_none s
          rw [heq]
          exact not_deadlocked_of_work (by simp)
      | some formatContext => exact not_deadlocked_of_work (by simp [openFormat])
  | setUp libav found formatContext _ _ _ =>
      rw [setUp]
      cases found with
      | true =>
          obtain ⟨state, events, heq, -⟩ :=
            report_ended (s.filled formatContext (s.outcome libav true formatContext))
              (s.outcome libav true formatContext)
          rw [if_pos rfl, heq]
          exact not_deadlocked_of_work (by simp)
      | false => exact not_deadlocked_of_work (by simp)
  | lockStreams caller hl hwork =>
      rintro ⟨caller', t, hwork', hthreads, hwaits⟩
      obtain ⟨hstreams, hmachine⟩ := hok.locks caller t halive hl hwork hthreads
      rcases hwaits with hwaits | ⟨hwaits, hlocked⟩
      · rw [hstreams] at hwaits
        cases hwaits
      · have hstill := hmachine hwaits
        rw [unlocked, hwork] at hstill
        rw [unlocked] at hlocked
        cases caller <;> simp at hstill hlocked
  | joined caller _ _ =>
      cases caller with
      | reset => exact not_deadlocked_of_work (by simp [closed, emptied])
      | setupStreams o =>
          obtain ⟨state, events, heq, -⟩ := report_ended s.emptied o
          rw [closed, heq]
          exact not_deadlocked_of_work (by simp)
      | destructor => exact not_deadlocked_of_work (by simp [closed, emptied])
  | start _ _ hpc hunlocked =>
      exact (send_cases { s with threads := [.test] } true .play).not_deadlocked hunlocked
        (not_deadlocked_of_threads rfl rfl rfl)
  | eof hpc hunlocked =>
      exact (send_cases { s with threads := [.test] } true .eof).not_deadlocked hunlocked
        (not_deadlocked_of_threads rfl rfl rfl)
  | goes answer t t' log hl hpc hgoes =>
      rcases hgoes.waits with ⟨hstreams, hmachine⟩ | ⟨rfl, hcontext, hfails⟩
      · exact not_deadlocked_of_threads rfl hstreams hmachine
      · rintro ⟨caller, t, hwork, hthreads, hwaits⟩
        obtain ⟨hnone, hunlocked⟩ := hok.reads caller answer halive hl hwork hpc hcontext
        obtain rfl : t' = t := List.singleton_inj.mp hthreads
        rw [hfails hnone] at hwaits
        rcases hwaits with hwaits | ⟨-, hlocked⟩
        · cases hwaits
        · have hstill : s.unlocked = false := hlocked
          rw [hunlocked] at hstill
          cases hstill
  | dies => exact not_deadlocked_of_same h rfl rfl

/-- A step that the two threads ought not to take ends in a deadlock. -/
theorem inStep_of_next (hnext : ∀ s', s.step l = some s' → ¬ Deadlocked s') : InStep s l where
  locks := by
    rintro caller t halive rfl hwork hthreads
    have hlocks : t.holdsStreams = false →
        ¬ Deadlocked { s with work := some (.join caller) } := by
      intro hfree
      apply hnext
      simp only [step, halive, if_true, hwork, hthreads, List.any_cons, hfree, List.any_nil,
        Bool.or_false, Bool.false_eq_true, if_false]
    constructor
    · by_contra hwaits
      rw [Bool.not_eq_false] at hwaits
      apply hlocks _ ⟨caller, t, rfl, hthreads, Or.inl hwaits⟩
      cases t <;> first | rfl | cases hwaits
    · intro hwaits
      by_contra hlocked
      rw [Bool.not_eq_true] at hlocked
      apply hlocks _ ⟨caller, t, rfl, hthreads, Or.inr ⟨hwaits, ?_⟩⟩
      · cases t <;> first | rfl | cases hwaits
      · rw [unlocked, hwork] at hlocked
        cases caller
        · rfl
        · rfl
        · cases hlocked
  reads := by
    rintro caller answer halive rfl hwork hthreads hcontext
    have hreads : s.step (.reader answer) = s.processPrivately .read answer := by
      simp only [step, halive, if_true, hthreads]
    simp only [processPrivately, if_pos hcontext] at hreads
    cases answer with
    | some packet =>
        exact absurd ⟨caller, _, hwork, rfl, Or.inl rfl⟩ (hnext _ hreads)
    | none =>
        refine ⟨rfl, ?_⟩
        by_contra hlocked
        rw [Bool.not_eq_true] at hlocked
        exact hnext _ hreads ⟨caller, _, hwork, rfl, Or.inr ⟨rfl, hlocked⟩⟩
  starts := by
    rintro caller halive rfl husable hstate hwork hnil
    have hstarts : s.step .process = some s.startThread := by
      simp only [step, halive, if_true, husable, process, if_neg hstate]
    apply hnext _ hstarts
    refine ⟨caller, .start, hwork, by rw [startThread, hnil], Or.inr ⟨rfl, ?_⟩⟩
    by_contra hunlocked
    rw [Bool.not_eq_false] at hunlocked
    have hnone := work_of_free husable hunlocked
    rw [hwork] at hnone
    cases hnone

/-- A deadlock lasts until something else ends the process. -/
theorem Deadlocked.stays (h : Deadlocked s) (hstep : s.step l = some s') :
    Deadlocked s' ∨ s'.death = some .assignedJoinable := by
  obtain ⟨caller, t, hwork, hthreads, hwaits⟩ := h
  have hrunning : s.allFinished = false := by
    rw [allFinished, hthreads]
    cases t <;> first | rfl | simp [Thread.waitsForStreams, Thread.waitsForMachine] at hwaits
  have hlocked : ∀ {t' : Thread}, s.threads = [t'] → s.unlocked = true →
      t'.waitsForStreams = true := by
    intro t' hpc hunlocked
    obtain rfl : t = t' := List.singleton_inj.mp (hthreads.symm.trans hpc)
    simpa [hunlocked] using hwaits
  obtain ⟨-, hsteps⟩ := step_cases hstep
  cases hsteps with
  | event e hunlocked hfrom =>
      rcases hfrom with ⟨husable, -⟩ | ⟨-, hpc, -⟩
      · have hnone := work_of_free husable hunlocked
        rw [hwork] at hnone
        cases hnone
      · cases hlocked hpc hunlocked
  | process _ _ _ => exact Or.inr (by simp [startThread, hthreads])
  | join hall =>
      rw [hrunning] at hall
      cases hall
  | destroy hnone =>
      rw [hwork] at hnone
      cases hnone
  | openInput answer _ hopen =>
      rw [hwork] at hopen
      cases hopen
  | setUp libav found formatContext _ hset _ =>
      rw [hwork] at hset
      cases hset
  | lockStreams caller' _ hlock =>
      rw [hwork] at hlock
      cases hlock
  | joined caller' _ hall =>
      rw [hrunning] at hall
      cases hall
  | start _ _ hpc hunlocked => cases hlocked hpc hunlocked
  | eof hpc hunlocked => cases hlocked hpc hunlocked
  | goes answer t₁ t₂ log _ hpc hgoes =>
      obtain rfl : t = t₁ := List.singleton_inj.mp (hthreads.symm.trans hpc)
      have hstreams : s.streamsLocked = true := by rw [streamsLocked, hwork]
      cases hgoes with
      | locked packet hfree =>
          rw [hstreams] at hfree
          cases hfree
      | _ => simp [Thread.waitsForStreams, Thread.waitsForMachine] at hwaits
  | dies => exact Or.inl ⟨caller, t, hwork, hthreads, hwaits⟩

end Steps

/-- In a run closing does not deadlock with reading if and only if the two keep in step. -/
theorem not_deadlocked_iff (filename : String) (labels : List Label) :
    Always step (fun s => ¬ Deadlocked s) (create filename) labels ↔
      Guarded step InStep (create filename) labels := by
  apply always_iff_guarded (I := fun s => ¬ Deadlocked s)
  · exact fun s l _ s' hs hok hstep => step_not_deadlocked hs hok hstep
  · exact fun s hs => hs
  · exact fun s l _ _ hnext => inStep_of_next hnext
  · exact not_deadlocked_of_work (by simp [create, send, transition, act])

/-- The reader has just read a packet when it is closed. -/
def closeWhileReading (close : Label) : List Label :=
  [.openInput (some sampleContainer), .setUp (fun _ => Libav.sample) true, .sendEvent .play] ++
    List.replicate 3 (.reader none) ++ [.reader (some Packet.keyFrame), close, .lockStreams]

/-- A `reset` that is sent to a playing reader deadlocks, and so does its destructor. -/
theorem closing_deadlocks :
    (∃ s, exec step (create "sample.mp4") (closeWhileReading (.sendEvent .reset)) = some s ∧
      Deadlocked s) ∧
    ∃ s, exec step (create "sample.mp4") (closeWhileReading .destroy) = some s ∧ Deadlocked s :=
  ⟨⟨_, rfl, .reset, .lock Packet.keyFrame, rfl, rfl, Or.inl rfl⟩,
    ⟨_, rfl, .destructor, .lock Packet.keyFrame, rfl, rfl, Or.inl rfl⟩⟩

end Media2.PacketReader

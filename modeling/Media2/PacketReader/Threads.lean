import Media2.PacketReader.Steps

/-!
# The reading thread

Nothing ties the thread to the states of the machine: `process` starts one in any state but
`opened`, where it has the machine do so, and the source can be opened again while the
thread of the last run has not left its loop or was not joined.
-/

namespace Media2.PacketReader

open Execution

/-- No thread object is assigned while it is joinable, at most one thread runs, and no frame
is read with a null context. -/
structure Disciplined (s : PacketReader) : Prop where
  assigned : s.death ≠ some .assignedJoinable
  single : (s.threads.filter fun t => t ≠ .finished).length ≤ 1
  source : s.death ≠ some .nullContext

/-- `process`, and a `play` in `opened`, come when the last thread was joined, and `process`
outside `opened` while the source is open or in `done`. If the source was closed, it is opened
again when no thread runs, and when it cannot be opened no thread runs either. A thread that does
not read before the source is open again would do no harm, but is not told apart. -/
def Ordered (s : PacketReader) : Label → Prop
  | .sendEvent .play | .callback .play => s.state = .opened → s.threads = []
  | .process => s.threads = [] ∧
      (s.state ≠ .opened → s.formatContext.isSome = true ∨ s.state = .done)
  | .reader _ => s.threads = [.start] → s.state ≠ .opened
  | .sendEvent .open => transition s.state .open ≠ none →
      s.formatContext.isSome = true ∨ s.allFinished = true
  | .openInput none => s.allFinished = true
  | _ => True

/-- A thread that runs has a source to read from, or will see the machine in `done`. -/
structure Guarding (s : PacketReader) : Prop extends Working s where
  death : s.death = none ∨ s.death = some .noSuchStream
  single : s.threads.length ≤ 1
  running : ∀ t, s.threads = [t] → t ≠ .finished → s.formatContext.isSome = true ∨
    s.state = .done ∧ (t = .start ∨ t = .test)
  opened : s.state = .opened → s.destroyed = false → s.formatContext.isSome = true

theorem Guarding.disciplined {s : PacketReader} (h : Guarding s) : Disciplined s where
  assigned := by
    intro heq
    rcases h.death with hdeath | hdeath <;> rw [hdeath] at heq <;> cases heq
  single := (List.length_filter_le _ _).trans h.single
  source := by
    intro heq
    rcases h.death with hdeath | hdeath <;> rw [hdeath] at heq <;> cases heq

section Steps

variable {s s' : PacketReader} {l : Label}

/-- Threads that have all finished do not run. -/
theorem finished_of_all {t : Thread} (hall : s.allFinished = true) (hpc : s.threads = [t]) :
    t = .finished := by
  rw [allFinished, hpc] at hall
  simpa using hall

/-- Behind its first test a thread has a source to read from. -/
theorem Guarding.context (h : Guarding s) {t : Thread} (hpc : s.threads = [t])
    (hfinished : t ≠ .finished) (hstart : t ≠ .start) (htest : t ≠ .test) :
    s.formatContext.isSome = true := by
  rcases h.running t hpc hfinished with hcontext | ⟨-, heq | heq⟩
  · exact hcontext
  · exact absurd heq hstart
  · exact absurd heq htest

/-- An event is processed. What is asked is that no source is missed when one is opened, and
that no thread is there when one is started. -/
theorem Guarding.sends (h : Guarding s) {byReader : Bool} {e : PlayerEvent}
    (hworking : Working s') (hs : Sends s byReader e s') (halive : s.destroyed = false)
    (houtcome : e ≠ .outcome .openSuccess)
    (hopen : e = .open → transition s.state .open ≠ none →
      s.formatContext.isSome = true ∨ s.allFinished = true)
    (hplay : e = .play → s.state = .opened → s.threads = []) : Guarding s' := by
  cases hs with
  | ignored => exact h
  | enters target action htransition hopening hdone _ =>
      refine ⟨hworking, h.death, h.single, ?_, ?_⟩
      · intro t hpc hrunning
        rcases h.running t hpc hrunning with hcontext | ⟨hstate, -⟩
        · exact Or.inl hcontext
        · rw [hstate] at htransition
          rcases transition_done htransition with rfl | rfl
          · cases htransition
            cases hdone rfl
          · cases htransition
            exact absurd rfl hopening
      · rintro rfl _
        exact absurd (transition_opened htransition) houtcome
  | opens he hfrom =>
      refine ⟨hworking, h.death, h.single, ?_, fun hstate => by cases hstate⟩
      have haccepted : transition s.state .open ≠ none := by
        rcases hfrom with hstate | hstate <;> simp [hstate, transition]
      intro t hpc hrunning
      rcases hopen he haccepted with hcontext | hall
      · exact Or.inl hcontext
      · exact absurd (finished_of_all hall hpc) hrunning
  | starts he hstate =>
      have hnil : s.threads = [] := hplay he hstate
      refine ⟨hworking, ?_, ?_, ?_, fun hstate => by cases hstate⟩
      · simp only [startThread, enter, hnil, if_true]
        exact h.death
      · simp [startThread, enter, hnil]
      · intro t _ _
        exact Or.inl (h.opened hstate halive)
  | resets =>
      refine ⟨hworking, h.death, h.single, ?_, fun hstate => by cases hstate⟩
      intro t hpc hrunning
      rcases h.running t hpc hrunning with hcontext | ⟨-, hpc⟩
      · exact Or.inl hcontext
      · exact Or.inr ⟨rfl, hpc⟩

/-- How an open ended does not matter to the thread. -/
theorem Guarding.ended (h : Guarding s) (hs : Ended s s')
    (hopened : s'.state = .opened → s.formatContext.isSome = true)
    (hstate : s.state ≠ .done) : Guarding s' := by
  have hworking := hs.working
  obtain ⟨state, events, rfl, -⟩ := hs
  refine ⟨hworking, h.death, h.single, ?_, fun heq _ => hopened heq⟩
  intro t hpc hrunning
  rcases h.running t hpc hrunning with hcontext | ⟨hdone, -⟩
  · exact Or.inl hcontext
  · exact absurd hdone hstate

/-- The thread takes a step by itself. -/
theorem Guarding.goes (h : Guarding s) {answer : Option Packet} {t t' : Thread}
    {log : List Happening} (hpc : s.threads = [t]) (hgoes : Goes s answer t t' log) :
    Guarding { s with threads := [t'], log := s.log ++ log } := by
  refine ⟨⟨h.state, h.outcome⟩, h.death, Nat.le_refl 1, ?_, h.opened⟩
  intro t₂ hpc₂ hrunning
  obtain rfl : t' = t₂ := List.singleton_inj.mp hpc₂
  have hwas : t ≠ .finished := by
    rintro rfl
    cases hgoes
  rcases h.running t hpc hwas with hcontext | ⟨hdone, rfl | rfl⟩
  · exact Or.inl hcontext
  · cases hgoes
  · cases hgoes with
    | finish => exact absurd rfl hrunning
    | turn hstate => exact absurd hdone hstate

theorem step_guarding (h : Guarding s) (hok : Ordered s l) (hstep : s.step l = some s') :
    Guarding s' := by
  have hworking := step_working h.toWorking hstep
  obtain ⟨⟨-, halive⟩, hsteps⟩ := step_cases hstep
  cases hsteps with
  | event e _ hfrom =>
      apply h.sends hworking (send_cases s false e.event) halive e.event_ne
      · intro he
        obtain rfl : e = .open := by cases e <;> first | rfl | cases he
        rcases hfrom with ⟨-, rfl | ⟨-, he⟩⟩ | ⟨-, -, he⟩
        · exact hok
        · cases he
        · rcases he with he | he <;> cases he
      · intro he hstate
        obtain rfl : e = .play := by cases e <;> first | rfl | cases he
        rcases hfrom with ⟨-, rfl | ⟨rfl, -⟩⟩ | ⟨rfl, -⟩
        · exact hok hstate
        · exact hok.1
        · exact hok hstate
  | process hl _ hstate =>
      subst hl
      obtain ⟨hnil, hcontext⟩ := hok
      refine ⟨hworking, ?_, ?_, ?_, h.opened⟩
      · simp only [startThread, hnil, if_true]
        exact h.death
      · simp [startThread, hnil]
      · intro t hpc _
        rcases hcontext hstate with hcontext | hdone
        · exact Or.inl hcontext
        · refine Or.inr ⟨hdone, Or.inl ?_⟩
          exact (List.cons_eq_cons.mp hpc).1.symm
  | join =>
      refine ⟨hworking, h.death, Nat.zero_le 1, ?_, h.opened⟩
      intro t hpc
      cases hpc
  | destroy => exact ⟨hworking, h.death, h.single, h.running, h.opened⟩
  | openInput answer hl hwork =>
      have hopening := h.state _ _ hwork rfl
      subst hl
      cases answer with
      | none =>
          have hall : s.allFinished = true := hok
          have hstate := openFormat_none_state hopening
          have hfreed : Guarding { s with formatContext := none } := by
            refine ⟨⟨h.state, h.outcome⟩, h.death, h.single, ?_, ?_⟩
            · intro t hpc hrunning
              exact absurd (finished_of_all hall hpc) hrunning
            · intro heq
              exact absurd (hopening.symm.trans heq) (by simp)
          refine hfreed.ended (openFormat_none s) ?_ (by simp [hopening])
          intro heq
          rw [hstate] at heq
          cases heq
      | some formatContext =>
          exact ⟨hworking, h.death, h.single, fun _ _ _ => Or.inl rfl, fun _ _ => rfl⟩
  | setUp libav found formatContext hl hwork hcontext =>
      have hopening := h.state _ _ hwork rfl
      rw [setUp] at hworking ⊢
      cases found with
      | true =>
          have hfilled : Guarding (s.filled formatContext (s.outcome libav true formatContext)) :=
            ⟨⟨h.state, h.outcome⟩, h.death, h.single, h.running, h.opened⟩
          rw [if_pos rfl]
          refine hfilled.ended (report_ended _ _) ?_ (by simp [filled, hopening])
          exact fun _ => by simp [filled, hcontext]
      | false => exact ⟨hworking, h.death, h.single, h.running, h.opened⟩
  | lockStreams => exact ⟨hworking, h.death, h.single, h.running, h.opened⟩
  | joined caller hwork _ =>
      have hemptied : s.state ≠ .opened → Guarding s.emptied := by
        intro hstate
        refine ⟨Working.of_none rfl, h.death, Nat.zero_le 1, ?_, fun heq => absurd heq hstate⟩
        intro t hpc
        cases hpc
      cases caller with
      | reset =>
          have hdone := h.state _ _ hwork rfl
          exact hemptied (by simp [hdone])
      | setupStreams o =>
          have hopening := h.state _ _ hwork rfl
          obtain ⟨libav, filename, formatContext, tables, rfl⟩ := h.outcome o (Or.inr hwork)
          have hfailed := @report_state s.emptied hopening libav filename false formatContext tables
          have hended := report_ended s.emptied
            (PacketReader.setupStreams libav filename false formatContext tables)
          refine (hemptied (by simp [hopening])).ended hended ?_ (by simp [emptied, hopening])
          intro heq
          cases heq.symm.trans hfailed
      | destructor =>
          refine ⟨hworking, h.death, Nat.zero_le 1, ?_, fun _ heq => by cases heq⟩
          intro t hpc
          cases hpc
  | start answer hl hpc _ =>
      have hrun := h.running .start hpc (by simp)
      have htest : Guarding { s with threads := [.test] } := by
        refine ⟨⟨h.state, h.outcome⟩, h.death, Nat.le_refl 1, ?_, h.opened⟩
        intro t hpc' _
        obtain rfl : Thread.test = t := List.singleton_inj.mp hpc'
        exact hrun.imp id fun hdone => ⟨hdone.1, Or.inr rfl⟩
      subst hl
      refine htest.sends hworking (send_cases _ true .play) halive (by simp) (by simp) ?_
      exact fun _ hstate => absurd hstate (hok hpc)
  | eof hpc _ =>
      have hcontext := h.context hpc (by simp) (by simp) (by simp)
      have htest : Guarding { s with threads := [.test] } :=
        ⟨⟨h.state, h.outcome⟩, h.death, Nat.le_refl 1, fun _ _ _ => Or.inl hcontext, h.opened⟩
      exact htest.sends hworking (send_cases _ true .eof) halive (by simp) (by simp) (by simp)
  | goes answer t t' log _ hpc hgoes => exact h.goes hpc hgoes
  | dies d hdies =>
      rcases hdies with ⟨rfl, hpc, hnone⟩ | rfl
      · have hcontext := h.context hpc (by simp) (by simp) (by simp)
        rw [hnone] at hcontext
        cases hcontext
      · exact ⟨hworking, Or.inr rfl, h.single, h.running, h.opened⟩

end Steps

theorem create_guarding (filename : String) : Guarding (create filename) where
  toWorking := create_working filename
  death := Or.inl rfl
  single := Nat.zero_le 1
  running := by
    intro t hpc
    cases hpc
  opened := by
    intro hopened
    cases hopened

/-- In a run whose operations are ordered the thread is disciplined all along. -/
theorem disciplined_of_ordered (filename : String) (labels : List Label)
    (h : Guarded step Ordered (create filename) labels) :
    Always step Disciplined (create filename) labels := by
  intro pre hpre s hs
  have hguarding : Guarding s :=
    Guarded.invariant (fun _ _ _ hI hok hstep => step_guarding hI hok hstep)
      (create_guarding filename) (h.of_prefix hpre) hs
  exact hguarding.disciplined

/-- The source is opened and read to its end. -/
def playToEnd : List Label :=
  [.openInput (some sampleContainer), .setUp (fun _ => Libav.sample) true, .sendEvent .play] ++
    List.replicate 6 (.reader none)

/-- The source is opened again and played. -/
def playAgain : List Label :=
  [.sendEvent .open, .openInput (some sampleContainer), .setUp (fun _ => Libav.sample) true,
    .sendEvent .play]

/-- When the thread of the first run was not joined, the second one is assigned over it. And
`process` on a source that could not be opened starts a thread that reads from no source. -/
theorem undisciplined :
    (∃ s, exec step (create "sample.mp4") (playToEnd ++ playAgain) = some s ∧
      s.death = some .assignedJoinable ∧ ¬ Disciplined s) ∧
    ∃ s, exec step (create "sample.mp4")
        ([.openInput none, .process] ++ List.replicate 4 (.reader none)) = some s ∧
      s.death = some .nullContext ∧ ¬ Disciplined s :=
  ⟨⟨_, rfl, rfl, fun h => h.assigned rfl⟩, ⟨_, rfl, rfl, fun h => h.source rfl⟩⟩

/-- With a `join` before the second run the operations are ordered. -/
theorem disciplined_of_ordered_sample :
    Always step Disciplined (create "sample.mp4") (playToEnd ++ [.join] ++ playAgain) := by
  apply disciplined_of_ordered
  refine guarded_cons trivial rfl (guarded_cons trivial rfl (guarded_cons (fun _ => rfl) rfl ?_))
  -- the thread's turns
  refine guarded_cons (fun _ => by decide) rfl (guarded_cons (fun h => by cases h) rfl
    (guarded_cons (fun h => by cases h) rfl (guarded_cons (fun h => by cases h) rfl
      (guarded_cons (fun h => by cases h) rfl (guarded_cons (fun h => by cases h) rfl ?_)))))
  exact guarded_cons trivial rfl (guarded_cons (fun _ => Or.inl rfl) rfl (guarded_cons trivial rfl
    (guarded_cons trivial rfl (guarded_cons (fun _ => rfl) rfl (guarded_nil _ _)))))

end Media2.PacketReader

import Mathlib.Data.List.Forall2
import Media2.Foundation.Execution
import Media2.Transport

/-!
# The thread of a segment subscriber

`process` starts a thread that takes messages off the socket until it sees the flag that
`close` sets, and `join` waits for it. The flag is never cleared, and `process` assigns to the
thread whether or not it was joined.

## Implementation notes

`process`, `join` and the destructor are called by one thread, `close` by any. An exception
that leaves the handler, a frame that does not fit and an assignment to a thread that was not
joined end the process. The last three fields record what happened.
-/

namespace Media2

namespace ZmqSegmentSubscriber

/-- Where `processPrivately` stands; there is no thread before `process` and after `join`. -/
inductive Thread
  | absent
  | testFlag
  | wait
  | signal (received : Received)
  | exited
  deriving DecidableEq

/-- What the owner is in: `join`, or the `join` of the destructor. -/
inductive Owner
  | idle
  | joining
  | destroying
  | destroyed
  deriving DecidableEq

end ZmqSegmentSubscriber

open ZmqSegmentSubscriber

structure ZmqSegmentSubscriber where
  thread : Thread
  owner : Owner
  shutdownPlox : Bool
  socket : List Multipart
  ended : Bool
  arrived : List Multipart
  taken : List Multipart
  signalled : List Received

namespace ZmqSegmentSubscriber

open Execution

/-- `timeout` and `turn` are steps of the thread, `joined` is the return from `join`. -/
inductive Label
  | arrive (message : Multipart)
  | process
  | close
  | join
  | destroy
  | joined
  | timeout
  | turn (locals : Locals)

def start : ZmqSegmentSubscriber where
  thread := .absent
  owner := .idle
  shutdownPlox := false
  socket := []
  ended := false
  arrived := []
  taken := []
  signalled := []

/-- `process`: the old thread must not be joinable. -/
def process (s : ZmqSegmentSubscriber) : ZmqSegmentSubscriber :=
  if s.thread = .absent then { s with thread := .testFlag } else { s with ended := true }

/-- The next step of `processPrivately`, which takes a message if there is one. -/
def processPrivately (s : ZmqSegmentSubscriber) (locals : Locals) :
    Option ZmqSegmentSubscriber :=
  match s.thread with
  | .testFlag => some { s with thread := if s.shutdownPlox then .exited else .wait }
  | .wait =>
      match s.socket with
      | [] => none
      | message :: rest =>
          let s := { s with socket := rest, taken := s.taken ++ [message] }
          match handle locals message with
          | .ok received => some { s with thread := .signal received }
          | .error _ => some { s with ended := true }
  | .signal received =>
      some { s with thread := .testFlag, signalled := s.signalled ++ [received] }
  | .absent | .exited => none

/-- One step, as long as the process lives. -/
def step (s : ZmqSegmentSubscriber) (l : Label) : Option ZmqSegmentSubscriber :=
  if s.ended then none
  else
    match l with
    | .arrive message =>
        some { s with socket := s.socket ++ [message], arrived := s.arrived ++ [message] }
    | .process => if s.owner = .idle then some s.process else none
    | .close => some { s with shutdownPlox := true }
    | .join =>
        if s.owner = .idle then
          some (if s.thread = .absent then s else { s with owner := .joining })
        else none
    | .destroy =>
        if s.owner = .idle then
          some { s with
            shutdownPlox := true
            owner := if s.thread = .absent then .destroyed else .destroying }
        else none
    | .joined =>
        if s.thread = .exited then
          match s.owner with
          | .joining => some { s with thread := .absent, owner := .idle }
          | .destroying => some { s with thread := .absent, owner := .destroyed }
          | _ => none
        else none
    | .timeout => if s.thread = .wait then some { s with thread := .testFlag } else none
    | .turn locals => s.processPrivately locals

/-- What the thread has passed on, and what it is about to. -/
def Thread.holds : Thread → List Received
  | .signal received => [received]
  | _ => []

/-- Messages are taken in the order in which they arrive, each is passed on once, as the
handler read it, and an exited thread has seen the flag. -/
structure Lawful (s : ZmqSegmentSubscriber) : Prop where
  fifo : s.taken ++ s.socket = s.arrived
  passed : s.ended = false → List.Forall₂ (fun message received => ∃ locals,
    handle locals message = .ok received) s.taken (s.signalled ++ s.thread.holds)
  exited : s.thread = .exited → s.shutdownPlox = true
  destroyed : s.owner = .destroyed → s.thread = .absent ∧ s.shutdownPlox = true
  waiting : s.owner = .joining ∨ s.owner = .destroying → s.thread ≠ .absent
  closing : s.owner = .destroying → s.shutdownPlox = true

section Steps

variable {s s' : ZmqSegmentSubscriber}

theorem start_lawful : start.Lawful where
  fifo := rfl
  passed := fun _ => List.Forall₂.nil
  exited := by
    rintro ⟨⟩
  destroyed := by
    rintro ⟨⟩
  waiting := by
    rintro (h | h) <;> cases h
  closing := by
    rintro ⟨⟩

/-- What a step can do. -/
inductive Moves (s : ZmqSegmentSubscriber) : ZmqSegmentSubscriber → Prop
  | arrive (message : Multipart) : Moves s { s with
      socket := s.socket ++ [message], arrived := s.arrived ++ [message] }
  | process (howner : s.owner = .idle) (hthread : s.thread = .absent) :
      Moves s { s with thread := .testFlag }
  | terminate : Moves s { s with ended := true }
  | close : Moves s { s with shutdownPlox := true }
  | joinNone : Moves s s
  | join (hthread : s.thread ≠ .absent) : Moves s { s with owner := .joining }
  | destroy (owner : Owner) (howner : owner = .destroyed ∧ s.thread = .absent ∨
      owner = .destroying ∧ s.thread ≠ .absent) :
      Moves s { s with shutdownPlox := true, owner := owner }
  | joined (owner : Owner) (hthread : s.thread = .exited)
      (howner : owner = .idle ∨ owner = .destroyed) :
      Moves s { s with thread := .absent, owner := owner }
  | timeout (hthread : s.thread = .wait) : Moves s { s with thread := .testFlag }
  | exit (hthread : s.thread = .testFlag) (hflag : s.shutdownPlox = true) :
      Moves s { s with thread := .exited }
  | wait (hthread : s.thread = .testFlag) (hflag : s.shutdownPlox = false) :
      Moves s { s with thread := .wait }
  | take (message : Multipart) (rest : List Multipart) (locals : Locals) (received : Received)
      (hthread : s.thread = .wait) (hsocket : s.socket = message :: rest)
      (hok : handle locals message = .ok received) : Moves s { s with
        socket := rest, taken := s.taken ++ [message], thread := .signal received }
  | fail (message : Multipart) (rest : List Multipart) (hthread : s.thread = .wait)
      (hsocket : s.socket = message :: rest) : Moves s { s with
        socket := rest, taken := s.taken ++ [message], ended := true }
  | signal (received : Received) (hthread : s.thread = .signal received) : Moves s { s with
      thread := .testFlag, signalled := s.signalled ++ [received] }

theorem processPrivately_moves {locals : Locals} (h : s.processPrivately locals = some s') :
    Moves s s' := by
  unfold processPrivately at h
  cases hthread : s.thread with
  | testFlag =>
      simp only [hthread] at h
      obtain rfl := Option.some.inj h
      by_cases hflag : s.shutdownPlox = true
      · rw [if_pos hflag]
        exact Moves.exit hthread hflag
      · rw [if_neg hflag]
        exact Moves.wait hthread (Bool.eq_false_iff.mpr hflag)
  | wait =>
      simp only [hthread] at h
      cases hsocket : s.socket with
      | nil =>
          simp only [hsocket] at h
          cases h
      | cons message rest =>
          simp only [hsocket] at h
          cases hok : handle locals message with
          | ok received =>
              simp only [hok] at h
              obtain rfl := Option.some.inj h
              exact Moves.take message rest locals received hthread hsocket hok
          | error e =>
              simp only [hok] at h
              obtain rfl := Option.some.inj h
              rw [← hthread]
              exact Moves.fail message rest hthread hsocket
  | signal received =>
      simp only [hthread] at h
      obtain rfl := Option.some.inj h
      exact Moves.signal received hthread
  | absent =>
      simp only [hthread] at h
      cases h
  | exited =>
      simp only [hthread] at h
      cases h

theorem step_moves {l : Label} (h : s.step l = some s') : s.ended = false ∧ Moves s s' := by
  unfold step at h
  split at h
  · cases h
  · rename_i hended
    refine ⟨Bool.eq_false_iff.mpr hended, ?_⟩
    cases l with
    | arrive message =>
        obtain rfl := Option.some.inj h
        exact Moves.arrive message
    | process =>
        dsimp only at h
        split at h
        · rename_i howner
          obtain rfl := Option.some.inj h
          unfold process
          split
          · rename_i hthread
            exact Moves.process howner hthread
          · exact Moves.terminate
        · cases h
    | close =>
        obtain rfl := Option.some.inj h
        exact Moves.close
    | join =>
        dsimp only at h
        split at h
        · obtain rfl := Option.some.inj h
          split
          · exact Moves.joinNone
          · rename_i hthread
            exact Moves.join hthread
        · cases h
    | destroy =>
        dsimp only at h
        split at h
        · obtain rfl := Option.some.inj h
          apply Moves.destroy
          split
          · exact Or.inl ⟨rfl, ‹_›⟩
          · exact Or.inr ⟨rfl, ‹_›⟩
        · cases h
    | joined =>
        dsimp only at h
        split at h
        · rename_i hthread
          split at h
          · obtain rfl := Option.some.inj h
            exact Moves.joined .idle hthread (Or.inl rfl)
          · obtain rfl := Option.some.inj h
            exact Moves.joined .destroyed hthread (Or.inr rfl)
          · cases h
        · cases h
    | timeout =>
        dsimp only at h
        split at h
        · rename_i hthread
          obtain rfl := Option.some.inj h
          exact Moves.timeout hthread
        · cases h
    | turn locals => exact processPrivately_moves h

/-- As long as there is a thread the owner has not destroyed the object. -/
theorem Lawful.present (h : s.Lawful) (hthread : s.thread ≠ .absent) : s.owner ≠ .destroyed :=
  fun howner => hthread (h.destroyed howner).1

theorem moves_lawful (h : s.Lawful) (hlive : s.ended = false) (hmoves : Moves s s') :
    s'.Lawful := by
  have hpassed := h.passed hlive
  have hpresent := h.present
  cases hmoves with
  | arrive message =>
      refine ⟨?_, h.passed, h.exited, h.destroyed, h.waiting, h.closing⟩
      rw [← List.append_assoc, h.fifo]
  | process howner hthread =>
      rw [hthread] at hpassed
      refine ⟨h.fifo, fun _ => hpassed, by rintro ⟨⟩, ?_, by rintro - ⟨⟩, h.closing⟩
      intro heq
      cases howner.symm.trans heq
  | terminate => exact ⟨h.fifo, by rintro ⟨⟩, h.exited, h.destroyed, h.waiting, h.closing⟩
  | close =>
      exact ⟨h.fifo, h.passed, fun _ => rfl, fun heq => ⟨(h.destroyed heq).1, rfl⟩, h.waiting,
        fun _ => rfl⟩
  | joinNone => exact h
  | join hthread =>
      exact ⟨h.fifo, h.passed, h.exited, by rintro ⟨⟩, fun _ => hthread, by rintro ⟨⟩⟩
  | destroy owner howner =>
      refine ⟨h.fifo, h.passed, fun _ => rfl, ?_, ?_, fun _ => rfl⟩
      · intro heq
        rcases howner with ⟨-, hthread⟩ | ⟨rfl, -⟩
        · exact ⟨hthread, rfl⟩
        · cases heq
      · intro heq
        rcases howner with ⟨rfl, -⟩ | ⟨-, hthread⟩
        · rcases heq with heq | heq <;> cases heq
        · exact hthread
  | joined owner hthread howner =>
      rw [hthread] at hpassed
      refine ⟨h.fifo, fun _ => hpassed, by rintro ⟨⟩, fun _ => ⟨rfl, h.exited hthread⟩, ?_, ?_⟩
      · rintro heq -
        rcases howner with rfl | rfl
        · rcases heq with heq | heq <;> cases heq
        · rcases heq with heq | heq <;> cases heq
      · exact fun _ => h.exited hthread
  | timeout hthread =>
      rw [hthread] at hpassed hpresent
      exact ⟨h.fifo, fun _ => hpassed, by rintro ⟨⟩, fun heq => absurd heq (hpresent (by rintro ⟨⟩)),
        by rintro - ⟨⟩, h.closing⟩
  | exit hthread hflag =>
      rw [hthread] at hpassed hpresent
      exact ⟨h.fifo, fun _ => hpassed, fun _ => hflag,
        fun heq => absurd heq (hpresent (by rintro ⟨⟩)), by rintro - ⟨⟩, h.closing⟩
  | wait hthread hflag =>
      rw [hthread] at hpassed hpresent
      exact ⟨h.fifo, fun _ => hpassed, by rintro ⟨⟩, fun heq => absurd heq (hpresent (by rintro ⟨⟩)),
        by rintro - ⟨⟩, h.closing⟩
  | take message rest locals received hthread hsocket hok =>
      rw [hthread] at hpassed hpresent
      refine ⟨?_, fun _ => ?_, by rintro ⟨⟩, fun heq => absurd heq (hpresent (by rintro ⟨⟩)),
        by rintro - ⟨⟩, h.closing⟩
      · rw [List.append_assoc, List.singleton_append, ← hsocket]
        exact h.fifo
      · rw [Thread.holds.eq_def] at hpassed
        rw [List.append_nil] at hpassed
        exact List.rel_append hpassed (List.Forall₂.cons ⟨locals, hok⟩ List.Forall₂.nil)
  | fail message rest hthread hsocket =>
      refine ⟨?_, by rintro ⟨⟩, h.exited, h.destroyed, h.waiting, h.closing⟩
      rw [List.append_assoc, List.singleton_append, ← hsocket]
      exact h.fifo
  | signal received hthread =>
      rw [hthread] at hpassed hpresent
      refine ⟨h.fifo, fun _ => ?_, by rintro ⟨⟩, fun heq => absurd heq (hpresent (by rintro ⟨⟩)),
        by rintro - ⟨⟩, h.closing⟩
      rw [Thread.holds.eq_def, List.append_nil]
      exact hpassed

theorem step_lawful {l : Label} (h : s.Lawful) (hstep : step s l = some s') : s'.Lawful := by
  obtain ⟨hlive, hmoves⟩ := step_moves hstep
  exact moves_lawful h hlive hmoves

/-- Nothing more is taken, or the one message that the thread was waiting for. -/
def Stopped (s s' : ZmqSegmentSubscriber) : Prop :=
  s'.shutdownPlox = true ∧
    (s'.taken = s.taken ∧ (s'.thread = .wait → s.thread = .wait) ∨
      s.thread = .wait ∧ (s'.ended = false → s'.thread ≠ .wait) ∧
        ∃ message, s'.taken = s.taken ++ [message])

/-- A step that takes nothing and does not make the thread wait. -/
theorem Stopped.quiet {t : ZmqSegmentSubscriber} (h : Stopped s t) (hlive : t.ended = false)
    (hflag : s'.shutdownPlox = true) (htaken : s'.taken = t.taken)
    (hwait : s'.thread = .wait → t.thread = .wait) : Stopped s s' := by
  refine ⟨hflag, ?_⟩
  rw [htaken]
  rcases h.2 with ⟨hsame, hold⟩ | ⟨hwas, hnot, hone⟩
  · exact Or.inl ⟨hsame, fun hs => hold (hwait hs)⟩
  · exact Or.inr ⟨hwas, fun _ hs => hnot hlive (hwait hs), hone⟩

theorem moves_stopped {t : ZmqSegmentSubscriber} (h : Stopped s t) (hlive : t.ended = false)
    (hmoves : Moves t s') : Stopped s s' := by
  have htake : ∀ message, t.thread = .wait → ∀ u : ZmqSegmentSubscriber,
      u.shutdownPlox = true → u.taken = t.taken ++ [message] →
        (u.ended = false → u.thread ≠ .wait) → Stopped s u := by
    intro message hthread u hflag htaken hu
    rcases h.2 with ⟨hsame, hold⟩ | ⟨-, hnot, -⟩
    · exact ⟨hflag, Or.inr ⟨hold hthread, hu, message, hsame ▸ htaken⟩⟩
    · exact absurd hthread (hnot hlive)
  cases hmoves with
  | arrive | terminate | joinNone | join => exact h.quiet hlive h.1 rfl id
  | close | destroy => exact h.quiet hlive rfl rfl id
  | process | joined | timeout | exit | signal => exact h.quiet hlive h.1 rfl (by rintro ⟨⟩)
  | wait hthread hflag => cases h.1.symm.trans hflag
  | take message rest locals received hthread hsocket hok =>
      exact htake message hthread _ h.1 rfl fun _ => by rintro ⟨⟩
  | fail message rest hthread hsocket => exact htake message hthread _ h.1 rfl (by rintro ⟨⟩)

theorem stopped_of_exec {labels : List Label} (hflag : s.shutdownPlox = true)
    (hexec : exec step s labels = some s') : Stopped s s' := by
  induction labels using List.reverseRecOn generalizing s' with
  | nil =>
      obtain rfl := Option.some.inj hexec
      exact ⟨hflag, Or.inl ⟨rfl, id⟩⟩
  | append_singleton labels l ih =>
      obtain ⟨t, ht, hstep⟩ := exec_snoc_eq_some _ hexec
      obtain ⟨hlive, hmoves⟩ := step_moves hstep
      exact moves_stopped (ih ht) hlive hmoves

/-- The steps that are left to the thread and to the return from `join`. -/
def Label.own : Label → Bool
  | .joined | .timeout | .turn _ => true
  | _ => false

/-- How far the thread is from its end once the flag is set. -/
def Thread.rank : Thread → Nat
  | .signal _ => 3
  | .wait => 3
  | .testFlag => 2
  | .exited => 1
  | .absent => 0

/-- The owner is in `join`, for good or in the destructor, and the flag is set. -/
structure Leaving (s : ZmqSegmentSubscriber) : Prop where
  owner : s.owner = .joining ∨ s.owner = .destroying
  flag : s.shutdownPlox = true
  live : s.ended = false
  thread : s.thread ≠ .absent

/-- `join` has returned. -/
def Left (s : ZmqSegmentSubscriber) : Prop :=
  s.ended = false ∧ s.thread = .absent ∧ (s.owner = .idle ∨ s.owner = .destroyed)

theorem leaving_step (h : Leaving s) :
    ∃ l t, l.own = true ∧ step s l = some t ∧
      (Left t ∨ Leaving t ∧ t.thread.rank < s.thread.rank) := by
  obtain ⟨howner, hflag, hlive, hpresent⟩ := h
  have hrun : ¬ s.ended = true := Bool.eq_false_iff.mp hlive
  cases hthread : s.thread with
  | absent => exact absurd hthread hpresent
  | testFlag =>
      refine ⟨.turn Transport.zeroLocals, { s with thread := .exited }, rfl, ?_, Or.inr ⟨?_, ?_⟩⟩
      · simp only [step, if_neg hrun, processPrivately, hthread, hflag, if_true]
      · exact ⟨howner, hflag, hlive, by rintro ⟨⟩⟩
      · exact Nat.lt_succ_self 1
  | wait =>
      refine ⟨.timeout, { s with thread := .testFlag }, rfl, ?_, Or.inr ⟨?_, ?_⟩⟩
      · simp only [step, if_neg hrun, hthread, if_true]
      · exact ⟨howner, hflag, hlive, by rintro ⟨⟩⟩
      · exact Nat.lt_succ_self 2
  | signal received =>
      refine ⟨.turn Transport.zeroLocals, { s with
        thread := .testFlag, signalled := s.signalled ++ [received] }, rfl, ?_, Or.inr ⟨?_, ?_⟩⟩
      · simp only [step, if_neg hrun, processPrivately, hthread]
      · exact ⟨howner, hflag, hlive, by rintro ⟨⟩⟩
      · exact Nat.lt_succ_self 2
  | exited =>
      rcases howner with howner | howner
      · refine ⟨.joined, { s with thread := .absent, owner := .idle }, rfl, ?_, Or.inl ?_⟩
        · simp only [step, if_neg hrun, hthread, if_true, howner]
        · exact ⟨hlive, rfl, Or.inl rfl⟩
      · refine ⟨.joined, { s with thread := .absent, owner := .destroyed }, rfl, ?_, Or.inl ?_⟩
        · simp only [step, if_neg hrun, hthread, if_true, howner]
        · exact ⟨hlive, rfl, Or.inr rfl⟩

theorem left_of_leaving (h : Leaving s) :
    ∃ labels, (∀ l ∈ labels, l.own = true) ∧ ∃ t, exec step s labels = some t ∧ Left t := by
  refine exists_exec_of_progress (measure fun s : ZmqSegmentSubscriber => s.thread.rank).wf ?_ h
  intro s hs
  obtain ⟨l, t, hl, hstep, hnext⟩ := leaving_step hs
  exact Or.inr ⟨l, t, hl, hstep, hnext⟩

end Steps

/-- A message is taken after `close` was called, and the destructor returns. -/
def closedInWait : List Label :=
  [.process, .turn Transport.zeroLocals, .close,
    .arrive (ZmqSegmentPublisher.processBuffer (StringStream.ofBytes []) Uuid.null
      AVMediaType.video 0 0), .turn Transport.zeroLocals, .destroy]

end ZmqSegmentSubscriber

end Media2

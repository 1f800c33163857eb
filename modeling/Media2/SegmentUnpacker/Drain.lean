import Mathlib.Data.Prod.Lex
import Media2.SegmentUnpacker

/-!
# Waiting for the queue to drain

`close` waits until the workers have emptied the queue. A worker that finds the flag set and
the queue empty leaves its loop for good, while `receive` goes on queueing. Nobody comes for a
segment that is queued after the last worker has left, and `close` waits for it forever.
-/

namespace Media2.SegmentUnpacker

open Execution

variable {n : Nat}

/-- `close` has begun and not returned. -/
def Closing (s : SegmentUnpacker n) : Prop := s.closer ≠ .idle ∧ s.closer ≠ .returned

/-- While `close` is in progress, queued segments have a worker that is still in its loop. -/
def Attended (s : SegmentUnpacker n) : Prop :=
  s.work ≠ [] → Closing s → ∃ i, s.workers i ≠ .exited

/-- The workers can empty the queue, or an exception of theirs ends the process on the way. -/
def Drains (libav : Libav) (s : SegmentUnpacker n) : Prop :=
  ∃ labels : List (Label n), (∀ l ∈ labels, ∃ i now, l = .worker i now) ∧
    ∃ t, exec (step libav) s labels = some t ∧ (t.work = [] ∨ t.fault ≠ none)

/-- What the wait of `close` relies on. -/
structure Served (libav : Libav) (s : SegmentUnpacker n) : Prop where
  attended : Attended s
  drains : Closing s → Drains libav s

/-- A segment that comes while `close` is in progress finds a worker in its loop, and `close`
is called again only when nothing is queued. -/
structure InTime (s : SegmentUnpacker n) (l : Label n) : Prop where
  receive : ∀ seg, l = .receive seg → s.fault = none → Closing s →
    ∃ i, s.workers i ≠ .exited
  close : l = .close → s.fault = none → s.closer = .returned → s.work = []

/-- The worker has seen the flag, or has left already. -/
def Worker.Leaving (w : Worker) : Prop := w = .testSize ∨ w = .exited

section Leave

variable {libav : Libav} {now : Int} {s s' : SegmentUnpacker n} {i : Fin n}

/-- A worker that has left takes no more steps. -/
theorem live_of_step (h : s.doSomeWork libav now i = some s') : s.workers i ≠ .exited := by
  intro hpc
  simp only [doSomeWork, hpc, reduceCtorEq] at h

theorem doSomeWork_other (h : s.doSomeWork libav now i = some s') {j : Fin n} (hj : j ≠ i) :
    s'.workers j = s.workers j := by
  cases doSomeWork_moves h with
  | crash e => rfl
  | _ => exact goto_other _ i _ hj

theorem doSomeWork_closer (h : s.doSomeWork libav now i = some s') :
    s'.closer = s.closer ∧ s'.shutdownFlag = s.shutdownFlag := by
  cases doSomeWork_moves h <;> exact ⟨rfl, rfl⟩

/-- A worker sees the flag first, and then leaves only when it finds the queue empty. -/
theorem leaving_of_step (h : s.doSomeWork libav now i = some s')
    (hleaving : (s'.workers i).Leaving) :
    (s.shutdownFlag = true ∧ s'.workers i ≠ .exited) ∨
      (s.workers i = .testSize ∧ s'.work = []) := by
  cases hpc : s.workers i with
  | testFlag =>
      simp only [doSomeWork, hpc, Option.some.injEq] at h
      subst h
      cases hflag : s.shutdownFlag with
      | true => exact Or.inl ⟨rfl, by simp⟩
      | false => simp [Worker.Leaving, hflag] at hleaving
  | testSize =>
      simp only [doSomeWork, hpc, Option.some.injEq] at h
      subst h
      cases hwork : s.work with
      | nil => exact Or.inr ⟨rfl, hwork⟩
      | cons t rest => simp [Worker.Leaving, hwork] at hleaving
  | testEmpty =>
      simp only [doSomeWork, hpc, Option.some.injEq] at h
      subst h
      cases hwork : s.work <;> simp [Worker.Leaving, hwork] at hleaving
  | pop =>
      simp only [doSomeWork, hpc] at h
      cases hwork : s.work <;> simp only [hwork, Option.some.injEq] at h <;> subst h <;>
        simp [Worker.Leaving] at hleaving
  | exited => exact absurd hpc (live_of_step h)
  | _ =>
      exfalso
      cases doSomeWork_moves h with
      | loop w hfrom =>
          rw [hpc] at hfrom
          cases hfrom
      | crash e => simp [Worker.Leaving, hpc] at hleaving
      | _ => simp [Worker.Leaving] at hleaving

/-- No worker leaves before the flag is set, and `close` returns after all of them. -/
structure Manned (s : SegmentUnpacker n) : Prop where
  attended : Attended s
  idle : s.closer = .idle → s.shutdownFlag = false
  unflagged : s.shutdownFlag = false → ∀ i, ¬ (s.workers i).Leaving
  returned : s.closer = .returned → ∀ i, s.workers i = .exited

theorem start_manned (n : Nat) (cache : StreamCache) : Manned (start n cache) where
  attended := fun hwork => absurd rfl hwork
  idle := fun _ => rfl
  unflagged := by
    intro _ i hleaving
    cases hleaving with
    | inl h => cases h
    | inr h => cases h
  returned := by
    intro heq
    cases heq

/-- A worker that stays in its loop attends to the queue, and one that leaves has found it
empty. -/
theorem Manned.worker (hs : Manned s) (h : s.doSomeWork libav now i = some s') : Manned s' := by
  obtain ⟨hcloser, hflag⟩ := doSomeWork_closer h
  have hlive := live_of_step h
  constructor
  · intro hwork _
    refine ⟨i, fun hexit => ?_⟩
    obtain ⟨-, hstays⟩ | ⟨-, hempty⟩ := leaving_of_step h (Or.inr hexit)
    · exact hstays hexit
    · exact hwork hempty
  · rw [hcloser, hflag]
    exact hs.idle
  · intro hunset j hleaving
    rw [hflag] at hunset
    by_cases hj : j = i
    · subst hj
      obtain ⟨hset, -⟩ | ⟨hpc, -⟩ := leaving_of_step h hleaving
      · exact Bool.noConfusion (hset.symm.trans hunset)
      · exact hs.unflagged hunset j (Or.inl hpc)
    · rw [doSomeWork_other h hj] at hleaving
      exact hs.unflagged hunset j hleaving
  · intro hreturned
    rw [hcloser] at hreturned
    exact absurd (hs.returned hreturned i) hlive

end Leave

section Close

variable {s s' : SegmentUnpacker (n + 1)}

/-- `close` may begin while nobody has left, and again on an empty queue. -/
theorem Manned.close (hs : Manned s) (hempty : s.closer = .returned → s.work = [])
    (h : s.closeStep = some s') : Manned s' := by
  unfold closeStep at h
  cases hc : s.closer with
  | idle =>
      simp only [hc, Option.some.injEq] at h
      subst h
      have hnone := hs.unflagged (hs.idle hc)
      constructor
      · exact fun _ _ => ⟨0, fun hexit => hnone 0 (Or.inr hexit)⟩
      · rintro ⟨⟩
      · exact hs.unflagged
      · rintro ⟨⟩
  | called =>
      simp only [hc, Option.some.injEq] at h
      subst h
      constructor
      · exact fun hwork _ => hs.attended hwork (by simp [Closing, hc])
      · rintro ⟨⟩
      · rintro ⟨⟩
      · rintro ⟨⟩
  | draining =>
      simp only [hc, Option.some.injEq] at h
      subst h
      split
      · rename_i hwork
        constructor
        · exact fun hne => absurd (List.isEmpty_iff.mp hwork) hne
        · rintro ⟨⟩
        · exact hs.unflagged
        · rintro ⟨⟩
      · exact hs
  | joining =>
      simp only [hc] at h
      split at h
      · rename_i hall
        obtain rfl := Option.some.inj h
        constructor
        · exact fun _ hclosing => absurd rfl hclosing.2
        · rintro ⟨⟩
        · exact hs.unflagged
        · exact fun _ => hall
      · cases h
  | returned =>
      simp only [hc, Option.some.injEq] at h
      subst h
      constructor
      · exact fun hwork => absurd (hempty hc) hwork
      · rintro ⟨⟩
      · exact hs.unflagged
      · rintro ⟨⟩

theorem step_manned {libav : Libav} {l : Label (n + 1)} (hs : Manned s) (hok : InTime s l)
    (h : s.step libav l = some s') : Manned s' := by
  have hfault := (step_cases h).1
  simp only [step, hfault, if_true] at h
  cases l with
  | receive seg =>
      obtain rfl := Option.some.inj h
      constructor
      · exact fun _ hclosing => hok.receive seg rfl hfault hclosing
      · exact hs.idle
      · exact hs.unflagged
      · exact hs.returned
  | worker i now => exact hs.worker h
  | evict doomed =>
      obtain rfl := Option.some.inj h
      exact ⟨hs.attended, hs.idle, hs.unflagged, hs.returned⟩
  | close => exact hs.close (hok.close rfl hfault) h

end Close

/-- How far a worker is from its next visit to the queue. -/
def Worker.distance : Worker → Nat
  | .pop => 0
  | .testEmpty => 1
  | .testSize => 2
  | .testFlag => 3
  | .forwarding _ packets => 4 + packets.length
  | .made t _ => 5 + t.segment.packets.length
  | .missed t => 6 + t.segment.packets.length
  | .unpack none => 0
  | .unpack (some t) => 7 + t.segment.packets.length
  | .popped none => 1
  | .popped (some t) => 8 + t.segment.packets.length
  | .exited => 0

/-- The queue gets shorter, or it stays and the worker gets closer to it. -/
def Nearer (i : Fin n) (s s' : SegmentUnpacker n) : Prop :=
  Prod.Lex (· < ·) (· < ·) (s.work.length, (s.workers i).distance)
    (s'.work.length, (s'.workers i).distance)

theorem nearer_wellFounded (i : Fin n) : WellFounded (Nearer i) :=
  InvImage.wf (fun s : SegmentUnpacker n => (s.work.length, (s.workers i).distance))
    (WellFounded.prod_lex Nat.lt_wfRel.wf Nat.lt_wfRel.wf)

/-- The worker can make a step, which ends the process or brings it nearer. -/
def Advances (libav : Libav) (s : SegmentUnpacker n) (i : Fin n) : Prop :=
  ∃ t, s.step libav (.worker i 0) = some t ∧
    (t.fault ≠ none ∨ t.workers i ≠ .exited ∧ Nearer i t s)

section Progress

variable {libav : Libav} {s : SegmentUnpacker n} {i : Fin n}

theorem advances_crash {e : Fault} (hfault : s.fault = none)
    (h : s.doSomeWork libav 0 i = some { s with fault := some e }) : Advances libav s i := by
  refine ⟨{ s with fault := some e }, ?_, Or.inl (Option.some_ne_none e)⟩
  simpa only [step, hfault, if_true] using h

/-- The worker moves on while the queue stays. -/
theorem advances_goto (u : SegmentUnpacker n) (w : Worker) (hfault : s.fault = none)
    (h : s.doSomeWork libav 0 i = some (u.goto i w)) (hwork : u.work = s.work)
    (hw : w.distance < (s.workers i).distance) (hlive : w ≠ .exited) : Advances libav s i := by
  refine ⟨u.goto i w, ?_, Or.inr ⟨?_, ?_⟩⟩
  · simpa only [step, hfault, if_true] using h
  · rwa [goto_same]
  · rw [Nearer, goto_same, goto_work, hwork]
    exact Prod.Lex.right _ hw

/-- A worker in its loop makes progress as long as there is something in the queue. -/
theorem worker_advances (libav : Libav) (hfault : s.fault = none) (hwork : s.work ≠ [])
    (hlive : s.workers i ≠ .exited) : Advances libav s i := by
  cases hpc : s.workers i with
  | testFlag =>
      cases hflag : s.shutdownFlag with
      | true =>
          refine advances_goto s .testSize hfault ?_ rfl ?_ (by simp)
          · simp [doSomeWork, hpc, hflag]
          · simp [hpc, Worker.distance]
      | false =>
          refine advances_goto s .testEmpty hfault ?_ rfl ?_ (by simp)
          · simp [doSomeWork, hpc, hflag]
          · simp [hpc, Worker.distance]
  | testSize =>
      refine advances_goto s .testEmpty hfault ?_ rfl ?_ (by simp)
      · simp [doSomeWork, hpc, List.length_pos_iff.mpr hwork]
      · simp [hpc, Worker.distance]
  | testEmpty =>
      refine advances_goto s .pop hfault ?_ rfl ?_ (by simp)
      · simp [doSomeWork, hpc, hwork]
      · simp [hpc, Worker.distance]
  | pop =>
      obtain ⟨t, rest, hqueue⟩ := List.exists_cons_of_ne_nil hwork
      refine ⟨{ s with work := rest }.goto i (.popped (some t)), ?_, Or.inr ⟨by simp, ?_⟩⟩
      · simp [step, hfault, doSomeWork, hpc, hqueue]
      · rw [Nearer, hqueue]
        exact Prod.Lex.left _ _ (Nat.lt_succ_self rest.length)
  | popped seg =>
      refine advances_goto { s with calls := s.calls ++ [seg] } (.unpack seg) hfault ?_ rfl ?_
        (by simp)
      · simp [doSomeWork, hpc]
      · cases seg <;> simp [hpc, Worker.distance]
  | unpack seg =>
      cases seg with
      | none =>
          apply advances_crash (e := .nullDereference) hfault
          simp [doSomeWork, hpc]
      | some t =>
          cases hget : s.cache.get 0 t.segment.jobId with
          | mk cache found =>
              cases found with
              | none =>
                  refine advances_goto { s with cache := cache } (.missed t) hfault ?_ rfl ?_
                    (by simp)
                  · simp [doSomeWork, hpc, hget]
                  · simp [hpc, Worker.distance]
              | some stream =>
                  refine advances_goto { s with cache := cache }
                    (.forwarding stream t.segment.packets) hfault ?_ rfl ?_ (by simp)
                  · simp [doSomeWork, hpc, hget]
                  · simp [hpc, Worker.distance]
  | missed t =>
      cases hget : s.cache.getSegment libav 0 t.segment with
      | error e =>
          apply advances_crash (e := e) hfault
          simp [doSomeWork, hpc, hget]
      | ok out =>
          refine advances_goto { s with cache := out.1 } (.made t out.2) hfault ?_ rfl ?_ (by simp)
          · simp [doSomeWork, hpc, hget]
          · simp [hpc, Worker.distance]
  | made t stream =>
      refine advances_goto { s with events := s.events ++ [Event.setup stream.id] }
        (.forwarding stream t.segment.packets) hfault ?_ rfl ?_ (by simp)
      · simp [doSomeWork, hpc]
      · simp [hpc, Worker.distance]
  | forwarding stream packets =>
      cases packets with
      | nil =>
          refine advances_goto s .testFlag hfault ?_ rfl ?_ (by simp)
          · simp [doSomeWork, hpc]
          · simp [hpc, Worker.distance]
      | cons packet packets =>
          refine advances_goto
            { s with events := s.events ++ [Event.forward (stream.forward packet)] }
            (.forwarding stream packets) hfault ?_ rfl ?_ (by simp)
          · simp [doSomeWork, hpc]
          · simp [hpc, Worker.distance]
  | exited => exact absurd hpc hlive

/-- One worker in its loop is enough to empty the queue. -/
theorem drains_of_live (hlive : s.workers i ≠ .exited) : Drains libav s := by
  refine exists_exec_of_progress (nearer_wellFounded i)
    (P := fun s : SegmentUnpacker n => s.workers i ≠ .exited) ?_ hlive
  intro s hlive
  by_cases hfault : s.fault = none
  · by_cases hwork : s.work = []
    · exact Or.inl (Or.inl hwork)
    · obtain ⟨t, hstep, hnext⟩ := worker_advances libav hfault hwork hlive
      refine Or.inr ⟨.worker i 0, t, ⟨i, 0, rfl⟩, hstep, ?_⟩
      cases hnext with
      | inl hcrash => exact Or.inl (Or.inr hcrash)
      | inr hnear => exact Or.inr hnear
  · exact Or.inl (Or.inr hfault)

end Progress

theorem Manned.served {s : SegmentUnpacker n} (hs : Manned s) (libav : Libav) :
    Served libav s := by
  refine ⟨hs.attended, fun hclosing => ?_⟩
  by_cases hwork : s.work = []
  · exact ⟨[], by simp, s, rfl, Or.inl hwork⟩
  · obtain ⟨i, hlive⟩ := hs.attended hwork hclosing
    exact drains_of_live hlive

theorem inTime_of_next {libav : Libav} {s : SegmentUnpacker n} {l : Label n} (hs : Manned s)
    (hnext : ∀ t, s.step libav l = some t → Served libav t) : InTime s l := by
  constructor
  · rintro seg rfl hfault hclosing
    have hstep : s.step libav (.receive seg) = some (s.receive seg) := by
      simp only [step, hfault, if_true]
    have hwork : (s.receive seg).work ≠ [] := by simp [receive]
    exact (hnext _ hstep).attended hwork hclosing
  · rintro rfl hfault hreturned
    have hstep : s.step libav .close =
        some { s with closer := .called, receivedAtClose := s.received.length } := by
      simp only [step, hfault, if_true, closeStep, hreturned]
    by_contra hwork
    have hclosing : Closer.called ≠ .idle ∧ Closer.called ≠ .returned := by decide
    obtain ⟨i, hlive⟩ := (hnext _ hstep).attended hwork hclosing
    exact hlive (hs.returned hreturned i)

/-- In a run of any number of workers, a queued segment has a worker and `close` can wait for
the queue if and only if no segment comes too late for the workers. -/
theorem served_iff (libav : Libav) (cache : StreamCache) (labels : List (Label (n + 1))) :
    Always (step libav) (Served libav) (start (n + 1) cache) labels ↔
      Guarded (step libav) InTime (start (n + 1) cache) labels := by
  apply always_iff_guarded (I := Manned)
  · exact fun _ _ _ _ hs hok hstep => step_manned hs hok hstep
  · exact fun _ hs => hs.served libav
  · exact fun _ _ _ hs hnext => inTime_of_next hs hnext
  · exact start_manned (n + 1) cache

/-- `close` waits for a queue that all workers have left. -/
structure Abandoned (s : SegmentUnpacker n) : Prop where
  closer : s.closer = .draining
  work : s.work ≠ []
  workers : ∀ i, s.workers i = .exited

theorem step_abandoned {libav : Libav} {s s' : SegmentUnpacker n} {l : Label n}
    (hs : Abandoned s) (h : s.step libav l = some s') : Abandoned s' := by
  simp only [step, (step_cases h).1, if_true] at h
  cases l with
  | receive seg =>
      obtain rfl := Option.some.inj h
      exact ⟨hs.closer, List.append_ne_nil_of_right_ne_nil _ (List.cons_ne_nil _ _), hs.workers⟩
  | worker i now => exact absurd (hs.workers i) (live_of_step h)
  | evict doomed =>
      obtain rfl := Option.some.inj h
      exact ⟨hs.closer, hs.work, hs.workers⟩
  | close =>
      simp only [closeStep, hs.closer, List.isEmpty_iff, hs.work, if_false,
        Option.some.injEq] at h
      exact h ▸ hs

/-- That wait never ends. -/
theorem abandoned_of_exec {libav : Libav} {s t : SegmentUnpacker n} {labels : List (Label n)}
    (hs : Abandoned s) (h : exec (step libav) s labels = some t) : Abandoned t :=
  invariant_of_step (fun _ _ _ hs hstep => step_abandoned hs hstep) hs h

/-- The flag is set and the only worker leaves. Then a segment comes, before `close` has looked
at the queue. -/
def receiveAfterExit : List (Label 1) :=
  [.close, .close] ++ turns 0 2 ++ [.receive Segment.sample]

/-- `close` is waiting for a queue that nobody comes to. -/
theorem segment_without_worker :
    ∃ s, exec (step Libav.sample) (start 1 (StreamCache.create 600)) receiveAfterExit = some s ∧
      s.closer = .draining ∧ s.work ≠ [] ∧ ¬ Served Libav.sample s := by
  refine ⟨_, rfl, rfl, List.cons_ne_nil _ _, fun h => ?_⟩
  obtain ⟨i, hlive⟩ := h.attended (List.cons_ne_nil _ _) ⟨by decide, by decide⟩
  obtain rfl : i = 0 := Subsingleton.elim i 0
  exact hlive rfl

end Media2.SegmentUnpacker

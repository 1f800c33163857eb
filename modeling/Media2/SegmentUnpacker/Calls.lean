import Mathlib.Data.List.Nodup
import Media2.SegmentUnpacker

/-!
# The calls of `unpack`

A worker that finds the queue empty under the lock, after another worker took the
last segment, calls `unpack` with a null pointer all the same. Nothing else can go
wrong: every segment is queued once, so it is taken off the queue once.
-/

namespace Media2.SegmentUnpacker

open Execution

variable {n : Nat}

/-- Every call of `unpack` that was made, or that a worker is about to make, is made
with a received segment that no earlier call was made with. -/
structure CallsOk (s : SegmentUnpacker n) : Prop where
  received : ∀ call ∈ s.calls, ∃ t, call = some t ∧ s.received[t.number]? = some t.segment
  once : s.calls.Nodup
  next : ∀ i seg, s.workers i = .popped seg →
    ∃ t, seg = some t ∧ s.received[t.number]? = some t.segment ∧ seg ∉ s.calls

/-- A worker does not enter the critical section when the queue is empty. -/
def PopsWork (s : SegmentUnpacker n) (l : Label n) : Prop :=
  ∀ i now, l = .worker i now → s.fault = none → s.workers i = .pop → s.work ≠ []

/-- The tickets of the received segments. -/
def tickets (received : List Segment) : List Ticket :=
  received.zipIdx.map fun entry => ⟨entry.1, entry.2⟩

theorem tickets_snoc (received : List Segment) (seg : Segment) :
    tickets (received ++ [seg]) = tickets received ++ [⟨seg, received.length⟩] := by
  simp [tickets, List.zipIdx_append]

theorem mem_tickets {received : List Segment} {t : Ticket} (h : t ∈ tickets received) :
    received[t.number]? = some t.segment := by
  obtain ⟨entry, hmem, rfl⟩ := List.mem_map.mp h
  exact List.mem_zipIdx_iff_getElem?.mp hmem

theorem tickets_number (received : List Segment) :
    (tickets received).map Ticket.number = List.range' 0 received.length := by
  rw [tickets, List.map_map]
  exact List.zipIdx_map_snd 0 received

theorem tickets_nodup (received : List Segment) : (tickets received).Nodup :=
  List.Nodup.of_map Ticket.number (tickets_number received ▸ List.nodup_range')

/-- The tickets are those that were taken and those that are queued; the calls and
the workers that are about to call hold taken ones, each its own. -/
structure Taken (s : SegmentUnpacker n) (taken : List Ticket) : Prop where
  tickets_eq : tickets s.received = taken ++ s.work
  called : ∀ call ∈ s.calls, ∃ t ∈ taken, call = some t
  once : s.calls.Nodup
  holds : ∀ i seg, s.workers i = .popped seg → (∃ t ∈ taken, seg = some t) ∧ seg ∉ s.calls
  apart : ∀ i j seg, s.workers i = .popped seg → s.workers j = .popped seg → i = j

theorem Taken.callsOk {s : SegmentUnpacker n} {taken : List Ticket} (h : Taken s taken) :
    CallsOk s := by
  have hreceived : ∀ t ∈ taken, s.received[t.number]? = some t.segment := fun t ht =>
    mem_tickets (h.tickets_eq ▸ List.mem_append_left _ ht)
  refine ⟨?_, h.once, ?_⟩
  · intro call hcall
    obtain ⟨t, ht, rfl⟩ := h.called call hcall
    exact ⟨t, rfl, hreceived t ht⟩
  · intro i seg hpc
    obtain ⟨⟨t, ht, rfl⟩, hfresh⟩ := h.holds i seg hpc
    exact ⟨t, rfl, hreceived t ht, hfresh⟩

/-- The rest of a step does not matter when the worker does not end up with a
popped segment and nobody else moves. -/
theorem Taken.goto {s s' : SegmentUnpacker n} {taken : List Ticket} {i : Fin n} {w : Worker}
    (h : Taken s taken) (hw : ∀ seg, w ≠ .popped seg)
    (hworkers : s'.workers = (s.goto i w).workers) (hreceived : s'.received = s.received)
    (hwork : s'.work = s.work) (hcalls : s'.calls = s.calls) : Taken s' taken := by
  have hpopped : ∀ j seg, s'.workers j = .popped seg → s.workers j = .popped seg := by
    intro j seg hpc
    rw [hworkers] at hpc
    cases set_eq hpc with
    | inl hmoved => exact absurd hmoved.2 (hw seg)
    | inr hstayed => exact hstayed.2
  refine ⟨?_, ?_, hcalls ▸ h.once, ?_, ?_⟩
  · rw [hreceived, hwork]
    exact h.tickets_eq
  · rw [hcalls]
    exact h.called
  · intro j seg hpc
    rw [hcalls]
    exact h.holds j seg (hpopped j seg hpc)
  · intro j k seg hj hk
    exact h.apart j k seg (hpopped j seg hj) (hpopped k seg hk)

/-- A worker takes the first ticket of the queue. -/
theorem Taken.pop {s : SegmentUnpacker n} {taken rest : List Ticket} {i : Fin n} {t : Ticket}
    (h : Taken s taken) (hwork : s.work = t :: rest) :
    Taken ({ s with work := rest }.goto i (.popped (some t))) (taken ++ [t]) := by
  have heq : tickets s.received = (taken ++ [t]) ++ rest := by
    rw [h.tickets_eq, hwork, List.append_assoc]
    rfl
  have hnew : t ∉ taken := by
    have hnodup := (heq ▸ tickets_nodup s.received).of_append_left
    have hdisjoint := List.disjoint_of_nodup_append hnodup
    exact fun hmem => hdisjoint hmem (List.mem_singleton_self t)
  have hold : ∀ seg, (∃ t' ∈ taken, seg = some t') → seg ≠ some t := by
    intro seg hseg heq
    obtain ⟨t', ht', hseg⟩ := hseg
    exact hnew (Option.some.inj (hseg.symm.trans heq) ▸ ht')
  have hpopped : ∀ j seg,
      ({ s with work := rest }.goto i (.popped (some t))).workers j = .popped seg →
      (j = i ∧ seg = some t) ∨ (s.workers j = .popped seg ∧ seg ≠ some t) := by
    intro j seg hpc
    cases set_eq hpc with
    | inl hmoved => exact Or.inl ⟨hmoved.1, (Worker.popped.inj hmoved.2).symm⟩
    | inr hstayed => exact Or.inr ⟨hstayed.2, hold seg (h.holds j seg hstayed.2).1⟩
  refine ⟨heq, ?_, h.once, ?_, ?_⟩
  · intro call hcall
    obtain ⟨t', ht', hcalled⟩ := h.called call hcall
    exact ⟨t', List.mem_append_left _ ht', hcalled⟩
  · intro j seg hpc
    rcases hpopped j seg hpc with ⟨-, hseg⟩ | ⟨hpc, -⟩
    · refine ⟨⟨t, by simp, hseg⟩, fun hcall => ?_⟩
      exact hold seg (h.called seg hcall) hseg
    · obtain ⟨⟨t', ht', hseg⟩, hfresh⟩ := h.holds j seg hpc
      exact ⟨⟨t', List.mem_append_left _ ht', hseg⟩, hfresh⟩
  · intro j k seg hpj hpk
    rcases hpopped j seg hpj with ⟨hj, hseg⟩ | ⟨hpj, hne⟩
    · rcases hpopped k seg hpk with ⟨hk, -⟩ | ⟨-, hne⟩
      · exact hj.trans hk.symm
      · exact absurd hseg hne
    · rcases hpopped k seg hpk with ⟨-, hseg⟩ | ⟨hpk, -⟩
      · exact absurd hseg hne
      · exact h.apart j k seg hpj hpk

/-- A worker calls `unpack` with what it holds. -/
theorem Taken.call {s : SegmentUnpacker n} {taken : List Ticket} {i : Fin n}
    {seg : Option Ticket} (h : Taken s taken) (hpc : s.workers i = .popped seg) :
    Taken ({ s with calls := s.calls ++ [seg] }.goto i (.unpack seg)) taken := by
  have hpopped : ∀ j seg', ({ s with calls := s.calls ++ [seg] }.goto i (.unpack seg)).workers j =
      .popped seg' → j ≠ i ∧ s.workers j = .popped seg' := by
    intro j seg' hpc'
    cases set_eq hpc' with
    | inl hmoved => cases hmoved.2
    | inr hstayed => exact hstayed
  obtain ⟨⟨t, ht, rfl⟩, hfresh⟩ := h.holds i seg hpc
  refine ⟨h.tickets_eq, ?_, ?_, ?_, ?_⟩
  · intro call hcall
    rcases List.mem_append.mp hcall with hcall | hcall
    · exact h.called call hcall
    · exact ⟨t, ht, List.mem_singleton.mp hcall⟩
  · refine List.nodup_append.mpr ⟨h.once, List.nodup_singleton _, ?_⟩
    intro call hcall call' hcall'
    obtain rfl := List.mem_singleton.mp hcall'
    exact fun heq => hfresh (heq ▸ hcall)
  · intro j seg' hpc'
    obtain ⟨hj, hpc'⟩ := hpopped j seg' hpc'
    obtain ⟨htaken, hfresh'⟩ := h.holds j seg' hpc'
    refine ⟨htaken, fun hcall => ?_⟩
    rcases List.mem_append.mp hcall with hcall | hcall
    · exact hfresh' hcall
    · obtain rfl := List.mem_singleton.mp hcall
      exact hj (h.apart j i _ hpc' hpc)
  · intro j k seg' hpj hpk
    exact h.apart j k seg' (hpopped j seg' hpj).2 (hpopped k seg' hpk).2

theorem start_taken (cache : StreamCache) : Taken (start n cache) [] where
  tickets_eq := rfl
  called := by simp [start]
  once := List.nodup_nil
  holds := by
    intro i seg heq
    cases heq
  apart := by
    intro i j seg heq
    cases heq

theorem Worker.Idle.ne_popped {w : Worker} (h : w.Idle) (seg : Option Ticket) :
    w ≠ .popped seg := by
  rintro rfl
  cases h

/-- Every step of a worker that pops only when there is work keeps the invariant. -/
theorem moves_taken {libav : Libav} {now : Int} {s s' : SegmentUnpacker n} {taken : List Ticket}
    {i : Fin n} (hs : Taken s taken) (hok : s.workers i = .pop → s.work ≠ [])
    (h : Moves libav now s i s') : ∃ taken', Taken s' taken' := by
  cases h with
  | loop w _ _ hto _ => exact ⟨taken, hs.goto hto.ne_popped rfl rfl rfl rfl⟩
  | done stream _ => exact ⟨taken, hs.goto (by rintro seg ⟨⟩) rfl rfl rfl rfl⟩
  | popNone hpc hwork => exact absurd hwork (hok hpc)
  | popSome t rest _ hwork => exact ⟨_, hs.pop hwork⟩
  | call seg hpc => exact ⟨taken, hs.call hpc⟩
  | crash e => exact ⟨taken, hs.tickets_eq, hs.called, hs.once, hs.holds, hs.apart⟩
  | hit t record _ _ => exact ⟨taken, hs.goto (by rintro seg ⟨⟩) rfl rfl rfl rfl⟩
  | miss t _ _ => exact ⟨taken, hs.goto (by rintro seg ⟨⟩) rfl rfl rfl rfl⟩
  | found t record _ _ => exact ⟨taken, hs.goto (by rintro seg ⟨⟩) rfl rfl rfl rfl⟩
  | make t stream _ _ _ => exact ⟨taken, hs.goto (by rintro seg ⟨⟩) rfl rfl rfl rfl⟩
  | setup t stream _ => exact ⟨taken, hs.goto (by rintro seg ⟨⟩) rfl rfl rfl rfl⟩
  | forward stream packet packets _ =>
      exact ⟨taken, hs.goto (by rintro seg ⟨⟩) rfl rfl rfl rfl⟩

theorem step_taken {libav : Libav} {s s' : SegmentUnpacker n} {l : Label n}
    (hs : ∃ taken, Taken s taken) (hok : PopsWork s l) (h : s.step libav l = some s') :
    ∃ taken, Taken s' taken := by
  obtain ⟨taken, hs⟩ := hs
  obtain ⟨hfault, ⟨seg, -, rfl⟩ | ⟨i, now, rfl, hmoves⟩ | ⟨doomed, -, rfl⟩ | ⟨-, hclose⟩⟩ :=
    step_cases h
  · refine ⟨taken, ?_, hs.called, hs.once, hs.holds, hs.apart⟩
    simp only [receive, tickets_snoc, hs.tickets_eq, List.append_assoc]
  · exact moves_taken hs (hok i now rfl hfault) hmoves
  · exact ⟨taken, hs.tickets_eq, hs.called, hs.once, hs.holds, hs.apart⟩
  · rcases closeStep_cases hclose with ⟨_, _, rfl, -, -⟩ | rfl | ⟨-, -, rfl⟩ <;>
      exact ⟨taken, hs.tickets_eq, hs.called, hs.once, hs.holds, hs.apart⟩

/-- In a run, all calls of `unpack` are in order if and only if every worker that
enters the critical section finds the queue non-empty. -/
theorem callsOk_iff (libav : Libav) (cache : StreamCache) (labels : List (Label n)) :
    Always (step libav) CallsOk (start n cache) labels ↔
      Guarded (step libav) PopsWork (start n cache) labels := by
  refine always_iff_guarded (I := fun s => ∃ taken, Taken s taken) ?_ ?_ ?_
    ⟨[], start_taken cache⟩
  · exact fun _ _ _ _ hI hok hstep => step_taken hI hok hstep
  · rintro s ⟨taken, htaken⟩
    exact htaken.callsOk
  · rintro s l - - hnext i now rfl hfault hpc hwork
    have hstep : s.step libav (.worker i now) = some (s.goto i (.popped none)) := by
      simp only [step, hfault, if_true, doSomeWork, hpc, hwork]
    obtain ⟨t, hnone, -⟩ := (hnext _ hstep).next i none (goto_same s i _)
    cases hnone

/-- Two workers see one segment in the queue. The second to take the lock finds
the queue empty and calls `unpack` with a null pointer. -/
def raceForLast : List (Label 2) :=
  .receive Segment.sample :: turns 0 2 ++ turns 1 2 ++ turns 0 1 ++ turns 1 2

theorem unpack_called_with_null :
    ∃ s, exec (step Libav.sample) (start 2 (StreamCache.create 600)) raceForLast = some s ∧
      none ∈ s.calls ∧ ¬ CallsOk s := by
  refine ⟨_, rfl, List.mem_singleton_self none, fun h => ?_⟩
  obtain ⟨t, hnone, -⟩ := h.received none (List.mem_singleton_self none)
  cases hnone

end Media2.SegmentUnpacker

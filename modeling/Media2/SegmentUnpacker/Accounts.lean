import Mathlib.Algebra.Order.Group.Multiset
import Media2.Foundation.Workers
import Media2.SegmentUnpacker.Linear

/-!
# Accounts of several workers

Several workers forward in no particular order. What they forwarded, what they have in hand
and what is queued still are the received packets, each as often as it was received and
under the job of its own segment.
-/

namespace Media2.SegmentUnpacker

open Execution StreamCache Workers

variable {n : Nat}

/-- Packets under the names of their jobs, in no order. -/
abbrev Pairs : Type := Multiset (Option String × Packet)

/-- What all the workers have still to forward of the segments they took. -/
def inHands (workers : Fin n → Worker) : Pairs := total (fun w => ↑w.inHand) workers

/-- Nothing is forwarded that was not received, or more often, or under another job. When
nothing is queued and no worker is in `unpack` nothing is missing, and when `close` has
returned nothing is missing that was received before it was called. -/
structure Kept (s : SegmentUnpacker n) : Prop where
  nothing_else : (↑(forwarded s.events) : Pairs) ≤ ↑(s.received.flatMap pairs)
  settled : s.work = [] → (∀ i, (s.workers i).Idle) →
    (forwarded s.events).Perm (s.received.flatMap pairs)
  closed : s.closer = .returned →
    (↑((s.received.take s.receivedAtClose).flatMap pairs) : Pairs) ≤ ↑(forwarded s.events)

theorem set_eq_update (workers : Fin n → Worker) (i : Fin n) (w : Worker) :
    set workers i w = Function.update workers i w := by
  funext j
  by_cases hj : j = i
  · subst hj
    rw [Function.update_self]
    exact if_pos rfl
  · rw [Function.update_of_ne hj]
    exact if_neg hj

theorem inHands_idle {workers : Fin n → Worker} (h : ∀ i, (workers i).Idle) :
    inHands workers = 0 := by
  apply total_eq_zero
  intro i
  rw [(h i).inHand_eq]
  rfl

/-- The balance of the packets, and what `close` knows of the queue. -/
structure Accounts (s : SegmentUnpacker n) : Prop where
  sound : Sound s.cache.streamOf s.cache.made
  named : ∀ i t stream, s.workers i = .made t stream →
    stream.name = some t.segment.jobId.unparse
  balance : (↑(s.received.flatMap pairs) : Pairs) =
    ↑(forwarded s.events) + inHands s.workers + ↑(queued s.work)
  suffix : s.work.map Ticket.segment <:+ s.received
  before_close : s.receivedAtClose ≤ s.received.length
  drained : s.closer = .joining → s.receivedAtClose + s.work.length ≤ s.received.length
  closed : s.closer = .returned →
    (↑((s.received.take s.receivedAtClose).flatMap pairs) : Pairs) ≤ ↑(forwarded s.events)

theorem Accounts.kept {s : SegmentUnpacker n} (h : Accounts s) : Kept s where
  nothing_else := by
    rw [h.balance, add_assoc]
    exact Multiset.le_add_right _ _
  settled := by
    intro hwork hidle
    apply Multiset.coe_eq_coe.mp
    rw [h.balance, inHands_idle hidle, hwork]
    simp [queued]
  closed := h.closed

theorem start_accounts {cache : StreamCache} (h : Sound cache.streamOf cache.made) :
    Accounts (start n cache) where
  sound := h
  named := by
    rintro i t stream ⟨⟩
  balance := by
    have hnone : inHands (start n cache).workers = 0 :=
      inHands_idle fun _ => Worker.Idle.testFlag
    rw [hnone]
    rfl
  suffix := List.suffix_refl []
  before_close := Nat.le_refl 0
  drained := by
    rintro ⟨⟩
  closed := by
    rintro ⟨⟩

section Steps

variable {s s' : SegmentUnpacker n}

/-- A worker that touches neither the queue nor the received segments hands on what it had
in hand. -/
theorem Accounts.work (h : Accounts s) {i : Fin n} {cache : StreamCache} {events : List Event}
    {w : Worker} (hsound : Sound cache.streamOf cache.made)
    (hnamed : ∀ t stream, w = .made t stream → stream.name = some t.segment.jobId.unparse)
    (new : List (Option String × Packet)) (hevents : forwarded events = forwarded s.events ++ new)
    (hhand : (s.workers i).inHand = new ++ w.inHand) (calls : List (Option Ticket)) :
    Accounts ({ s with cache := cache, events := events, calls := calls }.goto i w) where
  sound := hsound
  named := by
    intro j t stream hpc
    rcases set_eq hpc with ⟨-, hpc⟩ | ⟨-, hpc⟩
    · exact hnamed t stream hpc
    · exact h.named j t stream hpc
  balance := by
    have hgive : ↑new + inHands (set s.workers i w) = inHands s.workers := by
      rw [set_eq_update]
      exact total_give (by rw [hhand, ← Multiset.coe_add])
    change (↑(s.received.flatMap pairs) : Pairs) =
      ↑(forwarded events) + inHands (set s.workers i w) + ↑(queued s.work)
    rw [h.balance, ← hgive, hevents, ← Multiset.coe_add]
    simp only [add_assoc]
  suffix := h.suffix
  before_close := h.before_close
  drained := h.drained
  closed := by
    intro hclosed
    refine (h.closed hclosed).trans ?_
    change _ ≤ (↑(forwarded events) : Pairs)
    rw [hevents, ← Multiset.coe_add]
    exact Multiset.le_add_right _ _

/-- A worker that forwards nothing keeps what it has in hand. -/
theorem Accounts.keep (h : Accounts s) {i : Fin n} {w : Worker}
    (hnamed : ∀ t stream, w = .made t stream → stream.name = some t.segment.jobId.unparse)
    (hhand : (s.workers i).inHand = w.inHand) : Accounts (s.goto i w) :=
  h.work h.sound hnamed [] (List.append_nil _).symm hhand s.calls

/-- A worker takes the front of the queue in hand. -/
theorem Accounts.pop (h : Accounts s) {i : Fin n} {t : Ticket} {rest : List Ticket}
    (hpc : s.workers i = .pop) (hwork : s.work = t :: rest) :
    Accounts ({ s with work := rest }.goto i (.popped (some t))) where
  sound := h.sound
  named := by
    intro j t' stream hj
    rcases set_eq hj with ⟨-, hj⟩ | ⟨-, hj⟩
    · cases hj
    · exact h.named j t' stream hj
  balance := by
    have htake : inHands (set s.workers i (.popped (some t))) =
        inHands s.workers + ↑(pairs t.segment) := by
      rw [set_eq_update]
      exact total_take (by rw [hpc]; exact (zero_add _).symm)
    change (↑(s.received.flatMap pairs) : Pairs) = ↑(forwarded s.events) +
      inHands (set s.workers i (.popped (some t))) + ↑(queued rest)
    rw [h.balance, hwork, htake, queued, List.flatMap_cons, ← Multiset.coe_add]
    simp only [queued, add_assoc]
  suffix := by
    have hsuffix := h.suffix
    rw [hwork, List.map_cons] at hsuffix
    exact (List.suffix_cons _ _).trans hsuffix
  before_close := h.before_close
  drained := by
    intro hclosed
    have hdrained := h.drained hclosed
    rw [hwork, List.length_cons] at hdrained
    change s.receivedAtClose + rest.length ≤ s.received.length
    omega
  closed := h.closed

theorem moves_accounts {libav : Libav} {now : Int} {i : Fin n} (hs : Accounts s)
    (h : Moves libav now s i s') : Accounts s' := by
  cases h with
  | loop w hfrom _ hto _ =>
      apply hs.keep
      · rintro t stream rfl
        cases hto
      · rw [hfrom.inHand_eq, hto.inHand_eq]
  | done stream hpc => exact hs.keep (by rintro t stream ⟨⟩) (by rw [hpc]; rfl)
  | popNone hpc _ => exact hs.keep (by rintro t stream ⟨⟩) (by rw [hpc]; rfl)
  | popSome t rest hpc hwork => exact hs.pop hpc hwork
  | call seg hpc =>
      refine hs.work hs.sound (by rintro t stream ⟨⟩) [] (List.append_nil _).symm ?_
        (s.calls ++ [seg])
      cases seg <;> rw [hpc] <;> rfl
  | crash e =>
      exact ⟨hs.sound, hs.named, hs.balance, hs.suffix, hs.before_close, hs.drained, hs.closed⟩
  | hit t record hpc hrec =>
      have hname := hs.sound.named _ _ (streamOf_eq_some s.cache hrec)
      refine hs.work ?_ (by rintro t stream ⟨⟩) [] (List.append_nil _).symm ?_ s.calls
      · rw [renew_streamOf s.cache now hrec, renew_made]
        exact hs.sound
      · rw [hpc]
        simp only [Worker.inHand, pairs, hname, List.nil_append]
  | miss t hpc _ => exact hs.keep (by rintro t stream ⟨⟩) (by rw [hpc]; rfl)
  | found t record hpc hrec =>
      have hname := hs.sound.named _ _ (streamOf_eq_some s.cache hrec)
      refine hs.work ?_ ?_ [] (List.append_nil _).symm (by rw [hpc]; rfl) s.calls
      · rw [renew_streamOf s.cache now hrec, renew_made]
        exact hs.sound
      · intro t' stream heq
        cases heq
        exact hname
  | make t stream hpc hnone hstream =>
      have hsound := hs.sound.insert hstream
      refine hs.work ?_ ?_ [] (List.append_nil _).symm (by rw [hpc]; rfl) s.calls
      · rw [insertNew_streamOf, insertNew_made]
        exact hsound
      · intro t' stream' heq
        cases heq
        exact hsound.named _ _ (if_pos rfl)
  | setup t stream hpc =>
      refine hs.work hs.sound (by rintro t stream ⟨⟩) [] ?_ ?_ s.calls
      · rw [forwarded_setup, List.append_nil]
      · rw [hpc]
        simp only [Worker.inHand, pairs, hs.named i t stream hpc, List.nil_append]
  | forward stream packet packets hpc =>
      refine hs.work hs.sound (by rintro t stream ⟨⟩) _ (forwarded_forward _ _) ?_ s.calls
      rw [hpc]
      rfl

/-- When all that was received before `close` is off the queue and the workers have left
their loops, it has been forwarded. -/
theorem Accounts.join (h : Accounts s) (hclosed : s.closer = .joining)
    (hexit : ∀ i, s.workers i = .exited) :
    (↑((s.received.take s.receivedAtClose).flatMap pairs) : Pairs) ≤ ↑(forwarded s.events) := by
  obtain ⟨taken, htaken⟩ := h.suffix
  have hlen := congrArg List.length htaken
  rw [List.length_append, List.length_map] at hlen
  have hdrained := h.drained hclosed
  have hidle : ∀ i, (s.workers i).Idle := fun i => hexit i ▸ Worker.Idle.exited
  have hbalance := h.balance
  rw [inHands_idle hidle, add_zero, ← htaken, List.flatMap_append, queued, List.flatMap_map,
    ← Multiset.coe_add] at hbalance
  have hdone : (↑(taken.flatMap pairs) : Pairs) = ↑(forwarded s.events) :=
    (add_left_inj _).mp hbalance
  have htake : s.received.take s.receivedAtClose = taken.take s.receivedAtClose := by
    rw [← htaken, List.take_append_of_le_length (by omega)]
  rw [htake, ← hdone]
  calc (↑((taken.take s.receivedAtClose).flatMap pairs) : Pairs)
      ≤ ↑((taken.take s.receivedAtClose).flatMap pairs) +
        ↑((taken.drop s.receivedAtClose).flatMap pairs) := Multiset.le_add_right _ _
    _ = ↑(taken.flatMap pairs) := by
        rw [Multiset.coe_add, ← List.flatMap_append, List.take_append_drop]

theorem step_accounts {libav : Libav} {l : Label n} (hs : Accounts s)
    (h : s.step libav l = some s') : Accounts s' := by
  obtain ⟨-, ⟨seg, -, rfl⟩ | ⟨i, now, -, hmoves⟩ | ⟨doomed, -, rfl⟩ | ⟨-, hclose⟩⟩ := step_cases h
  · have htake : (s.received ++ [seg]).take s.receivedAtClose =
        s.received.take s.receivedAtClose := List.take_append_of_le_length hs.before_close
    refine ⟨hs.sound, hs.named, ?_, ?_, ?_, ?_, ?_⟩
    · simp only [receive, List.flatMap_append, queued, ← Multiset.coe_add, hs.balance]
      simp only [List.flatMap_cons, List.flatMap_nil, List.append_nil, add_assoc]
    · obtain ⟨taken, htaken⟩ := hs.suffix
      exact ⟨taken, by simp [receive, ← htaken]⟩
    · simp only [receive, List.length_append]
      exact Nat.le_add_right_of_le hs.before_close
    · intro hclosed
      have hdrained := hs.drained hclosed
      simp only [receive, List.length_append, List.length_cons, List.length_nil]
      omega
    · intro hclosed
      simp only [receive, htake]
      exact hs.closed hclosed
  · exact moves_accounts hs hmoves
  · refine ⟨?_, hs.named, hs.balance, hs.suffix, hs.before_close, hs.drained, hs.closed⟩
    simp only [erase_streamOf, erase_made]
    exact hs.sound.erase doomed
  · rcases closeStep_cases hclose with ⟨flag, closer, rfl, hnot, hjoin⟩ | rfl | ⟨hjoin, hexit, rfl⟩
    · refine ⟨hs.sound, hs.named, hs.balance, hs.suffix, hs.before_close, ?_, ?_⟩
      · intro hclosed
        rcases hjoin hclosed with hwas | hwork
        · exact hs.drained hwas
        · simp only [hwork, List.length_nil, Nat.add_zero]
          exact hs.before_close
      · exact fun hclosed => absurd hclosed hnot
    · refine ⟨hs.sound, hs.named, hs.balance, hs.suffix, Nat.le_refl _, ?_, ?_⟩
      · rintro ⟨⟩
      · rintro ⟨⟩
    · refine ⟨hs.sound, hs.named, hs.balance, hs.suffix, hs.before_close, ?_, ?_⟩
      · rintro ⟨⟩
      · exact fun _ => hs.join hjoin hexit

end Steps

/-- In every run, with any number of workers, evictions and calls of `close`, each received
packet is forwarded at most once for each time that it was received, on a stream of its own
job, and none is left out in the end. -/
theorem kept_of_exec (libav : Libav) (cache : StreamCache) (labels : List (Label n))
    (s : SegmentUnpacker n) (hcache : Sound cache.streamOf cache.made)
    (hexec : exec (step libav) (start n cache) labels = some s) : Kept s :=
  (invariant_of_step (fun _ _ _ => step_accounts) (start_accounts hcache) hexec).kept

/-- Two workers, one segment, and `close` until it returns. -/
def twoWorkersClose : List (Label 2) :=
  .receive Segment.sample :: turns 0 9 ++ [.close, .close, .close] ++ turns 0 2 ++ turns 1 2 ++
    [.close]

theorem kept_of_exec_sample :
    ∃ s, exec (step Libav.sample) (start 2 (create 600)) twoWorkersClose = some s ∧
      s.closer = .returned ∧ Kept s :=
  ⟨_, rfl, rfl, kept_of_exec Libav.sample (create 600) twoWorkersClose _ (create_sound 600) rfl⟩

end Media2.SegmentUnpacker

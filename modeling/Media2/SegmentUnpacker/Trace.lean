import Media2.SegmentUnpacker.Calls
import Media2.SegmentUnpacker.Deliveries
import Media2.SegmentUnpacker.Linear

/-!
# Which worker forwards what

A traced unpacker also records which ticket each worker took last, and for each call of
`forward` the number of the segment and the position of the packet in it. Equal packets
of two segments are told apart by these, and the record follows the workers exactly.
-/

namespace Media2.SegmentUnpacker

open Execution StreamCache

variable {n : Nat}

/-- One call of `forward`. -/
structure Sent where
  number : Nat
  position : Nat
  delivery : Delivery
  deriving DecidableEq

/-- An unpacker with the ticket that each worker took last and the calls of `forward`. -/
structure Traced (n : Nat) where
  unpacker : SegmentUnpacker n
  taken : Fin n → Option Ticket
  sent : List Sent

/-- Who holds which ticket after a step. -/
def noteTaken (s : Traced n) : Label n → Fin n → Option Ticket
  | .worker i _ => fun j =>
      if j = i ∧ s.unpacker.workers i = .pop then s.unpacker.work.head? else s.taken j
  | _ => s.taken

/-- The call of `forward` that a step makes, if it makes one. -/
def noteSent (s : Traced n) : Label n → List Sent
  | .worker i _ =>
      match s.unpacker.workers i, s.taken i with
      | .forwarding stream (packet :: packets), some t =>
          [⟨t.number, t.segment.packets.length - (packets.length + 1), stream.forward packet⟩]
      | _, _ => []
  | _ => []

namespace Traced

/-- A step of the unpacker, recorded. -/
def step (libav : Libav) (s : Traced n) (l : Label n) : Option (Traced n) :=
  (SegmentUnpacker.step libav s.unpacker l).map fun u =>
    ⟨u, noteTaken s l, s.sent ++ noteSent s l⟩

def start (n : Nat) (cache : StreamCache) : Traced n :=
  ⟨SegmentUnpacker.start n cache, fun _ => none, []⟩

end Traced

theorem tickets_sorted (received : List Segment) :
    (tickets received).Pairwise fun t t' => t.number < t'.number := by
  apply List.pairwise_map.mp
  rw [tickets_number]
  exact List.pairwise_lt_range'

/-- Tickets of one number are one ticket. -/
theorem eq_of_number {received : List Segment} {t t' : Ticket} (h : t ∈ tickets received)
    (h' : t' ∈ tickets received) (heq : t.number = t'.number) : t = t' := by
  have hsegment : t.segment = t'.segment := by
    have hfirst := mem_tickets h
    rw [heq, mem_tickets h'] at hfirst
    exact (Option.some.inj hfirst).symm
  calc t = ⟨t.segment, t.number⟩ := rfl
    _ = ⟨t'.segment, t'.number⟩ := by rw [hsegment, heq]
    _ = t' := rfl

theorem number_lt {received : List Segment} {t : Ticket} (h : t ∈ tickets received) :
    t.number < received.length := by
  obtain ⟨hlt, -⟩ := List.getElem?_eq_some_iff.mp (mem_tickets h)
  exact hlt
/-- How many packets of a segment were forwarded. -/
def progress (sent : List Sent) (number : Nat) : Nat :=
  sent.countP fun x => x.number = number

theorem progress_snoc_same (sent : List Sent) (x : Sent) :
    progress (sent ++ [x]) x.number = progress sent x.number + 1 := by
  simp [progress]

theorem progress_snoc_other (sent : List Sent) {x : Sent} {number : Nat} (h : x.number ≠ number) :
    progress (sent ++ [x]) number = progress sent number := by
  simp [progress, h]

/-- A worker has left what the record says of the ticket that it took. -/
structure Follows (s : Traced n) (popped : List Ticket) : Prop where
  sound : Sound s.unpacker.cache.streamOf s.unpacker.cache.made
  named : ∀ i t stream, s.unpacker.workers i = .made t stream →
    stream.name = some t.segment.jobId.unparse
  tickets_eq : tickets s.unpacker.received = popped ++ s.unpacker.work
  known : ∀ x ∈ s.sent, ∃ t ∈ popped, t.number = x.number
  taken : ∀ i t, s.taken i = some t → t ∈ popped
  apart : ∀ i j t, s.taken i = some t → s.taken j = some t → i = j
  free : ∀ i, s.taken i = none → (s.unpacker.workers i).inHand = []
  hand : ∀ i t, s.taken i = some t →
    (s.unpacker.workers i).inHand = (pairs t.segment).drop (progress s.sent t.number)
  done : ∀ t ∈ popped, (∀ i, s.taken i ≠ some t) →
    t.segment.packets.length ≤ progress s.sent t.number

theorem start_follows {cache : StreamCache} (h : Sound cache.streamOf cache.made) :
    Follows (Traced.start n cache) [] where
  sound := h
  named := by
    intro i t stream heq
    cases heq
  tickets_eq := rfl
  known := by
    intro x hx
    cases hx
  taken := by
    intro i t heq
    cases heq
  apart := by
    intro i j t heq
    cases heq
  free := by
    intro i _
    rfl
  hand := by
    intro i t heq
    cases heq
  done := by
    intro t ht
    cases ht

section Follows

variable {s : Traced n} {popped : List Ticket}

/-- Nothing was forwarded yet of a segment that no worker took. -/
theorem Follows.progress_eq_zero (h : Follows s popped) {number : Nat}
    (hnew : ∀ t ∈ popped, t.number ≠ number) : progress s.sent number = 0 := by
  rw [progress, List.countP_eq_zero]
  intro x hx
  obtain ⟨t, ht, heq⟩ := h.known x hx
  simpa using heq ▸ hnew t ht

/-- A worker moves on with the same packets in hand. -/
theorem Follows.move (h : Follows s popped) {cache : StreamCache} {events : List Event}
    {calls : List (Option Ticket)} {i : Fin n} {w : Worker}
    (hsound : Sound cache.streamOf cache.made)
    (hnamed : ∀ t stream, w = .made t stream → stream.name = some t.segment.jobId.unparse)
    (hhand : w.inHand = (s.unpacker.workers i).inHand) :
    Follows { s with unpacker :=
      { s.unpacker with cache := cache, events := events, calls := calls }.goto i w } popped := by
  have hin : ∀ j, (set s.unpacker.workers i w j).inHand = (s.unpacker.workers j).inHand := by
    intro j
    rcases set_eq (rfl : set s.unpacker.workers i w j = _) with ⟨rfl, heq⟩ | ⟨-, heq⟩
    · rw [← heq, hhand]
    · rw [← heq]
  refine ⟨hsound, ?_, h.tickets_eq, h.known, h.taken, h.apart, ?_, ?_, h.done⟩
  · intro j t stream hpc
    rcases set_eq hpc with ⟨-, hw⟩ | ⟨-, hold⟩
    · exact hnamed t stream hw
    · exact h.named j t stream hold
  · exact fun j hj => (hin j).trans (h.free j hj)
  · exact fun j t hj => (hin j).trans (h.hand j t hj)

/-- A worker that has nothing left in hand has forwarded all of its ticket. -/
theorem Follows.release (h : Follows s popped) {i : Fin n}
    (hempty : (s.unpacker.workers i).inHand = []) :
    Follows { s with taken := fun j => if j = i then none else s.taken j } popped := by
  have hold : ∀ {j t}, (if j = i then none else s.taken j) = some t → j ≠ i ∧ s.taken j = some t := by
    intro j t hj
    split at hj
    · cases hj
    · exact ⟨‹_›, hj⟩
  refine ⟨h.sound, h.named, h.tickets_eq, h.known, fun j t hj => h.taken j t (hold hj).2,
    fun j k t hj hk => h.apart j k t (hold hj).2 (hold hk).2, ?_,
    fun j t hj => h.hand j t (hold hj).2, ?_⟩
  · intro j hj
    dsimp only at hj
    split at hj
    · rename_i heq
      rw [heq, hempty]
    · exact h.free j hj
  · intro t ht hnobody
    by_cases hi : s.taken i = some t
    · have hhand := h.hand i t hi
      rw [hempty] at hhand
      simpa [pairs] using List.drop_eq_nil_iff.mp hhand.symm
    · apply h.done t ht
      intro j hj
      by_cases hji : j = i
      · exact hi (hji ▸ hj)
      · have hstill := hnobody j
        simp only [if_neg hji] at hstill
        exact hstill hj

/-- A worker without a ticket takes the first one in the queue. -/
theorem Follows.take (h : Follows s popped) {i : Fin n} (hnone : s.taken i = none) {t : Ticket}
    {rest : List Ticket} (hwork : s.unpacker.work = t :: rest) :
    Follows ⟨{ s.unpacker with work := rest }.goto i (.popped (some t)),
      fun j => if j = i then some t else s.taken j, s.sent⟩ (popped ++ [t]) := by
  have htickets : tickets s.unpacker.received = (popped ++ [t]) ++ rest := by
    rw [h.tickets_eq, hwork, List.append_assoc]
    rfl
  have hless : ∀ t' ∈ popped, t'.number < t.number := by
    have hsorted := htickets ▸ tickets_sorted s.unpacker.received
    have hfront := (List.pairwise_append.mp (List.pairwise_append.mp hsorted).1).2.2
    exact fun t' ht' => hfront t' ht' t (List.mem_singleton_self t)
  have hzero : progress s.sent t.number = 0 :=
    h.progress_eq_zero fun t' ht' => Nat.ne_of_lt (hless t' ht')
  have hnobody : ∀ j, s.taken j ≠ some t := fun j hj =>
    absurd (hless t (h.taken j t hj)) (Nat.lt_irrefl _)
  have hcases : ∀ {j t'}, (if j = i then some t else s.taken j) = some t' →
      (j = i ∧ t' = t) ∨ (j ≠ i ∧ s.taken j = some t') := by
    intro j t' hj
    split at hj
    · exact Or.inl ⟨‹_›, (Option.some.inj hj).symm⟩
    · exact Or.inr ⟨‹_›, hj⟩
  refine ⟨h.sound, ?_, htickets, ?_, ?_, ?_, ?_, ?_, ?_⟩
  · intro j t' stream hpc
    rcases set_eq hpc with ⟨-, hw⟩ | ⟨-, hold⟩
    · cases hw
    · exact h.named j t' stream hold
  · intro x hx
    obtain ⟨t', ht', heq⟩ := h.known x hx
    exact ⟨t', List.mem_append_left _ ht', heq⟩
  · intro j t' hj
    rcases hcases hj with ⟨-, rfl⟩ | ⟨-, hold⟩
    · exact List.mem_append_right _ (List.mem_singleton_self _)
    · exact List.mem_append_left _ (h.taken j t' hold)
  · intro j k t' hj hk
    rcases hcases hj with ⟨rfl, rfl⟩ | ⟨-, hold⟩
    · rcases hcases hk with ⟨rfl, -⟩ | ⟨-, hold⟩
      · rfl
      · exact absurd hold (hnobody k)
    · rcases hcases hk with ⟨-, rfl⟩ | ⟨-, hold'⟩
      · exact absurd hold (hnobody j)
      · exact h.apart j k t' hold hold'
  · intro j hj
    dsimp only at hj
    split at hj
    · cases hj
    · rename_i hji
      exact (congrArg Worker.inHand (goto_other _ i _ hji)).trans (h.free j hj)
  · intro j t' hj
    rcases hcases hj with ⟨rfl, rfl⟩ | ⟨hji, hold⟩
    · rw [hzero, List.drop_zero]
      exact congrArg Worker.inHand (if_pos rfl)
    · exact (congrArg Worker.inHand (goto_other _ i _ hji)).trans (h.hand j t' hold)
  · intro t' ht' hfree
    rcases List.mem_append.mp ht' with hold | hnew
    · apply h.done t' hold
      intro j hj
      by_cases hji : j = i
      · rw [hji, hnone] at hj
        cases hj
      · exact hfree j ((if_neg hji).trans hj)
    · rw [List.mem_singleton.mp hnew] at hfree
      exact absurd (if_pos rfl) (hfree i)

/-- What a worker that is about to forward has in hand. -/
theorem Follows.next (h : Follows s popped) {i : Fin n} {stream : Stream} {packet : Packet}
    {packets : List Packet} (hpc : s.unpacker.workers i = .forwarding stream (packet :: packets)) :
    ∃ t, s.taken i = some t ∧ stream.name = some t.segment.jobId.unparse ∧
      t.segment.packets[progress s.sent t.number]? = some packet ∧
      t.segment.packets.length - (packets.length + 1) = progress s.sent t.number := by
  cases htaken : s.taken i with
  | none =>
      have hempty := h.free i htaken
      rw [hpc] at hempty
      cases hempty
  | some t =>
      have hhand := h.hand i t htaken
      rw [hpc] at hhand
      have hget : (pairs t.segment)[progress s.sent t.number]? = some (stream.name, packet) := by
        rw [← List.head?_drop, ← hhand]
        rfl
      have hlength := congrArg List.length hhand
      simp only [Worker.inHand, List.length_map, List.length_cons, List.length_drop,
        pairs] at hlength
      rw [pairs, List.getElem?_map] at hget
      obtain ⟨packet', hpacket', heq⟩ := Option.map_eq_some_iff.mp hget
      obtain ⟨hname, rfl⟩ := Prod.mk.inj heq
      exact ⟨t, rfl, hname.symm, hpacket', by omega⟩

/-- A worker forwards the next packet of its ticket. -/
theorem Follows.forward (h : Follows s popped) {i : Fin n} {stream : Stream} {packet : Packet}
    {packets : List Packet} (hpc : s.unpacker.workers i = .forwarding stream (packet :: packets))
    {t : Ticket} (htaken : s.taken i = some t) (events : List Event) {x : Sent}
    (hx : x.number = t.number) :
    Follows ⟨{ s.unpacker with events := events }.goto i (.forwarding stream packets), s.taken,
      s.sent ++ [x]⟩ popped := by
  have hmem : ∀ t' ∈ popped, t' ∈ tickets s.unpacker.received := fun t' ht' =>
    h.tickets_eq ▸ List.mem_append_left _ ht'
  have hother : ∀ {t'}, t' ∈ popped → t' ≠ t →
      progress (s.sent ++ [x]) t'.number = progress s.sent t'.number := by
    intro t' ht' hne
    apply progress_snoc_other
    rw [hx]
    intro heq
    exact hne (eq_of_number (hmem t' ht') (hmem t (h.taken i t htaken)) heq.symm)
  refine ⟨h.sound, ?_, h.tickets_eq, ?_, h.taken, h.apart, ?_, ?_, ?_⟩
  · intro j t' stream' hpc'
    rcases set_eq hpc' with ⟨-, hw⟩ | ⟨-, hold⟩
    · cases hw
    · exact h.named j t' stream' hold
  · intro y hy
    rcases List.mem_append.mp hy with hold | hnew
    · exact h.known y hold
    · exact ⟨t, h.taken i t htaken, by rw [List.mem_singleton.mp hnew, hx]⟩
  · intro j hj
    have hji : j ≠ i := by
      rintro rfl
      rw [htaken] at hj
      cases hj
    exact (congrArg Worker.inHand (goto_other _ i _ hji)).trans (h.free j hj)
  · intro j t' hj
    by_cases hji : j = i
    · subst hji
      obtain rfl : t = t' := Option.some.inj (htaken.symm.trans hj)
      have hhand := congrArg List.tail (h.hand j t htaken)
      rw [hpc, List.tail_drop] at hhand
      rw [goto_same, ← hx, progress_snoc_same, hx]
      exact hhand
    · have hne : t' ≠ t := by
        rintro rfl
        exact hji (h.apart j i t' hj htaken)
      rw [hother (h.taken j t' hj) hne]
      exact (congrArg Worker.inHand (goto_other _ i _ hji)).trans (h.hand j t' hj)
  · intro t' ht' hnobody
    have hne : t' ≠ t := by
      rintro rfl
      exact hnobody i htaken
    rw [hother ht' hne]
    exact h.done t' ht' hnobody

theorem Follows.receive (h : Follows s popped) (seg : Segment) :
    Follows { s with unpacker := s.unpacker.receive seg } popped := by
  refine ⟨h.sound, h.named, ?_, h.known, h.taken, h.apart, h.free, h.hand, h.done⟩
  simp only [SegmentUnpacker.receive, tickets_snoc, h.tickets_eq, List.append_assoc]

end Follows

/-- Where a worker neither pops nor forwards, a step records nothing. -/
theorem note_quiet {s : Traced n} {i : Fin n} (hpop : s.unpacker.workers i ≠ .pop)
    (hforward : ∀ stream packet packets,
      s.unpacker.workers i ≠ .forwarding stream (packet :: packets)) (now : Int) :
    noteTaken s (.worker i now) = s.taken ∧ noteSent s (.worker i now) = [] := by
  constructor
  · funext j
    exact if_neg fun h => hpop h.2
  · rw [noteSent]
    split
    · rename_i stream packet packets t hpc _
      exact absurd hpc (hforward stream packet packets)
    · rfl

/-- A worker that pops or forwards does not end the process. -/
theorem quiet_of_crash {libav : Libav} {now : Int} {u : SegmentUnpacker n} {i : Fin n} {e : Fault}
    (hfault : u.fault = none) (h : u.doSomeWork libav now i = some { u with fault := some e }) :
    u.workers i ≠ .pop ∧
      ∀ stream packet packets, u.workers i ≠ .forwarding stream (packet :: packets) := by
  constructor
  · intro hpc
    simp only [doSomeWork, hpc] at h
    split at h <;> exact absurd (congrArg SegmentUnpacker.fault (Option.some.inj h)) (by simp [goto, hfault])
  · intro stream packet packets hpc
    simp only [doSomeWork, hpc] at h
    exact absurd (congrArg SegmentUnpacker.fault (Option.some.inj h)) (by simp [goto, hfault])

/-- The recorded steps that are not quiet. -/
theorem Traced.step_cases {libav : Libav} {s s' : Traced n} {l : Label n}
    (h : s.step libav l = some s') :
    ∃ u, SegmentUnpacker.step libav s.unpacker l = some u ∧
      s' = ⟨u, noteTaken s l, s.sent ++ noteSent s l⟩ := by
  obtain ⟨u, hu, rfl⟩ := Option.map_eq_some_iff.mp h
  exact ⟨u, hu, rfl⟩

/-- A forwarding step is recorded with its place in the ticket. -/
theorem Follows.noteSent_eq {s : Traced n} {popped : List Ticket} (h : Follows s popped)
    {i : Fin n} {stream : Stream} {packet : Packet} {packets : List Packet}
    (hpc : s.unpacker.workers i = .forwarding stream (packet :: packets)) {t : Ticket}
    (htaken : s.taken i = some t) (now : Int) :
    noteSent s (.worker i now) =
      [⟨t.number, progress s.sent t.number, stream.forward packet⟩] := by
  obtain ⟨t', htaken', -, -, hposition⟩ := h.next hpc
  obtain rfl : t = t' := Option.some.inj (htaken.symm.trans htaken')
  simp only [noteSent, hpc, htaken, hposition]

/-- The critical section records the ticket that it hands out. -/
theorem pop_follows {libav : Libav} {now : Int} {s : Traced n} {u : SegmentUnpacker n}
    {popped : List Ticket} {i : Fin n} (hs : Follows s popped) (hpc : s.unpacker.workers i = .pop)
    (hstep : s.unpacker.doSomeWork libav now i = some u) :
    ∃ popped', Follows ⟨u, noteTaken s (.worker i now), s.sent ++ noteSent s (.worker i now)⟩
      popped' := by
  have hsent : noteSent s (.worker i now) = [] := by simp only [noteSent, hpc]
  have hrelease : Follows { s with taken := fun j => if j = i then none else s.taken j } popped :=
    hs.release (by rw [hpc]; rfl)
  rw [hsent, List.append_nil]
  simp only [doSomeWork, hpc] at hstep
  cases hwork : s.unpacker.work with
  | nil =>
      simp only [hwork] at hstep
      obtain rfl := Option.some.inj hstep
      have htaken : noteTaken s (.worker i now) = fun j => if j = i then none else s.taken j := by
        funext j
        simp [noteTaken, hpc, hwork]
      rw [htaken]
      exact ⟨popped, hrelease.move hs.sound (by rintro t stream ⟨⟩) (by rw [hpc]; rfl)⟩
  | cons t rest =>
      simp only [hwork] at hstep
      obtain rfl := Option.some.inj hstep
      have htake := hrelease.take (if_pos rfl) hwork
      have htaken : noteTaken s (.worker i now) = fun j => if j = i then some t else
          if j = i then none else s.taken j := by
        funext j
        by_cases hj : j = i
        · simp [noteTaken, hpc, hwork, hj]
        · simp [noteTaken, hj]
      rw [htaken]
      exact ⟨_, htake⟩

theorem moves_follows {libav : Libav} {now : Int} {s : Traced n} {u : SegmentUnpacker n}
    {popped : List Ticket} {i : Fin n} (hs : Follows s popped) (hfault : s.unpacker.fault = none)
    (hstep : s.unpacker.doSomeWork libav now i = some u) :
    ∃ popped', Follows ⟨u, noteTaken s (.worker i now), s.sent ++ noteSent s (.worker i now)⟩
      popped' := by
  have hquiet : s.unpacker.workers i ≠ .pop →
      (∀ stream packet packets,
        s.unpacker.workers i ≠ .forwarding stream (packet :: packets)) →
      Follows { s with unpacker := u } popped →
      ∃ popped', Follows ⟨u, noteTaken s (.worker i now), s.sent ++ noteSent s (.worker i now)⟩
        popped' := by
    intro hpop hforward hfollows
    obtain ⟨htaken, hsent⟩ := note_quiet hpop hforward now
    rw [htaken, hsent, List.append_nil]
    exact ⟨popped, hfollows⟩
  by_cases hpop : s.unpacker.workers i = .pop
  · exact pop_follows hs hpop hstep
  cases doSomeWork_moves hstep with
  | loop w hfrom _ hto _ =>
      refine hquiet hpop ?_ (hs.move hs.sound ?_ (by rw [hfrom.inHand_eq, hto.inHand_eq]))
      · intro stream packet packets hpc
        rw [hpc] at hfrom
        cases hfrom
      · rintro t stream rfl
        cases hto
  | done stream hpc =>
      refine hquiet (by simp [hpc]) (by simp [hpc]) ?_
      exact hs.move hs.sound (by rintro t stream ⟨⟩) (by rw [hpc]; rfl)
  | popNone hpc _ => exact absurd hpc hpop
  | popSome t rest hpc _ => exact absurd hpc hpop
  | call seg hpc =>
      refine hquiet (by simp [hpc]) (by simp [hpc]) ?_
      exact hs.move hs.sound (by rintro t stream ⟨⟩) (by rw [hpc]; cases seg <;> rfl)
  | crash e =>
      obtain ⟨hpop, hforward⟩ := quiet_of_crash hfault hstep
      refine hquiet hpop hforward ?_
      exact ⟨hs.sound, hs.named, hs.tickets_eq, hs.known, hs.taken, hs.apart, hs.free, hs.hand,
        hs.done⟩
  | hit t record hpc hrec =>
      have hstream := streamOf_eq_some s.unpacker.cache hrec
      refine hquiet (by simp [hpc]) (by simp [hpc]) (hs.move ?_ (by rintro t stream ⟨⟩) ?_)
      · rw [renew_streamOf s.unpacker.cache now hrec, renew_made]
        exact hs.sound
      · rw [hpc]
        simp only [Worker.inHand, pairs, hs.sound.named _ _ hstream]
  | miss t hpc _ =>
      refine hquiet (by simp [hpc]) (by simp [hpc]) ?_
      exact hs.move hs.sound (by rintro t stream ⟨⟩) (by rw [hpc]; rfl)
  | found t record hpc hrec =>
      have hstream := streamOf_eq_some s.unpacker.cache hrec
      refine hquiet (by simp [hpc]) (by simp [hpc]) (hs.move ?_ ?_ (by rw [hpc]; rfl))
      · rw [renew_streamOf s.unpacker.cache now hrec, renew_made]
        exact hs.sound
      · intro t' stream heq
        cases heq
        exact hs.sound.named _ _ hstream
  | make t stream hpc hnone hstream =>
      have hsound := hs.sound.insert hstream
      refine hquiet (by simp [hpc]) (by simp [hpc]) (hs.move ?_ ?_ (by rw [hpc]; rfl))
      · rw [insertNew_streamOf, insertNew_made]
        exact hsound
      · intro t' stream' heq
        cases heq
        exact hsound.named _ _ (if_pos rfl)
  | setup t stream hpc =>
      refine hquiet (by simp [hpc]) (by simp [hpc]) (hs.move hs.sound (by rintro t stream ⟨⟩) ?_)
      rw [hpc]
      simp only [Worker.inHand, pairs, hs.named i t stream hpc]
  | forward stream packet packets hpc =>
      obtain ⟨t, htaken, -⟩ := hs.next hpc
      have hsame : noteTaken s (.worker i now) = s.taken := funext fun j => if_neg fun h => hpop h.2
      rw [hs.noteSent_eq hpc htaken now, hsame]
      exact ⟨popped, hs.forward hpc htaken _ rfl⟩

theorem step_follows {libav : Libav} {s s' : Traced n} {l : Label n}
    (hs : ∃ popped, Follows s popped) (h : s.step libav l = some s') :
    ∃ popped, Follows s' popped := by
  obtain ⟨popped, hs⟩ := hs
  obtain ⟨u, hu, rfl⟩ := Traced.step_cases h
  have hkeep : ∀ {l : Label n}, (∀ i now, l ≠ .worker i now) →
      (⟨u, noteTaken s l, s.sent ++ noteSent s l⟩ : Traced n) = { s with unpacker := u } := by
    intro l hl
    cases l with
    | worker i now => exact absurd rfl (hl i now)
    | _ => simp [noteTaken, noteSent]
  obtain ⟨hfault, ⟨seg, rfl, rfl⟩ | ⟨i, now, rfl, -⟩ | ⟨doomed, rfl, rfl⟩ | ⟨rfl, hclose⟩⟩ :=
    SegmentUnpacker.step_cases hu
  · rw [hkeep (by simp)]
    exact ⟨popped, hs.receive seg⟩
  · rw [SegmentUnpacker.step, if_pos hfault] at hu
    exact moves_follows hs hfault hu
  · rw [hkeep (by simp)]
    refine ⟨popped, ?_, hs.named, hs.tickets_eq, hs.known, hs.taken, hs.apart, hs.free, hs.hand,
      hs.done⟩
    simp only [erase_streamOf, erase_made]
    exact hs.sound.erase doomed
  · rw [hkeep (by simp)]
    rcases closeStep_cases hclose with ⟨_, _, rfl, -, -⟩ | rfl | ⟨-, -, rfl⟩ <;>
      exact ⟨popped, hs.sound, hs.named, hs.tickets_eq, hs.known, hs.taken, hs.apart, hs.free,
        hs.hand, hs.done⟩

/-- Recording does not change what the unpacker does. -/
theorem exec_trace (libav : Libav) (s : Traced n) (labels : List (Label n)) :
    (exec (Traced.step libav) s labels).map Traced.unpacker =
      exec (SegmentUnpacker.step libav) s.unpacker labels := by
  induction labels generalizing s with
  | nil => rfl
  | cons l labels ih =>
      rw [exec_cons, exec_cons, Traced.step]
      cases SegmentUnpacker.step libav s.unpacker l with
      | none => rfl
      | some u => exact ih _

theorem step_deliveries {libav : Libav} {s s' : Traced n} {l : Label n} {popped : List Ticket}
    (h : Follows s popped) (hstep : s.step libav l = some s') :
    deliveries s'.unpacker.events =
      deliveries s.unpacker.events ++ (noteSent s l).map Sent.delivery := by
  obtain ⟨u, hu, rfl⟩ := Traced.step_cases hstep
  obtain ⟨hfault, ⟨seg, rfl, rfl⟩ | ⟨i, now, rfl, hmoves⟩ | ⟨doomed, rfl, rfl⟩ | ⟨rfl, hclose⟩⟩ :=
    SegmentUnpacker.step_cases hu
  · simp [noteSent, SegmentUnpacker.receive]
  · rw [SegmentUnpacker.step, if_pos hfault] at hu
    cases hmoves with
    | loop w hfrom _ _ _ =>
        have hsent : noteSent s (.worker i now) = [] := by
          cases hpc : s.unpacker.workers i <;> rw [hpc] at hfrom <;> cases hfrom <;>
            simp only [noteSent, hpc]
        simp [hsent]
    | crash e =>
        obtain ⟨hpop, hforward⟩ := quiet_of_crash hfault hu
        simp [(note_quiet hpop hforward now).2]
    | setup t stream hpc => simp [noteSent, hpc, deliveries]
    | forward stream packet packets hpc =>
        obtain ⟨t, htaken, -⟩ := h.next hpc
        rw [h.noteSent_eq hpc htaken now]
        simp [deliveries]
    | done stream hpc => simp [noteSent, hpc]
    | popNone hpc => simp [noteSent, hpc]
    | popSome t rest hpc => simp [noteSent, hpc]
    | call seg hpc => simp [noteSent, hpc]
    | hit t record hpc => simp [noteSent, hpc]
    | miss t hpc => simp [noteSent, hpc]
    | found t record hpc => simp [noteSent, hpc]
    | make t stream hpc => simp [noteSent, hpc]
  · simp [noteSent]
  · rcases closeStep_cases hclose with ⟨_, _, rfl, -, -⟩ | rfl | ⟨-, -, rfl⟩ <;> simp [noteSent]

/-- The record names every delivery, and no other. -/
theorem sent_deliveries {libav : Libav} {cache : StreamCache} {labels : List (Label n)}
    {s : Traced n} (hcache : Sound cache.streamOf cache.made)
    (hexec : exec (Traced.step libav) (Traced.start n cache) labels = some s) :
    s.sent.map Sent.delivery = deliveries s.unpacker.events := by
  have hinvariant : (∃ popped, Follows s popped) ∧
      s.sent.map Sent.delivery = deliveries s.unpacker.events := by
    apply invariant_of_step _ ⟨⟨[], start_follows hcache⟩, rfl⟩ hexec
    rintro s l s' ⟨⟨popped, hfollows⟩, heq⟩ hstep
    refine ⟨step_follows ⟨popped, hfollows⟩ hstep, ?_⟩
    rw [step_deliveries hfollows hstep, ← heq]
    obtain ⟨u, -, rfl⟩ := Traced.step_cases hstep
    exact List.map_append
  exact hinvariant.2

end Media2.SegmentUnpacker

import Media2.SegmentUnpacker.Trace

/-!
# The order on one job's stream

The workers share one queue, and a worker forwards what it took after it has left the
lock. So segments of one job leave the queue in order, but two workers that hold one
each forward their packets as the schedule has it.
-/

namespace Media2.SegmentUnpacker

open Execution StreamCache

variable {n : Nat}

/-- A packet with its place in what was received. -/
structure Slot where
  number : Nat
  position : Nat
  packet : Packet
  deriving DecidableEq

def Sent.slot (x : Sent) : Slot := ⟨x.number, x.position, x.delivery.packet⟩

/-- The packets of a segment, in order. -/
def slots (t : Ticket) : List Slot :=
  t.segment.packets.zipIdx.map fun entry => ⟨t.number, entry.2, entry.1⟩

/-- The tickets of one job, in the order of reception. -/
def ticketsOf (job : Uuid) (received : List Segment) : List Ticket :=
  (tickets received).filter fun t => t.segment.jobId = job

/-- What was forwarded on a stream of the job. -/
def sentTo (job : Uuid) (sent : List Sent) : List Slot :=
  (sent.filter fun x => x.delivery.name = some job.unparse).map Sent.slot

/-- On the stream of every job the packets are forwarded segment by segment as these were
received, and in the order of each segment. -/
def InOrder (s : Traced n) : Prop :=
  ∀ job, sentTo job s.sent <+: (ticketsOf job s.unpacker.received).flatMap slots

/-- A worker does not forward a packet while another one has packets left of a segment of
the same job that was received earlier. -/
def InTurn (s : Traced n) (l : Label n) : Prop :=
  ∀ i now stream packet packets t, l = .worker i now → s.unpacker.fault = none →
    s.unpacker.workers i = .forwarding stream (packet :: packets) → s.taken i = some t →
    ∀ j t', s.taken j = some t' → t'.segment.jobId = t.segment.jobId → t'.number < t.number →
      (s.unpacker.workers j).inHand = []

theorem ticketsOf_snoc (job : Uuid) (received : List Segment) (seg : Segment) :
    ticketsOf job (received ++ [seg]) = ticketsOf job received ++
      if seg.jobId = job then [⟨seg, received.length⟩] else [] := by
  rw [ticketsOf, tickets_snoc, List.filter_append]
  by_cases hjob : seg.jobId = job
  · simp [ticketsOf, hjob]
  · simp [ticketsOf, hjob]

/-- What is left to forward of the segments. -/
def left (sent : List Sent) (ts : List Ticket) : List Slot :=
  ts.flatMap fun t => (slots t).drop (progress sent t.number)

theorem left_append (sent : List Sent) (ts ts' : List Ticket) :
    left sent (ts ++ ts') = left sent ts ++ left sent ts' := List.flatMap_append

theorem left_cons (sent : List Sent) (t : Ticket) (ts : List Ticket) :
    left sent (t :: ts) = (slots t).drop (progress sent t.number) ++ left sent ts := List.flatMap_cons

/-- A forwarded packet does not change what is left of other segments. -/
theorem left_snoc (sent : List Sent) {x : Sent} {ts : List Ticket}
    (h : ∀ t ∈ ts, x.number ≠ t.number) : left (sent ++ [x]) ts = left sent ts := by
  apply List.flatMap_congr
  intro t ht
  rw [progress_snoc_other sent (h t ht)]

theorem mem_slots {t : Ticket} {slot : Slot} (h : slot ∈ slots t) : slot.number = t.number := by
  obtain ⟨entry, -, rfl⟩ := List.mem_map.mp h
  rfl

/-- What is left of a segment begins with the packet in its next position. -/
theorem slots_drop {t : Ticket} {k : Nat} {packet : Packet}
    (h : t.segment.packets[k]? = some packet) :
    (slots t).drop k = ⟨t.number, k, packet⟩ :: (slots t).drop (k + 1) := by
  obtain ⟨hlt, hget⟩ := List.getElem?_eq_some_iff.mp h
  have hlen : k < (slots t).length := by simpa [slots] using hlt
  rw [List.drop_eq_getElem_cons hlen]
  simp [slots, hget]

/-- What was forwarded for each job and what is left make up what was received. -/
def Accounted (s : Traced n) : Prop :=
  ∀ job, (ticketsOf job s.unpacker.received).flatMap slots =
    sentTo job s.sent ++ left s.sent (ticketsOf job s.unpacker.received)

theorem Accounted.inOrder {s : Traced n} (h : Accounted s) : InOrder s := by
  intro job
  rw [h job]
  exact List.prefix_append _ _

section Turns

variable {s : Traced n} {popped : List Ticket}

theorem sentTo_snoc (job : Uuid) (sent : List Sent) (x : Sent) :
    sentTo job (sent ++ [x]) =
      sentTo job sent ++ if x.delivery.name = some job.unparse then [x.slot] else [] := by
  rw [sentTo, List.filter_append]
  by_cases hname : x.delivery.name = some job.unparse
  · simp [sentTo, hname]
  · simp [sentTo, hname]

/-- The job's segments before and after one of them. -/
theorem split_at {received : List Segment} {t : Ticket} (h : t ∈ tickets received) :
    ∃ before after, ticketsOf t.segment.jobId received = before ++ t :: after ∧
      (∀ t' ∈ before, t'.number < t.number) ∧ ∀ t' ∈ after, t.number < t'.number := by
  have hmem : t ∈ ticketsOf t.segment.jobId received := List.mem_filter.mpr ⟨h, by simp⟩
  obtain ⟨before, after, hsplit⟩ := List.append_of_mem hmem
  have hsorted : (ticketsOf t.segment.jobId received).Pairwise
      fun t t' => t.number < t'.number := (tickets_sorted received).filter _
  rw [hsplit] at hsorted
  obtain ⟨-, hafter, hbefore⟩ := List.pairwise_append.mp hsorted
  exact ⟨before, after, hsplit, fun t' ht' => hbefore t' ht' t (List.mem_cons_self ..),
    (List.pairwise_cons.mp hafter).1⟩

/-- A received segment that was taken before another one is either in a worker's hand or
has been forwarded. -/
theorem Follows.left_eq_nil (h : Follows s popped) {t : Ticket} (ht : t ∈ popped)
    (hhand : ∀ i, s.taken i = some t → (s.unpacker.workers i).inHand = []) :
    (slots t).drop (progress s.sent t.number) = [] := by
  have hlength : (slots t).length = t.segment.packets.length := by simp [slots]
  rw [List.drop_eq_nil_iff, hlength]
  by_cases hheld : ∃ i, s.taken i = some t
  · obtain ⟨i, hi⟩ := hheld
    have hdrop := (h.hand i t hi).symm.trans (hhand i hi)
    simpa [pairs] using List.drop_eq_nil_iff.mp hdrop
  · exact h.done t ht fun i hi => hheld ⟨i, hi⟩

/-- Of the packets that are left of a job, a worker's next one comes after those of the
segments before. -/
theorem Follows.left_split (h : Follows s popped) {i : Fin n} {stream : Stream} {packet : Packet}
    {packets : List Packet} (hpc : s.unpacker.workers i = .forwarding stream (packet :: packets))
    {t : Ticket} (htaken : s.taken i = some t) :
    ∃ before after, ticketsOf t.segment.jobId s.unpacker.received = before ++ t :: after ∧
      (∀ t' ∈ before, t'.number < t.number) ∧ (∀ t' ∈ after, t.number < t'.number) ∧
      left s.sent (before ++ t :: after) = left s.sent before ++
        ⟨t.number, progress s.sent t.number, packet⟩ ::
          ((slots t).drop (progress s.sent t.number + 1) ++ left s.sent after) := by
  have hmem : t ∈ tickets s.unpacker.received :=
    h.tickets_eq ▸ List.mem_append_left _ (h.taken i t htaken)
  obtain ⟨before, after, hsplit, hbefore, hafter⟩ := split_at hmem
  obtain ⟨t', htaken', -, hget, -⟩ := h.next hpc
  obtain rfl : t = t' := Option.some.inj (htaken.symm.trans htaken')
  refine ⟨before, after, hsplit, hbefore, hafter, ?_⟩
  rw [left_append, left_cons, slots_drop hget, List.cons_append]

/-- A packet that is forwarded in turn is the first one that is left of its job. -/
theorem Follows.left_nil_of_inTurn (h : Follows s popped) {l : Label n} (hok : InTurn s l)
    {i : Fin n} {now : Int} (hl : l = .worker i now) (hfault : s.unpacker.fault = none)
    {stream : Stream} {packet : Packet} {packets : List Packet}
    (hpc : s.unpacker.workers i = .forwarding stream (packet :: packets)) {t : Ticket}
    (htaken : s.taken i = some t) {before after : List Ticket}
    (hsplit : ticketsOf t.segment.jobId s.unpacker.received = before ++ t :: after)
    (hbefore : ∀ t' ∈ before, t'.number < t.number) : left s.sent before = [] := by
  apply List.flatMap_eq_nil_iff.mpr
  intro t' ht'
  have hmem : t' ∈ ticketsOf t.segment.jobId s.unpacker.received :=
    hsplit ▸ List.mem_append_left _ ht'
  obtain ⟨hticket, hjob⟩ := List.mem_filter.mp hmem
  have hpopped : t' ∈ popped := by
    rw [h.tickets_eq] at hticket
    cases List.mem_append.mp hticket with
    | inl hmem => exact hmem
    | inr hqueued =>
        have hsorted := h.tickets_eq ▸ tickets_sorted s.unpacker.received
        have hless := (List.pairwise_append.mp hsorted).2.2 t (h.taken i t htaken) t' hqueued
        exact absurd hless (Nat.lt_asymm (hbefore t' ht'))
  apply h.left_eq_nil hpopped
  intro j hj
  exact hok i now stream packet packets t hl hfault hpc htaken j t' hj (by simpa using hjob)
    (hbefore t' ht')

/-- Forwarding in turn keeps the account. -/
theorem Accounted.forward (ha : Accounted s) (h : Follows s popped) {i : Fin n} {stream : Stream}
    {packet : Packet} {packets : List Packet}
    (hpc : s.unpacker.workers i = .forwarding stream (packet :: packets)) {t : Ticket}
    (htaken : s.taken i = some t)
    (hturn : ∀ before after, ticketsOf t.segment.jobId s.unpacker.received = before ++ t :: after →
      (∀ t' ∈ before, t'.number < t.number) → left s.sent before = []) (job : Uuid) :
    let x : Sent := ⟨t.number, progress s.sent t.number, stream.forward packet⟩
    (ticketsOf job s.unpacker.received).flatMap slots =
      sentTo job (s.sent ++ [x]) ++ left (s.sent ++ [x]) (ticketsOf job s.unpacker.received) := by
  intro x
  obtain ⟨t', htaken', hname, -⟩ := h.next hpc
  obtain rfl : t = t' := Option.some.inj (htaken.symm.trans htaken')
  have hxname : x.delivery.name = some t.segment.jobId.unparse := hname
  rw [sentTo_snoc, hxname, ha job]
  by_cases hjob : t.segment.jobId = job
  · subst hjob
    obtain ⟨before, after, hsplit, hbefore, hafter, hleft⟩ := h.left_split hpc htaken
    have hnil := hturn before after hsplit hbefore
    have hbefore' : left (s.sent ++ [x]) before = left s.sent before :=
      left_snoc s.sent fun t' ht' => Nat.ne_of_gt (hbefore t' ht')
    have hafter' : left (s.sent ++ [x]) after = left s.sent after :=
      left_snoc s.sent fun t' ht' => Nat.ne_of_lt (hafter t' ht')
    have hself : progress (s.sent ++ [x]) t.number = progress s.sent t.number + 1 :=
      progress_snoc_same s.sent x
    rw [hsplit, hleft, left_append, left_cons, hbefore', hafter', hself, hnil, if_pos rfl]
    simp only [List.nil_append, List.append_assoc, List.singleton_append]
    rfl
  · have hne : some t.segment.jobId.unparse ≠ some job.unparse := by
      intro heq
      exact hjob (Uuid.unparse_inj.mp (Option.some.inj heq))
    rw [if_neg hne, List.append_nil, left_snoc]
    intro t' ht' heq
    obtain ⟨hticket, hjob'⟩ := List.mem_filter.mp ht'
    have hmem : t ∈ tickets s.unpacker.received :=
      h.tickets_eq ▸ List.mem_append_left _ (h.taken i t htaken)
    obtain rfl := eq_of_number hmem hticket heq
    exact hjob (by simpa using hjob')

/-- A new segment has nothing forwarded. -/
theorem Accounted.receive (ha : Accounted s) (h : Follows s popped) (seg : Segment) (job : Uuid) :
    (ticketsOf job (s.unpacker.received ++ [seg])).flatMap slots =
      sentTo job s.sent ++ left s.sent (ticketsOf job (s.unpacker.received ++ [seg])) := by
  have hzero : progress s.sent s.unpacker.received.length = 0 := by
    apply h.progress_eq_zero
    intro t ht
    have hmem : t ∈ tickets s.unpacker.received := h.tickets_eq ▸ List.mem_append_left _ ht
    exact Nat.ne_of_lt (number_lt hmem)
  rw [ticketsOf_snoc, List.flatMap_append, ha job, left_append, List.append_assoc]
  congr 2
  by_cases hjob : seg.jobId = job
  · simp [hjob, left, hzero]
  · simp [hjob, left]

theorem noteSent_cases (s : Traced n) (l : Label n) :
    noteSent s l = [] ∨ ∃ i now stream packet packets t, l = .worker i now ∧
      s.unpacker.workers i = .forwarding stream (packet :: packets) ∧ s.taken i = some t := by
  cases l with
  | worker i now =>
      rw [noteSent]
      split
      · rename_i stream packet packets t hpc htaken
        exact Or.inr ⟨i, now, stream, packet, packets, t, rfl, hpc, htaken⟩
      · exact Or.inl rfl
  | _ => exact Or.inl rfl

theorem worker_received {libav : Libav} {u u' : SegmentUnpacker n} {l : Label n}
    (h : SegmentUnpacker.step libav u l = some u') :
    u'.received = u.received ∨ ∃ seg, l = .receive seg ∧ u'.received = u.received ++ [seg] := by
  obtain ⟨-, ⟨seg, rfl, rfl⟩ | ⟨i, now, -, hmoves⟩ | ⟨doomed, -, rfl⟩ | ⟨-, hclose⟩⟩ :=
    SegmentUnpacker.step_cases h
  · exact Or.inr ⟨seg, rfl, rfl⟩
  · cases hmoves <;> exact Or.inl rfl
  · exact Or.inl rfl
  · rcases closeStep_cases hclose with ⟨_, _, rfl, -, -⟩ | rfl | ⟨-, -, rfl⟩ <;> exact Or.inl rfl

theorem step_accounted {libav : Libav} {s' : Traced n} {l : Label n} (h : Follows s popped)
    (ha : Accounted s) (hok : InTurn s l) (hstep : s.step libav l = some s') : Accounted s' := by
  obtain ⟨u, hu, rfl⟩ := Traced.step_cases hstep
  obtain ⟨hfault, -⟩ := SegmentUnpacker.step_cases hu
  intro job
  rcases noteSent_cases s l with hnil | ⟨i, now, stream, packet, packets, t, rfl, hpc, htaken⟩
  · rw [hnil, List.append_nil]
    rcases worker_received hu with hsame | ⟨seg, rfl, hnew⟩
    · rw [hsame]
      exact ha job
    · rw [hnew]
      exact ha.receive h seg job
  · have hsame : u.received = s.unpacker.received := by
      rcases worker_received hu with hsame | ⟨seg, hl, -⟩
      · exact hsame
      · cases hl
    rw [h.noteSent_eq hpc htaken now, hsame]
    apply ha.forward h hpc htaken
    intro before after hsplit hbefore
    exact h.left_nil_of_inTurn hok rfl hfault hpc htaken hsplit hbefore

/-- A packet that is forwarded out of turn is not the next one of its job. -/
theorem inTurn_of_next {libav : Libav} {l : Label n} (h : Follows s popped) (ha : Accounted s)
    (hnext : ∀ s', s.step libav l = some s' → InOrder s') : InTurn s l := by
  rintro i now stream packet packets t rfl hfault hpc htaken j t' htaken' hjob hless
  obtain ⟨before, after, hsplit, hbefore, hafter, hleft⟩ := h.left_split hpc htaken
  -- what comes first of the job's packets belongs to a segment before this one
  have hnil : left s.sent before = [] := by
    have hstep : s.step libav (.worker i now) =
        some ⟨{ s.unpacker with events := s.unpacker.events ++
          [Event.forward (stream.forward packet)] }.goto i (.forwarding stream packets),
          noteTaken s (.worker i now), s.sent ++ noteSent s (.worker i now)⟩ := by
      simp only [Traced.step, SegmentUnpacker.step, hfault, if_true, doSomeWork, hpc,
        Option.map_some]
    obtain ⟨_, htaken'', hname, -⟩ := h.next hpc
    obtain rfl := Option.some.inj (htaken.symm.trans htaken'')
    have horder := hnext _ hstep t.segment.jobId
    have hxname : (stream.forward packet).name = some t.segment.jobId.unparse := hname
    rw [h.noteSent_eq hpc htaken now, sentTo_snoc, if_pos hxname] at horder
    have hreceived : ({ s.unpacker with events := s.unpacker.events ++
        [Event.forward (stream.forward packet)] }.goto i
          (.forwarding stream packets)).received = s.unpacker.received := rfl
    rw [hreceived, ha t.segment.jobId, List.prefix_append_right_inj, hsplit, left_append] at horder
    cases hall : left s.sent before with
    | nil => rfl
    | cons slot rest =>
        rw [hall, List.cons_append] at horder
        obtain ⟨heq, -⟩ := List.cons_prefix_cons.mp horder
        have hmem : slot ∈ left s.sent before := hall ▸ List.mem_cons_self ..
        obtain ⟨t'', ht'', hslot⟩ := List.mem_flatMap.mp hmem
        have hnumber := mem_slots (List.mem_of_mem_drop hslot)
        have hbelow := hbefore t'' ht''
        rw [← hnumber, ← heq] at hbelow
        exact absurd hbelow (Nat.lt_irrefl _)
  have hmem : t' ∈ ticketsOf t.segment.jobId s.unpacker.received := by
    apply List.mem_filter.mpr
    exact ⟨h.tickets_eq ▸ List.mem_append_left _ (h.taken j t' htaken'), by simpa using hjob⟩
  have hin : t' ∈ before := by
    rw [hsplit] at hmem
    rcases List.mem_append.mp hmem with hin | hin
    · exact hin
    · rcases List.mem_cons.mp hin with rfl | hin
      · exact absurd hless (Nat.lt_irrefl _)
      · exact absurd (hafter t' hin) (Nat.lt_asymm hless)
  have hdone := List.flatMap_eq_nil_iff.mp hnil t' hin
  have hlength : (slots t').length = (pairs t'.segment).length := by simp [slots, pairs]
  rw [h.hand j t' htaken', List.drop_eq_nil_iff, ← hlength]
  exact List.drop_eq_nil_iff.mp hdone

end Turns

/-- In a run the packets of every job are forwarded in order if and only if no worker
forwards a packet while another one has packets left of an earlier segment of the job. -/
theorem inOrder_iff (libav : Libav) {cache : StreamCache}
    (hcache : Sound cache.streamOf cache.made) (labels : List (Label n)) :
    Always (Traced.step libav) InOrder (Traced.start n cache) labels ↔
      Guarded (Traced.step libav) InTurn (Traced.start n cache) labels := by
  have hstart : Accounted (Traced.start n cache) := fun _ => rfl
  apply always_iff_guarded (I := fun s => (∃ popped, Follows s popped) ∧ Accounted s) _ _ _
    ⟨⟨[], start_follows hcache⟩, hstart⟩
  · rintro s l - s' ⟨⟨popped, hfollows⟩, ha⟩ hok hstep
    exact ⟨step_follows ⟨popped, hfollows⟩ hstep, step_accounted hfollows ha hok hstep⟩
  · exact fun s hs => hs.2.inOrder
  · rintro s l - ⟨⟨popped, hfollows⟩, ha⟩ hnext
    exact inTurn_of_next hfollows ha hnext

/-- A worker is always in turn when there is no other one. -/
theorem inOrder_of_one_worker (libav : Libav) {cache : StreamCache}
    (hcache : Sound cache.streamOf cache.made) (labels : List (Label 1)) :
    Always (Traced.step libav) InOrder (Traced.start 1 cache) labels := by
  apply (inOrder_iff libav hcache labels).mpr
  intro pre l _ s _ i now stream packet packets t _ _ _ htaken j t' htaken' _ hless
  obtain rfl : i = j := Subsingleton.elim i j
  obtain rfl : t = t' := Option.some.inj (htaken.symm.trans htaken')
  exact absurd hless (Nat.lt_irrefl _)

/-- Two workers take a segment each, and the second one forwards first. -/
def overtaking : List (Label 2) :=
  [.receive Segment.sample, .receive Segment.sample] ++ turns 0 7 ++ turns 1 6

/-- The packet of the second segment is forwarded before the packet of the first. -/
theorem forwarded_out_of_order :
    ∃ s, exec (Traced.step Libav.sample) (Traced.start 2 (StreamCache.create 600)) overtaking =
        some s ∧ s.sent.map Sent.number = [1] ∧ ¬ InOrder s := by
  refine ⟨_, rfl, rfl, fun h => ?_⟩
  have horder := h Uuid.null
  revert horder
  decide

theorem inOrder_iff_sample :
    Always (Traced.step Libav.sample) InOrder (Traced.start 2 (StreamCache.create 600))
        overtaking ↔
      Guarded (Traced.step Libav.sample) InTurn (Traced.start 2 (StreamCache.create 600))
        overtaking :=
  inOrder_iff Libav.sample (create_sound 600) overtaking

end Media2.SegmentUnpacker

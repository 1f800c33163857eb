import Media2.SegmentUnpacker

/-!
# One worker

With a single worker the packets forwarded, what is left of the segment in the
worker's hand and what is queued always make up the received packets in order.
The law does not care which streams the cache makes or forgets, as it only caches
a stream under its own job's name.
-/

namespace Media2.SegmentUnpacker

open Execution StreamCache

/-- The packets of a segment with the name of its job. -/
def pairs (seg : Segment) : List (Option String × Packet) :=
  seg.packets.map fun packet => (some seg.jobId.unparse, packet)

/-- What was forwarded: the name of each delivery's stream with the packet. -/
def forwarded (events : List Event) : List (Option String × Packet) :=
  events.filterMap fun
    | .setup _ => none
    | .forward d => some (d.name, d.packet)

/-- The forwarded packets are a prefix of the received ones, each under its own
segment's job, and once `close` has returned they contain all that was received
before it was called. -/
structure UnpackedLinearly {n : Nat} (s : SegmentUnpacker n) : Prop where
  in_order : forwarded s.events <+: s.received.flatMap pairs
  complete : s.closer = .returned →
    (s.received.take s.receivedAtClose).flatMap pairs <+: forwarded s.events

/-- What a worker has still to forward of the segment it took. -/
def Worker.inHand : Worker → List (Option String × Packet)
  | .popped (some t) => pairs t.segment
  | .unpack (some t) => pairs t.segment
  | .missed t => pairs t.segment
  | .made t _ => pairs t.segment
  | .forwarding stream packets => packets.map fun packet => (stream.name, packet)
  | _ => []

/-- What is queued. -/
def queued (work : List Ticket) : List (Option String × Packet) :=
  work.flatMap fun t => pairs t.segment

/-- The law of the single worker. -/
structure Linear (s : SegmentUnpacker 1) : Prop where
  sound : Sound s.cache.streamOf s.cache.made
  named : ∀ t stream, s.workers 0 = .made t stream → stream.name = some t.segment.jobId.unparse
  law : s.received.flatMap pairs = forwarded s.events ++ (s.workers 0).inHand ++ queued s.work
  suffix : s.work.map Ticket.segment <:+ s.received
  before_close : s.receivedAtClose ≤ s.received.length
  drained : s.closer = .joining → s.receivedAtClose + s.work.length ≤ s.received.length
  complete : s.closer = .returned →
    (s.received.take s.receivedAtClose).flatMap pairs <+: forwarded s.events

theorem Linear.unpacked {s : SegmentUnpacker 1} (h : Linear s) : UnpackedLinearly s where
  in_order := by
    rw [h.law, List.append_assoc]
    exact List.prefix_append _ _
  complete := h.complete

theorem start_linear {cache : StreamCache} (h : Sound cache.streamOf cache.made) :
    Linear (start 1 cache) where
  sound := h
  named := by
    intro t stream heq
    cases heq
  law := rfl
  suffix := List.suffix_refl []
  before_close := Nat.le_refl 0
  drained := by
    intro heq
    cases heq
  complete := by
    intro heq
    cases heq

theorem forwarded_setup (events : List Event) (id : Nat) :
    forwarded (events ++ [.setup id]) = forwarded events := by
  simp [forwarded]

theorem forwarded_forward (events : List Event) (d : Delivery) :
    forwarded (events ++ [.forward d]) = forwarded events ++ [(d.name, d.packet)] := by
  simp [forwarded]

theorem Worker.Idle.inHand_eq {w : Worker} (h : w.Idle) : w.inHand = [] := by
  cases h <;> rfl

section Steps

variable {s s' : SegmentUnpacker 1}

/-- A step of the worker that leaves the queue, the received segments and the place
of `close` alone, and hands on what it had in hand. -/
theorem Linear.work (h : Linear s) {cache : StreamCache} {events : List Event} {w : Worker}
    (hsound : Sound cache.streamOf cache.made)
    (hnamed : ∀ t stream, w = .made t stream → stream.name = some t.segment.jobId.unparse)
    (hhand : forwarded events ++ w.inHand = forwarded s.events ++ (s.workers 0).inHand)
    (hgrow : forwarded s.events <+: forwarded events) (calls : List (Option Ticket)) :
    Linear ({ s with cache := cache, events := events, calls := calls }.goto 0 w) where
  sound := hsound
  named := hnamed
  law := by
    rw [goto_same, goto_events, hhand]
    exact h.law
  suffix := h.suffix
  before_close := h.before_close
  drained := h.drained
  complete hclosed := (h.complete hclosed).trans hgrow

/-- The worker takes the next segment in hand. -/
theorem Linear.pop (h : Linear s) {t : Ticket} {rest : List Ticket} (hpc : s.workers 0 = .pop)
    (hwork : s.work = t :: rest) :
    Linear ({ s with work := rest }.goto 0 (.popped (some t))) where
  sound := h.sound
  named := by
    intro t' stream heq
    cases heq
  law := by
    have hlaw := h.law
    rw [hpc, hwork] at hlaw
    rw [goto_same]
    simpa [Worker.inHand, queued] using hlaw
  suffix := by
    have hsuffix := h.suffix
    rw [hwork, List.map_cons] at hsuffix
    exact (List.suffix_cons _ _).trans hsuffix
  before_close := h.before_close
  drained := by
    intro hclosed
    have hdrained := h.drained hclosed
    rw [hwork, List.length_cons] at hdrained
    change s.receivedAtClose + rest.length ≤ s.received.length
    omega
  complete := h.complete

theorem moves_linear {libav : Libav} {now : Int} {i : Fin 1} (hs : Linear s)
    (h : Moves libav now s i s') : Linear s' := by
  obtain rfl : i = 0 := Subsingleton.elim i 0
  have hrefl := List.prefix_refl (forwarded s.events)
  cases h with
  | loop w hfrom _ hto _ =>
      refine hs.work hs.sound ?_ ?_ hrefl s.calls
      · rintro t stream rfl
        cases hto
      · rw [hfrom.inHand_eq, hto.inHand_eq]
  | done stream hpc =>
      exact hs.work hs.sound (by rintro t stream ⟨⟩) (by rw [hpc]; rfl) hrefl s.calls
  | popNone hpc _ =>
      exact hs.work hs.sound (by rintro t stream ⟨⟩) (by rw [hpc]; rfl) hrefl s.calls
  | popSome t rest hpc hwork => exact hs.pop hpc hwork
  | call seg hpc =>
      refine hs.work hs.sound (by rintro t stream ⟨⟩) ?_ hrefl (s.calls ++ [seg])
      cases seg <;> rw [hpc] <;> rfl
  | crash e =>
      exact ⟨hs.sound, hs.named, hs.law, hs.suffix, hs.before_close, hs.drained, hs.complete⟩
  | hit t record hpc hrec =>
      have hstream := streamOf_eq_some s.cache hrec
      refine hs.work ?_ (by rintro t stream ⟨⟩) ?_ hrefl s.calls
      · rw [renew_streamOf s.cache now hrec, renew_made]
        exact hs.sound
      · rw [hpc]
        simp only [Worker.inHand, pairs, hs.sound.named _ _ hstream]
  | miss t hpc _ =>
      exact hs.work hs.sound (by rintro t stream ⟨⟩) (by rw [hpc]; rfl) hrefl s.calls
  | found t record hpc hrec =>
      have hstream := streamOf_eq_some s.cache hrec
      refine hs.work ?_ ?_ (by rw [hpc]; rfl) hrefl s.calls
      · rw [renew_streamOf s.cache now hrec, renew_made]
        exact hs.sound
      · intro t' stream heq
        cases heq
        exact hs.sound.named _ _ hstream
  | make t stream hpc hnone hstream =>
      have hsound := hs.sound.insert hstream
      refine hs.work ?_ ?_ (by rw [hpc]; rfl) hrefl s.calls
      · rw [insertNew_streamOf, insertNew_made]
        exact hsound
      · intro t' stream' heq
        cases heq
        exact hsound.named _ _ (if_pos rfl)
  | setup t stream hpc =>
      refine hs.work hs.sound (by rintro t stream ⟨⟩) ?_ ?_ s.calls
      · rw [forwarded_setup, hpc]
        simp only [Worker.inHand, pairs, hs.named t stream hpc]
      · rw [forwarded_setup]
  | forward stream packet packets hpc =>
      refine hs.work hs.sound (by rintro t stream ⟨⟩) ?_ ?_ s.calls
      · rw [forwarded_forward, hpc, List.append_assoc]
        rfl
      · rw [forwarded_forward]
        exact List.prefix_append _ _

/-- When all that was received before `close` is off the queue and the worker has
left its loop, it has been forwarded. -/
theorem Linear.close (h : Linear s) (hclosed : s.closer = .joining)
    (hexit : s.workers 0 = .exited) :
    (s.received.take s.receivedAtClose).flatMap pairs <+: forwarded s.events := by
  obtain ⟨taken, htaken⟩ := h.suffix
  have hlen := congrArg List.length htaken
  rw [List.length_append, List.length_map] at hlen
  have hdrained := h.drained hclosed
  have hlaw := h.law
  rw [hexit, ← htaken, List.flatMap_append, queued, List.flatMap_map] at hlaw
  have hdone : taken.flatMap pairs = forwarded s.events := by
    simpa [Worker.inHand] using hlaw
  have htake : s.received.take s.receivedAtClose = taken.take s.receivedAtClose := by
    rw [← htaken, List.take_append_of_le_length (by omega)]
  rw [htake, ← hdone]
  calc (taken.take s.receivedAtClose).flatMap pairs
      <+: (taken.take s.receivedAtClose).flatMap pairs ++
        (taken.drop s.receivedAtClose).flatMap pairs := List.prefix_append _ _
    _ = taken.flatMap pairs := by rw [← List.flatMap_append, List.take_append_drop]

theorem step_linear {libav : Libav} {l : Label 1} (hs : Linear s) (h : s.step libav l = some s') :
    Linear s' := by
  obtain ⟨-, ⟨seg, -, rfl⟩ | ⟨i, now, -, hmoves⟩ | ⟨doomed, -, rfl⟩ | ⟨-, hclose⟩⟩ := step_cases h
  · have htake : (s.received ++ [seg]).take s.receivedAtClose =
        s.received.take s.receivedAtClose := List.take_append_of_le_length hs.before_close
    refine ⟨hs.sound, hs.named, ?_, ?_, ?_, ?_, ?_⟩
    · simp only [receive, List.flatMap_append, hs.law, queued, List.append_assoc]
      rfl
    · obtain ⟨taken, htaken⟩ := hs.suffix
      exact ⟨taken, by simp [receive, ← htaken]⟩
    · simp only [receive, List.length_append]
      exact Nat.le_add_right_of_le hs.before_close
    · intro hclosed
      have hdrained := hs.drained hclosed
      simp only [receive, List.length_append, List.length_cons, List.length_nil]
      omega
    · intro hclosed
      simp only [receive, htake]
      exact hs.complete hclosed
  · exact moves_linear hs hmoves
  · refine ⟨?_, hs.named, hs.law, hs.suffix, hs.before_close, hs.drained, hs.complete⟩
    simp only [erase_streamOf, erase_made]
    exact hs.sound.erase doomed
  · rcases closeStep_cases hclose with ⟨flag, closer, rfl, hnot, hjoin⟩ | rfl | ⟨hjoin, hexit, rfl⟩
    · refine ⟨hs.sound, hs.named, hs.law, hs.suffix, hs.before_close, ?_, ?_⟩
      · intro hclosed
        rcases hjoin hclosed with hwas | hwork
        · exact hs.drained hwas
        · simp only [hwork, List.length_nil, Nat.add_zero]
          exact hs.before_close
      · exact fun hclosed => absurd hclosed hnot
    · refine ⟨hs.sound, hs.named, hs.law, hs.suffix, Nat.le_refl _, ?_, ?_⟩
      · intro heq
        cases heq
      · intro heq
        cases heq
    · refine ⟨hs.sound, hs.named, hs.law, hs.suffix, hs.before_close, ?_, ?_⟩
      · intro heq
        cases heq
      · exact fun _ => hs.close hjoin (hexit 0)

end Steps

theorem linear_of_exec {libav : Libav} {cache : StreamCache} {labels : List (Label 1)}
    {s : SegmentUnpacker 1} (hcache : Sound cache.streamOf cache.made)
    (hexec : exec (step libav) (start 1 cache) labels = some s) : Linear s :=
  invariant_of_step (fun _ _ _ => step_linear) (start_linear hcache) hexec

/-- In every run of an unpacker with one worker, with any evictions and any calls of
`close`, the packets are unpacked linearly. -/
theorem unpackedLinearly (libav : Libav) (cache : StreamCache) (labels : List (Label 1))
    (s : SegmentUnpacker 1) (hcache : Sound cache.streamOf cache.made)
    (hexec : exec (step libav) (start 1 cache) labels = some s) : UnpackedLinearly s :=
  (linear_of_exec hcache hexec).unpacked

/-- One segment is received and unpacked, and `close` is called and returns. -/
def unpackAndClose : List (Label 1) :=
  .receive Segment.sample :: turns 0 9 ++ [.close, .close, .close] ++ turns 0 2 ++ [.close]

theorem unpackedLinearly_sample :
    ∃ s, exec (step Libav.sample) (start 1 (create 600)) unpackAndClose = some s ∧
      s.closer = .returned ∧ UnpackedLinearly s :=
  ⟨_, rfl, rfl,
    unpackedLinearly Libav.sample (create 600) unpackAndClose _ (create_sound 600) rfl⟩

end Media2.SegmentUnpacker

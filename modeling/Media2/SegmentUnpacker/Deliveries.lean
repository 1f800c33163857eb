import Media2.SegmentUnpacker.Linear
import Media2.SegmentUnpacker.Setup

/-!
# What subscribers are given

A subscriber that `setupStream` connects hears every packet forwarded on the
streams it was connected to, and what it is told about a stream is rebuilt from one
of the received segments.
-/

namespace Media2.SegmentUnpacker

open Execution StreamCache

variable {n : Nat}

/-- Everything that was forwarded. -/
def deliveries (events : List Event) : List Delivery :=
  events.filterMap fun
    | .setup _ => none
    | .forward d => some d

/-- What a subscriber hears that `setupStream` connects to the stream it is called
with. It hears a packet once for each time it was connected. -/
def heard (connected : List Nat) : List Event → List Delivery
  | [] => []
  | .setup stream :: events => heard (stream :: connected) events
  | .forward d :: events =>
      List.replicate (connected.count d.stream) d ++ heard connected events

theorem heard_append (connected : List Nat) (events : List Event) (d : Delivery) :
    heard connected (events ++ [.forward d]) = heard connected events ++
      List.replicate (connected.count d.stream + (setups events).count d.stream) d := by
  induction events generalizing connected with
  | nil => simp [heard, setups]
  | cons e events ih =>
      cases e with
      | setup stream =>
          rw [List.cons_append, heard, heard, ih]
          by_cases hs : stream = d.stream
          · simp only [setups, List.filterMap_cons, hs, List.count_cons_self]
            congr 2
            omega
          · simp only [setups, List.filterMap_cons, List.count_cons_of_ne hs]
      | forward d' =>
          rw [List.cons_append, heard, heard, ih, List.append_assoc]
          rfl

theorem heard_append_setup (connected : List Nat) (events : List Event) (stream : Nat) :
    heard connected (events ++ [.setup stream]) = heard connected events := by
  induction events generalizing connected with
  | nil => rfl
  | cons e events ih =>
      cases e with
      | setup other => rw [List.cons_append, heard, heard, ih]
      | forward d => rw [List.cons_append, heard, heard, ih]

/-- When every stream is set up once and before its first packet, nothing is missed
and nothing is heard twice. -/
theorem heard_eq_deliveries {events : List Event} (honce : (setups events).Nodup)
    (hbefore : ∀ pre d, pre ++ [.forward d] <+: events → d.stream ∈ setups pre) :
    heard [] events = deliveries events := by
  induction events using List.reverseRecOn with
  | nil => rfl
  | append_singleton events e ih =>
      have hleft : events <+: events ++ [e] := List.prefix_append _ _
      have hbefore' : ∀ pre d, pre ++ [.forward d] <+: events → d.stream ∈ setups pre :=
        fun pre d h => hbefore pre d (h.trans hleft)
      cases e with
      | setup stream =>
          rw [setups_setup] at honce
          rw [heard_append_setup, ih honce.of_append_left hbefore']
          simp [deliveries]
      | forward d =>
          rw [setups_forward] at honce
          have hcount := List.count_eq_one_of_mem honce (hbefore events d (List.prefix_refl _))
          rw [heard_append, ih honce hbefore', hcount]
          simp [deliveries]

/-- With one worker a subscriber hears everything that is forwarded. -/
theorem heard_of_one_worker {libav : Libav} {expSeconds : Int} {labels : List (Label 1)}
    {s : SegmentUnpacker 1}
    (hexec : exec (step libav) (start 1 (create expSeconds)) labels = some s) :
    heard [] s.events = deliveries s.events := by
  have halone := alone_of_exec hexec
  exact heard_eq_deliveries halone.inv.once halone.inv.before

/-- The ticket that a worker holds. -/
def Worker.ticket : Worker → Option Ticket
  | .popped seg => seg
  | .unpack seg => seg
  | .missed t => some t
  | .made t _ => some t
  | _ => none

/-- The stream that a worker is going to use. -/
def Worker.stream : Worker → Option Stream
  | .made _ stream => some stream
  | .forwarding stream _ => some stream
  | _ => none

/-- The data say what one of the segments says. -/
def RebuiltFrom (received : List Segment) (data : Option StreamData) : Prop :=
  ∃ d seg, data = some d ∧ seg ∈ received ∧ d.Rebuilt seg

theorem RebuiltFrom.mono {received received' : List Segment} {data : Option StreamData}
    (hsub : received ⊆ received') (h : RebuiltFrom received data) : RebuiltFrom received' data := by
  obtain ⟨d, seg, hdata, hseg, hrebuilt⟩ := h
  exact ⟨d, seg, hdata, hsub hseg, hrebuilt⟩

/-- Every stream around is rebuilt from a received segment. -/
structure Rebuilding (s : SegmentUnpacker n) : Prop where
  queued : ∀ t ∈ s.work, t.segment ∈ s.received
  held : ∀ i, ∀ t ∈ (s.workers i).ticket, t.segment ∈ s.received
  cached : ∀ key stream, s.cache.streamOf key = some stream → RebuiltFrom s.received stream.data
  used : ∀ i, ∀ stream ∈ (s.workers i).stream, RebuiltFrom s.received stream.data
  delivered : ∀ d ∈ deliveries s.events, RebuiltFrom s.received d.data

theorem start_rebuilding (expSeconds : Int) : Rebuilding (start n (create expSeconds)) where
  queued := by
    intro t hmem
    cases hmem
  held := by
    intro i t hmem
    cases hmem
  cached := by
    intro key stream heq
    cases heq
  used := by
    intro i stream hmem
    cases hmem
  delivered := by
    intro d hmem
    cases hmem

section Steps

variable {s s' : SegmentUnpacker n}

/-- One worker moves on, within what is known. -/
theorem Rebuilding.move (h : Rebuilding s) {i : Fin n} {w : Worker}
    (hworkers : s'.workers = set s.workers i w) (hreceived : s'.received = s.received)
    (hwork : ∀ t ∈ s'.work, t ∈ s.work) (hticket : ∀ t ∈ w.ticket, t.segment ∈ s.received)
    (hstream : ∀ stream ∈ w.stream, RebuiltFrom s.received stream.data)
    (hcached : ∀ key stream, s'.cache.streamOf key = some stream →
      RebuiltFrom s.received stream.data)
    (hdelivered : ∀ d ∈ deliveries s'.events, RebuiltFrom s.received d.data) :
    Rebuilding s' := by
  constructor
  · intro t ht
    rw [hreceived]
    exact h.queued t (hwork t ht)
  · intro j t ht
    rw [hworkers] at ht
    rw [hreceived]
    rcases set_eq (rfl : set s.workers i w j = _) with ⟨-, hw⟩ | ⟨-, hj⟩
    · exact hticket t (hw ▸ ht)
    · exact h.held j t (hj ▸ ht)
  · rw [hreceived]
    exact hcached
  · intro j stream hs
    rw [hworkers] at hs
    rw [hreceived]
    rcases set_eq (rfl : set s.workers i w j = _) with ⟨-, hw⟩ | ⟨-, hj⟩
    · exact hstream stream (hw ▸ hs)
    · exact h.used j stream (hj ▸ hs)
  · rw [hreceived]
    exact hdelivered

/-- More is received. -/
theorem Rebuilding.receive (h : Rebuilding s) (seg : Segment) : Rebuilding (s.receive seg) := by
  have hsub : s.received ⊆ s.received ++ [seg] := List.subset_append_left _ _
  refine ⟨?_, ?_, ?_, ?_, ?_⟩
  · intro t ht
    rcases List.mem_append.mp ht with ht | ht
    · exact hsub (h.queued t ht)
    · obtain rfl := List.mem_singleton.mp ht
      exact List.mem_append_right _ (List.mem_singleton_self seg)
  · exact fun i t ht => hsub (h.held i t ht)
  · exact fun key stream hkey => (h.cached key stream hkey).mono hsub
  · exact fun i stream hs => (h.used i stream hs).mono hsub
  · exact fun d hd => (h.delivered d hd).mono hsub

theorem Worker.Idle.holds_nothing {w : Worker} (h : w.Idle) :
    w.ticket = none ∧ w.stream = none := by
  cases h <;> exact ⟨rfl, rfl⟩

theorem moves_rebuilding {libav : Libav} {now : Int} {i : Fin n} (hs : Rebuilding s)
    (h : Moves libav now s i s') : Rebuilding s' := by
  have hheld := hs.held i
  have hused := hs.used i
  cases h with
  | loop w _ _ hto _ =>
      refine hs.move rfl rfl (fun _ => id) ?_ ?_ hs.cached hs.delivered
      · rw [hto.holds_nothing.1]
        intro t heq
        cases heq
      · rw [hto.holds_nothing.2]
        intro stream heq
        cases heq
  | done stream _ =>
      exact hs.move rfl rfl (fun _ => id) (by rintro t ⟨⟩) (by rintro s ⟨⟩) hs.cached hs.delivered
  | popNone _ _ =>
      exact hs.move rfl rfl (fun _ => id) (by rintro t ⟨⟩) (by rintro s ⟨⟩) hs.cached hs.delivered
  | popSome t rest _ hwork =>
      have hmem : ∀ t' ∈ t :: rest, t'.segment ∈ s.received := hwork ▸ hs.queued
      refine hs.move rfl rfl ?_ ?_ (by rintro s ⟨⟩) hs.cached hs.delivered
      · intro t' ht'
        rw [hwork]
        exact List.mem_cons_of_mem t ht'
      · intro t' heq
        cases heq
        exact hmem t (List.mem_cons_self ..)
  | call seg hpc =>
      rw [hpc] at hheld
      exact hs.move rfl rfl (fun _ => id) hheld (by rintro s ⟨⟩) hs.cached hs.delivered
  | crash e => exact ⟨hs.queued, hs.held, hs.cached, hs.used, hs.delivered⟩
  | hit t record _ hrec =>
      refine hs.move rfl rfl (fun _ => id) (by rintro t ⟨⟩) ?_ ?_ hs.delivered
      · intro stream heq
        cases heq
        exact hs.cached _ _ (streamOf_eq_some s.cache hrec)
      · rw [goto_cache, renew_streamOf s.cache now hrec]
        exact hs.cached
  | miss t hpc _ =>
      rw [hpc] at hheld
      exact hs.move rfl rfl (fun _ => id) hheld (by rintro s ⟨⟩) hs.cached hs.delivered
  | found t record hpc hrec =>
      rw [hpc] at hheld
      refine hs.move rfl rfl (fun _ => id) hheld ?_ ?_ hs.delivered
      · intro stream heq
        cases heq
        exact hs.cached _ _ (streamOf_eq_some s.cache hrec)
      · rw [goto_cache, renew_streamOf s.cache now hrec]
        exact hs.cached
  | make t stream hpc _ hstream =>
      rw [hpc] at hheld
      obtain ⟨-, data, hdata, hrebuilt⟩ := Stream.ofSegment_ok hstream
      have hnew : RebuiltFrom s.received stream.data :=
        ⟨data, t.segment, hdata, hheld t rfl, hrebuilt⟩
      refine hs.move rfl rfl (fun _ => id) hheld ?_ ?_ hs.delivered
      · intro stream' heq
        cases heq
        exact hnew
      · intro key stream' hkey
        simp only [goto_cache, insertNew_streamOf] at hkey
        split at hkey
        · obtain rfl := Option.some.inj hkey
          exact hnew
        · exact hs.cached key stream' hkey
  | setup t stream hpc =>
      rw [hpc] at hused
      refine hs.move rfl rfl (fun _ => id) (by rintro t ⟨⟩) ?_ hs.cached ?_
      · intro stream' heq
        cases heq
        exact hused stream rfl
      · simpa [deliveries] using hs.delivered
  | forward stream packet packets hpc =>
      rw [hpc] at hused
      refine hs.move rfl rfl (fun _ => id) (by rintro t ⟨⟩) ?_ hs.cached ?_
      · intro stream' heq
        cases heq
        exact hused stream rfl
      · intro d hd
        simp only [deliveries, goto_events, List.filterMap_append, List.mem_append] at hd
        rcases hd with hd | hd
        · exact hs.delivered d hd
        · obtain rfl : d = stream.forward packet := by simpa using hd
          exact hused stream rfl

theorem step_rebuilding {libav : Libav} {l : Label n} (hs : Rebuilding s)
    (h : s.step libav l = some s') : Rebuilding s' := by
  obtain ⟨-, ⟨seg, -, rfl⟩ | ⟨i, now, -, hmoves⟩ | ⟨doomed, -, rfl⟩ | ⟨-, hclose⟩⟩ := step_cases h
  · exact hs.receive seg
  · exact moves_rebuilding hs hmoves
  · refine ⟨hs.queued, hs.held, ?_, hs.used, hs.delivered⟩
    intro key stream hkey
    simp only [erase_streamOf] at hkey
    split at hkey
    · cases hkey
    · exact hs.cached key stream hkey
  · rcases closeStep_cases hclose with ⟨_, _, rfl, -, -⟩ | rfl | ⟨-, -, rfl⟩ <;>
      exact ⟨hs.queued, hs.held, hs.cached, hs.used, hs.delivered⟩

end Steps

/-- Whatever is delivered in a run comes with data rebuilt from a received segment. -/
theorem rebuilt_of_exec {libav : Libav} {expSeconds : Int} {labels : List (Label n)}
    {s : SegmentUnpacker n}
    (hexec : exec (step libav) (start n (create expSeconds)) labels = some s) :
    ∀ d ∈ deliveries s.events, RebuiltFrom s.received d.data :=
  (invariant_of_step (fun _ _ _ => step_rebuilding) (start_rebuilding expSeconds) hexec).delivered

end Media2.SegmentUnpacker

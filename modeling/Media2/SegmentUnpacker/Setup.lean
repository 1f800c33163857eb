import Mathlib.Data.List.Nodup
import Media2.SegmentUnpacker

/-!
# Setting streams up

`unpack` looks the job up, looks it up again by segment and calls `setupStream`,
and the cache is unlocked in between. Two things can go wrong: the second lookup
finds a stream that another worker has made since the first, and is going to set
up as well; or the first lookup finds a stream that is yet to be set up.
-/

namespace Media2.SegmentUnpacker

open Execution StreamCache

variable {n : Nat}

/-- The streams `setupStream` was called with, in order. -/
def setups (events : List Event) : List Nat :=
  events.filterMap fun
    | .setup stream => some stream
    | .forward _ => none

/-- The stream that a worker is about to call `setupStream` with. -/
def Worker.aboutToSetUp : Worker → Option Nat
  | .made _ stream => some stream.id
  | _ => none

/-- Every stream that the cache made is set up by one call, which was made or which
one worker is about to make; no packet was forwarded on a stream before its
set-up. -/
structure SetUpOnce (s : SegmentUnpacker n) : Prop where
  once : ∀ stream < s.cache.made,
    ((setups s.events).count stream = 1 ∧ ∀ i, (s.workers i).aboutToSetUp ≠ some stream) ∨
    ((setups s.events).count stream = 0 ∧ ∃ i, (s.workers i).aboutToSetUp = some stream ∧
      ∀ j, (s.workers j).aboutToSetUp = some stream → j = i)
  before : ∀ pre d, pre ++ [.forward d] <+: s.events → d.stream ∈ setups pre

/-- Nor is a worker about to forward a packet on a stream before its set-up. -/
def SetUpAhead (s : SegmentUnpacker n) : Prop :=
  ∀ i stream packet packets, s.workers i = .forwarding stream (packet :: packets) →
    stream.id ∈ setups s.events

/-- A worker that missed a job does not find its stream made in the meantime, and a
worker that looks a job up with packets to forward does not find a stream that
another one is about to set up. -/
structure LooksUpInOrder (s : SegmentUnpacker n) (l : Label n) : Prop where
  missed : ∀ i now t, l = .worker i now → s.fault = none → s.workers i = .missed t →
    s.cache.streamOf t.segment.jobId.unparse = none
  found : ∀ i now t stream, l = .worker i now → s.fault = none →
    s.workers i = .unpack (some t) → t.segment.packets ≠ [] →
    s.cache.streamOf t.segment.jobId.unparse = some stream →
    ∀ j, (s.workers j).aboutToSetUp ≠ some stream.id

/-- What ties the workers, the cache and the calls of `setupStream` together. -/
structure Inv (workers : Fin n → Worker) (streams : String → Option Stream) (made : Nat)
    (events : List Event) : Prop where
  sound : Sound streams made
  accounted : ∀ id < made, id ∈ setups events ∨ ∃ i, (workers i).aboutToSetUp = some id
  fresh : ∀ i id, (workers i).aboutToSetUp = some id → id ∉ setups events ∧ id < made
  apart : ∀ i j id, (workers i).aboutToSetUp = some id → (workers j).aboutToSetUp = some id → i = j
  once : (setups events).Nodup
  known : ∀ id ∈ setups events, id < made
  before : ∀ pre d, pre ++ [.forward d] <+: events → d.stream ∈ setups pre
  ready : ∀ i stream packet packets, workers i = .forwarding stream (packet :: packets) →
    stream.id ∈ setups events

section Inv

variable {workers : Fin n → Worker} {streams : String → Option Stream} {made : Nat}
  {events : List Event} {i : Fin n}

theorem Inv.setUpOnce {s : SegmentUnpacker n}
    (h : Inv s.workers s.cache.streamOf s.cache.made s.events) : SetUpOnce s where
  before := h.before
  once := by
    intro id hid
    rcases h.accounted id hid with hmem | ⟨i, hi⟩
    · refine Or.inl ⟨List.count_eq_one_of_mem h.once hmem, fun i hi => ?_⟩
      exact (h.fresh i id hi).1 hmem
    · refine Or.inr ⟨List.count_eq_zero.mpr (h.fresh i id hi).1, i, hi, fun j hj => ?_⟩
      exact h.apart j i id hj hi

theorem start_inv (n : Nat) (expSeconds : Int) :
    Inv (start n (create expSeconds)).workers (create expSeconds).streamOf
      (create expSeconds).made (start n (create expSeconds)).events where
  sound := create_sound expSeconds
  accounted := by
    intro id hid
    cases hid
  fresh := by
    intro i id heq
    cases heq
  apart := by
    intro i j id heq
    cases heq
  once := List.nodup_nil
  known := by
    intro id hmem
    cases hmem
  before := by
    intro pre d hpre
    have hnil := List.prefix_nil.mp hpre
    simp at hnil
  ready := by
    intro i stream packet packets heq
    cases heq

theorem setups_setup (events : List Event) (id : Nat) :
    setups (events ++ [.setup id]) = setups events ++ [id] := by
  simp [setups]

theorem setups_forward (events : List Event) (d : Delivery) :
    setups (events ++ [.forward d]) = setups events := by
  simp [setups]

/-- The order of an event list that grew by one event. -/
theorem before_snoc {e : Event}
    (h : ∀ pre d, pre ++ [.forward d] <+: events → d.stream ∈ setups pre)
    (hnew : ∀ d, e = .forward d → d.stream ∈ setups events) :
    ∀ pre d, pre ++ [.forward d] <+: events ++ [e] → d.stream ∈ setups pre := by
  intro pre d hpre
  rcases List.prefix_concat_iff.mp hpre with heq | hpre
  · obtain ⟨rfl, he⟩ := List.append_inj' heq rfl
    exact hnew d (List.singleton_inj.mp he).symm
  · exact h pre d hpre

theorem set_aboutToSetUp {j : Fin n} {w : Worker} {id : Nat}
    (h : (set workers i w j).aboutToSetUp = some id) :
    (j = i ∧ w.aboutToSetUp = some id) ∨ (j ≠ i ∧ (workers j).aboutToSetUp = some id) := by
  rcases set_eq (rfl : set workers i w j = set workers i w j) with ⟨hj, hw⟩ | ⟨hj, hw⟩
  · exact Or.inl ⟨hj, hw ▸ h⟩
  · exact Or.inr ⟨hj, hw ▸ h⟩

/-- Moving a worker that is not about to set up takes nobody's set-up away. -/
theorem set_keeps {j : Fin n} {w : Worker} {id : Nat} (hfrom : (workers i).aboutToSetUp = none)
    (hj : (workers j).aboutToSetUp = some id) : (set workers i w j).aboutToSetUp = some id := by
  have hne : j ≠ i := by
    rintro rfl
    cases hfrom.symm.trans hj
  rwa [set, if_neg hne]

/-- A move of a worker that is not about to set up, neither before nor after. -/
theorem Inv.move (h : Inv workers streams made events) {w : Worker}
    (hfrom : (workers i).aboutToSetUp = none) (hto : w.aboutToSetUp = none)
    (hready : ∀ stream packet packets, w = .forwarding stream (packet :: packets) →
      stream.id ∈ setups events) :
    Inv (set workers i w) streams made events where
  sound := h.sound
  accounted := by
    intro id hid
    rcases h.accounted id hid with hmem | ⟨j, hj⟩
    · exact Or.inl hmem
    · exact Or.inr ⟨j, set_keeps hfrom hj⟩
  fresh := by
    intro j id hj
    rcases set_aboutToSetUp hj with ⟨-, hw⟩ | ⟨-, hj⟩
    · cases hto.symm.trans hw
    · exact h.fresh j id hj
  apart := by
    intro j k id hj hk
    rcases set_aboutToSetUp hj with ⟨-, hw⟩ | ⟨-, hj⟩
    · cases hto.symm.trans hw
    · rcases set_aboutToSetUp hk with ⟨-, hw⟩ | ⟨-, hk⟩
      · cases hto.symm.trans hw
      · exact h.apart j k id hj hk
  once := h.once
  known := h.known
  before := h.before
  ready := by
    intro j stream packet packets hpc
    rcases set_eq hpc with ⟨-, hpc⟩ | ⟨-, hpc⟩
    · exact hready stream packet packets hpc
    · exact h.ready j stream packet packets hpc

/-- The cache makes the stream that a worker missed. -/
theorem Inv.make (h : Inv workers streams made events) {libav : Libav} {t : Ticket}
    {stream : Stream} (hpc : workers i = .missed t)
    (hstream : Stream.ofSegment libav made t.segment = .ok stream) :
    Inv (set workers i (.made t stream))
      (fun k => if k = t.segment.jobId.unparse then some stream else streams k) (made + 1)
      events := by
  have hid : stream.id = made := (Stream.ofSegment_ok hstream).1
  have hfrom : (workers i).aboutToSetUp = none := by rw [hpc]; rfl
  -- whoever else is about to set up has a stream that was made before
  have hcases : ∀ j id, (set workers i (.made t stream) j).aboutToSetUp = some id →
      (j = i ∧ id = made) ∨ ((workers j).aboutToSetUp = some id ∧ id < made) := by
    intro j id hj
    rcases set_aboutToSetUp hj with ⟨hji, hw⟩ | ⟨-, hj⟩
    · exact Or.inl ⟨hji, (Option.some.inj hw).symm.trans hid⟩
    · exact Or.inr ⟨hj, (h.fresh j id hj).2⟩
  refine ⟨h.sound.insert hstream, ?_, ?_, ?_, h.once, ?_, h.before, ?_⟩
  · intro id hlt
    rcases Nat.lt_succ_iff_lt_or_eq.mp hlt with hlt | rfl
    · rcases h.accounted id hlt with hmem | ⟨j, hj⟩
      · exact Or.inl hmem
      · exact Or.inr ⟨j, set_keeps hfrom hj⟩
    · exact Or.inr ⟨i, by rw [set, if_pos rfl, ← hid]; rfl⟩
  · intro j id hj
    rcases hcases j id hj with ⟨-, rfl⟩ | ⟨hj, -⟩
    · exact ⟨fun hmem => Nat.lt_irrefl _ (h.known _ hmem), Nat.lt_succ_self _⟩
    · exact ⟨(h.fresh j id hj).1, Nat.lt_succ_of_lt (h.fresh j id hj).2⟩
  · intro j k id hj hk
    rcases hcases j id hj with ⟨hji, rfl⟩ | ⟨hj, hlt⟩
    · rcases hcases k _ hk with ⟨hki, -⟩ | ⟨-, hlt⟩
      · rw [hji, hki]
      · exact absurd hlt (Nat.lt_irrefl _)
    · rcases hcases k id hk with ⟨-, rfl⟩ | ⟨hk, -⟩
      · exact absurd hlt (Nat.lt_irrefl _)
      · exact h.apart j k id hj hk
  · exact fun id hmem => Nat.lt_succ_of_lt (h.known id hmem)
  · intro j s packet packets hpc'
    rcases set_eq hpc' with ⟨-, ⟨⟩⟩ | ⟨-, hpc'⟩
    exact h.ready j s packet packets hpc'

/-- A worker calls `setupStream`. -/
theorem Inv.setup (h : Inv workers streams made events) {t : Ticket} {stream : Stream}
    (hpc : workers i = .made t stream) (packets : List Packet) :
    Inv (set workers i (.forwarding stream packets)) streams made
      (events ++ [.setup stream.id]) := by
  have hi : (workers i).aboutToSetUp = some stream.id := by rw [hpc]; rfl
  obtain ⟨hnew, hlt⟩ := h.fresh i _ hi
  have hmem : ∀ id, id ∈ setups (events ++ [.setup stream.id]) ↔
      id ∈ setups events ∨ id = stream.id := by
    intro id
    rw [setups_setup, List.mem_append, List.mem_singleton]
  refine ⟨h.sound, ?_, ?_, ?_, ?_, ?_, ?_, ?_⟩
  · intro id hid
    rcases h.accounted id hid with hs | ⟨j, hj⟩
    · exact Or.inl ((hmem id).mpr (Or.inl hs))
    · by_cases hji : j = i
      · subst hji
        have heq : id = stream.id := Option.some.inj (hj.symm.trans hi)
        exact Or.inl ((hmem id).mpr (Or.inr heq))
      · exact Or.inr ⟨j, by rwa [set, if_neg hji]⟩
  · intro j id hj
    rcases set_aboutToSetUp hj with ⟨-, ⟨⟩⟩ | ⟨hne, hj⟩
    refine ⟨fun hs => ?_, (h.fresh j id hj).2⟩
    rcases (hmem id).mp hs with hs | rfl
    · exact (h.fresh j id hj).1 hs
    · exact hne (h.apart j i _ hj hi)
  · intro j k id hj hk
    rcases set_aboutToSetUp hj with ⟨-, ⟨⟩⟩ | ⟨-, hj⟩
    rcases set_aboutToSetUp hk with ⟨-, ⟨⟩⟩ | ⟨-, hk⟩
    exact h.apart j k id hj hk
  · rw [setups_setup, List.nodup_append]
    refine ⟨h.once, List.nodup_singleton _, ?_⟩
    intro id hid id' hid'
    obtain rfl := List.mem_singleton.mp hid'
    exact fun heq => hnew (heq ▸ hid)
  · intro id hid
    rcases (hmem id).mp hid with hid | rfl
    · exact h.known id hid
    · exact hlt
  · exact before_snoc h.before (by rintro d ⟨⟩)
  · intro j s packet packets' hpc'
    rcases set_eq hpc' with ⟨-, heq⟩ | ⟨-, hpc'⟩
    · obtain ⟨rfl, -⟩ := Worker.forwarding.inj heq
      exact (hmem _).mpr (Or.inr rfl)
    · exact (hmem _).mpr (Or.inl (h.ready j s packet packets' hpc'))

/-- A packet is forwarded on a stream that was set up. -/
theorem Inv.forwarded (h : Inv workers streams made events) {d : Delivery}
    (hd : d.stream ∈ setups events) : Inv workers streams made (events ++ [.forward d]) := by
  have hset := setups_forward events d
  refine ⟨h.sound, ?_, ?_, h.apart, ?_, ?_, ?_, ?_⟩
  · rw [hset]
    exact h.accounted
  · rw [hset]
    exact h.fresh
  · rw [hset]
    exact h.once
  · rw [hset]
    exact h.known
  · apply before_snoc h.before
    intro d' heq
    cases heq
    exact hd
  · rw [hset]
    exact h.ready

/-- The cleanup thread removes entries. -/
theorem Inv.erase (h : Inv workers streams made events) (doomed : String → Bool) :
    Inv workers (fun k => if doomed k then none else streams k) made events :=
  ⟨h.sound.erase doomed, h.accounted, h.fresh, h.apart, h.once, h.known, h.before, h.ready⟩

end Inv

section Runs

variable {libav : Libav} {s s' : SegmentUnpacker n} {l : Label n}

theorem Worker.Idle.aboutToSetUp_eq {w : Worker} (h : w.Idle) : w.aboutToSetUp = none := by
  cases h <;> rfl

/-- Every step of a worker that looks jobs up in order keeps the invariant. -/
theorem moves_inv {now : Int} {i : Fin n}
    (hs : Inv s.workers s.cache.streamOf s.cache.made s.events)
    (hfault : s.fault = none) (hok : LooksUpInOrder s (.worker i now))
    (h : Moves libav now s i s') :
    Inv s'.workers s'.cache.streamOf s'.cache.made s'.events := by
  cases h with
  | loop w hfrom _ hto _ =>
      apply hs.move hfrom.aboutToSetUp_eq hto.aboutToSetUp_eq
      rintro stream packet packets rfl
      cases hto
  | done stream hpc => exact hs.move (by rw [hpc]; rfl) rfl (by rintro _ _ _ ⟨⟩)
  | popNone hpc _ => exact hs.move (by rw [hpc]; rfl) rfl (by rintro _ _ _ ⟨⟩)
  | popSome t rest hpc _ => exact hs.move (by rw [hpc]; rfl) rfl (by rintro _ _ _ ⟨⟩)
  | call seg hpc => exact hs.move (by rw [hpc]; rfl) rfl (by rintro _ _ _ ⟨⟩)
  | crash e => exact hs
  | hit t record hpc hrec =>
      have hstream := streamOf_eq_some s.cache hrec
      simp only [goto_cache, renew_streamOf s.cache now hrec, renew_made]
      apply hs.move (by rw [hpc]; rfl) rfl
      intro stream packet packets heq
      obtain ⟨rfl, hpackets⟩ := Worker.forwarding.inj heq
      have hne : t.segment.packets ≠ [] := by rw [hpackets]; exact List.cons_ne_nil _ _
      rcases hs.accounted _ (hs.sound.numbered _ _ hstream) with hmem | ⟨j, hj⟩
      · exact hmem
      · exact absurd hj (hok.found i now t _ rfl hfault hpc hne hstream j)
  | miss t hpc _ => exact hs.move (by rw [hpc]; rfl) rfl (by rintro _ _ _ ⟨⟩)
  | found t record hpc hrec =>
      have hnone := hok.missed i now t rfl hfault hpc
      cases hnone.symm.trans (streamOf_eq_some s.cache hrec)
  | make t stream hpc _ hstream =>
      simp only [goto_cache, insertNew_streamOf, insertNew_made]
      exact hs.make hpc hstream
  | setup t stream hpc => exact hs.setup hpc t.segment.packets
  | forward stream packet packets hpc =>
      have hready := hs.ready i stream packet packets hpc
      have hfwd := hs.forwarded (d := stream.forward packet) hready
      apply hfwd.move (by rw [hpc]; rfl) rfl
      intro stream' packet' packets' heq
      obtain ⟨rfl, -⟩ := Worker.forwarding.inj heq
      rw [setups_forward]
      exact hready

theorem step_inv (hs : Inv s.workers s.cache.streamOf s.cache.made s.events)
    (hok : LooksUpInOrder s l) (h : s.step libav l = some s') :
    Inv s'.workers s'.cache.streamOf s'.cache.made s'.events := by
  obtain ⟨hfault, ⟨seg, -, rfl⟩ | ⟨i, now, rfl, hmoves⟩ | ⟨doomed, -, rfl⟩ | ⟨-, hclose⟩⟩ :=
    step_cases h
  · exact hs
  · exact moves_inv hs hfault hok hmoves
  · simp only [erase_streamOf, erase_made]
    exact hs.erase doomed
  · rcases closeStep_cases hclose with ⟨_, _, rfl, -, -⟩ | rfl | ⟨-, -, rfl⟩ <;> exact hs

/-- A step after which everything is in order was made in order. -/
theorem looksUpInOrder_of_next (hs : Inv s.workers s.cache.streamOf s.cache.made s.events)
    (hnext : ∀ s', s.step libav l = some s' → SetUpOnce s' ∧ SetUpAhead s') :
    LooksUpInOrder s l where
  missed := by
    rintro i now t rfl hfault hpc
    cases hrec : s.cache.cache t.segment.jobId.unparse with
    | none => exact (streamOf_eq_none s.cache).mpr hrec
    | some record =>
        exfalso
        have hstream := streamOf_eq_some s.cache hrec
        have hstep : s.step libav (.worker i now) = some ({ s with
            cache := s.cache.renew now t.segment.jobId.unparse record }.goto i
            (.made t record.stream)) := by
          simp only [step, hfault, if_true, doSomeWork, hpc, getSegment_hit s.cache libav hrec]
        have honce := (hnext _ hstep).1.once record.stream.id (hs.sound.numbered _ _ hstream)
        have hi : (set s.workers i (.made t record.stream) i).aboutToSetUp =
            some record.stream.id := by
          rw [set, if_pos rfl]
          rfl
        have hfrom : (s.workers i).aboutToSetUp = none := by rw [hpc]; rfl
        rcases honce with ⟨-, hnobody⟩ | ⟨hzero, k, -, hunique⟩
        · exact hnobody i hi
        · rcases hs.accounted _ (hs.sound.numbered _ _ hstream) with hmem | ⟨j, hj⟩
          · exact List.count_eq_zero.mp hzero hmem
          · have hji := (hunique j (set_keeps hfrom hj)).trans (hunique i hi).symm
            subst hji
            cases hfrom.symm.trans hj
  found := by
    rintro i now t stream rfl hfault hpc hne hstream j hj
    obtain ⟨packet, packets, hpackets⟩ := List.exists_cons_of_ne_nil hne
    obtain ⟨record, hrec, rfl⟩ := Option.map_eq_some_iff.mp hstream
    have hstep : s.step libav (.worker i now) = some ({ s with
        cache := s.cache.renew now t.segment.jobId.unparse record }.goto i
        (.forwarding record.stream (packet :: packets))) := by
      simp only [step, hfault, if_true, doSomeWork, hpc, get_hit s.cache hrec, hpackets]
    have hready := (hnext _ hstep).2 i record.stream packet packets (goto_same _ i _)
    exact (hs.fresh j _ hj).1 hready

end Runs

/-- Every stream the cache makes is set up exactly once and before its first packet,
and before a worker is about to forward it, all along a run, if and only if the workers
look jobs up in order: no lookup by segment comes upon a stream made since the worker's
lookup by job id, and no lookup for packets comes upon a stream about to be set up. -/
theorem setUpOnce_iff (libav : Libav) (expSeconds : Int) (labels : List (Label n)) :
    Always (step libav) (fun s => SetUpOnce s ∧ SetUpAhead s) (start n (create expSeconds))
        labels ↔
      Guarded (step libav) LooksUpInOrder (start n (create expSeconds)) labels :=
  always_iff_guarded (I := fun s => Inv s.workers s.cache.streamOf s.cache.made s.events)
    (fun _ _ _ _ hI hok hstep => step_inv hI hok hstep)
    (fun _ hI => ⟨hI.setUpOnce, hI.ready⟩)
    (fun _ _ _ hI hnext => looksUpInOrder_of_next hI hnext)
    (start_inv n expSeconds)

/-- Two workers take two segments of one new job and both miss it before either
makes its stream. -/
def raceForJob : List (Label 2) :=
  [.receive Segment.sample, .receive Segment.sample] ++ turns 0 5 ++ turns 1 5 ++ turns 0 2 ++
    turns 1 2

/-- The stream is set up by both. -/
theorem set_up_twice :
    ∃ s, exec (step Libav.sample) (start 2 (create 600)) raceForJob = some s ∧
      setups s.events = [0, 0] ∧ ¬ SetUpOnce s := by
  refine ⟨_, rfl, rfl, fun h => ?_⟩
  rcases h.once 0 Nat.one_pos with ⟨hcount, -⟩ | ⟨hcount, -⟩
  · exact absurd hcount (by decide)
  · exact absurd hcount (by decide)

/-- A single worker misses a job only while nothing is cached for it. -/
structure Alone (s : SegmentUnpacker 1) : Prop where
  inv : Inv s.workers s.cache.streamOf s.cache.made s.events
  missing : ∀ t, s.workers 0 = .missed t → s.cache.streamOf t.segment.jobId.unparse = none

theorem Alone.looksUpInOrder {s : SegmentUnpacker 1} (h : Alone s) (l : Label 1) :
    LooksUpInOrder s l where
  missed := by
    rintro i now t - - hpc
    obtain rfl : i = 0 := Subsingleton.elim i 0
    exact h.missing t hpc
  found := by
    rintro i now t stream - - hpc - - j hj
    obtain rfl : j = i := Subsingleton.elim j i
    rw [hpc] at hj
    cases hj

theorem step_alone {libav : Libav} {s s' : SegmentUnpacker 1} {l : Label 1} (hs : Alone s)
    (h : s.step libav l = some s') : Alone s' := by
  refine ⟨step_inv hs.inv (hs.looksUpInOrder l) h, ?_⟩
  obtain ⟨-, ⟨seg, -, rfl⟩ | ⟨i, now, rfl, hmoves⟩ | ⟨doomed, -, rfl⟩ | ⟨-, hclose⟩⟩ := step_cases h
  · exact hs.missing
  · obtain rfl : i = 0 := Subsingleton.elim i 0
    intro t hpc
    cases hmoves with
    | loop w _ _ hto _ =>
        rw [goto_same] at hpc
        subst hpc
        cases hto
    | crash e => exact hs.missing t hpc
    | miss t' _ hnone =>
        rw [goto_same] at hpc
        obtain rfl := Worker.missed.inj hpc
        exact (streamOf_eq_none s.cache).mpr hnone
    | _ =>
        rw [goto_same] at hpc
        cases hpc
  · intro t hpc
    rw [erase_streamOf]
    dsimp only
    split
    · rfl
    · exact hs.missing t hpc
  · rcases closeStep_cases hclose with ⟨_, _, rfl, -, -⟩ | rfl | ⟨-, -, rfl⟩ <;> exact hs.missing

theorem alone_of_exec {libav : Libav} {expSeconds : Int} {labels : List (Label 1)}
    {s : SegmentUnpacker 1}
    (hexec : exec (step libav) (start 1 (create expSeconds)) labels = some s) : Alone s := by
  have hstart : Alone (start 1 (create expSeconds)) := by
    refine ⟨start_inv 1 expSeconds, ?_⟩
    intro t heq
    cases heq
  exact invariant_of_step (fun _ _ _ => step_alone) hstart hexec

/-- With one worker every run is in order. -/
theorem setUpOnce_of_one_worker {libav : Libav} {expSeconds : Int} {labels : List (Label 1)}
    {s : SegmentUnpacker 1}
    (hexec : exec (step libav) (start 1 (create expSeconds)) labels = some s) : SetUpOnce s :=
  (alone_of_exec hexec).inv.setUpOnce

end Media2.SegmentUnpacker

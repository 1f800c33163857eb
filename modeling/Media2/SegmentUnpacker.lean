import Media2.Foundation.Execution
import Media2.StreamCache

/-!
# The segment unpacker

Segments are queued by `receive` and taken off the queue by worker threads, which
find or make the stream of the segment's job in the stream cache and forward the
packets on it. A missed lookup makes the worker call `setupStream` with the
stream it then gets.

## Implementation notes

One label is one atomic step of one thread: a test of the flag or of the queue, a
critical section, a call of `setupStream` or of `forward`. An exception that
leaves a worker thread and a null dereference both end the process. Segments are
numbered as they are queued. The last four fields record what happened.
-/

namespace Media2

/-- A received segment with its place in the order of reception. -/
structure Ticket where
  segment : Segment
  number : Nat
  deriving DecidableEq

namespace SegmentUnpacker

/-- Where a worker stands in `doSomeWork` and in the `unpack` that it calls. -/
inductive Worker
  | testFlag
  | testSize
  | testEmpty
  | pop
  | popped (seg : Option Ticket)
  | unpack (seg : Option Ticket)
  | missed (t : Ticket)
  | made (t : Ticket) (stream : Stream)
  | forwarding (stream : Stream) (packets : List Packet)
  | exited
  deriving DecidableEq

/-- Where the thread that calls `close` stands. -/
inductive Closer
  | idle
  | called
  | draining
  | joining
  | returned
  deriving DecidableEq

/-- What the workers do to streams. -/
inductive Event
  | setup (stream : Nat)
  | forward (delivery : Delivery)
  deriving DecidableEq

end SegmentUnpacker

open SegmentUnpacker in
/-- An unpacker with `n` worker threads. -/
structure SegmentUnpacker (n : Nat) where
  workers : Fin n → Worker
  work : List Ticket
  shutdownFlag : Bool
  cache : StreamCache
  closer : Closer
  fault : Option Fault
  received : List Segment
  calls : List (Option Ticket)
  events : List Event
  receivedAtClose : Nat

namespace SegmentUnpacker

open Execution

/-- What the environment and the threads can do next. A worker's step comes with
the time at which it reads the clock, if it does. -/
inductive Label (n : Nat)
  | receive (seg : Segment)
  | worker (i : Fin n) (now : Int)
  | evict (doomed : String → Bool)
  | close

/-- Worker `i` takes `count` steps in a row, all at time 0. -/
def turns {n : Nat} (i count : Nat) : List (Label (n + 1)) :=
  List.replicate count (.worker (Fin.ofNat (n + 1) i) 0)

section Steps

variable {n : Nat}

/-- The unpacker as its constructor leaves it. -/
def start (n : Nat) (cache : StreamCache) : SegmentUnpacker n where
  workers := fun _ => .testFlag
  work := []
  shutdownFlag := false
  cache := cache
  closer := .idle
  fault := none
  received := []
  calls := []
  events := []
  receivedAtClose := 0

/-- The workers after one of them has moved. -/
def set (workers : Fin n → Worker) (i : Fin n) (w : Worker) : Fin n → Worker :=
  fun j => if j = i then w else workers j

/-- Move one worker on. -/
def goto (s : SegmentUnpacker n) (i : Fin n) (w : Worker) : SegmentUnpacker n :=
  { s with workers := set s.workers i w }

/-- `receive(unique_ptr)`. -/
def receive (s : SegmentUnpacker n) (seg : Segment) : SegmentUnpacker n :=
  { s with
    work := s.work ++ [⟨seg, s.received.length⟩]
    received := s.received ++ [seg] }

/-- The next step of a worker, in `doSomeWork` or in `unpack`. -/
def doSomeWork (libav : Libav) (now : Int) (s : SegmentUnpacker n) (i : Fin n) :
    Option (SegmentUnpacker n) :=
  match s.workers i with
  | .testFlag => some (s.goto i (if s.shutdownFlag then .testSize else .testEmpty))
  | .testSize => some (s.goto i (if s.work.length > 0 then .testEmpty else .exited))
  | .testEmpty => some (s.goto i (if s.work.isEmpty then .testFlag else .pop))
  | .pop =>
      match s.work with
      | [] => some (s.goto i (.popped none))
      | t :: rest => some ({ s with work := rest }.goto i (.popped (some t)))
  | .popped seg => some ({ s with calls := s.calls ++ [seg] }.goto i (.unpack seg))
  | .unpack none => some { s with fault := some .nullDereference }
  | .unpack (some t) =>
      match s.cache.get now t.segment.jobId with
      | (cache, some stream) =>
          some ({ s with cache := cache }.goto i (.forwarding stream t.segment.packets))
      | (cache, none) => some ({ s with cache := cache }.goto i (.missed t))
  | .missed t =>
      match s.cache.getSegment libav now t.segment with
      | .ok (cache, stream) => some ({ s with cache := cache }.goto i (.made t stream))
      | .error e => some { s with fault := some e }
  | .made t stream =>
      some ({ s with events := s.events ++ [Event.setup stream.id] }.goto i
        (.forwarding stream t.segment.packets))
  | .forwarding _ [] => some (s.goto i .testFlag)
  | .forwarding stream (packet :: packets) =>
      some ({ s with events := s.events ++ [Event.forward (stream.forward packet)] }.goto i
        (.forwarding stream packets))
  | .exited => none

/-- The next step of `close`, which the destructor calls too. -/
def closeStep (s : SegmentUnpacker n) : Option (SegmentUnpacker n) :=
  match s.closer with
  | .idle | .returned =>
      some { s with closer := .called, receivedAtClose := s.received.length }
  | .called => some { s with shutdownFlag := true, closer := .draining }
  | .draining => some (if s.work.isEmpty then { s with closer := .joining } else s)
  | .joining => if ∀ i, s.workers i = .exited then some { s with closer := .returned } else none

/-- One step of the process, as long as it lives. -/
def step (libav : Libav) (s : SegmentUnpacker n) (l : Label n) : Option (SegmentUnpacker n) :=
  if s.fault = none then
    match l with
    | .receive seg => some (s.receive seg)
    | .worker i now => s.doSomeWork libav now i
    | .evict doomed => some { s with cache := s.cache.erase doomed }
    | .close => s.closeStep
  else none

end Steps

theorem set_eq {n : Nat} {workers : Fin n → Worker} {i j : Fin n} {w w' : Worker}
    (h : set workers i w j = w') : (j = i ∧ w = w') ∨ (j ≠ i ∧ workers j = w') := by
  unfold set at h
  split at h
  · exact Or.inl ⟨‹_›, h⟩
  · exact Or.inr ⟨‹_›, h⟩

section Goto

variable {n : Nat} (s : SegmentUnpacker n) (i : Fin n) (w : Worker)

@[simp] theorem goto_same : (s.goto i w).workers i = w := if_pos rfl

theorem goto_other {j : Fin n} (h : j ≠ i) : (s.goto i w).workers j = s.workers j := if_neg h

@[simp] theorem goto_work : (s.goto i w).work = s.work := rfl
@[simp] theorem goto_cache : (s.goto i w).cache = s.cache := rfl
@[simp] theorem goto_received : (s.goto i w).received = s.received := rfl
@[simp] theorem goto_calls : (s.goto i w).calls = s.calls := rfl
@[simp] theorem goto_events : (s.goto i w).events = s.events := rfl
@[simp] theorem goto_closer : (s.goto i w).closer = s.closer := rfl
@[simp] theorem goto_receivedAtClose : (s.goto i w).receivedAtClose = s.receivedAtClose := rfl

end Goto

/-- The places in the loop of `doSomeWork` where a worker is not in `unpack`. -/
inductive Worker.Idle : Worker → Prop
  | testFlag : Idle .testFlag
  | testSize : Idle .testSize
  | testEmpty : Idle .testEmpty
  | pop : Idle .pop
  | exited : Idle .exited

/-- The steps of a worker. Between idle places it only reads, and it goes to pop only
when it has seen work. -/
inductive Moves {n : Nat} (libav : Libav) (now : Int) (s : SegmentUnpacker n) (i : Fin n) :
    SegmentUnpacker n → Prop
  | loop (w : Worker) (hfrom : (s.workers i).Idle) (hlive : s.workers i ≠ .exited)
      (hto : w.Idle) (hpop : w = .pop → s.work ≠ []) : Moves libav now s i (s.goto i w)
  | done (stream : Stream) (hpc : s.workers i = .forwarding stream []) :
      Moves libav now s i (s.goto i .testFlag)
  | popNone (hpc : s.workers i = .pop) (hwork : s.work = []) :
      Moves libav now s i (s.goto i (.popped none))
  | popSome (t : Ticket) (rest : List Ticket) (hpc : s.workers i = .pop)
      (hwork : s.work = t :: rest) :
      Moves libav now s i ({ s with work := rest }.goto i (.popped (some t)))
  | call (seg : Option Ticket) (hpc : s.workers i = .popped seg) :
      Moves libav now s i ({ s with calls := s.calls ++ [seg] }.goto i (.unpack seg))
  | crash (e : Fault) : Moves libav now s i { s with fault := some e }
  | hit (t : Ticket) (record : StreamCacheRecord) (hpc : s.workers i = .unpack (some t))
      (hrec : s.cache.cache t.segment.jobId.unparse = some record) :
      Moves libav now s i ({ s with
          cache := s.cache.renew now t.segment.jobId.unparse record }.goto i
        (.forwarding record.stream t.segment.packets))
  | miss (t : Ticket) (hpc : s.workers i = .unpack (some t))
      (hnone : s.cache.cache t.segment.jobId.unparse = none) :
      Moves libav now s i (s.goto i (.missed t))
  | found (t : Ticket) (record : StreamCacheRecord) (hpc : s.workers i = .missed t)
      (hrec : s.cache.cache t.segment.jobId.unparse = some record) :
      Moves libav now s i ({ s with
          cache := s.cache.renew now t.segment.jobId.unparse record }.goto i
        (.made t record.stream))
  | make (t : Ticket) (stream : Stream) (hpc : s.workers i = .missed t)
      (hnone : s.cache.cache t.segment.jobId.unparse = none)
      (hstream : Stream.ofSegment libav s.cache.made t.segment = .ok stream) :
      Moves libav now s i ({ s with
          cache := s.cache.insertNew now t.segment.jobId.unparse stream }.goto i (.made t stream))
  | setup (t : Ticket) (stream : Stream) (hpc : s.workers i = .made t stream) :
      Moves libav now s i ({ s with events := s.events ++ [Event.setup stream.id] }.goto i
        (.forwarding stream t.segment.packets))
  | forward (stream : Stream) (packet : Packet) (packets : List Packet)
      (hpc : s.workers i = .forwarding stream (packet :: packets)) :
      Moves libav now s i ({ s with
          events := s.events ++ [Event.forward (stream.forward packet)] }.goto i
        (.forwarding stream packets))

section Inversion

variable {n : Nat} {libav : Libav} {now : Int} {s s' : SegmentUnpacker n} {i : Fin n}

theorem doSomeWork_moves (h : s.doSomeWork libav now i = some s') : Moves libav now s i s' := by
  unfold doSomeWork at h
  cases hpc : s.workers i with
  | testFlag =>
      simp only [hpc] at h
      obtain rfl := Option.some.inj h
      refine Moves.loop _ (hpc ▸ Worker.Idle.testFlag) (by simp [hpc]) ?_ ?_
      · split
        · exact Worker.Idle.testSize
        · exact Worker.Idle.testEmpty
      · split <;> rintro ⟨⟩
  | testSize =>
      simp only [hpc] at h
      obtain rfl := Option.some.inj h
      refine Moves.loop _ (hpc ▸ Worker.Idle.testSize) (by simp [hpc]) ?_ ?_
      · split
        · exact Worker.Idle.testEmpty
        · exact Worker.Idle.exited
      · split <;> rintro ⟨⟩
  | testEmpty =>
      simp only [hpc] at h
      obtain rfl := Option.some.inj h
      refine Moves.loop _ (hpc ▸ Worker.Idle.testEmpty) (by simp [hpc]) ?_ ?_
      · split
        · exact Worker.Idle.testFlag
        · exact Worker.Idle.pop
      · split
        · intro heq
          cases heq
        · rename_i hwork
          intro _ hnil
          exact hwork (by rw [hnil]; rfl)
  | pop =>
      simp only [hpc] at h
      cases hwork : s.work with
      | nil =>
          simp only [hwork] at h
          obtain rfl := Option.some.inj h
          exact Moves.popNone hpc hwork
      | cons t rest =>
          simp only [hwork] at h
          obtain rfl := Option.some.inj h
          exact Moves.popSome t rest hpc hwork
  | popped seg =>
      simp only [hpc] at h
      obtain rfl := Option.some.inj h
      exact Moves.call seg hpc
  | unpack seg =>
      cases seg with
      | none =>
          simp only [hpc] at h
          obtain rfl := Option.some.inj h
          exact Moves.crash _
      | some t =>
          simp only [hpc] at h
          cases hrec : s.cache.cache t.segment.jobId.unparse with
          | none =>
              rw [StreamCache.get_miss s.cache hrec] at h
              obtain rfl := Option.some.inj h
              exact Moves.miss t hpc hrec
          | some record =>
              rw [StreamCache.get_hit s.cache hrec] at h
              obtain rfl := Option.some.inj h
              exact Moves.hit t record hpc hrec
  | missed t =>
      simp only [hpc] at h
      cases hget : s.cache.getSegment libav now t.segment with
      | error e =>
          rw [hget] at h
          obtain rfl := Option.some.inj h
          exact Moves.crash e
      | ok out =>
          obtain ⟨cache, stream⟩ := out
          rw [hget] at h
          obtain rfl := Option.some.inj h
          cases hrec : s.cache.cache t.segment.jobId.unparse with
          | none =>
              obtain ⟨hstream, rfl⟩ := StreamCache.getSegment_miss s.cache hrec hget
              exact Moves.make t stream hpc hrec hstream
          | some record =>
              rw [StreamCache.getSegment_hit s.cache libav hrec] at hget
              obtain ⟨rfl, rfl⟩ := Prod.mk.inj (Except.ok.inj hget)
              exact Moves.found t record hpc hrec
  | made t stream =>
      simp only [hpc] at h
      obtain rfl := Option.some.inj h
      exact Moves.setup t stream hpc
  | forwarding stream packets =>
      cases packets with
      | nil =>
          simp only [hpc] at h
          obtain rfl := Option.some.inj h
          exact Moves.done stream hpc
      | cons packet packets =>
          simp only [hpc] at h
          obtain rfl := Option.some.inj h
          exact Moves.forward stream packet packets hpc
  | exited => simp only [hpc, reduceCtorEq] at h

/-- A step of `close` changes the flag and its own place only. -/
theorem closeStep_cases (h : s.closeStep = some s') :
    (∃ flag closer, s' = { s with shutdownFlag := flag, closer := closer } ∧
      closer ≠ .returned ∧ (closer = .joining → s.closer = .joining ∨ s.work = [])) ∨
    (s' = { s with closer := .called, receivedAtClose := s.received.length }) ∨
    (s.closer = .joining ∧ (∀ i, s.workers i = .exited) ∧ s' = { s with closer := .returned }) := by
  unfold closeStep at h
  cases hc : s.closer with
  | idle =>
      simp only [hc] at h
      exact Or.inr (Or.inl (Option.some.inj h).symm)
  | returned =>
      simp only [hc] at h
      exact Or.inr (Or.inl (Option.some.inj h).symm)
  | called =>
      simp only [hc] at h
      refine Or.inl ⟨true, .draining, (Option.some.inj h).symm, by decide, ?_⟩
      intro heq
      cases heq
  | draining =>
      simp only [hc] at h
      refine Or.inl ⟨s.shutdownFlag, if s.work.isEmpty then .joining else .draining, ?_, ?_, ?_⟩
      · rw [← Option.some.inj h]
        split
        · rfl
        · rw [← hc]
      · split <;> decide
      · split
        · rename_i hwork
          exact fun _ => Or.inr (List.isEmpty_iff.mp hwork)
        · intro heq
          cases heq
  | joining =>
      simp only [hc] at h
      split at h
      · rename_i hall
        exact Or.inr (Or.inr ⟨rfl, hall, (Option.some.inj h).symm⟩)
      · cases h

/-- Every step is one of the four kinds. -/
theorem step_cases {l : Label n} (h : s.step libav l = some s') :
    s.fault = none ∧
      ((∃ seg, l = .receive seg ∧ s' = s.receive seg) ∨
        (∃ i now, l = .worker i now ∧ Moves libav now s i s') ∨
        (∃ doomed, l = .evict doomed ∧ s' = { s with cache := s.cache.erase doomed }) ∨
        (l = .close ∧ s.closeStep = some s')) := by
  unfold step at h
  split at h
  · rename_i hfault
    refine ⟨hfault, ?_⟩
    cases l with
    | receive seg => exact Or.inl ⟨seg, rfl, (Option.some.inj h).symm⟩
    | worker i now => exact Or.inr (Or.inl ⟨i, now, rfl, doSomeWork_moves h⟩)
    | evict doomed => exact Or.inr (Or.inr (Or.inl ⟨doomed, rfl, (Option.some.inj h).symm⟩))
    | close => exact Or.inr (Or.inr (Or.inr ⟨rfl, h⟩))
  · cases h

end Inversion

end SegmentUnpacker

end Media2

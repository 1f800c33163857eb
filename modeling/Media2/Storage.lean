import Media2.Foundation.Execution
import Media2.Transport

/-!
# The storage service

Segments that arrive are queued as tasks. Worker threads take them off the queue, look up the
job that the stream belongs to, and write the serialised segment to a file of the stream's
directory, under the segment's timestamp. A worker without work waits on a condition variable.

## Implementation notes

One label is one atomic step of one thread. The predicate of the condition variable is the
flag `moreWork`, which `add` sets under the mutex of the queue, while a worker clears and tests
it under a mutex of its own; so these steps interleave, and a notification reaches only
workers that are asleep. The constructor leaves `moreWork` uninitialised. What the job service
answers and which files can be opened are parameters. An exception in a worker ends the
process. The destructor finds the subscriber made; where the receiver thread has not come to that,
it would close and join nothing.
-/

namespace Media2

/-- `std::filesystem::path::operator/`. -/
def appendPath (path name : String) : String :=
  if name.toList.head? = some '/' then name
  else if path = "" ∨ path.toList.getLast? = some '/' then path ++ name
  else path ++ "/" ++ name

/-- What the storage service uses of a `Job`. -/
structure Job where
  jobId : String
  storageRoot : String
  deriving DecidableEq

/-- `Job::jobRoot`. -/
def Job.jobRoot (job : Job) : String := appendPath job.storageRoot job.jobId

namespace Storage

/-- `Tasks` before its job is looked up, with its place in the order of the additions. -/
structure Tasks where
  buffer : StringStream
  id : Uuid
  number : Nat
  deriving DecidableEq

/-- Where a worker stands in `process`. -/
inductive Worker
  | testFlag
  | testEmpty
  | pop
  | query (task : Tasks)
  | found (task : Tasks) (metadata : Job)
  | write (task : Tasks) (metadata : Job) (seg : Segment)
  | clear
  | test
  | block
  | asleep
  | exited
  deriving DecidableEq

/-- Where the thread that calls `add` stands while it holds the mutex of the queue. -/
inductive Adder
  | idle
  | pushed
  | flagged
  deriving DecidableEq

/-- Where the destructor stands. -/
inductive Destructor
  | idle
  | requested
  | unsubscribed
  | notified
  | returned
  deriving DecidableEq

/-- A task that a worker is done with, its job, and the file that was written. -/
structure Done where
  task : Tasks
  metadata : Job
  file : Option String
  deriving DecidableEq

/-- What is outside of the service: the answers to the queries by stream id, in order, the
paths that can be opened for writing, and what memory holds. -/
structure World where
  answer : Nat → String → Option Job
  opens : String → Bool
  mem : Segment.Unassigned

end Storage

open Storage in
/-- A storage service with `n` worker threads. -/
structure Storage (n : Nat) where
  workers : Fin n → Worker
  tasks : List Tasks
  adder : Adder
  shutdownRequest : Bool
  moreWork : Bool
  jobCache : String → Option (Option Job)
  destructor : Destructor
  fault : Option Fault
  files : String → Option (List UInt8)
  added : List Tasks
  queries : List String
  done : List Done
  addedAtRequest : Nat

namespace Storage

open Execution

/-- The file that a segment of a stream is written to. -/
def filename (metadata : Job) (id : Uuid) (dts : Int64) : String :=
  appendPath metadata.jobRoot id.unparse ++ ("/" ++ toString dts.toInt)

/-- What the threads can do next; `wake` is a spurious wake-up. -/
inductive Label (n : Nat)
  | add (buffer : StringStream) (streamId : Uuid)
  | adding
  | worker (i : Fin n)
  | wake (i : Fin n)
  | destroy

section Steps

variable {n : Nat}

/-- The service as its constructor leaves it, on the files that are there. -/
def start (n : Nat) (moreWork : Bool) (files : String → Option (List UInt8)) : Storage n where
  workers := fun _ => .testFlag
  tasks := []
  adder := .idle
  shutdownRequest := false
  moreWork := moreWork
  jobCache := fun _ => none
  destructor := .idle
  fault := none
  files := files
  added := []
  queries := []
  done := []
  addedAtRequest := 0

/-- Move one worker on. -/
def goto (s : Storage n) (i : Fin n) (w : Worker) : Storage n :=
  { s with workers := Function.update s.workers i w }

/-- `notify_all`. -/
def notifyAll (s : Storage n) : Storage n :=
  { s with workers := fun i => if s.workers i = .asleep then .test else s.workers i }

/-- The first half of `add`. -/
def add (s : Storage n) (buffer : StringStream) (streamId : Uuid) : Storage n :=
  let task : Tasks := { buffer := buffer, id := streamId, number := s.added.length }
  { s with tasks := s.tasks ++ [task], added := s.added ++ [task], adder := .pushed }

/-- The other steps of `add`. -/
def addStep (s : Storage n) : Option (Storage n) :=
  match s.adder with
  | .idle => none
  | .pushed => some { s with moreWork := true, adder := .flagged }
  | .flagged => some { s.notifyAll with adder := .idle }

/-- `queryJob`, which asks the job service under the mutex of the cache. -/
def queryJob (world : World) (s : Storage n) (id : String) : Storage n × Option Job :=
  match s.jobCache id with
  | some job => (s, job)
  | none =>
      let job := world.answer s.queries.length id
      ({ s with
          jobCache := fun key => if key = id then some job else s.jobCache key
          queries := s.queries ++ [id] }, job)

/-- A worker is done with a task. -/
def finish (s : Storage n) (i : Fin n) (task : Tasks) (metadata : Job) (file : Option String) :
    Storage n :=
  let finished : Done := ⟨task, metadata, file⟩
  { s with done := s.done ++ [finished] }.goto i .testFlag

/-- The next step of `process`. -/
def process (world : World) (s : Storage n) (i : Fin n) : Option (Storage n) :=
  match s.workers i with
  | .testFlag => some (s.goto i (if s.shutdownRequest then .testEmpty else .pop))
  | .testEmpty => some (s.goto i (if s.tasks.isEmpty then .exited else .pop))
  | .pop =>
      if s.adder = .idle then
        match s.tasks with
        | [] => some (s.goto i .clear)
        | task :: rest => some ({ s with tasks := rest }.goto i (.query task))
      else none
  | .query task =>
      match s.queryJob world task.id.unparse with
      | (s, some metadata) => some (s.goto i (.found task metadata))
      | (s, none) => some s
  | .found task metadata =>
      if metadata.jobId = "" then some (s.finish i task metadata none)
      else
        match (Serialization.loadSegment world.mem).run task.buffer.unread with
        | .ok (seg, _) => some (s.goto i (.write task metadata seg))
        | .error e => some { s with fault := some e }
  | .write task metadata seg =>
      let path := filename metadata task.id seg.dts
      if world.opens path then
        some ({ s with
          files := fun p => if p = path then some task.buffer.contents else s.files p }.finish i
            task metadata (some path))
      else some (s.finish i task metadata none)
  | .clear => some ({ s with moreWork := false }.goto i .test)
  | .test => some (s.goto i (if s.moreWork then .testFlag else .block))
  | .block => some (s.goto i .asleep)
  | .asleep | .exited => none

/-- The next step of the destructor: `shutdown`, which joins the subscriber's thread, then
`notify_all` and `join`. -/
def destroy (s : Storage n) : Option (Storage n) :=
  match s.destructor with
  | .idle => some { s with
      shutdownRequest := true
      destructor := .requested
      addedAtRequest := s.added.length }
  | .requested => if s.adder = .idle then some { s with destructor := .unsubscribed } else none
  | .unsubscribed => some { s.notifyAll with destructor := .notified }
  | .notified =>
      if ∀ i, s.workers i = .exited then some { s with destructor := .returned } else none
  | .returned => none

/-- One step of the process, as long as it lives. The subscriber calls `add` until its thread
has been joined. -/
def step (world : World) (s : Storage n) (l : Label n) : Option (Storage n) :=
  if s.fault = none then
    match l with
    | .add buffer streamId =>
        if s.adder = .idle ∧ (s.destructor = .idle ∨ s.destructor = .requested) then
          some (s.add buffer streamId)
        else none
    | .adding => s.addStep
    | .worker i => s.process world i
    | .wake i => if s.workers i = .asleep then some (s.goto i .test) else none
    | .destroy => s.destroy
  else none

end Steps

section Goto

variable {n : Nat} (s : Storage n) (i : Fin n) (w : Worker)

@[simp] theorem goto_same : (s.goto i w).workers i = w := by
  change Function.update s.workers i w i = w
  exact Function.update_self i w s.workers

theorem goto_other {j : Fin n} (h : j ≠ i) : (s.goto i w).workers j = s.workers j := by
  change Function.update s.workers i w j = s.workers j
  exact Function.update_of_ne h w s.workers

end Goto

/-- The steps of a worker. -/
inductive Moves {n : Nat} (world : World) (s : Storage n) (i : Fin n) : Storage n → Prop
  | enter (hpc : s.workers i = .testFlag) :
      Moves world s i (s.goto i (if s.shutdownRequest then .testEmpty else .pop))
  | stay (hpc : s.workers i = .testEmpty) (htasks : s.tasks ≠ []) : Moves world s i (s.goto i .pop)
  | leave (hpc : s.workers i = .testEmpty) (htasks : s.tasks = []) :
      Moves world s i (s.goto i .exited)
  | popNone (hpc : s.workers i = .pop) (htasks : s.tasks = []) (hadder : s.adder = .idle) :
      Moves world s i (s.goto i .clear)
  | popSome (task : Tasks) (rest : List Tasks) (hpc : s.workers i = .pop)
      (htasks : s.tasks = task :: rest) (hadder : s.adder = .idle) :
      Moves world s i ({ s with tasks := rest }.goto i (.query task))
  | cached (task : Tasks) (metadata : Job) (hpc : s.workers i = .query task)
      (hjob : s.jobCache task.id.unparse = some (some metadata)) :
      Moves world s i (s.goto i (.found task metadata))
  | cachedNull (task : Tasks) (hpc : s.workers i = .query task)
      (hjob : s.jobCache task.id.unparse = some none) : Moves world s i s
  | asked (task : Tasks) (hpc : s.workers i = .query task)
      (hjob : s.jobCache task.id.unparse = none) (job : Option Job)
      (hanswer : world.answer s.queries.length task.id.unparse = job) :
      Moves world s i ({ s with
        jobCache := fun key => if key = task.id.unparse then some job else s.jobCache key
        queries := s.queries ++ [task.id.unparse] }.goto i
          (job.elim (.query task) (.found task)))
  | drop (task : Tasks) (metadata : Job) (hpc : s.workers i = .found task metadata)
      (hempty : metadata.jobId = "") : Moves world s i (s.finish i task metadata none)
  | load (task : Tasks) (metadata : Job) (seg : Segment) (rest : List UInt8)
      (hpc : s.workers i = .found task metadata) (hjob : metadata.jobId ≠ "")
      (hload : (Serialization.loadSegment world.mem).run task.buffer.unread = .ok (seg, rest)) :
      Moves world s i (s.goto i (.write task metadata seg))
  | crash (task : Tasks) (metadata : Job) (e : Fault) (hpc : s.workers i = .found task metadata)
      (hjob : metadata.jobId ≠ "")
      (hload : (Serialization.loadSegment world.mem).run task.buffer.unread = .error e) :
      Moves world s i { s with fault := some e }
  | store (task : Tasks) (metadata : Job) (seg : Segment)
      (hpc : s.workers i = .write task metadata seg)
      (hopens : world.opens (filename metadata task.id seg.dts) = true) :
      Moves world s i ({ s with
        files := fun p => if p = filename metadata task.id seg.dts then
          some task.buffer.contents else s.files p }.finish i task metadata
            (some (filename metadata task.id seg.dts)))
  | unopened (task : Tasks) (metadata : Job) (seg : Segment)
      (hpc : s.workers i = .write task metadata seg)
      (hopens : world.opens (filename metadata task.id seg.dts) = false) :
      Moves world s i (s.finish i task metadata none)
  | clear (hpc : s.workers i = .clear) : Moves world s i ({ s with moreWork := false }.goto i .test)
  | pass (hpc : s.workers i = .test) (hmore : s.moreWork = true) :
      Moves world s i (s.goto i .testFlag)
  | wait (hpc : s.workers i = .test) (hmore : s.moreWork = false) :
      Moves world s i (s.goto i .block)
  | sleep (hpc : s.workers i = .block) : Moves world s i (s.goto i .asleep)

section Inversion

variable {n : Nat} {world : World} {s s' : Storage n} {i : Fin n}

/-- A query that keeps a worker waiting leaves it where it is. -/
theorem goto_self {w : Worker} (h : s.workers i = w) : s.goto i w = s := by
  rw [goto, ← h, Function.update_eq_self]

theorem process_moves (h : s.process world i = some s') : Moves world s i s' := by
  unfold process at h
  cases hpc : s.workers i with
  | testFlag =>
      simp only [hpc] at h
      obtain rfl := Option.some.inj h
      exact Moves.enter hpc
  | testEmpty =>
      simp only [hpc] at h
      obtain rfl := Option.some.inj h
      cases htasks : s.tasks with
      | nil => exact Moves.leave hpc htasks
      | cons task rest => exact Moves.stay hpc (by simp [htasks])
  | pop =>
      simp only [hpc] at h
      split at h
      · rename_i hadder
        cases htasks : s.tasks with
        | nil =>
            simp only [htasks] at h
            obtain rfl := Option.some.inj h
            exact Moves.popNone hpc htasks hadder
        | cons task rest =>
            simp only [htasks] at h
            obtain rfl := Option.some.inj h
            exact Moves.popSome task rest hpc htasks hadder
      · cases h
  | query task =>
      simp only [hpc] at h
      cases hjob : s.jobCache task.id.unparse with
      | some job =>
          cases job with
          | none =>
              simp only [queryJob, hjob] at h
              obtain rfl := Option.some.inj h
              exact Moves.cachedNull task hpc hjob
          | some metadata =>
              simp only [queryJob, hjob] at h
              obtain rfl := Option.some.inj h
              exact Moves.cached task metadata hpc hjob
      | none =>
          have hmove : Moves world s i _ := Moves.asked task hpc hjob _ rfl
          cases hanswer : world.answer s.queries.length task.id.unparse with
          | none =>
              simp only [queryJob, hjob, hanswer] at h hmove
              obtain rfl := Option.some.inj h
              rwa [Option.elim_none, goto_self (by exact hpc)] at hmove
          | some metadata =>
              simp only [queryJob, hjob, hanswer] at h hmove
              obtain rfl := Option.some.inj h
              exact hmove
  | found task metadata =>
      simp only [hpc] at h
      split at h
      · rename_i hempty
        obtain rfl := Option.some.inj h
        exact Moves.drop task metadata hpc hempty
      · rename_i hjob
        cases hload : (Serialization.loadSegment world.mem).run task.buffer.unread with
        | ok out =>
            simp only [hload] at h
            obtain rfl := Option.some.inj h
            exact Moves.load task metadata out.1 out.2 hpc hjob hload
        | error e =>
            simp only [hload] at h
            obtain rfl := Option.some.inj h
            exact Moves.crash task metadata e hpc hjob hload
  | write task metadata seg =>
      simp only [hpc] at h
      cases hopens : world.opens (filename metadata task.id seg.dts) with
      | true =>
          simp only [hopens, if_true] at h
          obtain rfl := Option.some.inj h
          exact Moves.store task metadata seg hpc hopens
      | false =>
          simp only [hopens, Bool.false_eq_true, if_false] at h
          obtain rfl := Option.some.inj h
          exact Moves.unopened task metadata seg hpc hopens
  | clear =>
      simp only [hpc] at h
      obtain rfl := Option.some.inj h
      exact Moves.clear hpc
  | test =>
      simp only [hpc] at h
      obtain rfl := Option.some.inj h
      cases hmore : s.moreWork with
      | true => exact Moves.pass hpc hmore
      | false => exact Moves.wait hpc hmore
  | block =>
      simp only [hpc] at h
      obtain rfl := Option.some.inj h
      exact Moves.sleep hpc
  | asleep => simp only [hpc, reduceCtorEq] at h
  | exited => simp only [hpc, reduceCtorEq] at h

/-- The other steps of `add` change neither the queue nor what the workers hold. -/
theorem addStep_cases (h : s.addStep = some s') :
    s' = { s with moreWork := true, adder := .flagged } ∨ s' = { s.notifyAll with adder := .idle } := by
  unfold addStep at h
  cases hadder : s.adder with
  | idle => simp only [hadder, reduceCtorEq] at h
  | pushed =>
      simp only [hadder] at h
      exact Or.inl (Option.some.inj h).symm
  | flagged =>
      simp only [hadder] at h
      exact Or.inr (Option.some.inj h).symm

/-- The steps of the destructor in their order. -/
theorem destroy_cases (h : s.destroy = some s') :
    (s.destructor = .idle ∧ s' = { s with
        shutdownRequest := true
        destructor := .requested
        addedAtRequest := s.added.length }) ∨
    (s.destructor = .requested ∧ s.adder = .idle ∧
      s' = { s with destructor := .unsubscribed }) ∨
    (s.destructor = .unsubscribed ∧ s' = { s.notifyAll with destructor := .notified }) ∨
    (s.destructor = .notified ∧ (∀ i, s.workers i = .exited) ∧
      s' = { s with destructor := .returned }) := by
  unfold destroy at h
  cases hd : s.destructor with
  | idle =>
      simp only [hd] at h
      exact Or.inl ⟨rfl, (Option.some.inj h).symm⟩
  | requested =>
      simp only [hd] at h
      split at h
      · rename_i hadder
        exact Or.inr (Or.inl ⟨rfl, hadder, (Option.some.inj h).symm⟩)
      · cases h
  | unsubscribed =>
      simp only [hd] at h
      exact Or.inr (Or.inr (Or.inl ⟨rfl, (Option.some.inj h).symm⟩))
  | notified =>
      simp only [hd] at h
      split at h
      · rename_i hall
        exact Or.inr (Or.inr (Or.inr ⟨rfl, hall, (Option.some.inj h).symm⟩))
      · cases h
  | returned => simp only [hd, reduceCtorEq] at h

/-- Every step is one of the five kinds. -/
theorem step_cases {l : Label n} (h : s.step world l = some s') :
    s.fault = none ∧
      ((∃ buffer streamId, l = .add buffer streamId ∧ s.adder = .idle ∧
          (s.destructor = .idle ∨ s.destructor = .requested) ∧ s' = s.add buffer streamId) ∨
        (l = .adding ∧ s.addStep = some s') ∨
        (∃ i, l = .worker i ∧ Moves world s i s') ∨
        (∃ i, l = .wake i ∧ s.workers i = .asleep ∧ s' = s.goto i .test) ∨
        (l = .destroy ∧ s.destroy = some s')) := by
  unfold step at h
  split at h
  · rename_i hfault
    refine ⟨hfault, ?_⟩
    cases l with
    | add buffer streamId =>
        dsimp only at h
        split at h
        · rename_i hadd
          exact Or.inl ⟨buffer, streamId, rfl, hadd.1, hadd.2, (Option.some.inj h).symm⟩
        · cases h
    | adding => exact Or.inr (Or.inl ⟨rfl, h⟩)
    | worker i => exact Or.inr (Or.inr (Or.inl ⟨i, rfl, process_moves h⟩))
    | wake i =>
        dsimp only at h
        split at h
        · rename_i hasleep
          exact Or.inr (Or.inr (Or.inr (Or.inl ⟨i, rfl, hasleep, (Option.some.inj h).symm⟩)))
        · cases h
    | destroy => exact Or.inr (Or.inr (Or.inr (Or.inr ⟨rfl, h⟩)))
  · cases h

end Inversion

end Storage

end Media2

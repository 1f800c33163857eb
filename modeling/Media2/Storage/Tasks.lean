import Mathlib.Algebra.Order.Group.Multiset
import Mathlib.Data.List.Nodup
import Media2.Foundation.Workers
import Media2.Storage

/-!
# Tasks and jobs

Every task that was added is queued, held by one worker, or done. The cache of jobs is filled
under its mutex, the query included, so each stream is looked up once and all its segments are
stored with one job, or all of them are dropped.
-/

namespace Media2.Storage

open Execution Workers

variable {n : Nat}

/-- The task that a worker holds. -/
def Worker.task : Worker → Option Tasks
  | .query task | .found task _ | .write task _ _ => some task
  | _ => none

/-- The task that a worker holds with the job that it found. -/
def Worker.job : Worker → Option (Tasks × Job)
  | .found task metadata | .write task metadata _ => some (task, metadata)
  | _ => none

/-- What the workers hold. -/
def held (workers : Fin n → Worker) : Multiset Tasks :=
  total (fun w => (w.task.toList : Multiset Tasks)) workers

/-- The tasks that were added are done, in a worker's hand or queued, each at one place, so that
none is handled twice and none is made up. When nothing is queued and no worker holds a task, all
are handled, and when the destructor has returned, those that were added before it was called, if
there is a worker. -/
structure HandledOnce (s : Storage n) : Prop where
  added_nodup : s.added.Nodup
  balance : (↑s.added : Multiset Tasks) =
    ↑(s.done.map Done.task) + held s.workers + ↑s.tasks
  nothing_else : (↑(s.done.map Done.task) : Multiset Tasks) ≤ ↑s.added
  settled : s.tasks = [] → (∀ i, (s.workers i).task = none) →
    (s.done.map Done.task).Perm s.added
  returned : s.destructor = .returned → 0 < n →
    (↑(s.added.take s.addedAtRequest) : Multiset Tasks) ≤ ↑(s.done.map Done.task)

/-- Each stream is looked up at most once, and the tasks of one stream have one job. -/
structure LookedUpOnce (s : Storage n) : Prop where
  once : s.queries.Nodup
  one_job : ∀ d ∈ s.done, ∀ d' ∈ s.done, d.task.id = d'.task.id → d.metadata = d'.metadata

/-- Where the tasks are. -/
structure Tallied (s : Storage n) : Prop where
  balance : (↑s.added : Multiset Tasks) =
    ↑(s.done.map Done.task) + held s.workers + ↑s.tasks
  numbers : s.added.map Tasks.number = List.range s.added.length
  suffix : s.tasks <:+ s.added

/-- Who may have left, and what that says about the queue. -/
structure Attended (s : Storage n) : Prop where
  idle : s.destructor = .idle → s.shutdownRequest = false
  unflagged : s.shutdownRequest = false → ∀ i, s.workers i ≠ .testEmpty ∧ s.workers i ≠ .exited
  before : s.addedAtRequest ≤ s.added.length
  left : ∀ i, s.workers i = .exited → s.addedAtRequest + s.tasks.length ≤ s.added.length
  returned : s.destructor = .returned → ∀ i, s.workers i = .exited

theorem held_none {workers : Fin n → Worker} (h : ∀ i, (workers i).task = none) :
    held workers = 0 := by
  apply total_eq_zero
  intro i
  rw [h i]
  rfl

theorem Tallied.nothing_else {s : Storage n} (h : Tallied s) :
    (↑(s.done.map Done.task) : Multiset Tasks) ≤ ↑s.added := by
  rw [h.balance, add_assoc]
  exact Multiset.le_add_right _ _

theorem handledOnce {s : Storage n} (ht : Tallied s) (ha : Attended s) : HandledOnce s where
  added_nodup := by
    apply List.Nodup.of_map Tasks.number
    rw [ht.numbers]
    exact List.nodup_range
  balance := ht.balance
  nothing_else := ht.nothing_else
  settled := by
    intro htasks hfree
    apply Multiset.coe_eq_coe.mp
    rw [ht.balance, held_none hfree, htasks, Multiset.coe_nil, add_zero, add_zero]
  returned := by
    intro hreturned hpos
    have hexit := ha.returned hreturned
    have hnone : held s.workers = 0 := held_none fun i => by rw [hexit i]; rfl
    obtain ⟨taken, htaken⟩ := ht.suffix
    have hleft := ha.left ⟨0, hpos⟩ (hexit _)
    have hbalance := ht.balance
    rw [hnone, add_zero, ← htaken, ← Multiset.coe_add, add_left_inj] at hbalance
    rw [← htaken, List.length_append] at hleft
    rw [← hbalance, ← htaken, List.take_append_of_le_length (by omega)]
    exact Multiset.coe_le.mpr (List.take_sublist _ _).subperm

section Moves

variable {world : World} {s s' : Storage n} {i : Fin n}

/-- A worker goes from one place to another with the task it has. -/
theorem Tallied.keep (h : Tallied s) {w : Worker} (hw : w.task = (s.workers i).task)
    (more : Bool) (cache : String → Option (Option Job)) (queries : List String) :
    Tallied ({ s with moreWork := more, jobCache := cache, queries := queries }.goto i w) where
  balance := by
    have hkeep : held (Function.update s.workers i w) = held s.workers :=
      total_keep (by rw [hw])
    change (↑s.added : Multiset Tasks) =
      ↑(s.done.map Done.task) + held (Function.update s.workers i w) + ↑s.tasks
    rw [hkeep]
    exact h.balance
  numbers := h.numbers
  suffix := h.suffix

/-- A worker is done with its task. -/
theorem Tallied.finish (h : Tallied s) {task : Tasks} (hw : (s.workers i).task = some task)
    (metadata : Job) (file : Option String) (files : String → Option (List UInt8)) :
    Tallied ({ s with files := files }.finish i task metadata file) where
  balance := by
    have hgive : (↑[task] : Multiset Tasks) + held (Function.update s.workers i .testFlag) =
        held s.workers := by
      apply total_give
      rw [hw]
      exact (add_zero _).symm
    change (↑s.added : Multiset Tasks) = ↑((s.done ++ [(⟨task, metadata, file⟩ : Done)]).map Done.task) +
      held (Function.update s.workers i .testFlag) + ↑s.tasks
    rw [h.balance, ← hgive, List.map_append, ← Multiset.coe_add]
    simp only [add_assoc, List.map_cons, List.map_nil]
  numbers := h.numbers
  suffix := h.suffix

theorem moves_tallied (hs : Tallied s) (h : Moves world s i s') : Tallied s' := by
  cases h with
  | popSome task rest hpc htasks hadder =>
      have htake : held (Function.update s.workers i (.query task)) =
          held s.workers + ↑[task] := by
        apply total_take
        rw [hpc]
        exact (zero_add _).symm
      refine ⟨?_, hs.numbers, ?_⟩
      · change (↑s.added : Multiset Tasks) = ↑(s.done.map Done.task) +
          held (Function.update s.workers i (.query task)) + ↑rest
        rw [hs.balance, htake, htasks, ← List.singleton_append, ← Multiset.coe_add]
        simp only [add_assoc]
      · have hsuffix := hs.suffix
        rw [htasks] at hsuffix
        exact (List.suffix_cons task rest).trans hsuffix
  | cached task metadata hpc hjob =>
      exact hs.keep (by rw [hpc]; rfl) s.moreWork s.jobCache s.queries
  | cachedNull task hpc hjob => exact hs
  | asked task hpc hjob job hanswer =>
      apply hs.keep
      rw [hpc]
      cases job <;> rfl
  | drop task metadata hpc hempty => exact hs.finish (by rw [hpc]; rfl) metadata none s.files
  | load task metadata seg rest hpc hjob hload =>
      exact hs.keep (by rw [hpc]; rfl) s.moreWork s.jobCache s.queries
  | crash task metadata e hpc hjob hload => exact ⟨hs.balance, hs.numbers, hs.suffix⟩
  | store task metadata seg hpc hopens => exact hs.finish (by rw [hpc]; rfl) metadata _ _
  | unopened task metadata seg hpc hopens =>
      exact hs.finish (by rw [hpc]; rfl) metadata none s.files
  | enter hpc =>
      refine hs.keep ?_ s.moreWork s.jobCache s.queries
      rw [hpc]
      split <;> rfl
  | clear hpc => exact hs.keep (by rw [hpc]; rfl) false s.jobCache s.queries
  | stay hpc | leave hpc | popNone hpc | pass hpc | wait hpc | sleep hpc =>
      exact hs.keep (by rw [hpc]; rfl) s.moreWork s.jobCache s.queries

/-- Waking workers changes no sum in which sleep counts as the test after it. -/
theorem total_notifyAll {M : Type*} [AddCommMonoid M] {f : Worker → M}
    (hf : f .asleep = f .test) (s : Storage n) :
    total f s.notifyAll.workers = total f s.workers := by
  apply Finset.sum_congr rfl
  intro i _
  change f (if s.workers i = .asleep then .test else s.workers i) = f (s.workers i)
  split
  · rename_i hasleep
    rw [hasleep, hf]
  · rfl

theorem notifyAll_held (s : Storage n) : held s.notifyAll.workers = held s.workers :=
  total_notifyAll rfl s

theorem Tallied.notifyAll (h : Tallied s) : Tallied s.notifyAll where
  balance := by
    rw [notifyAll_held]
    exact h.balance
  numbers := h.numbers
  suffix := h.suffix

theorem Tallied.add (h : Tallied s) (buffer : StringStream) (streamId : Uuid) :
    Tallied (s.add buffer streamId) where
  balance := by
    simp only [Storage.add, ← Multiset.coe_add, h.balance, add_assoc]
  numbers := by
    simp only [Storage.add, List.map_append, h.numbers, List.length_append, List.length_cons,
      List.length_nil, List.range_succ, List.map_cons, List.map_nil]
  suffix := by
    obtain ⟨taken, htaken⟩ := h.suffix
    exact ⟨taken, by simp only [Storage.add, ← List.append_assoc, htaken]⟩

theorem step_tallied {l : Label n} (hs : Tallied s) (h : s.step world l = some s') :
    Tallied s' := by
  obtain ⟨-, ⟨buffer, streamId, -, -, -, rfl⟩ | ⟨-, hadd⟩ | ⟨i, -, hmoves⟩ |
    ⟨i, -, hasleep, rfl⟩ | ⟨-, hdestroy⟩⟩ := step_cases h
  · exact hs.add buffer streamId
  · rcases addStep_cases hadd with rfl | rfl
    · exact ⟨hs.balance, hs.numbers, hs.suffix⟩
    · exact ⟨hs.notifyAll.balance, hs.numbers, hs.suffix⟩
  · exact moves_tallied hs hmoves
  · exact hs.keep (by rw [hasleep]; rfl) s.moreWork s.jobCache s.queries
  · rcases destroy_cases hdestroy with ⟨-, rfl⟩ | ⟨-, -, rfl⟩ | ⟨-, rfl⟩ | ⟨-, -, rfl⟩
    · exact ⟨hs.balance, hs.numbers, hs.suffix⟩
    · exact ⟨hs.balance, hs.numbers, hs.suffix⟩
    · exact ⟨hs.notifyAll.balance, hs.numbers, hs.suffix⟩
    · exact ⟨hs.balance, hs.numbers, hs.suffix⟩

end Moves

section Leaving

variable {world : World} {s s' : Storage n} {i : Fin n}

/-- A worker that goes to a place other than the last test and the exit. -/
theorem Attended.keep (h : Attended s) {w : Worker} (hlive : s.workers i ≠ .exited)
    (hempty : w ≠ .testEmpty) (hexit : w ≠ .exited) {t : Storage n}
    (hworkers : t.workers = Function.update s.workers i w) (htasks : t.tasks.length ≤ s.tasks.length)
    (hflag : t.shutdownRequest = s.shutdownRequest) (hdestructor : t.destructor = s.destructor)
    (hadded : t.added = s.added) (hbefore : t.addedAtRequest = s.addedAtRequest) :
    Attended t where
  idle := by
    rw [hdestructor, hflag]
    exact h.idle
  unflagged := by
    intro hunset j
    rw [hflag] at hunset
    rw [hworkers]
    by_cases hj : j = i
    · subst hj
      rw [Function.update_self]
      exact ⟨hempty, hexit⟩
    · rw [Function.update_of_ne hj]
      exact h.unflagged hunset j
  before := by
    rw [hbefore, hadded]
    exact h.before
  left := by
    intro j hj
    rw [hworkers] at hj
    by_cases hji : j = i
    · subst hji
      rw [Function.update_self] at hj
      exact absurd hj hexit
    · rw [Function.update_of_ne hji] at hj
      have hleft := h.left j hj
      rw [hbefore, hadded]
      omega
  returned := by
    intro hreturned
    rw [hdestructor] at hreturned
    exact absurd (h.returned hreturned i) hlive

theorem moves_attended (hs : Attended s) (h : Moves world s i s') : Attended s' := by
  cases h with
  | enter hpc =>
      cases hflag : s.shutdownRequest with
      | false =>
          exact hs.keep (w := .pop) (by simp [hpc]) (by simp) (by simp) rfl (Nat.le_refl _) rfl
            rfl rfl rfl
      | true =>
          have hlive : ∀ j, (Function.update s.workers i .testEmpty) j = .exited →
              s.workers j = .exited := by
            intro j hj
            by_cases hji : j = i
            · subst hji
              rw [Function.update_self] at hj
              cases hj
            · rwa [Function.update_of_ne hji] at hj
          refine ⟨hs.idle, ?_, hs.before, fun j hj => hs.left j (hlive j hj), ?_⟩
          · exact fun hunset => absurd (hflag.symm.trans hunset) (by decide)
          · intro hreturned
            have hexit := hs.returned hreturned i
            rw [hpc] at hexit
            cases hexit
  | leave hpc htasks =>
      have hflag : s.shutdownRequest = true := by
        cases hset : s.shutdownRequest with
        | true => rfl
        | false => exact absurd hpc (hs.unflagged hset i).1
      refine ⟨hs.idle, ?_, hs.before, ?_, ?_⟩
      · exact fun hunset => absurd (hflag.symm.trans hunset) (by decide)
      · intro j hj
        change s.addedAtRequest + s.tasks.length ≤ s.added.length
        rw [htasks]
        exact hs.before
      · intro hreturned
        have hexit := hs.returned hreturned i
        rw [hpc] at hexit
        cases hexit
  | cachedNull task hpc hjob => exact hs
  | crash task metadata e hpc hjob hload =>
      exact ⟨hs.idle, hs.unflagged, hs.before, hs.left, hs.returned⟩
  | popSome task rest hpc htasks hadder =>
      refine hs.keep (by simp [hpc]) (by simp) (by simp) rfl ?_ rfl rfl rfl rfl
      rw [htasks]
      exact Nat.le_succ _
  | asked task hpc hjob job hanswer =>
      exact hs.keep (by simp [hpc]) (by cases job <;> simp) (by cases job <;> simp) rfl
        (Nat.le_refl _) rfl rfl rfl rfl
  | stay hpc | popNone hpc | cached _ _ hpc | drop _ _ hpc | load _ _ _ _ hpc | store _ _ _ hpc
  | unopened _ _ _ hpc | clear hpc | pass hpc | wait hpc | sleep hpc =>
      exact hs.keep (by simp [hpc]) (by simp) (by simp) rfl (Nat.le_refl _) rfl rfl rfl rfl

/-- Waking workers brings none to the exit. -/
theorem Attended.notifyAll (h : Attended s) : Attended s.notifyAll where
  idle := h.idle
  unflagged := by
    intro hunset j
    change (if s.workers j = .asleep then Worker.test else s.workers j) ≠ .testEmpty ∧
      (if s.workers j = .asleep then Worker.test else s.workers j) ≠ .exited
    split
    · exact ⟨by simp, by simp⟩
    · exact h.unflagged hunset j
  before := h.before
  left := by
    intro j hj
    change (if s.workers j = .asleep then Worker.test else s.workers j) = .exited at hj
    split at hj
    · cases hj
    · exact h.left j hj
  returned := by
    intro hreturned j
    change (if s.workers j = .asleep then Worker.test else s.workers j) = .exited
    rw [h.returned hreturned j, if_neg (by simp)]

theorem step_attended {l : Label n} (hs : Attended s) (h : s.step world l = some s') :
    Attended s' := by
  obtain ⟨-, ⟨buffer, streamId, -, -, hdestructor, rfl⟩ | ⟨-, hadd⟩ | ⟨i, -, hmoves⟩ |
    ⟨i, -, hasleep, rfl⟩ | ⟨-, hdestroy⟩⟩ := step_cases h
  · refine ⟨hs.idle, hs.unflagged, ?_, ?_, hs.returned⟩
    · simp only [add, List.length_append]
      exact Nat.le_add_right_of_le hs.before
    · intro j hj
      have hleft := hs.left j hj
      simp only [add, List.length_append, List.length_cons, List.length_nil]
      omega
  · rcases addStep_cases hadd with rfl | rfl
    · exact ⟨hs.idle, hs.unflagged, hs.before, hs.left, hs.returned⟩
    · have hnotify := hs.notifyAll
      exact ⟨hnotify.idle, hnotify.unflagged, hnotify.before, hnotify.left, hnotify.returned⟩
  · exact moves_attended hs hmoves
  · exact hs.keep (by simp [hasleep]) (by simp) (by simp) rfl (Nat.le_refl _) rfl rfl rfl rfl
  · rcases destroy_cases hdestroy with ⟨hidle, rfl⟩ | ⟨-, -, rfl⟩ | ⟨-, rfl⟩ | ⟨-, hall, rfl⟩
    · refine ⟨by rintro ⟨⟩, by rintro ⟨⟩, Nat.le_refl _, ?_, by rintro ⟨⟩⟩
      exact fun j hj => absurd hj (hs.unflagged (hs.idle hidle) j).2
    · exact ⟨by rintro ⟨⟩, hs.unflagged, hs.before, hs.left, by rintro ⟨⟩⟩
    · have hnotify := hs.notifyAll
      exact ⟨by rintro ⟨⟩, hnotify.unflagged, hnotify.before, hnotify.left, by rintro ⟨⟩⟩
    · exact ⟨by rintro ⟨⟩, hs.unflagged, hs.before, hs.left, fun _ => hall⟩

end Leaving

theorem start_attended (n : Nat) (moreWork : Bool) (files : String → Option (List UInt8)) :
    Attended (start n moreWork files) where
  idle := fun _ => rfl
  unflagged := fun _ _ => ⟨by simp [start], by simp [start]⟩
  before := Nat.le_refl 0
  left := by
    rintro i ⟨⟩
  returned := by
    rintro ⟨⟩

theorem start_tallied (n : Nat) (moreWork : Bool) (files : String → Option (List UInt8)) :
    Tallied (start n moreWork files) where
  balance := by
    have hnone : held (start n moreWork files).workers = 0 := held_none fun _ => rfl
    rw [hnone]
    rfl
  numbers := rfl
  suffix := List.suffix_refl []

theorem tallied_of_exec {world : World} {moreWork : Bool}
    {files : String → Option (List UInt8)} {labels : List (Label n)} {s : Storage n}
    (hexec : exec (step world) (start n moreWork files) labels = some s) : Tallied s :=
  invariant_of_step (fun _ _ _ => step_tallied) (start_tallied n moreWork files) hexec

/-- In every run of a service with any number of workers, each task is handled at most once,
and none that was added before the destructor was called is left when it returns. -/
theorem handledOnce_of_exec (world : World) (moreWork : Bool)
    (files : String → Option (List UInt8)) (labels : List (Label n)) (s : Storage n)
    (hexec : exec (step world) (start n moreWork files) labels = some s) : HandledOnce s := by
  have hattended : Attended s :=
    invariant_of_step (fun _ _ _ => step_attended) (start_attended n moreWork files) hexec
  exact handledOnce (tallied_of_exec hexec) hattended

/-- What is cached was asked for once, and every job that was found is cached. -/
structure Consulted (world : World) (s : Storage n) : Prop where
  once : s.queries.Nodup
  asked : ∀ key, key ∈ s.queries ↔ s.jobCache key ≠ none
  answered : ∀ key job, s.jobCache key = some job → ∃ count, world.answer count key = job
  found : ∀ i task metadata, (s.workers i).job = some (task, metadata) →
    s.jobCache task.id.unparse = some (some metadata)
  done : ∀ d ∈ s.done, s.jobCache d.task.id.unparse = some (some d.metadata)

theorem Consulted.lookedUpOnce {world : World} {s : Storage n} (h : Consulted world s) :
    LookedUpOnce s where
  once := h.once
  one_job := by
    intro d hd d' hd' hid
    have hcached := h.done d hd
    rw [hid, h.done d' hd'] at hcached
    exact (Option.some.inj (Option.some.inj hcached)).symm

section Moves

variable {world : World} {s s' : Storage n} {i : Fin n}

/-- A worker moves on without asking anybody. -/
theorem Consulted.keep (h : Consulted world s) {w : Worker}
    (hw : ∀ task metadata, w.job = some (task, metadata) →
      s.jobCache task.id.unparse = some (some metadata)) (more : Bool) (tasks : List Tasks)
    (files : String → Option (List UInt8)) :
    Consulted world ({ s with moreWork := more, tasks := tasks, files := files }.goto i w) where
  once := h.once
  asked := h.asked
  answered := h.answered
  found := by
    intro j task metadata hj
    change (Function.update s.workers i w j).job = some (task, metadata) at hj
    by_cases hji : j = i
    · subst hji
      rw [Function.update_self] at hj
      exact hw task metadata hj
    · rw [Function.update_of_ne hji] at hj
      exact h.found j task metadata hj
  done := h.done

theorem Consulted.free (h : Consulted world s) {w : Worker} (hw : w.job = none) (more : Bool)
    (tasks : List Tasks) (files : String → Option (List UInt8)) :
    Consulted world ({ s with moreWork := more, tasks := tasks, files := files }.goto i w) :=
  h.keep (fun task metadata hj => absurd (hw.symm.trans hj) (by simp)) more tasks files

/-- A worker is done with a task whose job it found. -/
theorem Consulted.finish (h : Consulted world s) {task : Tasks} {metadata : Job}
    (hpc : (s.workers i).job = some (task, metadata)) (file : Option String)
    (files : String → Option (List UInt8)) :
    Consulted world ({ s with files := files }.finish i task metadata file) where
  once := h.once
  asked := h.asked
  answered := h.answered
  found := (h.free (w := .testFlag) rfl s.moreWork s.tasks files).found
  done := by
    intro d hd
    rcases List.mem_append.mp hd with hd | hd
    · exact h.done d hd
    · obtain rfl := List.mem_singleton.mp hd
      exact h.found i task metadata hpc

/-- A worker asks for a job that is not in the cache. -/
theorem Consulted.ask (h : Consulted world s) {task : Tasks} {job : Option Job}
    (hnone : s.jobCache task.id.unparse = none)
    (hanswer : world.answer s.queries.length task.id.unparse = job) :
    Consulted world ({ s with
      jobCache := fun key => if key = task.id.unparse then some job else s.jobCache key
      queries := s.queries ++ [task.id.unparse] }.goto i
        (job.elim (.query task) (.found task))) where
  once := by
    apply List.nodup_append.mpr
    refine ⟨h.once, List.nodup_singleton _, ?_⟩
    rintro key hkey _ hlast rfl
    rw [List.mem_singleton.mp hlast] at hkey
    exact (h.asked _).mp hkey hnone
  asked := by
    intro key
    change key ∈ s.queries ++ [task.id.unparse] ↔
      (if key = task.id.unparse then some job else s.jobCache key) ≠ none
    rw [List.mem_append, List.mem_singleton, h.asked key]
    by_cases hkey : key = task.id.unparse
    · simp [hkey]
    · simp [hkey]
  answered := by
    intro key job' hcached
    change (if key = task.id.unparse then some job else s.jobCache key) = some job' at hcached
    split at hcached
    · rename_i hkey
      exact ⟨s.queries.length, by rw [hkey, hanswer, Option.some.inj hcached]⟩
    · exact h.answered key job' hcached
  found := by
    intro j task' metadata hj
    change (Function.update s.workers i (job.elim (.query task) (.found task)) j).job =
      some (task', metadata) at hj
    change (if task'.id.unparse = task.id.unparse then some job
      else s.jobCache task'.id.unparse) = some (some metadata)
    by_cases hji : j = i
    · subst hji
      rw [Function.update_self] at hj
      cases job with
      | none => cases hj
      | some metadata' =>
          cases hj
          exact if_pos rfl
    · rw [Function.update_of_ne hji] at hj
      have hcached := h.found j task' metadata hj
      rw [if_neg, hcached]
      intro heq
      rw [heq, hnone] at hcached
      cases hcached
  done := by
    intro d hd
    have hcached := h.done d hd
    change (if d.task.id.unparse = task.id.unparse then some job
      else s.jobCache d.task.id.unparse) = some (some d.metadata)
    rw [if_neg, hcached]
    intro heq
    rw [heq, hnone] at hcached
    cases hcached

theorem moves_consulted (hs : Consulted world s) (h : Moves world s i s') : Consulted world s' := by
  cases h with
  | enter hpc => exact hs.free (by split <;> rfl) s.moreWork s.tasks s.files
  | popSome task rest hpc htasks hadder => exact hs.free rfl s.moreWork rest s.files
  | cached task metadata hpc hjob =>
      refine hs.keep ?_ s.moreWork s.tasks s.files
      intro task' metadata' heq
      obtain ⟨rfl, rfl⟩ := Prod.mk.inj (Option.some.inj heq)
      exact hjob
  | cachedNull task hpc hjob => exact hs
  | asked task hpc hjob job hanswer => exact hs.ask hjob hanswer
  | drop task metadata hpc hempty => exact hs.finish (by rw [hpc]; rfl) none s.files
  | load task metadata seg rest hpc hjob hload =>
      refine hs.keep ?_ s.moreWork s.tasks s.files
      intro task' metadata' heq
      obtain ⟨rfl, rfl⟩ := Prod.mk.inj (Option.some.inj heq)
      exact hs.found i task metadata (by rw [hpc]; rfl)
  | crash task metadata e hpc hjob hload => exact ⟨hs.once, hs.asked, hs.answered, hs.found, hs.done⟩
  | store task metadata seg hpc hopens => exact hs.finish (by rw [hpc]; rfl) _ _
  | unopened task metadata seg hpc hopens => exact hs.finish (by rw [hpc]; rfl) none s.files
  | clear hpc => exact hs.free rfl false s.tasks s.files
  | stay hpc | leave hpc | popNone hpc | pass hpc | wait hpc | sleep hpc =>
      exact hs.free rfl s.moreWork s.tasks s.files

/-- Waking workers gives them no job. -/
theorem Consulted.notifyAll (h : Consulted world s) : Consulted world s.notifyAll where
  once := h.once
  asked := h.asked
  answered := h.answered
  found := by
    intro j task metadata hj
    change (if s.workers j = .asleep then Worker.test else s.workers j).job =
      some (task, metadata) at hj
    split at hj
    · cases hj
    · exact h.found j task metadata hj
  done := h.done

theorem step_consulted {l : Label n} (hs : Consulted world s) (h : s.step world l = some s') :
    Consulted world s' := by
  obtain ⟨-, ⟨buffer, streamId, -, -, -, rfl⟩ | ⟨-, hadd⟩ | ⟨i, -, hmoves⟩ |
    ⟨i, -, -, rfl⟩ | ⟨-, hdestroy⟩⟩ := step_cases h
  · exact ⟨hs.once, hs.asked, hs.answered, hs.found, hs.done⟩
  · rcases addStep_cases hadd with rfl | rfl
    · exact ⟨hs.once, hs.asked, hs.answered, hs.found, hs.done⟩
    · exact ⟨hs.once, hs.asked, hs.answered, hs.notifyAll.found, hs.done⟩
  · exact moves_consulted hs hmoves
  · exact hs.free rfl s.moreWork s.tasks s.files
  · rcases destroy_cases hdestroy with ⟨-, rfl⟩ | ⟨-, -, rfl⟩ | ⟨-, rfl⟩ | ⟨-, -, rfl⟩
    · exact ⟨hs.once, hs.asked, hs.answered, hs.found, hs.done⟩
    · exact ⟨hs.once, hs.asked, hs.answered, hs.found, hs.done⟩
    · exact ⟨hs.once, hs.asked, hs.answered, hs.notifyAll.found, hs.done⟩
    · exact ⟨hs.once, hs.asked, hs.answered, hs.found, hs.done⟩

end Moves

theorem start_consulted (world : World) (n : Nat) (moreWork : Bool)
    (files : String → Option (List UInt8)) : Consulted world (start n moreWork files) where
  once := List.nodup_nil
  asked := by simp [start]
  answered := by
    rintro key job ⟨⟩
  found := by
    rintro i task metadata ⟨⟩
  done := by
    rintro d ⟨⟩

theorem consulted_of_exec {world : World} {moreWork : Bool}
    {files : String → Option (List UInt8)} {labels : List (Label n)} {s : Storage n}
    (hexec : exec (step world) (start n moreWork files) labels = some s) : Consulted world s :=
  invariant_of_step (fun _ _ _ => step_consulted) (start_consulted world n moreWork files) hexec

/-- In every run, however the job service changes its mind, the service is asked once for each
stream and all the segments of the stream are handled with that answer. -/
theorem lookedUpOnce_of_exec (world : World) (moreWork : Bool)
    (files : String → Option (List UInt8)) (labels : List (Label n)) (s : Storage n)
    (hexec : exec (step world) (start n moreWork files) labels = some s) : LookedUpOnce s :=
  (consulted_of_exec hexec).lookedUpOnce

section Sample

/-- A job service that knows every stream, and directories that are there. -/
def World.sample : World where
  answer _ _ := some ⟨"job", "/tmp"⟩
  opens _ := true
  mem := Segment.Unassigned.zero

/-- A segment arrives and one of two workers stores it; then the service is destroyed. -/
def storeOne : List (Label 2) :=
  [.add (StringStream.ofBytes (Serialization.saveSegment Segment.sample)) Uuid.null, .adding,
    .adding] ++ List.replicate 5 (.worker 0) ++ [.destroy, .destroy] ++
    List.replicate 2 (.worker 0) ++ List.replicate 2 (.worker 1) ++ [.destroy, .destroy]

set_option maxRecDepth 10000 in
theorem handledOnce_of_exec_sample :
    ∃ s, exec (step World.sample) (start 2 false fun _ => none) storeOne = some s ∧
      s.destructor = .returned ∧ HandledOnce s :=
  ⟨_, rfl, rfl, handledOnce_of_exec World.sample false (fun _ => none) storeOne _ rfl⟩

set_option maxRecDepth 10000 in
theorem lookedUpOnce_of_exec_sample :
    ∃ s, exec (step World.sample) (start 2 false fun _ => none) storeOne = some s ∧
      LookedUpOnce s :=
  ⟨_, rfl, lookedUpOnce_of_exec World.sample false (fun _ => none) storeOne _ rfl⟩

end Sample

end Media2.Storage

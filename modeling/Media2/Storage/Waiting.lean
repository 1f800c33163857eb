import Media2.Storage.Tasks

/-!
# Waiting for work

A worker without work clears `moreWork` before it waits, and nothing but `add` sets it again:
the destructor only notifies. So a worker that has found the queue empty waits for the next
segment, whatever was queued in the meantime, and a destructor that is called while it waits
never returns.
-/

namespace Media2.Storage

open Execution Workers

variable {n : Nat}

/-- A worker that will read `moreWork` before it does anything else. -/
def Worker.Waiting : Worker → Prop
  | .test | .block | .asleep => True
  | _ => False

/-- How many workers are about to take a task. -/
def popping (workers : Fin n → Worker) : Nat :=
  total (fun w => if w = .pop then 1 else 0) workers

/-- Not a segment arrives. -/
def Label.Quiet : Label n → Prop
  | .add _ _ => False
  | _ => True

/-- No worker will wait: none is about to clear `moreWork`, it is set if one waits, and there
is a task for each that is about to take one. -/
structure CanReturn (s : Storage n) : Prop where
  clear : ∀ i, s.workers i ≠ .clear
  waiting : ∀ i, (s.workers i).Waiting → s.moreWork = true
  pops : popping s.workers ≤ s.tasks.length

section Backwards

variable {world : World} {s s' t : Storage n} {i : Fin n} {w : Worker}

/-- What a move does to the number of workers that are about to take a task. -/
theorem popping_update (workers : Fin n → Worker) (i : Fin n) (w : Worker) :
    popping (Function.update workers i w) + (if workers i = .pop then 1 else 0) =
      popping workers + (if w = .pop then 1 else 0) :=
  total_update _ workers i w

theorem CanReturn.of_goto (h : CanReturn t) (hworkers : t.workers = Function.update s.workers i w)
    (hmore : t.moreWork = s.moreWork) (htasks : t.tasks = s.tasks)
    (hclear : s.workers i ≠ .clear)
    (hwaiting : (s.workers i).Waiting → s.moreWork = true ∨ w.Waiting)
    (hpop : s.workers i ≠ .pop) : CanReturn s where
  clear := by
    intro j hj
    by_cases hji : j = i
    · exact hclear (hji ▸ hj)
    · apply h.clear j
      rw [hworkers, Function.update_of_ne hji, hj]
  waiting := by
    intro j hj
    rw [← hmore]
    by_cases hji : j = i
    · subst hji
      rcases hwaiting hj with hset | hw
      · rw [hmore, hset]
      · apply h.waiting j
        rw [hworkers, Function.update_self]
        exact hw
    · apply h.waiting j
      rw [hworkers, Function.update_of_ne hji]
      exact hj
  pops := by
    have hpops := h.pops
    have hupdate := popping_update s.workers i w
    rw [hworkers, htasks] at hpops
    rw [if_neg hpop] at hupdate
    omega

theorem canReturn_of_moves (h : CanReturn s') (hmoves : Moves world s i s') : CanReturn s := by
  cases hmoves with
  | popNone hpc htasks hadder =>
      have hclear := h.clear i
      rw [goto_same] at hclear
      exact absurd rfl hclear
  | popSome task rest hpc htasks hadder =>
      have hpops := h.pops
      have hupdate := popping_update s.workers i (.query task)
      refine ⟨fun j hj => ?_, fun j hj => ?_, ?_⟩
      · by_cases hji : j = i
        · rw [hji, hpc] at hj
          cases hj
        · apply h.clear j
          rw [goto_other _ _ _ hji]
          exact hj
      · by_cases hji : j = i
        · rw [hji, hpc] at hj
          exact hj.elim
        · apply h.waiting j
          rw [goto_other _ _ _ hji]
          exact hj
      · change popping (Function.update s.workers i (.query task)) ≤ rest.length at hpops
        rw [hpc, if_pos rfl, if_neg (by simp)] at hupdate
        rw [htasks, List.length_cons]
        omega
  | clear hpc =>
      have hmore := h.waiting i
      rw [goto_same] at hmore
      cases hmore trivial
  | cachedNull task hpc hjob => exact h
  | crash task metadata e hpc hjob hload => exact ⟨h.clear, h.waiting, h.pops⟩
  | asked task hpc hjob job hanswer =>
      exact h.of_goto (i := i) rfl rfl rfl (by simp [hpc]) (by rw [hpc]; exact False.elim)
        (by simp [hpc])
  | pass hpc hmore =>
      exact h.of_goto (i := i) rfl rfl rfl (by simp [hpc]) (fun _ => Or.inl hmore) (by simp [hpc])
  | wait hpc hmore | sleep hpc =>
      exact h.of_goto (i := i) rfl rfl rfl (by simp [hpc]) (fun _ => Or.inr trivial) (by simp [hpc])
  | enter hpc | stay hpc | leave hpc | cached _ _ hpc | drop _ _ hpc | load _ _ _ _ hpc
  | store _ _ _ hpc | unopened _ _ _ hpc =>
      exact h.of_goto (i := i) rfl rfl rfl (by simp [hpc]) (by rw [hpc]; exact False.elim)
        (by simp [hpc])

/-- A worker touches neither the destructor nor the thread that adds. -/
theorem moves_frame (h : Moves world s i s') : s'.adder = s.adder ∧
    s'.destructor = s.destructor ∧ s'.shutdownRequest = s.shutdownRequest ∧
    s'.added = s.added := by
  cases h <;> exact ⟨rfl, rfl, rfl, rfl⟩

/-- Waking workers does not set `moreWork`. -/
theorem CanReturn.of_notifyAll (h : CanReturn s.notifyAll) : CanReturn s := by
  have hworker : ∀ j, s.notifyAll.workers j =
      if s.workers j = .asleep then .test else s.workers j := fun j => rfl
  refine ⟨fun j hj => ?_, fun j hj => ?_, ?_⟩
  · apply h.clear j
    rw [hworker, if_neg (by simp [hj]), hj]
  · apply h.waiting j
    rw [hworker]
    split
    · trivial
    · exact hj
  · exact Nat.le_trans (Nat.le_of_eq (total_notifyAll (by simp) s).symm) h.pops

/-- Without a new segment nothing is added. -/
theorem quiet_frame {l : Label n} (hadder : s.adder = .idle) (hquiet : l.Quiet)
    (h : s.step world l = some s') : s'.adder = .idle ∧ s'.added = s.added := by
  obtain ⟨-, ⟨buffer, streamId, rfl, -⟩ | ⟨-, hadd⟩ | ⟨i, -, hmoves⟩ |
    ⟨i, -, hasleep, rfl⟩ | ⟨-, hdestroy⟩⟩ := step_cases h
  · exact hquiet.elim
  · rw [addStep, hadder] at hadd
    cases hadd
  · obtain ⟨hidle, -, -, hadded⟩ := moves_frame hmoves
    exact ⟨hidle.trans hadder, hadded⟩
  · exact ⟨hadder, rfl⟩
  · rcases destroy_cases hdestroy with ⟨-, rfl⟩ | ⟨-, -, rfl⟩ | ⟨-, rfl⟩ | ⟨-, -, rfl⟩ <;>
      exact ⟨hadder, rfl⟩

theorem canReturn_of_step {l : Label n} (hadder : s.adder = .idle) (hquiet : l.Quiet)
    (h : s.step world l = some s') (hcan : CanReturn s') : CanReturn s := by
  obtain ⟨-, ⟨buffer, streamId, rfl, -⟩ | ⟨-, hadd⟩ | ⟨i, -, hmoves⟩ |
    ⟨i, -, hasleep, rfl⟩ | ⟨-, hdestroy⟩⟩ := step_cases h
  · exact hquiet.elim
  · rw [addStep, hadder] at hadd
    cases hadd
  · exact canReturn_of_moves hcan hmoves
  · exact hcan.of_goto (i := i) rfl rfl rfl (by simp [hasleep]) (fun _ => Or.inr trivial)
      (by simp [hasleep])
  · rcases destroy_cases hdestroy with ⟨-, rfl⟩ | ⟨-, -, rfl⟩ | ⟨-, rfl⟩ | ⟨-, -, rfl⟩
    · exact ⟨hcan.clear, hcan.waiting, hcan.pops⟩
    · exact ⟨hcan.clear, hcan.waiting, hcan.pops⟩
    · apply CanReturn.of_notifyAll
      exact ⟨hcan.clear, hcan.waiting, hcan.pops⟩
    · exact ⟨hcan.clear, hcan.waiting, hcan.pops⟩

/-- When all workers have left, none waits. -/
theorem canReturn_of_exited (h : ∀ i, s.workers i = .exited) : CanReturn s where
  clear := by
    intro i hi
    cases (h i).symm.trans hi
  waiting := by
    intro i hi
    rw [h i] at hi
    exact hi.elim
  pops := by
    have hnone : popping s.workers = 0 := by
      apply total_eq_zero
      intro i
      rw [h i, if_neg (by simp)]
    omega

theorem canReturn_of_exec {more : List (Label n)} (hadder : s.adder = .idle)
    (hquiet : ∀ l ∈ more, l.Quiet) (hmore : exec (step world) s more = some t)
    (hcan : CanReturn t) : CanReturn s := by
  induction more generalizing s with
  | nil =>
      obtain rfl : s = t := Option.some.inj hmore
      exact hcan
  | cons l more ih =>
      rw [exec_cons] at hmore
      obtain ⟨u, hu, hmore⟩ := Option.bind_eq_some_iff.mp hmore
      have hquiet' := hquiet l (List.mem_cons_self ..)
      apply canReturn_of_step hadder hquiet' hu
      exact ih (quiet_frame hadder hquiet' hu).1
        (fun l' hl' => hquiet l' (List.mem_cons_of_mem l hl')) hmore

end Backwards

section Forwards

variable {world : World} {s s' t : Storage n} {i : Fin n} {w : Worker}

/-- How far a worker is from its exit. -/
def Worker.rank : Worker → Nat
  | .exited => 0
  | .clear => 0
  | .pop => 6
  | .testEmpty => 7
  | .testFlag => 8
  | .write _ _ _ => 9
  | .found _ _ => 10
  | .query _ => 11
  | .test => 9
  | .asleep => 10
  | .block => 11

/-- How far the destructor is from its end. -/
def Destructor.rank : Destructor → Nat
  | .idle => 4
  | .requested => 3
  | .unsubscribed => 2
  | .notified => 1
  | .returned => 0

/-- A task costs less than the way back to it. -/
def rank (s : Storage n) : Nat :=
  total Worker.rank s.workers + 6 * s.tasks.length + s.destructor.rank

theorem CanReturn.goto (h : CanReturn s) (hworkers : t.workers = Function.update s.workers i w)
    (hmore : t.moreWork = s.moreWork) (hclear : w ≠ .clear)
    (hwaiting : w.Waiting → s.moreWork = true) (hpops : popping t.workers ≤ t.tasks.length) :
    CanReturn t where
  clear := by
    intro j hj
    rw [hworkers] at hj
    by_cases hji : j = i
    · rw [hji, Function.update_self] at hj
      exact hclear hj
    · rw [Function.update_of_ne hji] at hj
      exact h.clear j hj
  waiting := by
    intro j hj
    rw [hmore]
    rw [hworkers] at hj
    by_cases hji : j = i
    · rw [hji, Function.update_self] at hj
      exact hwaiting hj
    · rw [Function.update_of_ne hji] at hj
      exact h.waiting j hj
  pops := hpops

theorem CanReturn.free (h : CanReturn s) (hworkers : t.workers = Function.update s.workers i w)
    (hmore : t.moreWork = s.moreWork) (htasks : t.tasks = s.tasks) (hclear : w ≠ .clear)
    (hwaiting : w.Waiting → s.moreWork = true) (hpop : w ≠ .pop) : CanReturn t := by
  refine h.goto hworkers hmore hclear hwaiting ?_
  have hpops := h.pops
  have hupdate := popping_update s.workers i w
  rw [if_neg hpop] at hupdate
  rw [hworkers, htasks]
  omega

theorem rank_goto (hworkers : t.workers = Function.update s.workers i w)
    (hdestructor : t.destructor = s.destructor)
    (hless : w.rank + 6 * t.tasks.length < (s.workers i).rank + 6 * s.tasks.length) :
    rank t < rank s := by
  have hupdate := total_update Worker.rank s.workers i w
  rw [rank, rank, hworkers, hdestructor]
  omega

/-- The job service knows every stream, and every segment that was added loads. -/
structure Served (world : World) (s : Storage n) : Prop where
  knows : ∀ count id, world.answer count id ≠ none
  loads : ∀ task ∈ s.added, ∃ out, (Serialization.loadSegment world.mem).run task.buffer.unread =
    .ok out

/-- A task in a worker's hands was added. -/
theorem Tallied.mem_added (h : Tallied s) {task : Tasks} (hw : (s.workers i).task = some task) :
    task ∈ s.added := by
  have hheld : task ∈ held s.workers := by
    have hupdate := total_update (fun w : Worker => (w.task.toList : Multiset Tasks)) s.workers i
      .testFlag
    change _ + _ = held s.workers + 0 at hupdate
    rw [hw, add_zero] at hupdate
    rw [← hupdate]
    exact Multiset.mem_add.mpr (Or.inr (List.mem_singleton_self task))
  have hmem : task ∈ (↑s.added : Multiset Tasks) := by
    rw [h.balance]
    exact Multiset.mem_add.mpr (Or.inl (Multiset.mem_add.mpr (Or.inr hheld)))
  exact hmem

/-- Taken in turn, with those that are about to take a task first, each worker gets nearer to
its exit. -/
theorem moves_nearer (hcan : CanReturn s) (hserved : Served world s) (htallied : Tallied s)
    (hconsulted : Consulted world s) (hflag : s.shutdownRequest = true) (hfault : s.fault = none)
    (hturn : s.workers i = .pop ∨ popping s.workers = 0) (h : Moves world s i s') :
    CanReturn s' ∧ s'.fault = none ∧ rank s' < rank s := by
  cases h with
  | enter hpc =>
      rw [hflag, if_pos rfl]
      refine ⟨hcan.free rfl rfl rfl (by simp) False.elim (by simp), hfault, ?_⟩
      exact rank_goto rfl rfl (by rw [hpc]; simp [Worker.rank, Storage.goto])
  | stay hpc htasks =>
      refine ⟨hcan.goto rfl rfl (by simp) False.elim ?_, hfault, ?_⟩
      · have hnone : popping s.workers = 0 := by
          rcases hturn with hpop | hnone
          · cases hpc.symm.trans hpop
          · exact hnone
        have hupdate := popping_update s.workers i .pop
        rw [if_pos rfl, hnone, hpc] at hupdate
        have hpos := List.length_pos_iff.mpr htasks
        change popping (Function.update s.workers i .pop) ≤ s.tasks.length
        omega
      · exact rank_goto rfl rfl (by rw [hpc]; simp [Worker.rank, Storage.goto])
  | leave hpc htasks =>
      refine ⟨hcan.free rfl rfl rfl (by simp) False.elim (by simp), hfault, ?_⟩
      exact rank_goto rfl rfl (by rw [hpc]; simp [Worker.rank, Storage.goto])
  | popNone hpc htasks hadder =>
      have hpops := hcan.pops
      have hupdate := popping_update s.workers i .clear
      rw [htasks, List.length_nil] at hpops
      rw [if_pos hpc] at hupdate
      simp only [reduceCtorEq, if_false] at hupdate
      omega
  | popSome task rest hpc htasks hadder =>
      refine ⟨hcan.goto rfl rfl (by simp) False.elim ?_, hfault, ?_⟩
      · have hpops := hcan.pops
        have hupdate := popping_update s.workers i (.query task)
        rw [htasks, List.length_cons] at hpops
        rw [if_pos hpc, if_neg (by simp)] at hupdate
        change popping (Function.update s.workers i (.query task)) ≤ rest.length
        omega
      · refine rank_goto rfl rfl ?_
        rw [hpc, htasks, List.length_cons]
        simp only [Worker.rank, Storage.goto]
        omega
  | cached task metadata hpc hjob =>
      refine ⟨hcan.free rfl rfl rfl (by simp) False.elim (by simp), hfault, ?_⟩
      exact rank_goto rfl rfl (by rw [hpc]; simp [Worker.rank, Storage.goto])
  | cachedNull task hpc hjob =>
      obtain ⟨count, hanswer⟩ := hconsulted.answered _ _ hjob
      exact absurd hanswer (hserved.knows _ _)
  | asked task hpc hjob job hanswer =>
      cases job with
      | none => exact absurd hanswer (hserved.knows _ _)
      | some metadata =>
          refine ⟨hcan.free rfl rfl rfl (by simp) False.elim (by simp), hfault, ?_⟩
          exact rank_goto rfl rfl (by rw [hpc]; simp [Worker.rank, Storage.goto])
  | drop task metadata hpc hempty =>
      refine ⟨hcan.free rfl rfl rfl (by simp) False.elim (by simp), hfault, ?_⟩
      exact rank_goto rfl rfl (by rw [hpc]; simp [Worker.rank, Storage.finish, Storage.goto])
  | load task metadata seg rest hpc hjob hload =>
      refine ⟨hcan.free rfl rfl rfl (by simp) False.elim (by simp), hfault, ?_⟩
      exact rank_goto rfl rfl (by rw [hpc]; simp [Worker.rank, Storage.goto])
  | crash task metadata e hpc hjob hload =>
      obtain ⟨out, hout⟩ := hserved.loads task (htallied.mem_added (by rw [hpc]; rfl))
      cases hload.symm.trans hout
  | store task metadata seg hpc hopens =>
      refine ⟨hcan.free rfl rfl rfl (by simp) False.elim (by simp), hfault, ?_⟩
      exact rank_goto rfl rfl (by rw [hpc]; simp [Worker.rank, Storage.finish, Storage.goto])
  | unopened task metadata seg hpc hopens =>
      refine ⟨hcan.free rfl rfl rfl (by simp) False.elim (by simp), hfault, ?_⟩
      exact rank_goto rfl rfl (by rw [hpc]; simp [Worker.rank, Storage.finish, Storage.goto])
  | clear hpc => exact absurd hpc (hcan.clear i)
  | pass hpc hmore =>
      refine ⟨hcan.free rfl rfl rfl (by simp) False.elim (by simp), hfault, ?_⟩
      exact rank_goto rfl rfl (by rw [hpc]; simp [Worker.rank, Storage.goto])
  | wait hpc hmore =>
      have hset := hcan.waiting i (by rw [hpc]; trivial)
      cases hset.symm.trans hmore
  | sleep hpc =>
      refine ⟨hcan.free rfl rfl rfl (by simp) (fun _ => ?_) (by simp), hfault, ?_⟩
      · exact hcan.waiting i (by rw [hpc]; trivial)
      · exact rank_goto rfl rfl (by rw [hpc]; simp [Worker.rank, Storage.goto])

/-- A worker that has not left can move, unless it sleeps or waits for the mutex. -/
theorem process_enabled (world : World) (hadder : s.adder = .idle) (hasleep : s.workers i ≠ .asleep)
    (hlive : s.workers i ≠ .exited) : ∃ s', s.process world i = some s' := by
  unfold process
  cases hpc : s.workers i with
  | pop =>
      simp only [hadder, if_true]
      cases s.tasks with
      | nil => exact ⟨_, rfl⟩
      | cons task rest => exact ⟨_, rfl⟩
  | query task =>
      dsimp only
      split <;> exact ⟨_, rfl⟩
  | found task metadata =>
      dsimp only
      split
      · exact ⟨_, rfl⟩
      · split <;> exact ⟨_, rfl⟩
  | write task metadata seg =>
      dsimp only
      split <;> exact ⟨_, rfl⟩
  | asleep => exact absurd hpc hasleep
  | exited => exact absurd hpc hlive
  | testFlag | testEmpty | clear | test | block => exact ⟨_, rfl⟩

/-- The destructor sets the flag first. -/
theorem step_flagged {l : Label n} (hs : s.destructor ≠ .idle → s.shutdownRequest = true)
    (h : s.step world l = some s') : s'.destructor ≠ .idle → s'.shutdownRequest = true := by
  obtain ⟨-, ⟨buffer, streamId, -, -, -, rfl⟩ | ⟨-, hadd⟩ | ⟨i, -, hmoves⟩ |
    ⟨i, -, -, rfl⟩ | ⟨-, hdestroy⟩⟩ := step_cases h
  · exact hs
  · rcases addStep_cases hadd with rfl | rfl <;> exact hs
  · obtain ⟨-, hdestructor, hflag, -⟩ := moves_frame hmoves
    rw [hdestructor, hflag]
    exact hs
  · exact hs
  · rcases destroy_cases hdestroy with ⟨-, rfl⟩ | ⟨hd, -, rfl⟩ | ⟨hd, rfl⟩ | ⟨hd, -, rfl⟩
    · exact fun _ => rfl
    · exact fun _ => hs (by simp [hd])
    · exact fun _ => hs (by simp [hd])
    · exact fun _ => hs (by simp [hd])

/-- A service that can be brought to its end. -/
structure Ending (world : World) (s : Storage n) : Prop where
  can : CanReturn s
  served : Served world s
  tallied : Tallied s
  consulted : Consulted world s
  flagged : s.destructor ≠ .idle → s.shutdownRequest = true
  adder : s.adder = .idle
  fault : s.fault = none

theorem Ending.next (h : Ending world s) {l : Label n} (hquiet : l.Quiet)
    (hstep : s.step world l = some s') (hcan : CanReturn s') (hfault : s'.fault = none) :
    Ending world s' where
  can := hcan
  served := by
    refine ⟨h.served.knows, ?_⟩
    rw [(quiet_frame h.adder hquiet hstep).2]
    exact h.served.loads
  tallied := step_tallied h.tallied hstep
  consulted := step_consulted h.consulted hstep
  flagged := step_flagged h.flagged hstep
  adder := (quiet_frame h.adder hquiet hstep).1
  fault := hfault

/-- A worker takes its turn. -/
theorem Ending.turn (h : Ending world s) (hdestructor : s.destructor ≠ .idle)
    (hlive : s.workers i ≠ .exited) (hturn : s.workers i = .pop ∨ popping s.workers = 0) :
    ∃ l s', Label.Quiet l ∧ s.step world l = some s' ∧ Ending world s' ∧ rank s' < rank s := by
  by_cases hasleep : s.workers i = .asleep
  · have hstep : s.step world (.wake i) = some (s.goto i .test) := by
      rw [step, if_pos h.fault]
      exact if_pos hasleep
    have hcan : CanReturn (s.goto i .test) := h.can.free rfl rfl rfl (by simp)
      (fun _ => h.can.waiting i (by rw [hasleep]; trivial)) (by simp)
    refine ⟨.wake i, _, trivial, hstep, h.next (l := .wake i) trivial hstep hcan h.fault, ?_⟩
    exact rank_goto rfl rfl (by rw [hasleep]; simp [Worker.rank, Storage.goto])
  · obtain ⟨s', hprocess⟩ := process_enabled world h.adder hasleep hlive
    obtain ⟨hcan, hfault, hless⟩ := moves_nearer h.can h.served h.tallied h.consulted
      (h.flagged hdestructor) h.fault hturn (process_moves hprocess)
    have hstep : s.step world (.worker i) = some s' := by
      rw [step, if_pos h.fault]
      exact hprocess
    exact ⟨.worker i, s', trivial, hstep, h.next (l := .worker i) trivial hstep hcan hfault, hless⟩

/-- The destructor takes its turn when the workers have left. -/
theorem Ending.leave (h : Ending world s)
    (hd : s.destructor = .idle ∨ s.destructor ≠ .returned ∧ ∀ i, s.workers i = .exited) :
    ∃ s', s.step world .destroy = some s' ∧ Ending world s' ∧ rank s' < rank s := by
  have hdestroy : s.step world .destroy = s.destroy := by rw [step, if_pos h.fault]
  have hcan : ∀ (flag : Bool) (d : Destructor) (count : Nat), CanReturn { s with
      shutdownRequest := flag, destructor := d, addedAtRequest := count } := fun flag d count =>
    ⟨h.can.clear, h.can.waiting, h.can.pops⟩
  have hrank : ∀ s' : Storage n, total Worker.rank s'.workers = total Worker.rank s.workers →
      s'.tasks = s.tasks → s'.destructor.rank < s.destructor.rank → rank s' < rank s := by
    intro s' hworkers htasks hless
    rw [rank, rank, hworkers, htasks]
    omega
  have hnext : ∀ s', s.destroy = some s' → CanReturn s' → s'.fault = none → rank s' < rank s →
      ∃ s', s.step world .destroy = some s' ∧ Ending world s' ∧ rank s' < rank s :=
    fun s' hs' hcan' hfault hless =>
      ⟨s', hdestroy.trans hs', h.next (l := .destroy) trivial (hdestroy.trans hs') hcan' hfault, hless⟩
  cases hpc : s.destructor with
  | idle =>
      refine hnext { s with
        shutdownRequest := true, destructor := .requested, addedAtRequest := s.added.length }
        ?_ (hcan _ _ _) h.fault (hrank _ rfl rfl ?_)
      · rw [destroy, hpc]
      · rw [hpc]
        exact Nat.lt_succ_self _
  | requested =>
      refine hnext { s with destructor := .unsubscribed } ?_ (hcan _ _ _) h.fault
        (hrank _ rfl rfl ?_)
      · simp only [destroy, hpc, h.adder, if_true]
      · rw [hpc]
        exact Nat.lt_succ_self _
  | unsubscribed =>
      have hall : ∀ i, s.workers i = .exited := by
        rcases hd with hidle | ⟨-, hall⟩
        · cases hpc.symm.trans hidle
        · exact hall
      refine hnext { s.notifyAll with destructor := .notified } ?_ ?_ h.fault (hrank _ ?_ rfl ?_)
      · simp only [destroy, hpc]
      · refine canReturn_of_exited fun i => ?_
        change (if s.workers i = .asleep then Worker.test else s.workers i) = .exited
        rw [hall i, if_neg (by simp)]
      · refine congrArg (total Worker.rank) (funext fun i => ?_)
        change (if s.workers i = .asleep then Worker.test else s.workers i) = s.workers i
        rw [hall i, if_neg (by simp)]
      · rw [hpc]
        exact Nat.lt_succ_self _
  | notified =>
      have hall : ∀ i, s.workers i = .exited := by
        rcases hd with hidle | ⟨-, hall⟩
        · cases hpc.symm.trans hidle
        · exact hall
      refine hnext { s with destructor := .returned } ?_ (hcan _ _ _) h.fault (hrank _ rfl rfl ?_)
      · simp only [destroy, hpc, if_pos hall]
      · rw [hpc]
        exact Nat.lt_succ_self _
  | returned =>
      rcases hd with hidle | ⟨hreturned, -⟩
      · cases hpc.symm.trans hidle
      · exact absurd hpc hreturned

theorem Ending.progress (h : Ending world s) : s.destructor = .returned ∨
    ∃ l s', Label.Quiet l ∧ s.step world l = some s' ∧
      (s'.destructor = .returned ∨ Ending world s' ∧ rank s' < rank s) := by
  by_cases hreturned : s.destructor = .returned
  · exact Or.inl hreturned
  · refine Or.inr ?_
    by_cases hleave : s.destructor = .idle ∨ ∀ i, s.workers i = .exited
    · obtain ⟨s', hstep, hnext⟩ := h.leave (hleave.imp_right fun hall => ⟨hreturned, hall⟩)
      exact ⟨.destroy, s', trivial, hstep, Or.inr hnext⟩
    · obtain ⟨hidle, hnot⟩ := not_or.mp hleave
      -- a worker that is about to take a task goes first
      obtain ⟨i, hlive, hturn⟩ : ∃ i, s.workers i ≠ .exited ∧
          (s.workers i = .pop ∨ popping s.workers = 0) := by
        by_cases hpop : ∃ i, s.workers i = .pop
        · obtain ⟨i, hi⟩ := hpop
          exact ⟨i, by simp [hi], Or.inl hi⟩
        · obtain ⟨i, hi⟩ := not_forall.mp hnot
          refine ⟨i, hi, Or.inr (total_eq_zero fun j => if_neg fun hj => hpop ⟨j, hj⟩)⟩
      obtain ⟨l, s', hquiet, hstep, hnext⟩ := h.turn hidle hlive hturn
      exact ⟨l, s', hquiet, hstep, Or.inr hnext⟩

end Forwards

/-- When no segment comes any more, the job service knows every stream and what was added
loads, the destructor can return if and only if no worker is to wait: none is about to clear
`moreWork`, none waits with it cleared, and there are tasks for those that are about to take
one. -/
theorem returns_iff (world : World) (moreWork : Bool) (files : String → Option (List UInt8))
    (labels : List (Label n)) (s : Storage n)
    (hexec : exec (step world) (start n moreWork files) labels = some s)
    (hadder : s.adder = .idle) (hfault : s.fault = none) (hserved : Served world s) :
    (∃ more t, (∀ l ∈ more, Label.Quiet l) ∧ exec (step world) s more = some t ∧
      t.destructor = .returned) ↔ CanReturn s := by
  constructor
  · rintro ⟨more, t, hquiet, hmore, hreturned⟩
    have hattended : Attended t := by
      apply invariant_of_step (fun _ _ _ => step_attended) (start_attended n moreWork files)
      rw [exec_append, hexec]
      exact hmore
    exact canReturn_of_exec hadder hquiet hmore (canReturn_of_exited (hattended.returned hreturned))
  · intro hcan
    have hflagged : s.destructor ≠ .idle → s.shutdownRequest = true :=
      invariant_of_step (I := fun s : Storage n => s.destructor ≠ .idle → s.shutdownRequest = true)
        (fun _ _ _ => step_flagged) (fun h => absurd rfl h) hexec
    have hending : Ending world s := ⟨hcan, hserved, tallied_of_exec hexec,
      consulted_of_exec hexec, hflagged, hadder, hfault⟩
    obtain ⟨more, hquiet, t, hmore, hreturned⟩ := exists_exec_of_progress (measure rank).wf
      (fun s (h : Ending world s) => h.progress) hending
    exact ⟨more, t, hquiet, hmore, hreturned⟩

section Lost

variable {world : World} {s s' t : Storage n}

/-- All workers wait, and nothing tells them that there is work. -/
structure AllWait (s : Storage n) : Prop where
  waiting : ∀ i, (s.workers i).Waiting
  unset : s.moreWork = false
  adder : s.adder = .idle

/-- Where all wait, nothing is done until the next segment. -/
theorem allWait_step {l : Label n} (hs : AllWait s) (hquiet : l.Quiet)
    (h : s.step world l = some s') : AllWait s' ∧ s'.tasks = s.tasks ∧ s'.done = s.done := by
  have hgoto : ∀ (i : Fin n) (w : Worker), w.Waiting → AllWait (s.goto i w) := by
    intro i w hw
    refine ⟨fun j => ?_, hs.unset, hs.adder⟩
    by_cases hji : j = i
    · rw [hji, goto_same]
      exact hw
    · rw [goto_other _ _ _ hji]
      exact hs.waiting j
  obtain ⟨-, ⟨buffer, streamId, rfl, -⟩ | ⟨-, hadd⟩ | ⟨i, -, hmoves⟩ |
    ⟨i, -, hasleep, rfl⟩ | ⟨-, hdestroy⟩⟩ := step_cases h
  · exact hquiet.elim
  · rw [addStep, hs.adder] at hadd
    cases hadd
  · have hwaiting := hs.waiting i
    cases hmoves with
    | pass hpc hmore => cases hs.unset.symm.trans hmore
    | wait hpc hmore => exact ⟨hgoto i .block trivial, rfl, rfl⟩
    | sleep hpc => exact ⟨hgoto i .asleep trivial, rfl, rfl⟩
    | enter hpc | stay hpc | leave hpc | popNone hpc | popSome _ _ hpc | cached _ _ hpc
    | cachedNull _ hpc | asked _ hpc | drop _ _ hpc | load _ _ _ _ hpc | crash _ _ _ hpc
    | store _ _ _ hpc | unopened _ _ _ hpc | clear hpc =>
        rw [hpc] at hwaiting
        exact hwaiting.elim
  · exact ⟨hgoto i .test trivial, rfl, rfl⟩
  · rcases destroy_cases hdestroy with ⟨-, rfl⟩ | ⟨-, -, rfl⟩ | ⟨-, rfl⟩ | ⟨-, -, rfl⟩
    · exact ⟨⟨hs.waiting, hs.unset, hs.adder⟩, rfl, rfl⟩
    · exact ⟨⟨hs.waiting, hs.unset, hs.adder⟩, rfl, rfl⟩
    · refine ⟨⟨fun j => ?_, hs.unset, hs.adder⟩, rfl, rfl⟩
      change (if s.workers j = .asleep then Worker.test else s.workers j).Waiting
      split
      · trivial
      · exact hs.waiting j
    · exact ⟨⟨hs.waiting, hs.unset, hs.adder⟩, rfl, rfl⟩

theorem allWait_exec {more : List (Label n)} (hs : AllWait s) (hquiet : ∀ l ∈ more, l.Quiet)
    (hmore : exec (step world) s more = some t) :
    AllWait t ∧ t.tasks = s.tasks ∧ t.done = s.done := by
  induction more generalizing s with
  | nil =>
      obtain rfl : s = t := Option.some.inj hmore
      exact ⟨hs, rfl, rfl⟩
  | cons l more ih =>
      rw [exec_cons] at hmore
      obtain ⟨u, hu, hmore⟩ := Option.bind_eq_some_iff.mp hmore
      obtain ⟨hwait, htasks, hdone⟩ := allWait_step hs (hquiet l (List.mem_cons_self ..)) hu
      obtain ⟨hwait, htasks', hdone'⟩ :=
        ih hwait (fun l' hl' => hquiet l' (List.mem_cons_of_mem l hl')) hmore
      exact ⟨hwait, htasks'.trans htasks, hdone'.trans hdone⟩

/-- Workers that find the queue empty one after the other. -/
theorem exec_findNothing (hfault : s.fault = none) (hadder : s.adder = .idle)
    (hflag : s.shutdownRequest = false) (htasks : s.tasks = []) {is : List (Fin n)}
    (hnodup : is.Nodup) (hfirst : ∀ i ∈ is, s.workers i = .testFlag) :
    exec (step world) s (is.flatMap fun i => [.worker i, .worker i]) =
      some { s with workers := fun i => if i ∈ is then .clear else s.workers i } := by
  induction is generalizing s with
  | nil => rfl
  | cons i is ih =>
      obtain ⟨hnotin, hnodup⟩ := List.nodup_cons.mp hnodup
      have henter : s.step world (.worker i) = some (s.goto i .pop) := by
        simp only [step, hfault, if_true, process, hfirst i (List.mem_cons_self ..), hflag,
          Bool.false_eq_true, if_false]
      have hpop : (s.goto i .pop).step world (.worker i) = some ((s.goto i .pop).goto i .clear) := by
        have hfault' : (s.goto i .pop).fault = none := hfault
        have hadder' : (s.goto i .pop).adder = .idle := hadder
        have htasks' : (s.goto i .pop).tasks = [] := htasks
        simp only [step, hfault', if_true, process, goto_same, hadder', htasks']
      have hrest : ∀ j ∈ is, ((s.goto i .pop).goto i .clear).workers j = .testFlag := by
        intro j hj
        have hji : j ≠ i := fun heq => hnotin (heq ▸ hj)
        rw [goto_other _ _ _ hji, goto_other _ _ _ hji]
        exact hfirst j (List.mem_cons_of_mem i hj)
      have hworkers : (fun j => if j ∈ is then .clear
          else ((s.goto i .pop).goto i .clear).workers j) =
          fun j => if j ∈ i :: is then Worker.clear else s.workers j := by
        funext j
        by_cases hji : j = i
        · rw [hji, goto_same, if_pos (List.mem_cons_self ..), ite_self]
        · rw [goto_other _ _ _ hji, goto_other _ _ _ hji]
          simp only [List.mem_cons, hji, false_or]
      rw [List.flatMap_cons, List.cons_append, exec_cons, henter, Option.bind_some,
        List.cons_append, exec_cons, hpop, Option.bind_some, List.nil_append,
        ih (s := (s.goto i .pop).goto i .clear) hfault hadder hflag htasks hnodup hrest, hworkers]
      rfl

/-- Workers that clear `moreWork` one after the other. -/
theorem exec_clear (hfault : s.fault = none) {is : List (Fin n)} (hnodup : is.Nodup)
    (hfirst : ∀ i ∈ is, s.workers i = .clear) :
    exec (step world) s (is.map .worker) =
      some { s with
        workers := fun i => if i ∈ is then .test else s.workers i
        moreWork := is.isEmpty && s.moreWork } := by
  induction is generalizing s with
  | nil => rfl
  | cons i is ih =>
      obtain ⟨hnotin, hnodup⟩ := List.nodup_cons.mp hnodup
      have hclear : s.step world (.worker i) =
          some ({ s with moreWork := false }.goto i .test) := by
        simp only [step, hfault, if_true, process, hfirst i (List.mem_cons_self ..)]
      have hrest : ∀ j ∈ is, ({ s with moreWork := false }.goto i .test).workers j = .clear := by
        intro j hj
        have hji : j ≠ i := fun heq => hnotin (heq ▸ hj)
        rw [goto_other _ _ _ hji]
        exact hfirst j (List.mem_cons_of_mem i hj)
      have hworkers : (fun j => if j ∈ is then .test
          else ({ s with moreWork := false }.goto i .test).workers j) =
          fun j => if j ∈ i :: is then Worker.test else s.workers j := by
        funext j
        by_cases hji : j = i
        · rw [hji, goto_same, if_pos (List.mem_cons_self ..), ite_self]
        · rw [goto_other _ _ _ hji]
          simp only [List.mem_cons, hji, false_or]
      have hmore : (is.isEmpty && ({ s with moreWork := false }.goto i .test).moreWork) = false :=
        Bool.and_false _
      rw [List.map_cons, exec_cons, hclear, Option.bind_some]
      refine (ih (s := { s with moreWork := false }.goto i .test) hfault hnodup hrest).trans ?_
      rw [hworkers, hmore]
      rfl

end Lost

/-- A run of a service: all workers find the queue empty, a segment is added before any of them
has cleared `moreWork`, and then all clear it and wait. -/
structure LosesWakeUp (world : World) (s found queued waiting : Storage n) (buffer : StringStream)
    (streamId : Uuid) : Prop where
  finds : ∃ labels, (∀ l ∈ labels, Label.Quiet l) ∧ exec (step world) s labels = some found
  empty : found.tasks = [] ∧ ∀ i, found.workers i = .clear
  adds : exec (step world) found [.add buffer streamId, .adding, .adding] = some queued
  flagged : queued.moreWork = true ∧ ∀ i, queued.workers i = .clear
  clears : ∃ labels, (∀ l ∈ labels, Label.Quiet l) ∧ exec (step world) queued labels = some waiting
  waits : AllWait waiting

/-- However many workers there are, a wake-up can be lost. The segment that was added then stays
in the queue until the next one is added, and without that the destructor does not return. -/
theorem lost_wakeup (hn : 0 < n) (world : World) (moreWork : Bool)
    (files : String → Option (List UInt8)) (buffer : StringStream) (streamId : Uuid) :
    ∃ found queued s,
      LosesWakeUp world (start n moreWork files) found queued s buffer streamId ∧
      s.added = [⟨buffer, streamId, 0⟩] ∧
      ∀ more t, (∀ l ∈ more, Label.Quiet l) → exec (step world) s more = some t →
        t.tasks = [⟨buffer, streamId, 0⟩] ∧ t.done = [] ∧ t.destructor ≠ .returned := by
  have hall : ∀ i : Fin n, i ∈ List.finRange n := List.mem_finRange
  have hempty : (List.finRange n).isEmpty = false := by
    rw [List.isEmpty_eq_false_iff]
    exact List.ne_nil_of_mem (hall ⟨0, hn⟩)
  let found : Storage n := { start n moreWork files with workers := fun _ => .clear }
  let queued : Storage n := { found with
    tasks := [⟨buffer, streamId, 0⟩], added := [⟨buffer, streamId, 0⟩], moreWork := true }
  let waiting : Storage n := { queued with workers := fun _ => .test, moreWork := false }
  -- all find the queue empty, the segment is added, all clear the flag
  have hfirst : exec (step world) (start n moreWork files)
      ((List.finRange n).flatMap fun i => [.worker i, .worker i]) = some found := by
    rw [exec_findNothing rfl rfl rfl rfl (List.nodup_finRange n) fun _ _ => rfl]
    simp only [hall, if_true]
    rfl
  have hadd : exec (step world) found [.add buffer streamId, .adding, .adding] = some queued := rfl
  have hlast : exec (step world) queued ((List.finRange n).map .worker) = some waiting := by
    rw [exec_clear rfl (List.nodup_finRange n) fun _ _ => rfl, hempty]
    simp only [hall, if_true, Bool.false_and]
    rfl
  have hrun : exec (step world) (start n moreWork files)
      (((List.finRange n).flatMap fun i => [.worker i, .worker i]) ++
        [.add buffer streamId, .adding, .adding] ++ (List.finRange n).map .worker) =
        some waiting := by
    rw [exec_append, exec_append, hfirst, Option.bind_some, hadd, Option.bind_some]
    exact hlast
  have hwait : AllWait waiting := ⟨fun _ => trivial, rfl, rfl⟩
  have hfinds : ∀ l ∈ (List.finRange n).flatMap fun i => [Label.worker i, .worker i],
      Label.Quiet l := by
    intro l hl
    obtain ⟨i, -, hmem⟩ := List.mem_flatMap.mp hl
    simp only [List.mem_cons, List.not_mem_nil, or_false, or_self] at hmem
    rw [hmem]
    trivial
  have hclears : ∀ l ∈ (List.finRange n).map Label.worker, Label.Quiet l := by
    intro l hl
    obtain ⟨i, -, rfl⟩ := List.mem_map.mp hl
    trivial
  have hloses : LosesWakeUp world (start n moreWork files) found queued waiting buffer streamId :=
    ⟨⟨_, hfinds, hfirst⟩, ⟨rfl, fun _ => rfl⟩, hadd, ⟨rfl, fun _ => rfl⟩, ⟨_, hclears, hlast⟩,
      hwait⟩
  refine ⟨found, queued, waiting, hloses, rfl, fun more t hquiet hmore => ?_⟩
  obtain ⟨hwait, htasks, hdone⟩ := allWait_exec hwait hquiet hmore
  refine ⟨htasks, hdone, fun hreturned => ?_⟩
  have hattended : Attended t := by
    apply invariant_of_step (fun _ _ _ => step_attended) (start_attended n moreWork files)
    rw [exec_append, hrun]
    exact hmore
  have hworker := hwait.waiting ⟨0, hn⟩
  rw [hattended.returned hreturned] at hworker
  exact hworker

section Sample

/-- Two workers go to sleep and a segment comes. -/
def wakeUp : List (Label 2) :=
  ((List.finRange 2).flatMap fun i => List.replicate 5 (.worker i)) ++
    [.add (StringStream.ofBytes (Serialization.saveSegment Segment.sample)) Uuid.null, .adding,
      .adding]

set_option maxRecDepth 10000 in
theorem wakeUp_served {s : Storage 2} (h : s.added =
    [⟨StringStream.ofBytes (Serialization.saveSegment Segment.sample), Uuid.null, 0⟩]) :
    Served World.sample s where
  knows := by
    intro count id
    exact Option.some_ne_none _
  loads := by
    intro task htask
    rw [h] at htask
    obtain rfl := List.mem_singleton.mp htask
    exact ⟨_, rfl⟩

set_option maxRecDepth 10000 in
theorem returns_iff_sample :
    ∃ s, exec (step World.sample) (start 2 false fun _ => none) wakeUp = some s ∧
      ((∃ more t, (∀ l ∈ more, Label.Quiet l) ∧ exec (step World.sample) s more = some t ∧
        t.destructor = .returned) ↔ CanReturn s) :=
  ⟨_, rfl, returns_iff World.sample false (fun _ => none) wakeUp _ rfl rfl rfl (wakeUp_served rfl)⟩

theorem lost_wakeup_sample :
    ∃ found queued s : Storage 2,
      LosesWakeUp World.sample (start 2 false fun _ => none) found queued s
        (StringStream.ofBytes []) Uuid.null ∧
      s.added = [⟨StringStream.ofBytes [], Uuid.null, 0⟩] ∧
      ∀ more t, (∀ l ∈ more, Label.Quiet l) → exec (step World.sample) s more = some t →
        t.tasks = [⟨StringStream.ofBytes [], Uuid.null, 0⟩] ∧ t.done = [] ∧
          t.destructor ≠ .returned :=
  lost_wakeup (by decide) World.sample false (fun _ => none) (StringStream.ofBytes []) Uuid.null

end Sample

end Media2.Storage

import Media2.SegmentUnpacker.Deliveries

/-!
# What one worker does, as a function of what it receives

While no stream expires, a single worker makes the streams in the order in which their jobs
turn up, so what it sets up and forwards, and under which number, can be computed from the
received segments alone.
-/

namespace Media2.SegmentUnpacker

open Execution StreamCache

/-- A set-up of the stream with a number, or a packet on it. -/
inductive Line
  | setup (stream : Nat)
  | packet (stream : Nat) (packet : Packet)
  deriving DecidableEq

def Event.line : Event → Line
  | .setup stream => .setup stream
  | .forward d => .packet d.stream d.packet

/-- The jobs that are known after a segment, in the order in which they turned up. -/
def meet (known : List Uuid) (seg : Segment) : List Uuid :=
  if seg.jobId ∈ known then known else known ++ [seg.jobId]

/-- What becomes of one segment. -/
def lines (known : List Uuid) (seg : Segment) : List Line :=
  (if seg.jobId ∈ known then [] else [.setup known.length]) ++
    seg.packets.map (.packet ((meet known seg).idxOf seg.jobId))

def script (known : List Uuid) : List Segment → List Line
  | [] => []
  | seg :: segs => lines known seg ++ script (meet known seg) segs

/-- The jobs of segments, in the order in which they turn up. -/
def jobs (known : List Uuid) (segs : List Segment) : List Uuid := segs.foldl meet known

theorem script_append (known : List Uuid) (segs segs' : List Segment) :
    script known (segs ++ segs') = script known segs ++ script (jobs known segs) segs' := by
  induction segs generalizing known with
  | nil => rfl
  | cons seg segs ih =>
      rw [List.cons_append, script, script, ih, List.append_assoc]
      rfl

theorem jobs_append (known : List Uuid) (segs segs' : List Segment) :
    jobs known (segs ++ segs') = jobs (jobs known segs) segs' := List.foldl_append

/-- The segment that a worker has taken and not looked up yet. -/
def Worker.todo : Worker → List Segment
  | .popped (some t) | .unpack (some t) | .missed t => [t.segment]
  | _ => []

/-- What a worker has still to do for the segment that it has looked up. -/
def Worker.rest : Worker → List Line
  | .made t stream => .setup stream.id :: t.segment.packets.map (.packet stream.id)
  | .forwarding stream packets => packets.map (.packet stream.id)
  | _ => []

/-- The worker keeps to the script. -/
structure Scripted (known : List Uuid) (s : SegmentUnpacker 1) : Prop where
  made : s.cache.made = known.length
  cached : ∀ job : Uuid, (s.cache.streamOf job.unparse).map Stream.id =
    if job ∈ known then some (known.idxOf job) else none
  law : script [] s.received = s.events.map Event.line ++ (s.workers 0).rest ++
    script known ((s.workers 0).todo ++ s.work.map Ticket.segment)
  order : jobs [] s.received =
    jobs known ((s.workers 0).todo ++ s.work.map Ticket.segment)
  missed : ∀ t, s.workers 0 = .missed t → t.segment.jobId ∉ known

theorem start_scripted (expSeconds : Int) : Scripted [] (start 1 (create expSeconds)) where
  made := rfl
  cached := fun _ => rfl
  law := rfl
  order := rfl
  missed := by
    rintro t ⟨⟩

theorem Worker.Idle.rest_eq {w : Worker} (h : w.Idle) : w.rest = [] := by
  cases h <;> rfl

theorem Worker.Idle.todo_eq {w : Worker} (h : w.Idle) : w.todo = [] := by
  cases h <;> rfl

section Steps

variable {known : List Uuid} {s s' : SegmentUnpacker 1}

/-- The worker moves on with the same cache. -/
theorem Scripted.move (h : Scripted known s) {w : Worker} (hcache : s'.cache = s.cache)
    (hreceived : s'.received = s.received)
    (htodo : w.todo ++ s'.work.map Ticket.segment =
      (s.workers 0).todo ++ s.work.map Ticket.segment)
    (hrest : s'.events.map Event.line ++ w.rest = s.events.map Event.line ++ (s.workers 0).rest)
    (hmissed : ∀ t, w = .missed t → t.segment.jobId ∉ known) :
    Scripted known (s'.goto 0 w) where
  made := by
    rw [goto_cache, hcache]
    exact h.made
  cached := by
    rw [goto_cache, hcache]
    exact h.cached
  law := by
    rw [goto_same, goto_events, goto_work, goto_received, hreceived, hrest, htodo]
    exact h.law
  order := by
    rw [goto_same, goto_work, goto_received, hreceived, htodo]
    exact h.order
  missed := by
    rw [goto_same]
    exact hmissed

/-- The stream of a known job is in the cache under the job's number. -/
theorem Scripted.hit (h : Scripted known s) {t : Ticket} {stream : Stream}
    (hstream : s.cache.streamOf t.segment.jobId.unparse = some stream) :
    t.segment.jobId ∈ known ∧ stream.id = known.idxOf t.segment.jobId := by
  have hcached := h.cached t.segment.jobId
  rw [hstream] at hcached
  split at hcached
  · rename_i hmem
    exact ⟨hmem, Option.some.inj hcached⟩
  · cases hcached

theorem moves_scripted {libav : Libav} {now : Int} {i : Fin 1} (hs : Scripted known s)
    (h : Moves libav now s i s') : ∃ known', Scripted known' s' := by
  obtain rfl : i = 0 := Subsingleton.elim i 0
  cases h with
  | loop w hfrom hlive hto hpop =>
      refine ⟨known, hs.move rfl rfl ?_ ?_ ?_⟩
      · rw [hfrom.todo_eq, hto.todo_eq]
      · rw [hfrom.rest_eq, hto.rest_eq]
      · rintro t rfl
        cases hto
  | done stream hpc =>
      exact ⟨known, hs.move rfl rfl (by rw [hpc]; rfl) (by rw [hpc]; rfl) (by rintro t ⟨⟩)⟩
  | popNone hpc hwork =>
      exact ⟨known, hs.move rfl rfl (by rw [hpc]; rfl) (by rw [hpc]; rfl) (by rintro t ⟨⟩)⟩
  | popSome t rest hpc hwork =>
      refine ⟨known, hs.move rfl rfl ?_ (by rw [hpc]; rfl) (by rintro t ⟨⟩)⟩
      rw [hpc, hwork]
      rfl
  | call seg hpc =>
      refine ⟨known, hs.move rfl rfl ?_ ?_ (by rintro t ⟨⟩)⟩
      · rw [hpc]
        cases seg <;> rfl
      · rw [hpc]
        cases seg <;> rfl
  | crash e => exact ⟨known, hs.made, hs.cached, hs.law, hs.order, hs.missed⟩
  | hit t record hpc hrec =>
      have hstream := streamOf_eq_some s.cache hrec
      obtain ⟨hmem, hid⟩ := hs.hit hstream
      have hmeet : meet known t.segment = known := if_pos hmem
      refine ⟨known, ?_, ?_, ?_, ?_, by rintro t ⟨⟩⟩
      · rw [goto_cache, renew_made]
        exact hs.made
      · rw [goto_cache, renew_streamOf s.cache now hrec]
        exact hs.cached
      · have hlaw := hs.law
        rw [hpc] at hlaw
        simp only [Worker.todo, Worker.rest, List.append_nil, List.singleton_append, script,
          lines, if_pos hmem, hmeet, List.nil_append] at hlaw
        rw [goto_same]
        simp only [Worker.todo, Worker.rest, List.nil_append, goto_events, goto_work,
          goto_received, hid, hlaw, List.append_assoc]
      · have horder := hs.order
        rw [hpc] at horder
        rw [goto_same]
        simp only [Worker.todo, List.singleton_append, jobs, List.foldl_cons, hmeet] at horder
        exact horder
  | miss t hpc hnone =>
      refine ⟨known, hs.move rfl rfl (by rw [hpc]; rfl) (by rw [hpc]; rfl) ?_⟩
      rintro t' ⟨⟩ hmem
      have hcached := hs.cached t.segment.jobId
      rw [(streamOf_eq_none s.cache).mpr hnone, if_pos hmem] at hcached
      cases hcached
  | found t record hpc hrec =>
      exact absurd (hs.hit (streamOf_eq_some s.cache hrec)).1 (hs.missed t hpc)
  | make t stream hpc hnone hstream =>
      have hnew := hs.missed t hpc
      have hid : stream.id = known.length := by
        rw [(Stream.ofSegment_ok hstream).1, hs.made]
      have hmeet : meet known t.segment = known ++ [t.segment.jobId] := if_neg hnew
      have hplace : (known ++ [t.segment.jobId]).idxOf t.segment.jobId = known.length := by
        rw [List.idxOf_append_of_notMem hnew, List.idxOf_cons_self]
        rfl
      refine ⟨known ++ [t.segment.jobId], ?_, ?_, ?_, ?_, by rintro t ⟨⟩⟩
      · rw [goto_cache, insertNew_made, hs.made, List.length_append]
        rfl
      · intro job
        rw [goto_cache, insertNew_streamOf]
        dsimp only
        by_cases hjob : job = t.segment.jobId
        · subst hjob
          rw [if_pos rfl, if_pos (by simp), hplace, ← hid]
          rfl
        · rw [if_neg (fun heq => hjob (Uuid.unparse_injective heq)), hs.cached job]
          by_cases hmem : job ∈ known
          · rw [if_pos hmem, if_pos (List.mem_append_left _ hmem), List.idxOf_append_of_mem hmem]
          · rw [if_neg hmem, if_neg]
            simp [hmem, hjob]
      · have hlaw := hs.law
        rw [hpc] at hlaw
        simp only [Worker.todo, Worker.rest, List.append_nil, List.singleton_append, script,
          lines, if_neg hnew, hmeet, hplace] at hlaw
        rw [goto_same]
        simp only [Worker.todo, Worker.rest, List.nil_append, goto_events, goto_work,
          goto_received, hid, hlaw, List.append_assoc, List.cons_append]
      · have horder := hs.order
        rw [hpc] at horder
        rw [goto_same]
        simp only [Worker.todo, List.singleton_append, jobs, List.foldl_cons, hmeet] at horder
        exact horder
  | setup t stream hpc =>
      refine ⟨known, hs.move rfl rfl (by rw [hpc]; rfl) ?_ (by rintro t ⟨⟩)⟩
      rw [hpc, List.map_append, List.append_assoc]
      rfl
  | forward stream packet packets hpc =>
      refine ⟨known, hs.move rfl rfl (by rw [hpc]; rfl) ?_ (by rintro t ⟨⟩)⟩
      rw [hpc, List.map_append, List.append_assoc]
      rfl

theorem step_scripted {libav : Libav} {l : Label 1} (hl : ∀ doomed, l ≠ .evict doomed)
    (hs : Scripted known s) (h : step libav s l = some s') : ∃ known', Scripted known' s' := by
  obtain ⟨-, ⟨seg, rfl, rfl⟩ | ⟨i, now, rfl, hmoves⟩ | ⟨doomed, rfl, -⟩ | ⟨rfl, hclose⟩⟩ :=
    step_cases h
  · refine ⟨known, hs.made, hs.cached, ?_, ?_, hs.missed⟩
    · rw [receive, script_append, hs.order, hs.law]
      simp only [List.map_append, List.map_singleton, ← List.append_assoc]
      rw [script_append known _ [seg], ← List.append_assoc]
    · rw [receive, jobs_append, hs.order]
      simp only [List.map_append, List.map_singleton, ← List.append_assoc]
      rw [jobs_append known _ [seg]]
  · exact moves_scripted hs hmoves
  · exact absurd rfl (hl doomed)
  · refine ⟨known, ?_⟩
    rcases closeStep_cases hclose with ⟨flag, closer, rfl, -⟩ | rfl | ⟨-, -, rfl⟩
    · exact ⟨hs.made, hs.cached, hs.law, hs.order, hs.missed⟩
    · exact ⟨hs.made, hs.cached, hs.law, hs.order, hs.missed⟩
    · exact ⟨hs.made, hs.cached, hs.law, hs.order, hs.missed⟩

end Steps

/-- As long as no stream expires, the worker keeps to the script. -/
theorem scripted_of_exec {libav : Libav} {expSeconds : Int} {labels : List (Label 1)}
    {s : SegmentUnpacker 1} (hkept : ∀ doomed, Label.evict doomed ∉ labels)
    (hexec : exec (step libav) (start 1 (create expSeconds)) labels = some s) :
    ∃ known, Scripted known s := by
  induction labels using List.reverseRecOn generalizing s with
  | nil =>
      obtain rfl := Option.some.inj hexec
      exact ⟨[], start_scripted expSeconds⟩
  | append_singleton labels l ih =>
      obtain ⟨mid, hmid, hstep⟩ := exec_snoc_eq_some _ hexec
      obtain ⟨known, hknown⟩ := ih (fun doomed hmem => hkept doomed (List.mem_append_left _ hmem))
        hmid
      refine step_scripted ?_ hknown hstep
      rintro doomed rfl
      exact hkept doomed (List.mem_append_right _ (List.mem_singleton_self _))

/-- Everything that was received has been dealt with. -/
def Settled (s : SegmentUnpacker 1) : Prop := s.work = [] ∧ (s.workers 0).Idle

theorem events_of_settled {libav : Libav} {expSeconds : Int} {labels : List (Label 1)}
    {s : SegmentUnpacker 1} (hkept : ∀ doomed, Label.evict doomed ∉ labels)
    (hexec : exec (step libav) (start 1 (create expSeconds)) labels = some s)
    (hsettled : Settled s) : s.events.map Event.line = script [] s.received := by
  obtain ⟨known, hs⟩ := scripted_of_exec hkept hexec
  obtain ⟨hwork, hidle⟩ := hsettled
  have hlaw := hs.law
  rw [hidle.rest_eq, hidle.todo_eq, hwork] at hlaw
  rw [hlaw]
  simp only [List.append_nil, List.map_nil, script]

theorem prefix_meet (known : List Uuid) (seg : Segment) : known <+: meet known seg := by
  unfold meet
  split
  · exact List.prefix_refl known
  · exact List.prefix_append known _

theorem prefix_jobs (known : List Uuid) (segs : List Segment) : known <+: jobs known segs := by
  induction segs generalizing known with
  | nil => exact List.prefix_refl known
  | cons seg segs ih => exact (prefix_meet known seg).trans (ih _)

theorem mem_jobs {known : List Uuid} {segs : List Segment} {job : Uuid} :
    job ∈ jobs known segs ↔ job ∈ known ∨ ∃ seg ∈ segs, seg.jobId = job := by
  induction segs generalizing known with
  | nil => simp [jobs]
  | cons seg segs ih =>
      have hmeet : job ∈ meet known seg ↔ job ∈ known ∨ seg.jobId = job := by
        unfold meet
        split
        · rename_i hmem
          refine ⟨Or.inl, ?_⟩
          rintro (h | rfl)
          · exact h
          · exact hmem
        · rw [List.mem_append, List.mem_singleton, eq_comm (a := job)]
      rw [jobs, List.foldl_cons, ← jobs, ih, hmeet, or_assoc]
      simp

end Media2.SegmentUnpacker

import Media2.Loss
import Media2.Storage.Tasks

/-!
# What ends up in the files

The workers write the segments of a stream in any order, and a segment that was sent twice is
written twice. Its name is its timestamp, so the files of a stream, read in the order of their
names' numbers, are the segments in the order in which they were cut.
-/

namespace Media2.Storage

open Execution Workers Serialization

variable {n : Nat}

/-- What comes after the last slash tells where it is. -/
theorem append_slash_inj {α : Type} {a : α} {path path' name name' : List α} (h : a ∉ name)
    (h' : a ∉ name') (heq : path ++ a :: name = path' ++ a :: name') :
    path = path' ∧ name = name' := by
  rcases List.append_eq_append_iff.mp heq with ⟨c, hpath, hname⟩ | ⟨c, hpath, hname⟩
  · cases c with
    | nil => exact ⟨by simp [hpath], (List.cons.inj hname).2⟩
    | cons b c =>
        have hmem : a ∈ name := by
          rw [(List.cons.inj hname).2]
          exact List.mem_append_right c (List.mem_cons_self ..)
        exact absurd hmem h
  · cases c with
    | nil => exact ⟨by simp [hpath], (List.cons.inj hname).2.symm⟩
    | cons b c =>
        have hmem : a ∈ name' := by
          rw [(List.cons.inj hname).2]
          exact List.mem_append_right c (List.mem_cons_self ..)
        exact absurd hmem h'

/-- `std::to_string` of a number has no slash. -/
theorem slash_notMem_toString (d : Int64) : '/' ∉ (toString d.toInt).toList := by
  have hnat : ∀ k : Nat, '/' ∉ k.repr.toList := by
    intro k hmem
    rw [Nat.toList_repr] at hmem
    have hdigit := Nat.isDigit_of_mem_toDigits (by decide) (by decide) hmem
    exact absurd hdigit (by decide)
  rw [Int.toString_eq_repr, Int.repr_eq_if]
  split
  · exact hnat _
  · rw [String.toList_append, List.mem_append]
    rintro (hmem | hmem)
    · exact absurd hmem (by decide)
    · exact hnat _ hmem

theorem natRepr_injective {k m : Nat} (h : k.repr = m.repr) : k = m := by
  have hdigits := congrArg String.toList h
  rw [Nat.toList_repr, Nat.toList_repr] at hdigits
  calc k = Nat.ofDigitChars 10 (Nat.toDigits 10 k) 0 := Nat.ofDigitChars_ten_toDigits.symm
    _ = Nat.ofDigitChars 10 (Nat.toDigits 10 m) 0 := by rw [hdigits]
    _ = m := Nat.ofDigitChars_ten_toDigits

theorem minus_notMem (k : Nat) : '-' ∉ k.repr.toList := by
  intro hmem
  rw [Nat.toList_repr] at hmem
  have hdigit := Nat.isDigit_of_mem_toDigits (by decide) (by decide) hmem
  exact absurd hdigit (by decide)

/-- Different numbers print differently. -/
theorem toString_injective {d d' : Int64} (h : toString d.toInt = toString d'.toInt) : d = d' := by
  apply Int64.toInt_inj.mp
  rw [Int.toString_eq_repr, Int.toString_eq_repr, Int.repr_eq_if, Int.repr_eq_if] at h
  have hsign : ∀ k m : Nat, k.repr ≠ "-" ++ m.repr := by
    intro k m heq
    apply minus_notMem k
    rw [heq, String.toList_append]
    exact List.mem_append_left _ (by decide)
  split at h
  · split at h
    · have hnat := natRepr_injective h
      omega
    · exact absurd h (hsign _ _)
  · split at h
    · exact absurd h.symm (hsign _ _)
    · have hlist := congrArg String.toList h
      rw [String.toList_append, String.toList_append] at hlist
      have hnat := natRepr_injective (String.toList_inj.mp (List.append_cancel_left hlist))
      omega

/-- A file's name ends on the stream's id and the timestamp. -/
theorem filename_toList (metadata : Job) (id : Uuid) (dts : Int64) : ∃ path : List Char,
    (filename metadata id dts).toList =
      path ++ id.unparse.toList ++ '/' :: (toString dts.toInt).toList := by
  have hhead : id.unparse.toList.head? ≠ some '/' := fun hhead =>
    Uuid.slash_notMem_unparse id (List.mem_of_mem_head? hhead)
  unfold filename appendPath
  rw [if_neg hhead]
  split
  · exact ⟨metadata.jobRoot.toList, by simp [String.toList_append]⟩
  · exact ⟨metadata.jobRoot.toList ++ ['/'], by simp [String.toList_append]⟩

/-- Files of different streams and of different timestamps have different names. -/
theorem filename_inj {metadata metadata' : Job} {id id' : Uuid} {dts dts' : Int64}
    (h : filename metadata id dts = filename metadata' id' dts') : id = id' ∧ dts = dts' := by
  obtain ⟨path, hpath⟩ := filename_toList metadata id dts
  obtain ⟨path', hpath'⟩ := filename_toList metadata' id' dts'
  rw [h, hpath'] at hpath
  obtain ⟨hdir, hname⟩ := append_slash_inj (slash_notMem_toString dts') (slash_notMem_toString dts)
    hpath
  have hlen : id'.unparse.toList.length = id.unparse.toList.length := by
    rw [Uuid.length_unparse, Uuid.length_unparse]
  have hid := (List.append_inj' hdir hlen).2
  exact ⟨Uuid.unparse_injective (String.toList_inj.mp hid.symm),
    toString_injective (String.toList_inj.mp hname.symm)⟩

/-- The files after the tasks that are done. -/
def written (files : String → Option (List UInt8)) (done : List Done) :
    String → Option (List UInt8) :=
  done.foldl (fun files d => match d.file with
    | some path => fun p => if p = path then some d.task.buffer.contents else files p
    | none => files) files

/-- A task without a job is dropped. Any other is loaded, and written if its file opens. -/
def Handled (world : World) (d : Done) : Prop :=
  (d.metadata.jobId = "" ∧ d.file = none) ∨
    (d.metadata.jobId ≠ "" ∧ ∃ seg rest,
      (loadSegment world.mem).run d.task.buffer.unread = .ok (seg, rest) ∧
      d.file = if world.opens (filename d.metadata d.task.id seg.dts) then
        some (filename d.metadata d.task.id seg.dts) else none)

/-- The files are those that the tasks done have written, each as it should be. -/
structure Filed (world : World) (files : String → Option (List UInt8)) (s : Storage n) : Prop where
  files_eq : s.files = written files s.done
  handled : ∀ d ∈ s.done, Handled world d
  loaded : ∀ i task metadata seg, s.workers i = .write task metadata seg →
    metadata.jobId ≠ "" ∧ ∃ rest,
      (loadSegment world.mem).run task.buffer.unread = .ok (seg, rest)

theorem written_snoc (files : String → Option (List UInt8)) (done : List Done) (d : Done) :
    written files (done ++ [d]) = match d.file with
      | some path => fun p => if p = path then some d.task.buffer.contents
          else written files done p
      | none => written files done := by
  rw [written, List.foldl_append]
  rfl

/-- A path holds what was there before, or what one of the tasks has written to it. -/
theorem written_cases (files : String → Option (List UInt8)) (done : List Done) (path : String) :
    (written files done path = files path ∧ ∀ d ∈ done, d.file ≠ some path) ∨
    ∃ d ∈ done, d.file = some path ∧ written files done path = some d.task.buffer.contents := by
  induction done using List.reverseRecOn with
  | nil => exact Or.inl ⟨rfl, by rintro d ⟨⟩⟩
  | append_singleton done d ih =>
      rw [written_snoc]
      cases hfile : d.file with
      | none =>
          rcases ih with ⟨hsame, hnone⟩ | ⟨d', hd', hpath, hwritten⟩
          · refine Or.inl ⟨hsame, fun d' hd' => ?_⟩
            rcases List.mem_append.mp hd' with hd' | hd'
            · exact hnone d' hd'
            · rw [List.mem_singleton.mp hd', hfile]
              simp
          · exact Or.inr ⟨d', List.mem_append_left _ hd', hpath, hwritten⟩
      | some path' =>
          by_cases hp : path = path'
          · subst hp
            exact Or.inr ⟨d, List.mem_append_right _ (List.mem_singleton_self d), hfile, if_pos rfl⟩
          · have hother : d.file ≠ some path := by
              rw [hfile]
              exact fun heq => hp (Option.some.inj heq).symm
            dsimp only
            rw [if_neg hp]
            rcases ih with ⟨hsame, hnone⟩ | ⟨d', hd', hpath, hwritten⟩
            · refine Or.inl ⟨hsame, fun d' hd' => ?_⟩
              rcases List.mem_append.mp hd' with hd' | hd'
              · exact hnone d' hd'
              · rw [List.mem_singleton.mp hd']
                exact hother
            · exact Or.inr ⟨d', List.mem_append_left _ hd', hpath, hwritten⟩

section Moves

variable {world : World} {files : String → Option (List UInt8)} {s s' : Storage n} {i : Fin n}

/-- A worker moves on without writing. -/
theorem Filed.keep (h : Filed world files s) {w : Worker}
    (hw : ∀ task metadata seg, w = .write task metadata seg → metadata.jobId ≠ "" ∧ ∃ rest,
      (loadSegment world.mem).run task.buffer.unread = .ok (seg, rest))
    {t : Storage n} (hworkers : t.workers = Function.update s.workers i w)
    (hdone : t.done = s.done) (hfiles : t.files = s.files) : Filed world files t where
  files_eq := by
    rw [hfiles, hdone]
    exact h.files_eq
  handled := by
    rw [hdone]
    exact h.handled
  loaded := by
    intro j task metadata seg hj
    rw [hworkers] at hj
    by_cases hji : j = i
    · subst hji
      rw [Function.update_self] at hj
      exact hw task metadata seg hj
    · rw [Function.update_of_ne hji] at hj
      exact h.loaded j task metadata seg hj

/-- A worker is done with a task and has written its file, if there is one to write. -/
theorem Filed.finish (h : Filed world files s) {task : Tasks} {metadata : Job}
    {file : Option String} (hhandled : Handled world ⟨task, metadata, file⟩)
    (now : String → Option (List UInt8))
    (hnow : now = written files (s.done ++ [⟨task, metadata, file⟩])) :
    Filed world files ({ s with files := now }.finish i task metadata file) where
  files_eq := hnow
  handled := by
    intro d hd
    rcases List.mem_append.mp hd with hd | hd
    · exact h.handled d hd
    · rw [List.mem_singleton.mp hd]
      exact hhandled
  loaded := by
    intro j task' metadata' seg hj
    change Function.update s.workers i .testFlag j = .write task' metadata' seg at hj
    by_cases hji : j = i
    · subst hji
      rw [Function.update_self] at hj
      cases hj
    · rw [Function.update_of_ne hji] at hj
      exact h.loaded j task' metadata' seg hj

theorem moves_filed (hs : Filed world files s) (h : Moves world s i s') :
    Filed world files s' := by
  cases h with
  | enter hpc =>
      refine hs.keep ?_ rfl rfl rfl
      split <;> rintro task metadata seg ⟨⟩
  | asked task hpc hjob job hanswer =>
      refine hs.keep ?_ rfl rfl rfl
      cases job <;> rintro task' metadata seg ⟨⟩
  | cachedNull task hpc hjob => exact hs
  | drop task metadata hpc hempty =>
      refine hs.finish (Or.inl ⟨hempty, rfl⟩) s.files ?_
      rw [written_snoc]
      exact hs.files_eq
  | load task metadata seg rest hpc hjob hload =>
      refine hs.keep ?_ rfl rfl rfl
      rintro task' metadata' seg' ⟨⟩
      exact ⟨hjob, rest, hload⟩
  | crash task metadata e hpc hjob hload => exact ⟨hs.files_eq, hs.handled, hs.loaded⟩
  | store task metadata seg hpc hopens =>
      obtain ⟨hjob, rest, hload⟩ := hs.loaded i task metadata seg hpc
      refine hs.finish (Or.inr ⟨hjob, seg, rest, hload, by rw [if_pos hopens]⟩) _ ?_
      rw [written_snoc, ← hs.files_eq]
  | unopened task metadata seg hpc hopens =>
      obtain ⟨hjob, rest, hload⟩ := hs.loaded i task metadata seg hpc
      refine hs.finish (Or.inr ⟨hjob, seg, rest, hload, by rw [hopens]; rfl⟩) s.files ?_
      rw [written_snoc]
      exact hs.files_eq
  | stay hpc | leave hpc | popNone hpc | popSome _ _ hpc | cached _ _ hpc | clear hpc
  | pass hpc | wait hpc | sleep hpc =>
      exact hs.keep (by rintro task metadata seg ⟨⟩) rfl rfl rfl

/-- Waking workers writes nothing. -/
theorem Filed.notifyAll (h : Filed world files s) : Filed world files s.notifyAll where
  files_eq := h.files_eq
  handled := h.handled
  loaded := by
    intro j task metadata seg hj
    change (if s.workers j = .asleep then Worker.test else s.workers j) =
      .write task metadata seg at hj
    split at hj
    · cases hj
    · exact h.loaded j task metadata seg hj

theorem step_filed {l : Label n} (hs : Filed world files s) (h : s.step world l = some s') :
    Filed world files s' := by
  obtain ⟨-, ⟨buffer, streamId, -, -, -, rfl⟩ | ⟨-, hadd⟩ | ⟨i, -, hmoves⟩ |
    ⟨i, -, -, rfl⟩ | ⟨-, hdestroy⟩⟩ := step_cases h
  · exact ⟨hs.files_eq, hs.handled, hs.loaded⟩
  · rcases addStep_cases hadd with rfl | rfl
    · exact ⟨hs.files_eq, hs.handled, hs.loaded⟩
    · exact ⟨hs.files_eq, hs.handled, hs.notifyAll.loaded⟩
  · exact moves_filed hs hmoves
  · exact hs.keep (by rintro task metadata seg ⟨⟩) rfl rfl rfl
  · rcases destroy_cases hdestroy with ⟨-, rfl⟩ | ⟨-, -, rfl⟩ | ⟨-, rfl⟩ | ⟨-, -, rfl⟩
    · exact ⟨hs.files_eq, hs.handled, hs.loaded⟩
    · exact ⟨hs.files_eq, hs.handled, hs.loaded⟩
    · exact ⟨hs.files_eq, hs.handled, hs.notifyAll.loaded⟩
    · exact ⟨hs.files_eq, hs.handled, hs.loaded⟩

end Moves

theorem start_filed (world : World) (n : Nat) (moreWork : Bool)
    (files : String → Option (List UInt8)) : Filed world files (start n moreWork files) where
  files_eq := rfl
  handled := by
    rintro d ⟨⟩
  loaded := by
    rintro i task metadata seg ⟨⟩

theorem filed_of_exec {world : World} {moreWork : Bool} {files : String → Option (List UInt8)}
    {labels : List (Label n)} {s : Storage n}
    (hexec : exec (step world) (start n moreWork files) labels = some s) : Filed world files s :=
  invariant_of_step (fun _ _ _ => step_filed) (start_filed world n moreWork files) hexec

open Remote Segmenter Transport

/-- What a subscriber is given of a segment that was published and relayed. -/
def delivered (publisher : ZmqSegmentPublisher) (seg : Segment) (stream : StreamData)
    (locals : ZmqSegmentSubscriber.Locals) (hops : List Hop) :
    Except Fault ZmqSegmentSubscriber.Received := do
  let message ← publisher.process (some seg) (some stream)
  let received ← ZmqSegmentSubscriber.handle locals message
  hops.foldlM (fun received hop => Hop.relay hop received) received

/-- The storage service was given the segment as this task. -/
def Uploaded (seg : Segment) (task : Tasks) : Prop :=
  ∃ publisher stream locals hops received,
    delivered publisher seg stream locals hops = .ok received ∧
      task.buffer = received.buffer ∧ task.id = received.jobId

/-- The buffer that arrives holds the segment as it was saved. -/
theorem Uploaded.buffer_eq {seg : Segment} {task : Tasks} (h : Uploaded seg task) :
    task.buffer = StringStream.ofBytes (saveSegment seg) := by
  obtain ⟨publisher, stream, locals, hops, received, hreceived, hbuffer, -⟩ := h
  rw [hbuffer]
  cases hparam : stream.parameters with
  | none =>
      simp only [delivered, ZmqSegmentPublisher.process, hparam] at hreceived
      cases hreceived
  | some parameters =>
      obtain ⟨id, hsend⟩ : ∃ id, publisher.process (some seg) (some stream) =
          .ok (ZmqSegmentPublisher.processBuffer (StringStream.ofBytes (saveSegment seg)) id
            stream.mediaType parameters.width parameters.height) := by
        simp only [ZmqSegmentPublisher.process, hparam]
        exact ⟨_, rfl⟩
      obtain ⟨first, hfirst, hsaved⟩ : ∃ first, ZmqSegmentSubscriber.handle locals
          (ZmqSegmentPublisher.processBuffer (StringStream.ofBytes (saveSegment seg)) id
            stream.mediaType parameters.width parameters.height) = .ok first ∧
          first.buffer = StringStream.ofBytes (saveSegment seg) :=
        ⟨_, ZmqSegmentSubscriber.handle_processBuffer locals _ id stream.mediaType _ _, rfl⟩
      obtain ⟨last, hlast, hsaved⟩ := relays_buffer hops hsaved
      simp only [delivered, hsend, hfirst, bind, Except.bind] at hreceived
      rw [← hsaved, Except.ok.inj (hreceived.symm.trans hlast)]

/-- Flushing sends nothing that the destructor does not send anyway. -/
theorem mem_allSent_flush {mem : Segment.Unassigned} {t session : Session} (k : Nat)
    (h : exec (Session.step mem) t (List.replicate k .flush) = some session) (e : Emission) :
    e ∈ session.allSent ↔ e ∈ t.allSent := by
  induction k generalizing t with
  | zero =>
      obtain rfl : t = session := Option.some.inj h
      rfl
  | succ k ih =>
      rw [List.replicate_succ, exec_cons] at h
      obtain ⟨u, hu, h⟩ := Option.bind_eq_some_iff.mp h
      obtain ⟨-, hstate, hsent⟩ := step_eq_some hu
      have hflush : u.allSent = t.allSent ++ t.segmenter.flush.emitted := by
        rw [Session.allSent, hstate, hsent]
        rfl
      rw [ih h, hflush, List.mem_append, or_iff_left_iff_imp]
      exact List.mem_append_right t.sent

/-- The segments of a stream whose timestamps grow have growing timestamps. -/
theorem segments_sorted {mediaType : AVMediaType} {nframes : Nat} {packets : List Packet}
    {groups : List (List Packet)} (hgroups : Groups mediaType nframes packets groups)
    (horder : packets.Pairwise fun p q => p.val.dts < q.val.dts) (header : Segment) :
    (groups.map (segmentOf header)).Pairwise fun seg seg' => seg.dts < seg'.dts := by
  rw [← hgroups.flatten_eq, List.pairwise_flatten] at horder
  apply List.pairwise_map.mpr
  refine horder.2.imp_of_mem ?_
  intro group group' hgroup hgroup' hless
  have hstamp : ∀ l ∈ groups, ∃ p ∈ l, (segmentOf header l).dts = p.val.dts := by
    intro l hl
    obtain ⟨p, rest, rfl⟩ := List.exists_cons_of_ne_nil fun hnil =>
      hgroups.nonempty (hnil ▸ hl)
    refine ⟨p, List.mem_cons_self .., (segmentOf_valid header _).dts_eq p ?_⟩
    rw [segmentOf_packets]
    rfl
  obtain ⟨p, hp, hdts⟩ := hstamp group hgroup
  obtain ⟨p', hp', hdts'⟩ := hstamp group' hgroup'
  rw [hdts, hdts']
  exact hless p hp p' hp'

/-- Among segments with growing timestamps, the timestamp tells which one it is. -/
theorem find_dts {segs : List Segment}
    (hsorted : segs.Pairwise fun seg seg' => seg.dts < seg'.dts) {seg : Segment}
    (hseg : seg ∈ segs) : (segs.find? fun other => other.dts = seg.dts) = some seg := by
  induction segs with
  | nil => cases hseg
  | cons first rest ih =>
      obtain ⟨hfirst, hrest⟩ := List.pairwise_cons.mp hsorted
      rcases List.mem_cons.mp hseg with rfl | hseg
      · rw [List.find?_cons_of_pos (by simp)]
      · have hne : first.dts ≠ seg.dts := by
          intro heq
          have hless := hfirst seg hseg
          rw [heq] at hless
          exact Int64.lt_irrefl hless
        rw [List.find?_cons_of_neg (by simpa using hne)]
        exact ih hrest hseg

section Sample

/-- The segment that is cut of a single key packet. -/
def keySegment : Segment :=
  segmentOf (headerOf Segment.Unassigned.zero Uuid.null StreamData.sampleVideo
    AVCodecParameters.zero) [Packet.keyFrame]

/-- It is sent by a flush and by the destructor, and arrives twice. -/
def storeTwice : List (Label 1) :=
  List.flatten (List.replicate 2
    ([.add (StringStream.ofBytes (saveSegment keySegment)) Uuid.null, .adding, .adding] ++
      (List.finRange 1).flatMap fun i => List.replicate 5 (.worker i)))

/-- What the storage service is given of it. -/
def keyTask (number : Nat) : Tasks :=
  ⟨StringStream.ofBytes (saveSegment keySegment), Uuid.null, number⟩

def keySession : Session :=
  (exec (Session.step Segment.Unassigned.zero) (Session.start Uuid.null 250)
    (feedOps [(Packet.keyFrame, StreamData.sampleVideo)] ++ [.flush])).getD
      (Session.start Uuid.null 250)

theorem keyTask_uploaded (number : Nat) : Uploaded keySegment (keyTask number) :=
  ⟨ZmqSegmentPublisher.create, StreamData.sampleVideo, zeroLocals, [],
    ⟨StringStream.ofBytes (saveSegment keySegment), Uuid.null, AVMediaType.video, 0, 0⟩,
    ZmqSegmentSubscriber.handle_processBuffer zeroLocals
      (StringStream.ofBytes (saveSegment keySegment)) Uuid.null AVMediaType.video 0 0, rfl, rfl⟩

theorem keySession_allSent : keySession.allSent =
    List.replicate 2 ⟨some keySegment, some StreamData.sampleVideo⟩ := rfl

set_option maxRecDepth 10000 in
theorem storeTwice_run :
    ∃ s, exec (step World.sample) (start 1 false fun _ => none) storeTwice = some s ∧
      s.added = [keyTask 0, keyTask 1] ∧ s.done.map Done.task = [keyTask 0, keyTask 1] :=
  ⟨_, rfl, rfl, rfl⟩

end Sample

end Media2.Storage

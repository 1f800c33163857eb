import Mathlib.Data.List.Nodup
import Media2.PacketReader.Steps

/-!
# Reopening

`setupStreams` pushes behind what is in the vectors. A `reset` empties them, but at the end
of the file the machine comes to `done` with the vectors as they were, and the source can be
opened again from there in either case.
-/

namespace Media2.PacketReader

open Execution

/-- The vectors hold objects of the last set-up only, each at most once. -/
def Clean (s : PacketReader) : Prop :=
  ∀ v ∈ s.tables.vectors, (∀ stream ∈ v, s.base ≤ stream.id ∧ stream.id < s.made) ∧
    (v.map Stream.id).Nodup

/-- Whenever the machine is in `opened` the vectors are clean. -/
def OpensClean (s : PacketReader) : Prop := s.state = .opened → Clean s

/-- An open that succeeds finds the vectors empty. -/
def FindsEmpty (s : PacketReader) (l : Label) : Prop :=
  ∀ libav found formatContext, s.Alive → l = .setUp libav found →
    s.work = some .setupStreams → s.formatContext = some formatContext →
    (s.outcome libav found formatContext).foundStreams = true → s.tables = StreamTables.empty

theorem append_empty (tables : StreamTables) : tables.append StreamTables.empty = tables := by
  simp [StreamTables.append, StreamTables.empty]

theorem append_assoc (tables tables' tables'' : StreamTables) :
    (tables.append tables').append tables'' = tables.append (tables'.append tables'') := by
  simp [StreamTables.append]

/-- One turn of the loop pushes the same entries, whatever is in the vectors. -/
theorem setupStream_append (libav : Nat → Libav) (filename : String) (s : Progress)
    (av : AVStream) :
    (setupStream libav filename s av).tables =
      s.tables.append (setupStream libav filename ⟨StreamTables.empty, s.foundStreams⟩ av).tables := by
  unfold setupStream
  split
  · exact (append_empty _).symm
  · split
    · split
      · simp only [StreamTables.append, StreamTables.empty]
        congr 1 <;> split <;> simp
      · simp [StreamTables.append, StreamTables.empty]
    · exact (append_empty _).symm

theorem setupStream_found (libav : Nat → Libav) (filename : String) (s : Progress)
    (tables : StreamTables) (av : AVStream) :
    (setupStream libav filename s av).foundStreams =
      (setupStream libav filename ⟨tables, s.foundStreams⟩ av).foundStreams := by
  unfold setupStream
  split
  · rfl
  · split
    · split <;> rfl
    · rfl

/-- So does the whole loop. -/
theorem foldl_setupStream_append (libav : Nat → Libav) (filename : String) (avs : List AVStream)
    (s : Progress) :
    (avs.foldl (setupStream libav filename) s).tables = s.tables.append
        (avs.foldl (setupStream libav filename) ⟨StreamTables.empty, s.foundStreams⟩).tables ∧
      (avs.foldl (setupStream libav filename) s).foundStreams =
        (avs.foldl (setupStream libav filename) ⟨StreamTables.empty, s.foundStreams⟩).foundStreams := by
  induction avs generalizing s with
  | nil => exact ⟨(append_empty _).symm, rfl⟩
  | cons av avs ih =>
      have hleft := ih (setupStream libav filename s av)
      have hright := ih (setupStream libav filename ⟨StreamTables.empty, s.foundStreams⟩ av)
      have hfound := setupStream_found libav filename s StreamTables.empty av
      rw [List.foldl_cons, List.foldl_cons, hleft.1, hleft.2, hright.1, hright.2, hfound,
        setupStream_append libav filename s av, append_assoc]
      exact ⟨rfl, rfl⟩

/-- `setupStreams` on vectors that are in use pushes what it pushes on fresh ones, and sends
the same events. -/
theorem setupStreams_append (libav : Nat → Libav) (filename : String)
    (formatContext : FormatContext) (tables : StreamTables) :
    let o := PacketReader.setupStreams libav filename true formatContext StreamTables.empty
    PacketReader.setupStreams libav filename true formatContext tables =
      ⟨tables.append o.tables, o.events, o.foundStreams⟩ := by
  have hfold := foldl_setupStream_append libav filename formatContext.streams ⟨tables, false⟩
  simp only [PacketReader.setupStreams, if_true, hfold.1, hfold.2]

/-- The numbers of the objects in each vector are among the given ones, in order. -/
def IdsWithin (tables : StreamTables) (ids : List Nat) : Prop :=
  ∀ v ∈ tables.vectors, (v.map Stream.id).Sublist ids

theorem IdsWithin.append {tables tables' : StreamTables} {ids ids' : List Nat}
    (h : IdsWithin tables ids) (h' : IdsWithin tables' ids') :
    IdsWithin (tables.append tables') (ids ++ ids') := by
  simp only [IdsWithin, StreamTables.vectors, StreamTables.append, List.forall_mem_cons,
    List.map_append] at h h' ⊢
  obtain ⟨hstreams, haudio, hvideo, -⟩ := h
  obtain ⟨hstreams', haudio', hvideo', -⟩ := h'
  exact ⟨hstreams.append hstreams', haudio.append haudio', hvideo.append hvideo',
    fun _ hmem => absurd hmem List.not_mem_nil⟩

theorem idsWithin_empty (ids : List Nat) : IdsWithin StreamTables.empty ids := by
  simp [IdsWithin, StreamTables.vectors, StreamTables.empty]

theorem setupStream_ids (libav : Nat → Libav) (filename : String) (found : Bool) (av : AVStream) :
    IdsWithin (setupStream libav filename ⟨StreamTables.empty, found⟩ av).tables [av.index] := by
  unfold setupStream
  split
  · exact idsWithin_empty _
  · split
    · split
      · simp only [IdsWithin, StreamTables.vectors, StreamTables.empty, List.forall_mem_cons]
        refine ⟨by simp [openedStream], ?_, ?_, fun _ hmem => absurd hmem List.not_mem_nil⟩
        · split <;> simp [openedStream]
        · split <;> simp [openedStream]
      · simp [IdsWithin, StreamTables.vectors, StreamTables.empty]
    · exact idsWithin_empty _

theorem foldl_setupStream_ids (libav : Nat → Libav) (filename : String) (avs : List AVStream)
    (found : Bool) :
    IdsWithin (avs.foldl (setupStream libav filename) ⟨StreamTables.empty, found⟩).tables
      (avs.map AVStream.index) := by
  induction avs generalizing found with
  | nil => exact idsWithin_empty _
  | cons av avs ih =>
      rw [List.foldl_cons, (foldl_setupStream_append libav filename avs _).1, List.map_cons]
      exact (setupStream_ids libav filename found av).append (ih _)

theorem map_index (formatContext : FormatContext) :
    formatContext.streams.map AVStream.index = List.range formatContext.streams.length := by
  apply List.ext_getElem
  · simp
  · intro i hi _
    rw [List.length_map] at hi
    simp [formatContext.index_eq i hi]

theorem setupStreams_ids (libav : Nat → Libav) (filename : String) (formatContext : FormatContext) :
    IdsWithin (PacketReader.setupStreams libav filename true formatContext
      StreamTables.empty).tables (List.range formatContext.streams.length) := by
  rw [← map_index]
  exact foldl_setupStream_ids libav filename formatContext.streams false

/-- Objects that are numbered anew keep apart. -/
theorem number_vectors {tables : StreamTables} {ids : List Nat} (h : IdsWithin tables ids)
    (made : Nat) : IdsWithin (tables.number made) (ids.map fun id => made + id) := by
  have hmap : ∀ v : List Stream, (v.map fun stream => { stream with id := made + stream.id }).map
      Stream.id = (v.map Stream.id).map fun id => made + id := by simp
  simp only [IdsWithin, StreamTables.vectors, StreamTables.number, List.forall_mem_cons,
    hmap] at h ⊢
  obtain ⟨hstreams, haudio, hvideo, -⟩ := h
  exact ⟨hstreams.map _, haudio.map _, hvideo.map _, fun _ hmem => absurd hmem List.not_mem_nil⟩

/-- Every object in the vectors was made. -/
def Numbered (s : PacketReader) : Prop :=
  ∀ v ∈ s.tables.vectors, ∀ stream ∈ v, stream.id < s.made

theorem clean_of_empty {s : PacketReader} (h : s.tables = StreamTables.empty) :
    Clean s ∧ Numbered s := by
  rw [Clean, Numbered, h]
  simp [StreamTables.vectors, StreamTables.empty]

section SetUp

variable {s : PacketReader} {libav : Nat → Libav} {formatContext : FormatContext}

/-- The reader after the vectors were filled, with the outcome reported. -/
theorem setUp_found (s : PacketReader) (libav : Nat → Libav) (formatContext : FormatContext) :
    (s.setUp libav true formatContext).tables =
        s.tables.append ((s.outcome libav true formatContext).tables.number s.made) ∧
      (s.setUp libav true formatContext).base = s.made ∧
      (s.setUp libav true formatContext).made = s.made + formatContext.streams.length := by
  obtain ⟨state, events, heq, -⟩ :=
    report_ended (s.filled formatContext (s.outcome libav true formatContext))
      (s.outcome libav true formatContext)
  rw [setUp, if_pos rfl, heq]
  exact ⟨rfl, rfl, rfl⟩

theorem setUp_state (hstate : s.state = .opening) :
    (s.setUp libav true formatContext).state =
      if (s.outcome libav true formatContext).foundStreams then .opened else .failed := by
  rw [setUp, if_pos rfl]
  apply report_state
  exact hstate

theorem new_bounds {v : List Stream}
    (hv : v ∈ ((s.outcome libav true formatContext).tables.number s.made).vectors) :
    (∀ stream ∈ v, s.made ≤ stream.id ∧ stream.id < s.made + formatContext.streams.length) ∧
      (v.map Stream.id).Nodup := by
  have hids := number_vectors (setupStreams_ids libav s.filename formatContext) s.made v hv
  refine ⟨?_, hids.nodup (List.nodup_range.map fun _ _ => Nat.add_left_cancel)⟩
  intro stream hstream
  obtain ⟨i, hi, heq⟩ := List.mem_map.mp (hids.subset (List.mem_map_of_mem hstream))
  rw [List.mem_range] at hi
  omega

theorem mem_append_vectors {tables new : StreamTables} {v : List Stream}
    (hv : v ∈ (tables.append new).vectors) :
    ∃ old ∈ tables.vectors, ∃ pushed ∈ new.vectors, v = old ++ pushed := by
  simp only [StreamTables.vectors, StreamTables.append, List.mem_cons, List.not_mem_nil,
    or_false] at hv ⊢
  rcases hv with rfl | rfl | rfl
  · exact ⟨_, Or.inl rfl, _, Or.inl rfl, rfl⟩
  · exact ⟨_, Or.inr (Or.inl rfl), _, Or.inr (Or.inl rfl), rfl⟩
  · exact ⟨_, Or.inr (Or.inr rfl), _, Or.inr (Or.inr rfl), rfl⟩

theorem setUp_numbered (h : Numbered s) : Numbered (s.setUp libav true formatContext) := by
  obtain ⟨htables, -, hmade⟩ := setUp_found s libav formatContext
  rw [Numbered, htables, hmade]
  intro v hv stream hstream
  obtain ⟨old, hold, pushed, hpushed, rfl⟩ := mem_append_vectors hv
  rcases List.mem_append.mp hstream with hstream | hstream
  · exact Nat.lt_add_right _ (h old hold stream hstream)
  · exact ((new_bounds hpushed).1 stream hstream).2

/-- Set-up on empty vectors leaves them clean. -/
theorem setUp_clean (hempty : s.tables = StreamTables.empty) :
    Clean (s.setUp libav true formatContext) := by
  obtain ⟨htables, hbase, hmade⟩ := setUp_found s libav formatContext
  rw [Clean, htables, hbase, hmade, hempty]
  intro v hv
  exact new_bounds hv

/-- What was in the vectors before is not of this set-up. -/
theorem empty_of_setUp_clean (h : Numbered s) (hclean : Clean (s.setUp libav true formatContext)) :
    s.tables = StreamTables.empty := by
  obtain ⟨htables, hbase, -⟩ := setUp_found s libav formatContext
  rw [Clean, htables, hbase] at hclean
  have hnil : ∀ old ∈ s.tables.vectors, ∀ pushed,
      old ++ pushed ∈ (s.tables.append
        ((s.outcome libav true formatContext).tables.number s.made)).vectors → old = [] := by
    intro old hold pushed hmem
    apply List.eq_nil_iff_forall_not_mem.mpr
    intro stream hstream
    have hnew := ((hclean _ hmem).1 stream (List.mem_append_left _ hstream)).1
    exact absurd (h old hold stream hstream) (Nat.not_lt.mpr hnew)
  have hstreams := hnil s.tables.streams (by simp [StreamTables.vectors]) _ (List.mem_cons_self ..)
  have haudio := hnil s.tables.audioStreams (by simp [StreamTables.vectors]) _
    (List.mem_cons_of_mem _ (List.mem_cons_self ..))
  have hvideo := hnil s.tables.videoStreams (by simp [StreamTables.vectors]) _
    (List.mem_cons_of_mem _ (List.mem_cons_of_mem _ (List.mem_cons_self ..)))
  calc s.tables
      = ⟨s.tables.streams, s.tables.audioStreams, s.tables.videoStreams⟩ := rfl
    _ = StreamTables.empty := by rw [hstreams, haudio, hvideo, StreamTables.empty]

end SetUp

/-- What holds in every run whose opens find the vectors empty. -/
structure Kept (s : PacketReader) : Prop extends Working s where
  opensClean : OpensClean s
  numbered : Numbered s

section Steps

variable {s s' : PacketReader}

/-- The vectors are as they were, and the machine has not come to `opened`. -/
theorem Kept.of_same (h : Kept s) (hworking : Working s') (htables : s'.tables = s.tables)
    (hbase : s'.base = s.base) (hmade : s'.made = s.made)
    (hstate : s'.state = .opened → s.state = .opened) : Kept s' where
  toWorking := hworking
  opensClean := by
    intro hopened
    rw [Clean, htables, hbase, hmade]
    exact h.opensClean (hstate hopened)
  numbered := by
    rw [Numbered, htables, hmade]
    exact h.numbered

/-- No event of a user or of the reading thread opens the source at once. -/
theorem Sends.same {byReader : Bool} {e : PlayerEvent} (hs : Sends s byReader e s')
    (he : e ≠ .outcome .openSuccess) : s'.tables = s.tables ∧ s'.base = s.base ∧
      s'.made = s.made ∧ (s'.state = .opened → s.state = .opened) := by
  cases hs with
  | ignored => exact ⟨rfl, rfl, rfl, id⟩
  | enters target action h _ _ _ =>
      refine ⟨rfl, rfl, rfl, ?_⟩
      rintro rfl
      exact absurd (transition_opened h) he
  | opens => exact ⟨rfl, rfl, rfl, fun h => by cases h⟩
  | starts => exact ⟨rfl, rfl, rfl, fun h => by cases h⟩
  | resets => exact ⟨rfl, rfl, rfl, fun h => by cases h⟩

theorem step_kept {l : Label} (hs : Kept s) (hok : FindsEmpty s l) (h : s.step l = some s') :
    Kept s' := by
  have hworking := step_working hs.toWorking h
  obtain ⟨halive, hsteps⟩ := step_cases h
  cases hsteps with
  | event e _ _ =>
      obtain ⟨htables, hbase, hmade, hstate⟩ := (send_cases s false e.event).same e.event_ne
      exact hs.of_same hworking htables hbase hmade hstate
  | process => exact hs.of_same hworking rfl rfl rfl id
  | join => exact hs.of_same hworking rfl rfl rfl id
  | destroy => exact hs.of_same hworking rfl rfl rfl id
  | openInput answer hl hwork =>
      cases answer with
      | none =>
          have hstate := openFormat_none_state (hs.state _ _ hwork rfl)
          obtain ⟨state, events, heq, -⟩ := openFormat_none s
          refine hs.of_same hworking (by rw [heq]) (by rw [heq]) (by rw [heq]) ?_
          intro hopened
          rw [hstate] at hopened
          cases hopened
      | some formatContext => exact hs.of_same hworking rfl rfl rfl id
  | setUp libav found formatContext hl hwork hcontext =>
      cases found with
      | true =>
          refine ⟨hworking, ?_, setUp_numbered hs.numbered⟩
          intro hopened
          apply setUp_clean
          apply hok libav true formatContext halive hl hwork hcontext
          by_contra hfound
          have hstate : (s.setUp libav true formatContext).state = .failed := by
            rw [setUp_state (hs.state _ _ hwork rfl), if_neg hfound]
          rw [hstate] at hopened
          cases hopened
      | false => exact hs.of_same hworking rfl rfl rfl id
  | lockStreams => exact hs.of_same hworking rfl rfl rfl id
  | joined caller hwork _ =>
      have hempty : (s.closed caller).tables = StreamTables.empty := by
        cases caller with
        | reset => rfl
        | setupStreams o =>
            obtain ⟨state, events, heq, -⟩ := report_ended s.emptied o
            exact congrArg PacketReader.tables heq
        | destructor => rfl
      obtain ⟨hclean, hnumbered⟩ := clean_of_empty hempty
      exact ⟨hworking, fun _ => hclean, hnumbered⟩
  | start _ _ _ _ =>
      obtain ⟨htables, hbase, hmade, hstate⟩ :=
        (send_cases { s with threads := [.test] } true .play).same (by simp)
      exact hs.of_same hworking htables hbase hmade hstate
  | eof _ _ =>
      obtain ⟨htables, hbase, hmade, hstate⟩ :=
        (send_cases { s with threads := [.test] } true .eof).same (by simp)
      exact hs.of_same hworking htables hbase hmade hstate
  | goes => exact hs.of_same hworking rfl rfl rfl id
  | dies => exact hs.of_same hworking rfl rfl rfl id

/-- An open that succeeds on vectors that are in use does not leave them clean. -/
theorem findsEmpty_of_next {l : Label} (hs : Kept s)
    (hnext : ∀ s', s.step l = some s' → OpensClean s') : FindsEmpty s l := by
  rintro libav found formatContext halive rfl hwork hcontext hfound
  obtain rfl : found = true := by
    cases found with
    | false => cases hfound
    | true => rfl
  have hstep : s.step (.setUp libav true) = some (s.setUp libav true formatContext) := by
    simp only [step, halive, if_true, hwork, hcontext]
  have hstate : (s.setUp libav true formatContext).state = .opened := by
    rw [setUp_state (hs.state _ _ hwork rfl), if_pos hfound]
  exact empty_of_setUp_clean hs.numbered (hnext _ hstep hstate)

end Steps

theorem create_kept (filename : String) : Kept (create filename) where
  toWorking := create_working filename
  opensClean := by
    intro hopened
    cases hopened
  numbered := (clean_of_empty rfl).2

/-- In a run the vectors are clean whenever the machine comes to `opened` if and only if
every open that succeeds finds them empty. -/
theorem opensClean_iff (filename : String) (labels : List Label) :
    Always step OpensClean (create filename) labels ↔
      Guarded step FindsEmpty (create filename) labels := by
  apply always_iff_guarded (I := Kept) _ _ _ (create_kept filename)
  · exact fun s l _ s' hs hok hstep => step_kept hs hok hstep
  · exact fun s hs => hs.opensClean
  · exact fun s l _ hs hnext => findsEmpty_of_next hs hnext

/-- The source is opened and read to its end, and opened again. -/
def reopenAfterEof : List Label :=
  [.openInput (some sampleContainer), .setUp (fun _ => Libav.sample) true, .sendEvent .play] ++
    List.replicate 6 (.reader none) ++
    [.sendEvent .open, .openInput (some sampleContainer), .setUp (fun _ => Libav.sample) true]

/-- The object of the first open is still in the vector, before the one of the second. -/
theorem reopened_with_old_streams :
    ∃ s, exec step (create "sample.mp4") reopenAfterEof = some s ∧ s.state = .opened ∧
      s.base = 2 ∧ s.tables.streams.map Stream.id = [1, 3] ∧ ¬ OpensClean s := by
  refine ⟨_, rfl, rfl, rfl, rfl, fun h => ?_⟩
  have hclean := h rfl
  have hbounds := (hclean _ (List.mem_cons_self ..)).1 _ (List.mem_cons_self ..)
  exact absurd hbounds.1 (by decide)

end Media2.PacketReader

import Media2.Segmenter

/-!
# Calls that throw

A caller that catches what `process` throws goes on with the segmenter as the exception
left it. The stream is remembered and the first segment is installed before the packet is
found unfit, so that the next call takes the empty segment for one that was begun. And a
segmenter that is flushed or destroyed before its first segment sends a null pointer.
-/

namespace Media2.Segmenter

open Execution

/-- The calls on a segmenter, of which the destructor is the last. -/
inductive Call
  | process (packet : Packet) (stream : Option StreamData)
  | flush
  | destroy
  deriving DecidableEq

/-- A call that threw, with the segmenter before and after it. -/
structure Failure where
  before : Segmenter
  after : Segmenter
  deriving DecidableEq

/-- A segmenter whose caller catches exceptions, with the calls so far, what was sent and
the calls that threw. It has ended after the destructor or a null dereference. -/
structure Trial where
  segmenter : Segmenter
  calls : List Call
  sent : List Emission
  failures : List Failure
  ended : Bool
  deriving DecidableEq

namespace Trial

def start (jobId : Uuid) (nframes : Nat) : Trial where
  segmenter := Segmenter.create jobId nframes
  calls := []
  sent := []
  failures := []
  ended := false

/-- What a call does to the segmenter. -/
def outcome (mem : Segment.Unassigned) (t : Trial) : Call → Outcome
  | .process packet stream => t.segmenter.process mem packet stream
  | .flush | .destroy => t.segmenter.flush

/-- The failures with one that may have come now. A null dereference is no exception. -/
def failuresAfter (t : Trial) (o : Outcome) : List Failure :=
  match o.thrown with
  | none | some .nullDereference => t.failures
  | some _ => t.failures ++ [⟨t.segmenter, o.state⟩]

def after (t : Trial) (c : Call) (o : Outcome) : Trial where
  segmenter := o.state
  calls := t.calls ++ [c]
  sent := t.sent ++ o.emitted
  failures := t.failuresAfter o
  ended := c = .destroy || o.thrown = some .nullDereference

def step (mem : Segment.Unassigned) (t : Trial) (c : Call) : Option Trial :=
  if t.ended then none else some (t.after c (t.outcome mem c))

end Trial

/-- The segment begins with a key packet. -/
def StartsWithKey (seg : Segment) : Prop :=
  ∃ key rest, seg.packets = key :: rest ∧ key.containsIFrame = true

/-- What becomes of a packet. -/
inductive Processed (mem : Segment.Unassigned) (s : Segmenter) (packet : Packet) :
    Option StreamData → Outcome → Prop
  | noStream (hcur : s.currentSegment = none) :
      Processed mem s packet none ⟨s, [], some (.runtimeError "Stream is missing parameters.")⟩
  | noParameters (data : StreamData) (hcur : s.currentSegment = none)
      (hparam : data.parameters = none) :
      Processed mem s packet (some data) ⟨s.keepStream (some data), [],
        some (.runtimeError "Stream is missing parameters.")⟩
  | unfit (data : StreamData) (seg : Segment) (hcur : s.currentSegment = none)
      (hparam : data.parameters ≠ none) (hvideo : data.mediaType = AVMediaType.video)
      (hkey : packet.containsIFrame = false) :
      Processed mem s packet (some data) ⟨{ s.keepStream (some data) with
          currentSegment := some seg }, [],
        some (.runtimeError "First packet in stream is not an IFrame.")⟩
  | first (data : StreamData) (seg : Segment) (frames : Nat) (hcur : s.currentSegment = none)
      (hparam : data.parameters ≠ none) (hpackets : seg.packets = [packet])
      (hkey : data.mediaType = AVMediaType.video → packet.containsIFrame = true) :
      Processed mem s packet (some data) ⟨{ s.keepStream (some data) with
          currentSegment := some seg, currentFrames := frames }, [], none⟩
  | died (seg : Segment) (hcur : s.currentSegment = some seg) :
      Processed mem s packet none ⟨s, [], some .nullDereference⟩
  | cut (data : StreamData) (seg seg' : Segment) (hcur : s.currentSegment = some seg)
      (hpackets : seg'.packets = [packet])
      (hkey : data.mediaType = AVMediaType.video → packet.containsIFrame = true) :
      Processed mem s packet (some data) ⟨{ s.keepStream (some data) with
          currentSegment := some seg', currentFrames := 1 }, [⟨some seg, some data⟩], none⟩
  | kept (data : StreamData) (seg seg' : Segment) (frames : Nat)
      (hcur : s.currentSegment = some seg) (hpackets : seg'.packets = seg.packets ++ [packet]) :
      Processed mem s packet (some data) ⟨{ s.keepStream (some data) with
          currentSegment := some seg', currentFrames := frames }, [], none⟩

@[simp] theorem keepStream_none (s : Segmenter) : s.keepStream none = s := by
  obtain ⟨jobId, nframes, frames, seg, stream⟩ := s
  cases stream <;> rfl

/-- A stream that comes is remembered, or one was remembered before. -/
theorem keepStream_some (s : Segmenter) (data : StreamData) :
    (s.keepStream (some data)).stream ≠ none := by
  unfold keepStream
  split
  · simp
  · rename_i hstream
    simp [hstream]

/-- The stream is the only thing that is remembered. -/
theorem keepStream_eq_iff (s : Segmenter) (data : StreamData) :
    s.keepStream (some data) = s ↔ s.stream ≠ none := by
  constructor
  · intro h
    rw [← h]
    exact keepStream_some s data
  · intro h
    unfold keepStream
    split
    · rename_i hnone
      exact absurd hnone h
    · rfl

theorem firstSegment_packets (mem : Segment.Unassigned) (s : Segmenter) (data : StreamData)
    (parameters : AVCodecParameters) : (s.firstSegment mem data parameters).packets = [] := by
  unfold firstSegment
  cases data.stream <;> rfl

theorem process_processed (mem : Segment.Unassigned) (s : Segmenter) (packet : Packet)
    (stream : Option StreamData) :
    Processed mem s packet stream (s.process mem packet stream) := by
  cases hcur : s.currentSegment with
  | none =>
      cases stream with
      | none =>
          simp only [process, keepStream_none, hcur]
          exact Processed.noStream hcur
      | some data =>
          cases hparam : data.parameters with
          | none =>
              simp only [process, keepStream_currentSegment, hcur, hparam]
              exact Processed.noParameters data hcur hparam
          | some parameters =>
              have hsome : data.parameters ≠ none := by simp [hparam]
              simp only [process, keepStream_currentSegment, hcur, hparam]
              split
              · rename_i hbad
                exact Processed.unfit data _ hcur hsome hbad.1 hbad.2
              · rename_i hok
                apply Processed.first data _ _ hcur hsome
                · rw [Segment.append_packets, firstSegment_packets]
                  rfl
                · intro hvideo
                  by_contra hkey
                  exact hok ⟨hvideo, by simpa using hkey⟩
  | some seg =>
      cases stream with
      | none =>
          simp only [process, keepStream_none, hcur]
          exact Processed.died seg hcur
      | some data =>
          simp only [process, keepStream_currentSegment, hcur]
          split
          · rename_i hcut
            refine Processed.cut data seg _ hcur rfl fun hvideo => ?_
            simpa [cutsBefore, hvideo] using hcut
          · exact Processed.kept data seg _ _ hcur rfl

theorem step_after {mem : Segment.Unassigned} {t t' : Trial} {c : Call}
    (h : t.step mem c = some t') : t.ended = false ∧ t' = t.after c (t.outcome mem c) := by
  rw [Trial.step, Option.ite_none_left_eq_some] at h
  exact ⟨by simpa using h.1, (Option.some.inj h.2).symm⟩

theorem step_eq {t : Trial} (hended : t.ended = false) (mem : Segment.Unassigned) (c : Call) :
    t.step mem c = some (t.after c (t.outcome mem c)) := by
  rw [Trial.step, hended]
  rfl

/-- `process` was called with the parameters of a stream. -/
def Fed (calls : List Call) : Prop :=
  ∃ packet data, Call.process packet (some data) ∈ calls ∧ data.parameters ≠ none

/-- Every listener was given a segment and a stream. -/
def Dereferenceable (t : Trial) : Prop :=
  ∀ e ∈ t.sent, e.segment ≠ none ∧ e.stream ≠ none

/-- A flush and the destructor come after a call of `process` that had stream parameters. -/
def FlushesFed (t : Trial) (c : Call) : Prop :=
  t.ended = false → c = .flush ∨ c = .destroy → Fed t.calls

theorem fed_mono {calls : List Call} (h : Fed calls) (c : Call) : Fed (calls ++ [c]) := by
  obtain ⟨packet, data, hmem, hparam⟩ := h
  exact ⟨packet, data, List.mem_append_left _ hmem, hparam⟩

theorem fed_process {data : StreamData} (hparam : data.parameters ≠ none) (calls : List Call)
    (packet : Packet) : Fed (calls ++ [.process packet (some data)]) :=
  ⟨packet, data, List.mem_append_right _ (List.mem_singleton_self _), hparam⟩

/-- Other calls do not count. -/
theorem fed_of_snoc {calls : List Call} {c : Call} (h : Fed (calls ++ [c]))
    (hc : ∀ packet data, c = .process packet (some data) → data.parameters = none) :
    Fed calls := by
  obtain ⟨packet, data, hmem, hparam⟩ := h
  cases List.mem_append.mp hmem with
  | inl hold => exact ⟨packet, data, hold, hparam⟩
  | inr hnew => exact absurd (hc packet data (List.mem_singleton.mp hnew).symm) hparam

/-- There is a segment once stream parameters came, and then there is a stream too. -/
structure Begun (t : Trial) : Prop where
  segment : t.segmenter.currentSegment ≠ none ↔ Fed t.calls
  stream : t.segmenter.currentSegment ≠ none → t.segmenter.stream ≠ none
  sent : Dereferenceable t

section Steps

variable {mem : Segment.Unassigned} {t t' : Trial} {c : Call}

theorem dereferenceable_after {o : Outcome} (h : Dereferenceable t)
    (hnew : ∀ e ∈ o.emitted, e.segment ≠ none ∧ e.stream ≠ none) :
    Dereferenceable (t.after c o) := by
  exact List.forall_mem_append.mpr ⟨h, hnew⟩

theorem Begun.process (h : Begun t) {packet : Packet} {stream : Option StreamData} {o : Outcome}
    (ho : Processed mem t.segmenter packet stream o) :
    Begun (t.after (.process packet stream) o) := by
  have hnothing : ∀ e ∈ ([] : List Emission), e.segment ≠ none ∧ e.stream ≠ none := by simp
  cases ho with
  | noStream hcur =>
      refine ⟨?_, h.stream, dereferenceable_after h.sent hnothing⟩
      refine h.segment.trans ⟨fun hfed => fed_mono hfed _, fun hfed => ?_⟩
      exact fed_of_snoc hfed fun _ _ heq => by cases heq
  | noParameters data hcur hparam =>
      refine ⟨?_, fun _ => keepStream_some _ data, dereferenceable_after h.sent hnothing⟩
      simp only [Trial.after, keepStream_currentSegment]
      refine h.segment.trans ⟨fun hfed => fed_mono hfed _, fun hfed => ?_⟩
      apply fed_of_snoc hfed
      rintro _ _ ⟨⟩
      exact hparam
  | unfit data seg hcur hparam =>
      refine ⟨?_, fun _ => keepStream_some _ data, dereferenceable_after h.sent hnothing⟩
      exact ⟨fun _ => fed_process hparam _ _, fun _ => by simp [Trial.after]⟩
  | first data seg frames hcur hparam =>
      refine ⟨?_, fun _ => keepStream_some _ data, dereferenceable_after h.sent hnothing⟩
      exact ⟨fun _ => fed_process hparam _ _, fun _ => by simp [Trial.after]⟩
  | died seg hcur =>
      refine ⟨?_, h.stream, dereferenceable_after h.sent hnothing⟩
      refine h.segment.trans ⟨fun hfed => fed_mono hfed _, fun hfed => ?_⟩
      exact fed_of_snoc hfed fun _ _ heq => by cases heq
  | cut data seg seg' hcur =>
      refine ⟨?_, fun _ => keepStream_some _ data, dereferenceable_after h.sent ?_⟩
      · have hfed := h.segment.mp (by simp [hcur])
        exact ⟨fun _ => fed_mono hfed _, fun _ => by simp [Trial.after]⟩
      · simp
  | kept data seg seg' frames hcur =>
      refine ⟨?_, fun _ => keepStream_some _ data, dereferenceable_after h.sent hnothing⟩
      have hfed := h.segment.mp (by simp [hcur])
      exact ⟨fun _ => fed_mono hfed _, fun _ => by simp [Trial.after]⟩

theorem Begun.flush (h : Begun t) (hfed : Fed t.calls) :
    Begun (t.after c t.segmenter.flush) := by
  have hsegment := h.segment.mpr hfed
  refine ⟨⟨fun _ => fed_mono hfed _, fun _ => hsegment⟩, h.stream,
    dereferenceable_after h.sent ?_⟩
  intro e he
  rw [List.mem_singleton.mp he]
  exact ⟨hsegment, h.stream hsegment⟩

theorem step_begun (h : Begun t) (hok : FlushesFed t c) (hstep : t.step mem c = some t') :
    Begun t' := by
  obtain ⟨hended, rfl⟩ := step_after hstep
  cases c with
  | process packet stream => exact h.process (process_processed mem _ packet stream)
  | flush => exact h.flush (hok hended (Or.inl rfl))
  | destroy => exact h.flush (hok hended (Or.inr rfl))

/-- A flush without a segment sends a null pointer. -/
theorem flushesFed_of_next (h : Begun t)
    (hnext : ∀ t', t.step mem c = some t' → Dereferenceable t') : FlushesFed t c := by
  intro hended hc
  apply h.segment.mp
  have hlast : ⟨t.segmenter.currentSegment, t.segmenter.stream⟩ ∈
      (t.after c (t.outcome mem c)).sent := by
    apply List.mem_append_right
    rcases hc with rfl | rfl <;> exact List.mem_singleton_self _
  exact (hnext _ (step_eq hended mem c) _ hlast).1

end Steps

theorem start_begun (jobId : Uuid) (nframes : Nat) : Begun (Trial.start jobId nframes) where
  segment := ⟨fun h => absurd rfl h, fun ⟨_, _, hmem, _⟩ => absurd hmem List.not_mem_nil⟩
  stream := fun h => absurd rfl h
  sent := fun _ he => absurd he List.not_mem_nil

/-- In a run every segment sent can be dereferenced, and its stream too, if and only if the
flushes and the destructor come after a call of `process` that had stream parameters. -/
theorem dereferenceable_iff (mem : Segment.Unassigned) (jobId : Uuid) (nframes : Nat)
    (calls : List Call) :
    Always (Trial.step mem) Dereferenceable (Trial.start jobId nframes) calls ↔
      Guarded (Trial.step mem) FlushesFed (Trial.start jobId nframes) calls := by
  apply always_iff_guarded (I := Begun) _ _ _ (start_begun jobId nframes)
  · exact fun t c _ t' h hok hstep => step_begun h hok hstep
  · exact fun t h => h.sent
  · exact fun t c _ h hnext => flushesFed_of_next h hnext

/-- A segmenter that is destroyed before it was fed sends two null pointers. -/
theorem null_segment_sent :
    ∃ t, exec (Trial.step Segment.Unassigned.zero) (Trial.start Uuid.null 250) [.destroy] = some t ∧
      t.sent = [⟨none, none⟩] ∧ ¬ Dereferenceable t := by
  refine ⟨_, rfl, rfl, fun h => ?_⟩
  exact (h _ (List.mem_singleton_self _)).1 rfl

/-- The streams that came are video streams. -/
def AllVideo (calls : List Call) : Prop :=
  ∀ packet data, Call.process packet (some data) ∈ calls → data.mediaType = AVMediaType.video

/-- The calls that threw have changed nothing, and the segments sent of a video stream start
with a key packet. -/
structure Unharmed (t : Trial) : Prop where
  unchanged : ∀ f ∈ t.failures, f.after = f.before
  keyed : AllVideo t.calls → ∀ e ∈ t.sent, ∀ seg ∈ e.segment, StartsWithKey seg

/-- As long as there is no segment, `process` is given parameters with every stream, and a
key packet on a video stream. -/
def StartsFit (t : Trial) (c : Call) : Prop :=
  ∀ packet data, t.ended = false → c = .process packet (some data) →
    t.segmenter.currentSegment = none → data.parameters ≠ none ∧
      (data.mediaType = AVMediaType.video → packet.containsIFrame = true)

/-- A segment that was begun starts with a key packet too, and none was begun while no stream
is remembered. -/
structure Whole (t : Trial) : Prop extends Unharmed t where
  fresh : t.segmenter.currentSegment = none → t.segmenter.stream = none
  started : AllVideo t.calls → ∀ seg ∈ t.segmenter.currentSegment, StartsWithKey seg

theorem startsWithKey_singleton {seg : Segment} {packet : Packet} (h : seg.packets = [packet])
    (hkey : packet.containsIFrame = true) : StartsWithKey seg :=
  ⟨packet, [], h, hkey⟩

theorem StartsWithKey.snoc {seg seg' : Segment} {packet : Packet} (h : StartsWithKey seg)
    (hpackets : seg'.packets = seg.packets ++ [packet]) : StartsWithKey seg' := by
  obtain ⟨key, rest, hseg, hkey⟩ := h
  exact ⟨key, rest ++ [packet], by rw [hpackets, hseg, List.cons_append], hkey⟩

theorem AllVideo.of_snoc {calls : List Call} {c : Call} (h : AllVideo (calls ++ [c])) :
    AllVideo calls := fun packet data hmem => h packet data (List.mem_append_left _ hmem)

theorem AllVideo.last {calls : List Call} {packet : Packet} {data : StreamData}
    (h : AllVideo (calls ++ [.process packet (some data)])) :
    data.mediaType = AVMediaType.video :=
  h packet data (List.mem_append_right _ (List.mem_singleton_self _))

section Steps

variable {mem : Segment.Unassigned} {t t' : Trial} {c : Call}

/-- A call that does not throw, or leaves everything as it was, and sends segments that start
with a key packet. -/
theorem Unharmed.after (h : Unharmed t) {o : Outcome}
    (hthrown : o.thrown = none ∨ o.state = t.segmenter)
    (hsent : AllVideo (t.calls ++ [c]) → ∀ e ∈ o.emitted, ∀ seg ∈ e.segment, StartsWithKey seg) :
    Unharmed (t.after c o) where
  unchanged := by
    intro f hf
    simp only [Trial.after, Trial.failuresAfter] at hf
    split at hf
    · exact h.unchanged f hf
    · exact h.unchanged f hf
    · rename_i hsome
      cases List.mem_append.mp hf with
      | inl hold => exact h.unchanged f hold
      | inr hnew =>
          rw [List.mem_singleton.mp hnew]
          cases hthrown with
          | inl hnone => cases hnone.symm.trans hsome
          | inr hsame => exact hsame
  keyed := by
    intro hvideo e he
    cases List.mem_append.mp he with
    | inl hold => exact h.keyed hvideo.of_snoc e hold
    | inr hnew => exact hsent hvideo e hnew

theorem Whole.process (h : Whole t) {packet : Packet} {stream : Option StreamData} {o : Outcome}
    (hended : t.ended = false) (hok : StartsFit t (.process packet stream))
    (ho : Processed mem t.segmenter packet stream o) :
    Whole (t.after (.process packet stream) o) := by
  cases ho with
  | noStream hcur =>
      refine ⟨h.toUnharmed.after (Or.inr rfl) (by simp), h.fresh, ?_⟩
      exact fun hvideo => h.started hvideo.of_snoc
  | noParameters data hcur hparam =>
      exact absurd hparam (hok packet data hended rfl hcur).1
  | unfit data seg hcur hparam hvideo hkey =>
      have htrue := (hok packet data hended rfl hcur).2 hvideo
      rw [hkey] at htrue
      cases htrue
  | first data seg frames hcur hparam hpackets hkey =>
      refine ⟨h.toUnharmed.after (Or.inl rfl) (by simp), by simp [Trial.after], ?_⟩
      intro hvideo seg' hseg
      obtain rfl := Option.some.inj hseg
      exact startsWithKey_singleton hpackets (hkey hvideo.last)
  | died seg hcur =>
      refine ⟨h.toUnharmed.after (Or.inr rfl) (by simp), h.fresh, ?_⟩
      exact fun hvideo => h.started hvideo.of_snoc
  | cut data seg seg' hcur hpackets hkey =>
      refine ⟨h.toUnharmed.after (Or.inl rfl) ?_, by simp [Trial.after], ?_⟩
      · intro hvideo e he seg₁ hseg
        rw [List.mem_singleton.mp he] at hseg
        obtain rfl := Option.some.inj hseg
        exact h.started hvideo.of_snoc seg hcur
      · intro hvideo seg₁ hseg
        obtain rfl := Option.some.inj hseg
        exact startsWithKey_singleton hpackets (hkey hvideo.last)
  | kept data seg seg' frames hcur hpackets =>
      refine ⟨h.toUnharmed.after (Or.inl rfl) (by simp), by simp [Trial.after], ?_⟩
      intro hvideo seg₁ hseg
      obtain rfl := Option.some.inj hseg
      exact (h.started hvideo.of_snoc seg hcur).snoc hpackets

theorem Whole.flush (h : Whole t) : Whole (t.after c t.segmenter.flush) := by
  refine ⟨h.toUnharmed.after (Or.inl rfl) ?_, h.fresh, fun hvideo => h.started hvideo.of_snoc⟩
  intro hvideo e he
  rw [List.mem_singleton.mp he]
  exact h.started hvideo.of_snoc

theorem step_whole (h : Whole t) (hok : StartsFit t c) (hstep : t.step mem c = some t') :
    Whole t' := by
  obtain ⟨hended, rfl⟩ := step_after hstep
  cases c with
  | process packet stream => exact h.process hended hok (process_processed mem _ packet stream)
  | flush => exact h.flush
  | destroy => exact h.flush

/-- A call that throws without a segment has changed the segmenter, unless it was given no
stream. -/
theorem startsFit_of_next (h : Whole t)
    (hnext : ∀ t', t.step mem c = some t' → Unharmed t') : StartsFit t c := by
  rintro packet data hended rfl hcur
  have hunharmed := hnext _ (step_eq hended mem _)
  have hlast : ∀ what, (t.segmenter.process mem packet (some data)).thrown =
      some (.runtimeError what) →
      (t.segmenter.process mem packet (some data)).state = t.segmenter := by
    intro what hthrown
    apply hunharmed.unchanged ⟨t.segmenter, (t.segmenter.process mem packet (some data)).state⟩
    simp [Trial.after, Trial.failuresAfter, Trial.outcome, hthrown]
  have ho := process_processed mem t.segmenter packet (some data)
  generalize t.segmenter.process mem packet (some data) = o at ho hlast
  cases ho with
  | noParameters _ _ hparam =>
      have hsame := hlast _ rfl
      exact absurd (h.fresh hcur) ((keepStream_eq_iff _ data).mp hsame)
  | unfit _ seg _ hparam hvideo hkey =>
      have hsame := congrArg Segmenter.currentSegment (hlast _ rfl)
      rw [hcur] at hsame
      cases hsame
  | first _ _ _ _ hparam _ hkey => exact ⟨hparam, hkey⟩
  | cut _ seg _ hsome =>
      rw [hcur] at hsome
      cases hsome
  | kept _ seg _ _ hsome =>
      rw [hcur] at hsome
      cases hsome

end Steps

theorem start_whole (jobId : Uuid) (nframes : Nat) : Whole (Trial.start jobId nframes) where
  unchanged := fun _ hf => absurd hf List.not_mem_nil
  keyed := fun _ _ he => absurd he List.not_mem_nil
  fresh := fun _ => rfl
  started := fun _ _ hseg => by cases hseg

/-- In a run whose caller catches exceptions, no call that throws changes the segmenter and
the segments of a video stream start with a key packet, if and only if every stream comes
with its parameters, and a video stream with a key packet, while there is no segment. -/
theorem unharmed_iff (mem : Segment.Unassigned) (jobId : Uuid) (nframes : Nat)
    (calls : List Call) :
    Always (Trial.step mem) Unharmed (Trial.start jobId nframes) calls ↔
      Guarded (Trial.step mem) StartsFit (Trial.start jobId nframes) calls := by
  apply always_iff_guarded (I := Whole) _ _ _ (start_whole jobId nframes)
  · exact fun t c _ t' h hok hstep => step_whole h hok hstep
  · exact fun t h => h.toUnharmed
  · exact fun t c _ h hnext => startsFit_of_next h hnext

/-- A video stream starts with two packets that are no key packets. -/
def unfitCalls : List Call :=
  [.process Packet.create (some StreamData.sampleVideo),
    .process Packet.create (some StreamData.sampleVideo), .destroy]

theorem unfitCalls_video : AllVideo unfitCalls := by
  intro packet data hmem
  simp only [unfitCalls, List.mem_cons, Call.process.injEq, Option.some.injEq, reduceCtorEq,
    List.not_mem_nil, or_false] at hmem
  rcases hmem with ⟨-, rfl⟩ | ⟨-, rfl⟩ <;> rfl

/-- The first one throws and leaves an empty segment. The second one is appended to it, and
that segment is sent. -/
theorem unfit_segment_sent :
    ∃ t, exec (Trial.step Segment.Unassigned.zero) (Trial.start Uuid.null 250) unfitCalls = some t ∧
      t.failures.map (fun f => f.after == f.before) = [false] ∧ ¬ Unharmed t := by
  refine ⟨_, rfl, by decide, fun h => ?_⟩
  obtain ⟨key, rest, hpackets, hkey⟩ :=
    h.keyed unfitCalls_video _ (List.mem_singleton_self _) _ rfl
  obtain rfl : Packet.create = key := (List.cons.inj hpackets).1
  exact absurd hkey (by decide)

end Media2.Segmenter

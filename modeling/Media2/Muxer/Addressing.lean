import Media2.Muxer.Subscription

/-!
# Frames and output streams

The output streams of a container have to be there before its header is written, and a frame
names one of them. The muxer refuses streams once it has attempted the header, and numbers its
packets before it buffers them, so this holds in every run, whatever libav refuses.
-/

namespace Media2.Muxer

open Execution

/-- The streams that libav has made so far, and how many there were when the header was last
attempted. -/
structure Layout where
  streams : Nat
  header : Option Nat
  deriving DecidableEq

def Layout.after (l : Layout) (e : Entry) : Layout :=
  match e.call with
  | .newStream => if 0 ≤ e.rc then { l with streams := l.streams + 1 } else l
  | .writeHeader => { l with header := some l.streams }
  | .writeTrailer => { l with header := none }
  | _ => l

def layout (log : List Entry) : Layout := log.foldl Layout.after ⟨0, none⟩

/-- The packet names one of the first `k` streams. -/
def Names (packet : Packet) (k : Nat) : Prop :=
  ∃ i < k, packet.val.streamIndex = Int32.ofNat i

/-- A frame names a stream that was there at the header, and none is made between the header
and the trailer. -/
def Layout.Admits (l : Layout) (e : Entry) : Prop :=
  match e.call with
  | .writeFrame packet => ∃ k, l.header = some k ∧ Names packet k
  | .newStream => l.header = none
  | _ => True

def Addressed (log : List Entry) : Prop :=
  ∀ pre e, pre ++ [e] <+: log → (layout pre).Admits e

theorem layout_snoc (log : List Entry) (e : Entry) :
    layout (log ++ [e]) = (layout log).after e := List.foldl_append

theorem Names.mono {packet : Packet} {k k' : Nat} (h : Names packet k) (hle : k ≤ k') :
    Names packet k' := by
  obtain ⟨i, hi, hindex⟩ := h
  exact ⟨i, Nat.lt_of_lt_of_le hi hle, hindex⟩

theorem Addressed.snoc {log : List Entry} {e : Entry} (h : Addressed log)
    (he : (layout log).Admits e) : Addressed (log ++ [e]) := by
  intro pre e' hpre
  rcases List.prefix_concat_iff.mp hpre with heq | hold
  · obtain ⟨rfl, hlast⟩ := List.append_inj' heq rfl
    obtain rfl := (List.cons.inj hlast).1
    exact he
  · exact h pre e' hold

/-- The log is addressed and says of the streams what the muxer says; all that is buffered
names one of them. -/
structure Laid (m : Muxer) : Prop where
  addressed : Addressed m.log
  streams : (layout m.log).streams = m.nbStreams
  header : (layout m.log).header = if m.streamStart then none else some m.nbStreams
  infos : ∀ info ∈ m.streaminfo, ∀ output, info.stream = some output →
    output.index < m.nbStreams
  buffered : ∀ packet ∈ m.buffer, Names packet m.nbStreams

/-- Calls that neither make a stream nor write. -/
def Call.Unrelated (call : Call) : Prop :=
  ∀ (l : Layout) rc state, l.after ⟨call, rc, state⟩ = l ∧ l.Admits ⟨call, rc, state⟩

theorem unrelated_avioOpen : Call.Unrelated .avioOpen := fun _ _ _ => ⟨rfl, trivial⟩
theorem unrelated_avioClosep : Call.Unrelated .avioClosep := fun _ _ _ => ⟨rfl, trivial⟩
theorem unrelated_alloc : Call.Unrelated .allocOutputContext := fun _ _ _ => ⟨rfl, trivial⟩
theorem unrelated_opened : Call.Unrelated .opened := fun _ _ _ => ⟨rfl, trivial⟩
theorem unrelated_nullFrame : Call.Unrelated .writeNullFrame := fun _ _ _ => ⟨rfl, trivial⟩
theorem unrelated_taken (packet : Packet) : Call.Unrelated (.taken packet) :=
  fun _ _ _ => ⟨rfl, trivial⟩

section Operations

variable {libav : Libavformat} {m : Muxer}

theorem Laid.note (h : Laid m) {call : Call} (hcall : call.Unrelated) (rc : Int) :
    Laid (m.note call rc) := by
  obtain ⟨hafter, hadmits⟩ := hcall (layout m.log) rc m.state
  have hlayout : layout (m.note call rc).log = layout m.log := (layout_snoc _ _).trans hafter
  refine ⟨h.addressed.snoc hadmits, ?_, ?_, h.infos, h.buffered⟩
  · rw [hlayout]
    exact h.streams
  · rw [hlayout]
    exact h.header

theorem Laid.setState (h : Laid m) (state : States) : Laid { m with state := state } :=
  ⟨h.addressed, h.streams, h.header, h.infos, h.buffered⟩

/-- A frame of the muxer's own is written after the header. -/
theorem Laid.frame (h : Laid m) (hstart : m.streamStart = false) {packet : Packet}
    (hpacket : Names packet m.nbStreams) (rc : Int) : Laid (m.note (.writeFrame packet) rc) := by
  have hheader := h.header
  rw [hstart, if_neg (by simp)] at hheader
  have hlayout : layout (m.note (.writeFrame packet) rc).log = layout m.log := layout_snoc _ _
  refine ⟨h.addressed.snoc ⟨m.nbStreams, hheader, hpacket⟩, ?_, ?_, h.infos, h.buffered⟩
  · rw [hlayout]
    exact h.streams
  · rw [hlayout]
    exact h.header

/-- An attempt of the header, successful or not, is one for the streams there are. -/
theorem Laid.attempt (h : Laid m) (rc : Int) :
    Laid ({ m with streamStart := false }.note .writeHeader rc) := by
  have hlayout : layout (m.log ++ [⟨.writeHeader, rc, m.state⟩]) =
      { layout m.log with header := some (layout m.log).streams } := layout_snoc _ _
  refine ⟨h.addressed.snoc trivial, ?_, ?_, h.infos, h.buffered⟩
  · rw [note_log, hlayout]
    exact h.streams
  · rw [note_log, hlayout, h.streams]
    rfl

/-- Taking a packet off the buffer and writing it, whatever libav makes of it. -/
theorem wrote_laid (h : Laid m) {packet : Packet} (hpacket : Names packet m.nbStreams)
    {packets : List Packet} (hpackets : packets ⊆ m.buffer) {ok : Bool} {entries : List Entry}
    (hw : Written libav m.state packet m.streamStart ok entries) :
    Laid (m.wrote packet packets entries) := by
  have htaken : Laid (note { m with buffer := packets } (.taken packet) 0) := by
    apply Laid.note _ (unrelated_taken packet)
    exact ⟨h.addressed, h.streams, h.header, h.infos, fun p hp => h.buffered p (hpackets hp)⟩
  cases hstart : m.streamStart with
  | false =>
      rw [hstart] at hw
      cases hw with
      | frame rc hrc =>
          have hframe := htaken.frame hstart hpacket rc
          have heq : m.wrote packet packets [⟨.writeFrame packet, rc, m.state⟩] =
              (note { m with buffer := packets } (.taken packet) 0).note (.writeFrame packet) rc := by
            simp [wrote, Muxer.note, hstart]
          rw [heq]
          exact hframe
  | true =>
      rw [hstart] at hw
      cases hw with
      | headerFailed rc hrc hneg =>
          have heq : m.wrote packet packets [⟨.writeHeader, rc, m.state⟩] =
              { note { m with buffer := packets } (.taken packet) 0 with
                streamStart := false }.note .writeHeader rc := by
            simp [wrote, Muxer.note]
          rw [heq]
          exact htaken.attempt rc
      | both rc rc' hrc hrc' hpos =>
          have heq : m.wrote packet packets [⟨.writeHeader, rc, m.state⟩,
              ⟨.writeFrame packet, rc', m.state⟩] =
              ({ note { m with buffer := packets } (.taken packet) 0 with
                streamStart := false }.note .writeHeader rc).note (.writeFrame packet) rc' := by
            simp [wrote, Muxer.note]
          rw [heq]
          exact (htaken.attempt rc).frame rfl hpacket rc'

variable (libav) in
theorem flush_laid (h : Laid m) : Laid (m.flush libav).2 := by
  apply flush_rule libav (I := Laid) (J := fun _ m' => Laid m') _ _ h
  · intro m' packet packets ok entries hI hbuffer hw
    have hnext : Laid (m'.wrote packet packets entries) := by
      refine wrote_laid hI (hI.buffered packet ?_) ?_ hw
      · rw [hbuffer]
        exact List.mem_cons_self ..
      · rw [hbuffer]
        exact List.subset_cons_self packet packets
    split <;> exact hnext
  · exact fun m' hI _ => hI

theorem enter_laid (h : Laid m) {arrival : Arrival} (hnames : Names arrival.packet m.nbStreams) :
    Laid (m.enter libav arrival).2 := by
  have hall : ∀ packet ∈ m.buffer ++ [arrival.packet], Names packet m.nbStreams := by
    intro packet hmem
    rcases List.mem_append.mp hmem with hold | hnew
    · exact h.buffered packet hold
    · exact List.mem_singleton.mp hnew ▸ hnames
  rcases enter_cases libav m arrival with ⟨-, heq⟩ | ⟨-, front, rest, entries, hfront, hw, heq⟩
  · rw [heq]
    exact ⟨h.addressed, h.streams, h.header, h.infos, hall⟩
  · rw [heq]
    rw [hfront] at hall
    have hfull : Laid { m with buffer := front :: rest } :=
      ⟨h.addressed, h.streams, h.header, h.infos, hall⟩
    exact wrote_laid hfull (hall front (List.mem_cons_self ..)) (List.subset_cons_self front rest)
      hw

variable (libav) in
theorem process_laid (h : Laid m) {i : Nat} {info : StreamInfo}
    (hinfo : m.streaminfo[i]? = some info) (packet : Packet) (stream : Option StreamData) :
    Laid (m.process libav i info packet stream).2 := by
  unfold process
  rcases arrive_cases m i info packet stream with ⟨-, herror⟩ | ⟨info', output, hout, hindex, hok⟩
  · rw [herror]
    exact h
  · rw [hok]
    obtain ⟨output', hout', hsame⟩ := Option.map_eq_some_iff.mp hindex
    have hless : output.index < m.nbStreams :=
      hsame ▸ h.infos info (List.mem_of_getElem? hinfo) output' hout'
    refine enter_laid ?_ ⟨output.index, hless, rfl⟩
    refine ⟨h.addressed, h.streams, h.header, ?_, h.buffered⟩
    intro info'' hmem output'' hout''
    rcases List.mem_or_eq_of_mem_set hmem with hold | rfl
    · exact h.infos info'' hold output'' hout''
    · obtain rfl := Option.some.inj (hout.symm.trans hout'')
      exact hless

variable (libav) in
theorem openOutput_laid (h : Laid m) : Laid (m.openOutput libav).2 := by
  unfold openOutput
  split
  · exact h
  · split
    · exact (h.setState .opened).note unrelated_opened 0
    · have hasked := h.note unrelated_avioOpen (libav.rc m.log .avioOpen)
      dsimp only [ask]
      split
      · exact hasked.setState .error
      · exact (hasked.setState .opened).note unrelated_opened 0

/-- Once no header is open, the output can be closed and counts as fresh. -/
theorem Laid.closed (h : Laid { m with streamStart := true }) :
    Laid { (if libav.noFile then m else (m.ask libav .avioClosep).2) with
      state := .closed, streamStart := true } := by
  split
  · exact ⟨h.addressed, h.streams, h.header, h.infos, h.buffered⟩
  · have hclosed := h.note unrelated_avioClosep (libav.rc m.log .avioClosep)
    exact ⟨hclosed.addressed, hclosed.streams, hclosed.header, h.infos, h.buffered⟩

/-- The trailer leaves no header open. -/
theorem Laid.trailer (h : Laid m) (rc rc' : Int) : Laid
    { (m.note .writeNullFrame rc).note .writeTrailer rc' with streamStart := true } := by
  have hnull := h.note unrelated_nullFrame rc
  have hlayout : layout ((m.note .writeNullFrame rc).note .writeTrailer rc').log =
      { layout (m.note .writeNullFrame rc).log with header := none } := layout_snoc _ _
  refine ⟨hnull.addressed.snoc trivial, ?_, ?_, h.infos, h.buffered⟩
  · change (layout ((m.note .writeNullFrame rc).note .writeTrailer rc').log).streams = _
    rw [hlayout]
    exact hnull.streams
  · change (layout ((m.note .writeNullFrame rc).note .writeTrailer rc').log).header = _
    rw [hlayout]
    rfl

theorem closeOutput_laid (h : Laid m) : Laid (m.closeOutput libav) := by
  unfold closeOutput
  split
  · cases hstart : m.streamStart with
    | true =>
        have hheader := h.header
        rw [hstart] at hheader
        exact Laid.closed ⟨h.addressed, h.streams, hheader, h.infos, h.buffered⟩
    | false => exact Laid.closed (h.trailer _ _)
  · exact h

variable (libav) in
theorem close_laid (h : Laid m) : Laid (m.close libav).2 := by
  have hflush := flush_laid libav h
  rcases close_cases libav m with ⟨e, -, hclose⟩ | ⟨-, hclose⟩
  · rw [hclose]
    exact hflush
  · rw [hclose]
    exact closeOutput_laid hflush

/-- A stream is made while no header is open. After a null dereference only the log is left to
speak of. -/
theorem subscribe_laid (h : Laid m) (source : Stream) :
    Addressed (m.subscribe libav source).2.log ∧
      (fatal (m.subscribe libav source).1 = false → Laid (m.subscribe libav source).2) := by
  unfold subscribe
  split
  · exact ⟨h.addressed, fun _ => h⟩
  · rename_i hlate
    have hstart : m.streamStart = true := by simpa using hlate
    have hheader : (layout m.log).header = none := by
      have hheader := h.header
      rwa [if_pos hstart] at hheader
    cases source.data with
    | none => exact ⟨h.addressed, fun hfatal => absurd hfatal (by simp [fatal])⟩
    | some data =>
        have haddressed : Addressed (m.log ++ [⟨.newStream, libav.rc m.log .newStream, m.state⟩]) :=
          h.addressed.snoc hheader
        have hlayout := layout_snoc m.log ⟨.newStream, libav.rc m.log .newStream, m.state⟩
        dsimp only [ask]
        split
        · rename_i hneg
          have hsame : layout (m.log ++ [⟨.newStream, libav.rc m.log .newStream, m.state⟩]) =
              layout m.log := hlayout.trans (if_neg (Int.not_le.mpr hneg))
          refine ⟨haddressed, fun _ => ⟨haddressed, ?_, ?_, ?_, h.buffered⟩⟩
          · exact (congrArg Layout.streams hsame).trans h.streams
          · exact (congrArg Layout.header hsame).trans h.header
          · intro info hmem output hout
            rcases List.mem_append.mp hmem with hold | hnew
            · exact h.infos info hold output hout
            · obtain rfl := List.mem_singleton.mp hnew
              cases hout
        · rename_i hpos
          have hmade : layout (m.log ++ [⟨.newStream, libav.rc m.log .newStream, m.state⟩]) =
              { layout m.log with streams := (layout m.log).streams + 1 } :=
            hlayout.trans (if_pos (Int.not_lt.mp hpos))
          cases data.parameters with
          | none => exact ⟨haddressed, fun hfatal => absurd hfatal (by simp [fatal])⟩
          | some parameters =>
              refine ⟨haddressed, fun _ => ⟨haddressed, ?_, ?_, ?_, ?_⟩⟩
              · exact (congrArg Layout.streams hmade).trans (congrArg (· + 1) h.streams)
              · exact (congrArg Layout.header hmade).trans (hheader.trans (if_pos hstart).symm)
              · intro info hmem output hout
                rcases List.mem_append.mp hmem with hold | hnew
                · exact Nat.lt_succ_of_lt (h.infos info hold output hout)
                · obtain rfl := List.mem_singleton.mp hnew
                  rw [← Option.some.inj hout]
                  exact Nat.lt_succ_self _
              · exact fun packet hmem => (h.buffered packet hmem).mono (Nat.le_succ _)

theorem create_laid {filename format : String} {bufferMax : Int64} {m : Muxer}
    (h : create libav filename format bufferMax = .ok m) : Laid m := by
  have hinitial : Laid (initial filename bufferMax) := by
    refine ⟨fun pre e hpre => ?_, rfl, rfl, by rintro info ⟨⟩, by rintro packet ⟨⟩⟩
    exact absurd (List.prefix_nil.mp hpre) (by simp)
  rw [create_cases libav h]
  exact openOutput_laid _ (hinitial.note unrelated_alloc _)

end Operations

namespace Session

variable {libav : Libavformat}

theorem step_laid {s t : Session} {op : Op}
    (hs : Addressed s.muxer.log ∧ (s.ended = false → Laid s.muxer))
    (h : s.step libav op = some t) :
    Addressed t.muxer.log ∧ (t.ended = false → Laid t.muxer) := by
  unfold step at h
  split at h
  · cases h
  · rename_i hended
    have hlaid := hs.2 (Bool.eq_false_iff.mpr hended)
    cases op with
    | subscribe source =>
        rw [← Option.some.inj h]
        exact subscribe_laid hlaid source
    | process i packet stream =>
        obtain ⟨info, hinfo, rfl⟩ := Option.map_eq_some_iff.mp h
        have hprocess := process_laid libav hlaid hinfo packet stream
        exact ⟨hprocess.addressed, fun _ => hprocess⟩
    | flush =>
        rw [← Option.some.inj h]
        have hflush := flush_laid libav hlaid
        exact ⟨hflush.addressed, fun _ => hflush⟩
    | openOutput =>
        rw [← Option.some.inj h]
        have hopen := openOutput_laid libav hlaid
        exact ⟨hopen.addressed, fun _ => hopen⟩
    | close =>
        rw [← Option.some.inj h]
        have hclose := close_laid libav hlaid
        exact ⟨hclose.addressed, fun _ => hclose⟩
    | destroy =>
        rw [← Option.some.inj h]
        exact ⟨(close_laid libav hlaid).addressed, fun _ => close_laid libav hlaid⟩

/-- In every run, whatever calls of libav fail, each frame that is handed to libav names an
output stream that was made before the header of its output was attempted, and no stream is
made between a header and its trailer. -/
theorem addressed_of_exec {filename format : String} {bufferMax : Int64} {m : Muxer}
    (hcreate : create libav filename format bufferMax = .ok m) (ops : List Op) (s : Session)
    (hexec : exec (step libav) (start m) ops = some s) : Addressed s.muxer.log := by
  have hinv : Addressed s.muxer.log ∧ (s.ended = false → Laid s.muxer) :=
    invariant_of_step (I := fun s => Addressed s.muxer.log ∧ (s.ended = false → Laid s.muxer))
      (fun _ _ _ => step_laid) ⟨(create_laid hcreate).addressed, fun _ => create_laid hcreate⟩ hexec
  exact hinv.1

theorem addressed_of_exec_sample :
    ∃ s, exec (step Libavformat.sample) (start sampleMuxer) sampleOps = some s ∧
      Addressed s.muxer.log := by
  have hcreate : create Libavformat.sample "sample.mp4" "" 0 = .ok sampleMuxer := rfl
  exact ⟨_, rfl, addressed_of_exec hcreate sampleOps _ rfl⟩

end Session

end Media2.Muxer

import Media2.Foundation.Execution
import Media2.Muxer

/-!
# The container protocol

A container format asks for a header, then frames, then one trailer. Whether the muxer
keeps to this is read off the log. `streamStart` turns false before the header is known
to be written, and `write` does not look at the state, so the protocol is kept in those
runs that write nothing but to an open output whose header did not fail.
-/

namespace Media2.Muxer

open Execution

/-- The state of the container since the output was last opened: whether a header was
written, whether a trailer was written after it, and whether a packet is about to be
written that wants the header first. -/
structure Container where
  header : Bool
  trailer : Bool
  due : Bool
  deriving DecidableEq

def Container.after (c : Container) (e : Entry) : Container :=
  match e.call with
  | .opened => ⟨false, false, false⟩
  | .taken _ => { c with due := !c.header }
  | .writeHeader => if 0 ≤ e.rc then ⟨true, false, false⟩ else { c with due := false }
  | .writeTrailer => { c with trailer := true }
  | _ => c

def container (log : List Entry) : Container := log.foldl Container.after ⟨false, false, false⟩

/-- What the protocol asks of the next call: a header that is due is attempted, nothing is
written while the muxer is not open, frames and trailers come after a header that was
written, and one trailer is enough. -/
structure Container.Admits (c : Container) (e : Entry) : Prop where
  attempted : c.due = true → e.call = .writeHeader
  opened : e.call.isWrite = true → e.state = .opened
  headed : e.call.isWrite = true → e.call = .writeHeader ∨ c.header = true
  once : e.call = .writeTrailer → c.trailer = false

/-- Every entry of the log is one that the protocol admits. -/
def Lawful (log : List Entry) : Prop :=
  ∀ pre e, pre ++ [e] <+: log → (container pre).Admits e

theorem container_snoc (log : List Entry) (e : Entry) :
    container (log ++ [e]) = (container log).after e := List.foldl_append

theorem Lawful.mono {log log' : List Entry} (h : Lawful log') (hp : log <+: log') :
    Lawful log := fun pre e hpre => h pre e (hpre.trans hp)

theorem lawful_snoc {log : List Entry} {e : Entry} :
    Lawful (log ++ [e]) ↔ Lawful log ∧ (container log).Admits e := by
  constructor
  · intro h
    exact ⟨h.mono (List.prefix_append _ _), h log e (List.prefix_refl _)⟩
  · intro h pre e' hpre
    cases List.prefix_concat_iff.mp hpre with
    | inl heq =>
        obtain ⟨rfl, hlast⟩ := List.append_inj' heq rfl
        obtain rfl := (List.cons.inj hlast).1
        exact h.2
    | inr hold => exact h.1 pre e' hold

inductive Op
  | subscribe (source : Stream)
  | process (i : Nat) (packet : Packet) (stream : Option StreamData)
  | flush
  | openOutput
  | close
  | destroy

/-- A muxer, and whether its life is over. -/
structure Session where
  muxer : Muxer
  ended : Bool

namespace Session

def start (m : Muxer) : Session := ⟨m, false⟩

/-- One operation. The caller may go on after an exception, but not after the destructor,
which may not throw. -/
def step (libav : Libavformat) (s : Session) (op : Op) : Option Session :=
  if s.ended then none
  else
    match op with
    | .subscribe source =>
        let (outcome, m) := s.muxer.subscribe libav source
        some ⟨m, fatal outcome⟩
    | .process i packet stream =>
        s.muxer.streaminfo[i]?.map fun info =>
          let (outcome, m) := s.muxer.process libav i info packet stream
          ⟨m, fatal outcome⟩
    | .flush => some ⟨(s.muxer.flush libav).2, false⟩
    | .openOutput => some ⟨(s.muxer.openOutput libav).2, false⟩
    | .close => some ⟨(s.muxer.close libav).2, false⟩
    | .destroy => some ⟨(s.muxer.close libav).2, true⟩

/-- The operation takes a packet off the buffer to write it. -/
def writes (s : Session) : Op → Bool
  | .process i _ _ =>
      (s.muxer.outputIndex i).isSome && decide (s.muxer.limit ≤ s.muxer.buffer.length)
  | .flush | .close | .destroy => !s.muxer.buffer.isEmpty
  | _ => false

end Session

/-- The operation goes on to close the output. -/
def Op.closes : Op → Bool
  | .close | .destroy => true
  | _ => false

/-- The header was attempted since the output was opened, and not written. -/
def HeaderFailed (m : Muxer) : Prop :=
  m.state = .opened ∧ m.streamStart = false ∧ (container m.log).header = false

/-- A packet may be written. -/
def Ready (m : Muxer) : Prop := m.state = .opened ∧ ¬ m.HeaderFailed

/-- Nothing is written unless the output is open and its header has not failed, and after
a failed header it is not closed either. -/
def Session.Careful (s : Session) (op : Op) : Prop :=
  s.ended = false →
    (s.writes op = true → s.muxer.Ready) ∧ (op.closes = true → ¬ s.muxer.HeaderFailed)

/-- The log is lawful, and `streamStart` means what it should. -/
structure Orderly (m : Muxer) : Prop where
  lawful : Lawful m.log
  settled : (container m.log).due = false
  fresh : m.state = .opened → m.streamStart = true → (container m.log).header = false
  running : m.state = .opened → m.streamStart = false →
    (container m.log).header = true → (container m.log).trailer = false
  idle : m.state ≠ .opened → m.streamStart = true

/-- Calls that the protocol does not speak of. -/
def Call.Neutral (call : Call) : Prop :=
  call.isWrite = false ∧ ∀ (c : Container) rc state, c.after ⟨call, rc, state⟩ = c

theorem neutral_newStream : Call.Neutral .newStream := ⟨rfl, fun _ _ _ => rfl⟩
theorem neutral_avioOpen : Call.Neutral .avioOpen := ⟨rfl, fun _ _ _ => rfl⟩
theorem neutral_avioClosep : Call.Neutral .avioClosep := ⟨rfl, fun _ _ _ => rfl⟩
theorem neutral_alloc : Call.Neutral .allocOutputContext := ⟨rfl, fun _ _ _ => rfl⟩

/-- A call that is no write is admitted when no header is due. -/
theorem admits_of_not_write {c : Container} {e : Entry} (hdue : c.due = false)
    (he : e.call.isWrite = false) : c.Admits e where
  attempted := by
    intro h
    rw [hdue] at h
    cases h
  opened := by
    intro h
    rw [he] at h
    cases h
  headed := by
    intro h
    rw [he] at h
    cases h
  once := by
    intro h
    rw [h] at he
    cases he

/-- A call that the protocol does not speak of is admitted and changes nothing. -/
theorem Call.Neutral.lawful {call : Call} (hcall : call.Neutral) {log : List Entry}
    (hlawful : Lawful log) (hdue : (container log).due = false) (rc : Int) (state : States) :
    Lawful (log ++ [⟨call, rc, state⟩]) ∧ container (log ++ [⟨call, rc, state⟩]) = container log :=
  ⟨lawful_snoc.mpr ⟨hlawful, admits_of_not_write hdue hcall.1⟩, by rw [container_snoc, hcall.2]⟩

theorem Orderly.neutral {m : Muxer} (h : m.Orderly) {call : Call} (hcall : call.Neutral)
    (rc : Int) : (m.note call rc).Orderly := by
  obtain ⟨hlawful, hcontainer⟩ := hcall.lawful h.lawful h.settled rc m.state
  constructor
  · exact hlawful
  · rw [note, hcontainer]
    exact h.settled
  · rw [note, hcontainer]
    exact h.fresh
  · rw [note, hcontainer]
    exact h.running
  · exact h.idle

section Operations

variable {libav : Libavformat} {m : Muxer}

theorem subscribe_orderly (h : m.Orderly) (source : Stream) :
    (m.subscribe libav source).2.Orderly := by
  have hsame : ∀ {m : Muxer}, m.Orderly → ∀ streaminfo nbStreams,
      Orderly { m with streaminfo := streaminfo, nbStreams := nbStreams } :=
    fun h _ _ => ⟨h.lawful, h.settled, h.fresh, h.running, h.idle⟩
  unfold subscribe
  split
  · exact h
  · cases source.data with
    | none => exact hsame h _ m.nbStreams
    | some data =>
        have hasked := h.neutral neutral_newStream (libav.rc m.log .newStream)
        dsimp only [ask]
        split
        · exact hsame hasked _ m.nbStreams
        · cases data.parameters with
          | none => exact hsame hasked _ m.nbStreams
          | some parameters => exact hsame hasked _ (m.nbStreams + 1)

/-- Opening starts over. -/
theorem Orderly.reopened (h : m.Orderly) (hstart : m.streamStart = true) :
    (note { m with state := .opened } .opened 0).Orderly := by
  have hcontainer : container (note { m with state := .opened } .opened 0).log =
      ⟨false, false, false⟩ := container_snoc _ _
  constructor
  · exact lawful_snoc.mpr ⟨h.lawful, admits_of_not_write h.settled rfl⟩
  · rw [hcontainer]
  · rw [hcontainer]
    exact fun _ _ => rfl
  · rw [hcontainer]
    exact fun _ _ _ => rfl
  · exact fun _ => hstart

theorem openOutput_orderly (h : m.Orderly) : (m.openOutput libav).2.Orderly := by
  unfold openOutput
  split
  · exact h
  · rename_i hstate
    have hstart := h.idle hstate
    split
    · exact h.reopened hstart
    · have hasked := h.neutral neutral_avioOpen (libav.rc m.log .avioOpen)
      dsimp only [ask]
      split
      · exact ⟨hasked.lawful, hasked.settled, by simp, by simp, fun _ => hstart⟩
      · exact hasked.reopened hstart

/-- A container whose header was just written, or that had one, admits frames. -/
theorem admits_frame {c : Container} {e : Entry} (hdue : c.due = false) (hheader : c.header = true)
    (hstate : e.state = .opened) (hframe : e.call ≠ .writeTrailer) : c.Admits e where
  attempted := by
    intro h
    rw [hdue] at h
    cases h
  opened := fun _ => hstate
  headed := fun _ => Or.inr hheader
  once := fun h => absurd h hframe

theorem admits_header {c : Container} {e : Entry} (hcall : e.call = .writeHeader)
    (hstate : e.state = .opened) : c.Admits e where
  attempted := fun _ => hcall
  opened := fun _ => hstate
  headed := fun _ => Or.inl hcall
  once := by
    intro h
    rw [hcall] at h
    cases h

/-- After the mark the header is due, if the container has none. -/
theorem container_taken (log : List Entry) (packet : Packet) (state : States) :
    container (log ++ [⟨.taken packet, 0, state⟩]) =
      { container log with due := !(container log).header } := container_snoc _ _

/-- A write to an open output keeps to the protocol if it either attempts the header or
has a header before it. -/
theorem Written.lawful {libav : Libavformat} {log entries : List Entry} {front : Packet} {start ok : Bool}
    (hw : Written libav .opened front start ok entries) (hlawful : Lawful log)
    (hdue : (container log).due = false) (hstart : (container log).header = !start)
    (htrailer : start = false → (container log).trailer = false) :
    ∃ c, container (log ++ ⟨.taken front, 0, .opened⟩ :: entries) = c ∧
      Lawful (log ++ ⟨.taken front, 0, .opened⟩ :: entries) ∧
      c.due = false ∧ (c.header = true → c.trailer = false) ∧ (ok = true → c.header = true) := by
  have hmark : Lawful (log ++ [⟨.taken front, 0, .opened⟩]) :=
    lawful_snoc.mpr ⟨hlawful, admits_of_not_write hdue rfl⟩
  have hmarked := container_taken log front .opened
  generalize container log = c at hdue hstart htrailer hmarked
  obtain ⟨header, trailer, due⟩ := c
  cases hw with
  | frame rc hrc =>
      have hsplit : log ++ [⟨.taken front, 0, .opened⟩, ⟨.writeFrame front, rc, .opened⟩] =
          (log ++ [⟨.taken front, 0, .opened⟩]) ++ [⟨.writeFrame front, rc, .opened⟩] := by simp
      obtain rfl : header = true := hstart
      obtain rfl : trailer = false := htrailer rfl
      rw [hsplit, container_snoc, hmarked]
      refine ⟨_, rfl, lawful_snoc.mpr ⟨hmark, ?_⟩, rfl, fun _ => rfl, fun _ => rfl⟩
      rw [hmarked]
      exact admits_frame rfl rfl rfl (by simp)
  | headerFailed rc hrc hneg =>
      have hsplit : log ++ [⟨.taken front, 0, .opened⟩, ⟨.writeHeader, rc, .opened⟩] =
          (log ++ [⟨.taken front, 0, .opened⟩]) ++ [⟨.writeHeader, rc, .opened⟩] := by simp
      obtain rfl : header = false := hstart
      rw [hsplit, container_snoc, hmarked]
      have hafter : Container.after ⟨false, trailer, true⟩ ⟨.writeHeader, rc, .opened⟩ =
          ⟨false, trailer, false⟩ := if_neg (Int.not_le.mpr hneg)
      refine ⟨_, rfl, lawful_snoc.mpr ⟨hmark, admits_header rfl rfl⟩, ?_⟩
      simp [hafter]
  | both rc rc' hrc hrc' hpos =>
      have hsplit : log ++ [⟨.taken front, 0, .opened⟩, ⟨.writeHeader, rc, .opened⟩,
          ⟨.writeFrame front, rc', .opened⟩] = ((log ++ [⟨.taken front, 0, .opened⟩]) ++
            [⟨.writeHeader, rc, .opened⟩]) ++ [⟨.writeFrame front, rc', .opened⟩] := by simp
      have hheader : container ((log ++ [⟨.taken front, 0, .opened⟩]) ++
          [⟨.writeHeader, rc, .opened⟩]) = ⟨true, false, false⟩ := by
        rw [container_snoc]
        exact if_pos hpos
      rw [hsplit, container_snoc, hheader]
      refine ⟨_, rfl, lawful_snoc.mpr ⟨lawful_snoc.mpr ⟨hmark, admits_header rfl rfl⟩, ?_⟩,
        rfl, fun _ => rfl, fun _ => rfl⟩
      rw [hheader]
      exact admits_frame rfl rfl rfl (by simp)

/-- A write that is ready keeps order, and when it succeeds the next one is ready. -/
theorem wrote_orderly (h : m.Orderly) (hready : m.Ready) {front : Packet} {ok : Bool}
    {entries : List Entry} (hw : Written libav m.state front m.streamStart ok entries)
    (rest : List Packet) :
    (m.wrote front rest entries).Orderly ∧
      (ok = true → (m.wrote front rest entries).Ready) := by
  obtain ⟨hstate, hfailed⟩ := hready
  have hheader : (container m.log).header = !m.streamStart := by
    cases hstart : m.streamStart with
    | true => exact h.fresh hstate hstart
    | false =>
        by_contra hnone
        exact hfailed ⟨hstate, hstart, Bool.eq_false_iff.mpr hnone⟩
  have htrailer : m.streamStart = false → (container m.log).trailer = false := by
    intro hstart
    rw [hstart] at hheader
    exact h.running hstate hstart hheader
  rw [hstate] at hw
  obtain ⟨c, hcontainer, hlawful, hdue, hc, hok⟩ :=
    hw.lawful h.lawful h.settled hheader htrailer
  rw [← hstate] at hcontainer hlawful
  constructor
  · refine ⟨hlawful, hcontainer ▸ hdue, ?_, fun _ _ => hcontainer ▸ hc,
      fun hne => absurd hstate hne⟩
    intro _ hstart
    cases hstart
  · intro htrue
    refine ⟨hstate, fun hnone => ?_⟩
    have hwritten := hnone.2.2
    rw [wrote, hcontainer, hok htrue] at hwritten
    cases hwritten

theorem flush_orderly (h : m.Orderly) (hready : m.buffer ≠ [] → m.Ready) :
    (m.flush libav).2.Orderly ∧
      ((m.flush libav).1.isOk = true → ¬ m.HeaderFailed → ¬ (m.flush libav).2.HeaderFailed) := by
  apply flush_rule libav
    (I := fun m' => m'.Orderly ∧ (m'.buffer ≠ [] → m'.Ready) ∧
      (¬ m.HeaderFailed → ¬ m'.HeaderFailed))
    (J := fun ok m' => m'.Orderly ∧ (ok = true → ¬ m.HeaderFailed → ¬ m'.HeaderFailed)) _ _
    ⟨h, hready, id⟩
  · intro m' packet packets ok entries hI hbuffer hw
    obtain ⟨horderly, hready, -⟩ := hI
    have hnonempty : m'.buffer ≠ [] := by simp [hbuffer]
    obtain ⟨hnext, hok⟩ := wrote_orderly horderly (hready hnonempty) hw packets
    split
    · rename_i htrue
      exact ⟨hnext, fun _ => hok htrue, fun _ => (hok htrue).2⟩
    · exact ⟨hnext, by simp⟩
  · intro m' hI _
    exact ⟨hI.1, fun _ => hI.2.2⟩

/-- Once the output is closed it only matters that nothing is due. -/
theorem orderly_of_closed (hlawful : Lawful m.log) (hdue : (container m.log).due = false) :
    Orderly { m with state := .closed, streamStart := true } where
  lawful := hlawful
  settled := hdue
  fresh := by
    intro heq
    cases heq
  running := by
    intro heq
    cases heq
  idle := fun _ => rfl

/-- The last calls on an output whose header was written. -/
theorem Orderly.trailer (h : m.Orderly) (hstate : m.state = .opened)
    (hstart : m.streamStart = false) (hheader : (container m.log).header = true) (rc rc' : Int) :
    Lawful ((m.note .writeNullFrame rc).note .writeTrailer rc').log ∧
      (container ((m.note .writeNullFrame rc).note .writeTrailer rc').log).due = false := by
  have hnull : container (m.note .writeNullFrame rc).log = container m.log := container_snoc _ _
  have hlawful : Lawful (m.note .writeNullFrame rc).log :=
    lawful_snoc.mpr ⟨h.lawful, admits_frame h.settled hheader hstate (by simp)⟩
  constructor
  · apply lawful_snoc.mpr
    refine ⟨hlawful, ?_⟩
    rw [hnull]
    exact ⟨fun hdue => absurd hdue (by simp [h.settled]), fun _ => hstate,
      fun _ => Or.inr hheader, fun _ => h.running hstate hstart hheader⟩
  · rw [note_log, container_snoc, hnull]
    exact h.settled

theorem closeOutput_orderly (h : m.Orderly) (hfailed : ¬ m.HeaderFailed) :
    (m.closeOutput libav).Orderly := by
  have hclosed : ∀ m' : Muxer, Lawful m'.log ∧ (container m'.log).due = false →
      Orderly { (if libav.noFile then m' else (m'.ask libav .avioClosep).2) with
        state := .closed, streamStart := true } := by
    intro m' hm'
    split
    · exact orderly_of_closed hm'.1 hm'.2
    · obtain ⟨hlawful, hcontainer⟩ := neutral_avioClosep.lawful hm'.1 hm'.2
        (libav.rc m'.log .avioClosep) m'.state
      exact orderly_of_closed hlawful (hcontainer ▸ hm'.2)
  unfold closeOutput
  split
  · rename_i hstate
    cases hstart : m.streamStart with
    | true => exact hclosed m ⟨h.lawful, h.settled⟩
    | false =>
        have hheader : (container m.log).header = true := by
          by_contra hnone
          exact hfailed ⟨hstate, hstart, Bool.eq_false_iff.mpr hnone⟩
        exact hclosed _ (h.trailer hstate hstart hheader _ _)
  · exact h

theorem close_orderly (h : m.Orderly) (hready : m.buffer ≠ [] → m.Ready)
    (hfailed : ¬ m.HeaderFailed) : (m.close libav).2.Orderly := by
  obtain ⟨hflush, hok⟩ := @flush_orderly libav m h hready
  rcases close_cases libav m with ⟨e, -, hclose⟩ | ⟨hreturns, hclose⟩
  · rw [hclose]
    exact hflush
  · have hok := hok (by rw [hreturns]; rfl) hfailed
    rw [hclose]
    exact closeOutput_orderly hflush hok

theorem process_orderly (h : m.Orderly) {i : Nat} {info : StreamInfo}
    (hinfo : m.streaminfo[i]? = some info) (packet : Packet) (stream : Option StreamData)
    (hready : (m.outputIndex i).isSome = true → m.limit ≤ m.buffer.length → m.Ready) :
    (m.process libav i info packet stream).2.Orderly := by
  unfold process
  rcases arrive_cases m i info packet stream with
    ⟨-, herror⟩ | ⟨info', output, -, hindex, hok⟩
  · rw [herror]
    exact h
  · rw [hok]
    dsimp only
    have hsame : Orderly { m with streaminfo := m.streaminfo.set i info' } :=
      ⟨h.lawful, h.settled, h.fresh, h.running, h.idle⟩
    rcases enter_cases libav { m with streaminfo := m.streaminfo.set i info' }
      ⟨packet.setStreamIndex output.index, m.buffer.length < m.limit⟩ with
      ⟨-, heq⟩ | ⟨hroom, front, rest, entries, -, hw, heq⟩
    · rw [heq]
      exact ⟨h.lawful, h.settled, h.fresh, h.running, h.idle⟩
    · rw [heq]
      have hfull : m.limit ≤ m.buffer.length := Nat.not_lt.mp (of_decide_eq_false hroom)
      have howned : (m.outputIndex i).isSome = true := by
        rw [outputIndex, hinfo, Option.bind_some, hindex]
        rfl
      exact (wrote_orderly hsame (hready howned hfull) hw rest).1

/-- Without a header on an open output the first call of a write is not admitted. -/
theorem Written.unlawful (h : m.Orderly) (hready : ¬ m.Ready) {front : Packet} {ok : Bool}
    {entries : List Entry} (hw : Written libav m.state front m.streamStart ok entries) :
    ¬ Lawful (m.log ++ ⟨.taken front, 0, m.state⟩ :: entries) := by
  intro hlawful
  have hfirst : ∀ e rest, entries = e :: rest →
      (container (m.log ++ [⟨.taken front, 0, m.state⟩])).Admits e := by
    rintro e rest rfl
    apply hlawful
    exact ⟨rest, by simp⟩
  rw [container_taken] at hfirst
  by_cases hstate : m.state = .opened
  · have hfailed : m.HeaderFailed := by
      by_contra hnot
      exact hready ⟨hstate, hnot⟩
    rw [hfailed.2.1] at hw
    cases hw with
    | frame rc hrc =>
        cases (hfirst _ _ rfl).headed rfl with
        | inl hcall => cases hcall
        | inr hheader =>
            rw [hfailed.2.2] at hheader
            cases hheader
  · rw [h.idle hstate] at hw
    cases hw with
    | headerFailed rc hrc hneg => exact hstate ((hfirst _ _ rfl).opened rfl)
    | both rc rc' hrc hrc' hpos => exact hstate ((hfirst _ _ rfl).opened rfl)

theorem flush_extends (m : Muxer) : m.log <+: (m.flush libav).2.log := by
  apply flush_rule libav (I := fun m' => m.log <+: m'.log) (J := fun _ m' => m.log <+: m'.log) _ _
    (List.prefix_refl _)
  · intro m' packet packets ok entries hprefix _ _
    have hwrote : m.log <+: (m'.wrote packet packets entries).log :=
      hprefix.trans (List.prefix_append _ _)
    split <;> exact hwrote
  · exact fun m' hprefix _ => hprefix

/-- A flush that has something to write starts with the packet in front. -/
theorem flush_first (libav : Libavformat) {front : Packet} {rest : List Packet} (hbuffer : m.buffer = front :: rest) :
    ∃ ok entries, Written libav m.state front m.streamStart ok entries ∧
      (m.wrote front rest entries).log <+: (m.flush libav).2.log := by
  obtain ⟨entries, hw, heq⟩ := write_cases libav m front rest
  refine ⟨_, entries, hw, ?_⟩
  unfold flush
  rw [hbuffer, drain]
  cases hresult : { m with buffer := rest }.write libav front with
  | mk outcome m' =>
      rw [hresult] at heq
      obtain rfl : m' = m.wrote front rest entries := heq
      cases outcome with
      | error e => exact List.prefix_refl _
      | ok u => exact flush_extends (m.wrote front rest entries)

/-- What `close` calls first, on an open output. -/
theorem closeOutput_log (libav : Libavformat) (hstate : m.state = .opened) :
    (if !m.streamStart then ((m.ask libav .writeNullFrame).2.ask libav .writeTrailer).2
      else m).log <+: (m.closeOutput libav).log := by
  unfold closeOutput
  rw [if_pos hstate]
  dsimp only
  split <;> split
  · exact List.prefix_refl _
  · exact List.prefix_append _ _
  · exact List.prefix_refl _
  · exact List.prefix_append _ _

theorem closeOutput_extends (m : Muxer) : m.log <+: (m.closeOutput libav).log := by
  by_cases hstate : m.state = .opened
  · apply List.IsPrefix.trans _ (closeOutput_log libav hstate)
    split
    · exact (List.prefix_append _ _).trans (List.prefix_append _ _)
    · exact List.prefix_refl _
  · rw [closeOutput, if_neg hstate]

theorem close_extends (m : Muxer) : (m.flush libav).2.log <+: (m.close libav).2.log := by
  rcases close_cases libav m with ⟨e, -, hclose⟩ | ⟨-, hclose⟩
  · rw [hclose]
  · rw [hclose]
    exact closeOutput_extends (m.flush libav).2

/-- The trailer of a container without header is not admitted. -/
theorem closeOutput_unlawful (hfailed : m.HeaderFailed) : ¬ Lawful (m.closeOutput libav).log := by
  intro hlawful
  have hnull : m.log ++ [⟨.writeNullFrame, libav.rc m.log .writeNullFrame, m.state⟩] <+:
      (m.closeOutput libav).log := by
    have hlog := closeOutput_log libav hfailed.1
    rw [hfailed.2.1] at hlog
    exact (List.prefix_append _ _).trans hlog
  cases (hlawful _ _ hnull).headed rfl with
  | inl hcall => cases hcall
  | inr hheader =>
      rw [hfailed.2.2] at hheader
      cases hheader

theorem flush_unlawful (h : m.Orderly) (hready : ¬ m.Ready) (hbuffer : m.buffer ≠ []) :
    ¬ Lawful (m.flush libav).2.log := by
  obtain ⟨front, rest, hcons⟩ := List.exists_cons_of_ne_nil hbuffer
  obtain ⟨ok, entries, hw, hprefix⟩ := flush_first libav hcons
  intro hlawful
  exact hw.unlawful h hready (hlawful.mono hprefix)

theorem close_unlawful (h : m.Orderly) (hfailed : m.HeaderFailed) :
    ¬ Lawful (m.close libav).2.log := by
  by_cases hbuffer : m.buffer = []
  · have hclose : (m.close libav).2 = m.closeOutput libav := by
      rw [close, flush, hbuffer]
      rfl
    rw [hclose]
    exact closeOutput_unlawful hfailed
  · intro hlawful
    have hflush := hlawful.mono (close_extends m)
    exact flush_unlawful h (fun hready => hready.2 hfailed) hbuffer hflush

theorem process_unlawful (h : m.Orderly) (hready : ¬ m.Ready) {i : Nat} {info : StreamInfo}
    (hinfo : m.streaminfo[i]? = some info) (packet : Packet) (stream : Option StreamData)
    (howned : (m.outputIndex i).isSome = true) (hfull : m.limit ≤ m.buffer.length) :
    ¬ Lawful (m.process libav i info packet stream).2.log := by
  unfold process
  rcases arrive_cases m i info packet stream with
    ⟨hnone, -⟩ | ⟨info', output, -, hindex, hok⟩
  · rw [outputIndex, hinfo, Option.bind_some, hnone] at howned
    cases howned
  · rw [hok]
    dsimp only
    rcases enter_cases libav { m with streaminfo := m.streaminfo.set i info' }
      ⟨packet.setStreamIndex output.index, m.buffer.length < m.limit⟩ with
      ⟨hroom, -⟩ | ⟨-, front, rest, entries, -, hw, heq⟩
    · exact absurd (of_decide_eq_true hroom) (Nat.not_lt.mpr hfull)
    · rw [heq]
      exact hw.unlawful h hready

end Operations

namespace Session

variable {libav : Libavformat}

theorem step_orderly {s t : Session} {op : Op} (hs : s.muxer.Orderly) (hop : s.Careful op)
    (h : s.step libav op = some t) : t.muxer.Orderly := by
  unfold step at h
  split at h
  · cases h
  · rename_i hended
    obtain ⟨hwrites, hcloses⟩ := hop (Bool.eq_false_iff.mpr hended)
    cases op with
    | subscribe source =>
        rw [← Option.some.inj h]
        exact subscribe_orderly hs source
    | process i packet stream =>
        obtain ⟨info, hinfo, rfl⟩ := Option.map_eq_some_iff.mp h
        apply process_orderly hs hinfo packet stream
        intro howned hfull
        exact hwrites (by simp [writes, howned, hfull])
    | flush =>
        rw [← Option.some.inj h]
        exact (flush_orderly hs fun hne => hwrites (by simp [writes, hne])).1
    | openOutput =>
        rw [← Option.some.inj h]
        exact openOutput_orderly hs
    | close =>
        rw [← Option.some.inj h]
        exact close_orderly hs (fun hne => hwrites (by simp [writes, hne])) (hcloses rfl)
    | destroy =>
        rw [← Option.some.inj h]
        exact close_orderly hs (fun hne => hwrites (by simp [writes, hne])) (hcloses rfl)

/-- An operation after which the log is lawful was a careful one. -/
theorem careful_of_lawful {s : Session} {op : Op} (hs : s.muxer.Orderly)
    (h : ∀ t, s.step libav op = some t → Lawful t.muxer.log) : s.Careful op := by
  intro hended
  have hstep : ∀ t, s.step libav op = some t → Lawful t.muxer.log := h
  simp only [step, hended, Bool.false_eq_true, if_false] at hstep
  constructor
  · intro hwrites
    by_contra hready
    cases op with
    | subscribe source => cases hwrites
    | openOutput => cases hwrites
    | process i packet stream =>
        simp only [writes, Bool.and_eq_true, decide_eq_true_eq] at hwrites
        cases hinfo : s.muxer.streaminfo[i]? with
        | none =>
            rw [outputIndex, hinfo] at hwrites
            cases hwrites.1
        | some info =>
            dsimp only at hstep
            rw [hinfo] at hstep
            exact process_unlawful hs hready hinfo packet stream hwrites.1 hwrites.2
              (hstep _ rfl)
    | flush => exact flush_unlawful hs hready (by simpa [writes] using hwrites) (hstep _ rfl)
    | close =>
        have hlawful := (hstep _ rfl).mono (close_extends s.muxer)
        exact flush_unlawful hs hready (by simpa [writes] using hwrites) hlawful
    | destroy =>
        have hlawful := (hstep _ rfl).mono (close_extends s.muxer)
        exact flush_unlawful hs hready (by simpa [writes] using hwrites) hlawful
  · intro hcloses hfailed
    cases op with
    | close => exact close_unlawful hs hfailed (hstep _ rfl)
    | destroy => exact close_unlawful hs hfailed (hstep _ rfl)
    | subscribe source => cases hcloses
    | process i packet stream => cases hcloses
    | flush => cases hcloses
    | openOutput => cases hcloses

theorem create_orderly {filename format : String} {bufferMax : Int64} {m : Muxer}
    (h : create libav filename format bufferMax = .ok m) : m.Orderly := by
  have hinitial : (initial filename bufferMax).Orderly := by
    refine ⟨?_, rfl, fun _ _ => rfl, ?_, fun _ => rfl⟩
    · intro pre e hpre
      exact absurd (List.prefix_nil.mp hpre) (by simp)
    · intro _ hstart
      cases hstart
  rw [create_cases libav h]
  exact openOutput_orderly (hinitial.neutral neutral_alloc _)

/-- The protocol is kept throughout a run if and only if every operation of it is careful:
nothing is written unless the output is open and its header has not failed, and after a
failed header the output is not closed. -/
theorem lawful_iff_careful {filename format : String} {bufferMax : Int64} {m : Muxer}
    (hcreate : create libav filename format bufferMax = .ok m) (ops : List Op) :
    Always (step libav) (fun s => Lawful s.muxer.log) (start m) ops ↔
      Guarded (step libav) Careful (start m) ops :=
  always_iff_guarded (fun _ _ _ _ hs hop h => step_orderly hs hop h)
    (fun _ (hs : Orderly _) => hs.lawful)
    (fun _ _ _ hs h => careful_of_lawful hs h) (create_orderly hcreate)

/-- A stream is subscribed to, a packet is written, and one comes after the muxer was
closed. -/
def sampleOps : List Op :=
  [.subscribe ⟨0, some StreamData.sampleVideo⟩, .process 0 Packet.keyFrame none, .close,
    .process 0 Packet.keyFrame none]

/-- A muxer without a buffer. -/
def sampleMuxer : Muxer :=
  ((create Libavformat.sample "sample.mp4" "" 0).toOption).getD (initial "sample.mp4" 0)

/-- Where the run ends. -/
def sampleEnd : Session :=
  (exec (step Libavformat.sample) (start sampleMuxer) sampleOps).getD (start sampleMuxer)

/-- The late packet makes the muxer write a header to the closed output. -/
theorem late_packet_written :
    create Libavformat.sample "sample.mp4" "" 0 = .ok sampleMuxer ∧
      ¬ Always (step Libavformat.sample) (fun s => Lawful s.muxer.log) (start sampleMuxer)
        sampleOps := by
  refine ⟨rfl, fun h => ?_⟩
  have hlawful : Lawful sampleEnd.muxer.log := h sampleOps (List.prefix_refl _) sampleEnd rfl
  have hheader : sampleEnd.muxer.log.take 9 ++ [⟨.writeHeader, 0, .closed⟩] <+:
      sampleEnd.muxer.log := ⟨sampleEnd.muxer.log.drop 10, rfl⟩
  have hstate := (hlawful _ _ hheader).opened rfl
  cases hstate

theorem lawful_iff_careful_sample :
    Always (step Libavformat.sample) (fun s => Lawful s.muxer.log) (start sampleMuxer) sampleOps ↔
      Guarded (step Libavformat.sample) Careful (start sampleMuxer) sampleOps := by
  have hcreate : create Libavformat.sample "sample.mp4" "" 0 = .ok sampleMuxer := rfl
  exact lawful_iff_careful hcreate sampleOps

end Session

end Media2.Muxer

import Media2.Muxer.Buffer
import Media2.Muxer.Protocol

/-!
# Subscriptions that fail

`subscribe` connects a `StreamInfo` and keeps it before it asks libav for the output stream.
When libav has none, the caller gets an exception and the muxer has a `StreamInfo` without
output stream, on which the next packet of that stream is the end of the process.
-/

namespace Media2.Muxer

open Execution

namespace Session

/-- A subscription that throws leaves the `StreamInfo`s, and so what is connected, as they
were. -/
def Unchanged (libav : Libavformat) (s : Session) (op : Op) : Prop :=
  ∀ source what, op = .subscribe source → s.ended = false →
    (s.muxer.subscribe libav source).1 = failure what →
    (s.muxer.subscribe libav source).2.streaminfo = s.muxer.streaminfo

/-- Every `StreamInfo` has its output stream, and no call of `process` dereferences null. -/
structure Connected (libav : Libavformat) (s : Session) : Prop where
  stream : s.ended = false → ∀ info ∈ s.muxer.streaminfo, info.stream ≠ none
  process : s.ended = false → ∀ (i : Nat) info, s.muxer.streaminfo[i]? = some info →
    ∀ packet stream, fatal (s.muxer.process libav i info packet stream).1 = false

/-- libav makes an output stream whenever `subscribe` comes to ask for one. -/
def StreamMade (libav : Libavformat) (s : Session) (op : Op) : Prop :=
  ∀ source, op = .subscribe source → s.ended = false → s.muxer.streamStart = true →
    source.data ≠ none → 0 ≤ libav.rc s.muxer.log .newStream

end Session

/-- What becomes of a subscription. -/
inductive Subscribed (libav : Libavformat) (m : Muxer) (source : Stream) :
    Outcome → Muxer → Prop
  | late (hstart : m.streamStart = false) : Subscribed libav m source
      (failure "Can not add a new stream after muxer has written its header.") m
  | died (m' : Muxer) (hdied : source.data = none ∨ 0 ≤ libav.rc m.log .newStream) :
      Subscribed libav m source (.error (.fault .nullDereference)) m'
  | refused (m' : Muxer) (hstart : m.streamStart = true) (hdata : source.data ≠ none)
      (hrc : libav.rc m.log .newStream < 0)
      (hinfo : m'.streaminfo = m.streaminfo ++ [⟨source.id, none⟩]) :
      Subscribed libav m source (failure "Error creating new stream") m'
  | made (m' : Muxer) (stream : AVStream) (hrc : 0 ≤ libav.rc m.log .newStream)
      (hinfo : m'.streaminfo = m.streaminfo ++ [⟨source.id, some stream⟩]) :
      Subscribed libav m source (.ok ()) m'

section Operations

variable {libav : Libavformat} {m : Muxer}

theorem subscribe_subscribed (libav : Libavformat) (m : Muxer) (source : Stream) :
    Subscribed libav m source (m.subscribe libav source).1 (m.subscribe libav source).2 := by
  unfold subscribe
  split
  · rename_i hstart
    exact Subscribed.late (by simpa using hstart)
  · rename_i hstart
    have hstart : m.streamStart = true := by simpa using hstart
    cases hdata : source.data with
    | none => exact Subscribed.died _ (Or.inl hdata)
    | some data =>
        dsimp only [ask]
        split
        · rename_i hneg
          exact Subscribed.refused _ hstart (by simp [hdata]) hneg rfl
        · rename_i hneg
          cases data.parameters with
          | none => exact Subscribed.died _ (Or.inr (Int.not_lt.mp hneg))
          | some parameters => exact Subscribed.made _ _ (Int.not_lt.mp hneg) rfl

theorem writeFrame_alive (libav : Libavformat) (m : Muxer) (packet : Packet) :
    fatal (m.writeFrame libav packet).1 = false := by
  rw [writeFrame]
  dsimp only [ask]
  split
  · simp [fatal, failure]
  · simp [fatal]

theorem write_alive (libav : Libavformat) (m : Muxer) (packet : Packet) :
    fatal (m.write libav packet).1 = false := by
  rw [write]
  dsimp only [ask]
  split
  · split
    · simp [fatal, failure]
    · exact writeFrame_alive libav _ packet
  · exact writeFrame_alive libav _ packet

theorem enter_alive (libav : Libavformat) (m : Muxer) (arrival : Arrival) :
    fatal (m.enter libav arrival).1 = false := by
  rw [enter, Packet.copy_val]
  dsimp only
  split
  · simp [fatal]
  · split
    · rename_i hnil
      exact absurd hnil (List.append_ne_nil_of_right_ne_nil _ (List.cons_ne_nil _ _))
    · exact write_alive libav _ _

/-- A packet on a `StreamInfo` with an output stream does not end the process. -/
theorem process_alive (libav : Libavformat) (m : Muxer) (i : Nat) {info : StreamInfo}
    (hstream : info.stream ≠ none) (packet : Packet) (stream : Option StreamData) :
    fatal (m.process libav i info packet stream).1 = false ∧
      ∃ info' : StreamInfo, info'.stream ≠ none ∧
        (m.process libav i info packet stream).2.streaminfo = m.streaminfo.set i info' := by
  rw [process]
  rcases arrive_cases m i info packet stream with
    ⟨hnone, -⟩ | ⟨info', output, hstream', -, hok⟩
  · exact absurd hnone hstream
  · rw [hok]
    refine ⟨enter_alive libav _ _, info', by simp [hstream'], ?_⟩
    exact (enter_frame libav _ _).2.1

theorem closeOutput_streaminfo (libav : Libavformat) (m : Muxer) :
    (m.closeOutput libav).streaminfo = m.streaminfo := by
  unfold closeOutput
  split
  · split <;> split <;> rfl
  · rfl

theorem close_streaminfo (libav : Libavformat) (m : Muxer) :
    (m.close libav).2.streaminfo = m.streaminfo := by
  have hflush := (flush_frame libav m).2
  rcases close_cases libav m with ⟨e, -, hclose⟩ | ⟨-, hclose⟩
  · rw [hclose]
    exact hflush
  · rw [hclose, closeOutput_streaminfo]
    exact hflush

end Operations

namespace Session

variable {libav : Libavformat}

/-- What the muxer has kept has its output stream. -/
def Streamed (s : Session) : Prop :=
  s.ended = false → ∀ info ∈ s.muxer.streaminfo, info.stream ≠ none

theorem Streamed.connected {s : Session} (hs : s.Streamed) : Connected libav s where
  stream := hs
  process := by
    intro hended i info hinfo packet stream
    have hstream := hs hended info (List.mem_of_getElem? hinfo)
    exact (process_alive libav s.muxer i hstream packet stream).1

/-- A subscription that throws changes the muxer just when libav has no stream for it. -/
theorem unchanged_iff (s : Session) (op : Op) : Unchanged libav s op ↔ StreamMade libav s op := by
  constructor
  · rintro h source rfl hended hstart hdata
    have hkept := fun what => h source what rfl hended
    have hsubscribed := subscribe_subscribed libav s.muxer source
    generalize s.muxer.subscribe libav source = result at hkept hsubscribed
    obtain ⟨outcome, m'⟩ := result
    cases hsubscribed with
    | late hlate => exact Bool.noConfusion (hstart.symm.trans hlate)
    | died _ hdied => exact hdied.resolve_left hdata
    | refused _ _ _ _ hinfo =>
        have hsame := hkept _ rfl
        rw [hinfo] at hsame
        exact absurd hsame (by simp)
    | made _ stream hrc _ => exact hrc
  · rintro h source what rfl hended hthrows
    have hmade := h source rfl hended
    have hsubscribed := subscribe_subscribed libav s.muxer source
    generalize s.muxer.subscribe libav source = result at hthrows hsubscribed ⊢
    obtain ⟨outcome, m'⟩ := result
    cases hsubscribed with
    | late => rfl
    | died => cases hthrows
    | refused _ hstart hdata hrc _ => exact absurd hrc (Int.not_lt.mpr (hmade hstart hdata))
    | made => cases hthrows

/-- As long as libav makes the output streams, every `StreamInfo` gets its own. -/
theorem step_streamed {s t : Session} {op : Op} (hs : s.Streamed) (hop : StreamMade libav s op)
    (h : s.step libav op = some t) : t.Streamed := by
  intro halive
  unfold step at h
  split at h
  · cases h
  · rename_i hended
    have hstreams := hs (Bool.eq_false_iff.mpr hended)
    cases op with
    | subscribe source =>
        have hmade := hop source rfl (Bool.eq_false_iff.mpr hended)
        have hsubscribed := subscribe_subscribed libav s.muxer source
        dsimp only at h
        generalize s.muxer.subscribe libav source = result at h hsubscribed
        obtain ⟨outcome, m'⟩ := result
        obtain rfl := Option.some.inj h
        cases hsubscribed with
        | late => exact hstreams
        | died => cases halive
        | refused _ hstart hdata hrc _ => exact absurd hrc (Int.not_lt.mpr (hmade hstart hdata))
        | made _ stream _ hinfo =>
            rw [hinfo]
            refine List.forall_mem_append.mpr ⟨?_, ?_⟩
            · exact hstreams
            · simp
    | process i packet stream =>
        obtain ⟨info, hinfo, rfl⟩ := Option.map_eq_some_iff.mp h
        have hstream := hstreams info (List.mem_of_getElem? hinfo)
        obtain ⟨-, info', hstream', hset⟩ := process_alive libav s.muxer i hstream packet stream
        intro info'' hmem
        rw [hset] at hmem
        cases List.mem_or_eq_of_mem_set hmem with
        | inl hold => exact hstreams info'' hold
        | inr hnew => exact hnew ▸ hstream'
    | flush =>
        obtain rfl := Option.some.inj h
        rw [(flush_frame libav s.muxer).2]
        exact hstreams
    | openOutput =>
        obtain rfl := Option.some.inj h
        rw [openOutput_streaminfo]
        exact hstreams
    | close =>
        obtain rfl := Option.some.inj h
        rw [close_streaminfo]
        exact hstreams
    | destroy => exact Bool.noConfusion ((Option.some.inj h) ▸ halive)

/-- In a run all subscriptions that throw leave the muxer unchanged, and every `StreamInfo` that
is connected has its output stream, if and only if libav has an output stream for every
subscription that asks for one. -/
theorem unchanged_and_connected_iff {filename format : String} {bufferMax : Int64} {m : Muxer}
    (hcreate : create libav filename format bufferMax = .ok m) (ops : List Op) :
    (Guarded (step libav) (Unchanged libav) (start m) ops ∧
        Always (step libav) (Connected libav) (start m) ops) ↔
      Guarded (step libav) (StreamMade libav) (start m) ops := by
  have hstart : Streamed (start m) := by
    intro _ info hmem
    rw [start, (create_holding hcreate).2] at hmem
    cases hmem
  constructor
  · rintro ⟨h, -⟩ pre op hpre t ht
    exact (unchanged_iff t op).mp (h pre op hpre t ht)
  · intro h
    constructor
    · intro pre op hpre t ht
      exact (unchanged_iff t op).mpr (h pre op hpre t ht)
    · intro pre hpre t ht
      have hstreamed : t.Streamed := Guarded.invariant
        (fun _ _ _ hs hop hstep => step_streamed hs hop hstep) hstart (h.of_prefix hpre) ht
      exact hstreamed.connected

/-- A libav that has no output streams. -/
def streamless : Libavformat where
  noFile := true
  rc _ call := if call = .newStream then -1 else 0

/-- A muxer that is to write with it. -/
def streamlessMuxer : Muxer :=
  ((create streamless "sample.mp4" "" 300).toOption).getD (initial "sample.mp4" 300)

/-- A subscription that throws, and a packet of its stream. -/
def subscribeAndProcess : List Op :=
  [.subscribe ⟨0, some StreamData.sampleVideo⟩, .process 0 Packet.keyFrame none]

/-- The subscription is kept, and the packet makes `process` dereference null. -/
theorem refused_subscription_kept :
    create streamless "sample.mp4" "" 300 = .ok streamlessMuxer ∧
      (∃ s, exec (step streamless) (start streamlessMuxer) subscribeAndProcess = some s ∧
        s.muxer.streaminfo = [⟨0, none⟩] ∧ s.ended = true) ∧
      ¬ Guarded (step streamless) (Unchanged streamless) (start streamlessMuxer)
        subscribeAndProcess ∧
      ¬ Always (step streamless) (Connected streamless) (start streamlessMuxer)
        subscribeAndProcess := by
  refine ⟨rfl, ⟨_, rfl, rfl, rfl⟩, fun h => ?_, fun h => ?_⟩
  · have hkept := h [] _ (List.prefix_append _ _) _ rfl _ "Error creating new stream" rfl rfl rfl
    cases hkept
  · have hconnected := h (subscribeAndProcess.take 1) (List.take_prefix _ _) _ rfl
    exact hconnected.stream rfl _ (List.mem_singleton_self _) rfl

theorem unchanged_and_connected_iff_sample :
    (Guarded (step streamless) (Unchanged streamless) (start streamlessMuxer)
          subscribeAndProcess ∧
        Always (step streamless) (Connected streamless) (start streamlessMuxer)
          subscribeAndProcess) ↔
      Guarded (step streamless) (StreamMade streamless) (start streamlessMuxer)
        subscribeAndProcess := by
  have hcreate : create streamless "sample.mp4" "" 300 = .ok streamlessMuxer := rfl
  exact unchanged_and_connected_iff hcreate subscribeAndProcess

end Session

end Media2.Muxer

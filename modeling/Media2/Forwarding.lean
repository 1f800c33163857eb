import Media2.Decoder
import Media2.Muxer.Closing
import Media2.Segmenter.Failure

/-!
# Forwarding

A stream hands one packet to all its subscribers, in the order in which they subscribed. The
packet is not copied on the way: a muxer that writes the index of its output stream into it
writes it for the subscribers that are still to come. An exception leaves these out.

## Implementation notes

One step is one call of a subscriber, up to the end of the call. Other operations on a muxer
can come between two calls. Listeners of what a segmenter or a decoder sends return.
-/

namespace Media2

open Execution

/-- What is connected to a stream. A muxer is connected through one of its `StreamInfo`s. -/
inductive Subscriber
  | muxer (k i : Nat)
  | segmenter (k : Nat)
  | decoder (k : Nat)
  deriving DecidableEq

/-- A stream with its subscribers in order, and the libraries behind them. -/
structure Wiring (Frame : Type) where
  libav : Muxer.Libavformat
  lib : Libavcodec Frame
  mem : Segment.Unassigned
  stream : Stream
  subscribers : List Subscriber

/-- The objects, the packet as it is now, and the subscribers that it has still to be handed to.
The last three fields record what was forwarded, as it was then, what each call of a subscriber
was given, and whether the process has died. -/
structure Forwarding {Frame : Type} (w : Wiring Frame) where
  muxers : List Muxer
  segmenters : List Segmenter.Session
  decoders : List (List Frame × Decoder.Contexts w.lib)
  packet : Packet
  pending : List Subscriber
  forwarded : List Packet
  observed : List (Subscriber × Packet)
  crashed : Bool

namespace Forwarding

variable {Frame : Type} {w : Wiring Frame}

inductive Label
  | forward (packet : Packet)
  | call
  | operate (k : Nat) (op : Muxer.Op)

def start (w : Wiring Frame) (muxers : List Muxer) (segmenters : List Segmenter.Session)
    (decoders : List (List Frame × Decoder.Contexts w.lib)) : Forwarding w :=
  ⟨muxers, segmenters, decoders, Packet.create, [], [], [], false⟩

/-- The signal goes on to the next subscriber after a call that returns. -/
def after (s : Forwarding w) (outcome : Muxer.Outcome) : Forwarding w :=
  match outcome with
  | .ok _ => s
  | .error _ => { s with pending := [], crashed := Muxer.fatal outcome }

/-- What a call of `Segmenter::process` throws. -/
def outcomeOf (o : Segmenter.Outcome) : Muxer.Outcome :=
  match o.thrown with
  | none => .ok ()
  | some e => .error (.fault e)

/-- A segmenter is given a packet. -/
def feed (w : Wiring Frame) (session : Segmenter.Session) (packet : Packet) : Segmenter.Session :=
  let o := session.segmenter.process w.mem packet w.stream.data
  ⟨o.state, session.sent ++ o.emitted⟩

/-- `process` of the subscriber in front. -/
def call (s : Forwarding w) (subscriber : Subscriber) (rest : List Subscriber) :
    Option (Forwarding w) :=
  let s := { s with pending := rest, observed := s.observed ++ [(subscriber, s.packet)] }
  match subscriber with
  | .muxer k i =>
      s.muxers[k]?.bind fun m => m.streaminfo[i]?.map fun info =>
        match m.arrive i info s.packet w.stream.data with
        | .error e => s.after (.error e)
        | .ok (m, arrival) =>
            let (outcome, m) := m.enter w.libav arrival
            { s with muxers := s.muxers.set k m, packet := arrival.packet }.after outcome
  | .segmenter k =>
      s.segmenters[k]?.map fun session =>
        { s with segmenters := s.segmenters.set k (feed w session s.packet) }.after
          (outcomeOf (session.segmenter.process w.mem s.packet w.stream.data))
  | .decoder k =>
      s.decoders[k]?.map fun (frames, used) =>
        let (frames', used) := Decoder.process w.lib used (w.stream.forward s.packet)
        { s with decoders := s.decoders.set k (frames ++ frames', used) }

/-- Another operation on a muxer. One that is destroyed is connected no more. -/
def operate (s : Forwarding w) (k : Nat) (op : Muxer.Op) : Option (Forwarding w) :=
  match op with
  | .destroy => none
  | op =>
      s.muxers[k]?.bind fun m => ((Muxer.Session.start m).step w.libav op).map fun session =>
        { s with muxers := s.muxers.set k session.muxer, crashed := session.ended }

def step (s : Forwarding w) (l : Label) : Option (Forwarding w) :=
  if s.crashed then none
  else
    match l with
    | .forward packet =>
        if s.pending = [] then
          some { s with
            packet := packet
            pending := w.subscribers
            forwarded := s.forwarded ++ [packet] }
        else none
    | .call =>
        match s.pending with
        | [] => none
        | subscriber :: rest => s.call subscriber rest
    | .operate k op => s.operate k op

/-- Every subscriber is called with every packet, as it was forwarded. -/
def due (w : Wiring Frame) (packets : List Packet) : List (Subscriber × Packet) :=
  packets.flatMap fun packet => w.subscribers.map fun subscriber => (subscriber, packet)

/-- What a segmenter is after packets were forwarded on a stream that has no other subscriber,
with one or more connections to it. -/
def alone (w : Wiring Frame) (connections : Nat) (session : Segmenter.Session)
    (packets : List Packet) : Segmenter.Session :=
  (packets.flatMap (List.replicate connections)).foldl (feed w) session

/-- The subscribers were called and are to be called next with the packets as they were
forwarded, and between two packets each segmenter is as if it were alone. -/
structure AsForwarded (sessions : List Segmenter.Session) (s : Forwarding w) : Prop where
  observed : s.observed ++ s.pending.map (fun subscriber => (subscriber, s.packet)) =
    due w s.forwarded
  independent : s.pending = [] → ∀ k, s.segmenters[k]? = sessions[k]?.map fun session =>
    alone w (w.subscribers.count (.segmenter k)) session s.forwarded

/-- A segmenter takes the packet: it has a segment and the stream has data, or the data have
parameters and the packet can start a segment. -/
def Takes (segmenter : Segmenter) (packet : Packet) (stream : Option StreamData) : Prop :=
  match segmenter.currentSegment with
  | some _ => stream ≠ none
  | none => ∃ data ∈ stream, data.parameters ≠ none ∧
      (data.mediaType = AVMediaType.video → packet.containsIFrame = true)

/-- The subscriber leaves the packet as it is, and returns. For a muxer this says that its
output stream has the index that the packet has, and that there is room in the buffer or libav
takes the packet in front. -/
def Undisturbing (s : Forwarding w) : Subscriber → Prop
  | .muxer k i => ∀ m ∈ s.muxers[k]?, ∀ info ∈ m.streaminfo[i]?,
      (info.stream.map fun output => Int32.ofNat output.index) = some s.packet.val.streamIndex ∧
        (m.buffer.length < m.limit ∨ Muxer.Accepts w.libav m.state m.streamStart m.log
          ((m.buffer ++ [s.packet]).take 1))
  | .segmenter k => ∀ session ∈ s.segmenters[k]?,
      Takes session.segmenter s.packet w.stream.data
  | .decoder _ => True

/-- A subscriber that is called before another one does not disturb. -/
def Considerate (s : Forwarding w) (l : Label) : Prop :=
  s.crashed = false →
    match l, s.pending with
    | .call, subscriber :: _ :: _ => s.Undisturbing subscriber
    | _, _ => True

theorem takes_iff (mem : Segment.Unassigned) (segmenter : Segmenter) (packet : Packet)
    (stream : Option StreamData) :
    (segmenter.process mem packet stream).thrown = none ↔ Takes segmenter packet stream := by
  have hprocessed := Segmenter.process_processed mem segmenter packet stream
  generalize segmenter.process mem packet stream = o at hprocessed ⊢
  cases hprocessed with
  | noStream hcur => simp [Takes, hcur]
  | noParameters data hcur hparam => simp [Takes, hcur, hparam]
  | unfit data seg hcur hparam hvideo hkey => simp [Takes, hcur, hvideo, hkey]
  | first data seg frames hcur hparam hpackets hkey => simpa [Takes, hcur, hparam] using hkey
  | died seg hcur => simp [Takes, hcur]
  | cut data seg seg' hcur hpackets hkey => simp [Takes, hcur]
  | kept data seg seg' frames hcur hpackets => simp [Takes, hcur]

/-- A packet that has the index already is not changed. -/
theorem setStreamIndex_eq_iff (packet : Packet) (index : Nat) :
    packet.setStreamIndex index = packet ↔ Int32.ofNat index = packet.val.streamIndex := by
  constructor
  · intro h
    exact congrArg (fun p : Packet => p.val.streamIndex) h
  · intro h
    apply Subtype.ext
    change { packet.val with streamIndex := Int32.ofNat index } = packet.val
    rw [h]

section After

variable (s : Forwarding w) (outcome : Muxer.Outcome)

@[simp] theorem after_observed : (s.after outcome).observed = s.observed := by
  cases outcome <;> rfl

@[simp] theorem after_forwarded : (s.after outcome).forwarded = s.forwarded := by
  cases outcome <;> rfl

@[simp] theorem after_packet : (s.after outcome).packet = s.packet := by
  cases outcome <;> rfl

@[simp] theorem after_segmenters : (s.after outcome).segmenters = s.segmenters := by
  cases outcome <;> rfl

/-- Only a call that returns leaves the others to be called. -/
theorem after_pending_iff (h : s.pending ≠ []) :
    (s.after outcome).pending = s.pending ↔ outcome = .ok () := by
  cases outcome with
  | ok u => simp [after]
  | error e => simpa [after] using h.symm

end After

/-- What a call leaves behind, whoever is called: the others are still to be called, or no one
is, and a segmenter is fed if it was the one. -/
structure Called (s : Forwarding w) (subscriber : Subscriber) (rest : List Subscriber)
    (t : Forwarding w) : Prop where
  observed : t.observed = s.observed ++ [(subscriber, s.packet)]
  forwarded : t.forwarded = s.forwarded
  pending : t.pending = rest ∨ t.pending = []
  segmenters : ∀ k, t.segmenters[k]? = if subscriber = .segmenter k then
    s.segmenters[k]?.map fun session => feed w session s.packet else s.segmenters[k]?

theorem after_called {s : Forwarding w} {subscriber : Subscriber} {rest : List Subscriber}
    {t : Forwarding w} (outcome : Muxer.Outcome) (h : Called s subscriber rest t) :
    Called s subscriber rest (t.after outcome) where
  observed := (after_observed t outcome).trans h.observed
  forwarded := (after_forwarded t outcome).trans h.forwarded
  pending := by
    cases outcome with
    | ok u => exact h.pending
    | error e => exact Or.inr rfl
  segmenters := by
    rw [after_segmenters]
    exact h.segmenters

theorem call_called {s t : Forwarding w} {subscriber : Subscriber} {rest : List Subscriber}
    (h : s.call subscriber rest = some t) : Called s subscriber rest t := by
  cases subscriber with
  | muxer k i =>
      obtain ⟨m, hm, h⟩ := Option.bind_eq_some_iff.mp h
      obtain ⟨info, hinfo, rfl⟩ := Option.map_eq_some_iff.mp h
      split
      · exact after_called _ ⟨rfl, rfl, Or.inl rfl, fun _ => rfl⟩
      · exact after_called _ ⟨rfl, rfl, Or.inl rfl, fun _ => rfl⟩
  | segmenter k =>
      obtain ⟨session, hsession, rfl⟩ := Option.map_eq_some_iff.mp h
      apply after_called
      refine ⟨rfl, rfl, Or.inl rfl, ?_⟩
      intro j
      by_cases hj : k = j
      · subst hj
        have hlt := (List.getElem?_eq_some_iff.mp hsession).1
        rw [if_pos rfl, hsession]
        exact List.getElem?_set_self hlt
      · have hother : Subscriber.segmenter k ≠ .segmenter j := by
          intro heq
          exact hj (Subscriber.segmenter.inj heq)
        rw [if_neg hother]
        exact List.getElem?_set_ne hj
  | decoder k =>
      obtain ⟨decoder, hdecoder, rfl⟩ := Option.map_eq_some_iff.mp h
      exact ⟨rfl, rfl, Or.inl rfl, fun _ => rfl⟩

/-- The others are still to be called, with the same packet. -/
def Keeps (s : Forwarding w) (rest : List Subscriber) (t : Forwarding w) : Prop :=
  t.pending = rest ∧ t.packet = s.packet

theorem keeps_muxer_iff {s : Forwarding w} {k i : Nat} {rest : List Subscriber}
    (hrest : rest ≠ []) :
    (∀ t, s.call (.muxer k i) rest = some t → s.Keeps rest t) ↔ s.Undisturbing (.muxer k i) := by
  cases hm : s.muxers[k]? with
  | none => simp [call, Undisturbing, hm]
  | some m =>
      cases hinfo : m.streaminfo[i]? with
      | none => simp [call, Undisturbing, hm, hinfo]
      | some info =>
          simp only [call, Undisturbing, hm, hinfo, Option.bind_some, Option.map_some,
            Option.some.injEq, forall_eq', Option.mem_def]
          rcases Muxer.arrive_cases m i info s.packet w.stream.data with
            ⟨hnone, herror⟩ | ⟨info', output, hstream, hindex, hok⟩
          · rw [herror, hnone]
            constructor
            · rintro ⟨hpending, -⟩
              exact absurd hpending.symm hrest
            · rintro ⟨hindex, -⟩
              cases hindex
          · obtain ⟨output', houtput', hsame⟩ := Option.map_eq_some_iff.mp hindex
            rw [hok, houtput', Option.map_some, Option.some.injEq, hsame, Keeps, after_packet,
              after_pending_iff _ _ hrest, Muxer.enter_returns_iff, setStreamIndex_eq_iff, and_comm]
            apply and_congr_right
            intro heq
            rw [(setStreamIndex_eq_iff s.packet output.index).mpr heq, decide_eq_true_iff]

theorem keeps_segmenter_iff {s : Forwarding w} {k : Nat} {rest : List Subscriber}
    (hrest : rest ≠ []) :
    (∀ t, s.call (.segmenter k) rest = some t → s.Keeps rest t) ↔
      s.Undisturbing (.segmenter k) := by
  cases hsession : s.segmenters[k]? with
  | none => simp [call, Undisturbing, hsession]
  | some session =>
      simp only [call, Undisturbing, hsession, Option.map_some, Option.some.injEq, forall_eq',
        Option.mem_def]
      rw [Keeps, after_packet, after_pending_iff _ _ hrest, ← takes_iff w.mem, outcomeOf]
      cases (session.segmenter.process w.mem s.packet w.stream.data).thrown with
      | none => simp
      | some e => simp

/-- The others are called with the same packet if and only if the subscriber does not
disturb. -/
theorem call_keeps_iff {s : Forwarding w} {subscriber : Subscriber} {rest : List Subscriber}
    (hrest : rest ≠ []) :
    (∀ t, s.call subscriber rest = some t → s.Keeps rest t) ↔ s.Undisturbing subscriber := by
  cases subscriber with
  | muxer k i => exact keeps_muxer_iff hrest
  | segmenter k => exact keeps_segmenter_iff hrest
  | decoder k =>
      refine ⟨fun _ => trivial, fun _ t ht => ?_⟩
      obtain ⟨decoder, -, rfl⟩ := Option.map_eq_some_iff.mp ht
      exact ⟨rfl, rfl⟩

/-- The packets that a segmenter was given. -/
def givenTo (k : Nat) (call : Subscriber × Packet) : Option Packet :=
  if call.1 = .segmenter k then some call.2 else none

/-- The calls so far and the next ones are as they should be, and the segmenters have taken
what they were given. -/
structure Tracks (sessions : List Segmenter.Session) (s : Forwarding w) : Prop where
  observed : s.observed ++ s.pending.map (fun subscriber => (subscriber, s.packet)) =
    due w s.forwarded
  fed : ∀ k, s.segmenters[k]? = sessions[k]?.map fun session =>
    (s.observed.filterMap (givenTo k)).foldl (feed w) session

/-- Of the calls that are due, a segmenter gets each packet once for each of its connections. -/
theorem due_givenTo (w : Wiring Frame) (k : Nat) (packets : List Packet) :
    (due w packets).filterMap (givenTo k) =
      packets.flatMap (List.replicate (w.subscribers.count (.segmenter k))) := by
  have hone : ∀ (subscribers : List Subscriber) (packet : Packet),
      (subscribers.map fun subscriber => (subscriber, packet)).filterMap (givenTo k) =
        List.replicate (subscribers.count (.segmenter k)) packet := by
    intro subscribers packet
    induction subscribers with
    | nil => rfl
    | cons subscriber subscribers ih =>
        by_cases hk : subscriber = .segmenter k
        · subst hk
          rw [List.count_cons_self, List.replicate_succ, ← ih]
          exact List.filterMap_cons_some (if_pos rfl)
        · rw [List.count_cons_of_ne hk, ← ih]
          exact List.filterMap_cons_none (if_neg hk)
  induction packets with
  | nil => rfl
  | cons packet packets ih =>
      rw [due, List.flatMap_cons, List.filterMap_append, hone, List.flatMap_cons]
      exact congrArg _ ih

theorem Tracks.asForwarded {sessions : List Segmenter.Session} {s : Forwarding w}
    (h : Tracks sessions s) : AsForwarded sessions s := by
  refine ⟨h.observed, ?_⟩
  intro hpending k
  have hobserved := h.observed
  rw [hpending, List.map_nil, List.append_nil] at hobserved
  rw [h.fed k, hobserved, due_givenTo]
  rfl

/-- A call feeds the segmenter that is called. -/
theorem Tracks.fed_call {sessions : List Segmenter.Session} {s t : Forwarding w}
    (h : Tracks sessions s) {subscriber : Subscriber} {rest : List Subscriber}
    (hcalled : Called s subscriber rest t) (k : Nat) :
    t.segmenters[k]? = sessions[k]?.map fun session =>
      (t.observed.filterMap (givenTo k)).foldl (feed w) session := by
  rw [hcalled.segmenters, hcalled.observed, List.filterMap_append, h.fed k]
  by_cases hk : subscriber = .segmenter k
  · have hgiven : givenTo k (subscriber, s.packet) = some s.packet := if_pos hk
    rw [if_pos hk, Option.map_map]
    simp only [List.filterMap_cons_some hgiven, List.filterMap_nil, List.foldl_append,
      List.foldl_cons, List.foldl_nil]
    rfl
  · have hgiven : givenTo k (subscriber, s.packet) = none := if_neg hk
    rw [if_neg hk, List.filterMap_cons_none hgiven, List.filterMap_nil, List.append_nil]

/-- Nobody is left out and nobody is handed another packet, unless it is the last one. -/
theorem Tracks.call {sessions : List Segmenter.Session} {s t : Forwarding w}
    (h : Tracks sessions s) {subscriber : Subscriber} {rest : List Subscriber}
    (hpending : s.pending = subscriber :: rest) (hcalled : Called s subscriber rest t)
    (hkeeps : rest ≠ [] → s.Keeps rest t) : Tracks sessions t := by
  refine ⟨?_, h.fed_call hcalled⟩
  have hobserved := h.observed
  rw [hpending, List.map_cons] at hobserved
  rw [hcalled.observed, hcalled.forwarded, ← hobserved, List.append_assoc]
  by_cases hrest : rest = []
  · subst hrest
    have hnone : t.pending = [] := hcalled.pending.elim id id
    rw [hnone]
    rfl
  · obtain ⟨hleft, hpacket⟩ := hkeeps hrest
    rw [hleft, hpacket]
    rfl

/-- Operations on a muxer are no business of the others. -/
theorem Tracks.operate {sessions : List Segmenter.Session} {s t : Forwarding w}
    (h : Tracks sessions s) {k : Nat} {op : Muxer.Op} (hstep : s.operate k op = some t) :
    Tracks sessions t := by
  have hother : ∀ op, ((s.muxers[k]?.bind fun m =>
      ((Muxer.Session.start m).step w.libav op).map fun session =>
        { s with muxers := s.muxers.set k session.muxer, crashed := session.ended }) = some t) →
      Tracks sessions t := by
    intro op hop
    obtain ⟨m, -, hop⟩ := Option.bind_eq_some_iff.mp hop
    obtain ⟨session, -, rfl⟩ := Option.map_eq_some_iff.mp hop
    exact ⟨h.observed, h.fed⟩
  cases op with
  | destroy => cases hstep
  | subscribe source => exact hother _ hstep
  | process i packet stream => exact hother _ hstep
  | flush => exact hother _ hstep
  | openOutput => exact hother _ hstep
  | close => exact hother _ hstep

theorem step_tracks {sessions : List Segmenter.Session} {s t : Forwarding w} {l : Label}
    (h : Tracks sessions s) (hok : s.Considerate l) (hstep : s.step l = some t) :
    Tracks sessions t := by
  unfold step at hstep
  split at hstep
  · cases hstep
  · rename_i halive
    have hcrashed : s.crashed = false := by simpa using halive
    cases l with
    | forward packet =>
        obtain ⟨hpending, hforwarded⟩ := Option.ite_none_right_eq_some.mp hstep
        obtain rfl := Option.some.inj hforwarded
        have hobserved := h.observed
        rw [hpending, List.map_nil, List.append_nil] at hobserved
        refine ⟨?_, h.fed⟩
        dsimp only
        rw [hobserved, due, due, List.flatMap_append, List.flatMap_singleton]
    | call =>
        cases hpending : s.pending with
        | nil =>
            rw [hpending] at hstep
            cases hstep
        | cons subscriber rest =>
            rw [hpending] at hstep
            apply h.call hpending (call_called hstep)
            intro hrest
            obtain ⟨next, rest, rfl⟩ := List.exists_cons_of_ne_nil hrest
            have hundisturbing := hok hcrashed
            rw [hpending] at hundisturbing
            exact (call_keeps_iff hrest).mpr hundisturbing t hstep
    | operate k op => exact h.operate hstep

/-- A call after which all is as it should be was considerate. -/
theorem considerate_of_next {sessions : List Segmenter.Session} {s : Forwarding w} {l : Label}
    (h : Tracks sessions s) (hnext : ∀ t, s.step l = some t → AsForwarded sessions t) :
    s.Considerate l := by
  intro hcrashed
  split
  · rename_i subscriber next rest hpending
    have hrest : next :: rest ≠ [] := List.cons_ne_nil _ _
    apply (call_keeps_iff hrest).mp
    intro t ht
    have hstep : s.step .call = some t := by
      rw [step, hcrashed, hpending]
      exact ht
    have hcalled := call_called ht
    have hobserved := (hnext t hstep).observed
    rw [hcalled.observed, hcalled.forwarded, ← h.observed, hpending, List.append_assoc] at hobserved
    have hleft := (List.cons.inj (List.append_cancel_left hobserved)).2
    rcases hcalled.pending with hpending' | hpending'
    · rw [hpending', List.map_cons, List.map_cons] at hleft
      exact ⟨hpending', congrArg Prod.snd (List.cons.inj hleft).1⟩
    · rw [hpending'] at hleft
      cases hleft
  · trivial

theorem start_tracks (w : Wiring Frame) (muxers : List Muxer)
    (sessions : List Segmenter.Session)
    (decoders : List (List Frame × Decoder.Contexts w.lib)) :
    Tracks sessions (start w muxers sessions decoders) := by
  refine ⟨rfl, ?_⟩
  intro k
  exact Option.map_id'.symm

/-- In a run the subscribers are called with the packets as they were forwarded, and the
segmenters take what they would take if they were alone, if and only if no subscriber that is
called before another one changes the packet or throws. -/
theorem asForwarded_iff (w : Wiring Frame) (muxers : List Muxer)
    (sessions : List Segmenter.Session)
    (decoders : List (List Frame × Decoder.Contexts w.lib)) (labels : List Label) :
    Always step (AsForwarded sessions) (start w muxers sessions decoders) labels ↔
      Guarded step Considerate (start w muxers sessions decoders) labels := by
  apply always_iff_guarded _ _ _ (start_tracks w muxers sessions decoders)
  · exact fun s l _ t h hok hstep => step_tracks h hok hstep
  · exact fun s h => h.asForwarded
  · exact fun s l _ h hnext => considerate_of_next h hnext

/-- A muxer and a segmenter, subscribed in this order to the second stream of a container. -/
def sampleWiring : Wiring Packet where
  libav := Muxer.Libavformat.sample
  lib := Libavcodec.passThrough
  mem := Segment.Unassigned.zero
  stream := ⟨1, some StreamData.sampleVideo⟩
  subscribers := [.muxer 0 0, .segmenter 0]

/-- The muxer has one output stream, whose index is 0. -/
def sampleStart : Forwarding sampleWiring :=
  start sampleWiring
    [(((Muxer.create Muxer.Libavformat.sample "sample.mp4" "" 300).toOption.getD
      (Muxer.initial "sample.mp4" 300)).subscribe Muxer.Libavformat.sample
        sampleWiring.stream).2]
    [Segmenter.Session.start Uuid.null 10] []

/-- A key packet of the second stream is forwarded to both. -/
def sampleLabels : List Label := [.forward (Packet.keyFrame.setStreamIndex 1), .call, .call]

/-- The segmenter stores the packet under the index that it has in the muxer's output. -/
theorem index_of_muxer_stored :
    (∃ s, exec step sampleStart sampleLabels = some s ∧
      (s.segmenters.flatMap Segmenter.Session.openPackets).map (fun p => p.val.streamIndex) = [0]) ∧
      ¬ Always step (AsForwarded [Segmenter.Session.start Uuid.null 10]) sampleStart
        sampleLabels := by
  refine ⟨⟨_, rfl, by decide⟩, ?_⟩
  intro h
  have hobserved := (h sampleLabels (List.prefix_refl _) _ rfl).observed
  have hstored := congrArg (List.map fun call => call.2.val.streamIndex) hobserved
  exact absurd hstored (by decide)

end Forwarding

end Media2

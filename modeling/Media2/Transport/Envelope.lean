import Media2.Transport

/-!
# Messages from anyone

The handler of the segment subscriber takes five frames of any message and copies each of the
first four whole into a variable of fixed size. A message with fewer frames, or with a frame
that is longer than its variable, takes it out of bounds; after a shorter frame the listeners
are given what the stack held.
-/

namespace Media2

open ByteFormat

namespace ZmqSegmentSubscriber

/-- The bytes are those at the front of a frame of the message. -/
def Copied (message : Multipart) (place : Nat) (bytes : List UInt8) : Prop :=
  ∃ frame ∈ message[place]?, bytes <+: frame

/-- Every byte that the listeners are given came from the message. -/
structure FromMessage (message : Multipart) (received : Received) : Prop where
  jobId : Copied message 0 received.jobId.toList
  mediaType : Copied message 1 (put received.mediaType)
  width : Copied message 2 (put received.width)
  height : Copied message 3 (put received.height)
  buffer : Copied message 4 received.buffer.contents

/-- Whatever the stack holds, the handler stays within the message and its variables, and what
it passes on came from the message. -/
structure Handles (message : Multipart) : Prop where
  inRange : ∀ locals, handle locals message ≠ .error .outOfRange
  fromMessage : ∀ locals received, handle locals message = .ok received →
    FromMessage message received

/-- The message has a fifth frame, and the first four have the sizes of the variables. -/
def Enveloped (message : Multipart) : Prop :=
  (message.map List.length).take 4 = [16, 4, 4, 4] ∧ 4 < message.length

instance (message : Multipart) : Decidable (Enveloped message) :=
  inferInstanceAs (Decidable (_ ∧ _))

/-- A message of an envelope and a segment. -/
theorem handle_enveloped (locals : Locals) {uuidMsg mediaTypeMsg widthMsg heightMsg bufferMsg :
    List UInt8} (rest : Multipart) (huuid : uuidMsg.length = 16)
    (hmediaType : mediaTypeMsg.length = 4) (hwidth : widthMsg.length = 4)
    (hheight : heightMsg.length = 4) :
    ∃ jobId : Uuid, jobId.toList = uuidMsg ∧
      handle locals (uuidMsg :: mediaTypeMsg :: widthMsg :: heightMsg :: bufferMsg :: rest) =
        .ok ⟨StringStream.ofBytes bufferMsg, jobId, ofBytes AVMediaType mediaTypeMsg,
          ofBytes Int32 widthMsg, ofBytes Int32 heightMsg⟩ := by
  obtain ⟨jobId, hid, hid'⟩ := memcpy_full locals.jobId huuid
  obtain ⟨v₁, hmt, hmt'⟩ := memcpy_full locals.mt hmediaType
  obtain ⟨v₂, hw, hw'⟩ := memcpy_full locals.width hwidth
  obtain ⟨v₃, hh, hh'⟩ := memcpy_full locals.height hheight
  refine ⟨jobId, hid', ?_⟩
  simp only [handle, hid, hmt, hw, hh, bind, Except.bind, pure, Except.pure, hmt', hw', hh']

theorem put_ofBytes_int32 {bytes : List UInt8} (h : bytes.length = 4) :
    put (ofBytes Int32 bytes) = bytes := by
  apply put_ofBytes _ h
  intro n hn
  have hlt : n < 2 ^ 32 := hn
  exact (UInt32.toNat_ofNat').trans (Nat.mod_eq_of_lt hlt)

theorem put_ofBytes_mediaType {bytes : List UInt8} (h : bytes.length = 4) :
    put (ofBytes AVMediaType bytes) = bytes :=
  put_ofBytes_int32 h

theorem exists_five {message : Multipart} (h : 4 < message.length) :
    ∃ uuidMsg mediaTypeMsg widthMsg heightMsg bufferMsg rest,
      message = uuidMsg :: mediaTypeMsg :: widthMsg :: heightMsg :: bufferMsg :: rest := by
  rcases message with _ | ⟨a, _ | ⟨b, _ | ⟨c, _ | ⟨d, _ | ⟨e, rest⟩⟩⟩⟩⟩
  · exact absurd h (by decide)
  · exact absurd h (by simp)
  · exact absurd h (by simp)
  · exact absurd h (by simp)
  · exact absurd h (by simp)
  · exact ⟨a, b, c, d, e, rest, rfl⟩

theorem enveloped_iff {message : Multipart} :
    Enveloped message ↔ ∃ uuidMsg mediaTypeMsg widthMsg heightMsg bufferMsg rest,
      message = uuidMsg :: mediaTypeMsg :: widthMsg :: heightMsg :: bufferMsg :: rest ∧
        uuidMsg.length = 16 ∧ mediaTypeMsg.length = 4 ∧ widthMsg.length = 4 ∧
        heightMsg.length = 4 := by
  constructor
  · rintro ⟨hsizes, hlength⟩
    obtain ⟨a, b, c, d, e, rest, rfl⟩ := exists_five hlength
    simp only [List.map_cons, List.take_succ_cons, List.take_zero, List.cons.injEq, and_true]
      at hsizes
    exact ⟨a, b, c, d, e, rest, rfl, hsizes⟩
  · rintro ⟨a, b, c, d, e, rest, rfl, ha, hb, hc, hd⟩
    constructor
    · simp only [List.map_cons, List.take_succ_cons, List.take_zero, ha, hb, hc, hd]
    · simp

/-- A message with five frames takes the handler out of bounds, or its frames fit into the
variables and the listeners are called. -/
theorem handle_cases (locals : Locals) (uuidMsg mediaTypeMsg widthMsg heightMsg bufferMsg :
    List UInt8) (rest : Multipart) :
    handle locals (uuidMsg :: mediaTypeMsg :: widthMsg :: heightMsg :: bufferMsg :: rest) =
        .error .outOfRange ∨
      uuidMsg.length ≤ 16 ∧ mediaTypeMsg.length ≤ 4 ∧ widthMsg.length ≤ 4 ∧
        heightMsg.length ≤ 4 ∧ ∃ received, handle locals (uuidMsg :: mediaTypeMsg :: widthMsg ::
          heightMsg :: bufferMsg :: rest) = .ok received := by
  have hcopy : ∀ {n : Nat} (dst : Vector UInt8 n) (src : List UInt8),
      memcpy dst src = .error .outOfRange ∨ src.length ≤ n ∧ ∃ v, memcpy dst src = .ok v := by
    intro n dst src
    by_cases hfits : src.length ≤ n
    · exact Or.inr ⟨hfits, _, dif_pos hfits⟩
    · exact Or.inl (dif_neg hfits)
  simp only [handle, bind, Except.bind]
  obtain h₁ | ⟨huuid, jobId, h₁⟩ := hcopy locals.jobId uuidMsg
  · exact Or.inl (by rw [h₁])
  obtain h₂ | ⟨hmediaType, mt, h₂⟩ := hcopy locals.mt mediaTypeMsg
  · exact Or.inl (by rw [h₁, h₂])
  obtain h₃ | ⟨hwidth, width, h₃⟩ := hcopy locals.width widthMsg
  · exact Or.inl (by rw [h₁, h₂, h₃])
  obtain h₄ | ⟨hheight, height, h₄⟩ := hcopy locals.height heightMsg
  · exact Or.inl (by rw [h₁, h₂, h₃, h₄])
  refine Or.inr ⟨huuid, hmediaType, hwidth, hheight, ?_⟩
  rw [h₁, h₂, h₃, h₄]
  exact ⟨_, rfl⟩

/-- The message of a publisher is handled, and any message like it. -/
theorem handles_of_enveloped {message : Multipart} (h : Enveloped message) : Handles message := by
  obtain ⟨a, b, c, d, e, rest, rfl, ha, hb, hc, hd⟩ := enveloped_iff.mp h
  constructor
  · intro locals
    obtain ⟨jobId, -, hhandle⟩ := handle_enveloped locals rest ha hb hc hd
    rw [hhandle]
    simp
  · intro locals received hreceived
    obtain ⟨jobId, hid, hhandle⟩ := handle_enveloped locals rest ha hb hc hd
    obtain rfl := Except.ok.inj (hhandle.symm.trans hreceived)
    have hfront : ∀ {bytes frame : List UInt8}, bytes = frame → bytes <+: frame :=
      fun heq => heq ▸ List.prefix_refl _
    constructor
    · exact ⟨a, rfl, hfront hid⟩
    · exact ⟨b, rfl, hfront (put_ofBytes_mediaType hb)⟩
    · exact ⟨c, rfl, hfront (put_ofBytes_int32 hc)⟩
    · exact ⟨d, rfl, hfront (put_ofBytes_int32 hd)⟩
    · exact ⟨e, rfl, List.prefix_refl _⟩

/-- What is copied is no longer than its frame. -/
theorem Copied.length_le {message : Multipart} {place : Nat} {bytes frame : List UInt8}
    (h : Copied message place bytes) (hframe : message[place]? = some frame) :
    bytes.length ≤ frame.length := by
  obtain ⟨frame', hframe', hprefix⟩ := h
  obtain rfl : frame = frame' := Option.some.inj (hframe.symm.trans hframe')
  exact hprefix.length_le

/-- A message that is handled has the envelope of a publisher. -/
theorem enveloped_of_handles {message : Multipart} (h : Handles message) : Enveloped message := by
  have hfive : 4 < message.length := by
    by_contra hfew
    apply h.inRange Transport.zeroLocals
    rcases message with _ | ⟨a, _ | ⟨b, _ | ⟨c, _ | ⟨d, _ | ⟨e, rest⟩⟩⟩⟩⟩
    · rfl
    · rfl
    · rfl
    · rfl
    · rfl
    · exact absurd hfew (by simp)
  obtain ⟨a, b, c, d, e, rest, rfl⟩ := exists_five hfive
  obtain herror | ⟨ha, hb, hc, hd, received, hreceived⟩ :=
    handle_cases Transport.zeroLocals a b c d e rest
  · exact absurd herror (h.inRange Transport.zeroLocals)
  · have hfrom := h.fromMessage Transport.zeroLocals received hreceived
    have ha' : received.jobId.toList.length ≤ a.length := hfrom.jobId.length_le rfl
    have hb' : (put received.mediaType).length ≤ b.length := hfrom.mediaType.length_le rfl
    have hc' : (put received.width).length ≤ c.length := hfrom.width.length_le rfl
    have hd' : (put received.height).length ≤ d.length := hfrom.height.length_le rfl
    rw [Vector.length_toList] at ha'
    rw [length_put] at hb' hc' hd'
    apply enveloped_iff.mpr
    exact ⟨a, b, c, d, e, rest, rfl, Nat.le_antisymm ha ha', Nat.le_antisymm hb hb',
      Nat.le_antisymm hc hc', Nat.le_antisymm hd hd'⟩

/-- The handler stays within the message and its variables, and passes on nothing but bytes of
the message, if and only if the message has a fifth frame and its first four have the sizes of
the variables. -/
theorem handles_iff (message : Multipart) : Handles message ↔ Enveloped message := by
  constructor
  · exact enveloped_of_handles
  · exact handles_of_enveloped

/-- Publishers send such messages. -/
theorem processBuffer_enveloped (buffer : StringStream) (id : Uuid) (mt : AVMediaType)
    (width height : Int32) :
    Enveloped (ZmqSegmentPublisher.processBuffer buffer id mt width height) := by
  apply enveloped_iff.mpr
  refine ⟨_, _, _, _, _, [], rfl, Vector.length_toList, ?_, ?_, ?_⟩
  · exact length_put mt
  · exact length_put width
  · exact length_put height

/-- A job id that is one byte too long. -/
def overlongJobId : Multipart :=
  [List.replicate 17 0, put AVMediaType.video, put (0 : Int32), put (0 : Int32), []]

/-- A width without bytes. -/
def emptyWidth : Multipart :=
  [Uuid.null.toList, put AVMediaType.video, [], put (0 : Int32), []]

/-- A message of one frame takes the handler out of the message, a long job id out of its
variable, and for a width without bytes the listeners get what the stack held. -/
theorem stray_messages_not_handled :
    ¬ Handles [[]] ∧ ¬ Handles overlongJobId ∧ ¬ Handles emptyWidth ∧
      handle Transport.zeroLocals [[]] = .error .outOfRange ∧
      handle Transport.zeroLocals overlongJobId = .error .outOfRange ∧
      (handle { Transport.zeroLocals with width := Vector.replicate 4 1 } emptyWidth).map
        Received.width = .ok 0x01010101 := by
  refine ⟨?_, ?_, ?_, rfl, rfl, rfl⟩
  · exact fun h => h.inRange Transport.zeroLocals rfl
  · exact fun h => h.inRange Transport.zeroLocals rfl
  · intro h
    obtain ⟨frame, hframe, hprefix⟩ := (h.fromMessage Transport.zeroLocals _ rfl).width
    obtain rfl : [] = frame := Option.some.inj hframe
    exact absurd hprefix.length_le (by decide)

end ZmqSegmentSubscriber

end Media2

import Media2.Serialization.Room

/-!
# Decoding ends

The loop of `Segment::load` runs up to a count that the message announces. Each packet that it
reads takes a number of bytes off the archive, so that the archive ends the loop whatever the
count is. It ends it with an exception, unless `malloc` has no room for what is read,
`Packet::copy` walks off the side data of a packet, the `int` counter overflows on more packets
than it can count, or the packet that is destroyed on the way out has side data that was
announced and not read.
-/

namespace Media2.Serialization

open ByteFormat

/-- The bytes of the fields that every packet has. -/
def fixedSize : Nat := 48

/-- What `Packet::destroy` finds of a packet when `load(AVPacket)` throws: the count of side-data
elements, and for each element that is allocated whether its `data` was set. -/
structure Remains where
  sideDataElems : Int32
  dataSet : List Bool

/-- `av_packet_free` frees the `data` of as many elements as the count says. -/
def Remains.Freeable (remains : Remains) : Prop :=
  remains.sideDataElems.toInt ≤ remains.dataSet.length ∧
    ∀ dataSet ∈ remains.dataSet.take remains.sideDataElems.toInt.toNat, dataSet = true

instance (remains : Remains) : Decidable remains.Freeable :=
  inferInstanceAs (Decidable (_ ∧ _))

/-- `load(AVPacket)` up to the count of side-data elements. -/
def loadToCount : Archive Unit := readToCount fun _ _ _ _ _ _ => pure ()

/-- What `load(AVPacket)` has made of the side data of a new packet when it throws. Of a count
that is cut off the bytes that are there overwrite the zero; the `data` of the element is set
behind its size and type. -/
def remains (bytes : List UInt8) : Remains :=
  match loadToCount.run bytes with
  | .error _ => ⟨0, []⟩
  | .ok (_, rest) =>
      let sideDataElems := ofBytes Int32 (rest.take 4)
      if 4 ≤ rest.length ∧ sideDataElems > 0 then ⟨sideDataElems, [decide (4 + 12 ≤ rest.length)]⟩
      else ⟨sideDataElems, []⟩

/-- An exception of `load(AVPacket)` on its way out of the loop, where it destroys the packet. -/
def unwind (bytes : List UInt8) (e : Fault) : Fault :=
  if e = .archiveException ∧ ¬ (remains bytes).Freeable then .outOfRange else e

/-- The loop of `Segment::load`, `loadPacketsWith`, with the packet that is destroyed when it
throws. A packet that was copied can be destroyed. -/
def decodePackets (malloc : Malloc) : (left : Nat) → (i : Nat) → Segment → List UInt8 →
    Except Fault (Segment × List UInt8)
  | 0, _, seg, bytes => .ok (seg, bytes)
  | left + 1, i, seg, bytes =>
      match (loadPacketWith malloc).run bytes with
      | .error e => .error (unwind bytes e)
      | .ok (pkt, rest) =>
          match seg.appendRaw pkt with
          | .error e => .error e
          | .ok seg =>
              if i + 1 < 2 ^ 31 then decodePackets malloc left (i + 1) seg rest
              else .error .signedOverflow

/-- `Segment::load`, `loadSegmentWith`, with the packet that is destroyed when it throws. -/
def decode (malloc : Malloc) (mem : Segment.Unassigned) (bytes : List UInt8) :
    Except Fault (Segment × List UInt8) :=
  match (loadFrontWith malloc mem).run bytes with
  | .error e => .error e
  | .ok ((seg, pkts), rest) => decodePackets malloc pkts.toNat 0 seg rest

/-- The loop with its counter and its count, as far as it gets within a number of turns: `none`
if it is still running then. -/
def loadLoop (malloc : Malloc) (pkts : UInt64) : (turns : Nat) → (i : Nat) → Segment → List UInt8 →
    Option (Except Fault (Segment × List UInt8))
  | 0, _, _, _ => none
  | turns + 1, i, seg, bytes =>
      if i < pkts.toNat then
        match (loadPacketWith malloc).run bytes with
        | .error e => some (.error (unwind bytes e))
        | .ok (pkt, rest) =>
            match seg.appendRaw pkt with
            | .error e => some (.error e)
            | .ok seg =>
                if i + 1 < 2 ^ 31 then loadLoop malloc pkts turns (i + 1) seg rest
                else some (.error .signedOverflow)
      else some (.ok (seg, bytes))

/-- The bytes from each packet on that lies whole in them, up to `left` of them. -/
def whole : (left : Nat) → List UInt8 → List (List UInt8)
  | 0, _ => []
  | left + 1, bytes =>
      if Whole bytes then bytes :: whole left (bytes.drop (packetSpan bytes)) else []

/-- The bytes from the packet on that is cut off, if it is among `left` packets. -/
def cutOff : (left : Nat) → List UInt8 → Option (List UInt8)
  | 0, _ => none
  | left + 1, bytes =>
      if Whole bytes then cutOff left (bytes.drop (packetSpan bytes)) else some bytes

/-- A packet that is cut off before it says that it has side data, or behind the size and type of
the one element that it says it has. -/
def CutSafely (bytes : List UInt8) : Prop :=
  (wordAt Int32 bytes 16).toInt < 0 ∨ announcedElems bytes ≤ 0 ∨
    announcedElems bytes = 1 ∧ 44 + payloadSize bytes ≤ bytes.length

instance (bytes : List UInt8) : Decidable (CutSafely bytes) :=
  inferInstanceAs (Decidable (_ ∨ _))

/-- The packets that a message announces, as far as the `int` of the loop can count. -/
def countable (bytes : List UInt8) : Nat := min (announcedPackets bytes) (2 ^ 31)

/-- The packets that lie whole in a message, if the front of the message does. -/
def wholePackets (bytes : List UInt8) : List (List UInt8) :=
  if 0 ≤ (wordAt Int32 bytes 52).toInt then whole (countable bytes) (bytes.drop (frontSpan bytes))
  else []

/-- The packet of a message that is cut off, if the front of the message lies whole in it. -/
def cutOffPacket (bytes : List UInt8) : Option (List UInt8) :=
  if 0 ≤ (wordAt Int32 bytes 52).toInt then cutOff (countable bytes) (bytes.drop (frontSpan bytes))
  else none

/-- There is room for what the message allocates, no packet that lies whole in it announces
more than one side-data element, there are fewer of these than the `int` has values, and the one
behind them is cut safely. -/
structure TameMessage (malloc : Malloc) (bytes : List UInt8) : Prop where
  front : GivenFront malloc bytes
  given : ∀ packet ∈ wholePackets bytes, Given malloc packet
  one : ∀ packet ∈ wholePackets bytes, announcedElems packet ≤ 1
  counted : (wholePackets bytes).length < 2 ^ 31
  cut : ∀ rest ∈ cutOffPacket bytes, Given malloc rest ∧ CutSafely rest

/-- Decoding ends with a segment or by an exception of the archive. -/
def LeavesCleanly (result : Except Fault (Segment × List UInt8)) : Prop :=
  (∃ out, result = .ok out) ∨ result = .error .archiveException

/-- `Segment::load` ends: its loop does within a number of turns that the archive bounds, and
then there is a segment or an exception of the archive. The packets that were appended fit into
the archive, and the counter only overflows on an archive of its size. -/
structure Ends (malloc : Malloc) (mem : Segment.Unassigned) (bytes : List UInt8) : Prop where
  halts : ∀ seg pkts rest, (loadFrontWith malloc mem).run bytes = .ok ((seg, pkts), rest) →
    loadLoop malloc pkts (bytes.length / fixedSize + 1) 0 seg rest = some (decode malloc mem bytes)
  outcome : LeavesCleanly (decode malloc mem bytes)
  consumed : (handedOnWith malloc mem bytes).length * fixedSize ≤ bytes.length
  counted : bytes.length < 2 ^ 31 * fixedSize → decode malloc mem bytes ≠ .error .signedOverflow

theorem fixedSize_le_packetSpan (bytes : List UInt8) : fixedSize ≤ packetSpan bytes := by
  rw [packetSpan, Nat.add_assoc]
  exact Nat.le_add_right _ _

/-- The unread bytes get fewer by the fixed-size fields at least. -/
theorem loadPacket_shrinks {malloc : Malloc} {bytes rest : List UInt8} {p : AVPacket}
    (h : (loadPacketWith malloc).run bytes = .ok (p, rest)) :
    rest.length + fixedSize ≤ bytes.length := by
  have hloaded := loadPacket_loaded (refuses_packet.ok h).2
  have hspan := fixedSize_le_packetSpan bytes
  have hle := hloaded.span_le
  rw [hloaded.rest_eq, List.length_drop]
  omega

/-- The loop ends before the unread bytes are used up, whatever its count is. -/
theorem loadLoop_eq {malloc : Malloc} {pkts : UInt64} {turns i : Nat} {seg : Segment}
    {bytes : List UInt8} (h : bytes.length < turns * fixedSize) :
    loadLoop malloc pkts turns i seg bytes =
      some (decodePackets malloc (pkts.toNat - i) i seg bytes) := by
  induction turns generalizing i seg bytes with
  | zero => exact absurd h (by simp)
  | succ turns ih =>
      rw [loadLoop]
      by_cases hi : i < pkts.toNat
      · obtain ⟨left, hleft⟩ := Nat.exists_eq_add_of_lt hi
        have hcount : pkts.toNat - i = left + 1 := by omega
        rw [if_pos hi, hcount, decodePackets]
        cases hrun : (loadPacketWith malloc).run bytes with
        | error e => rfl
        | ok out =>
            obtain ⟨pkt, rest⟩ := out
            have hshrinks := loadPacket_shrinks hrun
            dsimp only
            cases happend : seg.appendRaw pkt with
            | error e => rfl
            | ok seg' =>
                dsimp only
                split
                · have hrest : rest.length < turns * fixedSize := by
                    rw [Nat.succ_mul] at h
                    omega
                  have hnext : pkts.toNat - (i + 1) = left := by omega
                  rw [ih hrest, hnext]
                · rfl
      · have hcount : pkts.toNat - i = 0 := by omega
        rw [if_neg hi, hcount]
        rfl

/-- The packets that are handed on lie one behind the other in the bytes. -/
theorem handed_length_le (malloc : Malloc) (left i : Nat) (bytes : List UInt8) :
    (handedWith malloc left i bytes).length * fixedSize ≤ bytes.length := by
  induction left generalizing i bytes with
  | zero => simp [handedWith]
  | succ left ih =>
      rw [handedWith]
      cases hrun : (loadPacketWith malloc).run bytes with
      | error e => simp
      | ok out =>
          obtain ⟨pkt, rest⟩ := out
          have hshrinks := loadPacket_shrinks hrun
          have hrest := ih (i + 1) rest
          dsimp only
          rw [List.length_cons, Nat.succ_mul]
          split
          · rw [List.length_nil]
            omega
          · split
            · omega
            · rw [List.length_nil]
              omega

/-- Where the bytes end before the count, the count is the zero of a new packet. -/
theorem announcedElems_of_short {bytes : List UInt8} (h : bytes.length ≤ 28 + payloadSize bytes) :
    announcedElems bytes = 0 := by
  rw [announcedElems, wordAt, List.drop_eq_nil_of_le h]
  rfl

theorem remains_of_reached {bytes : List UInt8} (hsize : 0 ≤ (wordAt Int32 bytes 16).toInt)
    (h : 28 + payloadSize bytes ≤ bytes.length) :
    remains bytes =
      if 4 ≤ bytes.length - (28 + payloadSize bytes) ∧ announcedElems bytes > 0 then
        ⟨announcedElems bytes, [decide (4 + 12 ≤ bytes.length - (28 + payloadSize bytes))]⟩
      else ⟨announcedElems bytes, []⟩ := by
  obtain ⟨_, _, _, _, _, _, hfields⟩ := readToCount_run hsize h
  have hrun : loadToCount.run bytes = .ok ((), bytes.drop (28 + payloadSize bytes)) := hfields
  rw [remains, hrun, ← List.length_drop]
  rfl

/-- Nothing is allocated, so that there must be nothing to free. -/
theorem freeable_nil_iff (elems : Int32) : Remains.Freeable ⟨elems, []⟩ ↔ elems ≤ 0 := by
  rw [Int32.le_iff_toInt_le]
  constructor
  · exact fun h => h.1
  · exact fun h => ⟨h, by simp⟩

/-- One element is allocated. -/
theorem freeable_singleton_iff {elems : Int32} (hpos : elems > 0) (dataSet : Bool) :
    Remains.Freeable ⟨elems, [dataSet]⟩ ↔ elems = 1 ∧ dataSet = true := by
  have hpos' : 0 < elems.toInt := Int32.lt_iff_toInt_lt.mp hpos
  constructor
  · rintro ⟨hle, hset⟩
    have hle' : elems.toInt ≤ 1 := hle
    have hone : elems.toInt = (1 : Int32).toInt := by
      change elems.toInt = 1
      omega
    obtain rfl := Int32.toInt_inj.mp hone
    exact ⟨rfl, hset dataSet (List.mem_singleton_self _)⟩
  · rintro ⟨rfl, rfl⟩
    decide

/-- The packet can be destroyed if and only if it is cut safely. -/
theorem freeable_iff (bytes : List UInt8) : (remains bytes).Freeable ↔ CutSafely bytes := by
  by_cases hreach : 0 ≤ (wordAt Int32 bytes 16).toInt ∧ 28 + payloadSize bytes ≤ bytes.length
  · obtain ⟨hsize, hlen⟩ := hreach
    rw [remains_of_reached hsize hlen]
    have hsize' : ¬ (wordAt Int32 bytes 16).toInt < 0 := Int.not_lt.mpr hsize
    rw [CutSafely, or_iff_right hsize']
    by_cases hpos : announcedElems bytes > 0
    · have hsome : ¬ announcedElems bytes ≤ 0 := Int32.not_le.mpr hpos
      rw [or_iff_right hsome]
      split
      · rw [freeable_singleton_iff hpos, decide_eq_true_iff]
        apply and_congr_right
        intro hone
        omega
      · rename_i hshort
        rw [freeable_nil_iff]
        have hcut : ¬ 4 ≤ bytes.length - (28 + payloadSize bytes) := fun h => hshort ⟨h, hpos⟩
        refine iff_of_false hsome ?_
        rintro ⟨-, hbehind⟩
        omega
    · have hnone : announcedElems bytes ≤ 0 := Int32.not_lt.mp hpos
      rw [if_neg fun h => hpos h.2, freeable_nil_iff]
      exact iff_of_true hnone (Or.inl hnone)
  · have hzero : remains bytes = ⟨0, []⟩ := by
      rw [remains]
      cases hrun : loadToCount.run bytes with
      | error e => rfl
      | ok out => exact absurd (readToCount_reaches hrun) hreach
    rw [hzero]
    refine iff_of_true (by decide) ?_
    by_cases hsize : 0 ≤ (wordAt Int32 bytes 16).toInt
    · have hshort : bytes.length ≤ 28 + payloadSize bytes := by
        by_contra hlong
        exact hreach ⟨hsize, by omega⟩
      right
      left
      rw [announcedElems_of_short hshort]
      decide
    · exact Or.inl (Int.not_le.mp hsize)

theorem leavesCleanly_error_iff (e : Fault) :
    LeavesCleanly (.error e) ↔ e = .archiveException := by
  constructor
  · rintro (⟨out, hout⟩ | hout)
    · cases hout
    · exact Except.error.inj hout
  · rintro rfl
    exact Or.inr rfl

/-- There is room for the packets, none of the whole ones announces more than one side-data
element, the counter can count them, and the one behind them is cut safely. -/
structure Tame (malloc : Malloc) (left i : Nat) (bytes : List UInt8) : Prop where
  given : ∀ packet ∈ whole (min left (2 ^ 31 - i)) bytes, Given malloc packet
  one : ∀ packet ∈ whole (min left (2 ^ 31 - i)) bytes, announcedElems packet ≤ 1
  counted : (whole (min left (2 ^ 31 - i)) bytes).length < 2 ^ 31 - i
  cut : ∀ rest ∈ cutOff (min left (2 ^ 31 - i)) bytes, Given malloc rest ∧ CutSafely rest

section Tame

variable {malloc : Malloc} {left i : Nat} {bytes : List UInt8}

theorem min_succ_turns (left : Nat) (hi : i < 2 ^ 31) :
    min (left + 1) (2 ^ 31 - i) = min left (2 ^ 31 - (i + 1)) + 1 := by omega

theorem tame_zero (hi : i < 2 ^ 31) : Tame malloc 0 i bytes := by
  constructor
  · simp [whole]
  · simp [whole]
  · exact Nat.sub_pos_of_lt hi
  · simp [cutOff]

theorem tame_cut_iff (hi : i < 2 ^ 31) (hcut : ¬ Whole bytes) :
    Tame malloc (left + 1) i bytes ↔ Given malloc bytes ∧ CutSafely bytes := by
  have hmin := min_succ_turns left hi
  constructor
  · intro h
    apply h.cut
    rw [hmin, cutOff, if_neg hcut]
    rfl
  · intro h
    constructor
    · rw [hmin, whole, if_neg hcut]
      simp
    · rw [hmin, whole, if_neg hcut]
      simp
    · rw [hmin, whole, if_neg hcut]
      exact Nat.sub_pos_of_lt hi
    · rw [hmin, cutOff, if_neg hcut]
      rintro rest ⟨⟩
      exact h

theorem tame_whole_iff (hi : i < 2 ^ 31) (hwhole : Whole bytes) :
    Tame malloc (left + 1) i bytes ↔ Given malloc bytes ∧ announcedElems bytes ≤ 1 ∧
      i + 1 < 2 ^ 31 ∧ Tame malloc left (i + 1) (bytes.drop (packetSpan bytes)) := by
  have hmin := min_succ_turns left hi
  constructor
  · rintro ⟨hgiven, hone, hcounted, hcut⟩
    rw [hmin, whole, if_pos hwhole] at hgiven hone hcounted
    rw [hmin, cutOff, if_pos hwhole] at hcut
    obtain ⟨hroom, hrooms⟩ := List.forall_mem_cons.mp hgiven
    obtain ⟨hfirst, hrest⟩ := List.forall_mem_cons.mp hone
    rw [List.length_cons] at hcounted
    exact ⟨hroom, hfirst, by omega, hrooms, hrest, by omega, hcut⟩
  · rintro ⟨hroom, hfirst, hlt, hrooms, hone, hcounted, hcut⟩
    constructor
    · rw [hmin, whole, if_pos hwhole]
      exact List.forall_mem_cons.mpr ⟨hroom, hrooms⟩
    · rw [hmin, whole, if_pos hwhole]
      exact List.forall_mem_cons.mpr ⟨hfirst, hone⟩
    · rw [hmin, whole, if_pos hwhole, List.length_cons]
      omega
    · rw [hmin, cutOff, if_pos hwhole]
      exact hcut

theorem Tame.first (h : Tame malloc (left + 1) i bytes) (hi : i < 2 ^ 31) :
    Given malloc bytes := by
  by_cases hwhole : Whole bytes
  · exact ((tame_whole_iff hi hwhole).mp h).1
  · exact ((tame_cut_iff hi hwhole).mp h).1

end Tame

/-- The packets are decoded as they should be if and only if they are tame. -/
theorem decodePackets_leavesCleanly_iff {malloc : Malloc} {left i : Nat} (seg : Segment)
    (bytes : List UInt8) (hi : i < 2 ^ 31) :
    LeavesCleanly (decodePackets malloc left i seg bytes) ↔ Tame malloc left i bytes := by
  induction left generalizing i seg bytes with
  | zero => exact ⟨fun _ => tame_zero hi, fun _ => Or.inl ⟨(seg, bytes), rfl⟩⟩
  | succ left ih =>
      rw [decodePackets]
      cases hrun : (loadPacketWith malloc).run bytes with
      | error e =>
          dsimp only
          rw [leavesCleanly_error_iff, unwind]
          rcases refuses_packet.error hrun with ⟨hgiven, hload⟩ | ⟨hdenied, rfl⟩
          · obtain rfl := failsWith_loadPacket bytes e hload
            rw [tame_cut_iff hi (not_whole_of_error hload), ← freeable_iff, and_iff_right hgiven]
            split
            · rename_i hstuck
              exact iff_of_false (by decide) hstuck.2
            · rename_i hfree
              exact iff_of_true rfl (not_not.mp fun hstuck => hfree ⟨rfl, hstuck⟩)
          · -- a byte went to address 0
            exact iff_of_false (by simp) fun htame => hdenied (htame.first hi)
      | ok out =>
          obtain ⟨pkt, rest⟩ := out
          obtain ⟨hgiven, hload⟩ := refuses_packet.ok hrun
          have hloaded := loadPacket_loaded hload
          dsimp only
          rw [tame_whole_iff hi (whole_of_ok hload), and_iff_right hgiven, ← hloaded.rest_eq]
          by_cases hone : announcedElems bytes ≤ 1
          · obtain ⟨seg', happend⟩ := hloaded.appendRaw_ok hone seg
            rw [happend]
            dsimp only
            split
            · rename_i hlt
              rw [ih seg' rest hlt]
              exact ⟨fun htame => ⟨hone, hlt, htame⟩, fun h => h.2.2⟩
            · rename_i hlast
              rw [leavesCleanly_error_iff]
              exact iff_of_false (by decide) fun h => hlast h.2.1
          · rw [hloaded.appendRaw_outOfRange hone seg]
            dsimp only
            rw [leavesCleanly_error_iff]
            exact iff_of_false (by decide) fun h => hone h.1

/-- A packet that does not load does not overflow the counter. -/
theorem unwind_ne_overflow {malloc : Malloc} {bytes : List UInt8} {e : Fault}
    (h : (loadPacketWith malloc).run bytes = .error e) : unwind bytes e ≠ .signedOverflow := by
  rw [unwind]
  split
  · simp
  · rcases refuses_packet.error h with ⟨-, hload⟩ | ⟨-, rfl⟩
    · obtain rfl := failsWith_loadPacket bytes e hload
      simp
    · simp

/-- The counter overflows only when it has counted a packet for each of its values. -/
theorem decodePackets_overflow {malloc : Malloc} {left i : Nat} {seg : Segment}
    {bytes : List UInt8} (hi : i < 2 ^ 31)
    (h : decodePackets malloc left i seg bytes = .error .signedOverflow) :
    (2 ^ 31 - i) * fixedSize ≤ bytes.length := by
  induction left generalizing i seg bytes with
  | zero => cases h
  | succ left ih =>
      rw [decodePackets] at h
      cases hrun : (loadPacketWith malloc).run bytes with
      | error e =>
          rw [hrun] at h
          exact absurd (Except.error.inj h) (unwind_ne_overflow hrun)
      | ok out =>
          obtain ⟨pkt, rest⟩ := out
          have hshrinks := loadPacket_shrinks hrun
          have hloaded := loadPacket_loaded (refuses_packet.ok hrun).2
          rw [hrun] at h
          dsimp only at h
          by_cases hone : announcedElems bytes ≤ 1
          · obtain ⟨seg', happend⟩ := hloaded.appendRaw_ok hone seg
            rw [happend] at h
            dsimp only at h
            have hcount : 2 ^ 31 - i = 2 ^ 31 - (i + 1) + 1 := by omega
            rw [hcount, Nat.succ_mul]
            split at h
            · rename_i hlt
              have hrest := ih hlt h
              omega
            · rename_i hlast
              have hnone : 2 ^ 31 - (i + 1) = 0 := by omega
              rw [hnone, Nat.zero_mul]
              omega
          · rw [hloaded.appendRaw_outOfRange hone seg] at h
            cases h

/-- The packet that is destroyed makes a difference only when the archive throws. -/
theorem decodePackets_eq (malloc : Malloc) (left i : Nat) (seg : Segment) (bytes : List UInt8) :
    decodePackets malloc left i seg bytes = (loadPacketsWith malloc left i seg).run bytes ∨
      (loadPacketsWith malloc left i seg).run bytes = .error .archiveException ∧
        decodePackets malloc left i seg bytes = .error .outOfRange := by
  induction left generalizing i seg bytes with
  | zero => exact Or.inl rfl
  | succ left ih =>
      rw [decodePackets]
      cases hrun : (loadPacketWith malloc).run bytes with
      | error e =>
          rw [loadPacketsWith, run_bind_of_error hrun]
          dsimp only
          rw [unwind]
          split
          · rename_i hstuck
            exact Or.inr ⟨congrArg Except.error hstuck.1, rfl⟩
          · exact Or.inl rfl
      | ok out =>
          obtain ⟨pkt, rest⟩ := out
          dsimp only
          cases happend : seg.appendRaw pkt with
          | error e =>
              rw [loadPacketsWith, run_bind_of_ok hrun, happend]
              exact Or.inl rfl
          | ok seg' =>
              rw [loadPacketsWith, run_bind_of_ok hrun,
                run_bind_of_ok (liftM_run_eq_ok.mpr ⟨happend, rfl⟩)]
              dsimp only
              split
              · exact ih (i + 1) seg' rest
              · exact Or.inl rfl

theorem not_whole_nil : ¬ Whole [] := by
  rintro ⟨-, hspan⟩
  have hfixed := fixedSize_le_packetSpan []
  exact absurd (Nat.le_trans hfixed hspan) (by decide)

theorem whole_nil (left : Nat) : whole left [] = [] := by
  cases left with
  | zero => rfl
  | succ left => exact if_neg not_whole_nil

/-- Where there are no bytes left, a packet is cut off before it begins. -/
theorem cutOff_nil {left : Nat} {rest : List UInt8} (h : rest ∈ cutOff left []) : rest = [] := by
  cases left with
  | zero => cases h
  | succ left =>
      rw [cutOff, if_neg not_whole_nil] at h
      exact (Option.some.inj h).symm

/-- Decoding is what `loadSegmentWith` says, unless the archive throws and the packet at hand
cannot be destroyed. -/
theorem decode_eq (malloc : Malloc) (mem : Segment.Unassigned) (bytes : List UInt8) :
    decode malloc mem bytes = (loadSegmentWith malloc mem).run bytes ∨
      (loadSegmentWith malloc mem).run bytes = .error .archiveException ∧
        decode malloc mem bytes = .error .outOfRange := by
  rw [decode, loadSegmentWith_eq]
  cases hfront : (loadFrontWith malloc mem).run bytes with
  | error e =>
      rw [run_bind_of_error hfront]
      exact Or.inl rfl
  | ok out =>
      rw [run_bind_of_ok hfront]
      exact decodePackets_eq _ _ _ _ _

/-- A front that cannot be read does not lie whole in the bytes, and no packet behind it. -/
theorem tameMessage_of_error {malloc : Malloc} {mem : Segment.Unassigned} {bytes : List UInt8}
    {e : Fault} (hgiven : GivenFront malloc bytes) (h : (loadFront mem).run bytes = .error e) :
    TameMessage malloc bytes := by
  by_cases hsize : 0 ≤ (wordAt Int32 bytes 52).toInt
  · have hcut : ¬ frontSpan bytes ≤ bytes.length := by
      intro hspan
      obtain ⟨out, hout⟩ := loadFront_ok mem hsize hspan
      rw [hout] at h
      cases h
    have hempty : bytes.drop (frontSpan bytes) = [] :=
      List.drop_eq_nil_of_le (Nat.le_of_not_le hcut)
    have hpackets : wholePackets bytes = [] := by
      rw [wholePackets, if_pos hsize, hempty, whole_nil]
    refine ⟨hgiven, by simp [hpackets], by simp [hpackets], by simp [hpackets], ?_⟩
    intro rest hrest
    rw [cutOffPacket, if_pos hsize, hempty] at hrest
    rw [cutOff_nil hrest]
    exact ⟨given_nil, by decide⟩
  · have hpackets : wholePackets bytes = [] := if_neg hsize
    have hcut : cutOffPacket bytes = none := if_neg hsize
    exact ⟨hgiven, by simp [hpackets], by simp [hpackets], by simp [hpackets], by simp [hcut]⟩

theorem load_halts (malloc : Malloc) (mem : Segment.Unassigned) (bytes : List UInt8) :
    ∀ seg pkts rest, (loadFrontWith malloc mem).run bytes = .ok ((seg, pkts), rest) →
      loadLoop malloc pkts (bytes.length / fixedSize + 1) 0 seg rest =
        some (decode malloc mem bytes) := by
  intro seg pkts rest hfront
  obtain ⟨-, hrest⟩ := loadFront_run ((refuses_front mem).ok hfront).2
  have hlength : rest.length ≤ bytes.length := by
    rw [hrest, List.length_drop]
    exact Nat.sub_le _ _
  have hturns : rest.length < (bytes.length / fixedSize + 1) * fixedSize :=
    Nat.lt_of_le_of_lt hlength (Nat.lt_mul_of_div_lt (Nat.lt_succ_self _) (by decide))
  rw [loadLoop_eq hturns, decode, hfront]
  rfl

theorem handedOn_length_le (malloc : Malloc) (mem : Segment.Unassigned) (bytes : List UInt8) :
    (handedOnWith malloc mem bytes).length * fixedSize ≤ bytes.length := by
  rw [handedOnWith]
  cases hfront : (loadFrontWith malloc mem).run bytes with
  | error e => simp
  | ok out =>
      obtain ⟨⟨seg, pkts⟩, rest⟩ := out
      obtain ⟨-, hrest⟩ := loadFront_run ((refuses_front mem).ok hfront).2
      calc (handedWith malloc pkts.toNat 0 rest).length * fixedSize
          ≤ rest.length := handed_length_le _ _ _ _
        _ ≤ bytes.length := by
            rw [hrest, List.length_drop]
            exact Nat.sub_le _ _

theorem load_counted (malloc : Malloc) (mem : Segment.Unassigned) (bytes : List UInt8)
    (h : bytes.length < 2 ^ 31 * fixedSize) :
    decode malloc mem bytes ≠ .error .signedOverflow := by
  intro hrun
  rw [decode] at hrun
  cases hfront : (loadFrontWith malloc mem).run bytes with
  | error e =>
      rw [hfront] at hrun
      obtain rfl : e = .signedOverflow := Except.error.inj hrun
      rcases (refuses_front mem).error hfront with ⟨-, hload⟩ | ⟨-, heq⟩
      · cases failsWith_loadFront mem bytes _ hload
      · cases heq
  | ok out =>
      obtain ⟨⟨seg, pkts⟩, rest⟩ := out
      obtain ⟨-, hrest⟩ := loadFront_run ((refuses_front mem).ok hfront).2
      rw [hfront] at hrun
      have hcounted := decodePackets_overflow (by decide) hrun
      rw [hrest, List.length_drop] at hcounted
      omega

/-- Decoding any bytes, whatever `malloc` answers, ends with a segment or by an exception of the
archive, after as many turns as fit into them, if and only if the message is tame. -/
theorem ends_iff (malloc : Malloc) (mem : Segment.Unassigned) (bytes : List UInt8) :
    Ends malloc mem bytes ↔ TameMessage malloc bytes := by
  suffices hleaves : LeavesCleanly (decode malloc mem bytes) ↔ TameMessage malloc bytes from
    ⟨fun h => hleaves.mp h.outcome, fun h => ⟨load_halts malloc mem bytes, hleaves.mpr h,
      handedOn_length_le malloc mem bytes, load_counted malloc mem bytes⟩⟩
  rw [decode]
  cases hfront : (loadFrontWith malloc mem).run bytes with
  | error e =>
      dsimp only
      rcases (refuses_front mem).error hfront with ⟨hgiven, hload⟩ | ⟨hdenied, rfl⟩
      · obtain rfl := failsWith_loadFront mem bytes e hload
        exact iff_of_true (Or.inr rfl) (tameMessage_of_error hgiven hload)
      · rw [leavesCleanly_error_iff]
        exact iff_of_false (by decide) fun htame => hdenied htame.front
  | ok out =>
      obtain ⟨⟨seg, pkts⟩, rest⟩ := out
      obtain ⟨hgiven, hload⟩ := (refuses_front mem).ok hfront
      obtain ⟨hpkts, rfl⟩ := loadFront_run hload
      have hsize := extradata_nonneg hload
      have hpackets : wholePackets bytes = whole (countable bytes) (bytes.drop (frontSpan bytes)) :=
        if_pos hsize
      have hcut : cutOffPacket bytes = cutOff (countable bytes) (bytes.drop (frontSpan bytes)) :=
        if_pos hsize
      rw [countable, ← hpkts] at hpackets hcut
      dsimp only
      rw [decodePackets_leavesCleanly_iff seg _ (by decide)]
      constructor
      · rintro ⟨hgivens, hone, hcounted, hcut'⟩
        exact ⟨hgiven, hpackets ▸ hgivens, hpackets ▸ hone, hpackets ▸ hcounted, hcut ▸ hcut'⟩
      · rintro ⟨-, hgivens, hone, hcounted, hcut'⟩
        exact ⟨hpackets ▸ hgivens, hpackets ▸ hone, hpackets ▸ hcounted, hcut ▸ hcut'⟩

/-- Of a packet with two side-data elements one is read, and its copy walks off the end. -/
theorem second_element_neither_loaded_nor_refused :
    ¬ Ends roomy Segment.Unassigned.zero (saveSegment (segmentWith twoSideData)) := by
  intro h
  have houtcome := h.outcome
  rcases decode_eq roomy Segment.Unassigned.zero (saveSegment (segmentWith twoSideData)) with
    hdecode | ⟨hload, -⟩
  · rw [hdecode, loadSegment_twoSideData, leavesCleanly_error_iff] at houtcome
    cases houtcome
  · rw [loadSegment_twoSideData] at hload
    cases hload

/-- A message with a packet that announces side data of `2 ^ 60` bytes and has a few of them. -/
def hugeSideData : List UInt8 :=
  (saveSegment (segmentWith Packet.create)).take 172 ++
    savePacket { Packet.create.val with
      sideDataElems := 1, sideData := [⟨[0], UInt64.ofNat (2 ^ 60), 0⟩] }

/-- With room for them the archive throws, and without they go to address 0. -/
example :
    decode roomy Segment.Unassigned.zero hugeSideData = .error .archiveException ∧
      decode (fun _ size => decide (size < 2 ^ 47)) Segment.Unassigned.zero hugeSideData =
        .error .nullDereference := by
  decide +kernel

end Media2.Serialization

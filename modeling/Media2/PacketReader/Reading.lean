import Media2.PacketReader.Steps

/-!
# Reading a source to its end

`av_read_frame` returns the packets of the source and then fails. The read loop forwards each
packet before it reads the next one, and however users pause and resume, it sends `eof` only
after the last packet and ends only when that event was accepted.
-/

namespace Media2.PacketReader

open Execution

/-- A reader with the packets that `av_read_frame` has still to return. -/
structure Reading where
  reader : PacketReader
  input : List Packet

/-- The events of this part of a reader's life. -/
inductive Toggle
  | play
  | pause
  deriving DecidableEq

def Toggle.request : Toggle → Request
  | .play => .play
  | .pause => .pause

/-- The next step: an event of a user or of a subscriber, or a step of the reading thread. -/
inductive Control
  | sendEvent (e : Toggle)
  | callback (e : Toggle)
  | reader
  deriving DecidableEq

namespace Reading

/-- The reader as its constructor leaves it when libav opened the source. -/
def opened (filename : String) (libav : Nat → Libav) (formatContext : FormatContext) :
    PacketReader :=
  ((create filename).openFormat (some formatContext)).setUp libav true formatContext

def start (filename : String) (libav : Nat → Libav) (formatContext : FormatContext)
    (packets : List Packet) : Reading :=
  ⟨opened filename libav formatContext, packets⟩

/-- One step. A call of `av_read_frame` takes the next packet, or fails if there is none. -/
def step (r : Reading) : Control → Option Reading
  | .sendEvent e => (r.reader.step (.sendEvent e.request)).map fun s => ⟨s, r.input⟩
  | .callback e => (r.reader.step (.callback e.request)).map fun s => ⟨s, r.input⟩
  | .reader =>
      if r.reader.threads = [.read] then
        (r.reader.step (.reader r.input.head?)).map fun s => ⟨s, r.input.tail⟩
      else (r.reader.step (.reader none)).map fun s => ⟨s, r.input⟩

end Reading

/-- The packets read. -/
def reads (log : List Happening) : List Packet :=
  log.filterMap fun
    | .read packet => some packet
    | _ => none

/-- The packets forwarded. -/
def forwards (log : List Happening) : List Delivery :=
  log.filterMap fun
    | .forward d => some d
    | _ => none

/-- The machine has accepted `eof`, and its action has raised the signal. -/
def Happening.isEof : Happening → Bool
  | .event _ .eof _ _ => true
  | _ => false

/-- The packet that the reading thread has read and not forwarded yet. -/
def inHand : List Thread → List Packet
  | [.lock packet] | [.forward packet] => [packet]
  | _ => []

/-- What is to become of a packet: it goes to the entry of its stream, or is dropped if that
has no data. -/
def deliver (streams : List Stream) (packet : Packet) : Option Delivery :=
  match streams[packet.val.streamIndex.toInt.toNat]? with
  | some stream => if stream.data.isSome then some (stream.forward packet) else none
  | none => none

/-- The packets of a container are on its streams. -/
def OnStreams (formatContext : FormatContext) (packets : List Packet) : Prop :=
  ∀ packet ∈ packets, ∃ i < formatContext.streams.length, packet.val.streamIndex.toInt = i

/-- The loop forwards what it reads, in order and once, and ends with one `eof` after it. -/
structure ForwardsAll (streams : List Stream) (packets : List Packet) (r : Reading) : Prop where
  alive : r.reader.death = none
  read : reads r.reader.log ++ r.input = packets
  forwarded : ∃ handled, reads r.reader.log = handled ++ inHand r.reader.threads ∧
    forwards r.reader.log = handled.filterMap (deliver streams)
  eofOnce : r.reader.log.countP Happening.isEof ≤ 1
  eofLast : ∀ pre h post, r.reader.log = pre ++ h :: post → h.isEof = true →
    reads pre = packets ∧ forwards pre = packets.filterMap (deliver streams) ∧ forwards post = []
  ended : r.reader.threads = [.finished] →
    r.reader.state = .done ∧ ∃ h ∈ r.reader.log, h.isEof = true

/-- The reading thread has not been started, is in its loop, or has sent the `eof` that ends the
loop. -/
inductive Phase (r : Reading) : Prop
  | unstarted (hthreads : r.reader.threads = [])
      (hstate : r.reader.state = .opened ∨ r.reader.state = .failed)
      (hnone : ∀ h ∈ r.reader.log, h.isEof = false)
  | looping (t : Thread) (hthreads : r.reader.threads = [t]) (ht : t ≠ .finished)
      (hstate : r.reader.state = .playing ∨ r.reader.state = .paused)
      (hinput : t = .eof → r.input = []) (hnone : ∀ h ∈ r.reader.log, h.isEof = false)
  | ended (t : Thread) (pre : List Happening) (hthreads : r.reader.threads = [t])
      (ht : t = .test ∨ t = .finished) (hstate : r.reader.state = .done) (hinput : r.input = [])
      (hlog : r.reader.log = pre ++ [.event true .eof .playing .done])
      (hnone : ∀ h ∈ pre, h.isEof = false)

/-- Nobody opens or closes the source, and what was read was forwarded, up to what is in hand. -/
structure Follows (streams : List Stream) (packets : List Packet) (r : Reading) : Prop where
  alive : r.reader.Alive
  context : r.reader.formatContext.isSome = true
  tables : r.reader.tables.streams = streams
  work : r.reader.work = none
  read : reads r.reader.log ++ r.input = packets
  forwarded : ∃ handled, reads r.reader.log = handled ++ inHand r.reader.threads ∧
    forwards r.reader.log = handled.filterMap (deliver streams)
  phase : Phase r

theorem reads_append (log log' : List Happening) : reads (log ++ log') = reads log ++ reads log' :=
  List.filterMap_append

theorem forwards_append (log log' : List Happening) :
    forwards (log ++ log') = forwards log ++ forwards log' :=
  List.filterMap_append

/-- A list has its one `eof` at its end. -/
theorem eof_last {pre pre' post : List Happening} {e h : Happening}
    (hnone : ∀ h ∈ pre, h.isEof = false) (heq : pre ++ [e] = pre' ++ h :: post)
    (hh : h.isEof = true) : pre' = pre ∧ post = [] := by
  cases List.eq_nil_or_concat' post with
  | inl hnil =>
      subst hnil
      exact ⟨(List.append_inj' heq rfl).1.symm, rfl⟩
  | inr hconcat =>
      obtain ⟨init, last, rfl⟩ := hconcat
      have hpre : pre = pre' ++ h :: init := by
        rw [← List.cons_append, ← List.append_assoc] at heq
        exact (List.append_inj' heq rfl).1
      have hfalse := hnone h (by simp [hpre])
      exact Bool.noConfusion (hfalse.symm.trans hh)

section Invariant

variable {streams : List Stream} {packets : List Packet} {r : Reading}

theorem Follows.forwardsAll (hs : Follows streams packets r) : ForwardsAll streams packets r := by
  have hcount : ∀ log : List Happening, (∀ h ∈ log, h.isEof = false) →
      log.countP Happening.isEof = 0 := by
    intro log hnone
    rw [List.countP_eq_zero]
    exact fun h hmem => by simp [hnone h hmem]
  refine ⟨hs.alive.1, hs.read, hs.forwarded, ?_, ?_, ?_⟩
  · cases hs.phase with
    | unstarted _ _ hnone => exact Nat.le_of_eq (hcount _ hnone) |>.trans (Nat.zero_le 1)
    | looping _ _ _ _ _ hnone => exact Nat.le_of_eq (hcount _ hnone) |>.trans (Nat.zero_le 1)
    | ended t pre _ _ _ _ hlog hnone =>
        rw [hlog, List.countP_append, hcount pre hnone]
        decide
  · intro pre h post hlog hh
    have hnot : (∀ h ∈ r.reader.log, h.isEof = false) → False := fun hnone =>
      Bool.noConfusion ((hnone h (by simp [hlog])).symm.trans hh)
    cases hs.phase with
    | unstarted _ _ hnone => exact (hnot hnone).elim
    | looping _ _ _ _ _ hnone => exact (hnot hnone).elim
    | ended t pre' hthreads ht _ hinput hlog' hnone =>
        obtain ⟨rfl, rfl⟩ := eof_last hnone (hlog'.symm.trans hlog) hh
        have hhand : inHand r.reader.threads = [] := by
          rw [hthreads]
          obtain rfl | rfl := ht <;> rfl
        have hread := hs.read
        obtain ⟨handled, hhandled, hforwarded⟩ := hs.forwarded
        rw [hhand, List.append_nil] at hhandled
        rw [hinput, List.append_nil, hhandled] at hread
        subst hread
        rw [hlog', reads_append] at hhandled
        rw [hlog', forwards_append] at hforwarded
        exact ⟨by simpa [reads] using hhandled, by simpa [forwards] using hforwarded, rfl⟩
  · intro hfinished
    cases hs.phase with
    | unstarted hthreads => cases hthreads.symm.trans hfinished
    | looping t hthreads ht =>
        exact absurd (List.singleton_inj.mp (hthreads.symm.trans hfinished)) ht
    | ended t pre _ _ hstate _ hlog _ =>
        exact ⟨hstate, _, by rw [hlog]; exact List.mem_append_right _ (List.mem_singleton_self _),
          rfl⟩

/-- There was no `eof` while the machine is in `playing` or `paused`. -/
theorem Follows.noEof (hs : Follows streams packets r)
    (hstate : r.reader.state = .playing ∨ r.reader.state = .paused) :
    ∀ h ∈ r.reader.log, h.isEof = false := by
  cases hs.phase with
  | unstarted _ _ hnone => exact hnone
  | looping _ _ _ _ _ hnone => exact hnone
  | ended _ _ _ _ hdone =>
      rw [hdone] at hstate
      cases hstate with
      | inl h => cases h
      | inr h => cases h

/-- The thread goes on with what it has in hand. -/
theorem Follows.goto (hs : Follows streams packets r) {t : Thread} (t' : Thread)
    (hthreads : r.reader.threads = [t])
    (hstate : r.reader.state = .playing ∨ r.reader.state = .paused)
    (hhand : inHand [t'] = inHand [t]) (ht' : t' ≠ .finished)
    (hinput : t' = .eof → r.input = []) :
    Follows streams packets ⟨{ r.reader with threads := [t'] }, r.input⟩ := by
  refine ⟨hs.alive, hs.context, hs.tables, hs.work, hs.read, ?_,
    Phase.looping t' rfl ht' hstate hinput (hs.noEof hstate)⟩
  rw [hhand, ← hthreads]
  exact hs.forwarded

/-- A turn or an event is recorded, while the loop goes on. -/
theorem Follows.note (hs : Follows streams packets r) {h : Happening} {state : PlayerState}
    (hfrom : r.reader.state = .playing ∨ r.reader.state = .paused)
    (hstate : state = .playing ∨ state = .paused) (hread : reads [h] = [])
    (hforward : forwards [h] = []) (heof : h.isEof = false) :
    Follows streams packets
      ⟨{ r.reader with state := state, log := r.reader.log ++ [h] }, r.input⟩ := by
  have hnone : ∀ h' ∈ r.reader.log ++ [h], h'.isEof = false := by
    refine List.forall_mem_append.mpr ⟨?_, ?_⟩
    · exact hs.noEof hfrom
    · exact List.forall_mem_singleton.mpr heof
  refine ⟨hs.alive, hs.context, hs.tables, hs.work, ?_, ?_, ?_⟩
  · rw [reads_append, hread, List.append_nil]
    exact hs.read
  · rw [reads_append, forwards_append, hread, hforward, List.append_nil, List.append_nil]
    exact hs.forwarded
  · cases hs.phase with
    | unstarted _ hunstarted =>
        rcases hunstarted with h | h <;> rcases hfrom with h' | h' <;> cases h.symm.trans h'
    | looping t hthreads ht _ hinput _ => exact Phase.looping t hthreads ht hstate hinput hnone
    | ended _ _ _ _ hdone => rcases hfrom with h | h <;> cases hdone.symm.trans h

/-- The thread is started. -/
theorem Follows.started (hs : Follows streams packets r) (byReader : Bool)
    (hthreads : r.reader.threads = []) (hstate : r.reader.state = .opened) :
    Follows streams packets ⟨r.reader.send byReader .play, r.input⟩ := by
  have hsend : r.reader.send byReader .play = { r.reader with
      state := .playing
      threads := [.start]
      log := r.reader.log ++ [.event byReader .play .opened .playing] } := by
    simp only [send, hstate, transition, PacketReader.enter, act, startThread, hthreads, if_true]
  have hnone : ∀ h ∈ r.reader.log, h.isEof = false := by
    cases hs.phase with
    | unstarted _ _ hnone => exact hnone
    | looping t ht => cases hthreads.symm.trans ht
    | ended t pre ht => cases hthreads.symm.trans ht
  rw [hsend]
  refine ⟨hs.alive, hs.context, hs.tables, hs.work, ?_, ?_, ?_⟩
  · rw [reads_append]
    simpa [reads] using hs.read
  · have hforwarded := hs.forwarded
    rw [hthreads] at hforwarded
    rw [reads_append, forwards_append]
    simpa [reads, forwards, inHand] using hforwarded
  · apply Phase.looping .start rfl
    · simp
    · exact Or.inl rfl
    · simp
    · refine List.forall_mem_append.mpr ⟨?_, ?_⟩
      · exact hnone
      · exact List.forall_mem_singleton.mpr rfl

/-- A user or a subscriber sends `play` or `pause`, or the thread its first `play`. -/
theorem Follows.toggle (hs : Follows streams packets r) (byReader : Bool) (e : Toggle) :
    Follows streams packets ⟨r.reader.send byReader e.request.event, r.input⟩ := by
  have hignored : transition r.reader.state e.request.event = none →
      Follows streams packets ⟨r.reader.send byReader e.request.event, r.input⟩ := by
    intro hnone
    rw [send, hnone]
    exact hs
  have hentered : ∀ target action,
      transition r.reader.state e.request.event = some (target, action) →
      action = none ∨ action = some .unpause →
      (r.reader.state = .playing ∨ r.reader.state = .paused) →
      (target = .playing ∨ target = .paused) →
      Follows streams packets ⟨r.reader.send byReader e.request.event, r.input⟩ := by
    intro target action htransition haction hfrom hto
    have hnote := hs.note (h := .event byReader e.request.event r.reader.state target) hfrom hto
      rfl rfl (by cases e <;> rfl)
    rw [send, htransition]
    rcases haction with rfl | rfl
    · exact hnote
    · exact hnote
  cases hstate : r.reader.state with
  | opened =>
      cases e with
      | pause => exact hignored (by rw [hstate]; rfl)
      | play =>
          cases hs.phase with
          | unstarted hthreads => exact hs.started byReader hthreads hstate
          | looping _ _ _ hloop => simp [hstate] at hloop
          | ended _ _ _ _ hdone => cases hstate.symm.trans hdone
  | playing =>
      cases e with
      | play => exact hignored (by rw [hstate]; rfl)
      | pause =>
          apply hentered .paused none (by rw [hstate]; rfl) (Or.inl rfl) (Or.inl hstate)
          exact Or.inr rfl
  | paused =>
      apply hentered .playing (some .unpause) ?_ (Or.inr rfl) (Or.inr hstate) (Or.inl rfl)
      rw [hstate]
      cases e <;> rfl
  | _ => cases e <;> exact hignored (by rw [hstate]; rfl)

/-- The reading thread sends `eof`, which is accepted unless the machine is in `paused`. -/
theorem Follows.sendEof (hs : Follows streams packets r) (hthreads : r.reader.threads = [.eof])
    (hstate : r.reader.state = .playing ∨ r.reader.state = .paused) (hinput : r.input = []) :
    Follows streams packets ⟨{ r.reader with threads := [.test] }.send true .eof, r.input⟩ := by
  have htest : Follows streams packets ⟨{ r.reader with threads := [.test] }, r.input⟩ := by
    apply hs.goto .test hthreads hstate rfl
    · simp
    · simp
  cases hstate with
  | inr hpaused =>
      have hsend : { r.reader with threads := [.test] }.send true .eof =
          { r.reader with threads := [.test] } := by simp only [send, hpaused, transition]
      rw [hsend]
      exact htest
  | inl hplaying =>
      have hsend : { r.reader with threads := [.test] }.send true .eof = { r.reader with
          threads := [.test]
          state := .done
          log := r.reader.log ++ [.event true .eof .playing .done] } := by
        simp only [send, hplaying, transition, PacketReader.enter, act]
      rw [hsend]
      refine ⟨hs.alive, hs.context, hs.tables, hs.work, ?_, ?_, ?_⟩
      · rw [reads_append]
        simpa [reads] using htest.read
      · rw [reads_append, forwards_append]
        simpa [reads, forwards] using htest.forwarded
      · exact Phase.ended .test r.reader.log rfl (Or.inl rfl) rfl hinput rfl
          (hs.noEof (Or.inl hplaying))

/-- A call of `av_read_frame` returns the next packet, or fails once there is none. -/
theorem Follows.readFrame (hs : Follows streams packets r) (hthreads : r.reader.threads = [.read])
    (hstate : r.reader.state = .playing ∨ r.reader.state = .paused) {s' : PacketReader}
    (h : r.reader.processPrivately .read r.input.head? = some s') :
    Follows streams packets ⟨s', r.input.tail⟩ := by
  simp only [processPrivately, hs.context, if_true] at h
  cases hinput : r.input with
  | nil =>
      rw [hinput] at h
      obtain rfl := Option.some.inj h
      have heof := hs.goto .eof hthreads hstate rfl (by simp) fun _ => hinput
      rw [hinput] at heof
      exact heof
  | cons packet input =>
      rw [hinput] at h
      obtain rfl := Option.some.inj h
      have hread := hs.read
      obtain ⟨handled, hhandled, hforwarded⟩ := hs.forwarded
      rw [hinput] at hread
      rw [hthreads] at hhandled
      refine ⟨hs.alive, hs.context, hs.tables, hs.work, ?_, ⟨handled, ?_, ?_⟩, ?_⟩
      · rw [reads_append]
        simpa [reads] using hread
      · rw [reads_append, hhandled]
        simp [reads, inHand]
      · rw [forwards_append, hforwarded]
        exact List.append_nil _
      · apply Phase.looping (.lock packet) rfl
        · simp
        · exact hstate
        · simp
        · refine List.forall_mem_append.mpr ⟨?_, ?_⟩
          · exact hs.noEof hstate
          · exact List.forall_mem_singleton.mpr rfl

/-- A packet on a stream of the table goes where it is to go. -/
theorem forwardRead_eq {packet : Packet} {i : Nat} (hi : i < streams.length)
    (hindex : packet.val.streamIndex.toInt = i) :
    forwardRead streams packet = .ok (deliver streams packet) := by
  have hnat : packet.val.streamIndex.toInt.toNat = i := by omega
  simp only [forwardRead, deliver, streamAt_eq hindex hi, hnat, List.getElem?_eq_getElem hi]
  simp only [bind, Except.bind, pure, Except.pure]
  split <;> rfl

/-- The packet in hand is forwarded or dropped. -/
theorem Follows.forwardPacket (hs : Follows streams packets r) {packet : Packet}
    (hthreads : r.reader.threads = [.forward packet])
    (hstate : r.reader.state = .playing ∨ r.reader.state = .paused)
    (hforward : forwardRead streams packet = .ok (deliver streams packet)) {s' : PacketReader}
    (h : r.reader.processPrivately (.forward packet) none = some s') :
    Follows streams packets ⟨s', r.input⟩ := by
  obtain ⟨handled, hhandled, hforwarded⟩ := hs.forwarded
  rw [hthreads] at hhandled
  simp only [processPrivately, hs.tables, hforward] at h
  cases hdeliver : deliver streams packet with
  | none =>
      rw [hdeliver] at h
      obtain rfl := Option.some.inj h
      refine ⟨hs.alive, hs.context, hs.tables, hs.work, hs.read, ⟨handled ++ [packet], ?_, ?_⟩, ?_⟩
      · simpa [inHand] using hhandled
      · rw [List.filterMap_append, ← hforwarded]
        simp [hdeliver]
      · exact Phase.looping .release rfl (by simp) hstate (by simp) (hs.noEof hstate)
  | some d =>
      rw [hdeliver] at h
      obtain rfl := Option.some.inj h
      refine ⟨hs.alive, hs.context, hs.tables, hs.work, ?_, ⟨handled ++ [packet], ?_, ?_⟩, ?_⟩
      · rw [reads_append]
        simpa [reads] using hs.read
      · rw [reads_append, hhandled]
        simp [reads, inHand]
      · rw [forwards_append, List.filterMap_append, ← hforwarded]
        simp [forwards, hdeliver]
      · apply Phase.looping .release rfl
        · simp
        · exact hstate
        · simp
        · refine List.forall_mem_append.mpr ⟨?_, ?_⟩
          · exact hs.noEof hstate
          · exact List.forall_mem_singleton.mpr rfl

/-- The thread's own steps in the loop. -/
theorem Follows.loop (hs : Follows streams packets r) {t : Thread}
    (hthreads : r.reader.threads = [t]) (ht : t ≠ .finished) (hread : t ≠ .read)
    (hstate : r.reader.state = .playing ∨ r.reader.state = .paused)
    (hinput : t = .eof → r.input = [])
    (hforward : ∀ packet, t = .forward packet →
      forwardRead streams packet = .ok (deliver streams packet)) {s' : PacketReader}
    (h : r.reader.processPrivately t none = some s') : Follows streams packets ⟨s', r.input⟩ := by
  have hfree : r.reader.unlocked = true := by rw [unlocked, hs.work]
  have hgoto : ∀ t' : Thread, inHand [t'] = inHand [t] → t' ≠ .finished → t' ≠ .eof →
      Follows streams packets ⟨{ r.reader with threads := [t'] }, r.input⟩ := fun t' hhand ht' heof =>
    hs.goto t' hthreads hstate hhand ht' fun heq => absurd heq heof
  have hdone : r.reader.state ≠ .done := by
    rcases hstate with h | h <;> rw [h] <;> decide
  cases t with
  | start =>
      simp only [processPrivately, hfree, if_true, Option.some.injEq] at h
      exact h ▸ (hgoto .test rfl (by simp) (by simp)).toggle true .play
  | test =>
      simp only [processPrivately, hdone, if_false, Option.some.injEq] at h
      have hturn := (hgoto .testPaused rfl (by simp) (by simp)).note
        (h := .turn r.reader.state) hstate hstate rfl rfl rfl
      exact h ▸ hturn
  | testPaused =>
      simp only [processPrivately, Option.some.injEq] at h
      subst h
      split
      · exact hgoto .wait rfl (by simp) (by simp)
      · exact hgoto .read rfl (by simp) (by simp)
  | wait =>
      simp only [processPrivately, Option.some.injEq] at h
      exact h ▸ hgoto .read rfl (by simp) (by simp)
  | read => exact absurd rfl hread
  | eof =>
      simp only [processPrivately, hfree, if_true, Option.some.injEq] at h
      exact h ▸ hs.sendEof hthreads hstate (hinput rfl)
  | lock packet =>
      have hopen : r.reader.streamsLocked = false := by rw [streamsLocked, hs.work]
      simp only [processPrivately, hopen, Bool.false_eq_true, if_false, Option.some.injEq] at h
      exact h ▸ hgoto (.forward packet) rfl (by simp) (by simp)
  | forward packet => exact hs.forwardPacket hthreads hstate (hforward packet rfl) h
  | release =>
      simp only [processPrivately, Option.some.injEq] at h
      exact h ▸ hgoto .test rfl (by simp) (by simp)
  | finished => exact absurd rfl ht

/-- After `eof` the thread leaves its loop. -/
theorem Follows.finish (hs : Follows streams packets r) {t : Thread}
    (hthreads : r.reader.threads = [t]) (ht : t = .test ∨ t = .finished)
    (hstate : r.reader.state = .done) {s' : PacketReader}
    (h : r.reader.processPrivately t none = some s') : Follows streams packets ⟨s', r.input⟩ := by
  cases ht with
  | inr hfinished =>
      rw [hfinished] at h
      cases h
  | inl htest =>
      subst htest
      simp only [processPrivately, hstate, if_true, Option.some.injEq] at h
      subst h
      cases hs.phase with
      | unstarted hnothing => cases hnothing.symm.trans hthreads
      | looping _ _ _ hloop => simp [hstate] at hloop
      | ended t pre _ _ _ hinput hlog hnone =>
          have hforwarded := hs.forwarded
          rw [hthreads] at hforwarded
          exact ⟨hs.alive, hs.context, hs.tables, hs.work, hs.read, hforwarded,
            Phase.ended .finished pre rfl (Or.inr rfl) rfl hinput hlog hnone⟩

/-- The packet in hand is one of the source. -/
theorem Follows.mem_of_inHand (hs : Follows streams packets r) {packet : Packet}
    (h : packet ∈ inHand r.reader.threads) : packet ∈ packets := by
  obtain ⟨handled, hhandled, -⟩ := hs.forwarded
  rw [← hs.read, hhandled]
  exact List.mem_append_left _ (List.mem_append_right _ h)

/-- A step of the reading thread. -/
theorem Follows.reader (hs : Follows streams packets r)
    (hroutes : ∀ packet ∈ packets, forwardRead streams packet = .ok (deliver streams packet))
    {r' : Reading} (h : r.step .reader = some r') : Follows streams packets r' := by
  have hloop : ∀ t, r.reader.threads = [t] → t ≠ .read → ∀ s',
      r.reader.processPrivately t none = some s' → Follows streams packets ⟨s', r.input⟩ := by
    intro t hthreads hread s' hstep
    cases hs.phase with
    | unstarted hnothing => cases hnothing.symm.trans hthreads
    | ended u pre hu hplace hstate =>
        obtain rfl := List.singleton_inj.mp (hu.symm.trans hthreads)
        exact hs.finish hthreads hplace hstate hstep
    | looping u hu hlive hstate hinput =>
        obtain rfl := List.singleton_inj.mp (hu.symm.trans hthreads)
        apply hs.loop hthreads hlive hread hstate hinput _ hstep
        rintro packet rfl
        apply hroutes packet (hs.mem_of_inHand _)
        rw [hthreads]
        exact List.mem_singleton_self packet
  rw [Reading.step] at h
  split at h
  · rename_i hread
    obtain ⟨s', hstep, rfl⟩ := Option.map_eq_some_iff.mp h
    simp only [step, hs.alive, if_true, hread] at hstep
    apply hs.readFrame hread _ hstep
    cases hs.phase with
    | unstarted hnothing => cases hnothing.symm.trans hread
    | looping _ _ _ hstate => exact hstate
    | ended t _ hthreads ht =>
        obtain rfl := List.singleton_inj.mp (hthreads.symm.trans hread)
        simp at ht
  · rename_i hread
    obtain ⟨s', hstep, rfl⟩ := Option.map_eq_some_iff.mp h
    simp only [step, hs.alive, if_true] at hstep
    split at hstep
    · rename_i t hthreads
      apply hloop t hthreads _ s' hstep
      rintro rfl
      exact hread hthreads
    · cases hstep

theorem step_follows
    (hroutes : ∀ packet ∈ packets, forwardRead streams packet = .ok (deliver streams packet))
    {r' : Reading} {l : Control} (hs : Follows streams packets r) (h : r.step l = some r') :
    Follows streams packets r' := by
  cases l with
  | sendEvent e =>
      obtain ⟨s', hstep, rfl⟩ := Option.map_eq_some_iff.mp h
      simp only [step, hs.alive, if_true, Option.ite_none_right_eq_some, Option.some.injEq] at hstep
      exact hstep.2 ▸ hs.toggle false e
  | callback e =>
      obtain ⟨s', hstep, rfl⟩ := Option.map_eq_some_iff.mp h
      simp only [step, hs.alive, if_true, Option.ite_none_right_eq_some, Option.some.injEq] at hstep
      exact hstep.2 ▸ hs.toggle false e
  | reader => exact hs.reader hroutes h

end Invariant

/-- Opening with the source there is two steps of the reader. -/
theorem exec_opened (filename : String) (libav : Nat → Libav) (formatContext : FormatContext) :
    exec step (create filename) [.openInput (some formatContext), .setUp libav true] =
      some (Reading.opened filename libav formatContext) := rfl

/-- What is recorded of the outcomes of an open. -/
def IsOutcome (h : Happening) : Prop :=
  ∃ e source target, h = .event false (.outcome e) source target

theorem Sends.outcome_log {s s' : PacketReader} {e : Event}
    (h : Sends s false (.outcome e) s') :
    ∃ events, s'.log = s.log ++ events ∧ ∀ h ∈ events, IsOutcome h := by
  cases h with
  | ignored => exact ⟨[], (List.append_nil _).symm, by simp⟩
  | enters target =>
      refine ⟨[.event false (.outcome e) s.state target], rfl, ?_⟩
      exact List.forall_mem_singleton.mpr ⟨e, s.state, target, rfl⟩
  | opens he => cases he
  | starts he => cases he
  | resets he => cases he

theorem foldl_log (outcomes : List Event) (s : PacketReader) :
    ∃ events, (outcomes.foldl (fun s e => s.send false (.outcome e)) s).log = s.log ++ events ∧
      ∀ h ∈ events, IsOutcome h := by
  induction outcomes generalizing s with
  | nil => exact ⟨[], (List.append_nil _).symm, by simp⟩
  | cons e outcomes ih =>
      obtain ⟨first, hfirst, hevents⟩ := (send_cases s false (.outcome e)).outcome_log
      obtain ⟨rest, hrest, hevents'⟩ := ih (s.send false (.outcome e))
      refine ⟨first ++ rest, ?_, ?_⟩
      · rw [List.foldl_cons, hrest, hfirst, List.append_assoc]
      · exact List.forall_mem_append.mpr ⟨hevents, hevents'⟩

theorem report_log (s : PacketReader) (o : Opened) :
    ∃ events, (s.report o).log = s.log ++ events ∧ ∀ h ∈ events, IsOutcome h := by
  rw [report]
  split
  · exact foldl_log o.events s
  · have hfailed := foldl_log (o.events ++ [Event.openError ""]) s
    rw [List.foldl_append] at hfailed
    exact hfailed

theorem outcomes_quiet {events : List Happening} (h : ∀ h ∈ events, IsOutcome h) :
    reads events = [] ∧ forwards events = [] ∧ ∀ h ∈ events, h.isEof = false := by
  refine ⟨?_, ?_, ?_⟩
  · apply List.filterMap_eq_nil_iff.mpr
    intro a ha
    obtain ⟨e, source, target, rfl⟩ := h a ha
    rfl
  · apply List.filterMap_eq_nil_iff.mpr
    intro a ha
    obtain ⟨e, source, target, rfl⟩ := h a ha
    rfl
  · intro a ha
    obtain ⟨e, source, target, rfl⟩ := h a ha
    rfl

/-- The end of `setupStreams` leaves the reader with nothing read. -/
theorem report_follows {s : PacketReader} (halive : s.Alive)
    (hcontext : s.formatContext.isSome = true) (hthreads : s.threads = [])
    (hopening : s.state = .opening) (hreads : reads s.log = []) (hforwards : forwards s.log = [])
    (hnone : ∀ h ∈ s.log, h.isEof = false) (libav : Nat → Libav) (filename : String)
    (formatContext : FormatContext) (packets : List Packet) {o : Opened}
    (ho : PacketReader.setupStreams libav filename true formatContext StreamTables.empty = o) :
    Follows (s.report o).tables.streams packets ⟨s.report o, packets⟩ := by
  have hstate := report_state hopening libav filename true formatContext StreamTables.empty
  rw [ho] at hstate
  obtain ⟨log, hlog, houtcomes⟩ := report_log s o
  obtain ⟨hreads', hforwards', hnone'⟩ := outcomes_quiet houtcomes
  obtain ⟨state, events, hended, -⟩ := report_ended s o
  have hnothing : (s.report o).threads = [] := by
    rw [hended]
    exact hthreads
  constructor
  · rw [hended]
    exact halive
  · rw [hended]
    exact hcontext
  · rfl
  · rw [hended]
  · rw [hlog, reads_append, hreads, hreads']
    rfl
  · refine ⟨[], ?_, ?_⟩
    · rw [hnothing, hlog, reads_append, hreads, hreads']
      rfl
    · rw [hlog, forwards_append, hforwards, hforwards']
      rfl
  · apply Phase.unstarted
    · exact hnothing
    · rw [hstate]
      split
      · exact Or.inl rfl
      · exact Or.inr rfl
    · rw [hlog]
      exact List.forall_mem_append.mpr ⟨hnone, hnone'⟩

theorem start_follows (filename : String) (libav : Nat → Libav) (formatContext : FormatContext)
    (packets : List Packet) :
    Follows (Reading.opened filename libav formatContext).tables.streams packets
      (Reading.start filename libav formatContext packets) := by
  apply report_follows (s := ((create filename).openFormat (some formatContext)).filled
    formatContext _) ⟨rfl, rfl⟩ rfl rfl rfl rfl rfl _ libav filename formatContext packets rfl
  exact List.forall_mem_singleton.mpr rfl

/-- A reader of an opened source whose streams line up with the container forwards exactly what
`av_read_frame` returns, in every run in which users only play and pause. -/
theorem forwardsAll_of_exec (filename : String) (libav : Nat → Libav)
    (formatContext : FormatContext) (packets : List Packet)
    (haligned : Aligned formatContext
      (Reading.opened filename libav formatContext).tables.streams)
    (hpackets : OnStreams formatContext packets) (labels : List Control) :
    Always Reading.step
      (ForwardsAll (Reading.opened filename libav formatContext).tables.streams packets)
      (Reading.start filename libav formatContext packets) labels := by
  have hroutes : ∀ packet ∈ packets,
      forwardRead (Reading.opened filename libav formatContext).tables.streams packet =
        .ok (deliver (Reading.opened filename libav formatContext).tables.streams packet) := by
    intro packet hmem
    obtain ⟨i, hi, hindex⟩ := hpackets packet hmem
    exact forwardRead_eq (haligned.length_eq ▸ hi) hindex
  intro pre _ r hr
  have hfollows := invariant_of_step (fun _ _ _ hs hstep => step_follows hroutes hs hstep)
    (start_follows filename libav formatContext packets) hr
  exact hfollows.forwardsAll

/-- A container of one stream that libav can decode. -/
def decodableContainer : FormatContext where
  streams := [⟨0, ⟨1, 90000⟩, ⟨25, 1⟩, ⟨25, 1⟩, AVCodecParameters.zero⟩]
  index_eq := by decide
  length_lt := by decide

theorem decodableContainer_aligned : Aligned decodableContainer
    (Reading.opened "sample.mp4" (fun _ => Libav.sample) decodableContainer).tables.streams := by
  apply Aligned.of_refers rfl
  intro i hi
  obtain rfl : i = 0 := Nat.lt_one_iff.mp hi
  exact Or.inr ⟨_, _, rfl, rfl, rfl⟩

/-- The user pauses at the end of the source, so that the first `eof` is ignored. -/
def pauseAtEnd : List Control :=
  [.sendEvent .play] ++ List.replicate 9 .reader ++ [.sendEvent .pause, .reader, .reader] ++
    List.replicate 4 .reader ++ [.sendEvent .play] ++ List.replicate 2 .reader

theorem forwardsAll_of_exec_sample :
    Always Reading.step
      (ForwardsAll (Reading.opened "sample.mp4" (fun _ => Libav.sample)
        decodableContainer).tables.streams [Packet.keyFrame])
      (Reading.start "sample.mp4" (fun _ => Libav.sample) decodableContainer [Packet.keyFrame])
      pauseAtEnd :=
  forwardsAll_of_exec "sample.mp4" (fun _ => Libav.sample) decodableContainer [Packet.keyFrame]
    decodableContainer_aligned (List.forall_mem_singleton.mpr ⟨0, by decide, rfl⟩) pauseAtEnd

example : (exec Reading.step
    (Reading.start "sample.mp4" (fun _ => Libav.sample) decodableContainer [Packet.keyFrame])
    pauseAtEnd).map (fun r => r.reader.threads) = some [.finished] := rfl

end Media2.PacketReader

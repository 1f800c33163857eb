import Mathlib.Algebra.GroupWithZero.Nat
import Media2.Segmenter

/-!
# Delivery with flush

`flush` sends the current segment and leaves it in place, so what it sent is sent
once more by the next cut or by the destructor. The packets sent therefore
outnumber the packets fed by what was open at each flush.
-/

namespace Media2.Segmenter

open Execution

/-- The packets passed to `process`. -/
def fed : List Op → List Packet
  | [] => []
  | .process packet _ :: ops => packet :: fed ops
  | .flush :: ops => fed ops

/-- The packets that an emission delivers; a null segment delivers none. -/
def delivers (e : Emission) : List Packet :=
  match e.segment with
  | none => []
  | some seg => seg.packets

/-- Everything sent by the end of a session, the destructor's flush included. -/
def Session.allSent (s : Session) : List Emission := s.sent ++ s.segmenter.flush.emitted

/-- Nothing was passed to `process` since the last flush, or at all. -/
def NothingNew (ops : List Op) : Prop := ops = [] ∨ ops.getLast? = some .flush

/-- Exactly-once delivery in the session that made the calls `ops` and ended in
`s`. The flush after `pre` is one of the calls or the destructor's. -/
structure ExactlyOnce (mem : Segment.Unassigned) (jobId : Uuid) (nframes : Nat) (ops : List Op)
    (s : Session) : Prop where
  once : ∀ p, (s.allSent.map fun e => (delivers e).count p).sum = (fed ops).count p
  concat : s.allSent.flatMap delivers = fed ops
  flush_empty : ∀ pre, (pre ++ [.flush] <+: ops ∨ pre = ops) → NothingNew pre →
    ∀ t, exec (Session.step mem) (Session.start jobId nframes) pre = some t →
      ∀ e ∈ t.segmenter.flush.emitted, ∃ seg, e.segment = some seg ∧ seg.empty = true

theorem fed_append (ops ops' : List Op) : fed (ops ++ ops') = fed ops ++ fed ops' := by
  induction ops with
  | nil => rfl
  | cons op ops ih => cases op <;> simp [fed, ih]

/-- What is sent and what is open. -/
def Session.total (s : Session) : List Packet := s.sent.flatMap delivers ++ s.openPackets

theorem allSent_delivers (s : Session) : s.allSent.flatMap delivers = s.total := by
  simp only [Session.allSent, Session.total, flush, List.flatMap_append, List.flatMap_cons,
    List.flatMap_nil, List.append_nil]
  rfl

section Step

variable {mem : Segment.Unassigned} {s s' : Session}

theorem step_eq_some {op : Op} (h : s.step mem op = some s') :
    (s.outcome mem op).thrown = none ∧ s'.segmenter = (s.outcome mem op).state ∧
      s'.sent = s.sent ++ (s.outcome mem op).emitted := by
  unfold Session.step at h
  split at h
  · rename_i hok
    obtain rfl := Option.some.inj h
    exact ⟨hok, rfl, rfl⟩
  · cases h

/-- A call that does not throw sends what it cuts off and opens its packet. -/
theorem step_process {packet : Packet} {stream : Option StreamData}
    (h : s.step mem (.process packet stream) = some s') :
    s'.total = s.total ++ [packet] ∧ s'.openPackets ≠ [] := by
  obtain ⟨hok, hstate, hsent⟩ := step_eq_some h
  obtain ⟨seg', hcur', hcases⟩ := process_ok hok
  have hopen : s'.openPackets = seg'.packets := by
    rw [Session.openPackets, hstate]
    simp only [Session.outcome, hcur']
  rw [Session.total, hopen, hsent, Session.total, Session.openPackets]
  rcases hcases with ⟨hcur, hemit, hp⟩ | ⟨seg, hcur, ⟨hemit, hp⟩ | ⟨hemit, hp⟩⟩
  · simp [Session.outcome, hemit, hcur, hp]
  · simp [Session.outcome, hemit, hcur, hp, delivers]
  · simp [Session.outcome, hemit, hcur, hp]

/-- A flush sends what is open and leaves it open. -/
theorem step_flush (h : s.step mem .flush = some s') :
    s'.segmenter = s.segmenter ∧
      s'.total.length = s.total.length + s.openPackets.length := by
  obtain ⟨-, hstate, hsent⟩ := step_eq_some h
  have hopen : s'.openPackets = s.openPackets := by
    rw [Session.openPackets, hstate]
    rfl
  refine ⟨hstate, ?_⟩
  rw [Session.total, hopen, hsent, Session.total]
  have hflush : (s.outcome mem .flush).emitted.flatMap delivers = s.openPackets := by
    simp only [Session.outcome, flush, List.flatMap_cons, List.flatMap_nil, List.append_nil]
    rfl
  simp only [List.flatMap_append, hflush, List.length_append]

end Step

section Session

variable {mem : Segment.Unassigned} {s t : Session} {ops : List Op}

/-- No call takes back what is sent or open, and each packet fed adds one. -/
theorem exec_total_length (h : exec (Session.step mem) s ops = some t) :
    s.total.length + (fed ops).length ≤ t.total.length := by
  induction ops generalizing s with
  | nil =>
      obtain rfl : s = t := by simpa using h
      simp [fed]
  | cons op ops ih =>
      rw [exec_cons] at h
      obtain ⟨u, hu, h⟩ := Option.bind_eq_some_iff.mp h
      have hrest := ih h
      cases op with
      | process packet stream =>
          have hlen := congrArg List.length (step_process hu).1
          simp only [fed, List.length_append, List.length_cons, List.length_nil] at hlen ⊢
          omega
      | flush =>
          have hlen := (step_flush hu).2
          simp only [fed]
          omega

/-- Without a flush what is sent and what is open are the packets fed. -/
theorem exec_total (h : exec (Session.step mem) s ops = some t) (hops : .flush ∉ ops) :
    t.total = s.total ++ fed ops := by
  induction ops generalizing s with
  | nil =>
      obtain rfl : s = t := by simpa using h
      simp [fed]
  | cons op ops ih =>
      rw [exec_cons] at h
      obtain ⟨u, hu, h⟩ := Option.bind_eq_some_iff.mp h
      have hrest := ih h fun hmem => hops (List.mem_cons_of_mem op hmem)
      cases op with
      | process packet stream => simp [hrest, (step_process hu).1, fed]
      | flush => simp at hops

/-- After calls that end with a packet, something is open. -/
theorem exec_open (h : exec (Session.step mem) s ops = some t) (hne : ops ≠ [])
    (hops : .flush ∉ ops) : t.openPackets ≠ [] := by
  obtain ⟨ops, op, rfl⟩ := List.eq_nil_or_concat ops |>.resolve_left hne
  rw [List.concat_eq_append] at h hops
  obtain ⟨u, -, hu⟩ := exec_snoc_eq_some _ h
  cases op with
  | process packet stream => exact (step_process hu).2
  | flush => simp at hops

end Session

/-- A session delivers exactly once if and only if it is fed at least one packet
and never flushed before its destruction. -/
theorem exactlyOnce_iff (mem : Segment.Unassigned) (jobId : Uuid) (nframes : Nat) (ops : List Op)
    (s : Session)
    (hexec : exec (Session.step mem) (Session.start jobId nframes) ops = some s) :
    ExactlyOnce mem jobId nframes ops s ↔ .flush ∉ ops ∧ ops ≠ [] := by
  have hstart : (Session.start jobId nframes).total = [] := rfl
  constructor
  · intro h
    have hnone : ¬ ∃ seg, (Session.start jobId nframes).segmenter.currentSegment = some seg ∧
        seg.empty = true := by
      rintro ⟨seg, hseg, -⟩
      cases hseg
    constructor
    · intro hmem
      obtain ⟨pre, post, rfl, hpre⟩ := List.eq_append_cons_of_mem hmem
      -- the first flush; what is open there is sent twice
      rw [exec_append] at hexec
      obtain ⟨t, ht, hexec⟩ := Option.bind_eq_some_iff.mp hexec
      rw [exec_cons] at hexec
      obtain ⟨u, hu, hexec⟩ := Option.bind_eq_some_iff.mp hexec
      have hconcat := congrArg List.length ((allSent_delivers s).symm.trans h.concat)
      have h₁ := exec_total_length ht
      have h₂ := (step_flush hu).2
      have h₃ := exec_total_length hexec
      rw [fed_append, fed, List.length_append] at hconcat
      rw [hstart, List.length_nil] at h₁
      have hclosed : t.openPackets = [] := List.eq_nil_of_length_eq_zero (by omega)
      by_cases hnil : pre = []
      · subst hnil
        exact hnone (h.flush_empty [] (Or.inl (by simp)) (Or.inl rfl) _ rfl _ (List.mem_cons_self ..))
      · exact exec_open ht hnil hpre hclosed
    · rintro rfl
      exact hnone (h.flush_empty [] (Or.inr rfl) (Or.inl rfl) _ rfl _ (List.mem_cons_self ..))
  · rintro ⟨hops, hne⟩
    have hconcat : s.allSent.flatMap delivers = fed ops := by
      rw [allSent_delivers, exec_total hexec hops, hstart, List.nil_append]
    refine ⟨fun p => ?_, hconcat, ?_⟩
    · rw [← hconcat, List.count_flatMap]
      rfl
    · rintro pre (hpre | rfl) hnew
      · exact absurd (hpre.subset (by simp)) hops
      · rcases hnew with rfl | hlast
        · exact absurd rfl hne
        · exact absurd (List.mem_of_getLast? hlast) hops

/-- One packet, one flush and the destructor: the packet is sent twice. -/
theorem flush_sends_twice :
    ∃ s, exec (Session.step Segment.Unassigned.zero) (Session.start Uuid.null 250)
        [.process Packet.keyFrame (some StreamData.sampleVideo), .flush] = some s ∧
      s.allSent.flatMap delivers = [Packet.keyFrame, Packet.keyFrame] ∧
      ¬ ExactlyOnce Segment.Unassigned.zero Uuid.null 250
        [.process Packet.keyFrame (some StreamData.sampleVideo), .flush] s := by
  refine ⟨_, rfl, by decide, ?_⟩
  intro h
  have htwice := h.concat
  revert htwice
  decide

theorem exactlyOnce_sample :
    ExactlyOnce Segment.Unassigned.zero Uuid.null 250
      [.process Packet.keyFrame (some StreamData.sampleVideo)]
      (((Session.start Uuid.null 250).step Segment.Unassigned.zero
        (.process Packet.keyFrame (some StreamData.sampleVideo))).getD (Session.start Uuid.null 250)) ↔
      .flush ∉ [Op.process Packet.keyFrame (some StreamData.sampleVideo)] ∧
        [Op.process Packet.keyFrame (some StreamData.sampleVideo)] ≠ [] :=
  exactlyOnce_iff Segment.Unassigned.zero Uuid.null 250 _ _ rfl

end Media2.Segmenter

import Media2.Foundation.Execution

/-!
# Signals

A signal calls the functions that are connected to it, one after the other, with each message
that is emitted on it. Functions are connected and disconnected by other threads meanwhile: an
emission asks the connections that there were when it began, and the check that a connection
still stands comes before the call, which is not waited for.

## Implementation notes

A library of signals is a parameter, and what is asked of it is what one sees of a signal when it
does one thing. One thread at a time emits on a signal and the functions do not throw. Whether an
emission also asks connections that are made while it goes on is left open.
-/

namespace Media2.Signals

variable {μ : Type*}

/-- A connection with the messages that it was called with, and how many messages had been
emitted when it was made and when it was cut. `during` is whether an emission was in progress
when it was made, and `missed` whether one that had not asked it yet was when it was cut. -/
structure Slot (μ : Type*) where
  connected : Bool
  heard : List μ
  joined : Nat
  during : Bool
  left : Nat
  missed : Bool

/-- Cut a connection. Nothing happens to one that is cut already. -/
def Slot.cut (count : Nat) (pending : Bool) (slot : Slot μ) : Slot μ :=
  if slot.connected then { slot with connected := false, left := count, missed := pending }
  else slot

/-- What one sees of a signal. A connection is known by its number. `turn` has the connection to
be asked next and the number of those to be asked. -/
structure Signal (μ : Type*) where
  slots : List (Slot μ)
  sent : List μ
  turn : Option (Nat × Nat)
  running : Option Nat

namespace Signal

def empty : Signal μ := ⟨[], [], none, none⟩

/-- Nothing is being emitted. -/
def Idle (s : Signal μ) : Prop := s.turn = none ∧ s.running = none

/-- The emission in progress is still to ask a connection. -/
def pending (s : Signal μ) (i : Nat) : Bool :=
  match s.turn with
  | some (a, count) => decide (a ≤ i ∧ i < count)
  | none => false

def connect (s : Signal μ) : Signal μ :=
  { s with slots := s.slots ++ [⟨true, [], s.sent.length, s.turn.isSome, 0, false⟩] }

def disconnect (s : Signal μ) (i : Nat) : Signal μ :=
  { s with slots := s.slots.modify i (Slot.cut s.sent.length (s.pending i)) }

def emit (s : Signal μ) (message : μ) : Signal μ :=
  { s with sent := s.sent ++ [message], turn := some (0, s.slots.length) }

/-- The emitting thread goes on: a call returns, the next connection is asked, or the emission
is over. Connections that were made since it began may be passed over. -/
inductive Proceeds (s : Signal μ) : Signal μ → Prop
  | returned (i : Nat) (hrunning : s.running = some i) : Proceeds s { s with running := none }
  | called (i count : Nat) (slot : Slot μ) (message : μ) (hrunning : s.running = none)
      (hturn : s.turn = some (i, count)) (hslot : s.slots[i]? = some slot)
      (hconnected : slot.connected = true) (hlast : s.sent.getLast? = some message) :
      Proceeds s { s with
        slots := s.slots.set i { slot with heard := slot.heard ++ [message] }
        turn := some (i + 1, count)
        running := some i }
  | skipped (i count : Nat) (slot : Slot μ) (hrunning : s.running = none)
      (hturn : s.turn = some (i, count)) (hslot : s.slots[i]? = some slot)
      (hpassed : slot.connected = false ∨ count ≤ i) :
      Proceeds s { s with turn := some (i + 1, count) }
  | finished (i count : Nat) (hrunning : s.running = none) (hturn : s.turn = some (i, count))
      (hge : count ≤ i) : Proceeds s { s with turn := none }

/-- What can happen to a signal. -/
inductive Acts (s : Signal μ) : Signal μ → Prop
  | connect : Acts s s.connect
  | disconnect (i : Nat) : Acts s (s.disconnect i)
  | emit (message : μ) (hidle : s.Idle) : Acts s (s.emit message)
  | proceed (s' : Signal μ) (h : Proceeds s s') : Acts s s'

end Signal

/-- A library of signals: a new one, what connects and disconnects, whether an emission is over,
and the steps of a thread that emits. -/
structure Library (μ : Type*) where
  State : Type*
  empty : State
  connect : State → State × Nat
  disconnect : State → Nat → State
  idle : State → Bool
  emit : State → μ → State
  proceed : State → Option State

/-- What a library of signals is documented to do, by what one sees of a signal: connections are
asked in the order in which they were made, a cut is seen by the next check, and an emission has
the messages of one call. -/
structure Documented (lib : Library μ) (view : lib.State → Signal μ) : Prop where
  empty : view lib.empty = Signal.empty
  connect : ∀ s, view (lib.connect s).1 = (view s).connect
  number : ∀ s, (lib.connect s).2 = (view s).slots.length
  disconnect : ∀ s i, view (lib.disconnect s i) = (view s).disconnect i
  idle : ∀ s, lib.idle s = true → (view s).Idle
  emit : ∀ s message, lib.idle s = true → view (lib.emit s message) = (view s).emit message
  proceed : ∀ s s', lib.proceed s = some s' → (view s).Proceeds (view s')

namespace Signal

/-- How many of the messages have come to a connection. -/
def reach (s : Signal μ) (i : Nat) : Nat := s.sent.length - if s.pending i then 1 else 0

/-- A connection hears an unbroken part of what is emitted: from the first message after it was
made, or the one in progress then, to the last one before it was cut, but for one in progress
then that had not asked it. -/
structure HearsFrom (s : Signal μ) (i : Nat) (slot : Slot μ) (first : Nat) : Prop where
  first_le : first ≤ slot.joined
  early : first = slot.joined ∨ slot.during = true ∧ slot.joined = first + 1
  reached : slot.connected = true → first ≤ s.reach i
  connected : slot.connected = true → slot.heard = (s.sent.take (s.reach i)).drop first
  gone : slot.connected = false → slot.left ≤ s.sent.length ∧
    slot.heard = (s.sent.take (slot.left - if slot.missed then 1 else 0)).drop first

def Hears (s : Signal μ) (i : Nat) (slot : Slot μ) : Prop := ∃ first, s.HearsFrom i slot first

/-- A connection that was made since the emission in progress began has heard nothing before the
emission comes to it. -/
structure Late (s : Signal μ) (a i : Nat) (slot : Slot μ) : Prop where
  joined : slot.joined = s.sent.length
  during : slot.during = true
  heard : a ≤ i → slot.heard = []

/-- All connections hear what they should, and the emission is in order. -/
structure Ordered (s : Signal μ) : Prop where
  hears : ∀ i slot, s.slots[i]? = some slot → s.Hears i slot
  within : ∀ a count, s.turn = some (a, count) → count ≤ s.slots.length ∧ s.sent ≠ []
  late : ∀ a count i slot, s.turn = some (a, count) → s.slots[i]? = some slot → count ≤ i →
    s.Late a i slot

section Steps

variable {s s' : Signal μ}

theorem reach_of_not_pending {i : Nat} (h : s.pending i = false) : s.reach i = s.sent.length := by
  rw [reach, h]
  rfl

theorem reach_of_pending {i : Nat} (h : s.pending i = true) :
    s.reach i = s.sent.length - 1 := by
  rw [reach, h]
  rfl

theorem pending_of_idle {i : Nat} (h : s.turn = none) : s.pending i = false := by
  rw [pending, h]

theorem pending_of_le {a count i : Nat} (hturn : s.turn = some (a, count)) (h : count ≤ i) :
    s.pending i = false := by
  rw [pending, hturn]
  exact decide_eq_false fun hin => absurd hin.2 (Nat.not_lt.mpr h)

/-- Slots that are as they were hear as they did. -/
theorem Hears.of_reach {i : Nat} {slot : Slot μ} (h : s.Hears i slot) (hsent : s'.sent = s.sent)
    (hreach : s'.reach i = s.reach i) : s'.Hears i slot := by
  obtain ⟨first, h⟩ := h
  refine ⟨first, h.first_le, h.early, ?_, ?_, ?_⟩
  · rw [hreach]
    exact h.reached
  · rw [hreach, hsent]
    exact h.connected
  · rw [hsent]
    exact h.gone

/-- A connection stays late while the emission goes on. -/
theorem Late.mono {a b i : Nat} {slot : Slot μ} (h : s.Late a i slot) (hsent : s'.sent = s.sent)
    (hab : a ≤ b) : s'.Late b i slot where
  joined := by
    rw [hsent]
    exact h.joined
  during := h.during
  heard := fun hle => h.heard (hab.trans hle)

theorem empty_ordered : (empty : Signal μ).Ordered where
  hears := by
    rintro i slot ⟨⟩
  within := by
    rintro a count ⟨⟩
  late := by
    rintro a count i slot ⟨⟩

theorem getElem?_connect {i : Nat} {slot : Slot μ} (h : s.connect.slots[i]? = some slot) :
    s.slots[i]? = some slot ∨
      i = s.slots.length ∧ slot = ⟨true, [], s.sent.length, s.turn.isSome, 0, false⟩ := by
  rcases Nat.lt_trichotomy i s.slots.length with hlt | rfl | hgt
  · rw [connect, List.getElem?_append_left hlt] at h
    exact Or.inl h
  · rw [connect, List.getElem?_concat_length] at h
    exact Or.inr ⟨rfl, (Option.some.inj h).symm⟩
  · rw [connect, List.getElem?_eq_none] at h
    · cases h
    · rw [List.length_append, List.length_singleton]
      omega

theorem connect_ordered (h : s.Ordered) : s.connect.Ordered := by
  constructor
  · intro i slot hslot
    rcases getElem?_connect hslot with hold | ⟨rfl, rfl⟩
    · exact (h.hears i slot hold).of_reach rfl rfl
    · have hpending : s.connect.pending s.slots.length = false := by
        cases hturn : s.turn with
        | none => exact pending_of_idle hturn
        | some turn => exact pending_of_le hturn (h.within _ _ hturn).1
      have hreach := reach_of_not_pending hpending
      refine ⟨s.sent.length, Nat.le_refl _, Or.inl rfl, fun _ => hreach.ge, fun _ => ?_,
        by rintro ⟨⟩⟩
      rw [hreach]
      exact (List.drop_eq_nil_of_le (List.length_take_le _ _)).symm
  · intro a count hturn
    obtain ⟨hcount, hsent⟩ := h.within a count hturn
    refine ⟨?_, hsent⟩
    rw [connect, List.length_append]
    exact hcount.trans (Nat.le_add_right _ _)
  · intro a count i slot hturn hslot hle
    rcases getElem?_connect hslot with hold | ⟨rfl, rfl⟩
    · exact (h.late a count i slot hturn hold hle).mono rfl (Nat.le_refl a)
    · have hsome : s.turn = some (a, count) := hturn
      exact ⟨rfl, by rw [hsome]; rfl, fun _ => rfl⟩

theorem Hears.cut {i : Nat} {slot : Slot μ} (h : s.Hears i slot) :
    s.Hears i (slot.cut s.sent.length (s.pending i)) := by
  unfold Slot.cut
  split
  · rename_i hconnected
    obtain ⟨first, h⟩ := h
    exact ⟨first, h.first_le, h.early, by rintro ⟨⟩, by rintro ⟨⟩,
      fun _ => ⟨Nat.le_refl _, h.connected hconnected⟩⟩
  · exact h

theorem Late.cut {a i count : Nat} {pending : Bool} {slot : Slot μ} (h : s.Late a i slot) :
    s.Late a i (slot.cut count pending) := by
  unfold Slot.cut
  split
  · exact ⟨h.joined, h.during, h.heard⟩
  · exact h

theorem disconnect_ordered (h : s.Ordered) (j : Nat) : (s.disconnect j).Ordered := by
  constructor
  · intro i slot hslot
    rw [disconnect, List.getElem?_modify] at hslot
    obtain ⟨slot', hslot', rfl⟩ := Option.map_eq_some_iff.mp hslot
    have hold := h.hears i slot' hslot'
    split
    · rename_i hj
      subst hj
      exact hold.cut.of_reach rfl rfl
    · exact hold.of_reach rfl rfl
  · intro a count hturn
    obtain ⟨hcount, hsent⟩ := h.within a count hturn
    refine ⟨?_, hsent⟩
    rw [disconnect, List.length_modify]
    exact hcount
  · intro a count i slot hturn hslot hle
    rw [disconnect, List.getElem?_modify] at hslot
    obtain ⟨slot', hslot', rfl⟩ := Option.map_eq_some_iff.mp hslot
    have hlate : (s.disconnect j).Late a i slot' :=
      (h.late a count i slot' hturn hslot' hle).mono rfl (Nat.le_refl a)
    split
    · exact hlate.cut
    · exact hlate

theorem emit_ordered (h : s.Ordered) (hidle : s.Idle) (message : μ) : (s.emit message).Ordered := by
  constructor
  · intro i slot hslot
    have hlt : i < s.slots.length := (List.getElem?_eq_some_iff.mp hslot).1
    obtain ⟨first, hold⟩ := h.hears i slot hslot
    have hreach := reach_of_not_pending (pending_of_idle (i := i) hidle.1)
    have hpending : (s.emit message).pending i = true :=
      decide_eq_true (⟨Nat.zero_le i, hlt⟩ : 0 ≤ i ∧ i < s.slots.length)
    have hnext : (s.emit message).reach i = s.sent.length := by
      rw [reach_of_pending hpending, emit, List.length_append, List.length_singleton,
        Nat.add_sub_cancel]
    refine ⟨first, hold.first_le, hold.early, ?_, ?_, ?_⟩
    · rw [hnext, ← hreach]
      exact hold.reached
    · intro hconnected
      rw [hnext, emit, List.take_left, hold.connected hconnected, hreach, List.take_length]
    · intro hgone
      obtain ⟨hleft, hheard⟩ := hold.gone hgone
      refine ⟨?_, ?_⟩
      · rw [emit, List.length_append]
        exact hleft.trans (Nat.le_add_right _ _)
      · rw [emit, List.take_append_of_le_length ((Nat.sub_le _ _).trans hleft), hheard]
  · rintro a count heq
    obtain ⟨-, rfl⟩ := Prod.mk.inj (Option.some.inj heq)
    exact ⟨Nat.le_refl _, by simp [emit]⟩
  · rintro a count i slot heq hslot hle
    obtain ⟨-, rfl⟩ := Prod.mk.inj (Option.some.inj heq)
    exact absurd (List.getElem?_eq_some_iff.mp hslot).1 (Nat.not_lt.mpr hle)

/-- Asking one connection does not change how far the message has come for the others. -/
theorem reach_ask {slots : List (Slot μ)} {running : Option Nat} {i count : Nat}
    (hturn : s.turn = some (i, count)) {j : Nat} (hj : j ≠ i) :
    reach { s with slots := slots, turn := some (i + 1, count), running := running } j =
      s.reach j := by
  have hiff : (i + 1 ≤ j ∧ j < count) ↔ (i ≤ j ∧ j < count) := by omega
  simp only [reach, pending, hturn, hiff]

theorem reach_asked {slots : List (Slot μ)} {running : Option Nat} {i count : Nat} :
    reach { s with slots := slots, turn := some (i + 1, count), running := running } i =
      s.sent.length := by
  apply reach_of_not_pending
  exact decide_eq_false fun hin => absurd hin.1 (Nat.not_succ_le_self i)

/-- A connection that is called hears the last message, if it had heard those before. -/
theorem HearsFrom.called {i : Nat} {slot : Slot μ} {first : Nat} {message : μ}
    (h : s.HearsFrom i slot first) (hconnected : slot.connected = true)
    (hlast : s.sent.getLast? = some message) (hreach : s.reach i = s.sent.length - 1)
    (hnext : s'.reach i = s.sent.length) (hsent : s'.sent = s.sent) :
    s'.HearsFrom i { slot with heard := slot.heard ++ [message] } first := by
  have hsplit : s.sent.take (s.sent.length - 1) ++ [message] = s.sent := by
    rw [← List.dropLast_eq_take]
    exact List.dropLast_append_getLast? message hlast
  have hfirst := h.reached hconnected
  rw [hreach] at hfirst
  have hlength : first ≤ (s.sent.take (s.sent.length - 1)).length := by
    rw [List.length_take]
    omega
  refine ⟨h.first_le, h.early, fun _ => ?_, fun _ => ?_,
    fun hgone => absurd hconnected (Bool.eq_false_iff.mp hgone)⟩
  · rw [hnext]
    exact hfirst.trans (Nat.sub_le _ _)
  · rw [hnext, hsent, List.take_length, h.connected hconnected, hreach]
    conv_rhs => rw [← hsplit]
    rw [List.drop_append_of_le_length hlength]

/-- A connection that was made during the emission is called by it. -/
theorem Late.called {i : Nat} {slot : Slot μ} {message : μ} (h : s.Late i i slot)
    (hconnected : slot.connected = true) (hlast : s.sent.getLast? = some message)
    (hnext : s'.reach i = s.sent.length) (hsent : s'.sent = s.sent) :
    s'.HearsFrom i { slot with heard := slot.heard ++ [message] } (s.sent.length - 1) := by
  have hsplit : s.sent.take (s.sent.length - 1) ++ [message] = s.sent := by
    rw [← List.dropLast_eq_take]
    exact List.dropLast_append_getLast? message hlast
  have hpos : 0 < s.sent.length := by
    rw [← hsplit, List.length_append]
    exact Nat.succ_pos _
  have hlength : (s.sent.take (s.sent.length - 1)).length = s.sent.length - 1 := by
    rw [List.length_take]
    omega
  refine ⟨?_, Or.inr ⟨h.during, ?_⟩, fun _ => ?_, fun _ => ?_,
    fun hgone => absurd hconnected (Bool.eq_false_iff.mp hgone)⟩
  · exact (Nat.sub_le _ _).trans h.joined.ge
  · have hjoined : slot.joined = s.sent.length := h.joined
    change slot.joined = s.sent.length - 1 + 1
    omega
  · rw [hnext]
    exact Nat.sub_le _ _
  · have hdrop : s.sent.drop (s.sent.length - 1) = [message] :=
      calc s.sent.drop (s.sent.length - 1)
          = (s.sent.take (s.sent.length - 1) ++ [message]).drop (s.sent.length - 1) := by
            rw [hsplit]
        _ = [message] := List.drop_left' hlength
    rw [hnext, hsent, List.take_length, h.heard (Nat.le_refl i), List.nil_append, hdrop]

theorem proceed_ordered (h : s.Ordered) (hproceeds : s.Proceeds s') : s'.Ordered := by
  cases hproceeds with
  | returned i _ =>
      exact ⟨fun j slot hslot => (h.hears j slot hslot).of_reach rfl rfl, h.within,
        fun a count j slot hturn hslot hle =>
          (h.late a count j slot hturn hslot hle).mono rfl (Nat.le_refl a)⟩
  | called i count slot message _ hturn hslot hconnected hlast =>
      have hlt := (List.getElem?_eq_some_iff.mp hslot).1
      constructor
      · intro j slot' hslot'
        by_cases hj : j = i
        · subst hj
          rw [List.getElem?_set_self hlt] at hslot'
          obtain rfl := Option.some.inj hslot'
          rcases Nat.lt_or_ge j count with hin | hle
          · obtain ⟨first, hold⟩ := h.hears j slot hslot
            have hpending : s.pending j = true := by
              rw [pending, hturn]
              exact decide_eq_true ⟨Nat.le_refl j, hin⟩
            exact ⟨first, hold.called hconnected hlast (reach_of_pending hpending) reach_asked rfl⟩
          · exact ⟨_, (h.late j count j slot hturn hslot hle).called hconnected hlast reach_asked
              rfl⟩
        · rw [List.getElem?_set_ne (Ne.symm hj)] at hslot'
          exact (h.hears j slot' hslot').of_reach rfl (reach_ask hturn hj)
      · intro a c heq
        obtain ⟨hcount, hsent⟩ := h.within i count hturn
        obtain ⟨-, rfl⟩ := Prod.mk.inj (Option.some.inj heq)
        rw [List.length_set]
        exact ⟨hcount, hsent⟩
      · intro a c j slot' heq hslot' hle
        obtain ⟨rfl, rfl⟩ := Prod.mk.inj (Option.some.inj heq)
        by_cases hj : j = i
        · subst hj
          rw [List.getElem?_set_self hlt] at hslot'
          obtain rfl := Option.some.inj hslot'
          obtain ⟨hjoined, hduring, -⟩ := h.late j _ j slot hturn hslot hle
          exact ⟨hjoined, hduring, fun hlate => absurd hlate (Nat.not_succ_le_self j)⟩
        · rw [List.getElem?_set_ne (Ne.symm hj)] at hslot'
          exact (h.late i _ j slot' hturn hslot' hle).mono rfl (Nat.le_succ i)
  | skipped i count slot _ hturn hslot hpassed =>
      constructor
      · intro j slot' hslot'
        by_cases hj : j = i
        · subst hj
          obtain rfl := Option.some.inj (hslot.symm.trans hslot')
          have hold := h.hears j slot hslot
          rcases hpassed with hgone | hle
          · obtain ⟨first, hold⟩ := hold
            exact ⟨first, hold.first_le, hold.early,
              fun hconnected => absurd hconnected (Bool.eq_false_iff.mp hgone),
              fun hconnected => absurd hconnected (Bool.eq_false_iff.mp hgone), hold.gone⟩
          · refine hold.of_reach rfl ?_
            rw [reach_asked, reach_of_not_pending (pending_of_le hturn hle)]
        · exact (h.hears j slot' hslot').of_reach rfl (reach_ask hturn hj)
      · intro a c heq
        obtain ⟨-, rfl⟩ := Prod.mk.inj (Option.some.inj heq)
        exact h.within i count hturn
      · intro a c j slot' heq hslot' hle
        obtain ⟨rfl, rfl⟩ := Prod.mk.inj (Option.some.inj heq)
        exact (h.late i _ j slot' hturn hslot' hle).mono rfl (Nat.le_succ i)
  | finished i count _ hturn hge =>
      have hreach : ∀ j, reach { s with turn := none } j = s.reach j := by
        intro j
        have hbefore : s.pending j = false := by
          rw [pending, hturn]
          exact decide_eq_false fun hin => by omega
        rw [reach_of_not_pending hbefore]
        exact reach_of_not_pending (pending_of_idle rfl)
      exact ⟨fun j slot hslot => (h.hears j slot hslot).of_reach rfl (hreach j), by rintro a c ⟨⟩,
        by rintro a c j slot ⟨⟩⟩

/-- The connection was made and not cut. -/
def Connected (s : Signal μ) (i : Nat) : Prop :=
  ∃ slot, s.slots[i]? = some slot ∧ slot.connected = true

theorem connect_connected {i : Nat} :
    s.connect.Connected i ↔ s.Connected i ∨ i = s.slots.length := by
  constructor
  · rintro ⟨slot, hslot, hconnected⟩
    rcases getElem?_connect hslot with hold | ⟨rfl, -⟩
    · exact Or.inl ⟨slot, hold, hconnected⟩
    · exact Or.inr rfl
  · rintro (h | rfl)
    · obtain ⟨slot, hslot, hconnected⟩ := h
      refine ⟨slot, ?_, hconnected⟩
      rw [connect, List.getElem?_append_left (List.getElem?_eq_some_iff.mp hslot).1]
      exact hslot
    · exact ⟨_, List.getElem?_concat_length, rfl⟩

theorem disconnect_connected {i j : Nat} :
    (s.disconnect j).Connected i ↔ s.Connected i ∧ i ≠ j := by
  unfold Connected
  rw [disconnect, List.getElem?_modify]
  constructor
  · rintro ⟨slot, hslot, hconnected⟩
    obtain ⟨slot', hslot', rfl⟩ := Option.map_eq_some_iff.mp hslot
    by_cases hj : j = i
    · rw [if_pos hj, Slot.cut] at hconnected
      split at hconnected
      · cases hconnected
      · exact absurd hconnected ‹_›
    · rw [if_neg hj] at hconnected
      exact ⟨⟨slot', hslot', hconnected⟩, Ne.symm hj⟩
  · rintro ⟨⟨slot, hslot, hconnected⟩, hne⟩
    refine ⟨slot, ?_, hconnected⟩
    rw [hslot]
    exact congrArg some (if_neg (Ne.symm hne))

/-- The emitting thread neither makes nor cuts connections. -/
theorem proceed_connected (h : s.Proceeds s') :
    s'.slots.length = s.slots.length ∧ ∀ i, s'.Connected i ↔ s.Connected i := by
  cases h with
  | returned | skipped | finished => exact ⟨rfl, fun _ => Iff.rfl⟩
  | called i count slot message _ _ hslot hconnected _ =>
      refine ⟨List.length_set, fun j => ?_⟩
      unfold Connected
      by_cases hj : i = j
      · subst hj
        rw [List.getElem?_set_self (List.getElem?_eq_some_iff.mp hslot).1, hslot]
        exact iff_of_true ⟨_, rfl, hconnected⟩ ⟨_, rfl, hconnected⟩
      · rw [List.getElem?_set_ne hj]

/-- A connection that was cut stays as it is. -/
theorem acts_gone (hacts : s.Acts s') {i : Nat} {slot : Slot μ} (hslot : s.slots[i]? = some slot)
    (hgone : slot.connected = false) : s'.slots[i]? = some slot := by
  have hlt : i < s.slots.length := (List.getElem?_eq_some_iff.mp hslot).1
  cases hacts with
  | connect =>
      rw [connect, List.getElem?_append_left hlt]
      exact hslot
  | disconnect j =>
      rw [disconnect, List.getElem?_modify, hslot]
      split
      · rw [Option.map_eq_map, Option.map_some, Slot.cut, if_neg (Bool.eq_false_iff.mp hgone)]
      · rfl
  | emit => exact hslot
  | proceed _ hproceeds =>
      cases hproceeds with
      | returned | skipped | finished => exact hslot
      | called j count slot' message _ _ hslot' hconnected _ =>
          have hne : j ≠ i := by
            rintro rfl
            obtain rfl := Option.some.inj (hslot.symm.trans hslot')
            cases hconnected.symm.trans hgone
          rw [List.getElem?_set_ne hne]
          exact hslot

/-- Nor is it called again, once its last call has returned. -/
theorem acts_quiet (hacts : s.Acts s') {i : Nat} {slot : Slot μ} (hslot : s.slots[i]? = some slot)
    (hgone : slot.connected = false) (hquiet : s.running ≠ some i) : s'.running ≠ some i := by
  cases hacts with
  | connect | disconnect | emit => exact hquiet
  | proceed _ hproceeds =>
      cases hproceeds with
      | returned j _ => exact (Option.some_ne_none i).symm
      | skipped | finished => exact hquiet
      | called j count slot' message _ _ hslot' hconnected _ =>
          intro heq
          obtain rfl := Option.some.inj heq
          obtain rfl := Option.some.inj (hslot.symm.trans hslot')
          cases hconnected.symm.trans hgone

end Steps

/-- An emission that asks nobody but the connections that there were when it began. -/
def next (s : Signal μ) : Option (Signal μ) :=
  match s.running, s.turn, s.sent.getLast? with
  | some _, _, _ => some { s with running := none }
  | none, some (i, count), some message =>
      if i < count then
        match s.slots[i]? with
        | some slot =>
            if slot.connected then
              some { s with
                slots := s.slots.set i { slot with heard := slot.heard ++ [message] }
                turn := some (i + 1, count)
                running := some i }
            else some { s with turn := some (i + 1, count) }
        | none => none
      else some { s with turn := none }
  | none, _, _ => none

theorem next_proceeds {s s' : Signal μ} (h : s.next = some s') : s.Proceeds s' := by
  unfold next at h
  split at h
  · rename_i i hrunning
    obtain rfl := Option.some.inj h
    exact Proceeds.returned i hrunning
  · rename_i i count message hrunning hturn hlast
    split at h
    · split at h
      · rename_i slot hslot
        split at h
        · rename_i hconnected
          obtain rfl := Option.some.inj h
          exact Proceeds.called i count slot message hrunning hturn hslot hconnected hlast
        · rename_i hconnected
          obtain rfl := Option.some.inj h
          exact Proceeds.skipped i count slot hrunning hturn hslot
            (Or.inl (Bool.eq_false_iff.mpr hconnected))
      · cases h
    · rename_i hge
      obtain rfl := Option.some.inj h
      exact Proceeds.finished i count hrunning hturn (Nat.not_lt.mp hge)
  · cases h

end Signal

/-- A library whose signals are what one sees of them. -/
def Library.plain (μ : Type*) : Library μ where
  State := Signal μ
  empty := Signal.empty
  connect := fun s => (s.connect, s.slots.length)
  disconnect := Signal.disconnect
  idle := fun s => s.turn.isNone && s.running.isNone
  emit := Signal.emit
  proceed := Signal.next

def Library.seen (μ : Type*) (s : (Library.plain μ).State) : Signal μ := s

theorem plain_documented (μ : Type*) : Documented (Library.plain μ) (Library.seen μ) where
  empty := rfl
  connect := fun _ => rfl
  number := fun _ => rfl
  disconnect := fun _ _ => rfl
  idle := by
    intro s hidle
    obtain ⟨hturn, hrunning⟩ := Bool.and_eq_true_iff.mp hidle
    exact ⟨Option.isNone_iff_eq_none.mp hturn, Option.isNone_iff_eq_none.mp hrunning⟩
  emit := fun _ _ _ => rfl
  proceed := fun _ _ h => Signal.next_proceeds h

end Media2.Signals

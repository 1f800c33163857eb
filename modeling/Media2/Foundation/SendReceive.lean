import Mathlib.Tactic.Common

/-!
# Sending and receiving

A device is given inputs one at a time and asked for outputs one at a time. An input can make
any number of outputs available, and as long as some are, the device can refuse the next input.
Who asks until there are no more is never refused.
-/

namespace Media2

/-- A device; `again` is how it fails when it needs the other call first. -/
structure Device (ι ο ε : Type) where
  State : Type
  send : State → ι → Except ε Unit × State
  receive : State → Except ε ο × State
  again : ε

namespace Device

variable {ι ο ε : Type}

/-- Asking for outputs until there are no more. -/
inductive Drains (device : Device ι ο ε) : device.State → List ο → device.State → Prop
  | stop {s s'} (h : device.receive s = (.error device.again, s')) : Drains device s [] s'
  | output {s s' s'' o outputs} (h : device.receive s = (.ok o, s'))
      (hrest : Drains device s' outputs s'') : Drains device s (o :: outputs) s''

variable {device : Device ι ο ε} {s : device.State}

/-- What the two calls promise in the states in which the device works. `pending` are the
outputs that are available, in order. -/
structure Contract (device : Device ι ο ε) where
  Working : device.State → Prop
  pending : device.State → List ο
  pending_of_refused : ∀ {s s' a}, Working s → device.send s a = (.error device.again, s') →
    pending s ≠ []
  receive_pending : ∀ {s o outputs}, Working s → pending s = o :: outputs →
    ∃ s', device.receive s = (.ok o, s') ∧ Working s' ∧ pending s' = outputs
  receive_again : ∀ {s}, Working s → pending s = [] →
    ∃ s', device.receive s = (.error device.again, s') ∧ Working s' ∧ pending s' = []

namespace Contract

variable (contract : Contract device)

/-- The device works, and has no output to give. -/
structure Idle (s : device.State) : Prop where
  working : contract.Working s
  pending_eq : contract.pending s = []

/-- The input does not make the device fail, at once or later. To be refused is no failure. -/
structure Sound (s : device.State) (a : ι) : Prop where
  not_failed : ∀ e s', device.send s a = (.error e, s') → e = device.again
  working : contract.Working (device.send s a).2

/-- The input is accepted, the outputs are those that it made available, and when they are
taken out nothing is left. -/
structure Serves (s : device.State) (a : ι) (accepted : device.State) (outputs : List ο)
    (left : device.State) : Prop where
  accepted_eq : device.send s a = (.ok (), accepted)
  outputs_eq : outputs = contract.pending accepted
  drains : device.Drains accepted outputs left
  idle : contract.Idle left

variable {contract}

/-- There are only so many outputs that are available. -/
theorem drains_pending (h : contract.Working s) :
    ∃ left, device.Drains s (contract.pending s) left ∧ contract.Idle left := by
  generalize houtputs : contract.pending s = outputs
  induction outputs generalizing s with
  | nil =>
      obtain ⟨left, hreceive, hworking, hnone⟩ := contract.receive_again h houtputs
      exact ⟨left, Drains.stop hreceive, hworking, hnone⟩
  | cons o outputs ih =>
      obtain ⟨next, hreceive, hworking, hrest⟩ := contract.receive_pending h houtputs
      obtain ⟨left, hdrains, hidle⟩ := ih hworking hrest
      exact ⟨left, Drains.output hreceive hdrains, hidle⟩

/-- A device without outputs has no reason to refuse. -/
theorem Idle.accepts {a : ι} (h : contract.Idle s) (ha : contract.Sound s a) :
    ∃ accepted, device.send s a = (.ok (), accepted) ∧ contract.Working accepted := by
  rcases hsend : device.send s a with ⟨e | ⟨⟩, accepted⟩
  · have hrefused : device.send s a = (.error device.again, accepted) := by
      rw [hsend, ha.not_failed e accepted hsend]
    exact absurd h.pending_eq (contract.pending_of_refused h.working hrefused)
  · have hworking := ha.working
    rw [hsend] at hworking
    exact ⟨accepted, rfl, hworking⟩

/-- One input, and all the outputs it makes available. -/
theorem Idle.serves {a : ι} (h : contract.Idle s) (ha : contract.Sound s a) :
    ∃ accepted outputs left, contract.Serves s a accepted outputs left := by
  obtain ⟨accepted, hsend, hworking⟩ := h.accepts ha
  obtain ⟨left, hdrains, hidle⟩ := drains_pending hworking
  exact ⟨accepted, _, left, hsend, rfl, hdrains, hidle⟩

end Contract

end Device

section Along

variable {σ α : Type} (step : σ → α → σ)

/-- A property of each call in the state that the calls before it leave behind. -/
def Along (P : σ → α → Prop) : σ → List α → Prop
  | _, [] => True
  | s, a :: as => P s a ∧ Along P (step s a) as

variable {step}

/-- What an invariant and the promises about a call give for it, holds for each call. -/
theorem Along.of_invariant {I : σ → Prop} {P Q : σ → α → Prop}
    (hstep : ∀ s a, I s → P s a → Q s a ∧ I (step s a)) {s : σ} {as : List α} (hs : I s)
    (h : Along step P s as) : Along step Q s as := by
  induction as generalizing s with
  | nil => trivial
  | cons a as ih =>
      obtain ⟨ha, has⟩ := h
      obtain ⟨hcall, hnext⟩ := hstep s a hs ha
      exact ⟨hcall, ih hnext has⟩

end Along

end Media2

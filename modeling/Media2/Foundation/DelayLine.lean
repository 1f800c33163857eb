import Mathlib.Data.List.Infix

/-!
# Delay lines

A delay line of latency `d` keeps its inputs in order and releases one when it holds more
than `d` of them. Once it is draining it takes no more input and releases all it holds.
-/

namespace Media2

structure DelayLine (α : Type*) where
  held : List α
  draining : Bool
  deriving DecidableEq

namespace DelayLine

variable {α : Type*}

def empty : DelayLine α := ⟨[], false⟩

/-- Put in one input. A draining line refuses it. -/
def push (line : DelayLine α) (a : α) : Option (DelayLine α) :=
  if line.draining then none else some { line with held := line.held ++ [a] }

/-- Start draining. -/
def drain (line : DelayLine α) : DelayLine α := { line with draining := true }

/-- Take out the next output, if one is released. -/
def pop (d : Nat) (line : DelayLine α) : Option (α × DelayLine α) :=
  match line.held with
  | [] => none
  | a :: rest => if line.draining || d < line.held.length then some (a, { line with held := rest })
      else none

/-- How many outputs are released. -/
def due (d : Nat) (line : DelayLine α) : Nat :=
  if line.draining then line.held.length else line.held.length - d

/-- The outputs that are released, all taken out. -/
def popAll (d : Nat) (line : DelayLine α) : List α × DelayLine α :=
  (line.held.take (line.due d), { line with held := line.held.drop (line.due d) })

theorem pop_eq_none {d : Nat} {line : DelayLine α} (h : line.pop d = none) :
    line.popAll d = ([], line) := by
  obtain ⟨held, draining⟩ := line
  cases held with
  | nil => simp [popAll]
  | cons a rest =>
      simp only [pop, ite_eq_right_iff, reduceCtorEq, imp_false, Bool.or_eq_true,
        decide_eq_true_eq, not_or, Bool.not_eq_true] at h
      obtain ⟨hdraining, hle⟩ := h
      have hdue : due d ⟨a :: rest, draining⟩ = 0 := by
        rw [due, hdraining]
        simp only [Bool.false_eq_true, if_false]
        omega
      rw [popAll, hdue]
      rfl

theorem pop_draining {d : Nat} {line line' : DelayLine α} {a : α}
    (h : line.pop d = some (a, line')) : line'.draining = line.draining := by
  obtain ⟨held, draining⟩ := line
  cases held with
  | nil => cases h
  | cons b rest =>
      simp only [pop] at h
      split at h
      · obtain ⟨-, rfl⟩ := Prod.mk.inj (Option.some.inj h)
        rfl
      · cases h

theorem pop_eq_some {d : Nat} {line line' : DelayLine α} {a : α}
    (h : line.pop d = some (a, line')) :
    line.held = a :: line'.held ∧
      line.popAll d = (a :: (line'.popAll d).1, (line'.popAll d).2) := by
  obtain ⟨held, draining⟩ := line
  cases held with
  | nil => cases h
  | cons b rest =>
      simp only [pop] at h
      split at h
      · rename_i hready
        obtain ⟨rfl, rfl⟩ := Prod.mk.inj (Option.some.inj h)
        have hdue : due d ⟨b :: rest, draining⟩ = due d ⟨rest, draining⟩ + 1 := by
          unfold due
          cases draining with
          | true => simp
          | false =>
              simp only [Bool.false_or, decide_eq_true_eq, List.length_cons] at hready
              simp only [Bool.false_eq_true, if_false, List.length_cons]
              omega
        refine ⟨rfl, ?_⟩
        simp only [popAll, hdue, List.take_succ_cons, List.drop_succ_cons]
      · cases h

/-- Either nothing is released, or the next output is taken out and the rest stays released. -/
theorem pop_cases (d : Nat) (line : DelayLine α) :
    (line.pop d = none ∧ (line.popAll d).1 = []) ∨
      ∃ a rest, line.pop d = some (a, rest) ∧ rest.draining = line.draining ∧
        (line.popAll d).1 = a :: (rest.popAll d).1 := by
  cases hpop : line.pop d with
  | none =>
      rw [pop_eq_none hpop]
      exact Or.inl ⟨rfl, rfl⟩
  | some out =>
      obtain ⟨a, rest⟩ := out
      rw [(pop_eq_some hpop).2]
      exact Or.inr ⟨a, rest, rfl, pop_draining hpop, rfl⟩

/-- Put the inputs in one by one, and each time take out what is released. -/
def feed (d : Nat) (line : DelayLine α) : List α → List α × DelayLine α
  | [] => ([], line)
  | a :: inputs =>
      match line.push a with
      | none => feed d line inputs
      | some pushed =>
          let (outputs, line) := pushed.popAll d
          let (outputs', line) := feed d line inputs
          (outputs ++ outputs', line)

theorem feed_singleton {d : Nat} {line pushed : DelayLine α} {a : α}
    (h : line.push a = some pushed) : feed d line [a] = pushed.popAll d := by
  simp only [feed, h, List.append_nil]

theorem feed_refused {d : Nat} {line : DelayLine α} {a : α} (h : line.push a = none) :
    feed d line [a] = ([], line) := by
  simp only [feed, h]

/-- A line that is not draining releases all but the last `d` of its inputs. -/
theorem feed_eq {d : Nat} {held : List α} (h : held.length ≤ d) (inputs : List α) :
    feed d ⟨held, false⟩ inputs =
      ((held ++ inputs).take (held.length + inputs.length - d),
        ⟨(held ++ inputs).drop (held.length + inputs.length - d), false⟩) := by
  induction inputs generalizing held with
  | nil =>
      have hzero : held.length + ([] : List α).length - d = 0 := by
        rw [List.length_nil]
        omega
      rw [hzero, List.append_nil]
      rfl
  | cons a inputs ih =>
      -- what is released at once, and what stays for the rest of the inputs
      let k := held.length + 1 - d
      have hlen : (held ++ [a]).length = held.length + 1 := List.length_append
      have hdue : due d ⟨held ++ [a], false⟩ = k := by
        rw [due, hlen]
        rfl
      have hrest : ((held ++ [a]).drop k).length ≤ d := by
        rw [List.length_drop, hlen]
        omega
      have hcount : ((held ++ [a]).drop k).length + inputs.length - d + k =
          held.length + (a :: inputs).length - d := by
        rw [List.length_drop, hlen, List.length_cons]
        omega
      have hk : k ≤ (held ++ [a]).length := by omega
      have hall : held ++ a :: inputs = (held ++ [a]) ++ inputs := by simp
      have hpush : push ⟨held, false⟩ a = some ⟨held ++ [a], false⟩ := rfl
      rw [feed, hpush]
      simp only [popAll, hdue, ih hrest]
      rw [← List.drop_append_of_le_length hk, ← List.take_append_of_le_length hk, ← hall,
        ← hcount, Nat.add_comm _ k, List.take_add, List.drop_drop]

theorem feed_append (d : Nat) (line : DelayLine α) (inputs inputs' : List α) :
    feed d line (inputs ++ inputs') =
      ((feed d line inputs).1 ++ (feed d (feed d line inputs).2 inputs').1,
        (feed d (feed d line inputs).2 inputs').2) := by
  induction inputs generalizing line with
  | nil => rfl
  | cons a inputs ih =>
      rw [List.cons_append, feed, feed]
      cases line.push a with
      | none => exact ih line
      | some pushed =>
          dsimp only
          rw [ih, List.append_assoc]

/-- Inputs do not make a line drain. -/
theorem feed_running {line : DelayLine α} (h : line.draining = false) (d : Nat)
    (inputs : List α) : (feed d line inputs).2.draining = false := by
  induction inputs generalizing line with
  | nil => exact h
  | cons a inputs ih =>
      have hpush : line.push a = some { line with held := line.held ++ [a] } := by
        rw [push, h]
        rfl
      rw [feed, hpush]
      exact ih h

theorem length_feed (d : Nat) (inputs : List α) :
    (feed d empty inputs).1.length = inputs.length - d := by
  rw [empty, feed_eq (Nat.zero_le d), List.nil_append, List.length_take, List.length_nil,
    Nat.zero_add]
  omega

/-- Outputs and what is held make up the inputs. -/
theorem feed_conserves (d : Nat) (inputs : List α) :
    (feed d empty inputs).1 ++ (feed d empty inputs).2.held = inputs := by
  rw [empty, feed_eq (Nat.zero_le d)]
  exact List.take_append_drop _ _

/-- A line that drains after its inputs releases all that it still holds. -/
theorem popAll_drain (d : Nat) (line : DelayLine α) :
    (line.drain.popAll d).1 = line.held := List.take_length

end DelayLine

end Media2

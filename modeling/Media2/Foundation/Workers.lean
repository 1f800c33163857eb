import Mathlib.Algebra.BigOperators.Fin

/-!
# What a pool of workers holds

Each of `n` workers is in a state of its own and holds something in it. When one worker
moves, what the pool holds changes by what that worker held and holds now.
-/

namespace Media2.Workers

variable {n : Nat} {σ M : Type*}

/-- What all the workers hold together. -/
def total [AddCommMonoid M] (held : σ → M) (workers : Fin n → σ) : M := ∑ i, held (workers i)

theorem total_eq_zero [AddCommMonoid M] {held : σ → M} {workers : Fin n → σ}
    (h : ∀ i, held (workers i) = 0) : total held workers = 0 :=
  Finset.sum_eq_zero fun i _ => h i

/-- The balance of a move. -/
theorem total_update [AddCommMonoid M] (held : σ → M) (workers : Fin n → σ) (i : Fin n) (w : σ) :
    total held (Function.update workers i w) + held (workers i) =
      total held workers + held w := by
  have hrest : ∑ j ∈ Finset.univ.erase i, held (Function.update workers i w j) =
      ∑ j ∈ Finset.univ.erase i, held (workers j) := by
    apply Finset.sum_congr rfl
    intro j hj
    rw [Function.update_of_ne (Finset.ne_of_mem_erase hj)]
  calc total held (Function.update workers i w) + held (workers i)
      = held w + ∑ j ∈ Finset.univ.erase i, held (workers j) + held (workers i) := by
        rw [total, ← Finset.add_sum_erase _ _ (Finset.mem_univ i), hrest,
          Function.update_self]
    _ = held (workers i) + ∑ j ∈ Finset.univ.erase i, held (workers j) + held w := by
        rw [add_right_comm, add_comm (held w), add_right_comm]
    _ = total held workers + held w := by
        rw [total, Finset.add_sum_erase _ (fun j => held (workers j)) (Finset.mem_univ i)]

variable [AddCancelCommMonoid M] {held : σ → M} {workers : Fin n → σ} {i : Fin n} {w : σ}

/-- A move that gives something away. -/
theorem total_give {given : M} (h : held (workers i) = given + held w) :
    given + total held (Function.update workers i w) = total held workers := by
  have hbalance := total_update held workers i w
  rw [h, ← add_assoc, add_left_inj] at hbalance
  rw [← hbalance, add_comm]

/-- A move that takes something. -/
theorem total_take {taken : M} (h : held w = held (workers i) + taken) :
    total held (Function.update workers i w) = total held workers + taken := by
  have hbalance := total_update held workers i w
  rw [h, ← add_assoc, add_right_comm, add_left_inj] at hbalance
  exact hbalance

/-- A move that keeps what the worker holds. -/
theorem total_keep (h : held w = held (workers i)) :
    total held (Function.update workers i w) = total held workers := by
  have hbalance := total_update held workers i w
  rwa [h, add_left_inj] at hbalance

end Media2.Workers

import Mathlib.Data.List.Infix

/-!
# Executions of partial labelled steps

A step function takes a state and a label to the next state, or to `none` when
the label is not enabled. An execution takes a list of labels in order. The
labels carry every choice of the schedule, so a statement about all
interleavings is a statement about all label lists.
-/

namespace Media2.Execution

variable {σ ℓ : Type*} (step : σ → ℓ → Option σ)

/-- Take the labels in order; `none` as soon as one of them is not enabled. -/
def exec (s : σ) (labels : List ℓ) : Option σ :=
  labels.foldlM step s

@[simp] theorem exec_nil (s : σ) : exec step s [] = some s := rfl

@[simp] theorem exec_cons (s : σ) (l : ℓ) (ls : List ℓ) :
    exec step s (l :: ls) = (step s l).bind fun t => exec step t ls := rfl

theorem exec_append (s : σ) (ls ls' : List ℓ) :
    exec step s (ls ++ ls') = (exec step s ls).bind fun t => exec step t ls' := by
  simp only [exec, List.foldlM_append]
  rfl

theorem exec_snoc (s : σ) (ls : List ℓ) (l : ℓ) :
    exec step s (ls ++ [l]) = (exec step s ls).bind fun t => step t l := by
  rw [exec_append]
  congr 1
  funext t
  simp

theorem exec_snoc_eq_some {s u : σ} {ls : List ℓ} {l : ℓ}
    (h : exec step s (ls ++ [l]) = some u) :
    ∃ t, exec step s ls = some t ∧ step t l = some u := by
  rw [exec_snoc] at h
  exact Option.bind_eq_some_iff.mp h

/-- `P` holds in every state the execution passes through. -/
def Always (P : σ → Prop) (s : σ) (labels : List ℓ) : Prop :=
  ∀ pre, pre <+: labels → ∀ t, exec step s pre = some t → P t

/-- Every step of the execution is taken in a state that admits its label. -/
def Guarded (ok : σ → ℓ → Prop) (s : σ) (labels : List ℓ) : Prop :=
  ∀ pre l, pre ++ [l] <+: labels → ∀ t, exec step s pre = some t → ok t l

variable {step}

theorem Guarded.of_prefix {ok : σ → ℓ → Prop} {s : σ} {ls ls' : List ℓ}
    (h : Guarded step ok s ls) (hp : ls' <+: ls) : Guarded step ok s ls' := by
  intro pre l hpre t ht
  exact h pre l (hpre.trans hp) t ht

theorem Guarded.last {ok : σ → ℓ → Prop} {s t : σ} {ls : List ℓ} {l : ℓ}
    (h : Guarded step ok s (ls ++ [l])) (ht : exec step s ls = some t) : ok t l :=
  h ls l (List.prefix_refl _) t ht

theorem guarded_nil (ok : σ → ℓ → Prop) (s : σ) : Guarded step ok s [] := by
  intro pre l hpre
  simp at hpre

theorem guarded_cons {ok : σ → ℓ → Prop} {s t : σ} {l : ℓ} {ls : List ℓ} (hl : ok s l)
    (ht : step s l = some t) (hls : Guarded step ok t ls) : Guarded step ok s (l :: ls) := by
  intro pre l' hpre u hu
  cases pre with
  | nil =>
      obtain ⟨rfl, -⟩ := List.cons_prefix_cons.mp hpre
      obtain rfl := Option.some.inj hu
      exact hl
  | cons k pre =>
      rw [List.cons_append] at hpre
      obtain ⟨rfl, hrest⟩ := List.cons_prefix_cons.mp hpre
      rw [exec_cons, ht] at hu
      exact hls pre l' hrest u hu

theorem Guarded.snoc {ok : σ → ℓ → Prop} {s t : σ} {ls : List ℓ} {l : ℓ}
    (h : Guarded step ok s ls) (ht : exec step s ls = some t) (hl : ok t l) :
    Guarded step ok s (ls ++ [l]) := by
  intro pre l' hpre u hu
  rcases List.prefix_concat_iff.mp hpre with heq | hpre
  · obtain ⟨rfl, hlast⟩ := List.append_inj' heq rfl
    obtain rfl := (List.cons.inj hlast).1
    rw [ht] at hu
    exact Option.some.inj hu ▸ hl
  · exact h pre l' hpre u hu

/-- The invariant rule. What holds at the start and is kept by every admitted step
holds all along an execution whose steps are admitted wherever it holds. -/
theorem always_of_step {ok : σ → ℓ → Prop} {I : σ → Prop} {ls : List ℓ}
    (hstep : ∀ s, ∀ l ∈ ls, ∀ t, I s → ok s l → step s l = some t → I t) {s : σ} (hs : I s)
    (hok : ∀ pre l, pre ++ [l] <+: ls → ∀ u, exec step s pre = some u → I u → ok u l) :
    Always step I s ls := by
  intro pre
  induction pre using List.reverseRecOn with
  | nil =>
      intro _ t ht
      obtain rfl : s = t := by simpa using ht
      exact hs
  | append_singleton pre l ih =>
      intro hpre t ht
      obtain ⟨u, hu, hl⟩ := exec_snoc_eq_some step ht
      have hI := ih ((List.prefix_append pre [l]).trans hpre) u hu
      have hmem : l ∈ ls := hpre.subset (by simp)
      exact hstep u l hmem t hI (hok pre l hpre u hu hI) hl

/-- The rule for the end of a guarded execution. -/
theorem Guarded.invariant {ok : σ → ℓ → Prop} {I : σ → Prop}
    (hstep : ∀ s l t, I s → ok s l → step s l = some t → I t) {s t : σ} {ls : List ℓ}
    (hs : I s) (hg : Guarded step ok s ls) (ht : exec step s ls = some t) : I t := by
  have halways : Always step I s ls := by
    apply always_of_step (fun s l _ t => hstep s l t) hs
    intro pre l hpre u hu _
    exact hg pre l hpre u hu
  exact halways ls (List.prefix_refl ls) t ht

/-- The rule without a guard. -/
theorem invariant_of_step {I : σ → Prop}
    (hstep : ∀ s l t, I s → step s l = some t → I t) {s t : σ} {ls : List ℓ}
    (hs : I s) (ht : exec step s ls = some t) : I t := by
  have hg : Guarded step (fun _ _ => True) s ls := fun _ _ _ _ _ => trivial
  exact Guarded.invariant (fun s l t hI _ h => hstep s l t hI h) hs hg ht

/-- Guards that agree wherever the invariant holds admit the same executions. -/
theorem Guarded.congr {ok ok' : σ → ℓ → Prop} {I : σ → Prop}
    (hstep : ∀ s l t, I s → step s l = some t → I t)
    (hiff : ∀ s l, I s → (ok s l ↔ ok' s l)) {s : σ} (hs : I s) (ls : List ℓ) :
    Guarded step ok s ls ↔ Guarded step ok' s ls := by
  have hI : ∀ pre t, exec step s pre = some t → I t := fun _ _ ht =>
    invariant_of_step hstep hs ht
  constructor
  · intro h pre l hpre t ht
    exact (hiff t l (hI pre t ht)).mp (h pre l hpre t ht)
  · intro h pre l hpre t ht
    exact (hiff t l (hI pre t ht)).mpr (h pre l hpre t ht)

/-- A property of states and a guard on steps say the same about executions when the
guard keeps an invariant that entails the property, and the property of the next
state entails the guard. -/
theorem always_iff_guarded {ok : σ → ℓ → Prop} {P I : σ → Prop} {ls : List ℓ}
    (hstep : ∀ s, ∀ l ∈ ls, ∀ t, I s → ok s l → step s l = some t → I t)
    (hP : ∀ s, I s → P s)
    (hok : ∀ s, ∀ l ∈ ls, I s → (∀ t, step s l = some t → P t) → ok s l) {s : σ} (hs : I s) :
    Always step P s ls ↔ Guarded step ok s ls := by
  constructor
  · intro h pre l hpre u hu
    have hnext : ∀ pre l, pre ++ [l] <+: ls → ∀ u, exec step s pre = some u → I u →
        ok u l := by
      intro pre l hpre u hu hI
      apply hok u l (hpre.subset (by simp)) hI
      intro t ht
      exact h _ hpre t (by rw [exec_snoc, hu]; exact ht)
    have hleft := (List.prefix_append pre [l]).trans hpre
    have hI := always_of_step hstep hs hnext pre hleft u hu
    exact hnext pre l hpre u hu hI
  · intro h pre hpre t ht
    apply hP t
    apply always_of_step hstep hs _ pre hpre t ht
    intro pre l hpre u hu _
    exact h pre l hpre u hu

/-- The progress rule. Where every state short of the goal has an admitted step to the goal
or to a smaller state, some execution of admitted labels gets to the goal. -/
theorem exists_exec_of_progress {r : σ → σ → Prop} (hr : WellFounded r) {ok : ℓ → Prop}
    {P Q : σ → Prop}
    (hstep : ∀ s, P s → Q s ∨ ∃ l t, ok l ∧ step s l = some t ∧ (Q t ∨ P t ∧ r t s))
    {s : σ} (hs : P s) :
    ∃ ls, (∀ l ∈ ls, ok l) ∧ ∃ t, exec step s ls = some t ∧ Q t := by
  induction s using hr.induction with
  | h s ih =>
      obtain hgoal | ⟨l, t, hl, ht, hgoal | ⟨hP, hless⟩⟩ := hstep s hs
      · exact ⟨[], by simp, s, rfl, hgoal⟩
      · exact ⟨[l], by simpa using hl, t, by simpa using ht, hgoal⟩
      · obtain ⟨ls, hls, u, hu, hgoal⟩ := ih t hless hP
        refine ⟨l :: ls, ?_, u, ?_, hgoal⟩
        · intro l' hl'
          cases List.mem_cons.mp hl' with
          | inl hhead => exact hhead ▸ hl
          | inr htail => exact hls l' htail
        · rw [exec_cons, ht]
          exact hu

end Media2.Execution

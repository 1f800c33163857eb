import Mathlib.Data.List.Infix
import Mathlib.Tactic.Common

/-!
# Cutting a sequence into chunks on the fly

A cutter keeps the chunks it has closed and one open chunk. A rule looks at the
open chunk and the next element and decides whether the open chunk is closed
before that element. Nothing is cut while the open chunk is empty.
-/

namespace Media2.Chunking

variable {α : Type*}

/-- The closed chunks in the order of closing, and the open chunk. -/
@[ext] structure Chunks (α : Type*) where
  closed : List (List α)
  current : List α

/-- Take one more element, closing the open chunk first when the rule says so. -/
def feed (cut : List α → α → Bool) (c : Chunks α) (a : α) : Chunks α :=
  if c.current ≠ [] ∧ cut c.current a then ⟨c.closed ++ [c.current], [a]⟩
  else ⟨c.closed, c.current ++ [a]⟩

/-- The chunks of a whole sequence. -/
def chunks (cut : List α → α → Bool) (l : List α) : Chunks α :=
  l.foldl (feed cut) ⟨[], []⟩

/-- Close the open chunk before every marked element. -/
def cutOn (key : α → Bool) : List α → α → Bool := fun _ a => key a

/-- Close the open chunk once it holds `n` elements. -/
def cutAt (n : Nat) : List α → α → Bool := fun cur _ => decide (n ≤ cur.length)

section Rule

variable (cut : List α → α → Bool)

theorem feed_cut {c : Chunks α} {a : α} (hc : c.current ≠ []) (h : cut c.current a = true) :
    feed cut c a = ⟨c.closed ++ [c.current], [a]⟩ := by
  simp [feed, hc, h]

theorem feed_keep {c : Chunks α} {a : α} (h : cut c.current a = false) :
    feed cut c a = ⟨c.closed, c.current ++ [a]⟩ := by
  simp [feed, h]

theorem feed_empty {c : Chunks α} {a : α} (hc : c.current = []) :
    feed cut c a = ⟨c.closed, [a]⟩ := by
  simp [feed, hc]

@[simp] theorem chunks_nil : chunks cut [] = ⟨[], []⟩ := rfl

theorem chunks_snoc (l : List α) (a : α) :
    chunks cut (l ++ [a]) = feed cut (chunks cut l) a := by
  simp [chunks]

theorem feed_current_ne_nil (c : Chunks α) (a : α) : (feed cut c a).current ≠ [] := by
  unfold feed
  split <;> simp

theorem chunks_current_ne_nil {l : List α} (hl : l ≠ []) : (chunks cut l).current ≠ [] := by
  obtain ⟨l, a, rfl⟩ := List.eq_nil_or_concat l |>.resolve_left hl
  rw [List.concat_eq_append, chunks_snoc]
  exact feed_current_ne_nil cut _ a

/-- Nothing is lost, repeated or moved by cutting. -/
theorem chunks_flatten (l : List α) :
    (chunks cut l).closed.flatten ++ (chunks cut l).current = l := by
  induction l using List.reverseRecOn with
  | nil => rfl
  | append_singleton l a ih =>
      rw [chunks_snoc]
      unfold feed
      split
      · simp [ih]
      · simp only [← List.append_assoc, ih]

/-- A position before the end of a sequence. -/
theorem length_lt_of_snoc {pre l : List α} {a : α} (hp : pre ++ [a] <+: l) :
    pre.length < l.length := by
  have hlen := hp.length_le
  rw [List.length_append, List.length_singleton] at hlen
  exact hlen

theorem snoc_prefix_snoc {pre l : List α} {a b : α} (hp : pre ++ [b] <+: l ++ [a]) :
    (pre = l ∧ b = a) ∨ pre ++ [b] <+: l := by
  cases List.prefix_concat_iff.mp hp with
  | inl heq =>
      obtain ⟨rfl, hb⟩ := List.append_inj' heq rfl
      exact Or.inl ⟨rfl, List.singleton_inj.mp hb⟩
  | inr hp => exact Or.inr hp

/-- The rule is false at every cut position strictly inside the chunk. -/
def Uncut (chunk : List α) : Prop :=
  ∀ pre a, pre ≠ [] → pre ++ [a] <+: chunk → cut pre a = false

theorem uncut_singleton (a : α) : Uncut cut [a] := by
  intro pre b hpre hp
  have hlen : pre.length < 1 := length_lt_of_snoc hp
  exact absurd (List.length_eq_zero_iff.mp (by omega)) hpre

theorem Uncut.snoc {chunk : List α} {a : α} (h : Uncut cut chunk)
    (ha : chunk ≠ [] → cut chunk a = false) : Uncut cut (chunk ++ [a]) := by
  intro pre b hpre hp
  cases snoc_prefix_snoc hp with
  | inl heq =>
      obtain ⟨rfl, rfl⟩ := heq
      exact ha hpre
  | inr hp => exact h pre b hpre hp

theorem chunks_current_uncut (l : List α) : Uncut cut (chunks cut l).current := by
  induction l using List.reverseRecOn with
  | nil =>
      intro pre a _ hp
      simp at hp
  | append_singleton l a ih =>
      rw [chunks_snoc]
      by_cases hc : (chunks cut l).current = []
      · rw [feed_empty cut hc]
        exact uncut_singleton cut a
      · cases h : cut (chunks cut l).current a with
        | true =>
            rw [feed_cut cut hc h]
            exact uncut_singleton cut a
        | false =>
            rw [feed_keep cut h]
            exact ih.snoc cut fun _ => h

/-- A closed chunk was open until the rule fired on it, and not before. -/
theorem closed_spec (l : List α) :
    ∀ chunk ∈ (chunks cut l).closed,
      chunk ≠ [] ∧ (∃ a, cut chunk a = true) ∧ Uncut cut chunk := by
  induction l using List.reverseRecOn with
  | nil => simp
  | append_singleton l a ih =>
      intro chunk hmem
      rw [chunks_snoc] at hmem
      unfold feed at hmem
      split at hmem
      · rename_i h
        rcases List.mem_append.mp hmem with hmem | hmem
        · exact ih chunk hmem
        · obtain rfl := List.mem_singleton.mp hmem
          exact ⟨h.1, ⟨a, h.2⟩, chunks_current_uncut cut l⟩
      · exact ih chunk hmem

/-- Every chunk starts with an element that the rule cuts at, apart from the
first chunk, which starts with the first element. -/
theorem starts_spec {P : α → Prop} (hcut : ∀ cur a, cut cur a = true → P a) (l : List α)
    (hfirst : ∀ a ∈ l.head?, P a) :
    (∀ chunk ∈ (chunks cut l).closed, ∀ a ∈ chunk.head?, P a) ∧
      ∀ a ∈ (chunks cut l).current.head?, P a := by
  induction l using List.reverseRecOn with
  | nil => simp
  | append_singleton l a ih =>
      obtain ⟨hclosed, hcurrent⟩ := ih fun b hb => hfirst b (by
        rw [List.head?_append]
        simp [Option.mem_def.mp hb])
      rw [chunks_snoc]
      by_cases hl : l = []
      · subst hl
        rw [feed_empty cut rfl]
        exact ⟨by simp, by simpa using hfirst⟩
      · have hc := chunks_current_ne_nil cut hl
        cases h : cut (chunks cut l).current a with
        | true =>
            rw [feed_cut cut hc h]
            refine ⟨fun chunk hmem => ?_, by simpa using hcut _ _ h⟩
            rcases List.mem_append.mp hmem with hmem | hmem
            · exact hclosed chunk hmem
            · rw [List.mem_singleton.mp hmem]
              exact hcurrent
        | false =>
            rw [feed_keep cut h]
            refine ⟨hclosed, fun b hb => hcurrent b ?_⟩
            rwa [List.head?_append_of_ne_nil _ hc] at hb

end Rule

section Key

variable (key : α → Bool)

/-- Inside a chunk cut on marked elements only the first element can be marked. -/
theorem tail_unmarked {chunk : List α} (h : Uncut (cutOn key) chunk) :
    ∀ a ∈ chunk.tail, key a = false := by
  intro a ha
  obtain ⟨pre, post, hsplit⟩ := List.append_of_mem ha
  cases chunk with
  | nil => simp at ha
  | cons b rest =>
      apply h (b :: pre) a (by simp)
      rw [List.tail_cons] at hsplit
      exact ⟨post, by simp [hsplit]⟩

theorem cutOn_starts (l : List α) (hfirst : ∀ a ∈ l.head?, key a = true) :
    (∀ chunk ∈ (chunks (cutOn key) l).closed, ∀ a ∈ chunk.head?, key a = true) ∧
      ∀ a ∈ (chunks (cutOn key) l).current.head?, key a = true :=
  starts_spec (cutOn key) (fun _ _ h => h) l hfirst

end Key

section Count

variable (n : Nat)

/-- A chunk closed by count holds exactly `n` elements, or one when `n` is zero. -/
theorem cutAt_closed_length (l : List α) :
    ∀ chunk ∈ (chunks (cutAt n) l).closed, chunk.length = max 1 n := by
  intro chunk hmem
  obtain ⟨hne, ⟨a, ha⟩, hun⟩ := closed_spec (cutAt n) l chunk hmem
  have hge : n ≤ chunk.length := by simpa [cutAt] using ha
  obtain ⟨pre, b, rfl⟩ := List.eq_nil_or_concat chunk |>.resolve_left hne
  rw [List.concat_eq_append] at *
  by_cases hpre : pre = []
  · simp [hpre] at hge ⊢
    omega
  · have hlt : pre.length < n := by
      simpa [cutAt] using hun pre b hpre (List.prefix_refl _)
    simp only [List.length_append, List.length_cons, List.length_nil] at hge ⊢
    omega

theorem succ_mod_eq {k m : Nat} (hm : 0 < m) :
    (k + 1) % m = if k % m + 1 = m then 0 else k % m + 1 := by
  have hlt := Nat.mod_lt k hm
  rw [← Nat.mod_add_mod]
  split
  · rename_i h
    rw [h, Nat.mod_self]
  · exact Nat.mod_eq_of_lt (by omega)

/-- The open chunk of a counted cut holds what the last full chunk left over. -/
theorem cutAt_current_length {l : List α} (hl : l ≠ []) :
    (chunks (cutAt n) l).current.length = (l.length - 1) % max 1 n + 1 := by
  induction l using List.reverseRecOn with
  | nil => exact absurd rfl hl
  | append_singleton l a ih =>
      rw [chunks_snoc]
      by_cases hnil : l = []
      · subst hnil
        simp [feed_empty]
      · have ih := ih hnil
        have hc := chunks_current_ne_nil (cutAt n) hnil
        have hpos : 0 < l.length := List.length_pos_iff.mpr hnil
        have hm : 0 < max 1 n := by omega
        have hlt := Nat.mod_lt (l.length - 1) hm
        have hsucc : (l ++ [a]).length - 1 = (l.length - 1) + 1 := by
          simp only [List.length_append, List.length_cons, List.length_nil]
          omega
        rw [hsucc, succ_mod_eq hm]
        cases h : cutAt n (chunks (cutAt n) l).current a with
        | true =>
            have hge : n ≤ (chunks (cutAt n) l).current.length := by simpa [cutAt] using h
            rw [feed_cut _ hc h, if_pos (by omega)]
            rfl
        | false =>
            have hge : (chunks (cutAt n) l).current.length < n := by simpa [cutAt] using h
            rw [feed_keep _ h, if_neg (by omega), List.length_append, ih]
            rfl

end Count

section Agreement

/-- One more element leaves enough behind to tell what was there before it and
whether the open chunk was closed. -/
theorem feed_injective {cut₁ cut₂ : List α → α → Bool} {c₁ c₂ : Chunks α} {a : α}
    (h₁ : c₁.current ≠ []) (h₂ : c₂.current ≠ []) (h : feed cut₁ c₁ a = feed cut₂ c₂ a) :
    c₁ = c₂ ∧ cut₁ c₁.current a = cut₂ c₂.current a := by
  cases hc₁ : cut₁ c₁.current a <;> cases hc₂ : cut₂ c₂.current a
  · rw [feed_keep cut₁ hc₁, feed_keep cut₂ hc₂, Chunks.mk.injEq] at h
    exact ⟨Chunks.ext h.1 (List.append_cancel_right h.2), rfl⟩
  · rw [feed_keep cut₁ hc₁, feed_cut cut₂ h₂ hc₂, Chunks.mk.injEq] at h
    exact absurd (List.append_eq_singleton_iff.mp h.2) (by simp [h₁])
  · rw [feed_cut cut₁ h₁ hc₁, feed_keep cut₂ hc₂, Chunks.mk.injEq] at h
    exact absurd (List.append_eq_singleton_iff.mp h.2.symm) (by simp [h₂])
  · rw [feed_cut cut₁ h₁ hc₁, feed_cut cut₂ h₂ hc₂, Chunks.mk.injEq] at h
    obtain ⟨hclosed, hcurrent⟩ := List.append_inj' h.1 rfl
    exact ⟨Chunks.ext hclosed (List.singleton_inj.mp hcurrent), rfl⟩

/-- Two rules cut a sequence alike exactly when they decide alike at every
position after the first. -/
theorem chunks_eq_iff (cut₁ cut₂ : List α → α → Bool) (l : List α) :
    chunks cut₁ l = chunks cut₂ l ↔
      ∀ pre a, pre ++ [a] <+: l → pre ≠ [] →
        cut₁ (chunks cut₂ pre).current a = cut₂ (chunks cut₂ pre).current a := by
  induction l using List.reverseRecOn with
  | nil => simp
  | append_singleton l a ih =>
      rw [chunks_snoc, chunks_snoc]
      constructor
      · intro h pre b hp hpre
        by_cases hl : l = []
        · subst hl
          have hlen : pre.length < 1 := length_lt_of_snoc hp
          exact absurd (List.length_eq_zero_iff.mp (by omega)) hpre
        · obtain ⟨heq, hdec⟩ := feed_injective (chunks_current_ne_nil cut₁ hl)
            (chunks_current_ne_nil cut₂ hl) h
          cases snoc_prefix_snoc hp with
          | inl hlast =>
              obtain ⟨rfl, rfl⟩ := hlast
              rwa [heq] at hdec
          | inr hp => exact ih.mp heq pre b hp hpre
      · intro h
        have heq : chunks cut₁ l = chunks cut₂ l := ih.mpr fun pre b hp hpre =>
          h pre b (hp.trans (List.prefix_append l [a])) hpre
        rw [heq]
        by_cases hl : l = []
        · subst hl
          simp [feed_empty]
        · have hdec := h l a (List.prefix_refl _) hl
          simp only [feed, hdec]

/-- Cutting on marks and cutting by count agree exactly when, after the first
element, the marks sit at the multiples of the count. -/
theorem cutOn_eq_cutAt_iff (key : α → Bool) (n : Nat) (l : List α) :
    chunks (cutOn key) l = chunks (cutAt n) l ↔
      ∀ i (h : i < l.length), 0 < i → (key l[i] = true ↔ max 1 n ∣ i) := by
  have hcount : ∀ pre : List α, pre ≠ [] → ∀ a,
      (cutAt n (chunks (cutAt n) pre).current a = true ↔ max 1 n ∣ pre.length) := by
    intro pre hpre a
    have hm : 0 < max 1 n := by omega
    have hpos : 0 < pre.length := List.length_pos_iff.mpr hpre
    have hlt := Nat.mod_lt (pre.length - 1) hm
    have hsucc : pre.length = (pre.length - 1) + 1 := by omega
    simp only [cutAt, decide_eq_true_eq, cutAt_current_length n hpre]
    rw [Nat.dvd_iff_mod_eq_zero, hsucc, succ_mod_eq hm, Nat.add_sub_cancel]
    split
    · simp
      omega
    · simp
      omega
  rw [chunks_eq_iff]
  constructor
  · intro h i hi hpos
    have hp : l.take i ++ [l[i]] <+: l := by
      rw [List.take_append_getElem]
      exact List.take_prefix _ l
    have hlen : (l.take i).length = i := List.length_take_of_le (by omega)
    have hne : l.take i ≠ [] := List.ne_nil_of_length_pos (by omega)
    have hiff := hcount (l.take i) hne l[i]
    rwa [hlen, ← h _ _ hp hne] at hiff
  · intro h pre a hp hpre
    have hlt := length_lt_of_snoc hp
    have ha : l[pre.length] = a := by
      obtain ⟨post, rfl⟩ := hp
      simp
    have hkey := h pre.length hlt (List.length_pos_iff.mpr hpre)
    rw [ha, ← hcount pre hpre a] at hkey
    exact Bool.eq_iff_iff.mpr hkey

end Agreement

end Media2.Chunking

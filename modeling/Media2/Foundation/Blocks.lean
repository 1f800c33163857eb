import Mathlib.Algebra.Order.Group.Multiset
import Mathlib.Data.Multiset.Range
import Mathlib.Tactic.Common

/-!
# Blocks of memory and their owners

Blocks are allocated at fresh addresses, read, written and freed. Every live block belongs to
one of the owners or was lost, and so an owner can always use and free what belongs to it.
-/

namespace Media2

/-- How a process can come to its end: by a pointer that is used wrongly, or by an exception that
leaves a destructor. -/
inductive Crash
  | nullDereference
  | useAfterFree
  | invalidFree
  | terminated
  deriving DecidableEq

/-- The blocks by address; `none` stands for one that was freed. -/
structure Blocks (α : Type*) where
  cells : List (Option α)

namespace Blocks

variable {α : Type*}

def empty : Blocks α := ⟨[]⟩

def alloc (b : Blocks α) (a : α) : Nat × Blocks α := (b.cells.length, ⟨b.cells ++ [some a]⟩)

/-- What is at an address, if that is the address of a live block. -/
def get (b : Blocks α) (p : Nat) : Option α := b.cells[p]?.join

def read (b : Blocks α) (p : Nat) : Except Crash α :=
  match b.get p with
  | some a => .ok a
  | none => .error .useAfterFree

/-- Look at what a pointer refers to unless it is null. -/
def readIfSet (b : Blocks α) : Option Nat → Except Crash (Option α)
  | none => .ok none
  | some p => (b.read p).map some

def write (b : Blocks α) (p : Nat) (a : α) : Except Crash (Blocks α) :=
  match b.get p with
  | some _ => .ok ⟨b.cells.set p (some a)⟩
  | none => .error .useAfterFree

def free (b : Blocks α) (p : Nat) : Except Crash (Blocks α) :=
  match b.get p with
  | some _ => .ok ⟨b.cells.set p none⟩
  | none => .error .invalidFree

/-- Free what a pointer refers to unless it is null. -/
def freeIfSet (b : Blocks α) : Option Nat → Except Crash (Blocks α)
  | none => .ok b
  | some p => b.free p

/-- There was a block at this address, which was freed. -/
def Freed (b : Blocks α) (p : Nat) : Prop := p < b.cells.length ∧ b.get p = none

/-- What was freed is not there again. -/
def Later (b b' : Blocks α) : Prop := ∀ p, b.Freed p → b'.Freed p

/-- The addresses of the live blocks. -/
def live (b : Blocks α) : Multiset Nat :=
  (Multiset.range b.cells.length).filter fun p => (b.get p).isSome = true

section Contents

variable {b b' : Blocks α} {p q : Nat} {a : α}

theorem lt_of_isSome (h : (b.get p).isSome = true) : p < b.cells.length := by
  by_contra hge
  simp [get, List.getElem?_eq_none (Nat.le_of_not_lt hge)] at h

theorem get_set (hp : (b.get p).isSome = true) (x : Option α) (q : Nat) :
    get ⟨b.cells.set p x⟩ q = if q = p then x else b.get q := by
  have hlt := lt_of_isSome hp
  unfold get
  rw [List.getElem?_set]
  by_cases heq : p = q
  · rw [if_pos heq, if_pos hlt, if_pos heq.symm]
    rfl
  · rw [if_neg heq, if_neg (Ne.symm heq)]

theorem read_eq_ok : b.read p = .ok a ↔ b.get p = some a := by
  unfold read
  cases b.get p with
  | none => simp
  | some x => simp

theorem read_freed (h : b.get p = none) : b.read p = .error .useAfterFree := by
  rw [read, h]

theorem write_ok (hp : (b.get p).isSome = true) (a : α) :
    ∃ b', b.write p a = .ok b' ∧ b'.get p = some a ∧ ∀ q ≠ p, b'.get q = b.get q := by
  obtain ⟨x, hx⟩ := Option.isSome_iff_exists.mp hp
  refine ⟨⟨b.cells.set p (some a)⟩, by rw [write, hx], ?_, ?_⟩
  · rw [get_set hp, if_pos rfl]
  · intro q hq
    rw [get_set hp, if_neg hq]

theorem free_ok (hp : (b.get p).isSome = true) :
    ∃ b', b.free p = .ok b' ∧ b'.get p = none ∧ ∀ q ≠ p, b'.get q = b.get q := by
  obtain ⟨x, hx⟩ := Option.isSome_iff_exists.mp hp
  refine ⟨⟨b.cells.set p none⟩, by rw [free, hx], ?_, ?_⟩
  · rw [get_set hp, if_pos rfl]
  · intro q hq
    rw [get_set hp, if_neg hq]

theorem get_alloc (b : Blocks α) (a : α) (q : Nat) :
    (b.alloc a).2.get q = if q = (b.alloc a).1 then some a else b.get q := by
  unfold alloc get
  dsimp only
  rw [List.getElem?_append]
  split
  · rename_i hlt
    rw [if_neg (Nat.ne_of_lt hlt)]
  · rename_i hge
    by_cases heq : q = b.cells.length
    · rw [if_pos heq, heq, Nat.sub_self]
      rfl
    · have hlt : b.cells.length < q := by omega
      rw [if_neg heq, List.getElem?_eq_none (Nat.le_of_lt hlt), List.getElem?_eq_none]
      rw [List.length_singleton]
      omega

theorem get_alloc_none (b : Blocks α) (a : α) : b.get (b.alloc a).1 = none := by
  simp [Blocks.alloc, Blocks.get]

theorem alloc_same {a : α} {q : Nat} (hq : (b.get q).isSome = true) :
    q ≠ (b.alloc a).1 ∧ (b.alloc a).2.get q = b.get q := by
  have hne : q ≠ (b.alloc a).1 := by
    rintro rfl
    rw [get_alloc_none] at hq
    cases hq
  exact ⟨hne, by rw [get_alloc, if_neg hne]⟩

theorem Later.refl (b : Blocks α) : Later b b := fun _ h => h

theorem Later.trans {b'' : Blocks α} (h : Later b b') (h' : Later b' b'') : Later b b'' :=
  fun p hp => h' p (h p hp)

theorem later_alloc (b : Blocks α) (a : α) : Later b (b.alloc a).2 := by
  rintro p ⟨hlt, hnone⟩
  refine ⟨?_, ?_⟩
  · rw [alloc, List.length_append]
    exact Nat.lt_add_right _ hlt
  · exact (get_alloc b a p).trans ((if_neg (Nat.ne_of_lt hlt)).trans hnone)

theorem later_free (h : b.free p = .ok b') : Later b b' ∧ b'.Freed p := by
  unfold free at h
  split at h
  · rename_i x hx
    have hsome : (b.get p).isSome = true := by rw [hx, Option.isSome_some]
    obtain rfl := Except.ok.inj h
    have hlt := lt_of_isSome hsome
    constructor
    · rintro q ⟨hq, hnone⟩
      refine ⟨hq.trans_eq List.length_set.symm, ?_⟩
      rw [get_set hsome]
      split
      · rfl
      · exact hnone
    · refine ⟨hlt.trans_eq List.length_set.symm, ?_⟩
      rw [get_set hsome, if_pos rfl]
  · cases h

theorem later_freeAll {pointers : List Nat} (h : pointers.foldlM Blocks.free b = .ok b') :
    Later b b' ∧ ∀ p ∈ pointers, b'.Freed p := by
  induction pointers generalizing b with
  | nil =>
      obtain rfl := Except.ok.inj h
      exact ⟨Later.refl b, by simp⟩
  | cons p pointers ih =>
      rw [List.foldlM_cons] at h
      cases hfree : b.free p with
      | error crash =>
          rw [hfree] at h
          cases h
      | ok b₁ =>
          rw [hfree] at h
          obtain ⟨hfirst, hfreed⟩ := later_free hfree
          obtain ⟨hlater, hothers⟩ := ih h
          refine ⟨hfirst.trans hlater, ?_⟩
          intro q hq
          rcases List.mem_cons.mp hq with rfl | hmem
          · exact hlater q hfreed
          · exact hothers q hmem

theorem mem_live : p ∈ b.live ↔ (b.get p).isSome = true := by
  unfold live
  rw [Multiset.mem_filter, Multiset.mem_range, and_iff_right_iff_imp]
  exact lt_of_isSome

theorem nodup_live (b : Blocks α) : b.live.Nodup :=
  (Multiset.nodup_range _).filter _

end Contents

/-- The live blocks are those that are owned and those that were lost, each once. -/
def Accounted (b : Blocks α) (owned lost : Multiset Nat) : Prop := b.live = owned + lost

section Accounts

variable {b : Blocks α} {owned lost : Multiset Nat} {p : Nat}

theorem accounted_empty : (empty : Blocks α).Accounted 0 0 := rfl

theorem Accounted.nodup (h : b.Accounted owned lost) : owned.Nodup :=
  (Multiset.nodup_add.mp (h ▸ b.nodup_live)).1

/-- An owner can use what it owns. -/
theorem Accounted.isSome (h : b.Accounted owned lost) (hp : p ∈ owned) : (b.get p).isSome = true :=
  mem_live.mp (h.symm ▸ Multiset.mem_add.mpr (Or.inl hp))

theorem Accounted.get (h : b.Accounted owned lost) (hp : p ∈ owned) :
    ∃ a, b.get p = some a :=
  Option.isSome_iff_exists.mp (h.isSome hp)

/-- A new block belongs to the one who allocated it. -/
theorem Accounted.alloc (h : b.Accounted owned lost) (a : α) :
    (b.alloc a).2.Accounted ((b.alloc a).1 ::ₘ owned) lost := by
  have hfresh : (b.alloc a).1 ∉ b.live := by
    rw [mem_live, get_alloc_none]
    exact Bool.false_ne_true
  rw [Accounted, Multiset.cons_add, ← h]
  apply (nodup_live _).ext (Multiset.nodup_cons.mpr ⟨hfresh, b.nodup_live⟩) |>.mpr
  intro q
  rw [Multiset.mem_cons, mem_live, mem_live, get_alloc]
  split
  · rename_i heq
    exact ⟨fun _ => Or.inl heq, fun _ => rfl⟩
  · rename_i hne
    exact ⟨Or.inr, fun h => h.resolve_left hne⟩

/-- An owner can write what it owns, which nobody else notices. -/
theorem Accounted.write (h : b.Accounted owned lost) (hp : p ∈ owned) (a : α) :
    ∃ b', b.write p a = .ok b' ∧ b'.Accounted owned lost ∧ b'.get p = some a ∧
      ∀ q ≠ p, b'.get q = b.get q := by
  have hsome := h.isSome hp
  obtain ⟨b', hwrite, hself, hothers⟩ := write_ok hsome a
  refine ⟨b', hwrite, ?_, hself, hothers⟩
  rw [Accounted, ← h]
  apply (nodup_live _).ext b.nodup_live |>.mpr
  intro q
  rw [mem_live, mem_live]
  by_cases heq : q = p
  · rw [heq, hself, hsome, Option.isSome_some]
  · rw [hothers q heq]

/-- A block is allocated and filled. -/
theorem Accounted.allocWrite (h : b.Accounted owned lost) (a x : α) :
    ∃ b', (b.alloc a).2.write (b.alloc a).1 x = .ok b' ∧
      b'.Accounted ((b.alloc a).1 ::ₘ owned) lost ∧ b'.get (b.alloc a).1 = some x ∧
      ∀ q, (b.get q).isSome = true → b'.get q = b.get q := by
  obtain ⟨b', hwrite, hacc, hself, hothers⟩ := (h.alloc a).write (Multiset.mem_cons_self ..) x
  refine ⟨b', hwrite, hacc, hself, ?_⟩
  intro q hq
  obtain ⟨hne, hsame⟩ := alloc_same (a := a) hq
  rw [hothers q hne, hsame]

/-- An owner can free what it owns, and then nobody has it. -/
theorem Accounted.free (h : b.Accounted (p ::ₘ owned) lost) :
    ∃ b', b.free p = .ok b' ∧ b'.Accounted owned lost ∧ ∀ q ≠ p, b'.get q = b.get q := by
  have hsome := h.isSome (Multiset.mem_cons_self p owned)
  obtain ⟨b', hfree, hself, hothers⟩ := free_ok hsome
  refine ⟨b', hfree, ?_, hothers⟩
  have hlive : b.live = p ::ₘ (owned + lost) := h.trans (Multiset.cons_add ..)
  have hnodup := Multiset.nodup_cons.mp (hlive ▸ b.nodup_live)
  apply (nodup_live _).ext hnodup.2 |>.mpr
  intro q
  have hq : q ∈ b.live ↔ q = p ∨ q ∈ owned + lost := by rw [hlive, Multiset.mem_cons]
  rw [mem_live] at hq ⊢
  by_cases heq : q = p
  · rw [heq, hself]
    exact ⟨fun h => absurd h Bool.false_ne_true, fun h => absurd h hnodup.1⟩
  · rw [hothers q heq, hq]
    exact ⟨fun h => h.resolve_left heq, Or.inr⟩

theorem Accounted.freeIfSet {pointer : Option Nat}
    (h : b.Accounted (Multiset.ofList pointer.toList + owned) lost) :
    ∃ b', b.freeIfSet pointer = .ok b' ∧ b'.Accounted owned lost ∧
      ∀ q ∉ pointer, b'.get q = b.get q := by
  cases pointer with
  | none => exact ⟨b, rfl, by simpa using h, fun _ _ => rfl⟩
  | some p =>
      have hcons : b.Accounted (p ::ₘ owned) lost := by simpa using h
      obtain ⟨b', hfree, hacc, hothers⟩ := hcons.free
      exact ⟨b', hfree, hacc, fun q hq => hothers q fun heq => hq (heq ▸ rfl)⟩

/-- A new block takes the place of the one that a pointer refers to. -/
theorem Accounted.replace {pointer : Option Nat}
    (h : b.Accounted (Multiset.ofList pointer.toList + owned) lost) (a x : α) :
    ∃ b₁ b₂, (b.alloc a).2.write (b.alloc a).1 x = .ok b₁ ∧ b₁.freeIfSet pointer = .ok b₂ ∧
      b₂.Accounted ((b.alloc a).1 ::ₘ owned) lost ∧ b₂.get (b.alloc a).1 = some x ∧
      ∀ q, (b.get q).isSome = true → q ∉ pointer → b₂.get q = b.get q := by
  obtain ⟨b₁, hwrite, hacc, hself, hsame⟩ := h.allocWrite a x
  rw [← Multiset.add_cons] at hacc
  obtain ⟨b₂, hfree, hacc₂, hothers⟩ := hacc.freeIfSet
  have hnew : (b.alloc a).1 ∉ pointer := by
    intro hmem
    have hold : (b.alloc a).1 ∈ Multiset.ofList pointer.toList + owned := by
      apply Multiset.mem_add.mpr (Or.inl _)
      exact Multiset.mem_coe.mpr (Option.mem_toList.mpr hmem)
    have hsome := h.isSome hold
    rw [get_alloc_none] at hsome
    cases hsome
  refine ⟨b₁, b₂, hwrite, hfree, hacc₂, (hothers _ hnew).trans hself, ?_⟩
  intro q hq hmem
  rw [hothers q hmem, hsame q hq]

/-- An owner can free everything it owns. -/
theorem Accounted.freeAll {pointers : List Nat}
    (h : b.Accounted (Multiset.ofList pointers + owned) lost) :
    ∃ b', pointers.foldlM Blocks.free b = .ok b' ∧ b'.Accounted owned lost ∧
      ∀ q ∉ pointers, b'.get q = b.get q := by
  induction pointers generalizing b with
  | nil => exact ⟨b, rfl, by simpa using h, fun _ _ => rfl⟩
  | cons p pointers ih =>
      have hcons : b.Accounted (p ::ₘ (Multiset.ofList pointers + owned)) lost := by
        rwa [← Multiset.cons_coe, Multiset.cons_add] at h
      obtain ⟨b₁, hfree, hacc, hfirst⟩ := hcons.free
      obtain ⟨b₂, hrest, hend, hothers⟩ := ih hacc
      refine ⟨b₂, ?_, hend, ?_⟩
      · rw [List.foldlM_cons, hfree]
        exact hrest
      · intro q hq
        have hne : q ≠ p := fun heq => hq (heq ▸ List.mem_cons_self ..)
        have hnot : q ∉ pointers := fun hmem => hq (List.mem_cons_of_mem p hmem)
        rw [hothers q hnot, hfirst q hne]

/-- A pointer that is overwritten leaves its block without an owner. -/
theorem Accounted.lose (h : b.Accounted (p ::ₘ owned) lost) : b.Accounted owned (p ::ₘ lost) := by
  rw [Accounted, Multiset.add_cons, ← Multiset.cons_add]
  exact h

end Accounts

section Owners

variable {σ : Type*} (owns : σ → Multiset Nat)

/-- What all the owners own. -/
def held (owners : List σ) : Multiset Nat := (owners.map owns).sum

theorem held_append (owners owners' : List σ) :
    held owns (owners ++ owners') = held owns owners + held owns owners' := by
  simp [held]

theorem held_singleton (x : σ) : held owns [x] = owns x := by
  simp [held]

theorem held_eq_zero {owners : List σ} (h : ∀ x ∈ owners, owns x = 0) : held owns owners = 0 := by
  induction owners with
  | nil => rfl
  | cons x owners ih =>
      rw [← List.singleton_append, held_append, held_singleton, h x (List.mem_cons_self ..),
        zero_add]
      exact ih fun y hy => h y (List.mem_cons_of_mem x hy)

theorem held_le {owners : List σ} {x : σ} (h : x ∈ owners) : owns x ≤ held owns owners := by
  obtain ⟨before, after, rfl⟩ := List.append_of_mem h
  rw [held_append, ← List.singleton_append, held_append, held_singleton, add_left_comm]
  exact Multiset.le_add_right ..

/-- One owner and the others, whom a change of that one does not concern. -/
theorem held_split {owners : List σ} {i : Nat} {x : σ} (h : owners[i]? = some x) :
    ∃ others, held owns owners = owns x + others ∧
      (∀ y, held owns (owners.set i y) = owns y + others) ∧
      ∀ j ≠ i, ∀ y, owners[j]? = some y → owns y ≤ others := by
  obtain ⟨hlt, rfl⟩ := List.getElem?_eq_some_iff.mp h
  refine ⟨held owns (owners.take i) + held owns (owners.drop (i + 1)), ?_, ?_, ?_⟩
  · have hsplit := List.take_append_drop i owners
    rw [← List.cons_getElem_drop_succ (h := hlt)] at hsplit
    conv_lhs => rw [← hsplit, held_append, ← List.singleton_append, held_append, held_singleton]
    rw [add_left_comm]
  · intro y
    rw [List.set_eq_take_append_cons_drop, if_pos hlt, held_append, ← List.singleton_append,
      held_append, held_singleton, add_left_comm]
  · intro j hj y hy
    rw [← held_append]
    apply held_le
    rw [List.mem_append]
    rcases Nat.lt_or_gt_of_ne hj with hless | hgreater
    · left
      apply List.mem_of_getElem? (i := j)
      rw [List.getElem?_take_of_lt hless, hy]
    · right
      apply List.mem_of_getElem? (i := j - (i + 1))
      rw [List.getElem?_drop, Nat.add_sub_cancel' hgreater, hy]

theorem held_snoc (owners : List σ) (x : σ) :
    held owns (owners ++ [x]) = owns x + held owns owners := by
  rw [held_append, held_singleton, add_comm]

/-- An owner may change as long as it owns the same. -/
theorem Accounted.set {α : Type*} {b : Blocks α} {owners : List σ} {lost : Multiset Nat}
    (h : b.Accounted (held owns owners) lost) {i : Nat} {x y : σ} (hx : owners[i]? = some x)
    (heq : owns y = owns x) : b.Accounted (held owns (owners.set i y)) lost := by
  obtain ⟨others, hheld, hset, -⟩ := held_split owns hx
  rw [hset, heq, ← hheld]
  exact h

/-- A block has one owner. -/
theorem Accounted.owner_unique {α : Type*} {b : Blocks α} {owners : List σ}
    {lost : Multiset Nat} (h : b.Accounted (held owns owners) lost) {i j : Nat} {x y : σ}
    (hx : owners[i]? = some x) (hy : owners[j]? = some y) {p : Nat} (hpx : p ∈ owns x)
    (hpy : p ∈ owns y) : i = j := by
  by_contra hne
  obtain ⟨others, hheld, -, hothers⟩ := held_split owns hx
  have hnodup := h.nodup
  rw [hheld] at hnodup
  have hmem : p ∈ others := Multiset.mem_of_le (hothers j (Ne.symm hne) y hy) hpy
  exact Multiset.disjoint_left.mp (Multiset.nodup_add.mp hnodup).2.2 hpx hmem

end Owners

end Blocks

end Media2

import Mathlib.Algebra.Group.Nat.Defs
import Mathlib.Tactic.Common

/-!
# Byte formats

A writer is a list of bytes. A reader consumes a byte list from the front and
fails with a chosen error when the list is too short. Fixed-width words are
written in little-endian order.
-/

namespace Media2.ByteFormat

/-- The `n` low bytes of a number, least significant first. -/
def leBytes : Nat → Nat → List UInt8
  | 0, _ => []
  | n + 1, x => UInt8.ofNat (x % 256) :: leBytes n (x / 256)

/-- The number that a little-endian byte list stands for. -/
def ofLeBytes : List UInt8 → Nat
  | [] => 0
  | b :: bs => b.toNat + 256 * ofLeBytes bs

@[simp] theorem length_leBytes (n x : Nat) : (leBytes n x).length = n := by
  induction n generalizing x with
  | zero => rfl
  | succ n ih => simp [leBytes, ih]

theorem ofLeBytes_leBytes {n x : Nat} (h : x < 256 ^ n) : ofLeBytes (leBytes n x) = x := by
  induction n generalizing x with
  | zero =>
      simp only [Nat.pow_zero, Nat.lt_one_iff] at h
      rw [h]
      rfl
  | succ n ih =>
      have hdiv : x / 256 < 256 ^ n := by
        rw [Nat.pow_succ] at h
        exact Nat.div_lt_of_lt_mul (by rwa [Nat.mul_comm])
      have hbyte : (UInt8.ofNat (x % 256)).toNat = x % 256 := by
        rw [UInt8.toNat_ofNat']
        omega
      simp only [leBytes, ofLeBytes, ih hdiv, hbyte]
      omega

theorem ofLeBytes_lt (bytes : List UInt8) : ofLeBytes bytes < 256 ^ bytes.length := by
  induction bytes with
  | nil => exact Nat.one_pos
  | cons b bytes ih =>
      have hbyte := b.toNat_lt
      rw [ofLeBytes, List.length_cons, Nat.pow_succ]
      omega

theorem leBytes_ofLeBytes (bytes : List UInt8) :
    leBytes bytes.length (ofLeBytes bytes) = bytes := by
  induction bytes with
  | nil => rfl
  | cons b bytes ih =>
      have hbyte := b.toNat_lt
      have hmod : (b.toNat + 256 * ofLeBytes bytes) % 256 = b.toNat := by omega
      have hdiv : (b.toNat + 256 * ofLeBytes bytes) / 256 = ofLeBytes bytes := by omega
      rw [List.length_cons, ofLeBytes, leBytes, hmod, hdiv, ih, UInt8.ofNat_toNat]

/-- A type of fixed-width machine words with its width in bytes. -/
class MachineWord (α : Type*) where
  width : Nat
  toNat : α → Nat
  ofNat : Nat → α
  toNat_lt : ∀ x, toNat x < 256 ^ width
  ofNat_toNat : ∀ x, ofNat (toNat x) = x

instance : MachineWord UInt32 where
  width := 4
  toNat x := x.toNat
  ofNat n := UInt32.ofNat n
  toNat_lt x := x.toNat_lt
  ofNat_toNat x := by simp

instance : MachineWord UInt64 where
  width := 8
  toNat x := x.toNat
  ofNat n := UInt64.ofNat n
  toNat_lt x := x.toNat_lt
  ofNat_toNat x := by simp

instance : MachineWord Int32 where
  width := 4
  toNat x := x.toUInt32.toNat
  ofNat n := (UInt32.ofNat n).toInt32
  toNat_lt x := x.toUInt32.toNat_lt
  ofNat_toNat x := by simp

instance : MachineWord Int64 where
  width := 8
  toNat x := x.toUInt64.toNat
  ofNat n := (UInt64.ofNat n).toInt64
  toNat_lt x := x.toUInt64.toNat_lt
  ofNat_toNat x := by simp

/-- The memory image of a machine word. -/
def put {α : Type*} [MachineWord α] (x : α) : List UInt8 :=
  leBytes (MachineWord.width α) (MachineWord.toNat x)

/-- The machine word with a given memory image. -/
def ofBytes (α : Type*) [MachineWord α] (bytes : List UInt8) : α :=
  MachineWord.ofNat (ofLeBytes bytes)

@[simp] theorem length_put {α : Type*} [MachineWord α] (x : α) :
    (put x).length = MachineWord.width α :=
  length_leBytes _ _

@[simp] theorem ofBytes_put {α : Type*} [MachineWord α] (x : α) : ofBytes α (put x) = x := by
  simp only [ofBytes, put, ofLeBytes_leBytes (MachineWord.toNat_lt x), MachineWord.ofNat_toNat]

/-- Where every number of the width is a word, a word has the memory image it was made of. -/
theorem put_ofBytes {α : Type*} [MachineWord α]
    (hword : ∀ n < 256 ^ MachineWord.width α, MachineWord.toNat (MachineWord.ofNat n : α) = n)
    {bytes : List UInt8} (h : bytes.length = MachineWord.width α) :
    put (ofBytes α bytes) = bytes := by
  have hlt := ofLeBytes_lt bytes
  rw [h] at hlt
  rw [put, ofBytes, hword _ hlt, ← h, leBytes_ofLeBytes]

variable {ε : Type}

/-- A reader takes what it needs from the front and leaves the rest. -/
abbrev Reader (ε : Type) (α : Type) := StateT (List UInt8) (Except ε) α

/-- A sequence of two readers succeeds exactly when both do, one after the other. -/
theorem bind_run_eq_ok {α β : Type} {r : Reader ε α} {f : α → Reader ε β}
    {bytes rest : List UInt8} {b : β} :
    (r >>= f).run bytes = .ok (b, rest) ↔
      ∃ a mid, r.run bytes = .ok (a, mid) ∧ (f a).run mid = .ok (b, rest) := by
  rw [StateT.run_bind]
  cases r.run bytes with
  | error e => simp [bind, Except.bind]
  | ok out =>
      obtain ⟨a, mid⟩ := out
      simp [bind, Except.bind]

theorem run_bind_of_ok {α β : Type} {r : Reader ε α} {bytes rest : List UInt8} {a : α}
    (h : r.run bytes = .ok (a, rest)) (f : α → Reader ε β) :
    (r >>= f).run bytes = (f a).run rest := by
  rw [StateT.run_bind, h]
  rfl

theorem run_bind_of_error {α β : Type} {r : Reader ε α} {bytes : List UInt8} {e : ε}
    (h : r.run bytes = .error e) (f : α → Reader ε β) : (r >>= f).run bytes = .error e := by
  rw [StateT.run_bind, h]
  rfl

/-- A computation that does not touch the input. -/
theorem liftM_run_eq_ok {α : Type} {e : Except ε α} {bytes rest : List UInt8} {a : α} :
    (liftM e : Reader ε α).run bytes = .ok (a, rest) ↔ e = .ok a ∧ bytes = rest := by
  cases e with
  | error e => simp
  | ok v => simp [bind, Except.bind, pure, Except.pure]

theorem throw_run {α : Type} (e : ε) (bytes : List UInt8) :
    (throw e : Reader ε α).run bytes = .error e := rfl

/-- Read exactly `n` bytes, or fail with `short`. -/
def takeBytes (short : ε) (n : Nat) : Reader ε (List UInt8) := fun bytes =>
  if n ≤ bytes.length then .ok (bytes.take n, bytes.drop n) else .error short

/-- Read one machine word. -/
def getWord (short : ε) (α : Type) [MachineWord α] : Reader ε α := do
  let bytes ← takeBytes short (MachineWord.width α)
  pure (ofBytes α bytes)

/-- The reader consumes exactly `bytes`, whatever follows, and returns `a`. -/
def Reads {α : Type} (r : Reader ε α) (bytes : List UInt8) (a : α) : Prop :=
  ∀ rest, r.run (bytes ++ rest) = .ok (a, rest)

section Reads

variable {α β : Type}

theorem Reads.pure (a : α) : Reads (ε := ε) (pure a) [] a := fun _ => rfl

theorem Reads.bind {r : Reader ε α} {f : α → Reader ε β} {bytes bytes' : List UInt8} {a : α}
    {b : β} (hr : Reads r bytes a) (hf : Reads (f a) bytes' b) :
    Reads (r >>= f) (bytes ++ bytes') b := by
  intro rest
  rw [List.append_assoc, StateT.run_bind, hr]
  exact hf rest

/-- After a recorded prefix the continuation runs on what follows it. -/
theorem Reads.run_bind {r : Reader ε α} {bytes : List UInt8} {a : α} (hr : Reads r bytes a)
    (f : α → Reader ε β) (rest : List UInt8) :
    (r >>= f).run (bytes ++ rest) = (f a).run rest :=
  run_bind_of_ok (hr rest) f

theorem reads_takeBytes (short : ε) {n : Nat} {bytes : List UInt8} (h : bytes.length = n) :
    Reads (takeBytes short n) bytes bytes := by
  intro rest
  have hle : n ≤ (bytes ++ rest).length := by simp [h]
  change takeBytes short n (bytes ++ rest) = _
  subst h
  simp [takeBytes]

theorem reads_getWord (short : ε) {α : Type} [MachineWord α] (x : α) :
    Reads (getWord short α) (put x) x := by
  intro rest
  rw [getWord, StateT.run_bind, reads_takeBytes short (length_put x) rest]
  change Except.ok (ofBytes α (put x), rest) = _
  rw [ofBytes_put]

end Reads

/-- The machine word that lies at an offset. -/
def wordAt (α : Type*) [MachineWord α] (bytes : List UInt8) (offset : Nat) : α :=
  ofBytes α ((bytes.drop offset).take (MachineWord.width α))

theorem wordAt_drop (α : Type*) [MachineWord α] (bytes : List UInt8) (i j : Nat) :
    wordAt α (bytes.drop i) j = wordAt α bytes (i + j) := by
  rw [wordAt, wordAt, List.drop_drop]

/-- When it succeeds, the reader consumes `n` bytes. -/
def Consumes {α : Type} (r : Reader ε α) (n : Nat) : Prop :=
  ∀ bytes a rest, r.run bytes = .ok (a, rest) → n ≤ bytes.length ∧ rest = bytes.drop n

/-- `n` bytes are enough for the reader, and it consumes as many. -/
def Takes {α : Type} (r : Reader ε α) (n : Nat) : Prop :=
  ∀ bytes, n ≤ bytes.length → ∃ a, r.run bytes = .ok (a, bytes.drop n)

/-- The reader fails in one way only. -/
def FailsWith {α : Type} (r : Reader ε α) (e : ε) : Prop :=
  ∀ bytes e', r.run bytes = .error e' → e' = e

/-- The reader does as another one where a condition on the bytes holds, and fails in one way
elsewhere. -/
structure Refuses {α : Type} (ok : List UInt8 → Prop) (e : ε) (r r' : Reader ε α) : Prop where
  does : ∀ bytes, ok bytes → r.run bytes = r'.run bytes
  fails : ∀ bytes, ¬ ok bytes → r.run bytes = .error e

section Positions

variable {α β : Type}

theorem takeBytes_run_eq_ok {short : ε} {n : Nat} {bytes rest out : List UInt8} :
    (takeBytes short n).run bytes = .ok (out, rest) ↔
      n ≤ bytes.length ∧ bytes.take n = out ∧ bytes.drop n = rest := by
  change takeBytes short n bytes = _ ↔ _
  rw [takeBytes]
  split
  · rename_i hle
    simp [hle]
  · rename_i hshort
    simp [hshort]

/-- A word is read where it lies. -/
theorem getWord_run_eq_ok {short : ε} [MachineWord α] {bytes rest : List UInt8} {x : α} :
    (getWord short α).run bytes = .ok (x, rest) ↔
      MachineWord.width α ≤ bytes.length ∧ wordAt α bytes 0 = x ∧
        bytes.drop (MachineWord.width α) = rest := by
  rw [getWord, bind_run_eq_ok]
  constructor
  · rintro ⟨out, mid, htake, hpure⟩
    obtain ⟨hle, rfl, rfl⟩ := takeBytes_run_eq_ok.mp htake
    rw [StateT.run_pure] at hpure
    obtain ⟨rfl, rfl⟩ := Prod.mk.inj (Except.ok.inj hpure)
    exact ⟨hle, rfl, rfl⟩
  · rintro ⟨hle, rfl, rfl⟩
    exact ⟨_, _, takeBytes_run_eq_ok.mpr ⟨hle, rfl, rfl⟩, rfl⟩

theorem consumes_pure (a : α) : Consumes (ε := ε) (pure a) 0 := by
  intro bytes a' rest h
  rw [StateT.run_pure] at h
  obtain ⟨-, rfl⟩ := Prod.mk.inj (Except.ok.inj h)
  exact ⟨Nat.zero_le _, rfl⟩

/-- A word at the front of a longer record. -/
theorem consumes_word {short : ε} [MachineWord α] {f : α → Reader ε β} {n : Nat}
    (hn : MachineWord.width α ≤ n) (hf : ∀ a, Consumes (f a) (n - MachineWord.width α)) :
    Consumes (getWord short α >>= f) n := by
  intro bytes b rest h
  obtain ⟨a, mid, hword, hrest⟩ := bind_run_eq_ok.mp h
  obtain ⟨hle, -, rfl⟩ := getWord_run_eq_ok.mp hword
  obtain ⟨hlen, rfl⟩ := hf a _ _ _ hrest
  rw [List.length_drop] at hlen
  refine ⟨by omega, ?_⟩
  rw [List.drop_drop, Nat.add_sub_cancel' hn]

theorem takes_pure (a : α) : Takes (ε := ε) (pure a) 0 := by
  intro bytes _
  exact ⟨a, rfl⟩

theorem takes_getWord (short : ε) [MachineWord α] :
    Takes (getWord short α) (MachineWord.width α) := by
  intro bytes hle
  exact ⟨_, getWord_run_eq_ok.mpr ⟨hle, rfl, rfl⟩⟩

/-- A word at the front of a longer record. -/
theorem takes_word {short : ε} [MachineWord α] {f : α → Reader ε β} {n : Nat}
    (hn : MachineWord.width α ≤ n) (hf : ∀ a, Takes (f a) (n - MachineWord.width α)) :
    Takes (getWord short α >>= f) n := by
  intro bytes hle
  obtain ⟨a, hword⟩ := takes_getWord short bytes (Nat.le_trans hn hle)
  have hrest : n - MachineWord.width α ≤ (bytes.drop (MachineWord.width α)).length := by
    rw [List.length_drop]
    omega
  obtain ⟨b, hb⟩ := hf a _ hrest
  refine ⟨b, ?_⟩
  rw [run_bind_of_ok hword, hb, List.drop_drop, Nat.add_sub_cancel' hn]

theorem failsWith_pure (a : α) (e : ε) : FailsWith (pure a) e := by
  intro bytes e' h
  rw [StateT.run_pure] at h
  cases h

theorem FailsWith.bind {r : Reader ε α} {f : α → Reader ε β} {e : ε} (hr : FailsWith r e)
    (hf : ∀ a, FailsWith (f a) e) : FailsWith (r >>= f) e := by
  intro bytes e' h
  cases hrun : r.run bytes with
  | error e₁ =>
      rw [run_bind_of_error hrun] at h
      obtain rfl : e₁ = e' := Except.error.inj h
      exact hr bytes e₁ hrun
  | ok out =>
      rw [run_bind_of_ok hrun] at h
      exact hf out.1 out.2 e' h

theorem failsWith_getWord (short : ε) [MachineWord α] : FailsWith (getWord short α) short := by
  apply FailsWith.bind
  · intro bytes e h
    change takeBytes short _ bytes = _ at h
    rw [takeBytes] at h
    split at h
    · cases h
    · exact (Except.error.inj h).symm
  · exact fun _ => failsWith_pure _ _

theorem Refuses.refl (e : ε) (r : Reader ε α) : Refuses (fun _ => True) e r r where
  does := fun _ _ => rfl
  fails := fun _ h => absurd trivial h

theorem Refuses.congr {ok ok' : List UInt8 → Prop} {e : ε} {r r' : Reader ε α}
    (h : Refuses ok e r r') (hok : ∀ bytes, ok bytes ↔ ok' bytes) : Refuses ok' e r r' where
  does := fun bytes hbytes => h.does bytes ((hok bytes).mpr hbytes)
  fails := fun bytes hbytes => h.fails bytes fun hno => hbytes ((hok bytes).mp hno)

/-- What a reader that refuses reads, the other one reads too. -/
theorem Refuses.ok {ok : List UInt8 → Prop} {e : ε} {r r' : Reader ε α} (h : Refuses ok e r r')
    {bytes : List UInt8} {out : α × List UInt8} (hrun : r.run bytes = .ok out) :
    ok bytes ∧ r'.run bytes = .ok out := by
  by_cases hbytes : ok bytes
  · exact ⟨hbytes, (h.does bytes hbytes).symm.trans hrun⟩
  · cases (h.fails bytes hbytes).symm.trans hrun

theorem Refuses.error {ok : List UInt8 → Prop} {e : ε} {r r' : Reader ε α}
    (h : Refuses ok e r r') {bytes : List UInt8} {e' : ε} (hrun : r.run bytes = .error e') :
    ok bytes ∧ r'.run bytes = .error e' ∨ ¬ ok bytes ∧ e' = e := by
  by_cases hbytes : ok bytes
  · exact Or.inl ⟨hbytes, (h.does bytes hbytes).symm.trans hrun⟩
  · exact Or.inr ⟨hbytes, Except.error.inj (hrun.symm.trans (h.fails bytes hbytes))⟩

/-- What comes next has to be as the other reader would have it where that one gets to. -/
theorem Refuses.bind {ok : List UInt8 → Prop} {next : α → List UInt8 → Prop} {e : ε}
    {r r' : Reader ε α} {f f' : α → Reader ε β} (hr : Refuses ok e r r')
    (hf : ∀ a, Refuses (next a) e (f a) (f' a)) :
    Refuses (fun bytes => ok bytes ∧ ∀ a rest, r'.run bytes = .ok (a, rest) → next a rest) e
      (r >>= f) (r' >>= f') := by
  constructor
  · rintro bytes ⟨hbytes, hnext⟩
    have hsame := hr.does bytes hbytes
    cases hrun : r'.run bytes with
    | error e' => rw [run_bind_of_error hrun, run_bind_of_error (hsame.trans hrun)]
    | ok out =>
        rw [run_bind_of_ok hrun, run_bind_of_ok (hsame.trans hrun)]
        exact (hf out.1).does out.2 (hnext out.1 out.2 hrun)
  · intro bytes hno
    by_cases hbytes : ok bytes
    · have hsame := hr.does bytes hbytes
      cases hrun : r'.run bytes with
      | error e' =>
          refine absurd ⟨hbytes, fun a rest h => ?_⟩ hno
          cases hrun.symm.trans h
      | ok out =>
          rw [run_bind_of_ok (hsame.trans hrun)]
          apply (hf out.1).fails
          intro hnext
          refine hno ⟨hbytes, fun a rest h => ?_⟩
          obtain rfl := Except.ok.inj (hrun.symm.trans h)
          exact hnext
    · exact run_bind_of_error (hr.fails bytes hbytes) f

/-- A word in front of what is refused. -/
theorem Refuses.word {short : ε} [MachineWord α] {next : α → List UInt8 → Prop} {e : ε}
    {f f' : α → Reader ε β} (hf : ∀ a, Refuses (next a) e (f a) (f' a)) :
    Refuses (fun bytes => MachineWord.width α ≤ bytes.length →
        next (wordAt α bytes 0) (bytes.drop (MachineWord.width α))) e
      (getWord short α >>= f) (getWord short α >>= f') := by
  refine ((Refuses.refl e (getWord short α)).bind hf).congr fun bytes => ?_
  constructor
  · intro h hle
    exact h.2 _ _ (getWord_run_eq_ok.mpr ⟨hle, rfl, rfl⟩)
  · refine fun h => ⟨trivial, fun a rest hrun => ?_⟩
    obtain ⟨hle, rfl, rfl⟩ := getWord_run_eq_ok.mp hrun
    exact h hle

end Positions

end Media2.ByteFormat

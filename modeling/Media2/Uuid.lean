import Mathlib.Tactic.Common

/-!
# Job identifiers

A `uuid_t` is sixteen bytes. Its printed form is what the stream cache uses as a
key, so two jobs must not print alike.
-/

namespace Media2

abbrev Uuid := Vector UInt8 16

namespace Uuid

/-- `uuid_clear`: the identifier that stands for none. -/
def null : Uuid := Vector.replicate 16 0

/-- `uuid_is_null`. -/
def isNull (id : Uuid) : Bool := id = null

def hexDigit (n : Nat) : Char :=
  if n < 10 then Char.ofNat (48 + n) else Char.ofNat (87 + n)

def hex (bytes : List UInt8) : List Char :=
  bytes.flatMap fun b => [hexDigit (b.toNat / 16), hexDigit (b.toNat % 16)]

/-- Groups of the given sizes, each followed by a dash, and then the rest. -/
def dashed : List Nat → List UInt8 → List Char
  | [], bytes => hex bytes
  | n :: sizes, bytes => hex (bytes.take n) ++ '-' :: dashed sizes (bytes.drop n)

/-- `uuid_unparse`: five groups of hexadecimal digits joined by dashes. -/
def unparse (id : Uuid) : String :=
  String.ofList (dashed [4, 2, 2, 2] id.toList)

theorem hexDigit_injective : ∀ m < 16, ∀ n < 16, hexDigit m = hexDigit n → m = n := by
  decide

@[simp] theorem length_hex (bytes : List UInt8) : (hex bytes).length = 2 * bytes.length := by
  induction bytes with
  | nil => rfl
  | cons b bs ih =>
      simp only [hex, List.flatMap_cons, List.length_append, List.length_cons,
        List.length_nil] at ih ⊢
      omega

theorem hex_injective {l l' : List UInt8} (h : hex l = hex l') : l = l' := by
  induction l generalizing l' with
  | nil =>
      cases l' with
      | nil => rfl
      | cons b bs => simp [hex] at h
  | cons a as ih =>
      cases l' with
      | nil => simp [hex] at h
      | cons b bs =>
          simp only [hex, List.flatMap_cons, List.cons_append, List.nil_append,
            List.cons.injEq] at h
          obtain ⟨hhigh, hlow, hrest⟩ := h
          have ha := a.toNat_lt
          have hb := b.toNat_lt
          have h₁ := hexDigit_injective _ (by omega) _ (by omega) hhigh
          have h₂ := hexDigit_injective _ (by omega) _ (by omega) hlow
          have hbyte : a = b := UInt8.toNat_inj.mp (by omega)
          rw [hbyte, ih hrest]

theorem dashed_injective {sizes : List Nat} {l l' : List UInt8} (hlen : l.length = l'.length)
    (h : dashed sizes l = dashed sizes l') : l = l' := by
  induction sizes generalizing l l' with
  | nil => exact hex_injective h
  | cons n sizes ih =>
      simp only [dashed] at h
      obtain ⟨hhead, hrest⟩ := List.append_inj h (by simp [hlen])
      have htake := hex_injective hhead
      have hdrop := ih (by simp [hlen]) (List.cons.inj hrest).2
      rw [← List.take_append_drop n l, htake, hdrop, List.take_append_drop]

/-- Different jobs print differently. -/
theorem unparse_injective : Function.Injective unparse := by
  intro id id' h
  have htext := String.ofList_injective h
  exact Vector.toList_inj.mp (dashed_injective (by simp) htext)

@[simp] theorem unparse_inj {id id' : Uuid} : unparse id = unparse id' ↔ id = id' :=
  unparse_injective.eq_iff

theorem length_dashed (sizes : List Nat) (bytes : List UInt8) :
    (dashed sizes bytes).length = 2 * bytes.length + sizes.length := by
  induction sizes generalizing bytes with
  | nil => simp [dashed]
  | cons n sizes ih =>
      simp only [dashed, List.length_append, List.length_cons, length_hex, ih,
        List.length_take, List.length_drop]
      omega

/-- Thirty-two digits and four dashes. -/
theorem length_unparse (id : Uuid) : id.unparse.toList.length = 36 := by
  rw [unparse, String.toList_ofList, length_dashed, Vector.length_toList]
  rfl

theorem slash_notMem_dashed (sizes : List Nat) (bytes : List UInt8) :
    '/' ∉ dashed sizes bytes := by
  have hdigit : ∀ n < 16, hexDigit n ≠ '/' := by decide
  have hhex : ∀ bytes, '/' ∉ hex bytes := by
    intro bytes hmem
    obtain ⟨b, -, hb⟩ := List.mem_flatMap.mp hmem
    have hlt := b.toNat_lt
    simp only [List.mem_cons, List.not_mem_nil, or_false] at hb
    rcases hb with heq | heq
    · exact hdigit _ (by omega) heq.symm
    · exact hdigit _ (by omega) heq.symm
  induction sizes generalizing bytes with
  | nil => exact hhex bytes
  | cons n sizes ih =>
      rw [dashed, List.mem_append, List.mem_cons]
      rintro (hmem | heq | hmem)
      · exact hhex _ hmem
      · exact absurd heq (by decide)
      · exact ih _ hmem

/-- The text of an id can be a file's name. -/
theorem slash_notMem_unparse (id : Uuid) : '/' ∉ id.unparse.toList := by
  rw [unparse, String.toList_ofList]
  exact slash_notMem_dashed _ _

end Uuid

end Media2

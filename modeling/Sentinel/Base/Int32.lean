/-!
# Signed 32-bit arithmetic

`Int32` wraps, as Rust's `i32` does in the release profile. Beside it stand the operations that
report an overflow, as the debug profile does, the saturating multiplication and the conversion
that fails out of range. Each is characterised by the integers behind its operands.
-/

namespace Sentinel.Base.I32

/-- An integer is the value of an `i32`. -/
def InRange (x : Int) : Prop := -2147483648 ≤ x ∧ x ≤ 2147483647

/-- The range is decided by two comparisons. -/
instance (x : Int) : Decidable (InRange x) :=
  inferInstanceAs (Decidable (-2147483648 ≤ x ∧ x ≤ 2147483647))

/-- The value of an operation when it is in range; out of range it overflows. -/
def checked (x : Int) : Option Int32 := if InRange x then some (Int32.ofInt x) else none

/-- `checked_add`. -/
def checkedAdd (a b : Int32) : Option Int32 := checked (a.toInt + b.toInt)

/-- `checked_sub`. -/
def checkedSub (a b : Int32) : Option Int32 := checked (a.toInt - b.toInt)

/-- `checked_mul`. -/
def checkedMul (a b : Int32) : Option Int32 := checked (a.toInt * b.toInt)

/-- `saturating_mul`. -/
def saturatingMul (a b : Int32) : Int32 := Int32.ofIntClamp (a.toInt * b.toInt)

/-- `i32::try_from` of an unsigned number. -/
def tryFrom (n : Nat) : Option Int32 := if n ≤ 2147483647 then some (Int32.ofNat n) else none

/-- In range nothing is lost. -/
theorem toInt_ofInt {x : Int} (h : InRange x) : (Int32.ofInt x).toInt = x := by
  obtain ⟨hlo, hhi⟩ := h
  apply Int32.toInt_ofInt_of_le
  · omega
  · omega

/-- In range the wrapping sum is the sum. -/
theorem toInt_add {a b : Int32} (h : InRange (a.toInt + b.toInt)) :
    (a + b).toInt = a.toInt + b.toInt := by
  obtain ⟨hlo, hhi⟩ := h
  rw [Int32.toInt_add, Int.bmod_eq_of_le]
  · omega
  · omega

/-- A sum that does not overflow is the wrapping one. -/
theorem checkedAdd_eq {a b : Int32} (h : InRange (a.toInt + b.toInt)) :
    checkedAdd a b = some (a + b) := by
  rw [checkedAdd, checked, if_pos h, Option.some.injEq]
  apply Int32.toInt.inj
  rw [toInt_ofInt h, toInt_add h]

/-- A difference that does not overflow is the wrapping one. -/
theorem checkedSub_eq {a b : Int32} (h : InRange (a.toInt - b.toInt)) :
    checkedSub a b = some (a - b) := by
  rw [checkedSub, checked, if_pos h, Option.some.injEq]
  apply Int32.toInt.inj
  obtain ⟨hlo, hhi⟩ := h
  rw [toInt_ofInt ⟨hlo, hhi⟩, Int32.toInt_sub, Int.bmod_eq_of_le]
  · omega
  · omega

/-- A saturating product of numbers that are not negative is cut at the maximum. -/
theorem toInt_saturatingMul {a b : Int32} (h : 0 ≤ a.toInt * b.toInt) :
    (saturatingMul a b).toInt = min (a.toInt * b.toInt) 2147483647 := by
  unfold saturatingMul
  by_cases hle : a.toInt * b.toInt ≤ 2147483647
  · have hmin : Int32.minValue.toInt ≤ a.toInt * b.toInt := by
      rw [Int32.toInt_minValue]
      omega
    have hmax : a.toInt * b.toInt ≤ Int32.maxValue.toInt := by
      rw [Int32.toInt_maxValue]
      omega
    rw [Int32.toInt_ofIntClamp hmin hmax]
    omega
  · have hmin : Int32.minValue.toInt ≤ a.toInt * b.toInt := by
      rw [Int32.toInt_minValue]
      omega
    have hmax : ¬ a.toInt * b.toInt ≤ Int32.maxValue.toInt := by
      rw [Int32.toInt_maxValue]
      omega
    rw [Int32.ofIntClamp, dif_pos hmin, dif_neg hmax, Int32.toInt_maxValue]
    omega

/-- A converted number cut at the maximum. -/
theorem toInt_tryFrom (n : Nat) :
    ((tryFrom n).getD Int32.maxValue).toInt = min (n : Int) 2147483647 := by
  unfold tryFrom
  by_cases h : n ≤ 2147483647
  · rw [if_pos h, Option.getD_some, Int32.toInt_ofNat_of_lt (by omega)]
    omega
  · rw [if_neg h, Option.getD_none, Int32.toInt_maxValue]
    omega

end Sentinel.Base.I32

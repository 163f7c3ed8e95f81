import Mathlib.Data.Int.Init
/-
# Rust's `i32` and `u32`

`Int32` and `UInt32` are the machine integers; `as` casts keep the 32 bits. Addition and
subtraction that leave the range panic in a build with overflow checks and wrap without
(`BuildProfile`), so the two operations here return `none` for the panic.
-/

namespace RustInt

/-- Overflow checks are on in `dev` builds and off in `release` builds. -/
inductive BuildProfile where
  | dev | release
deriving DecidableEq, Repr

/-- An exact result is representable in `i32`. -/
def InI32 (n : Int) : Prop := -2147483648 ≤ n ∧ n ≤ 2147483647

instance (n : Int) : Decidable (InI32 n) := inferInstanceAs (Decidable (_ ∧ _))

/-- `a - b` on `i32`; `none` is the overflow panic. -/
def subI32 (p : BuildProfile) (a b : Int32) : Option Int32 :=
  if InI32 (a.toInt - b.toInt) then some (a - b)
  else match p with
    | .dev => none
    | .release => some (a - b)

/-- `a + b` on `i32`; `none` is the overflow panic. -/
def addI32 (p : BuildProfile) (a b : Int32) : Option Int32 :=
  if InI32 (a.toInt + b.toInt) then some (a + b)
  else match p with
    | .dev => none
    | .release => some (a + b)

theorem bmod_of_inI32 {n : Int} (h : InI32 n) : n.bmod 4294967296 = n := by
  obtain ⟨h1, h2⟩ := h
  exact Int.bmod_eq_of_le (by omega) (by omega)

theorem toInt_sub_of_inI32 {a b : Int32} (h : InI32 (a.toInt - b.toInt)) :
    (a - b).toInt = a.toInt - b.toInt := by rw [Int32.toInt_sub, bmod_of_inI32 h]

theorem toInt_add_of_inI32 {a b : Int32} (h : InI32 (a.toInt + b.toInt)) :
    (a + b).toInt = a.toInt + b.toInt := by rw [Int32.toInt_add, bmod_of_inI32 h]

/-- A difference in range does not panic, whatever the build. -/
theorem subI32_of_inI32 {p : BuildProfile} {a b : Int32} (h : InI32 (a.toInt - b.toInt)) :
    subI32 p a b = some (a - b) := by simp [subI32, h]

/-- A sum in range does not panic, whatever the build. -/
theorem addI32_of_inI32 {p : BuildProfile} {a b : Int32} (h : InI32 (a.toInt + b.toInt)) :
    addI32 p a b = some (a + b) := by simp [addI32, h]

/-- `n as u32` of a positive `n` is not zero. -/
theorem toUInt32_ne_zero {n : Int32} (h : ¬ n ≤ 0) : n.toUInt32 ≠ 0 := by
  intro h0
  have hn : n = n.toUInt32.toInt32 := by simp
  rw [h0] at hn
  exact h (hn ▸ Int32.le_refl _)

theorem lt_zero_iff {a : Int32} : a < 0 ↔ a.toInt < 0 := Int32.lt_iff_toInt_lt

theorem le_zero_iff {a : Int32} : a ≤ 0 ↔ a.toInt ≤ 0 := Int32.le_iff_toInt_le

/-- `u as i32` keeps the value up to `i32::MAX`. -/
theorem toInt_toInt32_of_lt {u : UInt32} (h : u.toNat < 2147483648) : u.toInt32.toInt = u.toNat := by
  show u.toBitVec.toInt = u.toBitVec.toNat
  have h' : u.toBitVec.toNat < 2147483648 := h
  rw [BitVec.toInt_eq_toNat_cond]
  omega

/-- `u as i32` is negative from `2 ^ 31` on. -/
theorem toInt_toInt32_of_le {u : UInt32} (h : 2147483648 ≤ u.toNat) : u.toInt32.toInt = u.toNat - 4294967296 := by
  show u.toBitVec.toInt = u.toBitVec.toNat - 4294967296
  have h' : 2147483648 ≤ u.toBitVec.toNat := h
  rw [BitVec.toInt_eq_toNat_cond]
  omega

/-- `n as u32` keeps a value that is not negative. -/
theorem toNat_toUInt32_of_nonneg {n : Int32} (h : 0 ≤ n.toInt) : (n.toUInt32.toNat : Int) = n.toInt := by
  have hlt := UInt32.toNat_lt n.toUInt32
  have hc : n.toInt = n.toUInt32.toInt32.toInt := by simp
  rcases Nat.lt_or_ge n.toUInt32.toNat 2147483648 with hu | hu
  · rw [hc, toInt_toInt32_of_lt hu]
  · have := toInt_toInt32_of_le hu
    omega

end RustInt

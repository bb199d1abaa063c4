import Mathlib.Data.Int.ModEq
import Mathlib.Tactic.Ring

/-! Two's-complement conversions between unbounded integers and the machine widths of a C++ program,
as plain remainders so that `omega` decides facts about them. -/

namespace ActiveMQCpp.MachineInt

variable {x : Int}
variable {n : Nat}

def toInt16 (x : Int) : Int := (x + 32768) % 65536 - 32768

def toInt32 (x : Int) : Int := (x + 2147483648) % 4294967296 - 2147483648

def toInt64 (x : Int) : Int := (x + 9223372036854775808) % 18446744073709551616 - 9223372036854775808

def toUInt32 (x : Int) : Nat := (x % 4294967296).toNat

def toUInt64 (x : Int) : Nat := (x % 18446744073709551616).toNat

theorem toInt16_of_range (hlow : -32768 ≤ x) (hhigh : x < 32768) : toInt16 x = x := by
  unfold toInt16
  omega

theorem toInt16_of_overflow (hlow : 32768 ≤ x) (hhigh : x < 65536) : toInt16 x = x - 65536 := by
  unfold toInt16
  omega

theorem toInt16_add (x y : Int) : toInt16 (toInt16 x + y) = toInt16 (x + y) := by
  unfold toInt16
  rw [show (x + 32768) % 65536 - 32768 + y + 32768 = (x + 32768) % 65536 + y by ring,
    Int.emod_add_emod, show x + 32768 + y = x + y + 32768 by ring]

theorem toInt32_of_range (hlow : -2147483648 ≤ x) (hhigh : x < 2147483648) : toInt32 x = x := by
  unfold toInt32
  omega

theorem toInt32_le (h : 0 ≤ x) : toInt32 x ≤ x := by
  unfold toInt32
  omega

theorem toInt32_lt (x : Int) : toInt32 x < 2147483648 := by
  unfold toInt32
  omega

theorem toInt32_range (x : Int) : -2147483648 ≤ toInt32 x ∧ toInt32 x < 2147483648 := by
  unfold toInt32
  omega

theorem toInt32_add (x y : Int) : toInt32 (toInt32 x + y) = toInt32 (x + y) := by
  unfold toInt32
  rw [show (x + 2147483648) % 4294967296 - 2147483648 + y + 2147483648
      = (x + 2147483648) % 4294967296 + y by ring,
    Int.emod_add_emod, show x + 2147483648 + y = x + y + 2147483648 by ring]

theorem toInt64_of_range (hlow : -9223372036854775808 ≤ x) (hhigh : x < 9223372036854775808) : toInt64 x = x := by
  unfold toInt64
  omega

theorem toUInt32_of_lt (h : n < 4294967296) : toUInt32 n = n := by
  unfold toUInt32
  omega

theorem toUInt64_of_lt (h : n < 18446744073709551616) : toUInt64 n = n := by
  unfold toUInt64
  omega

end ActiveMQCpp.MachineInt

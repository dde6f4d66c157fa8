/-!
# Numbers as bytes

Natural numbers in a fixed number of bytes, the least significant first. Writing takes the number
modulo the range of the bytes, so reading gives back that remainder.
-/

namespace Patchbay

/-- The content of a file. -/
abbrev Bytes := List UInt8

namespace Bytes

/-- A number in `width` bytes, the least significant first. -/
def ofNat : (width : Nat) → Nat → Bytes
  | 0, _ => []
  | width + 1, n => UInt8.ofNat (n % 256) :: ofNat width (n / 256)

/-- The number that bytes stand for, the least significant first. -/
def toNat : Bytes → Nat
  | [] => 0
  | byte :: rest => byte.toNat + 256 * toNat rest

/-- How many numbers fit into `width` bytes. -/
def range (width : Nat) : Nat := 1 <<< (8 * width)

/-- A number below `range width`, read as negative if its highest bit is set. -/
def signed (width n : Nat) : Int :=
  if 2 * n < range width then n else (n : Int) - range width

theorem length_ofNat (width n : Nat) : (ofNat width n).length = width := by
  induction width generalizing n with
  | zero => rfl
  | succ width ih => simp [ofNat, ih]

/-- Reading gives back what was written, as far as the bytes go. -/
theorem toNat_ofNat (width n : Nat) : toNat (ofNat width n) = n % range width := by
  induction width generalizing n with
  | zero => simp [ofNat, toNat, range, Nat.mod_one]
  | succ width ih =>
    have hbyte : (UInt8.ofNat (n % 256)).toNat = n % 256 := by
      simp [UInt8.toNat_ofNat']
    have hrange : range (width + 1) = 256 * range width := by
      rw [range, range, Nat.shiftLeft_eq, Nat.shiftLeft_eq, Nat.mul_succ, Nat.pow_add]
      omega
    rw [ofNat, toNat, ih, hbyte, hrange, Nat.mod_mul]

end Bytes

end Patchbay

import Mathlib.Algebra.Group.Nat.Defs
import Mathlib.Data.List.Induction

/-! Numbers as bytes, the highest first. -/
namespace Lib.BigEndian

def bytes (width n : ℕ) : List UInt8 :=
  (List.range width).map fun i => UInt8.ofNat (n / 256 ^ (width - 1 - i) % 256)

def value (bs : List UInt8) : ℕ := bs.foldl (fun n b => n * 256 + b.toNat) 0

@[simp] theorem length_bytes (width n : ℕ) : (bytes width n).length = width := by
  simp [bytes]

theorem bytes_succ (width n : ℕ) :
    bytes (width + 1) n = bytes width (n / 256) ++ [UInt8.ofNat (n % 256)] := by
  unfold bytes
  rw [List.range_succ, List.map_append, List.map_singleton]
  congr 1
  · apply List.map_congr_left
    intro i hi
    have hlt := List.mem_range.mp hi
    have hpow : width + 1 - 1 - i = width - 1 - i + 1 := by omega
    rw [hpow, Nat.pow_succ, Nat.mul_comm, Nat.div_div_eq_div_mul]
  · have hzero : width + 1 - 1 - width = 0 := by omega
    rw [hzero, Nat.pow_zero, Nat.div_one]

theorem value_concat (bs : List UInt8) (b : UInt8) :
    value (bs ++ [b]) = value bs * 256 + b.toNat := by
  simp [value]

theorem value_bytes {width n : ℕ} (h : n < 256 ^ width) : value (bytes width n) = n := by
  induction width generalizing n with
  | zero =>
    have hzero : n = 0 := by
      rw [Nat.pow_zero] at h
      omega
    rw [hzero]
    rfl
  | succ width ih =>
    have hdiv : n / 256 < 256 ^ width := by
      rw [Nat.pow_succ] at h
      omega
    have hbyte : (UInt8.ofNat (n % 256)).toNat = n % 256 := by
      rw [UInt8.toNat_ofNat']
      omega
    rw [bytes_succ, value_concat, ih hdiv, hbyte]
    omega

theorem bytes_value (bs : List UInt8) : bytes bs.length (value bs) = bs := by
  induction bs using List.reverseRecOn with
  | nil => rfl
  | append_singleton bs b ih =>
    have hb := b.toNat_lt
    have hdiv : (value bs * 256 + b.toNat) / 256 = value bs := by omega
    have hmod : (value bs * 256 + b.toNat) % 256 = b.toNat := by omega
    rw [List.length_append, List.length_singleton, bytes_succ, value_concat, hdiv, hmod, ih,
      UInt8.ofNat_toNat]

end Lib.BigEndian

import Quorum.Store

/-!
# Bytes

The bytes of a text, and of a number of fixed width in network order.
-/

namespace Quorum

open Store (Bytes)

/-- `str::as_bytes`. -/
def asBytes (text : String) : Bytes := text.toByteArray.data.toList

theorem asBytes_injective : Function.Injective asBytes := by
  intro s t h
  apply String.toByteArray_inj.mp
  apply ByteArray.ext
  exact Array.toList_inj.mp h

/-- `to_be_bytes` of a number cast to a type of so many bytes. -/
def beBytes : ℕ → ℕ → Bytes
  | 0, _ => []
  | width + 1, n => beBytes width (n / 256) ++ [UInt8.ofNat n]

/-- `from_be_bytes`. -/
def ofBeBytes (bytes : Bytes) : ℕ := bytes.foldl (fun n byte => n * 256 + byte.toNat) 0

@[simp] theorem length_beBytes (width n : ℕ) : (beBytes width n).length = width := by
  induction width generalizing n with
  | zero => rfl
  | succ width ih => simp [beBytes, ih]

/-- **A number that fits its width is read back.** -/
theorem ofBeBytes_beBytes {width n : ℕ} (h : n < 256 ^ width) :
    ofBeBytes (beBytes width n) = n := by
  induction width generalizing n with
  | zero =>
    rw [pow_zero] at h
    obtain rfl : n = 0 := by omega
    rfl
  | succ width ih =>
    have hdiv : n / 256 < 256 ^ width := by
      rw [pow_succ] at h
      exact Nat.div_lt_of_lt_mul (by omega)
    have hlast : (UInt8.ofNat n).toNat = n % 256 := UInt8.toNat_ofNat'
    rw [beBytes, ofBeBytes, List.foldl_append]
    change ofBeBytes (beBytes width (n / 256)) * 256 + (UInt8.ofNat n).toNat = n
    rw [ih hdiv, hlast]
    omega

end Quorum

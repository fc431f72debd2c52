import Quorum.Js.Str

/-!
# Strings as Unicode

A string is well-formed if every surrogate in it is half of a pair.  `TextEncoder` writes a string as
UTF-8, with the replacement character for every other surrogate, so two strings that are well-formed
have the same bytes only if they are the same.
-/

namespace Js

/-- The first half of a surrogate pair. -/
def isHigh (u : CodeUnit) : Bool := 0xD800 ≤ u.val && u.val ≤ 0xDBFF

/-- The second half of a surrogate pair. -/
def isLow (u : CodeUnit) : Bool := 0xDC00 ≤ u.val && u.val ≤ 0xDFFF

/-- Every surrogate is half of a pair. -/
inductive WellFormed : Str → Prop
  | nil : WellFormed []
  | unit {u : CodeUnit} {s : Str} (hhigh : isHigh u = false) (hlow : isLow u = false)
      (hs : WellFormed s) : WellFormed (u :: s)
  | pair {u v : CodeUnit} {s : Str} (hu : isHigh u = true) (hv : isLow v = true)
      (hs : WellFormed s) : WellFormed (u :: v :: s)

theorem WellFormed.append {s t : Str} (hs : WellFormed s) (ht : WellFormed t) :
    WellFormed (s ++ t) := by
  induction hs with
  | nil => exact ht
  | unit hhigh hlow _ ih => exact .unit hhigh hlow ih
  | pair hu hv _ ih => exact .pair hu hv ih

/-- A string without surrogates. -/
theorem WellFormed.of_forall {s : Str} (h : ∀ u ∈ s, isHigh u = false ∧ isLow u = false) :
    WellFormed s := by
  induction s with
  | nil => exact .nil
  | cons u s ih =>
    rw [List.forall_mem_cons] at h
    exact .unit h.1.1 h.1.2 (ih h.2)

/-- The number of the character that a pair of surrogates stands for. -/
def pairNat (u v : CodeUnit) : ℕ := 0x10000 + (u.val - 0xD800) * 0x400 + (v.val - 0xDC00)

/-- The characters of a string, a surrogate without its other half being replaced. -/
def chars : Str → List Char
  | [] => []
  | [u] => [if isHigh u || isLow u then Char.ofNat 0xFFFD else Char.ofNat u.val]
  | u :: v :: s =>
    if isHigh u && isLow v then Char.ofNat (pairNat u v) :: chars s
    else (if isHigh u || isLow u then Char.ofNat 0xFFFD else Char.ofNat u.val) :: chars (v :: s)

/-- `new TextEncoder().encode(s)`. -/
def utf8 (s : Str) : List UInt8 := (String.ofList (chars s)).toByteArray.data.toList

theorem chars_unit {u : CodeUnit} (hhigh : isHigh u = false) (hlow : isLow u = false) (s : Str) :
    chars (u :: s) = Char.ofNat u.val :: chars s := by
  cases s with
  | nil | cons v s => simp [chars, hhigh, hlow]

theorem chars_pair {u v : CodeUnit} (hu : isHigh u = true) (hv : isLow v = true) (s : Str) :
    chars (u :: v :: s) = Char.ofNat (pairNat u v) :: chars s := by
  simp [chars, hu, hv]

theorem ofNat_val (u : CodeUnit) : Fin.ofNat 65536 u.val = u :=
  Fin.ext (Nat.mod_eq_of_lt u.isLt)

theorem unitsOf_ofNat {u : CodeUnit} (hhigh : isHigh u = false) (hlow : isLow u = false) :
    unitsOf (Char.ofNat u.val) = [u] := by
  have hvalid : u.val.isValidChar := by
    simp only [isHigh, isLow, Bool.and_eq_false_iff, decide_eq_false_iff_not, not_le] at hhigh hlow
    have := u.isLt
    omega
  unfold unitsOf
  rw [Char.toNat_ofNat, if_pos hvalid, if_pos u.isLt]
  rw [ofNat_val]

theorem unitsOf_pairNat {u v : CodeUnit} (hu : isHigh u = true) (hv : isLow v = true) :
    unitsOf (Char.ofNat (pairNat u v)) = [u, v] := by
  simp only [isHigh, isLow, Bool.and_eq_true, decide_eq_true_eq] at hu hv
  have hvalid : (pairNat u v).isValidChar := by
    unfold Nat.isValidChar pairNat
    omega
  unfold unitsOf
  rw [Char.toNat_ofNat, if_pos hvalid, if_neg (by unfold pairNat; omega)]
  have hfirst : 0xD800 + (pairNat u v - 0x10000) / 0x400 = u.val := by unfold pairNat; omega
  have hsecond : 0xDC00 + (pairNat u v - 0x10000) % 0x400 = v.val := by unfold pairNat; omega
  dsimp only
  rw [hfirst, hsecond, ofNat_val, ofNat_val]

/-- A well-formed string is read off its characters. -/
theorem flatMap_unitsOf_chars {s : Str} (h : WellFormed s) : (chars s).flatMap unitsOf = s := by
  induction h with
  | nil => rfl
  | unit hhigh hlow _ ih =>
    rw [chars_unit hhigh hlow, List.flatMap_cons, unitsOf_ofNat hhigh hlow, ih]
    rfl
  | pair hu hv _ ih =>
    rw [chars_pair hu hv, List.flatMap_cons, unitsOf_pairNat hu hv, ih]
    rfl

theorem utf8_inj {s t : Str} (hs : WellFormed s) (ht : WellFormed t) (h : utf8 s = utf8 t) :
    s = t := by
  have htexts : String.ofList (chars s) = String.ofList (chars t) :=
    String.toByteArray_inj.mp (ByteArray.ext (Array.toList_inj.mp h))
  have hchars : chars s = chars t := String.ofList_injective htexts
  rw [← flatMap_unitsOf_chars hs, hchars, flatMap_unitsOf_chars ht]

end Js

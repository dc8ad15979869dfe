import Mathlib
import TypedScript.Decimal.Binary64

namespace TypedScript.Decimal

open Float.Model UnpackedFloat

theorem toBits_ofBits {b : UInt64} (h : b.toNat / 2 ^ 52 % 2 ^ 11 = 2047 → b.toNat % 2 ^ 52 = 0) :
    (Float.ofBits b).toBits = b := by
  have hb : @isNaNBits Format.binary64 b.toBitVec = false := by
    rw [isNaNBits, decide_eq_false_iff_not]
    rintro ⟨he, hm⟩
    refine hm (BitVec.eq_of_toNat_eq ?_)
    have he := congrArg BitVec.toNat he
    simp [unpackExponent, unpackMantissa, BitVec.extractLsb, Nat.shiftRight_eq_div_pow] at he ⊢
    exact h he
  change UInt64.ofBitVec (UnpackedFloat.pack Format.binary64
    (UnpackedFloat.unpack Format.binary64 b.toBitVec)) = b
  rw [pack_unpack, hb, if_neg Bool.false_ne_true]

theorem nearestBits_le (num den : Nat) : nearestBits num den ≤ 2047 * Nat.pow 2 52 := by
  rw [nearestBits]
  split
  · exact Nat.zero_le _
  · exact Nat.min_le_right _ _

theorem toBits_nearest (negative : Bool) (num den : Nat) : (nearest negative num den).toBits.toNat =
    nearestBits num den + if negative then 2 ^ 63 else 0 := by
  have hle : nearestBits num den ≤ 2047 * 2 ^ 52 := nearestBits_le num den
  rw [nearest]
  generalize hb : (nearestBits num den + if negative then Nat.pow 2 63 else 0).toUInt64 = b
  have hb : b.toNat = nearestBits num den + if negative then 2 ^ 63 else 0 := by
    rw [← hb, Nat.toUInt64, UInt64.toNat_ofNat', Nat.mod_eq_of_lt]
    · rfl
    · change nearestBits num den + (if negative then 2 ^ 63 else 0) < 2 ^ 64
      split <;> omega
  rw [toBits_ofBits, hb]
  rw [hb]
  split <;> omega

theorem nearest_ne_nan (negative : Bool) (num den : Nat) :
    nearest negative num den ≠ Float.nan := by
  intro h
  have hle : nearestBits num den ≤ 2047 * 2 ^ 52 := nearestBits_le num den
  have hbits := toBits_nearest negative num den
  have hnan : Float.nan.toBits.toNat = 2047 * 2 ^ 52 + 2 ^ 51 := by decide +kernel
  rw [h, hnan] at hbits
  split at hbits <;> omega

theorem nearest_beq_zero (negative : Bool) (num den : Nat) :
    (nearest negative num den == 0) = true ↔ nearestBits num den = 0 := by
  have hzero : (0 : Float).toBits.toNat = 0 := by decide +kernel
  have hminus : (-0 : Float).toBits.toNat = 2 ^ 63 := by decide +kernel
  have hle : nearestBits num den ≤ 2047 * 2 ^ 52 := nearestBits_le num den
  have hbits := toBits_nearest negative num den
  rw [Float.beq_iff_ne_nan_and_eq]
  constructor
  · rintro ⟨-, -, h | ⟨h, -⟩ | ⟨h, -⟩⟩ <;> rw [h] at hbits <;> split at hbits <;> omega
  · intro h
    refine ⟨nearest_ne_nan negative num den, by decide +kernel, ?_⟩
    rw [h, Nat.zero_add] at hbits
    cases negative with
    | false => exact .inl (Float.toBits_inj.1 (UInt64.toNat_inj.1 (hbits.trans hzero.symm)))
    | true =>
      exact .inr (.inr ⟨Float.toBits_inj.1 (UInt64.toNat_inj.1 (hbits.trans hminus.symm)), rfl⟩)

theorem nearestBits_one {n : Nat} (hn : n ≠ 0) : nearestBits n 1 ≠ 0 := by
  have hlead : (0 : Int) ≤ leadingBit n 1 := by
    have hlog : 2 ^ n.log2 ≤ n := Nat.log2_self_le hn
    have hone : Nat.log2 1 = 0 := rfl
    simp [leadingBit, hone, hlog]
  rw [nearestBits, if_neg hn]
  refine Nat.ne_of_gt (Nat.lt_min.2 ⟨?_, by decide⟩)
  have hpos : 0 < (max (leadingBit n 1 - 52) (-1074) + 1074).toNat := by omega
  exact Nat.add_pos_left (Nat.mul_pos hpos (by decide)) _

theorem ofInteger_beq_zero (i : Int64) : (ofInteger i == 0) = true ↔ i = 0 := by
  rw [ofInteger, nearest_beq_zero]
  constructor
  · intro h
    by_contra hi
    refine nearestBits_one (fun hz => hi ?_) h
    exact Int64.toInt_inj.1 (Int.natAbs_eq_zero.1 hz)
  · rintro rfl
    rfl

end TypedScript.Decimal

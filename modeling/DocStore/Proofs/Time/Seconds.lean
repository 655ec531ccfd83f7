import DocStore.Time.Duration
import Mathlib
/-!
# Spans of time in seconds are finite

The seconds of a span are a sum of two floats, each from a machine word. Floats
overflow where the exponent is too large, so it is enough to bound exponents. A
float is `AtMost c` if its first digit stands for no more than `2 ^ c`. Rounding
adds one to the bound, a sum one more than that, a division by a constant adds a
constant, and a float that is packed and unpacked has at most 52 more.
-/

namespace DocStore

namespace Binary

open Float.Model Float.Model.UnpackedFloat

variable {c e : Int} {m : Nat} {s : Sign} {u v : UnpackedFloat} {accuracy : Accuracy}

/-- **A float that is zero, or finite with a first digit that stands for `2 ^ c` at
most.** -/
def AtMost (c : Int) : UnpackedFloat → Prop
  | .zero _ => True
  | .finite _ m e _ => m.log2 + e ≤ c
  | _ => False

theorem isFinite_of_atMost (h : AtMost c u) : u.isFinite = true := by
  cases u with
  | zero _ | finite _ _ _ _ => rfl
  | infinity _ | notANumber => exact absurd h id

theorem AtMost.mono {c' : Int} (h : AtMost c u) (hle : c ≤ c') : AtMost c' u := by
  cases u with
  | zero _ => trivial
  | finite s m e _ =>
    have hm : m.log2 + e ≤ c := h
    have hm' : m.log2 + e ≤ c' := by omega
    exact hm'
  | infinity _ | notANumber => exact absurd h id

/-! ## Digits -/

theorem log2_le_of_lt {k : Nat} (h : m < 2 ^ (k + 1)) : m.log2 ≤ k := by
  by_cases hm : m = 0
  · subst hm
    exact Nat.zero_le k
  · have hlt : m.log2 < k + 1 := (Nat.log2_lt hm).2 h
    omega

theorem log2_mono {n : Nat} (h : m ≤ n) : m.log2 ≤ n.log2 := by
  refine log2_le_of_lt ?_
  have hn : n < 2 ^ (n.log2 + 1) := Nat.lt_log2_self
  omega

/-- A shift to the left moves the first digit so many places. -/
theorem log2_shiftLeft_le (m d : Nat) : (m <<< d).log2 ≤ m.log2 + d := by
  refine log2_le_of_lt ?_
  have hm : m < 2 ^ (m.log2 + 1) := Nat.lt_log2_self
  calc m <<< d = m * 2 ^ d := Nat.shiftLeft_eq m d
    _ < 2 ^ (m.log2 + 1) * 2 ^ d := Nat.mul_lt_mul_of_pos_right hm (Nat.two_pow_pos d)
    _ = 2 ^ (m.log2 + d + 1) := by rw [← Nat.pow_add]; congr 1; omega

/-- Digits shifted out to the right are lost, so what is left is no greater. -/
theorem mantissa_shiftRight_mul_le (em : ExtendedMantissa) (n : Nat) :
    (em >>> n).mantissa * 2 ^ n ≤ em.mantissa := by
  change (Nat.repeat ExtendedMantissa.shiftRightOne n em).mantissa * 2 ^ n ≤ em.mantissa
  induction n with
  | zero => exact Nat.le_of_eq (Nat.mul_one _)
  | succ n ih =>
    have hhalf : ((Nat.repeat ExtendedMantissa.shiftRightOne n em).mantissa / 2) * 2 ≤
        (Nat.repeat ExtendedMantissa.shiftRightOne n em).mantissa := Nat.div_mul_le_self _ 2
    calc (Nat.repeat ExtendedMantissa.shiftRightOne (n + 1) em).mantissa * 2 ^ (n + 1)
        = ((Nat.repeat ExtendedMantissa.shiftRightOne n em).mantissa / 2) * 2 * 2 ^ n := by
          rw [Nat.repeat, ExtendedMantissa.shiftRightOne, Nat.pow_succ, Nat.mul_assoc,
            Nat.mul_comm 2]
      _ ≤ (Nat.repeat ExtendedMantissa.shiftRightOne n em).mantissa * 2 ^ n :=
          Nat.mul_le_mul_right _ hhalf
      _ ≤ em.mantissa := ih

/-- **A shift to the right** leaves the first digit where it was, or takes all
digits away. -/
theorem log2_mantissa_shiftRight_le (em : ExtendedMantissa) (n : Nat) :
    (em >>> n).mantissa.log2 + n ≤ max em.mantissa.log2 n := by
  have hshifted := mantissa_shiftRight_mul_le em n
  rcases Nat.eq_zero_or_pos (em >>> n).mantissa with hzero | hpos
  · rw [hzero, Nat.log2_zero]
    omega
  · have hpow : 2 ^ ((em >>> n).mantissa.log2 + n) ≤ em.mantissa := by
      calc 2 ^ ((em >>> n).mantissa.log2 + n)
          = 2 ^ (em >>> n).mantissa.log2 * 2 ^ n := Nat.pow_add ..
        _ ≤ (em >>> n).mantissa * 2 ^ n :=
            Nat.mul_le_mul_right _ (Nat.log2_self_le (Nat.ne_of_gt hpos))
        _ ≤ em.mantissa := hshifted
    have hne : em.mantissa ≠ 0 := by
      have hpos' : 0 < 2 ^ ((em >>> n).mantissa.log2 + n) := Nat.two_pow_pos _
      omega
    have hle := (Nat.le_log2 hne).2 hpow
    omega

/-- Rounding adds one at most, and so moves the first digit by one place. -/
theorem log2_roundedMantissa_le (em : ExtendedMantissa) :
    em.roundedMantissa.log2 ≤ em.mantissa.log2 + 1 := by
  have hrounded : em.roundedMantissa ≤ em.mantissa + 1 := by
    obtain ⟨mantissa, roundBit, stickyBit⟩ := em
    have hmod : mantissa % 2 < 2 := Nat.mod_lt _ (by decide)
    cases roundBit <;> cases stickyBit <;>
      simp [ExtendedMantissa.roundedMantissa, ExtendedMantissa.accuracy,
        Accuracy.roundToNearestEven]
    omega
  refine log2_le_of_lt ?_
  have hlt : em.mantissa < 2 ^ (em.mantissa.log2 + 1) := Nat.lt_log2_self
  rw [Nat.pow_succ]
  omega

/-! ## Rounding -/

/-- The exponent for which there are as many digits as a float has. -/
theorem targetExponent_eq (m : Nat) (e : Int) :
    Format.binary64.targetExponent (totalExponent m e) = max (m.log2 + 1 + e - 53) (-1074) := rfl

/-- **A shift to the digits that a float has** keeps the bound. -/
theorem shiftToTargetExponent_le (accuracy : Accuracy) (hc : 0 ≤ c) (hm : m.log2 + e ≤ c) :
    (shiftToTargetExponent .binary64 m e accuracy).1.mantissa.log2 +
      (shiftToTargetExponent .binary64 m e accuracy).2 ≤ c := by
  have hmantissa : (ExtendedMantissa.ofMantissaAndAccuracy m accuracy).mantissa = m := by
    unfold ExtendedMantissa.ofMantissaAndAccuracy
    split <;> rfl
  simp only [shiftToTargetExponent, shiftToExponent, targetExponent_eq]
  have hdigit := log2_mantissa_shiftRight_le (.ofMantissaAndAccuracy m accuracy)
    (max ((m.log2 : Int) + 1 + e - 53) (-1074) - e).toNat
  rw [hmantissa] at hdigit
  omega

/-- **Rounding adds one to the bound at most.** -/
theorem atMost_roundWithAccuracy (hc : 0 ≤ c) (hm : m.log2 + e ≤ c) :
    AtMost (c + 1) (roundWithAccuracy .binary64 s m e accuracy) := by
  rw [roundWithAccuracy]
  have hfirst := shiftToTargetExponent_le accuracy hc hm
  have hrounded := log2_roundedMantissa_le (shiftToTargetExponent .binary64 m e accuracy).1
  have hdigits : ((shiftToTargetExponent .binary64 m e accuracy).1.roundedMantissa.log2 : Int) +
      (shiftToTargetExponent .binary64 m e accuracy).2 ≤ c + 1 := by omega
  have hlast := shiftToTargetExponent_le .exact (show 0 ≤ c + 1 by omega) hdigits
  dsimp only
  split
  · trivial
  · exact hlast

theorem atMost_round (hc : 0 ≤ c) (hm : m.log2 + e ≤ c) :
    AtMost (c + 1) (UnpackedFloat.round .binary64 s m e) := by
  have hdigit := log2_shiftLeft_le m (e - Format.binary64.targetExponent (totalExponent m e)).toNat
  rw [UnpackedFloat.round, decreaseExponent]
  exact atMost_roundWithAccuracy hc (by omega)

theorem atMost_normalize {x : Int} (hc : 0 ≤ c) (hx : x.natAbs.log2 + e ≤ c) :
    AtMost (c + 1) (UnpackedFloat.normalize .binary64 x e s) := by
  rw [UnpackedFloat.normalize]
  split
  next =>
    refine atMost_round hc ?_
    have hmono := log2_mono (show (-x).toNat ≤ x.natAbs by omega)
    omega
  next => trivial
  next =>
    refine atMost_round hc ?_
    have hmono := log2_mono (show x.toNat ≤ x.natAbs by omega)
    omega

/-! ## Packing -/

/-- What is packed from parts is finite, unless the exponent is all ones. -/
theorem atMost_unpack_packComponents {exponent : BitVec 11} (s : Sign) (mantissa : BitVec 52)
    (hc : 0 ≤ c) (hones : exponent ≠ -1#11) (he : (exponent.toNat : Int) - 1075 ≤ c) :
    AtMost (c + 52) (unpack .binary64 (packComponents .binary64 s exponent mantissa)) := by
  have hlog : mantissa.toNat.log2 ≤ 51 := log2_le_of_lt mantissa.isLt
  have hlog' : (1#1 ++ mantissa).toNat.log2 ≤ 52 := log2_le_of_lt (1#1 ++ mantissa).isLt
  have hbias : ((Format.binary64.exponentBias : Nat) : Int) + (52 : Nat) = 1075 := by decide
  simp only [UnpackedFloat.unpack, unpackMantissa_packComponents, unpackExponent_packComponents, if_neg hones]
  split
  next hzero =>
    split
    · trivial
    · rw [hzero]
      simp only [AtMost, BitVec.toNat_ofNat]
      omega
  next =>
    simp only [AtMost]
    omega

/-- **A float that is packed and unpacked** is finite, if its exponent fits. -/
theorem atMost_unpack_pack (hc : 0 ≤ c) (hfits : c < 972) (h : AtMost c u) :
    AtMost (c + 52) (UnpackedFloat.unpack .binary64 (UnpackedFloat.pack .binary64 u)) := by
  have hzero : ((0#11).toNat : Int) - 1075 ≤ c := by
    rw [BitVec.toNat_ofNat]
    omega
  cases u with
  | infinity _ | notANumber => exact absurd h id
  | zero s =>
    exact atMost_unpack_packComponents s 0#52 hc (by decide) hzero
  | finite s m e hpos =>
    have hm : m.log2 + e ≤ c := h
    have hbias : ((Format.binary64.exponentBias : Nat) : Int) + (52 : Nat) = 1075 := by decide
    have hbits : 2 ^ Format.binary64.exponentBits = 2048 := by decide
    rw [UnpackedFloat.pack]
    dsimp only
    split
    next hbig => omega
    next hsmall =>
      split
      · have hvalue : (BitVec.ofNat 11 (e + Format.binary64.exponentBias + (52 : Nat)).toNat).toNat =
            (e + Format.binary64.exponentBias + (52 : Nat)).toNat := by
          rw [BitVec.toNat_ofNat, Nat.mod_eq_of_lt (by omega)]
        refine atMost_unpack_packComponents s _ hc ?_ ?_
        · intro hones
          rw [hones] at hvalue
          have hall : (-1#11).toNat = 2047 := by decide
          omega
        · rw [hvalue]
          omega
      · exact atMost_unpack_packComponents s _ hc (by decide) hzero

/-! ## Arithmetic -/

/-- A machine word as a float. -/
theorem atMost_ofUInt64 (n : UInt64) : AtMost 64 (UnpackedFloat.ofUInt64 .binary64 n) := by
  have hword : n.toNat < 2 ^ (63 + 1) := n.toNat_lt
  have hlog : n.toNat.log2 ≤ 63 := log2_le_of_lt hword
  refine atMost_normalize (c := 63) (by decide) ?_
  rw [Int.natAbs_natCast]
  omega

/-- **A sum adds one place to the greater of two bounds**, and one for rounding. -/
theorem atMost_add (hc : 0 ≤ c) (hu : AtMost c u) (hv : AtMost c v) :
    AtMost (c + 2) (UnpackedFloat.add .binary64 u v) := by
  cases u with
  | infinity _ | notANumber => exact absurd hu id
  | zero s =>
    cases v with
    | infinity _ | notANumber => exact absurd hv id
    | zero s' =>
      simp only [UnpackedFloat.add]
      split <;> trivial
    | finite s' m' e' _ => exact hv.mono (by omega)
  | finite s m e _ =>
    cases v with
    | infinity _ | notANumber => exact absurd hv id
    | zero s' => exact hu.mono (by omega)
    | finite s' m' e' _ =>
      have hm : m.log2 + e ≤ c := hu
      have hm' : m'.log2 + e' ≤ c := hv
      simp only [UnpackedFloat.add, decreaseExponent]
      -- both get the smaller unit, which leaves their first digits where they are
      have hd := log2_shiftLeft_le m (e - min e e').toNat
      have hd' := log2_shiftLeft_le m' (e' - min e e').toNat
      obtain ⟨k, hk⟩ : ∃ k : Nat, (k : Int) = c - min e e' := ⟨(c - min e e').toNat, by omega⟩
      have hlt : m <<< (e - min e e').toNat < 2 ^ (k + 1) :=
        Nat.lt_of_lt_of_le Nat.lt_log2_self (Nat.pow_le_pow_right (by decide) (by omega))
      have hlt' : m' <<< (e' - min e e').toNat < 2 ^ (k + 1) :=
        Nat.lt_of_lt_of_le Nat.lt_log2_self (Nat.pow_le_pow_right (by decide) (by omega))
      have hsigned : ∀ (t : Sign) (n : Nat), (t.apply (n : Int)).natAbs = n := by
        intro t n
        cases t <;> simp [Sign.apply]
      have habs := Int.natAbs_add_le (s.apply ((m <<< (e - min e e').toNat : Nat) : Int))
        (s'.apply ((m' <<< (e' - min e e').toNat : Nat) : Int))
      rw [hsigned, hsigned] at habs
      have hsum := log2_le_of_lt (k := k + 1) (Nat.lt_of_le_of_lt habs (by
        rw [Nat.pow_succ]
        omega))
      have hbound := atMost_normalize (s := .positive) (c := c + 1) (e := min e e') (by omega)
        (x := s.apply ((m <<< (e - min e e').toNat : Nat) : Int) +
          s'.apply ((m' <<< (e' - min e e').toNat : Nat) : Int)) (by omega)
      rwa [show c + 1 + 1 = c + 2 by omega] at hbound

/-- **A quotient** has at most the places of the dividend, less those below the
unit of the divisor. -/
theorem atMost_div {n : Nat} {f : Int} (hn : 0 < n) (hc : 0 ≤ c - f) (hu : AtMost c u) :
    AtMost (c - f + 1) (UnpackedFloat.div .binary64 u (.finite s n f hn)) := by
  cases u with
  | infinity _ | notANumber => exact absurd hu id
  | zero s' => trivial
  | finite s' m e hpos =>
    have hm : m.log2 + e ≤ c := hu
    simp only [UnpackedFloat.div, divCore]
    refine atMost_roundWithAccuracy hc ?_
    have hd := log2_shiftLeft_le m (e - f - min (e - f) (Format.binary64.targetExponent
      (totalExponent m e - totalExponent n f))).toNat
    have hquotient := log2_mono (Nat.div_le_self (m <<< (e - f - min (e - f)
      (Format.binary64.targetExponent (totalExponent m e - totalExponent n f))).toNat) n)
    omega

end Binary

namespace Duration

open Float.Model

/-- **A span in seconds is a finite float.** -/
theorem isFinite_totalSeconds (d : Duration) : d.totalSeconds.isFinite = true := by
  have hword : ∀ n : UInt64, Binary.AtMost 116 n.toFloat.toModel.unpack := fun n =>
    Binary.atMost_unpack_pack (by decide) (by decide) (Binary.atMost_ofUInt64 n)
  have hunit : (1000000000.0 : Float).toModel.unpack =
      .finite .positive (1000000000 * 2 ^ 23) (-23) (by decide) := rfl
  have hfraction : Binary.AtMost 192
      ((UInt64.ofNat d.nanos).toFloat / 1000000000.0).toModel.unpack := by
    have hdiv := Binary.atMost_div (s := .positive) (n := 1000000000 * 2 ^ 23) (f := -23)
      (by decide) (by decide) (hword (UInt64.ofNat d.nanos))
    rw [← hunit] at hdiv
    exact Binary.atMost_unpack_pack (by decide) (by decide) hdiv
  have hseconds : Binary.AtMost 192 d.seconds.toFloat.toModel.unpack :=
    (hword d.seconds).mono (by decide)
  have hsum := Binary.atMost_unpack_pack (by decide) (by decide)
    (Binary.atMost_add (by decide) hseconds hfraction)
  exact Binary.isFinite_of_atMost hsum

end Duration

end DocStore

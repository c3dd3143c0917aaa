import Mathlib.Algebra.Order.Field.Power
import Mathlib.Algebra.Order.Field.Rat
import Mathlib.Tactic.FieldSimp
import Mathlib.Tactic.Linarith
import Mathlib.Tactic.Positivity
import Mathlib.Tactic.Ring

/-! The type `Float` on numbers that are not negative: every operation gives a number within
`2^-52` of the exact result, relative to it, as long as the exponents stay small. -/
namespace Aprof.Floats

open Float.Model Float.Model.UnpackedFloat

abbrev double : Format := .binary64

theorem toNat_shiftRight (bits : ExtendedMantissa) (k : Nat) : (bits >>> k).mantissa = bits.mantissa / 2 ^ k := by
  change (k.repeat ExtendedMantissa.shiftRightOne bits).mantissa = _
  induction k with
  | zero => rw [pow_zero,Nat.div_one]; rfl
  | succ k ih =>
    have last : ((k + 1).repeat ExtendedMantissa.shiftRightOne bits).mantissa =
        (k.repeat ExtendedMantissa.shiftRightOne bits).mantissa / 2 := rfl
    rw [last,ih,Nat.div_div_eq_div_mul,pow_succ]

theorem roundedMantissa_bounds (bits : ExtendedMantissa) :
    bits.mantissa ≤ bits.roundedMantissa ∧ bits.roundedMantissa ≤ bits.mantissa + 1 := by
  obtain ⟨m,round,sticky⟩ := bits
  unfold ExtendedMantissa.roundedMantissa
  cases round <;> cases sticky <;> simp [ExtendedMantissa.accuracy,Accuracy.roundToNearestEven]
  omega

/-- A number of at least 53 bits that is no subnormal one is cut to 53 bits. -/
theorem shiftToTargetExponent_eq {m : Nat} {e : Int} (accuracy : Accuracy) (long : 52 ≤ m.log2) (normal : -1022 ≤ m.log2 + e) :
    (shiftToTargetExponent double m e accuracy).1.mantissa = m / 2 ^ (m.log2 - 52) ∧
      (shiftToTargetExponent double m e accuracy).2 = e + (m.log2 - 52 : Nat) := by
  have target : double.targetExponent (totalExponent m e) - e = (m.log2 - 52 : Nat) := by
    unfold Format.targetExponent totalExponent Format.minExponent Format.mantissaBits
    norm_num
    omega
  have start : (ExtendedMantissa.ofMantissaAndAccuracy m accuracy).mantissa = m := by
    cases accuracy with
    | exact => rfl
    | inexact side => cases side <;> rfl
  unfold shiftToTargetExponent shiftToExponent
  dsimp only
  rw [target,Int.toNat_natCast,toNat_shiftRight,start]
  exact ⟨rfl,rfl⟩

theorem div_log2 {m : Nat} (long : 52 ≤ m.log2) : 2 ^ 52 ≤ m / 2 ^ (m.log2 - 52) ∧ m / 2 ^ (m.log2 - 52) < 2 ^ 53 := by
  have nonzero : m ≠ 0 := by
    rintro rfl
    exact absurd long (by decide)
  constructor
  · rw [Nat.le_div_iff_mul_le (Nat.two_pow_pos _),← pow_add,Nat.add_sub_cancel' long]
    exact Nat.log2_self_le nonzero
  · rw [Nat.div_lt_iff_lt_mul (Nat.two_pow_pos _),← pow_add]
    exact lt_of_lt_of_le Nat.lt_log2_self (Nat.pow_le_pow_right (by decide) (by omega))

/-- The last shift only carries: what was rounded has 53 bits, or is the next power of two. -/
theorem roundWithAccuracy_eq {m : Nat} {e : Int} (accuracy : Accuracy) (long : 52 ≤ m.log2) (normal : -1022 ≤ m.log2 + e) :
    ∃ (r : Nat) (f : Int) (pos : 0 < r), roundWithAccuracy double .positive m e accuracy = .finite .positive r f pos ∧
      r.log2 = 52 ∧ e + (m.log2 - 52 : Nat) ≤ f ∧ f ≤ e + (m.log2 - 52 : Nat) + 1 ∧
      ∃ n : Nat, (r : ℚ) * 2 ^ f = n * 2 ^ (e + (m.log2 - 52 : Nat)) ∧ m / 2 ^ (m.log2 - 52) ≤ n ∧ n ≤ m / 2 ^ (m.log2 - 52) + 1 := by
  obtain ⟨cut,moved⟩ := shiftToTargetExponent_eq accuracy long normal
  obtain ⟨least,greatest⟩ := div_log2 long
  have rounded := roundedMantissa_bounds (shiftToTargetExponent double m e accuracy).1
  unfold roundWithAccuracy
  generalize first : shiftToTargetExponent double m e accuracy = shifted at *
  obtain ⟨bits,g⟩ := shifted
  dsimp only at *
  rw [cut] at rounded
  subst moved
  generalize bits.roundedMantissa = n at *
  have nonzero : n ≠ 0 := by omega
  have log : 52 ≤ n.log2 := (Nat.le_log2 nonzero).mpr (rounded.1.trans' least)
  obtain ⟨cut',moved'⟩ := shiftToTargetExponent_eq .exact log (show -1022 ≤ (n.log2 : Int) + (e + (m.log2 - 52 : Nat)) by omega)
  generalize shiftToTargetExponent double n (e + (m.log2 - 52 : Nat)) .exact = last at *
  obtain ⟨bits',f⟩ := last
  dsimp only at *
  rcases Nat.lt_or_ge n (2 ^ 53) with short | carried
  · have same : n.log2 = 52 := (Nat.log2_eq_iff nonzero).mpr ⟨rounded.1.trans' least,short⟩
    rw [same,Nat.sub_self,pow_zero,Nat.div_one] at cut'
    rw [same,Nat.sub_self,Nat.cast_zero,add_zero] at moved'
    subst cut' moved'
    rw [dif_neg nonzero]
    exact ⟨_,_,Nat.pos_of_ne_zero nonzero,rfl,same,le_rfl,by omega,_,rfl,rounded⟩
  · have power : n = 2 ^ 53 := by omega
    subst power
    rw [Nat.log2_two_pow] at cut' moved'
    subst moved'
    rw [dif_neg (by rw [cut']; decide)]
    refine ⟨_,_,by rw [cut']; decide,rfl,by rw [cut']; decide,by omega,by omega,2 ^ 53,?_,rounded⟩
    rw [cut',zpow_add₀ two_ne_zero]
    push_cast
    ring

theorem unpackSign_packComponents (spec : Format) (sign : Sign) (e : BitVec spec.exponentBits)
    (m : BitVec spec.mantissaBitsWithoutImplicit) : unpackSign (packComponents spec sign e m) = sign.toBitVec := by
  ext i bound
  obtain rfl : i = 0 := by omega
  unfold unpackSign packComponents
  simp [BitVec.getLsbD_append,BitVec.getElem_append]

theorem unpack_model (value : UnpackedFloat) :
    (Float.Model.pack value).unpack = UnpackedFloat.unpack double (UnpackedFloat.pack double value) := rfl

theorem pack_normal {m : Nat} {e : Int} (pos : 0 < m) (bits : m.log2 = 52) (range : -1000 ≤ e ∧ e ≤ 900) :
    UnpackedFloat.pack double (.finite .positive m e pos) =
      packComponents double .positive (BitVec.ofNat 11 (e + 1075).toNat) (BitVec.ofNat 52 m) := by
  have bias : e + (double.exponentBias : Nat) + (double.mantissaBitsWithoutImplicit : Nat) = e + 1075 := by
    have value : (double.exponentBias : Int) = 1023 := rfl
    rw [value]
    ring
  unfold UnpackedFloat.pack
  dsimp only
  rw [bias,if_neg,if_pos]
  · rw [bits]
    rfl
  · have power : 2 ^ double.exponentBits = 2048 := rfl
    omega

theorem toNat_implicit {m : Nat} (bits : m.log2 = 52) : (1#1 ++ BitVec.ofNat 52 m).toNat = m := by
  have nonzero : m ≠ 0 := by
    rintro rfl
    exact absurd bits (by decide)
  obtain ⟨least,greatest⟩ := (Nat.log2_eq_iff nonzero).mp bits
  rw [BitVec.toNat_append,← Nat.shiftLeft_add_eq_or_of_lt (BitVec.isLt _),Nat.shiftLeft_eq,BitVec.toNat_ofNat,BitVec.toNat_ofNat]
  omega

theorem unpack_parts (spec : Format) {b : BitVec spec.numBits} {sign : Sign} {x : BitVec spec.exponentBits}
    {y : BitVec spec.mantissaBitsWithoutImplicit} (signs : unpackSign b = sign.toBitVec) (exponent : unpackExponent b = x)
    (mantissa : unpackMantissa b = y) (ones : x ≠ -1#_) (zero : x ≠ 0#_) (pos : 0 < (1#1 ++ y).toNat) :
    UnpackedFloat.unpack spec b =
      .finite sign (1#1 ++ y).toNat ((x.toNat : Int) - (spec.exponentBias + spec.mantissaBitsWithoutImplicit)) pos := by
  unfold UnpackedFloat.unpack
  dsimp only
  subst exponent mantissa
  rw [if_neg ones,if_neg zero,signs]
  cases sign <;> rfl

theorem toNat_exponent {b : Nat} (range : 0 < b ∧ b < 2047) :
    (BitVec.ofNat 11 b).toNat = b ∧ BitVec.ofNat 11 b ≠ -1#11 ∧ BitVec.ofNat 11 b ≠ 0#11 := by
  have exponent : (BitVec.ofNat 11 b).toNat = b := by
    rw [BitVec.toNat_ofNat,Nat.mod_eq_of_lt (by omega)]
  refine ⟨exponent,?_,?_⟩
  · intro same
    have value := congrArg BitVec.toNat same
    rw [exponent] at value
    exact absurd value range.2.ne
  · intro same
    have value := congrArg BitVec.toNat same
    rw [exponent] at value
    exact absurd value range.1.ne'

theorem finite_congr {sign : Sign} {m m' : Nat} {e e' : Int} (pos : 0 < m) (pos' : 0 < m') (mantissa : m = m') (exponent : e = e') :
    UnpackedFloat.finite sign m e pos = .finite sign m' e' pos' := by
  subst mantissa exponent
  rfl

/-- What has 53 bits comes back from the 64 bits of a double. -/
theorem unpack_pack {m : Nat} {e : Int} (pos : 0 < m) (bits : m.log2 = 52) (range : -1000 ≤ e ∧ e ≤ 900) :
    (Float.Model.pack (.finite .positive m e pos)).unpack = .finite .positive m e pos := by
  obtain ⟨exponent,ones,zero⟩ := @toNat_exponent (e + 1075).toNat (by omega)
  have parts := unpack_parts double
    (unpackSign_packComponents double .positive (BitVec.ofNat 11 (e + 1075).toNat) (BitVec.ofNat 52 m))
    unpackExponent_packComponents unpackMantissa_packComponents ones zero
    (by rw [toNat_implicit bits]; exact pos)
  have unbiased : ((BitVec.ofNat 11 (e + 1075).toNat).toNat : Int) -
      ((double.exponentBias : Nat) + (double.mantissaBitsWithoutImplicit : Nat)) = e := by
    have bias : (double.exponentBias : Int) + (double.mantissaBitsWithoutImplicit : Nat) = 1075 := rfl
    rw [exponent,bias]
    omega
  rw [unpack_model,pack_normal pos bits range,parts]
  exact finite_congr _ pos (toNat_implicit bits) unbiased

/-- A number that is not negative, with its exponent in a range -/
inductive Reads (range : Nat) (x : Float) : ℚ → Prop
  | zero (unpacked : x.toModel.unpack = .zero .positive) : Reads range x 0
  | normal {m : Nat} {e : Int} (pos : 0 < m) (unpacked : x.toModel.unpack = .finite .positive m e pos) (bits : m.log2 = 52)
      (least : -range ≤ e) (greatest : e ≤ range) : Reads range x (m * 2 ^ e)

theorem reads_zero (range : Nat) : Reads range (.ofModel (.pack (.zero .positive))) 0 := .zero rfl

/-- `y` is what a rounding may leave of `q`. -/
structure Close (q y : ℚ) : Prop where
  least : q * (1 - 1 / 2 ^ 52) ≤ y
  greatest : y ≤ q * (1 + 1 / 2 ^ 52)

/-- Both the number and what is left of it lie between `c` and `c + 1` units. -/
theorem close_of_units {c n : Nat} {u q : ℚ} (positive : 0 < u) (big : 2 ^ 52 ≤ c) (floor : c ≤ n) (ceil : n ≤ c + 1)
    (start : c * u ≤ q) (stop : q ≤ (c + 1) * u) : Close q (n * u) := by
  have fine : u ≤ q * (1 / 2 ^ 52) := by
    rw [mul_one_div,le_div_iff₀ (by positivity),mul_comm]
    refine le_trans (mul_le_mul_of_nonneg_right ?_ positive.le) start
    exact_mod_cast big
  have atLeast : c * u ≤ n * u := mul_le_mul_of_nonneg_right (by exact_mod_cast floor) positive.le
  have atMost : n * u ≤ (c + 1) * u := mul_le_mul_of_nonneg_right (by exact_mod_cast ceil) positive.le
  constructor
  · linarith
  · linarith

theorem reads_round {m : Nat} {e : Int} {range : Nat} {q : ℚ} (accuracy : Accuracy) (long : 52 ≤ m.log2)
    (least : -range ≤ e + (m.log2 - 52 : Nat)) (greatest : e + (m.log2 - 52 : Nat) + 1 ≤ range) (small : range ≤ 900)
    (above : m * 2 ^ e ≤ q) (below : q ≤ (m + 1) * 2 ^ e) :
    ∃ y, Reads range (.ofModel (.pack (roundWithAccuracy double .positive m e accuracy))) y ∧ Close q y := by
  obtain ⟨r,f,pos,rounded,bits,first,last,n,value,floor,ceil⟩ := @roundWithAccuracy_eq m e accuracy long (by omega)
  refine ⟨r * 2 ^ f,?_,?_⟩
  · rw [rounded]
    have place : -1000 ≤ f ∧ f ≤ 900 := by omega
    exact .normal pos (unpack_pack pos bits place) bits (by omega) (by omega)
  obtain ⟨big,-⟩ := div_log2 long
  generalize m.log2 - 52 = k at *
  have low := Nat.div_mul_le_self m (2 ^ k)
  have high : m + 1 ≤ (m / 2 ^ k + 1) * 2 ^ k := by
    rw [Nat.mul_comm]
    exact Nat.lt_mul_div_succ m (Nat.two_pow_pos k)
  have scale : (2 : ℚ) ^ (e + k) = 2 ^ k * 2 ^ e := by rw [zpow_add₀ two_ne_zero,zpow_natCast,mul_comm]
  have unit : (0 : ℚ) < 2 ^ e := zpow_pos two_pos e
  rw [value,scale]
  refine close_of_units (by positivity) big floor ceil ?_ ?_
  · refine le_trans ?_ above
    rw [← mul_assoc]
    exact mul_le_mul_of_nonneg_right (by exact_mod_cast low) unit.le
  · refine below.trans ?_
    rw [← mul_assoc]
    exact mul_le_mul_of_nonneg_right (by exact_mod_cast high) unit.le

theorem reads_round_exact {m : Nat} {e : Int} {range : Nat} {q : ℚ} (long : 52 ≤ m.log2)
    (least : -range ≤ e + (m.log2 - 52 : Nat)) (greatest : e + (m.log2 - 52 : Nat) + 1 ≤ range) (small : range ≤ 900)
    (value : m * 2 ^ e = q) :
    ∃ y, Reads range (.ofModel (.pack (roundWithAccuracy double .positive m e .exact))) y ∧ Close q y := by
  refine reads_round .exact long least greatest small value.le ?_
  rw [add_mul,value]
  exact le_add_of_nonneg_right (by positivity)

theorem log2_mul_two_pow {n : Nat} (k : Nat) (pos : 0 < n) : (n * 2 ^ k).log2 = n.log2 + k := by
  have bounds := (Nat.log2_eq_iff pos.ne').mp rfl
  refine (Nat.log2_eq_iff (Nat.mul_pos pos (Nat.two_pow_pos k)).ne').mpr ⟨?_,?_⟩
  · rw [pow_add]
    exact Nat.mul_le_mul_right _ bounds.1
  · rw [Nat.add_right_comm,pow_add]
    exact Nat.mul_lt_mul_of_pos_right bounds.2 (Nat.two_pow_pos k)

theorem reads_ofNat {n : Nat} (bound : n < 2 ^ 64) : ∃ y, Reads 64 (.ofModel (.ofNat n)) y ∧ Close n y := by
  rcases Nat.eq_zero_or_pos n with rfl | pos
  · refine ⟨0,.zero rfl,?_,?_⟩
    · rw [Nat.cast_zero,zero_mul]
    · rw [Nat.cast_zero,zero_mul]
  have log : n.log2 < 64 := (Nat.log2_lt pos.ne').mpr bound
  have target : double.targetExponent (totalExponent n 0) = n.log2 - 52 := by
    unfold Format.targetExponent totalExponent Format.minExponent Format.mantissaBits
    norm_num
    omega
  have converted : Float.Model.ofNat n = .pack (UnpackedFloat.round double .positive n 0) := by
    unfold Float.Model.ofNat UnpackedFloat.ofNat UnpackedFloat.ofInt UnpackedFloat.normalize
    rw [Int.compare_eq_gt.mpr (Int.natCast_pos.mpr pos)]
    rfl
  rw [converted,UnpackedFloat.round,target,decreaseExponent]
  dsimp only
  have shifted : (n <<< (0 - (n.log2 - 52 : Int)).toNat).log2 = n.log2 + (0 - (n.log2 - 52 : Int)).toNat := by
    rw [Nat.shiftLeft_eq]
    exact log2_mul_two_pow _ pos
  generalize amount : (0 - (n.log2 - 52 : Int)).toNat = k at *
  have value : ((n <<< k : Nat) : ℚ) * 2 ^ (0 - (k : Int)) = n := by
    rw [Nat.shiftLeft_eq,zero_sub,zpow_neg,zpow_natCast]
    push_cast
    exact mul_inv_cancel_right₀ (by positivity) _
  exact reads_round_exact (by omega) (by omega) (by omega) (by decide) value

section
variable {range : Nat} {x z : Float} {p q : ℚ}

theorem Reads.nonneg (reads : Reads range x p) : 0 ≤ p := by
  cases reads with
  | zero => exact le_rfl
  | normal => positivity

theorem Reads.mono {wider : Nat} (reads : Reads range x p) (more : range ≤ wider) : Reads wider x p := by
  cases reads with
  | zero unpacked => exact .zero unpacked
  | normal pos unpacked bits least greatest => exact .normal pos unpacked bits (by omega) (by omega)

theorem log2_mul {m m' : Nat} (pos : 0 < m) (pos' : 0 < m') (bits : m.log2 = 52) (bits' : m'.log2 = 52) :
    104 ≤ (m * m').log2 ∧ (m * m').log2 ≤ 105 := by
  obtain ⟨least,greatest⟩ := (Nat.log2_eq_iff pos.ne').mp bits
  obtain ⟨least',greatest'⟩ := (Nat.log2_eq_iff pos'.ne').mp bits'
  have nonzero := (Nat.mul_pos pos pos').ne'
  constructor
  · refine (Nat.le_log2 nonzero).mpr ?_
    rw [show 104 = 52 + 52 from rfl,pow_add]
    exact Nat.mul_le_mul least least'
  · refine Nat.le_of_lt_succ ((Nat.log2_lt nonzero).mpr ?_)
    show m * m' < 2 ^ ((52 + 1) + (52 + 1))
    rw [pow_add]
    exact Nat.mul_lt_mul'' greatest greatest'

theorem Reads.mul (first : Reads range x p) (second : Reads range z q) (small : range ≤ 400) :
    ∃ y, Reads (2 * range + 54) (x * z) y ∧ Close (p * q) y := by
  have product : x * z = .ofModel (.pack (UnpackedFloat.mul double x.toModel.unpack z.toModel.unpack)) := rfl
  have none : Close 0 0 := ⟨(zero_mul _).le,(zero_mul _).ge⟩
  cases first with
  | zero unpacked =>
    have nothing : UnpackedFloat.mul double (.zero .positive) z.toModel.unpack = .zero .positive := by
      cases second with
      | zero unpacked' => rw [unpacked']; rfl
      | normal pos unpacked' => rw [unpacked']; rfl
    rw [product,unpacked,nothing,zero_mul]
    exact ⟨0,reads_zero _,none⟩
  | @normal m e pos unpacked bits least greatest =>
    cases second with
    | zero unpacked' =>
      have nothing : UnpackedFloat.mul double (.finite .positive m e pos) (.zero .positive) = .zero .positive := rfl
      rw [product,unpacked,unpacked',nothing,mul_zero]
      exact ⟨0,reads_zero _,none⟩
    | @normal m' e' pos' unpacked' bits' least' greatest' =>
      have multiplied : UnpackedFloat.mul double (.finite .positive m e pos) (.finite .positive m' e' pos') =
          roundWithAccuracy double .positive (m * m') (e + e') .exact := rfl
      have value : ((m * m' : Nat) : ℚ) * 2 ^ (e + e') = m * 2 ^ e * (m' * 2 ^ e') := by
        rw [zpow_add₀ two_ne_zero]
        push_cast
        ring
      obtain ⟨long,short⟩ := log2_mul pos pos' bits bits'
      rw [product,unpacked,unpacked',multiplied]
      exact reads_round_exact (by omega) (by omega) (by omega) (by omega) value

theorem log2_div {m m' : Nat} (pos : 0 < m) (pos' : 0 < m') (bits : m.log2 = 52) (bits' : m'.log2 = 52) :
    52 ≤ (m <<< 53 / m').log2 ∧ (m <<< 53 / m').log2 ≤ 53 := by
  obtain ⟨least,greatest⟩ := (Nat.log2_eq_iff pos.ne').mp bits
  obtain ⟨least',greatest'⟩ := (Nat.log2_eq_iff pos'.ne').mp bits'
  have low : 2 ^ 52 ≤ m <<< 53 / m' := by
    rw [Nat.shiftLeft_eq,Nat.le_div_iff_mul_le pos']
    exact Nat.mul_le_mul least greatest'.le
  have high : m <<< 53 / m' < 2 ^ 54 := by
    rw [Nat.shiftLeft_eq,Nat.div_lt_iff_lt_mul pos']
    calc m * 2 ^ 53 < 2 ^ 53 * 2 ^ 53 := Nat.mul_lt_mul_of_pos_right greatest (Nat.two_pow_pos 53)
      _ = 2 ^ 54 * 2 ^ 52 := by rw [← pow_add,← pow_add]
      _ ≤ 2 ^ 54 * m' := Nat.mul_le_mul_left _ least'
  have nonzero : m <<< 53 / m' ≠ 0 := by omega
  exact ⟨(Nat.le_log2 nonzero).mpr low,Nat.le_of_lt_succ ((Nat.log2_lt nonzero).mpr high)⟩

theorem divCore_eq {m m' : Nat} {e e' : Int} (bits : m.log2 = 52) (bits' : m'.log2 = 52) (range : -900 ≤ e - e') :
    divCore double m e m' e' = (m <<< 53 / m',e - e' - 53,accuracyOfFraction (m <<< 53 % m') m') := by
  have target : min (e - e') (double.targetExponent (totalExponent m e - totalExponent m' e')) = e - e' - 53 := by
    unfold Format.targetExponent totalExponent Format.minExponent Format.mantissaBits
    rw [bits,bits']
    norm_num
    omega
  have amount : (e - e' - (e - e' - 53)).toNat = 53 := by omega
  unfold divCore
  dsimp only
  rw [target,amount]

theorem Reads.div (first : Reads range x p) (second : Reads range z q) (positive : 0 < q) (small : range ≤ 400) :
    ∃ y, Reads (2 * range + 54) (x / z) y ∧ Close (p / q) y := by
  have quotient : x / z = .ofModel (.pack (UnpackedFloat.div double x.toModel.unpack z.toModel.unpack)) := rfl
  cases second with
  | zero => exact absurd positive (lt_irrefl 0)
  | @normal m' e' pos' unpacked' bits' least' greatest' =>
    cases first with
    | zero unpacked =>
      have nothing : UnpackedFloat.div double (.zero .positive) (.finite .positive m' e' pos') = .zero .positive := rfl
      rw [quotient,unpacked,unpacked',nothing,zero_div]
      exact ⟨0,reads_zero _,(zero_mul _).le,(zero_mul _).ge⟩
    | @normal m e pos unpacked bits least greatest =>
      have divided : UnpackedFloat.div double (.finite .positive m e pos) (.finite .positive m' e' pos') =
          roundWithAccuracy double .positive (m <<< 53 / m') (e - e' - 53) (accuracyOfFraction (m <<< 53 % m') m') := by
        have core := @divCore_eq m m' e e' bits bits' (by omega)
        show roundWithAccuracy double .positive (divCore double m e m' e').1 (divCore double m e m' e').2.1
          (divCore double m e m' e').2.2 = _
        rw [core]
      obtain ⟨long,short⟩ := log2_div pos pos' bits bits'
      rw [quotient,unpacked,unpacked',divided]
      have positive : (0 : ℚ) < m' := by exact_mod_cast pos'
      have value : (m * 2 ^ e / (m' * 2 ^ e') : ℚ) = (m <<< 53 : Nat) * 2 ^ (e - e' - 53) / m' := by
        rw [Nat.shiftLeft_eq,zpow_sub₀ two_ne_zero,zpow_sub₀ two_ne_zero]
        push_cast
        field_simp
      have unit : (0 : ℚ) < 2 ^ (e - e' - 53) := zpow_pos two_pos _
      refine reads_round _ (by omega) (by omega) (by omega) (by omega) ?_ ?_
      · rw [value,le_div_iff₀ positive,mul_right_comm]
        refine mul_le_mul_of_nonneg_right ?_ unit.le
        exact_mod_cast Nat.div_mul_le_self (m <<< 53) m'
      · rw [value,div_le_iff₀ positive,mul_right_comm]
        refine mul_le_mul_of_nonneg_right ?_ unit.le
        rw [mul_comm]
        exact_mod_cast (Nat.lt_mul_div_succ (m <<< 53) pos').le

end

theorem unpackSign_pack {m : Nat} {e : Int} (pos : 0 < m) :
    unpackSign (UnpackedFloat.pack double (.finite .positive m e pos)) = Sign.positive.toBitVec := by
  unfold UnpackedFloat.pack
  dsimp only
  split
  · exact unpackSign_packComponents ..
  · split
    · exact unpackSign_packComponents ..
    · exact unpackSign_packComponents ..

theorem unpack_notBelow {b : BitVec double.numBits} (sign : unpackSign b = Sign.positive.toBitVec) :
    (UnpackedFloat.unpack double b).lt (.zero .positive) = false := by
  unfold UnpackedFloat.unpack
  dsimp only
  rw [sign]
  by_cases ones : unpackExponent b = -1#_
  · rw [if_pos ones]
    by_cases none : unpackMantissa b = 0#_
    · rw [if_pos none]
      rfl
    · rw [if_neg none]
      rfl
  rw [if_neg ones]
  by_cases zero : unpackExponent b = 0#_
  · rw [if_pos zero]
    by_cases none : unpackMantissa b = 0#_
    · rw [dif_pos none]
      rfl
    · rw [dif_neg none]
      rfl
  · rw [if_neg zero]
    rfl

/-- Nothing positive is packed into a number below zero. -/
theorem not_lt_zero {value : UnpackedFloat} (positive : value = .zero .positive ∨ ∃ m e pos, value = .finite .positive m e pos) :
    ¬Float.ofModel (.pack value) < 0 := by
  have below : UnpackedFloat.lt (UnpackedFloat.unpack double (UnpackedFloat.pack double value)) (.zero .positive) = false := by
    rcases positive with rfl | ⟨m,e,pos,rfl⟩
    · rfl
    · exact unpack_notBelow (unpackSign_pack pos)
  intro less
  have less : UnpackedFloat.lt (UnpackedFloat.unpack double (UnpackedFloat.pack double value)) (.zero .positive) = true :=
    of_decide_eq_true less
  rw [below] at less
  cases less

theorem normalize_nonneg {m : Int} (e : Int) (nonneg : 0 ≤ m) :
    UnpackedFloat.normalize double m e .positive = .zero .positive ∨
      ∃ r f pos, UnpackedFloat.normalize double m e .positive = .finite .positive r f pos := by
  have rounded (n : Nat) (e : Int) : roundWithAccuracy double .positive n e .exact = .zero .positive ∨
      ∃ r f pos, roundWithAccuracy double .positive n e .exact = .finite .positive r f pos := by
    by_cases empty : (shiftToTargetExponent double (shiftToTargetExponent double n e .exact).1.roundedMantissa
      (shiftToTargetExponent double n e .exact).2 .exact).1.mantissa = 0
    · exact .inl (dif_pos empty)
    · exact .inr ⟨_,_,Nat.pos_of_ne_zero empty,dif_neg empty⟩
  unfold UnpackedFloat.normalize
  rcases nonneg.lt_or_eq with more | zero
  · rw [Int.compare_eq_gt.mpr more]
    exact rounded ..
  · rw [Int.compare_eq_eq.mpr zero.symm]
    exact .inl rfl

/-- A difference that is not negative is not rounded below zero. -/
theorem Reads.sub_notBelow {range : Nat} {x z : Float} {p q : ℚ} (first : Reads range x p) (second : Reads range z q) (less : q ≤ p) :
    ¬x - z < 0 := by
  have difference : x - z = .ofModel (.pack (UnpackedFloat.sub double x.toModel.unpack z.toModel.unpack)) := rfl
  rw [difference]
  apply not_lt_zero
  cases first with
  | zero unpacked =>
    cases second with
    | zero unpacked' => exact .inl (by rw [unpacked,unpacked']; rfl)
    | @normal m' e' pos' =>
      have positive : (0 : ℚ) < m' * 2 ^ e' := mul_pos (Nat.cast_pos.mpr pos') (zpow_pos two_pos _)
      exact absurd less (not_le.mpr positive)
  | @normal m e pos unpacked bits =>
    cases second with
    | zero unpacked' => exact .inr ⟨m,e,pos,by rw [unpacked,unpacked']; rfl⟩
    | @normal m' e' pos' unpacked' bits' =>
      have subtracted : UnpackedFloat.sub double (.finite .positive m e pos) (.finite .positive m' e' pos') =
          UnpackedFloat.normalize double ((m <<< (e - min e e').toNat : Nat) - (m' <<< (e' - min e e').toNat : Nat) : Int)
            (min e e') .positive := rfl
      rw [unpacked,unpacked',subtracted]
      apply normalize_nonneg
      have scaled (n : Nat) {f : Int} (least : min e e' ≤ f) :
          ((n <<< (f - min e e').toNat : Nat) : ℚ) * 2 ^ min e e' = n * 2 ^ f := by
        rw [Nat.shiftLeft_eq,Nat.cast_mul,Nat.cast_pow,Nat.cast_ofNat,← zpow_natCast,Int.toNat_of_nonneg (by omega),mul_assoc,
          ← zpow_add₀ two_ne_zero,sub_add_cancel]
      rw [← scaled m (min_le_left e e'),← scaled m' (min_le_right e e')] at less
      have ordered := le_of_mul_le_mul_right less (zpow_pos two_pos _)
      rw [sub_nonneg]
      exact_mod_cast ordered

end Aprof.Floats

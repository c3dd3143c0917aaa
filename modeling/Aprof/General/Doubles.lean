import Mathlib.Algebra.Order.Field.Power
import Mathlib.Algebra.Order.Field.Rat
import Mathlib.Data.Nat.Prime.Basic
import Mathlib.Data.Rat.Floor
import Mathlib.Tactic.FieldSimp
import Mathlib.Tactic.Linarith
import Mathlib.Tactic.Positivity
import Mathlib.Tactic.Ring

/-! Double precision as rational numbers of 53 bits, rounded to the nearest and to even between
two. The exponent has no bounds here: infinities, NaN and subnormal numbers are left out. -/
namespace Aprof

/-- The float64 nearest to a number, the even one of two -/
def nearestDouble (n : Nat) : Nat :=
  let ulp := 2 ^ (n.log2 - 52)
  let m := n / ulp
  if ulp < 2 * (n % ulp) ∨ ulp = 2 * (n % ulp) ∧ m % 2 = 1 then (m + 1) * ulp else m * ulp

/-- At least 55 bits of the number, the last of them set when more would follow. -/
def stickyBits (q : ℚ) : Nat :=
  let scaled := q.num.natAbs * 2 ^ (56 + q.den.log2)
  2 * (scaled / q.den) + if scaled % q.den = 0 then 0 else 1

/-- The result of an operation whose exact value is `q` -/
def roundDouble (q : ℚ) : ℚ := q.num.sign * nearestDouble (stickyBits q) / 2 ^ (57 + q.den.log2)

def IsDouble (q : ℚ) : Prop := ∃ m e : Int, q = m * 2 ^ e ∧ m.natAbs < 2 ^ 53

theorem nearestDouble_exact {m e : Nat} (short : m < 2 ^ 53) : nearestDouble (m * 2 ^ e) = m * 2 ^ e := by
  let n := m * 2 ^ e
  show nearestDouble n = n
  have divides : 2 ^ (n.log2 - 52) ∣ n := by
    rcases Nat.lt_or_ge e (n.log2 - 52) with less | enough
    · have nonzero : n ≠ 0 := by
        intro zero
        rw [zero] at less
        exact Nat.not_lt_zero _ less
      have least : 2 ^ n.log2 ≤ n := (Nat.le_log2 nonzero).mp le_rfl
      have greatest : n < 2 ^ (53 + e) := by
        rw [pow_add]
        exact Nat.mul_lt_mul_of_pos_right short (Nat.two_pow_pos e)
      have powers : 2 ^ (53 + e) ≤ 2 ^ n.log2 := Nat.pow_le_pow_right (by decide) (by omega)
      omega
    · exact Nat.dvd_mul_left_of_dvd (Nat.pow_dvd_pow 2 enough) m
  have rest : n % 2 ^ (n.log2 - 52) = 0 := Nat.mod_eq_zero_of_dvd divides
  have positive : 0 < 2 ^ (n.log2 - 52) := Nat.two_pow_pos _
  rw [nearestDouble,rest,if_neg (by omega)]
  exact Nat.div_mul_cancel divides

theorem nearestDouble_form (n : Nat) : ∃ m e : Nat, nearestDouble n = m * 2 ^ e ∧ m < 2 ^ 53 := by
  have small : n / 2 ^ (n.log2 - 52) < 2 ^ 53 := by
    rw [Nat.div_lt_iff_lt_mul (Nat.two_pow_pos _),← pow_add]
    exact lt_of_lt_of_le Nat.lt_log2_self (Nat.pow_le_pow_right (by decide) (by omega))
  rw [nearestDouble]
  split
  · rcases Nat.lt_or_ge (n / 2 ^ (n.log2 - 52) + 1) (2 ^ 53) with less | more
    · exact ⟨_,_,rfl,less⟩
    · -- the next power of two
      have next : n / 2 ^ (n.log2 - 52) + 1 = 2 ^ 52 * 2 := by omega
      rw [next,Nat.mul_assoc,← pow_succ']
      exact ⟨_,_,rfl,by decide⟩
  · exact ⟨_,_,rfl,small⟩

theorem isDouble_intCast {n : Int} (short : n.natAbs ≤ 2 ^ 53) : IsDouble n := by
  rcases short.lt_or_eq with less | equal
  · exact ⟨n,0,by rw [zpow_zero,mul_one],less⟩
  · rcases Int.natAbs_eq n with positive | negative
    · exact ⟨1,53,by rw [positive,equal]; norm_num,by decide⟩
    · exact ⟨-1,53,by rw [negative,equal]; norm_num,by decide⟩

theorem IsDouble.neg {q : ℚ} (double : IsDouble q) : IsDouble (-q) := by
  obtain ⟨m,e,rfl,short⟩ := double
  exact ⟨-m,e,by push_cast; ring,by rwa [Int.natAbs_neg]⟩

theorem isDouble_zero : IsDouble 0 := ⟨0,0,by norm_num,by decide⟩

theorem roundDouble_isDouble (q : ℚ) : IsDouble (roundDouble q) := by
  obtain ⟨m,e,form,short⟩ := nearestDouble_form (stickyBits q)
  have nonneg : IsDouble (nearestDouble (stickyBits q) / 2 ^ (57 + q.den.log2) : ℚ) := by
    rw [form]
    refine ⟨m,(e : Int) - (57 + q.den.log2 : Nat),?_,short⟩
    rw [zpow_sub₀ two_ne_zero,zpow_natCast,zpow_natCast]
    push_cast
    ring
  unfold roundDouble
  rcases lt_trichotomy q.num 0 with less | zero | more
  · rw [Int.sign_eq_neg_one_of_neg less]
    have negated := nonneg.neg
    convert negated using 1
    push_cast
    ring
  · rw [zero]
    convert isDouble_zero using 1
    simp
  · rw [Int.sign_eq_one_of_pos more]
    convert nonneg using 1
    push_cast
    ring

theorem IsDouble.den {q : ℚ} (double : IsDouble q) : ∃ j, q.den = 2 ^ j := by
  obtain ⟨m,e,rfl,-⟩ := double
  have divides : ((m : ℚ) * 2 ^ e).den ∣ 2 ^ e.natAbs := by
    rcases Int.natAbs_eq e with nonneg | neg
    · rw [nonneg,zpow_natCast]
      have whole : ((m : ℚ) * 2 ^ e.natAbs).den = 1 := by
        have cast : (m : ℚ) * 2 ^ e.natAbs = ((m * 2 ^ e.natAbs : Int) : ℚ) := by push_cast; rfl
        rw [cast]
        exact Rat.den_intCast _
      rw [whole]
      exact one_dvd _
    · have quotient : (m : ℚ) * 2 ^ e = m / ((2 ^ e.natAbs : Nat) : Int) := by
        conv_lhs => rw [neg,zpow_neg,zpow_natCast]
        push_cast
        rfl
      rw [quotient]
      have divides := Rat.den_dvd m ((2 ^ e.natAbs : Nat) : Int)
      rw [← Rat.divInt_eq_div]
      exact Int.natCast_dvd_natCast.mp divides
  obtain ⟨j,-,power⟩ := (Nat.dvd_prime_pow Nat.prime_two).mp divides
  exact ⟨j,power⟩

theorem roundDouble_exact {q : ℚ} (double : IsDouble q) : roundDouble q = q := by
  obtain ⟨j,power⟩ := double.den
  have log : q.den.log2 = j := by rw [power,Nat.log2_two_pow]
  have scale : (2 : ℚ) ^ (57 + j) ≠ 0 := by positivity
  have divides : q.den ∣ 2 ^ (56 + j) := by
    rw [power]
    exact Nat.pow_dvd_pow 2 (by omega)
  obtain ⟨k,whole⟩ := divides
  -- the bits are those of the number, none is lost
  have bits : stickyBits q = q.num.natAbs * (2 * k) := by
    unfold stickyBits
    dsimp only
    rw [log,whole]
    have split : q.num.natAbs * (q.den * k) = q.den * (q.num.natAbs * k) := by ring
    rw [split,Nat.mul_mod_right,if_pos rfl,Nat.mul_div_cancel_left _ q.den_pos]
    ring
  have value : ((q.num.natAbs * (2 * k) : Nat) : ℚ) = |q| * 2 ^ (57 + j) := by
    have scaled : (2 : ℚ) ^ (56 + j) = q.den * k := by exact_mod_cast whole
    have absolute : |q| = q.num.natAbs / q.den := by
      conv_lhs => rw [← Rat.num_div_den q]
      rw [abs_div,Nat.abs_cast,← Int.cast_abs,Int.abs_eq_natAbs,Int.cast_natCast]
    have den : (q.den : ℚ) ≠ 0 := by exact_mod_cast q.den_nz
    rw [absolute,show 57 + j = 56 + j + 1 by omega,pow_succ,scaled]
    push_cast
    field_simp
  have form : ∃ m e : Nat, q.num.natAbs * (2 * k) = m * 2 ^ e ∧ m < 2 ^ 53 := by
    obtain ⟨m,e,same,short⟩ := double
    rcases Int.le_total 0 (e + (57 + j : Nat)) with more | less
    · refine ⟨m.natAbs,(e + (57 + j : Nat)).toNat,?_,short⟩
      have exact : ((q.num.natAbs * (2 * k) : Nat) : ℚ) = ((m.natAbs * 2 ^ (e + (57 + j : Nat)).toNat : Nat) : ℚ) := by
        have exponent : (2 : ℚ) ^ (e + (57 + j : Nat)).toNat = 2 ^ e * 2 ^ (57 + j) := by
          rw [← zpow_natCast,Int.toNat_of_nonneg more,zpow_add₀ two_ne_zero,zpow_natCast]
        have absolute : |q| = m.natAbs * 2 ^ e := by
          rw [same,abs_mul,abs_of_pos (by positivity : (0 : ℚ) < 2 ^ e),← Int.cast_abs,Int.abs_eq_natAbs,Int.cast_natCast]
        rw [value,absolute,Nat.cast_mul,Nat.cast_pow,Nat.cast_ofNat,exponent,mul_assoc]
      exact_mod_cast exact
    · refine ⟨q.num.natAbs * (2 * k),0,(Nat.mul_one _).symm,lt_of_le_of_lt ?_ short⟩
      have bound : ((q.num.natAbs * (2 * k) : Nat) : ℚ) ≤ m.natAbs := by
        have absolute : |q| = m.natAbs * 2 ^ e := by
          rw [same,abs_mul,abs_of_pos (by positivity : (0 : ℚ) < 2 ^ e),← Int.cast_abs,Int.abs_eq_natAbs,Int.cast_natCast]
        rw [value,absolute,mul_assoc,← zpow_natCast,← zpow_add₀ two_ne_zero]
        exact mul_le_of_le_one_right (Nat.cast_nonneg _) (zpow_le_one_of_nonpos₀ one_le_two less)
      exact_mod_cast bound
  obtain ⟨m,e,form,short⟩ := form
  have rounded : (nearestDouble (stickyBits q) : ℚ) = |q| * 2 ^ (57 + j) := by
    rw [bits,← value,form,nearestDouble_exact short]
  unfold roundDouble
  rw [rounded,log,← mul_assoc,mul_div_cancel_right₀ _ scale]
  rcases lt_trichotomy q.num 0 with less | zero | more
  · rw [Int.sign_eq_neg_one_of_neg less,abs_of_neg (Rat.num_neg.mp less)]
    push_cast
    ring
  · rw [Rat.num_eq_zero.mp zero]
    simp
  · rw [Int.sign_eq_one_of_pos more,abs_of_pos (Rat.num_pos.mp more)]
    push_cast
    ring

@[simp] theorem roundDouble_round (q : ℚ) : roundDouble (roundDouble q) = roundDouble q :=
  roundDouble_exact (roundDouble_isDouble q)

@[simp] theorem roundDouble_zero : roundDouble 0 = 0 := roundDouble_exact isDouble_zero

end Aprof

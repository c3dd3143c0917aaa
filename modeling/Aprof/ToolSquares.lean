import Aprof.General.Doubles
import Aprof.Merge
import Aprof.ReportNames

/-! The sums of squares of both builds. `ADD_D` adds doubles: the tool stores the sum in a `ULong`,
the helper in a double. -/
namespace Aprof

def digitValue (digit : Char) : Nat := digit.toNat - '0'.toNat

/-- `n = 10*n + digit` -/
def nextDigit (n : Nat) (digit : Char) : Nat := nearestDouble (nearestDouble (10 * n) + digitValue digit)

/-- `frac += x*digit` and `x /= 10` -/
def nextDecimal (state : ℚ × ℚ) (digit : Char) : ℚ × ℚ :=
  (roundDouble (state.1 + roundDouble (state.2 * digitValue digit)),roundDouble (state.2 / 10))

/-- `VG_(strtod)` -/
def strtod (token : Str) : ℚ :=
  let text := token.dropWhile isSpace
  let unsigned := if text.head? = some '-' ∨ text.head? = some '+' then text.drop 1 else text
  let n := (unsigned.takeWhile Char.isDigit).foldl nextDigit 0
  let rest := unsigned.dropWhile Char.isDigit
  let frac := if rest.head? = some '.'
    then (((rest.drop 1).takeWhile Char.isDigit).foldl nextDecimal (0,roundDouble (1 / 10))).1 else 0
  let n := roundDouble (n + frac)
  if text.head? = some '-' then -n else n

/-- `ADD_D` into a `ULong`. A sum that no `ULong` holds is undefined in C; it stops here. -/
def addDouble (dest : UInt64) (inc : ℚ) : Option UInt64 :=
  let old := nearestDouble dest.toNat
  let sum := roundDouble (old + inc)
  if -1 < sum ∧ sum < 2 ^ 64 ∧ old ≤ nearestDouble ⌊sum⌋.toNat then some (UInt64.ofNat ⌊sum⌋.toNat) else none

theorem nearestDouble_small {n : Nat} (small : n ≤ 2 ^ 53) : nearestDouble n = n := by
  rcases small.lt_or_eq with less | rfl
  · have exact := @nearestDouble_exact n 0 less
    rwa [pow_zero,Nat.mul_one] at exact
  · rfl

theorem nearestDouble_floor {q : ℚ} (double : IsDouble q) : nearestDouble ⌊q⌋.toNat = ⌊q⌋.toNat := by
  obtain ⟨m,e,rfl,short⟩ := double
  rcases Int.le_total 0 e with whole | part
  · obtain ⟨e,rfl⟩ := Int.eq_ofNat_of_zero_le whole
    have cast : (m : ℚ) * 2 ^ (e : Int) = ((m * 2 ^ e : Int) : ℚ) := by
      rw [zpow_natCast]
      push_cast
      rfl
    rw [cast,Int.floor_intCast]
    rcases Int.le_total 0 m with nonneg | neg
    · obtain ⟨m,rfl⟩ := Int.eq_ofNat_of_zero_le nonneg
      rw [show ((m : Int) * 2 ^ e).toNat = m * 2 ^ e from Int.toNat_natCast (m * 2 ^ e)]
      exact nearestDouble_exact short
    · rw [Int.toNat_of_nonpos (mul_nonpos_of_nonpos_of_nonneg neg (by positivity))]
      rfl
  · refine nearestDouble_small (le_trans ?_ short.le)
    have bound : ⌊(m : ℚ) * 2 ^ e⌋ ≤ (m.natAbs : Int) := by
      have scaled : (m : ℚ) * 2 ^ e ≤ (m.natAbs : Int) := by
        have magnitude : (m : ℚ) ≤ (m.natAbs : Int) := by exact_mod_cast Int.le_natAbs
        calc (m : ℚ) * 2 ^ e
            ≤ (m.natAbs : Int) * 2 ^ e := mul_le_mul_of_nonneg_right magnitude (by positivity)
          _ ≤ (m.natAbs : Int) := mul_le_of_le_one_right (by positivity) (zpow_le_one_of_nonpos₀ one_le_two part)
      have floored := Int.floor_le_floor scaled
      rwa [Int.floor_intCast] at floored
    omega

theorem addDouble_some {dest new : UInt64} {inc : ℚ} (added : addDouble dest inc = some new) :
    nearestDouble new.toNat = new.toNat ∧ nearestDouble dest.toNat ≤ new.toNat := by
  unfold addDouble at added
  dsimp only at added
  split at added
  · next fits =>
    obtain ⟨-,small,climbs⟩ := fits
    have exact := nearestDouble_floor (roundDouble_isDouble (nearestDouble dest.toNat + inc))
    have floor : ⌊roundDouble (nearestDouble dest.toNat + inc)⌋ < 2 ^ 64 := by
      rw [Int.floor_lt]
      exact_mod_cast small
    rw [exact] at climbs
    rw [← Option.some.inj added,UInt64.toNat_ofNat_of_lt' (show _ < 2 ^ 64 by omega)]
    exact ⟨exact,climbs⟩
  · cases added

def toolSquares : Squares UInt64 where
  zero := 0
  add dest token := addDouble dest (strtod token)
  rank n := 2 * nearestDouble n.toNat + if nearestDouble n.toNat = n.toNat then 1 else 0
  climbs := by
    intro old token new added different
    obtain ⟨double,climbs⟩ := addDouble_some added
    rw [double,if_pos rfl]
    split
    · next same =>
      have apart : new.toNat ≠ old.toNat := fun equal => different (UInt64.toNat_inj.mp equal)
      omega
    · omega

/-- The squares of the helper. Its `strtod` is that of the library, which reads the double nearest
to a token of digits. -/
def helperSquares : Squares Nat where
  zero := 0
  add dest token :=
    let sum := nearestDouble (dest + nearestDouble (Nat.ofDigitChars 10 (token.takeWhile Char.isDigit) 0))
    if dest ≤ sum then some sum else none
  rank := id
  climbs := by
    intro old token new added different
    dsimp only at added
    split at added
    · next climbs =>
      cases added
      exact lt_of_le_of_ne climbs different.symm
    · cases added

def readSquare (n : UInt64) : Nat := (decimal n.toNat).foldl nextDigit 0

theorem nextDigit_double (n : Nat) (digit : Char) : nearestDouble (nextDigit n digit) = nextDigit n digit := by
  obtain ⟨m,e,form,short⟩ := nearestDouble_form (nearestDouble (10 * n) + digitValue digit)
  rw [nextDigit,form]
  exact nearestDouble_exact short

theorem readSquare_double (n : UInt64) : nearestDouble (readSquare n) = readSquare n := by
  suffices folded : ∀ (digits : Str) (start : Nat), nearestDouble start = start →
      nearestDouble (digits.foldl nextDigit start) = digits.foldl nextDigit start from folded _ _ rfl
  intro digits
  induction digits with
  | nil => exact fun _ double => double
  | cons digit digits ih => exact fun start _ => ih _ (nextDigit_double start digit)

theorem isDouble_nearest {n : Nat} (double : nearestDouble n = n) : IsDouble n := by
  obtain ⟨m,e,form,short⟩ := nearestDouble_form n
  refine ⟨m,e,?_,by rwa [Int.natAbs_natCast]⟩
  rw [← double,form,zpow_natCast]
  push_cast
  rfl

theorem strtod_decimal (n : UInt64) : strtod (decimal n.toNat) = readSquare n := by
  obtain ⟨digit,digits,shape⟩ := decimal_cons n.toNat
  have first : digit.isDigit = true := decimal_digits digit (by rw [shape]; exact List.mem_cons_self)
  obtain ⟨space,plus⟩ := digit_not_space first
  have unspaced : (decimal n.toNat).dropWhile isSpace = decimal n.toNat := by
    rw [shape,List.dropWhile_cons_of_neg (by rw [space]; exact Bool.false_ne_true)]
  have minus : ¬(decimal n.toNat).head? = some '-' := by
    rw [shape,List.head?_cons]
    rintro ⟨⟩
    exact absurd first (by decide)
  have unsigned : ¬((decimal n.toNat).head? = some '-' ∨ (decimal n.toNat).head? = some '+') := by
    refine not_or.mpr ⟨minus,?_⟩
    rw [shape,List.head?_cons]
    exact fun same => plus (Option.some.inj same)
  have taken : (decimal n.toNat).takeWhile Char.isDigit = decimal n.toNat := List.takeWhile_eq_self_iff.mpr decimal_digits
  have rest : (decimal n.toNat).dropWhile Char.isDigit = [] := List.dropWhile_eq_nil_iff.mpr decimal_digits
  have point : ¬([] : Str).head? = some '.' := by rintro ⟨⟩
  unfold strtod
  dsimp only
  rw [unspaced,if_neg unsigned,taken,rest,if_neg point,if_neg minus,add_zero]
  exact roundDouble_exact (isDouble_nearest (readSquare_double n))

theorem toolSquares_first {n : UInt64} (small : readSquare n < 2 ^ 64) :
    toolSquares.add toolSquares.zero (decimal n.toNat) = some (UInt64.ofNat (readSquare n)) := by
  have sum : roundDouble ((nearestDouble (0 : UInt64).toNat : Nat) + strtod (decimal n.toNat)) = readSquare n := by
    have zero : nearestDouble (0 : UInt64).toNat = 0 := rfl
    rw [zero,strtod_decimal,Nat.cast_zero,zero_add]
    exact roundDouble_exact (isDouble_nearest (readSquare_double n))
  have floor : ⌊(readSquare n : ℚ)⌋.toNat = readSquare n := by
    rw [Int.floor_natCast]
    rfl
  show addDouble 0 (strtod (decimal n.toNat)) = _
  unfold addDouble
  dsimp only
  rw [sum,floor]
  exact if_pos ⟨lt_of_lt_of_le neg_one_lt_zero (Nat.cast_nonneg _),by exact_mod_cast small,Nat.zero_le _⟩

end Aprof

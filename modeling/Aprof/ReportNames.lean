import Aprof.Lines
import Aprof.Runtime
import Mathlib.Data.List.TakeWhile

/-! The names of reports: `report_name` writes process, thread and resolution into
them, and three scanners read them back from the end. -/
namespace Aprof

/-- What `report_name` is called with; the thread counts from 1. -/
structure Naming where
  progName : Str
  pid : Fin (2 ^ 31)
  tid : UInt32
  attempt : UInt32

def Naming.threadField (naming : Naming) : UInt32 :=
  naming.tid - 1 + if naming.attempt > 0 then naming.attempt + 1024 else naming.attempt

def decimal (n : Nat) : Str := Nat.toDigits 10 n

/-- `report_name`. -/
def reportName (cfg : Config) (naming : Naming) : Str :=
  basename naming.progName ++ '_' :: (decimal naming.pid ++ '_' :: (decimal naming.threadField.toNat ++
    '_' :: (decimal cfg.memoryResolution ++ ".aprof".toList)))

/-- The tests that skip ".aprof". For the scanners a pointer `p` into the name is the text up to it, read
backwards. -/
def skipSuffix : Str → Option Str
  | 'f' :: 'o' :: 'r' :: 'p' :: 'a' :: '.' :: p => if 1 < p.length then some p else none
  | _ => none

/-- `while (p > rep && *p != '_') p--`. -/
def skipField : Str → Str
  | [] => []
  | [char] => [char]
  | char :: next :: p => if char = '_' then char :: next :: p else skipField (next :: p)

/-- `get_tid_report`: after `p--` comes `p++`, so the number is read from the '_'. -/
def getTidReport (report : Str) : UInt32 :=
  let rep := basename report
  match skipSuffix rep.reverse with
  | none => -1
  | some p =>
    let p := skipField p
    if p.length ≤ 1 then -1
    else
      let p := skipField p.tail
      if p.length ≤ 1 then -1
      else (strtoull10 (rep.drop (p.length - 1))).1.toUInt32

/-- `get_pid_report`. -/
def getPidReport (report : Str) : UInt32 :=
  let rep := basename report
  match skipSuffix rep.reverse with
  | none => -1
  | some p =>
    let p := skipField p
    if p.length ≤ 1 then -1
    else
      let p := skipField p.tail
      if p.length ≤ 1 then -1
      else
        let p := p.tail.dropWhile (· != '_')
        (strtoull10 (rep.drop p.length)).1.toUInt32

/-- The test of `merge_by_run` that makes a report a candidate for the current group. -/
def mergeCandidate (mergeAll mergeThreads : Bool) (curr report : Str) : Bool :=
  mergeAll || (getPidReport curr != getPidReport report &&
    (mergeThreads || getTidReport curr == getTidReport report))

theorem digits_foldl (digits : Str) (n : Nat) :
    digits.foldl (fun (n : UInt64) digit => 10 * n + (digit.toNat - '0'.toNat).toUInt64) (UInt64.ofNat n) =
      UInt64.ofNat (Nat.ofDigitChars 10 digits n) := by
  induction digits generalizing n with
  | nil => rfl
  | cons digit digits ih =>
    rw [List.foldl_cons,Nat.ofDigitChars_cons,← ih,UInt64.ofNat_add,UInt64.ofNat_mul]
    rfl

theorem digit_not_space {char : Char} (digit : char.isDigit = true) : isSpace char = false ∧ char ≠ '+' := by
  have small : 48 ≤ char.toNat ∧ char.toNat ≤ 57 := by
    simpa [Char.isDigit,UInt32.le_iff_toNat_le] using digit
  have apart : ∀ other : Char, other.toNat < 48 → char ≠ other := by
    rintro other below rfl
    omega
  refine ⟨?_,apart '+' (by decide)⟩
  rw [isSpace,decide_eq_false_iff_not]
  intro member
  simp only [List.mem_cons,List.not_mem_nil,or_false] at member
  rcases member with same | same | same | same | same | same <;> exact apart _ (by decide) same

theorem decimal_digits {n : Nat} : ∀ char ∈ decimal n, char.isDigit = true := fun _ member =>
  Nat.isDigit_of_mem_toDigits (by decide) (by decide) member

theorem decimal_cons (n : Nat) : ∃ digit digits, decimal n = digit :: digits := by
  cases shape : decimal n with
  | nil => exact absurd shape Nat.toDigits_ne_nil
  | cons digit digits => exact ⟨digit,digits,rfl⟩

theorem strtoull10_decimal (n : Nat) (rest : Str) (ends : ∀ char ∈ rest.head?, char.isDigit = false) :
    strtoull10 (decimal n ++ rest) = (UInt64.ofNat n,true) := by
  obtain ⟨digit,digits,shape⟩ := decimal_cons n
  have first := decimal_digits (n := n) digit (by rw [shape]; exact List.mem_cons_self)
  obtain ⟨space,plus⟩ := digit_not_space first
  have unspaced : (decimal n ++ rest).dropWhile isSpace = decimal n ++ rest := by
    rw [shape,List.cons_append,List.dropWhile_cons_of_neg (by rw [space]; exact Bool.false_ne_true)]
  have unsigned : ¬(decimal n ++ rest).head? = some '+' := by
    rw [shape,List.cons_append,List.head?_cons]
    exact fun same => plus (Option.some.inj same)
  have taken : (decimal n ++ rest).takeWhile Char.isDigit = decimal n := by
    rw [List.takeWhile_append_of_pos decimal_digits]
    cases rest with
    | nil => rw [List.takeWhile_nil,List.append_nil]
    | cons char rest =>
      rw [List.takeWhile_cons_of_neg (by rw [ends char rfl]; exact Bool.false_ne_true),List.append_nil]
  unfold strtoull10
  dsimp only
  rw [unspaced,if_neg unsigned,taken]
  refine Prod.ext ?_ ?_
  · refine (digits_foldl (decimal n) 0).trans ?_
    rw [decimal,Nat.ofDigitChars_ten_toDigits]
  · rw [shape]
    rfl

theorem strtoull10_underscore (rest : Str) : strtoull10 ('_' :: rest) = (0,false) := rfl

theorem decimal_plain (n : Nat) : '_' ∉ decimal n := Nat.underscore_not_in_toDigits

theorem skipField_skips {field : Str} (plain : '_' ∉ field) (char : Char) (p : Str) :
    skipField (field ++ '_' :: char :: p) = '_' :: char :: p := by
  induction field with
  | nil => rfl
  | cons first field ih =>
    rw [List.mem_cons,not_or] at plain
    have other : first ≠ '_' := fun same => plain.1 same.symm
    cases field with
    | nil =>
      rw [List.singleton_append,skipField,if_neg other]
      rfl
    | cons second field =>
      rw [List.cons_append,List.cons_append,skipField,if_neg other]
      exact ih plain.2

theorem reportName_reverse (cfg : Config) (naming : Naming) : (reportName cfg naming).reverse =
    'f' :: 'o' :: 'r' :: 'p' :: 'a' :: '.' :: ((decimal cfg.memoryResolution).reverse ++ '_' ::
      ((decimal naming.threadField.toNat).reverse ++ '_' :: ((decimal naming.pid).reverse ++ '_' ::
        (basename naming.progName).reverse))) := by
  simp only [reportName,List.reverse_append,List.reverse_cons,List.append_assoc,List.cons_append,List.nil_append]
  rfl

theorem basename_reportName (cfg : Config) (naming : Naming) :
    basename (reportName cfg naming) = reportName cfg naming := by
  have digits : ∀ n, ∀ char ∈ decimal n, char ≠ '/' := by
    rintro n char member rfl
    exact absurd (decimal_digits '/' member) (by decide)
  have plain : ∀ char ∈ reportName cfg naming, (char != '/') = true := by
    intro char member
    rw [bne_iff_ne]
    simp only [reportName,List.mem_append,List.mem_cons] at member
    rcases member with prog | rfl | pid | rfl | tid | rfl | resolution | suffix
    · rw [basename,List.mem_reverse] at prog
      exact bne_iff_ne.mp (List.mem_takeWhile_imp (p := (· != '/')) prog)
    · decide
    · exact digits _ char pid
    · decide
    · exact digits _ char tid
    · decide
    · exact digits _ char resolution
    · rintro rfl
      exact absurd suffix (by decide)
  unfold basename
  rw [List.takeWhile_eq_self_iff.mpr fun char member => plain char (List.mem_reverse.mp member),List.reverse_reverse]

theorem decimal_reverse_cons (n : Nat) : ∃ digit digits, (decimal n).reverse = digit :: digits := by
  cases shape : (decimal n).reverse with
  | nil =>
    rw [List.reverse_eq_nil_iff] at shape
    exact absurd shape Nat.toDigits_ne_nil
  | cons digit digits => exact ⟨digit,digits,rfl⟩

theorem skipSuffix_reportName (cfg : Config) (naming : Naming) : skipSuffix (reportName cfg naming).reverse =
    some ((decimal cfg.memoryResolution).reverse ++ '_' :: ((decimal naming.threadField.toNat).reverse ++ '_' ::
      ((decimal naming.pid).reverse ++ '_' :: (basename naming.progName).reverse))) := by
  rw [reportName_reverse,skipSuffix,if_pos]
  rw [List.length_append,List.length_cons,List.length_append,List.length_cons]
  omega

/-- `p` after the resolution and after the thread. -/
theorem skipField_decimal (n m : Nat) (p : Str) :
    skipField ((decimal n).reverse ++ '_' :: ((decimal m).reverse ++ p)) = '_' :: ((decimal m).reverse ++ p) := by
  obtain ⟨digit,digits,shape⟩ := decimal_reverse_cons m
  have plain : '_' ∉ (decimal n).reverse := by
    rw [List.mem_reverse]
    exact decimal_plain n
  rw [shape,List.cons_append]
  exact skipField_skips plain digit _

theorem drop_of_reverse (report p before : Str) (same : report.reverse = before ++ p) :
    report.drop p.length = before.reverse := by
  rw [← List.reverse_reverse report,same,List.reverse_append]
  exact List.drop_left' List.length_reverse

theorem getTidReport_zero (cfg : Config) (naming : Naming) : getTidReport (reportName cfg naming) = 0 := by
  unfold getTidReport
  dsimp only
  rw [basename_reportName,skipSuffix_reportName]
  dsimp only
  rw [skipField_decimal,if_neg (by simp only [List.length_cons,List.length_append]; omega),List.tail_cons,
    skipField_decimal,if_neg (by simp only [List.length_cons,List.length_append]; omega),List.length_cons,
    Nat.add_sub_cancel]
  have rest := drop_of_reverse (reportName cfg naming) ((decimal naming.pid).reverse ++ '_' ::
    (basename naming.progName).reverse) ('f' :: 'o' :: 'r' :: 'p' :: 'a' :: '.' ::
      ((decimal cfg.memoryResolution).reverse ++ '_' :: ((decimal naming.threadField.toNat).reverse ++ ['_'])))
    (by rw [reportName_reverse]; simp only [List.cons_append,List.append_assoc,List.nil_append])
  rw [rest]
  simp only [List.reverse_cons,List.reverse_append,List.reverse_nil,List.nil_append,List.append_assoc,List.cons_append]
  rw [strtoull10_underscore]
  rfl

theorem getPidReport_pid (cfg : Config) (naming : Naming) :
    getPidReport (reportName cfg naming) = UInt32.ofNat naming.pid := by
  unfold getPidReport
  dsimp only
  rw [basename_reportName,skipSuffix_reportName]
  dsimp only
  rw [skipField_decimal,if_neg (by simp only [List.length_cons,List.length_append]; omega),List.tail_cons,
    skipField_decimal,if_neg (by simp only [List.length_cons,List.length_append]; omega),List.tail_cons]
  have plain : ∀ char ∈ (decimal naming.pid).reverse, (char != '_') = true := by
    rintro char member
    rw [bne_iff_ne]
    rintro rfl
    exact decimal_plain _ (List.mem_reverse.mp member)
  rw [List.dropWhile_append_of_pos plain,List.dropWhile_cons_of_neg (by decide)]
  have rest := drop_of_reverse (reportName cfg naming) ('_' :: (basename naming.progName).reverse)
    ('f' :: 'o' :: 'r' :: 'p' :: 'a' :: '.' :: ((decimal cfg.memoryResolution).reverse ++ '_' ::
      ((decimal naming.threadField.toNat).reverse ++ '_' :: (decimal naming.pid).reverse)))
    (by rw [reportName_reverse]; simp only [List.cons_append,List.append_assoc])
  rw [rest]
  simp only [List.reverse_cons,List.reverse_append,List.reverse_reverse,List.append_assoc,List.cons_append,
    List.nil_append]
  rw [strtoull10_decimal _ _ (by rintro char ⟨⟩; rfl)]
  exact UInt64.toUInt32_ofNat' _

theorem memoryResolutionReport_suffix {report name : Str}
    (same : (basename report).reverse = 'f' :: 'o' :: 'r' :: 'p' :: 'a' :: '.' :: name) :
    memoryResolutionReport report =
      if '_' ∈ name.dropLast then (strtoull10 (name.takeWhile (· != '_')).reverse).1.toUInt32 else -1 := by
  unfold memoryResolutionReport
  rw [same]
  split
  · next name' same =>
    cases same
    rfl
  · next other => exact absurd rfl (other name)

theorem memoryResolutionReport_resolution (cfg : Config) (naming : Naming) :
    memoryResolutionReport (reportName cfg naming) = UInt32.ofNat cfg.memoryResolution := by
  have plain : ∀ char ∈ (decimal cfg.memoryResolution).reverse, (char != '_') = true := by
    rintro char member
    rw [bne_iff_ne]
    rintro rfl
    exact decimal_plain _ (List.mem_reverse.mp member)
  obtain ⟨digit,digits,shape⟩ := decimal_reverse_cons naming.threadField.toNat
  rw [memoryResolutionReport_suffix ((congrArg List.reverse (basename_reportName cfg naming)).trans
    (reportName_reverse cfg naming)),List.takeWhile_append_of_pos plain,List.takeWhile_cons_of_neg (by decide),
    List.append_nil,List.reverse_reverse,if_pos]
  · rw [← List.append_nil (decimal cfg.memoryResolution),strtoull10_decimal _ _ (by rintro char ⟨⟩)]
    exact UInt64.toUInt32_ofNat' _
  · rw [shape,List.cons_append,List.dropLast_append_cons,List.mem_append,List.dropLast_cons_cons]
    exact .inr List.mem_cons_self

/-- The three scanners read back what a report was named with. -/
def Decodes (cfg : Config) (naming : Naming) : Prop :=
  getPidReport (reportName cfg naming) = UInt32.ofNat naming.pid ∧
    getTidReport (reportName cfg naming) = naming.threadField ∧
    memoryResolutionReport (reportName cfg naming) = UInt32.ofNat cfg.memoryResolution

/-- Names are decoded, and reports of different threads kept apart, exactly when
the thread fields are zero. -/
theorem names_decoded_iff (cfg cfg' : Config) (first second : Naming) :
    (Decodes cfg first ∧ Decodes cfg' second ∧
      (mergeCandidate false false (reportName cfg first) (reportName cfg' second) = true →
        first.threadField = second.threadField)) ↔ first.threadField = 0 ∧ second.threadField = 0 := by
  have decodes : ∀ cfg naming, Decodes cfg naming ↔ naming.threadField = 0 := by
    intro cfg naming
    unfold Decodes
    rw [getPidReport_pid,getTidReport_zero,memoryResolutionReport_resolution]
    exact ⟨fun decoded => decoded.2.1.symm,fun zero => ⟨rfl,zero.symm,rfl⟩⟩
  rw [decodes,decodes]
  constructor
  · rintro ⟨first,second,-⟩
    exact ⟨first,second⟩
  · rintro ⟨first,second⟩
    exact ⟨first,second,fun _ => first.trans second.symm⟩

/-- The second thread of one process and the first one of another. -/
theorem threads_merged : ¬ Decodes (smallConfig .drms) ⟨"ls_2".toList,7,2,0⟩ ∧
    mergeCandidate false false (reportName (smallConfig .drms) ⟨"ls_2".toList,7,2,0⟩)
      (reportName (smallConfig .drms) ⟨"ls_2".toList,8,1,0⟩) = true ∧
    Naming.threadField ⟨"ls_2".toList,7,2,0⟩ ≠ Naming.threadField ⟨"ls_2".toList,8,1,0⟩ := by
  refine ⟨?_,?_,by decide⟩
  · rintro ⟨-,decoded,-⟩
    rw [getTidReport_zero] at decoded
    exact absurd decoded (by decide)
  · rw [mergeCandidate,getPidReport_pid,getPidReport_pid,getTidReport_zero,getTidReport_zero]
    decide

end Aprof

import Aprof.PyPlot.ReadLines
import Aprof.ReportText

/-! The words of the lines that `print_report` writes. -/
namespace Aprof.PyPlot

theorem int_decimal (n : Nat) : int (decimal n) = .ok (n : Int) := by
  obtain ⟨digit,digits,shape⟩ := decimal_cons n
  have all : (digit :: digits).all Char.isDigit = true := by
    rw [← shape,List.all_eq_true]
    exact decimal_digits
  have first : digit.isDigit = true := decimal_digits (n := n) digit (shape ▸ List.mem_cons_self)
  have value : digitsValue (decimal n) = .ok n := by
    rw [digitsValue,shape,if_pos ⟨List.cons_ne_nil _ _,all⟩,← shape,decimal,Nat.ofDigitChars_ten_toDigits]
  rw [shape] at value ⊢
  unfold int
  split
  · next same =>
    cases same
    exact absurd first (by decide)
  · next same =>
    cases same
    exact absurd first (by decide)
  · rw [value]
    rfl

theorem int_decimals (numbers : List UInt64) :
    (numbers.map fun n => decimal n.toNat).mapM int = .ok (numbers.map fun n => (n.toNat : Int)) := by
  induction numbers with
  | nil => rfl
  | cons n numbers ih =>
    rw [List.map_cons,List.mapM_cons,int_decimal,ih]
    rfl

theorem unspaced_of_all {text : Str} (all : (text.all fun char => !isSpace char) = true) : ∀ char ∈ text, isSpace char = false := by
  simpa using all

theorem split_cons {word : Str} (rest : Str) (nonempty : word ≠ []) (plain : ∀ char ∈ word, isSpace char = false) :
    split (word ++ ' ' :: rest) = word :: split rest := words_cons rest nonempty plain rfl

theorem split_numbers (numbers : List UInt64) {word : Str} (nonempty : word ≠ []) (plain : ∀ char ∈ word, isSpace char = false) :
    split (word ++ numbers.flatMap fun n => ' ' :: decimal n.toNat) = word :: numbers.map fun n => decimal n.toNat := by
  induction numbers generalizing word with
  | nil =>
    rw [List.flatMap_nil,List.append_nil]
    exact words_word nonempty plain
  | cons n numbers ih =>
    rw [List.flatMap_cons,List.cons_append,split_cons _ nonempty plain,ih (decimal_word n.toNat).1 (decimal_word n.toNat).2]
    rfl

def pieces (lines : List Str) : List Str := lines.flatMap (List.splitOn '\n')

theorem pieces_append (lines more : List Str) : pieces (lines ++ more) = pieces lines ++ pieces more := List.flatMap_append ..

theorem split_letter {letter : Char} (plain : isSpace letter = false) (rest : Str) :
    split (letter :: ' ' :: rest) = [letter] :: split rest :=
  split_cons rest (List.cons_ne_nil letter []) fun _ inside => List.mem_singleton.mp inside ▸ plain

section
variable {cfg : Config} {routine : PrintedRoutine}

theorem tupleLine_words (plain : cfg.collectCCT = false) (tuple : Input UInt64) : split (routine.tupleLine cfg tuple) =
    ['p'] :: decimal routine.routineId.toNat :: (PrintedRoutine.tupleNumbers cfg tuple).map fun n => decimal n.toNat := by
  have shape : routine.tupleLine cfg tuple = 'p' :: ' ' :: (decimal routine.routineId.toNat ++
      (PrintedRoutine.tupleNumbers cfg tuple).flatMap fun n => ' ' :: decimal n.toNat) := by
    rw [PrintedRoutine.tupleLine,if_neg (by rw [plain]; exact Bool.false_ne_true)]
    rfl
  rw [shape,split_letter rfl,split_numbers _ (decimal_word _).1 (decimal_word _).2]

theorem tupleLine_plain (plain : cfg.collectCCT = false) (tuple : Input UInt64) : '\n' ∉ routine.tupleLine cfg tuple := by
  rw [PrintedRoutine.tupleLine,if_neg (by rw [plain]; exact Bool.false_ne_true)]
  intro inside
  rcases List.mem_append.mp inside with front | numbers
  · rcases List.mem_append.mp front with letter | digits
    · exact absurd letter (by decide)
    · exact newline_digits _ digits
  · obtain ⟨n,-,member⟩ := List.mem_flatMap.mp numbers
    rcases List.mem_cons.mp member with space | digits
    · exact absurd space (by decide)
    · exact newline_digits _ digits

theorem pieces_tuples (plain : cfg.collectCCT = false) (tuples : List (Input UInt64)) :
    pieces (tuples.map (routine.tupleLine cfg)) = tuples.map (routine.tupleLine cfg) := by
  induction tuples with
  | nil => rfl
  | cons tuple tuples ih =>
    rw [List.map_cons,pieces,List.flatMap_cons,List.splitOn_eq_singleton (tupleLine_plain plain tuple)]
    exact congrArg (List.cons _) ih

theorem noisy_tuples (plain : cfg.collectCCT = false) (tuples : List (Input UInt64)) :
    noisyLines (pieces (tuples.map (routine.tupleLine cfg))) = tuples.length := by
  rw [pieces_tuples plain,noisyLines,List.countP_eq_length.mpr,List.length_map]
  intro line member
  obtain ⟨tuple,-,rfl⟩ := List.mem_map.mp member
  rw [tupleLine_words plain]
  rfl

end

section
variable {cfg : Config} {routine : PrintedRoutine}

/-- The first line of an `r` line -/
theorem routineLine_first (routine : PrintedRoutine) : ∃ rest, split (firstPiece '\n' routine.routineLine) = ['r'] :: rest := by
  refine ⟨split (firstPiece '\n' ('"' :: (routine.fn.name ++ "\" \"".toList ++ routine.objectText))),?_⟩
  have shape : routine.routineLine = "r ".toList ++ '"' :: (routine.fn.name ++ "\" \"".toList ++ routine.objectText) := by
    rw [PrintedRoutine.routineLine,List.append_assoc,List.append_assoc,List.append_assoc]
    rfl
  rw [shape,(splitOn_prefixed (by decide) _).1]
  exact split_letter rfl _

theorem quiet_letter {letter : Char} {rest : List Str} (other : letter ∉ ['v','m','e','k','f','r','p']) :
    Quiet ([letter] :: rest) := by
  simp only [List.mem_cons,List.not_mem_nil,or_false,not_or] at other
  refine quiet_cons (by simp [other]) (fun header => ?_) (fun same => ?_)
  · simp [other] at header
  · simp [other] at same

/-- A `u` line is quiet, and so are its further lines when those of the name are. -/
theorem mangledLine_pieces (routine : PrintedRoutine) (mangled : Str) :
    Quiet (split (firstPiece '\n' (routine.mangledLine mangled))) ∧
      otherPieces '\n' (routine.mangledLine mangled) = otherPieces '\n' (mangled ++ ['"']) := by
  constructor
  · have shape : routine.mangledLine mangled = "u ".toList ++ (decimal routine.routineId.toNat ++ " \"".toList ++ mangled ++ ['"']) := by
      rw [PrintedRoutine.mangledLine,List.append_assoc,List.append_assoc,List.append_assoc,List.append_assoc,List.append_assoc]
      rfl
    rw [shape,(splitOn_prefixed (by decide) _).1]
    show Quiet (split ('u' :: ' ' :: _))
    rw [split_letter rfl]
    exact quiet_letter (by decide)
  · have front : '\n' ∉ "u ".toList ++ decimal routine.routineId.toNat ++ " \"".toList := by
      intro inside
      rcases List.mem_append.mp inside with inside | quote
      · rcases List.mem_append.mp inside with letter | digits
        · exact absurd letter (by decide)
        · exact newline_digits _ digits
      · exact absurd quote (by decide)
    rw [PrintedRoutine.mangledLine,List.append_assoc _ mangled]
    exact (splitOn_prefixed front _).2

theorem quietLines_plain {text : Str} (plain : '\n' ∉ text) : QuietLines text := by
  intro line member
  rw [(splitOn_plain plain).2] at member
  exact absurd member List.not_mem_nil

theorem quiet_text {letter : Char} (plain : isSpace letter = false) (rest : Str) :
    (∀ line ∈ pieces [letter :: ' ' :: rest], Quiet (split line)) ↔
      Quiet ([letter] :: split (firstPiece '\n' rest)) ∧ QuietLines rest := by
  have front : '\n' ∉ [letter,' '] := by
    intro inside
    rcases List.mem_cons.mp inside with same | inside
    · rw [← same] at plain
      exact absurd plain (by decide)
    · exact absurd inside (by decide)
  obtain ⟨first,others⟩ := splitOn_prefixed front rest
  have split_pieces : pieces [letter :: ' ' :: rest] = (letter :: ' ' :: firstPiece '\n' rest) :: otherPieces '\n' rest := by
    rw [pieces,List.flatMap_singleton]
    exact (splitOn_pieces '\n' _).trans (congr (congrArg List.cons first) others)
  rw [split_pieces,List.forall_mem_cons,split_letter plain]
  exact Iff.rfl

theorem quiet_plain {letter : Char} (other : letter ∉ ['v','m','e','k','f','r','p']) (plain : isSpace letter = false) {rest : Str}
    (single : '\n' ∉ rest) : ∀ line ∈ pieces [letter :: ' ' :: rest], Quiet (split line) :=
  (quiet_text plain rest).mpr ⟨quiet_letter other,quietLines_plain single⟩

theorem quiet_value {letter : Char} (apart : letter ≠ 'r' ∧ letter ≠ 'p') (plain : isSpace letter = false) {word : Str}
    (nonempty : word ≠ []) (unspaced : ∀ char ∈ word, isSpace char = false) (counted : letter = 'k' → ∃ n, int word = .ok n) :
    ∀ line ∈ pieces [letter :: ' ' :: word], Quiet (split line) := by
  have single : '\n' ∉ word := fun inside => absurd (unspaced _ inside) (by decide)
  refine (quiet_text plain word).mpr ⟨?_,quietLines_plain single⟩
  rw [(splitOn_plain single).1,show split word = [word] from words_word nonempty unspaced]
  refine quiet_cons (by simp [apart]) (fun _ => List.cons_ne_nil _ _) fun same => ?_
  obtain ⟨n,read⟩ := counted (List.cons.inj same).1
  exact ⟨n,read⟩

theorem header_quiet (cfg : Config) (r : ReportRuntime) (cost : UInt64) :
    (∀ line ∈ pieces (headerLines cfg r cost), Quiet (split line)) ↔
      QuietLines r.application ∧ split (firstPiece '\n' r.cmdLine) ≠ [] ∧ QuietLines r.cmdLine := by
  have each (text next : Str) (texts : List Str) : (∀ line ∈ pieces (text :: next :: texts), Quiet (split line)) ↔
      (∀ line ∈ pieces [text], Quiet (split line)) ∧ ∀ line ∈ pieces (next :: texts), Quiet (split line) := by
    rw [← List.singleton_append,pieces_append,List.forall_mem_append]
  have number (n : Nat) : ∃ value, int (decimal n) = .ok value := ⟨_,int_decimal n⟩
  have title : Quiet (['f'] :: split (firstPiece '\n' r.cmdLine)) ↔ split (firstPiece '\n' r.cmdLine) ≠ [] := by
    constructor
    · rintro ⟨-,worded,-⟩ empty
      rw [empty] at worded
      exact absurd (worded ['f'] rfl (by decide)) (by simp)
    · exact fun more => quiet_cons (by decide) (fun _ => more) (fun same => absurd same (by decide))
  unfold headerLines
  rw [each,each,each,each,each,each,each,each,each,each]
  constructor
  · rintro ⟨-,-,-,-,-,-,-,-,-,application,command⟩
    obtain ⟨first,further⟩ := (@quiet_text 'f' rfl r.cmdLine).mp command
    exact ⟨((@quiet_text 'a' rfl r.application).mp application).2,title.mp first,further⟩
  · rintro ⟨application,first,further⟩
    have comment (text : Str) (single : '\n' ∉ text) := @quiet_plain 'c' (by decide) rfl text single
    have metric : ∀ line ∈ pieces [if cfg.inputMetric = .rms then "i rms".toList else "i drms".toList], Quiet (split line) := by
      split
      · exact @quiet_plain 'i' (by decide) rfl "rms".toList (by decide)
      · exact @quiet_plain 'i' (by decide) rfl "drms".toList (by decide)
    refine ⟨comment _ (by decide),comment _ (by decide),comment _ (by decide),?_,?_,?_,?_,metric,?_,?_,?_⟩
    · exact @quiet_value 'v' (by decide) rfl ['6'] (by decide) (unspaced_of_all rfl) (fun same => absurd same (by decide))
    · exact @quiet_value 'k' (by decide) rfl _ (decimal_word _).1 (decimal_word _).2 (fun _ => number _)
    · exact @quiet_value 'e' (by decide) rfl _ (decimal_word _).1 (decimal_word _).2 (fun same => absurd same (by decide))
    · exact @quiet_value 'm' (by decide) rfl "bb-count".toList (by decide) (unspaced_of_all rfl)
        (fun same => absurd same (by decide))
    · exact @quiet_plain 't' (by decide) rfl _ (newline_digits _)
    · exact (@quiet_text 'a' rfl r.application).mpr ⟨quiet_letter (by decide),application⟩
    · exact (@quiet_text 'f' rfl r.cmdLine).mpr ⟨title.mpr first,further⟩

/-- The further lines of the names of a routine are quiet. -/
structure QuietRoutine (routine : PrintedRoutine) : Prop where
  names : QuietLines routine.routineLine
  mangled : ∀ mangled ∈ routine.fn.mangled, QuietLines (mangled ++ ['"'])

theorem mangled_quiet (routine : PrintedRoutine) :
    (∀ line ∈ pieces (routine.fn.mangled.toList.map routine.mangledLine), Quiet (split line)) ↔
      ∀ mangled ∈ routine.fn.mangled, QuietLines (mangled ++ ['"']) := by
  cases routine.fn.mangled with
  | none => simp [pieces]
  | some mangled =>
    obtain ⟨first,others⟩ := mangledLine_pieces routine mangled
    have split : pieces ((some mangled).toList.map routine.mangledLine) =
        firstPiece '\n' (routine.mangledLine mangled) :: otherPieces '\n' (mangled ++ ['"']) := by
      rw [← others,← splitOn_pieces]
      exact List.append_nil _
    rw [split,List.forall_mem_cons]
    constructor
    · rintro ⟨-,quiet⟩ _ ⟨⟩
      exact quiet
    · exact fun quiet => ⟨first,quiet mangled rfl⟩

theorem pieces_lines (cfg : Config) (routine : PrintedRoutine) : pieces (routine.lines cfg) =
    firstPiece '\n' routine.routineLine :: otherPieces '\n' routine.routineLine ++
      (pieces (routine.fn.mangled.toList.map routine.mangledLine) ++ pieces (routine.tuples.map (routine.tupleLine cfg))) := by
  rw [← splitOn_pieces,← pieces_append]
  exact List.flatMap_cons

theorem noisy_routine (plain : cfg.collectCCT = false) (routine : PrintedRoutine) : noisyLines (pieces (routine.lines cfg)) =
    1 + routine.tuples.length + (noisyLines (otherPieces '\n' routine.routineLine) +
      noisyLines (pieces (routine.fn.mangled.toList.map routine.mangledLine))) := by
  obtain ⟨rest,first⟩ := routineLine_first routine
  have loud : noisyLines (firstPiece '\n' routine.routineLine :: otherPieces '\n' routine.routineLine) =
      noisyLines (otherPieces '\n' routine.routineLine) + 1 := by
    rw [noisyLines,List.countP_cons,first]
    rfl
  rw [pieces_lines,noisyLines_append,noisyLines_append,noisy_tuples plain,loud]
  omega

end

end Aprof.PyPlot

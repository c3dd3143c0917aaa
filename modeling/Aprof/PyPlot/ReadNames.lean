import Aprof.PyPlot.PrintedLines

/-! Which names of a routine the loop of `main.py` reads as they were printed. -/
namespace Aprof.PyPlot

/-- The first word of a path with spaces has one more character than its base name, and the second is the id. -/
structure ReadByChance (routine : PrintedRoutine) (first second : Str) : Prop where
  path : ∃ blanks space rest, routine.objName = first ++ (blanks ++ (second ++ space :: rest)) ∧ blanks ≠ [] ∧
    (∀ char ∈ blanks, isSpace char = true ∧ char ≠ '\n') ∧ isSpace space = true
  unspaced : ∀ char ∈ first ++ second, isSpace char = false
  lib : (basename ('"' :: first)).dropLast = basename routine.objName
  id : int second = .ok (routine.routineId.toNat : Int)

/-- The path of the object has no spaces and a `/`; or it reads right by chance. -/
def LegibleObject (routine : PrintedRoutine) : Prop :=
  (∀ char ∈ routine.objName, isSpace char = false) ∧ '/' ∈ routine.objName ∨
  QuietLines routine.objectText ∧ ∃ first second, ReadByChance routine first second

theorem quoted_word {text : Str} (plain : ∀ char ∈ text, isSpace char = false) :
    quoted text ≠ [] ∧ ∀ char ∈ quoted text, isSpace char = false := by
  refine ⟨List.cons_ne_nil _ _,fun char inside => ?_⟩
  rcases List.mem_append.mp inside with inside | inside
  · rcases List.mem_cons.mp inside with rfl | inside
    · rfl
    · exact plain char inside
  · rw [List.mem_singleton.mp inside]
    rfl

/-- A quoted path keeps its closing quote and, without a `/`, also the opening one. -/
theorem basename_quoted (text : Str) : (basename (quoted text)).dropLast = basename text ↔ '/' ∈ text := by
  have reversed : (quoted text).reverse = '"' :: (text.reverse ++ ['"']) := by
    rw [quoted,List.reverse_append,@List.reverse_cons _ '"' text]
    rfl
  rw [basename,reversed,List.takeWhile_cons_of_pos (by decide)]
  by_cases slash : '/' ∈ text
  · have stops : (text.reverse.takeWhile (· != '/')).length ≠ text.reverse.length := by
      intro whole
      have same := (List.takeWhile_prefix (· != '/')).eq_of_length whole
      have passes := List.takeWhile_eq_self_iff.mp same '/' (List.mem_reverse.mpr slash)
      exact absurd passes (by decide)
    rw [List.takeWhile_append,if_neg stops,List.reverse_cons,List.dropLast_concat]
    exact iff_of_true rfl slash
  · have apart : ∀ char ∈ text.reverse, (char != '/') = true := by
      intro char inside
      exact bne_iff_ne.mpr fun same => slash (same ▸ List.mem_reverse.mp inside)
    rw [List.takeWhile_append_of_pos apart,basename,List.takeWhile_eq_self_iff.mpr apart,List.takeWhile_cons_of_pos (by decide),
      List.takeWhile_nil,List.reverse_cons,List.dropLast_concat,List.reverse_append,List.reverse_reverse]
    refine iff_of_false (fun same => ?_) slash
    have lengths := congrArg List.length same
    simp at lengths

theorem routineLine_named {routine : PrintedRoutine} (plain : ∀ char ∈ routine.fn.name, isSpace char = false) :
    split (firstPiece '\n' routine.routineLine) =
        ['r'] :: quoted routine.fn.name :: split (firstPiece '\n' ('"' :: routine.objectText)) ∧
      otherPieces '\n' routine.routineLine = otherPieces '\n' routine.objectText := by
  obtain ⟨nonempty,unspaced⟩ := quoted_word plain
  have shape : routine.routineLine = ("r ".toList ++ quoted routine.fn.name ++ " ".toList) ++ '"' :: routine.objectText := by
    simp [PrintedRoutine.routineLine,quoted]
  have front : '\n' ∉ "r ".toList ++ quoted routine.fn.name ++ " ".toList := by
    intro inside
    rcases List.mem_append.mp inside with inside | space
    · rcases List.mem_append.mp inside with letter | name
      · exact absurd letter (by decide)
      · exact absurd (unspaced _ name) (by decide)
    · exact absurd space (by decide)
  obtain ⟨first,others⟩ := splitOn_prefixed front ('"' :: routine.objectText)
  rw [shape,first,others]
  constructor
  · rw [List.append_assoc,List.append_assoc]
    show split ('r' :: ' ' :: (quoted routine.fn.name ++ ' ' :: _)) = _
    rw [split_letter rfl,split_cons _ nonempty unspaced]
    rfl
  · exact (@splitOn_prefixed _ _ '\n' _ ['"'] (by decide) routine.objectText).2

theorem int_ok {word : Str} {n : Int} (read : int word = .ok n) : word ≠ [] ∧ '"' ∉ word := by
  have digits {text : Str} {n : Nat} (read : digitsValue text = .ok n) : text ≠ [] ∧ '"' ∉ text := by
    unfold digitsValue at read
    split at read
    · next shape =>
      exact ⟨shape.1,fun inside => absurd (List.all_eq_true.mp shape.2 _ inside) (by decide)⟩
    · cases read
  unfold int at read
  split at read
  · obtain ⟨m,value,-⟩ := except_bind.mp read
    exact ⟨List.cons_ne_nil _ _,List.not_mem_cons_of_ne_of_not_mem (by decide) (digits value).2⟩
  · obtain ⟨m,value,-⟩ := except_bind.mp read
    exact ⟨List.cons_ne_nil _ _,List.not_mem_cons_of_ne_of_not_mem (by decide) (digits value).2⟩
  · obtain ⟨m,value,-⟩ := except_bind.mp read
    exact digits value

theorem split_quote {text word second : Str} {more : List Str} (words : split ('"' :: text) = word :: second :: more) :
    ∃ first blanks rest, word = '"' :: first ∧ text = first ++ (blanks ++ (second ++ rest)) ∧ blanks ≠ [] ∧
      (∀ char ∈ blanks, isSpace char = true) ∧ (∀ char ∈ first ++ second, isSpace char = false) ∧
      ∀ char ∈ rest.head?, isSpace char = true := by
  obtain ⟨front,tail,shape,blank,ends,others⟩ := words_split words
  obtain ⟨blanks,rest,rfl,apart,last,-⟩ := words_split others
  obtain ⟨nonempty,plain⟩ := mem_words (words ▸ List.mem_cons_self)
  obtain ⟨letters,unspaced⟩ := mem_words (others ▸ List.mem_cons_self)
  obtain rfl : front = [] := by
    cases front with
    | nil => rfl
    | cons char front =>
      obtain rfl := (List.cons.inj shape).1
      exact absurd (blank '"' List.mem_cons_self) (by decide)
  cases word with
  | nil => exact absurd rfl nonempty
  | cons char first =>
    obtain ⟨rfl,rfl⟩ := List.cons.inj shape
    refine ⟨first,blanks,rest,rfl,rfl,?_,apart,?_,last⟩
    · rintro rfl
      obtain ⟨char,letters,rfl⟩ := List.exists_cons_of_ne_nil letters
      have space := ends char rfl
      rw [unspaced char List.mem_cons_self] at space
      cases space
    · exact List.forall_mem_append.mpr ⟨fun char inside => plain char (List.mem_cons_of_mem _ inside),unspaced⟩

theorem before_quote {name first middle rest more : Str} (same : name ++ '"' :: more = first ++ (middle ++ rest))
    (spaced : ∃ char ∈ name, isSpace char = true) (plain : ∀ char ∈ first, isSpace char = false) (unquoted : '"' ∉ middle)
    (ends : ∀ char ∈ rest.head?, isSpace char = true) :
    ∃ space tail, name = first ++ (middle ++ space :: tail) ∧ isSpace space = true := by
  rcases List.append_eq_append_iff.mp same with ⟨behind,rfl,-⟩ | ⟨behind,rfl,others⟩
  · -- the name is in the first word
    obtain ⟨char,inside,space⟩ := spaced
    rw [plain char (List.mem_append_left _ inside)] at space
    cases space
  · have quoteless : ∀ tail : Str, rest ≠ '"' :: tail := by
      rintro tail rfl
      exact absurd (ends '"' rfl) (by decide)
    rcases List.append_eq_append_iff.mp others with ⟨tail,rfl,quote⟩ | ⟨tail,rfl,quote⟩
    · cases tail with
      | nil => exact absurd quote (quoteless more)
      | cons space tail =>
        rw [quote] at ends
        exact ⟨space,tail,rfl,ends space rfl⟩
    · cases tail with
      | nil => exact absurd quote.symm (quoteless more)
      | cons char tail =>
        obtain ⟨rfl,-⟩ := List.cons.inj quote
        exact absurd (List.mem_append_right _ List.mem_cons_self) unquoted

theorem quote_split {first blanks second rest : Str} (nonempty : blanks ≠ [] ∧ second ≠ []) (blank : ∀ char ∈ blanks, isSpace char = true)
    (unspaced : ∀ char ∈ first ++ second, isSpace char = false) (ends : ∀ char ∈ rest.head?, isSpace char = true) :
    split ('"' :: (first ++ (blanks ++ (second ++ rest)))) = ('"' :: first) :: second :: split rest := by
  obtain ⟨plain,letters⟩ := List.forall_mem_append.mp unspaced
  have quoted : ∀ char ∈ '"' :: first, isSpace char = false := List.forall_mem_cons.mpr ⟨rfl,plain⟩
  have apart : ∀ char ∈ (blanks ++ (second ++ rest)).head?, isSpace char = true := by
    intro char found
    rw [List.head?_append_of_ne_nil _ nonempty.1] at found
    exact blank char (List.mem_of_mem_head? found)
  rw [← List.cons_append]
  calc split ('"' :: first ++ (blanks ++ (second ++ rest)))
      = ('"' :: first) :: split (blanks ++ (second ++ rest)) := words_front (List.cons_ne_nil _ _) quoted apart
    _ = ('"' :: first) :: split (second ++ rest) := congrArg _ (words_blanks blank _)
    _ = ('"' :: first) :: second :: split rest := congrArg _ (words_front nonempty.2 letters ends)

theorem readByChance_iff {routine : PrintedRoutine} (spaced : ∃ char ∈ routine.objName, isSpace char = true) :
    (∃ first second, ReadByChance routine first second) ↔
      ∃ word second more, split (firstPiece '\n' ('"' :: routine.objectText)) = word :: second :: more ∧
        (basename word).dropLast = basename routine.objName ∧ int second = .ok (routine.routineId.toNat : Int) := by
  have line : firstPiece '\n' ('"' :: routine.objectText) = '"' :: firstPiece '\n' routine.objectText :=
    (@splitOn_prefixed _ _ '\n' _ ['"'] (by decide) routine.objectText).1
  have text : routine.objectText = routine.objName ++ '"' :: ' ' :: decimal routine.routineId.toNat := by
    simp [PrintedRoutine.objectText]
  rw [line]
  constructor
  · rintro ⟨first,second,⟨blanks,space,rest,path,nonempty,blank,separates⟩,unspaced,lib,id⟩
    obtain ⟨plain,letters⟩ := List.forall_mem_append.mp unspaced
    let behind := space :: (rest ++ '"' :: ' ' :: decimal routine.routineId.toNat)
    have whole : routine.objectText = (first ++ (blanks ++ second)) ++ behind := by
      rw [text,path]
      simp [behind]
    have single : '\n' ∉ first ++ (blanks ++ second) := by
      intro inside
      rcases List.mem_append.mp inside with inside | inside
      · exact absurd (plain _ inside) (by decide)
      · rcases List.mem_append.mp inside with inside | inside
        · exact absurd rfl (blank _ inside).2
        · exact absurd (letters _ inside) (by decide)
    have ends : ∀ char ∈ (firstPiece '\n' behind).head?, isSpace char = true := by
      obtain ⟨-,further,parts,-⟩ := firstPiece_rest '\n' behind
      intro char found
      obtain ⟨tail,front⟩ := List.head?_eq_some_iff.mp found
      rw [front] at parts
      exact (List.cons.inj parts).1 ▸ separates
    rw [whole,(splitOn_prefixed single behind).1,List.append_assoc,List.append_assoc,
      quote_split ⟨nonempty,(int_ok id).1⟩ (fun char inside => (blank char inside).1) unspaced ends]
    exact ⟨_,_,_,rfl,lib,id⟩
  · rintro ⟨word,second,more,words,lib,id⟩
    obtain ⟨first,blanks,rest,rfl,front,nonempty,blank,unspaced,ends⟩ := split_quote words
    obtain ⟨unbroken,further,whole,newline⟩ := firstPiece_rest '\n' routine.objectText
    rw [front] at unbroken whole
    have breaks : ∀ char ∈ (rest ++ further).head?, isSpace char = true := by
      cases rest with
      | nil =>
        intro char found
        rw [newline char found]
        rfl
      | cons char rest => exact ends
    have unquoted : '"' ∉ blanks ++ second := by
      intro inside
      rcases List.mem_append.mp inside with inside | inside
      · exact absurd (blank _ inside) (by decide)
      · exact (int_ok id).2 inside
    have same : routine.objName ++ '"' :: ' ' :: decimal routine.routineId.toNat = first ++ ((blanks ++ second) ++ (rest ++ further)) := by
      rw [← text,whole]
      simp
    obtain ⟨space,tail,path,separates⟩ := before_quote same spaced (List.forall_mem_append.mp unspaced).1 unquoted breaks
    have single : ∀ char ∈ blanks, isSpace char = true ∧ char ≠ '\n' := by
      intro char inside
      refine ⟨blank char inside,?_⟩
      rintro rfl
      exact unbroken (List.mem_append_right _ (List.mem_append_left _ inside))
    rw [List.append_assoc] at path
    exact ⟨first,second,⟨blanks,space,tail,path,nonempty,single,separates⟩,unspaced,lib,id⟩

theorem legibleObject_iff (routine : PrintedRoutine) : LegibleObject routine ↔ QuietLines routine.objectText ∧
    ∃ first second rest, split (firstPiece '\n' ('"' :: routine.objectText)) = first :: second :: rest ∧
      (basename first).dropLast = basename routine.objName ∧ int second = .ok (routine.routineId.toNat : Int) := by
  by_cases plain : ∀ char ∈ routine.objName, isSpace char = false
  · obtain ⟨nonempty,unspaced⟩ := quoted_word plain
    have shape : '"' :: routine.objectText = quoted routine.objName ++ ' ' :: decimal routine.routineId.toNat := by
      simp [PrintedRoutine.objectText,quoted]
    have single : '\n' ∉ '"' :: routine.objectText := by
      rw [shape]
      intro inside
      rcases List.mem_append.mp inside with name | rest
      · exact absurd (unspaced _ name) (by decide)
      · rcases List.mem_cons.mp rest with space | digits
        · exact absurd space (by decide)
        · exact newline_digits _ digits
    have parts : split (firstPiece '\n' ('"' :: routine.objectText)) =
        [quoted routine.objName,decimal routine.routineId.toNat] := by
      rw [(splitOn_plain single).1,shape,split_cons _ nonempty unspaced,
        show split (decimal routine.routineId.toNat) = _ from words_word (decimal_word _).1 (decimal_word _).2]
    have quiet : QuietLines routine.objectText := quietLines_plain fun inside => single (List.mem_cons_of_mem _ inside)
    rw [parts]
    constructor
    · rintro (⟨-,slash⟩ | ⟨-,first,second,⟨blanks,space,rest,path,-,-,separates⟩,-,-,-⟩)
      · exact ⟨quiet,_,_,_,rfl,(basename_quoted _).mpr slash,int_decimal _⟩
      · rw [plain space (by rw [path]; simp)] at separates
        cases separates
    · rintro ⟨-,_,_,_,⟨⟩,named,-⟩
      exact .inl ⟨plain,(basename_quoted _).mp named⟩
  · have spaced : ∃ char ∈ routine.objName, isSpace char = true := by
      simpa using plain
    constructor
    · rintro (⟨unspaced,-⟩ | ⟨quiet,chance⟩)
      · exact absurd unspaced plain
      · exact ⟨quiet,(readByChance_iff spaced).mp chance⟩
    · rintro ⟨quiet,words⟩
      exact .inr ⟨quiet,(readByChance_iff spaced).mpr words⟩

/-- The words of an `r` line that make the routine of its names. -/
theorem names_iff (routine : PrintedRoutine) :
    (QuietLines routine.routineLine ∧ ∃ f : AFunct numpy, newFunct options (split (firstPiece '\n' routine.routineLine)) = .ok f ∧
      f.rName = routine.fn.name ∧ f.lib = basename routine.objName ∧ f.fid = routine.routineId.toNat) ↔
    (∀ char ∈ routine.fn.name, isSpace char = false) ∧ LegibleObject routine := by
  rw [legibleObject_iff]
  constructor
  · rintro ⟨quiet,f,made,rName,lib,fid⟩
    obtain ⟨name,object,id,n,first,second,third,read,named,based,numbered,-⟩ := newFunct_ok made
    have plain : ∀ char ∈ routine.fn.name, isSpace char = false := by
      rw [← rName,named]
      intro char inside
      exact (mem_words (List.mem_of_getElem? first)).2 char (List.mem_of_mem_dropLast (List.mem_of_mem_drop inside))
    obtain ⟨parts,others⟩ := routineLine_named plain
    rw [QuietLines,others] at quiet
    rw [parts] at second third
    cases words : split (firstPiece '\n' ('"' :: routine.objectText)) with
    | nil =>
      rw [words] at second
      cases second
    | cons head tail =>
      cases tail with
      | nil =>
        rw [words] at third
        cases third
      | cons next rest =>
        rw [words] at second third
        obtain rfl := Option.some.inj second
        obtain rfl := Option.some.inj third
        rw [numbered.symm.trans fid] at read
        exact ⟨plain,quiet,_,_,rest,rfl,based.symm.trans lib,read⟩
  · rintro ⟨plain,quiet,object,id,rest,words,named,read⟩
    obtain ⟨parts,others⟩ := routineLine_named plain
    refine ⟨by rw [QuietLines,others]; exact quiet,?_⟩
    rw [parts,words]
    cases made : @newFunct numpy options (['r'] :: quoted routine.fn.name :: object :: id :: rest) with
    | error message =>
      replace made : (int id >>= _) = Except.error message := made
      rw [read] at made
      cases made
    | ok f =>
      obtain ⟨name,_,_,fid,first,second,third,number,rName,lib,numbered,-⟩ := newFunct_ok made
      cases first
      cases second
      cases third
      refine ⟨f,rfl,rName.trans (unquote_quoted _),lib.trans named,numbered.trans ?_⟩
      exact Except.ok.inj (number.symm.trans read)

end Aprof.PyPlot

import Aprof.Aggregates
import Aprof.General.Words
import Aprof.ReportText

/-! The tokens that `merge_report` finds in the lines of a printed report. -/
namespace Aprof

theorem tokens_words (text : Str) : tokens text = words (· == '$') text := by
  unfold tokens words List.splitOn
  refine List.filter_congr fun piece _ => ?_
  cases piece <;> rfl

/-- A text that `put_delim` keeps and that makes one token. -/
structure Solid (word : Str) : Prop where
  nonempty : word ≠ []
  whole : ∀ char ∈ word, (char == '$') = false
  kept : ∀ rest, putDelim false (word ++ rest) = word ++ putDelim false rest

theorem putDelim_plain {word : Str} (plain : ∀ char ∈ word, char ≠ ' ' ∧ char ≠ '"') (rest : Str) :
    putDelim false (word ++ rest) = word ++ putDelim false rest := by
  induction word with
  | nil => rfl
  | cons char word ih =>
    obtain ⟨blank,quote⟩ := plain char List.mem_cons_self
    rw [List.cons_append,putDelim,if_neg fun holds => blank holds.1,if_neg quote,
      ih fun other inside => plain other (List.mem_cons_of_mem _ inside)]
    rfl

theorem putDelim_inside {name : Str} (plain : '"' ∉ name) (rest : Str) :
    putDelim true (name ++ '"' :: rest) = name ++ '"' :: putDelim false rest := by
  induction name with
  | nil => rfl
  | cons char name ih =>
    have quote : char ≠ '"' := fun same => plain (same ▸ List.mem_cons_self)
    rw [List.cons_append,putDelim,if_neg fun holds => Bool.noConfusion holds.2,if_neg quote,
      ih fun inside => plain (List.mem_cons_of_mem _ inside)]
    rfl

theorem Solid.plain {word : Str} (nonempty : word ≠ []) (plain : ∀ char ∈ word, char ∉ [' ','"','$']) : Solid word := by
  refine ⟨nonempty,fun char inside => ?_,putDelim_plain fun char inside => ?_⟩
  · exact beq_false_of_ne fun same => plain char inside (by rw [same]; decide)
  · exact ⟨fun same => plain char inside (by rw [same]; decide),fun same => plain char inside (by rw [same]; decide)⟩

theorem Solid.number (n : Nat) : Solid (decimal n) := by
  refine .plain (decimal_word n).1 fun char inside delimiter => ?_
  have digit := decimal_digits char inside
  simp only [List.mem_cons,List.not_mem_nil,or_false] at delimiter
  rcases delimiter with rfl | rfl | rfl <;> exact absurd digit (by decide)

def Quotable (name : Str) : Prop := name ≠ [] ∧ ∀ char ∈ name, char ∉ ['"','$','\n','\x00']

theorem Solid.quoted {name : Str} (quotable : Quotable name) : Solid (quoted name) := by
  obtain ⟨nonempty,plain⟩ := quotable
  have unquoted : '"' ∉ name := fun inside => plain _ inside (by decide)
  refine ⟨List.cons_ne_nil _ _,fun char inside => ?_,fun rest => ?_⟩
  · rcases List.mem_append.mp inside with inside | last
    · rcases List.mem_cons.mp inside with rfl | inside
      · rfl
      · exact beq_false_of_ne fun same => plain char inside (by rw [same]; decide)
    · rw [List.mem_singleton.mp last]
      rfl
  · show putDelim false ('"' :: (name ++ ['"']) ++ rest) = _
    rw [List.cons_append,List.append_assoc,putDelim,if_neg fun holds => absurd holds.1 (by decide),if_pos rfl]
    show '"' :: putDelim true (name ++ '"' :: rest) = _
    rw [putDelim_inside unquoted]
    show _ = '"' :: (name ++ ['"']) ++ putDelim false rest
    rw [List.cons_append,List.append_assoc]
    rfl

def lineTokens (text : Str) : List Str := tokens (putDelim false text)

theorem lineTokens_cons {word : Str} (solid : Solid word) (rest : Str) : lineTokens (word ++ ' ' :: rest) = word :: lineTokens rest := by
  unfold lineTokens
  rw [solid.kept,tokens_words,tokens_words]
  exact words_cons _ solid.nonempty solid.whole rfl

theorem lineTokens_word {word : Str} (solid : Solid word) : lineTokens word = [word] := by
  have kept := solid.kept []
  rw [List.append_nil] at kept
  unfold lineTokens
  rw [kept,tokens_words]
  exact (List.append_nil word).symm ▸ words_word solid.nonempty solid.whole

theorem lineTokens_numbers (numbers : List UInt64) {word : Str} (solid : Solid word) :
    lineTokens (word ++ numbers.flatMap fun n => ' ' :: decimal n.toNat) = word :: numbers.map fun n => decimal n.toNat := by
  induction numbers generalizing word with
  | nil =>
    rw [List.flatMap_nil,List.append_nil]
    exact lineTokens_word solid
  | cons n numbers ih =>
    rw [List.flatMap_cons,List.cons_append,lineTokens_cons solid,ih (.number n.toNat)]
    rfl

theorem readLine_letter {tag : Char} (plain : tag ∉ [' ','"','$']) (rest : Str) :
    readLine (tag :: ' ' :: rest) = some (tag,lineTokens rest) := by
  have solid : Solid [tag] := .plain (List.cons_ne_nil _ _) fun char inside => List.mem_singleton.mp inside ▸ plain
  have parts : tokens (putDelim false (tag :: ' ' :: rest)) = [tag] :: lineTokens rest := lineTokens_cons solid rest
  rw [readLine,parts]

theorem cString_whole {line : Str} (whole : '\x00' ∉ line) : cString line = line := by
  rw [cString,List.takeWhile_eq_self_iff]
  intro char inside
  exact bne_iff_ne.mpr fun same => whole (same ▸ inside)

def OneLine (text : Str) : Prop := '\n' ∉ text ∧ '\x00' ∉ text

/-- A line from which the reader gets a tag and its tokens. -/
structure Reads (line : Str) (item : Char × List Str) : Prop where
  oneLine : OneLine line
  read : readLine line = some item

theorem reads_oneLine {lines : List Str} {items : List (Char × List Str)} (reads : List.Forall₂ Reads lines items) :
    ∀ line ∈ lines, OneLine line := by
  induction reads with
  | nil => exact fun line member => absurd member List.not_mem_nil
  | cons read reads ih => exact List.forall_mem_cons.mpr ⟨read.oneLine,ih⟩

theorem OneLine.append {text rest : Str} (first : OneLine text) (second : OneLine rest) : OneLine (text ++ rest) :=
  ⟨fun inside => (List.mem_append.mp inside).elim first.1 second.1,fun inside => (List.mem_append.mp inside).elim first.2 second.2⟩

theorem oneLine_iff {text : Str} : OneLine text ↔ ∀ char ∈ text, char ∉ ['\n','\x00'] := by
  constructor
  · intro single char inside special
    simp only [List.mem_cons,List.not_mem_nil,or_false] at special
    rcases special with rfl | rfl
    · exact single.1 inside
    · exact single.2 inside
  · exact fun plain => ⟨fun inside => plain _ inside (by decide),fun inside => plain _ inside (by decide)⟩

theorem OneLine.number (n : Nat) : OneLine (decimal n) := oneLine_iff.mpr fun char inside special => by
  have digit := decimal_digits char inside
  simp only [List.mem_cons,List.not_mem_nil,or_false] at special
  rcases special with rfl | rfl <;> exact absurd digit (by decide)

theorem OneLine.numbers (numbers : List UInt64) : OneLine (numbers.flatMap fun n => ' ' :: decimal n.toNat) := by
  induction numbers with
  | nil => exact ⟨List.not_mem_nil,List.not_mem_nil⟩
  | cons n numbers ih =>
    have front : OneLine [' '] := ⟨by decide,by decide⟩
    exact (front.append (.number n.toNat)).append ih

theorem OneLine.quoted {name : Str} (quotable : Quotable name) : OneLine (quoted name) := by
  have quote : OneLine ['"'] := ⟨by decide,by decide⟩
  have single : OneLine name := oneLine_iff.mpr fun char inside special => quotable.2 char inside (by
    simp only [List.mem_cons,List.not_mem_nil,or_false] at special ⊢
    tauto)
  exact (quote.append single).append quote

theorem reads_letter {tag : Char} (plain : tag ∉ [' ','"','$','\n','\x00']) {rest : Str} (single : OneLine rest) :
    Reads (tag :: ' ' :: rest) (tag,lineTokens rest) := by
  simp only [List.mem_cons,List.not_mem_nil,or_false,not_or] at plain
  obtain ⟨blank,quote,delimiter,newline,null⟩ := plain
  have front : OneLine [tag,' '] := by
    refine ⟨?_,?_⟩
    · simp [Ne.symm newline]
    · simp [Ne.symm null]
  exact ⟨front.append single,readLine_letter (by simp [blank,quote,delimiter]) rest⟩

theorem reads_numbers {tag : Char} (plain : tag ∉ [' ','"','$','\n','\x00']) (first : Nat) (numbers : List UInt64) :
    Reads (tag :: ' ' :: (decimal first ++ numbers.flatMap fun n => ' ' :: decimal n.toNat))
      (tag,decimal first :: numbers.map fun n => decimal n.toNat) := by
  have reads := reads_letter plain (OneLine.append (.number first) (.numbers numbers))
  rw [lineTokens_numbers numbers (.number first)] at reads
  exact reads

theorem reads_word {tag : Char} (plain : tag ∉ [' ','"','$','\n','\x00']) {word : Str} (solid : Solid word) (single : OneLine word) :
    Reads (tag :: ' ' :: word) (tag,[word]) := by
  have reads := reads_letter plain single
  rw [lineTokens_word solid] at reads
  exact reads

namespace PrintedRoutine
variable (cfg : Config) (routine : PrintedRoutine)

def routineItem : Char × List Str := ('r',[quoted routine.fn.name,quoted routine.objName,decimal routine.routineId.toNat])

def mangledItem (mangled : Str) : Char × List Str :=
  ('u',lineTokens (decimal routine.routineId.toNat ++ " \"".toList ++ mangled ++ "\"".toList))

def tupleItem (tuple : Input UInt64) : Char × List Str :=
  ('p',decimal routine.routineId.toNat :: (tupleNumbers cfg tuple).map fun n => decimal n.toNat)

def items : List (Char × List Str) :=
  routine.routineItem :: (routine.fn.mangled.toList.map routine.mangledItem ++ routine.tuples.map (routine.tupleItem cfg))

/-- The names of the routine come back from their lines. -/
structure Restorable (routine : PrintedRoutine) : Prop where
  name : Quotable routine.fn.name
  object : Quotable routine.objName
  mangled : ∀ mangled ∈ routine.fn.mangled, OneLine mangled

variable {cfg routine}

theorem reads_routine (restorable : Restorable routine) : Reads routine.routineLine routine.routineItem := by
  have blank : OneLine [' '] := ⟨by decide,by decide⟩
  have shape : routine.routineLine = 'r' :: ' ' :: (quoted routine.fn.name ++ ' ' :: (quoted routine.objName ++ ' ' ::
      decimal routine.routineId.toNat)) := by
    simp [routineLine,objectText,quoted]
  have single := (OneLine.quoted restorable.name).append (blank.append ((OneLine.quoted restorable.object).append
    (blank.append (.number routine.routineId.toNat))))
  have reads := @reads_letter 'r' (by decide) _ single
  rw [shape,routineItem]
  rw [List.singleton_append,List.singleton_append,lineTokens_cons (.quoted restorable.name),
    lineTokens_cons (.quoted restorable.object),lineTokens_word (.number _)] at reads
  exact reads

theorem reads_mangled {mangled : Str} (single : OneLine mangled) : Reads (routine.mangledLine mangled) (routine.mangledItem mangled) := by
  have front : OneLine " \"".toList := ⟨by decide,by decide⟩
  have quote : OneLine "\"".toList := ⟨by decide,by decide⟩
  have shape : routine.mangledLine mangled =
      'u' :: ' ' :: (decimal routine.routineId.toNat ++ " \"".toList ++ mangled ++ "\"".toList) := by
    rw [mangledLine,List.append_assoc,List.append_assoc,List.append_assoc,List.append_assoc,List.append_assoc]
    rfl
  rw [shape]
  exact reads_letter (by decide) ((((OneLine.number _).append front).append single).append quote)

theorem reads_tuple (plain : cfg.collectCCT = false) (tuple : Input UInt64) :
    Reads (routine.tupleLine cfg tuple) (routine.tupleItem cfg tuple) := by
  have shape : routine.tupleLine cfg tuple = 'p' :: ' ' :: (decimal routine.routineId.toNat ++
      (tupleNumbers cfg tuple).flatMap fun n => ' ' :: decimal n.toNat) := by
    rw [tupleLine,if_neg (by rw [plain]; exact Bool.false_ne_true)]
    rfl
  rw [shape]
  exact reads_numbers (by decide) _ _

theorem reads_lines (plain : cfg.collectCCT = false) (restorable : Restorable routine) :
    List.Forall₂ Reads (routine.lines cfg) (routine.items cfg) := by
  refine .cons (reads_routine restorable) (List.rel_append ?_ ?_)
  · refine List.forall₂_map_left_iff.mpr (List.forall₂_map_right_iff.mpr (List.forall₂_same.mpr fun mangled inside => ?_))
    exact reads_mangled (restorable.mangled mangled (Option.mem_toList.mp inside))
  · exact List.forall₂_map_left_iff.mpr (List.forall₂_map_right_iff.mpr (List.forall₂_same.mpr fun tuple _ => reads_tuple plain tuple))

end PrintedRoutine

def headerItems (cfg : Config) (r : ReportRuntime) (cost : UInt64) : List (Char × List Str) :=
  [('c',lineTokens "-------------------------------------".toList),
    ('c',lineTokens "report generated by aprof (valgrind) ".toList),
    ('c',lineTokens "-------------------------------------".toList),
    ('v',[['6']]),
    ('k',[decimal cost.toNat]),
    ('e',[decimal r.binaryMtime.toNat]),
    ('m',["bb-count".toList]),
    ('i',[if cfg.inputMetric = .rms then "rms".toList else "drms".toList]),
    ('t',[decimal cfg.memoryResolution]),
    ('a',lineTokens r.application),
    ('f',lineTokens r.cmdLine)]

theorem reads_header (cfg : Config) {r : ReportRuntime} (application : OneLine r.application) (cmdLine : OneLine r.cmdLine)
    (cost : UInt64) : List.Forall₂ Reads (headerLines cfg r cost) (headerItems cfg r cost) := by
  have metric : Reads (if cfg.inputMetric = .rms then "i rms".toList else "i drms".toList)
      ('i',[if cfg.inputMetric = .rms then "rms".toList else "drms".toList]) := by
    split
    · exact ⟨⟨by decide,by decide⟩,rfl⟩
    · exact ⟨⟨by decide,by decide⟩,rfl⟩
  have ruler : Reads "c -------------------------------------".toList
      ('c',lineTokens "-------------------------------------".toList) := ⟨⟨by decide,by decide⟩,rfl⟩
  refine .cons ruler (.cons ⟨⟨by decide,by decide⟩,rfl⟩ (.cons ruler (.cons ⟨⟨by decide,by decide⟩,rfl⟩ ?_)))
  refine .cons (reads_word (by decide) (.number _) (.number _)) (.cons (reads_word (by decide) (.number _) (.number _)) ?_)
  refine .cons ⟨⟨by decide,by decide⟩,rfl⟩ (.cons metric (.cons (reads_word (by decide) (.number _) (.number _)) ?_))
  exact .cons (reads_letter (by decide) application) (.cons (reads_letter (by decide) cmdLine) .nil)

/-- What a report has to hold to be read line by line. -/
structure Restorable (cfg : Config) (r : ReportRuntime) (rtnHt : Option (HashTable RoutineInfo)) : Prop where
  application : OneLine r.application
  cmdLine : OneLine r.cmdLine
  routines : ∀ routine ∈ printedRoutines cfg r rtnHt, routine.Restorable

def reportItems (cfg : Config) (r : ReportRuntime) (rtnHt : Option (HashTable RoutineInfo)) (cost : UInt64) :
    List (Char × List Str) :=
  headerItems cfg r cost ++ (printedRoutines cfg r rtnHt).flatMap (PrintedRoutine.items cfg)

theorem forall₂_flatMap {α β γ : Type} {R : β → γ → Prop} {as : List α} {f : α → List β} {g : α → List γ}
    (each : ∀ a ∈ as, List.Forall₂ R (f a) (g a)) : List.Forall₂ R (as.flatMap f) (as.flatMap g) := by
  induction as with
  | nil => exact .nil
  | cons a as ih =>
    rw [List.flatMap_cons,List.flatMap_cons]
    exact List.rel_append (each a List.mem_cons_self) (ih fun b member => each b (List.mem_cons_of_mem _ member))

theorem reads_report {cfg : Config} {r : ReportRuntime} {rtnHt : Option (HashTable RoutineInfo)} (plain : cfg.collectCCT = false)
    (restorable : Restorable cfg r rtnHt) (cost : UInt64) (root : List CCTNode) :
    List.Forall₂ Reads (reportLines cfg r rtnHt cost root) (reportItems cfg r rtnHt cost) := by
  rw [reportLines,if_neg (by rw [plain]; exact Bool.false_ne_true),List.append_nil]
  refine List.rel_append (reads_header cfg restorable.application restorable.cmdLine cost) ?_
  exact forall₂_flatMap fun routine inside => PrintedRoutine.reads_lines plain (restorable.routines routine inside)

theorem printReport_lines {cfg : Config} {r : ReportRuntime} {rtnHt : Option (HashTable RoutineInfo)} {cost : UInt64}
    {root : List CCTNode} (short : ∀ line ∈ reportLines cfg r rtnHt cost root, line.length < 4095) (single : ∀ line ∈ reportLines cfg r rtnHt cost root, '\n' ∉ line) :
    (printReport cfg r rtnHt cost root).splitOn '\n' = reportLines cfg r rtnHt cost root ++ [[]] := by
  rw [printReport_short short,splitOn_flatMap]
  congr 1
  clear short
  generalize reportLines cfg r rtnHt cost root = lines at single
  induction lines with
  | nil => rfl
  | cons line lines ih =>
    rw [List.flatMap_cons,List.splitOn_eq_singleton (single line List.mem_cons_self),
      ih fun other member => single other (List.mem_cons_of_mem _ member)]
    rfl

end Aprof

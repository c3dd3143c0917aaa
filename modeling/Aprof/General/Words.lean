import Mathlib.Data.List.Basic
import Mathlib.Data.List.TakeWhile

/-! Lines and words of a text. -/
namespace Aprof

section
variable {α : Type}

theorem splitOnP_plain {p : α → Bool} {l piece : List α} (member : piece ∈ l.splitOnP p) : ∀ a ∈ piece, p a = false := by
  induction l generalizing piece with
  | nil =>
    rw [List.splitOnP_nil,List.mem_singleton] at member
    subst member
    exact fun a inside => absurd inside List.not_mem_nil
  | cons a rest ih =>
    rw [List.splitOnP_cons_eq_if_modifyHead] at member
    split at member
    · rcases List.mem_cons.mp member with rfl | later
      · exact fun a inside => absurd inside List.not_mem_nil
      · exact ih later
    · next other =>
      obtain ⟨first,more,split⟩ := List.exists_cons_of_ne_nil (List.splitOnP_ne_nil p rest)
      rw [split] at member ih
      rcases List.mem_cons.mp member with rfl | later
      · intro b inside
        rcases List.mem_cons.mp inside with rfl | inside
        · exact Bool.not_eq_true _ ▸ other
        · exact ih List.mem_cons_self b inside
      · exact ih (List.mem_cons_of_mem _ later)

def words (space : α → Bool) (l : List α) : List (List α) := (l.splitOnP space).filter fun word => !word.isEmpty

variable {space : α → Bool}

theorem words_nil : words space [] = [] := by
  rw [words,List.splitOnP_nil]
  rfl

theorem mem_words {l word : List α} (member : word ∈ words space l) : word ≠ [] ∧ ∀ a ∈ word, space a = false := by
  obtain ⟨inside,nonempty⟩ := List.mem_filter.mp member
  exact ⟨by simpa using nonempty,splitOnP_plain inside⟩

theorem words_append (l rest : List α) {a : α} (separates : space a = true) :
    words space (l ++ a :: rest) = words space l ++ words space rest := by
  rw [words,List.splitOnP_append_cons l rest separates,List.filter_append]
  rfl

theorem words_word {word : List α} (nonempty : word ≠ []) (plain : ∀ a ∈ word, space a = false) : words space word = [word] := by
  rw [words,List.splitOnP_eq_singleton plain]
  cases word with
  | nil => exact absurd rfl nonempty
  | cons a rest => rfl

theorem words_cons {word : List α} (rest : List α) {a : α} (nonempty : word ≠ []) (plain : ∀ a ∈ word, space a = false)
    (separates : space a = true) : words space (word ++ a :: rest) = word :: words space rest := by
  rw [words_append word rest separates,words_word nonempty plain]
  rfl

theorem words_blanks {blanks : List α} (blank : ∀ a ∈ blanks, space a = true) (l : List α) :
    words space (blanks ++ l) = words space l := by
  induction blanks with
  | nil => rfl
  | cons a blanks ih =>
    have head := words_append [] (blanks ++ l) (blank a List.mem_cons_self)
    rw [words_nil,List.nil_append] at head
    rw [List.cons_append,← ih fun b member => blank b (List.mem_cons_of_mem _ member)]
    exact head

theorem words_front {word rest : List α} (nonempty : word ≠ []) (plain : ∀ a ∈ word, space a = false)
    (ends : ∀ a ∈ rest.head?, space a = true) : words space (word ++ rest) = word :: words space rest := by
  cases rest with
  | nil => rw [List.append_nil,words_word nonempty plain,words_nil]
  | cons a rest =>
    have blank : ∀ b ∈ [a], space b = true := List.forall_mem_singleton.mpr (ends a rfl)
    rw [words_cons rest nonempty plain (ends a rfl)]
    exact congrArg _ (words_blanks blank rest).symm

theorem words_split {l word : List α} {more : List (List α)} (found : words space l = word :: more) :
    ∃ blanks rest, l = blanks ++ (word ++ rest) ∧ (∀ a ∈ blanks, space a = true) ∧ (∀ a ∈ rest.head?, space a = true) ∧
      words space rest = more := by
  have blank : ∀ a ∈ l.takeWhile space, space a = true := fun a member => List.mem_takeWhile_imp member
  have whole : l = l.takeWhile space ++ l.dropWhile space := List.takeWhile_append_dropWhile.symm
  have starts := List.head?_dropWhile_not space l
  generalize l.takeWhile space = blanks at whole blank
  generalize l.dropWhile space = text at whole starts
  subst whole
  rw [words_blanks blank] at found
  have plain : ∀ a ∈ text.takeWhile fun a => !space a, space a = false := fun a member => by
    simpa using List.mem_takeWhile_imp member
  have ends : ∀ a ∈ (text.dropWhile fun a => !space a).head?, space a = true := by
    intro a member
    have first := List.head?_dropWhile_not (fun a => !space a) text
    rw [member] at first
    simpa using first
  have nonempty : text.takeWhile (fun a => !space a) ≠ [] := by
    intro empty
    cases text with
    | nil => rw [words_nil] at found; cases found
    | cons a rest =>
      rw [List.takeWhile_cons_of_pos (by simpa using starts)] at empty
      cases empty
  have parts := words_front nonempty plain ends
  rw [List.takeWhile_append_dropWhile,found] at parts
  obtain ⟨same,others⟩ := List.cons.inj parts
  exact ⟨blanks,_,by rw [same,List.takeWhile_append_dropWhile],blank,ends,others.symm⟩

end

section
variable {α : Type} [BEq α] {a : α}

def firstPiece (a : α) (l : List α) : List α := (l.splitOn a).headD []

def otherPieces (a : α) (l : List α) : List (List α) := (l.splitOn a).tail

theorem splitOn_pieces (a : α) (l : List α) : l.splitOn a = firstPiece a l :: otherPieces a l := by
  obtain ⟨first,more,split⟩ := List.exists_cons_of_ne_nil (List.splitOn_ne_nil a l)
  rw [firstPiece,otherPieces,split]
  rfl

variable [LawfulBEq α]

theorem splitOn_prefixed {front : List α} (plain : a ∉ front) (l : List α) :
    firstPiece a (front ++ l) = front ++ firstPiece a l ∧ otherPieces a (front ++ l) = otherPieces a l := by
  induction front with
  | nil => exact ⟨rfl,rfl⟩
  | cons b front ih =>
    obtain ⟨first,others⟩ := ih fun inside => plain (List.mem_cons_of_mem _ inside)
    have apart : (b == a) = false := beq_false_of_ne fun same => plain (same ▸ List.mem_cons_self)
    have split : (b :: (front ++ l)).splitOn a = (b :: firstPiece a (front ++ l)) :: otherPieces a (front ++ l) := by
      rw [List.splitOn_cons_eq_if_modifyHead,apart,splitOn_pieces a (front ++ l)]
      rfl
    rw [List.cons_append,firstPiece,otherPieces,split,first,others]
    exact ⟨rfl,rfl⟩

theorem splitOn_plain {l : List α} (plain : a ∉ l) : firstPiece a l = l ∧ otherPieces a l = [] := by
  rw [firstPiece,otherPieces,List.splitOn_eq_singleton plain]
  exact ⟨rfl,rfl⟩

theorem firstPiece_rest (a : α) (l : List α) : a ∉ firstPiece a l ∧ ∃ rest, l = firstPiece a l ++ rest ∧ ∀ b ∈ rest.head?, b = a := by
  induction l with
  | nil =>
    rw [firstPiece,List.splitOn_nil]
    exact ⟨List.not_mem_nil,[],rfl,fun b found => absurd found (by simp)⟩
  | cons b l ih =>
    by_cases same : b = a
    · have empty : firstPiece a (b :: l) = [] := by
        rw [firstPiece,List.splitOn_cons_eq_if_modifyHead,if_pos (beq_iff_eq.mpr same)]
        rfl
      rw [empty]
      exact ⟨List.not_mem_nil,b :: l,rfl,fun c found => (Option.some.inj found).symm.trans same⟩
    · obtain ⟨none,rest,whole,ends⟩ := ih
      have front : a ∉ [b] := fun inside => same (List.mem_singleton.mp inside).symm
      have head : firstPiece a (b :: l) = b :: firstPiece a l := (splitOn_prefixed front l).1
      rw [head]
      exact ⟨List.not_mem_cons_of_ne_of_not_mem (Ne.symm same) none,rest,congrArg (List.cons b) whole,ends⟩

theorem splitOn_flatMap (texts : List (List α)) :
    (texts.flatMap (· ++ [a])).splitOn a = texts.flatMap (List.splitOn a) ++ [[]] := by
  induction texts with
  | nil => exact List.splitOn_nil a
  | cons text texts ih =>
    rw [List.flatMap_cons,List.append_assoc,List.singleton_append,List.splitOn_append_cons_self,ih,List.flatMap_cons,
      List.append_assoc]

end

end Aprof

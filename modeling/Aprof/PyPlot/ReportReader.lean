import Aprof.General.Words
import Aprof.Lines

/-! The loop of `main.py` that reads a report, in Python 2, and the routines of `AFunct.py`. -/
namespace Aprof.PyPlot

/-- `i[k]` -/
def item {α : Type} (i : List α) (k : Nat) : Except String α :=
  match i[k]? with
  | none => .error "IndexError"
  | some a => .ok a

def digitsValue (digits : Str) : Except String Nat :=
  if digits ≠ [] ∧ digits.all Char.isDigit = true then .ok (Nat.ofDigitChars 10 digits 0) else .error "ValueError"

/-- `int(word)`; words have no spaces. -/
def int : Str → Except String Int
  | '-' :: digits => do
    let n ← digitsValue digits
    .ok (-n)
  | '+' :: digits => do
    let n ← digitsValue digits
    .ok n
  | digits => do
    let n ← digitsValue digits
    .ok n

/-- `text.split()` -/
def split (text : Str) : List Str := words isSpace text

/-- What the reader uses of numpy: two-dimensional arrays of int64 or float64. -/
structure Numpy where
  NDArray : Type
  array : List (List Int) → NDArray
  vstack : NDArray → List Int → Except String NDArray
  tolist : NDArray → List (List Int)
  float64 : NDArray → Bool
  /-- The float64 for an integer -/
  double : Int → Int

def IsDouble (n : Int) : Prop := ∃ (m : Int) (e : Nat), n = m * 2 ^ e ∧ m.natAbs < 2 ^ 53

def dummyRow : List Int := [0,0,0,0,0,0,0,0,0,0,0]

structure Numpy.Documented (numpy : Numpy) : Prop where
  array_int64 : numpy.tolist (numpy.array [dummyRow]) = [dummyRow] ∧ numpy.float64 (numpy.array [dummyRow]) = false
  vstack_adds : ∀ {a b row}, numpy.vstack a row = .ok b → (numpy.tolist b).length = (numpy.tolist a).length + 1
  /-- Rows of different widths are a `ValueError`. -/
  vstack_widths : ∀ {a row}, (∃ other ∈ numpy.tolist a, other.length ≠ row.length) → ∃ message, numpy.vstack a row = .error message
  vstack_int64 : ∀ {a row}, (∀ other ∈ numpy.tolist a, other.length = row.length) → numpy.float64 a = false →
    (∀ n ∈ row, -2 ^ 63 ≤ n ∧ n < 2 ^ 63) →
    ∃ b, numpy.vstack a row = .ok b ∧ numpy.tolist b = numpy.tolist a ++ [row] ∧ numpy.float64 b = false
  /-- An integer from 2^63 on is a uint64, and its array with int64 one of float64. -/
  vstack_float64 : ∀ {a row}, (∀ other ∈ numpy.tolist a, other.length = row.length) →
    (∀ n ∈ row, 0 ≤ n ∧ n < 2 ^ 64) → (numpy.float64 a = true ∨ ∃ n ∈ row, 2 ^ 63 ≤ n) →
    ∃ b, numpy.vstack a row = .ok b ∧ numpy.tolist b = (numpy.tolist a ++ [row]).map (List.map numpy.double) ∧
      numpy.float64 b = true
  double_exact : ∀ {n}, IsDouble n → numpy.double n = n
  double_isDouble : ∀ {n}, 0 ≤ n → n < 2 ^ 64 → IsDouble (numpy.double n)

structure AFunct (numpy : Numpy) where
  rName : Str
  imName : Str
  fid : Int
  rmsSet : numpy.NDArray
  totCalls : Int
  cumulativeCost : Int
  nRms : Nat
  lib : Str
  toFit : Bool

section
variable {numpy : Numpy}

def AFunct.init (rName imName : Str) (fid : Int) (libName : Str) (toFit : Bool) : AFunct numpy :=
  ⟨rName,imName,fid,numpy.array [dummyRow],0,0,0,libName,toFit⟩

def AFunct.addRms (f : AFunct numpy) (rms : List Str) : Except String (AFunct numpy) := do
  let rms ← (rms.drop 2).mapM int
  let rmsSet ← numpy.vstack f.rmsSet rms
  let calls ← item rms 5
  let cost ← item rms 6
  .ok { f with rmsSet := rmsSet, totCalls := f.totCalls + calls, cumulativeCost := f.cumulativeCost + cost, nRms := f.nRms + 1 }

/-- `others["noFit"]` and the names behind `-toFit`. -/
structure FitOptions where
  noFit : Bool
  toFit : List Str

structure Header where
  vn : Option Str := none
  m : Option Str := none
  ex : Option Str := none
  tc : Option Int := none
  title : Str := []

structure Reading (numpy : Numpy) extends Header where
  temp : List (AFunct numpy) := []
  totCalls : Int := 0

/-- The variable `f`: the last of `temp`, or the open file, which has no `addRms`. -/
def Reading.f (state : Reading numpy) : Except String (AFunct numpy) :=
  match state.temp.getLast? with
  | none => .error "AttributeError"
  | some f => .ok f

/-- The routine of an `r` line -/
def newFunct (options : FitOptions) (i : List Str) : Except String (AFunct numpy) := do
  let object ← item i 2
  let libName := basename object
  let name ← item i 1
  let id ← item i 3
  let fid ← int id
  .ok (.init (unquote name) (unquote object) fid libName.dropLast
    (if options.noFit then false else options.toFit.isEmpty || options.toFit.contains (unquote name)))

def readLine (options : FitOptions) (state : Reading numpy) (i : List Str) : Except String (Reading numpy) :=
  match i with
  | [] => .ok state
  | word :: _ =>
    if word = ['v'] then do
      let vn ← item i 1
      .ok { state with vn := some vn }
    else if word = ['m'] then do
      let m ← item i 1
      .ok { state with m := some m }
    else if word = ['e'] then do
      let ex ← item i 1
      .ok { state with ex := some ex }
    else if word = ['k'] then do
      let tc ← item i 1
      let tc ← int tc
      .ok { state with tc := some tc }
    else if word = ['f'] then do
      let title ← item i 1
      .ok { state with title := title.drop 2 }
    else if word = ['r'] then do
      let f ← newFunct options i
      .ok { state with temp := state.temp ++ [f] }
    else if word = ['p'] then do
      let calls ← item i 7
      let calls ← int calls
      let f ← state.f
      let f ← f.addRms i
      .ok { state with totCalls := state.totCalls + calls, temp := state.temp.dropLast ++ [f] }
    else .ok state

def readLines (options : FitOptions) (state : Reading numpy) (lines : List Str) : Except String (Reading numpy) :=
  lines.foldlM (fun state line => readLine options state (split line)) state

def readReport (numpy : Numpy) (options : FitOptions) (data : Str) : Except String (Reading numpy) :=
  readLines options {} (data.splitOn '\n')

end

end Aprof.PyPlot

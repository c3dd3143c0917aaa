import Aprof.Data

/-! The string functions that the lines of a report go through: `put_delim`, the
tokens of `VG_(strtok)`, `VG_(strtoull10)` and `str_hash`, and what they do to a
file name. Texts are lists of bytes. -/
namespace Aprof

/-- What a function on C strings sees of a buffer. -/
def cString (buffer : Str) : Str := buffer.takeWhile (· != '\x00')

/-- `put_delim`: a blank outside quotes becomes the delimiter. -/
def putDelim : Bool → Str → Str
  | _, [] => []
  | skip, char :: text =>
    if char = ' ' ∧ skip = false then '$' :: putDelim skip text
    else if char = '"' then char :: putDelim (!skip) text
    else char :: putDelim skip text

/-- What `VG_(strtok)` with the delimiter `$` returns call after call. -/
def tokens (text : Str) : List Str := (text.splitOn '$').filter (· ≠ [])

/-- The name between the quotes of a token: the last byte is overwritten and the
first one skipped. -/
def unquote (token : Str) : Str := token.dropLast.drop 1

def isSpace (char : Char) : Bool := char ∈ [' ','\n','\t','\x0c','\x0b','\r']

/-- `VG_(strtoull10)`, and whether it converted a digit. -/
def strtoull10 (token : Str) : UInt64 × Bool :=
  let text := token.dropWhile isSpace
  let text := if text.head? = some '+' then text.drop 1 else text
  let digits := text.takeWhile Char.isDigit
  (digits.foldl (fun n digit => 10 * n + (digit.toNat - '0'.toNat).toUInt64) 0,!digits.isEmpty)

/-- A byte as the signed `HChar` it is added to a hash as. -/
def signedChar (char : Char) : UInt32 := if char.toNat < 128 then char.toNat.toUInt32 else char.toNat.toUInt32 - 256

def strHash (text : Str) : UInt32 := text.foldl (fun hash char => 31 * hash + signedChar char) 0

def basename (path : Str) : Str := (path.reverse.takeWhile (· != '/')).reverse

/-- `get_memory_resolution_report`, read from the end of the file name; `-1` when
the name has no resolution. -/
def memoryResolutionReport (report : Str) : UInt32 :=
  match (basename report).reverse with
  | 'f' :: 'o' :: 'r' :: 'p' :: 'a' :: '.' :: name =>
    if '_' ∈ name.dropLast then (strtoull10 (name.takeWhile (· != '_')).reverse).1.toUInt32 else -1
  | _ => -1

example : tokens (putDelim false "p 4 5  \"a b\" 7".toList) = ["p".toList,"4".toList,"5".toList,"\"a b\"".toList,"7".toList] := by
  decide

example : memoryResolutionReport "/logs/ls_120_0_4.aprof".toList = 4 := by decide

end Aprof

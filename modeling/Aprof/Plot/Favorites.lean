import Mathlib.Data.Finset.Basic
import Mathlib.Logic.Function.Basic

/-! The favourites of a report and `save` of `AprofReport.java`, over a map from paths to lines. -/
namespace Aprof.Plot

structure File where
  parent : Option String
  name : String
  deriving DecidableEq

def File.toString (file : File) : String :=
  match file.parent with
  | none => file.name
  | some parent => parent ++ ("/" ++ file.name)

abbrev FileSystem : Type := File → Option (List String)

namespace FileSystem

def write (fs : FileSystem) (file : File) (lines : List String) : FileSystem := Function.update fs file (some lines)

def createNewFile (fs : FileSystem) (file : File) : FileSystem := if (fs file).isSome then fs else fs.write file []

def delete (fs : FileSystem) (file : File) : FileSystem := Function.update fs file none

def renameTo (fs : FileSystem) (source target : File) : FileSystem :=
  match fs source with
  | none => fs
  | some lines => (fs.delete source).write target lines

section
variable {fs : FileSystem} {file other source : File}

@[simp] theorem write_self (fs : FileSystem) (file : File) (lines : List String) : fs.write file lines file = some lines :=
  Function.update_self ..

theorem write_other (different : other ≠ file) (lines : List String) : fs.write file lines other = fs other :=
  Function.update_of_ne different ..

@[simp] theorem delete_self (fs : FileSystem) (file : File) : fs.delete file file = none := Function.update_self ..

theorem delete_other (different : other ≠ file) : fs.delete file other = fs other := Function.update_of_ne different ..

theorem renameTo_missing (missing : fs source = none) (target : File) : fs.renameTo source target = fs := by
  rw [renameTo,missing]

theorem renameTo_target {lines : List String} (found : fs source = some lines) (target : File) :
    fs.renameTo source target target = some lines := by
  rw [renameTo,found]
  exact write_self ..

theorem createNewFile_other (different : other ≠ file) : fs.createNewFile file other = fs other := by
  unfold createNewFile
  split
  · rfl
  · exact write_other different []

end

end FileSystem

/-- The delimiters of a `StringTokenizer`. -/
def delimiters : List Char := " \t\n\r\x0c".toList

/-- `nextToken` on a new `StringTokenizer`; `none` for its exception. -/
def firstToken (line : String) : Option String :=
  match line.toList.dropWhile delimiters.contains with
  | [] => none
  | start => some (String.ofList (start.takeWhile fun c => ¬delimiters.contains c))

structure AprofReport where
  file : File
  favorites : Finset String

def AprofReport.getName (report : AprofReport) : String := report.file.toString

structure Session where
  fs : FileSystem
  report : AprofReport

/-- The reading loop of `save`: what it prints to `out`. -/
def copyLines : List String → Except String (List String)
  | [] => .ok []
  | str :: lines =>
    match firstToken str with
    | none => .error "NoSuchElementException"
    | some token => do
      let out ← copyLines lines
      .ok (if token ≠ "fav" then str :: out else out)

def favLine (names : List String) : String := "fav " ++ String.join (names.map (· ++ " "))

def temporary (file : File) : File := ⟨file.parent,"aprof-plot.tmp"⟩

/-- `save`; `order` is the order in which a `HashSet` is iterated. -/
def save (order : Finset String → List String) (session : Session) : Except String Session := do
  let report := session.report
  let tmp := temporary report.file
  let fs := session.fs.createNewFile tmp
  if fs report.file = none then .error "FileNotFoundException" else
  -- the writer truncates `tmp` before anything is read
  let fs := fs.write tmp []
  let out ← copyLines ((fs report.file).getD [])
  let fs := fs.write tmp (if report.favorites = ∅ then out else out ++ [favLine (order report.favorites)])
  let fs := (fs.delete report.file).renameTo tmp report.file
  .ok ⟨fs,{ report with file := tmp }⟩

inductive ReportCall where
  | addToFavorites (fav : String)
  | removeFromFavorites (fav : String)
  | save
  deriving DecidableEq

def ReportCall.run (order : Finset String → List String) (session : Session) : ReportCall → Except String Session
  | .addToFavorites fav => .ok { session with report.favorites := insert fav session.report.favorites }
  | .removeFromFavorites fav => .ok { session with report.favorites := session.report.favorites.erase fav }
  | .save => Plot.save order session

def runReportCalls (order : Finset String → List String) (calls : List ReportCall) (session : Session) : Except String Session :=
  calls.foldlM (ReportCall.run order) session

structure WithFavorites (lines : List String) (favorites : Finset String) (saved : List String) : Prop where
  content : ∃ names : List String, names.Nodup ∧ names.toFinset = favorites ∧
    saved = (lines.filter fun line => firstToken line ≠ some "fav") ++ if favorites = ∅ then [] else [favLine names]

/-- Every `save` completes, the report's path then holds its lines with the current
favourites and `getName` still denotes it. -/
def SavesInPlace (order : Finset String → List String) (fs : FileSystem) (report : AprofReport) (lines : List String)
    (calls : List ReportCall) : Prop :=
  ∀ before later, calls = before ++ .save :: later → ∃ session saved,
    runReportCalls order (before ++ [.save]) ⟨fs,report⟩ = .ok session ∧ session.fs report.file = some saved ∧
      WithFavorites lines session.report.favorites saved ∧ session.report.getName = report.getName

section
variable {order : Finset String → List String} {session after : Session}

theorem File.toString_temporary {file : File} (same : (temporary file).toString = file.toString) : temporary file = file := by
  obtain ⟨parent,name⟩ := file
  cases parent with
  | none =>
    change "aprof-plot.tmp" = name at same
    rw [temporary,same]
  | some parent =>
    change parent ++ ("/" ++ "aprof-plot.tmp") = parent ++ ("/" ++ name) at same
    have equal := String.append_right_inj parent |>.mp same
    rw [String.append_right_inj] at equal
    rw [temporary,equal]

theorem save_ok (saved : save order session = .ok after) :
    after.report = { session.report with file := temporary session.report.file } ∧
      (temporary session.report.file = session.report.file → after.fs session.report.file = none) := by
  unfold save at saved
  dsimp only at saved
  split at saved
  · cases saved
  · cases copied : copyLines (((session.fs.createNewFile (temporary session.report.file)).write
      (temporary session.report.file) []) session.report.file |>.getD []) with
    | error message =>
      rw [copied] at saved
      cases saved
    | ok out =>
      rw [copied] at saved
      cases saved
      refine ⟨rfl,fun same => ?_⟩
      dsimp only
      rw [same,FileSystem.renameTo_missing (FileSystem.delete_self ..)]
      exact FileSystem.delete_self ..

theorem runReportCalls_append (before later : List ReportCall) (session : Session) :
    runReportCalls order (before ++ later) session = runReportCalls order before session >>= runReportCalls order later :=
  List.foldlM_append

theorem runReportCalls_favorites {calls : List ReportCall} (unsaved : ReportCall.save ∉ calls) :
    ∀ session, ∃ favorites, runReportCalls order calls session =
      .ok ⟨session.fs,{ session.report with favorites := favorites }⟩ := by
  induction calls with
  | nil => exact fun session => ⟨_,rfl⟩
  | cons call calls ih =>
    intro session
    have later := ih fun member => unsaved (List.mem_cons_of_mem call member)
    cases call with
    | addToFavorites fav => exact later { session with report.favorites := insert fav session.report.favorites }
    | removeFromFavorites fav => exact later { session with report.favorites := session.report.favorites.erase fav }
    | save => exact absurd List.mem_cons_self unsaved

end

/-- Saving stays in place exactly in the sessions that never save. -/
theorem saves_in_place_iff (order : Finset String → List String) (fs : FileSystem) (report : AprofReport)
    (lines : List String) (calls : List ReportCall) :
    SavesInPlace order fs report lines calls ↔ ReportCall.save ∉ calls := by
  constructor
  · intro inPlace member
    obtain ⟨before,later,rfl,first⟩ := List.eq_append_cons_of_mem member
    obtain ⟨session,saved,ran,held,-,named⟩ := inPlace before later rfl
    obtain ⟨favorites,unsaved⟩ := @runReportCalls_favorites order before first ⟨fs,report⟩
    rw [runReportCalls_append,unsaved] at ran
    have ended : save order ⟨fs,{ report with favorites := favorites }⟩ = .ok session := by
      cases outcome : save order ⟨fs,{ report with favorites := favorites }⟩ with
      | error message =>
        change (save order _ >>= pure) = _ at ran
        rw [outcome] at ran
        cases ran
      | ok after =>
        change (save order _ >>= pure) = _ at ran
        rw [outcome] at ran
        exact ran
    obtain ⟨moved,lost⟩ := save_ok ended
    rw [AprofReport.getName,moved] at named
    have none := lost (File.toString_temporary named)
    rw [none] at held
    cases held
  · intro unsaved before later split
    refine absurd ?_ unsaved
    rw [split]
    exact List.mem_append_right before List.mem_cons_self

section
variable {order : Finset String → List String} {report : AprofReport} {fs : FileSystem} {lines : List String}

theorem copyLines_ok (plain : ∀ line ∈ lines, firstToken line ≠ none) :
    copyLines lines = .ok (lines.filter fun line => firstToken line ≠ some "fav") := by
  induction lines with
  | nil => rfl
  | cons str lines ih =>
    obtain ⟨token,first⟩ := Option.ne_none_iff_exists'.mp (plain str List.mem_cons_self)
    rw [copyLines,first]
    dsimp only
    rw [ih fun line member => plain line (List.mem_cons_of_mem str member)]
    show Except.ok _ = _
    rw [List.filter_cons]
    by_cases fav : token = "fav" <;> simp [first,fav]

theorem first_save (elsewhere : temporary report.file ≠ report.file) (found : fs report.file = some lines)
    (plain : ∀ line ∈ lines, firstToken line ≠ none)
    (iterates : (order report.favorites).Nodup ∧ (order report.favorites).toFinset = report.favorites) :
    ∃ session saved, save order ⟨fs,report⟩ = .ok session ∧ session.fs report.file = some saved ∧
      WithFavorites lines report.favorites saved := by
  have created := (FileSystem.createNewFile_other elsewhere.symm).trans found
  have read : ((fs.createNewFile (temporary report.file)).write (temporary report.file) []) report.file = some lines :=
    (FileSystem.write_other elsewhere.symm []).trans created
  generalize whole : (lines.filter (fun line => firstToken line ≠ some "fav") ++
    if report.favorites = ∅ then [] else [favLine (order report.favorites)]) = out
  have ended : save order ⟨fs,report⟩ = .ok ⟨((((fs.createNewFile (temporary report.file)).write (temporary report.file) []).write
      (temporary report.file) out).delete report.file).renameTo (temporary report.file) report.file,
      { report with file := temporary report.file }⟩ := by
    unfold save
    dsimp only
    rw [if_neg (by rw [created]; exact Option.some_ne_none _),read,Option.getD_some,copyLines_ok plain,← whole]
    by_cases none : report.favorites = ∅
    · rw [if_pos none,List.append_nil]
      simp [bind,Except.bind,none]
    · simp [bind,Except.bind,none]
  refine ⟨_,out,ended,FileSystem.renameTo_target ?_ report.file,⟨order report.favorites,iterates.1,iterates.2,whole.symm⟩⟩
  exact (FileSystem.delete_other elsewhere).trans (FileSystem.write_self ..)

/-- A later save works on the temporary file, which the first one renamed: it changes no file. -/
theorem later_save (session : Session) (missing : session.fs session.report.file = none)
    (moved : temporary session.report.file = session.report.file) :
    ∃ after, save order session = .ok after ∧ after.fs = session.fs := by
  have created : session.fs.createNewFile session.report.file session.report.file = some [] := by
    rw [FileSystem.createNewFile,missing]
    exact FileSystem.write_self ..
  cases ended : save order session with
  | error message =>
    unfold save at ended
    dsimp only at ended
    rw [moved,if_neg (by rw [created]; exact Option.some_ne_none _),FileSystem.write_self] at ended
    cases ended
  | ok after =>
    refine ⟨after,rfl,?_⟩
    unfold save at ended
    dsimp only at ended
    rw [moved,if_neg (by rw [created]; exact Option.some_ne_none _),FileSystem.write_self] at ended
    cases ended
    dsimp only
    rw [FileSystem.renameTo_missing (FileSystem.delete_self ..)]
    ext1 file
    by_cases same : file = session.report.file
    · rw [same,missing]
      exact FileSystem.delete_self ..
    · rw [FileSystem.delete_other same,FileSystem.write_other same,FileSystem.write_other same,
        FileSystem.createNewFile_other same]

end

/-- Two saves with a favourite added in between: the report keeps its old lines and is named
by the temporary file, which is gone. -/
theorem second_save_lost :
    (runReportCalls (fun _ => ["main"]) [.save,.addToFavorites "main",.save]
      ⟨fun file => if file = ⟨none,"app.aprof"⟩ then some ["v 5"] else none,⟨⟨none,"app.aprof"⟩,∅⟩⟩).toOption.map
        (fun session => (session.fs ⟨none,"app.aprof"⟩,session.report.getName)) = some (some ["v 5"],"aprof-plot.tmp") ∧
      ¬SavesInPlace (fun _ => ["main"]) (fun file => if file = ⟨none,"app.aprof"⟩ then some ["v 5"] else none)
        ⟨⟨none,"app.aprof"⟩,∅⟩ ["v 5"] [.save,.addToFavorites "main",.save] := by
  refine ⟨by decide +kernel,fun inPlace => ?_⟩
  obtain ⟨session,saved,ran,-,-,named⟩ := inPlace [] [.addToFavorites "main",.save] rfl
  have moved : (runReportCalls (fun _ => ["main"]) [.save]
      ⟨fun file => if file = ⟨none,"app.aprof"⟩ then some ["v 5"] else none,⟨⟨none,"app.aprof"⟩,∅⟩⟩).toOption.map
        (fun session => session.report.getName) = some "aprof-plot.tmp" := by decide +kernel
  change runReportCalls _ [.save] _ = _ at ran
  rw [ran] at moved
  have different := named.symm.trans (Option.some.inj moved)
  revert different
  decide

end Aprof.Plot

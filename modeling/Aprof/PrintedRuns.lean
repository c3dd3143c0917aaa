import Aprof.PrintedGroups
import Aprof.RunGroups

/-! `aprof-helper -r` on reports of one program, as the tool prints and names them. -/
namespace Aprof.Helper

section
variable {D : Type} {squares : Squares D} {squareText : D → Str} {cfg : Config} {program : ReportRuntime}

variable {mergeRuns : Bool} {listPost : List Report} {cost : Nat}

/-- A report in a file that `report_name` has named -/
def Named (cfg : Config) (profile : StoredProfile) : Prop := ∃ naming, basename profile.path = reportName cfg naming

end

end Aprof.Helper

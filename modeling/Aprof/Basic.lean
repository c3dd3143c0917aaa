import Aprof.General.Lockstep

/-! Outcomes of the modelled C functions. A call either returns or stops the
tool: a failed `APROF_(assert)` prints its message and aborts, and a read
through a missing or out-of-range pointer is a memory fault. -/
namespace Aprof

inductive Fault where
  | assertion (message : String)
  | invalidPointer
  deriving DecidableEq, Repr

abbrev Result := Except Fault

/-- `APROF_(assert)(cond, message)`. -/
def check (cond : Bool) (message : String) : Result Unit :=
  if cond then .ok () else .error (.assertion message)

theorem bind_ok {α β : Type} {first : Result α} {next : α → Result β} {result : β} :
    (first >>= next) = .ok result ↔ ∃ value, first = .ok value ∧ next value = .ok result := except_bind

@[simp] theorem ok_bind {α β : Type} (value : α) (next : α → Result β) :
    ((.ok value : Result α) >>= next) = next value := rfl

@[simp] theorem error_bind {α β : Type} (fault : Fault) (next : α → Result β) :
    ((.error fault : Result α) >>= next) = .error fault := rfl

theorem check_ok {cond : Bool} {message : String} :
    check cond message = .ok () ↔ cond = true := by
  cases cond <;> simp [check]

section
variable {α : Type} {P : α → Prop} [DecidablePred P]

instance decidableReturns : ∀ outcome : Result α, Decidable (∃ value, outcome = .ok value ∧ P value)
  | .error _ => isFalse nofun
  | .ok value => decidable_of_iff (P value) (by simp)

instance decidableReturned : ∀ outcome : Result α, Decidable (∀ value, outcome = .ok value → P value)
  | .error _ => isTrue nofun
  | .ok value => decidable_of_iff (P value) (by simp)

instance decidableFound : ∀ entry : Option α, Decidable (∃ value, entry = some value ∧ P value)
  | none => isFalse nofun
  | some value => decidable_of_iff (P value) (by simp)

end

end Aprof

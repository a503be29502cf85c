import DegreeAudit.Fault
import DegreeAudit.Number.Numeral

/-!
# Values taken as whole numbers

Truth values count as 0 and 1, a number is cut off toward zero, and a text must be a numeral.
-/

namespace DegreeAudit.Json

/-- The whole number that a value stands for. -/
def whole : Json → Except Fault Int
  | .bool b => .ok (if b then 1 else 0)
  | .int n => .ok n
  | .float .nan => .error .notANumeral
  | .float (.infinite _) => .error .infiniteNumber
  | .float x => .ok (x.truncate?.getD 0)
  | .text s =>
    match Numeral.int? s with
    | some n => .ok n
    | none => .error .notANumeral
  | _ => .error .wrongKind

end DegreeAudit.Json

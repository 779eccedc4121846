import Foreman.Fault

/-!
Why the service refuses a request, and the HTTP status that goes with each reason.
-/

namespace Foreman

inductive Refusal where
  | badRequest (reason : String)
  | notFound (reason : String)
  | conflict (reason : String)
  | unavailable (reason : String)
  | internal (reason : String)
deriving DecidableEq

namespace Refusal

def status : Refusal → Nat
  | badRequest _ => 400
  | notFound _ => 404
  | conflict _ => 409
  | internal _ => 500
  | unavailable _ => 503

def reason : Refusal → String
  | badRequest s | notFound s | conflict s | unavailable s | internal s => s

/-- Faults that the caller can mend are told by their subject alone, all others in full. -/
def ofFault : Fault → Refusal
  | .notFound s => notFound s
  | .invalidInput s => badRequest s
  | .conflict s => conflict s
  | f@(.duplicateTask _) => conflict f.message
  | f => internal f.message

def ofStorage : StorageFault → Refusal
  | .notFound s => notFound s
  | .duplicate s => conflict s
  | f => internal f.message

end Refusal

end Foreman

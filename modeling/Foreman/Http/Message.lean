import Foreman.Json.Printer
import Foreman.Refusal

/-!
Requests to the service and its responses.
-/

namespace Foreman.Http

/-- A text goes as its octets. -/
instance coeText : Coe String ByteArray := ⟨String.toUTF8⟩

structure Request where
  method : String
  /-- Path and query. -/
  target : String
  contentType : Option String
  /-- Need not be a text. -/
  body : ByteArray

/-- A response without a body has nothing to say beyond its status. -/
structure Response where
  status : Nat
  body : Option Json

namespace Response

def ok (body : Json) : Response := ⟨200, some body⟩

def accepted (body : Json) : Response := ⟨202, some body⟩

def bare (status : Nat) : Response := ⟨status, none⟩

def refuse (r : Refusal) : Response := ⟨r.status, some (.object [("error", .string r.reason)])⟩

def withoutBody (r : Response) : Response := { r with body := none }

end Response

end Foreman.Http

import Moderation.Json.Printer
import Moderation.Text.Utf8

/-!
# HTTP messages

Requests and responses as far as the service and its clients look at them. The values of headers
are bytes, and so is the body of a request.
-/

namespace Moderation.Http

abbrev Headers := List (String × List UInt8)

structure Request where
  method : String
  /-- The path and the query. -/
  target : String
  headers : Headers
  body : List UInt8

structure Response where
  status : Nat
  contentType : Option String
  body : String
  /-- The number of the event stream that the response goes on with. -/
  stream : Option Nat

def jsonType : String := "application/json"

def eventStreamType : String := "text/event-stream"

namespace Headers

def asciiLower (text : String) : String := text.map Char.toLower

/-- The first value under a name, in any case. -/
def get? (headers : Headers) (name : String) : Option (List UInt8) :=
  (headers.find? fun (n, _) ↦ asciiLower n == name).map (·.2)

/-- Whether a byte may stand in the value of a header. -/
def isAllowed (b : UInt8) : Bool := (32 ≤ b && b != 127) || b == 9

/-- Whether a byte is a visible ASCII character or a blank. -/
def isVisible (b : UInt8) : Bool := (32 ≤ b && b < 127) || b == 9

/-- The text of a value of visible characters. -/
def text? (value : List UInt8) : Option (List Char) :=
  if value.all isVisible then some (value.map fun b ↦ Char.ofNat b.toNat) else none

end Headers

namespace Response

def empty (status : Nat) : Response := ⟨status, none, "", none⟩

def ofText (status : Nat) (body : String) : Response := ⟨status, some jsonType, body, none⟩

/-- A response with a value; the members of objects are in the order of their names. -/
def ofJson (status : Nat) (value : Json) : Response := ofText status value.normalize.text

def isSuccess (r : Response) : Bool := 200 ≤ r.status && r.status < 300

/-- The response to a request that only asks for the head. -/
def head (r : Response) : Response := { r with body := "", stream := none }

end Response

end Moderation.Http

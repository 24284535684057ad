import Moderation.Http.Message
import Moderation.Identity
import Moderation.Text.Blank
import Moderation.Text.Unsigned

/-!
# Identity headers

A request says in two headers for which moderator it is made. Blanks around the values do not
count.
-/

namespace Moderation.Http.Identity

def idHeader : String := "x-moderator-id"

def usernameHeader : String := "x-moderator-username"

inductive Fault where
  | missing (header : String)
  | invalid (header : String)
deriving DecidableEq, Repr

def Fault.message : Fault → String
  | .missing header => "missing " ++ header ++ " header"
  | .invalid header => "invalid " ++ header ++ " header"

/-- The headers of a moderator. -/
def headers (user : User) : Headers :=
  [(idHeader, Utf8.encode (toString user.id)), (usernameHeader, Utf8.encode user.username)]

/-- The value of a header; one that is blank or has other characters than visible ones is as good
as none. -/
def value? (headers : Headers) (name : String) : Option String := do
  let text ← Headers.text? (← headers.get? name)
  let text := Text.trim text
  if text.isEmpty then none else some (String.ofList text)

/-- The moderator that the headers name. -/
def moderator (headers : Headers) : Except Fault User :=
  match value? headers idHeader with
  | none => .error (.missing idHeader)
  | some id => match Unsigned.read id with
    | .error _ => .error (.invalid idHeader)
    | .ok id => match value? headers usernameHeader with
      | none => .error (.missing usernameHeader)
      | some username => .ok ⟨⟨id⟩, username⟩

end Moderation.Http.Identity

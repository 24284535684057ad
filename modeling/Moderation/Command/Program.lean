import Moderation.Command.Files
import Moderation.Http.Client

/-!
# Programs

A program is what a command does, taken apart into what it asks of the place where it runs: text
to print, lines and files to read, the time, and requests to a service. A place without anything
real in it answers all of this from what it holds, and keeps what was printed.
-/

namespace Moderation.Command

/-- What a program asks of its place. -/
inductive Need where
  | print (text : String)
  /-- Text beside the output proper. -/
  | warn (text : String)
  /-- The next line of the input, empty at its end. -/
  | readLine
  /-- The text of a file, or why it cannot be read. -/
  | readFile (path : String)
  | clock
  | exchange (server : String) (request : Http.Request)

abbrev Need.Answer : Need → Type
  | print _ => Unit
  | warn _ => Unit
  | readLine => String
  | readFile _ => Except ReadFault String
  | clock => Time
  | exchange .. => Except String Http.Response

inductive Program (α : Type) where
  | done (value : α)
  | ask (need : Need) (next : need.Answer → Program α)

namespace Program

variable {α β : Type}

def bind : Program α → (α → Program β) → Program β
  | done a, f => f a
  | ask need next, f => ask need fun answer ↦ (next answer).bind f

instance : Monad Program where
  pure := done
  bind := bind

def need (n : Need) : Program n.Answer := ask n done

def print (text : String) : Program Unit := need (.print text)

def printLine (line : String) : Program Unit := print (line ++ "\n")

def printLines (lines : List String) : Program Unit := lines.forM printLine

def warn (text : String) : Program Unit := need (.warn text)

/-- Tells of an error, in a line of its own. -/
def complain (message : String) : Program Unit := warn ("error: " ++ message ++ "\n")

def clock : Program Time := need .clock

end Program

/-- A place that holds all there is. -/
structure Place where
  files : Files
  input : List Char
  now : Time
  link : Http.Client.Link
  printed : String
  warned : String

namespace Place

/-- A line with its end, and what comes after it. -/
def cutLine : List Char → List Char × List Char
  | [] => ([], [])
  | c :: rest =>
    if c = '\n' then ([c], rest)
    else
      let (line, rest) := cutLine rest
      (c :: line, rest)

def answer (p : Place) : (n : Need) → n.Answer × Place
  | .print text => ((), { p with printed := p.printed ++ text })
  | .warn text => ((), { p with warned := p.warned ++ text })
  | .readLine =>
    let (line, rest) := cutLine p.input
    (String.ofList line, { p with input := rest })
  | .readFile path => (p.files.read path, p)
  | .clock => (p.now, p)
  | .exchange _ request => (p.link request, p)

/-- Runs a program to its end. -/
def run {α : Type} (p : Place) : Program α → α × Place
  | .done a => (a, p)
  | .ask n next =>
    let (reply, p) := p.answer n
    p.run (next reply)

end Place

end Moderation.Command

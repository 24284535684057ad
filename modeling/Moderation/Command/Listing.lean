import Moderation.Reviewable
import Moderation.Text.Blank

/-!
# Tables of reviewables

A table has a line of headings, a line of dashes and a line for each row. A column is as wide as
the longest of its cells in bytes of UTF-8, two blanks part columns, and no line ends in blanks.
-/

namespace Moderation.Command

namespace Table

/-- The larger widths, column by column. -/
def widen (widths : List Nat) (row : List String) : List Nat :=
  widths.zipWith (fun width cell ↦ max width cell.utf8ByteSize) row

def widths (headings : List String) (rows : List (List String)) : List Nat :=
  rows.foldl widen (headings.map (·.utf8ByteSize))

/-- A cell, filled up to a number of characters. -/
def pad (cell : String) (width : Nat) : String :=
  cell ++ String.ofList (List.replicate (width - cell.length) ' ')

def gap : String := "  "

def line (widths : List Nat) (row : List String) : String :=
  String.ofList (Text.trimEnd (gap.intercalate (row.zipWith pad widths)).toList)

def lines (headings : List String) (rows : List (List String)) : List String :=
  let widths := widths headings rows
  let dashes := gap.intercalate (widths.map fun width ↦ String.ofList (List.replicate width '-'))
  line widths headings :: dashes :: rows.map (line widths)

end Table

/-- Who holds a claim, and whether by starting an action. -/
def claimLabel : Option Claim → String
  | some claim => if claim.automatic then claim.user.username ++ " (auto)" else claim.user.username
  | none => "-"

def listHeadings : List String :=
  ["ID", "TYPE", "STATUS", "VER", "TOPIC", "CLAIMED BY", "AGE", "ACTIONS"]

/-- The row of a reviewable at a time. -/
def listRow (now : Time) (r : Reviewable) : List String :=
  [toString r.id, r.kind, r.status.name, toString r.version,
    (r.topic.map toString).getD "-", claimLabel r.claim, Time.age r.createdAt now,
    ",".intercalate (r.actions.map (·.name))]

/-- What is worth knowing of an action before it is performed. -/
def actionNotes (a : Action) : List String :=
  (a.workflow.map ("client: " ++ ·)).toList ++ (a.confirmation.map fun _ ↦ "confirm").toList ++
    (if a.needsReason then ["needs --reason"] else [])

def actionLine (a : Action) : String :=
  let notes := actionNotes a
  if notes.isEmpty then "    " ++ a.name
  else "    " ++ a.name ++ "  [" ++ ", ".intercalate notes ++ "]"

/-- A reviewable on its own, attribute by attribute. -/
def detailLines (r : Reviewable) : List String :=
  ["Reviewable " ++ toString r.id ++ " (" ++ r.kind ++ ")",
    "  status:     " ++ r.status.name,
    "  version:    " ++ toString r.version] ++
  (r.topic.map fun topic ↦ "  topic:      " ++ toString topic).toList ++
  ["  claimed by: " ++ claimLabel r.claim] ++
  (r.author.map fun user ↦
    "  author:     " ++ user.username ++ " (" ++ toString user.id ++ ")").toList ++
  (r.rejectReason.map ("  rejected:   " ++ ·)).toList ++
  (if r.actions.isEmpty then [] else "  actions:" :: r.actions.map actionLine)

end Moderation.Command

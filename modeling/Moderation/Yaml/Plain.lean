import Moderation.Yaml.Cursor

/-!
# Plain YAML scalars

A text without quotes ends where a comment, a colon before a gap or, inside brackets, a bracket or
comma begins. It goes on over lines as long as these do not begin left of the margin, whatever they
begin with.
-/

namespace Moderation.Yaml

def isFlowMark (c : Char) : Bool :=
  c == ',' || c == '[' || c == ']' || c == '\x7b' || c == '\x7d'

/-- A word of a plain scalar. Inside brackets no colon may stand right before a mark. -/
def plainWord? (inFlow : Bool) : List Char → Option (List Char)
  | [] => some []
  | c :: rest =>
    if isBlank c || isBreak c then some []
    else if inFlow && c == ':' && rest.head?.any (fun d ↦ isFlowMark d || d == '?') then none
    else if (c == ':' && endsWord rest.head?) || (inFlow && isFlowMark c) then some []
    else (plainWord? inFlow rest).map (c :: ·)

/-- The rest of a plain scalar after a gap, and whether a line break lies behind its end. The gap
belongs to it only if another word follows. -/
def readPlain (inFlow : Bool) (margin : Nat) : Nat → Gap → Cursor →
    Option (List Char × Bool × Cursor)
  | 0, _, _ => none
  | fuel + 1, gap, c =>
    if c.isDocumentMark || c.head? == some '#' then some ([], gap.isBroken, c)
    else do
      let word ← plainWord? inFlow c.rest
      if word.isEmpty then some ([], gap.isBroken, c)
      else
        let c := c.skip word.length
        if c.rest.isEmpty || !endsWord c.head? then some (gap.text ++ word, false, c)
        else
          let (next, c) ← c.gap? margin false
          if !inFlow && c.column < margin then some (gap.text ++ word, next.isBroken, c)
          else
            let (more, broken, c) ← readPlain inFlow margin fuel next c
            pure (gap.text ++ word ++ more, broken, c)

end Moderation.Yaml

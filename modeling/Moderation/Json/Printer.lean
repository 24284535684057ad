import Moderation.Json
import Moderation.Number.Shortest

/-!
# Writing JSON text

The compact form has no blanks, and the indented form puts every item and member on a line of
its own. Members are written in the order in which they are given.
-/

namespace Moderation

namespace Number

def digitsOf (n : Nat) : List Char := Nat.toDigits 10 n

def integerText (n : Int) : List Char :=
  if n < 0 then '-' :: digitsOf n.natAbs else digitsOf n.natAbs

/-- An exponent with its sign. -/
def exponentText (e : Int) : List Char :=
  'e' :: (if e < 0 then '-' else '+') :: digitsOf e.natAbs

/-- The shortest decimal: in positional notation while the point stands within the digits, up to
sixteen places after the first or up to four zeros before it, and else with an exponent. An
integral number keeps one zero after the point. -/
def realText (x : Binary64) : List Char :=
  let d := x.shortest
  let digits := digitsOf d.digits
  let count : Int := digits.length
  let point := count + d.exponent
  let text :=
    if d.digits = 0 then ['0', '.', '0']
    else if 0 ≤ d.exponent ∧ point ≤ 16 then
      digits ++ List.replicate d.exponent.toNat '0' ++ ['.', '0']
    else if 0 < point ∧ point ≤ 16 then
      digits.take point.toNat ++ '.' :: digits.drop point.toNat
    else if -5 < point ∧ point ≤ 0 then
      '0' :: '.' :: (List.replicate (-point).toNat '0' ++ digits)
    else
      let mantissa := if digits.length = 1 then digits else digits.take 1 ++ '.' :: digits.drop 1
      mantissa ++ exponentText (point - 1)
  if x.negative then '-' :: text else text

def text : Number → List Char
  | .integer n => integerText n
  | .real x => realText x

end Number

namespace Json

def hexDigit (n : Nat) : Char := (Nat.toDigits 16 n).headD '0'

/-- A character within quotes: the two that would end it or escape, and the control characters,
are written as escapes. -/
def escapeChar (c : Char) : List Char :=
  match c with
  | '"' => ['\\', '"']
  | '\\' => ['\\', '\\']
  | '\x08' => ['\\', 'b']
  | '\x0c' => ['\\', 'f']
  | '\n' => ['\\', 'n']
  | '\r' => ['\\', 'r']
  | '\t' => ['\\', 't']
  | c =>
    if c.toNat < 0x20 then
      ['\\', 'u', '0', '0', hexDigit (c.toNat / 16), hexDigit (c.toNat % 16)]
    else [c]

def quote (s : String) : List Char := '"' :: (s.toList.flatMap escapeChar ++ ['"'])

mutual

/-- The compact form. -/
def print : Json → List Char
  | null => ['n', 'u', 'l', 'l']
  | bool true => ['t', 'r', 'u', 'e']
  | bool false => ['f', 'a', 'l', 's', 'e']
  | number n => n.text
  | string s => quote s
  | array items => '[' :: printItems items
  | object members => '\x7b' :: printMembers members

/-- The items after the opening bracket, with the closing one. -/
def printItems : List Json → List Char
  | [] => [']']
  | [item] => print item ++ [']']
  | item :: rest => print item ++ ',' :: printItems rest

/-- The members after the opening brace, with the closing one. -/
def printMembers : List (String × Json) → List Char
  | [] => ['\x7d']
  | [(name, value)] => quote name ++ ':' :: (print value ++ ['\x7d'])
  | (name, value) :: rest => quote name ++ ':' :: (print value ++ ',' :: printMembers rest)

end

/-- The compact text of a value. -/
def text (value : Json) : String := String.ofList value.print

def newline (depth : Nat) : List Char := '\n' :: List.replicate (2 * depth) ' '

mutual

/-- The indented form, two blanks for each level. -/
def printIndented (depth : Nat) : Json → List Char
  | array [] => ['[', ']']
  | array items => '[' :: printIndentedItems (depth + 1) items ++ newline depth ++ [']']
  | object [] => ['\x7b', '\x7d']
  | object members =>
    '\x7b' :: printIndentedMembers (depth + 1) members ++ newline depth ++ ['\x7d']
  | null => print null
  | bool b => print (bool b)
  | number n => print (number n)
  | string s => print (string s)

def printIndentedItems (depth : Nat) : List Json → List Char
  | [] => []
  | [item] => newline depth ++ printIndented depth item
  | item :: rest =>
    newline depth ++ printIndented depth item ++ ',' :: printIndentedItems depth rest

def printIndentedMembers (depth : Nat) : List (String × Json) → List Char
  | [] => []
  | [(name, value)] => newline depth ++ quote name ++ ':' :: ' ' :: printIndented depth value
  | (name, value) :: rest =>
    newline depth ++ quote name ++ ':' :: ' ' :: (printIndented depth value ++
      ',' :: printIndentedMembers depth rest)

end

/-- The indented text of a value. -/
def indentedText (value : Json) : String := String.ofList (value.printIndented 0)

end Json

end Moderation

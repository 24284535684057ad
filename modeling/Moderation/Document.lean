import Moderation.Json

/-!
# Documents

A document is what a text says before it is known what it should be read as. JSON and YAML texts
both become documents, and a decoder gives one its meaning. A text that goes wrong still has a
document: it ends where the fault is, so that a decoder meets a value of the wrong kind before
the fault, or the fault before the value, in the order of the text.
-/

namespace Moderation

/-- A number as written. -/
structure Numeral where
  negative : Bool
  whole : List Char
  fraction : Option (List Char)
  /-- Whether the exponent is negative, and its digits. -/
  exponent : Option (Bool × List Char)
deriving Repr

/-- How a list or mapping ends. -/
inductive Ending where
  /-- By its closing bracket. -/
  | bracket
  /-- Nowhere: the text is at fault before the closing bracket. -/
  | missing
  /-- By the layout of the lines, or within them; such a collection never stands for a record
  by position. -/
  | layout
deriving DecidableEq, Repr

inductive Document where
  | null
  | bool (value : Bool)
  | number (numeral : Numeral)
  /-- A quoted text; nothing when an escape in it names no character. -/
  | text (value : Option String)
  /-- A text without quotes, whose kind depends on what is wanted. -/
  | plain (value : String)
  | list (items : List Document) (ending : Ending)
  | mapping (members : List (Document × Document)) (ending : Ending)
  /-- A document of which a tag says what it is. -/
  | tagged (tag : String) (document : Document)
  /-- The place where the text is at fault. -/
  | broken

namespace Document

/-- A document without a fault of the text that no decoder accepts: a mapping with a mapping for a
key. -/
def unreadable : Document := .mapping [(.mapping [] .layout, .null)] .layout

/-- The document without the tags before it. -/
def untagged : Document → Document
  | tagged _ document => untagged document
  | document => document

mutual

/-- Whether the document holds no fault of the text. -/
def sound : Document → Bool
  | broken => false
  | list items ending => soundItems items && ending != .missing
  | mapping members ending => soundMembers members && ending != .missing
  | tagged _ document => sound document
  | null => true
  | bool _ => true
  | number _ => true
  | text _ => true
  | plain _ => true

def soundItems : List Document → Bool
  | [] => true
  | item :: rest => sound item && soundItems rest

def soundMembers : List (Document × Document) → Bool
  | [] => true
  | (key, value) :: rest => sound key && sound value && soundMembers rest

end

end Document

end Moderation

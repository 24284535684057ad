import Moderation.Proofs.Json.Numeral
import Moderation.Proofs.Json.Quote

/-!
# Reading what was written

The compact text of a value is read as the document of that value, whatever follows it within a
larger text. Nothing but the numbers can come back as something else.
-/

namespace Moderation.Json

mutual

/-- What the text of a value says. -/
def toDocument : Json → Document
  | null => .null
  | bool b => .bool b
  | number n => .number n.numeral
  | string s => .text (some s)
  | array items => .list (toItems items) .bracket
  | object members => .mapping (toMembers members) .bracket

def toItems : List Json → List Document
  | [] => []
  | item :: rest => toDocument item :: toItems rest

def toMembers : List (String × Json) → List (Document × Document)
  | [] => []
  | (name, value) :: rest => (.text (some name), toDocument value) :: toMembers rest

end

/-- How the text of a value begins: neither with a blank nor with the end of a list. -/
def BeginsValue (c : Char) : Prop := isBlank c = false ∧ c ≠ ']'

theorem beginsValue_of_isDigit {c : Char} (h : isDigit c = true) : BeginsValue c := by
  refine ⟨?_, ?_⟩
  · rw [Bool.eq_false_iff]
    intro hblank
    have hcases : ((c = ' ' ∨ c = '\n') ∨ c = '\t') ∨ c = '\r' := by
      simpa only [isBlank, Bool.or_eq_true, beq_iff_eq] using hblank
    rcases hcases with ((rfl | rfl) | rfl) | rfl <;> simp [isDigit] at h
  · rintro rfl
    simp [isDigit] at h

/-- A printed value is not empty, and starts like a value. -/
theorem print_eq_cons (value : Json) :
    ∃ c cs, value.print = c :: cs ∧ BeginsValue c := by
  cases value with
  | null => exact ⟨'n', _, rfl, by decide, by decide⟩
  | bool b => cases b <;> exact ⟨_, _, rfl, by decide, by decide⟩
  | number n =>
    obtain ⟨c, cs, hcons, hc⟩ := n.numeral_wellFormed.chars_eq_cons
    refine ⟨c, cs, by rw [print, n.text_eq, hcons], ?_⟩
    rcases hc with rfl | hdigit
    · exact ⟨by decide, by decide⟩
    · exact beginsValue_of_isDigit hdigit
  | string s => exact ⟨'"', _, rfl, by decide, by decide⟩
  | array items => exact ⟨'[', _, by rw [print], by decide, by decide⟩
  | object members => exact ⟨'\x7b', _, by rw [print], by decide, by decide⟩

variable {rest : List Char} {fuel : Nat}

/-- No blank stands before a printed value. -/
theorem skipBlank_print (value : Json) (rest : List Char) :
    skipBlank (value.print ++ rest) = value.print ++ rest := by
  obtain ⟨c, cs, hcons, hblank, -⟩ := value.print_eq_cons
  rw [hcons, List.cons_append, skipBlank, List.dropWhile_cons_of_neg (by simp [hblank])]

/-- What starts like a number is read as one. -/
theorem readValue_number (n : Number) (ends : EndsValue rest) :
    readValue (fuel + 1) (n.text ++ rest) = (.number n.numeral, some rest) := by
  have hskip := skipBlank_print (.number n) rest
  rw [print] at hskip
  have hread := n.readNumeral?_text ends
  obtain ⟨c, cs, hcons, hc⟩ := n.numeral_wellFormed.chars_eq_cons
  rw [← n.text_eq] at hcons
  rw [hcons, List.cons_append] at hskip hread ⊢
  have hplain : c ≠ '"' ∧ c ≠ '[' ∧ c ≠ '\x7b' ∧ c ≠ 'n' ∧ c ≠ 't' ∧ c ≠ 'f' := by
    rcases hc with rfl | hdigit
    · decide
    · refine ⟨?_, ?_, ?_, ?_, ?_, ?_⟩ <;> rintro rfl <;> simp [isDigit] at hdigit
  obtain ⟨hquote, hbracket, hbrace, hn, ht, hf⟩ := hplain
  unfold readValue
  rw [hskip]
  split
  · simp_all
  · rename_i heq
    exact absurd (List.cons.inj heq).1 hquote
  · rename_i heq
    exact absurd (List.cons.inj heq).1 hbracket
  · rename_i heq
    exact absurd (List.cons.inj heq).1 hbrace
  · rename_i heq
    exact absurd (List.cons.inj heq).1 hn
  · rename_i heq
    exact absurd (List.cons.inj heq).1 ht
  · rename_i heq
    exact absurd (List.cons.inj heq).1 hf
  · rw [hread]
    rfl

theorem endsValue_comma (rest : List Char) : EndsValue (',' :: rest) := by
  simp [EndsValue]

theorem endsValue_bracket (rest : List Char) : EndsValue (']' :: rest) := by
  simp [EndsValue]

theorem endsValue_brace (rest : List Char) : EndsValue ('\x7d' :: rest) := by
  simp [EndsValue]

/-- A bracket opens a list, and the items are read up to its end. -/
theorem readValue_list {items : List Char} (h : ∃ c cs, items = c :: cs ∧ BeginsValue c) :
    readValue (fuel + 1) ('[' :: items) =
      (.list (readItems fuel items).1
        (if (readItems fuel items).2.isSome then .bracket else .missing),
        (readItems fuel items).2) := by
  obtain ⟨c, cs, rfl, hblank, hbracket⟩ := h
  have hopen : skipBlank ('[' :: c :: cs) = '[' :: c :: cs := rfl
  have hskip : skipBlank (c :: cs) = c :: cs := List.dropWhile_cons_of_neg (by simp [hblank])
  simp [readValue, hopen, hskip, hbracket]

theorem printItems_more (item next : Json) (items : List Json) :
    printItems (item :: next :: items) = item.print ++ ',' :: printItems (next :: items) := rfl

theorem printMembers_more (name : String) (value : Json) (next : String × Json)
    (members : List (String × Json)) :
    printMembers ((name, value) :: next :: members) =
      quote name ++ ':' :: (value.print ++ ',' :: printMembers (next :: members)) := rfl

theorem printItems_eq_cons (item : Json) (items : List Json) (rest : List Char) :
    ∃ c cs, printItems (item :: items) ++ rest = c :: cs ∧ BeginsValue c := by
  obtain ⟨c, cs, hcons, hbegins⟩ := item.print_eq_cons
  cases items with
  | nil => exact ⟨c, _, by rw [printItems, hcons]; rfl, hbegins⟩
  | cons next items => exact ⟨c, _, by rw [printItems_more, hcons]; rfl, hbegins⟩

/-- A brace opens an object, and its members are read up to its end. -/
theorem readValue_mapping (cs : List Char) :
    readValue (fuel + 1) ('\x7b' :: '"' :: cs) =
      (.mapping (readMembers fuel ('"' :: cs)).1
        (if (readMembers fuel ('"' :: cs)).2.isSome then .bracket else .missing),
        (readMembers fuel ('"' :: cs)).2) := rfl

theorem printMembers_eq_cons (member : String × Json) (members : List (String × Json))
    (rest : List Char) : ∃ cs, printMembers (member :: members) ++ rest = '"' :: cs := by
  obtain ⟨name, value⟩ := member
  cases members with
  | nil => exact ⟨_, by rw [printMembers]; rfl⟩
  | cons next members => exact ⟨_, rfl⟩

/-- Fuel for something that is longer is fuel for one step and for the rest. -/
theorem exists_fuel {n : Nat} (h : n + 1 ≤ fuel) : ∃ less, fuel = less + 1 ∧ n ≤ less := by
  obtain ⟨less, rfl⟩ := Nat.exists_eq_add_of_lt h
  exact ⟨n + less, rfl, Nat.le_add_right n less⟩

/-- A quoted text is read back. -/
theorem readText?_quote (name : String) (rest : List Char) :
    ∃ cs, quote name ++ rest = '"' :: cs ∧ readText? cs = some (some name, rest) := by
  refine ⟨name.toList.flatMap escapeChar ++ '"' :: rest, ?_, readText?_escaped name rest⟩
  rw [quote, List.cons_append, List.append_assoc]
  rfl

theorem readValue_string (s : String) (rest : List Char) :
    readValue (fuel + 1) (quote s ++ rest) = (.text (some s), some rest) := by
  obtain ⟨cs, hcons, hread⟩ := readText?_quote s rest
  rw [hcons]
  change orBroken .text (readText? cs) = _
  rw [hread]
  rfl

section

variable {cs : List Char} {value : Document} {after : Option (List Char)}

theorem readItems_last (h : readValue fuel cs = (value, some (']' :: rest))) :
    readItems (fuel + 1) cs = ([value], some rest) := by
  rw [readItems, h]
  rfl

/-- After a comma there are more items. -/
theorem readItems_more {items : List Document} (h : readValue fuel cs = (value, some (',' :: rest)))
    (more : readItems fuel rest = (items, after)) :
    readItems (fuel + 1) cs = (value :: items, after) := by
  rw [readItems, h]
  change ((value :: (readItems fuel rest).1, (readItems fuel rest).2) : List Document × _) = _
  rw [more]

theorem readMembers_last {name : String} (h : readValue fuel cs = (value, some ('\x7d' :: rest))) :
    readMembers (fuel + 1) (quote name ++ ':' :: cs) =
      ([(.text (some name), value)], some rest) := by
  obtain ⟨text, hcons, hread⟩ := readText?_quote name (':' :: cs)
  have hquote : skipBlank ('"' :: text) = '"' :: text := rfl
  have hcolon : skipBlank (':' :: cs) = ':' :: cs := rfl
  have hbrace : skipBlank ('\x7d' :: rest) = '\x7d' :: rest := rfl
  simp [readMembers, hcons, hquote, hread, hcolon, h, hbrace]

/-- After a comma there are more members. -/
theorem readMembers_more {name : String} {members : List (Document × Document)}
    (h : readValue fuel cs = (value, some (',' :: rest)))
    (more : readMembers fuel rest = (members, after)) :
    readMembers (fuel + 1) (quote name ++ ':' :: cs) =
      ((.text (some name), value) :: members, after) := by
  obtain ⟨text, hcons, hread⟩ := readText?_quote name (':' :: cs)
  have hquote : skipBlank ('"' :: text) = '"' :: text := rfl
  have hcolon : skipBlank (':' :: cs) = ':' :: cs := rfl
  have hcomma : skipBlank (',' :: rest) = ',' :: rest := rfl
  simp [readMembers, hcons, hquote, hread, hcolon, h, hcomma, more]

end

mutual

/-- A printed value is read back, with what stands behind it left over. One character is one step at
most, so the length is fuel enough. -/
theorem readValue_print : ∀ (value : Json) {fuel : Nat} {rest : List Char},
    value.print.length ≤ fuel → EndsValue rest →
      readValue fuel (value.print ++ rest) = (value.toDocument, some rest)
  | null, fuel, rest, hfuel, _ => by
    obtain ⟨less, rfl, -⟩ := exists_fuel hfuel
    rfl
  | bool b, fuel, rest, hfuel, _ => by
    cases b <;> obtain ⟨less, rfl, -⟩ := exists_fuel hfuel <;> rfl
  | number n, fuel, rest, hfuel, ends => by
    obtain ⟨c, cs, hcons, -⟩ := print_eq_cons (.number n)
    rw [hcons] at hfuel
    obtain ⟨less, rfl, -⟩ := exists_fuel hfuel
    exact readValue_number n ends
  | string s, fuel, rest, hfuel, _ => by
    obtain ⟨less, rfl, -⟩ := exists_fuel hfuel
    exact readValue_string s rest
  | array [], fuel, rest, hfuel, _ => by
    obtain ⟨less, rfl, -⟩ := exists_fuel hfuel
    rfl
  | array (item :: items), fuel, rest, hfuel, _ => by
    rw [print] at hfuel ⊢
    obtain ⟨less, rfl, hless⟩ := exists_fuel hfuel
    rw [List.cons_append, readValue_list (printItems_eq_cons item items rest),
      readItems_print item items hless]
    rfl
  | object [], fuel, rest, hfuel, _ => by
    obtain ⟨less, rfl, -⟩ := exists_fuel hfuel
    rfl
  | object (member :: members), fuel, rest, hfuel, _ => by
    rw [print] at hfuel ⊢
    obtain ⟨less, rfl, hless⟩ := exists_fuel hfuel
    have hread : readMembers less (printMembers (member :: members) ++ rest) =
        (toMembers (member :: members), some rest) := readMembers_print member members hless
    obtain ⟨cs, hcons⟩ := printMembers_eq_cons member members rest
    rw [hcons] at hread
    rw [List.cons_append, hcons, readValue_mapping, hread]
    rfl

/-- The items of a list that is not empty. -/
theorem readItems_print : ∀ (item : Json) (items : List Json) {fuel : Nat} {rest : List Char},
    (printItems (item :: items)).length ≤ fuel →
      readItems fuel (printItems (item :: items) ++ rest) = (toItems (item :: items), some rest)
  | item, [], fuel, rest, hfuel => by
    rw [printItems, List.append_assoc] at *
    obtain ⟨less, rfl, hless⟩ := exists_fuel (n := item.print.length) (by simpa using hfuel)
    exact readItems_last (readValue_print item hless (endsValue_bracket rest))
  | item, next :: items, fuel, rest, hfuel => by
    rw [printItems_more, List.append_assoc, List.cons_append] at *
    have hlength : item.print.length + (printItems (next :: items)).length + 1 ≤ fuel := by
      simpa [Nat.add_assoc] using hfuel
    obtain ⟨less, rfl, hless⟩ := exists_fuel hlength
    exact readItems_more (readValue_print item (by omega) (endsValue_comma _))
      (readItems_print next items (by omega))

/-- The members of an object that is not empty. -/
theorem readMembers_print : ∀ (member : String × Json) (members : List (String × Json))
    {fuel : Nat} {rest : List Char}, (printMembers (member :: members)).length ≤ fuel →
      readMembers fuel (printMembers (member :: members) ++ rest) =
        (toMembers (member :: members), some rest)
  | (name, value), [], fuel, rest, hfuel => by
    rw [printMembers] at *
    have hlength : value.print.length + 1 ≤ fuel := by
      simp only [List.length_append, List.length_cons, List.length_nil] at hfuel
      omega
    obtain ⟨less, rfl, hless⟩ := exists_fuel hlength
    rw [List.append_assoc, List.cons_append, List.append_assoc]
    exact readMembers_last (readValue_print value hless (endsValue_brace rest))
  | (name, value), next :: members, fuel, rest, hfuel => by
    rw [printMembers_more] at *
    have hlength : value.print.length + (printMembers (next :: members)).length + 1 ≤ fuel := by
      simp only [List.length_append, List.length_cons] at hfuel
      omega
    obtain ⟨less, rfl, hless⟩ := exists_fuel hlength
    rw [List.append_assoc, List.cons_append, List.append_assoc, List.cons_append]
    exact readMembers_more (readValue_print value (by omega) (endsValue_comma _))
      (readMembers_print next members (by omega))

end

/-- The text of a value is a whole text, and says the value. -/
theorem document_text (value : Json) :
    document value.text.toList = (value.toDocument, true) := by
  have hread : readValue (value.print.length + 1) (value.print ++ []) =
      (value.toDocument, some []) :=
    readValue_print value (Nat.le_succ _) (by simp [EndsValue])
  rw [List.append_nil] at hread
  rw [text, String.toList_ofList, document, hread]
  rfl

end Moderation.Json

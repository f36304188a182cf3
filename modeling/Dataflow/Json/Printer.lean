import Dataflow.Decimal.Layout
import Dataflow.Json.Document

/-!
# Printing JSON

The compact form has no blanks at all. The pretty form puts each element and each entry on a line of
its own, indented by two blanks for each level. Reals are written so that they read back as reals: a
whole one keeps its point. Texts escape what JSON requires and nothing else.
-/

namespace Dataflow.Json

/-- Reals as JSON writes them: scientific exponents from -5 to 15 around a point. -/
def realLayout : Decimal.Layout :=
  { least? := some (-5), greatest? := some 15, marksWhole := true, plusSign := true, tie := .even }

/-- A number in its written form. -/
def Number.print : Number → List Char
  | .natural n => Nat.toDigits 10 n.toNat
  | .negative n => '-' :: Nat.toDigits 10 n.toNat
  | .real x => (realLayout.text x).toList

/-- How one character stands in a text. -/
def printedChar (c : Char) : List Char :=
  if c = '"' then ['\\', '"']
  else if c = '\\' then ['\\', '\\']
  else if c = '\x08' then ['\\', 'b']
  else if c = '\x0c' then ['\\', 'f']
  else if c = '\n' then ['\\', 'n']
  else if c = '\r' then ['\\', 'r']
  else if c = '\t' then ['\\', 't']
  else if c < ' ' then
    ['\\', 'u', '0', '0', Nat.digitChar (c.toNat / 16), Nat.digitChar (c.toNat % 16)]
  else [c]

/-- A text between its quotes. -/
def printText (s : String) : List Char :=
  '"' :: s.toList.flatMap printedChar ++ ['"']

/-- A value that is neither an array nor an object. -/
def printScalar : Document → List Char
  | .null => "null".toList
  | .bool true => "true".toList
  | .bool false => "false".toList
  | .number n => n.print
  | .text s => printText s
  | .list _ | .object _ => []

mutual

/-- The compact form. -/
def Document.chars : Document → List Char
  | .list items => '[' :: itemChars true items ++ [']']
  | .object entries => '{' :: entryChars true entries ++ ['}']
  | d => printScalar d

/-- Elements, each but the first behind a comma. -/
def itemChars (isFirst : Bool) : List Document → List Char
  | [] => []
  | d :: ds => (if isFirst then [] else [',']) ++ d.chars ++ itemChars false ds

/-- Entries, each but the first behind a comma. -/
def entryChars (isFirst : Bool) : List (String × Document) → List Char
  | [] => []
  | (name, d) :: rest =>
    (if isFirst then [] else [',']) ++ printText name ++ ':' :: d.chars ++ entryChars false rest

end

/-- The compact text of a document. -/
def Document.print (d : Document) : String := String.ofList d.chars

/-- A line break and the indent of a level. -/
def newLine (level : Nat) : List Char := '\n' :: List.replicate (2 * level) ' '

mutual

/-- The pretty form at a level of nesting. -/
def Document.prettyChars (level : Nat) : Document → List Char
  | .list [] => ['[', ']']
  | .list (d :: ds) =>
    '[' :: prettyItems (level + 1) true (d :: ds) ++ newLine level ++ [']']
  | .object [] => ['{', '}']
  | .object (e :: es) =>
    '{' :: prettyEntries (level + 1) true (e :: es) ++ newLine level ++ ['}']
  | d => printScalar d

/-- Elements, each on a line of its own. -/
def prettyItems (level : Nat) (isFirst : Bool) : List Document → List Char
  | [] => []
  | d :: ds =>
    (if isFirst then [] else [',']) ++ newLine level ++ d.prettyChars level ++
      prettyItems level false ds

/-- Entries, each on a line of its own. -/
def prettyEntries (level : Nat) (isFirst : Bool) : List (String × Document) → List Char
  | [] => []
  | (name, d) :: rest =>
    (if isFirst then [] else [',']) ++ newLine level ++ printText name ++ ':' :: ' ' ::
      d.prettyChars level ++ prettyEntries level false rest

end

/-- The pretty text of a document. -/
def Document.pretty (d : Document) : String := String.ofList (d.prettyChars 0)

end Dataflow.Json

import Dataflow.Text.Hidden

/-!
# Quoted text

A text is quoted for a reader of messages: between double quotes, with a quote, a backslash, a line
break, a carriage return, a tab and the null character written as two-character escapes, every other
hidden character by its code point in hexadecimal, and all else raw. A name in a message stands
between backticks, as it is.
-/

namespace Dataflow.Text

/-- A code point in braces, in lower-case hexadecimal without leading zeros. -/
def codePoint (c : Char) : List Char :=
  '\\' :: 'u' :: '{' :: Nat.toDigits 16 c.toNat ++ ['}']

/-- How one character stands between the quotes. -/
def quotedChar (c : Char) : List Char :=
  if c = '"' then ['\\', '"']
  else if c = '\\' then ['\\', '\\']
  else if c = '\n' then ['\\', 'n']
  else if c = '\r' then ['\\', 'r']
  else if c = '\t' then ['\\', 't']
  else if c = '\x00' then ['\\', '0']
  else if hidden c then codePoint c
  else [c]

/-- The text between double quotes, escaped. -/
def quoted (s : String) : String :=
  String.ofList ('"' :: s.toList.flatMap quotedChar ++ ['"'])

/-- A name as messages show it. -/
def ticked (name : String) : String := "`" ++ name ++ "`"

end Dataflow.Text

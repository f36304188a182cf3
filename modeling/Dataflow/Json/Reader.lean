import Dataflow.Json.Document
import Dataflow.Json.Error

/-!
# Reading JSON

A reader takes characters off the front of a text. Texts are read strictly from left to right, so of
two faults in a text the first one is reported, and what a reader asks for decides whether a fault
of the data stands before a later fault of the form.

Loops over the entries of an array or an object, and the descent into nested values, run on a bound
for the number of characters left: each round takes at least one.
-/

namespace Dataflow.Json

/-- Takes characters off the front of a text, or says why it cannot. -/
abbrev Reader := StateT (List Char) (Except ReadError)

namespace Reader

/-- Refuses the text for holding other data than what is wanted. -/
def refuse {α : Type} (e : DataError) : Reader α := throw (.data e)

/-- The next character, left in place. -/
def peek? : Reader (Option Char) := fun cs => .ok (cs.head?, cs)

/-- Drops the next character. -/
def skip : Reader Unit := fun cs => .ok ((), cs.drop 1)

/-- Takes the next character. -/
def next : Reader Char
  | [] => .error .unexpectedEnd
  | c :: cs => .ok (c, cs)

/-- The characters between tokens. -/
def isBlank (c : Char) : Bool := c = ' ' || c = '\n' || c = '\t' || c = '\r'

/-- Drops blanks. -/
def skipBlanks : Reader Unit := fun cs => .ok ((), cs.dropWhile isBlank)

/-- The first character of the next token, left in place. -/
def token? : Reader (Option Char) := do
  skipBlanks
  peek?

/-- The first character of the next token, left in place; there has to be one. -/
def token : Reader Char := do
  match ← token? with
  | some c => return c
  | none => throw .unexpectedEnd

/-- Takes exactly the given characters. -/
def expect : List Char → Reader Unit
  | [] => return ()
  | c :: cs => do
    if (← next) = c then expect cs else throw .malformed

/-! ## Numbers

Digits are gathered into 64 bits. Digits that no longer fit are dropped, though those in front of
the decimal point still count as places. The double is then the significand times or over a power of
ten, rounded after each operation. -/

/-- The bound of the significand. -/
def significandLimit : Nat := Nat.pow 2 64

/-- Gathers leading digits into the significand for as long as it fits, and counts them. -/
def gather (significand count : Nat) : List Char → Nat × Nat × List Char
  | [] => (significand, count, [])
  | c :: cs =>
    let grown := significand * 10 + (c.toNat - '0'.toNat)
    if c.isDigit && grown < significandLimit then gather grown (count + 1) cs
    else (significand, count, c :: cs)

/-- Gathers digits into the significand; returns it with the number of digits gathered. -/
def digits (significand : Nat) : Reader (Nat × Nat) := fun cs =>
  let (grown, count, rest) := gather significand 0 cs
  .ok ((grown, count), rest)

/-- Drops digits and counts them. -/
def dropDigits : Reader Nat := fun cs =>
  .ok ((cs.takeWhile Char.isDigit).length, cs.dropWhile Char.isDigit)

/-- Whether a digit comes next. -/
def digitFollows : Reader Bool := fun cs => .ok (cs.head?.any Char.isDigit, cs)

/-- Takes an exponent mark, if one comes next. -/
def exponentMark : Reader Bool := do
  match ← peek? with
  | some 'e' | some 'E' => skip; return true
  | _ => return false

/-- Divides by `10 ^ 308` the given number of times, or until nothing is left. -/
def scaleDown (x : Float) : Nat → Float
  | 0 => x
  | n + 1 => if x == 0 then x else scaleDown (x / 1e308) n

/-- The power of ten as a double. -/
def powerOfTen (n : Nat) : Float := Float.ofScientific 1 false n

/-- The double for `significand * 10 ^ exponent`, or none when it is out of range. -/
def scaled? (significand : Nat) (exponent : Int) : Option Float :=
  let x := (UInt64.ofNat significand).toFloat
  match exponent with
  | .ofNat n =>
    if 308 < n then if x == 0 then some x else none
    else
      let y := x * powerOfTen n
      if y.isInf then none else some y
  | .negSucc n =>
    -- the exponent is `-(n + 1)`: whole steps of 308, then what is left
    some (scaleDown x (n / 308) / powerOfTen (n + 1 - n / 308 * 308))

/-- A real number from its parts; out of range counts as malformed. -/
def real (isPositive : Bool) (significand : Nat) (exponent : Int) : Reader Number := do
  match scaled? significand exponent with
  | some x => return .real (if isPositive then x else -x)
  | none => throw .malformed

/-- What follows an exponent mark. -/
def exponent : Reader Int := do
  let isPositive ← match ← peek? with
    | some '+' => skip; pure true
    | some '-' => skip; pure false
    | _ => pure true
  let first ← next
  if !first.isDigit then throw .malformed
  let rest ← fun cs => .ok (cs.takeWhile Char.isDigit, cs.dropWhile Char.isDigit)
  let magnitude : Nat := (first :: rest).foldl (fun n c => n * 10 + (c.toNat - '0'.toNat)) 0
  return if isPositive then magnitude else -magnitude

/-- The end of a number: an optional exponent on top of the given one. -/
def withExponent (isPositive : Bool) (significand : Nat) (places : Int) : Reader Number := do
  if ← exponentMark then
    let e ← exponent
    real isPositive significand (places + e)
  else
    real isPositive significand places

/-- What follows a decimal point. At least one digit has to. -/
def fraction (isPositive : Bool) (significand : Nat) (places : Int) : Reader Number := do
  let (significand, count) ← digits significand
  if ← digitFollows then
    discard dropDigits
  else if count = 0 then
    discard next
    throw .malformed
  withExponent isPositive significand (places - count)

/-- A number whose integer digits fill the significand: further ones only count. -/
def longInteger (isPositive : Bool) (significand : Nat) : Reader Number := do
  let places ← dropDigits
  if (← peek?) = some '.' then
    skip
    fraction isPositive significand places
  else
    withExponent isPositive significand places

/-- A whole number in its tightest form. Minus zero and integers below `-2 ^ 63` are real. -/
def integer (isPositive : Bool) (significand : Nat) : Number :=
  let n := UInt64.ofNat significand
  if isPositive then .natural n
  else if significand = 0 || Nat.pow 2 63 < significand then .real (-n.toFloat)
  else .negative n

/-- What may follow the integer digits of a number. -/
def afterInteger (isPositive : Bool) (significand : Nat) : Reader Number := do
  match ← peek? with
  | some '.' => skip; fraction isPositive significand 0
  | some 'e' | some 'E' => withExponent isPositive significand 0
  | _ => return integer isPositive significand

/-- A number after its sign. -/
def unsigned (isPositive : Bool) : Reader Number := do
  let first ← next
  if first = '0' then
    if ← digitFollows then throw .malformed
    afterInteger isPositive 0
  else if first.isDigit then
    let (significand, _) ← digits (first.toNat - '0'.toNat)
    if ← digitFollows then longInteger isPositive significand
    else afterInteger isPositive significand
  else
    throw .malformed

/-- A number. -/
def number : Reader Number := do
  if (← peek?) = some '-' then
    skip
    unsigned false
  else
    unsigned true

/-! ## Texts -/

/-- The value of a hexadecimal digit. -/
def hexValue? (c : Char) : Option Nat :=
  if '0' ≤ c && c ≤ '9' then some (c.toNat - '0'.toNat)
  else if 'a' ≤ c && c ≤ 'f' then some (c.toNat - 'a'.toNat + 10)
  else if 'A' ≤ c && c ≤ 'F' then some (c.toNat - 'A'.toNat + 10)
  else none

/-- Four hexadecimal digits. A text with fewer than four bytes left has ended too early, whatever
they are. -/
def codeUnit : Reader Nat := fun cs =>
  match cs with
  | a :: b :: c :: d :: rest =>
    match hexValue? a, hexValue? b, hexValue? c, hexValue? d with
    | some a, some b, some c, some d => .ok (a * 4096 + b * 256 + c * 16 + d, rest)
    | _, _, _, _ => .error .malformed
  | _ => .error (if (String.ofList cs).utf8ByteSize < 4 then .unexpectedEnd else .malformed)

/-- The character that the code units name: one outside the surrogates, or a leading and a trailing
surrogate. -/
def escapedCodePoint : Reader Char := do
  let lead ← codeUnit
  if 0xdc00 ≤ lead && lead ≤ 0xdfff then throw .malformed
  if 0xd800 ≤ lead && lead ≤ 0xdbff then
    expect ['\\', 'u']
    let trail ← codeUnit
    if trail < 0xdc00 || 0xdfff < trail then throw .malformed
    return Char.ofNat (0x10000 + (lead - 0xd800) * 0x400 + (trail - 0xdc00))
  return Char.ofNat lead

/-- The character that an escape stands for, after the backslash. -/
def escaped : Reader Char := do
  match ← next with
  | '"' => return '"'
  | '\\' => return '\\'
  | '/' => return '/'
  | 'b' => return '\x08'
  | 'f' => return '\x0c'
  | 'n' => return '\n'
  | 'r' => return '\r'
  | 't' => return '\t'
  | 'u' => escapedCodePoint
  | _ => throw .malformed

/-- The characters up to the closing quote, in reverse. -/
def textBody : Nat → List Char → Reader (List Char)
  | 0, _ => throw .unexpectedEnd
  | n + 1, seen => do
    let c ← next
    if c = '"' then return seen
    else if c = '\\' then
      let c ← escaped
      textBody n (c :: seen)
    else if c < ' ' then throw .malformed
    else textBody n (c :: seen)

/-- One more than the characters left: a bound for every loop that takes one a round. -/
def bound : Reader Nat := fun cs => .ok (cs.length + 1, cs)

/-- A text, from its opening quote on. -/
def text : Reader String := do
  skip
  let seen ← textBody (← bound) []
  return String.ofList seen.reverse

/-! ## Values -/

/-- The closing bracket. -/
def close (bracket : Char) : Reader Unit := do
  if (← token) = bracket then skip else throw .malformed

/-- Whether an array has another element; takes the comma before it. -/
def anotherItem (isFirst : Bool) : Reader Bool := do
  match ← token with
  | ']' => return false
  | c =>
    if isFirst then return true
    else if c = ',' then
      skip
      if (← token) = ']' then throw .malformed else return true
    else throw .malformed

/-- Whether an object has another entry; takes the comma before it. A name has to follow. -/
def anotherEntry (isFirst : Bool) : Reader Bool := do
  match ← token with
  | '}' => return false
  | c =>
    if isFirst then
      if c = '"' then return true else throw .malformed
    else if c = ',' then
      skip
      if (← token) = '"' then return true else throw .malformed
    else throw .malformed

/-- The colon between a name and its value. -/
def colon : Reader Unit := do
  if (← token) = ':' then skip else throw .malformed

/-- Reads the elements of an array into an accumulator, after the opening bracket. -/
def items {σ : Type} (item : σ → Reader σ) : Nat → Bool → σ → Reader σ
  | 0, _, _ => throw .unexpectedEnd
  | n + 1, isFirst, s => do
    if ← anotherItem isFirst then
      let s ← item s
      items item n false s
    else return s

/-- Reads the entries of an object into an accumulator, after the opening brace. The step is given
each name and reads on from there, colon included. -/
def entries {σ : Type} (entry : σ → String → Reader σ) : Nat → Bool → σ → Reader σ
  | 0, _, _ => throw .unexpectedEnd
  | n + 1, isFirst, s => do
    if ← anotherEntry isFirst then
      let name ← text
      let s ← entry s name
      entries entry n false s
    else return s

/-- A value that is neither an array nor an object, given its first character. -/
def scalar (first : Char) : Reader Document := do
  match first with
  | 'n' => expect ['n', 'u', 'l', 'l']; return .null
  | 't' => expect ['t', 'r', 'u', 'e']; return .bool true
  | 'f' => expect ['f', 'a', 'l', 's', 'e']; return .bool false
  | '"' => return .text (← text)
  | c => if c = '-' || c.isDigit then return .number (← number) else throw .malformed

/-- How deep arrays and objects may nest. -/
def nestingLimit : Nat := 127

/-- A value. The first number bounds the characters left, the second the nesting allowed. -/
def value : Nat → Nat → Reader Document
  | 0, _ => throw .unexpectedEnd
  | n + 1, depth => do
    let first ← token
    if first = '[' || first = '{' then
      if depth = 0 then throw .malformed
      skip
      if first = '[' then
        let seen ← items (fun seen => return (← value n (depth - 1)) :: seen) n true []
        close ']'
        return .list seen.reverse
      else
        let seen ← entries
          (fun seen name => do
            colon
            return (name, ← value n (depth - 1)) :: seen) n true []
        close '}'
        return .object seen.reverse
    else
      scalar first

/-- Any document, nested in the given number of arrays and objects already. -/
def document (nested : Nat) : Reader Document := do
  value (← bound) (nestingLimit - nested)

/-- Refuses the next value for its type. A scalar is read first, and its own faults win. -/
def wrongType {α : Type} : Reader α := do
  let first ← token
  if first = '[' || first = '{' then refuse .wrongType
  discard (scalar first)
  refuse .wrongType

/-- Reads a whole text: nothing but blanks may follow. -/
def run {α : Type} (r : Reader α) (s : String) : Except ReadError α := do
  let (a, rest) ← StateT.run r s.toList
  if (rest.dropWhile isBlank).isEmpty then return a else throw .malformed

end Reader

/-- The document a text denotes. -/
def Document.read (s : String) : Except ReadError Document :=
  (Reader.document 0).run s

end Dataflow.Json

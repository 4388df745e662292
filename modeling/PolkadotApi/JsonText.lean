import PolkadotApi.TextGrammar
import PolkadotApi.DecimalTexts
import PolkadotApi.JsonValues

set_option autoImplicit false

/-!
`JsonParser` keeps a position in its text; here it is the text from that position on.
The first call of `fail` fixes the message and no value is used after it, so that a
failure ends the parse. Comments are accepted only with a strategy that nobody in the
program asks for. What `strtod` and `int_value` make of a number that is not a short
integer is a parameter.
-/
namespace PolkadotApi.JsonText
open StreamReader TextGrammar HexText MachineModel Converters JsonValues DecimalTexts

abbrev Parser (α : Type) := Scan Str Str α

def fail {α : Type} (msg : Str) : Parser α := fun _ => .error msg

/-- `%d` of a character, which is signed. -/
def charNumber (c : UInt8) : ℤ := if c < 128 then c.toNat else c.toNat - 256

def esc (c : UInt8) : Str :=
  if 0x20 ≤ c ∧ c ≤ 0x7F then lit "'" ++ [c] ++ lit "' (" ++ lit (toString (charNumber c)) ++ lit ")"
  else lit "(" ++ lit (toString (charNumber c)) ++ lit ")"

def isWhitespace (c : UInt8) : Bool := c = 32 || c = 13 || c = 10 || c = 9

def endOfInput : Str := lit "unexpected end of input"

def getNextToken : Parser UInt8 := nextToken isWhitespace endOfInput

/-- `get_next_token` and the step back to the token. -/
def lookAhead : Parser UInt8 := peekToken isWhitespace endOfInput

def encodeUtf8 (pt : ℕ) : Str :=
  if pt < 0x80 then [UInt8.ofNat pt]
  else if pt < 0x800 then [UInt8.ofNat (pt / 2 ^ 6 ||| 0xC0), UInt8.ofNat (pt % 2 ^ 6 ||| 0x80)]
  else if pt < 0x10000 then
    [UInt8.ofNat (pt / 2 ^ 12 ||| 0xE0), UInt8.ofNat (pt / 2 ^ 6 % 2 ^ 6 ||| 0x80),
      UInt8.ofNat (pt % 2 ^ 6 ||| 0x80)]
  else
    [UInt8.ofNat (pt / 2 ^ 18 ||| 0xF0), UInt8.ofNat (pt / 2 ^ 12 % 2 ^ 6 ||| 0x80),
      UInt8.ofNat (pt / 2 ^ 6 % 2 ^ 6 ||| 0x80), UInt8.ofNat (pt % 2 ^ 6 ||| 0x80)]

/-- `encode_utf8` of `last_escaped_codepoint`, which is -1 when there is none. -/
def encodeLast (last : Option ℕ) : Str := last.elim [] encodeUtf8

def isLead (pt : ℕ) : Bool := 0xD800 ≤ pt && pt ≤ 0xDBFF

def isTrail (pt : ℕ) : Bool := 0xDC00 ≤ pt && pt ≤ 0xDFFF

def astral (lead trail : ℕ) : ℕ := ((lead - 0xD800) * 2 ^ 10 ||| (trail - 0xDC00)) + 0x10000

def shortEscape (c : UInt8) : Option UInt8 :=
  if c = 98 then some 8
  else if c = 102 then some 12
  else if c = 110 then some 10
  else if c = 114 then some 13
  else if c = 116 then some 9
  else if c = 34 ∨ c = 92 ∨ c = 47 then some c
  else none

def codepoint (a b c d : UInt8) : Option ℕ := do
  let a ← hexValue a
  let b ← hexValue b
  let c ← hexValue c
  let d ← hexValue d
  return ((a * 16 + b) * 16 + c) * 16 + d

def badEscape (t : Str) : Str := lit "bad \\u escape: " ++ t.take 4

/-- The loop of `parse_string`, from the text that is left, the escaped codepoint that
is not written yet, and what is written. -/
def parseStringFrom : Str → Option ℕ → Str → Except Str (Str × Str)
  | [], _, _ => .error (lit "unexpected end of input in string")
  | 92 :: t, last, out =>
    match t with
    | [] => .error (lit "unexpected end of input in string")
    | 117 :: a :: b :: c :: d :: t =>
      match codepoint a b c d with
      | none => .error (badEscape [a, b, c, d])
      | some pt =>
        match last with
        | some lead =>
          if isLead lead && isTrail pt then
            parseStringFrom t none (out ++ encodeUtf8 (astral lead pt))
          else parseStringFrom t (some pt) (out ++ encodeUtf8 lead)
        | none => parseStringFrom t (some pt) out
    | 117 :: t => .error (badEscape t)
    | e :: t =>
      match shortEscape e with
      | some c => parseStringFrom t none (out ++ encodeLast last ++ [c])
      | none => .error (lit "invalid escape character " ++ esc e)
  | c :: t, last, out =>
    if c = 34 then .ok (out ++ encodeLast last, t)
    else if c ≤ 0x1F then .error (lit "unescaped " ++ esc c ++ lit " in string")
    else parseStringFrom t none (out ++ encodeLast last ++ [c])

def parseString : Parser Str := fun s => parseStringFrom s none []

section Numbers

def minusSign : Parser Str
  | 45 :: t => .ok ([45], t)
  | s => .ok ([], s)

def digitsOf (s : Str) : Str := s.takeWhile isDigit

def integerPart : Parser Str
  | [] => .error (lit "invalid " ++ esc 0 ++ lit " in number")
  | c :: t =>
    if c = 48 then
      if digitsOf t = [] then .ok ([c], t)
      else .error (lit "leading 0s not permitted in numbers")
    else if isDigit c then .ok (c :: digitsOf t, t.drop (digitsOf t).length)
    else .error (lit "invalid " ++ esc c ++ lit " in number")

def fractionPart : Parser Str
  | 46 :: t =>
    if digitsOf t = [] then .error (lit "at least one digit required in fractional part")
    else .ok (46 :: digitsOf t, t.drop (digitsOf t).length)
  | s => .ok ([], s)

def exponentSign : Str → Str × Str
  | 43 :: t => ([43], t)
  | 45 :: t => ([45], t)
  | s => ([], s)

def exponentPart : Parser Str
  | [] => .ok ([], [])
  | c :: t =>
    if c = 101 ∨ c = 69 then
      let (sign, t) := exponentSign t
      if digitsOf t = [] then .error (lit "at least one digit required in exponent")
      else .ok (c :: sign ++ digitsOf t, t.drop (digitsOf t).length)
    else .ok ([], c :: t)

def atoi : Str → ℤ
  | 45 :: digits => -decimalValue digits
  | digits => decimalValue digits

/-- `str[i]`, which is a zero at the end of the text. -/
def currentChar : Parser UInt8 := fun s => .ok (s.headD 0, s)

/-- `toInt` is the `int` that the double of a text gives. -/
def parseNumber (toInt : Str → ℤ) : Parser Json := do
  let sign ← minusSign
  let digits ← integerPart
  let next ← currentChar
  -- `digits10` of an `int` is 9
  if next ≠ 46 ∧ next ≠ 101 ∧ next ≠ 69 ∧ (sign ++ digits).length ≤ 9 then
    return .number (atoi (sign ++ digits))
  else do
    let fraction ← fractionPart
    let exponent ← exponentPart
    return .number (toInt (sign ++ digits ++ fraction ++ exponent))

end Numbers

def expect (expected : Str) (res : Json) : Parser Json := fun s =>
  if s.take expected.length = expected then .ok (res, s.drop expected.length)
  else .error (lit "parse error: expected " ++ expected ++ lit ", got " ++ s.take expected.length)

/-- `data[key] = value`; the keys of a map are in order. -/
def setField : List (Str × Json) → Str × Json → List (Str × Json)
  | [], f => [f]
  | g :: fields, f =>
    if f.1 < g.1 then f :: g :: fields
    else if f.1 = g.1 then f :: fields
    else g :: setField fields f

def arrayLayout : Layout UInt8 Str where
  gap := isWhitespace
  comma := 44
  close := 93
  eof := endOfInput
  bad c := lit "expected ',' in list, got " ++ esc c
  stuck := []
  comma_gap := rfl
  close_gap := rfl
  comma_ne_close := by decide

def objectLayout : Layout UInt8 Str where
  gap := isWhitespace
  comma := 44
  close := 125
  eof := endOfInput
  bad c := lit "expected ',' in object, got " ++ esc c
  stuck := []
  comma_gap := rfl
  close_gap := rfl
  comma_ne_close := by decide

section Values

variable (toInt : Str → ℤ) (value : Parser Json)

def element : Parser Json := do
  let _ ← lookAhead
  value

def parseArray : Parser Json := do
  let items ← arrayLayout.bracketed (element value)
  return .array items

/-- One round of the loop over the members of an object; the source reads the first
token of a round at the end of the round before. -/
def member : Parser (Str × Json) := do
  let ch ← getNextToken
  if ch ≠ 34 then fail (lit "expected '\"' in object, got " ++ esc ch)
  else do
    let key ← parseString
    let ch ← getNextToken
    if ch ≠ 58 then fail (lit "expected ':' in object, got " ++ esc ch)
    else do
      let x ← value
      return (key, x)

def parseObject : Parser Json := do
  let members ← objectLayout.bracketed (member value)
  return .object (members.foldl setField [])

/-- `parse_json`, where `value` reads the values one level down. -/
def parseValue : Parser Json := do
  let ch ← lookAhead
  if ch = 45 ∨ isDigit ch then parseNumber toInt
  else if ch = 116 then expect (lit "true") (.bool true)
  else if ch = 102 then expect (lit "false") (.bool false)
  else if ch = 110 then expect (lit "null") .null
  else do
    let _ ← getNextToken
    if ch = 34 then do
      let s ← parseString
      return .string s
    else if ch = 123 then parseObject value
    else if ch = 91 then parseArray value
    else fail (lit "expected value, got " ++ esc ch)

def parseJson : ℕ → Parser Json
  | 0 => fail (lit "exceeded maximum nesting depth")
  | levels + 1 => parseValue toInt (parseJson levels)

def maxDepth : ℕ := 200

def parse (text : Str) : Except Str Json := do
  let (result, rest) ← parseJson toInt (maxDepth + 1) text
  match rest.dropWhile isWhitespace with
  | [] => .ok result
  | c :: _ => .error (lit "unexpected trailing " ++ esc c)

end Values

end PolkadotApi.JsonText

import PolkadotApi.MachineModel

set_option autoImplicit false

namespace PolkadotApi.JsonValues
open MachineModel

inductive Json where
  | null
  | bool (b : Bool)
  | number (n : ℤ)
  | string (s : Str)
  | array (items : List Json)
  | object (fields : List (Str × Json))

namespace Json

/-- `operator[]` with a string: null unless the value is an object with the key. -/
def field (key : String) : Json → Json
  | object fields => (fields.lookup (lit key)).getD null
  | _ => null

def item (i : ℕ) : Json → Json
  | array items => items.getD i null
  | _ => null

def intValue : Json → ℤ
  | number n => n
  | _ => 0

def stringValue : Json → Str
  | string s => s
  | _ => []

def boolValue : Json → Bool
  | bool b => b
  | _ => false

def objectItems : Json → List (Str × Json)
  | object fields => fields
  | _ => []

def isNull : Json → Bool
  | null => true
  | _ => false

def hexDigit (n : ℕ) : UInt8 := UInt8.ofNat (if n < 10 then 48 + n else 87 + n)

/-- The escapes of `dump(const string &)`; the two line separators of three
bytes are escaped as a whole. -/
def escape : Str → Str
  | [] => []
  | 0xE2 :: 0x80 :: 0xA8 :: t => lit "\\u2028" ++ escape t
  | 0xE2 :: 0x80 :: 0xA9 :: t => lit "\\u2029" ++ escape t
  | c :: t =>
    (if c = 92 then lit "\\\\"
    else if c = 34 then lit "\\\""
    else if c = 8 then lit "\\b"
    else if c = 12 then lit "\\f"
    else if c = 10 then lit "\\n"
    else if c = 13 then lit "\\r"
    else if c = 9 then lit "\\t"
    else if c ≤ 0x1F then lit "\\u00" ++ [hexDigit (c.toNat / 16), hexDigit (c.toNat % 16)]
    else [c]) ++ escape t

def dumpString (s : Str) : Str := [34] ++ escape s ++ [34]

mutual

def dump : Json → Str
  | null => lit "null"
  | bool b => lit (if b then "true" else "false")
  | number n => lit (toString n)
  | string s => dumpString s
  | array items => lit "[" ++ dumpItems items ++ lit "]"
  | object fields => [123] ++ dumpFields fields ++ [125]

def dumpItems : List Json → Str
  | [] => []
  | [x] => dump x
  | x :: xs => dump x ++ lit ", " ++ dumpItems xs

def dumpFields : List (Str × Json) → Str
  | [] => []
  | [(key, x)] => dumpString key ++ lit ": " ++ dump x
  | (key, x) :: xs => dumpString key ++ lit ": " ++ dump x ++ lit ", " ++ dumpFields xs

end

section Equality

mutual

def equals : Json → Json → Bool
  | null, null => true
  | bool a, bool b => a = b
  | number a, number b => a = b
  | string a, string b => a = b
  | array a, array b => equalItems a b
  | object a, object b => equalFields a b
  | _, _ => false

def equalItems : List Json → List Json → Bool
  | [], [] => true
  | x :: xs, y :: ys => equals x y && equalItems xs ys
  | _, _ => false

def equalFields : List (Str × Json) → List (Str × Json) → Bool
  | [], [] => true
  | (k, x) :: xs, (l, y) :: ys => (k = l : Bool) && (equals x y && equalFields xs ys)
  | _, _ => false

end

mutual

theorem equals_iff : ∀ a b : Json, equals a b = true ↔ a = b
  | null, b => by cases b <;> simp [equals]
  | bool a, b => by cases b <;> simp [equals]
  | number a, b => by cases b <;> simp [equals]
  | string a, b => by cases b <;> simp [equals]
  | array a, b => by
    cases b with
    | array b => simp [equals, equalItems_iff a b]
    | _ => simp [equals]
  | object a, b => by
    cases b with
    | object b => simp [equals, equalFields_iff a b]
    | _ => simp [equals]

theorem equalItems_iff : ∀ a b : List Json, equalItems a b = true ↔ a = b
  | [], b => by cases b <;> simp [equalItems]
  | x :: xs, b => by
    cases b with
    | nil => simp [equalItems]
    | cons y ys => simp [equalItems, equals_iff x y, equalItems_iff xs ys]

theorem equalFields_iff : ∀ a b : List (Str × Json), equalFields a b = true ↔ a = b
  | [], b => by cases b <;> simp [equalFields]
  | (k, x) :: xs, b => by
    cases b with
    | nil => simp [equalFields]
    | cons y ys =>
      obtain ⟨l, y⟩ := y
      simp [equalFields, equals_iff x y, equalFields_iff xs ys, and_assoc]

end

instance : DecidableEq Json := fun a b => decidable_of_iff _ (equals_iff a b)

end Equality

end Json

def mentions (text : Str) (word : String) : Bool := decide (lit word <:+: text)

end PolkadotApi.JsonValues

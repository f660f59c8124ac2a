import TaskManagement.Json.Loads
import Mathlib.Data.Nat.Digits.Defs

/-!
# `json.dumps`

Python's writer of JSON, with `ensure_ascii` and the separators as parameters, and the reader of
`str`.  `Value.Plain` are the values that it writes faithfully: in an integer no more digits than
Python reads, in a text no surrogate pair (Python joins a pair when it reads it) and in an object no
key twice.  The text of a float, which is `float.__repr__`'s, is not among them.
-/

namespace Json

/-- The arguments of `json.dumps`; the separators end in a space or do not. -/
structure Format where
  ensureAscii : Bool
  spaced : Bool
deriving DecidableEq, Repr

/-! ### Strings and integers -/

/-- A hexadecimal digit. -/
def hexChar (d : ℕ) : ℕ := if d < 10 then 48 + d else 87 + d

/-- `\uXXXX` -/
def escapeUnit (u : ℕ) : Str :=
  [0x5C, 0x75, hexChar (u / 4096 % 16), hexChar (u / 256 % 16), hexChar (u / 16 % 16),
    hexChar (u % 16)]

/-- `ESCAPE_DCT`, without the control characters that have no short form. -/
def shortEscapes : List (ℕ × ℕ) :=
  [(0x22, 0x22), (0x5C, 0x5C), (0x08, 0x62), (0x0C, 0x66), (0x0A, 0x6E), (0x0D, 0x72),
    (0x09, 0x74)]

/-- The code units of a code point. -/
def units (c : ℕ) : List ℕ :=
  if c < 0x10000 then [c]
  else [0xD800 + (c - 0x10000) / 0x400, 0xDC00 + (c - 0x10000) % 0x400]

/-- A character in a string literal. -/
def escape (f : Format) (c : ℕ) : Str :=
  match shortEscapes.lookup c with
  | some e => [0x5C, e]
  | none =>
    if c < 0x20 ∨ (f.ensureAscii = true ∧ 0x7E < c) then (units c).flatMap escapeUnit else [c]

/-- `py_encode_basestring_ascii` or `py_encode_basestring` -/
def dumpString (f : Format) (s : Str) : Str := 0x22 :: s.flatMap (escape f) ++ [0x22]

/-- The digits of a natural number. -/
def decimal (n : ℕ) : Str := if n = 0 then [48] else (Nat.digits 10 n).reverse.map (48 + ·)

/-- `int.__repr__` -/
def dumpInt (n : ℤ) : Str := (if n < 0 then [45] else []) ++ decimal n.natAbs

/-! ### Values -/

def itemSeparator (f : Format) : Str := if f.spaced then [44, 32] else [44]

def keySeparator (f : Format) : Str := if f.spaced then [58, 32] else [58]

mutual

/-- `JSONEncoder.encode` -/
def dumps (f : Format) : Value → Str
  | .null => str "null"
  | .bool b => if b then str "true" else str "false"
  | .int n => dumpInt n
  | .float literal => literal
  | .str s => dumpString f s
  | .arr [] => [91, 93]
  | .arr (v :: items) => 91 :: dumps f v ++ dumpsItems f items ++ [93]
  | .obj [] => [123, 125]
  | .obj ((key, v) :: members) =>
    123 :: dumpString f key ++ keySeparator f ++ dumps f v ++ dumpsMembers f members ++ [125]

/-- The items of an array after the first. -/
def dumpsItems (f : Format) : List Value → Str
  | [] => []
  | v :: items => itemSeparator f ++ dumps f v ++ dumpsItems f items

/-- The members of an object after the first. -/
def dumpsMembers (f : Format) : List (Str × Value) → Str
  | [] => []
  | (key, v) :: members =>
    itemSeparator f ++ dumpString f key ++ keySeparator f ++ dumps f v ++ dumpsMembers f members

end

mutual

/-- The number of containers around the deepest part. -/
def Value.depth : Value → ℕ
  | .arr items => itemsDepth items + 1
  | .obj members => membersDepth members + 1
  | _ => 0

def itemsDepth : List Value → ℕ
  | [] => 0
  | v :: items => max v.depth (itemsDepth items)

def membersDepth : List (Str × Value) → ℕ
  | [] => 0
  | (_, v) :: members => max v.depth (membersDepth members)

end

/-- A text of code points in which no surrogates are a pair. -/
def PlainStr : Str → Prop
  | [] => True
  | c :: s => c ≤ 0x10FFFF ∧ ¬(isHigh c ∧ ∃ l, s.head? = some l ∧ isLow l) ∧ PlainStr s

mutual

/-- The value has no float, no integer of too many digits, no surrogate pair and no key twice. -/
def Value.Plain : Value → Prop
  | .int n => (decimal n.natAbs).length ≤ 4300
  | .float _ => False
  | .str s => PlainStr s
  | .arr items => PlainItems items
  | .obj members => (members.map Prod.fst).Nodup ∧ PlainMembers members
  | _ => True

def PlainItems : List Value → Prop
  | [] => True
  | v :: items => v.Plain ∧ PlainItems items

def PlainMembers : List (Str × Value) → Prop
  | [] => True
  | (key, v) :: members => PlainStr key ∧ v.Plain ∧ PlainMembers members

end

/-- `json.loads`, of a `str`. -/
def loadsStr (depth : ℕ) (s : Str) : Except Error Value :=
  if s.head? = some 0xFEFF then .error .jsonDecodeError
  else do
    let (v, s) ← scanOnce depth (skip s)
    if skip s = [] then return v
    throw .jsonDecodeError

example : dumps ⟨true, false⟩ (.obj [(str "a", .arr [.int (-10), .str [0x3042, 0x1F600, 0x0A]])]) =
    str "\x7b\"a\":[-10,\"\\u3042\\ud83d\\ude00\\n\"]\x7d" := by decide +kernel

/-! ### UTF-8 -/

/-- A code point that is no surrogate. -/
def isScalar (c : ℕ) : Bool := decide (c < 0xD800 ∨ 0xE000 ≤ c ∧ c ≤ 0x10FFFF)

/-- The octets of a code point. -/
def octets (c : ℕ) : List ℕ :=
  if c < 0x80 then [c]
  else if c < 0x800 then [0xC0 + c / 64, 0x80 + c % 64]
  else if c < 0x10000 then [0xE0 + c / 4096, 0x80 + c / 64 % 64, 0x80 + c % 64]
  else [0xF0 + c / 262144, 0x80 + c / 4096 % 64, 0x80 + c / 64 % 64, 0x80 + c % 64]

/-- `str.encode`; `none` is a `UnicodeEncodeError`. -/
def encode (s : Str) : Option (List UInt8) :=
  if s.all isScalar then some ((s.flatMap octets).map UInt8.ofNat) else none

mutual

/-- The texts of the value can be encoded. -/
def Value.encodable : Value → Bool
  | .float literal => literal.all isScalar
  | .str s => s.all isScalar
  | .arr items => itemsEncodable items
  | .obj members => membersEncodable members
  | _ => true

def itemsEncodable : List Value → Bool
  | [] => true
  | v :: items => v.encodable && itemsEncodable items

def membersEncodable : List (Str × Value) → Bool
  | [] => true
  | (key, v) :: members => key.all isScalar && v.encodable && membersEncodable members

end

end Json

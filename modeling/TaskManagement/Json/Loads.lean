import TaskManagement.Json.Value
import Mathlib.Data.Int.Notation
import Mathlib.Data.List.TakeDrop
import Mathlib.Tactic.Common

/-!
# `json.loads`

Python's reader of JSON as the partial function that it is.  Besides the two errors that its
documentation names, it raises a plain `ValueError` for an integer of too many digits, and a
`RecursionError` where containers are nested deeper than the stack.
-/

namespace Json

inductive Error : Type where
  | unicodeDecodeError
  | jsonDecodeError
  /-- Exceeds the limit (4300 digits) for integer string conversion -/
  | valueError
  | recursionError
  | outOfFuel
deriving DecidableEq, Repr

/-! ### The encoding -/

inductive Encoding : Type where
  | utf8
  | utf16 (bigEndian : Bool)
  | utf32 (bigEndian : Bool)
deriving DecidableEq, Repr

/-- `detect_encoding`, with the number of octets of a byte order mark. -/
def detectEncoding : List ℕ → Encoding × ℕ
  | 0x00 :: 0x00 :: 0xFE :: 0xFF :: _ => (.utf32 true, 4)
  | 0xFF :: 0xFE :: 0x00 :: 0x00 :: _ => (.utf32 false, 4)
  | 0xFE :: 0xFF :: _ => (.utf16 true, 2)
  | 0xFF :: 0xFE :: _ => (.utf16 false, 2)
  | 0xEF :: 0xBB :: 0xBF :: _ => (.utf8, 3)
  | a :: b :: c :: d :: _ =>
    if a = 0 then if b = 0 then (.utf32 true, 0) else (.utf16 true, 0)
    else if b = 0 then if c = 0 ∧ d = 0 then (.utf32 false, 0) else (.utf16 false, 0)
    else (.utf8, 0)
  | [a, b] =>
    if a = 0 then (.utf16 true, 0) else if b = 0 then (.utf16 false, 0) else (.utf8, 0)
  | _ => (.utf8, 0)

def isTail (b : ℕ) : Bool := decide (0x80 ≤ b ∧ b ≤ 0xBF)

/-- `decode("utf-8", "surrogatepass")` -/
def decodeUtf8 : List ℕ → Option Str
  | [] => some []
  | a :: s =>
    if a < 0x80 then (decodeUtf8 s).map (a :: ·)
    else
      match s with
      | [] => none
      | b :: s =>
        if isTail b = false then none
        else if 0xC2 ≤ a ∧ a ≤ 0xDF then
          (decodeUtf8 s).map (((a - 0xC0) * 64 + (b - 0x80)) :: ·)
        else
          match s with
          | [] => none
          | c :: s =>
            if isTail c = false then none
            else if 0xE0 ≤ a ∧ a ≤ 0xEF ∧ (a = 0xE0 → 0xA0 ≤ b) then
              (decodeUtf8 s).map ((((a - 0xE0) * 64 + (b - 0x80)) * 64 + (c - 0x80)) :: ·)
            else
              match s with
              | [] => none
              | d :: s =>
                if isTail d = true ∧ 0xF0 ≤ a ∧ a ≤ 0xF4 ∧ (a = 0xF0 → 0x90 ≤ b) ∧
                    (a = 0xF4 → b ≤ 0x8F) then
                  (decodeUtf8 s).map
                    (((((a - 0xF0) * 64 + (b - 0x80)) * 64 + (c - 0x80)) * 64 + (d - 0x80)) :: ·)
                else none

def isHigh (u : ℕ) : Bool := decide (0xD800 ≤ u ∧ u ≤ 0xDBFF)

def isLow (u : ℕ) : Bool := decide (0xDC00 ≤ u ∧ u ≤ 0xDFFF)

/-- The code point of a surrogate pair. -/
def join (high low : ℕ) : ℕ := 0x10000 + (high - 0xD800) * 0x400 + (low - 0xDC00)

/-- Surrogate pairs are joined, other surrogates stay. -/
def joinPairs : List ℕ → Str
  | h :: l :: s =>
    if isHigh h && isLow l then join h l :: joinPairs s else h :: joinPairs (l :: s)
  | s => s

/-- `decode("utf-16", "surrogatepass")`, up to the pairs. -/
def decodeUnits (bigEndian : Bool) : List ℕ → Option (List ℕ)
  | [] => some []
  | a :: b :: s =>
    (decodeUnits bigEndian s).map ((if bigEndian then a * 256 + b else b * 256 + a) :: ·)
  | _ => none

/-- `decode("utf-32", "surrogatepass")` -/
def decodeUtf32 (bigEndian : Bool) : List ℕ → Option Str
  | [] => some []
  | a :: b :: c :: d :: s =>
    let u := if bigEndian then ((a * 256 + b) * 256 + c) * 256 + d
      else ((d * 256 + c) * 256 + b) * 256 + a
    if u ≤ 0x10FFFF then (decodeUtf32 bigEndian s).map (u :: ·) else none
  | _ => none

/-- The text of the octets; `none` is a `UnicodeDecodeError`. -/
def decode (bytes : List ℕ) : Option Str :=
  match detectEncoding bytes with
  | (.utf8, bom) => decodeUtf8 (bytes.drop bom)
  | (.utf16 bigEndian, bom) => (decodeUnits bigEndian (bytes.drop bom)).map joinPairs
  | (.utf32 bigEndian, bom) => decodeUtf32 bigEndian (bytes.drop bom)

/-! ### Strings -/

/-- A scanner reads a value from the start of a text and leaves the rest. -/
abbrev Scan (α : Type) : Type := Str → Except Error (α × Str)

/-- Where a string literal is, between two of its characters. -/
inductive StringState : Type where
  | chars
  | escape
  /-- In the digits of a code unit, behind a high surrogate or not. -/
  | hex (high : Option ℕ) (digits value : ℕ)
  | afterHigh (high : ℕ)
  | escapeAfterHigh (high : ℕ)

inductive StringStep : Type where
  | invalid
  | close (text : Str)
  | next (text : Str) (state : StringState)

/-- A text in front of what a step adds. -/
def StringStep.after (c : ℕ) : StringStep → StringStep
  | .invalid => .invalid
  | .close text => .close (c :: text)
  | .next text state => .next (c :: text) state

def hexDigit (c : ℕ) : Option ℕ :=
  if 48 ≤ c ∧ c ≤ 57 then some (c - 48)
  else if 65 ≤ c ∧ c ≤ 70 then some (c - 55)
  else if 97 ≤ c ∧ c ≤ 102 then some (c - 87)
  else none

/-- `BACKSLASH` -/
def unescape (c : ℕ) : Option ℕ :=
  [(0x22, 0x22), (0x5C, 0x5C), (0x2F, 0x2F), (0x62, 0x08), (0x66, 0x0C), (0x6E, 0x0A),
    (0x72, 0x0D), (0x74, 0x09)].lookup c

def charStep (c : ℕ) : StringStep :=
  if c = 0x22 then .close []
  else if c < 0x20 then .invalid
  else if c = 0x5C then .next [] .escape
  else .next [c] .chars

def escapeStep (c : ℕ) : StringStep :=
  if c = 0x75 then .next [] (.hex none 0 0)
  else
    match unescape c with
    | some e => .next [e] .chars
    | none => .invalid

def unitStep (u : ℕ) : StringStep :=
  if isHigh u then .next [] (.afterHigh u) else .next [u] .chars

def StringState.step : StringState → ℕ → StringStep
  | .chars, c => charStep c
  | .escape, c => escapeStep c
  | .afterHigh h, c => if c = 0x5C then .next [] (.escapeAfterHigh h) else (charStep c).after h
  | .escapeAfterHigh h, c =>
    if c = 0x75 then .next [] (.hex (some h) 0 0) else (escapeStep c).after h
  | .hex high digits value, c =>
    match hexDigit c with
    | none => .invalid
    | some d =>
      let u := 16 * value + d
      if digits < 3 then .next [] (.hex high (digits + 1) u)
      else
        match high with
        | none => unitStep u
        | some h => if isLow u then .next [join h u] .chars else (unitStep u).after h

/-- `scanstring`, behind the opening quote. -/
def scanString : StringState → Scan Str
  | _, [] => .error .jsonDecodeError
  | state, c :: s =>
    match state.step c with
    | .invalid => .error .jsonDecodeError
    | .close text => .ok (text, s)
    | .next text state => do
      let (more, s) ← scanString state s
      return (text ++ more, s)

/-! ### Numbers and constants -/

def isDigit (c : ℕ) : Bool := decide (48 ≤ c ∧ c ≤ 57)

def number (digits : Str) : ℕ := digits.foldl (fun n c => 10 * n + (c - 48)) 0

/-- The digits before a fraction. -/
def scanDigits : Scan Str
  | 48 :: s => .ok ([48], s)
  | s =>
    match s.span isDigit with
    | ([], _) => .error .jsonDecodeError
    | digits => .ok digits

/-- A point with digits. -/
def scanFraction (s : Str) : Str × Str :=
  match s with
  | 46 :: t =>
    match t.span isDigit with
    | ([], _) => ([], s)
    | (digits, rest) => (46 :: digits, rest)
  | _ => ([], s)

/-- The sign of an exponent. -/
def scanSign : Str → Str × Str
  | 43 :: s => ([43], s)
  | 45 :: s => ([45], s)
  | s => ([], s)

/-- An `e` with digits. -/
def scanExponent (s : Str) : Str × Str :=
  match s with
  | e :: t =>
    if e = 101 ∨ e = 69 then
      let (sign, u) := scanSign t
      match u.span isDigit with
      | ([], _) => ([], s)
      | (digits, rest) => (e :: sign ++ digits, rest)
    else ([], s)
  | [] => ([], s)

/-- `_match_number_unicode`, behind the sign. -/
def scanUnsigned (negative : Bool) (s : Str) : Except Error (Value × Str) := do
  let (digits, s) ← scanDigits s
  let (fraction, s) := scanFraction s
  let (exponent, s) := scanExponent s
  if fraction = [] ∧ exponent = [] then
    if 4300 < digits.length then throw .valueError
    return (.int (if negative then -(number digits) else number digits), s)
  return (.float ((if negative then [45] else []) ++ digits ++ fraction ++ exponent), s)

/-- The named constants, by the values that they stand for. -/
def constants : List (Str × Value) :=
  [(str "null", .null), (str "true", .bool true), (str "false", .bool false),
    (str "NaN", .float (str "NaN")), (str "Infinity", .float (str "Infinity")),
    (str "-Infinity", .float (str "-Infinity"))]

/-- What is not a container. -/
def scanAtom : Scan Value
  | 0x22 :: s => do
    let (text, s) ← scanString .chars s
    return (.str text, s)
  | s =>
    match constants.find? fun c => c.1.isPrefixOf s with
    | some (name, value) => .ok (value, s.drop name.length)
    | none =>
      match s with
      | 45 :: s => scanUnsigned true s
      | s => scanUnsigned false s

/-! ### Containers -/

def isSpace (c : ℕ) : Bool := c == 0x20 || c == 0x09 || c == 0x0A || c == 0x0D

def skip (s : Str) : Str := s.dropWhile isSpace

section

variable (value : Scan Value)

/-- The items of an array, up to the closing bracket. -/
def scanItems : ℕ → Scan (List Value)
  | 0, _ => .error .outOfFuel
  | fuel + 1, s => do
    let (v, s) ← value s
    match skip s with
    | 93 :: s => return ([v], s)
    | 44 :: s =>
      if (skip s).head? = some 93 then throw .jsonDecodeError
      let (vs, s) ← scanItems fuel (skip s)
      return (v :: vs, s)
    | _ => throw .jsonDecodeError

/-- A member of an object. -/
def scanMember : Scan (Str × Value)
  | 0x22 :: s => do
    let (key, s) ← scanString .chars s
    match skip s with
    | 58 :: s =>
      let (v, s) ← value (skip s)
      return ((key, v), s)
    | _ => throw .jsonDecodeError
  | _ => .error .jsonDecodeError

/-- The members of an object, up to the closing brace. -/
def scanMembers : ℕ → Scan (List (Str × Value))
  | 0, _ => .error .outOfFuel
  | fuel + 1, s => do
    let (m, s) ← scanMember value s
    match skip s with
    | 125 :: s => return ([m], s)
    | 44 :: s =>
      if (skip s).head? = some 125 then throw .jsonDecodeError
      let (ms, s) ← scanMembers fuel (skip s)
      return (m :: ms, s)
    | _ => throw .jsonDecodeError

end

/-- `dict[key] = value`: a key keeps its first place and gets its last value. -/
def setItem (members : List (Str × Value)) (m : Str × Value) : List (Str × Value) :=
  if members.any fun n => n.1 == m.1 then
    members.map fun n => if n.1 == m.1 then m else n
  else members ++ [m]

/-- `_parse_array_unicode`, behind the bracket. -/
def scanArray (value : Scan Value) (s : Str) : Except Error (Value × Str) :=
  match skip s with
  | 93 :: s => .ok (.arr [], s)
  | s => do
    let (items, s) ← scanItems value (s.length + 1) s
    return (.arr items, s)

/-- `_parse_object_unicode`, behind the brace. -/
def scanObject (value : Scan Value) (s : Str) : Except Error (Value × Str) :=
  match skip s with
  | 125 :: s => .ok (.obj [], s)
  | s => do
    let (members, s) ← scanMembers value (s.length + 1) s
    return (.obj (members.foldl setItem []), s)

/-- `scan_once_unicode`; the stack has room for `depth` containers. -/
def scanOnce : ℕ → Scan Value
  | 0, s => if s.head? = some 123 ∨ s.head? = some 91 then .error .recursionError else scanAtom s
  | depth + 1, 123 :: s => scanObject (scanOnce depth) s
  | depth + 1, 91 :: s => scanArray (scanOnce depth) s
  | _ + 1, s => scanAtom s

/-- `json.loads`, of octets. -/
def loads (depth : ℕ) (bytes : List UInt8) : Except Error Value :=
  match decode (bytes.map UInt8.toNat) with
  | none => .error .unicodeDecodeError
  | some s => do
    let (v, s) ← scanOnce depth (skip s)
    if skip s = [] then return v
    throw .jsonDecodeError

example : loads 2 [0x5B, 0x2D, 0x31, 0x2C, 0x7B, 0x22, 0x61, 0x22, 0x3A, 0x31, 0x65, 0x39, 0x7D,
      0x5D] =
    .ok (.arr [.int (-1), .obj [(str "a", .float (str "1e9"))]]) := by rfl

end Json

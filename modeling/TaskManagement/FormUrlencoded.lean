import Mathlib.Data.Int.Notation
import Mathlib.Data.List.TakeDrop
import Mathlib.Tactic.Common

/-!
# `application/x-www-form-urlencoded`

The parser of the URL standard: a text is encoded in UTF-8, split at `&` and at the first `=`, and
each part is decoded, a `+` as a space, `%` and two digits as an octet, and the octets as UTF-8 with
replacement (`utf8Decode`, which inverts the encoding: `utf8Decode_encode`).
-/

namespace FormUrlencoded

/-! ### The UTF-8 decoder -/

/-- The state between two octets: `needed` octets of a sequence are still to come, and the next one
must lie between the bounds. -/
structure Decoder where
  codePoint : ℕ
  needed : ℕ
  lower : ℕ
  upper : ℕ

def Decoder.start : Decoder := ⟨0, 0, 128, 191⟩

/-- The replacement character. -/
def replacement : Char := '\uFFFD'

/-- An octet at the start of a sequence. -/
def lead (b : ℕ) : List Char × Decoder :=
  if b ≤ 127 then ([Char.ofNat b], .start)
  else if 194 ≤ b ∧ b ≤ 223 then ([], ⟨b - 192, 1, 128, 191⟩)
  else if 224 ≤ b ∧ b ≤ 239 then
    ([], ⟨b - 224, 2, if b = 224 then 160 else 128, if b = 237 then 159 else 191⟩)
  else if 240 ≤ b ∧ b ≤ 244 then
    ([], ⟨b - 240, 3, if b = 240 then 144 else 128, if b = 244 then 143 else 191⟩)
  else ([replacement], .start)

/-- An octet; one that does not continue the sequence starts again. -/
def Decoder.next (d : Decoder) (b : ℕ) : List Char × Decoder :=
  if d.needed = 0 then lead b
  else if d.lower ≤ b ∧ b ≤ d.upper then
    if d.needed = 1 then ([Char.ofNat (d.codePoint * 64 + b % 64)], .start)
    else ([], ⟨d.codePoint * 64 + b % 64, d.needed - 1, 128, 191⟩)
  else (replacement :: (lead b).1, (lead b).2)

def Decoder.run (d : Decoder) : List UInt8 → List Char
  | [] => if d.needed = 0 then [] else [replacement]
  | b :: bs => (d.next b.toNat).1 ++ (d.next b.toNat).2.run bs

def utf8Decode (bytes : List UInt8) : List Char := Decoder.start.run bytes

def utf8Encode (text : List Char) : List UInt8 := text.flatMap String.utf8EncodeChar

example : utf8Decode [0xE3, 0x81, 0x82, 0xFF, 0x41] = ['あ', replacement, 'A'] := by decide

/-! ### The parser -/

/-- The value of an octet that is a hexadecimal digit. -/
def hexValue (b : UInt8) : Option ℕ :=
  let n := b.toNat
  if 48 ≤ n ∧ n ≤ 57 then some (n - 48)
  else if 65 ≤ n ∧ n ≤ 70 then some (n - 55)
  else if 97 ≤ n ∧ n ≤ 102 then some (n - 87)
  else none

/-- `%` and two digits are an octet. -/
def percentDecode : List UInt8 → List UInt8
  | a :: b :: c :: rest =>
    match a == 0x25, hexValue b, hexValue c with
    | true, some x, some y => UInt8.ofNat (16 * x + y) :: percentDecode rest
    | _, _, _ => a :: percentDecode (b :: c :: rest)
  | [a, b] => [a, b]
  | [a] => [a]
  | [] => []

/-- A `+` is a space. -/
def plusToSpace (b : UInt8) : UInt8 := if b = 0x2B then 0x20 else b

/-- A name or a value. -/
def decodePart (bytes : List UInt8) : List Char := utf8Decode (percentDecode (bytes.map plusToSpace))

/-- The name and the value of a sequence. -/
def decodePair (sequence : List UInt8) : List Char × List Char :=
  let r := sequence.span (· ≠ 0x3D)
  (decodePart r.1, decodePart r.2.tail)

def parse (input : List Char) : List (List Char × List Char) :=
  (((utf8Encode input).splitOn 0x26).filter (· ≠ [])).map decodePair

/-! ### The decoder inverts the encoder -/

theorem toNat_ofNat {n : ℕ} (h : n < 256) : (UInt8.ofNat n).toNat = n := by
  rw [UInt8.toNat_ofNat']
  omega

theorem start_next (b : ℕ) : Decoder.start.next b = lead b := if_pos rfl

/-- An octet inside a sequence. -/
theorem next_continue {d : Decoder} {b : ℕ} (h : 1 < d.needed) (hb : d.lower ≤ b ∧ b ≤ d.upper) :
    d.next b = ([], ⟨d.codePoint * 64 + b % 64, d.needed - 1, 128, 191⟩) := by
  rw [Decoder.next, if_neg (by omega), if_pos hb, if_neg (by omega)]

/-- The last octet of a sequence. -/
theorem next_last {d : Decoder} {b : ℕ} (h : d.needed = 1) (hb : d.lower ≤ b ∧ b ≤ d.upper) :
    d.next b = ([Char.ofNat (d.codePoint * 64 + b % 64)], .start) := by
  rw [Decoder.next, if_neg (by omega), if_pos hb, if_pos h]

theorem run_encodeChar (c : Char) (bytes : List UInt8) :
    Decoder.start.run (String.utf8EncodeChar c ++ bytes) = c :: Decoder.start.run bytes := by
  have hc : Char.ofNat c.val.toNat = c := Char.ofNat_toNat c
  have hvalid : c.val.toNat < 55296 ∨ 57343 < c.val.toNat ∧ c.val.toNat < 1114112 := c.valid
  rw [String.utf8EncodeChar]
  generalize c.val.toNat = v at hc hvalid
  -- the last octet has the lowest six bits
  have hlast : (⟨v / 64, 1, 128, 191⟩ : Decoder).next (UInt8.ofNat (v % 64 + 128)).toNat =
      ([c], .start) := by
    rw [toNat_ofNat (by omega), next_last rfl (by dsimp only; omega), ← hc]
    congr 3
    dsimp only
    omega
  split_ifs with h1 h2 h3
  · -- one octet
    have hlead : Decoder.start.next (UInt8.ofNat v).toNat = ([Char.ofNat v], .start) := by
      rw [toNat_ofNat (by omega)]
      exact if_pos h1
    rw [List.cons_append, List.nil_append, Decoder.run, hlead, hc]
    rfl
  · -- two octets
    have hlead : Decoder.start.next (UInt8.ofNat (v / 64 % 32 + 192)).toNat =
        ([], ⟨v / 64, 1, 128, 191⟩) := by
      rw [toNat_ofNat (by omega), show v / 64 % 32 = v / 64 by omega, start_next, lead,
        if_neg (by omega), if_pos (by omega), Nat.add_sub_cancel]
    simp only [List.cons_append, List.nil_append, Decoder.run, hlead, hlast]
  · -- three octets
    have hlead : Decoder.start.next (UInt8.ofNat (v / 4096 % 16 + 224)).toNat =
        ([], ⟨v / 4096, 2, if v / 4096 + 224 = 224 then 160 else 128,
          if v / 4096 + 224 = 237 then 159 else 191⟩) := by
      rw [toNat_ofNat (by omega), show v / 4096 % 16 = v / 4096 by omega, start_next, lead,
        if_neg (by omega), if_neg (by omega), if_pos (by omega), Nat.add_sub_cancel]
    have hmid : (⟨v / 4096, 2, if v / 4096 + 224 = 224 then 160 else 128,
          if v / 4096 + 224 = 237 then 159 else 191⟩ : Decoder).next
        (UInt8.ofNat (v / 64 % 64 + 128)).toNat = ([], ⟨v / 64, 1, 128, 191⟩) := by
      rw [toNat_ofNat (by omega), next_continue Nat.one_lt_two]
      · show ([], (⟨v / 4096 * 64 + (v / 64 % 64 + 128) % 64, 1, 128, 191⟩ : Decoder)) = _
        rw [show v / 4096 * 64 + (v / 64 % 64 + 128) % 64 = v / 64 by omega]
      · dsimp only
        split_ifs <;> omega
    simp only [List.cons_append, List.nil_append, Decoder.run, hlead, hmid, hlast]
  · -- four octets
    have hlead : Decoder.start.next (UInt8.ofNat (v / 262144 % 8 + 240)).toNat =
        ([], ⟨v / 262144, 3, if v / 262144 + 240 = 240 then 144 else 128,
          if v / 262144 + 240 = 244 then 143 else 191⟩) := by
      rw [toNat_ofNat (by omega), show v / 262144 % 8 = v / 262144 by omega, start_next, lead,
        if_neg (by omega), if_neg (by omega), if_neg (by omega), if_pos (by omega),
        Nat.add_sub_cancel]
    have hmid : (⟨v / 262144, 3, if v / 262144 + 240 = 240 then 144 else 128,
          if v / 262144 + 240 = 244 then 143 else 191⟩ : Decoder).next
        (UInt8.ofNat (v / 4096 % 64 + 128)).toNat = ([], ⟨v / 4096, 2, 128, 191⟩) := by
      rw [toNat_ofNat (by omega), next_continue (by dsimp only; omega)]
      · show ([], (⟨v / 262144 * 64 + (v / 4096 % 64 + 128) % 64, 2, 128, 191⟩ : Decoder)) = _
        rw [show v / 262144 * 64 + (v / 4096 % 64 + 128) % 64 = v / 4096 by omega]
      · dsimp only
        split_ifs <;> omega
    have hmid' : (⟨v / 4096, 2, 128, 191⟩ : Decoder).next
        (UInt8.ofNat (v / 64 % 64 + 128)).toNat = ([], ⟨v / 64, 1, 128, 191⟩) := by
      rw [toNat_ofNat (by omega), next_continue Nat.one_lt_two (by dsimp only; omega)]
      show ([], (⟨v / 4096 * 64 + (v / 64 % 64 + 128) % 64, 1, 128, 191⟩ : Decoder)) = _
      rw [show v / 4096 * 64 + (v / 64 % 64 + 128) % 64 = v / 64 by omega]
    simp only [List.cons_append, List.nil_append, Decoder.run, hlead, hmid, hmid', hlast]

theorem utf8Decode_encode (text : List Char) : utf8Decode (utf8Encode text) = text := by
  induction text with
  | nil => rfl
  | cons c cs ih =>
    have hcons : utf8Encode (c :: cs) = String.utf8EncodeChar c ++ utf8Encode cs :=
      List.flatMap_cons
    rw [utf8Decode, hcons, run_encodeChar]
    exact congrArg (c :: ·) ih

end FormUrlencoded

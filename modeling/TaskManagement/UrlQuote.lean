import TaskManagement.FormUrlencoded

/-!
# `quote` and `urlencode`

What Python's `urlencode` makes of fields with `quote` and the safe character `/`, the parser of the
URL standard reads back (`parse_urlencode`).
-/

namespace Urllib

open FormUrlencoded

/-- `_ALWAYS_SAFE` -/
def isAlwaysSafe (c : Char) : Bool := c.isAlphanum || "_.-~".toList.contains c

/-- A digit of `{:02X}`. -/
def hexUpper (n : ℕ) : Char := if n < 10 then Char.ofNat (48 + n) else Char.ofNat (55 + n)

/-- `_Quoter` -/
def quoteByte (safe : List Char) (b : UInt8) : List Char :=
  let c := Char.ofNat b.toNat
  if isAlwaysSafe c || safe.contains c then [c]
  else ['%', hexUpper (b.toNat / 16), hexUpper (b.toNat % 16)]

/-- `quote` -/
def quote (safe text : List Char) : List Char := (utf8Encode text).flatMap (quoteByte safe)

/-- `urlencode` of a dictionary, with `quote_via=quote`. -/
def urlencode (safe : List Char) (query : List (List Char × List Char)) : List Char :=
  List.intercalate ['&'] (query.map fun item => quote safe item.1 ++ '=' :: quote safe item.2)

/-! ### An octet -/

theorem lt_of_isAlphanum {c : Char} (h : c.isAlphanum = true) : c.toNat < 128 := by
  have hclass : ((decide (c.val ≥ 'A'.val ∧ c.val ≤ 'Z'.val) ||
      (decide (c.val ≥ 'a'.val) && decide (c.val ≤ 'z'.val))) ||
      (decide (c.val ≥ '0'.val) && decide (c.val ≤ '9'.val))) = true := h
  simp only [Bool.or_eq_true, Bool.and_eq_true, decide_eq_true_eq, UInt32.le_iff_toNat_le,
    ge_iff_le] at hclass
  have hc : c.toNat = c.val.toNat := rfl
  have hz : 'z'.val.toNat = 122 := rfl
  have hZ : 'Z'.val.toNat = 90 := rfl
  have h9 : '9'.val.toNat = 57 := rfl
  omega

/-- The characters that are kept are ASCII, and no delimiters of the parser. -/
theorem kept_bounds {c : Char} (h : (isAlwaysSafe c || ['/'].contains c) = true) :
    c.toNat < 128 ∧ c ∉ ['%', '&', '+', '='] := by
  constructor
  · rw [isAlwaysSafe, Bool.or_eq_true, Bool.or_eq_true] at h
    rcases h with (h | h) | h
    · exact lt_of_isAlphanum h
    · have hmem : c ∈ "_.-~".toList := List.contains_iff_mem.mp h
      simp only [show "_.-~".toList = ['_', '.', '-', '~'] from rfl, List.mem_cons,
        List.not_mem_nil, or_false] at hmem
      rcases hmem with rfl | rfl | rfl | rfl <;> decide
    · obtain rfl := List.mem_singleton.mp (List.contains_iff_mem.mp h)
      decide
  · intro hmem
    simp only [List.mem_cons, List.not_mem_nil, or_false] at hmem
    rcases hmem with rfl | rfl | rfl | rfl <;> exact absurd h (by decide)

/-- The octet of a digit. -/
def hexOctet (n : ℕ) : UInt8 := UInt8.ofNat (if n < 10 then 48 + n else 55 + n)

/-- Digits are read back. -/
theorem hexOctet_spec : ∀ n : Fin 16, String.utf8EncodeChar (hexUpper n) = [hexOctet n] ∧
    hexValue (hexOctet n) = some n.val ∧ hexOctet n ∉ [0x25, 0x26, 0x2B, 0x3D] := by
  decide

/-- The octets of the text for an octet: itself, or three for which it is read back. -/
theorem encode_quoteByte (b : UInt8) :
    utf8Encode (quoteByte ['/'] b) = [b] ∧ b ∉ [0x25, 0x26, 0x2B, 0x3D] ∨
      ∃ x y : Fin 16, utf8Encode (quoteByte ['/'] b) = [0x25, hexOctet x, hexOctet y] ∧
        UInt8.ofNat (16 * x + y) = b := by
  have hlt : b.toNat < 256 := b.toNat_lt
  have hc : (Char.ofNat b.toNat).toNat = b.toNat := by
    rw [Char.ofNat, dif_pos (Or.inl (by omega))]
    rfl
  by_cases hkeep : (isAlwaysSafe (Char.ofNat b.toNat) || ['/'].contains (Char.ofNat b.toNat)) = true
  · left
    obtain ⟨hascii, hne⟩ := kept_bounds hkeep
    rw [hc] at hascii
    constructor
    · -- a safe character is ASCII
      have henc : String.utf8EncodeChar (Char.ofNat b.toNat) = [b] := by
        rw [String.utf8EncodeChar]
        show (if (Char.ofNat b.toNat).toNat ≤ 127 then [UInt8.ofNat (Char.ofNat b.toNat).toNat]
          else _) = _
        rw [hc, if_pos (by omega), UInt8.ofNat_toNat]
      rw [quoteByte, if_pos hkeep, utf8Encode, List.flatMap_singleton, henc]
    · intro hmem
      simp only [List.mem_cons, List.not_mem_nil, or_false] at hmem
      rcases hmem with rfl | rfl | rfl | rfl
      · exact hne (by decide)
      · exact hne (by decide)
      · exact hne (by decide)
      · exact hne (by decide)
  · right
    refine ⟨⟨b.toNat / 16, by omega⟩, ⟨b.toNat % 16, by omega⟩, ?_, ?_⟩
    · -- the percent sign and two digits
      have hhi := (hexOctet_spec ⟨b.toNat / 16, by omega⟩).1
      have hlo := (hexOctet_spec ⟨b.toNat % 16, by omega⟩).1
      rw [quoteByte, if_neg hkeep, utf8Encode, List.flatMap_cons, List.flatMap_cons,
        List.flatMap_singleton, hhi, hlo]
      rfl
    · rw [show 16 * (b.toNat / 16) + b.toNat % 16 = b.toNat by omega, UInt8.ofNat_toNat]

/-! ### A text -/

theorem percentDecode_kept {b : UInt8} (h : b ≠ 0x25) (bytes : List UInt8) :
    percentDecode (b :: bytes) = b :: percentDecode bytes := by
  have hb : (b == 0x25) = false := beq_eq_false_iff_ne.mpr h
  cases bytes with
  | nil => rfl
  | cons c bytes =>
    cases bytes with
    | nil => rfl
    | cons d bytes => rw [percentDecode, hb]

theorem percentDecode_quoted (x y : Fin 16) (bytes : List UInt8) :
    percentDecode (0x25 :: hexOctet x :: hexOctet y :: bytes) =
      UInt8.ofNat (16 * x + y) :: percentDecode bytes := by
  rw [percentDecode, (hexOctet_spec x).2.1, (hexOctet_spec y).2.1]
  rfl

theorem utf8Encode_append (a b : List Char) : utf8Encode (a ++ b) = utf8Encode a ++ utf8Encode b :=
  List.flatMap_append

theorem percentDecode_quoteByte (b : UInt8) (bytes : List UInt8) :
    percentDecode (utf8Encode (quoteByte ['/'] b) ++ bytes) = b :: percentDecode bytes := by
  rcases encode_quoteByte b with ⟨heq, hb⟩ | ⟨x, y, heq, rfl⟩
  · rw [heq, List.singleton_append, percentDecode_kept]
    rintro rfl
    exact hb (by decide)
  · rw [heq]
    exact percentDecode_quoted x y bytes

theorem percentDecode_quoted_bytes (bytes : List UInt8) :
    percentDecode (utf8Encode (bytes.flatMap (quoteByte ['/']))) = bytes := by
  induction bytes with
  | nil => rfl
  | cons b bytes ih =>
    rw [List.flatMap_cons, utf8Encode_append, percentDecode_quoteByte, ih]

/-- The octets of a quoted text are no delimiters and no `+`. -/
theorem notMem_quote {text : List Char} {b : UInt8} (h : b ∈ utf8Encode (quote ['/'] text)) :
    b ∉ [0x26, 0x2B, 0x3D] := by
  have hall : ∀ bytes : List UInt8, ∀ b ∈ utf8Encode (bytes.flatMap (quoteByte ['/'])),
      b ∉ [0x26, 0x2B, 0x3D] := by
    intro bytes
    induction bytes with
    | nil =>
      intro b hb
      cases hb
    | cons a bytes ih =>
      intro b hb
      rw [List.flatMap_cons, utf8Encode_append, List.mem_append] at hb
      rcases hb with hb | hb
      · rcases encode_quoteByte a with ⟨heq, ha⟩ | ⟨x, y, heq, -⟩
        · rw [heq, List.mem_singleton] at hb
          subst hb
          exact fun h => ha (List.mem_cons_of_mem _ h)
        · rw [heq] at hb
          simp only [List.mem_cons, List.not_mem_nil, or_false] at hb
          rcases hb with rfl | rfl | rfl
          · decide
          · exact fun h => (hexOctet_spec x).2.2 (List.mem_cons_of_mem _ h)
          · exact fun h => (hexOctet_spec y).2.2 (List.mem_cons_of_mem _ h)
      · exact ih b hb
  exact hall _ b h

/-- A quoted text is read back. -/
theorem decodePart_quote (text : List Char) : decodePart (utf8Encode (quote ['/'] text)) = text := by
  have hplus : (utf8Encode (quote ['/'] text)).map plusToSpace = utf8Encode (quote ['/'] text) := by
    refine (List.map_congr_left fun b hb => ?_).trans (List.map_id _)
    refine if_neg fun heq => ?_
    subst heq
    exact notMem_quote hb (by decide)
  rw [decodePart, hplus, quote, percentDecode_quoted_bytes, utf8Decode_encode]

/-! ### A dictionary -/

/-- The text of an item. -/
def itemText (item : List Char × List Char) : List Char :=
  quote ['/'] item.1 ++ '=' :: quote ['/'] item.2

theorem encode_itemText (item : List Char × List Char) : utf8Encode (itemText item) =
    utf8Encode (quote ['/'] item.1) ++ 0x3D :: utf8Encode (quote ['/'] item.2) := by
  rw [itemText, utf8Encode_append]
  rfl

theorem notMem_itemText (item : List Char × List Char) : 0x26 ∉ utf8Encode (itemText item) := by
  rw [encode_itemText, List.mem_append, List.mem_cons]
  rintro (h | h | h)
  · exact notMem_quote h (by decide)
  · exact absurd h (by decide)
  · exact notMem_quote h (by decide)

theorem decodePair_itemText (item : List Char × List Char) :
    decodePair (utf8Encode (itemText item)) = item := by
  have hspan : (utf8Encode (itemText item)).span (· ≠ 0x3D) =
      (utf8Encode (quote ['/'] item.1), 0x3D :: utf8Encode (quote ['/'] item.2)) := by
    have hname : ∀ b ∈ utf8Encode (quote ['/'] item.1), decide (b ≠ 0x3D) = true := by
      intro b hb
      rw [decide_eq_true_eq]
      rintro rfl
      exact notMem_quote hb (by decide)
    rw [List.span_eq_takeWhile_dropWhile, encode_itemText, List.takeWhile_append_of_pos hname,
      List.dropWhile_append_of_pos hname, List.takeWhile_cons_of_neg (by decide),
      List.dropWhile_cons_of_neg (by decide), List.append_nil]
  rw [decodePair, hspan]
  exact Prod.ext (decodePart_quote item.1) (decodePart_quote item.2)

theorem encode_intercalate (texts : List (List Char)) :
    utf8Encode (List.intercalate ['&'] texts) =
      List.intercalate [0x26] (texts.map utf8Encode) := by
  induction texts with
  | nil => rfl
  | cons t texts ih =>
    cases texts with
    | nil => rw [List.intercalate_singleton, List.map_singleton, List.intercalate_singleton]
    | cons t' texts =>
      rw [List.intercalate_cons_cons, utf8Encode_append, utf8Encode_append, ih]
      exact List.intercalate_cons_cons.symm

/-- The parser of the URL standard reads back what `urlencode` writes. -/
theorem parse_urlencode (query : List (List Char × List Char)) :
    parse (urlencode ['/'] query) = query := by
  by_cases hempty : query = []
  · subst hempty
    rfl
  have htexts : urlencode ['/'] query = List.intercalate ['&'] (query.map itemText) := rfl
  have hsplit : (utf8Encode (urlencode ['/'] query)).splitOn 0x26 =
      query.map fun item => utf8Encode (itemText item) := by
    rw [htexts, encode_intercalate, List.map_map, List.splitOn_intercalate]
    · rfl
    · intro l hl
      obtain ⟨item, -, rfl⟩ := List.mem_map.mp hl
      exact notMem_itemText item
    · exact fun h => hempty (List.map_eq_nil_iff.mp h)
  have hfilter : (query.map fun item => utf8Encode (itemText item)).filter (· ≠ []) =
      query.map fun item => utf8Encode (itemText item) := by
    refine List.filter_eq_self.mpr fun l hl => ?_
    obtain ⟨item, -, rfl⟩ := List.mem_map.mp hl
    rw [decide_eq_true_eq, encode_itemText]
    exact List.append_ne_nil_of_right_ne_nil _ (List.cons_ne_nil _ _)
  rw [parse, hsplit, hfilter, List.map_map]
  refine (List.map_congr_left fun item _ => ?_).trans (List.map_id query)
  exact decodePair_itemText item

end Urllib

import TaskManagement.Json.Dumps
import Mathlib.Data.Nat.Digits.Lemmas

/-!
# `json.loads` reads what `json.dumps` writes

`readsString`, `scanAtom_dumpInt` and `scanOnce_dumps` are the round trips of a text, an integer and
a value in front of any text that does not go on with a number; `loadsStr_dumps` is that of a whole
text.
-/

namespace Json

variable {f : Format} {c u h : ℕ} {s t rest more text : Str} {state state' : StringState}

/-! ### Strings -/

/-- A character that adds `text`. -/
theorem scanString_cons (text : Str) (state' : StringState)
    (hstep : state.step c = .next text state')
    (hs : scanString state' s = .ok (more, rest)) :
    scanString state (c :: s) = .ok (text ++ more, rest) := by
  rw [scanString, hstep]
  simp only [hs]
  rfl

theorem hexDigit_hexChar {d : ℕ} (hd : d < 16) : hexDigit (hexChar d) = some d := by
  have hall : ∀ d < 16, hexDigit (hexChar d) = some d := by decide
  exact hall d hd

/-- What the last digit of a code unit does. -/
def unitEnd (high : Option ℕ) (u : ℕ) : StringStep :=
  match high with
  | none => unitStep u
  | some h => if isLow u then .next [join h u] .chars else (unitStep u).after h

/-- The four digits of a code unit. -/
theorem scanString_hex {high : Option ℕ} (hu : u < 65536)
    (hend : unitEnd high u = .next text state')
    (hs : scanString state' s = .ok (more, rest)) :
    scanString (.hex high 0 0) (hexChar (u / 4096 % 16) :: hexChar (u / 256 % 16) ::
      hexChar (u / 16 % 16) :: hexChar (u % 16) :: s) = .ok (text ++ more, rest) := by
  have hdigit (n : ℕ) : hexDigit (hexChar (n % 16)) = some (n % 16) :=
    hexDigit_hexChar (Nat.mod_lt _ (by omega))
  have hvalue : 16 * (16 * (16 * (16 * 0 + u / 4096 % 16) + u / 256 % 16) + u / 16 % 16) +
      u % 16 = u := by omega
  refine scanString_cons [] (.hex high 1 (16 * 0 + u / 4096 % 16)) ?_ <|
    scanString_cons [] (.hex high 2 (16 * (16 * 0 + u / 4096 % 16) + u / 256 % 16)) ?_ <|
    scanString_cons [] (.hex high 3
      (16 * (16 * (16 * 0 + u / 4096 % 16) + u / 256 % 16) + u / 16 % 16)) ?_ <|
    scanString_cons _ _ ?_ hs
  · simp [StringState.step, hdigit]
  · simp [StringState.step, hdigit]
  · simp [StringState.step, hdigit]
  · simp only [StringState.step, hdigit, hvalue]
    rw [← hend]
    cases high <;> rfl

theorem scanString_escapeUnit (hu : u < 65536) (hend : unitEnd none u = .next text state')
    (hs : scanString state' s = .ok (more, rest)) :
    scanString .chars (escapeUnit u ++ s) = .ok (text ++ more, rest) :=
  scanString_cons [] .escape rfl <| scanString_cons [] (.hex none 0 0) rfl <|
    scanString_hex hu hend hs

theorem scanString_escapeUnit_afterHigh (hu : u < 65536)
    (hend : unitEnd (some h) u = .next text state')
    (hs : scanString state' s = .ok (more, rest)) :
    scanString (.afterHigh h) (escapeUnit u ++ s) = .ok (text ++ more, rest) :=
  scanString_cons [] (.escapeAfterHigh h) rfl <| scanString_cons [] (.hex (some h) 0 0) rfl <|
    scanString_hex hu hend hs

/-- A text is read behind a high surrogate that it does not complete, and behind none. -/
structure ReadsString (f : Format) (s rest : Str) : Prop where
  chars : scanString .chars (s.flatMap (escape f) ++ 0x22 :: rest) = .ok (s, rest)
  afterHigh : ∀ h, isHigh h = true → (∀ l, s.head? = some l → ¬isLow l) →
    scanString (.afterHigh h) (s.flatMap (escape f) ++ 0x22 :: rest) = .ok (h :: s, rest)

theorem ReadsString.nil (f : Format) (rest : Str) : ReadsString f [] rest where
  chars := rfl
  afterHigh _ _ _ := rfl

theorem unescape_of_lookup {e : ℕ} (he : shortEscapes.lookup c = some e) :
    e ≠ 0x75 ∧ unescape e = some c := by
  obtain ⟨l₁, l₂, hl, -⟩ := List.lookup_eq_some_iff.mp he
  have hmem : (c, e) ∈ shortEscapes := by simp [hl]
  have hall : ∀ x ∈ shortEscapes, x.2 ≠ 0x75 ∧ unescape x.2 = some x.1 := by decide
  exact hall _ hmem

/-- A character with a short escape. -/
theorem ReadsString.short {e : ℕ} (hs : ReadsString f s rest)
    (he : shortEscapes.lookup c = some e) :
    ReadsString f (c :: s) rest := by
  obtain ⟨hu, hc⟩ := unescape_of_lookup he
  have hescape : escape f c = [0x5C, e] := by rw [escape, he]
  have hstep : escapeStep e = .next [c] .chars := by
    rw [escapeStep, if_neg hu, hc]
  constructor
  · rw [List.flatMap_cons, hescape]
    exact scanString_cons [] .escape rfl <| scanString_cons [c] .chars hstep hs.chars
  · intro h hh hl
    rw [List.flatMap_cons, hescape]
    refine scanString_cons [] (.escapeAfterHigh h) rfl <|
      scanString_cons [h, c] .chars ?_ hs.chars
    simp only [StringState.step, if_neg hu, hstep]
    rfl

/-- A character that is written as it is. -/
theorem ReadsString.plain (hs : ReadsString f s rest) (hescape : escape f c = [c])
    (hc : 0x20 ≤ c ∧ c ≠ 0x22 ∧ c ≠ 0x5C) : ReadsString f (c :: s) rest := by
  obtain ⟨hspace, hquote, hback⟩ := hc
  have hstep : charStep c = .next [c] .chars := by
    rw [charStep, if_neg hquote, if_neg (by omega), if_neg hback]
  constructor
  · rw [List.flatMap_cons, hescape]
    exact scanString_cons [c] .chars hstep hs.chars
  · intro h hh hl
    rw [List.flatMap_cons, hescape]
    refine scanString_cons [h, c] .chars ?_ hs.chars
    simp only [StringState.step, if_neg hback, hstep]
    rfl

/-- A character that is written as a code unit. -/
theorem ReadsString.unit (hs : ReadsString f s rest) (hescape : escape f c = escapeUnit c)
    (hc : c < 65536) (hpair : ¬(isHigh c ∧ ∃ l, s.head? = some l ∧ isLow l)) :
    ReadsString f (c :: s) rest := by
  constructor
  · rw [List.flatMap_cons, hescape, List.append_assoc]
    by_cases hhigh : isHigh c = true
    · have hend : unitEnd none c = .next [] (.afterHigh c) := if_pos hhigh
      exact scanString_escapeUnit hc hend <| hs.afterHigh c hhigh fun l hl hlow =>
        hpair ⟨hhigh, l, hl, hlow⟩
    · have hend : unitEnd none c = .next [c] .chars := if_neg hhigh
      exact scanString_escapeUnit hc hend hs.chars
  · intro h hh hl
    have hlow : ¬isLow c = true := hl c rfl
    rw [List.flatMap_cons, hescape, List.append_assoc]
    by_cases hhigh : isHigh c = true
    · have hend : unitEnd (some h) c = .next [h] (.afterHigh c) := by
        rw [unitEnd, if_neg hlow, unitStep, if_pos hhigh]
        rfl
      exact scanString_escapeUnit_afterHigh hc hend <| hs.afterHigh c hhigh fun l hl hlow =>
        hpair ⟨hhigh, l, hl, hlow⟩
    · have hend : unitEnd (some h) c = .next [h, c] .chars := by
        rw [unitEnd, if_neg hlow, unitStep, if_neg hhigh]
        rfl
      exact scanString_escapeUnit_afterHigh hc hend hs.chars

/-- A character that is written as a pair of code units. -/
theorem ReadsString.pair (hs : ReadsString f s rest)
    (hescape : escape f c = escapeUnit (0xD800 + (c - 0x10000) / 0x400) ++
      escapeUnit (0xDC00 + (c - 0x10000) % 0x400)) (hc : 0x10000 ≤ c ∧ c ≤ 0x10FFFF) :
    ReadsString f (c :: s) rest := by
  set high := 0xD800 + (c - 0x10000) / 0x400 with hhigh
  set low := 0xDC00 + (c - 0x10000) % 0x400 with hlow
  have hishigh : isHigh high = true := decide_eq_true (by omega)
  have hnotlow : ¬isLow high = true := fun h => by
    have := of_decide_eq_true h
    omega
  have hislow : isLow low = true := decide_eq_true (by omega)
  have hjoin : join high low = c := by
    unfold join
    omega
  have hsecond : scanString (.afterHigh high) (escapeUnit low ++
      (s.flatMap (escape f) ++ 0x22 :: rest)) = .ok (c :: s, rest) := by
    have hend : unitEnd (some high) low = .next [c] .chars := by
      rw [unitEnd, if_pos hislow, hjoin]
    exact scanString_escapeUnit_afterHigh (by omega) hend hs.chars
  constructor
  · rw [List.flatMap_cons, hescape, List.append_assoc, List.append_assoc]
    have hend : unitEnd none high = .next [] (.afterHigh high) := by
      rw [unitEnd, unitStep, if_pos hishigh]
    exact scanString_escapeUnit (by omega) hend hsecond
  · intro h hh hl
    rw [List.flatMap_cons, hescape, List.append_assoc, List.append_assoc]
    have hend : unitEnd (some h) high = .next [h] (.afterHigh high) := by
      rw [unitEnd, if_neg hnotlow, unitStep, if_pos hishigh]
      rfl
    exact scanString_escapeUnit_afterHigh (by omega) hend hsecond

/-- A text without surrogate pairs is read as it was written. -/
theorem readsString (hs : PlainStr s) : ReadsString f s rest := by
  induction s with
  | nil => exact .nil f rest
  | cons c s ih =>
    obtain ⟨hc, hpair, hs⟩ := hs
    cases he : shortEscapes.lookup c with
    | some e => exact (ih hs).short he
    | none =>
      have hquote : c ≠ 0x22 ∧ c ≠ 0x5C := by
        constructor <;> rintro rfl <;> cases he
      have hescape : escape f c = if c < 0x20 ∨ (f.ensureAscii = true ∧ 0x7E < c) then
          (units c).flatMap escapeUnit else [c] := by rw [escape, he]
      split_ifs at hescape with hlong
      · by_cases hbmp : c < 0x10000
        · refine (ih hs).unit ?_ hbmp hpair
          rw [hescape, units, if_pos hbmp]
          simp
        · refine (ih hs).pair ?_ ⟨by omega, hc⟩
          rw [hescape, units, if_neg hbmp]
          simp
      · exact (ih hs).plain hescape ⟨by omega, hquote⟩

/-! ### Integers -/

/-- The text does not go on with a number. -/
def EndsNumber (s : Str) : Prop :=
  ∀ c, s.head? = some c → isDigit c = false ∧ c ≠ 46 ∧ c ≠ 101 ∧ c ≠ 69

theorem isDigit_of_mem_decimal {n : ℕ} (hc : c ∈ decimal n) : isDigit c = true := by
  rw [decimal] at hc
  split_ifs at hc with hn
  · rw [List.mem_singleton.mp hc]
    rfl
  · obtain ⟨d, hd, rfl⟩ := List.mem_map.mp hc
    have hlt := Nat.digits_lt_base (by omega) (List.mem_reverse.mp hd)
    exact decide_eq_true (by omega)

theorem decimal_ne_nil (n : ℕ) : decimal n ≠ [] := by
  rw [decimal]
  split_ifs with hn
  · exact List.cons_ne_nil _ _
  · simpa using Nat.digits_ne_nil_iff_ne_zero.mpr hn

/-- Only zero has a leading zero. -/
theorem head_decimal {n : ℕ} (hn : n ≠ 0) : (decimal n).head? ≠ some 48 := by
  rw [decimal, if_neg hn, List.head?_map, List.head?_reverse]
  intro h
  obtain ⟨d, hd, hzero⟩ := Option.map_eq_some_iff.mp h
  have hne := Nat.getLast_digit_ne_zero 10 hn
  rw [List.getLast?_eq_getLast_of_ne_nil (Nat.digits_ne_nil_iff_ne_zero.mpr hn)] at hd
  have hlast := Option.some.inj hd
  omega

theorem number_decimal (n : ℕ) : number (decimal n) = n := by
  rw [decimal]
  split_ifs with hn
  · rw [hn]
    rfl
  · have hfold (l : List ℕ) :
        (l.map (48 + ·)).foldr (fun c n => 10 * n + (c - 48)) 0 = Nat.ofDigits 10 l := by
      induction l with
      | nil => rfl
      | cons d l ih =>
        rw [List.map_cons, List.foldr_cons, ih, Nat.ofDigits_cons]
        simp
        omega
    rw [number, List.map_reverse, List.foldl_reverse, hfold, Nat.ofDigits_digits]

theorem span_decimal (n : ℕ) (hrest : EndsNumber rest) :
    (decimal n ++ rest).span isDigit = (decimal n, rest) := by
  have hall : ∀ c ∈ decimal n, isDigit c = true := fun c hc => isDigit_of_mem_decimal hc
  rw [List.span_eq_takeWhile_dropWhile, List.takeWhile_append_of_pos hall,
    List.dropWhile_append_of_pos hall]
  cases rest with
  | nil => simp
  | cons c s =>
    have hc := (hrest c rfl).1
    simp [hc]

theorem scanDigits_decimal (n : ℕ) (hrest : EndsNumber rest) :
    scanDigits (decimal n ++ rest) = .ok (decimal n, rest) := by
  have hspan := span_decimal n hrest
  by_cases hn : n = 0
  · rw [hn]
    rfl
  · have hhead : (decimal n ++ rest).head? ≠ some 48 := by
      rw [List.head?_append_of_ne_nil _ (decimal_ne_nil n)]
      exact head_decimal hn
    rw [scanDigits.eq_2 _ fun s hs => hhead (by rw [hs]; rfl), hspan]
    split
    · rename_i heq
      exact absurd (Prod.mk.inj heq).1 (decimal_ne_nil n)
    · rfl

theorem scanFraction_of_ends (hrest : EndsNumber rest) : scanFraction rest = ([], rest) := by
  unfold scanFraction
  split
  · exact absurd rfl (hrest 46 rfl).2.1
  · rfl

theorem scanExponent_of_ends (hrest : EndsNumber rest) : scanExponent rest = ([], rest) := by
  cases rest with
  | nil => rfl
  | cons c s =>
    obtain ⟨-, -, hlower, hupper⟩ := hrest c rfl
    rw [scanExponent, if_neg (by omega)]

theorem scanUnsigned_decimal (negative : Bool) {n : ℕ} (hn : (decimal n).length ≤ 4300)
    (hrest : EndsNumber rest) : scanUnsigned negative (decimal n ++ rest) =
      .ok (.int (if negative then -n else n), rest) := by
  simp only [scanUnsigned, scanDigits_decimal n hrest, bind, Except.bind]
  rw [scanFraction_of_ends hrest]
  simp only [scanExponent_of_ends hrest, number_decimal]
  rw [if_pos ⟨trivial, trivial⟩, if_neg (by omega)]
  rfl

/-- No constant starts with a digit, or with a sign and a digit. -/
theorem find_constants_eq_none (hc : isDigit c = true) (s : Str) :
    (constants.find? fun x => x.1.isPrefixOf (c :: s)) = none ∧
      (constants.find? fun x => x.1.isPrefixOf (45 :: c :: s)) = none := by
  have hall : ∀ x ∈ constants, 2 ≤ x.1.length ∧ (x.1.take 2).any isDigit = false := by decide
  constructor
  · refine List.find?_eq_none.mpr fun x hx hprefix => ?_
    obtain ⟨hlength, hany⟩ := hall x hx
    match h : x.1, hlength with
    | y :: z :: t, _ =>
      rw [h] at hprefix hany
      have hy : y = c := by
        have := List.isPrefixOf_iff_prefix.mp hprefix
        exact (List.cons_prefix_cons.mp this).1
      simp [hy, hc] at hany
  · refine List.find?_eq_none.mpr fun x hx hprefix => ?_
    obtain ⟨hlength, hany⟩ := hall x hx
    match h : x.1, hlength with
    | y :: z :: t, _ =>
      rw [h] at hprefix hany
      have hz : z = c := by
        have := List.isPrefixOf_iff_prefix.mp hprefix
        exact (List.cons_prefix_cons.mp (List.cons_prefix_cons.mp this).2).1
      simp [hz, hc] at hany

theorem scanAtom_dumpInt {n : ℤ} (hn : (decimal n.natAbs).length ≤ 4300)
    (hrest : EndsNumber rest) : scanAtom (dumpInt n ++ rest) = .ok (.int n, rest) := by
  obtain ⟨c, l, hl⟩ := List.exists_cons_of_ne_nil (decimal_ne_nil n.natAbs)
  have hc : isDigit c = true := isDigit_of_mem_decimal (hl ▸ List.mem_cons_self)
  have hrange := of_decide_eq_true hc
  obtain ⟨hplus, hminus⟩ := find_constants_eq_none hc (l ++ rest)
  have hscan := fun negative => scanUnsigned_decimal negative hn hrest
  rw [hl] at hscan
  rw [dumpInt, hl]
  by_cases hneg : n < 0
  · have hvalue : -(n.natAbs : ℤ) = n := by omega
    have hminus' : scanUnsigned true (c :: (l ++ rest)) = .ok (.int n, rest) := by
      rw [← hvalue]
      exact hscan true
    have hatom := scanAtom.eq_2 (c :: (l ++ rest))
    rw [hminus] at hatom
    rw [if_pos hneg]
    exact hatom.trans hminus'
  · have hvalue : (n.natAbs : ℤ) = n := by omega
    have hquote : ∀ s, c :: (l ++ rest) = 0x22 :: s → False := fun s hs => by
      have := (List.cons.inj hs).1
      omega
    have hsign : ∀ s, c :: (l ++ rest) = 45 :: s → False := fun s hs => by
      have := (List.cons.inj hs).1
      omega
    have hplus' : scanUnsigned false (c :: (l ++ rest)) = .ok (.int n, rest) := by
      rw [← hvalue]
      exact hscan false
    have hatom := scanAtom.eq_3 _ hquote hsign
    rw [hplus] at hatom
    rw [if_neg hneg]
    exact hatom.trans hplus'

theorem head_dumpInt {n : ℤ} (hc : (dumpInt n ++ s).head? = some c) :
    c = 45 ∨ isDigit c = true := by
  rw [dumpInt] at hc
  split_ifs at hc
  · exact Or.inl (Option.some.inj hc).symm
  · obtain ⟨d, l, hl⟩ := List.exists_cons_of_ne_nil (decimal_ne_nil n.natAbs)
    have hd : isDigit d = true := isDigit_of_mem_decimal (hl ▸ List.mem_cons_self)
    rw [hl] at hc
    obtain rfl : d = c := Option.some.inj hc
    exact Or.inr hd

/-! ### Values -/

/-- A value does not start as a space or the end of a container does. -/
theorem dumps_cons {v : Value} (hv : v.Plain) :
    ∃ c t, dumps f v = c :: t ∧ isSpace c = false ∧ c ≠ 93 ∧ c ≠ 125 ∧ c ≠ 0xFEFF := by
  cases v with
  | null => exact ⟨110, [117, 108, 108], rfl, rfl, by omega, by omega, by omega⟩
  | bool b =>
    cases b
    · exact ⟨102, [97, 108, 115, 101], rfl, rfl, by omega, by omega, by omega⟩
    · exact ⟨116, [114, 117, 101], rfl, rfl, by omega, by omega, by omega⟩
  | int n =>
    by_cases hneg : n < 0
    · refine ⟨45, decimal n.natAbs, ?_, rfl, by omega, by omega, by omega⟩
      rw [dumps, dumpInt, if_pos hneg]
      rfl
    · obtain ⟨c, l, hl⟩ := List.exists_cons_of_ne_nil (decimal_ne_nil n.natAbs)
      have hc := of_decide_eq_true (isDigit_of_mem_decimal (hl ▸ List.mem_cons_self))
      refine ⟨c, l, ?_, ?_, by omega, by omega, by omega⟩
      · rw [dumps, dumpInt, if_neg hneg]
        exact hl
      · simp [isSpace]
        omega
  | float literal => exact absurd hv id
  | str s => exact ⟨0x22, _, rfl, rfl, by omega, by omega, by omega⟩
  | arr items =>
    cases items with
    | nil => exact ⟨91, [93], rfl, rfl, by omega, by omega, by omega⟩
    | cons v items => exact ⟨91, _, rfl, rfl, by omega, by omega, by omega⟩
  | obj members =>
    rcases members with _ | ⟨⟨key, v⟩, members⟩
    · exact ⟨123, [125], rfl, rfl, by omega, by omega, by omega⟩
    · exact ⟨123, _, rfl, rfl, by omega, by omega, by omega⟩

/-- A value is read in front of any text that does not go on with a number. -/
def Scans (value : Scan Value) (f : Format) (v : Value) : Prop :=
  ∀ rest, EndsNumber rest → value (dumps f v ++ rest) = .ok (v, rest)

/-- What a separator ends with. -/
def gap (f : Format) : Str := if f.spaced then [32] else []

theorem itemSeparator_eq (f : Format) : itemSeparator f = 44 :: gap f := by
  rw [itemSeparator, gap]
  split_ifs <;> rfl

theorem keySeparator_eq (f : Format) : keySeparator f = 58 :: gap f := by
  rw [keySeparator, gap]
  split_ifs <;> rfl

theorem skip_cons (hc : isSpace c = false) (s : Str) : skip (c :: s) = c :: s := by
  rw [skip, List.dropWhile_cons, hc]
  rfl

theorem skip_gap (f : Format) (hc : isSpace c = false) (s : Str) :
    skip (gap f ++ c :: s) = c :: s := by
  rw [gap]
  split_ifs
  · exact skip_cons hc s
  · exact skip_cons hc s

theorem skip_gap_dumps {v : Value} (hv : v.Plain) (s : Str) :
    skip (gap f ++ (dumps f v ++ s)) = dumps f v ++ s := by
  obtain ⟨c, t, heq, hc, -⟩ := dumps_cons (f := f) hv
  rw [heq]
  exact skip_gap f hc _

theorem skip_dumps {v : Value} (hv : v.Plain) (s : Str) :
    skip (dumps f v ++ s) = dumps f v ++ s := by
  obtain ⟨c, t, heq, hc, -⟩ := dumps_cons (f := f) hv
  rw [heq]
  exact skip_cons hc _

theorem endsNumber_cons (hc : c = 44 ∨ c = 93 ∨ c = 125) (s : Str) : EndsNumber (c :: s) := by
  intro d hd
  obtain rfl := Option.some.inj hd
  rcases hc with rfl | rfl | rfl <;> decide

theorem plainItems_iff {items : List Value} : PlainItems items ↔ ∀ v ∈ items, v.Plain := by
  induction items with
  | nil => simp [PlainItems]
  | cons v items ih => simp [PlainItems, ih]

theorem plainMembers_iff {members : List (Str × Value)} :
    PlainMembers members ↔ ∀ m ∈ members, PlainStr m.1 ∧ m.2.Plain := by
  induction members with
  | nil => simp [PlainMembers]
  | cons m members ih => simp [PlainMembers, ih, and_assoc]

theorem depth_le_itemsDepth {v : Value} {items : List Value} (hv : v ∈ items) :
    v.depth ≤ itemsDepth items := by
  induction items with
  | nil => cases hv
  | cons w items ih =>
    rw [itemsDepth]
    rcases List.mem_cons.mp hv with rfl | hv
    · exact Nat.le_max_left _ _
    · exact (ih hv).trans (Nat.le_max_right _ _)

theorem depth_le_membersDepth {m : Str × Value} {members : List (Str × Value)}
    (hm : m ∈ members) : m.2.depth ≤ membersDepth members := by
  induction members with
  | nil => cases hm
  | cons n members ih =>
    rw [membersDepth]
    rcases List.mem_cons.mp hm with rfl | hm
    · exact Nat.le_max_left _ _
    · exact (ih hm).trans (Nat.le_max_right _ _)

section Containers

variable {value : Scan Value}

theorem scanItems_dumps {v : Value} {items : List Value} {fuel : ℕ}
    (hvalue : ∀ w ∈ v :: items, Scans value f w) (hplain : ∀ w ∈ v :: items, w.Plain)
    (hfuel : items.length < fuel) :
    scanItems value fuel (dumps f v ++ (dumpsItems f items ++ 93 :: rest)) =
      .ok (v :: items, rest) := by
  induction items generalizing v fuel with
  | nil =>
    obtain ⟨fuel, rfl⟩ := Nat.exists_eq_add_of_lt hfuel
    have hread := hvalue v List.mem_cons_self (93 :: rest) (endsNumber_cons (by simp) rest)
    have hskip : skip (93 :: rest) = 93 :: rest := skip_cons rfl rest
    rw [scanItems, dumpsItems, List.nil_append, hread]
    simp only [bind, Except.bind, hskip]
    rfl
  | cons w items ih =>
    obtain ⟨fuel, rfl⟩ : ∃ n, fuel = n + 1 := Nat.exists_eq_add_one.mpr (by omega)
    have hw : w.Plain := hplain w (by simp)
    have htext : dumpsItems f (w :: items) ++ 93 :: rest =
        44 :: (gap f ++ (dumps f w ++ (dumpsItems f items ++ 93 :: rest))) := by
      rw [dumpsItems, itemSeparator_eq]
      simp
    have hread := hvalue v List.mem_cons_self _ (endsNumber_cons (Or.inl rfl)
      (gap f ++ (dumps f w ++ (dumpsItems f items ++ 93 :: rest))))
    have hskip := skip_cons (c := 44) rfl
      (gap f ++ (dumps f w ++ (dumpsItems f items ++ 93 :: rest)))
    have hhead : (dumps f w ++ (dumpsItems f items ++ 93 :: rest)).head? ≠ some 93 := by
      obtain ⟨c, t, heq, -, hne, -⟩ := dumps_cons (f := f) hw
      rw [heq]
      exact fun h => hne (Option.some.inj h)
    have hrest : scanItems value fuel (dumps f w ++ (dumpsItems f items ++ 93 :: rest)) =
        .ok (w :: items, rest) :=
      ih (fun x hx => hvalue x (List.mem_cons_of_mem _ hx))
        (fun x hx => hplain x (List.mem_cons_of_mem _ hx)) (by
          rw [List.length_cons] at hfuel
          omega)
    rw [scanItems, htext, hread]
    simp only [bind, Except.bind, hskip, skip_gap_dumps hw, if_neg hhead, hrest]
    rfl

theorem scanMember_dumps {key : Str} {v : Value} (hvalue : Scans value f v)
    (hplain : PlainStr key ∧ v.Plain) (hrest : EndsNumber rest) :
    scanMember value (dumpString f key ++ (keySeparator f ++ (dumps f v ++ rest))) =
      .ok ((key, v), rest) := by
  have htext : dumpString f key ++ (keySeparator f ++ (dumps f v ++ rest)) =
      0x22 :: (key.flatMap (escape f) ++ 0x22 :: 58 :: (gap f ++ (dumps f v ++ rest))) := by
    rw [dumpString, keySeparator_eq]
    simp
  have hkey : scanString .chars
      (key.flatMap (escape f) ++ 0x22 :: 58 :: (gap f ++ (dumps f v ++ rest))) =
        .ok (key, 58 :: (gap f ++ (dumps f v ++ rest))) := (readsString hplain.1).chars
  have hskip := skip_cons (c := 58) rfl (gap f ++ (dumps f v ++ rest))
  rw [htext, scanMember, hkey]
  simp only [bind, Except.bind, hskip, skip_gap_dumps hplain.2, hvalue rest hrest]
  rfl

theorem scanMembers_dumps {key : Str} {v : Value} {members : List (Str × Value)} {fuel : ℕ}
    (hvalue : ∀ m ∈ (key, v) :: members, Scans value f m.2)
    (hplain : ∀ m ∈ (key, v) :: members, PlainStr m.1 ∧ m.2.Plain)
    (hfuel : members.length < fuel) :
    scanMembers value fuel (dumpString f key ++ (keySeparator f ++ (dumps f v ++
      (dumpsMembers f members ++ 125 :: rest)))) = .ok ((key, v) :: members, rest) := by
  induction members generalizing key v fuel with
  | nil =>
    obtain ⟨fuel, rfl⟩ : ∃ n, fuel = n + 1 := Nat.exists_eq_add_one.mpr (by omega)
    have hread := scanMember_dumps (hvalue (key, v) List.mem_cons_self)
      (hplain (key, v) List.mem_cons_self) (endsNumber_cons (c := 125) (by simp) rest)
    have hskip : skip (125 :: rest) = 125 :: rest := skip_cons rfl rest
    rw [scanMembers, dumpsMembers, List.nil_append, hread]
    simp only [bind, Except.bind, hskip]
    rfl
  | cons m members ih =>
    obtain ⟨key', w⟩ := m
    obtain ⟨fuel, rfl⟩ : ∃ n, fuel = n + 1 := Nat.exists_eq_add_one.mpr (by omega)
    set more := dumpString f key' ++ (keySeparator f ++ (dumps f w ++
      (dumpsMembers f members ++ 125 :: rest))) with hmore
    have htext : dumpsMembers f ((key', w) :: members) ++ 125 :: rest =
        44 :: (gap f ++ more) := by
      rw [dumpsMembers, itemSeparator_eq, hmore]
      simp
    have hread := scanMember_dumps (hvalue (key, v) List.mem_cons_self)
      (hplain (key, v) List.mem_cons_self) (endsNumber_cons (c := 44) (by simp) (gap f ++ more))
    have hskip := skip_cons (c := 44) rfl (gap f ++ more)
    obtain ⟨t, ht⟩ : ∃ t, more = 0x22 :: t := ⟨_, rfl⟩
    have hgap : skip (gap f ++ more) = more := by
      rw [ht]
      exact skip_gap f rfl t
    have hhead : more.head? ≠ some 125 := by
      rw [ht]
      simp
    have hrest : scanMembers value fuel more = .ok ((key', w) :: members, rest) :=
      ih (fun x hx => hvalue x (List.mem_cons_of_mem _ hx))
        (fun x hx => hplain x (List.mem_cons_of_mem _ hx)) (by
          rw [List.length_cons] at hfuel
          omega)
    rw [scanMembers, htext, hread]
    simp only [bind, Except.bind, hskip, hgap, if_neg hhead, hrest]
    rfl

end Containers

/-- Members with different keys are set one after another. -/
theorem foldl_setItem {acc members : List (Str × Value)}
    (h : ((acc ++ members).map Prod.fst).Nodup) : members.foldl setItem acc = acc ++ members := by
  induction members generalizing acc with
  | nil => simp
  | cons m members ih =>
    have hnew : (acc.any fun n => n.1 == m.1) = false := by
      rw [List.any_eq_false]
      intro n hn heq
      have hkey : n.1 = m.1 := by simpa using heq
      rw [List.map_append, List.map_cons, List.nodup_append] at h
      exact h.2.2 n.1 (List.mem_map_of_mem hn) m.1 List.mem_cons_self hkey
    have happend : acc ++ m :: members = acc ++ [m] ++ members := by simp
    rw [List.foldl_cons, setItem, if_neg (by rw [hnew]; exact Bool.false_ne_true), happend]
    exact ih (by rw [← happend]; exact h)

theorem scanOnce_of_atom (hbrace : s.head? ≠ some 123) (hbracket : s.head? ≠ some 91) (d : ℕ) :
    scanOnce d s = scanAtom s := by
  cases d with
  | zero => rw [scanOnce, if_neg (by simp [hbrace, hbracket])]
  | succ d =>
    rw [scanOnce.eq_4]
    · rintro t rfl
      exact hbrace rfl
    · rintro t rfl
      exact hbracket rfl

theorem length_le_dumpsItems (f : Format) (items : List Value) :
    items.length ≤ (dumpsItems f items).length := by
  induction items with
  | nil => exact Nat.le_refl _
  | cons v items ih =>
    rw [dumpsItems, itemSeparator_eq]
    simp
    omega

theorem length_le_dumpsMembers (f : Format) (members : List (Str × Value)) :
    members.length ≤ (dumpsMembers f members).length := by
  induction members with
  | nil => exact Nat.le_refl _
  | cons m members ih =>
    rw [dumpsMembers, itemSeparator_eq]
    simp
    omega

theorem scanArray_dumps {value : Scan Value} {items : List Value}
    (hvalue : ∀ v ∈ items, Scans value f v) (hplain : ∀ v ∈ items, v.Plain) (rest : Str) :
    ∃ s, dumps f (.arr items) ++ rest = 91 :: s ∧ scanArray value s = .ok (.arr items, rest) := by
  cases items with
  | nil => exact ⟨93 :: rest, rfl, rfl⟩
  | cons v items =>
    have hv := hplain v List.mem_cons_self
    obtain ⟨s, hs⟩ : ∃ s, s = dumps f v ++ (dumpsItems f items ++ 93 :: rest) := ⟨_, rfl⟩
    have hskip : skip s = s := by
      rw [hs]
      exact skip_dumps hv _
    have hhead : ∀ t, s ≠ 93 :: t := by
      obtain ⟨c, t, heq, -, hne, -⟩ := dumps_cons (f := f) hv
      rintro t' ht'
      rw [hs, heq] at ht'
      exact hne (List.cons.inj ht').1
    have hlength : items.length < s.length + 1 := by
      have := length_le_dumpsItems f items
      simp only [hs, List.length_append]
      omega
    refine ⟨s, by simp [dumps, hs], ?_⟩
    rw [scanArray, hskip]
    split
    · exact absurd rfl (hhead _)
    · rw [hs, scanItems_dumps hvalue hplain (by rw [← hs]; exact hlength)]
      rfl

theorem scanObject_dumps {value : Scan Value} {members : List (Str × Value)}
    (hvalue : ∀ m ∈ members, Scans value f m.2)
    (hplain : ∀ m ∈ members, PlainStr m.1 ∧ m.2.Plain) (hkeys : (members.map Prod.fst).Nodup)
    (rest : Str) : ∃ s, dumps f (.obj members) ++ rest = 123 :: s ∧
      scanObject value s = .ok (.obj members, rest) := by
  rcases members with _ | ⟨⟨key, v⟩, members⟩
  · exact ⟨125 :: rest, rfl, rfl⟩
  · obtain ⟨s, hs⟩ : ∃ s, s = dumpString f key ++ (keySeparator f ++ (dumps f v ++
      (dumpsMembers f members ++ 125 :: rest))) := ⟨_, rfl⟩
    obtain ⟨t, ht⟩ : ∃ t, s = 0x22 :: t := ⟨_, hs⟩
    have hskip : skip s = s := by
      rw [ht]
      exact skip_cons rfl t
    have hhead : ∀ t, s ≠ 125 :: t := by
      rw [ht]
      rintro t' ht'
      simp at ht'
    have hlength : members.length < s.length + 1 := by
      have := length_le_dumpsMembers f members
      simp only [hs, List.length_append]
      omega
    have hset : ((key, v) :: members).foldl setItem [] = (key, v) :: members :=
      foldl_setItem (by simpa using hkeys)
    refine ⟨s, by simp [dumps, hs], ?_⟩
    rw [scanObject, hskip]
    split
    · exact absurd rfl (hhead _)
    · rw [hs, scanMembers_dumps hvalue hplain (by rw [← hs]; exact hlength)]
      simp only [bind, Except.bind, hset]
      rfl

/-- A value is read as it was written. -/
theorem scanOnce_dumps {v : Value} (hv : v.Plain) {depth : ℕ} (hd : v.depth ≤ depth) :
    Scans (scanOnce depth) f v := by
  induction v using Value.induct generalizing depth with
  | null =>
    intro rest _
    rw [scanOnce_of_atom (by rintro ⟨⟩) (by rintro ⟨⟩)]
    rfl
  | bool b =>
    intro rest _
    cases b
    · rw [scanOnce_of_atom (by rintro ⟨⟩) (by rintro ⟨⟩)]
      rfl
    · rw [scanOnce_of_atom (by rintro ⟨⟩) (by rintro ⟨⟩)]
      rfl
  | int n =>
    intro rest hrest
    have hatom {c : ℕ} (hc : c ≠ 45 ∧ isDigit c = false) :
        (dumpInt n ++ rest).head? ≠ some c := fun h => by
      rcases head_dumpInt h with h | h
      · exact hc.1 h
      · rw [hc.2] at h
        cases h
    rw [dumps, scanOnce_of_atom (hatom (by decide)) (hatom (by decide))]
    exact scanAtom_dumpInt hv hrest
  | float literal => exact absurd hv id
  | str s =>
    intro rest _
    have htext : dumps f (.str s) ++ rest =
        0x22 :: (s.flatMap (escape f) ++ 0x22 :: rest) := by
      rw [dumps, dumpString]
      simp
    have hread : scanString .chars (s.flatMap (escape f) ++ 0x22 :: rest) = .ok (s, rest) :=
      (readsString hv).chars
    rw [htext, scanOnce_of_atom (by simp) (by simp), scanAtom, hread]
    rfl
  | arr items ih =>
    intro rest _
    obtain ⟨d, rfl⟩ : ∃ n, depth = n + 1 := Nat.exists_eq_add_one.mpr (by
      rw [Value.depth] at hd
      omega)
    have hplain := plainItems_iff.mp hv
    have hvalue : ∀ v ∈ items, Scans (scanOnce d) f v := fun v hmem =>
      ih v hmem (hplain v hmem) <| by
        have := depth_le_itemsDepth hmem
        rw [Value.depth] at hd
        omega
    obtain ⟨s, hs, hread⟩ := scanArray_dumps hvalue hplain rest
    rw [hs]
    exact hread
  | obj members ih =>
    intro rest _
    obtain ⟨d, rfl⟩ : ∃ n, depth = n + 1 := Nat.exists_eq_add_one.mpr (by
      rw [Value.depth] at hd
      omega)
    have hplain := plainMembers_iff.mp hv.2
    have hvalue : ∀ m ∈ members, Scans (scanOnce d) f m.2 := fun m hmem =>
      ih m hmem (hplain m hmem).2 <| by
        have := depth_le_membersDepth hmem
        rw [Value.depth] at hd
        omega
    obtain ⟨s, hs, hread⟩ := scanObject_dumps hvalue hplain hv.1 rest
    rw [hs]
    exact hread

/-- The whole text. -/
theorem loadsStr_dumps {v : Value} (hv : v.Plain) {depth : ℕ} (hd : v.depth ≤ depth) :
    loadsStr depth (dumps f v) = .ok v := by
  have hread := scanOnce_dumps (f := f) hv hd [] (by rintro c ⟨⟩)
  obtain ⟨c, t, heq, -, -, -, hne⟩ := dumps_cons (f := f) hv
  have hhead : (dumps f v).head? ≠ some 0xFEFF := by
    rw [heq]
    exact fun h => hne (Option.some.inj h)
  have hskip := skip_dumps (f := f) hv []
  rw [List.append_nil] at hread hskip
  rw [loadsStr, if_neg hhead, hskip, hread]
  rfl

/-! ### UTF-8 -/

theorem octets_lt {c : ℕ} (hc : isScalar c = true) : ∀ b ∈ octets c, b < 256 := by
  have hc' : c ≤ 0x10FFFF := by
    have := of_decide_eq_true hc
    omega
  intro b hb
  unfold octets at hb
  split_ifs at hb <;> simp only [List.mem_cons, List.not_mem_nil, or_false] at hb <;> omega

theorem decodeUtf8_octets {c : ℕ} (hc : isScalar c = true) (t : List ℕ) :
    decodeUtf8 (octets c ++ t) = (decodeUtf8 t).map (c :: ·) := by
  have hc' : c ≤ 0x10FFFF := by
    have := of_decide_eq_true hc
    omega
  have htail (n : ℕ) : isTail (0x80 + n % 64) = true := decide_eq_true (by omega)
  unfold octets
  split_ifs with h₁ h₂ h₃
  · rw [List.singleton_append, decodeUtf8.eq_def]
    exact if_pos h₁
  · have hlead : 0xC2 ≤ 0xC0 + c / 64 ∧ 0xC0 + c / 64 ≤ 0xDF := by omega
    have hvalue : (0xC0 + c / 64 - 0xC0) * 64 + (0x80 + c % 64 - 0x80) = c := by omega
    simp only [List.cons_append, List.nil_append]
    rw [decodeUtf8.eq_def]
    simp only [htail, Bool.true_eq_false, if_false, if_pos hlead, hvalue]
    rw [if_neg (by omega)]
  · have hlead : 0xE0 ≤ 0xE0 + c / 4096 ∧ 0xE0 + c / 4096 ≤ 0xEF ∧
        (0xE0 + c / 4096 = 0xE0 → 0xA0 ≤ 0x80 + c / 64 % 64) := by omega
    have hvalue : ((0xE0 + c / 4096 - 0xE0) * 64 + (0x80 + c / 64 % 64 - 0x80)) * 64 +
        (0x80 + c % 64 - 0x80) = c := by omega
    simp only [List.cons_append, List.nil_append]
    rw [decodeUtf8.eq_def]
    simp only [htail, Bool.true_eq_false, if_false, if_pos hlead, hvalue]
    rw [if_neg (by omega), if_neg (by omega)]
  · have hlead : 0xF0 ≤ 0xF0 + c / 262144 ∧ 0xF0 + c / 262144 ≤ 0xF4 ∧
        (0xF0 + c / 262144 = 0xF0 → 0x90 ≤ 0x80 + c / 4096 % 64) ∧
        (0xF0 + c / 262144 = 0xF4 → 0x80 + c / 4096 % 64 ≤ 0x8F) := by omega
    have hvalue : (((0xF0 + c / 262144 - 0xF0) * 64 + (0x80 + c / 4096 % 64 - 0x80)) * 64 +
        (0x80 + c / 64 % 64 - 0x80)) * 64 + (0x80 + c % 64 - 0x80) = c := by omega
    simp only [List.cons_append, List.nil_append]
    rw [decodeUtf8.eq_def]
    simp only [htail, Bool.true_eq_false, if_false, if_pos hlead, hvalue, true_and]
    rw [if_neg (by omega), if_neg (by omega), if_neg (by omega)]

theorem decodeUtf8_encode {s : Str} (hs : s.all isScalar = true) :
    decodeUtf8 (s.flatMap octets) = some s := by
  induction s with
  | nil => rfl
  | cons c s ih =>
    rw [List.all_cons, Bool.and_eq_true] at hs
    rw [List.flatMap_cons, decodeUtf8_octets hs.1, ih hs.2]
    rfl

theorem toNat_octets {s : Str} (hs : s.all isScalar = true) :
    ((s.flatMap octets).map UInt8.ofNat).map UInt8.toNat = s.flatMap octets := by
  rw [List.map_map]
  refine (List.map_congr_left fun b hb => ?_).trans (List.map_id _)
  obtain ⟨c, hc, hb⟩ := List.mem_flatMap.mp hb
  have hlt := octets_lt (List.all_eq_true.mp hs c hc) b hb
  simp only [Function.comp_apply, UInt8.toNat_ofNat', id_eq]
  omega

theorem isScalar_of_lt {c : ℕ} (hc : c < 0xD800) : isScalar c = true :=
  decide_eq_true (Or.inl hc)

theorem all_isScalar_of_lt {s : Str} (h : ∀ c ∈ s, c < 0xD800) : s.all isScalar = true :=
  List.all_eq_true.mpr fun c hc => isScalar_of_lt (h c hc)

theorem hexChar_lt {d : ℕ} (hd : d < 16) : hexChar d < 128 := by
  unfold hexChar
  split_ifs <;> omega

theorem all_isScalar_escapeUnit (u : ℕ) : (escapeUnit u).all isScalar = true := by
  have hdigit (n : ℕ) : isScalar (hexChar (n % 16)) = true := by
    have hlt := hexChar_lt (Nat.mod_lt n (by omega : 0 < 16))
    exact isScalar_of_lt (by omega)
  simp only [escapeUnit, List.all_cons, List.all_nil, hdigit]
  decide

section NonAscii

variable (hf : f.ensureAscii = false)
include hf

theorem all_isScalar_escape (c : ℕ) : (escape f c).all isScalar = isScalar c := by
  unfold escape
  split
  · next e he =>
    have hmem : (c, e) ∈ shortEscapes := by
      obtain ⟨l, t, heq, -⟩ := List.lookup_eq_some_iff.mp he
      rw [heq]
      exact List.mem_append_right _ List.mem_cons_self
    have hall : ∀ p ∈ shortEscapes, p.1 < 128 ∧ p.2 < 128 := by decide
    have hlt := hall _ hmem
    have hc : isScalar c = true := isScalar_of_lt (by simp only at hlt; omega)
    have he' : isScalar e = true := isScalar_of_lt (by simp only at hlt; omega)
    rw [hc, List.all_cons, List.all_cons, he']
    rfl
  · split_ifs with hcontrol
    · have hc : isScalar c = true := isScalar_of_lt (by
        rw [hf] at hcontrol
        simp only [Bool.false_eq_true, false_and, or_false] at hcontrol
        omega)
      rw [hc, List.all_flatMap]
      exact List.all_eq_true.mpr fun u _ => all_isScalar_escapeUnit u
    · rw [List.all_cons, List.all_nil, Bool.and_true]

theorem all_isScalar_dumpString (s : Str) : (dumpString f s).all isScalar = s.all isScalar := by
  have hbody : (s.flatMap (escape f)).all isScalar = s.all isScalar := by
    rw [List.all_flatMap]
    exact congrArg s.all (funext fun c => all_isScalar_escape hf c)
  have hquote : isScalar 0x22 = true := rfl
  rw [dumpString, List.cons_append, List.all_cons, List.all_append, hbody, hquote, List.all_cons,
    List.all_nil, hquote, Bool.true_and, Bool.and_true, Bool.and_true]

theorem all_isScalar_dumps (v : Value) : (dumps f v).all isScalar = v.encodable := by
  have hitem : (itemSeparator f).all isScalar = true := by
    rw [itemSeparator]
    split_ifs <;> rfl
  have hkey : (keySeparator f).all isScalar = true := by
    rw [keySeparator]
    split_ifs <;> rfl
  have hascii {c : ℕ} (hc : c < 128) (s : Str) : (c :: s).all isScalar = s.all isScalar := by
    rw [List.all_cons, isScalar_of_lt (by omega), Bool.true_and]
  have hitems {items : List Value}
      (h : ∀ v ∈ items, (dumps f v).all isScalar = v.encodable) :
      (dumpsItems f items).all isScalar = itemsEncodable items := by
    induction items with
    | nil => rfl
    | cons v items ih =>
      rw [dumpsItems, List.all_append, List.all_append, hitem, h v List.mem_cons_self,
        ih fun w hw => h w (List.mem_cons_of_mem _ hw), Bool.true_and, itemsEncodable]
  have hmembers {members : List (Str × Value)}
      (h : ∀ m ∈ members, (dumps f m.2).all isScalar = m.2.encodable) :
      (dumpsMembers f members).all isScalar = membersEncodable members := by
    induction members with
    | nil => rfl
    | cons m members ih =>
      rw [dumpsMembers, List.all_append, List.all_append, List.all_append, List.all_append, hitem,
        hkey, all_isScalar_dumpString hf, h m List.mem_cons_self,
        ih fun n hn => h n (List.mem_cons_of_mem _ hn), Bool.true_and, Bool.and_true,
        membersEncodable]
  induction v using Value.induct with
  | null => rfl
  | bool b => cases b <;> rfl
  | int n =>
    refine all_isScalar_of_lt fun c hc => ?_
    rw [dumps, dumpInt, List.mem_append] at hc
    rcases hc with hc | hc
    · split_ifs at hc
      · rw [List.mem_singleton] at hc
        omega
      · cases hc
    · have hdigit := of_decide_eq_true (isDigit_of_mem_decimal hc)
      omega
  | float literal => rfl
  | str s => exact all_isScalar_dumpString hf s
  | arr items ih =>
    cases items with
    | nil => rfl
    | cons v items =>
      rw [dumps, List.all_append, List.cons_append, hascii (by omega), List.all_append,
        ih v List.mem_cons_self, hitems fun w hw => ih w (List.mem_cons_of_mem _ hw)]
      exact Bool.and_true _
  | obj members ih =>
    rcases members with _ | ⟨⟨key, v⟩, members⟩
    · rfl
    · rw [dumps, List.all_append, List.cons_append, List.cons_append, List.cons_append,
        hascii (by omega), List.all_append, List.all_append, List.all_append,
        all_isScalar_dumpString hf, hkey, ih _ List.mem_cons_self,
        hmembers fun n hn => ih n (List.mem_cons_of_mem _ hn), Bool.and_true]
      exact Bool.and_true _

end NonAscii

theorem plainStr_of_forall (h : ∀ c ∈ s, c ≤ 0x10FFFF ∧ isHigh c = false) : PlainStr s := by
  induction s with
  | nil => trivial
  | cons c s ih =>
    obtain ⟨hc, hhigh⟩ := h c List.mem_cons_self
    refine ⟨hc, fun hpair => ?_, ih fun d hd => h d (List.mem_cons_of_mem _ hd)⟩
    rw [hhigh] at hpair
    exact Bool.false_ne_true hpair.1

/-- A text that can be encoded has no surrogate. -/
theorem plainStr_of_all_isScalar {s : Str} (hs : s.all isScalar = true) : PlainStr s := by
  refine plainStr_of_forall fun c hc => ?_
  have hscalar := of_decide_eq_true (List.all_eq_true.mp hs c hc)
  exact ⟨by omega, decide_eq_false (by omega)⟩

/-- The octets of an object that is not empty are its text in UTF-8. -/
theorem decode_octets_obj {key : Str} {v : Value} {members : List (Str × Value)}
    (h : (dumps f (.obj ((key, v) :: members))).all isScalar = true) :
    decode ((dumps f (.obj ((key, v) :: members))).flatMap octets) =
      some (dumps f (.obj ((key, v) :: members))) := by
  have hdetect (t : List ℕ) : detectEncoding (0x7B :: 0x22 :: t) = (.utf8, 0) := by
    rcases t with _ | ⟨c, _ | ⟨d, t⟩⟩ <;> rfl
  obtain ⟨t, ht⟩ : ∃ t, (dumps f (.obj ((key, v) :: members))).flatMap octets =
      0x7B :: 0x22 :: t := ⟨_, rfl⟩
  rw [decode, ht, hdetect, ← ht]
  exact decodeUtf8_encode h

/-- An object that is not empty, written to octets, is read back. -/
theorem loads_encode_dumps {key : Str} {v : Value} {members : List (Str × Value)}
    (hv : (Value.obj ((key, v) :: members)).Plain) {depth : ℕ}
    (hd : (Value.obj ((key, v) :: members)).depth ≤ depth) {bytes : List UInt8}
    (henc : encode (dumps f (.obj ((key, v) :: members))) = some bytes) :
    loads depth bytes = .ok (.obj ((key, v) :: members)) := by
  obtain ⟨hscalar, hbytes⟩ : (dumps f (.obj ((key, v) :: members))).all isScalar = true ∧
      ((dumps f (.obj ((key, v) :: members))).flatMap octets).map UInt8.ofNat = bytes := by
    rw [encode] at henc
    split_ifs at henc with h
    exact ⟨h, Option.some.inj henc⟩
  have hread : loadsStr depth (dumps f (.obj ((key, v) :: members))) =
      .ok (.obj ((key, v) :: members)) := loadsStr_dumps hv hd
  obtain ⟨c, t, heq, -, -, -, hne⟩ := dumps_cons (f := f) hv
  have hhead : (dumps f (.obj ((key, v) :: members))).head? ≠ some 0xFEFF := by
    rw [heq]
    exact fun h => hne (Option.some.inj h)
  rw [loadsStr, if_neg hhead] at hread
  rw [loads, ← hbytes, toNat_octets hscalar, decode_octets_obj hscalar]
  exact hread

end Json

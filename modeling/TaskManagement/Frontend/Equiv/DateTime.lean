import TaskManagement.Frontend.DateTime
import Mathlib.Algebra.Ring.Nat
import Mathlib.Data.List.Induction

/-!
# Correctness of the local date-times

* `takeDigits_eq_some`, `readLocal_eq_some`: which texts are read, and what is left of them;
* `readLocal_text`, `text_of_readLocal`: what is written for fields is read as these fields if the
  year has four digits, and else not at all;
* `localDateTimeToUtc_eq`: a local date-time is read with the offset at the instant that has its
  fields in UTC;
* `localDateTime_roundTrips`: a local time that exists once is kept by the way to UTC and back
  exactly if that offset is the one in force at its instant, and so is an instant whose local year
  has four digits.
-/

namespace DateTime

open Gregorian

/-! ### Digits -/

/-- The last `w` digits of a number. -/
def lastDigits : ℕ → ℕ → List Char
  | 0, _ => []
  | w + 1, k => lastDigits w (k / 10) ++ [Nat.digitChar (k % 10)]

@[simp]
theorem length_lastDigits (w k : ℕ) : (lastDigits w k).length = w := by
  induction w generalizing k with
  | zero => rfl
  | succ w ih => rw [lastDigits, List.length_append, ih, List.length_singleton]

theorem isDigit_lastDigits (w k : ℕ) : (lastDigits w k).all Char.isDigit = true := by
  induction w generalizing k with
  | zero => rfl
  | succ w ih =>
    have hd : (k % 10).digitChar.isDigit = true := by
      rw [Nat.isDigit_digitChar]
      exact decide_eq_true (Nat.mod_lt k (by omega))
    rw [lastDigits, List.all_append, ih, List.all_cons, hd, List.all_nil]
    rfl

theorem ofDigitChars_lastDigits {w k : ℕ} (hk : k < 10 ^ w) :
    Nat.ofDigitChars 10 (lastDigits w k) 0 = k := by
  induction w generalizing k with
  | zero =>
    rw [Nat.pow_zero] at hk
    rw [lastDigits, Nat.ofDigitChars_nil]
    omega
  | succ w ih =>
    rw [Nat.pow_succ] at hk
    rw [lastDigits, Nat.ofDigitChars_append, ih (by omega),
      Nat.ofDigitChars_cons_digitChar_of_lt_ten (Nat.mod_lt k (by omega)), Nat.ofDigitChars_nil]
    omega

/-- Digits are the last digits of the number they name. -/
theorem lastDigits_ofDigitChars {cs : List Char} (hcs : cs.all Char.isDigit = true) :
    Nat.ofDigitChars 10 cs 0 < 10 ^ cs.length ∧
      lastDigits cs.length (Nat.ofDigitChars 10 cs 0) = cs := by
  induction cs using List.reverseRecOn with
  | nil => exact ⟨by decide, rfl⟩
  | append_singleton cs c ih =>
    rw [List.all_append, Bool.and_eq_true, List.all_cons, List.all_nil, Bool.and_true] at hcs
    have hc := Char.isDigit_iff_toNat.mp hcs.2
    have hz : '0'.toNat = 48 := rfl
    have hn : '9'.toNat = 57 := rfl
    have hchar : Nat.digitChar (c.toNat - '0'.toNat) = c := by
      rw [← Char.toNat_inj, Nat.toNat_digitChar_of_lt_ten (by omega)]
      omega
    obtain ⟨hlt, heq⟩ := ih hcs.1
    have hval : Nat.ofDigitChars 10 (cs ++ [c]) 0 =
        10 * Nat.ofDigitChars 10 cs 0 + (c.toNat - '0'.toNat) := by
      rw [Nat.ofDigitChars_append, Nat.ofDigitChars_cons, Nat.ofDigitChars_nil]
    rw [hval, List.length_append, List.length_singleton, Nat.pow_succ, lastDigits]
    refine ⟨by omega, ?_⟩
    rw [show (10 * Nat.ofDigitChars 10 cs 0 + (c.toNat - '0'.toNat)) / 10 =
        Nat.ofDigitChars 10 cs 0 by omega, heq,
      show (10 * Nat.ofDigitChars 10 cs 0 + (c.toNat - '0'.toNat)) % 10 = c.toNat - '0'.toNat by
        omega, hchar]

/-- The digits of a number are its last `w` ones if it has that many. -/
theorem toDigits_eq_lastDigits {w k : ℕ} (hlo : 10 ^ w ≤ k) (hhi : k < 10 ^ (w + 1)) :
    Nat.toDigits 10 k = lastDigits (w + 1) k := by
  induction w generalizing k with
  | zero =>
    rw [Nat.toDigits_of_lt_base (by omega), lastDigits, lastDigits, Nat.mod_eq_of_lt (by omega),
      List.nil_append]
  | succ w ih =>
    have hpow : 0 < 10 ^ w := Nat.pow_pos (by omega)
    rw [Nat.pow_succ] at hlo hhi
    rw [Nat.toDigits_of_base_le (by omega) (by omega), lastDigits, ih (by omega) (by omega)]

theorem toList_twoDigit {n : ℤ} (h : 0 ≤ n ∧ n < 100) :
    (twoDigit n).toList = lastDigits 2 n.toNat := by
  unfold twoDigit
  by_cases hn : n < 10
  · rw [if_pos hn, String.toList_append, Nat.toString_eq_repr, Nat.toList_repr,
      Nat.toDigits_of_lt_base (by omega)]
    simp only [lastDigits, Nat.mod_eq_of_lt (show n.toNat < 10 by omega),
      Nat.div_eq_of_lt (show n.toNat < 10 by omega)]
    rfl
  · rw [if_neg hn, Nat.toString_eq_repr, Nat.toList_repr]
    exact toDigits_eq_lastDigits (by omega) (by omega)

/-! ### Reading a text -/

theorem takeDigits_eq_some {n : ℕ} {cs cs' : List Char} {k : ℤ} :
    takeDigits n cs = some (k, cs') ↔ ∃ m : ℕ, m < 10 ^ n ∧ k = m ∧ cs = lastDigits n m ++ cs' := by
  unfold takeDigits
  constructor
  · intro h
    split_ifs at h with hif
    obtain ⟨hlen, hall⟩ := hif
    obtain ⟨rfl, rfl⟩ := Prod.mk.inj (Option.some.inj h)
    obtain ⟨hlt, heq⟩ := lastDigits_ofDigitChars hall
    rw [hlen] at hlt heq
    exact ⟨_, hlt, rfl, by rw [heq, List.take_append_drop]⟩
  · rintro ⟨m, hm, rfl, rfl⟩
    rw [List.take_left' (length_lastDigits n m), List.drop_left' (length_lastDigits n m),
      if_pos ⟨length_lastDigits n m, isDigit_lastDigits n m⟩, number, ofDigitChars_lastDigits hm]

theorem takeChar_eq_some {c : Char} {cs cs' : List Char} :
    takeChar c cs = some cs' ↔ cs = c :: cs' := by
  cases cs with
  | nil => simp [takeChar]
  | cons d cs =>
    rw [takeChar]
    split_ifs with h
    · rw [h, Option.some_inj, List.cons_inj_right]
    · simp [h]

/-- The characters `YYYY-MM-DDThh:mm`. -/
def stamp (year month day hour minute : ℕ) : List Char :=
  lastDigits 4 year ++ '-' :: (lastDigits 2 month ++ '-' :: (lastDigits 2 day ++
    'T' :: (lastDigits 2 hour ++ ':' :: lastDigits 2 minute)))

/-- Which texts are read, and as what. -/
theorem readLocal_eq_some {v : String} {f : Fields} :
    readLocal v = some f ↔ ∃ year month day hour minute : ℕ,
      (year < 10000 ∧ month < 100 ∧ day < 100 ∧ hour < 100 ∧ minute < 100) ∧
        f = ⟨year, month, day, hour, minute⟩ ∧ v.toList = stamp year month day hour minute := by
  unfold readLocal stamp
  constructor
  · intro h
    simp only [Option.bind_eq_bind, Option.bind_eq_some_iff, Prod.exists, takeDigits_eq_some,
      takeChar_eq_some] at h
    obtain ⟨_, cs, ⟨y, hy, rfl, hcs⟩, _, rfl, _, _, ⟨m, hm, rfl, rfl⟩, _, rfl, _, _,
      ⟨d, hd, rfl, rfl⟩, _, rfl, _, _, ⟨hr, hhr, rfl, rfl⟩, _, rfl, _, _,
      ⟨mi, hmi, rfl, rfl⟩, h⟩ := h
    split_ifs at h with hnil
    obtain rfl := Option.some.inj h
    rw [List.isEmpty_iff.mp hnil, List.append_nil] at hcs
    exact ⟨y, m, d, hr, mi, ⟨hy, hm, hd, hhr, hmi⟩, rfl, hcs⟩
  · rintro ⟨y, m, d, hr, mi, ⟨hy, hm, hd, hhr, hmi⟩, rfl, hv⟩
    simp only [Option.bind_eq_bind, Option.bind_eq_some_iff, Prod.exists, takeDigits_eq_some,
      takeChar_eq_some]
    exact ⟨_, _, ⟨y, hy, rfl, hv⟩, _, rfl, _, _, ⟨m, hm, rfl, rfl⟩, _, rfl, _, _,
      ⟨d, hd, rfl, rfl⟩, _, rfl, _, _, ⟨hr, hhr, rfl, rfl⟩, _, rfl, _, _,
      ⟨mi, hmi, rfl, (List.append_nil _).symm⟩, rfl⟩

/-! ### Writing a text -/

/-- Two digits are enough for all but the year. -/
structure Printable (f : Fields) : Prop where
  month : 0 ≤ f.month ∧ f.month < 100
  day : 0 ≤ f.day ∧ f.day < 100
  hour : 0 ≤ f.hour ∧ f.hour < 100
  minute : 0 ≤ f.minute ∧ f.minute < 100

theorem Printable.of_valid {f : Fields} (hf : f.Valid) : Printable f where
  month := by have := hf.month; omega
  day := by
    have := daysInMonth_le (y := f.year) hf.month
    have := hf.day
    omega
  hour := by have := hf.hour; omega
  minute := by have := hf.minute; omega

theorem eraYear_pos (y : ℤ) : 0 < eraYear y := by
  unfold eraYear
  split_ifs <;> omega

theorem toList_text {f : Fields} (hf : Printable f) :
    (partsOf f).text.toList = Nat.toDigits 10 (eraYear f.year).toNat ++
      '-' :: (lastDigits 2 f.month.toNat ++ '-' :: (lastDigits 2 f.day.toNat ++
        'T' :: (lastDigits 2 f.hour.toNat ++ ':' :: lastDigits 2 f.minute.toNat))) := by
  simp only [Parts.text, partsOf, String.toList_append, toList_twoDigit hf.month,
    toList_twoDigit hf.day, toList_twoDigit hf.hour, toList_twoDigit hf.minute, numeric,
    Nat.toString_eq_repr, Nat.toList_repr, List.append_assoc]
  rfl

/-- What is written is read back exactly if the year has four digits. -/
theorem readLocal_text {f : Fields} (hf : Printable f) :
    readLocal (partsOf f).text =
      if 1000 ≤ eraYear f.year ∧ eraYear f.year ≤ 9999 then some { f with year := eraYear f.year }
      else none := by
  have hyear := eraYear_pos f.year
  obtain ⟨hm, hd, hh, hn⟩ := hf
  split_ifs with hy
  · rw [readLocal_eq_some]
    refine ⟨(eraYear f.year).toNat, f.month.toNat, f.day.toNat, f.hour.toNat, f.minute.toNat,
      by omega, ?_, ?_⟩
    · ext <;> simp only <;> omega
    · rw [toList_text ⟨hm, hd, hh, hn⟩, toDigits_eq_lastDigits (w := 3) (by omega) (by omega),
        stamp]
  · by_contra hne
    obtain ⟨g, hg⟩ := Option.ne_none_iff_exists'.mp hne
    obtain ⟨y, m, d, h, n, -, -, hlist⟩ := readLocal_eq_some.mp hg
    have hlen := congrArg List.length hlist
    simp only [toList_text ⟨hm, hd, hh, hn⟩, stamp, List.length_append, List.length_cons,
      length_lastDigits] at hlen
    have hhi := (Nat.length_toDigits_le_iff (b := 10) (n := (eraYear f.year).toNat) (k := 4)
      (by omega) (by omega)).mp (by omega)
    have hlo := (Nat.length_toDigits_le_iff (b := 10) (n := (eraYear f.year).toNat) (k := 3)
      (by omega) (by omega)).not.mp (by omega)
    omega

/-- A text with a year that does not start with a zero is what is written for its fields. -/
theorem text_of_readLocal {v : String} {f : Fields} (h : readLocal v = some f)
    (hy : 1000 ≤ f.year) : (partsOf f).text = v := by
  obtain ⟨y, m, d, hr, n, ⟨hy', hm, hd, hhr, hn⟩, rfl, hv⟩ := readLocal_eq_some.mp h
  have hera : eraYear (y : ℤ) = y := if_neg (by simp only at hy; omega)
  have hp : Printable ⟨y, m, d, hr, n⟩ := by
    constructor <;> simp only <;> omega
  simp only at hy
  rw [← String.toList_inj, hv, toList_text hp, hera, stamp, Int.toNat_natCast,
    toDigits_eq_lastDigits (w := 3) (by omega) (by omega)]
  simp only [Int.toNat_natCast]

/-! ### The way to UTC -/

section

variable (z : Zone)

/-- Every offset is one of full minutes and less than a day. -/
theorem offsetAt_bounds (u : ℤ) :
    z.offsetAt u % 60000 = 0 ∧ -86400000 < z.offsetAt u ∧ z.offsetAt u < 86400000 := by
  obtain ⟨hinit, htrans⟩ := z.fullMinutes
  obtain ⟨binit, btrans⟩ := z.bounded
  rcases TimeZone.offsetFrom_cases z.initial u z.transitions with heq | ⟨t, ht, heq⟩
  · rw [TimeZone.History.offsetAt, heq]
    exact ⟨hinit, binit⟩
  · rw [TimeZone.History.offsetAt, heq]
    exact ⟨htrans t ht, btrans t ht⟩

theorem timeClip_eq_some {t : ℤ} (h : -8640000000000000 ≤ t ∧ t ≤ 8640000000000000) :
    timeClip t = some ⟨t, h⟩ := dif_pos h

/-- What `Number` reads in the parts of a time of a year after the 99th. -/
theorem dateUTC_partsOf {t : ℤ} (ht : t % 60000 = 0) (hy : 99 < (fieldsOf t).year) :
    dateUTC (number (partsOf (fieldsOf t)).year.toList)
      (number (partsOf (fieldsOf t)).month.toList - 1) (number (partsOf (fieldsOf t)).day.toList)
      (number (partsOf (fieldsOf t)).hour.toList) (number (partsOf (fieldsOf t)).minute.toList) =
    timeClip t := by
  have hp := Printable.of_valid (fieldsOf_valid t)
  have two : ∀ {n : ℤ}, 0 ≤ n ∧ n < 100 → number (twoDigit n).toList = n := by
    intro n hn
    rw [toList_twoDigit hn, number, ofDigitChars_lastDigits (by omega)]
    omega
  have year : number (numeric (eraYear (fieldsOf t).year)).toList = (fieldsOf t).year := by
    rw [eraYear, if_neg (by omega), numeric, Nat.toString_eq_repr, Nat.toList_repr, number,
      Nat.ofDigitChars_ten_toDigits]
    omega
  simp only [partsOf, two hp.month, two hp.day, two hp.hour, two hp.minute, year, dateUTC]
  rw [if_neg (by omega), Int.sub_add_cancel, makeTime_fieldsOf ht]

/-- The times that a text with a year of four digits can name. -/
theorem makeTime_bounds {f : Fields} (hf : Printable f) (hy : 1000 ≤ f.year ∧ f.year ≤ 9999) :
    yearStart 998 * 86400000 ≤ makeTime f ∧ makeTime f < yearStart 10010 * 86400000 := by
  obtain ⟨hm, hd, hh, hn⟩ := hf
  obtain ⟨y, hyear⟩ : ∃ y, f.year + (f.month - 1) / 12 = y := ⟨_, rfl⟩
  have hest := yearStart_estimate y
  have hmonth := monthStart_bounds (isLeap y) (m := ((f.month - 1) % 12).toNat) (by omega)
  simp only [makeTime, makeDay, hyear]
  have hlo := yearStart_estimate 998
  have hhi := yearStart_estimate 10010
  omega

theorem makeTime_mod (f : Fields) : makeTime f % 60000 = 0 := by
  unfold makeTime
  omega

theorem printable_of_readLocal {v : String} {f : Fields} (h : readLocal v = some f) :
    Printable f ∧ 0 ≤ f.year ∧ f.year ≤ 9999 := by
  obtain ⟨y, m, d, hr, n, ⟨hy, hm, hd, hhr, hn⟩, rfl, -⟩ := readLocal_eq_some.mp h
  refine ⟨?_, by simp only; omega⟩
  constructor <;> simp only <;> omega

/-- A local date-time is read with the offset at the instant that has its fields in UTC. -/
theorem localDateTimeToUtc_eq {v : String} {f : Fields} (h : readLocal v = some f)
    (hy : 1000 ≤ f.year) :
    ∃ u : TimeValue, localDateTimeToUtc z (some v) = .ok (some u) ∧
      u.time = makeTime f - z.offsetAt (makeTime f) := by
  obtain ⟨hp, -, hyhi⟩ := printable_of_readLocal h
  obtain ⟨hlo, hhi⟩ := makeTime_bounds hp ⟨hy, hyhi⟩
  obtain ⟨omin, olo, ohi⟩ := offsetAt_bounds z (makeTime f)
  have emin := makeTime_mod f
  have hlow : yearStart 998 = -355015 := rfl
  have hhigh : yearStart 10010 = 2936550 := rfl
  have hlocal : dateUTC f.year (f.month - 1) f.day f.hour f.minute =
      some ⟨makeTime f, by omega⟩ := by
    rw [dateUTC, if_neg (by omega), Int.sub_add_cancel]
    exact timeClip_eq_some _
  have hzoned : 99 < (fieldsOf (z.localTime (makeTime f))).year := by
    by_contra hlt
    have := (year_fieldsOf_lt_iff (z.localTime (makeTime f)) 100).mp (by omega)
    have h100 : yearStart 100 = -683003 := rfl
    simp only [TimeZone.History.localTime] at this
    omega
  have hlt : z.localTime (makeTime f) = makeTime f + z.offsetAt (makeTime f) := rfl
  refine ⟨⟨makeTime f - z.offsetAt (makeTime f), by omega⟩, ?_, rfl⟩
  rw [localDateTimeToUtc, Option.bind_some, h]
  simp only [hlocal, formatToParts, Option.elim_some, bind, Except.bind]
  rw [dateUTC_partsOf (by omega) hzoned,
    timeClip_eq_some (t := z.localTime (makeTime f)) (by omega)]
  have hdiff : makeTime f - (z.localTime (makeTime f) - makeTime f) =
      makeTime f - z.offsetAt (makeTime f) := by
    omega
  rw [Option.bind_some, Option.bind_some, hdiff, timeClip_eq_some]
  rfl

theorem utcToLocalDateTime_eq (u : TimeValue) :
    utcToLocalDateTime z (some u) = .ok (some (partsOf (fieldsOf (z.localTime u.time))).text) := rfl

theorem eraYear_of_pos {y : ℤ} (h : 0 < y) : eraYear y = y := if_neg (by omega)

/-- The time of the fields that are read in a text written for a time of a year after Christ. -/
theorem makeTime_of_readLocal {t : ℤ} {f : Fields} (ht : t % 60000 = 0)
    (hy : 0 < (fieldsOf t).year) (h : readLocal (partsOf (fieldsOf t)).text = some f) :
    1000 ≤ (fieldsOf t).year ∧ (fieldsOf t).year ≤ 9999 ∧ makeTime f = t := by
  rw [readLocal_text (Printable.of_valid (fieldsOf_valid t)), eraYear_of_pos hy] at h
  split_ifs at h with hrange
  obtain rfl := Option.some.inj h
  exact ⟨hrange.1, hrange.2, makeTime_fieldsOf ht⟩

/-- The way to UTC and back keeps a local time that exists once exactly if the offset at the instant
that has its fields in UTC is the one in force at its instant. -/
theorem utcToLocal_localToUtc {v : String} {f : Fields} {u : ℤ} (h : readLocal v = some f)
    (hf : f.Valid) (hy : 1000 ≤ f.year) (hu : ∀ u', z.localTime u' = makeTime f ↔ u' = u) :
    (localDateTimeToUtc z (some v)).bind (utcToLocalDateTime z) = .ok (some v) ↔
      z.offsetAt (makeTime f) = z.offsetAt u := by
  obtain ⟨u', heq, htime⟩ := localDateTimeToUtc_eq z h hy
  have hself : z.offsetAt u = makeTime f - u := by
    have hloc := (hu u).mpr rfl
    rw [← hloc, TimeZone.History.localTime]
    omega
  rw [heq]
  show utcToLocalDateTime z (some u') = _ ↔ _
  rw [utcToLocalDateTime_eq, Except.ok.injEq, Option.some_inj]
  constructor
  · intro htext
    obtain ⟨omin, olo, ohi⟩ := offsetAt_bounds z (makeTime f)
    obtain ⟨omin', olo', ohi'⟩ := offsetAt_bounds z u'.time
    obtain ⟨hp, -, hyhi⟩ := printable_of_readLocal h
    have hlo := (makeTime_bounds hp ⟨hy, hyhi⟩).1
    have emin := makeTime_mod f
    have hlow : yearStart 998 = -355015 := rfl
    have hone : yearStart 1 = -719162 := rfl
    have hlt : z.localTime u'.time = u'.time + z.offsetAt u'.time := rfl
    -- two days at most before a time of the year 998, so that the year is shown as it is
    have hpos : 0 < (fieldsOf (z.localTime u'.time)).year := by
      by_contra hle
      have := (year_fieldsOf_lt_iff (z.localTime u'.time) 1).mp (by omega)
      omega
    rw [← htext] at h
    have hmake := (makeTime_of_readLocal (by omega) hpos h).2.2
    have := (hu u'.time).mp hmake.symm
    omega
  · intro hoff
    have hsame : u'.time = u := by omega
    rw [hsame, (hu u).mpr rfl, fieldsOf_makeTime hf, text_of_readLocal h hy]

/-- The way to the local time and back keeps an instant of a full minute exactly if its local year
has four digits and the offset at the instant that has its local time in UTC is the one in force. -/
theorem localToUtc_utcToLocal {u : TimeValue} (hu : u.time % 60000 = 0) :
    (utcToLocalDateTime z (some u)).bind (localDateTimeToUtc z) = .ok (some u) ↔
      1000 ≤ (fieldsOf (z.localTime u.time)).year ∧ (fieldsOf (z.localTime u.time)).year ≤ 9999 ∧
        z.offsetAt (z.localTime u.time) = z.offsetAt u.time := by
  obtain ⟨omin, olo, ohi⟩ := offsetAt_bounds z u.time
  have hlt : z.localTime u.time = u.time + z.offsetAt u.time := rfl
  simp only [utcToLocalDateTime_eq, Except.bind]
  set t := z.localTime u.time with ht
  obtain ⟨f, hf⟩ : ∃ f, { fieldsOf t with year := eraYear (fieldsOf t).year } = f := ⟨_, rfl⟩
  have hyear : f.year = eraYear (fieldsOf t).year := by rw [← hf]
  have hread := readLocal_text (Printable.of_valid (fieldsOf_valid t))
  rw [hf, ← hyear] at hread
  by_cases hrange : 1000 ≤ f.year ∧ f.year ≤ 9999
  · rw [if_pos hrange] at hread
    obtain ⟨u', heq, htime⟩ := localDateTimeToUtc_eq z hread hrange.1
    obtain ⟨omin', olo', ohi'⟩ := offsetAt_bounds z (makeTime f)
    rw [heq, Except.ok.injEq, Option.some_inj, TimeValue.ext_iff, htime]
    by_cases hpos : 0 < (fieldsOf t).year
    · rw [eraYear_of_pos hpos] at hyear
      rw [(makeTime_of_readLocal (by omega) hpos hread).2.2, ← hyear]
      omega
    · -- a year before Christ is shown without its era and read as one after Christ
      have hbefore := (year_fieldsOf_lt_iff t 1).mp (by omega)
      have hone : yearStart 1 = -719162 := rfl
      have hlow : yearStart 998 = -355015 := rfl
      have hlo := (makeTime_bounds (printable_of_readLocal hread).1 hrange).1
      omega
  · have hnone : localDateTimeToUtc z (some (partsOf (fieldsOf t)).text) = .ok none := by
      rw [localDateTimeToUtc, Option.bind_some, hread, if_neg hrange]
      rfl
    rw [hnone]
    constructor
    · intro h
      cases Except.ok.inj h
    · rintro ⟨hlo, hhi, -⟩
      rw [hyear, eraYear_of_pos (by omega)] at hrange
      exact absurd ⟨hlo, hhi⟩ hrange

end

/-- Local date-times survive the conversions. -/
theorem localDateTime_roundTrips (z : Zone) :
    (∀ (v : String) (f : Fields) (u : ℤ), readLocal v = some f → f.Valid → 1000 ≤ f.year →
      f.year ≤ 9998 → (∀ u', z.localTime u' = makeTime f ↔ u' = u) →
      ((localDateTimeToUtc z (some v)).bind (utcToLocalDateTime z) = .ok (some v) ↔
        z.offsetAt (makeTime f) = z.offsetAt u)) ∧
    ∀ u : TimeValue, u.time % 60000 = 0 →
      (∀ u', z.localTime u' = z.localTime u.time ↔ u' = u.time) →
      ((utcToLocalDateTime z (some u)).bind (localDateTimeToUtc z) = .ok (some u) ↔
        1000 ≤ (fieldsOf (z.localTime u.time)).year ∧
        (fieldsOf (z.localTime u.time)).year ≤ 9999 ∧
        z.offsetAt (z.localTime u.time) = z.offsetAt u.time) := by
  refine ⟨?_, ?_⟩
  · intro v f u h hf hy _ hu
    exact utcToLocal_localToUtc z h hf hy hu
  · intro u hu _
    exact localToUtc_utcToLocal z hu

/-- New York in the spring of 2026. -/
def newYork : Zone where
  initial := -18000000
  transitions := [⟨1772953200000, -14400000⟩]
  sorted := List.pairwise_singleton _ _
  fullMinutes := ⟨by decide, by decide⟩
  bounded := ⟨by decide, by decide⟩

theorem newYork_localTime (u : ℤ) :
    newYork.localTime u = if u < 1772953200000 then u - 18000000 else u - 14400000 := by
  show u + (if u < 1772953200000 then (-18000000 : ℤ) else -14400000) = _
  split_ifs <;> omega

theorem localDateTime_roundTrips_newYork :
    ((localDateTimeToUtc newYork (some "2026-07-01T12:00")).bind (utcToLocalDateTime newYork) =
      .ok (some "2026-07-01T12:00") ↔
        newYork.offsetAt 1782907200000 = newYork.offsetAt 1782921600000) ∧
    ((utcToLocalDateTime newYork (some ⟨1782921600000, by decide⟩)).bind
      (localDateTimeToUtc newYork) = .ok (some ⟨1782921600000, by decide⟩) ↔
        1000 ≤ (2026 : ℤ) ∧ (2026 : ℤ) ≤ 9999 ∧
        newYork.offsetAt 1782907200000 = newYork.offsetAt 1782921600000) := by
  have hunique : ∀ u', newYork.localTime u' = 1782907200000 ↔ u' = 1782921600000 := by
    intro u'
    rw [newYork_localTime]
    split_ifs <;> omega
  refine ⟨?_, ?_⟩
  · exact (localDateTime_roundTrips newYork).1 "2026-07-01T12:00" ⟨2026, 7, 1, 12, 0⟩ 1782921600000
      (by decide) ⟨by decide, by decide, by decide, by decide⟩ (by decide) (by decide) hunique
  · exact (localDateTime_roundTrips newYork).2 ⟨1782921600000, by decide⟩ (by decide) hunique

/-- The hour after the clock was set forward is read with the offset before. -/
theorem localDateTime_after_transition :
    ¬∀ (z : Zone) (v : String) (f : Fields) (u : ℤ), readLocal v = some f → f.Valid →
      1000 ≤ f.year → f.year ≤ 9998 → (∀ u', z.localTime u' = makeTime f ↔ u' = u) →
      (localDateTimeToUtc z (some v)).bind (utcToLocalDateTime z) = .ok (some v) := by
  intro h
  have := h newYork "2026-03-08T03:30" ⟨2026, 3, 8, 3, 30⟩ 1772955000000 (by decide)
    ⟨by decide, by decide, by decide, by decide⟩ (by decide) (by decide) ?_
  · exact absurd this (by decide)
  · intro u'
    have hmake : makeTime ⟨2026, 3, 8, 3, 30⟩ = 1772940600000 := by decide
    rw [newYork_localTime, hmake]
    split_ifs <;> omega

end DateTime

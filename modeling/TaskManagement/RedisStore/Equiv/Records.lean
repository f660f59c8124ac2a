import TaskManagement.Json.Equiv.Dumps
import TaskManagement.RedisStore.Records

/-!
# What is written to Redis is read back

* `records_round_trip`: every reader returns what the value of its key was written with, for all
  texts;
* `key_injective`: different keys of the stores have different texts, so that the stores of the
  other models are parts of one database that do not meet;
* `script_keys`: the scripts make the same texts.
-/

namespace Records

open Json (Str Value str dumps loadsStr hexChar hexDigit hexChar_lt PlainStr plainStr_of_forall)

variable {s t rest : Str}

/-! ### Numbers of a fixed width -/

theorem length_fixed (b k n : ℕ) : (fixed b k n).length = k := by
  induction k generalizing n with
  | zero => rfl
  | succ k ih => rw [fixed, List.length_append, ih, List.length_singleton]

theorem mem_fixed {b k n c : ℕ} (hb : 0 < b) (hc : c ∈ fixed b k n) :
    ∃ d < b, c = hexChar d := by
  induction k generalizing n with
  | zero => cases hc
  | succ k ih =>
    rw [fixed, List.mem_append, List.mem_singleton] at hc
    rcases hc with hc | rfl
    · exact ih hc
    · exact ⟨n % b, Nat.mod_lt _ hb, rfl⟩

theorem readNumber_append (b : ℕ) (s t : Str) : readNumber b (s ++ t) =
    (readNumber b s).bind fun n => t.foldlM (fun n c =>
      (hexDigit c).bind fun d => if d < b then some (b * n + d) else none) n := by
  rw [readNumber, List.foldlM_append]
  rfl

/-- The digits of a number below `b ^ k` are read. -/
theorem readNumber_fixed {b : ℕ} (hb : 0 < b) (hb' : b ≤ 16) {k n : ℕ} (hn : n < b ^ k) :
    readNumber b (fixed b k n) = some n := by
  induction k generalizing n with
  | zero =>
    have hzero : n = 0 := by
      rw [pow_zero] at hn
      omega
    rw [hzero]
    rfl
  | succ k ih =>
    have hmod : n % b < b := Nat.mod_lt _ hb
    have hdigit : hexDigit (hexChar (n % b)) = some (n % b) :=
      Json.hexDigit_hexChar (hmod.trans_le hb')
    have hdiv : n / b < b ^ k := by
      rw [Nat.div_lt_iff_lt_mul hb]
      rwa [pow_succ] at hn
    rw [fixed, readNumber_append, ih hdiv]
    simp [hdigit, hmod, Nat.div_add_mod]

theorem fixed_injective {b : ℕ} (hb : 0 < b) (hb' : b ≤ 16) {k n m : ℕ} (hn : n < b ^ k)
    (hm : m < b ^ k) (h : fixed b k n = fixed b k m) : n = m := by
  have hread := readNumber_fixed hb hb' hn
  rw [h, readNumber_fixed hb hb' hm] at hread
  exact (Option.some.inj hread).symm

/-! ### `UUID` -/

theorem hexChar_ne {d c : ℕ} (hd : d < 16) (hc : hexDigit c = none) : hexChar d ≠ c := by
  rintro rfl
  rw [Json.hexDigit_hexChar hd] at hc
  cases hc

/-- Where the first character of `sub` does not occur, there is nothing to remove. -/
theorem removeAll_of_not_mem {c : ℕ} {sub : Str} (hc : c ∉ s) : removeAll (c :: sub) 0 s = s := by
  induction s with
  | nil => rfl
  | cons d s ih =>
    have hd : ¬(c :: sub).isPrefixOf (d :: s) = true := fun h => by
      have hprefix := List.isPrefixOf_iff_prefix.mp h
      exact hc ((List.cons_prefix_cons.mp hprefix).1 ▸ List.mem_cons_self)
    rw [removeAll, if_neg hd, ih fun h => hc (List.mem_cons_of_mem _ h)]

/-- The characters of a UUID. -/
theorem mem_uuidText {u : Uuid} {c : ℕ} (hc : c ∈ uuidText u) :
    c = 45 ∨ ∃ d < 16, c = hexChar d := by
  have htake {k : ℕ} {l : Str} (h : c ∈ l.take k) : c ∈ l := List.mem_of_mem_take h
  have hdrop {k : ℕ} {l : Str} (h : c ∈ l.drop k) : c ∈ l := List.mem_of_mem_drop h
  have hfixed (h : c ∈ fixed 16 32 u) : c = 45 ∨ ∃ d < 16, c = hexChar d :=
    Or.inr (mem_fixed (by omega) h)
  simp only [uuidText, List.mem_append, List.mem_cons] at hc
  rcases hc with h | rfl | h | rfl | h | rfl | h | rfl | h
  · exact hfixed (htake h)
  · exact Or.inl rfl
  · exact hfixed (hdrop (htake h))
  · exact Or.inl rfl
  · exact hfixed (hdrop (htake h))
  · exact Or.inl rfl
  · exact hfixed (hdrop (htake h))
  · exact Or.inl rfl
  · exact hfixed (hdrop h)

theorem not_mem_uuidText {u : Uuid} {c : ℕ} (hc : c ≠ 45 ∧ hexDigit c = none) :
    c ∉ uuidText u := by
  intro h
  rcases mem_uuidText h with h | ⟨d, hd, rfl⟩
  · exact hc.1 h
  · exact hexChar_ne hd hc.2 rfl

theorem dropWhile_of_not_mem {p : ℕ → Bool} (h : ∀ c ∈ s, p c = false) : s.dropWhile p = s := by
  cases s with
  | nil => rfl
  | cons c s => rw [List.dropWhile_cons, h c List.mem_cons_self]; rfl

theorem stripBraces_of_not_mem (h : ∀ c ∈ s, c ≠ 123 ∧ c ≠ 125) : stripBraces s = s := by
  have hbrace : ∀ c ∈ s, decide (c = 123 ∨ c = 125) = false := fun c hc => by
    simp [h c hc]
  rw [stripBraces, dropWhile_of_not_mem hbrace, dropWhile_of_not_mem, List.reverse_reverse]
  exact fun c hc => hbrace c (List.mem_reverse.mp hc)

/-- A UUID without its hyphens. -/
theorem filter_uuidText (u : Uuid) :
    (uuidText u).filter (fun c => decide (c ≠ 45)) = fixed 16 32 u := by
  have hall : ∀ c ∈ fixed 16 32 u, decide (c ≠ 45) = true := fun c hc => by
    obtain ⟨d, hd, rfl⟩ := mem_fixed (by omega) hc
    exact decide_eq_true (hexChar_ne hd rfl)
  have hself {l : Str} (h : ∀ c ∈ l, c ∈ fixed 16 32 u) :
      l.filter (fun c => decide (c ≠ 45)) = l :=
    List.filter_eq_self.mpr fun c hc => hall c (h c hc)
  have hjoin (l : Str) (i k : ℕ) : (l.drop i).take k ++ l.drop (i + k) = l.drop i := by
    rw [← List.drop_drop, List.take_append_drop]
  have hhyphen (l : Str) : (45 :: l).filter (fun c => decide (c ≠ 45)) =
      l.filter (fun c => decide (c ≠ 45)) := rfl
  simp only [uuidText, List.filter_append, hhyphen]
  rw [hself fun c hc => List.mem_of_mem_take hc,
    hself fun c hc => List.mem_of_mem_drop (List.mem_of_mem_take hc),
    hself fun c hc => List.mem_of_mem_drop (List.mem_of_mem_take hc),
    hself fun c hc => List.mem_of_mem_drop (List.mem_of_mem_take hc),
    hself fun c hc => List.mem_of_mem_drop hc, hjoin _ 16 4, hjoin _ 12 4, hjoin _ 8 4,
    List.take_append_drop]

theorem parseUuid_uuidText (u : Uuid) : parseUuid (uuidText u) = some u := by
  have hurn : removeAll (str "urn:") 0 (uuidText u) = uuidText u :=
    removeAll_of_not_mem (not_mem_uuidText (by decide))
  have huuid : removeAll (str "uuid:") 0 (uuidText u) = uuidText u :=
    removeAll_of_not_mem (not_mem_uuidText (by decide))
  have hstrip : stripBraces (uuidText u) = uuidText u := by
    refine stripBraces_of_not_mem fun c hc => ⟨?_, ?_⟩
    · rintro rfl
      exact not_mem_uuidText (by decide) hc
    · rintro rfl
      exact not_mem_uuidText (by decide) hc
  have hread : readNumber 16 (fixed 16 32 u) = some u :=
    readNumber_fixed (by omega) (by omega) (by
      rw [show (16 : ℕ) ^ 32 = 2 ^ 128 by norm_num]
      exact u.isLt)
  simp only [parseUuid, hurn, huuid, hstrip, filter_uuidText, length_fixed, hread]
  simp

/-! ### `datetime` -/

theorem readField_fixed {k n : ℕ} (hn : n < 10 ^ k) (t : Str) :
    readField k (fixed 10 k n ++ t) = some (n, t) := by
  have hlength := length_fixed 10 k n
  rw [readField, if_neg (by rw [List.length_append]; omega),
    List.take_append_of_le_length hlength.ge, List.take_of_length_le hlength.le,
    List.drop_append_of_le_length hlength.ge,
    List.drop_eq_nil_of_le hlength.le, readNumber_fixed (by omega) (by omega) hn]
  rfl

theorem readFraction_isoformat {n : ℕ} (hn : n < 1000000) :
    readFraction ((if n = 0 then [] else 46 :: fixed 10 6 n) ++ str "+00:00") =
      some (n, str "+00:00") := by
  split_ifs with hzero
  · rw [hzero]
    rfl
  · exact readField_fixed hn _

theorem parseDatetime_isoformat (d : DateTime) : parseDatetime (isoformat d) = some d := by
  obtain ⟨⟨-, hyear⟩, ⟨hmonth, hmonth'⟩, ⟨-, hday⟩, hhour, hminute, hsecond, hmicro⟩ := d.valid
  have hmonthDays := Gregorian.daysInMonth_le (y := d.year) (m := d.month) (by omega)
  have hexpect (c : ℕ) (t : Str) : expect c (c :: t) = some t := if_pos rfl
  simp only [parseDatetime, isoformat, bind, Option.bind,
    readField_fixed (k := 4) (n := d.year) (by omega),
    readField_fixed (k := 2) (n := d.month) (by omega),
    readField_fixed (k := 2) (n := d.day) (by omega),
    readField_fixed (k := 2) (n := d.hour) (by omega),
    readField_fixed (k := 2) (n := d.minute) (by omega),
    readField_fixed (k := 2) (n := d.second) (by omega), hexpect,
    readFraction_isoformat hmicro]
  rw [if_neg (by simp), dif_pos d.valid]

/-! ### Values -/

theorem plainStr_of_ascii (h : ∀ c ∈ s, c < 128) : PlainStr s :=
  plainStr_of_forall fun c hc => ⟨by have := h c hc; omega, by
    have := h c hc
    exact decide_eq_false (by omega)⟩

/-- The characters of a `String` are no surrogates. -/
theorem plainStr_str (s : String) : PlainStr (str s) := by
  refine plainStr_of_forall fun c hc => ?_
  obtain ⟨c, -, rfl⟩ := List.mem_map.mp hc
  rcases c.valid with h | ⟨h, h'⟩
  · exact ⟨by rw [Char.toNat]; omega, decide_eq_false (by rw [Char.toNat]; omega)⟩
  · exact ⟨by rw [Char.toNat]; omega, decide_eq_false (by rw [Char.toNat]; omega)⟩

-- The texts are long; a proof about them goes through the lemmas above.
attribute [local irreducible] uuidText isoformat

theorem plainStr_uuidText (u : Uuid) : PlainStr (uuidText u) := by
  refine plainStr_of_ascii fun c hc => ?_
  rcases mem_uuidText hc with h | ⟨d, hd, rfl⟩
  · omega
  · exact hexChar_lt hd

theorem plainStr_isoformat (t : DateTime) : PlainStr (isoformat t) := by
  have hfixed {k n c : ℕ} (hc : c ∈ fixed 10 k n) : c < 128 := by
    obtain ⟨d, hd, rfl⟩ := mem_fixed (by omega) hc
    exact hexChar_lt (by omega)
  have hzone : ∀ c ∈ str "+00:00", c < 128 := by decide
  have hmicro : ∀ c ∈ (if t.microsecond = 0 then [] else 46 :: fixed 10 6 t.microsecond),
      c < 128 := by
    intro c hc
    split_ifs at hc
    · cases hc
    · rcases List.mem_cons.mp hc with rfl | hc
      · omega
      · exact hfixed hc
  refine plainStr_of_ascii fun c hc => ?_
  simp only [isoformat, List.mem_append, List.mem_cons] at hc
  rcases hc with h | rfl | h | rfl | h | rfl | h | rfl | h | rfl | h | h | h
  all_goals first
    | exact hfixed h
    | exact hmicro c h
    | exact hzone c h
    | omega

/-- The values of a record: texts without surrogate pairs, and `None`. -/
def Flat : Value → Prop
  | .str s => PlainStr s
  | .null => True
  | _ => False

theorem Flat.plain {v : Value} (h : Flat v) : v.Plain ∧ v.depth = 0 := by
  cases v with
  | str s => exact ⟨h, rfl⟩
  | null => exact ⟨trivial, rfl⟩
  | _ => exact absurd h id

theorem flat_optional (o : Option String) : Flat (optional o) := by
  cases o with
  | none => trivial
  | some s => exact plainStr_str s

theorem str_injective : Function.Injective str := by
  intro s t h
  have hchar : Function.Injective Char.toNat := fun c d hcd => Char.toNat_inj.mp hcd
  exact String.toList_inj.mp (List.map_injective_iff.mpr hchar h)

/-- A record as an object. -/
def object (members : List (String × Value)) : Value :=
  .obj (members.map fun m => (str m.1, m.2))

theorem lookup_object (members : List (String × Value)) (name : String) :
    (members.map fun m => (str m.1, m.2)).lookup (str name) = members.lookup name := by
  induction members with
  | nil => rfl
  | cons m members ih =>
    have hbeq : (str name == str m.1) = (name == m.1) := by
      rw [Bool.eq_iff_iff, beq_iff_eq, beq_iff_eq, str_injective.eq_iff]
    rw [List.map_cons, List.lookup_cons, List.lookup_cons, hbeq, ih]

/-- A record is read as it was written. -/
theorem parseJson_dump {members : List (String × Value)} (hflat : ∀ m ∈ members, Flat m.2)
    (hkeys : (members.map Prod.fst).Nodup) (depth : ℕ) :
    parseJson (depth + 1) (some (dump members)) = .ok (some (object members)) := by
  have hplain : (object members).Plain := by
    refine ⟨?_, Json.plainMembers_iff.mpr fun m hm => ?_⟩
    · have hmap := hkeys.map str_injective
      simpa [List.map_map, Function.comp_def] using hmap
    · obtain ⟨n, hn, rfl⟩ := List.mem_map.mp hm
      exact ⟨plainStr_str n.1, (hflat n hn).plain.1⟩
  have hdepth (l : List (String × Value)) (hl : ∀ m ∈ l, Flat m.2) :
      Json.membersDepth (l.map fun m => (str m.1, m.2)) = 0 := by
    induction l with
    | nil => rfl
    | cons m l ih =>
      rw [List.map_cons, Json.membersDepth, (hl m List.mem_cons_self).plain.2,
        ih fun n hn => hl n (List.mem_cons_of_mem _ hn)]
      rfl
  have hread : loadsStr (depth + 1) (dumps ⟨true, false⟩ (object members)) =
      .ok (object members) := Json.loadsStr_dumps hplain (by
    rw [object, Value.depth, hdepth members hflat]
    omega)
  rw [parseJson, dump, ← object, hread]
  rfl

section Members

variable {members : List (String × Value)} {name : String}

theorem get_eq (members : List (String × Value)) (name : String) :
    get (object members) name = .ok ((members.lookup name).getD .null) := by
  simp only [get, object, lookup_object]

theorem getText_eq {s : Str} (h : members.lookup name = some (.str s)) :
    getText (object members) name = .ok s := by
  simp only [getText, getItem, object, lookup_object, h]
  rfl

theorem getUuid_eq {u : Uuid} (h : members.lookup name = some (.str (uuidText u))) :
    getUuid (object members) name = .ok u := by
  rw [getUuid, getText_eq h]
  simp only [bind, Except.bind, parseUuid_uuidText]
  rfl

theorem getDatetime_eq {t : DateTime} (h : members.lookup name = some (.str (isoformat t))) :
    getDatetime (object members) name = .ok t := by
  rw [getDatetime, getText_eq h]
  simp only [bind, Except.bind, parseDatetime_isoformat]
  rfl

/-- A reader of a record that was written. -/
theorem readValue_dump {α : Type} {read : Value → Except ReadError α} {a : α}
    (hflat : ∀ m ∈ members, Flat m.2) (hkeys : (members.map Prod.fst).Nodup)
    (hread : read (object members) = .ok a) (depth : ℕ) :
    readValue (depth + 1) read (some (dump members)) = .ok (some a) := by
  rw [readValue, parseJson_dump hflat hkeys]
  simp only [bind, Except.bind, hread]
  rfl

theorem readTruthy_dump {α : Type} {read : Value → Except ReadError α} {a : α}
    (hflat : ∀ m ∈ members, Flat m.2) (hkeys : (members.map Prod.fst).Nodup)
    (hne : members ≠ []) (hread : read (object members) = .ok a) (depth : ℕ) :
    readTruthy (depth + 1) read (some (dump members)) = .ok (some a) := by
  have htruthy : truthy (object members) = true := by
    simp [truthy, object, hne]
  rw [readTruthy, parseJson_dump hflat hkeys]
  simp only [bind, Except.bind, hread, htruthy]
  rfl

end Members

section Readers

variable (depth : ℕ) (userId : Uuid) (time : DateTime)

theorem getSession_sessionText (ip : Option String) :
    getSession (depth + 1) (some (sessionText userId time ip)) =
      .ok (some ⟨userId, time, optional ip⟩) := by
  have hflat : ∀ m ∈ [("user_id", Value.str (uuidText userId)),
      ("created_at", .str (isoformat time)), ("ip", optional ip)], Flat m.2 := by
    simp only [List.forall_mem_cons]
    exact ⟨plainStr_uuidText userId, plainStr_isoformat time, flat_optional ip,
      fun _ h => absurd h List.not_mem_nil⟩
  rw [getSession, sessionText]
  refine readValue_dump hflat (by simp) ?_ depth
  rw [getUuid_eq rfl, getDatetime_eq rfl, get_eq]
  rfl

theorem getCsrfToken_csrfText (token : String) :
    getCsrfToken (depth + 1) (some (csrfText token)) = .ok (some (.str (str token))) := by
  have hflat : ∀ m ∈ [("token", Value.str (str token))], Flat m.2 := by
    simp only [List.forall_mem_cons]
    exact ⟨plainStr_str token, fun _ h => absurd h List.not_mem_nil⟩
  rw [getCsrfToken, csrfText]
  refine readTruthy_dump hflat (by simp) (by simp) ?_ depth
  rw [get_eq]
  rfl

theorem getRefreshToken_refreshText (familyId : String) :
    getRefreshToken (depth + 1) (some (refreshText userId time familyId)) =
      .ok (some ⟨userId, time, str familyId⟩) := by
  have hflat : ∀ m ∈ [("user_id", Value.str (uuidText userId)),
      ("issued_at", .str (isoformat time)), ("family_id", .str (str familyId))], Flat m.2 := by
    simp only [List.forall_mem_cons]
    exact ⟨plainStr_uuidText userId, plainStr_isoformat time, plainStr_str familyId,
      fun _ h => absurd h List.not_mem_nil⟩
  rw [getRefreshToken, refreshText]
  refine readValue_dump hflat (by simp) ?_ depth
  rw [getUuid_eq rfl, getDatetime_eq rfl, getText_eq rfl]
  rfl

theorem consumeOauthState_oauthStateText (redirectTo codeVerifier nonce : String) :
    consumeOauthState (depth + 1) (some (oauthStateText redirectTo codeVerifier nonce time)) =
      .ok (some ⟨str redirectTo, str codeVerifier, str nonce, time⟩) := by
  have hflat : ∀ m ∈ [("redirect_to", Value.str (str redirectTo)),
      ("code_verifier", .str (str codeVerifier)), ("nonce", .str (str nonce)),
      ("created_at", .str (isoformat time))], Flat m.2 := by
    simp only [List.forall_mem_cons]
    exact ⟨plainStr_str redirectTo, plainStr_str codeVerifier, plainStr_str nonce,
      plainStr_isoformat time, fun _ h => absurd h List.not_mem_nil⟩
  rw [consumeOauthState, oauthStateText]
  refine readValue_dump hflat (by simp) ?_ depth
  rw [getText_eq rfl, getText_eq rfl, getText_eq rfl, getDatetime_eq rfl]
  rfl

theorem consumeOauthHandoff_oauthHandoffText (redirectTo : String) :
    consumeOauthHandoff (depth + 1) (some (oauthHandoffText userId redirectTo time)) =
      .ok (some ⟨userId, str redirectTo, time⟩) := by
  have hflat : ∀ m ∈ [("user_id", Value.str (uuidText userId)),
      ("redirect_to", .str (str redirectTo)), ("created_at", .str (isoformat time))],
      Flat m.2 := by
    simp only [List.forall_mem_cons]
    exact ⟨plainStr_uuidText userId, plainStr_str redirectTo, plainStr_isoformat time,
      fun _ h => absurd h List.not_mem_nil⟩
  rw [consumeOauthHandoff, oauthHandoffText]
  refine readValue_dump hflat (by simp) ?_ depth
  rw [getUuid_eq rfl, getText_eq rfl, getDatetime_eq rfl]
  rfl

theorem consumeEmailVerifyToken_emailVerifyText :
    consumeEmailVerifyToken (depth + 1) (some (emailVerifyText userId time)) =
      .ok (some userId) := by
  have hflat : ∀ m ∈ [("user_id", Value.str (uuidText userId)),
      ("requested_at", .str (isoformat time))], Flat m.2 := by
    simp only [List.forall_mem_cons]
    exact ⟨plainStr_uuidText userId, plainStr_isoformat time,
      fun _ h => absurd h List.not_mem_nil⟩
  rw [consumeEmailVerifyToken, emailVerifyText]
  refine readTruthy_dump hflat (by simp) (by simp) ?_ depth
  exact getUuid_eq rfl

end Readers

/-- Every record is read back as it was written, whatever its texts are: quotes, controls, line
separators and characters outside the basic plane in a redirect target or a token do no harm. -/
theorem records_round_trip (depth : ℕ) (userId : Uuid) (time : DateTime) :
    (∀ ip, getSession (depth + 1) (some (sessionText userId time ip)) =
      .ok (some ⟨userId, time, optional ip⟩)) ∧
    (∀ token, getCsrfToken (depth + 1) (some (csrfText token)) = .ok (some (.str (str token)))) ∧
    (∀ familyId, getRefreshToken (depth + 1) (some (refreshText userId time familyId)) =
      .ok (some ⟨userId, time, str familyId⟩)) ∧
    (∀ redirectTo codeVerifier nonce,
      consumeOauthState (depth + 1) (some (oauthStateText redirectTo codeVerifier nonce time)) =
        .ok (some ⟨str redirectTo, str codeVerifier, str nonce, time⟩)) ∧
    (∀ redirectTo,
      consumeOauthHandoff (depth + 1) (some (oauthHandoffText userId redirectTo time)) =
        .ok (some ⟨userId, str redirectTo, time⟩)) ∧
    consumeEmailVerifyToken (depth + 1) (some (emailVerifyText userId time)) =
      .ok (some userId) :=
  ⟨getSession_sessionText depth userId time, getCsrfToken_csrfText depth,
    getRefreshToken_refreshText depth userId time, consumeOauthState_oauthStateText depth time,
    consumeOauthHandoff_oauthHandoffText depth userId time,
    consumeEmailVerifyToken_emailVerifyText depth userId time⟩

/-! ### Keys -/

theorem uuidText_injective : Function.Injective uuidText := by
  intro u v h
  have hread := parseUuid_uuidText u
  rw [h, parseUuid_uuidText] at hread
  exact (Option.some.inj hread).symm

theorem digestText_injective : Function.Injective digestText := by
  intro d e h
  have hlt (d : Digest) : (d : ℕ) < 16 ^ 64 := by
    rw [show (16 : ℕ) ^ 64 = 2 ^ 256 by norm_num]
    exact d.isLt
  exact Fin.ext (fixed_injective (by omega) (by omega) (hlt d) (hlt e) h)

theorem colon_notMem_uuidText (u : Uuid) : 58 ∉ uuidText u := not_mem_uuidText (by decide)

theorem colon_notMem_digestText (d : Digest) : 58 ∉ digestText d := by
  intro h
  obtain ⟨x, hx, hcolon⟩ := mem_fixed (by omega) h
  exact hexChar_ne hx (by decide) hcolon.symm

/-- A text before the first colon is determined. -/
theorem append_colon_inj {s₁ s₂ t₁ t₂ : Str} (hs₁ : 58 ∉ s₁) (hs₂ : 58 ∉ s₂)
    (h : s₁ ++ 58 :: t₁ = s₂ ++ 58 :: t₂) : s₁ = s₂ ∧ t₁ = t₂ := by
  induction s₁ generalizing s₂ with
  | nil =>
    cases s₂ with
    | nil => exact ⟨rfl, List.tail_eq_of_cons_eq h⟩
    | cons c s₂ => exact absurd (List.head_eq_of_cons_eq h ▸ List.mem_cons_self) hs₂
  | cons c s₁ ih =>
    cases s₂ with
    | nil => exact absurd ((List.head_eq_of_cons_eq h).symm ▸ List.mem_cons_self) hs₁
    | cons d s₂ =>
      obtain ⟨rfl, hst⟩ := List.cons.inj h
      have hboth := ih (fun hc => hs₁ (List.mem_cons_of_mem _ hc))
        (fun hc => hs₂ (List.mem_cons_of_mem _ hc)) hst
      exact ⟨congrArg _ hboth.1, hboth.2⟩

/-- A text after the last colon is determined. -/
theorem append_colon_inj_right {s₁ s₂ t₁ t₂ : Str} (ht₁ : 58 ∉ t₁) (ht₂ : 58 ∉ t₂)
    (h : s₁ ++ 58 :: t₁ = s₂ ++ 58 :: t₂) : s₁ = s₂ ∧ t₁ = t₂ := by
  have hrev := congrArg List.reverse h
  simp only [List.reverse_append, List.reverse_cons, List.append_assoc, List.singleton_append]
    at hrev
  have hboth := append_colon_inj (by rwa [List.mem_reverse]) (by rwa [List.mem_reverse]) hrev
  exact ⟨List.reverse_injective hboth.2, List.reverse_injective hboth.1⟩

theorem StoreKey.colon_notMem_name (k : StoreKey) : 58 ∉ str k.name := by
  rcases k with (_ | _ | _) | (_ | _ | _) | _ | (_ | _ | _) | (_ | _) | _ | (_ | _) | _ | _
  all_goals
    simp only [StoreKey.name]
    decide

theorem StoreKey.text_eq (pre : Str) (k : StoreKey) :
    k.text pre = pre ++ (str k.name ++ 58 :: joinColons k.parts) := by
  rcases k with (_ | _ | _) | (_ | _ | _) | _ | (_ | _ | _) | (_ | _) | _ | (_ | _) | _ | _
  all_goals rfl

attribute [local irreducible] digestText

/-- The parts of the keys of one name determine the key. -/
theorem StoreKey.eq_of_name_eq {k k' : StoreKey} (hname : k.name = k'.name)
    (hparts : joinColons k.parts = joinColons k'.parts) : k = k' := by
  have hfamily {u u' : Uuid} {f f' : String}
      (h : uuidText u ++ 58 :: str f = uuidText u' ++ 58 :: str f') : u = u' ∧ f = f' := by
    have hboth := append_colon_inj (colon_notMem_uuidText u) (colon_notMem_uuidText u') h
    exact ⟨uuidText_injective hboth.1, str_injective hboth.2⟩
  -- A scope may hold colons, so that the digest is found from the end.
  have hscope {c c' : String} {d d' : Digest}
      (h : str c ++ 58 :: digestText d = str c' ++ 58 :: digestText d') : c = c' ∧ d = d' := by
    have hboth := append_colon_inj_right (colon_notMem_digestText d) (colon_notMem_digestText d') h
    exact ⟨str_injective hboth.1, digestText_injective hboth.2⟩
  rcases k with (_ | _ | _) | (_ | _ | _) | _ | (_ | _ | _) | (_ | _) | _ | (_ | _) | _ | _ <;>
  rcases k' with (_ | _ | _) | (_ | _ | _) | _ | (_ | _ | _) | (_ | _) | _ | (_ | _) | _ | _ <;>
  simp only [StoreKey.name, String.reduceEq] at hname
  all_goals
    simp only [StoreKey.parts, joinColons, str_injective.eq_iff, uuidText_injective.eq_iff,
      digestText_injective.eq_iff] at hparts
    first
      | rw [hparts]
      | rw [(hfamily hparts).1, (hfamily hparts).2]
      | rw [(hscope hparts).1, (hscope hparts).2]

/-- Different keys have different texts, under every prefix. -/
theorem key_injective (pre : Str) : Function.Injective (StoreKey.text pre) := by
  intro k k' h
  rw [StoreKey.text_eq, StoreKey.text_eq] at h
  have hboth := append_colon_inj k.colon_notMem_name k'.colon_notMem_name
    (List.append_cancel_left h)
  exact StoreKey.eq_of_name_eq (str_injective hboth.1) hboth.2

/-- The scripts make the texts of the keys on their own, of the texts in the records; they are the
keys of the other functions. -/
theorem script_keys (pre : Str) (u : Uuid) (h : Digest) (f : String) :
    scriptFamilyKey pre (uuidText u) (str f) =
      (StoreKey.refreshTokens (.refreshFamilyRevoked u f)).text pre ∧
    scriptKey pre "user_refresh:" (uuidText u) = (StoreKey.userRefresh u).text pre ∧
    scriptKey pre "pwreset:" (digestText h) = (StoreKey.passwordReset (.pwreset h)).text pre ∧
    scriptKey pre "pwreset_current:" (uuidText u) =
      (StoreKey.passwordReset (.pwresetCurrent u)).text pre ∧
    scriptKey pre "pwreset_consumed:" (uuidText u) =
      (StoreKey.passwordReset (.pwresetConsumed u)).text pre := by
  have hcolon (name : String) (s : Str) : str (name ++ ":") ++ s = str name ++ 58 :: s := by
    simp [str]
  refine ⟨?_, ?_, ?_, ?_, ?_⟩
  · rw [StoreKey.text_eq]
    exact congrArg (pre ++ ·) (hcolon "refresh_family_revoked" _)
  · rw [StoreKey.text_eq]
    exact congrArg (pre ++ ·) (hcolon "user_refresh" _)
  · rw [StoreKey.text_eq]
    exact congrArg (pre ++ ·) (hcolon "pwreset" _)
  · rw [StoreKey.text_eq]
    exact congrArg (pre ++ ·) (hcolon "pwreset_current" _)
  · rw [StoreKey.text_eq]
    exact congrArg (pre ++ ·) (hcolon "pwreset_consumed" _)

end Records

import TaskManagement.Frontend.RegisterForm
import TaskManagement.Frontend.Equiv.DateTime
import TaskManagement.ReadCommitted.Alone
import TaskManagement.UrlQuote
import TaskManagement.Users.Equiv.Directory

/-!
# The registration form and the registration request

The form checks its texts in code units of UTF-16, the request in code points; the form trims the
names, takes the date from three pulldowns and compares it with the clock of the browser.

* `registered_as_typed`: what the form accepts is a request, and its validators leave two questions
  to it, the format of the e-mail and the date of today; the row that a valid request writes has the
  values that were typed, and passes the constraints of the table;
* `form_accepts_iff`: with the settings of the backend, the form accepts what the request accepts,
  but for the check of the e-mail by zod, the clock of the browser, and names with more than 30 code
  units.
-/

namespace RegisterForm

open DateTime (lastDigits takeDigits takeChar toDigits_eq_lastDigits takeDigits_eq_some
  takeChar_eq_some)
open Gregorian
open ReadCommitted (EndsAlone Solo Store)
open TaskDb (Uuid varchar_of_length_le)
open UserDirectory (Db Env Matches usernamePattern kanaPattern emailPattern passwordCategories
  RegisterRequest User newUser storedProfile checkUser taroEnv)

variable {config : AuthValidationConfig} {isEmail : String → Bool} {browser : Browser}
  {values v : RegisterFormValues} {env : Env} {today : ℤ} {s : String}

/-! ### Lengths -/

theorem one_le_codeUnits (c : Char) : 1 ≤ codeUnits c := by
  unfold codeUnits
  split_ifs <;> omega

theorem length_le_sum_codeUnits (l : List Char) : l.length ≤ (l.map codeUnits).sum := by
  induction l with
  | nil => exact le_rfl
  | cons c l ih =>
    have hc := one_le_codeUnits c
    rw [List.length_cons, List.map_cons, List.sum_cons]
    omega

theorem sum_codeUnits_eq_length {l : List Char} (hl : ∀ c ∈ l, c.toNat < 0x10000) :
    (l.map codeUnits).sum = l.length := by
  induction l with
  | nil => rfl
  | cons c l ih =>
    have hc : codeUnits c = 1 := if_pos (hl c List.mem_cons_self)
    have hrest := ih fun d hd => hl d (List.mem_cons_of_mem c hd)
    rw [List.length_cons, List.map_cons, List.sum_cons, hc, hrest, Nat.add_comm]

theorem length_le_utf16Length (s : String) : s.length ≤ utf16Length s :=
  length_le_sum_codeUnits s.toList

/-- A text of the basic plane has as many code units as characters. -/
theorem utf16Length_eq_length (hs : ∀ c ∈ s.toList, c.toNat < 0x10000) :
    utf16Length s = s.length :=
  sum_codeUnits_eq_length hs

theorem one_le_utf16Length_iff : 1 ≤ utf16Length s ↔ 1 ≤ s.length := by
  refine ⟨fun h => ?_, fun h => h.trans (length_le_utf16Length s)⟩
  by_contra hlt
  have hnil : s.toList = [] := List.length_eq_zero_iff.mp (Nat.lt_one_iff.mp (not_le.mp hlt))
  rw [utf16Length, hnil] at h
  exact absurd h (by decide)

/-- The characters of a pattern of the basic plane have one code unit each. -/
theorem utf16Length_of_matches {pattern : List (Pattern.Part Char)}
    (hpattern : ∀ p ∈ pattern, ∀ c, p.set c = true → c.toNat < 0x10000)
    (h : Matches pattern s) : utf16Length s = s.length := by
  refine utf16Length_eq_length fun c hc => ?_
  obtain ⟨p, hp, hset⟩ := Pattern.exists_part_of_mem h hc
  exact hpattern p hp c hset

theorem lt_of_isAlphanum {c : Char} (h : c.isAlphanum = true) : c.toNat < 0x10000 :=
  (Urllib.lt_of_isAlphanum h).trans (by decide)

theorem utf16Length_username (h : Matches usernamePattern s) : utf16Length s = s.length := by
  refine utf16Length_of_matches (fun p hp c hc => ?_) h
  obtain rfl := List.mem_singleton.mp hp
  simp only [Pattern.Part.atLeast, Bool.or_eq_true, beq_iff_eq] at hc
  rcases hc with (hc | rfl) | rfl
  · exact lt_of_isAlphanum hc
  · decide
  · decide

theorem utf16Length_email (h : Matches emailPattern s) : utf16Length s = s.length := by
  refine utf16Length_of_matches (fun p hp c hc => ?_) h
  simp only [emailPattern, List.mem_cons, List.not_mem_nil, or_false] at hp
  rcases hp with rfl | rfl | rfl | rfl | rfl
  · simp only [Pattern.Part.atLeast, Bool.or_eq_true, beq_iff_eq] at hc
    rcases hc with (((hc | rfl) | rfl) | rfl) | rfl
    · exact lt_of_isAlphanum hc
    all_goals decide
  · obtain rfl := beq_iff_eq.mp hc
    decide
  · simp only [Pattern.Part.atLeast, Bool.or_eq_true, beq_iff_eq] at hc
    rcases hc with (hc | rfl) | rfl
    · exact lt_of_isAlphanum hc
    all_goals decide
  · obtain rfl := beq_iff_eq.mp hc
    decide
  · have halpha : c.isAlpha = true := hc
    exact lt_of_isAlphanum (by rw [Char.isAlphanum, halpha, Bool.true_or])

theorem utf16Length_kana (h : Matches kanaPattern s) : utf16Length s = s.length := by
  refine utf16Length_of_matches (fun p hp c hc => ?_) h
  obtain rfl := List.mem_singleton.mp hp
  have hle {c d : Char} (hcd : c ≤ d) : c.toNat ≤ d.toNat := hcd
  simp only [Pattern.Part.atLeast, Bool.or_eq_true, Bool.and_eq_true, decide_eq_true_eq,
    beq_iff_eq] at hc
  rcases hc with ((⟨-, hc⟩ | ⟨-, hc⟩) | rfl) | hc
  · exact (hle hc).trans_lt (by decide)
  · exact (hle hc).trans_lt (by decide)
  · decide
  · exact lt_of_isAlphanum (by rw [Char.isAlphanum, hc, Bool.or_true])

/-! ### The checks of the form -/

@[simp] theorem check_eq_nil_iff {ok : Prop} [Decidable ok] {field : String}
    {message : Option String} : check ok field message = [] ↔ ok := by
  unfold check
  split_ifs with h
  · exact iff_of_true rfl h
  · exact iff_of_false id h

/-- The length of a name. -/
def NameFits (config : AuthValidationConfig) (name : String) : Prop :=
  1 ≤ utf16Length name ∧ utf16Length name ≤ config.userNameMaxLength

/-- What the values have to satisfy. -/
structure Accepts (config : AuthValidationConfig) (isEmail : String → Bool) (browser : Browser)
    (v : RegisterFormValues) : Prop where
  lastName : NameFits config v.lastName
  firstName : NameFits config v.firstName
  lastNameKana : NameFits config v.lastNameKana ∧ Matches kanaPattern v.lastNameKana
  firstNameKana : NameFits config v.firstNameKana ∧ Matches kanaPattern v.firstNameKana
  birthParts : v.birthYear ≠ none ∧ v.birthMonth ≠ none ∧ v.birthDay ≠ none
  email : utf16Length v.email ≤ 254 ∧ isEmail v.email = true
  username : 3 ≤ utf16Length v.username ∧ utf16Length v.username ≤ 50 ∧
    Matches usernamePattern v.username
  password : (config.passwordMinLength ≤ v.password.length ∧ 2 ≤ passwordCategories v.password) ∧
    v.password.length ≤ config.passwordMaxLength
  passwordConfirm : v.passwordConfirm.length ≤ config.passwordMaxLength ∧
    v.passwordConfirm = v.password
  birthDate : isValidBirthDate browser v.birthYear v.birthMonth v.birthDay = true

theorem schemaIssues_eq_nil_iff :
    schemaIssues config isEmail browser v = [] ↔ Accepts config isEmail browser v := by
  simp only [schemaIssues, nameField, kanaField, selectField, emailSchema, usernameField,
    passwordField, passwordMaxCheck, superRefine, List.append_eq_nil_iff, check_eq_nil_iff]
  constructor
  · rintro ⟨⟨⟨⟨⟨⟨⟨⟨⟨⟨⟨h₁, h₂⟩, h₃⟩, h₄⟩, h₅⟩, h₆⟩, h₇⟩, h₈⟩, h₉⟩, h₁₀⟩, h₁₁⟩, h₁₂⟩
    exact ⟨h₁, h₂, h₃, h₄, ⟨h₅, h₆, h₇⟩, h₈, ⟨h₉.1.1, h₉.1.2, h₉.2⟩, h₁₀, ⟨h₁₁, h₁₂.1⟩, h₁₂.2⟩
  · rintro ⟨h₁, h₂, h₃, h₄, ⟨h₅, h₆, h₇⟩, h₈, ⟨h₉, h₉', h₉''⟩, h₁₀, ⟨h₁₁, h₁₂⟩, h₁₃⟩
    exact ⟨⟨⟨⟨⟨⟨⟨⟨⟨⟨⟨h₁, h₂⟩, h₃⟩, h₄⟩, h₅⟩, h₆⟩, h₇⟩, h₈⟩, ⟨h₉, h₉'⟩, h₉''⟩, h₁₀⟩, h₁₁⟩, h₁₂, h₁₃⟩

/-- The form submits the trimmed values when it accepts them. -/
theorem registerResolver_eq_ok_iff : registerResolver config isEmail browser values = .ok v ↔
    v = trimmed values ∧ Accepts config isEmail browser v := by
  unfold registerResolver
  split
  · rename_i hissues
    rw [schemaIssues_eq_nil_iff] at hissues
    constructor
    · intro h
      obtain rfl := Except.ok.inj h
      exact ⟨rfl, hissues⟩
    · rintro ⟨rfl, -⟩
      rfl
  · rename_i hissues
    refine iff_of_false nofun ?_
    rintro ⟨rfl, h⟩
    exact hissues (schemaIssues_eq_nil_iff.mpr h)

/-! ### The birth date -/

section BirthDate

variable {y m d : ℕ}

theorem toList_optionText (n : ℕ) : (optionText (some n)).toList = Nat.toDigits 10 n := by
  show (toString n).toList = _
  rw [Nat.toString_eq_repr, Nat.toList_repr]

theorem toList_padStart (hm : m < 100) :
    (padStart 2 (optionText (some m))).toList = lastDigits 2 m := by
  rw [padStart, String.toList_ofList, toList_optionText]
  by_cases h : m < 10
  · rw [Nat.toDigits_of_lt_base h]
    simp only [lastDigits, Nat.mod_eq_of_lt h, Nat.div_eq_of_lt h]
    rfl
  · have hdigits : Nat.toDigits 10 m = lastDigits 2 m :=
      toDigits_eq_lastDigits (w := 1) (by omega) (by omega)
    have hlength : (lastDigits 2 m).length = 2 := DateTime.length_lastDigits 2 m
    rw [hdigits, hlength]
    rfl

/-- The date that the form sends is read as the day that it names. -/
theorem parseDate_birthDate (hy : 1000 ≤ y ∧ y ≤ 9999) (hm : 1 ≤ m ∧ m ≤ 12)
    (hd : 1 ≤ d ∧ (d : ℤ) ≤ daysInMonth y m) (hv : v.birthYear = some y)
    (hv' : v.birthMonth = some m) (hv'' : v.birthDay = some d) :
    parseDate (toSubmitPayload v).birthDate = some (makeDay y m d) := by
  have hd31 : (d : ℤ) ≤ 31 := hd.2.trans (daysInMonth_le ⟨by omega, by omega⟩)
  have hlist : (toSubmitPayload v).birthDate.toList =
      lastDigits 4 y ++ '-' :: (lastDigits 2 m ++ '-' :: (lastDigits 2 d ++ [])) := by
    have hyear : Nat.toDigits 10 y = lastDigits 4 y :=
      toDigits_eq_lastDigits (w := 3) (by omega) (by omega)
    simp only [toSubmitPayload, hv, hv', hv'', String.toList_append, toList_optionText, hyear,
      toList_padStart (show m < 100 by omega), toList_padStart (show d < 100 by omega),
      List.append_assoc, List.append_nil]
    rfl
  have hyear : takeDigits 4 (toSubmitPayload v).birthDate.toList = some ((y : ℤ), _) :=
    takeDigits_eq_some.mpr ⟨y, by omega, rfl, hlist⟩
  have hmonth (cs : List Char) : takeDigits 2 (lastDigits 2 m ++ cs) = some ((m : ℤ), cs) :=
    takeDigits_eq_some.mpr ⟨m, by omega, rfl, rfl⟩
  have hday (cs : List Char) : takeDigits 2 (lastDigits 2 d ++ cs) = some ((d : ℤ), cs) :=
    takeDigits_eq_some.mpr ⟨d, by omega, rfl, rfl⟩
  have hdash (cs : List Char) : takeChar '-' ('-' :: cs) = some cs := takeChar_eq_some.mpr rfl
  unfold parseDate
  simp only [hyear, hmonth, hday, hdash, Option.bind_eq_bind, Option.bind_some]
  refine if_pos ⟨rfl, by omega, by omega, by omega, by omega, hd.2⟩

/-- The parts of a birth date that the form accepts are those of a day. -/
theorem isValidBirthDate_bounds
    (h : isValidBirthDate browser (some y) v.birthMonth v.birthDay = true) :
    (1 ≤ number v.birthMonth ∧ number v.birthMonth ≤ 12) ∧
      1 ≤ number v.birthDay ∧ number v.birthDay ≤ daysInMonth y (number v.birthMonth) := by
  unfold isValidBirthDate at h
  dsimp only at h
  split at h
  · cases h
  · rename_i date hdate
    obtain ⟨⟨hyear, hmonth, hday⟩, -⟩ := of_decide_eq_true h
    have hvalid : (localFields browser date).Valid := fieldsOf_valid _
    obtain ⟨hm, hd, -, -⟩ := hvalid
    rw [hyear, show (localFields browser date).month = number v.birthMonth by omega, hday] at hd
    exact ⟨by omega, hd⟩

theorem exists_of_one_le_number {part : Option ℕ} (h : 1 ≤ number part) : ∃ n, part = some n := by
  cases part with
  | none => exact absurd h (by decide)
  | some n => exact ⟨n, rfl⟩

/-- Without a year the date is not read. -/
theorem parseDate_eq_none (hv : v.birthYear = none) :
    parseDate (toSubmitPayload v).birthDate = none := by
  have hcs : (toSubmitPayload v).birthDate.toList =
      '-' :: (padStart 2 (optionText v.birthMonth) ++ "-" ++
        padStart 2 (optionText v.birthDay)).toList := by
    simp only [toSubmitPayload, hv, String.toList_append, List.append_assoc]
    rfl
  have hyear : takeDigits 4 (toSubmitPayload v).birthDate.toList = none := by
    rw [hcs, takeDigits]
    exact if_neg fun hall => absurd hall.2 Bool.false_ne_true
  unfold parseDate
  rw [hyear]
  rfl

end BirthDate

/-! ### The request -/

/-- The request with the texts of the values and a birth date. -/
def request (v : RegisterFormValues) (birthDate : ℤ) : RegisterRequest where
  username := v.username
  email := v.email
  password := v.password
  passwordConfirm := v.passwordConfirm
  lastName := v.lastName
  firstName := v.firstName
  lastNameKana := v.lastNameKana
  firstNameKana := v.firstNameKana
  birthDate := birthDate

theorem parseRequest_eq_some_iff {r : RegisterRequest} :
    parseRequest (toSubmitPayload v) = some r ↔
      ∃ birthDate, parseDate (toSubmitPayload v).birthDate = some birthDate ∧
        r = request v birthDate := by
  unfold parseRequest
  simp only [Option.bind_eq_bind, Option.bind_eq_some_iff]
  constructor
  · rintro ⟨birthDate, hdate, hr⟩
    exact ⟨birthDate, hdate, (Option.some.inj hr).symm⟩
  · rintro ⟨birthDate, hdate, rfl⟩
    exact ⟨birthDate, hdate, rfl⟩

/-- A name that fits in code units fits in characters. -/
theorem NameFits.length {name : String} (h : NameFits config name)
    (hname : config.userNameMaxLength ≤ 30) : 1 ≤ name.length ∧ name.length ≤ 30 :=
  ⟨one_le_utf16Length_iff.mp h.1, (length_le_utf16Length name).trans (h.2.trans hname)⟩

/-- The validators leave the e-mail and the date of today to what the form accepts. -/
theorem Accepts.valid_iff (h : Accepts config isEmail browser v) {birthDate : ℤ}
    (hname : config.userNameMaxLength ≤ 30) (hmin : 8 ≤ config.passwordMinLength)
    (hmax : config.passwordMaxLength ≤ env.passwordMaxLength) :
    (request v birthDate).Valid env today ↔ Matches emailPattern v.email ∧ birthDate ≤ today := by
  constructor
  · rintro ⟨-, hemail, -, -, -, -, -, -, -, hdate⟩
    exact ⟨hemail.2, hdate⟩
  · rintro ⟨hemail, hdate⟩
    obtain ⟨hlo, hhi, husername⟩ := h.username
    rw [utf16Length_username husername] at hlo hhi
    have hmail : v.email.length ≤ 254 := (length_le_utf16Length _).trans h.email.1
    obtain ⟨⟨hpmin, hcategories⟩, hpmax⟩ := h.password
    obtain ⟨hcmax, hconfirm⟩ := h.passwordConfirm
    obtain ⟨hlk, hlkana⟩ := h.lastNameKana
    obtain ⟨hfk, hfkana⟩ := h.firstNameKana
    have hlk := hlk.length hname
    have hfk := hfk.length hname
    exact ⟨⟨hlo, hhi, husername⟩, ⟨hmail, hemail⟩,
      ⟨hmin.trans hpmin, hcategories, hpmax.trans hmax⟩, hcmax.trans hmax, h.lastName.length hname,
      h.firstName.length hname, ⟨hlk.1, hlk.2, hlkana⟩, ⟨hfk.1, hfk.2, hfkana⟩, hconfirm.symm,
      hdate⟩

/-- What a valid request lacks to be accepted by a form with the settings of the backend. -/
theorem accepts_of_valid {birthDate : ℤ} (h : (request v birthDate).Valid env today)
    (hmail : isEmail v.email = true)
    (hparts : v.birthYear ≠ none ∧ v.birthMonth ≠ none ∧ v.birthDay ≠ none)
    (hdate : isValidBirthDate browser v.birthYear v.birthMonth v.birthDay = true)
    (hlast : utf16Length v.lastName ≤ 30) (hfirst : utf16Length v.firstName ≤ 30) :
    Accepts ⟨30, 8, env.passwordMaxLength⟩ isEmail browser v := by
  obtain ⟨⟨hlo, hhi, husername⟩, ⟨hemail, hformat⟩, ⟨hpmin, hcategories, hpmax⟩, hcmax, ⟨hl, -⟩,
    ⟨hf, -⟩, ⟨hlk, hlk', hlkana⟩, ⟨hfk, hfk', hfkana⟩, hconfirm, -⟩ := h
  rw [← utf16Length_username husername] at hlo hhi
  rw [← utf16Length_email hformat] at hemail
  rw [← utf16Length_kana hlkana] at hlk hlk'
  rw [← utf16Length_kana hfkana] at hfk hfk'
  exact ⟨⟨one_le_utf16Length_iff.mpr hl, hlast⟩, ⟨one_le_utf16Length_iff.mpr hf, hfirst⟩,
    ⟨⟨hlk, hlk'⟩, hlkana⟩, ⟨⟨hfk, hfk'⟩, hfkana⟩, hparts, ⟨hemail, hmail⟩,
    ⟨hlo, hhi, husername⟩, ⟨⟨hpmin, hcategories⟩, hpmax⟩, ⟨hcmax, hconfirm.symm⟩, hdate⟩

/-- What the form accepts is a request for the day that was selected. -/
theorem Accepts.parseRequest_eq (h : Accepts config isEmail browser v)
    (hyear : ∀ y ∈ v.birthYear, 1000 ≤ y ∧ y ≤ 9999) :
    ∃ y m d : ℕ, v.birthYear = some y ∧ v.birthMonth = some m ∧ v.birthDay = some d ∧
      parseRequest (toSubmitPayload v) = some (request v (makeDay y m d)) := by
  obtain ⟨hy, hm, hd⟩ := h.birthParts
  obtain ⟨y, hy⟩ := Option.ne_none_iff_exists'.mp hy
  obtain ⟨m, hm⟩ := Option.ne_none_iff_exists'.mp hm
  obtain ⟨d, hd⟩ := Option.ne_none_iff_exists'.mp hd
  have hdate := h.birthDate
  rw [hy] at hdate
  obtain ⟨hmonth, hday⟩ := isValidBirthDate_bounds hdate
  simp only [hm, hd, number, Option.getD_some] at hmonth hday
  refine ⟨y, m, d, hy, hm, hd, parseRequest_eq_some_iff.mpr ⟨_, ?_, rfl⟩⟩
  exact parseDate_birthDate (hyear y hy) ⟨by omega, by omega⟩ ⟨by omega, hday.2⟩ hy hm hd

/-! ### From the form to the table -/

/-- The row that `register` leaves: `sp_register_user`, then `sp_update_user_profile`. -/
def registeredRow (env : Env) (r : RegisterRequest) (salt : ℕ) : User :=
  { newUser r.username r.email (some (env.hashPassword r.password salt)) with
    profile := storedProfile r.profile }

theorem solo_oneOrNone {rows : List (Uuid × User)} {db : Db} :
    Solo UserDirectory.schema (fun _ => True) (UserDirectory.oneOrNone rows) db
      fun _ db' => db' = db := by
  match rows with
  | [] => exact Solo.ret rfl
  | [_] => exact Solo.ret rfl
  | _ :: _ :: _ => exact Solo.throw trivial

/-- A registration that commits has inserted the row, when it runs alone. -/
theorem row_of_register {r : RegisterRequest} {salt : ℕ} {userId : Uuid} {db db' : Db}
    (h : EndsAlone UserDirectory.schema (UserDirectory.register env r salt) db (.ok userId) db') :
    db'.row (.user userId) = some (registeredRow env r salt) := by
  have hsolo : Solo UserDirectory.schema (fun _ => True) (UserDirectory.register env r salt) db
      fun id db' => db'.row (.user id) = some (registeredRow env r salt) := by
    refine Solo.bind (Solo.bind (Solo.select (Solo.mono solo_oneOrNone ?_)))
    rintro sameName _ rfl
    refine Solo.bind (Solo.raiseIf (fun _ => trivial) fun _ => ?_)
    refine Solo.bind (Solo.bind (Solo.select (Solo.mono solo_oneOrNone ?_)))
    rintro sameEmail _ rfl
    refine Solo.bind (Solo.raiseIf (fun _ => trivial) fun _ => Solo.bind ?_)
    -- `sp_register_user`
    refine Solo.bind (Solo.select (Solo.bind (Solo.raiseIf (fun _ => trivial) fun _ => ?_)))
    refine Solo.bind (Solo.select (Solo.bind (Solo.raiseIf (fun _ => trivial) fun _ => ?_)))
    refine Solo.bind (Solo.generate fun id _ => Solo.bind (Solo.bind ?_))
    refine Solo.insertOrRaise (fun _ => trivial) (fun _ _ => trivial) fun _ => Solo.bind ?_
    refine Solo.insertOrRaise (fun _ => trivial) (fun _ _ => trivial) fun _ => ?_
    refine Solo.insertOrRaise (fun _ => trivial) (fun _ _ => trivial) fun _ => Solo.ret ?_
    -- `sp_update_user_profile`
    refine Solo.bind (Solo.bind (Solo.update (fun _ _ _ _ _ _ _ => trivial) ?_))
    intro s' hupdated _
    refine Solo.ret (Solo.ret ?_)
    rw [hupdated, Store.set_row_of_ne _ _ (by simp), Store.set_row_of_ne _ _ (by simp),
      Store.set_row_self, Option.bind_some]
    show (if id = id then some (some _) else none).getD _ = _
    rw [if_pos rfl]
    rfl
  exact (h.ok hsolo).1

/-- The row with the values that were typed: names without white space around them. -/
def typedRow (env : Env) (values : RegisterFormValues) (birthDate : ℤ) (salt : ℕ) : User where
  username := values.username
  email := values.email
  passwordHash := some (env.hashPassword values.password salt)
  profile :=
    { lastName := some (trim values.lastName)
      firstName := some (trim values.firstName)
      lastNameKana := some (trim values.lastNameKana)
      firstNameKana := some (trim values.firstNameKana)
      birthDate := some birthDate }

theorem registeredRow_of_valid {birthDate : ℤ} {salt : ℕ}
    (h : (request (trimmed values) birthDate).Valid env today) :
    registeredRow env (request (trimmed values) birthDate) salt =
      typedRow env values birthDate salt := by
  obtain ⟨⟨-, husername, -⟩, ⟨hemail, -⟩, -, -, ⟨-, hlast⟩, ⟨-, hfirst⟩, ⟨-, hlastKana, -⟩,
    ⟨-, hfirstKana, -⟩, -, -⟩ := h
  simp only [registeredRow, newUser, storedProfile, RegisterRequest.profile, Option.map_some,
    varchar_of_length_le husername, varchar_of_length_le hemail, varchar_of_length_le hlast,
    varchar_of_length_le hfirst, varchar_of_length_le hlastKana, varchar_of_length_le hfirstKana]
  rfl

/-- **Registered as typed.**  What the form accepts is a request, and it is valid exactly if the
e-mail has the format of the backend and the birth date is not after its today.  The row that a
valid request commits has the values that were typed, and passes the constraints of `users`. -/
theorem registered_as_typed (hname : config.userNameMaxLength ≤ 30)
    (hmin : 8 ≤ config.passwordMinLength)
    (hmax : config.passwordMaxLength ≤ env.passwordMaxLength)
    (hyear : ∀ y ∈ values.birthYear, 1000 ≤ y ∧ y ≤ 9999)
    (h : registerResolver config isEmail browser values = .ok v) :
    ∃ (r : RegisterRequest) (y m d : ℕ), parseRequest (toSubmitPayload v) = some r ∧
      values.birthYear = some y ∧ values.birthMonth = some m ∧ values.birthDay = some d ∧
      (r.Valid env today ↔ Matches emailPattern values.email ∧ makeDay y m d ≤ today) ∧
      (r.Valid env today → ∀ salt, checkUser (registeredRow env r salt) = none ∧
        registeredRow env r salt = typedRow env values (makeDay y m d) salt ∧
        ∀ db userId db', EndsAlone UserDirectory.schema (UserDirectory.register env r salt) db
            (.ok userId) db' →
          db'.row (.user userId) = some (typedRow env values (makeDay y m d) salt)) := by
  obtain ⟨rfl, haccepts⟩ := registerResolver_eq_ok_iff.mp h
  obtain ⟨y, m, d, hy, hm, hd, hparse⟩ := haccepts.parseRequest_eq hyear
  refine ⟨_, y, m, d, hparse, hy, hm, hd, haccepts.valid_iff hname hmin hmax, fun hvalid salt => ?_⟩
  refine ⟨hvalid.checkUser_eq_none _, registeredRow_of_valid hvalid, fun db userId db' hend => ?_⟩
  rw [← registeredRow_of_valid hvalid]
  exact row_of_register hend

/-- A form that is filled in, with white space after the first name. -/
def filledForm : RegisterFormValues where
  lastName := "山田"
  firstName := "太郎 "
  lastNameKana := "ヤマダ"
  firstNameKana := "タロウ"
  birthYear := some 2000
  birthMonth := some 2
  birthDay := some 29
  email := "taro@example.com"
  username := "taro"
  password := "secret-42"
  passwordConfirm := "secret-42"

/-- A browser in Tokyo, in 2027. -/
def tokyoBrowser : Browser := ⟨DateTime.tokyo.toHistory, 1800000000000⟩

theorem registered_as_typed_filledForm :
    ∃ (r : RegisterRequest) (y m d : ℕ),
      parseRequest (toSubmitPayload (trimmed filledForm)) = some r ∧
      filledForm.birthYear = some y ∧ filledForm.birthMonth = some m ∧
      filledForm.birthDay = some d ∧
      (r.Valid taroEnv 20820 ↔ Matches emailPattern filledForm.email ∧ makeDay y m d ≤ 20820) ∧
      (r.Valid taroEnv 20820 → ∀ salt, checkUser (registeredRow taroEnv r salt) = none ∧
        registeredRow taroEnv r salt = typedRow taroEnv filledForm (makeDay y m d) salt ∧
        ∀ db userId db', EndsAlone UserDirectory.schema (UserDirectory.register taroEnv r salt) db
            (.ok userId) db' →
          db'.row (.user userId) = some (typedRow taroEnv filledForm (makeDay y m d) salt)) :=
  have h : registerResolver ⟨30, 8, 128⟩ (fun s => s.toList.contains '@') tokyoBrowser filledForm =
      .ok (trimmed filledForm) := by
    decide +kernel
  registered_as_typed (by decide) (by decide) (by decide) (by decide) h

/-- **What the form accepts and the request does not, and the other way round.**  With the settings
of the backend they differ in the check of the e-mail, in the clock that a birth date is compared
with, and in names of more than 30 code units. -/
theorem form_accepts_iff (hyear : ∀ y ∈ values.birthYear, 1000 ≤ y ∧ y ≤ 9999) :
    (∃ v, registerResolver ⟨30, 8, env.passwordMaxLength⟩ isEmail browser values = .ok v) ∧
        Matches emailPattern values.email ∧
        makeDay (number values.birthYear) (number values.birthMonth) (number values.birthDay) ≤
          today ↔
      (∃ r, parseRequest (toSubmitPayload (trimmed values)) = some r ∧ r.Valid env today) ∧
        isEmail values.email = true ∧
        isValidBirthDate browser values.birthYear values.birthMonth values.birthDay = true ∧
        utf16Length (trim values.lastName) ≤ 30 ∧ utf16Length (trim values.firstName) ≤ 30 := by
  constructor
  · rintro ⟨⟨v, h⟩, hemail, hdate⟩
    obtain ⟨rfl, haccepts⟩ := registerResolver_eq_ok_iff.mp h
    obtain ⟨y, m, d, hy, hm, hd, hparse⟩ := haccepts.parseRequest_eq hyear
    have hday : makeDay y m d ≤ today := by
      rw [show values.birthYear = some y from hy, show values.birthMonth = some m from hm,
        show values.birthDay = some d from hd] at hdate
      exact hdate
    refine ⟨⟨_, hparse, (haccepts.valid_iff le_rfl le_rfl le_rfl).mpr ⟨hemail, hday⟩⟩,
      haccepts.email.2, haccepts.birthDate, haccepts.lastName.2, haccepts.firstName.2⟩
  · rintro ⟨⟨r, hparse, hvalid⟩, hmail, hreal, hlast, hfirst⟩
    obtain ⟨birthDate, hdate, rfl⟩ := parseRequest_eq_some_iff.mp hparse
    -- the year was selected, and with it the month and the day
    obtain ⟨y, hy⟩ : ∃ y, values.birthYear = some y := by
      by_contra hno
      have hnone : (trimmed values).birthYear = none := Option.eq_none_iff_forall_ne_some.mpr
        fun y hy => hno ⟨y, hy⟩
      rw [parseDate_eq_none hnone] at hdate
      cases hdate
    rw [hy] at hreal
    obtain ⟨hmonth, hday⟩ := isValidBirthDate_bounds (v := values) hreal
    obtain ⟨m, hm⟩ := exists_of_one_le_number hmonth.1
    obtain ⟨d, hd⟩ := exists_of_one_le_number hday.1
    simp only [hm, hd, number, Option.getD_some] at hmonth hday
    have hparsed := parseDate_birthDate (v := trimmed values) (hyear y hy)
      ⟨by omega, by omega⟩ ⟨by omega, hday.2⟩ hy hm hd
    obtain rfl := Option.some.inj (hparsed.symm.trans hdate)
    refine ⟨⟨_, registerResolver_eq_ok_iff.mpr ⟨rfl, ?_⟩⟩, hvalid.2.1.2, ?_⟩
    · refine accepts_of_valid hvalid hmail ⟨?_, ?_, ?_⟩ ?_ hlast hfirst
      · exact fun hnone => Option.some_ne_none y (hy.symm.trans hnone)
      · exact fun hnone => Option.some_ne_none m (hm.symm.trans hnone)
      · exact fun hnone => Option.some_ne_none d (hd.symm.trans hnone)
      · show isValidBirthDate browser values.birthYear values.birthMonth values.birthDay = true
        rw [hy]
        exact hreal
    · simp only [hy, hm, hd, number, Option.getD_some]
      exact hvalid.2.2.2.2.2.2.2.2.2

theorem form_accepts_iff_filledForm :
    (∃ v, registerResolver ⟨30, 8, taroEnv.passwordMaxLength⟩ (fun s => s.toList.contains '@')
          tokyoBrowser filledForm = .ok v) ∧
        Matches emailPattern filledForm.email ∧ makeDay 2000 2 29 ≤ 20820 ↔
      (∃ r, parseRequest (toSubmitPayload (trimmed filledForm)) = some r ∧ r.Valid taroEnv 20820) ∧
        filledForm.email.toList.contains '@' = true ∧
        isValidBirthDate tokyoBrowser (some 2000) (some 2) (some 29) = true ∧
        utf16Length (trim filledForm.lastName) ≤ 30 ∧
        utf16Length (trim filledForm.firstName) ≤ 30 :=
  form_accepts_iff (by decide)

end RegisterForm

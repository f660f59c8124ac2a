import TaskManagement.ReadCommitted.Indexed
import TaskManagement.Users.Directory

/-!
# A login identifier names at most one user

A name has no `@` and an e-mail has one, by the patterns that every row of `users` satisfies
(`notMem_of_username`, `mem_of_email`), so that an identifier is compared with one of the two unique
indexes only; and every row has its entries in the indexes, in every run of the calls
(`keeps_proc`).  Hence `fn_find_user_by_identifier` returns one row at most
(`Sane.length_findUserByIdentifier`).  No call changes a name or an e-mail, so that an identifier
that names a user keeps naming this user: `identifier_names_one_user`.

The `CHECK` constraints refuse neither what a validated request writes
(`RegisterRequest.Valid.checkUser_eq_none`) nor the name that is made for a Google account
(`checkUser_googleUser_iff`).
-/

namespace UserDirectory

open ReadCommitted
open IdentityDb (Uuid RowId Timestamp Date Profile)
open TaskDb (varchar varchar_of_length_le)

variable {env : Env} {db db' : Db} {id id' : Uuid} {r r' : User}

/-! ### Formats -/

theorem notMem_of_username {username : String} (h : Matches usernamePattern username) :
    '@' ∉ username.toList := by
  intro hmem
  obtain ⟨p, hp, hset⟩ := Pattern.exists_part_of_mem h hmem
  obtain rfl := List.mem_singleton.mp hp
  cases hset

theorem mem_of_email {email : String} (h : Matches emailPattern email) : '@' ∈ email.toList := by
  obtain ⟨c, hc, hset⟩ := Pattern.exists_mem_of_part h
    (List.mem_cons_of_mem _ List.mem_cons_self) Nat.one_pos
  obtain rfl := eq_of_beq hset
  exact hc

theorem checkUser_eq_none_iff : checkUser r = none ↔ r.Fits ∧ Matches emailPattern r.email ∧
    kanaFormat r.profile ∧ Matches usernamePattern r.username := by
  unfold checkUser
  split_ifs with hfits hemail hkana husername
  · exact iff_of_true rfl ⟨hfits, hemail, hkana, husername⟩
  · exact iff_of_false id fun h => husername h.2.2.2
  · exact iff_of_false id fun h => hkana h.2.2.1
  · exact iff_of_false id fun h => hemail h.2.1
  · exact iff_of_false id fun h => hfits h.1

theorem matches_of_checked (h : Checked schema db) (hr : db.row (.user id) = some r) :
    Matches usernamePattern r.username ∧ Matches emailPattern r.email := by
  obtain ⟨-, hemail, -, husername⟩ := checkUser_eq_none_iff.mp (h (.user id) r hr)
  exact ⟨husername, hemail⟩

/-- The constraints do not refuse what a validated request writes. -/
theorem RegisterRequest.Valid.checkUser_eq_none {payload : RegisterRequest} {today : Date}
    (h : payload.Valid env today) (hash : Option String) :
    checkUser { newUser payload.username payload.email hash with
      profile := storedProfile payload.profile } = none := by
  obtain ⟨⟨-, husername, huser⟩, ⟨hemail, hmail⟩, -, -, ⟨-, hlast⟩, ⟨-, hfirst⟩, ⟨-, hlastKana, hk⟩,
    ⟨-, hfirstKana, hk'⟩, -, -⟩ := h
  have hstored : storedProfile payload.profile = payload.profile := by
    simp only [storedProfile, RegisterRequest.profile, Option.map_some,
      varchar_of_length_le hlast, varchar_of_length_le hfirst, varchar_of_length_le hlastKana,
      varchar_of_length_le hfirstKana]
  have hnew : newUser payload.username payload.email hash =
      { username := payload.username, email := payload.email, passwordHash := hash } := by
    rw [newUser, varchar_of_length_le husername, varchar_of_length_le hemail]
  rw [hstored, hnew, checkUser_eq_none_iff]
  refine ⟨⟨husername, hemail, ?_⟩, hmail, ⟨?_, ?_⟩, huser⟩
  · intro value hvalue
    have hmem : value ∈ [payload.lastName, payload.firstName, payload.lastNameKana,
        payload.firstNameKana] := hvalue
    simp only [List.mem_cons, List.not_mem_nil, or_false] at hmem
    rcases hmem with rfl | rfl | rfl | rfl <;> assumption
  · rintro value ⟨⟩
    exact hk
  · rintro value ⟨⟩
    exact hk'

theorem isAlphanum_hexDigit : ∀ n : Fin 16, (hexDigit n).isAlphanum = true := by decide

theorem isAlphanum_of_mem_hexdigest {digest : List UInt8} {c : Char}
    (h : c ∈ hexdigest digest) : c.isAlphanum = true := by
  obtain ⟨b, -, hc⟩ := List.mem_flatMap.mp h
  have hb : b.toNat < 256 := b.toNat_lt
  rcases List.mem_pair.mp hc with rfl | rfl
  · exact isAlphanum_hexDigit ⟨b.toNat / 16, by omega⟩
  · exact isAlphanum_hexDigit ⟨b.toNat % 16, by omega⟩

/-- The name of a Google account is one, whatever the hash. -/
theorem matches_googleUsername (sub : String) :
    Matches usernamePattern (googleUsername env sub) := by
  have htext : (googleUsername env sub).toList = "google_".toList ++
      (hexdigest (env.sha256 (FormUrlencoded.utf8Encode sub.toList))).take 16 :=
    String.toList_append.trans (congrArg _ String.toList_ofList)
  have hgoogle : "google_".toList.all (fun c => c.isAlphanum || c == '_' || c == '-') = true := by
    decide +kernel
  refine Pattern.fullmatch_atLeast_iff.mpr ⟨?_, fun c hc => ?_⟩
  · rw [htext, List.length_append]
    exact Nat.le_add_right_of_le (by decide +kernel)
  · rw [htext] at hc
    rcases List.mem_append.mp hc with hc | hc
    · exact List.all_eq_true.mp hgoogle c hc
    · rw [isAlphanum_of_mem_hexdigest (List.mem_of_mem_take hc)]
      rfl

theorem length_googleUsername (sub : String) : (googleUsername env sub).length ≤ 50 := by
  have hlength : (googleUsername env sub).length = "google_".length +
      ((hexdigest (env.sha256 (FormUrlencoded.utf8Encode sub.toList))).take 16).length :=
    (String.length_append _ _).trans (congrArg _ String.length_ofList)
  have htake : ((hexdigest (env.sha256 (FormUrlencoded.utf8Encode sub.toList))).take 16).length ≤
      16 := List.length_take_le 16 _
  have hgoogle : "google_".length = 7 := by decide +kernel
  omega

/-- The constraints refuse a new user for a Google account only for its e-mail. -/
theorem checkUser_googleUser_iff {sub email : String} :
    checkUser (newUser (googleUsername env sub) email none) = none ↔
      (varchar 254 email).length ≤ 254 ∧ Matches emailPattern (varchar 254 email) := by
  rw [newUser, varchar_of_length_le (length_googleUsername sub), checkUser_eq_none_iff]
  constructor
  · rintro ⟨⟨-, hlength, -⟩, hemail, -⟩
    exact ⟨hlength, hemail⟩
  · rintro ⟨hlength, hemail⟩
    refine ⟨⟨length_googleUsername sub, hlength, ?_⟩, hemail, ⟨?_, ?_⟩, matches_googleUsername sub⟩
    · intro value hvalue
      cases hvalue
    · rintro value ⟨⟩
    · rintro value ⟨⟩

/-! ### Rows -/

theorem mem_users : (id, r) ∈ users db ↔ db.row (.user id) = some r := by
  refine (Store.mem_table_iff RowId.user (fun id r => (id, r)) (fun _ => rfl)
    fun i b h => ?_).trans ?_
  · cases i with
    | user id => exact ⟨id, rfl⟩
    | _ => cases h
  · constructor
    · rintro ⟨id', r', hr, heq⟩
      obtain ⟨rfl, rfl⟩ := Prod.mk.inj heq
      exact hr
    · exact fun hr => ⟨id, r, hr, rfl⟩

theorem nodup_users (db : Db) : (users db).Nodup := by
  refine List.Nodup.of_map Prod.fst (Store.nodup_table RowId.user (fun id r => (id, r))
    (fun _ => rfl) (fun i b h => ?_) Prod.fst fun _ _ => rfl)
  cases i with
  | user id => exact ⟨id, rfl⟩
  | _ => cases h

/-- The identifier is the name or the e-mail of the user. -/
def Names (env : Env) (identifier : String) (r : User) : Prop :=
  env.lower r.username = env.lower identifier ∨ env.lower r.email = env.lower identifier

theorem mem_findUserByIdentifier {identifier : String} :
    (id, r) ∈ findUserByIdentifier env identifier db ↔
      db.row (.user id) = some r ∧ Names env identifier r := by
  unfold findUserByIdentifier
  rw [List.mem_filter, mem_users, decide_eq_true_iff]
  rfl

/-! ### The unique indexes -/

/-- The entries of a user in `uq_users_username` and `uq_users_email`. -/
def userEntries (env : Env) (id : Uuid) (username email : String) : List ((j : RowId) × Row j) :=
  [⟨.usernameKey (env.lower username), id⟩, ⟨.emailKey (env.lower email), id⟩]

def indexEntries (env : Env) : (i : RowId) → Row i → List ((j : RowId) × Row j)
  | .user id, r => userEntries env id r.username r.email
  | _, _ => []

/-- Of a user the name and the e-mail; the other rows are kept as they are. -/
def KeepsNames : (i : RowId) → Row i → Row i → Prop
  | .user _, r, r' => r'.username = r.username ∧ r'.email = r.email
  | .usernameKey _, u, u' => u' = u
  | .emailKey _, u, u' => u' = u
  | .oauthAccount _, u, u' => u' = u

def indexes (env : Env) : Indexes Row where
  entries := indexEntries env
  Keeps := KeepsNames
  keeps_refl i r := by
    cases i with
    | user _ => exact ⟨rfl, rfl⟩
    | _ => rfl
  keeps_trans {i r r' r''} h h' := by
    cases i with
    | user _ => exact ⟨h'.1.trans h.1, h'.2.trans h.2⟩
    | _ => exact Eq.trans h' h
  entries_eq {i r r'} h := by
    cases i with
    | user id => exact congrArg₂ (userEntries env id) h.1 h.2
    | _ => rfl
  entry_eq {i r j v v'} h hk := by
    cases i with
    | user _ =>
      rcases List.mem_pair.mp h with he | he
      · cases he
        exact hk
      · cases he
        exact hk
    | _ => cases h

/-- The rows satisfy the constraints, and each has its entries. -/
structure Sane (env : Env) (db : Db) : Prop where
  complete : (indexes env).Complete [] db
  checked : Checked schema db

section Sane

variable (hlower : ∀ t, '@' ∈ (env.lower t).toList ↔ '@' ∈ t.toList)

include hlower in
theorem Sane.lower_ne (h : Sane env db) (hr : db.row (.user id) = some r)
    (hr' : db.row (.user id') = some r') : env.lower r.username ≠ env.lower r'.email := by
  intro heq
  have hemail := (hlower _).mpr (mem_of_email (matches_of_checked h.checked hr').2)
  rw [← heq] at hemail
  exact notMem_of_username (matches_of_checked h.checked hr).1 ((hlower _).mp hemail)

theorem Sane.unique_username (h : Sane env db) (hr : db.row (.user id) = some r)
    (hr' : db.row (.user id') = some r') (heq : env.lower r.username = env.lower r'.username) :
    id = id' := by
  have hentry : (⟨.usernameKey (env.lower r.username), id'⟩ : (j : RowId) × Row j) ∈
      (indexes env).entries (.user id') r' := heq ▸ List.mem_cons_self
  exact h.complete.unique hr hr' List.mem_cons_self hentry

theorem Sane.unique_email (h : Sane env db) (hr : db.row (.user id) = some r)
    (hr' : db.row (.user id') = some r') (heq : env.lower r.email = env.lower r'.email) :
    id = id' := by
  have hentry : (⟨.emailKey (env.lower r.email), id'⟩ : (j : RowId) × Row j) ∈
      (indexes env).entries (.user id') r' :=
    heq ▸ List.mem_cons_of_mem _ List.mem_cons_self
  exact h.complete.unique hr hr' (List.mem_cons_of_mem _ List.mem_cons_self) hentry

include hlower in
/-- An identifier without an `@` is a name, and one with an `@` is an e-mail. -/
theorem Sane.unique_of_names (h : Sane env db) {identifier : String}
    (hr : db.row (.user id) = some r) (hr' : db.row (.user id') = some r')
    (hn : Names env identifier r) (hn' : Names env identifier r') : id = id' := by
  rcases hn with hn | hn <;> rcases hn' with hn' | hn'
  · exact h.unique_username hr hr' (hn.trans hn'.symm)
  · exact absurd (hn.trans hn'.symm) (h.lower_ne hlower hr hr')
  · exact absurd (hn'.trans hn.symm) (h.lower_ne hlower hr' hr)
  · exact h.unique_email hr hr' (hn.trans hn'.symm)

/-- A list of users without duplicates, all with the same identifier. -/
theorem length_le_one {rows : List (Uuid × User)} (hnodup : rows.Nodup)
    (h : ∀ x ∈ rows, db.row (.user x.1) = some x.2)
    (heq : ∀ x ∈ rows, ∀ y ∈ rows, x.1 = y.1) : rows.length ≤ 1 := by
  cases rows with
  | nil => exact Nat.zero_le 1
  | cons x rows =>
    cases rows with
    | nil => exact le_refl 1
    | cons y rows =>
      have hx := h x List.mem_cons_self
      have hy := h y (List.mem_cons_of_mem _ List.mem_cons_self)
      have hid := heq x List.mem_cons_self y (List.mem_cons_of_mem _ List.mem_cons_self)
      rw [hid] at hx
      have hxy : x = y := Prod.ext hid (Option.some.inj (hx.symm.trans hy))
      rw [hxy] at hnodup
      exact absurd List.mem_cons_self (List.nodup_cons.mp hnodup).1

include hlower in
theorem Sane.length_findUserByIdentifier (h : Sane env db) (identifier : String) :
    (findUserByIdentifier env identifier db).length ≤ 1 :=
  length_le_one ((nodup_users db).filter _) (fun _ hx => (mem_findUserByIdentifier.mp hx).1)
    fun _ hx _ hy => h.unique_of_names hlower (mem_findUserByIdentifier.mp hx).1
      (mem_findUserByIdentifier.mp hy).1 (mem_findUserByIdentifier.mp hx).2
      (mem_findUserByIdentifier.mp hy).2

theorem Sane.length_findUserByEmail (h : Sane env db) (email : String) :
    (findUserByEmail env email db).length ≤ 1 := by
  have hmem : ∀ x ∈ findUserByEmail env email db, db.row (.user x.1) = some x.2 ∧
      env.lower x.2.email = env.lower email := fun x hx =>
    ⟨mem_users.mp (List.mem_filter.mp hx).1, of_decide_eq_true (List.mem_filter.mp hx).2⟩
  exact length_le_one ((nodup_users db).filter _) (fun x hx => (hmem x hx).1) fun x hx y hy =>
    h.unique_email (hmem x hx).1 (hmem y hy).1 ((hmem x hx).2.trans (hmem y hy).2.symm)

end Sane

/-! ### The programs -/

/-- A lookup that raises `multipleResults` is not allowed. -/
abbrev Keeps (env : Env) {α : Type} (p : DirectoryProc α) : Prop :=
  (indexes env).Maintains schema (· ≠ .multipleResults) [] [] p

theorem ne_of_checkUser {e : Error} (h : checkUser r = some e) : e ≠ .multipleResults := by
  rintro rfl
  unfold checkUser at h
  split_ifs at h <;> cases h

theorem ne_of_check (i : RowId) (r : Row i) (e : Error) (h : schema.check i r = some e) :
    e ≠ .multipleResults := by
  cases i with
  | user _ => exact ne_of_checkUser h
  | _ => cases h

/-- What is not a user has no entries. -/
theorem keeps_insertOrIgnore {sub : String} :
    Keeps env (Proc.insertOrIgnore (.oauthAccount sub) id : DirectoryProc Unit) :=
  .insertOrIgnore (fun _ hx => hx) (ne_of_check _ _) fun _ hx => hx

/-- The row of the user is followed by its entries. -/
theorem keeps_insertUser : Keeps env (insertUser env id r) := by
  have hne : ∀ i : RowId, Error.uniqueViolation i ≠ .multipleResults := fun _ h => by cases h
  have hrow : (indexes env).Maintains schema (· ≠ .multipleResults) []
      (userEntries env id r.username r.email) (insertRow (.user id) r) :=
    .insertOrRaise (fun _ hx => hx) (ne_of_check _ _) (hne _)
      fun _ hx => absurd hx List.not_mem_nil
  have husername : (indexes env).Maintains schema (· ≠ .multipleResults)
      (userEntries env id r.username r.email) [⟨.emailKey (env.lower r.email), id⟩]
      (insertRow (.usernameKey (env.lower r.username)) id) :=
    .insertOrRaise (fun _ hx => absurd hx List.not_mem_nil) (ne_of_check _ _) (hne _)
      fun _ hx => List.mem_cons.mp hx
  have hemail : (indexes env).Maintains schema (· ≠ .multipleResults)
      [⟨.emailKey (env.lower r.email), id⟩] [] (insertRow (.emailKey (env.lower r.email)) id) :=
    .insertOrRaise (fun _ hx => absurd hx List.not_mem_nil) (ne_of_check _ _) (hne _)
      fun _ hx => Or.inl (List.mem_singleton.mp hx)
  exact hrow.bind fun _ => husername.bind fun _ => hemail

theorem keeps_updateUser {set : User → User}
    (hset : ∀ r, (set r).username = r.username ∧ (set r).email = r.email) :
    Keeps env (updateUser id set) := by
  refine .bind (.update (fun i r v h => ?_) ne_of_check) fun _ => .ret
  cases i with
  | user u =>
    change (if u = id then some (some (set r)) else none) = some v at h
    split_ifs at h
    exact ⟨set r, (Option.some.inj h).symm, hset r⟩
  | _ => cases h

theorem keeps_spUpdateUserProfile {profile : Profile} :
    Keeps env (spUpdateUserProfile id profile) := keeps_updateUser fun _ => ⟨rfl, rfl⟩

theorem keeps_spUpdateUserPassword {hash : String} :
    Keeps env (spUpdateUserPassword id hash) := keeps_updateUser fun _ => ⟨rfl, rfl⟩

theorem keeps_spVerifyUserEmail {now : Timestamp} :
    Keeps env (spVerifyUserEmail id now) := keeps_updateUser fun _ => ⟨rfl, rfl⟩

theorem keeps_spUpsertOAuthAccount {sub : String} {now : Timestamp} :
    Keeps env (spUpsertOAuthAccount id sub now) :=
  keeps_insertOrIgnore.bind fun _ => keeps_updateUser fun _ => ⟨rfl, rfl⟩

theorem keeps_spRegisterUser {username email : String} {hash : Option String} :
    Keeps env (spRegisterUser env username email hash) := by
  refine .bind .select fun _ => .bind (.raiseIf (by simp)) fun _ => ?_
  refine .bind .select fun _ => .bind (.raiseIf (by simp)) fun _ => ?_
  exact .bind .generate fun _ => .bind keeps_insertUser fun _ => .ret

theorem keeps_lockTarget {actor target : Uuid} : Keeps env (lockTarget actor target) := by
  refine .bind (.raiseIf (by simp)) fun _ => .bind .advisoryLock fun _ => ?_
  refine .bind .selectForUpdate fun row => ?_
  cases row with
  | none => exact .throw (by simp)
  | some old => exact .ret

theorem keeps_requireOtherActiveAdmin {target : Uuid} {old : User} {stays : Prop}
    [Decidable stays] : Keeps env (requireOtherActiveAdmin target old stays) :=
  .ite (.bind .select fun _ => .raiseIf (by simp)) .ret

theorem keeps_spAdminUpdateUserRole {actor target : Uuid} {newRole : UserDb.Role} :
    Keeps env (spAdminUpdateUserRole actor target newRole) :=
  .bind keeps_lockTarget fun _ => .bind keeps_requireOtherActiveAdmin fun _ =>
    keeps_updateUser fun _ => ⟨rfl, rfl⟩

theorem keeps_spAdminUpdateUserStatus {actor target : Uuid} {isActive : Bool} :
    Keeps env (spAdminUpdateUserStatus actor target isActive) :=
  .bind keeps_lockTarget fun _ => .bind keeps_requireOtherActiveAdmin fun _ =>
    keeps_updateUser fun _ => ⟨rfl, rfl⟩

theorem keeps_getCurrentUser : Keeps env (getCurrentUser id) := by
  refine .bind .select fun user => ?_
  cases user with
  | none => exact .throw (by simp)
  | some user => exact .bind (.raiseIf (by simp)) fun _ => .ret

theorem keeps_requireAdmin : Keeps env (requireAdmin id) :=
  .bind keeps_getCurrentUser fun _ => .raiseIf (by simp)

theorem keeps_updateProfile {payload : TaskDb.UserProfileUpdateRequest} :
    Keeps env (updateProfile id payload) := by
  have hrequire : ∀ {α : Type} (field : String) (value : Option (Option α)),
      Keeps env (requireNotNull field value) := fun _ _ => .raiseIf (by simp)
  refine .bind .select fun user => ?_
  cases user with
  | none => exact .throw (by simp)
  | some user =>
    refine .bind (hrequire _ _) fun _ => .bind (hrequire _ _) fun _ => ?_
    refine .bind (hrequire _ _) fun _ => .bind (hrequire _ _) fun _ => ?_
    exact .bind (hrequire _ _) fun _ => keeps_spUpdateUserProfile

theorem keeps_requireCurrentPassword {user : User} {currentPassword : Option String} :
    Keeps env (requireCurrentPassword env user currentPassword) := by
  unfold requireCurrentPassword
  split
  · exact .throw (by simp)
  · exact .raiseIf (by simp)
  · exact .throw (by simp)
  · exact .ret

theorem keeps_changePassword {currentPassword : Option String} {newPassword : String} {salt : ℕ} :
    Keeps env (changePassword env id currentPassword newPassword salt) := by
  refine .bind .select fun user => ?_
  cases user with
  | none => exact .throw (by simp)
  | some user =>
    exact .bind keeps_requireCurrentPassword fun _ => keeps_spUpdateUserPassword

/-! ### The lookups -/

theorem keeps_oneOrNone {rows : List (Uuid × User)} (h : rows.length ≤ 1) :
    Keeps env (oneOrNone rows) := by
  cases rows with
  | nil => exact .ret
  | cons x rows =>
    cases rows with
    | nil => exact .ret
    | cons y rows => exact absurd h (by simp)

theorem keeps_getByEmail {email : String} : Keeps env (getByEmail env email) :=
  .query fun _ hcomplete hchecked =>
    keeps_oneOrNone (Sane.length_findUserByEmail ⟨hcomplete, hchecked⟩ email)

section Lookup

variable (hlower : ∀ t, '@' ∈ (env.lower t).toList ↔ '@' ∈ t.toList)

include hlower

theorem keeps_getByLoginIdentifier {identifier : String} :
    Keeps env (getByLoginIdentifier env identifier) :=
  .query fun _ hcomplete hchecked => keeps_oneOrNone
    (Sane.length_findUserByIdentifier hlower ⟨hcomplete, hchecked⟩ identifier)

theorem keeps_register {payload : RegisterRequest} {salt : ℕ} :
    Keeps env (register env payload salt) := by
  refine .bind (keeps_getByLoginIdentifier hlower) fun _ => .bind (.raiseIf (by simp)) fun _ => ?_
  refine .bind keeps_getByEmail fun _ => .bind (.raiseIf (by simp)) fun _ => ?_
  exact .bind keeps_spRegisterUser fun _ => .bind keeps_spUpdateUserProfile fun _ => .ret

end Lookup

theorem keeps_userOfAccount {userId : Uuid} : Keeps env (userOfAccount userId) := by
  have huser : Keeps env accountUser := .throw (by simp)
  refine .bind huser fun user => ?_
  cases user with
  | none => exact .select
  | some user => exact .ret

theorem keeps_resolveOrCreateUser {info : GoogleUserInfo} {now : Timestamp} :
    Keeps env (resolveOrCreateUser env info now) := by
  refine .bind .select fun account => ?_
  cases account with
  | some userId =>
    refine .bind keeps_userOfAccount fun user => ?_
    cases user with
    | none => exact .throw (by simp)
    | some user => exact .bind (.raiseIf (by simp)) fun _ => .ret
  | none =>
    refine .bind keeps_getByEmail fun existing => ?_
    cases existing with
    | some x =>
      refine .bind (.raiseIf (by simp)) fun _ => .bind (.raiseIf (by simp)) fun _ => ?_
      exact .bind keeps_spUpsertOAuthAccount fun _ =>
        .bind (.ite keeps_spVerifyUserEmail .ret) fun _ => .ret
    | none =>
      refine .bind (.raiseIf (by simp)) fun _ => .bind keeps_spRegisterUser fun _ => ?_
      refine .bind keeps_spUpsertOAuthAccount fun _ => .bind keeps_spVerifyUserEmail fun _ => ?_
      exact .bind (.ite keeps_spUpdateUserProfile .ret) fun _ => .ret

/-! ### Runs -/

theorem eq_singleton_of_length {α : Type} {l : List α} {x : α} (hx : x ∈ l)
    (h : l.length ≤ 1) : l = [x] := by
  obtain ⟨y, rfl⟩ := List.length_eq_one_iff.mp (le_antisymm h (List.length_pos_of_mem hx))
  rw [List.mem_singleton.mp hx]

theorem valid_empty : Valid schema .empty where
  checked _ _ h := by cases h
  deferred := rfl

theorem ne_of_deferred (db : Db) (e : Error) (h : schema.deferred db = some e) :
    e ≠ .multipleResults := by cases h

section Run

variable {τ : Type} [DecidableEq τ] [Fintype τ] {call : τ → Call env}
  {c c' : Config τ Row UserDb.LockKey Uuid Error (Option Uuid)}

theorem keeps_proc (hlower : ∀ t, '@' ∈ (env.lower t).toList ↔ '@' ∈ t.toList)
    (call : Call env) : Keeps env call.proc := by
  cases call with
  | register payload today valid salt => exact .bind (keeps_register hlower) fun _ => .ret
  | resolveOrCreateUser info now => exact .bind keeps_resolveOrCreateUser fun _ => .ret
  | updateProfile userId payload =>
    exact .bind keeps_getCurrentUser fun _ => .bind keeps_updateProfile fun _ => .ret
  | changePassword userId currentPassword newPassword salt =>
    exact .bind keeps_getCurrentUser fun _ => .bind keeps_changePassword fun _ => .ret
  | resetPassword userId newPassword salt =>
    exact .bind keeps_spUpdateUserPassword fun _ => .ret
  | verifyEmail userId now => exact .bind keeps_spVerifyUserEmail fun _ => .ret
  | changeRole userId targetId newRole =>
    exact .bind keeps_requireAdmin fun _ => .bind keeps_spAdminUpdateUserRole fun _ => .ret
  | changeStatus userId targetId newIsActive =>
    exact .bind keeps_requireAdmin fun _ => .bind keeps_spAdminUpdateUserStatus fun _ => .ret
  | login identifier => exact .bind (keeps_getByLoginIdentifier hlower) fun _ => .ret
  | findByEmail email => exact .bind keeps_getByEmail fun _ => .ret

section

variable (hlower : ∀ t, '@' ∈ (env.lower t).toList ↔ '@' ∈ t.toList)
  (hc : Reachable schema (directory call) c)

include hlower hc

theorem sane_of_reachable : Sane env c.db where
  complete := Indexes.complete_of_reachable (fun t => keeps_proc hlower (call t)) ne_of_deferred
    Indexes.complete_empty valid_empty hc
  checked := (valid_of_reachable valid_empty hc).checked

/-- In every run of the calls a login identifier names at most one user, no lookup finds several
rows, and an identifier that names a user names the same user ever after. -/
theorem identifier_names_one_user :
    (∀ identifier, (findUserByIdentifier env identifier c.db).length ≤ 1) ∧
    (∀ t, c.tx t ≠ .done (.error .multipleResults)) ∧
    ∀ c', Reachable schema c c' → ∀ identifier id r,
      findUserByIdentifier env identifier c.db = [(id, r)] →
        ∃ r', findUserByIdentifier env identifier c'.db = [(id, r')] := by
  have hkeeps : ∀ t, Keeps env (call t).proc := fun t => keeps_proc hlower (call t)
  refine ⟨(sane_of_reachable hlower hc).length_findUserByIdentifier hlower, fun t ht => ?_, ?_⟩
  · exact Indexes.allowed_of_reachable hkeeps ne_of_deferred Indexes.complete_empty valid_empty hc
      ht rfl
  · intro c' hc' identifier id r hfind
    obtain ⟨hr, hnames⟩ := mem_findUserByIdentifier.mp (hfind ▸ List.mem_singleton_self (id, r))
    obtain ⟨r', hr', husername, hemail⟩ := Indexes.grows_of_run hkeeps ne_of_deferred
      Indexes.complete_empty valid_empty hc hc' (.user id) r hr
    have hnames' : Names env identifier r' := by
      unfold Names
      rw [husername, hemail]
      exact hnames
    have hsane := sane_of_reachable hlower (hc.trans hc')
    exact ⟨r', eq_singleton_of_length (mem_findUserByIdentifier.mpr ⟨hr', hnames'⟩)
      (hsane.length_findUserByIdentifier hlower identifier)⟩

end

end Run

/-! ### A registration and a login -/

/-- The texts of the run are in lower case. -/
def taroEnv : Env where
  lower text := text
  sha256 bytes := bytes
  hashPassword password _ := password
  verifyPassword password passwordHash := password == passwordHash
  passwordMaxLength := 128

def taro : RegisterRequest where
  username := "taro"
  email := "taro@example.com"
  password := "Passw0rd"
  passwordConfirm := "Passw0rd"
  lastName := "山田"
  firstName := "太郎"
  lastNameKana := "ヤマダ"
  firstNameKana := "タロウ"
  birthDate := 0

theorem valid_taro : taro.Valid taroEnv 0 := by decide +kernel

def taroCall (t : Fin 2) : Call taroEnv :=
  if t = 0 then .register taro 0 valid_taro 0 else .login "taro@example.com"

def taroSteps : List (Fin 2 × Choice RowId Uuid) :=
  [(0, .go), (0, .go), (0, .go), (0, .go), (0, .gen 1), (0, .go), (0, .go), (0, .go), (0, .go),
    (0, .pick (.user 1)), (0, .go), (0, .go), (1, .go), (1, .go)]

def taroRun : Config (Fin 2) Row UserDb.LockKey Uuid Error (Option Uuid) :=
  (directory taroCall).execTo schema (fun _ _ _ => True) taroSteps (by decide +kernel)

/-- The e-mail names the new user, and the login has found this one. -/
theorem identifier_names_one_user_taro :
    (findUserByIdentifier taroEnv "taro@example.com" taroRun.db).map Prod.fst = [1] ∧
      (findUserByIdentifier taroEnv "taro@example.com" taroRun.db).length ≤ 1 ∧
      taroRun.tx 1 ≠ .done (.error .multipleResults) := by
  have hnames := identifier_names_one_user (fun _ => Iff.rfl)
    (run_execTo _ : Reachable schema (directory taroCall) taroRun)
  exact ⟨by decide +kernel, hnames.1 _, hnames.2.1 1⟩

end UserDirectory

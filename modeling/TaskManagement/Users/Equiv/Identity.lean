import TaskManagement.ReadCommitted.Rewrite
import TaskManagement.Users.Identity

/-!
# Users and their unique indexes under concurrency

`Consistent` says that the entries of the unique indexes are those of the rows of `users`, so that no
two users share a name or an e-mail (`Consistent.unique`).  No statement of the two services deletes
a row or changes a name, so that the database only grows (`Grows`); this is what a transaction may
rely on besides its row locks (`identityProtocol`).

The specifications of the parts that the services share: the lookups find a user exactly when the
index has an entry (`wp_getByEmail`, `wp_getByLoginIdentifier`), and `sp_register_user` inserts a row
whose entries were absent (`Created`, `wp_spRegisterUser`).
-/

namespace IdentityDb

open ReadCommitted

variable {lower : String → String} {db db' db'' s : Db} {id id' : Uuid} {r r' : User}
  {sub : String} {σ : IdentitySession}

/-! ### Rows -/

theorem mem_users : (id, r) ∈ users db ↔ db.row (.user id) = some r := by
  refine (Store.mem_table_iff RowId.user (fun id r => (id, r)) (fun _ => rfl)
    fun i b h => ?_).trans ?_
  · cases i with
    | user id => exact ⟨id, rfl⟩
    | _ => cases h
  · constructor
    · rintro ⟨id', r', hr, heq⟩
      obtain ⟨rfl, rfl⟩ := Prod.mk.inj heq
      exact hr
    · exact fun hr => ⟨id, r, hr, rfl⟩

theorem nodup_users (db : Db) : (users db).Nodup := by
  refine List.Nodup.of_map Prod.fst (Store.nodup_table RowId.user (fun id r => (id, r))
    (fun _ => rfl) (fun i b h => ?_) Prod.fst fun _ _ => rfl)
  cases i with
  | user id => exact ⟨id, rfl⟩
  | _ => cases h

/-! ### Consistency -/

/-- The entries of the unique indexes are those of the users, and accounts belong to users. -/
structure Consistent (lower : String → String) (db : Db) : Prop where
  username : ∀ id r, db.row (.user id) = some r →
    db.row (.usernameKey (lower r.username)) = some id
  email : ∀ id r, db.row (.user id) = some r → db.row (.emailKey (lower r.email)) = some id
  user_of_username : ∀ k id, db.row (.usernameKey k) = some id →
    ∃ r, db.row (.user id) = some r ∧ lower r.username = k
  user_of_email : ∀ k id, db.row (.emailKey k) = some id →
    ∃ r, db.row (.user id) = some r ∧ lower r.email = k
  user_of_account : ∀ s id, db.row (.oauthAccount s) = some id → ∃ r, db.row (.user id) = some r

/-- No two users share a name or an e-mail, up to case. -/
def UniqueUsers (lower : String → String) (db : Db) : Prop :=
  ∀ id id' r r', db.row (.user id) = some r → db.row (.user id') = some r' →
    (lower r.username = lower r'.username ∨ lower r.email = lower r'.email) → id = id'

theorem Consistent.unique (h : Consistent lower db) : UniqueUsers lower db := by
  rintro id id' r r' hr hr' (heq | heq)
  · have h₁ := h.username id r hr
    rw [heq] at h₁
    exact Option.some.inj (h₁.symm.trans (h.username id' r' hr'))
  · have h₁ := h.email id r hr
    rw [heq] at h₁
    exact Option.some.inj (h₁.symm.trans (h.email id' r' hr'))

theorem consistent_empty : Consistent lower .empty where
  username _ _ h := nomatch h
  email _ _ h := nomatch h
  user_of_username _ _ h := nomatch h
  user_of_email _ _ h := nomatch h
  user_of_account _ _ h := nomatch h

/-- A list without duplicates whose only element is `x`. -/
theorem eq_singleton_of_nodup {α : Type} {l : List α} {x : α} (hnd : l.Nodup) (hx : x ∈ l)
    (h : ∀ y ∈ l, y = x) : l = [x] := by
  cases l with
  | nil => cases hx
  | cons a l =>
    obtain rfl := h a List.mem_cons_self
    cases l with
    | nil => rfl
    | cons b l =>
      obtain rfl := h b (List.mem_cons_of_mem _ List.mem_cons_self)
      exact absurd List.mem_cons_self (List.nodup_cons.mp hnd).1

section Lookup

variable {p : Uuid × User → Prop} [DecidablePred p] {entry : Option Uuid}
  (hentry : ∀ id r, db.row (.user id) = some r → p (id, r) → entry = some id)
  (huser : ∀ id, entry = some id → ∃ r, db.row (.user id) = some r ∧ p (id, r))

include hentry huser

/-- A `SELECT` on an indexed expression returns the user of the entry. -/
theorem filter_users_eq : (entry = none ∧ (users db).filter p = []) ∨
    ∃ id r, entry = some id ∧ db.row (.user id) = some r ∧ (users db).filter p = [(id, r)] := by
  have hmem : ∀ x, x ∈ (users db).filter p ↔ db.row (.user x.1) = some x.2 ∧ p x := by
    intro x
    rw [List.mem_filter, decide_eq_true_iff]
    exact and_congr_left fun _ => mem_users
  cases hkey : entry with
  | none =>
    refine Or.inl ⟨rfl, List.eq_nil_iff_forall_not_mem.mpr fun x hx => ?_⟩
    obtain ⟨hr, hx⟩ := (hmem x).mp hx
    exact nomatch hkey.symm.trans (hentry x.1 x.2 hr hx)
  | some id =>
    obtain ⟨r, hr, hp⟩ := huser id hkey
    refine Or.inr ⟨id, r, rfl, hr, eq_singleton_of_nodup ((nodup_users db).filter _)
      ((hmem (id, r)).mpr ⟨hr, hp⟩) fun x hx => ?_⟩
    obtain ⟨hx, hpx⟩ := (hmem x).mp hx
    have hid : x.1 = id := Option.some.inj ((hentry x.1 x.2 hx hpx).symm.trans hkey)
    have hrow : x.2 = r := by
      rw [hid] at hx
      exact Option.some.inj (hx.symm.trans hr)
    exact Prod.ext hid hrow

/-- An `EXISTS` on an indexed expression asks for the entry. -/
theorem any_users_eq : ((users db).any fun x => decide (p x)) = entry.isSome := by
  rw [Bool.eq_iff_iff, List.any_eq_true, Option.isSome_iff_exists]
  constructor
  · rintro ⟨x, hx, hp⟩
    exact ⟨x.1, hentry x.1 x.2 (mem_users.mp hx) (of_decide_eq_true hp)⟩
  · rintro ⟨id, hid⟩
    obtain ⟨r, hr, hp⟩ := huser id hid
    exact ⟨(id, r), mem_users.mpr hr, decide_eq_true hp⟩

end Lookup

section Consistent

variable (h : Consistent lower db)

include h

theorem Consistent.findUserByEmail_eq (e : Email) :
    (db.row (.emailKey (lower e)) = none ∧ findUserByEmail lower e db = []) ∨
    ∃ id r, db.row (.emailKey (lower e)) = some id ∧ db.row (.user id) = some r ∧
      findUserByEmail lower e db = [(id, r)] := by
  refine filter_users_eq (fun id r hr he => ?_) fun id hid => h.user_of_email _ _ hid
  rw [← he]
  exact h.email id r hr

theorem Consistent.existsEmail_eq (e : Email) :
    existsEmail lower e db = (db.row (.emailKey (lower e))).isSome := by
  refine any_users_eq (fun id r hr he => ?_) fun id hid => h.user_of_email _ _ hid
  rw [← he]
  exact h.email id r hr

theorem Consistent.existsUsername_eq (u : Username) :
    existsUsername lower u db = (db.row (.usernameKey (lower u))).isSome := by
  refine any_users_eq (fun id r hr he => ?_) fun id hid => h.user_of_username _ _ hid
  rw [← he]
  exact h.username id r hr

/-- No e-mail looks like a username, as `lower` keeps the `@`. -/
theorem Consistent.findUserByIdentifier_eq
    (hlower : ∀ t, '@' ∈ (lower t).toList ↔ '@' ∈ t.toList) (u : Username) :
    (db.row (.usernameKey (lower u)) = none ∧ findUserByIdentifier lower u db = []) ∨
    ∃ id r, db.row (.usernameKey (lower u)) = some id ∧ db.row (.user id) = some r ∧
      findUserByIdentifier lower u db = [(id, r)] := by
  refine filter_users_eq (fun id r hr hx => ?_) fun id hid => ?_
  · rcases hx with hx | hx
    · rw [← hx]
      exact h.username id r hr
    · have he := (hlower r.email).mpr r.email.2
      rw [hx] at he
      exact absurd ((hlower u).mp he) u.2
  · obtain ⟨r, hr, hu⟩ := h.user_of_username _ _ hid
    exact ⟨r, hr, Or.inl hu⟩

end Consistent

/-! ### Growth -/

/-- The names of a user and whether it is active stay. -/
def SameNames (r r' : User) : Prop :=
  r'.username = r.username ∧ r'.email = r.email ∧ r'.isActive = r.isActive

theorem SameNames.trans {r'' : User} (h : SameNames r r') (h' : SameNames r' r'') :
    SameNames r r'' := ⟨h'.1.trans h.1, h'.2.1.trans h.2.1, h'.2.2.trans h.2.2⟩

/-- No row is deleted, and no name, entry or account changes. -/
structure Grows (db db' : Db) : Prop where
  user : ∀ id r, db.row (.user id) = some r →
    ∃ r', db'.row (.user id) = some r' ∧ SameNames r r'
  usernameKey : ∀ k id, db.row (.usernameKey k) = some id → db'.row (.usernameKey k) = some id
  emailKey : ∀ k id, db.row (.emailKey k) = some id → db'.row (.emailKey k) = some id
  oauthAccount : ∀ s id, db.row (.oauthAccount s) = some id → db'.row (.oauthAccount s) = some id

theorem Grows.refl (db : Db) : Grows db db where
  user _ r h := ⟨r, h, rfl, rfl, rfl⟩
  usernameKey _ _ h := h
  emailKey _ _ h := h
  oauthAccount _ _ h := h

theorem Grows.trans (h : Grows db db') (h' : Grows db' db'') : Grows db db'' where
  user id r hr := by
    obtain ⟨r₁, hr₁, hs₁⟩ := h.user id r hr
    obtain ⟨r₂, hr₂, hs₂⟩ := h'.user id r₁ hr₁
    exact ⟨r₂, hr₂, hs₁.trans hs₂⟩
  usernameKey k id hk := h'.usernameKey k id (h.usernameKey k id hk)
  emailKey k id hk := h'.emailKey k id (h.emailKey k id hk)
  oauthAccount s id hs := h'.oauthAccount s id (h.oauthAccount s id hs)

/-- The other transactions keep the indexes consistent and only let the database grow; `extra` is
a further invariant of the committed database. -/
def identityProtocol {Λ : Type} (lower : String → String) (extra : Db → Prop)
    (assume : Λ → Op RowId Empty → IdentitySession → Db → Prop) (allowed : Error → Prop) :
    Protocol Λ Row Empty Error where
  inv db := Consistent lower db ∧ extra db
  rely σ db db' := (∀ i ∈ σ.rows, db'.row i = db.row i) ∧ Grows db db'
  assume := assume
  require _ _ _ := True
  allowed := allowed
  rely_refl _ db := ⟨fun _ _ => rfl, Grows.refl db⟩
  rely_trans _ _ _ _ h h' := ⟨fun i hi => (h'.1 i hi).trans (h.1 i hi), h.2.trans h'.2⟩

theorem identityProtocol_keepsLocked {Λ : Type} {extra : Db → Prop}
    {assume : Λ → Op RowId Empty → IdentitySession → Db → Prop} {allowed : Error → Prop} :
    (identityProtocol lower extra assume allowed).KeepsLocked := fun hr => hr.1

/-! ### Lookups -/

theorem view_of_writes (h : σ.writes = []) (db : Db) : σ.view db = db := by
  show db.overlay σ.writes = db
  rw [h]
  rfl

/-- What a lookup through an index returns when it reads `s`. -/
structure Looked (entry : Db → Option Uuid) (s : Db) (a : Option (Uuid × User)) : Prop where
  fst : a.map Prod.fst = entry s
  row : ∀ id r, a = some (id, r) → s.row (.user id) = some r

section Spec

variable {Λ : Type} {ℓ : Λ} {extra : Db → Prop}
  {assume : Λ → Op RowId Empty → IdentitySession → Db → Prop} {allowed : Error → Prop}

theorem wp_lookup {f : Db → List (Uuid × User)} {entry : Db → Option Uuid}
    (hf : ∀ db, Consistent lower db → (entry db = none ∧ f db = []) ∨
      ∃ id r, entry db = some id ∧ db.row (.user id) = some r ∧ f db = [(id, r)])
    (hσ : σ.writes = []) (hi : Consistent lower db ∧ extra db) :
    wp schema (identityProtocol lower extra assume allowed) ℓ ((Proc.select f).bind oneOrNone)
      (fun a σ' db' => ∃ s, (Consistent lower s ∧ extra s) ∧ σ' = σ.saw s ∧ Grows s db' ∧
        Looked entry s a) σ db := by
  refine wp_bind (wp_select fun db₁ hr₁ hi₁ => ⟨trivial, fun _ db₂ hr₂ hi₂ => ?_⟩) hi
  rw [view_of_writes hσ] at hr₂ ⊢
  rcases hf db₁ hi₁.1 with ⟨hnone, hf⟩ | ⟨id, r, hid, hr, hf⟩
  · rw [hf]
    exact wp_ret fun db₃ hr₃ _ =>
      ⟨db₁, hi₁, rfl, hr₂.2.trans hr₃.2, ⟨hnone.symm, nofun⟩⟩
  · rw [hf]
    refine wp_ret fun db₃ hr₃ _ => ⟨db₁, hi₁, rfl, hr₂.2.trans hr₃.2, ⟨hid.symm, ?_⟩⟩
    rintro id' r' ⟨⟩
    exact hr

theorem wp_getByEmail (e : Email) (hσ : σ.writes = []) (hi : Consistent lower db ∧ extra db) :
    wp schema (identityProtocol lower extra assume allowed) ℓ (getByEmail lower e)
      (fun a σ' db' => ∃ s, (Consistent lower s ∧ extra s) ∧ σ' = σ.saw s ∧ Grows s db' ∧
        Looked (fun db => db.row (.emailKey (lower e))) s a) σ db :=
  wp_lookup (fun _ h => h.findUserByEmail_eq e) hσ hi

theorem wp_getByLoginIdentifier (hlower : ∀ t, '@' ∈ (lower t).toList ↔ '@' ∈ t.toList)
    (u : Username) (hσ : σ.writes = []) (hi : Consistent lower db ∧ extra db) :
    wp schema (identityProtocol lower extra assume allowed) ℓ (getByLoginIdentifier lower u)
      (fun a σ' db' => ∃ s, (Consistent lower s ∧ extra s) ∧ σ' = σ.saw s ∧ Grows s db' ∧
        Looked (fun db => db.row (.usernameKey (lower u))) s a) σ db :=
  wp_lookup (fun _ h => h.findUserByIdentifier_eq hlower u) hσ hi

/-! ### `sp_register_user` -/

/-- What may be raised when a key is taken, by the `EXISTS` and by the index. -/
structure KeyRefused (P : Protocol Λ Row Empty Error) (ℓ : Λ) (B : IdentitySession → Db → Prop)
    (key : RowId) (raised : Error) : Prop where
  found : ∀ {σ db}, P.inv db → B σ db → P.assume ℓ .query σ db → db.row key ≠ none →
    P.allowed raised
  violated : ∀ {σ db}, P.inv db → B σ db → P.assume ℓ (.insert key) σ db → db.row key ≠ none →
    P.allowed (.uniqueViolation key)

variable {B : IdentitySession → Db → Prop}

theorem KeyRefused.mono {P : Protocol Λ Row Empty Error} {B' : IdentitySession → Db → Prop}
    {key : RowId} {e : Error} (h : KeyRefused P ℓ B key e) (hB : ∀ σ db, B' σ db → B σ db) :
    KeyRefused P ℓ B' key e where
  found hi hb := h.found hi (hB _ _ hb)
  violated hi hb := h.violated hi (hB _ _ hb)

theorem wp_checkKey {α : Type} {f : Db → Bool} {key : RowId} {e : Error}
    {k : Unit → IdentityProc α} {Q : α → IdentitySession → Db → Prop}
    (hf : ∀ db, Consistent lower db → f db = (db.row key).isSome)
    (hkey : KeyRefused (identityProtocol lower extra assume allowed) ℓ B key e)
    (hB : Persistent (identityProtocol lower extra assume allowed) B) (hσ : σ.writes = [])
    (hb : B σ db) (hi : Consistent lower db ∧ extra db)
    (hk : ∀ {σ db}, Consistent lower db ∧ extra db → σ.writes = [] → B σ db →
      wp schema (identityProtocol lower extra assume allowed) ℓ (k ()) Q σ db) :
    wp schema (identityProtocol lower extra assume allowed) ℓ
      ((Proc.select f).bind fun taken => (Proc.raiseIf (taken = true) e).bind k) Q σ db := by
  refine wp_bind (wp_select fun db₁ hr₁ hi₁ => ⟨trivial, fun ha db₂ hr₂ hi₂ => ?_⟩) hi
  have hb₁ : B σ db₁ := hB.rely hb hr₁ hi₁
  refine wp_bind (wp_raiseIf (fun htaken => ?_) fun _ db₃ hr₃ hi₃ => hk hi₃ hσ ?_) hi₂
  · rw [view_of_writes hσ, hf db₁ hi₁.1] at htaken
    exact hkey.found hi₁ hb₁ ha (Option.isSome_iff_ne_none.mp htaken)
  · exact hB.rely (hB.rely (hB.saw _ hb₁) hr₂ hi₂) hr₃ hi₃

/-- A row of `users` that is inserted, with its entries. -/
structure Created (lower : String → String) (id : Uuid) (r : User) (σ : IdentitySession) (db : Db) :
    Prop where
  user : Held (.user id) none (some r) σ db
  username : Held (.usernameKey (lower r.username)) none (some id) σ db
  email : Held (.emailKey (lower r.email)) none (some id) σ db

/-- The rows that an `INSERT INTO users` writes. -/
def userRows (lower : String → String) (id : Uuid) (u : Username) (e : Email) (i : RowId) : Prop :=
  i = .user id ∨ i = .usernameKey (lower u) ∨ i = .emailKey (lower e)

theorem created_stable {P : Protocol Λ Row Empty Error} (hP : P.KeepsLocked) (id : Uuid)
    (r : User) : P.Stable (Created lower id r) where
  rely h hr _ := ⟨h.user.rely (hP hr), h.username.rely (hP hr), h.email.rely (hP hr)⟩
  saw _ h := ⟨⟨h.user.mem, h.user.committed, h.user.pending⟩,
    ⟨h.username.mem, h.username.committed, h.username.pending⟩,
    ⟨h.email.mem, h.email.committed, h.email.pending⟩⟩

variable {P : Protocol Λ Row Empty Error}

/-- The identifier has been drawn, so that its row is locked and absent. -/
theorem wp_insertUser (hP : P.KeepsLocked) (hreq : ∀ o σ db, P.require o σ db)
    (hB : Persistent P B)
    (husername : KeyRefused P ℓ B (.usernameKey (lower r.username)) (.usernameExists r.username))
    (hemail : KeyRefused P ℓ B (.emailKey (lower r.email)) (.emailExists r.email))
    (hnew : Held (.user id) none none σ db) (hother : ChangesOnly (fun _ => False) σ db)
    (hb : B σ db) (hi : P.inv db) :
    wp schema P ℓ (insertUser lower id r)
      (fun _ σ db => Created lower id r σ db ∧ ChangesOnly (userRows lower id r.username r.email) σ db ∧
        B σ db)
      σ db := by
  have huser := held_stable hP (κ := Empty) (.user id) none (some r)
  have hname := held_stable hP (κ := Empty) (.usernameKey (lower r.username)) none (some id)
  -- the row
  refine wp_bind (wp_mono (wp_insertOrRaise_reserved hP
    ((changesOnly_stable hP fun i => i = .user id).and hB.toStable)
    (fun h => ⟨h.1.write rfl, hB.write _ _ h.2⟩) (fun _ => hreq _ _ _) rfl hnew
    ⟨hother.mono fun _ => False.elim, hb⟩) ?_) hi
  rintro - σ₂ db₂ hi₂ ⟨hu₂, hframe₂, hb₂⟩
  -- its entry in `uq_users_username`
  refine wp_bind (wp_mono (wp_insertOrRaise_held hP (huser.and hB.toStable)
    (fun h => ⟨h.1.write nofun, hB.write _ _ h.2⟩) (fun _ => hreq _ _ _)
    (fun hi h _ ha hne => husername.violated hi h.2 ha hne) rfl ⟨hu₂, hb₂⟩ hframe₂ nofun) ?_) hi₂
  rintro - σ₃ db₃ hi₃ ⟨hname₃, hframe₃, hu₃, hb₃⟩
  -- its entry in `uq_users_email`
  refine wp_mono (wp_insertOrRaise_held hP (hname.and (huser.and hB.toStable))
    (fun h => ⟨h.1.write nofun, h.2.1.write nofun, hB.write _ _ h.2.2⟩) (fun _ => hreq _ _ _)
    (fun hi h _ ha hne => hemail.violated hi h.2.2 ha hne) rfl ⟨hname₃, hu₃, hb₃⟩ hframe₃ nofun) ?_
  rintro - σ₄ db₄ - ⟨hemail₄, hframe₄, hname₄, hu₄, hb₄⟩
  exact ⟨⟨hu₄, hname₄, hemail₄⟩, hframe₄.mono fun _ => or_assoc.mp, hb₄⟩

/-- The row that `sp_register_user` inserts. -/
def registeredRow (u : Username) (e : Email) (passwordHash : Option String) : User where
  username := u
  email := e
  passwordHash := passwordHash

theorem wp_spRegisterUser {u : Username} {e : Email} {hash : Option String}
    (hB : Persistent (identityProtocol lower extra assume allowed) B)
    (husername : KeyRefused (identityProtocol lower extra assume allowed) ℓ B
      (.usernameKey (lower u)) (.usernameExists u))
    (hemail : KeyRefused (identityProtocol lower extra assume allowed) ℓ B
      (.emailKey (lower e)) (.emailExists e))
    (hσ : σ.writes = []) (hb : B σ db) (hi : Consistent lower db ∧ extra db) :
    wp schema (identityProtocol lower extra assume allowed) ℓ (spRegisterUser lower u e hash)
      (fun id σ db => Created lower id (registeredRow u e hash) σ db ∧
        ChangesOnly (userRows lower id u e) σ db ∧ B σ db) σ db := by
  refine wp_checkKey (fun _ h => h.existsUsername_eq u) husername hB hσ hb hi ?_
  intro σ₁ db₁ hi₁ hσ₁ hb₁
  refine wp_checkKey (fun _ h => h.existsEmail_eq e) hemail hB hσ₁ hb₁ hi₁ ?_
  intro σ₂ db₂ hi₂ hσ₂ hb₂
  refine wp_bind (wp_generate fun db₃ hr₃ hi₃ id hid _ db₄ hr₄ hi₄ => ?_) hi₂
  -- nobody has used the identifier
  have hnew : Held (.user id) none none (σ₂.lockRow (.user id)) db₄ := by
    have hnone : db₃.row (.user id) = none := by
      by_contra hne
      exact hid (db₃.mem_ids _ (Option.isSome_iff_ne_none.mpr hne))
    have hheld : Held (.user id) none none (σ₂.lockRow (.user id)) db₃ := by
      refine ⟨List.mem_cons_self, hnone, ?_⟩
      rw [Session.lockRow_view, view_of_writes hσ₂]
      exact hnone
    exact hheld.rely hr₄.1
  have hother : ChangesOnly (fun _ => False) (σ₂.lockRow (.user id)) db₄ := by
    intro i _
    rw [Session.lockRow_view, view_of_writes hσ₂]
  have hb₄ := hB.rely (hB.lockRow (.user id) (hB.rely hb₂ hr₃ hi₃)) hr₄ hi₄
  refine wp_bind (wp_mono (wp_insertUser (r := registeredRow u e hash) identityProtocol_keepsLocked
    (fun _ _ _ => trivial) hB husername hemail hnew hother hb₄ hi₄) ?_) hi₄
  rintro - σ₅ db₅ - ⟨hcreated, hframe, hb₅⟩
  exact wp_ret fun db₆ hr₆ hi₆ => ⟨(created_stable identityProtocol_keepsLocked id _).rely hcreated
    hr₆ hi₆, hframe.rely hr₆.1, hB.rely hb₅ hr₆ hi₆⟩

/-! ### Later statements of the transaction -/

theorem setUser_sets (id : Uuid) (set : User → User) : (setUser id set).Sets (.user id) set where
  self _ := if_pos rfl
  other i r hi := by
    cases i with
    | user u => exact if_neg fun h : u = id => hi (congrArg RowId.user h)
    | _ => rfl

/-- An `UPDATE` of the created user that keeps its names. -/
theorem wp_setUser_created {f : User → User} {p : RowId → Prop}
    {A : IdentitySession → Db → Prop} (hset : SameNames r (f r)) (hP : P.KeepsLocked)
    (hreq : ∀ o σ db, P.require o σ db) (hA : P.Stable A)
    (hwrite : ∀ {σ db v}, A σ db → A (σ.write (.user id) v) db) (hp : p (.user id))
    (h : Created lower id r σ db) (hframe : ChangesOnly p σ db) (ha : A σ db) (hi : P.inv db) :
    wp schema P ℓ ((Proc.update (setUser id f)).bind fun _ => pure () : IdentityProc Unit)
      (fun _ σ db => Created lower id (f r) σ db ∧ ChangesOnly p σ db ∧ A σ db) σ db := by
  have hrest := ((held_stable hP (κ := Empty) (.usernameKey (lower r.username)) none (some id)).and
    (held_stable hP (κ := Empty) (.emailKey (lower r.email)) none (some id))).and
    ((changesOnly_stable hP p).and hA)
  refine wp_bind (wp_mono (wp_update_held hP (setUser_sets id f) hrest (fun h => ?_)
    (fun _ => ⟨hreq _ _ _, hreq _ _ _⟩) nofun h.user ⟨⟨h.username, h.email⟩, hframe, ha⟩) ?_) hi
  · exact ⟨⟨h.1.1.write nofun, h.1.2.write nofun⟩, h.2.1.write hp, hwrite h.2.2⟩
  rintro - σ₁ db₁ - ⟨hu, ⟨hname, hemail⟩, hframe₁, ha₁⟩
  refine wp_ret fun db₂ hr₂ hi₂ => ⟨⟨hu.rely (hP hr₂), ?_, ?_⟩, hframe₁.rely (hP hr₂),
    hA.rely ha₁ hr₂ hi₂⟩
  · rw [hset.1]
    exact hname.rely (hP hr₂)
  · rw [hset.2.1]
    exact hemail.rely (hP hr₂)

end Spec

/-! ### Commits -/

/-- The rows that are present stay as they are. -/
def InsertsOnly (σ : IdentitySession) (db : Db) : Prop :=
  ∀ i, db.row i ≠ none → (σ.view db).row i = db.row i

theorem InsertsOnly.row (h : InsertsOnly σ db) {i : RowId} {x : Row i} (hx : db.row i = some x) :
    (σ.view db).row i = some x :=
  (h i (by rw [hx]; exact Option.some_ne_none x)).trans hx

theorem InsertsOnly.grows (h : InsertsOnly σ db) : Grows db (σ.view db) where
  user _ r hr := ⟨r, h.row hr, rfl, rfl, rfl⟩
  usernameKey _ _ hk := h.row hk
  emailKey _ _ hk := h.row hk
  oauthAccount _ _ hs := h.row hs

/-- Growth keeps the database consistent when what is new is consistent. -/
theorem Consistent.of_grows (h : Consistent lower db) (hg : Grows db db')
    (huser : ∀ id r, db'.row (.user id) = some r →
      (∃ r₀, db.row (.user id) = some r₀ ∧ SameNames r₀ r) ∨
      (db'.row (.usernameKey (lower r.username)) = some id ∧
        db'.row (.emailKey (lower r.email)) = some id))
    (hname : ∀ k id, db'.row (.usernameKey k) = some id → db.row (.usernameKey k) = some id ∨
      ∃ r, db'.row (.user id) = some r ∧ lower r.username = k)
    (hemail : ∀ k id, db'.row (.emailKey k) = some id → db.row (.emailKey k) = some id ∨
      ∃ r, db'.row (.user id) = some r ∧ lower r.email = k)
    (haccount : ∀ s id, db'.row (.oauthAccount s) = some id →
      db.row (.oauthAccount s) = some id ∨ ∃ r, db'.row (.user id) = some r) :
    Consistent lower db' where
  username id r hr := by
    rcases huser id r hr with ⟨r₀, hr₀, hs⟩ | ⟨hk, -⟩
    · rw [hs.1]
      exact hg.usernameKey _ _ (h.username id r₀ hr₀)
    · exact hk
  email id r hr := by
    rcases huser id r hr with ⟨r₀, hr₀, hs⟩ | ⟨-, hk⟩
    · rw [hs.2.1]
      exact hg.emailKey _ _ (h.email id r₀ hr₀)
    · exact hk
  user_of_username k id hk := by
    rcases hname k id hk with hk | hnew
    · obtain ⟨r, hr, hrk⟩ := h.user_of_username k id hk
      obtain ⟨r', hr', hs⟩ := hg.user id r hr
      exact ⟨r', hr', by rw [hs.1]; exact hrk⟩
    · exact hnew
  user_of_email k id hk := by
    rcases hemail k id hk with hk | hnew
    · obtain ⟨r, hr, hrk⟩ := h.user_of_email k id hk
      obtain ⟨r', hr', hs⟩ := hg.user id r hr
      exact ⟨r', hr', by rw [hs.2.1]; exact hrk⟩
    · exact hnew
  user_of_account s id hs := by
    rcases haccount s id hs with hs | hnew
    · obtain ⟨r, hr⟩ := h.user_of_account s id hs
      obtain ⟨r', hr', -⟩ := hg.user id r hr
      exact ⟨r', hr'⟩
    · exact hnew

section Created

variable {p : RowId → Prop} (h : Created lower id r σ db) (hframe : ChangesOnly p σ db)

include h hframe

/-- What else is inserted has to be absent, too. -/
theorem Created.insertsOnly
    (hp : ∀ i, p i → userRows lower id r.username r.email i ∨
      (db.row i ≠ none → (σ.view db).row i = db.row i)) : InsertsOnly σ db := by
  intro i hi
  by_cases hpi : p i
  · rcases hp i hpi with (rfl | rfl | rfl) | hsame
    · exact absurd h.user.committed hi
    · exact absurd h.username.committed hi
    · exact absurd h.email.committed hi
    · exact hsame hi
  · exact hframe i hpi

/-- The new user has its entries; a new account is one of the new user. -/
theorem Created.consistent (hdb : Consistent lower db) (hg : Grows db (σ.view db))
    (hp : ∀ i, p i → userRows lower id r.username r.email i ∨ ∃ s, i = .oauthAccount s)
    (haccount : ∀ s, (σ.view db).row (.oauthAccount s) = db.row (.oauthAccount s) ∨
      (σ.view db).row (.oauthAccount s) = some id) : Consistent lower (σ.view db) := by
  refine hdb.of_grows hg (fun id' r' hr' => ?_) (fun k id' hk => ?_) (fun k id' hk => ?_)
    fun s id' hs => ?_
  · by_cases hid : id' = id
    · subst hid
      obtain rfl := Option.some.inj (h.user.pending.symm.trans hr')
      exact Or.inr ⟨h.username.pending, h.email.pending⟩
    · -- another user is as it was
      have hsame := hframe (.user id') fun hpi => by
        rcases hp _ hpi with (he | he | he) | ⟨s, he⟩
        · exact hid (RowId.user.inj he)
        all_goals cases he
      exact Or.inl ⟨r', hsame.symm.trans hr', rfl, rfl, rfl⟩
  · by_cases hkey : k = lower r.username
    · subst hkey
      obtain rfl := Option.some.inj (h.username.pending.symm.trans hk)
      exact Or.inr ⟨r, h.user.pending, rfl⟩
    · have hsame := hframe (.usernameKey k) fun hpi => by
        rcases hp _ hpi with (he | he | he) | ⟨s, he⟩
        · cases he
        · exact hkey (RowId.usernameKey.inj he)
        all_goals cases he
      exact Or.inl (hsame.symm.trans hk)
  · by_cases hkey : k = lower r.email
    · subst hkey
      obtain rfl := Option.some.inj (h.email.pending.symm.trans hk)
      exact Or.inr ⟨r, h.user.pending, rfl⟩
    · have hsame := hframe (.emailKey k) fun hpi => by
        rcases hp _ hpi with (he | he | he) | ⟨s, he⟩
        · cases he
        · cases he
        · exact hkey (RowId.emailKey.inj he)
        · cases he
      exact Or.inl (hsame.symm.trans hk)
  · rcases haccount s with hsame | hnew
    · exact Or.inl (hsame.symm.trans hs)
    · obtain rfl := Option.some.inj (hnew.symm.trans hs)
      -- the account is linked to the new user
      exact Or.inr ⟨r, h.user.pending⟩

end Created

/-- A commit owes the protocol consistency, growth and the further invariant. -/
theorem identityProtocol_commits {Λ : Type} {extra : Db → Prop}
    {assume : Λ → Op RowId Empty → IdentitySession → Db → Prop} {allowed : Error → Prop}
    (hc : Consistent lower (σ.view db)) (hg : Grows db (σ.view db)) (hx : extra (σ.view db)) :
    Commits schema (identityProtocol lower extra assume allowed) σ db where
  deferred _ h := nomatch h
  inv _ := ⟨hc, hx⟩
  rely _ _ hap := ⟨fun _ hi => σ.view_row_of_notMem db fun hi' => hap.rows _ hi' hi, hg⟩

end IdentityDb

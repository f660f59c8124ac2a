import TaskManagement.ReadCommitted.Outcomes
import TaskManagement.Users.Equiv.Identity

/-!
# Concurrent registrations

In every run of `register` requests no two users share a name or an e-mail, up to case, and of the
requests of a group that asks for one name and one e-mail exactly one succeeds, unless a request
outside of the group has taken the name or the e-mail.

The second transaction to insert a key that another one has inserted waits for its commit and then
gets `23505`, which `_duplicate_error_for` does not know.  A request that does not succeed is
answered with one of the two duplicate errors in every run in which no request comes to an `INSERT`
of a key that has been committed since it was looked up (`InsertsFreeKey`).

* `Registered`: what a request has done to the database when it commits, by `wp_register`.
* `Registrations`: the invariant of a run; every key belongs to a request that has succeeded.
* `exists_key_of_failed`: the error of a request names a key of its own that is taken.
* `register_runs`, with `register_runs_oneAfterTheOther` and `register_answers_uniqueViolation`.
-/

namespace IdentityDb

open ReadCommitted

variable {lower : String → String} {db db' : Db} {id : Uuid} {σ : IdentitySession}
  {payload p q : RegisterRequest}

/-! ### Requests -/

/-- The requests ask for the same name and the same e-mail, up to case. -/
def SameKeys (lower : String → String) (p q : RegisterRequest) : Prop :=
  lower p.username = lower q.username ∧ lower p.email = lower q.email

/-- The requests ask for the same name or for the same e-mail, up to case. -/
def Collide (lower : String → String) (p q : RegisterRequest) : Prop :=
  lower p.username = lower q.username ∨ lower p.email = lower q.email

/-- Neither the name nor the e-mail of the request is taken. -/
def HoldsNeither (lower : String → String) (db : Db) (payload : RegisterRequest) : Prop :=
  db.row (.usernameKey (lower payload.username)) = none ∧
    db.row (.emailKey (lower payload.email)) = none

/-- `DuplicateUsernameError` or `DuplicateEmailError`. -/
def Error.IsDuplicate : Error → Prop
  | .duplicateUsername _ | .duplicateEmail _ => True
  | _ => False

/-- The key that an error is about. -/
def Error.key (lower : String → String) : Error → Option RowId
  | .usernameExists u | .duplicateUsername u => some (.usernameKey (lower u))
  | .emailExists e | .duplicateEmail e => some (.emailKey (lower e))
  | .uniqueViolation k => some k
  | _ => none

/-- The row that a request inserts. -/
def RegisterRequest.row (payload : RegisterRequest) : User where
  username := payload.username
  email := payload.email
  passwordHash := some payload.passwordHash
  profile := payload.profile

/-! ### One request -/

/-- What may be answered when the name or the e-mail of the request is taken. -/
structure Refused {Λ : Type} (lower : String → String) (P : Protocol Λ Row Empty Error) (ℓ : Λ)
    (payload : RegisterRequest) : Prop where
  username : KeyRefused P ℓ (fun _ _ => True) (.usernameKey (lower payload.username))
    (.usernameExists payload.username)
  email : KeyRefused P ℓ (fun _ _ => True) (.emailKey (lower payload.email))
    (.emailExists payload.email)
  duplicateUsername : ∀ {db}, P.inv db → db.row (.usernameKey (lower payload.username)) ≠ none →
    P.allowed (.duplicateUsername payload.username)
  duplicateEmail : ∀ {db}, P.inv db → db.row (.emailKey (lower payload.email)) ≠ none →
    P.allowed (.duplicateEmail payload.email)

/-- The request has inserted its user and changed nothing else. -/
structure Registered (lower : String → String) (payload : RegisterRequest) (id : Uuid)
    (σ : IdentitySession) (db : Db) : Prop where
  created : Created lower id payload.row σ db
  other : ChangesOnly (userRows lower id payload.username payload.email) σ db

section Registered

variable (h : Registered lower payload id σ db)

include h

theorem Registered.insertsOnly : InsertsOnly σ db :=
  h.created.insertsOnly h.other fun _ hi => Or.inl hi

theorem Registered.consistent (hdb : Consistent lower db) : Consistent lower (σ.view db) :=
  h.created.consistent h.other hdb h.insertsOnly.grows (fun _ hi => Or.inl hi) fun s =>
    Or.inl (h.other (.oauthAccount s) (by rintro (h | h | h) <;> cases h))

end Registered

section Spec

variable {Λ : Type} {ℓ : Λ} {extra : Db → Prop}
  {assume : Λ → Op RowId Empty → IdentitySession → Db → Prop} {allowed : Error → Prop}

theorem wp_register (hlower : ∀ t, '@' ∈ (lower t).toList ↔ '@' ∈ t.toList)
    (hrefused : Refused lower (identityProtocol lower extra assume allowed) ℓ payload)
    (hi : Consistent lower db ∧ extra db) :
    wp schema (identityProtocol lower extra assume allowed) ℓ (register lower payload)
      (fun id => Registered lower payload id) .start db := by
  have htaken : ∀ {entry : Db → Option Uuid} {s : Db} {a : Option (Uuid × User)},
      Looked entry s a → a.isSome = true → entry s ≠ none := by
    intro entry s a hlook ha
    rw [← hlook.fst]
    obtain ⟨x, rfl⟩ := Option.isSome_iff_exists.mp ha
    exact Option.some_ne_none x.1
  refine wp_bind (wp_mono (wp_getByLoginIdentifier hlower payload.username rfl hi) ?_) hi
  rintro sameName _ db₁ hi₁ ⟨s₁, hs₁, rfl, -, hlook₁⟩
  refine wp_bind (wp_raiseIf (fun h => hrefused.duplicateUsername hs₁ (htaken hlook₁ h))
    fun _ db₂ _ hi₂ => ?_) hi₁
  refine wp_bind (wp_mono (wp_getByEmail payload.email rfl hi₂) ?_) hi₂
  rintro sameEmail _ db₃ hi₃ ⟨s₃, hs₃, rfl, -, hlook₃⟩
  refine wp_bind (wp_raiseIf (fun h => hrefused.duplicateEmail hs₃ (htaken hlook₃ h))
    fun _ db₄ _ hi₄ => ?_) hi₃
  refine wp_bind (wp_mono (wp_spRegisterUser persistent_true hrefused.username hrefused.email rfl
    trivial hi₄) ?_) hi₄
  rintro userId σ₅ db₅ hi₅ ⟨hcreated, hother, -⟩
  refine wp_bind (wp_mono (wp_setUser_created
    (f := fun r => { r with profile := payload.profile }) ⟨rfl, rfl, rfl⟩
    identityProtocol_keepsLocked (fun _ _ _ => trivial) persistent_true.toStable
    (fun _ => trivial) (Or.inl rfl) hcreated hother trivial hi₅) ?_) hi₅
  rintro - σ₆ db₆ - ⟨hcreated₆, hother₆, -⟩
  exact wp_ret fun db₇ hr₇ hi₇ => ⟨(created_stable identityProtocol_keepsLocked userId _).rely
    hcreated₆ hr₇ hi₇, hother₆.rely hr₇.1⟩

end Spec

/-! ### The errors of a request -/

/-- An error that is about a key is about the name or the e-mail of the request, or about the row
of its user. -/
def RegisterRequest.Raises (lower : String → String) (payload : RegisterRequest) (e : Error) :
    Prop :=
  ∀ k, e.key lower = some k → (∃ id, k = .user id) ∨ k = .usernameKey (lower payload.username) ∨
    k = .emailKey (lower payload.email)

theorem raises_oneOrNone {E : Error → Prop} (h : E .multipleResults) (rows : List (Uuid × User)) :
    (oneOrNone rows).Raises E := by
  unfold oneOrNone
  split
  · trivial
  · trivial
  · exact h

theorem raises_register (payload : RegisterRequest) :
    (register lower payload).Raises (payload.Raises lower) := by
  have hname : ∀ e : Error, e.key lower = some (.usernameKey (lower payload.username)) →
      payload.Raises lower e := fun e he k hk => Or.inr (Or.inl (Option.some.inj (hk.symm.trans he)))
  have hemail : ∀ e : Error, e.key lower = some (.emailKey (lower payload.email)) →
      payload.Raises lower e := fun e he k hk => Or.inr (Or.inr (Option.some.inj (hk.symm.trans he)))
  have huser : ∀ id, payload.Raises lower (.uniqueViolation (.user id)) :=
    fun id k hk => Or.inl ⟨id, (Option.some.inj hk).symm⟩
  have hlookup : ∀ f : Db → List (Uuid × User),
      ((Proc.select f).bind oneOrNone).Raises (payload.Raises lower) :=
    fun f => Proc.raises_select.bind fun rows => raises_oneOrNone nofun rows
  refine (hlookup _).bind fun _ => (Proc.raises_raiseIf (hname _ rfl)).bind fun _ =>
    (hlookup _).bind fun _ => (Proc.raises_raiseIf (hemail _ rfl)).bind fun _ =>
    Proc.Raises.bind ?_ fun _ => (Proc.raises_update.bind fun _ => Proc.raises_ret).bind
      fun _ => Proc.raises_ret
  -- `sp_register_user`
  refine Proc.raises_select.bind fun _ => (Proc.raises_raiseIf (hname _ rfl)).bind fun _ =>
    Proc.raises_select.bind fun _ => (Proc.raises_raiseIf (hemail _ rfl)).bind fun _ =>
    Proc.raises_generate.bind fun _ => Proc.Raises.bind ?_ fun _ => Proc.raises_ret
  exact (Proc.raises_insertOrRaise (huser _)).bind fun _ =>
    (Proc.raises_insertOrRaise (hname _ rfl)).bind fun _ =>
      Proc.raises_insertOrRaise (hemail _ rfl)

/-! ### Runs -/

section Run

variable {τ : Type} [DecidableEq τ] [Fintype τ] {payload : τ → RegisterRequest}
  {db₀ : Db} {c c' : Config τ Row Empty Uuid Error Uuid} {t : τ} {ch : Choice RowId Uuid}

/-- The requests at their beginning. -/
abbrev registrations (lower : String → String) (db₀ : Db) (payload : τ → RegisterRequest) :
    Config τ Row Empty Uuid Error Uuid := .init db₀ fun t => register lower (payload t)

omit [DecidableEq τ] [Fintype τ] in
theorem sound_registrations {extra : Db → Prop}
    {assume : Unit → Op RowId Empty → IdentitySession → Db → Prop} {allowed : Error → Prop}
    (hlower : ∀ t, '@' ∈ (lower t).toList ↔ '@' ∈ t.toList)
    (hdb₀ : Consistent lower db₀ ∧ extra db₀)
    (hrefused : ∀ p, Refused lower (identityProtocol lower extra assume allowed) () p) :
    Sound schema (identityProtocol lower extra assume allowed) (fun _ => ())
      (fun t id => Registered lower (payload t) id) (registrations lower db₀ payload) :=
  sound_init hdb₀ fun _ => wp_register hlower (hrefused _) hdb₀

/-- Nothing is assumed, and any error may be raised. -/
abbrev anyProtocol (lower : String → String) : Protocol Unit Row Empty Error :=
  identityProtocol lower (fun _ => True) (fun _ _ _ _ => True) fun _ => True

theorem refused_any (p : RegisterRequest) : Refused lower (anyProtocol lower) () p :=
  ⟨⟨fun _ _ _ _ => trivial, fun _ _ _ _ => trivial⟩,
    ⟨fun _ _ _ _ => trivial, fun _ _ _ _ => trivial⟩, fun _ _ => trivial, fun _ _ => trivial⟩

theorem sound_of_reachable (hlower : ∀ t, '@' ∈ (lower t).toList ↔ '@' ∈ t.toList)
    (hdb₀ : Consistent lower db₀) (hc : Reachable schema (registrations lower db₀ payload) c) :
    Sound schema (anyProtocol lower) (fun _ => ()) (fun t id => Registered lower (payload t) id)
      c :=
  (sound_registrations hlower ⟨hdb₀, trivial⟩ refused_any).run
    (fun _ _ _ _ hi h _ => identityProtocol_commits (h.consistent hi.1) h.insertsOnly.grows trivial)
    (hc.mono fun _ _ _ _ _ _ _ _ _ => trivial)

section Step

variable (hlower : ∀ t, '@' ∈ (lower t).toList ↔ '@' ∈ t.toList) (hdb₀ : Consistent lower db₀)
  (hc : Reachable schema (registrations lower db₀ payload) c) (hst : c.step schema t ch = some c')

include hlower hdb₀ hc hst

theorem grows_of_step : Grows c.db c'.db := by
  rcases (sound_of_reachable hlower hdb₀ hc).step_cases hst with ⟨id, σ, -, hdb, h⟩ | ⟨hdb, -⟩
  · rw [hdb]
    exact h.insertsOnly.grows
  · rw [hdb]
    exact Grows.refl c.db

end Step

/-! ### The keys of a run -/

/-- Every key that is taken in a run belongs to a request that has succeeded. -/
structure Registrations (lower : String → String) (payload : τ → RegisterRequest) (db₀ : Db)
    (c : Config τ Row Empty Uuid Error Uuid) : Prop where
  username : ∀ t id, c.tx t = .done (.ok id) →
    c.db.row (.usernameKey (lower (payload t).username)) = some id
  email : ∀ t id, c.tx t = .done (.ok id) →
    c.db.row (.emailKey (lower (payload t).email)) = some id
  apart : ∀ t u, c.Committed t → c.Committed u → Collide lower (payload t) (payload u) → t = u
  of_username : ∀ k, c.db.row (.usernameKey k) ≠ none → db₀.row (.usernameKey k) ≠ none ∨
    ∃ t, c.Committed t ∧ lower (payload t).username = k
  of_email : ∀ k, c.db.row (.emailKey k) ≠ none → db₀.row (.emailKey k) ≠ none ∨
    ∃ t, c.Committed t ∧ lower (payload t).email = k

omit [DecidableEq τ] [Fintype τ] in
theorem registrations_init : Registrations lower payload db₀ (registrations lower db₀ payload) where
  username _ _ h := nomatch h
  email _ _ h := nomatch h
  apart _ _ h := nomatch h
  of_username _ h := Or.inl h
  of_email _ h := Or.inl h

/-- The keys of a request that commits were free, so that no other request has them. -/
theorem Registrations.commit (hi : Registrations lower payload db₀ c)
    (hst : c.step schema t ch = some c') (hid : c'.tx t = .done (.ok id))
    (hdb : c'.db = σ.view c.db) (h : Registered lower (payload t) id σ c.db) :
    Registrations lower payload db₀ c' := by
  have hkeep : ∀ {u id'}, u ≠ t → c'.tx u = .done (.ok id') → c.tx u = .done (.ok id') :=
    fun hu hdone => (Config.tx_of_ne hst hu).symm.trans hdone
  have hstay : ∀ {u}, c.Committed u → c'.Committed u :=
    fun ⟨id', hu⟩ => ⟨id', Config.done_of_step hst hu⟩
  -- a request that committed before has written its two keys
  have hnew : ∀ u, u ≠ t → c'.Committed u → ¬Collide lower (payload t) (payload u) := by
    rintro u hu ⟨id', hdone⟩ (heq | heq)
    · have hrow := hi.username u id' (hkeep hu hdone)
      rw [← heq] at hrow
      exact nomatch h.created.username.committed.symm.trans hrow
    · have hrow := hi.email u id' (hkeep hu hdone)
      rw [← heq] at hrow
      exact nomatch h.created.email.committed.symm.trans hrow
  refine ⟨fun u id' hu => ?_, fun u id' hu => ?_, fun u v hu hv huv => ?_, fun k hk => ?_,
    fun k hk => ?_⟩
  · rw [hdb]
    by_cases hut : u = t
    · subst hut
      cases hid.symm.trans hu
      exact h.created.username.pending
    · exact h.insertsOnly.row (hi.username u id' (hkeep hut hu))
  · rw [hdb]
    by_cases hut : u = t
    · subst hut
      cases hid.symm.trans hu
      exact h.created.email.pending
    · exact h.insertsOnly.row (hi.email u id' (hkeep hut hu))
  · by_cases hut : u = t
    · subst hut
      -- the request that commits now against one that committed before
      by_contra hvu
      exact hnew v (Ne.symm hvu) hv huv
    · by_cases hvt : v = t
      · subst hvt
        exact absurd (huv.imp Eq.symm Eq.symm) (hnew u hut hu)
      · obtain ⟨id₁, hu⟩ := hu
        obtain ⟨id₂, hv⟩ := hv
        exact hi.apart u v ⟨id₁, hkeep hut hu⟩ ⟨id₂, hkeep hvt hv⟩ huv
  · by_cases hkey : lower (payload t).username = k
    · exact Or.inr ⟨t, ⟨id, hid⟩, hkey⟩
    · -- a key that is not its own it leaves as it was
      have hsame := h.other (.usernameKey k) (by
        rintro (he | he | he)
        · cases he
        · exact hkey (RowId.usernameKey.inj he).symm
        · cases he)
      rw [hdb, hsame] at hk
      exact (hi.of_username k hk).imp_right fun ⟨u, hu, huk⟩ => ⟨u, hstay hu, huk⟩
  · by_cases hkey : lower (payload t).email = k
    · exact Or.inr ⟨t, ⟨id, hid⟩, hkey⟩
    · have hsame := h.other (.emailKey k) (by
        rintro (he | he | he)
        · cases he
        · cases he
        · exact hkey (RowId.emailKey.inj he).symm)
      rw [hdb, hsame] at hk
      exact (hi.of_email k hk).imp_right fun ⟨u, hu, huk⟩ => ⟨u, hstay hu, huk⟩

theorem registrations_of_reachable (hlower : ∀ t, '@' ∈ (lower t).toList ↔ '@' ∈ t.toList)
    (hdb₀ : Consistent lower db₀) (hc : Reachable schema (registrations lower db₀ payload) c) :
    Registrations lower payload db₀ c := by
  induction hc with
  | refl => exact registrations_init
  | step hc _ hst ih =>
    rcases (sound_of_reachable hlower hdb₀ hc).step_cases hst with
      ⟨id, σ, hid, hdb, h⟩ | ⟨hdb, hdone⟩
    · exact ih.commit hst hid hdb h
    · -- nothing is committed
      have hback : ∀ {u}, Config.Committed _ u → Config.Committed _ u :=
        fun ⟨id, hu⟩ => ⟨id, hdone _ id hu⟩
      have hstay : ∀ {u}, Config.Committed _ u → Config.Committed _ u :=
        fun ⟨id, hu⟩ => ⟨id, Config.done_of_step hst hu⟩
      refine ⟨fun u id hu => ?_, fun u id hu => ?_, fun u v hu hv => ih.apart u v (hback hu)
        (hback hv), fun k hk => ?_, fun k hk => ?_⟩
      · rw [hdb]
        exact ih.username u id (hdone u id hu)
      · rw [hdb]
        exact ih.email u id (hdone u id hu)
      · rw [hdb] at hk
        exact (ih.of_username k hk).imp_right fun ⟨u, hu, huk⟩ => ⟨u, hstay hu, huk⟩
      · rw [hdb] at hk
        exact (ih.of_email k hk).imp_right fun ⟨u, hu, huk⟩ => ⟨u, hstay hu, huk⟩

/-! ### Requests that fail -/

/-- Seen from the database `last` in which a run ends: the database grows up to it, and an error is
about a key that is taken in it. -/
abbrev endProtocol (lower : String → String) (last : Db) : Protocol Unit Row Empty Error :=
  identityProtocol lower (fun db => Grows db last)
    (fun _ o σ db => o = .commit → Grows (σ.view db) last)
    fun e => ∃ k, e.key lower = some k ∧ last.row k ≠ none ∧ ∀ id, k ≠ .user id

theorem refused_end (last : Db) (p : RegisterRequest) :
    Refused lower (endProtocol lower last) () p := by
  have hname : ∀ {db : Db} {k}, Grows db last → db.row (.usernameKey k) ≠ none →
      last.row (.usernameKey k) ≠ none := by
    intro db k hg hk
    obtain ⟨id, hid⟩ := Option.ne_none_iff_exists'.mp hk
    rw [hg.usernameKey k id hid]
    exact Option.some_ne_none id
  have hemail : ∀ {db : Db} {k}, Grows db last → db.row (.emailKey k) ≠ none →
      last.row (.emailKey k) ≠ none := by
    intro db k hg hk
    obtain ⟨id, hid⟩ := Option.ne_none_iff_exists'.mp hk
    rw [hg.emailKey k id hid]
    exact Option.some_ne_none id
  exact ⟨⟨fun hi _ _ hk => ⟨_, rfl, hname hi.2 hk, nofun⟩,
      fun hi _ _ hk => ⟨_, rfl, hname hi.2 hk, nofun⟩⟩,
    ⟨fun hi _ _ hk => ⟨_, rfl, hemail hi.2 hk, nofun⟩,
      fun hi _ _ hk => ⟨_, rfl, hemail hi.2 hk, nofun⟩⟩,
    fun hi hk => ⟨_, rfl, hname hi.2 hk, nofun⟩, fun hi hk => ⟨_, rfl, hemail hi.2 hk, nofun⟩⟩

/-- A request fails only when its name or its e-mail is taken. -/
theorem exists_key_of_failed (hlower : ∀ t, '@' ∈ (lower t).toList ↔ '@' ∈ t.toList)
    (hdb₀ : Consistent lower db₀) (hc : Reachable schema (registrations lower db₀ payload) c)
    {e : Error} (hfail : c.tx t = .done (.error e)) :
    c.db.row (.usernameKey (lower (payload t).username)) ≠ none ∨
      c.db.row (.emailKey (lower (payload t).email)) ≠ none := by
  -- the error is about a key of the request
  have hown : (payload t).Raises lower e :=
    (hc.raises (E := fun t => (payload t).Raises lower) (fun t => raises_register (payload t))
      (by rintro _ _ _ _ ⟨⟩) (by rintro _ _ _ ⟨⟩)).2 t e hfail
  -- and about one that is taken at the end of the run
  have hrun : Run schema (fun d t ch => ch = .cancel ∨
      (endProtocol lower c.db).Admits (fun _ => ()) d t ch) (registrations lower db₀ payload) c := by
    refine hc.mono_of_leads (R := fun d d' => Grows d.db d'.db) (fun d => Grows.refl d.db)
      (fun hd _ hst hg => (grows_of_step hlower hdb₀ hd hst).trans hg) ?_
    intro d u ch d' _ _ hst hg
    by_cases hch : ch = .cancel
    · exact Or.inl hch
    refine Or.inr ?_
    rintro p σ _ hu hop rfl
    obtain ⟨id, rfl⟩ := Proc.eq_ret_of_op hop
    rw [← (Config.commit_of_ret hst hch hu rfl).1]
    exact hg
  have hgrows : Grows db₀ c.db := by
    clear hrun hfail
    induction hc with
    | refl => exact Grows.refl db₀
    | step hc _ hst ih => exact ih.trans (grows_of_step hlower hdb₀ hc hst)
  have hcommits : ∀ u id σ db, (endProtocol lower c.db).inv db →
      Registered lower (payload u) id σ db → (endProtocol lower c.db).assume () .commit σ db →
      Commits schema (endProtocol lower c.db) σ db := fun u id σ db hi h hlast =>
    identityProtocol_commits (h.consistent hi.1) h.insertsOnly.grows (hlast rfl)
  have hsound := (sound_registrations hlower ⟨hdb₀, hgrows⟩ (refused_end c.db)).run_or_cancel
    hcommits hrun
  obtain ⟨k, hk, htaken, huser⟩ := hsound.error t e hfail
  rcases hown k hk with ⟨id, rfl⟩ | rfl | rfl
  · exact absurd rfl (huser id)
  · exact Or.inl htaken
  · exact Or.inr htaken

/-- A key that is inserted is not taken. -/
def FreeKey (db : Db) : Op RowId Empty → Prop
  | .insert (.usernameKey k) => db.row (.usernameKey k) = none
  | .insert (.emailKey k) => db.row (.emailKey k) = none
  | _ => True

instance (db : Db) (o : Op RowId Empty) : Decidable (FreeKey db o) := by
  unfold FreeKey
  split <;> infer_instance

/-- The step does not insert a key that is taken, which is one that another transaction has
committed since the `EXISTS` of this one. -/
def InsertsFreeKey (c : Config τ Row Empty Uuid Error Uuid) (t : τ) (ch : Choice RowId Uuid) :
    Prop :=
  match ch, c.tx t with
  | .cancel, _ => True
  | ch, .active p _ => ∀ o ∈ p.op ch, FreeKey c.db o
  | _, _ => True

instance (c : Config τ Row Empty Uuid Error Uuid) (t : τ) (ch : Choice RowId Uuid) :
    Decidable (InsertsFreeKey c t ch) := by
  unfold InsertsFreeKey
  refine Tx.casesOn (c.tx t) (fun p _ => ?_) (fun _ => ?_) ?_ <;>
    refine Choice.casesOn ch ?_ ?_ ?_ ?_ <;> intros <;> infer_instance

omit [DecidableEq τ] [Fintype τ] in
theorem InsertsFreeKey.freeKey (h : InsertsFreeKey c t ch) (hch : ch ≠ .cancel)
    {p : IdentityProc Uuid} {o : Op RowId Empty} (ht : c.tx t = .active p σ)
    (ho : p.op ch = some o) : FreeKey c.db o := by
  unfold InsertsFreeKey at h
  rw [ht] at h
  cases ch with
  | cancel => exact absurd rfl hch
  | _ => exact h o ho

/-- Keys that are inserted are free, and every error becomes a duplicate error. -/
abbrev freeProtocol (lower : String → String) : Protocol Unit Row Empty Error :=
  identityProtocol lower (fun _ => True) (fun _ o _ db => FreeKey db o)
    fun e => (registerError e).IsDuplicate

theorem refused_free (p : RegisterRequest) : Refused lower (freeProtocol lower) () p :=
  ⟨⟨fun _ _ _ _ => trivial, fun _ _ hfree htaken => absurd hfree htaken⟩,
    ⟨fun _ _ _ _ => trivial, fun _ _ hfree htaken => absurd hfree htaken⟩,
    fun _ _ => trivial, fun _ _ => trivial⟩

theorem isDuplicate_of_run (hlower : ∀ t, '@' ∈ (lower t).toList ↔ '@' ∈ t.toList)
    (hdb₀ : Consistent lower db₀)
    (hc : Run schema InsertsFreeKey (registrations lower db₀ payload) c) {e : Error}
    (hfail : c.tx t = .done (.error e)) : (registerError e).IsDuplicate := by
  refine ((sound_registrations hlower ⟨hdb₀, trivial⟩ refused_free).run_or_cancel
    (fun _ _ _ _ hi h _ => identityProtocol_commits (h.consistent hi.1) h.insertsOnly.grows trivial)
    (hc.mono fun c t ch hfree => ?_)).error t e hfail
  by_cases hch : ch = .cancel
  · exact Or.inl hch
  · exact Or.inr fun p σ o ht ho => hfree.freeKey hch ht ho

/-- In every run no two users share a name or an e-mail, and of a group of requests for one name and
one e-mail that are free, once all have ended, exactly one has succeeded, unless a request outside
of the group has the name or the e-mail.  In the runs in which every key that is inserted is free,
every request that fails is answered with a duplicate error. -/
theorem register_runs (hlower : ∀ t, '@' ∈ (lower t).toList ↔ '@' ∈ t.toList)
    (hdb₀ : Consistent lower db₀) (payload : τ → RegisterRequest) :
    (∀ c, Reachable schema (registrations lower db₀ payload) c → UniqueUsers lower c.db ∧
      ∀ G : Set τ, G.Nonempty → (∀ t ∈ G, ∀ u ∈ G, SameKeys lower (payload t) (payload u)) →
        (∀ t ∈ G, HoldsNeither lower db₀ (payload t)) → (∀ t ∈ G, c.Ended t) →
        (∃! t, t ∈ G ∧ c.Committed t) ∨
          ∃ u, u ∉ G ∧ c.Committed u ∧ ∃ t ∈ G, Collide lower (payload t) (payload u)) ∧
    ∀ c, Run schema InsertsFreeKey (registrations lower db₀ payload) c →
      ∀ t e, c.tx t = .done (.error e) → (registerError e).IsDuplicate := by
  refine ⟨fun c hc => ⟨(sound_of_reachable hlower hdb₀ hc).inv.1.unique, ?_⟩,
    fun c hc t e hfail => isDuplicate_of_run hlower hdb₀ hc hfail⟩
  rintro G ⟨t₀, ht₀⟩ hsame hneither hended
  have hi := registrations_of_reachable hlower hdb₀ hc
  -- a request that collides with the group and has succeeded
  obtain ⟨u, hu, hcollide⟩ : ∃ u, c.Committed u ∧ Collide lower (payload t₀) (payload u) := by
    obtain ⟨r, hr⟩ := hended t₀ ht₀
    cases r with
    | ok id => exact ⟨t₀, ⟨id, hr⟩, Or.inl rfl⟩
    | error e =>
      rcases exists_key_of_failed hlower hdb₀ hc hr with htaken | htaken
      · obtain ⟨u, hu, heq⟩ := (hi.of_username _ htaken).resolve_left
          fun hne => hne (hneither t₀ ht₀).1
        exact ⟨u, hu, Or.inl heq.symm⟩
      · obtain ⟨u, hu, heq⟩ := (hi.of_email _ htaken).resolve_left
          fun hne => hne (hneither t₀ ht₀).2
        exact ⟨u, hu, Or.inr heq.symm⟩
  by_cases huG : u ∈ G
  · refine Or.inl ⟨u, ⟨huG, hu⟩, ?_⟩
    rintro v ⟨hvG, hv⟩
    exact hi.apart v u hv hu (Or.inl (hsame v hvG u huG).1)
  · exact Or.inr ⟨u, huG, hu, t₀, ht₀, hcollide⟩

end Run

/-! ### Two requests for one name -/

def taro : RegisterRequest where
  username := ⟨"taro", by decide⟩
  email := ⟨"taro@example.com", by decide⟩
  passwordHash := "hash"
  lastName := "山田"
  firstName := "太郎"
  lastNameKana := "ヤマダ"
  firstNameKana := "タロウ"
  birthDate := 0

/-- Both have looked for the name and the e-mail and have found neither when the first inserts its
keys; the second inserts after the commit of the first. -/
def concurrentSteps : List (Fin 2 × Choice RowId Uuid) :=
  [(0, .go), (0, .go), (0, .go), (0, .go), (1, .go), (1, .go), (1, .go), (1, .go), (0, .gen 1),
    (0, .go), (0, .go), (0, .go), (1, .gen 2), (1, .go), (0, .go), (0, .pick (.user 1)), (0, .go),
    (0, .go), (1, .go), (1, .go)]

def concurrentRun : Config (Fin 2) Row Empty Uuid Error Uuid :=
  (registrations (fun s => s) .empty fun _ => taro).execTo schema (fun _ _ _ => True) concurrentSteps
    (by decide)

/-- The second request is not answered with a duplicate error. -/
theorem register_answers_uniqueViolation :
    Reachable schema (registrations (fun s => s) .empty fun _ => taro) concurrentRun ∧
      concurrentRun.tx 0 = .done (.ok 1) ∧
      ∃ e, concurrentRun.tx 1 = .done (.error e) ∧ ¬(registerError e).IsDuplicate :=
  ⟨run_execTo _, rfl, .uniqueViolation (.usernameKey "taro"), rfl, nofun⟩

/-- The second begins when the first has committed. -/
def oneAfterTheOtherSteps : List (Fin 2 × Choice RowId Uuid) :=
  [(0, .go), (0, .go), (0, .go), (0, .go), (0, .gen 1), (0, .go), (0, .go), (0, .go), (0, .go),
    (0, .pick (.user 1)), (0, .go), (0, .go), (1, .go), (1, .go)]

def oneAfterTheOther : Config (Fin 2) Row Empty Uuid Error Uuid :=
  (registrations (fun s => s) .empty fun _ => taro).execTo schema InsertsFreeKey oneAfterTheOtherSteps
    (by decide)

theorem register_runs_oneAfterTheOther :
    (∃ e, oneAfterTheOther.tx 1 = .done (.error e) ∧ (registerError e).IsDuplicate) ∧
      UniqueUsers (fun s => s) oneAfterTheOther.db := by
  have hruns := register_runs (fun _ => Iff.rfl)
    (consistent_empty : Consistent (fun s => s) .empty) fun _ : Fin 2 => taro
  exact ⟨⟨.duplicateUsername taro.username, rfl, hruns.2 oneAfterTheOther (run_execTo _) 1 _ rfl⟩,
    (hruns.1 oneAfterTheOther ((run_execTo _).mono fun _ _ _ _ => trivial)).1⟩

end IdentityDb

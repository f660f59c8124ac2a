import TaskManagement.ReadCommitted.Outcomes
import TaskManagement.Users.Equiv.Identity

/-!
# Concurrent logins through Google

In every run of `_resolve_or_create_user` calls at most one user is created for a `sub`, and calls
with one userinfo that return a user return the same one.

A call leaves its user linked to its `sub` exactly when, at its commit, nobody else is linked to it
(`LinkFits`): the `ON CONFLICT DO NOTHING` keeps a link that another call has committed since the
lookup, and the call returns its own user all the same.  A call whose lookup finds an account fails
when it reads the user of the account, and a call that creates a user fails when another call has
created it since the lookup; in the runs in which neither happens (`Unhindered`) no call fails.

* `Resolved`: what a call has done when it commits, in the two branches that return, by
  `wp_resolveOrCreateUser`.
* `Resolved.linked_iff`: the exact condition for one call.
* `resolve_runs`, with `resolve_runs_bothReturn` and `resolve_callbacks_collide`.
-/

namespace IdentityDb

open ReadCommitted

variable {lower : String → String} {googleUsername : String → Username} {db db' db₀ s : Db}
  {id x : Uuid} {r : User} {sub : String} {σ : IdentitySession} {info : GoogleUserInfo}
  {now : Timestamp} {p : RowId → Prop}

/-! ### Calls -/

/-- No user is deactivated. -/
def AllActive (db : Db) : Prop := ∀ id r, db.row (.user id) = some r → r.isActive = true

/-- The first lookup of a call, which is not older than `db₀`, has found no account. -/
def ShowsNone (db₀ : Db) (sub : String) (σ : IdentitySession) : Prop :=
  ∃ s, σ.snapshot 0 = some s ∧ s.row (.oauthAccount sub) = none ∧ Grows db₀ s

theorem ShowsNone.saw (h : ShowsNone db₀ sub σ) (s : Db) : ShowsNone db₀ sub (σ.saw s) := by
  obtain ⟨s₀, hs, hnone⟩ := h
  exact ⟨s₀, Session.snapshot_saw hs s, hnone⟩

/-- An account that is not shown was not there at the beginning. -/
theorem ShowsNone.row_eq_none (h : ShowsNone db₀ sub σ) : db₀.row (.oauthAccount sub) = none := by
  obtain ⟨s, -, hnone, hg⟩ := h
  by_contra hne
  obtain ⟨x, hx⟩ := Option.ne_none_iff_exists'.mp hne
  exact nomatch hnone.symm.trans (hg.oauthAccount _ _ hx)

/-- The lookups of the call have found neither an account nor a user with the e-mail. -/
def Creating (lower : String → String) (info : GoogleUserInfo) (σ : IdentitySession) : Prop :=
  (∃ s ∈ σ.snapshot 0, s.row (.oauthAccount info.sub) = none) ∧
    ∃ s ∈ σ.snapshot 1, s.row (.emailKey (lower info.email)) = none

/-- The account exists: it is new and belongs to `id`, or it is left as it was. -/
def Settled (sub : String) (id : Uuid) (σ : IdentitySession) (db : Db) : Prop :=
  Held (.oauthAccount sub) none (some id) σ db ∨
    ∃ x, db.row (.oauthAccount sub) = some x ∧ (σ.view db).row (.oauthAccount sub) = some x

/-- The rows that the branch of an existing user writes. -/
def linkRows (sub : String) (id : Uuid) (i : RowId) : Prop := i = .user id ∨ i = .oauthAccount sub

/-- The rows that the branch of a new user writes. -/
def createRows (lower : String → String) (googleUsername : String → Username)
    (info : GoogleUserInfo) (id : Uuid) (i : RowId) : Prop :=
  userRows lower id (googleUsername info.sub) info.email i ∨ i = .oauthAccount info.sub

/-- What a call that returns `id` has done; it has begun over `db₀` or later. -/
inductive Resolved (db₀ : Db) (lower : String → String) (googleUsername : String → Username)
    (info : GoogleUserInfo) (id : Uuid) (σ : IdentitySession) (db : Db) : Prop where
  /-- A user with the e-mail was there. -/
  | existing {r r' : User} (hshown : ShowsNone db₀ info.sub σ)
      (hemail : db.row (.emailKey (lower info.email)) = some id)
      (huser : Held (.user id) (some r) (some r') σ db) (hnames : SameNames r r')
      (hlink : Settled info.sub id σ db) (hother : ChangesOnly (linkRows info.sub id) σ db)
  /-- The user is new. -/
  | created {r : User} (hshown : ShowsNone db₀ info.sub σ) (huser : Created lower id r σ db)
      (hname : r.username = googleUsername info.sub) (hemail : r.email = info.email)
      (hactive : r.isActive = true) (hlink : Settled info.sub id σ db)
      (hother : ChangesOnly (createRows lower googleUsername info id) σ db)

/-! ### The statements of a call -/

section Spec

variable {Λ : Type} {ℓ : Λ} {extra : Db → Prop}
  {assume : Λ → Op RowId Empty → IdentitySession → Db → Prop} {allowed : Error → Prop}

theorem Settled.rely (h : Settled sub id σ db) (hr : ∀ i ∈ σ.rows, db'.row i = db.row i)
    (hg : Grows db db') : Settled sub id σ db' := by
  rcases h with hheld | ⟨x, hx, hview⟩
  · exact Or.inl (hheld.rely hr)
  · have hx' := hg.oauthAccount _ _ hx
    exact Or.inr ⟨x, hx', (view_row_rely hr (hview.trans hx.symm)).trans hx'⟩

theorem Settled.saw (h : Settled sub id σ db) (s : Db) : Settled sub id (σ.saw s) db :=
  h.imp_left fun hheld => ⟨hheld.mem, hheld.committed, hheld.pending⟩

theorem Settled.write {i : RowId} {v : Option (Row i)} (h : Settled sub id σ db)
    (hi : .oauthAccount sub ≠ i) : Settled sub id (σ.write i v) db := by
  rcases h with hheld | ⟨x, hx, hview⟩
  · exact Or.inl (hheld.write hi)
  · exact Or.inr ⟨x, hx, (Store.set_row_of_ne _ _ hi).trans hview⟩

theorem wp_insertAccount {A : IdentitySession → Db → Prop}
    (hA : (identityProtocol lower extra assume allowed).Stable A)
    (hwrite : ∀ {σ db v}, A σ db → A (σ.write (.oauthAccount sub) v) db)
    (hother : ChangesOnly p σ db) (hp : ¬p (.oauthAccount sub)) (ha : A σ db) :
    wp schema (identityProtocol lower extra assume allowed) ℓ
      (Proc.insertOrIgnore (.oauthAccount sub) id : IdentityProc Unit)
      (fun _ σ db => Settled sub id σ db ∧
        ChangesOnly (fun i => p i ∨ i = .oauthAccount sub) σ db ∧ A σ db) σ db := by
  refine wp_insertOrIgnore fun db₁ hr₁ hi₁ => ⟨trivial, fun _ => ⟨fun hne db₂ hr₂ hi₂ => ?_,
    fun hnone => ⟨nofun, fun db₂ hr₂ hi₂ => ?_⟩⟩⟩
  · -- `DO NOTHING`
    have hother₁ := hother.rely hr₁.1
    obtain ⟨x, hx⟩ := Option.ne_none_iff_exists'.mp hne
    have hsettled : Settled sub id σ db₁ := Or.inr ⟨x, (hother₁ _ hp).symm.trans hx, hx⟩
    exact ⟨hsettled.rely hr₂.1 hr₂.2,
      (hother₁.rely hr₂.1).mono fun _ => Or.inl, hA.rely (hA.rely ha hr₁ hi₁) hr₂ hi₂⟩
  · have hother₁ := hother.rely hr₁.1
    have hsettled : Settled sub id (σ.write (.oauthAccount sub) (some id)) db₁ :=
      Or.inl (held_write ((hother₁ _ hp).symm.trans hnone) _)
    have hother' : ChangesOnly (fun i => p i ∨ i = .oauthAccount sub)
        (σ.write (.oauthAccount sub) (some id)) db₁ :=
      (hother₁.mono fun _ => Or.inl).write (Or.inr rfl)
    exact ⟨hsettled.rely hr₂.1 hr₂.2, hother'.rely hr₂.1,
      hA.rely (hwrite (hA.rely ha hr₁ hi₁)) hr₂ hi₂⟩

theorem Resolved.rely (h : Resolved db₀ lower googleUsername info id σ db)
    (hr : ∀ i ∈ σ.rows, db'.row i = db.row i) (hg : Grows db db') :
    Resolved db₀ lower googleUsername info id σ db' := by
  cases h with
  | existing hshown hemail huser hnames hlink hother =>
    exact .existing hshown (hg.emailKey _ _ hemail) (huser.rely hr) hnames (hlink.rely hr hg)
      (hother.rely hr)
  | created hshown huser hname hemail hactive hlink hother =>
    exact .created hshown ⟨huser.user.rely hr, huser.username.rely hr, huser.email.rely hr⟩ hname
      hemail hactive (hlink.rely hr hg) (hother.rely hr)

/-- The lookups of the branch of an existing user. -/
def FoundEmail (db₀ : Db) (lower : String → String) (info : GoogleUserInfo) (id : Uuid)
    (σ : IdentitySession) (db : Db) : Prop :=
  ShowsNone db₀ info.sub σ ∧ db.row (.emailKey (lower info.email)) = some id

theorem foundEmail_stable :
    (identityProtocol lower extra assume allowed).Stable (FoundEmail db₀ lower info id) where
  rely h hr _ := ⟨h.1, hr.2.emailKey _ _ h.2⟩
  saw s h := ⟨h.1.saw s, h.2⟩

/-- The same after the `INSERT` of the account, when only rows of `p` are changed. -/
structure Linked (db₀ : Db) (lower : String → String) (info : GoogleUserInfo) (id : Uuid)
    (p : RowId → Prop) (σ : IdentitySession) (db : Db) : Prop where
  found : FoundEmail db₀ lower info id σ db
  link : Settled info.sub id σ db
  other : ChangesOnly p σ db

theorem linked_stable :
    (identityProtocol lower extra assume allowed).Stable (Linked db₀ lower info id p) where
  rely h hr hi := ⟨foundEmail_stable.rely h.found hr hi, h.link.rely hr.1 hr.2, h.other.rely hr.1⟩
  saw s h := ⟨⟨h.found.1.saw s, h.found.2⟩, h.link.saw s, h.other⟩

/-- Writing the user. -/
theorem Linked.write {v : Option User} (h : Linked db₀ lower info id p σ db)
    (hp : ∀ i, p i → linkRows info.sub id i) :
    Linked db₀ lower info id (linkRows info.sub id) (σ.write (.user id) v) db :=
  ⟨h.found, h.link.write nofun, (h.other.mono hp).write (Or.inl rfl)⟩

/-- `sp_upsert_oauth_account` for a user who exists. -/
theorem wp_spUpsertOAuthAccount_existing (hfound : FoundEmail db₀ lower info id σ db)
    (hσ : σ.writes = []) (hi : Consistent lower db ∧ extra db) :
    wp schema (identityProtocol lower extra assume allowed) ℓ
      (spUpsertOAuthAccount id info.sub now) (fun _ σ db =>
        (∃ r r', Held (.user id) (some r) (some r') σ db ∧ SameNames r r') ∧
          Linked db₀ lower info id (linkRows info.sub id) σ db) σ db := by
  have hother : ChangesOnly (fun _ => False) σ db := by
    intro i _
    rw [view_of_writes hσ]
  refine wp_bind (wp_mono (wp_insertAccount foundEmail_stable (fun h => h) hother not_false hfound)
    ?_) hi
  rintro - σ₁ db₁ hi₁ ⟨hlink₁, hother₁, hfound₁⟩
  -- only the account has been written, and the user is there
  refine wp_bind (wp_mono (wp_update_found identityProtocol_keepsLocked (setUser_sets id _)
    linked_stable linked_stable (fun h => h.write fun i hi => Or.inr (hi.resolve_left not_false))
    (fun _ => ⟨trivial, trivial⟩) (fun _ _ h => nomatch h) ?_ ⟨hfound₁, hlink₁, hother₁⟩) ?_) hi₁
  · intro σ db hi h
    obtain ⟨r, hr, -⟩ := hi.1.user_of_email _ _ h.found.2
    exact ⟨r, hr, (h.other (.user id) (by rintro (h | h) <;> cases h)).trans hr⟩
  · rintro - σ₂ db₂ - ⟨⟨r, hheld⟩, hlinked⟩
    exact wp_ret fun db₃ hr₃ hi₃ => ⟨⟨r, _, hheld.rely hr₃.1, rfl, rfl, rfl⟩,
      linked_stable.rely hlinked hr₃ hi₃⟩

theorem wp_linkExisting (hverified : info.emailVerified = true) (hactive : r.isActive = true)
    (hfound : FoundEmail db₀ lower info id σ db) (hσ : σ.writes = [])
    (hi : Consistent lower db ∧ extra db) :
    wp schema (identityProtocol lower extra assume allowed) ℓ (linkExisting info now id r)
      (fun id => Resolved db₀ lower googleUsername info id) σ db := by
  refine wp_bind (wp_raiseIf (fun h => absurd (hverified.symm.trans h) (by decide))
    fun _ db₁ hr₁ hi₁ => ?_) hi
  refine wp_bind (wp_raiseIf (fun h => absurd (hactive.symm.trans h) (by decide))
    fun _ db₂ hr₂ hi₂ => ?_) hi₁
  have hfound₂ := foundEmail_stable.rely (foundEmail_stable.rely hfound hr₁ hi₁) hr₂ hi₂
  refine wp_bind (wp_mono (wp_spUpsertOAuthAccount_existing hfound₂ hσ hi₂) ?_) hi₂
  rintro - σ₃ db₃ hi₃ ⟨⟨r₀, r₁, hheld, hnames⟩, hlinked⟩
  have hdone : ∀ {σ db db' r₁}, (identityProtocol lower extra assume allowed).rely σ db db' →
      Held (.user id) (some r₀) (some r₁) σ db → SameNames r₀ r₁ →
      Linked db₀ lower info id (linkRows info.sub id) σ db →
      Resolved db₀ lower googleUsername info id σ db' := fun hr hheld hnames h =>
    (Resolved.existing h.found.1 h.found.2 hheld hnames h.link h.other).rely hr.1 hr.2
  split_ifs with hnull
  · refine wp_bind (wp_bind (wp_mono (wp_update_held identityProtocol_keepsLocked
      (setUser_sets id _) linked_stable (fun h => h.write fun _ hi => hi)
      (fun _ => ⟨trivial, trivial⟩) (fun _ h => by cases h) hheld hlinked) ?_) hi₃) hi₃
    rintro - σ₄ db₄ hi₄ ⟨hheld₄, hlinked₄⟩
    refine wp_ret fun db₅ hr₅ hi₅ => wp_ret fun db₆ hr₆ _ => ?_
    exact hdone hr₆ (hheld₄.rely hr₅.1) (hnames.trans ⟨rfl, rfl, rfl⟩)
      (linked_stable.rely hlinked₄ hr₅ hi₅)
  · exact wp_ret fun db₄ hr₄ _ => hdone hr₄ hheld hnames hlinked

/-- The lookups of the branch of a new user. -/
def FoundNothing (db₀ : Db) (lower : String → String) (info : GoogleUserInfo)
    (σ : IdentitySession) : Prop :=
  ShowsNone db₀ info.sub σ ∧ Creating lower info σ

theorem FoundNothing.saw (h : FoundNothing db₀ lower info σ) (s' : Db) :
    FoundNothing db₀ lower info (σ.saw s') := by
  obtain ⟨hshown, ⟨s, hs, hnone⟩, s₁, hs₁, hnone₁⟩ := h
  exact ⟨hshown.saw s', ⟨s, Session.snapshot_saw hs s', hnone⟩, s₁, Session.snapshot_saw hs₁ s',
    hnone₁⟩

theorem foundNothing_persistent : Persistent (identityProtocol lower extra assume allowed)
    fun σ _ => FoundNothing db₀ lower info σ where
  rely h _ _ := h
  saw s h := h.saw s
  lockKey _ h := h
  lockRow _ h := h
  write _ _ h := h

/-- What may be raised when a key of the user to be created is taken. -/
structure CreateRefused (lower : String → String) (googleUsername : String → Username)
    (P : Protocol Λ Row Empty Error) (ℓ : Λ) (info : GoogleUserInfo) : Prop where
  username : KeyRefused P ℓ (fun σ _ => Creating lower info σ)
    (.usernameKey (lower (googleUsername info.sub))) (.usernameExists (googleUsername info.sub))
  email : KeyRefused P ℓ (fun σ _ => Creating lower info σ) (.emailKey (lower info.email))
    (.emailExists info.email)

theorem wp_createLinked (hverified : info.emailVerified = true)
    (hkeys : CreateRefused lower googleUsername (identityProtocol lower extra assume allowed) ℓ info)
    (hnothing : FoundNothing db₀ lower info σ) (hσ : σ.writes = [])
    (hi : Consistent lower db ∧ extra db) :
    wp schema (identityProtocol lower extra assume allowed) ℓ
      (createLinked lower googleUsername info now)
      (fun id => Resolved db₀ lower googleUsername info id) σ db := by
  refine wp_bind (wp_raiseIf (fun h => absurd (hverified.symm.trans h) nofun)
    fun _ db₁ hr₁ hi₁ => ?_) hi
  refine wp_bind (wp_mono (wp_spRegisterUser foundNothing_persistent
    (hkeys.username.mono fun _ _ h => h.2) (hkeys.email.mono fun _ _ h => h.2) hσ hnothing hi₁) ?_)
    hi₁
  rintro userId σ₂ db₂ hi₂ ⟨huser₂, hother₂, hnothing₂⟩
  -- the statements that follow write the user and the account
  have hkeepCreated : (identityProtocol lower extra assume allowed).Stable fun σ db =>
      Created lower userId (registeredRow (googleUsername info.sub) info.email none) σ db ∧
        FoundNothing db₀ lower info σ :=
    (created_stable identityProtocol_keepsLocked _ _).and foundNothing_persistent.toStable
  have hkeep : (identityProtocol lower extra assume allowed).Stable fun σ db =>
      Settled info.sub userId σ db ∧ FoundNothing db₀ lower info σ :=
    { rely := fun h hr _ => ⟨h.1.rely hr.1 hr.2, h.2⟩
      saw := fun s h => ⟨h.1.saw s, h.2.saw s⟩ }
  have hset : ∀ {set : User → User} {r σ db}, SameNames r (set r) →
      Consistent lower db ∧ extra db → Created lower userId r σ db →
      ChangesOnly (createRows lower googleUsername info userId) σ db →
      Settled info.sub userId σ db → FoundNothing db₀ lower info σ →
      wp schema (identityProtocol lower extra assume allowed) ℓ
        ((Proc.update (setUser userId set)).bind fun _ => pure () : IdentityProc Unit)
        (fun _ σ db => Created lower userId (set r) σ db ∧
          ChangesOnly (createRows lower googleUsername info userId) σ db ∧
            Settled info.sub userId σ db ∧ FoundNothing db₀ lower info σ) σ db :=
    fun hnames hi huser hother hlink hnothing =>
      wp_setUser_created hnames identityProtocol_keepsLocked (fun _ _ _ => trivial) hkeep
        (fun h => ⟨h.1.write nofun, h.2⟩) (Or.inl (Or.inl rfl)) huser hother ⟨hlink, hnothing⟩ hi
  -- the account
  refine wp_bind (wp_bind (wp_mono (wp_insertAccount hkeepCreated (fun h =>
    ⟨⟨h.1.user.write nofun, h.1.username.write nofun, h.1.email.write nofun⟩, h.2⟩) hother₂
    (by rintro (h | h | h) <;> cases h) ⟨huser₂, hnothing₂⟩) ?_) hi₂) hi₂
  rintro - σ₃ db₃ hi₃ ⟨hlink₃, hother₃, huser₃, hnothing₃⟩
  refine wp_mono (hset ⟨rfl, rfl, rfl⟩ hi₃ huser₃ hother₃ hlink₃ hnothing₃) ?_
  rintro - σ₄ db₄ hi₄ ⟨huser₄, hother₄, hlink₄, hnothing₄⟩
  -- the verified e-mail
  refine wp_bind (wp_mono (hset ⟨rfl, rfl, rfl⟩ hi₄ huser₄ hother₄ hlink₄ hnothing₄) ?_) hi₄
  rintro - σ₅ db₅ hi₅ ⟨huser₅, hother₅, hlink₅, hnothing₅⟩
  have hdone : ∀ {r σ db db'}, (identityProtocol lower extra assume allowed).rely σ db db' →
      r.username = googleUsername info.sub → r.email = info.email → r.isActive = true →
      Created lower userId r σ db →
      ChangesOnly (createRows lower googleUsername info userId) σ db →
      Settled info.sub userId σ db → FoundNothing db₀ lower info σ →
      Resolved db₀ lower googleUsername info userId σ db' :=
    fun hr hname hemail hactive huser hother hlink hnothing =>
      (Resolved.created hnothing.1 huser hname hemail hactive hlink hother).rely hr.1 hr.2
  split_ifs
  · refine wp_bind (wp_mono (hset ⟨rfl, rfl, rfl⟩ hi₅ huser₅ hother₅ hlink₅ hnothing₅) ?_) hi₅
    rintro - σ₆ db₆ - ⟨huser₆, hother₆, hlink₆, hnothing₆⟩
    exact wp_ret fun db₇ hr₇ _ => hdone hr₇ rfl rfl rfl huser₆ hother₆ hlink₆ hnothing₆
  · exact wp_ret fun db₆ hr₆ _ => hdone hr₆ rfl rfl rfl huser₅ hother₅ hlink₅ hnothing₅

/-- Reading the user of the account may raise, if the first lookup may find one. -/
def LinkedRefused (P : Protocol Λ Row Empty Error) (ℓ : Λ) (info : GoogleUserInfo) : Prop :=
  ∀ {db}, P.assume ℓ .query .start db → db.row (.oauthAccount info.sub) ≠ none →
    P.allowed .missingGreenlet

theorem wp_resolveOrCreateUser (hverified : info.emailVerified = true)
    (hextra : ∀ {db}, extra db → AllActive db ∧ Grows db₀ db)
    (hlinked : LinkedRefused (identityProtocol lower extra assume allowed) ℓ info)
    (hkeys : CreateRefused lower googleUsername (identityProtocol lower extra assume allowed) ℓ info)
    (hi : Consistent lower db ∧ extra db) :
    wp schema (identityProtocol lower extra assume allowed) ℓ
      (resolveOrCreateUser lower googleUsername info now)
      (fun id => Resolved db₀ lower googleUsername info id) .start db := by
  refine wp_bind (wp_select fun s₀ hr₀ hs₀ => ⟨trivial, fun ha db₁ hr₁ hi₁ => ?_⟩) hi
  rw [Session.start_view]
  cases hlink : s₀.row (.oauthAccount info.sub) with
  | some userId =>
    -- `account.user` is the first read of this branch
    exact hlinked ha (by rw [hlink]; exact Option.some_ne_none userId)
  | none =>
    refine wp_bind (wp_mono (wp_getByEmail info.email rfl hi₁) ?_) hi₁
    rintro a _ db₂ hi₂ ⟨s₁, hs₁, rfl, hg, hlook⟩
    cases a with
    | none =>
      exact wp_createLinked hverified hkeys ⟨⟨s₀, rfl, hlink, (hextra hs₀.2).2⟩, ⟨s₀, rfl, hlink⟩,
        s₁, rfl, hlook.fst.symm⟩ rfl hi₂
    | some x =>
      obtain ⟨userId, r⟩ := x
      exact wp_linkExisting hverified ((hextra hs₁.2).1 _ _ (hlook.row _ _ rfl))
        ⟨⟨s₀, rfl, hlink, (hextra hs₀.2).2⟩, hg.emailKey _ _ hlook.fst.symm⟩ rfl hi₂

end Spec

/-! ### Commits -/

theorem Settled.row_of_ne_none (h : Settled sub id σ db) (hne : db.row (.oauthAccount sub) ≠ none) :
    (σ.view db).row (.oauthAccount sub) = db.row (.oauthAccount sub) := by
  rcases h with hheld | ⟨x, hx, hview⟩
  · exact absurd hheld.committed hne
  · exact hview.trans hx.symm

/-- The account belongs to `id`, or it is as it was. -/
theorem Settled.row (h : Settled sub id σ db) :
    (σ.view db).row (.oauthAccount sub) = db.row (.oauthAccount sub) ∨
      (σ.view db).row (.oauthAccount sub) = some id := by
  rcases h with hheld | ⟨x, hx, hview⟩
  · exact Or.inr hheld.pending
  · exact Or.inl (hview.trans hx.symm)

section Resolved

variable (h : Resolved db₀ lower googleUsername info id σ db)

include h

theorem Resolved.grows : Grows db (σ.view db) := by
  cases h with
  | created hshown huser hname hemail hactive hlink hother =>
    refine (huser.insertsOnly hother fun i hi => ?_).grows
    rw [hname, hemail]
    rcases hi with hi | rfl
    · exact Or.inl hi
    · exact Or.inr hlink.row_of_ne_none
  | existing hshown hemail huser hnames hlink hother =>
    refine ⟨fun id' r hr => ?_, fun k x hk => ?_, fun k x hk => ?_, fun s x hs => ?_⟩
    · by_cases hid : id' = id
      · subst hid
        obtain rfl := Option.some.inj (huser.committed.symm.trans hr)
        exact ⟨_, huser.pending, hnames⟩
      · have hsame := hother (.user id') (by rintro (he | he) <;> cases he; exact hid rfl)
        exact ⟨r, hsame.trans hr, rfl, rfl, rfl⟩
    · exact (hother (.usernameKey k) (by rintro (he | he) <;> cases he)).trans hk
    · exact (hother (.emailKey k) (by rintro (he | he) <;> cases he)).trans hk
    · by_cases hsub : s = info.sub
      · subst hsub
        rw [hlink.row_of_ne_none (by rw [hs]; exact Option.some_ne_none x)]
        exact hs
      · have hsame := hother (.oauthAccount s) (by rintro (he | he) <;> cases he; exact hsub rfl)
        exact hsame.trans hs

/-- A user of the database that is committed was there with the same names, or is the new one. -/
theorem Resolved.user_cases {id' : Uuid} {r' : User}
    (hr : (σ.view db).row (.user id') = some r') :
    (∃ r, db.row (.user id') = some r ∧ SameNames r r') ∨
      (id' = id ∧ db.row (.user id') = none ∧ r'.username = googleUsername info.sub ∧
        r'.email = info.email ∧ r'.isActive = true) := by
  cases h with
  | existing hshown hemail huser hnames hlink hother =>
    by_cases hid : id' = id
    · subst hid
      obtain rfl := Option.some.inj (huser.pending.symm.trans hr)
      exact Or.inl ⟨_, huser.committed, hnames⟩
    · have hsame := hother (.user id') (by rintro (he | he) <;> cases he; exact hid rfl)
      exact Or.inl ⟨r', hsame.symm.trans hr, rfl, rfl, rfl⟩
  | created hshown huser hname hemail hactive hlink hother =>
    by_cases hid : id' = id
    · subst hid
      obtain rfl := Option.some.inj (huser.user.pending.symm.trans hr)
      exact Or.inr ⟨rfl, huser.user.committed, hname, hemail, hactive⟩
    · have hsame := hother (.user id') (by
        rintro ((he | he | he) | he) <;> cases he
        exact hid rfl)
      exact Or.inl ⟨r', hsame.symm.trans hr, rfl, rfl, rfl⟩

/-- An account of the database that is committed was there or is the one of the call. -/
theorem Resolved.account_cases {x : Uuid} (hx : (σ.view db).row (.oauthAccount sub) = some x) :
    db.row (.oauthAccount sub) = some x ∨ (sub = info.sub ∧ x = id) := by
  by_cases hsub : sub = info.sub
  · subst hsub
    cases h with
    | existing hshown hemail huser hnames hlink hother =>
      rcases hlink.row with hsame | hnew
      · exact Or.inl (hsame.symm.trans hx)
      · exact Or.inr ⟨rfl, Option.some.inj (hx.symm.trans hnew)⟩
    | created hshown huser hname hemail hactive hlink hother =>
      rcases hlink.row with hsame | hnew
      · exact Or.inl (hsame.symm.trans hx)
      · exact Or.inr ⟨rfl, Option.some.inj (hx.symm.trans hnew)⟩
  · refine Or.inl (Eq.trans (Eq.symm ?_) hx)
    cases h with
    | existing hshown hemail huser hnames hlink hother =>
      exact hother _ (by rintro (he | he) <;> cases he; exact hsub rfl)
    | created hshown huser hname hemail hactive hlink hother =>
      exact hother _ (by rintro ((he | he | he) | he) <;> cases he; exact hsub rfl)

theorem Resolved.allActive (hdb : AllActive db) : AllActive (σ.view db) := by
  intro id' r' hr
  rcases h.user_cases hr with ⟨r, hr₀, hnames⟩ | ⟨-, -, -, -, hactive⟩
  · rw [hnames.2.2]
    exact hdb id' r hr₀
  · exact hactive

theorem Resolved.consistent (hdb : Consistent lower db) : Consistent lower (σ.view db) := by
  have hg := h.grows
  cases h with
  | existing hshown hemail huser hnames hlink hother =>
    have hres : Resolved db₀ lower googleUsername info id σ db :=
      .existing hshown hemail huser hnames hlink hother
    refine hdb.of_grows hg (fun id' r hr => ?_) (fun k x hk => Or.inl ?_) (fun k x hk => Or.inl ?_)
      fun s x hs => ?_
    · rcases hres.user_cases hr with hsame | ⟨rfl, hnone, -⟩
      · exact Or.inl hsame
      · exact nomatch hnone.symm.trans huser.committed
    · exact (hother (.usernameKey k) (by rintro (he | he) <;> cases he)).symm.trans hk
    · exact (hother (.emailKey k) (by rintro (he | he) <;> cases he)).symm.trans hk
    · rcases hres.account_cases hs with hsame | ⟨-, rfl⟩
      · exact Or.inl hsame
      · exact Or.inr ⟨_, huser.pending⟩
  | created hshown huser hname hemail hactive hlink hother =>
    refine huser.consistent hother hdb hg (fun i hi => ?_) fun s => ?_
    · rw [hname, hemail]
      exact hi.imp_right fun he => ⟨_, he⟩
    · by_cases hsub : s = info.sub
      · subst hsub
        exact hlink.row
      · exact Or.inl (hother _ (by rintro ((he | he | he) | he) <;> cases he; exact hsub rfl))

end Resolved

/-- Whoever is linked to the `sub` is the user with the e-mail of the call. -/
def LinkFits (lower : String → String) (info : GoogleUserInfo) (db : Db) : Prop :=
  ∀ x ∈ db.row (.oauthAccount info.sub), db.row (.emailKey (lower info.email)) = some x

instance (lower : String → String) (info : GoogleUserInfo) (db : Db) :
    Decidable (LinkFits lower info db) := by
  unfold LinkFits
  infer_instance

theorem Resolved.shown (h : Resolved db₀ lower googleUsername info id σ db) :
    ShowsNone db₀ info.sub σ := by
  cases h with
  | existing hshown => exact hshown
  | created hshown => exact hshown

/-- A call leaves the user that it returns linked to its `sub` exactly when nobody else is. -/
theorem Resolved.linked_iff (h : Resolved db₀ lower googleUsername info id σ db)
    (hdb : Consistent lower db) :
    (σ.view db).row (.oauthAccount info.sub) = some id ↔ LinkFits lower info db := by
  -- both branches insert the account, or leave that of another call
  have hsettled : ∀ {e : Option Uuid}, Settled info.sub id σ db →
      db.row (.emailKey (lower info.email)) = e →
      (∀ x, db.row (.oauthAccount info.sub) = some x → (x = id ↔ e = some x)) →
      ((σ.view db).row (.oauthAccount info.sub) = some id ↔ LinkFits lower info db) := by
    rintro e (hheld | ⟨x, hx, hview⟩) he hiff
    · refine iff_of_true hheld.pending fun x hx => ?_
      exact nomatch hheld.committed.symm.trans hx
    · rw [hview, Option.some.injEq, hiff x hx]
      constructor
      · intro hex y hy
        cases hx.symm.trans hy
        exact he.trans hex
      · exact fun hfits => he.symm.trans (hfits x hx)
  cases h with
  | existing hshown hemail huser hnames hlink hother =>
    exact hsettled hlink hemail fun x _ =>
      ⟨fun he => he ▸ rfl, fun he => (Option.some.inj he).symm⟩
  | created hshown huser hname hemail hactive hlink hother =>
    have hnone : db.row (.emailKey (lower info.email)) = none := by
      rw [← hemail]
      exact huser.email.committed
    refine hsettled hlink hnone fun x hx => iff_of_false ?_ nofun
    rintro rfl
    obtain ⟨r, hr⟩ := hdb.user_of_account _ _ hx
    exact nomatch huser.user.committed.symm.trans hr

/-- When only calls with the same userinfo have linked the `sub`, the call returns whom it is linked
to. -/
theorem Resolved.oneUser (h : Resolved db₀ lower googleUsername info id σ db)
    (hdb : Consistent lower db)
    (haccount : ∀ x, db.row (.oauthAccount info.sub) = some x →
      db₀.row (.oauthAccount info.sub) = some x ∨ db.row (.emailKey (lower info.email)) = some x) :
    (σ.view db).row (.oauthAccount info.sub) = some id ∧
      (σ.view db).row (.emailKey (lower info.email)) = some id := by
  have hg := h.grows
  have hfits : LinkFits lower info db := by
    intro x hx
    refine (haccount x hx).resolve_left fun h₀ => ?_
    exact nomatch h.shown.row_eq_none.symm.trans h₀
  refine ⟨(h.linked_iff hdb).mpr hfits, ?_⟩
  cases h with
  | existing hshown hemail huser hnames hlink hother => exact hg.emailKey _ _ hemail
  | created hshown huser hname hemail hactive hlink hother =>
    rw [← hemail]
    exact huser.email.pending

/-! ### Runs -/

section Run

variable {τ : Type} [DecidableEq τ] [Fintype τ] {infos : τ → GoogleUserInfo}
  {times : τ → Timestamp} {c c' : Config τ Row Empty Uuid Error Uuid} {t : τ}
  {ch : Choice RowId Uuid}

/-- The calls at their beginning. -/
abbrev callbacks (lower : String → String) (googleUsername : String → Username) (db₀ : Db)
    (infos : τ → GoogleUserInfo) (times : τ → Timestamp) : Config τ Row Empty Uuid Error Uuid :=
  .init db₀ fun t => resolveOrCreateUser lower googleUsername (infos t) (times t)

/-- All users stay active, and the database only grows. -/
abbrev callbackProtocol (lower : String → String) (db₀ : Db)
    (assume : τ → Op RowId Empty → IdentitySession → Db → Prop) (allowed : Error → Prop) :
    Protocol τ Row Empty Error :=
  identityProtocol lower (fun db => AllActive db ∧ Grows db₀ db) assume allowed

/-- Where the calls begin: all users are active and all e-mails of the calls are verified. -/
structure CallbackStart (lower : String → String) (db₀ : Db) (infos : τ → GoogleUserInfo) :
    Prop where
  consistent : Consistent lower db₀
  active : AllActive db₀
  verified : ∀ t, (infos t).emailVerified = true

variable (hstart : CallbackStart lower db₀ infos)

include hstart

theorem CallbackStart.sound {assume : τ → Op RowId Empty → IdentitySession → Db → Prop}
    {allowed : Error → Prop}
    (hlinked : ∀ t, LinkedRefused (callbackProtocol lower db₀ assume allowed) t (infos t))
    (hkeys : ∀ t, CreateRefused lower googleUsername (callbackProtocol lower db₀ assume allowed) t
      (infos t))
    (hrun : Run schema (fun c t ch => ch = .cancel ∨
        (callbackProtocol lower db₀ assume allowed).Admits (fun t => t) c t ch)
      (callbacks lower googleUsername db₀ infos times) c) :
    Sound schema (callbackProtocol lower db₀ assume allowed) (fun t => t)
      (fun t id => Resolved db₀ lower googleUsername (infos t) id) c := by
  have hi : (callbackProtocol lower db₀ assume allowed).inv db₀ :=
    ⟨hstart.consistent, hstart.active, Grows.refl db₀⟩
  refine (sound_init hi fun t => ?_).run_or_cancel (fun t id σ db hi h _ => ?_) hrun
  · exact wp_resolveOrCreateUser (hstart.verified t) (fun h => h) (hlinked t) (hkeys t) hi
  · exact identityProtocol_commits (h.consistent hi.1) h.grows
      ⟨h.allActive hi.2.1, hi.2.2.trans h.grows⟩

/-- Without assumptions, and with any error. -/
theorem CallbackStart.sound_of_reachable
    (hc : Reachable schema (callbacks lower googleUsername db₀ infos times) c) :
    Sound schema (callbackProtocol lower db₀ (fun _ _ _ _ => True) fun _ => True) (fun t => t)
      (fun t id => Resolved db₀ lower googleUsername (infos t) id) c :=
  hstart.sound (fun _ _ _ _ => trivial) (fun _ => ⟨⟨fun _ _ _ _ => trivial, fun _ _ _ _ => trivial⟩,
      ⟨fun _ _ _ _ => trivial, fun _ _ _ _ => trivial⟩⟩)
    (hc.mono fun _ _ _ _ => Or.inr fun _ _ _ _ _ => trivial)

theorem CallbackStart.grows_of_step
    (hc : Reachable schema (callbacks lower googleUsername db₀ infos times) c)
    (hst : c.step schema t ch = some c') : Grows c.db c'.db := by
  rcases (hstart.sound_of_reachable hc).step_cases hst with ⟨id, σ, -, hdb, h⟩ | ⟨hdb, -⟩
  · rw [hdb]
    exact h.grows
  · rw [hdb]
    exact Grows.refl c.db

/-! ### The users that are created -/

/-- A user that is not in `db₀` has the name and the e-mail of a call that has returned it. -/
theorem CallbackStart.exists_call_of_new
    (hc : Reachable schema (callbacks lower googleUsername db₀ infos times) c)
    (hnone : db₀.row (.user id) = none) (hr : c.db.row (.user id) = some r) :
    ∃ t, c.tx t = .done (.ok id) ∧ r.username = googleUsername (infos t).sub ∧
      r.email = (infos t).email := by
  induction hc generalizing r with
  | refl => exact nomatch hnone.symm.trans hr
  | step hc _ hst ih =>
    rcases (hstart.sound_of_reachable hc).step_cases hst with ⟨id', σ, hid', hdb, h⟩ | ⟨hdb, -⟩
    · rw [hdb] at hr
      rcases h.user_cases hr with ⟨r₀, hr₀, hnames⟩ | ⟨rfl, -, hname, hemail, -⟩
      · obtain ⟨u, hu, hname, hemail⟩ := ih hr₀
        exact ⟨u, Config.done_of_step hst hu, hnames.1.trans hname, hnames.2.1.trans hemail⟩
      · exact ⟨_, hid', hname, hemail⟩
    · rw [hdb] at hr
      obtain ⟨u, hu, hnames⟩ := ih hr
      exact ⟨u, Config.done_of_step hst hu, hnames⟩

/-- The user has been created since `db₀` with the name that is made of the `sub`. -/
def CreatedFor (googleUsername : String → Username) (db₀ db : Db) (sub : String) (id : Uuid) :
    Prop :=
  db₀.row (.user id) = none ∧
    ∃ r, db.row (.user id) = some r ∧ r.username = googleUsername sub

/-! ### One userinfo -/

/-- The account belongs to the user with the e-mail, unless it was there at the beginning, and the
calls have returned the user whom it belongs to. -/
structure OneUser (lower : String → String) (db₀ : Db) (info : GoogleUserInfo)
    (c : Config τ Row Empty Uuid Error Uuid) : Prop where
  account : ∀ x, c.db.row (.oauthAccount info.sub) = some x →
    db₀.row (.oauthAccount info.sub) = some x ∨ c.db.row (.emailKey (lower info.email)) = some x
  result : ∀ t id, c.tx t = .done (.ok id) → c.db.row (.oauthAccount info.sub) = some id

theorem CallbackStart.oneUser (hinfo : ∀ t, infos t = info)
    (hc : Reachable schema (callbacks lower googleUsername db₀ infos times) c) :
    OneUser lower db₀ info c := by
  induction hc with
  | refl => exact ⟨fun x hx => Or.inl hx, fun t id h => nomatch h⟩
  | step hc _ hst ih =>
    rename_i c c' t ch _
    have hg := hstart.grows_of_step hc hst
    have hsound := hstart.sound_of_reachable hc
    rcases hsound.step_cases hst with ⟨id, σ, hid, hdb, h⟩ | ⟨hdb, hback⟩
    · rw [hinfo t] at h
      obtain ⟨hlink, howner⟩ := h.oneUser hsound.inv.1 ih.account
      rw [← hdb] at hlink howner
      refine ⟨fun x hx => Or.inr ?_, fun u id' hu => ?_⟩
      · obtain rfl := Option.some.inj (hlink.symm.trans hx)
        exact howner
      · by_cases hut : u = t
        · subst hut
          cases hid.symm.trans hu
          exact hlink
        · exact hg.oauthAccount _ _ (ih.result u id' ((Config.tx_of_ne hst hut).symm.trans hu))
    · refine ⟨fun x hx => ?_, fun u id hu => ?_⟩
      · rw [hdb] at hx ⊢
        exact ih.account x hx
      · rw [hdb]
        exact ih.result u id (hback u id hu)

/-! ### The conditions on the steps -/

omit hstart

/-- Of one call, over the database that its next operation meets. -/
def UnhinderedCall (lower : String → String) (googleUsername : String → Username)
    (info : GoogleUserInfo) (σ : IdentitySession) (db : Db) : Prop :=
  (σ.reads = [] → db.row (.oauthAccount info.sub) = none) ∧
    (Creating lower info σ →
      db.row (.usernameKey (lower (googleUsername info.sub))) = none ∧
        db.row (.emailKey (lower info.email)) = none)

/-- The call does not commit while another user is linked to its `sub`. -/
def CommitsLinkFits (lower : String → String) (infos : τ → GoogleUserInfo)
    (c : Config τ Row Empty Uuid Error Uuid) (t : τ) (ch : Choice RowId Uuid) : Prop :=
  match ch, c.tx t with
  | .cancel, _ => True
  | _, .active (.ret _) _ => LinkFits lower (infos t) c.db
  | _, _ => True

/-- The first statement of a call finds no account, and while a call creates a user, nobody else has
the name or the e-mail of that user. -/
def Unhindered (lower : String → String) (googleUsername : String → Username)
    (infos : τ → GoogleUserInfo) (c : Config τ Row Empty Uuid Error Uuid) (t : τ)
    (ch : Choice RowId Uuid) : Prop :=
  match ch, c.tx t with
  | .cancel, _ => True
  | _, .active _ σ => UnhinderedCall lower googleUsername (infos t) σ c.db
  | _, _ => True

instance (c : Config τ Row Empty Uuid Error Uuid) (t : τ) (ch : Choice RowId Uuid) :
    Decidable (CommitsLinkFits lower infos c t ch) := by
  unfold CommitsLinkFits
  split <;> infer_instance

instance (lower : String → String) (info : GoogleUserInfo) (σ : IdentitySession) :
    Decidable (Creating lower info σ) := by
  unfold Creating
  infer_instance

instance (lower : String → String) (googleUsername : String → Username) (info : GoogleUserInfo)
    (σ : IdentitySession) (db : Db) :
    Decidable (UnhinderedCall lower googleUsername info σ db) := by
  have : Decidable (σ.reads = []) := decidable_of_iff _ List.isEmpty_iff
  unfold UnhinderedCall
  infer_instance

instance (c : Config τ Row Empty Uuid Error Uuid) (t : τ) (ch : Choice RowId Uuid) :
    Decidable (Unhindered lower googleUsername infos c t ch) := by
  unfold Unhindered
  split <;> infer_instance

include hstart

/-- In a run whose commits fit the links, every call leaves its user linked. -/
theorem CallbackStart.linked_of_run
    (hc : Run schema (CommitsLinkFits lower infos)
      (callbacks lower googleUsername db₀ infos times) c) :
    ∀ t id, c.tx t = .done (.ok id) → c.db.row (.oauthAccount (infos t).sub) = some id := by
  induction hc with
  | refl => exact fun t id h => nomatch h
  | step hc hfits hst ih =>
    rename_i c c' t ch
    have hreach := hc.mono fun _ _ _ _ => trivial
    intro u id hu
    by_cases hut : u = t
    · subst hut
      have hsound := hstart.sound_of_reachable hreach
      obtain ⟨σ, htx, hdb, h⟩ := hsound.of_commit hst hu
      have hch := Config.ne_cancel_of_done hst hu
      unfold CommitsLinkFits at hfits
      rw [htx] at hfits
      rw [hdb]
      refine (h.linked_iff hsound.inv.1).mpr ?_
      cases ch with
      | cancel => exact absurd rfl hch
      | _ => exact hfits
    · exact (hstart.grows_of_step hreach hst).oauthAccount _ _
        (ih u id ((Config.tx_of_ne hst hut).symm.trans hu))

/-- In a run in which the lookups find no account and nobody takes the names of a user that is being
created, no call fails. -/
theorem CallbackStart.not_failed_of_run
    (hc : Run schema (Unhindered lower googleUsername infos)
      (callbacks lower googleUsername db₀ infos times) c) (t : τ) (e : Error) :
    c.tx t ≠ .done (.error e) := by
  have hkeys : ∀ t, CreateRefused lower googleUsername (callbackProtocol lower db₀
      (fun t _ σ db => UnhinderedCall lower googleUsername (infos t) σ db) fun _ => False) t
      (infos t) :=
    fun t => ⟨⟨fun _ hb hfree htaken => htaken (hfree.2 hb).1,
        fun _ hb hfree htaken => htaken (hfree.2 hb).1⟩,
      ⟨fun _ hb hfree htaken => htaken (hfree.2 hb).2,
        fun _ hb hfree htaken => htaken (hfree.2 hb).2⟩⟩
  refine fun hfail => (hstart.sound (fun _ _ hfree hlinked => (hlinked (hfree.1 rfl)).elim) hkeys
    (hc.mono fun c t ch hfree => ?_)).error t e hfail
  by_cases hch : ch = .cancel
  · exact Or.inl hch
  · refine Or.inr fun p σ o htx _ => ?_
    unfold Unhindered at hfree
    rw [htx] at hfree
    cases ch with
    | cancel => exact absurd rfl hch
    | _ => exact hfree

/-- In every run at most one user is created for a `sub`, a call that returns has found no account and
leaves its user linked exactly when the links fit, and calls with one userinfo return one user.  In
the runs whose commits all fit the links, every call has left its user linked, and in the runs in
which the lookups find no account and nobody takes the names of a user that is being created, no
call fails. -/
theorem resolve_runs :
    (∀ c, Reachable schema (callbacks lower googleUsername db₀ infos times) c →
      (∀ sub id id', CreatedFor googleUsername db₀ c.db sub id →
        CreatedFor googleUsername db₀ c.db sub id' → id = id') ∧
      (∀ id, db₀.row (.user id) = none → (∃ r, c.db.row (.user id) = some r) →
        ∃ t, c.tx t = .done (.ok id) ∧ CreatedFor googleUsername db₀ c.db (infos t).sub id) ∧
      (∀ t ch c' id σ, c.step schema t ch = some c' → c.tx t = .active (.ret id) σ →
        c'.tx t = .done (.ok id) →
        (∃ s ∈ σ.snapshot 0, s.row (.oauthAccount (infos t).sub) = none) ∧
          (c'.db.row (.oauthAccount (infos t).sub) = some id ↔ LinkFits lower (infos t) c.db)) ∧
      ((∀ t u, infos t = infos u) → ∀ t u id id', c.tx t = .done (.ok id) →
        c.tx u = .done (.ok id') → id = id')) ∧
    (∀ c, Run schema (CommitsLinkFits lower infos)
        (callbacks lower googleUsername db₀ infos times) c →
      ∀ t id, c.tx t = .done (.ok id) → c.db.row (.oauthAccount (infos t).sub) = some id) ∧
    ∀ c, Run schema (Unhindered lower googleUsername infos)
        (callbacks lower googleUsername db₀ infos times) c → ∀ t e, c.tx t ≠ .done (.error e) := by
  refine ⟨fun c hc => ⟨?_, ?_, ?_, ?_⟩, fun c hc => hstart.linked_of_run hc,
    fun c hc t e => hstart.not_failed_of_run hc t e⟩
  · rintro sub id id' ⟨-, r, hr, hname⟩ ⟨-, r', hr', hname'⟩
    exact (hstart.sound_of_reachable hc).inv.1.unique id id' r r' hr hr'
      (Or.inl (by rw [hname, hname']))
  · rintro id hnone ⟨r, hr⟩
    obtain ⟨t, ht, hname, -⟩ := hstart.exists_call_of_new hc hnone hr
    exact ⟨t, ht, hnone, r, hr, hname⟩
  · intro t ch c' id σ hst htx hdone
    have hsound := hstart.sound_of_reachable hc
    obtain ⟨σ', htx', hdb, h⟩ := hsound.of_commit hst hdone
    obtain ⟨-, rfl⟩ := Tx.active.inj (htx.symm.trans htx')
    obtain ⟨s, hs, hnone, -⟩ := h.shown
    rw [hdb]
    exact ⟨⟨s, hs, hnone⟩, h.linked_iff hsound.inv.1⟩
  · intro hsame t u id id' ht hu
    have hone := hstart.oneUser (fun v => hsame v t) hc
    exact Option.some.inj ((hone.result t id ht).symm.trans (hone.result u id' hu))

end Run

/-! ### Two callbacks -/

section Example

/-- A database with one more user. -/
def insertedUser (lower : String → String) (id : Uuid) (r : User) (db : Db) : Db :=
  db.overlay [⟨.emailKey (lower r.email), some id⟩, ⟨.usernameKey (lower r.username), some id⟩,
    ⟨.user id, some r⟩]

theorem consistent_insertedUser (h : Consistent lower db) (huser : db.row (.user id) = none)
    (hname : db.row (.usernameKey (lower r.username)) = none)
    (hemail : db.row (.emailKey (lower r.email)) = none) :
    Consistent lower (insertedUser lower id r db) := by
  -- the session of an `INSERT`
  set σ : IdentitySession := ((Session.start.write (.user id) (some r)).write
    (.usernameKey (lower r.username)) (some id)).write (.emailKey (lower r.email)) (some id) with hσ
  have hcreated : Created lower id r σ db := by
    have hu : Held (κ := Empty) (.user id) none (some r)
        (Session.start.write (.user id) (some r)) db := held_write huser _
    refine ⟨?_, Held.write ?_ nofun, ?_⟩
    · exact (hu.write (j := .usernameKey (lower r.username)) (v := some id) nofun).write nofun
    · exact held_write hname _
    · exact held_write hemail _
  have hother : ChangesOnly (userRows lower id r.username r.email) σ db := by
    have hstart : ChangesOnly (κ := Empty) (userRows lower id r.username r.email) .start db :=
      fun _ _ => rfl
    exact ((hstart.write (Or.inl rfl)).write (Or.inr (Or.inl rfl))).write (Or.inr (Or.inr rfl))
  exact hcreated.consistent hother h
    (hcreated.insertsOnly hother fun _ hi => Or.inl hi).grows (fun _ hi => Or.inl hi)
    fun s => Or.inl (hother (.oauthAccount s) (by rintro (h | h | h) <;> cases h))

theorem allActive_insertedUser (hr : r.isActive = true) (hdb : AllActive db) :
    AllActive (insertedUser lower id r db) := by
  intro id' r' hr'
  by_cases hid : id' = id
  · subst hid
    obtain rfl := Option.some.inj (hr'.symm.trans (Store.set_row_self ..))
    exact hr
  · refine hdb id' r' (Eq.trans (Eq.symm ?_) hr')
    refine Store.overlay_row_of_forall_ne db fun w hw => ?_
    simp only [List.mem_cons, List.not_mem_nil, or_false] at hw
    rcases hw with rfl | rfl | rfl <;> intro he <;> cases he
    exact hid rfl

/-- The name of the only `sub`. -/
def onlyName (_ : String) : Username := ⟨"google_1", by decide⟩

def hanako (email : Email) : GoogleUserInfo where
  sub := "1"
  email := email
  emailVerified := true

abbrev hanakoA : GoogleUserInfo := hanako ⟨"a@example.com", by decide⟩

/-- Two callbacks for one account that nobody has used before. -/
abbrev twoTabs : Config (Fin 2) Row Empty Uuid Error Uuid :=
  callbacks (fun s => s) onlyName .empty (fun _ => hanakoA) fun _ => 0

/-- A callback creates the user, from its `EXISTS` checks to its commit. -/
def createSteps (t : Fin 2) : List (Fin 2 × Choice RowId Uuid) :=
  [(t, .go), (t, .go), (t, .gen 1), (t, .go), (t, .go), (t, .go), (t, .go), (t, .go),
    (t, .pick (.user 1)), (t, .go), (t, .go), (t, .pick (.user 1)), (t, .go), (t, .go)]

/-- Both have found nothing when the first creates the user. -/
def bothCreate : Config (Fin 2) Row Empty Uuid Error Uuid :=
  twoTabs.execTo schema (fun _ _ _ => True)
    ([(0, .go), (0, .go), (1, .go), (1, .go)] ++ createSteps 0 ++ [(1, .go), (1, .go)]) (by decide)

def userA : User where
  username := ⟨"a", by decide⟩
  email := ⟨"a@example.com", by decide⟩
  passwordHash := none
  emailVerifiedAt := some 0

def userB : User where
  username := ⟨"b", by decide⟩
  email := ⟨"b@example.com", by decide⟩
  passwordHash := none
  emailVerifiedAt := some 0

/-- Two users without accounts. -/
def twoUsers : Db := insertedUser (fun s => s) 2 userB (insertedUser (fun s => s) 1 userA .empty)

/-- Both callbacks are for one `sub`, each with the e-mail of another user. -/
abbrev twoEmails : Config (Fin 2) Row Empty Uuid Error Uuid :=
  callbacks (fun s => s) onlyName twoUsers
    (fun t => hanako (if t = 0 then ⟨"a@example.com", by decide⟩ else ⟨"b@example.com", by decide⟩))
    fun _ => 0

/-- Both have found no account when the first links it. -/
def bothLink : Config (Fin 2) Row Empty Uuid Error Uuid :=
  twoEmails.execTo schema (fun _ _ _ => True)
    [(0, .go), (0, .go), (1, .go), (1, .go), (0, .go), (0, .go), (0, .pick (.user 1)), (0, .go),
      (0, .go), (1, .go), (1, .go), (1, .pick (.user 2)), (1, .go), (1, .go)] (by decide)

/-- The second callback begins when the first has committed. -/
def secondLogin : Config (Fin 2) Row Empty Uuid Error Uuid :=
  twoTabs.execTo schema (fun _ _ _ => True)
    ([(0, .go), (0, .go)] ++ createSteps 0 ++ [(1, .go), (1, .go)]) (by decide)

/-- The second of two callbacks with one userinfo fails, whether it creates the user again or finds
the account, and a callback returns a user who is not linked to its `sub`. -/
theorem resolve_callbacks_collide :
    (Reachable schema twoTabs bothCreate ∧ bothCreate.tx 0 = .done (.ok 1) ∧
      bothCreate.tx 1 = .done (.error (.usernameExists (onlyName "1")))) ∧
    (Reachable schema twoTabs secondLogin ∧ secondLogin.tx 0 = .done (.ok 1) ∧
      secondLogin.tx 1 = .done (.error .missingGreenlet)) ∧
    Consistent (fun s => s) twoUsers ∧ Reachable schema twoEmails bothLink ∧
      bothLink.tx 1 = .done (.ok 2) ∧ bothLink.db.row (.oauthAccount "1") = some 1 :=
  ⟨⟨run_execTo _, rfl, rfl⟩, ⟨run_execTo _, rfl, rfl⟩, consistent_insertedUser
    (consistent_insertedUser consistent_empty rfl rfl rfl) rfl rfl rfl, run_execTo _, rfl, rfl⟩

/-- A user without an account. -/
def oneUser : Db := insertedUser (fun s => s) 1 userA .empty

/-- Two callbacks with the e-mail of the user. -/
abbrev sameEmail : Config (Fin 2) Row Empty Uuid Error Uuid :=
  callbacks (fun s => s) onlyName oneUser (fun _ => hanakoA) fun _ => 0

/-- Both have found no account when the first links it. -/
def linkSteps : List (Fin 2 × Choice RowId Uuid) :=
  [(0, .go), (1, .go), (0, .go), (1, .go), (0, .go), (0, .go), (0, .pick (.user 1)), (0, .go),
    (0, .go), (1, .go), (1, .go), (1, .pick (.user 1)), (1, .go), (1, .go)]

/-- Both return the user. -/
def bothReturn : Config (Fin 2) Row Empty Uuid Error Uuid :=
  sameEmail.execTo schema (fun c t ch => CommitsLinkFits (fun s => s) (fun _ => hanakoA) c t ch ∧
    Unhindered (fun s => s) onlyName (fun _ => hanakoA) c t ch) linkSteps (by decide)

theorem resolve_runs_bothReturn :
    (∀ t, bothReturn.tx t = .done (.ok 1)) ∧ bothReturn.db.row (.oauthAccount "1") = some 1 ∧
      ∀ t e, bothReturn.tx t ≠ .done (.error e) := by
  have hstart : CallbackStart (fun s => s) oneUser (fun _ : Fin 2 => hanakoA) :=
    ⟨consistent_insertedUser consistent_empty rfl rfl rfl,
      allActive_insertedUser rfl fun _ _ h => (nomatch h), fun _ => rfl⟩
  have hrun : Run schema (fun c t ch =>
      CommitsLinkFits (fun s => s) (fun _ => hanakoA) c t ch ∧
        Unhindered (fun s => s) onlyName (fun _ => hanakoA) c t ch) sameEmail bothReturn :=
    run_execTo _
  have hdone : ∀ t, bothReturn.tx t = .done (.ok 1)
    | 0 => rfl
    | 1 => rfl
  have hlinked := (resolve_runs hstart).2.1 bothReturn (hrun.mono fun _ _ _ h => h.1) 0 1 (hdone 0)
  exact ⟨hdone, hlinked, (resolve_runs hstart).2.2 bothReturn (hrun.mono fun _ _ _ h => h.2)⟩

end Example

end IdentityDb

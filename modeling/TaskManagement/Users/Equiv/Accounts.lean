import TaskManagement.RedisStore.Equiv.EmailVerify
import TaskManagement.RedisStore.Equiv.PasswordReset
import TaskManagement.Users.Accounts

/-!
# Who sets the password of an account, and who proves its address

`password_login_provenance`: when a password login succeeds, the owner of the mailbox has proved
the address of the account before, with a mail token or a Google identity; and the stored password
was set by a party who has proved the address, or it was given at the registration, or it was set
by `change_password` upon the password stored before.  The registration needs no proof, and the
proof that somebody else gives later, by the mail link or by a Google account, opens the account
to the registered password (`account_prehijacked`).

`Inv` holds in every run; each kind of write has its own lemma (`Inv.mail`, `Inv.logIn`, …).
-/

namespace Accounts

open UserDb (Uuid Timestamp User)

set_option linter.unusedSectionVars false

variable {ι H : Type} [DecidableEq ι] [DecidableEq H]

/-- The events of a run of `machine`. -/
abbrev Event (ι H : Type) : Type := Machine.Event (State ι H) (Call ι H) Reply

variable {w : World ι} {settings : Settings} {l : List (Event ι H)} {s s' : State ι H}
  {c : Call ι H} {r : Reply} {e : Event ι H}

/-! ### Proofs of control and passwords -/

/-- In the event the party `p` proves control of the address `a` (in lower case): it presents a live
mail token or a Google identity with this verified address. -/
def Proves (w : World ι) (e : Event ι H) (p : ι) (a : String) : Prop :=
  match e.call with
  | .verifyEmail q h | .resetPassword q h _ =>
    e.reply = .accepted ∧ q = p ∧ ∃ email, e.pre.mailed h = some email ∧ w.lower email = a
  | .oauthCallback q info => q = p ∧ info.emailVerified ∧ w.lower info.email = a
  | _ => False

/-- The party `p` has proved control of `a`. -/
def Proved (w : World ι) (l : List (Event ι H)) (p : ι) (a : String) : Prop :=
  ∃ e ∈ l, Proves w e p a

/-- How a password was set. -/
inductive How : Type where
  | registered
  | reset
  /-- By `change_password`; `presented` when it was given the password stored before. -/
  | changed (presented : Bool)
deriving DecidableEq

/-- The user whose password the event sets, the party that sets it, and how. -/
def setsPassword (e : Event ι H) : Option (Uuid × ι × How) :=
  match e.call, e.reply with
  | .register p _ _ _ _, .created userId => some (userId, p, .registered)
  | .resetCommit i _, _ =>
    match e.pre.flows[i]? with
    | some ⟨p, .resetting _ userId _⟩ => some (userId, p, .reset)
    | _ => none
  | .changeCommit i _, _ =>
    match e.pre.flows[i]? with
    | some ⟨p, .changing userId presented _⟩ => some (userId, p, .changed presented)
    | _ => none
  | _, _ => none

/-- What an event makes of the party that has set a password last. -/
def nextSetter (userId : Uuid) (setter : Option (ι × How)) (e : Event ι H) : Option (ι × How) :=
  match setsPassword e with
  | some (u, x) => if u = userId then some x else setter
  | none => setter

/-- The party that has set the stored password of the user, and how. -/
def setBy (l : List (Event ι H)) (userId : Uuid) : Option (ι × How) :=
  l.foldl (nextSetter userId) none

theorem setBy_snoc (l : List (Event ι H)) (e : Event ι H) (userId : Uuid) :
    setBy (l ++ [e]) userId = nextSetter userId (setBy l userId) e := by
  unfold setBy
  rw [List.foldl_append]
  rfl

theorem Proved.snoc {p : ι} {a : String} (h : Proved w l p a) (e : Event ι H) :
    Proved w (l ++ [e]) p a := by
  obtain ⟨e', he', hp⟩ := h
  exact ⟨e', List.mem_append_left _ he', hp⟩

theorem Proves.proved {p : ι} {a : String} (h : Proves w e p a) : Proved w (l ++ [e]) p a :=
  ⟨e, List.mem_append_right _ List.mem_cons_self, h⟩

/-! ### The invariant -/

/-- The user and what is known of it. -/
def Knows (s : State ι H) (userId : Uuid) (P : User → Prop) : Prop :=
  ∃ u, s.users[userId]? = some u ∧ P u

/-- The token was sent to the address of the user. -/
def SentTo (s : State ι H) (h : H) (userId : Uuid) : Prop :=
  Knows s userId fun u => s.mailed h = some u.email

/-- The party has proved the address of the user. -/
def ProvedFor (w : World ι) (l : List (Event ι H)) (s : State ι H) (userId : Uuid) (p : ι) : Prop :=
  Knows s userId fun u => Proved w l p (w.lower u.email)

/-- What a call that has come to its phase has shown. -/
def FlowOk (w : World ι) (l : List (Event ι H)) (s : State ι H) (f : Flow ι H) : Prop :=
  match f.phase with
  | .issueVerify userId email | .issueReset userId email =>
    Knows s userId fun u => u.email = email
  | .verifying h userId =>
    SentTo s h userId ∧
      Knows s userId fun u => Proved w l (w.owner u.email) (w.lower u.email)
  | .resetting h userId _ => SentTo s h userId ∧ ProvedFor w l s userId f.party
  | .changing userId presented _ => presented = true ∨ ProvedFor w l s userId f.party
  | .unlinked info =>
    MayVouch w f.party info ∧ (info.emailVerified → Proved w l f.party (w.lower info.email))
  | .linking userId info =>
    MayVouch w f.party info ∧ info.emailVerified ∧ Proved w l f.party (w.lower info.email) ∧
      Knows s userId fun u => w.lower u.email = w.lower info.email
  | .creating info =>
    MayVouch w f.party info ∧ info.emailVerified ∧ Proved w l f.party (w.lower info.email)
  | .ended => True

/-- The setter of the password of a user with the address `a`. -/
def GoodSetter (w : World ι) (l : List (Event ι H)) (a : String) (q : ι) (how : How) : Prop :=
  Proved w l q a ∨ how = .registered ∨ how = .changed true

structure Inv (w : World ι) (l : List (Event ι H)) (s : State ι H) : Prop where
  verified : ∀ (userId : Uuid) u, s.users[userId]? = some u → u.emailVerifiedAt.isSome →
    Proved w l (w.owner u.email) (w.lower u.email)
  password : ∀ (userId : Uuid) u, s.users[userId]? = some u → u.passwordHash.isSome →
    ∃ q how, setBy l userId = some (q, how) ∧ GoodSetter w l (w.lower u.email) q how
  verifyToken : ∀ h x, EmailVerify.live s.verifyTokens h = some x → SentTo s h x.value.userId
  resetToken : ∀ h x, PasswordReset.live s.resetTokens h = some x → SentTo s h x.value.userId
  account : ∀ o ∈ s.oauthAccounts, ProvedFor w l s o.userId (w.googleOwner o.sub)
  login : ∀ x ∈ s.logins,
    Knows s x.2 fun u => u.passwordHash.isSome ∨ Proved w l x.1 (w.lower u.email)
  flow : ∀ f ∈ s.flows, FlowOk w l s f

theorem inv_init (now : Timestamp) : Inv w [] (init now : State ι H) where
  verified _ _ h := by cases h
  password _ _ h := by cases h
  verifyToken _ _ h := by cases h
  resetToken _ _ h := by cases h
  account _ h := by cases h
  login _ h := by cases h
  flow _ h := by cases h

/-! ### More events, more rows -/

/-- The rows of `s` keep their addresses and passwords in `s'`, and the mails are kept. -/
structure Extends (s s' : State ι H) : Prop where
  user : ∀ (userId : Uuid) u, s.users[userId]? = some u → ∃ u', s'.users[userId]? = some u' ∧
    u'.email = u.email ∧ (u.passwordHash.isSome → u'.passwordHash.isSome)
  mailed : ∀ h email, s.mailed h = some email → s'.mailed h = some email

theorem Extends.refl (s : State ι H) : Extends s s := ⟨fun _ u h => ⟨u, h, rfl, id⟩, fun _ _ h => h⟩

/-- What is known of a user by its address stays known. -/
theorem Extends.knows (h : Extends s s') {userId : Uuid} {P Q : User → Prop}
    (hk : Knows s userId P) (hPQ : ∀ u u', u'.email = u.email →
      (u.passwordHash.isSome → u'.passwordHash.isSome) → P u → Q u') : Knows s' userId Q := by
  obtain ⟨u, hu, hP⟩ := hk
  obtain ⟨u', hu', hemail, hpass⟩ := h.user userId u hu
  exact ⟨u', hu', hPQ u u' hemail hpass hP⟩

theorem Extends.sentTo (h : Extends s s') {t : H} {userId : Uuid} (hs : SentTo s t userId) :
    SentTo s' t userId :=
  h.knows hs fun u u' hemail _ hm => by
    rw [hemail]
    exact h.mailed t u.email hm

theorem Extends.provedFor (h : Extends s s') {userId : Uuid} {p : ι}
    (hs : ProvedFor w l s userId p) : ProvedFor w l s' userId p :=
  h.knows hs fun u u' hemail _ hp => by
    rw [hemail]
    exact hp

theorem Extends.flowOk (h : Extends s s') {f : Flow ι H} (hf : FlowOk w l s f) :
    FlowOk w l s' f := by
  unfold FlowOk at hf ⊢
  cases hp : f.phase with
  | issueVerify userId email | issueReset userId email =>
    rw [hp] at hf
    exact h.knows hf fun u u' hemail _ hu => hemail.trans hu
  | verifying t userId =>
    rw [hp] at hf
    refine ⟨h.sentTo hf.1, h.knows hf.2 fun u u' hemail _ hu => ?_⟩
    rw [hemail]
    exact hu
  | resetting t userId newPassword =>
    rw [hp] at hf
    exact ⟨h.sentTo hf.1, h.provedFor hf.2⟩
  | changing userId presented newPassword =>
    rw [hp] at hf
    exact hf.imp_right h.provedFor
  | linking userId info =>
    rw [hp] at hf
    refine ⟨hf.1, hf.2.1, hf.2.2.1, h.knows hf.2.2.2 fun u u' hemail _ hu => ?_⟩
    rw [hemail]
    exact hu
  | unlinked info | creating info =>
    rw [hp] at hf
    exact hf
  | ended => trivial

theorem FlowOk.snoc {f : Flow ι H} (hf : FlowOk w l s f) (e : Event ι H) :
    FlowOk w (l ++ [e]) s f := by
  have hknows {userId : Uuid} {P Q : User → Prop} (hk : Knows s userId P) (h : ∀ u, P u → Q u) :
      Knows s userId Q := by
    obtain ⟨u, hu, hP⟩ := hk
    exact ⟨u, hu, h u hP⟩
  unfold FlowOk at hf ⊢
  cases hp : f.phase with
  | issueVerify userId email | issueReset userId email =>
    rw [hp] at hf
    exact hf
  | verifying t userId =>
    rw [hp] at hf
    exact ⟨hf.1, hknows hf.2 fun u hu => hu.snoc e⟩
  | resetting t userId newPassword =>
    rw [hp] at hf
    exact ⟨hf.1, hknows hf.2 fun u hu => hu.snoc e⟩
  | changing userId presented newPassword =>
    rw [hp] at hf
    exact hf.imp_right fun hu => hknows hu fun u hu => hu.snoc e
  | unlinked info =>
    rw [hp] at hf
    exact ⟨hf.1, fun hv => (hf.2 hv).snoc e⟩
  | linking userId info =>
    rw [hp] at hf
    exact ⟨hf.1, hf.2.1, hf.2.2.1.snoc e, hf.2.2.2⟩
  | creating info =>
    rw [hp] at hf
    exact ⟨hf.1, hf.2.1, hf.2.2.snoc e⟩
  | ended => trivial

/-- The invariant after an event that has not changed the state yet. -/
theorem Inv.snoc (hI : Inv w l s) (hset : ∀ userId q how, setsPassword e = some (userId, q, how) →
    ∀ u, s.users[userId]? = some u → GoodSetter w (l ++ [e]) (w.lower u.email) q how) :
    Inv w (l ++ [e]) s where
  verified userId u hu hv := (hI.verified userId u hu hv).snoc e
  password userId u hu hp := by
    obtain ⟨q, how, hq, hgood⟩ := hI.password userId u hu hp
    rw [setBy_snoc]
    unfold nextSetter
    cases he : setsPassword e with
    | none => exact ⟨q, how, hq, hgood.imp_left fun h => h.snoc e⟩
    | some x =>
      obtain ⟨userId', q', how'⟩ := x
      by_cases hid : userId' = userId
      · subst hid
        exact ⟨q', how', if_pos rfl, hset _ _ _ he u hu⟩
      · exact ⟨q, how, (if_neg hid).trans hq, hgood.imp_left fun h => h.snoc e⟩
  verifyToken := hI.verifyToken
  resetToken := hI.resetToken
  account o ho := by
    obtain ⟨u, hu, hp⟩ := hI.account o ho
    exact ⟨u, hu, hp.snoc e⟩
  login x hx := by
    obtain ⟨u, hu, hp⟩ := hI.login x hx
    exact ⟨u, hu, hp.imp_right fun h => h.snoc e⟩
  flow f hf := (hI.flow f hf).snoc e

/-! ### One lemma for each kind of write -/

theorem Inv.begin (hI : Inv w l s) {p : ι} {phase : Phase H} (hf : FlowOk w l s ⟨p, phase⟩) :
    Inv w l (s.begin p phase) :=
  { hI with
    flow := fun g hg => by
      rcases List.mem_append.mp hg with hg | hg
      · exact hI.flow g hg
      · rw [List.mem_singleton.mp hg]
        exact hf }

theorem Inv.goto (hI : Inv w l s) {i : ℕ} {f : Flow ι H} {phase : Phase H}
    (hf : FlowOk w l s { f with phase := phase }) : Inv w l (s.goto i f phase) :=
  { hI with
    flow := fun g hg => by
      rcases List.mem_or_eq_of_mem_set hg with hg | rfl
      · exact hI.flow g hg
      · exact hf }

theorem Inv.ended (hI : Inv w l s) (i : ℕ) (f : Flow ι H) : Inv w l (s.goto i f .ended) :=
  hI.goto trivial

theorem Inv.logIn (hI : Inv w l s) {p : ι} {userId : Uuid}
    (h : Knows s userId fun u => u.passwordHash.isSome ∨ Proved w l p (w.lower u.email)) :
    Inv w l (s.logIn p userId) :=
  { hI with
    login := fun x hx => by
      rcases List.mem_cons.mp hx with rfl | hx
      · exact h
      · exact hI.login x hx }

theorem extends_mail {h : H} (hfresh : s.mailed h = none) (email : String) :
    Extends s (s.mail h email) where
  user _ u hu := ⟨u, hu, rfl, id⟩
  mailed h' email' hm := by
    have hne : h' ≠ h := by
      rintro rfl
      rw [hfresh] at hm
      cases hm
    exact (Function.update_of_ne hne _ _).trans hm

theorem Inv.mail (hI : Inv w l s) {h : H} (hfresh : s.mailed h = none) (email : String) :
    Inv w l (s.mail h email) :=
  { hI with
    verifyToken := fun h' x hx => (extends_mail hfresh email).sentTo (hI.verifyToken h' x hx)
    resetToken := fun h' x hx => (extends_mail hfresh email).sentTo (hI.resetToken h' x hx)
    flow := fun f hf => (extends_mail hfresh email).flowOk (hI.flow f hf) }

/-- The rows of `users` change, with their addresses kept. -/
theorem Inv.users (hI : Inv w l s) {users : List User}
    (hext : Extends s { s with users := users })
    (hverified : ∀ (userId : Uuid) u, users[userId]? = some u → u.emailVerifiedAt.isSome →
      Proved w l (w.owner u.email) (w.lower u.email))
    (hpassword : ∀ (userId : Uuid) u, users[userId]? = some u → u.passwordHash.isSome →
      ∃ q how, setBy l userId = some (q, how) ∧ GoodSetter w l (w.lower u.email) q how) :
    Inv w l { s with users := users } where
  verified := hverified
  password := hpassword
  verifyToken h x hx := hext.sentTo (hI.verifyToken h x hx)
  resetToken h x hx := hext.sentTo (hI.resetToken h x hx)
  account o ho := hext.provedFor (hI.account o ho)
  login x hx := hext.knows (hI.login x hx) fun u u' hemail hpass hu => by
    rw [hemail]
    exact hu.imp_left hpass
  flow f hf := hext.flowOk (hI.flow f hf)

theorem modify_eq_some {users : List User} {userId j : Uuid} {g : User → User} {u' : User}
    (h : (users.modify userId g)[j]? = some u') :
    ∃ u, users[j]? = some u ∧ u' = if userId = j then g u else u := by
  rw [List.getElem?_modify] at h
  obtain ⟨u, hu, h⟩ := Option.map_eq_some_iff.mp h
  exact ⟨u, hu, h.symm⟩

theorem extends_modify (userId : Uuid) {g : User → User} (hemail : ∀ u, (g u).email = u.email)
    (hpass : ∀ u, u.passwordHash.isSome → (g u).passwordHash.isSome) :
    Extends s { s with users := s.users.modify userId g } where
  user j u hu := by
    refine ⟨if userId = j then g u else u, ?_, ?_, ?_⟩
    · show (s.users.modify userId g)[j]? = _
      rw [List.getElem?_modify, hu]
      rfl
    · split_ifs
      · exact hemail u
      · rfl
    · split_ifs
      · exact hpass u
      · exact id
  mailed _ _ h := h

/-- One row of `users` changes, with its address kept. -/
theorem Inv.modify (hI : Inv w l s) {userId : Uuid} {g : User → User}
    (hemail : ∀ u, (g u).email = u.email)
    (hpass : ∀ u, u.passwordHash.isSome → (g u).passwordHash.isSome)
    (hverified : ∀ u, s.users[userId]? = some u → (g u).emailVerifiedAt.isSome →
      Proved w l (w.owner u.email) (w.lower u.email))
    (hpassword : ∀ u, s.users[userId]? = some u → (g u).passwordHash.isSome →
      ∃ q how, setBy l userId = some (q, how) ∧ GoodSetter w l (w.lower u.email) q how) :
    Inv w l { s with users := s.users.modify userId g } := by
  refine hI.users (extends_modify userId hemail hpass) (fun j u' hu' hv => ?_) fun j u' hu' hp => ?_
  · obtain ⟨u, hu, rfl⟩ := modify_eq_some hu'
    split_ifs at hv ⊢ with hj
    · subst hj
      rw [hemail]
      exact hverified u hu hv
    · exact hI.verified j u hu hv
  · obtain ⟨u, hu, rfl⟩ := modify_eq_some hu'
    split_ifs at hp ⊢ with hj
    · subst hj
      rw [hemail]
      exact hpassword u hu hp
    · exact hI.password j u hu hp

theorem Inv.verifyUserEmail (hI : Inv w l s) {userId : Uuid} (now : Timestamp)
    (h : Knows s userId fun u => Proved w l (w.owner u.email) (w.lower u.email)) :
    Inv w l { s with users := spVerifyUserEmail now s.users userId } := by
  obtain ⟨u, hu, hp⟩ := h
  refine hI.modify (fun _ => rfl) (fun _ h => h) (fun u' hu' _ => ?_) fun u' hu' hpass => ?_
  · obtain rfl := Option.some.inj (hu.symm.trans hu')
    exact hp
  · exact hI.password userId u' hu' hpass

theorem Inv.updateUserPassword (hI : Inv w l s) {userId : Uuid} (passwordHash : String) (q : ι)
    (how : How) (hset : setBy l userId = some (q, how))
    (hgood : ∀ u, s.users[userId]? = some u → GoodSetter w l (w.lower u.email) q how) :
    Inv w l { s with users := spUpdateUserPassword s.users userId passwordHash } :=
  hI.modify (fun _ => rfl) (fun _ _ => rfl) (fun u hu hv => hI.verified userId u hu hv)
    fun u hu _ => ⟨q, how, hset, hgood u hu⟩

theorem Inv.setActive (hI : Inv w l s) (userId : Uuid) (isActive : Bool) :
    Inv w l { s with users := s.users.modify userId fun u => { u with isActive := isActive } } :=
  hI.modify (fun _ => rfl) (fun _ h => h) (fun u hu hv => hI.verified userId u hu hv)
    fun u hu hp => hI.password userId u hu hp

/-- `sp_upsert_oauth_account` for a Google account whose owner has proved the address. -/
theorem Inv.upsertOauthAccount (hI : Inv w l s) {userId : Uuid} {p : ι} {info : GoogleUserInfo}
    (now : Timestamp) (hvouch : MayVouch w p info) (hver : info.emailVerified)
    (hproved : Proved w l p (w.lower info.email))
    (huser : Knows s userId fun u => w.lower u.email = w.lower info.email) :
    Inv w l { s with
      oauthAccounts := (spUpsertOauthAccount now s.oauthAccounts s.users userId info.sub).1
      users := (spUpsertOauthAccount now s.oauthAccounts s.users userId info.sub).2 } := by
  obtain ⟨u, hu, hemail⟩ := huser
  have hown : w.owner u.email = p := by
    unfold World.owner
    rw [hemail]
    exact hvouch.2 hver
  have haccount : Inv w l { s with
      oauthAccounts := (spUpsertOauthAccount now s.oauthAccounts s.users userId info.sub).1 } := by
    refine { hI with account := fun o ho => ?_ }
    simp only [spUpsertOauthAccount] at ho
    split_ifs at ho
    · exact hI.account o ho
    · rcases List.mem_append.mp ho with ho | ho
      · exact hI.account o ho
      · rw [List.mem_singleton.mp ho]
        refine ⟨u, hu, ?_⟩
        show Proved w l (w.googleOwner info.sub) (w.lower u.email)
        rw [hvouch.1, hemail]
        exact hproved
  refine haccount.modify (fun _ => rfl) (fun _ h => h) (fun u' hu' _ => ?_)
    fun u' hu' hpass => hI.password userId u' hu' hpass
  obtain rfl := Option.some.inj (hu.symm.trans hu')
  rw [hown, hemail]
  exact hproved

/-- A row is appended to `users`. -/
theorem Inv.addUser (hI : Inv w l s) {u : User} (hv : u.emailVerifiedAt = none)
    (hp : u.passwordHash.isSome → ∃ q how, setBy l s.users.length = some (q, how) ∧
      GoodSetter w l (w.lower u.email) q how) :
    Inv w l { s with users := s.users ++ [u] } := by
  have hcases {j : Uuid} {u' : User} (h : (s.users ++ [u])[j]? = some u') :
      s.users[j]? = some u' ∨ j = s.users.length ∧ u' = u := by
    rcases lt_trichotomy j s.users.length with hj | rfl | hj
    · exact Or.inl ((List.getElem?_append_left hj).symm.trans h)
    · exact Or.inr ⟨rfl, (Option.some.inj (List.getElem?_concat_length.symm.trans h)).symm⟩
    · rw [List.getElem?_eq_none (by rw [List.length_append, List.length_singleton]; exact hj)] at h
      cases h
  refine hI.users ⟨fun j u' hu' => ⟨u', ?_, rfl, id⟩, fun _ _ h => h⟩ (fun j u' hu' hv' => ?_)
    fun j u' hu' hp' => ?_
  · exact (List.getElem?_append_left (List.getElem?_eq_some_iff.mp hu').1).trans hu'
  · rcases hcases hu' with hu' | ⟨-, rfl⟩
    · exact hI.verified j u' hu' hv'
    · rw [hv] at hv'
      cases hv'
  · rcases hcases hu' with hu' | ⟨rfl, rfl⟩
    · exact hI.password j u' hu' hp'
    · exact hp hp'

/-! ### The tokens in Redis -/

theorem Inv.verifyTokens (hI : Inv w l s) {keys : EmailVerify.Keys Timestamp H Uuid}
    (h : ∀ t x, EmailVerify.live keys t = some x → EmailVerify.live s.verifyTokens t = some x ∨
      SentTo s t x.value.userId) : Inv w l { s with verifyTokens := keys } :=
  { hI with
    verifyToken := fun t x hx => (h t x hx).elim (hI.verifyToken t x) id }

theorem Inv.resetTokens (hI : Inv w l s) {keys : PasswordReset.Keys Timestamp H Uuid}
    (h : ∀ t x, PasswordReset.live keys t = some x → PasswordReset.live s.resetTokens t = some x ∨
      SentTo s t x.value.userId) : Inv w l { s with resetTokens := keys } :=
  { hI with
    resetToken := fun t x hx => (h t x hx).elim (hI.resetToken t x) id }

theorem Inv.replaceEmailVerify (hI : Inv w l s) {ttl : Timestamp} (httl : 0 < ttl) {userId : Uuid}
    {t : H} (oldHash : Option H) (hsent : SentTo s t userId) :
    Inv w l { s with
      verifyTokens := EmailVerify.replaceEmailVerify ttl s.verifyTokens userId oldHash t } := by
  refine hI.verifyTokens fun t' x hx => ?_
  obtain ⟨k₁, hs, -, -, hlive⟩ :=
    EmailVerify.replaceEmailVerify_stores s.verifyTokens userId oldHash t httl.le
  by_cases ht : t' = t
  · subst ht
    rw [← Option.some.inj (hs.live_self.symm.trans hx)]
    exact Or.inr hsent
  · rw [hs.live_of_ne t' ht, hlive] at hx
    split_ifs at hx
    exact Or.inl hx

theorem Inv.consumeEmailVerify (hI : Inv w l s) (t : H) :
    Inv w l { s with verifyTokens := (EmailVerify.consumeEmailVerify s.verifyTokens t).2 } := by
  refine hI.verifyTokens fun t' x hx => ?_
  by_cases ht : t' = t
  · subst ht
    rw [EmailVerify.consumeEmailVerify_live_self] at hx
    cases hx
  · rw [EmailVerify.consumeEmailVerify_live_of_ne _ ht] at hx
    exact Or.inl hx

theorem Inv.restoreEmailVerify (hI : Inv w l s) {ttl : Timestamp} (httl : 0 < ttl) {userId : Uuid}
    {t : H} (hsent : SentTo s t userId) :
    Inv w l { s with
      verifyTokens := (EmailVerify.restoreEmailVerify ttl s.verifyTokens t userId).2 } := by
  refine hI.verifyTokens fun t' x hx => ?_
  rcases EmailVerify.restoreEmailVerify_cases s.verifyTokens t userId httl.le with h | ⟨-, -, hs⟩
  · rw [h] at hx
    exact Or.inl hx
  · by_cases ht : t' = t
    · subst ht
      rw [← Option.some.inj (hs.live_self.symm.trans hx)]
      exact Or.inr hsent
    · rw [hs.live_of_ne t' ht] at hx
      exact Or.inl hx

theorem Inv.savePasswordReset (hI : Inv w l s) {ttl : Timestamp} (httl : 0 < ttl) {userId : Uuid}
    {t : H} (oldHash : Option H) (hsent : SentTo s t userId) :
    Inv w l { s with
      resetTokens := (PasswordReset.savePasswordReset ttl s.resetTokens userId oldHash t).2 } := by
  refine hI.resetTokens fun t' x hx => ?_
  rcases PasswordReset.savePasswordReset_cases s.resetTokens userId oldHash t httl.le with
    h | ⟨-, hs, hlive⟩
  · rw [h] at hx
    exact Or.inl hx
  · by_cases ht : t' = t
    · subst ht
      rw [← Option.some.inj (hs.live_self.symm.trans hx)]
      exact Or.inr hsent
    · exact Or.inl (hlive t' x ht hx).1

theorem Inv.consumePasswordReset (hI : Inv w l s) {ttl : Timestamp} (httl : 0 < ttl) (t : H) :
    Inv w l { s with
      resetTokens := (PasswordReset.consumePasswordReset ttl s.resetTokens t).2 } := by
  refine hI.resetTokens fun t' x hx => ?_
  rcases PasswordReset.consumePasswordReset_cases s.resetTokens t httl.le with
    h | ⟨x', -, -, -, hc⟩
  · rw [h] at hx
    exact Or.inl hx
  · by_cases ht : t' = t
    · subst ht
      rw [hc.live_self] at hx
      cases hx
    · rw [hc.live_of_ne t' ht] at hx
      exact Or.inl hx

theorem Inv.restorePasswordReset (hI : Inv w l s) {ttl : Timestamp} (httl : 0 < ttl)
    {userId : Uuid} {t : H} (hsent : SentTo s t userId) :
    Inv w l { s with
      resetTokens := (PasswordReset.restorePasswordReset ttl s.resetTokens t userId).2 } := by
  refine hI.resetTokens fun t' x hx => ?_
  rcases PasswordReset.restorePasswordReset_cases s.resetTokens t userId httl.le with
    h | ⟨-, -, -, -, hs, hlive⟩
  · rw [h] at hx
    exact Or.inl hx
  · by_cases ht : t' = t
    · subst ht
      rw [← Option.some.inj (hs.live_self.symm.trans hx)]
      exact Or.inr hsent
    · rw [hlive t' ht] at hx
      exact Or.inl hx

theorem Inv.advance (hI : Inv w l s) (d : Timestamp) :
    Inv w l { s with
      verifyTokens := s.verifyTokens.advance d
      resetTokens := s.resetTokens.advance d } :=
  (hI.verifyTokens fun _ _ hx => Or.inl (Keyspace.advance_string_eq_some _ _ |>.mp hx).1).resetTokens
    fun _ _ hx => Or.inl (Keyspace.advance_string_eq_some _ _ |>.mp hx).1

/-! ### Reads of the tables -/

theorem mem_findUsers {users : List User} {pred : User → Bool} {userId : Uuid} {u : User}
    (h : (userId, u) ∈ findUsers users pred) : users[userId]? = some u ∧ pred u := by
  obtain ⟨hmem, hp⟩ := List.mem_filter.mp h
  obtain ⟨x, hx, hxu⟩ := List.mem_map.mp hmem
  obtain ⟨rfl, rfl⟩ := Prod.mk.inj hxu
  exact ⟨List.mem_zipIdx_iff_getElem?.mp hx, hp⟩

theorem mem_of_oneOrNone {α : Type} {rows : List α} {a : α} (h : oneOrNone rows = .ok (some a)) :
    a ∈ rows := by
  match rows, h with
  | [_], h =>
    rw [Option.some.inj (Except.ok.inj h)]
    exact List.mem_cons_self

theorem getByEmail_eq_some {users : List User} {email : String} {userId : Uuid} {u : User}
    (h : getByEmail w users email = .ok (some (userId, u))) :
    users[userId]? = some u ∧ w.lower u.email = w.lower email := by
  obtain ⟨hu, hp⟩ := mem_findUsers (mem_of_oneOrNone h)
  exact ⟨hu, of_decide_eq_true hp⟩

theorem getByLoginIdentifier_eq_some {users : List User} {identifier : String} {userId : Uuid}
    {u : User} (h : getByLoginIdentifier w users identifier = .ok (some (userId, u))) :
    users[userId]? = some u :=
  (mem_findUsers (mem_of_oneOrNone h)).1

theorem spRegisterUser_eq_some {users users' : List User} {username email : String}
    {passwordHash : Option String}
    (h : spRegisterUser w users username email passwordHash = some users') :
    users' = users ++ [⟨username, email, passwordHash, .member, true, none⟩] := by
  unfold spRegisterUser at h
  split_ifs at h
  exact (Option.some.inj h).symm

/-- A row on which a login succeeds has a password and a verified address. -/
theorem isSome_of_accepts {password : String} {u : User} (h : accepts w password u) :
    u.passwordHash.isSome ∧ u.emailVerifiedAt.isSome := by
  unfold accepts at h
  rw [Bool.and_eq_true, Bool.and_eq_true] at h
  refine ⟨?_, h.2⟩
  cases hp : u.passwordHash with
  | none =>
    rw [hp] at h
    cases h.1.1
  | some _ => rfl

/-! ### The steps -/

theorem Inv.quiet (hI : Inv w l s) (he : setsPassword e = none) : Inv w (l ++ [e]) s :=
  hI.snoc fun userId q how h => by
    rw [he] at h
    cases h

/-- A password is stored for a user, by a party who may set it. -/
theorem Inv.commitPassword (hI : Inv w l s) {userId : Uuid} {q : ι} {how : How}
    (hset : setsPassword e = some (userId, q, how)) (passwordHash : String)
    (hgood : ∀ u, s.users[userId]? = some u → GoodSetter w (l ++ [e]) (w.lower u.email) q how) :
    Inv w (l ++ [e]) { s with users := spUpdateUserPassword s.users userId passwordHash } := by
  have hI' : Inv w (l ++ [e]) s := hI.snoc fun _ _ _ he u hu => by
    obtain ⟨rfl, rfl, rfl⟩ : userId = _ ∧ q = _ ∧ how = _ := by
      simpa only [Option.some.injEq, Prod.mk.injEq] using hset.symm.trans he
    exact hgood u hu
  refine hI'.updateUserPassword passwordHash q how ?_ hgood
  rw [setBy_snoc]
  simp only [nextSetter, hset, if_true]

theorem extends_upsert (now : Timestamp) (userId : Uuid) (sub : String) :
    Extends s { s with
      oauthAccounts := (spUpsertOauthAccount now s.oauthAccounts s.users userId sub).1
      users := (spUpsertOauthAccount now s.oauthAccounts s.users userId sub).2 } :=
  ⟨(extends_modify (s := s) userId (g := fun u =>
    { u with emailVerifiedAt := u.emailVerifiedAt.orElse fun _ => some now }) (fun _ => rfl)
    fun _ h => h).user, fun _ _ h => h⟩

/-- Linking a Google account to the user with its address, and logging in. -/
theorem Inv.link (hI : Inv w l s) {userId : Uuid} {p : ι} {info : GoogleUserInfo}
    (now : Timestamp) (hvouch : MayVouch w p info) (hver : info.emailVerified)
    (hproved : Proved w l p (w.lower info.email))
    (huser : Knows s userId fun u => w.lower u.email = w.lower info.email) :
    Inv w l (({ s with
      oauthAccounts := (spUpsertOauthAccount now s.oauthAccounts s.users userId info.sub).1
      users := (spUpsertOauthAccount now s.oauthAccounts s.users userId info.sub).2 } :
        State ι H).logIn p userId) := by
  refine (hI.upsertOauthAccount now hvouch hver hproved huser).logIn ?_
  refine (extends_upsert now userId info.sub).knows huser fun u u' hemail _ hu => Or.inr ?_
  rw [hemail, hu]
  exact hproved

/-- A step of a call under way. -/
theorem Inv.stepFlow (hI : Inv w l s) {i : ℕ} {f : Flow ι H} (hf : s.flows[i]? = some f)
    (hc : c.flow = some i) (h : stepFlow w settings s i f c = some (r, s')) :
    Inv w (l ++ [⟨s, c, r⟩]) s' := by
  obtain ⟨p, phase⟩ := f
  have hok := hI.flow _ (List.mem_of_getElem? hf)
  have hok' := hok.snoc ⟨s, c, r⟩
  have hquiet (he : setsPassword (⟨s, c, r⟩ : Event ι H) = none) := hI.quiet he
  cases c with
  | issueVerify _ oldHash t =>
    simp only [Accounts.stepFlow] at h
    split at h
    · rename_i userId email
      split_ifs at h with hguard
      obtain ⟨rfl, rfl⟩ := Prod.mk.inj (Option.some.inj h)
      obtain ⟨u, hu, rfl⟩ := hok
      -- the message goes to the address of the user whom the token names
      have hI' := (hquiet rfl).mail hguard.2 u.email
      exact (hI'.replaceEmailVerify hguard.1 oldHash ⟨u, hu, Function.update_self ..⟩).ended i _
    · cases h
  | verifyCommit _ =>
    simp only [Accounts.stepFlow] at h
    split at h
    · obtain ⟨rfl, rfl⟩ := Prod.mk.inj (Option.some.inj h)
      exact ((hquiet rfl).verifyUserEmail s.now hok'.2).ended i _
    · cases h
  | verifyRestore _ =>
    simp only [Accounts.stepFlow] at h
    split at h
    · split_ifs at h with httl
      obtain ⟨rfl, rfl⟩ := Prod.mk.inj (Option.some.inj h)
      exact ((hquiet rfl).restoreEmailVerify httl hok.1).ended i _
    · cases h
  | issueReset _ oldHash t =>
    simp only [Accounts.stepFlow] at h
    split at h
    · rename_i userId email
      split_ifs at h with hguard hsaved
      · obtain ⟨rfl, rfl⟩ := Prod.mk.inj (Option.some.inj h)
        obtain ⟨u, hu, rfl⟩ := hok
        have hI' := (hquiet rfl).mail hguard.2 u.email
        exact (hI'.savePasswordReset hguard.1 oldHash ⟨u, hu, Function.update_self ..⟩).ended i _
      · obtain ⟨rfl, rfl⟩ := Prod.mk.inj (Option.some.inj h)
        exact (hquiet rfl).ended i _
    · cases h
  | resetCommit j salt =>
    obtain rfl : j = i := Option.some.inj hc
    simp only [Accounts.stepFlow] at h
    split at h
    · rename_i t userId newPassword
      obtain ⟨rfl, rfl⟩ := Prod.mk.inj (Option.some.inj h)
      have hset : setsPassword (⟨s, .resetCommit j salt, .done⟩ : Event ι H) =
          some (userId, p, .reset) := by
        simp only [setsPassword, hf]
      -- the consumed token was sent to the address, so the party has proved it
      refine (hI.commitPassword hset _ fun u hu => Or.inl ?_).ended j _
      obtain ⟨u', hu', hp⟩ := hok.2
      obtain rfl := Option.some.inj (hu.symm.trans hu')
      exact hp.snoc _
    · cases h
  | resetRestore _ =>
    simp only [Accounts.stepFlow] at h
    split at h
    · split_ifs at h with httl
      obtain ⟨rfl, rfl⟩ := Prod.mk.inj (Option.some.inj h)
      exact ((hquiet rfl).restorePasswordReset httl hok.1).ended i _
    · cases h
  | changeCommit j salt =>
    obtain rfl : j = i := Option.some.inj hc
    simp only [Accounts.stepFlow] at h
    split at h
    · rename_i userId presented newPassword
      obtain ⟨rfl, rfl⟩ := Prod.mk.inj (Option.some.inj h)
      have hset : setsPassword (⟨s, .changeCommit j salt, .done⟩ : Event ι H) =
          some (userId, p, .changed presented) := by
        simp only [setsPassword, hf]
      refine (hI.commitPassword hset _ fun u hu => ?_).ended j _
      -- the current password was presented, or a Google account logged the party in
      rcases hok with rfl | ⟨u', hu', hp⟩
      · exact Or.inr (Or.inr rfl)
      · obtain rfl := Option.some.inj (hu.symm.trans hu')
        exact Or.inl (hp.snoc _)
    · cases h
  | oauthEmail _ =>
    simp only [Accounts.stepFlow] at h
    split at h
    · rename_i info
      split at h
      · -- a user has the address; it is linked when Google has verified the address
        rename_i userId existing hget
        obtain ⟨hu, hemail⟩ := getByEmail_eq_some hget
        split_ifs at h with hver
        · obtain ⟨rfl, rfl⟩ := Prod.mk.inj (Option.some.inj h)
          exact (hquiet rfl).goto ⟨hok'.1, hver.1, hok'.2 hver.1, existing, hu, hemail⟩
        · obtain ⟨rfl, rfl⟩ := Prod.mk.inj (Option.some.inj h)
          exact (hquiet rfl).ended i _
      · split_ifs at h with hver
        · obtain ⟨rfl, rfl⟩ := Prod.mk.inj (Option.some.inj h)
          exact (hquiet rfl).goto ⟨hok'.1, hver, hok'.2 hver⟩
        · obtain ⟨rfl, rfl⟩ := Prod.mk.inj (Option.some.inj h)
          exact (hquiet rfl).ended i _
      · obtain ⟨rfl, rfl⟩ := Prod.mk.inj (Option.some.inj h)
        exact (hquiet rfl).ended i _
    · cases h
  | oauthCommit _ =>
    simp only [Accounts.stepFlow] at h
    split at h
    · rename_i userId info
      obtain ⟨rfl, rfl⟩ := Prod.mk.inj (Option.some.inj h)
      exact ((hquiet rfl).link s.now hok'.1 hok'.2.1 hok'.2.2.1 hok'.2.2.2).ended i _
    · rename_i info
      split at h
      · obtain ⟨rfl, rfl⟩ := Prod.mk.inj (Option.some.inj h)
        exact (hquiet rfl).ended i _
      · rename_i users hreg
        obtain ⟨rfl, rfl⟩ := Prod.mk.inj (Option.some.inj h)
        obtain rfl := spRegisterUser_eq_some hreg
        -- a user that a callback creates has no password
        have hI' := (hquiet rfl).addUser
          (u := ⟨w.googleUsername info.sub, info.email, none, .member, true, none⟩) rfl nofun
        exact (hI'.link s.now hok'.1 hok'.2.1 hok'.2.2 ⟨_, List.getElem?_concat_length, rfl⟩).ended
          i _
    · cases h
  | fail _ =>
    obtain ⟨rfl, rfl⟩ := Prod.mk.inj (Option.some.inj h)
    exact (hquiet rfl).ended i _
  | register _ _ _ _ _ | resendVerification _ _ | verifyEmail _ _ | requestReset _ _
  | resetPassword _ _ _ | changePassword _ _ _ _ | oauthCallback _ _ | login _ _ _ | signOut _ _
  | setActive _ _ | tick _ => cases hc

/-- The first step of a call, and what happens around the calls. -/
theorem Inv.stepFirst (hI : Inv w l s) (h : stepFirst w settings s c = some (r, s')) :
    Inv w (l ++ [⟨s, c, r⟩]) s' := by
  have hquiet (he : setsPassword (⟨s, c, r⟩ : Event ι H) = none) := hI.quiet he
  cases c with
  | register p username email password salt =>
    simp only [Accounts.stepFirst] at h
    split at h
    · obtain ⟨rfl, rfl⟩ := Prod.mk.inj (Option.some.inj h)
      exact hquiet rfl
    · rename_i users hreg
      obtain ⟨rfl, rfl⟩ := Prod.mk.inj (Option.some.inj h)
      obtain rfl := spRegisterUser_eq_some hreg
      -- whoever registers sets the first password
      have hI' := hI.snoc (e := ⟨s, .register p username email password salt,
        .created s.users.length⟩) fun _ _ how he _ _ => by
          obtain ⟨-, -, rfl⟩ : s.users.length = _ ∧ p = _ ∧ How.registered = how := by
            simpa only [setsPassword, Option.some.injEq, Prod.mk.injEq] using he
          exact Or.inr (Or.inl rfl)
      refine (hI'.addUser rfl fun _ => ⟨p, .registered, ?_, Or.inr (Or.inl rfl)⟩).begin ?_
      · rw [setBy_snoc]
        simp only [nextSetter, setsPassword, if_true]
      · exact ⟨_, List.getElem?_concat_length, rfl⟩
  | resendVerification p email =>
    simp only [Accounts.stepFirst] at h
    split at h
    · rename_i userId user hget
      split_ifs at h
      · obtain ⟨rfl, rfl⟩ := Prod.mk.inj (Option.some.inj h)
        exact (hquiet rfl).begin ⟨user, (getByEmail_eq_some hget).1, rfl⟩
      · obtain ⟨rfl, rfl⟩ := Prod.mk.inj (Option.some.inj h)
        exact hquiet rfl
    · obtain ⟨rfl, rfl⟩ := Prod.mk.inj (Option.some.inj h)
      exact hquiet rfl
    · obtain ⟨rfl, rfl⟩ := Prod.mk.inj (Option.some.inj h)
      exact hquiet rfl
  | verifyEmail p t =>
    simp only [Accounts.stepFirst] at h
    split_ifs at h with hmay
    split at h
    · rename_i userId hconsumed
      obtain ⟨rfl, rfl⟩ := Prod.mk.inj (Option.some.inj h)
      obtain ⟨d, hd, rfl⟩ := Option.map_eq_some_iff.mp hconsumed
      obtain ⟨x, hx, rfl⟩ := Option.map_eq_some_iff.mp hd
      -- the token was sent to the address, and only its owner may present it
      obtain ⟨u, hu, hsent⟩ := hI.verifyToken t x hx
      have hown : w.owner u.email = p := hmay u.email hsent
      have hproves : Proves w (⟨s, .verifyEmail p t, .accepted⟩ : Event ι H) (w.owner u.email)
          (w.lower u.email) := ⟨rfl, hown.symm, u.email, hsent, rfl⟩
      exact ((hquiet rfl).consumeEmailVerify t).begin ⟨⟨u, hu, hsent⟩, u, hu, hproves.proved⟩
    · obtain ⟨rfl, rfl⟩ := Prod.mk.inj (Option.some.inj h)
      exact (hquiet rfl).consumeEmailVerify t
  | requestReset p email =>
    simp only [Accounts.stepFirst] at h
    split at h
    · rename_i userId user hget
      obtain ⟨rfl, rfl⟩ := Prod.mk.inj (Option.some.inj h)
      exact (hquiet rfl).begin ⟨user, (getByEmail_eq_some hget).1, rfl⟩
    · obtain ⟨rfl, rfl⟩ := Prod.mk.inj (Option.some.inj h)
      exact hquiet rfl
    · obtain ⟨rfl, rfl⟩ := Prod.mk.inj (Option.some.inj h)
      exact hquiet rfl
  | resetPassword p t newPassword =>
    simp only [Accounts.stepFirst] at h
    split_ifs at h with hmay
    split at h
    · rename_i userId hconsumed
      obtain ⟨rfl, rfl⟩ := Prod.mk.inj (Option.some.inj h)
      rcases PasswordReset.consumePasswordReset_cases s.resetTokens t hmay.2.le with
        hnone | ⟨x, hx, -, hsome, -⟩
      · rw [hnone] at hconsumed
        cases hconsumed
      · obtain rfl := Option.some.inj (hsome.symm.trans hconsumed)
        -- whoever presents the token has read the message to the address
        obtain ⟨u, hu, hsent⟩ := hI.resetToken t x hx
        have hproves : Proves w (⟨s, .resetPassword p t newPassword, .accepted⟩ : Event ι H) p
            (w.lower u.email) := ⟨rfl, rfl, u.email, hsent, rfl⟩
        exact ((hquiet rfl).consumePasswordReset hmay.2 t).begin
          ⟨⟨u, hu, hsent⟩, u, hu, hproves.proved⟩
    · obtain ⟨rfl, rfl⟩ := Prod.mk.inj (Option.some.inj h)
      exact (hquiet rfl).consumePasswordReset hmay.2 t
  | changePassword p userId currentPassword newPassword =>
    simp only [Accounts.stepFirst] at h
    split_ifs at h with hlogin
    split at h
    · obtain ⟨rfl, rfl⟩ := Prod.mk.inj (Option.some.inj h)
      exact hquiet rfl
    · rename_i user hu
      split at h
      · split_ifs at h
        · obtain ⟨rfl, rfl⟩ := Prod.mk.inj (Option.some.inj h)
          exact (hquiet rfl).begin (Or.inl rfl)
        · obtain ⟨rfl, rfl⟩ := Prod.mk.inj (Option.some.inj h)
          exact hquiet rfl
      · obtain ⟨rfl, rfl⟩ := Prod.mk.inj (Option.some.inj h)
        exact hquiet rfl
      · obtain ⟨rfl, rfl⟩ := Prod.mk.inj (Option.some.inj h)
        exact hquiet rfl
      · -- without a password only a Google account can have logged the party in
        rename_i hnone
        obtain ⟨rfl, rfl⟩ := Prod.mk.inj (Option.some.inj h)
        refine (hquiet rfl).begin (Or.inr ⟨user, hu, ?_⟩)
        obtain ⟨u, hu', hp⟩ := hI.login _ hlogin
        obtain rfl := Option.some.inj (hu.symm.trans hu')
        rcases hp with hp | hp
        · rw [hnone] at hp
          cases hp
        · exact hp.snoc _
  | oauthCallback p info =>
    simp only [Accounts.stepFirst] at h
    split_ifs at h with hvouch
    split at h
    · rename_i account hfind
      split at h
      · rename_i user hu
        split_ifs at h
        · obtain ⟨rfl, rfl⟩ := Prod.mk.inj (Option.some.inj h)
          -- Google vouches for the party by the subject that the account is linked to
          obtain ⟨u, hu', hp⟩ := (hquiet rfl).account account (List.mem_of_find?_eq_some hfind)
          have hsub : account.sub = info.sub := by simpa using List.find?_some hfind
          rw [hsub, hvouch.1] at hp
          exact (hquiet rfl).logIn ⟨u, hu', Or.inr hp⟩
        · obtain ⟨rfl, rfl⟩ := Prod.mk.inj (Option.some.inj h)
          exact hquiet rfl
      · obtain ⟨rfl, rfl⟩ := Prod.mk.inj (Option.some.inj h)
        exact hquiet rfl
    · obtain ⟨rfl, rfl⟩ := Prod.mk.inj (Option.some.inj h)
      refine (hquiet rfl).begin ⟨hvouch, fun hver => ?_⟩
      -- the answer of Google proves the address that it calls verified
      have hproves : Proves w (⟨s, .oauthCallback p info, .done⟩ : Event ι H) p
          (w.lower info.email) := ⟨rfl, hver, rfl⟩
      exact hproves.proved
  | login p identifier password =>
    simp only [Accounts.stepFirst] at h
    split at h
    · rename_i userId user hget
      split_ifs at h with haccept
      · obtain ⟨rfl, rfl⟩ := Prod.mk.inj (Option.some.inj h)
        refine (hquiet rfl).logIn ⟨user, getByLoginIdentifier_eq_some hget, Or.inl ?_⟩
        exact (isSome_of_accepts haccept).1
      · obtain ⟨rfl, rfl⟩ := Prod.mk.inj (Option.some.inj h)
        exact hquiet rfl
    · obtain ⟨rfl, rfl⟩ := Prod.mk.inj (Option.some.inj h)
      exact hquiet rfl
    · obtain ⟨rfl, rfl⟩ := Prod.mk.inj (Option.some.inj h)
      exact hquiet rfl
  | signOut p userId =>
    obtain ⟨rfl, rfl⟩ := Prod.mk.inj (Option.some.inj h)
    exact { hquiet rfl with login := fun x hx => (hquiet rfl).login x (List.mem_of_mem_erase hx) }
  | setActive userId isActive =>
    obtain ⟨rfl, rfl⟩ := Prod.mk.inj (Option.some.inj h)
    exact (hquiet rfl).setActive userId isActive
  | tick d =>
    simp only [Accounts.stepFirst] at h
    split_ifs at h
    obtain ⟨rfl, rfl⟩ := Prod.mk.inj (Option.some.inj h)
    exact (hquiet rfl).advance d
  | issueVerify _ _ _ | verifyCommit _ | verifyRestore _ | issueReset _ _ _ | resetCommit _ _
  | resetRestore _ | changeCommit _ _ | oauthEmail _ | oauthCommit _ | fail _ => cases h

theorem Inv.step (hI : Inv w l s) (h : (machine w settings).step s c = some (r, s')) :
    Inv w (l ++ [⟨s, c, r⟩]) s' := by
  simp only [machine] at h
  split at h
  · rename_i i hc
    obtain ⟨f, hf, h⟩ := Option.bind_eq_some_iff.mp h
    exact hI.stepFlow hf hc h
  · exact hI.stepFirst h

variable {now : Timestamp}

theorem inv_of_run (h : (machine w settings).Run (init now) l s) : Inv w l s :=
  h.induction (Inv w) (inv_init now) fun _ _ _ _ _ _ hI hs => hI.step hs

/-! ### Main theorem -/

/-- **Whose password opens an account.**  When a password login succeeds, the owner of the mailbox
has proved the address of the account; and the stored password was set by a party who has proved
it, by `register`, or by `change_password` upon the password stored before. -/
theorem password_login_provenance (h : (machine w settings).Run (init now) l s) (p : ι)
    (identifier password : String) (userId : Uuid)
    (hlogin : (machine w settings).step s (.login p identifier password) =
      some (.loggedIn userId, s')) :
    ∃ u, s.users[userId]? = some u ∧ Proved w l (w.owner u.email) (w.lower u.email) ∧
      ∃ q how, setBy l userId = some (q, how) ∧
        (Proved w l q (w.lower u.email) ∨ how = .registered ∨ how = .changed true) := by
  have hI := inv_of_run h
  simp only [machine, Call.flow, stepFirst] at hlogin
  split at hlogin
  · rename_i userId' user hget
    split_ifs at hlogin with haccept
    · obtain ⟨hid, -⟩ := Prod.mk.inj (Option.some.inj hlogin)
      obtain rfl := Reply.loggedIn.inj hid
      have hu := getByLoginIdentifier_eq_some hget
      obtain ⟨hpass, hverified⟩ := isSome_of_accepts haccept
      exact ⟨user, hu, hI.verified _ user hu hverified, hI.password _ user hu hpass⟩
    · cases hlogin
  · cases hlogin
  · cases hlogin

/-- The party 0 owns every mailbox and Google account; passwords are their own hashes. -/
def plainWorld : World ℕ where
  lower email := email
  hashPassword password _ := password
  verifyPassword password passwordHash := password == passwordHash
  googleUsername sub := "google_" ++ sub
  mailboxOwner _ := 0
  googleOwner _ := 0

abbrev plainMachine : Machine (State ℕ ℕ) (Call ℕ ℕ) Reply :=
  machine plainWorld ⟨86400000000, 3600000000⟩

/-- The owner of an address registers and presents the token of the mail. -/
def verifiedRun : List (Event ℕ ℕ) × State ℕ ℕ :=
  plainMachine.runOf (init 0)
    [.register 0 "owner" "owner@example.com" "password" 0, .issueVerify 0 none 0, .verifyEmail 0 0,
      .verifyCommit 1] (by decide)

theorem password_login_provenance_verifiedRun :
    ∃ u, verifiedRun.2.users[0]? = some u ∧
      Proved plainWorld verifiedRun.1 (plainWorld.owner u.email) (plainWorld.lower u.email) ∧
      ∃ q how, setBy verifiedRun.1 0 = some (q, how) ∧
        (Proved plainWorld verifiedRun.1 q (plainWorld.lower u.email) ∨ how = .registered ∨
          how = .changed true) :=
  password_login_provenance (Machine.run_runOf plainMachine (init 0) _ _) 0 "owner" "password" 0 rfl

/-- The party 1 registers the address of the party 0, who later logs in with Google. -/
def prehijackedRun : List (Event ℕ ℕ) × State ℕ ℕ :=
  plainMachine.runOf (init 0)
    [.register 1 "other" "owner@example.com" "password" 0,
      .oauthCallback 0 ⟨"sub", "owner@example.com", true⟩, .oauthEmail 1, .oauthCommit 1]
    (by decide)

theorem not_proved_prehijackedRun (a : String) : ¬Proved plainWorld prehijackedRun.1 1 a := by
  rintro ⟨e, he, hp⟩
  obtain ⟨⟨i, hi⟩, rfl⟩ := List.get_of_mem he
  match i, hi with
  | 0, _ => exact hp
  | 1, _ => exact absurd hp.1 (by decide)
  | 2, _ => exact hp
  | 3, _ => exact hp

/-- The Google account of the party 0 verifies the address that the party 1 has registered, and
keeps its password: the party 1 logs in without ever having proved the address. -/
theorem account_prehijacked :
    ¬∀ (w : World ℕ) (settings : Settings) (now : Timestamp) (l : List (Event ℕ ℕ)) (s s' : State ℕ ℕ)
      (p : ℕ) (identifier password : String) (userId : Uuid),
      (machine w settings).Run (init now) l s →
      (machine w settings).step s (.login p identifier password) = some (.loggedIn userId, s') →
      ∃ u, s.users[userId]? = some u ∧
        ∃ q how, setBy l userId = some (q, how) ∧ Proved w l q (w.lower u.email) := by
  intro hall
  obtain ⟨u, -, q, how, hset, hproved⟩ := hall plainWorld _ 0 _ _ _ 1 "other" "password" 0
    (Machine.run_runOf plainMachine (init 0) _ _ : plainMachine.Run _ prehijackedRun.1 _) rfl
  have hset' : setBy prehijackedRun.1 0 = some (1, .registered) := rfl
  obtain ⟨rfl, rfl⟩ := Prod.mk.inj (Option.some.inj (hset'.symm.trans hset))
  exact not_proved_prehijackedRun u.email hproved

end Accounts

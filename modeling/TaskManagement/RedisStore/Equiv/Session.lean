import TaskManagement.RedisStore.Session

/-!
# The index of the sessions of a user

`session_index_covers`: along every run of `Session.machine` in which no session is authenticated
while another live session of its user expires after the absolute expiry of the first, every live
session is in the index `user_sessions` of its user, and `delete_all_sessions` leaves the user no
session.  `session_index_uncovered` is a run without the condition: a session near its absolute
expiry shortens the life of the index that it shares with a younger session.

* `Covered`: a live session is in the index of its user and the index does not expire before it;
* `covered_step`: every step keeps it, an authentication under the condition `TouchCovers`.
-/

namespace Session

set_option linter.unusedSectionVars false

variable {T U S : Type} [Ring T] [LinearOrder T] [IsStrictOrderedRing T] [FloorRing T]
variable [DecidableEq U] [DecidableEq S]

/-- The entry of a live session. -/
abbrev session (s : Keys T U S) (sid : S) : Option (Entry T (SessionData T U)) :=
  s.string (.session sid)

/-- Every live session is in the index of its user, and expires within `ttl` and no later than the
index. -/
def Covered (ttl : T) (s : Keys T U S) : Prop :=
  ∀ sid e, session s sid = some e → ∃ I x y, s.set e.value.userId = some I ∧ sid ∈ I.value ∧
    I.expiry = some x ∧ e.expiry = some y ∧ y ≤ x ∧ y ≤ s.now + ttl

/-! ### The commands -/

section Commands

variable {ttl : T} {s : Keys T U S}

theorem readSession_eq (s : Keys T U S) (sid : S) :
    Commands.readSession s sid = s.get (.session sid) := rfl

theorem deleteAllSessions_eq (s : Keys T U S) (u : U) (sessionIds : List S) :
    deleteAllSessions s u sessionIds =
      (sessionIds.foldl (fun s sid => (s.del (.session sid)).del (.csrf sid)) s).delSet u := rfl

theorem touchSession_eq (ttl : T) (s : Keys T U S) (sid : S) (u : U) (absoluteExpiresAt : T) :
    touchSession ttl s sid u absoluteExpiresAt =
      match s.get (.session sid) with
      | none => (false, s)
      | some _ =>
        if absoluteExpiresAt - s.now ≤ 0 then (false, s)
        else (true, ((s.expire (.session sid) (min ttl ⌈absoluteExpiresAt - s.now⌉)).expire
          (.csrf sid) (min ttl ⌈absoluteExpiresAt - s.now⌉)).expireSet u
            (min ttl ⌈absoluteExpiresAt - s.now⌉)) := by
  rw [touchSession, readSession_eq]
  cases s.get (.session sid) <;> rfl

theorem authenticate_eq (settings : Settings T) (s : Keys T U S) (sid : S) :
    authenticate settings s sid =
      match s.get (.session sid) with
      | none => (.sessionExpired, s)
      | some d =>
        let r := touchSession settings.sessionTtl s sid d.userId
          (d.createdAt + settings.sessionAbsoluteTtl)
        (if r.1 then .context d.userId sid else .sessionExpired, r.2) := by
  rw [authenticate, getSession, readSession_eq]
  cases s.get (.session sid) <;> rfl

theorem createSession_string (sid : S) (csrfToken : String) (u : U) (ip : Option String) :
    (createSession ttl s sid csrfToken u ip).string =
      ((s.setEx (.session sid) ⟨u, s.now, ip⟩ ttl).setEx (.csrf sid) csrfToken ttl).string := rfl

theorem deleteSession_string (sid : S) (u : U) :
    (deleteSession s sid u).string = ((s.del (.session sid)).del (.csrf sid)).string := rfl

theorem createSession_session_self (sid : S) (csrfToken : String) (u : U) (ip : Option String)
    (httl : 0 ≤ ttl) : session (createSession ttl s sid csrfToken u ip) sid =
      some ⟨⟨u, s.now, ip⟩, some (s.now + ttl)⟩ := by
  rw [session, createSession_string, Keyspace.setEx_string_of_ne _ _ _ (by simp)]
  exact Keyspace.setEx_string_self s (k := .session sid) _ httl

/-- The sessions after `create_session`. -/
theorem createSession_session {sid sid' : S} {csrfToken : String} {u : U} {ip : Option String}
    (httl : 0 ≤ ttl) {e : Entry T (SessionData T U)}
    (he : session (createSession ttl s sid csrfToken u ip) sid' = some e) :
    (sid' = sid ∧ e = ⟨⟨u, s.now, ip⟩, some (s.now + ttl)⟩) ∨
      (sid' ≠ sid ∧ session s sid' = some e) := by
  by_cases hsid : sid' = sid
  · subst hsid
    rw [createSession_session_self sid' csrfToken u ip httl] at he
    exact Or.inl ⟨rfl, (Option.some.inj he).symm⟩
  · rw [session, createSession_string, Keyspace.setEx_string_of_ne _ _ _ (by simp),
      Keyspace.setEx_string_of_ne _ _ _ (by simpa using hsid)] at he
    exact Or.inr ⟨hsid, he⟩

/-- The sessions after `delete_session`. -/
theorem deleteSession_session {sid sid' : S} {u : U} {e : Entry T (SessionData T U)}
    (he : session (deleteSession s sid u) sid' = some e) :
    sid' ≠ sid ∧ session s sid' = some e := by
  rw [session, deleteSession_string, Keyspace.del_string_of_ne _ (by simp)] at he
  have hne : sid' ≠ sid := by
    rintro rfl
    rw [Keyspace.del_string_self] at he
    cases he
  rw [Keyspace.del_string_of_ne _ (by simpa using hne)] at he
  exact ⟨hne, he⟩

theorem covered_createSession (hc : Covered ttl s) (sid : S) (csrfToken : String) (u : U)
    (ip : Option String) (httl : 0 ≤ ttl) :
    Covered ttl (createSession ttl s sid csrfToken u ip) := by
  have hself : (createSession ttl s sid csrfToken u ip).set u =
      some ⟨insert sid (s.smembers u), some (s.now + ttl)⟩ :=
    Keyspace.sadd_expireSet_set _ sid httl
  have hnow : (createSession ttl s sid csrfToken u ip).now = s.now := rfl
  intro sid' e he
  rw [hnow]
  rcases createSession_session httl he with ⟨rfl, rfl⟩ | ⟨-, he'⟩
  · exact ⟨_, _, _, hself, Finset.mem_insert_self sid' _, rfl, rfl, le_rfl, le_rfl⟩
  · obtain ⟨I, x, y, hI, hmem, hx, hy, hyx, hle⟩ := hc sid' e he'
    by_cases hu : e.value.userId = u
    · subst hu
      exact ⟨_, _, y, hself, Finset.mem_insert_of_mem (Keyspace.mem_smembers hI hmem), rfl, hy,
        hle, hle⟩
    · refine ⟨I, x, y, ?_, hmem, hx, hy, hyx, hle⟩
      rw [← hI]
      exact Keyspace.sadd_expireSet_set_of_ne _ sid hu

theorem covered_deleteSession (hc : Covered ttl s) (sid : S) (u : U) :
    Covered ttl (deleteSession s sid u) := by
  intro sid' e he
  obtain ⟨hne, he'⟩ := deleteSession_session he
  obtain ⟨I, x, y, hI, hmem, hx, hy, hyx, hle⟩ := hc sid' e he'
  by_cases hu : e.value.userId = u
  · subst hu
    exact ⟨_, x, y, Keyspace.srem_set_self _ sid hI hmem hne,
      Finset.mem_erase.mpr ⟨hne, hmem⟩, hx, hy, hyx, hle⟩
  · exact ⟨I, x, y, (Keyspace.srem_set_of_ne _ sid hu).trans hI, hmem, hx, hy, hyx, hle⟩

/-- The deletions of `delete_all_sessions` leave a session only if it was not listed. -/
theorem deleteAllSessions_session {u : U} {sessionIds : List S} {sid : S}
    {e : Entry T (SessionData T U)}
    (he : session (deleteAllSessions s u sessionIds) sid = some e) :
    session s sid = some e ∧ sid ∉ sessionIds := by
  suffices hgen : ∀ s : Keys T U S,
      session (sessionIds.foldl (fun s sid => (s.del (.session sid)).del (.csrf sid)) s) sid =
        some e → session s sid = some e ∧ sid ∉ sessionIds from hgen s he
  clear he
  induction sessionIds with
  | nil => exact fun s he => ⟨he, List.not_mem_nil⟩
  | cons sid' l ih =>
    intro s he
    obtain ⟨he', hnot⟩ := ih _ he
    rw [session, Keyspace.del_string_of_ne _ (by simp)] at he'
    have hne : sid ≠ sid' := by
      rintro rfl
      rw [Keyspace.del_string_self] at he'
      cases he'
    rw [Keyspace.del_string_of_ne _ (by simpa using hne)] at he'
    exact ⟨he', by simp [hne, hnot]⟩

theorem deleteAllSessions_now (u : U) (sessionIds : List S) :
    (deleteAllSessions s u sessionIds).now = s.now := by
  suffices hgen : ∀ s : Keys T U S,
      (sessionIds.foldl (fun s sid => (s.del (.session sid)).del (.csrf sid)) s).now = s.now from
    hgen s
  induction sessionIds with
  | nil => exact fun _ => rfl
  | cons sid l ih => exact fun s => ih _

theorem deleteAllSessions_set {u u' : U} (sessionIds : List S) (hu : u' ≠ u) :
    (deleteAllSessions s u sessionIds).set u' = s.set u' := by
  rw [deleteAllSessions_eq, Keyspace.delSet_set_of_ne _ hu]
  suffices hgen : ∀ s : Keys T U S,
      (sessionIds.foldl (fun s sid => (s.del (.session sid)).del (.csrf sid)) s).set = s.set from
    congrFun (hgen s) u'
  induction sessionIds with
  | nil => exact fun _ => rfl
  | cons sid l ih => exact fun s => ih _

/-- The live sessions of the user are among `sessionIds`. -/
def Lists (s : Keys T U S) (u : U) (sessionIds : List S) : Prop :=
  ∀ sid e, session s sid = some e → e.value.userId = u → sid ∈ sessionIds

/-- `SMEMBERS` lists every live session of a user whose sessions are all indexed. -/
theorem Covered.lists (hc : Covered ttl s) {u : U} {sessionIds : List S}
    (hl : s.ListsMembers u sessionIds) : Lists s u sessionIds := by
  rintro sid e he rfl
  obtain ⟨I, -, -, hI, hmem, -⟩ := hc sid e he
  exact hl.mem hI hmem

/-- `delete_all_sessions` leaves no session of the user when all of them are listed. -/
theorem deleteAllSessions_user {u : U} {sessionIds : List S} (hl : Lists s u sessionIds) {sid : S}
    {e : Entry T (SessionData T U)}
    (he : session (deleteAllSessions s u sessionIds) sid = some e) : e.value.userId ≠ u := by
  intro hu
  obtain ⟨he', hnot⟩ := deleteAllSessions_session he
  exact hnot (hl sid e he' hu)

theorem covered_deleteAllSessions (hc : Covered ttl s) {u : U} {sessionIds : List S}
    (hl : Lists s u sessionIds) : Covered ttl (deleteAllSessions s u sessionIds) := by
  intro sid e he
  have hu := deleteAllSessions_user hl he
  obtain ⟨I, x, y, hI, hrest⟩ := hc sid e (deleteAllSessions_session he).1
  refine ⟨I, x, y, (deleteAllSessions_set sessionIds hu).trans hI, ?_⟩
  rwa [deleteAllSessions_now]

theorem covered_advance (hc : Covered ttl s) {d : T} (hd : 0 ≤ d) : Covered ttl (s.advance d) := by
  intro sid e he
  obtain ⟨he', -⟩ := (s.advance_string_eq_some d).mp he
  obtain ⟨I, x, y, hI, hmem, hx, hy, hyx, hle⟩ := hc sid e he'
  refine ⟨I, x, y, (s.advance_set_eq_some d).mpr ⟨hI, ?_⟩, hmem, hx, hy, hyx, ?_⟩
  · rw [Entry.alive, hx]
    exact decide_eq_true ((Keyspace.now_le_expiry _ he hy).trans hyx)
  · exact hle.trans (add_le_add_left (le_add_of_nonneg_right hd) ttl)

/-- What `touch_session` does to the keys when it prolongs the session. -/
theorem touchSession_cases (ttl : T) (s : Keys T U S) (sid : S) (u : U) (absoluteExpiresAt : T) :
    touchSession ttl s sid u absoluteExpiresAt = (false, s) ∨
      0 < absoluteExpiresAt - s.now ∧ touchSession ttl s sid u absoluteExpiresAt =
        (true, ((s.expire (.session sid) (min ttl ⌈absoluteExpiresAt - s.now⌉)).expire (.csrf sid)
          (min ttl ⌈absoluteExpiresAt - s.now⌉)).expireSet u
            (min ttl ⌈absoluteExpiresAt - s.now⌉)) := by
  rw [touchSession_eq]
  cases s.get (.session sid) with
  | none => exact Or.inl rfl
  | some d =>
    by_cases h : absoluteExpiresAt - s.now ≤ 0
    · simp only [h, if_true, true_or]
    · simp only [h, if_false]
      exact Or.inr ⟨not_le.mp h, trivial⟩

/-- An authentication changes no session but the time it has left. -/
theorem authenticate_session (settings : Settings T) {sid sid' : S} {e : Entry T (SessionData T U)}
    (he : session (authenticate settings s sid).2 sid' = some e) :
    ∃ e', session s sid' = some e' ∧ e'.value = e.value := by
  rw [authenticate_eq] at he
  cases hd : s.get (.session sid) with
  | none =>
    rw [hd] at he
    exact ⟨e, he, rfl⟩
  | some d =>
    simp only [hd] at he
    rcases touchSession_cases settings.sessionTtl s sid d.userId
      (d.createdAt + settings.sessionAbsoluteTtl) with h | ⟨-, h⟩
    · rw [h] at he
      exact ⟨e, he, rfl⟩
    · rw [h, session, Keyspace.expireSet_string, Keyspace.expire_string_of_ne _ _ (by simp)] at he
      exact Keyspace.expire_string_value _ _ he

/-- Only a live session is accepted. -/
theorem authenticate_context {settings : Settings T} {sid sid' : S} {u : U}
    (h : (authenticate settings s sid).1 = .context u sid') : ∃ e, session s sid = some e := by
  rw [authenticate_eq] at h
  cases hd : session s sid with
  | none =>
    rw [Keyspace.get_of_none hd] at h
    cases h
  | some e => exact ⟨e, rfl⟩

/-- Prolonging a session keeps the index complete when no other session of the user outlives it. -/
theorem covered_touch (hc : Covered ttl s) {sid : S} {e : Entry T (SessionData T U)} {t : T}
    (he : session s sid = some e) (ht : 0 ≤ t) (hle : t ≤ ttl)
    (hother : ∀ sid' e' y, session s sid' = some e' → e'.value.userId = e.value.userId →
      sid' ≠ sid → e'.expiry = some y → y ≤ s.now + t) :
    Covered ttl (((s.expire (.session sid) t).expire (.csrf sid) t).expireSet e.value.userId t) := by
  obtain ⟨I, -, -, hI, hmem, -⟩ := hc sid e he
  generalize hs' : ((s.expire (.session sid) t).expire (.csrf sid) t).expireSet e.value.userId t = s'
  have hnow : s'.now = s.now := by rw [← hs']; rfl
  have hself : s'.set e.value.userId = some ⟨I.value, some (s.now + t)⟩ := by
    rw [← hs', Keyspace.expireSet_set_self _ ht, Keyspace.expire_set, Keyspace.expire_set, hI]
    rfl
  have hstr : ∀ sid', session s' sid' = session (s.expire (.session sid) t) sid' := fun sid' => by
    rw [← hs', session, Keyspace.expireSet_string]
    exact Keyspace.expire_string_of_ne _ _ (by simp)
  intro sid' e' he'
  rw [hstr] at he'
  rw [hnow]
  by_cases hsid : sid' = sid
  · subst hsid
    have hmap : session (s.expire (.session sid') t) sid' =
        some { e with expiry := some (s.now + t) } := by
      rw [session, Keyspace.expire_string_self _ ht]
      exact congrArg (Option.map _) he
    -- the session and the index of its user expire together
    obtain rfl := Option.some.inj (hmap.symm.trans he')
    exact ⟨_, _, _, hself, hmem, rfl, rfl, le_rfl, add_le_add_right hle _⟩
  · rw [session, Keyspace.expire_string_of_ne _ _ (by simpa using hsid)] at he'
    obtain ⟨I', x, y, hI', hmem', hx, hy, hyx, hyle⟩ := hc sid' e' he'
    by_cases hu : e'.value.userId = e.value.userId
    · rw [hu] at hI' ⊢
      -- another session of the user does not outlive the index
      obtain rfl := Option.some.inj (hI.symm.trans hI')
      exact ⟨_, _, y, hself, hmem', rfl, hy, hother sid' e' y he' hu hsid hy, hyle⟩
    · refine ⟨I', x, y, ?_, hmem', hx, hy, hyx, hyle⟩
      rw [← hI', ← hs', Keyspace.expireSet_set_of_ne _ _ hu]
      rfl

end Commands

/-! ### Runs -/

/-- The events of a run of `machine`. -/
abbrev Event (T U S : Type) [LE T] [DecidableLE T] : Type :=
  Machine.Event (Keys T U S) (Call T U S) (Reply U S)

/-- If the event authenticates a session, every other live session of its user expires no later
than the absolute expiry of that session, rounded up to whole seconds from now. -/
def TouchCovers (settings : Settings T) (e : Event T U S) : Prop :=
  ∀ sid d, e.call = .authenticate sid → session e.pre sid = some d →
    ∀ sid' d' y, session e.pre sid' = some d' → d'.value.userId = d.value.userId → sid' ≠ sid →
      d'.expiry = some y →
      y ≤ e.pre.now + ⌈d.value.createdAt + settings.sessionAbsoluteTtl - e.pre.now⌉

/-- Every live session is in the index of its user. -/
def Indexed (s : Keys T U S) : Prop :=
  ∀ sid d, session s sid = some d → ∃ I, s.set d.value.userId = some I ∧ sid ∈ I.value

variable {settings : Settings T} {s s' : Keys T U S} {c : Call T U S} {r : Reply U S}

theorem covered_authenticate (hc : Covered settings.sessionTtl s) (httl : 0 < settings.sessionTtl)
    {sid : S} {r : Reply U S} (hok : TouchCovers settings ⟨s, .authenticate sid, r⟩) :
    Covered settings.sessionTtl (authenticate settings s sid).2 := by
  rw [authenticate_eq]
  cases hd : session s sid with
  | none =>
    rw [Keyspace.get_of_none hd]
    exact hc
  | some d =>
    rw [Keyspace.get_of_some hd]
    rcases touchSession_cases settings.sessionTtl s sid d.value.userId
      (d.value.createdAt + settings.sessionAbsoluteTtl) with h | ⟨hpos, h⟩
    · simp only [h]
      exact hc
    · simp only [h]
      have hceil : (0 : T) ≤ ⌈d.value.createdAt + settings.sessionAbsoluteTtl - s.now⌉ :=
        Int.cast_nonneg (Int.ceil_nonneg hpos.le)
      refine covered_touch hc hd (le_min httl.le hceil) (min_le_left _ _)
        fun sid' d' y hs' hu hne hy => ?_
      obtain ⟨-, -, y', -, -, -, hy', -, hle⟩ := hc sid' d' hs'
      obtain rfl := Option.some.inj (hy.symm.trans hy')
      rw [← min_add_add_left]
      exact le_min hle (hok sid d rfl hd sid' d' y hs' hu hne hy)

/-- A step keeps the indexes complete, an authentication under `TouchCovers`. -/
theorem covered_step (hc : Covered settings.sessionTtl s)
    (h : (machine settings).step s c = some (r, s')) (hok : TouchCovers settings ⟨s, c, r⟩) :
    Covered settings.sessionTtl s' := by
  cases c with
  | create sid csrfToken u ip =>
    simp only [machine] at h
    split at h
    · rename_i httl
      obtain ⟨-, rfl⟩ := Prod.mk.inj (Option.some.inj h)
      exact covered_createSession hc sid csrfToken u ip httl.le
    · cases h
  | authenticate sid =>
    simp only [machine] at h
    split at h
    · rename_i httl
      obtain ⟨-, rfl⟩ := Prod.mk.inj (Option.some.inj h)
      exact covered_authenticate hc httl hok
    · cases h
  | delete sid u =>
    obtain ⟨-, rfl⟩ := Prod.mk.inj (Option.some.inj h)
    exact covered_deleteSession hc sid u
  | deleteAll u sessionIds =>
    simp only [machine] at h
    split at h
    · rename_i hl
      obtain ⟨-, rfl⟩ := Prod.mk.inj (Option.some.inj h)
      exact covered_deleteAllSessions hc (hc.lists hl)
    · cases h
  | tick d =>
    simp only [machine] at h
    split at h
    · rename_i hd
      obtain ⟨-, rfl⟩ := Prod.mk.inj (Option.some.inj h)
      exact covered_advance hc hd
    · cases h

/-- A session that is alive after a step was alive before, unless the step creates it. -/
theorem step_session (h : (machine settings).step s c = some (r, s')) {sid : S}
    {e : Entry T (SessionData T U)} (he : session s' sid = some e) :
    (∃ e', session s sid = some e') ∨ ∃ csrfToken u ip, c = .create sid csrfToken u ip := by
  cases c with
  | create sid' csrfToken u ip =>
    simp only [machine] at h
    split at h
    · rename_i httl
      obtain ⟨-, rfl⟩ := Prod.mk.inj (Option.some.inj h)
      rcases createSession_session httl.le he with ⟨rfl, -⟩ | ⟨-, he'⟩
      · exact Or.inr ⟨csrfToken, u, ip, rfl⟩
      · exact Or.inl ⟨e, he'⟩
    · cases h
  | authenticate sid' =>
    simp only [machine] at h
    split at h
    · obtain ⟨-, rfl⟩ := Prod.mk.inj (Option.some.inj h)
      obtain ⟨e', he', -⟩ := authenticate_session settings he
      exact Or.inl ⟨e', he'⟩
    · cases h
  | delete sid' u =>
    obtain ⟨-, rfl⟩ := Prod.mk.inj (Option.some.inj h)
    exact Or.inl ⟨e, (deleteSession_session he).2⟩
  | deleteAll u sessionIds =>
    simp only [machine] at h
    split at h
    · obtain ⟨-, rfl⟩ := Prod.mk.inj (Option.some.inj h)
      exact Or.inl ⟨e, (deleteAllSessions_session he).1⟩
    · cases h
  | tick d =>
    simp only [machine] at h
    split at h
    · obtain ⟨-, rfl⟩ := Prod.mk.inj (Option.some.inj h)
      exact Or.inl ⟨e, ((s.advance_string_eq_some d).mp he).1⟩
    · cases h

theorem covered_run {now : T} {l : List (Event T U S)} (h : (machine settings).Run (.empty now) l s)
    (hok : ∀ e ∈ l, TouchCovers settings e) : Covered settings.sessionTtl s := by
  revert hok
  refine h.induction (fun l s => (∀ e ∈ l, TouchCovers settings e) → Covered settings.sessionTtl s)
    (fun _ sid e he => by cases he) fun l s c r s' _ ih hs hok => ?_
  exact covered_step (ih fun e he => hok e (List.mem_append_left _ he)) hs
    (hok _ (List.mem_append_right _ List.mem_cons_self))

/-- **Index coverage.** In a run in which every authentication covers the other sessions of its
user, every live session is in a live index of its user, and after `delete_all_sessions` of a user
no session of the user is alive. -/
theorem session_index_covers {now : T} {l : List (Event T U S)}
    (h : (machine settings).Run (.empty now) l s) (hok : ∀ e ∈ l, TouchCovers settings e) :
    Indexed s ∧ ∀ u sessionIds r s',
      (machine settings).step s (.deleteAll u sessionIds) = some (r, s') →
        ∀ sid d, session s' sid = some d → d.value.userId ≠ u := by
  have hc := covered_run h hok
  refine ⟨fun sid d hd => ?_, fun u sessionIds r s' hs sid d hd => ?_⟩
  · obtain ⟨I, -, -, hI, hmem, -⟩ := hc sid d hd
    exact ⟨I, hI, hmem⟩
  · simp only [machine] at hs
    split at hs
    · rename_i hl
      obtain ⟨-, rfl⟩ := Prod.mk.inj (Option.some.inj hs)
      exact deleteAllSessions_user (hc.lists hl) hd
    · cases hs

/-- The session 1 is authenticated one second before its absolute expiry, right after the session 2
of the same user was created; two seconds later the index is gone. -/
def shortenedRun : List (Event ℤ ℕ ℕ) × Keys ℤ ℕ ℕ :=
  (machine ⟨10, 15⟩).runOf (.empty 0)
    [.create 1 "a" 7 none, .tick 8, .authenticate 1, .tick 6, .create 2 "b" 7 none,
      .authenticate 1, .tick 2] (by decide)

/-- Without the condition a live session can be outside the index of its user. -/
theorem session_index_uncovered : ¬∀ (l : List (Event ℤ ℕ ℕ)) (s : Keys ℤ ℕ ℕ),
    (machine ⟨10, 15⟩).Run (.empty 0) l s → Indexed s := by
  intro hall
  obtain ⟨I, hI, -⟩ := hall _ _ (Machine.run_runOf _ _ _ _ :
    (machine ⟨10, 15⟩).Run (.empty 0) shortenedRun.1 shortenedRun.2) 2 ⟨⟨7, 14, none⟩, some 24⟩ rfl
  cases hI

/-- Two sessions of a user, the first one authenticated after four seconds. -/
def coveredRun : List (Event ℤ ℕ Bool) × Keys ℤ ℕ Bool :=
  (machine ⟨10, 15⟩).runOf (.empty 0)
    [.create true "a" 7 none, .create false "b" 7 none, .tick 4, .authenticate true] (by decide)

theorem session_index_covers_coveredRun : Indexed coveredRun.2 ∧
    (session coveredRun.2 true).isSome ∧ (session coveredRun.2 false).isSome := by
  have hrun : (machine ⟨10, 15⟩).Run (.empty 0) coveredRun.1 coveredRun.2 :=
    Machine.run_runOf _ _ _ _
  refine ⟨(session_index_covers hrun fun e he => ?_).1, rfl, rfl⟩
  have hcases : e = coveredRun.1.get ⟨0, by decide⟩ ∨ e = coveredRun.1.get ⟨1, by decide⟩ ∨
      e = coveredRun.1.get ⟨2, by decide⟩ ∨ e = coveredRun.1.get ⟨3, by decide⟩ := by
    rw [show coveredRun.1 = [coveredRun.1.get ⟨0, by decide⟩, coveredRun.1.get ⟨1, by decide⟩,
      coveredRun.1.get ⟨2, by decide⟩, coveredRun.1.get ⟨3, by decide⟩] from rfl] at he
    simpa using he
  intro sid d hc hd sid' d' y hd' hu hne hy
  rcases hcases with rfl | rfl | rfl | rfl
  · cases hc
  · cases hc
  · cases hc
  · -- the other session expires at time 10, the authenticated one at 15
    obtain rfl : true = sid := Call.authenticate.inj hc
    obtain rfl : sid' = false := Bool.eq_false_iff.mpr hne
    obtain rfl := Option.some.inj (show some _ = some d from hd)
    obtain rfl := Option.some.inj (show some _ = some d' from hd')
    obtain rfl := Option.some.inj hy
    decide

end Session

import TaskManagement.Machine

/-!
# Requests between stores that fail

A request is a program that calls stores outside of it: a `Machine` that other requests call as
well, and a database behind a unit of work.  Around each of its calls the others make theirs
(`Environment.others`), and instead of taking effect the call may raise (`Environment.fault`).  `K`
names the calls of a request.

* `Journal` is a machine with its events so far, and `Journal.Reaches` what others have made of it;
* `UnitOfWork` is the session of an object-relational mapper;
* `Ends p w ok err` says what a request leaves when it returns and when it raises, with one rule for
  each way to build a request.
-/

namespace Requests

/-! ### Programs -/

/-- A program that acts on a world `W`; what it has done when it raises stays done. -/
abbrev Request (W X α : Type) : Type := ExceptT X (StateM W) α

section

variable {W X α β : Type}

/-- The result of a request and the world that it leaves. -/
def exec (p : Request W X α) (w : W) : Except X α × W := StateT.run (ExceptT.run p) w

/-- The result of a computation without calls. -/
def fromExcept : Except X α → Request W X α
  | .ok a => pure a
  | .error x => throw x

/-- `try: p finally: f` -/
def ensuring (p : Request W X α) (f : W → W) : Request W X α :=
  ExceptT.mk fun w => ((exec p w).1, f (exec p w).2)

variable {p : Request W X α} {w w' : W}

theorem exec_ensuring (p : Request W X α) (f : W → W) (w : W) :
    exec (ensuring p f) w = ((exec p w).1, f (exec p w).2) := rfl

@[simp] theorem exec_pure (a : α) (w : W) : exec (pure a : Request W X α) w = (.ok a, w) := rfl

@[simp] theorem exec_throw (x : X) (w : W) :
    exec (throw x : Request W X α) w = (.error x, w) := rfl

theorem exec_bind_of_ok (f : α → Request W X β) {a : α} (h : exec p w = (.ok a, w')) :
    exec (p >>= f) w = exec (f a) w' := by
  rw [exec] at h ⊢
  rw [ExceptT.run_bind, StateT.run_bind, h]
  rfl

theorem exec_bind_of_error (f : α → Request W X β) {x : X} (h : exec p w = (.error x, w')) :
    exec (p >>= f) w = (.error x, w') := by
  rw [exec] at h ⊢
  rw [ExceptT.run_bind, StateT.run_bind, h]
  rfl

theorem exec_fromExcept_ok (f : α → Request W X β) (a : α) (w : W) :
    exec (fromExcept (.ok a) >>= f) w = exec (f a) w := exec_bind_of_ok f rfl

theorem exec_fromExcept_error (f : α → Request W X β) (x : X) (w : W) :
    exec (fromExcept (.error x) >>= f) w = (.error x, w) := exec_bind_of_error f rfl

theorem exec_tryCatch_of_ok (f : X → Request W X α) {a : α} (h : exec p w = (.ok a, w')) :
    exec (tryCatch p f) w = (.ok a, w') := by
  change StateT.run (ExceptT.tryCatch p f).run w = _
  change StateT.run p w = _ at h
  rw [ExceptT.tryCatch, ExceptT.run_mk, StateT.run_bind, h]
  rfl

theorem exec_tryCatch_of_error (f : X → Request W X α) {x : X} (h : exec p w = (.error x, w')) :
    exec (tryCatch p f) w = exec (f x) w' := by
  change StateT.run (ExceptT.tryCatch p f).run w = _
  change StateT.run p w = _ at h
  rw [ExceptT.tryCatch, ExceptT.run_mk, StateT.run_bind, h]
  rfl

/-! ### What a request leaves -/

/-- From `w` the request `p` returns with `ok` or raises with `err`. -/
def Ends (p : Request W X α) (w : W) (ok : α → W → Prop) (err : X → W → Prop) : Prop :=
  (∀ a w', exec p w = (.ok a, w') → ok a w') ∧ ∀ x w', exec p w = (.error x, w') → err x w'

variable {ok mid : α → W → Prop} {err thrown : X → W → Prop}

/-- A request ends in one of the two ways. -/
theorem Ends.cases (h : Ends p w ok err) :
    (∃ a w', exec p w = (.ok a, w') ∧ ok a w') ∨
      ∃ x w', exec p w = (.error x, w') ∧ err x w' := by
  rcases hr : exec p w with ⟨x | a, w'⟩
  · exact Or.inr ⟨x, w', rfl, h.2 x w' hr⟩
  · exact Or.inl ⟨a, w', rfl, h.1 a w' hr⟩

theorem Ends.pure {a : α} (h : ok a w) : Ends (pure a) w ok err := by
  refine ⟨fun a' w' hr => ?_, fun x w' hr => ?_⟩ <;> cases hr
  exact h

theorem Ends.throw {x : X} (h : err x w) : Ends (throw x) w ok err := by
  refine ⟨fun a' w' hr => ?_, fun x w' hr => ?_⟩ <;> cases hr
  exact h

theorem Ends.bind {f : α → Request W X β} {ok : β → W → Prop} (mid : α → W → Prop)
    (hp : Ends p w mid err) (hf : ∀ a w', mid a w' → Ends (f a) w' ok err) :
    Ends (p >>= f) w ok err := by
  rcases hp.cases with ⟨a, w₁, hr, ha⟩ | ⟨x, w₁, hr, hx⟩
  · rw [Ends, exec_bind_of_ok f hr]
    exact hf a w₁ ha
  · rw [Ends, exec_bind_of_error f hr]
    refine ⟨fun a' w' h => ?_, fun x w' h => ?_⟩ <;> cases h
    exact hx

theorem Ends.tryCatch {f : X → Request W X α} (thrown : X → W → Prop)
    (hp : Ends p w ok thrown) (hf : ∀ x w', thrown x w' → Ends (f x) w' ok err) :
    Ends (tryCatch p f) w ok err := by
  rcases hp.cases with ⟨a, w₁, hr, ha⟩ | ⟨x, w₁, hr, hx⟩
  · rw [Ends, exec_tryCatch_of_ok f hr]
    refine ⟨fun a' w' h => ?_, fun x w' h => ?_⟩ <;> cases h
    exact ha
  · rw [Ends, exec_tryCatch_of_error f hr]
    exact hf x w₁ hx

theorem Ends.mono (h : Ends p w mid thrown) (hok : ∀ a w', mid a w' → ok a w')
    (herr : ∀ x w', thrown x w' → err x w') : Ends p w ok err :=
  ⟨fun a w' hr => hok a w' (h.1 a w' hr), fun x w' hr => herr x w' (h.2 x w' hr)⟩

end

/-! ### Stores -/

/-- The state of a machine and its events so far. -/
structure Journal (S C R : Type) where
  state : S
  events : List (Machine.Event S C R)

namespace Journal

variable {S C R : Type} (M : Machine S C R) (mine : C → Bool)

/-- Make a call, if it can be made. -/
def make (j : Journal S C R) (c : C) : Option R × Journal S C R :=
  match M.step j.state c with
  | some (r, s) => (some r, ⟨s, j.events ++ [⟨j.state, c, r⟩]⟩)
  | none => (none, j)

/-- Someone else makes a call; calls that are mine are not theirs to make. -/
def other (j : Journal S C R) (c : C) : Journal S C R := if mine c then j else (j.make M c).2

/-- Others make the calls `cs`. -/
def others (j : Journal S C R) (cs : List C) : Journal S C R := cs.foldl (other M mine) j

/-- `j'` is what others have made of `j`. -/
def Reaches (j j' : Journal S C R) : Prop := ∃ cs, j' = j.others M mine cs

variable {M} {mine} {j j' j'' : Journal S C R} {s₀ : S}

theorem make_of_some {c : C} {r : R} {s : S} (h : M.step j.state c = some (r, s)) :
    j.make M c = (some r, ⟨s, j.events ++ [⟨j.state, c, r⟩]⟩) := by
  rw [make, h]

theorem make_of_none {c : C} (h : M.step j.state c = none) : j.make M c = (none, j) := by
  rw [make, h]

theorem make_eq_some {c : C} {r : R} (h : (j.make M c).1 = some r) :
    ∃ s, M.step j.state c = some (r, s) := by
  cases hs : M.step j.state c with
  | none => rw [make_of_none hs] at h; cases h
  | some x =>
    rw [make_of_some hs] at h
    exact ⟨x.2, by rw [← Option.some.inj h]⟩

theorem Reaches.refl (j : Journal S C R) : Reaches M mine j j := ⟨[], rfl⟩

theorem Reaches.trans (h : Reaches M mine j j') (h' : Reaches M mine j' j'') :
    Reaches M mine j j'' := by
  obtain ⟨cs, rfl⟩ := h
  obtain ⟨cs', rfl⟩ := h'
  exact ⟨cs ++ cs', by rw [others, others, others, List.foldl_append]⟩

theorem reaches_others (j : Journal S C R) (cs : List C) : Reaches M mine j (j.others M mine cs) :=
  ⟨cs, rfl⟩

/-- What the calls of others preserve. -/
theorem Reaches.induction (I : Journal S C R → Prop) (h : Reaches M mine j j') (h₀ : I j)
    (hstep : ∀ j c r s, I j → mine c = false → M.step j.state c = some (r, s) →
      I ⟨s, j.events ++ [⟨j.state, c, r⟩]⟩) : I j' := by
  obtain ⟨cs, rfl⟩ := h
  induction cs generalizing j with
  | nil => exact h₀
  | cons c cs ih =>
    refine ih ?_
    rw [other]
    split
    · exact h₀
    · rename_i hc
      cases hs : M.step j.state c with
      | none => rwa [make_of_none hs]
      | some x =>
        rw [make_of_some hs]
        exact hstep j c x.1 x.2 h₀ ((Bool.not_eq_true _).mp hc) hs

theorem Reaches.run (h : Reaches M mine j j') (hj : M.Run s₀ j.events j.state) :
    M.Run s₀ j'.events j'.state :=
  h.induction (fun j => M.Run s₀ j.events j.state) hj fun _ _ _ _ hr _ hs => .snoc hr hs

theorem start_run (s₀ : S) (history : List C) :
    M.Run s₀ (Journal.others M mine ⟨s₀, []⟩ history).events
      (Journal.others M mine ⟨s₀, []⟩ history).state :=
  Reaches.run (reaches_others _ history) .nil

end Journal

/-- The session of a request with the database: what is committed, the statements of the open
transaction, and whether the loaded objects are expired. -/
structure UnitOfWork (D : Type) where
  committed : D
  pending : List (D → D)
  expired : Bool

namespace UnitOfWork

variable {D : Type} (u : UnitOfWork D)

/-- A new session. -/
def opened (d : D) : UnitOfWork D := ⟨d, [], false⟩

def execute (f : D → D) : UnitOfWork D := { u with pending := u.pending ++ [f] }

/-- The loaded objects stay readable (`expire_on_commit=False`). -/
def commit : UnitOfWork D :=
  { u with committed := u.pending.foldl (fun d f => f d) u.committed, pending := [] }

def discard : UnitOfWork D := { u with pending := [] }

/-- A rollback expires the loaded objects. -/
def expire : UnitOfWork D := { u with expired := true }

end UnitOfWork

/-! ### Calls -/

/-- The stores, and the calls of the request that have failed. -/
structure World (S C R D K : Type) where
  redis : Journal S C R
  db : UnitOfWork D
  failures : List K

/-- What happens around the calls of a request. -/
structure Environment (S C R K X : Type) where
  machine : Machine S C R
  /-- The calls that no other request makes. -/
  mine : C → Bool
  /-- What others do before the call takes effect or fails. -/
  others : K → List C
  /-- What the call raises, if it fails; it then has no effect. -/
  fault : K → Option X

/-- The stores before a request: others have made the calls `history`. -/
def World.start {S C R D K : Type} (M : Machine S C R) (mine : C → Bool) (s₀ : S)
    (history : List C) (d : D) : World S C R D K where
  redis := Journal.others M mine ⟨s₀, []⟩ history
  db := .opened d
  failures := []

namespace Environment

variable {S C R D K X α : Type} (env : Environment S C R K X)

/-- The others make their calls. -/
def before (k : K) (w : World S C R D K) : World S C R D K :=
  { w with redis := w.redis.others env.machine env.mine (env.others k) }

/-- A call with the given effect. -/
def call (k : K) (effect : World S C R D K → α × World S C R D K) :
    Request (World S C R D K) X α :=
  ExceptT.mk fun w =>
    let w := env.before k w
    match env.fault k with
    | some x => (.error x, { w with failures := w.failures ++ [k] })
    | none => (.ok (effect w).1, (effect w).2)

/-- A call of the machine, answered with its reply if it could be made. -/
def ask (k : K) (c : C) : Request (World S C R D K) X (Option R) :=
  env.call k fun w => ((w.redis.make env.machine c).1,
    { w with redis := (w.redis.make env.machine c).2 })

/-- A call that acts on the session with the database. -/
def onSession (k : K) (f : UnitOfWork D → UnitOfWork D) : Request (World S C R D K) X Unit :=
  env.call k fun w => ((), { w with db := f w.db })

def execute (k : K) (f : D → D) : Request (World S C R D K) X Unit :=
  env.onSession k fun u => u.execute f

def commit (k : K) : Request (World S C R D K) X Unit := env.onSession k UnitOfWork.commit

/-- The loaded objects are expired, also when the rollback fails. -/
def rollback (k : K) : Request (World S C R D K) X Unit := do
  modify fun w => { w with db := w.db.expire }
  env.onSession k UnitOfWork.discard

/-- Read an attribute of a loaded object; for an expired one that raises `x`. -/
def readLoaded (x : X) (a : α) : Request (World S C R D K) X α := do
  let w ← get
  if w.db.expired then throw x else return a

/-- The call `c` of the machine would be answered with `r`. -/
def Answers (k : K) (c : C) (r : R) (w : World S C R D K) : Prop :=
  env.fault k = none ∧ ((env.before k w).redis.make env.machine c).1 = some r

/-- The session is closed when the request ends, which discards what was not committed. -/
def withSession (p : Request (World S C R D K) X α) : Request (World S C R D K) X α :=
  ExceptT.mk fun w => ((exec p w).1, { (exec p w).2 with db := (exec p w).2.db.discard })

variable {env} {k : K} {w : World S C R D K} {ok : α → World S C R D K → Prop}
variable {err : X → World S C R D K → Prop}

theorem ends_call {effect : World S C R D K → α × World S C R D K}
    (hok : env.fault k = none → ok (effect (env.before k w)).1 (effect (env.before k w)).2)
    (herr : ∀ x, env.fault k = some x →
      err x { env.before k w with failures := w.failures ++ [k] }) :
    Ends (env.call k effect) w ok err := by
  cases hf : env.fault k with
  | none =>
    have hr : exec (env.call k effect) w =
        (.ok (effect (env.before k w)).1, (effect (env.before k w)).2) := by
      simp only [exec, call, ExceptT.run_mk, StateT.run, hf]
    rw [Ends, hr]
    refine ⟨fun a w' h => ?_, fun x w' h => ?_⟩ <;> cases h
    exact hok hf
  | some x =>
    have hr : exec (env.call k effect) w =
        (.error x, { env.before k w with failures := w.failures ++ [k] }) := by
      simp only [exec, call, ExceptT.run_mk, StateT.run, hf]
      rfl
    rw [Ends, hr]
    refine ⟨fun a w' h => ?_, fun x w' h => ?_⟩ <;> cases h
    exact herr x hf

/-- The world after the call `c` of the machine. -/
def after (env : Environment S C R K X) (k : K) (c : C) (w : World S C R D K) : World S C R D K :=
  { env.before k w with redis := ((env.before k w).redis.make env.machine c).2 }

theorem ends_ask {c : C} {ok : Option R → World S C R D K → Prop}
    (hok : env.fault k = none → ok ((env.before k w).redis.make env.machine c).1 (env.after k c w))
    (herr : ∀ x, env.fault k = some x →
      err x { env.before k w with failures := w.failures ++ [k] }) :
    Ends (env.ask k c) w ok err := ends_call hok herr

theorem exec_ask {c : C} {r : R} (h : env.Answers k c r w) :
    exec (env.ask k c) w = (.ok (some r), env.after k c w) := by
  have hr : exec (env.ask k c) w = (.ok ((env.before k w).redis.make env.machine c).1,
      { env.before k w with redis := ((env.before k w).redis.make env.machine c).2 }) := by
    simp only [exec, ask, call, ExceptT.run_mk, StateT.run, h.1]
  rw [hr, h.2]
  rfl

theorem Answers.step {c : C} {r : R} (h : env.Answers k c r w) :
    ∃ s, env.machine.step (env.before k w).redis.state c = some (r, s) ∧
      (env.after k c w).redis =
        ⟨s, (env.before k w).redis.events ++ [⟨(env.before k w).redis.state, c, r⟩]⟩ := by
  obtain ⟨s, hs⟩ := Journal.make_eq_some h.2
  exact ⟨s, hs, by rw [after, Journal.make_of_some hs]⟩

theorem exec_withSession (p : Request (World S C R D K) X α) (w : World S C R D K) :
    exec (withSession p) w =
      ((exec p w).1, { (exec p w).2 with db := (exec p w).2.db.discard }) := rfl

theorem exec_readLoaded (x : X) (a : α) (h : w.db.expired = false) :
    exec (readLoaded x a) w = (.ok a, w) := by
  have hget : exec (get : Request (World S C R D K) X (World S C R D K)) w = (.ok w, w) := rfl
  rw [readLoaded, exec_bind_of_ok _ hget, if_neg (by simp [h])]
  rfl

theorem exec_readLoaded_of_expired (x : X) (a : α) (h : w.db.expired = true) :
    exec (readLoaded x a) w = (.error x, w) := by
  have hget : exec (get : Request (World S C R D K) X (World S C R D K)) w = (.ok w, w) := rfl
  rw [readLoaded, exec_bind_of_ok _ hget, if_pos h]
  rfl

theorem ends_onSession {f : UnitOfWork D → UnitOfWork D} {ok : Unit → World S C R D K → Prop}
    (hok : env.fault k = none → ok () { env.before k w with db := f w.db })
    (herr : ∀ x, env.fault k = some x →
      err x { env.before k w with failures := w.failures ++ [k] }) :
    Ends (env.onSession k f) w ok err := ends_call hok herr

theorem ends_rollback {ok : Unit → World S C R D K → Prop}
    (hok : env.fault k = none → ok () { env.before k w with db := w.db.expire.discard })
    (herr : ∀ x, env.fault k = some x →
      err x { env.before k w with db := w.db.expire, failures := w.failures ++ [k] }) :
    Ends (env.rollback k) w ok err := by
  have hmod : exec (modify fun w : World S C R D K => { w with db := w.db.expire } :
      Request (World S C R D K) X Unit) w = (.ok (), { w with db := w.db.expire }) := rfl
  rw [rollback, Ends, exec_bind_of_ok _ hmod]
  exact ends_onSession hok herr

/-- `j'` is what others have made of `j` around calls of the request. -/
def Passes (env : Environment S C R K X) (j j' : Journal S C R) : Prop :=
  ∃ ks : List K, j' = ks.foldl (fun j k => j.others env.machine env.mine (env.others k)) j

variable (env) in
theorem before_passes (k : K) (w : World S C R D K) :
    env.Passes w.redis (env.before k w).redis := ⟨[k], rfl⟩

section Passes

variable {j j' j'' : Journal S C R}

theorem Passes.refl (j : Journal S C R) : env.Passes j j := ⟨[], rfl⟩

theorem Passes.trans (h : env.Passes j j') (h' : env.Passes j' j'') : env.Passes j j'' := by
  obtain ⟨ks, rfl⟩ := h
  obtain ⟨ks', rfl⟩ := h'
  exact ⟨ks ++ ks', by rw [List.foldl_append]⟩

theorem Passes.reaches (h : env.Passes j j') : Journal.Reaches env.machine env.mine j j' := by
  obtain ⟨ks, rfl⟩ := h
  induction ks generalizing j with
  | nil => exact Journal.Reaches.refl j
  | cons k ks ih => exact (Journal.reaches_others j (env.others k)).trans ih

/-- While the others do nothing, the store stays as it is. -/
theorem Passes.eq_of_quiet (h : env.Passes j j') (hq : ∀ k, env.others k = []) : j' = j := by
  obtain ⟨ks, rfl⟩ := h
  induction ks generalizing j with
  | nil => rfl
  | cons k ks ih =>
    rw [List.foldl_cons, hq k]
    exact ih

end Passes

variable (env) in
theorem before_reaches (k : K) (w : World S C R D K) :
    Journal.Reaches env.machine env.mine w.redis (env.before k w).redis :=
  Journal.reaches_others w.redis (env.others k)

@[simp] theorem before_db (k : K) (w : World S C R D K) : (env.before k w).db = w.db := rfl

@[simp] theorem before_failures (k : K) (w : World S C R D K) :
    (env.before k w).failures = w.failures := rfl

end Environment

end Requests

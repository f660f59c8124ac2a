import Mathlib.Data.Int.Notation
import Mathlib.Tactic.Common

/-!
# References and origins

What the basic URL parser of the WHATWG makes of a reference that is resolved against a URL with a
special scheme: the parser strips C0 controls and spaces at both ends, deletes tabs and newlines
everywhere, and reads a backslash as a slash (`resolve`).  Only the origin of the result is kept:
the states for paths, queries and fragments neither fail nor change it.  The host parser is a
parameter.

A reference that begins with a slash keeps the origin of every base exactly when it does not begin
with two slashes once the tabs and newlines are deleted (`staysOn_iff`).
-/

namespace WebUrl

/-! ### The input of the parser -/

/-- A C0 control or a space. -/
def isC0OrSpace (c : Char) : Bool := decide (c.toNat ≤ 32)

def isTabOrNewline (c : Char) : Bool := c == '\t' || c == '\n' || c == '\r'

/-- A slash, or the backslash that a special URL has in its place. -/
def isSlash (c : Char) : Bool := c == '/' || c == '\\'

/-- The input without C0 controls and spaces at its end. -/
def stripEnd : List Char → List Char
  | [] => []
  | c :: cs =>
    match stripEnd cs with
    | [] => if isC0OrSpace c then [] else [c]
    | d :: ds => c :: d :: ds

def deleteTabs (input : List Char) : List Char := input.filter fun c => !isTabOrNewline c

/-- What the states of the parser see. -/
def clean (input : List Char) : List Char :=
  deleteTabs (stripEnd (input.dropWhile isC0OrSpace))

/-! ### Schemes -/

/-- The special schemes with an origin of their own. -/
inductive Scheme : Type where
  | http
  | https
  | ws
  | wss
  | ftp
deriving DecidableEq, Repr

def Scheme.ofName : String → Option Scheme
  | "http" => some .http
  | "https" => some .https
  | "ws" => some .ws
  | "wss" => some .wss
  | "ftp" => some .ftp
  | _ => none

def Scheme.defaultPort : Scheme → ℕ
  | .http => 80
  | .https => 443
  | .ws => 80
  | .wss => 443
  | .ftp => 21

structure Origin where
  scheme : Scheme
  host : String
  port : Option ℕ
deriving DecidableEq, Repr

/-- Of the rest of a scheme, the name and what follows the colon. -/
def scanScheme : List Char → Option (List Char × List Char)
  | [] => none
  | c :: cs =>
    if c = ':' then some ([], cs)
    else if c.isAlphanum || c == '+' || c == '-' || c == '.' then
      (scanScheme cs).map fun r => (c.toLower :: r.1, r.2)
    else none

/-- The scheme of an absolute URL and what follows the colon. -/
def schemeOf : List Char → Option (String × List Char)
  | [] => none
  | c :: cs =>
    if c.isAlpha then (scanScheme cs).map fun r => (String.ofList (c.toLower :: r.1), r.2) else none

/-! ### The authority -/

/-- The text before the first path, query or fragment. -/
def authorityText (input : List Char) : List Char :=
  input.takeWhile fun c => !(isSlash c || c == '?' || c == '#')

/-- What follows the last `@`. -/
def afterCredentials : List Char → List Char
  | [] => []
  | c :: cs =>
    if cs.contains '@' then afterCredentials cs else if c = '@' then cs else c :: cs

/-- The host, and the port if there is a colon outside of brackets. -/
def splitPort (insideBrackets : Bool) : List Char → List Char × Option (List Char)
  | [] => ([], none)
  | c :: cs =>
    if c = ':' ∧ insideBrackets = false then ([], some cs)
    else
      let r := splitPort (if c = '[' then true else if c = ']' then false else insideBrackets) cs
      (c :: r.1, r.2)

/-- The number that digits stand for. -/
def number (digits : List Char) : ℕ :=
  digits.foldl (fun n c => 10 * n + (c.toNat - '0'.toNat)) 0

/-- The port state: a default port is dropped; `none` is a failure. -/
def parsePort (scheme : Scheme) : Option (List Char) → Option (Option ℕ)
  | none => some none
  | some digits =>
    if digits = [] then some none
    else if digits.all Char.isDigit && decide (number digits ≤ 65535) then
      some (if number digits = scheme.defaultPort then none else some (number digits))
    else none

variable (parseHost : List Char → Option String)

/-- The authority state and the states after it; a host must not be empty. -/
def authority (scheme : Scheme) (input : List Char) : Option Origin :=
  let r := splitPort false (afterCredentials (authorityText input))
  if r.1 = [] then none
  else do
    let host ← parseHost r.1
    let port ← parsePort scheme r.2
    return { scheme := scheme, host := host, port := port }

/-! ### Resolution -/

/-- The input begins with two slashes. -/
def isNetworkPath : List Char → Bool
  | c :: d :: _ => isSlash c && isSlash d
  | _ => false

/-- The relative state and the relative slash state. -/
def relative (base : Origin) (input : List Char) : Option Origin :=
  if isNetworkPath input then authority parseHost base.scheme (input.dropWhile isSlash)
  else some base

/-- The origin of the URL that a reference resolves to; `none` is a failure or an opaque origin, and
the URL of a blob counts as one. -/
def resolve (base : Origin) (reference : List Char) : Option Origin :=
  match schemeOf (clean reference) with
  | none => relative parseHost base (clean reference)
  | some (name, rest) =>
    match Scheme.ofName name with
    | none => none
    | some scheme =>
      if scheme = base.scheme ∧ rest.take 2 ≠ ['/', '/'] then relative parseHost base rest
      else authority parseHost scheme (rest.dropWhile isSlash)

/-- Resolved against any base with the scheme, the reference stays on the origin of the base. -/
def StaysOn (scheme : Scheme) (reference : List Char) : Prop :=
  ∀ base : Origin, base.scheme = scheme → resolve parseHost base reference = some base

/-! ### References that begin with a slash -/

variable {parseHost : List Char → Option String} {s : List Char}

theorem stripEnd_cons {c : Char} (h : isC0OrSpace c = false) :
    stripEnd (c :: s) = c :: stripEnd s := by
  rw [stripEnd]
  cases stripEnd s with
  | nil => simp [h]
  | cons d ds => rfl

/-- A control or a space is no slash. -/
theorem isSlash_of_isC0OrSpace {c : Char} (h : isC0OrSpace c = true) : isSlash c = false := by
  rw [isSlash, Bool.or_eq_false_iff, beq_eq_false_iff_ne, beq_eq_false_iff_ne]
  constructor
  · rintro rfl
    cases h
  · rintro rfl
    cases h

/-- What is stripped at the end does not hide or uncover a slash. -/
theorem find?_stripEnd (p : Char → Bool) (s : List Char) :
    ((stripEnd s).find? p).any isSlash = (s.find? p).any isSlash := by
  induction s with
  | nil => rfl
  | cons c cs ih =>
    by_cases hstrip : stripEnd (c :: cs) = c :: stripEnd cs
    · rw [hstrip]
      by_cases hp : p c = true
      · rw [List.find?_cons_of_pos hp, List.find?_cons_of_pos hp]
      · rw [List.find?_cons_of_neg hp, List.find?_cons_of_neg hp]
        exact ih
    · -- everything is stripped, also `c`
      have hc : isC0OrSpace c = true := by
        by_contra h
        exact hstrip (stripEnd_cons (Bool.not_eq_true _ ▸ h))
      have hs : stripEnd cs = [] := by
        by_contra h
        obtain ⟨d, ds, hd⟩ := List.exists_cons_of_ne_nil h
        exact hstrip (by rw [stripEnd, hd])
      rw [stripEnd, hs, if_pos hc]
      rw [hs] at ih
      by_cases hp : p c = true
      · rw [List.find?_cons_of_pos hp]
        exact (isSlash_of_isC0OrSpace hc).symm
      · rw [List.find?_cons_of_neg hp]
        exact ih

/-- The slash at the head stays. -/
theorem clean_slash (s : List Char) : clean ('/' :: s) = '/' :: deleteTabs (stripEnd s) := by
  rw [clean, List.dropWhile_cons_of_neg Bool.false_ne_true, stripEnd_cons rfl, deleteTabs,
    List.filter_cons_of_pos rfl]
  rfl

theorem isNetworkPath_slash (s : List Char) :
    isNetworkPath ('/' :: s) = s.head?.any isSlash := by
  cases s with
  | nil => rfl
  | cons c cs => exact Bool.true_and _

/-- The spaces at the end do not matter for the first two characters. -/
theorem isNetworkPath_clean (s : List Char) :
    isNetworkPath (clean ('/' :: s)) = isNetworkPath (deleteTabs ('/' :: s)) := by
  have hdelete : deleteTabs ('/' :: s) = '/' :: deleteTabs s := List.filter_cons_of_pos rfl
  rw [clean_slash, hdelete, isNetworkPath_slash, isNetworkPath_slash, deleteTabs, deleteTabs,
    List.head?_filter, List.head?_filter]
  exact find?_stripEnd _ s

theorem resolve_slash (base : Origin) (s : List Char) :
    resolve parseHost base ('/' :: s) = relative parseHost base (clean ('/' :: s)) := by
  rw [resolve, show schemeOf (clean ('/' :: s)) = none by rw [clean_slash]; rfl]

/-- A reference that begins with a slash stays on the origin of every base exactly when it does not
begin with two slashes after the deletion of tabs and newlines. -/
theorem staysOn_iff {scheme : Scheme} {reference : List Char} (h : reference.head? = some '/') :
    StaysOn parseHost scheme reference ↔ isNetworkPath (deleteTabs reference) = false := by
  obtain ⟨s, rfl⟩ : ∃ s, reference = '/' :: s := by
    cases reference with
    | nil => cases h
    | cons c s =>
      obtain rfl := Option.some.inj h
      exact ⟨s, rfl⟩
  rw [← isNetworkPath_clean]
  constructor
  · -- the authority of the reference is one origin, and there are two bases
    intro hstays
    by_contra hnet
    have hleaves : ∀ host, authority parseHost scheme ((clean ('/' :: s)).dropWhile isSlash) =
        some ⟨scheme, host, none⟩ := by
      intro host
      have hbase := hstays ⟨scheme, host, none⟩ rfl
      rwa [resolve_slash, relative, if_pos (Bool.not_eq_false _ ▸ hnet)] at hbase
    have heq := (hleaves "a").symm.trans (hleaves "b")
    have hhost : "a" = "b" := congrArg Origin.host (Option.some.inj heq)
    exact absurd hhost (by decide)
  · intro hnet base _
    rw [resolve_slash, relative, hnet, if_neg Bool.false_ne_true]

end WebUrl

import TaskManagement.IpAddress
import Mathlib.Data.List.TakeDrop

/-!
# `urllib.parse`

`urlsplit` of Python as the partial function that it is, with the NFKC normalisation of Unicode as a
parameter: it returns exactly when the authority of the URL is valid (`urlsplit_returns_iff`).
-/

namespace Urllib

/-! ### `urlsplit` -/

inductive ValueError : Type where
  /-- Invalid IPv6 URL -/
  | invalidIPv6Url
  /-- IPvFuture address is invalid -/
  | invalidIPvFuture
  /-- An IPv4 address cannot be in brackets, or the text is no address. -/
  | invalidAddress
  /-- netloc ... contains invalid characters under NFKC normalization -/
  | invalidNormalized
deriving DecidableEq, Repr

structure SplitResult where
  scheme : List Char
  netloc : List Char
  path : List Char
  query : List Char
  fragment : List Char
deriving DecidableEq, Repr

/-- `_WHATWG_C0_CONTROL_OR_SPACE` -/
def isC0OrSpace (c : Char) : Bool := decide (c.toNat ≤ 32)

/-- `_UNSAFE_URL_BYTES_TO_REMOVE` -/
def isUnsafe (c : Char) : Bool := c == '\t' || c == '\r' || c == '\n'

/-- `scheme_chars` -/
def isSchemeChar (c : Char) : Bool := c.isAlphanum || c == '+' || c == '-' || c == '.'

/-- The URL without its leading controls and spaces, and without tabs and newlines. -/
def stripped (url : List Char) : List Char :=
  (url.dropWhile isC0OrSpace).filter fun c => !isUnsafe c

/-- The scheme in lower case, and the rest. -/
def splitScheme (url : List Char) : List Char × List Char :=
  match url.span (· ≠ ':') with
  | (scheme, _ :: rest) =>
    if scheme.head?.any Char.isAlpha && scheme.all isSchemeChar then
      (scheme.map Char.toLower, rest)
    else ([], url)
  | (_, []) => ([], url)

/-- `_splitnetloc`, from the two slashes on. -/
def splitNetloc (url : List Char) : List Char × List Char :=
  url.span fun c => !(c == '/' || c == '?' || c == '#')

/-- `_check_bracketed_host` -/
def checkBracketedHost (hostname : List Char) : Except ValueError Unit :=
  match hostname with
  | 'v' :: rest =>
    match rest.span IpAddress.isHexDigit with
    | (_ :: _, '.' :: _ :: _) => .ok ()
    | _ => .error .invalidIPvFuture
  | _ =>
    match IpAddress.ipAddress hostname with
    | some (.v6 _ _) => .ok ()
    | _ => .error .invalidAddress

/-- `_check_bracketed_netloc` -/
def checkBracketedNetloc (netloc : List Char) : Except ValueError Unit :=
  let hostnameAndPort := (netloc.splitOn '@').getLastD []
  match hostnameAndPort.span (· ≠ '[') with
  | (beforeBracket, _ :: bracketed) =>
    let (hostname, port) := bracketed.span (· ≠ ']')
    if beforeBracket ≠ [] ∨ port.tail ≠ [] ∧ port.tail.head? ≠ some ':' then
      .error .invalidIPv6Url
    else checkBracketedHost hostname
  | (_, []) => checkBracketedHost (hostnameAndPort.takeWhile (· ≠ ':'))

/-- The checks of `_urlsplit` on brackets. -/
def checkBrackets (netloc : List Char) : Except ValueError Unit :=
  if netloc.contains '[' ≠ netloc.contains ']' then .error .invalidIPv6Url
  else if netloc.contains '[' then checkBracketedNetloc netloc
  else .ok ()

variable (nfkc : List Char → List Char)

/-- `_checknetloc` -/
def checkNetloc (netloc : List Char) : Except ValueError Unit :=
  if netloc.all fun c => decide (c.toNat < 128) then .ok ()
  else
    let n := netloc.filter fun c => !(c == '@' || c == ':' || c == '#' || c == '?')
    if n ≠ nfkc n ∧ (nfkc n).any (fun c => "/?#@:".toList.contains c) = true then
      .error .invalidNormalized
    else .ok ()

/-- `partition` at a character, without it. -/
def partitionAt (c : Char) (text : List Char) : List Char × List Char :=
  let r := text.span (· ≠ c)
  (r.1, r.2.tail)

/-- `urlsplit` -/
def urlsplit (url : List Char) : Except ValueError SplitResult := do
  let (scheme, url) := splitScheme (stripped url)
  let (netloc, url) := if url.take 2 = ['/', '/'] then splitNetloc (url.drop 2) else ([], url)
  checkBrackets netloc
  let (url, fragment) := partitionAt '#' url
  let (path, query) := partitionAt '?' url
  checkNetloc nfkc netloc
  return { scheme := scheme, netloc := netloc, path := path, query := query, fragment := fragment }

/-! ### When `urlsplit` raises -/

/-- The authority of a URL, if there is one. -/
def authority (url : List Char) : Option (List Char) :=
  let rest := (splitScheme (stripped url)).2
  if rest.take 2 = ['/', '/'] then some (splitNetloc (rest.drop 2)).1 else none

/-- Brackets come in a pair around an address, and the normalisation of the text brings no
delimiter. -/
structure ValidNetloc (netloc : List Char) : Prop where
  balanced : '[' ∈ netloc ↔ ']' ∈ netloc
  bracketed : '[' ∈ netloc → checkBracketedNetloc netloc = .ok ()
  normalized : checkNetloc nfkc netloc = .ok ()

variable {nfkc} {url netloc : List Char}

theorem checkBrackets_eq_ok_iff : checkBrackets netloc = .ok () ↔
    ('[' ∈ netloc ↔ ']' ∈ netloc) ∧ ('[' ∈ netloc → checkBracketedNetloc netloc = .ok ()) := by
  have hiff : netloc.contains '[' = netloc.contains ']' ↔ ('[' ∈ netloc ↔ ']' ∈ netloc) := by
    rw [Bool.eq_iff_iff, List.contains_iff_mem, List.contains_iff_mem]
  unfold checkBrackets
  simp only [ne_eq, hiff, List.contains_iff_mem]
  split_ifs with hbal hmem
  · exact ⟨fun h => ⟨hbal, fun _ => h⟩, fun h => h.2 hmem⟩
  · exact iff_of_true rfl ⟨hbal, fun h => absurd h hmem⟩
  · refine iff_of_false ?_ fun h => hbal h.1
    intro h
    cases h

theorem validNetloc_iff : ValidNetloc nfkc netloc ↔
    checkBrackets netloc = .ok () ∧ checkNetloc nfkc netloc = .ok () := by
  rw [checkBrackets_eq_ok_iff]
  exact ⟨fun h => ⟨⟨h.balanced, h.bracketed⟩, h.normalized⟩, fun h => ⟨h.1.1, h.1.2, h.2⟩⟩

/-- `urlsplit`, when it returns. -/
theorem urlsplit_of_valid (h : ∀ netloc ∈ authority url, ValidNetloc nfkc netloc) :
    ∃ r, urlsplit nfkc url = .ok r := by
  unfold authority at h
  unfold urlsplit
  by_cases hsep : (splitScheme (stripped url)).2.take 2 = ['/', '/']
  · rw [if_pos hsep] at h
    obtain ⟨hbrackets, hnetloc⟩ := validNetloc_iff.mp (h _ rfl)
    simp only [if_pos hsep, hbrackets, hnetloc]
    exact ⟨_, rfl⟩
  · simp only [if_neg hsep]
    exact ⟨_, rfl⟩

/-- An authority that is not valid is a `ValueError`. -/
theorem valid_of_urlsplit {r : SplitResult} (h : urlsplit nfkc url = .ok r) :
    ∀ netloc ∈ authority url, ValidNetloc nfkc netloc := by
  intro netloc hnetloc
  unfold authority at hnetloc
  unfold urlsplit at h
  by_cases hsep : (splitScheme (stripped url)).2.take 2 = ['/', '/']
  · simp only [if_pos hsep] at h hnetloc
    obtain rfl := Option.some.inj hnetloc
    rw [validNetloc_iff]
    cases hbrackets : checkBrackets (splitNetloc ((splitScheme (stripped url)).2.drop 2)).1 with
    | error e =>
      rw [hbrackets] at h
      cases h
    | ok _ =>
      cases hcheck : checkNetloc nfkc (splitNetloc ((splitScheme (stripped url)).2.drop 2)).1 with
      | error e =>
        rw [hbrackets, hcheck] at h
        cases h
      | ok _ => exact ⟨rfl, rfl⟩
  · rw [if_neg hsep] at hnetloc
    cases hnetloc

theorem urlsplit_returns_iff :
    (∃ r, urlsplit nfkc url = .ok r) ↔ ∀ netloc ∈ authority url, ValidNetloc nfkc netloc :=
  ⟨fun ⟨_, h⟩ => valid_of_urlsplit h, urlsplit_of_valid⟩

/-- After a slash there is no scheme. -/
theorem splitScheme_slash (s : List Char) : splitScheme ('/' :: s) = ([], '/' :: s) := by
  have hspan : (('/' :: s).span (· ≠ ':')).1.head?.any Char.isAlpha = false := by
    rw [List.span_eq_takeWhile_dropWhile]
    rfl
  unfold splitScheme
  split
  · rename_i scheme c rest heq
    rw [heq] at hspan
    rw [hspan, Bool.false_and, if_neg Bool.false_ne_true]
  · rfl

/-- The leading slash is not stripped. -/
theorem stripped_slash (s : List Char) :
    stripped ('/' :: s) = ('/' :: s).filter fun c => !isUnsafe c := by
  rw [stripped, List.dropWhile_cons_of_neg Bool.false_ne_true]

/-- What follows two slashes is an authority. -/
theorem authority_slash (s : List Char) :
    (authority ('/' :: s)).isSome ↔
      (('/' :: s).filter fun c => !isUnsafe c).take 2 = ['/', '/'] := by
  have hcons : ('/' :: s).filter (fun c => !isUnsafe c) = '/' :: s.filter fun c => !isUnsafe c :=
    List.filter_cons_of_pos rfl
  rw [authority, stripped_slash, hcons, splitScheme_slash]
  dsimp only
  split_ifs with h
  · exact iff_of_true rfl h
  · exact iff_of_false Bool.false_ne_true h

end Urllib

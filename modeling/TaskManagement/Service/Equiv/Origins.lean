import TaskManagement.Service.Origins
import TaskManagement.UrlOrigin
import Mathlib.Data.Bool.AllAny

/-!
# Requests from other origins are refused

* `verify_origin_sound`: a request passes `verify_origin` only with an `Origin` header that is
  allowed, or with a `Referer` that every browser resolves to an allowed origin, whatever the
  differences between `urlparse` and the URL parser of the browser.
* `verify_origin_referer`: a `Referer` as browsers send it passes exactly when its origin is
  allowed.
-/

namespace Origins

open Requests Service
open Gates (HttpRequest present)
open Urllib (ValueError SplitResult urlsplit)
open WebUrl (clean resolve)
open UrlOrigin (IsTail)

variable {nfkc : List Char → List Char} {parseHost : List Char → Option String}
  {settings : Settings} {urlScheme : String} {request : HttpRequest} {referer origin : String}

/-- The text is the serialization of an origin, or at least a URL that stands for one. -/
structure IsOrigin (parseHost : List Char → Option String) (origin : String) : Prop where
  clean_eq : clean origin.toList = origin.toList
  resolves : ∀ base, ∃ o, resolve parseHost base origin.toList = some o

/-- The URL is resolved to the origin that `origin` stands for, whatever the base. -/
def SameOrigin (parseHost : List Char → Option String) (url origin : String) : Prop :=
  ∀ base, resolve parseHost base url.toList = resolve parseHost base origin.toList

theorem originFromReferer_eq_some (h : originFromReferer nfkc (some referer) = .ok (some origin)) :
    ∃ r, urlsplit nfkc referer.toList = .ok r ∧ r.scheme ≠ [] ∧ r.netloc ≠ [] ∧
      origin = String.ofList (r.scheme ++ "://".toList ++ r.netloc) := by
  unfold originFromReferer at h
  split at h
  · cases h
  · rename_i text hpresent
    obtain ⟨heq, -⟩ := Option.filter_eq_some_iff.mp hpresent
    obtain rfl := Option.some.inj heq
    cases hsplit : urlsplit nfkc referer.toList with
    | error e =>
      rw [hsplit] at h
      cases h
    | ok r =>
      rw [hsplit] at h
      have hif : (if r.scheme = [] ∨ r.netloc = [] then Except.ok none else
          Except.ok (some (String.ofList (r.scheme ++ "://".toList ++ r.netloc))) :
          Except ValueError (Option String)) = .ok (some origin) := h
      split_ifs at hif with hempty
      · cases Except.ok.inj hif
      · obtain ⟨hscheme, hnetloc⟩ := not_or.mp hempty
        exact ⟨r, rfl, hscheme, hnetloc, (Option.some.inj (Except.ok.inj hif)).symm⟩

/-- The `Referer` has the origin that is read from it, if that is an origin. -/
theorem sameOrigin_of_referer (h : originFromReferer nfkc (some referer) = .ok (some origin))
    (horigin : IsOrigin parseHost origin) : SameOrigin parseHost referer origin := by
  intro base
  obtain ⟨r, hsplit, hscheme, hnetloc, rfl⟩ := originFromReferer_eq_some h
  obtain ⟨o, ho⟩ := horigin.resolves base
  have hclean := horigin.clean_eq
  rw [String.toList_ofList] at hclean ho ⊢
  rw [ho]
  exact UrlOrigin.resolve_eq_of_urlsplit hsplit hscheme hnetloc hclean ho

theorem verifyOrigin_eq_ok_iff : verifyOrigin nfkc settings urlScheme request = .ok () ↔
    ∃ origin ∈ settings.corsAllowOrigins,
      requestOrigin nfkc settings urlScheme request = .ok (some origin) := by
  unfold verifyOrigin
  cases requestOrigin nfkc settings urlScheme request with
  | error e => exact iff_of_false nofun (by rintro ⟨origin, -, h⟩; cases h)
  | ok o =>
    cases o with
    | none => exact iff_of_false nofun (by rintro ⟨origin, -, h⟩; cases h)
    | some origin =>
      show (if origin ∈ settings.corsAllowOrigins then _ else _) = _ ↔ _
      split_ifs with hmem
      · exact iff_of_true rfl ⟨origin, hmem, rfl⟩
      · refine iff_of_false nofun ?_
        rintro ⟨origin', hmem', h⟩
        obtain rfl := Option.some.inj (Except.ok.inj h)
        exact hmem hmem'

/-! ### Main results -/

/-- A request passes with an allowed `Origin`, or over HTTPS, where the settings trust it, with a
`Referer` on an allowed origin. -/
theorem verify_origin_sound (hallowed : ∀ o ∈ settings.corsAllowOrigins, IsOrigin parseHost o)
    (h : verifyOrigin nfkc settings urlScheme request = .ok ()) :
    ∃ origin ∈ settings.corsAllowOrigins, request.headers "origin" = some origin ∨
      (request.headers "origin" = none ∧ urlScheme = "https" ∧
        settings.csrfTrustRefererOnHttps = true ∧
        ∃ referer, request.headers "referer" = some referer ∧
          SameOrigin parseHost referer origin) := by
  obtain ⟨origin, hmem, horigin⟩ := verifyOrigin_eq_ok_iff.mp h
  refine ⟨origin, hmem, ?_⟩
  unfold requestOrigin at horigin
  cases hheader : request.headers "origin" with
  | some o =>
    rw [hheader] at horigin
    exact Or.inl (congrArg some (Option.some.inj (Except.ok.inj horigin)))
  | none =>
    rw [hheader] at horigin
    dsimp only at horigin
    split_ifs at horigin with htrust
    · refine Or.inr ⟨rfl, htrust.1, htrust.2, ?_⟩
      cases hreferer : request.headers "referer" with
      | none =>
        rw [hreferer] at horigin
        cases horigin
      | some referer =>
        rw [hreferer] at horigin
        exact ⟨referer, rfl, sameOrigin_of_referer horigin (hallowed origin hmem)⟩
    · cases horigin

/-- The only origin that is allowed in the examples. -/
def appSettings : Settings where
  corsAllowOrigins := ["https://app.example"]
  csrfTrustRefererOnHttps := true

/-- A request with a `Referer` and no `Origin`. -/
def refererRequest (referer : String) : HttpRequest where
  headers name := if name = "referer" then some referer else none
  cookies _ := none

theorem isOrigin_app : IsOrigin (fun host => some (String.ofList host)) "https://app.example" where
  clean_eq := by decide +kernel
  resolves base := by
    have hclean : clean "https://app.example".toList =
        "https".toList ++ ':' :: '/' :: '/' :: ("app.example".toList ++ []) := by decide +kernel
    rw [UrlOrigin.resolve_absolute hclean (by decide +kernel)
      (List.all_eq_true.mp (by decide +kernel))]
    exact ⟨_, rfl⟩

theorem verify_origin_sound_board : ∃ origin ∈ appSettings.corsAllowOrigins,
    (refererRequest "https://app.example/board?x=1").headers "origin" = some origin ∨
      ((refererRequest "https://app.example/board?x=1").headers "origin" = none ∧
        "https" = "https" ∧ appSettings.csrfTrustRefererOnHttps = true ∧
        ∃ referer, (refererRequest "https://app.example/board?x=1").headers "referer" =
            some referer ∧
          SameOrigin (fun host => some (String.ofList host)) referer origin) := by
  have hpass : verifyOrigin id appSettings "https"
      (refererRequest "https://app.example/board?x=1") = .ok () := by decide +kernel
  refine verify_origin_sound (fun o ho => ?_) hpass
  rw [List.mem_singleton.mp ho]
  exact isOrigin_app

/-- A `Referer` as a browser sends it, with the scheme in lower case, is let through exactly when
its origin is allowed. -/
theorem verify_origin_referer {name netloc tail : List Char}
    (hhead : name.head?.any Char.isAlpha = true)
    (hname : ∀ c ∈ name, Urllib.isSchemeChar c = true ∧ c.toLower = c) (hnetloc : netloc ≠ [])
    (hvalid : Urllib.ValidNetloc nfkc netloc)
    (hdelim : ∀ c ∈ netloc, ¬(c = '/' ∨ c = '?' ∨ c = '#')) (htail : IsTail tail)
    (hplain : ∀ c ∈ netloc ++ tail, Urllib.isUnsafe c = false)
    (horigin : request.headers "origin" = none)
    (htrust : settings.csrfTrustRefererOnHttps = true)
    (hreferer : request.headers "referer" =
      some (String.ofList (name ++ "://".toList ++ (netloc ++ tail)))) :
    verifyOrigin nfkc settings "https" request =
      if String.ofList (name ++ "://".toList ++ netloc) ∈ settings.corsAllowOrigins then .ok ()
      else .error (.app .csrfInvalid) := by
  obtain ⟨r, hsplit, hscheme, hnet⟩ :=
    UrlOrigin.urlsplit_of_origin hhead hname hvalid hdelim htail hplain
  have hne : name ≠ [] := by
    rintro rfl
    cases hhead
  have horiginOf : requestOrigin nfkc settings "https" request =
      .ok (some (String.ofList (name ++ "://".toList ++ netloc))) := by
    unfold requestOrigin
    rw [horigin, hreferer]
    dsimp only
    rw [if_pos ⟨rfl, htrust⟩]
    unfold originFromReferer
    have hpresent : present (some (String.ofList (name ++ "://".toList ++ (netloc ++ tail)))) =
        some (String.ofList (name ++ "://".toList ++ (netloc ++ tail))) := by
      refine Option.filter_eq_some_iff.mpr ⟨rfl, decide_eq_true ?_⟩
      intro hempty
      have hnil := congrArg String.toList hempty
      rw [String.toList_ofList] at hnil
      exact hne (List.append_eq_nil_iff.mp (List.append_eq_nil_iff.mp hnil).1).1
    rw [hpresent]
    dsimp only
    rw [String.toList_ofList, hsplit]
    show (if r.scheme = [] ∨ r.netloc = [] then Except.ok none else Except.ok (some _)) = _
    rw [hscheme, hnet, if_neg (not_or.mpr ⟨hne, hnetloc⟩)]
  unfold verifyOrigin
  rw [horiginOf]
  rfl

theorem verify_origin_referer_board : verifyOrigin id appSettings "https"
    (refererRequest "https://app.example/board?x=1") = .ok () := by
  have hvalid : Urllib.ValidNetloc id "app.example".toList :=
    Urllib.validNetloc_iff.mpr ⟨by decide +kernel, by decide +kernel⟩
  have htail : IsTail "/board?x=1".toList := by
    rintro c ⟨⟩
    exact Or.inl rfl
  have hreferer : (refererRequest "https://app.example/board?x=1").headers "referer" =
      some (String.ofList ("https".toList ++ "://".toList ++
        ("app.example".toList ++ "/board?x=1".toList))) := by decide +kernel
  refine (verify_origin_referer (by decide +kernel) (List.all_iff_forall_prop.mp (by decide +kernel))
    (by decide +kernel) hvalid (List.all_iff_forall_prop.mp (by decide +kernel)) htail
    (List.all_iff_forall_prop.mp (by decide +kernel)) rfl rfl hreferer).trans ?_
  exact if_pos (by decide +kernel)

end Origins

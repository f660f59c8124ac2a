import TaskManagement.Service.RedirectTo
import TaskManagement.WebUrl

/-!
# Where `normalize_redirect_to` leads

What the function returns is a path of the application in the eyes of a browser, and it returns its
own results unchanged; but `urlsplit` is asked before the checks, and it raises a `ValueError` for
an authority that it does not like.  The function is total and safe exactly for the targets without
such an authority (`normalizeRedirectTo_safe_iff`).
-/

namespace RedirectTo

open Urllib
open WebUrl (StaysOn deleteTabs isNetworkPath)

variable {nfkc : List Char → List Char} {parseHost : List Char → Option String}
  {config : BackendSettings} {raw : Option String} {s r : String}

/-- A target that the checks let through. -/
structure Accepted (config : BackendSettings) (s : String) : Prop where
  slash : s.toList.head? = some '/'
  notTwo : s.toList.take 2 ≠ ['/', '/']
  short : (s.toList.length : ℤ) ≤ config.oauthRedirectToMaxLength
  noBackslash : '\\' ∉ s.toList
  noControl : s.toList.any isControl = false

/-- Seen by a browser, a path of the application. -/
def IsPath (s : String) : Prop :=
  s.toList.head? = some '/' ∧ isNetworkPath (deleteTabs s.toList) = false

/-- The two parsers delete the same characters. -/
theorem deleteTabs_eq_filter (l : List Char) : deleteTabs l = l.filter fun c => !isUnsafe c := by
  refine List.filter_congr fun c _ => ?_
  rw [WebUrl.isTabOrNewline, isUnsafe, Bool.or_right_comm]

/-- A path has no authority. -/
theorem IsPath.no_authority (h : IsPath s) : authority s.toList = none := by
  obtain ⟨hslash, hnet⟩ := h
  obtain ⟨l, hl⟩ : ∃ l, s.toList = '/' :: l := by
    cases hs : s.toList with
    | nil =>
      rw [hs] at hslash
      cases hslash
    | cons c l =>
      rw [hs] at hslash
      obtain rfl := Option.some.inj hslash
      exact ⟨l, rfl⟩
  rw [← Option.not_isSome_iff_eq_none, hl, authority_slash, ← deleteTabs_eq_filter, ← hl]
  intro htwo
  have hnet' : isNetworkPath (deleteTabs s.toList) = true := by
    cases hd : deleteTabs s.toList with
    | nil =>
      rw [hd] at htwo
      cases htwo
    | cons a t =>
      cases t with
      | nil =>
        rw [hd] at htwo
        cases htwo
      | cons b t =>
        rw [hd] at htwo
        obtain ⟨rfl, hb⟩ := List.cons.inj htwo
        obtain ⟨rfl, -⟩ := List.cons.inj hb
        rfl
  rw [hnet] at hnet'
  cases hnet'

/-- A tab or a newline is a control. -/
theorem Accepted.deleteTabs_eq (h : Accepted config s) : deleteTabs s.toList = s.toList := by
  refine List.filter_eq_self.mpr fun c hc => ?_
  have hcontrol := List.any_eq_false.mp h.noControl c hc
  rw [Bool.not_eq_true', WebUrl.isTabOrNewline]
  by_contra hne
  rw [Bool.not_eq_false, Bool.or_eq_true, Bool.or_eq_true, beq_iff_eq, beq_iff_eq,
    beq_iff_eq] at hne
  rcases hne with (rfl | rfl) | rfl
  · exact hcontrol rfl
  · exact hcontrol rfl
  · exact hcontrol rfl

theorem Accepted.isPath (h : Accepted config s) : IsPath s := by
  refine ⟨h.slash, ?_⟩
  rw [h.deleteTabs_eq]
  have hback := h.noBackslash
  have htwo := h.notTwo
  cases hs : s.toList with
  | nil => rfl
  | cons a t =>
    cases t with
    | nil => rfl
    | cons b t =>
      rw [hs] at hback htwo
      rw [isNetworkPath]
      by_contra hne
      rw [Bool.not_eq_false, Bool.and_eq_true, WebUrl.isSlash, WebUrl.isSlash, Bool.or_eq_true,
        Bool.or_eq_true, beq_iff_eq, beq_iff_eq, beq_iff_eq, beq_iff_eq] at hne
      rcases hne with ⟨rfl | rfl, rfl | rfl⟩
      · exact htwo rfl
      · exact hback (by simp)
      · exact hback (by simp)
      · exact hback (by simp)

/-! ### What the function returns -/

theorem exists_urlsplit_of_isPath (nfkc : List Char → List Char) (h : IsPath s) :
    ∃ p, urlsplit nfkc s.toList = .ok p := by
  refine urlsplit_of_valid fun netloc hn => ?_
  rw [h.no_authority] at hn
  cases hn

/-- The result for a text that `urlsplit` accepts. -/
theorem normalizeRedirectTo_of_urlsplit (config : BackendSettings) {p : SplitResult}
    (h : urlsplit nfkc s.toList = .ok p) :
    normalizeRedirectTo nfkc config (some s) = .ok s ∧ Accepted config s ∨
      normalizeRedirectTo nfkc config (some s) = .ok config.oauthDefaultRedirectTo := by
  rw [normalizeRedirectTo]
  split_ifs with hempty
  · exact .inr rfl
  · rw [h]
    simp only [bind, Except.bind]
    split_ifs with hreject
    · exact .inr rfl
    · rw [not_or, not_or, not_or, not_or, not_or, not_or, not_not, not_lt, Bool.not_eq_true]
        at hreject
      obtain ⟨hslash, htwo, -, -, hshort, hback, hcontrol⟩ := hreject
      exact .inl ⟨rfl, hslash, htwo, hshort, hback, hcontrol⟩

/-- The error of `urlsplit` is the error of the function. -/
theorem normalizeRedirectTo_of_error {e : ValueError} (h : urlsplit nfkc s.toList = .error e)
    (hne : s ≠ "") : normalizeRedirectTo nfkc config (some s) = .error e := by
  rw [normalizeRedirectTo, if_neg hne, h]
  rfl

/-- A path of the application is returned as it is, or replaced by the default. -/
theorem normalizeRedirectTo_of_isPath (h : IsPath s) :
    normalizeRedirectTo nfkc config (some s) = .ok s ∨
      normalizeRedirectTo nfkc config (some s) = .ok config.oauthDefaultRedirectTo := by
  obtain ⟨p, hp⟩ := exists_urlsplit_of_isPath nfkc h
  exact (normalizeRedirectTo_of_urlsplit config hp).imp And.left id

/-- The default is a fixed point. -/
theorem normalizeRedirectTo_default (h : IsPath config.oauthDefaultRedirectTo) :
    normalizeRedirectTo nfkc config (some config.oauthDefaultRedirectTo) =
      .ok config.oauthDefaultRedirectTo :=
  (normalizeRedirectTo_of_isPath h).elim id id

theorem isPath_iff : IsPath s ↔
    s.toList.head? = some '/' ∧ StaysOn parseHost .https s.toList :=
  and_congr_right fun h => (WebUrl.staysOn_iff h).symm

/-- Everything that the function returns is a path of the application. -/
theorem isPath_of_normalizeRedirectTo (hdefault : IsPath config.oauthDefaultRedirectTo)
    (h : normalizeRedirectTo nfkc config raw = .ok r) : IsPath r := by
  cases raw with
  | none =>
    obtain rfl := Except.ok.inj h
    exact hdefault
  | some s =>
    cases hsplit : urlsplit nfkc s.toList with
    | error e =>
      by_cases hempty : s = ""
      · subst hempty
        cases hsplit
      · rw [normalizeRedirectTo_of_error hsplit hempty] at h
        cases h
    | ok p =>
      rcases normalizeRedirectTo_of_urlsplit config hsplit with ⟨heq, hacc⟩ | heq
      · obtain rfl := Except.ok.inj (heq.symm.trans h)
        exact hacc.isPath
      · obtain rfl := Except.ok.inj (heq.symm.trans h)
        exact hdefault

/-- The function returns a target on the origin of the application, which it returns again, and
which is the default or the text of the client. -/
def Safe (nfkc : List Char → List Char) (parseHost : List Char → Option String)
    (config : BackendSettings) (raw : Option String) : Prop :=
  ∃ r, normalizeRedirectTo nfkc config raw = .ok r ∧ StaysOn parseHost .https r.toList ∧
    normalizeRedirectTo nfkc config (some r) = .ok r ∧
    (r ≠ config.oauthDefaultRedirectTo → raw = some r)

/-- `normalize_redirect_to` is total and safe exactly for the targets whose authority, if there is
one, is valid. -/
theorem normalizeRedirectTo_safe_iff
    (hslash : config.oauthDefaultRedirectTo.toList.head? = some '/')
    (hstays : StaysOn parseHost .https config.oauthDefaultRedirectTo.toList) :
    Safe nfkc parseHost config raw ↔
      ∀ s ∈ raw, ∀ netloc ∈ authority s.toList, ValidNetloc nfkc netloc := by
  have hdefault : IsPath config.oauthDefaultRedirectTo := isPath_iff.mpr ⟨hslash, hstays⟩
  have hsafe : ∀ raw, normalizeRedirectTo nfkc config raw = .ok config.oauthDefaultRedirectTo →
      Safe nfkc parseHost config raw := fun raw h =>
    ⟨_, h, hstays, normalizeRedirectTo_default hdefault, fun hne => absurd rfl hne⟩
  constructor
  · rintro ⟨r, hr, -⟩ s rfl
    by_cases hempty : s = ""
    · subst hempty
      intro netloc hn
      cases hn
    · cases hsplit : urlsplit nfkc s.toList with
      | error e =>
        rw [normalizeRedirectTo_of_error hsplit hempty] at hr
        cases hr
      | ok p => exact valid_of_urlsplit hsplit
  · intro h
    cases raw with
    | none => exact hsafe none rfl
    | some s =>
      obtain ⟨p, hp⟩ := urlsplit_of_valid (h s rfl)
      rcases normalizeRedirectTo_of_urlsplit config hp with ⟨heq, hacc⟩ | heq
      · exact ⟨s, heq, (isPath_iff.mp hacc.isPath).2, heq, fun _ => rfl⟩
      · exact hsafe _ heq

/-! ### The settings of the application -/

def defaultSettings : BackendSettings where
  oauthDefaultRedirectTo := "/dashboard"
  oauthRedirectToMaxLength := 2048

/-- A browser without hosts. -/
def noHost : List Char → Option String := fun _ => none

theorem staysOn_dashboard {parseHost : List Char → Option String} :
    StaysOn parseHost .https defaultSettings.oauthDefaultRedirectTo.toList :=
  (WebUrl.staysOn_iff rfl).mpr rfl

theorem normalizeRedirectTo_safe_project :
    Safe id noHost defaultSettings (some "/projects/1") := by
  refine (normalizeRedirectTo_safe_iff rfl staysOn_dashboard).mpr ?_
  rintro s ⟨⟩ netloc hn
  cases hn

/-- An open bracket is an error. -/
theorem normalizeRedirectTo_raises :
    ¬∀ (nfkc : List Char → List Char) (parseHost : List Char → Option String)
      (config : BackendSettings) (raw : Option String),
      config.oauthDefaultRedirectTo.toList.head? = some '/' →
      StaysOn parseHost .https config.oauthDefaultRedirectTo.toList →
      Safe nfkc parseHost config raw := by
  intro h
  obtain ⟨r, hr, -⟩ := h id noHost defaultSettings (some "//[") rfl staysOn_dashboard
  have herror : normalizeRedirectTo id defaultSettings (some "//[") = .error .invalidIPv6Url :=
    normalizeRedirectTo_of_error rfl (by decide)
  rw [herror] at hr
  cases hr

end RedirectTo

import TaskManagement.Frontend.OAuthCallback
import TaskManagement.Service.Equiv.RedirectTo
import TaskManagement.UrlQuote

/-!
# Where the callback page navigates to

`isSafeRelativePath` looks at the first two characters of a path, and a browser first deletes the
tabs and newlines.  The page stays on its origin exactly when the path that the check lets through
does not begin with two slashes then (`callback_stays_iff`).

A target that `normalize_redirect_to` returns comes through the fragment of the redirect unchanged,
and the page navigates to it exactly when there is no colon in it (`redirect_survives`).
-/

namespace OAuthCallback

open WebUrl (StaysOn deleteTabs isNetworkPath)
open RedirectTo (IsPath normalizeRedirectTo)

variable {nfkc : List Char → List Char} {parseHost : List Char → Option String}
  {scheme : WebUrl.Scheme} {hash path r : String} {raw : Option String} {answers : Answers}

/-! ### The check -/

theorem isSafeRelativePath_iff : isSafeRelativePath (some path) = true ↔
    path.toList.head? = some '/' ∧ path.toList[1]? ≠ some '/' ∧ path.toList[1]? ≠ some '\\' ∧
      ':' ∉ path.toList := by
  rw [isSafeRelativePath]
  cases path.toList with
  | nil => simp
  | cons c rest =>
    have hsecond : (c :: rest)[1]? = rest.head? := by
      rw [List.getElem?_cons_succ, List.head?_eq_getElem?]
    dsimp only
    rw [hsecond, List.head?_cons, Option.some_inj]
    split_ifs with hslash hcolon
    · refine iff_of_false not_false ?_
      rintro ⟨h1, h2, h3, -⟩
      rcases hslash with h | h | h
      · exact h h1
      · exact h2 h
      · exact h3 h
    · exact iff_of_false not_false fun h => h.2.2.2 hcolon
    · rw [not_or, not_or, not_not] at hslash
      exact iff_of_true rfl ⟨hslash.1, hslash.2.1, hslash.2.2, hcolon⟩

/-- Without its tabs and newlines the path begins with two slashes. -/
def HidesAuthority (path : String) : Prop := isNetworkPath (deleteTabs path.toList) = true

theorem staysOn_iff_of_slash (h : path.toList.head? = some '/') :
    StaysOn parseHost scheme path.toList ↔ ¬HidesAuthority path := by
  rw [WebUrl.staysOn_iff h, HidesAuthority, Bool.not_eq_true]

/-! ### The page -/

/-- Whatever the server answers in the mode `session`, the page stays on its origin. -/
def PageStays (parseHost : List Char → Option String) (scheme : WebUrl.Scheme) (hash : String) :
    Prop :=
  ∀ answers : Answers, answers.mode = .session → ∀ user target,
    runCallback answers hash = .navigated user target → StaysOn parseHost scheme target.toList

/-- The targets of the page in the mode `session`. -/
theorem runCallback_session {user : AuthUser} {target : String} (hmode : answers.mode = .session)
    (h : runCallback answers hash = .navigated user target) :
    target = "/settings?complete_profile=1" ∨ target = dashboard ∨
      isSafeRelativePath (parseHash hash).redirectTo = true ∧
        (parseHash hash).redirectTo = some target := by
  rw [runCallback, chooseTarget, hmode] at h
  dsimp only at h
  cases hme : answers.me with
  | none =>
    rw [hme] at h
    split_ifs at h
  | some me =>
    rw [hme] at h
    split_ifs at h with hsafe
    · obtain ⟨-, rfl⟩ := Outcome.navigated.inj h
      split_ifs with hprofile
      · exact .inl rfl
      · right
        cases hto : (parseHash hash).redirectTo with
        | none => exact .inl rfl
        | some path => exact .inr ⟨hto ▸ hsafe, rfl⟩
    · obtain ⟨-, rfl⟩ := Outcome.navigated.inj h
      split_ifs
      · exact .inl rfl
      · exact .inr (.inl rfl)

/-- A user with a completed profile is sent to the path that the check lets through. -/
theorem runCallback_of_safe {me : AuthMeResult} (hmode : answers.mode = .session)
    (hme : answers.me = some me) (hprofile : me.profileCompleted = true)
    (hto : (parseHash hash).redirectTo = some path)
    (hsafe : isSafeRelativePath (some path) = true) :
    runCallback answers hash = .navigated { id := me.id, role := me.role } path := by
  rw [runCallback, chooseTarget, hmode]
  dsimp only
  rw [hto, if_pos hsafe, hme]
  dsimp only
  rw [hprofile, if_neg Bool.noConfusion, Option.getD_some]

/-- A path that the check refuses is replaced. -/
theorem runCallback_of_unsafe {me : AuthMeResult} (hmode : answers.mode = .session)
    (hme : answers.me = some me) (hprofile : me.profileCompleted = true)
    (hsafe : isSafeRelativePath (parseHash hash).redirectTo = false) :
    runCallback answers hash = .navigated { id := me.id, role := me.role } dashboard := by
  rw [runCallback, chooseTarget, hmode]
  dsimp only
  rw [hsafe, if_neg Bool.false_ne_true, hme]
  dsimp only
  rw [hprofile, if_neg Bool.noConfusion, Option.getD_some]

/-- An answer that lets the page navigate. -/
def completed : Answers where
  mode := .session
  authTokenMaxLength := 512
  exchange _ := .error none
  me := some { id := "u", role := .member, profileCompleted := true }

/-- The page stays on its origin exactly when the path of its fragment, if the check lets it
through, hides no authority; and these are the paths that the check wrongly lets through. -/
theorem callback_stays_iff (parseHost : List Char → Option String) (scheme : WebUrl.Scheme)
    (hash path : String) :
    (PageStays parseHost scheme hash ↔ ∀ p, (parseHash hash).redirectTo = some p →
      isSafeRelativePath (some p) = true → ¬HidesAuthority p) ∧
    ((isSafeRelativePath (some path) = true → StaysOn parseHost scheme path.toList) ↔
      (isSafeRelativePath (some path) = true → ¬HidesAuthority path)) := by
  have hslash : ∀ {p : String}, isSafeRelativePath (some p) = true →
      (StaysOn parseHost scheme p.toList ↔ ¬HidesAuthority p) :=
    fun h => staysOn_iff_of_slash (isSafeRelativePath_iff.mp h).1
  refine ⟨⟨fun h p hto hsafe => (hslash hsafe).mp ?_, fun h answers hmode user target hnav => ?_⟩,
    forall_congr' fun hsafe => hslash hsafe⟩
  · exact h completed rfl _ _ (runCallback_of_safe rfl rfl rfl hto hsafe)
  · rcases runCallback_session hmode hnav with rfl | rfl | ⟨hsafe, hto⟩
    · exact (WebUrl.staysOn_iff rfl).mpr rfl
    · exact (WebUrl.staysOn_iff rfl).mpr rfl
    · rw [hto] at hsafe
      exact (hslash hsafe).mpr (h target hto hsafe)

/-- A tab between two slashes. -/
theorem callback_leaves : ¬∀ (parseHost : List Char → Option String) (scheme : WebUrl.Scheme)
    (hash : String), PageStays parseHost scheme hash := by
  intro h
  have hstays := h (fun _ => none) .https "#redirect_to=/%09/evil.com" completed rfl
    { id := "u", role := .member } "/\t/evil.com" rfl
  exact (staysOn_iff_of_slash rfl).mp hstays rfl

/-! ### The way of a target through the fragment -/

theorem urlSearchParams_of_head {query : List Char} (h : query.head? ≠ some '?') :
    urlSearchParams query = FormUrlencoded.parse query := by
  unfold urlSearchParams
  split
  · exact absurd rfl h
  · rfl

/-- A text that begins with a letter is quoted to one that does. -/
theorem head?_urlencode {c : Char} {name value : List Char}
    {query : List (List Char × List Char)} (h : Urllib.quoteByte ['/'] (UInt8.ofNat c.toNat) = [c])
    (hascii : String.utf8EncodeChar c = [UInt8.ofNat c.toNat]) :
    (Urllib.urlencode ['/'] ((c :: name, value) :: query)).head? = some c := by
  have hquote : Urllib.quote ['/'] (c :: name) = c :: Urllib.quote ['/'] name := by
    rw [Urllib.quote, FormUrlencoded.utf8Encode, List.flatMap_cons, hascii, List.flatMap_append,
      List.flatMap_singleton, h]
    rfl
  rw [Urllib.urlencode, List.map_cons]
  cases query with
  | nil =>
    rw [List.map_nil, List.intercalate_singleton, hquote]
    rfl
  | cons item query =>
    rw [List.map_cons, List.intercalate_cons_cons, hquote]
    rfl

/-- The browser reads what the server has written into the fragment. -/
theorem parseHash_callbackFragment (handoffCode : Option String) (redirectTo : String) :
    parseHash ("#" ++ RedirectTo.callbackFragment handoffCode redirectTo) =
      { code := handoffCode, redirectTo := some redirectTo } := by
  set query := (handoffCode.toList.map fun code => ("code".toList, code.toList)) ++
    [("redirect_to".toList, redirectTo.toList)] with hquery
  have hlist : ("#" ++ RedirectTo.callbackFragment handoffCode redirectTo).toList =
      '#' :: Urllib.urlencode ['/'] query := by
    rw [String.toList_append, RedirectTo.callbackFragment, String.toList_ofList,
      String.toList_ofList]
    rfl
  have hparams : urlSearchParams (Urllib.urlencode ['/'] query) = query := by
    rw [urlSearchParams_of_head, Urllib.parse_urlencode]
    cases handoffCode with
    | none =>
      rw [hquery]
      exact fun h => absurd ((head?_urlencode (c := 'r') rfl rfl).symm.trans h) (by decide)
    | some code =>
      rw [hquery]
      exact fun h => absurd ((head?_urlencode (c := 'c') rfl rfl).symm.trans h) (by decide)
  have hparse : parseHash ("#" ++ RedirectTo.callbackFragment handoffCode redirectTo) =
      { code := getParam query "code", redirectTo := getParam query "redirect_to" } := by
    rw [parseHash, hlist]
    show HashParams.mk (getParam (urlSearchParams (Urllib.urlencode ['/'] query)) "code")
      (getParam (urlSearchParams (Urllib.urlencode ['/'] query)) "redirect_to") = _
    rw [hparams]
  rw [hparse, hquery]
  cases handoffCode with
  | none =>
    show HashParams.mk none (some (String.ofList redirectTo.toList)) = _
    rw [String.ofList_toList]
  | some code =>
    show HashParams.mk (some (String.ofList code.toList))
      (some (String.ofList redirectTo.toList)) = _
    rw [String.ofList_toList, String.ofList_toList]

/-- The second character of a path is no slash. -/
theorem isSafeRelativePath_of_isPath (h : IsPath r) :
    isSafeRelativePath (some r) = true ↔ ':' ∉ r.toList := by
  obtain ⟨hslash, hnet⟩ := h
  have hsecond : r.toList[1]? ≠ some '/' ∧ r.toList[1]? ≠ some '\\' := by
    cases hr : r.toList with
    | nil =>
      rw [hr] at hslash
      cases hslash
    | cons a rest =>
      rw [hr] at hslash hnet
      obtain rfl := Option.some.inj hslash
      cases rest with
      | nil => exact ⟨by simp, by simp⟩
      | cons b rest =>
        have hb : ∀ c, WebUrl.isSlash c = true → WebUrl.isTabOrNewline c = false → b ≠ c := by
          rintro c hc htab rfl
          rw [deleteTabs, List.filter_cons_of_pos rfl, List.filter_cons_of_pos (by rw [htab]; rfl),
            isNetworkPath, hc] at hnet
          cases hnet
        rw [List.getElem?_cons_succ, List.getElem?_cons_zero, ne_eq, Option.some_inj, ne_eq,
          Option.some_inj]
        exact ⟨hb '/' rfl rfl, hb '\\' rfl rfl⟩
  rw [isSafeRelativePath_iff]
  exact ⟨fun h => h.2.2.2, fun h => ⟨hslash, hsecond.1, hsecond.2, h⟩⟩

/-- A target that the server accepts is read back by the page; the page lets it through and
navigates to it exactly when there is no colon in it, and else to the dashboard. -/
theorem redirect_survives (nfkc : List Char → List Char) (parseHost : List Char → Option String)
    (config : RedirectTo.BackendSettings) (raw : Option String) (r : String)
    (hslash : config.oauthDefaultRedirectTo.toList.head? = some '/')
    (hstays : StaysOn parseHost .https config.oauthDefaultRedirectTo.toList)
    (h : normalizeRedirectTo nfkc config raw = .ok r) :
    (parseHash ("#" ++ RedirectTo.callbackFragment none r)).redirectTo = some r ∧
    (isSafeRelativePath (some r) = true ↔ ':' ∉ r.toList) ∧
    ∀ answers : Answers, answers.mode = .session → ∀ me, answers.me = some me →
      me.profileCompleted = true →
      runCallback answers ("#" ++ RedirectTo.callbackFragment none r) =
        .navigated { id := me.id, role := me.role } (if ':' ∈ r.toList then dashboard else r) := by
  have hpath : IsPath r := RedirectTo.isPath_of_normalizeRedirectTo
    (RedirectTo.isPath_iff.mpr ⟨hslash, hstays⟩) h
  have hsafe := isSafeRelativePath_of_isPath hpath
  have hto : (parseHash ("#" ++ RedirectTo.callbackFragment none r)).redirectTo = some r := by
    rw [parseHash_callbackFragment]
  refine ⟨hto, hsafe, fun answers hmode me hme hprofile => ?_⟩
  split_ifs with hcolon
  · refine runCallback_of_unsafe hmode hme hprofile ?_
    rw [hto]
    by_contra hne
    exact hsafe.mp (Bool.not_eq_false _ ▸ hne) hcolon
  · exact runCallback_of_safe hmode hme hprofile hto (hsafe.mpr hcolon)

theorem redirect_survives_project :
    runCallback completed ("#" ++ RedirectTo.callbackFragment none "/projects/1") =
      .navigated { id := "u", role := .member } "/projects/1" :=
  (redirect_survives id RedirectTo.noHost RedirectTo.defaultSettings (some "/projects/1")
    "/projects/1" rfl RedirectTo.staysOn_dashboard rfl).2.2 completed rfl _ rfl rfl

/-- A path with a colon is accepted by the server and refused by the page. -/
theorem redirect_lost :
    ¬∀ (nfkc : List Char → List Char) (parseHost : List Char → Option String)
      (config : RedirectTo.BackendSettings) (raw : Option String) (r : String),
      config.oauthDefaultRedirectTo.toList.head? = some '/' →
      StaysOn parseHost .https config.oauthDefaultRedirectTo.toList →
      normalizeRedirectTo nfkc config raw = .ok r → isSafeRelativePath (some r) = true := by
  intro h
  have hsafe := h id RedirectTo.noHost RedirectTo.defaultSettings (some "/a:b") "/a:b" rfl
    RedirectTo.staysOn_dashboard rfl
  exact absurd hsafe (by decide)

end OAuthCallback

import TaskManagement.UrlQuote
import TaskManagement.Urllib

/-!
# `normalize_redirect_to`

The target that a login through OAuth returns to is chosen by the client; `normalize_redirect_to`
replaces it by the default of the settings unless it is a path of the application.  At the end of
the login the target is in the fragment of a redirect to the callback page (`callbackFragment`).
-/

namespace RedirectTo

open Urllib (ValueError urlsplit)

/-- The settings that are read. -/
structure BackendSettings where
  oauthDefaultRedirectTo : String
  oauthRedirectToMaxLength : ℤ

/-- `ord(char) < 0x20 or ord(char) == 0x7F` -/
def isControl (c : Char) : Bool := decide (c.toNat < 32) || decide (c.toNat = 127)

/-- `normalize_redirect_to`; the query parameter has been decoded to Unicode characters. -/
def normalizeRedirectTo (nfkc : List Char → List Char) (config : BackendSettings) :
    Option String → Except ValueError String
  | none => .ok config.oauthDefaultRedirectTo
  | some raw =>
    if raw = "" then .ok config.oauthDefaultRedirectTo
    else do
      let parsed ← urlsplit nfkc raw.toList
      if raw.toList.head? ≠ some '/' ∨ raw.toList.take 2 = ['/', '/'] ∨ parsed.scheme ≠ [] ∨
          parsed.netloc ≠ [] ∨ config.oauthRedirectToMaxLength < raw.toList.length ∨
          '\\' ∈ raw.toList ∨ raw.toList.any isControl = true then
        return config.oauthDefaultRedirectTo
      return raw

/-- The fragment of the redirect of `oauth_google_callback`. -/
def callbackFragment (handoffCode : Option String) (redirectTo : String) : String :=
  String.ofList <| Urllib.urlencode ['/'] <|
    (handoffCode.toList.map fun code => ("code".toList, code.toList)) ++
      [("redirect_to".toList, redirectTo.toList)]

end RedirectTo

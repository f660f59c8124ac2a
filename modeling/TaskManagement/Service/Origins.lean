import TaskManagement.Service.Gates
import TaskManagement.Urllib

/-!
# The origin of a request

`verify_origin` of `core/deps.py`: a request that changes something is let through only when its
`Origin` header is one of `cors_allow_origins`.  Over HTTPS, and if the settings say so, the origin
of the `Referer` stands in for a header that is missing.
-/

namespace Origins

open Requests Service
open Gates (HttpRequest present)
open Logins (AuthMode)
open Urllib (ValueError urlsplit)

/-- The settings of `verify_origin`. -/
structure Settings where
  corsAllowOrigins : List String
  csrfTrustRefererOnHttps : Bool

/-- `_origin_from_referer`.  `urlparse` only splits the path of `urlsplit` once more. -/
def originFromReferer (nfkc : List Char → List Char) (referer : Option String) :
    Except ValueError (Option String) :=
  match present referer with
  | none => .ok none
  | some referer => do
    let parsed ← urlsplit nfkc referer.toList
    if parsed.scheme = [] ∨ parsed.netloc = [] then return none
    return some (String.ofList (parsed.scheme ++ "://".toList ++ parsed.netloc))

/-- The origin that `verify_origin` looks for, when the request came with `urlScheme`. -/
def requestOrigin (nfkc : List Char → List Char) (settings : Settings) (urlScheme : String)
    (request : HttpRequest) : Except ValueError (Option String) :=
  match request.headers "origin" with
  | some origin => .ok (some origin)
  | none =>
    if urlScheme = "https" ∧ settings.csrfTrustRefererOnHttps = true then
      originFromReferer nfkc (request.headers "referer")
    else .ok none

/-- `verify_origin`; nothing handles a `ValueError`. -/
def verifyOrigin (nfkc : List Char → List Char) (settings : Settings) (urlScheme : String)
    (request : HttpRequest) : Except Exn Unit :=
  match requestOrigin nfkc settings urlScheme request with
  | .error _ => throw .valueError
  | .ok none => throw (.app .csrfInvalid)
  | .ok (some origin) =>
    if origin ∈ settings.corsAllowOrigins then return () else throw (.app .csrfInvalid)

/-- `verify_origin_if_session` -/
def verifyOriginIfSession (nfkc : List Char → List Char) (mode : AuthMode) (settings : Settings)
    (urlScheme : String) (request : HttpRequest) : Except Exn Unit :=
  if mode = .session then verifyOrigin nfkc settings urlScheme request else return ()

end Origins

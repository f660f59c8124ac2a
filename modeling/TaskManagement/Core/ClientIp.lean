import TaskManagement.IpAddress
import Mathlib.Data.List.DropRight

/-!
# The address of the client

`resolve_client_ip` names the client that rate limits and the history are about: the peer of the
connection, or, behind proxies that are trusted, an entry of `X-Forwarded-For`.
-/

namespace ClientIp

open IpAddress (Address ipAddress ipNetwork)

/-! ### Requests -/

structure Request where
  /-- `request.client.host` -/
  client : Option (List Char)
  /-- The headers in their order, with their names in lower case. -/
  headers : List (List Char × List Char)
deriving DecidableEq

/-- `request.headers.get`: the first header of the name. -/
def Request.header (request : Request) (name : List Char) : Option (List Char) :=
  request.headers.lookup name

def Request.peer (request : Request) : List Char := request.client.getD "unknown".toList

/-! ### `str.strip` -/

/-- `str.isspace` -/
def isSpace (c : Char) : Bool :=
  let n := c.toNat
  decide (9 ≤ n ∧ n ≤ 13) || decide (28 ≤ n ∧ n ≤ 32) || decide (0x2000 ≤ n ∧ n ≤ 0x200A) ||
    [0x85, 0xA0, 0x1680, 0x2028, 0x2029, 0x202F, 0x205F, 0x3000].contains n

def strip (text : List Char) : List Char := (text.dropWhile isSpace).rdropWhile isSpace

/-- The values of a header, which commas part. -/
def entries (header : List Char) : List (List Char) := (header.splitOn ',').map strip

/-! ### `resolve_client_ip` -/

inductive IpSource : Type where
  | direct
  | trustedXff
deriving DecidableEq, Repr

structure ClientIpInfo where
  clientIp : List Char
  proxyPeerIp : List Char
  ipSource : IpSource
deriving DecidableEq

/-- `_is_trusted`; a text that is no network trusts nobody. -/
def isTrusted (address : Address) (cidrs : List (List Char)) : Bool :=
  cidrs.any fun cidr => (ipNetwork cidr).any fun network => network.contains address

/-- `resolve_client_ip`, with `_parse_ip` for `ipAddress`. -/
def resolveClientIp (request : Request) (trustedProxyCidrs : List (List Char)) : ClientIpInfo :=
  let peer := request.peer
  let direct : ClientIpInfo := ⟨peer, peer, .direct⟩
  if (ipAddress peer).all fun address => !isTrusted address trustedProxyCidrs then direct
  else
    let forwarded := (request.header "x-forwarded-for".toList).getD []
    let values := entries forwarded
    if forwarded = [] ∨
        values.any (fun value => value.isEmpty || (ipAddress value).isNone) = true then
      direct
    else
      match values.reverse.find? fun value =>
          (ipAddress value).any fun address => !isTrusted address trustedProxyCidrs with
      | some value => ⟨value, peer, .trustedXff⟩
      | none => direct

example : resolveClientIp ⟨some "10.0.0.1".toList,
      [("x-forwarded-for".toList, "198.51.100.4, 10.0.0.2".toList)]⟩ ["10.0.0.0/8".toList] =
    ⟨"198.51.100.4".toList, "10.0.0.1".toList, .trustedXff⟩ := by decide

end ClientIp

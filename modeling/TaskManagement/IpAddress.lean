import Mathlib.Data.Int.Notation
import Mathlib.Data.Nat.Digits.Defs
import Mathlib.Tactic.Common

/-!
# Addresses and networks

The texts that Python's `ipaddress` accepts for addresses and networks, and the addresses that a
network contains.
-/

namespace IpAddress

/-! ### IPv4 -/

def isHexDigit (c : Char) : Bool :=
  c.isDigit || (decide ('a' ≤ c) && decide (c ≤ 'f')) || (decide ('A' ≤ c) && decide (c ≤ 'F'))

/-- The value of a hexadecimal digit. -/
def hexDigit (c : Char) : ℕ :=
  if c.isDigit then c.toNat - '0'.toNat
  else if c.isLower then c.toNat - 'a'.toNat + 10
  else c.toNat - 'A'.toNat + 10

/-- The number that digits stand for in a base. -/
def number (base : ℕ) (digits : List Char) : ℕ :=
  digits.foldl (fun n c => base * n + hexDigit c) 0

/-- `_parse_octet` -/
def parseOctet (octet : List Char) : Option ℕ :=
  if octet = [] ∨ octet.all Char.isDigit = false ∨ 3 < octet.length ∨
      octet ≠ ['0'] ∧ octet.head? = some '0' ∨ 255 < number 10 octet then
    none
  else some (number 10 octet)

/-- `IPv4Address._ip_int_from_string` -/
def ipv4OfString (address : List Char) : Option (BitVec 32) :=
  match address.splitOn '.' with
  | [a, b, c, d] => do
    let a ← parseOctet a
    let b ← parseOctet b
    let c ← parseOctet c
    let d ← parseOctet d
    return BitVec.ofNat 32 (((a * 256 + b) * 256 + c) * 256 + d)
  | _ => none

/-- `IPv4Address` -/
def parseIPv4 (address : List Char) : Option (BitVec 32) :=
  if address.contains '/' then none else ipv4OfString address

/-! ### IPv6 -/

/-- `_parse_hextet` -/
def parseHextet (hextet : List Char) : Option ℕ :=
  if hextet = [] ∨ hextet.all isHexDigit = false ∨ 4 < hextet.length then none
  else some (number 16 hextet)

/-- The parts of an address, with an IPv4 suffix in hexadecimal. -/
def convertSuffix (parts : List (List Char)) : Option (List (List Char)) :=
  match parts.getLast? with
  | none => some parts
  | some last =>
    if last.contains '.' then
      (parseIPv4 last).map fun ip =>
        parts.dropLast ++ [Nat.toDigits 16 (ip.toNat / 65536), Nat.toDigits 16 (ip.toNat % 65536)]
    else some parts

/-- The places of `::`, the endpoints left out. -/
def skips (parts : List (List Char)) : List ℕ :=
  (List.range parts.length).filter fun i =>
    decide (0 < i ∧ i + 1 < parts.length) && parts[i]? == some []

/-- The parts that a `::` at the place `i` leaves above and below it. -/
def around (parts : List (List Char)) (i : ℕ) : Option (ℕ × ℕ) :=
  let hi := if parts.head? = some [] then i - 1 else i
  let lo := if parts.getLast? = some [] then parts.length - i - 2 else parts.length - i - 1
  if parts.head? = some [] ∧ hi ≠ 0 ∨ parts.getLast? = some [] ∧ lo ≠ 0 ∨ 8 < hi + lo + 1 then none
  else some (hi, lo)

/-- The eight groups of an address. -/
def groups (parts : List (List Char)) : Option (List ℕ) :=
  match skips parts with
  | [] => if parts.length = 8 then parts.mapM parseHextet else none
  | [i] => do
    let (hi, lo) ← around parts i
    let above ← (parts.take hi).mapM parseHextet
    let below ← (parts.drop (parts.length - lo)).mapM parseHextet
    return above ++ List.replicate (8 - (hi + lo)) 0 ++ below
  | _ => none

/-- `IPv6Address._ip_int_from_string` -/
def ipv6OfString (address : List Char) : Option (BitVec 128) := do
  let parts := address.splitOn ':'
  if parts.length < 3 then none
  let parts ← convertSuffix parts
  if 9 < parts.length then none
  let groups ← groups parts
  return BitVec.ofNat 128 (groups.foldl (fun n g => 65536 * n + g) 0)

/-- `_split_scope_id` -/
def splitScopeId (address : List Char) : Option (List Char × Option (List Char)) :=
  match address.span (· ≠ '%') with
  | (address, []) => some (address, none)
  | (address, _ :: scopeId) =>
    if scopeId = [] ∨ scopeId.contains '%' = true then none else some (address, some scopeId)

/-- `IPv6Address` -/
def parseIPv6 (address : List Char) : Option (BitVec 128 × Option (List Char)) :=
  if address.contains '/' then none
  else do
    let (address, scopeId) ← splitScopeId address
    return (← ipv6OfString address, scopeId)

/-! ### Addresses -/

inductive Address : Type where
  | v4 (ip : BitVec 32)
  | v6 (ip : BitVec 128) (scopeId : Option (List Char))
deriving DecidableEq

/-- `ip_address`; `none` is a `ValueError`. -/
def ipAddress (address : List Char) : Option Address :=
  match parseIPv4 address with
  | some ip => some (.v4 ip)
  | none => (parseIPv6 address).map fun r => .v6 r.1 r.2

example : ipAddress "192.0.2.1".toList = some (.v4 0xC0000201) := by decide

example : ipAddress "2001:db8::c000:201%eth0".toList =
    some (.v6 0x20010DB80000000000000000C0000201 (some "eth0".toList)) := by decide

example : ipAddress "::ffff:192.0.2.1".toList = some (.v6 0xFFFFC0000201 none) := by decide

/-! ### Networks -/

/-- The address of a network, with the host bits off, and its netmask. -/
inductive Network : Type where
  | v4 (address netmask : BitVec 32)
  | v6 (address netmask : BitVec 128)
deriving DecidableEq

/-- `_ip_int_from_prefix`, in `width` bits. -/
def netmaskOfLength (width length : ℕ) : BitVec width :=
  BitVec.ofNat width (2 ^ width - 2 ^ (width - length))

/-- `_prefix_from_prefix_string`; `int` reads at most 4300 digits. -/
def parseLength (width : ℕ) (length : List Char) : Option ℕ :=
  if length = [] ∨ length.all Char.isDigit = false ∨ 4300 < length.length ∨
      width < number 10 length then
    none
  else some (number 10 length)

/-- `_prefix_from_ip_int` -/
def lengthOfNetmask (width : ℕ) (netmask : BitVec width) : Option ℕ :=
  (List.range (width + 1)).find? fun length => netmaskOfLength width length == netmask

/-- `_prefix_from_ip_string`: a netmask, else a hostmask. -/
def parseDottedMask (mask : List Char) : Option ℕ := do
  let mask ← ipv4OfString mask
  (lengthOfNetmask 32 mask).or (lengthOfNetmask 32 (~~~mask))

/-- `_split_addr_prefix`, with the length of a network of one address where none is given. -/
def splitNetwork (network : List Char) : Option (List Char × Option (List Char)) :=
  match network.splitOn '/' with
  | [address] => some (address, none)
  | [address, mask] => some (address, some mask)
  | _ => none

/-- `IPv4Network(..., strict=False)` -/
def parseIPv4Network (network : List Char) : Option Network := do
  let (address, mask) ← splitNetwork network
  let ip ← parseIPv4 address
  let length ← match mask with
    | none => some 32
    | some mask => (parseLength 32 mask).or (parseDottedMask mask)
  return .v4 (ip &&& netmaskOfLength 32 length) (netmaskOfLength 32 length)

/-- `IPv6Network(..., strict=False)` -/
def parseIPv6Network (network : List Char) : Option Network := do
  let (address, mask) ← splitNetwork network
  let (ip, _) ← parseIPv6 address
  let length ← match mask with
    | none => some 128
    | some mask => parseLength 128 mask
  return .v6 (ip &&& netmaskOfLength 128 length) (netmaskOfLength 128 length)

/-- `ip_network(..., strict=False)`; `none` is a `ValueError`. -/
def ipNetwork (network : List Char) : Option Network :=
  (parseIPv4Network network).or (parseIPv6Network network)

/-- `_BaseNetwork.__contains__` -/
def Network.contains : Network → Address → Bool
  | .v4 address netmask, .v4 ip => ip &&& netmask == address
  | .v6 address netmask, .v6 ip _ => ip &&& netmask == address
  | _, _ => false

example : ipNetwork "10.1.2.3/255.0.0.0".toList = some (.v4 0x0A000000 0xFF000000) := by decide

example : ipNetwork "2001:db8::1/32".toList =
    some (.v6 0x20010DB8000000000000000000000000 0xFFFFFFFF000000000000000000000000) := by decide

end IpAddress

import Sediment.Base.Decimals
import Sediment.Core.TextMethods

namespace Sediment.Core.Urls
open Sediment.Base Decimals TextMethods

/-- The Unicode tables of `str` and `unicodedata`. -/
class UnicodeText where
  lower : List Char → List Char
  nfkc : List Char → List Char

/-- `ipaddress.ip_address`; `none` stands for its `ValueError`. -/
class IpAddresses where
  Address : Type
  ipAddress : List Char → Option Address
  isIPv4 : Address → Bool
  isLoopback : Address → Bool
  /-- Whether the address is `IPv6Address("::1")`. -/
  isOne : Address → Bool

structure SplitResult where
  scheme : List Char
  netloc : List Char
  path : List Char
  query : List Char
  fragment : List Char
deriving DecidableEq

/-- A control character of ASCII or a blank. -/
def isControlOrSpace (c : Char) : Bool := c.toNat ≤ 32

def isLineOrTab (c : Char) : Bool := c == '\t' || c == '\r' || c == '\n'

def isSchemeChar (c : Char) : Bool := c.isAlphanum || c == '+' || c == '-' || c == '.'

def splitScheme (url : List Char) : List Char × List Char :=
  let name := before ':' url
  if ':' ∈ url ∧ name.head?.any Char.isAlpha ∧ name.all isSchemeChar then
    (name.map Char.toLower, behind ':' url)
  else ([], url)

def isDelimiter (c : Char) : Bool := c == '/' || c == '?' || c == '#'

/-- `_splitnetloc`, of what may start with two slashes. -/
def splitNetloc (url : List Char) : List Char × List Char :=
  match url with
  | '/' :: '/' :: rest => rest.span (fun c => !isDelimiter c)
  | url => ([], url)

def isHexDigit (c : Char) : Bool := c.isDigit || ('a' ≤ c && c ≤ 'f') || ('A' ≤ c && c ≤ 'F')

/-- `v[a-fA-F0-9]+\..+` -/
def isFutureAddress (host : List Char) : Bool :=
  match host with
  | 'v' :: rest =>
    let version := rest.takeWhile isHexDigit
    let behindVersion := rest.dropWhile isHexDigit
    version ≠ [] && behindVersion.head? == some '.' && behindVersion.tail ≠ [] &&
      !behindVersion.tail.contains '\n'
  | _ => false

section
variable [IpAddresses] [UnicodeText]
open IpAddresses UnicodeText

/-- `_check_bracketed_host` -/
def checkBracketedHost (host : List Char) : Bool :=
  if ['v'] <+: host then isFutureAddress host
  else (ipAddress host).any (fun address => !isIPv4 address)

/-- `_check_bracketed_netloc`, of a location with both brackets. -/
def checkBracketedNetloc (netloc : List Char) : Bool :=
  let hostAndPort := behindLast '@' netloc
  if '[' ∈ hostAndPort then
    let bracketed := behind '[' hostAndPort
    let port := behind ']' bracketed
    before '[' hostAndPort = [] && (port = [] || [':'] <+: port) &&
      checkBracketedHost (before ']' bracketed)
  else checkBracketedHost (before ':' hostAndPort)

def netlocMarks : List Char := ['@', ':', '#', '?']

/-- `_checknetloc` -/
def checkNetloc (netloc : List Char) : Bool :=
  if netloc.all (fun c => c.toNat < 128) then true
  else
    let kept := netloc.filter (fun c => !netlocMarks.contains c)
    kept == nfkc kept || (nfkc kept).all (fun c => !('/' :: netlocMarks).contains c)

/-- `none` stands for the `ValueError`. -/
def urlsplit (url : List Char) : Option SplitResult :=
  let url := (url.dropWhile isControlOrSpace).filter (fun c => !isLineOrTab c)
  let (scheme, url) := splitScheme url
  let (netloc, url) := splitNetloc url
  if (decide ('[' ∈ netloc) == decide (']' ∈ netloc)) &&
      (!decide ('[' ∈ netloc) || checkBracketedNetloc netloc) && checkNetloc netloc then
    let plain := before '#' url
    some { scheme, netloc, path := before '?' plain, query := behind '?' plain,
           fragment := behind '#' url }
  else none

/-- `_hostinfo`, with an empty text for no port. -/
def SplitResult.hostinfo (u : SplitResult) : List Char × List Char :=
  let hostinfo := behindLast '@' u.netloc
  if '[' ∈ hostinfo then
    let bracketed := behind '[' hostinfo
    (before ']' bracketed, behind ':' (behind ']' bracketed))
  else (before ':' hostinfo, behind ':' hostinfo)

/-- The zone of an address keeps its case. -/
def lowerHost (host : List Char) : List Char :=
  lower (before '%' host) ++ host.dropWhile (· ≠ '%')

def SplitResult.hostname (u : SplitResult) : Option (List Char) :=
  if u.hostinfo.1 = [] then none else some (lowerHost u.hostinfo.1)

/-- The outer `none` stands for the `ValueError`. -/
def SplitResult.port (u : SplitResult) : Option (Option Nat) :=
  let port := u.hostinfo.2
  if port = [] then some none
  else if port.all Char.isDigit then
    match asciiInt port with
    | some n => if n ≤ 65535 then some (some n) else none
    | none => none
  else none

/-- Whether `username` is not `None`. -/
def SplitResult.hasUsername (u : SplitResult) : Bool := u.netloc.contains '@'

/-- Whether `password` is not `None`. -/
def SplitResult.hasPassword (u : SplitResult) : Bool :=
  u.netloc.contains '@' && (u.netloc.reverse.dropWhile (· ≠ '@')).contains ':'

end
end Sediment.Core.Urls

import Sediment.Core.Urls

namespace Sediment.Cli.ServerUrls
open Sediment.Core TextMethods Urls

def isControl (c : Char) : Bool := c.toNat < 32 || c.toNat == 127

/-- `str.encode("idna").decode("ascii")`; `none` stands for a `UnicodeError`. -/
class Idna where
  encode : List Char → Option (List Char)

def withoutRootDot (host : List Char) : List Char :=
  if host.getLast? = some '.' then host.dropLast else host

/-- A label of an ASCII name. -/
def validLabel (label : List Char) : Bool :=
  label ≠ [] && label.length ≤ 63 && label.head?.any Char.isAlphanum &&
    label.getLast?.any Char.isAlphanum && label.all (fun c => c.isAlphanum || c == '-')

def validName (candidate : List Char) : Bool :=
  if '.' ∈ candidate ∧ candidate.all (fun c => c.isDigit || c == '.') then false
  else candidate ≠ [] && candidate.length ≤ 253 && (candidate.splitOn '.').all validLabel

def urlSchemes : List (List Char) := ["http".toList, "https".toList]

def localhost : List Char := "localhost".toList

section
variable [UnicodeText] [IpAddresses] [Idna]
open UnicodeText IpAddresses

/-- `is_loopback_host` -/
def isLoopbackHost (host : List Char) : Bool :=
  if lower host = localhost then true
  else
    match ipAddress host with
    | none => false
    | some address => isLoopback address && (isIPv4 address || isOne address)

/-- `_valid_host` -/
def validHost (host : List Char) : Bool :=
  match ipAddress host with
  | none =>
    match Idna.encode (withoutRootDot host) with
    | none => false
    | some candidate => validName candidate
  | some _ => true

/-- `validate_server_url`; `none` stands for the `ClientError`. -/
def validateServerUrl (url : List Char) : Option (List Char) :=
  if url.any isControl then none
  else
    let value := stripBlanks url
    match urlsplit value with
    | none => none
    | some parsed =>
      if parsed.port = none then none
      else
        match parsed.hostname with
        | none => none
        | some host =>
          if ¬urlSchemes.contains parsed.scheme ∨ host = [] ∨ ¬validHost host ∨
              parsed.hasUsername ∨
              parsed.hasPassword ∨ (parsed.path ≠ [] ∧ parsed.path ≠ ['/']) ∨
              '?' ∈ value ∨ '#' ∈ value ∨ parsed.netloc.getLast? = some ':' ∨
              (parsed.scheme = "http".toList ∧ ¬isLoopbackHost host) then none
          else some (if parsed.path = ['/'] then value.dropLast else value)

/-- `_valid_server_host` -/
def validServerHost (host : List Char) : Bool :=
  match ipAddress host with
  | none =>
    match Idna.encode (withoutRootDot host) with
    | none => false
    | some candidate => validName candidate
  | some _ => true

/-- `_safe_server_url` -/
def safeServerUrl (url : List Char) : Bool :=
  if url.any isControl then false
  else
    match urlsplit (stripBlanks url) with
    | none => false
    | some parsed =>
      if parsed.port = none then false
      else
        match parsed.hostname with
        | none => false
        | some host =>
          if ¬urlSchemes.contains parsed.scheme ∨ host = [] ∨ ¬validServerHost host ∨
              parsed.hasUsername ∨
              parsed.hasPassword ∨ (parsed.path ≠ [] ∧ parsed.path ≠ ['/']) ∨
              parsed.query ≠ [] ∨ parsed.fragment ≠ [] ∨ parsed.netloc.getLast? = some ':' then
            false
          else if parsed.scheme = "https".toList ∨ lower host = localhost then true
          else
            match ipAddress host with
            | none => false
            | some address => isLoopback address && (isIPv4 address || isOne address)

end
end Sediment.Cli.ServerUrls

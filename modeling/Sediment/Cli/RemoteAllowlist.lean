import Sediment.Core.TextMethods

namespace Sediment.Cli.RemoteAllowlist
open Sediment.Core.TextMethods

/-- `str.lower`, of which the matching asks nothing but that it invents no text. -/
class Lower where
  lower : List Char → List Char
  lower_nil : lower [] = []

def schemes : List (List Char) :=
  ["ssh://".toList, "git://".toList, "http://".toList, "https://".toList]

/-- A known scheme comes off; without one, an scp-like remote gets its slash. -/
def stripScheme (url : List Char) : List Char :=
  match schemes.find? (fun scheme => decide (scheme <+: url)) with
  | some scheme => url.drop scheme.length
  | none => if '@' ∈ before '/' url ∧ ':' ∈ url then replaceFirst ':' '/' url else url

def gitSuffix : List Char := ".git".toList

variable [Lower]

/-- `_normalize_remote` -/
def normalizeRemote (url : List Char) : List Char :=
  let url := stripScheme (Lower.lower (stripBlanks url))
  let host := behindLast '@' (before '/' url)
  let url := removeSuffix gitSuffix (host ++ '/' :: behind '/' url)
  url.rdropWhile (· = '/') ++ ['/']

/-- `_remote_allowlisted`, from what git says of the origin. -/
def remoteAllowlisted (origin : Option (List Char)) (remotes : List (List Char)) : Bool :=
  let url := origin.getD []
  if url = [] then false
  else remotes.any (fun remote => decide (normalizeRemote remote <+: normalizeRemote url))

end Sediment.Cli.RemoteAllowlist

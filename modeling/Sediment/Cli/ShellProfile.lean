import Sediment.Base.TextFiles

namespace Sediment.Cli.ShellProfile
open Sediment.Base Blocks TextFiles

def beginTail : List Char := " >>> sediment env >>>".toList
def endTail : List Char := " <<< sediment env <<<".toList

theorem hash_not_mem_beginTail : '#' ∉ beginTail := by decide
theorem hash_not_mem_endTail : '#' ∉ endTail := by decide

def envBlockBegin : Mark Char := ⟨'#', beginTail, hash_not_mem_beginTail⟩
def envBlockEnd : Mark Char := ⟨'#', endTail, hash_not_mem_endTail⟩

/-- The pattern of `_unwire_env`, with the blank line that `_wire_profiles` prepends. -/
def pattern : Fence Char := ⟨envBlockBegin, envBlockEnd, '\n', true⟩

def body : List Char :=
  "\n[ -f \"$HOME/.sediment/env.sh\" ] && . \"$HOME/.sediment/env.sh\"\n".toList

def block : List Char := '\n' :: pattern.block body

/-- `_PROFILE_NAMES` -/
inductive ProfileName where
  | zprofile | bashrc | profile
  deriving DecidableEq, Repr

def profileNames : List ProfileName := [.zprofile, .bashrc, .profile]

/-- The files under the home directory that the wiring reads and writes. -/
structure Home where
  profile : ProfileName → Option (List Char)
  shEnvFile : Option (List Char)
  fishEnvFile : Option (List Char)

/-- One target of `_wire_profiles`. -/
def wireTarget (file : Option (List Char)) : Option (List Char) :=
  let content := (file.map universalNewlines).getD []
  if envBlockBegin.text <:+: content then file else some (content ++ block)

def wireTargets (home : Home) : List ProfileName :=
  let targets := profileNames.filter (fun name => (home.profile name).isSome)
  if targets = [] then [.zprofile, .profile] else targets

/-- `_wire_profiles` -/
def wireProfiles (home : Home) : Home × List ProfileName :=
  let targets := wireTargets home
  ({ home with profile := fun name =>
      if targets.contains name then wireTarget (home.profile name) else home.profile name },
    targets)

/-- What `_unwire_env` reports as removed. -/
inductive Removed where
  | shEnvFile | fishEnvFile
  | envBlock (name : ProfileName)
  deriving DecidableEq, Repr

def stripped (file : List Char) : List Char := pattern.replace [] (universalNewlines file)

/-- A profile is written only when a block was stripped from it. -/
def unwireProfile (file : List Char) : List Char :=
  if stripped file ≠ universalNewlines file then stripped file else file

/-- `_unwire_env` -/
def unwireEnv (home : Home) : Home × List Removed :=
  ({ profile := fun name => (home.profile name).map unwireProfile
     shEnvFile := none
     fishEnvFile := none },
    home.shEnvFile.toList.map (fun _ => .shEnvFile) ++
      home.fishEnvFile.toList.map (fun _ => .fishEnvFile) ++
      (profileNames.filter (fun name => (home.profile name).any (fun file =>
        stripped file ≠ universalNewlines file))).map .envBlock)

end Sediment.Cli.ShellProfile

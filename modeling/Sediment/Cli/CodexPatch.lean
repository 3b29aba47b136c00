import Sediment.Derive.Diff

namespace Sediment.Cli.CodexPatch
open Base.Lines Base.Decimals
open Derive.Diff (startsWith hunkHeader HunkHeader noNewline joined)

/-- The `ValueError` of `int`. -/
inductive IntError where
  | tooLong
  deriving DecidableEq, Repr

structure Scan where
  remainingOld : Nat := 0
  remainingNew : Nat := 0
  sawHunk : Bool := false
  additions : List (List Char) := []
  deriving DecidableEq

def fileStarts : List String := ["diff --git ", "index ", "--- ", "+++ "]

section
variable (table : DigitTable) (total : Nat)

/-- The counts of a header. No hunk has more lines than the patch. -/
def enter (s : Scan) (header : HunkHeader) : Except IntError (Option Scan) :=
  if s.remainingOld ≠ 0 ∨ s.remainingNew ≠ 0 then .ok none
  else
    let old := stripZeros (header.oldCount.getD ['1'])
    let new := stripZeros (header.newCount.getD ['1'])
    if width total < old.length ∨ width total < new.length then .ok none
    else match table.int (if old = [] then ['0'] else old),
        table.int (if new = [] then ['0'] else new) with
      | some remainingOld, some remainingNew =>
        if total < max remainingOld remainingNew then .ok none
        else .ok (some { s with remainingOld, remainingNew, sawHunk := true })
      | _, _ => .error .tooLong

def body (s : Scan) (line : List Char) : Option Scan :=
  match line with
  | '+' :: content =>
    if s.remainingNew ≠ 0 then some { s with
      remainingNew := s.remainingNew - 1
      additions := s.additions ++ [content] }
    else none
  | '-' :: _ =>
    if s.remainingOld ≠ 0 then some { s with remainingOld := s.remainingOld - 1 } else none
  | ' ' :: _ =>
    if s.remainingOld ≠ 0 ∧ s.remainingNew ≠ 0 then some { s with
      remainingOld := s.remainingOld - 1
      remainingNew := s.remainingNew - 1 }
    else none
  | _ => none

def step (s : Scan) (line : List Char) : Except IntError (Option Scan) :=
  match hunkHeader table.isDigit line with
  | some header => enter table total s header
  | none =>
    if !s.sawHunk && fileStarts.any (startsWith line) then .ok (some s)
    else if line = noNewline ∧ s.sawHunk then .ok (some s)
    else if !s.sawHunk || line.isEmpty then .ok none
    else .ok (body s line)

def run (s : Scan) : List (List Char) → Except IntError (Option Scan)
  | [] => .ok (some s)
  | line :: rest =>
    match step table total s line with
    | .ok (some s) => run s rest
    | outcome => outcome

end

/-- `_codex_added_text` -/
def codexAddedText (table : DigitTable) (unifiedDiff : List Char) :
    Except IntError (Option (List Char)) :=
  let lines := popped unifiedDiff
  match run table lines.length {} lines with
  | .error e => .error e
  | .ok none => .ok none
  | .ok (some s) =>
    if s.sawHunk ∧ s.remainingOld = 0 ∧ s.remainingNew = 0 then .ok (some (joined s.additions))
    else .ok none

end Sediment.Cli.CodexPatch

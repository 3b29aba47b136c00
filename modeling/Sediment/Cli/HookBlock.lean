import Sediment.Base.Lines
import Sediment.Base.TextFiles
import Sediment.Core.TextMethods

namespace Sediment.Cli.HookBlock
open Sediment.Base Blocks TextFiles Sediment.Core.TextMethods

def beginTail : List Char := " >>> sediment-attribution >>>".toList
def endTail : List Char := " <<< sediment-attribution <<<".toList

theorem hash_not_mem_beginTail : '#' ∉ beginTail := by decide
theorem hash_not_mem_endTail : '#' ∉ endTail := by decide

def hookBlockBegin : Mark Char := ⟨'#', beginTail, hash_not_mem_beginTail⟩
def hookBlockEnd : Mark Char := ⟨'#', endTail, hash_not_mem_endTail⟩

/-- `_HOOK_BLOCK_RE` -/
def hookBlockRe : Fence Char := ⟨hookBlockBegin, hookBlockEnd, '\n', false⟩

def bodyHead : List Char := "\n(\n    __sediment_status=$?\n    ".toList

def bodyTail : List Char := "\n    exit \"$__sediment_status\"\n) && :\n".toList

/-- What stands between the marks. -/
def body (command : List Char) : List Char := bodyHead ++ command ++ bodyTail

def block (command : List Char) : List Char := hookBlockRe.block (body command)

def posixShells : List (List Char) :=
  ["sh".toList, "bash".toList, "dash".toList, "ash".toList, "ksh".toList, "zsh".toList]

/-- `Path(path).name` -/
def pathName (path : List Char) : List Char :=
  ((path.splitOn '/').filter (fun part => part ≠ [] ∧ part ≠ ['.'])).getLastD []

/-- `_sh_compatible` -/
def shCompatible (content : List Char) : Bool :=
  let first := (Lines.splitlines [] content).headD []
  if ¬ ['#', '!'] <+: first then true
  else
    match words (stripBlanks (first.drop 2)) with
    | [] => false
    | program :: arguments =>
      let interpreter := pathName program
      let interpreter :=
        if interpreter = "env".toList then
          -- env flags are skipped
          match arguments.filter (fun argument => ¬ ['-'] <+: argument) with
          | [] => []
          | argument :: _ => pathName argument
        else interpreter
      posixShells.contains interpreter

def shebang : List Char := "#!/bin/sh\n".toList

/-- `_install_hook_block`: whether the hook was written, and the hook file. -/
def installHookBlock (hookFile : Option (List Char)) (command : List Char) :
    Bool × Option (List Char) :=
  match hookFile with
  | none => (true, some (shebang ++ block command))
  | some file =>
    let content := universalNewlines file
    if ¬ shCompatible content then (false, hookFile)
    else if (hookBlockRe.split content).isSome then
      (true, some (hookBlockRe.replace (block command) content))
    else
      let content :=
        if content ≠ [] ∧ content.getLast? ≠ some '\n' then content ++ ['\n'] else content
      (true, some (content ++ block command))

/-- `_remove_hook_block` -/
def removeHookBlock (hookFile : Option (List Char)) : Option (List Char) :=
  hookFile.map (fun file => hookBlockRe.replace [] (universalNewlines file))

/-- A user writes the text before and behind the block, or the whole hook without one. -/
def editOutside (before after : List Char) (hookFile : Option (List Char)) : List Char :=
  let file := hookFile.getD []
  match hookBlockRe.split file with
  | none => before ++ after
  | some sides =>
    let marked := (file.drop sides.1.length).take
      (file.length - sides.1.length - sides.2.length)
    before ++ marked ++ after

inductive HookOp where
  | install (command : List Char)
  | remove
  | edit (before after : List Char)

def HookOp.apply (hookFile : Option (List Char)) : HookOp → Option (List Char)
  | .install command => (installHookBlock hookFile command).2
  | .remove => removeHookBlock hookFile
  | .edit before after => some (editOutside before after hookFile)

/-- A hook as its user sees it: the text around the block, and the command in it. -/
structure HookView where
  before : List Char
  command : Option (List Char)
  after : List Char

def HookView.text (view : HookView) : List Char :=
  view.before ++ (view.command.elim [] block) ++ view.after

def HookView.outside (view : HookView) : List Char := view.before ++ view.after

/-- A text with its last line ended. -/
def ended (text : List Char) : List Char :=
  if text ≠ [] ∧ text.getLast? ≠ some '\n' then text ++ ['\n'] else text

/-- An install puts its command where the last one was, or behind a text that it ends; a remove
leaves the text outside the block. -/
def HookView.step (view : Option HookView) : HookOp → Option HookView
  | .install command =>
    match view with
    | none => some ⟨shebang, some command, []⟩
    | some view =>
      if shCompatible (universalNewlines view.text) then
        match view.command with
        | none => some ⟨ended view.outside, some command, []⟩
        | some _ => some { view with command := some command }
      else some view
  | .remove => view.map (fun view => ⟨view.outside, none, []⟩)
  | .edit before after => some ⟨before, view.bind (·.command), after⟩

end Sediment.Cli.HookBlock

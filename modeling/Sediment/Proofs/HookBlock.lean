import Sediment.Cli.HookBlock

namespace Sediment.Proofs.HookBlock
open Sediment.Base Blocks TextFiles Sediment.Cli.HookBlock

theorem newline_not_mem_begin : '\n' ∉ hookBlockBegin.text := by decide

theorem newline_not_mem_end : '\n' ∉ hookBlockEnd.text := by decide

theorem end_not_mem_bodyHead : hookBlockEnd.head ∉ bodyHead := by decide

/-- A command without the end mark makes a block with one end mark. -/
theorem body_free {command : List Char} (h : hookBlockEnd.Free command) :
    hookBlockEnd.Free (body command) := by
  have htail : bodyTail = '\n' :: bodyTail.tail := by decide
  have hcommand : hookBlockEnd.Free (command ++ '\n' :: bodyTail.tail) :=
    Mark.free_append newline_not_mem_end h (Mark.free_of_head (by decide))
  rw [body, List.append_assoc, htail]
  exact Mark.free_skip end_not_mem_bodyHead hcommand

/-- What holds of a hook at every time: its marks are those of its block, and its lines end in
newlines. -/
structure Tidy (view : HookView) : Prop where
  opens : hookBlockBegin.Free view.outside
  closes : ∀ command, view.command = some command → hookBlockEnd.Free command
  read : '\r' ∉ view.outside

/-- A hook of its user's, an edit or a command that has none of the marks. -/
def Fair : HookOp → Prop
  | .install command => hookBlockEnd.Free command
  | .remove => True
  | .edit before after => hookBlockBegin.Free (before ++ after) ∧ '\r' ∉ before ++ after

section
variable {before after command : List Char}

end

theorem ended_eq (text : List Char) :
    Cli.HookBlock.ended text =
      if text ≠ [] ∧ text.getLast? ≠ some '\n' then text ++ ['\n'] else text := rfl

theorem mem_ended {text : List Char} {c : Char} (h : c ∈ Cli.HookBlock.ended text) :
    c = '\n' ∨ c ∈ text := by
  rw [ended_eq] at h
  split at h
  · rw [List.mem_append, List.mem_singleton] at h
    exact h.symm
  · exact Or.inr h

theorem free_ended {text : List Char} (h : hookBlockBegin.Free text) :
    hookBlockBegin.Free (Cli.HookBlock.ended text) := by
  rw [ended_eq]
  split
  · exact Mark.free_append newline_not_mem_begin h
      (fun hin => hookBlockBegin.text_ne_nil (List.infix_nil.mp hin))
  · exact h

theorem tidy_plain {text : List Char} (hopens : hookBlockBegin.Free text) (hread : '\r' ∉ text) :
    Tidy ⟨text, none, []⟩ := by
  refine ⟨?_, ?_, ?_⟩
  · simpa [HookView.outside] using hopens
  · intro command h
    cases h
  · simpa [HookView.outside] using hread

theorem tidy_install {view : HookView} (ht : Tidy view) {command : List Char}
    (hc : hookBlockEnd.Free command) {next : HookView}
    (h : HookView.step (some view) (.install command) = some next) : Tidy next := by
  unfold HookView.step at h
  dsimp only at h
  split at h
  · cases hcommand : view.command with
    | none =>
      rw [hcommand] at h
      cases h
      refine ⟨?_, ?_, ?_⟩
      · simpa [HookView.outside] using free_ended ht.opens
      · rintro last hlast
        cases hlast
        exact hc
      · simp only [HookView.outside, List.append_nil]
        intro hin
        obtain hin | hin := mem_ended hin
        · cases hin
        · exact ht.read hin
    | some last =>
      rw [hcommand] at h
      cases h
      refine ⟨ht.opens, ?_, ht.read⟩
      rintro last hlast
      cases hlast
      exact hc
  · cases h
    exact ht

theorem shebang_free : hookBlockBegin.Free (shebang ++ []) := by
  unfold Mark.Free
  decide

theorem shebang_read : '\r' ∉ shebang ++ [] := by decide

theorem step_tidy {view : Option HookView} (ht : ∀ v, view = some v → Tidy v) {op : HookOp}
    (hop : Fair op) : ∀ v, HookView.step view op = some v → Tidy v := by
  intro next h
  cases op with
  | install command =>
    cases view with
    | none =>
      cases h
      refine ⟨shebang_free, ?_, shebang_read⟩
      intro last hlast
      cases hlast
      exact hop
    | some view => exact tidy_install (ht view rfl) hop h
  | remove =>
    cases view with
    | none => cases h
    | some view =>
      cases h
      exact tidy_plain (ht view rfl).opens (ht view rfl).read
  | edit before after =>
    cases h
    refine ⟨hop.1, ?_, hop.2⟩
    intro last hlast
    cases view with
    | none => cases hlast
    | some view => exact (ht view rfl).closes last hlast

def run (hookFile : Option (List Char)) (ops : List HookOp) : Option (List Char) :=
  ops.foldl HookOp.apply hookFile

/-- The text that an install leaves around its block. -/
def kept : Option HookView → List Char
  | none => shebang
  | some view => if view.command.isSome then view.outside else Cli.HookBlock.ended view.outside

section
variable {front back : List Char}

end

end Sediment.Proofs.HookBlock

import Sediment.Base.Lines
import Sediment.Cli.ShellProfile

namespace Sediment.Proofs.ShellProfile
open Sediment.Base Blocks TextFiles Lines Sediment.Cli.ShellProfile

theorem framed_head {line text first : List Char} {rest : List (List Char)}
    (h : framed line text = first :: rest) : line <+: first := by
  induction text generalizing line with
  | nil =>
    rw [framed] at h
    split at h
    · cases h
    · exact (List.cons.inj h).1 ▸ List.prefix_rfl
  | cons c text ih =>
    rw [framed] at h
    split at h
    · exact (List.cons.inj h).1 ▸ List.prefix_append _ _
    · exact (List.prefix_append line [c]).trans (ih h)

theorem framed_pending {tail : List Char} (h : '\n' ∉ tail) (line back : List Char) :
    framed line (tail ++ back) = framed (line ++ tail) back := by
  induction tail generalizing line with
  | nil => simp
  | cons c tail ih =>
    rw [List.mem_cons, not_or] at h
    rw [List.cons_append, framed, if_neg (Ne.symm h.1), ih h.2]
    simp

/-- A text behind a last line without an end joins that line. -/
theorem framed_joined {tail back : List Char} (hback : back ≠ []) :
    framed tail back ≠ tail :: framed [] back := by
  intro h
  cases back with
  | nil => exact hback rfl
  | cons c back =>
    rw [framed] at h
    split at h
    · have hlen := congrArg List.length (List.cons.inj h).1
      simp at hlen
    · have hlen := (framed_head h).length_le
      simp at hlen

/-- Two texts keep their lines exactly where the first one ends its last line. -/
theorem framed_append (front back : List Char) :
    framed [] (front ++ back) = framed [] front ++ framed [] back ↔
      front = [] ∨ front.getLast? = some '\n' ∨ back = [] := by
  induction front using line_induction with
  | last tail hfree =>
    rw [framed_last hfree, framed_pending hfree, List.nil_append]
    by_cases htail : tail = []
    · simp [htail]
    · have hlast : tail.getLast? ≠ some '\n' := fun h => hfree (List.mem_of_getLast? h)
      rw [if_neg htail, List.singleton_append]
      constructor
      · intro h
        by_contra hne
        simp only [htail, hlast, false_or] at hne
        exact framed_joined hne h
      · rintro (h | h | rfl)
        · exact absurd h htail
        · exact absurd h hlast
        · simp [framed, htail]
  | step line rest hfree ih =>
    have hlast : (line ++ '\n' :: rest).getLast? = some '\n' ↔
        rest = [] ∨ rest.getLast? = some '\n' := by
      cases rest with
      | nil => simp
      | cons c rest => simp
    rw [List.append_assoc, List.cons_append, framed_line hfree, framed_line hfree,
      List.cons_append, List.cons.injEq, hlast]
    simp [ih, or_assoc]

theorem newline_not_mem_begin : '\n' ∉ envBlockBegin.text := by decide

theorem begin_free_nil : envBlockBegin.Free [] := by
  intro h
  exact envBlockBegin.text_ne_nil (List.infix_nil.mp h)

theorem body_free : envBlockEnd.Free body := by
  unfold Mark.Free
  decide

theorem cr_not_mem_block : '\r' ∉ block := by decide

theorem begin_infix_block (text : List Char) : envBlockBegin.text <:+: text ++ block := by
  refine ⟨text ++ ['\n'], body ++ (envBlockEnd.text ++ ['\n']), ?_⟩
  simp [block, Fence.block, pattern]

theorem universalNewlines_append_block {front back : List Char} (hf : '\r' ∉ front)
    (hb : '\r' ∉ back) : universalNewlines (front ++ block ++ back) = front ++ block ++ back := by
  apply universalNewlines_of_not_mem
  simp only [List.mem_append, not_or]
  exact ⟨⟨hf, cr_not_mem_block⟩, hb⟩

/-- Without carriage returns, a wired profile is its two sides again. -/
theorem unwireProfile_block {front back : List Char} (hf : '\r' ∉ front) (hb : '\r' ∉ back)
    (hfront : envBlockBegin.Free front) (hback : envBlockBegin.Free back) :
    unwireProfile (front ++ block ++ back) = front ++ back := by
  have hfree : envBlockBegin.Free (front ++ ['\n']) :=
    Mark.free_append newline_not_mem_begin hfront begin_free_nil
  have hblock : front ++ block ++ back = (front ++ ['\n']) ++ pattern.block body ++ back := by
    simp [block]
  have hstripped : stripped (front ++ block ++ back) = front ++ back := by
    rw [stripped, universalNewlines_append_block hf hb, hblock,
      Fence.replace_block hfree body_free hback]
    simp [pattern]
  rw [unwireProfile, hstripped, universalNewlines_append_block hf hb, if_pos]
  intro heq
  have hlen := congrArg List.length heq
  simp [block] at hlen
  omega

/-- What is left of a profile has no carriage return, or is the profile. -/
theorem cr_not_mem_unwireProfile (file : List Char) :
    unwireProfile file = file ∨ '\r' ∉ unwireProfile file := by
  unfold unwireProfile
  split
  · right
    intro hin
    obtain hin | hin := Fence.mem_replace hin
    · cases hin
    · exact cr_not_mem_universalNewlines file hin
  · exact Or.inl rfl

/-- What a user adds to a wired profile: in front, before the block and behind it. -/
structure Edit where
  front : List Char
  gap : List Char
  back : List Char

def Edit.before (e : Edit) (text : List Char) : List Char := e.front ++ text ++ e.gap

/-- The user's own text of an edited profile that held `text`. -/
def Edit.own (e : Edit) (text : List Char) : List Char := e.before text ++ e.back

/-- The edit of a profile that ends with the block. -/
def Edit.apply (e : Edit) (wired : List Char) : List Char :=
  e.before (wired.take (wired.length - block.length)) ++ block ++ e.back

theorem Edit.apply_block (e : Edit) (text : List Char) :
    e.apply (text ++ block) = e.before text ++ block ++ e.back := by
  simp [Edit.apply]

theorem wireTarget_eq (file : Option (List Char)) :
    wireTarget file = file ∧ (∃ text, file = some text ∧
      envBlockBegin.text <:+: universalNewlines text) ∨
    wireTarget file = some (universalNewlines (file.getD []) ++ block) := by
  cases file with
  | none =>
    right
    have hread : ((none : Option (List Char)).map universalNewlines).getD [] = [] := rfl
    rw [wireTarget, hread, if_neg begin_free_nil]
    rfl
  | some text =>
    by_cases hwired : envBlockBegin.text <:+: universalNewlines text
    · exact Or.inl ⟨if_pos hwired, text, rfl, hwired⟩
    · exact Or.inr (if_neg hwired)

theorem wireTarget_free {file : Option (List Char)} (h : envBlockBegin.Free (file.getD [])) :
    wireTarget file = some (universalNewlines (file.getD []) ++ block) := by
  obtain ⟨-, text, rfl, hwired⟩ | hwired := wireTarget_eq file
  · exact absurd hwired (free_universalNewlines newline_not_mem_begin h)
  · exact hwired

theorem wireTarget_wireTarget (file : Option (List Char)) :
    wireTarget (wireTarget file) = wireTarget file := by
  obtain ⟨hsame, -⟩ | hwired := wireTarget_eq file
  · rw [hsame, hsame]
  · have hread : universalNewlines (universalNewlines (file.getD []) ++ block) =
        universalNewlines (file.getD []) ++ block := by
      apply universalNewlines_of_not_mem
      rw [List.mem_append, not_or]
      exact ⟨cr_not_mem_universalNewlines _, cr_not_mem_block⟩
    rw [hwired, wireTarget, if_pos]
    change envBlockBegin.text <:+: universalNewlines _
    rw [hread]
    exact begin_infix_block _

theorem mem_profileNames (name : ProfileName) : name ∈ profileNames := by
  cases name <;> decide

theorem wireTargets_ne_nil (home : Home) : wireTargets home ≠ [] := by
  unfold wireTargets
  dsimp only
  split
  · decide
  · assumption

/-- A profile that exists is a target. -/
theorem mem_wireTargets {home : Home} {name : ProfileName}
    (h : (home.profile name).isSome) : name ∈ wireTargets home := by
  have hin : name ∈ profileNames.filter (fun name => (home.profile name).isSome) :=
    List.mem_filter.mpr ⟨mem_profileNames name, h⟩
  unfold wireTargets
  dsimp only
  rw [if_neg (List.ne_nil_of_mem hin)]
  exact hin

theorem wired_profile {home : Home} {name : ProfileName} (h : name ∈ wireTargets home) :
    (wireProfiles home).1.profile name = wireTarget (home.profile name) :=
  if_pos (List.contains_iff_mem.mpr h)

theorem unwired_profile {home : Home} {name : ProfileName} (h : name ∉ wireTargets home) :
    (wireProfiles home).1.profile name = home.profile name :=
  if_neg (fun hin => h (List.contains_iff_mem.mp hin))

theorem wireTarget_isSome (file : Option (List Char)) : (wireTarget file).isSome := by
  obtain ⟨hsame, text, rfl, -⟩ | hwired := wireTarget_eq file
  · rw [hsame]
    rfl
  · rw [hwired]
    rfl

/-- Once wired, a home has no targets that it had not. -/
theorem wireTargets_wired {home : Home} {name : ProfileName}
    (h : name ∈ wireTargets (wireProfiles home).1) : name ∈ wireTargets home := by
  obtain ⟨target, htarget⟩ := List.exists_mem_of_ne_nil _ (wireTargets_ne_nil home)
  have hsome : ((wireProfiles home).1.profile target).isSome := by
    rw [wired_profile htarget]
    exact wireTarget_isSome _
  have hexists : (profileNames.filter
      (fun name => ((wireProfiles home).1.profile name).isSome)) ≠ [] :=
    List.ne_nil_of_mem (List.mem_filter.mpr ⟨mem_profileNames target, hsome⟩)
  unfold wireTargets at h
  dsimp only at h
  rw [if_neg hexists, List.mem_filter] at h
  by_contra hnew
  rw [unwired_profile hnew] at h
  exact hnew (mem_wireTargets h.2)

theorem wireProfiles_wired (home : Home) :
    (wireProfiles (wireProfiles home).1).1 = (wireProfiles home).1 := by
  have hprofile : ∀ name, (wireProfiles (wireProfiles home).1).1.profile name =
      (wireProfiles home).1.profile name := by
    intro name
    by_cases hagain : name ∈ wireTargets (wireProfiles home).1
    · rw [wired_profile hagain, wired_profile (wireTargets_wired hagain), wireTarget_wireTarget]
    · exact unwired_profile hagain
  exact congrArg (fun profile => ({ home with profile } : Home)) (funext hprofile)

def original (home : Home) (name : ProfileName) : List Char := (home.profile name).getD []

/-- A wired home whose user edited the wired profiles. -/
def edited (home : Home) (edits : ProfileName → Edit) : Home :=
  { (wireProfiles home).1 with profile := fun name =>
      ((wireProfiles home).1.profile name).map (fun file =>
        if (wireTargets home).contains name then (edits name).apply file else file) }

/-- Unwiring gives a profile back as its user wrote it, before and after edits that keep every
line apart from the others, and wiring a second time does nothing. -/
def Restores (home : Home) (edits : ProfileName → Edit) (name : ProfileName) : Prop :=
  let text := original home name
  let edit := edits name
  (wireProfiles (wireProfiles home).1).1 = (wireProfiles home).1 ∧
  (unwireEnv (wireProfiles home).1).1.profile name = some text ∧
  (unwireEnv (edited home edits)).1.profile name = some (edit.own text) ∧
  framed [] (edit.own text) = framed [] (edit.before text) ++ framed [] edit.back

section
variable {home : Home} {edits : ProfileName → Edit} {name : ProfileName}

theorem free_original (h : envBlockBegin.Free ((edits name).before (original home name))) :
    envBlockBegin.Free (original home name) :=
  Mark.Free.right (Mark.Free.left h)

/-- The wired profile, read and unwired. -/
theorem unwire_wired (hn : name ∈ wireTargets home)
    (h : envBlockBegin.Free (original home name)) :
    (unwireEnv (wireProfiles home).1).1.profile name =
      some (universalNewlines (original home name)) := by
  have hfree := free_universalNewlines newline_not_mem_begin h
  have hblock := unwireProfile_block (cr_not_mem_universalNewlines (original home name))
    (List.not_mem_nil) hfree begin_free_nil
  change ((wireProfiles home).1.profile name).map unwireProfile = _
  rw [wired_profile hn, wireTarget_free h, Option.map_some]
  rw [List.append_nil, List.append_nil] at hblock
  exact congrArg some hblock

theorem edited_profile (hn : name ∈ wireTargets home)
    (h : envBlockBegin.Free (original home name)) (hcr : '\r' ∉ original home name) :
    (edited home edits).profile name =
      some ((edits name).before (original home name) ++ block ++ (edits name).back) := by
  change ((wireProfiles home).1.profile name).map _ = _
  rw [wired_profile hn, wireTarget_free h, Option.map_some, if_pos (List.contains_iff_mem.mpr hn)]
  change some ((edits name).apply (universalNewlines (original home name) ++ block)) = _
  rw [universalNewlines_of_not_mem hcr, Edit.apply_block]

end

/-- Unwiring restores a profile exactly when its user's text has no carriage return and no line
that runs from before the block to behind it. -/
theorem unwire_restores_iff (home : Home) (edits : ProfileName → Edit) (name : ProfileName)
    (hn : name ∈ (wireProfiles home).2)
    (hbefore : envBlockBegin.Free ((edits name).before (original home name)))
    (hback : envBlockBegin.Free (edits name).back) :
    Restores home edits name ↔
      '\r' ∉ (edits name).own (original home name) ∧
      ((edits name).before (original home name) = [] ∨
        ((edits name).before (original home name)).getLast? = some '\n' ∨
        (edits name).back = []) := by
  have hfree := free_original hbefore
  unfold Restores
  dsimp only
  rw [unwire_wired hn hfree]
  constructor
  · rintro ⟨-, hwired, hedited, hlines⟩
    have hcr := universalNewlines_eq_self.mp (Option.some.inj hwired)
    refine ⟨?_, (framed_append _ _).mp hlines⟩
    intro hin
    change ((edited home edits).profile name).map unwireProfile = _ at hedited
    rw [edited_profile hn hfree hcr, Option.map_some, Option.some.injEq] at hedited
    obtain hsame | hclean := cr_not_mem_unwireProfile
      ((edits name).before (original home name) ++ block ++ (edits name).back)
    · rw [hsame] at hedited
      have hlen := congrArg List.length hedited
      simp [block, Edit.own] at hlen
      omega
    · rw [hedited] at hclean
      exact hclean hin
  · rintro ⟨hcr, hapart⟩
    have hsides : '\r' ∉ (edits name).before (original home name) ∧
        '\r' ∉ (edits name).back := by
      rw [Edit.own, List.mem_append, not_or] at hcr
      exact hcr
    have horiginal : '\r' ∉ original home name := by
      have hin := hsides.1
      simp only [Edit.before, List.mem_append, not_or] at hin
      exact hin.1.2
    refine ⟨wireProfiles_wired home, ?_, ?_, (framed_append _ _).mpr hapart⟩
    · rw [universalNewlines_of_not_mem horiginal]
    · change ((edited home edits).profile name).map unwireProfile = _
      rw [edited_profile hn hfree horiginal, Option.map_some,
        unwireProfile_block hsides.1 hsides.2 hbefore hback]
      rfl

def unended : Home where
  profile
    | .zprofile => some "export A=1".toList
    | .bashrc => none
    | .profile => none
  shEnvFile := none
  fishEnvFile := none

/-- One more line behind the block. -/
def appended : Edit := ⟨[], [], "export B=2\n".toList⟩

/-- Lines at the top, in front of the block and behind it; the last line gets its end. -/
def extended : Edit :=
  ⟨"umask 022\n".toList, "\nexport C=3\n".toList, "export B=2\n".toList⟩

theorem unended_restored : Restores unended (fun _ => extended) .zprofile := by
  apply (unwire_restores_iff unended (fun _ => extended) .zprofile (by decide)
    (by unfold Mark.Free; decide +kernel) (by unfold Mark.Free; decide +kernel)).mpr
  decide +kernel

/-- The line behind the block joins the last line before it. -/
theorem appended_joined : ¬ Restores unended (fun _ => appended) .zprofile := by
  rintro ⟨-, -, -, hlines⟩
  revert hlines
  decide

end Sediment.Proofs.ShellProfile

import Sediment.Cli.CodexPatch

namespace Sediment.Proofs.CodexPatch
open Sediment.Base.Lines Sediment.Base.Decimals Sediment.Derive.Diff
open Sediment.Cli.CodexPatch (codexAddedText Scan)

section
variable (table : DigitTable)

/-- A wider class takes the same characters where the next one is in neither. -/
theorem span_ascii (text : List Char) (h : ∀ c, (text.dropWhile Char.isDigit).head? = some c →
    table.isDigit c = false) :
    text.takeWhile table.isDigit = text.takeWhile Char.isDigit ∧
      text.dropWhile table.isDigit = text.dropWhile Char.isDigit := by
  induction text with
  | nil => simp
  | cons c text ih =>
    by_cases hc : c.isDigit = true
    · simp only [List.dropWhile_cons_of_pos hc] at h
      simp only [List.takeWhile_cons, List.dropWhile_cons, hc, table.isDigit_ascii hc, if_true]
      simp only [ih h, and_self]
    · rw [Bool.not_eq_true] at hc
      have hhead := h c (by simp [hc])
      simp [hc, hhead]

def AllDigits (digits : List Char) : Prop := ∀ c ∈ digits, c.isDigit = true

theorem takeWhile_digits (text : List Char) : AllDigits (text.takeWhile Char.isDigit) :=
  fun _ hc => List.mem_takeWhile_imp hc

theorem hunkRange_ascii {text start rest : List Char} {count : Option (List Char)}
    (h : hunkRange Char.isDigit text = some (start, count, rest))
    (hblank : rest.head? = some ' ') :
    hunkRange table.isDigit text = some (start, count, rest) ∧ AllDigits start ∧
      AllDigits (count.getD ['1']) := by
  have hone : AllDigits ['1'] := by simp [AllDigits]
  have hspace : table.isDigit ' ' = false := table.not_isDigit_ascii (by decide) (by decide)
  have hcomma : table.isDigit ',' = false := table.not_isDigit_ascii (by decide) (by decide)
  unfold hunkRange at h
  simp only at h
  split at h
  · cases h
  · rename_i hstart
    split at h
    · rename_i more hmore
      split at h
      · cases h
        rw [hmore] at hblank
        cases hblank
      · rename_i hcount
        cases h
        obtain ⟨htake, hdrop⟩ := span_ascii table text (by
          intro c hc
          rw [hmore] at hc
          cases hc
          exact hcomma)
        obtain ⟨htake', hdrop'⟩ := span_ascii table more (by
          intro c hc
          rw [hblank] at hc
          cases hc
          exact hspace)
        refine ⟨?_, takeWhile_digits text, takeWhile_digits more⟩
        rw [hunkRange, htake, hdrop, hmore]
        simp only [if_neg hstart, htake', hdrop', if_neg hcount]
    · rename_i hother
      cases h
      obtain ⟨htake, hdrop⟩ := span_ascii table text (by
        intro c hc
        rw [hblank] at hc
        cases hc
        exact hspace)
      refine ⟨?_, takeWhile_digits text, hone⟩
      rw [hunkRange, htake, hdrop]
      simp only [if_neg hstart]

theorem head_of_dropPrefix {text rest tail : List Char} {c : Char}
    (h : List.dropPrefix? text (c :: tail) = some rest) : text.head? = some c := by
  rw [List.dropPrefix?_eq_some_iff] at h
  obtain ⟨front, htext, hfront⟩ := h
  rw [htext, eq_of_beq hfront]
  rfl

/-- A header of the server's pattern is one of the client's, with the same counts. -/
theorem hunkHeader_ascii {text : List Char} {header : HunkHeader}
    (h : hunkHeader Char.isDigit text = some header) :
    hunkHeader table.isDigit text = some header ∧ AllDigits (header.oldCount.getD ['1']) ∧
      AllDigits (header.newCount.getD ['1']) := by
  unfold hunkHeader at h
  split at h
  · cases h
  rename_i afterMark hmark
  split at h
  · cases h
  rename_i oldStart oldCount afterOld hold
  split at h
  · cases h
  rename_i afterPlus hplus
  split at h
  · cases h
  rename_i newStart newCount afterNew hnew
  split at h
  · cases h
  rename_i heading hheading
  split at h
  · rename_i hend
    cases h
    obtain ⟨hold', -, holdCount⟩ := hunkRange_ascii table hold (head_of_dropPrefix hplus)
    obtain ⟨hnew', -, hnewCount⟩ := hunkRange_ascii table hnew (head_of_dropPrefix hheading)
    refine ⟨?_, holdCount, hnewCount⟩
    rw [hunkHeader]
    simp only [hmark, hold', hplus, hnew', hheading, if_pos hend]
  · cases h

theorem startsWith_of_hunkHeader {digit : Char → Bool} {text : List Char} {header : HunkHeader}
    (h : hunkHeader digit text = some header) : startsWith text "@@" = true := by
  unfold hunkHeader at h
  split at h
  · cases h
  rename_i rest hmark
  rw [List.dropPrefix?_eq_some_iff] at hmark
  obtain ⟨front, htext, hfront⟩ := hmark
  rw [startsWith, List.isPrefixOf_iff_prefix, htext, eq_of_beq hfront]
  exact ⟨" -".toList ++ rest, rfl⟩

end

theorem enter_spec {s s' : HunkState} {text : List Char} (h : s.enter text = some s') :
    s.oldRemaining = 0 ∧ s.newRemaining = 0 ∧ s'.added = s.added ∧ s'.previousBody = false ∧
      ∃ header, hunkHeader Char.isDigit text = some header ∧
        ∃ old new, asciiInt (header.oldCount.getD ['1']) = some old ∧
          asciiInt (header.newCount.getD ['1']) = some new ∧
          s'.oldRemaining = old ∧ s'.newRemaining = new := by
  unfold HunkState.enter at h
  split at h
  · cases h
  rename_i hzero
  push Not at hzero
  split at h
  · cases h
  rename_i header hheader
  split at h
  · rename_i oldStart old newStart new _ hold _ hnew
    simp only [Option.ite_none_left_eq_some] at h
    obtain ⟨-, -, heq⟩ := h
    cases heq
    exact ⟨hzero.1, hzero.2, rfl, rfl, header, hheader, old, new, hold, hnew, rfl, rfl⟩
  · cases h

/-- What a line inside a hunk does: its kind, and the counts it leaves. -/
inductive BodyStep (s s' : HunkState) : List Char → Prop
  | added {content : List Char} : 0 < s.newRemaining → s'.newRemaining = s.newRemaining - 1 →
      s'.oldRemaining = s.oldRemaining → s'.added = s.added ++ [content] →
      BodyStep s s' ('+' :: content)
  | removed {content : List Char} : 0 < s.oldRemaining → s'.oldRemaining = s.oldRemaining - 1 →
      s'.newRemaining = s.newRemaining → s'.added = s.added → BodyStep s s' ('-' :: content)
  | context {content : List Char} : 0 < s.oldRemaining → 0 < s.newRemaining →
      s'.oldRemaining = s.oldRemaining - 1 → s'.newRemaining = s.newRemaining - 1 →
      s'.added = s.added → BodyStep s s' (' ' :: content)

theorem body_spec {s s' : HunkState} {text : List Char} (h : s.body text = some s') :
    (s.oldRemaining ≠ 0 ∨ s.newRemaining ≠ 0) ∧ 0 ≤ s'.oldRemaining ∧ 0 ≤ s'.newRemaining ∧
      s'.previousBody = true ∧ BodyStep s s' text := by
  unfold HunkState.body at h
  split at h
  · cases h
  rename_i hopen
  refine ⟨by omega, ?_⟩
  simp only at h
  split at h
  · cases h
  rename_i moved hmoved
  split at h
  · cases h
  rename_i hcounts
  cases h
  push Not at hcounts
  refine ⟨hcounts.1, hcounts.2, rfl, ?_⟩
  split at hmoved
  · cases hmoved
    obtain ⟨hold, hnew⟩ := hcounts
    simp only at hnew
    exact .added (by omega) rfl rfl rfl
  · cases hmoved
    obtain ⟨hold, hnew⟩ := hcounts
    simp only at hold
    exact .removed (by omega) rfl rfl rfl
  · cases hmoved
    obtain ⟨hold, hnew⟩ := hcounts
    simp only at hold hnew
    exact .context (by omega) (by omega) rfl rfl rfl
  · cases hmoved

/-- A line lowers neither count by more than one. -/
theorem line_lowers {s s' : HunkState} {text : List Char} (h : s.line text = some s') :
    s.oldRemaining ≤ max 0 s'.oldRemaining + 1 ∧ s.newRemaining ≤ max 0 s'.newRemaining + 1 := by
  unfold HunkState.line at h
  split at h
  · split at h
    · cases h
      simp only
      omega
    · cases h
  · split at h
    · obtain ⟨hold, hnew, -⟩ := enter_spec h
      omega
    · obtain ⟨-, hold, hnew, -, hstep⟩ := body_spec h
      cases hstep <;> omega

/-- A hunk is not longer than what is left of the text. -/
theorem hunkRun_bounds {s s' : HunkState} {texts : List (List Char)}
    (h : hunkRun s texts = some s') (hold : s'.oldRemaining = 0) (hnew : s'.newRemaining = 0) :
    s.oldRemaining ≤ texts.length ∧ s.newRemaining ≤ texts.length := by
  induction texts generalizing s with
  | nil =>
    cases h
    omega
  | cons text texts ih =>
    rw [hunkRun] at h
    split at h
    · cases h
    rename_i t hline
    have hrest := ih h
    have hlower := line_lowers hline
    rw [List.length_cons]
    push_cast
    omega

/-- The client's counts are the server's, and it has seen a hunk unless nothing is open. -/
structure InStep (s : HunkState) (c : Scan) : Prop where
  old : s.oldRemaining = c.remainingOld
  new : s.newRemaining = c.remainingNew
  added : c.additions = s.added
  begun : c.sawHunk = false → s.oldRemaining = 0 ∧ s.newRemaining = 0 ∧ s.previousBody = false

section
variable (table : DigitTable) (total : Nat) {s s' : HunkState} {c : Scan} {text : List Char}

/-- A count that fits the patch passes the client's bounds. -/
theorem count_fits {total : Nat} {digits : List Char} (hdigits : AllDigits digits) {n : Nat}
    (h : asciiInt digits = some n) (hn : n ≤ total) :
    (stripZeros digits).length ≤ width total ∧
      table.int (if stripZeros digits = [] then ['0'] else stripZeros digits) = some n := by
  unfold asciiInt at h
  split at h
  · rename_i hlen
    cases h
    refine ⟨length_stripZeros_le hdigits hn, ?_⟩
    have hsub : ∀ d ∈ stripZeros digits, d.isDigit = true :=
      fun d hd => hdigits d ((List.dropWhile_suffix _).mem hd)
    have hshort : (stripZeros digits).length ≤ maxStrDigits :=
      le_trans (List.dropWhile_suffix _).length_le hlen
    have hvalue := ofDigitChars_stripZeros digits
    split
    · rename_i hnil
      rw [hnil] at hvalue
      rw [table.int_ascii (by simp), asciiInt, if_pos (by decide), ← hvalue]
      rfl
    · rw [table.int_ascii hsub, asciiInt, if_pos hshort, hvalue]
  · cases h

theorem InStep.enter (hagree : InStep s c) (h : s.enter text = some s')
    (hold : s'.oldRemaining ≤ total) (hnew : s'.newRemaining ≤ total) :
    ∃ c', Cli.CodexPatch.step table total c text = .ok (some c') ∧ InStep s' c' ∧
      c'.sawHunk = true := by
  obtain ⟨hzeroOld, hzeroNew, hadded, hprevious, header, hheader, old, new, holdInt, hnewInt,
    holdEq, hnewEq⟩ := enter_spec h
  obtain ⟨hclient, holdDigits, hnewDigits⟩ := hunkHeader_ascii table hheader
  rw [holdEq] at hold
  rw [hnewEq] at hnew
  have hold' : old ≤ total := by exact_mod_cast hold
  have hnew' : new ≤ total := by exact_mod_cast hnew
  obtain ⟨holdWidth, holdValue⟩ := count_fits table holdDigits holdInt hold'
  obtain ⟨hnewWidth, hnewValue⟩ := count_fits table hnewDigits hnewInt hnew'
  have hopen : ¬(c.remainingOld ≠ 0 ∨ c.remainingNew ≠ 0) := by
    have hcOld := hagree.old
    have hcNew := hagree.new
    omega
  refine ⟨{ c with remainingOld := old, remainingNew := new, sawHunk := true }, ?_, ?_, rfl⟩
  · rw [Cli.CodexPatch.step]
    simp only [hclient, Cli.CodexPatch.enter, if_neg hopen]
    rw [if_neg (by omega), holdValue, hnewValue]
    simp only
    rw [if_neg (by omega)]
  · constructor
    · exact holdEq
    · exact hnewEq
    · rw [hadded]
      exact hagree.added
    · intro hno
      cases hno

theorem InStep.saw (hagree : InStep s c)
    (h : s.previousBody = true ∨ s.oldRemaining ≠ 0 ∨ s.newRemaining ≠ 0) : c.sawHunk = true := by
  by_contra hno
  rw [Bool.not_eq_true] at hno
  obtain ⟨hold, hnew, hbody⟩ := hagree.begun hno
  simp [hold, hnew, hbody] at h

theorem InStep.body (hagree : InStep s c) (hmark : startsWith text "@@" = false)
    (hplain : text ≠ noNewline) (h : s.body text = some s') :
    ∃ c', Cli.CodexPatch.step table total c text = .ok (some c') ∧ InStep s' c' ∧
      c'.sawHunk = true := by
  obtain ⟨hopen, hold, hnew, hprevious, hstep⟩ := body_spec h
  have hsaw := hagree.saw (Or.inr hopen)
  have hnone : hunkHeader table.isDigit text = none := by
    rw [Option.eq_none_iff_forall_ne_some]
    intro header hheader
    rw [startsWith_of_hunkHeader hheader] at hmark
    cases hmark
  have hcOld := hagree.old
  have hcNew := hagree.new
  have hadded := hagree.added
  have hgo : Cli.CodexPatch.step table total c text = .ok (Cli.CodexPatch.body c text) := by
    rw [Cli.CodexPatch.step]
    simp only [hnone, hsaw, Bool.not_true, Bool.false_and, Bool.false_eq_true, if_false, hplain,
      false_and, Bool.false_or]
    cases hstep <;> rfl
  rw [hgo]
  cases hstep with
  | added hpos hnew' hold' hlines =>
    refine ⟨_, congrArg Except.ok (if_pos (by omega)), ?_, hsaw⟩
    constructor
    · simp only [hold', hcOld]
    · simp only [hnew', hcNew]
      omega
    · simp only [hlines, hadded]
    · simp [hsaw]
  | removed hpos hold' hnew' hlines =>
    refine ⟨_, congrArg Except.ok (if_pos (by omega)), ?_, hsaw⟩
    constructor
    · simp only [hold', hcOld]
      omega
    · simp only [hnew', hcNew]
    · simp only [hlines, hadded]
    · simp [hsaw]
  | context hposOld hposNew hold' hnew' hlines =>
    refine ⟨_, congrArg Except.ok (if_pos (by omega)), ?_, hsaw⟩
    constructor
    · simp only [hold', hcOld]
      omega
    · simp only [hnew', hcNew]
      omega
    · simp only [hlines, hadded]
    · simp [hsaw]

/-- One line the server takes is one the client takes, with the same effect. -/
theorem InStep.step (hagree : InStep s c) (h : s.line text = some s')
    (hold : s'.oldRemaining ≤ total) (hnew : s'.newRemaining ≤ total) :
    ∃ c', Cli.CodexPatch.step table total c text = .ok (some c') ∧ InStep s' c' ∧
      c'.sawHunk = true := by
  unfold HunkState.line at h
  split at h
  · rename_i hmarker
    split at h
    · rename_i hprevious
      cases h
      have hsaw := hagree.saw (Or.inl hprevious)
      refine ⟨c, ?_, ⟨hagree.old, hagree.new, hagree.added, by simp [hsaw]⟩, hsaw⟩
      have hnone : hunkHeader table.isDigit noNewline = none := rfl
      rw [hmarker, Cli.CodexPatch.step]
      simp [hnone, hsaw]
    · cases h
  · rename_i hplain
    split at h
    · exact hagree.enter table total h hold hnew
    · rename_i hmark
      rw [Bool.not_eq_true] at hmark
      exact hagree.body table total hmark hplain h

theorem InStep.run {texts : List (List Char)} (hagree : InStep s c)
    (h : hunkRun s texts = some s') (hold : s'.oldRemaining = 0) (hnew : s'.newRemaining = 0)
    (hlen : texts.length ≤ total) :
    ∃ c', Cli.CodexPatch.run table total c texts = .ok (some c') ∧ InStep s' c' ∧
      (c.sawHunk = true ∨ texts ≠ [] → c'.sawHunk = true) := by
  induction texts generalizing s c with
  | nil =>
    cases h
    exact ⟨c, rfl, hagree, by simp⟩
  | cons text texts ih =>
    rw [hunkRun] at h
    split at h
    · cases h
    rename_i t hline
    rw [List.length_cons] at hlen
    obtain ⟨hbOld, hbNew⟩ := hunkRun_bounds h hold hnew
    obtain ⟨d, hstep, hagree', hsaw⟩ :=
      hagree.step table total hline (by omega) (by omega)
    obtain ⟨c', hrun, hend, hsaw'⟩ := ih hagree' h (by omega)
    refine ⟨c', ?_, hend, fun _ => hsaw' (Or.inl hsaw)⟩
    rw [Cli.CodexPatch.run, hstep]
    exact hrun

end

/-- The client reads every patch with a hunk that the server reads, with the same additions. -/
theorem codex_added_text_agrees (table : DigitTable) (patch added : List Char)
    (h : hunkAdditions (framed [] patch) = .ok added)
    (hunk : ∃ line ∈ framed [] patch, startsWith line "@@" = true) :
    codexAddedText table patch = .ok (some added) := by
  unfold hunkAdditions at h
  split at h
  · cases h
  rename_i s hrun
  split at h
  · cases h
  rename_i hclosed
  cases h
  have hzero : s.oldRemaining = 0 ∧ s.newRemaining = 0 := by omega
  have hstart : InStep {} {} := ⟨rfl, rfl, rfl, fun _ => ⟨rfl, rfl, rfl⟩⟩
  rw [← popped_eq] at hrun
  obtain ⟨c, hclient, hagree, hsaw⟩ :=
    hstart.run table (popped patch).length hrun hzero.1 hzero.2 (le_refl _)
  have hlines : popped patch ≠ [] := by
    obtain ⟨line, hline, -⟩ := hunk
    rw [popped_eq]
    exact List.ne_nil_of_mem (List.mem_map_of_mem hline)
  have hold := hagree.old
  have hnew := hagree.new
  rw [codexAddedText]
  simp only [hclient]
  rw [if_pos ⟨hsaw (Or.inr hlines), by omega, by omega⟩, hagree.added]

theorem marker_lines_added :
    codexAddedText .plain "@@ -1 +1,2 @@ f\n-+++ b\n++++ b\n+@@\n\\ No newline at end of file\n".toList =
      .ok (some "+++ b\n@@".toList) :=
  codex_added_text_agrees _ _ _ (by decide +kernel) ⟨"@@ -1 +1,2 @@ f\n".toList, by decide +kernel⟩

end Sediment.Proofs.CodexPatch

import Sediment.Base.GitPatch
import Sediment.Proofs.CodexPatch

namespace Sediment.Proofs.DiffHunks
open Sediment.Base.GitPatch Sediment.Base.Decimals Sediment.Derive.Diff
open Sediment.Base.Lines (chomp chomp_end)
open CodexPatch

theorem decimal_digits (n : Nat) : AllDigits (decimal n) :=
  fun _ hc => Nat.isDigit_of_mem_toDigits (by decide) (by decide) hc

theorem decimal_ne_nil (n : Nat) : decimal n ≠ [] := Nat.toDigits_ne_nil

theorem asciiInt_decimal {n : Nat} (h : n < 2 ^ 63) : asciiInt (decimal n) = some n := by
  have hlen : (decimal n).length ≤ 19 :=
    (Nat.length_toDigits_le_iff (by decide) (by decide)).mpr (lt_trans h (by norm_num))
  rw [asciiInt, if_pos (le_trans hlen (by decide)), decimal, Nat.ofDigitChars_ten_toDigits]

theorem takeWhile_decimal (n : Nat) {c : Char} (hc : c.isDigit = false) (rest : List Char) :
    (decimal n ++ c :: rest).takeWhile Char.isDigit = decimal n := by
  rw [List.takeWhile_append_of_pos (decimal_digits n), List.takeWhile_cons_of_neg (by simp [hc]),
    List.append_nil]

theorem dropWhile_decimal (n : Nat) {c : Char} (hc : c.isDigit = false) (rest : List Char) :
    (decimal n ++ c :: rest).dropWhile Char.isDigit = c :: rest := by
  rw [List.dropWhile_append_of_pos (decimal_digits n), List.dropWhile_cons_of_neg (by simp [hc])]

def countText (count : Nat) : Option (List Char) := if count = 1 then none else some (decimal count)

def startNumber (start count : Nat) : Nat := if count = 0 then start - 1 else start

theorem hunkRange_rangeText (start count : Nat) (rest : List Char) :
    hunkRange Char.isDigit (rangeText start count ++ ' ' :: rest) =
      some (decimal (startNumber start count), countText count, ' ' :: rest) := by
  have hblank : ' '.isDigit = false := by decide
  have hcomma : ','.isDigit = false := by decide
  unfold rangeText countText
  split
  · rename_i hone
    rw [hunkRange, takeWhile_decimal _ hblank, dropWhile_decimal _ hblank]
    simp [decimal_ne_nil, hone, startNumber]
  · rw [List.append_assoc, List.cons_append, hunkRange, takeWhile_decimal _ hcomma,
      dropWhile_decimal _ hcomma]
    simp only [takeWhile_decimal _ hblank, dropWhile_decimal _ hblank, if_neg (decimal_ne_nil _)]
    rfl

theorem dropPrefix_append (start rest : List Char) :
    List.dropPrefix? (start ++ rest) start = some rest :=
  List.dropPrefix?_append_of_beq rest (beq_self_eq_true start)

theorem hunkHeader_header (h : Hunk) (old new : Nat) :
    hunkHeader Char.isDigit (h.header old new) = some
      { oldStart := decimal (startNumber (old + h.gap) (oldLength h.body))
        oldCount := countText (oldLength h.body)
        newStart := decimal (startNumber (new + h.gap) (newLength h.body))
        newCount := countText (newLength h.body) } := by
  have hplus : ∀ s : List Char, " +".toList ++ s = ' ' :: ('+' :: s) := fun _ => rfl
  have hat : ∀ s : List Char, " @@".toList ++ s = ' ' :: ('@' :: '@' :: s) := fun _ => rfl
  have hend : headingText h.heading = [] ∨
      ((headingText h.heading).head? = some ' ' ∧ '\n' ∉ headingText h.heading) := by
    cases hheading : h.heading with
    | none => exact Or.inl rfl
    | some text =>
      right
      refine ⟨rfl, ?_⟩
      simp only [headingText, List.mem_cons, not_or]
      exact ⟨by decide, h.oneLine text (by simp [hheading])⟩
  unfold Hunk.header hunkHeader
  simp only [List.append_assoc]
  rw [dropPrefix_append]
  simp only
  rw [hplus, hunkRange_rangeText]
  simp only
  rw [← hplus, dropPrefix_append]
  simp only
  rw [hat, hunkRange_rangeText]
  simp only
  rw [← hat, dropPrefix_append]
  simp only
  rw [if_pos hend]

theorem startsWith_header (h : Hunk) (old new : Nat) :
    startsWith (h.header old new) "@@" = true :=
  startsWith_of_hunkHeader (hunkHeader_header h old new)

theorem asciiInt_count {count : Nat} (h : count < 2 ^ 63) :
    asciiInt ((countText count).getD ['1']) = some count := by
  unfold countText
  split
  · rename_i hone
    rw [hone]
    decide
  · exact asciiInt_decimal h

/-- The counts of a header open its hunk. -/
theorem enter_header {s : HunkState} (h : Hunk) {old new : Nat} (hold : 1 ≤ old) (hnew : 1 ≤ new)
    (holdFits : old + h.gap + oldLength h.body < 2 ^ 63)
    (hnewFits : new + h.gap + newLength h.body < 2 ^ 63)
    (hs : s.oldRemaining = 0 ∧ s.newRemaining = 0) (holdEnd : s.oldEnd = old)
    (hnewEnd : s.newEnd = new) :
    s.enter (h.header old new) = some { s with
      oldRemaining := oldLength h.body
      newRemaining := newLength h.body
      oldEnd := (old + h.gap + oldLength h.body : Nat)
      newEnd := (new + h.gap + newLength h.body : Nat)
      previousBody := false } := by
  have hstart : ∀ (at' gap count : Nat), 1 ≤ at' → at' + gap + count < 2 ^ 63 →
      startNumber (at' + gap) count < 2 ^ 63 ∧ (count ≠ 0 → startNumber (at' + gap) count ≠ 0) ∧
        ((startNumber (at' + gap) count : Nat) : Int) + (if count = 0 then 1 else 0) =
          (at' + gap : Nat) := by
    intro at' gap count hpos hfits
    unfold startNumber
    split
    · refine ⟨by omega, by omega, by omega⟩
    · refine ⟨by omega, by omega, by omega⟩
  obtain ⟨holdStart, holdNonzero, holdBegin⟩ := hstart old h.gap _ hold holdFits
  obtain ⟨hnewStart, hnewNonzero, hnewBegin⟩ := hstart new h.gap _ hnew hnewFits
  rw [HunkState.enter, if_neg (by simp [hs]), hunkHeader_header]
  simp only [asciiInt_decimal holdStart, asciiInt_decimal hnewStart,
    asciiInt_count (lt_of_le_of_lt (Nat.le_add_left _ _) holdFits),
    asciiInt_count (lt_of_le_of_lt (Nat.le_add_left _ _) hnewFits)]
  rw [if_neg (by tauto), holdBegin, hnewBegin, holdEnd, hnewEnd, if_neg (by omega)]
  simp only [Nat.cast_add]

theorem hunkRun_append (s : HunkState) (a b : List (List Char)) :
    hunkRun s (a ++ b) = (hunkRun s a).bind (fun t => hunkRun t b) := by
  induction a generalizing s with
  | nil => rfl
  | cons text a ih =>
    rw [List.cons_append, hunkRun, hunkRun]
    split
    · rfl
    · exact ih _

def addedContents (body : List BodyLine) : List (List Char) :=
  (body.filter (fun line => line.kind = .added)).map BodyLine.content

theorem line_body (s : HunkState) (line : BodyLine) :
    s.line (line.kind.mark :: line.content) = s.body (line.kind.mark :: line.content) := by
  rw [HunkState.line, if_neg, if_neg]
  · cases line.kind <;> exact Bool.false_ne_true
  · intro heq
    have hhead : some line.kind.mark = some '\\' := congrArg List.head? heq
    cases hkind : line.kind <;> rw [hkind] at hhead <;> exact absurd hhead (by decide)

/-- A line of a hunk, while the counts of its sides last. -/
theorem body_mark {s : HunkState} (kind : LineKind) (content : List Char)
    (hold : kind ≠ .added → 0 < s.oldRemaining) (hnew : kind ≠ .removed → 0 < s.newRemaining)
    (hpos : 0 ≤ s.oldRemaining ∧ 0 ≤ s.newRemaining) :
    s.body (kind.mark :: content) = some { s with
      oldRemaining := if kind = .added then s.oldRemaining else s.oldRemaining - 1
      newRemaining := if kind = .removed then s.newRemaining else s.newRemaining - 1
      previousBody := true
      added := if kind = .added then s.added ++ [content] else s.added } := by
  cases kind with
  | context =>
    have hold' := hold (by decide)
    have hnew' := hnew (by decide)
    have hopen : ¬(s.oldRemaining = 0 ∧ s.newRemaining = 0) := by omega
    have hleft : ¬(s.oldRemaining - 1 < 0 ∨ s.newRemaining - 1 < 0) := by omega
    exact (if_neg hopen).trans (if_neg hleft)
  | removed =>
    have hold' := hold (by decide)
    have hopen : ¬(s.oldRemaining = 0 ∧ s.newRemaining = 0) := by omega
    have hleft : ¬(s.oldRemaining - 1 < 0 ∨ s.newRemaining < 0) := by omega
    exact (if_neg hopen).trans (if_neg hleft)
  | added =>
    have hnew' := hnew (by decide)
    have hopen : ¬(s.oldRemaining = 0 ∧ s.newRemaining = 0) := by omega
    have hleft : ¬(s.oldRemaining < 0 ∨ s.newRemaining - 1 < 0) := by omega
    exact (if_neg hopen).trans (if_neg hleft)

theorem oldLength_cons (line : BodyLine) (body : List BodyLine) :
    oldLength (line :: body) = oldLength body + if line.kind = .added then 0 else 1 := by
  rw [oldLength, List.countP_cons, oldLength]
  cases line.kind <;> rfl

theorem newLength_cons (line : BodyLine) (body : List BodyLine) :
    newLength (line :: body) = newLength body + if line.kind = .removed then 0 else 1 := by
  rw [newLength, List.countP_cons, newLength]
  cases line.kind <;> rfl

theorem addedContents_cons (line : BodyLine) (body : List BodyLine) :
    addedContents (line :: body) =
      (if line.kind = .added then [line.content] else []) ++ addedContents body := by
  rw [addedContents, List.filter_cons, addedContents]
  cases line.kind <;> rfl

/-- A line of a hunk leaves the counts of the lines behind it. -/
theorem body_line {s : HunkState} {line : BodyLine} {body : List BodyLine}
    (hold : s.oldRemaining = oldLength (line :: body))
    (hnew : s.newRemaining = newLength (line :: body)) :
    s.line (line.kind.mark :: line.content) = some { s with
      oldRemaining := oldLength body
      newRemaining := newLength body
      previousBody := true
      added := s.added ++ if line.kind = .added then [line.content] else [] } := by
  rw [oldLength_cons] at hold
  rw [newLength_cons] at hnew
  rw [line_body, body_mark]
  · cases hkind : line.kind with
    | context =>
      simp only [hkind, reduceCtorEq, if_false, Nat.cast_add, Nat.cast_one] at hold hnew
      simp [hold, hnew]
    | removed =>
      simp only [hkind, reduceCtorEq, if_false, if_true, Nat.cast_add, Nat.cast_one,
        Nat.add_zero] at hold hnew
      simp [hold, hnew]
    | added =>
      simp only [hkind, reduceCtorEq, if_false, if_true, Nat.cast_add, Nat.cast_one,
        Nat.add_zero] at hold hnew
      simp [hold, hnew]
  · intro hkind
    rw [if_neg hkind] at hold
    omega
  · intro hkind
    rw [if_neg hkind] at hnew
    omega
  · omega

/-- The lines of a hunk use up its counts. -/
theorem hunkRun_body {s : HunkState} (body : List BodyLine)
    (hold : s.oldRemaining = oldLength body) (hnew : s.newRemaining = newLength body) :
    ∃ previous, hunkRun s (body.flatMap BodyLine.lines) = some { s with
      oldRemaining := 0
      newRemaining := 0
      previousBody := previous
      added := s.added ++ addedContents body } := by
  induction body generalizing s with
  | nil =>
    have hzeroOld : s.oldRemaining = 0 := hold
    have hzeroNew : s.newRemaining = 0 := hnew
    refine ⟨s.previousBody, ?_⟩
    rw [List.flatMap_nil, hunkRun, addedContents, List.filter_nil, List.map_nil, List.append_nil,
      ← hzeroOld]
    congr 1
    rw [hzeroOld, ← hzeroNew]
    cases s
    simp_all
  | cons line body ih =>
    have hline := body_line hold hnew
    rw [List.flatMap_cons, hunkRun_append, BodyLine.lines, addedContents_cons, ← List.append_assoc]
    rw [hunkRun, hline]
    simp only
    cases line.unfinished with
    | true =>
      obtain ⟨previous, hrest⟩ := ih (s := { s with
        oldRemaining := oldLength body
        newRemaining := newLength body
        previousBody := false
        added := s.added ++ if line.kind = .added then [line.content] else [] }) rfl rfl
      refine ⟨previous, ?_⟩
      rw [if_pos rfl, hunkRun, HunkState.line, if_pos rfl]
      exact hrest
    | false =>
      obtain ⟨previous, hrest⟩ := ih (s := { s with
        oldRemaining := oldLength body
        newRemaining := newLength body
        previousBody := true
        added := s.added ++ if line.kind = .added then [line.content] else [] }) rfl rfl
      exact ⟨previous, hrest⟩

/-- What git writes for hunks is taken whole, however their contents begin. -/
theorem hunkRun_hunkLines {s : HunkState} {hunks : List Hunk} {old new : Nat} (hold : 1 ≤ old)
    (hnew : 1 ≤ new) (hcounted : numbered (2 ^ 63) old new hunks)
    (hs : s.oldRemaining = 0 ∧ s.newRemaining = 0) (holdEnd : s.oldEnd = old)
    (hnewEnd : s.newEnd = new) :
    ∃ s', hunkRun s (hunkLines old new hunks) = some s' ∧ s'.oldRemaining = 0 ∧
      s'.newRemaining = 0 ∧ s'.added = s.added ++ addedContents (hunks.flatMap Hunk.body) := by
  induction hunks generalizing s old new with
  | nil => exact ⟨s, rfl, hs.1, hs.2, by simp [addedContents]⟩
  | cons h rest ih =>
    obtain ⟨holdFits, hnewFits, hrest⟩ := hcounted
    have henter := enter_header h hold hnew holdFits hnewFits hs holdEnd hnewEnd
    obtain ⟨previous, hbody⟩ := hunkRun_body h.body (s := { s with
      oldRemaining := oldLength h.body
      newRemaining := newLength h.body
      oldEnd := (old + h.gap + oldLength h.body : Nat)
      newEnd := (new + h.gap + newLength h.body : Nat)
      previousBody := false }) rfl rfl
    obtain ⟨s', hrun, hzeroOld, hzeroNew, hadded⟩ := ih (s := { s with
      oldRemaining := 0
      newRemaining := 0
      oldEnd := (old + h.gap + oldLength h.body : Nat)
      newEnd := (new + h.gap + newLength h.body : Nat)
      previousBody := previous
      added := s.added ++ addedContents h.body }) (by omega) (by omega) hrest ⟨rfl, rfl⟩ rfl rfl
    have hline : s.line (h.header old new) = s.enter (h.header old new) := by
      rw [HunkState.line, if_neg, if_pos (startsWith_header h old new)]
      intro heq
      have hhead := startsWith_header h old new
      rw [heq] at hhead
      exact absurd hhead (by decide)
    refine ⟨s', ?_, hzeroOld, hzeroNew, ?_⟩
    · rw [hunkLines, List.cons_append, hunkRun, hline, henter]
      simp only
      rw [hunkRun_append, Hunk.bodyLines, hbody, Option.bind_some, hrun]
    · rw [hadded, List.append_assoc, List.flatMap_cons, addedContents, addedContents,
        addedContents, ← List.map_append, ← List.filter_append]

theorem hunkAdditions_hunkLines {hunks : List Hunk} (h : numbered (2 ^ 63) 1 1 hunks) :
    hunkAdditions ((hunkLines 1 1 hunks).map (· ++ ['\n'])) =
      .ok (joined (addedContents (hunks.flatMap Hunk.body))) := by
  have hlines : ((hunkLines 1 1 hunks).map (· ++ ['\n'])).map chomp = hunkLines 1 1 hunks := by
    rw [List.map_map]
    exact (List.map_congr_left (fun line _ => chomp_end line)).trans (List.map_id _)
  obtain ⟨s, hrun, hold, hnew, hadded⟩ :=
    hunkRun_hunkLines (s := {}) le_rfl le_rfl h ⟨rfl, rfl⟩ rfl rfl
  rw [hunkAdditions, hlines, hrun]
  simp only [hold, hnew, ne_eq, not_true_eq_false, or_self, if_false, hadded]
  rfl

end Sediment.Proofs.DiffHunks

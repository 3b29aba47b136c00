import Sediment.Derive.Recovery
import Sediment.Proofs.DiffSections

namespace Sediment.Proofs.RecoveryDiffSize
open Sediment.Base Sediment.Base.Lines Sediment.Base.GitPatch
open Sediment.Derive.Diff Sediment.Derive.Recovery
open DiffHunks DiffHeaders DiffSections CodexPatch

/-- What `splitlines` makes of one line. -/
def pieces (line : List Char) : List (List Char) := splitlines [] (line ++ ['\n'])

/-- What a break inside the line splits off. -/
def fragments (line : List Char) : List (List Char) := (pieces line).tail

theorem splitlines_line {line : List Char} (h : '\n' ∉ line) (pre rest : List Char) :
    splitlines pre (line ++ '\n' :: rest) =
      splitlines pre (line ++ ['\n']) ++ splitlines [] rest := by
  induction line generalizing pre with
  | nil =>
    have hend : ∀ tail, splitlines pre ('\n' :: tail) = pre :: splitlines [] tail := fun tail =>
      splitlines_cons (by simp) pre
    rw [List.nil_append, List.nil_append, hend, hend]
    rfl
  | cons c line ih =>
    simp only [List.mem_cons, not_or] at h
    by_cases hcr : c = '\r' ∧ line = []
    · obtain ⟨rfl, rfl⟩ := hcr
      rfl
    · have hstep : ∀ tail, splitlines pre (c :: (line ++ '\n' :: tail)) =
          if isBreak c then pre :: splitlines [] (line ++ '\n' :: tail)
          else splitlines (pre ++ [c]) (line ++ '\n' :: tail) := by
        intro tail
        apply splitlines_cons
        intro hc hrest
        cases line with
        | nil => exact hcr ⟨hc, rfl⟩
        | cons d line => exact h.2 (by simp_all)
      rw [List.cons_append, List.cons_append, hstep, hstep]
      split
      · rw [ih h.2, List.cons_append]
      · rw [ih h.2]

theorem splitlines_head (line pre : List Char) : ∃ tail, splitlines pre (line ++ ['\n']) =
    (pre ++ line.takeWhile (fun c => !isBreak c)) :: tail := by
  induction line generalizing pre with
  | nil => exact ⟨[], by rw [List.takeWhile_nil, List.append_nil]; rfl⟩
  | cons c line ih =>
    by_cases hcr : c = '\r' ∧ ∃ rest, line ++ ['\n'] = '\n' :: rest
    · obtain ⟨rfl, rest, hrest⟩ := hcr
      refine ⟨splitlines [] rest, ?_⟩
      rw [List.cons_append, hrest, splitlines_crlf,
        List.takeWhile_cons_of_neg (by decide), List.append_nil]
    · rw [List.cons_append, splitlines_cons]
      · by_cases hb : isBreak c = true
        · refine ⟨splitlines [] (line ++ ['\n']), ?_⟩
          rw [if_pos hb, List.takeWhile_cons_of_neg (by simp [hb]), List.append_nil]
        · obtain ⟨tail, htail⟩ := ih (pre ++ [c])
          refine ⟨tail, ?_⟩
          rw [if_neg hb, htail, List.takeWhile_cons_of_pos (by simp [hb]), List.append_assoc]
          rfl
      · intro hc hrest
        exact hcr ⟨hc, List.head?_eq_some_iff.mp hrest⟩

theorem pieces_eq (line : List Char) :
    pieces line = line.takeWhile (fun c => !isBreak c) :: fragments line := by
  obtain ⟨tail, htail⟩ := splitlines_head line []
  unfold fragments pieces
  rw [htail]
  rfl

/-- The pieces of a text are those of its lines. -/
theorem splitlines_lines {lines : List (List Char)} (h : ∀ line ∈ lines, '\n' ∉ line) :
    splitlines [] (lines.flatMap (· ++ ['\n'])) = lines.flatMap pieces := by
  induction lines with
  | nil => rfl
  | cons line lines ih =>
    obtain ⟨hline, hlines⟩ := List.forall_mem_cons.mp h
    rw [List.flatMap_cons, List.flatMap_cons, List.append_assoc, List.singleton_append,
      splitlines_line hline, ih hlines]
    rfl

def signed (piece : List Char) : Bool := ['+'].isPrefixOf piece || ['-'].isPrefixOf piece

/-- Whether the counter is in a hunk behind a piece. -/
def opened (inHunk : Bool) (piece : List Char) : Bool :=
  if "diff --git".toList.isPrefixOf piece then false
  else if "@@".toList.isPrefixOf piece then true
  else inHunk

def counted (inHunk : Bool) : List (List Char) → Nat
  | [] => 0
  | piece :: rest =>
    (if inHunk && signed piece then 1 else 0) + counted (opened inHunk piece) rest

theorem signed_cons {c : Char} {rest : List Char} :
    signed (c :: rest) = true ↔ c = '+' ∨ c = '-' := by
  simp only [signed, List.isPrefixOf_cons_cons, List.isPrefixOf_nil_left, Bool.and_true,
    Bool.or_eq_true, beq_iff_eq]
  constructor
  · intro h
    exact h.imp Eq.symm Eq.symm
  · intro h
    exact h.imp Eq.symm Eq.symm

theorem not_marker_of_signed {piece : List Char} (h : signed piece = true) :
    "diff --git".toList.isPrefixOf piece = false ∧ "@@".toList.isPrefixOf piece = false := by
  cases piece with
  | nil => cases h
  | cons c rest =>
    rcases signed_cons.mp h with rfl | rfl
    · exact ⟨rfl, rfl⟩
    · exact ⟨rfl, rfl⟩

theorem opened_signed {piece : List Char} (h : signed piece = true) (inHunk : Bool) :
    opened inHunk piece = inHunk := by
  obtain ⟨hgit, hhunk⟩ := not_marker_of_signed h
  unfold opened
  rw [hgit, hhunk]
  rfl

theorem line_counted (s : LineCounter) (piece : List Char) :
    s.line piece = ⟨s.count + (if s.inHunk && signed piece then 1 else 0),
      opened s.inHunk piece⟩ := by
  obtain ⟨count, inHunk⟩ := s
  by_cases hs : signed piece = true
  · obtain ⟨hgit, hhunk⟩ := not_marker_of_signed hs
    rw [opened_signed hs, LineCounter.line, hgit, hhunk]
    change (if inHunk && signed piece then _ else _) = _
    rw [hs]
    cases inHunk <;> rfl
  · rw [Bool.not_eq_true] at hs
    have hline : LineCounter.line ⟨count, inHunk⟩ piece =
        if "diff --git".toList.isPrefixOf piece then ⟨count, false⟩
        else if "@@".toList.isPrefixOf piece then ⟨count, true⟩
        else if inHunk && signed piece then ⟨count + 1, inHunk⟩ else ⟨count, inHunk⟩ := rfl
    rw [hline, hs, Bool.and_false, opened]
    split
    · rfl
    · split
      · rfl
      · rfl

theorem diffLineCount_counted (text : List Char) :
    diffLineCount text = counted false (splitlines [] text) := by
  have hrun : ∀ (ps : List (List Char)) (s : LineCounter),
      (ps.foldl LineCounter.line s).count = s.count + counted s.inHunk ps := by
    intro ps
    induction ps with
    | nil => intro s; rfl
    | cons p ps ih =>
      intro s
      rw [List.foldl_cons, ih, line_counted, counted]
      exact Nat.add_assoc _ _ _
  unfold diffLineCount
  rw [hrun]
  exact Nat.zero_add _

theorem counted_append (inHunk : Bool) (a b : List (List Char)) :
    counted inHunk (a ++ b) = counted inHunk a + counted (a.foldl opened inHunk) b := by
  induction a generalizing inHunk with
  | nil => exact (Nat.zero_add _).symm
  | cons piece a ih =>
    rw [List.cons_append, counted, counted, ih, List.foldl_cons, Nat.add_assoc]

/-- What is left of a line before its first break. -/
def firstPiece (line : List Char) : List Char := line.takeWhile (fun c => !isBreak c)

/-- The counter over some lines, from one state to another. -/
structure Counts (inHunk : Bool) (lines : List (List Char)) (n : Nat) (after : Bool) : Prop where
  count : counted inHunk (lines.flatMap pieces) = n
  after : (lines.flatMap pieces).foldl opened inHunk = after

theorem Counts.nil (inHunk : Bool) : Counts inHunk [] 0 inHunk := ⟨rfl, rfl⟩

theorem Counts.append {s t u : Bool} {a b : List (List Char)} {m n : Nat} (ha : Counts s a m t)
    (hb : Counts t b n u) : Counts s (a ++ b) (m + n) u := by
  constructor
  · rw [List.flatMap_append, counted_append, ha.count, ha.after, hb.count]
  · rw [List.flatMap_append, List.foldl_append, ha.after, hb.after]

/-- A piece that looks like the start of a file or of a hunk. -/
def opens (piece : List Char) : Bool :=
  "diff --git".toList.isPrefixOf piece || "@@".toList.isPrefixOf piece

theorem opened_of_not_opens {piece : List Char} (h : opens piece = false) (inHunk : Bool) :
    opened inHunk piece = inHunk := by
  obtain ⟨hgit, hhunk⟩ := Bool.or_eq_false_iff.mp h
  rw [opened, if_neg (by rw [hgit]; simp), if_neg (by rw [hhunk]; simp)]

/-- What the breaks inside some lines split off that looks like a changed line. -/
def surplus (lines : List (List Char)) : Nat := (lines.flatMap fragments).countP signed

theorem surplus_append (a b : List (List Char)) : surplus (a ++ b) = surplus a + surplus b := by
  rw [surplus, List.flatMap_append, List.countP_append]
  rfl

theorem surplus_eq_zero {lines : List (List Char)} :
    surplus lines = 0 ↔ ∀ line ∈ lines, ∀ piece ∈ fragments line, signed piece = false := by
  simp only [surplus, List.countP_eq_zero, List.mem_flatMap, Bool.not_eq_true,
    forall_exists_index, and_imp]
  exact forall_comm.trans (forall_congr' (fun _ => forall_comm))

theorem counted_pieces {ps : List (List Char)} (h : ∀ p ∈ ps, opens p = false) (inHunk : Bool) :
    counted inHunk ps = (if inHunk then ps.countP signed else 0) ∧
      ps.foldl opened inHunk = inHunk := by
  induction ps with
  | nil => cases inHunk <;> exact ⟨rfl, rfl⟩
  | cons p ps ih =>
    obtain ⟨hp, hps⟩ := List.forall_mem_cons.mp h
    obtain ⟨hcount, hafter⟩ := ih hps
    rw [counted, List.foldl_cons, opened_of_not_opens hp, hcount, hafter]
    cases inHunk
    · simp
    · simp [List.countP_cons, Nat.add_comm]

theorem Counts.line {line : List Char} (h : ∀ p ∈ fragments line, opens p = false) {s t : Bool}
    (hopened : opened s (firstPiece line) = t) :
    Counts s [line] ((if s && signed (firstPiece line) then 1 else 0) +
      (if t then surplus [line] else 0)) t := by
  obtain ⟨hcount, hafter⟩ := counted_pieces h t
  constructor
  · rw [List.flatMap_singleton, pieces_eq]
    change _ + counted (opened s (firstPiece line)) _ = _
    rw [hopened, hcount, surplus, List.flatMap_singleton]
    rfl
  · rw [List.flatMap_singleton, pieces_eq, List.foldl_cons]
    change List.foldl opened (opened s (firstPiece line)) _ = _
    rw [hopened, hafter]

theorem signed_firstPiece {line : List Char} (h : signed line = true) :
    signed (firstPiece line) = true := by
  cases line with
  | nil => exact h
  | cons c rest =>
    have hb : isBreak c = false := by
      rcases signed_cons.mp h with rfl | rfl <;> rfl
    rw [firstPiece, List.takeWhile_cons_of_pos (by simp [hb])]
    exact signed_cons.mpr (signed_cons.mp h)

theorem not_hunk_firstPiece {line : List Char} (h : line.head? ≠ some '@') :
    "@@".toList.isPrefixOf (firstPiece line) = false := by
  cases line with
  | nil => rfl
  | cons c rest =>
    have hc : ('@' == c) = false := by
      rw [beq_eq_false_iff_ne]
      intro heq
      exact h (congrArg some heq.symm)
    rw [firstPiece, List.takeWhile_cons]
    split
    · exact (congrArg (· && _) hc).trans (Bool.false_and _)
    · rfl

theorem opened_closed {line : List Char} (h : line.head? ≠ some '@') :
    opened false (firstPiece line) = false := by
  unfold opened
  rw [not_hunk_firstPiece h]
  split
  · rfl
  · rfl

/-- The first character decides what a line of a hunk is. -/
theorem plain_firstPiece {c : Char} (rest : List Char) (hplus : c ≠ '+') (hminus : c ≠ '-')
    (hd : c ≠ 'd') (hat : c ≠ '@') :
    signed (firstPiece (c :: rest)) = false ∧ opens (firstPiece (c :: rest)) = false := by
  rw [firstPiece, List.takeWhile_cons]
  split
  · constructor
    · rw [← Bool.not_eq_true, signed_cons]
      simp [hplus, hminus]
    · simp [opens, List.isPrefixOf, hd.symm, hat.symm]
  · exact ⟨rfl, rfl⟩

/-- No break inside these lines splits off what looks like the start of a file or of a hunk. -/
def Unopened (lines : List (List Char)) : Prop :=
  ∀ line ∈ lines, ∀ piece ∈ fragments line, opens piece = false

/-- A line of a hunk is counted where it is changed, with what its breaks split off. -/
theorem counts_body (line : BodyLine) (h : Unopened line.lines) :
    Counts true line.lines ((if line.kind ≠ .context then 1 else 0) + surplus line.lines) true := by
  obtain ⟨hfirst, hmarker⟩ := List.forall_mem_cons.mp h
  have hline : Counts true [line.kind.mark :: line.content]
      ((if line.kind ≠ .context then 1 else 0) + surplus [line.kind.mark :: line.content]) true := by
    cases hk : line.kind with
    | context =>
      obtain ⟨hsigned, hopens⟩ := plain_firstPiece line.content (c := LineKind.context.mark)
        (by decide) (by decide) (by decide) (by decide)
      have hcounts := Counts.line (hk ▸ hfirst) (opened_of_not_opens hopens true)
      rw [hsigned] at hcounts
      exact hcounts
    | removed =>
      have hsigned : signed (firstPiece (LineKind.removed.mark :: line.content)) = true :=
        signed_firstPiece (signed_cons.mpr (Or.inr rfl))
      have hcounts := Counts.line (hk ▸ hfirst) (opened_signed hsigned true)
      rw [hsigned] at hcounts
      exact hcounts
    | added =>
      have hsigned : signed (firstPiece (LineKind.added.mark :: line.content)) = true :=
        signed_firstPiece (signed_cons.mpr (Or.inl rfl))
      have hcounts := Counts.line (hk ▸ hfirst) (opened_signed hsigned true)
      rw [hsigned] at hcounts
      exact hcounts
  unfold BodyLine.lines
  split
  · rename_i hu
    rw [if_pos hu] at hmarker
    obtain ⟨hsigned, hopens⟩ := plain_firstPiece (c := '\\') " No newline at end of file".toList
      (by decide) (by decide) (by decide) (by decide)
    have hcounts := Counts.line (hmarker _ (List.mem_singleton_self _))
      (opened_of_not_opens hopens true)
    have hnone : signed (firstPiece "\\ No newline at end of file".toList) = false := hsigned
    rw [hnone] at hcounts
    have hboth := hline.append hcounts
    rw [← List.singleton_append, surplus_append, ← Nat.add_assoc]
    simpa using hboth
  · exact hline

theorem counts_lines (body : List BodyLine) (h : Unopened (body.flatMap BodyLine.lines)) :
    Counts true (body.flatMap BodyLine.lines)
      (body.countP (fun line => line.kind ≠ .context) + surplus (body.flatMap BodyLine.lines))
      true := by
  induction body with
  | nil => exact Counts.nil true
  | cons line body ih =>
    rw [List.flatMap_cons] at h
    obtain ⟨hline, hbody⟩ := List.forall_mem_append.mp h
    have hboth := (counts_body line hline).append (ih hbody)
    rw [List.flatMap_cons, surplus_append, List.countP_cons]
    convert hboth using 1
    simp only [decide_eq_true_eq]
    omega

theorem counts_hunks (hunks : List Hunk) (old new : Nat) (h : Unopened (hunkLines old new hunks))
    (s : Bool) : ∃ t, Counts s (hunkLines old new hunks)
      ((hunks.flatMap Hunk.body).countP (fun line => line.kind ≠ .context) +
        surplus (hunkLines old new hunks)) t := by
  induction hunks generalizing old new s with
  | nil => exact ⟨s, Counts.nil s⟩
  | cons k rest ih =>
    rw [hunkLines] at h ⊢
    obtain ⟨hfront, hrest⟩ := List.forall_mem_append.mp h
    obtain ⟨hheader, hbody⟩ := List.forall_mem_cons.mp hfront
    obtain ⟨t, ht⟩ := ih _ _ hrest true
    obtain ⟨tail, htail⟩ : ∃ tail, k.header old new = '@' :: '@' :: tail := ⟨_, rfl⟩
    have hfirst : firstPiece (k.header old new) = '@' :: '@' :: firstPiece tail := by
      rw [htail]
      rfl
    have hopened : opened s (firstPiece (k.header old new)) = true := by
      rw [hfirst]
      rfl
    have hsigned : signed (firstPiece (k.header old new)) = false := by
      rw [hfirst]
      rfl
    have hopen := Counts.line hheader hopened
    rw [hsigned, Bool.and_false] at hopen
    refine ⟨t, ?_⟩
    have hall := (hopen.append (counts_lines k.body hbody)).append ht
    rw [← List.singleton_append, surplus_append, surplus_append, List.flatMap_cons,
      List.countP_append]
    have hlines : k.bodyLines = k.body.flatMap BodyLine.lines := rfl
    rw [hlines]
    convert hall using 1
    simp only [Bool.false_eq_true, if_false, if_true]
    omega

theorem counts_section (quotePath : Bool) (f : FileChange) (h : Unopened (f.lines quotePath))
    (s : Bool) : ∃ t, Counts s (f.lines quotePath)
      (f.body.countP (fun line => line.kind ≠ .context) + surplus (hunkLines 1 1 f.hunks)) t := by
  rw [FileChange.lines] at h ⊢
  obtain ⟨hfront, hhunks⟩ := List.forall_mem_append.mp h
  obtain ⟨hfirst, hheaders⟩ := List.forall_mem_cons.mp hfront
  obtain ⟨t, ht⟩ := counts_hunks f.hunks 1 1 hhunks false
  have hopen : Counts s [f.firstLine quotePath] 0 false := by
    obtain ⟨tail, htail⟩ : ∃ tail, f.firstLine quotePath = "diff --git".toList ++ tail :=
      ⟨_, rfl⟩
    have hpiece : firstPiece (f.firstLine quotePath) = "diff --git".toList ++ firstPiece tail := by
      have hplain : ∀ c ∈ "diff --git".toList, (!isBreak c) = true := List.all_eq_true.mp rfl
      rw [firstPiece, htail, List.takeWhile_append_of_pos hplain]
      rfl
    have hgit : "diff --git".toList.isPrefixOf (firstPiece (f.firstLine quotePath)) = true := by
      rw [hpiece, List.isPrefixOf_iff_prefix]
      exact List.prefix_append _ _
    have hsigned : signed (firstPiece (f.firstLine quotePath)) = false := by
      rw [← Bool.not_eq_true]
      intro hsigned
      rw [(not_marker_of_signed hsigned).1] at hgit
      cases hgit
    have hcounts := Counts.line hfirst (if_pos hgit : opened s _ = false)
    rw [hsigned, Bool.and_false] at hcounts
    exact hcounts
  have hlines : ∀ texts : List (List Char), (∀ l ∈ texts, l ∈ f.headerLines quotePath) →
      Counts false texts 0 false := by
    intro texts
    induction texts with
    | nil => exact fun _ => Counts.nil false
    | cons text texts ih =>
      intro hall
      obtain ⟨htext, htexts⟩ := List.forall_mem_cons.mp hall
      have hat : text.head? ≠ some '@' := by
        rcases headerLine_head quotePath f text htext with ⟨c, hc, -, hne⟩ | ⟨rest, hrest⟩
        · rw [hc]
          exact fun heq => hne (Option.some.inj heq)
        · rw [hrest]
          exact fun heq => by cases heq
      exact (Counts.line (hheaders text htext) (opened_closed hat)).append (ih htexts)
  refine ⟨t, ?_⟩
  have hall := (hopen.append (hlines _ (fun _ hmem => hmem))).append ht
  rw [Nat.add_zero, Nat.zero_add] at hall
  exact hall

theorem counts_diff (quotePath : Bool) (changes : List FileChange)
    (h : ∀ f ∈ changes, Unopened (f.lines quotePath)) (s : Bool) :
    ∃ t, Counts s (changes.flatMap (FileChange.lines quotePath))
      ((changes.map (fun f => f.body.countP (fun line => line.kind ≠ .context))).sum +
        (changes.map (fun f => surplus (hunkLines 1 1 f.hunks))).sum) t := by
  induction changes generalizing s with
  | nil => exact ⟨s, Counts.nil s⟩
  | cons f changes ih =>
    obtain ⟨hf, hrest⟩ := List.forall_mem_cons.mp h
    obtain ⟨t, ht⟩ := counts_section quotePath f hf s
    obtain ⟨u, hu⟩ := ih hrest t
    refine ⟨u, ?_⟩
    rw [List.flatMap_cons, List.map_cons, List.map_cons, List.sum_cons, List.sum_cons]
    convert ht.append hu using 1
    omega

theorem countP_changed (body : List BodyLine) :
    body.countP (fun line => line.kind ≠ .context) =
      (body.filter (fun line => line.kind = .added)).length +
        (body.filter (fun line => line.kind = .removed)).length := by
  induction body with
  | nil => rfl
  | cons line body ih =>
    rw [List.countP_cons, ih, List.filter_cons, List.filter_cons]
    cases line.kind <;> simp <;> omega

/-- Insertions plus deletions, as git counts them. -/
def changedLines (changes : List FileChange) : Nat :=
  (changes.map (fun f => (f.contents .added).length + (f.contents .removed).length)).sum

/-- The counter is off by what the breaks inside the lines of hunks split off. -/
theorem diffLineCount_eq (quotePath : Bool) (changes : List FileChange)
    (h : ∀ f ∈ changes, Unopened (f.lines quotePath)) :
    diffLineCount (diffText quotePath changes) =
      changedLines changes + (changes.map (fun f => surplus (hunkLines 1 1 f.hunks))).sum := by
  have htext : diffText quotePath changes =
      (changes.flatMap (FileChange.lines quotePath)).flatMap (· ++ ['\n']) := by
    rw [diffText, List.flatMap_assoc]
    rfl
  have hlines : ∀ line ∈ changes.flatMap (FileChange.lines quotePath), '\n' ∉ line := by
    intro line hline
    obtain ⟨f, -, hf⟩ := List.mem_flatMap.mp hline
    exact newline_not_mem_lines quotePath f line hf
  obtain ⟨t, ht⟩ := counts_diff quotePath changes h false
  rw [diffLineCount_counted, htext, splitlines_lines hlines, ht.count]
  congr 2
  refine List.map_congr_left (fun f _ => ?_)
  rw [countP_changed]
  simp only [FileChange.contents, List.length_map]

/-- What the claim says of a diff: the count is git's, and the parser of the hunks finds the added
lines. -/
structure CountedRight (quotePath : Bool) (changes : List FileChange) : Prop where
  count : diffLineCount (diffText quotePath changes) = changedLines changes
  additions : ∀ f ∈ changes, hunkAdditions (ended (hunkLines 1 1 f.hunks)) =
    .ok (joined (f.contents .added))

/-- No break inside a line of a hunk splits off what looks like a changed line. -/
def Unsigned (changes : List FileChange) : Prop :=
  ∀ f ∈ changes, ∀ line ∈ hunkLines 1 1 f.hunks, ∀ piece ∈ fragments line, signed piece = false

/-- The counter gives the insertions plus deletions of a diff where no break inside a line splits
off what looks like the start of a file or of a hunk, and none inside a line of a hunk what looks
like a changed line. Where only the latter fails, the count is wrong. -/
theorem diff_line_count_exact (quotePath : Bool) (changes : List FileChange)
    (h : ∀ f ∈ changes, Unopened (f.lines quotePath)) :
    CountedRight quotePath changes ↔ Unsigned changes := by
  have hcount := diffLineCount_eq quotePath changes h
  have hzero : (changes.map (fun f => surplus (hunkLines 1 1 f.hunks))).sum = 0 ↔
      Unsigned changes := by
    rw [List.sum_eq_zero_iff]
    simp only [List.mem_map, forall_exists_index, and_imp, forall_apply_eq_imp_iff₂,
      surplus_eq_zero]
    rfl
  rw [← hzero]
  constructor
  · intro hright
    have hsame := hright.count
    omega
  · intro hnone
    refine ⟨by omega, fun f _ => hunkAdditions_hunkLines f.counted⟩

def plainPath : GitPath where
  units := [.char 'a']
  nonempty := List.cons_ne_nil _ _
  noNul := by simp

theorem word_oneLine : '\n' ∉ "word".toList := by decide

/-- A plain word added: one line. -/
theorem added_word_counted :
    diffLineCount (diffText true [lineAdded plainPath "word".toList word_oneLine]) = 1 := by
  have hfragments : ∀ line ∈ (lineAdded plainPath "word".toList word_oneLine).lines true,
      fragments line = [] := by
    decide +kernel
  have hunopened : ∀ f ∈ [lineAdded plainPath "word".toList word_oneLine],
      Unopened (f.lines true) := by
    intro f hf line hline piece hpiece
    rw [List.mem_singleton.mp hf] at hline
    rw [hfragments line hline] at hpiece
    cases hpiece
  have hunsigned : Unsigned [lineAdded plainPath "word".toList word_oneLine] := by
    intro f hf line hline piece hpiece
    rw [List.mem_singleton.mp hf] at hline
    have hmem : line ∈ (lineAdded plainPath "word".toList word_oneLine).lines true :=
      List.mem_append_right _ hline
    rw [hfragments line hmem] at hpiece
    cases hpiece
  exact ((diff_line_count_exact true _ hunopened).mpr hunsigned).count

theorem formFeed_oneLine : '\n' ∉ "a\x0c+b".toList := by decide

/-- A form feed inside an added line: one insertion is counted twice. -/
theorem form_feed_counted_twice :
    diffLineCount (diffText true [lineAdded plainPath "a\x0c+b".toList formFeed_oneLine]) = 2 ∧
      ¬∀ changes : List FileChange, diffLineCount (diffText true changes) = (changes.map (fun f =>
        (f.contents .added).length + (f.contents .removed).length)).sum := by
  have hcount : diffLineCount
      (diffText true [lineAdded plainPath "a\x0c+b".toList formFeed_oneLine]) = 2 := by
    decide +kernel
  refine ⟨hcount, ?_⟩
  intro h
  have hone := h [lineAdded plainPath "a\x0c+b".toList formFeed_oneLine]
  rw [hcount] at hone
  cases hone

end Sediment.Proofs.RecoveryDiffSize

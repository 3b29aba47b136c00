import Sediment.Proofs.DiffHeaders

namespace Sediment.Proofs.DiffSections
open Sediment.Base Sediment.Base.GitPatch Sediment.Derive.Diff
open Sediment.Base.Lines (framed framed_line)
open Sediment.Core (isSpace)
open DiffPaths DiffHunks DiffHeaders CodexPatch

/-- The texts of the sections of a diff. -/
def patches (text : List Char) : List (List Char) := splitSections [] (framed [] text)

theorem splitSections_append {current a b : List (List Char)} (hne : current ++ a ≠ [])
    (hb : ∀ line, b.head? = some line → startsWith line "diff " = true) :
    splitSections current (a ++ b) = splitSections current a ++ splitSections [] b := by
  induction a generalizing current with
  | nil =>
    rw [List.append_nil] at hne
    cases b with
    | nil => simp [splitSections]
    | cons line b =>
      have hclose : splitSections current (line :: b) =
          current.flatten :: splitSections [line] b := by
        rw [splitSections, if_pos ⟨hb line rfl, hne⟩]
      have hopen : splitSections [] (line :: b) = splitSections [line] b := by
        rw [splitSections, if_neg (by simp)]
        rfl
      have hend : splitSections current [] = [current.flatten] := by
        rw [splitSections, if_neg hne]
      rw [List.nil_append, hclose, hopen, hend]
      rfl
  | cons line a ih =>
    rw [List.cons_append, splitSections, splitSections]
    split
    · rw [ih (by simp), List.cons_append]
    · rw [ih (by simp)]

/-- A text that ends its last line. -/
def Complete (text : List Char) : Prop := ∃ front, text = front ++ ['\n']

theorem framed_append {a : List Char} (ha : Complete a) (b : List Char) :
    framed [] (a ++ b) = framed [] a ++ framed [] b := by
  obtain ⟨front, hfront⟩ := ha
  rw [hfront]
  clear hfront
  induction front using Lines.line_induction with
  | last tail h =>
    rw [framed_line h, framed, if_pos rfl, List.append_assoc, List.singleton_append, framed_line h]
    rfl
  | step line rest h ih =>
    have hassoc : ∀ s : List Char, line ++ '\n' :: rest ++ ['\n'] ++ s =
        line ++ '\n' :: (rest ++ ['\n'] ++ s) := by
      intro s
      simp
    have hnil := hassoc []
    rw [List.append_nil, List.append_nil] at hnil
    rw [hassoc, hnil, framed_line h, framed_line h, ih, List.cons_append]

/-- A section starts with the word that closes the one before it. -/
def Opens (text : List Char) : Prop := text = [] ∨ startsWith text "diff " = true

theorem head_framed {text : List Char} (h : Opens text) :
    ∀ line, (framed [] text).head? = some line → startsWith line "diff " = true := by
  have hno : '\n' ∉ "diff ".toList := by decide
  rcases h with hnil | hstart
  · rw [hnil]
    intro line hline
    cases hline
  · rw [startsWith, List.isPrefixOf_iff_prefix] at hstart
    obtain ⟨rest, hrest⟩ := hstart
    intro line hline
    have hin : ∃ tail, line = "diff ".toList ++ tail := by
      by_cases hnl : '\n' ∈ rest
      · obtain ⟨front, back, hsplit, hfront⟩ := List.eq_append_cons_of_mem hnl
        have htext : text = ("diff ".toList ++ front) ++ '\n' :: back := by
          rw [← hrest, hsplit, List.append_assoc]
        rw [htext, framed_line (by simp [hfront])] at hline
        exact ⟨front ++ ['\n'], by rw [← Option.some.inj hline, List.append_assoc]⟩
      · rw [← hrest, Lines.framed_last (by simp [hnl]), if_neg (by simp)] at hline
        exact ⟨rest, (Option.some.inj hline).symm⟩
    obtain ⟨tail, htail⟩ := hin
    rw [htail]
    exact startsWith_append "diff " tail

theorem patches_append {a b : List Char} (ha : Complete a) (hb : Opens b) :
    patches (a ++ b) = patches a ++ patches b := by
  have hne : [] ++ framed [] a ≠ [] := by
    intro hnil
    have hflat := Lines.flatten_framed [] a
    obtain ⟨front, hfront⟩ := ha
    rw [List.nil_append] at hnil hflat
    rw [hnil, hfront] at hflat
    simp at hflat
  rw [patches, framed_append ha, splitSections_append hne (head_framed hb)]
  rfl

/-- Only the first line of a section starts with the word that opens one. -/
theorem splitSections_single {current lines : List (List Char)} (hne : current ≠ [])
    (h : ∀ line ∈ lines, startsWith line "diff " = false) :
    splitSections current lines = [(current ++ lines).flatten] := by
  induction lines generalizing current with
  | nil => rw [splitSections, if_neg hne, List.append_nil]
  | cons line lines ih =>
    obtain ⟨hline, hlines⟩ := List.forall_mem_cons.mp h
    rw [splitSections, if_neg (by simp [hline]), ih (by simp) hlines, List.append_assoc]
    rfl

theorem not_diff_of_head {text : List Char} {c : Char} (h : text.head? = some c) (hc : c ≠ 'd') :
    startsWith text "diff " = false := by
  cases text with
  | nil => cases h
  | cons d text =>
    cases h
    rw [Bool.eq_false_iff]
    intro hstart
    rw [startsWith, List.isPrefixOf_iff_prefix] at hstart
    obtain ⟨rest, hrest⟩ := hstart
    exact hc (List.cons.inj hrest).1.symm

theorem not_diff_hunkLines (hunks : List Hunk) (old new : Nat) :
    ∀ line ∈ ended (hunkLines old new hunks), startsWith line "diff " = false := by
  induction hunks generalizing old new with
  | nil => simp [hunkLines, ended]
  | cons h rest ih =>
    intro line hline
    rw [hunkLines, List.cons_append, ended, List.map_cons, List.map_append, List.mem_cons,
      List.mem_append] at hline
    rcases hline with heq | hbody | hrest
    · rw [heq]
      unfold Hunk.header
      exact not_diff_of_head (c := '@') rfl (by decide)
    · obtain ⟨text, htext, heq⟩ := List.mem_map.mp hbody
      obtain ⟨body, -, hin⟩ := List.mem_flatMap.mp htext
      rw [← heq]
      unfold BodyLine.lines at hin
      rcases List.mem_cons.mp hin with hmark | hmarker
      · rw [hmark]
        refine not_diff_of_head (c := body.kind.mark) rfl ?_
        cases body.kind <;> decide
      · split at hmarker
        · rw [List.mem_singleton.mp hmarker]
          exact not_diff_of_head (c := '\\') rfl (by decide)
        · cases hmarker
    · exact ih _ _ line hrest

/-- What the lines between the first one and the hunks begin with. -/
theorem headerLine_head (quotePath : Bool) (f : FileChange) :
    ∀ line ∈ f.headerLines quotePath,
      (∃ c, line.head? = some c ∧ c ≠ 'd' ∧ c ≠ '@') ∨ ∃ rest, line = "de".toList ++ rest := by
  have hmodes : ∀ modes : Modes, ∀ line ∈ modeLines modes, line.head? = some 'o' ∨
      line.head? = some 'n' := by
    intro modes line hline
    cases modes with
    | same => cases hline
    | changed old new =>
      simp only [modeLines, List.mem_cons, List.not_mem_nil, or_false] at hline
      rcases hline with heq | heq
      · exact Or.inl (by rw [heq]; rfl)
      · exact Or.inr (by rw [heq]; rfl)
  intro line hline
  rw [FileChange.headerLines, List.mem_append, List.mem_append] at hline
  rcases hline with (hchange | hindex) | hfiles
  · cases hc : f.change with
    | added path mode =>
      rw [hc] at hchange
      rw [List.mem_singleton.mp hchange]
      exact Or.inl ⟨'n', rfl, by decide⟩
    | deleted path mode =>
      rw [hc] at hchange
      rw [List.mem_singleton.mp hchange]
      exact Or.inr ⟨_, rfl⟩
    | modified path modes =>
      rw [hc] at hchange
      rcases hmodes modes line hchange with h | h
      · exact Or.inl ⟨'o', h, by decide⟩
      · exact Or.inl ⟨'n', h, by decide⟩
    | renamed old new modes similarity =>
      rw [hc] at hchange
      rcases List.mem_append.mp hchange with hmode | hname
      · rcases hmodes modes line hmode with h | h
        · exact Or.inl ⟨'o', h, by decide⟩
        · exact Or.inl ⟨'n', h, by decide⟩
      · simp only [List.mem_cons, List.not_mem_nil, or_false] at hname
        rcases hname with heq | heq | heq
        · exact Or.inl ⟨'s', by rw [heq]; rfl, by decide⟩
        · exact Or.inl ⟨'r', by rw [heq]; rfl, by decide⟩
        · exact Or.inl ⟨'r', by rw [heq]; rfl, by decide⟩
  · split at hindex
    · rw [List.mem_singleton.mp hindex]
      unfold FileChange.indexLine
      exact Or.inl ⟨'i', rfl, by decide⟩
    · cases hindex
  · unfold FileChange.fileLines at hfiles
    split at hfiles
    · cases hfiles
    · simp only [List.mem_cons, List.not_mem_nil, or_false] at hfiles
      rcases hfiles with heq | heq
      · exact Or.inl ⟨'-', by rw [heq]; rfl, by decide⟩
      · exact Or.inl ⟨'+', by rw [heq]; rfl, by decide⟩

theorem not_diff_headerLines (quotePath : Bool) (f : FileChange) :
    ∀ line ∈ ended (f.headerLines quotePath), startsWith line "diff " = false := by
  intro line hline
  obtain ⟨text, htext, heq⟩ := List.mem_map.mp hline
  rw [← heq]
  rcases headerLine_head quotePath f text htext with ⟨c, hc, hne, -⟩ | ⟨rest, hrest⟩
  · refine not_diff_of_head (c := c) ?_ hne
    rw [List.head?_append, hc]
    rfl
  · rw [hrest]
    rfl

theorem text_eq (quotePath : Bool) (f : FileChange) :
    f.text quotePath = (ended (f.lines quotePath)).flatten := by
  rw [FileChange.text, List.flatMap_def]
  rfl

theorem patches_text (quotePath : Bool) (f : FileChange) :
    patches (f.text quotePath) = [f.text quotePath] := by
  rw [patches, framed_text, text_eq, FileChange.lines, List.cons_append, ended, List.map_cons,
    splitSections, if_neg (by simp), splitSections_single (by simp)]
  · rfl
  · intro line hline
    rw [List.map_append, List.mem_append] at hline
    rcases hline with hheader | hhunk
    · exact not_diff_headerLines quotePath f line hheader
    · exact not_diff_hunkLines f.hunks 1 1 line hhunk

theorem complete_text (quotePath : Bool) (f : FileChange) : Complete (f.text quotePath) := by
  have hlines : ∀ (first : List Char) (rest : List (List Char)),
      Complete ((first :: rest).flatMap (· ++ ['\n'])) := by
    intro first rest
    induction rest generalizing first with
    | nil => exact ⟨first, by simp⟩
    | cons next rest ih =>
      obtain ⟨front, hfront⟩ := ih next
      exact ⟨first ++ ['\n'] ++ front, by rw [List.flatMap_cons, hfront, List.append_assoc _ front]⟩
  exact hlines _ _

theorem opens_text (quotePath : Bool) (f : FileChange) :
    startsWith (f.text quotePath) "diff --git" = true := by
  rw [FileChange.text, FileChange.lines, List.cons_append, List.flatMap_cons]
  unfold FileChange.firstLine
  rw [startsWith, List.isPrefixOf_iff_prefix]
  simp only [List.append_assoc]
  exact ⟨' ' :: _, rfl⟩

def skipCount (reason : DiffSkipReason) (result : DiffParseResult) : Nat :=
  (result.skipped.get? reason).getD 0

/-- What one section adds, before any other. -/
def sectionOf (patch : List Char) : Option DiffSection :=
  if patch.all isSpace then none else (parseSection patch).toOption

def skipOf (patch : List Char) : Option DiffSkipReason :=
  if patch.all isSpace then none
  else match parseSection patch with
    | .ok _ => none
    | .error reason => some reason

theorem add_sections (result : DiffParseResult) (patch : List Char) :
    (result.add patch).sections = result.sections ++ (sectionOf patch).toList := by
  unfold DiffParseResult.add sectionOf
  split
  · simp
  · cases parseSection patch <;> simp [Except.toOption]

theorem add_skipped (result : DiffParseResult) (patch : List Char) (reason : DiffSkipReason) :
    skipCount reason (result.add patch) =
      skipCount reason result + if skipOf patch = some reason then 1 else 0 := by
  unfold DiffParseResult.add skipOf
  split
  · simp
  · cases parseSection patch with
    | ok parsed => simp [skipCount]
    | error other =>
      simp only [skipCount, Dict.get?_alter, Option.some.injEq]
      by_cases heq : other = reason
      · simp [heq]
      · rw [if_neg (fun h => heq h.symm), if_neg heq, Nat.add_zero]

theorem foldl_add (result : DiffParseResult) (texts : List (List Char)) :
    (texts.foldl DiffParseResult.add result).sections =
        result.sections ++ texts.filterMap sectionOf ∧
      ∀ reason, skipCount reason (texts.foldl DiffParseResult.add result) =
        skipCount reason result + texts.countP (fun text => skipOf text = some reason) := by
  induction texts generalizing result with
  | nil => simp
  | cons text texts ih =>
    obtain ⟨hsections, hskips⟩ := ih (result.add text)
    rw [List.foldl_cons]
    constructor
    · rw [hsections, add_sections, List.filterMap_cons]
      cases sectionOf text <;> simp
    · intro reason
      rw [hskips, add_skipped, List.countP_cons]
      simp only [decide_eq_true_eq]
      omega

theorem parseDiffSections_eq (text : List Char) :
    (parseDiffSections text).sections = (patches text).filterMap sectionOf ∧
      ∀ reason, skipCount reason (parseDiffSections text) =
        (patches text).countP (fun patch => skipOf patch = some reason) := by
  obtain ⟨hsections, hskips⟩ := foldl_add {} (patches text)
  refine ⟨hsections, ?_⟩
  intro reason
  have hzero : skipCount reason {} = 0 := rfl
  rw [parseDiffSections, ← patches, hskips, hzero, Nat.zero_add]

theorem add_text (quotePath : Bool) {f : FileChange} (h : TextPaths f)
    (result : DiffParseResult) :
    result.add (f.text quotePath) =
      { result with sections := result.sections ++ [recovered quotePath f] } := by
  have hblank : (f.text quotePath).all isSpace = false := by
    have hstart := opens_text quotePath f
    rw [startsWith, List.isPrefixOf_iff_prefix] at hstart
    obtain ⟨rest, hrest⟩ := hstart
    rw [← hrest]
    rfl
  rw [DiffParseResult.add]
  simp only [hblank, parseSection_text quotePath h, Bool.false_eq_true, if_false]

/-- A text in the place of a section: a first line of git, and no line left open. -/
structure Broken where
  text : List Char
  starts : startsWith text "diff --git" = true
  complete : Complete text

def pieceText (quotePath : Bool) : FileChange ⊕ Broken → List Char
  | .inl f => f.text quotePath
  | .inr b => b.text

/-- What a piece gives when it is read alone. -/
def pieceSections (quotePath : Bool) : FileChange ⊕ Broken → List DiffSection
  | .inl f => [recovered quotePath f]
  | .inr b => (parseDiffSections b.text).sections

def pieceSkips (reason : DiffSkipReason) : FileChange ⊕ Broken → Nat
  | .inl _ => 0
  | .inr b => skipCount reason (parseDiffSections b.text)

theorem opens_of_git {text : List Char} (h : startsWith text "diff --git" = true) : Opens text := by
  right
  rw [startsWith, List.isPrefixOf_iff_prefix] at h ⊢
  obtain ⟨rest, hrest⟩ := h
  exact ⟨"--git".toList ++ rest, hrest⟩

theorem pieceText_spec (quotePath : Bool) (piece : FileChange ⊕ Broken) :
    Complete (pieceText quotePath piece) ∧ startsWith (pieceText quotePath piece) "diff --git" := by
  cases piece with
  | inl f => exact ⟨complete_text quotePath f, opens_text quotePath f⟩
  | inr b => exact ⟨b.complete, b.starts⟩

theorem opens_pieces (quotePath : Bool) (pieces : List (FileChange ⊕ Broken)) {tail : List Char}
    (h : Opens tail) : Opens (pieces.flatMap (pieceText quotePath) ++ tail) := by
  cases pieces with
  | nil => exact h
  | cons piece pieces =>
    apply opens_of_git
    have hstart := (pieceText_spec quotePath piece).2
    rw [startsWith, List.isPrefixOf_iff_prefix] at hstart ⊢
    rw [List.flatMap_cons, List.append_assoc]
    exact hstart.trans (List.prefix_append _ _)

theorem pieceSections_eq (quotePath : Bool) {piece : FileChange ⊕ Broken}
    (h : ∀ f, piece = .inl f → TextPaths f) :
    (patches (pieceText quotePath piece)).filterMap sectionOf = pieceSections quotePath piece ∧
      ∀ reason, (patches (pieceText quotePath piece)).countP
        (fun patch => skipOf patch = some reason) = pieceSkips reason piece := by
  cases piece with
  | inl f =>
    have hpaths := h f rfl
    have hadd := add_text quotePath hpaths {}
    have hsection := add_sections {} (f.text quotePath)
    rw [hadd] at hsection
    refine ⟨?_, ?_⟩
    · rw [pieceText, patches_text, pieceSections, List.filterMap_cons, List.filterMap_nil]
      cases hone : sectionOf (f.text quotePath) with
      | none =>
        rw [hone] at hsection
        cases hsection
      | some parsed =>
        rw [hone] at hsection
        exact hsection.symm
    · intro reason
      have hskip := add_skipped {} (f.text quotePath) reason
      rw [hadd] at hskip
      rw [pieceText, patches_text, pieceSkips, List.countP_cons, List.countP_nil]
      have hzero : skipCount reason {} = 0 := rfl
      have hsame : skipCount reason { ({} : DiffParseResult) with
          sections := ({} : DiffParseResult).sections ++ [recovered quotePath f] } = 0 := rfl
      rw [hsame, hzero] at hskip
      simp only [decide_eq_true_eq]
      omega
  | inr b =>
    obtain ⟨hsections, hskips⟩ := parseDiffSections_eq b.text
    exact ⟨hsections.symm, fun reason => (hskips reason).symm⟩

theorem patches_pieces (quotePath : Bool) (pieces : List (FileChange ⊕ Broken))
    {tail : List Char} (h : Opens tail) :
    patches (pieces.flatMap (pieceText quotePath) ++ tail) =
      pieces.flatMap (fun piece => patches (pieceText quotePath piece)) ++ patches tail := by
  induction pieces with
  | nil => rfl
  | cons piece pieces ih =>
    rw [List.flatMap_cons, List.append_assoc,
      patches_append (pieceText_spec quotePath piece).1 (opens_pieces quotePath pieces h), ih,
      List.flatMap_cons, List.append_assoc]

/-- Every section is read as if it stood alone. -/
theorem sections_apart (quotePath : Bool) {pieces : List (FileChange ⊕ Broken)}
    {tail : List Char} (h : ∀ f, .inl f ∈ pieces → TextPaths f) (htail : Opens tail) :
    (parseDiffSections (pieces.flatMap (pieceText quotePath) ++ tail)).sections =
        pieces.flatMap (pieceSections quotePath) ++ (parseDiffSections tail).sections ∧
      ∀ reason, skipCount reason
          (parseDiffSections (pieces.flatMap (pieceText quotePath) ++ tail)) =
        (pieces.map (pieceSkips reason)).sum + skipCount reason (parseDiffSections tail) := by
  obtain ⟨hsections, hskips⟩ :=
    parseDiffSections_eq (pieces.flatMap (pieceText quotePath) ++ tail)
  obtain ⟨htailSections, htailSkips⟩ := parseDiffSections_eq tail
  rw [patches_pieces quotePath pieces htail] at hsections hskips
  constructor
  · rw [hsections, htailSections, List.filterMap_append, List.filterMap_flatMap]
    congr 1
    apply List.flatMap_congr
    intro piece hpiece
    exact (pieceSections_eq quotePath (fun f hf => h f (hf ▸ hpiece))).1
  · intro reason
    rw [hskips, htailSkips, List.countP_append, List.countP_flatMap]
    congr 2
    apply List.map_congr_left
    intro piece hpiece
    exact (pieceSections_eq quotePath (fun f hf => h f (hf ▸ hpiece))).2 reason

theorem foldl_add_texts (quotePath : Bool) {changes : List FileChange}
    (h : ∀ f ∈ changes, TextPaths f) (result : DiffParseResult) :
    (changes.map (FileChange.text quotePath)).foldl DiffParseResult.add result =
      { result with sections := result.sections ++ changes.map (recovered quotePath) } := by
  induction changes generalizing result with
  | nil => simp
  | cons f changes ih =>
    obtain ⟨hf, hchanges⟩ := List.forall_mem_cons.mp h
    rw [List.map_cons, List.foldl_cons, add_text quotePath hf, ih hchanges, List.map_cons]
    simp

theorem patches_diffText (quotePath : Bool) (changes : List FileChange) :
    patches (diffText quotePath changes) = changes.map (FileChange.text quotePath) := by
  have hpieces := patches_pieces quotePath (changes.map .inl) (show Opens [] from Or.inl rfl)
  have hnone : patches [] = [] := rfl
  rw [List.append_nil, hnone, List.append_nil, List.flatMap_map, List.flatMap_map] at hpieces
  have hone : changes.flatMap (fun f => patches (pieceText quotePath (.inl f))) =
      changes.flatMap (fun f => [f.text quotePath]) :=
    List.flatMap_congr (fun f _ => patches_text quotePath f)
  rw [hone] at hpieces
  rw [← List.map_eq_flatMap] at hpieces
  exact hpieces

/-- Of what git writes for changes of files with names in UTF-8, every section comes back in
order with its path, its added lines and its text, and nothing is skipped. Broken sections
between them change nothing of the others. -/
theorem diff_sections_recovered (quotePath : Bool) :
    (∀ changes : List FileChange, (∀ f ∈ changes, TextPaths f) →
      parseDiffSections (diffText quotePath changes) =
        { sections := changes.map (recovered quotePath) }) ∧
    ∀ (pieces : List (FileChange ⊕ Broken)) (tail : List Char),
      (∀ f, .inl f ∈ pieces → TextPaths f) → Opens tail →
      (parseDiffSections (pieces.flatMap (pieceText quotePath) ++ tail)).sections =
          pieces.flatMap (pieceSections quotePath) ++ (parseDiffSections tail).sections ∧
        ∀ reason, skipCount reason
            (parseDiffSections (pieces.flatMap (pieceText quotePath) ++ tail)) =
          (pieces.map (pieceSkips reason)).sum + skipCount reason (parseDiffSections tail) := by
  constructor
  · intro changes h
    rw [parseDiffSections, ← patches, patches_diffText, foldl_add_texts quotePath h]
    rfl
  · intro pieces tail h htail
    exact sections_apart quotePath h htail

def plainObject : ObjectName where
  text := ['0']
  nonempty := by simp
  hex := List.forall_mem_singleton.mpr rfl

def addedLine (content : List Char) (h : '\n' ∉ content) : Hunk where
  gap := 0
  heading := none
  oneLine := by simp
  body := [⟨.added, content, h, false⟩]

/-- A change of one file that adds one line at its front. -/
def lineAdded (path : GitPath) (content : List Char) (h : '\n' ∉ content) : FileChange where
  change := .modified path (.same .regular)
  before := plainObject
  after := plainObject
  hunks := [addedLine content h]
  differs := Or.inr (by simp)
  counted := by simp [numbered, oldLength, newLength, addedLine]

def quotedPath : GitPath where
  units := [.char 'é', .char ' ', .char '"']
  nonempty := by simp
  noNul := by simp

def strayPath : GitPath where
  units := [.stray 127]
  nonempty := by simp
  noNul := by simp

theorem headerLike_oneLine : '\n' ∉ "++ b".toList := by decide

theorem quotedPath_text : ∀ f ∈ [lineAdded quotedPath "++ b".toList headerLike_oneLine],
    TextPaths f := by
  intro f hf
  rw [List.mem_singleton.mp hf]
  have htext : quotedPath.IsText := by
    intro unit hunit
    simp only [quotedPath, List.mem_cons, List.not_mem_nil, or_false] at hunit
    rcases hunit with h | h | h <;> exact ⟨_, h⟩
  exact ⟨htext, htext⟩

theorem quoted_path_recovered :
    parseDiffSections (diffText true [lineAdded quotedPath "++ b".toList headerLike_oneLine]) =
      { sections := [⟨"é \"".toList, "++ b".toList,
        diffText true [lineAdded quotedPath "++ b".toList headerLike_oneLine]⟩] } :=
  ((diff_sections_recovered true).1 _ quotedPath_text).trans (by
    simp [recovered, diffText, FileChange.contents, FileChange.body, lineAdded, addedLine, joined,
      Change.new, GitPath.text, quotedPath, PathUnit.toChar])

/-- A name that is not UTF-8 has no section: its bytes cannot be read. -/
theorem stray_path_declined :
    ¬∀ changes : List FileChange, parseDiffSections (diffText true changes) =
      { sections := changes.map (recovered true) } := by
  intro h
  have hstray := congrArg (fun result => result.sections.length)
    (h [lineAdded strayPath "++ b".toList headerLike_oneLine])
  have hnone : (parseDiffSections (diffText true
      [lineAdded strayPath "++ b".toList headerLike_oneLine])).sections.length = 0 := by
    decide +kernel
  rw [List.map_singleton, List.length_singleton, hnone] at hstray
  cases hstray

end Sediment.Proofs.DiffSections

import Sediment.Proofs.DiffHunks
import Sediment.Proofs.DiffPaths

namespace Sediment.Proofs.DiffHeaders
open Sediment.Base Sediment.Base.GitPatch Sediment.Derive.Diff
open Sediment.Base.Lines (chomp chomp_end framed framed_lines)
open Sediment.Base.JsonScan (encodeUtf8_lt)
open DiffPaths DiffHunks CodexPatch

def ended (lines : List (List Char)) : List (List Char) := lines.map (· ++ ['\n'])

/-- These lines take the headers from one state to another. -/
def Headed (h : SectionHeaders) (lines : List (List Char)) (h' : SectionHeaders) : Prop :=
  ∀ rest, h.read (ended lines ++ rest) = h'.read rest

theorem Headed.nil (h : SectionHeaders) : Headed h [] h := fun _ => rfl

theorem Headed.append {h h' h'' : SectionHeaders} {a b : List (List Char)} (ha : Headed h a h')
    (hb : Headed h' b h'') : Headed h (a ++ b) h'' := by
  intro rest
  rw [ended, List.map_append, List.append_assoc]
  exact (ha _).trans (hb rest)

/-- Nothing that stops the reading starts with another character than these. -/
theorem quiet_of_head {text : List Char} {c : Char} (h : text.head? = some c)
    (hc : c ≠ 'B' ∧ c ≠ 'G' ∧ c ≠ '@' ∧ c ≠ 'c') :
    unsupportedStarts.any (startsWith text) = false ∧ startsWith text "@@" = false := by
  cases text with
  | nil => cases h
  | cons d text =>
    cases h
    obtain ⟨hB, hG, hat, hcopy⟩ := hc
    have hne : ∀ (e : Char) (s : List Char), c ≠ e → (e :: s).isPrefixOf (c :: text) = false := by
      intro e s hce
      simp only [List.isPrefixOf, Bool.and_eq_false_imp, beq_iff_eq]
      intro heq
      exact absurd heq.symm hce
    refine ⟨?_, hne _ _ hat⟩
    simp only [unsupportedStarts, List.any_cons, List.any_nil, Bool.or_false]
    exact Bool.or_eq_false_iff.mpr ⟨hne _ _ hB, Bool.or_eq_false_iff.mpr ⟨hne _ _ hG,
      Bool.or_eq_false_iff.mpr ⟨hne _ _ hat, Bool.or_eq_false_iff.mpr ⟨hne _ _ hcopy,
        hne _ _ hcopy⟩⟩⟩⟩

theorem Headed.one {h h' : SectionHeaders} {text : List Char} {c : Char}
    (hhead : text.head? = some c) (hc : c ≠ 'B' ∧ c ≠ 'G' ∧ c ≠ '@' ∧ c ≠ 'c')
    (hline : h.line text = .ok h') : Headed h [text] h' := by
  intro rest
  obtain ⟨hsupported, hhunk⟩ := quiet_of_head hhead hc
  change h.read ((text ++ ['\n']) :: rest) = h'.read rest
  rw [SectionHeaders.read, chomp_end]
  simp only [hsupported, hhunk, Bool.false_eq_true, if_false, hline]

theorem startsWith_append (start : String) (rest : List Char) :
    startsWith (start.toList ++ rest) start = true := by
  rw [startsWith, List.isPrefixOf_iff_prefix]
  exact List.prefix_append _ _

/-- A line that no other reader claims. -/
structure Plainly (text : List Char) : Prop where
  notOld : startsWith text "--- " = false
  notNew : startsWith text "+++ " = false

theorem line_mode {h : SectionHeaders} {text mode : List Char} (hno : h.noFiles = true)
    (hplain : Plainly text) (hfrom : startsWith text "rename from " = false)
    (hto : startsWith text "rename to " = false) (hmode : modeLine text = some mode)
    (hfile : mode ≠ "160000".toList) :
    h.line text = .ok { h with hasChangeMetadata := true } := by
  unfold SectionHeaders.line
  simp only [hplain.notOld, hplain.notNew, hno, hfrom, hto, hmode, if_neg hfile, Bool.false_and,
    Bool.not_true, Bool.false_eq_true, if_false]

theorem line_index {h : SectionHeaders} {text : List Char} (hno : h.noFiles = true)
    (hplain : Plainly text) (hfrom : startsWith text "rename from " = false)
    (hto : startsWith text "rename to " = false) (hmode : modeLine text = none)
    (hindex : (isIndexLine text || isSimilarityLine text) = true)
    (hfile : " 160000".toList.isSuffixOf text = false) : h.line text = .ok h := by
  unfold SectionHeaders.line
  simp only [hplain.notOld, hplain.notNew, hno, hfrom, hto, hmode, hindex, hfile, Bool.false_and,
    Bool.not_true, Bool.false_eq_true, if_false, if_true]

theorem reads_mode {h : SectionHeaders} (hno : h.noFiles = true) (mode : FileMode) (start : String)
    (hstart : start ∈ ["new file mode ", "deleted file mode ", "old mode ", "new mode "]) :
    Headed h [start.toList ++ mode.text] { h with hasChangeMetadata := true } := by
  simp only [List.mem_cons, List.not_mem_nil, or_false] at hstart
  have hfile : mode.text ≠ "160000".toList := by cases mode <;> decide
  rcases hstart with hs | hs | hs | hs
  all_goals
    rw [hs]
    refine Headed.one rfl (by decide) (line_mode hno ?_ ?_ ?_ ?_ hfile)
    · cases mode <;> exact ⟨rfl, rfl⟩
    · cases mode <;> rfl
    · cases mode <;> rfl
    · cases mode <;> decide +kernel

theorem reads_similarity {h : SectionHeaders} (hno : h.noFiles = true) (n : Fin 101) :
    Headed h ["similarity index ".toList ++ decimal n ++ ['%']] h := by
  have hall : ∀ n : Fin 101,
      modeLine ("similarity index ".toList ++ decimal n ++ ['%']) = none ∧
        isSimilarityLine ("similarity index ".toList ++ decimal n ++ ['%']) = true ∧
        " 160000".toList.isSuffixOf ("similarity index ".toList ++ decimal n ++ ['%']) = false := by
    decide +kernel
  obtain ⟨hmode, hsimilar, hfile⟩ := hall n
  refine Headed.one rfl (by decide) (line_index hno ⟨rfl, rfl⟩ rfl rfl hmode ?_ hfile)
  rw [hsimilar, Bool.or_true]

theorem reads_renameFrom (quotePath : Bool) {h : SectionHeaders} {old : GitPath}
    (hno : h.noFiles = true) (hnew : h.renameOld = none) (hold : old.IsText) :
    Headed h ["rename from ".toList ++ token quotePath [] old]
      { h with renameOld := some old.text, hasChangeMetadata := true } := by
  refine Headed.one rfl (by decide) ?_
  unfold SectionHeaders.line
  have hgit := gitPath_token quotePath hold plain_nil
  have hdrop : ("rename from ".toList ++ token quotePath [] old).drop 12 =
      token quotePath [] old := List.drop_left' rfl
  have hstart := startsWith_append "rename from " (token quotePath [] old)
  have holdMark : startsWith ("rename from ".toList ++ token quotePath [] old) "--- " = false := rfl
  have hnewMark : startsWith ("rename from ".toList ++ token quotePath [] old) "+++ " = false := rfl
  simp only [holdMark, hnewMark, hno, hstart, hnew, hdrop, hgit, Bool.false_and, Bool.not_true,
    Bool.false_eq_true, if_false, if_true, Option.isSome_none, List.nil_append]

theorem reads_renameTo (quotePath : Bool) {h : SectionHeaders} {new : GitPath}
    (hno : h.noFiles = true) (hnone : h.renameNew = none) (hnew : new.IsText) :
    Headed h ["rename to ".toList ++ token quotePath [] new]
      { h with renameNew := some new.text, hasChangeMetadata := true } := by
  refine Headed.one rfl (by decide) ?_
  unfold SectionHeaders.line
  have hgit := gitPath_token quotePath hnew plain_nil
  have hdrop : ("rename to ".toList ++ token quotePath [] new).drop 10 =
      token quotePath [] new := List.drop_left' rfl
  have hstart := startsWith_append "rename to " (token quotePath [] new)
  have holdMark : startsWith ("rename to ".toList ++ token quotePath [] new) "--- " = false := rfl
  have hnewMark : startsWith ("rename to ".toList ++ token quotePath [] new) "+++ " = false := rfl
  have hfrom : startsWith ("rename to ".toList ++ token quotePath [] new) "rename from " = false :=
    rfl
  simp only [holdMark, hnewMark, hno, hstart, hfrom, hnone, hdrop, hgit, Bool.false_and,
    Bool.not_true, Bool.false_eq_true, if_false, if_true, Option.isSome_none, List.nil_append]

theorem reads_oldFile {h : SectionHeaders} {name : List Char} {path : Option (List Char)}
    (hno : h.noFiles = true) (hname : fileHeader name "a/" = .ok path) :
    Headed h ["--- ".toList ++ name] { h with old := some path } := by
  refine Headed.one rfl (by decide) ?_
  unfold SectionHeaders.line
  have hdrop : ("--- ".toList ++ name).drop 4 = name := List.drop_left' rfl
  simp only [startsWith_append, hno, hdrop, hname, Bool.and_self, if_true]

theorem reads_newFile {h : SectionHeaders} {name : List Char} {path : Option (List Char)}
    (hold : h.old.isSome = true) (hnone : h.new = none)
    (hname : fileHeader name "b/" = .ok path) :
    Headed h ["+++ ".toList ++ name] { h with new := some path } := by
  refine Headed.one rfl (by decide) ?_
  unfold SectionHeaders.line
  have hdrop : ("+++ ".toList ++ name).drop 4 = name := List.drop_left' rfl
  have holdMark : startsWith ("+++ ".toList ++ name) "--- " = false := rfl
  simp only [startsWith_append, holdMark, hold, hnone, hdrop, hname, Bool.false_and,
    Bool.false_eq_true, if_false, Option.isNone_none, Bool.and_self, if_true]

section
variable {before after : ObjectName} {tail : List Char}

theorem isHex_object (name : ObjectName) : ∀ c ∈ name.text, isHex c = true := name.hex

theorem takeWhile_object (name : ObjectName) (rest : List Char)
    (h : ∀ c, rest.head? = some c → isHex c = false) :
    (name.text ++ rest).takeWhile isHex = name.text ∧
      (name.text ++ rest).dropWhile isHex = rest := by
  rw [List.takeWhile_append_of_pos (isHex_object name),
    List.dropWhile_append_of_pos (isHex_object name)]
  cases rest with
  | nil => simp
  | cons c rest => simp [h c rfl]

/-- The mode behind the names, where it is there. -/
def ModeTail (tail : List Char) : Prop := tail = [] ∨ ∃ mode : FileMode, tail = ' ' :: mode.text

theorem isIndexLine_line (htail : ModeTail tail) :
    isIndexLine ("index ".toList ++ before.text ++ "..".toList ++ after.text ++ tail) = true := by
  have hbefore := takeWhile_object before ("..".toList ++ (after.text ++ tail))
    (fun c hc => by cases hc; rfl)
  have hafter := takeWhile_object after tail (by
    intro c hc
    rcases htail with hnil | ⟨mode, hmode⟩
    · rw [hnil] at hc
      cases hc
    · rw [hmode] at hc
      cases hc
      rfl)
  unfold isIndexLine
  simp only [List.append_assoc]
  rw [dropPrefix_append]
  simp only [hbefore.1, hbefore.2, if_neg before.nonempty]
  rw [dropPrefix_append]
  simp only [hafter.1, hafter.2, if_neg after.nonempty]
  rcases htail with hnil | ⟨mode, hmode⟩
  · rw [hnil]
  · rw [hmode]
    cases mode <;> rfl

theorem blank_suffix {a b y z : List Char} (h : a ++ ' ' :: y = b ++ ' ' :: z) (hy : ' ' ∉ y)
    (hz : ' ' ∉ z) : y = z := by
  rcases List.append_eq_append_iff.mp h with ⟨u, -, hu⟩ | ⟨u, -, hu⟩
  · cases u with
    | nil => exact (List.cons.inj hu).2
    | cons c u =>
      obtain ⟨-, hrest⟩ := List.cons.inj hu
      rw [hrest] at hy
      simp at hy
  · cases u with
    | nil => exact (List.cons.inj hu).2.symm
    | cons c u =>
      obtain ⟨-, hrest⟩ := List.cons.inj hu
      rw [hrest] at hz
      simp at hz

theorem blank_not_mem_object (name : ObjectName) : ' ' ∉ name.text :=
  fun h => absurd (isHex_object name _ h) (by decide)

/-- No line of contents ends in the mode of a submodule. -/
theorem not_submodule (htail : ModeTail tail) :
    " 160000".toList.isSuffixOf
      ("index ".toList ++ before.text ++ "..".toList ++ after.text ++ tail) = false := by
  rw [Bool.eq_false_iff]
  intro hsuffix
  rw [List.isSuffixOf_iff_suffix] at hsuffix
  obtain ⟨front, hfront⟩ := hsuffix
  have hmode : ' ' ∉ "160000".toList := by decide
  rcases htail with hnil | ⟨mode, htext⟩
  · have hnames : ' ' ∉ before.text ++ "..".toList ++ after.text := by
      simp [blank_not_mem_object]
    rw [hnil, List.append_nil] at hfront
    have hsame : "160000".toList = before.text ++ "..".toList ++ after.text :=
      blank_suffix (a := front) (b := "index".toList) (hfront.trans (by simp)) hmode hnames
    have hdot : '.' ∈ "160000".toList := by simp [hsame]
    exact absurd hdot (by decide)
  · have hclean : ' ' ∉ mode.text := by cases mode <;> decide
    rw [htext] at hfront
    have hsame : "160000".toList = mode.text := blank_suffix (a := front) hfront hmode hclean
    revert hsame
    cases mode <;> decide

theorem reads_index {h : SectionHeaders} (hno : h.noFiles = true) (htail : ModeTail tail) :
    Headed h ["index ".toList ++ before.text ++ "..".toList ++ after.text ++ tail] h := by
  refine Headed.one rfl (by decide) (line_index hno ⟨rfl, rfl⟩ rfl rfl rfl ?_ (not_submodule htail))
  rw [isIndexLine_line htail, Bool.true_or]

end

/-- Both names of the file are text. -/
def TextPaths (f : FileChange) : Prop := f.change.old.IsText ∧ f.change.new.IsText

/-- What the lines about modes and names say. -/
def changeHeaders : Change → SectionHeaders
  | .added _ _ | .deleted _ _ => { hasChangeMetadata := true }
  | .modified _ (.same _) => {}
  | .modified _ (.changed _ _) => { hasChangeMetadata := true }
  | .renamed old new _ _ =>
    { renameOld := some old.text, renameNew := some new.text, hasChangeMetadata := true }

def oldName : Change → Option (List Char)
  | .added _ _ => none
  | c => some c.old.text

def newName : Change → Option (List Char)
  | .deleted _ _ => none
  | c => some c.new.text

/-- What all lines before the hunks say. -/
def headersOf (f : FileChange) : SectionHeaders :=
  if f.hunks = [] then changeHeaders f.change
  else { changeHeaders f.change with
    old := some (oldName f.change)
    new := some (newName f.change) }

theorem reads_modes {h : SectionHeaders} (hno : h.noFiles = true) (modes : Modes) :
    Headed h (modeLines modes) (match modes with
      | .same _ => h
      | .changed _ _ => { h with hasChangeMetadata := true }) := by
  cases modes with
  | same mode => exact Headed.nil h
  | changed old new =>
    exact (reads_mode hno old "old mode " (by simp)).append
      (reads_mode (h := { h with hasChangeMetadata := true }) hno new "new mode " (by simp))

theorem reads_change (quotePath : Bool) {c : Change} (hold : c.old.IsText) (hnew : c.new.IsText) :
    Headed {} (c.extendedLines quotePath) (changeHeaders c) := by
  cases c with
  | added path mode => exact reads_mode rfl mode "new file mode " (by simp)
  | deleted path mode => exact reads_mode rfl mode "deleted file mode " (by simp)
  | modified path modes =>
    cases modes with
    | same mode => exact reads_modes rfl (.same mode)
    | changed old new => exact reads_modes rfl (.changed old new)
  | renamed old new modes similarity =>
    have hnames : ∀ h : SectionHeaders, h.noFiles = true → h.renameOld = none →
        h.renameNew = none → Headed h
          (["similarity index ".toList ++ decimal similarity ++ ['%']] ++
            (["rename from ".toList ++ token quotePath [] old] ++
              ["rename to ".toList ++ token quotePath [] new]))
          { h with
            renameOld := some old.text
            renameNew := some new.text
            hasChangeMetadata := true } := by
      intro h hno hnoOld hnoNew
      have hfrom := reads_renameFrom quotePath hno hnoOld hold
      have hto := reads_renameTo quotePath
        (h := { h with renameOld := some old.text, hasChangeMetadata := true }) hno hnoNew hnew
      exact (reads_similarity hno similarity).append (hfrom.append hto)
    cases modes with
    | same mode => exact (reads_modes rfl (.same mode)).append (hnames {} rfl rfl rfl)
    | changed before after =>
      exact (reads_modes rfl (.changed before after)).append
        (hnames { hasChangeMetadata := true } rfl rfl rfl)

theorem noFiles_changeHeaders (c : Change) : (changeHeaders c).noFiles = true := by
  cases c with
  | added => rfl
  | deleted => rfl
  | modified path modes => cases modes <;> rfl
  | renamed => rfl

theorem modeTail_indexLine (c : Change) :
    ModeTail (match c with
      | .modified _ (.same mode) | .renamed _ _ (.same mode) _ => ' ' :: mode.text
      | _ => []) := by
  unfold ModeTail
  split
  · exact Or.inr ⟨_, rfl⟩
  · exact Or.inr ⟨_, rfl⟩
  · exact Or.inl rfl

theorem fileHeader_oldLabel (quotePath : Bool) {f : FileChange} (h : TextPaths f) :
    fileHeader (f.oldLabel quotePath) "a/" = .ok (oldName f.change) := by
  have hold := h.1
  unfold FileChange.oldLabel oldName
  generalize f.change = c at hold ⊢
  cases c with
  | added => rfl
  | deleted => exact (fileHeader_old hold).2
  | modified => exact (fileHeader_old hold).2
  | renamed => exact (fileHeader_old hold).2

theorem fileHeader_newLabel (quotePath : Bool) {f : FileChange} (h : TextPaths f) :
    fileHeader (f.newLabel quotePath) "b/" = .ok (newName f.change) := by
  have hnew := h.2
  unfold FileChange.newLabel newName
  generalize f.change = c at hnew ⊢
  cases c with
  | added => exact (fileHeader_new hnew).2
  | deleted => rfl
  | modified => exact (fileHeader_new hnew).2
  | renamed => exact (fileHeader_new hnew).2

theorem reads_headerLines (quotePath : Bool) {f : FileChange} (h : TextPaths f) :
    Headed {} (f.headerLines quotePath) (headersOf f) := by
  have hno := noFiles_changeHeaders f.change
  have hindex : Headed (changeHeaders f.change) (if f.hasIndex then [f.indexLine] else [])
      (changeHeaders f.change) := by
    split
    · exact reads_index hno (modeTail_indexLine f.change)
    · exact Headed.nil _
  have hfiles : Headed (changeHeaders f.change) (f.fileLines quotePath) (headersOf f) := by
    unfold FileChange.fileLines headersOf
    split
    · exact Headed.nil _
    · have hnone : (changeHeaders f.change).new = none := by
        simp only [SectionHeaders.noFiles, Bool.and_eq_true, Option.isNone_iff_eq_none] at hno
        exact hno.2
      exact (reads_oldFile hno (fileHeader_oldLabel quotePath h)).append
        (reads_newFile (h := { changeHeaders f.change with old := some (oldName f.change) })
          rfl hnone (fileHeader_newLabel quotePath h))
  exact ((reads_change quotePath h.1 h.2).append hindex).append hfiles

theorem read_hunkLines (h : SectionHeaders) (hunks : List Hunk) (old new : Nat) :
    h.read (ended (hunkLines old new hunks)) = .ok (h, ended (hunkLines old new hunks)) := by
  cases hunks with
  | nil => rfl
  | cons first rest =>
    have hsupported : unsupportedStarts.any (startsWith (first.header old new)) = false := by
      unfold Hunk.header
      rfl
    rw [hunkLines, List.cons_append, ended, List.map_cons, SectionHeaders.read, chomp_end]
    simp only [hsupported, startsWith_header, Bool.false_eq_true, if_false, if_true]

theorem consistent_headersOf (f : FileChange) :
    (headersOf f).consistent (!(ended (hunkLines 1 1 f.hunks)).isEmpty) = true := by
  unfold headersOf
  split
  · rename_i hnil
    have hself := f.differs.resolve_right (by simp [hnil])
    rw [hnil]
    cases hchange : f.change with
    | added => rfl
    | deleted => rfl
    | modified path modes =>
      rw [hchange] at hself
      cases modes with
      | same => cases hself
      | changed => rfl
    | renamed => rfl
  · rename_i hne
    have hbody : (ended (hunkLines 1 1 f.hunks)).isEmpty = false := by
      cases hhunks : f.hunks with
      | nil => exact absurd hhunks hne
      | cons => rfl
    rw [hbody]
    cases f.change with
    | added => rfl
    | deleted => rfl
    | modified path modes => cases modes <;> rfl
    | renamed old new modes similarity =>
      simp [SectionHeaders.consistent, SectionHeaders.noFiles, SectionHeaders.bothFiles,
        SectionHeaders.noRename, SectionHeaders.bothRename, changeHeaders, oldName, newName,
        Change.old, Change.new]

theorem paths_headersOf (f : FileChange) :
    Paths f.change.old f.change.new (headersOf f).identity.1 (headersOf f).identity.2 := by
  unfold headersOf
  split
  · cases f.change with
    | added => exact .unknown rfl
    | deleted => exact .unknown rfl
    | modified path modes => cases modes <;> exact .unknown rfl
    | renamed => exact .both
  · cases f.change with
    | added => exact .added rfl
    | deleted => exact .deleted rfl
    | modified path modes => cases modes <;> exact .both
    | renamed => exact .both

theorem paths_result {old new : GitPath} {o n : Option (List Char)} (h : Paths old new o n) :
    (if n.isSome then new.text else old.text) = new.text := by
  cases h with
  | unknown heq => simp [heq]
  | added heq => rfl
  | deleted heq => simp [heq]
  | both => rfl

theorem named_headersOf (f : FileChange) :
    ¬((headersOf f).old = some none ∧ (headersOf f).new = some none) := by
  unfold headersOf
  split
  · have hno := noFiles_changeHeaders f.change
    simp only [SectionHeaders.noFiles, Bool.and_eq_true, Option.isNone_iff_eq_none] at hno
    simp [hno.1]
  · cases f.change <;> simp [oldName, newName]

theorem newline_not_mem_octalText {b : Nat} (h : b < 256) : '\n' ∉ octalText b := by
  have hall : ∀ b : Fin 256, '\n' ∉ octalText b := by decide +kernel
  exact hall ⟨b, h⟩

theorem newline_not_mem_spelled (quotePath : Bool) (unit : PathUnit) :
    '\n' ∉ spelled quotePath unit := by
  unfold spelled
  split
  · rename_i c
    split
    · rename_i l hl
      have hletter : l ≠ '\n' := by
        unfold letter at hl
        split at hl
        all_goals cases hl
        all_goals decide
      simp [hletter.symm]
    · rename_i hl
      have hne : c ≠ '\n' := by
        intro heq
        rw [heq] at hl
        cases hl
      split
      · rename_i hcontrol
        simp only [isControl, Bool.or_eq_true, decide_eq_true_eq, beq_iff_eq] at hcontrol
        exact newline_not_mem_octalText (by omega)
      · split
        · intro hmem
          obtain ⟨b, hb, hin⟩ := List.mem_flatMap.mp hmem
          exact newline_not_mem_octalText (encodeUtf8_lt [c] b hb) hin
        · simp [hne.symm]
  · rename_i offset
    split
    · exact newline_not_mem_octalText (by omega)
    · decide

theorem newline_not_mem_token (quotePath : Bool) (side : List Char) (hside : '\n' ∉ side)
    (path : GitPath) : '\n' ∉ token quotePath side path := by
  have hunits : '\n' ∉ path.units.flatMap (spelled quotePath) := by
    intro hmem
    obtain ⟨unit, -, hin⟩ := List.mem_flatMap.mp hmem
    exact newline_not_mem_spelled quotePath unit hin
  unfold token
  split
  · simp [hside, hunits]
  · simp [hside, hunits]

theorem newline_not_mem_label (quotePath : Bool) {side : List Char} (hside : '\n' ∉ side)
    (path : GitPath) : '\n' ∉ label quotePath side path := by
  have htoken := newline_not_mem_token quotePath side hside path
  unfold label
  split <;> simp [htoken]

theorem newline_not_mem_decimal (n : Nat) : '\n' ∉ decimal n :=
  fun h => absurd (decimal_digits n _ h) (by decide)

theorem newline_not_mem_object (name : ObjectName) : '\n' ∉ name.text :=
  fun h => absurd (isHex_object name _ h) (by decide)

theorem newline_not_mem_mode (mode : FileMode) : '\n' ∉ mode.text := by cases mode <;> decide

theorem newline_not_mem_rangeText (start count : Nat) : '\n' ∉ rangeText start count := by
  unfold rangeText
  split
  · exact newline_not_mem_decimal _
  · simp [newline_not_mem_decimal]

theorem newline_not_mem_hunkLines (hunks : List Hunk) (old new : Nat) :
    ∀ line ∈ hunkLines old new hunks, '\n' ∉ line := by
  induction hunks generalizing old new with
  | nil => simp [hunkLines]
  | cons h rest ih =>
    intro line hline
    rw [hunkLines, List.cons_append, List.mem_cons, List.mem_append] at hline
    rcases hline with heq | hbody | hrest
    · have hheading : '\n' ∉ headingText h.heading := by
        cases hheading : h.heading with
        | none => simp [headingText]
        | some text =>
          have htext := h.oneLine text (by simp [hheading])
          simp [headingText, htext]
      rw [heq]
      unfold Hunk.header
      simp [newline_not_mem_rangeText, hheading]
    · obtain ⟨body, -, hin⟩ := List.mem_flatMap.mp hbody
      unfold BodyLine.lines at hin
      rcases List.mem_cons.mp hin with heq | hmarker
      · have hmark : body.kind.mark ≠ '\n' := by cases body.kind <;> decide
        rw [heq]
        simp [hmark.symm, body.oneLine]
      · split at hmarker
        · rw [List.mem_singleton.mp hmarker]
          decide
        · cases hmarker
    · exact ih _ _ line hrest

theorem newline_not_mem_headerLines (quotePath : Bool) (f : FileChange) :
    ∀ line ∈ f.headerLines quotePath, '\n' ∉ line := by
  have htoken := newline_not_mem_token quotePath [] (by simp)
  have hmodes : ∀ modes : Modes, ∀ line ∈ modeLines modes, '\n' ∉ line := by
    intro modes line hline
    cases modes with
    | same => cases hline
    | changed old new =>
      simp only [modeLines, List.mem_cons, List.not_mem_nil, or_false] at hline
      rcases hline with heq | heq <;> rw [heq] <;> simp [newline_not_mem_mode]
  intro line hline
  rw [FileChange.headerLines, List.mem_append, List.mem_append] at hline
  rcases hline with (hchange | hindex) | hfiles
  · cases hc : f.change with
    | added path mode =>
      rw [hc] at hchange
      rw [List.mem_singleton.mp hchange]
      simp [newline_not_mem_mode]
    | deleted path mode =>
      rw [hc] at hchange
      rw [List.mem_singleton.mp hchange]
      simp [newline_not_mem_mode]
    | modified path modes =>
      rw [hc] at hchange
      exact hmodes modes line hchange
    | renamed old new modes similarity =>
      rw [hc] at hchange
      rcases List.mem_append.mp hchange with hmode | hname
      · exact hmodes modes line hmode
      · simp only [List.mem_cons, List.not_mem_nil, or_false] at hname
        rcases hname with heq | heq | heq <;> rw [heq] <;>
          simp [newline_not_mem_decimal, htoken]
  · split at hindex
    · rw [List.mem_singleton.mp hindex]
      have htail : '\n' ∉ (match f.change with
          | .modified _ (.same mode) | .renamed _ _ (.same mode) _ => ' ' :: mode.text
          | _ => []) := by
        rcases modeTail_indexLine f.change with hnil | ⟨mode, hmode⟩
        · simp [hnil]
        · simp [hmode, newline_not_mem_mode]
      unfold FileChange.indexLine
      simp only [List.mem_append, not_or]
      exact ⟨⟨⟨⟨by decide, newline_not_mem_object _⟩, by decide⟩, newline_not_mem_object _⟩, htail⟩
    · cases hindex
  · unfold FileChange.fileLines at hfiles
    split at hfiles
    · cases hfiles
    · have hold : '\n' ∉ f.oldLabel quotePath := by
        unfold FileChange.oldLabel
        split
        · decide
        · exact newline_not_mem_label quotePath (by decide) _
      have hnew : '\n' ∉ f.newLabel quotePath := by
        unfold FileChange.newLabel
        split
        · decide
        · exact newline_not_mem_label quotePath (by decide) _
      simp only [List.mem_cons, List.not_mem_nil, or_false] at hfiles
      rcases hfiles with heq | heq <;> rw [heq] <;> simp [hold, hnew]

theorem newline_not_mem_firstLine (quotePath : Bool) (f : FileChange) :
    '\n' ∉ f.firstLine quotePath := by
  unfold FileChange.firstLine
  simp only [List.mem_append, List.mem_cons, not_or]
  exact ⟨⟨by decide, newline_not_mem_token quotePath _ (by decide) _⟩, by decide,
    newline_not_mem_token quotePath _ (by decide) _⟩

theorem newline_not_mem_lines (quotePath : Bool) (f : FileChange) :
    ∀ line ∈ f.lines quotePath, '\n' ∉ line := by
  intro line hline
  rw [FileChange.lines, List.cons_append, List.mem_cons, List.mem_append] at hline
  rcases hline with heq | hheader | hhunk
  · rw [heq]
    exact newline_not_mem_firstLine quotePath f
  · exact newline_not_mem_headerLines quotePath f line hheader
  · exact newline_not_mem_hunkLines f.hunks 1 1 line hhunk

/-- What the reader must give for a change. -/
def recovered (quotePath : Bool) (f : FileChange) : DiffSection :=
  { filePath := f.change.new.text
    addedLines := joined (f.contents .added)
    patch := f.text quotePath }

theorem framed_text (quotePath : Bool) (f : FileChange) :
    framed [] (f.text quotePath) = ended (f.lines quotePath) := by
  have hlines := framed_lines (newline_not_mem_lines quotePath f) []
  rw [List.append_nil] at hlines
  rw [FileChange.text, hlines, framed, if_pos rfl, List.append_nil]
  rfl

theorem parseSection_text (quotePath : Bool) {f : FileChange} (h : TextPaths f) :
    parseSection (f.text quotePath) = .ok (recovered quotePath f) := by
  have hframed : framed [] (f.text quotePath) = (f.firstLine quotePath ++ ['\n']) ::
      (ended (f.headerLines quotePath) ++ ended (hunkLines 1 1 f.hunks)) := by
    rw [framed_text, FileChange.lines, List.cons_append, ended, List.map_cons, List.map_append]
    rfl
  have hgit : startsWith (f.firstLine quotePath ++ ['\n']) "diff --git " = true := by
    unfold FileChange.firstLine
    rw [List.append_assoc, List.append_assoc]
    exact startsWith_append "diff --git " _
  have hread : SectionHeaders.read {} (ended (f.headerLines quotePath) ++
      ended (hunkLines 1 1 f.hunks)) = .ok (headersOf f, ended (hunkLines 1 1 f.hunks)) := by
    rw [reads_headerLines quotePath h, read_hunkLines]
  have hfirst : chomp ((f.firstLine quotePath ++ ['\n']).drop 11) =
      token quotePath "a/".toList f.change.old ++ ' ' :: token quotePath "b/".toList f.change.new := by
    have hdrop : ∀ s : List Char, ("diff --git ".toList ++ s).drop 11 = s := fun _ => rfl
    unfold FileChange.firstLine
    rw [List.append_assoc, List.append_assoc, hdrop, ← List.append_assoc, chomp_end]
  have hpath := sectionPath_eq quotePath (paths_headersOf f) h.1 h.2
  rw [paths_result (paths_headersOf f)] at hpath
  have hhunks : hunkAdditions (ended (hunkLines 1 1 f.hunks)) = .ok (joined (f.contents .added)) :=
    hunkAdditions_hunkLines f.counted
  rw [parseSection, hframed]
  simp only [hgit, hread, consistent_headersOf, hfirst, hpath, if_neg (named_headersOf f),
    hhunks, Bool.not_true, Bool.false_eq_true, if_false]
  rfl

end Sediment.Proofs.DiffHeaders

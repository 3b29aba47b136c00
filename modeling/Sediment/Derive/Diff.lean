import Sediment.Base.Decimals
import Sediment.Base.Dict
import Sediment.Base.JsonCompact
import Sediment.Base.Lines
import Sediment.Core.Models

namespace Sediment.Derive.Diff
open Base Base.Lines Base.Decimals
open Base.JsonScan (encodeUtf8 decodeUtf8?)

inductive DiffSkipReason where
  | unsupportedDiffSection | malformedDiffSection
  deriving DecidableEq, Repr

/-- One validated section with its exact text. -/
structure DiffSection where
  filePath : List Char
  addedLines : List Char
  patch : List Char
  deriving DecidableEq

structure DiffParseResult where
  sections : List DiffSection := []
  skipped : Dict DiffSkipReason Nat := Dict.empty

def startsWith (text : List Char) (start : String) : Bool := start.toList.isPrefixOf text

structure HunkHeader where
  oldStart : List Char
  oldCount : Option (List Char)
  newStart : List Char
  newCount : Option (List Char)
  deriving DecidableEq

section
variable (digit : Char → Bool)

/-- `d+(?:,(d+))?` and what follows it. -/
def hunkRange (text : List Char) : Option (List Char × Option (List Char) × List Char) :=
  let start := text.takeWhile digit
  let rest := text.dropWhile digit
  if start = [] then none
  else match rest with
    | ',' :: more =>
      let count := more.takeWhile digit
      if count = [] then some (start, none, rest) else some (start, some count, more.dropWhile digit)
    | _ => some (start, none, rest)

/-- The pattern of a hunk header over a class of digits, matched against the whole text. -/
def hunkHeader (text : List Char) : Option HunkHeader :=
  match List.dropPrefix? text "@@ -".toList with
  | none => none
  | some rest =>
    match hunkRange digit rest with
    | none => none
    | some (oldStart, oldCount, rest) =>
      match List.dropPrefix? rest " +".toList with
      | none => none
      | some rest =>
        match hunkRange digit rest with
        | none => none
        | some (newStart, newCount, rest) =>
          match List.dropPrefix? rest " @@".toList with
          | none => none
          | some rest =>
            if rest = [] ∨ (rest.head? = some ' ' ∧ '\n' ∉ rest) then
              some { oldStart, oldCount, newStart, newCount }
            else none

end

def noNewline : List Char := "\\ No newline at end of file".toList

structure HunkState where
  oldRemaining : Int := 0
  newRemaining : Int := 0
  oldEnd : Int := 1
  newEnd : Int := 1
  previousBody : Bool := false
  added : List (List Char) := []
  deriving DecidableEq

/-- A header line. `none` stands for the exception, of whichever kind. -/
def HunkState.enter (s : HunkState) (text : List Char) : Option HunkState :=
  if s.oldRemaining ≠ 0 ∨ s.newRemaining ≠ 0 then none
  else match hunkHeader Char.isDigit text with
    | none => none
    | some header =>
      match asciiInt header.oldStart, asciiInt (header.oldCount.getD ['1']),
          asciiInt header.newStart, asciiInt (header.newCount.getD ['1']) with
      | some oldStart, some oldRemaining, some newStart, some newRemaining =>
        if (oldRemaining ≠ 0 ∧ oldStart = 0) ∨ (newRemaining ≠ 0 ∧ newStart = 0) then none
        else
          let oldBegin : Int := oldStart + if oldRemaining = 0 then 1 else 0
          let newBegin : Int := newStart + if newRemaining = 0 then 1 else 0
          if oldBegin < s.oldEnd ∨ oldBegin - s.oldEnd ≠ newBegin - s.newEnd then none
          else some { s with
            oldRemaining := oldRemaining
            newRemaining := newRemaining
            oldEnd := oldBegin + oldRemaining
            newEnd := newBegin + newRemaining
            previousBody := false }
      | _, _, _, _ => none

def HunkState.body (s : HunkState) (text : List Char) : Option HunkState :=
  if s.oldRemaining = 0 ∧ s.newRemaining = 0 then none
  else
    let moved : Option HunkState :=
      match text with
      | '+' :: content => some { s with
          newRemaining := s.newRemaining - 1
          added := s.added ++ [content] }
      | '-' :: _ => some { s with oldRemaining := s.oldRemaining - 1 }
      | ' ' :: _ => some { s with
          oldRemaining := s.oldRemaining - 1
          newRemaining := s.newRemaining - 1 }
      | _ => none
    match moved with
    | none => none
    | some s =>
      if s.oldRemaining < 0 ∨ s.newRemaining < 0 then none else some { s with previousBody := true }

def HunkState.line (s : HunkState) (text : List Char) : Option HunkState :=
  if text = noNewline then if s.previousBody then some { s with previousBody := false } else none
  else if startsWith text "@@" then s.enter text
  else s.body text

def hunkRun (s : HunkState) : List (List Char) → Option HunkState
  | [] => some s
  | text :: rest =>
    match s.line text with
    | none => none
    | some s => hunkRun s rest

/-- `"\n".join(lines)`. -/
def joined (lines : List (List Char)) : List Char := ['\n'].intercalate lines

/-- `_hunk_additions` -/
def hunkAdditions (lines : List (List Char)) : Except DiffSkipReason (List Char) :=
  match hunkRun {} (lines.map chomp) with
  | none => .error .malformedDiffSection
  | some s =>
    if s.oldRemaining ≠ 0 ∨ s.newRemaining ≠ 0 then .error .malformedDiffSection
    else .ok (joined s.added)

def escapes : Char → Option Nat
  | 'a' => some 7
  | 'b' => some 8
  | 't' => some 9
  | 'n' => some 10
  | 'v' => some 11
  | 'f' => some 12
  | 'r' => some 13
  | '"' => some 34
  | '\\' => some 92
  | _ => none

def octalDigit (c : Char) : Bool := '0' ≤ c && c ≤ '7'

/-- Three octal digits that spell a byte. -/
def octal (a b c : Char) : Option Nat :=
  if ('0' ≤ a && a ≤ '3') && octalDigit b && octalDigit c then
    some (Nat.ofDigitChars 8 [a, b, c] 0)
  else none

/-- The bytes between the quotes. -/
def unescape : List Char → Option (List Nat)
  | [] => some []
  | '"' :: _ => none
  | ['\\'] => none
  | '\\' :: a :: rest =>
    match escapes a with
    | some byte => (unescape rest).map (byte :: ·)
    | none =>
      match rest with
      | b :: c :: rest =>
        match octal a b c with
        | some byte => (unescape rest).map (byte :: ·)
        | none => none
      | _ => none
  | c :: rest => (unescape rest).map (encodeUtf8 [c] ++ ·)

/-- What git never leaves outside quotes. -/
def needsQuotes (c : Char) : Bool := c.toNat < 32 || c.toNat == 127 || c == '\\' || c == '"'

/-- `_git_path` -/
def gitPath (token : List Char) : Except DiffSkipReason (List Char) :=
  if token = [] then .error .malformedDiffSection
  else if token.head? ≠ some '"' then
    if token.any needsQuotes then .error .malformedDiffSection else .ok token
  else if token.getLast? ≠ some '"' then .error .malformedDiffSection
  else match unescape (token.drop 1).dropLast with
    | none => .error .malformedDiffSection
    | some encoded =>
      match decodeUtf8? encoded with
      | none => .error .unsupportedDiffSection
      | some path =>
        if path = [] ∨ '\u0000' ∈ path then .error .malformedDiffSection else .ok path

/-- `token.removesuffix("\t")`. -/
def untabbed (token : List Char) : List Char :=
  if token.getLast? = some '\t' then token.dropLast else token

/-- `_file_header`; `none` stands for `/dev/null`. -/
def fileHeader (token : List Char) (start : String) :
    Except DiffSkipReason (Option (List Char)) :=
  match gitPath (untabbed token) with
  | .error reason => .error reason
  | .ok path =>
    if path = "/dev/null".toList then .ok none
    else if !startsWith path start || path.length == start.length then
      .error .malformedDiffSection
    else .ok (some (path.drop start.length))

/-- What stands before and after each blank. -/
def cuts (before : List Char) : List Char → List (List Char × List Char)
  | [] => []
  | c :: rest =>
    if c = ' ' then (before, rest) :: cuts (before ++ [c]) rest else cuts (before ++ [c]) rest

def pathCandidate (old new : Option (List Char)) (cut : List Char × List Char) :
    Option (List Char) :=
  match fileHeader cut.1 "a/", fileHeader cut.2 "b/" with
  | .ok (some source), .ok (some target) =>
    if old = none ∧ new = none then if source ≠ target then none else some source
    else if some source ≠ old.or new ∨ some target ≠ new.or old then none
    else some (if new.isSome then target else source)
  | _, _ => none

/-- `_section_path` -/
def sectionPath (header : List Char) (old new : Option (List Char)) :
    Except DiffSkipReason (List Char) :=
  match (cuts [] header).filterMap (pathCandidate old new) with
  | [path] => .ok path
  | _ => .error .malformedDiffSection

def unsupportedStarts : List String :=
  ["Binary files ", "GIT binary patch", "@@@", "copy from ", "copy to "]

/-- `[0-7]{6}`. -/
def isMode (text : List Char) : Bool := text.length == 6 && text.all octalDigit

/-- The mode of `(?:new file|deleted file|old|new) mode ([0-7]{6})`. -/
def modeLine (text : List Char) : Option (List Char) :=
  ["new file mode ", "deleted file mode ", "old mode ", "new mode "].findSome? (fun start =>
    (List.dropPrefix? text start.toList).filter isMode)

def isHex (c : Char) : Bool := c.isDigit || ('a' ≤ c && c ≤ 'f')

/-- `index [0-9a-f]+\.\.[0-9a-f]+(?: [0-7]{6})?`. -/
def isIndexLine (text : List Char) : Bool :=
  match List.dropPrefix? text "index ".toList with
  | none => false
  | some rest =>
    if rest.takeWhile isHex = [] then false
    else match List.dropPrefix? (rest.dropWhile isHex) "..".toList with
      | none => false
      | some rest =>
        if rest.takeWhile isHex = [] then false
        else match rest.dropWhile isHex with
          | [] => true
          | c :: mode => c == ' ' && isMode mode

/-- `(?:dis)?similarity index (?:100|[0-9]{1,2})%`. -/
def isSimilarityLine (text : List Char) : Bool :=
  ["similarity index ", "dissimilarity index "].any (fun start =>
    match List.dropPrefix? text start.toList with
    | none => false
    | some rest => rest == "100%".toList ||
        ((rest.length == 2 || rest.length == 3) && rest.getLast? == some '%' &&
          rest.dropLast.all Char.isDigit))

/-- What the lines before the first hunk say. -/
structure SectionHeaders where
  old : Option (Option (List Char)) := none
  new : Option (Option (List Char)) := none
  renameOld : Option (List Char) := none
  renameNew : Option (List Char) := none
  hasChangeMetadata : Bool := false

namespace SectionHeaders
variable (h : SectionHeaders)

def noFiles : Bool := h.old.isNone && h.new.isNone

def bothFiles : Bool := h.old.isSome && h.new.isSome

def noRename : Bool := h.renameOld.isNone && h.renameNew.isNone

def bothRename : Bool := h.renameOld.isSome && h.renameNew.isSome

/-- One line before the first hunk. -/
def line (text : List Char) : Except DiffSkipReason SectionHeaders :=
  if startsWith text "--- " && h.noFiles then
    match fileHeader (text.drop 4) "a/" with
    | .error reason => .error reason
    | .ok path => .ok { h with old := some path }
  else if startsWith text "+++ " && (h.old.isSome && h.new.isNone) then
    match fileHeader (text.drop 4) "b/" with
    | .error reason => .error reason
    | .ok path => .ok { h with new := some path }
  else if !h.noFiles then .error .malformedDiffSection
  else if startsWith text "rename from " then
    if h.renameOld.isSome then .error .malformedDiffSection
    else match gitPath (text.drop 12) with
      | .error reason => .error reason
      | .ok path => .ok { h with renameOld := some path, hasChangeMetadata := true }
  else if startsWith text "rename to " then
    if h.renameNew.isSome then .error .malformedDiffSection
    else match gitPath (text.drop 10) with
      | .error reason => .error reason
      | .ok path => .ok { h with renameNew := some path, hasChangeMetadata := true }
  else match modeLine text with
    | some mode =>
      if mode = "160000".toList then .error .unsupportedDiffSection
      else .ok { h with hasChangeMetadata := true }
    | none =>
      if isIndexLine text || isSimilarityLine text then
        if " 160000".toList.isSuffixOf text then .error .unsupportedDiffSection else .ok h
      else .error .malformedDiffSection

/-- The lines up to the first hunk, and the rest. -/
def read (h : SectionHeaders) :
    List (List Char) → Except DiffSkipReason (SectionHeaders × List (List Char))
  | [] => .ok (h, [])
  | line :: rest =>
    if unsupportedStarts.any (startsWith (chomp line)) then .error .unsupportedDiffSection
    else if startsWith (chomp line) "@@" then .ok (h, line :: rest)
    else match h.line (chomp line) with
      | .error reason => .error reason
      | .ok h => read h rest

/-- What the headers say against each other, and of a body. -/
def consistent (hasBody : Bool) : Bool :=
  !(!h.noFiles && (!h.bothFiles || !hasBody)) && !(hasBody && h.noFiles) &&
    !(h.noFiles && !h.hasChangeMetadata) &&
    !(!h.noRename && (!h.bothRename ||
      (!h.noFiles && (h.old ≠ some h.renameOld || h.new ≠ some h.renameNew))))

/-- The paths of the file headers, or else of the rename. -/
def identity : Option (List Char) × Option (List Char) :=
  if h.noFiles then (h.renameOld, h.renameNew) else (h.old.join, h.new.join)

end SectionHeaders

/-- `_parse_section` -/
def parseSection (patch : List Char) : Except DiffSkipReason DiffSection :=
  match framed [] patch with
  | [] => .error .malformedDiffSection
  | first :: rest =>
    if !startsWith first "diff --git " then .error .unsupportedDiffSection
    else match SectionHeaders.read {} rest with
      | .error reason => .error reason
      | .ok (headers, body) =>
        if !headers.consistent (!body.isEmpty) then .error .malformedDiffSection
        else match sectionPath (chomp (first.drop 11)) headers.identity.1 headers.identity.2 with
          | .error reason => .error reason
          | .ok path =>
            if headers.old = some none ∧ headers.new = some none then
              .error .malformedDiffSection
            else match hunkAdditions body with
              | .error reason => .error reason
              | .ok addedLines => .ok { filePath := path, addedLines, patch }

/-- The texts of the sections: each line that starts one closes the lines before it. -/
def splitSections (current : List (List Char)) : List (List Char) → List (List Char)
  | [] => if current = [] then [] else [current.flatten]
  | line :: rest =>
    if startsWith line "diff " ∧ current ≠ [] then current.flatten :: splitSections [line] rest
    else splitSections (current ++ [line]) rest

def DiffParseResult.add (result : DiffParseResult) (patch : List Char) : DiffParseResult :=
  if patch.all Core.isSpace then result
  else match parseSection patch with
    | .ok parsed => { result with sections := result.sections ++ [parsed] }
    | .error reason =>
      { result with skipped := result.skipped.alter reason (fun n => n.getD 0 + 1) }

/-- `parse_diff_sections` -/
def parseDiffSections (rawDiff : List Char) : DiffParseResult :=
  (splitSections [] (framed [] rawDiff)).foldl DiffParseResult.add {}

end Sediment.Derive.Diff

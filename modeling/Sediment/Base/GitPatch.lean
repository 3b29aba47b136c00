import Sediment.Base.JsonCompact

namespace Sediment.Base.GitPatch
open Base.JsonScan (encodeUtf8)

/-- A part of a path: a character of UTF-8, or a byte from 128 on that belongs to none. -/
inductive PathUnit where
  | char (c : Char)
  | stray (offset : Fin 128)
  deriving DecidableEq, Repr

/-- A path of a tree: not empty, and without a zero byte. -/
structure GitPath where
  units : List PathUnit
  nonempty : units ≠ []
  noNul : .char '\u0000' ∉ units
  deriving DecidableEq

/-- The path is text in UTF-8. -/
def GitPath.IsText (path : GitPath) : Prop := ∀ unit ∈ path.units, ∃ c, unit = .char c

def PathUnit.toChar : PathUnit → Char
  | .char c => c
  | .stray _ => '\uFFFD'

def GitPath.text (path : GitPath) : List Char := path.units.map PathUnit.toChar

theorem GitPath.IsText.units_eq {path : GitPath} (h : path.IsText) :
    path.units = path.text.map .char := by
  rw [text, List.map_map]
  refine (List.map_id _).symm.trans (List.map_congr_left ?_)
  intro unit hunit
  obtain ⟨c, hc⟩ := h unit hunit
  rw [hc]
  rfl

/-- The letter that stands for a character behind a backslash. -/
def letter : Char → Option Char
  | '\u0007' => some 'a'
  | '\u0008' => some 'b'
  | '\t' => some 't'
  | '\n' => some 'n'
  | '\u000b' => some 'v'
  | '\u000c' => some 'f'
  | '\r' => some 'r'
  | '"' => some '"'
  | '\\' => some '\\'
  | _ => none

def octalText (byte : Nat) : List Char :=
  ['\\', Nat.digitChar (byte / 64), Nat.digitChar (byte / 8 % 8), Nat.digitChar (byte % 8)]

def isControl (c : Char) : Bool := c.toNat < 32 || c.toNat == 127

section
variable (quotePath : Bool)

/-- A unit inside quotes. `core.quotePath` decides of what is not ASCII; a stray byte left as it
is reads as the replacement character. -/
def spelled : PathUnit → List Char
  | .char c =>
    match letter c with
    | some l => ['\\', l]
    | none =>
      if isControl c then octalText c.toNat
      else if quotePath && 128 ≤ c.toNat then (encodeUtf8 [c]).flatMap octalText
      else [c]
  | .stray offset => if quotePath then octalText (128 + offset) else ['\uFFFD']

def mustQuote : PathUnit → Bool
  | .char c => (letter c).isSome || isControl c || (quotePath && 128 ≤ c.toNat)
  | .stray _ => quotePath

/-- A path behind its side, in quotes where it needs them. -/
def token (side : List Char) (path : GitPath) : List Char :=
  if path.units.any (mustQuote quotePath) then
    '"' :: (side ++ path.units.flatMap (spelled quotePath)) ++ ['"']
  else side ++ path.units.flatMap (spelled quotePath)

/-- A path in a file header, with a tab behind a name with a blank. -/
def label (side : List Char) (path : GitPath) : List Char :=
  token quotePath side path ++ if ' ' ∈ token quotePath side path then ['\t'] else []

end

inductive LineKind where
  | context | removed | added
  deriving DecidableEq, Repr

def LineKind.mark : LineKind → Char
  | .context => ' '
  | .removed => '-'
  | .added => '+'

/-- A line of a hunk: any text without a line feed. The last line of a file may lack its end. -/
structure BodyLine where
  kind : LineKind
  content : List Char
  oneLine : '\n' ∉ content
  unfinished : Bool
  deriving DecidableEq

/-- `gap` counts the unchanged lines before the hunk. -/
structure Hunk where
  gap : Nat
  heading : Option (List Char)
  oneLine : ∀ text ∈ heading, '\n' ∉ text
  body : List BodyLine

def oldLength (body : List BodyLine) : Nat := body.countP (fun line => line.kind ≠ .added)

def newLength (body : List BodyLine) : Nat := body.countP (fun line => line.kind ≠ .removed)

def decimal (n : Nat) : List Char := Nat.toDigits 10 n

/-- The first line and the count: the line before where there is none, no count where it is 1. -/
def rangeText (start count : Nat) : List Char :=
  if count = 1 then decimal start
  else decimal (if count = 0 then start - 1 else start) ++ ',' :: decimal count

def headingText : Option (List Char) → List Char
  | none => []
  | some text => ' ' :: text

def BodyLine.lines (line : BodyLine) : List (List Char) :=
  (line.kind.mark :: line.content) ::
    if line.unfinished then ["\\ No newline at end of file".toList] else []

namespace Hunk

def header (h : Hunk) (old new : Nat) : List Char :=
  "@@ -".toList ++ rangeText (old + h.gap) (oldLength h.body) ++ " +".toList ++
    rangeText (new + h.gap) (newLength h.body) ++ " @@".toList ++ headingText h.heading

def bodyLines (h : Hunk) : List (List Char) := h.body.flatMap BodyLine.lines

end Hunk

/-- The lines of hunks from a line of the old and one of the new file on. -/
def hunkLines (old new : Nat) : List Hunk → List (List Char)
  | [] => []
  | h :: rest => h.header old new :: h.bodyLines ++
      hunkLines (old + h.gap + oldLength h.body) (new + h.gap + newLength h.body) rest

/-- No line number reaches `limit`. -/
def numbered (limit old new : Nat) : List Hunk → Prop
  | [] => True
  | h :: rest =>
    old + h.gap + oldLength h.body < limit ∧ new + h.gap + newLength h.body < limit ∧
      numbered limit (old + h.gap + oldLength h.body) (new + h.gap + newLength h.body) rest

inductive FileMode where
  | regular | executable | symlink
  deriving DecidableEq, Repr

def FileMode.text : FileMode → List Char
  | .regular => "100644".toList
  | .executable => "100755".toList
  | .symlink => "120000".toList

inductive Modes where
  | same (mode : FileMode)
  | changed (old new : FileMode)
  deriving DecidableEq, Repr

inductive Change where
  | added (path : GitPath) (mode : FileMode)
  | deleted (path : GitPath) (mode : FileMode)
  | modified (path : GitPath) (modes : Modes)
  | renamed (old new : GitPath) (modes : Modes) (similarity : Fin 101)
  deriving DecidableEq

namespace Change

def old : Change → GitPath
  | added path _ | deleted path _ | modified path _ | renamed path _ _ _ => path

def new : Change → GitPath
  | added path _ | deleted path _ | modified path _ | renamed _ path _ _ => path

/-- Something has changed even without a hunk. -/
def bySelf : Change → Bool
  | modified _ (.same _) => false
  | _ => true

end Change

def isHexDigit (c : Char) : Bool := c.isDigit || ('a' ≤ c && c ≤ 'f')

/-- An abbreviated object name. -/
structure ObjectName where
  text : List Char
  nonempty : text ≠ []
  hex : ∀ c ∈ text, isHexDigit c = true
  deriving DecidableEq

/-- One file of a diff. Git counts lines in a machine word. -/
structure FileChange where
  change : Change
  before : ObjectName
  after : ObjectName
  hunks : List Hunk
  differs : change.bySelf = true ∨ hunks ≠ []
  counted : numbered (2 ^ 63) 1 1 hunks

section
variable (quotePath : Bool)

def modeLines : Modes → List (List Char)
  | .same _ => []
  | .changed old new => ["old mode ".toList ++ old.text, "new mode ".toList ++ new.text]

def Change.extendedLines : Change → List (List Char)
  | .added _ mode => ["new file mode ".toList ++ mode.text]
  | .deleted _ mode => ["deleted file mode ".toList ++ mode.text]
  | .modified _ modes => modeLines modes
  | .renamed old new modes similarity => modeLines modes ++
      ["similarity index ".toList ++ decimal similarity ++ ['%'],
        "rename from ".toList ++ token quotePath [] old,
        "rename to ".toList ++ token quotePath [] new]

namespace FileChange
variable (f : FileChange)

/-- The line of the contents, with the mode where it is the same before and after. -/
def indexLine : List Char :=
  "index ".toList ++ f.before.text ++ "..".toList ++ f.after.text ++
    match f.change with
    | .modified _ (.same mode) | .renamed _ _ (.same mode) _ => ' ' :: mode.text
    | _ => []

/-- Only a change of modes or of the name comes without it. -/
def hasIndex : Bool :=
  match f.change with
  | .added _ _ | .deleted _ _ => true
  | _ => !f.hunks.isEmpty

def oldLabel : List Char :=
  match f.change with
  | .added _ _ => "/dev/null".toList
  | _ => label quotePath "a/".toList f.change.old

def newLabel : List Char :=
  match f.change with
  | .deleted _ _ => "/dev/null".toList
  | _ => label quotePath "b/".toList f.change.new

def firstLine : List Char :=
  "diff --git ".toList ++ token quotePath "a/".toList f.change.old ++ ' ' ::
    token quotePath "b/".toList f.change.new

def fileLines : List (List Char) :=
  if f.hunks = [] then []
  else ["--- ".toList ++ f.oldLabel quotePath, "+++ ".toList ++ f.newLabel quotePath]

def headerLines : List (List Char) :=
  f.change.extendedLines quotePath ++ (if f.hasIndex then [f.indexLine] else []) ++
    f.fileLines quotePath

def lines : List (List Char) :=
  f.firstLine quotePath :: f.headerLines quotePath ++ hunkLines 1 1 f.hunks

/-- The text of the section. -/
def text : List Char := (f.lines quotePath).flatMap (· ++ ['\n'])

def body : List BodyLine := f.hunks.flatMap Hunk.body

/-- The contents of the lines of a kind, in order. -/
def contents (kind : LineKind) : List (List Char) :=
  (f.body.filter (fun line => line.kind = kind)).map BodyLine.content

end FileChange

/-- A whole diff. -/
def diffText (changes : List FileChange) : List Char := changes.flatMap (FileChange.text quotePath)

end

end Sediment.Base.GitPatch

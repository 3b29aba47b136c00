import Sediment.Cli.Notes

namespace Sediment.Cli
open Base
open Base.JsonScan (Text JsonValue codePoints)

abbrev Key := Text × Text

/-- One line of the file as `json.loads` reads it, `none` where it cannot. -/
abbrev Row := Option JsonValue

/-- A normalized marker. Its tool and Session are the key it stands under. -/
structure Entry where
  stampedAt : Option JsonValue
  generation : Text

abbrev Entries := Dict Key Entry

def strAt (r : Record) (name : String) : Option Text :=
  match r.lookup (codePoints name) with
  | some (.str text) => some text
  | _ => none

def markerOf : Row → Option (Key × Record)
  | some (.obj r) => do
    let tool ← strAt r "tool"
    let sessionId ← strAt r "session_id"
    some ((tool, sessionId), r)
  | _ => none

/-- The rows that parse. Others are skipped. -/
def readMarkers (rows : List Row) : List (Key × Record) := rows.filterMap markerOf

section
variable (isUuid : Text → Bool)

def generationOf (fresh : Text) (marker : Record) : Text :=
  match strAt marker "generation" with
  | some generation => if isUuid generation then generation else fresh
  | none => fresh

/-- A key keeps its first row. The `n`-th new generation is `fresh n`. -/
def markerEntries (fresh : Nat → Text) (rows : List Row) : Entries :=
  (readMarkers rows).zipIdx.foldl (fun entries p =>
    entries.setdefault p.1.1
      ⟨p.1.2.lookup (codePoints "stamped_at"), generationOf isUuid (fresh p.2) p.1.2⟩) Dict.empty

end

/-- The row `json.dumps` writes and `json.loads` reads again. -/
def rowOf (p : Key × Entry) : Row :=
  some (.obj ([(codePoints "tool", .str p.1.1), (codePoints "session_id", .str p.1.2)] ++
    (p.2.stampedAt.map (fun v => (codePoints "stamped_at", v))).toList ++
    [(codePoints "generation", .str p.2.generation)]))

/-- The rows of a whole population. An empty one removes the file. -/
def writeMarkers (entries : Entries) : List Row := entries.entries.map rowOf

/-- The sessions of the squashed commits' notes, first wins. -/
def unionedSessions (notes : List (List Record)) : Dict Key Record :=
  notes.flatten.foldl (fun d r => d.setdefault (sessionKey r) r) Dict.empty

/-- `cmd_union_squash_notes` once the notes are read: a Session that has no
live marker gets one, with the time its note has. -/
def unionInto (fresh : Key → Text) (unioned : Dict Key Record) (live : Entries) : Entries :=
  unioned.entries.foldl (fun live p =>
    if live.contains p.1 then live
    else live.set p.1 ⟨p.2.lookup (codePoints "stamped_at"), fresh p.1⟩) live

def unionSquash (isUuid : Text → Bool) (legacy : Nat → Text) (fresh : Key → Text)
    (notes : List (List Record)) (rows : List Row) : List Row :=
  let unioned := unionedSessions notes
  if unioned.entries.isEmpty then rows
  else writeMarkers (unionInto fresh unioned (markerEntries isUuid legacy rows))

end Sediment.Cli

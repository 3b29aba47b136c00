import Sediment.Base.JsonDumps
import Sediment.Cli.Notes
import Sediment.Cli.Markers
import Sediment.Proofs.Notes

namespace Sediment.Proofs.NoteMerge
open Sediment.Base Sediment.Core Sediment.Derive Sediment.Cli Sediment.Proofs.Notes
open Sediment.Base.JsonScan

variable {limit d : Nat}

/-- What a stamper may put into a note: a new record, or one that it read. -/
def IsSession (r : Record) : Prop := (r.map Prod.fst).Nodup ∧ sessionWellFormed r = true

def rereadField (p : Text × JsonValue) : Text × JsonValue :=
  (p.1, match p.2 with
    | .str t => .str (reread t)
    | v => v)

def rereadRecord (r : Record) : Record := r.map rereadField

theorem map_fst_rereadRecord (r : Record) : (rereadRecord r).map Prod.fst = r.map Prod.fst := by
  simp [rereadRecord, rereadField, List.map_map, Function.comp_def]

theorem fieldsOf_eq_self {fields : List (Text × JsonValue)} (h : (fields.map Prod.fst).Nodup) :
    fieldsOf fields = fields :=
  Dict.entries_foldl_set fields Dict.empty h (by simp [Dict.keys, Dict.empty])

theorem IsSession.field {r : Record} (h : IsSession r) {p : Text × JsonValue} (hp : p ∈ r) :
    p.1 ∈ AttributionSession.names ∧ ∃ t, p.2 = .str t := by
  obtain ⟨-, hwell⟩ := h
  simp only [sessionWellFormed, Bool.and_eq_true, decide_eq_true_eq, List.all_eq_true] at hwell
  have hkeys := ((keySet_eq_iff AttributionSession.names).mp hwell.1).1
  refine ⟨noExtra_iff.mp hkeys p.1 (List.mem_map_of_mem hp), ?_⟩
  have hstr := hwell.2 p hp
  cases hv : p.2 with
  | str t => exact ⟨t, rfl⟩
  | _ => simp [hv, isStr] at hstr

theorem IsSession.reread {r : Record} (h : IsSession r) : IsSession (rereadRecord r) := by
  have hkeys := map_fst_rereadRecord r
  refine ⟨by rw [hkeys]; exact h.1, ?_⟩
  have hwell := h.2
  simp only [sessionWellFormed, Bool.and_eq_true, decide_eq_true_eq, List.all_eq_true] at hwell ⊢
  refine ⟨by rw [keySet, hkeys]; exact hwell.1, ?_⟩
  intro p hp
  obtain ⟨q, hq, rfl⟩ := List.mem_map.mp hp
  obtain ⟨t, ht⟩ := (h.field hq).2
  simp [rereadField, ht, isStr]

theorem reads_record {r : Record} (h : IsSession r) :
    Reads (d + 1) (.obj r) (.obj (rereadRecord r)) := by
  have hfields : List.Forall₂ (FieldReads d) r (rereadRecord r) := by
    rw [rereadRecord, List.forall₂_map_right_iff, List.forall₂_same]
    intro p hp
    obtain ⟨hname, t, ht⟩ := h.field hp
    constructor
    · simp only [AttributionSession.names, List.mem_cons, List.not_mem_nil, or_false] at hname
      rcases hname with hn | hn | hn <;> rw [rereadField, hn] <;> decide
    · rw [rereadField, ht]
      exact reads_str d t
  have := reads_obj hfields
  rwa [fieldsOf_eq_self h.reread.1] at this

/-- A payload of the stamper decodes to the payload of the same sessions. -/
theorem reads_noteValue (hlimit : 3 ≤ limit) {sessions : List Record}
    (h : ∀ r ∈ sessions, IsSession r) :
    Reads limit (noteValue sessions) (noteValue (sessions.map rereadRecord)) := by
  obtain ⟨d, rfl⟩ : ∃ d, limit = d + 3 := ⟨limit - 3, by omega⟩
  have hitems : List.Forall₂ (Reads (d + 1)) (sessions.map Json.obj)
      ((sessions.map rereadRecord).map Json.obj) := by
    rw [List.map_map, List.forall₂_map_left_iff, List.forall₂_map_right_iff, List.forall₂_same]
    exact fun r hr => reads_record (h r hr)
  have hname : codePoints "sessions" = reread (codePoints "sessions") := by decide
  have hfields : List.Forall₂ (FieldReads (d + 2))
      [(codePoints "v", .int schemaVersion), (codePoints "sessions", .arr (sessions.map .obj))]
      [(codePoints "v", .int schemaVersion),
        (codePoints "sessions", .arr ((sessions.map rereadRecord).map .obj))] :=
    .cons ⟨by decide, reads_one _⟩ (.cons ⟨hname, reads_arr hitems⟩ .nil)
  have := reads_obj hfields
  have hn : [codePoints "v", codePoints "sessions"].Nodup := by decide
  rwa [fieldsOf_eq_self (by simpa using hn)] at this

theorem modelValidate_noteValue {sessions : List Record} (h : ∀ r ∈ sessions, IsSession r) :
    modelValidate (noteValue sessions) = some ⟨1, rfl, sessions.map sessionRecord⟩ := by
  have hitems : (sessions.map Json.obj).mapM validateSession =
      some (sessions.map sessionRecord) := by
    induction sessions with
    | nil => rfl
    | cons r sessions ih =>
      have hr := h r (by simp)
      rw [List.map_cons, List.mapM_cons, validateSession_obj hr.1, if_pos hr.2,
        ih (fun q hq => h q (by simp [hq]))]
      rfl
  have hv : List.lookup (codePoints "v") [(codePoints "v", (.int schemaVersion : JsonValue)),
      (codePoints "sessions", .arr (sessions.map .obj))] = some (.int 1) := rfl
  have hs : List.lookup (codePoints "sessions") [(codePoints "v", (.int schemaVersion : JsonValue)),
      (codePoints "sessions", .arr (sessions.map .obj))] = some (.arr (sessions.map .obj)) := rfl
  simp only [noteValue, modelValidate, hv, hs, Option.bind_eq_bind, Option.bind_some,
    requireSchemaVersionOne, validateSessions, hitems]
  rfl

/-- The notes of a line, none for an empty one. -/
def lineNotes (limit : Nat) (line : List Char) : List AttributionNote :=
  (stream isSpace (scanOnce limit) appendNote [] line).getD []

/-- A line that a note may hold. -/
def Written (line : List Char) : Prop :=
  line = [] ∨ ∃ sessions : List Record, (∀ r ∈ sessions, IsSession r) ∧
    line = stampPayload sessions

theorem stream_payload (hlimit : 3 ≤ limit) {sessions : List Record}
    (h : ∀ r ∈ sessions, IsSession r) :
    stream isSpace (scanOnce limit) appendNote [] (stampPayload sessions) =
      some [⟨1, rfl, (sessions.map rereadRecord).map sessionRecord⟩] := by
  have hread := reads_noteValue hlimit h [] (Or.inr rfl)
  rw [List.append_nil] at hread
  have hbrace : ∃ s, stampPayload sessions = '{' :: s := ⟨_, rfl⟩
  obtain ⟨s, hs⟩ := hbrace
  have hval : modelValidate (noteValue (sessions.map rereadRecord)) = _ :=
    modelValidate_noteValue (fun r hr => by
      obtain ⟨q, hq, rfl⟩ := List.mem_map.mp hr
      exact (h q hq).reread)
  have hread' : scanOnce limit ('{' :: s) = some (noteValue (sessions.map rereadRecord), []) := by
    rw [← hs]
    exact hread
  rw [hs, stream_cons (local_scanOnce limit), if_neg (by decide), hread', Option.bind_some]
  simp only [appendNote, hval, Option.bind_eq_bind, Option.bind_some, List.nil_append, stream_nil]

theorem stream_line (hlimit : 3 ≤ limit) {line : List Char} (h : Written line) :
    stream isSpace (scanOnce limit) appendNote [] line = some (lineNotes limit line) := by
  rcases h with rfl | ⟨sessions, hs, rfl⟩
  · rfl
  · rw [lineNotes, stream_payload hlimit hs]
    rfl

theorem lineNotes_ne_nil (hlimit : 3 ≤ limit) {line : List Char} (h : Written line)
    (hne : line ≠ []) : lineNotes limit line ≠ [] := by
  rcases h with rfl | ⟨sessions, hs, rfl⟩
  · exact absurd rfl hne
  · rw [lineNotes, stream_payload hlimit hs]
    simp

/-- The characters of a payload: one byte each, and no line ends. -/
def Printable (c : Char) : Prop := 32 ≤ c.toNat ∧ c.toNat ≤ 126

instance (c : Char) : Decidable (Printable c) := inferInstanceAs (Decidable (_ ∧ _))

theorem Printable.utf8Size {c : Char} (h : Printable c) : c.utf8Size = 1 := by
  have hlow : c.val.toNat ≤ 127 := le_trans h.2 (by omega)
  exact Char.utf8Size_eq_one_iff.mpr (UInt32.le_iff_toNat_le.mpr hlow)

theorem printable_of_all {cs : List Char} (h : cs.all (fun c => decide (Printable c)) = true) :
    ∀ c ∈ cs, Printable c := by
  simpa using h

theorem printable_escapeUnit (n : Nat) : ∀ c ∈ escapeUnit n, Printable c := by
  have hdigit : ∀ m, Printable (hexDigit (m % 16)) := by
    intro m
    have h := Nat.mod_lt m (by decide : 0 < 16)
    exact (by decide : ∀ d : Fin 16, Printable (hexDigit d.val)) ⟨m % 16, h⟩
  unfold escapeUnit
  split_ifs with _ _ _ _ _ _ _ hr
  all_goals try exact printable_of_all (by decide)
  · intro c hc
    obtain rfl := List.mem_singleton.mp hc
    have hvalid : n.isValidChar := Or.inl (by omega)
    have hn : (Char.ofNat n).toNat = n := by
      simp [Char.ofNat, hvalid, Char.toNat, Char.ofNatAux]
    rw [Printable, hn]
    exact hr
  · intro c hc
    simp only [unicodeEscape, List.mem_cons, List.not_mem_nil, or_false] at hc
    rcases hc with rfl | rfl | rfl | rfl | rfl | rfl
    · decide
    · decide
    · exact hdigit _
    · exact hdigit _
    · exact hdigit _
    · exact hdigit _

theorem printable_quoteText (t : Text) : ∀ c ∈ quoteText t, Printable c := by
  intro c hc
  simp only [quoteText, List.cons_append, List.mem_cons, List.mem_append, List.mem_flatMap,
    List.not_mem_nil, or_false] at hc
  rcases hc with rfl | ⟨n, -, hc⟩ | rfl
  · decide
  · exact printable_escapeUnit n c hc
  · decide

theorem printable_spaced {items : List (List Char)} (h : ∀ item ∈ items, ∀ c ∈ item, Printable c) :
    ∀ c ∈ spaced items, Printable c := by
  induction items with
  | nil => simp [spaced]
  | cons item rest ih =>
    have hitem := h item (by simp)
    have hrest := ih (fun x hx => h x (by simp [hx]))
    cases rest with
    | nil => exact hitem
    | cons next rest =>
      intro c hc
      simp only [spaced, List.mem_append, List.mem_cons] at hc
      rcases hc with hc | rfl | rfl | hc
      · exact hitem c hc
      · decide
      · decide
      · exact hrest c hc

theorem printable_fields {fields : List (Text × JsonValue)}
    (h : ∀ p ∈ fields, ∀ c ∈ dumps p.2, Printable c) :
    ∀ item ∈ dumps.dumpsFields fields, ∀ c ∈ item, Printable c := by
  induction fields with
  | nil => simp [dumps.dumpsFields]
  | cons p fields ih =>
    rintro item (_ | ⟨_, hm⟩)
    · intro c hc
      simp only [List.mem_append, List.mem_cons] at hc
      rcases hc with hc | rfl | rfl | hc
      · exact printable_quoteText p.1 c hc
      · decide
      · decide
      · exact h p (by simp) c hc
    · exact ih (fun q hq => h q (by simp [hq])) item hm

theorem printable_braced {open_ close : Char} {items : List (List Char)} (ho : Printable open_)
    (hc : Printable close) (h : ∀ item ∈ items, ∀ c ∈ item, Printable c) :
    ∀ c ∈ open_ :: spaced items ++ [close], Printable c := by
  intro c hmem
  simp only [List.cons_append, List.mem_cons, List.mem_append, List.not_mem_nil, or_false] at hmem
  rcases hmem with rfl | hmem | rfl
  · exact ho
  · exact printable_spaced h c hmem
  · exact hc

theorem printable_stampPayload {sessions : List Record} (h : ∀ r ∈ sessions, IsSession r) :
    ∀ c ∈ stampPayload sessions, Printable c := by
  have hrecord : ∀ r ∈ sessions, ∀ c ∈ dumps (.obj r), Printable c := by
    intro r hr
    refine printable_braced (by decide) (by decide) (printable_fields ?_)
    intro p hp
    obtain ⟨t, ht⟩ := ((h r hr).field hp).2
    rw [ht]
    exact printable_quoteText t
  have hitems : ∀ item ∈ dumps.dumpsItems (sessions.map .obj), ∀ c ∈ item, Printable c := by
    clear h
    induction sessions with
    | nil => simp [dumps.dumpsItems]
    | cons r sessions ih =>
      rintro item (_ | ⟨_, hm⟩)
      · exact hrecord r (by simp)
      · exact ih (fun q hq => hrecord q (by simp [hq])) item hm
  refine printable_braced (by decide) (by decide) (printable_fields ?_)
  rintro p (_ | ⟨_, _ | ⟨_, hp⟩⟩)
  · exact printable_of_all (by decide)
  · exact printable_braced (by decide) (by decide) hitems
  · cases hp

theorem newline_not_mem_stampPayload {sessions : List Record}
    (h : ∀ r ∈ sessions, IsSession r) : '\n' ∉ stampPayload sessions := by
  intro hmem
  exact absurd (printable_stampPayload h _ hmem) (by decide)

theorem stream_newline (hlimit : 3 ≤ limit) {line : List Char} (h : Written line)
    (before : List AttributionNote) (rest : List Char) :
    stream isSpace (scanOnce limit) appendNote before (line ++ '\n' :: rest) =
      stream isSpace (scanOnce limit) appendNote (before ++ lineNotes limit line) rest := by
  have hline : stream isSpace (scanOnce limit) appendNote before line =
      some (before ++ lineNotes limit line) := by
    rw [stream_notes_from, stream_line hlimit h]
    rfl
  rw [stream_append (local_scanOnce limit) (fun _ _ _ => appendNote_number) hline,
    stream_cons (local_scanOnce limit), if_pos (by decide)]

theorem stream_lines (hlimit : 3 ≤ limit) (lines : List (List Char))
    (h : ∀ line ∈ lines, Written line) (before : List AttributionNote) :
    stream isSpace (scanOnce limit) appendNote before (['\n'].intercalate lines) =
      some (before ++ lines.flatMap (lineNotes limit)) := by
  induction lines generalizing before with
  | nil => simp [List.intercalate]
  | cons line lines ih =>
    have hline := h line (by simp)
    cases lines with
    | nil =>
      rw [List.intercalate_singleton, stream_notes_from, stream_line hlimit hline]
      simp
    | cons next lines =>
      rw [List.intercalate_cons_cons, List.append_assoc, List.singleton_append,
        stream_newline hlimit hline, ih (fun l hl => h l (by simp [hl]))]
      simp

/-- A body of stamper payloads on lines of their own, with blank lines between them. -/
structure NoteBody (body : String) : Prop where
  lines : ∀ line ∈ noteLines body, Written line
  payload : ∃ line ∈ noteLines body, line ≠ []

def sessionsOf (limit : Nat) (lines : List (List Char)) : List AttributionSession :=
  lines.flatMap (fun line => (lineNotes limit line).flatMap AttributionNote.sessions)

theorem parse_lines (hlimit : 3 ≤ limit) {body : String} (h : NoteBody body) :
    parseNoteBody limit body =
      some ⟨1, rfl, firstWins AttributionSession.key (sessionsOf limit (noteLines body))⟩ := by
  have htext : ['\n'].intercalate (noteLines body) = body.toList := List.intercalate_splitOn '\n'
  have hstream := stream_lines hlimit (noteLines body) h.lines []
  rw [htext, List.nil_append] at hstream
  have hne : ((noteLines body).flatMap (lineNotes limit)).isEmpty = false := by
    obtain ⟨line, hl, hline⟩ := h.payload
    obtain ⟨note, rest, hn⟩ :=
      List.exists_cons_of_ne_nil (lineNotes_ne_nil hlimit (h.lines line hl) hline)
    rw [List.isEmpty_eq_false_iff_exists_mem]
    exact ⟨note, List.mem_flatMap.mpr ⟨line, hl, by simp [hn]⟩⟩
  unfold parseNoteBody
  simp only [hstream, Option.bind_eq_bind, Option.bind_some, hne]
  rw [mergeNotes_eq, List.flatMap_assoc]
  rfl

/-- The keys a note body credits. -/
def noteKeys (limit : Nat) (body : String) : Option (Finset (Text × Text)) :=
  (parseNoteBody limit body).map (fun note =>
    (note.sessions.map AttributionSession.key).toFinset)

theorem noteKeys_eq (hlimit : 3 ≤ limit) {body : String} (h : NoteBody body) :
    noteKeys limit body =
      some ((sessionsOf limit (noteLines body)).map AttributionSession.key).toFinset := by
  rw [noteKeys, parse_lines hlimit h, Option.map_some]
  congr 1
  ext k
  rw [List.mem_toFinset, List.mem_toFinset]
  exact mem_keys_firstWins _

theorem newline_not_mem {s line : List Char} (h : line ∈ s.splitOn '\n') : '\n' ∉ line := by
  induction s generalizing line with
  | nil =>
    rw [List.splitOn_nil, List.mem_singleton] at h
    simp [h]
  | cons c s ih =>
    rw [List.splitOn_cons_eq_if_modifyHead] at h
    split at h
    · rcases List.mem_cons.mp h with rfl | h
      · simp
      · exact ih h
    · rename_i hc
      obtain ⟨first, rest, he⟩ := List.exists_cons_of_ne_nil (List.splitOn_ne_nil '\n' s)
      rw [he, List.modifyHead_cons] at h
      rcases List.mem_cons.mp h with rfl | h
      · have hfirst : '\n' ∉ first := ih (by simp [he])
        simp only [List.mem_cons, not_or]
        exact ⟨fun heq => hc (by simp [← heq]), hfirst⟩
      · exact ih (by simp [he, h])

def mergedLines (a b : String) : List (List Char) :=
  (sortedBy id ((noteLines a ++ noteLines b).filter (fun line => !line.isEmpty))).dedup

theorem catSortUniq_eq (a b : String) : catSortUniq a b =
    String.ofList ((mergedLines a b).flatMap (fun line => line ++ ['\n'])) := rfl

theorem nodup_mergedLines (a b : String) : (mergedLines a b).Nodup := List.nodup_dedup _

theorem mem_mergedLines {a b : String} {line : List Char} :
    line ∈ mergedLines a b ↔ (line ∈ noteLines a ∨ line ∈ noteLines b) ∧ line ≠ [] := by
  rw [mergedLines, List.mem_dedup, mem_sortedBy, List.mem_filter, List.mem_append]
  simp

/-- Every line ends with a newline, so an empty line comes last. -/
theorem noteLines_catSortUniq (a b : String) :
    noteLines (catSortUniq a b) = mergedLines a b ++ [[]] := by
  have hends : ∀ lines : List (List Char), lines.flatMap (fun line => line ++ ['\n']) =
      ['\n'].intercalate (lines ++ [[]]) := by
    intro lines
    induction lines with
    | nil => rfl
    | cons line lines ih =>
      obtain ⟨next, rest, he⟩ := List.exists_cons_of_ne_nil
        (show lines ++ [[]] ≠ [] by simp)
      rw [List.flatMap_cons, ih, List.cons_append, he, List.intercalate_cons_cons]
  rw [noteLines, catSortUniq, String.toList_ofList]
  change ((mergedLines a b).flatMap _).splitOn '\n' = _
  rw [hends, List.splitOn_intercalate]
  · intro line hl
    rcases List.mem_append.mp hl with hl | hl
    · rcases (mem_mergedLines.mp hl).1 with h | h
      · exact newline_not_mem h
      · exact newline_not_mem h
    · rw [List.mem_singleton.mp hl]
      simp
  · simp

theorem NoteBody.merge {a b : String} (ha : NoteBody a) (hb : NoteBody b) :
    NoteBody (catSortUniq a b) := by
  constructor
  · intro line hl
    rw [noteLines_catSortUniq, List.mem_append, List.mem_singleton] at hl
    rcases hl with hl | rfl
    · rcases (mem_mergedLines.mp hl).1 with h | h
      · exact ha.lines line h
      · exact hb.lines line h
    · exact Or.inl rfl
  · obtain ⟨line, hl, hne⟩ := ha.payload
    refine ⟨line, ?_, hne⟩
    rw [noteLines_catSortUniq, List.mem_append]
    exact Or.inl (mem_mergedLines.mpr ⟨Or.inl hl, hne⟩)

theorem mem_sessionsOf {lines : List (List Char)} {s : AttributionSession} :
    s ∈ sessionsOf limit lines ↔
      ∃ line ∈ lines, line ≠ [] ∧ s ∈ (lineNotes limit line).flatMap AttributionNote.sessions := by
  rw [sessionsOf, List.mem_flatMap]
  constructor
  · rintro ⟨line, hl, hs⟩
    refine ⟨line, hl, ?_, hs⟩
    rintro rfl
    simp [lineNotes] at hs
  · rintro ⟨line, hl, -, hs⟩
    exact ⟨line, hl, hs⟩

/-- The union of two notes credits the keys of either. -/
theorem noteKeys_merge (hlimit : 3 ≤ limit) {a b : String} (ha : NoteBody a) (hb : NoteBody b) :
    noteKeys limit (catSortUniq a b) =
      (noteKeys limit a).bind (fun ka => (noteKeys limit b).map (fun kb => ka ∪ kb)) := by
  rw [noteKeys_eq hlimit (ha.merge hb), noteKeys_eq hlimit ha, noteKeys_eq hlimit hb]
  simp only [Option.bind_some, Option.map_some]
  refine congrArg some (Finset.ext (fun k => ?_))
  have hkey : ∀ lines : List (List Char),
      k ∈ ((sessionsOf limit lines).map AttributionSession.key).toFinset ↔
        ∃ line ∈ lines, line ≠ [] ∧ k ∈ ((lineNotes limit line).flatMap
          AttributionNote.sessions).map AttributionSession.key := by
    intro lines
    rw [List.mem_toFinset, List.mem_map]
    constructor
    · rintro ⟨s, hs, hk⟩
      obtain ⟨line, hl, hne, hm⟩ := mem_sessionsOf.mp hs
      exact ⟨line, hl, hne, List.mem_map.mpr ⟨s, hm, hk⟩⟩
    · rintro ⟨line, hl, hne, hk⟩
      obtain ⟨s, hm, hk⟩ := List.mem_map.mp hk
      exact ⟨s, mem_sessionsOf.mpr ⟨line, hl, hne, hm⟩, hk⟩
  rw [Finset.mem_union, hkey, hkey, hkey, noteLines_catSortUniq]
  constructor
  · rintro ⟨line, hl, hne, hk⟩
    rw [List.mem_append, List.mem_singleton] at hl
    rcases (mem_mergedLines.mp (hl.resolve_right hne)).1 with h | h
    · exact Or.inl ⟨line, h, hne, hk⟩
    · exact Or.inr ⟨line, h, hne, hk⟩
  · rintro (⟨line, hl, hne, hk⟩ | ⟨line, hl, hne, hk⟩)
    · exact ⟨line, by simp [mem_mergedLines, hl, hne], hne, hk⟩
    · exact ⟨line, by simp [mem_mergedLines, hl, hne], hne, hk⟩

def markerKeys (rows : List Row) : Finset Key := ((readMarkers rows).map Prod.fst).toFinset

theorem mem_keys_foldl_setdefault {α β : Type} (key : α → Key) (value : α → β) (xs : List α)
    (d : Dict Key β) {k : Key} :
    k ∈ (xs.foldl (fun d x => d.setdefault (key x) (value x)) d).keys ↔
      k ∈ d.keys ∨ k ∈ xs.map key := by
  induction xs generalizing d with
  | nil => simp
  | cons x xs ih =>
    rw [List.foldl_cons, ih, Dict.setdefault, Dict.mem_keys_alter, List.map_cons, List.mem_cons]
    tauto

theorem mem_keys_markerEntries (isUuid : Text → Bool) (fresh : Nat → Text) (rows : List Row)
    {k : Key} : k ∈ (markerEntries isUuid fresh rows).keys ↔ k ∈ markerKeys rows := by
  refine (mem_keys_foldl_setdefault (fun p : (Key × Record) × Nat => p.1.1) (fun p =>
    (⟨p.1.2.lookup (codePoints "stamped_at"), generationOf isUuid (fresh p.2) p.1.2⟩ : Entry))
    _ _).trans ?_
  rw [markerKeys, List.mem_toFinset]
  have hmap : (readMarkers rows).zipIdx.map (fun p => p.1.1) =
      (readMarkers rows).map Prod.fst := by
    have := congrArg (List.map Prod.fst) (List.zipIdx_map_fst 0 (readMarkers rows))
    rwa [List.map_map] at this
  rw [hmap]
  simp [Dict.keys, Dict.empty]

theorem markerOf_rowOf (p : Key × Entry) : (markerOf (rowOf p)).map Prod.fst = some p.1 := by
  obtain ⟨⟨tool, sessionId⟩, stampedAt, generation⟩ := p
  rfl

theorem markerKeys_writeMarkers (entries : Entries) :
    markerKeys (writeMarkers entries) = entries.keys.toFinset := by
  have hread : ∀ es : List (Key × Entry),
      (readMarkers (es.map rowOf)).map Prod.fst = es.map Prod.fst := by
    intro es
    induction es with
    | nil => rfl
    | cons p es ih =>
      obtain ⟨q, hq, hk⟩ := Option.map_eq_some_iff.mp (markerOf_rowOf p)
      rw [readMarkers, List.map_cons, List.filterMap_cons_some hq, List.map_cons, List.map_cons,
        hk]
      exact congrArg _ ih
  rw [markerKeys, writeMarkers, hread]
  rfl

theorem mem_keys_unionInto (fresh : Key → Text) (unioned : Dict Key Record) (live : Entries)
    {k : Key} : k ∈ (unionInto fresh unioned live).keys ↔ k ∈ live.keys ∨ k ∈ unioned.keys := by
  unfold unionInto Dict.keys
  generalize unioned.entries = es
  induction es generalizing live with
  | nil => simp
  | cons p es ih =>
    have hstep : ∀ live : Entries, k ∈ (if live.contains p.1 then live
        else live.set p.1 ⟨p.2.lookup (codePoints "stamped_at"), fresh p.1⟩).keys ↔
          k ∈ live.keys ∨ k = p.1 := by
      intro live
      split
      · rename_i hc
        have := (Dict.contains_iff live).mp hc
        exact ⟨Or.inl, fun h => h.elim id (fun he => he ▸ this)⟩
      · rw [Dict.set, Dict.mem_keys_alter]
    have hnext := ih (if live.contains p.1 then live
      else live.set p.1 ⟨p.2.lookup (codePoints "stamped_at"), fresh p.1⟩)
    rw [List.foldl_cons, hnext, List.map_cons, List.mem_cons]
    have := hstep live
    unfold Dict.keys at this
    rw [this]
    tauto

/-- Every Session of a squashed note is marked, and no other key comes or goes. -/
theorem markerKeys_unionSquash (isUuid : Text → Bool) (legacy : Nat → Text) (fresh : Key → Text)
    (notes : List (List Record)) (rows : List Row) :
    markerKeys (unionSquash isUuid legacy fresh notes rows) =
      markerKeys rows ∪ (notes.flatten.map sessionKey).toFinset := by
  have hunion : ∀ k, k ∈ (unionedSessions notes).keys ↔ k ∈ notes.flatten.map sessionKey := by
    intro k
    refine (mem_keys_foldl_setdefault sessionKey (fun r : Record => r) _ _).trans ?_
    simp [Dict.keys, Dict.empty]
  ext k
  rw [Finset.mem_union, List.mem_toFinset, ← hunion]
  unfold unionSquash
  dsimp only
  split
  · rename_i hempty
    have : (unionedSessions notes).keys = [] := by
      simp [Dict.keys, List.isEmpty_iff.mp hempty]
    simp [this]
  · rw [markerKeys_writeMarkers, List.mem_toFinset, mem_keys_unionInto, mem_keys_markerEntries]

/-- The note that git stores for a payload of the stamper. -/
def stampBody (sessions : List Record) : String :=
  String.ofList (stampPayload sessions ++ ['\n'])

theorem noteLines_stampBody {sessions : List Record} (h : ∀ r ∈ sessions, IsSession r) :
    noteLines (stampBody sessions) = [stampPayload sessions, []] := by
  rw [noteLines, stampBody, String.toList_ofList,
    List.splitOn_append_cons_self_of_not_mem (newline_not_mem_stampPayload h), List.splitOn_nil]

theorem noteBody_stampBody {sessions : List Record} (h : ∀ r ∈ sessions, IsSession r) :
    NoteBody (stampBody sessions) := by
  have hlines := noteLines_stampBody h
  constructor
  · rw [hlines]
    rintro line (_ | ⟨_, _ | ⟨_, hl⟩⟩)
    · exact Or.inr ⟨sessions, h, rfl⟩
    · exact Or.inl rfl
    · cases hl
  · exact ⟨stampPayload sessions, by simp [hlines], by simp [stampPayload, noteValue, dumps]⟩

/-- The keys that the client credits a body with. -/
def clientKeys (limit : Nat) (body : String) : Option (Finset Key) :=
  (parseNoteSessions limit body).map (fun sessions => (sessions.map sessionKey).toFinset)

theorem clientKeys_eq (limit : Nat) (body : String) :
    clientKeys limit body =
      if body.utf8ByteSize ≤ noteLimitBytes then noteKeys limit body else none := by
  split
  · rename_i hsize
    have h := congrArg (Option.map (fun sessions : List AttributionSession =>
      (sessions.map AttributionSession.key).toFinset)) (parse_agree limit hsize)
    rw [Option.map_map, Option.map_map] at h
    have hkeys : (fun sessions : List Record => (sessions.map sessionKey).toFinset) =
        (fun sessions => (sessions.map AttributionSession.key).toFinset) ∘
          List.map sessionRecord := by
      funext sessions
      simp only [Function.comp_apply, List.map_map]
      rfl
    rw [clientKeys, hkeys, h]
    rfl
  · rename_i hsize
    rw [clientKeys, parseNoteSessions, if_pos (Or.inr (Nat.lt_of_not_le hsize))]
    rfl

/-- The keys that the server credits a body with. -/
def serverKeys (limit : Nat) (body : String) : Option (Finset Key) :=
  (readCommitNote limit (some body)).map (fun note =>
    (note.sessions.map AttributionSession.key).toFinset)

theorem serverKeys_eq (limit : Nat) (body : String) :
    serverKeys limit body =
      if body.utf8ByteSize ≤ noteLimitBytes then noteKeys limit body else none := by
  have hsame : maxNoteBytes = noteLimitBytes := rfl
  simp only [serverKeys, readCommitNote, Option.bind_eq_bind, Option.bind_some, hsame]
  split
  · rename_i hsize
    rw [if_neg (Nat.not_le_of_lt hsize)]
    rfl
  · rename_i hsize
    rw [if_pos (Nat.le_of_not_lt hsize)]
    rfl

theorem mergedLines_congr {a b c d : String}
    (h : ∀ line, line ≠ [] → (line ∈ noteLines a ∨ line ∈ noteLines b ↔
      line ∈ noteLines c ∨ line ∈ noteLines d)) : mergedLines a b = mergedLines c d := by
  have hsorted : ∀ a b : String, (mergedLines a b).Pairwise (· ≤ ·) := fun a b =>
    (sortedBy_pairwise id _).sublist (List.dedup_sublist _)
  have hperm : (mergedLines a b).Perm (mergedLines c d) := by
    rw [List.perm_ext_iff_of_nodup (nodup_mergedLines a b) (nodup_mergedLines c d)]
    intro line
    rw [mem_mergedLines, mem_mergedLines]
    exact and_congr_left (h line)
  exact eq_of_perm_of_pairwise id hperm (fun _ _ _ _ he => he) (hsorted a b) (hsorted c d)

theorem catSortUniq_comm (a b : String) : catSortUniq a b = catSortUniq b a := by
  have h : mergedLines a b = mergedLines b a := mergedLines_congr (fun _ _ => or_comm)
  rw [catSortUniq_eq, catSortUniq_eq, h]

theorem catSortUniq_assoc (a b c : String) :
    catSortUniq (catSortUniq a b) c = catSortUniq a (catSortUniq b c) := by
  have hmem : ∀ a b : String, ∀ line, line ≠ [] → (line ∈ noteLines (catSortUniq a b) ↔
      line ∈ noteLines a ∨ line ∈ noteLines b) := by
    intro a b line hne
    simp [noteLines_catSortUniq, mem_mergedLines, hne]
  have h : mergedLines (catSortUniq a b) c = mergedLines a (catSortUniq b c) := by
    apply mergedLines_congr
    intro line hne
    rw [hmem a b line hne, hmem b c line hne, or_assoc]
  rw [catSortUniq_eq (catSortUniq a b) c, catSortUniq_eq a (catSortUniq b c), h]

/-- A line-wise union of two notes holds exactly the keys of either, whatever the order and the
grouping, and both readers credit them while it stays within their limit; the union of squashed
notes repeats without effect. -/
theorem note_merge_loses_no_session (limit : Nat) (hlimit : 3 ≤ limit) :
    (∀ a b, NoteBody a → NoteBody b → NoteBody (catSortUniq a b) ∧
      ∃ ka kb, noteKeys limit a = some ka ∧ noteKeys limit b = some kb ∧
        noteKeys limit (catSortUniq a b) = some (ka ∪ kb) ∧
        ((catSortUniq a b).utf8ByteSize ≤ noteLimitBytes →
          clientKeys limit (catSortUniq a b) = some (ka ∪ kb) ∧
            serverKeys limit (catSortUniq a b) = some (ka ∪ kb)) ∧
        (noteLimitBytes < (catSortUniq a b).utf8ByteSize →
          clientKeys limit (catSortUniq a b) = none ∧
            serverKeys limit (catSortUniq a b) = none)) ∧
    (∀ a b, catSortUniq a b = catSortUniq b a) ∧
    (∀ a b c, catSortUniq (catSortUniq a b) c = catSortUniq a (catSortUniq b c)) ∧
    (∀ a, NoteBody a → noteKeys limit (catSortUniq a a) = noteKeys limit a) ∧
    (∀ (isUuid : Text → Bool) (legacy legacy' : Nat → Text) (fresh fresh' : Key → Text)
        (notes : List (List Record)) (rows : List Row),
      markerKeys (unionSquash isUuid legacy' fresh' notes
          (unionSquash isUuid legacy fresh notes rows)) =
        markerKeys (unionSquash isUuid legacy fresh notes rows)) := by
  have hsome : ∀ {a}, NoteBody a → ∃ ka, noteKeys limit a = some ka :=
    fun ha => ⟨_, noteKeys_eq hlimit ha⟩
  refine ⟨?_, catSortUniq_comm, catSortUniq_assoc, ?_, ?_⟩
  · intro a b ha hb
    obtain ⟨ka, hka⟩ := hsome ha
    obtain ⟨kb, hkb⟩ := hsome hb
    have hmerged : noteKeys limit (catSortUniq a b) = some (ka ∪ kb) := by
      rw [noteKeys_merge hlimit ha hb, hka, hkb]
      rfl
    refine ⟨ha.merge hb, ka, kb, hka, hkb, hmerged, fun hsize => ?_, fun hsize => ?_⟩
    · rw [clientKeys_eq, serverKeys_eq, if_pos hsize]
      exact ⟨hmerged, hmerged⟩
    · rw [clientKeys_eq, serverKeys_eq, if_neg (Nat.not_le_of_lt hsize)]
      exact ⟨rfl, rfl⟩
  · intro a ha
    obtain ⟨ka, hka⟩ := hsome ha
    rw [noteKeys_merge hlimit ha ha, hka]
    simp
  · intro isUuid legacy legacy' fresh fresh' notes rows
    rw [markerKeys_unionSquash, markerKeys_unionSquash, Finset.union_assoc, Finset.union_self]

def oneRecord (session : Text) : Record :=
  [(codePoints "tool", .str (codePoints "codex")), (codePoints "session_id", .str session),
    (codePoints "stamped_at", .str (codePoints "2026-07-24T01:00:00.000000+00:00"))]

theorem isSession_oneRecord (session : Text) : IsSession (oneRecord session) := by
  have hn : [codePoints "tool", codePoints "session_id", codePoints "stamped_at"].Nodup := by
    decide
  exact ⟨hn, rfl⟩

/-- Two machines stamped one commit, each for its own Session. -/
theorem two_machines_merge :
    noteKeys 1000 (catSortUniq (stampBody [oneRecord (codePoints "a")])
        (stampBody [oneRecord (codePoints "b")])) =
      some {(codePoints "codex", codePoints "a"), (codePoints "codex", codePoints "b")} := by
  have ha : NoteBody (stampBody [oneRecord (codePoints "a")]) :=
    noteBody_stampBody (by simpa using isSession_oneRecord _)
  have hb : NoteBody (stampBody [oneRecord (codePoints "b")]) :=
    noteBody_stampBody (by simpa using isSession_oneRecord _)
  obtain ⟨-, ka, kb, hka, hkb, hk, -⟩ :=
    (note_merge_loses_no_session 1000 (by decide)).1 _ _ ha hb
  have hka' : noteKeys 1000 (stampBody [oneRecord (codePoints "a")]) =
      some {(codePoints "codex", codePoints "a")} := by decide +kernel
  have hkb' : noteKeys 1000 (stampBody [oneRecord (codePoints "b")]) =
      some {(codePoints "codex", codePoints "b")} := by decide +kernel
  rw [hka'] at hka
  rw [hkb'] at hkb
  cases hka
  cases hkb
  rw [hk]
  rfl

theorem utf8Len_printable {cs : List Char} (h : ∀ c ∈ cs, Printable c) :
    String.utf8Len cs = cs.length := by
  induction cs with
  | nil => rfl
  | cons c cs ih =>
    rw [String.utf8Len_cons, ih (fun x hx => h x (by simp [hx])), (h c (by simp)).utf8Size,
      List.length_cons]

theorem utf8ByteSize_stampBody {sessions : List Record} (h : ∀ r ∈ sessions, IsSession r) :
    (stampBody sessions).utf8ByteSize = (stampPayload sessions).length + 1 := by
  rw [stampBody, String.utf8ByteSize_ofList, String.utf8Len_append,
    utf8Len_printable (printable_stampPayload h)]
  rfl

theorem length_le_utf8Len (cs : List Char) : cs.length ≤ String.utf8Len cs := by
  induction cs with
  | nil => exact Nat.le_refl 0
  | cons c cs ih =>
    have := c.utf8Size_pos
    rw [List.length_cons, String.utf8Len_cons]
    omega

/-- Two different payloads stay beside each other. -/
theorem utf8ByteSize_merge {s t : List Record} (hs : ∀ r ∈ s, IsSession r)
    (ht : ∀ r ∈ t, IsSession r) (hne : stampPayload s ≠ stampPayload t) :
    (stampPayload s).length + (stampPayload t).length + 2 ≤
      (catSortUniq (stampBody s) (stampBody t)).utf8ByteSize := by
  have hperm : (mergedLines (stampBody s) (stampBody t)).Perm [stampPayload s, stampPayload t] := by
    rw [List.perm_ext_iff_of_nodup (nodup_mergedLines _ _) (by simpa using hne)]
    intro line
    have hpayload : ∀ u : List Record, stampPayload u ≠ [] := fun u => by
      simp [stampPayload, noteValue, dumps]
    simp only [mem_mergedLines, noteLines_stampBody hs, noteLines_stampBody ht, List.mem_cons,
      List.not_mem_nil, or_false]
    constructor
    · rintro ⟨(h | h) | h | h, hline⟩
      · exact Or.inl h
      · exact absurd h hline
      · exact Or.inr h
      · exact absurd h hline
    · rintro (rfl | rfl)
      · exact ⟨Or.inl (Or.inl rfl), hpayload s⟩
      · exact ⟨Or.inr (Or.inl rfl), hpayload t⟩
  have hlength := (hperm.flatMap_right (fun line => line ++ ['\n'])).length_eq
  rw [catSortUniq, String.utf8ByteSize_ofList]
  refine le_trans (le_of_eq ?_) (length_le_utf8Len _)
  change _ = ((mergedLines (stampBody s) (stampBody t)).flatMap (fun line => line ++ ['\n'])).length
  rw [hlength]
  simp only [List.flatMap_cons, List.flatMap_nil, List.length_append, List.length_cons,
    List.length_nil]
  omega

theorem length_spaced {n : Nat} {items : List (List Char)} (h : ∀ item ∈ items, item.length = n)
    (hne : items ≠ []) : (spaced items).length + 2 = items.length * (n + 2) := by
  induction items with
  | nil => exact absurd rfl hne
  | cons item rest ih =>
    have hitem := h item (by simp)
    cases rest with
    | nil => simp [spaced, hitem]
    | cons next rest =>
      have hrest := ih (fun x hx => h x (by simp [hx])) (by simp)
      rw [List.length_cons, Nat.succ_mul, ← hrest]
      simp only [spaced, List.length_append, List.length_cons, hitem]
      omega

theorem dumpsItems_map {α : Type} (f : α → JsonValue) (xs : List α) :
    dumps.dumpsItems (xs.map f) = xs.map (fun x => dumps (f x)) := by
  induction xs with
  | nil => rfl
  | cons x xs ih => rw [List.map_cons, dumps.dumpsItems, ih, List.map_cons]

theorem length_stampPayload {n : Nat} {sessions : List Record}
    (h : ∀ r ∈ sessions, (dumps (.obj r)).length = n) (hne : sessions ≠ []) :
    (stampPayload sessions).length = sessions.length * (n + 2) + 22 := by
  have hitems : ∀ item ∈ sessions.map (fun r => dumps (.obj r)), item.length = n := by
    intro item hitem
    obtain ⟨r, hr, rfl⟩ := List.mem_map.mp hitem
    exact h r hr
  have hlength := length_spaced hitems (by simpa using hne)
  rw [List.length_map] at hlength
  rw [stampPayload, noteValue, dumps, dumps.dumpsFields, dumps.dumpsFields, dumps.dumpsFields,
    dumps, dumps, dumpsItems_map]
  have hv : (quoteText (codePoints "v")).length = 3 := rfl
  have hsessions : (quoteText (codePoints "sessions")).length = 10 := rfl
  have hone : (toString schemaVersion).toList.length = 1 := rfl
  simp only [spaced, List.length_append, List.length_cons, List.length_nil, hv, hsessions, hone]
  omega

theorem length_quoteText {t : Text} (h : ∀ n ∈ t, n ≠ 34 ∧ n ≠ 92 ∧ 32 ≤ n ∧ n ≤ 126) :
    (quoteText t).length = t.length + 2 := by
  have hone : ∀ t : Text, (∀ n ∈ t, n ≠ 34 ∧ n ≠ 92 ∧ 32 ≤ n ∧ n ≤ 126) →
      ((t.flatMap utf16).flatMap escapeUnit).length = t.length := by
    intro t
    induction t with
    | nil => intro _; rfl
    | cons n t ih =>
      intro h
      obtain ⟨hquote, hback, hrange⟩ := h n (by simp)
      have hunit : utf16 n = [n] := if_pos (by omega)
      have hescape : escapeUnit n = [Char.ofNat n] := by
        rw [escapeUnit, if_neg hquote, if_neg hback, if_neg (by omega), if_neg (by omega),
          if_neg (by omega), if_neg (by omega), if_neg (by omega), if_pos hrange]
      rw [List.flatMap_cons, hunit, List.singleton_append, List.flatMap_cons, hescape,
        List.singleton_append, List.length_cons, ih (fun m hm => h m (by simp [hm])),
        List.length_cons]
  rw [quoteText, List.length_append, List.length_cons, hone t h]
  rfl

theorem length_dumps_oneRecord {t : Text} (h : ∀ n ∈ t, n ≠ 34 ∧ n ≠ 92 ∧ 32 ≤ n ∧ n ≤ 126) :
    (dumps (.obj (oneRecord t))).length = t.length + 85 := by
  have htool : (quoteText (codePoints "tool")).length = 6 := rfl
  have hcodex : (quoteText (codePoints "codex")).length = 7 := rfl
  have hid : (quoteText (codePoints "session_id")).length = 12 := rfl
  have hat : (quoteText (codePoints "stamped_at")).length = 12 := rfl
  have htime : (quoteText (codePoints "2026-07-24T01:00:00.000000+00:00")).length = 34 := rfl
  rw [oneRecord, dumps, dumps.dumpsFields, dumps.dumpsFields, dumps.dumpsFields,
    dumps.dumpsFields, dumps, dumps, dumps]
  simp only [spaced, List.length_append, List.length_cons, List.length_nil, htool, hcodex, hid,
    hat, htime, length_quoteText h]
  omega

/-- The ids of one machine's Sessions, and the note of all of them. -/
def crowdId (machine i : Nat) : Text :=
  codePoints "0198a000-0000-7000-8000-00000000" ++
    [machine, 48 + i / 100 % 10, 48 + i / 10 % 10, 48 + i % 10]

def crowd (machine : Nat) : List Record :=
  (List.range 400).map (fun i => oneRecord (crowdId machine i))

theorem crowd_isSession (machine : Nat) : ∀ r ∈ crowd machine, IsSession r := by
  intro r hr
  obtain ⟨i, -, rfl⟩ := List.mem_map.mp hr
  exact isSession_oneRecord _

theorem length_crowd {machine : Nat} (h : machine ∈ [97, 98]) :
    (stampPayload (crowd machine)).length = 49222 := by
  have hrecords : ∀ r ∈ crowd machine, (dumps (.obj r)).length = 121 := by
    intro r hr
    obtain ⟨i, -, rfl⟩ := List.mem_map.mp hr
    refine length_dumps_oneRecord ?_
    intro n hn
    rcases List.mem_append.mp hn with hn | hn
    · exact (by decide : ∀ n ∈ codePoints "0198a000-0000-7000-8000-00000000",
        n ≠ 34 ∧ n ≠ 92 ∧ 32 ≤ n ∧ n ≤ 126) n hn
    · simp only [List.mem_cons, List.not_mem_nil, or_false] at hn h
      omega
  rw [length_stampPayload hrecords (by simp [crowd])]
  simp [crowd]

/-- Two machines stamped one commit, each for 400 Sessions. Either note is read, and what git
makes of both is refused. -/
theorem large_notes_refused :
    ∃ ka kb, NoteBody (stampBody (crowd 97)) ∧ NoteBody (stampBody (crowd 98)) ∧
      clientKeys 1000 (stampBody (crowd 97)) = some ka ∧
      serverKeys 1000 (stampBody (crowd 97)) = some ka ∧
      clientKeys 1000 (stampBody (crowd 98)) = some kb ∧
      serverKeys 1000 (stampBody (crowd 98)) = some kb ∧
      clientKeys 1000 (catSortUniq (stampBody (crowd 97)) (stampBody (crowd 98))) = none ∧
      serverKeys 1000 (catSortUniq (stampBody (crowd 97)) (stampBody (crowd 98))) = none := by
  have ha := noteBody_stampBody (crowd_isSession 97)
  have hb := noteBody_stampBody (crowd_isSession 98)
  have hlength := length_crowd (show 97 ∈ [97, 98] by simp)
  have hlength' := length_crowd (show 98 ∈ [97, 98] by simp)
  have hsize : (stampBody (crowd 97)).utf8ByteSize ≤ noteLimitBytes := by
    rw [utf8ByteSize_stampBody (crowd_isSession 97), hlength]
    decide
  have hsize' : (stampBody (crowd 98)).utf8ByteSize ≤ noteLimitBytes := by
    rw [utf8ByteSize_stampBody (crowd_isSession 98), hlength']
    decide
  have hne : stampPayload (crowd 97) ≠ stampPayload (crowd 98) := by
    intro he
    have hmachine := congrArg (fun s => s[87]?) he
    revert hmachine
    decide +kernel
  have hlarge := utf8ByteSize_merge (crowd_isSession 97) (crowd_isSession 98) hne
  rw [hlength, hlength'] at hlarge
  have hover : ¬ (catSortUniq (stampBody (crowd 97)) (stampBody (crowd 98))).utf8ByteSize ≤
      noteLimitBytes := by
    rw [noteLimitBytes]
    omega
  have hsome : ∀ {body}, NoteBody body → ∃ keys, noteKeys 1000 body = some keys :=
    fun h => ⟨_, noteKeys_eq (by decide) h⟩
  obtain ⟨ka, hread⟩ := hsome ha
  obtain ⟨kb, hread'⟩ := hsome hb
  refine ⟨ka, kb, ha, hb, ?_, ?_, ?_, ?_, ?_, ?_⟩
  · exact (clientKeys_eq _ _).trans ((if_pos hsize).trans hread)
  · exact (serverKeys_eq _ _).trans ((if_pos hsize).trans hread)
  · exact (clientKeys_eq _ _).trans ((if_pos hsize').trans hread')
  · exact (serverKeys_eq _ _).trans ((if_pos hsize').trans hread')
  · exact (clientKeys_eq _ _).trans (if_neg hover)
  · exact (serverKeys_eq _ _).trans (if_neg hover)

end Sediment.Proofs.NoteMerge

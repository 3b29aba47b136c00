import Sediment.Base.JsonKeys
import Sediment.Base.FirstWins
import Sediment.Derive.Notes
import Sediment.Cli.Notes

namespace Sediment.Proofs.Notes
open Sediment.Base Sediment.Core Sediment.Derive Sediment.Cli
open Sediment.Base.JsonScan

variable {r : Record} {name : String} {text : Text}

def sessionRecord (r : Record) : AttributionSession :=
  ⟨textAt r "tool", textAt r "session_id", textAt r "stamped_at"⟩

theorem mem_record_iff (hn : (r.map Prod.fst).Nodup) {k : Text} {v : JsonValue} :
    (k, v) ∈ r ↔ r.lookup k = some v := by
  have h := Dict.mem_entries_iff (⟨r, hn⟩ : Dict Text JsonValue) (k := k) (v := v)
  have hbeq : (instBEqOfDecidableEq : BEq Text) = List.instBEq := lawful_beq_subsingleton _ _
  rwa [Dict.get?, hbeq] at h

theorem textAt_of_strField (h : strField r name = some text) : textAt r name = text := by
  unfold textAt
  rw [Json.strField_eq_some.mp h]

theorem mem_keySet {k : Text} : k ∈ keySet r ↔ k ∈ r.map Prod.fst := List.mem_toFinset

theorem noExtra_iff {declared : List Text} :
    noExtra declared r = true ↔ ∀ k ∈ r.map Prod.fst, k ∈ declared := by
  simp only [noExtra, List.all_eq_true, List.contains_iff_mem, List.mem_map]
  constructor
  · rintro h _ ⟨p, hp, rfl⟩
    exact h p hp
  · exact fun h p hp => h p.1 ⟨p, hp, rfl⟩

/-- A key set is the declared one exactly when nothing is extra and nothing missing. -/
theorem keySet_eq_iff (declared : List Text) :
    keySet r = declared.toFinset ↔
      noExtra declared r = true ∧ ∀ k ∈ declared, k ∈ r.map Prod.fst := by
  rw [noExtra_iff, Finset.ext_iff]
  simp only [mem_keySet, List.mem_toFinset]
  exact ⟨fun h => ⟨fun k => (h k).mp, fun k => (h k).mpr⟩, fun h k => ⟨h.1 k, h.2 k⟩⟩

theorem mem_keys_of_lookup {k : Text} {v : JsonValue} (h : r.lookup k = some v) :
    k ∈ r.map Prod.fst := by
  obtain ⟨xs, ys, rfl, -⟩ := List.lookup_eq_some_iff.mp h
  simp

theorem lookup_of_mem_keys (hn : (r.map Prod.fst).Nodup) {k : Text} (h : k ∈ r.map Prod.fst) :
    ∃ v, r.lookup k = some v ∧ (k, v) ∈ r := by
  obtain ⟨⟨_, v⟩, hp, rfl⟩ := List.mem_map.mp h
  exact ⟨v, (mem_record_iff hn).mp hp, hp⟩

variable (name) in
theorem strField_of_wellFormed (hn : (r.map Prod.fst).Nodup) (h : sessionWellFormed r = true)
    (hname : codePoints name ∈ AttributionSession.names) :
    strField r name = some (textAt r name) := by
  simp only [sessionWellFormed, Bool.and_eq_true, decide_eq_true_eq, List.all_eq_true] at h
  have hkey := (keySet_eq_iff AttributionSession.names).mp h.1
  obtain ⟨v, hl, hm⟩ := lookup_of_mem_keys hn (hkey.2 _ hname)
  have hstr := h.2 _ hm
  cases v with
  | str text =>
    have hf := Json.strField_eq_some.mpr hl
    rw [textAt_of_strField hf]
    exact hf
  | _ => cases hstr

/-- The model of the server and the checks of the client accept one and the
same records, and read the same three texts. -/
theorem validateSession_obj (hn : (r.map Prod.fst).Nodup) :
    validateSession (.obj r) =
      if sessionWellFormed r then some (sessionRecord r) else none := by
  by_cases h : sessionWellFormed r = true
  · have hkey := h
    simp only [sessionWellFormed, Bool.and_eq_true, decide_eq_true_eq] at hkey
    have hextra := ((keySet_eq_iff AttributionSession.names).mp hkey.1).1
    simp only [validateSession, strField_of_wellFormed "tool" hn h (by decide),
      strField_of_wellFormed "session_id" hn h (by decide),
      strField_of_wellFormed "stamped_at" hn h (by decide), hextra, h,
      Option.bind_eq_bind, Option.bind_some, if_true, sessionRecord]
  · rw [if_neg h]
    cases hv : validateSession (.obj r) with
    | none => rfl
    | some s =>
      exfalso
      apply h
      simp only [validateSession, Option.bind_eq_bind, Option.bind_eq_some_iff] at hv
      obtain ⟨tool, htool, sessionId, hid, stampedAt, hat, hs⟩ := hv
      split at hs
      swap
      · cases hs
      rename_i hextra
      have hall : ∀ k ∈ AttributionSession.names, ∃ text, r.lookup k = some (.str text) := by
        simp only [AttributionSession.names, List.mem_cons, List.not_mem_nil, or_false]
        rintro k (rfl | rfl | rfl)
        · exact ⟨_, Json.strField_eq_some.mp htool⟩
        · exact ⟨_, Json.strField_eq_some.mp hid⟩
        · exact ⟨_, Json.strField_eq_some.mp hat⟩
      simp only [sessionWellFormed, Bool.and_eq_true, decide_eq_true_eq, List.all_eq_true]
      constructor
      · refine (keySet_eq_iff AttributionSession.names).mpr ⟨hextra, ?_⟩
        intro k hk
        obtain ⟨text, hl⟩ := hall k hk
        exact mem_keys_of_lookup hl
      · rintro ⟨k, v⟩ hp
        obtain ⟨text, hl⟩ := hall k (noExtra_iff.mp hextra k (List.mem_map_of_mem hp))
        rw [mem_record_iff hn] at hp
        rw [hp] at hl
        cases hl
        rfl

variable {d : Dict (Text × Text) Record} {xs : List AttributionSession}

/-- The client's dictionary holds the union of the sessions read so far. -/
def Holds (d : Dict (Text × Text) Record) (xs : List AttributionSession) : Prop :=
  d.entries.map (fun e => (e.1, sessionRecord e.2)) =
    (firstWins AttributionSession.key xs).map (fun s => (s.key, s))

theorem Holds.keys (h : Holds d xs) :
    d.keys = (firstWins AttributionSession.key xs).map AttributionSession.key := by
  have := congrArg (List.map Prod.fst) h
  simpa [Dict.keys, List.map_map, Function.comp_def] using this

theorem Holds.values (h : Holds d xs) :
    d.values.map sessionRecord = firstWins AttributionSession.key xs := by
  have := congrArg (List.map Prod.snd) h
  simpa [Dict.values, List.map_map, Function.comp_def] using this

theorem Holds.setdefault (h : Holds d xs) (r : Record) :
    Holds (d.setdefault (sessionKey r) r) (xs ++ [sessionRecord r]) := by
  have hkeys := h.keys
  unfold Holds at h ⊢
  rw [firstWins_append_singleton, Dict.entries_setdefault, addNew, hkeys]
  by_cases hm : (sessionRecord r).key ∈ (firstWins AttributionSession.key xs).map
      AttributionSession.key
  · rw [if_pos hm, if_pos (show sessionKey r ∈ _ from hm)]
    exact h
  · rw [if_neg hm, if_neg (show sessionKey r ∉ _ from hm), List.map_append, List.map_append, h]
    rfl

theorem addSession_rel (h : Holds d xs) {item : JsonValue} (hk : Keyed item) :
    Option.Rel (fun d' s => Holds d' (xs ++ [s])) (addSession d item) (validateSession item) := by
  cases hk with
  | obj hn _ =>
    rename_i r _
    rw [validateSession_obj hn, addSession]
    split
    · exact .some (h.setdefault r)
    · exact .none
  | arr => exact .none
  | scalar ha ho =>
    cases item with
    | obj fields => exact absurd rfl (ho fields)
    | _ => exact .none

theorem addSessions_rel (h : Holds d xs) {items : List JsonValue} (hk : ∀ item ∈ items, Keyed item) :
    Option.Rel (fun d' sessions => Holds d' (xs ++ sessions))
      (items.foldlM addSession d) (items.mapM validateSession) := by
  induction items generalizing d xs with
  | nil => exact .some (by simpa using h)
  | cons item items ih =>
    have hitem := addSession_rel h (hk item (by simp))
    rw [List.foldlM_cons, List.mapM_cons]
    cases ha : addSession d item <;> cases hv : validateSession item <;> rw [ha, hv] at hitem
    · exact .none
    · cases hitem
    · cases hitem
    · rename_i d' s
      cases hitem with
      | some hd =>
        have hrest := ih hd (fun item hi => hk item (by simp [hi]))
        simp only [Option.bind_eq_bind, Option.bind_some, Option.pure_def]
        cases hf : items.foldlM addSession d' <;> cases hm : items.mapM validateSession <;>
          rw [hf, hm] at hrest
        · exact .none
        · cases hrest
        · cases hrest
        · cases hrest with
          | some hd' => exact .some (by simpa using hd')

theorem version_iff {o : Option JsonValue} :
    isVersion o = true ↔ ∃ v, o.bind requireSchemaVersionOne = some v := by
  cases o with
  | none => simp [isVersion]
  | some v =>
    cases v with
    | int n =>
      simp only [isVersion, schemaVersion, Option.bind_some, requireSchemaVersionOne]
      by_cases hn : n = 1 <;> simp [hn]
    | _ => simp [isVersion, requireSchemaVersionOne]

theorem addPayload_rel (h : Holds d xs) {payload : JsonValue} (hk : Keyed payload) :
    Option.Rel (fun d' note => Holds d' (xs ++ note.sessions))
      (addPayload d payload) (modelValidate payload) := by
  cases hk with
  | arr => exact .none
  | scalar ha ho =>
    cases payload with
    | obj fields => exact absurd rfl (ho fields)
    | _ => exact .none
  | obj hn hitems =>
    rename_i r
    simp only [addPayload, modelValidate, Option.bind_eq_bind]
    by_cases hver : isVersion (r.lookup (codePoints "v")) = true
    swap
    · have hnone : (r.lookup (codePoints "v")).bind requireSchemaVersionOne = none := by
        rw [Option.eq_none_iff_forall_ne_some]
        exact fun v hv => hver (version_iff.mpr ⟨v, hv⟩)
      rw [if_neg (fun hc => hver hc.2), hnone]
      exact .none
    obtain ⟨v, hv⟩ := version_iff.mp hver
    simp only [hv, Option.bind_some, hver, and_true]
    have hset : keySet r = {codePoints "v", codePoints "sessions"} ↔ _ :=
      keySet_eq_iff AttributionNote.names
    have hvkey : codePoints "v" ∈ r.map Prod.fst := by
      obtain ⟨o, ho, -⟩ := Option.bind_eq_some_iff.mp hv
      exact mem_keys_of_lookup ho
    cases hl : r.lookup (codePoints "sessions") with
    | none =>
      split <;> exact .none
    | some value =>
      have hskey := mem_keys_of_lookup hl
      have hextra : keySet r = {codePoints "v", codePoints "sessions"} ↔
          noExtra AttributionNote.names r = true := by
        rw [hset]
        refine and_iff_left (fun k hk => ?_)
        simp only [AttributionNote.names, List.mem_cons, List.not_mem_nil, or_false] at hk
        rcases hk with rfl | rfl
        · exact hvkey
        · exact hskey
      simp only [Option.bind_some, hextra]
      have hvalue := hitems _ ((mem_record_iff hn).mpr hl)
      cases hvalue with
      | scalar ha ho =>
        cases value with
        | arr items => exact absurd rfl (ha items)
        | _ => split <;> exact .none
      | obj => split <;> exact .none
      | arr hi =>
        rename_i items
        have hrel := addSessions_rel h hi
        simp only [validateSessions]
        split
        · cases hf : items.foldlM addSession d <;> cases hm : items.mapM validateSession <;>
            rw [hf, hm] at hrel
          · exact .none
          · cases hrel
          · cases hrel
          · cases hrel with
            | some hd => exact .some hd
        · cases items.mapM validateSession <;> exact .none

variable {limit : Nat} {raw : String}

theorem appendNote_number {notes notes' : List AttributionNote} {payload : JsonValue}
    (h : appendNote notes payload = some notes') : isNumber payload = false := by
  cases payload with
  | int n => cases h
  | float x => cases h
  | _ => rfl

theorem mergeSessions_merged (sessions : List AttributionSession) (m : Merge)
    (hm : m.seen = (m.merged.map AttributionSession.key).toFinset) :
    (sessions.foldl mergeSession m).merged =
        sessions.foldl (addNew AttributionSession.key) m.merged ∧
      (sessions.foldl mergeSession m).seen =
        ((sessions.foldl mergeSession m).merged.map AttributionSession.key).toFinset := by
  induction sessions generalizing m with
  | nil => exact ⟨rfl, hm⟩
  | cons s sessions ih =>
    simp only [List.foldl_cons]
    have hstep : (mergeSession m s).merged = addNew AttributionSession.key m.merged s := by
      unfold mergeSession addNew
      simp only [hm, List.mem_toFinset]
      split <;> rfl
    rw [← hstep]
    apply ih
    unfold mergeSession
    split
    · exact hm
    · rw [hm]
      ext k
      simp

theorem mergeNotes_eq (notes : List AttributionNote) :
    mergeNotes notes =
      firstWins AttributionSession.key (notes.flatMap AttributionNote.sessions) := by
  have hrun : ∀ (notes : List AttributionNote) (m : Merge),
      m.seen = (m.merged.map AttributionSession.key).toFinset →
      (notes.foldl (fun (m : Merge) note => note.sessions.foldl mergeSession m) m).merged =
        (notes.flatMap AttributionNote.sessions).foldl (addNew AttributionSession.key)
          m.merged := by
    intro notes
    induction notes with
    | nil => exact fun m _ => rfl
    | cons note notes ih =>
      intro m hm
      obtain ⟨hmerged, hseen⟩ := mergeSessions_merged note.sessions m hm
      rw [List.foldl_cons, ih _ hseen, hmerged, List.flatMap_cons, List.foldl_append]
  rw [← foldl_addNew_nil]
  exact hrun notes ⟨∅, []⟩ rfl

theorem stream_notes_rel (limit : Nat) (s : List Char) :
    Option.Rel (fun d notes => Holds d (notes.flatMap AttributionNote.sessions))
      (stream isSpace (scanOnce limit) addPayload Dict.empty s)
      (stream isSpace (scanOnce limit) appendNote [] s) := by
  refine stream_rel
    (R := fun d (notes : List AttributionNote) => Holds d (notes.flatMap AttributionNote.sessions))
    (local_scanOnce limit) (rfl : Holds Dict.empty []) ?_
  intro d notes s v rest h hval
  have hrel := addPayload_rel h (keyed_scanOnce limit hval)
  simp only [appendNote, Option.bind_eq_bind]
  cases ha : addPayload d v <;> cases hm : modelValidate v <;> rw [ha, hm] at hrel
  · exact .none
  · cases hrel
  · cases hrel
  · cases hrel with
    | some hd => exact .some (by simpa using hd)

theorem strip_eq_empty_iff (raw : String) :
    strip raw = "" ↔ ∀ c ∈ raw.toList, isSpace c = true := by
  have hempty : strip raw = "" ↔ (strip raw).toList = [] := by
    rw [← String.toList_inj]
    rfl
  rw [hempty, strip, String.toList_ofList, List.reverse_eq_nil_iff,
    List.dropWhile_eq_nil_iff]
  simp only [List.mem_reverse]
  constructor
  · intro h
    by_contra hc
    have hne : raw.toList.dropWhile isSpace ≠ [] := by
      rw [Ne, List.dropWhile_eq_nil_iff]
      exact hc
    have hhead := List.head_dropWhile_not (p := isSpace) hne
    rw [h _ (List.head_mem hne)] at hhead
    cases hhead
  · exact fun h c hc => h c ((List.dropWhile_sublist _).subset hc)

/-- A body holds no payload exactly when it is blank. -/
theorem notes_nil_iff {notes : List AttributionNote}
    (h : stream isSpace (scanOnce limit) appendNote [] raw.toList = some notes) :
    notes = [] ↔ strip raw = "" := by
  rw [strip_eq_empty_iff]
  constructor
  · intro hnil
    by_contra hc
    have hsplit := List.takeWhile_append_dropWhile (p := isSpace) (l := raw.toList)
    have hne : raw.toList.dropWhile isSpace ≠ [] := by
      rw [Ne, List.dropWhile_eq_nil_iff]
      exact hc
    obtain ⟨c, s, hs⟩ := List.exists_cons_of_ne_nil hne
    have hhead := List.head_dropWhile_not (p := isSpace) hne
    simp only [hs, List.head_cons] at hhead
    rw [← hsplit, stream_blanks (local_scanOnce limit)
      (fun c hc => List.mem_takeWhile_imp hc), hs, stream_cons (local_scanOnce limit), hhead] at h
    simp only [Bool.false_eq_true, if_false, Option.bind_eq_some_iff] at h
    obtain ⟨⟨v, rest⟩, -, first, hfirst, hrest⟩ := h
    have hgrow : ∀ notes v notes', appendNote notes v = some notes' → notes' ≠ [] := by
      intro notes v notes' ha
      simp only [appendNote, Option.bind_eq_bind, Option.bind_eq_some_iff, Option.some.injEq] at ha
      obtain ⟨note, -, rfl⟩ := ha
      simp
    exact stream_invariant (P := (· ≠ [])) (local_scanOnce limit) (hgrow _ _ _ hfirst)
      (fun _ _ _ _ hs => hgrow _ _ _ hs) hrest hnil
  · intro hall
    have : stream isSpace (scanOnce limit) appendNote [] (raw.toList ++ []) =
      stream isSpace (scanOnce limit) appendNote [] [] := stream_blanks (local_scanOnce limit) hall
    rw [List.append_nil, h] at this
    cases this
    rfl

variable (limit) in
/-- Within the size limit both readers do the same. -/
theorem parse_agree (hsize : raw.utf8ByteSize ≤ noteLimitBytes) :
    (parseNoteSessions limit raw).map (List.map sessionRecord) =
      (parseNoteBody limit raw).map AttributionNote.sessions := by
  have hrel := stream_notes_rel limit raw.toList
  unfold parseNoteSessions parseNoteBody
  cases hc : stream isSpace (scanOnce limit) addPayload Dict.empty raw.toList <;>
    cases hs : stream isSpace (scanOnce limit) appendNote [] raw.toList <;> rw [hc, hs] at hrel
  · split <;> rfl
  · cases hrel
  · cases hrel
  · rename_i d notes
    cases hrel with
    | some hd =>
      have hnil := notes_nil_iff hs
      simp only [Option.bind_eq_bind, Option.bind_some, Nat.not_lt.mpr hsize, or_false]
      by_cases hblank : strip raw = ""
      · simp [hblank, hnil.mpr hblank]
      · have hne : notes.isEmpty = false := by simpa using fun h => hblank (hnil.mp h)
        simp [hblank, hne, hd.values, mergeNotes_eq]

theorem parseNoteBody_eq_some {note : AttributionNote} (h : parseNoteBody limit raw = some note) :
    ∃ notes, stream isSpace (scanOnce limit) appendNote [] raw.toList = some notes ∧
      notes ≠ [] ∧ note.sessions = mergeNotes notes := by
  simp only [parseNoteBody, Option.bind_eq_bind, Option.bind_eq_some_iff] at h
  obtain ⟨notes, hs, h⟩ := h
  split at h
  · cases h
  · rename_i hne
    cases h
    exact ⟨notes, hs, by simpa using hne, rfl⟩

theorem sessions_firstWins {note : AttributionNote} (h : parseNoteBody limit raw = some note) :
    firstWins AttributionSession.key note.sessions = note.sessions := by
  obtain ⟨notes, -, -, hn⟩ := parseNoteBody_eq_some h
  rw [hn, mergeNotes_eq, firstWins_firstWins]

/-- The notes of a later text come behind those that are there. -/
theorem stream_notes_from (s : List Char) (before : List AttributionNote) :
    stream isSpace (scanOnce limit) appendNote before s =
      (stream isSpace (scanOnce limit) appendNote [] s).map (before ++ ·) := by
  have hrel : Option.Rel (fun x y => x = before ++ y)
      (stream isSpace (scanOnce limit) appendNote before s)
      (stream isSpace (scanOnce limit) appendNote [] s) :=
    stream_rel (local_scanOnce limit) (List.append_nil before).symm (by
      rintro _ notes s v rest rfl -
      simp only [appendNote, Option.bind_eq_bind]
      cases modelValidate v with
      | none => exact .none
      | some note => exact .some (by simp))
  cases h1 : stream isSpace (scanOnce limit) appendNote before s <;>
    cases h2 : stream isSpace (scanOnce limit) appendNote [] s <;> rw [h1, h2] at hrel
  · rfl
  · cases hrel
  · cases hrel
  · cases hrel with
    | some he => rw [he]; rfl

theorem parse_append {a b sep : String} {m n : AttributionNote}
    (ha : parseNoteBody limit a = some m) (hb : parseNoteBody limit b = some n)
    (hsep : ∀ c ∈ sep.toList, isSpace c = true) :
    parseNoteBody limit (a ++ sep ++ b) =
      some ⟨1, rfl, firstWins AttributionSession.key (m.sessions ++ n.sessions)⟩ := by
  obtain ⟨notes, hs, hne, hm⟩ := parseNoteBody_eq_some ha
  obtain ⟨notes', hs', -, hn⟩ := parseNoteBody_eq_some hb
  have hall : stream isSpace (scanOnce limit) appendNote [] (a ++ sep ++ b).toList =
      some (notes ++ notes') := by
    rw [String.toList_append, String.toList_append, List.append_assoc,
      stream_append (local_scanOnce limit) (fun _ _ _ => appendNote_number) hs,
      stream_blanks (local_scanOnce limit) hsep, stream_notes_from, hs']
    rfl
  have hempty : (notes ++ notes').isEmpty = false := by simp [hne]
  unfold parseNoteBody
  simp only [hall, Option.bind_eq_bind, Option.bind_some, hempty]
  rw [hm, hn, mergeNotes_eq, mergeNotes_eq, mergeNotes_eq, firstWins_append, List.flatMap_append]
  rfl

/-- A body and further ones, each behind its separator. -/
def joined (first : String) (rest : List (String × String)) : String :=
  rest.foldl (fun acc p => acc ++ p.1 ++ p.2) first

theorem parse_joined {first : String} {rest : List (String × String)} {note : AttributionNote}
    {notes : List AttributionNote} (hfirst : parseNoteBody limit first = some note)
    (hrest : List.Forall₂ (fun p n => parseNoteBody limit p.2 = some n) rest notes)
    (hsep : ∀ p ∈ rest, ∀ c ∈ p.1.toList, isSpace c = true) :
    parseNoteBody limit (joined first rest) =
      some ⟨1, rfl, firstWins AttributionSession.key
        ((note :: notes).flatMap AttributionNote.sessions)⟩ := by
  induction hrest generalizing first note with
  | nil =>
    rw [joined, List.foldl_nil, hfirst]
    obtain ⟨v, rfl, sessions⟩ := note
    have := sessions_firstWins hfirst
    simpa using this.symm
  | @cons p n rest notes hp hrest ih =>
    have happ := parse_append hfirst hp (hsep p (by simp))
    have := ih happ (fun q hq => hsep q (by simp [hq]))
    rw [joined, List.foldl_cons, ← joined, this]
    simp only [List.flatMap_cons, firstWins_append_left, List.append_assoc]

/-- Client and server accept the same note bodies, read the same sessions out
of them in the same order, and read bodies behind one another as their union. -/
theorem note_parsers_agree (limit : Nat) :
    (∀ raw : String, raw.utf8ByteSize ≤ noteLimitBytes →
      (parseNoteSessions limit raw).isSome = (parseNoteBody limit raw).isSome ∧
      ∀ sessions note, parseNoteSessions limit raw = some sessions →
        parseNoteBody limit raw = some note →
        sessions.map sessionKey = note.sessions.map AttributionSession.key) ∧
    (∀ (first : String) (rest : List (String × String)) (note : AttributionNote)
        (notes : List AttributionNote), parseNoteBody limit first = some note →
      List.Forall₂ (fun p n => parseNoteBody limit p.2 = some n) rest notes →
      (∀ p ∈ rest, ∀ c ∈ p.1.toList, isSpace c = true) →
      parseNoteBody limit (joined first rest) =
          some ⟨1, rfl, firstWins AttributionSession.key
            ((note :: notes).flatMap AttributionNote.sessions)⟩ ∧
        ((joined first rest).utf8ByteSize ≤ noteLimitBytes →
          (parseNoteSessions limit (joined first rest)).map (List.map sessionRecord) =
            some (firstWins AttributionSession.key
              ((note :: notes).flatMap AttributionNote.sessions)))) := by
  constructor
  · intro raw hsize
    have h := parse_agree limit hsize
    constructor
    · have := congrArg Option.isSome h
      simpa using this
    · intro sessions note hs hn
      rw [hs, hn] at h
      have := congrArg (List.map AttributionSession.key) (Option.some.inj h)
      rw [List.map_map] at this
      exact this
  · intro first rest note notes hfirst hrest hsep
    have h := parse_joined hfirst hrest hsep
    exact ⟨h, fun hsize => by rw [parse_agree limit hsize, h]; rfl⟩

def oneNote (session : String) : String :=
  "\x7b\"v\":1,\"sessions\":[\x7b\"tool\":\"codex\",\"session_id\":\"" ++ session ++
    "\",\"stamped_at\":\"now\"\x7d]\x7d"

def oneSession (session : String) : AttributionSession :=
  ⟨codePoints "codex", codePoints session, codePoints "now"⟩

theorem parse_oneNote : parseNoteBody 9 (oneNote "a") = some ⟨1, rfl, [oneSession "a"]⟩ := rfl

/-- A rewritten commit: its own note, a copied one, and the first once more. -/
theorem copied_note_joined :
    (parseNoteSessions 9 (oneNote "a")).isSome = (parseNoteBody 9 (oneNote "a")).isSome ∧
      parseNoteBody 9 (joined (oneNote "a") [("\n\n", oneNote "b"), (" ", oneNote "a")]) =
        some ⟨1, rfl, [oneSession "a", oneSession "b"]⟩ := by
  constructor
  · exact ((note_parsers_agree 9).1 (oneNote "a") (by decide)).1
  · have hrest : List.Forall₂ (fun (p : String × String) n => parseNoteBody 9 p.2 = some n)
        [("\n\n", oneNote "b"), (" ", oneNote "a")]
        [⟨1, rfl, [oneSession "b"]⟩, ⟨1, rfl, [oneSession "a"]⟩] :=
      .cons rfl (.cons rfl .nil)
    have hsep : ∀ p ∈ [("\n\n", oneNote "b"), (" ", oneNote "a")],
        ∀ c ∈ p.1.toList, isSpace c = true := by
      rintro p (_ | ⟨_, _ | ⟨_, hp⟩⟩)
      · simp [isSpace, isSpaceCode]
      · simp [isSpace, isSpaceCode]
      · cases hp
    have h := ((note_parsers_agree 9).2 (oneNote "a") _ _ _ parse_oneNote hrest hsep).1
    rw [h]
    rfl

end Sediment.Proofs.Notes

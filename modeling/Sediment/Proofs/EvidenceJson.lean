import Sediment.Base.Packing
import Sediment.Core.EvidenceJson

namespace Sediment.Proofs.EvidenceJson
open Sediment.Base Sediment.Base.JsonScan Sediment.Core.EvidenceJson

/-- The compact ASCII text of a JSON value. -/
def compactText (v : Json Text FloatText) : List Char := v.write ⟨quoteText, FloatText.text, id⟩

section
variable {δ : Type} (dump : δ → Text)

def bareValue : Bare → Option (Json Text FloatText)
  | .null => some .null
  | .bool b => some (.bool b)
  | .int n => some (.int n)
  | .finite x => some (.float x)
  | .nonFinite => none

/-- The JSON value that a payload stands for, if it is one. -/
def denoted : Payload δ → Option (Json Text FloatText)
  | .str t => some (.str t)
  | .arr items => (denotedItems items).map .arr
  | .obj fields => (denotedFields fields).map .obj
  | .datetime d => some (.str (dump d))
  | .bare s => bareValue s
  | .other => none
where
  denotedItems : List (Payload δ) → Option (List (Json Text FloatText))
    | [] => some []
    | item :: rest => (denoted item).bind (fun v => (denotedItems rest).map (v :: ·))
  denotedFields : List (ObjectKey × Payload δ) → Option (List (Text × Json Text FloatText))
    | [] => some []
    | (key, item) :: rest => key.text.bind (fun t => (denoted item).bind (fun v =>
        (denotedFields rest).map ((t, v) :: ·)))

/-- Every JSON value is the dump of a contract without a shape of its own. -/
def ofJson : Json Text FloatText → Payload δ
  | .null => .bare .null
  | .bool b => .bare (.bool b)
  | .int n => .bare (.int n)
  | .float x => .bare (.finite x)
  | .str t => .str t
  | .arr items => .arr (ofItems items)
  | .obj fields => .obj (ofFields fields)
where
  ofItems : List (Json Text FloatText) → List (Payload δ)
    | [] => []
    | item :: rest => ofJson item :: ofItems rest
  ofFields : List (Text × Json Text FloatText) → List (ObjectKey × Payload δ)
    | [] => []
    | (key, item) :: rest => (.str key, ofJson item) :: ofFields rest

mutual
theorem denoted_ofJson (v : Json Text FloatText) : denoted dump (ofJson v) = some v := by
  match v with
  | .null => rfl
  | .bool _ => rfl
  | .int _ => rfl
  | .float _ => rfl
  | .str _ => rfl
  | .arr items => rw [ofJson, denoted, denotedItems_ofItems items, Option.map_some]
  | .obj fields => rw [ofJson, denoted, denotedFields_ofFields fields, Option.map_some]

theorem denotedItems_ofItems (items : List (Json Text FloatText)) :
    denoted.denotedItems dump (ofJson.ofItems items) = some items := by
  match items with
  | [] => rfl
  | item :: rest =>
    rw [ofJson.ofItems, denoted.denotedItems, denoted_ofJson item, denotedItems_ofItems rest]
    rfl

theorem denotedFields_ofFields (fields : List (Text × Json Text FloatText)) :
    denoted.denotedFields dump (ofJson.ofFields fields) = some fields := by
  match fields with
  | [] => rfl
  | (key, item) :: rest =>
    rw [ofJson.ofFields, denoted.denotedFields, denoted_ofJson item, denotedFields_ofFields rest]
    rfl
end

end

/-- A generator writes a text, or raises where there is none. -/
def Agrees (y : Yields) : Option (List Char) → Prop
  | some text => y.raised = false ∧ y.text = text
  | none => y.raised = true

theorem agrees_one (chunk : List Char) : Agrees (.one chunk) (some chunk) :=
  ⟨rfl, List.append_nil chunk⟩

theorem Agrees.andThen {a b : Yields} {x y : Option (List Char)} (ha : Agrees a x)
    (hb : Agrees b y) : Agrees (a.andThen b) (x.bind (fun s => y.map (s ++ ·))) := by
  unfold Yields.andThen
  cases x with
  | none =>
    have hraised : a.raised = true := ha
    rw [if_pos hraised]
    exact hraised
  | some s =>
    obtain ⟨hraised, htext⟩ := ha
    rw [if_neg (by rw [hraised]; exact Bool.false_ne_true)]
    cases y with
    | none => exact hb
    | some t =>
      refine ⟨hb.1, ?_⟩
      rw [← htext, ← hb.2]
      exact List.flatten_append

def escapeText (t : Text) : List Char := (t.flatMap utf16).flatMap escapeUnit

theorem escapeText_append (t u : Text) : escapeText (t ++ u) = escapeText t ++ escapeText u := by
  rw [escapeText, List.flatMap_append, List.flatMap_append]
  rfl

theorem escapeText_flatten (ts : List Text) :
    (ts.map escapeText).flatten = escapeText ts.flatten := by
  induction ts with
  | nil => rfl
  | cons t ts ih =>
    rw [List.map_cons, List.flatten_cons, List.flatten_cons, escapeText_append, ih]

theorem inner_quoteText (t : Text) : (quoteText t).tail.dropLast = escapeText t := by
  change (escapeText t ++ ['"']).dropLast = _
  rw [List.dropLast_concat]

/-- Slices of one width, taken one after another, are what they were cut from. -/
theorem flatten_slices_take {α : Type} (width : Nat) (xs : List α) (k : Nat) :
    ((List.range k).map (fun i => (xs.drop (i * width)).take width)).flatten =
      xs.take (k * width) := by
  induction k with
  | zero => simp
  | succ k ih =>
    rw [List.range_succ, List.map_append, List.flatten_append, ih, Nat.succ_mul, List.take_add]
    simp

theorem flatten_slices (t : Text) : (slices t).flatten = t := by
  unfold slices
  rw [flatten_slices_take]
  apply List.take_of_length_le
  unfold sliceWidth
  omega

theorem textChunks_agrees (t : Text) : Agrees (textChunks t) (some (quoteText t)) := by
  refine ⟨rfl, ?_⟩
  unfold textChunks Yields.text
  simp only [inner_quoteText]
  rw [List.flatten_append, List.flatten_cons, escapeText_flatten, flatten_slices]
  rfl

/-- Texts behind an opening bracket, or behind other elements. -/
def separated (first : Bool) (texts : List (List Char)) : List Char :=
  if first then (texts.intersperse [',']).flatten else texts.flatMap (',' :: ·)

theorem separated_cons (first : Bool) (text : List Char) (texts : List (List Char)) :
    separated first (text :: texts) =
      (if first then [] else [',']) ++ text ++ separated false texts := by
  have hsplit : ∀ (text : List Char) (texts : List (List Char)),
      ((text :: texts).intersperse [',']).flatten = text ++ texts.flatMap (',' :: ·) := by
    intro text texts
    induction texts generalizing text with
    | nil => simp
    | cons next texts ih =>
      rw [List.intersperse_cons_cons, List.flatten_cons, List.flatten_cons, ih]
      rfl
  unfold separated
  cases first with
  | false => rfl
  | true =>
    rw [if_pos rfl, hsplit]
    rfl

theorem comma_agrees (first : Bool) : Agrees (comma first) (some (if first then [] else [','])) := by
  cases first with
  | true => exact ⟨rfl, rfl⟩
  | false => exact agrees_one _

def fieldText (p : Text × Json Text FloatText) : List Char :=
  quoteText p.1 ++ ':' :: compactText p.2

theorem compactText_arr (items : List (Json Text FloatText)) :
    compactText (.arr items) = '[' :: separated true (items.map compactText) ++ [']'] := by
  unfold compactText
  rw [Json.write, Packing.writeItems_map]
  rfl

theorem compactText_obj (fields : List (Text × Json Text FloatText)) :
    compactText (.obj fields) = '\x7b' :: separated true (fields.map fieldText) ++ ['\x7d'] := by
  unfold compactText
  rw [Json.write, Packing.writeFields_map]
  change '\x7b' :: (((fields.map (fun p => (p.1, compactText p.2))).map
    (fun p => quoteText p.1 ++ ':' :: p.2)).intersperse [',']).flatten ++ ['\x7d'] = _
  rw [List.map_map]
  rfl

theorem separated_printable (first : Bool) {texts : List (List Char)}
    (h : ∀ text ∈ texts, Printable text) : Printable (separated first texts) := by
  induction texts generalizing first with
  | nil => cases first <;> exact fun c hc => absurd hc List.not_mem_nil
  | cons text texts ih =>
    rw [separated_cons]
    refine ((Printable.append ?_ (h text (by simp))).append (ih false ?_))
    · cases first
      · exact literal_printable rfl
      · exact literal_printable rfl
    · intro other hother
      exact h other (by simp [hother])

mutual
/-- Every character of the text is one byte. -/
theorem compactText_printable (v : Json Text FloatText) : Printable (compactText v) := by
  match v with
  | .null => exact literal_printable rfl
  | .bool true => exact literal_printable rfl
  | .bool false => exact literal_printable rfl
  | .int n => exact intText_printable n
  | .float x => exact x.printable
  | .str t => exact quoteText_printable t
  | .arr items =>
    rw [compactText_arr]
    refine Printable.framed (by decide) (by decide) (separated_printable true ?_)
    intro text htext
    obtain ⟨item, hitem, rfl⟩ := List.mem_map.mp htext
    exact compactItems_printable items item hitem
  | .obj fields =>
    rw [compactText_obj]
    refine Printable.framed (by decide) (by decide) (separated_printable true ?_)
    intro text htext
    obtain ⟨p, hp, rfl⟩ := List.mem_map.mp htext
    exact (quoteText_printable p.1).append
      (Printable.cons (by decide) (compactFields_printable fields p hp))

theorem compactItems_printable (items : List (Json Text FloatText)) :
    ∀ item ∈ items, Printable (compactText item) := by
  match items with
  | [] => exact fun item h => absurd h List.not_mem_nil
  | item :: rest =>
    rw [List.forall_mem_cons]
    exact ⟨compactText_printable item, compactItems_printable rest⟩

theorem compactFields_printable (fields : List (Text × Json Text FloatText)) :
    ∀ p ∈ fields, Printable (compactText p.2) := by
  match fields with
  | [] => exact fun p h => absurd h List.not_mem_nil
  | (key, v) :: rest =>
    rw [List.forall_mem_cons]
    exact ⟨compactText_printable v, compactFields_printable rest⟩
end

section
variable {δ : Type} (dump : δ → Text)

theorem bareChunk_agrees (s : Bare) :
    Agrees ((s.dumps.map Yields.one).getD .raise) ((bareValue s).map compactText) := by
  match s with
  | .null => exact agrees_one _
  | .bool true => exact agrees_one _
  | .bool false => exact agrees_one _
  | .int _ => exact agrees_one _
  | .finite _ => exact agrees_one _
  | .nonFinite => exact rfl

theorem keyChunks_agrees (key : ObjectKey) :
    Agrees ((key.text.map textChunks).getD .raise) (key.text.map quoteText) := by
  cases key.text with
  | none => exact rfl
  | some t => exact textChunks_agrees t

mutual
/-- What is streamed of a payload is the compact text of the value it stands for. -/
theorem jsonChunks_agrees (p : Payload δ) :
    Agrees (jsonChunks dump p) ((denoted dump p).map compactText) := by
  match p with
  | .str t => exact textChunks_agrees t
  | .arr items =>
    have h := ((agrees_one ['[']).andThen (itemChunks_agrees true items)).andThen
      (agrees_one [']'])
    rw [jsonChunks, denoted]
    cases hitems : denoted.denotedItems dump items with
    | none =>
      rw [hitems] at h
      exact h
    | some vs =>
      rw [hitems] at h
      rw [Option.map_some, Option.map_some, compactText_arr]
      exact h
  | .obj fields =>
    have h := ((agrees_one ['\x7b']).andThen (fieldChunks_agrees true fields)).andThen
      (agrees_one ['\x7d'])
    rw [jsonChunks, denoted]
    cases hfields : denoted.denotedFields dump fields with
    | none =>
      rw [hfields] at h
      exact h
    | some vs =>
      rw [hfields] at h
      rw [Option.map_some, Option.map_some, compactText_obj]
      exact h
  | .datetime d => exact textChunks_agrees (dump d)
  | .bare s => exact bareChunk_agrees s
  | .other => exact rfl

theorem itemChunks_agrees (first : Bool) (items : List (Payload δ)) :
    Agrees (jsonChunks.itemChunks dump first items)
      ((denoted.denotedItems dump items).map (fun vs => separated first (vs.map compactText))) := by
  match items with
  | [] => cases first <;> exact ⟨rfl, rfl⟩
  | item :: rest =>
    have h := ((comma_agrees first).andThen (jsonChunks_agrees item)).andThen
      (itemChunks_agrees false rest)
    rw [jsonChunks.itemChunks, denoted.denotedItems]
    cases hitem : denoted dump item with
    | none =>
      rw [hitem] at h
      exact h
    | some v =>
      cases hrest : denoted.denotedItems dump rest with
      | none =>
        rw [hitem, hrest] at h
        exact h
      | some vs =>
        rw [hitem, hrest] at h
        rw [Option.bind_some, Option.map_some, Option.map_some, List.map_cons, separated_cons]
        exact h

theorem fieldChunks_agrees (first : Bool) (fields : List (ObjectKey × Payload δ)) :
    Agrees (jsonChunks.fieldChunks dump first fields)
      ((denoted.denotedFields dump fields).map
        (fun vs => separated first (vs.map fieldText))) := by
  match fields with
  | [] => cases first <;> exact ⟨rfl, rfl⟩
  | (key, item) :: rest =>
    have h := ((((comma_agrees first).andThen (keyChunks_agrees key)).andThen
      (agrees_one [':'])).andThen (jsonChunks_agrees item)).andThen (fieldChunks_agrees false rest)
    rw [jsonChunks.fieldChunks, denoted.denotedFields]
    cases hkey : key.text with
    | none =>
      simp only [hkey] at h ⊢
      exact h
    | some t =>
      cases hitem : denoted dump item with
      | none =>
        simp only [hkey, hitem] at h ⊢
        exact h
      | some v =>
        cases hrest : denoted.denotedFields dump rest with
        | none =>
          simp only [hkey, hitem, hrest] at h ⊢
          exact h
        | some vs =>
          simp only [hkey, hitem, hrest] at h ⊢
          change Agrees _ (some (separated first (fieldText (t, v) :: vs.map fieldText)))
          rw [separated_cons]
          have htext : (if first then [] else [',']) ++ fieldText (t, v) =
              (if first then [] else [',']) ++ quoteText t ++ [':'] ++ compactText v := by
            rw [fieldText, List.append_assoc, List.append_assoc]
            rfl
          rw [htext]
          exact h
end

theorem finite_of_dumps {s : Bare} {text : List Char} (h : s.dumps = some text) :
    s.isFinite = true := by
  cases s with
  | nonFinite => cases h
  | _ => rfl

theorem finite_of_bareValue {s : Bare} {v : Json Text FloatText} (h : bareValue s = some v) :
    s.isFinite = true := by
  cases s with
  | nonFinite => cases h
  | _ => rfl

theorem finite_of_text {key : ObjectKey} {t : Text} (h : key.text = some t) :
    key.isFinite = true := by
  cases key with
  | bare s =>
    obtain ⟨text, htext, -⟩ := Option.map_eq_some_iff.mp h
    exact finite_of_dumps htext
  | _ => rfl

mutual
/-- Only finite numbers stand for anything. -/
theorem validNumbers_of_denoted (p : Payload δ) {v : Json Text FloatText}
    (h : denoted dump p = some v) : validNumbers p = true := by
  match p with
  | .str _ => rfl
  | .arr items =>
    obtain ⟨vs, hvs, -⟩ := Option.map_eq_some_iff.mp h
    exact validItems_of_denoted items hvs
  | .obj fields =>
    obtain ⟨vs, hvs, -⟩ := Option.map_eq_some_iff.mp h
    exact validFields_of_denoted fields hvs
  | .datetime _ => rfl
  | .bare s => exact finite_of_bareValue h
  | .other => cases h

theorem validItems_of_denoted (items : List (Payload δ)) {vs : List (Json Text FloatText)}
    (h : denoted.denotedItems dump items = some vs) : validNumbers.validItems items = true := by
  match items with
  | [] => rfl
  | item :: rest =>
    obtain ⟨v, hv, hrest⟩ := Option.bind_eq_some_iff.mp h
    obtain ⟨ws, hws, -⟩ := Option.map_eq_some_iff.mp hrest
    rw [validNumbers.validItems, validNumbers_of_denoted item hv, validItems_of_denoted rest hws]
    rfl

theorem validFields_of_denoted (fields : List (ObjectKey × Payload δ))
    {vs : List (Text × Json Text FloatText)}
    (h : denoted.denotedFields dump fields = some vs) :
    validNumbers.validFields fields = true := by
  match fields with
  | [] => rfl
  | (key, item) :: rest =>
    obtain ⟨t, ht, hfield⟩ := Option.bind_eq_some_iff.mp h
    obtain ⟨v, hv, hrest⟩ := Option.bind_eq_some_iff.mp hfield
    obtain ⟨ws, hws, -⟩ := Option.map_eq_some_iff.mp hrest
    rw [validNumbers.validFields, finite_of_text ht, validNumbers_of_denoted item hv,
      validFields_of_denoted rest hws]
    rfl
end

/-- The running count refuses exactly the texts that are too long as a whole. -/
theorem bounded_some (limit : Int) (chunks : List (List Char)) (kept : List Char)
    (h : (kept.length : Int) ≤ limit ∨ chunks ≠ []) :
    bounded (some limit) chunks kept =
      if ((kept ++ chunks.flatten).length : Int) ≤ limit then .ok (kept ++ chunks.flatten)
      else .error (.read (.evidenceResponseLimit limit)) := by
  induction chunks generalizing kept with
  | nil =>
    rw [bounded, List.flatten_nil, List.append_nil, if_pos (h.resolve_right (fun hne => hne rfl))]
  | cons chunk rest ih =>
    rw [bounded, List.flatten_cons, ← List.append_assoc]
    by_cases hlimit : limit < ((kept.length + chunk.length : Nat) : Int)
    · have hexceeds : exceeds (some limit) (kept.length + chunk.length) = true :=
        decide_eq_true hlimit
      have hlength : (kept.length + chunk.length : Nat) ≤
          ((kept ++ chunk) ++ rest.flatten).length := by
        rw [List.length_append, List.length_append]
        exact Nat.le_add_right _ _
      rw [if_pos hexceeds, if_neg (by omega)]
      rfl
    · have hexceeds : exceeds (some limit) (kept.length + chunk.length) = false :=
        decide_eq_false hlimit
      rw [if_neg (by rw [hexceeds]; exact Bool.false_ne_true), ih]
      refine Or.inl ?_
      rw [List.length_append]
      omega

theorem andThen_ne_nil {a b : Yields} (h : a.chunks ≠ []) : (a.andThen b).chunks ≠ [] := by
  unfold Yields.andThen
  split
  · exact h
  · exact List.append_ne_nil_of_left_ne_nil h _

theorem chunks_ne_nil (p : Payload δ) {v : Json Text FloatText} (h : denoted dump p = some v) :
    (jsonChunks dump p).chunks ≠ [] := by
  cases p with
  | str t => exact List.cons_ne_nil _ _
  | arr items => exact andThen_ne_nil (andThen_ne_nil (List.cons_ne_nil _ _))
  | obj fields => exact andThen_ne_nil (andThen_ne_nil (List.cons_ne_nil _ _))
  | datetime d => exact List.cons_ne_nil _ _
  | bare s =>
    rw [jsonChunks]
    cases s with
    | nonFinite => cases h
    | bool b => cases b <;> exact List.cons_ne_nil _ _
    | _ => exact List.cons_ne_nil _ _
  | other => cases h

variable {dump}

theorem chunks_denoted {p : Payload δ} {v : Json Text FloatText} (h : denoted dump p = some v) :
    (jsonChunks dump p).raised = false ∧
      (jsonChunks dump p).chunks.flatten = compactText v := by
  have hagrees := jsonChunks_agrees dump p
  rw [h] at hagrees
  exact hagrees

theorem encode_denoted {p : Payload δ} {v : Json Text FloatText} (h : denoted dump p = some v)
    (maxBytes : Option Int) :
    encodeEvidenceJson dump p maxBytes = bounded maxBytes (jsonChunks dump p).chunks [] := by
  obtain ⟨hraised, -⟩ := chunks_denoted h
  unfold encodeEvidenceJson
  rw [if_pos (validNumbers_of_denoted dump p h)]
  simp only [hraised]
  cases bounded maxBytes (jsonChunks dump p).chunks [] <;> rfl

theorem encode_limited {p : Payload δ} {v : Json Text FloatText} (h : denoted dump p = some v)
    (limit : Int) :
    encodeEvidenceJson dump p (some limit) =
      if ((compactText v).length : Int) ≤ limit then .ok (compactText v)
      else .error (.read (.evidenceResponseLimit limit)) := by
  rw [encode_denoted h, bounded_some limit _ _ (Or.inr (chunks_ne_nil dump p h)),
    (chunks_denoted h).2]
  rfl

end

end Sediment.Proofs.EvidenceJson

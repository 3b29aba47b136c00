import Sediment.Proofs.EvidenceJson

namespace Sediment.Proofs.EvidenceValues
open Sediment.Base Sediment.Base.JsonScan Sediment.Core Sediment.Core.EvidenceJson
open Sediment.Proofs.EvidenceJson

def ofFloat (x : JsonFloat) : Bare :=
  if h : x.finite = true ∧ Printable x.repr.toList then .finite ⟨x.repr.toList, h.2⟩
  else .nonFinite

/-- What a contract dumps where it holds a captured value. -/
def ofValue {δ : Type} : Value → Payload δ
  | .null => .bare .null
  | .bool b => .bare (.bool b)
  | .int n => .bare (.int n)
  | .float x => .bare (ofFloat x)
  | .str s => .str (codePoints s)
  | .arr items => .arr (ofItems items)
  | .obj fields => .obj (ofFields fields)
where
  ofItems : List Value → List (Payload δ)
    | [] => []
    | item :: rest => ofValue item :: ofItems rest
  ofFields : List (String × Value) → List (ObjectKey × Payload δ)
    | [] => []
    | (key, item) :: rest => (.str (codePoints key), ofValue item) :: ofFields rest

/-- `repr` spells every finite float of the value in printable ASCII. -/
def Spelled (v : Value) : Prop :=
  v.allFloats (fun x => !x.finite || decide (Printable x.repr.toList)) = true

section
variable {δ : Type} (dump : δ → Text)

mutual
/-- A value with finite floats stands for itself, and is written alike. -/
theorem denoted_ofValue (v : Value) (h : Spelled v) (hf : v.allFloats JsonFloat.finite = true) :
    ∃ w, denoted dump (ofValue v) = some w ∧ compactText w = v.write compactWriter := by
  match v with
  | .null => exact ⟨.null, rfl, rfl⟩
  | .bool b => exact ⟨.bool b, rfl, by cases b <;> rfl⟩
  | .int n => exact ⟨.int n, rfl, rfl⟩
  | .float x =>
    have hx : x.finite = true := hf
    have hp : Printable x.repr.toList := by
      have hs : (!x.finite || decide (Printable x.repr.toList)) = true := h
      simpa [hx] using hs
    refine ⟨.float ⟨x.repr.toList, hp⟩, ?_, rfl⟩
    rw [ofValue, ofFloat, dif_pos ⟨hx, hp⟩]
    rfl
  | .str s => exact ⟨.str (codePoints s), rfl, quoteText_codePoints s⟩
  | .arr items =>
    obtain ⟨ws, hw, htext⟩ := denoted_ofItems items h hf
    refine ⟨.arr ws, ?_, ?_⟩
    · rw [ofValue, denoted, hw]
      rfl
    · rw [compactText, Json.write, htext]
      rfl
  | .obj fields =>
    obtain ⟨ws, hw, htext⟩ := denoted_ofFields fields h hf
    refine ⟨.obj ws, ?_, ?_⟩
    · rw [ofValue, denoted, hw]
      rfl
    · exact congrArg (fun texts => '\x7b' :: (texts.intersperse [',']).flatten ++ ['\x7d']) htext

theorem denoted_ofItems (items : List Value)
    (h : Json.allFloats.itemsFloats (fun x => !x.finite || decide (Printable x.repr.toList)) items =
      true) (hf : Json.allFloats.itemsFloats JsonFloat.finite items = true) :
    ∃ ws, denoted.denotedItems dump (ofValue.ofItems items) = some ws ∧
      Json.write.writeItems ⟨quoteText, FloatText.text, id⟩ ws =
        Json.write.writeItems compactWriter items := by
  match items with
  | [] => exact ⟨[], rfl, rfl⟩
  | item :: rest =>
    rw [Json.allFloats.itemsFloats, Bool.and_eq_true] at h hf
    obtain ⟨w, hw, htext⟩ := denoted_ofValue item h.1 hf.1
    obtain ⟨ws, hws, hrest⟩ := denoted_ofItems rest h.2 hf.2
    refine ⟨w :: ws, ?_, ?_⟩
    · rw [ofValue.ofItems, denoted.denotedItems, hw, hws]
      rfl
    · rw [Json.write.writeItems, Json.write.writeItems, ← htext, hrest]
      rfl

theorem denoted_ofFields (fields : List (String × Value))
    (h : Json.allFloats.fieldsFloats (fun x => !x.finite || decide (Printable x.repr.toList))
      fields = true) (hf : Json.allFloats.fieldsFloats JsonFloat.finite fields = true) :
    ∃ ws, denoted.denotedFields dump (ofValue.ofFields fields) = some ws ∧
      (Json.write.writeFields ⟨quoteText, FloatText.text, id⟩ ws).map
          (fun f => quoteText f.1 ++ ':' :: f.2) =
        (Json.write.writeFields compactWriter fields).map
          (fun f => quoteAscii f.1 ++ ':' :: f.2) := by
  match fields with
  | [] => exact ⟨[], rfl, rfl⟩
  | (key, item) :: rest =>
    rw [Json.allFloats.fieldsFloats, Bool.and_eq_true] at h hf
    obtain ⟨w, hw, htext⟩ := denoted_ofValue item h.1 hf.1
    obtain ⟨ws, hws, hrest⟩ := denoted_ofFields rest h.2 hf.2
    refine ⟨(codePoints key, w) :: ws, ?_, ?_⟩
    · rw [ofValue.ofFields, denoted.denotedFields, hw, hws]
      rfl
    · rw [Json.write.writeFields, Json.write.writeFields, List.map_cons, List.map_cons, hrest,
        ← htext, quoteText_codePoints]
      rfl
end

theorem isFinite_ofFloat {x : JsonFloat} (h : (!x.finite || decide (Printable x.repr.toList)) = true) :
    (ofFloat x).isFinite = x.finite := by
  unfold ofFloat
  by_cases hx : x.finite = true
  · rw [dif_pos ⟨hx, by simpa [hx] using h⟩]
    exact hx.symm
  · rw [dif_neg (fun hboth => hx hboth.1)]
    exact (Bool.not_eq_true _ ▸ hx : x.finite = false).symm

mutual
theorem validNumbers_ofValue (v : Value) (h : Spelled v) :
    validNumbers (ofValue v : Payload δ) = v.allFloats JsonFloat.finite := by
  match v with
  | .null => rfl
  | .bool _ => rfl
  | .int _ => rfl
  | .float _ => exact isFinite_ofFloat h
  | .str _ => rfl
  | .arr items => exact validItems_ofItems items h
  | .obj fields => exact validFields_ofFields fields h

theorem validItems_ofItems (items : List Value)
    (h : Json.allFloats.itemsFloats (fun x => !x.finite || decide (Printable x.repr.toList)) items =
      true) :
    validNumbers.validItems (ofValue.ofItems items : List (Payload δ)) =
      Json.allFloats.itemsFloats JsonFloat.finite items := by
  match items with
  | [] => rfl
  | item :: rest =>
    rw [Json.allFloats.itemsFloats, Bool.and_eq_true] at h
    rw [ofValue.ofItems, validNumbers.validItems, validNumbers_ofValue item h.1,
      validItems_ofItems rest h.2]
    rfl

theorem validFields_ofFields (fields : List (String × Value))
    (h : Json.allFloats.fieldsFloats (fun x => !x.finite || decide (Printable x.repr.toList))
      fields = true) :
    validNumbers.validFields (ofValue.ofFields fields : List (ObjectKey × Payload δ)) =
      Json.allFloats.fieldsFloats JsonFloat.finite fields := by
  match fields with
  | [] => rfl
  | (key, item) :: rest =>
    rw [Json.allFloats.fieldsFloats, Bool.and_eq_true] at h
    rw [ofValue.ofFields, validNumbers.validFields, validNumbers_ofValue item h.1,
      validFields_ofFields rest h.2]
    rfl
end

/-- The encoder of the contracts' dumps and that of the typed values are one. -/
theorem encoders_agree (v : Value) (h : Spelled v) (limit : Int) :
    EvidenceJson.encodeEvidenceJson dump (ofValue v) (some limit) =
      (Core.encodeEvidenceJson v limit).mapError .read := by
  unfold Core.encodeEvidenceJson validateEvidenceNumbers
  cases hf : v.allFloats JsonFloat.finite with
  | false =>
    unfold EvidenceJson.encodeEvidenceJson
    rw [validNumbers_ofValue v h, hf]
    rfl
  | true =>
    obtain ⟨w, hw, htext⟩ := denoted_ofValue dump v h hf
    rw [encode_limited hw, htext]
    by_cases hlimit : limit < ((v.write compactWriter).length : Int)
    · rw [if_neg (not_le.mpr hlimit)]
      simp [hlimit]
      rfl
    · rw [if_pos (not_lt.mp hlimit)]
      simp [hlimit]
      rfl

end

end Sediment.Proofs.EvidenceValues

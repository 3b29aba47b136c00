import Sediment.Base.Json

namespace Sediment.Base.Packing

/-- Items of these sizes with one separator between two of them. -/
def joinedSize (sizes : List Nat) : Nat := sizes.sum + (sizes.length - 1)

theorem joinedSize_concat (sizes : List Nat) (n : Nat) :
    joinedSize (sizes ++ [n]) = joinedSize sizes + ((if sizes = [] then 0 else 1) + n) := by
  unfold joinedSize
  rw [List.sum_append, List.sum_singleton, List.length_append, List.length_singleton]
  cases sizes with
  | nil => simp
  | cons m rest =>
    rw [if_neg (List.cons_ne_nil m rest), List.length_cons]
    omega

theorem length_separated (texts : List (List Char)) :
    (texts.intersperse [',']).flatten.length = joinedSize (texts.map List.length) := by
  induction texts with
  | nil => rfl
  | cons text texts ih =>
    cases texts with
    | nil => simp [joinedSize]
    | cons next rest =>
      rw [List.intersperse_cons_cons, List.flatten_cons, List.flatten_cons, List.length_append,
        List.length_append, ih]
      simp only [joinedSize, List.map_cons, List.sum_cons, List.length_cons, List.length_nil]
      omega

section
variable {σ φ : Type} {str : σ → List Char} {float : φ → List Char}

theorem writeItems_map (w : Json.Writer σ φ) (items : List (Json σ φ)) :
    Json.write.writeItems w items = items.map (Json.write w) := by
  induction items with
  | nil => rfl
  | cons item rest ih => rw [Json.write.writeItems, ih, List.map_cons]

theorem writeFields_map (w : Json.Writer σ φ) (fields : List (σ × Json σ φ)) :
    Json.write.writeFields w fields = fields.map (fun p => (p.1, Json.write w p.2)) := by
  induction fields with
  | nil => rfl
  | cons field rest ih => rw [Json.write.writeFields, ih, List.map_cons]

/-- The sizes of the fields of an object, without their separators. -/
def fieldSizes (str : σ → List Char) (float : φ → List Char) (fields : List (σ × Json σ φ)) :
    List Nat :=
  fields.map (fun p => (str p.1 ++ ':' :: Json.write ⟨str, float, id⟩ p.2).length)

theorem length_write_arr (items : List (Json σ φ)) :
    (Json.write ⟨str, float, id⟩ (.arr items)).length =
      joinedSize (items.map (fun v => (Json.write ⟨str, float, id⟩ v).length)) + 2 := by
  rw [Json.write, writeItems_map, List.length_append, List.length_cons, length_separated,
    List.map_map]
  rfl

theorem length_write_obj (fields : List (σ × Json σ φ)) :
    (Json.write ⟨str, float, id⟩ (.obj fields)).length =
      joinedSize (fieldSizes str float fields) + 2 := by
  rw [Json.write, writeFields_map, List.length_append, List.length_cons, length_separated]
  simp only [id, List.map_map]
  rfl

/-- What the items of a last field add to the text of an object. -/
theorem length_write_items (fields : List (σ × Json σ φ)) (key : σ) (items : List (Json σ φ)) :
    (Json.write ⟨str, float, id⟩ (.obj (fields ++ [(key, .arr items)]))).length =
      (Json.write ⟨str, float, id⟩ (.obj (fields ++ [(key, .arr [])]))).length +
        joinedSize (items.map (fun v => (Json.write ⟨str, float, id⟩ v).length)) := by
  rw [length_write_obj, length_write_obj, fieldSizes, fieldSizes, List.map_append,
    List.map_append, List.map_singleton, List.map_singleton, joinedSize_concat, joinedSize_concat]
  simp only [List.length_append, List.length_cons, length_write_arr, List.map_nil]
  have hnil : joinedSize [] = 0 := rfl
  omega

end

end Sediment.Base.Packing

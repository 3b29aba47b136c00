import Sediment.Base.JsonScan

namespace Sediment.Base.JsonScan

inductive Keyed : JsonValue → Prop
  | scalar {v : JsonValue} (ha : ∀ items, v ≠ .arr items) (ho : ∀ fields, v ≠ .obj fields) : Keyed v
  | arr {items : List JsonValue} (h : ∀ item ∈ items, Keyed item) : Keyed (.arr items)
  | obj {fields : List (Text × JsonValue)} (hn : (fields.map Prod.fst).Nodup)
      (h : ∀ p ∈ fields, Keyed p.2) : Keyed (.obj fields)

variable {value : List Char → Option (JsonValue × List Char)} {P : JsonValue → Prop} {n : Nat}
  {s rest : List Char} {v : JsonValue}

theorem forall_arrayItems (hv : ∀ s v rest, value s = some (v, rest) → P v) {vs : List JsonValue}
    (h : arrayItems value n s = some (vs, rest)) : ∀ v ∈ vs, P v := by
  induction n generalizing s vs rest with
  | zero => cases h
  | succ n ih =>
    simp only [arrayItems, Option.bind_eq_bind, Option.bind_eq_some_iff] at h
    obtain ⟨⟨v, r⟩, hval, h⟩ := h
    dsimp only at h
    split at h
    · cases h
      simpa using hv _ _ _ hval
    · simp only [Option.bind_eq_some_iff, Option.some.injEq] at h
      obtain ⟨⟨vs', r''⟩, hrest, he⟩ := h
      cases he
      simpa using ⟨hv _ _ _ hval, ih hrest⟩
    · cases h

theorem forall_objectItems (hv : ∀ s v rest, value s = some (v, rest) → P v)
    {fields : List (Text × JsonValue)} (h : objectItems value n s = some (fields, rest)) :
    ∀ p ∈ fields, P p.2 := by
  induction n generalizing s fields rest with
  | zero => cases h
  | succ n ih =>
    unfold objectItems at h
    split at h
    · rename_i n' s' he
      cases he
      simp only [Option.bind_eq_bind, Option.bind_eq_some_iff] at h
      obtain ⟨⟨key, r⟩, -, h⟩ := h
      dsimp only at h
      split at h
      · simp only [Option.bind_eq_some_iff] at h
        obtain ⟨⟨v, q⟩, hval, h⟩ := h
        dsimp only at h
        split at h
        · cases h
          simpa using hv _ _ _ hval
        · simp only [Option.bind_eq_some_iff, Option.some.injEq] at h
          obtain ⟨⟨fields', q''⟩, hrest, he⟩ := h
          cases he
          rintro p (_ | ⟨_, hp⟩)
          · exact hv _ _ _ hval
          · exact ih hrest p hp
        · cases h
      · cases h
    · cases h

theorem mem_fieldsOf {pairs : List (Text × JsonValue)} {p : Text × JsonValue}
    (h : p ∈ fieldsOf pairs) :
    p ∈ pairs :=
  (Dict.mem_entries_foldl_set h).resolve_left (by simp [Dict.empty])

theorem nodup_fieldsOf (pairs : List (Text × JsonValue)) : ((fieldsOf pairs).map Prod.fst).Nodup :=
  Dict.nodup _

theorem keyed_scanNumber (h : scanNumber s = some (v, rest)) : Keyed v := by
  simp only [scanNumber] at h
  split at h
  · cases h
  · split at h
    · split at h <;> cases h
      exact .scalar (by simp) (by simp)
    · cases h
      exact .scalar (by simp) (by simp)

theorem keyed_scanScalar (h : scanScalar s = some (v, rest)) : Keyed v := by
  unfold scanScalar at h
  split at h
  · simp only [Option.map_eq_some_iff] at h
    obtain ⟨⟨text, r⟩, -, he⟩ := h
    cases he
    exact .scalar (by simp) (by simp)
  all_goals first
    | exact keyed_scanNumber h
    | cases h; exact .scalar (by simp) (by simp)

theorem keyed_scanObject (hv : ∀ s v rest, value s = some (v, rest) → Keyed v)
    (h : scanObject value s = some (v, rest)) : Keyed v := by
  unfold scanObject at h
  split at h
  · cases h
    exact .obj (by simp) (by simp)
  · simp only [Option.map_eq_some_iff] at h
    obtain ⟨⟨fields, r⟩, hitems, he⟩ := h
    cases he
    exact .obj (nodup_fieldsOf fields)
      (fun p hp => forall_objectItems hv hitems p (mem_fieldsOf hp))

theorem keyed_scanArray (hv : ∀ s v rest, value s = some (v, rest) → Keyed v)
    (h : scanArray value s = some (v, rest)) : Keyed v := by
  unfold scanArray at h
  split at h
  · cases h
    exact .arr (by simp)
  · simp only [Option.map_eq_some_iff] at h
    obtain ⟨⟨items, r⟩, hitems, he⟩ := h
    cases he
    exact .arr (forall_arrayItems hv hitems)

theorem keyed_scanOnce (depth : Nat) (h : scanOnce depth s = some (v, rest)) : Keyed v := by
  induction depth generalizing s v rest with
  | zero =>
    unfold scanOnce at h
    split at h
    · cases h
    · cases h
    · cases ‹0 = _ + 1›
    · cases ‹0 = _ + 1›
    · exact keyed_scanScalar h
  | succ d ih =>
    unfold scanOnce at h
    split at h
    · cases h
    · cases h
    · rename_i he
      cases he
      exact keyed_scanObject (fun _ _ _ => ih) h
    · rename_i he
      cases he
      exact keyed_scanArray (fun _ _ _ => ih) h
    · exact keyed_scanScalar h

end Sediment.Base.JsonScan

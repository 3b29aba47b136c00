import Sediment.Base.Ordering
import Sediment.Base.JsonDumps
import Sediment.Base.JsonRender

namespace Sediment.Base.JsonScan

/-- Quotes, backslashes and control characters are escaped, and nothing else. -/
def escapePlain (n : Nat) : Text :=
  if n = 34 ∨ n = 92 ∨ n < 32 then (escapeUnit n).map Char.toNat else [n]

def quotePlain (t : Text) : Text := 34 :: t.flatMap escapePlain ++ [34]

section
variable {φ : Type} (comma colon : Text) (float : φ → Text)

def canonical : Json Text φ → Text
  | .null => codePoints "null"
  | .bool true => codePoints "true"
  | .bool false => codePoints "false"
  | .int n => codePoints (toString n)
  | .float x => float x
  | .str t => quotePlain t
  | .arr items => 91 :: comma.intercalate (canonicalItems items) ++ [93]
  | .obj fields =>
    123 :: comma.intercalate ((sortedBy Prod.fst (canonicalFields fields)).map
      (fun p => quotePlain p.1 ++ colon ++ p.2)) ++ [125]
where
  canonicalItems : List (Json Text φ) → List Text
    | [] => []
    | item :: rest => canonical item :: canonicalItems rest
  canonicalFields : List (Text × Json Text φ) → List (Text × Text)
    | [] => []
    | (key, v) :: rest => (key, canonical v) :: canonicalFields rest

end

section
variable {φ : Type}

def sortKeys : Json Text φ → Json Text φ
  | .null => .null
  | .bool b => .bool b
  | .int n => .int n
  | .float x => .float x
  | .str t => .str t
  | .arr items => .arr (sortItems items)
  | .obj fields => .obj (sortedBy Prod.fst (sortFields fields))
where
  sortItems : List (Json Text φ) → List (Json Text φ)
    | [] => []
    | item :: rest => sortKeys item :: sortItems rest
  sortFields : List (Text × Json Text φ) → List (Text × Json Text φ)
    | [] => []
    | (key, v) :: rest => (key, sortKeys v) :: sortFields rest

theorem sortItems_eq (items : List (Json Text φ)) :
    sortKeys.sortItems items = items.map sortKeys := by
  induction items with
  | nil => rfl
  | cons v items ih => rw [sortKeys.sortItems, ih, List.map_cons]

theorem sortFields_eq (fields : List (Text × Json Text φ)) :
    sortKeys.sortFields fields = fields.map (Prod.map id sortKeys) := by
  induction fields with
  | nil => rfl
  | cons p fields ih =>
    obtain ⟨key, v⟩ := p
    rw [sortKeys.sortFields, ih, List.map_cons]
    rfl

/-- The spelling of `canonical`. -/
def plain (comma colon : Text) (float : φ → Text) : Style Text φ where
  quote := quotePlain
  float := float
  comma := comma
  colon := colon

variable {comma colon : Text} {float : φ → Text}

theorem joined_eq (w : Style Text φ) (close : Nat) (items : List Text) :
    joined w close items = w.comma.intercalate items ++ [close] := by
  induction items with
  | nil => rfl
  | cons item rest ih =>
    cases rest with
    | nil => simp [joined]
    | cons next rest =>
      rw [List.intercalate_cons_cons, joined, List.flatMap_cons]
      rw [joined] at ih
      simp only [List.append_assoc] at ih ⊢
      rw [← ih]

/-- Fields are written as they are, with the texts of their values. -/
theorem sorted_fields (fields : List (Text × Json Text φ)) {pairs : List (Text × Text)}
    (h : pairs = fields.map (fun p => (p.1, render (plain comma colon float) p.2))) :
    (sortedBy Prod.fst pairs).map (fun p => quotePlain p.1 ++ colon ++ p.2) =
      (sortedBy Prod.fst fields).map (renderField (plain comma colon float)) := by
  rw [h, sortedBy_map, List.map_map]
  apply List.map_congr_left
  intro p hp
  exact List.append_assoc _ _ _

mutual
/-- It is the same to sort the texts of the fields or the fields. -/
theorem canonical_eq_render (v : Json Text φ) :
    canonical comma colon float v = render (plain comma colon float) (sortKeys v) := by
  match v with
  | .null => rfl
  | .bool true => rfl
  | .bool false => rfl
  | .int n => rfl
  | .float x => rfl
  | .str t => rfl
  | .arr items =>
    rw [canonical, sortKeys, render, canonicalItems_eq items, joined_eq, renderItems_eq,
      List.cons_append]
    rfl
  | .obj fields =>
    rw [canonical, sortKeys, render, joined_eq, renderFields_eq, List.cons_append,
      sorted_fields _ (canonicalFields_eq fields)]
    rfl

theorem canonicalItems_eq (items : List (Json Text φ)) :
    canonical.canonicalItems comma colon float items =
      (sortKeys.sortItems items).map (render (plain comma colon float)) := by
  match items with
  | [] => rfl
  | v :: rest =>
    rw [canonical.canonicalItems, canonical_eq_render v, canonicalItems_eq rest]
    rfl

theorem canonicalFields_eq (fields : List (Text × Json Text φ)) :
    canonical.canonicalFields comma colon float fields = (sortKeys.sortFields fields).map
      (fun p => (p.1, render (plain comma colon float) p.2)) := by
  match fields with
  | [] => rfl
  | (key, v) :: rest =>
    rw [canonical.canonicalFields, canonical_eq_render v, canonicalFields_eq rest]
    rfl
end

end

/-- The code points that are escaped. -/
def Escaped (n : Nat) : Prop := n = 34 ∨ n = 92 ∨ n < 32

theorem escapePlain_of_not {n : Nat} (h : ¬Escaped n) : escapePlain n = [n] := if_neg h

theorem escapePlain_of {n : Nat} (h : Escaped n) :
    escapePlain n = (escapeUnit n).map Char.toNat := if_pos h

/-- No escape begins with another one. -/
theorem escapes_apart : ∀ n ∈ 34 :: 92 :: List.range 32, ∀ m ∈ 34 :: 92 :: List.range 32,
    (escapeUnit n).isPrefixOf (escapeUnit m) = true → n = m := by
  decide +kernel

theorem mem_escapes {n : Nat} (h : Escaped n) : n ∈ 34 :: 92 :: List.range 32 := by
  simpa [Escaped] using h

theorem escapeUnit_head {n : Nat} (h : Escaped n) : ∃ rest, escapeUnit n = '\\' :: rest := by
  have hall : ∀ n ∈ 34 :: 92 :: List.range 32, (escapeUnit n).head? = some '\\' := by decide +kernel
  exact List.head?_eq_some_iff.mp (hall n (mem_escapes h))

theorem escapePlain_head (n : Nat) : ∃ c rest, escapePlain n = c :: rest ∧ c ≠ 34 := by
  by_cases h : Escaped n
  · obtain ⟨rest, hr⟩ := escapeUnit_head h
    exact ⟨92, _, by rw [escapePlain_of h, hr]; rfl, by decide⟩
  · exact ⟨n, [], escapePlain_of_not h, fun heq => h (Or.inl heq)⟩

theorem escapePlain_inj {n m : Nat} {x y : Text} (h : escapePlain n ++ x = escapePlain m ++ y) :
    n = m ∧ x = y := by
  have heq : n = m := by
    by_cases hn : Escaped n <;> by_cases hm : Escaped m
    · rw [escapePlain_of hn, escapePlain_of hm] at h
      have hpre : (escapeUnit n) <+: (escapeUnit m) ∨ (escapeUnit m) <+: (escapeUnit n) := by
        rcases List.append_eq_append_iff.mp h with ⟨z, hz, -⟩ | ⟨z, hz, -⟩
        · left
          exact (List.prefix_map_iff_of_injective toNat_injective).mp ⟨z, hz.symm⟩
        · right
          exact (List.prefix_map_iff_of_injective toNat_injective).mp ⟨z, hz.symm⟩
      rcases hpre with hpre | hpre
      · exact escapes_apart n (mem_escapes hn) m (mem_escapes hm)
          (List.isPrefixOf_iff_prefix.mpr hpre)
      · exact (escapes_apart m (mem_escapes hm) n (mem_escapes hn)
          (List.isPrefixOf_iff_prefix.mpr hpre)).symm
    · obtain ⟨rest, hr⟩ := escapeUnit_head hn
      rw [escapePlain_of hn, escapePlain_of_not hm, hr] at h
      exact (hm (Or.inr (Or.inl (List.cons.inj h).1.symm))).elim
    · obtain ⟨rest, hr⟩ := escapeUnit_head hm
      rw [escapePlain_of_not hn, escapePlain_of hm, hr] at h
      exact (hn (Or.inr (Or.inl (List.cons.inj h).1))).elim
    · rw [escapePlain_of_not hn, escapePlain_of_not hm] at h
      exact (List.cons.inj h).1
  subst heq
  exact ⟨rfl, List.append_cancel_left h⟩

theorem quotePlain_inj {t u r s : Text} (h : quotePlain t ++ r = quotePlain u ++ s) :
    t = u ∧ r = s := by
  have hclose : ∀ (n : Nat) (x y : Text), 34 :: x ≠ escapePlain n ++ y := by
    intro n x y hxy
    obtain ⟨c, rest, hc, hne⟩ := escapePlain_head n
    rw [hc] at hxy
    exact hne (List.cons.inj hxy).1.symm
  unfold quotePlain at h
  simp only [List.cons_append, List.append_assoc, List.nil_append, List.cons.injEq,
    true_and] at h
  induction t generalizing u with
  | nil =>
    cases u with
    | nil => exact ⟨rfl, (List.cons.inj h).2⟩
    | cons m u =>
      rw [List.flatMap_cons, List.append_assoc] at h
      exact (hclose _ _ _ h).elim
  | cons n t ih =>
    cases u with
    | nil =>
      rw [List.flatMap_cons, List.append_assoc] at h
      exact (hclose _ _ _ h.symm).elim
    | cons m u =>
      rw [List.flatMap_cons, List.flatMap_cons, List.append_assoc, List.append_assoc] at h
      obtain ⟨rfl, hrest⟩ := escapePlain_inj h
      obtain ⟨rfl, hrs⟩ := ih hrest
      exact ⟨rfl, hrs⟩

theorem plain_legible {φ : Type} (colon : Text) (float : φ → Text) :
    (plain [44] colon float).Legible (fun _ => True) (fun _ => False) where
  quoted _ := ⟨_, rfl⟩
  quote_inj _ _ _ _ _ _ h := quotePlain_inj h
  float_stop _ h := h.elim
  float_marked _ h := h.elim
  float_head _ h := h.elim
  float_inj _ _ h := h.elim
  comma := ⟨[], rfl⟩

theorem Clean.sortKeys {φ : Type} {P : Text → Prop} {F : φ → Prop} {v : Json Text φ}
    (h : Clean P F v) : Clean P F (sortKeys v) := by
  induction h with
  | null => exact .null
  | bool b => exact .bool b
  | int n => exact .int n
  | float hx => exact .float hx
  | str ht => exact .str ht
  | arr hitems ih =>
    rw [JsonScan.sortKeys, sortItems_eq]
    apply Clean.arr
    intro v hv
    obtain ⟨u, hu, rfl⟩ := List.mem_map.mp hv
    exact ih u hu
  | obj hkeys hfields ih =>
    rw [JsonScan.sortKeys, sortFields_eq]
    apply Clean.obj
    · intro p hp
      obtain ⟨q, hq, rfl⟩ := List.mem_map.mp (mem_sortedBy.mp hp)
      exact hkeys q hq
    · intro p hp
      obtain ⟨q, hq, rfl⟩ := List.mem_map.mp (mem_sortedBy.mp hp)
      exact ih q hq

/-- Values without floats that have one canonical text differ in the order of keys at most. -/
theorem canonical_inj {φ : Type} {colon : Text} {float : φ → Text} {a b : Json Text φ}
    (ha : Clean (fun _ => True) (fun _ => False) a) (hb : Clean (fun _ => True) (fun _ => False) b)
    (h : canonical [44] colon float a = canonical [44] colon float b) :
    sortKeys a = sortKeys b := by
  rw [canonical_eq_render, canonical_eq_render] at h
  have hstop : Stops [] := Or.inl rfl
  have happend := congrArg (· ++ ([] : Text)) h
  exact (render_inj (plain_legible colon float) ha.sortKeys hb.sortKeys hstop hstop happend).1

end Sediment.Base.JsonScan

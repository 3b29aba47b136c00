import Sediment.Base.JsonDumps

namespace Sediment.Base.JsonScan

/-- How a writer spells strings, floats and separators. -/
structure Style (σ φ : Type) where
  quote : σ → Text
  float : φ → Text
  comma : Text
  colon : Text

section
variable {σ φ : Type} (w : Style σ φ)

/-- Items behind a bracket, up to the closing one. -/
def joined (close : Nat) : List Text → Text
  | [] => [close]
  | item :: rest => item ++ (rest.flatMap (w.comma ++ ·) ++ [close])

def render : Json σ φ → Text
  | .null => codePoints "null"
  | .bool true => codePoints "true"
  | .bool false => codePoints "false"
  | .int n => codePoints (toString n)
  | .float x => w.float x
  | .str t => w.quote t
  | .arr items => 91 :: joined w 93 (renderItems items)
  | .obj fields => 123 :: joined w 125 (renderFields fields)
where
  renderItems : List (Json σ φ) → List Text
    | [] => []
    | item :: rest => render item :: renderItems rest
  renderFields : List (σ × Json σ φ) → List Text
    | [] => []
    | (key, v) :: rest => (w.quote key ++ (w.colon ++ render v)) :: renderFields rest

end

/-- A text ends, or a separator comes next. -/
def Stops (r : Text) : Prop := r = [] ∨ ∃ c rest, r = c :: rest ∧ c ∈ [44, 93, 125]

def isNumeral (c : Nat) : Prop := (48 ≤ c ∧ c ≤ 57) ∨ c = 45

theorem natText (n : Nat) : codePoints (toString n) = (Nat.toDigits 10 n).map Char.toNat := by
  change (n.repr.toList).map Char.toNat = _
  rw [Nat.toList_repr]

theorem natText_numeral (n : Nat) : ∀ c ∈ codePoints (toString n), 48 ≤ c ∧ c ≤ 57 := by
  intro c hc
  rw [natText] at hc
  obtain ⟨d, hd, heq⟩ := List.mem_map.mp hc
  have hdigit := Nat.isDigit_of_mem_toDigits (by decide) (by decide) hd
  simp only [Char.isDigit, Bool.and_eq_true, decide_eq_true_eq] at hdigit
  subst heq
  exact ⟨hdigit.1, hdigit.2⟩

theorem natText_inj {m n : Nat} (h : codePoints (toString m) = codePoints (toString n)) :
    m = n := by
  rw [natText, natText] at h
  have hchars := List.map_injective_iff.mpr (fun a b hab => Char.toNat_inj.mp hab) h
  rw [← Nat.ofDigitChars_ten_toDigits (n := m), hchars, Nat.ofDigitChars_ten_toDigits]

theorem intText (n : Int) : codePoints (toString n) =
    if n < 0 then 45 :: codePoints (toString n.natAbs) else codePoints (toString n.natAbs) := by
  cases n with
  | ofNat m => rfl
  | negSucc m =>
    rw [if_pos (by omega)]
    change codePoints ("-" ++ toString (m + 1)) = 45 :: codePoints (toString (m + 1))
    rw [codePoints, String.toList_append]
    rfl

theorem intText_numeral (n : Int) : ∀ c ∈ codePoints (toString n), isNumeral c := by
  intro c hc
  rw [intText] at hc
  split at hc
  · rcases List.mem_cons.mp hc with hc | hc
    · exact .inr hc
    · exact .inl (natText_numeral _ c hc)
  · exact .inl (natText_numeral _ c hc)

theorem intText_inj {m n : Int} (h : codePoints (toString m) = codePoints (toString n)) :
    m = n := by
  have hdigit : ∀ k : Nat, ∀ rest, codePoints (toString k) ≠ 45 :: rest := by
    intro k rest hk
    have := natText_numeral k 45 (by rw [hk]; simp)
    omega
  rw [intText, intText] at h
  split at h
  · split at h
    · have habs := natText_inj (List.cons.inj h).2
      omega
    · exact absurd h.symm (hdigit _ _)
  · split at h
    · exact absurd h (hdigit _ _)
    · have habs := natText_inj h
      omega

theorem intText_head (n : Int) : ∃ c rest, codePoints (toString n) = c :: rest ∧ isNumeral c := by
  cases hc : codePoints (toString n) with
  | nil =>
    rw [intText] at hc
    split at hc
    · cases hc
    · rw [natText, List.map_eq_nil_iff] at hc
      exact absurd hc Nat.toDigits_ne_nil
  | cons c rest => exact ⟨c, rest, rfl, intText_numeral n c (by rw [hc]; simp)⟩

/-- Two texts without separators end where the separators begin. -/
theorem stops_unique {a b r s : Text} (ha : ∀ c ∈ a, c ∉ [44, 93, 125])
    (hb : ∀ c ∈ b, c ∉ [44, 93, 125]) (hr : Stops r) (hs : Stops s) (h : a ++ r = b ++ s) :
    a = b ∧ r = s := by
  induction a generalizing b with
  | nil =>
    cases b with
    | nil => exact ⟨rfl, h⟩
    | cons c b =>
      rcases hr with hr | ⟨d, rest, hr, hd⟩
      · rw [hr] at h
        cases h
      · rw [hr] at h
        injection h with hc _
        subst hc
        exact absurd hd (hb d (by simp))
  | cons c a ih =>
    cases b with
    | nil =>
      rcases hs with hs | ⟨d, rest, hs, hd⟩
      · rw [hs] at h
        cases h
      · rw [hs] at h
        injection h with hc _
        subst hc
        exact absurd hd (ha c (by simp))
    | cons d b =>
      injection h with hc htail
      obtain ⟨hab, hrs⟩ := ih (fun x hx => ha x (by simp [hx])) (fun x hx => hb x (by simp [hx]))
        htail
      exact ⟨by rw [hc, hab], hrs⟩

theorem numeral_not_stop {c : Nat} (h : isNumeral c) : c ∉ [44, 93, 125] := by
  unfold isNumeral at h
  simp only [List.mem_cons, List.not_mem_nil, or_false, not_or]
  omega

section
variable {σ φ : Type} {w : Style σ φ} {P : σ → Prop} {F : φ → Prop} {close : Nat}

/-- Strings that pass `P` and floats that pass `F` are told apart by their texts. -/
structure Style.Legible (w : Style σ φ) (P : σ → Prop) (F : φ → Prop) : Prop where
  quoted : ∀ t, ∃ rest, w.quote t = 34 :: rest
  quote_inj : ∀ t u r s, P t → P u → w.quote t ++ r = w.quote u ++ s → t = u ∧ r = s
  float_stop : ∀ x, F x → ∀ c ∈ w.float x, c ∉ [44, 93, 125]
  float_marked : ∀ x, F x → ∃ c ∈ w.float x, ¬ isNumeral c
  float_head : ∀ x, F x → ∃ c rest, w.float x = c :: rest ∧ isNumeral c
  float_inj : ∀ x y, F x → F y → w.float x = w.float y → x = y
  comma : ∃ rest, w.comma = 44 :: rest

/-- Every string and key of the value passes `P`, and every float `F`. -/
inductive Clean (P : σ → Prop) (F : φ → Prop) : Json σ φ → Prop where
  | null : Clean P F .null
  | bool (b : Bool) : Clean P F (.bool b)
  | int (n : Int) : Clean P F (.int n)
  | float {x : φ} (hx : F x) : Clean P F (.float x)
  | str {t : σ} (ht : P t) : Clean P F (.str t)
  | arr {items : List (Json σ φ)} (h : ∀ v ∈ items, Clean P F v) : Clean P F (.arr items)
  | obj {fields : List (σ × Json σ φ)} (hkeys : ∀ p ∈ fields, P p.1)
    (h : ∀ p ∈ fields, Clean P F p.2) : Clean P F (.obj fields)

/-- What the text of a value begins with. -/
def leads : Json σ φ → Nat → Prop
  | .null, c => c = 110
  | .bool true, c => c = 116
  | .bool false, c => c = 102
  | .int _, c => isNumeral c
  | .float _, c => isNumeral c
  | .str _, c => c = 34
  | .arr _, c => c = 91
  | .obj _, c => c = 123

theorem render_head (hw : w.Legible P F) {v : Json σ φ} (hv : Clean P F v) :
    ∃ c rest, render w v = c :: rest ∧ leads v c := by
  cases hv with
  | null => exact ⟨_, _, rfl, rfl⟩
  | bool b => cases b <;> exact ⟨_, _, rfl, rfl⟩
  | int n => exact intText_head n
  | float hx => exact hw.float_head _ hx
  | str ht =>
    obtain ⟨rest, hr⟩ := hw.quoted _
    exact ⟨34, rest, hr, rfl⟩
  | arr h => exact ⟨_, _, rfl, rfl⟩
  | obj hkeys h => exact ⟨_, _, rfl, rfl⟩

theorem renderItems_eq (items : List (Json σ φ)) :
    render.renderItems w items = items.map (render w) := by
  induction items with
  | nil => rfl
  | cons v items ih => rw [render.renderItems, ih, List.map_cons]

def renderField (w : Style σ φ) (p : σ × Json σ φ) : Text :=
  w.quote p.1 ++ (w.colon ++ render w p.2)

theorem renderFields_eq (fields : List (σ × Json σ φ)) :
    render.renderFields w fields = fields.map (renderField w) := by
  induction fields with
  | nil => rfl
  | cons p fields ih =>
    obtain ⟨key, v⟩ := p
    rw [render.renderFields, ih, List.map_cons]
    rfl

section
variable {α : Type} {e : α → Text}

theorem joinedTail_stops (hcomma : ∃ rest, w.comma = 44 :: rest) (hclose : close ∈ [93, 125])
    (zs : List α) (t : Text) :
    Stops ((zs.map e).flatMap (w.comma ++ ·) ++ (close :: t)) := by
  obtain ⟨space, hspace⟩ := hcomma
  right
  cases zs with
  | nil => exact ⟨close, t, rfl, List.mem_cons_of_mem _ hclose⟩
  | cons z zs =>
    rw [List.map_cons, List.flatMap_cons, hspace]
    exact ⟨44, _, rfl, by simp⟩

/-- The items behind the first one. -/
theorem joinedTail_inj (hcomma : ∃ rest, w.comma = 44 :: rest) (hclose : close ∈ [93, 125])
    {xs ys : List α} {r s : Text}
    (hinj : ∀ x ∈ xs, ∀ y ∈ ys, ∀ r s, Stops r → Stops s → e x ++ r = e y ++ s → x = y ∧ r = s)
    (h : (xs.map e).flatMap (w.comma ++ ·) ++ (close :: r) =
      (ys.map e).flatMap (w.comma ++ ·) ++ (close :: s)) : xs = ys ∧ r = s := by
  have hstop := joinedTail_stops (e := e) hcomma hclose
  obtain ⟨space, hspace⟩ := id hcomma
  have hne : close ≠ 44 := by
    rcases List.mem_cons.mp hclose with hc | hc
    · omega
    · rw [List.mem_singleton] at hc
      omega
  induction xs generalizing ys with
  | nil =>
    cases ys with
    | nil => exact ⟨rfl, (List.cons.inj h).2⟩
    | cons y ys =>
      rw [List.map_cons, List.flatMap_cons, hspace] at h
      exact absurd (List.cons.inj h).1 hne
  | cons x xs ih =>
    cases ys with
    | nil =>
      rw [List.map_cons, List.flatMap_cons, hspace] at h
      exact absurd (List.cons.inj h).1.symm hne
    | cons y ys =>
      simp only [List.map_cons, List.flatMap_cons, List.append_assoc,
        List.append_cancel_left_eq] at h
      obtain ⟨hxy, htail⟩ := hinj x (by simp) y (by simp) _ _ (hstop xs r) (hstop ys s) h
      obtain ⟨hrest, hrs⟩ := ih (fun a ha b hb => hinj a (by simp [ha]) b (by simp [hb])) htail
      exact ⟨by rw [hxy, hrest], hrs⟩

/-- The items of two brackets are told apart where each item is. -/
theorem joined_inj (hcomma : ∃ rest, w.comma = 44 :: rest) (hclose : close ∈ [93, 125])
    {xs ys : List α} {r s : Text}
    (hinj : ∀ x ∈ xs, ∀ y ∈ ys, ∀ r s, Stops r → Stops s → e x ++ r = e y ++ s → x = y ∧ r = s)
    (hx : ∀ x ∈ xs, ∃ c rest, e x = c :: rest ∧ c ≠ close)
    (hy : ∀ y ∈ ys, ∃ c rest, e y = c :: rest ∧ c ≠ close)
    (h : joined w close (xs.map e) ++ r = joined w close (ys.map e) ++ s) : xs = ys ∧ r = s := by
  have hstop := joinedTail_stops (e := e) hcomma hclose
  cases xs with
  | nil =>
    cases ys with
    | nil => exact ⟨rfl, (List.cons.inj h).2⟩
    | cons y ys =>
      obtain ⟨c, rest, hc, hne⟩ := hy y (by simp)
      simp only [joined, List.map_cons, List.map_nil, hc, List.cons_append] at h
      exact absurd (List.cons.inj h).1.symm hne
  | cons x xs =>
    cases ys with
    | nil =>
      obtain ⟨c, rest, hc, hne⟩ := hx x (by simp)
      simp only [joined, List.map_cons, List.map_nil, hc, List.cons_append] at h
      exact absurd (List.cons.inj h).1 hne
    | cons y ys =>
      simp only [joined, List.map_cons, List.append_assoc, List.singleton_append] at h
      obtain ⟨hxy, htail⟩ := hinj x (by simp) y (by simp) _ _ (hstop xs r) (hstop ys s) h
      obtain ⟨hrest, hrs⟩ := joinedTail_inj hcomma hclose
        (fun a ha b hb => hinj a (by simp [ha]) b (by simp [hb])) htail
      exact ⟨by rw [hxy, hrest], hrs⟩

end

/-- Integers and floats begin alike; no other kinds do. -/
def kind : Json σ φ → Nat
  | .null => 0
  | .bool true => 1
  | .bool false => 2
  | .int _ => 3
  | .float _ => 3
  | .str _ => 4
  | .arr _ => 5
  | .obj _ => 6

theorem kind_of_leads {a b : Json σ φ} {c : Nat} (ha : leads a c) (hb : leads b c) :
    kind a = kind b := by
  have hcode : ∀ v : Json σ φ, leads v c → kind v =
      if c = 110 then 0 else if c = 116 then 1 else if c = 102 then 2 else if c = 34 then 4
      else if c = 91 then 5 else if c = 123 then 6 else 3 := by
    intro v hv
    cases v with
    | bool x => cases x <;> simp only [leads] at hv <;> simp [kind, hv]
    | int n =>
      simp only [leads, isNumeral] at hv
      simp only [kind]
      split_ifs <;> omega
    | float x =>
      simp only [leads, isNumeral] at hv
      simp only [kind]
      split_ifs <;> omega
    | _ => simp only [leads] at hv; simp [kind, hv]
  rw [hcode a ha, hcode b hb]

theorem kind_eq (hw : w.Legible P F) {a b : Json σ φ} (ha : Clean P F a) (hb : Clean P F b)
    {r s : Text} (h : render w a ++ r = render w b ++ s) : kind a = kind b := by
  obtain ⟨c, rest, hc, hla⟩ := render_head hw ha
  obtain ⟨d, rest', hd, hlb⟩ := render_head hw hb
  rw [hc, hd] at h
  have hcd : c = d := (List.cons.inj h).1
  subst hcd
  exact kind_of_leads hla hlb

theorem intText_ne_float (hw : w.Legible P F) {n : Int} {x : φ} (hx : F x)
    (h : codePoints (toString n) = w.float x) : False := by
  obtain ⟨c, hc, hnot⟩ := hw.float_marked x hx
  exact hnot (intText_numeral n c (h ▸ hc))

/-- A field begins with its quoted key, and the text of its value ends it. -/
theorem renderField_inj (hw : w.Legible P F) {p q : σ × Json σ φ} (hp : P p.1) (hq : P q.1)
    (hinj : ∀ r s, Stops r → Stops s → render w p.2 ++ r = render w q.2 ++ s →
      p.2 = q.2 ∧ r = s) {r s : Text} (hr : Stops r) (hs : Stops s)
    (h : renderField w p ++ r = renderField w q ++ s) : p = q ∧ r = s := by
  simp only [renderField, List.append_assoc] at h
  obtain ⟨hkey, hrest⟩ := hw.quote_inj _ _ _ _ hp hq h
  obtain ⟨hvalue, hrs⟩ := hinj r s hr hs (List.append_cancel_left hrest)
  exact ⟨Prod.ext hkey hvalue, hrs⟩

theorem renderField_head (hw : w.Legible P F) (p : σ × Json σ φ) :
    ∃ c rest, renderField w p = c :: rest ∧ c ≠ 125 := by
  obtain ⟨rest, hr⟩ := hw.quoted p.1
  exact ⟨34, _, by rw [renderField, hr]; rfl, by decide⟩

theorem render_head_ne (hw : w.Legible P F) {v : Json σ φ} (hv : Clean P F v) :
    ∃ c rest, render w v = c :: rest ∧ c ≠ 93 := by
  obtain ⟨c, rest, hc, hl⟩ := render_head hw hv
  refine ⟨c, rest, hc, ?_⟩
  intro heq
  subst heq
  cases v with
  | bool x => cases x <;> simp [leads] at hl
  | _ => simp [leads, isNumeral] at hl

/-- Equal texts are the texts of one value. -/
theorem render_inj (hw : w.Legible P F) {a b : Json σ φ} (ha : Clean P F a) (hb : Clean P F b)
    {r s : Text} (hr : Stops r) (hs : Stops s) (h : render w a ++ r = render w b ++ s) :
    a = b ∧ r = s := by
  have hint : ∀ n : Int, ∀ c ∈ codePoints (toString n), c ∉ [44, 93, 125] :=
    fun n c hc => numeral_not_stop (intText_numeral n c hc)
  induction ha generalizing b r s with
  | null =>
    have hkind := kind_eq hw .null hb h
    cases hb with
    | null => exact ⟨rfl, List.append_cancel_left h⟩
    | bool x => cases x <;> cases hkind
    | _ => cases hkind
  | bool x =>
    have hkind := kind_eq hw (.bool x) hb h
    cases hb with
    | bool y =>
      cases x <;> cases y <;> first | exact ⟨rfl, List.append_cancel_left h⟩ | cases hkind
    | _ => cases x <;> cases hkind
  | int n =>
    have hkind := kind_eq hw (.int n) hb h
    cases hb with
    | int m =>
      obtain ⟨htext, hrs⟩ := stops_unique (hint n) (hint m) hr hs h
      exact ⟨by rw [intText_inj htext], hrs⟩
    | float hy =>
      obtain ⟨htext, -⟩ := stops_unique (hint n) (hw.float_stop _ hy) hr hs h
      exact (intText_ne_float hw hy htext).elim
    | bool x => cases x <;> cases hkind
    | _ => cases hkind
  | float hx =>
    have hkind := kind_eq hw (.float hx) hb h
    cases hb with
    | int m =>
      obtain ⟨htext, -⟩ := stops_unique (hw.float_stop _ hx) (hint m) hr hs h
      exact (intText_ne_float hw hx htext.symm).elim
    | float hy =>
      obtain ⟨htext, hrs⟩ := stops_unique (hw.float_stop _ hx) (hw.float_stop _ hy) hr hs h
      exact ⟨by rw [hw.float_inj _ _ hx hy htext], hrs⟩
    | bool x => cases x <;> cases hkind
    | _ => cases hkind
  | str ht =>
    have hkind := kind_eq hw (.str ht) hb h
    cases hb with
    | str hu =>
      obtain ⟨htext, hrs⟩ := hw.quote_inj _ _ _ _ ht hu h
      exact ⟨by rw [htext], hrs⟩
    | bool x => cases x <;> cases hkind
    | _ => cases hkind
  | arr hitems ih =>
    have hkind := kind_eq hw (.arr hitems) hb h
    cases hb with
    | arr hothers =>
      simp only [render, renderItems_eq] at h
      obtain ⟨hall, hrs⟩ := joined_inj hw.comma (by simp)
        (fun x hx y hy r s hr hs hxy => ih x hx (hothers y hy) hr hs hxy)
        (fun x hx => render_head_ne hw (hitems x hx))
        (fun y hy => render_head_ne hw (hothers y hy)) (List.cons.inj h).2
      exact ⟨by rw [hall], hrs⟩
    | bool x => cases x <;> cases hkind
    | _ => cases hkind
  | obj hkeys hfields ih =>
    have hkind := kind_eq hw (.obj hkeys hfields) hb h
    cases hb with
    | obj hkeys' hothers =>
      simp only [render, renderFields_eq] at h
      obtain ⟨hall, hrs⟩ := joined_inj hw.comma (by simp)
        (fun p hp q hq r s hr hs hpq => renderField_inj hw (hkeys p hp) (hkeys' q hq)
          (fun r s hr hs hv => ih p hp (hothers q hq) hr hs hv) hr hs hpq)
        (fun p _ => renderField_head hw p) (fun q _ => renderField_head hw q)
        (List.cons.inj h).2
      exact ⟨by rw [hall], hrs⟩
    | bool x => cases x <;> cases hkind
    | _ => cases hkind

end

end Sediment.Base.JsonScan

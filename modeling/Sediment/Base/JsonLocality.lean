import Sediment.Base.JsonScan

namespace Sediment.Base.JsonScan

variable {s rest t digits : List Char} {v : JsonValue} {units : List Nat} {text : Text}

/-- A text that starts with something no number continues with. -/
def Closed (rest : List Char) : Prop :=
  ∃ c r, rest = c :: r ∧ (isBlank c ∨ c = ',' ∨ c = ']' ∨ c = '}' : Bool)

def isNumber : JsonValue → Bool
  | .int _ | .float _ => true
  | _ => false

theorem skipBlanks_append (h : skipBlanks s ≠ []) :
    skipBlanks (s ++ t) = skipBlanks s ++ t := by
  unfold skipBlanks at h ⊢
  rw [List.dropWhile_append]
  simp [h]

theorem length_skipBlanks (s : List Char) : (skipBlanks s).length ≤ s.length :=
  (List.dropWhile_sublist _).length_le

theorem closed_of_skipBlanks {c : Char} (h : skipBlanks s = c :: rest)
    (hc : c = ',' ∨ c = ']' ∨ c = '}') : Closed s := by
  cases s with
  | nil => cases h
  | cons d s =>
    refine ⟨d, s, rfl, ?_⟩
    unfold skipBlanks at h
    rw [List.dropWhile_cons] at h
    split at h
    · rename_i hb
      simp [hb]
    · cases h
      rcases hc with rfl | rfl | rfl <;> decide

theorem scanUnits_append (h : scanUnits s = some (units, rest)) :
    scanUnits (s ++ t) = some (units, rest ++ t) := by
  fun_induction scanUnits s generalizing units rest with
  | case1 => cases h
  | case2 rest' =>
    cases h
    rfl
  | case3 a b c d rest' ih =>
    simp only [Option.bind_eq_bind, Option.bind_eq_some_iff, Option.some.injEq] at h
    obtain ⟨unit, hu, ⟨us, r⟩, hr, he⟩ := h
    cases he
    simp only [List.cons_append, scanUnits, hu, ih hr, Option.bind_eq_bind, Option.bind_some]
  | case4 c rest' hu ih =>
    simp only [Option.bind_eq_bind, Option.bind_eq_some_iff, Option.some.injEq] at h
    obtain ⟨unit, hc, ⟨us, r⟩, hr, he⟩ := h
    cases he
    have hne : c ≠ 'u' := by
      rintro rfl
      cases hc
    rw [List.cons_append, List.cons_append, scanUnits]
    · simp only [hc, ih hr, Option.bind_eq_bind, Option.bind_some]
    · rintro a b c' d r' rfl
      exact absurd rfl hne
  | case5 => cases h
  | case6 c rest' h1 h2 h3 hc ih =>
    simp only [Option.bind_eq_bind, Option.bind_eq_some_iff, Option.some.injEq] at h
    obtain ⟨⟨us, r⟩, hr, he⟩ := h
    cases he
    have hq : c ≠ '"' := fun he => h1 he
    have hb : c ≠ '\\' := fun he => hc (Or.inr he)
    rw [List.cons_append, scanUnits]
    · simp only [hc, if_false, ih hr, Option.bind_eq_bind, Option.bind_some]
    · exact hq
    · exact fun a b c' d r' he => absurd he hb
    · exact fun c' r' he => absurd he hb

theorem length_scanUnits (h : scanUnits s = some (units, rest)) : rest.length < s.length := by
  fun_induction scanUnits s generalizing units rest with
  | case1 => cases h
  | case2 rest' => cases h; simp
  | case3 a b c d rest' ih =>
    simp only [Option.bind_eq_bind, Option.bind_eq_some_iff, Option.some.injEq] at h
    obtain ⟨_, -, ⟨us, r⟩, hr, he⟩ := h
    cases he
    have := ih hr
    simp only [List.length_cons]
    omega
  | case4 c rest' hu ih =>
    simp only [Option.bind_eq_bind, Option.bind_eq_some_iff, Option.some.injEq] at h
    obtain ⟨_, -, ⟨us, r⟩, hr, he⟩ := h
    cases he
    have := ih hr
    simp only [List.length_cons]
    omega
  | case5 => cases h
  | case6 c rest' h1 h2 h3 hc ih =>
    simp only [Option.bind_eq_bind, Option.bind_eq_some_iff, Option.some.injEq] at h
    obtain ⟨⟨us, r⟩, hr, he⟩ := h
    cases he
    have := ih hr
    simp only [List.length_cons]
    omega

theorem scanString_append (h : scanString s = some (text, rest)) :
    scanString (s ++ t) = some (text, rest ++ t) := by
  simp only [scanString, Option.map_eq_some_iff] at h ⊢
  obtain ⟨⟨units, r⟩, hu, he⟩ := h
  cases he
  exact ⟨_, scanUnits_append hu, rfl⟩

theorem length_scanString (h : scanString s = some (text, rest)) : rest.length < s.length := by
  simp only [scanString, Option.map_eq_some_iff] at h
  obtain ⟨⟨units, r⟩, hu, he⟩ := h
  cases he
  exact length_scanUnits hu

theorem digitsOf_append (h : (digitsOf s).2 ≠ []) :
    digitsOf (s ++ t) = ((digitsOf s).1, (digitsOf s).2 ++ t) := by
  simp only [digitsOf] at h ⊢
  have hlen : (s.takeWhile Char.isDigit).length ≠ s.length := by
    intro he
    have hall := List.takeWhile_append_dropWhile (p := Char.isDigit) (l := s)
    have hsum := congrArg List.length hall
    rw [List.length_append, he] at hsum
    exact h (List.length_eq_zero_iff.mp (by omega))
  rw [List.takeWhile_append, List.dropWhile_append]
  simp [hlen, h]

theorem length_digitsOf (s : List Char) : (digitsOf s).2.length ≤ s.length :=
  (List.dropWhile_sublist _).length_le

theorem intPart_append (h : intPart s = some (digits, rest)) (hr : rest ≠ []) :
    intPart (s ++ t) = some (digits, rest ++ t) := by
  unfold intPart at h
  split at h
  · cases h
    rfl
  · rename_i c r hc
    split at h
    · rename_i hd
      cases h
      rw [List.cons_append, intPart]
      · rw [if_pos hd, ← List.cons_append, digitsOf_append (s := c :: r) hr]
        rfl
      · exact hc
    · cases h
  · cases h

theorem length_intPart (h : intPart s = some (digits, rest)) : rest.length < s.length := by
  unfold intPart at h
  split at h
  · cases h
    simp
  · rename_i c r hc
    split at h
    · rename_i hd
      cases h
      have hdrop : (digitsOf (c :: r)).2 = (digitsOf r).2 := by
        simp [digitsOf, hd]
      change (digitsOf (c :: r)).2.length < _
      rw [hdrop, List.length_cons]
      exact Nat.lt_succ_of_le (length_digitsOf r)
    · cases h
  · cases h

theorem fraction_append (h : (fraction s).2 ≠ []) (hp : (fraction s).2 ≠ ['.']) :
    fraction (s ++ t) = ((fraction s).1, (fraction s).2 ++ t) := by
  cases s with
  | nil => exact absurd rfl h
  | cons c r =>
    by_cases hc : c = '.'
    · subst hc
      cases r with
      | nil => exact absurd rfl hp
      | cons d r =>
        by_cases hd : d.isDigit
        · simp only [fraction, hd, if_true, List.cons_append] at h ⊢
          rw [← List.cons_append, digitsOf_append h]
        · simp [fraction, hd]
    · have hnone : ∀ r', fraction (c :: r') = ([], c :: r') := by
        intro r'
        unfold fraction
        split
        · rename_i he
          cases he
          exact absurd rfl hc
        · rfl
      rw [List.cons_append, hnone, hnone]
      rfl

theorem length_fraction (s : List Char) : (fraction s).2.length ≤ s.length := by
  unfold fraction
  split
  · split
    · exact (length_digitsOf _).trans (by simp)
    · exact le_refl _
  · exact le_refl _

theorem exponentSign_append (h : s ≠ []) :
    exponentSign (s ++ t) = ((exponentSign s).1, (exponentSign s).2 ++ t) := by
  cases s with
  | nil => exact absurd rfl h
  | cons c r =>
    rw [List.cons_append]
    by_cases hp : c = '+'
    · subst hp; rfl
    · by_cases hm : c = '-'
      · subst hm; rfl
      · have hnone : ∀ r', exponentSign (c :: r') = ([], c :: r') := by
          intro r'
          unfold exponentSign
          split
          · rename_i he; cases he; exact absurd rfl hp
          · rename_i he; cases he; exact absurd rfl hm
          · rfl
        rw [hnone, hnone]
        rfl

theorem length_exponentSign (s : List Char) : (exponentSign s).2.length ≤ s.length := by
  unfold exponentSign
  split <;> simp

theorem exponent_append (h : Closed (exponent s).2) :
    exponent (s ++ t) = ((exponent s).1, (exponent s).2 ++ t) := by
  cases s with
  | nil =>
    obtain ⟨c, r, he, -⟩ := h
    cases he
  | cons e r =>
    simp only [exponent, List.cons_append] at h ⊢
    split at h
    · rename_i hmark
      simp only [hmark, if_true] at h ⊢
      split at h
      · obtain ⟨c, r', he, hc⟩ := h
        cases he
        rcases hmark with rfl | rfl <;> simp [isBlank] at hc
      · rename_i hdigits
        have hne : r ≠ [] := by
          rintro rfl
          exact hdigits rfl
        have hclosed : (digitsOf (exponentSign r).2).2 ≠ [] := by
          obtain ⟨c, r', he, -⟩ := h
          exact fun hn => by rw [hn] at he; cases he
        rw [exponentSign_append hne]
        dsimp only
        rw [digitsOf_append hclosed]
        simp only [hdigits, if_false]
    · rename_i hmark
      simp only [hmark, if_false, List.cons_append]

theorem length_exponent (s : List Char) : (exponent s).2.length ≤ s.length := by
  cases s with
  | nil => exact le_refl _
  | cons e r =>
    simp only [exponent]
    split
    · split
      · exact le_refl _
      · have := (length_digitsOf _).trans (length_exponentSign r)
        simp only [List.length_cons]
        omega
    · exact le_refl _

theorem numberSign_append (h : s ≠ []) :
    numberSign (s ++ t) = ((numberSign s).1, (numberSign s).2 ++ t) := by
  cases s with
  | nil => exact absurd rfl h
  | cons c r =>
    rw [List.cons_append]
    by_cases hc : c = '-'
    · subst hc; rfl
    · have hnone : ∀ r', numberSign (c :: r') = (false, c :: r') := by
        intro r'
        unfold numberSign
        split
        · rename_i he; cases he; exact absurd rfl hc
        · rfl
      rw [hnone, hnone]
      rfl

theorem length_numberSign (s : List Char) : (numberSign s).2.length ≤ s.length := by
  unfold numberSign
  split <;> simp

/-- What a number leaves is what follows its exponent. -/
theorem scanNumber_some (h : scanNumber s = some (v, rest)) :
    ∃ digits s', intPart (numberSign s).2 = some (digits, s') ∧
      rest = (exponent (fraction s').2).2 ∧ isNumber v = true := by
  simp only [scanNumber] at h
  split at h
  · cases h
  · rename_i digits s' hi
    refine ⟨digits, s', hi, ?_⟩
    split at h
    · split at h <;> cases h
      exact ⟨rfl, rfl⟩
    · cases h
      exact ⟨rfl, rfl⟩

theorem scanNumber_append (h : scanNumber s = some (v, rest)) (hr : Closed rest) :
    scanNumber (s ++ t) = some (v, rest ++ t) := by
  obtain ⟨digits, s', hi, rfl, -⟩ := scanNumber_some h
  have hs : s ≠ [] := by
    rintro rfl
    cases hi
  have hf : (fraction s').2 ≠ [] := by
    intro he
    rw [he] at hr
    obtain ⟨c, r, hc, -⟩ := hr
    cases hc
  have hp : (fraction s').2 ≠ ['.'] := by
    intro he
    rw [he] at hr
    obtain ⟨c, r, hc, hd⟩ := hr
    cases hc
    revert hd
    decide
  have hs' : s' ≠ [] := by
    rintro rfl
    exact hf rfl
  simp only [scanNumber, hi] at h
  simp only [scanNumber, numberSign_append hs, intPart_append hi hs', fraction_append hf hp,
    exponent_append hr]
  split at h
  · rename_i hint
    simp only [hint, and_self, if_true]
    split at h
    · cases h
    · rename_i hlen
      cases h
      simp only [hlen, if_false]
  · rename_i hint
    cases h
    simp only [hint, if_false]

theorem length_scanNumber (h : scanNumber s = some (v, rest)) : rest.length < s.length := by
  obtain ⟨digits, s', hi, rfl, -⟩ := scanNumber_some h
  have h1 := length_intPart hi
  have h2 := length_numberSign s
  have h3 := length_fraction s'
  have h4 := length_exponent (fraction s').2
  omega

theorem scanScalar_number (h : scanNumber s = some (v, rest)) : scanScalar s = some (v, rest) := by
  unfold scanScalar
  split <;> first | exact h | cases h

theorem scanScalar_append (h : scanScalar s = some (v, rest))
    (hr : Closed rest ∨ isNumber v = false) : scanScalar (s ++ t) = some (v, rest ++ t) := by
  unfold scanScalar at h
  split at h
  · rename_i r
    simp only [Option.map_eq_some_iff] at h
    obtain ⟨⟨text, r'⟩, hs, he⟩ := h
    cases he
    simp only [List.cons_append, scanScalar, scanString_append hs, Option.map_some]
  · cases h; rfl
  · cases h; rfl
  · cases h; rfl
  · cases h; rfl
  · cases h; rfl
  · cases h; rfl
  · obtain ⟨-, -, -, -, hn⟩ := scanNumber_some h
    exact scanScalar_number (scanNumber_append h (hr.resolve_right (by simp [hn])))

theorem length_scanScalar (h : scanScalar s = some (v, rest)) : rest.length < s.length := by
  unfold scanScalar at h
  split at h
  · simp only [Option.map_eq_some_iff] at h
    obtain ⟨⟨text, r'⟩, hs, he⟩ := h
    cases he
    exact (length_scanString hs).trans (by simp)
  · cases h; simp only [List.length_cons]; omega
  · cases h; simp only [List.length_cons]; omega
  · cases h; simp only [List.length_cons]; omega
  · cases h; simp only [List.length_cons]; omega
  · cases h; simp only [List.length_cons]; omega
  · cases h; simp only [List.length_cons]; omega
  · exact length_scanNumber h

/-- A reader that consumes and that text further on does not mislead. -/
structure Local (value : List Char → Option (JsonValue × List Char)) : Prop where
  shorter : ∀ s v rest, value s = some (v, rest) → rest.length < s.length
  append : ∀ s v rest t, value s = some (v, rest) → Closed rest ∨ isNumber v = false →
    value (s ++ t) = some (v, rest ++ t)

variable {value : List Char → Option (JsonValue × List Char)} {n m : Nat}

theorem skipBlanks_tail {c : Char} (h : skipBlanks s = c :: rest) (t : List Char) :
    skipBlanks (s ++ t) = c :: (rest ++ t) := by
  rw [skipBlanks_append (by rw [h]; simp), h, List.cons_append]

theorem arrayItems_append (hv : Local value) {vs : List JsonValue}
    (h : arrayItems value n s = some (vs, rest)) (hm : n ≤ m) :
    arrayItems value m (s ++ t) = some (vs, rest ++ t) := by
  induction n generalizing m s vs rest with
  | zero => cases h
  | succ n ih =>
    obtain ⟨m, rfl⟩ : ∃ k, m = k + 1 := ⟨m - 1, by omega⟩
    simp only [arrayItems, Option.bind_eq_bind, Option.bind_eq_some_iff] at h
    obtain ⟨⟨v, r⟩, hval, h⟩ := h
    dsimp only at h
    split at h
    · rename_i hb
      cases h
      have := hv.append s v r t hval (Or.inl (closed_of_skipBlanks hb (by simp)))
      simp only [arrayItems, this, Option.bind_eq_bind, Option.bind_some, skipBlanks_tail hb]
    · rename_i r' hb
      simp only [Option.bind_eq_some_iff, Option.some.injEq] at h
      obtain ⟨⟨vs', r''⟩, hrest, he⟩ := h
      cases he
      have := hv.append s v r t hval (Or.inl (closed_of_skipBlanks hb (by simp)))
      have hne : skipBlanks r' ≠ [] := by
        intro he
        rw [he] at hrest
        cases n with
        | zero => cases hrest
        | succ n =>
          simp only [arrayItems, Option.bind_eq_bind, Option.bind_eq_some_iff] at hrest
          obtain ⟨⟨w, q⟩, hw, -⟩ := hrest
          exact absurd (hv.shorter _ _ _ hw) (by simp)
      simp only [arrayItems, this, Option.bind_eq_bind, Option.bind_some, skipBlanks_tail hb,
        skipBlanks_append hne, ih hrest (by omega : n ≤ m)]
    · cases h

theorem length_arrayItems (hv : Local value) {vs : List JsonValue}
    (h : arrayItems value n s = some (vs, rest)) : rest.length < s.length := by
  induction n generalizing s vs rest with
  | zero => cases h
  | succ n ih =>
    simp only [arrayItems, Option.bind_eq_bind, Option.bind_eq_some_iff] at h
    obtain ⟨⟨v, r⟩, hval, h⟩ := h
    have hlen := hv.shorter _ _ _ hval
    have hblank := length_skipBlanks r
    dsimp only at h
    split at h
    · rename_i hb
      cases h
      rw [hb, List.length_cons] at hblank
      omega
    · rename_i r' hb
      simp only [Option.bind_eq_some_iff, Option.some.injEq] at h
      obtain ⟨⟨vs', r''⟩, hrest, he⟩ := h
      cases he
      have hnext := ih hrest
      have hblank' := length_skipBlanks r'
      rw [hb, List.length_cons] at hblank
      dsimp only
      omega
    · cases h

theorem objectItems_append (hv : Local value) {fields : List (Text × JsonValue)}
    (h : objectItems value n s = some (fields, rest)) (hm : n ≤ m) :
    objectItems value m (s ++ t) = some (fields, rest ++ t) := by
  induction n generalizing m s fields rest with
  | zero => cases h
  | succ n ih =>
    obtain ⟨m, rfl⟩ : ∃ k, m = k + 1 := ⟨m - 1, by omega⟩
    unfold objectItems at h
    split at h
    · rename_i n' s' he
      cases he
      simp only [Option.bind_eq_bind, Option.bind_eq_some_iff] at h
      obtain ⟨⟨key, r⟩, hkey, h⟩ := h
      dsimp only at h
      split at h
      · rename_i r' hcolon
        simp only [Option.bind_eq_some_iff] at h
        obtain ⟨⟨v, q⟩, hval, h⟩ := h
        have hne : skipBlanks r' ≠ [] := by
          intro he
          rw [he] at hval
          exact absurd (hv.shorter _ _ _ hval) (by simp)
        dsimp only at h
        split at h
        · rename_i q' hb
          cases h
          have := hv.append _ v q t hval (Or.inl (closed_of_skipBlanks hb (by simp)))
          simp only [List.cons_append, objectItems, scanString_append hkey, Option.bind_eq_bind,
            Option.bind_some, skipBlanks_tail hcolon, skipBlanks_append hne, this,
            skipBlanks_tail hb]
        · rename_i q' hb
          simp only [Option.bind_eq_some_iff, Option.some.injEq] at h
          obtain ⟨⟨fields', q''⟩, hrest, he⟩ := h
          cases he
          have := hv.append _ v q t hval (Or.inl (closed_of_skipBlanks hb (by simp)))
          have hne' : skipBlanks q' ≠ [] := by
            intro he
            rw [he] at hrest
            cases n <;> cases hrest
          simp only [List.cons_append, objectItems, scanString_append hkey, Option.bind_eq_bind,
            Option.bind_some, skipBlanks_tail hcolon, skipBlanks_append hne, this,
            skipBlanks_tail hb, skipBlanks_append hne', ih hrest (by omega : n ≤ m)]
        · cases h
      · cases h
    · cases h

theorem length_objectItems (hv : Local value) {fields : List (Text × JsonValue)}
    (h : objectItems value n s = some (fields, rest)) : rest.length < s.length := by
  induction n generalizing s fields rest with
  | zero => cases h
  | succ n ih =>
    unfold objectItems at h
    split at h
    · rename_i n' s' he
      cases he
      simp only [Option.bind_eq_bind, Option.bind_eq_some_iff] at h
      obtain ⟨⟨key, r⟩, hkey, h⟩ := h
      have hlen := length_scanString hkey
      have hblank := length_skipBlanks r
      dsimp only at h
      split at h
      · rename_i r' hcolon
        simp only [Option.bind_eq_some_iff] at h
        obtain ⟨⟨v, q⟩, hval, h⟩ := h
        have hlen' := hv.shorter _ _ _ hval
        have hblank' := length_skipBlanks r'
        have hblank'' := length_skipBlanks q
        rw [hcolon, List.length_cons] at hblank
        dsimp only at h
        split at h
        · rename_i q' hb
          cases h
          rw [hb, List.length_cons] at hblank''
          simp only [List.length_cons]
          omega
        · rename_i q' hb
          simp only [Option.bind_eq_some_iff, Option.some.injEq] at h
          obtain ⟨⟨fields', q''⟩, hrest, he⟩ := h
          cases he
          have hnext := ih hrest
          have hblank''' := length_skipBlanks q'
          rw [hb, List.length_cons] at hblank''
          simp only [List.length_cons]
          omega
        · cases h
      · cases h
    · cases h

theorem scanObject_append (hv : Local value) (h : scanObject value s = some (v, rest)) :
    scanObject value (s ++ t) = some (v, rest ++ t) := by
  unfold scanObject at h
  split at h
  · rename_i r hb
    cases h
    simp only [scanObject, skipBlanks_tail hb]
  · rename_i hb
    simp only [Option.map_eq_some_iff] at h
    obtain ⟨⟨fields, r⟩, hitems, he⟩ := h
    cases he
    have hne : skipBlanks s ≠ [] := by
      intro he
      rw [he] at hitems
      cases hitems
    have happ := objectItems_append (t := t) (m := (skipBlanks s ++ t).length + 1) hv hitems
      (by rw [List.length_append]; omega)
    unfold scanObject
    rw [skipBlanks_append hne]
    split
    · rename_i r' he
      obtain ⟨c, r'', hc⟩ := List.exists_cons_of_ne_nil hne
      rw [hc] at he hb
      cases he
      exact absurd rfl (hb r'')
    · rw [happ]
      rfl

theorem length_scanObject (hv : Local value) (h : scanObject value s = some (v, rest)) :
    rest.length < s.length := by
  have hblank := length_skipBlanks s
  unfold scanObject at h
  split at h
  · rename_i r hb
    cases h
    rw [hb, List.length_cons] at hblank
    omega
  · simp only [Option.map_eq_some_iff] at h
    obtain ⟨⟨fields, r⟩, hitems, he⟩ := h
    cases he
    have := length_objectItems hv hitems
    dsimp only
    omega

theorem scanArray_append (hv : Local value) (h : scanArray value s = some (v, rest)) :
    scanArray value (s ++ t) = some (v, rest ++ t) := by
  unfold scanArray at h
  split at h
  · rename_i r hb
    cases h
    simp only [scanArray, skipBlanks_tail hb]
  · rename_i hb
    simp only [Option.map_eq_some_iff] at h
    obtain ⟨⟨items, r⟩, hitems, he⟩ := h
    cases he
    have hne : skipBlanks s ≠ [] := by
      intro he
      have := length_arrayItems hv hitems
      rw [he] at this
      simp at this
    have happ := arrayItems_append (t := t) (m := (skipBlanks s ++ t).length + 1) hv hitems
      (by rw [List.length_append]; omega)
    unfold scanArray
    rw [skipBlanks_append hne]
    split
    · rename_i r' he
      obtain ⟨c, r'', hc⟩ := List.exists_cons_of_ne_nil hne
      rw [hc] at he hb
      cases he
      exact absurd rfl (hb r'')
    · rw [happ]
      rfl

theorem length_scanArray (hv : Local value) (h : scanArray value s = some (v, rest)) :
    rest.length < s.length := by
  have hblank := length_skipBlanks s
  unfold scanArray at h
  split at h
  · rename_i r hb
    cases h
    rw [hb, List.length_cons] at hblank
    omega
  · simp only [Option.map_eq_some_iff] at h
    obtain ⟨⟨items, r⟩, hitems, he⟩ := h
    cases he
    have := length_arrayItems hv hitems
    dsimp only
    omega

theorem scanOnce_scalar (d : Nat) (hb : ∀ r, s ≠ '{' :: r) (hk : ∀ r, s ≠ '[' :: r) :
    scanOnce d s = scanScalar s := by
  unfold scanOnce
  split
  · exact absurd rfl (hb _)
  · exact absurd rfl (hk _)
  · exact absurd rfl (hb _)
  · exact absurd rfl (hk _)
  · rfl

/-- A text that reads as a scalar does so with more text behind it. -/
theorem scanOnce_scalar_append (d : Nat) (hb : ∀ r, s ≠ '{' :: r) (hk : ∀ r, s ≠ '[' :: r)
    (h : scanOnce d s = some (v, rest)) (hr : Closed rest ∨ isNumber v = false) :
    scanOnce d (s ++ t) = some (v, rest ++ t) := by
  rw [scanOnce_scalar d hb hk] at h
  cases s with
  | nil => cases h
  | cons c r =>
    rw [scanOnce_scalar d]
    · exact scanScalar_append h hr
    · intro r' he
      cases he
      exact hb _ rfl
    · intro r' he
      cases he
      exact hk _ rfl

/-- Text after a value leaves it alone, and each level of nesting keeps this
of the one inside it. -/
theorem local_scanOnce (depth : Nat) : Local (scanOnce depth) := by
  induction depth with
  | zero =>
    constructor
    · intro s v rest h
      by_cases hb : ∃ r, s = '{' :: r
      · obtain ⟨r, rfl⟩ := hb
        cases h
      by_cases hk : ∃ r, s = '[' :: r
      · obtain ⟨r, rfl⟩ := hk
        cases h
      rw [scanOnce_scalar 0 (not_exists.mp hb) (not_exists.mp hk)] at h
      exact length_scanScalar h
    · intro s v rest t h hr
      by_cases hb : ∃ r, s = '{' :: r
      · obtain ⟨r, rfl⟩ := hb
        cases h
      by_cases hk : ∃ r, s = '[' :: r
      · obtain ⟨r, rfl⟩ := hk
        cases h
      exact scanOnce_scalar_append 0 (not_exists.mp hb) (not_exists.mp hk) h hr
  | succ d ih =>
    constructor
    · intro s v rest h
      by_cases hb : ∃ r, s = '{' :: r
      · obtain ⟨r, rfl⟩ := hb
        exact (length_scanObject ih h).trans (by simp)
      by_cases hk : ∃ r, s = '[' :: r
      · obtain ⟨r, rfl⟩ := hk
        exact (length_scanArray ih h).trans (by simp)
      rw [scanOnce_scalar (d + 1) (not_exists.mp hb) (not_exists.mp hk)] at h
      exact length_scanScalar h
    · intro s v rest t h hr
      by_cases hb : ∃ r, s = '{' :: r
      · obtain ⟨r, rfl⟩ := hb
        exact scanObject_append ih h
      by_cases hk : ∃ r, s = '[' :: r
      · obtain ⟨r, rfl⟩ := hk
        exact scanArray_append ih h
      exact scanOnce_scalar_append (d + 1) (not_exists.mp hb) (not_exists.mp hk) h hr

end Sediment.Base.JsonScan

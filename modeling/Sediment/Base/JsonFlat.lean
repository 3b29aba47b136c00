import Sediment.Base.DecimalNumbers
import Sediment.Base.JsonDumps

namespace Sediment.Base.JsonScan

def isConstant (s : List Char) : Bool :=
  "NaN".toList.isPrefixOf s || "Infinity".toList.isPrefixOf s || "-Infinity".toList.isPrefixOf s

/-- Scalars, with `parse_constant` raising. -/
def strictScalar (s : List Char) : Option (JsonValue × List Char) :=
  if isConstant s then none else scanScalar s

/-- Objects, with an `object_pairs_hook` that raises for a repeated key. -/
def strictObject (value : List Char → Option (JsonValue × List Char)) (s : List Char) :
    Option (JsonValue × List Char) :=
  match skipBlanks s with
  | '}' :: rest => some (.obj [], rest)
  | s => (objectItems value (s.length + 1) s).bind (fun (fields, rest) =>
      if (fields.map Prod.fst).Nodup then some (.obj fields, rest) else none)

def strictOnce (depth : Nat) (s : List Char) : Option (JsonValue × List Char) :=
  match depth, s with
  | 0, '{' :: _ => none
  | 0, '[' :: _ => none
  | d + 1, '{' :: rest => strictObject (strictOnce d) rest
  | d + 1, '[' :: rest => scanArray (strictOnce d) rest
  | _, s => strictScalar s
termination_by structural depth

/-- No object of the value repeats a key. -/
def distinctKeys : JsonValue → Bool
  | .arr items => itemsDistinct items
  | .obj fields => (fields.map Prod.fst).Nodup && fieldsDistinct fields
  | _ => true
where
  itemsDistinct : List JsonValue → Bool
    | [] => true
    | item :: rest => distinctKeys item && itemsDistinct rest
  fieldsDistinct : List (Text × JsonValue) → Bool
    | [] => true
    | (_, value) :: rest => distinctKeys value && fieldsDistinct rest

/-- Neither hook raises for a value of which all pairs and constants are known. -/
def hooked (v : JsonValue) : Bool := distinctKeys v && v.allFloats (fun text => !isConstant text)

/-- `json.loads` with both hooks; `none` stands for every error. -/
def strictLoads (limit : Nat) (s : List Char) : Option JsonValue :=
  if s.head? = some '\uFEFF' then none
  else
    (strictOnce limit (skipBlanks s)).bind (fun (v, rest) =>
      if skipBlanks rest = [] then some v else none)

def commaJoined : List (List Char) → List Char
  | [] => []
  | [item] => item
  | item :: rest => item ++ ',' :: commaJoined rest

def fieldText (f : Text × List Char) : List Char := quoteText f.1 ++ ':' :: f.2

/-- `json.dumps` without blanks, of fields whose values are already written. -/
def flatText (fields : List (Text × List Char)) : List Char :=
  '{' :: commaJoined (fields.map fieldText) ++ ['}']

/-- A written scalar that is no constant. -/
structure Stays (text : List Char) (v : JsonValue) : Prop where
  head : ∃ c s, text = c :: s ∧ (c = '"' ∨ c.isDigit = true)
  reads : ∀ rest, Closed rest → scanScalar (text ++ rest) = some (v, rest)

theorem stays_quoted (t : Text) : Stays (quoteText t) (.str (reread t)) where
  head := ⟨'"', _, rfl, Or.inl rfl⟩
  reads := by
    intro rest _
    obtain ⟨tail, he, hs⟩ := scanString_quoteText t rest
    rw [he, scanScalar, hs]
    rfl

theorem stays_str {t : Text} (h : reread t = t) : Stays (quoteText t) (.str t) := by
  have hquoted := stays_quoted t
  rwa [h] at hquoted

theorem decimal_ofDigitChars (digits : List Char) (n : Nat) :
    digits.foldl (fun n c => n * 10 + (c.toNat - 48)) n = Nat.ofDigitChars 10 digits n := by
  induction digits generalizing n with
  | nil => simp
  | cons c digits ih =>
    rw [List.foldl_cons, ih, Nat.ofDigitChars_cons, Nat.mul_comm]
    rfl

theorem closed_plain {c : Char} (h : (isBlank c ∨ c = ',' ∨ c = ']' ∨ c = '}' : Bool) = true) :
    c.isDigit = false ∧ c ≠ '.' ∧ c ≠ 'e' ∧ c ≠ 'E' := by
  simp only [isBlank, Bool.or_eq_true, beq_iff_eq, decide_eq_true_eq] at h
  rcases h with (((rfl | rfl) | rfl) | rfl) | rfl | rfl | rfl <;> decide

theorem intPart_toDigits (n : Nat) {c : Char} (hc : c.isDigit = false) (rest : List Char) :
    intPart (Nat.toDigits 10 n ++ c :: rest) = some (Nat.toDigits 10 n, c :: rest) := by
  have hdigit : ∀ c ∈ Nat.toDigits 10 n, c.isDigit = true :=
    fun c hc => Nat.isDigit_of_mem_toDigits (by decide) (by decide) hc
  have hspan : digitsOf (Nat.toDigits 10 n ++ c :: rest) = (Nat.toDigits 10 n, c :: rest) := by
    rw [digitsOf, List.takeWhile_append_of_pos hdigit, List.dropWhile_append_of_pos hdigit,
      List.takeWhile_cons_of_neg (by simp [hc]), List.dropWhile_cons_of_neg (by simp [hc]),
      List.append_nil]
  by_cases hz : n = 0
  · subst hz
    rfl
  · obtain ⟨d, tail, hcut, hdig, hne⟩ := DecimalNumbers.toDigits_head hz
    rw [← hspan, hcut, List.cons_append, intPart]
    · rw [if_pos hdig]
    · intro h
      exact absurd h hne

theorem toDigits_cons (n : Nat) : ∃ d tail, Nat.toDigits 10 n = d :: tail ∧ d.isDigit = true := by
  obtain ⟨d, tail, hcut⟩ := List.exists_cons_of_ne_nil (Nat.toDigits_ne_nil (n := n) (b := 10))
  refine ⟨d, tail, hcut, Nat.isDigit_of_mem_toDigits (b := 10) (n := n) (by decide) (by decide) ?_⟩
  rw [hcut]
  exact List.mem_cons_self

theorem numberSign_toDigits (n : Nat) (rest : List Char) :
    numberSign (Nat.toDigits 10 n ++ rest) = (false, Nat.toDigits 10 n ++ rest) := by
  obtain ⟨d, tail, hcut, hd⟩ := toDigits_cons n
  rw [hcut, List.cons_append, numberSign]
  intro rest heq
  cases heq
  exact absurd hd (by decide)

theorem stays_nat {n : Nat} (hn : n < 10 ^ intMaxStrDigits) :
    Stays (Nat.toDigits 10 n) (.int n) := by
  obtain ⟨d, tail, hcut, hd⟩ := toDigits_cons n
  refine ⟨⟨d, tail, hcut, Or.inr hd⟩, ?_⟩
  rintro rest ⟨c, r, rfl, hc⟩
  obtain ⟨hc, hp, he, hE⟩ := closed_plain hc
  have hfrac : fraction (c :: r) = ([], c :: r) := by
    unfold fraction
    split
    · rename_i heq
      cases heq
      exact absurd rfl hp
    · rfl
  have hexp : exponent (c :: r) = ([], c :: r) := by simp [exponent, he, hE]
  have hlen : (Nat.toDigits 10 n).length ≤ intMaxStrDigits :=
    (Nat.length_toDigits_le_iff (by decide) (by decide)).mpr hn
  have hvalue : decimal (Nat.toDigits 10 n) = n := by
    rw [decimal, decimal_ofDigitChars, Nat.ofDigitChars_ten_toDigits]
  apply scanScalar_number
  simp only [scanNumber, numberSign_toDigits, intPart_toDigits n hc, hfrac, hexp, and_self, if_true]
  rw [if_neg (not_lt.mpr hlen), hvalue]
  rfl

/-- A float that is a whole number, as `repr` writes it. -/
theorem stays_whole (n : Nat) :
    Stays (Nat.toDigits 10 n ++ ".0".toList) (.float (Nat.toDigits 10 n ++ ".0".toList)) := by
  have hpoint : ".0".toList = ['.', '0'] := by decide
  rw [hpoint]
  obtain ⟨d, tail, hcut, hd⟩ := toDigits_cons n
  refine ⟨⟨d, tail ++ ['.', '0'], by rw [hcut]; rfl, Or.inr hd⟩, ?_⟩
  rintro rest ⟨c, r, rfl, hc⟩
  obtain ⟨hc, hp, he, hE⟩ := closed_plain hc
  have hspan : digitsOf ('0' :: c :: r) = (['0'], c :: r) := by
    rw [digitsOf, List.takeWhile_cons_of_pos (by decide), List.dropWhile_cons_of_pos (by decide),
      List.takeWhile_cons_of_neg (by simp [hc]), List.dropWhile_cons_of_neg (by simp [hc])]
  have hfrac : fraction ('.' :: '0' :: c :: r) = (['.', '0'], c :: r) := by
    rw [fraction, if_pos (by decide), hspan]
  have hexp : exponent (c :: r) = ([], c :: r) := by simp [exponent, he, hE]
  have hint := intPart_toDigits n (c := '.') (by decide) ('0' :: c :: r)
  rw [List.append_assoc, List.cons_append, List.singleton_append]
  apply scanScalar_number
  simp only [scanNumber, numberSign_toDigits, hint, hfrac, hexp]
  simp

/-- A written scalar, told by its first character from all else that a text may start with. -/
structure Scans (text : List Char) (v : JsonValue) : Prop where
  head : ∃ c s, text = c :: s ∧ isBlank c = false ∧ c ∉ ['\x7b', '[', 'N', 'I', '-']
  reads : ∀ rest, Closed rest → scanScalar (text ++ rest) = some (v, rest)

theorem Stays.scans {text : List Char} {v : JsonValue} (h : Stays text v) : Scans text v := by
  obtain ⟨c, s, rfl, hc⟩ := h.head
  refine ⟨⟨c, s, rfl, ?_, ?_⟩, h.reads⟩
  · by_contra hb
    simp only [Bool.not_eq_false, isBlank, Bool.or_eq_true, beq_iff_eq] at hb
    rcases hb with ((rfl | rfl) | rfl) | rfl <;> exact absurd hc (by decide)
  · intro hmem
    simp only [List.mem_cons, List.not_mem_nil, or_false] at hmem
    rcases hmem with rfl | rfl | rfl | rfl | rfl <;> exact absurd hc (by decide)

theorem scans_true : Scans "true".toList (.bool true) where
  head := ⟨'t', ['r', 'u', 'e'], rfl, by decide, by decide⟩
  reads _ _ := rfl

theorem scans_false : Scans "false".toList (.bool false) where
  head := ⟨'f', ['a', 'l', 's', 'e'], rfl, by decide, by decide⟩
  reads _ _ := rfl

theorem strictScalar_scans {text : List Char} {v : JsonValue} (h : Scans text v)
    {rest : List Char} (hr : Closed rest) : strictScalar (text ++ rest) = some (v, rest) := by
  obtain ⟨c, s, rfl, -, hc⟩ := h.head
  have hfirst : isConstant (c :: s ++ rest) = false := by
    simp only [List.mem_cons, List.not_mem_nil, or_false, not_or] at hc
    simp [isConstant, List.isPrefixOf, Ne.symm hc.2.2.1, Ne.symm hc.2.2.2.1,
      Ne.symm hc.2.2.2.2]
  rw [strictScalar, hfirst]
  exact h.reads rest hr

theorem strictOnce_scalar {s : List Char} (d : Nat) (hb : ∀ r, s ≠ '\x7b' :: r)
    (hk : ∀ r, s ≠ '[' :: r) : strictOnce d s = strictScalar s := by
  unfold strictOnce
  split
  · exact absurd rfl (hb _)
  · exact absurd rfl (hk _)
  · exact absurd rfl (hb _)
  · exact absurd rfl (hk _)
  · rfl

theorem strictOnce_reads {text : List Char} {v : JsonValue} (h : Scans text v) (d : Nat)
    {rest : List Char} (hr : Closed rest) : strictOnce d (text ++ rest) = some (v, rest) := by
  have hs := strictScalar_scans h hr
  obtain ⟨c, s, rfl, -, hc⟩ := h.head
  simp only [List.mem_cons, List.not_mem_nil, or_false, not_or] at hc
  rw [strictOnce_scalar d, hs]
  · intro r heq
    exact hc.1 (List.cons.inj heq).1
  · intro r heq
    exact hc.2.1 (List.cons.inj heq).1

/-- One field of a flat object and what it stands for. -/
structure FieldStays (f : Text × List Char) (p : Text × JsonValue) : Prop where
  key : p.1 = f.1
  plain : reread f.1 = f.1
  value : Stays f.2 p.2

/-- One field whose value is any scalar. -/
structure FieldScans (f : Text × List Char) (p : Text × JsonValue) : Prop where
  key : p.1 = f.1
  plain : reread f.1 = f.1
  value : Scans f.2 p.2

theorem FieldStays.scans {f : Text × List Char} {p : Text × JsonValue} (h : FieldStays f p) :
    FieldScans f p := ⟨h.key, h.plain, h.value.scans⟩

theorem scans_not_blank {text : List Char} {v : JsonValue} (h : Scans text v)
    (rest : List Char) : skipBlanks (text ++ rest) = text ++ rest := by
  obtain ⟨c, s, rfl, hc, -⟩ := h.head
  rw [List.cons_append, skipBlanks_cons hc]

theorem length_commaJoined (items : List (List Char)) (h : ∀ item ∈ items, item ≠ []) :
    items.length ≤ (commaJoined items).length := by
  induction items with
  | nil => simp
  | cons item rest ih =>
    have hitem := List.length_pos_of_ne_nil (h item (by simp))
    have := ih (fun x hx => h x (by simp [hx]))
    cases rest with
    | nil => exact hitem
    | cons next rest =>
      simp only [commaJoined, List.length_append, List.length_cons] at this ⊢
      omega

theorem objectItems_flat {f : Text × List Char} {p : Text × JsonValue}
    {fs : List (Text × List Char)} {ps : List (Text × JsonValue)} {d n : Nat}
    (h : FieldScans f p) (hs : List.Forall₂ FieldScans fs ps) (hn : fs.length < n)
    (rest : List Char) :
    objectItems (strictOnce d) n (commaJoined ((f :: fs).map fieldText) ++ '\x7d' :: rest) =
      some (p :: ps, rest) := by
  have hfield : ∀ {f : Text × List Char} {p : Text × JsonValue} (tail : List Char),
      FieldScans f p → Closed tail → ∃ s, fieldText f ++ tail = '"' :: s ∧
        scanString s = some (p.1, ':' :: (f.2 ++ tail)) ∧
        skipBlanks (f.2 ++ tail) = f.2 ++ tail ∧
        strictOnce d (f.2 ++ tail) = some (p.2, tail) := by
    intro f p tail h htail
    obtain ⟨s, he, hs⟩ := scanString_quoteText f.1 (':' :: (f.2 ++ tail))
    refine ⟨s, ?_, ?_, scans_not_blank h.value tail, strictOnce_reads h.value d htail⟩
    · rw [← he]
      simp [fieldText]
    · rw [hs, h.key]
      congr 2
      exact h.plain
  induction hs generalizing n f p with
  | nil =>
    obtain ⟨n, rfl⟩ : ∃ k, n = k + 1 := ⟨n - 1, by omega⟩
    obtain ⟨s, he, hstr, hskip, hval⟩ := hfield ('\x7d' :: rest) h ⟨'\x7d', rest, rfl, by decide⟩
    simp only [List.map_cons, List.map_nil, commaJoined, he, objectItems, hstr,
      Option.bind_eq_bind, Option.bind_some, skipBlanks_cons (c := ':') (by decide), hskip, hval,
      skipBlanks_cons (c := '\x7d') (by decide)]
  | @cons f' p' fs ps hp hs ih =>
    obtain ⟨n, rfl⟩ : ∃ k, n = k + 1 := ⟨n - 1, by omega⟩
    rw [List.length_cons] at hn
    have hrest := ih hp (n := n) (by omega)
    obtain ⟨s, he, hstr, hskip, hval⟩ := hfield
      (',' :: (commaJoined ((f' :: fs).map fieldText) ++ '\x7d' :: rest)) h ⟨',', _, rfl, by decide⟩
    have hnext : skipBlanks (commaJoined ((f' :: fs).map fieldText) ++ '\x7d' :: rest) =
        commaJoined ((f' :: fs).map fieldText) ++ '\x7d' :: rest := by
      obtain ⟨t, ht⟩ : ∃ t, commaJoined ((f' :: fs).map fieldText) = '"' :: t := by
        cases fs <;> exact ⟨_, rfl⟩
      rw [ht, List.cons_append, skipBlanks_cons (by decide)]
    rw [List.map_cons] at hrest he hstr hskip hval hnext
    rw [List.map_cons, List.map_cons, commaJoined]
    · rw [List.append_assoc, List.cons_append, he]
      simp only [objectItems, hstr, Option.bind_eq_bind, Option.bind_some,
        skipBlanks_cons (c := ':') (by decide), hskip, hval,
        skipBlanks_cons (c := ',') (by decide), hnext, hrest]
    · simp

/-- A flat object whose keys differ is read as it was written. -/
theorem strictOnce_flat {fs : List (Text × List Char)} {ps : List (Text × JsonValue)} {d : Nat}
    (hs : List.Forall₂ FieldScans fs ps) (hkeys : (ps.map Prod.fst).Nodup) (rest : List Char) :
    strictOnce (d + 1) (flatText fs ++ rest) = some (.obj ps, rest) := by
  have htext : flatText fs ++ rest = '\x7b' :: (commaJoined (fs.map fieldText) ++ '\x7d' :: rest) := by
    simp [flatText]
  rw [htext]
  change strictObject (strictOnce d) _ = _
  cases hs with
  | nil => rfl
  | @cons f p fs ps hp hs =>
    have hne : ∀ item ∈ (f :: fs).map fieldText, item ≠ [] := by
      intro item hm
      obtain ⟨g, -, rfl⟩ := List.mem_map.mp hm
      simp [fieldText, quoteText]
    have hlen := length_commaJoined _ hne
    rw [List.length_map, List.length_cons] at hlen
    have hitems := objectItems_flat (d := d) hp hs
      (n := (commaJoined ((f :: fs).map fieldText) ++ '\x7d' :: rest).length + 1)
      (by rw [List.length_append]; omega) rest
    obtain ⟨t, ht⟩ : ∃ t, commaJoined ((f :: fs).map fieldText) = '"' :: t := by
      cases fs <;> exact ⟨_, rfl⟩
    have hskip : skipBlanks (commaJoined ((f :: fs).map fieldText) ++ '\x7d' :: rest) =
        commaJoined ((f :: fs).map fieldText) ++ '\x7d' :: rest := by
      rw [ht, List.cons_append, skipBlanks_cons (by decide)]
    unfold strictObject
    rw [hskip]
    split
    · rename_i r he
      rw [ht] at he
      cases he
    · rw [hitems]
      simp only [Option.bind_some]
      rw [if_pos hkeys]

theorem strictLoads_fields {fs : List (Text × List Char)} {ps : List (Text × JsonValue)} {d : Nat}
    (hs : List.Forall₂ FieldScans fs ps) (hkeys : (ps.map Prod.fst).Nodup) {rest : List Char}
    (hrest : skipBlanks rest = []) : strictLoads (d + 1) (flatText fs ++ rest) = some (.obj ps) := by
  have hhead : flatText fs ++ rest = '\x7b' :: (commaJoined (fs.map fieldText) ++ '\x7d' :: rest) := by
    simp [flatText]
  have hskip : skipBlanks (flatText fs ++ rest) = flatText fs ++ rest := by
    rw [hhead, skipBlanks_cons (by decide)]
  have hmark : (flatText fs ++ rest).head? ≠ some '\uFEFF' := by
    rw [hhead]
    simp
  rw [strictLoads, if_neg hmark, hskip, strictOnce_flat hs hkeys]
  simp only [Option.bind_some]
  rw [if_pos hrest]

theorem strictLoads_flat {fs : List (Text × List Char)} {ps : List (Text × JsonValue)} {d : Nat}
    (hs : List.Forall₂ FieldStays fs ps) (hkeys : (ps.map Prod.fst).Nodup) {rest : List Char}
    (hrest : skipBlanks rest = []) : strictLoads (d + 1) (flatText fs ++ rest) = some (.obj ps) :=
  strictLoads_fields (hs.imp (fun _ _ h => h.scans)) hkeys hrest

/-- How a text is reread: a code point stays, or one beyond the units stands for it, or for two
surrogates side by side. -/
inductive Joins : Text → Text → Prop
  | nil : Joins [] []
  | keep {n : Nat} {t u : Text} (h : Joins t u) : Joins (n :: t) (n :: u)
  | wide {n m : Nat} {t u : Text} (hm : 65536 ≤ m) (h : Joins t u) : Joins (n :: t) (m :: u)
  | pair {high low m : Nat} {t u : Text} (hm : 65536 ≤ m) (h : Joins t u) :
      Joins (high :: low :: t) (m :: u)

theorem reread_joins (t : Text) : Joins t (reread t) := by
  have hgo : ∀ (k : Nat) (t : Text), t.length ≤ k → Joins t (reread t) := by
    intro k
    induction k with
    | zero =>
      intro t ht
      rw [List.length_eq_zero_iff.mp (Nat.le_zero.mp ht)]
      exact .nil
    | succ k ih =>
      intro t ht
      cases t with
      | nil => exact .nil
      | cons n t =>
        rw [List.length_cons] at ht
        have hrest := ih t (by omega)
        by_cases hn : n < 65536
        · cases t with
          | nil =>
            have hone : reread [n] = [n] := by
              rw [reread, List.flatMap_singleton, utf16, if_pos hn]
              rfl
            rw [hone]
            exact .keep .nil
          | cons m t =>
            have hunits : reread (n :: m :: t) =
                joinSurrogates (n :: (m :: t).flatMap utf16) := by
              rw [reread, List.flatMap_cons, utf16, if_pos hn, List.singleton_append]
            have hstay : ∀ {next : Nat} {more : List Nat},
                (m :: t).flatMap utf16 = next :: more →
                ¬(55296 ≤ n ∧ n < 56320 ∧ 56320 ≤ next ∧ next < 57344) →
                reread (n :: m :: t) = n :: reread (m :: t) := by
              intro next more hnext hno
              rw [hunits, hnext, joinSurrogates, if_neg hno, ← hnext]
              rfl
            by_cases hm : m < 65536
            · have hnext : (m :: t).flatMap utf16 = m :: t.flatMap utf16 := by
                rw [List.flatMap_cons, utf16, if_pos hm, List.singleton_append]
              by_cases hpair : 55296 ≤ n ∧ n < 56320 ∧ 56320 ≤ m ∧ m < 57344
              · rw [hunits, hnext, joinSurrogates, if_pos hpair]
                rw [List.length_cons] at ht
                exact .pair (by omega) (ih t (by omega))
              · rw [hstay hnext hpair]
                exact .keep hrest
            · have hnext : (m :: t).flatMap utf16 = (55296 + (m - 65536) / 1024 % 1024) ::
                  (56320 + (m - 65536) % 1024) :: t.flatMap utf16 := by
                rw [List.flatMap_cons, utf16, if_neg hm]
                rfl
              rw [hstay hnext (by omega)]
              exact .keep hrest
        · have hwide : reread (n :: t) = (65536 + (55296 + (n - 65536) / 1024 % 1024 - 55296) * 1024 +
              (56320 + (n - 65536) % 1024 - 56320)) :: reread t := by
            rw [reread, List.flatMap_cons, utf16, if_neg hn]
            simp only [List.cons_append, List.nil_append]
            rw [joinSurrogates, if_pos (by omega)]
            rfl
          rw [hwide]
          exact .wide (by omega) hrest
  exact hgo t.length t le_rfl

namespace Joins
variable {t u : Text}

theorem length_le (h : Joins t u) : u.length ≤ t.length := by
  induction h with
  | nil => exact le_rfl
  | keep _ ih => simpa using ih
  | wide _ _ ih => simpa using ih
  | pair _ _ ih =>
    simp only [List.length_cons]
    omega

theorem ne_nil (h : Joins t u) (ht : t ≠ []) : u ≠ [] := by
  cases h with
  | nil => exact absurd rfl ht
  | keep _ | wide _ _ | pair _ _ => exact List.cons_ne_nil _ _

theorem mem (h : Joins t u) {n : Nat} (hn : n ∈ u) : n ∈ t ∨ 65536 ≤ n := by
  induction h with
  | nil => cases hn
  | keep _ ih =>
    rcases List.mem_cons.mp hn with rfl | hn
    · exact Or.inl (by simp)
    · exact (ih hn).imp_left (List.mem_cons_of_mem _)
  | wide hm _ ih =>
    rcases List.mem_cons.mp hn with rfl | hn
    · exact Or.inr hm
    · exact (ih hn).imp_left (List.mem_cons_of_mem _)
  | pair hm _ ih =>
    rcases List.mem_cons.mp hn with rfl | hn
    · exact Or.inr hm
    · exact (ih hn).imp_left (fun hin => List.mem_cons_of_mem _ (List.mem_cons_of_mem _ hin))

theorem head (h : Joins t u) {n : Nat} (hn : n ∈ u.head?) : n ∈ t.head? ∨ 65536 ≤ n := by
  cases h with
  | nil => cases hn
  | keep _ => exact Or.inl hn
  | wide hm _ | pair hm _ =>
    cases hn
    exact Or.inr hm

theorem last (h : Joins t u) {n : Nat} (hn : n ∈ u.getLast?) : n ∈ t.getLast? ∨ 65536 ≤ n := by
  -- the last element of what is joined comes from the rest, where that is not empty
  have hcons : ∀ {m : Nat} {rest : Text}, rest ≠ [] → (m :: rest).getLast? = rest.getLast? :=
    fun hne => List.getLast?_cons_of_ne_nil hne
  induction h with
  | nil => cases hn
  | @keep m t u h ih =>
    by_cases ht : t = []
    · subst ht
      cases h
      exact Or.inl hn
    · rw [hcons (h.ne_nil ht)] at hn
      rw [hcons ht]
      exact ih hn
  | @wide m k t u hk h ih =>
    by_cases ht : t = []
    · subst ht
      cases h
      cases hn
      exact Or.inr hk
    · rw [hcons (h.ne_nil ht)] at hn
      rw [hcons ht]
      exact ih hn
  | @pair high low k t u hk h ih =>
    by_cases ht : t = []
    · subst ht
      cases h
      cases hn
      exact Or.inr hk
    · rw [hcons (h.ne_nil ht)] at hn
      rw [hcons (List.cons_ne_nil _ _), hcons ht]
      exact ih hn

end Joins

end Sediment.Base.JsonScan

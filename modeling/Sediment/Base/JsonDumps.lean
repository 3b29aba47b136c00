import Sediment.Base.JsonLocality

namespace Sediment.Base.JsonScan

/-- The code units an escape spells a code point with. -/
def utf16 (n : Nat) : List Nat :=
  if n < 65536 then [n]
  else [55296 + (n - 65536) / 1024 % 1024, 56320 + (n - 65536) % 1024]

def escapeUnit (n : Nat) : List Char :=
  if n = 34 then ['\\', '"']
  else if n = 92 then ['\\', '\\']
  else if n = 10 then ['\\', 'n']
  else if n = 13 then ['\\', 'r']
  else if n = 9 then ['\\', 't']
  else if n = 12 then ['\\', 'f']
  else if n = 8 then ['\\', 'b']
  else if 32 ≤ n ∧ n ≤ 126 then [Char.ofNat n]
  else unicodeEscape n

def quoteText (t : Text) : List Char := '"' :: (t.flatMap utf16).flatMap escapeUnit ++ ['"']

/-- Items with a comma and a blank between them. -/
def spaced : List (List Char) → List Char
  | [] => []
  | [item] => item
  | item :: rest => item ++ ',' :: ' ' :: spaced rest

def dumps : JsonValue → List Char
  | .null => "null".toList
  | .bool true => "true".toList
  | .bool false => "false".toList
  | .int n => (toString n).toList
  | .float x => x
  | .str t => quoteText t
  | .arr items => '[' :: spaced (dumpsItems items) ++ [']']
  | .obj fields => '{' :: spaced (dumpsFields fields) ++ ['}']
where
  dumpsItems : List JsonValue → List (List Char)
    | [] => []
    | item :: rest => dumps item :: dumpsItems rest
  dumpsFields : List (Text × JsonValue) → List (List Char)
    | [] => []
    | (key, v) :: rest => (quoteText key ++ ':' :: ' ' :: dumps v) :: dumpsFields rest

variable {rest : List Char} {d : Nat}

/-- A text as it is read back: two surrogates side by side come back as one code point. -/
def reread (t : Text) : Text := joinSurrogates (t.flatMap utf16)

theorem utf16_lt (n : Nat) : ∀ u ∈ utf16 n, u < 65536 := by
  unfold utf16
  split
  · simpa
  · have hhigh := Nat.mod_lt ((n - 65536) / 1024) (by decide : 0 < 1024)
    have hlow := Nat.mod_lt (n - 65536) (by decide : 0 < 1024)
    intro u hu
    rw [List.mem_cons, List.mem_singleton] at hu
    rcases hu with hu | hu <;> omega

theorem hexValue_hexDigit (n : Nat) (h : n < 16) : hexValue (hexDigit n) = some n :=
  (by decide : ∀ n : Fin 16, hexValue (hexDigit n) = some n.val) ⟨n, h⟩

theorem hexUnit_digits {n : Nat} (h : n < 65536) :
    hexUnit (hexDigit (n / 4096 % 16)) (hexDigit (n / 256 % 16)) (hexDigit (n / 16 % 16))
      (hexDigit (n % 16)) = some n := by
  simp only [hexUnit, hexValue_hexDigit _ (Nat.mod_lt _ (by decide : 0 < 16)),
    Option.bind_eq_bind, Option.bind_some, Option.some.injEq]
  omega

/-- One unit is read back from its escape. -/
theorem scanUnits_escapeUnit {n : Nat} (h : n < 65536) {units : List Nat} {tail : List Char}
    (htail : scanUnits tail = some (units, rest)) :
    scanUnits (escapeUnit n ++ tail) = some (n :: units, rest) := by
  have hshort : ∀ c m, escaped c = some m → c ≠ 'u' →
      scanUnits ('\\' :: c :: tail) = some (m :: units, rest) := by
    intro c m he hu
    rw [scanUnits]
    · simp [he, htail]
    · rintro a b c' d r rfl
      exact absurd rfl hu
  unfold escapeUnit
  split
  · subst n; exact hshort '"' 34 rfl (by decide)
  split
  · subst n; exact hshort '\\' 92 rfl (by decide)
  split
  · subst n; exact hshort 'n' 10 rfl (by decide)
  split
  · subst n; exact hshort 'r' 13 rfl (by decide)
  split
  · subst n; exact hshort 't' 9 rfl (by decide)
  split
  · subst n; exact hshort 'f' 12 rfl (by decide)
  split
  · subst n; exact hshort 'b' 8 rfl (by decide)
  split
  · rename_i hq hb _ _ _ _ _ hr
    have hn : (Char.ofNat n).toNat = n := by
      have hvalid : n.isValidChar := Or.inl (by omega)
      simp [Char.ofNat, hvalid, Char.toNat, Char.ofNatAux]
    have hne : ∀ c : Char, c.toNat ≠ n → Char.ofNat n ≠ c := by
      rintro c hc rfl
      exact hc hn
    have hback : Char.ofNat n ≠ '\\' := hne _ (by simpa using Ne.symm hb)
    rw [List.singleton_append, scanUnits]
    · have hno : ¬((Char.ofNat n).toNat < 32 ∨ Char.ofNat n = '\\') := by
        rw [hn]
        rintro (hlt | he)
        · omega
        · exact hback he
      rw [if_neg hno, htail, hn]
      rfl
    · exact hne _ (by simpa using Ne.symm hq)
    · exact fun _ _ _ _ _ he => absurd he hback
    · exact fun _ _ he => absurd he hback
  · simp only [unicodeEscape, List.cons_append, List.nil_append, scanUnits, hexUnit_digits h,
      htail, Option.bind_eq_bind, Option.bind_some]

theorem scanUnits_escape (units : List Nat) (h : ∀ u ∈ units, u < 65536) (rest : List Char) :
    scanUnits (units.flatMap escapeUnit ++ '"' :: rest) = some (units, rest) := by
  induction units with
  | nil => rfl
  | cons u units ih =>
    rw [List.flatMap_cons, List.append_assoc]
    exact scanUnits_escapeUnit (h u (by simp)) (ih (fun v hv => h v (by simp [hv])))

theorem scanString_quoteText (t : Text) (rest : List Char) :
    ∃ tail, quoteText t ++ rest = '"' :: tail ∧ scanString tail = some (reread t, rest) := by
  refine ⟨(t.flatMap utf16).flatMap escapeUnit ++ '"' :: rest, by simp [quoteText], ?_⟩
  have hunits : ∀ u ∈ t.flatMap utf16, u < 65536 := by
    intro u hu
    obtain ⟨n, -, hn⟩ := List.mem_flatMap.mp hu
    exact utf16_lt n u hn
  rw [scanString, scanUnits_escape _ hunits]
  rfl

/-- The text of `v` is read as `w`, whatever comes behind it. -/
def Reads (d : Nat) (v w : JsonValue) : Prop :=
  ∀ rest, Closed rest ∨ isNumber v = false → scanOnce d (dumps v ++ rest) = some (w, rest)

theorem reads_str (d : Nat) (t : Text) : Reads d (.str t) (.str (reread t)) := by
  intro rest _
  obtain ⟨tail, he, hs⟩ := scanString_quoteText t rest
  rw [dumps, he, scanOnce_scalar d (by simp) (by simp), scanScalar, hs]
  rfl

theorem reads_one (d : Nat) : Reads d (.int 1) (.int 1) := by
  rintro rest (⟨c, r, rfl, hc⟩ | hn)
  swap
  · cases hn
  have hplain : c.isDigit = false ∧ c ≠ '.' ∧ c ≠ 'e' ∧ c ≠ 'E' := by
    simp only [isBlank, Bool.or_eq_true, beq_iff_eq, decide_eq_true_eq] at hc
    rcases hc with (((rfl | rfl) | rfl) | rfl) | rfl | rfl | rfl <;> decide
  obtain ⟨hd, hp, he, hE⟩ := hplain
  change scanOnce d ('1' :: c :: r) = _
  have hdigits : digitsOf ('1' :: c :: r) = (['1'], c :: r) := by
    simp [digitsOf, hd, show '1'.isDigit = true from rfl]
  have hint : intPart ('1' :: c :: r) = some (['1'], c :: r) := by
    rw [intPart]
    · rw [hdigits]
      rfl
    · intro h
      cases h
  have hfrac : fraction (c :: r) = ([], c :: r) := by
    unfold fraction
    split
    · rename_i heq
      cases heq
      exact absurd rfl hp
    · rfl
  have hexp : exponent (c :: r) = ([], c :: r) := by simp [exponent, he, hE]
  rw [scanOnce_scalar d (by simp) (by simp), scanScalar_number]
  have hsign : numberSign ('1' :: c :: r) = (false, '1' :: c :: r) := rfl
  simp only [scanNumber, hsign, hint, hfrac, hexp]
  rfl

theorem skipBlanks_cons {c : Char} (h : isBlank c = false) (s : List Char) :
    skipBlanks (c :: s) = c :: s := by
  simp [skipBlanks, h]

/-- No value starts with a blank or a bracket that closes. -/
theorem Reads.head {v w : JsonValue} (h : Reads d v w) :
    ∃ c s, dumps v = c :: s ∧ isBlank c = false ∧ c ≠ ']' := by
  have hread := h [','] (Or.inl ⟨',', [], rfl, by decide⟩)
  have hcomma : scanOnce d [','] = none := by
    rw [scanOnce_scalar d (by simp) (by simp)]
    rfl
  cases hs : dumps v with
  | nil =>
    rw [hs, List.nil_append, hcomma] at hread
    cases hread
  | cons c s =>
  refine ⟨c, s, rfl, ?_⟩
  rw [hs, List.cons_append] at hread
  have hbad : ∀ b : Char, (isBlank b = true ∨ b = ']') → c ≠ b := by
    rintro b hb rfl
    have hnone : scanOnce d (c :: (s ++ [','])) = none := by
      simp only [isBlank, Bool.or_eq_true, beq_iff_eq] at hb
      rcases hb with (((rfl | rfl) | rfl) | rfl) | rfl <;>
        (rw [scanOnce_scalar d (by simp) (by simp)]; rfl)
    rw [hnone] at hread
    cases hread
  refine ⟨?_, fun he => hbad ']' (Or.inr rfl) he⟩
  by_contra hb
  exact hbad c (Or.inl (by simpa using hb)) rfl

theorem length_spaced (items : List (List Char)) (h : ∀ item ∈ items, item ≠ []) :
    items.length ≤ (spaced items).length := by
  induction items with
  | nil => simp
  | cons item rest ih =>
    have hitem := List.length_pos_of_ne_nil (h item (by simp))
    have := ih (fun x hx => h x (by simp [hx]))
    cases rest with
    | nil => exact hitem
    | cons item' rest =>
      simp only [spaced, List.length_append, List.length_cons] at this ⊢
      omega

theorem spaced_head {c : Char} {s : List Char} (rest : List (List Char)) :
    ∃ tail, spaced ((c :: s) :: rest) = c :: tail := by
  cases rest <;> exact ⟨_, rfl⟩

/-- A blank after a comma is skipped, and nothing of the item behind it. -/
theorem skipBlanks_spaced {c : Char} {s : List Char} (hb : isBlank c = false)
    (rest : List (List Char)) (tail : List Char) :
    skipBlanks (' ' :: (spaced ((c :: s) :: rest) ++ tail)) =
      spaced ((c :: s) :: rest) ++ tail := by
  obtain ⟨t, ht⟩ := spaced_head (c := c) (s := s) rest
  rw [ht]
  simp [skipBlanks, hb, show isBlank ' ' = true from rfl]

theorem arrayItems_spaced {v w : JsonValue} {vs ws : List JsonValue} (h : Reads d v w)
    (hs : List.Forall₂ (Reads d) vs ws) {n : Nat} (hn : vs.length < n) (rest : List Char) :
    arrayItems (scanOnce d) n (spaced (dumps.dumpsItems (v :: vs)) ++ ']' :: rest) =
      some (w :: ws, rest) := by
  induction hs generalizing n v w with
  | nil =>
    obtain ⟨n, rfl⟩ : ∃ k, n = k + 1 := ⟨n - 1, by omega⟩
    have hread := h (']' :: rest) (Or.inl ⟨']', rest, rfl, by decide⟩)
    simp only [dumps.dumpsItems, spaced, arrayItems, hread, Option.bind_eq_bind, Option.bind_some,
      skipBlanks_cons (c := ']') (by decide)]
  | @cons v' w' vs ws hv hs ih =>
    obtain ⟨n, rfl⟩ : ∃ k, n = k + 1 := ⟨n - 1, by omega⟩
    rw [List.length_cons] at hn
    obtain ⟨c, s, hc, hblank, -⟩ := hv.head
    have hrest := ih hv (n := n) (by omega)
    have hread := h (',' :: ' ' :: (spaced (dumps.dumpsItems (v' :: vs)) ++ ']' :: rest))
      (Or.inl ⟨',', _, rfl, by decide⟩)
    have hskip := skipBlanks_spaced (s := s) hblank (dumps.dumpsItems vs) (']' :: rest)
    rw [← hc] at hskip
    rw [dumps.dumpsItems] at hrest hread
    rw [dumps.dumpsItems, dumps.dumpsItems, spaced]
    · simp only [List.append_assoc, List.cons_append]
      simp only [arrayItems, hread, Option.bind_eq_bind, Option.bind_some,
        skipBlanks_cons (c := ',') (by decide), hskip, hrest]
    · simp

theorem length_dumpsItems (vs : List JsonValue) : (dumps.dumpsItems vs).length = vs.length := by
  induction vs with
  | nil => rfl
  | cons v vs ih => simp [dumps.dumpsItems, ih]

theorem dumpsItems_ne_nil {vs ws : List JsonValue} (h : List.Forall₂ (Reads d) vs ws) :
    ∀ item ∈ dumps.dumpsItems vs, item ≠ [] := by
  induction h with
  | nil => simp [dumps.dumpsItems]
  | @cons v w vs ws hv hs ih =>
    obtain ⟨c, s, hc, -⟩ := hv.head
    rintro item (_ | ⟨_, hm⟩)
    · simp [hc]
    · exact ih item hm

theorem reads_arr {vs ws : List JsonValue} (h : List.Forall₂ (Reads d) vs ws) :
    Reads (d + 1) (.arr vs) (.arr ws) := by
  rintro rest -
  have htext : dumps (.arr vs) ++ rest = '[' :: (spaced (dumps.dumpsItems vs) ++ ']' :: rest) := by
    simp [dumps]
  rw [htext]
  change scanArray (scanOnce d) _ = _
  have hlen := length_spaced _ (dumpsItems_ne_nil h)
  rw [length_dumpsItems] at hlen
  cases h with
  | nil => rfl
  | @cons v w vs ws hv hs =>
    obtain ⟨c, s, hc, hblank, hclose⟩ := hv.head
    obtain ⟨t, ht⟩ := spaced_head (c := c) (s := s) (dumps.dumpsItems vs)
    rw [List.length_cons] at hlen
    have hitems := arrayItems_spaced hv hs
      (n := (spaced (dumps.dumpsItems (v :: vs)) ++ ']' :: rest).length + 1)
      (by rw [List.length_append]; omega) rest
    have hskip : skipBlanks (spaced (dumps.dumpsItems (v :: vs)) ++ ']' :: rest) =
        spaced (dumps.dumpsItems (v :: vs)) ++ ']' :: rest := by
      rw [dumps.dumpsItems, hc, ht, List.cons_append, skipBlanks_cons hblank]
    unfold scanArray
    rw [hskip]
    split
    · rename_i r he
      rw [dumps.dumpsItems, hc, ht] at he
      cases he
      exact absurd rfl hclose
    · rw [hitems]
      rfl

/-- A field is read as one with the same key and its value. -/
def FieldReads (d : Nat) (p q : Text × JsonValue) : Prop := q.1 = reread p.1 ∧ Reads d p.2 q.2

theorem quoteText_head (t : Text) : ∃ s, quoteText t = '"' :: s := ⟨_, rfl⟩

theorem length_dumpsFields (ps : List (Text × JsonValue)) :
    (dumps.dumpsFields ps).length = ps.length := by
  induction ps with
  | nil => rfl
  | cons p ps ih => simp [dumps.dumpsFields, ih]

theorem objectItems_spaced {p q : Text × JsonValue} {ps qs : List (Text × JsonValue)}
    (h : FieldReads d p q) (hs : List.Forall₂ (FieldReads d) ps qs) {n : Nat}
    (hn : ps.length < n) (rest : List Char) :
    objectItems (scanOnce d) n (spaced (dumps.dumpsFields (p :: ps)) ++ '}' :: rest) =
      some (q :: qs, rest) := by
  have hfield : ∀ {p q : Text × JsonValue} (tail : List Char), FieldReads d p q → Closed tail →
      ∃ s v, quoteText p.1 ++ ':' :: ' ' :: dumps p.2 ++ tail = '"' :: s ∧
        scanString s = some (q.1, ':' :: ' ' :: v) ∧ skipBlanks (' ' :: v) = v ∧
        scanOnce d v = some (q.2, tail) := by
    intro p q tail h htail
    obtain ⟨s, he, hs⟩ := scanString_quoteText p.1 (':' :: ' ' :: (dumps p.2 ++ tail))
    obtain ⟨c, r, hc, hblank, -⟩ := h.2.head
    refine ⟨s, dumps p.2 ++ tail, ?_, ?_, ?_, h.2 tail (Or.inl htail)⟩
    · rw [← he]
      simp
    · rw [hs, h.1]
    · rw [hc]
      simp [skipBlanks, hblank, show isBlank ' ' = true from rfl]
  induction hs generalizing n p q with
  | nil =>
    obtain ⟨n, rfl⟩ : ∃ k, n = k + 1 := ⟨n - 1, by omega⟩
    obtain ⟨s, v, he, hstr, hskip, hval⟩ := hfield ('}' :: rest) h ⟨'}', rest, rfl, by decide⟩
    simp only [dumps.dumpsFields, spaced, he, objectItems, hstr, Option.bind_eq_bind,
      Option.bind_some, skipBlanks_cons (c := ':') (by decide), hskip, hval,
      skipBlanks_cons (c := '}') (by decide)]
  | @cons p' q' ps qs hp hs ih =>
    obtain ⟨n, rfl⟩ : ∃ k, n = k + 1 := ⟨n - 1, by omega⟩
    rw [List.length_cons] at hn
    have hrest := ih hp (n := n) (by omega)
    obtain ⟨s, v, he, hstr, hskip, hval⟩ := hfield
      (',' :: ' ' :: (spaced (dumps.dumpsFields (p' :: ps)) ++ '}' :: rest)) h
      ⟨',', _, rfl, by decide⟩
    have hnext := skipBlanks_spaced (c := '"')
      (s := (p'.1.flatMap utf16).flatMap escapeUnit ++ ['"'] ++ ':' :: ' ' :: dumps p'.2)
      (by decide) (dumps.dumpsFields ps) ('}' :: rest)
    have hquote : '"' :: ((p'.1.flatMap utf16).flatMap escapeUnit ++ ['"'] ++
        ':' :: ' ' :: dumps p'.2) = quoteText p'.1 ++ ':' :: ' ' :: dumps p'.2 := rfl
    rw [hquote] at hnext
    rw [dumps.dumpsFields] at hrest he hval
    rw [dumps.dumpsFields, dumps.dumpsFields, spaced]
    · rw [List.append_assoc, List.cons_append, List.cons_append, he]
      simp only [objectItems, hstr, Option.bind_eq_bind, Option.bind_some,
        skipBlanks_cons (c := ':') (by decide), hskip, hval,
        skipBlanks_cons (c := ',') (by decide), hnext, hrest]
    · simp

theorem reads_obj {ps qs : List (Text × JsonValue)} (h : List.Forall₂ (FieldReads d) ps qs) :
    Reads (d + 1) (.obj ps) (.obj (fieldsOf qs)) := by
  rintro rest -
  have htext : dumps (.obj ps) ++ rest = '{' :: (spaced (dumps.dumpsFields ps) ++ '}' :: rest) := by
    simp [dumps]
  rw [htext]
  change scanObject (scanOnce d) _ = _
  cases h with
  | nil => rfl
  | @cons p q ps qs hp hs =>
    have hne : ∀ item ∈ dumps.dumpsFields (p :: ps), item ≠ [] := by
      generalize p :: ps = fields
      induction fields with
      | nil => simp [dumps.dumpsFields]
      | cons f fields ih =>
        rintro item (_ | ⟨_, hm⟩)
        · simp [quoteText]
        · exact ih item hm
    have hlen := length_spaced _ hne
    rw [length_dumpsFields, List.length_cons] at hlen
    have hitems := objectItems_spaced hp hs
      (n := (spaced (dumps.dumpsFields (p :: ps)) ++ '}' :: rest).length + 1)
      (by rw [List.length_append]; omega) rest
    obtain ⟨t, ht⟩ : ∃ t, spaced (dumps.dumpsFields (p :: ps)) = '"' :: t :=
      spaced_head (c := '"') (dumps.dumpsFields ps)
    have hskip : skipBlanks (spaced (dumps.dumpsFields (p :: ps)) ++ '}' :: rest) =
        spaced (dumps.dumpsFields (p :: ps)) ++ '}' :: rest := by
      rw [ht, List.cons_append, skipBlanks_cons (by decide)]
    unfold scanObject
    rw [hskip]
    split
    · rename_i r he
      rw [ht] at he
      cases he
    · rw [hitems]
      rfl

/-- Behind the named escapes. -/
theorem escapeUnit_plain {n : Nat} (h : n ∉ [34, 92, 10, 13, 9, 12, 8]) :
    escapeUnit n = if 32 ≤ n ∧ n ≤ 126 then [Char.ofNat n] else unicodeEscape n := by
  simp only [List.mem_cons, List.not_mem_nil, or_false, not_or] at h
  obtain ⟨h1, h2, h3, h4, h5, h6, h7⟩ := h
  rw [escapeUnit, if_neg h1, if_neg h2, if_neg h3, if_neg h4, if_neg h5, if_neg h6, if_neg h7]

theorem escapeUnit_char (c : Char) : (utf16 c.toNat).flatMap escapeUnit = escapeChar c := by
  have hne : ∀ d : Char, c ≠ d → c.toNat ≠ d.toNat := fun d h heq => h (Char.toNat_inj.mp heq)
  unfold escapeChar
  split
  · decide
  · decide
  · decide
  · decide
  · decide
  · decide
  · decide
  · rename_i h1 h2 h3 h4 h5 h6 h7
    have hplain : c.toNat ∉ [34, 92, 10, 13, 9, 12, 8] := by
      simp only [List.mem_cons, List.not_mem_nil, or_false, not_or]
      exact ⟨hne _ h1, hne _ h2, hne _ h3, hne _ h4, hne _ h5, hne _ h6, hne _ h7⟩
    have hvalid : c.toNat < 55296 ∨ (57343 < c.toNat ∧ c.toNat < 1114112) := c.valid
    have hsurrogate : ∀ n, 127 ≤ n → escapeUnit n = unicodeEscape n := by
      intro n hn
      rw [escapeUnit_plain (by simp only [List.mem_cons, List.not_mem_nil, or_false]; omega),
        if_neg (by omega)]
    simp only
    by_cases hsmall : c.toNat < 65536
    · rw [utf16, if_pos hsmall, List.flatMap_singleton, escapeUnit_plain hplain, Char.ofNat_toNat]
      simp only [if_pos hsmall]
    · rw [utf16, if_neg hsmall, if_neg (by omega), if_neg hsmall, List.flatMap_cons,
        List.flatMap_singleton, hsurrogate _ (by omega), hsurrogate _ (by omega),
        Nat.mod_eq_of_lt (by omega)]

/-- The two spellings of a string in ASCII JSON are one. -/
theorem quoteText_codePoints (s : String) : quoteText (codePoints s) = quoteAscii s := by
  unfold quoteText quoteAscii codePoints
  rw [List.flatMap_map, List.flatMap_assoc]
  simp only [escapeUnit_char]

end Sediment.Base.JsonScan

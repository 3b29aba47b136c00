import Sediment.Base.JsonDumps

namespace Sediment.Base.JsonScan

/-- Every character is a byte of its own, and none is a control character. -/
def Printable (s : List Char) : Prop := ∀ c ∈ s, 32 ≤ c.toNat ∧ c.toNat < 128

instance : DecidablePred Printable := fun s =>
  inferInstanceAs (Decidable (∀ c ∈ s, 32 ≤ c.toNat ∧ c.toNat < 128))

/-- `float.__repr__` of a finite float. -/
structure FloatText where
  text : List Char
  printable : Printable text
  deriving DecidableEq

/-- What the encoder meets where a float may stand: a finite one, one that is not finite, or
an object of a foreign type. -/
inductive Leaf where
  | finite (x : FloatText)
  | nonFinite
  | foreign
  deriving DecidableEq

abbrev Body := Json Text Leaf

/-- What a generator yields, and whether it raises in the end. -/
structure Yields where
  chunks : List (List Char)
  raised : Bool

def Yields.one (chunk : List Char) : Yields := ⟨[chunk], false⟩

def Yields.raise : Yields := ⟨[], true⟩

def Yields.andThen (a b : Yields) : Yields :=
  if a.raised then a else ⟨a.chunks ++ b.chunks, b.raised⟩

/-- Scalars come with the text before them in one chunk. -/
def scalarChunk (buf : List Char) : Body → Option Yields
  | .null => some (.one (buf ++ "null".toList))
  | .bool true => some (.one (buf ++ "true".toList))
  | .bool false => some (.one (buf ++ "false".toList))
  | .int n => some (.one (buf ++ (toString n).toList))
  | .float (.finite x) => some (.one (buf ++ x.text))
  | .float .nonFinite => some .raise
  | .float .foreign => none
  | .str t => some (.one (buf ++ quoteText t))
  | .arr _ => none
  | .obj _ => none

def iterencode : Body → Yields
  | .arr [] => .one ['[', ']']
  | .arr items => iterencodeList ['['] items
  | .obj [] => .one ['{', '}']
  | .obj fields => (Yields.one ['{']).andThen (iterencodeDict true fields)
  | v => (scalarChunk [] v).getD .raise
where
  iterencodeList (buf : List Char) : List Body → Yields
    | [] => .one [']']
    | v :: rest =>
      ((scalarChunk buf v).getD ((Yields.one buf).andThen (iterencode v))).andThen
        (iterencodeList [',', ' '] rest)
  iterencodeDict (first : Bool) : List (Text × Body) → Yields
    | [] => .one ['}']
    | (key, v) :: rest =>
      (((((if first then ⟨[], false⟩ else Yields.one [',', ' ']).andThen
        (.one (quoteText key))).andThen (.one [':', ' '])).andThen
          ((scalarChunk [] v).getD (iterencode v)))).andThen (iterencodeDict false rest)

/-- The value a body stands for where the encoder refuses nothing in it. -/
def plainBody : Body → JsonValue
  | .null => .null
  | .bool b => .bool b
  | .int n => .int n
  | .float (.finite x) => .float x.text
  | .float _ => .null
  | .str t => .str t
  | .arr items => .arr (plainItems items)
  | .obj fields => .obj (plainFields fields)
where
  plainItems : List Body → List JsonValue
    | [] => []
    | v :: rest => plainBody v :: plainItems rest
  plainFields : List (Text × Body) → List (Text × JsonValue)
    | [] => []
    | (key, v) :: rest => (key, plainBody v) :: plainFields rest

def Yields.text (y : Yields) : List Char := y.chunks.flatten

theorem andThen_raised {a b : Yields} (h : (a.andThen b).raised = false) :
    a.raised = false ∧ b.raised = false ∧ (a.andThen b).text = a.text ++ b.text := by
  unfold Yields.andThen at h ⊢
  cases ha : a.raised with
  | true => simp [ha] at h
  | false =>
    simp only [ha, Bool.false_eq_true, if_false] at h ⊢
    exact ⟨trivial, h, by simp [Yields.text]⟩

theorem scalarChunk_text {buf : List Char} {v : Body} {y : Yields} (h : scalarChunk buf v = some y)
    (hy : y.raised = false) : y.text = buf ++ dumps (plainBody v) := by
  unfold scalarChunk at h
  split at h
  all_goals cases h
  all_goals first
    | exact absurd hy (by decide)
    | simp [Yields.text, Yields.one, plainBody, dumps]

/-- A scalar comes with the text before it, a container behind it. -/
theorem item_text {buf : List Char} {v : Body}
    (hv : (iterencode v).raised = false → (iterencode v).text = dumps (plainBody v))
    (h : ((scalarChunk buf v).getD ((Yields.one buf).andThen (iterencode v))).raised = false) :
    ((scalarChunk buf v).getD ((Yields.one buf).andThen (iterencode v))).text =
      buf ++ dumps (plainBody v) := by
  cases hs : scalarChunk buf v with
  | some y =>
    rw [hs] at h
    exact scalarChunk_text hs h
  | none =>
    rw [hs] at h
    obtain ⟨-, hiter, htext⟩ := andThen_raised h
    rw [Option.getD_none, htext, hv hiter]
    simp [Yields.one, Yields.text]

theorem value_text {v : Body}
    (hv : (iterencode v).raised = false → (iterencode v).text = dumps (plainBody v))
    (h : ((scalarChunk [] v).getD (iterencode v)).raised = false) :
    ((scalarChunk [] v).getD (iterencode v)).text = dumps (plainBody v) := by
  cases hs : scalarChunk [] v with
  | some y =>
    rw [hs] at h
    exact scalarChunk_text hs h
  | none =>
    rw [hs] at h
    exact hv h

mutual
/-- The chunks of a body that is refused nowhere are its text. -/
theorem iterencode_text (v : Body) (h : (iterencode v).raised = false) :
    (iterencode v).text = dumps (plainBody v) := by
  match v with
  | .null => rfl
  | .bool true => rfl
  | .bool false => rfl
  | .int n => simp [iterencode, scalarChunk, Yields.one, Yields.text, plainBody, dumps]
  | .float (.finite x) => simp [iterencode, scalarChunk, Yields.one, Yields.text, plainBody, dumps]
  | .float .nonFinite => cases h
  | .float .foreign => cases h
  | .str t => simp [iterencode, scalarChunk, Yields.one, Yields.text, plainBody, dumps]
  | .arr [] => rfl
  | .arr (item :: items) =>
    have hlist := iterencodeList_text ['['] (item :: items) (by simp) h
    rw [iterencode, hlist]
    rfl
    intro hnil
    cases hnil
  | .obj [] => rfl
  | .obj (field :: fields) =>
    rw [iterencode] at h ⊢
    · obtain ⟨-, hrest, htext⟩ := andThen_raised h
      rw [htext, iterencodeDict_text true (field :: fields) (by simp) hrest]
      rfl
    · intro hnil
      cases hnil
    · intro hnil
      cases hnil

theorem iterencodeList_text (buf : List Char) (items : List Body) (hne : items ≠ [])
    (h : (iterencode.iterencodeList buf items).raised = false) :
    (iterencode.iterencodeList buf items).text =
      buf ++ (spaced (dumps.dumpsItems (plainBody.plainItems items)) ++ [']']) := by
  match items with
  | [] => exact absurd rfl hne
  | [v] =>
    rw [iterencode.iterencodeList] at h ⊢
    obtain ⟨hv, -, htext⟩ := andThen_raised h
    rw [htext, item_text (iterencode_text v) hv]
    simp [iterencode.iterencodeList, Yields.one, Yields.text, plainBody.plainItems,
      dumps.dumpsItems, spaced]
  | v :: w :: rest =>
    rw [iterencode.iterencodeList] at h ⊢
    obtain ⟨hv, hrest, htext⟩ := andThen_raised h
    rw [htext, item_text (iterencode_text v) hv,
      iterencodeList_text [',', ' '] (w :: rest) (List.cons_ne_nil _ _) hrest]
    simp [plainBody.plainItems, dumps.dumpsItems, spaced]

theorem iterencodeDict_text (first : Bool) (fields : List (Text × Body)) (hne : fields ≠ [])
    (h : (iterencode.iterencodeDict first fields).raised = false) :
    (iterencode.iterencodeDict first fields).text =
      (if first then [] else [',', ' ']) ++
        (spaced (dumps.dumpsFields (plainBody.plainFields fields)) ++ ['}']) := by
  have hlead : (if first then (⟨[], false⟩ : Yields) else Yields.one [',', ' ']).text =
      if first then [] else [',', ' '] := by
    cases first <;> rfl
  match fields with
  | [] => exact absurd rfl hne
  | [(key, v)] =>
    rw [iterencode.iterencodeDict] at h ⊢
    obtain ⟨hfield, -, htext⟩ := andThen_raised h
    obtain ⟨hcolon, hv, hvalue⟩ := andThen_raised hfield
    obtain ⟨hkey, -, hcolontext⟩ := andThen_raised hcolon
    obtain ⟨-, -, hkeytext⟩ := andThen_raised hkey
    rw [htext, hvalue, hcolontext, hkeytext, hlead, value_text (iterencode_text v) hv]
    simp [iterencode.iterencodeDict, Yields.one, Yields.text, plainBody.plainFields,
      dumps.dumpsFields, spaced]
  | (key, v) :: w :: rest =>
    rw [iterencode.iterencodeDict] at h ⊢
    obtain ⟨hfield, hrest, htext⟩ := andThen_raised h
    obtain ⟨hcolon, hv, hvalue⟩ := andThen_raised hfield
    obtain ⟨hkey, -, hcolontext⟩ := andThen_raised hcolon
    obtain ⟨-, -, hkeytext⟩ := andThen_raised hkey
    rw [htext, hvalue, hcolontext, hkeytext, hlead, value_text (iterencode_text v) hv,
      iterencodeDict_text false (w :: rest) (List.cons_ne_nil _ _) hrest]
    obtain ⟨k, u⟩ := w
    simp [Yields.one, Yields.text, plainBody.plainFields, dumps.dumpsFields, spaced]
end

theorem Printable.oneLine {s : List Char} (h : Printable s) : '\n' ∉ s :=
  fun hmem => absurd (h '\n' hmem).1 (by decide)

theorem Printable.append {s t : List Char} (hs : Printable s) (ht : Printable t) :
    Printable (s ++ t) := by
  intro c hc
  rcases List.mem_append.mp hc with hc | hc
  · exact hs c hc
  · exact ht c hc

theorem Printable.cons {c : Char} {s : List Char} (hc : 32 ≤ c.toNat ∧ c.toNat < 128)
    (hs : Printable s) : Printable (c :: s) :=
  List.forall_mem_cons.mpr ⟨hc, hs⟩

theorem Printable.framed {a b : Char} {s : List Char} (ha : 32 ≤ a.toNat ∧ a.toNat < 128)
    (hb : 32 ≤ b.toNat ∧ b.toNat < 128) (h : Printable s) : Printable (a :: s ++ [b]) :=
  Printable.cons ha (h.append (Printable.cons hb (fun _ hc => by cases hc)))

theorem escapeUnit_printable (n : Nat) : Printable (escapeUnit n) := by
  have hdigit : ∀ k < 16, 32 ≤ (hexDigit k).toNat ∧ (hexDigit k).toNat < 128 := by decide
  have hmod : ∀ k, 32 ≤ (hexDigit (k % 16)).toNat ∧ (hexDigit (k % 16)).toNat < 128 :=
    fun k => hdigit _ (Nat.mod_lt _ (by decide))
  have hpair : ∀ c : Char, 32 ≤ c.toNat ∧ c.toNat < 128 → Printable ['\\', c] :=
    fun c hc => Printable.cons (by decide) (Printable.cons hc (fun _ hc => by cases hc))
  unfold escapeUnit
  split_ifs with h1 h2 h3 h4 h5 h6 h7 hself
  · exact hpair _ (by decide)
  · exact hpair _ (by decide)
  · exact hpair _ (by decide)
  · exact hpair _ (by decide)
  · exact hpair _ (by decide)
  · exact hpair _ (by decide)
  · exact hpair _ (by decide)
  · have hcode : (Char.ofNat n).toNat = n := by
      have hvalid : n.isValidChar := Or.inl (by omega)
      simp [Char.ofNat, hvalid, Char.toNat, Char.ofNatAux]
    refine Printable.cons ?_ (fun _ hc => by cases hc)
    rw [hcode]
    omega
  · apply Printable.cons (by decide)
    apply Printable.cons (by decide)
    apply Printable.cons (hmod _)
    apply Printable.cons (hmod _)
    apply Printable.cons (hmod _)
    exact Printable.cons (hmod _) (fun _ hc => by cases hc)

theorem quoteText_printable (t : Text) : Printable (quoteText t) := by
  refine Printable.framed (by decide) (by decide) ?_
  intro c hc
  obtain ⟨n, -, hin⟩ := List.mem_flatMap.mp hc
  exact escapeUnit_printable n c hin

theorem intText_printable (n : Int) : Printable (toString n).toList := by
  have hdigits : ∀ k : Nat, Printable (toString k).toList := by
    intro k c hc
    change c ∈ k.repr.toList at hc
    rw [Nat.toList_repr] at hc
    have hdigit := Nat.isDigit_of_mem_toDigits (by decide) (by decide) hc
    simp only [Char.isDigit, Bool.and_eq_true, decide_eq_true_eq] at hdigit
    have hlow : '0'.toNat ≤ c.toNat := hdigit.1
    have hhigh : c.toNat ≤ '9'.toNat := hdigit.2
    have hzero : '0'.toNat = 48 := rfl
    have hnine : '9'.toNat = 57 := rfl
    omega
  cases n with
  | ofNat k => exact hdigits k
  | negSucc k =>
    change Printable ("-" ++ toString (k + 1)).toList
    rw [String.toList_append]
    exact Printable.cons (by decide) (hdigits _)

theorem spaced_printable {items : List (List Char)} (h : ∀ item ∈ items, Printable item) :
    Printable (spaced items) := by
  induction items with
  | nil => exact fun _ hc => by cases hc
  | cons item rest ih =>
    have hitem := h item (by simp)
    have hrest := ih (fun other hother => h other (by simp [hother]))
    cases rest with
    | nil => exact hitem
    | cons next rest =>
      rw [spaced]
      · exact hitem.append (Printable.cons (by decide) (Printable.cons (by decide) hrest))
      · intro hnil
        cases hnil

theorem literal_printable {s : List Char} (h : s.all (fun c => 32 ≤ c.toNat && c.toNat < 128)) :
    Printable s := by
  intro c hc
  simpa using List.all_eq_true.mp h c hc

mutual
/-- The text of a body is printable ASCII: one byte a character, and no line break. -/
theorem dumps_printable (v : Body) : Printable (dumps (plainBody v)) := by
  match v with
  | .null => exact literal_printable (by decide)
  | .bool true => exact literal_printable (by decide)
  | .bool false => exact literal_printable (by decide)
  | .int n => exact intText_printable n
  | .float (.finite x) => exact x.printable
  | .float .nonFinite => exact literal_printable (by decide)
  | .float .foreign => exact literal_printable (by decide)
  | .str t => exact quoteText_printable t
  | .arr items =>
    exact Printable.framed (by decide) (by decide)
      (spaced_printable (dumpsItems_printable items))
  | .obj fields =>
    exact Printable.framed (by decide) (by decide)
      (spaced_printable (dumpsFields_printable fields))

theorem dumpsItems_printable (items : List Body) :
    ∀ item ∈ dumps.dumpsItems (plainBody.plainItems items), Printable item := by
  match items with
  | [] => simp [plainBody.plainItems, dumps.dumpsItems]
  | v :: rest =>
    rw [plainBody.plainItems, dumps.dumpsItems, List.forall_mem_cons]
    exact ⟨dumps_printable v, dumpsItems_printable rest⟩

theorem dumpsFields_printable (fields : List (Text × Body)) :
    ∀ item ∈ dumps.dumpsFields (plainBody.plainFields fields), Printable item := by
  match fields with
  | [] => simp [plainBody.plainFields, dumps.dumpsFields]
  | (key, v) :: rest =>
    rw [plainBody.plainFields, dumps.dumpsFields, List.forall_mem_cons]
    refine ⟨?_, dumpsFields_printable rest⟩
    exact (quoteText_printable key).append
      (Printable.cons (by decide) (Printable.cons (by decide) (dumps_printable v)))
end

end Sediment.Base.JsonScan

import Sediment.Base.JsonCompact
import Sediment.Export.PriceManifest

namespace Sediment.Proofs.PriceEntries
open Base Decimals JsonScan DecimalNumbers Sediment.Core Export.PriceManifest
open Base.Validation (Settles)

theorem value_of_zero {d : Decimal} (h : d.coefficient = 0) : d.value = 0 := by
  simp [Decimal.value, h]

theorem limit_pos : 0 < defaultContext.limit := (ten_zpow_pos _).trans (le_limit defaultContext)

theorem normalizePrice_raises {d : Decimal} :
    (normalizePrice d).Raises ↔ ¬d.value < defaultContext.limit := by
  unfold normalizePrice
  split
  · rename_i hzero
    rw [value_of_zero hzero]
    simpa using limit_pos
  · rename_i hzero
    rw [not_lt, ← normalize_eq_none_iff hzero]
    split
    · rename_i hnone
      simp [hnone]
    · rename_i out hout
      simp [hout]

theorem normalizePrice_ok {d : Decimal} (h : d.value < defaultContext.limit) :
    ∃ p, normalizePrice d = .ok p := by
  have hno := mt normalizePrice_raises.mp (not_not.mpr h)
  cases hn : normalizePrice d with
  | ok p => exact ⟨p, rfl⟩
  | raised e => exact absurd ⟨e, hn⟩ hno
  | invalid errors =>
    unfold normalizePrice at hn
    split at hn
    · cases hn
    · split at hn <;> cases hn

/-- A price keeps its value exactly when the context can hold it. -/
theorem normalizePrice_value {d : Decimal} {p : Price} (h : normalizePrice d = .ok p) :
    p.val.value = d.value ↔ Representable defaultContext d.value := by
  unfold normalizePrice at h
  split at h
  · rename_i hzero
    cases h
    rw [value_of_zero hzero]
    have hrep := zero_price.2
    rw [value_of_zero rfl] at hrep ⊢
    exact iff_of_true rfl hrep
  · rename_i hzero
    split at h
    · cases h
    · rename_i out hout
      cases h
      exact (normalize_value_iff hzero hout).1

theorem astimezone_wall {d utc : Datetime} (h : d.astimezone = some utc) :
    utc.wall = d.instant := by
  unfold Datetime.astimezone Datetime.utc at h
  split at h
  · cases h
    rfl
  · cases h

theorem normalizeTime_some {d utc : Datetime} (h : d.astimezone = some utc) :
    normalizeTime (some d) = .ok (some ⟨utc.wall, utc.in_range⟩) := by
  simp only [normalizeTime, h]

theorem normalizeTime_none {d : Datetime} (h : d.astimezone = none) :
    normalizeTime (some d) = .raised .overflowError := by
  simp only [normalizeTime, h]

theorem normalizeTime_raises {d : Datetime} :
    (normalizeTime (some d)).Raises ↔ ¬d.Representable := by
  rw [← Datetime.astimezone_eq_none]
  cases h : d.astimezone with
  | none => simp [normalizeTime_none h]
  | some utc => simp [normalizeTime_some h]

theorem normalizeTime_value {d : Datetime} {o : Option Instant}
    (h : normalizeTime (some d) = .ok o) : o.map Subtype.val = some d.instant := by
  cases hutc : d.astimezone with
  | none =>
    rw [normalizeTime_none hutc] at h
    cases h
  | some utc =>
    rw [normalizeTime_some hutc] at h
    cases h
    exact congrArg some (astimezone_wall hutc)

theorem isDigit_ne_point {c : Char} (h : c.isDigit = true) : c ≠ '.' := by
  rintro rfl
  cases h

theorem digitParts_numeral (table : DigitTable) {whole : List Char} (h : Numeral whole)
    (hdigits : ∀ c ∈ whole, c.isDigit = true) : digitParts table whole = true := by
  rcases h with rfl | ⟨c, rest, rfl, hc, hne⟩
  · rfl
  · have hrest : rest.all table.isDigit = true := by
      rw [List.all_eq_true]
      exact fun d hd => table.isDigit_ascii (hdigits d (List.mem_cons_of_mem _ hd))
    have hone : '1' ≤ c := by
      simp only [Char.isDigit, Bool.and_eq_true, decide_eq_true_eq] at hc
      have hzero : '0'.toNat ≤ c.toNat := hc.1
      have hcode : c.toNat ≠ '0'.toNat := fun heq => hne (Char.toNat_inj.mp heq)
      have hlt : '1'.toNat ≤ c.toNat := by
        change 49 ≤ c.toNat
        change 48 ≤ c.toNat at hzero
        change c.toNat ≠ 48 at hcode
        omega
      exact hlt
    have hnine : c ≤ '9' := by
      simp only [Char.isDigit, Bool.and_eq_true, decide_eq_true_eq] at hc
      exact hc.2
    simp [digitParts, hrest, hone, hnine]

theorem pricePattern_whole (table : DigitTable) {whole : List Char} (h : Numeral whole)
    (hdigits : ∀ c ∈ whole, c.isDigit = true) :
    pricePattern table whole = some (whole, []) := by
  have htake : whole.takeWhile (· ≠ '.') = whole :=
    List.takeWhile_eq_self_iff.mpr fun c hc => by simpa using isDigit_ne_point (hdigits c hc)
  have hdrop : whole.dropWhile (· ≠ '.') = [] :=
    List.dropWhile_eq_nil_iff.mpr fun c hc => by simpa using isDigit_ne_point (hdigits c hc)
  unfold pricePattern
  simp only [htake, hdrop, digitParts_numeral table h hdigits, Bool.or_true, if_true]

theorem pricePattern_fraction (table : DigitTable) {whole fraction : List Char}
    (h : Numeral whole) (hdigits : ∀ c ∈ whole, c.isDigit = true) (hne : fraction ≠ [])
    (hfraction : ∀ c ∈ fraction, c.isDigit = true) :
    pricePattern table (whole ++ '.' :: fraction) = some (whole, fraction) := by
  have hpoint : ∀ c ∈ whole, decide (c ≠ '.') = true := fun c hc => by
    simpa using isDigit_ne_point (hdigits c hc)
  have htake : (whole ++ '.' :: fraction).takeWhile (· ≠ '.') = whole := by
    rw [List.takeWhile_append_of_pos hpoint]
    simp
  have hdrop : (whole ++ '.' :: fraction).dropWhile (· ≠ '.') = '.' :: fraction := by
    rw [List.dropWhile_append_of_pos hpoint]
    simp
  have hall : fraction.all table.isDigit = true := by
    rw [List.all_eq_true]
    exact fun c hc => table.isDigit_ascii (hfraction c hc)
  unfold pricePattern
  simp only [htake, hdrop, digitParts_numeral table h hdigits, hall, List.isEmpty_iff, hne,
    Bool.and_true, if_true, if_false]
  split <;> rfl

/-- The text of a number is a price string that denotes it. -/
theorem pricePattern_fixedText (table : DigitTable) {d : Decimal}
    (h : d.coefficient ≠ 0 ∨ d = ⟨0, 0⟩) : ∃ whole fraction,
      pricePattern table (fixedText d) = some (whole, fraction) ∧
        denote table whole fraction = d.value := by
  have hs := spelled_fixedParts table h
  refine ⟨(fixedParts d).1, (fixedParts d).2, ?_, by rw [← ofParts_value, hs.value]⟩
  unfold fixedText
  split_ifs with hempty
  · rw [pricePattern_whole table hs.numeral hs.whole_digits, hempty]
  · exact pricePattern_fraction table hs.numeral hs.whole_digits hempty hs.fraction_digits

section
variable {α β : Type}

/-- The field denotes a value. -/
def Reads (name : String) (R : JsonValue → β → Prop) (fields : List (Text × JsonValue)) (x : β) :
    Prop :=
  ∃ v, lookup name fields = some v ∧ R v x

/-- The field is free of exceptions. -/
def At (name : String) (B : JsonValue → Prop) (fields : List (Text × JsonValue)) : Prop :=
  ∀ v, lookup name fields = some v → B v

theorem settles_field {check : JsonValue → Validated α} {R : JsonValue → β → Prop}
    {Q : α → β → Prop} {B : JsonValue → Prop} (h : Settles check R Q B) (name : String) :
    Settles (field name check) (Reads name R) Q (At name B) where
  raises fields := by
    unfold field At
    rw [Validation.mapErrors_raises]
    cases lookup name fields with
    | none => simp [refuse]
    | some v => simp [h.raises v]
  sound fields a ha := by
    unfold field at ha
    rw [Validation.mapErrors_eq_ok] at ha
    cases hv : lookup name fields with
    | none =>
      rw [hv] at ha
      cases ha
    | some v =>
      rw [hv] at ha
      obtain ⟨x, hx, hq⟩ := h.sound v a ha
      exact ⟨x, ⟨v, hv, hx⟩, hq⟩
  complete fields x hx hb := by
    obtain ⟨v, hv, hx⟩ := hx
    obtain ⟨a, ha⟩ := h.complete v x hx (hb v hv)
    refine ⟨a, ?_⟩
    unfold field
    rw [hv, Validation.mapErrors_eq_ok]
    exact ha
  unique fields x y hx hy := by
    obtain ⟨v, hv, hx⟩ := hx
    obtain ⟨u, hu, hy⟩ := hy
    rw [hv] at hu
    cases hu
    exact h.unique v x y hx hy

end

def Known (names : List String) (fields : List (Text × JsonValue)) : Prop :=
  ∀ p ∈ fields, p.1 ∈ names.map codePoints

theorem forbidExtra_ok {names : List String} {fields : List (Text × JsonValue)} :
    forbidExtra names fields = .ok () ↔ Known names fields := by
  have hnil : fields.filter (fun p => !(names.map codePoints).contains p.1) = [] ↔
      Known names fields := by
    simp [List.filter_eq_nil_iff, Known]
  rw [← hnil]
  unfold forbidExtra
  split
  · rename_i h
    exact iff_of_true rfl h
  · rename_i h
    exact iff_of_false nofun h

theorem forbidExtra_raises {names : List String} {fields : List (Text × JsonValue)} :
    ¬(forbidExtra names fields).Raises := by
  unfold forbidExtra
  split <;> simp

def DenotesCurrency (v : JsonValue) (x : Text) : Prop :=
  v = .str x ∧ x.length = 3 ∧ ∀ c ∈ x, 65 ≤ c ∧ c ≤ 90

theorem settles_currency :
    Settles currencyCode DenotesCurrency (fun a x => a.val = x) (fun _ => True) where
  raises v := by
    unfold currencyCode refuse
    split
    · split <;> simp
    · simp
  sound v a h := by
    unfold currencyCode refuse at h
    split at h
    · rename_i t
      split at h
      · rename_i hcode
        cases h
        exact ⟨t, ⟨rfl, hcode⟩, rfl⟩
      · cases h
    · cases h
  complete v x h _ := by
    obtain ⟨rfl, hcode⟩ := h
    exact ⟨_, dif_pos hcode⟩
  unique v x y hx hy := by
    obtain ⟨rfl, -⟩ := hx
    obtain ⟨hy, -⟩ := hy
    cases hy
    rfl

theorem lookup_of_mem {name : String} {v : JsonValue} {fields : List (Text × JsonValue)}
    (hn : (fields.map Prod.fst).Nodup) (h : (codePoints name, v) ∈ fields) :
    lookup name fields = some v := by
  obtain ⟨front, back, hsplit⟩ := List.append_of_mem (List.mem_reverse.mpr h)
  apply List.lookup_eq_some_iff.mpr
  refine ⟨front, back, hsplit, ?_⟩
  intro p hp
  have hreverse : (fields.reverse.map Prod.fst).Nodup := by
    rw [List.map_reverse, List.nodup_reverse]
    exact hn
  rw [hsplit, List.map_append, List.map_cons] at hreverse
  have hdisjoint := List.disjoint_of_nodup_append hreverse (List.mem_map_of_mem hp)
  have hne : codePoints name ≠ p.1 := fun heq => hdisjoint (heq ▸ List.mem_cons_self)
  simpa using hne

/-- Sorted fields are looked up as the fields they come from. -/
theorem lookup_sorted {name : String} {v : JsonValue} {fields : List (Text × JsonValue)}
    (hn : (fields.map Prod.fst).Nodup) (h : (codePoints name, v) ∈ fields) :
    lookup name (sortedBy Prod.fst (sortKeys.sortFields fields)) = some (sortKeys v) := by
  rw [sortFields_eq]
  have hperm := sortedBy_perm Prod.fst (fields.map (Prod.map id sortKeys))
  apply lookup_of_mem
  · rw [(hperm.map Prod.fst).nodup_iff, List.map_map]
    exact hn
  · exact mem_sortedBy.mpr (List.mem_map.mpr ⟨_, h, rfl⟩)

theorem reads_sorted {β : Type} {name : String} {R : JsonValue → β → Prop} {v : JsonValue} {x : β}
    {fields : List (Text × JsonValue)} (hn : (fields.map Prod.fst).Nodup)
    (h : (codePoints name, v) ∈ fields) (hr : R (sortKeys v) x) :
    Reads name R (sortedBy Prod.fst (sortKeys.sortFields fields)) x :=
  ⟨_, lookup_sorted hn h, hr⟩

theorem at_sorted {name : String} {B : JsonValue → Prop} {v : JsonValue}
    {fields : List (Text × JsonValue)} (hn : (fields.map Prod.fst).Nodup)
    (h : (codePoints name, v) ∈ fields) (hb : B (sortKeys v)) :
    At name B (sortedBy Prod.fst (sortKeys.sortFields fields)) := by
  intro u hu
  rw [lookup_sorted hn h] at hu
  cases hu
  exact hb

theorem known_sorted {names : List String} {fields : List (Text × JsonValue)}
    (h : ∀ p ∈ fields, p.1 ∈ names.map codePoints) :
    Known names (sortedBy Prod.fst (sortKeys.sortFields fields)) := by
  intro p hp
  rw [sortFields_eq] at hp
  obtain ⟨q, hq, rfl⟩ := List.mem_map.mp (mem_sortedBy.mp hp)
  exact h q hq

def dumpFields (d : Dump) : List (Text × JsonValue) :=
  [(codePoints "model_provider", .str d.modelProvider), (codePoints "model", .str d.model),
    (codePoints "currency", .str d.currency),
    (codePoints "effective_from", optionalText d.effectiveFrom),
    (codePoints "effective_until", optionalText d.effectiveUntil),
    (codePoints "input_per_million_tokens", .str d.inputPerMillionTokens),
    (codePoints "output_per_million_tokens", .str d.outputPerMillionTokens)]

theorem priceNames_nodup : (priceNames.map codePoints).Nodup := by decide +kernel

theorem dumpFields_nodup (d : Dump) : ((dumpFields d).map Prod.fst).Nodup := priceNames_nodup

theorem sortKeys_optionalText (t : Option Text) : sortKeys (optionalText t) = optionalText t := by
  cases t <;> rfl

def documentFields (id : Text) (dumps : List Dump) : List (Text × JsonValue) :=
  [(codePoints "manifest_id", .str id), (codePoints "prices", .arr (dumps.map Dump.json)),
    (codePoints "version", .int 1)]

theorem documentFields_nodup (id : Text) (dumps : List Dump) :
    ((documentFields id dumps).map Prod.fst).Nodup := by
  have hnames : [codePoints "manifest_id", codePoints "prices", codePoints "version"].Nodup := by
    decide +kernel
  exact hnames

theorem documentFields_known (id : Text) (dumps : List Dump) :
    ∀ p ∈ documentFields id dumps,
      p.1 ∈ ["version", "manifest_id", "prices"].map codePoints := by
  simp [documentFields]

theorem sortKeys_arr (items : List JsonValue) :
    sortKeys (.arr items) = .arr (items.map sortKeys) := by
  rw [sortKeys, sortItems_eq]

/-- Dumps that sort alike are the same, since no time is written as an empty text. -/
theorem sortKey_inj {d e : Dump} (hd : d.effectiveFrom ≠ some [] ∧ d.effectiveUntil ≠ some [])
    (he : e.effectiveFrom ≠ some [] ∧ e.effectiveUntil ≠ some []) (h : d.sortKey = e.sortKey) :
    d = e := by
  have hopt : ∀ {a b : Option Text}, a ≠ some [] → b ≠ some [] → a.getD [] = b.getD [] → a = b := by
    intro a b ha hb hab
    cases a <;> cases b <;> simp_all
  cases d
  cases e
  simp only [Dump.sortKey, List.cons.injEq] at h
  obtain ⟨hprovider, hmodel, hcurrency, hstart, hstop, hinput, houtput, -⟩ := h
  rw [Dump.mk.injEq]
  exact ⟨hprovider, hmodel, hcurrency, hopt hd.1 he.1 hstart, hopt hd.2 he.2 hstop, hinput, houtput⟩

section
variable [Pydantic]

/-- The instants a price applies to. -/
def span (p : ModelPrice) : HalfOpen Int where
  start := p.effectiveFrom.map Subtype.val
  stop := p.effectiveUntil.map Subtype.val
  proper := by
    intro a ha b hb
    obtain ⟨start, hstart, rfl⟩ := Option.mem_map.mp ha
    obtain ⟨stop, hstop, rfl⟩ := Option.mem_map.mp hb
    exact p.interval start hstart stop hstop

theorem startKey_eq (p : ModelPrice) : p.startKey = (span p).lower := by
  change _ = (p.effectiveFrom.map Subtype.val).elim ⊥ WithBot.some
  unfold ModelPrice.startKey
  cases p.effectiveFrom <;> rfl

theorem reaches_eq_false {p q : ModelPrice} :
    reaches p q = false ↔ (span p).Before (span q) := by
  change _ ↔ ∃ b ∈ p.effectiveUntil.map Subtype.val, ∃ a ∈ q.effectiveFrom.map Subtype.val, b ≤ a
  unfold reaches
  cases p.effectiveUntil <;> cases q.effectiveFrom <;> simp

theorem reachesNext_eq_false {p : ModelPrice} {rest : List ModelPrice} :
    reachesNext p rest = false ↔ ((p :: rest).map span).IsChain HalfOpen.Before := by
  induction rest generalizing p with
  | nil => simp [reachesNext]
  | cons q rest ih =>
    rw [reachesNext, Bool.or_eq_false_iff, ih, reaches_eq_false]
    simp only [List.map_cons, List.isChain_cons_cons]

/-- A group has no overlap among neighbours exactly when it has none at all. -/
theorem overlap_eq_false {prices : List ModelPrice} : overlap prices = false ↔
    prices.Pairwise fun p q => Disjoint (span p).points (span q).points := by
  have hsorted := sortedBy_pairwise ModelPrice.startKey prices
  have hperm := sortedBy_perm ModelPrice.startKey prices
  have hsymm : ∀ {p q : ModelPrice}, Disjoint (span p).points (span q).points →
      Disjoint (span q).points (span p).points := fun h => h.symm
  rw [← hperm.pairwise_iff hsymm]
  unfold overlap
  generalize sortedBy ModelPrice.startKey prices = sorted at hsorted
  have hlower : (sorted.map span).Pairwise (fun s t => s.lower ≤ t.lower) := by
    rw [List.pairwise_map]
    apply hsorted.imp
    intro p q hpq
    rwa [startKey_eq, startKey_eq] at hpq
  have hchain := HalfOpen.isChain_iff hlower
  rw [List.pairwise_map] at hchain
  rw [← hchain]
  cases sorted with
  | nil => simp
  | cons p rest => exact reachesNext_eq_false

/-- No two prices of one key overlap. -/
theorem overlapping_eq_none {prices : List ModelPrice} : overlapping prices = none ↔
    prices.Pairwise fun p q => p.key = q.key → Disjoint (span p).points (span q).points := by
  have hgroup : ∀ key, ((prices.map fun p => (p.key, p)).filter (fun e => e.1 = key)).map Prod.snd =
      prices.filter (fun p => p.key = key) := by
    intro key
    rw [List.filter_map, List.map_map]
    exact List.map_id _
  unfold overlapping
  rw [Option.map_eq_none_iff, List.find?_eq_none]
  constructor
  · intro h
    rw [List.pairwise_iff_getElem]
    intro i j hi hj hij hkey
    have hentry : (prices[j].key, prices.filter (fun p => p.key = prices[j].key)) ∈
        (grouped prices).entries := by
      apply (Dict.mem_entries_gather _).mpr
      refine ⟨⟨prices[j], List.mem_map.mpr ⟨prices[j], List.getElem_mem hj, rfl⟩⟩, ?_⟩
      exact (hgroup _).symm
    have hnone := overlap_eq_false.mp (Bool.eq_false_iff.mpr (h _ hentry))
    rw [List.pairwise_filter, List.pairwise_iff_getElem] at hnone
    exact hnone i j hi hj hij (by simpa using hkey) (by simp)
  · intro h e he
    obtain ⟨key, group⟩ := e
    obtain ⟨-, hvalues⟩ := (Dict.mem_entries_gather _).mp he
    rw [hgroup] at hvalues
    subst hvalues
    rw [Bool.not_eq_true, overlap_eq_false, List.pairwise_filter]
    apply h.imp
    intro p q hpq hp hq
    exact hpq (by simpa using (of_decide_eq_true hp).trans (of_decide_eq_true hq).symm)

def DenotesText (v : JsonValue) (x : Text) : Prop := ∃ t, v = .str t ∧ Pydantic.strip t = x ∧ x ≠ []

/-- The exact number of a decimal string. -/
def DenotesPrice (v : JsonValue) (x : ℚ) : Prop :=
  ∃ t whole fraction, v = .str t ∧
    pricePattern Pydantic.digits (t.map Char.ofNat) = some (whole, fraction) ∧
    denote Pydantic.digits whole fraction = x

/-- The exact instant of a time string, where `null` stands for no bound. -/
def DenotesTime (v : JsonValue) (x : Option Int) : Prop :=
  (v = .null ∧ x = none) ∨
    ∃ t d, v = .str t ∧ Pydantic.readTime t = some d ∧ some d.instant = x

/-- A price that does not overflow. -/
def BoundedPrice (v : JsonValue) : Prop := ∀ x, DenotesPrice v x → x < defaultContext.limit

/-- A time that a `datetime` in UTC holds. -/
def BoundedTime (v : JsonValue) : Prop :=
  ∀ t d, v = .str t → Pydantic.readTime t = some d → d.Representable

theorem settles_text :
    Settles nonEmptyText DenotesText (fun a x => a.val = x) (fun _ => True) where
  raises v := by
    unfold nonEmptyText refuse
    split
    · split <;> simp
    · simp
  sound v a h := by
    unfold nonEmptyText refuse at h
    split at h
    · rename_i t
      split at h
      · cases h
      · rename_i hne
        cases h
        exact ⟨_, ⟨t, rfl, rfl, hne⟩, rfl⟩
    · cases h
  complete v x h _ := by
    obtain ⟨t, rfl, rfl, hne⟩ := h
    exact ⟨_, dif_neg hne⟩
  unique v x y hx hy := by
    obtain ⟨t, rfl, rfl, -⟩ := hx
    obtain ⟨u, hu, rfl, -⟩ := hy
    cases hu
    rfl

theorem validatePriceInput_ok {v : JsonValue} {d : Decimal} :
    validatePriceInput v = .ok d ↔ ∃ t whole fraction, v = .str t ∧
      pricePattern Pydantic.digits (t.map Char.ofNat) = some (whole, fraction) ∧
      ofParts Pydantic.digits whole fraction = d := by
  unfold validatePriceInput refuse
  split
  · rename_i t
    split
    · rename_i whole fraction hpattern
      simp [hpattern]
    · rename_i hpattern
      simp [hpattern]
  · rename_i hstr
    constructor
    · exact nofun
    · rintro ⟨t, whole, fraction, rfl, -⟩
      exact (hstr t rfl).elim

theorem validatePriceInput_raises {v : JsonValue} : ¬(validatePriceInput v).Raises := by
  unfold validatePriceInput refuse
  split
  · split <;> simp
  · simp

theorem denotesPrice_iff {v : JsonValue} {x : ℚ} :
    DenotesPrice v x ↔ ∃ d, validatePriceInput v = .ok d ∧ d.value = x := by
  simp only [validatePriceInput_ok]
  constructor
  · rintro ⟨t, whole, fraction, hv, hpattern, hx⟩
    exact ⟨_, ⟨t, whole, fraction, hv, hpattern, rfl⟩, by rw [ofParts_value, hx]⟩
  · rintro ⟨d, ⟨t, whole, fraction, hv, hpattern, rfl⟩, hx⟩
    exact ⟨t, whole, fraction, hv, hpattern, by rw [← ofParts_value, hx]⟩

theorem settles_price : Settles price DenotesPrice
    (fun p x => p.val.value = x ↔ Representable defaultContext x) BoundedPrice where
  raises v := by
    unfold price BoundedPrice
    rw [Validation.bind_raises, or_iff_right validatePriceInput_raises]
    simp only [denotesPrice_iff, normalizePrice_raises]
    push Not
    constructor
    · rintro ⟨d, hd, hle⟩
      exact ⟨_, ⟨d, hd, rfl⟩, hle⟩
    · rintro ⟨_, ⟨d, hd, rfl⟩, hle⟩
      exact ⟨d, hd, hle⟩
  sound v p h := by
    obtain ⟨d, hd, hp⟩ := Validation.bind_eq_ok.mp h
    exact ⟨d.value, denotesPrice_iff.mpr ⟨d, hd, rfl⟩, normalizePrice_value hp⟩
  complete v x h hb := by
    obtain ⟨d, hd, rfl⟩ := denotesPrice_iff.mp h
    obtain ⟨p, hp⟩ := normalizePrice_ok (hb _ h)
    exact ⟨p, Validation.bind_eq_ok.mpr ⟨d, hd, hp⟩⟩
  unique v x y hx hy := by
    obtain ⟨d, hd, rfl⟩ := denotesPrice_iff.mp hx
    obtain ⟨e, he, rfl⟩ := denotesPrice_iff.mp hy
    rw [hd] at he
    cases he
    rfl

theorem timeBound_str {t : Text} {d : Datetime} (h : Pydantic.readTime t = some d) :
    timeBound (.str t) = normalizeTime (some d) := by
  unfold timeBound validateTimeInput
  simp only [h]
  rfl

theorem timeBound_refused {t : Text} (h : Pydantic.readTime t = none) :
    timeBound (.str t) = refuse .native := by
  unfold timeBound validateTimeInput
  simp only [h]
  rfl

theorem settles_time : Settles timeBound DenotesTime (fun o x => o.map Subtype.val = x)
    BoundedTime where
  raises v := by
    unfold BoundedTime
    cases v with
    | str t =>
      cases ht : Pydantic.readTime t with
      | none =>
        rw [timeBound_refused ht]
        simp [refuse, ht]
      | some d =>
        rw [timeBound_str ht, normalizeTime_raises]
        simp [ht]
    | _ => simp [timeBound, validateTimeInput, normalizeTime, Validation.bind, refuse]
  sound v o h := by
    cases v with
    | null =>
      cases h
      exact ⟨none, Or.inl ⟨rfl, rfl⟩, rfl⟩
    | str t =>
      cases ht : Pydantic.readTime t with
      | none =>
        rw [timeBound_refused ht] at h
        cases h
      | some d =>
        rw [timeBound_str ht] at h
        exact ⟨some d.instant, Or.inr ⟨t, d, rfl, ht, rfl⟩, normalizeTime_value h⟩
    | _ => cases h
  complete v x h hb := by
    rcases h with ⟨rfl, -⟩ | ⟨t, d, rfl, ht, -⟩
    · exact ⟨none, rfl⟩
    · rw [timeBound_str ht]
      have hutc := mt Datetime.astimezone_eq_none.mp (not_not.mpr (hb t d rfl ht))
      obtain ⟨utc, hutc⟩ := Option.ne_none_iff_exists'.mp hutc
      exact ⟨_, normalizeTime_some hutc⟩
  unique v x y hx hy := by
    rcases hx with ⟨rfl, rfl⟩ | ⟨t, d, rfl, ht, rfl⟩
    · rcases hy with ⟨-, rfl⟩ | ⟨u, e, hu, -, -⟩
      · rfl
      · cases hu
    · rcases hy with ⟨hnull, -⟩ | ⟨u, e, hu, he, rfl⟩
      · cases hnull
      · cases hu
        rw [ht] at he
        cases he
        rfl

/-- A price as exact numbers over an interval of instants. -/
@[ext] structure Entry where
  provider : Text
  model : Text
  currency : Text
  interval : HalfOpen Int
  input : ℚ
  output : ℚ

def Entry.key (e : Entry) : PriceKey := (e.provider, e.model, e.currency)

def entry (p : ModelPrice) : Entry where
  provider := p.modelProvider
  model := p.model
  currency := p.currency
  interval := span p
  input := p.inputPerMillionTokens.val.value
  output := p.outputPerMillionTokens.val.value

/-- What the fields of a well-formed entry denote. -/
structure FieldsDenote (fields : List (Text × JsonValue)) (e : Entry) : Prop where
  known : Known priceNames fields
  provider : Reads "model_provider" DenotesText fields e.provider
  model : Reads "model" DenotesText fields e.model
  currency : Reads "currency" DenotesCurrency fields e.currency
  start : Reads "effective_from" DenotesTime fields e.interval.start
  stop : Reads "effective_until" DenotesTime fields e.interval.stop
  input : Reads "input_per_million_tokens" DenotesPrice fields e.input
  output : Reads "output_per_million_tokens" DenotesPrice fields e.output

def DenotesEntry (v : JsonValue) (e : Entry) : Prop :=
  ∃ fields, v = .obj fields ∧ FieldsDenote fields e

/-- No exception comes from the fields of an entry. -/
structure FieldsBounded (fields : List (Text × JsonValue)) : Prop where
  start : At "effective_from" BoundedTime fields
  stop : At "effective_until" BoundedTime fields
  input : At "input_per_million_tokens" BoundedPrice fields
  output : At "output_per_million_tokens" BoundedPrice fields

def BoundedEntry (v : JsonValue) : Prop := ∀ fields, v = .obj fields → FieldsBounded fields

/-- The context can hold both prices. -/
def Entry.Representable (e : Entry) : Prop :=
  DecimalNumbers.Representable defaultContext e.input ∧
    DecimalNumbers.Representable defaultContext e.output

/-- A price over the interval of an entry, with the prices that the context holds. -/
structure Rounds (p : ModelPrice) (e : Entry) : Prop where
  key : p.key = e.key
  interval : span p = e.interval
  input : p.inputPerMillionTokens.val.value = e.input ↔
    DecimalNumbers.Representable defaultContext e.input
  output : p.outputPerMillionTokens.val.value = e.output ↔
    DecimalNumbers.Representable defaultContext e.output

theorem priceFields_ok {fields : List (Text × JsonValue)} {p : PriceFields} :
    priceFields fields = .ok p ↔
      field "model_provider" nonEmptyText fields = .ok p.modelProvider ∧
      field "model" nonEmptyText fields = .ok p.model ∧
      field "currency" currencyCode fields = .ok p.currency ∧
      field "effective_from" timeBound fields = .ok p.effectiveFrom ∧
      field "effective_until" timeBound fields = .ok p.effectiveUntil ∧
      field "input_per_million_tokens" price fields = .ok p.inputPerMillionTokens ∧
      field "output_per_million_tokens" price fields = .ok p.outputPerMillionTokens ∧
      Known priceNames fields := by
  unfold priceFields
  simp only [Validation.seq_eq_ok]
  constructor
  · rintro ⟨_, _, ⟨_, output, ⟨_, input, ⟨_, stop, ⟨_, start, ⟨_, currency, ⟨_, model,
      ⟨_, provider, ⟨⟩, hprovider, rfl⟩, hmodel, rfl⟩, hcurrency, rfl⟩, hstart, rfl⟩, hstop, rfl⟩,
      hinput, rfl⟩, houtput, rfl⟩, hextra, rfl⟩
    exact ⟨hprovider, hmodel, hcurrency, hstart, hstop, hinput, houtput, forbidExtra_ok.mp hextra⟩
  · rintro ⟨hprovider, hmodel, hcurrency, hstart, hstop, hinput, houtput, hknown⟩
    exact ⟨_, (), ⟨_, _, ⟨_, _, ⟨_, _, ⟨_, _, ⟨_, _, ⟨_, _, ⟨_, _, rfl, hprovider, rfl⟩, hmodel,
      rfl⟩, hcurrency, rfl⟩, hstart, rfl⟩, hstop, rfl⟩, hinput, rfl⟩, houtput, rfl⟩,
      forbidExtra_ok.mpr hknown, rfl⟩

theorem fieldsBounded_iff {fields : List (Text × JsonValue)} : FieldsBounded fields ↔
    ((At "effective_from" BoundedTime fields ∧ At "effective_until" BoundedTime fields) ∧
      At "input_per_million_tokens" BoundedPrice fields) ∧
      At "output_per_million_tokens" BoundedPrice fields :=
  ⟨fun h => ⟨⟨⟨h.start, h.stop⟩, h.input⟩, h.output⟩, fun h => ⟨h.1.1.1, h.1.1.2, h.1.2, h.2⟩⟩

theorem priceFields_raises {fields : List (Text × JsonValue)} :
    (priceFields fields).Raises ↔ ¬FieldsBounded fields := by
  have htext : ∀ name, ¬(field name nonEmptyText fields).Raises := fun name h =>
    ((settles_field settles_text name).raises fields).mp h fun _ _ => trivial
  have hcurrency : ¬(field "currency" currencyCode fields).Raises := fun h =>
    ((settles_field settles_currency "currency").raises fields).mp h fun _ _ => trivial
  have hstart := (settles_field settles_time "effective_from").raises fields
  have hstop := (settles_field settles_time "effective_until").raises fields
  have hinput := (settles_field settles_price "input_per_million_tokens").raises fields
  have houtput := (settles_field settles_price "output_per_million_tokens").raises fields
  unfold priceFields
  rw [Validation.seq_raises, or_iff_left forbidExtra_raises, Validation.seq_raises,
    Validation.seq_raises, Validation.seq_raises, Validation.seq_raises, Validation.seq_raises,
    or_iff_left hcurrency, Validation.seq_raises, or_iff_left (htext _), Validation.seq_raises,
    or_iff_left (htext _), or_iff_right Validation.ok_raises, hstart, hstop, hinput, houtput,
    fieldsBounded_iff, not_and_or, not_and_or, not_and_or]

theorem validateInterval_ok {p : PriceFields} {q : ModelPrice} :
    validateInterval p = .ok q ↔ q.toPriceFields = p := by
  unfold validateInterval refuse
  split
  · rename_i h
    constructor
    · intro heq
      cases heq
      rfl
    · rintro rfl
      rfl
  · rename_i h
    constructor
    · exact nofun
    · rintro rfl
      exact (h q.interval).elim

theorem validateInterval_raises {p : PriceFields} : ¬(validateInterval p).Raises := by
  unfold validateInterval refuse
  split <;> simp

theorem settles_entry : Settles modelPrice DenotesEntry Rounds BoundedEntry where
  raises v := by
    unfold BoundedEntry
    cases v with
    | obj fields =>
      rw [modelPrice, Validation.bind_raises, priceFields_raises]
      simp [validateInterval_raises]
    | _ => simp [modelPrice, refuse]
  sound v q h := by
    cases v with
    | obj fields =>
      obtain ⟨p, hp, hq⟩ := Validation.bind_eq_ok.mp h
      obtain rfl := validateInterval_ok.mp hq
      obtain ⟨hprovider, hmodel, hcurrency, hstart, hstop, hinput, houtput, hknown⟩ :=
        priceFields_ok.mp hp
      obtain ⟨provider, hprovider, rfl⟩ := (settles_field settles_text _).sound _ _ hprovider
      obtain ⟨model, hmodel, rfl⟩ := (settles_field settles_text _).sound _ _ hmodel
      obtain ⟨currency, hcurrency, rfl⟩ := (settles_field settles_currency _).sound _ _ hcurrency
      obtain ⟨start, hstart, rfl⟩ := (settles_field settles_time _).sound _ _ hstart
      obtain ⟨stop, hstop, rfl⟩ := (settles_field settles_time _).sound _ _ hstop
      obtain ⟨input, hinput, hin⟩ := (settles_field settles_price _).sound _ _ hinput
      obtain ⟨output, houtput, hout⟩ := (settles_field settles_price _).sound _ _ houtput
      refine ⟨⟨_, _, _, span q, input, output⟩, ⟨fields, rfl, ?_⟩, rfl, rfl, hin, hout⟩
      exact ⟨hknown, hprovider, hmodel, hcurrency, hstart, hstop, hinput, houtput⟩
    | _ => cases h
  complete v e h hb := by
    obtain ⟨fields, rfl, hd⟩ := h
    have hbound := hb fields rfl
    obtain ⟨provider, hprovider⟩ :=
      (settles_field settles_text _).complete _ _ hd.provider fun _ _ => trivial
    obtain ⟨model, hmodel⟩ :=
      (settles_field settles_text _).complete _ _ hd.model fun _ _ => trivial
    obtain ⟨currency, hcurrency⟩ :=
      (settles_field settles_currency _).complete _ _ hd.currency fun _ _ => trivial
    obtain ⟨start, hstart⟩ :=
      (settles_field settles_time _).complete _ _ hd.start hbound.start
    obtain ⟨stop, hstop⟩ := (settles_field settles_time _).complete _ _ hd.stop hbound.stop
    obtain ⟨input, hinput⟩ := (settles_field settles_price _).complete _ _ hd.input hbound.input
    obtain ⟨output, houtput⟩ :=
      (settles_field settles_price _).complete _ _ hd.output hbound.output
    have hinterval : ∀ a ∈ start, ∀ b ∈ stop, a.val < b.val := by
      intro a ha b hb
      apply e.interval.proper
      · rw [← (settles_field settles_time _).related hstart hd.start]
        exact Option.mem_map_of_mem _ ha
      · rw [← (settles_field settles_time _).related hstop hd.stop]
        exact Option.mem_map_of_mem _ hb
    refine ⟨⟨⟨provider, model, currency, start, stop, input, output⟩, hinterval⟩, ?_⟩
    refine Validation.bind_eq_ok.mpr ⟨_, ?_, validateInterval_ok.mpr rfl⟩
    exact priceFields_ok.mpr
      ⟨hprovider, hmodel, hcurrency, hstart, hstop, hinput, houtput, hd.known⟩
  unique v e e' h h' := by
    obtain ⟨fields, rfl, hd⟩ := h
    obtain ⟨fields', heq, hd'⟩ := h'
    cases heq
    apply Entry.ext
    · exact (settles_field settles_text _).unique _ _ _ hd.provider hd'.provider
    · exact (settles_field settles_text _).unique _ _ _ hd.model hd'.model
    · exact (settles_field settles_currency _).unique _ _ _ hd.currency hd'.currency
    · apply HalfOpen.ext
      · exact (settles_field settles_time _).unique _ _ _ hd.start hd'.start
      · exact (settles_field settles_time _).unique _ _ _ hd.stop hd'.stop
    · exact (settles_field settles_price _).unique _ _ _ hd.input hd'.input
    · exact (settles_field settles_price _).unique _ _ _ hd.output hd'.output

end

end Sediment.Proofs.PriceEntries

import Sediment.Core.IsoFormat
import Sediment.Proofs.PriceEntries

namespace Sediment.Proofs.PriceManifest
open Base Decimals JsonScan DecimalNumbers Sediment.Core Export.PriceManifest PriceEntries
open Base.Validation (Settles)

section
variable [Pydantic]

def DenotesPrices (v : JsonValue) (entries : List Entry) : Prop :=
  ∃ items, v = .arr items ∧ List.Forall₂ DenotesEntry items entries ∧ entries ≠ []

def BoundedPrices (v : JsonValue) : Prop :=
  ∀ items, v = .arr items → ∀ item ∈ items, BoundedEntry item

theorem settles_priceList : Settles priceList DenotesPrices
    (fun prices entries => List.Forall₂ Rounds prices.val entries) BoundedPrices where
  raises v := by
    unfold BoundedPrices
    cases v with
    | arr items =>
      have hitems := (settles_entry.each (fun i => LineError.under (.index i)) 0).raises items
      rw [priceList, Validation.bind_raises, hitems]
      have hnone : ¬∃ prices, Validation.each modelPrice (fun i => LineError.under (.index i)) 0
          items = .ok prices ∧ (if h : prices = [] then refuse .native else
            Validation.ok ⟨prices, h⟩ : Validated PriceList).Raises := by
        rintro ⟨prices, -, hraises⟩
        split at hraises <;> simp [refuse] at hraises
      rw [or_iff_left hnone]
      simp
    | _ => simp [priceList, refuse]
  sound v prices h := by
    cases v with
    | arr items =>
      obtain ⟨all, hall, hprices⟩ := Validation.bind_eq_ok.mp h
      split at hprices
      · cases hprices
      · rename_i hne
        cases hprices
        obtain ⟨entries, hentries, hrounds⟩ := (settles_entry.each _ 0).sound _ _ hall
        refine ⟨entries, ⟨items, rfl, hentries, ?_⟩, hrounds⟩
        rintro rfl
        exact hne (List.forall₂_nil_right_iff.mp hrounds)
    | _ => cases h
  complete v entries h hb := by
    obtain ⟨items, rfl, hentries, hne⟩ := h
    obtain ⟨prices, hprices⟩ := (settles_entry.each _ 0).complete _ _ hentries (hb items rfl)
    have hrounds := (settles_entry.each _ 0).related hprices hentries
    have hnonempty : prices ≠ [] := by
      rintro rfl
      exact hne (List.forall₂_nil_left_iff.mp hrounds)
    exact ⟨⟨prices, hnonempty⟩, Validation.bind_eq_ok.mpr ⟨prices, hprices, dif_neg hnonempty⟩⟩
  unique v entries entries' h h' := by
    obtain ⟨items, rfl, hentries, -⟩ := h
    obtain ⟨items', heq, hentries', -⟩ := h'
    cases heq
    exact (settles_entry.each (fun _ => id) 0).unique _ _ _ hentries hentries'

theorem settles_version : Settles version (fun v (_ : Unit) => Pydantic.isOne v = true)
    (fun _ _ => True) (fun _ => True) where
  raises v := by
    unfold version refuse
    split <;> simp
  sound v _ h := by
    unfold version refuse at h
    split at h
    · rename_i hone
      exact ⟨(), hone, trivial⟩
    · cases h
  complete v _ h _ := ⟨(), if_pos h⟩
  unique _ _ _ _ _ := rfl

/-- What the fields of a well-formed document denote. -/
structure DocumentDenotes (fields : List (Text × JsonValue)) (id : Text) (entries : List Entry) :
    Prop where
  known : Known ["version", "manifest_id", "prices"] fields
  version : Reads "version" (fun v (_ : Unit) => Pydantic.isOne v = true) fields ()
  manifestId : Reads "manifest_id" DenotesText fields id
  prices : Reads "prices" DenotesPrices fields entries

/-- A document with well-formed fields, its identifier and its entries. -/
def Denotes (v : JsonValue) (id : Text) (entries : List Entry) : Prop :=
  ∃ fields, v = .obj fields ∧ DocumentDenotes fields id entries

/-- No price of the document overflows, and no bound leaves the calendar. -/
def Bounded (v : JsonValue) : Prop := ∀ fields, v = .obj fields → At "prices" BoundedPrices fields

/-- No two entries of one provider, model and currency share an instant. -/
def Apart (entries : List Entry) : Prop :=
  entries.Pairwise fun a b => a.key = b.key → Disjoint a.interval.points b.interval.points

theorem overlapping_iff {prices : List ModelPrice} {entries : List Entry}
    (h : List.Forall₂ Rounds prices entries) : overlapping prices = none ↔ Apart entries := by
  rw [overlapping_eq_none]
  unfold Apart
  induction h with
  | nil => simp
  | cons hp hrest ih =>
    rename_i p e prices entries
    rw [List.pairwise_cons, List.pairwise_cons, ih]
    apply and_congr_left'
    clear ih
    induction hrest with
    | nil => simp
    | cons hq _ ih =>
      rw [List.forall_mem_cons, List.forall_mem_cons, ih, hp.key, hq.key, hp.interval,
        hq.interval]

theorem manifestFields_ok {fields : List (Text × JsonValue)} {id : NonEmptyText}
    {prices : PriceList} : manifestFields fields = .ok (id, prices) ↔
      field "version" version fields = .ok () ∧
      field "manifest_id" nonEmptyText fields = .ok id ∧
      field "prices" priceList fields = .ok prices ∧
      Known ["version", "manifest_id", "prices"] fields := by
  unfold manifestFields
  simp only [Validation.seq_eq_ok]
  constructor
  · rintro ⟨_, _, ⟨_, _, ⟨_, _, ⟨_, _, ⟨⟩, hversion, rfl⟩, hid, rfl⟩, hprices, rfl⟩, hextra, heq⟩
    cases heq
    exact ⟨hversion, hid, hprices, forbidExtra_ok.mp hextra⟩
  · rintro ⟨hversion, hid, hprices, hknown⟩
    exact ⟨_, (), ⟨_, _, ⟨_, _, ⟨_, _, rfl, hversion, rfl⟩, hid, rfl⟩, hprices, rfl⟩,
      forbidExtra_ok.mpr hknown, rfl⟩

theorem manifestFields_raises {fields : List (Text × JsonValue)} :
    (manifestFields fields).Raises ↔ ¬At "prices" BoundedPrices fields := by
  have hversion : ¬(field "version" version fields).Raises := fun h =>
    ((settles_field settles_version "version").raises fields).mp h fun _ _ => trivial
  have hid : ¬(field "manifest_id" nonEmptyText fields).Raises := fun h =>
    ((settles_field settles_text "manifest_id").raises fields).mp h fun _ _ => trivial
  have hprices := (settles_field settles_priceList "prices").raises fields
  unfold manifestFields
  rw [Validation.seq_raises, or_iff_left forbidExtra_raises, Validation.seq_raises,
    Validation.seq_raises, or_iff_left hid, Validation.seq_raises, or_iff_left hversion,
    or_iff_right Validation.ok_raises, hprices]

theorem rejectOverlappingPrices_ok {id : NonEmptyText} {prices : PriceList} {m : Manifest} :
    rejectOverlappingPrices (id, prices) = .ok m ↔ m.manifestId = id ∧ m.prices = prices := by
  unfold rejectOverlappingPrices refuse
  split
  · constructor
    · intro h
      cases h
      exact ⟨rfl, rfl⟩
    · rintro ⟨hid, hprices⟩
      cases m
      cases hid
      cases hprices
      rfl
  · rename_i key hkey
    constructor
    · exact nofun
    · rintro ⟨-, hprices⟩
      have hnone := m.apart
      rw [hprices, hkey] at hnone
      cases hnone

theorem rejectOverlappingPrices_raises {x : NonEmptyText × PriceList} :
    ¬(rejectOverlappingPrices x).Raises := by
  unfold rejectOverlappingPrices refuse
  split <;> simp

/-- An exception other than a validation error comes from an unbounded price or time only. -/
theorem modelValidate_raises {v : JsonValue} : (modelValidate v).Raises ↔ ¬Bounded v := by
  unfold Bounded
  cases v with
  | obj fields =>
    rw [modelValidate, Validation.bind_raises, manifestFields_raises]
    simp [rejectOverlappingPrices_raises]
  | _ => simp [modelValidate, refuse]

/-- What is accepted is well-formed. -/
theorem modelValidate_sound {v : JsonValue} {m : Manifest} (h : modelValidate v = .ok m) :
    ∃ entries, Denotes v m.manifestId entries ∧ List.Forall₂ Rounds m.prices entries := by
  cases v with
  | obj fields =>
    obtain ⟨⟨id, prices⟩, hfields, hm⟩ := Validation.bind_eq_ok.mp h
    obtain ⟨hid, hprices⟩ := rejectOverlappingPrices_ok.mp hm
    obtain ⟨hversion, hid', hprices', hknown⟩ := manifestFields_ok.mp hfields
    obtain ⟨_, hversion, -⟩ := (settles_field settles_version _).sound _ _ hversion
    obtain ⟨_, hid', rfl⟩ := (settles_field settles_text _).sound _ _ hid'
    obtain ⟨entries, hentries, hrounds⟩ := (settles_field settles_priceList _).sound _ _ hprices'
    rw [hid, hprices]
    exact ⟨entries, ⟨fields, rfl, hknown, hversion, hid', hentries⟩, hrounds⟩
  | _ => cases h

/-- Well-formed entries without overlap are accepted. -/
theorem modelValidate_complete {v : JsonValue} {id : Text} {entries : List Entry}
    (h : Denotes v id entries) (hb : Bounded v) (hapart : Apart entries) :
    ∃ m, modelValidate v = .ok m := by
  obtain ⟨fields, rfl, hd⟩ := h
  obtain ⟨_, hversion⟩ :=
    (settles_field settles_version _).complete _ _ hd.version fun _ _ => trivial
  obtain ⟨id', hid⟩ := (settles_field settles_text _).complete _ _ hd.manifestId fun _ _ => trivial
  obtain ⟨prices, hprices⟩ :=
    (settles_field settles_priceList _).complete _ _ hd.prices (hb fields rfl)
  have hrounds := (settles_field settles_priceList _).related hprices hd.prices
  have hnone := (overlapping_iff hrounds).mpr hapart
  refine ⟨⟨id', prices.val, prices.property, hnone⟩,
    Validation.bind_eq_ok.mpr ⟨(id', prices), ?_, ?_⟩⟩
  · exact manifestFields_ok.mpr ⟨hversion, hid, hprices, hd.known⟩
  · exact rejectOverlappingPrices_ok.mpr ⟨rfl, rfl⟩

theorem denotes_unique {v : JsonValue} {id id' : Text} {entries entries' : List Entry}
    (h : Denotes v id entries) (h' : Denotes v id' entries') : id = id' ∧ entries = entries' := by
  obtain ⟨fields, rfl, hd⟩ := h
  obtain ⟨fields', heq, hd'⟩ := h'
  cases heq
  exact ⟨(settles_field settles_text _).unique _ _ _ hd.manifestId hd'.manifestId,
    (settles_field settles_priceList _).unique _ _ _ hd.prices hd'.prices⟩

/-- The entries of a manifest, as exact numbers and instants. -/
def entries (m : Manifest) : List Entry := m.prices.map entry

theorem entry_eq {p : ModelPrice} {e : Entry} (h : Rounds p e) (hrep : e.Representable) :
    entry p = e := by
  have hkey := Prod.mk.inj h.key
  obtain ⟨hmodel, hcurrency⟩ := Prod.mk.inj hkey.2
  exact Entry.ext hkey.1 hmodel hcurrency h.interval (h.input.mpr hrep.1) (h.output.mpr hrep.2)

theorem entry_representable (p : ModelPrice) : (entry p).Representable :=
  ⟨p.inputPerMillionTokens.property.2, p.outputPerMillionTokens.property.2⟩

theorem entries_eq {prices : List ModelPrice} {es : List Entry}
    (h : List.Forall₂ Rounds prices es) (hrep : ∀ e ∈ es, e.Representable) :
    prices.map entry = es := by
  induction h with
  | nil => rfl
  | cons hp _ ih =>
    obtain ⟨he, hes⟩ := List.forall_mem_cons.mp hrep
    rw [List.map_cons, entry_eq hp he, ih hes]

theorem rounds_entry (p : ModelPrice) : Rounds p (entry p) :=
  ⟨rfl, rfl, iff_of_true rfl (entry_representable p).1, iff_of_true rfl (entry_representable p).2⟩

theorem rounds_entries (prices : List ModelPrice) :
    List.Forall₂ Rounds prices (prices.map entry) := by
  induction prices with
  | nil => exact .nil
  | cons p prices ih => exact .cons (rounds_entry p) ih

theorem entries_apart (m : Manifest) : Apart (entries m) :=
  (overlapping_iff (rounds_entries m.prices)).mp m.apart

theorem denotesText_str (t : NonEmptyText) : DenotesText (.str t.val) t.val :=
  ⟨t.val, rfl, t.property⟩

theorem denotesPrice_serializePrice (p : Price) :
    DenotesPrice (.str (serializePrice p)) p.val.value := by
  obtain ⟨whole, fraction, hpattern, hvalue⟩ :=
    pricePattern_fixedText Pydantic.digits p.property.1
  refine ⟨_, whole, fraction, rfl, ?_, hvalue⟩
  rw [serializePrice, map_ofNat_toNat]
  exact hpattern

theorem boundedPrice_serializePrice (p : Price) : BoundedPrice (.str (serializePrice p)) := by
  intro x hx
  rw [← settles_price.unique _ _ _ (denotesPrice_serializePrice p) hx]
  exact p.property.2.lt_limit

theorem denotesTime_optionalText (o : Option Instant) :
    DenotesTime (optionalText (o.map Pydantic.writeTime)) (o.map Subtype.val) := by
  cases o with
  | none => exact Or.inl ⟨rfl, rfl⟩
  | some t =>
    obtain ⟨d, hd, hinstant⟩ := Pydantic.readTime_writeTime t
    exact Or.inr ⟨_, d, rfl, hd, congrArg some hinstant⟩

theorem boundedTime_optionalText (o : Option Instant) :
    BoundedTime (optionalText (o.map Pydantic.writeTime)) := by
  intro u d hu hd
  cases o with
  | none => cases hu
  | some t =>
    obtain ⟨d', hd', hinstant⟩ := Pydantic.readTime_writeTime t
    cases hu
    rw [hd'] at hd
    cases hd
    unfold Datetime.Representable
    rw [hinstant]
    exact t.property

/-- The entry that a price is dumped to denotes the price. -/
theorem denotesEntry_dump (p : ModelPrice) : DenotesEntry (sortKeys p.dump.json) (entry p) := by
  have hn := dumpFields_nodup p.dump
  refine ⟨_, rfl, ?_, ?_, ?_, ?_, ?_, ?_, ?_, ?_⟩
  · apply known_sorted
    intro q hq
    have hkeys : (dumpFields p.dump).map Prod.fst = priceNames.map codePoints := rfl
    rw [← hkeys]
    exact List.mem_map_of_mem hq
  · apply reads_sorted (v := .str p.modelProvider) hn
    · simp [dumpFields, ModelPrice.dump]
    · exact denotesText_str p.modelProvider
  · apply reads_sorted (v := .str p.model) hn
    · simp [dumpFields, ModelPrice.dump]
    · exact denotesText_str p.model
  · apply reads_sorted (v := .str p.currency) hn
    · simp [dumpFields, ModelPrice.dump]
    · exact ⟨rfl, p.currency.property⟩
  · apply reads_sorted (v := optionalText p.dump.effectiveFrom) hn
    · simp [dumpFields]
    · rw [sortKeys_optionalText]
      exact denotesTime_optionalText p.effectiveFrom
  · apply reads_sorted (v := optionalText p.dump.effectiveUntil) hn
    · simp [dumpFields]
    · rw [sortKeys_optionalText]
      exact denotesTime_optionalText p.effectiveUntil
  · apply reads_sorted (v := .str (serializePrice p.inputPerMillionTokens)) hn
    · simp [dumpFields, ModelPrice.dump]
    · exact denotesPrice_serializePrice p.inputPerMillionTokens
  · apply reads_sorted (v := .str (serializePrice p.outputPerMillionTokens)) hn
    · simp [dumpFields, ModelPrice.dump]
    · exact denotesPrice_serializePrice p.outputPerMillionTokens

theorem boundedEntry_dump (p : ModelPrice) : BoundedEntry (sortKeys p.dump.json) := by
  have hn := dumpFields_nodup p.dump
  intro fields hfields
  cases hfields
  change FieldsBounded (sortedBy Prod.fst (sortKeys.sortFields (dumpFields p.dump)))
  refine ⟨?_, ?_, ?_, ?_⟩
  · refine at_sorted (B := BoundedTime) (v := optionalText p.dump.effectiveFrom) hn ?_ ?_
    · simp [dumpFields]
    · rw [sortKeys_optionalText]
      exact boundedTime_optionalText p.effectiveFrom
  · refine at_sorted (B := BoundedTime) (v := optionalText p.dump.effectiveUntil) hn ?_ ?_
    · simp [dumpFields]
    · rw [sortKeys_optionalText]
      exact boundedTime_optionalText p.effectiveUntil
  · refine at_sorted (B := BoundedPrice)
      (v := .str (serializePrice p.inputPerMillionTokens)) hn ?_ ?_
    · simp [dumpFields, ModelPrice.dump]
    · exact boundedPrice_serializePrice p.inputPerMillionTokens
  · refine at_sorted (B := BoundedPrice)
      (v := .str (serializePrice p.outputPerMillionTokens)) hn ?_ ?_
    · simp [dumpFields, ModelPrice.dump]
    · exact boundedPrice_serializePrice p.outputPerMillionTokens

/-- The prices of a manifest as its canonical text lists them. -/
def listed (m : Manifest) : List ModelPrice := sortedBy (fun p => p.dump.sortKey) m.prices

theorem document_eq (m : Manifest) :
    m.document = .obj (documentFields m.manifestId ((listed m).map ModelPrice.dump)) := by
  unfold Manifest.document listed
  rw [sortedBy_map]
  rfl

theorem items_eq (m : Manifest) :
    sortKeys (.arr (((listed m).map ModelPrice.dump).map Dump.json)) =
      .arr ((listed m).map fun p => sortKeys p.dump.json) := by
  rw [sortKeys_arr, List.map_map, List.map_map]
  rfl

theorem listed_perm (m : Manifest) : ((listed m).map entry).Perm (entries m) :=
  (sortedBy_perm _ m.prices).map entry

/-- The canonical document denotes the entries of the manifest. -/
theorem denotes_document (m : Manifest) :
    Denotes (sortKeys m.document) m.manifestId ((listed m).map entry) := by
  rw [document_eq]
  have hn := documentFields_nodup m.manifestId ((listed m).map ModelPrice.dump)
  refine ⟨_, rfl, known_sorted (documentFields_known _ _), ?_, ?_, ?_⟩
  · apply reads_sorted (v := .int 1) hn
    · simp [documentFields]
    · exact Pydantic.isOne_one
  · apply reads_sorted (v := .str m.manifestId) hn
    · simp [documentFields]
    · exact denotesText_str m.manifestId
  · apply reads_sorted (v := .arr (((listed m).map ModelPrice.dump).map Dump.json)) hn
    · simp [documentFields]
    · refine ⟨_, items_eq m, ?_, ?_⟩
      · rw [List.forall₂_map_left_iff, List.forall₂_map_right_iff, List.forall₂_same]
        exact fun p _ => denotesEntry_dump p
      · intro hnil
        exact m.nonempty (sortedBy_eq_nil.mp (List.map_eq_nil_iff.mp hnil))

theorem bounded_document (m : Manifest) : Bounded (sortKeys m.document) := by
  rw [document_eq]
  have hn := documentFields_nodup m.manifestId ((listed m).map ModelPrice.dump)
  intro fields hfields
  cases hfields
  change At "prices" BoundedPrices (sortedBy Prod.fst (sortKeys.sortFields
    (documentFields m.manifestId ((listed m).map ModelPrice.dump))))
  refine at_sorted (B := BoundedPrices)
    (v := .arr (((listed m).map ModelPrice.dump).map Dump.json)) hn ?_ ?_
  · simp [documentFields]
  · intro items hitems item hitem
    rw [items_eq] at hitems
    cases hitems
    obtain ⟨p, -, rfl⟩ := List.mem_map.mp hitem
    exact boundedEntry_dump p

theorem clean_document (m : Manifest) :
    Clean (fun _ => True) (fun _ => False) m.document := by
  have hoptional : ∀ t : Option Text,
      Clean (fun _ => True) (fun _ => False) (optionalText t) := by
    intro t
    cases t
    · exact .null
    · exact .str trivial
  have hdump : ∀ d : Dump, Clean (fun _ => True) (fun _ => False) d.json := by
    intro d
    apply Clean.obj (fun _ _ => trivial)
    simp only [List.forall_mem_cons]
    exact ⟨.str trivial, .str trivial, .str trivial, hoptional _, hoptional _, .str trivial,
      .str trivial, by simp⟩
  rw [document_eq]
  apply Clean.obj (fun _ _ => trivial)
  simp only [documentFields, List.forall_mem_cons]
  refine ⟨.str trivial, .arr ?_, .int 1, by simp⟩
  intro v hv
  obtain ⟨d, -, rfl⟩ := List.mem_map.mp hv
  exact hdump d

/-- One identifier and the same entries, as exact numbers and instants. -/
def Same (m m' : Manifest) : Prop :=
  m.manifestId.val = m'.manifestId.val ∧ (entries m).Perm (entries m')

theorem canonicalJson_perm {m m' : Manifest} (hid : m.manifestId = m'.manifestId)
    (hp : m.prices.Perm m'.prices) : m.canonicalJson = m'.canonicalJson := by
  have htime : ∀ o : Option Instant, o.map Pydantic.writeTime ≠ some [] := by
    intro o ho
    obtain ⟨t, -, ht⟩ := Option.map_eq_some_iff.mp ho
    obtain ⟨d, hd, -⟩ := Pydantic.readTime_writeTime t
    rw [ht, Pydantic.readTime_nil] at hd
    cases hd
  have hdumps : sortedBy Dump.sortKey (m.prices.map ModelPrice.dump) =
      sortedBy Dump.sortKey (m'.prices.map ModelPrice.dump) := by
    apply sortedBy_congr (hp.map ModelPrice.dump)
    intro d hd e he
    obtain ⟨p, -, rfl⟩ := List.mem_map.mp hd
    obtain ⟨q, -, rfl⟩ := List.mem_map.mp he
    exact sortKey_inj ⟨htime _, htime _⟩ ⟨htime _, htime _⟩
  unfold Manifest.canonicalJson Manifest.document
  rw [hid, hdumps]

/-- The canonical document is accepted as the manifest it was written for. -/
theorem modelValidate_document (m : Manifest) :
    ∃ m', modelValidate (sortKeys m.document) = .ok m' ∧ Same m m' := by
  have hd := denotes_document m
  have hperm := listed_perm m
  have hsymm : ∀ {a b : Entry}, (a.key = b.key → Disjoint a.interval.points b.interval.points) →
      b.key = a.key → Disjoint b.interval.points a.interval.points :=
    fun h hkey => (h hkey.symm).symm
  have hapart : Apart ((listed m).map entry) :=
    (hperm.pairwise_iff hsymm).mpr (entries_apart m)
  obtain ⟨m', hm'⟩ := modelValidate_complete hd (bounded_document m) hapart
  obtain ⟨es, hes, hrounds⟩ := modelValidate_sound hm'
  obtain ⟨hid, rfl⟩ := denotes_unique hd hes
  refine ⟨m', hm', hid, ?_⟩
  have heq : entries m' = (listed m).map entry := by
    apply entries_eq hrounds
    intro e he
    obtain ⟨p, -, rfl⟩ := List.mem_map.mp he
    exact entry_representable p
  rw [heq]
  exact hperm.symm

theorem canonicalJson_inj {m m' : Manifest} (h : m.canonicalJson = m'.canonicalJson) :
    Same m m' := by
  have hcomma : codePoints "," = [44] := rfl
  unfold Manifest.canonicalJson at h
  rw [hcomma] at h
  have hdocument := canonical_inj (clean_document m) (clean_document m') h
  have hd := denotes_document m
  rw [hdocument] at hd
  obtain ⟨hid, hentries⟩ := denotes_unique hd (denotes_document m')
  refine ⟨hid, (listed_perm m).symm.trans ?_⟩
  rw [hentries]
  exact listed_perm m'

/-- A document that is accepted is accepted as the exact prices it denotes, well-formed entries
are accepted exactly when none overlap, and only a validation error refuses the document. -/
structure Exact (v : JsonValue) : Prop where
  refused : ∀ e, modelValidate v ≠ .raised e
  accepted : ∀ m, modelValidate v = .ok m → Denotes v m.manifestId (entries m)
  accepted_iff : ∀ id es, Denotes v id es → ((∃ m, modelValidate v = .ok m) ↔ Apart es)

/-- No price overflows, no bound leaves the calendar, and the context holds the prices of
entries without overlap. -/
def Holdable (v : JsonValue) : Prop :=
  Bounded v ∧ ∀ id es, Denotes v id es → Apart es → ∀ e ∈ es, e.Representable

theorem bounded_iff {v : JsonValue} : (∀ e, modelValidate v ≠ .raised e) ↔ Bounded v := by
  rw [← not_iff_not, ← modelValidate_raises]
  unfold Validation.Raises
  push Not
  rfl

theorem exact_of_holdable {v : JsonValue} (h : Holdable v) : Exact v where
  refused := bounded_iff.mpr h.1
  accepted m hm := by
    obtain ⟨es, hes, hrounds⟩ := modelValidate_sound hm
    have hapart := (overlapping_iff hrounds).mp m.apart
    have heq : entries m = es := entries_eq hrounds (h.2 _ _ hes hapart)
    exact heq ▸ hes
  accepted_iff id es hes := by
    constructor
    · rintro ⟨m, hm⟩
      obtain ⟨es', hes', hrounds⟩ := modelValidate_sound hm
      obtain ⟨-, rfl⟩ := denotes_unique hes hes'
      exact (overlapping_iff hrounds).mp m.apart
    · exact modelValidate_complete hes h.1

theorem holdable_of_exact {v : JsonValue} (h : Exact v) : Holdable v := by
  refine ⟨bounded_iff.mp h.refused, ?_⟩
  intro id es hes hapart e he
  obtain ⟨m, hm⟩ := (h.accepted_iff id es hes).mpr hapart
  obtain ⟨-, rfl⟩ := denotes_unique hes (h.accepted m hm)
  obtain ⟨p, -, rfl⟩ := List.mem_map.mp he
  exact entry_representable p

theorem modelValidateJson_some {text : Text} {v : JsonValue}
    (h : Pydantic.readJson text = some v) : modelValidateJson text = modelValidate v := by
  unfold modelValidateJson
  rw [h]

/-- A text is refused by a validation error exactly when no exception comes from its document. -/
theorem text_bounded_iff {text : Text} : (∀ e, modelValidateJson text ≠ .raised e) ↔
    ∀ v, Pydantic.readJson text = some v → Bounded v := by
  cases hv : Pydantic.readJson text with
  | none =>
    apply iff_of_true
    · unfold modelValidateJson
      rw [hv]
      exact fun _ => nofun
    · exact fun _ => nofun
  | some v =>
    rw [modelValidateJson_some hv, bounded_iff]
    constructor
    · intro hb u hu
      cases hu
      exact hb
    · exact fun hb => hb v rfl

/-- A manifest is exact unless a price has too many digits or a bound leaves the calendar, and
its canonical text always stands for its entries in any order. -/
theorem exact_iff : (∀ v, Exact v ↔ Holdable v) ∧
    (∀ text, (∀ e, modelValidateJson text ≠ .raised e) ↔
      ∀ v, Pydantic.readJson text = some v → Bounded v) ∧
    (∀ m m' : Manifest, m.manifestId = m'.manifestId → m.prices.Perm m'.prices →
      m.canonicalJson = m'.canonicalJson) ∧
    (∀ m : Manifest, Pydantic.readJson m.canonicalJson = some (sortKeys m.document) →
      ∃ m', modelValidateJson m.canonicalJson = .ok m' ∧ Same m m') ∧
    ∀ m m' : Manifest, m.canonicalJson = m'.canonicalJson → Same m m' := by
  refine ⟨fun _ => ⟨holdable_of_exact, exact_of_holdable⟩, fun _ => text_bounded_iff,
    fun _ _ => canonicalJson_perm, ?_, fun _ _ => canonicalJson_inj⟩
  intro m hread
  rw [modelValidateJson_some hread]
  exact modelValidate_document m

end

def utcTime (t : Instant) : Datetime := ⟨t.val, 0, t.property, Datetime.zero_offset⟩

theorem readIsoformat_isoText (d : Datetime) :
    readIsoformat (d.isoText.map Char.ofNat) = some d := by
  rw [Datetime.isoText, map_ofNat_toNat]
  exact readIsoformat_isoformat d

theorem readIsoformat_nil : readIsoformat [] = none := by decide +kernel

/-- The reader of `json.loads`, and times as `isoformat` spells them. -/
instance isoPydantic : Pydantic where
  readJson text := (loads 200 (text.map Char.ofNat)).toOption
  isOne v := v == .int 1
  strip := id
  readTime t := readIsoformat (t.map Char.ofNat)
  writeTime t := (utcTime t).isoText
  digits := DigitTable.plain
  isOne_one := by decide
  strip_strip _ := rfl
  readTime_nil := readIsoformat_nil
  readTime_writeTime t := ⟨utcTime t, readIsoformat_isoText _, Int.sub_zero _⟩

theorem three_price : ((⟨3, 0⟩ : Decimal).coefficient ≠ 0 ∨ (⟨3, 0⟩ : Decimal) = ⟨0, 0⟩) ∧
    Representable defaultContext (⟨3, 0⟩ : Decimal).value :=
  ⟨Or.inl (by decide), 3, 0, by simp [Decimal.value], by decide, by decide, by decide⟩

theorem usd_code : (codePoints "USD").length = 3 ∧ ∀ c ∈ codePoints "USD", 65 ≤ c ∧ c ≤ 90 := by
  decide

theorem name_text : Pydantic.strip (codePoints "a") = codePoints "a" ∧ codePoints "a" ≠ [] := by
  decide

theorem no_bounds : ∀ a ∈ (none : Option Instant), ∀ b ∈ (none : Option Instant), a.val < b.val :=
  fun _ h => nomatch h

def steadyPrice : ModelPrice where
  modelProvider := ⟨codePoints "a", name_text⟩
  model := ⟨codePoints "a", name_text⟩
  currency := ⟨codePoints "USD", usd_code⟩
  effectiveFrom := none
  effectiveUntil := none
  inputPerMillionTokens := ⟨⟨3, 0⟩, three_price⟩
  outputPerMillionTokens := ⟨⟨0, 0⟩, zero_price⟩
  interval := no_bounds

/-- Another model, whose input costs nothing. -/
def freePrice : ModelPrice := { steadyPrice with
  model := ⟨codePoints "b", by decide⟩
  inputPerMillionTokens := ⟨⟨0, 0⟩, zero_price⟩ }

theorem steady_apart : overlapping [freePrice, steadyPrice] = none := by decide +kernel

def steadyManifest : Manifest where
  manifestId := ⟨codePoints "a", name_text⟩
  prices := [freePrice, steadyPrice]
  nonempty := List.cons_ne_nil _ _
  apart := steady_apart

theorem steady_read : Pydantic.readJson steadyManifest.canonicalJson =
    some (sortKeys steadyManifest.document) := by
  decide +kernel

/-- A manifest whose canonical text is read back. -/
theorem steady_exact : ∃ m', modelValidateJson steadyManifest.canonicalJson = .ok m' ∧
    Same steadyManifest m' :=
  exact_iff.2.2.2.1 steadyManifest steady_read

def entryText (start input : String) : Text :=
  codePoints ("\x7b\"version\":1,\"manifest_id\":\"a\",\"prices\":[\x7b\"model_provider\":\"a\"," ++
    "\"model\":\"a\",\"currency\":\"USD\",\"effective_from\":" ++ start ++
    ",\"effective_until\":null,\"input_per_million_tokens\":\"" ++ input ++
    "\",\"output_per_million_tokens\":\"0\"\x7d]\x7d")

def entryFields (input : Text) : List (Text × JsonValue) :=
  [(codePoints "model_provider", .str (codePoints "a")),
    (codePoints "model", .str (codePoints "a")), (codePoints "currency", .str (codePoints "USD")),
    (codePoints "effective_from", .null),
    (codePoints "effective_until", .null), (codePoints "input_per_million_tokens", .str input),
    (codePoints "output_per_million_tokens", .str (codePoints "0"))]

def entryDocument (input : Text) : JsonValue :=
  .obj [(codePoints "version", .int 1), (codePoints "manifest_id", .str (codePoints "a")),
    (codePoints "prices", .arr [.obj (entryFields input)])]

def longDigits : String := "0.12345678901234567890123456789"

theorem long_read : Pydantic.readJson (entryText "null" longDigits) =
    some (entryDocument (codePoints longDigits)) := by
  decide +kernel

def longEntry : Entry where
  provider := codePoints "a"
  model := codePoints "a"
  currency := codePoints "USD"
  interval := span steadyPrice
  input := denote DigitTable.plain ['0'] "12345678901234567890123456789".toList
  output := denote DigitTable.plain ['0'] []

theorem long_denotes :
    Denotes (entryDocument (codePoints longDigits)) (codePoints "a") [longEntry] := by
  have hname : DenotesText (.str (codePoints "a")) (codePoints "a") := ⟨_, rfl, name_text⟩
  have hnull : DenotesTime .null none := Or.inl ⟨rfl, rfl⟩
  have hentry : DenotesEntry (.obj (entryFields (codePoints longDigits))) longEntry := by
    refine ⟨_, rfl, forbidExtra_ok.mp (by decide +kernel), ⟨_, rfl, hname⟩, ⟨_, rfl, hname⟩,
      ⟨_, rfl, rfl, usd_code⟩, ⟨_, rfl, hnull⟩, ⟨_, rfl, hnull⟩, ⟨_, rfl, _, _, _, rfl, ?_, rfl⟩,
      ⟨_, rfl, _, _, _, rfl, ?_, rfl⟩⟩
    · decide +kernel
    · decide +kernel
  refine ⟨_, rfl, forbidExtra_ok.mp (by decide +kernel), ⟨_, rfl, Pydantic.isOne_one⟩,
    ⟨_, rfl, hname⟩, ⟨_, rfl, _, rfl, ?_, List.cons_ne_nil _ _⟩⟩
  exact .cons hentry .nil

theorem long_accepted : (modelValidate (entryDocument (codePoints longDigits))).value?.map
    (fun m => m.prices.map (fun p => p.inputPerMillionTokens.val)) =
      some [⟨1234567890123456789012345679, -28⟩] := by
  decide +kernel

theorem early_raised :
    (modelValidateJson (entryText "\"0001-01-01T00:00:00+23:59\"" "3")).raised? =
      some .overflowError := by
  decide +kernel

/-- A price of 29 digits is rounded, and a bound before year 1 in UTC escapes as an error. -/
theorem long_price_rounds : (∃ v, Pydantic.readJson (entryText "null" longDigits) = some v ∧
    ¬Exact v) ∧
    ¬∀ e, modelValidateJson (entryText "\"0001-01-01T00:00:00+23:59\"" "3") ≠ .raised e := by
  constructor
  · refine ⟨_, long_read, ?_⟩
    intro h
    obtain ⟨m, hm, hprices⟩ := Option.map_eq_some_iff.mp long_accepted
    have hdenotes := h.accepted m (Validation.value?_eq_some.mp hm)
    obtain ⟨-, hentries⟩ := denotes_unique long_denotes hdenotes
    have hinputs := congrArg (List.map fun e => e.input) hentries
    have hvalues : (entries m).map (fun e => e.input) =
        (m.prices.map fun p => p.inputPerMillionTokens.val).map Decimal.value := by
      rw [entries, List.map_map, List.map_map]
      rfl
    rw [hvalues, hprices] at hinputs
    have hinput : longEntry.input = (⟨1234567890123456789012345679, -28⟩ : Decimal).value :=
      (List.cons.inj hinputs).1
    have hparts : ofParts DigitTable.plain ['0'] "12345678901234567890123456789".toList =
        ⟨12345678901234567890123456789, -29⟩ := by decide +kernel
    have hexact : longEntry.input = (⟨12345678901234567890123456789, -29⟩ : Decimal).value := by
      rw [← hparts, ofParts_value]
      rfl
    rw [hexact] at hinput
    norm_num [Decimal.value] at hinput
  · intro h
    exact h _ (Validation.raised?_eq_some.mp early_raised)

end Sediment.Proofs.PriceManifest

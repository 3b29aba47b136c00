import Mathlib.Data.Sym.Sym2
import Sediment.Base.Results
import Sediment.Export.Significance

namespace Sediment.Proofs.Significance
open Sediment.Base Sediment.Base.StepUp Sediment.Export.Significance
open FloatMath

section
variable {α : Type}

theorem foldl_lastWithin {κ : Type} [LinearOrder κ] (value : α → κ) (bound : Nat → κ)
    (xs : List α) (rank found : Nat) :
    (xs.zipIdx rank).foldl (fun k item => if value item.1 ≤ bound item.2 then item.2 else k)
      found = lastWithin value bound rank found xs := by
  induction xs generalizing rank found with
  | nil => rfl
  | cons x xs ih =>
    rw [List.zipIdx_cons, List.foldl_cons, ih, lastWithin]

/-- A dictionary set key by key, where no key comes twice. -/
theorem get?_foldl_set {κ β : Type} [DecidableEq κ] {entries : List (κ × β)}
    (h : (entries.map Prod.fst).Nodup) {key : κ} {v : β} :
    (entries.foldl (fun d p => d.set p.1 p.2) Dict.empty).get? key = some v ↔
      (key, v) ∈ entries := by
  rw [← Dict.mem_entries_iff, Dict.entries_foldl_set entries Dict.empty h]
  · rfl
  · intro p _ hp
    cases hp

end

section
variable {φ : Type} {comparisons : List (ModelComparison φ)}

/-- Every slot has a key of its own. -/
theorem slot_keys_nodup (comparisons : List (ModelComparison φ)) :
    ((slots comparisons).map (fun slot => (slot.1, slot.2.1))).Nodup := by
  have hkeys : ∀ (cs : List (ModelComparison φ)) (start : Nat),
      (((cs.zipIdx start).flatMap (fun c => metricNames.map (fun metric =>
        (c.2, metric, c.1)))).map (fun slot => (slot.1, slot.2.1))).Nodup ∧
      ∀ key ∈ ((cs.zipIdx start).flatMap (fun c => metricNames.map (fun metric =>
        (c.2, metric, c.1)))).map (fun slot => (slot.1, slot.2.1)), start ≤ key.1 := by
    intro cs
    induction cs with
    | nil => simp
    | cons c cs ih =>
      intro start
      obtain ⟨hnodup, hstart⟩ := ih (start + 1)
      rw [List.zipIdx_cons, List.flatMap_cons, List.map_append]
      constructor
      · rw [List.nodup_append]
        refine ⟨by simp [metricNames], hnodup, ?_⟩
        intro key hkey key' hkey' heq
        have hle := hstart key' hkey'
        obtain ⟨slot, hslot, rfl⟩ := List.mem_map.mp hkey
        obtain ⟨metric, -, rfl⟩ := List.mem_map.mp hslot
        rw [← heq] at hle
        simp at hle
      · intro key hkey
        rcases List.mem_append.mp hkey with hkey | hkey
        · obtain ⟨slot, hslot, rfl⟩ := List.mem_map.mp hkey
          obtain ⟨metric, -, rfl⟩ := List.mem_map.mp hslot
          exact le_rfl
        · have hle := hstart key hkey
          omega
  exact (hkeys comparisons 0).1

theorem slot_comparison {slot : Nat × MetricName × ModelComparison φ}
    (h : slot ∈ slots comparisons) : comparisons[slot.1]? = some slot.2.2 := by
  obtain ⟨c, hc, hslot⟩ := List.mem_flatMap.mp h
  obtain ⟨metric, -, rfl⟩ := List.mem_map.mp hslot
  exact List.mem_zipIdx_iff_getElem?.mp hc

variable [FloatMath φ]

def computable (slot : Nat × MetricName × ModelComparison φ) : Bool :=
  !(slot.2.2.metric slot.2.1).insufficientData

/-- The slot of a p-value that is the `j`-th one gathered. -/
def ranking (slot : Nat × MetricName × ModelComparison φ) (j : Nat) : RankedPValue :=
  ⟨slot.1, slot.2.1, toRat (slot.2.2.metric slot.2.1).pValue, j⟩

theorem foldl_rankSlot (xs : List (Nat × MetricName × ModelComparison φ)) :
    xs.foldl rankSlot [] =
      ((xs.filter computable).zipIdx).map (fun s => ranking s.1 s.2) := by
  induction xs using List.reverseRecOn with
  | nil => rfl
  | append_singleton xs slot ih =>
    rw [List.foldl_append, ih, List.foldl_cons, List.foldl_nil, List.filter_append]
    unfold rankSlot
    cases hc : (slot.2.2.metric slot.2.1).insufficientData with
    | true =>
      have hskip : [slot].filter computable = [] := by simp [computable, hc]
      rw [if_pos rfl, hskip, List.append_nil]
    | false =>
      have hkeep : [slot].filter computable = [slot] := by simp [computable, hc]
      rw [if_neg (by simp), hkeep, List.zipIdx_append, List.map_append]
      simp [ranking]

theorem rankedPValues_eq (comparisons : List (ModelComparison φ)) :
    rankedPValues comparisons =
      (((slots comparisons).filter computable).zipIdx).map (fun s => ranking s.1 s.2) :=
  foldl_rankSlot _

theorem ranked_keys (comparisons : List (ModelComparison φ)) :
    (rankedPValues comparisons).map RankedPValue.key =
      ((slots comparisons).filter computable).map (fun slot => (slot.1, slot.2.1)) := by
  have hfst : ∀ (xs : List (Nat × MetricName × ModelComparison φ)) (n : Nat),
      ((xs.zipIdx n).map (fun s => ranking s.1 s.2)).map RankedPValue.key =
        xs.map (fun slot => (slot.1, slot.2.1)) := by
    intro xs
    induction xs with
    | nil => intro n; rfl
    | cons x xs ih =>
      intro n
      rw [List.zipIdx_cons, List.map_cons, List.map_cons, List.map_cons, ih]
      rfl
  rw [rankedPValues_eq]
  exact hfst _ 0

theorem ranked_keys_nodup (comparisons : List (ModelComparison φ)) :
    ((rankedPValues comparisons).map RankedPValue.key).Nodup := by
  rw [ranked_keys]
  exact (slot_keys_nodup comparisons).sublist (List.filter_sublist.map _)

theorem mem_ranked {item : RankedPValue} (h : item ∈ rankedPValues comparisons) :
    ∃ slot ∈ slots comparisons, computable slot = true ∧ ∃ j, item = ranking slot j := by
  rw [rankedPValues_eq] at h
  obtain ⟨s, hs, rfl⟩ := List.mem_map.mp h
  have hmem := List.fst_mem_of_mem_zipIdx hs
  obtain ⟨hslot, hc⟩ := List.mem_filter.mp hmem
  exact ⟨s.1, hslot, hc, s.2, rfl⟩

theorem ranked_of_slot {slot : Nat × MetricName × ModelComparison φ}
    (h : slot ∈ slots comparisons) (hc : computable slot = true) :
    ∃ j, ranking slot j ∈ rankedPValues comparisons := by
  rw [rankedPValues_eq]
  obtain ⟨j, hj, hget⟩ := List.getElem_of_mem (List.mem_filter.mpr ⟨h, hc⟩)
  refine ⟨j, List.mem_map.mpr ⟨(slot, j), ?_, rfl⟩⟩
  rw [List.mem_zipIdx_iff_getElem?, List.getElem?_eq_getElem hj, hget]

/-- The p-values in the order of the loop. -/
def ascending (comparisons : List (ModelComparison φ)) : List RankedPValue :=
  sortedBy sortKey (rankedPValues comparisons)

/-- The cutoff of a rank among `m` tests. -/
def cutoff (m : Nat) (alpha : ℚ) (rank : Nat) : ℚ := rank / m * alpha

theorem cutoff_mono (m : Nat) {alpha : ℚ} (h : 0 < alpha) : Monotone (cutoff m alpha) := by
  intro a b hab
  unfold cutoff
  gcongr

theorem ascending_pairwise (comparisons : List (ModelComparison φ)) :
    (ascending comparisons).Pairwise (fun a b => a.pValue ≤ b.pValue) := by
  refine (sortedBy_pairwise sortKey (rankedPValues comparisons)).imp ?_
  intro a b hab
  rcases Prod.Lex.le_iff.mp hab with hlt | ⟨heq, -⟩
  · exact hlt.le
  · exact heq.le

theorem mem_ascending {item : RankedPValue} :
    item ∈ ascending comparisons ↔ item ∈ rankedPValues comparisons := mem_sortedBy

def rejections (comparisons : List (ModelComparison φ)) (alpha : ℚ) : Nat :=
  rejectedCount alpha (ascending comparisons)

theorem isLast_rejections (comparisons : List (ModelComparison φ)) (alpha : ℚ) :
    IsLast RankedPValue.pValue (cutoff (ascending comparisons).length alpha)
      (ascending comparisons) (rejections comparisons alpha) := by
  unfold rejections rejectedCount
  have hloop := foldl_lastWithin RankedPValue.pValue (cutoff (ascending comparisons).length alpha)
    (ascending comparisons) 1 0
  have hlast := isLast_lastWithin RankedPValue.pValue
    (cutoff (ascending comparisons).length alpha) (ascending comparisons)
  rw [← hloop] at hlast
  exact hlast

/-- The cutoff that is reported. -/
def threshold (comparisons : List (ModelComparison φ)) (alpha : ℚ) : ℚ :=
  if rejections comparisons alpha ≠ 0 then
    cutoff (ascending comparisons).length alpha (rejections comparisons alpha) else 0

/-- A p-value among the rejected ones is one up to the threshold. -/
theorem le_threshold_iff {alpha : ℚ} (h : 0 < alpha) {i : Nat} {item : RankedPValue}
    (hi : (ascending comparisons)[i]? = some item) :
    i < rejections comparisons alpha ↔ item.pValue ≤ threshold comparisons alpha := by
  have hlast := isLast_rejections comparisons alpha
  have hmono := cutoff_mono (ascending comparisons).length h
  rw [hlast.lt_iff (ascending_pairwise comparisons) hmono hi]
  unfold threshold
  by_cases hk : rejections comparisons alpha = 0
  · rw [if_neg (not_not.mpr hk)]
    have hbeyond := hlast.beyond i item (by omega) hi
    have hpos : 0 ≤ cutoff (ascending comparisons).length alpha (i + 1) := by
      unfold cutoff
      positivity
    constructor
    · intro hin
      omega
    · intro hle
      exact absurd (hpos.trans_lt hbeyond) (not_lt.mpr hle)
  · rw [if_pos hk]
    constructor
    · intro hin
      exact hin.2
    · intro hle
      exact ⟨by omega, hle⟩

theorem rejected_iff {alpha : ℚ} (h : 0 < alpha) {item : RankedPValue}
    (hitem : item ∈ rankedPValues comparisons) :
    item.key ∈ ((ascending comparisons).take (rejections comparisons alpha)).map
      RankedPValue.key ↔ item.pValue ≤ threshold comparisons alpha := by
  have hkeys : ((ascending comparisons).map RankedPValue.key).Nodup :=
    ((sortedBy_perm sortKey _).map _).nodup_iff.mpr (ranked_keys_nodup comparisons)
  constructor
  · intro hin
    obtain ⟨other, hother, hkey⟩ := List.mem_map.mp hin
    have heq : other = item := List.inj_on_of_nodup_map hkeys (List.mem_of_mem_take hother)
      (mem_ascending.mpr hitem) hkey
    obtain ⟨i, hi, hget⟩ := List.mem_take_iff_getElem.mp hother
    rw [heq] at hget
    refine (le_threshold_iff h (i := i) ?_).mp (by omega)
    rw [List.getElem?_eq_getElem (by omega), hget]
  · intro hle
    obtain ⟨i, hi, hget⟩ := List.getElem_of_mem (mem_ascending.mpr hitem)
    have hlt := (le_threshold_iff h (i := i)
      (by rw [List.getElem?_eq_getElem hi, hget])).mpr hle
    refine List.mem_map.mpr ⟨item, ?_, rfl⟩
    exact List.mem_take_iff_getElem.mpr ⟨i, by omega, hget⟩

/-- What the family adds to a test that is part of it. -/
def judged (comparisons : List (ModelComparison φ)) (alpha : ℚ) (item : RankedPValue)
    (pc : ProportionComparison φ) : ProportionComparison φ :=
  { pc with
    benjaminiHochbergRank := (ranksByMetric (ascending comparisons)).get? item.key
    benjaminiHochbergAlpha := some (threshold comparisons alpha)
    significantAfterBenjaminiHochberg :=
      some (decide (item.pValue ≤ threshold comparisons alpha)) }

theorem fdrByMetric_eq {alpha : ℚ} (h : 0 < alpha) :
    fdrByMetric comparisons alpha = ((rankedPValues comparisons).filterMap (fun item =>
      comparisons[item.comparisonIndex]?.map (fun c =>
        (item.key, judged comparisons alpha item (c.metric item.metric))))).foldl
          (fun d p => d.set p.1 p.2) Dict.empty := by
  have hloop : ∀ (step : Dict (Nat × MetricName) (ProportionComparison φ) → RankedPValue →
        Dict (Nat × MetricName) (ProportionComparison φ)) (items : List RankedPValue) d,
      (∀ d, ∀ item ∈ items, step d item = ((comparisons[item.comparisonIndex]?.map (fun c =>
        (item.key, judged comparisons alpha item (c.metric item.metric)))).elim d
          (fun p => d.set p.1 p.2))) →
      items.foldl step d =
      (items.filterMap (fun item => comparisons[item.comparisonIndex]?.map (fun c =>
        (item.key, judged comparisons alpha item (c.metric item.metric))))).foldl
          (fun d p => d.set p.1 p.2) d := by
    intro step items
    induction items with
    | nil => exact fun _ _ => rfl
    | cons item items ih =>
      intro d hall
      rw [List.foldl_cons, List.filterMap_cons, hall d item (by simp)]
      have hrest := fun d other hother => hall d other (List.mem_cons_of_mem _ hother)
      cases comparisons[item.comparisonIndex]? with
      | none => exact ih d hrest
      | some c => exact ih _ hrest
  unfold fdrByMetric
  apply hloop
  intro d item hitem
  have hmark : (((ascending comparisons).take (rejections comparisons alpha)).map
      RankedPValue.key).contains item.key = decide (item.pValue ≤ threshold comparisons alpha) := by
    rw [Bool.eq_iff_iff, List.contains_iff_mem, decide_eq_true_eq]
    exact rejected_iff h hitem
  cases comparisons[item.comparisonIndex]? with
  | none => rfl
  | some c =>
    simp only [Option.map_some, Option.elim_some, judged]
    rw [← hmark]
    rfl

theorem get?_fdrByMetric {alpha : ℚ} (h : 0 < alpha) {key : Nat × MetricName}
    {pc : ProportionComparison φ} :
    (fdrByMetric comparisons alpha).get? key = some pc ↔
      ∃ item ∈ rankedPValues comparisons, item.key = key ∧ ∃ c,
        comparisons[item.comparisonIndex]? = some c ∧
        pc = judged comparisons alpha item (c.metric item.metric) := by
  have hkeys : (((rankedPValues comparisons).filterMap (fun item =>
      comparisons[item.comparisonIndex]?.map (fun c =>
        (item.key, judged comparisons alpha item (c.metric item.metric))))).map Prod.fst).Nodup := by
    refine (ranked_keys_nodup comparisons).sublist ?_
    generalize rankedPValues comparisons = items
    induction items with
    | nil => exact List.Sublist.refl _
    | cons item items ih =>
      rw [List.filterMap_cons]
      cases comparisons[item.comparisonIndex]? with
      | none => exact ih.cons _
      | some c => exact ih.cons_cons _
  rw [fdrByMetric_eq h, get?_foldl_set hkeys, List.mem_filterMap]
  simp only [Option.map_eq_some_iff, Prod.mk.injEq]
  constructor
  · intro hex
    obtain ⟨item, hitem, c, hc, hkey, hpc⟩ := hex
    exact ⟨item, hitem, hkey, c, hc, hpc.symm⟩
  · intro hex
    obtain ⟨item, hitem, hkey, c, hc, hpc⟩ := hex
    exact ⟨item, hitem, c, hc, hkey, hpc.symm⟩

/-- A slot without data keeps its test, with a cutoff of 0. -/
theorem adjusted_insufficient {alpha : ℚ} (h : 0 < alpha)
    {slot : Nat × MetricName × ModelComparison φ} (hslot : slot ∈ slots comparisons)
    (hc : computable slot = false) :
    adjusted (fdrByMetric comparisons alpha) slot.1 slot.2.1 (slot.2.2.metric slot.2.1) =
      { slot.2.2.metric slot.2.1 with
        benjaminiHochbergAlpha := some 0
        significantAfterBenjaminiHochberg := some false } := by
  have hnone : (fdrByMetric comparisons alpha).get? (slot.1, slot.2.1) = none := by
    rw [Option.eq_none_iff_forall_ne_some]
    intro pc hpc
    obtain ⟨item, hitem, hkey, -⟩ := (get?_fdrByMetric h).mp hpc
    obtain ⟨other, hother, hcomputable, j, rfl⟩ := mem_ranked hitem
    have heq : other = slot :=
      List.inj_on_of_nodup_map (slot_keys_nodup comparisons) hother hslot hkey
    rw [heq, hc] at hcomputable
    cases hcomputable
  unfold adjusted
  rw [hnone]
  rfl

/-- A slot with data is judged by its p-value. -/
theorem adjusted_computable {alpha : ℚ} (h : 0 < alpha)
    {slot : Nat × MetricName × ModelComparison φ} (hslot : slot ∈ slots comparisons)
    (hc : computable slot = true) : ∃ j, ranking slot j ∈ rankedPValues comparisons ∧
      adjusted (fdrByMetric comparisons alpha) slot.1 slot.2.1 (slot.2.2.metric slot.2.1) =
        judged comparisons alpha (ranking slot j) (slot.2.2.metric slot.2.1) := by
  obtain ⟨j, hj⟩ := ranked_of_slot hslot hc
  refine ⟨j, hj, ?_⟩
  have hget : (fdrByMetric comparisons alpha).get? (slot.1, slot.2.1) =
      some (judged comparisons alpha (ranking slot j) (slot.2.2.metric slot.2.1)) :=
    (get?_fdrByMetric h).mpr ⟨_, hj, rfl, slot.2.2, slot_comparison hslot, rfl⟩
  unfold adjusted
  rw [hget]
  rfl

/-- A test of the family: its pair of models in no order, and its metric. -/
structure Test (φ : Type) where
  pair : Sym2 String
  metric : MetricName
  outcome : ProportionComparison φ

def Test.computable (t : Test φ) : Bool := !t.outcome.insufficientData

def Test.p (t : Test φ) : ℚ := toRat t.outcome.pValue

def Test.marked (t : Test φ) : Bool := t.outcome.significantAfterBenjaminiHochberg = some true

def testOf (slot : Nat × MetricName × ModelComparison φ) (pc : ProportionComparison φ) : Test φ :=
  ⟨s(slot.2.2.modelA, slot.2.2.modelB), slot.2.1, pc⟩

def tests (comparisons : List (ModelComparison φ)) : List (Test φ) :=
  comparisons.flatMap (fun c => metricNames.map (fun metric =>
    ⟨s(c.modelA, c.modelB), metric, c.metric metric⟩))

/-- The comparisons with what the family adds to them. -/
def adjustedComparisons (comparisons : List (ModelComparison φ)) (alpha : ℚ) :
    List (ModelComparison φ) :=
  comparisons.zipIdx.map (fun c => { c.1 with
    ciPassRate := adjusted (fdrByMetric comparisons alpha) c.2 .ciPassRate c.1.ciPassRate
    attributionRate :=
      adjusted (fdrByMetric comparisons alpha) c.2 .attributionRate c.1.attributionRate })

omit [FloatMath φ] in
theorem tests_slots (comparisons : List (ModelComparison φ)) :
    tests comparisons =
      (slots comparisons).map (fun slot => testOf slot (slot.2.2.metric slot.2.1)) := by
  have hall : ∀ (cs : List (ModelComparison φ)) (n : Nat), tests cs =
      ((cs.zipIdx n).flatMap (fun c => metricNames.map (fun metric => (c.2, metric, c.1)))).map
        (fun slot => testOf slot (slot.2.2.metric slot.2.1)) := by
    intro cs
    induction cs with
    | nil => intro n; rfl
    | cons c cs ih =>
      intro n
      rw [List.zipIdx_cons, List.flatMap_cons, List.map_append, ← ih (n + 1)]
      rfl
  exact hall comparisons 0

theorem tests_adjusted (comparisons : List (ModelComparison φ)) (alpha : ℚ) :
    tests (adjustedComparisons comparisons alpha) =
      (slots comparisons).map (fun slot => testOf slot
        (adjusted (fdrByMetric comparisons alpha) slot.1 slot.2.1 (slot.2.2.metric slot.2.1))) := by
  have hall : ∀ (fdr : Dict (Nat × MetricName) (ProportionComparison φ))
      (cs : List (ModelComparison φ)) (n : Nat),
      tests ((cs.zipIdx n).map (fun c => { c.1 with
        ciPassRate := adjusted fdr c.2 .ciPassRate c.1.ciPassRate
        attributionRate := adjusted fdr c.2 .attributionRate c.1.attributionRate })) =
      ((cs.zipIdx n).flatMap (fun c => metricNames.map (fun metric => (c.2, metric, c.1)))).map
        (fun slot => testOf slot
          (adjusted fdr slot.1 slot.2.1 (slot.2.2.metric slot.2.1))) := by
    intro fdr cs
    induction cs with
    | nil => intro n; rfl
    | cons c cs ih =>
      intro n
      rw [List.zipIdx_cons, List.flatMap_cons, List.map_append, ← ih (n + 1)]
      rfl
  exact hall _ comparisons 0

/-- The rule of Benjamini and Hochberg over a family of tests: `k` is the last rank whose
p-value is within its cutoff, and the marked tests are those of the `k` least p-values. -/
structure StepUpMarks (alpha : ℚ) (m : Nat) (ts : List (Test φ)) (k : Nat) (threshold : ℚ) :
    Prop where
  counted : m = (ts.filter Test.computable).length
  last : IsLast id (cutoff m alpha) (sortedBy id ((ts.filter Test.computable).map Test.p)) k
  reported : threshold = if k = 0 then 0 else k / m * alpha
  smallest : sortedBy id ((ts.filter Test.marked).map Test.p) =
    (sortedBy id ((ts.filter Test.computable).map Test.p)).take k
  computed : ∀ t ∈ ts, t.computable = true →
    (t.marked = true ↔ t.p ≤ threshold) ∧ t.outcome.benjaminiHochbergAlpha = some threshold
  without : ∀ t ∈ ts, t.computable = false →
    t.marked = false ∧ t.outcome.benjaminiHochbergAlpha = some 0

section
variable {alpha : ℚ} (h : 0 < alpha)
include h

/-- The family changes neither the data of a test nor its p-value. -/
theorem testOf_adjusted {slot : Nat × MetricName × ModelComparison φ}
    (hslot : slot ∈ slots comparisons) :
    (testOf slot (adjusted (fdrByMetric comparisons alpha) slot.1 slot.2.1
        (slot.2.2.metric slot.2.1))).computable = computable slot ∧
      (testOf slot (adjusted (fdrByMetric comparisons alpha) slot.1 slot.2.1
        (slot.2.2.metric slot.2.1))).p = toRat (slot.2.2.metric slot.2.1).pValue := by
  cases hc : computable slot with
  | false =>
    rw [adjusted_insufficient h hslot hc]
    exact ⟨hc, rfl⟩
  | true =>
    obtain ⟨j, -, hadjusted⟩ := adjusted_computable h hslot hc
    rw [hadjusted]
    exact ⟨hc, rfl⟩

/-- What becomes of a test depends on its p-value and the threshold alone. -/
theorem adjusted_test {t : Test φ} (ht : t ∈ tests (adjustedComparisons comparisons alpha)) :
    (t.computable = true → t.marked = decide (t.p ≤ threshold comparisons alpha) ∧
      t.outcome.benjaminiHochbergAlpha = some (threshold comparisons alpha)) ∧
    (t.computable = false → t.marked = false ∧ t.outcome.benjaminiHochbergAlpha = some 0) := by
  rw [tests_adjusted] at ht
  obtain ⟨slot, hslot, rfl⟩ := List.mem_map.mp ht
  obtain ⟨hdata, hp⟩ := testOf_adjusted h hslot
  rw [hdata, hp]
  constructor
  · intro hc
    obtain ⟨j, -, hadjusted⟩ := adjusted_computable h hslot hc
    rw [hadjusted]
    refine ⟨?_, rfl⟩
    rw [Bool.eq_iff_iff, decide_eq_true_eq, Test.marked, decide_eq_true_eq]
    simp only [testOf, judged, ranking, Option.some.injEq]
    exact decide_eq_true_iff
  · intro hc
    rw [adjusted_insufficient h hslot hc]
    exact ⟨rfl, rfl⟩

theorem computable_ps : ((tests (adjustedComparisons comparisons alpha)).filter
    Test.computable).map Test.p = (rankedPValues comparisons).map RankedPValue.pValue := by
  have hps : ∀ (xs : List (Nat × MetricName × ModelComparison φ)) (n : Nat),
      ((xs.zipIdx n).map (fun s => ranking s.1 s.2)).map RankedPValue.pValue =
        xs.map (fun slot => toRat (slot.2.2.metric slot.2.1).pValue) := by
    intro xs
    induction xs with
    | nil => intro n; rfl
    | cons x xs ih =>
      intro n
      rw [List.zipIdx_cons, List.map_cons, List.map_cons, List.map_cons, ih]
      rfl
  have hsame : ∀ xs : List (Nat × MetricName × ModelComparison φ),
      (∀ slot ∈ xs, slot ∈ slots comparisons) →
      ((xs.map (fun slot => testOf slot (adjusted (fdrByMetric comparisons alpha) slot.1 slot.2.1
        (slot.2.2.metric slot.2.1)))).filter Test.computable).map Test.p =
      (xs.filter computable).map (fun slot => toRat (slot.2.2.metric slot.2.1).pValue) := by
    intro xs
    induction xs with
    | nil => exact fun _ => rfl
    | cons slot xs ih =>
      intro hall
      obtain ⟨hslot, hxs⟩ := List.forall_mem_cons.mp hall
      rw [List.map_cons, List.filter_cons, List.filter_cons]
      obtain ⟨hdata, hp⟩ := testOf_adjusted h hslot
      rw [hdata]
      cases computable slot with
      | false => exact ih hxs
      | true => rw [if_pos rfl, if_pos rfl, List.map_cons, List.map_cons, ih hxs, hp]
  rw [tests_adjusted, rankedPValues_eq, hps]
  exact hsame _ (fun _ hslot => hslot)

theorem sorted_ps : sortedBy id (((tests (adjustedComparisons comparisons alpha)).filter
    Test.computable).map Test.p) = (ascending comparisons).map RankedPValue.pValue := by
  rw [computable_ps h]
  refine eq_of_perm_of_pairwise id ?_ (fun _ _ _ _ heq => heq) (sortedBy_pairwise id _) ?_
  · exact (sortedBy_perm id _).trans ((sortedBy_perm sortKey _).map _).symm
  · exact List.pairwise_map.mpr (ascending_pairwise comparisons)

theorem stepUpMarks : StepUpMarks alpha (rankedPValues comparisons).length
    (tests (adjustedComparisons comparisons alpha)) (rejections comparisons alpha)
    (threshold comparisons alpha) := by
  have hlength : (ascending comparisons).length = (rankedPValues comparisons).length :=
    length_sortedBy
  have hlast := isLast_rejections comparisons alpha
  constructor
  · have hps : ((tests (adjustedComparisons comparisons alpha)).filter
        Test.computable).map Test.p = (rankedPValues comparisons).map RankedPValue.pValue :=
      computable_ps h
    have hlen := congrArg List.length hps
    rw [List.length_map, List.length_map] at hlen
    exact hlen.symm
  · rw [sorted_ps h, isLast_map, ← hlength]
    exact hlast
  · unfold threshold cutoff
    rw [hlength]
    by_cases hk : rejections comparisons alpha = 0
    · rw [if_neg (not_not.mpr hk), if_pos hk]
    · rw [if_pos hk, if_neg hk]
  · have hmarked : (tests (adjustedComparisons comparisons alpha)).filter Test.marked =
        ((tests (adjustedComparisons comparisons alpha)).filter Test.computable).filter
          (fun t => decide (t.p ≤ threshold comparisons alpha)) := by
      rw [List.filter_filter]
      apply List.filter_congr
      intro t ht
      obtain ⟨hyes, hno⟩ := adjusted_test h ht
      cases hc : t.computable with
      | true => rw [(hyes hc).1, Bool.and_true]
      | false => rw [(hno hc).1, Bool.and_false]
    have hmap : ((tests (adjustedComparisons comparisons alpha)).filter Test.marked).map Test.p =
        (((tests (adjustedComparisons comparisons alpha)).filter Test.computable).map
          Test.p).filter (fun p => decide (p ≤ threshold comparisons alpha)) := by
      rw [hmarked, List.filter_map]
      rfl
    have hsort : ∀ ps : List ℚ, sortedBy id (ps.filter (fun p =>
        decide (p ≤ threshold comparisons alpha))) = (sortedBy id ps).filter (fun p =>
          decide (p ≤ threshold comparisons alpha)) := by
      intro ps
      exact (filter_sortedBy _ (fun _ _ _ _ heq => heq)).symm
    rw [hmap, hsort, sorted_ps h, List.filter_map,
      ← List.map_take, ← hlast.filter_eq_take (ascending_pairwise comparisons)
        (cutoff_mono _ h)]
    congr 1
    apply List.filter_congr
    intro item hitem
    obtain ⟨i, hi, hget⟩ := List.getElem_of_mem hitem
    have hsome : (ascending comparisons)[i]? = some item := by
      rw [List.getElem?_eq_getElem hi, hget]
    rw [Function.comp_apply, Bool.eq_iff_iff, decide_eq_true_eq, decide_eq_true_eq,
      ← le_threshold_iff h hsome,
      hlast.lt_iff (ascending_pairwise comparisons) (cutoff_mono _ h) hsome]
  · intro t ht hc
    obtain ⟨hmarked, halpha⟩ := (adjusted_test h ht).1 hc
    rw [hmarked, decide_eq_true_eq]
    exact ⟨Iff.rfl, halpha⟩
  · intro t ht hc
    exact (adjusted_test h ht).2 hc

end

section
variable [LawfulFloatMath φ] {confidence alpha : φ} {familySize : Nat}

omit [LawfulFloatMath φ] in
theorem pooledProportion_symm (successesA nA successesB nB : Int) :
    (pooledProportion successesA nA successesB nB : φ) =
      pooledProportion successesB nB successesA nA := by
  unfold pooledProportion
  rw [Int.add_comm successesA, Int.add_comm nA]

theorem pooledVariance_symm (p : φ) (nA nB : Int) :
    pooledVariance p nA nB = pooledVariance p nB nA := by
  unfold pooledVariance
  rw [LawfulFloatMath.add_comm (unitFraction nA)]

theorem minimumDetectableEffect_symm (nA nB : Int) (p : φ) :
    minimumDetectableEffect nA nB p = minimumDetectableEffect nB nA p := by
  unfold minimumDetectableEffect
  rw [pooledVariance_symm p nA nB]
  by_cases hn : nA ≤ 0 ∨ nB ≤ 0
  · rw [if_pos hn, if_pos (Or.comm.mp hn)]
  · rw [if_neg hn, if_neg (fun h => hn (Or.comm.mp h))]

omit [LawfulFloatMath φ] in
theorem cohensH_symm (p q : φ) : Agree (fun _ _ => True) (cohensH p q) (cohensH q p) := by
  unfold cohensH
  by_cases hp : 0 ≤ toRat p ∧ toRat p ≤ 1
  · by_cases hq : 0 ≤ toRat q ∧ toRat q ≤ 1
    · rw [if_neg (not_not.mpr hp), if_neg (not_not.mpr hq), if_neg (not_not.mpr hq),
        if_neg (not_not.mpr hp)]
      trivial
    · rw [if_neg (not_not.mpr hp), if_pos hq, if_pos hq]
      trivial
  · rw [if_pos hp]
    by_cases hq : 0 ≤ toRat q ∧ toRat q ≤ 1
    · rw [if_neg (not_not.mpr hq), if_pos hp]
      trivial
    · rw [if_pos hq]
      trivial

omit [LawfulFloatMath φ] in
theorem differenceCi_symm (p q d e : φ) (n m : Int) : Agree (fun _ _ => True)
    (normalApproximationDifferenceCi p n q m d confidence)
    (normalApproximationDifferenceCi q m p n e confidence) := by
  unfold normalApproximationDifferenceCi
  refine (Agree.refl (R := fun _ _ => True) (fun _ => trivial) _).bind ?_
  intro z z' _
  trivial

/-- The part of a test that the family reads. -/
def SameTest (x y : ProportionComparison φ) : Prop :=
  x.insufficientData = y.insufficientData ∧ toRat x.pValue = toRat y.pValue

theorem zTest_symm (successesA nA successesB nB : Int) :
    Agree SameTest (twoProportionZTest successesA nA successesB nB confidence alpha familySize)
      (twoProportionZTest successesB nB successesA nA confidence alpha familySize) := by
  unfold twoProportionZTest
  refine (Agree.refl (R := Eq) (fun _ => rfl) _).bind ?_
  intro _ _ _
  by_cases hsize : familySize = 0
  · rw [if_pos hsize, if_pos hsize]
    trivial
  · rw [if_neg hsize, if_neg hsize]
    by_cases hn : nA ≤ 0 ∨ nB ≤ 0
    · rw [if_pos hn, if_pos (Or.comm.mp hn)]
      exact ⟨rfl, rfl⟩
    · rw [if_neg hn, if_neg (fun h => hn (Or.comm.mp h))]
      dsimp only
      simp only [pooledProportion_symm successesB nB successesA nA, pooledVariance_symm _ nB nA,
        minimumDetectableEffect_symm nB nA]
      refine (cohensH_symm _ _).bind ?_
      intro effectSize effectSize' _
      refine (Agree.refl (R := Eq) (fun _ => rfl) _).bind ?_
      intro detectableEffect _ _
      refine (differenceCi_symm _ _ _ _ _ _).bind ?_
      intro ci ci' _
      refine ⟨rfl, ?_⟩
      dsimp only
      generalize decide (toRat (sqrt (pooledVariance
        (pooledProportion successesA nA successesB nB : φ) nA nB)) = 0) = degenerate
      cases degenerate with
      | true => rfl
      | false =>
        simp only [Bool.false_eq_true, if_false]
        rw [LawfulFloatMath.abs_div_sub]

omit [FloatMath φ] [LawfulFloatMath φ] in
theorem validateSuccessCounts_ok (successes n : Int) (label : String) :
    validateSuccessCounts successes n label = .ok () ↔ 0 ≤ n ∧ 0 ≤ successes ∧ successes ≤ n := by
  unfold validateSuccessCounts
  split
  · rename_i hn
    simp only [reduceCtorEq, false_iff]
    omega
  · split
    · simp only [reduceCtorEq, false_iff]
      omega
    · split
      · simp only [reduceCtorEq, false_iff]
        omega
      · simp only [true_iff]
        omega

omit [FloatMath φ] [LawfulFloatMath φ] in
theorem validateBetaBinomialInputs_symm (successesA nA successesB nB : Int) :
    Agree (fun _ _ => True) (validateBetaBinomialInputs successesA nA successesB nB)
      (validateBetaBinomialInputs successesB nB successesA nA) := by
  have hok : ∀ a n b m, validateBetaBinomialInputs a n b m = .ok () ↔
      (0 ≤ n ∧ 0 ≤ a ∧ a ≤ n) ∧ (0 ≤ m ∧ 0 ≤ b ∧ b ≤ m) := by
    intro a n b m
    unfold validateBetaBinomialInputs
    rw [bind_ok, ← validateSuccessCounts_ok a n "a", ← validateSuccessCounts_ok b m "b"]
    constructor
    · intro h
      obtain ⟨_, ha, hb⟩ := h
      exact ⟨ha, hb⟩
    · intro h
      exact ⟨(), h⟩
  have hiff : validateBetaBinomialInputs successesA nA successesB nB = .ok () ↔
      validateBetaBinomialInputs successesB nB successesA nA = .ok () := by
    rw [hok, hok, And.comm]
  cases hx : validateBetaBinomialInputs successesA nA successesB nB with
  | ok u => rw [hiff.mp hx]; trivial
  | error e =>
    cases hy : validateBetaBinomialInputs successesB nB successesA nA with
    | ok u => rw [hiff.mpr hy] at hx; cases hx
    | error e' => trivial

/-- A pair of models compares alike both ways round. -/
def SameComparison (x y : ModelComparison φ) : Prop :=
  s(x.modelA, x.modelB) = s(y.modelA, y.modelB) ∧ ∀ metric, SameTest (x.metric metric) (y.metric metric)

theorem compareModels_symm (a b : ModelOutcomeReport) :
    Agree SameComparison (compareModels a b confidence alpha familySize)
      (compareModels b a confidence alpha familySize) := by
  unfold compareModels
  refine (zTest_symm _ _ _ _).bind ?_
  intro ci ci' hci
  refine (zTest_symm _ _ _ _).bind ?_
  intro rate rate' hrate
  refine (validateBetaBinomialInputs_symm _ _ _ _).bind ?_
  intro _ _ _
  refine (validateBetaBinomialInputs_symm _ _ _ _).bind ?_
  intro _ _ _
  refine ⟨Sym2.eq_swap, ?_⟩
  intro metric
  cases metric with
  | ciPassRate => exact hci
  | attributionRate => exact hrate

end

/-- Pairs of a list in another order are the same pairs, some of them the other way round. -/
theorem pairs_perm {α β : Type} {f : α × α → β} (hf : ∀ a b, f (a, b) = f (b, a)) {xs ys : List α}
    (h : xs.Perm ys) : ((pairs xs).map f).Perm ((pairs ys).map f) := by
  induction h with
  | nil => exact List.Perm.refl _
  | cons x hp ih =>
    rw [pairs, pairs, List.map_append, List.map_append]
    exact ((hp.map _).map f).append ih
  | swap x y l =>
    simp only [pairs, List.map_cons, List.map_append, List.map_map, List.cons_append]
    rw [hf y x]
    refine List.Perm.cons _ ?_
    rw [← List.append_assoc, ← List.append_assoc]
    exact List.perm_append_comm.append_right _
  | trans _ _ ih ih' => exact ih.trans ih'

/-- What a comparison says of its pair of models, metric by metric. -/
def summary (c : ModelComparison φ) : Sym2 String × (MetricName → Bool × ℚ) :=
  (s(c.modelA, c.modelB), fun metric =>
    (!(c.metric metric).insufficientData, toRat (c.metric metric).pValue))

/-- What the family reads of a test. -/
def Test.reading (t : Test φ) : Sym2 String × MetricName × Bool × ℚ :=
  (t.pair, t.metric, t.computable, t.p)

theorem readings_summary (comparisons : List (ModelComparison φ)) :
    (tests comparisons).map Test.reading = (comparisons.map summary).flatMap (fun c =>
      metricNames.map (fun metric => (c.1, metric, c.2 metric))) := by
  unfold tests
  rw [List.map_flatMap, List.flatMap_map]
  rfl

theorem readings_adjusted {alpha : ℚ} (h : 0 < alpha) :
    (tests (adjustedComparisons comparisons alpha)).map Test.reading =
      (tests comparisons).map Test.reading := by
  rw [tests_adjusted, tests_slots, List.map_map, List.map_map]
  apply List.map_congr_left
  intro slot hslot
  obtain ⟨hdata, hp⟩ := testOf_adjusted h hslot
  simp only [Function.comp_apply, Test.reading, hdata, hp]
  rfl

/-- The family marks the metric of a pair of models. -/
def Marked (ts : List (Test φ)) (pair : Sym2 String) (metric : MetricName) : Prop :=
  ∃ t ∈ ts, t.pair = pair ∧ t.metric = metric ∧ t.marked = true

theorem marked_iff {alpha threshold : ℚ} {m k : Nat} {ts : List (Test φ)}
    (h : StepUpMarks alpha m ts k threshold) (pair : Sym2 String) (metric : MetricName) :
    Marked ts pair metric ↔ ∃ p ≤ threshold, (pair, metric, true, p) ∈ ts.map Test.reading := by
  constructor
  · intro hmarked
    obtain ⟨t, ht, rfl, rfl, hm⟩ := hmarked
    have hc : t.computable = true := by
      rw [← Bool.not_eq_false]
      intro hc
      rw [(h.without t ht hc).1] at hm
      cases hm
    refine ⟨t.p, ((h.computed t ht hc).1).mp hm, List.mem_map.mpr ⟨t, ht, ?_⟩⟩
    rw [Test.reading, hc]
  · intro hex
    obtain ⟨p, hp, hin⟩ := hex
    obtain ⟨t, ht, heq⟩ := List.mem_map.mp hin
    simp only [Test.reading, Prod.mk.injEq] at heq
    obtain ⟨hpair, hmetric, hc, rfl⟩ := heq
    exact ⟨t, ht, hpair, hmetric, ((h.computed t ht hc).1).mpr hp⟩

/-- Families that read alike mark alike. -/
theorem marked_perm {alpha threshold threshold' : ℚ} {m k m' k' : Nat} {ts ts' : List (Test φ)}
    (h : StepUpMarks alpha m ts k threshold) (h' : StepUpMarks alpha m' ts' k' threshold')
    (hp : (ts.map Test.reading).Perm (ts'.map Test.reading)) (pair : Sym2 String)
    (metric : MetricName) : Marked ts pair metric ↔ Marked ts' pair metric := by
  have hps : ∀ us : List (Test φ), (us.filter Test.computable).map Test.p =
      ((us.map Test.reading).filter (fun r => r.2.2.1)).map (fun r => r.2.2.2) := by
    intro us
    rw [List.filter_map, List.map_map]
    rfl
  have hperm : ((ts.filter Test.computable).map Test.p).Perm
      ((ts'.filter Test.computable).map Test.p) := by
    rw [hps, hps]
    exact (hp.filter _).map _
  have hsorted : sortedBy id ((ts.filter Test.computable).map Test.p) =
      sortedBy id ((ts'.filter Test.computable).map Test.p) :=
    sortedBy_congr hperm (fun _ _ _ _ heq => heq)
  have hm : m = m' := by
    have hlen := hperm.length_eq
    rw [List.length_map, List.length_map] at hlen
    rw [h.counted, h'.counted, hlen]
  subst hm
  have hk : k = k' := by
    refine h.last.unique ?_
    rw [hsorted]
    exact h'.last
  have hthreshold : threshold = threshold' := by
    rw [h.reported, h'.reported, hk]
  rw [marked_iff h, marked_iff h', hthreshold]
  simp only [hp.mem_iff]

section
variable [LawfulFloatMath φ] {confidence alpha : φ} {familySize : Nat}
  {reports reports' : List ModelOutcomeReport}

/-- The pairs of reports in another order compare alike. -/
theorem comparisons_perm (hp : reports.Perm reports') :
    Agree (fun cs cs' => (cs.map summary).Perm (cs'.map summary))
      ((pairs reports).mapM (fun p => compareModels p.1 p.2 confidence alpha familySize))
      ((pairs reports').mapM (fun p => compareModels p.1 p.2 confidence alpha familySize)) := by
  have hsymm : ∀ a b : ModelOutcomeReport,
      (compareModels a b confidence alpha familySize).toOption.map summary =
        (compareModels b a confidence alpha familySize).toOption.map summary := by
    intro a b
    have hagree : Agree SameComparison (compareModels a b confidence alpha familySize)
        (compareModels b a confidence alpha familySize) := compareModels_symm a b
    cases hx : compareModels a b confidence alpha familySize with
    | error e =>
      cases hy : compareModels b a confidence alpha familySize with
      | error e' => rfl
      | ok y => rw [hx, hy] at hagree; exact hagree.elim
    | ok x =>
      cases hy : compareModels b a confidence alpha familySize with
      | error e' => rw [hx, hy] at hagree; exact hagree.elim
      | ok y =>
        rw [hx, hy] at hagree
        obtain ⟨hpair, hmetrics⟩ := hagree
        refine congrArg some (Prod.ext hpair (funext fun metric => ?_))
        exact Prod.ext (congrArg (!·) (hmetrics metric).1) (hmetrics metric).2
  exact mapM_agree_of_perm (pairs_perm hsymm hp)

omit [LawfulFloatMath φ] in
theorem validateAlpha_ok {u : Unit} (h : validateAlpha alpha = .ok u) : 0 < toRat alpha := by
  unfold validateAlpha at h
  split at h
  · rename_i halpha
    exact halpha.1
  · cases h

omit [LawfulFloatMath φ] in
theorem compareAllModels_ok {result : MultiModelComparison φ}
    (h : compareAllModels reports confidence alpha = .ok result) :
    0 < toRat alpha ∧ ∃ comparisons, (pairs reports).mapM (fun p =>
        compareModels p.1 p.2 confidence alpha (2 * reports.length.choose 2)) = .ok comparisons ∧
      result.comparisons = adjustedComparisons comparisons (toRat alpha) ∧
      result.testedFamilySize = (rankedPValues comparisons).length := by
  unfold compareAllModels at h
  rw [bind_ok] at h
  obtain ⟨u, halpha, h⟩ := h
  split at h
  · cases h
  · dsimp only at h
    split at h
    · cases h
    · rw [bind_ok] at h
      obtain ⟨comparisons, hcomparisons, h⟩ := h
      cases h
      exact ⟨validateAlpha_ok halpha, comparisons, hcomparisons, rfl, rfl⟩

theorem compareAllModels_perm (hp : reports.Perm reports') :
    Agree (fun result result' => ∀ pair metric, Marked (tests result.comparisons) pair metric ↔
        Marked (tests result'.comparisons) pair metric)
      (compareAllModels reports confidence alpha) (compareAllModels reports' confidence alpha) := by
  have hlength : reports.length = reports'.length := hp.length_eq
  have hnodup : (reports.map ModelOutcomeReport.model).Nodup ↔
      (reports'.map ModelOutcomeReport.model).Nodup := (hp.map _).nodup_iff
  unfold compareAllModels
  rw [← hlength]
  dsimp only
  cases halpha : validateAlpha alpha with
  | error e => trivial
  | ok u =>
    have hpos : 0 < toRat alpha := validateAlpha_ok halpha
    rw [ok_bind, ok_bind]
    by_cases htwo : reports.length < 2
    · rw [if_pos htwo, if_pos htwo]
      trivial
    · rw [if_neg htwo, if_neg htwo]
      by_cases hn : (reports.map ModelOutcomeReport.model).Nodup
      · rw [if_neg (not_not.mpr hn), if_neg (not_not.mpr (hnodup.mp hn))]
        refine (comparisons_perm hp).bind ?_
        intro comparisons comparisons' hcs pair metric
        refine marked_perm (stepUpMarks hpos) (stepUpMarks hpos) ?_ pair metric
        rw [readings_adjusted hpos, readings_adjusted hpos, readings_summary, readings_summary]
        exact hcs.flatMap_right _
      · rw [if_pos hn, if_pos (fun h => hn (hnodup.mpr h))]
        trivial

/-- The comparison of all models marks by the rule of Benjamini and Hochberg, with the last
passing rank and its cutoff over the metrics that have data, and the same hypotheses of the
same pairs for every order of the reports. -/
theorem benjamini_hochberg_exact (reports : List ModelOutcomeReport) (confidence alpha : φ) :
    (∀ result, compareAllModels reports confidence alpha = .ok result →
      ∃ k threshold, StepUpMarks (toRat alpha) result.testedFamilySize (tests result.comparisons)
        k threshold) ∧
    ∀ reports', reports.Perm reports' →
      Agree (fun result result' => ∀ pair metric,
          Marked (tests result.comparisons) pair metric ↔
            Marked (tests result'.comparisons) pair metric)
        (compareAllModels reports confidence alpha)
        (compareAllModels reports' confidence alpha) := by
  constructor
  · intro result h
    obtain ⟨hpos, comparisons, -, hcomparisons, htested⟩ := compareAllModels_ok h
    rw [hcomparisons, htested]
    exact ⟨_, _, stepUpMarks hpos⟩
  · intro reports' hp
    exact compareAllModels_perm hp

end

end

/-- Exact numbers, with the values of the functions at the few points that are used. -/
@[reducible] def tabulated : FloatMath ℚ where
  toRat := id
  ofRat := id
  add := (· + ·)
  sub := (· - ·)
  mul := (· * ·)
  div := (· / ·)
  abs := fun x => |x|
  sqrt := fun x => if x = 1 / 4096 then 1 / 64 else x
  asin := fun x => if x = 1 then 15707963267948966 / 10 ^ 16 else x
  cdf := fun x => if x = 64 then 1 else 1 / 2
  invCdf := fun p =>
    if p = 975 / 1000 then some (1959963984540054 / 10 ^ 15)
    else if p = 8 / 10 then some (8416212335729143 / 10 ^ 16)
    else none

theorem tabulated_lawful : @LawfulFloatMath ℚ tabulated :=
  @LawfulFloatMath.mk ℚ tabulated (fun x y => Rat.add_comm x y)
    (fun x y s => by
      change |(x - y) / s| = |(y - x) / s|
      rw [abs_div, abs_div, abs_sub_comm])

/-- Two models that differ in their CI pass rate alone, and one without CI outcomes. -/
def threeReports : List ModelOutcomeReport :=
  [⟨"a", 2048, 2048, 2048, 2048⟩, ⟨"b", 2048, 2048, 2048, 0⟩, ⟨"c", 2048, 2048, 0, 0⟩]

theorem three_models_compared :
    (@compareAllModels ℚ tabulated threeReports (95 / 100) (5 / 100)).toOption.map (fun result =>
      (result.testedFamilySize, (tests result.comparisons).map Test.marked)) =
        some (4, [true, false, false, false, false, false]) ∧
    Agree (fun result result' => ∀ pair metric,
        Marked (tests result.comparisons) pair metric ↔
          Marked (tests result'.comparisons) pair metric)
      (@compareAllModels ℚ tabulated threeReports (95 / 100) (5 / 100))
      (@compareAllModels ℚ tabulated threeReports.reverse (95 / 100) (5 / 100)) := by
  constructor
  · decide +kernel
  · exact (@benjamini_hochberg_exact ℚ tabulated tabulated_lawful threeReports (95 / 100)
      (5 / 100)).2 _ (List.reverse_perm _).symm

end Sediment.Proofs.Significance

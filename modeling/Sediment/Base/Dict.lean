import Mathlib

namespace Sediment.Base

/-- A dictionary that remembers insertion order. No key occurs twice. -/
structure Dict (κ α : Type*) where
  entries : List (κ × α)
  nodup : (entries.map Prod.fst).Nodup

namespace Dict
variable {κ α β : Type*}

def empty : Dict κ α := ⟨[], List.nodup_nil⟩

def keys (d : Dict κ α) : List κ := d.entries.map Prod.fst

def values (d : Dict κ α) : List α := d.entries.map Prod.snd

theorem nodup_keys (d : Dict κ α) : d.keys.Nodup := d.nodup

def mapValues (f : κ → α → β) (d : Dict κ α) : Dict κ β where
  entries := d.entries.map (fun e => (e.1, f e.1 e.2))
  nodup := by simpa [List.map_map, Function.comp_def] using d.nodup

def filter (p : κ → α → Bool) (d : Dict κ α) : Dict κ α where
  entries := d.entries.filter (fun e => p e.1 e.2)
  nodup := d.nodup.sublist (List.filter_sublist.map Prod.fst)

@[simp] theorem keys_mapValues (f : κ → α → β) (d : Dict κ α) :
    (d.mapValues f).keys = d.keys := by
  simp [keys, mapValues, List.map_map, Function.comp_def]

section
variable [DecidableEq κ]

/-- The entries with `key` rebound in place, or bound at the end when it is new. -/
def alterEntries (key : κ) (f : Option α → α) : List (κ × α) → List (κ × α)
  | [] => [(key, f none)]
  | e :: rest =>
    if e.1 = key then (key, f (some e.2)) :: rest else e :: alterEntries key f rest

theorem map_fst_alterEntries (key : κ) (f : Option α → α) (es : List (κ × α)) :
    (alterEntries key f es).map Prod.fst =
      if key ∈ es.map Prod.fst then es.map Prod.fst else es.map Prod.fst ++ [key] := by
  induction es with
  | nil => simp [alterEntries]
  | cons e rest ih =>
    by_cases he : e.1 = key
    · simp [alterEntries, he]
    · simp only [alterEntries, he, if_false, List.map_cons, ih, List.mem_cons, Ne.symm he,
        false_or]
      split <;> simp

/-- Rebind one key from its present value, keeping its place. -/
def alter (d : Dict κ α) (key : κ) (f : Option α → α) : Dict κ α where
  entries := alterEntries key f d.entries
  nodup := by
    rw [map_fst_alterEntries]
    split
    · exact d.nodup
    · rename_i hk
      simpa [List.nodup_append, d.nodup] using fun a b hm he => hk (by simpa [← he] using ⟨b, hm⟩)

def set (d : Dict κ α) (key : κ) (v : α) : Dict κ α := d.alter key (fun _ => v)

def setdefault (d : Dict κ α) (key : κ) (v : α) : Dict κ α := d.alter key (fun o => o.getD v)

def get? (d : Dict κ α) (key : κ) : Option α := d.entries.lookup key

def contains (d : Dict κ α) (key : κ) : Bool := (d.get? key).isSome

theorem lookup_cons_ite (k : κ) (e : κ × α) (es : List (κ × α)) :
    (e :: es).lookup k = if e.1 = k then some e.2 else es.lookup k := by
  by_cases hk : e.1 = k
  · subst hk; simp [List.lookup]
  · simp [List.lookup, hk, beq_eq_false_iff_ne.mpr (Ne.symm hk)]

theorem lookup_alterEntries (key : κ) (f : Option α → α) (es : List (κ × α)) (k : κ) :
    (alterEntries key f es).lookup k =
      if k = key then some (f (es.lookup key)) else es.lookup k := by
  induction es with
  | nil =>
    simp only [alterEntries, lookup_cons_ite, List.lookup_nil, eq_comm]
  | cons e rest ih =>
    by_cases he : e.1 = key
    · simp only [alterEntries, he, if_true, lookup_cons_ite]
      by_cases hk : k = key
      · simp [hk]
      · simp [hk, Ne.symm hk]
    · by_cases hk : k = key
      · subst k
        simp [alterEntries, he, lookup_cons_ite, ih]
      · simp only [alterEntries, he, if_false, lookup_cons_ite, ih, hk]

/-- The whole interface of a rebind: the key's value changes and no other does. -/
theorem get?_alter (d : Dict κ α) (key : κ) (f : Option α → α) (k : κ) :
    (d.alter key f).get? k = if k = key then some (f (d.get? key)) else d.get? k :=
  lookup_alterEntries key f d.entries k

theorem get?_set (d : Dict κ α) (key : κ) (v : α) (k : κ) :
    (d.set key v).get? k = if k = key then some v else d.get? k :=
  get?_alter d key _ k

theorem get?_setdefault (d : Dict κ α) (key : κ) (v : α) (k : κ) :
    (d.setdefault key v).get? k = if k = key then some ((d.get? key).getD v) else d.get? k :=
  get?_alter d key _ k

@[simp] theorem get?_empty (k : κ) : (empty : Dict κ α).get? k = none := rfl

theorem mem_entries_iff (d : Dict κ α) {k : κ} {v : α} :
    (k, v) ∈ d.entries ↔ d.get? k = some v := by
  obtain ⟨es, hn⟩ := d
  change (k, v) ∈ es ↔ es.lookup k = some v
  induction es with
  | nil => simp
  | cons e rest ih =>
    obtain ⟨k', v'⟩ := e
    simp only [List.map_cons, List.nodup_cons] at hn
    rw [lookup_cons_ite, List.mem_cons]
    by_cases hk : k' = k
    · subst k'
      have hnot : (k, v) ∉ rest := fun hm => hn.1 (List.mem_map.mpr ⟨_, hm, rfl⟩)
      simp [hnot, eq_comm]
    · simp [hk, Ne.symm hk, ih hn.2]

theorem mem_keys_iff (d : Dict κ α) {k : κ} : k ∈ d.keys ↔ ∃ v, d.get? k = some v := by
  rw [keys, List.mem_map]
  constructor
  · rintro ⟨⟨k', v⟩, hm, rfl⟩
    exact ⟨v, d.mem_entries_iff.mp hm⟩
  · rintro ⟨v, hv⟩
    exact ⟨(k, v), d.mem_entries_iff.mpr hv, rfl⟩

theorem get?_eq_none_iff (d : Dict κ α) {k : κ} : d.get? k = none ↔ k ∉ d.keys := by
  rw [mem_keys_iff]
  cases d.get? k <;> simp

theorem contains_iff (d : Dict κ α) {k : κ} : d.contains k = true ↔ k ∈ d.keys := by
  rw [contains, Option.isSome_iff_exists, mem_keys_iff]

theorem filter_entries_key (d : Dict κ α) (k : κ) :
    d.entries.filter (fun e => e.1 = k) = (d.get? k).toList.map (fun v => (k, v)) := by
  obtain ⟨es, hn⟩ := d
  change es.filter _ = (es.lookup k).toList.map _
  induction es with
  | nil => rfl
  | cons e rest ih =>
    simp only [List.map_cons, List.nodup_cons] at hn
    rw [lookup_cons_ite]
    by_cases hk : e.1 = k
    · have hnone : rest.filter (fun e => e.1 = k) = [] := by
        rw [List.filter_eq_nil_iff]
        intro p hp he
        exact hn.1 (hk ▸ List.mem_map.mpr ⟨p, hp, by simpa using he⟩)
      rw [List.filter_cons_of_pos (by simpa using hk), if_pos hk, hnone]
      simp [← hk]
    · rw [List.filter_cons_of_neg (by simpa using hk), if_neg hk, ih hn.2]

theorem get?_mapValues (f : κ → α → β) (d : Dict κ α) (k : κ) :
    (d.mapValues f).get? k = (d.get? k).map (f k) := by
  obtain ⟨es, hn⟩ := d
  change (es.map _).lookup k = (es.lookup k).map (f k)
  clear hn
  induction es with
  | nil => rfl
  | cons e rest ih =>
    obtain ⟨k', v⟩ := e
    rw [List.map_cons, lookup_cons_ite, lookup_cons_ite, ih]
    by_cases hk : k' = k <;> simp [hk]

theorem get?_filter (p : κ → α → Bool) (d : Dict κ α) (k : κ) :
    (d.filter p).get? k = (d.get? k).filter (p k) := by
  apply Option.ext
  intro v
  rw [← mem_entries_iff, Option.filter_eq_some_iff, ← mem_entries_iff]
  exact List.mem_filter

/-- Python's `d.update(e)`. -/
def update (d e : Dict κ α) : Dict κ α := e.entries.foldl (fun d p => d.set p.1 p.2) d

theorem get?_update (d e : Dict κ α) (k : κ) :
    (d.update e).get? k = (e.get? k).or (d.get? k) := by
  obtain ⟨es, hn⟩ := e
  change (es.foldl (fun d p => d.set p.1 p.2) d).get? k = (es.lookup k).or (d.get? k)
  induction es generalizing d with
  | nil => rfl
  | cons p rest ih =>
    simp only [List.map_cons, List.nodup_cons] at hn
    rw [List.foldl_cons, ih _ hn.2, get?_set, lookup_cons_ite]
    by_cases hk : p.1 = k
    · subst hk
      have hr : rest.lookup p.1 = none := by
        rw [List.lookup_eq_none_iff]
        intro e he
        exact bne_iff_ne.mpr (fun h => hn.1 (List.mem_map.mpr ⟨e, he, h.symm⟩))
      simp [hr]
    · simp [hk, Ne.symm hk]

theorem keys_alter (d : Dict κ α) (key : κ) (f : Option α → α) :
    (d.alter key f).keys = if key ∈ d.keys then d.keys else d.keys ++ [key] :=
  map_fst_alterEntries key f d.entries

theorem mem_keys_alter (d : Dict κ α) (key : κ) (f : Option α → α) {k : κ} :
    k ∈ (d.alter key f).keys ↔ k ∈ d.keys ∨ k = key := by
  rw [keys_alter]
  split
  · rename_i hk
    exact ⟨Or.inl, fun h => h.elim id (fun he => he ▸ hk)⟩
  · simp

theorem alterEntries_of_not_mem {key : κ} (f : Option α → α) {es : List (κ × α)}
    (h : key ∉ es.map Prod.fst) : alterEntries key f es = es ++ [(key, f none)] := by
  induction es with
  | nil => rfl
  | cons e rest ih =>
    simp only [List.map_cons, List.mem_cons, not_or] at h
    simp only [alterEntries, Ne.symm h.1, if_false, ih h.2, List.cons_append]

/-- New keys come to the end, in the order in which they are set. -/
theorem entries_foldl_set (pairs : List (κ × α)) (d : Dict κ α)
    (hn : (pairs.map Prod.fst).Nodup) (hd : ∀ p ∈ pairs, p.1 ∉ d.keys) :
    (pairs.foldl (fun d p => d.set p.1 p.2) d).entries = d.entries ++ pairs := by
  induction pairs generalizing d with
  | nil => simp
  | cons p pairs ih =>
    simp only [List.map_cons, List.nodup_cons] at hn
    have hentries : (d.set p.1 p.2).entries = d.entries ++ [p] :=
      alterEntries_of_not_mem _ (hd p (by simp))
    rw [List.foldl_cons, ih _ hn.2, hentries, List.append_assoc, List.singleton_append]
    intro q hq hm
    rw [keys, hentries, List.map_append, List.mem_append] at hm
    rcases hm with hm | hm
    · exact hd q (by simp [hq]) hm
    · rw [List.map_singleton, List.mem_singleton] at hm
      exact hn.1 (hm ▸ List.mem_map_of_mem hq)

theorem mem_entries_foldl_set {d : Dict κ α} {pairs : List (κ × α)} {p : κ × α}
    (h : p ∈ (pairs.foldl (fun d p => d.set p.1 p.2) d).entries) : p ∈ d.entries ∨ p ∈ pairs := by
  induction pairs generalizing d with
  | nil => exact Or.inl h
  | cons q pairs ih =>
    rcases ih h with h | h
    · obtain ⟨key, v⟩ := p
      rw [mem_entries_iff, get?_set] at h
      split at h
      · rename_i hk
        cases h
        exact Or.inr (by simp [hk])
      · exact Or.inl ((mem_entries_iff d).mpr h)
    · exact Or.inr (List.mem_cons_of_mem _ h)

theorem mem_keys_foldl_set (pairs : List (κ × α)) (d : Dict κ α) {k : κ} :
    k ∈ (pairs.foldl (fun d p => d.set p.1 p.2) d).keys ↔ k ∈ d.keys ∨ k ∈ pairs.map Prod.fst := by
  induction pairs generalizing d with
  | nil => simp
  | cons p pairs ih =>
    rw [List.foldl_cons, ih, set, mem_keys_alter, List.map_cons, List.mem_cons, or_assoc]

theorem entries_setdefault (d : Dict κ α) (key : κ) (v : α) :
    (d.setdefault key v).entries =
      if key ∈ d.keys then d.entries else d.entries ++ [(key, v)] := by
  obtain ⟨es, hn⟩ := d
  change alterEntries key _ es = if key ∈ es.map Prod.fst then es else es ++ [(key, v)]
  clear hn
  induction es with
  | nil => rfl
  | cons e rest ih =>
    obtain ⟨k, w⟩ := e
    by_cases hk : k = key
    · subst hk
      simp [alterEntries]
    · simp only [alterEntries, hk, if_false, ih, List.map_cons, List.mem_cons, Ne.symm hk,
        false_or]
      split <;> rfl

end

section
variable [DecidableEq κ] [DecidableEq α]

def members (d : Dict κ (Finset α)) (key : κ) : Finset α := (d.get? key).getD ∅

def collect (d : Dict κ (Finset α)) (pairs : List (κ × α)) : Dict κ (Finset α) :=
  pairs.foldl (fun d p => d.alter p.1 (fun o => insert p.2 (o.getD ∅))) d

theorem mem_members_collect (d : Dict κ (Finset α)) (pairs : List (κ × α)) {k : κ} {v : α} :
    v ∈ (d.collect pairs).members k ↔ v ∈ d.members k ∨ (k, v) ∈ pairs := by
  induction pairs generalizing d with
  | nil => simp [collect]
  | cons p rest ih =>
    have hs := ih (d.alter p.1 (fun o => insert p.2 (o.getD ∅)))
    change v ∈ ((d.alter p.1 _).collect rest).members k ↔ _
    rw [hs, members, get?_alter]
    by_cases hk : k = p.1
    · subst hk
      simp only [if_true, Option.getD_some, Finset.mem_insert, List.mem_cons, Prod.ext_iff,
        true_and, members]
      tauto
    · simp only [hk, if_false, List.mem_cons, Prod.ext_iff, false_and, false_or, members]

theorem mem_keys_collect (d : Dict κ (Finset α)) (pairs : List (κ × α)) {k : κ} :
    k ∈ (d.collect pairs).keys ↔ k ∈ d.keys ∨ ∃ v, (k, v) ∈ pairs := by
  induction pairs generalizing d with
  | nil => simp [collect]
  | cons p rest ih =>
    change k ∈ ((d.alter p.1 _).collect rest).keys ↔ _
    rw [ih, mem_keys_alter]
    simp only [List.mem_cons, Prod.ext_iff]
    constructor
    · rintro ((hk | rfl) | ⟨v, hv⟩)
      · exact Or.inl hk
      · exact Or.inr ⟨p.2, Or.inl ⟨rfl, rfl⟩⟩
      · exact Or.inr ⟨v, Or.inr hv⟩
    · rintro (hk | ⟨v, ⟨hk, _⟩ | hv⟩)
      · exact Or.inl (Or.inl hk)
      · exact Or.inl (Or.inr hk)
      · exact Or.inr ⟨v, hv⟩

end

section
variable [DecidableEq κ]

def listed (d : Dict κ (List α)) (key : κ) : List α := (d.get? key).getD []

def push (d : Dict κ (List α)) (key : κ) (v : α) : Dict κ (List α) :=
  d.alter key (fun vs => vs.getD [] ++ [v])

def gather (d : Dict κ (List α)) (pairs : List (κ × α)) : Dict κ (List α) :=
  pairs.foldl (fun d p => d.push p.1 p.2) d

/-- Every key with every value of its list, in dictionary order. -/
def unroll (d : Dict κ (List α)) : List (κ × α) :=
  d.entries.flatMap (fun e => e.2.map (fun v => (e.1, v)))

theorem listed_push (d : Dict κ (List α)) (key : κ) (v : α) (k : κ) :
    (d.push key v).listed k = if k = key then d.listed key ++ [v] else d.listed k := by
  simp only [listed, push, get?_alter]
  split <;> rfl

theorem listed_gather (d : Dict κ (List α)) (pairs : List (κ × α)) (k : κ) :
    (d.gather pairs).listed k =
      d.listed k ++ (pairs.filter (fun p => p.1 = k)).map Prod.snd := by
  induction pairs generalizing d with
  | nil => simp [gather]
  | cons p rest ih =>
    change ((d.push p.1 p.2).gather rest).listed k = _
    rw [ih, listed_push]
    by_cases hk : k = p.1
    · subst hk; simp
    · simp [hk, Ne.symm hk]

theorem mem_keys_gather (d : Dict κ (List α)) (pairs : List (κ × α)) {k : κ} :
    k ∈ (d.gather pairs).keys ↔ k ∈ d.keys ∨ ∃ v, (k, v) ∈ pairs := by
  induction pairs generalizing d with
  | nil => simp [gather]
  | cons p rest ih =>
    change k ∈ ((d.push p.1 p.2).gather rest).keys ↔ _
    rw [ih, push, mem_keys_alter]
    simp only [List.mem_cons, Prod.ext_iff, exists_or, or_assoc]
    simp

/-- The groups of a gathering loop: each key that occurs, with its values in order. -/
theorem mem_entries_gather (pairs : List (κ × α)) {k : κ} {vs : List α} :
    (k, vs) ∈ (empty.gather pairs).entries ↔
      (∃ v, (k, v) ∈ pairs) ∧ vs = (pairs.filter (fun p => p.1 = k)).map Prod.snd := by
  have hl := listed_gather (empty : Dict κ (List α)) pairs k
  have hk := mem_keys_gather (empty : Dict κ (List α)) pairs (k := k)
  rw [mem_keys_iff] at hk
  rw [mem_entries_iff]
  simp only [listed, get?_empty, Option.getD_none, List.nil_append] at hl
  constructor
  · intro hg
    rw [hg] at hl hk
    exact ⟨by simpa [keys, empty] using hk, hl⟩
  · rintro ⟨hv, rfl⟩
    obtain ⟨vs, hg⟩ := hk.mpr (Or.inr hv)
    rw [hg] at hl
    rw [hg, ← hl]
    rfl

theorem mem_unroll (d : Dict κ (List α)) {k : κ} {v : α} :
    (k, v) ∈ d.unroll ↔ v ∈ d.listed k := by
  simp only [unroll, List.mem_flatMap, List.mem_map, Prod.mk.injEq, listed]
  constructor
  · rintro ⟨⟨k', vs⟩, he, v', hv, rfl, rfl⟩
    rw [d.mem_entries_iff.mp he]
    exact hv
  · intro hv
    cases hg : d.get? k with
    | none => simp [hg] at hv
    | some vs =>
      rw [hg] at hv
      exact ⟨(k, vs), d.mem_entries_iff.mpr hg, v, hv, rfl, rfl⟩

theorem mem_unroll_gather (pairs : List (κ × α)) {k : κ} {v : α} :
    (k, v) ∈ (empty.gather pairs).unroll ↔ (k, v) ∈ pairs := by
  rw [mem_unroll, listed_gather]
  simp [listed]

end

/-- Equality of dictionaries as Python compares them: the same keys with the
same values, whatever order they were inserted in. -/
def Same [DecidableEq κ] (d e : Dict κ α) : Prop := ∀ k, d.get? k = e.get? k

section
variable [DecidableEq κ] {d e : Dict κ α}

theorem Same.keys_perm (h : d.Same e) : d.keys.Perm e.keys := by
  rw [List.perm_ext_iff_of_nodup d.nodup_keys e.nodup_keys]
  intro k
  rw [mem_keys_iff, mem_keys_iff, h k]

theorem Same.contains (h : d.Same e) (k : κ) : d.contains k = e.contains k :=
  congrArg Option.isSome (h k)

theorem Same.mapValues (h : d.Same e) (f : κ → α → β) : (d.mapValues f).Same (e.mapValues f) := by
  intro k
  rw [get?_mapValues, get?_mapValues, h k]

/-- The items of equal dictionaries are a rearrangement of each other. -/
theorem Same.entries_perm [DecidableEq α] (h : d.Same e) : d.entries.Perm e.entries := by
  rw [List.perm_ext_iff_of_nodup d.nodup.of_map e.nodup.of_map]
  rintro ⟨k, v⟩
  rw [mem_entries_iff, mem_entries_iff, h k]

/-- Dictionaries of sets agree when their keys and their members do. -/
theorem same_of_members [DecidableEq α] {d e : Dict κ (Finset α)}
    (hk : ∀ k, k ∈ d.keys ↔ k ∈ e.keys) (hm : ∀ k v, v ∈ d.members k ↔ v ∈ e.members k) :
    d.Same e := by
  intro k
  have hmem : d.members k = e.members k := Finset.ext (hm k)
  have hkey := hk k
  rw [mem_keys_iff, mem_keys_iff] at hkey
  cases hd : d.get? k with
  | none =>
    cases he : e.get? k with
    | none => rfl
    | some t => simp [hd, he] at hkey
  | some s =>
    cases he : e.get? k with
    | none => simp [hd, he] at hkey
    | some t => simpa [members, hd, he] using hmem

end

end Dict

end Sediment.Base

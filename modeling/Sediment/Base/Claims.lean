import Sediment.Base.FirstWins

namespace Sediment.Base.Claims

variable {π κ σ ρ : Type*}

def listed (items : π → List κ) (owners : List π) : List (π × κ) :=
  owners.flatMap (fun p => (items p).map (fun c => (p, c)))

theorem mem_listed {items : π → List κ} {owners : List π} {x : π × κ} :
    x ∈ listed items owners ↔ x.1 ∈ owners ∧ x.2 ∈ items x.1 := by
  obtain ⟨p, c⟩ := x
  simp only [listed, List.mem_flatMap, List.mem_map, Prod.mk.injEq]
  constructor
  · rintro ⟨q, hq, d, hd, rfl, rfl⟩
    exact ⟨hq, hd⟩
  · intro h
    exact ⟨p, h.1, c, h.2, rfl, rfl⟩

theorem listed_concat (items : π → List κ) (owners : List π) (p : π) :
    listed items (owners ++ [p]) = listed items owners ++ (items p).map (fun c => (p, c)) := by
  simp [listed]

variable [DecidableEq κ] [LinearOrder ρ]

/-- Each listed item with its first owner. -/
def claims (items : π → List κ) (owners : List π) : List (π × κ) :=
  firstWins Prod.snd (listed items owners)

variable {items items' : π → List κ} {owners owners' : List π} {x : π × κ} {p : π} {c : κ}

theorem nodup_claims (items : π → List κ) (owners : List π) :
    ((claims items owners).map Prod.snd).Nodup :=
  nodup_firstWins _

theorem claimed_iff : c ∈ (claims items owners).map Prod.snd ↔ ∃ p ∈ owners, c ∈ items p := by
  rw [claims, mem_keys_firstWins, List.mem_map]
  constructor
  · rintro ⟨y, hy, rfl⟩
    exact ⟨y.1, mem_listed.mp hy⟩
  · rintro ⟨p, hp, hc⟩
    exact ⟨(p, c), mem_listed.mpr ⟨hp, hc⟩, rfl⟩

theorem mem_of_mem_claims (h : x ∈ claims items owners) : x.1 ∈ owners ∧ x.2 ∈ items x.1 :=
  mem_listed.mp ((firstWins_sublist _).subset h)

/-- Among owners in order, no owner of an item comes before the one that claims it. -/
theorem claims_least {order : π → ρ} (hs : owners.Pairwise (fun a b => order a ≤ order b))
    (h : x ∈ claims items owners) (hp : p ∈ owners) (hc : x.2 ∈ items p) : order x.1 ≤ order p := by
  have hfind := find?_of_mem_firstWins h
  clear h
  induction owners with
  | nil => cases hp
  | cons q owners ih =>
    rw [List.pairwise_cons] at hs
    rw [show listed items (q :: owners) =
      (items q).map (fun c => (q, c)) ++ listed items owners from rfl, List.find?_append] at hfind
    by_cases hq : x.2 ∈ items q
    · have hx : x.1 = q := by
        cases hf : ((items q).map (fun c => (q, c))).find? (fun y => y.2 = x.2) with
        | none =>
          rw [List.find?_eq_none] at hf
          exact absurd (hf (q, x.2) (List.mem_map_of_mem hq)) (by simp)
        | some y =>
          rw [hf, Option.some_or] at hfind
          cases hfind
          obtain ⟨d, -, rfl⟩ := List.mem_map.mp (List.mem_of_find?_eq_some hf)
          rfl
      rw [hx]
      rcases List.mem_cons.mp hp with rfl | hp
      · exact le_refl _
      · exact hs.1 p hp
    · have hnone : ((items q).map (fun c => (q, c))).find? (fun y => y.2 = x.2) = none := by
        rw [List.find?_eq_none]
        intro y hy
        obtain ⟨d, hd, rfl⟩ := List.mem_map.mp hy
        rw [decide_eq_true_eq]
        rintro rfl
        exact hq hd
      rw [hnone, Option.none_or] at hfind
      rcases List.mem_cons.mp hp with rfl | hp
      · exact absurd hc hq
      · exact ih hs.2 hp hfind

/-- Where the owners stay in order, the rank of each item's owner does not depend on the order
of the rows. -/
theorem claims_perm {order : π → ρ} (hp : owners.Perm owners')
    (hi : ∀ p ∈ owners, (items p).Perm (items' p))
    (hs : owners.Pairwise (fun a b => order a ≤ order b))
    (hs' : owners'.Pairwise (fun a b => order a ≤ order b)) :
    ((claims items owners).map (fun x => (order x.1, x.2))).Perm
      ((claims items' owners').map (fun x => (order x.1, x.2))) := by
  have hnodup : ∀ (items : π → List κ) (owners : List π),
      ((claims items owners).map (fun x => (order x.1, x.2))).Nodup := by
    intro items owners
    apply List.Nodup.of_map Prod.snd
    rw [List.map_map]
    exact nodup_claims items owners
  have hmem : ∀ p, p ∈ owners → ∀ c, c ∈ items p ↔ c ∈ items' p :=
    fun p hm c => (hi p hm).mem_iff
  rw [List.perm_ext_iff_of_nodup (hnodup _ _) (hnodup _ _)]
  intro r
  rw [List.mem_map, List.mem_map]
  constructor
  · rintro ⟨x, hx, rfl⟩
    obtain ⟨ho, hc⟩ := mem_of_mem_claims hx
    have hclaimed : x.2 ∈ (claims items' owners').map Prod.snd :=
      claimed_iff.mpr ⟨x.1, hp.mem_iff.mp ho, (hmem _ ho _).mp hc⟩
    obtain ⟨y, hy, he⟩ := List.mem_map.mp hclaimed
    obtain ⟨ho', hc'⟩ := mem_of_mem_claims hy
    refine ⟨y, hy, ?_⟩
    rw [he] at hc'
    have hle := claims_least hs hx (hp.mem_iff.mpr ho') ((hmem _ (hp.mem_iff.mpr ho') _).mpr hc')
    have hge := claims_least hs' hy (hp.mem_iff.mp ho) (he ▸ (hmem _ ho _).mp hc)
    rw [le_antisymm hge hle, he]
  · rintro ⟨y, hy, rfl⟩
    obtain ⟨ho', hc'⟩ := mem_of_mem_claims hy
    have ho := hp.mem_iff.mpr ho'
    have hclaimed : y.2 ∈ (claims items owners).map Prod.snd :=
      claimed_iff.mpr ⟨y.1, ho, (hmem _ ho _).mpr hc'⟩
    obtain ⟨x, hx, he⟩ := List.mem_map.mp hclaimed
    obtain ⟨hox, hcx⟩ := mem_of_mem_claims hx
    refine ⟨x, hx, ?_⟩
    rw [he] at hcx
    have hle := claims_least hs hx ho (he ▸ (hmem _ ho _).mpr hc')
    have hge := claims_least hs' hy (hp.mem_iff.mp hox) ((hmem _ hox _).mp hcx)
    rw [le_antisymm hle hge, he]

/-- Renaming the owners and the items renames the claims. -/
theorem claims_map {π' κ' : Type*} [DecidableEq κ'] {items' : π' → List κ'} (f : π → π')
    {g : κ → κ'} (hg : Function.Injective g) (hi : ∀ p ∈ owners, items' (f p) = (items p).map g) :
    claims items' (owners.map f) = (claims items owners).map (fun x => (f x.1, g x.2)) := by
  have hlisted : listed items' (owners.map f) =
      (listed items owners).map (fun x => (f x.1, g x.2)) := by
    rw [listed, listed, List.flatMap_map, List.map_flatMap]
    apply List.flatMap_congr
    intro p hp
    rw [hi p hp, List.map_map, List.map_map]
    rfl
  have hfirst : ∀ xs : List (π × κ), firstWins Prod.snd (xs.map (fun x => (f x.1, g x.2))) =
      (firstWins Prod.snd xs).map (fun x => (f x.1, g x.2)) := by
    intro xs
    induction xs with
    | nil => rfl
    | cons x xs ih =>
      rw [List.map_cons, firstWins, firstWins, List.map_cons, ih, List.filter_map]
      congr 2
      apply List.filter_congr
      intro y _
      simp only [Function.comp_apply, hg.ne_iff]
  rw [claims, hlisted, hfirst]
  rfl

/-- A step leaves the state alone on an item it has seen, and has seen it afterwards. -/
structure Remembers (seen : σ → Finset κ) (step : π → σ → κ → σ) : Prop where
  again : ∀ p w c, c ∈ seen w → step p w c = w
  once : ∀ p w c, c ∉ seen w → seen (step p w c) = insert c (seen w)

variable {seen : σ → Finset κ} {step : π → σ → κ → σ}

theorem Remembers.foldl_firstWins (h : Remembers seen step) (xs : List (π × κ)) (w : σ) :
    xs.foldl (fun w x => step x.1 w x.2) w =
      ((firstWins Prod.snd xs).filter (fun x => decide (x.2 ∉ seen w))).foldl
        (fun w x => step x.1 w x.2) w := by
  induction xs generalizing w with
  | nil => rfl
  | cons x xs ih =>
    rw [List.foldl_cons, ih, firstWins]
    by_cases hx : x.2 ∈ seen w
    · rw [h.again _ _ _ hx, List.filter_cons_of_neg (by simpa using hx), List.filter_filter]
      congr 1
      apply List.filter_congr
      intro y _
      by_cases hy : y.2 = x.2
      · simp [hy, hx]
      · simp [hy]
    · rw [List.filter_cons_of_pos (by simpa using hx), List.foldl_cons, List.filter_filter,
        h.once _ _ _ hx]
      congr 1
      apply List.filter_congr
      intro y _
      by_cases hy : y.2 = x.2
      · simp [hy]
      · simp [hy]

/-- A walk over the owners handles the claims. What it does once for each owner may be done
before, where no step depends on it. -/
theorem Remembers.foldl_claims (h : Remembers seen step) (enter : π → σ → σ)
    (hcomm : ∀ p q w c, enter p (step q w c) = step q (enter p w) c)
    (hseen : ∀ p w, seen (enter p w) = seen w) (w : σ) (hw : seen w = ∅) :
    owners.foldl (fun w p => (items p).foldl (step p) (enter p w)) w =
      (claims items owners).foldl (fun w x => step x.1 w x.2)
        (owners.foldl (fun w p => enter p w) w) := by
  have hlist : ∀ (xs : List (π × κ)) (p : π) (w : σ),
      enter p (xs.foldl (fun w x => step x.1 w x.2) w) =
        xs.foldl (fun w x => step x.1 w x.2) (enter p w) := by
    intro xs p w
    induction xs generalizing w with
    | nil => rfl
    | cons x xs ih => rw [List.foldl_cons, ih, hcomm, List.foldl_cons]
  have hflat : owners.foldl (fun w p => (items p).foldl (step p) (enter p w)) w =
      (listed items owners).foldl (fun w x => step x.1 w x.2)
        (owners.foldl (fun w p => enter p w) w) := by
    induction owners using List.reverseRecOn with
    | nil => rfl
    | append_singleton owners p ih =>
      rw [List.foldl_append, ih, List.foldl_cons, List.foldl_nil, hlist, List.foldl_append,
        List.foldl_cons, List.foldl_nil, listed_concat, List.foldl_append, List.foldl_map]
  have hentered : seen (owners.foldl (fun w p => enter p w) w) = ∅ := by
    clear hflat
    induction owners using List.reverseRecOn with
    | nil => exact hw
    | append_singleton owners p ih =>
      rw [List.foldl_append, List.foldl_cons, List.foldl_nil, hseen, ih]
  rw [hflat, h.foldl_firstWins, hentered]
  congr 1
  exact List.filter_eq_self.mpr (fun x _ => by simp)

theorem Remembers.foldl_owners (h : Remembers seen step) (w : σ) (hw : seen w = ∅) :
    owners.foldl (fun w p => (items p).foldl (step p) w) w =
      (claims items owners).foldl (fun w x => step x.1 w x.2) w := by
  have hall := @Remembers.foldl_claims _ _ _ _ items owners _ _ h (fun _ w => w)
    (fun _ _ _ _ => rfl) (fun _ _ => rfl) w hw
  rwa [List.foldl_fixed] at hall

/-- Over distinct items that are new to it, a loop takes its step for new items. -/
theorem Remembers.foldl_fresh (h : Remembers seen step) (fresh : π → σ → κ → σ)
    (hfresh : ∀ p w c, c ∉ seen w → step p w c = fresh p w c) (xs : List (π × κ)) (w : σ)
    (hn : (xs.map Prod.snd).Nodup) (hd : ∀ x ∈ xs, x.2 ∉ seen w) :
    xs.foldl (fun w x => step x.1 w x.2) w = xs.foldl (fun w x => fresh x.1 w x.2) w := by
  induction xs generalizing w with
  | nil => rfl
  | cons x xs ih =>
    rw [List.map_cons, List.nodup_cons] at hn
    have hx := hd x (by simp)
    rw [List.foldl_cons, List.foldl_cons, ← hfresh _ _ _ hx]
    apply ih _ hn.2
    intro y hy
    rw [h.once _ _ _ hx, Finset.mem_insert, not_or]
    refine ⟨?_, hd y (by simp [hy])⟩
    rintro he
    exact hn.1 (he ▸ List.mem_map_of_mem hy)

/-- Where the keys of two lists are a permutation, and equal keys read the same, the readings
are a permutation. -/
theorem perm_map_of_keys {α β γ : Type*} {as : List α} {bs : List β} {key : α → κ} {key' : β → κ}
    {f : α → γ} {g : β → γ} (h : (as.map key).Perm (bs.map key'))
    (hf : ∀ a ∈ as, ∀ b ∈ bs, key a = key' b → f a = g b) : (as.map f).Perm (bs.map g) := by
  let read : κ → Option γ := fun k => (bs.find? (fun b => key' b = k)).map g
  have hright : ∀ b ∈ bs, ∀ a ∈ as, key a = key' b → read (key' b) = some (f a) := by
    intro b hb a ha hab
    change (bs.find? (fun b' => key' b' = key' b)).map g = _
    cases hfind : bs.find? (fun b' => decide (key' b' = key' b)) with
    | none =>
      rw [List.find?_eq_none] at hfind
      exact absurd (hfind b hb) (by simp)
    | some b' =>
      have hk := List.find?_some hfind
      rw [decide_eq_true_eq] at hk
      rw [Option.map_some, hf a ha b' (List.mem_of_find?_eq_some hfind) (hab.trans hk.symm)]
  have hleft : (as.map f).map some = (as.map key).map read := by
    rw [List.map_map, List.map_map]
    apply List.map_congr_left
    intro a ha
    obtain ⟨b, hb, hbk⟩ := List.mem_map.mp (h.mem_iff.mp (List.mem_map_of_mem ha))
    rw [Function.comp_apply, Function.comp_apply, ← hbk]
    exact (hright b hb a ha hbk.symm).symm
  have hother : (bs.map g).map some = (bs.map key').map read := by
    rw [List.map_map, List.map_map]
    apply List.map_congr_left
    intro b hb
    obtain ⟨a, ha, hak⟩ := List.mem_map.mp (h.mem_iff.mpr (List.mem_map_of_mem hb))
    rw [Function.comp_apply, Function.comp_apply, hright b hb a ha hak, hf a ha b hb hak]
  have hread : ((as.map f).map some).Perm ((bs.map g).map some) := by
    rw [hleft, hother]
    exact h.map read
  exact (List.map_perm_map_iff (Option.some_injective _)).mp hread

end Sediment.Base.Claims

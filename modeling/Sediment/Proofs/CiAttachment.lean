import Sediment.Proofs.CiRuns
import Sediment.Proofs.RepositoryOrder

namespace Sediment.Proofs.CiAttachment
open Sediment.Base Sediment.Core Sediment.Derive
open Sediment.Proofs.RepositoryContext Sediment.Proofs.RepositoryOrder

section
variable {orgId : String} {outcomes outcomes' population population' : List CIOutcome}

theorem max_congr {xs ys : List Int} (h : xs.Perm ys) : xs.max? = ys.max? := by
  cases hx : xs.max? with
  | none =>
    rw [List.max?_eq_none_iff] at hx
    subst hx
    rw [List.nil_perm.mp h]
    rfl
  | some a =>
    symm
    rw [List.max?_eq_some_iff] at hx ⊢
    exact ⟨h.mem_iff.mp hx.1, fun b hb => hx.2 b (h.mem_iff.mpr hb)⟩

variable [Interpreter]

/-- An organization's own population gives the same context in any order. -/
theorem localContext_perm (h : population.Perm population') :
    Agree SameContext (localContext orgId population) (localContext orgId population') := by
  have hmax := max_congr (h.map (fun item => item.capturedAt.utc))
  have herr : ∀ (item : CIOutcome) e, validateEvidence item.project = .error e →
      e = .invalidEvidence := fun item e he => validateEvidence_error item.project e he
  simp only [localContext, hmax]
  by_cases ho : normalizeOrgId orgId = none
  · simp only [if_pos ho]
    exact True.intro
  · obtain ⟨org, ho⟩ := Option.ne_none_iff_exists'.mp ho
    simp only [ho, reduceCtorEq, if_false]
    by_cases hl : population.length ≤ repositoryIdentityLimit
    · have hl' : population'.length ≤ repositoryIdentityLimit := h.length_eq ▸ hl
      rw [List.take_of_length_le (by omega), List.take_of_length_le (by omega)]
      rcases mapM_sameRows herr (fun _ => h.mem_iff) with ⟨ys, ys', h1, h2, hsame⟩ | ⟨h1, h2⟩
      · rw [h1, h2]
        have hb := build_sameRows orgId
          ((population'.map (fun item => item.capturedAt.utc)).max?.getD 0) hsame
          (show SameRows [] [] from fun _ => Iff.rfl)
          (by rw [length_of_mapM_ok h1, length_of_mapM_ok h2, h.length_eq])
          Iff.rfl
        change Agree SameContext (buildRepositoryContext ys [] orgId _)
          (buildRepositoryContext ys' [] orgId _)
        cases hc : buildRepositoryContext ys [] orgId
            ((population'.map (fun item => item.capturedAt.utc)).max?.getD 0) <;>
          cases hd : buildRepositoryContext ys' [] orgId
            ((population'.map (fun item => item.capturedAt.utc)).max?.getD 0) <;>
          rw [hc, hd] at hb <;> first | exact hb.elim | exact True.intro | exact hb.1
      · rw [h1, h2]
        exact True.intro
    · -- Past the limit the read of either population is refused.
      have hover : ∀ p : List CIOutcome, repositoryIdentityLimit < p.length → ∀ asOf, ∃ e,
          (p.take (repositoryIdentityLimit + 1)).mapM (fun item =>
            validateEvidence item.project) >>= (fun evidence =>
              buildRepositoryContext evidence [] orgId asOf) = .error e := by
        intro p hp asOf
        cases hm : (p.take (repositoryIdentityLimit + 1)).mapM (fun item =>
            validateEvidence item.project) with
        | error e => exact ⟨e, rfl⟩
        | ok evidence =>
          have hlen := length_of_mapM_ok hm
          rw [List.length_take] at hlen
          exact ⟨_, build_over org ho (Or.inl (by omega))⟩
      obtain ⟨e, he⟩ := hover population (by omega)
        ((population'.map (fun item => item.capturedAt.utc)).max?.getD 0)
      obtain ⟨e', he'⟩ := hover population' (by rw [← h.length_eq]; omega)
        ((population'.map (fun item => item.capturedAt.utc)).max?.getD 0)
      change Agree SameContext (_ >>= _) (_ >>= _)
      rw [he, he']
      exact True.intro

def ofOrg (org : String) (outcomes : List CIOutcome) : List CIOutcome :=
  outcomes.filter (fun item => item.orgId = org)

omit [Interpreter] in
theorem mem_byOrg {org : String} {rows : List CIOutcome} :
    (org, rows) ∈ (Dict.empty.gather (outcomes.map (fun item => (item.orgId, item)))).entries ↔
      (∃ item ∈ outcomes, item.orgId = org) ∧ rows = ofOrg org outcomes := by
  rw [Dict.mem_entries_gather, List.filter_map, List.map_map]
  simp [ofOrg, Function.comp_def]

/-- Where every organization has a context, its outcomes find it and no other does. -/
theorem localContexts_ok {contexts : List (String × RepositoryContext)}
    (h : localContexts outcomes = .ok contexts) :
    (∀ item ∈ outcomes, ∃ c, localContext item.orgId (ofOrg item.orgId outcomes) = .ok c ∧
      contexts.lookup item.orgId = some c) ∧
    ∀ org, (∀ item ∈ outcomes, item.orgId ≠ org) → contexts.lookup org = none := by
  have hall := forall₂_of_mapM_ok h
  have hkeys : contexts.map Prod.fst =
      (Dict.empty.gather (outcomes.map (fun item => (item.orgId, item)))).keys := by
    rw [Dict.keys]
    generalize (Dict.empty.gather
      (outcomes.map (fun item => (item.orgId, item)))).entries = entries at hall
    clear h
    induction hall with
    | nil => rfl
    | cons hx _ ih =>
      rw [List.map_cons, List.map_cons, ih]
      congr 1
      dsimp only at hx
      generalize localContext _ _ = r at hx
      cases r <;> cases hx
      rfl
  have hmem : ∀ org c, contexts.lookup org = some c ↔ (∃ item ∈ outcomes, item.orgId = org) ∧
      localContext org (ofOrg org outcomes) = .ok c := by
    intro org c
    have hdict := Dict.mem_entries_iff (⟨contexts, hkeys ▸ Dict.nodup_keys _⟩ :
      Dict String RepositoryContext) (k := org) (v := c)
    change (org, c) ∈ contexts ↔ contexts.lookup org = some c at hdict
    rw [← hdict, mem_of_mapM_ok h]
    constructor
    · rintro ⟨⟨org', rows⟩, he, hx⟩
      obtain ⟨hitem, rfl⟩ := mem_byOrg.mp he
      dsimp only at hx
      cases hl : localContext org' (ofOrg org' outcomes) with
      | error e => rw [hl] at hx; cases hx
      | ok d =>
        rw [hl] at hx
        cases hx
        exact ⟨hitem, hl⟩
    · rintro ⟨hitem, hl⟩
      exact ⟨(org, ofOrg org outcomes), mem_byOrg.mpr ⟨hitem, rfl⟩, by dsimp only; rw [hl]; rfl⟩
  refine ⟨fun item hi => ?_, fun org hno => ?_⟩
  · cases hl : localContext item.orgId (ofOrg item.orgId outcomes) with
    | ok c => exact ⟨c, rfl, (hmem _ c).mpr ⟨⟨item, hi, rfl⟩, hl⟩⟩
    | error e =>
      refine absurd ?_ (not_error_of_forall₂ (e := e) hall
        (mem_byOrg.mpr ⟨⟨item, hi, rfl⟩, rfl⟩))
      dsimp only
      rw [hl]
      rfl
  · cases hl : contexts.lookup org with
    | none => rfl
    | some c =>
      obtain ⟨⟨item, hi, ho⟩, -⟩ := (hmem org c).mp hl
      exact absurd ho (hno item hi)

theorem localContexts_error {e : ContextError} (h : localContexts outcomes = .error e) :
    ∃ item ∈ outcomes, localContext item.orgId (ofOrg item.orgId outcomes) = .error e := by
  rcases mapM_forall₂ (fun (p : String × List CIOutcome) =>
    (localContext p.1 p.2).map (fun c => (p.1, c)))
    (Dict.empty.gather (outcomes.map (fun item => (item.orgId, item)))).entries with
    ⟨cs, hcs, -⟩ | ⟨e', he', ⟨org, rows⟩, hp, hx⟩
  · have := h.symm.trans hcs
    cases this
  · have heq := h.symm.trans he'
    cases heq
    obtain ⟨⟨item, hi, rfl⟩, rfl⟩ := mem_byOrg.mp hp
    refine ⟨item, hi, ?_⟩
    dsimp only at hx
    cases hl : localContext item.orgId (ofOrg item.orgId outcomes) with
    | error e' => rw [hl] at hx; cases hx; rfl
    | ok c => rw [hl] at hx; cases hx

/-- Contexts that every organization reads alike. -/
def SameContexts (contexts contexts' : List (String × RepositoryContext)) : Prop :=
  ∀ org, (contexts.lookup org = none ∧ contexts'.lookup org = none) ∨
    ∃ c d, contexts.lookup org = some c ∧ contexts'.lookup org = some d ∧ SameContext c d

theorem localContexts_perm (h : outcomes.Perm outcomes') :
    Agree SameContexts (localContexts outcomes) (localContexts outcomes') := by
  have hlocal : ∀ org, Agree SameContext (localContext org (ofOrg org outcomes))
      (localContext org (ofOrg org outcomes')) := fun org => localContext_perm (h.filter _)
  cases hc : localContexts outcomes with
  | error e =>
    cases hc' : localContexts outcomes' with
    | error e' => exact True.intro
    | ok contexts' =>
      obtain ⟨item, hi, herr⟩ := localContexts_error hc
      obtain ⟨c, hok, -⟩ := (localContexts_ok hc').1 item (h.mem_iff.mp hi)
      have ha := hlocal item.orgId
      rw [herr, hok] at ha
      exact ha
  | ok contexts =>
    cases hc' : localContexts outcomes' with
    | error e' =>
      obtain ⟨item, hi, herr⟩ := localContexts_error hc'
      obtain ⟨c, hok, -⟩ := (localContexts_ok hc).1 item (h.mem_iff.mpr hi)
      have ha := hlocal item.orgId
      rw [herr, hok] at ha
      exact ha
    | ok contexts' =>
      intro org
      by_cases hex : ∃ item ∈ outcomes, item.orgId = org
      · obtain ⟨item, hi, rfl⟩ := hex
        obtain ⟨c, hok, hlook⟩ := (localContexts_ok hc).1 item hi
        obtain ⟨d, hok', hlook'⟩ := (localContexts_ok hc').1 item (h.mem_iff.mp hi)
        have ha := hlocal item.orgId
        rw [hok, hok'] at ha
        exact Or.inr ⟨c, d, hlook, hlook', ha⟩
      · simp only [not_exists, not_and] at hex
        exact Or.inl ⟨(localContexts_ok hc).2 org hex,
          (localContexts_ok hc').2 org (fun item hi => hex item (h.mem_iff.mpr hi))⟩

theorem attachment_congr {contexts contexts' : List (String × RepositoryContext)}
    (h : SameContexts contexts contexts') (supplied : Bool) (item : CIOutcome) :
    attachment contexts supplied item = attachment contexts' supplied item := by
  simp only [attachment]
  rcases h item.orgId with ⟨h1, h2⟩ | ⟨c, d, h1, h2, hs⟩
  · rw [h1, h2]
  · rw [h1, h2]
    simp only [hs.resolveFact]

/-- The commit an outcome is attached to, if it is. -/
def attachedTo (contexts : List (String × RepositoryContext)) (supplied : Bool)
    (item : CIOutcome) : Option CommitKey :=
  match attachment contexts supplied item with
  | (some key, none) => some ⟨key, item.commitSha⟩
  | _ => none

def declinedBy (contexts : List (String × RepositoryContext)) (supplied : Bool)
    (item : CIOutcome) : Option RepositorySkipReason :=
  (attachment contexts supplied item).2

/-- The loop over the outcomes, part by part. -/
structure Attached (contexts : List (String × RepositoryContext)) (supplied : Bool)
    (seen : List CIOutcome) (s : CIOutcomeIndexResult) : Prop where
  skipped : ∀ reason, s.skipped reason =
    seen.countP (fun item => declinedBy contexts supplied item = some reason)
  declined : ∀ source, source ∈ s.declinedSources ↔
    ∃ item ∈ seen, sourceId item = source ∧ (declinedBy contexts supplied item).isSome
  grouped : ∀ commit, s.outcomesByCommit.listed commit =
    seen.filter (fun item => attachedTo contexts supplied item = some commit)

theorem attachedTo_declined {contexts : List (String × RepositoryContext)} {supplied : Bool}
    {item : CIOutcome} {reason : RepositorySkipReason}
    (h : declinedBy contexts supplied item = some reason) :
    attachedTo contexts supplied item = none := by
  unfold declinedBy at h
  unfold attachedTo
  split
  · rename_i ha
    rw [ha] at h
    cases h
  · rfl

theorem attach_cases (contexts : List (String × RepositoryContext)) (supplied : Bool)
    (s : CIOutcomeIndexResult) (item : CIOutcome) :
    (∃ reason, declinedBy contexts supplied item = some reason ∧
      attach contexts supplied s item = { s with
        skipped := bump s.skipped reason 1
        declinedSources := insert (sourceId item) s.declinedSources }) ∨
    (declinedBy contexts supplied item = none ∧ ∃ commit,
      attachedTo contexts supplied item = some commit ∧
      attach contexts supplied s item = { s with
        outcomesByCommit := s.outcomesByCommit.push commit item }) ∨
    (declinedBy contexts supplied item = none ∧ attachedTo contexts supplied item = none ∧
      attach contexts supplied s item = s) := by
  unfold declinedBy attachedTo attach
  rcases attachment contexts supplied item with ⟨_ | key, _ | reason⟩
  · exact Or.inr (Or.inr ⟨rfl, rfl, rfl⟩)
  · exact Or.inl ⟨reason, rfl, rfl⟩
  · exact Or.inr (Or.inl ⟨rfl, _, rfl, rfl⟩)
  · exact Or.inl ⟨reason, rfl, rfl⟩

theorem attached_add {contexts : List (String × RepositoryContext)} {supplied : Bool}
    {seen : List CIOutcome} {s : CIOutcomeIndexResult} (h : Attached contexts supplied seen s)
    (item : CIOutcome) :
    Attached contexts supplied (seen ++ [item]) (attach contexts supplied s item) := by
  rcases attach_cases contexts supplied s item with
    ⟨reason, h1, ha⟩ | ⟨h1, commit, h2, ha⟩ | ⟨h1, h2, ha⟩ <;> rw [ha]
  · have h2 := attachedTo_declined h1
    refine ⟨fun r => ?_, fun x => ?_, fun c => by simp [h.grouped, h2]⟩
    · simp only [bump, Function.update_apply, h.skipped, List.countP_append, List.countP_cons,
        List.countP_nil, h1, Option.some.injEq, decide_eq_true_eq]
      by_cases hr : r = reason
      · simp [hr]
      · simp [hr, Ne.symm hr]
    · simp only [Finset.mem_insert, h.declined, List.mem_append, List.mem_singleton,
        or_and_right, exists_or, exists_eq_left, h1, Option.isSome_some, and_true]
      rw [or_comm, eq_comm (a := x)]
  · refine ⟨fun r => by simp [h.skipped, List.countP_append, h1],
      fun x => by simp [h.declined, or_and_right, exists_or, h1], fun c => ?_⟩
    rw [Dict.listed_push, List.filter_append, h.grouped, h.grouped]
    by_cases hc : c = commit
    · subst hc; simp [h2]
    · simp [h2, hc, Ne.symm hc]
  · exact ⟨fun r => by simp [h.skipped, List.countP_append, h1],
      fun x => by simp [h.declined, or_and_right, exists_or, h1],
      fun c => by simp [h.grouped, h2]⟩

theorem attached_run (contexts : List (String × RepositoryContext)) (supplied : Bool)
    (outcomes : List CIOutcome) :
    Attached contexts supplied outcomes (outcomes.foldl (attach contexts supplied) {}) := by
  induction outcomes using List.reverseRecOn with
  | nil => exact ⟨fun r => rfl, by simp, fun c => rfl⟩
  | append_singleton outcomes item ih =>
    rw [List.foldl_append]
    exact attached_add ih item

/-- The index as statements about the outcomes in scope. -/
structure Indexed (contexts : List (String × RepositoryContext)) (supplied : Bool)
    (outcomes : List CIOutcome) (indexed : CIOutcomeIndexResult) : Prop where
  skipped : ∀ reason, indexed.skipped reason =
    outcomes.countP (fun item => declinedBy contexts supplied item = some reason)
  declined : ∀ source, source ∈ indexed.declinedSources ↔
    ∃ item ∈ outcomes, sourceId item = source ∧ (declinedBy contexts supplied item).isSome
  keys : ∀ source commit, commit ∈ (keysBySource indexed).members source ↔
    ∃ item ∈ outcomes, sourceId item = source ∧ attachedTo contexts supplied item = some commit

theorem indexed_run (contexts : List (String × RepositoryContext)) (supplied : Bool)
    (outcomes : List CIOutcome) :
    Indexed contexts supplied outcomes
      (let grouped := outcomes.foldl (attach contexts supplied) {}
       { grouped with outcomesByCommit := grouped.outcomesByCommit.mapValues (fun _ items =>
          sortedBy outcomeOrder items) }) := by
  obtain ⟨hs, hd, hg⟩ := attached_run contexts supplied outcomes
  refine ⟨hs, hd, ?_⟩
  intro source commit
  rw [keysBySource, Dict.mem_members_collect]
  simp only [Dict.members, Dict.get?_empty, Option.getD_none, Finset.notMem_empty, false_or,
    List.mem_map, Prod.exists, Prod.mk.injEq, Dict.mem_unroll]
  have hlisted : ∀ c item, item ∈ ((outcomes.foldl (attach contexts supplied)
      {}).outcomesByCommit.mapValues (fun _ items => sortedBy outcomeOrder items)).listed c ↔
      item ∈ outcomes ∧ attachedTo contexts supplied item = some c := by
    intro c item
    have hc := hg c
    rw [Dict.listed] at hc ⊢
    rw [Dict.get?_mapValues]
    cases hget : (outcomes.foldl (attach contexts supplied) {}).outcomesByCommit.get? c with
    | none =>
      rw [hget] at hc
      have hnone : item ∉ outcomes.filter (fun item =>
          attachedTo contexts supplied item = some c) := by rw [← hc]; simp
      simpa using hnone
    | some items =>
      rw [hget] at hc
      simp only [Option.getD_some] at hc
      simp [hc]
  constructor
  · rintro ⟨c, item, hi, rfl, rfl⟩
    obtain ⟨hm, ha⟩ := (hlisted _ _).mp hi
    exact ⟨item, hm, rfl, ha⟩
  · rintro ⟨item, hm, rfl, ha⟩
    exact ⟨commit, item, (hlisted _ _).mpr ⟨hm, ha⟩, rfl, rfl⟩

theorem index_ok {context : Option RepositoryContext} {indexed : CIOutcomeIndexResult}
    (h : indexCiOutcomesByCommitKeyResult outcomes context = .ok indexed) :
    ∃ contexts, (context = none → localContexts outcomes = .ok contexts) ∧
      Indexed contexts context.isSome (scopedOutcomes context outcomes) indexed := by
  cases context with
  | none =>
    simp only [indexCiOutcomesByCommitKeyResult, bind_ok] at h
    obtain ⟨contexts, hlocal, hout⟩ := h
    cases hout
    exact ⟨contexts, fun _ => hlocal, indexed_run contexts false _⟩
  | some c =>
    simp only [indexCiOutcomesByCommitKeyResult, bind_ok] at h
    obtain ⟨contexts, -, hout⟩ := h
    cases hout
    exact ⟨contexts, fun h => (by cases h), indexed_run contexts true _⟩

/-- Indexes that count, decline and attach alike. -/
structure SameIndex (indexed indexed' : CIOutcomeIndexResult) : Prop where
  skipped : indexed.skipped = indexed'.skipped
  declined : indexed.declinedSources = indexed'.declinedSources
  keys : (keysBySource indexed).members = (keysBySource indexed').members

theorem sameIndex_of_indexed {contexts contexts' : List (String × RepositoryContext)}
    {supplied : Bool} {indexed indexed' : CIOutcomeIndexResult}
    (hc : SameContexts contexts contexts') (h : outcomes.Perm outcomes')
    (hi : Indexed contexts supplied outcomes indexed)
    (hi' : Indexed contexts' supplied outcomes' indexed') : SameIndex indexed indexed' := by
  have hd : declinedBy contexts supplied = declinedBy contexts' supplied := by
    funext item
    rw [declinedBy, declinedBy, attachment_congr hc]
  have ha : attachedTo contexts supplied = attachedTo contexts' supplied := by
    funext item
    simp only [attachedTo, attachment_congr hc]
  refine ⟨?_, ?_, ?_⟩
  · funext reason
    rw [hi.skipped, hi'.skipped, hd]
    exact h.countP_eq _
  · ext source
    simp only [hi.declined, hi'.declined, hd, h.mem_iff]
  · funext source
    ext commit
    simp only [hi.keys, hi'.keys, ha, h.mem_iff]

omit [Interpreter] in
theorem sameContexts_refl (contexts : List (String × RepositoryContext)) :
    SameContexts contexts contexts := by
  intro org
  cases hl : contexts.lookup org with
  | none => exact Or.inl ⟨rfl, rfl⟩
  | some c =>
    exact Or.inr ⟨c, c, rfl, rfl,
      ⟨⟨rfl, fun _ => rfl, fun _ => rfl, rfl⟩, rfl, rfl, rfl, fun _ => rfl, fun _ => rfl⟩⟩

theorem index_perm (context : Option RepositoryContext) (h : outcomes.Perm outcomes') :
    Agree SameIndex (indexCiOutcomesByCommitKeyResult outcomes context)
      (indexCiOutcomesByCommitKeyResult outcomes' context) := by
  cases context with
  | none =>
    refine (localContexts_perm h).bind ?_
    intro contexts contexts' hc
    exact sameIndex_of_indexed hc h (indexed_run contexts false outcomes)
      (indexed_run contexts' false outcomes')
  | some c =>
    exact sameIndex_of_indexed (sameContexts_refl [(c.orgId, c)]) (h.filter (inContext c))
      (indexed_run [(c.orgId, c)] true _) (indexed_run [(c.orgId, c)] true _)

end

end Sediment.Proofs.CiAttachment

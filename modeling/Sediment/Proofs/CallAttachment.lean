import Sediment.Core.CallStore
import Sediment.Derive.Attachment
import Sediment.Proofs.WitnessContext

namespace Sediment.Proofs.CallAttachment
open Sediment.Base Sediment.Core Sediment.Derive
open Sediment.Proofs.RepositoryIdentity (lowerCase noon)
open Sediment.Proofs.WitnessContext (byteOrder)

variable {s : CallStore} {orgId : String} {through : Int} {callId : String}

/-- What an attachment reads of the completion that a call id found. -/
structure Target where
  inferenceCallId : String
  orgId : String
  sessionId : String

def InferenceCallIdentity.target (c : InferenceCallIdentity) : Target :=
  ⟨c.inferenceCallId, c.orgId, c.sessionId⟩

def AliasOwner.target (o : AliasOwner) : Target := ⟨o.inferenceCallId, o.orgId, o.sessionId⟩

theorem listed_modelCallIds (c : InferenceCallIdentity) :
    ((c.modelCallIds.map (fun other => (other, c))).filter (fun p => p.1 = callId)).map Prod.snd =
      if callId ∈ c.callIds then [c] else [] := by
  have hn : c.modelCallIds.Nodup := List.nodup_dedup _
  have hm : callId ∈ c.modelCallIds ↔ callId ∈ c.callIds := List.mem_dedup
  simp only [← hm]
  generalize c.modelCallIds = others at hn
  induction others with
  | nil => rfl
  | cons other others ih =>
    obtain ⟨hnot, hn⟩ := List.nodup_cons.mp hn
    rw [List.map_cons]
    by_cases he : other = callId
    · subst he
      rw [List.filter_cons_of_pos (by simp), List.map_cons, ih hn, if_neg hnot, if_pos (by simp)]
    · rw [List.filter_cons_of_neg (by simpa using he), ih hn]
      simp [Ne.symm he]

theorem listed_completions (completions : List InferenceCallIdentity) :
    (completionsByCallId completions).listed callId =
      completions.filter (fun c => callId ∈ c.callIds) := by
  rw [completionsByCallId, Dict.listed_gather]
  change [] ++ _ = _
  rw [List.nil_append]
  induction completions with
  | nil => rfl
  | cons c rest ih =>
    rw [List.flatMap_cons, List.filter_append, List.map_append, ih, listed_modelCallIds]
    split
    · rename_i hc
      rw [List.filter_cons_of_pos (by simpa using hc), List.singleton_append]
    · rename_i hc
      rw [List.filter_cons_of_neg (by simpa using hc), List.nil_append]

/-- One owner attaches alike in both lists, and two are already ambiguous. -/
theorem attached_take_two {owners : List Target} {xs ys : List InferenceCallIdentity}
    (hx : (xs.map InferenceCallIdentity.target).Perm (owners.take 2))
    (hy : (ys.map InferenceCallIdentity.target).Perm owners) (d : DeveloperDecision) :
    attachedCompletion d xs = attachedCompletion d ys := by
  have hlx := hx.length_eq
  have hly := hy.length_eq
  rw [List.length_map] at hlx hly
  match owners with
  | [] =>
    rw [List.length_eq_zero_iff.mp hlx, List.length_eq_zero_iff.mp hly]
  | [o] =>
    obtain ⟨x, rfl⟩ := List.length_eq_one_iff.mp hlx
    obtain ⟨y, rfl⟩ := List.length_eq_one_iff.mp hly
    have htx := List.singleton_perm_singleton.mp hx
    have hty := List.singleton_perm_singleton.mp hy
    have ht := htx.trans hty.symm
    simp only [InferenceCallIdentity.target, Target.mk.injEq] at ht
    simp only [attachedCompletion, ht.1, ht.2.1, ht.2.2]
  | _ :: _ :: _ =>
    simp only [List.take_succ_cons, List.take_zero, List.length_cons, List.length_nil] at hlx hly
    match xs, ys with
    | _ :: _ :: _, _ :: _ :: _ => rfl

theorem join_congr {xs ys : List InferenceCallIdentity} {decisions : List DeveloperDecision}
    (h : ∀ d ∈ decisions, ∀ callId, d.callId = some callId →
      attachedCompletion d ((completionsByCallId xs).listed callId) =
        attachedCompletion d ((completionsByCallId ys).listed callId)) :
    joinDecisionsByCallIdResult xs decisions = joinDecisionsByCallIdResult ys decisions := by
  have hfold : ∀ result, (dropSubsumedCodexDecisions decisions).foldl
        (attachDecision (completionsByCallId xs)) result =
      (dropSubsumedCodexDecisions decisions).foldl
        (attachDecision (completionsByCallId ys)) result := by
    intro result
    apply List.foldl_ext
    intro result d hd
    have hd' : d ∈ decisions := List.mem_of_mem_filter hd
    unfold attachDecision
    cases hc : d.callId with
    | none => rfl
    | some callId => simp only [h d hd' callId hc]
  simp only [joinDecisionsByCallIdResult, hfold]

theorem mem_visible {call : InferenceCall} :
    call ∈ s.visible orgId through ↔ call ∈ s.calls ∧ call.orgId = orgId ∧
      s.latestAction call ≠ some .quarantine ∧ call.observedAt.utc ≤ through := by
  simp [CallStore.visible]

theorem ids_nodup : (s.calls.map InferenceCall.inferenceCallId).Nodup := by
  rw [List.Nodup, List.pairwise_map]
  exact s.unique.imp (fun h he => h (Or.inl he))

theorem call_eq_of_id {a b : InferenceCall} (ha : a ∈ s.calls) (hb : b ∈ s.calls)
    (h : a.inferenceCallId = b.inferenceCallId) : a = b :=
  List.inj_on_of_nodup_map ids_nodup ha hb h

theorem mem_aliasRows {call : InferenceCall} {row : AliasRow} (h : row ∈ aliasRows call) :
    row.inferenceCallId = call.inferenceCallId ∧ row.orgId = call.orgId ∧
      row.callId ∈ call.modelCallIds := by
  obtain ⟨⟨other, ordinal⟩, he, rfl⟩ := List.mem_map.mp h
  refine ⟨rfl, rfl, ?_⟩
  rw [← mem_sortedSet]
  exact List.fst_mem_of_mem_zipIdx he

theorem aliasRow_of_mem {call : InferenceCall} (h : callId ∈ call.modelCallIds) :
    ∃ row ∈ aliasRows call, row.callId = callId := by
  obtain ⟨i, hi, he⟩ := List.getElem_of_mem (mem_sortedSet.mpr h)
  have hm : ((sortedSet call.modelCallIds)[i], i) ∈ (sortedSet call.modelCallIds).zipIdx := by
    rw [List.mem_zipIdx_iff_getElem?]
    exact List.getElem?_eq_getElem hi
  exact ⟨_, List.mem_map.mpr ⟨_, hm, rfl⟩, he⟩

theorem mem_validatedIdentityFilter {requested : Finset String} {identifiers : List String}
    (h : validatedIdentityFilter requested = .ok identifiers) {value : String}
    (hv : value ∈ requested) (hid : nonEmptyId value = some callId) : callId ∈ identifiers := by
  unfold validatedIdentityFilter at h
  split at h
  · cases h
  · split at h
    · cases h
    · cases h
      rw [mem_sortedSet, Finset.mem_biUnion]
      exact ⟨value, hv, by simp [hid]⟩

section
variable [Collation]

/-- Every owner that the join finds, before the subquery cuts them to two. -/
def allOwners (s : CallStore) (orgId : String) (through : Int) (callId : String) :
    List AliasOwner :=
  orderBy (fun a b => Collation.le a.inferenceCallId b.inferenceCallId)
    ((s.aliases.flatMap (fun row => (s.visible orgId through).filter (fun call =>
      call.inferenceCallId = row.inferenceCallId ∧ row.orgId = orgId ∧
        row.callId = callId))).map InferenceCall.owner).dedup

theorem aliasOwners_eq :
    s.aliasOwners orgId through callId = (allOwners s orgId through callId).take 2 := rfl

theorem mem_allOwners {owner : AliasOwner} :
    owner ∈ allOwners s orgId through callId ↔
      ∃ call ∈ s.visible orgId through, callId ∈ call.modelCallIds ∧ call.owner = owner := by
  simp only [allOwners, mem_orderBy, List.mem_dedup, List.mem_map, List.mem_flatMap,
    List.mem_filter, decide_eq_true_eq, s.copied]
  constructor
  · rintro ⟨call, ⟨row, ⟨source, hsource, hrow⟩, hcall, hid, horg, hc⟩, rfl⟩
    obtain ⟨hrowid, hroworg, hrowc⟩ := mem_aliasRows hrow
    obtain rfl := call_eq_of_id (mem_visible.mp hcall).1 hsource (hid.trans hrowid)
    exact ⟨call, hcall, hc ▸ hrowc, rfl⟩
  · rintro ⟨call, hcall, hc, rfl⟩
    obtain ⟨row, hrow, rfl⟩ := aliasRow_of_mem hc
    obtain ⟨hid, horg, -⟩ := mem_aliasRows hrow
    exact ⟨call, ⟨row, ⟨call, (mem_visible.mp hcall).1, hrow⟩, hcall, hid.symm,
      horg.trans (mem_visible.mp hcall).2.1, rfl⟩, rfl⟩

theorem owner_eq_of_id {a b : AliasOwner} {c d : String}
    (ha : a ∈ allOwners s orgId through c) (hb : b ∈ allOwners s orgId through d)
    (h : a.inferenceCallId = b.inferenceCallId) : a = b := by
  obtain ⟨x, hx, -, rfl⟩ := mem_allOwners.mp ha
  obtain ⟨y, hy, -, rfl⟩ := mem_allOwners.mp hb
  rw [call_eq_of_id (mem_visible.mp hx).1 (mem_visible.mp hy).1 h]

theorem mem_allOwners_of_mem {owner : AliasOwner}
    (h : owner ∈ s.aliasOwners orgId through callId) : owner ∈ allOwners s orgId through callId :=
  List.mem_of_mem_take h

theorem targets_nodup :
    ((allOwners s orgId through callId).map AliasOwner.target).Nodup := by
  have hn : (allOwners s orgId through callId).Nodup :=
    (List.perm_insertionSort _ _).nodup_iff.mpr (List.nodup_dedup _)
  apply hn.map_on
  intro a ha b hb h
  exact owner_eq_of_id ha hb (congrArg Target.inferenceCallId h)

def ownerRows (s : CallStore) (orgId : String) (through : Int) (identifiers : List String) :
    List (AliasOwner × String) :=
  identifiers.flatMap (fun callId =>
    (s.aliasOwners orgId through callId).map (fun owner => (owner, callId)))

def ownerDict (s : CallStore) (orgId : String) (through : Int) (identifiers : List String) :
    Dict String AliasOwner :=
  (ownerRows s orgId through identifiers).foldl
    (fun d row => d.set row.1.inferenceCallId row.1) Dict.empty

def ownerAliases (s : CallStore) (orgId : String) (through : Int) (identifiers : List String) :
    Dict String (Finset String) :=
  Dict.empty.collect ((ownerRows s orgId through identifiers).map (fun row =>
    (row.1.inferenceCallId, row.2)))

def witness (s : CallStore) (orgId : String) (through : Int) (identifiers : List String)
    (owner : AliasOwner) : InferenceCallIdentity where
  inferenceCallId := owner.inferenceCallId
  orgId := owner.orgId
  sessionId := owner.sessionId
  observedAt := owner.observedAt
  callIds := sortedSet ((ownerAliases s orgId through identifiers).members owner.inferenceCallId)

variable {identifiers : List String} {owner : AliasOwner}

theorem mem_ownerRows :
    (owner, callId) ∈ ownerRows s orgId through identifiers ↔
      callId ∈ identifiers ∧ owner ∈ s.aliasOwners orgId through callId := by
  simp [ownerRows]

theorem mem_witness_callIds (howner : owner ∈ s.aliasOwners orgId through callId') :
    callId ∈ (witness s orgId through identifiers owner).callIds ↔
      callId ∈ identifiers ∧ owner ∈ s.aliasOwners orgId through callId := by
  rw [witness, mem_sortedSet, ownerAliases, Dict.mem_members_collect]
  constructor
  · rintro (h | h)
    · simp [Dict.members] at h
    · obtain ⟨⟨other, c⟩, hrow, he⟩ := List.mem_map.mp h
      rw [Prod.mk.injEq] at he
      obtain ⟨hid, rfl⟩ := he
      obtain ⟨hc, hother⟩ := mem_ownerRows.mp hrow
      obtain rfl := owner_eq_of_id (mem_allOwners_of_mem hother) (mem_allOwners_of_mem howner) hid
      exact ⟨hc, hother⟩
  · intro h
    exact Or.inr (List.mem_map.mpr ⟨(owner, callId), mem_ownerRows.mpr h, rfl⟩)

theorem ownerDict_eq :
    ownerDict s orgId through identifiers =
      ((ownerRows s orgId through identifiers).map (fun row =>
        (row.1.inferenceCallId, row.1))).foldl (fun d p => d.set p.1 p.2) Dict.empty := by
  rw [ownerDict, List.foldl_map]

theorem ownerDict_entry {factId : String}
    (h : (factId, owner) ∈ (ownerDict s orgId through identifiers).entries) :
    factId = owner.inferenceCallId ∧ ∃ callId ∈ identifiers,
      owner ∈ s.aliasOwners orgId through callId := by
  rw [ownerDict_eq] at h
  have hpair := (Dict.mem_entries_foldl_set h).resolve_left (by simp [Dict.empty])
  obtain ⟨⟨other, callId⟩, hrow, he⟩ := List.mem_map.mp hpair
  rw [Prod.mk.injEq] at he
  obtain ⟨rfl, rfl⟩ := he
  exact ⟨rfl, callId, mem_ownerRows.mp hrow⟩

theorem mem_ownerDict (hc : callId ∈ identifiers)
    (h : owner ∈ s.aliasOwners orgId through callId) :
    (owner.inferenceCallId, owner) ∈ (ownerDict s orgId through identifiers).entries := by
  have hkey : owner.inferenceCallId ∈ (ownerDict s orgId through identifiers).keys := by
    rw [ownerDict_eq, Dict.mem_keys_foldl_set, List.map_map]
    exact Or.inr (List.mem_map.mpr ⟨(owner, callId), mem_ownerRows.mpr ⟨hc, h⟩, rfl⟩)
  obtain ⟨⟨_, other⟩, hm, rfl⟩ := List.mem_map.mp hkey
  obtain ⟨hid, c, -, hother⟩ := ownerDict_entry hm
  obtain rfl := owner_eq_of_id (mem_allOwners_of_mem h) (mem_allOwners_of_mem hother) hid
  exact hm

theorem witnessIdentities_perm :
    (s.witnessIdentities orgId through identifiers).Perm
      ((ownerDict s orgId through identifiers).values.map
        (witness s orgId through identifiers)) := by
  refine (sortedBy_perm _ _).trans ?_
  rw [Dict.values, List.map_map]
  apply List.Perm.of_eq
  apply List.map_congr_left
  rintro ⟨factId, owner⟩ h
  obtain ⟨rfl, -⟩ := ownerDict_entry h
  rfl

/-- The witnesses of a requested call id are the owners its subquery kept. -/
theorem witness_targets (hc : callId ∈ identifiers) :
    (((s.witnessIdentities orgId through identifiers).filter (fun c => callId ∈ c.callIds)).map
      InferenceCallIdentity.target).Perm
        (((allOwners s orgId through callId).map AliasOwner.target).take 2) := by
  rw [← List.map_take, ← aliasOwners_eq]
  refine ((witnessIdentities_perm.filter _).map _).trans ?_
  rw [List.filter_map, List.map_map]
  change (List.map AliasOwner.target _).Perm _
  have hn : (ownerDict s orgId through identifiers).values.Nodup := by
    apply List.Nodup.of_map AliasOwner.inferenceCallId
    have hkeys : (ownerDict s orgId through identifiers).values.map AliasOwner.inferenceCallId =
        (ownerDict s orgId through identifiers).keys := by
      rw [Dict.values, Dict.keys, List.map_map]
      exact List.map_congr_left (fun entry h => (ownerDict_entry h).1.symm)
    rw [hkeys]
    exact Dict.nodup_keys _
  have htake : (s.aliasOwners orgId through callId).Nodup :=
    (targets_nodup.of_map _).sublist (List.take_sublist _ _)
  apply List.Perm.map
  rw [List.perm_ext_iff_of_nodup (hn.filter _) htake]
  intro owner
  rw [List.mem_filter]
  constructor
  · rintro ⟨hv, hcall⟩
    obtain ⟨⟨factId, _⟩, hentry, rfl⟩ := List.mem_map.mp hv
    obtain ⟨-, c, -, howner⟩ := ownerDict_entry hentry
    exact ((mem_witness_callIds howner).mp (of_decide_eq_true hcall)).2
  · intro howner
    exact ⟨List.mem_map.mpr ⟨_, mem_ownerDict hc howner, rfl⟩,
      decide_eq_true ((mem_witness_callIds howner).mpr ⟨hc, howner⟩)⟩

theorem read_identities [StoredBytes] {limit : Nat} {full : List InferenceCallIdentity}
    (h : s.readInferenceCallIdentities orgId through limit = .ok full) :
    full.Perm ((s.visible orgId through).map InferenceCall.identity) := by
  unfold CallStore.readInferenceCallIdentities at h
  split at h
  · cases h
  · dsimp only at h
    split at h
    · cases h
    · split at h
      · cases h
      · rename_i hlen _
        have hrun := foldlM_induct (fun seen identities =>
          identities = seen.map InferenceCall.identity) rfl (by
            intro seen call identities out hm hstep
            simp only [CallStore.appendIdentity] at hstep
            split at hstep
            · cases hstep
            · cases hstep
              rw [hm, List.map_append, List.map_singleton]) h
        rw [List.length_take] at hlen
        rw [hrun, List.take_of_length_le (by omega)]
        exact (List.perm_insertionSort _ _).map _

theorem population_targets :
    ((((s.visible orgId through).map InferenceCall.identity).filter (fun c =>
      callId ∈ c.callIds)).map InferenceCallIdentity.target).Perm
        ((allOwners s orgId through callId).map AliasOwner.target) := by
  have hn : ((((s.visible orgId through).map InferenceCall.identity).filter (fun c =>
      callId ∈ c.callIds)).map InferenceCallIdentity.target).Nodup := by
    apply List.Nodup.of_map Target.inferenceCallId
    rw [List.map_map]
    refine List.Nodup.sublist (List.filter_sublist.map _) ?_
    rw [List.map_map]
    exact ids_nodup.sublist (List.filter_sublist.map _)
  rw [List.perm_ext_iff_of_nodup hn targets_nodup]
  intro t
  simp only [List.mem_map, List.mem_filter, decide_eq_true_eq]
  constructor
  · rintro ⟨_, ⟨⟨call, hcall, rfl⟩, hc⟩, rfl⟩
    exact ⟨call.owner, mem_allOwners.mpr ⟨call, hcall, mem_sortedSet.mp hc, rfl⟩, rfl⟩
  · rintro ⟨owner, howner, rfl⟩
    obtain ⟨call, hcall, hc, rfl⟩ := mem_allOwners.mp howner
    exact ⟨call.identity, ⟨⟨call, hcall, rfl⟩, mem_sortedSet.mpr hc⟩, rfl⟩

/-- The requested witnesses attach every requested decision as the whole
population of identities does, with the same losses. -/
theorem witnesses_attach_alike [Interpreter] [StoredBytes] (s : CallStore) {rawOrg orgId : String}
    (horg : normalizeOrgId rawOrg = some orgId) (through : Int) {callIds : Finset String}
    {decisions : List DeveloperDecision}
    (hreq : ∀ d ∈ decisions, ∀ callId, d.callId = some callId →
      ∃ value ∈ callIds, nonEmptyId value = some callId)
    {witnesses : List InferenceCallIdentity}
    (hw : s.readInferenceCallIdentityWitnesses rawOrg callIds through = .ok witnesses) :
    joinDecisionsByCallIdResult witnesses decisions =
        joinDecisionsByCallIdResult ((s.visible orgId through).map InferenceCall.identity)
          decisions ∧
      ∀ limit full, s.readInferenceCallIdentities orgId through limit = .ok full →
        joinDecisionsByCallIdResult witnesses decisions =
          joinDecisionsByCallIdResult full decisions := by
  have hagree : ∀ population : List InferenceCallIdentity,
      population.Perm ((s.visible orgId through).map InferenceCall.identity) →
      joinDecisionsByCallIdResult witnesses decisions =
        joinDecisionsByCallIdResult population decisions := by
    intro population hp
    simp only [CallStore.readInferenceCallIdentityWitnesses, horg, Option.elim_some,
      pure_bind] at hw
    obtain ⟨identifiers, hids, hw⟩ := bind_ok.mp hw
    cases hw
    apply join_congr
    intro d hd callId hc
    obtain ⟨value, hv, hid⟩ := hreq d hd callId hc
    have hcall := mem_validatedIdentityFilter hids hv hid
    rw [listed_completions, listed_completions]
    exact attached_take_two (witness_targets hcall)
      (((hp.filter _).map _).trans population_targets) d
  exact ⟨hagree _ (List.Perm.refl _), fun limit full h => hagree full (read_identities h)⟩

end

def echoedCall (inferenceCallId : String) : InferenceCall where
  inferenceCallId := inferenceCallId
  orgId := "acme"
  sessionId := "s1"
  gatewayProvider := .litellm
  inputMessages := []
  outputMessages := [⟨"assistant", [.toolCall "t1" "edit" []], none⟩]
  modelCallId := none
  observedAt := noon

def echoStore : CallStore :=
  (["c1", "c2", "c3"].map echoedCall).foldl (fun s call => (s.storeInferenceCall call).1)
    ⟨[], [], [], List.Pairwise.nil, rfl⟩

def echoedDecision : DeveloperDecision :=
  ⟨"d1", "acme", "s1", none, .claudeCode, "a.py", true, true, .agent, none, some "t1", none, none,
    noon, noon, "{}"⟩

theorem echoed_decision_declined :
    letI := lowerCase
    letI := byteOrder
    ∃ witnesses, echoStore.readInferenceCallIdentityWitnesses "acme" {"t1"} 9 = .ok witnesses ∧
      witnesses.map InferenceCallIdentity.inferenceCallId = ["c1", "c2"] ∧
      joinDecisionsByCallIdResult witnesses [echoedDecision] =
        joinDecisionsByCallIdResult ((echoStore.visible "acme" 9).map InferenceCall.identity)
          [echoedDecision] := by
  have hread : letI := lowerCase; letI := byteOrder
      echoStore.readInferenceCallIdentityWitnesses "acme" {"t1"} 9 =
        .ok (echoStore.witnessIdentities "acme" 9 ["t1"]) := rfl
  have hreq : ∀ d ∈ [echoedDecision], ∀ callId, d.callId = some callId →
      ∃ value ∈ ({"t1"} : Finset String), nonEmptyId value = some callId := by
    intro d hd callId hc
    rw [List.mem_singleton] at hd
    subst hd
    cases hc
    exact ⟨"t1", by decide, by decide⟩
  let := lowerCase
  let := byteOrder
  let : StoredBytes := ⟨fun _ => 0⟩
  have horg : normalizeOrgId "acme" = some "acme" := by decide
  exact ⟨_, hread, by decide, (witnesses_attach_alike echoStore horg 9 hreq hread).1⟩

end Sediment.Proofs.CallAttachment

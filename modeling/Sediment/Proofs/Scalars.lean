import Sediment.Core.Scalars
import Sediment.Proofs.SessionIdentities

namespace Sediment.Proofs.Scalars
open Sediment.Base Base.JsonScan Sediment.Core.Scalars
open Sediment.Proofs.SessionIdentities (Stripped stripped_strip strip_eq_rdropWhile)

theorem scalarIdentity_eq_some {v w : Text} (h : Core.Captured.scalarIdentity v = some w) :
    w = v ∧ 0 ∉ v ∧ v.any Core.Captured.isSurrogate = false := by
  unfold Core.Captured.scalarIdentity at h
  split at h
  · cases h
  · rename_i hclean
    rw [not_or, Bool.not_eq_true] at hclean
    exact ⟨(Option.some.inj h).symm, hclean⟩

theorem scalarIdentity_of_clean {v : Text} (h0 : 0 ∉ v)
    (hs : v.any Core.Captured.isSurrogate = false) :
    Core.Captured.scalarIdentity v = some v := by
  rw [Core.Captured.scalarIdentity, if_neg]
  rw [not_or, Bool.not_eq_true]
  exact ⟨h0, hs⟩

theorem scalarIdentity_subset {v w : Text} (h : Core.Captured.scalarIdentity v = some v)
    (hsub : ∀ n ∈ w, n ∈ v) : Core.Captured.scalarIdentity w = some w := by
  obtain ⟨-, h0, hs⟩ := scalarIdentity_eq_some h
  apply scalarIdentity_of_clean
  · exact fun hin => h0 (hsub 0 hin)
  · rw [List.any_eq_false] at hs ⊢
    exact fun n hn => hs n (hsub n hn)

theorem mem_of_mem_strip {t : Text} {n : Nat} (h : n ∈ Core.Captured.strip t) : n ∈ t := by
  rw [strip_eq_rdropWhile] at h
  have hfront := (List.rdropWhile_prefix Core.isSpaceCode _).subset h
  exact (List.dropWhile_suffix _).subset hfront

theorem scalarIdentity_strip {v : Text} (h : Core.Captured.scalarIdentity v = some v) :
    Core.Captured.scalarIdentity (Core.Captured.strip v) = some (Core.Captured.strip v) :=
  scalarIdentity_subset h (fun _ => mem_of_mem_strip)

/-- A validated text strips to itself. -/
theorem nonEmptyId_eq_some {v w : Text} (h : Core.Captured.nonEmptyId v = some w) :
    w = Core.Captured.strip v ∧ w ≠ [] ∧ Core.Captured.scalarIdentity w = some w := by
  unfold Core.Captured.nonEmptyId at h
  obtain ⟨u, hu, hret⟩ := Option.bind_eq_some_iff.mp h
  obtain ⟨rfl, h0, hs⟩ := scalarIdentity_eq_some hu
  dsimp only at hret
  split at hret
  · cases hret
  · rename_i hne
    cases hret
    exact ⟨rfl, hne, scalarIdentity_strip hu⟩

theorem nonEmptyId_fixed {v w : Text} (h : Core.Captured.nonEmptyId v = some w) :
    Core.Captured.nonEmptyId w = some w := by
  obtain ⟨rfl, hne, hclean⟩ := nonEmptyId_eq_some h
  unfold Core.Captured.nonEmptyId
  rw [hclean, Option.bind_eq_bind, Option.bind_some]
  dsimp only
  rw [stripped_strip v, if_neg hne]

theorem workflowPath_fixed {v w : Text} (h : workflowPath v = some w) :
    workflowPath w = some w := by
  unfold workflowPath at h ⊢
  obtain ⟨u, hu, hret⟩ := Option.bind_eq_some_iff.mp h
  obtain ⟨rfl, -⟩ := scalarIdentity_eq_some hu
  cases hret
  rw [scalarIdentity_strip hu, Option.bind_eq_bind, Option.bind_some, stripped_strip]

theorem nonEmptyContent_fixed {v w : Text} (h : nonEmptyContent v = some w) :
    nonEmptyContent w = some w := by
  unfold nonEmptyContent at h ⊢
  dsimp only at h ⊢
  split at h
  · cases h
  · rename_i hne
    cases h
    rw [stripped_strip v, if_neg hne]

theorem workflowName_fixed {v w : Text} (h : workflowName v = some w) :
    workflowName w = some w := by
  unfold workflowName at h ⊢
  cases h
  rw [stripped_strip]

theorem ciReason_fixed {v w : Text} (h : ciReason v = some w) : ciReason w = some w := by
  have hsame : w = v := by
    unfold ciReason at h
    split at h
    · cases h
    · exact (Option.some.inj h).symm
  rw [hsame] at h ⊢
  exact h

/-- A short name is stripped, is part of the text, and has no prefix left. -/
theorem shortName_spec (v : Text) (hv : Stripped v) : Stripped (shortName v) ∧
    (∀ n ∈ shortName v, n ∈ v) ∧ ¬ refsHeads <+: shortName v := by
  induction v using shortName.induct with
  | case1 v hpre ih =>
    obtain ⟨hstripped, hmem, hfree⟩ := ih (stripped_strip _)
    rw [shortName, if_pos hpre]
    exact ⟨hstripped, fun n hn => List.mem_of_mem_drop (mem_of_mem_strip (hmem n hn)), hfree⟩
  | case2 v hfree =>
    rw [shortName, if_neg hfree]
    exact ⟨hv, fun n hn => hn, hfree⟩

theorem branchName_fixed {v w : Text} (h : branchName v = some w) : branchName w = some w := by
  unfold branchName at h ⊢
  obtain ⟨u, hu, hret⟩ := Option.bind_eq_some_iff.mp h
  obtain ⟨rfl, -⟩ := scalarIdentity_eq_some hu
  cases hret
  obtain ⟨hstripped, hmem, hfree⟩ := shortName_spec (Core.Captured.strip u) (stripped_strip u)
  rw [scalarIdentity_subset hu (fun n hn => mem_of_mem_strip (hmem n hn)), Option.bind_eq_bind,
    Option.bind_some, hstripped, shortName, if_neg hfree]

/-- The blanks behind a name are those behind its qualified spelling. -/
theorem strip_refsHeads (x : Text) : Core.Captured.strip (refsHeads ++ x) =
    refsHeads ++ x.rdropWhile Core.isSpaceCode := by
  have hrefs : refsHeads = refsHeads.dropLast ++ [slash] := by decide
  have hfront : (refsHeads ++ x).dropWhile Core.isSpaceCode = refsHeads ++ x :=
    List.dropWhile_cons_of_neg (by decide)
  rw [strip_eq_rdropWhile, hfront]
  clear hfront
  induction x using List.reverseRecOn with
  | nil =>
    rw [List.append_nil]
    rw [hrefs, List.rdropWhile_concat_neg _ _ _ (by decide)]
    rfl
  | append_singleton x c ih =>
    rw [← List.append_assoc]
    by_cases hc : Core.isSpaceCode c = true
    · rw [List.rdropWhile_concat_pos _ _ _ hc, List.rdropWhile_concat_pos _ _ _ hc]
      exact ih
    · rw [List.rdropWhile_concat_neg _ _ _ hc, List.rdropWhile_concat_neg _ _ _ hc,
        List.append_assoc]

theorem strip_concat_space {x : Text} {c : Nat} (hc : Core.isSpaceCode c = true) :
    Core.Captured.strip (x ++ [c]) = Core.Captured.strip x := by
  rw [strip_eq_rdropWhile, strip_eq_rdropWhile, List.dropWhile_append]
  split
  · rename_i hempty
    rw [List.isEmpty_iff.mp hempty, List.dropWhile_cons_of_pos hc]
    rfl
  · exact List.rdropWhile_concat_pos _ _ _ hc

theorem strip_rdropWhile (x : Text) :
    Core.Captured.strip (x.rdropWhile Core.isSpaceCode) = Core.Captured.strip x := by
  induction x using List.reverseRecOn with
  | nil => rfl
  | append_singleton x c ih =>
    by_cases hc : Core.isSpaceCode c = true
    · rw [List.rdropWhile_concat_pos _ _ _ hc, ih, strip_concat_space hc]
    · rw [List.rdropWhile_concat_neg _ _ _ hc]

/-- The qualified spelling of a branch and its name are one branch. -/
theorem branchName_refsHeads {x w : Text} (h : branchName x = some w) :
    branchName (refsHeads ++ x) = some w := by
  unfold branchName at h ⊢
  obtain ⟨u, hu, hret⟩ := Option.bind_eq_some_iff.mp h
  obtain ⟨rfl, h0, hs⟩ := scalarIdentity_eq_some hu
  cases hret
  have hclean : Core.Captured.scalarIdentity (refsHeads ++ u) = some (refsHeads ++ u) := by
    apply scalarIdentity_of_clean
    · rw [List.mem_append, not_or]
      exact ⟨by decide, h0⟩
    · rw [List.any_append, hs, Bool.or_false]
      decide
  rw [hclean, Option.bind_eq_bind, Option.bind_some, strip_refsHeads, shortName,
    if_pos (List.prefix_append _ _), List.drop_left, strip_rdropWhile]

section
variable [Lowercase]
open Lowercase

/-- A text that was stripped and lowered is so already. -/
theorem lower_strip_fixed (t : Text) :
    lower (Core.Captured.strip (lower (Core.Captured.strip t))) = lower (Core.Captured.strip t) := by
  rw [strip_lower, lower_lower, stripped_strip]

theorem normalizeCommitSha_fixed {v w : Text} (h : normalizeCommitSha v = some w) :
    normalizeCommitSha w = some w := by
  unfold normalizeCommitSha at h ⊢
  dsimp only at h ⊢
  split at h
  · cases h
  · rename_i hsha
    cases h
    rw [lower_strip_fixed, if_neg hsha]

omit [Lowercase] in
theorem isLowerAlnum_clean {n : Nat} (h : isLowerAlnum n = true) :
    n ≠ 0 ∧ n < 128 ∧ Core.Captured.isSurrogate n = false := by
  simp only [isLowerAlnum, Bool.or_eq_true, Bool.and_eq_true, decide_eq_true_eq] at h
  refine ⟨by omega, by omega, ?_⟩
  simp only [Core.Captured.isSurrogate, Bool.and_eq_false_iff, decide_eq_false_iff_not]
  omega

omit [Lowercase] in
/-- A text of ASCII letters other than NUL is an identity. -/
theorem scalarIdentity_ascii {v : Text} (h : ∀ n ∈ v, n ≠ 0 ∧ n < 128) :
    Core.Captured.scalarIdentity v = some v := by
  apply scalarIdentity_of_clean
  · exact fun h0 => (h 0 h0).1 rfl
  · rw [List.any_eq_false]
    intro n hn
    have hlt := (h n hn).2
    simp only [Core.Captured.isSurrogate, Bool.and_eq_true, decide_eq_true_eq]
    omega

omit [Lowercase] in
theorem hostLabel_ascii {label : Text} (h : isHostLabel label = true) :
    ∀ n ∈ label, n ≠ 0 ∧ n < 128 := by
  simp only [isHostLabel, Bool.and_eq_true, List.all_eq_true] at h
  intro n hn
  have hletter := h.1.1.2 n hn
  rw [Bool.or_eq_true, beq_iff_eq] at hletter
  obtain halnum | rfl := hletter
  · obtain ⟨h0, hlt, -⟩ := isLowerAlnum_clean halnum
    exact ⟨h0, hlt⟩
  · decide

omit [Lowercase] in
/-- What a text holds besides its separators, some part of it holds. -/
theorem mem_splitOn {v : Text} {n sep : Nat} (hne : n ≠ sep) (h : n ∈ v) :
    ∃ part ∈ v.splitOn sep, n ∈ part := by
  have hjoin : [sep].intercalate (v.splitOn sep) = v := List.intercalate_splitOn sep
  rw [← hjoin] at h
  generalize v.splitOn sep = parts at h ⊢
  induction parts with
  | nil => cases h
  | cons part parts ih =>
    by_cases hparts : parts = []
    · rw [hparts, List.intercalate_singleton] at h
      exact ⟨part, List.mem_cons_self, h⟩
    · rw [List.intercalate_cons_of_ne_nil hparts] at h
      rw [List.mem_append, List.mem_append, List.mem_singleton] at h
      obtain (hin | hsep) | hin := h
      · exact ⟨part, List.mem_cons_self, hin⟩
      · exact absurd hsep hne
      · obtain ⟨later, hlater, hin⟩ := ih hin
        exact ⟨later, List.mem_cons_of_mem _ hlater, hin⟩

theorem forgeHost_fixed {v w : Text} (h : forgeHost v = some w) : forgeHost w = some w := by
  unfold forgeHost at h ⊢
  obtain ⟨u, hu, hret⟩ := Option.bind_eq_some_iff.mp h
  dsimp only at hret
  split at hret
  · cases hret
  · rename_i hhost
    cases hret
    rw [not_or, not_not, List.all_eq_true] at hhost
    have hclean : Core.Captured.scalarIdentity (lower u) = some (lower u) := by
      apply scalarIdentity_ascii
      intro n hn
      by_cases hdot : n = dot
      · rw [hdot]
        decide
      · obtain ⟨label, hlabel, hin⟩ := mem_splitOn hdot hn
        exact hostLabel_ascii (hhost.2 label hlabel) n hin
    rw [hclean, Option.bind_eq_bind, Option.bind_some]
    dsimp only
    rw [lower_lower, if_neg]
    rw [not_or, not_not, List.all_eq_true]
    exact hhost

omit [Lowercase] in
theorem providerRepositoryId_fixed {v w : Text} (h : providerRepositoryId v = some w) :
    providerRepositoryId w = some w := by
  have hsame : w = v := by
    unfold providerRepositoryId at h
    obtain ⟨u, hu, hret⟩ := Option.bind_eq_some_iff.mp h
    obtain ⟨rfl, -⟩ := scalarIdentity_eq_some hu
    dsimp only at hret
    split at hret
    · exact (Option.some.inj hret).symm
    · cases hret
  rw [hsame] at h ⊢
  exact h

theorem normalizeOrgId_fixed {v w : Text} (h : normalizeOrgId v = some w) :
    normalizeOrgId w = some w := by
  unfold normalizeOrgId at h ⊢
  obtain ⟨u, hu, hret⟩ := Option.bind_eq_some_iff.mp h
  split at hret
  · cases hret
  dsimp only at hret
  split at hret
  · rename_i horg
    cases hret
    have hascii : ∀ n ∈ lower u, n ≠ 0 ∧ n < 128 := by
      intro n hn
      have hletter := List.all_eq_true.mp horg.2.1 n hn
      simp only [Bool.or_eq_true, beq_iff_eq] at hletter
      obtain ((halnum | rfl) | rfl) | rfl := hletter
      · obtain ⟨h0, hlt, -⟩ := isLowerAlnum_clean halnum
        exact ⟨h0, hlt⟩
      all_goals decide
    rw [scalarIdentity_ascii hascii, Option.bind_eq_bind, Option.bind_some, if_neg]
    · dsimp only
      rw [lower_lower, if_pos horg]
    · rw [not_not, List.all_eq_true]
      exact fun n hn => decide_eq_true (hascii n hn).2
  · cases hret

theorem strip_lower_strip (t : Text) :
    Core.Captured.strip (lower (Core.Captured.strip t)) = lower (Core.Captured.strip t) := by
  rw [strip_lower, stripped_strip]

/-- A slug passes the checks it was made by. -/
theorem normalizeRepoSlug_fixed {v w : Text} (h : normalizeRepoSlug v = some w) :
    Core.Captured.strip w = w ∧ normalizeRepoSlug w = some w := by
  unfold normalizeRepoSlug at h
  obtain ⟨u, hu, hret⟩ := Option.bind_eq_some_iff.mp h
  dsimp only at hret
  split at hret
  · rename_i hempty
    cases hret
    have hlower : lower (Core.Captured.strip []) = [] := by
      have htwice := lower_strip_fixed u
      rwa [hempty] at htwice
    refine ⟨rfl, ?_⟩
    unfold normalizeRepoSlug
    rw [scalarIdentity_ascii (by simp), Option.bind_eq_bind, Option.bind_some]
    exact if_pos hlower
  · rename_i hne
    obtain ⟨checked, hclean, hparts⟩ := Option.bind_eq_some_iff.mp hret
    have hsame := (scalarIdentity_eq_some hclean).1
    rw [hsame] at hclean
    cases hname : (lower (Core.Captured.strip u)).dropWhile (· ≠ slash) with
    | nil =>
      rw [hname] at hparts
      cases hparts
    | cons sep name =>
      rw [hname] at hparts
      dsimp only at hparts
      split at hparts
      · cases hparts
      · rename_i hslug
        cases hparts
        refine ⟨strip_lower_strip u, ?_⟩
        unfold normalizeRepoSlug
        rw [hclean, Option.bind_eq_bind, Option.bind_some]
        dsimp only
        rw [lower_strip_fixed, if_neg hne, hclean, Option.bind_some, hname]
        dsimp only
        rw [if_neg hslug]

theorem requiredRepoSlug_fixed {v w : Text} (h : requiredRepoSlug v = some w) :
    requiredRepoSlug w = some w := by
  unfold requiredRepoSlug at h ⊢
  obtain ⟨u, hu, hret⟩ := Option.bind_eq_some_iff.mp h
  obtain ⟨hstripped, hfixed⟩ := normalizeRepoSlug_fixed hu
  dsimp only at hret
  rw [hstripped] at hret
  split at hret
  · cases hret
  · rename_i hne
    cases hret
    rw [hfixed, Option.bind_eq_bind, Option.bind_some]
    dsimp only
    rw [hstripped, if_neg hne]

/-- Every validated scalar is a fixed point of its validator, and a branch is the same branch
under its qualified spelling. -/
theorem normalizers_fixed :
    (∀ (scalar : Scalar) (v w : Text), scalar.validate v = some w → scalar.validate w = some w) ∧
    ∀ x w : Text, Scalar.validate .branchName x = some w →
      Scalar.validate .branchName (refsHeads ++ x) = some w := by
  refine ⟨?_, fun x w h => branchName_refsHeads h⟩
  intro scalar v w h
  cases scalar with
  | nonEmptyId => exact nonEmptyId_fixed h
  | forgeHost => exact forgeHost_fixed h
  | providerRepositoryId => exact providerRepositoryId_fixed h
  | orgId => exact normalizeOrgId_fixed h
  | repoSlug => exact (normalizeRepoSlug_fixed h).2
  | requiredRepoSlug => exact requiredRepoSlug_fixed h
  | branchName => exact branchName_fixed h
  | modelName => exact nonEmptyId_fixed h
  | workflowPath => exact workflowPath_fixed h
  | commitSha => exact normalizeCommitSha_fixed h
  | nonEmptyContent => exact nonEmptyContent_fixed h
  | workflowName => exact workflowName_fixed h
  | ciReason => exact ciReason_fixed h

end

/-- `str.lower` of ASCII texts. -/
def lowerAscii (t : Text) : Text := t.map (fun n => if 65 ≤ n ∧ n ≤ 90 then n + 32 else n)

theorem isSpaceCode_lowerAscii (n : Nat) :
    Core.isSpaceCode (if 65 ≤ n ∧ n ≤ 90 then n + 32 else n) =
      Core.isSpaceCode n := by
  split
  · rename_i hupper
    simp only [Core.isSpaceCode]
    rw [Bool.eq_iff_iff]
    simp only [Bool.or_eq_true, Bool.and_eq_true, decide_eq_true_eq, beq_iff_eq]
    omega
  · rfl

/-- Lowering keeps the laws that the validators rely on. -/
@[reducible] def asciiLowercase : Lowercase where
  lower := lowerAscii
  lower_lower t := by
    rw [lowerAscii, lowerAscii, List.map_map]
    apply List.map_congr_left
    intro n _
    rw [Function.comp_apply]
    by_cases hupper : 65 ≤ n ∧ n ≤ 90
    · rw [if_pos hupper, if_neg (by omega)]
    · rw [if_neg hupper, if_neg hupper]
  strip_lower t := by
    have hspace : Core.isSpaceCode ∘
        (fun n => if 65 ≤ n ∧ n ≤ 90 then n + 32 else n) = Core.isSpaceCode :=
      funext isSpaceCode_lowerAscii
    simp only [Core.Captured.strip, Lines.trim, lowerAscii, List.dropWhile_map, hspace,
      ← List.map_reverse]

section
local instance : Lowercase := asciiLowercase

/-- A padded slug is stored lowered and read back, and a qualified branch is its short one. -/
theorem padded_names_fixed :
    (normalizeRepoSlug (codePoints " Acme/App ") = some (codePoints "acme/app") ∧
      normalizeRepoSlug (codePoints "acme/app") = some (codePoints "acme/app")) ∧
    branchName (codePoints "refs/heads/ main") = some (codePoints "main") ∧
    branchName (refsHeads ++ codePoints "refs/heads/ main") = some (codePoints "main") := by
  have hslug : normalizeRepoSlug (codePoints " Acme/App ") = some (codePoints "acme/app") := by
    decide +kernel
  have hbranch : branchName (codePoints "refs/heads/ main") = some (codePoints "main") := by
    have hclean : Core.Captured.scalarIdentity (codePoints "refs/heads/ main") =
        some (refsHeads ++ codePoints " main") := by decide +kernel
    unfold branchName
    rw [hclean, Option.bind_eq_bind, Option.bind_some, strip_refsHeads, shortName,
      if_pos (List.prefix_append _ _), List.drop_left, strip_rdropWhile, shortName,
      if_neg (by decide +kernel)]
    decide +kernel
  exact ⟨⟨hslug, normalizers_fixed.1 .repoSlug _ _ hslug⟩, hbranch,
    normalizers_fixed.2 _ _ hbranch⟩

end

end Sediment.Proofs.Scalars

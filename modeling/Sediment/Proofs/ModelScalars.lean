import Sediment.Base.JsonCompact
import Sediment.Core.CapturedEvents
import Sediment.Export.AttributedCompletions
import Sediment.Proofs.Scalars

namespace Sediment.Proofs.ModelScalars
open Sediment.Base Base.JsonScan Sediment.Core.Scalars Sediment.Proofs.Scalars

theorem splitOn_map {α β : Type} [DecidableEq α] [DecidableEq β] {f : α → β}
    (hf : Function.Injective f) (sep : α) (l : List α) :
    (l.map f).splitOn (f sep) = (l.splitOn sep).map (List.map f) := by
  induction l with
  | nil => rfl
  | cons a l ih =>
    rw [List.map_cons, List.splitOn_cons_eq_if_modifyHead, List.splitOn_cons_eq_if_modifyHead, ih]
    by_cases ha : a = sep
    · rw [ha, if_pos (beq_self_eq_true _), if_pos (beq_self_eq_true _), List.map_cons]
      rfl
    · rw [if_neg (by simpa using hf.ne ha), if_neg (by simpa using ha)]
      cases l.splitOn sep <;> rfl

theorem codePoints_strip (s : String) :
    codePoints (Core.strip s) = Core.Captured.strip (codePoints s) := by
  simp only [codePoints, Core.strip, Core.Captured.strip, Lines.trim, String.toList_ofList,
    List.dropWhile_map, ← List.map_reverse]
  rfl

theorem length_codePoints (s : String) : (codePoints s).length = s.length := by
  rw [codePoints, List.length_map, String.length_toList]

theorem scalars_codePoints (s : String) : Core.Captured.scalars (codePoints s) = s := by
  rw [Core.Captured.scalars, codePoints, map_ofNat_toNat, String.ofList_toList]

theorem codePoints_not_surrogate (s : String) :
    (codePoints s).any Core.Captured.isSurrogate = false := by
  rw [List.any_eq_false]
  intro n hn
  obtain ⟨c, -, rfl⟩ := List.mem_map.mp hn
  have hvalid : c.toNat < 0xD800 ∨ (0xDFFF < c.toNat ∧ c.toNat < 0x110000) := c.valid
  simp only [Core.Captured.isSurrogate, Bool.and_eq_true, decide_eq_true_eq]
  omega

theorem scalarIdentity_codePoints (s : String) :
    Core.Captured.scalarIdentity (codePoints s) = (Core.scalarIdentity s).map codePoints := by
  have hsurrogate := codePoints_not_surrogate s
  have hnul : 0 ∈ codePoints s ↔ '\u0000' ∈ s.toList :=
    List.mem_map_of_injective toNat_injective (a := '\u0000')
  rw [Core.Captured.scalarIdentity, Core.scalarIdentity]
  by_cases h : '\u0000' ∈ s.toList
  · rw [if_pos (Or.inl (hnul.mpr h)), if_pos h]
    rfl
  · rw [if_neg, if_neg h]
    · rfl
    · rw [hnul, hsurrogate, not_or]
      exact ⟨h, Bool.false_ne_true⟩

theorem codePoints_eq_nil {s : String} : codePoints s = [] ↔ s = "" := by
  rw [codePoints, List.map_eq_nil_iff, String.toList_eq_nil_iff]

theorem bind_codePoints {x : Option Text} {y : Option String} {g : Text → Option Text}
    {f : String → Option String} (hx : x = y.map codePoints)
    (h : ∀ v, g (codePoints v) = (f v).map codePoints) :
    x.bind g = (y.bind f).map codePoints := by
  cases y with
  | none => rw [hx]; rfl
  | some v => rw [hx]; exact h v

theorem ite_codePoints {p q : Prop} [Decidable p] [Decidable q] (h : p ↔ q)
    {a c : Option Text} {b d : Option String} (ha : a = b.map codePoints)
    (hc : c = d.map codePoints) :
    (if p then a else c) = (if q then b else d).map codePoints := by
  rw [apply_ite (Option.map codePoints), ha, hc]
  exact if_congr h rfl rfl

theorem kept_codePoints {p q : Prop} [Decidable p] [Decidable q] (h : p ↔ q) (v : String) :
    (if p then some (codePoints v) else none) = (if q then some v else none).map codePoints :=
  ite_codePoints (b := some v) (d := none) h rfl rfl

theorem refused_codePoints {p q : Prop} [Decidable p] [Decidable q] (h : p ↔ q) (v : String) :
    (if p then none else some (codePoints v)) = (if q then none else some v).map codePoints :=
  ite_codePoints (b := none) (d := some v) h rfl rfl

/-- What is stripped must not be empty. -/
theorem stripped_codePoints (v : String) :
    (if Core.Captured.strip (codePoints v) = [] then none
      else some (Core.Captured.strip (codePoints v))) =
    (if Core.strip v = "" then none else some (Core.strip v)).map codePoints := by
  rw [← codePoints_strip]
  exact refused_codePoints codePoints_eq_nil _

theorem nonEmptyId_codePoints (s : String) :
    Core.Captured.nonEmptyId (codePoints s) = (Core.nonEmptyId s).map codePoints :=
  bind_codePoints (scalarIdentity_codePoints s) stripped_codePoints

theorem toNat_beq (c d : Char) : (c.toNat == d.toNat) = (c == d) := by
  rw [Bool.eq_iff_iff, beq_iff_eq, beq_iff_eq]
  exact Char.toNat_inj

theorem between_toNat (a c b : Char) :
    (a.toNat ≤ c.toNat && c.toNat ≤ b.toNat) = (a ≤ c && c ≤ b) := rfl

theorem isLowerAlnum_toNat (c : Char) : isLowerAlnum c.toNat = Core.isLowerAlnum c := by
  rw [Core.isLowerAlnum, ← between_toNat, ← between_toNat]
  rfl

theorem isDigit_toNat (c : Char) : isDigit c.toNat = c.isDigit := by
  rw [Bool.eq_iff_iff, Char.isDigit]
  simp only [isDigit, Bool.and_eq_true, decide_eq_true_eq, ge_iff_le, UInt32.le_iff_toNat_le]
  rfl

theorem isHexDigit_toNat (c : Char) :
    isHexDigit c.toNat = (c.isDigit || ('a' ≤ c && c ≤ 'f')) := by
  rw [isHexDigit, isDigit_toNat, ← between_toNat]
  rfl

theorem isHostLabel_map (label : List Char) :
    isHostLabel (label.map Char.toNat) = Core.isHostLabel label := by
  have hhyphen : ∀ c : Char, (c.toNat == hyphen) = (c == '-') := fun c => toNat_beq c '-'
  simp only [isHostLabel, Core.isHostLabel, List.length_map, List.all_map, Function.comp_def,
    List.head?_map, List.getLast?_map, Option.any_map, isLowerAlnum_toNat, hhyphen]

theorem providerRepositoryId_codePoints (s : String) :
    providerRepositoryId (codePoints s) = (Core.providerRepositoryId s).map codePoints := by
  apply bind_codePoints (scalarIdentity_codePoints s)
  intro v
  cases hv : v.toList with
  | nil =>
    have hcodes : codePoints v = [] := by rw [codePoints, hv, List.map_nil]
    rw [hcodes]
    rfl
  | cons c rest =>
    have hcodes : codePoints v = c.toNat :: rest.map Char.toNat := by
      rw [codePoints, hv, List.map_cons]
    have hfirst : (isDigit c.toNat && c.toNat ≠ 48) = true ↔ '1' ≤ c ∧ c ≤ '9' := by
      rw [Bool.and_eq_true, isDigit, Bool.and_eq_true]
      simp only [decide_eq_true_eq, Char.le_def, UInt32.le_iff_toNat_le]
      change _ ↔ 49 ≤ c.toNat ∧ c.toNat ≤ 57
      omega
    refine kept_codePoints ?_ v
    rw [hcodes, List.head?_cons, Option.any_some, hfirst, List.all_cons, Bool.and_eq_true,
      List.all_map, List.length_cons, List.length_map, isDigit_toNat]
    have hrest : rest.all (isDigit ∘ Char.toNat) = rest.all Char.isDigit :=
      congrArg _ (funext isDigit_toNat)
    have hdigit : '1' ≤ c ∧ c ≤ '9' → c.isDigit = true := fun h => by
      rw [← isDigit_toNat]
      exact Bool.and_elim_left (hfirst.mpr h)
    rw [hrest]
    constructor
    · rintro ⟨⟨hlow, hhigh⟩, ⟨-, hall⟩, hlen⟩
      exact ⟨hlow, hhigh, Nat.le_of_succ_le_succ hlen, hall⟩
    · rintro ⟨hlow, hhigh, hlen, hall⟩
      exact ⟨⟨hlow, hhigh⟩, ⟨hdigit ⟨hlow, hhigh⟩, hall⟩, Nat.succ_le_succ hlen⟩

section
variable [Core.Interpreter] [Lowercase]

/-- Both models lower a text alike. -/
def LowerAlike : Prop :=
  ∀ s, codePoints (Core.Interpreter.lower s) = Lowercase.lower (codePoints s)

theorem forgeHost_codePoints (h : LowerAlike) (s : String) :
    forgeHost (codePoints s) = (Core.forgeHost s).map codePoints := by
  apply bind_codePoints (scalarIdentity_codePoints s)
  intro v
  dsimp only
  rw [← h]
  generalize Core.Interpreter.lower v = host
  have hlabels : ((codePoints host).splitOn dot).all isHostLabel =
      (host.toList.splitOn '.').all Core.isHostLabel := by
    have hsplit : (codePoints host).splitOn dot =
        (host.toList.splitOn '.').map (List.map Char.toNat) :=
      splitOn_map toNat_injective '.' host.toList
    rw [hsplit, List.all_map]
    exact congrArg _ (funext isHostLabel_map)
  rw [hlabels, length_codePoints, ← ite_not]
  exact kept_codePoints (by rw [not_or, not_not, not_lt]) host

theorem normalizeOrgId_codePoints (h : LowerAlike) (s : String) :
    normalizeOrgId (codePoints s) = (Core.normalizeOrgId s).map codePoints := by
  apply bind_codePoints (scalarIdentity_codePoints s)
  intro v
  have hascii : (codePoints v).all (· < 128) = v.toList.all (fun c => c.toNat < 128) := by
    rw [codePoints, List.all_map]
    rfl
  rw [hascii, ite_not]
  refine ite_codePoints (d := none) Iff.rfl ?_ rfl
  dsimp only
  rw [← h]
  generalize Core.Interpreter.lower v = name
  cases hname : name.toList with
  | nil =>
    have hcodes : codePoints name = [] := by rw [codePoints, hname, List.map_nil]
    rw [hcodes]
    rfl
  | cons c rest =>
    have hcodes : codePoints name = c.toNat :: rest.map Char.toNat := by
      rw [codePoints, hname, List.map_cons]
    refine kept_codePoints ?_ name
    have hletter : ∀ d : Char, (isLowerAlnum d.toNat || d.toNat == dot || d.toNat == underscore ||
        d.toNat == hyphen) = (Core.isLowerAlnum d || d == '.' || d == '_' || d == '-') := by
      intro d
      rw [isLowerAlnum_toNat, ← toNat_beq, ← toNat_beq, ← toNat_beq]
      rfl
    rw [hcodes, List.head?_cons, Option.any_some, isLowerAlnum_toNat, List.all_cons, hletter,
      Bool.and_eq_true, List.all_map, List.length_cons, List.length_map]
    simp only [Function.comp_def, hletter]
    constructor
    · rintro ⟨hfirst, ⟨-, hall⟩, hlen⟩
      exact ⟨hfirst, Nat.le_of_succ_le_succ hlen, hall⟩
    · rintro ⟨hfirst, hlen, hall⟩
      exact ⟨hfirst, ⟨by rw [hfirst]; rfl, hall⟩, Nat.succ_le_succ hlen⟩

theorem normalizeRepoSlug_codePoints (h : LowerAlike) (s : String) :
    normalizeRepoSlug (codePoints s) = (Core.normalizeRepoSlug s).map codePoints := by
  apply bind_codePoints (scalarIdentity_codePoints s)
  intro v
  dsimp only
  rw [← codePoints_strip, ← h]
  generalize Core.Interpreter.lower (Core.strip v) = slug
  refine ite_codePoints (a := some []) (b := some "") codePoints_eq_nil rfl ?_
  apply bind_codePoints (scalarIdentity_codePoints slug)
  intro _
  have hslash : (fun n : Nat => decide (n ≠ slash)) ∘ Char.toNat = (· != '/') :=
    by
    funext c
    rw [Function.comp_apply, bne, ← toNat_beq]
    exact decide_not
  rw [codePoints, List.takeWhile_map, List.dropWhile_map, hslash]
  cases slug.toList.dropWhile (· != '/') with
  | nil => rfl
  | cons sep name =>
    refine refused_codePoints ?_ slug
    rw [List.map_eq_nil_iff, List.map_eq_nil_iff]
    have hname : slash ∈ name.map Char.toNat ↔ '/' ∈ name :=
      List.mem_map_of_injective toNat_injective (a := '/')
    rw [hname]

theorem requiredRepoSlug_codePoints (h : LowerAlike) (s : String) :
    requiredRepoSlug (codePoints s) = (Core.requiredRepoSlug s).map codePoints :=
  bind_codePoints (normalizeRepoSlug_codePoints h s) stripped_codePoints

theorem normalizeCommitSha_codePoints (h : LowerAlike) (s : String) :
    normalizeCommitSha (codePoints s) = (Derive.normalizeCommitSha s).map codePoints := by
  unfold normalizeCommitSha Derive.normalizeCommitSha
  dsimp only
  rw [← codePoints_strip, ← h]
  generalize Core.Interpreter.lower (Core.strip s) = v
  have hhex : (codePoints v).all isHexDigit =
      v.toList.all (fun c => c.isDigit || ('a' ≤ c && c ≤ 'f')) := by
    rw [codePoints, List.all_map]
    exact congrArg _ (funext isHexDigit_toNat)
  rw [length_codePoints, hhex, ← ite_not]
  refine kept_codePoints ?_ v
  rw [not_or, not_not, not_and_or, not_not, not_not, List.mem_pair]

end

section
variable [Core.Interpreter]

/-- A captured event's sha is normalized as a stored one's. -/
theorem captured_normalizeCommitSha (s : String) :
    Core.Captured.normalizeCommitSha (codePoints s) =
      (Derive.normalizeCommitSha s).map codePoints := by
  have hplain := codePoints_not_surrogate s
  unfold Core.Captured.normalizeCommitSha Derive.normalizeCommitSha
  dsimp only
  rw [hplain, if_neg Bool.false_ne_true, ← codePoints_strip, scalars_codePoints]
  generalize Core.Interpreter.lower (Core.strip s) = v
  rw [String.length_toList]
  exact kept_codePoints Iff.rfl v

theorem validOrgId_codePoints (s : String) :
    Core.Captured.validOrgId (codePoints s) = (Core.normalizeOrgId s).map codePoints := by
  unfold Core.Captured.validOrgId
  rw [scalarIdentity_codePoints]
  cases hs : Core.scalarIdentity s with
  | none =>
    unfold Core.normalizeOrgId
    rw [hs]
    rfl
  | some v =>
    have hv : v = s := by
      unfold Core.scalarIdentity at hs
      split at hs
      · cases hs
      · exact (Option.some.inj hs).symm
    rw [hv, Option.map_some, Option.bind_eq_bind, Option.bind_some, scalars_codePoints]

end

/-- What the models over texts prove of a validator holds of the one over strings. -/
theorem fixed_of_codePoints {f : String → Option String} {g : Text → Option Text}
    (hsame : ∀ s, g (codePoints s) = (f s).map codePoints)
    (hfixed : ∀ v w, g v = some w → g w = some w) {s t : String} (h : f s = some t) :
    f t = some t := by
  have hstored := hfixed (codePoints s) (codePoints t) (by rw [hsame, h]; rfl)
  rw [hsame] at hstored
  obtain ⟨u, hu, hcodes⟩ := Option.map_eq_some_iff.mp hstored
  rw [hu, codePoints_injective hcodes]

section
variable [Core.Interpreter] [Lowercase]

/-- The repository's names are stored as they are read back. -/
theorem names_fixed (h : LowerAlike) {s t : String} :
    (Core.nonEmptyId s = some t → Core.nonEmptyId t = some t) ∧
    (Core.forgeHost s = some t → Core.forgeHost t = some t) ∧
    (Core.providerRepositoryId s = some t → Core.providerRepositoryId t = some t) ∧
    (Core.normalizeOrgId s = some t → Core.normalizeOrgId t = some t) ∧
    (Core.normalizeRepoSlug s = some t → Core.normalizeRepoSlug t = some t) ∧
    (Core.requiredRepoSlug s = some t → Core.requiredRepoSlug t = some t) ∧
    (Derive.normalizeCommitSha s = some t → Derive.normalizeCommitSha t = some t) :=
  ⟨fixed_of_codePoints nonEmptyId_codePoints (fun _ _ => nonEmptyId_fixed),
    fixed_of_codePoints (forgeHost_codePoints h) (fun _ _ => forgeHost_fixed),
    fixed_of_codePoints providerRepositoryId_codePoints (fun _ _ => providerRepositoryId_fixed),
    fixed_of_codePoints (normalizeOrgId_codePoints h) (fun _ _ => normalizeOrgId_fixed),
    fixed_of_codePoints (normalizeRepoSlug_codePoints h)
      (fun _ _ hv => (normalizeRepoSlug_fixed hv).2),
    fixed_of_codePoints (requiredRepoSlug_codePoints h) (fun _ _ => requiredRepoSlug_fixed),
    fixed_of_codePoints (normalizeCommitSha_codePoints h) (fun _ _ => normalizeCommitSha_fixed)⟩

end

end Sediment.Proofs.ModelScalars

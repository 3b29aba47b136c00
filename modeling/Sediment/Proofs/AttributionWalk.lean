import Sediment.Base.Claims
import Sediment.Proofs.AttributionMatch

namespace Sediment.Proofs.AttributionWalk
open Base Sediment.Core Sediment.Derive Sediment.Derive.Attributions
open Base.Claims

section
variable (mirrors : Mirrors) (scorer : Scorer) (policy : AttributionPolicy)
  (provenance : Attributions.Provenance) (candidates : List Candidate)
  (noteSessionIds : CommitKey → Option (Finset String))

/-- The commits that a push lists in the mirror of its repository. -/
def pushCommits (resolved : ResolvedPush) : List CommitKey :=
  match mirrors resolved.key with
  | none => []
  | some mirror => (mirror.listPushCommits resolved.push policy.maxCommitsPerPush).map
      (fun sha => ⟨resolved.key, sha⟩)

def claimResult (resolved : ResolvedPush) (commit : CommitKey) : AttributionResult :=
  match mirrors resolved.key with
  | none => {}
  | some mirror => attributeClaim scorer policy provenance candidates noteSessionIds mirror resolved
      commit.commitSha

def absentMirror (resolved : ResolvedPush) : Bool := (mirrors resolved.key).isNone

def claimFresh (resolved : ResolvedPush) (w : Walk) (commit : CommitKey) : Walk :=
  { seen := insert commit w.seen
    result := w.result.extend (claimResult mirrors scorer policy provenance candidates
      noteSessionIds resolved commit) }

def claimStep (resolved : ResolvedPush) (w : Walk) (commit : CommitKey) : Walk :=
  if commit ∈ w.seen then w
  else claimFresh mirrors scorer policy provenance candidates noteSessionIds resolved w commit

def enterPush (resolved : ResolvedPush) (w : Walk) : Walk :=
  if absentMirror mirrors resolved then { w with result := w.result.skip .mirrorAbsent 1 } else w

theorem walkPush_eq (w : Walk) (resolved : ResolvedPush) :
    walkPush mirrors scorer policy provenance candidates noteSessionIds w resolved =
      (pushCommits mirrors policy resolved).foldl
        (claimStep mirrors scorer policy provenance candidates noteSessionIds resolved)
        (enterPush mirrors resolved w) := by
  unfold walkPush enterPush absentMirror pushCommits
  cases hm : mirrors resolved.key with
  | none => rfl
  | some mirror =>
    rw [List.foldl_map]
    simp only [Option.isNone_some, Bool.false_eq_true, if_false]
    congr 1
    funext w sha
    simp only [walkCommit, claimStep, claimFresh, claimResult, hm]

theorem remembers_claimStep : Remembers Walk.seen
    (claimStep mirrors scorer policy provenance candidates noteSessionIds) where
  again := fun _ _ _ h => if_pos h
  once := fun _ _ _ h => by rw [claimStep, if_neg h]; rfl

theorem enterPush_claimStep (p q : ResolvedPush) (w : Walk) (c : CommitKey) :
    enterPush mirrors p
        (claimStep mirrors scorer policy provenance candidates noteSessionIds q w c) =
      claimStep mirrors scorer policy provenance candidates noteSessionIds q
        (enterPush mirrors p w) c := by
  have hseen : (enterPush mirrors p w).seen = w.seen := by
    unfold enterPush
    split <;> rfl
  unfold claimStep
  rw [hseen]
  split
  · rfl
  · unfold enterPush claimFresh
    split
    · simp only [AttributionResult.skip, AttributionResult.extend, add_right_comm]
    · rfl

theorem foldl_enterPush (rs : List ResolvedPush) (start : AttributionResult) :
    rs.foldl (fun w r => enterPush mirrors r w) ⟨∅, start⟩ =
      ⟨∅, start.skip .mirrorAbsent (rs.countP (absentMirror mirrors))⟩ := by
  induction rs using List.reverseRecOn with
  | nil => simp [AttributionResult.skip]
  | append_singleton rs r ih =>
    rw [List.foldl_append, ih, List.foldl_cons, List.foldl_nil, enterPush, List.countP_append,
      List.countP_singleton]
    split
    · rename_i h
      simp only [AttributionResult.skip, Multiset.replicate_add, add_assoc]
    · rfl

theorem foldl_claimFresh (xs : List (ResolvedPush × CommitKey)) (w : Walk) :
    (xs.foldl (fun w x => claimFresh mirrors scorer policy provenance candidates noteSessionIds
        x.1 w x.2) w).result =
      { attributions := w.result.attributions ++ xs.flatMap (fun x => (claimResult mirrors scorer
          policy provenance candidates noteSessionIds x.1 x.2).attributions)
        skipped := w.result.skipped + (xs.map (fun x => (claimResult mirrors scorer policy
          provenance candidates noteSessionIds x.1 x.2).skipped)).sum } := by
  induction xs generalizing w with
  | nil => simp
  | cons x xs ih =>
    rw [List.foldl_cons, ih]
    simp [claimFresh, AttributionResult.extend, List.append_assoc, add_assoc]

/-- The walk derives each commit once, under the push that claims it. -/
theorem foldl_walkPush (rs : List ResolvedPush) (start : AttributionResult) :
    (rs.foldl (walkPush mirrors scorer policy provenance candidates noteSessionIds)
        ⟨∅, start⟩).result =
      { attributions := start.attributions ++
          (claims (pushCommits mirrors policy) rs).flatMap (fun x => (claimResult mirrors scorer
            policy provenance candidates noteSessionIds x.1 x.2).attributions)
        skipped := start.skipped +
          Multiset.replicate (rs.countP (absentMirror mirrors)) .mirrorAbsent +
          ((claims (pushCommits mirrors policy) rs).map (fun x => (claimResult mirrors scorer
            policy provenance candidates noteSessionIds x.1 x.2).skipped)).sum } := by
  have hstep : walkPush mirrors scorer policy provenance candidates noteSessionIds =
      fun w r => (pushCommits mirrors policy r).foldl
        (claimStep mirrors scorer policy provenance candidates noteSessionIds r)
        (enterPush mirrors r w) := by
    funext w r
    exact walkPush_eq mirrors scorer policy provenance candidates noteSessionIds w r
  have hremembers := remembers_claimStep mirrors scorer policy provenance candidates noteSessionIds
  rw [hstep, hremembers.foldl_claims (enterPush mirrors)
    (enterPush_claimStep mirrors scorer policy provenance candidates noteSessionIds)
    (fun p w => by unfold enterPush; split <;> rfl) _ rfl, foldl_enterPush,
    hremembers.foldl_fresh
      (claimFresh mirrors scorer policy provenance candidates noteSessionIds)
      (fun p w c h => if_neg h) _ _ (nodup_claims _ _) (fun _ _ => by simp), foldl_claimFresh]
  rfl

end

end Sediment.Proofs.AttributionWalk

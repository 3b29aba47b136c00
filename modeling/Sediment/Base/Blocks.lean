import Mathlib.Data.List.Infix
import Mathlib.Tactic

namespace Sediment.Base.Blocks

/-- A mark whose first letter does not come again in it, so that two of them never overlap. -/
structure Mark (α : Type) where
  head : α
  tail : List α
  fresh : head ∉ tail

section
variable {α : Type}

def Mark.text (m : Mark α) : List α := m.head :: m.tail

theorem Mark.text_ne_nil (m : Mark α) : m.text ≠ [] := List.cons_ne_nil _ _

/-- The mark stands nowhere in the text. -/
def Mark.Free (m : Mark α) (xs : List α) : Prop := ¬ m.text <:+: xs

/-- A text without the first letter of the mark is free of it. -/
theorem Mark.free_of_head {m : Mark α} {xs : List α} (h : m.head ∉ xs) : m.Free xs :=
  fun hin => h (hin.subset List.mem_cons_self)

/-- A letter that the mark does not have keeps two texts apart. -/
theorem Mark.free_append {m : Mark α} {c : α} {xs ys : List α} (hc : c ∉ m.text)
    (hx : m.Free xs) (hy : m.Free ys) : m.Free (xs ++ c :: ys) := by
  rintro ⟨s, t, h⟩
  rw [List.append_assoc] at h
  obtain ⟨front, rfl, hrest⟩ | ⟨rest, rfl, hrest⟩ := List.append_eq_append_iff.mp h
  · obtain ⟨back, hfront, -⟩ | ⟨back, hm, hback⟩ := List.append_eq_append_iff.mp hrest
    · exact hx ⟨s, back, by rw [hfront, List.append_assoc]⟩
    · cases back with
      | nil =>
        rw [List.append_nil] at hm
        exact hx ⟨s, [], by rw [hm, List.append_nil]⟩
      | cons b back =>
        rw [List.cons_append] at hback
        have hb : c = b := (List.cons.inj hback).1
        exact hc (by rw [hm, hb]; simp)
  · cases rest with
    | nil =>
      rw [List.nil_append] at hrest
      exact hc (by rw [Mark.text] at *; exact (List.cons.inj hrest).1 ▸ List.mem_cons_self)
    | cons b rest =>
      rw [List.cons_append] at hrest
      exact hy ⟨rest, t, by rw [(List.cons.inj hrest).2, List.append_assoc]⟩

theorem Mark.Free.left {m : Mark α} {xs ys : List α} (h : m.Free (xs ++ ys)) : m.Free xs :=
  fun hx => h (hx.trans (List.prefix_append xs ys).isInfix)

theorem Mark.Free.right {m : Mark α} {xs ys : List α} (h : m.Free (xs ++ ys)) : m.Free ys :=
  fun hy => h (hy.trans (List.suffix_append xs ys).isInfix)

/-- Letters other than the first of the mark do not begin it. -/
theorem Mark.free_skip {m : Mark α} {xs ys : List α} (hx : m.head ∉ xs) (hy : m.Free ys) :
    m.Free (xs ++ ys) := by
  rintro ⟨s, t, h⟩
  rw [List.append_assoc] at h
  obtain ⟨front, rfl, hrest⟩ | ⟨rest, rfl, hrest⟩ := List.append_eq_append_iff.mp h
  · cases front with
    | nil => exact hy ⟨[], t, hrest⟩
    | cons b front =>
      have hb : m.head = b := (List.cons.inj hrest).1
      exact hx (by rw [hb]; simp)
  · exact hy ⟨rest, t, by rw [hrest, List.append_assoc]⟩

end

section
variable {α : Type} [DecidableEq α] {m : Mark α}

/-- The first mark behind a text without one. -/
theorem Mark.cut_append {xs : List α} (hx : m.Free xs) (ys : List α) :
    (xs ++ (m.text ++ ys)).dropInfix? m.text = some (xs, ys) := by
  rw [List.dropInfix?_eq_some_iff]
  refine ⟨⟨m.text, by simp, by simp⟩, ?_⟩
  intro front mark back h hm
  have hmark : mark = m.text := by simpa using hm
  subst hmark
  by_contra hlt
  rw [not_le] at hlt
  rw [List.append_assoc] at h
  obtain ⟨gap, hgap, -⟩ | ⟨gap, rfl, hrest⟩ := List.append_eq_append_iff.mp h
  · rw [hgap, List.length_append] at hlt
    omega
  -- An earlier mark would lie in `xs`, or hold the first letter of this one behind its own.
  obtain ⟨tail, rfl, -⟩ | ⟨tail, hmark, htail⟩ := List.append_eq_append_iff.mp hrest
  · exact hx ⟨front, tail, by simp⟩
  cases tail with
  | nil =>
    rw [List.append_nil] at hmark
    exact hx ⟨front, [], by simp [hmark]⟩
  | cons b tail =>
    have hb : m.head = b := (List.cons.inj htail).1
    cases gap with
    | nil => simp at hlt
    | cons g gap =>
      have htext : m.tail = gap ++ b :: tail := (List.cons.inj hmark).2
      exact m.fresh (by rw [htext, ← hb]; simp)

theorem Mark.cut_free {xs : List α} (hx : m.Free xs) : xs.dropInfix? m.text = none := by
  rw [Option.eq_none_iff_forall_ne_some]
  rintro ⟨front, back⟩ h
  obtain ⟨⟨mark, rfl, hm⟩, -⟩ := List.dropInfix?_eq_some_iff.mp h
  have hmark : mark = m.text := by simpa using hm
  subst hmark
  exact hx ⟨front, back, rfl⟩

/-- The letter `c` at the front of a text, if it is there, taken off. -/
def dropFront (c : α) (xs : List α) : List α := if xs.head? = some c then xs.tail else xs

/-- The letter `c` at the end of a text, if it is there, taken off. -/
def dropEnd (c : α) (xs : List α) : List α := if xs.getLast? = some c then xs.dropLast else xs

@[simp] theorem dropFront_cons (c : α) (xs : List α) : dropFront c (c :: xs) = xs := by
  simp [dropFront]

@[simp] theorem dropEnd_concat (c : α) (xs : List α) : dropEnd c (xs ++ [c]) = xs := by
  simp [dropEnd]

theorem dropFront_suffix (c : α) (xs : List α) : dropFront c xs <:+ xs := by
  unfold dropFront
  split
  · exact List.tail_suffix xs
  · exact List.suffix_rfl

/-- Blocks that start and end with a mark. A newline behind the block belongs to it, and one
before it where `leads`. -/
structure Fence (α : Type) where
  opening : Mark α
  closing : Mark α
  newline : α
  leads : Bool

/-- The text before and behind the leftmost match of `opening .*? closing`. -/
def Fence.split (f : Fence α) (text : List α) : Option (List α × List α) :=
  (text.dropInfix? f.opening.text).bind (fun p =>
    (p.2.dropInfix? f.closing.text).map (fun q =>
      (if f.leads then dropEnd f.newline p.1 else p.1, dropFront f.newline q.2)))

theorem Fence.length_split_lt {f : Fence α} {text : List α} {p : List α × List α}
    (h : f.split text = some p) :
    p.2.length < text.length := by
  unfold Fence.split at h
  rw [Option.bind_eq_some_iff] at h
  obtain ⟨a, ha, hb⟩ := h
  rw [Option.map_eq_some_iff] at hb
  obtain ⟨b, hb, rfl⟩ := hb
  obtain ⟨⟨opening, htext, hopening⟩, -⟩ := List.dropInfix?_eq_some_iff.mp ha
  obtain ⟨⟨closing, hrest, -⟩, -⟩ := List.dropInfix?_eq_some_iff.mp hb
  have hlen : opening = f.opening.text := by simpa using hopening
  have hpos := List.length_pos_iff.mpr f.opening.text_ne_nil
  have hdrop := (dropFront_suffix f.newline b.2).length_le
  rw [htext, hrest, hlen]
  simp only [List.length_append]
  omega

theorem dropEnd_subset (c : α) (xs : List α) : dropEnd c xs ⊆ xs := by
  unfold dropEnd
  split
  · exact (List.dropLast_prefix xs).subset
  · exact List.Subset.refl xs

theorem Fence.split_subset {f : Fence α} {text : List α} {p : List α × List α}
    (h : f.split text = some p) : p.1 ⊆ text ∧ p.2 ⊆ text := by
  unfold Fence.split at h
  rw [Option.bind_eq_some_iff] at h
  obtain ⟨a, ha, hb⟩ := h
  rw [Option.map_eq_some_iff] at hb
  obtain ⟨b, hb, rfl⟩ := hb
  obtain ⟨⟨opening, htext, -⟩, -⟩ := List.dropInfix?_eq_some_iff.mp ha
  obtain ⟨⟨closing, hrest, -⟩, -⟩ := List.dropInfix?_eq_some_iff.mp hb
  have hfront : a.1 ⊆ text := by
    rw [htext, List.append_assoc]
    exact List.subset_append_left _ _
  have hback : b.2 ⊆ text := by
    rw [htext, hrest]
    exact List.subset_append_of_subset_right _ (List.subset_append_right _ _)
  constructor
  · dsimp only
    split
    · exact List.Subset.trans (dropEnd_subset f.newline a.1) hfront
    · exact hfront
  · exact List.Subset.trans (dropFront_suffix f.newline b.2).subset hback

/-- Every block of the text, from the left, becomes `block`. -/
def Fence.replace (f : Fence α) (block text : List α) : List α :=
  match _h : f.split text with
  | none => text
  | some p => p.1 ++ block ++ f.replace block p.2
termination_by text.length
decreasing_by exact Fence.length_split_lt ‹_›

variable {f : Fence α}

theorem Fence.split_free {text : List α} (h : f.opening.Free text) : f.split text = none := by
  rw [Fence.split, Mark.cut_free h, Option.bind_none]

theorem Fence.replace_free {text : List α} (h : f.opening.Free text) (block : List α) :
    f.replace block text = text := by
  rw [Fence.replace]
  split
  · rfl
  · rename_i p hp
    rw [Fence.split_free h] at hp
    cases hp

theorem Fence.replace_of_split {text : List α} {p : List α × List α} (h : f.split text = some p)
    (block : List α) : f.replace block text = p.1 ++ block ++ f.replace block p.2 := by
  rw [Fence.replace]
  split
  · rename_i hnone
    rw [h] at hnone
    cases hnone
  · rename_i q hq
    rw [h] at hq
    cases hq
    rfl

/-- The text of a block with a body between its marks. -/
def Fence.block (f : Fence α) (body : List α) : List α :=
  f.opening.text ++ (body ++ (f.closing.text ++ [f.newline]))

theorem Fence.split_marks {front body : List α} (hfront : f.opening.Free front)
    (hbody : f.closing.Free body) (back : List α) :
    f.split (front ++ (f.opening.text ++ (body ++ (f.closing.text ++ back)))) =
      some (if f.leads then dropEnd f.newline front else front, dropFront f.newline back) := by
  rw [Fence.split, Mark.cut_append hfront, Option.bind_some, Mark.cut_append hbody,
    Option.map_some]

theorem Fence.split_block {front body : List α} (hfront : f.opening.Free front)
    (hbody : f.closing.Free body) (back : List α) :
    f.split (front ++ f.block body ++ back) =
      some (if f.leads then dropEnd f.newline front else front, back) := by
  have htext : front ++ f.block body ++ back =
      front ++ (f.opening.text ++ (body ++ (f.closing.text ++ f.newline :: back))) := by
    simp [Fence.block]
  rw [htext, Fence.split_marks hfront hbody, dropFront_cons]

/-- A text with one block is its two sides around what replaces the block. -/
theorem Fence.replace_block {front body back : List α} (hfront : f.opening.Free front)
    (hbody : f.closing.Free body) (hback : f.opening.Free back) (block : List α) :
    f.replace block (front ++ f.block body ++ back) =
      (if f.leads then dropEnd f.newline front else front) ++ block ++ back := by
  rw [Fence.replace_of_split (Fence.split_block hfront hbody back), Fence.replace_free hback]

/-- A replacement brings in no letters but those of the block. -/
theorem Fence.mem_replace {block text : List α} {c : α} (h : c ∈ f.replace block text) :
    c ∈ block ∨ c ∈ text := by
  induction text using Fence.replace.induct f with
  | case1 text hnone =>
    rw [Fence.replace] at h
    split at h
    · exact Or.inr h
    · rename_i hsome
      rw [hnone] at hsome
      cases hsome
  | case2 text p hp ih =>
    obtain ⟨hfront, hback⟩ := Fence.split_subset hp
    rw [Fence.replace] at h
    split at h
    · exact Or.inr h
    · rename_i q hq
      rw [hp] at hq
      cases hq
      rw [List.mem_append, List.mem_append] at h
      obtain (hin | hin) | hin := h
      · exact Or.inr (hfront hin)
      · exact Or.inl hin
      · exact (ih hin).imp_right (fun hin => hback hin)

end

end Sediment.Base.Blocks

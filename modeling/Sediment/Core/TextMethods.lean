import Sediment.Core.Models

namespace Sediment.Core.TextMethods
open Sediment.Core Base.Lines

/-- `str.strip()` -/
def stripBlanks (text : List Char) : List Char := trim isSpace text

/-- `str.split()` -/
def words (text : List Char) : List (List Char) := (text.splitOnP isSpace).filter (· ≠ [])

/-- What `str.partition` gives before the separator. -/
def before (c : Char) (text : List Char) : List Char := text.takeWhile (· ≠ c)

/-- What `str.partition` gives behind the separator. -/
def behind (c : Char) (text : List Char) : List Char := (text.dropWhile (· ≠ c)).tail

/-- What `str.rpartition` gives behind the last separator. -/
def behindLast (c : Char) (text : List Char) : List Char := text.rtakeWhile (· ≠ c)

/-- `str.replace(c, d, 1)` of a text that has the character. -/
def replaceFirst (c d : Char) (text : List Char) : List Char :=
  before c text ++ d :: behind c text

/-- `str.removesuffix` -/
def removeSuffix (suffix text : List Char) : List Char :=
  if suffix <:+ text then text.take (text.length - suffix.length) else text

theorem before_append {c : Char} {front : List Char} (h : c ∉ front) (back : List Char) :
    before c (front ++ c :: back) = front := by
  rw [before, List.takeWhile_append_of_pos]
  · simp
  · intro d hd
    rw [decide_eq_true_iff]
    rintro rfl
    exact h hd

theorem before_of_not_mem {c : Char} {text : List Char} (h : c ∉ text) : before c text = text := by
  rw [before, List.takeWhile_eq_self_iff]
  intro d hd
  rw [decide_eq_true_iff]
  rintro rfl
  exact h hd

theorem behind_append {c : Char} {front : List Char} (h : c ∉ front) (back : List Char) :
    behind c (front ++ c :: back) = back := by
  rw [behind, List.dropWhile_append_of_pos]
  · simp
  · intro d hd
    rw [decide_eq_true_iff]
    rintro rfl
    exact h hd

theorem behind_of_not_mem {c : Char} {text : List Char} (h : c ∉ text) : behind c text = [] := by
  have hall : text.dropWhile (· ≠ c) = [] := by
    rw [List.dropWhile_eq_nil_iff]
    intro d hd
    rw [decide_eq_true_iff]
    rintro rfl
    exact h hd
  rw [behind, hall, List.tail_nil]

theorem behindLast_append {c : Char} (front : List Char) {back : List Char} (h : c ∉ back) :
    behindLast c (front ++ c :: back) = back := by
  induction back using List.reverseRecOn with
  | nil => simp [behindLast]
  | append_singleton back d ih =>
    rw [List.mem_append, not_or, List.mem_singleton] at h
    rw [← List.cons_append, ← List.append_assoc, behindLast,
      List.rtakeWhile_concat_pos (fun x => decide (x ≠ c)) _ d (decide_eq_true (Ne.symm h.2))]
    exact congrArg (· ++ [d]) (ih h.1)

theorem behindLast_of_not_mem {c : Char} {text : List Char} (h : c ∉ text) :
    behindLast c text = text := by
  rw [behindLast, List.rtakeWhile_eq_self_iff]
  intro d hd
  rw [decide_eq_true_iff]
  rintro rfl
  exact h hd

theorem removeSuffix_append (suffix text : List Char) :
    removeSuffix suffix (text ++ suffix) = text := by
  rw [removeSuffix, if_pos (List.suffix_append text suffix), List.length_append,
    Nat.add_sub_cancel, List.take_left]

end Sediment.Core.TextMethods

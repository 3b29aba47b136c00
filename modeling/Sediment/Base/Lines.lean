import Mathlib.Tactic

namespace Sediment.Base.Lines

/-- `list(io.StringIO(text))`: each line with its end, after the line read so far. -/
def framed (line : List Char) : List Char → List (List Char)
  | [] => if line = [] then [] else [line]
  | c :: rest => if c = '\n' then (line ++ [c]) :: framed [] rest else framed (line ++ [c]) rest

/-- Where `str.splitlines` ends a line. -/
def isBreakCode (n : Nat) : Bool :=
  (10 ≤ n && n ≤ 13) || (28 ≤ n && n ≤ 30) || n == 0x85 || n == 0x2028 || n == 0x2029

/-- `str.splitlines` of a text over its code points, with the line read so far. -/
def breakLines {α : Type} (code : α → Nat) (line : List α) : List α → List (List α)
  | [] => if line.isEmpty then [] else [line]
  | [c] => if isBreakCode (code c) then [line] else [line ++ [c]]
  | c :: d :: rest =>
    if code c = 13 ∧ code d = 10 then line :: breakLines code [] rest
    else if isBreakCode (code c) then line :: breakLines code [] (d :: rest)
    else breakLines code (line ++ [c]) (d :: rest)

def isBreak (c : Char) : Bool := isBreakCode c.toNat

/-- `str.splitlines`, with the line read so far. -/
def splitlines (line text : List Char) : List (List Char) := breakLines Char.toNat line text

theorem splitlines_crlf (line rest : List Char) :
    splitlines line ('\r' :: '\n' :: rest) = line :: splitlines [] rest := rfl

theorem splitlines_cons {c : Char} {rest : List Char} (h : c = '\r' → rest.head? ≠ some '\n')
    (line : List Char) : splitlines line (c :: rest) =
      if isBreak c then line :: splitlines [] rest else splitlines (line ++ [c]) rest := by
  unfold splitlines isBreak
  cases rest with
  | nil => simp [breakLines]
  | cons d rest =>
    rw [breakLines, if_neg]
    intro hboth
    have hcr : c = '\r' := Char.toNat_inj.mp hboth.1
    have hlf : d = '\n' := Char.toNat_inj.mp hboth.2
    exact h hcr (by rw [hlf]; rfl)

/-- `str.strip`, of the characters that are blank. -/
abbrev trim {α : Type} (blank : α → Bool) (text : List α) : List α :=
  ((text.dropWhile blank).reverse.dropWhile blank).reverse

/-- A text is stripped when it has no blank at either end. -/
theorem trim_eq_self_iff {α : Type} {blank : α → Bool} {text : List α} :
    trim blank text = text ↔
      (∀ a ∈ text.head?, blank a = false) ∧ ∀ a ∈ text.getLast?, blank a = false := by
  constructor
  · intro h
    have hfront : text.dropWhile blank = text := by
      apply (List.dropWhile_suffix blank).eq_of_length_le
      have hlen := (List.dropWhile_sublist (l := (text.dropWhile blank).reverse) blank).length_le
      rw [← List.length_reverse] at hlen
      change (trim blank text).length ≤ _ at hlen
      rwa [h, List.length_reverse] at hlen
    have hback : text.reverse.dropWhile blank = text.reverse := by
      rw [trim, hfront] at h
      rw [← List.reverse_eq_iff, h]
    constructor
    · intro a ha
      rw [← hfront] at ha
      have hhead := List.head?_dropWhile_not blank text
      rw [Option.mem_def.mp ha] at hhead
      exact hhead
    · intro a ha
      rw [← List.head?_reverse, ← hback] at ha
      have hhead := List.head?_dropWhile_not blank text.reverse
      rw [Option.mem_def.mp ha] at hhead
      exact hhead
  · rintro ⟨hhead, hlast⟩
    have hkeep : ∀ l : List α, (∀ a ∈ l.head?, blank a = false) → l.dropWhile blank = l := by
      intro l hl
      cases l with
      | nil => rfl
      | cons a l => rw [List.dropWhile_cons_of_neg (by simp [hl a rfl])]
    rw [trim, hkeep text hhead, hkeep text.reverse, List.reverse_reverse]
    rwa [List.head?_reverse]
/-- `line.removesuffix("\n")`. -/
def chomp (line : List Char) : List Char :=
  if line.getLast? = some '\n' then line.dropLast else line

/-- `text.split("\n")` without the empty line behind the last end. -/
def popped (text : List Char) : List (List Char) :=
  let lines := text.splitOn '\n'
  if lines.getLast? = some [] then lines.dropLast else lines

theorem chomp_end (line : List Char) : chomp (line ++ ['\n']) = line := by
  simp [chomp]

theorem chomp_of_not_mem {line : List Char} (h : '\n' ∉ line) : chomp line = line := by
  rw [chomp, if_neg]
  intro hlast
  exact h (List.mem_of_getLast? hlast)

/-- A text is a last line without an end, or a whole line before a text. -/
theorem line_induction {P : List Char → Prop} (last : ∀ tail, '\n' ∉ tail → P tail)
    (step : ∀ line rest, '\n' ∉ line → P rest → P (line ++ '\n' :: rest)) (text : List Char) :
    P text := by
  have hgo : ∀ (n : Nat) (text : List Char), text.length ≤ n → P text := by
    intro n
    induction n with
    | zero =>
      intro text hlen
      rw [List.length_eq_zero_iff.mp (Nat.le_zero.mp hlen)]
      exact last [] (by simp)
    | succ n ih =>
      intro text hlen
      by_cases hin : '\n' ∈ text
      · obtain ⟨line, rest, htext, hline⟩ := List.eq_append_cons_of_mem hin
        rw [htext, List.length_append, List.length_cons] at hlen
        rw [htext]
        exact step line rest hline (ih rest (by omega))
      · exact last text hin
  exact hgo text.length text le_rfl

theorem framed_last {tail : List Char} (h : '\n' ∉ tail) :
    framed [] tail = if tail = [] then [] else [tail] := by
  have hgo : ∀ pre, framed pre tail = if pre ++ tail = [] then [] else [pre ++ tail] := by
    induction tail with
    | nil => simp [framed]
    | cons c tail ih =>
      intro pre
      simp only [List.mem_cons, not_or] at h
      rw [framed, if_neg (fun heq => h.1 heq.symm), ih h.2]
      simp
  simpa using hgo []

/-- A whole line and its end come off the front. -/
theorem framed_line {line : List Char} (h : '\n' ∉ line) (rest : List Char) :
    framed [] (line ++ '\n' :: rest) = (line ++ ['\n']) :: framed [] rest := by
  have hgo : ∀ pre, framed pre (line ++ '\n' :: rest) = (pre ++ line ++ ['\n']) :: framed [] rest := by
    induction line with
    | nil => simp [framed]
    | cons c line ih =>
      intro pre
      simp only [List.mem_cons, not_or] at h
      rw [List.cons_append, framed, if_neg (fun heq => h.1 heq.symm), ih h.2]
      simp
  simpa using hgo []

/-- The lines of a text made of whole lines. -/
theorem framed_lines {lines : List (List Char)} (h : ∀ line ∈ lines, '\n' ∉ line)
    (rest : List Char) :
    framed [] (lines.flatMap (· ++ ['\n']) ++ rest) = lines.map (· ++ ['\n']) ++ framed [] rest := by
  induction lines with
  | nil => rfl
  | cons line lines ih =>
    obtain ⟨hline, hlines⟩ := List.forall_mem_cons.mp h
    rw [List.flatMap_cons, List.append_assoc, List.append_assoc, List.singleton_append,
      framed_line hline, ih hlines]
    rfl

theorem flatten_framed (line text : List Char) : (framed line text).flatten = line ++ text := by
  induction text generalizing line with
  | nil =>
    rw [framed]
    split
    · rename_i hnil
      simp [hnil]
    · simp
  | cons c text ih =>
    rw [framed]
    split
    · rename_i hc
      simp [ih, hc]
    · simp [ih]

theorem splitOn_line {line : List Char} (h : '\n' ∉ line) (rest : List Char) :
    (line ++ '\n' :: rest).splitOn '\n' = line :: rest.splitOn '\n' :=
  List.splitOn_append_cons_self_of_not_mem h rest

/-- Both readers see the same lines. -/
theorem popped_eq (text : List Char) : popped text = (framed [] text).map chomp := by
  induction text using line_induction with
  | last tail h =>
    rw [framed_last h, popped, List.splitOn_eq_singleton h]
    by_cases hnil : tail = []
    · simp [hnil]
    · simp [hnil, chomp_of_not_mem h]
  | step line rest h ih =>
    rw [framed_line h, List.map_cons, chomp_end, ← ih, popped, popped, splitOn_line h]
    have hne := List.splitOn_ne_nil '\n' rest
    simp only [List.getLast?_cons_of_ne_nil hne, List.dropLast_cons_of_ne_nil hne]
    split <;> rfl

end Sediment.Base.Lines

import Sediment.Base.GitPatch
import Sediment.Base.PercentCoding
import Sediment.Derive.Diff

namespace Sediment.Proofs.DiffPaths
open Sediment.Base Sediment.Base.GitPatch Sediment.Derive.Diff
open Sediment.Base.JsonScan (encodeUtf8 decodeUtf8? decodeUtf8_encodeUtf8 encodeUtf8_lt)

theorem encodeUtf8_append (s t : List Char) : encodeUtf8 (s ++ t) = encodeUtf8 s ++ encodeUtf8 t := by
  simp [encodeUtf8]

theorem encodeUtf8_ascii {c : Char} (h : c.toNat < 128) : encodeUtf8 [c] = [c.toNat] := by
  have hlow : c.toNat < 256 := by omega
  simp only [encodeUtf8, List.flatMap_cons, List.flatMap_nil, List.append_nil,
    PercentCoding.utf8EncodeChar_ascii h, List.map_cons, List.map_nil, UInt8.toNat_ofNat',
    Nat.mod_eq_of_lt hlow]

theorem octalText_escape : ∀ b : Fin 256,
    escapes (Nat.digitChar (b / 64)) = none ∧
      octal (Nat.digitChar (b / 64)) (Nat.digitChar (b / 8 % 8)) (Nat.digitChar (b % 8)) =
        some b.val := by
  decide +kernel

theorem unescape_octalText {b : Nat} (h : b < 256) (rest : List Char) :
    unescape (octalText b ++ rest) = (unescape rest).map (b :: ·) := by
  obtain ⟨hletter, hoctal⟩ := octalText_escape ⟨b, h⟩
  simp only at hletter hoctal
  simp only [octalText, List.cons_append, List.nil_append]
  rw [unescape.eq_def]
  simp only [hletter, hoctal]

theorem unescape_octalTexts {bytes : List Nat} (h : ∀ b ∈ bytes, b < 256) (rest : List Char) :
    unescape (bytes.flatMap octalText ++ rest) = (unescape rest).map (bytes ++ ·) := by
  induction bytes with
  | nil => simp
  | cons b bytes ih =>
    obtain ⟨hb, hbytes⟩ := List.forall_mem_cons.mp h
    rw [List.flatMap_cons, List.append_assoc, unescape_octalText hb, ih hbytes, Option.map_map]
    rfl

/-- A letter behind a backslash reads as its character. -/
theorem letter_escape {c l : Char} (h : letter c = some l) :
    escapes l = some c.toNat ∧ c.toNat < 128 := by
  unfold letter at h
  split at h
  all_goals cases h
  all_goals decide

theorem unescape_plain {c : Char} (hquote : c ≠ '"') (hslash : c ≠ '\\') (rest : List Char) :
    unescape (c :: rest) = (unescape rest).map (encodeUtf8 [c] ++ ·) := by
  rw [unescape]
  · exact fun heq => hquote heq
  · intro heq
    exact absurd heq hslash
  · intro a b heq
    exact absurd heq hslash

theorem letter_none {c : Char} (h : letter c = none) : c ≠ '"' ∧ c ≠ '\\' := by
  constructor
  · intro heq
    rw [heq] at h
    cases h
  · intro heq
    rw [heq] at h
    cases h

theorem unescape_spelled (quotePath : Bool) (c : Char) (rest : List Char) :
    unescape (spelled quotePath (.char c) ++ rest) =
      (unescape rest).map (encodeUtf8 [c] ++ ·) := by
  unfold spelled
  simp only
  split
  · rename_i l hl
    obtain ⟨hescape, hlow⟩ := letter_escape hl
    rw [List.cons_append, List.cons_append, List.nil_append, unescape.eq_def]
    simp only [hescape, encodeUtf8_ascii hlow]
    rfl
  · rename_i hl
    obtain ⟨hquote, hslash⟩ := letter_none hl
    split
    · rename_i hcontrol
      have hlow : c.toNat < 128 := by
        simp only [isControl, Bool.or_eq_true, decide_eq_true_eq, beq_iff_eq] at hcontrol
        omega
      rw [unescape_octalText (by omega), encodeUtf8_ascii hlow]
      rfl
    · split
      · exact unescape_octalTexts (encodeUtf8_lt [c]) rest
      · exact unescape_plain hquote hslash rest

theorem unescape_text (quotePath : Bool) (text rest : List Char) :
    unescape ((text.map PathUnit.char).flatMap (spelled quotePath) ++ rest) =
      (unescape rest).map (encodeUtf8 text ++ ·) := by
  induction text with
  | nil => simp [encodeUtf8]
  | cons c text ih =>
    rw [List.map_cons, List.flatMap_cons, List.append_assoc, unescape_spelled, ih, Option.map_map]
    congr 1
    funext bytes
    rw [Function.comp, ← List.append_assoc, ← encodeUtf8_append]
    rfl

/-- What may stand before a path: nothing of it needs quotes. -/
def Plain (side : List Char) : Prop := ∀ c ∈ side, mustQuote true (.char c) = false

theorem Plain.spelled {side : List Char} (h : Plain side) (quotePath : Bool) :
    (side.map PathUnit.char).flatMap (GitPatch.spelled quotePath) = side := by
  induction side with
  | nil => rfl
  | cons c side ih =>
    obtain ⟨hc, hside⟩ := List.forall_mem_cons.mp h
    rw [List.map_cons, List.flatMap_cons, ih hside]
    simp only [mustQuote, Bool.or_eq_false_iff, Bool.true_and, decide_eq_false_iff_not,
      Option.isSome_eq_false_iff, Option.isNone_iff_eq_none] at hc
    simp [GitPatch.spelled, hc.1.1, hc.1.2, hc.2]

theorem spelled_unquoted {quotePath : Bool} {c : Char}
    (h : mustQuote quotePath (.char c) = false) :
    spelled quotePath (.char c) = [c] ∧ needsQuotes c = false := by
  simp only [mustQuote, Bool.or_eq_false_iff, Option.isSome_eq_false_iff,
    Option.isNone_iff_eq_none] at h
  obtain ⟨⟨hletter, hcontrol⟩, hhigh⟩ := h
  obtain ⟨hquote, hslash⟩ := letter_none hletter
  refine ⟨by simp [spelled, hletter, hcontrol, hhigh], ?_⟩
  simp only [isControl, Bool.or_eq_false_iff] at hcontrol
  simp [needsQuotes, hcontrol, hquote, hslash]

section
variable {quotePath : Bool} {side : List Char} {path : GitPath}

/-- How a text path reads: as it is, or between quotes that close where the path ends. -/
theorem token_cases (quotePath : Bool) (hpath : path.IsText) (hside : Plain side) :
    (path.units.any (mustQuote quotePath) = false ∧
        token quotePath side path = side ++ path.text ∧
        ∀ c ∈ side ++ path.text, needsQuotes c = false) ∨
      path.units.any (mustQuote quotePath) = true ∧
        ∃ inner, token quotePath side path = '"' :: inner ++ ['"'] ∧
          unescape inner = some (encodeUtf8 (side ++ path.text)) := by
  unfold token
  split
  · right
    rename_i hany
    refine ⟨hany, side ++ path.units.flatMap (spelled quotePath), by simp, ?_⟩
    have hall : side ++ path.units.flatMap (spelled quotePath) =
        ((side ++ path.text).map PathUnit.char).flatMap (spelled quotePath) ++ [] := by
      rw [hpath.units_eq, List.map_append, List.flatMap_append, hside.spelled, List.append_nil]
    rw [hall, unescape_text]
    simp [unescape]
  · left
    rename_i hnone
    refine ⟨by simpa using hnone, ?_⟩
    rw [hpath.units_eq] at hnone ⊢
    simp only [List.any_eq_true, List.mem_map, not_exists, not_and, Bool.not_eq_true] at hnone
    have hunit : ∀ c ∈ path.text, mustQuote quotePath (.char c) = false :=
      fun c hc => hnone (.char c) ⟨c, hc, rfl⟩
    have hsame : (path.text.map PathUnit.char).flatMap (spelled quotePath) = path.text := by
      rw [List.flatMap_map]
      have heach : ∀ c ∈ path.text, spelled quotePath (.char c) = [c] :=
        fun c hc => (spelled_unquoted (hunit c hc)).1
      rw [List.flatMap_congr heach, List.flatMap_singleton']
    refine ⟨by rw [hsame], ?_⟩
    intro c hc
    rcases List.mem_append.mp hc with hc | hc
    · exact (spelled_unquoted (hside c hc)).2
    · exact (spelled_unquoted (hunit c hc)).2

theorem text_nonempty (path : GitPath) : path.text ≠ [] := by
  rw [GitPath.text]
  simpa using path.nonempty

theorem nul_not_mem_text (path : GitPath) : '\u0000' ∉ path.text := by
  intro h
  obtain ⟨unit, hunit, hchar⟩ := List.mem_map.mp h
  cases unit with
  | char c =>
    rw [PathUnit.toChar] at hchar
    rw [hchar] at hunit
    exact path.noNul hunit
  | stray offset => exact absurd hchar (show ¬ '\uFFFD' = '\u0000' by decide)

theorem nul_not_mem_plain (hside : Plain side) : '\u0000' ∉ side :=
  fun h => absurd (hside _ h) (by decide)

/-- `_git_path` reads a token back. -/
theorem gitPath_token (quotePath : Bool) (hpath : path.IsText) (hside : Plain side) :
    gitPath (token quotePath side path) = .ok (side ++ path.text) := by
  have hne : side ++ path.text ≠ [] := by simp [text_nonempty]
  have hnul : '\u0000' ∉ side ++ path.text := by
    simp [nul_not_mem_plain hside, nul_not_mem_text path]
  rcases token_cases quotePath hpath hside with
    ⟨-, htoken, hplain⟩ | ⟨-, inner, htoken, hread⟩
  · have hhead : (side ++ path.text).head? ≠ some '"' := by
      intro hquote
      exact absurd (hplain _ (List.mem_of_head? hquote)) (by decide)
    have hany : (side ++ path.text).any needsQuotes = false := by
      rw [List.any_eq_false]
      intro c hc
      simp [hplain c hc]
    rw [htoken, gitPath, if_neg hne, if_pos hhead, hany]
    rfl
  · rw [htoken, gitPath, if_neg (by simp), if_neg (by simp),
      if_neg (by rw [List.getLast?_concat]; simp)]
    have hinner : (('"' :: inner ++ ['"']).drop 1).dropLast = inner := by simp
    simp only [hinner, hread, decodeUtf8_encodeUtf8]
    rw [if_neg (by simp [hne, hnul])]

theorem token_last (hpath : path.IsText) (hside : Plain side) :
    (token quotePath side path).getLast? ≠ some '\t' := by
  rcases token_cases quotePath hpath hside with
    ⟨-, htoken, hplain⟩ | ⟨-, inner, htoken, -⟩
  · rw [htoken]
    intro htab
    exact absurd (hplain _ (List.mem_of_getLast? htab)) (by decide)
  · rw [htoken, List.getLast?_concat]
    simp

theorem untabbed_token (hpath : path.IsText) (hside : Plain side) :
    untabbed (token quotePath side path) = token quotePath side path :=
  if_neg (token_last hpath hside)

theorem untabbed_label (hpath : path.IsText) (hside : Plain side) :
    untabbed (label quotePath side path) = token quotePath side path := by
  rw [label]
  split
  · simp [untabbed]
  · rw [List.append_nil, untabbed_token hpath hside]

end

/-- Text that reads between quotes does not go past the quote that closes it. -/
theorem unescape_past {inner rest : List Char} {bytes : List Nat}
    (h : unescape inner = some bytes) : unescape (inner ++ '"' :: rest) = none := by
  fun_induction unescape inner generalizing bytes with
  | case1 => rw [List.nil_append, unescape]
  | case2 => cases h
  | case3 => cases h
  | case4 a tail byte hletter ih =>
    obtain ⟨bytes', htail, -⟩ := Option.map_eq_some_iff.mp h
    rw [List.cons_append, List.cons_append, unescape.eq_def]
    simp only [hletter, ih htail, Option.map_none]
  | case5 a hletter b c tail byte hoctal ih =>
    obtain ⟨bytes', htail, -⟩ := Option.map_eq_some_iff.mp h
    simp only [List.cons_append]
    rw [unescape.eq_def]
    simp only [hletter, hoctal, ih htail, Option.map_none]
  | case6 => cases h
  | case7 => cases h
  | case8 c tail hquote hlast hslash ih =>
    obtain ⟨bytes', htail, -⟩ := Option.map_eq_some_iff.mp h
    have hne : c ≠ '\\' := by
      intro heq
      cases tail with
      | nil => exact hlast heq rfl
      | cons a tail => exact hslash a tail heq rfl
    rw [List.cons_append, unescape_plain hquote hne, ih htail]
    rfl

/-- Two quoted tokens at the front of one text are the same. -/
theorem quoted_unique {x y r t : List Char} {a b : List Nat} (hx : unescape x = some a)
    (hy : unescape y = some b) (h : x ++ '"' :: r = y ++ '"' :: t) : x = y := by
  rcases List.append_eq_append_iff.mp h with ⟨u, hyu, hru⟩ | ⟨u, hxu, htu⟩
  · cases u with
    | nil => rw [hyu, List.append_nil]
    | cons c u =>
      cases hru
      rw [hyu, unescape_past hx] at hy
      cases hy
  · cases u with
    | nil => rw [hxu, List.append_nil]
    | cons c u =>
      cases htu
      rw [hxu, unescape_past hy] at hx
      cases hx

theorem cuts_append (before a b : List Char) :
    cuts before (a ++ ' ' :: b) =
      (cuts before a).map (fun cut => (cut.1, cut.2 ++ ' ' :: b)) ++
        (before ++ a, b) :: cuts (before ++ a ++ [' ']) b := by
  induction a generalizing before with
  | nil => simp [cuts]
  | cons c a ih =>
    rw [List.cons_append, cuts, cuts]
    split
    · rw [ih]
      simp
    · rw [ih]
      simp

theorem cuts_spec {before text : List Char} {cut : List Char × List Char}
    (h : cut ∈ cuts before text) : ∃ a, cut.1 = before ++ a ∧ text = a ++ ' ' :: cut.2 := by
  induction text generalizing before with
  | nil => cases h
  | cons c text ih =>
    rw [cuts] at h
    split at h
    · rename_i hc
      rcases List.mem_cons.mp h with heq | hrest
      · rw [heq, hc]
        exact ⟨[], by simp, rfl⟩
      · obtain ⟨a, hfirst, htext⟩ := ih hrest
        exact ⟨c :: a, by simp [hfirst], by rw [htext, List.cons_append]⟩
    · obtain ⟨a, hfirst, htext⟩ := ih h
      exact ⟨c :: a, by simp [hfirst], by rw [htext, List.cons_append]⟩

/-- A cut is the true one as soon as it starts with the true token. -/
theorem sectionPath_of_unique {a b : List Char} {old new : Option (List Char)} {path : List Char}
    (htrue : pathCandidate old new (a, b) = some path)
    (hunique : ∀ x y, x ++ ' ' :: y = a ++ ' ' :: b → pathCandidate old new (x, y) ≠ none →
      x = a) :
    sectionPath (a ++ ' ' :: b) old new = .ok path := by
  have hleft : ((cuts [] a).map (fun cut => (cut.1, cut.2 ++ ' ' :: b))).filterMap
      (pathCandidate old new) = [] := by
    rw [List.filterMap_eq_nil_iff]
    intro cut hcut
    obtain ⟨inner, hinner, heq⟩ := List.mem_map.mp hcut
    obtain ⟨x, hx, htext⟩ := cuts_spec hinner
    by_contra hsome
    rw [← heq] at hsome
    have hsplit : inner.1 ++ ' ' :: (inner.2 ++ ' ' :: b) = a ++ ' ' :: b := by
      rw [hx, htext]
      simp
    have hlen := congrArg List.length (hunique _ _ hsplit hsome)
    rw [htext, hx] at hlen
    simp at hlen
  have hright : (cuts ([] ++ a ++ [' ']) b).filterMap (pathCandidate old new) = [] := by
    rw [List.filterMap_eq_nil_iff]
    intro cut hcut
    obtain ⟨x, hx, htext⟩ := cuts_spec hcut
    by_contra hsome
    have hsplit : cut.1 ++ ' ' :: cut.2 = a ++ ' ' :: b := by
      rw [hx, htext]
      simp
    have hlen := congrArg List.length (hunique _ _ hsplit hsome)
    rw [hx] at hlen
    simp at hlen
  rw [sectionPath, cuts_append, List.filterMap_append, hleft, List.filterMap_cons, hright]
  simp only [List.nil_append, htrue]

section
variable {start : String}

theorem fileHeader_of_gitPath {t text : List Char}
    (h : gitPath (untabbed t) = .ok (start.toList ++ text))
    (htext : text ≠ []) (hdev : start.toList ++ text ≠ "/dev/null".toList) :
    fileHeader t start = .ok (some text) := by
  have hstart : startsWith (start.toList ++ text) start = true := by
    rw [startsWith, List.isPrefixOf_iff_prefix]
    exact List.prefix_append _ _
  have hlen : (start.toList ++ text).length ≠ start.length := by
    rw [List.length_append, String.length_toList]
    have hpos := List.length_pos_of_ne_nil htext
    omega
  rw [fileHeader, h]
  simp only [if_neg hdev, hstart, Bool.not_true, Bool.false_or, beq_iff_eq, if_neg hlen]
  rw [← String.length_toList, List.drop_left]

theorem fileHeader_eq {t text : List Char} (h : fileHeader t start = .ok (some text)) :
    gitPath (untabbed t) = .ok (start.toList ++ text) := by
  unfold fileHeader at h
  split at h
  · cases h
  rename_i path hpath
  split at h
  · cases h
  split at h
  · cases h
  rename_i hok
  simp only [Bool.or_eq_true, Bool.not_eq_true', beq_iff_eq, not_or, Bool.not_eq_false] at hok
  rw [startsWith, List.isPrefixOf_iff_prefix] at hok
  obtain ⟨⟨rest, hrest⟩, -⟩ := hok
  cases h
  rw [hpath, ← hrest, ← String.length_toList, List.drop_left]

end

/-- What `_git_path` reads is what stands there, or stands between quotes. -/
theorem gitPath_eq {t path : List Char} (h : gitPath t = .ok path) :
    (t = path ∧ t.head? ≠ some '"') ∨
      ∃ inner bytes, t = '"' :: inner ++ ['"'] ∧ unescape inner = some bytes := by
  unfold gitPath at h
  split at h
  · cases h
  rename_i hne
  split at h
  · rename_i hhead
    split at h
    · cases h
    · cases h
      exact Or.inl ⟨rfl, hhead⟩
  · rename_i hhead
    split at h
    · cases h
    rename_i hlast
    split at h
    · cases h
    rename_i encoded hencoded
    right
    rw [ne_eq, not_not] at hhead hlast
    refine ⟨(t.drop 1).dropLast, encoded, ?_, hencoded⟩
    cases t with
    | nil => cases hhead
    | cons c t =>
      cases hhead
      have ht : t ≠ [] := by
        intro hnil
        rw [hnil] at hencoded
        cases hencoded
        have hempty : decodeUtf8? [] = some [] := decodeUtf8_encodeUtf8 []
        simp [hempty] at h
      rw [List.getLast?_cons_of_ne_nil ht] at hlast
      rw [List.drop_one, List.tail_cons, List.cons_append]
      congr 1
      exact (List.dropLast_append_getLast? '"' hlast).symm

theorem plain_nil : Plain [] := fun _ hc => by cases hc

theorem plain_a : Plain "a/".toList :=
  List.forall_mem_cons.mpr ⟨rfl, List.forall_mem_cons.mpr ⟨rfl, fun _ hc => by cases hc⟩⟩

theorem plain_b : Plain "b/".toList :=
  List.forall_mem_cons.mpr ⟨rfl, List.forall_mem_cons.mpr ⟨rfl, fun _ hc => by cases hc⟩⟩

section
variable {quotePath : Bool} {old new : GitPath}

theorem fileHeader_old (h : old.IsText) :
    fileHeader (token quotePath "a/".toList old) "a/" = .ok (some old.text) ∧
      fileHeader (label quotePath "a/".toList old) "a/" = .ok (some old.text) := by
  constructor
  · apply fileHeader_of_gitPath
    · rw [untabbed_token h plain_a, gitPath_token quotePath h plain_a]
    · exact text_nonempty old
    · simp
  · apply fileHeader_of_gitPath
    · rw [untabbed_label h plain_a, gitPath_token quotePath h plain_a]
    · exact text_nonempty old
    · simp

theorem fileHeader_new (h : new.IsText) :
    fileHeader (token quotePath "b/".toList new) "b/" = .ok (some new.text) ∧
      fileHeader (label quotePath "b/".toList new) "b/" = .ok (some new.text) := by
  constructor
  · apply fileHeader_of_gitPath
    · rw [untabbed_token h plain_b, gitPath_token quotePath h plain_b]
    · exact text_nonempty new
    · simp
  · apply fileHeader_of_gitPath
    · rw [untabbed_label h plain_b, gitPath_token quotePath h plain_b]
    · exact text_nonempty new
    · simp

theorem untabbed_cases (t : List Char) : t = untabbed t ∨ t = untabbed t ++ ['\t'] := by
  unfold untabbed
  split
  · rename_i hlast
    right
    exact (List.dropLast_append_getLast? '\t' hlast).symm
  · left
    rfl

/-- Behind the true token a blank follows, so a token that reads like it is it. -/
theorem token_unique {x y a b : List Char} (h : x ++ ' ' :: y = a ++ ' ' :: b)
    (hx : untabbed x = a) : x = a := by
  rcases untabbed_cases x with hsame | htab
  · rw [hsame, hx]
  · rw [htab, hx, List.append_assoc] at h
    have htail := List.append_cancel_left h
    simp at htail

/-- What the paths in the header must be, given those of the files. -/
inductive Paths (old new : GitPath) : Option (List Char) → Option (List Char) → Prop
  | unknown : old = new → Paths old new none none
  | added : old = new → Paths old new none (some new.text)
  | deleted : old = new → Paths old new (some old.text) none
  | both : Paths old new (some old.text) (some new.text)

variable {o n : Option (List Char)}

theorem pathCandidate_some {x y path : List Char} (h : pathCandidate o n (x, y) = some path) :
    ∃ source target, gitPath (untabbed x) = .ok ("a/".toList ++ source) ∧
      gitPath (untabbed y) = .ok ("b/".toList ++ target) ∧
      ((o = none ∧ n = none ∧ source = target) ∨
        (some source = o.or n ∧ some target = n.or o)) := by
  unfold pathCandidate at h
  split at h
  · rename_i source target hsource htarget
    refine ⟨source, target, fileHeader_eq hsource, fileHeader_eq htarget, ?_⟩
    split at h
    · rename_i hnone
      split at h
      · cases h
      · rename_i hsame
        rw [ne_eq, not_not] at hsame
        exact Or.inl ⟨hnone.1, hnone.2, hsame⟩
    · split at h
      · cases h
      · rename_i hsame
        push Not at hsame
        exact Or.inr hsame
  · cases h

theorem Paths.candidate (h : Paths old new o n) (hold : old.IsText) (hnew : new.IsText) :
    pathCandidate o n (token quotePath "a/".toList old, token quotePath "b/".toList new) =
      some (if n.isSome then new.text else old.text) := by
  simp only [pathCandidate, (fileHeader_old hold).1, (fileHeader_new hnew).1]
  cases h with
  | unknown heq => simp [heq]
  | added heq => simp [heq]
  | deleted heq => simp [heq]
  | both => simp

theorem Paths.source (h : Paths old new o n) {source : List Char}
    (hsource : some source = o.or n) : source = old.text := by
  cases h with
  | unknown => cases hsource
  | added heq =>
    rw [heq]
    exact Option.some.inj hsource
  | deleted => exact Option.some.inj hsource
  | both => exact Option.some.inj hsource

theorem Paths.same (h : Paths old new none none) : old = new := by
  cases h with
  | unknown heq => exact heq

theorem head_untabbed {t : List Char} {c : Char} (h : (untabbed t).head? = some c)
    (rest : List Char) : (t ++ rest).head? = some c := by
  have hin : ∀ s, (untabbed t ++ s).head? = some c := by
    intro s
    rw [List.head?_append, h]
    rfl
  rcases untabbed_cases t with hsame | htab
  · rw [hsame]
    exact hin rest
  · rw [htab, List.append_assoc]
    exact hin _

/-- Without quotes the header is cut in the middle, or by a name that is known. -/
theorem unquoted_unique (h : Paths old new o n) (hnew : new.IsText) {x y : List Char}
    (hnone : old.units.any (mustQuote quotePath) = false)
    (htoken : token quotePath "a/".toList old = "a/".toList ++ old.text)
    (hplain : ∀ c ∈ "a/".toList ++ old.text, needsQuotes c = false)
    (hsplit : x ++ ' ' :: y =
      token quotePath "a/".toList old ++ ' ' :: token quotePath "b/".toList new)
    (hsome : pathCandidate o n (x, y) ≠ none) : x = token quotePath "a/".toList old := by
  obtain ⟨path, hpath⟩ := Option.ne_none_iff_exists'.mp hsome
  obtain ⟨source, target, hsource, htarget, hnames⟩ := pathCandidate_some hpath
  have hx : untabbed x = "a/".toList ++ source := by
    rcases gitPath_eq hsource with ⟨hx, -⟩ | ⟨inner, bytes, hx, -⟩
    · exact hx
    · have hhead := head_untabbed (c := '"') (by rw [hx]; rfl) (' ' :: y)
      rw [hsplit, htoken] at hhead
      cases hhead
  rcases hnames with ⟨ho, hn, hsame⟩ | ⟨hsourceName, -⟩
  · rw [ho, hn] at h
    have heq := h.same
    rw [← heq] at hnew hsplit
    rcases token_cases quotePath hnew plain_b with
      ⟨-, htoken', hplain'⟩ | ⟨hany, -⟩
    · rw [htoken, htoken'] at hsplit
      have hclean : ∀ c ∈ x ++ ' ' :: y, c = ' ' ∨ needsQuotes c = false := by
        intro c hc
        rw [hsplit] at hc
        rcases List.mem_append.mp hc with hc | hc
        · exact Or.inr (hplain c hc)
        · rcases List.mem_cons.mp hc with hc | hc
          · exact Or.inl hc
          · exact Or.inr (hplain' c hc)
      have hplainTab : ∀ t, (∀ c ∈ t, c ∈ x ++ ' ' :: y) → untabbed t = t := by
        intro t ht
        rw [untabbed, if_neg]
        intro hlast
        rcases hclean _ (ht _ (List.mem_of_getLast? hlast)) with hc | hc
        · cases hc
        · exact absurd hc (by decide)
      have hxSame := hplainTab x (fun c hc => List.mem_append_left _ hc)
      have hySame := hplainTab y (fun c hc => List.mem_append_right _ (List.mem_cons_of_mem _ hc))
      have hy : y = "b/".toList ++ target := by
        rw [hySame] at htarget
        rcases gitPath_eq htarget with ⟨hy, -⟩ | ⟨inner, bytes, hy, -⟩
        · exact hy
        · rcases hclean '"' (by simp [hy]) with hc | hc
          · cases hc
          · exact absurd hc (by decide)
      have hlen := congrArg List.length hsplit
      rw [hxSame] at hx
      rw [htoken]
      have hsize : x.length = ("a/".toList ++ old.text).length := by
        rw [hx, hy, hsame] at hlen
        rw [hx, hsame]
        simp only [List.length_append, List.length_cons] at hlen ⊢
        have hab : "a/".toList.length = "b/".toList.length := rfl
        omega
      exact (List.append_inj hsplit hsize).1
    · rw [hnone] at hany
      cases hany
  · rw [h.source hsourceName, ← htoken] at hx
    exact token_unique hsplit hx

/-- The names of a section are read from its first line, wherever blanks and quotes stand. -/
theorem sectionPath_eq (quotePath : Bool) (h : Paths old new o n) (hold : old.IsText)
    (hnew : new.IsText) :
    sectionPath (token quotePath "a/".toList old ++ ' ' :: token quotePath "b/".toList new) o n =
      .ok (if n.isSome then new.text else old.text) := by
  apply sectionPath_of_unique (h.candidate hold hnew)
  intro x y hsplit hsome
  rcases token_cases quotePath hold plain_a with
    ⟨hnone, htoken, hplain⟩ | ⟨-, inner, htoken, hread⟩
  · exact unquoted_unique h hnew hnone htoken hplain hsplit hsome
  · obtain ⟨path, hpath⟩ := Option.ne_none_iff_exists'.mp hsome
    obtain ⟨source, -, hsource, -⟩ := pathCandidate_some hpath
    refine token_unique hsplit ?_
    rcases gitPath_eq hsource with ⟨hx, hhead⟩ | ⟨inner', bytes, hx, hread'⟩
    · have hfirst := head_untabbed (c := 'a') (by rw [hx]; rfl) (' ' :: y)
      rw [hsplit, htoken] at hfirst
      cases hfirst
    · have hfront : ∃ r, x ++ ' ' :: y = '"' :: (inner' ++ '"' :: r) := by
        rcases untabbed_cases x with hsame | htab
        · exact ⟨' ' :: y, by rw [hsame, hx]; simp⟩
        · exact ⟨'\t' :: ' ' :: y, by rw [htab, hx]; simp⟩
      obtain ⟨r, hr⟩ := hfront
      rw [hr, htoken, List.append_assoc, List.cons_append] at hsplit
      have hinner := quoted_unique hread' hread (List.cons.inj hsplit).2
      rw [hx, htoken, hinner]

end

end Sediment.Proofs.DiffPaths

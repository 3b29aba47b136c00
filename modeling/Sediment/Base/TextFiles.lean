import Sediment.Base.Blocks

namespace Sediment.Base.TextFiles
open Blocks

/-- The universal newlines of `Path.read_text`. -/
def universalNewlines : List Char → List Char
  | [] => []
  | '\r' :: '\n' :: rest => '\n' :: universalNewlines rest
  | c :: rest => (if c = '\r' then '\n' else c) :: universalNewlines rest

theorem universalNewlines_cons {c : Char} (hc : c ≠ '\r') (rest : List Char) :
    universalNewlines (c :: rest) = c :: universalNewlines rest := by
  rw [universalNewlines, if_neg hc]
  rintro tail rfl
  exact absurd rfl hc

/-- A text without carriage returns is read as it is. -/
theorem universalNewlines_of_not_mem {text : List Char} (h : '\r' ∉ text) :
    universalNewlines text = text := by
  induction text with
  | nil => rfl
  | cons c rest ih =>
    rw [List.mem_cons, not_or] at h
    rw [universalNewlines_cons (Ne.symm h.1), ih h.2]

theorem cr_not_mem_universalNewlines (text : List Char) : '\r' ∉ universalNewlines text := by
  induction text using universalNewlines.induct with
  | case1 => simp [universalNewlines]
  | case2 rest ih => simp [universalNewlines, ih]
  | case3 c rest hpair ih =>
    rw [universalNewlines]
    · rw [List.mem_cons, not_or]
      refine ⟨?_, ih⟩
      split
      · decide
      · rename_i hc
        exact Ne.symm hc
    · exact hpair

theorem universalNewlines_eq_self {text : List Char} :
    universalNewlines text = text ↔ '\r' ∉ text := by
  constructor
  · intro h
    rw [← h]
    exact cr_not_mem_universalNewlines text
  · exact universalNewlines_of_not_mem

/-- Reading a text makes no mark that is on one line. -/
theorem prefix_of_universalNewlines {mark : List Char} (hm : '\n' ∉ mark) {text : List Char}
    (h : mark <+: universalNewlines text) : mark <+: text := by
  induction mark generalizing text with
  | nil => exact List.nil_prefix
  | cons c mark ih =>
    rw [List.mem_cons, not_or] at hm
    cases text with
    | nil => exact h
    | cons d rest =>
      by_cases hd : d = '\r'
      · subst hd
        have hnewline : ∃ tail, universalNewlines ('\r' :: rest) = '\n' :: tail := by
          cases rest with
          | nil => exact ⟨_, rfl⟩
          | cons e rest =>
            by_cases he : e = '\n'
            · subst he
              exact ⟨_, rfl⟩
            · rw [universalNewlines, if_pos rfl]
              · exact ⟨_, rfl⟩
              · rintro tail - htail
                exact he (List.cons.inj htail).1
        obtain ⟨tail, htail⟩ := hnewline
        rw [htail, List.cons_prefix_cons] at h
        exact absurd h.1.symm hm.1
      · rw [universalNewlines_cons hd, List.cons_prefix_cons] at h
        rw [List.cons_prefix_cons]
        exact ⟨h.1, ih hm.2 h.2⟩

/-- What is read behind some point of a text is what is behind some point of the file. -/
theorem suffix_of_universalNewlines {text back : List Char} (h : back <:+ universalNewlines text) :
    ∃ rest, rest <:+ text ∧ universalNewlines rest = back := by
  induction text using universalNewlines.induct with
  | case1 => exact ⟨[], List.suffix_rfl, (List.suffix_nil.mp h).symm⟩
  | case2 rest ih =>
    rw [universalNewlines, List.suffix_cons_iff] at h
    obtain rfl | hback := h
    · exact ⟨_, List.suffix_rfl, rfl⟩
    · obtain ⟨tail, htail, rfl⟩ := ih hback
      exact ⟨tail, htail.trans (List.suffix_append ['\r', '\n'] rest), rfl⟩
  | case3 c rest hpair ih =>
    rw [universalNewlines, List.suffix_cons_iff] at h
    · obtain rfl | hback := h
      · refine ⟨_, List.suffix_rfl, ?_⟩
        rw [universalNewlines]
        exact hpair
      · obtain ⟨tail, htail, rfl⟩ := ih hback
        exact ⟨tail, htail.trans (List.suffix_cons c rest), rfl⟩
    · exact hpair

theorem free_universalNewlines {m : Mark Char} (hm : '\n' ∉ m.text) {text : List Char}
    (h : m.Free text) : m.Free (universalNewlines text) := by
  intro hin
  obtain ⟨back, hpre, hback⟩ := List.infix_iff_prefix_suffix.mp hin
  obtain ⟨rest, hrest, rfl⟩ := suffix_of_universalNewlines hback
  exact h ((prefix_of_universalNewlines hm hpre).isInfix.trans hrest.isInfix)

end Sediment.Base.TextFiles

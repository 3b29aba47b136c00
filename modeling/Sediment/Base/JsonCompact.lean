import Sediment.Base.JsonRender
import Sediment.Base.JsonLoads

namespace Sediment.Base.JsonScan

/-- `json.dumps(value, separators=(",", ":"))`. -/
def compact {φ : Type} (float : φ → Text) : Style Text φ where
  quote t := (quoteText t).map Char.toNat
  float := float
  comma := [44]
  colon := [58]

/-- No pair of surrogates stands for one code point. -/
def Plain (t : Text) : Prop := reread t = t

theorem flatMap_utf16 (s : List Char) (u : List Nat) :
    joinSurrogates ((s.map Char.toNat).flatMap utf16 ++ u) =
      s.map Char.toNat ++ joinSurrogates u := by
  induction s with
  | nil => rfl
  | cons c s ih =>
    have hvalid := c.valid
    have hn : c.toNat < 55296 ∨ (57343 < c.toNat ∧ c.toNat < 1114112) := hvalid
    have hsingle : ∀ n rest, ¬(55296 ≤ n ∧ n < 56320) →
        joinSurrogates (n :: rest) = n :: joinSurrogates rest := by
      intro n rest hno
      cases rest with
      | nil => rfl
      | cons m rest =>
        rw [joinSurrogates, if_neg (fun h => hno ⟨h.1, h.2.1⟩)]
    rw [List.map_cons, List.flatMap_cons, List.append_assoc, List.cons_append, ← ih, utf16]
    split
    · rw [List.singleton_append, hsingle _ _ (by omega)]
    · have hcode : 65536 + (55296 + (c.toNat - 65536) / 1024 % 1024 - 55296) * 1024 +
          (56320 + (c.toNat - 65536) % 1024 - 56320) = c.toNat := by omega
      rw [List.cons_append, List.singleton_append, joinSurrogates, if_pos (by omega), hcode]

/-- Characters are no surrogates. -/
theorem plain_toNat (s : List Char) : Plain (s.map Char.toNat) := by
  have hsplit := flatMap_utf16 s []
  rw [List.append_nil] at hsplit
  rw [Plain, reread, hsplit]
  exact List.append_nil _

theorem plain_codePoints (s : String) : Plain (codePoints s) := plain_toNat s.toList

theorem quoteText_inj {t u : Text} {r s : List Char} (ht : Plain t) (hu : Plain u)
    (h : quoteText t ++ r = quoteText u ++ s) : t = u ∧ r = s := by
  obtain ⟨tail, hleft, hscan⟩ := scanString_quoteText t r
  obtain ⟨tail', hright, hscan'⟩ := scanString_quoteText u s
  rw [hleft, hright] at h
  rw [(List.cons.inj h).2, hscan'] at hscan
  obtain ⟨htu, hrs⟩ := Prod.mk.inj (Option.some.inj hscan)
  rw [ht, hu] at htu
  exact ⟨htu.symm, hrs.symm⟩

theorem map_ofNat_toNat (s : List Char) : (s.map Char.toNat).map Char.ofNat = s := by
  rw [List.map_map]
  exact List.map_id'' (fun c => Char.ofNat_toNat c) s

/-- Values without floats are told apart by their texts. -/
theorem compact_legible (float : Empty → Text) :
    (compact float).Legible Plain (fun _ => True) where
  quoted t := ⟨_, rfl⟩
  quote_inj t u r s ht hu h := by
    have hchars := congrArg (List.map Char.ofNat) h
    simp only [compact, List.map_append, map_ofNat_toNat] at hchars
    obtain ⟨htu, -⟩ := quoteText_inj ht hu hchars
    rw [htu] at h
    exact ⟨htu, List.append_cancel_left h⟩
  float_stop x := x.elim
  float_marked x := x.elim
  float_head x := x.elim
  float_inj x := x.elim
  comma := ⟨[], rfl⟩

def Scalar (n : Nat) : Prop := ∃ c : Char, c.toNat = n

theorem plain_of_scalar {t : Text} (h : ∀ n ∈ t, Scalar n) : Plain t := by
  have hchars : ∃ s : List Char, t = s.map Char.toNat := by
    induction t with
    | nil => exact ⟨[], rfl⟩
    | cons n t ih =>
      obtain ⟨c, hc⟩ := h n (by simp)
      obtain ⟨s, hs⟩ := ih (fun m hm => h m (by simp [hm]))
      exact ⟨c :: s, by rw [List.map_cons, hc, hs]⟩
  obtain ⟨s, hs⟩ := hchars
  rw [hs]
  exact plain_toNat s

theorem scalar_toNat {s : List Char} {n : Nat} (h : n ∈ s.map Char.toNat) : Scalar n := by
  obtain ⟨c, -, hc⟩ := List.mem_map.mp h
  exact ⟨c, hc⟩

theorem mem_joined {σ φ : Type} {w : Style σ φ} {close n : Nat} {items : List Text}
    (h : n ∈ joined w close items) :
    n = close ∨ n ∈ w.comma ∨ ∃ item ∈ items, n ∈ item := by
  cases items with
  | nil => exact .inl (by simpa [joined] using h)
  | cons item rest =>
    simp only [joined, List.mem_append, List.mem_flatMap, List.mem_singleton] at h
    rcases h with h | ⟨other, hother, h | h⟩ | h
    · exact .inr (.inr ⟨item, by simp, h⟩)
    · exact .inr (.inl h)
    · exact .inr (.inr ⟨other, by simp [hother], h⟩)
    · exact .inl h

/-- What is written without floats is made of characters. -/
theorem compact_scalar {v : Json Text Empty} {float : Empty → Text} {P : Text → Prop}
    {F : Empty → Prop} (hv : Clean P F v) : ∀ n ∈ render (compact float) v, Scalar n := by
  have hcode : ∀ s : String, ∀ n ∈ codePoints s, Scalar n := fun s n hn => scalar_toNat hn
  have hmark : ∀ c : Char, Scalar c.toNat := fun c => ⟨c, rfl⟩
  induction hv with
  | null => exact hcode _
  | bool b => cases b <;> exact hcode _
  | int n => exact hcode _
  | @float x hx => exact x.elim
  | str ht => exact fun n hn => scalar_toNat hn
  | arr hitems ih =>
    intro n hn
    rw [render, List.mem_cons, renderItems_eq] at hn
    rcases hn with hn | hn
    · exact hn ▸ hmark '['
    · rcases mem_joined hn with hn | hn | ⟨item, hitem, hn⟩
      · exact hn ▸ hmark ']'
      · rw [List.mem_singleton.mp hn]
        exact hmark ','
      · obtain ⟨v, hv, rfl⟩ := List.mem_map.mp hitem
        exact ih v hv n hn
  | obj hkeys hfields ih =>
    intro n hn
    rw [render, List.mem_cons, renderFields_eq] at hn
    rcases hn with hn | hn
    · exact hn ▸ hmark '\x7b'
    · rcases mem_joined hn with hn | hn | ⟨item, hitem, hn⟩
      · exact hn ▸ hmark '\x7d'
      · rw [List.mem_singleton.mp hn]
        exact hmark ','
      · obtain ⟨p, hp, rfl⟩ := List.mem_map.mp hitem
        rw [renderField, List.mem_append, List.mem_append] at hn
        rcases hn with hn | hn | hn
        · exact scalar_toNat hn
        · rw [List.mem_singleton.mp hn]
          exact hmark ':'
        · exact ih p hp n hn

/-- `text.encode()`. -/
def encodeUtf8 (s : List Char) : List Nat := (s.flatMap String.utf8EncodeChar).map UInt8.toNat

/-- `data.decode()`; `none` stands for `UnicodeDecodeError`. -/
def decodeUtf8? (bytes : List Nat) : Option (List Char) :=
  ((bytes.map UInt8.ofNat).toByteArray.utf8Decode?).map Array.toList

theorem encodeUtf8_lt (s : List Char) : ∀ b ∈ encodeUtf8 s, b < 256 := by
  intro b hb
  obtain ⟨x, -, hx⟩ := List.mem_map.mp hb
  rw [← hx]
  exact x.toNat_lt

theorem decodeUtf8_encodeUtf8 (s : List Char) : decodeUtf8? (encodeUtf8 s) = some s := by
  have hbytes : (encodeUtf8 s).map UInt8.ofNat = s.flatMap String.utf8EncodeChar := by
    rw [encodeUtf8, List.map_map]
    exact List.map_id'' (fun b => UInt8.ofNat_toNat) _
  have hdecode : (s.flatMap String.utf8EncodeChar).toByteArray.utf8Decode? = some s.toArray :=
    List.utf8Decode?_utf8Encode
  rw [decodeUtf8?, hbytes, hdecode]
  rfl

/-- The text of an array of strings. -/
def stringsText (ts : List Text) : List Char :=
  (render (compact (φ := Empty) Empty.elim) (.arr (ts.map .str))).map Char.ofNat

theorem loadOnce_quoteText (d : Nat) (t : Text) (rest : List Char) :
    loadOnce d (quoteText t ++ rest) = .ok (.str (reread t), rest) := by
  obtain ⟨tail, he, hs⟩ := scanString_quoteText t rest
  rw [he]
  cases d <;> simp [loadOnce, scanScalar, hs, orValueError]

theorem loadItems_strings (d : Nat) (ts : List Text) (t : Text) (rest : List Char) (n : Nat)
    (hn : ts.length < n) :
    loadItems (loadOnce d) n (quoteText t ++ (ts.flatMap (fun u => ',' :: quoteText u) ++
      (']' :: rest))) = .ok ((t :: ts).map (fun u => .str (reread u)), rest) := by
  induction ts generalizing t n with
  | nil =>
    cases n with
    | zero => cases hn
    | succ n =>
      rw [loadItems, loadOnce_quoteText]
      rfl
  | cons u ts ih =>
    cases n with
    | zero => cases hn
    | succ n =>
      have hrest := ih u n (by simpa using hn)
      have hblank : skipBlanks (quoteText u ++ (ts.flatMap (fun u => ',' :: quoteText u) ++
          (']' :: rest))) = quoteText u ++ (ts.flatMap (fun u => ',' :: quoteText u) ++
          (']' :: rest)) := rfl
      rw [loadItems, loadOnce_quoteText]
      simp only [bind, Except.bind, List.flatMap_cons, List.cons_append, List.append_assoc,
        skipBlanks_cons (c := ',') rfl]
      rw [hblank, hrest]
      rfl

theorem stringsText_cons (t : Text) (ts : List Text) : stringsText (t :: ts) =
    '[' :: (quoteText t ++ (ts.flatMap (fun u => ',' :: quoteText u) ++ [']'])) := by
  have htail : ∀ us : List Text, ((us.map (fun u => (quoteText u).map Char.toNat)).flatMap
      ([44] ++ ·)).map Char.ofNat = us.flatMap (fun u => ',' :: quoteText u) := by
    intro us
    induction us with
    | nil => rfl
    | cons u us ih =>
      rw [List.map_cons, List.flatMap_cons, List.map_append, ih, List.map_append,
        map_ofNat_toNat, List.flatMap_cons]
      rfl
  have hitems : ∀ us : List Text, render.renderItems (compact (φ := Empty) Empty.elim)
      (us.map .str) = us.map (fun u => (quoteText u).map Char.toNat) := by
    intro us
    rw [renderItems_eq, List.map_map]
    rfl
  have hjoined : (joined (compact (φ := Empty) Empty.elim) 93
      ((t :: ts).map (fun u => (quoteText u).map Char.toNat))).map Char.ofNat =
        quoteText t ++ (ts.flatMap (fun u => ',' :: quoteText u) ++ [']']) := by
    rw [List.map_cons, joined, List.map_append, map_ofNat_toNat, List.map_append]
    exact congrArg (fun s => quoteText t ++ (s ++ [']'])) (htail ts)
  rw [stringsText, render, hitems, List.map_cons, hjoined]

/-- An array of strings is read back as one. -/
theorem loads_stringsText (d : Nat) {ts : List Text} (hne : ts ≠ []) (h : ∀ t ∈ ts, Plain t) :
    loads (d + 1) (stringsText ts) = .ok (.arr (ts.map .str)) := by
  obtain ⟨t, ts, rfl⟩ := List.exists_cons_of_ne_nil hne
  have hplain : (t :: ts).map (fun u => (Json.str (reread u) : JsonValue)) =
      (t :: ts).map .str :=
    List.map_congr_left (fun u hu => by rw [h u hu])
  have hlen : ∀ us : List Text,
      us.length ≤ (us.flatMap (fun u => ',' :: quoteText u)).length := by
    intro us
    induction us with
    | nil => simp
    | cons u us ih =>
      simp only [List.flatMap_cons, List.length_append, List.length_cons]
      omega
  have hitems := loadItems_strings d ts t [] ((quoteText t ++ (ts.flatMap
    (fun u => ',' :: quoteText u) ++ [']'])).length + 1) (by
      have hts := hlen ts
      simp only [List.length_append]
      omega)
  have hload : loadArray (loadOnce d) (quoteText t ++ (ts.flatMap
      (fun u => ',' :: quoteText u) ++ [']'])) = .ok (.arr ((t :: ts).map .str), []) := by
    have harray : ∀ s : List Char, loadArray (loadOnce d) ('"' :: s) =
        (loadItems (loadOnce d) (('"' :: s).length + 1) ('"' :: s)).map
          (fun p => (.arr p.1, p.2)) := fun _ => rfl
    obtain ⟨s, hs⟩ := quoteText_head t
    rw [hs] at hitems ⊢
    rw [List.cons_append] at hitems ⊢
    rw [harray, hitems, hplain]
    rfl
  have honce : loadOnce (d + 1) (stringsText (t :: ts)) = .ok (.arr ((t :: ts).map .str), []) := by
    rw [stringsText_cons, loadOnce, hload]
  have hblank : skipBlanks (stringsText (t :: ts)) = stringsText (t :: ts) := by
    rw [stringsText_cons]
    rfl
  have hmark : (stringsText (t :: ts)).head? ≠ some '\uFEFF' := by
    rw [stringsText_cons, List.head?_cons]
    decide
  rw [loads, if_neg hmark, hblank, honce]
  rfl

end Sediment.Base.JsonScan

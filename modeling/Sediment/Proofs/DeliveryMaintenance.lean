import Sediment.Proofs.DeliveryEffects
import Sediment.Proofs.DeliveryRoundTrip

namespace Sediment.Proofs.DeliveryMaintenance
open Base Journal
open Sediment.Core Urls
open Cli.Delivery DeliveryIdentity DeliveryEntry DeliveryRoundTrip DeliveryEffects

section
variable {τ : Type} [Clock τ] [JsonBytes] {runtime : Runtime} {final : Prop}
  {spared : List Char → Prop} {now : τ}

/-- A readable receipt that is not old enough to go. -/
def Recent (runtime : Runtime) (now : τ) (d : Directory) (id : List Char) : Prop :=
  ∃ r : Receipt τ, readReceipt runtime d id = .ok r ∧
    Clock.elapsed now r.completedAt < receiptRetention

theorem Recent.congr {d d' : Directory} {id : List Char} (h : Recent runtime now d id)
    (hr : d'.receipts.get? id = d.receipts.get? id) : Recent runtime now d' id := by
  obtain ⟨r, hread, hrecent⟩ := h
  refine ⟨r, ?_, hrecent⟩
  rw [← hread]
  simp only [readReceipt, hr]

theorem Recent.removed {d : Directory} {id k : List Char} (h : Recent runtime now d k)
    (hne : k ≠ id) : Recent runtime now (Op.apply (.removeReceipt id) d) k :=
  h.congr ((get?_without d.receipts id k).trans (if_neg hne))

/-- The loop over the receipts: the names that are left, and what is retained so far. -/
structure Retaining (runtime : Runtime) (now : τ) (es : Dict (List Char) Bytes)
    (xs : List (List Char)) (retained : List (τ × List Char)) (d : Directory) : Prop where
  entries : d.entries = es
  temporaries : d.temporaries = 0
  nodup : (retained.map Prod.snd ++ xs).Nodup
  names : ∀ id, d.receipts.get? id ≠ none ↔ id ∈ retained.map Prod.snd ++ xs
  alone : ∀ id, d.receipts.get? id ≠ none → es.get? id = none
  recent : ∀ id ∈ retained.map Prod.snd, Recent runtime now d id

omit [JsonBytes] in
theorem surplus_subset {retained : List (τ × List Char)} {id : List Char}
    (h : id ∈ surplus retained) : id ∈ retained.map Prod.snd := by
  obtain ⟨r, hr, rfl⟩ := List.mem_map.mp h
  exact List.mem_map_of_mem (mem_sortedBy.mp (List.mem_of_mem_take hr))

omit [JsonBytes] in
theorem surplus_nil {retained : List (τ × List Char)} (h : retained.length ≤ maxReceipts) :
    surplus retained = [] := by
  rw [surplus, Nat.sub_eq_zero_of_le h, List.take_zero, List.map_nil]

/-- The receipts that are left when the surplus goes. -/
structure Dropping (runtime : Runtime) (now : τ) (es : Dict (List Char) Bytes)
    (retained : List (τ × List Char)) (xs : List (List Char)) (d : Directory) : Prop where
  entries : d.entries = es
  temporaries : d.temporaries = 0
  ahead : ∀ id ∈ xs, es.get? id = none
  names : ∀ id, d.receipts.get? id ≠ none →
    id ∈ retained.map Prod.snd ∧ (id ∈ surplus retained → id ∈ xs)
  alone : ∀ id, d.receipts.get? id ≠ none → es.get? id = none
  recent : ∀ id, d.receipts.get? id ≠ none → Recent runtime now d id

/-- Without the surplus at most the greatest number of receipts is left. -/
theorem Dropping.number {es : Dict (List Char) Bytes} {retained : List (τ × List Char)}
    {d : Directory} (h : Dropping runtime now es retained [] d) :
    d.receipts.entries.length ≤ maxReceipts := by
  have hsorted : ((sortedBy (fun r => toLex (r.1, receiptName r.2)) retained).map Prod.snd).Perm
      (retained.map Prod.snd) := (sortedBy_perm _ _).map _
  generalize hlist : sortedBy (fun r : τ × List Char => toLex (r.1, receiptName r.2)) retained =
    sorted at hsorted
  have hlen : sorted.length = retained.length := by simpa using hsorted.length_eq
  have hleft : d.receipts.keys ⊆ (sorted.drop (retained.length - maxReceipts)).map Prod.snd := by
    intro id hid
    obtain ⟨hmem, hsurplus⟩ := h.names id (by
      obtain ⟨v, hv⟩ := (Dict.mem_keys_iff _).mp hid
      simp [hv])
    have hcut := hsorted.mem_iff.mpr hmem
    rw [← List.take_append_drop (retained.length - maxReceipts) sorted, List.map_append,
      List.mem_append] at hcut
    rcases hcut with htake | hdrop
    · rw [← hlist] at htake
      exact absurd (hsurplus htake) (List.not_mem_nil)
    · exact hdrop
  have hcount := (List.subperm_of_subset d.receipts.nodup_keys hleft).length_le
  rw [Dict.keys, List.length_map, List.length_map, List.length_drop, hlen] at hcount
  omega

variable [UnicodeText] [IpAddresses] [DatetimeReader]

theorem removeReceipt_spec {es : Dict (List Char) Bytes} {retained : List (τ × List Char)}
    {E : Failure → Directory → Prop} (x : List Char) (xs : List (List Char)) :
    Triple (Guard τ runtime final spared) (Dropping runtime now es retained (x :: xs))
      (perform (.removeReceipt x)) (fun _ => Dropping runtime now es retained xs) E := by
  refine Triple.perform (fun d hd => ⟨?_, hd.entries, hd.temporaries,
    fun k hk => hd.ahead k (by simp [hk]), ?_, ?_, ?_⟩)
  · change d.entries.get? x = none
    rw [hd.entries, hd.ahead x (by simp)]
  · intro k hk
    obtain ⟨hkx, hk⟩ := get?_without_ne_none.mp hk
    obtain ⟨hmem, hleft⟩ := hd.names k hk
    refine ⟨hmem, fun hs => ?_⟩
    rcases List.mem_cons.mp (hleft hs) with hkx' | hxs
    · exact absurd hkx' hkx
    · exact hxs
  · exact fun k hk => hd.alone k (get?_without_ne_none.mp hk).2
  · intro k hk
    obtain ⟨hkx, hk⟩ := get?_without_ne_none.mp hk
    exact (hd.recent k hk).removed hkx

theorem retainReceipt_spec {es : Dict (List Char) Bytes} {E : Failure → Directory → Prop}
    (hE : ∀ e d, d.entries = es → E e d) (x : List Char) (xs : List (List Char))
    (retained : List (τ × List Char)) :
    Triple (Guard τ runtime final spared) (Retaining runtime now es (x :: xs) retained)
      (retainReceipt runtime now x)
      (fun found => Retaining runtime now es xs (retained ++ found.toList)) E := by
  refine Triple.read (fun d _ => ?_)
  refine Triple.bind (Q := fun r s => readReceipt runtime s x = .ok r ∧
    Retaining runtime now es (x :: xs) retained s) ?_ (fun r => ?_)
  · exact Triple.lift (fun _ hok s hs => ⟨hs.1 ▸ hok, hs.2⟩)
      (fun e _ s hs => hE e s hs.2.entries)
  split
  · refine Triple.bind (Q := fun _ => Retaining runtime now es xs retained) ?_ (fun _ => ?_)
    · refine Triple.perform ?_
      rintro s ⟨-, hs⟩
      have hx : s.receipts.get? x ≠ none := (hs.names x).mpr (by simp)
      have hmem : x ∉ retained.map Prod.snd ++ xs := by
        have hperm : (retained.map Prod.snd ++ x :: xs).Perm (x :: (retained.map Prod.snd ++ xs)) :=
          List.perm_middle
        exact (List.nodup_cons.mp (hperm.nodup_iff.mp hs.nodup)).1
      refine ⟨?_, hs.entries, hs.temporaries, ?_, ?_, ?_, ?_⟩
      · change s.entries.get? x = none
        rw [hs.entries]
        exact hs.alone x hx
      · exact hs.nodup.sublist (List.Sublist.append_left (List.sublist_cons_self x xs) _)
      · intro k
        refine get?_without_ne_none.trans ?_
        rw [hs.names k]
        by_cases hk : k = x
        · subst hk
          simpa using hmem
        · simp [hk]
      · exact fun k hk => hs.alone k (get?_without_ne_none.mp hk).2
      · intro k hk
        refine (hs.recent k hk).removed ?_
        rintro rfl
        exact hmem (List.mem_append_left _ hk)
    · exact Triple.pure (fun s hs => by simpa using hs)
  · rename_i hyoung
    refine Triple.pure ?_
    rintro s ⟨hread, hs⟩
    have hmove : ∀ rest : List (List Char),
        (retained ++ [(r.completedAt, x)]).map Prod.snd ++ rest =
          retained.map Prod.snd ++ x :: rest := by
      simp
    refine ⟨hs.entries, hs.temporaries, ?_, ?_, hs.alone, ?_⟩
    · rw [Option.toList_some, hmove]
      exact hs.nodup
    · rw [Option.toList_some, hmove]
      exact hs.names
    · intro k hk
      rw [Option.toList_some, List.map_append, List.mem_append, List.map_singleton,
        List.mem_singleton] at hk
      rcases hk with hk | rfl
      · exact hs.recent k hk
      · exact ⟨r, hread, not_le.mp hyoung⟩

/-- An entry that maintenance leaves: without a receipt, readable, and in the replay window. -/
structure Live (runtime : Runtime) (now : τ) (d : Directory) (id : List Char) : Prop where
  present : d.entries.get? id ≠ none
  alone : d.receipts.get? id = none
  recent : ∃ h : Header τ, entryHeader runtime d id = .ok h ∧
    Clock.elapsed now h.enqueuedAt < replayWindow

theorem Live.congr {d d' : Directory} {id : List Char} (h : Live runtime now d id)
    (he : d'.entries.get? id = d.entries.get? id)
    (hr : d'.receipts.get? id = d.receipts.get? id) : Live runtime now d' id where
  present := he ▸ h.present
  alone := hr ▸ h.alone
  recent := by
    rw [entryHeader_congr he]
    exact h.recent

theorem Live.identity {d : Directory} {id : List Char} (h : Live runtime now d id) :
    uuid runtime.digits id = .ok id := by
  obtain ⟨h', hok, -⟩ := h.recent
  obtain ⟨-, -, -, hid⟩ := entryHeader_ok hok
  exact uuid_idem hid

/-- Nothing happens to the entries that are live. -/
def Spares (runtime : Runtime) (now : τ) (d₀ d : Directory) : Prop :=
  ∀ id, Live runtime now d₀ id → d.entries.get? id = d₀.entries.get? id

/-- What maintenance leaves behind. -/
structure Maintained (runtime : Runtime) (now : τ) (d₀ d : Directory) : Prop where
  spares : Spares runtime now d₀ d
  gone : ∀ id, ¬Live runtime now d₀ id → d.entries.get? id = none
  alone : ∀ id, d.entries.get? id ≠ none → d.receipts.get? id = none
  normal : ∀ id, d.entries.get? id ≠ none → checkId runtime id = .ok ()
  temporaries : d.temporaries = 0
  receipts : d.receipts.entries.length ≤ maxReceipts
  recent : ∀ id, d.receipts.get? id ≠ none → Recent runtime now d id

theorem Maintained.live {d₀ d : Directory} {id : List Char} (h : Maintained runtime now d₀ d)
    (hlive : Live runtime now d₀ id) : Live runtime now d id := by
  have hsame := h.spares id hlive
  have hpresent : d.entries.get? id ≠ none := hsame ▸ hlive.present
  refine ⟨hpresent, h.alone id hpresent, ?_⟩
  rw [entryHeader_congr hsame]
  exact hlive.recent

theorem Live.closed {d : Directory} {id k : List Char} {data : Bytes}
    (h : Live runtime now d id) (hne : id ≠ k) : Live runtime now (closed d k data) id := by
  apply h.congr
  · exact (get?_without d.entries k id).trans (if_neg hne)
  · exact (Dict.get?_set d.receipts k data id).trans (if_neg hne)

/-- The loop over the entries, with the names that are left. -/
structure Sweeping (runtime : Runtime) (now : τ) (d₀ : Directory) (xs : List (List Char))
    (d : Directory) : Prop where
  nodup : xs.Nodup
  present : ∀ id ∈ xs, d₀.entries.get? id ≠ none
  ahead : ∀ id ∈ xs, d.entries.get? id = d₀.entries.get? id ∧
    d.receipts.get? id = d₀.receipts.get? id
  spares : Spares runtime now d₀ d
  gone : ∀ id ∉ xs, ¬Live runtime now d₀ id → d.entries.get? id = none
  alone : ∀ id ∉ xs, d.entries.get? id ≠ none → d.receipts.get? id = none
  normal : ∀ id ∉ xs, d.entries.get? id ≠ none → checkId runtime id = .ok ()
  temporaries : d.temporaries = 0

/-- An entry that is not live goes, with its receipt beside it. -/
theorem Sweeping.drop {d₀ d d' : Directory} {x : List Char} {xs : List (List Char)}
    (h : Sweeping runtime now d₀ (x :: xs) d) (hdead : ¬Live runtime now d₀ x)
    (he : ∀ k, d'.entries.get? k = if k = x then none else d.entries.get? k)
    (hr : ∀ k, k ≠ x → d'.receipts.get? k = d.receipts.get? k)
    (ht : d'.temporaries = d.temporaries) : Sweeping runtime now d₀ xs d' := by
  obtain ⟨hx, hxs⟩ := List.nodup_cons.mp h.nodup
  have hold : ∀ {k : List Char}, k ∉ xs → d'.entries.get? k ≠ none →
      k ∉ x :: xs ∧ d'.entries.get? k = d.entries.get? k ∧
        d'.receipts.get? k = d.receipts.get? k := by
    intro k hk hne
    rw [he] at hne ⊢
    by_cases hkx : k = x
    · simp [hkx] at hne
    · exact ⟨by simp [hkx, hk], by simp [hkx], hr k hkx⟩
  refine ⟨hxs, fun k hk => h.present k (by simp [hk]), ?_, ?_, ?_, ?_, ?_,
    ht.trans h.temporaries⟩
  · intro k hk
    have hkx : k ≠ x := fun heq => hx (heq ▸ hk)
    have hahead := h.ahead k (by simp [hk])
    rw [he, if_neg hkx, hr k hkx]
    exact hahead
  · intro k hk
    have hkx : k ≠ x := fun heq => hdead (heq ▸ hk)
    rw [he, if_neg hkx, h.spares k hk]
  · intro k hk hkdead
    rw [he]
    split
    · rfl
    · rename_i hkx
      exact h.gone k (by simp [hkx, hk]) hkdead
  · intro k hk hne
    obtain ⟨hk', hsame, hsame'⟩ := hold hk hne
    rw [hsame']
    exact h.alone k hk' (hsame ▸ hne)
  · intro k hk hne
    obtain ⟨hk', hsame, -⟩ := hold hk hne
    exact h.normal k hk' (hsame ▸ hne)

/-- A live entry stays. -/
theorem Sweeping.keep {d₀ d : Directory} {x : List Char} {xs : List (List Char)}
    (h : Sweeping runtime now d₀ (x :: xs) d) (hlive : Live runtime now d₀ x)
    (hnormal : checkId runtime x = .ok ()) : Sweeping runtime now d₀ xs d := by
  have hsplit : ∀ k ∉ xs, k = x ∨ k ∉ x :: xs := by
    intro k hk
    by_cases hkx : k = x
    · exact Or.inl hkx
    · exact Or.inr (by simp [hkx, hk])
  refine ⟨(List.nodup_cons.mp h.nodup).2, fun k hk => h.present k (by simp [hk]),
    fun k hk => h.ahead k (by simp [hk]), h.spares, ?_, ?_, ?_, h.temporaries⟩
  · intro k hk hdead
    rcases hsplit k hk with rfl | hk'
    · exact absurd hlive hdead
    · exact h.gone k hk' hdead
  · intro k hk hne
    rcases hsplit k hk with rfl | hk'
    · rw [(h.ahead k (by simp)).2]
      exact hlive.alone
    · exact h.alone k hk' hne
  · intro k hk hne
    rcases hsplit k hk with rfl | hk'
    · exact hnormal
    · exact h.normal k hk' hne

theorem maintainEntry_spec {d₀ : Directory} {known : List (List Char)}
    (hspared : ∀ id, spared id → Live runtime now d₀ id)
    (hknown : ∀ id, id ∈ known ↔ d₀.receipts.get? id ≠ none) (x : List Char)
    (xs : List (List Char)) :
    Triple (Guard τ runtime final spared) (Sweeping runtime now d₀ (x :: xs))
      (maintainEntry runtime known now x)
      (fun _ => Sweeping runtime now d₀ xs) (fun _ => Spares runtime now d₀) := by
  refine Triple.bind (Q := fun _ d => checkId runtime x = .ok () ∧
    Sweeping runtime now d₀ (x :: xs) d) ?_ (fun _ => ?_)
  · exact Triple.lift (fun _ h d hd => ⟨h, hd⟩) (fun _ _ d hd => hd.spares)
  split
  · rename_i hx
    have hdead : ¬Live runtime now d₀ x := fun hl => (hknown x).mp hx hl.alone
    -- the receipt is beside the entry until it goes
    refine Triple.bind (Q := fun _ => Sweeping runtime now d₀ xs) ?_ (fun _ => ?_)
    · refine Triple.perform (fun d hd => ⟨⟨Or.inr ?_, fun hs => hdead (hspared x hs)⟩, ?_⟩)
      · rw [(hd.2.ahead x (by simp)).2]
        exact (hknown x).mp hx
      · exact hd.2.drop hdead (fun k => get?_without d.entries x k) (fun _ _ => rfl) rfl
    · refine Triple.perform (fun d hd => ⟨trivial, ?_⟩)
      exact ⟨hd.nodup, hd.present, hd.ahead, hd.spares, hd.gone, hd.alone, hd.normal,
        hd.temporaries⟩
  · rename_i hx
    have halone : d₀.receipts.get? x = none := by
      by_contra hne
      exact hx ((hknown x).mpr hne)
    have hclose : ∀ reason : Reason, plainReason .declined reason = true →
        ¬Live runtime now d₀ x → ∀ d, Triple (Guard τ runtime final spared)
          (fun s => s = d ∧ checkId runtime x = .ok () ∧ Sweeping runtime now d₀ (x :: xs) s)
          (receipt (disposed x .declined reason) now) (fun _ => Sweeping runtime now d₀ xs)
          (fun _ => Spares runtime now d₀) := by
      intro reason hreason hdead d
      apply receipt_spec
      · rintro s ⟨-, -, hs⟩ - -
        exact (hs.ahead x (by simp)).2.trans halone
      · exact fun s hs _ => checkId_ok hs.2.1
      · exact fun hs => hdead (hspared x hs)
      · exact declined_closes x hreason
      · rintro s ⟨-, -, hs⟩
        refine hs.drop hdead (fun k => get?_without s.entries x k) (fun k hk => ?_) rfl
        exact (Dict.get?_set s.receipts x _ k).trans (if_neg hk)
    refine Triple.read (fun d hd => ?_)
    have hsame := (hd.2.ahead x (by simp)).1
    have hheader : (entryHeader runtime d x : Except Failure (Header τ)) =
        entryHeader runtime d₀ x := entryHeader_congr hsame
    split
    · rename_i h hok
      rw [hheader] at hok
      split
      · rename_i hrecent
        refine Triple.pure (fun s hs => hs.2.2.keep ?_ hs.2.1)
        exact ⟨hs.2.2.present x (by simp), halone, h, hok, hrecent⟩
      · rename_i hold
        refine hclose .expired rfl ?_ d
        rintro ⟨-, -, h', hok', hrecent⟩
        rw [hok] at hok'
        cases hok'
        exact hold hrecent
    · rename_i herr
      rw [hheader] at herr
      refine hclose .invalidRecord rfl ?_ d
      rintro ⟨-, -, h', hok', -⟩
      rw [herr] at hok'
      cases hok'
    · exact Triple.fail (fun s hs => hs.2.2.spares)

theorem maintenance_spec {d₀ : Directory} (hspared : ∀ id, spared id → Live runtime now d₀ id) :
    Triple (Guard τ runtime final spared) (fun d => d = d₀) (maintenance runtime now)
      (fun _ => Maintained runtime now d₀) (fun _ => Spares runtime now d₀) := by
  have hstart : Spares runtime now d₀ d₀ := fun _ _ => rfl
  refine Triple.read (fun d hd => ?_)
  subst hd
  refine Triple.bind (Q := fun _ s => s = d) ?_ (fun _ => ?_)
  · refine (Triple.each (I := fun _ s => s = d) (fun x xs => ?_) _).consequence
      (fun s hs => hs.1) (fun _ _ hs => hs) (fun _ _ hs => hs)
    exact Triple.lift (fun _ _ s hs => hs) (fun _ _ s hs => hs ▸ hstart)
  refine Triple.bind (Q := fun _ s => s = { d with temporaries := 0 }) ?_ (fun _ => ?_)
  · refine (Triple.each (I := fun (xs : List Nat) s => s = { d with temporaries := xs.length })
      (E := fun _ => Spares runtime now d) (fun x xs => ?_) _).consequence
      ?_ (fun _ _ hs => hs) (fun _ _ hs => hs)
    · exact Triple.perform (fun s hs => ⟨trivial, by rw [hs]; rfl⟩)
    · rintro s rfl
      simp
  refine Triple.bind (Q := fun _ => Sweeping runtime now d []) ?_ (fun _ => ?_)
  · refine (Triple.each
      (fun x xs => maintainEntry_spec hspared (fun id => mem_names) x xs) _).consequence
      ?_ (fun _ _ hs => hs) (fun _ _ hs => hs)
    rintro s rfl
    refine ⟨names_nodup _ _, fun id => mem_names.mp, fun _ _ => ⟨rfl, rfl⟩, hstart, ?_, ?_, ?_, rfl⟩
    · intro id hid _
      by_contra hne
      exact hid (mem_names.mpr hne)
    · exact fun id hid hne => absurd (mem_names.mpr hne) hid
    · exact fun id hid hne => absurd (mem_names.mpr hne) hid
  refine Triple.read (fun d' hswept => ?_)
  have hspares : ∀ s : Directory, s.entries = d'.entries → Spares runtime now d s :=
    fun s hs id hid => hs ▸ hswept.spares id hid
  refine Triple.bind (Q := fun retained : List (τ × List Char) =>
    Retaining runtime now d'.entries [] retained) ?_ (fun retained => ?_)
  · refine (Triple.collect (fun x xs found => retainReceipt_spec
      (fun _ s => hspares s) x xs found) _ []).consequence ?_ (fun _ _ hs => hs) (fun _ _ hs => hs)
    rintro s ⟨rfl, -⟩
    refine ⟨rfl, hswept.temporaries, names_nodup _ _, fun id => mem_names.symm, ?_, by simp⟩
    intro id hid
    by_contra hne
    exact hid (hswept.alone id (by simp) hne)
  · intro s hs
    refine (Triple.each (I := Dropping runtime now d'.entries retained)
      (E := fun _ => Spares runtime now d) (fun x xs => removeReceipt_spec x xs)
      (surplus retained)).consequence
      (Q := fun _ => Maintained runtime now d) ?_ ?_ (fun _ _ h => h) s hs
    · intro s hs
      refine ⟨hs.entries, hs.temporaries, ?_, ?_, hs.alone, ?_⟩
      · intro id hid
        refine hs.alone id ((hs.names id).mpr ?_)
        rw [List.append_nil]
        exact surplus_subset hid
      · intro id hid
        have hmem := (hs.names id).mp hid
        rw [List.append_nil] at hmem
        exact ⟨hmem, fun hsurplus => hsurplus⟩
      · intro id hid
        have hmem := (hs.names id).mp hid
        rw [List.append_nil] at hmem
        exact hs.recent id hmem
    · intro _ s hs
      refine ⟨hspares s hs.entries, ?_, ?_, ?_, hs.temporaries, hs.number, hs.recent⟩
      · intro id hdead
        rw [hs.entries]
        exact hswept.gone id (by simp) hdead
      · intro id hne
        by_contra hreceipt
        rw [hs.entries] at hne
        exact hne (hs.alone id hreceipt)
      · intro id hne
        rw [hs.entries] at hne
        exact hswept.normal id (by simp) hne

/-- Wherever a maintenance stops, the live entries have their bytes; when it is through, it has
left these entries only, no receipt beside them, and no more receipts than are retained. -/
theorem maintenance_exact (d : Directory) :
    (∀ n id, Live runtime now d id →
      (after d ((maintenance runtime now d).1.take n)).entries.get? id = d.entries.get? id) ∧
    ((maintenance runtime now d).2 = .ok () →
      Maintained runtime now d (after d (maintenance runtime now d).1)) := by
  have hspec : Triple (Guard τ runtime False (Live runtime now d)) (fun s => s = d)
      (maintenance runtime now) _ _ := maintenance_spec (fun _ h => h)
  obtain ⟨hallowed, hends⟩ := hspec d rfl
  constructor
  · intro n id hlive
    obtain ⟨file, hfile⟩ := Option.ne_none_iff_exists'.mp hlive.present
    rw [hfile]
    refine (hallowed.take n).keeps (I := fun s => s.entries.get? id = some file) ?_ hfile
    intro s op hguard hs
    rcases hguard.entry hs with hstay | ⟨-, hspared, -⟩
    · exact hstay
    · exact absurd hlive hspared
  · intro hok
    rw [hok] at hends
    exact hends

/-- A directory of which every entry and every receipt stays. -/
structure Kept (runtime : Runtime) (now : τ) (d : Directory) : Prop where
  live : ∀ id, d.entries.get? id ≠ none → Live runtime now d id
  normal : ∀ id, d.entries.get? id ≠ none → checkId runtime id = .ok ()
  temporaries : d.temporaries = 0
  receipts : d.receipts.entries.length ≤ maxReceipts
  recent : ∀ id, d.receipts.get? id ≠ none → Recent runtime now d id

theorem Maintained.kept {d₀ d : Directory} (h : Maintained runtime now d₀ d) :
    Kept runtime now d where
  live := by
    intro id hid
    refine h.live ?_
    by_contra hdead
    exact hid (h.gone id hdead)
  normal := h.normal
  temporaries := h.temporaries
  receipts := h.receipts
  recent := h.recent

theorem Kept.maintenance {d : Directory} (h : Kept runtime now d) :
    maintenance runtime now d = ([], .ok ()) := by
  have hloop : ∀ id ∈ names d.receipts ".receipt", retainReceipt runtime now id d =
      ([], .ok ((readReceipt runtime d id : Except Failure (Receipt τ)).toOption.map
        (fun r => (r.completedAt, id)))) := by
    intro id hid
    obtain ⟨r, hread, hrecent⟩ := h.recent id (mem_names.mp hid)
    rw [retainReceipt, read_silent, lift_silent hread, if_neg (not_le.mpr hrecent), hread]
    rfl
  have hcount : (names d.receipts ".receipt").length ≤ maxReceipts := by
    rw [names, length_sortedBy, Dict.keys, List.length_map]
    exact h.receipts
  have hfew : surplus ((names d.receipts ".receipt").filterMap (fun id =>
      (readReceipt runtime d id : Except Failure (Receipt τ)).toOption.map
        (fun r => (r.completedAt, id)))) = [] :=
    surplus_nil ((List.length_filterMap_le _ _).trans hcount)
  rw [Cli.Delivery.maintenance, read_silent]
  change (each _ (names d.receipts ".receipt") >>= _) d = _
  rw [bind_silent (each_silent ?_)]
  rw [bind_silent (each_silent ?_)]
  rw [bind_silent (each_silent ?_)]
  rw [read_silent, bind_silent (collect_silent hloop), hfew]
  · rfl
  · intro id hid
    have hpresent := mem_names.mp hid
    obtain ⟨-, halone, head, hh, hrecent⟩ := h.live id hpresent
    have hknown : id ∉ names d.receipts ".receipt" := fun hmem => mem_names.mp hmem halone
    rw [maintainEntry, lift_silent (h.normal id hpresent), if_neg hknown, read_silent, hh]
    simp only
    rw [if_pos hrecent]
    rfl
  · intro n hn
    rw [h.temporaries] at hn
    cases hn
  · intro id hid
    obtain ⟨r, hread, -⟩ := h.recent id (mem_names.mp hid)
    rw [hread]
    rfl

/-- What maintenance has left it leaves as it is when it comes again at the same time. -/
theorem maintenance_again (d : Directory) (h : (maintenance runtime now d).2 = .ok ()) :
    maintenance runtime now (after d (maintenance runtime now d).1) = ([], .ok ()) :=
  ((maintenance_exact d).2 h).kept.maintenance

end

section
local instance : UnicodeText := ServerUrls.asciiText
local instance : IpAddresses := ServerUrls.noAddresses
local instance : DatetimeReader := isoReader
local instance : Clock Seconds := secondsClock
local instance : Sha256 := bodyDigests
local instance : JsonBytes := noBytes

def plainRuntime : Runtime := ⟨Decimals.DigitTable.plain, 1⟩

/-- A week behind the early time. -/
def lateTime : Seconds := ⟨604900, by decide⟩

def numberedId (n : Char) : List Char := n :: preparedRequest.deliveryId.tail

def expiredEntry : Bytes :=
  entryFile (headerFor { preparedRequest with deliveryId := numberedId '1' } earlyTime) someBody

def liveEntry : Bytes := entryFile (headerFor preparedRequest lateTime) someBody

def receiptAt (id : List Char) (now : Seconds) : Bytes :=
  Receipt.encoded ⟨disposed id .declined .expired, now⟩

/-- An expired entry and a live one, an old receipt and a recent one, and a temporary file. -/
def mixedDirectory : Directory where
  entries := (Dict.empty.set (numberedId '1') expiredEntry).set preparedRequest.deliveryId liveEntry
  states := .empty
  receipts := (Dict.empty.set (numberedId '2') (receiptAt (numberedId '2') earlyTime)).set
    (numberedId '3') (receiptAt (numberedId '3') lateTime)
  temporaries := 1

theorem live_readable :
    Readable plainRuntime.digits (headerFor preparedRequest lateTime) :=
  header_readable asciiText_lower noAddresses_case isoReader_lawful bodyDigests_law
    request_prepared ((prepared_destination_iff asciiText_lower noAddresses_case
      (prepare_ok request_prepared).2.2.2.1).mpr destination_kept) lateTime

/-- The header of the live entry is read back whatever body of its size stands behind it. -/
theorem live_header {d : Directory} {body : Bytes} (hbody : body.length = someBody.length)
    (hfile : d.entries.get? preparedRequest.deliveryId =
      some (entryFile (headerFor preparedRequest lateTime) body)) :
    entryHeader plainRuntime d preparedRequest.deliveryId =
      .ok (headerFor preparedRequest lateTime) := by
  apply header_written secondsClock_laws live_readable hbody 0
  rwa [← entryFiles_entryName] at hfile

theorem mixed_maintenance : maintenance plainRuntime lateTime mixedDirectory =
    ([.removeTemporary, .createTemporary,
      .publishReceipt (numberedId '1') (receiptAt (numberedId '1') lateTime),
      .removeEntry (numberedId '1'), .removeState (numberedId '1'),
      .removeReceipt (numberedId '2')], .ok ()) := by
  decide +kernel

/-- The live entry stays where the expired one and the old receipt go. -/
theorem mixed_maintained :
    (∀ n, (after mixedDirectory ((maintenance plainRuntime lateTime mixedDirectory).1.take
      n)).entries.get? preparedRequest.deliveryId = some liveEntry) ∧
    Maintained plainRuntime lateTime mixedDirectory
      (after mixedDirectory (maintenance plainRuntime lateTime mixedDirectory).1) := by
  have hpresent : mixedDirectory.entries.get? preparedRequest.deliveryId = some liveEntry :=
    (Dict.get?_set _ _ _ _).trans (if_pos rfl)
  have hlive : Live plainRuntime lateTime mixedDirectory preparedRequest.deliveryId :=
    ⟨by simp [hpresent], by decide +kernel, _, live_header rfl hpresent, by decide +kernel⟩
  obtain ⟨hkept, hends⟩ : (∀ n id, Live plainRuntime lateTime mixedDirectory id → _) ∧
      (_ → Maintained plainRuntime lateTime mixedDirectory _) := maintenance_exact mixedDirectory
  exact ⟨fun n => (hkept n _ hlive).trans hpresent, hends (by rw [mixed_maintenance])⟩

/-- What is left of it is maintained again without an effect. -/
theorem mixed_maintained_again :
    maintenance plainRuntime lateTime
      (after mixedDirectory (maintenance plainRuntime lateTime mixedDirectory).1) = ([], .ok ()) :=
  maintenance_again mixedDirectory (by rw [mixed_maintenance])

end

end Sediment.Proofs.DeliveryMaintenance

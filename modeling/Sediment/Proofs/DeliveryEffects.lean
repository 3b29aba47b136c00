import Sediment.Cli.DeliveryQueue
import Sediment.Proofs.DeliveryEntry

namespace Sediment.Proofs.DeliveryEffects
open Base Journal
open Sediment.Core Urls
open Cli.Delivery DeliveryIdentity DeliveryEntry

@[simp] theorem get?_without (files : Dict (List Char) Bytes) (id k : List Char) :
    (without files id).get? k = if k = id then none else files.get? k := by
  rw [without, Dict.get?_filter]
  by_cases hk : k = id
  · simp only [hk, ne_eq, not_true_eq_false, decide_false, if_true]
    cases files.get? id <;> rfl
  · simp only [hk, ne_eq, not_false_eq_true, decide_true, if_false]
    cases files.get? k <;> rfl

theorem get?_without_ne_none {files : Dict (List Char) Bytes} {id k : List Char} :
    (without files id).get? k ≠ none ↔ k ≠ id ∧ files.get? k ≠ none := by
  rw [get?_without]
  by_cases hk : k = id <;> simp [hk]

theorem mem_names {files : Dict (List Char) Bytes} {suffix : String} {id : List Char} :
    id ∈ names files suffix ↔ files.get? id ≠ none := by
  rw [names, mem_sortedBy, ne_eq, Dict.get?_eq_none_iff, not_not]

theorem names_nodup (files : Dict (List Char) Bytes) (suffix : String) :
    (names files suffix).Nodup := (sortedBy_perm _ _).nodup_iff.mpr files.nodup_keys

theorem contains_names {files : Dict (List Char) Bytes} {id : List Char} :
    files.contains id = true ↔ files.get? id ≠ none := by
  rw [Dict.contains, Option.isSome_iff_ne_none]

@[simp] theorem entryFiles_entryName (d : Directory) (id : List Char) :
    entryFiles d (entryName id) = d.entries.get? id := by
  have hsuffix : ".entry".toList <:+ entryName id := ⟨id, rfl⟩
  have hlen : ".entry".toList.length = 6 := by decide
  rw [entryFiles, if_pos hsuffix, entryName, List.length_append, hlen, Nat.add_sub_cancel,
    List.take_left']
  rfl

theorem checkId_ok {runtime : Runtime} {id : List Char} (h : checkId runtime id = .ok ()) :
    uuid runtime.digits id = .ok id := by
  unfold checkId at h
  split at h
  · split at h
    · cases h
    · rename_i normal hu
      split at h
      · rename_i heq
        rw [hu, heq]
      · cases h
  · cases h

/-- The active entries keep to their number and to their bytes. -/
structure Fits (entries : Dict (List Char) Bytes) : Prop where
  number : entries.entries.length ≤ maxActiveEntries
  bytes : (entries.values.map (fun file => (bodyOf file).length)).sum ≤ maxActiveBytes

theorem Fits.without {entries : Dict (List Char) Bytes} (h : Fits entries) (id : List Char) :
    Fits (without entries id) := by
  have hsub : (Cli.Delivery.without entries id).entries.Sublist entries.entries :=
    List.filter_sublist
  constructor
  · exact hsub.length_le.trans h.number
  · have hsum := (hsub.map (fun e => (bodyOf e.2).length)).sum_le_sum (by simp)
    have hbytes := h.bytes
    simp only [Dict.values, List.map_map, Function.comp_def] at hbytes ⊢
    exact hsum.trans hbytes

/-- What a receipt of the queue may say: an entry that it gave up, or an answer that ends it. -/
def Closes [JsonBytes] (limit : Nat) (disposition : Disposition) : Prop :=
  (∃ id reason, disposition = disposed id .declined reason ∧
    plainReason .declined reason = true) ∨
  ∃ r reply, disposition = attempted limit r reply ∧ disposition.status.terminal = true

theorem declined_closes [JsonBytes] {limit : Nat} (id : List Char) {reason : Reason}
    (h : plainReason .declined reason = true) : Closes limit (disposed id .declined reason) :=
  Or.inl ⟨id, reason, rfl, h⟩

/-- A file under its name: an identity in its normal form, which is the one of the header, wherever
that is read. -/
structure Named (τ : Type) [ClockText τ] [JsonBytes] [UnicodeText] [IpAddresses] [DatetimeReader]
    (runtime : Runtime) (id : List Char) (file : Bytes) : Prop where
  normal : checkId runtime id = .ok ()
  header : ∀ h : Header τ, headerOf runtime.digits runtime.depth (entryName id) file.length
    (readLine (maxHeaderBytes + 1) file) = some h → h.deliveryId = id

def Neat (τ : Type) [ClockText τ] [JsonBytes] [UnicodeText] [IpAddresses] [DatetimeReader]
    (runtime : Runtime) (entries : Dict (List Char) Bytes) : Prop :=
  ∀ id file, entries.get? id = some file → Named τ runtime id file

/-- What each call of the file system finds. With `final` a receipt of an identity in its normal
form is published only where none stands; the entries that are `spared` stay. -/
def Guard (τ : Type) [Clock τ] [JsonBytes] [UnicodeText] [IpAddresses] [DatetimeReader]
    (runtime : Runtime) (final : Prop) (spared : List Char → Prop) (d : Directory) : Op → Prop
  | .createTemporary | .removeTemporary | .removeState _ => True
  | .publishEntry id data =>
    d.entries.get? id = none ∧ d.receipts.get? id = none ∧ Fits (d.entries.set id data) ∧
      Named τ runtime id data
  | .publishState id _ => d.entries.get? id ≠ none
  | .publishReceipt id data =>
    (final → uuid runtime.digits id = .ok id → d.receipts.get? id = none) ∧
      (Neat τ runtime d.entries → uuid runtime.digits id = .ok id) ∧
      ∃ disposition, ∃ now : τ, disposition.deliveryId = id ∧ Closes runtime.depth disposition ∧
        data = Receipt.encoded ⟨disposition, now⟩
  | .removeEntry id => (d.entries.get? id = none ∨ d.receipts.get? id ≠ none) ∧ ¬spared id
  | .removeReceipt id => d.entries.get? id = none

section
variable {τ : Type} [Clock τ] [JsonBytes] [UnicodeText] [IpAddresses] [DatetimeReader]
  {runtime : Runtime} {final : Prop} {spared : List Char → Prop} {d : Directory} {op : Op}

theorem Guard.fits (h : Guard τ runtime final spared d op) (hd : Fits d.entries) :
    Fits (op.apply d).entries := by
  cases op with
  | publishEntry id data => exact h.2.2.1
  | removeEntry id => exact hd.without id
  | _ => exact hd

/-- An entry keeps its bytes until it goes, and it goes only with its receipt beside it. -/
theorem Guard.entry (h : Guard τ runtime final spared d op) {id : List Char} {file : Bytes}
    (hfile : d.entries.get? id = some file) :
    (op.apply d).entries.get? id = some file ∨
      (d.receipts.get? id ≠ none ∧ ¬spared id ∧ (op.apply d).entries.get? id = none) := by
  cases op with
  | publishEntry k data =>
    have hne : id ≠ k := by
      rintro rfl
      rw [h.1] at hfile
      cases hfile
    exact Or.inl ((Dict.get?_set d.entries k data id).trans ((if_neg hne).trans hfile))
  | removeEntry k =>
    have hget := get?_without d.entries k id
    by_cases hk : id = k
    · subst hk
      rw [if_pos rfl] at hget
      rcases h.1 with hnone | hreceipt
      · rw [hnone] at hfile
        cases hfile
      · exact Or.inr ⟨hreceipt, h.2, hget⟩
    · exact Or.inl (hget.trans ((if_neg hk).trans hfile))
  | _ => exact Or.inl hfile

/-- A receipt is not replaced, and it goes only when its entry is gone. -/
theorem Guard.receipt (h : Guard τ runtime True spared d op) {id : List Char} {data : Bytes}
    (hid : uuid runtime.digits id = .ok id) (hreceipt : d.receipts.get? id = some data) :
    (op.apply d).receipts.get? id = some data ∨
      (d.entries.get? id = none ∧ (op.apply d).receipts.get? id = none) := by
  cases op with
  | publishReceipt k data' =>
    have hne : id ≠ k := by
      rintro rfl
      rw [h.1 trivial hid] at hreceipt
      cases hreceipt
    exact Or.inl ((Dict.get?_set d.receipts k data' id).trans ((if_neg hne).trans hreceipt))
  | removeReceipt k =>
    have hget := get?_without d.receipts k id
    by_cases hk : id = k
    · subst hk
      rw [if_pos rfl] at hget
      exact Or.inr ⟨h, hget⟩
    · exact Or.inl (hget.trans ((if_neg hk).trans hreceipt))
  | _ => exact Or.inl hreceipt

theorem Guard.neat (h : Guard τ runtime final spared d op) (hd : Neat τ runtime d.entries) :
    Neat τ runtime (op.apply d).entries := by
  cases op with
  | publishEntry k data =>
    intro id file hfile
    have hget := Dict.get?_set d.entries k data id
    by_cases hk : id = k
    · subst hk
      rw [if_pos rfl] at hget
      obtain rfl := Option.some.inj (hget.symm.trans hfile)
      exact h.2.2.2
    · rw [if_neg hk] at hget
      exact hd id file (hget.symm.trans hfile)
  | removeEntry k =>
    intro id file hfile
    have hget := get?_without d.entries k id
    by_cases hk : id = k
    · rw [if_pos hk] at hget
      cases hget.symm.trans hfile
    · rw [if_neg hk] at hget
      exact hd id file (hget.symm.trans hfile)
  | _ => exact hd

end

/-- The directory behind `_receipt`. -/
def closed (d : Directory) (id : List Char) (data : Bytes) : Directory where
  entries := without d.entries id
  states := without d.states id
  receipts := d.receipts.set id data
  temporaries := d.temporaries

section
variable {τ : Type} [Clock τ] [JsonBytes] {runtime : Runtime} {final : Prop}
  {spared : List Char → Prop}

omit [Clock τ] in
theorem acknowledgment_deliveryId (limit : Nat) (r : DeliveryRequest) (body : Bytes) :
    (acknowledgment limit r body).deliveryId = r.deliveryId := by
  unfold acknowledgment
  split
  · unfold answerOf
    split
    · split <;> rfl
    · split
      · rfl
      · split <;> rfl
  · rfl

omit [Clock τ] in
theorem attempted_deliveryId (limit : Nat) (r : DeliveryRequest) (reply : Reply) :
    (attempted limit r reply).deliveryId = r.deliveryId := by
  cases reply with
  | answered code body =>
    simp only [attempted]
    split_ifs <;> first | rfl | exact acknowledgment_deliveryId limit r body
  | _ => rfl

variable [UnicodeText] [IpAddresses] [DatetimeReader]

theorem receipt_spec (disposition : Disposition) (now : τ) {P : Directory → Prop}
    {Q : Unit → Directory → Prop} {E : Failure → Directory → Prop}
    (hguard : ∀ d, P d → final → uuid runtime.digits disposition.deliveryId =
      .ok disposition.deliveryId → d.receipts.get? disposition.deliveryId = none)
    (hname : ∀ d, P d → Neat τ runtime d.entries →
      uuid runtime.digits disposition.deliveryId = .ok disposition.deliveryId)
    (hspared : ¬spared disposition.deliveryId) (hcloses : Closes runtime.depth disposition)
    (h : ∀ d, P d →
      Q () (closed d disposition.deliveryId (Receipt.encoded ⟨disposition, now⟩))) :
    Triple (Guard τ runtime final spared) P (receipt disposition now) Q E := by
  intro d hd
  refine ⟨⟨trivial, ⟨hguard d hd, hname d hd, disposition, now, rfl, hcloses, rfl⟩,
    ⟨Or.inr ?_, hspared⟩, trivial, trivial⟩, h d hd⟩
  change ((d.receipts.set _ _).get? _) ≠ none
  simp [Dict.get?_set]

theorem entryHeader_congr {d d' : Directory} {id : List Char}
    (h : d'.entries.get? id = d.entries.get? id) :
    (entryHeader runtime d' id : Except Failure (Header τ)) = entryHeader runtime d id := by
  simp only [entryHeader, header, entryFiles_entryName, h]

theorem entryHeader_file {d : Directory} {id : List Char} {h : Header τ}
    (hh : entryHeader runtime d id = .ok h) : ∃ file, d.entries.get? id = some file ∧
      headerOf runtime.digits runtime.depth (entryName id) file.length
        (readLine (maxHeaderBytes + 1) file) = some h := by
  rw [entryHeader, header, entryFiles_entryName] at hh
  cases hfile : d.entries.get? id with
  | none =>
    rw [hfile] at hh
    cases hh
  | some file =>
    rw [hfile] at hh
    simp only at hh
    split at hh
    · cases hh
    · rename_i h' hsome
      cases hh
      exact ⟨file, rfl, hsome⟩

theorem entryHeader_ok {d : Directory} {id : List Char} {h : Header τ}
    (hh : entryHeader runtime d id = .ok h) :
    ∃ file, d.entries.get? id = some file ∧ (bodyOf file).length = h.bytes ∧
      uuid runtime.digits h.deliveryId = .ok id := by
  obtain ⟨file, hfile, hsome⟩ := entryHeader_file hh
  obtain ⟨hlast, hsize, hname, -⟩ := headerOf_some hsome
  refine ⟨file, hfile, ?_, ?_⟩
  · have := readLine_last hlast
    omega
  · cases hu : uuid runtime.digits h.deliveryId with
    | error e =>
      rw [hu] at hname
      cases hname
    | ok u =>
      rw [hu] at hname
      rw [entryName_injective (Option.some.inj hname)]

/-- What is asked of the entries is asked of the headers that are read of them. -/
theorem neat_header {d : Directory} {id : List Char} {h : Header τ}
    (hd : Neat τ runtime d.entries) (hh : entryHeader runtime d id = .ok h) :
    h.deliveryId = id := by
  obtain ⟨file, hfile, hsome⟩ := entryHeader_file hh
  exact (hd id file hfile).header h hsome

end

end Sediment.Proofs.DeliveryEffects

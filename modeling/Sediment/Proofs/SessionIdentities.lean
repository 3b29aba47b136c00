import Sediment.Base.Results
import Sediment.Capture.SessionIdentity

namespace Sediment.Proofs.SessionIdentities
open Sediment.Base Base.JsonScan Base.Shapes Sediment.Core Sediment.Capture Capture.Identity

theorem isUuid_length {t : Text} (h : isUuid t) : t.length = 36 := fits_length h

/-- A UUID ends in a digit, which is neither blank nor a closing brace. -/
theorem isUuid_concat {t : Text} (h : isUuid t) : ∃ init c, t = init ++ [c] ∧ isHex c := by
  have hshape : uuidShape = (hexRun 8 ++ isDash :: hexRun 4 ++ isDash :: hexRun 4 ++
      isDash :: hexRun 4 ++ isDash :: hexRun 11) ++ [isHex] := by
    simp only [uuidShape, hexRun]
    rfl
  simp only [isUuid, hshape] at h
  exact fits_concat h

theorem isUuid_ne_nil {t : Text} (h : isUuid t) : t ≠ [] := by
  obtain ⟨init, c, rfl, -⟩ := isUuid_concat h
  simp

theorem strip_eq_rdropWhile (t : Text) :
    Captured.strip t = (t.dropWhile Core.isSpaceCode).rdropWhile Core.isSpaceCode := rfl

/-- A text without blanks around it. -/
def Stripped (t : Text) : Prop := Captured.strip t = t

theorem stripped_strip (t : Text) : Stripped (Captured.strip t) := by
  have hfront : (Captured.strip t).dropWhile Core.isSpaceCode = Captured.strip t := by
    rw [List.dropWhile_eq_self_iff]
    intro hl
    have hpre : Captured.strip t <+: t.dropWhile Core.isSpaceCode :=
      List.rdropWhile_prefix Core.isSpaceCode _
    have hpos := lt_of_lt_of_le hl hpre.length_le
    rw [hpre.getElem hl]
    have hdrop := List.dropWhile_idempotent (p := Core.isSpaceCode) t
    exact List.dropWhile_eq_self_iff.mp hdrop hpos
  unfold Stripped
  rw [strip_eq_rdropWhile, hfront, strip_eq_rdropWhile, List.rdropWhile_idempotent]

theorem stripped_nil : Stripped [] := rfl

/-- A stripped text does not end in a blank. -/
theorem Stripped.getLast {t : Text} (h : Stripped t) {c : Nat} (hc : t.getLast? = some c) :
    Core.isSpaceCode c = false := by
  unfold Stripped at h
  rw [strip_eq_rdropWhile] at h
  obtain ⟨init, rfl⟩ := List.getLast?_eq_some_iff.mp hc
  have hne : (((init ++ [c]).dropWhile Core.isSpaceCode).rdropWhile
      Core.isSpaceCode) ≠ [] := by
    rw [h]
    simp
  have hlast := List.rdropWhile_last_not Core.isSpaceCode _ hne
  simp only [h, List.getLast_append_singleton] at hlast
  simpa using hlast

theorem Stripped.beforeEnd {t : Text} (h : Stripped t) : beforeEnd t = (t, []) := by
  unfold Identity.beforeEnd
  rw [if_neg]
  intro hlast
  have hspace := h.getLast hlast
  simp [Core.isSpaceCode] at hspace

theorem Stripped.uuidMatch {t : Text} (h : Stripped t) : uuidMatch t = isUuid t := by
  simp only [Identity.uuidMatch, h.beforeEnd]

/-- The delimited form of an identity: a session after the stem. -/
def Delimited (stem session t : Text) : Prop :=
  t = stem ++ codePoints "session_" ++ session ∧ isUuid session ∧
    (stem = [] ∨ stem.getLast? = some 95)

theorem sessionSuffix_of_delimited {stem session t : Text} (h : Delimited stem session t)
    (ht : beforeEnd t = (t, [])) : sessionSuffix t = some (stem.dropLast, session) := by
  obtain ⟨heq, hu, hstem⟩ := h
  have hlen := isUuid_length hu
  have hfront : t.length - 36 = (stem ++ codePoints "session_").length := by
    rw [heq, List.length_append, hlen]
    omega
  have htake : t.take (t.length - 36) = stem ++ codePoints "session_" := by
    rw [hfront, heq, List.take_left]
  have hdrop : t.drop (t.length - 36) = session := by
    rw [hfront, heq, List.drop_left]
  have hword : (stem ++ codePoints "session_").length - 8 = stem.length := by
    rw [List.length_append, show (codePoints "session_").length = 8 from rfl,
      Nat.add_sub_cancel]
  simp only [sessionSuffix, ht, htake, hdrop, hword, List.take_left, List.drop_left]
  rw [if_pos ⟨hu, trivial, hstem⟩]

theorem delimited_of_sessionSuffix {t stem session : Text}
    (h : sessionSuffix t = some (stem, session)) (ht : beforeEnd t = (t, [])) :
    ∃ full, Delimited full session t ∧ stem = full.dropLast := by
  simp only [sessionSuffix, ht] at h
  split at h
  · rename_i hcond
    obtain ⟨hu, hword, hstem⟩ := hcond
    simp only [Option.some.injEq, Prod.mk.injEq] at h
    obtain ⟨rfl, rfl⟩ := h
    refine ⟨_, ⟨?_, hu, hstem⟩, rfl⟩
    rw [← hword, List.take_append_drop, List.take_append_drop]
  · cases h

/-- The text of a delimited identity ends in a digit. -/
theorem Delimited.getLast {stem session t : Text} (h : Delimited stem session t) :
    ∃ c, t.getLast? = some c ∧ isHex c := by
  obtain ⟨rfl, hu, -⟩ := h
  obtain ⟨init, c, rfl, hc⟩ := isUuid_concat hu
  exact ⟨c, by rw [← List.append_assoc, List.getLast?_concat], hc⟩

theorem Delimited.beforeEnd {stem session t : Text} (h : Delimited stem session t) :
    beforeEnd t = (t, []) := by
  obtain ⟨c, hlast, hc⟩ := h.getLast
  unfold Identity.beforeEnd
  rw [if_neg]
  intro hten
  rw [hlast] at hten
  cases hten
  simp [isHex] at hc

theorem Delimited.sessionSuffix {stem session t : Text} (h : Delimited stem session t) :
    Identity.sessionSuffix t = some (stem.dropLast, session) :=
  sessionSuffix_of_delimited h h.beforeEnd

theorem Delimited.withoutSuffix {stem session t : Text} (h : Delimited stem session t) :
    Identity.withoutSuffix t = stem.dropLast := by
  unfold Identity.withoutSuffix
  rw [h.sessionSuffix, h.beforeEnd]
  exact List.append_nil _

section
variable {φ : Type}

theorem stripped_identityText (v : Payload φ) : Stripped (identityText v) := by
  cases v with
  | str s => exact stripped_strip s
  | _ => exact stripped_nil

theorem stripped_metaValue (metadata : Payload φ) (key : String) :
    Stripped (metaValue metadata key []) := by
  cases metadata with
  | obj d =>
    simp only [metaValue]
    split
    · exact stripped_identityText _
    · split
      · split
        · exact stripped_identityText _
        · exact stripped_nil
      · exact stripped_nil
  | _ => exact stripped_nil

/-- A field of the requester's own metadata. -/
def requesterText (requester : Payload φ) (key : String) : Text :=
  match asObject requester with
  | some d => identityText (field d key)
  | none => []

theorem metaValue_obj (d : Fields φ) (key : String) :
    metaValue (Json.obj d) key [] =
      if identityText (field d key) ≠ [] then identityText (field d key)
      else requesterText (field d "requester_metadata") key := by
  have hsame : ∀ t : Text, (if t ≠ [] then t else []) = t := by
    intro t
    split
    · rfl
    · rename_i hnil
      exact (not_not.mp hnil).symm
  simp only [metaValue, requesterText]
  cases field d "requester_metadata" with
  | obj requester => simp only [asObject, hsame]
  | _ => rfl

/-- The texts of a payload that may carry the client's identity. -/
def identityTexts (payload : Fields φ) : List Text :=
  [identityText (field payload "end_user"), metaValue (field payload "metadata") "user_id" []]

theorem stripped_of_mem {payload : Fields φ} {t : Text} (h : t ∈ identityTexts payload) :
    Stripped t := by
  simp only [identityTexts, List.mem_cons, List.not_mem_nil, or_false] at h
  rcases h with rfl | rfl
  · exact stripped_identityText _
  · exact stripped_metaValue _ _

/-- A decoded object names a session when its `session_id` is a UUID. -/
def Names (d : Fields φ) (session : Text) : Prop :=
  identityText (field d "session_id") = session ∧ isUuid session

theorem sessionOf_eq_iff {d : Fields φ} {session : Text} (hne : session ≠ []) :
    sessionOf d = session ↔ Names d session := by
  unfold sessionOf Names
  rw [(stripped_identityText _).uuidMatch]
  constructor
  · intro h
    split at h
    · rename_i hu
      exact ⟨h, h ▸ hu⟩
    · exact absurd h.symm hne
  · intro ⟨h, hu⟩
    rw [h, if_pos hu]

theorem sessionOf_eq_nil_iff {d : Fields φ} :
    sessionOf d = [] ↔ ∀ session, ¬ Names d session := by
  constructor
  · intro h session hn
    have hne := isUuid_ne_nil hn.2
    rw [← sessionOf_eq_iff hne, h] at hn
    exact hne hn.symm
  · intro h
    by_contra hne
    exact h _ ((sessionOf_eq_iff hne).mp rfl)

/-- A delimited session is found in one of the texts, and missed in none. -/
theorem sessionFromIdentity_spec (texts : List Text) (hs : ∀ t ∈ texts, Stripped t) :
    (sessionFromIdentity texts ≠ [] →
      ∃ t ∈ texts, ∃ stem, Delimited stem (sessionFromIdentity texts) t) ∧
    (sessionFromIdentity texts = [] → ∀ t ∈ texts, ∀ stem session, ¬ Delimited stem session t) := by
  unfold sessionFromIdentity
  cases hc : texts.findSome? (fun t => (sessionSuffix (Captured.strip t)).map Prod.snd) with
  | none =>
    rw [List.findSome?_eq_none_iff] at hc
    constructor
    · intro hne
      exact absurd rfl hne
    · intro _ t ht stem session hd
      have hnone := hc t ht
      rw [hs t ht, hd.sessionSuffix] at hnone
      cases hnone
  | some session =>
    obtain ⟨t, ht, hsome⟩ := List.exists_of_findSome?_eq_some hc
    rw [hs t ht] at hsome
    obtain ⟨⟨front, session'⟩, hsuffix, heq⟩ := Option.map_eq_some_iff.mp hsome
    simp only at heq
    subst heq
    obtain ⟨stem, hd, -⟩ := delimited_of_sessionSuffix hsuffix (hs t ht).beforeEnd
    constructor
    · intro _
      exact ⟨t, ht, stem, hd⟩
    · intro hnil
      exact absurd hnil (isUuid_ne_nil hd.2.1)

/-- The headers that the client sent with a request. -/
def sentHeaders (payload : Fields φ) : List (Fields φ) := customHeaders [field payload "metadata"]

/-- A payload has one metadata, hence headers once at most. -/
theorem sentHeaders_cases (payload : Fields φ) :
    sentHeaders payload = [] ∨ ∃ headers, sentHeaders payload = [headers] := by
  unfold sentHeaders customHeaders
  rw [List.filterMap_cons]
  split
  · exact .inl rfl
  · rename_i headers _
    exact .inr ⟨headers, rfl⟩

/-- The header of the sediment shim names a session when it is a UUID. -/
def Stamps (headers : Fields φ) (session : Text) : Prop :=
  identityText (field headers "x-sediment-session") = session ∧ isUuid session

theorem sedimentHeader_singleton {metas : List (Payload φ)} {headers : Fields φ}
    (h : customHeaders metas = [headers]) (name : String) :
    sedimentHeader metas name = identityText (field headers name) := by
  simp only [sedimentHeader, h, List.findSome?_cons, List.findSome?_nil]
  by_cases hne : identityText (field headers name) = []
  · simp [hne]
  · simp [hne]

theorem sessionFromSedimentHeaders_eq_iff {payload : Fields φ} {session : Text}
    (hne : session ≠ []) :
    sessionFromSedimentHeaders [field payload "metadata"] = session ↔
      ∃ headers ∈ sentHeaders payload, Stamps headers session := by
  unfold sessionFromSedimentHeaders
  rcases sentHeaders_cases payload with h | ⟨headers, h⟩
  · have hnone : sedimentHeader [field payload "metadata"] "x-sediment-session" = [] := by
      unfold sentHeaders at h
      simp only [sedimentHeader, h, List.findSome?_nil, Option.getD_none]
    rw [hnone, h]
    constructor
    · intro hs
      exact absurd hs.symm hne
    · intro ⟨headers, hm, _⟩
      exact absurd hm List.not_mem_nil
  · simp only [sedimentHeader_singleton h, h, (stripped_identityText _).uuidMatch,
      List.mem_singleton, exists_eq_left, Stamps]
    constructor
    · intro hs
      split at hs
      · rename_i hu
        exact ⟨hs, hs ▸ hu⟩
      · exact absurd hs.symm hne
    · intro ⟨hs, hu⟩
      rw [hs, if_pos hu]

theorem sessionFromSedimentHeaders_eq_nil_iff {payload : Fields φ} :
    sessionFromSedimentHeaders [field payload "metadata"] = [] ↔
      ∀ headers ∈ sentHeaders payload, ∀ session, ¬ Stamps headers session := by
  constructor
  · intro h headers hm session hs
    have hne := isUuid_ne_nil hs.2
    have heq := (sessionFromSedimentHeaders_eq_iff hne).mpr ⟨headers, hm, hs⟩
    exact hne (heq.symm.trans h)
  · intro h
    by_contra hne
    obtain ⟨headers, hm, hs⟩ := (sessionFromSedimentHeaders_eq_iff hne).mp rfl
    exact h headers hm _ hs

/-- A search finds a session that one of its carriers names, and misses none. -/
theorem firstSession_spec {α : Type} {load : α → Loads (Option (Fields φ))}
    {Holds : Text → α → Prop}
    (hload : ∀ a o, load a = .ok o →
      (∀ session, session ≠ [] → ((o.map sessionOf).getD [] = session ↔ Holds session a)) ∧
      ((o.map sessionOf).getD [] = [] ↔ ∀ session, ¬ Holds session a))
    {carriers : List α} {found : Text} (h : firstSession load carriers = .ok found) :
    (found ≠ [] → ∃ a ∈ carriers, Holds found a) ∧
    (found = [] → ∀ a ∈ carriers, ∀ session, ¬ Holds session a) := by
  induction carriers with
  | nil =>
    cases h
    exact ⟨fun hne => absurd rfl hne, fun _ a ha => absurd ha List.not_mem_nil⟩
  | cons a rest ih =>
    unfold firstSession at h
    cases hl : load a with
    | error e =>
      rw [hl] at h
      cases h
    | ok o =>
      obtain ⟨hsome, hnone⟩ := hload a o hl
      rw [hl] at h
      change (if (o.map sessionOf).getD [] ≠ [] then _ else _) = _ at h
      split at h
      · rename_i hne
        cases h
        refine ⟨fun _ => ⟨a, List.mem_cons_self, (hsome _ hne).mp rfl⟩, ?_⟩
        intro hnil
        exact absurd hnil hne
      · rename_i hnil
        obtain ⟨ihs, ihn⟩ := ih h
        constructor
        · intro hne
          obtain ⟨b, hb, he⟩ := ihs hne
          exact ⟨b, List.mem_cons_of_mem a hb, he⟩
        · intro hfound b hb
          rcases List.mem_cons.mp hb with rfl | hb
          · exact hnone.mp (not_not.mp hnil)
          · exact ihn hfound b hb

section
variable [JsonDecoder φ]

theorem loadedObject_ok {t : Text} {o : Option (Fields φ)} (h : loadedObject t = .ok o) :
    ∀ d, o = some d ↔ JsonDecoder.loads t = .ok (Json.obj d) := by
  intro d
  unfold loadedObject at h
  cases hl : JsonDecoder.loads (φ := φ) t with
  | error e =>
    simp only [hl] at h
    cases e with
    | valueError =>
      cases h
      simp
    | recursionError => cases h
  | ok v =>
    simp only [hl, Except.ok.injEq] at h
    subst h
    cases v <;> simp [asObject]

variable (φ) in
/-- The JSON form of an identity: an object whose `session_id` is a UUID. -/
def Encoded (session t : Text) : Prop :=
  ∃ d : Fields φ, JsonDecoder.loads t = .ok (Json.obj d) ∧ Names d session

/-- One candidate of a search for a decoded session: it is found here, or not at all. -/
theorem session_of_loaded (t : Text) (o : Option (Fields φ)) (h : loadedObject t = .ok o) :
    (∀ session, session ≠ [] → ((o.map sessionOf).getD [] = session ↔ Encoded φ session t)) ∧
    ((o.map sessionOf).getD [] = [] ↔ ∀ session, ¬ Encoded φ session t) := by
  have hspec := loadedObject_ok h
  cases o with
  | none =>
    have hnone : ∀ session, ¬ Encoded φ session t := by
      intro session ⟨d, hd, _⟩
      exact absurd ((hspec d).mpr hd) nofun
    constructor
    · intro session hne
      exact ⟨fun he => absurd he.symm hne, fun he => absurd he (hnone session)⟩
    · exact ⟨fun _ => hnone, fun _ => rfl⟩
  | some d =>
    have hd := (hspec d).mp rfl
    have hiff : ∀ session, Encoded φ session t ↔ Names d session := by
      intro session
      constructor
      · intro ⟨d', hd', hn⟩
        rw [hd] at hd'
        cases hd'
        exact hn
      · intro hn
        exact ⟨d, hd, hn⟩
    simp only [Option.map_some, Option.getD_some, hiff]
    exact ⟨fun session hne => sessionOf_eq_iff hne, sessionOf_eq_nil_iff⟩

/-- The turn metadata that a client's headers carry. -/
def Turns (session : Text) (headers : Fields φ) : Prop :=
  ∃ s, field headers "x-codex-turn-metadata" = Json.str s ∧ Encoded φ session s

theorem session_of_turn (headers : Fields φ) (o : Option (Fields φ))
    (h : turnMeta headers = .ok o) :
    (∀ session, session ≠ [] → ((o.map sessionOf).getD [] = session ↔ Turns session headers)) ∧
    ((o.map sessionOf).getD [] = [] ↔ ∀ session, ¬ Turns session headers) := by
  unfold turnMeta at h
  unfold Turns
  cases hf : field headers "x-codex-turn-metadata" with
  | str s =>
    simp only [hf] at h
    simpa using session_of_loaded s o h
  | _ =>
    simp only [hf, Except.ok.injEq] at h
    subst h
    simp [eq_comm]

/-- The declared sources of a session id, and what each must carry. -/
inductive Declares (payload : Fields φ) : Source → Text → Prop
  | metadata {session : Text} :
      metaValue (field payload "metadata") "session_id" [] = session → session ≠ [] →
      Declares payload .metadata session
  | identityJson {session t : Text} :
      t ∈ identityTexts payload → Encoded φ session t → Declares payload .identityJson session
  | identitySuffix {stem session t : Text} :
      t ∈ identityTexts payload → Delimited stem session t →
      Declares payload .identitySuffix session
  | codexHeader {session : Text} {headers : Fields φ} :
      headers ∈ sentHeaders payload → Turns session headers →
      Declares payload .codexHeader session
  | sedimentHeader {session : Text} {headers : Fields φ} :
      headers ∈ sentHeaders payload → Stamps headers session →
      Declares payload .sedimentHeader session

/-- Every source but the explicit metadata names a UUID. -/
theorem Declares.isUuid {payload : Fields φ} {source : Source} {session : Text}
    (h : Declares payload source session) (hsource : source ≠ .metadata) : isUuid session := by
  cases h with
  | metadata => exact absurd rfl hsource
  | identityJson _ h =>
    obtain ⟨_, _, _, hu⟩ := h
    exact hu
  | identitySuffix _ h => exact h.2.1
  | codexHeader _ h =>
    obtain ⟨_, _, _, _, _, hu⟩ := h
    exact hu
  | sedimentHeader _ h => exact h.2

/-- The session of a payload, by the clauses of its resolution. -/
def sessionOfPayload (payload : Fields φ) : Loads (Option (Text × Source)) :=
  resolveSession (field payload "metadata") (identityText (field payload "end_user"))

/-- What each clause of the resolution has found, or that no source declares a session. -/
theorem sessionOfPayload_ok {payload : Fields φ} {o : Option (Text × Source)}
    (h : sessionOfPayload payload = .ok o) :
    (∃ source session, o = some (session, source) ∧ Declares payload source session) ∨
    (o = none ∧ ∀ source session, ¬ Declares payload source session) := by
  unfold sessionOfPayload resolveSession at h
  simp only at h
  split at h
  · rename_i hmeta
    cases h
    exact .inl ⟨_, _, rfl, .metadata rfl hmeta⟩
  rename_i hmeta
  obtain ⟨json, hjson, h⟩ := bind_ok.mp h
  obtain ⟨hjs, hjn⟩ := firstSession_spec session_of_loaded hjson
  split at h
  · rename_i hne
    cases h
    obtain ⟨t, ht, he⟩ := hjs hne
    exact .inl ⟨_, _, rfl, .identityJson ht he⟩
  rename_i hjnil
  obtain ⟨hss, hsn⟩ := sessionFromIdentity_spec (identityTexts payload) (fun _ => stripped_of_mem)
  split at h
  · rename_i hne
    cases h
    obtain ⟨t, ht, stem, hd⟩ := hss hne
    exact .inl ⟨_, _, rfl, .identitySuffix ht hd⟩
  rename_i hsnil
  obtain ⟨turn, hturn, h⟩ := bind_ok.mp h
  obtain ⟨hts, htn⟩ := firstSession_spec session_of_turn hturn
  split at h
  · rename_i hne
    cases h
    obtain ⟨headers, hh, ht⟩ := hts hne
    exact .inl ⟨_, _, rfl, .codexHeader hh ht⟩
  rename_i htnil
  split at h
  · rename_i hne
    cases h
    obtain ⟨headers, hh, hs⟩ := (sessionFromSedimentHeaders_eq_iff hne).mp rfl
    exact .inl ⟨_, _, rfl, .sedimentHeader hh hs⟩
  rename_i hstamp
  cases h
  refine .inr ⟨rfl, ?_⟩
  intro source session hd
  cases hd with
  | metadata he hne => exact hmeta (he ▸ hne)
  | identityJson ht he => exact hjn (not_not.mp hjnil) _ ht _ he
  | identitySuffix ht hd => exact hsn (not_not.mp hsnil) _ ht _ _ hd
  | codexHeader hh ht => exact htn (not_not.mp htnil) _ hh _ ht
  | sedimentHeader hh hs =>
    exact sessionFromSedimentHeaders_eq_nil_iff.mp (not_not.mp hstamp) _ hh _ hs

theorem declares_of_ok {payload : Fields φ} {o : Option (Text × Source)}
    (h : sessionOfPayload payload = .ok o) :
    o.isSome ↔ ∃ source session, Declares payload source session := by
  rcases sessionOfPayload_ok h with ⟨source, session, rfl, hd⟩ | ⟨rfl, hnone⟩
  · exact ⟨fun _ => ⟨source, session, hd⟩, fun _ => rfl⟩
  · constructor
    · nofun
    · intro ⟨source, session, hd⟩
      exact absurd hd (hnone source session)

/-- The identity of a payload carries one session, and no explicit one overrides it. -/
structure Carries (session : Text) (payload : Fields φ) : Prop where
  implicit : metaValue (field payload "metadata") "session_id" [] = []
  carried : ∃ t ∈ identityTexts payload,
    Encoded φ session t ∨ ∃ stem, Delimited stem session t
  only : ∀ t ∈ identityTexts payload, ∀ other,
    (Encoded φ other t ∨ ∃ stem, Delimited stem other t) → other = session

theorem sessionOfPayload_carries {payload : Fields φ} {session : Text}
    (hc : Carries session payload) {o : Option (Text × Source)}
    (h : sessionOfPayload payload = .ok o) : o.map Prod.fst = some session := by
  obtain ⟨t, ht, hcarried⟩ := hc.carried
  unfold sessionOfPayload resolveSession at h
  simp only [hc.implicit, ne_eq, not_true_eq_false, ↓reduceIte] at h
  obtain ⟨json, hjson, h⟩ := bind_ok.mp h
  obtain ⟨hjs, hjn⟩ := firstSession_spec session_of_loaded hjson
  split at h
  · rename_i hne
    cases h
    obtain ⟨u, hu, he⟩ := hjs hne
    rw [Option.map_some, hc.only u hu _ (.inl he)]
  rename_i hjnil
  obtain ⟨hss, hsn⟩ := sessionFromIdentity_spec (identityTexts payload) (fun _ => stripped_of_mem)
  split at h
  · rename_i hne
    cases h
    obtain ⟨u, hu, hd⟩ := hss hne
    exact congrArg some (hc.only u hu _ (.inr hd))
  · rename_i hsnil
    exfalso
    rcases hcarried with he | ⟨stem, hd⟩
    · exact hjn (not_not.mp hjnil) t ht _ he
    · exact hsn (not_not.mp hsnil) t ht _ _ hd

omit [JsonDecoder φ] in
theorem labelOf_congr {d d' : Fields φ}
    (h : ∀ key ≠ "session_id", field d key = field d' key) : labelOf d = labelOf d' := by
  unfold labelOf identityLabelFields
  simp only [List.findSome?_cons, List.findSome?_nil, h "device_id" (by decide),
    h "account_uuid" (by decide)]

theorem identityLabel_object {t label : Text} {d : Fields φ}
    (hd : JsonDecoder.loads t = .ok (Json.obj d)) (h : identityLabel φ t = .ok label) :
    label = labelOf d := by
  unfold identityLabel loadedObject at h
  rw [hd] at h
  cases h
  rfl

theorem identityLabel_other {t label : Text}
    (hd : ∀ d : Fields φ, JsonDecoder.loads t ≠ .ok (Json.obj d))
    (h : identityLabel φ t = .ok label) : label = t := by
  unfold identityLabel at h
  obtain ⟨o, ho, h⟩ := bind_ok.mp h
  cases o with
  | none =>
    cases h
    rfl
  | some d => exact absurd ((loadedObject_ok ho d).mp rfl) (hd d)

variable (φ) in
/-- Two identity texts that differ in the session they carry alone. -/
inductive Twin (u u' : Text) : Text → Text → Prop
  | delimited {stem t t' : Text} : Delimited stem u t → Delimited stem u' t' → Twin u u' t t'
  | encoded {d d' : Fields φ} {t t' : Text} :
      JsonDecoder.loads t = .ok (Json.obj d) → JsonDecoder.loads t' = .ok (Json.obj d') →
      Names d u → Names d' u' → (∀ key ≠ "session_id", field d key = field d' key) →
      Twin u u' t t'

variable (φ) in
/-- Equal texts, or twins. -/
def Alike (u u' t t' : Text) : Prop := t = t' ∨ Twin φ u u' t t'

/-- Values of the identity fields: equal, or strings of twins. -/
def AlikeValue (u u' : Text) (v v' : Payload φ) : Prop :=
  v = v' ∨ ∃ s s', v = Json.str s ∧ v' = Json.str s' ∧
    Twin φ u u' (Captured.strip s) (Captured.strip s')

/-- Equal values, or objects that agree on every key but the given ones, related as `R` says. -/
def AlikeBut (keys : List String) (R : Fields φ → Fields φ → Prop) (v v' : Payload φ) : Prop :=
  v = v' ∨ ∃ d d', v = Json.obj d ∧ v' = Json.obj d' ∧
    (∀ key ∉ keys, field d key = field d' key) ∧ R d d'

def AlikeRequester (u u' : Text) : Payload φ → Payload φ → Prop :=
  AlikeBut ["user_id"] (fun d d' => AlikeValue u u' (field d "user_id") (field d' "user_id"))

def AlikeMetadata (u u' : Text) : Payload φ → Payload φ → Prop :=
  AlikeBut ["user_id", "requester_metadata"] (fun d d' =>
    AlikeValue u u' (field d "user_id") (field d' "user_id") ∧
    AlikeRequester u u' (field d "requester_metadata") (field d' "requester_metadata"))

/-- Two payloads that differ in the session inside the client's identity alone. -/
structure DifferOnly (u u' : Text) (payload payload' : Fields φ) : Prop where
  others : ∀ key ∉ ["end_user", "metadata"], field payload key = field payload' key
  endUser : AlikeValue u u' (field payload "end_user") (field payload' "end_user")
  metadata : AlikeMetadata u u' (field payload "metadata") (field payload' "metadata")

theorem AlikeValue.text {u u' : Text} {v v' : Payload φ} (h : AlikeValue u u' v v') :
    Alike φ u u' (identityText v) (identityText v') := by
  rcases h with rfl | ⟨s, s', rfl, rfl, h⟩
  · exact .inl rfl
  · exact .inr h

theorem AlikeBut.requester {u u' : Text} {v v' : Payload φ} (h : AlikeRequester u u' v v') :
    Alike φ u u' (requesterText v "user_id") (requesterText v' "user_id") ∧
    requesterText v "session_id" = requesterText v' "session_id" := by
  rcases h with rfl | ⟨d, d', rfl, rfl, hrest, hvalue⟩
  · exact ⟨.inl rfl, rfl⟩
  · refine ⟨hvalue.text, ?_⟩
    simp only [requesterText, asObject, hrest "session_id" (by decide)]

/-- Twins carry a session each. -/
theorem Alike.mem_carries {u u' t t' : Text} (h : Alike φ u u' t t') :
    ((∃ session, Encoded φ session t) ∨ ∃ stem session, Delimited stem session t) ↔
    ((∃ session, Encoded φ session t') ∨ ∃ stem session, Delimited stem session t') := by
  rcases h with rfl | h
  · exact Iff.rfl
  · cases h with
    | delimited hd hd' => exact ⟨fun _ => .inr ⟨_, _, hd'⟩, fun _ => .inr ⟨_, _, hd⟩⟩
    | encoded ho ho' hn hn' _ =>
      exact ⟨fun _ => .inl ⟨_, _, ho', hn'⟩, fun _ => .inl ⟨_, _, ho, hn⟩⟩

theorem declares_iff (payload : Fields φ) :
    (∃ source session, Declares payload source session) ↔
      metaValue (field payload "metadata") "session_id" [] ≠ [] ∨
      (∃ t ∈ identityTexts payload,
        (∃ session, Encoded φ session t) ∨ ∃ stem session, Delimited stem session t) ∨
      ∃ headers ∈ sentHeaders payload, ∃ session,
        Turns session headers ∨ Stamps headers session := by
  constructor
  · intro ⟨source, session, h⟩
    cases h with
    | metadata he hne => exact .inl (he ▸ hne)
    | identityJson ht he => exact .inr (.inl ⟨_, ht, .inl ⟨_, he⟩⟩)
    | identitySuffix ht hd => exact .inr (.inl ⟨_, ht, .inr ⟨_, _, hd⟩⟩)
    | codexHeader hh ht => exact .inr (.inr ⟨_, hh, _, .inl ht⟩)
    | sedimentHeader hh hs => exact .inr (.inr ⟨_, hh, _, .inr hs⟩)
  · rintro (hne | ⟨t, ht, ⟨session, he⟩ | ⟨stem, session, hd⟩⟩ | ⟨headers, hh, session, ht | hs⟩)
    · exact ⟨_, _, .metadata rfl hne⟩
    · exact ⟨_, _, .identityJson ht he⟩
    · exact ⟨_, _, .identitySuffix ht hd⟩
    · exact ⟨_, _, .codexHeader hh ht⟩
    · exact ⟨_, _, .sedimentHeader hh hs⟩

theorem resolveIdentity_ok {payload : Fields φ} {o : Option SessionIdentity}
    (h : resolveIdentity (Json.obj payload) = .ok o) :
    (o = none ∧ sessionOfPayload payload = .ok none) ∨
    ∃ r, o = some r ∧ sessionOfPayload payload = .ok (some (r.sessionId, r.source)) ∧
      resolveUser (field payload "metadata") (identityText (field payload "end_user")) =
        .ok r.userId := by
  obtain ⟨found, hf, h⟩ := bind_ok.mp h
  cases found with
  | none =>
    cases h
    exact .inl ⟨rfl, hf⟩
  | some found =>
    obtain ⟨session, source⟩ := found
    obtain ⟨user, hu, h⟩ := bind_ok.mp h
    cases h
    exact .inr ⟨_, rfl, hf, hu⟩

/-- Blanks of a JSON text. -/
def isJsonBlank (c : Nat) : Bool := c == 9 || c == 10 || c == 13 || c == 32

end

/-- The text of an object ends in its closing brace, up to blanks. -/
class LawfulDecoder (φ : Type) [JsonDecoder φ] : Prop where
  closes : ∀ (t : Text) (d : Fields φ), JsonDecoder.loads t = .ok (Json.obj d) →
    (t.rdropWhile isJsonBlank).getLast? = some 125

section
variable [JsonDecoder φ] [LawfulDecoder φ]

/-- A delimited identity is no JSON object. -/
theorem Delimited.not_object {stem session t : Text} (h : Delimited stem session t)
    (d : Fields φ) : JsonDecoder.loads t ≠ .ok (Json.obj d) := by
  intro hd
  have hclose := LawfulDecoder.closes t d hd
  obtain ⟨c, hlast, hc⟩ := h.getLast
  obtain ⟨init, rfl⟩ := List.getLast?_eq_some_iff.mp hlast
  simp only [isHex, Bool.or_eq_true, Bool.and_eq_true, decide_eq_true_eq] at hc
  have hblank : ¬ isJsonBlank c := by
    simp only [isJsonBlank, Bool.or_eq_true, beq_iff_eq]
    omega
  rw [List.rdropWhile_concat_neg _ _ _ hblank, List.getLast?_concat, Option.some.injEq] at hclose
  omega

theorem not_object_nil (d : Fields φ) : JsonDecoder.loads ([] : Text) ≠ .ok (Json.obj d) := by
  intro hd
  have hclose := LawfulDecoder.closes [] d hd
  simp at hclose

theorem Twin.ne_nil {u u' t t' : Text} (h : Twin φ u u' t t') : t ≠ [] ∧ t' ≠ [] := by
  cases h with
  | delimited hd hd' =>
    constructor
    · intro hnil
      obtain ⟨c, hlast, -⟩ := hd.getLast
      simp [hnil] at hlast
    · intro hnil
      obtain ⟨c, hlast, -⟩ := hd'.getLast
      simp [hnil] at hlast
  | encoded hl hl' _ _ _ =>
    constructor
    · intro hnil
      exact not_object_nil _ (hnil ▸ hl)
    · intro hnil
      exact not_object_nil _ (hnil ▸ hl')

theorem Alike.nil_iff {u u' t t' : Text} (h : Alike φ u u' t t') : t = [] ↔ t' = [] := by
  rcases h with rfl | h
  · exact Iff.rfl
  · exact ⟨fun hn => absurd hn h.ne_nil.1, fun hn => absurd hn h.ne_nil.2⟩

/-- What a value contributes where it is present, and else another. -/
theorem Alike.orElse {u u' t t' s s' : Text} (h : Alike φ u u' t t') (hs : Alike φ u u' s s') :
    Alike φ u u' (if t ≠ [] then t else s) (if t' ≠ [] then t' else s') := by
  by_cases hn : t = []
  · rw [if_neg (not_not.mpr hn), if_neg (not_not.mpr (h.nil_iff.mp hn))]
    exact hs
  · rw [if_pos hn, if_pos (mt h.nil_iff.mpr hn)]
    exact h

/-- The label of an identity, without its suffix, is the same for its twin. -/
theorem Alike.label {u u' t t' label label' : Text} (h : Alike φ u u' t t')
    (hl : identityLabel φ t = .ok label) (hl' : identityLabel φ t' = .ok label') :
    withoutSuffix label = withoutSuffix label' := by
  rcases h with rfl | h
  · rw [hl] at hl'
    cases hl'
    rfl
  · cases h with
    | delimited hd hd' =>
      rw [identityLabel_other hd.not_object hl, identityLabel_other hd'.not_object hl',
        hd.withoutSuffix, hd'.withoutSuffix]
    | encoded ho ho' _ _ hcongr =>
      rw [identityLabel_object ho hl, identityLabel_object ho' hl', labelOf_congr hcongr]

/-- What the resolver reads of the metadata is alike, or equal. -/
theorem AlikeBut.metadata {u u' : Text} {v v' : Payload φ} (h : AlikeMetadata u u' v v') :
    Alike φ u u' (metaValue v "user_id" []) (metaValue v' "user_id" []) ∧
    metaValue v "session_id" [] = metaValue v' "session_id" [] ∧
    customHeaders [v] = customHeaders [v'] := by
  rcases h with rfl | ⟨d, d', rfl, rfl, hrest, hvalue, hrequester⟩
  · exact ⟨.inl rfl, rfl, rfl⟩
  · obtain ⟨huser, hsession⟩ := AlikeBut.requester hrequester
    refine ⟨?_, ?_, ?_⟩
    · rw [metaValue_obj, metaValue_obj]
      exact hvalue.text.orElse huser
    · rw [metaValue_obj, metaValue_obj, hrest "session_id" (by decide), hsession]
    · simp only [customHeaders, asObject, List.filterMap_cons, Option.bind_some,
        hrest "requester_custom_headers" (by decide)]

theorem firstNonEmpty_cons (t : Text) (rest : List Text) :
    firstNonEmpty (t :: rest) = if t ≠ [] then t else firstNonEmpty rest := by
  unfold firstNonEmpty
  by_cases h : t = [] <;> simp [h]

theorem resolveUser_alike {u u' : Text} {payload payload' : Fields φ}
    (h : DifferOnly u u' payload payload') {user user' : Option Text}
    (hu : resolveUser (field payload "metadata") (identityText (field payload "end_user")) =
      .ok user)
    (hu' : resolveUser (field payload' "metadata") (identityText (field payload' "end_user")) =
      .ok user') : user = user' := by
  obtain ⟨hmeta, -, hheaders⟩ := AlikeBut.metadata h.metadata
  have hagent : agentFromSedimentHeaders [field payload "metadata"] =
      agentFromSedimentHeaders [field payload' "metadata"] := by
    unfold agentFromSedimentHeaders sedimentHeader
    rw [hheaders]
  have hidentity : Alike φ u u'
      (firstNonEmpty [metaValue (field payload "metadata") "user_id" [],
        identityText (field payload "end_user"),
        agentFromSedimentHeaders [field payload "metadata"]])
      (firstNonEmpty [metaValue (field payload' "metadata") "user_id" [],
        identityText (field payload' "end_user"),
        agentFromSedimentHeaders [field payload' "metadata"]]) := by
    simp only [firstNonEmpty_cons]
    exact hmeta.orElse (h.endUser.text.orElse (.inl (by rw [hagent])))
  obtain ⟨label, hl, hu⟩ := bind_ok.mp hu
  obtain ⟨label', hl', hu'⟩ := bind_ok.mp hu'
  rw [hidentity.label hl hl'] at hu
  rw [hu] at hu'
  exact Except.ok.inj hu'

/-- A payload declares a session when its twin does. -/
theorem DifferOnly.declares {u u' : Text} {payload payload' : Fields φ}
    (h : DifferOnly u u' payload payload') :
    (∃ source session, Declares payload source session) ↔
      ∃ source session, Declares payload' source session := by
  obtain ⟨hmeta, hsession, hheaders⟩ := AlikeBut.metadata h.metadata
  rw [declares_iff, declares_iff, hsession]
  unfold sentHeaders identityTexts
  rw [hheaders]
  simp only [List.mem_cons, List.not_mem_nil, or_false, exists_eq_or_imp, exists_eq_left]
  rw [h.endUser.text.mem_carries, hmeta.mem_carries]

/-- A session id comes from a declared source, and only the explicit one is taken without being a
UUID; the user id is the same whatever session the client's identity carries. -/
theorem user_apart_from_session :
    (∀ (payload : Fields φ) o, resolveIdentity (Json.obj payload) = .ok o →
      (∀ r, o = some r → Declares payload r.source r.sessionId ∧
        (r.source ≠ .metadata → isUuid r.sessionId)) ∧
      (o = none ↔ ∀ source session, ¬ Declares payload source session)) ∧
    (∀ (u u' : Text) (payload payload' : Fields φ) o o', DifferOnly u u' payload payload' →
      resolveIdentity (Json.obj payload) = .ok o → resolveIdentity (Json.obj payload') = .ok o' →
      o.map (·.userId) = o'.map (·.userId)) ∧
    (∀ (u : Text) (payload : Fields φ) o, Carries u payload →
      resolveIdentity (Json.obj payload) = .ok o → o.map (·.sessionId) = some u) := by
  refine ⟨?_, ?_, ?_⟩
  · intro payload o h
    rcases resolveIdentity_ok h with ⟨rfl, hs⟩ | ⟨r, rfl, hs, -⟩
    · rcases sessionOfPayload_ok hs with ⟨_, _, hsome, _⟩ | ⟨-, hnone⟩
      · cases hsome
      · exact ⟨nofun, fun _ => hnone, fun _ => rfl⟩
    · rcases sessionOfPayload_ok hs with ⟨source, session, hsome, hd⟩ | ⟨hnone, -⟩
      · simp only [Option.some.injEq, Prod.mk.injEq] at hsome
        obtain ⟨rfl, rfl⟩ := hsome
        refine ⟨?_, nofun, fun hnone => absurd hd (hnone _ _)⟩
        intro r' hr
        cases hr
        exact ⟨hd, hd.isUuid⟩
      · cases hnone
  · intro u u' payload payload' o o' hdiff h h'
    have hdeclares := hdiff.declares
    rcases resolveIdentity_ok h with ⟨rfl, hs⟩ | ⟨r, rfl, hs, hu⟩ <;>
    rcases resolveIdentity_ok h' with ⟨rfl, hs'⟩ | ⟨r', rfl, hs', hu'⟩
    · rfl
    · exfalso
      have hnone := (declares_of_ok hs).not.mp (by simp)
      have hsome := (declares_of_ok hs').mp rfl
      exact hnone (hdeclares.mpr hsome)
    · exfalso
      have hnone := (declares_of_ok hs').not.mp (by simp)
      have hsome := (declares_of_ok hs).mp rfl
      exact hnone (hdeclares.mp hsome)
    · rw [Option.map_some, Option.map_some, resolveUser_alike hdiff hu hu']
  · intro u payload o hc h
    rcases resolveIdentity_ok h with ⟨rfl, hs⟩ | ⟨r, rfl, hs, -⟩
    · exact absurd (sessionOfPayload_carries hc hs) nofun
    · exact sessionOfPayload_carries hc hs

end

end

/-- A decoder for texts that hold no JSON. -/
abbrev plainTexts : JsonDecoder Unit := ⟨fun _ => .error .valueError⟩

def explicitPayload : Fields Unit :=
  [(codePoints "metadata", .obj [(codePoints "session_id", .str (codePoints "sess-explicit"))])]

/-- A client's explicit session id is kept although it is no UUID. -/
theorem explicit_session_kept :
    letI := plainTexts
    resolveIdentity (Json.obj explicitPayload) =
      .ok (some ⟨codePoints "sess-explicit", none, .metadata⟩) ∧
    isUuid (codePoints "sess-explicit") = false := by
  decide

def firstSessionId : Text := codePoints "11111111-2222-4333-8444-555555555555"

def secondSessionId : Text := codePoints "0190f5e0-0000-7000-8000-000000000001"

def clientPayload (session : Text) : Fields Unit :=
  [(codePoints "end_user", .str (codePoints "user_a1b2_session_" ++ session))]

theorem clientPayload_delimited {session : Text} (h : isUuid session)
    (hs : Stripped (codePoints "user_a1b2_session_" ++ session)) :
    Delimited (codePoints "user_a1b2_") session
      (Captured.strip (codePoints "user_a1b2_session_" ++ session)) := by
  rw [hs]
  exact ⟨rfl, h, .inr rfl⟩

theorem clientPayload_stripped :
    Stripped (codePoints "user_a1b2_session_" ++ firstSessionId) ∧
    Stripped (codePoints "user_a1b2_session_" ++ secondSessionId) := by
  unfold Stripped
  decide +kernel

theorem clientPayload_resolves :
    letI := plainTexts
    resolveIdentity (Json.obj (clientPayload firstSessionId)) =
      .ok (some ⟨firstSessionId, some (codePoints "user_a1b2"), .identitySuffix⟩) ∧
    resolveIdentity (Json.obj (clientPayload secondSessionId)) =
      .ok (some ⟨secondSessionId, some (codePoints "user_a1b2"), .identitySuffix⟩) := by
  decide +kernel

theorem clientPayload_endUser (session : Text) :
    field (clientPayload session) "end_user" =
      .str (codePoints "user_a1b2_session_" ++ session) := by
  simp only [field, fieldOr, clientPayload, List.find?_cons, beq_self_eq_true]

theorem clientPayload_other (session : Text) {key : String} (h : key ≠ "end_user") :
    field (clientPayload session) key = .null := by
  have hne : (codePoints "end_user" == codePoints key) = false := by
    rw [beq_eq_false_iff_ne]
    exact fun heq => h (codePoints_injective heq).symm
  simp only [field, fieldOr, clientPayload, List.find?_cons, hne, List.find?_nil]

theorem clientPayload_differOnly {session session' : Text}
    (h : isUuid session) (h' : isUuid session')
    (hs : Stripped (codePoints "user_a1b2_session_" ++ session))
    (hs' : Stripped (codePoints "user_a1b2_session_" ++ session')) :
    letI := plainTexts
    DifferOnly session session' (clientPayload session) (clientPayload session') := by
  let decoder := plainTexts
  refine ⟨?_, .inr ⟨_, _, clientPayload_endUser _, clientPayload_endUser _,
    .delimited (clientPayload_delimited h hs) (clientPayload_delimited h' hs')⟩, .inl ?_⟩
  · intro key hkey
    have hne : key ≠ "end_user" := fun he => hkey (he ▸ List.mem_cons_self)
    rw [clientPayload_other _ hne, clientPayload_other _ hne]
  · rw [clientPayload_other _ (by decide), clientPayload_other _ (by decide)]

theorem two_sessions_one_user :
    letI := plainTexts
    ∃ o o', resolveIdentity (Json.obj (clientPayload firstSessionId)) = .ok o ∧
      resolveIdentity (Json.obj (clientPayload secondSessionId)) = .ok o' ∧
      o.map (·.userId) = o'.map (·.userId) := by
  let decoder := plainTexts
  have hlawful : LawfulDecoder Unit := ⟨fun t d h => by cases h⟩
  have hdiff := clientPayload_differOnly (by decide) (by decide) clientPayload_stripped.1
    clientPayload_stripped.2
  obtain ⟨h, h'⟩ := clientPayload_resolves
  exact ⟨_, _, h, h', user_apart_from_session.2.1 _ _ _ _ _ _ hdiff h h'⟩

end Sediment.Proofs.SessionIdentities

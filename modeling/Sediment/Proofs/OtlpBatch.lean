import Sediment.Capture.Otlp
import Sediment.Proofs.GatewayTotal

namespace Sediment.Proofs.OtlpBatch
open Sediment.Base Base.JsonScan Sediment.Core Sediment.Core.Captured Sediment.Capture
open Capture.Otlp

section
variable {φ : Type}

def modifyKey (key : String) (f : Payload φ → Payload φ) : Fields φ → Fields φ
  | [] => []
  | (k, v) :: rest =>
    if k == codePoints key then (k, f v) :: rest else (k, v) :: modifyKey key f rest

def modifyField (key : String) (f : Payload φ → Payload φ) : Payload φ → Payload φ
  | .obj fields => .obj (modifyKey key f fields)
  | v => v

def modifyItem (i : Nat) (f : Payload φ → Payload φ) : Payload φ → Payload φ
  | .arr items => .arr (items.modify i f)
  | v => v

/-- The payload with another value at `resourceLogs[i].scopeLogs[j].logRecords[k]`. -/
def replaceRecord (i j k : Nat) (v : Payload φ) (payload : Fields φ) : Fields φ :=
  modifyKey "resourceLogs" (modifyItem i (modifyField "scopeLogs" (modifyItem j
    (modifyField "logRecords" (modifyItem k (fun _ => v)))))) payload

theorem find?_modifyKey (key : String) (f : Payload φ → Payload φ) (fields : Fields φ) :
    (modifyKey key f fields).find? (·.1 == codePoints key) =
      (fields.find? (·.1 == codePoints key)).map (fun p => (p.1, f p.2)) := by
  induction fields with
  | nil => rfl
  | cons p rest ih =>
    obtain ⟨k, v⟩ := p
    by_cases hk : (k == codePoints key) = true
    · simp [modifyKey, hk]
    · simp [modifyKey, hk, ih]

theorem find?_modifyKey_ne {key other : String} (hne : codePoints other ≠ codePoints key)
    (f : Payload φ → Payload φ) (fields : Fields φ) :
    (modifyKey key f fields).find? (·.1 == codePoints other) =
      fields.find? (·.1 == codePoints other) := by
  induction fields with
  | nil => rfl
  | cons p rest ih =>
    obtain ⟨k, v⟩ := p
    by_cases hk : (k == codePoints key) = true
    · have hother : (k == codePoints other) = false := by
        rw [beq_eq_false_iff_ne, eq_of_beq hk]
        exact hne.symm
      simp [modifyKey, hk, hother]
    · simp only [modifyKey, hk, Bool.false_eq_true, if_false, List.find?_cons, ih]

/-- A walk with another record in one slot. -/
def replaceSlot (slot : Nat) (v : Payload φ) (walk : Walk φ) : Walk φ :=
  ⟨walk.entries.modify slot (fun e => (e.1, v)), walk.malformedContainers⟩

theorem replaceSlot_none (v : Payload φ) (walk : Walk φ) :
    replaceSlot walk.entries.length v walk = walk := by
  rw [replaceSlot, List.modify_eq_self (Nat.le_refl _)]

theorem walkItems_modify {walk : Payload φ → Walk φ} {f : Payload φ → Payload φ} {v : Payload φ}
    (hwalk : ∀ x, ∃ slot, walk (f x) = replaceSlot slot v (walk x)) (key : String) (i : Nat)
    (container : Fields φ) :
    ∃ slot, walkItems (modifyKey key (modifyItem i f) container) key walk =
      replaceSlot slot v (walkItems container key walk) := by
  unfold walkItems fieldOr
  rw [find?_modifyKey]
  cases container.find? (·.1 == codePoints key) with
  | none => exact ⟨_, (replaceSlot_none v _).symm⟩
  | some p =>
    obtain ⟨k, value⟩ := p
    cases value with
    | arr values =>
      have hentries : ∀ x, ∃ slot, (walk (f x)).entries =
          (walk x).entries.modify slot (fun e => (e.1, v)) := by
        intro x
        obtain ⟨slot, hslot⟩ := hwalk x
        exact ⟨slot, by rw [hslot]; rfl⟩
      have hcounts : (values.modify i f).map (fun x => (walk x).malformedContainers) =
          values.map (fun x => (walk x).malformedContainers) := by
        apply map_modify
        intro x
        obtain ⟨slot, hslot⟩ := hwalk x
        rw [hslot]
        rfl
      obtain ⟨slot, hslot⟩ := flatMap_modify (g := fun x => (walk x).entries) hentries values i
      refine ⟨slot, ?_⟩
      simp only [Option.map_some, modifyItem, Walk.concat, replaceSlot, List.flatMap_map,
        List.map_map, Function.comp_def, hslot, hcounts]
    | _ => exact ⟨_, (replaceSlot_none v _).symm⟩

variable [PyFloat φ] [TextTables]

omit [PyFloat φ] [TextTables] in
theorem walkScope_modify (resource : Attrs φ) (k : Nat) (v scopeLogs : Payload φ) :
    ∃ slot, walkScope resource (modifyField "logRecords" (modifyItem k (fun _ => v)) scopeLogs) =
      replaceSlot slot v (walkScope resource scopeLogs) := by
  cases scopeLogs with
  | obj fields => exact walkItems_modify (fun x => ⟨0, rfl⟩) "logRecords" k fields
  | _ => exact ⟨_, (replaceSlot_none v _).symm⟩

theorem resourceAttrs_modify (f : Payload φ → Payload φ) (resourceLogs : Fields φ) :
    resourceAttrs (modifyKey "scopeLogs" f resourceLogs) = resourceAttrs resourceLogs := by
  unfold resourceAttrs field fieldOr
  rw [find?_modifyKey_ne (by decide)]

theorem walkResource_modify (j k : Nat) (v resourceLogs : Payload φ) :
    ∃ slot, walkResource (modifyField "scopeLogs" (modifyItem j
        (modifyField "logRecords" (modifyItem k (fun _ => v)))) resourceLogs) =
      replaceSlot slot v (walkResource resourceLogs) := by
  cases resourceLogs with
  | obj fields =>
    simp only [modifyField, walkResource, resourceAttrs_modify]
    exact walkItems_modify (walkScope_modify _ k v) "scopeLogs" j fields
  | _ => exact ⟨_, (replaceSlot_none v _).symm⟩

/-- A replaced record keeps its slot, and every other slot what it holds. -/
theorem walkPayload_replace (i j k : Nat) (v : Payload φ) (payload : Fields φ) :
    ∃ slot, walkPayload (replaceRecord i j k v payload) =
      replaceSlot slot v (walkPayload payload) :=
  walkItems_modify (walkResource_modify j k v) "resourceLogs" i payload

end

section
variable {φ : Type} [JsonDecoder φ]

theorem decoded_ok_iff (s : Text) :
    (∃ v, decoded (φ := φ) s = .ok v) ↔ ¬ TooDeep φ s := by
  unfold decoded TooDeep
  cases h : JsonDecoder.loads (φ := φ) s with
  | ok v => simp
  | error e => cases e <;> simp

theorem map_ok_iff {ε α β : Type} {x : Except ε α} {f : α → β} :
    (∃ b, x.map f = .ok b) ↔ ∃ a, x = .ok a := by
  cases x <;> simp [Except.map]

end

section
variable {φ : Type}

/-- The text of one attribute of a result. -/
def textOf (value : Payload φ) : List Text := (asText value).toList

variable [PyFloat φ] [FloatOrder φ] [TextTables] [PyTime φ] [JsonDecoder φ] [StrDepth]

/-- The tool input that a decision of Claude Code has decoded. -/
def ccDecodes (results : Dict Text (LogRecord φ)) (record : LogRecord φ) : List Text :=
  if record.body = codePoints "claude_code.tool_decision" ∧
      oneOf (attr record.attrs "tool_name") ccEditTools ∧
      oneOf (attr record.attrs "decision") ["accept", "reject"] ∧
      (occurredAt (field record.fields "timeUnixNano")).isSome ∧ (recordSession record).isSome then
    match joined results (strOrNone (attr record.attrs "tool_use_id")) with
    | some result => textOf (attr result.attrs "tool_input")
    | none => []
  else []

/-- The shell arguments that a decision of Codex has decoded. -/
def cxDecodes (results : Dict Text (LogRecord φ)) (record : LogRecord φ) : List Text :=
  if isText (attr record.attrs "event.name") "codex.tool_decision" ∧
      isText (attr record.attrs "tool_name") "exec_command" ∧
      (cxVerdict (attr record.attrs "decision")).isSome then
    textOf (resultArguments (joined results (strOrNone (attr record.attrs "call_id"))))
  else []

/-- No event name of the batch and no text that it decodes nests too deep. -/
structure Decodable (payload : Fields φ) : Prop where
  names : ∀ record ∈ iterRecords payload, (attr record.attrs "event.name").nesting ≤ StrDepth.depth
  texts : ∀ record ∈ iterRecords payload,
    ∀ s ∈ ccDecodes (tableOf ccResult (iterRecords payload)) record ++
      cxDecodes (tableOf cxResult (iterRecords payload)) record, ¬ TooDeep φ s

end

section
variable {φ : Type} [PyFloat φ] [TextTables] [PyTime φ] [Interpreter] (org : Text)

theorem editObservations_ok (record : LogRecord φ) :
    ∃ facts, editObservations org record = .ok facts := by
  unfold editObservations
  simp only
  split
  · split
    · split <;> exact ⟨_, rfl⟩
    · exact ⟨_, rfl⟩
  · exact ⟨_, rfl⟩

theorem rejectedEdits_ok (record : LogRecord φ) :
    ∃ facts, rejectedEdits org record = .ok facts := by
  unfold rejectedEdits
  simp only
  split
  · split
    · split <;> exact ⟨_, rfl⟩
    · exact ⟨_, rfl⟩
  · exact ⟨_, rfl⟩

theorem retryLinkages_ok (record : LogRecord φ) :
    ∃ facts, retryLinkages org record = .ok facts := by
  unfold retryLinkages
  split <;> exact ⟨_, rfl⟩

variable [FloatOrder φ]

theorem copilotDecisions_ok_iff [StrDepth] (record : LogRecord φ) :
    (∃ facts, copilotDecisions org record = .ok facts) ↔
      (attr record.attrs "event.name").nesting ≤ StrDepth.depth := by
  unfold copilotDecisions eventName
  by_cases h : (attr record.attrs "event.name").nesting ≤ StrDepth.depth
  · rw [if_pos h]
    exact ⟨fun _ => h, fun _ => ⟨_, rfl⟩⟩
  · rw [if_neg h]
    constructor
    · intro hok
      obtain ⟨facts, hok⟩ := hok
      cases hok
    · exact fun hle => absurd hle h

theorem sedimentDecisions_ok [Sha256] (record : LogRecord φ) :
    ∃ facts, sedimentDecisions org record = .ok facts := by
  unfold sedimentDecisions
  simp only
  split
  · split <;> exact ⟨_, rfl⟩
  · exact ⟨_, rfl⟩

end

section
variable {φ : Type} [PyFloat φ] [FloatOrder φ] [TextTables] [JsonDecoder φ]

theorem resultPath_ok_iff (result : Option (LogRecord φ)) :
    (∃ path, resultPath result = .ok path) ↔
      ∀ s ∈ (match result with
        | some result => textOf (attr result.attrs "tool_input")
        | none => []), ¬ TooDeep φ s := by
  cases result with
  | none => simp [resultPath]
  | some result =>
    simp only [resultPath, ccFilePath, textOf]
    cases attr result.attrs "tool_input" with
    | str s => simp [map_ok_iff, decoded_ok_iff, asText]
    | _ => simp [asText]

omit [FloatOrder φ] in
theorem patchOf_ok_iff (toolName : Payload φ) (result : Option (LogRecord φ)) :
    (∃ patch, patchOf toolName result = .ok patch) ↔
      ∀ s ∈ (if isText toolName "exec_command" then textOf (resultArguments result) else []),
        ¬ TooDeep φ s := by
  unfold patchOf
  by_cases hshell : isText toolName "exec_command" = true
  · simp only [hshell, if_true, map_ok_iff, v4aFromShellArguments, textOf]
    cases resultArguments result with
    | str s => simp [map_ok_iff, decoded_ok_iff, asText]
    | _ => simp [asText]
  · simp [hshell]

variable [PyTime φ] [Interpreter] (org : Text)

theorem claudeCodeDecisions_ok_iff (results : Dict Text (LogRecord φ)) (record : LogRecord φ) :
    (∃ facts, claudeCodeDecisions org results record = .ok facts) ↔
      ∀ s ∈ ccDecodes results record, ¬ TooDeep φ s := by
  unfold claudeCodeDecisions ccDecodes recordSession
  simp only
  by_cases hgate : record.body = codePoints "claude_code.tool_decision" ∧
      oneOf (attr record.attrs "tool_name") ccEditTools = true ∧
      oneOf (attr record.attrs "decision") ["accept", "reject"] = true
  · rw [if_pos hgate]
    cases occurredAt (field record.fields "timeUnixNano") with
    | none => simp
    | some occurred =>
      cases (strOrNone (attr record.attrs "session.id")).or
          (strOrNone (attr record.resource "session.id")) with
      | none => simp
      | some sessionId =>
        have hpath := resultPath_ok_iff
          (joined results (strOrNone (attr record.attrs "tool_use_id")))
        simp only [hgate, Option.isSome_some, and_true, if_true, ← hpath, bind_ok]
        constructor
        · intro h
          obtain ⟨facts, path, hok, -⟩ := h
          exact ⟨path, hok⟩
        · intro h
          obtain ⟨path, hok⟩ := h
          exact ⟨_, path, hok, rfl⟩
  · rw [if_neg hgate, if_neg (fun h => hgate ⟨h.1, h.2.1, h.2.2.1⟩)]
    simp

theorem codexDecisions_ok_iff (results : Dict Text (LogRecord φ)) (record : LogRecord φ) :
    (∃ facts, codexDecisions org results record = .ok facts) ↔
      ∀ s ∈ cxDecodes results record, ¬ TooDeep φ s := by
  unfold codexDecisions cxDecodes
  simp only
  have hshell : isText (attr record.attrs "tool_name") "exec_command" = true →
      oneOf (attr record.attrs "tool_name") ["apply_patch", "exec_command"] = true := by
    intro h
    simp [oneOf, h]
  by_cases hgate : isText (attr record.attrs "event.name") "codex.tool_decision" = true ∧
      oneOf (attr record.attrs "tool_name") ["apply_patch", "exec_command"] = true
  · rw [if_pos hgate]
    cases cxVerdict (attr record.attrs "decision") with
    | none => simp
    | some accepted =>
      have hpatch := patchOf_ok_iff (attr record.attrs "tool_name")
        (joined results (strOrNone (attr record.attrs "call_id")))
      simp only [hgate.1, true_and, Option.isSome_some, and_true, ← hpatch, bind_ok]
      constructor
      · intro h
        obtain ⟨facts, patch, hok, -⟩ := h
        exact ⟨patch, hok⟩
      · intro h
        obtain ⟨patch, hok⟩ := h
        exact ⟨_, patch, hok, rfl⟩
  · rw [if_neg hgate, if_neg (fun h => hgate ⟨h.1, hshell h.2.1⟩)]
    simp

variable [Sha256] [StrDepth]

/-- What a translation is made of, one list for each translator. -/
theorem translate_eq_ok {records : List (LogRecord φ)} {t : Translation φ} :
    translate org records = .ok t ↔ ∃ copilot claudeCode codex sediment,
      emitFrom (copilotDecisions org) 0 records = .ok copilot ∧
      emitFrom (claudeCodeDecisions org (tableOf ccResult records)) 0 records = .ok claudeCode ∧
      emitFrom (codexDecisions org (tableOf cxResult records)) 0 records = .ok codex ∧
      emitFrom (sedimentDecisions org) 0 records = .ok sediment ∧
      t.decisions = copilot ++ claudeCode ++ codex ++ sediment ∧
      emitFrom (editObservations org) 0 records = .ok t.editObservations ∧
      emitFrom (rejectedEdits org) 0 records = .ok t.rejectedEdits ∧
      emitFrom (retryLinkages org) 0 records = .ok t.retryLinkages := by
  simp only [Capture.Otlp.translate, parseOtlpDecisions, bind_ok, Except.ok.injEq]
  constructor
  · intro h
    obtain ⟨_, ⟨copilot, h₁, claudeCode, h₂, codex, h₃, sediment, h₄, rfl⟩, _, h₅, _, h₆, _, h₇,
      rfl⟩ := h
    exact ⟨copilot, claudeCode, codex, sediment, h₁, h₂, h₃, h₄, rfl, h₅, h₆, h₇⟩
  · intro h
    obtain ⟨copilot, claudeCode, codex, sediment, h₁, h₂, h₃, h₄, hd, h₅, h₆, h₇⟩ := h
    refine ⟨_, ⟨copilot, h₁, claudeCode, h₂, codex, h₃, sediment, h₄, rfl⟩, _, h₅, _, h₆, _, h₇, ?_⟩
    rw [← hd]

/-- A batch is translated exactly when every event name can be spelled, and every text that it
decodes can be decoded. -/
theorem translate_ok_iff (payload : Fields φ) :
    (∃ t, translate org (iterRecords payload) = .ok t) ↔ Decodable payload := by
  simp only [translate_eq_ok]
  constructor
  · intro h
    obtain ⟨_, _, _, _, _, hcopilot, hcc, hcx, -⟩ := h
    refine ⟨fun record hrecord => ?_, fun record hrecord s hs => ?_⟩
    · have hok := emitFrom_ok_iff.mp ⟨_, hcopilot⟩ record hrecord
      exact (copilotDecisions_ok_iff org record).mp hok
    rcases List.mem_append.mp hs with hs | hs
    · have hok := emitFrom_ok_iff.mp ⟨_, hcc⟩ record hrecord
      exact (claudeCodeDecisions_ok_iff org _ record).mp hok s hs
    · have hok := emitFrom_ok_iff.mp ⟨_, hcx⟩ record hrecord
      exact (codexDecisions_ok_iff org _ record).mp hok s hs
  · intro h
    obtain ⟨copilot, h₁⟩ := emitFrom_ok_iff (n := 0).mpr (fun r hr =>
      (copilotDecisions_ok_iff org r).mpr (h.names r hr))
    have hcc : ∀ r ∈ iterRecords payload, ∃ facts,
        claudeCodeDecisions org (tableOf ccResult (iterRecords payload)) r = .ok facts :=
      fun r hr => (claudeCodeDecisions_ok_iff org _ r).mpr
        (fun s hs => h.texts r hr s (List.mem_append_left _ hs))
    have hcx : ∀ r ∈ iterRecords payload, ∃ facts,
        codexDecisions org (tableOf cxResult (iterRecords payload)) r = .ok facts :=
      fun r hr => (codexDecisions_ok_iff org _ r).mpr
        (fun s hs => h.texts r hr s (List.mem_append_right _ hs))
    obtain ⟨claudeCode, h₂⟩ := emitFrom_ok_iff (n := 0).mpr hcc
    obtain ⟨codex, h₃⟩ := emitFrom_ok_iff (n := 0).mpr hcx
    obtain ⟨sediment, h₄⟩ := emitFrom_ok_iff (n := 0).mpr
      (fun r (_ : r ∈ iterRecords payload) => sedimentDecisions_ok org r)
    obtain ⟨observations, h₅⟩ := emitFrom_ok_iff (n := 0).mpr
      (fun r (_ : r ∈ iterRecords payload) => editObservations_ok org r)
    obtain ⟨edits, h₆⟩ := emitFrom_ok_iff (n := 0).mpr
      (fun r (_ : r ∈ iterRecords payload) => rejectedEdits_ok org r)
    obtain ⟨retries, h₇⟩ := emitFrom_ok_iff (n := 0).mpr
      (fun r (_ : r ∈ iterRecords payload) => retryLinkages_ok org r)
    exact ⟨⟨copilot ++ claudeCode ++ codex ++ sediment, observations, edits, retries⟩,
      copilot, claudeCode, codex, sediment, h₁, h₂, h₃, h₄, rfl, h₅, h₆, h₇⟩

end

section
variable {φ : Type} [PyFloat φ] [FloatOrder φ] [TextTables] [PyTime φ] [Interpreter]
  [JsonDecoder φ] [Sha256] [StrDepth] (org : Text)

/-- The Fact is one that a translator makes of the record. -/
def EmitsDecision (records : List (LogRecord φ)) (record : LogRecord φ)
    (fact : DeveloperDecision φ) : Prop :=
  ∃ facts, fact ∈ facts ∧ (copilotDecisions org record = .ok facts ∨
    claudeCodeDecisions org (tableOf ccResult records) record = .ok facts ∨
    codexDecisions org (tableOf cxResult records) record = .ok facts ∨
    sedimentDecisions org record = .ok facts)

/-- Every entry is counted once, and the translated positions are those with a Fact. -/
structure Accounted (payload : Fields φ) (t : Translation φ) (r : OTLPCaptureResult φ) :
    Prop where
  decisions_eq : r.decisions = t.decisions.map Prod.snd
  observations_eq : r.editObservations = t.editObservations.map Prod.snd
  edits_eq : r.rejectedEdits = t.rejectedEdits.map Prod.snd
  retries_eq : r.retryLinkages = t.retryLinkages.map Prod.snd
  received : r.recordsReceived = (walkPayload payload).entries.length
  partition : (r.recordsReceived : Int) =
    r.recordsTranslated + r.recordsUntranslated + r.recordsMalformed
  untranslated : 0 ≤ r.recordsUntranslated
  translated : r.recordsTranslated = t.marked.card
  marked : ∀ n, n ∈ t.marked ↔ (∃ f, (n, f) ∈ t.decisions) ∨ (∃ f, (n, f) ∈ t.editObservations) ∨
    (∃ f, (n, f) ∈ t.rejectedEdits) ∨ ∃ f, (n, f) ∈ t.retryLinkages
  decision_emitted : ∀ p ∈ t.decisions, ∃ record, (iterRecords payload)[p.1]? = some record ∧
    EmitsDecision org (iterRecords payload) record p.2
  observation_emitted : ∀ p ∈ t.editObservations, ∃ record,
    (iterRecords payload)[p.1]? = some record ∧
      ∃ facts, editObservations org record = .ok facts ∧ p.2 ∈ facts
  edit_emitted : ∀ p ∈ t.rejectedEdits, ∃ record, (iterRecords payload)[p.1]? = some record ∧
    ∃ facts, rejectedEdits org record = .ok facts ∧ p.2 ∈ facts
  retry_emitted : ∀ p ∈ t.retryLinkages, ∃ record, (iterRecords payload)[p.1]? = some record ∧
    ∃ facts, retryLinkages org record = .ok facts ∧ p.2 ∈ facts

omit [PyFloat φ] [FloatOrder φ] [TextTables] [PyTime φ] [Interpreter] [JsonDecoder φ] [Sha256]
  [StrDepth] in
theorem mem_emitted {ι α ε : Type} {emit : ι → Except ε (List α)} {records : List ι}
    {out : List (Nat × α)} (h : emitFrom emit 0 records = .ok out) {p : Nat × α} (hp : p ∈ out) :
    ∃ record, records[p.1]? = some record ∧ ∃ facts, emit record = .ok facts ∧ p.2 ∈ facts := by
  obtain ⟨n, f⟩ := p
  have hlt := (emitFrom_range h _ hp).2
  rw [Nat.zero_add] at hlt
  have hat := factsAt_emitFrom h (List.getElem?_eq_getElem hlt)
  rw [Nat.zero_add] at hat
  exact ⟨_, List.getElem?_eq_getElem hlt, _, hat, mem_factsAt.mpr hp⟩

omit [PyFloat φ] [FloatOrder φ] [TextTables] [PyTime φ] [Interpreter] [JsonDecoder φ] [Sha256]
  [StrDepth] in
theorem mem_marked (t : Translation φ) (n : Nat) :
    n ∈ t.marked ↔ (∃ f, (n, f) ∈ t.decisions) ∨ (∃ f, (n, f) ∈ t.editObservations) ∨
      (∃ f, (n, f) ∈ t.rejectedEdits) ∨ ∃ f, (n, f) ∈ t.retryLinkages := by
  simp [Translation.marked]

theorem decision_emitted {records : List (LogRecord φ)} {t : Translation φ}
    (h : translate org records = .ok t) {p : Nat × DeveloperDecision φ} (hp : p ∈ t.decisions) :
    ∃ record, records[p.1]? = some record ∧ EmitsDecision org records record p.2 := by
  obtain ⟨copilot, claudeCode, codex, sediment, h₁, h₂, h₃, h₄, hd, -⟩ :=
    (translate_eq_ok org).mp h
  rw [hd] at hp
  simp only [List.mem_append] at hp
  rcases hp with ((hp | hp) | hp) | hp
  · obtain ⟨record, hrecord, facts, hfacts, hmem⟩ := mem_emitted h₁ hp
    exact ⟨record, hrecord, facts, hmem, Or.inl hfacts⟩
  · obtain ⟨record, hrecord, facts, hfacts, hmem⟩ := mem_emitted h₂ hp
    exact ⟨record, hrecord, facts, hmem, Or.inr (Or.inl hfacts)⟩
  · obtain ⟨record, hrecord, facts, hfacts, hmem⟩ := mem_emitted h₃ hp
    exact ⟨record, hrecord, facts, hmem, Or.inr (Or.inr (Or.inl hfacts))⟩
  · obtain ⟨record, hrecord, facts, hfacts, hmem⟩ := mem_emitted h₄ hp
    exact ⟨record, hrecord, facts, hmem, Or.inr (Or.inr (Or.inr hfacts))⟩

theorem card_marked_le {records : List (LogRecord φ)} {t : Translation φ}
    (h : translate org records = .ok t) : t.marked.card ≤ records.length := by
  obtain ⟨-, -, -, -, -, -, -, -, -, h₅, h₆, h₇⟩ := (translate_eq_ok org).mp h
  have hsub : t.marked ⊆ Finset.range records.length := by
    intro n hn
    have hrecord : ∃ record, records[n]? = some record := by
      rcases (mem_marked t n).mp hn with ⟨f, hf⟩ | ⟨f, hf⟩ | ⟨f, hf⟩ | ⟨f, hf⟩
      · obtain ⟨record, hrecord, -⟩ := decision_emitted org h hf
        exact ⟨record, hrecord⟩
      · obtain ⟨record, hrecord, -⟩ := mem_emitted h₅ hf
        exact ⟨record, hrecord⟩
      · obtain ⟨record, hrecord, -⟩ := mem_emitted h₆ hf
        exact ⟨record, hrecord⟩
      · obtain ⟨record, hrecord, -⟩ := mem_emitted h₇ hf
        exact ⟨record, hrecord⟩
    obtain ⟨record, hrecord⟩ := hrecord
    exact Finset.mem_range.mpr (List.getElem?_eq_some_iff.mp hrecord).1
  have hcard := Finset.card_le_card hsub
  rwa [Finset.card_range] at hcard

omit [PyFloat φ] [FloatOrder φ] [TextTables] [PyTime φ] [Interpreter] [JsonDecoder φ] [Sha256]
  [StrDepth] in
theorem filterMap_partition {σ ι : Type} (record : σ → Option ι) (entries : List σ) :
    (entries.filterMap record).length + (entries.filter (fun e => (record e).isNone)).length =
      entries.length := by
  induction entries with
  | nil => rfl
  | cons e rest ih =>
    cases h : record e with
    | none =>
      rw [List.filterMap_cons_none h, List.filter_cons_of_pos (by rw [h]; rfl), List.length_cons,
        List.length_cons]
      omega
    | some r =>
      rw [List.filterMap_cons_some h, List.filter_cons_of_neg (by rw [h]; simp),
        List.length_cons, List.length_cons]
      omega

omit [FloatOrder φ] [PyTime φ] [Interpreter] [JsonDecoder φ] [Sha256] [StrDepth] in
theorem entries_partition (payload : Fields φ) : (iterRecords payload).length +
    ((walkPayload payload).entries.filter (fun e => (asRecord e).isNone)).length =
      (walkPayload payload).entries.length :=
  filterMap_partition asRecord _

theorem accounted {payload : Fields φ} {t : Translation φ}
    (h : translate org (iterRecords payload) = .ok t) :
    ∃ r, parseOtlpLogs org payload = .ok r ∧ Accounted org payload t r := by
  obtain ⟨-, -, -, -, -, -, -, -, -, h₅, h₆, h₇⟩ := (translate_eq_ok org).mp h
  have hcard := card_marked_le org h
  refine ⟨_, by simp only [parseOtlpLogs, h, ok_bind]; rfl, ?_⟩
  exact
    { decisions_eq := rfl
      observations_eq := rfl
      edits_eq := rfl
      retries_eq := rfl
      received := entries_partition payload
      partition := by push_cast; ring
      untranslated := by simpa using hcard
      translated := rfl
      marked := mem_marked t
      decision_emitted := fun p hp => decision_emitted org h hp
      observation_emitted := fun p hp => mem_emitted h₅ hp
      edit_emitted := fun p hp => mem_emitted h₆ hp
      retry_emitted := fun p hp => mem_emitted h₇ hp }

end

section
variable {φ : Type} [PyFloat φ] [FloatOrder φ] [TextTables]

abbrev Entry (φ : Type) := Attrs φ × Payload φ

/-- The slot of the result that a call id is joined with. -/
def resultSlot (result : LogRecord φ → Option (Text × LogRecord φ)) (entries : List (Entry φ))
    (id : Text) : Option Nat :=
  lastAt (fun e => ((asRecord e).bind result).any (fun p => decide (p.1 = id))) entries

/-- The record decides on a call, and the slot holds the result of that call in one batch. -/
def Rejoined (before after : List (Entry φ)) (slot : Nat) (record : LogRecord φ) : Prop :=
  (record.body = codePoints "claude_code.tool_decision" ∧ ∃ id,
    strOrNone (attr record.attrs "tool_use_id") = some id ∧
    (resultSlot ccResult before id = some slot ∨ resultSlot ccResult after id = some slot)) ∨
  (isText (attr record.attrs "event.name") "codex.tool_decision" ∧ ∃ id,
    strOrNone (attr record.attrs "call_id") = some id ∧
    (resultSlot cxResult before id = some slot ∨ resultSlot cxResult after id = some slot))

omit [PyFloat φ] [FloatOrder φ] [TextTables] in
theorem tableOf_records (result : LogRecord φ → Option (Text × LogRecord φ))
    (entries : List (Entry φ)) :
    tableOf result (entries.filterMap asRecord) =
      tableOf (fun e => (asRecord e).bind result) entries := by
  simp only [tableOf, List.filterMap_filterMap]

omit [PyFloat φ] [FloatOrder φ] [TextTables] in
theorem results_congr {result : LogRecord φ → Option (Text × LogRecord φ)}
    {before after : List (Entry φ)} {slot : Nat} {id : Text}
    (hother : ∀ i, i ≠ slot → before[i]? = after[i]?)
    (hbefore : resultSlot result before id ≠ some slot)
    (hafter : resultSlot result after id ≠ some slot) :
    (tableOf result (before.filterMap asRecord)).get? id =
      (tableOf result (after.filterMap asRecord)).get? id := by
  have hslot : resultSlot result before id = resultSlot result after id :=
    lastAt_congr _ hother hbefore hafter
  rw [tableOf_records, tableOf_records, get?_tableOf, get?_tableOf, lastWith, lastWith]
  change ((resultSlot result before id).bind _).bind _ = ((resultSlot result after id).bind _).bind _
  rw [← hslot]
  cases h : resultSlot result before id with
  | none => rfl
  | some i =>
    have hi : before[i]? = after[i]? := hother i (fun he => hbefore (he ▸ h))
    simp only [Option.bind_some, hi]

omit [PyFloat φ] [FloatOrder φ] [TextTables] in
theorem joined_congr {results results' : Dict Text (LogRecord φ)} {callId : Option Text}
    (h : ∀ id, callId = some id → results.get? id = results'.get? id) :
    joined results callId = joined results' callId := by
  cases callId with
  | none => rfl
  | some id => exact h id rfl

variable [PyTime φ] [Interpreter] [JsonDecoder φ] [Sha256] [StrDepth] (org : Text)

omit [Sha256] [StrDepth] in
theorem claudeCodeDecisions_congr {results results' : Dict Text (LogRecord φ)}
    {record : LogRecord φ}
    (h : record.body = codePoints "claude_code.tool_decision" →
      joined results (strOrNone (attr record.attrs "tool_use_id")) =
        joined results' (strOrNone (attr record.attrs "tool_use_id"))) :
    claudeCodeDecisions org results record = claudeCodeDecisions org results' record := by
  unfold claudeCodeDecisions
  simp only
  split
  · rename_i hgate
    rw [h hgate.1]
  · rfl

omit [Sha256] [StrDepth] in
theorem codexDecisions_congr {results results' : Dict Text (LogRecord φ)}
    {record : LogRecord φ}
    (h : isText (attr record.attrs "event.name") "codex.tool_decision" = true →
      joined results (strOrNone (attr record.attrs "call_id")) =
        joined results' (strOrNone (attr record.attrs "call_id"))) :
    codexDecisions org results record = codexDecisions org results' record := by
  unfold codexDecisions
  simp only
  split
  · rename_i hgate
    rw [h hgate.1]
  · rfl

/-- The Facts of one record in two batches: the same, but for a rejoined decision. -/
structure SameFacts (before after : List (Entry φ)) (slot : Nat) (record : LogRecord φ)
    (n m : Nat) (t t' : Translation φ) : Prop where
  observations : factsAt n t.editObservations = factsAt m t'.editObservations
  edits : factsAt n t.rejectedEdits = factsAt m t'.rejectedEdits
  retries : factsAt n t.retryLinkages = factsAt m t'.retryLinkages
  decisions : ¬ Rejoined before after slot record →
    factsAt n t.decisions = factsAt m t'.decisions

omit [PyFloat φ] [FloatOrder φ] [TextTables] [PyTime φ] [Interpreter] [JsonDecoder φ] [Sha256]
  [StrDepth] in
theorem factsAt_congr {ι α ε : Type} {emit emit' : ι → Except ε (List α)} {records records' : List ι}
    {out out' : List (Nat × α)} {record : ι} {n m : Nat}
    (h : emitFrom emit 0 records = .ok out) (h' : emitFrom emit' 0 records' = .ok out')
    (hn : records[n]? = some record) (hm : records'[m]? = some record)
    (hemit : emit record = emit' record) : factsAt n out = factsAt m out' := by
  have hfacts := factsAt_emitFrom h hn
  have hfacts' := factsAt_emitFrom h' hm
  rw [hemit, hfacts', Nat.zero_add, Nat.zero_add] at hfacts
  exact (Except.ok.inj hfacts).symm

theorem sameFacts {before after : List (Entry φ)} {slot other : Nat} {e : Entry φ}
    {record : LogRecord φ} {t t' : Translation φ}
    (hother : ∀ i, i ≠ slot → before[i]? = after[i]?) (hne : other ≠ slot)
    (he : before[other]? = some e) (hrecord : asRecord e = some record)
    (ht : translate org (before.filterMap asRecord) = .ok t)
    (ht' : translate org (after.filterMap asRecord) = .ok t') :
    SameFacts before after slot record (positionOf asRecord before other)
      (positionOf asRecord after other) t t' := by
  obtain ⟨copilot, claudeCode, codex, sediment, h₁, h₂, h₃, h₄, hd, h₅, h₆, h₇⟩ :=
    (translate_eq_ok org).mp ht
  obtain ⟨copilot', claudeCode', codex', sediment', h₁', h₂', h₃', h₄', hd', h₅', h₆', h₇'⟩ :=
    (translate_eq_ok org).mp ht'
  have hn := records_at asRecord he hrecord
  have hm := records_at asRecord ((hother other hne).symm.trans he) hrecord
  have hresults : ∀ {result : LogRecord φ → Option (Text × LogRecord φ)} {callId : Option Text},
      (∀ id, callId = some id → ¬ (resultSlot result before id = some slot ∨
        resultSlot result after id = some slot)) →
      joined (tableOf result (before.filterMap asRecord)) callId =
        joined (tableOf result (after.filterMap asRecord)) callId := by
    intro result callId h
    apply joined_congr
    intro id hid
    exact results_congr hother (fun hb => h id hid (Or.inl hb)) (fun ha => h id hid (Or.inr ha))
  refine ⟨factsAt_congr h₅ h₅' hn hm rfl, factsAt_congr h₆ h₆' hn hm rfl,
    factsAt_congr h₇ h₇' hn hm rfl, ?_⟩
  intro hrejoined
  have hcc := factsAt_congr h₂ h₂' hn hm (claudeCodeDecisions_congr org (fun hbody =>
    hresults (fun id hid hslot => hrejoined (Or.inl ⟨hbody, id, hid, hslot⟩))))
  have hcx := factsAt_congr h₃ h₃' hn hm (codexDecisions_congr org (fun hname =>
    hresults (fun id hid hslot => hrejoined (Or.inr ⟨hname, id, hid, hslot⟩))))
  simp only [hd, hd', factsAt_append, factsAt_congr h₁ h₁' hn hm rfl, hcc, hcx,
    factsAt_congr h₄ h₄' hn hm rfl]

/-- A batch that returns, with every record accounted for. -/
def Sound (payload : Fields φ) : Prop :=
  ∃ t r, translate org (iterRecords payload) = .ok t ∧ parseOtlpLogs org payload = .ok r ∧
    Accounted org payload t r

/-- Some slot holds the replaced record, and no other record's Facts depend on it. -/
def Isolates (payload payload' : Fields φ) (v : Payload φ) : Prop :=
  ∃ slot, (walkPayload payload').entries =
      (walkPayload payload).entries.modify slot (fun e => (e.1, v)) ∧
    ∀ t t', translate org (iterRecords payload) = .ok t →
      translate org (iterRecords payload') = .ok t' →
      ∀ other e record, other ≠ slot → (walkPayload payload).entries[other]? = some e →
        asRecord e = some record →
        SameFacts (walkPayload payload).entries (walkPayload payload').entries slot record
          (positionOf asRecord (walkPayload payload).entries other)
          (positionOf asRecord (walkPayload payload').entries other) t t'

theorem sound_iff (payload : Fields φ) : Sound org payload ↔ Decodable payload := by
  constructor
  · intro h
    obtain ⟨t, -, ht, -⟩ := h
    exact (translate_ok_iff org payload).mp ⟨t, ht⟩
  · intro h
    obtain ⟨t, ht⟩ := (translate_ok_iff org payload).mpr h
    obtain ⟨r, hr, haccounted⟩ := accounted org ht
    exact ⟨t, r, ht, hr, haccounted⟩

theorem isolates (i j k : Nat) (v : Payload φ) (payload : Fields φ) :
    Isolates org payload (replaceRecord i j k v payload) v := by
  obtain ⟨slot, hslot⟩ := walkPayload_replace i j k v payload
  have hentries : (walkPayload (replaceRecord i j k v payload)).entries =
      (walkPayload payload).entries.modify slot (fun e => (e.1, v)) := by
    rw [hslot]
    rfl
  refine ⟨slot, hentries, ?_⟩
  intro t t' ht ht' other e record hne he hrecord
  refine sameFacts org ?_ hne he hrecord ht ht'
  intro i hi
  rw [hentries, List.getElem?_modify_ne _ _ (Ne.symm hi)]

/-- Both batches are accounted for, and the replaced record leaves the others' Facts alone,
exactly when neither batch spells an event name or decodes a text that nests too deep. -/
theorem batches_sound_iff (i j k : Nat) (v : Payload φ) (payload : Fields φ) :
    (Sound org payload ∧ Sound org (replaceRecord i j k v payload) ∧
      Isolates org payload (replaceRecord i j k v payload) v) ↔
    Decodable payload ∧ Decodable (replaceRecord i j k v payload) := by
  rw [sound_iff, sound_iff]
  constructor
  · intro h
    exact ⟨h.1, h.2.1⟩
  · intro h
    exact ⟨h.1, h.2, isolates org i j k v payload⟩

end

theorem skipBlanks_bracket (s : List Char) : skipBlanks ('[' :: s) = '[' :: s := rfl

/-- One bracket more than the interpreter can follow. -/
theorem loadOnce_brackets (limit : Nat) (rest : List Char) :
    loadOnce limit (List.replicate (limit + 1) '[' ++ rest) = .error .recursionError := by
  induction limit with
  | zero => rfl
  | succ d ih =>
    rw [List.replicate_succ, List.cons_append] at ih
    rw [List.replicate_succ, List.cons_append, loadOnce, loadArray, List.replicate_succ,
      List.cons_append, skipBlanks_bracket]
    change (loadItems (loadOnce d) _ ('[' :: (List.replicate d '[' ++ rest))).map _ = _
    rw [loadItems, ih]
    rfl

theorem loads_brackets (limit : Nat) :
    loads limit (List.replicate (limit + 1) '[') = .error .recursionError := by
  have h := loadOnce_brackets limit []
  rw [List.append_nil, List.replicate_succ] at h
  rw [loads, List.replicate_succ, skipBlanks_bracket, h]
  rfl

@[reducible] def exactOrder : FloatOrder ℚ := ⟨fun x n => some (compare x n)⟩

@[reducible] def exactTime : PyTime ℚ := ⟨fun m n => some (m / n), fun x => some ⌊x * 1000000⌋⟩

@[reducible] def asciiTables : TextTables :=
  ⟨fun s => s.map (fun c => if 65 ≤ c ∧ c ≤ 90 then c + 32 else c), fun _ => none⟩

@[reducible] def thousandSpelled : StrDepth := ⟨1000⟩

@[reducible] def echoed : Sha256 := ⟨String.ofList⟩

def stringValue (t : Text) : Payload ℚ := .obj [(codePoints "stringValue", .str t)]

def keyValue (key value : String) : Payload ℚ :=
  .obj [(codePoints "key", .str (codePoints key)),
    (codePoints "value", stringValue (codePoints value))]

def record (body : String) (attributes : List (Payload ℚ)) : Fields ℚ :=
  [(codePoints "timeUnixNano", .str (codePoints "1784854800000000000")),
    (codePoints "body", stringValue (codePoints body)), (codePoints "attributes", .arr attributes)]

def decisionFields : Fields ℚ :=
  record "claude_code.tool_decision" [keyValue "tool_name" "Edit", keyValue "decision" "accept",
    keyValue "session.id" "s1", keyValue "tool_use_id" "t1", keyValue "source" "config"]

/-- The result of the call. -/
def pathFields : Fields ℚ :=
  record "claude_code.tool_result" [keyValue "tool_use_id" "t1", keyValue "tool_input" "\x7b\x7d"]

def batchOf (records : List (Payload ℚ)) : Fields ℚ :=
  [(codePoints "resourceLogs", .arr [.obj [(codePoints "scopeLogs", .arr [.obj
    [(codePoints "logRecords", .arr records)]])]])]

/-- A decision whose path is joined from its result, and the batch without the result. -/
theorem joined_batch_isolated :
    letI := GatewayTotal.exactFloat; letI := exactOrder; letI := asciiTables; letI := exactTime
    letI := GatewayTotal.lowerInterpreter; letI := GatewayTotal.thousandDeep; letI := echoed
    letI := thousandSpelled
    Sound (codePoints "acme") (batchOf [.obj decisionFields, .obj pathFields]) ∧
      Sound (codePoints "acme")
        (replaceRecord 0 0 1 .null (batchOf [.obj decisionFields, .obj pathFields])) ∧
      Isolates (codePoints "acme") (batchOf [.obj decisionFields, .obj pathFields])
        (replaceRecord 0 0 1 .null (batchOf [.obj decisionFields, .obj pathFields])) .null := by
  let _ := GatewayTotal.exactFloat
  let _ := exactOrder
  let _ := asciiTables
  let _ := exactTime
  let _ := GatewayTotal.thousandDeep
  let _ := GatewayTotal.lowerInterpreter
  let _ := echoed
  let _ := thousandSpelled
  have hrecords : iterRecords (batchOf [.obj decisionFields, .obj pathFields]) =
      [⟨.empty, decisionFields⟩, ⟨.empty, pathFields⟩] := rfl
  have hrecords' : iterRecords (replaceRecord 0 0 1 .null
      (batchOf [.obj decisionFields, .obj pathFields])) = [⟨.empty, decisionFields⟩] := rfl
  have hinput : ¬ TooDeep ℚ (codePoints "\x7b\x7d") := by
    intro h
    have hloads : JsonDecoder.loads (codePoints "\x7b\x7d") = .ok (.obj [] : Payload ℚ) := rfl
    rw [TooDeep, hloads] at h
    cases h
  have hoccurred : (occurredAt (field decisionFields "timeUnixNano")).isSome = true := by
    decide +kernel
  have htexts : ccDecodes (tableOf ccResult [⟨.empty, decisionFields⟩, ⟨.empty, pathFields⟩])
      ⟨.empty, decisionFields⟩ = [codePoints "\x7b\x7d"] := by
    rw [ccDecodes, if_pos ⟨rfl, rfl, rfl, hoccurred, rfl⟩]
    rfl
  have htexts' : ccDecodes (tableOf ccResult [⟨.empty, decisionFields⟩])
      ⟨.empty, decisionFields⟩ = [] := by
    rw [ccDecodes, if_pos ⟨rfl, rfl, rfl, hoccurred, rfl⟩]
    rfl
  apply (batches_sound_iff _ 0 0 1 .null _).mpr
  refine ⟨⟨?_, ?_⟩, ?_, ?_⟩
  · rw [hrecords]
    decide +kernel
  · rw [hrecords, List.forall_mem_cons, List.forall_mem_singleton, htexts]
    refine ⟨fun s hs => ?_, fun s hs => ?_⟩
    · obtain rfl : s = codePoints "\x7b\x7d" := List.mem_singleton.mp hs
      exact hinput
    · cases hs
  · rw [hrecords']
    decide +kernel
  · rw [hrecords', List.forall_mem_singleton, htexts']
    intro s hs
    cases hs

/-- The result of the call, with a tool input of nested brackets. -/
def resultFields : Fields ℚ :=
  record "claude_code.tool_result" [keyValue "tool_use_id" "t1",
    .obj [(codePoints "key", .str (codePoints "tool_input")),
      (codePoints "value", stringValue (List.replicate 1001 91))]]

def nestedBatch : Fields ℚ := batchOf [.obj decisionFields, .obj resultFields]

/-- The decision is accepted, and its result makes `json.loads` raise: the batch is lost. -/
theorem nested_batch_lost :
    letI := GatewayTotal.exactFloat; letI := exactOrder; letI := asciiTables; letI := exactTime
    letI := GatewayTotal.lowerInterpreter; letI := GatewayTotal.thousandDeep; letI := echoed
    letI := thousandSpelled
    parseOtlpLogs (codePoints "acme") nestedBatch = .error .recursionError := by
  let _ := GatewayTotal.exactFloat
  let _ := exactOrder
  let _ := asciiTables
  let _ := exactTime
  let _ := GatewayTotal.thousandDeep
  let _ := GatewayTotal.lowerInterpreter
  let _ := echoed
  let _ := thousandSpelled
  have hrecords : (⟨.empty, decisionFields⟩ : LogRecord ℚ) ∈ iterRecords nestedBatch :=
    List.mem_cons_self
  have hoccurred : (occurredAt (field decisionFields "timeUnixNano")).isSome = true := by
    decide +kernel
  have htexts : ccDecodes (tableOf ccResult (iterRecords nestedBatch)) ⟨.empty, decisionFields⟩ =
      [List.replicate 1001 91] := by
    rw [ccDecodes, if_pos ⟨rfl, rfl, rfl, hoccurred, rfl⟩]
    rfl
  have hdeep : TooDeep ℚ (List.replicate 1001 91) := by
    change ((loads 1000 ((List.replicate 1001 91).map Char.ofNat)).map _) = _
    rw [List.map_replicate]
    change (loads 1000 (List.replicate (1000 + 1) '[')).map _ = _
    rw [loads_brackets]
    rfl
  cases h : parseOtlpLogs (codePoints "acme") nestedBatch with
  | error e =>
    cases e
    rfl
  | ok r =>
    simp only [parseOtlpLogs, bind_ok] at h
    obtain ⟨t, ht, -⟩ := h
    have hdecodable := (translate_ok_iff _ nestedBatch).mp ⟨t, ht⟩
    apply absurd hdeep
    apply hdecodable.texts _ hrecords
    rw [htexts]
    exact List.mem_cons_self

end Sediment.Proofs.OtlpBatch

import Sediment.Base.Results
import Sediment.Export.Trainer
import Sediment.Proofs.GatewayTotal

namespace Sediment.Proofs.TrainerMapping
open Sediment.Base Base.JsonScan Sediment.Core Sediment.Core.Captured Sediment.Export

/-- A canonical message without its finish reason. -/
abbrev Said (φ : Type) := Text × List (MessagePart φ)

section
variable {φ : Type}

def glue : MessagePart φ → List (MessagePart φ) → List (MessagePart φ)
  | .text a, .text b :: parts => .text (a ++ b) :: parts
  | .reasoning a, .reasoning b :: parts => .reasoning (a ++ b) :: parts
  | part, parts => part :: parts

/-- Adjacent texts, and adjacent reasoning, as one part. -/
def joinParts (parts : List (MessagePart φ)) : List (MessagePart φ) := parts.foldr glue []

def callPart (call : TrainerToolCall φ) : MessagePart φ :=
  .toolCall call.id call.name call.arguments

theorem joinParts_texts (texts : List Text) (rest : List (MessagePart φ))
    (h : ∀ t parts, joinParts rest ≠ .text t :: parts) :
    joinParts (texts.map .text ++ rest) =
      ((Export.joined texts).map .text).toList ++ joinParts rest := by
  induction texts with
  | nil => rfl
  | cons t texts ih =>
    have hstep : joinParts ((t :: texts).map .text ++ rest) =
        glue (.text t) (joinParts (texts.map .text ++ rest)) := rfl
    rw [hstep, ih]
    cases texts with
    | nil =>
      have hjoined : Export.joined [t] = some t := by simp [Export.joined]
      rw [hjoined]
      change glue (.text t) (joinParts rest) = _
      cases hrest : joinParts rest with
      | nil => rfl
      | cons part parts =>
        cases part with
        | text u => exact absurd hrest (h u parts)
        | reasoning u => rfl
        | toolCall id name arguments => rfl
        | toolCallResponse id result => rfl
    | cons u texts => simp [Export.joined, glue]

theorem joinParts_reasonings (texts : List Text) {rest : List (MessagePart φ)}
    (h : ∀ t parts, joinParts rest ≠ .reasoning t :: parts) :
    joinParts (texts.map .reasoning ++ rest) =
      ((Export.joined texts).map .reasoning).toList ++ joinParts rest := by
  induction texts with
  | nil => rfl
  | cons t texts ih =>
    have hstep : joinParts ((t :: texts).map .reasoning ++ rest) =
        glue (.reasoning t) (joinParts (texts.map .reasoning ++ rest)) := rfl
    rw [hstep, ih]
    cases texts with
    | nil =>
      have hjoined : Export.joined [t] = some t := by simp [Export.joined]
      rw [hjoined]
      change glue (.reasoning t) (joinParts rest) = _
      cases hrest : joinParts rest with
      | nil => rfl
      | cons part parts =>
        cases part with
        | reasoning u => exact absurd hrest (h u parts)
        | text u => rfl
        | toolCall id name arguments => rfl
        | toolCallResponse id result => rfl
    | cons u texts => simp [Export.joined, glue]

theorem joinParts_calls (calls : List (TrainerToolCall φ)) :
    joinParts (calls.map callPart) = calls.map callPart := by
  induction calls with
  | nil => rfl
  | cons call calls ih =>
    change glue (callPart call) (joinParts (calls.map callPart)) = _
    rw [ih]
    rfl

theorem joinParts_response (id : Text) (result : Json Text φ) (rest : List (MessagePart φ)) :
    joinParts (.toolCallResponse id result :: rest) = .toolCallResponse id result :: joinParts rest :=
  rfl

/-- An assistant's parts, joined: its thinking, its text and its calls. -/
theorem joinParts_assistant (thinking text : List Text) (calls : List (TrainerToolCall φ)) :
    joinParts (thinking.map .reasoning ++ (text.map .text ++ calls.map callPart)) =
      ((Export.joined thinking).map .reasoning).toList ++
        (((Export.joined text).map .text).toList ++ calls.map callPart) := by
  have hcalls := joinParts_calls calls
  have htext := joinParts_texts text (calls.map callPart) (by
    intro t parts heq
    rw [hcalls] at heq
    cases calls <;> cases heq)
  rw [hcalls] at htext
  rw [joinParts_reasonings, htext]
  intro t parts heq
  rw [htext] at heq
  cases hjoined : Export.joined text with
  | some u =>
    rw [hjoined] at heq
    cases heq
  | none =>
    rw [hjoined] at heq
    cases calls <;> cases heq

/-- The text that stands for a tool result. -/
def resultText [PyFloat φ] : Json Text φ → Text
  | .str t => t
  | value => strictJson value

/-- A part beside tool results: a result as its text, or the user's text. -/
def separate [PyFloat φ] : MessagePart φ → Said φ
  | .toolCallResponse id result =>
    (codePoints "tool", [.toolCallResponse id (.str (resultText result))])
  | part => (codePoints "user", [part])

/-- A message with joined parts, where tool results and the texts between them stand apart. -/
def normalMessage [PyFloat φ] (message : InferenceMessage φ) : List (Said φ) :=
  if message.parts.any isResponse then (joinParts message.parts).map separate
  else [(message.role, joinParts message.parts)]

/-- A mapped message read back. -/
def recover : TrainerMessage φ → Said φ
  | .text role content => (role, [.text content])
  | .assistant thinking content calls =>
    (codePoints "assistant", (thinking.map .reasoning).toList ++
      ((content.map .text).toList ++ calls.map callPart))
  | .tool _ id content => (codePoints "tool", [.toolCallResponse id (.str content)])

def callsOf : TrainerMessage φ → List (TrainerToolCall φ)
  | .assistant _ _ calls => calls
  | _ => []

def callId : MessagePart φ → Option Text
  | .toolCall id _ _ => some id
  | _ => none

def callIds (parts : List (MessagePart φ)) : List Text := parts.filterMap callId

def namedCall (call : TrainerToolCall φ) : Text × Text := (call.id, call.name)

/-- A part that may stand beside tool results, after calls with these ids. -/
def Answers [PyFloat φ] (role : Text) (earlier : List Text) : MessagePart φ → Prop
  | .text _ => role = codePoints "user"
  | .toolCallResponse id result => id ∈ earlier ∧ ∃ t, toolResultText result = .ok t
  | _ => False

/-- A message that has a trainer form, after calls with these ids. -/
inductive Sayable [PyFloat φ] (earlier : List Text) (message : InferenceMessage φ) : Prop where
  | texts (texts : List Text)
      (role : message.role ∈ ["developer", "system", "user"].map codePoints)
      (parts : message.parts = texts.map .text) (nonempty : texts ≠ [])
  | results (role : message.role ∈ ["tool", "user"].map codePoints)
      (result : ∃ part ∈ message.parts, isResponse part = true)
      (answers : ∀ part ∈ message.parts, Answers message.role earlier part)
  | assistant (thinking text : List Text) (calls : List (TrainerToolCall φ))
      (role : message.role = codePoints "assistant")
      (parts : message.parts =
        thinking.map .reasoning ++ (text.map .text ++ calls.map callPart))
      (nonempty : message.parts ≠ [])
      (fresh : (earlier ++ calls.map TrainerToolCall.id).Nodup)

/-- Messages that have a trainer form one after the other. -/
def SayableFrom [PyFloat φ] (completion : Bool) :
    List Text → List (InferenceMessage φ) → Prop
  | _, [] => True
  | earlier, message :: rest =>
    (Sayable earlier message ∧ (completion = true → message.role = codePoints "assistant")) ∧
      SayableFrom completion (earlier ++ callIds message.parts) rest

/-- What an assistant message has gathered of these parts. -/
structure Gathered (names : ToolNames) (seen : List (MessagePart φ)) (s : AssistantParts φ) :
    Prop where
  parts : seen = s.thinking.map .reasoning ++ (s.text.map .text ++ s.toolCalls.map callPart)
  textless : s.phase < 1 → s.text = []
  callless : s.phase < 2 → s.toolCalls = []
  names : s.names.entries = names.entries ++ s.toolCalls.map namedCall

theorem entries_set_new {names : ToolNames} {id : Text} (name : Text)
    (h : names.contains id = false) : (names.set id name).entries = names.entries ++ [(id, name)] := by
  apply Dict.alterEntries_of_not_mem
  intro hmem
  have hkey := (Dict.contains_iff names).mpr hmem
  rw [h] at hkey
  cases hkey

theorem enter_ok {s s' : AssistantParts φ} {phase : Int} (h : s.enter phase = .ok s') :
    s.phase ≤ phase ∧ s' = { s with phase } := by
  unfold AssistantParts.enter at h
  split at h
  · cases h
  · cases h
    exact ⟨by omega, rfl⟩

theorem gathered_add {names : ToolNames} {seen : List (MessagePart φ)} {part : MessagePart φ}
    {s s' : AssistantParts φ} (h : Gathered names seen s) (hadd : s.add part = .ok s') :
    Gathered names (seen ++ [part]) s' := by
  cases part with
  | reasoning content =>
    obtain ⟨hphase, rfl⟩ := enter_ok hadd
    have htext := h.textless (by simp only at hphase; omega)
    have hcalls := h.callless (by simp only at hphase; omega)
    refine ⟨?_, fun _ => htext, fun _ => hcalls, h.names⟩
    rw [h.parts]
    simp [htext, hcalls]
  | text content =>
    obtain ⟨hphase, rfl⟩ := enter_ok hadd
    have hcalls := h.callless (by simp only at hphase; omega)
    refine ⟨?_, fun hlow => absurd hlow (by simp), fun _ => hcalls, h.names⟩
    rw [h.parts]
    simp [hcalls]
  | toolCall id name arguments =>
    simp only [AssistantParts.add] at hadd
    split at hadd
    · cases hadd
    · rename_i hnew
      obtain ⟨hphase, rfl⟩ := enter_ok hadd
      refine ⟨?_, fun hlow => absurd hlow (by simp), fun hlow => absurd hlow (by simp), ?_⟩
      · rw [h.parts]
        simp [callPart]
      · change (s.names.set id name).entries = _
        rw [entries_set_new name (by simpa using hnew), h.names, List.map_append,
          List.append_assoc]
        rfl
  | toolCallResponse id result => cases hadd

theorem gathered_run {names : ToolNames} {parts : List (MessagePart φ)} {s : AssistantParts φ}
    (h : parts.foldlM AssistantParts.add { names } = .ok s) : Gathered names parts s :=
  foldlM_induct (Gathered names) ⟨rfl, fun _ => rfl, fun _ => rfl, by simp⟩
    (fun _ _ _ _ hs hadd => gathered_add hs hadd) h

theorem add_reasonings (texts : List Text) {s : AssistantParts φ} (h : s.phase ≤ 0) :
    ∃ s', (texts.map .reasoning).foldlM AssistantParts.add s = .ok s' ∧ s'.phase ≤ 0 ∧
      s'.names = s.names := by
  induction texts generalizing s with
  | nil => exact ⟨s, rfl, h, rfl⟩
  | cons t texts ih =>
    obtain ⟨s', hs', hphase, hnames⟩ :=
      ih (s := { s with thinking := s.thinking ++ [t], phase := 0 }) (le_refl _)
    refine ⟨s', ?_, hphase, hnames⟩
    rw [List.map_cons, List.foldlM_cons, AssistantParts.add, AssistantParts.enter,
      if_neg (not_lt.mpr h)]
    exact hs'

theorem add_texts (texts : List Text) {s : AssistantParts φ} (h : s.phase ≤ 1) :
    ∃ s', (texts.map .text).foldlM AssistantParts.add s = .ok s' ∧ s'.phase ≤ 1 ∧
      s'.names = s.names := by
  induction texts generalizing s with
  | nil => exact ⟨s, rfl, h, rfl⟩
  | cons t texts ih =>
    obtain ⟨s', hs', hphase, hnames⟩ :=
      ih (s := { s with text := s.text ++ [t], phase := 1 }) (le_refl _)
    refine ⟨s', ?_, hphase, hnames⟩
    rw [List.map_cons, List.foldlM_cons, AssistantParts.add, AssistantParts.enter,
      if_neg (not_lt.mpr h)]
    exact hs'

theorem add_calls (calls : List (TrainerToolCall φ)) {s : AssistantParts φ} (h : s.phase ≤ 2)
    (hfresh : (s.names.keys ++ calls.map TrainerToolCall.id).Nodup) :
    ∃ s', (calls.map callPart).foldlM AssistantParts.add s = .ok s' := by
  induction calls generalizing s with
  | nil => exact ⟨s, rfl⟩
  | cons call calls ih =>
    have hnew : s.names.contains call.id = false := by
      rw [Bool.eq_false_iff, ne_eq, Dict.contains_iff]
      intro hmem
      exact (List.nodup_append.mp hfresh).2.2 _ hmem _ (by simp) rfl
    have hkeys : (s.names.set call.id call.name).keys = s.names.keys ++ [call.id] := by
      rw [Dict.keys, entries_set_new _ hnew, List.map_append]
      rfl
    obtain ⟨s', hs'⟩ := ih
      (s := { s with
        names := s.names.set call.id call.name
        toolCalls := s.toolCalls ++ [call]
        phase := 2 }) (le_refl _) (by
        rw [hkeys, List.append_assoc]
        exact hfresh)
    refine ⟨s', ?_⟩
    rw [List.map_cons, List.foldlM_cons, callPart, AssistantParts.add, if_neg (by simp [hnew]),
      AssistantParts.enter, if_neg (not_lt.mpr h)]
    exact hs'

/-- An assistant's message is gathered whenever its parts come in order with new ids. -/
theorem assistant_gathers {names : ToolNames} (thinking text : List Text)
    (calls : List (TrainerToolCall φ))
    (hfresh : (names.keys ++ calls.map TrainerToolCall.id).Nodup) :
    ∃ s, (thinking.map .reasoning ++ (text.map .text ++ calls.map callPart) :
      List (MessagePart φ)).foldlM AssistantParts.add { names } = .ok s := by
  obtain ⟨s, hs, hphase, hnames⟩ :=
    add_reasonings thinking (s := ({ names } : AssistantParts φ)) (show (-1 : Int) ≤ 0 by decide)
  obtain ⟨s', hs', hphase', hnames'⟩ := add_texts text (s := s) (by omega)
  obtain ⟨s'', hs''⟩ := add_calls calls (s := s') (by omega) (by rw [hnames', hnames]; exact hfresh)
  refine ⟨s'', ?_⟩
  rw [List.foldlM_append, hs, ok_bind, List.foldlM_append, hs', ok_bind, hs'']

theorem callsOf_flushText (text : List Text) : (flushText (φ := φ) text).flatMap callsOf = [] := by
  unfold flushText
  split <;> rfl

theorem joinParts_onlyTexts (texts : List Text) :
    joinParts (texts.map .text : List (MessagePart φ)) = ((Export.joined texts).map .text).toList := by
  have h := joinParts_texts texts ([] : List (MessagePart φ)) (fun _ _ heq => by cases heq)
  rwa [List.append_nil, show joinParts ([] : List (MessagePart φ)) = [] from rfl,
    List.append_nil] at h

theorem mem_flushText {text : List Text} {name id content : Text} :
    TrainerMessage.tool name id content ∉ flushText (φ := φ) text := by
  unfold flushText
  split
  · simp
  · simp

variable [PyFloat φ]

theorem toolResultText_ok {result : Json Text φ} {t : Text} (h : toolResultText result = .ok t) :
    t = resultText result := by
  unfold toolResultText at h
  obtain ⟨-, -, h⟩ := bind_ok.mp h
  cases result with
  | str u =>
    cases h
    rfl
  | _ =>
    simp only at h
    split at h
    · cases h
      rfl
    · cases h

theorem recover_flushText (text : List Text) :
    (flushText (φ := φ) text).map recover = (((Export.joined text).map .text).toList).map separate := by
  unfold flushText Export.joined
  by_cases h : text = []
  · rw [if_pos h, if_pos h]
    rfl
  · rw [if_neg h, if_neg h]
    rfl

/-- A message with tool results: its form, read back, is the normal one. -/
theorem mapResponses_ok {names : ToolNames} {user : Bool} {parts : List (MessagePart φ)}
    {text : List Text} {out : List (TrainerMessage φ)}
    (h : mapResponses names user parts text = .ok out) :
    out.map recover = (joinParts (text.map .text ++ parts)).map separate ∧
    out.flatMap callsOf = [] ∧ callIds parts = [] ∧
    (∀ name id content, TrainerMessage.tool name id content ∈ out → names.get? id = some name) ∧
    ∀ part ∈ parts, (∃ t, part = .text t ∧ user = true) ∨
      ∃ id result name, part = .toolCallResponse id result ∧ names.get? id = some name ∧
        ∃ t, toolResultText result = .ok t := by
  induction parts generalizing text out with
  | nil =>
    cases h
    refine ⟨?_, callsOf_flushText text, rfl, ?_, fun _ hpart => by cases hpart⟩
    · rw [List.append_nil, joinParts_onlyTexts, recover_flushText]
    · intro name id content hmem
      exact absurd hmem mem_flushText
  | cons part rest ih =>
    cases part with
    | text content =>
      unfold mapResponses at h
      split at h
      · rename_i huser
        obtain ⟨hout, hcalls, hids, hnames, hparts⟩ := ih h
        refine ⟨?_, hcalls, hids, hnames, ?_⟩
        · rw [hout, List.map_append, List.append_assoc]
          rfl
        · intro p hp
          rcases List.mem_cons.mp hp with heq | hp
          · exact Or.inl ⟨content, heq, huser⟩
          · exact hparts p hp
      · cases h
    | reasoning content =>
      unfold mapResponses at h
      cases h
    | toolCall id name arguments =>
      unfold mapResponses at h
      cases h
    | toolCallResponse id result =>
      unfold mapResponses at h
      cases hname : names.get? id with
      | none =>
        rw [hname] at h
        cases h
      | some name =>
        rw [hname] at h
        obtain ⟨content, hcontent, h⟩ := bind_ok.mp h
        obtain ⟨mapped, hmapped, h⟩ := bind_ok.mp h
        cases h
        obtain ⟨hout, hcalls, hids, hnames, hparts⟩ := ih hmapped
        refine ⟨?_, ?_, hids, ?_, ?_⟩
        · have hjoin := joinParts_texts text (.toolCallResponse id result :: rest)
            (fun _ _ heq => by rw [joinParts_response] at heq; cases heq)
          rw [hjoin, joinParts_response, List.map_append, List.map_append, recover_flushText,
            List.map_cons, hout, toolResultText_ok hcontent]
          rfl
        · rw [List.flatMap_append, callsOf_flushText, List.flatMap_cons, hcalls]
          rfl
        · intro name' id' content' hmem
          rcases List.mem_append.mp hmem with hmem | hmem
          · exact absurd hmem mem_flushText
          · rcases List.mem_cons.mp hmem with heq | hmem
            · cases heq
              exact hname
            · exact hnames name' id' content' hmem
        · intro p hp
          rcases List.mem_cons.mp hp with heq | hp
          · exact Or.inr ⟨id, result, name, heq, hname, content, hcontent⟩
          · exact hparts p hp

/-- What one message comes to, after calls with these names. -/
structure MappedMessage (completion : Bool) (names : ToolNames) (message : InferenceMessage φ)
    (out : List (TrainerMessage φ)) (names' : ToolNames) : Prop where
  normal : out.map recover = normalMessage message
  sayable : Sayable names.keys message
  role : completion = true → message.role = codePoints "assistant"
  calls : (out.flatMap callsOf).map TrainerToolCall.id = callIds message.parts
  named : names'.entries = names.entries ++ (out.flatMap callsOf).map namedCall
  tools : ∀ name id content, TrainerMessage.tool name id content ∈ out → names.get? id = some name

omit [PyFloat φ] in
theorem parts_of_texts {parts : List (MessagePart φ)} {texts : List Text}
    (h : parts.mapM textOfPart = some texts) : parts = texts.map .text := by
  induction parts generalizing texts with
  | nil =>
    cases h
    rfl
  | cons part parts ih =>
    rw [List.mapM_cons] at h
    cases part with
    | text content =>
      cases hrest : parts.mapM textOfPart with
      | none =>
        rw [hrest] at h
        cases h
      | some rest =>
        rw [hrest] at h
        cases h
        rw [ih hrest, List.map_cons]
    | _ => cases h

omit [PyFloat φ] in
theorem texts_of_parts (texts : List Text) :
    (texts.map .text : List (MessagePart φ)).mapM textOfPart = some texts := by
  induction texts with
  | nil => rfl
  | cons t texts ih =>
    rw [List.map_cons, List.mapM_cons, ih]
    rfl

theorem keys_eq {names : ToolNames} {id name : Text} (h : names.get? id = some name) :
    id ∈ names.keys := (Dict.mem_keys_iff names).mpr ⟨name, h⟩

omit [PyFloat φ] in
theorem callIds_assistant (thinking text : List Text) (calls : List (TrainerToolCall φ)) :
    callIds (thinking.map .reasoning ++ (text.map .text ++ calls.map callPart)) =
      calls.map TrainerToolCall.id := by
  unfold callIds
  rw [List.filterMap_append, List.filterMap_append]
  have hthinking : (thinking.map .reasoning : List (MessagePart φ)).filterMap callId = [] := by
    simp [callId]
  have htext : (text.map .text : List (MessagePart φ)).filterMap callId = [] := by
    simp [callId]
  rw [hthinking, htext, List.filterMap_map]
  simp [Function.comp_def, callPart, callId]

theorem other_role {role : Text}
    (hknown : ¬(!(decide (role = codePoints "developer") || decide (role = codePoints "system") ||
      decide (role = codePoints "user") || decide (role = codePoints "assistant"))) = true)
    (hother : (!decide (role = codePoints "assistant")) = true) :
    role ∈ ["developer", "system", "user"].map codePoints := by
  rw [Bool.not_eq_true', decide_eq_false_iff_not] at hother
  rw [Bool.not_eq_true', Bool.not_eq_false, Bool.or_eq_true, decide_eq_true_eq] at hknown
  have hone := hknown.resolve_right hother
  simpa [or_assoc] using hone

theorem role_cases {role : Text} (h : role ∈ ["developer", "system", "user"].map codePoints) :
    ¬(!(decide (role = codePoints "developer") || decide (role = codePoints "system") ||
      decide (role = codePoints "user") || decide (role = codePoints "assistant"))) = true ∧
    (!decide (role = codePoints "assistant")) = true := by
  simp only [List.map_cons, List.map_nil, List.mem_cons, List.not_mem_nil, or_false] at h
  rcases h with rfl | rfl | rfl
  · exact ⟨by decide, by decide⟩
  · exact ⟨by decide, by decide⟩
  · exact ⟨by decide, by decide⟩

theorem mapMessage_ok {completion : Bool} {names names' : ToolNames}
    {message : InferenceMessage φ} {out : List (TrainerMessage φ)}
    (h : mapMessage completion names message = .ok (out, names')) :
    MappedMessage completion names message out names' := by
  unfold mapMessage at h
  simp only at h
  split at h
  · cases h
  · rename_i hempty
    split at h
    · cases h
    · rename_i hrole
      have hcompletion : completion = true → message.role = codePoints "assistant" := by
        intro hc
        by_contra hno
        exact hrole (by simp [hc, hno])
      split at h
      · rename_i hany
        split at h
        · rename_i hanswers
          obtain ⟨mapped, hmapped, h⟩ := bind_ok.mp h
          cases h
          obtain ⟨hout, hcalls, hids, hnames, hparts⟩ := mapResponses_ok hmapped
          refine
            { normal := ?_
              sayable := .results ?_ (List.any_eq_true.mp hany) ?_
              role := hcompletion
              calls := by rw [hcalls, hids]; rfl
              named := by rw [hcalls]; exact (List.append_nil _).symm
              tools := hnames }
          · rw [hout, normalMessage, if_pos hany]
            rfl
          · simpa using hanswers
          · intro part hpart
            rcases hparts part hpart with ⟨t, rfl, huser⟩ | ⟨id, result, name, rfl, hname, hresult⟩
            · simpa [Answers] using huser
            · exact ⟨keys_eq hname, hresult⟩
        · cases h
      · rename_i hany
        have hnormal : normalMessage message = [(message.role, joinParts message.parts)] := by
          rw [normalMessage, if_neg hany]
        split at h
        · cases h
        · rename_i hknown
          split at h
          · rename_i hother
            cases htexts : message.parts.mapM textOfPart with
            | none =>
              rw [htexts] at h
              cases h
            | some texts =>
              rw [htexts] at h
              cases h
              have hparts := parts_of_texts htexts
              have hne : texts ≠ [] := by
                intro hnil
                rw [hnil] at hparts
                exact hempty (by rw [hparts]; rfl)
              refine
                { normal := ?_
                  sayable := .texts texts ?_ hparts hne
                  role := hcompletion
                  calls := ?_
                  named := (List.append_nil _).symm
                  tools := fun _ _ _ hmem => by simp at hmem }
              · rw [hnormal, hparts, joinParts_onlyTexts, Export.joined, if_neg hne]
                rfl
              · exact other_role hknown hother
              · rw [hparts]
                simp [callIds, callId, callsOf]
          · rename_i hassistant
            obtain ⟨s, hs, h⟩ := bind_ok.mp h
            cases h
            have hgathered := gathered_run hs
            have hrole : message.role = codePoints "assistant" := by simpa using hassistant
            have hcalls : [s.message].flatMap callsOf = s.toolCalls := by
              simp [callsOf, AssistantParts.message]
            have hnodup := s.names.nodup
            rw [hgathered.names, List.map_append] at hnodup
            refine
              { normal := ?_
                sayable := .assistant s.thinking s.text s.toolCalls hrole hgathered.parts
                  (by simpa using hempty) ?_
                role := hcompletion
                calls := ?_
                named := by rw [hcalls, hgathered.names]
                tools := fun _ _ _ hmem => by simp [AssistantParts.message] at hmem }
            · rw [hnormal, hgathered.parts, joinParts_assistant, hrole]
              rfl
            · rw [List.map_map] at hnodup
              exact hnodup
            · rw [hcalls, hgathered.parts, callIds_assistant]

theorem mapResponses_answers {names : ToolNames} {role : Text} {parts : List (MessagePart φ)}
    (text : List Text) (h : ∀ part ∈ parts, Answers role names.keys part) :
    ∃ out, mapResponses names (role = codePoints "user") parts text = .ok out := by
  induction parts generalizing text with
  | nil => exact ⟨_, rfl⟩
  | cons part parts ih =>
    have hpart := h part (by simp)
    have hrest := fun p hp => h p (List.mem_cons_of_mem _ hp)
    cases part with
    | text content =>
      obtain ⟨out, hout⟩ := ih (text ++ [content]) hrest
      exact ⟨out, by rw [mapResponses, if_pos (by simpa [Answers] using hpart), hout]⟩
    | reasoning content => exact hpart.elim
    | toolCall id name arguments => exact hpart.elim
    | toolCallResponse id result =>
      obtain ⟨hid, t, ht⟩ := hpart
      obtain ⟨name, hname⟩ := (Dict.mem_keys_iff names).mp hid
      obtain ⟨out, hout⟩ := ih [] hrest
      refine ⟨flushText text ++ .tool name id t :: out, ?_⟩
      rw [mapResponses, hname]
      simp only [ht, hout, ok_bind]

/-- A message that has a trainer form is mapped. -/
theorem mapMessage_of_sayable {completion : Bool} {names : ToolNames}
    {message : InferenceMessage φ} (h : Sayable names.keys message)
    (hrole : completion = true → message.role = codePoints "assistant") :
    ∃ out, mapMessage completion names message = .ok out := by
  have hcompletion : ¬(completion && !decide (message.role = codePoints "assistant")) = true := by
    cases hc : completion with
    | false => simp
    | true => simp [hrole hc]
  have hempty : ¬message.parts.isEmpty = true := by
    rw [List.isEmpty_iff]
    cases h with
    | texts texts role parts nonempty => simpa [parts] using nonempty
    | results role result answers =>
      obtain ⟨part, hpart, -⟩ := result
      exact List.ne_nil_of_mem hpart
    | assistant thinking text calls role parts nonempty fresh => exact nonempty
  unfold mapMessage
  simp only
  rw [if_neg hempty, if_neg hcompletion]
  cases h with
  | texts texts role parts nonempty =>
    have hany : ¬message.parts.any isResponse = true := by
      rw [parts]
      simp [isResponse]
    obtain ⟨hknown, hother⟩ := role_cases role
    rw [if_neg hany, if_neg hknown, if_pos hother, parts, texts_of_parts]
    exact ⟨_, rfl⟩
  | results role result answers =>
    have hanswers : (decide (message.role = codePoints "tool") ||
        decide (message.role = codePoints "user")) = true := by simpa using role
    obtain ⟨out, hout⟩ := mapResponses_answers [] answers
    rw [if_pos (List.any_eq_true.mpr result), if_pos hanswers, hout]
    exact ⟨_, rfl⟩
  | assistant thinking text calls role parts nonempty fresh =>
    have hany : ¬message.parts.any isResponse = true := by
      rw [parts]
      simp [isResponse, callPart]
    obtain ⟨s, hs⟩ := assistant_gathers thinking text calls fresh
    rw [if_neg hany, if_neg (by simp [role]), if_neg (by simp [role]), parts, hs]
    exact ⟨_, rfl⟩

/-- The ids and names of calls run through these messages: each tool result has the name of an
earlier call with its id. -/
structure Threaded (names : ToolNames) (out : List (TrainerMessage φ)) (names' : ToolNames) :
    Prop where
  named : names'.entries = names.entries ++ (out.flatMap callsOf).map namedCall
  tools : ∀ front name id content back, out = front ++ .tool name id content :: back →
    (id, name) ∈ names.entries ++ (front.flatMap callsOf).map namedCall

omit [PyFloat φ] in
theorem Threaded.append {names names' names'' : ToolNames} {a b : List (TrainerMessage φ)}
    (ha : Threaded names a names') (hb : Threaded names' b names'') :
    Threaded names (a ++ b) names'' := by
  refine ⟨?_, ?_⟩
  · rw [hb.named, ha.named, List.flatMap_append, List.map_append, List.append_assoc]
  · intro front name id content back hsplit
    rcases List.append_eq_append_iff.mp hsplit with ⟨more, rfl, hb'⟩ | ⟨more, ha', hback⟩
    · have htool := hb.tools more name id content back hb'
      rwa [ha.named, List.append_assoc, ← List.map_append, ← List.flatMap_append] at htool
    · cases more with
      | nil =>
        rw [List.append_nil] at ha'
        have htool := hb.tools [] name id content back hback.symm
        rw [ha.named, ha'] at htool
        simpa using htool
      | cons first more =>
        obtain ⟨rfl, -⟩ := List.cons.inj hback
        exact ha.tools front name id content more ha'

theorem MappedMessage.threaded {completion : Bool} {names names' : ToolNames}
    {message : InferenceMessage φ} {out : List (TrainerMessage φ)}
    (h : MappedMessage completion names message out names') : Threaded names out names' := by
  refine ⟨h.named, ?_⟩
  intro front name id content back hsplit
  apply List.mem_append_left
  apply (Dict.mem_entries_iff names).mpr
  exact h.tools name id content (by rw [hsplit]; simp)

theorem MappedMessage.keys {completion : Bool} {names names' : ToolNames}
    {message : InferenceMessage φ} {out : List (TrainerMessage φ)}
    (h : MappedMessage completion names message out names') :
    names'.keys = names.keys ++ callIds message.parts := by
  rw [← h.calls, Dict.keys, h.named, List.map_append, List.map_map]
  rfl

def allCallIds (messages : List (InferenceMessage φ)) : List Text :=
  messages.flatMap (fun message => callIds message.parts)

/-- What messages come to one after the other. -/
structure MappedMessages (completion : Bool) (names : ToolNames)
    (messages : List (InferenceMessage φ)) (out : List (TrainerMessage φ)) (names' : ToolNames) :
    Prop where
  normal : out.map recover = messages.flatMap normalMessage
  sayable : SayableFrom completion names.keys messages
  threaded : Threaded names out names'
  keys : names'.keys = names.keys ++ allCallIds messages

theorem mapMessages_ok {completion : Bool} {names names' : ToolNames}
    {messages : List (InferenceMessage φ)} {out : List (TrainerMessage φ)}
    (h : mapMessages completion messages names = .ok (out, names')) :
    MappedMessages completion names messages out names' := by
  induction messages generalizing names out with
  | nil =>
    cases h
    refine ⟨rfl, trivial, ⟨(List.append_nil _).symm, ?_⟩, (List.append_nil _).symm⟩
    intro front name id content back hsplit
    cases front <;> cases hsplit
  | cons message rest ih =>
    unfold mapMessages at h
    obtain ⟨⟨mapped, names₁⟩, hmapped, h⟩ := bind_ok.mp h
    obtain ⟨⟨others, names₂⟩, hothers, h⟩ := bind_ok.mp h
    cases h
    have hmessage := mapMessage_ok hmapped
    have hrest := ih hothers
    refine ⟨?_, ⟨⟨hmessage.sayable, hmessage.role⟩, ?_⟩,
      hmessage.threaded.append hrest.threaded, ?_⟩
    · rw [List.map_append, hmessage.normal, hrest.normal, List.flatMap_cons]
    · have hsayable := hrest.sayable
      rwa [hmessage.keys] at hsayable
    · rw [hrest.keys, hmessage.keys, List.append_assoc, allCallIds, allCallIds, List.flatMap_cons]

theorem mapMessages_of_sayable {completion : Bool} {names : ToolNames}
    {messages : List (InferenceMessage φ)} (h : SayableFrom completion names.keys messages) :
    ∃ out, mapMessages completion messages names = .ok out := by
  induction messages generalizing names with
  | nil => exact ⟨_, rfl⟩
  | cons message rest ih =>
    obtain ⟨⟨hsayable, hrole⟩, hrest⟩ := h
    obtain ⟨⟨mapped, names₁⟩, hmapped⟩ := mapMessage_of_sayable hsayable hrole
    rw [← (mapMessage_ok hmapped).keys] at hrest
    obtain ⟨⟨others, names₂⟩, hothers⟩ := ih hrest
    refine ⟨(mapped ++ others, names₂), ?_⟩
    rw [mapMessages, hmapped, ok_bind]
    simp only [hothers, ok_bind]

/-- A part without a scalar that training declines. -/
def Expressible : MessagePart φ → Prop
  | .text t => validateText t = .ok ()
  | .reasoning t => validateText t = .ok ()
  | .toolCall id name arguments => validateText id = .ok () ∧ validateText name = .ok () ∧
      validateTrainingRepresentation.validateFields arguments = .ok ()
  | .toolCallResponse id result => validateText id = .ok () ∧
      validateTrainingRepresentation result = .ok ()

def toolName : TrainerMessage φ → Option Text
  | .tool name _ _ => some name
  | _ => none

theorem then_ok {x y : Mapped Unit} : (x >>= fun _ => y) = .ok () ↔ x = .ok () ∧ y = .ok () := by
  rw [bind_ok]
  constructor
  · intro h
    obtain ⟨u, hx, hy⟩ := h
    exact ⟨hx, hy⟩
  · intro h
    exact ⟨(), h⟩

theorem validateItems_ok {items : List (Json Text φ)} :
    validateTrainingRepresentation.validateItems items = .ok () ↔
      ∀ item ∈ items, validateTrainingRepresentation item = .ok () := by
  induction items with
  | nil => simp [validateTrainingRepresentation.validateItems]
  | cons item rest ih =>
    rw [validateTrainingRepresentation.validateItems, then_ok, ih, List.forall_mem_cons]

theorem validateFields_append {a b : List (Text × Json Text φ)} :
    validateTrainingRepresentation.validateFields (a ++ b) = .ok () ↔
      validateTrainingRepresentation.validateFields a = .ok () ∧
        validateTrainingRepresentation.validateFields b = .ok () := by
  induction a with
  | nil => simp [validateTrainingRepresentation.validateFields]
  | cons field a ih =>
    obtain ⟨key, value⟩ := field
    rw [List.cons_append, validateTrainingRepresentation.validateFields, then_ok, then_ok, ih,
      validateTrainingRepresentation.validateFields, then_ok, then_ok, and_assoc, and_assoc]

theorem validateFields_entry {key : String} {value : Json Text φ}
    {rest : List (Text × Json Text φ)} (hkey : validateText (codePoints key) = .ok ()) :
    validateTrainingRepresentation.validateFields (entry key value :: rest) = .ok () ↔
      validateTrainingRepresentation value = .ok () ∧
        validateTrainingRepresentation.validateFields rest = .ok () := by
  rw [entry, validateTrainingRepresentation.validateFields, then_ok, then_ok]
  exact and_iff_right hkey

theorem call_dump_ok (call : TrainerToolCall φ) :
    validateTrainingRepresentation call.dump = .ok () ↔ Expressible (callPart call) := by
  unfold TrainerToolCall.dump
  rw [validateTrainingRepresentation, validateFields_entry rfl, validateFields_entry rfl,
    validateFields_entry rfl]
  simp only [validateTrainingRepresentation]
  rw [validateFields_entry rfl, validateFields_entry rfl]
  have hfunction : validateText (codePoints "function") = .ok () := rfl
  simp only [validateTrainingRepresentation, validateTrainingRepresentation.validateFields,
    and_true, hfunction, true_and]
  rfl

theorem text_entries_ok {key : String} (hkey : validateText (codePoints key) = .ok ())
    (t : Option Text) :
    validateTrainingRepresentation.validateFields
        ((t.map (fun t => entry (φ := φ) key (.str t))).toList) = .ok () ↔
      ∀ t' ∈ t, validateText t' = .ok () := by
  cases t with
  | none => simp [validateTrainingRepresentation.validateFields]
  | some t =>
    simp only [Option.map_some, Option.toList_some, Option.mem_some_iff, forall_eq']
    rw [validateFields_entry hkey]
    simp [validateTrainingRepresentation, validateTrainingRepresentation.validateFields]

/-- A mapped message passes the check when nothing of it, read back, is exceptional. -/
theorem message_dump_ok (message : TrainerMessage φ) :
    validateTrainingRepresentation message.dump = .ok () ↔
      validateText (recover message).1 = .ok () ∧
      (∀ part ∈ (recover message).2, Expressible part) ∧
      ∀ name ∈ toolName message, validateText name = .ok () := by
  cases message with
  | text role content =>
    unfold TrainerMessage.dump
    rw [validateTrainingRepresentation, validateFields_entry rfl, validateFields_entry rfl]
    simp [validateTrainingRepresentation, validateTrainingRepresentation.validateFields, recover,
      toolName, Expressible]
  | tool name id content =>
    unfold TrainerMessage.dump
    rw [validateTrainingRepresentation, validateFields_entry rfl, validateFields_entry rfl,
      validateFields_entry rfl, validateFields_entry rfl]
    have htool : validateText (codePoints "tool") = .ok () := rfl
    simp only [validateTrainingRepresentation, validateTrainingRepresentation.validateFields,
      recover, toolName, Expressible, htool, List.mem_singleton, forall_eq, Option.mem_some_iff,
      forall_eq', true_and, and_true]
    tauto
  | assistant thinking content calls =>
    unfold TrainerMessage.dump
    rw [validateTrainingRepresentation, List.cons_append, List.cons_append,
      validateFields_entry rfl, validateFields_append, validateFields_append,
      text_entries_ok rfl, text_entries_ok rfl]
    have hassistant : validateText (codePoints "assistant") = .ok () := rfl
    have hcalls : validateTrainingRepresentation.validateFields (if calls = [] then [] else
        [entry "tool_calls" (.arr (calls.map TrainerToolCall.dump))]) = .ok () ↔
        ∀ call ∈ calls, Expressible (callPart call) := by
      by_cases hnil : calls = []
      · rw [if_pos hnil, hnil]
        simp [validateTrainingRepresentation.validateFields]
      · rw [if_neg hnil, validateFields_entry rfl, validateTrainingRepresentation,
          validateItems_ok]
        simp [validateTrainingRepresentation.validateFields, call_dump_ok]
    rw [hcalls]
    cases thinking <;> cases content <;>
      simp [validateTrainingRepresentation, recover, toolName, Expressible, hassistant, and_assoc]

/-- The messages of a call, in their normal form. -/
def normalForm (messages : List (InferenceMessage φ)) : List (Said φ) :=
  messages.flatMap normalMessage

/-- What a call is to be for a conversation to stand for it. -/
structure Representable (call : InferenceCall φ) : Prop where
  prompt : SayableFrom false [] call.inputMessages
  completion : SayableFrom true (allCallIds call.inputMessages) call.outputMessages
  answered : call.outputMessages ≠ []
  expressible : ∀ said ∈ normalForm (call.inputMessages ++ call.outputMessages),
    validateText said.1 = .ok () ∧ ∀ part ∈ said.2, Expressible part

/-- What a conversation keeps of its call. -/
structure Lossless (call : InferenceCall φ) (conversation : TrainerConversation φ) : Prop where
  prompt : conversation.prompt.map recover = normalForm call.inputMessages
  completion : conversation.completion.map recover = normalForm call.outputMessages
  once : (((conversation.prompt ++ conversation.completion).flatMap callsOf).map
    TrainerToolCall.id).Nodup
  answers : ∀ front name id content back,
    conversation.prompt ++ conversation.completion = front ++ .tool name id content :: back →
    ∃ call ∈ front.flatMap callsOf, call.id = id ∧ call.name = name

theorem normalMessage_ne_nil {message : InferenceMessage φ} (h : message.parts ≠ []) :
    normalMessage message ≠ [] := by
  unfold normalMessage
  split
  · intro hnil
    rw [List.map_eq_nil_iff] at hnil
    obtain ⟨part, rest, hparts⟩ := List.exists_cons_of_ne_nil h
    rw [hparts] at hnil
    change glue part (joinParts rest) = [] at hnil
    unfold glue at hnil
    split at hnil <;> cases hnil
  · exact List.cons_ne_nil _ _

omit [PyFloat φ] in
theorem mem_callsOf {message : TrainerMessage φ} {call : TrainerToolCall φ}
    (h : call ∈ callsOf message) : callPart call ∈ (recover message).2 := by
  cases message with
  | assistant thinking content calls =>
    apply List.mem_append_right
    apply List.mem_append_right
    exact List.mem_map_of_mem h
  | _ => cases h

omit [PyFloat φ] in
theorem Threaded.answers {names' : ToolNames} {out : List (TrainerMessage φ)}
    (h : Threaded Dict.empty out names') {front back : List (TrainerMessage φ)}
    {name id content : Text} (hsplit : out = front ++ .tool name id content :: back) :
    ∃ call ∈ front.flatMap callsOf, call.id = id ∧ call.name = name := by
  have htool := h.tools front name id content back hsplit
  change (id, name) ∈ (front.flatMap callsOf).map namedCall at htool
  obtain ⟨call, hcall, heq⟩ := List.mem_map.mp htool
  cases heq
  exact ⟨call, hcall, rfl, rfl⟩

/-- Mapped messages pass the check when nothing of them, read back, is exceptional: the name of
a tool result is that of a call before it. -/
theorem validateMessages_ok {names' : ToolNames} {out : List (TrainerMessage φ)}
    (h : Threaded Dict.empty out names') :
    validateMessages out = .ok () ↔ ∀ said ∈ out.map recover,
      validateText said.1 = .ok () ∧ ∀ part ∈ said.2, Expressible part := by
  unfold validateMessages
  rw [validateTrainingRepresentation, validateItems_ok, List.forall_mem_map, List.forall_mem_map]
  constructor
  · intro hall message hmessage
    obtain ⟨hrole, hparts, -⟩ := (message_dump_ok message).mp (hall message hmessage)
    exact ⟨hrole, hparts⟩
  · intro hall message hmessage
    obtain ⟨hrole, hparts⟩ := hall message hmessage
    refine (message_dump_ok message).mpr ⟨hrole, hparts, ?_⟩
    intro name hname
    cases message with
    | tool own id content =>
      cases hname
      obtain ⟨front, back, hsplit⟩ := List.append_of_mem hmessage
      obtain ⟨call, hcall, -, rfl⟩ := h.answers hsplit
      obtain ⟨earlier, hearlier, hcall⟩ := List.mem_flatMap.mp hcall
      exact ((hall earlier (by rw [hsplit]; simp [hearlier])).2 _ (mem_callsOf hcall)).2.1
    | _ => cases hname

theorem mapInferenceCall_ok {call : InferenceCall φ} {conversation : TrainerConversation φ}
    (h : mapInferenceCall call = .ok conversation) :
    ∃ names names',
      MappedMessages false Dict.empty call.inputMessages conversation.prompt names ∧
      MappedMessages true names call.outputMessages conversation.completion names' ∧
      conversation.completion ≠ [] ∧
      validateMessages (conversation.prompt ++ conversation.completion) = .ok () := by
  unfold mapInferenceCall at h
  obtain ⟨⟨prompt, names⟩, hprompt, h⟩ := bind_ok.mp h
  obtain ⟨⟨completion, names'⟩, hcompletion, h⟩ := bind_ok.mp h
  simp only at h
  split at h
  · cases h
  · rename_i hne
    obtain ⟨u, hvalid, h⟩ := bind_ok.mp h
    obtain ⟨u', hvalid', h⟩ := bind_ok.mp h
    cases h
    refine ⟨names, names', mapMessages_ok hprompt, mapMessages_ok hcompletion, ?_, ?_⟩
    · simpa using hne
    · unfold validateMessages at hvalid hvalid' ⊢
      rw [validateTrainingRepresentation, validateItems_ok] at hvalid hvalid' ⊢
      rw [List.map_append, List.forall_mem_append]
      exact ⟨hvalid, hvalid'⟩

theorem lossless_of_ok {call : InferenceCall φ} {conversation : TrainerConversation φ}
    (h : mapInferenceCall call = .ok conversation) : Lossless call conversation := by
  obtain ⟨names, names', hprompt, hcompletion, -, -⟩ := mapInferenceCall_ok h
  have hthreaded := hprompt.threaded.append hcompletion.threaded
  refine ⟨hprompt.normal, hcompletion.normal, ?_, fun _ _ _ _ _ hsplit => hthreaded.answers hsplit⟩
  have hnodup := names'.nodup
  rw [hthreaded.named, List.map_append, List.map_map] at hnodup
  exact hnodup

theorem representable_of_ok {call : InferenceCall φ} {conversation : TrainerConversation φ}
    (h : mapInferenceCall call = .ok conversation) : Representable call := by
  obtain ⟨names, names', hprompt, hcompletion, hne, hvalid⟩ := mapInferenceCall_ok h
  have hthreaded := hprompt.threaded.append hcompletion.threaded
  have hkeys : names.keys = allCallIds call.inputMessages := hprompt.keys
  refine ⟨hprompt.sayable, hkeys ▸ hcompletion.sayable, ?_, ?_⟩
  · intro hnil
    have hnormal := hcompletion.normal
    rw [hnil] at hnormal
    exact hne (List.map_eq_nil_iff.mp hnormal)
  · have hall := (validateMessages_ok hthreaded).mp hvalid
    rwa [List.map_append, hprompt.normal, hcompletion.normal, ← List.flatMap_append] at hall

theorem ok_of_representable {call : InferenceCall φ} (h : Representable call) :
    ∃ conversation, mapInferenceCall call = .ok conversation := by
  have hstart : SayableFrom false (Dict.empty : ToolNames).keys call.inputMessages := h.prompt
  obtain ⟨⟨prompt, names⟩, hprompt⟩ := mapMessages_of_sayable hstart
  have hprompt' := mapMessages_ok hprompt
  have hkeys : names.keys = allCallIds call.inputMessages := hprompt'.keys
  have hnext : SayableFrom true names.keys call.outputMessages := hkeys ▸ h.completion
  obtain ⟨⟨completion, names'⟩, hcompletion⟩ := mapMessages_of_sayable hnext
  have hcompletion' := mapMessages_ok hcompletion
  have hthreaded := hprompt'.threaded.append hcompletion'.threaded
  have hvalid : validateMessages (prompt ++ completion) = .ok () := by
    rw [validateMessages_ok hthreaded, List.map_append, hprompt'.normal, hcompletion'.normal,
      ← List.flatMap_append]
    exact h.expressible
  have hne : ¬completion.isEmpty = true := by
    intro hnil
    have hnormal := hcompletion'.normal
    rw [List.isEmpty_iff.mp hnil] at hnormal
    obtain ⟨message, rest, houtput⟩ := List.exists_cons_of_ne_nil h.answered
    have hsayable := h.completion
    rw [houtput] at hnormal hsayable
    obtain ⟨⟨hmessage, hrole⟩, -⟩ := hsayable
    have hparts : message.parts ≠ [] := by
      cases hmessage with
      | texts texts role parts nonempty => simpa [parts] using nonempty
      | results role result answers =>
        obtain ⟨part, hpart, -⟩ := result
        exact List.ne_nil_of_mem hpart
      | assistant thinking text calls role parts nonempty fresh => exact nonempty
    rw [List.flatMap_cons] at hnormal
    exact normalMessage_ne_nil hparts (List.append_eq_nil_iff.mp hnormal.symm).1
  unfold validateMessages at hvalid
  rw [validateTrainingRepresentation, validateItems_ok, List.map_append,
    List.forall_mem_append] at hvalid
  have hfirst : validateMessages prompt = .ok () := by
    rw [validateMessages, validateTrainingRepresentation, validateItems_ok]
    exact hvalid.1
  have hsecond : validateMessages completion = .ok () := by
    rw [validateMessages, validateTrainingRepresentation, validateItems_ok]
    exact hvalid.2
  refine ⟨⟨prompt, completion⟩, ?_⟩
  rw [mapInferenceCall, hprompt, ok_bind]
  simp only [hcompletion, ok_bind]
  rw [if_neg hne, hfirst, ok_bind, hsecond, ok_bind]

/-- A call is mapped exactly when it is representable, and its conversation, read back, is the
normal form of its messages: each tool result and each text beside it a message of its own, each
result its text. -/
theorem trainer_mapping_lossless (call : InferenceCall φ) :
    (∀ conversation, mapInferenceCall call = .ok conversation → Lossless call conversation) ∧
    ((∃ conversation, mapInferenceCall call = .ok conversation) ↔ Representable call) ∧
    (¬Representable call → ∃ reason, mapInferenceCall call = .error reason) := by
  refine ⟨fun _ h => lossless_of_ok h, ⟨?_, ok_of_representable⟩, ?_⟩
  · intro h
    obtain ⟨conversation, hok⟩ := h
    exact representable_of_ok hok
  · intro hno
    cases hmap : mapInferenceCall call with
    | error reason => exact ⟨reason, rfl⟩
    | ok conversation => exact absurd (representable_of_ok hmap) hno

end

open Sediment.Proofs.GatewayTotal

/-- A call that was answered a tool's result, in these messages. -/
def toldThe (results : List (InferenceMessage ℚ)) : InferenceCall ℚ :=
  { inferenceCallId := codePoints "c1", orgId := codePoints "o", sessionId := codePoints "s"
    userId := none, gatewayProvider := .litellm, modelProvider := none
    model := some (codePoints "m")
    inputMessages := ⟨codePoints "assistant",
      [.toolCall (codePoints "t1") (codePoints "ls") []], none⟩ :: results
    outputMessages := [⟨codePoints "assistant", [.text (codePoints "x")], none⟩]
    inputTokens := none, outputTokens := none, durationMs := none, modelCallId := none
    observedAt := someInstant, raw := [] }

/-- A result and a user's text, as one message. -/
def together : InferenceCall ℚ :=
  toldThe [⟨codePoints "user",
    [.toolCallResponse (codePoints "t1") (.obj []), .text (codePoints "go on")], none⟩]

/-- The same result, as its text, and the user's text in a message of its own. -/
def apart : InferenceCall ℚ :=
  toldThe [⟨codePoints "tool", [.toolCallResponse (codePoints "t1") (.str (codePoints "\x7b\x7d"))],
      none⟩,
    ⟨codePoints "user", [.text (codePoints "go on")], none⟩]

/-- Both calls have one conversation, though their messages differ beyond joined parts. -/
theorem grouping_not_kept :
    letI := exactFloat
    (∃ conversation, mapInferenceCall together = .ok conversation ∧
      mapInferenceCall apart = .ok conversation) ∧
    ¬∀ (call call' : InferenceCall ℚ) (conversation : TrainerConversation ℚ),
      mapInferenceCall call = .ok conversation → mapInferenceCall call' = .ok conversation →
      call.inputMessages.map (fun m => (m.role, joinParts m.parts)) =
        call'.inputMessages.map (fun m => (m.role, joinParts m.parts)) := by
  let _ := exactFloat
  have hboth : ∃ conversation, mapInferenceCall together = .ok conversation ∧
      mapInferenceCall apart = .ok conversation := ⟨_, rfl, rfl⟩
  refine ⟨hboth, ?_⟩
  intro h
  obtain ⟨conversation, htogether, hapart⟩ := hboth
  have hlength := congrArg List.length (h together apart conversation htogether hapart)
  cases hlength

end Sediment.Proofs.TrainerMapping

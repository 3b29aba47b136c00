import Sediment.Base.Results
import Sediment.Capture.Gateway
import Mathlib.Tactic

namespace Sediment.Proofs.GatewayTotal
open Sediment.Base Base.JsonScan Sediment.Core Sediment.Core.Captured Sediment.Capture
open Capture.Gateway

/-- What can fail while messages are read: a JSON text that is decoded, an id that is checked. -/
inductive Attempt where
  | decode (s : Text)
  | identify (id : Text)

def BadId (id : Text) : Prop := nonEmptyId id = none

def Attempt.check (φ : Type) [JsonDecoder φ] : Attempt → Normalize Unit
  | .decode s =>
    match JsonDecoder.loads (φ := φ) s with
    | .error .recursionError => .error .recursionError
    | _ => .ok ()
  | .identify id => (orValidationError (nonEmptyId id)).map (fun _ => ())

def checkAll (φ : Type) [JsonDecoder φ] : List Attempt → Normalize Unit
  | [] => .ok ()
  | a :: rest => do
    a.check φ
    checkAll φ rest

section
variable {φ : Type}

def decodes : Payload φ → List Attempt
  | .str s => [.decode s]
  | _ => []

def toolAttempts (callId arguments : Payload φ) : List Attempt :=
  match usableId callId with
  | none => []
  | some id => decodes arguments ++ [.identify id]

def responseAttempts (callId : Text) (result : Payload φ) : List Attempt :=
  decodes result ++ [.identify callId]

def blockAttempts : Payload φ → List Attempt
  | .obj block =>
    match asText (field block "type") with
    | none => []
    | some type =>
      if oneOfTexts type ["thinking", "reasoning"] then []
      else if type = codePoints "redacted_thinking" then []
      else if oneOfTexts type ["text", "input_text", "output_text"] then []
      else if oneOfTexts type ["tool_use", "tool_call"] then
        toolAttempts (field block "id") (fieldOr block "input" (field block "arguments"))
      else if oneOfTexts type ["tool_result", "tool_call_response"] then
        match usableId (fieldOr block "tool_use_id" (field block "id")) with
        | none => []
        | some callId => responseAttempts callId (fieldOr block "result" (field block "content"))
      else []
  | _ => []

def functionAttempts (call : Fields φ) : List Attempt :=
  toolAttempts (field call "id") (field (asDict (field call "function")) "arguments")

def callAttempts : Payload φ → List Attempt
  | .obj call =>
    match field call "type" with
    | .null => functionAttempts call
    | .str type => if type = codePoints "function" then functionAttempts call else []
    | _ => []
  | _ => []

def partsAttempts (item : Fields φ) : List Attempt :=
  (match field item "content" with
    | .arr blocks => blocks
    | content => [content]).flatMap blockAttempts ++
  (asList (field item "tool_calls")).flatMap callAttempts

def plainAttempts (item : Fields φ) : List Attempt :=
  match optionalText (field item "role") with
  | none => []
  | some role =>
    match (if role = codePoints "tool" then usableId (field item "tool_call_id") else none) with
    | some callId => responseAttempts callId (field item "content")
    | none => partsAttempts item

def itemAttempts : Payload φ → List Attempt
  | .obj item =>
    match field item "type" with
    | .null => plainAttempts item
    | .str type =>
      if type = codePoints "message" then plainAttempts item
      else if type = codePoints "function_call" then
        toolAttempts (match usableId (field item "call_id") with
          | some _ => field item "call_id"
          | none => field item "id") (field item "arguments")
      else if type = codePoints "function_call_output" then
        match usableId (field item "call_id") with
        | none => []
        | some callId => responseAttempts callId (field item "output")
      else []
    | _ => []
  | _ => []

def outputAttempts (payload : Fields φ) : List Attempt :=
  match asDict (field (firstChoice payload) "message") with
  | field :: fields => itemAttempts (.obj (field :: fields))
  | [] =>
    match asText (field (firstChoice payload) "text") with
    | some _ => []
    | none => (asList (field (asDict (field payload "response")) "output")).flatMap itemAttempts

/-- Everything that can fail in the messages of a payload, in the order in which it is tried. -/
def attempts (payload : Fields φ) : List Attempt :=
  (asList (field payload "messages")).flatMap itemAttempts ++ outputAttempts payload

end

section
variable {φ : Type} [JsonDecoder φ]

variable (φ) in
def Erases {α : Type} (x : Normalize α) (as : List Attempt) : Prop :=
  x.map (fun _ => ()) = checkAll φ as

theorem checkAll_append (xs ys : List Attempt) :
    checkAll φ (xs ++ ys) = (checkAll φ xs >>= fun _ => checkAll φ ys) := by
  induction xs with
  | nil => rfl
  | cons a xs ih =>
    simp only [List.cons_append, checkAll, ih]
    cases a.check φ <;> rfl

theorem Erases.pure {α : Type} (a : α) : Erases φ (.ok a : Normalize α) [] := rfl

theorem Erases.bind {α β : Type} {x : Normalize α} {f : α → Normalize β} {xs ys : List Attempt}
    (hx : Erases φ x xs) (hf : ∀ a, Erases φ (f a) ys) :
    Erases φ (x >>= f) (xs ++ ys) := by
  unfold Erases at *
  rw [checkAll_append, ← hx]
  cases x with
  | error e => rfl
  | ok a => exact hf a

/-- A step after which nothing can fail. -/
theorem Erases.map {α β : Type} {x : Normalize α} {g : α → β} {xs : List Attempt}
    (hx : Erases φ x xs) : Erases φ (x >>= fun a => (.ok (g a) : Normalize β)) xs := by
  have h := hx.bind (f := fun a => (.ok (g a) : Normalize β)) (fun a => Erases.pure (g a))
  rwa [List.append_nil] at h

theorem Erases.collect {α β : Type} {f : α → Normalize (Option β)} {g : α → List Attempt}
    (hf : ∀ item, Erases φ (f item) (g item)) (items : List α) :
    Erases φ (collect f items) (items.flatMap g) := by
  induction items with
  | nil => exact Erases.pure _
  | cons item rest ih =>
    simp only [Capture.Gateway.collect, List.flatMap_cons]
    exact (hf item).bind (fun part => ih.map)

theorem loaded_erases (s : Text) :
    Erases φ (loaded s : Normalize (Option (Json Text φ))) [.decode s] := by
  unfold Erases loaded
  simp only [checkAll, Attempt.check]
  cases JsonDecoder.loads (φ := φ) s with
  | ok v => rfl
  | error e => cases e <;> rfl

theorem toolCallInput_erases (arguments : Payload φ) :
    Erases φ (toolCallInput arguments) (decodes arguments) := by
  cases arguments with
  | str s => exact (loaded_erases s).map
  | _ => exact Erases.pure _

theorem decodedJson_erases (value : Payload φ) :
    Erases φ (decodedJson value) (decodes value) := by
  cases value with
  | str s => exact (loaded_erases s).map
  | _ => exact Erases.pure _

theorem identify_erases (id : Text) :
    Erases φ (orValidationError (nonEmptyId id)) [.identify id] := by
  unfold Erases
  simp only [checkAll, Attempt.check]
  cases nonEmptyId id <;> rfl

theorem responsePart_erases (callId : Text) (result : Payload φ) :
    Erases φ (responsePart callId result) (responseAttempts callId result) :=
  (decodedJson_erases result).bind (fun _ => (identify_erases callId).map)

variable [PyFloat φ]

theorem toolPart_erases (callId name arguments : Payload φ) :
    Erases φ (toolPart callId name arguments) (toolAttempts callId arguments) := by
  unfold toolPart toolAttempts
  cases usableId callId with
  | none => exact Erases.pure _
  | some id => exact (toolCallInput_erases arguments).bind (fun _ => (identify_erases id).map)

theorem messagePart_erases (block : Payload φ) :
    Erases φ (messagePart block) (blockAttempts block) := by
  cases block with
  | obj block =>
    simp only [messagePart, blockAttempts]
    cases asText (field block "type") with
    | none => exact Erases.pure _
    | some type =>
      simp only
      split
      · exact Erases.pure _
      · split
        · exact Erases.pure _
        · split
          · split <;> exact Erases.pure _
          · split
            · exact toolPart_erases _ _ _
            · split
              · cases usableId (fieldOr block "tool_use_id" (field block "id")) with
                | none => exact Erases.pure _
                | some callId => exact responsePart_erases _ _
              · exact Erases.pure _
  | _ => exact Erases.pure _

/-- Thinking blocks hold neither JSON texts nor ids. -/
theorem thinkingPart_erases (block : Payload φ) : Erases φ (thinkingPart block) [] := by
  cases block with
  | obj fields =>
    simp only [thinkingPart]
    cases hty : asText (field fields "type") with
    | none => exact Erases.pure _
    | some type =>
      simp only
      split
      · rename_i hthink
        have hnone : blockAttempts (.obj fields) = [] := by
          simp only [blockAttempts, hty]
          simp only [oneOfTexts, List.any_cons, List.any_nil, Bool.or_false, Bool.or_eq_true,
            beq_iff_eq] at hthink
          obtain rfl | rfl | rfl := hthink <;> rfl
        have hpart : Erases φ (messagePart (Json.obj fields)) _ :=
          messagePart_erases (Json.obj fields)
        rw [hnone] at hpart
        exact hpart.map
      · exact Erases.pure _
  | _ => exact Erases.pure _

theorem messageReasoningParts_erases (item : Fields φ) :
    Erases φ (messageReasoningParts item) [] := by
  have hblocks : Erases φ (collect (thinkingPart) (thinkingBlocks item)) _ :=
    Erases.collect thinkingPart_erases (thinkingBlocks item)
  rw [List.flatMap_eq_nil_iff.mpr (fun _ _ => rfl)] at hblocks
  refine Erases.bind hblocks (fun parts => ?_)
  split
  · exact Erases.pure _
  · split <;> exact Erases.pure _

theorem functionPart_erases (call : Fields φ) :
    Erases φ (callPart.functionPart call) (functionAttempts call) :=
  toolPart_erases _ _ _

theorem callPart_erases (call : Payload φ) :
    Erases φ (callPart call) (callAttempts call) := by
  cases call with
  | obj call =>
    simp only [callPart, callAttempts]
    cases field call "type" with
    | null => exact functionPart_erases call
    | str type =>
      simp only
      split
      · exact functionPart_erases call
      · exact Erases.pure _
    | _ => exact Erases.pure _
  | _ => exact Erases.pure _

theorem siblingParts_erases (role : Text) (item : Fields φ) :
    Erases φ (siblingParts role item) [] := by
  unfold siblingParts
  split
  · exact messageReasoningParts_erases item
  · exact Erases.pure _

theorem messageParts_erases (role : Text) (item : Fields φ) :
    Erases φ (messageParts role item) (partsAttempts item) := by
  have hcontent : ∀ blocks, Erases φ (collect (messagePart (φ := φ)) blocks)
      (blocks.flatMap blockAttempts) := Erases.collect messagePart_erases
  have hcalls : ∀ calls, Erases φ (collect (callPart (φ := φ)) calls)
      (calls.flatMap callAttempts) := Erases.collect callPart_erases
  refine (hcontent _).bind (fun contentParts => ?_)
  rw [← List.nil_append (List.flatMap _ _)]
  exact (siblingParts_erases role item).bind (fun _ => (hcalls _).map)

theorem plain_erases (finishReason : Payload φ) (item : Fields φ) :
    Erases φ (inferenceMessage.plain finishReason item) (plainAttempts item) := by
  unfold inferenceMessage.plain plainAttempts
  cases optionalText (field item "role") with
  | none => exact Erases.pure _
  | some role =>
    simp only
    cases (if role = codePoints "tool" then usableId (field item "tool_call_id") else none) with
    | none => exact (messageParts_erases role item).map
    | some callId =>
      have hpart : Erases φ (responsePart callId (field item "content")) _ :=
        responsePart_erases callId (field item "content")
      simp only
      rw [← List.append_nil (responseAttempts callId _)]
      exact hpart.bind (fun part => (Erases.pure part.toList).map)

theorem messageOf_erases (finishReason item : Payload φ) :
    Erases φ (messageOf finishReason item) (itemAttempts item) := by
  cases item with
  | obj item =>
    simp only [messageOf, inferenceMessage, itemAttempts]
    cases field item "type" with
    | null => exact plain_erases finishReason item
    | str type =>
      simp only
      split
      · exact plain_erases finishReason item
      · split
        · exact (toolPart_erases _ _ _).map
        · split
          · cases usableId (field item "call_id") with
            | none => exact Erases.pure _
            | some callId => exact (responsePart_erases callId _).map
          · exact Erases.pure _
    | _ => exact Erases.pure _
  | _ => exact Erases.pure _

theorem messages_erases (finishReason : Payload φ) (items : List (Payload φ)) :
    Erases φ (messages finishReason items) (items.flatMap itemAttempts) :=
  Erases.collect (messageOf_erases finishReason) items

theorem outputMessages_erases (payload : Fields φ) :
    Erases φ (outputMessages payload) (outputAttempts payload) := by
  unfold outputMessages outputAttempts
  simp only
  cases asDict (field (firstChoice payload) "message") with
  | cons field fields =>
    simp only
    rw [← List.flatMap_singleton itemAttempts (Json.obj (field :: fields))]
    exact messages_erases _ _
  | nil =>
    simp only
    cases asText (field (firstChoice payload) "text") with
    | some text => exact Erases.pure _
    | none =>
      simp only
      cases asList (field (asDict (field payload "response")) "output") with
      | cons item items => exact messages_erases _ _
      | nil =>
        simp only [List.flatMap_nil]
        cases field payload "response" with
        | str text =>
          simp only
          split <;> exact Erases.pure _
        | _ => exact Erases.pure _

end

section
variable {φ : Type} [JsonDecoder φ]

/-- No text that nests too deep is decoded before a bad id has been met. -/
def Decodable (φ : Type) [JsonDecoder φ] (as : List Attempt) : Prop :=
  ∀ front s back, as = front ++ .decode s :: back → TooDeep φ s →
    ∃ id, .identify id ∈ front ∧ BadId id

theorem checkAll_tooDeep {s : Text} (rest : List Attempt) (h : TooDeep φ s) :
    checkAll φ (.decode s :: rest) = .error .recursionError := by
  simp only [checkAll, Attempt.check]
  rw [h]
  rfl

theorem checkAll_decode {s : Text} (rest : List Attempt) (h : ¬ TooDeep φ s) :
    checkAll φ (.decode s :: rest) = checkAll φ rest := by
  simp only [checkAll, Attempt.check]
  split
  · exact absurd (by assumption) h
  · rfl

theorem checkAll_badId {id : Text} (rest : List Attempt) (h : BadId id) :
    checkAll φ (.identify id :: rest) = .error .validationError := by
  simp only [checkAll, Attempt.check]
  rw [h]
  rfl

theorem checkAll_identify {id : Text} (rest : List Attempt) (h : ¬ BadId id) :
    checkAll φ (.identify id :: rest) = checkAll φ rest := by
  obtain ⟨t, ht⟩ := Option.ne_none_iff_exists'.mp h
  simp only [checkAll, Attempt.check]
  rw [ht]
  rfl

theorem decodable_decode {s : Text} {rest : List Attempt} (h : ¬ TooDeep φ s) :
    Decodable φ (.decode s :: rest) ↔ Decodable φ rest := by
  constructor
  · intro hd front s' back hsplit hdeep
    obtain ⟨id, hmem, hbad⟩ := hd (.decode s :: front) s' back (by rw [hsplit]; rfl) hdeep
    exact ⟨id, by simpa using hmem, hbad⟩
  · intro hd front s' back hsplit hdeep
    cases front with
    | nil =>
      cases hsplit
      exact absurd hdeep h
    | cons a front =>
      obtain ⟨rfl, rfl⟩ := List.cons.inj hsplit
      obtain ⟨id, hmem, hbad⟩ := hd front s' back rfl hdeep
      exact ⟨id, List.mem_cons_of_mem _ hmem, hbad⟩

theorem decodable_identify {id : Text} {rest : List Attempt} (h : ¬ BadId id) :
    Decodable φ (.identify id :: rest) ↔ Decodable φ rest := by
  constructor
  · intro hd front s back hsplit hdeep
    obtain ⟨id', hmem, hbad⟩ := hd (.identify id :: front) s back (by rw [hsplit]; rfl) hdeep
    rcases List.mem_cons.mp hmem with he | hmem
    · cases he
      exact absurd hbad h
    · exact ⟨id', hmem, hbad⟩
  · intro hd front s back hsplit hdeep
    cases front with
    | nil => cases hsplit
    | cons a front =>
      obtain ⟨rfl, rfl⟩ := List.cons.inj hsplit
      obtain ⟨id', hmem, hbad⟩ := hd front s back rfl hdeep
      exact ⟨id', List.mem_cons_of_mem _ hmem, hbad⟩

theorem decodable_badId {id : Text} (rest : List Attempt) (h : BadId id) :
    Decodable φ (.identify id :: rest) := by
  intro front s back hsplit hdeep
  cases front with
  | nil => cases hsplit
  | cons a front =>
    obtain ⟨rfl, -⟩ := List.cons.inj hsplit
    exact ⟨id, List.mem_cons_self, h⟩

theorem checkAll_recursion_iff (as : List Attempt) :
    checkAll φ as = .error .recursionError ↔ ¬ Decodable φ as := by
  induction as with
  | nil =>
    have hd : Decodable φ [] := fun front s back hsplit _ => by simp at hsplit
    exact ⟨(fun h => nomatch h), fun h => absurd hd h⟩
  | cons a rest ih =>
    cases a with
    | decode s =>
      by_cases hs : TooDeep φ s
      · rw [checkAll_tooDeep rest hs]
        refine ⟨fun _ hd => ?_, fun _ => rfl⟩
        obtain ⟨id, hmem, -⟩ := hd [] s rest rfl hs
        exact absurd hmem List.not_mem_nil
      · rw [checkAll_decode rest hs, decodable_decode hs]
        exact ih
    | identify id =>
      by_cases hid : BadId id
      · rw [checkAll_badId rest hid]
        exact ⟨(fun h => nomatch h), fun h => absurd (decodable_badId rest hid) h⟩
      · rw [checkAll_identify rest hid, decodable_identify hid]
        exact ih

/-- Reading fails otherwise only on a bad id. -/
theorem checkAll_cases (as : List Attempt) :
    checkAll φ as = .error .recursionError ∨
      (checkAll φ as = .error .validationError ∧ ∃ id, .identify id ∈ as ∧ BadId id) ∨
      (checkAll φ as = .ok () ∧ ∀ id, .identify id ∈ as → ¬ BadId id) := by
  induction as with
  | nil => exact Or.inr (Or.inr ⟨rfl, by simp⟩)
  | cons a rest ih =>
    cases a with
    | decode s =>
      by_cases hs : TooDeep φ s
      · exact Or.inl (checkAll_tooDeep rest hs)
      · rw [checkAll_decode rest hs]
        simpa using ih
    | identify id =>
      by_cases hid : BadId id
      · exact Or.inr (Or.inl ⟨checkAll_badId rest hid, id, List.mem_cons_self, hid⟩)
      · rw [checkAll_identify rest hid]
        rcases ih with h | ⟨h, id', hmem, hbad⟩ | ⟨h, hall⟩
        · exact Or.inl h
        · exact Or.inr (Or.inl ⟨h, id', List.mem_cons_of_mem _ hmem, hbad⟩)
        · refine Or.inr (Or.inr ⟨h, ?_⟩)
          intro id' hmem
          rcases List.mem_cons.mp hmem with he | hmem
          · cases he
            exact hid
          · exact hall id' hmem

end

section
variable {φ : Type} [PyFloat φ]

/-- One bound of the interval is a float, the other an integer too large for one. -/
def Incomparable (start stop : Payload φ) : Prop :=
  ∃ n x, floatRange ≤ |n| ∧
    ((start = .int n ∧ stop = .float x) ∨ (start = .float x ∧ stop = .int n))

/-- Only the interval is left to give a latency, and its bounds cannot be subtracted. -/
def TimingOverflows (payload : Fields φ) : Prop :=
  intInBounds (field payload "response_time_ms") = none ∧
    secondsMs (field payload "response_time") = .ok none ∧
    Incomparable (field payload "startTime") (field payload "endTime")

omit [PyFloat φ] in
theorem asNumber_int {v : Payload φ} {n : Int} (h : asNumber v = some (.int n)) : v = .int n := by
  cases v <;> cases h
  rfl

omit [PyFloat φ] in
theorem asNumber_float {v : Payload φ} {x : φ} (h : asNumber v = some (.float x)) :
    v = .float x := by
  cases v <;> cases h
  rfl

theorem asFloat_overflow {n : Int} (h : floatRange ≤ |n|) :
    asFloat (.int n : Number φ) = .error .overflowError := by
  have hnone : (PyFloat.ofInt n : Option φ) = none := (PyFloat.overflow n).mpr h
  simp only [asFloat, hnone]

theorem asFloat_ok {n : Int} (h : ¬ floatRange ≤ |n|) :
    ∃ x : φ, asFloat (.int n) = .ok x := by
  have hsome : ¬ (PyFloat.ofInt n : Option φ) = none := fun hn => h ((PyFloat.overflow n).mp hn)
  obtain ⟨x, hx⟩ := Option.ne_none_iff_exists'.mp hsome
  exact ⟨x, by simp only [asFloat, hx]⟩

variable (ints : Int → Int → Int) (floats : φ → φ → φ)

theorem arithmetic_int_float (n : Int) (x : φ) :
    arithmetic ints floats (.int n) (.float x) =
      (asFloat (.int n)).map (fun y => .float (floats y x)) := by
  simp only [arithmetic]
  cases asFloat (.int n : Number φ) <;> rfl

theorem arithmetic_float_int (x : φ) (n : Int) :
    arithmetic ints floats (.float x) (.int n) =
      (asFloat (.int n)).map (fun y => .float (floats x y)) := by
  simp only [arithmetic, asFloat]
  cases (PyFloat.ofInt n : Option φ) <;> rfl

/-- A thousand is a float, so milliseconds can always be computed. -/
theorem arithmetic_thousand (a : Number φ) :
    ∃ b, arithmetic ints floats a (.int 1000) = .ok b := by
  cases a with
  | int m => exact ⟨_, rfl⟩
  | float x =>
    obtain ⟨y, hy⟩ := asFloat_ok (φ := φ) (n := 1000) (by decide +kernel)
    exact ⟨.float (floats x y), by rw [arithmetic_float_int, hy]; rfl⟩

theorem secondsMs_ok (seconds : Payload φ) : ∃ ms, secondsMs seconds = .ok ms := by
  unfold secondsMs
  cases asNumber seconds with
  | none => exact ⟨none, rfl⟩
  | some number =>
    obtain ⟨b, hb⟩ := arithmetic_thousand (· * ·) PyFloat.mul number
    exact ⟨b.intInBounds, by simp only [Number.mul, hb, ok_bind]⟩

theorem intervalMs_overflow {start stop : Payload φ} (h : Incomparable start stop) :
    intervalMs start stop = .error .overflowError := by
  obtain ⟨n, x, hn, ⟨rfl, rfl⟩ | ⟨rfl, rfl⟩⟩ := h
  · simp only [intervalMs, asNumber, Number.sub, arithmetic_float_int, asFloat_overflow hn]
    rfl
  · simp only [intervalMs, asNumber, Number.sub, arithmetic_int_float, asFloat_overflow hn]
    rfl

theorem sub_ok {start stop : Payload φ} {a b : Number φ} (ha : asNumber start = some a)
    (hb : asNumber stop = some b) (h : ¬ Incomparable start stop) : ∃ c, b.sub a = .ok c := by
  cases a with
  | int m =>
    cases b with
    | int n => exact ⟨_, rfl⟩
    | float y =>
      have hm : ¬ floatRange ≤ |m| := fun hm =>
        h ⟨m, y, hm, Or.inl ⟨asNumber_int ha, asNumber_float hb⟩⟩
      obtain ⟨x, hx⟩ := asFloat_ok (φ := φ) hm
      exact ⟨_, by rw [Number.sub, arithmetic_float_int, hx]; rfl⟩
  | float x =>
    cases b with
    | int n =>
      have hn : ¬ floatRange ≤ |n| := fun hn =>
        h ⟨n, x, hn, Or.inr ⟨asNumber_float ha, asNumber_int hb⟩⟩
      obtain ⟨y, hy⟩ := asFloat_ok (φ := φ) hn
      exact ⟨_, by rw [Number.sub, arithmetic_int_float, hy]; rfl⟩
    | float y => exact ⟨_, rfl⟩

theorem intervalMs_ok {start stop : Payload φ} (h : ¬ Incomparable start stop) :
    ∃ ms, intervalMs start stop = .ok ms := by
  unfold intervalMs
  cases ha : asNumber start with
  | none => exact ⟨none, rfl⟩
  | some a =>
    cases hb : asNumber stop with
    | none => exact ⟨none, rfl⟩
    | some b =>
      obtain ⟨c, hc⟩ := sub_ok ha hb h
      obtain ⟨d, hd⟩ := arithmetic_thousand (· * ·) PyFloat.mul c
      exact ⟨d.intInBounds, by simp only [hc, Number.mul, hd, ok_bind]⟩

theorem latencyMs_overflow {payload : Fields φ} (h : TimingOverflows payload) :
    latencyMs payload = .error .overflowError := by
  obtain ⟨hms, hseconds, hinterval⟩ := h
  simp only [latencyMs, hms, hseconds, ok_bind]
  exact intervalMs_overflow hinterval

theorem latencyMs_ok {payload : Fields φ} (h : ¬ TimingOverflows payload) :
    ∃ ms, latencyMs payload = .ok ms := by
  unfold latencyMs
  cases hms : intInBounds (field payload "response_time_ms") with
  | some ms => exact ⟨some ms, rfl⟩
  | none =>
    obtain ⟨ms, hseconds⟩ := secondsMs_ok (field payload "response_time")
    simp only [hseconds, ok_bind]
    cases ms with
    | some ms => exact ⟨some ms, rfl⟩
    | none => exact intervalMs_ok (fun hinterval => h ⟨hms, hseconds, hinterval⟩)

end

section
variable {φ : Type}

def Stored (count : Option Int) : Prop := ∀ n ∈ count, 0 ≤ n ∧ n ≤ int64Max

/-- A call over the payload with counts that can be stored, or the model's own error. -/
def Degrades (payload : Fields φ) (result : Normalize (InferenceCall φ)) : Prop :=
  (∃ call, result = .ok call ∧ Stored call.inputTokens ∧ Stored call.outputTokens ∧
    Stored call.durationMs ∧ call.raw = payload) ∨
  result = .error .validationError

theorem optional_boundedCount {count stored : Option Int}
    (h : optional boundedCount count = some stored) : Stored stored := by
  intro n hn
  cases count with
  | none =>
    cases h
    cases hn
  | some m =>
    obtain ⟨k, hk, rfl⟩ := Option.map_eq_some_iff.mp h
    cases hn
    unfold boundedCount at hk
    split at hk
    · cases hk
      assumption
    · cases hk

theorem validate_stored {call stored : InferenceCall φ} (h : call.validate = some stored) :
    Stored stored.inputTokens ∧ Stored stored.outputTokens ∧ Stored stored.durationMs ∧
      stored.raw = call.raw := by
  simp only [InferenceCall.validate, Option.bind_eq_bind, Option.bind_eq_some_iff] at h
  obtain ⟨_, -, _, -, _, -, _, -, _, -, _, hinput, _, houtput, _, hduration, _, -, h⟩ := h
  cases h
  exact ⟨optional_boundedCount hinput, optional_boundedCount houtput,
    optional_boundedCount hduration, rfl⟩

variable [JsonDecoder φ] [PyFloat φ]

def reads (payload : Fields φ) :
    Normalize (List (InferenceMessage φ) × List (InferenceMessage φ)) := do
  let inputs ← messages .null (asList (field payload "messages"))
  let outputs ← outputMessages payload
  .ok (inputs, outputs)

theorem reads_erases (payload : Fields φ) :
    Erases φ (reads payload) (attempts payload) :=
  (messages_erases _ _).bind (fun _ => (outputMessages_erases payload).map)

theorem reads_error {payload : Fields φ} {e : NormalizeError}
    (h : checkAll φ (attempts payload) = .error e) : reads payload = .error e := by
  have herases : (reads payload).map (fun _ => ()) = .error e :=
    (reads_erases payload).trans h
  cases hread : reads payload with
  | error e' =>
    rw [hread] at herases
    cases herases
    rfl
  | ok pair =>
    rw [hread] at herases
    cases herases

theorem reads_ok {payload : Fields φ} (h : checkAll φ (attempts payload) = .ok ()) :
    ∃ pair, reads payload = .ok pair := by
  have herases : (reads payload).map (fun _ => ()) = .ok () := (reads_erases payload).trans h
  cases hread : reads payload with
  | error e' =>
    rw [hread] at herases
    cases herases
  | ok pair => exact ⟨pair, rfl⟩

variable [Interpreter] [CaptureNamespace]

/-- The messages are read, then the latency, and what was read is validated. -/
theorem normalize_steps (defaults : Defaults) {identity : CallIdentity} {orgId : String}
    (capture : Option GatewayCapture) (payload : Fields φ)
    (horg : normalizeOrgId identity.orgId = some orgId) :
    ∃ captured, normalize defaults identity capture payload = (do
      let pair ← reads payload
      let ms ← latencyMs payload
      orValidationError (callOf identity orgId captured payload pair.1 pair.2 ms).validate) := by
  have hcaptured : ∃ captured, captureFields defaults identity.orgId capture = .ok captured := by
    cases capture with
    | none => exact ⟨_, rfl⟩
    | some capture => exact ⟨_, by simp only [captureFields, horg]; rfl⟩
  obtain ⟨captured, hcaptured⟩ := hcaptured
  refine ⟨captured, ?_⟩
  simp only [Capture.Gateway.normalize, reads, hcaptured, horg, orValidationError, ok_bind]
  cases messages .null (asList (field payload "messages")) with
  | error e => rfl
  | ok inputs => cases outputMessages payload <;> rfl

theorem degrades_iff (defaults : Defaults) (identity : CallIdentity) (orgId : String)
    (capture : Option GatewayCapture) (payload : Fields φ)
    (horg : normalizeOrgId identity.orgId = some orgId) :
    Degrades payload (normalize defaults identity capture payload) ↔
      Decodable φ (attempts payload) ∧
        (TimingOverflows payload → ∃ id, .identify id ∈ attempts payload ∧ BadId id) := by
  obtain ⟨captured, hsteps⟩ := normalize_steps (φ := φ) defaults capture payload horg
  rw [hsteps]
  have hdecodable : checkAll φ (attempts payload) ≠ .error .recursionError →
      Decodable φ (attempts payload) := fun hne =>
    Classical.byContradiction (fun hd => hne ((checkAll_recursion_iff _).mpr hd))
  have hcases := checkAll_cases (φ := φ) (attempts payload)
  rcases hcases with hrec | ⟨hval, hbad⟩ | ⟨hok, hgood⟩
  · have hnot : ¬ Decodable φ (attempts payload) := (checkAll_recursion_iff _).mp hrec
    simp only [reads_error hrec, error_bind]
    constructor
    · intro h
      rcases h with ⟨call, hcall, -⟩ | h
      · cases hcall
      · cases h
    · intro h
      exact absurd h.1 hnot
  · simp only [reads_error hval, error_bind]
    constructor
    · intro h
      exact ⟨hdecodable (by rw [hval]; simp), fun _ => hbad⟩
    · intro h
      exact Or.inr rfl
  · obtain ⟨pair, hpair⟩ := reads_ok hok
    simp only [hpair, ok_bind]
    by_cases htiming : TimingOverflows payload
    · simp only [latencyMs_overflow htiming, error_bind]
      constructor
      · intro h
        rcases h with ⟨call, hcall, -⟩ | h
        · cases hcall
        · cases h
      · intro h
        obtain ⟨id, hmem, hid⟩ := h.2 htiming
        exact absurd hid (hgood id hmem)
    · obtain ⟨ms, hms⟩ := latencyMs_ok htiming
      simp only [hms, ok_bind]
      constructor
      · intro h
        exact ⟨hdecodable (by rw [hok]; simp), fun h => absurd h htiming⟩
      · intro h
        cases hv : (callOf identity orgId captured payload pair.1 pair.2 ms).validate with
        | none => exact Or.inr rfl
        | some stored =>
          obtain ⟨hinput, houtput, hduration, hstored⟩ := validate_stored hv
          exact Or.inl ⟨stored, rfl, hinput, houtput, hduration, by rw [hstored]; rfl⟩

end

/-- Floats whose arithmetic is exact, with the range of a double. -/
@[reducible] def exactFloat : PyFloat ℚ where
  ofInt n := if |n| < floatRange then some n else none
  sub := (· - ·)
  mul := (· * ·)
  isfinite _ := true
  trunc x := if 0 ≤ x then ⌊x⌋ else ⌈x⌉
  repr x := (toString x).toList
  overflow n := by
    split <;> simp_all

@[reducible] def lowerInterpreter : Interpreter :=
  ⟨fun s => String.ofList (s.toList.map Char.toLower)⟩

/-- A decoder that follows a thousand nested containers, and reads no floats. -/
@[reducible] def thousandDeep : JsonDecoder ℚ :=
  ⟨fun s => (loads 1000 (s.map Char.ofNat)).map (fun v => v.map id (fun _ => 0))⟩

@[reducible] def plainNamespace : CaptureNamespace := ⟨fun name => name.map Char.toNat⟩

def someInstant : Datetime := ⟨0, 0, by decide, Datetime.zero_offset⟩

def someDefaults : Defaults := ⟨codePoints "8f14e45f-ceea-467f-a8d5-0c3d2f4b6a11", someInstant⟩

def acme : CallIdentity := ⟨codePoints "s1", some (codePoints "u1"), "acme"⟩

/-- An interval from `start` to the float `1.5`, and nothing else. -/
def interval (start : Int) : Fields ℚ :=
  [(codePoints "startTime", .int start), (codePoints "endTime", .float (3 / 2))]

theorem short_interval_degrades :
    letI := exactFloat; letI := thousandDeep; letI := lowerInterpreter; letI := plainNamespace
    Degrades (interval 1) (normalize someDefaults acme none (interval 1)) := by
  let _ := exactFloat
  let _ := thousandDeep
  let _ := lowerInterpreter
  let _ := plainNamespace
  have hsmall : ¬ TimingOverflows (interval 1) := by
    intro h
    obtain ⟨-, -, n, x, hn, ⟨hstart, -⟩ | ⟨hstart, -⟩⟩ := h
    · cases hstart
      exact absurd hn (by decide +kernel)
    · cases hstart
  have hnone : attempts (interval 1) = [] := rfl
  apply (degrades_iff someDefaults acme "acme" none (interval 1) (by decide)).mpr
  rw [hnone]
  exact ⟨fun front s back hsplit _ => by simp at hsplit, fun h => absurd h hsmall⟩

/-- A start beyond the range of floats and a float end: `end - start` raises. -/
theorem huge_start_escapes :
    letI := exactFloat; letI := thousandDeep; letI := lowerInterpreter; letI := plainNamespace
    normalize someDefaults acme none (interval (10 ^ 400)) = .error .overflowError ∧
      ¬ Degrades (interval (10 ^ 400))
        (normalize someDefaults acme none (interval (10 ^ 400))) := by
  let _ := exactFloat
  let _ := thousandDeep
  let _ := lowerInterpreter
  let _ := plainNamespace
  have htiming : TimingOverflows (interval (10 ^ 400)) :=
    ⟨rfl, rfl, 10 ^ 400, 3 / 2, by decide +kernel, Or.inl ⟨rfl, rfl⟩⟩
  have hread : reads (interval (10 ^ 400)) = .ok ([], []) := rfl
  have horg : normalizeOrgId acme.orgId = some "acme" := by decide
  obtain ⟨captured, hsteps⟩ := normalize_steps someDefaults none (interval (10 ^ 400)) horg
  have hescapes : normalize someDefaults acme none (interval (10 ^ 400)) =
      .error .overflowError := by
    rw [hsteps, hread, ok_bind, latencyMs_overflow htiming, error_bind]
  rw [hescapes]
  refine ⟨rfl, ?_⟩
  intro h
  rcases h with ⟨call, hcall, -⟩ | h
  · cases hcall
  · cases h

end Sediment.Proofs.GatewayTotal

import Sediment.Export.Jsonl

namespace Sediment.Proofs.JsonlWrites
open Sediment.Base Sediment.Base.JsonScan Sediment.Export Sediment.Export.Jsonl

/-- Nothing in sight is past the budget. -/
def within (maxBytes : Option Nat) (n : Nat) : Bool := maxBytes.all (n ≤ ·)

theorem within_mono {maxBytes : Option Nat} {m n : Nat} (h : within maxBytes n = true)
    (hle : m ≤ n) : within maxBytes m = true := by
  cases maxBytes with
  | none => rfl
  | some k =>
    simp only [within, Option.all_some, decide_eq_true_eq] at h ⊢
    omega

theorem over_iff {maxBytes : Option Nat} {n : Nat} :
    maxBytes.any (· < n) = true ↔ within maxBytes n = false := by
  cases maxBytes with
  | none => simp [within]
  | some k => simp [within]

/-- One temporary file has grown by a text, and nothing else has changed but the count. -/
structure Extends (path : FilePath) (s s' : WriteState) (text : List Char) : Prop where
  destinations : s'.destinations = s.destinations
  prepared : s'.prepared = s.prepared
  bytes : s'.encodedBytes = s.encodedBytes + text.length
  content : ∀ c, s.temporaries.get? path = some c → s'.temporaries.get? path = some (c ++ text)
  others : ∀ key, key ≠ path → s'.temporaries.get? key = s.temporaries.get? key

theorem Extends.refl (path : FilePath) (s : WriteState) : Extends path s s [] := by
  constructor
  · rfl
  · rfl
  · rfl
  · intro c hc
    rw [hc, List.append_nil]
  · intro key _
    rfl

theorem Extends.trans {path : FilePath} {s t u : WriteState} {a b : List Char}
    (h : Extends path s t a) (h' : Extends path t u b) : Extends path s u (a ++ b) := by
  constructor
  · rw [h'.destinations, h.destinations]
  · rw [h'.prepared, h.prepared]
  · rw [h'.bytes, h.bytes, List.length_append, Nat.add_assoc]
  · intro c hc
    rw [h'.content _ (h.content c hc), List.append_assoc]
  · intro key hkey
    rw [h'.others key hkey, h.others key hkey]

section
variable {maxBytes : Option Nat} {path : FilePath}

theorem writeChunk_spec {s s' : WriteState} {chunk : List Char} {raised : Option WriteError}
    (h : writeChunk maxBytes path s chunk = (s', raised)) :
    (raised = none ↔ within maxBytes (s.encodedBytes + chunk.length) = true) ∧
      (raised = none → Extends path s s' chunk) ∧ (raised ≠ none → s' = s) := by
  unfold writeChunk at h
  split at h
  · rename_i hover
    cases h
    rw [over_iff] at hover
    simp [hover]
  · rename_i hover
    cases h
    rw [over_iff, Bool.not_eq_false] at hover
    refine ⟨by simp [hover], fun _ => ?_, fun hne => absurd rfl hne⟩
    constructor
    · rfl
    · rfl
    · rfl
    · intro c hc
      simp only [Dict.get?_alter, if_true, hc, Option.getD_some]
    · intro key hkey
      simp only [Dict.get?_alter, if_neg hkey]

/-- What is written is a part of the chunks from the front, all of them where nothing raised. -/
theorem writeChunks_spec {s s' : WriteState} {chunks : List (List Char)}
    {raised : Option WriteError} (hs : within maxBytes s.encodedBytes = true)
    (h : writeChunks maxBytes path s chunks = (s', raised)) :
    (raised = none ↔ within maxBytes (s.encodedBytes + chunks.flatten.length) = true) ∧
      within maxBytes s'.encodedBytes = true ∧
      ∃ text, Extends path s s' text ∧ (raised = none → text = chunks.flatten) := by
  induction chunks generalizing s with
  | nil =>
    cases h
    exact ⟨by simp [hs], hs, [], Extends.refl path _, fun _ => rfl⟩
  | cons chunk rest ih =>
    rw [writeChunks] at h
    cases hwrite : writeChunk maxBytes path s chunk with
    | mk t outcome =>
      rw [hwrite] at h
      obtain ⟨hfits, hgrows, hstays⟩ := writeChunk_spec hwrite
      cases outcome with
      | some e =>
        cases h
        have hover : within maxBytes (s.encodedBytes + chunk.length) ≠ true :=
          fun hin => absurd (hfits.mpr hin) (by simp)
        have hsame := hstays (by simp)
        rw [hsame]
        refine ⟨?_, hs, [], Extends.refl path s, fun hnone => by cases hnone⟩
        constructor
        · intro hnone
          cases hnone
        · intro hin
          refine absurd (within_mono hin ?_) hover
          simp
      | none =>
        have hext := hgrows rfl
        have ht : within maxBytes t.encodedBytes = true := by
          rw [hext.bytes]
          exact hfits.mp rfl
        obtain ⟨hiff, hin, text, hrest, hall⟩ := ih ht h
        refine ⟨?_, hin, chunk ++ text, hext.trans hrest, ?_⟩
        · rw [hiff, hext.bytes, List.flatten_cons, List.length_append, Nat.add_assoc]
        · intro hnone
          rw [hall hnone, List.flatten_cons]

/-- What a row adds to its file. -/
def lineOf (body : Body) : List Char := (iterencode body).text ++ ['\n']

/-- After a whole row: its line in its file, and one more row counted. -/
structure Adds (path : FilePath) (s s' : WriteState) (line : List Char) : Prop where
  destinations : s'.destinations = s.destinations
  bytes : s'.encodedBytes = s.encodedBytes + line.length
  content : ∀ c, s.temporaries.get? path = some c → s'.temporaries.get? path = some (c ++ line)
  others : ∀ key, key ≠ path → s'.temporaries.get? key = s.temporaries.get? key
  prepared : ∀ key, s'.prepared.get? key =
    if key = path then some ((s.prepared.get? path).getD 0 + 1) else s.prepared.get? key

theorem encodeRow_spec {s s' : WriteState} {body : Body} {raised : Option WriteError}
    (hs : within maxBytes s.encodedBytes = true)
    (h : encodeRow maxBytes path s body = (s', raised)) :
    (raised = none ↔ (iterencode body).raised = false ∧
      within maxBytes (s.encodedBytes + (lineOf body).length) = true) ∧
      within maxBytes s'.encodedBytes = true ∧ (raised = none → Adds path s s' (lineOf body)) ∧
      (raised ≠ none → ∃ text, Extends path s s' text) := by
  unfold encodeRow at h
  have hlen : (lineOf body).length = (iterencode body).chunks.flatten.length + 1 := by
    rw [lineOf, List.length_append]
    rfl
  cases hwrite : writeChunks maxBytes path s (iterencode body).chunks with
  | mk t outcome =>
    rw [hwrite] at h
    obtain ⟨hfits, ht, text, hext, hall⟩ := writeChunks_spec hs hwrite
    cases outcome with
    | some e =>
      cases h
      refine ⟨?_, ht, fun hnone => (by cases hnone), fun _ => ⟨text, hext⟩⟩
      constructor
      · intro hnone
        cases hnone
      · intro hin
        have hshort := within_mono hin.2
          (by omega : s.encodedBytes + (iterencode body).chunks.flatten.length ≤ _)
        exact absurd (hfits.mpr hshort) (by simp)
    | none =>
      have htext := hall rfl
      simp only at h
      split at h
      · rename_i hraised
        cases h
        refine ⟨?_, ht, fun hnone => (by cases hnone), fun _ => ⟨text, hext⟩⟩
        constructor
        · intro hnone
          cases hnone
        · intro hin
          rw [hraised] at hin
          cases hin.1
      · rename_i hraised
        rw [Bool.not_eq_true] at hraised
        cases hnewline : writeChunk maxBytes path t ['\n'] with
        | mk u outcome =>
          rw [hnewline] at h
          obtain ⟨hfits', hgrows, hstays⟩ := writeChunk_spec hnewline
          have hbytes := hext.bytes
          rw [htext] at hbytes
          have hsum : t.encodedBytes + (['\n'] : List Char).length =
              s.encodedBytes + (lineOf body).length := by
            rw [hbytes, hlen]
            rfl
          rw [hsum] at hfits'
          cases outcome with
          | some e =>
            cases h
            have hsame := hstays (by simp)
            rw [hsame]
            refine ⟨?_, ht, fun hnone => (by cases hnone), fun _ => ⟨text, hext⟩⟩
            constructor
            · intro hnone
              cases hnone
            · intro hin
              exact absurd (hfits'.mpr hin.2) (by simp)
          | none =>
            cases h
            have hline := hext.trans (hgrows rfl)
            rw [htext] at hline
            have hin := hfits'.mp rfl
            refine ⟨by simp [hraised, hin], ?_, fun _ => ?_, fun hne => absurd rfl hne⟩
            · rw [hline.bytes]
              exact hin
            · constructor
              · exact hline.destinations
              · exact hline.bytes
              · exact hline.content
              · exact hline.others
              · intro key
                simp only [Dict.get?_alter, hline.prepared]

end

section
variable (base : FilePath) (splitEnabled : Bool)

/-- The rows of one side, in input order. -/
def rowsAt (path : FilePath) (rows : List ExportRow) : List ExportRow :=
  rows.filter (fun row => pathOf base splitEnabled row = path)

def linesOf (rows : List ExportRow) : List Char := rows.flatMap (fun row => lineOf row.body)

/-- Every row so far is in the temporary file of its side, and nothing else has changed. -/
structure Staged (destinations : FilePath → Option (List Char)) (maxBytes : Option Nat)
    (done : List ExportRow) (s : WriteState) : Prop where
  destinations : s.destinations = destinations
  temporaries : ∀ path, s.temporaries.get? path =
    if rowsAt base splitEnabled path done = [] then none
    else some (linesOf (rowsAt base splitEnabled path done))
  prepared : ∀ path, s.prepared.get? path =
    if rowsAt base splitEnabled path done = [] then none
    else some (rowsAt base splitEnabled path done).length
  bytes : s.encodedBytes = (linesOf done).length
  budget : within maxBytes s.encodedBytes = true

/-- Whatever else has happened, the destinations are as they were, and every temporary file is
known to the cleanup. -/
structure Kept (destinations : FilePath → Option (List Char)) (maxBytes : Option Nat)
    (s : WriteState) : Prop where
  destinations : s.destinations = destinations
  known : ∀ path c, s.temporaries.get? path = some c → ∃ n, s.prepared.get? path = some n
  budget : within maxBytes s.encodedBytes = true

variable {base splitEnabled} {destinations : FilePath → Option (List Char)}
  {maxBytes : Option Nat} {done : List ExportRow} {s s' : WriteState}

theorem Staged.kept (h : Staged base splitEnabled destinations maxBytes done s) :
    Kept destinations maxBytes s := by
  refine ⟨h.destinations, ?_, h.budget⟩
  intro path c hc
  rw [h.temporaries] at hc
  split at hc
  · cases hc
  · rename_i hne
    rw [h.prepared, if_neg hne]
    exact ⟨_, rfl⟩

theorem pathOf_mem (base : FilePath) (splitEnabled : Bool) (row : ExportRow) :
    pathOf base splitEnabled row ∈ targets base splitEnabled := by
  unfold pathOf targets
  cases splitEnabled with
  | false => simp
  | true => cases row.split <;> simp

theorem rowsAt_append (path : FilePath) (rows : List ExportRow) (row : ExportRow) :
    rowsAt base splitEnabled path (rows ++ [row]) =
      if path = pathOf base splitEnabled row then rowsAt base splitEnabled path rows ++ [row]
      else rowsAt base splitEnabled path rows := by
  rw [rowsAt, List.filter_append]
  split
  · rename_i heq
    rw [List.filter_cons_of_pos (by simp [heq])]
    rfl
  · rename_i hne
    rw [List.filter_cons_of_neg (by simpa using fun h => hne h.symm)]
    exact List.append_nil _

theorem linesOf_append (rows : List ExportRow) (row : ExportRow) :
    linesOf (rows ++ [row]) = linesOf rows ++ lineOf row.body := by
  simp [linesOf]

/-- The file of a side, before its next row. -/
theorem prepare_spec (h : Staged base splitEnabled destinations maxBytes done s) (path : FilePath) :
    (prepare path s).destinations = destinations ∧
      (prepare path s).encodedBytes = s.encodedBytes ∧
      (prepare path s).temporaries.get? path =
        some (linesOf (rowsAt base splitEnabled path done)) ∧
      (∀ key, key ≠ path → (prepare path s).temporaries.get? key = s.temporaries.get? key) ∧
      ∀ key, (prepare path s).prepared.get? key =
        if key = path then some (rowsAt base splitEnabled path done).length
        else s.prepared.get? key := by
  have hknown : s.prepared.contains path = true ↔ rowsAt base splitEnabled path done ≠ [] := by
    rw [Dict.contains, h.prepared]
    split <;> simp_all
  unfold prepare
  split
  · rename_i hold
    have hne := hknown.mp hold
    refine ⟨h.destinations, rfl, ?_, fun _ _ => rfl, ?_⟩
    · rw [h.temporaries, if_neg hne]
    · intro key
      split
      · rename_i heq
        rw [heq, h.prepared, if_neg hne]
      · rfl
  · rename_i hnew
    have hempty : rowsAt base splitEnabled path done = [] := by
      by_contra hne
      exact hnew (hknown.mpr hne)
    refine ⟨h.destinations, rfl, ?_, ?_, ?_⟩
    · simp only [Dict.get?_set, if_true, hempty]
      rfl
    · intro key hkey
      simp only [Dict.get?_set, if_neg hkey]
    · intro key
      simp only [Dict.get?_set, hempty, List.length_nil]

/-- A row is staged on its side, or the write raises and keeps the destinations. -/
theorem writeRow_spec (h : Staged base splitEnabled destinations maxBytes done s)
    {row : ExportRow} {raised : Option WriteError}
    (hwrite : writeRow base splitEnabled maxBytes s row = (s', raised)) :
    (raised = none ↔ (iterencode row.body).raised = false ∧
      within maxBytes (linesOf (done ++ [row])).length = true) ∧
      (raised = none → Staged base splitEnabled destinations maxBytes (done ++ [row]) s') ∧
      (raised ≠ none → Kept destinations maxBytes s') := by
  unfold writeRow at hwrite
  simp only [pathOf_mem, not_true_eq_false, if_false] at hwrite
  obtain ⟨hdest, hbytes, hcontent, hothers, hprepared⟩ :=
    prepare_spec h (pathOf base splitEnabled row)
  have hbudget : within maxBytes (prepare (pathOf base splitEnabled row) s).encodedBytes = true := by
    rw [hbytes]
    exact h.budget
  obtain ⟨hiff, hin, hadds, hpart⟩ := encodeRow_spec hbudget hwrite
  have hlen : (linesOf (done ++ [row])).length = s.encodedBytes + (lineOf row.body).length := by
    rw [linesOf_append, List.length_append, h.bytes]
  refine ⟨?_, ?_, ?_⟩
  · rw [hiff, hlen, hbytes]
  · intro hnone
    have hadd := hadds hnone
    constructor
    · rw [hadd.destinations, hdest]
    · intro path
      rw [rowsAt_append]
      split
      · rename_i heq
        rw [heq, hadd.content _ hcontent, if_neg (by simp), linesOf_append]
      · rename_i hne
        rw [hadd.others path hne, hothers path hne, h.temporaries]
    · intro path
      rw [hadd.prepared, rowsAt_append]
      split
      · rename_i heq
        rw [hprepared, if_pos rfl, if_neg (by simp), heq, List.length_append]
        rfl
      · rename_i hne
        rw [hprepared, if_neg hne, h.prepared]
    · rw [hadd.bytes, hbytes, hlen]
    · exact hin
  · intro hne
    obtain ⟨text, hext⟩ := hpart hne
    refine ⟨by rw [hext.destinations, hdest], ?_, hin⟩
    intro path c hc
    rw [hext.prepared, hprepared]
    split
    · exact ⟨_, rfl⟩
    · rename_i hother
      rw [hext.others path hother, hothers path hother] at hc
      exact h.kept.known path c hc

theorem writeRows_spec (h : Staged base splitEnabled destinations maxBytes done s)
    {rows : List ExportRow} {raised : Option WriteError}
    (hwrite : writeRows base splitEnabled maxBytes s rows = (s', raised)) :
    (raised = none ↔ (∀ row ∈ rows, (iterencode row.body).raised = false) ∧
      within maxBytes (linesOf (done ++ rows)).length = true) ∧
      (raised = none → Staged base splitEnabled destinations maxBytes (done ++ rows) s') ∧
      (raised ≠ none → Kept destinations maxBytes s') := by
  induction rows generalizing done s with
  | nil =>
    cases hwrite
    rw [List.append_nil]
    have hbudget := h.budget
    rw [h.bytes] at hbudget
    exact ⟨by simp [hbudget], fun _ => h, fun hne => absurd rfl hne⟩
  | cons row rest ih =>
    rw [writeRows] at hwrite
    cases hrow : writeRow base splitEnabled maxBytes s row with
    | mk t outcome =>
      rw [hrow] at hwrite
      obtain ⟨hiff, hstaged, hkept⟩ := writeRow_spec h hrow
      have hmono : (linesOf (done ++ [row])).length ≤ (linesOf (done ++ row :: rest)).length := by
        simp only [linesOf, List.flatMap_append, List.flatMap_cons, List.flatMap_nil,
          List.length_append, List.length_nil]
        omega
      cases outcome with
      | some e =>
        cases hwrite
        refine ⟨?_, fun hnone => (by cases hnone), fun _ => hkept (by simp)⟩
        constructor
        · intro hnone
          cases hnone
        · intro hall
          have hno := hiff.mpr ⟨hall.1 row (by simp), within_mono hall.2 hmono⟩
          cases hno
      | none =>
        have hrest := ih (hstaged rfl) hwrite
        rw [List.append_assoc, List.singleton_append] at hrest
        refine ⟨?_, hrest.2⟩
        rw [hrest.1, List.forall_mem_cons]
        have hok := (hiff.mp rfl).1
        simp [hok]

/-- Each prepared target gets the content of its temporary file, and nothing else is touched. -/
theorem publish_spec (paths : List FilePath) (hn : paths.Nodup) (s : WriteState)
    (result : WriteResult) :
    (∀ path, (paths.foldl publish (s, result)).1.destinations path =
      if path ∈ paths ∧ s.prepared.contains path then s.temporaries.get? path
      else s.destinations path) ∧
    (∀ path c, (paths.foldl publish (s, result)).1.temporaries.get? path = some c →
      s.temporaries.get? path = some c) ∧
    (paths.foldl publish (s, result)).1.prepared = s.prepared ∧
    (paths.foldl publish (s, result)).1.encodedBytes = s.encodedBytes ∧
    (∀ path, (paths.foldl publish (s, result)).2.written.get? path =
      if path ∈ paths ∧ s.prepared.contains path then s.prepared.get? path
      else result.written.get? path) := by
  induction paths generalizing s result with
  | nil => simp
  | cons first rest ih =>
    obtain ⟨hfirst, hrest⟩ := List.nodup_cons.mp hn
    rw [List.foldl_cons]
    cases hget : s.prepared.get? first with
    | none =>
      have hstep : publish (s, result) first =
          (s, { result with skippedEmpty := result.skippedEmpty ++ [first] }) := by
        simp only [publish, hget]
      have hno : s.prepared.contains first = false := by rw [Dict.contains, hget]; rfl
      rw [hstep]
      obtain ⟨hdest, htemp, hprep, hbytes, hwritten⟩ := ih hrest s _
      refine ⟨?_, htemp, hprep, hbytes, ?_⟩
      · intro path
        rw [hdest]
        by_cases heq : path = first
        · rw [heq]
          simp [hno]
        · simp [heq]
      · intro path
        rw [hwritten]
        by_cases heq : path = first
        · rw [heq]
          simp [hno]
        · simp [heq]
    | some count =>
      have hyes : s.prepared.contains first = true := by rw [Dict.contains, hget]; rfl
      have hstep : publish (s, result) first = ({ s with
          destinations := Function.update s.destinations first (s.temporaries.get? first)
          temporaries := s.temporaries.filter (fun key _ => key ≠ first) },
          { result with written := result.written.set first count }) := by
        simp only [publish, hget]
      rw [hstep]
      obtain ⟨hdest, htemp, hprep, hbytes, hwritten⟩ := ih hrest { s with
          destinations := Function.update s.destinations first (s.temporaries.get? first)
          temporaries := s.temporaries.filter (fun key _ => key ≠ first) }
          { result with written := result.written.set first count }
      refine ⟨?_, ?_, hprep, hbytes, ?_⟩
      · intro path
        rw [hdest]
        by_cases heq : path = first
        · rw [heq]
          simp [hfirst, hyes]
        · simp only [List.mem_cons, heq, false_or, Function.update_of_ne heq, Dict.get?_filter]
          split
          · cases s.temporaries.get? path with
            | none => rfl
            | some c => simp [Option.filter, heq]
          · rfl
      · intro path c hc
        have hin := htemp path c hc
        simp only [Dict.get?_filter, Option.filter_eq_some_iff] at hin
        exact hin.1
      · intro path
        rw [hwritten]
        by_cases heq : path = first
        · rw [heq]
          simp [hfirst, hyes, Dict.get?_set, hget]
        · simp [heq, Dict.get?_set]

theorem targets_nodup (base : FilePath) (splitEnabled : Bool) :
    (targets base splitEnabled).Nodup := by
  unfold targets
  cases splitEnabled with
  | false => simp
  | true =>
    have hne : base.stem ++ "." ++ "train" ≠ base.stem ++ "." ++ "eval" := by
      intro heq
      rw [String.append_right_inj] at heq
      exact absurd heq (by decide)
    simp only [if_true, List.nodup_cons, List.mem_singleton, List.not_mem_nil, not_false_eq_true,
      List.nodup_nil, and_true]
    intro heq
    exact hne (congrArg FilePath.stem heq)

/-- Once every temporary file is known, the cleanup leaves none. -/
theorem cleanup_empty (h : ∀ path c, s.temporaries.get? path = some c →
    s.prepared.contains path = true) : (cleanup s).temporaries.entries = [] := by
  rw [List.eq_nil_iff_forall_not_mem]
  intro entry hentry
  obtain ⟨path, c⟩ := entry
  rw [Dict.mem_entries_iff, cleanup] at hentry
  simp only [Dict.get?_filter, Option.filter_eq_some_iff, Bool.not_eq_true'] at hentry
  rw [h path c hentry.1] at hentry
  cases hentry.2

end

theorem Kept.cleanup {destinations : FilePath → Option (List Char)} {maxBytes : Option Nat}
    {s : WriteState} (h : Kept destinations maxBytes s) :
    (Jsonl.cleanup s).temporaries.entries = [] ∧ (Jsonl.cleanup s).destinations = destinations ∧
      within maxBytes (Jsonl.cleanup s).encodedBytes = true := by
  refine ⟨cleanup_empty ?_, h.destinations, h.budget⟩
  intro path c hc
  obtain ⟨n, hn⟩ := h.known path c hc
  rw [Dict.contains, hn]
  rfl

theorem rowsAt_foreign {base : FilePath} {splitEnabled : Bool} {path : FilePath}
    (h : path ∉ targets base splitEnabled) (rows : List ExportRow) :
    rowsAt base splitEnabled path rows = [] := by
  rw [rowsAt, List.filter_eq_nil_iff]
  intro row _ heq
  rw [decide_eq_true_eq] at heq
  exact h (heq ▸ pathOf_mem base splitEnabled row)

/-- The destinations once every row is in: the lines of each side that has rows. -/
def published (base : FilePath) (splitEnabled : Bool)
    (destinations : FilePath → Option (List Char)) (rows : List ExportRow) (path : FilePath) :
    Option (List Char) :=
  if rowsAt base splitEnabled path rows = [] then destinations path
  else some (linesOf (rowsAt base splitEnabled path rows))

theorem Staged.published {base : FilePath} {splitEnabled : Bool}
    {destinations : FilePath → Option (List Char)} {maxBytes : Option Nat}
    {rows : List ExportRow} {s s' : WriteState} {result : WriteResult}
    (h : Staged base splitEnabled destinations maxBytes rows s)
    (hpublish : (targets base splitEnabled).foldl publish (s, {}) = (s', result)) :
    (Jsonl.cleanup s').temporaries.entries = [] ∧
      (Jsonl.cleanup s').destinations = JsonlWrites.published base splitEnabled destinations rows ∧
      (Jsonl.cleanup s').encodedBytes = s.encodedBytes ∧
      ∀ path, result.written.get? path = s.prepared.get? path := by
  obtain ⟨hdest, htemp, hprep, hbytes, hwritten⟩ :=
    publish_spec _ (targets_nodup base splitEnabled) s {}
  rw [hpublish] at hdest htemp hprep hbytes hwritten
  simp only at hdest htemp hprep hbytes hwritten
  have hcontains : ∀ path, s.prepared.contains path = true ↔
      rowsAt base splitEnabled path rows ≠ [] := by
    intro path
    rw [Dict.contains, h.prepared]
    split <;> simp_all
  have htarget : ∀ path, rowsAt base splitEnabled path rows ≠ [] →
      path ∈ targets base splitEnabled := by
    intro path hne
    by_contra hout
    exact hne (rowsAt_foreign hout rows)
  refine ⟨cleanup_empty ?_, ?_, hbytes, ?_⟩
  · intro path c hc
    obtain ⟨n, hn⟩ := h.kept.known path c (htemp path c hc)
    rw [hprep, Dict.contains, hn]
    rfl
  · funext path
    rw [JsonlWrites.published, Jsonl.cleanup, hdest]
    by_cases hne : rowsAt base splitEnabled path rows = []
    · have hno : ¬s.prepared.contains path = true := fun hyes => (hcontains path).mp hyes hne
      rw [if_neg (fun hboth => hno hboth.2), if_pos hne, h.destinations]
    · rw [if_pos ⟨htarget path hne, (hcontains path).mpr hne⟩, if_neg hne, h.temporaries,
        if_neg hne]
  · intro path
    rw [hwritten]
    by_cases hne : rowsAt base splitEnabled path rows = []
    · have hno : ¬s.prepared.contains path = true := fun hyes => (hcontains path).mp hyes hne
      rw [if_neg (fun hboth => hno hboth.2), h.prepared, if_pos hne]
      rfl
    · rw [if_pos ⟨htarget path hne, (hcontains path).mpr hne⟩]

/-- Each line is the one-line text of its row, one byte a character. -/
theorem lineOf_eq {body : Body} (h : (iterencode body).raised = false) :
    lineOf body = dumps (plainBody body) ++ ['\n'] ∧ Printable (dumps (plainBody body)) := by
  rw [lineOf, iterencode_text body h]
  exact ⟨rfl, dumps_printable body⟩

/-- A write succeeds exactly when the source gives every row, every row has a text and the
budget holds them all: then each side with rows is replaced by its lines in input order.
Otherwise every destination is as it was. No temporary file stays, and the budget is kept. -/
theorem write_jsonl_all_or_nothing (base : FilePath) (splitEnabled : Bool) (maxBytes : Option Nat)
    (destinations : FilePath → Option (List Char)) (rows : List ExportRow)
    (sourceRaises : Bool) :
    let outcome := Jsonl.writeJsonl base splitEnabled maxBytes destinations rows sourceRaises
    outcome.1.temporaries.entries = [] ∧ within maxBytes outcome.1.encodedBytes = true ∧
      ((∃ result, outcome.2 = .ok result) ↔ sourceRaises = false ∧
        (∀ row ∈ rows, (iterencode row.body).raised = false) ∧
        within maxBytes (linesOf rows).length = true) ∧
      (∀ e, outcome.2 = .error e → outcome.1.destinations = destinations) ∧
      ∀ result, outcome.2 = .ok result →
        outcome.1.destinations = published base splitEnabled destinations rows ∧
        outcome.1.encodedBytes = (linesOf rows).length ∧
        (∀ path, result.written.get? path =
          if rowsAt base splitEnabled path rows = [] then none
          else some (rowsAt base splitEnabled path rows).length) ∧
        ∀ row ∈ rows, lineOf row.body = dumps (plainBody row.body) ++ ['\n'] ∧
          Printable (dumps (plainBody row.body)) := by
  intro outcome
  have hstart : Staged base splitEnabled destinations maxBytes [] { destinations } := by
    constructor
    · rfl
    · intro path
      rfl
    · intro path
      rfl
    · rfl
    · cases maxBytes with
      | none => rfl
      | some k => simp [within]
  cases hrows : writeRows base splitEnabled maxBytes { destinations } rows with
  | mk s raised =>
    obtain ⟨hiff, hstaged, hkept⟩ := writeRows_spec hstart hrows
    rw [List.nil_append] at hiff hstaged
    cases raised with
    | some e =>
      have houtcome : outcome = (cleanup s, .error e) := by
        simp only [outcome, Jsonl.writeJsonl, hrows]
      obtain ⟨hnone, hdest, hbudget⟩ := (hkept (by simp)).cleanup
      rw [houtcome]
      refine ⟨hnone, hbudget, ?_, fun _ _ => hdest, fun result hok => by cases hok⟩
      constructor
      · intro hok
        obtain ⟨result, hok⟩ := hok
        cases hok
      · intro hall
        have hno := hiff.mpr hall.2
        cases hno
    | none =>
      have hs := hstaged rfl
      have hall := hiff.mp rfl
      cases hraises : sourceRaises with
      | true =>
        have houtcome : outcome = (cleanup s, .error .rowSource) := by
          simp only [outcome, Jsonl.writeJsonl, hrows, hraises, if_true]
        obtain ⟨hnone, hdest, hbudget⟩ := hs.kept.cleanup
        rw [houtcome]
        refine ⟨hnone, hbudget, ?_, fun _ _ => hdest, fun result hok => by cases hok⟩
        constructor
        · intro hok
          obtain ⟨result, hok⟩ := hok
          cases hok
        · intro hno
          cases hno.1
      | false =>
        cases hpublish : (targets base splitEnabled).foldl publish (s, {}) with
        | mk t result =>
          have houtcome : outcome = (cleanup t, .ok result) := by
            simp only [outcome, Jsonl.writeJsonl, hrows, hraises, hpublish, Bool.false_eq_true,
              if_false]
          obtain ⟨hnone, hdest, hbytes, hwritten⟩ := hs.published hpublish
          rw [houtcome]
          refine ⟨hnone, ?_, ?_, fun _ herror => (by cases herror), ?_⟩
          · rw [hbytes]
            exact hs.budget
          · exact iff_of_true ⟨result, rfl⟩ ⟨rfl, hall⟩
          · intro other hok
            cases hok
            refine ⟨hdest, ?_, ?_, fun row hrow => lineOf_eq (hall.1 row hrow)⟩
            · rw [hbytes, hs.bytes]
            · intro path
              rw [hwritten, hs.prepared]

end Sediment.Proofs.JsonlWrites

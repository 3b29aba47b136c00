import Mathlib
import Sediment.Base.JsonScan

namespace Sediment.Base.JsonScan

inductive LoadsError where
  | valueError | recursionError
  deriving DecidableEq, Repr

abbrev Loads (α : Type) := Except LoadsError α

/-- What does not scan is refused with a `ValueError`. -/
def orValueError {α : Type} : Option α → Loads α
  | some a => .ok a
  | none => .error .valueError

section
variable (value : List Char → Loads (JsonValue × List Char))

def loadItems : Nat → List Char → Loads (List JsonValue × List Char)
  | 0, _ => .error .valueError
  | n + 1, s => do
    let (v, rest) ← value s
    match skipBlanks rest with
    | ']' :: rest => .ok ([v], rest)
    | ',' :: rest => do
      let (vs, rest) ← loadItems n (skipBlanks rest)
      .ok (v :: vs, rest)
    | _ => .error .valueError

def loadFields : Nat → List Char → Loads (List (Text × JsonValue) × List Char)
  | n + 1, '"' :: s => do
    let (key, rest) ← orValueError (scanString s)
    match skipBlanks rest with
    | ':' :: rest => do
      let (v, rest) ← value (skipBlanks rest)
      match skipBlanks rest with
      | '}' :: rest => .ok ([(key, v)], rest)
      | ',' :: rest => do
        let (fields, rest) ← loadFields n (skipBlanks rest)
        .ok ((key, v) :: fields, rest)
      | _ => .error .valueError
    | _ => .error .valueError
  | _, _ => .error .valueError

def loadObject (s : List Char) : Loads (JsonValue × List Char) :=
  match skipBlanks s with
  | '}' :: rest => .ok (.obj [], rest)
  | s => (loadFields value (s.length + 1) s).map (fun (fields, rest) => (.obj (fieldsOf fields), rest))

def loadArray (s : List Char) : Loads (JsonValue × List Char) :=
  match skipBlanks s with
  | ']' :: rest => .ok (.arr [], rest)
  | s => (loadItems value (s.length + 1) s).map (fun (items, rest) => (.arr items, rest))

end

/-- One value; a container inside `depth` others exceeds the interpreter's recursion limit. -/
def loadOnce (depth : Nat) (s : List Char) : Loads (JsonValue × List Char) :=
  match depth, s with
  | 0, '{' :: _ => .error .recursionError
  | 0, '[' :: _ => .error .recursionError
  | d + 1, '{' :: rest => loadObject (loadOnce d) rest
  | d + 1, '[' :: rest => loadArray (loadOnce d) rest
  | _, s => orValueError (scanScalar s)
termination_by structural depth

/-- `json.loads`: one value, with nothing but blanks around it. -/
def loads (limit : Nat) (s : List Char) : Loads JsonValue := do
  if s.head? = some '\uFEFF' then throw .valueError
  let (v, rest) ← loadOnce limit (skipBlanks s)
  if skipBlanks rest = [] then pure v else throw .valueError

theorem orValueError_toOption {α : Type} (o : Option α) : (orValueError o).toOption = o := by
  cases o <;> rfl

theorem toOption_bind {α β : Type} (x : Loads α) (f : α → Loads β) :
    (x >>= f).toOption = x.toOption.bind (fun a => (f a).toOption) := by
  cases x <;> rfl

theorem toOption_map {α β : Type} (x : Loads α) (f : α → β) :
    (x.map f).toOption = x.toOption.map f := by
  cases x <;> rfl

section
variable (value : List Char → Loads (JsonValue × List Char))

theorem loadItems_toOption (n : Nat) (s : List Char) :
    (loadItems value n s).toOption = arrayItems (fun s => (value s).toOption) n s := by
  induction n generalizing s with
  | zero => rfl
  | succ n ih =>
    simp only [loadItems, arrayItems, toOption_bind]
    congr 1
    funext p
    obtain ⟨v, rest⟩ := p
    simp only
    rcases skipBlanks rest with _ | ⟨c, t⟩
    · rfl
    · by_cases hk : c = ']'
      · subst hk
        rfl
      · by_cases hc : c = ','
        · subst hc
          simp only [toOption_bind, ih]
          rfl
        · simp [hk, hc, Except.toOption]

theorem loadFields_toOption (n : Nat) (s : List Char) :
    (loadFields value n s).toOption = objectItems (fun s => (value s).toOption) n s := by
  induction n generalizing s with
  | zero => rfl
  | succ n ih =>
    cases s with
    | nil => rfl
    | cons c s =>
      by_cases hc : c = '"'
      · subst hc
        simp only [loadFields, objectItems, toOption_bind, orValueError_toOption]
        congr 1
        funext p
        obtain ⟨key, rest⟩ := p
        simp only
        rcases skipBlanks rest with _ | ⟨d, t⟩
        · rfl
        · by_cases hd : d = ':'
          · subst hd
            simp only [toOption_bind]
            congr 1
            funext q
            obtain ⟨v, rest⟩ := q
            simp only
            rcases skipBlanks rest with _ | ⟨e, u⟩
            · rfl
            · by_cases hb : e = '}'
              · subst hb
                rfl
              · by_cases he : e = ','
                · subst he
                  simp only [toOption_bind, ih]
                  rfl
                · simp [hb, he, Except.toOption]
          · simp [hd, Except.toOption]
      · simp [loadFields, objectItems, hc, Except.toOption]

theorem loadObject_toOption (s : List Char) :
    (loadObject value s).toOption = scanObject (fun s => (value s).toOption) s := by
  unfold loadObject scanObject
  rcases skipBlanks s with _ | ⟨c, t⟩
  · simp only [toOption_map, loadFields_toOption]
  · by_cases hc : c = '}'
    · subst hc
      rfl
    · simp [hc, toOption_map, loadFields_toOption]

theorem loadArray_toOption (s : List Char) :
    (loadArray value s).toOption = scanArray (fun s => (value s).toOption) s := by
  unfold loadArray scanArray
  rcases skipBlanks s with _ | ⟨c, t⟩
  · simp only [toOption_map, loadItems_toOption]
  · by_cases hc : c = ']'
    · subst hc
      rfl
    · simp [hc, toOption_map, loadItems_toOption]

end

/-- `loads` reads values as `raw_decode` does. -/
theorem loadOnce_toOption (depth : Nat) (s : List Char) :
    (loadOnce depth s).toOption = scanOnce depth s := by
  induction depth generalizing s with
  | zero =>
    rcases s with _ | ⟨c, s⟩
    · exact orValueError_toOption _
    · by_cases hb : c = '{'
      · subst hb
        rfl
      · by_cases hk : c = '['
        · subst hk
          rfl
        · simp [loadOnce, scanOnce, hb, hk, orValueError_toOption]
  | succ d ih =>
    have hfun : (fun s => (loadOnce d s).toOption) = scanOnce d := funext ih
    rcases s with _ | ⟨c, s⟩
    · exact orValueError_toOption _
    · by_cases hb : c = '{'
      · subst hb
        rw [loadOnce, scanOnce, loadObject_toOption, hfun]
      · by_cases hk : c = '['
        · subst hk
          rw [loadOnce, scanOnce, loadArray_toOption, hfun]
        · simp [loadOnce, scanOnce, hb, hk, orValueError_toOption]

end Sediment.Base.JsonScan

import Sediment.Base.Json
import Sediment.Base.Dict

namespace Sediment.Base.JsonScan

abbrev Text := List Nat

def codePoints (s : String) : Text := s.toList.map Char.toNat

theorem toNat_injective : Function.Injective Char.toNat := fun _ _ => Char.toNat_inj.mp

theorem codePoints_injective : Function.Injective codePoints := by
  intro s t h
  exact String.toList_injective (List.map_injective_iff.mpr toNat_injective h)

abbrev JsonValue := Json Text (List Char)

def strField (fields : List (Text × JsonValue)) (name : String) : Option Text :=
  Json.strField fields (codePoints name)

def isBlank (c : Char) : Bool := c == ' ' || c == '\t' || c == '\n' || c == '\r'

def skipBlanks (s : List Char) : List Char := s.dropWhile isBlank

def hexValue (c : Char) : Option Nat :=
  if c.isDigit then some (c.toNat - 48)
  else if 'a' ≤ c ∧ c ≤ 'f' then some (c.toNat - 87)
  else if 'A' ≤ c ∧ c ≤ 'F' then some (c.toNat - 55)
  else none

def hexUnit (a b c d : Char) : Option Nat := do
  let a ← hexValue a
  let b ← hexValue b
  let c ← hexValue c
  let d ← hexValue d
  some (((a * 16 + b) * 16 + c) * 16 + d)

def escaped : Char → Option Nat
  | '"' => some 34
  | '\\' => some 92
  | '/' => some 47
  | 'b' => some 8
  | 'f' => some 12
  | 'n' => some 10
  | 'r' => some 13
  | 't' => some 9
  | _ => none

/-- The units of a string up to its closing quote. Control characters are refused. -/
def scanUnits : List Char → Option (List Nat × List Char)
  | [] => none
  | '"' :: rest => some ([], rest)
  | '\\' :: 'u' :: a :: b :: c :: d :: rest => do
    let unit ← hexUnit a b c d
    let (units, rest) ← scanUnits rest
    some (unit :: units, rest)
  | '\\' :: c :: rest => do
    let unit ← escaped c
    let (units, rest) ← scanUnits rest
    some (unit :: units, rest)
  | c :: rest =>
    if c.toNat < 32 ∨ c = '\\' then none
    else do
      let (units, rest) ← scanUnits rest
      some (c.toNat :: units, rest)

/-- A high surrogate directly before a low one spells one code point. The text
itself holds no surrogates, so both come from escapes. -/
def joinSurrogates : List Nat → Text
  | high :: low :: rest =>
    if 55296 ≤ high ∧ high < 56320 ∧ 56320 ≤ low ∧ low < 57344 then
      (65536 + (high - 55296) * 1024 + (low - 56320)) :: joinSurrogates rest
    else high :: joinSurrogates (low :: rest)
  | units => units

def scanString (s : List Char) : Option (Text × List Char) :=
  (scanUnits s).map (fun (units, rest) => (joinSurrogates units, rest))

def digitsOf (s : List Char) : List Char × List Char :=
  (s.takeWhile Char.isDigit, s.dropWhile Char.isDigit)

def intPart : List Char → Option (List Char × List Char)
  | '0' :: rest => some (['0'], rest)
  | c :: rest => if c.isDigit then some (digitsOf (c :: rest)) else none
  | [] => none

/-- A point counts only with a digit after it. -/
def fraction : List Char → List Char × List Char
  | '.' :: d :: rest =>
    if d.isDigit then ('.' :: (digitsOf (d :: rest)).1, (digitsOf (d :: rest)).2)
    else ([], '.' :: d :: rest)
  | s => ([], s)

def exponentSign : List Char → List Char × List Char
  | '+' :: rest => (['+'], rest)
  | '-' :: rest => (['-'], rest)
  | s => ([], s)

/-- An exponent mark counts only with digits after it. -/
def exponent : List Char → List Char × List Char
  | e :: rest =>
    if e = 'e' ∨ e = 'E' then
      let (sign, s) := exponentSign rest
      let (digits, s) := digitsOf s
      if digits = [] then ([], e :: rest) else (e :: sign ++ digits, s)
    else ([], e :: rest)
  | [] => ([], [])

def decimal (digits : List Char) : Nat :=
  digits.foldl (fun n c => n * 10 + (c.toNat - 48)) 0

/-- The longest integer literal the interpreter converts. -/
def intMaxStrDigits : Nat := 4300

def numberSign : List Char → Bool × List Char
  | '-' :: rest => (true, rest)
  | s => (false, s)

def scanNumber (s : List Char) : Option (JsonValue × List Char) :=
  let (negative, s) := numberSign s
  match intPart s with
  | none => none
  | some (digits, s) =>
    let (frac, s) := fraction s
    let (exp, s) := exponent s
    if frac = [] ∧ exp = [] then
      if intMaxStrDigits < digits.length then none
      else some (.int (if negative then -(decimal digits : Int) else decimal digits), s)
    else some (.float ((if negative then ['-'] else []) ++ digits ++ frac ++ exp), s)

section
variable (value : List Char → Option (JsonValue × List Char))

/-- The items of an array after its bracket, each read by `value`. -/
def arrayItems : Nat → List Char → Option (List JsonValue × List Char)
  | 0, _ => none
  | n + 1, s => do
    let (v, rest) ← value s
    match skipBlanks rest with
    | ']' :: rest => some ([v], rest)
    | ',' :: rest => do
      let (vs, rest) ← arrayItems n (skipBlanks rest)
      some (v :: vs, rest)
    | _ => none

def objectItems : Nat → List Char → Option (List (Text × JsonValue) × List Char)
  | n + 1, '"' :: s => do
    let (key, rest) ← scanString s
    match skipBlanks rest with
    | ':' :: rest => do
      let (v, rest) ← value (skipBlanks rest)
      match skipBlanks rest with
      | '}' :: rest => some ([(key, v)], rest)
      | ',' :: rest => do
        let (fields, rest) ← objectItems n (skipBlanks rest)
        some ((key, v) :: fields, rest)
      | _ => none
    | _ => none
  | _, _ => none

end

/-- The last value of a repeated key stays, in the place of the first. -/
def fieldsOf (pairs : List (Text × JsonValue)) : List (Text × JsonValue) :=
  (pairs.foldl (fun d p => Dict.set d p.1 p.2) Dict.empty).entries

/-- Values without parts, and numbers. -/
def scanScalar (s : List Char) : Option (JsonValue × List Char) :=
  match s with
  | '"' :: rest => (scanString rest).map (fun (text, rest) => (.str text, rest))
  | 'n' :: 'u' :: 'l' :: 'l' :: rest => some (.null, rest)
  | 't' :: 'r' :: 'u' :: 'e' :: rest => some (.bool true, rest)
  | 'f' :: 'a' :: 'l' :: 's' :: 'e' :: rest => some (.bool false, rest)
  | 'N' :: 'a' :: 'N' :: rest => some (.float "NaN".toList, rest)
  | 'I' :: 'n' :: 'f' :: 'i' :: 'n' :: 'i' :: 't' :: 'y' :: rest =>
    some (.float "Infinity".toList, rest)
  | '-' :: 'I' :: 'n' :: 'f' :: 'i' :: 'n' :: 'i' :: 't' :: 'y' :: rest =>
    some (.float "-Infinity".toList, rest)
  | s => scanNumber s

def scanObject (value : List Char → Option (JsonValue × List Char)) (s : List Char) :
    Option (JsonValue × List Char) :=
  match skipBlanks s with
  | '}' :: rest => some (.obj [], rest)
  | s => (objectItems value (s.length + 1) s).map (fun (fields, rest) =>
      (.obj (fieldsOf fields), rest))

def scanArray (value : List Char → Option (JsonValue × List Char)) (s : List Char) :
    Option (JsonValue × List Char) :=
  match skipBlanks s with
  | ']' :: rest => some (.arr [], rest)
  | s => (arrayItems value (s.length + 1) s).map (fun (items, rest) => (.arr items, rest))

/-- One value, with at most `depth` containers inside each other. -/
def scanOnce (depth : Nat) (s : List Char) : Option (JsonValue × List Char) :=
  match depth, s with
  | 0, '{' :: _ => none
  | 0, '[' :: _ => none
  | d + 1, '{' :: rest => scanObject (scanOnce d) rest
  | d + 1, '[' :: rest => scanArray (scanOnce d) rest
  | _, s => scanScalar s
termination_by structural depth

end Sediment.Base.JsonScan

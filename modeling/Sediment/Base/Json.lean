import Sediment.Base.Ordering

namespace Sediment.Base

inductive Json (σ φ : Type) where
  | null
  | bool (b : Bool)
  | int (n : Int)
  | float (x : φ)
  | str (s : σ)
  | arr (items : List (Json σ φ))
  | obj (fields : List (σ × Json σ φ))

namespace Json
variable {σ φ : Type}

section
variable (p : φ → Bool)

/-- Every float of the value passes the test. -/
def allFloats : Json σ φ → Bool
  | .float x => p x
  | .arr items => itemsFloats items
  | .obj fields => fieldsFloats fields
  | _ => true
where
  itemsFloats : List (Json σ φ) → Bool
    | [] => true
    | item :: rest => allFloats item && itemsFloats rest
  fieldsFloats : List (σ × Json σ φ) → Bool
    | [] => true
    | (_, value) :: rest => allFloats value && fieldsFloats rest

theorem fieldsFloats_append (xs ys : List (σ × Json σ φ)) :
    allFloats.fieldsFloats p (xs ++ ys) =
      (allFloats.fieldsFloats p xs && allFloats.fieldsFloats p ys) := by
  induction xs with
  | nil => simp [allFloats.fieldsFloats]
  | cons x xs ih => simp [allFloats.fieldsFloats, ih, Bool.and_assoc]

theorem itemsFloats_iff (items : List (Json σ φ)) :
    allFloats.itemsFloats p items = true ↔ ∀ item ∈ items, allFloats p item = true := by
  induction items with
  | nil => simp [allFloats.itemsFloats]
  | cons item items ih => simp [allFloats.itemsFloats, ih]

end

section
variable [DecidableEq σ] [DecidableEq φ]

/-- Equality of two values, decided from the leaves up. -/
def same : Json σ φ → Json σ φ → Bool
  | .null, .null => true
  | .bool a, .bool b => a == b
  | .int m, .int n => m == n
  | .float x, .float y => x == y
  | .str s, .str t => s == t
  | .arr xs, .arr ys => sameItems xs ys
  | .obj xs, .obj ys => sameFields xs ys
  | _, _ => false
where
  sameItems : List (Json σ φ) → List (Json σ φ) → Bool
    | [], [] => true
    | x :: xs, y :: ys => same x y && sameItems xs ys
    | _, _ => false
  sameFields : List (σ × Json σ φ) → List (σ × Json σ φ) → Bool
    | [], [] => true
    | (k, x) :: xs, (l, y) :: ys => k == l && same x y && sameFields xs ys
    | _, _ => false

mutual
theorem same_iff (a b : Json σ φ) : same a b = true ↔ a = b := by
  match a, b with
  | .null, b => cases b <;> simp [same]
  | .bool _, b => cases b <;> simp [same]
  | .int _, b => cases b <;> simp [same]
  | .float _, b => cases b <;> simp [same]
  | .str _, b => cases b <;> simp [same]
  | .arr xs, b =>
    cases b <;> simp only [same, reduceCtorEq, Bool.false_eq_true, arr.injEq]
    exact sameItems_iff xs _
  | .obj xs, b =>
    cases b <;> simp only [same, reduceCtorEq, Bool.false_eq_true, obj.injEq]
    exact sameFields_iff xs _

theorem sameItems_iff (xs ys : List (Json σ φ)) : same.sameItems xs ys = true ↔ xs = ys := by
  match xs, ys with
  | [], ys => cases ys <;> simp [same.sameItems]
  | x :: xs, [] => simp [same.sameItems]
  | x :: xs, y :: ys =>
    rw [same.sameItems, Bool.and_eq_true, same_iff x y, sameItems_iff xs ys, List.cons.injEq]

theorem sameFields_iff (xs ys : List (σ × Json σ φ)) :
    same.sameFields xs ys = true ↔ xs = ys := by
  match xs, ys with
  | [], ys => cases ys <;> simp [same.sameFields]
  | x :: xs, [] => simp [same.sameFields]
  | (k, x) :: xs, (l, y) :: ys =>
    rw [same.sameFields, Bool.and_eq_true, Bool.and_eq_true, same_iff x y, sameFields_iff xs ys,
      List.cons.injEq, Prod.mk.injEq, beq_iff_eq]
end

instance : DecidableEq (Json σ φ) := fun a b => decidable_of_iff _ (same_iff a b)
end

def asStr : Json σ φ → Option σ
  | .str s => some s
  | _ => none

/-- The text under a key of an object, where a text stands there. -/
def strField [BEq σ] (fields : List (σ × Json σ φ)) (key : σ) : Option σ :=
  (fields.lookup key).bind asStr

theorem strField_eq_some [BEq σ] {fields : List (σ × Json σ φ)} {key text : σ} :
    strField fields key = some text ↔ fields.lookup key = some (.str text) := by
  unfold strField
  rw [Option.bind_eq_some_iff]
  constructor
  · intro h
    obtain ⟨value, hvalue, htext⟩ := h
    cases value with
    | str s => rw [hvalue, Option.some.inj htext]
    | null | bool | int | float | arr | obj => cases htext
  · exact fun h => ⟨_, h, rfl⟩

/-- How many lists and objects stand inside each other. -/
def nesting : Json σ φ → Nat
  | .arr items => nestingItems items + 1
  | .obj fields => nestingFields fields + 1
  | _ => 0
where
  nestingItems : List (Json σ φ) → Nat
    | [] => 0
    | item :: rest => max (nesting item) (nestingItems rest)
  nestingFields : List (σ × Json σ φ) → Nat
    | [] => 0
    | (_, value) :: rest => max (nesting value) (nestingFields rest)

/-- How a writer spells the leaves, and whether it sorts the keys of an object. -/
structure Writer (σ φ : Type) where
  str : σ → List Char
  float : φ → List Char
  arrange : List (σ × List Char) → List (σ × List Char)

/-- Compact text: no blanks around the separators. -/
def write (w : Writer σ φ) : Json σ φ → List Char
  | .null => "null".toList
  | .bool true => "true".toList
  | .bool false => "false".toList
  | .int n => (toString n).toList
  | .float x => w.float x
  | .str s => w.str s
  | .arr items => '[' :: ((writeItems items).intersperse [',']).flatten ++ [']']
  | .obj fields =>
    '{' :: (((w.arrange (writeFields fields)).map (fun (key, value) =>
      w.str key ++ ':' :: value)).intersperse [',']).flatten ++ ['}']
where
  writeItems : List (Json σ φ) → List (List Char)
    | [] => []
    | item :: rest => write w item :: writeItems rest
  writeFields : List (σ × Json σ φ) → List (σ × List Char)
    | [] => []
    | (key, value) :: rest => (key, write w value) :: writeFields rest

/-- The same value with other strings and floats. -/
def map {τ ψ : Type} (f : σ → τ) (g : φ → ψ) : Json σ φ → Json τ ψ
  | .null => .null
  | .bool b => .bool b
  | .int n => .int n
  | .float x => .float (g x)
  | .str s => .str (f s)
  | .arr items => .arr (mapItems items)
  | .obj fields => .obj (mapFields fields)
where
  mapItems : List (Json σ φ) → List (Json τ ψ)
    | [] => []
    | item :: rest => map f g item :: mapItems rest
  mapFields : List (σ × Json σ φ) → List (τ × Json τ ψ)
    | [] => []
    | (key, value) :: rest => (f key, map f g value) :: mapFields rest

end Json

def hexDigit (n : Nat) : Char := "0123456789abcdef".toList.getD n '0'

def unicodeEscape (n : Nat) : List Char :=
  ['\\', 'u', hexDigit (n / 4096 % 16), hexDigit (n / 256 % 16), hexDigit (n / 16 % 16),
    hexDigit (n % 16)]

/-- One character inside a string of ASCII JSON. -/
def escapeChar (c : Char) : List Char :=
  match c with
  | '"' => ['\\', '"']
  | '\\' => ['\\', '\\']
  | '\n' => ['\\', 'n']
  | '\r' => ['\\', 'r']
  | '\t' => ['\\', 't']
  | '\x0c' => ['\\', 'f']
  | '\x08' => ['\\', 'b']
  | c =>
    let n := c.toNat
    if 32 ≤ n ∧ n ≤ 126 then [c]
    else if n < 65536 then unicodeEscape n
    else
      -- A surrogate pair.
      unicodeEscape (55296 + (n - 65536) / 1024) ++ unicodeEscape (56320 + (n - 65536) % 1024)

def quoteAscii (s : String) : List Char := '"' :: s.toList.flatMap escapeChar ++ ['"']

end Sediment.Base

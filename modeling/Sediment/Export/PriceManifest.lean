import Sediment.Base.DecimalNumbers
import Sediment.Base.Dict
import Sediment.Base.HalfOpen
import Sediment.Base.JsonSorted
import Sediment.Base.Validation
import Sediment.Core.Datetime

namespace Sediment.Export.PriceManifest
open Base Decimals JsonScan DecimalNumbers Sediment.Core

/-- A `datetime` in UTC. -/
abbrev Instant := {t : Int // wallMin ≤ t ∧ t ≤ wallMax}

/-- What the models take from pydantic: its reader of JSON, `Literal[1]`, `strip_whitespace`,
and how it reads and writes an aware `datetime`. -/
class Pydantic where
  readJson : Text → Option (JsonValue)
  isOne : JsonValue → Bool
  strip : Text → Text
  readTime : Text → Option Datetime
  writeTime : Instant → Text
  digits : DigitTable
  isOne_one : isOne (.int 1) = true
  strip_strip : ∀ t, strip (strip t) = strip t
  readTime_nil : readTime [] = none
  readTime_writeTime : ∀ t, ∃ d, readTime (writeTime t) = some d ∧ d.instant = t.val

inductive Loc where
  | field (name : Text)
  | index (i : Nat)
  deriving DecidableEq

/-- An error of pydantic's own, or one that a validator raised. -/
inductive Problem where
  | native
  | valueError (message : Text)
  deriving DecidableEq

structure LineError where
  loc : List Loc
  problem : Problem
  deriving DecidableEq

def LineError.under (place : Loc) (e : LineError) : LineError := { e with loc := place :: e.loc }

/-- What a validator lets through, because it is no `ValueError`. -/
inductive Uncaught where
  | overflowError
  | decimalOverflow
  deriving DecidableEq

abbrev Validated := Validation LineError Uncaught

def refuse {α : Type} (problem : Problem) : Validated α := .invalid [⟨[], problem⟩]

/-- `format(value, "f")` of a normalized value can be validated again. -/
abbrev Price :=
  {d : Decimal // (d.coefficient ≠ 0 ∨ d = ⟨0, 0⟩) ∧ Representable defaultContext d.value}

theorem zero_price : ((⟨0, 0⟩ : Decimal).coefficient ≠ 0 ∨ (⟨0, 0⟩ : Decimal) = ⟨0, 0⟩) ∧
    Representable defaultContext (⟨0, 0⟩ : Decimal).value :=
  ⟨Or.inr rfl, 0, 0, by simp [Decimal.value], by decide, by decide, by decide⟩

abbrev CurrencyCode := {t : Text // t.length = 3 ∧ ∀ c ∈ t, 65 ≤ c ∧ c ≤ 90}

def digitParts (table : DigitTable) (whole : List Char) : Bool :=
  whole == ['0'] || match whole with
    | c :: rest => decide ('1' ≤ c) && decide (c ≤ '9') && rest.all table.isDigit
    | [] => false

/-- `re.fullmatch(PRICE_DECIMAL_PATTERN, value)`, as what stands before and behind the point. -/
def pricePattern (table : DigitTable) (value : List Char) : Option (List Char × List Char) :=
  let whole := value.takeWhile (· ≠ '.')
  let negative := whole == ['-', '0']
  match value.dropWhile (· ≠ '.') with
  | [] => if negative || digitParts table whole then some (whole, []) else none
  | _ :: fraction =>
    if fraction.isEmpty then none
    else if negative && fraction.all (· = '0') then some (whole, fraction)
    else if digitParts table whole && fraction.all table.isDigit then some (whole, fraction)
    else none

section
variable [Pydantic]

abbrev NonEmptyText := {t : Text // Pydantic.strip t = t ∧ t ≠ []}

def nonEmptyText : JsonValue → Validated NonEmptyText
  | .str t =>
    if h : Pydantic.strip t = [] then refuse .native
    else .ok ⟨Pydantic.strip t, Pydantic.strip_strip t, h⟩
  | _ => refuse .native

def currencyCode : JsonValue → Validated CurrencyCode
  | .str t =>
    if h : t.length = 3 ∧ ∀ c ∈ t, 65 ≤ c ∧ c ≤ 90 then .ok ⟨t, h⟩ else refuse .native
  | _ => refuse .native

def validatePriceInput : JsonValue → Validated Decimal
  | .str t =>
    match pricePattern Pydantic.digits (t.map Char.ofNat) with
    | some (whole, fraction) => .ok (ofParts Pydantic.digits whole fraction)
    | none => refuse (.valueError (codePoints "prices must be nonnegative plain decimal strings"))
  | _ => refuse (.valueError (codePoints "prices must use decimal strings"))

def normalizePrice (value : Decimal) : Validated Price :=
  if hzero : value.coefficient = 0 then .ok ⟨⟨0, 0⟩, zero_price⟩
  else match h : normalize defaultContext value with
    | none => .raised .decimalOverflow
    | some out => .ok ⟨out, normalize_form h, (normalize_value_iff hzero h).2⟩

def price (v : JsonValue) : Validated Price := (validatePriceInput v).bind normalizePrice

def validateTimeInput : JsonValue → Validated (Option Datetime)
  | .null => .ok none
  | .str t =>
    match Pydantic.readTime t with
    | some d => .ok (some d)
    | none => refuse .native
  | _ => refuse (.valueError (codePoints "time bounds must use RFC 3339 strings"))

def normalizeTime : Option Datetime → Validated (Option Instant)
  | none => .ok none
  | some d =>
    match d.astimezone with
    | some utc => .ok (some ⟨utc.wall, utc.in_range⟩)
    | none => .raised .overflowError

def timeBound (v : JsonValue) : Validated (Option Instant) :=
  (validateTimeInput v).bind normalizeTime

variable {α : Type}

/-- The last of the fields with one name. -/
def lookup (name : String) (fields : List (Text × JsonValue)) : Option (JsonValue) :=
  fields.reverse.lookup (codePoints name)

def field (name : String) (check : JsonValue → Validated α) (fields : List (Text × JsonValue)) :
    Validated α :=
  (match lookup name fields with
    | some v => check v
    | none => refuse .native).mapErrors (LineError.under (.field (codePoints name)))

/-- `extra="forbid"`. -/
def forbidExtra (names : List String) (fields : List (Text × JsonValue)) : Validated Unit :=
  match fields.filter (fun p => !(names.map codePoints).contains p.1) with
  | [] => .ok ()
  | extra => .invalid (extra.map fun p => ⟨[.field p.1], .native⟩)

structure PriceFields where
  modelProvider : NonEmptyText
  model : NonEmptyText
  currency : CurrencyCode
  effectiveFrom : Option Instant
  effectiveUntil : Option Instant
  inputPerMillionTokens : Price
  outputPerMillionTokens : Price

/-- One model price over a half-open applicability interval. -/
structure ModelPrice extends PriceFields where
  interval : ∀ a ∈ effectiveFrom, ∀ b ∈ effectiveUntil, a.val < b.val

def validateInterval (p : PriceFields) : Validated ModelPrice :=
  if h : ∀ a ∈ p.effectiveFrom, ∀ b ∈ p.effectiveUntil, a.val < b.val then .ok ⟨p, h⟩
  else refuse (.valueError (codePoints "effective_until must be later than effective_from"))

def priceNames : List String :=
  ["model_provider", "model", "currency", "effective_from", "effective_until",
    "input_per_million_tokens", "output_per_million_tokens"]

def priceFields (fields : List (Text × JsonValue)) : Validated PriceFields :=
  (Validation.ok fun provider model currency start stop input output (_ : Unit) =>
      PriceFields.mk provider model currency start stop input output)
    |>.seq (field "model_provider" nonEmptyText fields)
    |>.seq (field "model" nonEmptyText fields)
    |>.seq (field "currency" currencyCode fields)
    |>.seq (field "effective_from" timeBound fields)
    |>.seq (field "effective_until" timeBound fields)
    |>.seq (field "input_per_million_tokens" price fields)
    |>.seq (field "output_per_million_tokens" price fields)
    |>.seq (forbidExtra priceNames fields)

def modelPrice : JsonValue → Validated ModelPrice
  | .obj fields => (priceFields fields).bind validateInterval
  | _ => refuse .native

abbrev PriceKey := Text × Text × Text

def ModelPrice.key (p : ModelPrice) : PriceKey := (p.modelProvider, p.model, p.currency)

/-- `(effective_from is not None, effective_from)`, which puts an absent bound first. -/
def ModelPrice.startKey (p : ModelPrice) : WithBot Int :=
  p.effectiveFrom.elim ⊥ fun start => WithBot.some start.val

def reaches (previous current : ModelPrice) : Bool :=
  match previous.effectiveUntil, current.effectiveFrom with
  | some stop, some start => decide (start.val < stop.val)
  | _, _ => true

def reachesNext (previous : ModelPrice) : List ModelPrice → Bool
  | [] => false
  | current :: rest => reaches previous current || reachesNext current rest

def overlap (prices : List ModelPrice) : Bool :=
  match sortedBy ModelPrice.startKey prices with
  | [] => false
  | previous :: rest => reachesNext previous rest

def grouped (prices : List ModelPrice) : Dict PriceKey (List ModelPrice) :=
  Dict.empty.gather (prices.map fun p => (p.key, p))

/-- The first group with intervals that overlap. -/
def overlapping (prices : List ModelPrice) : Option PriceKey :=
  ((grouped prices).entries.find? fun e => overlap e.2).map Prod.fst

/-- One immutable external price policy. -/
structure Manifest where
  manifestId : NonEmptyText
  prices : List ModelPrice
  nonempty : prices ≠ []
  apart : overlapping prices = none

abbrev PriceList := {prices : List ModelPrice // prices ≠ []}

def overlapMessage (key : PriceKey) : Text :=
  codePoints "price intervals overlap for " ++ key.1 ++ 47 :: key.2.1 ++ 47 :: key.2.2

def rejectOverlappingPrices (manifest : NonEmptyText × PriceList) : Validated Manifest :=
  match h : overlapping manifest.2.val with
  | none => .ok ⟨manifest.1, manifest.2.val, manifest.2.property, h⟩
  | some key => refuse (.valueError (overlapMessage key))

def version (v : JsonValue) : Validated Unit :=
  if Pydantic.isOne v then .ok () else refuse .native

def priceList : JsonValue → Validated PriceList
  | .arr items =>
    (Validation.each modelPrice (fun i => LineError.under (.index i)) 0 items).bind fun prices =>
      if h : prices = [] then refuse .native else .ok ⟨prices, h⟩
  | _ => refuse .native

def manifestFields (fields : List (Text × JsonValue)) :
    Validated (NonEmptyText × PriceList) :=
  (Validation.ok fun (_ : Unit) manifestId prices (_ : Unit) => (manifestId, prices))
    |>.seq (field "version" version fields)
    |>.seq (field "manifest_id" nonEmptyText fields)
    |>.seq (field "prices" priceList fields)
    |>.seq (forbidExtra ["version", "manifest_id", "prices"] fields)

def modelValidate : JsonValue → Validated Manifest
  | .obj fields => (manifestFields fields).bind rejectOverlappingPrices
  | _ => refuse .native

def modelValidateJson (text : Text) : Validated Manifest :=
  match Pydantic.readJson text with
  | some v => modelValidate v
  | none => refuse .native

/-- `price.model_dump(mode="json")`. -/
structure Dump where
  modelProvider : Text
  model : Text
  currency : Text
  effectiveFrom : Option Text
  effectiveUntil : Option Text
  inputPerMillionTokens : Text
  outputPerMillionTokens : Text

def serializePrice (p : Price) : Text := (fixedText p.val).map Char.toNat

def ModelPrice.dump (p : ModelPrice) : Dump where
  modelProvider := p.modelProvider
  model := p.model
  currency := p.currency
  effectiveFrom := p.effectiveFrom.map Pydantic.writeTime
  effectiveUntil := p.effectiveUntil.map Pydantic.writeTime
  inputPerMillionTokens := serializePrice p.inputPerMillionTokens
  outputPerMillionTokens := serializePrice p.outputPerMillionTokens

def Dump.sortKey (d : Dump) : List Text :=
  [d.modelProvider, d.model, d.currency, d.effectiveFrom.getD [], d.effectiveUntil.getD [],
    d.inputPerMillionTokens, d.outputPerMillionTokens]

def optionalText (t : Option Text) : JsonValue := t.elim .null .str

def Dump.json (d : Dump) : JsonValue :=
  .obj [(codePoints "model_provider", .str d.modelProvider), (codePoints "model", .str d.model),
    (codePoints "currency", .str d.currency),
    (codePoints "effective_from", optionalText d.effectiveFrom),
    (codePoints "effective_until", optionalText d.effectiveUntil),
    (codePoints "input_per_million_tokens", .str d.inputPerMillionTokens),
    (codePoints "output_per_million_tokens", .str d.outputPerMillionTokens)]

def Manifest.document (m : Manifest) : JsonValue :=
  .obj [(codePoints "manifest_id", .str m.manifestId),
    (codePoints "prices",
      .arr ((sortedBy Dump.sortKey (m.prices.map ModelPrice.dump)).map Dump.json)),
    (codePoints "version", .int 1)]

def Manifest.canonicalJson (m : Manifest) : Text :=
  canonical (codePoints ",") (codePoints ":") (List.map Char.toNat) m.document

end

end Sediment.Export.PriceManifest

import Sediment.Base.Calendar
import Sediment.Core.Datetime

namespace Sediment.Core
open Sediment.Base.Calendar

/-- Hours and minutes; seconds and their fraction where there are any, and whole
seconds always where `full` asks for them. -/
def clock (full : Bool) (micros : Nat) : List Char :=
  pad 2 (micros / 3600000000) ++ (':' :: (pad 2 (micros / 60000000 % 60) ++
    if full = false ∧ micros % 60000000 = 0 then []
    else ':' :: (pad 2 (micros / 1000000 % 60) ++
      if micros % 1000000 = 0 then [] else '.' :: pad 6 (micros % 1000000))))

/-- `d.isoformat()`. -/
def Datetime.isoformat (d : Datetime) : List Char :=
  let n := (d.wall - wallMin).toNat
  let date := dateOf (n / 86400000000)
  pad 4 date.year ++ ('-' :: (pad 2 date.month ++ ('-' :: (pad 2 date.day ++ ('T' ::
    (clock true (n % 86400000000) ++
      ((if d.offset < 0 then '-' else '+') :: clock false d.offset.natAbs)))))))

def readLiteral (c : Char) : List Char → Option (List Char)
  | d :: rest => if d = c then some rest else none
  | [] => none

def readFraction : List Char → Option (Nat × List Char)
  | '.' :: s => readField 6 s
  | s => some (0, s)

def readSeconds : List Char → Option (Nat × List Char)
  | ':' :: s => do
    let (seconds, s) ← readField 2 s
    let (micros, s) ← readFraction s
    some (seconds * 1000000 + micros, s)
  | s => some (0, s)

def readClock (s : List Char) : Option (Nat × List Char) := do
  let (hours, s) ← readField 2 s
  let s ← readLiteral ':' s
  let (minutes, s) ← readField 2 s
  let (micros, s) ← readSeconds s
  some (hours * 3600000000 + minutes * 60000000 + micros, s)

def readDate (s : List Char) : Option (Date × List Char) := do
  let (year, s) ← readField 4 s
  let s ← readLiteral '-' s
  let (month, s) ← readField 2 s
  let s ← readLiteral '-' s
  let (day, s) ← readField 2 s
  some (⟨year, month, day⟩, s)

def readOffset : List Char → Option Int
  | sign :: s => do
    let (micros, s) ← readClock s
    if s ≠ [] then none
    else if sign = '+' then some micros
    else if sign = '-' then some (-micros)
    else none
  | [] => none

/-- The datetime of a text that `isoformat` wrote. -/
def readIsoformat (s : List Char) : Option Datetime := do
  let (date, s) ← readDate s
  let s ← readLiteral 'T' s
  let (micros, s) ← readClock s
  let offset ← readOffset s
  let wall := wallMin + dayNumber date * 86400000000 + micros
  if h : (wallMin ≤ wall ∧ wall ≤ wallMax) ∧ (-dayMicros < offset ∧ offset < dayMicros) then
    some ⟨wall, offset, h.1, h.2⟩
  else none

/-- No clock goes on with these characters. -/
def Ends (rest : List Char) : Prop := ∀ c tail, rest = c :: tail → c ≠ ':' ∧ c ≠ '.'

theorem readFraction_ends {rest : List Char} (h : Ends rest) :
    readFraction rest = some (0, rest) := by
  cases rest with
  | nil => rfl
  | cons c tail =>
    have hc := (h c tail rfl).2
    unfold readFraction
    split
    · rename_i heq
      exact absurd (List.cons.inj heq).1 hc
    · rfl

theorem readSeconds_ends {rest : List Char} (h : Ends rest) :
    readSeconds rest = some (0, rest) := by
  cases rest with
  | nil => rfl
  | cons c tail =>
    have hc := (h c tail rfl).1
    unfold readSeconds
    split
    · rename_i heq
      exact absurd (List.cons.inj heq).1 hc
    · rfl

theorem readFraction_written {micros : Nat} {rest : List Char} (h : Ends rest) :
    readFraction ((if micros % 1000000 = 0 then [] else '.' :: pad 6 (micros % 1000000)) ++ rest) =
      some (micros % 1000000, rest) := by
  split
  · rename_i hzero
    rw [List.nil_append, readFraction_ends h, hzero]
  · rw [List.cons_append, readFraction, readField_pad (by omega)]

theorem readSeconds_written {full : Bool} {micros : Nat} {rest : List Char} (h : Ends rest) :
    readSeconds ((if full = false ∧ micros % 60000000 = 0 then []
      else ':' :: (pad 2 (micros / 1000000 % 60) ++
        if micros % 1000000 = 0 then [] else '.' :: pad 6 (micros % 1000000))) ++ rest) =
      some (micros % 60000000, rest) := by
  split
  · rename_i hzero
    rw [List.nil_append, readSeconds_ends h, hzero.2]
  · rw [List.cons_append, List.append_assoc, readSeconds, readField_pad (by omega)]
    simp only [Option.bind_eq_bind, Option.bind_some]
    rw [readFraction_written h]
    simp only [Option.bind_some, Option.some.injEq, Prod.mk.injEq, and_true]
    omega

theorem readClock_clock {full : Bool} {micros : Nat} {rest : List Char}
    (hm : micros < 86400000000) (h : Ends rest) :
    readClock (clock full micros ++ rest) = some (micros, rest) := by
  rw [clock, List.append_assoc, List.cons_append, List.append_assoc, readClock,
    readField_pad (by omega)]
  simp only [Option.bind_eq_bind, Option.bind_some, readLiteral, if_true]
  rw [readField_pad (by omega)]
  simp only [Option.bind_some]
  rw [readSeconds_written h]
  simp only [Option.bind_some, Option.some.injEq, Prod.mk.injEq, and_true]
  omega

theorem readOffset_written {offset : Int} (h : -dayMicros < offset ∧ offset < dayMicros) :
    readOffset ((if offset < 0 then '-' else '+') :: clock false offset.natAbs) = some offset := by
  unfold dayMicros at h
  have hclock : readClock (clock false offset.natAbs ++ []) = some (offset.natAbs, []) :=
    readClock_clock (by omega) (by intro c tail hc; cases hc)
  rw [List.append_nil] at hclock
  rw [readOffset, hclock]
  simp only [Option.bind_eq_bind, Option.bind_some, ne_eq, not_true_eq_false, if_false]
  split
  · rw [if_neg (by decide), if_pos rfl]
    congr 1
    omega
  · rw [if_pos rfl]
    congr 1
    omega

theorem readDate_written {date : Date} {rest : List Char} (hy : date.year < 10 ^ 4)
    (hm : date.month < 10 ^ 2) (hd : date.day < 10 ^ 2) :
    readDate (pad 4 date.year ++ ('-' :: (pad 2 date.month ++ ('-' :: (pad 2 date.day ++ rest))))) =
      some (date, rest) := by
  rw [readDate, readField_pad hy]
  simp only [Option.bind_eq_bind, Option.bind_some, readLiteral, if_true]
  rw [readField_pad hm]
  simp only [Option.bind_some, if_true]
  rw [readField_pad hd]
  rfl

/-- The text of a datetime gives back its local time and its offset. -/
theorem readIsoformat_isoformat (d : Datetime) : readIsoformat d.isoformat = some d := by
  have hrange := d.in_range
  have hlower : ((d.wall - wallMin).toNat : Int) = d.wall - wallMin :=
    Int.toNat_of_nonneg (by omega)
  have hday : (d.wall - wallMin).toNat / 86400000000 < 3652059 := by
    unfold wallMin wallMax at *
    omega
  obtain ⟨hy, hm, hd⟩ := dateOf_lt hday
  have hends : Ends ((if d.offset < 0 then '-' else '+') :: clock false d.offset.natAbs) := by
    intro c tail hc
    obtain ⟨hc, -⟩ := List.cons.inj hc
    rw [← hc]
    split <;> decide
  have hwall : wallMin + (dayNumber (dateOf ((d.wall - wallMin).toNat / 86400000000)) : Int) *
      86400000000 + ((d.wall - wallMin).toNat % 86400000000 : Nat) = d.wall := by
    rw [dayNumber_dateOf]
    omega
  rw [readIsoformat, Datetime.isoformat, readDate_written hy hm hd]
  simp only [Option.bind_eq_bind, Option.bind_some, readLiteral, if_true]
  rw [readClock_clock (Nat.mod_lt _ (by omega)) hends]
  simp only [Option.bind_some]
  rw [readOffset_written d.offset_lt]
  simp only [Option.bind_some, hwall]
  rw [dif_pos ⟨d.in_range, d.offset_lt⟩]

theorem Datetime.isoformat_inj {a b : Datetime} (h : a.isoformat = b.isoformat) : a = b := by
  have hread := readIsoformat_isoformat a
  rw [h, readIsoformat_isoformat b] at hread
  exact (Option.some.inj hread).symm

/-- A datetime of the program: a local time, with an offset or without one. -/
inductive PyDatetime where
  | naive (wall : Int)
  | aware (d : Datetime)

/-- `datetime.fromisoformat`; `none` stands for `ValueError`. -/
class DatetimeReader where
  fromisoformat : List Nat → Option PyDatetime

def Datetime.isoText (d : Datetime) : List Nat := d.isoformat.map Char.toNat

/-- `fromisoformat` is the inverse of `isoformat`. -/
def DatetimeReader.Lawful [DatetimeReader] : Prop :=
  ∀ d : Datetime, DatetimeReader.fromisoformat d.isoText = some (.aware d)

end Sediment.Core

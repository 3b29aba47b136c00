import Mathlib.Order.Basic
import Mathlib.Tactic

namespace Sediment.Core

/-- `datetime.min` and `datetime.max`, in microseconds from the Unix epoch. -/
def wallMin : Int := -62135596800000000

def wallMax : Int := 253402300799999999

/-- One day; an offset is strictly between a day before and a day after. -/
def dayMicros : Int := 86400000000

/-- An aware `datetime`: its local time, and how far that is ahead of UTC. -/
structure Datetime where
  wall : Int
  offset : Int
  in_range : wallMin ≤ wall ∧ wall ≤ wallMax
  offset_lt : -dayMicros < offset ∧ offset < dayMicros

namespace Datetime

def instant (d : Datetime) : Int := d.wall - d.offset

/-- The instant lies between year 1 and year 9999 in UTC. -/
def Representable (d : Datetime) : Prop := wallMin ≤ d.instant ∧ d.instant ≤ wallMax

instance (d : Datetime) : Decidable d.Representable := inferInstanceAs (Decidable (_ ∧ _))

theorem zero_offset : -dayMicros < 0 ∧ 0 < dayMicros := by decide

/-- A local time in UTC; `none` stands for a time that no `datetime` can hold. -/
def utc (wall : Int) : Option Datetime :=
  if h : wallMin ≤ wall ∧ wall ≤ wallMax then
    some ⟨wall, 0, h, zero_offset⟩
  else none

/-- `value.astimezone(UTC)`; `none` stands for `OverflowError`. -/
def astimezone (d : Datetime) : Option Datetime := utc d.instant

theorem utc_offset {wall : Int} {d : Datetime} (h : utc wall = some d) : d.offset = 0 := by
  unfold utc at h
  split at h
  · cases h
    rfl
  · cases h

/-- A row is read back exactly when its instant is representable. -/
theorem astimezone_eq_none {d : Datetime} : d.astimezone = none ↔ ¬ d.Representable := by
  unfold astimezone utc Representable
  split <;> simp_all

end Datetime

/-- Floats as seconds since the epoch: `m / n` on integers, where `none` stands for
`OverflowError`, and rounding to whole microseconds, where it stands for `ValueError`. -/
class PyTime (φ : Type) where
  truediv : Int → Int → Option φ
  micros : φ → Option Int

/-- `datetime.fromtimestamp(seconds, tz=UTC)`; `none` stands for the errors it raises. -/
def fromtimestamp {φ : Type} [PyTime φ] (seconds : φ) : Option Datetime :=
  (PyTime.micros seconds).bind Datetime.utc

end Sediment.Core

/-
Times as text, in UTC.
-/
import Mathlib.Logic.Basic

namespace Go

/-- `n` with at least `width` digits. -/
def zeroPad (width n : Nat) : String :=
  let digits := toString n
  String.ofList (List.replicate (width - digits.length) '0') ++ digits

/-- The date of a day, counted from 1970-01-01: year, month and day of the month. -/
def civil (days : Nat) : Nat × Nat × Nat :=
  -- years are counted from a March 1 that begins a cycle of 400 of them
  let z := days + 719468
  let dayOfEra := z % 146097
  let yearOfEra := (dayOfEra - dayOfEra / 1460 + dayOfEra / 36524 - dayOfEra / 146096) / 365
  let dayOfYear := dayOfEra - (365 * yearOfEra + yearOfEra / 4 - yearOfEra / 100)
  let month := (5 * dayOfYear + 2) / 153
  let day := dayOfYear - (153 * month + 2) / 5 + 1
  let year := yearOfEra + z / 146097 * 400
  if month < 10 then (year, month + 3, day) else (year + 1, month - 9, day)

/-- `20060102T150405Z`, of seconds since 1970. -/
def utcStamp (seconds : Nat) : String :=
  let (year, month, day) := civil (seconds / 86400)
  zeroPad 4 year ++ zeroPad 2 month ++ zeroPad 2 day ++ "T" ++ zeroPad 2 (seconds / 3600 % 24) ++
    zeroPad 2 (seconds / 60 % 60) ++ zeroPad 2 (seconds % 60) ++ "Z"

example : utcStamp 1136214245 = "20060102T150405Z" := by decide +kernel

end Go

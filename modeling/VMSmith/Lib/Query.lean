/-
The query part of a URL, as the source language's `net/url` takes it apart.
-/
import VMSmith.Lib.Bytes

namespace Go.Query

open Go

/-- The value of a hexadecimal digit. -/
def unhex (b : UInt8) : Option UInt8 :=
  if 0x30 ≤ b && b ≤ 0x39 then some (b - 0x30)
  else if 0x61 ≤ b && b ≤ 0x66 then some (b - 0x61 + 10)
  else if 0x41 ≤ b && b ≤ 0x46 then some (b - 0x41 + 10)
  else none

/-- `url.QueryUnescape`, `none` where it reports an error. -/
def queryUnescape : Bytes → Option Bytes
  | [] => some []
  | b :: rest =>
      if b = 0x25 then
        match rest with
        | high :: low :: rest => do
            let high ← unhex high
            let low ← unhex low
            (queryUnescape rest).map ((high * 16 + low) :: ·)
        | _ => none
      else if b = 0x2B then (queryUnescape rest).map (0x20 :: ·)
      else (queryUnescape rest).map (b :: ·)

/-- `strings.Split(s, sep)`, of a separator of one byte. -/
def split (sep : UInt8) (s : Bytes) : List Bytes := s.splitOn sep

/-- `strings.Join(parts, sep)`. -/
def join (sep : UInt8) (parts : List Bytes) : Bytes := [sep].intercalate parts

/-- The text before the first `=`. -/
def keyText (part : Bytes) : Bytes := part.takeWhile (· ≠ 0x3D)

/-- The text behind the first `=`. -/
def valueText (part : Bytes) : Bytes := (part.dropWhile (· ≠ 0x3D)).drop 1

/-- What one part of a query assigns: nothing if it is empty, has a semicolon or cannot be
decoded. -/
def assigns (part : Bytes) : Option (Bytes × Bytes) :=
  if 0x3B ∈ part then none
  else if part = [] then none
  else do
    let key ← queryUnescape (keyText part)
    let value ← queryUnescape (valueText part)
    some (key, value)

/-- `URL.Query`: the values of every name, in order. -/
def query (raw : Bytes) : List (Bytes × Bytes) := (split 0x26 raw).filterMap assigns

/-- `Values.Get`. -/
def get (values : List (Bytes × Bytes)) (name : Bytes) : Bytes :=
  ((values.find? fun entry => entry.1 = name).map (·.2)).getD []

theorem assigns_key {part key value : Bytes} (h : assigns part = some (key, value)) :
    queryUnescape (keyText part) = some key := by
  unfold assigns at h
  split_ifs at h
  obtain ⟨key', hkey, h⟩ := Option.bind_eq_some_iff.mp h
  obtain ⟨value', _, h⟩ := Option.bind_eq_some_iff.mp h
  injection h with h
  injection h with hk _
  rw [hkey, hk]

end Go.Query

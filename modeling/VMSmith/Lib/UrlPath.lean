/-
The path part of a URL: decoding it, trimming it and taking it apart at its slashes.
-/
import VMSmith.Lib.Query
import Mathlib.Data.List.DropRight

namespace Go.Url

open Go

/-- `/`. -/
def slash : UInt8 := 0x2F

/-- `url.PathUnescape`, `none` where it reports an error. -/
def pathUnescape : Bytes → Option Bytes
  | [] => some []
  | b :: rest =>
      if b = 0x25 then
        match rest with
        | high :: low :: rest => do
            let high ← Query.unhex high
            let low ← Query.unhex low
            (pathUnescape rest).map ((high * 16 + low) :: ·)
        | _ => none
      else (pathUnescape rest).map (b :: ·)

/-- A request's path as it is read: `path` is decoded, `rawPath` the text it was decoded
from unless that is the usual spelling of it. -/
structure Path where
  path : Bytes
  rawPath : Bytes
  decoded : rawPath ≠ [] → pathUnescape rawPath = some path

/-- The text a router goes by. -/
def Path.text (p : Path) : Bytes :=
  if p.rawPath ≠ [] then p.rawPath else if p.path ≠ [] then p.path else [slash]

/-- The text between the slashes of an absolute path. -/
def segments : Bytes → Option (List Bytes)
  | b :: rest => if b = slash then some (Query.split slash rest) else none
  | [] => none

/-- Segments, each behind a slash. -/
def behind : List Bytes → Bytes
  | [] => []
  | s :: rest => slash :: s ++ behind rest

/-- The text behind the last slash. -/
def lastSegment (s : Bytes) : Bytes := s.rtakeWhile (· ≠ slash)

end Go.Url

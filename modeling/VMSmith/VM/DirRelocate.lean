/-
Moving a VM's directory.

Within one file system it is a rename.  Across two, the tree is copied next to the
destination, under a name of its own, and renamed into place.  The source of a copy stays
until the move is made final, so that the move can be taken back.
-/
import VMSmith.Lib.FileCalls

namespace VMSmith

/-- Programs over the file system that fail with a text. -/
abbrev DirProg := Prog FileCall FileCall.Resp String

namespace DirProg

open Prog (perform)

/-- A call whose failure is the program's. -/
def callOrFail (c : FileCall) : DirProg c.Out := do
  match ← perform c with
  | .ok out => return out
  | .error e => .throw e.text

end DirProg

def pathText (p : TreePath) : String := "/" ++ "/".intercalate p

structure DirRelocator where
  /-- Bounds each step of a copy. -/
  chunkSize : Nat
  pos : 0 < chunkSize

def newDirRelocator : DirRelocator where
  chunkSize := 64 <<< 20
  pos := by decide

/-- A move that has been made and can be made final or undone. -/
structure DirRelocation where
  src : TreePath
  dst : TreePath
  /-- The source was renamed; otherwise the destination is a copy. -/
  renamed : Bool

/-- The name a copy has until it is complete. -/
def partialPath (dst : TreePath) : TreePath := dst.dropLast ++ [dst.getLastD "" ++ ".partial"]

namespace DirRelocator

open Prog (perform)
open DirProg (callOrFail)

variable (r : DirRelocator)

/-- The rounds of a copy.  Each but the last brings at least a byte, so there are no more than
one for each byte and one to see the end. -/
def copyChunks (src dst : TreePath) : Nat → Nat → DirProg Unit
  | 0, _ => return ()
  | rounds + 1, copied => do
    match ← perform (.readFrom dst src copied r.chunkSize) with
    | .error e => do
      let _ ← perform (.close dst)
      .throw s!"copying {pathText src}: {e.text}"
    | .ok n =>
      let moved : Nat := n
      if moved = 0 then return () else copyChunks src dst rounds (copied + moved)

def copyFile (src dst : TreePath) (size : Nat) (perm : FilePerm) : DirProg Unit := do
  callOrFail (.openFile src)
  callOrFail (.create dst perm)
  r.copyChunks src dst (size + 1) 0
  match ← perform (.sync dst) with
  | .error e => do
    let _ ← perform (.close dst)
    .throw s!"syncing {pathText dst}: {e.text}"
  | .ok _ => do
    callOrFail (.close dst)
    -- what was created lacks the umask's bits
    callOrFail (.chmod dst perm)

/-- The first walk: nothing but files and directories. -/
def inspect : List TreePath → DirProg Unit
  | [] => return ()
  | p :: paths => do
    let info : FileInfo ← callOrFail (.lstat p)
    match info.kind with
    | .irregular => .throw s!"refusing to move {pathText p}: not a regular file or directory"
    | _ => inspect paths

/-- `MkdirAll` leaves the umask's bits out, and nothing puts them back. -/
def copyEntry (src dst p : TreePath) : DirProg Unit := do
  let target := dst ++ p.drop src.length
  let info : FileInfo ← callOrFail (.lstat p)
  match info.kind with
  | .dir => callOrFail (.mkdirAll target info.perm)
  | _ => r.copyFile p target info.size info.perm

/-- The second walk. -/
def copyEntries (src dst : TreePath) : List TreePath → DirProg Unit
  | [] => return ()
  | p :: paths => do
    r.copyEntry src dst p
    copyEntries src dst paths

def copyTree (src dst : TreePath) : DirProg Unit := do
  let visited : List TreePath ← callOrFail (.walk src)
  inspect visited
  let visited : List TreePath ← callOrFail (.walk src)
  r.copyEntries src dst visited

/-- The copy, and the renaming that shows it. -/
def placeCopy (src dst : TreePath) : DirProg DirRelocation := do
  let staging := partialPath dst
  match ← (r.copyTree src staging).attempt with
  | .error e => do
    let _ ← perform (.removeAll staging)
    .throw e
  | .ok _ =>
    match ← perform (.rename staging dst) with
    | .error e => do
      let _ ← perform (.removeAll staging)
      .throw s!"finalising copy into {pathText dst}: {e.text}"
    | .ok _ => do
      let _ ← perform (.sync dst.dropLast)
      return { src, dst, renamed := false }

/-- What is left of an earlier attempt is removed first, and whether that worked is not asked. -/
def moveAcross (src dst : TreePath) : DirProg DirRelocation := do
  let _ ← perform (.removeAll (partialPath dst))
  r.placeCopy src dst

def renameOrCopy (src dst : TreePath) : DirProg DirRelocation := do
  match ← perform (.rename src dst) with
  | .ok _ => return { src, dst, renamed := true }
  | .error e =>
    if e ≠ .crossDevice then .throw s!"moving {pathText src} to {pathText dst}: {e.text}"
    else r.moveAcross src dst

def relocate (src dst : TreePath) : DirProg DirRelocation := do
  match ← perform (.lstat dst) with
  | .ok _ => .throw s!"destination {pathText dst} already exists"
  | .error e =>
    if e ≠ .notExist then .throw s!"checking destination {pathText dst}: {e.text}"
    else r.renameOrCopy src dst

end DirRelocator

namespace DirRelocation

open DirProg (callOrFail)

variable (d : DirRelocation)

def commit : DirProg Unit :=
  if d.renamed then return () else callOrFail (.removeAll d.src)

def rollback : DirProg Unit :=
  if d.renamed then callOrFail (.rename d.dst d.src) else callOrFail (.removeAll d.dst)

end DirRelocation

end VMSmith

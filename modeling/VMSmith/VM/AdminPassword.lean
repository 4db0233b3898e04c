/-
The generated administrator password of a Windows guest.

One byte of each complexity class is drawn first, then the rest from all of them, and the
bytes are shuffled from the last place down.
-/
import VMSmith.Lib.Bytes
import VMSmith.Lib.Draws
import VMSmith.Types.VM

namespace VMSmith

open Go

/-- Draws from `crypto/rand`. -/
abbrev RandM := Draws Err

namespace AdminPassword

def upper : Bytes := ascii "ABCDEFGHJKLMNPQRSTUVWXYZ"
def lower : Bytes := ascii "abcdefghijkmnopqrstuvwxyz"
def digits : Bytes := ascii "23456789"
def symbols : Bytes := ascii "!@#%^&*()-_=+[]\x7b\x7d;:,.<>?"

def allAlphabets : Bytes := upper ++ lower ++ digits ++ symbols

def classes : List Bytes := [upper, lower, digits, symbols]

def randomIndex (n : ℕ) : RandM (Fin n) :=
  if n = 0 then .throw (.ext ("random index requires n > 0, got " ++ toString n))
  else do
    match ← Prog.perform n with
    | .error e => .throw (.wrap "crypto/rand failure" e)
    | .ok v => return v

def randomByteFrom (alphabet : Bytes) : RandM UInt8 := do
  let idx ← randomIndex alphabet.length
  return alphabet.get idx

variable {n : ℕ}

/-- One byte of each class, from place `i` on. -/
def seed : ℕ → List Bytes → Vector UInt8 n → RandM (Vector UInt8 n)
  | _, [], out => return out
  | i, alphabet :: rest, out => do
      let ch ← randomByteFrom alphabet
      seed (i + 1) rest (out.setIfInBounds i ch)

/-- So many bytes of any class, from place `i` on. -/
def fill : ℕ → ℕ → Vector UInt8 n → RandM (Vector UInt8 n)
  | _, 0, out => return out
  | i, left + 1, out => do
      let ch ← randomByteFrom allAlphabets
      fill (i + 1) left (out.setIfInBounds i ch)

/-- Shuffle the places up to `i`. -/
def shuffle : ℕ → Vector UInt8 n → RandM (Vector UInt8 n)
  | 0, out => return out
  | i + 1, out => do
      let j ← randomIndex (i + 2)
      shuffle i (out.swapIfInBounds (i + 1) j)

def generateAdminPasswordN (length : ℤ) : RandM Bytes :=
  if length < 4 then
    .throw (.ext ("admin password length must be >= 4, got " ++ toString length))
  else do
    let n := length.toNat
    let out ← seed 0 classes (Vector.replicate n 0)
    let out ← fill classes.length (n - classes.length) out
    let out ← shuffle (n - 1) out
    return out.toList

def generatedAdminPasswordLength : ℤ := 20

def generateAdminPassword : RandM Bytes := generateAdminPasswordN generatedAdminPasswordLength

end AdminPassword

end VMSmith

/-
CIDR notation.

`parseCIDR` reads an address with a prefix length and gives the address's
canonical text, the form in which two spellings of one address agree.  Both
address families are read, in the grammar of the source language's standard
library: no leading zeros in a dotted octet, at most one run of elided groups, an
optional dotted tail, no zone.
-/
import Mathlib.Data.String.Basic

namespace Net

/-- An address: four octets, or eight groups of sixteen bits. -/
inductive Addr where
  | v4 (octets : List Nat)
  | v6 (groups : List Nat)
  deriving DecidableEq, Repr

def decDigit? (c : Char) : Option Nat :=
  if '0' ≤ c ∧ c ≤ '9' then some (c.toNat - 48) else none

def hexDigit? (c : Char) : Option Nat :=
  if '0' ≤ c ∧ c ≤ '9' then some (c.toNat - 48)
  else if 'a' ≤ c ∧ c ≤ 'f' then some (c.toNat - 87)
  else if 'A' ≤ c ∧ c ≤ 'F' then some (c.toNat - 55)
  else none

/-- Digits in a base, most significant first; no digits is no number. -/
def digits? (digit? : Char → Option Nat) (radix : Nat) : List Char → Option Nat
  | [] => none
  | cs => cs.foldl (fun acc c => do pure ((← acc) * radix + (← digit? c))) (some 0)

/-- One dotted octet: up to three digits, no leading zero, at most 255. -/
def octet? (cs : List Char) : Option Nat :=
  if 3 < cs.length ∨ (1 < cs.length ∧ cs.head? = some '0') then none
  else (digits? decDigit? 10 cs).filter (· ≤ 255)

def parseV4 (cs : List Char) : Option (List Nat) :=
  let fields := cs.splitOn '.'
  if fields.length = 4 then fields.mapM octet? else none

/-- One group of up to four hexadecimal digits. -/
def group? (cs : List Char) : Option Nat :=
  if cs.length ≤ 4 then digits? hexDigit? 16 cs else none

/-- Groups in a row; where a dotted tail may stand it counts for two. -/
def groups? (dottedTail : Bool) : List (List Char) → Option (List Nat)
  | [] => some []
  | [last] =>
      match parseV4 last with
      | some [a, b, c, d] => if dottedTail then some [a * 256 + b, c * 256 + d] else none
      | _ => (group? last).map ([·])
  | g :: gs => do pure ((← group? g) :: (← groups? dottedTail gs))

/-- The text before and after the first elision. -/
def splitElision : List Char → Option (List Char × List Char)
  | ':' :: ':' :: rest => some ([], rest)
  | c :: cs => (splitElision cs).map fun (before, after) => (c :: before, after)
  | [] => none

/-- One side of an elision, possibly empty. -/
def side? (dottedTail : Bool) (cs : List Char) : Option (List Nat) :=
  if cs = [] then some [] else groups? dottedTail (cs.splitOn ':')

def parseV6 (cs : List Char) : Option (List Nat) :=
  match splitElision cs with
  | none => (groups? true (cs.splitOn ':')).filter (·.length = 8)
  | some (before, after) => do
      let front ← side? false before
      let back ← side? true after
      if front.length + back.length < 8 then
        pure (front ++ List.replicate (8 - front.length - back.length) 0 ++ back)
      else none

def parseAddr (cs : List Char) : Option Addr :=
  if ':' ∈ cs then (parseV6 cs).map .v6 else (parseV4 cs).map .v4

/-! ### Canonical text -/

def hexText (n : Nat) : String := String.ofList (Nat.toDigits 16 n)

def dotted (octets : List Nat) : String := ".".intercalate (octets.map toString)

/-- The longest run of zero groups, the first of several; runs of one do not count. -/
def zeroRun (groups : List Nat) : Option (Nat × Nat) :=
  let runs := (List.range groups.length).map fun i => (i, ((groups.drop i).takeWhile (· = 0)).length)
  runs.foldl (fun best r =>
    if r.2 < 2 then best
    else match best with
      | none => some r
      | some b => if b.2 < r.2 then some r else best) none

/-- An IPv4-mapped address prints as the IPv4 address it maps. -/
def Addr.text : Addr → String
  | .v4 octets => dotted octets
  | .v6 groups =>
      match groups with
      | [0, 0, 0, 0, 0, 0xFFFF, hi, lo] => dotted [hi / 256, hi % 256, lo / 256, lo % 256]
      | _ =>
          match zeroRun groups with
          | none => ":".intercalate (groups.map hexText)
          | some (i, n) =>
              ":".intercalate ((groups.take i).map hexText) ++ "::" ++
                ":".intercalate ((groups.drop (i + n)).map hexText)

def Addr.bits : Addr → Nat
  | .v4 _ => 32
  | .v6 _ => 128

/-- The four octets of an IPv4 address, mapped ones included. -/
def Addr.to4 : Addr → Option (List Nat)
  | .v4 octets => some octets
  | .v6 [0, 0, 0, 0, 0, 0xFFFF, hi, lo] => some [hi / 256, hi % 256, lo / 256, lo % 256]
  | .v6 _ => none

/-- Address and prefix length of a CIDR text. -/
def splitCIDR (s : String) : Option (Addr × Nat) :=
  match s.toList.span (· ≠ '/') with
  | (addr, _ :: mask) => do
      let ip ← parseAddr addr
      let n ← digits? decDigit? 10 mask
      if n ≤ ip.bits then some (ip, n) else none
  | _ => none

/-- The address of a CIDR text, in canonical form. -/
def parseCIDR (s : String) : Option String := (splitCIDR s).map fun p => p.1.text

/-- Keep the leading `n` bits of fields of `width` bits each. -/
def maskFields (width : Nat) : Nat → List Nat → List Nat
  | _, [] => []
  | n, f :: fs => (f / 2 ^ (width - n) * 2 ^ (width - n)) :: maskFields width (n - width) fs

/-- The address after the network's own, its last byte stepped by one. -/
def firstHost : Addr × Nat → Addr
  | (.v4 octets, n) =>
      let net := maskFields 8 n octets
      .v4 (net.dropLast ++ [(net.getLastD 0 + 1) % 256])
  | (.v6 groups, n) =>
      let net := maskFields 16 n groups
      let last := net.getLastD 0
      .v6 (net.dropLast ++ [last / 256 * 256 + (last % 256 + 1) % 256])

example : parseCIDR "192.168.100.50/24" = some "192.168.100.50" := by decide

example : parseCIDR "192.168.100.050/24" = none := by decide

example : parseCIDR "fd00::5/64" = some "fd00::5" := by decide

end Net

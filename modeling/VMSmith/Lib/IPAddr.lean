/-
IP addresses as numbers, and networks of them.

An address has a four-byte and a sixteen-byte form, and IPv4 addresses have both: the
mapped form `::ffff:a.b.c.d` stands for the same address.  `IP.normal` picks the
four-byte one.  Two addresses print alike just when their normal forms agree, which is
what the text of an address is used for where it is a key.
-/
import VMSmith.Lib.CIDR

namespace Net

/-- An address of four or of sixteen bytes. -/
inductive IP where
  | v4 (a : BitVec 32)
  | v6 (a : BitVec 128)
  deriving DecidableEq, Repr

namespace IP

/-- `To4`: the four bytes of an IPv4 address in either form. -/
def to4 : IP → Option (BitVec 32)
  | v4 a => some a
  | v6 a => if a >>> 32 = 0xFFFF then some (a.setWidth 32) else none

/-- The form an address is printed and compared in. -/
def normal (ip : IP) : IP :=
  match ip.to4 with
  | some a => v4 a
  | none => ip

@[simp] theorem to4_normal (ip : IP) : ip.normal.to4 = ip.to4 := by
  unfold normal
  split
  next a h =>
    rw [h]
    rfl
  next => rfl

@[simp] theorem normal_normal (ip : IP) : ip.normal.normal = ip.normal := by
  rw [normal, to4_normal]
  split
  next a h => rw [normal, h]
  next => rfl

/-- An address without a four-byte form is its own normal form. -/
theorem normal_of_to4_none {ip : IP} (h : ip.to4 = none) : ip.normal = ip := by
  rw [normal, h]

theorem normal_v6 {ip : IP} (h : ip.to4 = none) : ∃ a, ip = v6 a := by
  cases ip with
  | v4 a => simp [to4] at h
  | v6 a => exact ⟨a, rfl⟩

/-- `IsUnspecified`. -/
def isUnspecified (ip : IP) : Bool := ip.normal = v4 0 ∨ ip.normal = v6 0

/-- `IsLoopback`. -/
def isLoopback (ip : IP) : Bool :=
  match ip.normal with
  | v4 a => a >>> 24 = 127
  | v6 a => a = 1

/-- `IsMulticast`. -/
def isMulticast (ip : IP) : Bool :=
  match ip.normal with
  | v4 a => a >>> 28 = 0xE
  | v6 a => a >>> 120 = 0xFF

/-- `IsLinkLocalUnicast`. -/
def isLinkLocalUnicast (ip : IP) : Bool :=
  match ip.normal with
  | v4 a => a >>> 16 = 0xA9FE
  | v6 a => a >>> 118 = 0x3FA

@[simp] theorem isUnspecified_normal (ip : IP) : ip.normal.isUnspecified = ip.isUnspecified := by
  simp [isUnspecified]

@[simp] theorem isLoopback_normal (ip : IP) : ip.normal.isLoopback = ip.isLoopback := by
  simp [isLoopback]

@[simp] theorem isMulticast_normal (ip : IP) : ip.normal.isMulticast = ip.isMulticast := by
  simp [isMulticast]

@[simp] theorem isLinkLocalUnicast_normal (ip : IP) :
    ip.normal.isLinkLocalUnicast = ip.isLinkLocalUnicast := by
  simp [isLinkLocalUnicast]

end IP

/-- A network: the addresses that share their leading `ones` bits with `base`.  A network of
mapped addresses is one of IPv4 addresses. -/
inductive IPNet where
  | v4 (base : BitVec 32) (ones : Nat)
  | v6 (base : BitVec 128) (ones : Nat)
  deriving DecidableEq, Repr

/-- `Contains`. -/
def IPNet.contains (n : IPNet) (ip : IP) : Bool :=
  match n, ip.normal with
  | .v4 base ones, .v4 a => a >>> (32 - ones) = base >>> (32 - ones)
  | .v6 base ones, .v6 a => a >>> (128 - ones) = base >>> (128 - ones)
  | _, _ => false

@[simp] theorem IPNet.contains_normal (n : IPNet) (ip : IP) : n.contains ip.normal = n.contains ip := by
  simp [contains]

/-- The number that digits in a base write. -/
def fromFields (radix : Nat) (fields : List Nat) : Nat := fields.foldl (fun n f => n * radix + f) 0

def Addr.ip : Addr → IP
  | .v4 octets => .v4 (BitVec.ofNat 32 (fromFields 256 octets))
  | .v6 groups => .v6 (BitVec.ofNat 128 (fromFields 65536 groups))

/-- `ParseIP`. -/
def parseIP (s : String) : Option IP := (parseAddr s.toList).map Addr.ip

/-- An address that a lookup answers with itself: an IPv6 address may carry a zone there. -/
def literalIP (s : String) : Option IP :=
  match parseIP s with
  | some ip => some ip
  | none =>
      match s.toList.span (· ≠ '%') with
      | (addr, _ :: _ :: _) => (parseV6 addr).map fun groups => (Addr.v6 groups).ip
      | _ => none

/-- The network of a CIDR text. -/
def parseIPNet (s : String) : Option IPNet :=
  (splitCIDR s).map fun (addr, n) =>
    match addr.ip with
    | .v4 a => .v4 (a >>> (32 - n) <<< (32 - n)) n
    | .v6 a =>
        let base := a >>> (128 - n) <<< (128 - n)
        match (IP.v6 base).to4 with
        | some a => .v4 a (n - 96)
        | none => .v6 base n

example : (parseIPNet "10.0.0.0/8").map (·.contains (.v6 0xFFFF0A000001)) = some true := by
  decide +kernel

example : (parseIP "fe80::1").map IP.isLinkLocalUnicast = some true := by decide +kernel

end Net

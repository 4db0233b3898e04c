/-
Which addresses the allocation finds.

The range is meant as the addresses from its start to its end.  The walk keeps the first
three octets of the start and runs through the last octets of the two ends.  Where these
octets agree that is the range; where they differ it is a part of the range, possibly
empty, so what is found is always right and what is not found may yet be there.
-/
import VMSmith.Lib.IPRange
import VMSmith.System.Failing
import VMSmith.VM.Create

namespace VMSmith

/-- The addresses that are leased or reserved. -/
def NetState.used (s : NetState) : List String := s.leases ++ s.hosts.map DHCPHost.ip

/-- What an allocation from a range owes: an address of it that is not used, or an error
where there is none. -/
structure Allocates (range used : List String) (res : Except Err String) : Prop where
  sound : ∀ ip, res = .ok ip → ip ∈ range ∧ ip ∉ used
  complete : ∀ e, res = .error e → ∀ ip ∈ range, ip ∈ used

/-- The addresses the walk comes by: the first three octets of the start, the last octet
between those of the two ends. -/
def walked (start stop : List Nat) : List String :=
  ((List.range (stop.getLastD 0 + 1)).drop (start.getLastD 0)).map fun i =>
    Net.dotted (start.dropLast ++ [i])

namespace Manager

open Prog (bind_eq wp_bind)

variable {d : Daemon} {w : World} {start stop : List Nat}

/-- What is read of the configured range are octets. -/
theorem dhcpRange_isOctets {cfg : NetworkConfig} (h : dhcpRange cfg = some (start, stop)) :
    Net.IsOctets start ∧ Net.IsOctets stop := by
  simp only [dhcpRange, Option.bind_eq_bind, Option.pure_def, Option.bind_eq_some_iff,
    Option.some.injEq, Prod.mk.injEq] at h
  obtain ⟨a, ha, s, hs, b, hb, e, he, rfl, rfl⟩ := h
  exact ⟨Net.to4_isOctets ha hs, Net.to4_isOctets hb he⟩

theorem mem_drop_range {m n i : Nat} : i ∈ (List.range n).drop m ↔ m ≤ i ∧ i < n := by
  rw [List.range_eq_range', List.drop_range', List.mem_range'_1]
  omega

/-- What the walk finds is in the range. -/
theorem walked_subset (hstart : Net.IsOctets start) (hstop : Net.IsOctets stop)
    (hle : Net.fromFields 256 start ≤ Net.fromFields 256 stop) {ip : String}
    (h : ip ∈ walked start stop) : ip ∈ Net.range start stop := by
  obtain ⟨a, b, c, s, rfl⟩ := hstart.quad
  obtain ⟨a', b', c', e, rfl⟩ := hstop.quad
  obtain ⟨i, hi, rfl⟩ := List.mem_map.mp h
  have hbound : s ≤ i ∧ i < e + 1 := mem_drop_range.mp hi
  have hocts : Net.IsOctets [a, b, c, i] := by
    rw [Net.isOctets_quad] at hstart hstop ⊢
    omega
  rw [Net.isOctets_quad] at hstart hstop
  rw [Net.fromFields_quad, Net.fromFields_quad] at hle
  rw [Net.mem_range]
  refine ⟨Net.fromFields 256 [a, b, c, i], ?_, ?_, ?_⟩
  · rw [Net.fromFields_quad, Net.fromFields_quad]
    exact Nat.add_le_add_left hbound.1 _
  · -- past the last octet of the end only when the end's network is not past
    rw [Net.fromFields_quad, Net.fromFields_quad]
    omega
  · rw [Net.octetsOf_fromFields hocts]
    rfl

/-- Within one network the walk is the range. -/
theorem range_subset (hstart : Net.IsOctets start) (hstop : Net.IsOctets stop)
    (hsame : start.dropLast = stop.dropLast) {ip : String} (h : ip ∈ Net.range start stop) :
    ip ∈ walked start stop := by
  obtain ⟨a, b, c, s, rfl⟩ := hstart.quad
  obtain ⟨a', b', c', e, rfl⟩ := hstop.quad
  simp only [List.dropLast_cons_cons, List.dropLast_singleton, List.cons.injEq, and_true] at hsame
  obtain ⟨rfl, rfl, rfl⟩ := hsame
  obtain ⟨n, hs, he, rfl⟩ := Net.mem_range.mp h
  rw [Net.isOctets_quad] at hstart hstop
  rw [Net.fromFields_quad] at hs he
  refine List.mem_map.mpr ⟨n % 256, mem_drop_range.mpr ?_, ?_⟩
  · show s ≤ n % 256 ∧ n % 256 < e + 1
    omega
  · have hocts : Net.octetsOf n = [a, b, c, n % 256] := by
      unfold Net.octetsOf
      congr 1
      · omega
      · congr 1
        · omega
        · congr 1
          omega
    rw [hocts]
    rfl

/-- The first of the walked addresses that is not used. -/
def allocation (cfg : NetworkConfig) (start stop : List Nat) (used : List String) :
    Except Err String :=
  match (walked start stop).find? (· ∉ used) with
  | some ip => .ok ip
  | none => .error (.ext ("no free IP in DHCP range " ++ cfg.dhcpStart ++ "-" ++ cfg.dhcpEnd))

theorem allocation_ok {cfg : NetworkConfig} {used : List String} {ip : String}
    (h : allocation cfg start stop used = .ok ip) : ip ∈ walked start stop ∧ ip ∉ used := by
  unfold allocation at h
  split at h
  · next hfind =>
      rw [Except.ok.injEq] at h
      rw [h] at hfind
      exact ⟨List.mem_of_find?_eq_some hfind, by simpa using List.find?_some hfind⟩
  · simp at h

theorem allocation_error {cfg : NetworkConfig} {used : List String} :
    (∃ e, allocation cfg start stop used = .error e) ↔ ∀ ip ∈ walked start stop, ip ∈ used := by
  unfold allocation
  split
  · next ip hfind =>
      refine ⟨fun ⟨e, he⟩ => by simp at he, fun hall => ?_⟩
      have hfree : ip ∉ used := by simpa using List.find?_some hfind
      exact absurd (hall ip (List.mem_of_find?_eq_some hfind)) hfree
  · next hfind =>
      refine ⟨fun _ ip hip => ?_, fun _ => ⟨_, rfl⟩⟩
      simpa using List.find?_eq_none.mp hfind ip hip

theorem allocation_allocates {cfg : NetworkConfig} {used : List String}
    (hstart : Net.IsOctets start) (hstop : Net.IsOctets stop)
    (hle : Net.fromFields 256 start ≤ Net.fromFields 256 stop) :
    Allocates (Net.range start stop) used (allocation cfg start stop used) ↔
      start.dropLast = stop.dropLast ∨ (∃ ip ∈ walked start stop, ip ∉ used) ∨
        ∀ ip ∈ Net.range start stop, ip ∈ used := by
  refine ⟨fun hall => ?_, fun hcond => ⟨fun ip hip => ?_, fun e he ip hip => ?_⟩⟩
  · by_cases hfree : ∃ ip ∈ walked start stop, ip ∉ used
    · exact .inr (.inl hfree)
    · push Not at hfree
      obtain ⟨e, he⟩ : ∃ e, allocation cfg start stop used = .error e := allocation_error.mpr hfree
      exact .inr (.inr (hall.complete e he))
  · obtain ⟨hmem, hfree⟩ := allocation_ok hip
    exact ⟨walked_subset hstart hstop hle hmem, hfree⟩
  · have hused := allocation_error.mp ⟨e, he⟩
    rcases hcond with hsame | ⟨free, hmem, hfree⟩ | hnone
    · exact hused ip (range_subset hstart hstop hsame hip)
    · exact absurd (hused free hmem) hfree
    · exact hnone ip hip

theorem wp_findAvailableIP (h : dhcpRange d.cfg.network = some (start, stop))
    {Q : Except Err String → World → Prop}
    (hQ : Q (allocation d.cfg.network start stop w.net.used) w) :
    Prog.wp (World.under calm) (findAvailableIP d) Q w := by
  have hlookup : ∀ x : Choice, x.fail = none →
      World.exec (.net .lookupNetworkByName) x w = some (.ok (), w) := by
    intro x hx
    simp [World.exec, NetState.exec, fallible_read, hx]
  have hleases : ∀ x : Choice, x.fail = none →
      World.exec (.net .getDHCPLeases) x w = some (.ok w.net.leases, w) := by
    intro x hx
    simp [World.exec, NetState.exec, fallible_read, hx]
  have hhosts : ∀ x : Choice, x.fail = none →
      World.exec (.net .networkHosts) x w = some (.ok w.net.hosts, w) := by
    intro x hx
    simp [World.exec, NetState.exec, fallible_read, hx]
  unfold findAvailableIP netCall
  rw [bind_eq, wp_bind, World.wp_under_then hlookup, wp_orWrap]
  show Prog.wp _ (_ >>= _) _ _
  rw [World.wp_under_then hleases, World.wp_under_then hhosts]
  have hused : addressesOf id (.ok w.net.leases) ++ addressesOf DHCPHost.ip (.ok w.net.hosts) =
      w.net.used := by
    rw [addressesOf, addressesOf, List.map_id, NetState.used]
  dsimp only
  rw [hused, h]
  obtain ⟨⟨a, b, c, s, rfl⟩, ⟨a', b', c', e, rfl⟩⟩ :=
    And.imp Net.IsOctets.quad Net.IsOctets.quad (dhcpRange_isOctets h)
  have hfind : firstFree s e (fun i => Net.dotted [a, b, c, i]) w.net.used =
      (walked [a, b, c, s] [a', b', c', e]).find? (· ∉ w.net.used) := rfl
  unfold allocation at hQ
  rw [← hfind] at hQ
  dsimp only
  split
  · next ip hip =>
      rw [hip] at hQ
      exact (Prog.wp_ret _ _ _).mpr hQ
  · next hnone =>
      rw [hnone] at hQ
      exact (Prog.wp_throw _ _ _).mpr hQ

/-- Whatever the sets of leases and reservations: the walk ends, and it does what an
allocation owes just when the ends of the range are in one network, or it comes by a free
address, or there is none. -/
theorem findAvailableIP_allocates (d : Daemon) (w : World) {start stop : List Nat}
    (h : dhcpRange d.cfg.network = some (start, stop))
    (hle : Net.fromFields 256 start ≤ Net.fromFields 256 stop) :
    (∃ res t, Prog.Runs (World.under calm) (findAvailableIP d) w res t) ∧
      ∀ res t, Prog.Runs (World.under calm) (findAvailableIP d) w res t →
        (Allocates (Net.range start stop) w.net.used res ↔
          start.dropLast = stop.dropLast ∨ (∃ ip ∈ walked start stop, ip ∉ w.net.used) ∨
            ∀ ip ∈ Net.range start stop, ip ∈ w.net.used) := by
  refine ⟨World.under_ends calm _ w, fun res t hrun => ?_⟩
  have hres : res = allocation d.cfg.network start stop w.net.used :=
    Prog.wp_sound (Q := fun res _ => res = _) (wp_findAvailableIP h rfl) hrun
  obtain ⟨hstart, hstop⟩ := dhcpRange_isOctets h
  rw [hres]
  exact allocation_allocates hstart hstop hle

theorem findAvailableIP_allocates_plain :
    ∃ res t, Prog.Runs (World.under calm) (findAvailableIP .plain) {} res t ∧
      Allocates (Net.range [192, 168, 100, 10] [192, 168, 100, 254]) [] res := by
  have hrange : dhcpRange Daemon.plain.cfg.network
      = some ([192, 168, 100, 10], [192, 168, 100, 254]) := by decide
  have halloc := findAvailableIP_allocates .plain {} hrange (by decide)
  obtain ⟨res, t, hrun⟩ := halloc.1
  exact ⟨res, t, hrun, (halloc.2 res t hrun).mpr (.inl rfl)⟩

/-- A daemon whose range goes over the end of a network. -/
def overEnd : Daemon :=
  { Daemon.plain with
    cfg := { network := { dhcpStart := "10.0.0.250", dhcpEnd := "10.0.1.5" } } }

/-- Nothing is leased and nothing reserved, and yet no address is found. -/
theorem findAvailableIP_misses : ¬ ∀ (d : Daemon) (w : World) (start stop : List Nat),
    dhcpRange d.cfg.network = some (start, stop) →
    Net.fromFields 256 start ≤ Net.fromFields 256 stop →
      ∀ res t, Prog.Runs (World.under calm) (findAvailableIP d) w res t →
        Allocates (Net.range start stop) w.net.used res := by
  intro hall
  have hrange : dhcpRange overEnd.cfg.network = some ([10, 0, 0, 250], [10, 0, 1, 5]) := by decide
  obtain ⟨res, t, hrun⟩ := World.under_ends calm (findAvailableIP overEnd) {}
  have hres : res = allocation overEnd.cfg.network [10, 0, 0, 250] [10, 0, 1, 5] [] :=
    Prog.wp_sound (Q := fun res _ => res = _) (wp_findAvailableIP hrange rfl) hrun
  have hright := hall overEnd {} _ _ hrange (by decide) res t hrun
  have hfree : "10.0.0.250" ∈ Net.range [10, 0, 0, 250] [10, 0, 1, 5] :=
    Net.mem_range.mpr ⟨Net.fromFields 256 [10, 0, 0, 250], by decide, by decide, by decide⟩
  have hused := hright.complete _ hres _ hfree
  exact absurd hused (List.not_mem_nil)

end Manager

end VMSmith

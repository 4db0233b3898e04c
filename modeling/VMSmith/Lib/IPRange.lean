/-
Ranges of IPv4 addresses.

An address is its four octets or one number of 32 bits, most significant octet first.
A range is the numbers between two others; its dotted texts are what the addresses of
it are known by.
-/
import VMSmith.Lib.IPAddr
import Mathlib.Data.List.Forall2
import Mathlib.Tactic.Ring

namespace Net

/-- Four octets. -/
def IsOctets (octets : List Nat) : Prop := octets.length = 4 ∧ ∀ o ∈ octets, o < 256

theorem isOctets_quad {a b c d : Nat} :
    IsOctets [a, b, c, d] ↔ a < 256 ∧ b < 256 ∧ c < 256 ∧ d < 256 := by
  simp [IsOctets]

theorem IsOctets.quad {octets : List Nat} (h : IsOctets octets) :
    ∃ a b c d, octets = [a, b, c, d] := List.length_eq_four.mp h.1

/-- The octets of a number. -/
def octetsOf (n : Nat) : List Nat := [n / 16777216, n / 65536 % 256, n / 256 % 256, n % 256]

theorem fromFields_quad (a b c d : Nat) :
    fromFields 256 [a, b, c, d] = a * 16777216 + b * 65536 + c * 256 + d := by
  simp only [fromFields, List.foldl_cons, List.foldl_nil]
  ring

theorem octetsOf_fromFields {octets : List Nat} (h : IsOctets octets) :
    octetsOf (fromFields 256 octets) = octets := by
  obtain ⟨a, b, c, d, rfl⟩ := h.quad
  obtain ⟨ha, hb, hc, hd⟩ := isOctets_quad.mp h
  rw [fromFields_quad, octetsOf]
  congr 1
  · omega
  · congr 1
    · omega
    · congr 1
      · omega
      · congr 1
        omega

/-- The addresses from one to another, in order, as they are written. -/
def range (start stop : List Nat) : List String :=
  (List.range' (fromFields 256 start) (fromFields 256 stop + 1 - fromFields 256 start)).map fun n =>
    dotted (octetsOf n)

theorem mem_range {start stop : List Nat} {ip : String} :
    ip ∈ range start stop ↔ ∃ n, fromFields 256 start ≤ n ∧ n ≤ fromFields 256 stop ∧
      dotted (octetsOf n) = ip := by
  simp only [range, List.mem_map, List.mem_range'_1]
  refine exists_congr fun n => ⟨fun ⟨⟨hlo, hhi⟩, htext⟩ => ⟨hlo, ?_, htext⟩,
    fun ⟨hlo, hhi, htext⟩ => ⟨⟨hlo, ?_⟩, htext⟩⟩
  · omega
  · omega

/-! ### What is read as an address is one -/

/-- A reading that has failed stays so. -/
theorem foldl_none {α β : Type} (f : Option β → α → Option β) (xs : List α)
    (h : ∀ x, f none x = none) : xs.foldl f none = none := by
  induction xs with
  | nil => rfl
  | cons x xs ih => rw [List.foldl_cons, h, ih]

/-- What is read of a list is read of its elements, one by one. -/
theorem forall₂_mapM {α β : Type} {f : α → Option β} {xs : List α} {ys : List β}
    (h : xs.mapM f = some ys) : List.Forall₂ (fun x y => f x = some y) xs ys := by
  induction xs generalizing ys with
  | nil =>
      rw [List.mapM_nil, Option.pure_def, Option.some.injEq] at h
      rw [← h]
      exact .nil
  | cons x xs ih =>
      simp only [List.mapM_cons, Option.bind_eq_bind, Option.pure_def, Option.bind_eq_some_iff,
        Option.some.injEq] at h
      obtain ⟨y, hy, zs, hzs, rfl⟩ := h
      exact .cons hy (ih hzs)

theorem digits?_lt {digit? : Char → Option Nat} {radix : Nat}
    (hdigit : ∀ c v, digit? c = some v → v < radix) {cs : List Char} {n : Nat}
    (h : digits? digit? radix cs = some n) : n < radix ^ cs.length := by
  -- each digit makes room for `radix` more, whatever has been read
  have hfold : ∀ (cs : List Char) (acc : Nat),
      cs.foldl (fun acc c => do pure ((← acc) * radix + (← digit? c))) (some acc) = some n →
        n < (acc + 1) * radix ^ cs.length := by
    intro cs
    induction cs with
    | nil =>
        intro acc hacc
        rw [List.foldl_nil, Option.some.injEq] at hacc
        simp [hacc]
    | cons c cs ih =>
        intro acc hacc
        rw [List.foldl_cons] at hacc
        cases hc : digit? c with
        | none =>
            rw [hc] at hacc
            exact absurd (hacc.symm.trans (foldl_none _ _ fun _ => rfl)) (by simp)
        | some v =>
            rw [hc] at hacc
            have hlt := ih _ hacc
            have hv := hdigit c v hc
            calc n < (acc * radix + v + 1) * radix ^ cs.length := hlt
              _ ≤ ((acc + 1) * radix) * radix ^ cs.length := by
                  refine Nat.mul_le_mul_right _ ?_
                  rw [Nat.add_mul, Nat.one_mul]
                  omega
              _ = (acc + 1) * radix ^ (c :: cs).length := by
                  rw [List.length_cons, Nat.pow_succ']
                  ring
  cases cs with
  | nil => simp [digits?] at h
  | cons c cs =>
      have := hfold (c :: cs) 0 h
      simpa using this

theorem hexDigit?_lt (c : Char) (v : Nat) (h : hexDigit? c = some v) : v < 16 := by
  unfold hexDigit? at h
  split_ifs at h with hdec hlow hup
  · obtain ⟨-, h9⟩ := hdec
    have : c.toNat ≤ 57 := h9
    rw [Option.some.injEq] at h
    omega
  · obtain ⟨-, hf⟩ := hlow
    have : c.toNat ≤ 102 := hf
    rw [Option.some.injEq] at h
    omega
  · obtain ⟨-, hF⟩ := hup
    have : c.toNat ≤ 70 := hF
    rw [Option.some.injEq] at h
    omega

theorem octet?_lt {cs : List Char} {o : Nat} (h : octet? cs = some o) : o < 256 := by
  unfold octet? at h
  split_ifs at h
  have hle := (Option.filter_eq_some_iff.mp h).2
  rw [decide_eq_true_eq] at hle
  exact Nat.lt_succ_of_le hle

theorem group?_lt {cs : List Char} {g : Nat} (h : group? cs = some g) : g < 65536 := by
  unfold group? at h
  split_ifs at h with hlen
  calc g < 16 ^ cs.length := digits?_lt hexDigit?_lt h
    _ ≤ 16 ^ 4 := Nat.pow_le_pow_right (by decide) hlen

theorem parseV4_octets {cs : List Char} {octets : List Nat} (h : parseV4 cs = some octets) :
    IsOctets octets := by
  simp only [parseV4] at h
  split_ifs at h with hlen
  have hall := forall₂_mapM h
  refine ⟨hall.length_eq.symm.trans hlen, fun o ho => ?_⟩
  obtain ⟨i, hi, rfl⟩ := List.mem_iff_getElem.mp ho
  have hi' : i < (cs.splitOn '.').length := by rw [hall.length_eq]; exact hi
  exact octet?_lt (hall.get hi' hi)

/-- Sixteen bits each. -/
def IsGroups (groups : List Nat) : Prop := ∀ g ∈ groups, g < 65536

theorem groups?_isGroups {dottedTail : Bool} {fields : List (List Char)} {groups : List Nat}
    (h : groups? dottedTail fields = some groups) : IsGroups groups := by
  fun_induction groups? dottedTail fields generalizing groups with
  | case1 =>
      rw [← Option.some.inj h]
      exact List.forall_mem_nil _
  | case2 last a b c d hv4 =>
      rw [← Option.some.inj h]
      obtain ⟨ha, hb, hc, hd⟩ := isOctets_quad.mp (parseV4_octets hv4)
      intro g hg
      simp only [List.mem_cons, List.not_mem_nil, or_false] at hg
      omega
  | case3 => simp at h
  | case4 last hv4 =>
      obtain ⟨g, hg, rfl⟩ := Option.map_eq_some_iff.mp h
      intro g' hg'
      rw [List.mem_singleton] at hg'
      rw [hg']
      exact group?_lt hg
  | case5 g gs hne ih =>
      simp only [Option.bind_eq_bind, Option.pure_def, Option.bind_eq_some_iff,
        Option.some.injEq] at h
      obtain ⟨n, hn, ns, hns, rfl⟩ := h
      exact List.forall_mem_cons.mpr ⟨group?_lt hn, ih hns⟩

theorem side?_isGroups {dottedTail : Bool} {cs : List Char} {groups : List Nat}
    (h : side? dottedTail cs = some groups) : IsGroups groups := by
  unfold side? at h
  split_ifs at h
  · rw [← Option.some.inj h]
    exact List.forall_mem_nil _
  · exact groups?_isGroups h

theorem parseV6_isGroups {cs : List Char} {groups : List Nat} (h : parseV6 cs = some groups) :
    IsGroups groups := by
  unfold parseV6 at h
  split at h
  · exact groups?_isGroups (Option.filter_eq_some_iff.mp h).1
  · simp only [Option.bind_eq_bind, Option.pure_def, Option.bind_eq_some_iff] at h
    obtain ⟨front, hfront, back, hback, h⟩ := h
    split_ifs at h
    rw [← Option.some.inj h]
    intro g hg
    rw [List.mem_append, List.mem_append] at hg
    rcases hg with (hf | hz) | hb
    · exact side?_isGroups hfront g hf
    · rw [(List.mem_replicate.mp hz).2]
      decide
    · exact side?_isGroups hback g hb

/-- The four octets of an address that was read. -/
theorem to4_isOctets {cs : List Char} {addr : Addr} {octets : List Nat}
    (h : parseAddr cs = some addr) (h4 : addr.to4 = some octets) : IsOctets octets := by
  unfold parseAddr at h
  split_ifs at h
  · obtain ⟨groups, hgroups, rfl⟩ := Option.map_eq_some_iff.mp h
    have hlt := parseV6_isGroups hgroups
    unfold Addr.to4 at h4
    split at h4
    · simp at *
    · next hi lo heq =>
        rw [← Option.some.inj h4, isOctets_quad]
        rw [Addr.v6.injEq] at heq
        have hhi : hi < 65536 := hlt hi (by simp [heq])
        have hlo : lo < 65536 := hlt lo (by simp [heq])
        omega
    · simp at h4
  · obtain ⟨fields, hfields, rfl⟩ := Option.map_eq_some_iff.mp h
    rw [← Option.some.inj h4]
    exact parseV4_octets hfields

end Net

/-
A listing over several hosts agrees with lookups.

Each host's listing is the whole store as that host sees it, so taking from each host the
rows it owns and from a host that answers the rows of those that do not gives every stored
VM once.  A lookup goes to the owner, too; for a VM whose host is not configured it goes to
the first host that answers, and so does the listing: to the default host if it answers,
for it is asked first, and if it does not to whoever stands in for it.
-/
import VMSmith.VM.MultiHost
import Mathlib.Data.List.Nodup
import Mathlib.Data.List.Perm.Basic

namespace VMSmith

namespace HostManager

/-- The host answers. -/
def healthy (h : HostManager) : Bool := h.failing.isNone

variable {h : HostManager} {store : StoredVMs} {vm : PlacedVM} {id : String}

/-- What libvirt knows does not change whose record it is. -/
theorem refresh_keeps (h : HostManager) (vm : PlacedVM) :
    (h.refresh vm).id = vm.id ∧ (h.refresh vm).host = vm.host := by
  unfold refresh
  cases h.domain vm.name with
  | none =>
      dsimp only
      split_ifs
      · split <;> exact ⟨rfl, rfl⟩
      · exact ⟨rfl, rfl⟩
  | some found =>
      dsimp only
      split_ifs
      · split <;> exact ⟨rfl, rfl⟩
      · exact ⟨rfl, rfl⟩

theorem list_healthy (hh : h.healthy = true) : h.list store = .ok (store.vms.values.map h.refresh) := by
  rw [list, Option.isNone_iff_eq_none.mp hh]

theorem get_healthy (hh : h.healthy = true) (hvm : store.vms.get? id = some vm) :
    h.get store id = .ok (h.refresh vm) := by
  rw [get, Option.isNone_iff_eq_none.mp hh]
  dsimp only
  rw [hvm]

theorem list_failing (hh : h.healthy = false) : ∃ e, h.list store = .error e := by
  cases hf : h.failing with
  | none => simp [healthy, hf] at hh
  | some e => exact ⟨e, by rw [list, hf]⟩

theorem get_failing (hh : h.healthy = false) : ∃ e, h.get store id = .error e := by
  cases hf : h.failing with
  | none => simp [healthy, hf] at hh
  | some e => exact ⟨e, by rw [get, hf]⟩

end HostManager

namespace StoredVMs

variable (store : StoredVMs)

theorem values_id : store.vms.values.map (fun vm => vm.id) = store.vms.entries.map Prod.fst := by
  rw [Bucket.values, List.map_map]
  refine List.map_congr_left fun e he => ?_
  exact store.keyed e.1 e.2 (Bucket.mem_entries.mp he)

theorem nodup_id : (store.vms.values.map fun vm => vm.id).Nodup := by
  rw [values_id]
  exact List.pairwise_map.mpr (store.vms.sorted.imp fun h => ne_of_lt h)

theorem mem_values {vm : PlacedVM} : vm ∈ store.vms.values ↔ store.vms.get? vm.id = some vm := by
  rw [Bucket.mem_values]
  refine ⟨fun ⟨id, hid⟩ => ?_, fun h => ⟨_, h⟩⟩
  rw [store.keyed id vm hid]
  exact hid

end StoredVMs

namespace MultiHostManager

variable {m : MultiHostManager} {store : StoredVMs} {h : String × HostManager} {vm : PlacedVM} {id : String}

theorem mem_order : h ∈ m.order ↔ m.hosts.get? h.1 = some h.2 := by
  rw [order, List.mem_cons, List.mem_filter, Bucket.mem_entries, decide_eq_true_eq]
  constructor
  · rintro (rfl | ⟨hget, -⟩)
    · exact m.known
    · exact hget
  · intro hget
    by_cases hname : h.1 = m.defaultName
    · left
      rw [hname, m.known] at hget
      rw [Option.some.inj hget, ← hname]
    · exact .inr ⟨hget, hname⟩

theorem mem_order_of {name : String} {host : HostManager} (hget : m.hosts.get? name = some host) :
    (name, host) ∈ m.order := mem_order.mpr hget

theorem order_nodup : (m.order.map Prod.fst).Nodup := by
  rw [order, List.map_cons, List.nodup_cons]
  refine ⟨fun hmem => ?_, ?_⟩
  · obtain ⟨h, hh, hname⟩ := List.mem_map.mp hmem
    have := (List.mem_filter.mp hh).2
    rw [decide_eq_true_eq] at this
    exact this hname
  · exact List.pairwise_map.mpr ((m.hosts.sorted.imp fun h => ne_of_lt h).filter _)

theorem owner_of_some {host : String} {h : HostManager} (hget : m.hosts.get? (m.hostFor host) = some h) :
    m.owner host = m.hostFor host := by
  unfold owner
  dsimp only
  rw [hget, Option.isSome_some, if_pos rfl]

theorem owner_of_none {host : String} (hget : m.hosts.get? (m.hostFor host) = none) :
    m.owner host = m.defaultName := by
  unfold owner
  dsimp only
  rw [hget, Option.isSome_none, if_neg Bool.false_ne_true]

/-- Some host owns every row. -/
theorem owner_mem (host : String) : ∃ h, (m.owner host, h) ∈ m.order := by
  unfold owner
  dsimp only
  split_ifs with hsome
  · obtain ⟨h, hh⟩ := Option.isSome_iff_exists.mp hsome
    exact ⟨h, mem_order_of hh⟩
  · exact ⟨m.default, mem_order.mpr m.known⟩

/-! ### The listing -/

/-- The hosts that do not answer. -/
def down (hs : List (String × HostManager)) : List String :=
  (hs.filter fun h => !h.2.healthy).map Prod.fst

/-- The stored records that this host's listing contributes. -/
def share (m : MultiHostManager) (store : StoredVMs) (h : String × HostManager) : List PlacedVM :=
  if h.2.healthy then store.vms.values.filter fun vm => m.owner vm.host = h.1 else []

theorem filter_refresh (h : HostManager) (p : String → Bool) (vms : List PlacedVM) :
    (vms.map h.refresh).filter (fun vm => p vm.host) = (vms.filter fun vm => p vm.host).map h.refresh := by
  rw [List.filter_map]
  congr 2
  funext vm
  rw [Function.comp_apply, (h.refresh_keeps vm).2]

theorem map_refresh_id (h : HostManager) (vms : List PlacedVM) :
    (vms.map h.refresh).map (fun vm => vm.id) = vms.map fun vm => vm.id := by
  rw [List.map_map]
  exact List.map_congr_left fun vm _ => (h.refresh_keeps vm).1

/-- After the listings of these hosts. -/
theorem foldl_add (m : MultiHostManager) (store : StoredVMs) (hs : List (String × HostManager)) (acc : Merge) :
    let acc' := hs.foldl (fun (acc : Merge) h => acc.add m h.1 (h.2.list store)) acc
    acc'.out = acc.out ++ hs.flatMap (fun h => (share m store h).map h.2.refresh) ∧
      acc'.seen = acc.seen ++ hs.flatMap (fun h => (share m store h).map fun vm => vm.id) ∧
      acc'.failed = acc.failed ++ down hs := by
  induction hs generalizing acc with
  | nil => simp [down]
  | cons h hs ih =>
      obtain ⟨hout, hseen, hfailed⟩ := ih (acc.add m h.1 (h.2.list store))
      rw [List.foldl_cons]
      dsimp only at hout hseen hfailed ⊢
      rw [hout, hseen, hfailed, List.flatMap_cons, List.flatMap_cons]
      cases hh : h.2.healthy with
      | true =>
          rw [HostManager.list_healthy hh]
          have hown := filter_refresh h.2 (fun host => m.owner host = h.1) store.vms.values
          simp only [Merge.add, share, down, hh, if_true, Bool.not_true, Bool.false_eq_true,
            not_false_eq_true, List.filter_cons_of_neg, hown, map_refresh_id, List.append_assoc,
            and_self]
      | false =>
          obtain ⟨e, he⟩ : ∃ e, h.2.list store = .error e := HostManager.list_failing hh
          rw [he]
          simp [Merge.add, share, down, hh]

/-- The rows of the failed hosts are not among those taken, and all come in. -/
theorem backfill_out (m : MultiHostManager) (vms : List PlacedVM) (acc : Merge)
    (hnodup : (vms.map fun vm => vm.id).Nodup)
    (hfresh : ∀ vm ∈ vms, m.owner vm.host ∈ acc.failed → vm.id ∉ acc.seen) :
    (acc.backfill m vms).out = acc.out ++ vms.filter fun vm => m.owner vm.host ∈ acc.failed := by
  induction vms generalizing acc with
  | nil => simp [Merge.backfill]
  | cons vm vms ih =>
      rw [List.map_cons, List.nodup_cons] at hnodup
      have hrest : ∀ v ∈ vms, m.owner v.host ∈ acc.failed → v.id ∉ acc.seen :=
        fun v hv => hfresh v (List.mem_cons_of_mem _ hv)
      rw [Merge.backfill]
      by_cases hfailed : m.owner vm.host ∈ acc.failed
      · rw [if_pos ⟨hfailed, hfresh vm List.mem_cons_self hfailed⟩, ih _ hnodup.2]
        · rw [List.filter_cons_of_pos (by simpa using hfailed), List.append_assoc]
          rfl
        · intro v hv hvf hseen
          rcases List.mem_append.mp hseen with hold | hnew
          · exact hrest v hv hvf hold
          · exact hnodup.1 (List.mem_singleton.mp hnew ▸ List.mem_map_of_mem hv)
      · rw [if_neg fun hc => hfailed hc.1, ih _ hnodup.2 hrest,
          List.filter_cons_of_neg (by simpa using hfailed)]

theorem mem_down {name : String} :
    name ∈ down m.order ↔ ∃ h, (name, h) ∈ m.order ∧ h.healthy = false := by
  simp only [down, List.mem_map, List.mem_filter, Bool.not_eq_true', Prod.exists]
  constructor
  · rintro ⟨_, h, hh, rfl⟩
    exact ⟨h, hh⟩
  · rintro ⟨h, hh⟩
    exact ⟨name, h, hh, rfl⟩

/-- The first host that answers. -/
def standIn (m : MultiHostManager) : Option (String × HostManager) := m.order.find? fun h => h.2.healthy

theorem findSome_list (hs : List (String × HostManager)) :
    (hs.findSome? fun h => (h.2.list store).toOption) =
      (hs.find? fun h => h.2.healthy).map fun h => store.vms.values.map h.2.refresh := by
  induction hs with
  | nil => rfl
  | cons h hs ih =>
      cases hh : h.2.healthy with
      | true =>
          have hfind : (h :: hs).find? (fun h => h.2.healthy) = some h := List.find?_cons_of_pos hh
          rw [hfind, List.findSome?_cons, HostManager.list_healthy hh]
          rfl
      | false =>
          obtain ⟨e, he⟩ : ∃ e, h.2.list store = .error e := HostManager.list_failing hh
          have hfind : (h :: hs).find? (fun h => h.2.healthy) = hs.find? fun h => h.2.healthy :=
            List.find?_cons_of_neg (by simp [hh])
          rw [hfind, List.findSome?_cons, he, ← ih]
          rfl

/-- A record in a host's share is not one of a host that is down. -/
theorem share_up (hh : h ∈ m.order) (hvm : vm ∈ share m store h) :
    vm ∈ store.vms.values ∧ m.owner vm.host = h.1 ∧ m.owner vm.host ∉ down m.order := by
  unfold share at hvm
  split_ifs at hvm with hhealthy
  · obtain ⟨hmem, howner⟩ := List.mem_filter.mp hvm
    rw [decide_eq_true_eq] at howner
    refine ⟨hmem, howner, fun hdown => ?_⟩
    rw [howner] at hdown
    obtain ⟨h', hh', hfail⟩ := mem_down.mp hdown
    have hsame : some h.2 = some h' := (mem_order.mp hh).symm.trans (mem_order.mp hh')
    rw [Option.some.inj hsame, hfail] at hhealthy
    simp at hhealthy
  · simp at hvm

/-- The listing: every host's own rows, and the stand-in's for the hosts that are down. -/
theorem list_eq (hstand : m.standIn = some h) : m.list store =
    .ok (m.order.flatMap (fun h => (share m store h).map h.2.refresh) ++
      (store.vms.values.filter fun vm => m.owner vm.host ∈ down m.order).map h.2.refresh) := by
  have hhealthy : h.2.healthy = true := by simpa using List.find?_some hstand
  have hmem : h ∈ m.order := List.mem_of_find?_eq_some hstand
  obtain ⟨hout, hseen, hfailed⟩ := foldl_add m store m.order {}
  rw [list]
  dsimp only at hout hseen hfailed ⊢
  rw [hfailed]
  have hlen : (down m.order).length < m.order.length := by
    rw [down, List.length_map]
    refine List.length_filter_lt_length_iff_exists.mpr ⟨h, hmem, ?_⟩
    simp [hhealthy]
  rw [List.nil_append, if_neg hlen.ne]
  split_ifs with hnone
  · rw [hout, hnone]
    simp
  · rw [findSome_list, show m.order.find? (fun h => h.2.healthy) = some h from hstand, Option.map_some]
    dsimp only
    rw [backfill_out, hout, hfailed]
    · rw [List.nil_append, List.nil_append]
      rw [filter_refresh h.2 fun host => m.owner host ∈ down m.order]
    · rw [map_refresh_id]
      exact store.nodup_id
    · intro row hrow hdown hin
      rw [hseen, List.nil_append] at hin
      rw [hfailed, List.nil_append] at hdown
      obtain ⟨k, hk, hid⟩ := List.mem_flatMap.mp hin
      obtain ⟨u, hu, huid⟩ := List.mem_map.mp hid
      obtain ⟨v, hv, rfl⟩ := List.mem_map.mp hrow
      obtain ⟨humem, -, hup⟩ := share_up hk hu
      have huv : u = v := by
        rw [(h.2.refresh_keeps v).1] at huid
        have := (store.mem_values.mp humem).symm.trans (huid ▸ store.mem_values.mp hv)
        exact Option.some.inj this
      rw [(h.2.refresh_keeps v).2, ← huv] at hdown
      exact hup hdown

/-- Every stored record is some host's share, or one of those of the hosts that are down. -/
theorem shares_perm : (m.order.flatMap (share m store) ++
    store.vms.values.filter fun vm => m.owner vm.host ∈ down m.order).Perm store.vms.values := by
  have hnodup : store.vms.values.Nodup := List.Nodup.of_map _ store.nodup_id
  refine (List.perm_ext_iff_of_nodup ?_ hnodup).mpr fun vm => ?_
  · refine List.nodup_append.mpr ⟨List.nodup_flatMap.mpr ⟨fun h _ => ?_, ?_⟩, hnodup.filter _, ?_⟩
    · unfold share
      split_ifs
      · exact hnodup.filter _
      · exact List.nodup_nil
    · refine List.Pairwise.imp_of_mem ?_ (List.pairwise_map.mp order_nodup)
      intro h k hh hk hne vm hvm hvm'
      exact hne ((share_up hh hvm).2.1.symm.trans (share_up hk hvm').2.1)
    · rintro vm hvm _ hvm' rfl
      obtain ⟨h, hh, hshare⟩ := List.mem_flatMap.mp hvm
      exact (share_up hh hshare).2.2 (of_decide_eq_true (List.mem_filter.mp hvm').2)
  · rw [List.mem_append, List.mem_flatMap, List.mem_filter, decide_eq_true_eq]
    constructor
    · rintro (⟨h, hh, hvm⟩ | ⟨hvm, -⟩)
      · exact (share_up hh hvm).1
      · exact hvm
    · intro hvm
      obtain ⟨h, hh⟩ := m.owner_mem vm.host
      cases hhealthy : h.healthy with
      | true =>
          refine .inl ⟨_, hh, ?_⟩
          rw [share, if_pos hhealthy, List.mem_filter, decide_eq_true_eq]
          exact ⟨hvm, rfl⟩
      | false => exact .inr ⟨hvm, mem_down.mpr ⟨h, hh, hhealthy⟩⟩

/-! ### Lookups -/

/-- The first host that answers says whose the record is. -/
theorem locate_eq (hstand : m.standIn = some h) (hvm : store.vms.get? id = some vm) :
    m.locate store id = .ok (match m.hosts.get? (m.hostFor vm.host) with
      | some owner => (m.hostFor vm.host, owner)
      | none => h, h.2.refresh vm) := by
  unfold standIn at hstand
  unfold locate
  generalize Err.ext ("vms/" ++ id ++ ": not found") = lastErr
  generalize m.order = hs at hstand
  induction hs generalizing lastErr with
  | nil => simp at hstand
  | cons k ks ih =>
      cases hk : k.2.healthy with
      | true =>
          have hfind : (k :: ks).find? (fun h => h.2.healthy) = some k := List.find?_cons_of_pos hk
          obtain rfl : k = h := Option.some.inj (hfind.symm.trans hstand)
          rw [locateAmong, HostManager.get_healthy hk hvm]
          dsimp only
          rw [(k.2.refresh_keeps vm).2, manager]
          cases m.hosts.get? (m.hostFor vm.host) <;> rfl
      | false =>
          have hfind : (k :: ks).find? (fun h => h.2.healthy) = ks.find? fun h => h.2.healthy :=
            List.find?_cons_of_neg (by simp [hk])
          obtain ⟨e, he⟩ : ∃ e, k.2.get store id = .error e := HostManager.get_failing hk
          rw [locateAmong, he]
          exact ih e (hfind.symm.trans hstand)

theorem mem_standIn (hstand : m.standIn = some h) : h ∈ m.order ∧ h.2.healthy = true :=
  ⟨List.mem_of_find?_eq_some hstand, by simpa using List.find?_some hstand⟩

/-- The default host is asked first. -/
theorem standIn_default (hhealthy : m.default.healthy = true) :
    m.standIn = some (m.defaultName, m.default) := by
  rw [standIn, order]
  exact List.find?_cons_of_pos hhealthy

/-- A row that a host's listing has and that the host owns is listed. -/
theorem share_listed {out : List PlacedVM} (hlist : m.list store = .ok out)
    (hstand : m.standIn = some h) {name : String} {host : HostManager} (hk : (name, host) ∈ m.order)
    (hhealthy : host.healthy = true) (hvm : vm ∈ store.vms.values) (howner : m.owner vm.host = name) :
    host.refresh vm ∈ out := by
  rw [list_eq hstand] at hlist
  rw [← Except.ok.inj hlist]
  refine List.mem_append_left _ (List.mem_flatMap.mpr ⟨(name, host), hk, List.mem_map_of_mem ?_⟩)
  rw [share, if_pos hhealthy, List.mem_filter, decide_eq_true_eq]
  exact ⟨hvm, howner⟩

/-- The host the lookup chooses has its own row listed, unless it is down. -/
theorem located_listed {out : List PlacedVM} (hlist : m.list store = .ok out)
    (hstand : m.standIn = some h) (hvm : store.vms.get? id = some vm)
    (hup : ∀ owner, m.hosts.get? (m.hostFor vm.host) = some owner → owner.healthy = true) :
    ∃ owner seen, m.locate store id = .ok (owner, seen) ∧ owner.2.healthy = true ∧
      owner.2.refresh vm ∈ out := by
  have hid := store.keyed id vm hvm
  have hmem : vm ∈ store.vms.values := store.mem_values.mpr (hid ▸ hvm)
  refine ⟨_, _, locate_eq hstand hvm, ?_⟩
  obtain ⟨hh, hhealthy⟩ := mem_standIn hstand
  cases hget : m.hosts.get? (m.hostFor vm.host) with
  | some owner =>
      refine ⟨hup owner hget, ?_⟩
      exact share_listed hlist hstand (mem_order_of hget) (hup owner hget) hmem (owner_of_some hget)
  | none =>
      have howner : m.owner vm.host = m.defaultName := owner_of_none hget
      refine ⟨hhealthy, ?_⟩
      cases hdefault : m.default.healthy with
      | true =>
          obtain rfl := Option.some.inj ((standIn_default hdefault).symm.trans hstand)
          exact share_listed hlist hstand hh hhealthy hmem howner
      | false =>
          rw [list_eq hstand] at hlist
          rw [← Except.ok.inj hlist]
          refine List.mem_append_right _ (List.mem_map_of_mem (List.mem_filter.mpr ⟨hmem, ?_⟩))
          rw [decide_eq_true_eq, howner]
          exact mem_down.mpr ⟨m.default, mem_order.mpr m.known, hdefault⟩

/-- **The listing agrees with lookups** as long as one host answers: every stored VM is
listed once, and a VM whose host answers, or is not configured, is listed as the host has it
that `locate` chooses, which is what `Get` returns. -/
theorem list_agrees (m : MultiHostManager) (store : StoredVMs)
    (hup : ∃ name h, m.hosts.get? name = some h ∧ h.healthy = true) :
    ∃ out, m.list store = .ok out ∧
      (out.map fun vm => vm.id).Perm (store.vms.entries.map Prod.fst) ∧
      ∀ id vm, store.vms.get? id = some vm →
        (∀ owner, m.hosts.get? (m.hostFor vm.host) = some owner → owner.healthy = true) →
        ∃ owner seen rows row, m.locate store id = .ok (owner, seen) ∧
          owner.2.list store = .ok rows ∧ row ∈ rows ∧ row.id = id ∧ row ∈ out ∧
          m.get store id = .ok row := by
  obtain ⟨name, h, hget, hhealthy⟩ := hup
  obtain ⟨k, hstand⟩ : ∃ k, m.standIn = some k := by
    refine Option.isSome_iff_exists.mp (List.find?_isSome.mpr ?_)
    exact ⟨(name, h), mem_order.mpr hget, hhealthy⟩
  refine ⟨_, list_eq hstand, ?_, fun id vm hvm hown => ?_⟩
  · rw [List.map_append, List.map_flatMap, map_refresh_id]
    simp only [map_refresh_id]
    rw [← List.map_flatMap, ← List.map_append, ← store.values_id]
    exact shares_perm.map _
  · obtain ⟨owner, seen, hlocate, hup, hrow⟩ := located_listed (list_eq hstand) hstand hvm hown
    have hid := store.keyed id vm hvm
    have hmem : vm ∈ store.vms.values := store.mem_values.mpr (hid ▸ hvm)
    refine ⟨owner, seen, _, _, hlocate, HostManager.list_healthy hup, List.mem_map_of_mem hmem, ?_, hrow, ?_⟩
    · rw [(owner.2.refresh_keeps vm).1, hid]
    · rw [get, hlocate]
      exact HostManager.get_healthy hup hvm

/-- Two hosts, the second one down. -/
def hostB : HostManager where
  failing := some (.ext "connection refused")

def twoHosts : MultiHostManager where
  hosts := (Bucket.empty.put "local" {}).put "b" hostB
  defaultName := "local"
  default := {}
  known := by
    rw [Bucket.get?_put_ne _ _ (by decide)]
    exact Bucket.get?_put_self _ _ _

def placed (id name host : String) : PlacedVM where
  id := id
  name := name
  spec := { name := name }
  state := .stopped
  diskPath := []
  host := host

/-- A VM on the host that is down, and one on a host that is gone. -/
def placedVMs : StoredVMs where
  vms := (Bucket.empty.put "vm-1" (placed "vm-1" "web" "b")).put "vm-2" (placed "vm-2" "db" "c")
  keyed := by
    intro id vm hvm
    rcases Bucket.mem_put hvm with ⟨rfl, rfl⟩ | ⟨-, hold⟩
    · rfl
    · rcases Bucket.mem_put hold with ⟨rfl, rfl⟩ | ⟨-, hnone⟩
      · rfl
      · simp at hnone

/-- Both are listed, and the second is found on the default host. -/
theorem list_agrees_twoHosts : ∃ out, twoHosts.list placedVMs = .ok out ∧
    (out.map fun vm => vm.id).Perm ["vm-1", "vm-2"] ∧
    ∃ row ∈ out, twoHosts.get placedVMs "vm-2" = .ok row := by
  obtain ⟨out, hlist, hperm, hrows⟩ := list_agrees twoHosts placedVMs ⟨"local", {}, twoHosts.known, rfl⟩
  have hgone : twoHosts.hosts.get? (twoHosts.hostFor "c") = none := by decide +kernel
  obtain ⟨_, _, _, row, -, -, -, -, hrow, hget⟩ :=
    hrows "vm-2" (placed "vm-2" "db" "c") (Bucket.get?_put_self _ _ _) fun owner howner => by
      rw [show (placed "vm-2" "db" "c").host = "c" from rfl, hgone] at howner
      simp at howner
  exact ⟨out, hlist, hperm, row, hrow, hget⟩

end MultiHostManager

end VMSmith

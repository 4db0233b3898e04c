/-
How many snapshots a VM has after one was made.

The API's creations leave at most as many as the limit, when they can list the snapshots.  A
schedule's leave what its own retention count leaves, so the limit holds after one just when that
is few enough.
-/
import VMSmith.Proofs.SnapshotOps
import Mathlib.Data.Prod.Lex
import Mathlib.Data.String.Basic
import Mathlib.Order.WithBot

namespace VMSmith

open Prog

/-- The VM has snapshots of these names. -/
def World.Shows (w : World) (vmID : String) (names : List String) : Prop :=
  w.virt.Distinct ∧ ∃ d, w.domainFor vmID = some d ∧ d.snapshots.map SnapshotXML.name = names

namespace World

variable {w w' : World} {vmID : String} {names : List String}

theorem Shows.snapshotNames (h : w.Shows vmID names) : w.snapshotNames vmID = names := by
  obtain ⟨hdistinct, d, hd, rfl⟩ := h
  exact Holds.snapshotNames ⟨hdistinct, hd⟩

theorem Holds.shows {d : Domain} (h : w.Holds vmID d) :
    w.Shows vmID (d.snapshots.map SnapshotXML.name) := ⟨h.1, d, h.2, rfl⟩

theorem Shows.nodup (h : w.Shows vmID names) : names.Nodup := by
  obtain ⟨hdistinct, d, hd, rfl⟩ := h
  exact Holds.nodup ⟨hdistinct, hd⟩

theorem Shows.same (h : w.Shows vmID names) (hsame : w.SameDomains w') : w'.Shows vmID names := by
  obtain ⟨hdistinct, d, hd, rfl⟩ := h
  exact (Holds.same ⟨hdistinct, hd⟩ hsame).shows

end World

namespace Making

/-- Records and domains as they were, and no snapshot taken. -/
structure Same (m m' : Making) : Prop where
  world : m.world.SameDomains m'.world
  listable : m'.listable = m.listable
  taken : m'.taken = m.taken

variable {m m' : Making} {vmID : String} {names : List String} {α β : Type}

theorem exec_eq {c : Cmd} {x : Choice} {r : c.Resp} (h : exec c x m = some (r, m')) :
    (m.taken = true → deletes c = true → x.fail = none) ∧
      (m.taken = true → lists c = true → x.fail.isSome = !m.listable) ∧
      World.exec c x m.world = some (r, m'.world) ∧ m'.listable = m.listable ∧
      m'.taken = (m.taken || takes c r) := by
  unfold exec at h
  split_ifs at h with hx hmay hmay
  all_goals
    obtain ⟨⟨r', w⟩, hexec, heq⟩ := Option.map_eq_some_iff.mp h
    obtain ⟨rfl, rfl⟩ := Prod.mk.inj heq
    refine ⟨fun htaken hc => ?_, fun htaken hc => ?_, hexec, rfl, rfl⟩
  · simp [mayFail, htaken, hc] at hmay
  · simp only [mayFail, htaken, hc, Bool.not_true, Bool.false_or, Bool.true_and, Bool.and_eq_true] at hmay
    rw [hx, hmay.2]
  · simpa using hx
  · simp only [maySucceed, htaken, hc, Bool.not_true, Bool.false_or] at hmay
    rw [hmay]
    simpa using hx

/-- With the world goes whether snapshots can be listed, and whether one has been taken. -/
def worldly : Worldly Making (Bool × Bool) where
  exec := exec
  world := Making.world
  rest := fun m => (m.listable, m.taken)
  fits := fun q c x => (q.2 = true → deletes c = true → x.fail = none) ∧
    (q.2 = true → lists c = true → x.fail.isSome = !q.1)
  next := fun q c r => (q.1, q.2 || takes c r)
  exec_eq := fun h => by
    obtain ⟨hdeletes, hlists, hexec, hlistable, htaken⟩ := exec_eq h
    exact ⟨⟨hdeletes, hlists⟩, hexec, Prod.ext hlistable htaken⟩
  next_eq := fun q c r hr => by rw [hr, Bool.or_false]

theorem worldly_sure (htaken : m.taken = true) : worldly.Sure (worldly.rest m) :=
  fun _ _ hc hfits => hfits.1 htaken hc

theorem Same.of_worldly (h : worldly.Same m m') : m.Same m' :=
  ⟨h.world, (Prod.mk.inj h.rest).1, (Prod.mk.inj h.rest).2⟩

theorem wp_looks {p : M α} (hp : Only Cmd.Looks p) {Q : Except Err α → Making → Prop}
    (hQ : ∀ r m', m.Same m' → Q r m') : wp sem p Q m :=
  Worldly.wp_looks (W := worldly) hp fun r m' hsame => hQ r m' (.of_worldly hsame)

/-- A snapshot has been taken, and the VM has snapshots of these names. -/
def Has (m : Making) (vmID : String) (names : List String) : Prop :=
  m.taken = true ∧ m.world.Shows vmID names

theorem Has.same (h : m.Has vmID names) (hsame : m.Same m') : m'.Has vmID names :=
  ⟨hsame.taken.trans h.1, h.2.same hsame.world⟩

theorem Has.worldly (h : m.Has vmID names) :
    ∃ d, worldly.Has m vmID d ∧ d.snapshots.map SnapshotXML.name = names := by
  obtain ⟨-, hdistinct, d, hd, hnames⟩ := h
  exact ⟨d, ⟨hdistinct, hd⟩, hnames⟩

/-- Listing the snapshots that are there, in some order, if it can be done. -/
theorem wp_listSnapshots (h : m.Has vmID names) :
    wp sem (Manager.listSnapshots vmID) (fun r m' => m.Same m' ∧
      if m.listable then ∃ snaps, r = .ok snaps ∧ (snaps.map Snapshot.name).Perm names
      else ∃ e, r = .error e) m := by
  obtain ⟨d, hd, rfl⟩ := h.worldly
  refine wp_mono (fun r m' hr => ?_) (Worldly.wp_listSnapshots hd)
  obtain ⟨hsame, ⟨snaps, rfl, hlists, dom, x, hfits, hx⟩ | ⟨⟨e, rfl⟩, hnot⟩⟩ := hr
  · have hlistable : m.listable = true := by
      have hfail := hfits.2 h.1 rfl
      rwa [hx, eq_comm, Option.isSome_none, Bool.not_eq_false'] at hfail
    exact ⟨.of_worldly hsame, by rw [if_pos hlistable]; exact ⟨snaps, rfl, hlists.1⟩⟩
  · refine ⟨.of_worldly hsame, ?_⟩
    obtain ⟨dom, x, hfits, hx⟩ := hnot.resolve_left (not_not.mpr (worldly_sure h.1))
    have hlistable : m.listable = false := by
      have hfail := hfits.2 h.1 rfl
      rwa [Option.isSome_iff_ne_none.mpr hx, eq_comm, Bool.not_eq_true'] at hfail
    rw [hlistable]
    exact ⟨e, rfl⟩

/-- Making a snapshot adds its name. -/
theorem wp_createSnapshot (hdistinct : m.world.virt.Distinct) (spec : SnapshotSpec) :
    wp sem (Manager.createSnapshot vmID spec) (fun r m' => m'.world.virt.Distinct ∧
      ∀ snap, r = .ok snap → m'.listable = m.listable ∧
        ∃ names, m.world.Shows vmID names ∧ m'.Has vmID (names ++ [spec.name])) m := by
  refine wp_mono (fun r m' hr => ?_) (Worldly.wp_createSnapshot (W := worldly) hdistinct spec)
  obtain ⟨hdistinct', ⟨e, rfl⟩ | ⟨snap, d, xml, dom, x, rfl, hd, -, -, hd', hrest⟩⟩ := hr
  · exact ⟨hdistinct', fun snap h => by simp at h⟩
  · obtain ⟨hlistable, htaken⟩ := Prod.mk.inj hrest
    have hshows := World.Holds.shows hd'
    rw [Worldly.withSnapshot, List.map_append] at hshows
    exact ⟨hdistinct', fun _ _ => ⟨hlistable, _, World.Holds.shows hd, htaken.trans (Bool.or_true _), hshows⟩⟩

/-- So many snapshots are gone. -/
def Fewer (m' : Making) (vmID : String) (before gone : Nat) : Prop :=
  ∃ names, m'.Has vmID names ∧ names.length + gone = before

theorem fewer_of_without {d : Domain} {gone : List String} (h : worldly.Has m vmID d) (htaken : m.taken = true)
    (hrest : worldly.rest m' = worldly.rest m) (hleft : worldly.Has m' vmID (Worldly.without d gone))
    (hgone : gone.Nodup) (hsub : ∀ name ∈ gone, name ∈ d.snapshots.map SnapshotXML.name) :
    m'.Fewer vmID (d.snapshots.map SnapshotXML.name).length gone.length := by
  refine ⟨_, ⟨((Prod.mk.inj hrest).2).trans htaken, World.Holds.shows hleft⟩, ?_⟩
  rw [List.length_map, List.length_map]
  exact Worldly.length_without h.nodup hgone hsub

theorem wp_deleteEach {snaps : List Snapshot} (h : m.Has vmID names) (hsub : ∀ s ∈ snaps, s.name ∈ names)
    (hnodup : (snaps.map Snapshot.name).Nodup) : wp sem (QuotaManager.deleteEach vmID snaps)
      (fun r m' => r = .ok () ∧ m'.Fewer vmID names.length snaps.length) m := by
  obtain ⟨d, hd, rfl⟩ := h.worldly
  refine wp_mono (fun r m' hr => ?_) (Worldly.wp_deleteEach hd hsub hnodup)
  obtain ⟨rfl, hrest, gone, -, hleft, hall⟩ := hr
  obtain rfl := hall (worldly_sure h.1)
  have hfewer := fewer_of_without hd h.1 hrest hleft hnodup (List.forall_mem_map.mpr hsub)
  rw [List.length_map Snapshot.name] at hfewer
  exact ⟨rfl, hfewer⟩

theorem wp_deleteInTurn {snaps : List Snapshot} (h : m.Has vmID names) (hsub : ∀ s ∈ snaps, s.name ∈ names)
    (hnodup : (snaps.map Snapshot.name).Nodup) : wp sem (Scheduler.deleteInTurn vmID snaps)
      (fun r m' => r = .ok () ∧ m'.Fewer vmID names.length snaps.length) m := by
  obtain ⟨d, hd, rfl⟩ := h.worldly
  refine wp_mono (fun r m' hr => ?_) (Worldly.wp_deleteInTurn hd hsub hnodup)
  obtain ⟨hrest, ⟨rfl, hleft⟩ | ⟨-, hnot⟩⟩ := hr
  · have hfewer := fewer_of_without hd h.1 hrest hleft hnodup (List.forall_mem_map.mpr hsub)
    rw [List.length_map Snapshot.name] at hfewer
    exact ⟨rfl, hfewer⟩
  · exact absurd (worldly_sure h.1) hnot

theorem wp_trim {oldestFirst : QuotaManager.OldestFirst} {max : Int} (hmax : 0 < max) (h : m.Has vmID names) :
    wp sem (QuotaManager.trim oldestFirst max vmID) (fun r m' => r = .ok () ∧
      m'.Fewer vmID names.length (if m.listable then ((names.length : Int) - max).toNat else 0)) m := by
  unfold QuotaManager.trim
  rw [bind_eq, wp_bind, wp_attempt]
  refine wp_mono (fun r m' hr => ?_) (wp_listSnapshots h)
  obtain ⟨hsame, hr⟩ := hr
  have hhas := h.same hsame
  by_cases hlistable : m.listable = true
  swap
  · rw [if_neg hlistable] at hr ⊢
    obtain ⟨e, rfl⟩ := hr
    exact (wp_ret _ _ _).mpr ⟨rfl, names, hhas, rfl⟩
  rw [if_pos hlistable] at hr ⊢
  obtain ⟨snaps, rfl, hperm⟩ := hr
  have hlength : snaps.length = names.length := by
    rw [← hperm.length_eq, List.length_map]
  refine (wp_onlyIf _ _ _ _).mpr ⟨fun hover => ?_, fun hroom => ⟨rfl, names, hhas, by omega⟩⟩
  have hthere : ∀ s ∈ snaps, s.name ∈ names := fun s hs => hperm.mem_iff.mp (List.mem_map_of_mem hs)
  obtain ⟨hsub, hnodup⟩ := Worldly.oldest_there (oldestFirst.perm snaps) hthere (hperm.nodup_iff.mpr hhas.2.nodup)
    ((snaps.length : Int) - max).toNat
  have hdelete := wp_deleteEach hhas hsub hnodup
  rw [List.length_take, (oldestFirst.perm snaps).length_eq, hlength] at hdelete
  rw [hlength]
  rwa [Nat.min_eq_left (by omega)] at hdelete

/-- What a schedule's retention count has it delete. -/
def overRetention (s : Schedule) (names : List String) : Nat :=
  if 0 < s.retentionCount then
    (((names.filter fun name => Go.hasPrefix name (Scheduler.snapshotPrefix s)).length : Int) -
      s.retentionCount).toNat
  else 0

theorem wp_trimSnapshots {ownedFirst : Scheduler.OwnedFirst} {s : Schedule} (hcount : 0 < s.retentionCount)
    (h : m.Has vmID names) : wp sem (Scheduler.trimSnapshots ownedFirst s vmID)
      (fun _ m' => m'.Fewer vmID names.length (if m.listable then overRetention s names else 0)) m := by
  unfold Scheduler.trimSnapshots overRetention
  rw [if_pos hcount, bind_eq, wp_bind]
  refine wp_mono (fun r m' hr => ?_) (wp_listSnapshots h)
  obtain ⟨hsame, hr⟩ := hr
  have hhas := h.same hsame
  by_cases hlistable : m.listable = true
  swap
  · rw [if_neg hlistable] at hr ⊢
    obtain ⟨e, rfl⟩ := hr
    exact ⟨names, hhas, rfl⟩
  rw [if_pos hlistable] at hr ⊢
  obtain ⟨snaps, rfl, hperm⟩ := hr
  generalize Scheduler.snapshotPrefix s = start
  set owned := snaps.filter fun snap => Go.hasPrefix snap.name start with howned
  have hlength : (names.filter fun name => Go.hasPrefix name start).length = owned.length := by
    rw [← (hperm.filter _).length_eq, List.filter_map, List.length_map, howned]
    simp only [Function.comp_def]
  have hsub : ∀ s ∈ owned, s.name ∈ names := fun s hs =>
    hperm.mem_iff.mp (List.mem_map_of_mem (List.mem_filter.mp hs).1)
  have hnodup : (owned.map Snapshot.name).Nodup :=
    (hperm.nodup_iff.mpr hhas.2.nodup).sublist ((List.filter_sublist ..).map _)
  refine (wp_onlyIf _ _ _ _).mpr ⟨fun hover => ?_, fun hroom => ⟨names, hhas, ?_⟩⟩
  swap
  · have hroom : (owned.length : Int) ≤ s.retentionCount := not_not.mp hroom
    rw [hlength]
    omega
  replace hover : ¬ (owned.length : Int) ≤ s.retentionCount := hover
  obtain ⟨hsub, hnodup⟩ := Worldly.oldest_there (ownedFirst.perm owned) hsub hnodup
    ((owned.length : Int) - s.retentionCount).toNat
  have hdelete := wp_deleteInTurn hhas hsub hnodup
  rw [List.length_take, (ownedFirst.perm owned).length_eq, Nat.min_eq_left (by omega)] at hdelete
  rw [hlength]
  exact wp_mono (fun r m'' hr => hr.2) hdelete

end Making

namespace SnapshotCaller

open Making

variable {cfg : SnapshotConfig} {m m' : Making} {vmID : String}

/-- How many snapshots a creation deletes, when it has listed these. -/
def trimmed (cfg : SnapshotConfig) (names : List String) : SnapshotCaller → Nat
  | .api _ => ((names.length : Int) - cfg.maxSnapshotsPerVM).toNat
  | .schedule s _ => overRetention s names

/-- The name of the snapshot. -/
def name : SnapshotCaller → String
  | .api req => req.name
  | .schedule s scheduledTime => (Scheduler.autoSnapshot s scheduledTime).name

/-- How a creation leaves the snapshots of the VM. -/
def Leaves (cfg : SnapshotConfig) (vmID : String) (caller : SnapshotCaller) (m : Making) (made : Bool)
    (m' : Making) : Prop :=
  m'.world.virt.Distinct ∧ (made = true → ∃ names, m.world.Shows vmID names ∧
    m'.Fewer vmID (names.length + 1)
      (if m.listable then caller.trimmed cfg (names ++ [caller.name]) else 0))

theorem wp_quotaCreateSnapshot (hmax : 0 < cfg.maxSnapshotsPerVM) (hdistinct : m.world.virt.Distinct)
    (spec : SnapshotSpec) :
    wp sem (QuotaManager.createSnapshot cfg.oldestFirst cfg.maxSnapshotsPerVM vmID spec)
      (fun r m' => Leaves cfg vmID (.api spec) m (r.toOption.isSome) m') m := by
  unfold QuotaManager.createSnapshot
  rw [bind_eq, wp_bind]
  refine wp_mono (fun r m₁ hr => ?_) (wp_createSnapshot hdistinct spec)
  cases r with
  | error e => exact ⟨hr.1, fun h => by simp [Except.toOption] at h⟩
  | ok snap =>
      obtain ⟨hlistable, names, hshows, hhas⟩ := hr.2 snap rfl
      show wp _ (onlyIf _ _ >>= _) _ _
      rw [bind_eq, wp_bind]
      refine (wp_onlyIf _ _ _ _).mpr ⟨fun _ => ?_, fun hnot => absurd hmax hnot⟩
      refine wp_mono (fun r m₂ hr => ?_) (wp_trim hmax hhas)
      obtain ⟨rfl, left, hleft, hlength⟩ := hr
      refine (wp_ret _ _ _).mpr ⟨hleft.2.1, fun _ => ⟨names, hshows, left, hleft, ?_⟩⟩
      show left.length + (if m.listable then (((names ++ [spec.name]).length : Int) - _).toNat else 0) = _
      rw [List.length_append, List.length_singleton] at hlength ⊢
      rwa [hlistable] at hlength

theorem Leaves.same {caller : SnapshotCaller} {made : Bool} {m'' : Making}
    (h : caller.Leaves cfg vmID m made m') (hsame : m'.Same m'') : caller.Leaves cfg vmID m made m'' := by
  refine ⟨hsame.world.distinct h.1, fun hmade => ?_⟩
  obtain ⟨names, hshows, left, hleft, hlength⟩ := h.2 hmade
  exact ⟨names, hshows, left, hleft.same hsame, hlength⟩

theorem leaves_false {caller : SnapshotCaller} (h : m'.world.virt.Distinct) :
    caller.Leaves cfg vmID m false m' := ⟨h, fun hmade => by simp at hmade⟩

theorem looks_publish (vmID type message : String) (attributes : List (String × String)) :
    Only Cmd.Looks (Api.publishAppEvent type vmID message attributes) :=
  (only_perform (by exact trivial)).bind fun _ => only_perform (by exact trivial)

theorem looks_get (vmID : String) : Only Cmd.Looks (Manager.get vmID) := by
  refine (only_orFailed (only_perform (by exact trivial))).bind fun vm => Only.bind ?_ fun _ => .ret _
  refine (only_perform (by exact trivial)).bind fun r => ?_
  match r with
  | .error _ => exact .ret _
  | .ok dom =>
      refine Only.bind ?_ fun _ => (only_perform (by exact trivial)).bind fun _ => .ret _
      exact (only_perform (by exact trivial)).bind fun _ => .ret _

theorem wp_apiCreateSnapshot (hmax : 0 < cfg.maxSnapshotsPerVM) (hdistinct : m.world.virt.Distinct)
    (req : SnapshotSpec) :
    wp sem (Api.createSnapshot cfg.oldestFirst cfg.maxSnapshotsPerVM vmID req)
      (fun r m' => Leaves cfg vmID (.api req) m r.toOption.isSome m') m := by
  unfold Api.createSnapshot
  rw [bind_eq, wp_bind, wp_orFail]
  cases Api.validateCreateSnapshotRequest req.name req.description with
  | error e => exact leaves_false hdistinct
  | ok u =>
      show wp _ (orFail _ >>= _) _ _
      rw [bind_eq, wp_bind, wp_orFail]
      cases Api.normalizeSnapshotTags req.tags with
      | error e => exact leaves_false hdistinct
      | ok tags =>
          refine wp_bind.mpr (wp_mono (fun r m₁ hr => ?_)
            (wp_quotaCreateSnapshot hmax hdistinct { req with tags := tags }))
          cases r with
          | error e => exact leaves_false hr.1
          | ok snap =>
              refine wp_bind.mpr (wp_looks (looks_publish _ _ _ _) fun r m₂ hsame => ?_)
              cases r with
              | error e => exact leaves_false (hsame.world.distinct hr.1)
              | ok u => exact (wp_ret _ _ _).mpr (Leaves.same hr hsame)

theorem wp_snapshotAction (hdistinct : m.world.virt.Distinct) (s : Schedule) (scheduledTime : Nat) :
    wp sem (Scheduler.snapshotAction cfg.ownedFirst s vmID scheduledTime)
      (fun r m' => Leaves cfg vmID (.schedule s scheduledTime) m (r = .ok .done) m') m := by
  unfold Scheduler.snapshotAction
  rw [bind_eq, wp_bind, wp_attempt]
  refine wp_looks (looks_get vmID) fun r m₁ hsame => ?_
  have hdistinct₁ := hsame.world.distinct hdistinct
  cases r with
  | error e => exact (wp_ret _ _ _).mpr (leaves_false hdistinct₁)
  | ok vm =>
      refine wp_bind.mpr (wp_attempt.mpr (wp_mono (fun r m₂ hr => ?_)
        (wp_createSnapshot hdistinct₁ (Scheduler.autoSnapshot s scheduledTime))))
      cases r with
      | error e => exact (wp_ret _ _ _).mpr (leaves_false hr.1)
      | ok snap =>
          obtain ⟨hlistable, names, hshows, hhas⟩ := hr.2 snap rfl
          replace hshows := hshows.same hsame.world.symm
          replace hlistable := hlistable.trans hsame.listable
          have hleaves : ∀ {m₃ : Making}, m₃.Fewer vmID (names.length + 1) (if m.listable then
                overRetention s (names ++ [(Scheduler.autoSnapshot s scheduledTime).name]) else 0) →
              Leaves cfg vmID (.schedule s scheduledTime) m true m₃ := fun h => by
            obtain ⟨left, hleft, -⟩ := id h
            exact ⟨hleft.2.1, fun _ => ⟨names, hshows, h⟩⟩
          refine wp_bind.mpr ((wp_onlyIf _ _ _ _).mpr ⟨fun hcount => ?_, fun hcount => ?_⟩)
          · refine wp_bind.mpr (wp_attempt.mpr (wp_mono (fun r m₃ hr => ?_) (wp_trimSnapshots hcount hhas)))
            rw [List.length_append, List.length_singleton, hlistable] at hr
            exact (wp_ret _ _ _).mpr ((wp_ret _ _ _).mpr (by simpa using hleaves hr))
          · have hall : m₂.Fewer vmID (names.length + 1) (if m.listable then
                overRetention s (names ++ [(Scheduler.autoSnapshot s scheduledTime).name]) else 0) := by
              refine ⟨_, hhas, ?_⟩
              rw [overRetention, if_neg hcount, ite_self, List.length_append]
              rfl
            exact (wp_ret _ _ _).mpr (by simpa using hleaves hall)

/-- **What a creation leaves**, whoever makes it and whatever its commands are answered. -/
theorem body_leaves (hmax : 0 < cfg.maxSnapshotsPerVM) (hdistinct : m.world.virt.Distinct)
    (caller : SnapshotCaller) : wp sem (caller.body cfg vmID)
      (fun r m' => caller.Leaves cfg vmID m (r = .ok true) m') m := by
  cases caller with
  | api req =>
      refine wp_bind.mpr (wp_mono (fun r m' hr => ?_) (wp_apiCreateSnapshot hmax hdistinct req))
      cases r with
      | error e => exact leaves_false hr.1
      | ok snap => exact (wp_ret _ _ _).mpr hr
  | schedule s scheduledTime =>
      refine wp_bind.mpr (wp_mono (fun r m' hr => ?_) (wp_snapshotAction hdistinct s scheduledTime))
      cases r with
      | error e => exact leaves_false hr.1
      | ok result => exact (wp_ret _ _ _).mpr (by simpa using hr)

end SnapshotCaller

/-- The condition on a creation: the snapshots are few enough, with what it deletes if it can
list them. -/
def SnapshotCaller.Within (cfg : SnapshotConfig) (vmID : String) (w : World) (listable : Bool) :
    SnapshotCaller → Prop
  | .api _ => listable = true ∨ ((w.snapshotNames vmID).length : Int) + 1 ≤ cfg.maxSnapshotsPerVM
  | caller@(.schedule _ _) => ((w.snapshotNames vmID).length : Int) + 1 ≤ cfg.maxSnapshotsPerVM +
      if listable then caller.trimmed cfg (w.snapshotNames vmID ++ [caller.name]) else 0

namespace SnapshotSys

variable {cfg : SnapshotConfig} {s s' : SnapshotSys}

def init (w : KeptWorld) : SnapshotSys := { world := w.toWorld }

/-- A creation that is through. -/
theorem create_leaves (hmax : 0 < cfg.maxSnapshotsPerVM) (hs : s.world.virt.Distinct) {vmID : String}
    {caller : SnapshotCaller} {listable : Bool} {answers : List Choice}
    (h : step cfg s (.create vmID caller listable answers) = some s') :
    ∃ m, m.world = s'.world ∧ caller.Leaves cfg vmID { world := s.world, listable := listable }
      (s'.made = some vmID) m := by
  obtain ⟨⟨res, m⟩, hrun, rfl⟩ := Option.map_eq_some_iff.mp h
  have hleaves := wp_sound (@SnapshotCaller.body_leaves cfg _ vmID hmax hs caller) (runs_of_run hrun)
  have hmade : decide ((if res = .ok true then some vmID else none) = some vmID) =
      decide (res = .ok true) := by
    by_cases hres : res = .ok true
    · simp [hres]
    · simp [hres]
  exact ⟨m, rfl, hmade ▸ hleaves⟩

theorem distinct_step (hmax : 0 < cfg.maxSnapshotsPerVM) (s : SnapshotSys) (l : SnapshotLabel)
    (s' : SnapshotSys) (hs : s.world.virt.Distinct) (h : step cfg s l = some s') : s'.world.virt.Distinct := by
  cases l with
  | other w =>
      obtain rfl := Option.some.inj h
      exact w.distinct
  | create vmID caller listable answers =>
      obtain ⟨m, hm, hleaves⟩ := create_leaves hmax hs h
      exact hm ▸ hleaves.1

/-- **The cap on snapshots** holds after a creation, in any run, just when the creation is within
it: the API's are when they can list the snapshots, a schedule's when its own retention count sees
to it. -/
theorem snapshots_capped (cfg : SnapshotConfig) (hmax : 0 < cfg.maxSnapshotsPerVM) (w : KeptWorld)
    (ls : List SnapshotLabel) (s : SnapshotSys) (h : Run.exec (step cfg) (init w) ls = some s)
    (vmID : String) (caller : SnapshotCaller) (listable : Bool) (answers : List Choice) (s' : SnapshotSys)
    (hcreate : step cfg s (.create vmID caller listable answers) = some s') (hmade : s'.made = some vmID) :
    ((s'.world.snapshotNames vmID).length : Int) ≤ cfg.maxSnapshotsPerVM ↔
      caller.Within cfg vmID s.world listable := by
  have hdistinct : s.world.virt.Distinct :=
    Run.exec_invariant (fun s => s.world.virt.Distinct) (fun s l s' hs _ => distinct_step hmax s l s' hs)
      ls _ s w.distinct (Run.guarded_true _ _) h
  obtain ⟨m, hm, -, hleaves⟩ := create_leaves hmax hdistinct hcreate
  obtain ⟨names, hshows, left, hleft, hlength⟩ := hleaves (by simpa using hmade)
  rw [← hm, hleft.2.snapshotNames]
  have hbefore : s.world.snapshotNames vmID = names := hshows.snapshotNames
  cases caller with
  | api req =>
      have htrimmed : (SnapshotCaller.api req).trimmed cfg (names ++ [req.name]) =
          ((names.length : Int) + 1 - cfg.maxSnapshotsPerVM).toNat := by
        simp [SnapshotCaller.trimmed]
      rw [SnapshotCaller.name, htrimmed] at hlength
      simp only [SnapshotCaller.Within, hbefore]
      cases listable with
      | true =>
          simp only [if_true] at hlength
          exact ⟨fun _ => .inl rfl, fun _ => by omega⟩
      | false =>
          simp only [Bool.false_eq_true, if_false] at hlength
          rw [or_iff_right Bool.false_ne_true]
          omega
  | schedule sched scheduledTime =>
      simp only [SnapshotCaller.Within, hbefore]
      cases listable with
      | true =>
          simp only [if_true] at hlength ⊢
          omega
      | false =>
          simp only [Bool.false_eq_true, if_false] at hlength ⊢
          omega

/-! ### A VM with room for one snapshot -/

/-- The creation time, the zero time below every other. -/
def madeAt (a : Snapshot) : WithBot Nat := a.createdAt

theorem before_eq (a b : Snapshot) : a.before b = decide (madeAt a < madeAt b) := by
  unfold Snapshot.before madeAt
  cases a.createdAt with
  | none =>
      cases b.createdAt with
      | none => exact (decide_eq_false (lt_irrefl (⊥ : WithBot Nat))).symm
      | some t => exact (decide_eq_true (WithBot.bot_lt_coe t)).symm
  | some s =>
      cases b.createdAt with
      | none => exact (decide_eq_false (not_lt_bot (a := (s : WithBot Nat)))).symm
      | some t => exact decide_eq_decide.mpr WithBot.coe_lt_coe.symm

theorem olderOrNamedFirst_eq (a b : Snapshot) :
    Scheduler.olderOrNamedFirst a b = decide (toLex (madeAt a, a.name) < toLex (madeAt b, b.name)) := by
  unfold Scheduler.olderOrNamedFirst
  by_cases heq : a.createdAt = b.createdAt
  · have hmade : madeAt a = madeAt b := heq
    rw [if_pos heq]
    refine decide_eq_decide.mpr (Iff.trans ?_ Prod.Lex.toLex_lt_toLex.symm)
    exact ⟨fun h => .inr ⟨hmade, h⟩, fun h => h.elim (fun h => absurd h hmade.not_lt) And.right⟩
  · rw [if_neg heq, before_eq]
    refine decide_eq_decide.mpr (Iff.trans ?_ Prod.Lex.toLex_lt_toLex.symm)
    exact ⟨.inl, fun h => h.elim id fun h => absurd h.1 heq⟩

def oneSnapshot : SnapshotConfig where
  maxSnapshotsPerVM := 1
  oldestFirst := Go.SliceSort.byKey madeAt before_eq
  ownedFirst := Go.SliceSort.byKey (fun a => toLex (madeAt a, a.name)) olderOrNamedFirst_eq

def webWorld : KeptWorld where
  toWorld := World.single webVM .running
  distinct := ⟨by decide, by decide, fun d hd => by
    obtain rfl := List.mem_singleton.mp hd
    decide⟩

/-- A request for a snapshot, all of whose `n` commands do what they are asked. -/
def manual (name : String) (n : Nat) : SnapshotLabel :=
  .create "vm-1" (.api { name := name }) true (List.replicate n { nat := 1 })

/-- A schedule that keeps all its snapshots. -/
def hourly : Schedule where
  id := "sched-1"
  name := "hourly"
  vmID := "vm-1"
  action := .snapshot
  cronSpec := "@hourly"

/-- Its creation, all of whose commands do what they are asked. -/
def onTheHour : SnapshotLabel := .create "vm-1" (.schedule hourly 1136214245) true (List.replicate 9 {})

/-- A snapshot, and another in its place. -/
theorem snapshots_capped_manual : ∃ s s', Run.exec (step oneSnapshot) (init webWorld) [manual "one" 11] = some s ∧
    step oneSnapshot s (manual "two" 17) = some s' ∧ s'.world.snapshotNames "vm-1" = ["two"] ∧
    ((s'.world.snapshotNames "vm-1").length : Int) ≤ oneSnapshot.maxSnapshotsPerVM := by
  have hrun : (Run.exec (step oneSnapshot) (init webWorld) [manual "one" 11]).any (fun s =>
      (step oneSnapshot s (manual "two" 17)).any fun s' =>
        s'.made = some "vm-1" && s'.world.snapshotNames "vm-1" = ["two"]) = true := by
    decide +kernel
  obtain ⟨s, hs, h⟩ := (Option.any_eq_true _ _).mp hrun
  obtain ⟨s', hs', h⟩ := (Option.any_eq_true _ _).mp h
  simp only [Bool.and_eq_true, decide_eq_true_eq] at h
  exact ⟨s, s', hs, hs', h.2, (snapshots_capped oneSnapshot (by decide) webWorld _ s hs "vm-1"
    (.api { name := "two" }) true _ s' hs' h.1).mpr (.inl rfl)⟩

/-- A snapshot, and another beside it. -/
theorem snapshots_notCapped : ∃ s s', Run.exec (step oneSnapshot) (init webWorld) [manual "one" 11] = some s ∧
    step oneSnapshot s onTheHour = some s' ∧ s'.made = some "vm-1" ∧
    ¬ ((s'.world.snapshotNames "vm-1").length : Int) ≤ oneSnapshot.maxSnapshotsPerVM := by
  have hrun : (Run.exec (step oneSnapshot) (init webWorld) [manual "one" 11]).any (fun s =>
      (step oneSnapshot s onTheHour).any fun s' =>
        s'.made = some "vm-1" && (s'.world.snapshotNames "vm-1").length = 2) = true := by
    decide +kernel
  obtain ⟨s, hs, h⟩ := (Option.any_eq_true _ _).mp hrun
  obtain ⟨s', hs', h⟩ := (Option.any_eq_true _ _).mp h
  simp only [Bool.and_eq_true, decide_eq_true_eq] at h
  exact ⟨s, s', hs, hs', h.1, by rw [h.2]; decide⟩

end SnapshotSys

end VMSmith

/-
What the quota manager's creation of a snapshot leaves.

The snapshot is taken first, and then as many as are over the limit are deleted, in the order the
listing has them in.  Nothing in it tells the new snapshot from the others: of those listed with
the same second any may come first.  So it stays for sure just when enough others are older.
-/
import VMSmith.VM.SnapshotWorld
import VMSmith.Proofs.SnapshotCap

namespace VMSmith

open Prog SnapshotSys

namespace SnapshotTerms

variable {q : SnapshotTerms} {vmID : String}

theorem listed_createdAt (y : SnapshotXML) :
    (q.listed vmID y).createdAt = if q.described y.name then some y.creationTime else none := by
  unfold listed Manager.snapshotEntry
  by_cases h : q.described y.name = true
  · simp [h]
  · simp [h]

end SnapshotTerms

/-- What a listing is sorted by. -/
def Snapshot.stamp (a : Snapshot) : WithBot Nat × String := (madeAt a, a.name)

namespace SnapshotWorld

def worldly : Worldly SnapshotWorld SnapshotTerms where
  exec := exec
  world := SnapshotWorld.world
  rest := SnapshotWorld.terms
  fits := fun q c x => q.fits c x = true
  next := fun q _ _ => q
  exec_eq := fun {c x s r s'} h => by
    unfold exec at h
    split_ifs at h with hfits
    obtain ⟨⟨r', w⟩, hexec, heq⟩ := Option.map_eq_some_iff.mp h
    obtain ⟨rfl, rfl⟩ := Prod.mk.inj heq
    exact ⟨hfits, hexec, rfl⟩
  next_eq := fun _ _ _ _ => rfl

variable {t t' : SnapshotWorld} {q : SnapshotTerms} {vmID : String} {d : Domain}

theorem sure_of_faultless (h : q.faults = false) : worldly.Sure q := by
  intro c x hc hfits
  have hplain : q.fits c x = (q.faults || x.fail.isNone) := by
    unfold Making.deletes at hc
    split at hc
    all_goals first
      | rfl
      | simp at hc
  rw [show worldly.fits q c x = (q.fits c x = true) from rfl, hplain, h, Bool.false_or] at hfits
  simpa using hfits

theorem snapshots_eq (h : worldly.Has t vmID d) : t.snapshots vmID = d.snapshots := by
  have hd : t.world.domainFor vmID = some d := h.2
  unfold snapshots
  rw [hd]
  rfl

/-! ### Listings -/

section Listings

variable {snaps : List SnapshotXML} {listing : List Snapshot}

/-- The stamp of the one with this name. -/
def stampNamed (q : SnapshotTerms) (vmID : String) (snaps : List SnapshotXML) (name : String) :
    WithBot Nat × String :=
  ((snaps.find? fun y => y.name = name).map fun y => (q.listed vmID y).stamp).getD (⊥, name)

theorem stampNamed_eq (hnodup : (snaps.map SnapshotXML.name).Nodup) {y : SnapshotXML} (hy : y ∈ snaps) :
    stampNamed q vmID snaps y.name = (q.listed vmID y).stamp := by
  obtain ⟨z, hz⟩ : ∃ z, snaps.find? (fun z => z.name = y.name) = some z := by
    rw [← Option.isSome_iff_exists, List.find?_isSome]
    exact ⟨y, hy, by simp⟩
  have hname : z.name = y.name := by simpa using List.find?_some hz
  unfold stampNamed
  rw [hz, VirtState.mem_unique hnodup (List.mem_of_find?_eq_some hz) hy hname]
  rfl

theorem stamp_of_listed (vmID : String) (h : worldly.Lists q snaps listing) {a : Snapshot} (ha : a ∈ listing) :
    ∃ y ∈ snaps, y.name = a.name ∧ a.stamp = (q.listed vmID y).stamp := by
  obtain ⟨y, hy, hname, dom, x, hfits, hcreated⟩ := h.2 a ha
  refine ⟨y, hy, hname, Prod.ext ?_ hname.symm⟩
  have hdescribed : x.fail.isNone = q.described y.name := by
    have h : (x.fail.isNone == q.described y.name) = true := hfits
    simpa using h
  have hsome : x.fail.isSome = !q.described y.name := by
    rw [← hdescribed, Option.not_isNone]
  show a.createdAt = (q.listed vmID y).createdAt
  rw [hcreated, SnapshotTerms.listed_createdAt, hsome]
  cases q.described y.name with
  | true => rfl
  | false => rfl

/-- A listing has the stamps of the snapshots, in some order. -/
theorem stamps_perm (vmID : String) (hnodup : (snaps.map SnapshotXML.name).Nodup)
    (h : worldly.Lists q snaps listing) :
    (listing.map Snapshot.stamp).Perm (snaps.map fun y => (q.listed vmID y).stamp) := by
  have hlisting : listing.map Snapshot.stamp =
      (listing.map Snapshot.name).map (stampNamed q vmID snaps) := by
    rw [List.map_map]
    refine List.map_congr_left fun a ha => ?_
    obtain ⟨y, hy, hname, hstamp⟩ := stamp_of_listed vmID h ha
    rw [hstamp, ← stampNamed_eq hnodup hy, hname]
    rfl
  have hsnaps : (snaps.map fun y => (q.listed vmID y).stamp) =
      (snaps.map SnapshotXML.name).map (stampNamed q vmID snaps) := by
    rw [List.map_map]
    exact List.map_congr_left fun y hy => (stampNamed_eq hnodup hy).symm
  rw [hlisting, hsnaps]
  exact h.1.map _

theorem length_filter_stamp (vmID : String) (hnodup : (snaps.map SnapshotXML.name).Nodup)
    (h : worldly.Lists q snaps listing) (p : WithBot Nat × String → Bool) :
    (listing.filter fun a => p a.stamp).length = (snaps.filter fun y => p (q.listed vmID y).stamp).length := by
  have hcount := (stamps_perm vmID hnodup h).countP_eq p
  rw [List.countP_map, List.countP_map, List.countP_eq_length_filter, List.countP_eq_length_filter] at hcount
  exact hcount

theorem length_older (vmID : String) (hnodup : (snaps.map SnapshotXML.name).Nodup)
    (h : worldly.Lists q snaps listing) {a : Snapshot} {y : SnapshotXML}
    (hstamp : a.stamp = (q.listed vmID y).stamp) :
    (listing.filter (·.before a)).length = (q.older vmID y snaps).length := by
  have hbefore : ∀ b c : Snapshot, b.before c = decide (b.stamp.1 < c.stamp.1) := before_eq
  unfold SnapshotTerms.older
  simp only [hbefore, hstamp]
  exact length_filter_stamp vmID hnodup h fun s => decide (s.1 < (q.listed vmID y).stamp.1)

end Listings

/-! ### What is over the limit -/

/-- How many snapshots of so many are over the limit; no positive limit is none. -/
def excess (max : Int) (n : Nat) : Nat := if 0 < max then ((n : Int) - max).toNat else 0

/-- Of `all` snapshots, the last of them `new`, some are `left`: `new` and the others, except
that of those over the limit some of the oldest may be gone. -/
structure EvictsOldest (q : SnapshotTerms) (vmID : String) (max : Int) (new : SnapshotXML)
    (all left : List SnapshotXML) : Prop where
  kept : new ∈ left
  sublist : left.Sublist all
  few : all.length ≤ left.length + excess max all.length
  oldest : ∀ y ∈ all, y ∉ left → (q.older vmID y all).length < excess max all.length

theorem wp_trim {oldestFirst : QuotaManager.OldestFirst} {max : Int} (hmax : 0 < max)
    (h : worldly.Has t vmID d) : wp sem (QuotaManager.trim oldestFirst max vmID) (fun r t' => r = .ok () ∧
      ((t.terms.faults = true ∧ worldly.Has t' vmID d) ∨ ∃ listing gone, worldly.Lists t.terms d.snapshots listing ∧
        gone.Sublist (((oldestFirst.sort listing).take (excess max d.snapshots.length)).map Snapshot.name) ∧
        worldly.Has t' vmID (Worldly.without d gone) ∧ (t.terms.faults = false →
          gone = ((oldestFirst.sort listing).take (excess max d.snapshots.length)).map Snapshot.name))) t := by
  unfold QuotaManager.trim
  rw [bind_eq, wp_bind, wp_attempt]
  refine wp_mono (fun r t₁ hr => ?_) (Worldly.wp_listSnapshots h)
  obtain ⟨hsame, ⟨listing, rfl, hlists, -⟩ | ⟨⟨e, rfl⟩, hnot⟩⟩ := hr
  swap
  · refine (wp_ret _ _ _).mpr ⟨rfl, .inl ⟨?_, h.same hsame⟩⟩
    by_contra hfaults
    rw [Bool.not_eq_true] at hfaults
    obtain ⟨dom, x, hfits, hx⟩ := hnot.resolve_left (not_not.mpr (sure_of_faultless hfaults))
    have hnone : (t.terms.faults || x.fail.isNone) = true := hfits
    rw [hfaults, Bool.false_or, Option.isNone_iff_eq_none] at hnone
    exact hx hnone
  have hlength : listing.length = d.snapshots.length := by
    have := hlists.1.length_eq
    rwa [List.length_map, List.length_map] at this
  have hexcess : excess max d.snapshots.length = ((listing.length : Int) - max).toNat := by
    rw [excess, if_pos hmax, hlength]
  rw [hexcess]
  refine (wp_onlyIf _ _ _ _).mpr ⟨fun hover => ?_, fun hroom => ⟨rfl, .inr ⟨listing, [], hlists, ?_, ?_, fun _ => ?_⟩⟩⟩
  · have hthere : ∀ a ∈ listing, a.name ∈ d.snapshots.map SnapshotXML.name := fun a ha =>
      hlists.1.mem_iff.mp (List.mem_map_of_mem ha)
    obtain ⟨hsub, hnodup⟩ := Worldly.oldest_there (oldestFirst.perm listing) hthere
      (hlists.1.nodup_iff.mpr h.nodup) ((listing.length : Int) - max).toNat
    refine wp_mono (fun r t₂ hr => ?_) (Worldly.wp_deleteEach (h.same hsame) hsub hnodup)
    obtain ⟨rfl, -, gone, hgone, hleft, hall⟩ := hr
    exact ⟨rfl, .inr ⟨listing, gone, hlists, hgone, hleft, fun hfaults =>
      hall (sure_of_faultless (hsame.rest ▸ hfaults))⟩⟩
  · exact List.nil_sublist _
  · have hnone : Worldly.without d [] = d := by simp [Worldly.without]
    rw [hnone]
    exact h.same hsame
  · rw [show ((listing.length : Int) - max).toNat = 0 by omega]
    rfl

section Evicts

variable {max : Int} {oldestFirst : QuotaManager.OldestFirst} {listing : List Snapshot} {gone : List String}

theorem before_irrefl (a : Snapshot) : a.before a = false := by
  rw [before_eq]
  exact decide_eq_false (lt_irrefl _)

/-- What is gone had fewer older ones than there were over the limit. -/
theorem older_of_gone (vmID : String) (hnodup : (d.snapshots.map SnapshotXML.name).Nodup)
    (hlists : worldly.Lists q d.snapshots listing)
    (hgone : gone.Sublist (((oldestFirst.sort listing).take (excess max d.snapshots.length)).map Snapshot.name))
    {y : SnapshotXML} (hy : y ∈ d.snapshots) (hname : y.name ∈ gone) :
    (q.older vmID y d.snapshots).length < excess max d.snapshots.length := by
  obtain ⟨a, ha, heq⟩ := List.mem_map.mp (hgone.subset hname)
  have hmem : a ∈ listing := (oldestFirst.perm listing).mem_iff.mp (List.mem_of_mem_take ha)
  obtain ⟨z, hz, hzname, hstamp⟩ := stamp_of_listed vmID hlists hmem
  obtain rfl : z = y := VirtState.mem_unique hnodup hz hy (hzname.trans heq)
  rw [← length_older vmID hnodup hlists hstamp]
  exact oldestFirst.fewer_less before_irrefl ha

theorem evictsOldest (hnodup : (d.snapshots.map SnapshotXML.name).Nodup)
    (hlists : worldly.Lists q d.snapshots listing)
    (hgone : gone.Sublist (((oldestFirst.sort listing).take (excess max d.snapshots.length)).map Snapshot.name))
    {new : SnapshotXML} (hnew : new ∈ d.snapshots)
    (hclear : excess max d.snapshots.length ≤ (q.older vmID new d.snapshots).length) :
    EvictsOldest q vmID max new d.snapshots (Worldly.without d gone).snapshots := by
  have hthere : ∀ name ∈ gone, name ∈ d.snapshots.map SnapshotXML.name := fun name hname => by
    obtain ⟨a, ha, rfl⟩ := List.mem_map.mp (hgone.subset hname)
    have hmem : a ∈ listing := (oldestFirst.perm listing).mem_iff.mp (List.mem_of_mem_take ha)
    exact hlists.1.mem_iff.mp (List.mem_map_of_mem hmem)
  have hlisting : (listing.map Snapshot.name).Nodup := hlists.1.nodup_iff.mpr hnodup
  have hgoneNodup : gone.Nodup := by
    refine List.Nodup.sublist hgone ?_
    rw [List.map_take]
    exact (((oldestFirst.perm listing).map _).nodup_iff.mpr hlisting).sublist (List.take_sublist _ _)
  refine ⟨List.mem_filter.mpr ⟨hnew, ?_⟩, List.filter_sublist .., ?_, fun y hy hleft => ?_⟩
  · rw [decide_eq_true_eq]
    intro hname
    have := older_of_gone vmID hnodup hlists hgone hnew hname
    omega
  · have hlength := Worldly.length_without hnodup hgoneNodup hthere
    have hfew := hgone.length_le
    rw [List.length_map, List.length_take] at hfew
    omega
  · refine older_of_gone vmID hnodup hlists hgone hy ?_
    by_contra hname
    exact hleft (List.mem_filter.mpr ⟨hy, by simpa using hname⟩)

end Evicts

/-! ### Trims come to their end -/

/-- The commands of a trim. -/
def Trims : Cmd → Prop
  | .store (.getVM _) | .store (.listSnapshotTags _) | .store (.deleteSnapshotTags _ _) => True
  | .virt (.lookupDomainByName _) | .virt (.listSnapshots _) | .virt (.snapshotXML _ _ _)
  | .virt (.snapshotLookup _ _) | .virt (.deleteSnapshot _ _) => True
  | _ => False

theorem fallible_answers {σ α : Type} (x : Choice) (s : σ) (act : Except Err (α × σ)) :
    ∃ r s', fallible x s act = some (r, s') := by
  unfold fallible
  cases x.fail with
  | some e => exact ⟨_, _, rfl⟩
  | none =>
      cases act with
      | error e => exact ⟨_, _, rfl⟩
      | ok p => exact ⟨_, _, rfl⟩

theorem trims_answered (c : Cmd) (t : SnapshotWorld) (hc : Trims c) : ∃ r t', sem.next t c r t' := by
  have hanswer : ∀ x, t.terms.fits c x = true → (∃ r w, World.exec c x t.world = some (r, w)) →
      ∃ r t', sem.next t c r t' := by
    rintro x hfits ⟨r, w, hexec⟩
    refine ⟨r, { t with world := w }, x, ?_⟩
    unfold exec
    rw [if_pos hfits, hexec]
    rfl
  have hstore : ∀ (c : StoreCmd) (x : Choice), (∃ r s, t.world.store.exec x c = some (r, s)) →
      ∃ r w, World.exec (.store c) x t.world = some (r, w) := by
    rintro c x ⟨r, s, h⟩
    exact ⟨r, { t.world with store := s }, by simp [World.exec, h]⟩
  have hvirt : ∀ (c : VirtCmd) (x : Choice), (∃ r v, t.world.virt.exec x c = some (r, v)) →
      ∃ r w, World.exec (.virt c) x t.world = some (r, w) := by
    rintro c x ⟨r, v, h⟩
    exact ⟨r, { t.world with virt := v }, by simp [World.exec, h]⟩
  cases c with
  | net c | file c | host c => exact hc.elim
  | store c =>
      cases c with
      | getVM id | listSnapshotTags vmID | deleteSnapshotTags vmID name =>
          refine hanswer {} (Bool.or_true _) (hstore _ _ ?_)
          unfold StoreState.exec
          exact fallible_answers _ _ _
      | _ => exact hc.elim
  | virt c =>
      cases c with
      | lookupDomainByName name | listSnapshots dom | snapshotLookup dom name | deleteSnapshot dom name =>
          refine hanswer {} (Bool.or_true _) (hvirt _ _ ?_)
          unfold VirtState.exec
          exact fallible_answers _ _ _
      | snapshotXML dom name secure =>
          have hexec : ∀ x, ∃ r v, t.world.virt.exec x (.snapshotXML dom name secure) = some (r, v) := by
            intro x
            unfold VirtState.exec
            exact fallible_answers _ _ _
          by_cases hdescribed : t.terms.described name = true
          · exact hanswer {} (by simp [SnapshotTerms.fits, hdescribed]) (hvirt _ _ (hexec _))
          · refine hanswer { fail := some (.ext "") } ?_ (hvirt _ _ (hexec _))
            simp [SnapshotTerms.fits, hdescribed]
      | _ => exact hc.elim

theorem trims_deleteSnapshot (vmID name : String) : Only Trims (Manager.deleteSnapshot vmID name) := by
  refine (only_orFailed (only_perform (by exact trivial))).bind fun vm => ?_
  refine (only_wrapped (only_perform (by exact trivial)) _).bind fun dom => ?_
  refine (only_wrapped (only_perform (by exact trivial)) _).bind fun _ => ?_
  refine (only_orFailed (only_perform (by exact trivial))).bind fun _ => ?_
  exact (only_perform (by exact trivial)).bind fun _ => .ret _

theorem trims_listSnapshots (vmID : String) : Only Trims (Manager.listSnapshots vmID) := by
  refine (only_orFailed (only_perform (by exact trivial))).bind fun vm => ?_
  refine (only_wrapped (only_perform (by exact trivial)) _).bind fun dom => ?_
  refine (only_wrapped (only_perform (by exact trivial)) _).bind fun names => ?_
  refine (only_perform (by exact trivial)).bind fun tags => ?_
  induction names with
  | nil => exact .ret _
  | cons name names ih => exact (only_perform (by exact trivial)).bind fun raw => ih.bind fun _ => .ret _

theorem trims_deleteEach (vmID : String) (snaps : List Snapshot) :
    Only Trims (QuotaManager.deleteEach vmID snaps) := by
  induction snaps with
  | nil => exact .ret _
  | cons snap snaps ih => exact (trims_deleteSnapshot _ _).attempt.bind fun _ => ih

theorem trims_trim (oldestFirst : QuotaManager.OldestFirst) (max : Int) (vmID : String) :
    Only Trims (QuotaManager.trim oldestFirst max vmID) := by
  refine (trims_listSnapshots vmID).attempt.bind fun r => ?_
  match r with
  | .error e => exact .ret _
  | .ok snaps => exact only_onlyIf fun _ => trims_deleteEach _ _

/-! ### Runs -/

/-- The snapshot a request has libvirt take. -/
def taken (spec : SnapshotSpec) (second : Nat) (xml : DomainXML) : SnapshotXML :=
  { name := spec.name, description := spec.description, creationTime := second, definition := xml }

/-- A snapshot can be made of a VM that has a domain, under a name that is free. -/
theorem runs_createSnapshot (h : worldly.Has t vmID d) {xml : DomainXML} (hxml : d.definition = some xml)
    {spec : SnapshotSpec} (hfresh : spec.name ∉ d.snapshots.map SnapshotXML.name) :
    ∃ snap t', Runs sem (Manager.createSnapshot vmID spec) t (.ok snap) t' := by
  obtain ⟨vm, hvm, hfind⟩ := Option.bind_eq_some_iff.mp h.2
  have hget : Runs sem (getVM vmID) t (.ok vm) t := by
    refine .call (r := .ok vm) (u := t) ⟨{}, ?_⟩ (.ret vm t)
    have hvm' : t.world.store.vms.get? vmID = some vm := hvm
    simp [exec, SnapshotTerms.fits, World.exec, StoreState.exec, fallible, hvm']
  have hlookup : Runs sem (virtCall (.lookupDomainByName vm.name) >>= orWrap "looking up domain") t
      (.ok d.uuid) t := by
    refine .call (r := .ok d.uuid) (u := t) ⟨{}, ?_⟩ (.ret d.uuid t)
    have hfind' : t.world.virt.findName? vm.name = some d := hfind
    simp [exec, SnapshotTerms.fits, World.exec, VirtState.exec, fallible, hfind']
  obtain ⟨t₁, htake⟩ : ∃ t₁, Runs sem
      (virtCall (.createSnapshot d.uuid spec.name spec.description) >>= orWrap "creating snapshot") t
      (.ok ()) t₁ := by
    have hdom : t.world.virt.find? d.uuid = some d := World.Holds.find? h
    obtain ⟨v, hvirt⟩ : ∃ v, t.world.virt.exec { nat := t.terms.second }
        (.createSnapshot d.uuid spec.name spec.description) = some (.ok (), v) := by
      unfold VirtState.exec fallible VirtState.onDomain
      simp only [hdom, hxml, if_neg hfresh]
      exact ⟨_, rfl⟩
    refine ⟨_, .call (r := .ok ()) (u := { t with world := { t.world with virt := v } })
      ⟨{ nat := t.terms.second }, ?_⟩ (.ret () _)⟩
    simp [exec, SnapshotTerms.fits, World.exec, hvirt]
  obtain ⟨t₂, htags⟩ : ∃ t₂, Runs sem (onlyIf (spec.tags ≠ []) do
      storeCall (.putSnapshotTags vmID spec.name spec.tags) >>= orWrap "persisting snapshot tags") t₁ (.ok ()) t₂ := by
    unfold onlyIf
    split_ifs
    · obtain ⟨st, hstore⟩ : ∃ st, t₁.world.store.exec {} (.putSnapshotTags vmID spec.name spec.tags) =
          some (.ok (), st) := ⟨_, rfl⟩
      refine ⟨_, .call (r := .ok ()) (u := { t₁ with world := { t₁.world with store := st } }) ⟨{}, ?_⟩ (.ret () _)⟩
      simp [exec, SnapshotTerms.fits, World.exec, hstore]
    · exact ⟨_, .ret () _⟩
  obtain ⟨n, t₃, hnow⟩ : ∃ n t₃, Runs sem (now : M Nat) t₂ (.ok n) t₃ := by
    refine ⟨_, _, .call (r := t₂.world.host.clock) (u := t₂) ⟨{}, ?_⟩ (.ret _ _)⟩
    simp [exec, SnapshotTerms.fits, World.exec, HostState.exec]
  exact ⟨_, _, hget.bind (hlookup.bind (htake.bind (htags.bind (hnow.bind (.ret _ _)))))⟩

/-- A sort that has a snapshot come first of those of its second. -/
def firstOfItsSecond (name : String) : QuotaManager.OldestFirst :=
  Go.SliceSort.byFinerKey (fun a => toLex (madeAt a, decide (a.name ≠ name))) fun a b h => by
    rw [before_eq, decide_eq_true_eq] at h
    exact Prod.Lex.toLex_lt_toLex.mpr (.inl h)

theorem mem_firstOfItsSecond (vmID : String) {snaps : List SnapshotXML} {listing : List Snapshot} {new : SnapshotXML}
    (hnodup : (snaps.map SnapshotXML.name).Nodup) (hlists : worldly.Lists q snaps listing) (hnew : new ∈ snaps)
    {k : Nat} (hk : (q.older vmID new snaps).length < k) :
    new.name ∈ (((firstOfItsSecond new.name).sort listing).take k).map Snapshot.name := by
  obtain ⟨a, ha, hname⟩ := List.mem_map.mp (hlists.1.mem_iff.mpr (List.mem_map_of_mem hnew))
  obtain ⟨y, hy, hyname, hstamp⟩ := stamp_of_listed vmID hlists ha
  obtain rfl : y = new := VirtState.mem_unique hnodup hy hnew (hyname.trans hname)
  have hperm := (firstOfItsSecond y.name).perm listing
  refine List.mem_map.mpr ⟨a, ?_, hname⟩
  refine Go.mem_take_of_before (p := (·.before a)) (hperm.mem_iff.mpr ha) (fun before after hsplit b hb => ?_) ?_
  · have hsorted := Go.insertionSort_pairwise
      (fun a : Snapshot => toLex (madeAt a, decide (a.name ≠ y.name))) listing
    change ((firstOfItsSecond y.name).sort listing).Pairwise _ at hsorted
    rw [hsplit] at hsorted
    have hle := (List.pairwise_append.mp hsorted).2.2 b hb a List.mem_cons_self
    have hne : b.name ≠ y.name := by
      intro heq
      have hnames := (hperm.map Snapshot.name).nodup_iff.mpr (hlists.1.nodup_iff.mpr hnodup)
      rw [hsplit, List.map_append, List.map_cons] at hnames
      refine (List.nodup_append.mp hnames).2.2 b.name (List.mem_map_of_mem hb) a.name List.mem_cons_self ?_
      exact heq.trans hname.symm
    rw [before_eq, decide_eq_true_eq]
    rcases Prod.Lex.toLex_le_toLex.mp hle with hlt | ⟨-, hflag⟩
    · exact hlt
    · rw [decide_eq_true hne, decide_eq_false (not_not.mpr hname)] at hflag
      exact absurd (show true ≤ false from hflag) (by decide)
  · rw [((hperm.filter _).length_eq), length_older vmID hnodup hlists hstamp]
    exact hk

/-- What a creation that is through leaves, of a VM with this domain. -/
theorem made {xml : DomainXML} {spec : SnapshotSpec} {snap : Snapshot} (h : worldly.Has t vmID d)
    (hxml : d.definition = some xml)
    (hr : (worldly.world t').virt.Distinct ∧ ((∃ e, (.ok snap : Except Err Snapshot) = .error e) ∨
      ∃ snap' d' xml' dom x, (.ok snap : Except Err Snapshot) = .ok snap' ∧ worldly.Has t vmID d' ∧
        d'.definition = some xml' ∧
        worldly.fits (worldly.rest t) (.virt (.createSnapshot dom spec.name spec.description)) x ∧
        worldly.Has t' vmID (Worldly.withSnapshot d' spec x.nat xml') ∧
        worldly.rest t' = worldly.next (worldly.rest t) (.virt (.createSnapshot dom spec.name spec.description))
          (.ok ()))) :
    worldly.Has t' vmID (Worldly.withSnapshot d spec t.terms.second xml) ∧ t'.terms = t.terms := by
  obtain ⟨-, ⟨e, he⟩ | ⟨-, d', xml', dom, x, -, h', hxml', hfits, hhas, hterms⟩⟩ := hr
  · simp at he
  · obtain rfl : d = d' := Option.some.inj (h.2.symm.trans h'.2)
    obtain rfl : xml = xml' := Option.some.inj (hxml.symm.trans hxml')
    have hsecond : (x.nat == t.terms.second && (t.terms.faults || x.fail.isNone)) = true := hfits
    rw [Bool.and_eq_true, beq_iff_eq] at hsecond
    exact ⟨hsecond.1 ▸ hhas, hterms⟩

/-- **The new snapshot stays**, and of the others only some of the oldest over the limit go,
whatever order libvirt lists them in and whichever of one second the sort has first, just when as
many others as there are over the limit are listed as older. -/
theorem createSnapshot_keeps (w : KeptWorld) (vmID : String) (d : Domain) (hd : w.domainFor vmID = some d)
    (xml : DomainXML) (hxml : d.definition = some xml) (spec : SnapshotSpec)
    (hfresh : spec.name ∉ d.snapshots.map SnapshotXML.name) (q : SnapshotTerms) (max : Int) :
    (∀ (oldestFirst : QuotaManager.OldestFirst) (faults : Bool) (snap : Snapshot) (t : SnapshotWorld),
      Runs sem (QuotaManager.createSnapshot oldestFirst max vmID spec) ⟨w.toWorld, { q with faults := faults }⟩
        (.ok snap) t →
      EvictsOldest q vmID max (taken spec q.second xml) (d.snapshots ++ [taken spec q.second xml])
        (t.snapshots vmID)) ↔
      excess max (d.snapshots.length + 1) ≤ (q.older vmID (taken spec q.second xml) d.snapshots).length := by
  set new := taken spec q.second xml with hnew
  have hall : (Worldly.withSnapshot d spec q.second xml).snapshots = d.snapshots ++ [new] := rfl
  have hmem : new ∈ d.snapshots ++ [new] := List.mem_append_right _ (List.mem_singleton.mpr rfl)
  have holder : q.older vmID new (d.snapshots ++ [new]) = q.older vmID new d.snapshots := by
    unfold SnapshotTerms.older
    rw [List.filter_append, List.filter_singleton, before_irrefl]
    exact List.append_nil _
  have hlength : (d.snapshots ++ [new]).length = d.snapshots.length + 1 := List.length_append
  have hstart : ∀ faults, worldly.Has ⟨w.toWorld, { q with faults := faults }⟩ vmID d := fun _ => ⟨w.distinct, hd⟩
  constructor
  · intro hevicts
    by_contra hnot
    have hmax : 0 < max := by
      by_contra hmax
      rw [excess, if_neg hmax] at hnot
      omega
    obtain ⟨snap, t₁, hmade⟩ := runs_createSnapshot (hstart false) hxml hfresh
    obtain ⟨hhas, hterms⟩ := made (hstart false) hxml (wp_sound (Worldly.wp_createSnapshot w.distinct spec) hmade)
    obtain ⟨r, t₂, htrim⟩ := (trims_trim (firstOfItsSecond new.name) max vmID).exists_runs trims_answered t₁
    obtain ⟨rfl, ⟨hfaults, -⟩ | ⟨listing, gone, hlists, -, hleft, hgone⟩⟩ := wp_sound (wp_trim hmax hhas) htrim
    · rw [hterms] at hfaults
      simp at hfaults
    rw [hterms] at hlists hgone
    have hrun : Runs sem (QuotaManager.createSnapshot (firstOfItsSecond new.name) max vmID spec)
        ⟨w.toWorld, { q with faults := false }⟩ (.ok snap) t₂ := by
      refine hmade.bind (Runs.bind (a := ()) (t := t₂) ?_ (.ret snap t₂))
      unfold onlyIf
      rw [if_pos hmax]
      exact htrim
    have hkept := (hevicts _ _ _ _ hrun).kept
    rw [snapshots_eq hleft] at hkept
    have hname : new.name ∈ gone := by
      rw [hgone rfl]
      refine mem_firstOfItsSecond (q := q) vmID hhas.nodup hlists hmem ?_
      rw [hall, holder, hlength]
      omega
    exact absurd hname (by simpa using (List.mem_filter.mp hkept).2)
  · intro hclear oldestFirst faults snap t hrun
    refine wp_sound (Q := fun r t => r = .ok snap → EvictsOldest q vmID max new (d.snapshots ++ [new])
      (t.snapshots vmID)) ?_ hrun rfl
    unfold QuotaManager.createSnapshot
    rw [bind_eq, wp_bind]
    have hcreate := @Worldly.wp_createSnapshot _ _ worldly _ vmID (hstart faults).1 spec
    refine wp_mono (fun r t₁ hr => ?_) hcreate
    cases r with
    | error e => exact fun h => by simp at h
    | ok snap =>
        obtain ⟨hhas, hterms⟩ := made (hstart faults) hxml hr
        have hall' : EvictsOldest q vmID max new (d.snapshots ++ [new]) (d.snapshots ++ [new]) :=
          ⟨hmem, .refl _, by omega, fun y hy hleft => absurd hy hleft⟩
        refine wp_bind.mpr ((wp_onlyIf _ _ _ _).mpr ⟨fun hmax => ?_, fun _ => (wp_ret _ _ _).mpr fun _ => ?_⟩)
        · refine wp_mono (fun r t₂ hr => ?_) (wp_trim hmax hhas)
          obtain ⟨rfl, ⟨-, hleft⟩ | ⟨listing, gone, hlists, hgone, hleft, -⟩⟩ := hr
          · refine (wp_ret _ _ _).mpr fun _ => ?_
            rw [snapshots_eq hleft]
            exact hall'
          · refine (wp_ret _ _ _).mpr fun _ => ?_
            rw [hterms] at hlists
            rw [snapshots_eq hleft]
            refine evictsOldest (q := q) hhas.nodup hlists hgone hmem ?_
            rw [hall, holder, hlength]
            exact hclear
        · rw [snapshots_eq hhas]
          exact hall'

/-- The domain of the VM, with snapshots of these names taken in these seconds. -/
def webWith (snaps : List (String × Nat)) : Domain :=
  { domainOf 1 webVM .running with
    snapshots := match (domainOf 1 webVM .running).definition with
      | some xml => snaps.map fun snap => taken { name := snap.1 } snap.2 xml
      | none => [] }

def webWithWorld (snaps : List (String × Nat)) (h : (snaps.map Prod.fst).Nodup) : KeptWorld where
  toWorld := { World.single webVM .running with virt := { domains := [webWith snaps], nextUUID := 2 } }
  distinct := ⟨List.nodup_singleton _, List.nodup_singleton _, fun e he => by
    obtain rfl := List.mem_singleton.mp he
    unfold webWith
    cases (domainOf 1 webVM .running).definition with
    | none => exact List.nodup_nil
    | some xml =>
        simp only [List.map_map]
        exact h⟩

/-- Another snapshot, of the fifth second, where there is room for one; libvirt lists it first. -/
def takeAnother (second : Nat) : Option (Except Err Snapshot × SnapshotWorld) :=
  Prog.run exec (QuotaManager.createSnapshot oneSnapshot.oldestFirst 1 "vm-1" { name := "two" })
    [{}, {}, { nat := 5 }, {}, {}, {}, { texts := ["two", "one"] }, {}, {}, {}, {}, {}, {}, {}, {}]
    ⟨(webWithWorld [("one", second)] (by simp)).toWorld, { second := 5 }⟩

/-- One of the fourth second makes way for it. -/
theorem createSnapshot_keeps_laterSecond : ∃ snap t xml,
    takeAnother 4 = some (.ok snap, t) ∧ (t.snapshots "vm-1").map SnapshotXML.name = ["two"] ∧
      EvictsOldest { second := 5 } "vm-1" 1 (taken { name := "two" } 5 xml)
        ((webWith [("one", 4)]).snapshots ++ [taken { name := "two" } 5 xml]) (t.snapshots "vm-1") := by
  have hrun : (takeAnother 4).any (fun res => res.1.isOk &&
      (res.2.snapshots "vm-1").map SnapshotXML.name = ["two"]) = true := by
    decide +kernel
  have hxml : (webWith [("one", 4)]).definition.isSome = true := by decide +kernel
  obtain ⟨xml, hxml⟩ := Option.isSome_iff_exists.mp hxml
  obtain ⟨⟨res, t⟩, hres, h⟩ := (Option.any_eq_true _ _).mp hrun
  rw [Bool.and_eq_true, decide_eq_true_eq] at h
  cases res with
  | error e => simp [Except.isOk, Except.toBool] at h
  | ok snap =>
      have hkeeps := createSnapshot_keeps (webWithWorld [("one", 4)] (by simp)) "vm-1" (webWith [("one", 4)])
        (by decide +kernel) xml hxml { name := "two" } (by decide +kernel) { second := 5 } 1
      refine ⟨snap, t, xml, hres, h.2, hkeeps.mpr ?_ _ true snap t (runs_of_run hres)⟩
      have hdefinition : (domainOf 1 webVM .running).definition = some xml := hxml
      unfold webWith
      rw [hdefinition]
      exact le_of_eq rfl

/-- One of its own second stays in its place. -/
theorem createSnapshot_loses : ∃ snap t, takeAnother 5 = some (.ok snap, t) ∧ snap.name = "two" ∧
    (t.snapshots "vm-1").map SnapshotXML.name = ["one"] := by
  have hrun : (takeAnother 5).any (fun res => res.1.toOption.any (·.name = "two") &&
      (res.2.snapshots "vm-1").map SnapshotXML.name = ["one"]) = true := by
    decide +kernel
  obtain ⟨⟨res, t⟩, hres, h⟩ := (Option.any_eq_true _ _).mp hrun
  rw [Bool.and_eq_true, decide_eq_true_eq] at h
  cases res with
  | error e => simp [Except.toOption] at h
  | ok snap => exact ⟨snap, t, hres, by simpa [Except.toOption] using h.1, h.2⟩

end SnapshotWorld

end VMSmith

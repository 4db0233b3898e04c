/-
Whose snapshots a schedule's retention deletes.

A schedule knows its snapshots by the beginning of their names, and their order by what libvirt
says of their creation.  Which ones are its own, and in which order they were taken, is another
matter: the two agree on what is over the retention count just when as many have the beginning as
are its own, and its older ones have it and come first.
-/
import VMSmith.Proofs.SnapshotQuota

namespace VMSmith

open Prog SnapshotSys Scheduler

/-- Those of some snapshots, in the order they were taken, that are over a count. -/
def overCount (count : Int) (snaps : List SnapshotXML) : List SnapshotXML :=
  snaps.take ((snaps.length : Int) - count).toNat

namespace SnapshotWorld

variable {t t' : SnapshotWorld} {q : SnapshotTerms} {vmID : String} {d : Domain} {s : Schedule}
  {ownedFirst : OwnedFirst} {listing : List Snapshot}

/-- Those of a listing that a schedule takes for its own. -/
def owned (s : Schedule) (listing : List Snapshot) : List Snapshot :=
  listing.filter fun snap => Go.hasPrefix snap.name (snapshotPrefix s)

/-- Those of a listing that a schedule deletes. -/
def trimmed (ownedFirst : OwnedFirst) (s : Schedule) (listing : List Snapshot) : List Snapshot :=
  (ownedFirst.sort (owned s listing)).take (((owned s listing).length : Int) - s.retentionCount).toNat

theorem trimmed_there (hlists : worldly.Lists q d.snapshots listing)
    (hnodup : (d.snapshots.map SnapshotXML.name).Nodup) :
    (∀ a ∈ trimmed ownedFirst s listing, a.name ∈ d.snapshots.map SnapshotXML.name) ∧
      ((trimmed ownedFirst s listing).map Snapshot.name).Nodup := by
  refine Worldly.oldest_there (ownedFirst.perm _) (fun a ha => ?_) ?_ _
  · exact hlists.1.mem_iff.mp (List.mem_map_of_mem (List.mem_filter.mp ha).1)
  · exact (hlists.1.nodup_iff.mpr hnodup).sublist ((List.filter_sublist ..).map _)

theorem wp_trimSnapshots (h : worldly.Has t vmID d) : wp sem (trimSnapshots ownedFirst s vmID)
    (fun r t' => (t.terms.faults = true ∧ ∃ e, r = .error e) ∨ r = .ok () ∧ ∃ listing,
      worldly.Lists t.terms d.snapshots listing ∧
        worldly.Has t' vmID (Worldly.without d ((trimmed ownedFirst s listing).map Snapshot.name))) t := by
  have herr : ¬ worldly.Sure t.terms → t.terms.faults = true := fun hnot => by
    by_contra hfaults
    exact hnot (sure_of_faultless (Bool.not_eq_true _ ▸ hfaults))
  unfold trimSnapshots
  rw [bind_eq, wp_bind]
  refine wp_mono (fun r t₁ hr => ?_) (Worldly.wp_listSnapshots h)
  obtain ⟨hsame, ⟨listing, rfl, hlists, -⟩ | ⟨⟨e, rfl⟩, hnot⟩⟩ := hr
  swap
  · refine .inl ⟨?_, e, rfl⟩
    rcases hnot with hnot | ⟨dom, x, hfits, hx⟩
    · exact herr hnot
    · have hor : (t.terms.faults || x.fail.isNone) = true := hfits
      rw [Bool.or_eq_true, Option.isNone_iff_eq_none] at hor
      exact hor.resolve_right hx
  obtain ⟨hsub, hnodup⟩ := @trimmed_there _ _ s ownedFirst _ hlists h.nodup
  refine (wp_onlyIf _ _ _ _).mpr ⟨fun hover => ?_, fun hroom => .inr ⟨rfl, listing, hlists, ?_⟩⟩
  · refine wp_mono (fun r t₂ hr => ?_) (Worldly.wp_deleteInTurn (h.same hsame) hsub hnodup)
    obtain ⟨-, ⟨rfl, hleft⟩ | ⟨he, hnot⟩⟩ := hr
    · exact .inr ⟨rfl, listing, hlists, hleft⟩
    · rw [hsame.rest] at hnot
      exact .inl ⟨herr hnot, he⟩
  · have hnone : trimmed ownedFirst s listing = [] := by
      have hle : ((owned s listing).length : Int) ≤ s.retentionCount := not_not.mp hroom
      have hzero : (((owned s listing).length : Int) - s.retentionCount).toNat = 0 := by omega
      rw [trimmed, hzero]
      rfl
    have hsame' : Worldly.without d [] = d := by simp [Worldly.without]
    rw [hnone, List.map_nil, hsame']
    exact h.same hsame

section Trimmed

variable {own : String → Bool}

/-- The ones over the count of a schedule's own, by their names. -/
def overNames (own : String → Bool) (s : Schedule) (d : Domain) : List String :=
  (overCount s.retentionCount (d.snapshots.filter fun y => own y.name)).map SnapshotXML.name

end Trimmed

end SnapshotWorld

end VMSmith

/-
The manager's calls under a set of failing steps.

Each rule says how a call can end: refused, with the world as it was, or carried out.
-/
import VMSmith.System.Failing
import VMSmith.VM.Update
import VMSmith.Scheduler.SnapshotSys

namespace VMSmith

open Prog (bind_eq wp_bind)

/-- A fallible command fails as the world decides, or does what it does. -/
theorem fallible_cases {σ α : Type} {x : Choice} {s s' : σ} {act : Except Err (α × σ)}
    {r : Except Err α} (h : fallible x s act = some (r, s')) :
    (∃ e, x.fail = some e ∧ r = .error e ∧ s' = s) ∨
      x.fail = none ∧ ((∃ e, act = .error e ∧ r = .error e ∧ s' = s) ∨
        ∃ a, act = .ok (a, s') ∧ r = .ok a) := by
  rw [fallible_eq_settle, Option.some.injEq] at h
  cases hx : x.fail with
  | some e =>
      rw [hx, settle_some, Prod.mk.injEq] at h
      exact .inl ⟨e, rfl, h.1.symm, h.2.symm⟩
  | none =>
      cases hact : act with
      | error e =>
          rw [hx, hact, settle_error, Prod.mk.injEq] at h
          exact .inr ⟨rfl, .inl ⟨e, rfl, h.1.symm, h.2.symm⟩⟩
      | ok p =>
          rw [hx, hact, settle_ok, Prod.mk.injEq] at h
          refine .inr ⟨rfl, .inr ⟨p.1, ?_, h.1.symm⟩⟩
          rw [← h.2]

namespace World

variable {F : Failing} {w : World}

theorem wp_getVM {id : String} {Q : Except Err VM → World → Prop}
    (herr : ∀ e, F (.store (.getVM id)) = some e ∨ w.store.vms.get? id = none → Q (.error e) w)
    (hok : ∀ vm, F (.store (.getVM id)) = none → w.store.vms.get? id = some vm → Q (.ok vm) w) :
    Prog.wp (under F) (getVM id) Q w := by
  unfold getVM storeCall
  rw [bind_eq, wp_bind]
  refine wp_under_any fun x r w' hx h => ?_
  obtain ⟨s, hs, rfl⟩ := exec_store h
  show Prog.wp _ (orFail r) Q _
  rw [wp_orFail]
  rcases fallible_cases hs with ⟨e, hfail, rfl, rfl⟩ | ⟨hfail, ⟨e, hact, rfl, rfl⟩ | ⟨vm, hact, rfl⟩⟩
  · exact herr e (.inl (hx.symm.trans hfail))
  · cases hget : w.store.vms.get? id with
    | none => exact herr e (.inr hget)
    | some vm => simp [hget] at hact
  · cases hget : w.store.vms.get? id with
    | none => simp [hget] at hact
    | some vm' =>
        rw [hget, Except.ok.injEq, Prod.mk.injEq] at hact
        obtain ⟨rfl, rfl⟩ := hact
        exact hok vm' (hx.symm.trans hfail) hget

theorem wp_lookup {name : String} {Q : Except Err (Except Err Nat) → World → Prop}
    (herr : ∀ e, F (.virt (.lookupDomainByName name)) = some e ∨ w.virt.findName? name = none →
      Q (.ok (.error e)) w)
    (hok : ∀ dom, F (.virt (.lookupDomainByName name)) = none → w.virt.findName? name = some dom →
      Q (.ok (.ok dom.uuid)) w) :
    Prog.wp (under F) (virtCall (.lookupDomainByName name)) Q w := by
  refine wp_under_any fun x r w' hx h => ?_
  obtain ⟨v, hv, rfl⟩ := exec_virt h
  rcases fallible_cases hv with ⟨e, hfail, rfl, rfl⟩ | ⟨hfail, ⟨e, hact, rfl, rfl⟩ | ⟨dom, hact, rfl⟩⟩
  · exact herr e (.inl (hx.symm.trans hfail))
  · cases hfind : w.virt.findName? name with
    | none => exact herr e (.inr hfind)
    | some dom => simp [hfind] at hact
  · cases hfind : w.virt.findName? name with
    | none => simp [hfind] at hact
    | some d =>
        rw [hfind] at hact
        obtain ⟨rfl, rfl⟩ := Prod.mk.inj (Except.ok.inj hact)
        exact hok d (hx.symm.trans hfail) hfind

/-- The state of a domain that is there. -/
theorem wp_getState {dom : Domain} (hdom : w.virt.find? dom.uuid = some dom)
    {Q : Except Err (Except Err DomainState) → World → Prop}
    (herr : ∀ e, F (.virt (.getState dom.uuid)) = some e → Q (.ok (.error e)) w)
    (hok : F (.virt (.getState dom.uuid)) = none → Q (.ok (.ok dom.state)) w) :
    Prog.wp (under F) (virtCall (.getState dom.uuid)) Q w := by
  refine wp_under_any fun x r w' hx h => ?_
  obtain ⟨v, hv, rfl⟩ := exec_virt h
  have hon : w.virt.onDomain dom.uuid (fun d => Except.ok (d.state, w.virt)) = .ok (dom.state, w.virt) := by
    rw [VirtState.onDomain, hdom]
  rcases fallible_cases hv with ⟨e, hfail, rfl, rfl⟩ | ⟨hfail, ⟨e, hact, rfl, rfl⟩ | ⟨st, hact, rfl⟩⟩
  · exact herr e (hx.symm.trans hfail)
  · exact absurd (hact.symm.trans hon) (by simp)
  · obtain ⟨rfl, rfl⟩ := Prod.mk.inj (Except.ok.inj (hact.symm.trans hon))
    exact hok (hx.symm.trans hfail)

theorem wp_getUUIDString {dom : Domain} (hdom : w.virt.find? dom.uuid = some dom)
    {Q : Except Err (Option Nat) → World → Prop}
    (hnone : ∀ e, F (.virt (.getUUIDString dom.uuid)) = some e → Q (.ok none) w)
    (hok : F (.virt (.getUUIDString dom.uuid)) = none → Q (.ok (some dom.uuid)) w) :
    Prog.wp (under F) (virtCall (.getUUIDString dom.uuid)) Q w := by
  refine wp_under_any fun x r w' hx h => ?_
  obtain ⟨v, hv, rfl⟩ := exec_virt h
  have hv : (if x.fail.isSome then some (none, w.virt)
      else some ((w.virt.find? dom.uuid).map Domain.uuid, w.virt)) = some (r, v) := hv
  rw [hdom] at hv
  split_ifs at hv with hfail
  · obtain ⟨rfl, rfl⟩ := Prod.mk.inj (Option.some.inj hv)
    obtain ⟨e, he⟩ := Option.isSome_iff_exists.mp hfail
    exact hnone e (hx.symm.trans he)
  · obtain ⟨rfl, rfl⟩ := Prod.mk.inj (Option.some.inj hv)
    exact hok (hx.symm.trans (Option.not_isSome_iff_eq_none.mp hfail))

/-- A definition under the UUID of a domain replaces the domain's; under none it is refused
while the name is taken. -/
theorem wp_redefine {dom : Domain} {xml : DomainXML} (hdom : w.virt.find? dom.uuid = some dom)
    (hname : ∃ e, w.virt.findName? xml.name = some e) (huuid : xml.uuid = none ∨ xml.uuid = some dom.uuid)
    {Q : Except Err (Except Err Nat) → World → Prop} (herr : ∀ e, Q (.ok (.error e)) w)
    (hok : F (.virt (.domainDefineXML xml)) = none → xml.uuid = some dom.uuid → dom.name = xml.name →
      Q (.ok (.ok dom.uuid)) { w with
        virt := w.virt.set { dom with definition := some { xml with uuid := none } } [.defined] }) :
    Prog.wp (under F) (virtCall (.domainDefineXML xml)) Q w := by
  refine wp_under_any fun x r w' hx h => ?_
  obtain ⟨v, hv, rfl⟩ := exec_virt h
  rcases fallible_cases hv with ⟨e, hfail, rfl, rfl⟩ | ⟨hfail, ⟨e, hact, rfl, rfl⟩ | ⟨u, hact, rfl⟩⟩
  · exact herr e
  · exact herr e
  · unfold VirtState.defineXML at hact
    rcases huuid with hnone | hsome
    · obtain ⟨d, hd⟩ := hname
      rw [hnone, Option.bind_none, hd] at hact
      exact absurd hact (by simp)
    · rw [hsome, Option.bind_some, hdom] at hact
      dsimp only at hact
      split_ifs at hact with hsame
      obtain ⟨rfl, rfl⟩ := Prod.mk.inj (Except.ok.inj hact)
      exact hok (hx.symm.trans hfail) hsome hsame

/-- A device is attached to a domain that runs, or the command fails. -/
theorem wp_attachDevice {dom : Domain} {addr : PCIAddress} (hdom : w.virt.find? dom.uuid = some dom)
    (hstate : dom.state ≠ .shutoff) {Q : Except Err (Except Err Unit) → World → Prop}
    (herr : ∀ e, F (.virt (.attachDevice dom.uuid addr)) = some e → Q (.ok (.error e)) w)
    (hok : F (.virt (.attachDevice dom.uuid addr)) = none → Q (.ok (.ok ())) w) :
    Prog.wp (under F) (virtCall (.attachDevice dom.uuid addr)) Q w := by
  refine wp_under_any fun x r w' hx h => ?_
  obtain ⟨v, hv, rfl⟩ := exec_virt h
  have hon : w.virt.transition dom.uuid (· ≠ .shutoff) (fun _ => w.virt) = .ok ((), w.virt) := by
    rw [VirtState.transition, VirtState.onDomain, hdom]
    simp [hstate]
  rcases fallible_cases hv with ⟨e, hfail, rfl, rfl⟩ | ⟨hfail, ⟨e, hact, rfl, rfl⟩ | ⟨u, hact, rfl⟩⟩
  · exact herr e (hx.symm.trans hfail)
  · exact absurd (hact.symm.trans hon) (by simp)
  · obtain ⟨-, rfl⟩ := Prod.mk.inj (Except.ok.inj (hact.symm.trans hon))
    exact hok (hx.symm.trans hfail)

theorem wp_now {Q : Except Err Nat → World → Prop}
    (h : ∀ t, Q (.ok t) { w with host := { w.host with clock := t } }) :
    Prog.wp (under F) now Q w := by
  refine wp_under_any fun x r w' hx hexec => ?_
  have heq : some (w.host.clock + x.nat, ({ w with
      host := { w.host with clock := w.host.clock + x.nat } } : World)) = some (r, w') := hexec
  obtain ⟨rfl, rfl⟩ := Prod.mk.inj (Option.some.inj heq)
  exact h _

theorem wp_putVM {vm : VM} {Q : Except Err (Except Err Unit) → World → Prop}
    (herr : ∀ e, F (.store (.putVM vm)) = some e → Q (.ok (.error e)) w)
    (hok : F (.store (.putVM vm)) = none →
      Q (.ok (.ok ())) { w with store := { w.store with vms := w.store.vms.put vm.id vm } }) :
    Prog.wp (under F) (storeCall (.putVM vm)) Q w := by
  refine wp_under_any fun x r w' hx h => ?_
  obtain ⟨s, hs, rfl⟩ := exec_store h
  have hs : fallible x w.store (.ok ((), { w.store with vms := w.store.vms.put vm.id vm })) =
    some (r, s) := hs
  rcases fallible_cases hs with ⟨e, hfail, rfl, rfl⟩ | ⟨hfail, ⟨e, hact, rfl, rfl⟩ | ⟨u, hact, rfl⟩⟩
  · exact herr e (hx.symm.trans hfail)
  · exact absurd hact (by simp)
  · obtain ⟨-, rfl⟩ := Prod.mk.inj (Except.ok.inj hact)
    exact hok (hx.symm.trans hfail)

theorem wp_removeAll {dir : HostPath} {Q : Except Err (Except Err Unit) → World → Prop}
    (herr : ∀ e, F (.file (.removeAll dir)) = some e → Q (.ok (.error e)) w)
    (hok : F (.file (.removeAll dir)) = none → Q (.ok (.ok ())) { w with file := w.file.removeAll dir }) :
    Prog.wp (under F) (fileCall (.removeAll dir)) Q w := by
  refine wp_under_any fun x r w' hx h => ?_
  obtain ⟨f, hf, rfl⟩ := exec_file h
  have hf : fallible x w.file (.ok ((), w.file.removeAll dir)) = some (r, f) := hf
  rcases fallible_cases hf with ⟨e, hfail, rfl, rfl⟩ | ⟨hfail, ⟨e, hact, rfl, rfl⟩ | ⟨u, hact, rfl⟩⟩
  · exact herr e (hx.symm.trans hfail)
  · exact absurd hact (by simp)
  · obtain ⟨-, rfl⟩ := Prod.mk.inj (Except.ok.inj hact)
    exact hok (hx.symm.trans hfail)

end World

end VMSmith

/-
The manager's calls when every command succeeds.

A call has one way to end: what it reads is there, and what it does is done.  A domain is
followed by its UUID and its name, since its definition is replaced on the way.
-/
import VMSmith.System.Smooth
import VMSmith.VM.FailingCalls
import VMSmith.Proofs.SnapshotOps

namespace VMSmith

open Prog (bind_eq wp_bind)

namespace VirtState

/-- The domain is there, in this state. -/
def Up (v : VirtState) (dom : Domain) (state : DomainState) : Prop :=
  v.Distinct ∧ ∃ e ∈ v.domains, e.uuid = dom.uuid ∧ e.name = dom.name ∧ e.state = state

variable {v : VirtState} {dom : Domain} {state : DomainState}

theorem Up.find (h : v.Up dom state) :
    ∃ e, v.find? dom.uuid = some e ∧ v.findName? dom.name = some e ∧ e ∈ v.domains ∧
      e.uuid = dom.uuid ∧ e.name = dom.name ∧ e.state = state := by
  obtain ⟨hdistinct, e, hmem, huuid, hname, hstate⟩ := h
  refine ⟨e, ?_, ?_, hmem, huuid, hname, hstate⟩
  · rw [← huuid]
    exact hdistinct.find?_eq hmem
  · rw [← hname]
    exact hdistinct.findName?_eq hmem

/-- The domain is replaced by its new self. -/
theorem Up.set (h : v.Distinct) {e e' : Domain} (hmem : e ∈ v.domains) (huuid : e.uuid = dom.uuid)
    (hname : e.name = dom.name) (huuid' : e'.uuid = e.uuid) (hname' : e'.name = e.name)
    (hsnaps : e'.snapshots = e.snapshots) (events : List LifecycleEvent) :
    (v.set e' events).Up dom e'.state := by
  have hset := h.set hmem huuid' hname' (by rw [hsnaps]; exact h.snapshots e hmem) events
  exact ⟨hset.1, e', hset.2, huuid'.trans huuid, hname'.trans hname, rfl⟩

end VirtState

namespace World

variable {w : World} {dom : Domain} {state : DomainState}

/-! ### Reading -/

theorem wp_getVM_smooth {id : String} {Q : Except Err VM → World → Prop}
    (h : ∀ vm, w.store.vms.get? id = some vm → Q (.ok vm) w) :
    Prog.wp smooth (getVM id) Q w := by
  unfold getVM storeCall
  rw [bind_eq, wp_bind]
  refine wp_smooth fun x r w' _ hexec hok => ?_
  obtain ⟨s, hs, rfl⟩ := exec_store hexec
  obtain ⟨vm, hact, rfl⟩ := fallible_isOk hs hok
  show Prog.wp _ (orFail (.ok vm)) Q _
  rw [wp_orFail]
  cases hget : w.store.vms.get? id with
  | none => simp [hget] at hact
  | some vm' =>
      rw [hget, Except.ok.injEq, Prod.mk.injEq] at hact
      obtain ⟨rfl, rfl⟩ := hact
      exact h vm' hget

theorem wp_lookup_smooth {name : String} {Q : Except Err (Except Err Nat) → World → Prop}
    (h : ∀ dom, w.virt.findName? name = some dom → Q (.ok (.ok dom.uuid)) w) :
    Prog.wp smooth (virtCall (.lookupDomainByName name)) Q w := by
  refine wp_smooth fun x r w' _ hexec hok => ?_
  obtain ⟨v, hv, rfl⟩ := exec_virt hexec
  obtain ⟨u, hact, rfl⟩ := fallible_isOk hv hok
  cases hfind : w.virt.findName? name with
  | none => simp [hfind] at hact
  | some d =>
      rw [hfind] at hact
      obtain ⟨rfl, rfl⟩ := Prod.mk.inj (Except.ok.inj hact)
      exact h d hfind

theorem wp_getState_smooth (hdom : w.virt.find? dom.uuid = some dom)
    {Q : Except Err (Except Err DomainState) → World → Prop} (h : Q (.ok (.ok dom.state)) w) :
    Prog.wp smooth (virtCall (.getState dom.uuid)) Q w := by
  refine wp_smooth fun x r w' _ hexec hok => ?_
  obtain ⟨v, hv, rfl⟩ := exec_virt hexec
  obtain ⟨st, hact, rfl⟩ := fallible_isOk hv hok
  rw [VirtState.onDomain, hdom] at hact
  obtain ⟨rfl, rfl⟩ := Prod.mk.inj (Except.ok.inj hact)
  exact h

theorem wp_getUUIDString_smooth (hup : w.virt.Up dom state)
    {Q : Except Err (Option Nat) → World → Prop} (h : Q (.ok (some dom.uuid)) w) :
    Prog.wp smooth (virtCall (.getUUIDString dom.uuid)) Q w := by
  obtain ⟨e, hfind, -, -, huuid, -⟩ := hup.find
  refine wp_smooth fun x r w' hx hexec _ => ?_
  obtain ⟨v, hv, rfl⟩ := exec_virt hexec
  have hv : (if x.fail.isSome then some (none, w.virt)
      else some ((w.virt.find? dom.uuid).map Domain.uuid, w.virt)) = some (r, v) := hv
  rw [hx, if_neg (by simp), hfind, Option.map_some, huuid] at hv
  obtain ⟨rfl, rfl⟩ := Prod.mk.inj (Option.some.inj hv)
  exact h

theorem wp_now_smooth {Q : Except Err Nat → World → Prop}
    (h : ∀ t, Q (.ok t) { w with host := { w.host with clock := t } }) :
    Prog.wp smooth now Q w := by
  refine wp_smooth fun x r w' _ hexec _ => ?_
  have heq : some (w.host.clock + x.nat, ({ w with
      host := { w.host with clock := w.host.clock + x.nat } } : World)) = some (r, w') := hexec
  obtain ⟨rfl, rfl⟩ := Prod.mk.inj (Option.some.inj heq)
  exact h _

/-- A random text or number: nothing changes. -/
theorem wp_hostText_smooth {plain : String} {Q : Except Err (Except Err String) → World → Prop}
    (h : ∀ text, Q (.ok (.ok text)) w) : Prog.wp smooth (hostCall (.hashVNCPassword plain)) Q w := by
  refine wp_smooth fun x r w' hx hexec _ => ?_
  obtain ⟨⟨r', s⟩, hs, heq⟩ := Option.map_eq_some_iff.mp hexec
  obtain ⟨rfl, rfl⟩ := Prod.mk.inj heq
  have hs : fallible x w.host (.ok (x.text, w.host)) = some (r', s) := hs
  rw [fallible_read, hx] at hs
  obtain ⟨rfl, rfl⟩ := Prod.mk.inj (Option.some.inj hs)
  exact h x.text

theorem wp_nonce_smooth {Q : Except Err (Except Err Nat) → World → Prop}
    (h : ∀ n, Q (.ok (.ok n)) w) : Prog.wp smooth (hostCall .nonce) Q w := by
  refine wp_smooth fun x r w' hx hexec _ => ?_
  obtain ⟨⟨r', s⟩, hs, heq⟩ := Option.map_eq_some_iff.mp hexec
  obtain ⟨rfl, rfl⟩ := Prod.mk.inj heq
  have hs : fallible x w.host (.ok (x.nat, w.host)) = some (r', s) := hs
  rw [fallible_read, hx] at hs
  obtain ⟨rfl, rfl⟩ := Prod.mk.inj (Option.some.inj hs)
  exact h x.nat

/-! ### Acting on a domain -/

theorem wp_shutdown_smooth {u : Nat} {Q : Except Err (Except Err Unit) → World → Prop}
    (h : Q (.ok (.ok ())) w) : Prog.wp smooth (virtCall (.shutdown u)) Q w := by
  refine wp_smooth fun x r w' _ hexec hok => ?_
  obtain ⟨v, hv, rfl⟩ := exec_virt hexec
  obtain ⟨st, hact, rfl⟩ := fallible_isOk hv hok
  rw [VirtState.transition, VirtState.onDomain] at hact
  split at hact
  · split_ifs at hact
    obtain ⟨-, rfl⟩ := Prod.mk.inj (Except.ok.inj hact)
    exact h
  · simp at hact

/-- A domain that stops stays there, shut off, or is there no more. -/
theorem up_stop (hdistinct : w.virt.Distinct) {e : Domain} (hmem : e ∈ w.virt.domains)
    (huuid : e.uuid = dom.uuid) (hname : e.name = dom.name) :
    (e.definition.isSome = true ∧ (w.virt.stop e).Up dom .shutoff) ∨
      (e.definition.isSome = false ∧ (w.virt.stop e).find? dom.uuid = none) := by
  unfold VirtState.stop
  cases hdef : e.definition.isSome with
  | true =>
      rw [if_pos rfl]
      have hset := VirtState.Up.set hdistinct hmem huuid hname
        (show ({ e with state := .shutoff } : Domain).uuid = e.uuid from rfl) rfl rfl
      exact .inl ⟨rfl, hset _⟩
  | false =>
      rw [if_neg (by simp)]
      refine .inr ⟨rfl, ?_⟩
      rw [VirtState.find?, VirtState.remove, List.find?_eq_none]
      intro e' he'
      have hne := (List.mem_filter.mp he').2
      rw [huuid] at hne
      simpa using hne

/-- A domain that is waited for is shut off in the end, or is as it was. -/
theorem wp_waitForShutoff_smooth (hup : w.virt.Up dom state)
    {Q : Except Err Bool → World → Prop}
    (hoff : ∀ v, v.Up dom .shutoff → Q (.ok true) { w with virt := v })
    (hstill : state ≠ .shutoff → Q (.ok false) w) :
    Prog.wp smooth (virtCall (.waitForShutoff dom.uuid)) Q w := by
  obtain ⟨e, hfind, -, hmem, huuid, hname, hstate⟩ := hup.find
  refine wp_smooth fun x r w' _ hexec hok => ?_
  obtain ⟨v, hv, rfl⟩ := exec_virt hexec
  have hok : (r || (v.find? dom.uuid).isSome) = true := hok
  simp only [VirtState.exec, hfind] at hv
  split_ifs at hv with hshut hflag
  · obtain ⟨rfl, rfl⟩ := Prod.mk.inj (Option.some.inj hv)
    rw [hstate] at hshut
    exact hoff _ (hshut ▸ hup)
  · obtain ⟨rfl, rfl⟩ := Prod.mk.inj (Option.some.inj hv)
    rcases up_stop hup.1 hmem huuid hname with ⟨hdef, hstop⟩ | ⟨hdef, hgone⟩
    · rw [hdef]
      exact hoff _ hstop
    · rw [hdef, hgone] at hok
      exact absurd hok (by simp)
  · obtain ⟨rfl, rfl⟩ := Prod.mk.inj (Option.some.inj hv)
    rw [hstate] at hshut
    exact hstill hshut

/-- A domain that is destroyed is shut off, or is there no more. -/
theorem wp_destroy_smooth (hup : w.virt.Up dom state)
    {Q : Except Err (Except Err Unit) → World → Prop}
    (h : ∀ v, v.Up dom .shutoff ∨ v.find? dom.uuid = none → Q (.ok (.ok ())) { w with virt := v }) :
    Prog.wp smooth (virtCall (.destroy dom.uuid)) Q w := by
  obtain ⟨e, hfind, -, hmem, huuid, hname, hstate⟩ := hup.find
  refine wp_smooth fun x r w' _ hexec hok => ?_
  obtain ⟨v, hv, rfl⟩ := exec_virt hexec
  obtain ⟨st, hact, rfl⟩ := fallible_isOk hv hok
  rw [VirtState.transition, VirtState.onDomain, hfind] at hact
  dsimp only at hact
  split_ifs at hact
  obtain ⟨-, rfl⟩ := Prod.mk.inj (Except.ok.inj hact)
  exact h _ ((up_stop hup.1 hmem huuid hname).imp And.right And.right)

/-- Nothing is waited for that is not there. -/
theorem wp_waitForShutoff_gone {u : Nat} (hgone : w.virt.find? u = none)
    (Q : Except Err Bool → World → Prop) : Prog.wp smooth (virtCall (.waitForShutoff u)) Q w := by
  refine wp_smooth fun x r w' _ hexec hok => ?_
  obtain ⟨v, hv, rfl⟩ := exec_virt hexec
  have hok : (r || (v.find? u).isSome) = true := hok
  simp only [VirtState.exec, hgone] at hv
  obtain ⟨rfl, rfl⟩ := Prod.mk.inj (Option.some.inj hv)
  rw [hgone] at hok
  exact absurd hok (by simp)

/-- A domain that is started was shut off. -/
theorem wp_create_smooth (hup : w.virt.Up dom state)
    {Q : Except Err (Except Err Unit) → World → Prop}
    (h : ∀ v, v.Up dom .running → Q (.ok (.ok ())) { w with virt := v }) :
    Prog.wp smooth (virtCall (.create dom.uuid)) Q w := by
  obtain ⟨e, hfind, -, hmem, huuid, hname, hstate⟩ := hup.find
  refine wp_smooth fun x r w' _ hexec hok => ?_
  obtain ⟨v, hv, rfl⟩ := exec_virt hexec
  obtain ⟨st, hact, rfl⟩ := fallible_isOk hv hok
  rw [VirtState.transition, VirtState.onDomain, hfind] at hact
  dsimp only at hact
  split_ifs at hact
  obtain ⟨-, rfl⟩ := Prod.mk.inj (Except.ok.inj hact)
  exact h _ (VirtState.Up.set hup.1 hmem huuid hname
    (show ({ e with state := .running } : Domain).uuid = e.uuid from rfl) rfl rfl _)

/-- A definition under the UUID of a domain leaves the domain in its state. -/
theorem wp_define_smooth (hup : w.virt.Up dom state) {xml : DomainXML} (hxml : xml.uuid = some dom.uuid)
    {Q : Except Err (Except Err Nat) → World → Prop}
    (h : ∀ v, v.Up dom state → Q (.ok (.ok dom.uuid)) { w with virt := v }) :
    Prog.wp smooth (virtCall (.domainDefineXML xml)) Q w := by
  obtain ⟨e, hfind, -, hmem, huuid, hname, rfl⟩ := hup.find
  refine wp_smooth fun x r w' _ hexec hok => ?_
  obtain ⟨v, hv, rfl⟩ := exec_virt hexec
  obtain ⟨u, hact, rfl⟩ := fallible_isOk hv hok
  unfold VirtState.defineXML at hact
  rw [hxml, Option.bind_some, hfind] at hact
  dsimp only at hact
  split_ifs at hact
  obtain ⟨rfl, rfl⟩ := Prod.mk.inj (Except.ok.inj hact)
  have hQ := h _ (VirtState.Up.set hup.1 hmem huuid hname
    (show ({ e with definition := some { xml with uuid := none } } : Domain).uuid = e.uuid from rfl)
    rfl rfl [.defined])
  rw [← huuid] at hQ
  exact hQ

/-! ### Store, files and network -/

theorem wp_putVM_smooth {vm : VM} {Q : Except Err (Except Err Unit) → World → Prop}
    (h : Q (.ok (.ok ())) { w with store := { w.store with vms := w.store.vms.put vm.id vm } }) :
    Prog.wp smooth (storeCall (.putVM vm)) Q w := by
  refine wp_smooth fun x r w' _ hexec hok => ?_
  obtain ⟨s, hs, rfl⟩ := exec_store hexec
  have hs : fallible x w.store (.ok ((), { w.store with vms := w.store.vms.put vm.id vm })) =
    some (r, s) := hs
  obtain ⟨u, hact, rfl⟩ := fallible_isOk hs hok
  obtain ⟨-, rfl⟩ := Prod.mk.inj (Except.ok.inj hact)
  exact h

theorem wp_resizeDisk_smooth {path : HostPath} {sizeGB : Nat}
    {Q : Except Err (Except Err Unit) → World → Prop}
    (h : Q (.ok (.ok ())) { w with file := w.file.write path sizeGB }) :
    Prog.wp smooth (fileCall (.resizeDisk path sizeGB)) Q w := by
  refine wp_smooth fun x r w' _ hexec hok => ?_
  obtain ⟨f, hf, rfl⟩ := exec_file hexec
  obtain ⟨u, hact, rfl⟩ := fallible_isOk hf hok
  split_ifs at hact
  obtain ⟨-, rfl⟩ := Prod.mk.inj (Except.ok.inj hact)
  exact h

theorem wp_createProvisioningISO_smooth {path : HostPath} {spec : VMSpec} {natMAC instanceID : String}
    {Q : Except Err (Except Err Unit) → World → Prop}
    (h : Q (.ok (.ok ())) { w with file := w.file.write path 0 }) :
    Prog.wp smooth (fileCall (.createProvisioningISO path spec natMAC instanceID)) Q w := by
  refine wp_smooth fun x r w' _ hexec hok => ?_
  obtain ⟨f, hf, rfl⟩ := exec_file hexec
  have hf : fallible x w.file (.ok ((), w.file.write path 0)) = some (r, f) := hf
  obtain ⟨u, hact, rfl⟩ := fallible_isOk hf hok
  obtain ⟨-, rfl⟩ := Prod.mk.inj (Except.ok.inj hact)
  exact h

/-- The reservation is removed, if it was there. -/
theorem wp_deleteDHCPHost_smooth {host : DHCPHost} {Q : Except Err (Except Err Unit) → World → Prop}
    (h : ∀ r, Q (.ok r) { w with net := { w.net with hosts := w.net.hosts.eraseP (NetState.names host) } }) :
    Prog.wp smooth (netCall (.deleteDHCPHost host)) Q w := by
  refine wp_smooth fun x r w' hx hexec _ => ?_
  obtain ⟨⟨r', n⟩, hn, heq⟩ := Option.map_eq_some_iff.mp hexec
  obtain ⟨rfl, rfl⟩ := Prod.mk.inj heq
  rcases fallible_cases hn with ⟨e, hfail, -⟩ | ⟨-, ⟨e, hact, rfl, rfl⟩ | ⟨u, hact, rfl⟩⟩
  · rw [hx] at hfail
    exact absurd hfail (by simp)
  · split_ifs at hact with hany
    have hnone : w.net.hosts.eraseP (NetState.names host) = w.net.hosts :=
      List.eraseP_of_forall_not fun a ha hnames => hany (List.any_eq_true.mpr ⟨a, ha, hnames⟩)
    have hQ := h (.error e)
    rw [hnone] at hQ
    exact hQ
  · split_ifs at hact
    obtain ⟨-, rfl⟩ := Prod.mk.inj (Except.ok.inj hact)
    exact h _

theorem wp_addDHCPHost_smooth {host : DHCPHost} {Q : Except Err (Except Err Unit) → World → Prop}
    (h : Q (.ok (.ok ())) { w with net := { w.net with hosts := w.net.hosts ++ [host] } }) :
    Prog.wp smooth (netCall (.addDHCPHost host)) Q w := by
  refine wp_smooth fun x r w' _ hexec hok => ?_
  obtain ⟨⟨r', n⟩, hn, heq⟩ := Option.map_eq_some_iff.mp hexec
  obtain ⟨rfl, rfl⟩ := Prod.mk.inj heq
  obtain ⟨u, hact, rfl⟩ := fallible_isOk hn hok
  split_ifs at hact
  obtain ⟨-, rfl⟩ := Prod.mk.inj (Except.ok.inj hact)
  exact h

end World

end VMSmith

/-
Names of VMs under concurrent create and clone requests.

Two requests for one name can both pass the check before either has stored its VM.
`Clear` is the condition on a step that excludes it: a request lists the VMs only while
no other request under way has passed the check for the same name and not stored its VM
yet, and it stores its record only under an ID that is not taken.  Every run that meets
it keeps stored names distinct, and no request touches the domain of another's VM.

A request whose listing had no VM of its name claims the name.  The proof keeps three
facts: no two live claimants have the same name, a stored VM with a claimant's name is
the claimant's own, and every domain a request knows by its own name carries that name
for as long as it exists.
-/
import VMSmith.Proofs.Claimants

namespace VMSmith

namespace RequestSys

/-- The request has passed the check and not stored its VM. -/
def claiming (t : Request) : Bool :=
  t.inFlight && (writes t.log).isEmpty &&
    (listings t.log).any fun vms => vms.all fun vm => !sameName vm.name t.op.name

/-- The next command of call `i`, if it commits, lists the VMs while no other call is
claiming the same name, or stores a VM under a new ID, or is another command. -/
def clear (s : RequestSys) (i : Nat) (t : Request) : Bool :=
  match t.prog with
  | .call (.store .listVMs) _ =>
      (List.range s.threads.length).all fun j =>
        j = i || (s.threads[j]?).all fun u => !(claiming u && sameName u.op.name t.op.name)
  | .call (.store (.putVM vm)) _ => (s.world.store.vms.get? vm.id).isNone
  | _ => true

/-- The condition on a step. -/
def Clear (s : RequestSys) : RequestLabel → Prop
  | .step i x => x.fail = none → ∀ t ∈ s.threads[i]?, clear s i t = true
  | _ => True

instance : ∀ (s : RequestSys) (l : RequestLabel), Decidable (Clear s l)
  | _, .step _ _ => inferInstanceAs (Decidable (_ → _))
  | _, .call _ => .isTrue trivial
  | _, .env _ => .isTrue trivial
  | _, .restart _ => .isTrue trivial

/-! ### What one step can do -/

/-- What one command of a request does to the VMs and domains, and to what the request
knows of them; `alone` says that no other call is claiming its name. -/
inductive Effect (alone : Prop) (op : RequestOp) (w w' : World) (log log' : CmdLog) : Prop
  | quiet (hvms : w'.store.vms = w.store.vms) (hvirt : w.virt.Shrinks w'.virt)
      (hlist : listings log' = listings log) (hwrites : writes log' = writes log)
      (hdef : defined log' = defined log)
      (hhandles : ∀ dom ∈ op.handles log', dom ∈ op.handles log ∨ (dom, op.name) ∈ w.virt.idents)
  | list (halone : alone) (hworld : w' = w) (hfirst : listings log = [])
      (hlist : listings log' = [w.store.vms.values]) (hwrites : writes log' = writes log)
      (hdef : defined log' = defined log) (hhandles : op.handles log' = op.handles log)
  | put (vm : VM) (hfree : w.store.vms.get? vm.id = none)
      (hvms : w'.store.vms = w.store.vms.put vm.id vm) (hvirt : w'.virt = w.virt)
      (hready : Ready op log) (hname : vm.name = op.name)
      (hlist : listings log' = listings log) (hwrites : writes log' = [vm])
      (hdef : defined log' = defined log) (hhandles : op.handles log' = op.handles log)
  | define (hvms : w'.store.vms = w.store.vms)
      (hidents : w'.virt.idents = w.virt.idents ++ [(w.virt.nextUUID, op.name)])
      (hnext : w'.virt.nextUUID = w.virt.nextUUID + 1) (hcleared : op.Cleared log)
      (hlist : listings log' = listings log) (hwrites : writes log' = writes log)
      (hdef : defined log' = w.virt.nextUUID :: defined log)
      (hhandles : op.handles log' = w.virt.nextUUID :: op.handles log)

variable {alone : Prop} {op : RequestOp} {w w' : World} {x : Choice} {log log' : CmdLog}

theorem effect {c : Cmd} {r : c.Resp} (hok : op.ok log c)
    (halone : x.fail = none → c = .store .listVMs → alone)
    (hfree : x.fail = none → ∀ vm, c = .store (.putVM vm) → w.store.vms.get? vm.id = none)
    (hexec : World.exec c x w = some (r, w')) : Effect alone op w w' log (⟨c, r⟩ :: log) := by
  cases c with
  | net c | file c | host c =>
      obtain ⟨hstore, hvirt⟩ := World.exec_outside (by exact trivial) hexec
      exact .quiet (by rw [hstore]) (by rw [hvirt]; exact .refl _) rfl rfl rfl
        fun dom hdom => .inl hdom
  | store c =>
      obtain ⟨st, hst, rfl⟩ := World.exec_store hexec
      cases c with
      | getVM id =>
          obtain ⟨rfl, -⟩ := StoreState.exec_getVM hst
          exact .quiet rfl (.refl _) rfl rfl rfl fun dom hdom => .inl hdom
      | listVMs =>
          obtain ⟨rfl, hvms⟩ := StoreState.exec_listVMs hst
          cases r with
          | ok vms =>
              obtain ⟨hx, hvalues⟩ := hvms vms rfl
              refine .list (halone hx rfl) rfl hok ?_ rfl rfl rfl
              rw [listings, hvalues, show listings log = [] from hok]
          | error e => exact .quiet rfl (.refl _) rfl rfl rfl fun dom hdom => .inl hdom
      | putVM vm =>
          obtain ⟨hcleared, hname, hnone⟩ := hok
          rcases StoreState.exec_putVM hst with ⟨hx, rfl, rfl⟩ | ⟨e, rfl, rfl⟩
          · refine .put vm (hfree hx vm rfl) rfl rfl ⟨hcleared, hnone⟩ hname rfl ?_ rfl rfl
            rw [writes, hnone]
          · exact .quiet rfl (.refl _) rfl rfl rfl fun dom hdom => .inl hdom
      | deleteVM id | putSnapshotTags _ _ _ | getSnapshotTags _ _ | listSnapshotTags _ | deleteSnapshotTags _ _ | listPortForwards
      | putPortForward _ | deletePortForward _ => exact hok.elim
  | virt c =>
      obtain ⟨vs, hvs, rfl⟩ := World.exec_virt hexec
      cases c with
      | domainDefineXML xml =>
          obtain ⟨hcleared, huuid, hname⟩ := hok
          rcases VirtState.exec_define_new huuid hvs with ⟨e, rfl, rfl⟩ | ⟨rfl, hidents, hnext⟩
          · exact .quiet rfl (.refl _) rfl rfl rfl fun dom hdom => .inl hdom
          · exact .define rfl (by rw [hidents, hname]) hnext hcleared rfl rfl rfl rfl
      | lookupDomainByName name =>
          obtain ⟨rfl, hfound⟩ := VirtState.exec_lookup hvs
          refine .quiet rfl (.refl _) rfl rfl rfl fun dom hdom => ?_
          cases r with
          | error e => exact .inl hdom
          | ok u =>
              rcases List.mem_append.mp hdom with h | h
              · exact .inl (List.mem_append.mpr (.inl h))
              · rw [found] at h
                split_ifs at h with hn
                · rcases List.mem_cons.mp h with rfl | h
                  · exact .inr (hn ▸ hfound _ rfl)
                  · exact .inl (List.mem_append.mpr (.inr h))
                · exact .inl (List.mem_append.mpr (.inr h))
      | _ =>
          refine .quiet rfl (VirtState.exec_shrinks (by simp) hvs) rfl rfl rfl fun dom hdom => .inl hdom

/-! ### The invariant -/

structure Inv (s : RequestSys) : Prop where
  keyed : s.world.store.Keyed
  sound : s.Sound RequestOp.ok RequestOp.post
  numbered : s.world.virt.Numbered
  apart : ∀ (id id' : String) (vm vm' : VM), s.world.store.vms.get? id = some vm →
    s.world.store.vms.get? id' = some vm' → id ≠ id' → sameName vm.name vm'.name = false
  claims : ∀ (i j : Nat) (t u : Request), s.threads[i]? = some t → s.threads[j]? = some u → i ≠ j →
    t.live = true → u.live = true → t.op.Cleared t.log → u.op.Cleared u.log →
      sameName t.op.name u.op.name = false
  own : ∀ t ∈ s.threads, Request.live t = true → t.op.Cleared t.log → ∀ id vm,
    s.world.store.vms.get? id = some vm → sameName vm.name t.op.name = true →
      ∃ v ∈ writes t.log, v.id = id
  stored : ∀ t ∈ s.threads, ∀ v ∈ writes t.log,
    ∃ vm, s.world.store.vms.get? v.id = some vm ∧ vm.name = t.op.name
  named : ∀ t ∈ s.threads, ∀ dom ∈ t.op.handles t.log, dom < s.world.virt.nextUUID ∧
    ∀ name, (dom, name) ∈ s.world.virt.idents → name = t.op.name
  definer : ∀ t ∈ s.threads, defined t.log ≠ [] → t.op.Cleared t.log

theorem not_cleared_nil (op : RequestOp) {log : CmdLog} (h : listings log = []) :
    ¬ op.Cleared log := by
  rintro ⟨vms, hvms, -⟩
  rw [h] at hvms
  exact absurd hvms (List.not_mem_nil)

/-- A request has cleared its name before the command, or does so now: no stored VM has it. -/
theorem Effect.cleared (h : Effect alone op w w' log log') (hc : op.Cleared log') :
    op.Cleared log ∨ (alone ∧ w' = w ∧
      ∀ id vm, w.store.vms.get? id = some vm → sameName vm.name op.name = false) := by
  cases h with
  | quiet _ _ hlist _ _ _ => exact .inl (hc.of_listings hlist.symm)
  | put _ _ _ _ _ _ hlist _ _ _ => exact .inl (hc.of_listings hlist.symm)
  | define _ _ _ _ hlist _ _ _ => exact .inl (hc.of_listings hlist.symm)
  | list halone hworld hfirst hlist hwrites _ _ =>
      refine .inr ⟨halone, hworld, fun id vm hvm => ?_⟩
      obtain ⟨vms, hvms, hfree⟩ := hc
      rw [hlist, List.mem_singleton] at hvms
      exact hfree vm (hvms ▸ Bucket.mem_values.mpr ⟨id, hvm⟩)

/-- Handles name domains that bear the request's name, or none. -/
theorem Effect.named (h : Effect alone op w w' log log') (hn : w.virt.Numbered)
    (hnamed : ∀ dom ∈ op.handles log, dom < w.virt.nextUUID ∧
      ∀ name, (dom, name) ∈ w.virt.idents → name = op.name) :
    ∀ dom ∈ op.handles log', dom < w'.virt.nextUUID ∧
      ∀ name, (dom, name) ∈ w'.virt.idents → name = op.name := by
  intro dom hdom
  cases h with
  | quiet _ hvirt _ _ _ hhandles =>
      rw [hvirt.nextUUID]
      rcases hhandles dom hdom with hold | hfound
      · exact ⟨(hnamed dom hold).1, fun n hmem => (hnamed dom hold).2 n (hvirt.idents _ hmem)⟩
      · refine ⟨hn.below _ hfound, fun n hmem => ?_⟩
        exact congrArg Prod.snd (hn.unique _ (hvirt.idents _ hmem) _ hfound rfl)
  | list _ hworld _ _ _ _ hhandles =>
      rw [hworld]
      exact hnamed dom (hhandles ▸ hdom)
  | put _ _ _ hvirt _ _ _ _ _ hhandles =>
      rw [hvirt]
      exact hnamed dom (hhandles ▸ hdom)
  | define _ hidents hnext _ _ _ _ hhandles =>
      rw [hnext, hidents]
      rw [hhandles] at hdom
      rcases List.mem_cons.mp hdom with rfl | hold
      · refine ⟨Nat.lt_succ_self _, fun n hmem => ?_⟩
        rcases List.mem_append.mp hmem with hmem | hmem
        · exact absurd (hn.below _ hmem) (Nat.lt_irrefl _)
        · exact congrArg Prod.snd (List.mem_singleton.mp hmem)
      · obtain ⟨hlt, hname⟩ := hnamed dom hold
        refine ⟨Nat.lt_succ_of_lt hlt, fun n hmem => ?_⟩
        rcases List.mem_append.mp hmem with hmem | hmem
        · exact hname n hmem
        · have := congrArg Prod.fst (List.mem_singleton.mp hmem)
          omega

/-- So do the handles of another request. -/
theorem Effect.others_named (h : Effect alone op w w' log log') {name : String} {dom : Nat}
    (hnamed : dom < w.virt.nextUUID ∧ ∀ n, (dom, n) ∈ w.virt.idents → n = name) :
    dom < w'.virt.nextUUID ∧ ∀ n, (dom, n) ∈ w'.virt.idents → n = name := by
  cases h with
  | quiet _ hvirt _ _ _ _ =>
      rw [hvirt.nextUUID]
      exact ⟨hnamed.1, fun n hmem => hnamed.2 n (hvirt.idents _ hmem)⟩
  | list _ hworld _ _ _ _ _ => rw [hworld]; exact hnamed
  | put _ _ _ hvirt _ _ _ _ _ _ => rw [hvirt]; exact hnamed
  | define _ hidents hnext _ _ _ _ _ =>
      rw [hnext, hidents]
      refine ⟨Nat.lt_succ_of_lt hnamed.1, fun n hmem => ?_⟩
      rcases List.mem_append.mp hmem with hmem | hmem
      · exact hnamed.2 n hmem
      · have := congrArg Prod.fst (List.mem_singleton.mp hmem)
        exact absurd hnamed.1 (by simp only at this; omega)

theorem Effect.numbered (h : Effect alone op w w' log log') (hn : w.virt.Numbered) : w'.virt.Numbered := by
  cases h with
  | quiet _ hvirt _ _ _ _ => exact hn.shrinks hvirt
  | list _ hworld _ _ _ _ _ => rw [hworld]; exact hn
  | put _ _ _ hvirt _ _ _ _ _ _ => rw [hvirt]; exact hn
  | define _ hidents hnext _ _ _ _ _ => exact hn.define hidents hnext

/-- Records stay, and at most one is new: the request's own, as its only one. -/
theorem Effect.records (h : Effect alone op w w' log log') :
    (w'.store.vms = w.store.vms ∧ writes log' = writes log) ∨
      ∃ vm, w.store.vms.get? vm.id = none ∧ w'.store.vms = w.store.vms.put vm.id vm ∧ Ready op log ∧ vm.name = op.name ∧
        writes log' = [vm] := by
  cases h with
  | quiet hvms _ _ hwrites _ _ => exact .inl ⟨hvms, hwrites⟩
  | list _ hworld _ _ hwrites _ _ => exact .inl ⟨by rw [hworld], hwrites⟩
  | put vm hfree hvms _ hready hname _ hwrites _ _ => exact .inr ⟨vm, hfree, hvms, hready, hname, hwrites⟩
  | define hvms _ _ _ _ hwrites _ _ => exact .inl ⟨hvms, hwrites⟩

/-- A request that has defined a domain had cleared its name. -/
theorem Effect.definer (h : Effect alone op w w' log log') (hd : defined log ≠ [] → op.Cleared log)
    (hdef' : defined log' ≠ []) : op.Cleared log' := by
  cases h with
  | quiet _ _ hlist _ hdef _ => exact (hd (hdef ▸ hdef')).of_listings hlist
  | list _ _ hfirst _ _ hdef _ => exact absurd (hd (hdef ▸ hdef')) (not_cleared_nil op hfirst)
  | put _ _ _ _ _ _ hlist _ hdef _ => exact (hd (hdef ▸ hdef')).of_listings hlist
  | define _ _ _ hcleared hlist _ _ _ => exact hcleared.of_listings hlist

variable {s s' : RequestSys} {d : Daemon}

/-- No other call is claiming the name of call `i`. -/
def Unclaimed (s : RequestSys) (i : Nat) (t : Request) : Prop :=
  ∀ (j : Nat) (u : Request), s.threads[j]? = some u → j ≠ i → claiming u = true →
    sameName u.op.name t.op.name = false

theorem clear_list {i : Nat} {t : Request} {k} (h : clear s i t = true)
    (hp : t.prog = .call (.store .listVMs) k) : Unclaimed s i t := by
  intro j u hj hne hclaim
  simp only [clear, hp, List.all_eq_true, List.mem_range] at h
  have hlt := (List.getElem?_eq_some_iff.mp hj).1
  simpa [hne, hj, hclaim] using h j hlt

theorem clear_put {i : Nat} {t : Request} {vm : VM} {k} (h : clear s i t = true)
    (hp : t.prog = .call (.store (.putVM vm)) k) : s.world.store.vms.get? vm.id = none := by
  simpa [clear, hp] using h

/-- A live request that has cleared its name is claiming it, or its VM is stored. -/
theorem claiming_or_stored (hs : Inv s) {j : Nat} {u : Request} (hj : s.threads[j]? = some u)
    (hlive : u.live = true) (hc : u.op.Cleared u.log) :
    claiming u = true ∨ ∃ id vm, s.world.store.vms.get? id = some vm ∧ vm.name = u.op.name := by
  have hmem := List.mem_of_getElem? hj
  cases hw : writes u.log with
  | cons v vs =>
      obtain ⟨vm, hget, hname⟩ := hs.stored u hmem v (by rw [hw]; exact List.mem_cons_self)
      exact .inr ⟨v.id, vm, hget, hname⟩
  | nil =>
      refine .inl ?_
      have hflight : u.inFlight = true := by
        simp only [Request.live, Bool.and_eq_true, Bool.not_eq_true'] at hlive
        cases hp : u.prog with
        | ret vm =>
            exact absurd hw (hs.sound.ended hmem (by rw [hp]; rfl) vm rfl).2
        | throw e => simp [hp] at hlive
        | call c k => simp [Thread.inFlight, hlive.1, hp, Prog.isDone]
      obtain ⟨vms, hvms, hfree⟩ := hc
      simp only [claiming, hflight, hw, List.isEmpty_nil, Bool.and_self, Bool.true_and,
        List.any_eq_true, List.all_eq_true, Bool.not_eq_true']
      exact ⟨vms, hvms, hfree⟩

/-- A request that lists the VMs while nobody is claiming its name, and finds the name free,
is the only live one to have cleared it. -/
theorem newcomer (hs : Inv s) {i : Nat} {t : Request} (halone : Unclaimed s i t)
    (hfree : ∀ id vm, s.world.store.vms.get? id = some vm → sameName vm.name t.op.name = false)
    {j : Nat} {u : Request} (hj : s.threads[j]? = some u) (hne : j ≠ i) (hlive : u.live = true)
    (hc : u.op.Cleared u.log) : sameName u.op.name t.op.name = false := by
  rcases claiming_or_stored hs hj hlive hc with hclaim | ⟨id, vm, hget, hname⟩
  · exact halone j u hj hne hclaim
  · rw [← hname]
    exact hfree id vm hget

theorem sameName_false_symm {a b : String} (h : sameName a b = false) : sameName b a = false := by
  cases hba : sameName b a with
  | false => rfl
  | true => exact absurd (sameName_symm hba) (by rw [h]; decide)

/-- A step of one request keeps the invariant. -/
theorem inv_step_step (hs : Inv s) {i : Nat} {x : Choice} (hclear : Clear s (.step i x))
    (h : step d s (.step i x) = some s') : Inv s' := by
  have hsound : s'.Sound RequestOp.ok RequestOp.post := Pool.sound_step (RequestOp.body_wp d) hs.sound h
  obtain ⟨t, c, k, r, w, ht, hlost, hprog, hexec, rfl⟩ := Pool.step_step h
  have hmem := List.mem_of_getElem? ht
  have hlive : Request.live t = true := by simp [Request.live, hlost, hprog]
  have heffect : Effect (Unclaimed s i t) t.op s.world w t.log (⟨c, r⟩ :: t.log) := by
    refine effect (hs.sound.allowed ht hprog) (fun hx hc => ?_) (fun hx vm hc => ?_) hexec
    · subst hc
      exact clear_list (hclear hx t ht) hprog
    · subst hc
      exact clear_put (hclear hx t ht) hprog
  -- a thread after the step is the one that moved, or another that has not
  have hthread : ∀ (j : Nat) (u : Request), (s.threads.set i (t.advance c r (k r)))[j]? = some u →
      (j = i ∧ u = t.advance c r (k r)) ∨ (j ≠ i ∧ s.threads[j]? = some u) :=
    fun j u hj => Pool.getElem?_advance ht hj
  -- a record after the step was there before it, or is the one request's own new one
  have hrecord : ∀ id vm, w.store.vms.get? id = some vm →
      s.world.store.vms.get? id = some vm ∨
        (Ready t.op t.log ∧ vm.name = t.op.name ∧ writes (⟨c, r⟩ :: t.log) = [vm] ∧ vm.id = id) := by
    intro id vm hvm
    rcases heffect.records with ⟨hvms, -⟩ | ⟨v, -, hvms, hready, hname, hwrites⟩
    · exact .inl (hvms ▸ hvm)
    · rw [hvms] at hvm
      rcases Bucket.mem_put hvm with ⟨rfl, rfl⟩ | ⟨-, hold⟩
      · exact .inr ⟨hready, hname, hwrites, rfl⟩
      · exact .inl hold
  -- nothing stored has the name of a request that is about to store its VM
  have hfree : Ready t.op t.log → ∀ id vm, s.world.store.vms.get? id = some vm →
      sameName vm.name t.op.name = false := by
    intro hready id vm hvm
    cases hsame : sameName vm.name t.op.name with
    | false => rfl
    | true =>
        obtain ⟨v, hv, -⟩ := hs.own t hmem hlive hready.cleared id vm hvm hsame
        rw [hready.unwritten] at hv
        exact absurd hv List.not_mem_nil
  -- and no other live request has cleared the name of the one that moves
  have hclaim : t.op.Cleared (⟨c, r⟩ :: t.log) → ∀ (j : Nat) (u : Request),
      s.threads[j]? = some u → j ≠ i → u.live = true → u.op.Cleared u.log →
        sameName u.op.name t.op.name = false := by
    intro hcleared j u hj hne hu hc
    rcases heffect.cleared hcleared with hold | ⟨halone, -, hnone⟩
    · exact hs.claims j i u t hj ht hne hu hlive hc hold
    · exact newcomer hs halone hnone hj hne hu hc
  refine ⟨?_, hsound, heffect.numbered hs.numbered, ?_, ?_, ?_, ?_, ?_, ?_⟩
  · intro id vm hvm
    rcases hrecord id vm hvm with hold | ⟨-, -, -, hid⟩
    · exact hs.keyed id vm hold
    · exact hid
  · intro id id' vm vm' hvm hvm' hne
    rcases hrecord id vm hvm with hold | ⟨hready, hname, hwrites, hid⟩ <;>
      rcases hrecord id' vm' hvm' with hold' | ⟨hready', hname', hwrites', hid'⟩
    · exact hs.apart id id' vm vm' hold hold' hne
    · exact hname' ▸ hfree hready' id vm hold
    · exact sameName_false_symm (hname ▸ hfree hready id' vm' hold')
    · rw [hwrites, List.singleton_inj] at hwrites'
      exact absurd (hid.symm.trans ((congrArg VM.id hwrites').trans hid')) hne
  · intro j j' u u' hj hj' hne hu hu' hc hc'
    rcases hthread j u hj with ⟨rfl, rfl⟩ | ⟨hji, hold⟩ <;>
      rcases hthread j' u' hj' with ⟨rfl, rfl⟩ | ⟨hji', hold'⟩
    · exact absurd rfl hne
    · exact sameName_false_symm (hclaim hc j' u' hold' hji' hu' hc')
    · exact hclaim hc' j u hold hji hu hc
    · exact hs.claims j j' u u' hold hold' hne hu hu' hc hc'
  · intro u hu hulive hc id vm hvm hsame
    obtain ⟨j, hj⟩ := List.getElem?_of_mem hu
    rcases hthread j u hj with ⟨rfl, rfl⟩ | ⟨hji, hold⟩
    · rcases heffect.records with ⟨hvms, hwrites⟩ | ⟨v, -, hvms, hready, hname, hwrites⟩
      · rcases heffect.cleared hc with hcleared | ⟨-, rfl, hnone⟩
        · exact hwrites ▸ hs.own t hmem hlive hcleared id vm (hvms ▸ hvm) hsame
        · exact absurd (hsame.symm.trans (hnone id vm hvm)) (by decide)
      · rw [hvms] at hvm
        rcases Bucket.mem_put hvm with ⟨rfl, rfl⟩ | ⟨-, hold⟩
        · refine ⟨vm, ?_, rfl⟩
          show vm ∈ writes (⟨c, r⟩ :: t.log)
          rw [hwrites]
          exact List.mem_singleton_self vm
        · exact absurd (hsame.symm.trans (hfree hready id vm hold)) (by decide)
    · rcases hrecord id vm hvm with hstored | ⟨hready, hname, -, -⟩
      · exact hs.own u (List.mem_of_getElem? hold) hulive hc id vm hstored hsame
      · have := hs.claims i j t u ht hold (Ne.symm hji) hlive hulive hready.cleared hc
        rw [hname, this] at hsame
        exact absurd hsame (by decide)
  · intro u hu v hv
    obtain ⟨j, hj⟩ := List.getElem?_of_mem hu
    -- what was written before is stored still
    have hkept : ∀ v : VM, (∃ vm, s.world.store.vms.get? v.id = some vm ∧ vm.name = u.op.name) →
        ∃ vm, w.store.vms.get? v.id = some vm ∧ vm.name = u.op.name := by
      rintro v ⟨vm, hget, hname⟩
      rcases heffect.records with ⟨hvms, -⟩ | ⟨v', hnew, hvms, -⟩
      · exact ⟨vm, hvms ▸ hget, hname⟩
      · have hne : v.id ≠ v'.id := fun heq => by rw [heq, hnew] at hget; simp at hget
        exact ⟨vm, by rw [hvms, Bucket.get?_put_ne _ _ hne]; exact hget, hname⟩
    rcases hthread j u hj with ⟨rfl, rfl⟩ | ⟨-, hold⟩
    · rcases heffect.records with ⟨-, hwrites⟩ | ⟨v', -, hvms, -, hname, hwrites⟩
      · exact hkept v (hs.stored t hmem v (hwrites ▸ hv))
      · obtain rfl : v = v' := List.mem_singleton.mp (hwrites ▸ hv)
        exact ⟨v, by rw [hvms, Bucket.get?_put_self], hname⟩
    · exact hkept v (hs.stored u (List.mem_of_getElem? hold) v hv)
  · intro u hu dom hdom
    obtain ⟨j, hj⟩ := List.getElem?_of_mem hu
    rcases hthread j u hj with ⟨rfl, rfl⟩ | ⟨-, hold⟩
    · exact heffect.named hs.numbered (hs.named t hmem) dom hdom
    · exact heffect.others_named (hs.named u (List.mem_of_getElem? hold) dom hdom)
  · intro u hu hdef
    obtain ⟨j, hj⟩ := List.getElem?_of_mem hu
    rcases hthread j u hj with ⟨rfl, rfl⟩ | ⟨-, hold⟩
    · exact heffect.definer (hs.definer t hmem) hdef
    · exact hs.definer u (List.mem_of_getElem? hold) hdef

/-- So does a call that is made, a restart, and anything that happens by itself. -/
theorem inv_step_other (hs : Inv s) {l : RequestLabel} (hl : ∀ i x, l ≠ .step i x)
    (h : step d s l = some s') : Inv s' := by
  obtain ⟨hstore, hvirt⟩ : s'.world.store = s.world.store ∧ s.world.virt.Shrinks s'.world.virt := by
    rcases Pool.world_kept hl h with hw | ⟨e, he⟩
    · rw [hw]
      exact ⟨rfl, .refl _⟩
    · unfold drift at he
      split_ifs at he with hdrift
      rw [← Option.some.inj he]
      exact ⟨rfl, hdrift.1, hdrift.2⟩
  obtain ⟨-, hnew⟩ := Pool.threads_kept hl h
  -- a live thread after the step was one before it, or has no log yet
  have hthread : ∀ (j : Nat) (u : Request), s'.threads[j]? = some u → u.log = [] ∨
      ∃ t, s.threads[j]? = some t ∧ u.op = t.op ∧ u.log = t.log ∧
        (Request.live u = true → Request.live t = true) := by
    intro j u hj
    rcases hnew j u hj with ⟨t, ht, halike⟩ | ⟨-, hnil, -⟩
    · refine .inr ⟨t, ht, halike.op, halike.log, fun hlive => ?_⟩
      simp only [Request.live, Bool.and_eq_true, Bool.not_eq_true', halike.prog] at hlive ⊢
      refine ⟨?_, hlive.2⟩
      cases hlost : t.lost with
      | false => rfl
      | true => rw [halike.lost hlost] at hlive; exact absurd hlive.1 (by decide)
    · exact .inl hnil
  have hmem : ∀ u ∈ s'.threads, u.log = [] ∨ ∃ t ∈ s.threads, u.op = t.op ∧ u.log = t.log ∧
      (Request.live u = true → Request.live t = true) := by
    intro u hu
    obtain ⟨j, hj⟩ := List.getElem?_of_mem hu
    rcases hthread j u hj with hnil | ⟨t, ht, hrest⟩
    · exact .inl hnil
    · exact .inr ⟨t, List.mem_of_getElem? ht, hrest⟩
  have hfresh : ∀ {op : RequestOp} {log : CmdLog}, log = [] → ¬ op.Cleared log := by
    rintro op _ rfl
    exact not_cleared_nil op rfl
  refine ⟨?_, Pool.sound_step (RequestOp.body_wp d) hs.sound h, hs.numbered.shrinks hvirt, ?_, ?_, ?_,
    ?_, ?_, ?_⟩
  · rw [StoreState.Keyed, hstore]
    exact hs.keyed
  · rw [hstore]
    exact hs.apart
  · intro i j t u hi hj hne ht hu hct hcu
    rcases hthread i t hi with hnil | ⟨t₀, ht₀, hop, hlog, hlive⟩
    · exact absurd hct (hfresh hnil)
    · rcases hthread j u hj with hnil | ⟨u₀, hu₀, hop', hlog', hlive'⟩
      · exact absurd hcu (hfresh hnil)
      · rw [hop, hop']
        rw [hop, hlog] at hct
        rw [hop', hlog'] at hcu
        exact hs.claims i j t₀ u₀ ht₀ hu₀ hne (hlive ht) (hlive' hu) hct hcu
  · intro u hu hulive hc id vm hvm hsame
    rcases hmem u hu with hnil | ⟨t, ht, hop, hlog, hlive⟩
    · exact absurd hc (hfresh hnil)
    · rw [hlog]
      rw [hop, hlog] at hc
      rw [hop] at hsame
      rw [hstore] at hvm
      exact hs.own t ht (hlive hulive) hc id vm hvm hsame
  · intro u hu v hv
    rcases hmem u hu with hnil | ⟨t, ht, hop, hlog, -⟩
    · rw [hnil] at hv
      exact absurd hv List.not_mem_nil
    · rw [hop, hstore]
      exact hs.stored t ht v (hlog ▸ hv)
  · intro u hu dom hdom
    rcases hmem u hu with hnil | ⟨t, ht, hop, hlog, -⟩
    · rw [hnil] at hdom
      exact absurd hdom List.not_mem_nil
    · rw [hop, hlog] at hdom
      obtain ⟨hlt, hname⟩ := hs.named t ht dom hdom
      rw [hop, hvirt.nextUUID]
      exact ⟨hlt, fun n hn => hname n (hvirt.idents _ hn)⟩
  · intro u hu hdef
    rcases hmem u hu with hnil | ⟨t, ht, hop, hlog, -⟩
    · rw [hnil] at hdef
      exact absurd rfl hdef
    · rw [hop, hlog]
      exact hs.definer t ht (hlog ▸ hdef)

/-- **Every step that is clear keeps the invariant.** -/
theorem inv_step (s : RequestSys) (l : RequestLabel) (s' : RequestSys) (hs : Inv s)
    (hclear : Clear s l) (h : step d s l = some s') : Inv s' := by
  by_cases hl : ∃ i x, l = .step i x
  · obtain ⟨i, x, rfl⟩ := hl
    exact inv_step_step hs hclear h
  · exact inv_step_other hs (fun i x hx => hl ⟨i, x, hx⟩) h

/-- A world no request has been made in. -/
def init (w : World) : RequestSys := { world := w }

/-- What concurrent requests owe each other: stored VMs have different names, and a domain
that a request is about to destroy or undefine was not defined by another request that is
under way or has returned, nor does it bear the name of a stored VM. -/
structure NamesApart (s : RequestSys) : Prop where
  stored : ∀ (id id' : String) (vm vm' : VM), s.world.store.vms.get? id = some vm →
    s.world.store.vms.get? id' = some vm' → id ≠ id' → sameName vm.name vm'.name = false
  spared : ∀ (i : Nat) (t : Request) (dom : Nat) (name : String), s.threads[i]? = some t →
    t.lost = false → t.victim? = some dom → (dom, name) ∈ s.world.virt.idents →
      (∀ (j : Nat) (u : Request), s.threads[j]? = some u → j ≠ i → u.live = true →
        dom ∉ defined u.log) ∧
      ∀ id vm, s.world.store.vms.get? id = some vm → sameName vm.name name = false

/-- A world whose stored VMs have different names and whose domains are libvirt's. -/
structure WellNamed (w : World) : Prop where
  keyed : w.store.Keyed
  numbered : w.virt.Numbered
  apart : ∀ (id id' : String) (vm vm' : VM), w.store.vms.get? id = some vm →
    w.store.vms.get? id' = some vm' → id ≠ id' → sameName vm.name vm'.name = false

theorem inv_init {w : World} (h : WellNamed w) : Inv (init w) where
  keyed := h.keyed
  sound := by simp [Pool.Sound, init]
  numbered := h.numbered
  apart := h.apart
  claims := by simp [init]
  own := by simp [init]
  stored := by simp [init]
  named := by simp [init]
  definer := by simp [init]

theorem Inv.toNamesApart (hs : Inv s) : NamesApart s where
  stored := hs.apart
  spared := by
    intro i t dom name ht hlost hvictim hdom
    have hmem := List.mem_of_getElem? ht
    unfold Request.victim? at hvictim
    split at hvictim
    · rename_i c k hprog
      obtain ⟨hcleared, hhandle, hnone⟩ := victim_ok (hs.sound.allowed ht hprog) hvictim
      have hlive : Request.live t = true := by simp [Request.live, hlost, hprog]
      obtain rfl := (hs.named t hmem dom hhandle).2 name hdom
      refine ⟨fun j u hj hne hu hdef => ?_, fun id vm hvm => ?_⟩
      · have humem := List.mem_of_getElem? hj
        have hname := (hs.named u humem dom (List.mem_append.mpr (.inl hdef))).2 _ hdom
        have hc := hs.definer u humem (List.ne_nil_of_mem hdef)
        have := hs.claims i j t u ht hj (Ne.symm hne) hlive hu hcleared hc
        rw [hname, sameName_refl] at this
        exact absurd this (by decide)
      · cases hsame : sameName vm.name t.op.name with
        | false => rfl
        | true =>
            obtain ⟨v, hv, -⟩ := hs.own t hmem hlive hcleared id vm hvm hsame
            rw [hnone] at hv
            exact absurd hv List.not_mem_nil
    · exact absurd hvictim (by simp)

/-- **Names stay apart.**  In every run of create and clone requests over any stored VMs
with different names, whose steps are all clear. -/
theorem names_apart (d : Daemon) (w : World) (hw : WellNamed w) (ls : List RequestLabel)
    (hclear : Run.Guarded (step d) Clear (init w) ls)
    (hrun : Run.exec (step d) (init w) ls = some s) : NamesApart s :=
  (Run.exec_invariant Inv inv_step ls (init w) s (inv_init hw) hclear hrun).toNamesApart

/-- A host with the default location's directory and nothing else. -/
def emptyHost : World := { file := { files := [(["var", "lib", "vmsmith", "vms"], 0)] } }

theorem emptyHost_wellNamed : WellNamed emptyHost where
  keyed := by simp [emptyHost, StoreState.Keyed]
  numbered := ⟨by simp [emptyHost, VirtState.idents], by simp [emptyHost, VirtState.idents]⟩
  apart := by simp [emptyHost]

/-- Two creations: the second lists the VMs, the first runs to its end, and the second has
its next `n` commands answered. -/
def overtaken (name name' : String) (n : Nat) : List RequestLabel :=
  [.call (.create { name := name, image := "rocky9" }),
    .call (.create { name := name', image := "rocky9" }),
    .step 1 { flag := true }] ++
    List.replicate 23 (.step 0 { flag := true, nat := 1, text := "52:54:00:00:00:01" }) ++
    List.replicate n (.step 1 { flag := true, nat := 1, text := "52:54:00:00:00:02" })

theorem names_apart_web_db :
    ∃ s, Run.exec (step .plain) (init emptyHost) (overtaken "web" "db" 22) = some s ∧
      NamesApart s := by
  have hsome : (Run.exec (step .plain) (init emptyHost) (overtaken "web" "db" 22)).isSome := by
    decide
  obtain ⟨s, hs⟩ := Option.isSome_iff_exists.mp hsome
  exact ⟨s, hs, names_apart .plain _ emptyHost_wellNamed (overtaken "web" "db" 22) (by decide) hs⟩

/-- Both creations are of `web`: the second is about to destroy the domain of the first one's
VM, and in the end two stored VMs have the name. -/
theorem names_not_apart :
    (∃ s, Run.exec (step .plain) (init emptyHost) (overtaken "web" "web" 17) = some s ∧
      ¬ NamesApart s) ∧
    ∃ s, Run.exec (step .plain) (init emptyHost) (overtaken "web" "web" 26) = some s ∧
      ¬ NamesApart s := by
  constructor
  · have hreaps : (Run.exec (step .plain) (init emptyHost) (overtaken "web" "web" 17)).any
        (fun s => (s.threads[1]?).any (fun t => t.lost = false ∧ Request.victim? t = some 1) ∧
          (s.threads[0]?).any (fun u => Request.live u = true ∧ 1 ∈ defined u.log) ∧
          (1, "web") ∈ s.world.virt.idents) = true := by decide
    obtain ⟨s, hs, h⟩ := (Option.any_eq_true _ _).mp hreaps
    rw [decide_eq_true_eq, Option.any_eq_true, Option.any_eq_true] at h
    obtain ⟨⟨t, ht, hvictim⟩, ⟨u, hu, hdef⟩, hdom⟩ := h
    rw [decide_eq_true_eq] at hvictim hdef
    refine ⟨s, hs, fun hapart => ?_⟩
    exact (hapart.spared 1 t 1 "web" ht hvictim.1 hvictim.2 hdom).1 0 u hu (by decide) hdef.1 hdef.2
  · have htwice : (Run.exec (step .plain) (init emptyHost) (overtaken "web" "web" 26)).any
        (fun s => (s.world.store.vms.get? "vm-1").map VM.name = some "web" ∧
          (s.world.store.vms.get? "vm-5").map VM.name = some "web") = true := by decide
    obtain ⟨s, hs, h⟩ := (Option.any_eq_true _ _).mp htwice
    rw [decide_eq_true_eq, Option.map_eq_some_iff, Option.map_eq_some_iff] at h
    obtain ⟨⟨vm, hvm, hname⟩, vm', hvm', hname'⟩ := h
    refine ⟨s, hs, fun hapart => ?_⟩
    have := hapart.stored "vm-1" "vm-5" vm vm' hvm hvm' (by decide)
    rw [hname, hname', sameName_refl] at this
    exact absurd this (by decide)

end RequestSys

end VMSmith

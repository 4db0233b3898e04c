/-
A create or clone request by itself.

A request lists the stored VMs, checks its name against the list, and much later
takes whatever domain carries the name for an orphan, tears it down, defines its own
and stores its record.  Whatever the world answers, it stores and defines under its own
name only, after a listing that had no VM of that name, and it ends no domain but one it
defined or found under its name, and that only before its VM is stored.
-/
import VMSmith.Api.Requests

namespace VMSmith

open Prog (wp Only)
open Go (trimSpace)

/-! ### Comparing names -/

theorem sameName_refl (a : String) : sameName a a = true := Go.equalFold_refl _

theorem sameName_symm {a b : String} (h : sameName a b = true) : sameName b a = true :=
  Go.equalFold_symm h

theorem sameName_trans {a b c : String} (hab : sameName a b = true) (hbc : sameName b c = true) :
    sameName a c = true := Go.equalFold_trans hab hbc

namespace RequestOp

/-- The request has listed the VMs, and none listed has its name. -/
def Cleared (op : RequestOp) (log : CmdLog) : Prop :=
  ∃ vms ∈ listings log, ∀ vm ∈ vms, sameName vm.name op.name = false

/-- The domains the request knows by its own name. -/
def handles (op : RequestOp) (log : CmdLog) : List Nat := defined log ++ found op.name log

/-- What a request may issue after what it was answered. -/
def ok (op : RequestOp) (log : CmdLog) : Cmd → Prop
  | .store .listVMs => listings log = []
  | .store (.getVM _) => True
  | .store (.putVM vm) => op.Cleared log ∧ vm.name = op.name ∧ writes log = []
  | .store _ => False
  | .virt (.domainDefineXML xml) => op.Cleared log ∧ xml.uuid = none ∧ xml.name = op.name
  | .virt (.destroy dom) => op.Cleared log ∧ dom ∈ op.handles log ∧ writes log = []
  | .virt (.undefineFlags dom) => op.Cleared log ∧ dom ∈ op.handles log ∧ writes log = []
  | .virt (.undefine dom) => op.Cleared log ∧ dom ∈ op.handles log ∧ writes log = []
  | _ => True

/-- A request that returns has cleared its name and stored its VM. -/
def post (op : RequestOp) (res : Except Err VM) (log : CmdLog) : Prop :=
  ∀ vm, res = .ok vm → op.Cleared log ∧ writes log ≠ []

end RequestOp

/-! ### A request alone -/

/-- A command that is neither the store's, but for reading a record, nor a definition, nor
the end of a domain. -/
def Cmd.Gentle : Cmd → Prop
  | .store (.getVM _) => True
  | .store _ => False
  | .virt (.domainDefineXML _) => False
  | .virt (.destroy _) => False
  | .virt (.undefineFlags _) => False
  | .virt (.undefine _) => False
  | _ => True

theorem Cmd.Outside.gentle {c : Cmd} (h : c.Outside) : c.Gentle := by
  cases c with
  | store c | virt c => exact h.elim
  | net c | file c | host c => exact trivial

abbrev Gentle {α : Type} (p : M α) : Prop := Only Cmd.Gentle p

theorem Outside.gentle {α : Type} {p : M α} (h : Outside p) : Gentle p :=
  Only.mono (fun _ hc => hc.gentle) h

theorem Aside.gentle {α : Type} {p : M α} (h : Aside p) : Gentle p := h.outside.gentle

theorem gentle_getVM (id : String) : Gentle (getVM id) :=
  only_orFailed (Prog.only_perform trivial)

theorem gentle_virtCall {c : VirtCmd} (h : Cmd.Gentle (.virt c)) : Gentle (virtCall c) :=
  Prog.only_perform h

/-- A command that neither lists the VMs nor stores one. -/
def Cmd.Quiet : Cmd → Prop
  | .store .listVMs => False
  | .store (.putVM _) => False
  | _ => True

theorem Cmd.Gentle.quiet {c : Cmd} (h : c.Gentle) : c.Quiet := by
  cases c with
  | store c => cases c <;> first | exact trivial | exact h.elim
  | virt c | net c | file c | host c => exact trivial

theorem Cmd.Gentle.ok {c : Cmd} (h : c.Gentle) (op : RequestOp) (log : CmdLog) : op.ok log c := by
  cases c with
  | store c | virt c => cases c <;> first | exact trivial | exact h.elim
  | net c | file c | host c => exact trivial

/-- What a request goes on knowing while it neither lists nor stores. -/
structure Grows (op : RequestOp) (log log' : CmdLog) : Prop where
  listings : listings log' = listings log
  writes : writes log' = writes log
  handles : ∀ dom ∈ op.handles log, dom ∈ op.handles log'

/-- The request may go on and define its domain. -/
structure Ready (op : RequestOp) (log : CmdLog) : Prop where
  cleared : op.Cleared log
  unwritten : writes log = []

abbrev requestSem (op : RequestOp) : Prog.Sem Cmd Cmd.Resp CmdLog := Prog.Sem.alone op.ok

section Alone

variable {op : RequestOp} {α β : Type} {log log' log'' : CmdLog}

theorem Grows.refl (op : RequestOp) (log : CmdLog) : Grows op log log := ⟨rfl, rfl, fun _ h => h⟩

theorem Grows.trans (h : Grows op log log') (h' : Grows op log' log'') : Grows op log log'' :=
  ⟨h'.listings.trans h.listings, h'.writes.trans h.writes,
    fun dom hdom => h'.handles dom (h.handles dom hdom)⟩

theorem RequestOp.Cleared.of_listings (h : op.Cleared log) (hl : listings log' = listings log) :
    op.Cleared log' := by
  unfold Cleared
  rw [hl]
  exact h

theorem Ready.grows (h : Ready op log) (hg : Grows op log log') : Ready op log' :=
  ⟨h.cleared.of_listings hg.listings, hg.writes.trans h.unwritten⟩

/-- The handles a request has only become more. -/
theorem handles_cons (op : RequestOp) (e : Σ c : Cmd, c.Resp) (log : CmdLog) :
    ∀ dom ∈ op.handles log, dom ∈ op.handles (e :: log) := by
  intro dom hdom
  rcases List.mem_append.mp hdom with h | h
  · refine List.mem_append.mpr (.inl ?_)
    unfold defined
    split
    · exact absurd ‹_› (by simp)
    · rename_i heq
      rw [List.cons.injEq] at heq
      rw [← heq.2]
      exact List.mem_cons_of_mem _ h
    · rename_i heq
      rw [List.cons.injEq] at heq
      rw [← heq.2]
      exact h
  · refine List.mem_append.mpr (.inr ?_)
    unfold found
    split
    · exact absurd ‹_› (by simp)
    · rename_i heq
      rw [List.cons.injEq] at heq
      rw [← heq.2]
      split_ifs
      · exact List.mem_cons_of_mem _ h
      · exact h
    · rename_i heq
      rw [List.cons.injEq] at heq
      rw [← heq.2]
      exact h

theorem listings_quiet {c : Cmd} (hc : c.Quiet) (r : c.Resp) :
    listings (⟨c, r⟩ :: log) = listings log := by
  cases c with
  | store c => cases c <;> first | exact hc.elim | rfl
  | virt c | net c | file c | host c => rfl

theorem writes_quiet {c : Cmd} (hc : c.Quiet) (r : c.Resp) :
    writes (⟨c, r⟩ :: log) = writes log := by
  cases c with
  | store c => cases c <;> first | exact hc.elim | rfl
  | virt c | net c | file c | host c => rfl

/-- One command. -/
theorem grows_quiet {c : Cmd} (hc : c.Quiet) (r : c.Resp) : Grows op log (⟨c, r⟩ :: log) :=
  ⟨listings_quiet hc r, writes_quiet hc r, handles_cons op _ log⟩

/-- A part that is quiet, and in order as long as the request knows what it knew. -/
theorem wp_grows {P : Cmd → Prop} (hquiet : ∀ c, P c → c.Quiet)
    (hok : ∀ log' c, Grows op log log' → P c → op.ok log' c) {p : M α} (hp : Only P p)
    {Q : Except Err α → CmdLog → Prop} (hQ : ∀ r log', Grows op log log' → Q r log') :
    wp (requestSem op) p Q log := by
  refine Prog.wp_of_only _ (fun log' c hg hc => hok log' c hg hc) ?_ hp (Grows.refl op log) hQ
  rintro log' c r _ hg hc rfl
  exact hg.trans (grows_quiet (hquiet c hc) r)

theorem wp_gentle {p : M α} (hp : Gentle p) {Q : Except Err α → CmdLog → Prop}
    (hQ : ∀ r log', Grows op log log' → Q r log') : wp (requestSem op) p Q log :=
  wp_grows (fun _ hc => hc.quiet) (fun log' _ _ hc => hc.ok op log') hp hQ

/-- A gentle part and what it can return. -/
theorem wp_gentle_yields {φ : α → Prop} {p : M α} (hp : Gentle p) (hy : Prog.Yields φ p)
    {Q : Except Err β → CmdLog → Prop} (herr : ∀ e log', Grows op log log' → Q (.error e) log')
    {f : α → M β} (hf : ∀ a log', φ a → Grows op log log' → wp (requestSem op) (f a) Q log') :
    wp (requestSem op) (p >>= f) Q log := by
  rw [Prog.bind_eq, Prog.wp_bind]
  have hwp : wp (requestSem op) p (fun _ log' => Grows op log log') log :=
    wp_gentle hp fun _ _ hg => hg
  refine Prog.wp_mono (fun r log' h => ?_) (Prog.wp_yields hy hwp)
  cases r with
  | ok a => exact hf a log' (h.2 a rfl) h.1
  | error e => exact herr e log' h.1

theorem wp_gentle_bind {p : M α} (hp : Gentle p) {Q : Except Err β → CmdLog → Prop}
    (herr : ∀ e log', Grows op log log' → Q (.error e) log') {f : α → M β}
    (hf : ∀ a log', Grows op log log' → wp (requestSem op) (f a) Q log') :
    wp (requestSem op) (p >>= f) Q log :=
  wp_gentle_yields hp (Prog.yields_true p) herr fun a log' _ hg => hf a log' hg

/-- A check, and what it has shown. -/
theorem wp_orFail_bind {r : Except Err α} {Q : Except Err β → CmdLog → Prop}
    (herr : ∀ e, Q (.error e) log) {f : α → M β}
    (hf : ∀ a, r = .ok a → wp (requestSem op) (f a) Q log) :
    wp (requestSem op) (orFail r >>= f) Q log := by
  rw [Prog.bind_eq, Prog.wp_bind, wp_orFail]
  cases r with
  | ok a => exact hf a rfl
  | error e => exact herr e

theorem wp_orWrap_bind {r : Except Err α} {context : String} {Q : Except Err β → CmdLog → Prop}
    (herr : ∀ e, Q (.error e) log) {f : α → M β}
    (hf : ∀ a, r = .ok a → wp (requestSem op) (f a) Q log) :
    wp (requestSem op) (orWrap context r >>= f) Q log := by
  rw [Prog.bind_eq, Prog.wp_bind, wp_orWrap]
  cases r with
  | ok a => exact hf a rfl
  | error e => exact herr (.wrap context e)

/-- A request that fails owes nothing. -/
theorem post_error (e : Err) (log : CmdLog) : op.post (.error e) log :=
  fun _ h => by simp at h

/-- A gentle part of a request. -/
theorem promised_bind {p : M α} (hp : Gentle p) {f : α → M VM}
    (hf : ∀ a log', Grows op log log' → wp (requestSem op) (f a) op.post log') :
    wp (requestSem op) (p >>= f) op.post log :=
  wp_gentle_bind hp (fun e log' _ => post_error e log') hf

/-- A gentle part after which the request fails. -/
theorem promised_fails {p : M α} (hp : Gentle p) (e : Err) :
    wp (requestSem op) (p >>= fun _ => .throw e) op.post log :=
  promised_bind hp fun _ log' _ => (Prog.wp_throw _ _ _).mpr (post_error e log')

end Alone

/-! ### The domain of a request -/

section Domain

variable {op : RequestOp} {α β : Type} {log log' : CmdLog} {dom : Nat}

/-- The commands `forceUndefineDomain` issues. -/
def Cmd.Ends (dom : Nat) (c : Cmd) : Prop := c.Gentle ∨ c.victim? = some dom

theorem Cmd.Ends.quiet {c : Cmd} (h : c.Ends dom) : c.Quiet := by
  rcases h with h | h
  · exact h.quiet
  · unfold Cmd.Quiet
    split
    · exact absurd h (by simp [Cmd.victim?])
    · exact absurd h (by simp [Cmd.victim?])
    · exact trivial

/-- Before its VM is stored a request may end a domain it knows by its own name. -/
theorem Cmd.Ends.ok {c : Cmd} (h : c.Ends dom) (hr : Ready op log) (hdom : dom ∈ op.handles log) :
    op.ok log c := by
  rcases h with h | h
  · exact h.ok op log
  · unfold Cmd.victim? at h
    split at h
    · obtain rfl := Option.some.inj h
      exact ⟨hr.cleared, hdom, hr.unwritten⟩
    · obtain rfl := Option.some.inj h
      exact ⟨hr.cleared, hdom, hr.unwritten⟩
    · obtain rfl := Option.some.inj h
      exact ⟨hr.cleared, hdom, hr.unwritten⟩
    · exact absurd h (by simp)

/-- A domain a request ends is one it knows by its own name, and its VM is not stored. -/
theorem victim_ok {c : Cmd} (h : op.ok log c) (hc : c.victim? = some dom) :
    op.Cleared log ∧ dom ∈ op.handles log ∧ writes log = [] := by
  unfold Cmd.victim? at hc
  split at hc
  · exact Option.some.inj hc ▸ h
  · exact Option.some.inj hc ▸ h
  · exact Option.some.inj hc ▸ h
  · exact absurd hc (by simp)

theorem ends_forceUndefineDomain (dom : Nat) :
    Only (Cmd.Ends dom) (Manager.forceUndefineDomain dom) := by
  have hactive : Only (Cmd.Ends dom) (Manager.destroyActive dom) := by
    refine Only.bind (Prog.only_perform (.inl trivial)) fun r => ?_
    cases r with
    | ok _ => exact only_when (only_ignore (Prog.only_perform (.inr rfl)))
    | error _ => exact .ret _
  refine hactive.bind fun _ => Only.bind (Prog.only_perform (.inr rfl)) fun r => ?_
  cases r with
  | ok _ => exact .ret _
  | error _ => exact Prog.only_perform (.inr rfl)

theorem wp_ends {p : M α} (hp : Only (Cmd.Ends dom) p) (hr : Ready op log)
    (hdom : dom ∈ op.handles log) {Q : Except Err α → CmdLog → Prop}
    (hQ : ∀ r log', Grows op log log' → Q r log') : wp (requestSem op) p Q log :=
  wp_grows (fun _ hc => hc.quiet) (fun _ _ hg hc => hc.ok (hr.grows hg) (hg.handles dom hdom)) hp hQ

/-- A request that ends its own domain and then fails. -/
theorem promised_ends {p : M α} (hp : Only (Cmd.Ends dom) p) (hr : Ready op log)
    (hdom : dom ∈ op.handles log) {f : α → M VM}
    (hf : ∀ a log', wp (requestSem op) (f a) op.post log') :
    wp (requestSem op) (p >>= f) op.post log := by
  rw [Prog.bind_eq, Prog.wp_bind]
  refine wp_ends hp hr hdom fun r log' _ => ?_
  cases r with
  | ok a => exact hf a log'
  | error e => exact post_error e log'

/-- Reaping the domain of the request's own name. -/
theorem wp_reap {name : String} (hname : name = op.name) (hr : Ready op log) {Q : Except Err Unit → CmdLog → Prop}
    (hQ : ∀ r log', Grows op log log' → Q r log') :
    wp (requestSem op) (Manager.reapOrphan name) Q log := by
  subst hname
  refine Prog.wp_alone_perform.mpr ⟨trivial, fun r => ?_⟩
  have hg : Grows op log (⟨.virt (.lookupDomainByName op.name), r⟩ :: log) := grows_quiet (by exact trivial) r
  cases r with
  | ok dom =>
      have hdom : dom ∈ op.handles (⟨.virt (.lookupDomainByName op.name), .ok dom⟩ :: log) := by
        refine List.mem_append.mpr (.inr ?_)
        rw [found, if_pos rfl]
        exact List.mem_cons_self
      exact wp_ends (only_ignore (ends_forceUndefineDomain dom)) (hr.grows hg) hdom
        fun r log' hg' => hQ r log' (hg.trans hg')
  | error e => exact (Prog.wp_ret _ _ _).mpr (hQ _ _ hg)

/-- Defining the request's own domain: when that returns, the request knows the domain. -/
theorem wp_define {xml : DomainXML} (hr : Ready op log) (huuid : xml.uuid = none)
    (hname : xml.name = op.name) {context : String} {Q : Except Err Nat → CmdLog → Prop}
    (herr : ∀ e log', Ready op log' → Q (.error e) log')
    (hQ : ∀ dom log', Ready op log' → dom ∈ op.handles log' → Q (.ok dom) log') :
    wp (requestSem op) (virtCall (.domainDefineXML xml) >>= orWrap context) Q log := by
  refine Prog.wp_alone_perform.mpr ⟨⟨hr.cleared, huuid, hname⟩, fun r => ?_⟩
  have hr' : Ready op (⟨.virt (.domainDefineXML xml), r⟩ :: log) :=
    hr.grows (grows_quiet (by exact trivial) r)
  rw [wp_orWrap]
  cases r with
  | ok dom =>
      refine hQ dom _ hr' (List.mem_append.mpr (.inl ?_))
      rw [defined]
      exact List.mem_cons_self
  | error e => exact herr _ _ hr'

/-- Storing the request's own VM: when that returns, the VM is written. -/
theorem wp_put {vm : VM} (hr : Ready op log) (hdom : dom ∈ op.handles log)
    (hname : vm.name = op.name) {Q : Except Err β → CmdLog → Prop}
    {f : Except Err Unit → M β}
    (herr : ∀ e log', Ready op log' → dom ∈ op.handles log' → wp (requestSem op) (f (.error e)) Q log')
    (hf : ∀ log', op.Cleared log' → writes log' ≠ [] → wp (requestSem op) (f (.ok ())) Q log') :
    wp (requestSem op) (storeCall (.putVM vm) >>= f) Q log := by
  refine Prog.wp_alone_perform.mpr ⟨⟨hr.cleared, hname, hr.unwritten⟩, fun r => ?_⟩
  cases r with
  | ok _ => exact hf _ (hr.cleared.of_listings rfl) (by simp [writes])
  | error e =>
      exact herr e _ ⟨hr.cleared.of_listings rfl, hr.unwritten⟩ (handles_cons op _ log dom hdom)

end Domain

/-! ### The requests one by one -/

namespace Manager

theorem gentle_refresh (vm : VM) : Gentle (refresh vm) := by
  refine Only.bind (gentle_virtCall trivial) fun r => ?_
  cases r with
  | ok dom =>
      refine Only.bind (Only.bind (gentle_virtCall trivial) fun _ => .ret _) fun _ => ?_
      exact Only.bind (gentle_virtCall trivial) fun _ => .ret _
  | error _ => exact .ret _

theorem gentle_refreshAll (vms : List VM) : Gentle (refreshAll vms) := by
  induction vms with
  | nil => exact .ret _
  | cons vm vms ih =>
      rw [refreshAll]
      exact (gentle_refresh vm).bind fun _ => ih.bind fun _ => .ret _

/-- A refresh changes state and address, not the name. -/
theorem yields_refresh (vm : VM) : Prog.Yields (fun v => v.name = vm.name) (refresh vm) := by
  refine Prog.Yields.last fun r => ?_
  cases r with
  | ok dom => exact Prog.Yields.last fun _ => Prog.Yields.last fun _ => .ret rfl
  | error _ => exact .ret rfl

theorem withStaticIP_name (vm : VM) : (withStaticIP vm).name = vm.name := by
  unfold withStaticIP
  split_ifs
  · rfl
  · rfl

theorem yields_refreshAll (vms : List VM) :
    Prog.Yields (fun vs => vs.map VM.name = vms.map VM.name) (refreshAll vms) := by
  induction vms with
  | nil => exact .ret rfl
  | cons vm vms ih =>
      rw [refreshAll]
      refine (yields_refresh vm).bind fun v hv => ih.bind fun vs hvs => .ret ?_
      rw [List.map_cons, List.map_cons, withStaticIP_name, hv, hvs]

variable (d : Daemon)

theorem yields_prepareCreate (spec : VMSpec) :
    Prog.Yields (fun r => r.1.name = spec.name) (prepareCreate d spec) := by
  refine Prog.Yields.last fun _ => Prog.Yields.last fun generated => Prog.Yields.last fun _ => ?_
  refine Prog.Yields.last fun loc => Prog.Yields.last fun _ => Prog.Yields.last fun _ => ?_
  refine Prog.Yields.last fun networks => .ret ?_
  simp only
  split_ifs
  · rfl
  · rfl

theorem withAddress_name (spec : VMSpec) (ip : Option String) :
    (withAddress d spec ip).name = spec.name := by
  cases ip with
  | some ip => rfl
  | none => rfl

theorem yields_chooseAddress (spec : VMSpec) (natMAC : String) :
    Prog.Yields (fun s => s.name = spec.name) (chooseAddress d spec natMAC) := by
  unfold chooseAddress
  split_ifs
  · exact Prog.Yields.last fun ip => .ret (withAddress_name d spec ip)
  · exact .ret rfl

theorem yields_cloneVMSpec (source : VMSpec) (newName : String) :
    Prog.Yields (fun s => s.name = newName) (cloneVMSpec source newName) :=
  Prog.Yields.last fun _ => .ret rfl

end Manager

section Requests

variable {op : RequestOp} {log : CmdLog} (d : Daemon)

/-- A request that lists the VMs and finds its name free. -/
theorem wp_checked (hlist : listings log = []) (hwrites : writes log = []) {f : Unit → M VM}
    (hf : ∀ log', Ready op log' → wp (requestSem op) (f ()) op.post log') :
    wp (requestSem op)
      (Manager.list >>= fun existing => orFail (Api.validateUniqueVMName op.name existing) >>= f)
      op.post log := by
  have hname : trimSpace op.name = op.name := by
    cases op with
    | create spec | clone sourceID name =>
        rw [RequestOp.name, Go.trimSpace_trimSpace]
  -- the check, on any VMs with the names of those listed
  have hcheck : ∀ (vms existing : List VM) (log' : CmdLog), vms ∈ listings log' →
      writes log' = [] → existing.map VM.name = vms.map VM.name →
      wp (requestSem op) (orFail (Api.validateUniqueVMName op.name existing) >>= f) op.post log' := by
    intro vms existing log' hvms hw hnames
    refine wp_orFail_bind (fun e => post_error e log') fun u hu => hf log' ⟨⟨vms, hvms, ?_⟩, hw⟩
    intro vm hvm
    obtain ⟨v, hv, hvn⟩ := List.mem_map.mp (hnames ▸ List.mem_map_of_mem hvm)
    unfold Api.validateUniqueVMName at hu
    split_ifs at hu with hany
    have hfree := List.any_eq_false.mp (Bool.not_eq_true _ ▸ hany) v hv
    rw [sameName, hname, ← hvn]
    exact Bool.not_eq_true _ ▸ hfree
  rw [Prog.bind_eq, Prog.wp_bind]
  refine Prog.wp_bind.mpr (Prog.wp_bind.mpr ((Prog.wp_perform _ _ _).mpr ⟨hlist, ?_⟩))
  rintro r log' rfl
  refine (wp_orFail _ _ _).mpr ?_
  cases r with
  | error e => exact post_error e _
  | ok vms =>
      have hgrown : wp (requestSem op) (Manager.refreshAll vms)
          (fun _ log' => Grows op (⟨.store .listVMs, .ok vms⟩ :: log) log')
          (⟨.store .listVMs, .ok vms⟩ :: log) :=
        wp_gentle (Manager.gentle_refreshAll vms) fun _ _ hg => hg
      refine Prog.wp_mono (fun r log' h => ?_)
        (Prog.wp_yields (Manager.yields_refreshAll vms) hgrown)
      cases r with
      | error e => exact post_error e log'
      | ok existing =>
          refine hcheck vms existing log' ?_ (h.1.writes.trans hwrites) (h.2 existing rfl)
          rw [h.1.listings, listings]
          exact List.mem_cons_self

theorem wp_provision {spec : VMSpec} (hname : spec.name = op.name) (hr : Ready op log)
    (natMAC : String) (diskPath : HostPath) {Q : Except Err Manager.Provision → CmdLog → Prop}
    (herr : ∀ e log', Q (.error e) log')
    (hQ : ∀ p log', p.spec.name = op.name → Ready op log' → p.dom ∈ op.handles log' →
      Q (.ok p) log') :
    wp (requestSem op) (Manager.provision d spec natMAC diskPath) Q log := by
  have herr' : ∀ e log', Grows op log log' → Q (.error e) log' := fun e log' _ => herr e log'
  refine wp_gentle_bind (Manager.aside_createDisk d spec diskPath).gentle herr' fun _ log' hg => ?_
  refine wp_gentle_bind (only_wrapped (Prog.only_perform (by exact trivial)) _) (fun e log' _ => herr e log')
    fun _ log' hg' => ?_
  refine wp_gentle_bind (Manager.aside_newVNC d _).gentle (fun e log' _ => herr e log')
    fun vnc log' hg'' => ?_
  have hr' : Ready op log' := ((hr.grows hg).grows hg').grows hg''
  refine wp_orFail_bind (fun e => herr e log') fun xml hxml => ?_
  obtain ⟨hxname, hxuuid⟩ := DomainParams.generateDomainXML_name hxml
  obtain ⟨hrname, hruuid⟩ := DomainParams.render_name d spec diskPath natMAC
  rw [Prog.bind_eq, Prog.wp_bind]
  refine wp_reap hname hr' fun r log' hg => ?_
  cases r with
  | error e => exact herr e log'
  | ok _ =>
      rw [Prog.bind_eq, Prog.wp_bind]
      refine wp_define (hr'.grows hg) (hxuuid.trans hruuid) ((hxname.trans hrname).trans hname)
        (fun e log' _ => herr e log') fun dom log' hr'' hdom => ?_
      exact (Prog.wp_ret _ _ _).mpr (hQ _ log' hname hr'' hdom)

theorem wp_launch {id natMAC : String} {diskPath : HostPath} {p : Manager.Provision}
    (hname : p.spec.name = op.name) (hr : Ready op log) (hdom : p.dom ∈ op.handles log)
    {Q : Except Err VM → CmdLog → Prop}
    (herr : ∀ e log', Ready op log' → p.dom ∈ op.handles log' → Q (.error e) log')
    (hQ : ∀ vm log', op.Cleared log' → writes log' ≠ [] → Q (.ok vm) log') :
    wp (requestSem op) (Manager.launch id natMAC diskPath p) Q log := by
  have herr' : ∀ e log', Grows op log log' → Q (.error e) log' :=
    fun e log' hg => herr e log' (hr.grows hg) (hg.handles _ hdom)
  refine wp_gentle_bind (only_wrapped (gentle_virtCall (by exact trivial)) _) herr' fun _ log' hg => ?_
  refine wp_gentle_bind aside_now.gentle (fun e log'' hg' => herr' e log'' (hg.trans hg'))
    fun at_ log'' hg' => ?_
  have hg' := hg.trans hg'
  refine wp_gentle_bind aside_now.gentle (fun e _ hg'' => herr' e _ (hg'.trans hg''))
    fun at_ log'' hg'' => ?_
  have hg'' := hg'.trans hg''
  rw [Prog.bind_eq, Prog.wp_bind]
  refine wp_put (hr.grows hg'') (hg''.handles _ hdom) hname (fun e log' hr hdom => ?_)
    fun log' hc hw => ?_
  · exact (wp_orWrap _ _ _ _).mpr (herr _ log' hr hdom)
  · exact (wp_orWrap _ _ _ _).mpr ((Prog.wp_ret _ _ _).mpr (hQ _ log' hc hw))

theorem wp_createIn {spec : VMSpec} (hname : spec.name = op.name) (hr : Ready op log)
    (natMAC id : String) (vmDir : HostPath) :
    wp (requestSem op) (Manager.createIn d spec natMAC id vmDir) op.post log := by
  have hcleanup : ∀ e log', wp (requestSem op)
      (Manager.cleanupCreate natMAC spec.natStaticIP vmDir >>= fun _ => .throw e) op.post log' :=
    fun e _ => promised_fails (Manager.aside_cleanupCreate _ _ _).gentle e
  refine Prog.wp_bind.mpr (Prog.wp_attempt.mpr ?_)
  refine wp_provision d hname hr natMAC _ (fun e log' => hcleanup e log') fun p log' hp hr hdom => ?_
  refine Prog.wp_bind.mpr (Prog.wp_attempt.mpr ?_)
  refine wp_launch hp hr hdom (fun e log' hr hdom => ?_) fun vm log' hc hw => ?_
  · exact promised_ends (ends_forceUndefineDomain _) hr hdom fun _ log' => hcleanup e log'
  · exact (Prog.wp_ret _ _ _).mpr fun _ _ => ⟨hc, hw⟩

theorem wp_create {spec : VMSpec} (hname : spec.name = op.name) (hr : Ready op log) :
    wp (requestSem op) (Manager.create d spec) op.post log := by
  refine wp_gentle_yields (Manager.aside_prepareCreate d spec).gentle
    (Manager.yields_prepareCreate d spec) (fun e log' _ => post_error e log') ?_
  rintro ⟨filled, location, generated⟩ log' hfilled hg
  refine promised_bind (aside_hostCall _).gentle fun natMAC _ hg' => ?_
  refine wp_gentle_yields (Manager.aside_chooseAddress d filled natMAC).gentle
    (Manager.yields_chooseAddress d filled natMAC) (fun e log' _ => post_error e log') ?_
  intro addressed log' haddressed hg''
  refine promised_bind aside_now.gentle fun nanos _ hg₃ => ?_
  refine promised_bind (only_wrapped (Prog.only_perform (by exact trivial)) _) fun _ log' hg₄ => ?_
  have hr' : Ready op log' := ((((hr.grows hg).grows hg').grows hg'').grows hg₃).grows hg₄
  rw [Prog.bind_eq, Prog.wp_bind]
  refine Prog.wp_mono (fun r log' h => ?_)
    (wp_createIn d ((haddressed.trans hfilled).trans hname) hr' natMAC (Manager.vmID nanos) _)
  cases r with
  | ok vm => exact (Prog.wp_ret _ _ _).mpr fun _ _ => h vm rfl
  | error e => exact post_error e log'

/-- What follows a request that has kept its promise does not break it. -/
theorem wp_announced {p : M VM} {f : VM → M VM} (hp : wp (requestSem op) p op.post log)
    (hf : ∀ vm, Gentle (f vm)) : wp (requestSem op) (p >>= f) op.post log := by
  rw [Prog.bind_eq, Prog.wp_bind]
  refine Prog.wp_mono (fun r log' h => ?_) hp
  cases r with
  | ok vm =>
      obtain ⟨hc, hw⟩ := h vm rfl
      exact wp_gentle (hf vm) fun _ _ hg _ _ => ⟨hc.of_listings hg.listings, hg.writes ▸ hw⟩
  | error e => exact post_error e log'

theorem wp_createVM (spec : VMSpec) :
    wp (requestSem (.create spec)) (Api.createVM d spec) (RequestOp.create spec).post [] := by
  refine promised_bind (only_orFail _) fun _ log hg => ?_
  refine wp_checked hg.listings hg.writes fun log' hr => ?_
  refine promised_bind (only_orFailed (aside_hostCall _).gentle) fun _ _ hg => ?_
  refine promised_bind (aside_hostCall _).gentle fun slot _ hg' => ?_
  refine promised_bind (only_failIf _ _) fun _ _ hg'' => ?_
  refine wp_announced (wp_create d rfl (((hr.grows hg).grows hg').grows hg'')) fun vm => ?_
  exact (Api.aside_publishAppEvent _ _ _ _).gentle.bind fun _ => .ret vm

theorem wp_finishClone {source : VM} {spec : VMSpec} (hname : spec.name = op.name)
    (hr : Ready op log) (id natMAC : String) (reserved : Option String) (diskPath : HostPath) :
    wp (requestSem op) (Manager.finishClone d source spec id natMAC reserved diskPath) op.post
      log := by
  have hcleanup : ∀ e log', wp (requestSem op)
      (Manager.cleanupClone natMAC reserved diskPath.dir >>= fun _ => .throw e) op.post log' :=
    fun e _ => promised_fails (Manager.aside_cleanupClone _ _ _).gentle e
  refine Prog.wp_bind.mpr (Prog.wp_attempt.mpr ?_)
  refine wp_gentle_bind (only_wrapped (Prog.only_perform (by exact trivial)) _)
    (fun e log' _ => hcleanup e log') fun _ log' hg => ?_
  refine wp_orWrap_bind (fun e => hcleanup _ log') fun xml hxml => ?_
  obtain ⟨hxname, hxuuid⟩ := DomainParams.generateDomainXML_name hxml
  obtain ⟨hrname, hruuid⟩ := DomainParams.render_name d spec diskPath natMAC
  refine wp_define (hr.grows hg) (hxuuid.trans hruuid) ((hxname.trans hrname).trans hname)
    (fun e log' _ => hcleanup e log') fun dom log' hr' hdom => ?_
  refine promised_bind aside_now.gentle fun createdAt _ hg' => ?_
  refine promised_bind aside_now.gentle fun updatedAt log' hg'' => ?_
  have hg'' := hg'.trans hg''
  refine wp_put (hr'.grows hg'') (hg''.handles dom hdom) hname (fun e log' hr hdom => ?_)
    fun log' hc hw => (Prog.wp_ret _ _ _).mpr fun _ _ => ⟨hc, hw⟩
  exact promised_ends (Prog.only_perform (.inr rfl)) hr hdom fun _ log' => hcleanup _ log'

theorem wp_clone {newName : String} (hname : newName = op.name) (hr : Ready op log)
    (sourceID : String) : wp (requestSem op) (Manager.clone d sourceID newName) op.post log := by
  refine promised_bind (gentle_getVM sourceID) fun source _ hg => ?_
  refine promised_bind (only_wrapped (gentle_virtCall (by exact trivial)) _) fun dom _ hg₁ => ?_
  refine promised_bind (only_wrapped (gentle_virtCall (by exact trivial)) _) fun _ _ hg₂ => ?_
  refine promised_bind (only_failIf _ _) fun _ _ hg₃ => ?_
  refine promised_bind (only_wrapped (aside_netCall _).gentle _) fun _ _ hg₄ => ?_
  have hr := ((((hr.grows hg).grows hg₁).grows hg₂).grows hg₃).grows hg₄
  refine wp_gentle_yields (Manager.aside_cloneVMSpec source.spec newName).gentle
    (Manager.yields_cloneVMSpec source.spec newName) (fun e log' _ => post_error e log') ?_
  intro spec _ hspec hg₅
  refine promised_bind (Manager.aside_cloneLocation d _).gentle fun loc _ hg₆ => ?_
  refine promised_bind aside_now.gentle fun nanos _ hg₇ => ?_
  refine promised_bind (only_wrapped (Prog.only_perform (by exact trivial)) _) fun _ _ hg₈ => ?_
  have hr := (((hr.grows hg₅).grows hg₆).grows hg₇).grows hg₈
  refine promised_bind (Manager.outside_copyDisk _ _).gentle fun _ _ hg₉ => ?_
  refine promised_bind (aside_hostCall _).gentle fun natMAC _ hg₁₀ => ?_
  refine promised_bind (Manager.aside_cloneAddress d _ natMAC).gentle fun reserved _ hg₁₁ => ?_
  have hr := ((hr.grows hg₉).grows hg₁₀).grows hg₁₁
  refine wp_finishClone d ?_ hr _ _ _ _
  rw [Manager.withAddress_name]
  exact hspec.trans hname

theorem wp_cloneVM (sourceID name : String) :
    wp (requestSem (.clone sourceID name)) (Api.cloneVM d sourceID name)
      (RequestOp.clone sourceID name).post [] := by
  refine promised_bind (only_orFail _) fun _ log hg => ?_
  refine wp_checked hg.listings hg.writes fun log' hr => ?_
  refine wp_announced (wp_clone d rfl hr sourceID) fun vm => ?_
  exact (Api.aside_publishAppEvent _ _ _ _).gentle.bind fun _ => .ret vm

/-- **Every request is in order by itself.** -/
theorem RequestOp.body_wp (op : RequestOp) :
    wp (requestSem op) (op.body d) op.post [] := by
  cases op with
  | create spec => exact wp_createVM d spec
  | clone sourceID name => exact wp_cloneVM d sourceID name

end Requests

end VMSmith

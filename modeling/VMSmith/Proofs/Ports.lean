/-
No two stored rules forward the same port.

`Add` looks through the stored rules and stores its own much later, so two calls for one
port that have both looked both store.  `Turn` is the condition on a step that excludes
this: whoever looks and finds the port free is alone with it.

A call that is refused has seen the rule that stood in its way.
-/
import VMSmith.Network.PortSys
import VMSmith.VM.OffStore

namespace VMSmith

open Prog
open PortCall (view)
open PortForwarder (AddRequest portConflict)

/-- No two stored rules forward the same port of the host. -/
def StoreState.PortsApart (s : StoreState) : Prop :=
  ∀ id id' fwd fwd', s.forwards.get? id = some fwd → s.forwards.get? id' = some fwd' →
    fwd.hostPort = fwd'.hostPort → fwd.protocol = fwd'.protocol → id = id'

namespace PortCall

/-- The port the call has found free and not yet forwarded. -/
def claim? (t : PortCall) : Option (Int × String) :=
  match t.op with
  | .add req =>
      if t.inFlight && (view t).listed.any (fun rules => !rules.any req.takes) && !(view t).answered then
        some (req.hostPort, req.protocol)
      else none
  | _ => none

end PortCall

namespace PortSys

/-- Another call has found this port free. -/
def claimed (s : PortSys) (i : Nat) (port : Int × String) : Bool :=
  (List.range s.threads.length).any fun j => j ≠ i &&
    (s.threads[j]?).any fun u => PortCall.claim? u = some port

/-- A look at the rules that finds the port free finds nobody else with it. -/
def turn (s : PortSys) (i : Nat) (t : PortCall) (x : Choice) : Bool :=
  match t.op, t.prog with
  | .add req, .call (.store .listPortForwards) _ =>
      x.fail.isSome || s.world.store.forwards.values.any req.takes ||
        !claimed s i (req.hostPort, req.protocol)
  | _, _ => true

/-- The condition on a step.  The calls are `Add` and `Remove`. -/
def Turn (s : PortSys) : PortLabel → Prop
  | .call op | .restart op => op.isAddOrRemove = true
  | .step i x => ∀ t ∈ s.threads[i]?, turn s i t x = true
  | .env _ => True

instance : ∀ (s : PortSys) (l : PortLabel), Decidable (Turn s l)
  | _, .call _ | _, .restart _ => inferInstanceAs (Decidable (_ = true))
  | _, .step _ _ => inferInstanceAs (Decidable (∀ _ ∈ _, _))
  | _, .env _ => .isTrue trivial

end PortSys

/-! ### What a call does -/

namespace PortOp

/-- Which commands a call may issue, after what it has been answered. -/
def ok (op : PortOp) (v : PortView) : Cmd → Prop
  | .store (.putPortForward rule) =>
      match op with
      | .add req => v.answered = false ∧ req.takes rule = true ∧
          ∃ rules, v.listed = some rules ∧ rules.any req.takes = false
      | .update _ _ => True
      | _ => False
  | _ => True

/-- How a call ends: who is refused has seen the rule in the way. -/
def post (op : PortOp) (res : Except Err Unit) (v : PortView) : Prop :=
  ∀ req, op = .add req → res = .error (portConflict req) →
    ∃ rules, v.listed = some rules ∧ rules.any req.takes = true

end PortOp

/-- A call by its account. -/
abbrev portSem (op : PortOp) : Sem Cmd Cmd.Resp PortView := Sem.account PortView.add op.ok

theorem wp_applyRule {op : PortOp} {action : IptAction} {hostPort guestPort : Int} {guestIP proto : String}
    {v : PortView} {Q : Except Err Unit → PortView → Prop} (hok : Q (.ok ()) v)
    (herr : ∀ context e, Q (.error (.wrap context e)) v) :
    wp (portSem op) (PortForwarder.applyRule action hostPort guestPort guestIP proto) Q v := by
  refine wp_account_call.mpr ⟨trivial, ?_⟩
  rintro (e | u)
  · exact (wp_throw _ _ _).mpr (herr _ e)
  refine wp_account_call.mpr ⟨trivial, ?_⟩
  rintro (e | u)
  · exact (wp_throw _ _ _).mpr (herr _ e)
  · exact (wp_ret _ _ _).mpr hok

theorem validatePortForward_ne {req : AddRequest} {e : Err}
    (h : validatePortForward req.hostPort req.guestPort req.protocol = .error e) :
    e ≠ portConflict req := by
  unfold validatePortForward at h
  split_ifs at h <;>
    · obtain rfl := Except.error.inj h
      simp [portConflict]

theorem wp_add (req : AddRequest) : wp (portSem (.add req)) (PortForwarder.add req)
    (fun res v => res = .error (portConflict req) →
      ∃ rules, v.listed = some rules ∧ rules.any req.takes = true) {} := by
  have hother : ∀ {e : Err} {v : PortView}, e ≠ portConflict req →
      wp (portSem (.add req)) (.throw e : M PortForward) (fun res v => res = .error (portConflict req) →
        ∃ rules, v.listed = some rules ∧ rules.any req.takes = true) v :=
    fun he => (wp_throw _ _ _).mpr fun h => absurd (Except.error.inj h) he
  have hwrap : ∀ (context : String) (e : Err), Err.wrap context e ≠ portConflict req :=
    fun _ _ h => by simp [portConflict] at h
  unfold PortForwarder.add
  rw [bind_eq, wp_bind, wp_orFail]
  cases hvalid : validatePortForward req.hostPort req.guestPort req.protocol with
  | error e => exact fun h => absurd (Except.error.inj h) (validatePortForward_ne hvalid)
  | ok u =>
      refine wp_account_call.mpr ⟨trivial, ?_⟩
      rintro (e | rules)
      · exact hother (hwrap _ _)
      show wp _ (failIf _ _ >>= _) _ _
      rw [bind_eq, wp_bind, wp_failIf]
      have htakes : rules.any req.takes = true ↔
          ∃ fwd ∈ rules, fwd.hostPort = req.hostPort ∧ fwd.protocol = req.protocol := by
        simp [AddRequest.takes]
      refine ⟨fun hconflict _ => ⟨rules, rfl, htakes.mpr hconflict⟩, fun hfree => ?_⟩
      rw [← htakes, Bool.not_eq_true] at hfree
      rw [bind_eq, wp_bind]
      refine wp_applyRule ?_ fun context e => fun h => absurd (Except.error.inj h) (hwrap _ _)
      refine wp_account_call.mpr ⟨trivial, fun nanos => ?_⟩
      refine wp_account_call.mpr ⟨⟨rfl, by simp [AddRequest.takes, AddRequest.toRule], rules, rfl, hfree⟩, ?_⟩
      rintro (e | u)
      · show wp _ ((PortForwarder.applyRule _ _ _ _ _).attempt >>= _) _ _
        rw [bind_eq, wp_bind, wp_attempt]
        exact wp_applyRule (hother (hwrap _ _)) fun _ _ => hother (hwrap _ _)
      · exact (wp_ret _ _ _).mpr fun h => by simp at h

/-- Calls that store no rule but one they have read are in order by themselves. -/
theorem only_ok {op : PortOp} {P : Cmd → Prop} {p : M Unit} (hp : Only P p)
    (hok : ∀ v c, P c → op.ok v c) (hop : ∀ req, op ≠ .add req) :
    wp (portSem op) p op.post {} :=
  wp_of_only (fun _ => True) (fun v c _ hc => hok v c hc) (fun _ _ _ _ _ _ _ => trivial) hp trivial
    fun _ _ _ req h => absurd h (hop req)

/-- Everything but the write of a rule. -/
def Cmd.StoresNoRule : Cmd → Prop
  | .store (.putPortForward _) => False
  | _ => True

theorem Cmd.StoresNoRule.ok {c : Cmd} (h : c.StoresNoRule) (op : PortOp) (v : PortView) : op.ok v c := by
  unfold PortOp.ok
  split
  · exact h.elim
  · exact trivial

theorem only_applyRule {P : Cmd → Prop} (hP : ∀ action rule, P (.net (.iptables action rule)))
    (action : IptAction) (fwd : PortForward) : Only P (PortForwarder.applyRuleOf action fwd) :=
  (only_wrapped (only_perform (hP _ _)) _).bind fun _ => only_wrapped (only_perform (hP _ _)) _

theorem only_remove {P : Cmd → Prop} (hP : ∀ action rule, P (.net (.iptables action rule)))
    (hlist : P (.store .listPortForwards)) {id : String} (hdelete : P (.store (.deletePortForward id))) :
    Only P (PortForwarder.remove id) := by
  refine (only_orFailed (only_perform hlist)).bind fun forwards => ?_
  cases forwards.find? (·.id = id) with
  | none => exact .throw _
  | some fwd => exact (only_applyRule hP _ _).bind fun _ => only_orFailed (only_perform hdelete)

theorem only_restore {P : Cmd → Prop} (hP : ∀ action rule, P (.net (.iptables action rule)))
    (fwds : List PortForward) : Only P (PortForwarder.restore fwds) := by
  induction fwds with
  | nil => exact .ret _
  | cons fwd fwds ih => exact (only_applyRule hP _ _).attempt.bind fun _ => ih

theorem only_update {P : Cmd → Prop} (hlist : P (.store .listPortForwards))
    (hput : ∀ rule, P (.store (.putPortForward rule))) (id : String) (opts : PortForwarder.UpdateOptions) :
    Only P (PortForwarder.update id opts) := by
  refine (only_wrapped (only_perform hlist) _).bind fun forwards => ?_
  cases forwards.find? (·.id = id) with
  | none => exact .throw _
  | some fwd => exact (only_wrapped (only_perform (hput _)) _).bind fun _ => .ret _

/-- **Every call is in order**, whatever it is answered. -/
theorem portOp_wp (op : PortOp) : wp (portSem op) op.body op.post {} := by
  cases op with
  | add req =>
      refine wp_bind.mpr (wp_mono (fun res v hres => ?_) (wp_add req))
      cases res with
      | ok rule => exact (wp_ret _ _ _).mpr fun req _ h => by simp at h
      | error e =>
          intro req' hop h
          obtain rfl := PortOp.add.inj hop
          exact hres (congrArg Except.error (Except.error.inj h))
  | update id opts =>
      refine only_ok (P := fun _ => True) (only_ignore (only_update trivial (fun _ => trivial) id opts))
        (fun v c _ => ?_) fun req h => by simp at h
      unfold PortOp.ok
      split <;> exact trivial
  | remove id =>
      exact only_ok (only_remove (P := Cmd.StoresNoRule) (fun _ _ => trivial) trivial trivial)
        (fun v c hc => hc.ok _ v) fun req h => by simp at h
  | restoreAll =>
      refine only_ok (P := Cmd.StoresNoRule) ?_ (fun v c hc => hc.ok _ v) fun req h => by simp at h
      exact (only_orFailed (only_perform trivial)).bind fun fwds => only_restore (fun _ _ => trivial) fwds

/-- A call alone, by its log. -/
theorem portOp_alone (op : PortOp) :
    wp (Sem.alone fun log c => op.ok (log.account PortView.add {}) c) op.body
      (fun res log => op.post res (log.account PortView.add {})) [] :=
  wp_alone_of_account (portOp_wp op)

/-! ### What one step does -/

/-- What one command of a call does to the stored rules and to the call's account; `turn` is
what is known where the rules are listed. -/
inductive PortEffect (turn : Prop) (op : PortOp) (w w' : World) (v v' : PortView) : Prop
  | quiet (hrules : w'.store.forwards = w.store.forwards) (hview : v' = v)
  | listed (hturn : turn) (hrules : w'.store.forwards = w.store.forwards)
      (hview : v' = { v with listed := some w.store.forwards.values })
  | stored (req : AddRequest) (rule : PortForward) (hop : op = .add req) (htakes : req.takes rule = true)
      (hlisted : ∃ rules, v.listed = some rules ∧ rules.any req.takes = false) (hfirst : v.answered = false)
      (hrules : w'.store.forwards = w.store.forwards.put rule.id rule ∨
        w'.store.forwards = w.store.forwards)
      (hview : v' = { v with answered := true })
  | removed (id : String) (hrules : w'.store.forwards = w.store.forwards.erase id) (hview : v' = v)

theorem portEffect {turn : Prop} {op : PortOp} {w w' : World} {v : PortView} {c : Cmd} {r : c.Resp}
    {x : Choice} (hop : op.isAddOrRemove = true) (hok : op.ok v c)
    (hturn : x.fail = none → c = .store .listPortForwards → turn)
    (hexec : World.exec c x w = some (r, w')) : PortEffect turn op w w' v (v.add c r) := by
  by_cases hc : c.OffStore
  · refine .quiet (by rw [World.exec_offStore hc hexec]) ?_
    cases c with
    | store c => exact hc.elim
    | virt c | net c | file c | host c => rfl
  cases c with
  | virt c | net c | file c | host c => exact absurd trivial hc
  | store c =>
      obtain ⟨s, hs, rfl⟩ := World.exec_store hexec
      cases c with
      | getVM id =>
          exact .quiet (by rw [(StoreState.exec_getVM hs).1]) rfl
      | listVMs =>
          exact .quiet (by rw [(StoreState.exec_listVMs hs).1]) rfl
      | putVM vm | deleteVM id | putSnapshotTags vmID name tags | getSnapshotTags vmID name
      | listSnapshotTags vmID | deleteSnapshotTags vmID name =>
          rcases fallible_ok hs with ⟨-, -, rfl⟩ | ⟨-, -, rfl⟩
          · exact .quiet rfl rfl
          · exact .quiet rfl rfl
      | listPortForwards =>
          rcases fallible_ok hs with ⟨-, ⟨e, rfl⟩, rfl⟩ | ⟨hx, rfl, rfl⟩
          · exact .quiet rfl rfl
          · exact .listed (hturn hx rfl) rfl rfl
      | deletePortForward id =>
          rcases fallible_ok hs with ⟨-, -, rfl⟩ | ⟨-, -, rfl⟩
          · exact .quiet rfl rfl
          · exact .removed id rfl rfl
      | putPortForward rule =>
          cases op with
          | update id opts | restoreAll => simp [PortOp.isAddOrRemove] at hop
          | remove id => exact hok.elim
          | add req =>
              obtain ⟨hfirst, htakes, hlisted⟩ := hok
              rcases fallible_ok hs with ⟨-, -, rfl⟩ | ⟨-, -, rfl⟩
              · exact .stored req rule rfl htakes hlisted hfirst (.inr rfl) rfl
              · exact .stored req rule rfl htakes hlisted hfirst (.inl rfl) rfl

namespace PortCall

theorem claim?_iff {t : PortCall} {port : Int × String} : claim? t = some port ↔
    ∃ req, t.op = .add req ∧ port = (req.hostPort, req.protocol) ∧ t.inFlight = true ∧
      (view t).answered = false ∧ ∃ rules, (view t).listed = some rules ∧ rules.any req.takes = false := by
  unfold claim?
  cases hop : t.op with
  | update id opts | remove id | restoreAll => simp
  | add req =>
      simp only [Option.ite_none_right_eq_some, Option.some.injEq, Bool.and_eq_true, Bool.not_eq_true',
        Option.any_eq_true, PortOp.add.injEq, exists_eq_left']
      refine ⟨fun ⟨⟨⟨hf, hlisted⟩, ha⟩, hport⟩ => ⟨hport.symm, hf, ha, hlisted⟩, ?_⟩
      exact fun ⟨hport, hf, ha, hlisted⟩ => ⟨⟨⟨hf, hlisted⟩, ha⟩, hport.symm⟩

/-- A call with the same account that is in flight no longer than this one. -/
theorem claim?_of_kept {t u : PortCall} {port : Int × String} (hop : u.op = t.op) (hview : view u = view t)
    (hflight : u.inFlight = true → t.inFlight = true) (h : claim? u = some port) : claim? t = some port := by
  rw [claim?_iff] at h ⊢
  rw [hop, hview] at h
  obtain ⟨req, hreq, hport, hf, hrest⟩ := h
  exact ⟨req, hreq, hport, hflight hf, hrest⟩

end PortCall

namespace PortSys

/-- No stored rule is for the port. -/
def Free (w : World) (port : Int × String) : Prop :=
  ∀ id fwd, w.store.forwards.get? id = some fwd → (fwd.hostPort, fwd.protocol) ≠ port

theorem takes_iff {req : AddRequest} {fwd : PortForward} :
    req.takes fwd = true ↔ (fwd.hostPort, fwd.protocol) = (req.hostPort, req.protocol) := by
  simp [AddRequest.takes]

theorem free_iff {w : World} {req : AddRequest} :
    Free w (req.hostPort, req.protocol) ↔ w.store.forwards.values.any req.takes = false := by
  rw [List.any_eq_false]
  refine ⟨fun h fwd hfwd => ?_, fun h id fwd hfwd => ?_⟩
  · obtain ⟨id, hid⟩ := Bucket.mem_values.mp hfwd
    rw [takes_iff]
    exact h id fwd hid
  · have := h fwd (Bucket.mem_values.mpr ⟨id, hfwd⟩)
    rwa [takes_iff] at this

theorem claimed_iff {s : PortSys} {i : Nat} {port : Int × String} : claimed s i port = true ↔
    ∃ j u, j ≠ i ∧ s.threads[j]? = some u ∧ PortCall.claim? u = some port := by
  simp only [claimed, List.any_eq_true, List.mem_range, Bool.and_eq_true, decide_eq_true_eq,
    Option.any_eq_true]
  refine ⟨?_, ?_⟩
  · rintro ⟨j, -, hji, u, hu, hclaim⟩
    exact ⟨j, u, hji, hu, hclaim⟩
  · rintro ⟨j, u, hji, hu, hclaim⟩
    exact ⟨j, (List.getElem?_eq_some_iff.mp hu).1, hji, u, hu, hclaim⟩

/-! ### The invariant -/

/-- Who has found a port free is alone with it, and it is free. -/
structure Inv (s : PortSys) : Prop where
  sound : s.Sound (fun op log c => op.ok (log.account PortView.add {}) c)
    (fun op res log => op.post res (log.account PortView.add {}))
  ops : ∀ t ∈ s.threads, t.op.isAddOrRemove = true
  apart : s.world.store.PortsApart
  free : ∀ (i : Nat) (t : PortCall) (port : Int × String), s.threads[i]? = some t →
    PortCall.claim? t = some port → Free s.world port
  alone : ∀ (i j : Nat) (t u : PortCall) (port : Int × String), s.threads[i]? = some t →
    s.threads[j]? = some u →
    PortCall.claim? t = some port → PortCall.claim? u = some port → i = j

variable {s s' : PortSys}

/-- Steps that store no rule and claim no port. -/
theorem Inv.still (hs : Inv s) (hsound : s'.Sound (fun op log c => op.ok (log.account PortView.add {}) c)
      (fun op res log => op.post res (log.account PortView.add {})))
    (hops : ∀ t ∈ s'.threads, t.op.isAddOrRemove = true)
    (hrules : ∀ id fwd, s'.world.store.forwards.get? id = some fwd →
      s.world.store.forwards.get? id = some fwd)
    (hclaims : ∀ (i : Nat) (t : PortCall) (port : Int × String), s'.threads[i]? = some t →
      PortCall.claim? t = some port → ∃ u, s.threads[i]? = some u ∧ PortCall.claim? u = some port) : Inv s' where
  sound := hsound
  ops := hops
  apart := fun id id' fwd fwd' h h' => hs.apart id id' fwd fwd' (hrules _ _ h) (hrules _ _ h')
  free := fun i t port hi hclaim id fwd hget => by
    obtain ⟨u, hu, hclaim⟩ := hclaims i t port hi hclaim
    exact hs.free i u port hu hclaim id fwd (hrules _ _ hget)
  alone := fun i j t u port hi hj ht hu => by
    obtain ⟨t', hi, ht⟩ := hclaims i t port hi ht
    obtain ⟨u', hj, hu⟩ := hclaims j u port hj hu
    exact hs.alone i j t' u' port hi hj ht hu

/-- One command of call `i`. -/
theorem inv_answer (hs : Inv s) {i : Nat} {x : Choice} (hturn : Turn s (.step i x))
    (h : step s (.step i x) = some s') : Inv s' := by
  have hsound := Pool.sound_step portOp_alone hs.sound h
  obtain ⟨t, c, k, r, w', ht, hlost, hprog, hexec, rfl⟩ := Pool.step_step h
  set t' : PortCall := t.advance c r (k r) with ht'
  have hflight : t.inFlight = true := by simp [Thread.inFlight, hlost, hprog, Prog.isDone]
  have hop := hs.ops t (List.mem_of_getElem? ht)
  have hops : ∀ u ∈ s.threads.set i t', u.op.isAddOrRemove = true := by
    intro u hu
    rcases List.mem_or_eq_of_mem_set hu with hold | rfl
    · exact hs.ops u hold
    · exact hop
  have hlook : x.fail = none → c = .store .listPortForwards → ∀ req, t.op = .add req →
      s.world.store.forwards.values.any req.takes = false →
      claimed s i (req.hostPort, req.protocol) = false := by
    rintro hx rfl req hreq hfree
    have := hturn t (Option.mem_def.mpr ht)
    simpa [turn, hreq, hprog, hx, hfree] using this
  have he := portEffect (v := view t) hop (hs.sound.allowed ht hprog) hlook hexec
  -- what the others have claimed stays, so only the call's own claim is looked at
  have hclaims : (∀ port, PortCall.claim? t' = some port → PortCall.claim? t = some port) →
      ∀ (j : Nat) (u : PortCall) (port : Int × String), (s.threads.set i t')[j]? = some u →
        PortCall.claim? u = some port → ∃ v, s.threads[j]? = some v ∧ PortCall.claim? v = some port := by
    intro hown j u port hj hclaim
    rcases Pool.getElem?_advance ht hj with ⟨rfl, rfl⟩ | ⟨-, hold⟩
    · exact ⟨t, ht, hown port hclaim⟩
    · exact ⟨u, hold, hclaim⟩
  have hview' : view t' = (view t).add c r := rfl
  rw [← hview'] at he
  have hquiet : view t' = view t → ∀ port, PortCall.claim? t' = some port → PortCall.claim? t = some port :=
    fun hview port => PortCall.claim?_of_kept rfl hview fun _ => hflight
  cases he with
  | quiet hrules hview =>
      refine hs.still hsound hops (fun id fwd hget => ?_) (hclaims (hquiet hview))
      rwa [← hrules]
  | removed id hrules hview =>
      refine hs.still hsound hops (fun id' fwd hget => ?_) (hclaims (hquiet hview))
      rw [hrules] at hget
      exact (Bucket.mem_erase.mp hget).2
  | listed hturn hrules hview =>
      have hfree : ∀ port, Free s.world port → Free w' port := fun port h id fwd hget =>
        h id fwd (hrules ▸ hget)
      have hnew : ∀ port, PortCall.claim? t' = some port → Free s.world port ∧ claimed s i port = false := by
        intro port hclaim
        obtain ⟨req, hreq, rfl, -, -, rules, hlisted, hnone⟩ := PortCall.claim?_iff.mp hclaim
        rw [hview, Option.some.injEq] at hlisted
        subst hlisted
        exact ⟨free_iff.mpr hnone, hturn req hreq hnone⟩
      have hother : ∀ (j : Nat) (u : PortCall) (port : Int × String), j ≠ i → s.threads[j]? = some u →
          PortCall.claim? u = some port → PortCall.claim? t' ≠ some port := by
        intro j u port hji hj hu hclaim
        have : claimed s i port = true := claimed_iff.mpr ⟨j, u, hji, hj, hu⟩
        rw [(hnew port hclaim).2] at this
        exact Bool.false_ne_true this
      refine ⟨hsound, hops, fun id id' fwd fwd' h h' => ?_, fun j u port hj hclaim => hfree port ?_,
        fun j k u v port hj hk hu hv => ?_⟩
      · exact hs.apart id id' fwd fwd' (hrules ▸ h) (hrules ▸ h')
      · rcases Pool.getElem?_advance ht hj with ⟨rfl, rfl⟩ | ⟨-, hold⟩
        · exact (hnew port hclaim).1
        · exact hs.free j u port hold hclaim
      · rcases Pool.getElem?_advance ht hj with ⟨rfl, rfl⟩ | ⟨hji, hold⟩
        · rcases Pool.getElem?_advance ht hk with ⟨rfl, rfl⟩ | ⟨hkj, hold'⟩
          · rfl
          · exact absurd hu (hother k v port hkj hold' hv)
        · rcases Pool.getElem?_advance ht hk with ⟨rfl, rfl⟩ | ⟨-, hold'⟩
          · exact absurd hv (hother j u port hji hold hu)
          · exact hs.alone j k u v port hold hold' hu hv
  | stored req rule hreq htakes hlisted hfirst hrules hview =>
      have hown : PortCall.claim? t = some (req.hostPort, req.protocol) :=
        PortCall.claim?_iff.mpr ⟨req, hreq, rfl, hflight, hfirst, hlisted⟩
      have hdone : ∀ port, PortCall.claim? t' ≠ some port := by
        intro port hclaim
        obtain ⟨-, -, -, -, hanswered, -⟩ := PortCall.claim?_iff.mp hclaim
        rw [hview] at hanswered
        exact Bool.false_ne_true hanswered.symm
      rcases hrules with hrules | hrules
      swap
      · exact hs.still hsound hops (fun id fwd hget => hrules ▸ hget)
          (hclaims fun port hclaim => absurd hclaim (hdone port))
      rw [takes_iff] at htakes
      have hfree := hs.free i t _ ht hown
      have hold : ∀ {j : Nat} {u : PortCall} {port : Int × String}, (s.threads.set i t')[j]? = some u →
          PortCall.claim? u = some port → j ≠ i ∧ s.threads[j]? = some u := by
        intro j u port hj hclaim
        rcases Pool.getElem?_advance ht hj with ⟨rfl, rfl⟩ | hold
        · exact absurd hclaim (hdone port)
        · exact hold
      refine ⟨hsound, hops, fun id id' fwd fwd' h h' hport hproto => ?_,
        fun j u port hj hclaim id fwd hget => ?_, fun j k u v port hj hk hu hv => ?_⟩
      · rw [hrules] at h h'
        rcases Bucket.mem_put h with ⟨rfl, rfl⟩ | ⟨-, hget⟩
        · rcases Bucket.mem_put h' with ⟨rfl, rfl⟩ | ⟨-, hget'⟩
          · rfl
          · exact absurd ((Prod.ext hport hproto).symm.trans htakes) (hfree id' fwd' hget')
        · rcases Bucket.mem_put h' with ⟨rfl, rfl⟩ | ⟨-, hget'⟩
          · exact absurd ((Prod.ext hport hproto).trans htakes) (hfree id fwd hget)
          · exact hs.apart id id' fwd fwd' hget hget' hport hproto
      · rw [hrules] at hget
        obtain ⟨hji, hj⟩ := hold hj hclaim
        rcases Bucket.mem_put hget with ⟨rfl, rfl⟩ | ⟨-, hget⟩
        · rw [htakes]
          rintro rfl
          exact hji (hs.alone j i u t _ hj ht hclaim hown)
        · exact hs.free j u port hj hclaim id fwd hget
      · exact hs.alone j k u v port (hold hj hu).2 (hold hk hv).2 hu hv

/-- The calls made are `Add`s and `Remove`s. -/
theorem ops_kept (hops : ∀ t ∈ s.threads, t.op.isAddOrRemove = true) {l : PortLabel} (hturn : Turn s l)
    (h : step s l = some s') : ∀ t ∈ s'.threads, t.op.isAddOrRemove = true := by
  have hadd : ∀ (p : PortSys) (op : PortOp), (∀ t ∈ p.threads, t.op.isAddOrRemove = true) →
      op.isAddOrRemove = true → ∀ t ∈ (p.add op op.body).threads, t.op.isAddOrRemove = true := by
    intro p op hp hop t ht
    rcases List.mem_append.mp ht with hold | hnew
    · exact hp t hold
    · rw [List.mem_singleton] at hnew
      exact hnew ▸ hop
  cases l with
  | call op => exact Option.some.inj h ▸ hadd s op hops hturn
  | restart op =>
      refine Option.some.inj h ▸ hadd s.lose op (fun t ht => ?_) hturn
      obtain ⟨u, hu, rfl⟩ := List.mem_map.mp ht
      split_ifs
      · exact hops u hu
      · exact hops u hu
  | env e =>
      obtain ⟨w, -, rfl⟩ := Pool.step_env h
      exact hops
  | step i x =>
      obtain ⟨t, c, k, r, w, ht, -, -, -, rfl⟩ := Pool.step_step h
      intro u hu
      rcases List.mem_or_eq_of_mem_set hu with hold | rfl
      · exact hops u hold
      · exact hops t (List.mem_of_getElem? ht)

theorem inv_step (s : PortSys) (l : PortLabel) (s' : PortSys) (hs : Inv s) (hturn : Turn s l)
    (h : step s l = some s') : Inv s' := by
  by_cases hl : ∃ i x, l = .step i x
  · obtain ⟨i, x, rfl⟩ := hl
    exact inv_answer hs hturn h
  · have hstill : ∀ i x, l ≠ .step i x := fun i x heq => hl ⟨i, x, heq⟩
    obtain ⟨-, hthreads⟩ := Pool.threads_kept hstill h
    refine hs.still (Pool.sound_step portOp_alone hs.sound h) (ops_kept hs.ops hturn h)
      (fun id fwd hget => ?_) fun j u port hj hclaim => ?_
    · rcases Pool.world_kept hstill h with hw | ⟨e, hw⟩
      · rwa [hw] at hget
      · rw [← Option.some.inj hw] at hget
        exact hget
    · rcases hthreads j u hj with ⟨t, ht, halike⟩ | ⟨-, hlog, -, -⟩
      · exact ⟨t, ht, PortCall.claim?_of_kept halike.op (by rw [view, view, halike.log]) halike.inFlight hclaim⟩
      · obtain ⟨-, -, -, -, -, rules, hlisted, -⟩ := PortCall.claim?_iff.mp hclaim
        rw [view, hlog] at hlisted
        exact absurd hlisted (by simp [Prog.Log.account])

/-! ### Refusals -/

/-- Call `i` has listed a rule for the port of its request. -/
def Seen (i : Nat) (req : AddRequest) (s : PortSys) : Prop :=
  ∃ t, s.threads[i]? = some t ∧ t.op = .add req ∧
    ∃ rules, (view t).listed = some rules ∧ rules.any req.takes = true

/-- Call `i` is under way, and a rule for the port of its request is stored. -/
def InTheWay (i : Nat) (req : AddRequest) (s : PortSys) : Prop :=
  (∃ t, s.threads[i]? = some t ∧ t.op = .add req ∧ t.inFlight = true) ∧
    ∃ id fwd, s.world.store.forwards.get? id = some fwd ∧ req.takes fwd = true

theorem listed_cases {c : Cmd} {r : c.Resp} {x : Choice} {w w' : World} {v : PortView}
    {rules : List PortForward} (hexec : World.exec c x w = some (r, w'))
    (h : (v.add c r).listed = some rules) :
    v.listed = some rules ∨ rules = w.store.forwards.values := by
  unfold PortView.add at h
  split at h
  · obtain ⟨s, hs, rfl⟩ := World.exec_store hexec
    rcases fallible_ok hs with ⟨-, ⟨e, he⟩, -⟩ | ⟨-, hr, -⟩
    · simp at he
    · exact .inr ((Option.some.inj h).symm.trans (Except.ok.inj hr))
  · exact .inl h
  · exact .inl h

/-- What a call has listed was stored when it listed it. -/
theorem seen_step {i : Nat} {req : AddRequest} (s : PortSys) (l : PortLabel) (s' : PortSys)
    (h : step s l = some s') (hseen : Seen i req s') : Seen i req s ∨ InTheWay i req s := by
  obtain ⟨u, hu, hop, rules, hlisted, hany⟩ := hseen
  by_cases hl : ∃ j x, l = .step j x
  · obtain ⟨j, x, rfl⟩ := hl
    obtain ⟨t, c, k, r, w', ht, hlost, hprog, hexec, rfl⟩ := Pool.step_step h
    rcases Pool.getElem?_advance ht hu with ⟨rfl, rfl⟩ | ⟨-, hold⟩
    · rcases listed_cases hexec hlisted with hold | rfl
      · exact .inl ⟨t, ht, hop, rules, hold, hany⟩
      · obtain ⟨fwd, hmem, htakes⟩ := List.any_eq_true.mp hany
        obtain ⟨id, hget⟩ := Bucket.mem_values.mp hmem
        refine .inr ⟨⟨t, ht, hop, ?_⟩, id, fwd, hget, htakes⟩
        simp [Thread.inFlight, hlost, hprog, Prog.isDone]
    · exact .inl ⟨u, hold, hop, rules, hlisted, hany⟩
  · have hstill : ∀ j x, l ≠ .step j x := fun j x heq => hl ⟨j, x, heq⟩
    rcases (Pool.threads_kept hstill h).2 i u hu with ⟨t, ht, halike⟩ | ⟨-, hlog, -, -⟩
    · refine .inl ⟨t, ht, halike.op ▸ hop, rules, ?_, hany⟩
      rw [← hlisted, view, view, halike.log]
    · rw [view, hlog] at hlisted
      exact absurd hlisted (by simp [Prog.Log.account])

/-- The forwarder before any call. -/
def init (w : World) : PortSys := { world := w }

theorem inv_init {w : World} (hw : w.store.PortsApart) : Inv (init w) where
  sound := fun t ht => absurd ht List.not_mem_nil
  ops := fun t ht => absurd ht List.not_mem_nil
  apart := hw
  free := fun i _ port hi => by simp [init] at hi
  alone := fun i j t u port hi => by simp [init] at hi

theorem sound_run {w : World} {ls : List PortLabel} {s : PortSys} (h : Run.exec step (init w) ls = some s) :
    s.Sound (fun op log c => op.ok (log.account PortView.add {}) c)
      (fun op res log => op.post res (log.account PortView.add {})) :=
  Run.exec_invariant _ (fun _ _ _ hs _ h => Pool.sound_step portOp_alone hs h) ls (init w) s
    (fun _ ht => absurd ht List.not_mem_nil) (Run.guarded_true _ _) h

/-- **Ports are forwarded once** in every run in which whoever finds a port free is alone with
it, and no call is refused for a rule that was not there while it was under way. -/
theorem ports_apart (w : World) (hw : w.store.PortsApart) (ls : List PortLabel) (s : PortSys)
    (hturn : Run.Guarded step Turn (init w) ls) (h : Run.exec step (init w) ls = some s) :
    s.world.store.PortsApart ∧ ∀ (i : Nat) (t : PortCall) (req : AddRequest), s.threads[i]? = some t →
      t.op = .add req → t.failed (portConflict req) →
      ∃ ms u, ms <+: ls ∧ Run.exec step (init w) ms = some u ∧ InTheWay i req u := by
  refine ⟨(Run.exec_invariant Inv inv_step ls _ s (inv_init hw) hturn h).apart, ?_⟩
  intro i t req ht hop hfailed
  have hseen : Seen i req s :=
    ⟨t, ht, hop, (sound_run h).ended (List.mem_of_getElem? ht) hfailed req hop rfl⟩
  rcases Run.exec_since seen_step ls _ s h hseen with ⟨u, hu, -⟩ | hway
  · simp [init] at hu
  · exact hway

/-! ### Two calls for one port -/

def sshRequest : AddRequest := { vmID := "vm-1", hostPort := 2222, guestPort := 22, guestIP := "192.168.100.10" }

/-- Answers to call `i`, all as asked, at the time `nanos`. -/
def answers (i n nanos : Nat) : List PortLabel := List.replicate n (.step i { nat := nanos })

/-- An `Add`, then another for the same port. -/
def inTurn : List PortLabel :=
  .call (.add sshRequest) :: answers 0 5 1 ++ .call (.add sshRequest) :: answers 1 1 2

/-- The second is refused for the rule of the first. -/
theorem ports_apart_inTurn : ∃ s, Run.exec step (init {}) inTurn = some s ∧
    (∃ t, s.threads[1]? = some t ∧ t.failed (portConflict sshRequest) ∧
      ∃ ms u, ms <+: inTurn ∧ Run.exec step (init {}) ms = some u ∧ InTheWay 1 sshRequest u) ∧
    s.world.store.PortsApart := by
  have hrun : (Run.exec step (init {}) inTurn).any (fun s => (s.threads[1]?).any fun t =>
      t.op = .add sshRequest && t.prog.result? = some (.error (portConflict sshRequest))) = true := by
    decide +kernel
  obtain ⟨s, hs, h⟩ := (Option.any_eq_true _ _).mp hrun
  obtain ⟨t, ht, h⟩ := (Option.any_eq_true _ _).mp h
  simp only [Bool.and_eq_true, decide_eq_true_eq] at h
  have hempty : StoreState.PortsApart {} := fun id id' fwd fwd' hget => by simp at hget
  obtain ⟨hapart, hrefused⟩ := ports_apart {} hempty inTurn s (by decide +kernel) hs
  exact ⟨s, hs, ⟨t, ht, h.2, hrefused 1 t sshRequest ht h.1 h.2⟩, hapart⟩

/-- Two `Add`s for one port that both look before either stores. -/
def sideBySide : List PortLabel :=
  .call (.add sshRequest) :: .call (.add sshRequest) :: answers 0 1 0 ++ answers 1 1 0 ++
    answers 0 4 1 ++ answers 1 4 2

/-- Both are stored. -/
theorem ports_notApart : ∃ s, Run.exec step (init {}) sideBySide = some s ∧
    (∀ t ∈ s.threads, t.op.isAddOrRemove = true) ∧ ¬ s.world.store.PortsApart := by
  have hrun : (Run.exec step (init {}) sideBySide).any (fun s =>
      s.threads.all (fun t => t.op.isAddOrRemove) &&
        (s.world.store.forwards.get? "pf-1").any fun fwd =>
          (s.world.store.forwards.get? "pf-3").any fun fwd' =>
            fwd.hostPort = fwd'.hostPort && fwd.protocol = fwd'.protocol) = true := by
    decide +kernel
  obtain ⟨s, hs, h⟩ := (Option.any_eq_true _ _).mp hrun
  simp only [Bool.and_eq_true, List.all_eq_true, Option.any_eq_true, decide_eq_true_eq] at h
  obtain ⟨hops, fwd, hfwd, fwd', hfwd', hport, hproto⟩ := h
  refine ⟨s, hs, hops, fun hapart => ?_⟩
  exact absurd (hapart _ _ _ _ hfwd hfwd' hport hproto) (by decide)

end PortSys

end VMSmith

/-
The packet filter has the rules of the stored records, and no others.

Beside what is stored, the filter has what calls under way have put in, and lacks what they have
taken out.  `Inv` says so, rule by rule, as one sum over all calls.  When nobody is under way
nobody owes anything, and the filter is what is stored.

That a deletion finds its rule needs the sum once more: a record is held by one call at a time,
so what the calls have taken out is at most what is stored.
-/
import VMSmith.Network.FilterSys
import VMSmith.Proofs.Ports
import Mathlib.Algebra.Order.BigOperators.Group.List
import Mathlib.Algebra.Order.Ring.Int
import Mathlib.Algebra.BigOperators.Ring.Finset

namespace VMSmith

open Prog
open PortCall (filterView)
open PortForwarder (AddRequest ruleID)

/-! ### What a call does -/

namespace PortOp

/-- Which commands a call may issue, after what it has been answered. -/
def filterOk (op : PortOp) (v : FilterView) : Cmd → Prop
  | .net (.iptables .append rule) =>
      match op with
      | .add req => v.taken = [] ∧ v.settled = false ∧ ∃ rest, v.put ++ rule :: rest = req.rules
      | .restoreAll => v.missed = false →
          ∃ fwds rest, v.listed = some fwds ∧ v.put ++ rule :: rest = fwds.flatMap PortForward.rules
      | _ => False
  | .net (.iptables .delete rule) =>
      match op with
      | .add req => v.put = req.rules ∧ v.settled = false ∧ ∃ rest, v.taken ++ rule :: rest = req.rules
      | .remove id => v.put = [] ∧ v.settled = false ∧
          ∃ fwd rest, v.found id = some fwd ∧ v.taken ++ rule :: rest = fwd.rules
      | _ => False
  | .store (.putPortForward rule) =>
      match op with
      | .add req => v.put = req.rules ∧ v.taken = [] ∧ v.settled = false ∧ rule.rules = req.rules ∧
          ∃ nanos, v.nanos = some nanos ∧ rule.id = ruleID nanos
      | .update id _ => v.put = [] ∧ v.taken = [] ∧ v.settled = false ∧
          ∃ fwd, v.found id = some fwd ∧ rule.id = fwd.id ∧ rule.rules = fwd.rules
      | _ => False
  | .store (.deletePortForward id) =>
      match op with
      | .remove id' => id = id' ∧ v.put = [] ∧ v.settled = false ∧
          ∃ fwd, v.found id = some fwd ∧ v.taken = fwd.rules
      | _ => False
  | .store .listPortForwards => v = {}
  | _ => True

/-- How a call ends: the filter is as the store says, unless a command failed. -/
def filterPost (op : PortOp) (_ : Except Err Unit) (v : FilterView) : Prop :=
  match op with
  | .restoreAll => v.missed = false →
      ∃ fwds, v.listed = some fwds ∧ v.put = fwds.flatMap PortForward.rules
  | _ => v.broken = false → v.put = v.taken

end PortOp

/-- A call by its account with the filter. -/
abbrev filterSem (op : PortOp) : Sem Cmd Cmd.Resp FilterView := Sem.account FilterView.add op.filterOk

/-- `applyRule`, one rule and then the other. -/
theorem wp_applyRuleOf {op : PortOp} {action : IptAction} {fwd : PortForward} {v : FilterView}
    {Q : Except Err Unit → FilterView → Prop}
    (hdnat : op.filterOk v (.net (.iptables action
      (.dnat fwd.protocol fwd.hostPort fwd.guestIP fwd.guestPort))))
    (hforward : op.filterOk (v.add (.net (.iptables action
        (.dnat fwd.protocol fwd.hostPort fwd.guestIP fwd.guestPort))) (.ok ()))
      (.net (.iptables action (.forward fwd.protocol fwd.guestIP fwd.guestPort))))
    (hnone : ∀ e, Q (.error (.wrap "iptables DNAT" e)) (v.add (.net (.iptables action
        (.dnat fwd.protocol fwd.hostPort fwd.guestIP fwd.guestPort))) (.error e)))
    (hone : ∀ e, Q (.error (.wrap "iptables FORWARD" e)) ((v.add (.net (.iptables action
        (.dnat fwd.protocol fwd.hostPort fwd.guestIP fwd.guestPort))) (.ok ())).add
          (.net (.iptables action (.forward fwd.protocol fwd.guestIP fwd.guestPort))) (.error e)))
    (hboth : Q (.ok ()) ((v.add (.net (.iptables action
        (.dnat fwd.protocol fwd.hostPort fwd.guestIP fwd.guestPort))) (.ok ())).add
          (.net (.iptables action (.forward fwd.protocol fwd.guestIP fwd.guestPort))) (.ok ()))) :
    wp (filterSem op) (PortForwarder.applyRuleOf action fwd) Q v := by
  refine wp_account_call.mpr ⟨hdnat, ?_⟩
  intro r
  cases r with
  | error e => exact (wp_throw _ _ _).mpr (hnone e)
  | ok u =>
      refine wp_account_call.mpr ⟨hforward, ?_⟩
      intro r
      cases r with
      | error e => exact (wp_throw _ _ _).mpr (hone e)
      | ok u => exact (wp_ret _ _ _).mpr hboth

/-- A change of the filter that fails after the first of its commands is `broken`. -/
theorem wp_add_filter (req : AddRequest) :
    wp (filterSem (.add req)) (PortForwarder.add req) (fun _ v => v.broken = false → v.put = v.taken) {} := by
  have hrules : req.rules = [.dnat req.protocol req.hostPort req.guestIP req.guestPort,
      .forward req.protocol req.guestIP req.guestPort] := rfl
  unfold PortForwarder.add
  rw [bind_eq, wp_bind, wp_orFail]
  cases validatePortForward req.hostPort req.guestPort req.protocol with
  | error e => exact fun _ => rfl
  | ok u =>
      refine wp_account_call.mpr ⟨rfl, ?_⟩
      intro r
      cases r with
      | error e => exact (wp_throw _ _ _).mpr fun _ => rfl
      | ok rules =>
          show wp _ (failIf _ _ >>= _) _ _
          rw [bind_eq, wp_bind, wp_failIf]
          refine ⟨fun _ _ => rfl, fun _ => ?_⟩
          show wp _ (PortForwarder.applyRuleOf .append (req.toRule "") >>= _) _ _
          rw [bind_eq, wp_bind]
          refine wp_applyRuleOf ⟨rfl, rfl, _, rfl⟩ ⟨rfl, rfl, _, rfl⟩ (fun e _ => rfl) ?_ ?_
          · intro e hbroken
            simp [FilterView.add, FilterView.isClean] at hbroken
          refine wp_account_call.mpr ⟨trivial, fun nanos => ?_⟩
          refine wp_account_call.mpr ⟨⟨rfl, rfl, rfl, rfl, nanos, rfl, rfl⟩, ?_⟩
          intro r
          cases r with
          | ok u => exact (wp_ret _ _ _).mpr fun _ => rfl
          | error e =>
              show wp _ ((PortForwarder.applyRuleOf .delete (req.toRule "")).attempt >>= _) _ _
              rw [bind_eq, wp_bind, wp_attempt]
              refine wp_applyRuleOf ⟨rfl, rfl, _, rfl⟩ ⟨rfl, rfl, _, rfl⟩ ?_ ?_ ?_
              · refine fun e => (wp_throw _ _ _).mpr fun hbroken => ?_
                simp [FilterView.add, FilterView.isClean] at hbroken
              · refine fun e => (wp_throw _ _ _).mpr fun hbroken => ?_
                simp [FilterView.add, FilterView.isClean] at hbroken
              · exact (wp_throw _ _ _).mpr fun _ => rfl

theorem wp_remove_filter (id : String) : wp (filterSem (.remove id)) (PortForwarder.remove id)
    (fun _ v => v.broken = false → v.put = v.taken) {} := by
  unfold PortForwarder.remove
  refine wp_account_call.mpr ⟨rfl, ?_⟩
  intro r
  cases r with
  | error e => exact (wp_throw _ _ _).mpr fun _ => rfl
  | ok rules =>
      show wp _ ((ret rules).bind _) _ _
      rw [ret_bind]
      cases hfind : rules.find? (·.id = id) with
      | none => exact (wp_throw _ _ _).mpr fun _ => rfl
      | some fwd =>
          show wp _ (PortForwarder.applyRuleOf .delete fwd >>= _) _ _
          rw [bind_eq, wp_bind]
          refine wp_applyRuleOf ⟨rfl, rfl, fwd, _, hfind, rfl⟩ ⟨rfl, rfl, fwd, _, hfind, rfl⟩
            (fun e _ => rfl) ?_ ?_
          · intro e hbroken
            simp [FilterView.add, FilterView.isClean] at hbroken
          refine wp_account_call.mpr ⟨⟨rfl, rfl, rfl, fwd, hfind, rfl⟩, ?_⟩
          intro r
          cases r with
          | ok u => exact (wp_ret _ _ _).mpr fun _ => rfl
          | error e =>
              refine (wp_throw _ _ _).mpr fun hbroken => ?_
              simp [FilterView.add, FilterView.isClean] at hbroken

theorem wp_update_filter (id : String) (opts : PortForwarder.UpdateOptions) :
    wp (filterSem (.update id opts)) (PortForwarder.update id opts)
      (fun _ v => v.broken = false → v.put = v.taken) {} := by
  unfold PortForwarder.update
  refine wp_account_call.mpr ⟨rfl, ?_⟩
  intro r
  cases r with
  | error e => exact (wp_throw _ _ _).mpr fun _ => rfl
  | ok rules =>
      show wp _ ((ret rules).bind _) _ _
      rw [ret_bind]
      cases hfind : rules.find? (·.id = id) with
      | none => exact (wp_throw _ _ _).mpr fun _ => rfl
      | some fwd =>
          refine wp_account_call.mpr ⟨⟨rfl, rfl, rfl, fwd, hfind, rfl, rfl⟩, ?_⟩
          intro r
          cases r with
          | ok u => exact (wp_ret _ _ _).mpr fun _ => rfl
          | error e => exact (wp_throw _ _ _).mpr fun _ => rfl

/-- What is left to restore follows what has been put in. -/
theorem wp_restore {fwds : List PortForward} (v : FilterView) (done : List PortForward) (all : List PortForward)
    (hall : all = done ++ fwds) (hlisted : v.listed = some all)
    (hput : v.missed = false → v.put = done.flatMap PortForward.rules) :
    wp (filterSem .restoreAll) (PortForwarder.restore fwds) (fun _ v => v.missed = false →
      ∃ fwds, v.listed = some fwds ∧ v.put = fwds.flatMap PortForward.rules) v := by
  induction fwds generalizing v done with
  | nil =>
      refine (wp_ret _ _ _).mpr fun hmissed => ⟨all, hlisted, ?_⟩
      rw [hput hmissed, hall, List.append_nil]
  | cons fwd fwds ih =>
      have hflat : all.flatMap PortForward.rules =
          done.flatMap PortForward.rules ++ (fwd.rules ++ fwds.flatMap PortForward.rules) := by
        rw [hall, List.flatMap_append, List.flatMap_cons]
      have hnext : all = (done ++ [fwd]) ++ fwds := by rw [hall, List.append_assoc, List.singleton_append]
      have hdone : (done ++ [fwd]).flatMap PortForward.rules =
          done.flatMap PortForward.rules ++ fwd.rules := by
        rw [List.flatMap_append, List.flatMap_singleton]
      show wp _ ((PortForwarder.applyRuleOf .append fwd).attempt >>= _) _ _
      rw [bind_eq, wp_bind, wp_attempt]
      refine wp_applyRuleOf ?_ ?_ ?_ ?_ ?_
      · intro hmissed
        refine ⟨all, .forward fwd.protocol fwd.guestIP fwd.guestPort ::
          fwds.flatMap PortForward.rules, hlisted, ?_⟩
        rw [hflat, hput hmissed]
        rfl
      · intro hmissed
        refine ⟨all, fwds.flatMap PortForward.rules, hlisted, ?_⟩
        show (v.put ++ [_]) ++ _ = _
        rw [hflat, hput hmissed, List.append_assoc]
        rfl
      · exact fun e => ih _ _ hnext hlisted fun hmissed => by simp [FilterView.add] at hmissed
      · exact fun e => ih _ _ hnext hlisted fun hmissed => by simp [FilterView.add] at hmissed
      · refine ih _ _ hnext hlisted fun hmissed => ?_
        show (v.put ++ [_]) ++ [_] = _
        rw [hdone, hput hmissed, List.append_assoc]
        rfl

/-- **Every call is in order**, whatever it is answered. -/
theorem filterOp_wp (op : PortOp) : wp (filterSem op) op.body op.filterPost {} := by
  cases op with
  | add req =>
      refine wp_bind.mpr (wp_mono (fun res v hres => ?_) (wp_add_filter req))
      cases res with
      | ok rule => exact (wp_ret _ _ _).mpr hres
      | error e => exact hres
  | update id opts =>
      refine wp_bind.mpr (wp_mono (fun res v hres => ?_) (wp_update_filter id opts))
      cases res with
      | ok rule => exact (wp_ret _ _ _).mpr hres
      | error e => exact hres
  | remove id => exact wp_remove_filter id
  | restoreAll =>
      refine wp_account_call.mpr ⟨rfl, ?_⟩
      intro r
      cases r with
      | error e =>
          refine (wp_throw _ _ _).mpr fun hmissed => ?_
          simp [FilterView.add] at hmissed
      | ok fwds => exact wp_restore _ [] fwds rfl rfl fun _ => rfl

/-- A call alone, by its log. -/
theorem filterOp_alone (op : PortOp) :
    wp (Sem.alone fun log c => op.filterOk (log.account FilterView.add {}) c) op.body
      (fun res log => op.filterPost res (log.account FilterView.add {})) [] :=
  wp_alone_of_account (filterOp_wp op)

/-! ### What one step does -/

/-- What one command does to the filter, to the stored rules and to the call's account. -/
inductive FilterEffect (op : PortOp) (c : Cmd) (x : Choice) (w w' : World) (v v' : FilterView) : Prop
  | quiet (hrules : w'.net.rules = w.net.rules) (hforwards : w'.store.forwards = w.store.forwards)
      (hview : v' = v ∨ op ≠ .restoreAll ∧ v' = { v with missed := true })
  | listed (hc : c = .store .listPortForwards) (hrules : w'.net.rules = w.net.rules)
      (hforwards : w'.store.forwards = w.store.forwards)
      (hview : v' = { v with listed := some w.store.forwards.values })
  | drew (hc : c = .host .now) (hrules : w'.net.rules = w.net.rules)
      (hforwards : w'.store.forwards = w.store.forwards)
      (hview : v' = { v with nanos := some (w.host.clock + x.nat) })
  | appended (rule : IptRule) (hc : c = .net (.iptables .append rule))
      (hrules : w'.net.rules = w.net.rules ++ [rule])
      (hforwards : w'.store.forwards = w.store.forwards) (hview : v' = { v with put := v.put ++ [rule] })
  | deleted (rule : IptRule) (hc : c = .net (.iptables .delete rule)) (hmem : rule ∈ w.net.rules)
      (hrules : w'.net.rules = w.net.rules.erase rule)
      (hforwards : w'.store.forwards = w.store.forwards) (hview : v' = { v with taken := v.taken ++ [rule] })
  | stored (rule : PortForward) (hc : c = .store (.putPortForward rule))
      (hrules : w'.net.rules = w.net.rules)
      (hforwards : w'.store.forwards = w.store.forwards.put rule.id rule)
      (hview : v' = { v with put := [], settled := true })
  | erased (id : String) (hc : c = .store (.deletePortForward id)) (hrules : w'.net.rules = w.net.rules)
      (hforwards : w'.store.forwards = w.store.forwards.erase id)
      (hview : v' = { v with taken := [], settled := true })

theorem filterEffect {op : PortOp} {w w' : World} {v : FilterView} {c : Cmd} {r : c.Resp} {x : Choice}
    (hfail : x.fail.isSome = true → op ≠ .restoreAll ∧
      (v.isClean = true ∨ ∃ rule, c = .store (.putPortForward rule)))
    (hroom : ∀ rule, c = .net (.iptables .delete rule) → rule ∈ w.net.rules)
    (hexec : World.exec c x w = some (r, w')) : FilterEffect op c x w w' v (v.add c r) := by
  cases c with
  | virt c | file c =>
      obtain ⟨p, -, heq⟩ := Option.map_eq_some_iff.mp hexec
      rw [Prod.mk.injEq] at heq
      rw [← heq.2]
      exact .quiet rfl rfl (Or.inl rfl)
  | host c =>
      obtain ⟨p, hp, heq⟩ := Option.map_eq_some_iff.mp hexec
      rw [Prod.mk.injEq] at heq
      obtain ⟨rfl, rfl⟩ := heq
      cases c with
      | now =>
          obtain rfl := Option.some.inj hp
          exact .drew rfl rfl rfl rfl
      | _ => exact .quiet rfl rfl (Or.inl rfl)
  | net c =>
      obtain ⟨p, hp, heq⟩ := Option.map_eq_some_iff.mp hexec
      rw [Prod.mk.injEq] at heq
      obtain ⟨rfl, rfl⟩ := heq
      have hclean : x.fail.isSome = true → op ≠ .restoreAll ∧ v.isClean = true := by
        intro hx
        obtain ⟨hop, hclean | ⟨rule, hrule⟩⟩ := hfail hx
        · exact ⟨hop, hclean⟩
        · simp at hrule
      cases c with
      | iptables action rule =>
          cases action with
          | append =>
              rcases fallible_ok hp with ⟨hx, ⟨e, he⟩, hsame⟩ | ⟨-, he, hsame⟩
              · obtain ⟨hop, hclean⟩ := hclean hx
                refine .quiet (by rw [hsame]) rfl (Or.inr ⟨hop, ?_⟩)
                rw [he]
                simp [FilterView.add, hclean]
              · exact .appended rule rfl (by rw [hsame]) rfl (by rw [he]; rfl)
          | delete =>
              have hmem := hroom rule rfl
              have hp' : fallible x w.net (if rule ∈ w.net.rules then
                  .ok ((), { w.net with rules := w.net.rules.erase rule })
                else .error (.ext "iptables: Bad rule (does a matching rule exist in that chain?).")) =
                  some p := hp
              rw [if_pos hmem] at hp'
              rcases fallible_ok hp' with ⟨hx, ⟨e, he⟩, hsame⟩ | ⟨-, he, hsame⟩
              · obtain ⟨-, hclean⟩ := hclean hx
                refine .quiet (by rw [hsame]) rfl (Or.inl ?_)
                rw [he]
                simp [FilterView.add, hclean]
              · exact .deleted rule rfl hmem (by rw [hsame]) rfl (by rw [he]; rfl)
      | ensureNetwork | lookupNetworkByName | getDHCPLeases | networkHosts =>
          rcases fallible_ok hp with ⟨-, -, hsame⟩ | ⟨-, -, hsame⟩
          · exact .quiet (by rw [hsame]) rfl (Or.inl rfl)
          · exact .quiet (by rw [hsame]) rfl (Or.inl rfl)
      | addDHCPHost host | deleteDHCPHost host =>
          refine .quiet ?_ rfl (Or.inl rfl)
          rcases fallible_eq hp with ⟨e, -, hsame⟩ | ⟨a, -, hact, -⟩
          · rw [hsame]
          · split_ifs at hact
            obtain ⟨-, hsame⟩ := Prod.mk.inj (Except.ok.inj hact)
            rw [← hsame]
  | store c =>
      obtain ⟨s, hs, rfl⟩ := World.exec_store hexec
      cases c with
      | getVM id => exact .quiet rfl (by rw [(StoreState.exec_getVM hs).1]) (Or.inl rfl)
      | listVMs => exact .quiet rfl (by rw [(StoreState.exec_listVMs hs).1]) (Or.inl rfl)
      | putVM vm | deleteVM id | putSnapshotTags vmID name tags | getSnapshotTags vmID name
      | listSnapshotTags vmID | deleteSnapshotTags vmID name =>
          rcases fallible_ok hs with ⟨-, -, rfl⟩ | ⟨-, -, rfl⟩
          · exact .quiet rfl rfl (Or.inl rfl)
          · exact .quiet rfl rfl (Or.inl rfl)
      | listPortForwards =>
          rcases fallible_ok hs with ⟨hx, ⟨e, rfl⟩, rfl⟩ | ⟨-, rfl, rfl⟩
          · exact .quiet rfl rfl (Or.inr ⟨(hfail hx).1, rfl⟩)
          · exact .listed rfl rfl rfl rfl
      | putPortForward rule =>
          rcases fallible_ok hs with ⟨-, ⟨e, rfl⟩, rfl⟩ | ⟨-, rfl, rfl⟩
          · exact .quiet rfl rfl (Or.inl rfl)
          · exact .stored rule rfl rfl rfl rfl
      | deletePortForward id =>
          rcases fallible_ok hs with ⟨hx, ⟨e, rfl⟩, rfl⟩ | ⟨-, rfl, rfl⟩
          · obtain ⟨-, hclean | ⟨rule, hrule⟩⟩ := hfail hx
            · refine .quiet rfl rfl (Or.inl ?_)
              simp [FilterView.add, hclean]
            · simp at hrule
          · exact .erased id rfl rfl rfl rfl

/-! ### Accounts -/

/-- The filter's rules for what is stored: how often this one is among them. -/
def World.need (w : World) (rule : IptRule) : Nat :=
  w.store.forwards.total fun fwd => fwd.rules.count rule

namespace PortOp

/-- What the filter has beside what is stored, on a call's account. -/
def debt (op : PortOp) (v : FilterView) (rule : IptRule) : Int :=
  if op = .restoreAll then 0 else (v.put.count rule : Int) - v.taken.count rule

/-- The account of a call is that of what it does. -/
def Shaped (op : PortOp) (v : FilterView) : Prop :=
  match op with
  | .add _ => v.taken <+: v.put
  | .update _ _ => v.put = [] ∧ v.taken = []
  | .remove id => v.put = [] ∧ (v.taken = [] ∨
      v.settled = false ∧ ∃ fwd, v.found id = some fwd ∧ v.taken <+: fwd.rules)
  | .restoreAll => True

/-- The rule the operation is about to change or to remove. -/
def target? (op : PortOp) (v : FilterView) : Option PortForward :=
  match op with
  | .update id _ | .remove id => v.found id
  | _ => none

/-- The ID the operation has drawn for its rule. -/
def new? (op : PortOp) (v : FilterView) : Option String :=
  match op with
  | .add _ => v.nanos.map ruleID
  | _ => none

end PortOp

theorem FilterView.found_id {v : FilterView} {id : String} {fwd : PortForward}
    (h : v.found id = some fwd) : fwd.id = id := by
  obtain ⟨fwds, -, hfind⟩ := Option.bind_eq_some_iff.mp h
  simpa using List.find?_some hfind

theorem shaped_step {op : PortOp} {c : Cmd} {x : Choice} {w w' : World} {v v' : FilterView}
    (he : FilterEffect op c x w w' v v') (hok : op.filterOk v c) (h : op.Shaped v) :
    op.Shaped v' ∧ v'.broken = v.broken := by
  cases he with
  | quiet hrules hforwards hview =>
      rcases hview with rfl | ⟨-, rfl⟩
      · exact ⟨h, rfl⟩
      · exact ⟨h, rfl⟩
  | listed hc hrules hforwards hview =>
      subst hc hview
      obtain rfl : v = {} := hok
      refine ⟨?_, rfl⟩
      cases op with
      | add req => exact List.prefix_rfl
      | update id opts => exact ⟨rfl, rfl⟩
      | remove id => exact ⟨rfl, Or.inl rfl⟩
      | restoreAll => trivial
  | drew hc hrules hforwards hview =>
      subst hview
      exact ⟨h, rfl⟩
  | appended rule hc hrules hforwards hview =>
      subst hc hview
      refine ⟨?_, rfl⟩
      cases op with
      | add req =>
          obtain ⟨htaken, -⟩ := hok
          show v.taken <+: _
          rw [htaken]
          exact List.nil_prefix
      | restoreAll => trivial
      | update id opts | remove id => exact hok.elim
  | deleted rule hc hmem hrules hforwards hview =>
      subst hc hview
      refine ⟨?_, rfl⟩
      cases op with
      | add req =>
          obtain ⟨hput, -, rest, hrest⟩ := hok
          refine ⟨rest, ?_⟩
          show (v.taken ++ [rule]) ++ rest = v.put
          rw [hput, ← hrest, List.append_assoc]
          rfl
      | remove id =>
          obtain ⟨hput, hsettled, fwd, rest, hfound, hrest⟩ := hok
          refine ⟨hput, Or.inr ⟨hsettled, fwd, hfound, rest, ?_⟩⟩
          show (v.taken ++ [rule]) ++ rest = _
          rw [← hrest, List.append_assoc]
          rfl
      | update id opts | restoreAll => exact hok.elim
  | stored rule hc hrules hforwards hview =>
      subst hc hview
      refine ⟨?_, rfl⟩
      cases op with
      | add req =>
          obtain ⟨-, htaken, -⟩ := hok
          show v.taken <+: []
          rw [htaken]
      | update id opts =>
          obtain ⟨-, htaken, -⟩ := hok
          exact ⟨rfl, htaken⟩
      | remove id | restoreAll => exact hok.elim
  | erased id hc hrules hforwards hview =>
      subst hc hview
      refine ⟨?_, rfl⟩
      cases op with
      | remove id' =>
          obtain ⟨-, hput, -⟩ := hok
          exact ⟨hput, Or.inl rfl⟩
      | add req | update id opts | restoreAll => exact hok.elim

/-- **The books balance**: what one command does to the filter is on the call's account, or in
the store. -/
theorem balance_step {op : PortOp} {c : Cmd} {x : Choice} {w w' : World} {v v' : FilterView}
    (he : FilterEffect op c x w w' v v') (hok : op.filterOk v c) (hop : op ≠ .restoreAll) (rule : IptRule)
    (htarget : v.settled = false → ∀ fwd, op.target? v = some fwd →
      ∃ cur, w.store.forwards.get? fwd.id = some cur ∧ cur.rules = fwd.rules)
    (hnew : v.settled = false → ∀ id, op.new? v = some id → w.store.forwards.get? id = none) :
    (w'.net.rules.count rule : Int) - w'.need rule - op.debt v' rule =
      w.net.rules.count rule - w.need rule - op.debt v rule := by
  unfold PortOp.debt
  rw [if_neg hop, if_neg hop]
  cases he with
  | quiet hrules hforwards hview =>
      unfold World.need
      rw [hrules, hforwards]
      rcases hview with rfl | ⟨-, rfl⟩
      · rfl
      · rfl
  | listed hc hrules hforwards hview | drew hc hrules hforwards hview =>
      unfold World.need
      rw [hrules, hforwards, hview]
  | appended rule' hc hrules hforwards hview =>
      subst hview
      unfold World.need
      rw [hrules, hforwards]
      simp only [List.count_append]
      omega
  | deleted rule' hc hmem hrules hforwards hview =>
      unfold World.need
      rw [hrules, hforwards, hview, List.count_append, List.count_erase, List.count_singleton]
      have hpos : 0 < w.net.rules.count rule' := List.count_pos_iff.mpr hmem
      by_cases heq : rule' = rule
      · subst heq
        simp
        omega
      · simp [heq]
  | stored fwd hc hrules hforwards hview =>
      subst hc hview
      have htotal := w.store.forwards.total_put (fun fwd => fwd.rules.count rule) fwd.id fwd
      unfold World.need
      rw [hrules, hforwards]
      cases op with
      | add req =>
          obtain ⟨hput, htaken, hsettled, hsame, nanos, hnanos, hid⟩ := hok
          have hnone := hnew hsettled fwd.id (by simp [PortOp.new?, hnanos, hid])
          rw [hnone] at htotal
          simp only [hput, htaken, hsame, Option.map_none, Option.getD_none, List.count_nil] at htotal ⊢
          omega
      | update id opts =>
          obtain ⟨hput, htaken, hsettled, old, hfound, hid, hsame⟩ := hok
          obtain ⟨cur, hcur, hrulesEq⟩ := htarget hsettled old hfound
          rw [hid, hcur] at htotal
          rw [hid]
          simp only [hput, htaken, hsame, hrulesEq, Option.map_some, Option.getD_some,
            List.count_nil] at htotal ⊢
          omega
      | remove id | restoreAll => exact hok.elim
  | erased id hc hrules hforwards hview =>
      subst hc hview
      have htotal := w.store.forwards.total_erase (fun fwd => fwd.rules.count rule) id
      unfold World.need
      rw [hrules, hforwards]
      cases op with
      | remove id' =>
          obtain ⟨rfl, hput, hsettled, fwd, hfound, htaken⟩ := hok
          obtain ⟨cur, hcur, hrulesEq⟩ := htarget hsettled fwd hfound
          rw [FilterView.found_id hfound] at hcur
          rw [hcur] at htotal
          simp only [hput, htaken, hrulesEq, Option.map_some, Option.getD_some, List.count_nil] at htotal ⊢
          omega
      | add req | update id opts | restoreAll => exact hok.elim

/-! ### The calls of a daemon -/

namespace PortCall

theorem held?_iff {t : PortCall} {fwd : PortForward} : held? t = some fwd ↔
    t.inFlight = true ∧ (filterView t).settled = false ∧ t.op.target? (filterView t) = some fwd := by
  have hdef : held? t = if t.inFlight && !(filterView t).settled then t.op.target? (filterView t)
      else none := rfl
  rw [hdef, Option.ite_none_right_eq_some, Bool.and_eq_true, Bool.not_eq_true', and_assoc]

theorem drawn?_iff {t : PortCall} {id : String} : drawn? t = some id ↔
    t.inFlight = true ∧ (filterView t).settled = false ∧ t.op.new? (filterView t) = some id := by
  have hdef : drawn? t = if t.inFlight && !(filterView t).settled then t.op.new? (filterView t)
      else none := rfl
  rw [hdef, Option.ite_none_right_eq_some, Bool.and_eq_true, Bool.not_eq_true', and_assoc]

/-- The rules of the record that the call holds. -/
def heldCount (t : PortCall) (rule : IptRule) : Nat :=
  ((held? t).map fun fwd => fwd.rules.count rule).getD 0

end PortCall

namespace PortSys

open PortCall (held? drawn? held?_iff drawn?_iff heldCount)

theorem heldBeside_iff {s : PortSys} {i : Nat} {id : String} : heldBeside s i id = true ↔
    ∃ j u fwd, j ≠ i ∧ s.threads[j]? = some u ∧ held? u = some fwd ∧ fwd.id = id := by
  simp only [heldBeside, List.any_eq_true, List.mem_range, Bool.and_eq_true, decide_eq_true_eq,
    Option.any_eq_true]
  constructor
  · rintro ⟨j, -, hji, u, hu, fwd, hfwd, hid⟩
    exact ⟨j, u, fwd, hji, hu, hfwd, hid⟩
  · rintro ⟨j, u, fwd, hji, hu, hfwd, hid⟩
    exact ⟨j, (List.getElem?_eq_some_iff.mp hu).1, hji, u, hu, fwd, hfwd, hid⟩

theorem drawnBeside_iff {s : PortSys} {i : Nat} {id : String} : drawnBeside s i id = true ↔
    ∃ j u, j ≠ i ∧ s.threads[j]? = some u ∧ drawn? u = some id := by
  simp only [drawnBeside, List.any_eq_true, List.mem_range, Bool.and_eq_true, decide_eq_true_eq,
    Option.any_eq_true]
  constructor
  · rintro ⟨j, -, hji, u, hu, hid⟩
    exact ⟨j, u, hji, hu, hid⟩
  · rintro ⟨j, u, hji, hu, hid⟩
    exact ⟨j, (List.getElem?_eq_some_iff.mp hu).1, hji, u, hu, hid⟩

/-- What calls hold is stored, and what they have drawn is not; no two have the same. -/
structure Apart (s : PortSys) : Prop where
  held : ∀ t ∈ s.threads, ∀ fwd, held? t = some fwd →
    ∃ cur, s.world.store.forwards.get? fwd.id = some cur ∧ cur.rules = fwd.rules
  heldOnce : ∀ (i j : Nat) (t u : PortCall) (fwd fwd' : PortForward), s.threads[i]? = some t →
    s.threads[j]? = some u → held? t = some fwd → held? u = some fwd' → fwd.id = fwd'.id → i = j
  drawn : ∀ t ∈ s.threads, ∀ id, drawn? t = some id → s.world.store.forwards.get? id = none
  drawnOnce : ∀ (i j : Nat) (t u : PortCall) (id : String), s.threads[i]? = some t →
    s.threads[j]? = some u → drawn? t = some id → drawn? u = some id → i = j

/-- The daemon serves calls, and the filter is what is stored and what the calls owe. -/
structure Serving (s : PortSys) : Prop where
  restored : ∀ t ∈ s.threads, t.op = .restoreAll → t.inFlight = false
  begun : s.threads ≠ []
  balance : ∀ rule, (s.world.net.rules.count rule : Int) =
    s.world.need rule + (s.threads.map fun t : PortCall => t.op.debt (filterView t) rule).sum

/-- `RestoreAll` is the only call, and the filter has what it has put in. -/
def Restoring (s : PortSys) : Prop :=
  ∃ t, s.threads = [t] ∧ t.op = .restoreAll ∧ (filterView t).missed = false ∧
    s.world.net.rules = (filterView t).put ∧
    ∀ fwds, (filterView t).listed = some fwds → fwds = s.world.store.forwards.values

abbrev FilterSound (s : PortSys) : Prop :=
  s.Sound (fun op log c => op.filterOk (log.account FilterView.add {}) c)
    (fun op res log => op.filterPost res (log.account FilterView.add {}))

structure Booked (s : PortSys) : Prop where
  sound : FilterSound s
  lost : ∀ t ∈ s.threads, t.lost = false
  keyed : ∀ id fwd, s.world.store.forwards.get? id = some fwd → fwd.id = id
  unbroken : ∀ t ∈ s.threads, (filterView t).broken = false
  shaped : ∀ t ∈ s.threads, t.op.Shaped (filterView t)
  apart : Apart s
  phase : (s.threads = [] ∧ s.world.net.rules = []) ∨ Restoring s ∨ Serving s

variable {s s' : PortSys}

/-- A call that has ended owes nothing. -/
theorem Booked.debt_ended (hs : Booked s) {t : PortCall} (ht : t ∈ s.threads) (hend : t.inFlight = false)
    (rule : IptRule) : t.op.debt (filterView t) rule = 0 := by
  obtain ⟨res, hres⟩ := Thread.ended_of_not_inFlight hend (hs.lost t ht)
  have hpost := hs.sound.ended ht hres
  unfold PortOp.debt
  by_cases hop : t.op = .restoreAll
  · rw [if_pos hop]
  · have hput : (filterView t).put = (filterView t).taken := by
      cases hcase : t.op with
      | restoreAll => exact absurd hcase hop
      | add req | update id opts | remove id =>
          rw [hcase] at hpost
          exact hpost (hs.unbroken t ht)
    rw [if_neg hop, hput]
    exact sub_self _

/-- `RestoreAll` leaves the filter as the store says. -/
theorem Booked.restored (hs : Booked s) (hrestoring : Restoring s) (hend : ∀ t ∈ s.threads, t.inFlight = false) :
    s.world.net.rules = s.world.store.forwards.values.flatMap PortForward.rules := by
  obtain ⟨t, hthreads, hop, hmissed, hrules, hlisted⟩ := hrestoring
  have ht : t ∈ s.threads := by rw [hthreads]; exact List.mem_cons_self
  obtain ⟨res, hres⟩ := Thread.ended_of_not_inFlight (hend t ht) (hs.lost t ht)
  have hpost := hs.sound.ended ht hres
  rw [hop] at hpost
  obtain ⟨fwds, hfwds, hput⟩ := hpost hmissed
  obtain rfl := hlisted fwds hfwds
  rw [hrules]
  exact hput

theorem count_rules (w : World) (rule : IptRule) :
    (w.store.forwards.values.flatMap PortForward.rules).count rule = w.need rule := by
  rw [List.count_flatMap]
  rfl

/-- A call has taken out no more than the rules of the record it holds. -/
theorem Booked.owed (hs : Booked s) {t : PortCall} (ht : t ∈ s.threads) (rule : IptRule) :
    0 ≤ t.op.debt (filterView t) rule + heldCount t rule := by
  have hshaped := hs.shaped t ht
  unfold PortOp.debt
  cases hop : t.op with
  | restoreAll => simp
  | add req =>
      rw [hop] at hshaped
      have hle : (filterView t).taken.count rule ≤ (filterView t).put.count rule :=
        hshaped.sublist.count_le rule
      rw [if_neg (by simp)]
      omega
  | update id opts =>
      rw [hop] at hshaped
      rw [if_neg (by simp), hshaped.1, hshaped.2]
      simp
  | remove id =>
      rw [hop] at hshaped
      obtain ⟨hput, htaken⟩ := hshaped
      rw [if_neg (by simp), hput]
      rcases htaken with hnone | ⟨hsettled, fwd, hfound, hprefix⟩
      · rw [hnone]
        simp
      · by_cases hend : t.inFlight = false
        · have hdebt := hs.debt_ended ht hend rule
          unfold PortOp.debt at hdebt
          rw [hop, if_neg (by simp), hput] at hdebt
          omega
        · rw [Bool.not_eq_false] at hend
          have hheld : held? t = some fwd := by
            rw [held?_iff, hop]
            exact ⟨hend, hsettled, hfound⟩
          have hle := hprefix.sublist.count_le rule
          unfold PortCall.heldCount
          rw [hheld]
          simp
          omega

/-- What calls under way have taken out is stored. -/
theorem Booked.room (hs : Booked s) (hserving : Serving s) {t : PortCall} (ht : t ∈ s.threads)
    {rule : IptRule} (hone : 1 ≤ t.op.debt (filterView t) rule + heldCount t rule) :
    rule ∈ s.world.net.rules := by
  have hsum : (s.threads.map fun t => heldCount t rule).sum ≤ s.world.need rule := by
    refine Bucket.sum_le_total _ (fun t => (held? t).map PortForward.id) _ _ ?_ ?_ ?_
    · rw [List.pairwise_iff_getElem]
      intro i j hi hj hij id hid hid'
      obtain ⟨fwd, hfwd, rfl⟩ := Option.map_eq_some_iff.mp hid
      obtain ⟨fwd', hfwd', hsame⟩ := Option.map_eq_some_iff.mp hid'
      have heq := hs.apart.heldOnce i j _ _ fwd fwd' (List.getElem?_eq_getElem hi)
        (List.getElem?_eq_getElem hj) hfwd hfwd' hsame.symm
      omega
    · intro u hu hnone
      rw [Option.map_eq_none_iff] at hnone
      unfold PortCall.heldCount
      rw [hnone]
      rfl
    · intro u hu id hid
      obtain ⟨fwd, hfwd, rfl⟩ := Option.map_eq_some_iff.mp hid
      obtain ⟨cur, hcur, hrules⟩ := hs.apart.held u hu fwd hfwd
      refine ⟨cur, hcur, ?_⟩
      unfold PortCall.heldCount
      rw [hfwd, hrules]
      exact le_rfl
  have hnonneg : ∀ u ∈ s.threads, 0 ≤ u.op.debt (filterView u) rule + heldCount u rule :=
    fun u hu => hs.owed hu rule
  have hle : 1 ≤ (s.threads.map fun t : PortCall => t.op.debt (filterView t) rule + (heldCount t rule : Int)).sum := by
    refine hone.trans (List.single_le_sum ?_ _ (List.mem_map_of_mem ht))
    intro x hx
    obtain ⟨u, hu, rfl⟩ := List.mem_map.mp hx
    exact hnonneg u hu
  have hbalance := hserving.balance rule
  rw [List.sum_map_add] at hle
  have hcast : (s.threads.map fun t => (heldCount t rule : Int)).sum =
      ((s.threads.map fun t => heldCount t rule).sum : Nat) := by
    rw [Nat.cast_list_sum, List.map_map]
    rfl
  refine List.count_pos_iff.mp ?_
  omega

/-- Whose rule is changed or removed holds it, and whose rule is new has drawn its ID. -/
theorem forwards_step {t t' : PortCall} {c : Cmd} {x : Choice} {w w' : World}
    (he : FilterEffect t.op c x w w' (filterView t) (filterView t'))
    (hok : t.op.filterOk (filterView t) c) (hflight : t.inFlight = true) :
    w'.store.forwards = w.store.forwards ∨
      ∃ key, (∀ k, k ≠ key → w'.store.forwards.get? k = w.store.forwards.get? k) ∧
        (filterView t').settled = true ∧
        ((∃ fwd, held? t = some fwd ∧ fwd.id = key) ∨ drawn? t = some key) := by
  cases he with
  | quiet hrules hforwards hview | listed hc hrules hforwards hview | drew hc hrules hforwards hview
  | appended rule hc hrules hforwards hview | deleted rule hc hmem hrules hforwards hview =>
      exact Or.inl hforwards
  | stored rule hc hrules hforwards hview =>
      refine Or.inr ⟨rule.id, fun k hk => ?_, by rw [hview], ?_⟩
      · rw [hforwards, Bucket.get?_put_ne _ _ hk]
      · subst hc
        rw [drawn?_iff]
        cases hop : t.op with
        | add req =>
            rw [hop] at hok
            obtain ⟨-, -, hsettled, -, nanos, hnanos, hid⟩ := hok
            refine Or.inr ⟨hflight, hsettled, ?_⟩
            unfold PortOp.new?
            rw [hnanos, hid]
            rfl
        | update id opts =>
            rw [hop] at hok
            obtain ⟨-, -, hsettled, fwd, hfound, hid, -⟩ := hok
            refine Or.inl ⟨fwd, ?_, hid.symm⟩
            rw [held?_iff, hop]
            exact ⟨hflight, hsettled, hfound⟩
        | remove id | restoreAll =>
            rw [hop] at hok
            exact hok.elim
  | erased id hc hrules hforwards hview =>
      refine Or.inr ⟨id, fun k hk => ?_, by rw [hview], ?_⟩
      · rw [hforwards, Bucket.get?_erase_ne _ hk]
      · subst hc
        cases hop : t.op with
        | remove id' =>
            rw [hop] at hok
            obtain ⟨rfl, -, hsettled, fwd, hfound, -⟩ := hok
            refine Or.inl ⟨fwd, ?_, FilterView.found_id hfound⟩
            rw [held?_iff, hop]
            exact ⟨hflight, hsettled, hfound⟩
        | add req | update id' opts | restoreAll =>
            rw [hop] at hok
            exact hok.elim

/-- What a call comes to hold it has just listed, alone. -/
theorem held_step (hkeyed : ∀ id fwd, s.world.store.forwards.get? id = some fwd → fwd.id = id)
    {i : Nat} {t t' : PortCall} {c : Cmd} {k : c.Resp → M Unit} {x : Choice} {w' : World}
    (hprog : t.prog = .call c k) (hop : t'.op = t.op)
    (he : FilterEffect t.op c x s.world w' (filterView t) (filterView t')) (hflight : t.inFlight = true)
    (hapart : apart s i t x = true) {fwd : PortForward} (hheld : held? t' = some fwd) :
    held? t = some fwd ∨ (w'.store.forwards.get? fwd.id = some fwd ∧ heldBeside s i fwd.id = false) := by
  obtain ⟨-, hsettled, htarget⟩ := held?_iff.mp hheld
  rw [hop] at htarget
  have hsame : (filterView t').listed = (filterView t).listed →
      (filterView t').settled = (filterView t).settled → held? t = some fwd := by
    intro hlisted hsettled'
    rw [held?_iff]
    refine ⟨hflight, hsettled'.symm.trans hsettled, ?_⟩
    rw [← htarget]
    unfold PortOp.target? FilterView.found
    rw [hlisted]
  cases he with
  | quiet hrules hforwards hview =>
      rcases hview with hview | ⟨-, hview⟩
      · exact Or.inl (hsame (by rw [hview]) (by rw [hview]))
      · exact Or.inl (hsame (by rw [hview]) (by rw [hview]))
  | drew hc hrules hforwards hview | appended rule hc hrules hforwards hview
  | deleted rule hc hmem hrules hforwards hview =>
      exact Or.inl (hsame (by rw [hview]) (by rw [hview]))
  | stored rule hc hrules hforwards hview | erased id hc hrules hforwards hview =>
      rw [hview] at hsettled
      simp at hsettled
  | listed hc hrules hforwards hview =>
      subst hc
      have hfound : ∀ id, (filterView t').found id = some fwd →
          fwd.id = id ∧ w'.store.forwards.get? fwd.id = some fwd := by
        intro id hfound
        refine ⟨FilterView.found_id hfound, ?_⟩
        rw [hview] at hfound
        have hmem : fwd ∈ s.world.store.forwards.values := List.mem_of_find?_eq_some hfound
        obtain ⟨k, hk⟩ := Bucket.mem_values.mp hmem
        rw [hforwards, hkeyed k fwd hk]
        exact hk
      right
      cases hcase : t.op with
      | update id opts | remove id =>
          rw [hcase] at htarget
          obtain ⟨hid, hget⟩ := hfound id htarget
          refine ⟨hget, ?_⟩
          unfold apart at hapart
          rw [hcase, hprog] at hapart
          rw [hid]
          simpa using hapart
      | add req | restoreAll =>
          rw [hcase] at htarget
          simp [PortOp.target?] at htarget

/-- The ID that a call draws is no other's. -/
theorem drawn_step {i : Nat} {t t' : PortCall} {c : Cmd} {k : c.Resp → M Unit} {x : Choice} {w' : World}
    (hprog : t.prog = .call c k) (hop : t'.op = t.op)
    (he : FilterEffect t.op c x s.world w' (filterView t) (filterView t')) (hflight : t.inFlight = true)
    (hapart : apart s i t x = true) {id : String} (hdrawn : drawn? t' = some id) :
    drawn? t = some id ∨ (w'.store.forwards.get? id = none ∧ drawnBeside s i id = false) := by
  obtain ⟨-, hsettled, hnew⟩ := drawn?_iff.mp hdrawn
  rw [hop] at hnew
  have hsame : (filterView t').nanos = (filterView t).nanos →
      (filterView t').settled = (filterView t).settled → drawn? t = some id := by
    intro hnanos hsettled'
    rw [drawn?_iff]
    refine ⟨hflight, hsettled'.symm.trans hsettled, ?_⟩
    rw [← hnew]
    unfold PortOp.new?
    rw [hnanos]
  cases he with
  | quiet hrules hforwards hview =>
      rcases hview with hview | ⟨-, hview⟩
      · exact Or.inl (hsame (by rw [hview]) (by rw [hview]))
      · exact Or.inl (hsame (by rw [hview]) (by rw [hview]))
  | listed hc hrules hforwards hview | appended rule hc hrules hforwards hview
  | deleted rule hc hmem hrules hforwards hview =>
      exact Or.inl (hsame (by rw [hview]) (by rw [hview]))
  | stored rule hc hrules hforwards hview | erased id' hc hrules hforwards hview =>
      rw [hview] at hsettled
      simp at hsettled
  | drew hc hrules hforwards hview =>
      subst hc
      right
      cases hcase : t.op with
      | add req =>
          rw [hcase, hview] at hnew
          have hid : ruleID (s.world.host.clock + x.nat) = id := Option.some.inj hnew
          unfold apart at hapart
          rw [hcase, hprog] at hapart
          simp only [Bool.and_eq_true, Option.isNone_iff_eq_none, Bool.not_eq_true', hid] at hapart
          rw [hforwards]
          exact hapart
      | update id' opts | remove id' | restoreAll =>
          rw [hcase] at hnew
          simp [PortOp.new?] at hnew

/-- One command of call `i`. -/
theorem apart_answer (hs : Apart s)
    (hkeyed : ∀ id fwd, s.world.store.forwards.get? id = some fwd → fwd.id = id)
    {i : Nat} {t t' : PortCall} {c : Cmd} {k : c.Resp → M Unit} {x : Choice} {w' : World}
    (ht : s.threads[i]? = some t) (hprog : t.prog = .call c k) (hop : t'.op = t.op)
    (he : FilterEffect t.op c x s.world w' (filterView t) (filterView t'))
    (hok : t.op.filterOk (filterView t) c) (hflight : t.inFlight = true) (hapart : apart s i t x = true) :
    Apart { world := w', threads := s.threads.set i t' } := by
  have hforwards := forwards_step he hok hflight
  have hmem := List.mem_of_getElem? ht
  -- what the others hold or have drawn, this command does not touch
  have hother : ∀ {j : Nat} {u : PortCall}, j ≠ i → s.threads[j]? = some u →
      (∀ fwd, held? u = some fwd →
        w'.store.forwards.get? fwd.id = s.world.store.forwards.get? fwd.id) ∧
      ∀ id, drawn? u = some id → w'.store.forwards.get? id = s.world.store.forwards.get? id := by
    intro j u hji hu
    have humem := List.mem_of_getElem? hu
    rcases hforwards with hsame | ⟨key, hkept, -, howner⟩
    · exact ⟨fun _ _ => by rw [hsame], fun _ _ => by rw [hsame]⟩
    · constructor
      · intro fwd hfwd
        refine hkept _ fun heq => ?_
        rcases howner with ⟨fwd', hfwd', hid⟩ | hdrew
        · exact hji (hs.heldOnce j i u t fwd fwd' hu ht hfwd hfwd' (heq.trans hid.symm))
        · obtain ⟨cur, hcur, -⟩ := hs.held u humem fwd hfwd
          rw [heq, hs.drawn t hmem key hdrew] at hcur
          simp at hcur
      · intro id hid
        refine hkept _ fun heq => ?_
        rcases howner with ⟨fwd', hfwd', hid'⟩ | hdrew
        · obtain ⟨cur, hcur, -⟩ := hs.held t hmem fwd' hfwd'
          rw [hid', ← heq, hs.drawn u humem id hid] at hcur
          simp at hcur
        · exact hji (hs.drawnOnce j i u t id hu ht hid (heq ▸ hdrew))
  -- what is the call's own stays while it is not settled
  have hown : (filterView t').settled = false → w'.store.forwards = s.world.store.forwards := by
    intro hsettled
    rcases hforwards with hsame | ⟨key, -, hdone, -⟩
    · exact hsame
    · rw [hdone] at hsettled
      simp at hsettled
  have hheld : ∀ fwd, held? t' = some fwd → held? t = some fwd ∨
      (w'.store.forwards.get? fwd.id = some fwd ∧ heldBeside s i fwd.id = false) :=
    fun _ h => held_step hkeyed hprog hop he hflight hapart h
  have hdrawn : ∀ id, drawn? t' = some id → drawn? t = some id ∨
      (w'.store.forwards.get? id = none ∧ drawnBeside s i id = false) :=
    fun _ h => drawn_step hprog hop he hflight hapart h
  have halone : ∀ {j : Nat} {u : PortCall}, j ≠ i → s.threads[j]? = some u →
      (∀ fwd fwd', held? u = some fwd → held? t' = some fwd' → fwd.id ≠ fwd'.id) ∧
      ∀ id, drawn? u = some id → drawn? t' ≠ some id := by
    intro j u hji hu
    constructor
    · intro fwd fwd' hfwd hfwd' heq
      rcases hheld fwd' hfwd' with hold | ⟨-, hbeside⟩
      · exact hji (hs.heldOnce j i u t fwd fwd' hu ht hfwd hold heq)
      · rw [heldBeside_iff.mpr ⟨j, u, fwd, hji, hu, hfwd, heq⟩] at hbeside
        simp at hbeside
    · intro id hid hid'
      rcases hdrawn id hid' with hold | ⟨-, hbeside⟩
      · exact hji (hs.drawnOnce j i u t id hu ht hid hold)
      · rw [drawnBeside_iff.mpr ⟨j, u, hji, hu, hid⟩] at hbeside
        simp at hbeside
  refine ⟨?_, ?_, ?_, ?_⟩
  · intro u hu fwd hfwd
    obtain ⟨j, hj⟩ := List.getElem?_of_mem hu
    rcases Pool.getElem?_advance ht hj with ⟨-, rfl⟩ | ⟨hji, hold⟩
    · rcases hheld fwd hfwd with hold | ⟨hget, -⟩
      · show ∃ cur, w'.store.forwards.get? fwd.id = some cur ∧ cur.rules = fwd.rules
        rw [hown (held?_iff.mp hfwd).2.1]
        exact hs.held t hmem fwd hold
      · exact ⟨fwd, hget, rfl⟩
    · show ∃ cur, w'.store.forwards.get? fwd.id = some cur ∧ cur.rules = fwd.rules
      rw [(hother hji hold).1 fwd hfwd]
      exact hs.held u (List.mem_of_getElem? hold) fwd hfwd
  · intro a b u v fwd fwd' ha hb hu hv heq
    rcases Pool.getElem?_advance ht ha with ⟨rfl, rfl⟩ | ⟨hai, hold⟩
    · rcases Pool.getElem?_advance ht hb with ⟨rfl, rfl⟩ | ⟨hbi, hold'⟩
      · rfl
      · exact absurd heq.symm ((halone hbi hold').1 fwd' fwd hv hu)
    · rcases Pool.getElem?_advance ht hb with ⟨rfl, rfl⟩ | ⟨-, hold'⟩
      · exact absurd heq ((halone hai hold).1 fwd fwd' hu hv)
      · exact hs.heldOnce a b u v fwd fwd' hold hold' hu hv heq
  · intro u hu id hid
    obtain ⟨j, hj⟩ := List.getElem?_of_mem hu
    rcases Pool.getElem?_advance ht hj with ⟨-, rfl⟩ | ⟨hji, hold⟩
    · rcases hdrawn id hid with hold | ⟨hget, -⟩
      · show w'.store.forwards.get? id = none
        rw [hown (drawn?_iff.mp hid).2.1]
        exact hs.drawn t hmem id hold
      · exact hget
    · show w'.store.forwards.get? id = none
      rw [(hother hji hold).2 id hid]
      exact hs.drawn u (List.mem_of_getElem? hold) id hid
  · intro a b u v id ha hb hu hv
    rcases Pool.getElem?_advance ht ha with ⟨rfl, rfl⟩ | ⟨hai, hold⟩
    · rcases Pool.getElem?_advance ht hb with ⟨rfl, rfl⟩ | ⟨hbi, hold'⟩
      · rfl
      · exact absurd hu ((halone hbi hold').2 id hv)
    · rcases Pool.getElem?_advance ht hb with ⟨rfl, rfl⟩ | ⟨-, hold'⟩
      · exact absurd hv ((halone hai hold).2 id hu)
      · exact hs.drawnOnce a b u v id hold hold' hu hv

/-- A command that fails leaves nothing behind. -/
theorem mayFail_of_clear {t : PortCall} {c : Cmd} {k : c.Resp → M Unit} {x : Choice}
    (hprog : t.prog = .call c k) (hmay : (x.fail.isNone || PortCall.mayFail t) = true)
    (hx : x.fail.isSome = true) : t.op ≠ .restoreAll ∧
      ((filterView t).isClean = true ∨ ∃ rule, c = .store (.putPortForward rule)) := by
  have hnone : x.fail.isNone = false := by
    cases hcase : x.fail with
    | none =>
        rw [hcase] at hx
        simp at hx
    | some e => rfl
  rw [hnone, Bool.false_or] at hmay
  unfold PortCall.mayFail at hmay
  rw [Bool.and_eq_true, decide_eq_true_eq, Bool.or_eq_true, hprog] at hmay
  refine ⟨hmay.1, hmay.2.imp_right fun hput => ?_⟩
  split at hput
  · rename_i rule k' heq
    have hc : c = .store (.putPortForward rule) := by
      injection heq
    exact ⟨rule, hc⟩
  · simp at hput

/-- A rule that is about to be deleted is in the filter. -/
theorem Booked.room_delete (hs : Booked s) (hserving : Serving s) {t : PortCall} (ht : t ∈ s.threads)
    (hflight : t.inFlight = true) {rule : IptRule}
    (hok : t.op.filterOk (filterView t) (.net (.iptables .delete rule))) : rule ∈ s.world.net.rules := by
  refine hs.room hserving ht ?_
  have hcount : ∀ {taken rest rules : List IptRule}, taken ++ rule :: rest = rules →
      taken.count rule + 1 ≤ rules.count rule := by
    intro taken rest rules hrest
    rw [← hrest, List.count_append, List.count_cons_self]
    omega
  unfold PortOp.debt
  cases hop : t.op with
  | add req =>
      rw [hop] at hok
      obtain ⟨hput, -, rest, hrest⟩ := hok
      have hle := hcount hrest
      rw [if_neg (by simp), hput]
      omega
  | remove id =>
      rw [hop] at hok
      obtain ⟨hput, hsettled, fwd, rest, hfound, hrest⟩ := hok
      have hle := hcount hrest
      have hheld : held? t = some fwd := by
        rw [held?_iff, hop]
        exact ⟨hflight, hsettled, hfound⟩
      unfold PortCall.heldCount
      rw [if_neg (by simp), hput, hheld]
      simp
      omega
  | update id opts | restoreAll =>
      rw [hop] at hok
      exact hok.elim

theorem keyed_step {op : PortOp} {c : Cmd} {x : Choice} {w w' : World} {v v' : FilterView}
    (he : FilterEffect op c x w w' v v')
    (hkeyed : ∀ id fwd, w.store.forwards.get? id = some fwd → fwd.id = id) :
    ∀ id fwd, w'.store.forwards.get? id = some fwd → fwd.id = id := by
  intro id fwd hget
  cases he with
  | quiet hrules hforwards hview | listed hc hrules hforwards hview | drew hc hrules hforwards hview
  | appended rule hc hrules hforwards hview | deleted rule hc hmem hrules hforwards hview =>
      rw [hforwards] at hget
      exact hkeyed id fwd hget
  | stored rule hc hrules hforwards hview =>
      rw [hforwards] at hget
      rcases Bucket.mem_put hget with ⟨rfl, rfl⟩ | ⟨-, hold⟩
      · rfl
      · exact hkeyed id fwd hold
  | erased id' hc hrules hforwards hview =>
      rw [hforwards] at hget
      exact hkeyed id fwd (Bucket.mem_erase.mp hget).2

/-- `RestoreAll` puts one rule after the other into the filter. -/
theorem restoring_answer {t t' : PortCall} {c : Cmd} {x : Choice} {w w' : World}
    (hop : t.op = .restoreAll) (hop' : t'.op = t.op)
    (he : FilterEffect t.op c x w w' (filterView t) (filterView t'))
    (hok : t.op.filterOk (filterView t) c) (h : Restoring { world := w, threads := [t] }) :
    Restoring { world := w', threads := [t'] } := by
  obtain ⟨u, hu, -, hmissed, hrules, hlisted⟩ := h
  obtain rfl := (List.cons.inj hu).1
  rw [hop] at hok he
  refine ⟨t', rfl, hop'.trans hop, ?_⟩
  cases he with
  | quiet hrules' hforwards hview =>
      obtain hview := hview.resolve_right fun h => h.1 rfl
      show _ ∧ w'.net.rules = _ ∧ ∀ fwds, _ → fwds = w'.store.forwards.values
      rw [hview, hrules', hforwards]
      exact ⟨hmissed, hrules, hlisted⟩
  | listed hc hrules' hforwards hview =>
      show _ ∧ w'.net.rules = _ ∧ ∀ fwds, _ → fwds = w'.store.forwards.values
      rw [hview, hrules', hforwards]
      exact ⟨hmissed, hrules, fun fwds hfwds => (Option.some.inj hfwds).symm⟩
  | drew hc hrules' hforwards hview =>
      show _ ∧ w'.net.rules = _ ∧ ∀ fwds, _ → fwds = w'.store.forwards.values
      rw [hview, hrules', hforwards]
      exact ⟨hmissed, hrules, hlisted⟩
  | appended rule hc hrules' hforwards hview =>
      show _ ∧ w'.net.rules = _ ∧ ∀ fwds, _ → fwds = w'.store.forwards.values
      rw [hview, hrules', hforwards]
      exact ⟨hmissed, congrArg (· ++ [rule]) hrules, hlisted⟩
  | deleted rule hc hmem hrules' hforwards hview =>
      subst hc
      exact hok.elim
  | stored rule hc hrules' hforwards hview =>
      subst hc
      exact hok.elim
  | erased id hc hrules' hforwards hview =>
      subst hc
      exact hok.elim

/-- **The books are kept** when a call has a command answered. -/
theorem booked_answer (hs : Booked s) {i : Nat} {x : Choice} (hclear : Clear s (.step i x))
    (h : step s (.step i x) = some s') : Booked s' := by
  have hsound := Pool.sound_step filterOp_alone hs.sound h
  obtain ⟨t, c, k, r, w', ht, hlost, hprog, hexec, rfl⟩ := Pool.step_step h
  set t' : PortCall := t.advance c r (k r) with ht'
  have hflight : t.inFlight = true := by simp [Thread.inFlight, hlost, hprog, Prog.isDone]
  have hmem := List.mem_of_getElem? ht
  have hok : t.op.filterOk (filterView t) c := hs.sound.allowed ht hprog
  obtain ⟨hmay, hapart⟩ := hclear t (Option.mem_def.mpr ht)
  have hroom : ∀ rule, c = .net (.iptables .delete rule) → rule ∈ s.world.net.rules := by
    intro rule hc
    subst hc
    rcases hs.phase with ⟨hnone, -⟩ | ⟨u, hu, hrestore, -⟩ | hserving
    · rw [hnone] at hmem
      simp at hmem
    · rw [hu] at hmem
      obtain rfl := List.mem_singleton.mp hmem
      rw [hrestore] at hok
      exact hok.elim
    · exact hs.room_delete hserving hmem hflight hok
  have he : FilterEffect t.op c x s.world w' (filterView t) (filterView t') :=
    filterEffect (mayFail_of_clear hprog hmay) hroom hexec
  have hshaped := shaped_step he hok (hs.shaped t hmem)
  have hall : ∀ {P : PortCall → Prop}, (∀ u ∈ s.threads, P u) → P t' → ∀ u ∈ s.threads.set i t', P u := by
    intro P hold hnew u hu
    rcases List.mem_or_eq_of_mem_set hu with hmem | rfl
    · exact hold u hmem
    · exact hnew
  refine {
    sound := hsound, lost := hall hs.lost hlost, keyed := keyed_step he hs.keyed
    unbroken := hall hs.unbroken (hshaped.2.trans (hs.unbroken t hmem))
    shaped := hall hs.shaped hshaped.1
    apart := apart_answer hs.apart hs.keyed ht hprog rfl he hok hflight hapart
    phase := Or.inr ?_ }
  rcases hs.phase with ⟨hnone, -⟩ | hrestoring | hserving
  · rw [hnone] at hmem
    simp at hmem
  · left
    obtain ⟨u, hu, hrestore, hrest⟩ := hrestoring
    have hi : i = 0 ∧ t = u := by
      rw [hu, List.getElem?_singleton] at ht
      split_ifs at ht with hzero
      exact ⟨hzero, (Option.some.inj ht).symm⟩
    obtain ⟨rfl, rfl⟩ := hi
    rw [hu]
    exact restoring_answer hrestore rfl he hok ⟨t, rfl, hrestore, hrest⟩
  · right
    have hop : t.op ≠ .restoreAll := by
      intro hop
      rw [hserving.restored t hmem hop] at hflight
      simp at hflight
    refine ⟨hall hserving.restored fun h => absurd h hop, ?_, fun rule => ?_⟩
    · intro hnil
      have hlength := congrArg List.length hnil
      rw [List.length_set, List.length_nil, List.length_eq_zero_iff] at hlength
      exact hserving.begun hlength
    · have hbalance := hserving.balance rule
      have hstep := balance_step he hok hop rule
        (fun hsettled fwd hfwd => hs.apart.held t hmem fwd (held?_iff.mpr ⟨hflight, hsettled, hfwd⟩))
        fun hsettled id hid => hs.apart.drawn t hmem id (drawn?_iff.mpr ⟨hflight, hsettled, hid⟩)
      have hsum := Pool.sum_advance (f := fun t : PortCall => t.op.debt (filterView t) rule) ht t'
      have hop' : t'.op = t.op := rfl
      rw [hop'] at hsum
      show (w'.net.rules.count rule : Int) = w'.need rule +
        ((s.threads.set i t').map fun t : PortCall => t.op.debt (filterView t) rule).sum
      omega

/-- A new call owes nothing, holds nothing and has drawn nothing. -/
theorem apart_add (hs : Apart s) (op : PortOp) : Apart (s.add op op.body) := by
  have hheld : ∀ {j : Nat} {u : PortCall}, (s.add op op.body).threads[j]? = some u →
      s.threads[j]? = some u ∨ held? u = none ∧ drawn? u = none := by
    intro j u hu
    rcases Pool.getElem?_add hu with hold | ⟨-, rfl⟩
    · exact Or.inl hold
    · right
      constructor
      · rw [Option.eq_none_iff_forall_ne_some]
        intro fwd hfwd
        obtain ⟨-, -, htarget⟩ := held?_iff.mp hfwd
        cases op <;> simp [PortOp.target?, PortCall.filterView, Prog.Log.account, FilterView.found] at htarget
      · rw [Option.eq_none_iff_forall_ne_some]
        intro id hid
        obtain ⟨-, -, hnew⟩ := drawn?_iff.mp hid
        cases op <;> simp [PortOp.new?, PortCall.filterView, Prog.Log.account] at hnew
  refine ⟨?_, ?_, ?_, ?_⟩
  · intro u hu fwd hfwd
    obtain ⟨j, hj⟩ := List.getElem?_of_mem hu
    rcases hheld hj with hold | ⟨hnone, -⟩
    · exact hs.held u (List.mem_of_getElem? hold) fwd hfwd
    · rw [hnone] at hfwd
      simp at hfwd
  · intro i j t u fwd fwd' hi hj ht hu heq
    rcases hheld hi with hi | ⟨hnone, -⟩
    · rcases hheld hj with hj | ⟨hnone, -⟩
      · exact hs.heldOnce i j t u fwd fwd' hi hj ht hu heq
      · rw [hnone] at hu
        simp at hu
    · rw [hnone] at ht
      simp at ht
  · intro u hu id hid
    obtain ⟨j, hj⟩ := List.getElem?_of_mem hu
    rcases hheld hj with hold | ⟨-, hnone⟩
    · exact hs.drawn u (List.mem_of_getElem? hold) id hid
    · rw [hnone] at hid
      simp at hid
  · intro i j t u id hi hj ht hu
    rcases hheld hi with hi | ⟨-, hnone⟩
    · rcases hheld hj with hj | ⟨-, hnone⟩
      · exact hs.drawnOnce i j t u id hi hj ht hu
      · rw [hnone] at hu
        simp at hu
    · rw [hnone] at ht
      simp at ht

theorem booked_step (s : PortSys) (l : PortLabel) (s' : PortSys) (hs : Booked s) (hclear : Clear s l)
    (h : step s l = some s') : Booked s' := by
  cases l with
  | step i x => exact booked_answer hs hclear h
  | restart op => exact hclear.elim
  | env e =>
      have hsound := Pool.sound_step filterOp_alone hs.sound h
      obtain ⟨w, hw, rfl⟩ := Pool.step_env h
      obtain rfl := Option.some.inj hw
      have hrules : e.net.rules = s.world.net.rules := hclear
      refine {
        sound := hsound, lost := hs.lost, keyed := hs.keyed, unbroken := hs.unbroken, shaped := hs.shaped
        apart := ⟨hs.apart.held, hs.apart.heldOnce, hs.apart.drawn, hs.apart.drawnOnce⟩
        phase := ?_ }
      rcases hs.phase with ⟨hnone, hempty⟩ | ⟨t, ht, hop, hmissed, hput, hlisted⟩ | hserving
      · exact Or.inl ⟨hnone, hrules.trans hempty⟩
      · exact Or.inr (Or.inl ⟨t, ht, hop, hmissed, hrules.trans hput, hlisted⟩)
      · refine Or.inr (Or.inr ⟨hserving.restored, hserving.begun, fun rule => ?_⟩)
        show (e.net.rules.count rule : Int) = _
        rw [hrules]
        exact hserving.balance rule
  | call op =>
      have hsound := Pool.sound_step filterOp_alone hs.sound h
      obtain rfl := Option.some.inj h
      have hall : ∀ {P : PortCall → Prop}, (∀ u ∈ s.threads, P u) →
          P { op := op, prog := op.body, beside := s.inFlight } → ∀ u ∈ (s.add op op.body).threads, P u := by
        intro P hold hnew u hu
        rcases List.mem_append.mp hu with hmem | hmem
        · exact hold u hmem
        · rw [List.mem_singleton] at hmem
          exact hmem ▸ hnew
      have hshaped : op.Shaped {} := by
        cases op with
        | add req => exact List.prefix_rfl
        | update id opts => exact ⟨rfl, rfl⟩
        | remove id => exact ⟨rfl, Or.inl rfl⟩
        | restoreAll => trivial
      refine {
        sound := hsound, lost := hall hs.lost rfl, keyed := hs.keyed
        unbroken := hall hs.unbroken rfl, shaped := hall hs.shaped hshaped
        apart := apart_add hs.apart op, phase := Or.inr ?_ }
      by_cases hop : op = .restoreAll
      · subst hop
        have hnone : s.threads = [] := by simpa [Clear, mayCall] using hclear
        rcases hs.phase with ⟨-, hempty⟩ | ⟨t, ht, -⟩ | hserving
        · left
          refine ⟨{ op := .restoreAll, prog := PortOp.body .restoreAll, beside := s.inFlight }, ?_, rfl, rfl,
            hempty, fun fwds hfwds => ?_⟩
          · show s.threads ++ _ = _
            rw [hnone, List.nil_append]
          · simp [PortCall.filterView, Prog.Log.account] at hfwds
        · rw [hnone] at ht
          simp at ht
        · exact absurd hnone hserving.begun
      · right
        simp only [Clear, mayCall, if_neg hop, Bool.and_eq_true, List.all_eq_true, Bool.or_eq_true,
          Bool.not_eq_true', decide_eq_true_eq] at hclear
        obtain ⟨hbegun, hended⟩ := hclear
        have hrestored : ∀ t ∈ s.threads, t.op = .restoreAll → t.inFlight = false :=
          fun t ht hrestore => (hended t ht).resolve_left fun hne => hne hrestore
        have hnew : op.debt ({} : FilterView) = fun _ => 0 := by
          funext rule
          simp [PortOp.debt]
        refine ⟨hall hrestored fun hrestore => absurd hrestore hop, ?_, fun rule => ?_⟩
        · show s.threads ++ _ ≠ []
          simp
        · show (s.world.net.rules.count rule : Int) = s.world.need rule +
            ((s.threads ++ [_]).map fun t : PortCall => t.op.debt (filterView t) rule).sum
          rw [List.map_append, List.sum_append, List.map_singleton, List.sum_singleton]
          have hzero : op.debt (filterView { op := op, prog := op.body, beside := s.inFlight }) rule = 0 :=
            congrFun hnew rule
          rw [hzero, add_zero]
          rcases hs.phase with ⟨hnone, -⟩ | hrestoring | hserving
          · rw [hnone] at hbegun
            simp at hbegun
          · have hquiet : ∀ t ∈ s.threads, t.inFlight = false := by
              obtain ⟨t, ht, hrestore, -⟩ := hrestoring
              intro u hu
              refine hrestored u hu ?_
              rw [ht] at hu
              rw [List.mem_singleton.mp hu]
              exact hrestore
            rw [hs.restored hrestoring hquiet, count_rules]
            obtain ⟨t, ht, hrestore, -⟩ := hrestoring
            rw [ht, List.map_singleton, List.sum_singleton]
            simp [PortOp.debt, hrestore]
          · exact hserving.balance rule

/-! ### The filter and the store -/

theorem booked_init {w : World} (hempty : w.net.rules = [])
    (hkeyed : ∀ id fwd, w.store.forwards.get? id = some fwd → fwd.id = id) : Booked (init w) where
  sound := fun t ht => absurd ht List.not_mem_nil
  lost := fun t ht => absurd ht List.not_mem_nil
  keyed := hkeyed
  unbroken := fun t ht => absurd ht List.not_mem_nil
  shaped := fun t ht => absurd ht List.not_mem_nil
  apart := {
    held := fun t ht => absurd ht List.not_mem_nil
    heldOnce := fun i j t u fwd fwd' hi => by simp [init] at hi
    drawn := fun t ht => absurd ht List.not_mem_nil
    drawnOnce := fun i j t u id hi => by simp [init] at hi }
  phase := Or.inl ⟨rfl, hempty⟩

/-- **The packet filter is what is stored** whenever no call is under way, in every run that
begins with `RestoreAll` on a host that forwards nothing yet, and in which no command fails
behind a change of the filter and nobody changes or removes a rule that another call is about. -/
theorem filter_refines (w : World) (hempty : w.net.rules = [])
    (hkeyed : ∀ id fwd, w.store.forwards.get? id = some fwd → fwd.id = id) (ls : List PortLabel) (s : PortSys)
    (hclear : Run.Guarded step Clear (init w) ls) (h : Run.exec step (init w) ls = some s)
    (hbegun : s.threads ≠ []) (hquiet : s.Quiet) :
    s.world.net.rules.Perm (s.world.store.forwards.values.flatMap PortForward.rules) := by
  have hs := Run.exec_invariant Booked booked_step ls _ s (booked_init hempty hkeyed) hclear h
  rcases hs.phase with ⟨hnone, -⟩ | hrestoring | hserving
  · exact absurd hnone hbegun
  · rw [hs.restored hrestoring hquiet]
  · rw [List.perm_iff_count]
    intro rule
    have hbalance := hserving.balance rule
    have hzero : (s.threads.map fun t : PortCall => t.op.debt (filterView t) rule).sum = 0 := by
      refine List.sum_eq_zero fun x hx => ?_
      obtain ⟨t, ht, rfl⟩ := List.mem_map.mp hx
      exact hs.debt_ended ht (hquiet t ht) rule
    rw [count_rules]
    omega

/-- A rule from before the host was started. -/
def oldRule : PortForward where
  id := "pf-0"
  vmID := "vm-1"
  hostPort := 8080
  guestPort := 80
  guestIP := "192.168.100.10"
  protocol := "tcp"

/-- The old rule goes while a new one comes, and the store refuses one more. -/
def comings : List PortLabel :=
  .call .restoreAll :: answers 0 3 0 ++ .call (.add sshRequest) :: .call (.remove "pf-0") ::
    answers 1 2 0 ++ answers 2 2 0 ++ answers 1 3 1 ++ answers 2 2 0 ++
    .call (.add { sshRequest with hostPort := 2223 }) :: answers 3 4 2 ++
    .step 3 { fail := some (.ext "disk full") } :: answers 3 2 0

theorem filter_refines_comings :
    ∃ s, Run.exec step (init { store := { forwards := Bucket.empty.put "pf-0" oldRule } }) comings = some s ∧
      s.world.store.forwards.values.length = 1 ∧
      s.world.net.rules.Perm (s.world.store.forwards.values.flatMap PortForward.rules) := by
  have hrun : (Run.exec step (init { store := { forwards := Bucket.empty.put "pf-0" oldRule } }) comings).any
      (fun s => s.threads.all (fun t => !t.inFlight) && !s.threads.isEmpty &&
        s.world.store.forwards.values.length = 1) = true := by
    decide +kernel
  obtain ⟨s, hs, h⟩ := (Option.any_eq_true _ _).mp hrun
  simp only [Bool.and_eq_true, List.all_eq_true, Bool.not_eq_true', decide_eq_true_eq] at h
  obtain ⟨⟨hquiet, hbegun⟩, hone⟩ := h
  refine ⟨s, hs, hone, filter_refines _ rfl ?_ comings s (by decide +kernel) hs ?_ hquiet⟩
  · intro id fwd hfwd
    rcases Bucket.mem_put hfwd with ⟨rfl, rfl⟩ | ⟨-, hold⟩
    · rfl
    · simp at hold
  · intro hnone
    rw [hnone] at hbegun
    simp at hbegun

end PortSys

end VMSmith

/-
The cap on console sessions.

What an attempt has registered it takes out again however it ends, so the count is the
number of sessions and comes back to zero.  The cap is another matter: the check only sees
what is registered, and between an attempt's check and its registration lies all the rest
of the handshake.  As long as no check succeeds that the attempts still on their way would
not let succeed, the cap holds.
-/
import VMSmith.Console.Sessions

namespace VMSmith

namespace Sessions

open Prog
open Attempt (view)

/-! ### What an attempt does -/

/-- The check has let the attempt through. -/
def View.admitted (cfg : Config) (v : View) : Bool :=
  match v.counted with
  | some n => n < cfg.maxConcurrentSessions
  | none => cfg.maxConcurrentSessions ≤ 0

/-- The session the attempt has in the registry. -/
def View.holds (v : View) : Option (String × Nat) := if v.left then none else v.entered

/-- Which commands an attempt may issue, after what it has been answered. -/
def okCmd (cfg : Config) (v : View) : Cmd → Prop
  | .sessionCount => v = {}
  | .upgrade _ => v.upgraded = false ∧ v.entered = none ∧ v.left = false ∧ v.admitted cfg = true
  | .register _ _ => v.upgraded = true ∧ v.entered = none ∧ v.left = false
  | .unregister vmID session => v.entered = some (vmID, session) ∧ v.left = false
  | _ => True

/-- How an attempt ends: nothing is left behind. -/
def post (_ : Except Err Unit) (v : View) : Prop := v.upgraded = true ∨ v.entered.isSome → v.left = true

/-- An attempt by its account. -/
abbrev attemptSem (cfg : Config) : Sem Cmd Cmd.Resp View := Sem.account View.add (okCmd cfg)

variable {cfg : Config}

/-- Before the upgrade there is nothing to leave behind. -/
structure View.Outside (cfg : Config) (v : View) : Prop where
  upgraded : v.upgraded = false
  entered : v.entered = none
  left : v.left = false
  admitted : v.admitted cfg = true

theorem View.Outside.post {v : View} (hv : v.Outside cfg) (res : Except Err Unit) : post res v := by
  intro h
  rw [hv.upgraded, hv.entered] at h
  exact absurd h (by simp)

theorem serve_wp {vmID apiKey subprotocol : String} {greet : M (Except Err Unit)} {v : View}
    (hgreet : ∀ {f : Except Err Unit → M Unit} {v : View},
      (∀ r, wp (attemptSem cfg) (f r) post v) → wp (attemptSem cfg) (greet >>= f) post v)
    (hv : v.Outside cfg) : wp (attemptSem cfg) (serve vmID apiKey subprotocol greet) post v := by
  refine wp_account_call.mpr ⟨⟨hv.upgraded, hv.entered, hv.left, hv.admitted⟩, ?_⟩
  rintro (e | ⟨⟩)
  · refine wp_account_call.mpr ⟨trivial, fun _ => (wp_throw _ _ _).mpr ?_⟩
    rintro (h | h)
    · exact absurd h (by simp [View.add, Except.isOk, Except.toBool])
    · simp [View.add, hv.entered] at h
  · refine wp_account_call.mpr ⟨⟨rfl, hv.entered, hv.left⟩, fun session => ?_⟩
    have hend : ∀ (v' : View), v'.entered = some (vmID, session) → v'.left = false →
        wp (attemptSem cfg) (do
          let _ ← cmd .closeTarget
          let _ ← cmd .closeSocket
          let _ ← cmd (.unregister vmID session)
          return () : M Unit) post v' := by
      intro v' hentered hleft
      refine wp_account_call.mpr ⟨trivial, fun _ => ?_⟩
      refine wp_account_call.mpr ⟨trivial, fun _ => ?_⟩
      refine wp_account_call.mpr ⟨⟨hentered, hleft⟩, fun _ => ?_⟩
      exact (wp_ret _ _ _).mpr fun _ => rfl
    refine hgreet fun r => ?_
    cases r with
    | error e => exact hend _ rfl hv.left
    | ok u => exact wp_account_call.mpr ⟨trivial, fun _ => hend _ rfl hv.left⟩

theorem openConsole_wp {r : Request} {v : View} (hv : v.Outside cfg) :
    wp (attemptSem cfg) (openConsole cfg r) post v := by
  have hfail : ∀ {e : Err}, wp (attemptSem cfg) (.throw e : M Unit) post v :=
    (wp_throw _ _ _).mpr (hv.post _)
  have hnothing : ∀ {f : Except Err Unit → M Unit} {v : View},
      (∀ r, wp (attemptSem cfg) (f r) post v) →
      wp (attemptSem cfg) ((return .ok () : M (Except Err Unit)) >>= f) post v := fun h => h _
  unfold openConsole
  by_cases hticket : r.ticket = ""
  · rw [if_pos hticket]
    exact hfail
  · rw [if_neg hticket]
    cases hintent : r.consoleIntent with
    | error e => exact hfail
    | ok intent =>
        refine wp_account_call.mpr ⟨trivial, ?_⟩
        rintro (e | apiKey)
        · exact hfail
        cases intent with
        | serial =>
            refine wp_account_call.mpr ⟨trivial, ?_⟩
            rintro (e | ⟨⟩)
            · exact hfail
            · exact serve_wp hnothing hv
        | vnc =>
            refine wp_account_call.mpr ⟨trivial, ?_⟩
            rintro (e | ⟨host, port⟩)
            · exact hfail
            refine wp_account_call.mpr ⟨trivial, ?_⟩
            rintro (e | ⟨⟩)
            · exact hfail
            · exact serve_wp hnothing hv
        | rdp =>
            dsimp only [Prog.bind]
            unfold proxyRDPConsole
            rw [pure_eq, ret_bind]
            by_cases haddr : Go.trimSpace cfg.guacdAddress = ""
            · dsimp only
              rw [if_pos haddr]
              exact hfail
            dsimp only
            rw [if_neg haddr]
            refine wp_account_call.mpr ⟨trivial, ?_⟩
            rintro (e | machine)
            · exact hfail
            change MachineInfo at machine
            show wp _ (if ¬ machine.running = true then _ else if machine.ip = "" then _ else _) _ _
            by_cases hrunning : machine.running = true
            · rw [if_neg (not_not.mpr hrunning)]
              by_cases hip : machine.ip = ""
              · rw [if_pos hip]
                exact hfail
              rw [if_neg hip]
              refine wp_account_call.mpr ⟨trivial, ?_⟩
              rintro (e | ⟨⟩)
              · exact hfail
              refine wp_account_call.mpr ⟨trivial, ?_⟩
              rintro (e | ⟨⟩)
              · exact wp_account_call.mpr ⟨trivial, fun _ => hfail⟩
              · exact serve_wp (fun h => wp_account_call.mpr ⟨trivial, fun r => h r⟩) hv
            · rw [if_pos hrunning]
              exact hfail

/-- **Every attempt leaves nothing behind**, whatever it is answered. -/
theorem proxyConsole_wp (r : Request) : wp (attemptSem cfg) (proxyConsole cfg r) post {} := by
  have hfail : ∀ {e : Err} {v : View}, v.upgraded = false → v.entered = none →
      wp (attemptSem cfg) (.throw e : M Unit) post v := by
    intro e v hupgraded hentered
    refine (wp_throw _ _ _).mpr ?_
    rintro (h | h)
    · exact absurd h (by simp [hupgraded])
    · exact absurd h (by simp [hentered])
  unfold proxyConsole
  by_cases henabled : cfg.enabled = true
  · rw [if_neg (not_not.mpr henabled)]
    by_cases htls : cfg.tlsEnabled = true ∧ ¬ r.usedTLS = true
    · rw [if_pos htls]
      exact hfail rfl rfl
    rw [if_neg htls]
    by_cases hlimit : 0 < cfg.maxConcurrentSessions
    · rw [if_pos hlimit]
      refine wp_account_call.mpr ⟨rfl, fun count => ?_⟩
      change Nat at count
      show wp _ (if cfg.maxConcurrentSessions ≤ (count : Int) then _ else _) _ _
      by_cases hfull : cfg.maxConcurrentSessions ≤ (count : Int)
      · rw [if_pos hfull]
        exact hfail rfl rfl
      · rw [if_neg hfull]
        exact openConsole_wp ⟨rfl, rfl, rfl, decide_eq_true (by omega)⟩
    · rw [if_neg hlimit]
      exact openConsole_wp ⟨rfl, rfl, rfl, decide_eq_true (by omega)⟩
  · rw [if_pos henabled]
    exact hfail rfl rfl

/-- An attempt alone, by its log. -/
theorem attempt_alone (r : Request) : wp (Sem.alone fun log c => okCmd cfg (Log.view log) c)
    (proxyConsole cfg r) (fun res log => post res (Log.view log)) [] :=
  wp_alone_of_account (proxyConsole_wp r)

/-! ### The registry -/

namespace Registry

theorem count_register (w : Registry) (vmID : String) : (w.register vmID).count = w.count + 1 := by
  have htotal := w.sessions.total_put List.length vmID (w.allocated :: w.ofVM vmID)
  unfold count register
  unfold ofVM at htotal ⊢
  cases hget : w.sessions.get? vmID with
  | none => simp_all
  | some ids =>
      simp only [hget, Option.map_some, Option.getD_some, List.length_cons] at htotal ⊢
      omega

theorem count_unregister {w : Registry} {vmID : String} {session : Nat}
    (h : session ∈ w.ofVM vmID) : (w.unregister vmID session).count + 1 = w.count := by
  have hlen := List.length_erase_of_mem h
  have hpos := List.length_pos_of_mem h
  have hold : ((w.sessions.get? vmID).map List.length).getD 0 = (w.ofVM vmID).length := by
    unfold ofVM
    cases w.sessions.get? vmID <;> rfl
  unfold count unregister
  dsimp only
  split_ifs with hrest
  · have htotal := w.sessions.total_erase List.length vmID
    rw [hrest] at hlen
    rw [hold] at htotal
    simp only [List.length_nil] at hlen
    omega
  · have htotal := w.sessions.total_put List.length vmID ((w.ofVM vmID).erase session)
    rw [hold] at htotal
    omega

theorem ofVM_register (w : Registry) (vmID vmID' : String) :
    (w.register vmID).ofVM vmID' =
      if vmID' = vmID then w.allocated :: w.ofVM vmID else w.ofVM vmID' := by
  unfold ofVM register
  dsimp only
  rw [Bucket.get?_put]
  split_ifs <;> rfl

theorem ofVM_unregister (w : Registry) (vmID vmID' : String) (session : Nat) :
    (w.unregister vmID session).ofVM vmID' =
      if vmID' = vmID then (w.ofVM vmID).erase session else w.ofVM vmID' := by
  unfold unregister
  dsimp only
  split_ifs with hrest hvm hvm
  · unfold ofVM at hrest ⊢
    rw [Bucket.get?_erase, if_pos hvm, hrest]
    rfl
  · unfold ofVM
    rw [Bucket.get?_erase, if_neg hvm]
  · unfold ofVM
    rw [Bucket.get?_put, if_pos hvm]
    rfl
  · unfold ofVM
    rw [Bucket.get?_put, if_neg hvm]

end Registry

/-! ### What one step can do -/

/-- What one command of an attempt does to the registry and to its account. -/
inductive Effect (cfg : Config) (w w' : Registry) (v v' : View) : Prop
  | quiet (hw : w' = w) (hv : v' = v)
  | counted (hnew : v = {}) (hw : w' = w) (hv : v' = { v with counted := some w.count })
  | upgraded (ok : Bool) (houtside : v.Outside cfg) (hw : w' = w) (hv : v' = { v with upgraded := ok })
  | entered (vmID : String) (hupgraded : v.upgraded = true) (hnone : v.entered = none)
      (hleft : v.left = false) (hw : w' = w.register vmID)
      (hv : v' = { v with entered := some (vmID, w.allocated) })
  | left (vmID : String) (session : Nat) (hentered : v.entered = some (vmID, session))
      (hleft : v.left = false) (hw : w' = w.unregister vmID session) (hv : v' = { v with left := true })

theorem effect {v : View} {c : Cmd} {r : c.Resp} {x : Choice} {w w' : Registry}
    (hok : okCmd cfg v c) (hexec : exec c x w = some (r, w')) : Effect cfg w w' v (v.add c r) := by
  cases c with
  | sessionCount =>
      obtain ⟨rfl, rfl⟩ := Prod.mk.injEq _ _ _ _ ▸ Option.some.inj hexec
      exact .counted hok rfl rfl
  | upgrade subprotocol =>
      obtain ⟨rfl, rfl⟩ := Prod.mk.injEq _ _ _ _ ▸ Option.some.inj hexec
      exact .upgraded _ ⟨hok.1, hok.2.1, hok.2.2.1, hok.2.2.2⟩ rfl rfl
  | register vmID apiKey =>
      obtain ⟨rfl, rfl⟩ := Prod.mk.injEq _ _ _ _ ▸ Option.some.inj hexec
      exact .entered vmID hok.1 hok.2.1 hok.2.2 rfl rfl
  | unregister vmID session =>
      obtain ⟨rfl, rfl⟩ := Prod.mk.injEq _ _ _ _ ▸ Option.some.inj hexec
      exact .left vmID session hok.1 hok.2 rfl rfl
  | _ =>
      obtain ⟨rfl, rfl⟩ := Prod.mk.injEq _ _ _ _ ▸ Option.some.inj hexec
      exact .quiet rfl rfl

/-! ### The registry has what the attempts hold -/

/-- The attempt has a session in the registry. -/
def holding (t : Attempt) : Bool := (view t).holds.isSome

/-- What holds in every run. -/
structure Inv (cfg : Config) (s : Sys) : Prop where
  sound : s.Sound (fun _ log c => okCmd cfg (Log.view log) c) fun _ res log => post res (Log.view log)
  kept : ∀ t ∈ s.threads, t.lost = false
  admitted : ∀ t ∈ s.threads, (view t).upgraded = true → (view t).admitted cfg = true
  upgraded : ∀ t ∈ s.threads, (view t).entered.isSome = true → (view t).upgraded = true
  held : ∀ (i : Nat) (t : Attempt) (vmID : String) (session : Nat), s.threads[i]? = some t →
    (view t).holds = some (vmID, session) →
    session ∈ s.world.ofVM vmID ∧ session < s.world.allocated
  apart : ∀ (i j : Nat) (t u : Attempt) (vmID vmID' : String) (session : Nat),
    s.threads[i]? = some t → s.threads[j]? = some u → (view t).holds = some (vmID, session) →
    (view u).holds = some (vmID', session) → i = j
  count : s.world.count = s.threads.countP holding

theorem inv_init : Inv cfg Sys.init where
  sound := fun t ht => absurd ht List.not_mem_nil
  kept := fun t ht => absurd ht List.not_mem_nil
  admitted := fun t ht => absurd ht List.not_mem_nil
  upgraded := fun t ht => absurd ht List.not_mem_nil
  held := fun i t vmID session hi => by simp [Sys.init] at hi
  apart := fun i j t u vmID vmID' session hi => by simp [Sys.init] at hi
  count := rfl

theorem inv_attempt {s s' : Sys} {r : Request} (hs : Inv cfg s)
    (h : Sys.step cfg s (.attempt r) = some s') : Inv cfg s' := by
  have hsound := Pool.sound_step attempt_alone hs.sound h
  obtain rfl : s.add r (proxyConsole cfg r) = s' := Option.some.inj h
  have hnew : view { op := r, prog := proxyConsole cfg r, beside := s.inFlight } = {} := rfl
  have hold : ∀ {i : Nat} {t : Attempt} {p : String × Nat},
      (s.add r (proxyConsole cfg r)).threads[i]? = some t → (view t).holds = some p →
      s.threads[i]? = some t := by
    intro i t p hi hp
    rcases Pool.getElem?_add hi with hold | ⟨-, rfl⟩
    · exact hold
    · rw [hnew] at hp
      exact absurd hp (by simp [View.holds])
  have hmem : ∀ {t : Attempt}, t ∈ (s.add r (proxyConsole cfg r)).threads →
      t ∈ s.threads ∨ view t = {} ∧ t.lost = false := by
    intro t ht
    rcases List.mem_append.mp ht with hold | hlast
    · exact .inl hold
    · rw [List.mem_singleton.mp hlast]
      exact .inr ⟨rfl, rfl⟩
  refine ⟨hsound, ?_, ?_, ?_, ?_, ?_, ?_⟩
  · intro t ht
    exact (hmem ht).elim (hs.kept t) And.right
  · intro t ht hup
    rcases hmem ht with hold | ⟨hview, -⟩
    · exact hs.admitted t hold hup
    · rw [hview] at hup
      exact absurd hup (by simp)
  · intro t ht hentered
    rcases hmem ht with hold | ⟨hview, -⟩
    · exact hs.upgraded t hold hentered
    · rw [hview] at hentered
      exact absurd hentered (by simp)
  · intro i t vmID session hi hp
    exact hs.held i t vmID session (hold hi hp) hp
  · intro i j t u vmID vmID' session hi hj hp hq
    exact hs.apart i j t u vmID vmID' session (hold hi hp) (hold hj hq) hp hq
  · show s.world.count = (s.threads ++ [_]).countP _
    rw [List.countP_append, hs.count, List.countP_singleton]
    unfold holding
    rw [hnew]
    rfl

/-- What a command does to what its attempt holds: nothing, or it takes a new session, or
it gives the one it has back. -/
theorem Effect.holds {w w' : Registry} {v v' : View} (he : Effect cfg w w' v v') :
    (w' = w ∧ v'.holds = v.holds) ∨
    (∃ vmID, v.holds = none ∧ w' = w.register vmID ∧ v'.holds = some (vmID, w.allocated)) ∨
    (∃ vmID session, v.holds = some (vmID, session) ∧ w' = w.unregister vmID session ∧
      v'.holds = none) := by
  cases he with
  | quiet hw hv => exact .inl ⟨hw, by rw [hv]⟩
  | counted hnew hw hv => exact .inl ⟨hw, by rw [hv]; rfl⟩
  | upgraded ok houtside hw hv => exact .inl ⟨hw, by rw [hv]; rfl⟩
  | entered vmID hupgraded hnone hleft hw hv =>
      refine .inr (.inl ⟨vmID, ?_, hw, ?_⟩)
      · unfold View.holds
        rw [if_neg (by rw [hleft]; decide), hnone]
      · unfold View.holds
        rw [hv, if_neg (by rw [hleft]; decide)]
  | left vmID session hentered hleft hw hv =>
      refine .inr (.inr ⟨vmID, session, ?_, hw, ?_⟩)
      · unfold View.holds
        rw [if_neg (by rw [hleft]; decide), hentered]
      · unfold View.holds
        rw [hv, if_pos rfl]

/-- Whoever has been let through stays let through. -/
theorem Effect.admitted {w w' : Registry} {v v' : View} (he : Effect cfg w w' v v')
    (h : v.upgraded = true → v.admitted cfg = true) :
    v'.upgraded = true → v'.admitted cfg = true := by
  cases he with
  | quiet hw hv => rwa [hv]
  | counted hnew hw hv =>
      intro hup
      rw [hv, hnew] at hup
      exact absurd hup (by simp)
  | upgraded ok houtside hw hv =>
      intro _
      rw [hv]
      exact houtside.admitted
  | entered vmID hupgraded hnone hleft hw hv =>
      intro _
      rw [hv]
      exact h hupgraded
  | left vmID session hentered hleft hw hv => rwa [hv]

theorem Effect.upgraded_of_entered {w w' : Registry} {v v' : View} (he : Effect cfg w w' v v')
    (h : v.entered.isSome = true → v.upgraded = true) :
    v'.entered.isSome = true → v'.upgraded = true := by
  cases he with
  | quiet hw hv => rwa [hv]
  | counted hnew hw hv => rwa [hv]
  | upgraded ok houtside hw hv =>
      intro hentered
      rw [hv] at hentered
      exact absurd hentered (by simp [houtside.entered])
  | entered vmID hupgraded hnone hleft hw hv =>
      intro _
      rw [hv]
      exact hupgraded
  | left vmID session hentered hleft hw hv => rwa [hv]

theorem inv_command {s s' : Sys} {i : Nat} {x : Choice} (hs : Inv cfg s)
    (h : Sys.step cfg s (.step i x) = some s') : Inv cfg s' := by
  have hsound := Pool.sound_step attempt_alone hs.sound h
  obtain ⟨t, c, k, r, w', ht, hlost, hprog, hexec, rfl⟩ := Pool.step_step h
  have he : Effect cfg s.world w' (view t) (view (t.advance c r (k r))) :=
    effect (hs.sound.allowed ht hprog) hexec
  have hmemT := List.mem_of_getElem? ht
  have hcount := Pool.countP_advance ht (t.advance c r (k r)) (q := holding)
  have hmem : ∀ {u : Attempt}, u ∈ s.threads.set i (t.advance c r (k r)) →
      u ∈ s.threads ∨ u = t.advance c r (k r) := fun hu => List.mem_or_eq_of_mem_set hu
  refine ⟨hsound, ?_, ?_, ?_, ?_, ?_, ?_⟩
  · intro u hu
    rcases hmem hu with hold | rfl
    · exact hs.kept u hold
    · exact hlost
  · intro u hu
    rcases hmem hu with hold | rfl
    · exact hs.admitted u hold
    · exact he.admitted (hs.admitted t hmemT)
  · intro u hu
    rcases hmem hu with hold | rfl
    · exact hs.upgraded u hold
    · exact he.upgraded_of_entered (hs.upgraded t hmemT)
  · intro j u vmID session hj hp
    show session ∈ w'.ofVM vmID ∧ session < w'.allocated
    rcases Pool.getElem?_advance ht hj with ⟨rfl, rfl⟩ | ⟨hji, hju⟩
    · rcases he.holds with ⟨rfl, hv⟩ | ⟨vmID', hnone, rfl, hv⟩ | ⟨vmID', session', hold, rfl, hv⟩
      · exact hs.held j t vmID session ht (hv ▸ hp)
      · obtain ⟨rfl, rfl⟩ := Prod.mk.injEq _ _ _ _ ▸ Option.some.inj (hv.symm.trans hp)
        rw [Registry.ofVM_register, if_pos rfl]
        exact ⟨List.mem_cons_self, Nat.lt_succ_self _⟩
      · rw [hv] at hp
        exact absurd hp (by simp)
    · obtain ⟨hin, hlt⟩ := hs.held j u vmID session hju hp
      rcases he.holds with ⟨rfl, -⟩ | ⟨vmID', -, rfl, -⟩ | ⟨vmID', session', hold, rfl, -⟩
      · exact ⟨hin, hlt⟩
      · refine ⟨?_, Nat.lt_succ_of_lt hlt⟩
        rw [Registry.ofVM_register]
        by_cases hvm : vmID = vmID'
        · rw [if_pos hvm, ← hvm]
          exact List.mem_cons_of_mem _ hin
        · rwa [if_neg hvm]
      · refine ⟨?_, hlt⟩
        rw [Registry.ofVM_unregister]
        by_cases hvm : vmID = vmID'
        · rw [if_pos hvm, ← hvm]
          refine (List.mem_erase_of_ne ?_).mpr hin
          -- Two attempts never hold one session.
          rintro rfl
          exact hji (hs.apart j i u t vmID vmID' session hju ht hp hold)
        · rwa [if_neg hvm]
  · have hone : ∀ {j : Nat} {u : Attempt} {vmID vmID' : String} {session : Nat},
        j ≠ i → s.threads[j]? = some u → (view u).holds = some (vmID, session) →
        (view (t.advance c r (k r))).holds = some (vmID', session) → False := by
      intro j u vmID vmID' session hji hj hp hq
      rcases he.holds with ⟨-, hv⟩ | ⟨vmID'', -, -, hv⟩ | ⟨vmID'', session', -, -, hv⟩
      · exact hji (hs.apart j i u t vmID vmID' session hj ht hp (hv ▸ hq))
      · obtain ⟨-, rfl⟩ := Prod.mk.injEq _ _ _ _ ▸ Option.some.inj (hv.symm.trans hq)
        exact absurd (hs.held j u vmID _ hj hp).2 (lt_irrefl _)
      · rw [hv] at hq
        exact absurd hq (by simp)
    intro j l u v vmID vmID' session hj hl hp hq
    rcases Pool.getElem?_advance ht hj with ⟨hji, rfl⟩ | ⟨hji, hj⟩
    · rcases Pool.getElem?_advance ht hl with ⟨hli, rfl⟩ | ⟨hli, hl⟩
      · rw [hji, hli]
      · exact (hone hli hl hq hp).elim
    · rcases Pool.getElem?_advance ht hl with ⟨hli, rfl⟩ | ⟨hli, hl⟩
      · exact (hone hji hj hp hq).elim
      · exact hs.apart j l u v vmID vmID' session hj hl hp hq
  · show w'.count = (s.threads.set i (t.advance c r (k r))).countP holding
    have hold := hs.count
    unfold holding at hcount hold ⊢
    rcases he.holds with ⟨rfl, hv⟩ | ⟨vmID, hnone, rfl, hv⟩ | ⟨vmID, session, hsome, rfl, hv⟩
    · rw [hv] at hcount
      omega
    · rw [hnone, hv] at hcount
      rw [Registry.count_register]
      simp only [Option.isSome_none, Option.isSome_some, if_true, Bool.false_eq_true,
        if_false] at hcount
      omega
    · have hone := Registry.count_unregister (hs.held i t vmID session ht hsome).1
      rw [hsome, hv] at hcount
      simp only [Option.isSome_none, Option.isSome_some, if_true, Bool.false_eq_true,
        if_false] at hcount
      omega

theorem inv_step {s s' : Sys} {l : Label} (hs : Inv cfg s) (h : Sys.step cfg s l = some s') :
    Inv cfg s' := by
  cases l with
  | attempt r => exact inv_attempt hs h
  | step i x => exact inv_command hs h

/-! ### The cap -/

/-- Let through, still running and not yet registered. -/
def pending (cfg : Config) (t : Attempt) : Bool :=
  t.inFlight && (view t).counted.isSome && (view t).admitted cfg && (view t).entered.isNone

/-- The attempt at place `i` is about to read the count. -/
def checking (s : Sys) (i : Nat) : Bool :=
  match s.threads[i]?.map Thread.prog with
  | some (.call .sessionCount _) => true
  | _ => false

/-- A check that succeeds would also succeed with every attempt counted that has been let
through and is still on its way. -/
def Unhurried (cfg : Config) (s : Sys) : Label → Prop
  | .attempt _ => True
  | .step i _ => checking s i = true → (s.world.count : Int) < cfg.maxConcurrentSessions →
      (s.world.count : Int) + s.threads.countP (pending cfg) < cfg.maxConcurrentSessions

instance (s : Sys) (l : Label) : Decidable (Unhurried cfg s l) := by
  unfold Unhurried
  split <;> infer_instance

/-- The registered sessions and the ones to come are within the limit. -/
structure Capped (cfg : Config) (s : Sys) : Prop extends Inv cfg s where
  within : 0 < cfg.maxConcurrentSessions →
    (s.world.count : Int) + s.threads.countP (pending cfg) ≤ cfg.maxConcurrentSessions

theorem capped_init : Capped cfg Sys.init where
  toInv := inv_init
  within := fun hmax => by
    show ((0 : Nat) : Int) + ((0 : Nat) : Int) ≤ _
    omega

/-- With a limit set, whoever has been let through has read the count. -/
theorem counted_of_admitted {v : View} (hmax : 0 < cfg.maxConcurrentSessions)
    (hadm : v.admitted cfg = true) : v.counted.isSome = true := by
  by_contra hc
  rw [Bool.not_eq_true, Option.isSome_eq_false_iff, Option.isNone_iff_eq_none] at hc
  unfold View.admitted at hadm
  rw [hc] at hadm
  exact absurd (of_decide_eq_true hadm) (by omega)

theorem pending_eq_false {t : Attempt} (h : (view t).entered.isSome = true) :
    pending cfg t = false := by
  unfold pending
  rw [Option.isNone_eq_false_iff.mpr h, Bool.and_false]

/-- Only reading the count gives an attempt a count. -/
theorem View.add_counted {v : View} {c : Cmd} {r : c.Resp} (hv : v.counted = none)
    (h : (v.add c r).counted.isSome = true) : c = .sessionCount := by
  cases c with
  | sessionCount => rfl
  | _ =>
      rw [show (v.add _ r).counted = v.counted from rfl, hv] at h
      exact absurd h (by simp)

/-- Only a check that succeeds adds to the registered sessions and the ones to come. -/
theorem Effect.count_pending {w w' : Registry} {t t' : Attempt} (hmax : 0 < cfg.maxConcurrentSessions)
    (hflight : t.inFlight = true)
    (hadmitted : (view t).upgraded = true → (view t).admitted cfg = true)
    (hheld : ∀ vmID session, (view t).holds = some (vmID, session) → session ∈ w.ofVM vmID)
    (he : Effect cfg w w' (view t) (view t')) :
    w'.count + (if pending cfg t' then 1 else 0) ≤ w.count + (if pending cfg t then 1 else 0) ∨
      (view t = {} ∧ (view t').counted.isSome = true ∧ w' = w ∧
        (w.count : Int) < cfg.maxConcurrentSessions) := by
  have hsame : (view t').counted = (view t).counted → (view t').entered = (view t).entered →
      (if pending cfg t' then 1 else 0) ≤ if pending cfg t then 1 else 0 := by
    intro hcounted hentered
    by_cases h : pending cfg t' = true
    · have ht : pending cfg t = true := by
        unfold pending View.admitted at h ⊢
        rw [hcounted, hentered] at h
        simp only [Bool.and_eq_true] at h ⊢
        exact ⟨⟨⟨hflight, h.1.1.2⟩, h.1.2⟩, h.2⟩
      rw [if_pos h, if_pos ht]
    · rw [if_neg h]
      exact Nat.zero_le _
  cases he with
  | quiet hw hv =>
      have hle := hsame (by rw [hv]) (by rw [hv])
      rw [hw]
      omega
  | upgraded ok houtside hw hv =>
      have hle := hsame (by rw [hv]) (by rw [hv])
      rw [hw]
      omega
  | counted hnew hw hv =>
      by_cases hfree : (w.count : Int) < cfg.maxConcurrentSessions
      · exact .inr ⟨hnew, by rw [hv]; rfl, hw, hfree⟩
      · have hno : pending cfg t' = false := by
          unfold pending
          rw [show (view t').admitted cfg = false by
            rw [hv]
            exact decide_eq_false hfree]
          simp
        rw [hw, hno]
        exact .inl (by simp)
  | entered vmID hupgraded hnone hleft hw hv =>
      have hyes : pending cfg t = true := by
        have hadm := hadmitted hupgraded
        have hcounted := counted_of_admitted hmax hadm
        unfold pending
        rw [hflight, hcounted, hadm, hnone]
        rfl
      have hno : pending cfg t' = false := pending_eq_false (by rw [hv]; rfl)
      rw [hw, hyes, hno, Registry.count_register]
      exact .inl (by simp)
  | left vmID session hentered hleft hw hv =>
      have hin := hheld vmID session (by
        unfold View.holds
        rw [if_neg (by rw [hleft]; decide), hentered])
      have hone := Registry.count_unregister hin
      have hno : pending cfg t' = false := pending_eq_false (by rw [hv, hentered]; rfl)
      rw [hw, hno]
      left
      simp only [Bool.false_eq_true, if_false]
      omega

theorem capped_step {s s' : Sys} {l : Label} (hs : Capped cfg s) (hguard : Unhurried cfg s l)
    (h : Sys.step cfg s l = some s') : Capped cfg s' := by
  refine ⟨inv_step hs.toInv h, fun hmax => ?_⟩
  have hwithin := hs.within hmax
  cases l with
  | attempt r =>
      obtain rfl : s.add r (proxyConsole cfg r) = s' := Option.some.inj h
      show (s.world.count : Int) + ((s.threads ++ [_]).countP _ : Nat) ≤ _
      rw [List.countP_append, List.countP_singleton]
      rw [show pending cfg { op := r, prog := proxyConsole cfg r, beside := s.inFlight } = false by
        unfold pending
        simp [view, Log.view, Prog.Log.account]]
      simpa using hwithin
  | step i x =>
      obtain ⟨t, c, k, r, w', ht, hlost, hprog, hexec, rfl⟩ := Pool.step_step h
      have hmemT := List.mem_of_getElem? ht
      have hflight : t.inFlight = true := by
        unfold Thread.inFlight
        rw [hlost, hprog]
        rfl
      have he : Effect cfg s.world w' (view t) (view (t.advance c r (k r))) :=
        effect (hs.sound.allowed ht hprog) hexec
      have hcount := Pool.countP_advance ht (t.advance c r (k r)) (q := pending cfg)
      show (w'.count : Int) + ((s.threads.set i _).countP _ : Nat) ≤ _
      rcases he.count_pending hmax hflight (hs.admitted t hmemT)
        (fun vmID session hp => (hs.held i t vmID session ht hp).1) with hle |
        ⟨hnew, hsome, rfl, hfree⟩
      · omega
      · obtain rfl : c = .sessionCount := View.add_counted (v := view t) (by rw [hnew]) hsome
        have hroom := hguard (by unfold checking; rw [ht, Option.map_some, hprog]) hfree
        have hno : pending cfg t = false := by
          unfold pending
          rw [hnew]
          simp
        rw [hno] at hcount
        split_ifs at hcount <;> omega

theorem countP_le_add {α : Type} {p q r : α → Bool} :
    ∀ {ts : List α}, (∀ t ∈ ts, p t = true → q t = true ∨ r t = true) →
      ts.countP p ≤ ts.countP q + ts.countP r
  | [], _ => Nat.zero_le _
  | t :: ts, h => by
      have ih := countP_le_add fun u hu => h u (List.mem_cons_of_mem t hu)
      have ht := h t List.mem_cons_self
      rw [List.countP_cons, List.countP_cons, List.countP_cons]
      by_cases hp : p t = true
      · rcases ht hp with hq | hr
        · rw [if_pos hp, if_pos hq]
          omega
        · rw [if_pos hp, if_pos hr]
          omega
      · rw [if_neg hp]
        omega

/-- Who is served is registered or on the way there. -/
theorem holding_or_pending {s : Sys} (hs : Inv cfg s) (hmax : 0 < cfg.maxConcurrentSessions)
    {t : Attempt} (ht : t ∈ s.threads) (hup : (view t).upgraded = true)
    (hleft : (view t).left = false) : holding t = true ∨ pending cfg t = true := by
  cases hentered : (view t).entered with
  | some p =>
      left
      unfold holding View.holds
      rw [if_neg (by rw [hleft]; decide), hentered]
      rfl
  | none =>
      right
      have hadm := hs.admitted t ht hup
      have hflight : t.inFlight = true := by
        by_contra hdone
        obtain ⟨res, hres⟩ :=
          Thread.ended_of_not_inFlight (Bool.not_eq_true _ ▸ hdone) (hs.kept t ht)
        have hpost : post res (view t) := hs.sound.ended ht hres
        rw [hpost (.inl hup)] at hleft
        exact absurd hleft (by decide)
      unfold pending
      rw [hflight, counted_of_admitted hmax hadm, hadm, hentered]
      rfl

theorem served_le {s : Sys} (hs : Inv cfg s) (hmax : 0 < cfg.maxConcurrentSessions) :
    s.served ≤ s.world.count + s.threads.countP (pending cfg) := by
  rw [hs.count]
  refine countP_le_add fun t ht hserved => ?_
  rw [Bool.and_eq_true, Bool.not_eq_true'] at hserved
  exact holding_or_pending hs hmax ht hserved.1 hserved.2

/-- With every attempt at its end the registry is empty. -/
theorem count_of_quiet {s : Sys} (hs : Inv cfg s) (hquiet : s.Quiet) : s.world.count = 0 := by
  rw [hs.count, List.countP_eq_zero]
  intro t ht hheld
  obtain ⟨res, hres⟩ := Thread.ended_of_not_inFlight (hquiet t ht) (hs.kept t ht)
  have hpost : post res (view t) := hs.sound.ended ht hres
  unfold holding View.holds at hheld
  by_cases hleft : (view t).left = true
  · rw [if_pos hleft] at hheld
    exact absurd hheld (by simp)
  · rw [if_neg hleft] at hheld
    exact hleft (hpost (.inr hheld))

/-- **The cap on console sessions.**  In every run in which a check only succeeds when the
attempts still on their way leave room, the sessions served are within the limit; and in
every run the registry is empty once every attempt has ended. -/
theorem sessions_capped (cfg : Config) (ls : List Label) (s : Sys)
    (h : Run.exec (Sys.step cfg) Sys.init ls = some s) :
    (Run.Guarded (Sys.step cfg) (Unhurried cfg) Sys.init ls → 0 < cfg.maxConcurrentSessions →
      (s.served : Int) ≤ cfg.maxConcurrentSessions) ∧
    (s.Quiet → s.world.count = 0) := by
  constructor
  · intro hguard hmax
    have hs : Capped cfg s := Run.exec_invariant (Capped cfg)
      (fun _ _ _ hs hg hstep => capped_step hs hg hstep) ls _ s capped_init hguard h
    have hserved := served_le hs.toInv hmax
    have hwithin := hs.within hmax
    omega
  · intro hquiet
    have hs : Inv cfg s := Run.exec_invariant (Inv cfg)
      (fun _ _ _ hs _ hstep => inv_step hs hstep) ls _ s inv_init (Run.guarded_true _ _) h
    exact count_of_quiet hs hquiet

/-! ### Runs -/

def oneSession : Config := { maxConcurrentSessions := 1 }

/-- An attempt on VM `vm` at the VNC console. -/
def onVM (vm : String) : Label := .attempt { vmID := vm, ticket := "t" }

/-- Attempt `i` gets `n` answers. -/
def answers (i n : Nat) : List Label := List.replicate n (.step i {})

/-- Two sessions of one VM, one after the other. -/
def oneByOne : List Label :=
  onVM "vm-1" :: answers 0 10 ++ onVM "vm-1" :: answers 1 6

theorem sessions_capped_oneByOne : ∃ s, Run.exec (Sys.step oneSession) Sys.init oneByOne = some s ∧
    s.served = 1 ∧ (s.served : Int) ≤ 1 := by
  have hrun : (Run.exec (Sys.step oneSession) Sys.init oneByOne).any
      (fun s => s.served = 1) = true := by decide +kernel
  obtain ⟨s, hs, h⟩ := (Option.any_eq_true _ _).mp hrun
  exact ⟨s, hs, of_decide_eq_true h,
    (sessions_capped oneSession oneByOne s hs).1 (by decide +kernel) (by decide)⟩

/-- Two attempts that both check before either registers. -/
def twoAtOnce : List Label :=
  onVM "vm-1" :: onVM "vm-2" :: .step 0 {} :: .step 1 {} :: answers 0 5 ++ answers 1 5

theorem sessions_over_cap : ∃ s, Run.exec (Sys.step oneSession) Sys.init twoAtOnce = some s ∧
    s.served = 2 ∧ ¬ (s.served : Int) ≤ oneSession.maxConcurrentSessions := by
  have hrun : (Run.exec (Sys.step oneSession) Sys.init twoAtOnce).any
      (fun s => s.served = 2) = true := by decide +kernel
  obtain ⟨s, hs, h⟩ := (Option.any_eq_true _ _).mp hrun
  have htwo : s.served = 2 := of_decide_eq_true h
  exact ⟨s, hs, htwo, by rw [htwo]; decide⟩

end Sessions

end VMSmith

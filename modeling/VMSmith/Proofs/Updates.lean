/-
What an update leaves when every command succeeds.

The patch of a request is resolved into a plan, and the plan says of every field what it will
be.  So a record that holds what the plan says is the record the patch asks for, and it is
enough to see that on each of the three ways out: nothing to do, a change of the flags alone,
and the whole sequence of steps.  On the first two the record is written as it is because the
plan says nothing new.  Tags are compared joined together, which tells two lists of them apart
as no tag holds a comma.

The domain is followed by its state.  Only a domain that runs is stopped, and it is started
again.
-/
import VMSmith.Api.VMRequests
import VMSmith.Proofs.SmoothCalls
import VMSmith.Proofs.GPUs
import VMSmith.VM.Document

namespace VMSmith

open Prog (bind_eq wp_bind)
open Go (trimSpace)
open Api (tagRe normalizeTag normalizeTags readVMUpdate)

/-! ### Tags -/

theorem tagRe_plain {tag : String} (h : tagRe tag = true) : tag ≠ "" ∧ ',' ∉ tag.toList := by
  unfold tagRe at h
  simp only [Bool.and_eq_true, List.all_eq_true] at h
  refine ⟨?_, fun hcomma => absurd (h.2 ',' hcomma) (by decide)⟩
  rintro rfl
  exact absurd h.1 (by decide)

theorem mapM_ok {α β : Type} {f : α → Except Err β} {xs : List α} {ys : List β}
    (h : xs.mapM f = .ok ys) : ∀ y ∈ ys, ∃ x ∈ xs, f x = .ok y := by
  induction xs generalizing ys with
  | nil =>
      obtain rfl : [] = ys := Except.ok.inj h
      simp
  | cons x xs ih =>
      rw [List.mapM_cons] at h
      obtain ⟨y, hy, h⟩ := Api.bind_ok h
      obtain ⟨ys', hys', h⟩ := Api.bind_ok h
      obtain rfl : y :: ys' = ys := Except.ok.inj h
      intro z hz
      rcases List.mem_cons.mp hz with rfl | hz
      · exact ⟨x, List.mem_cons_self, hy⟩
      · obtain ⟨x', hx', hfx'⟩ := ih hys' z hz
        exact ⟨x', List.mem_cons_of_mem _ hx', hfx'⟩

theorem normalizeTags_plain {tags out : List String} (h : normalizeTags tags = .ok out) :
    ∀ tag ∈ out, tagRe tag = true := by
  unfold normalizeTags at h
  cases hts : tags.mapM normalizeTag with
  | error e => simp [hts, Except.map] at h
  | ok ts =>
      rw [hts] at h
      obtain rfl : ts.dedup.insertionSort (· ≤ ·) = out := Except.ok.inj h
      intro tag htag
      rw [List.mem_insertionSort, List.mem_dedup] at htag
      obtain ⟨t, -, ht⟩ := mapM_ok hts tag htag
      unfold normalizeTag at ht
      dsimp only at ht
      split_ifs at ht with _ _ hre
      obtain rfl := Except.ok.inj ht
      simpa using hre

theorem normalizeTags_ne_nil {tags out : List String} (hne : tags ≠ []) (h : normalizeTags tags = .ok out) :
    out ≠ [] := by
  unfold normalizeTags at h
  cases tags with
  | nil => exact absurd rfl hne
  | cons tag tags =>
      cases hts : (tag :: tags).mapM normalizeTag with
      | error e => simp [hts, Except.map] at h
      | ok ts =>
          rw [hts] at h
          rw [List.mapM_cons] at hts
          obtain ⟨t, -, hts⟩ := Api.bind_ok hts
          obtain ⟨ts', -, hts⟩ := Api.bind_ok hts
          obtain rfl : t :: ts' = ts := Except.ok.inj hts
          obtain rfl : (t :: ts').dedup.insertionSort (· ≤ ·) = out := Except.ok.inj h
          intro hnil
          have hmem : t ∈ (t :: ts').dedup.insertionSort (· ≤ ·) := by simp
          rw [hnil] at hmem
          exact absurd hmem List.not_mem_nil

/-! ### What a patch asks for -/

/-- What the API hands on of a request that it accepts. -/
theorem readVMUpdate_ok {req patch : VMUpdateSpec} (h : readVMUpdate req = .ok patch) :
    ∃ tags, normalizeTags (req.tags.getD []) = .ok tags ∧
      patch = { req with
        tags := if tags = [] then none else some tags
        description := trimSpace req.description } ∧
      (∀ iso, req.installISO = some iso → trimSpace iso = "") ∧
      (req.natStaticIP ≠ "" → ∃ ip, Net.parseCIDR req.natStaticIP = some ip) := by
  unfold readVMUpdate at h
  obtain ⟨_, hvalid, h⟩ := Api.bind_ok h
  obtain ⟨tags, htags, h⟩ := Api.bind_ok h
  refine ⟨tags, htags, (Except.ok.inj h).symm, fun iso hiso => ?_, fun hip => ?_⟩
  · unfold Api.validateVMUpdateSpec at hvalid
    obtain ⟨_, hrefuse, -⟩ := Api.bind_ok hvalid
    unfold Api.rejectIf at hrefuse
    split_ifs at hrefuse with hany
    rw [hiso] at hany
    simpa using hany
  · unfold Api.validateVMUpdateSpec at hvalid
    obtain ⟨_, -, hvalid⟩ := Api.bind_ok hvalid
    obtain ⟨_, -, hvalid⟩ := Api.bind_ok hvalid
    obtain ⟨_, -, hvalid⟩ := Api.bind_ok hvalid
    obtain ⟨_, -, hvalid⟩ := Api.bind_ok hvalid
    dsimp only at hvalid
    rw [if_neg hip] at hvalid
    obtain ⟨_, hcidr, -⟩ := Api.bind_ok hvalid
    unfold Api.validateCIDR Api.rejectIf at hcidr
    split_ifs at hcidr with hnone
    exact Option.ne_none_iff_exists'.mp hnone

/-- A word of a record after a patch: the one named, in normal form, or as it was, where none
is named or the one it was is the one named. -/
def VM.Word (patch : Option String) (old new : String) : Prop :=
  match patch with
  | none => new = old
  | some word => new = UpdatePlan.canonical word ∨
      new = old ∧ UpdatePlan.canonical old = UpdatePlan.canonical word

/-- The console secrets of a record after a patch. -/
def VM.Secrets (d : Daemon) (patch : Option String) (vm new : VM) : Prop :=
  match patch with
  | none => new.vncPasswordHash = vm.vncPasswordHash ∧ new.vncPasswordEnc = vm.vncPasswordEnc ∧
      new.spec.vncPassword = vm.spec.vncPassword
  | some plain =>
      if plain = "" ∧ vm.vncPasswordHash = "" then
        new.vncPasswordHash = vm.vncPasswordHash ∧ new.vncPasswordEnc = vm.vncPasswordEnc ∧
          new.spec.vncPassword = vm.spec.vncPassword
      else new.spec.vncPassword = "" ∧
        if plain = "" then new.vncPasswordHash = "" ∧ new.vncPasswordEnc = ""
        else ∃ nonce, new.vncPasswordEnc = d.host.cipher.sealed d.cfg.passwordKey nonce plain

/-- The record has the values the patch names, in normal form, and is as it was in all else. -/
structure VM.Patched (d : Daemon) (req : VMUpdateSpec) (vm new : VM) : Prop where
  description : new.description =
    if trimSpace req.description = "" then vm.description else trimSpace req.description
  tags : (req.tags = none → new.tags = vm.tags) ∧
    ∀ tags, req.tags = some tags → tags ≠ [] → normalizeTags tags = .ok new.tags
  /-- The spec's own copies follow, or stay as they are. -/
  copies : (new.spec.description = vm.spec.description ∧ new.spec.tags = vm.spec.tags) ∨
    (new.spec.description = new.description ∧ new.spec.tags = new.tags)
  cpus : new.spec.cpus = if 0 < req.cpus then req.cpus else vm.spec.cpus
  ramMB : new.spec.ramMB = if 0 < req.ramMB then req.ramMB else vm.spec.ramMB
  diskGB : new.spec.diskGB = if 0 < req.diskGB then req.diskGB else vm.spec.diskGB
  natStaticIP : new.spec.natStaticIP =
    match Net.parseCIDR req.natStaticIP with
    | some ip => if req.natStaticIP = "" then vm.spec.natStaticIP else ip ++ "/24"
    | none => vm.spec.natStaticIP
  /-- A gateway that is named goes with an address that changes. -/
  natGateway : new.spec.natStaticIP ≠ vm.spec.natStaticIP ∨ req.natGateway = "" →
    new.spec.natGateway =
      if new.spec.natStaticIP = vm.spec.natStaticIP then vm.spec.natGateway
      else if req.natGateway = "" then gatewayFromSubnet d.cfg.network.subnet
      else req.natGateway
  ip : new.ip =
    if new.spec.natStaticIP = vm.spec.natStaticIP then vm.ip
    else (Net.parseCIDR new.spec.natStaticIP).getD vm.ip
  autoStart : new.spec.autoStart = req.autoStart.getD vm.spec.autoStart
  locked : new.spec.locked = req.locked.getD vm.spec.locked
  clockOffset : VM.Word req.clockOffset vm.spec.clockOffset new.spec.clockOffset
  diskBus : VM.Word req.diskBus vm.spec.diskBus new.spec.diskBus
  nicModel : VM.Word req.nicModel vm.spec.nicModel new.spec.nicModel
  installISO : new.spec.installISO = if req.installISO.isSome then "" else vm.spec.installISO
  vnc : vm.Secrets d req.vncPassword new
  /-- Nothing else is changed but the time of the update. -/
  rest : new = { vm with
    description := new.description
    tags := new.tags
    spec := { vm.spec with
      description := new.spec.description
      tags := new.spec.tags
      cpus := new.spec.cpus
      ramMB := new.spec.ramMB
      diskGB := new.spec.diskGB
      natStaticIP := new.spec.natStaticIP
      natGateway := new.spec.natGateway
      autoStart := new.spec.autoStart
      locked := new.spec.locked
      clockOffset := new.spec.clockOffset
      diskBus := new.spec.diskBus
      nicModel := new.spec.nicModel
      installISO := new.spec.installISO
      vncPassword := new.spec.vncPassword }
    ip := new.ip
    updatedAt := new.updatedAt
    vncPasswordHash := new.vncPasswordHash
    vncPasswordEnc := new.vncPasswordEnc }

/-- The manager turns a patch away that would shrink the disk, or would change the password of a
console that is in use. -/
def VM.Refuses (vm : VM) (req : VMUpdateSpec) (wasRunning : Bool) : Prop :=
  (0 < req.diskGB ∧ req.diskGB < vm.spec.diskGB) ∨
    wasRunning = true ∧ ∃ plain, req.vncPassword = some plain ∧
      ¬ (plain = "" ∧ vm.vncPasswordHash = "")

/-! ### The plan -/

namespace UpdatePlan

variable {d : Daemon} {vm : VM} {req patch : VMUpdateSpec} {wasRunning : Bool} {p : UpdatePlan}

/-- A record with the values of the plan. -/
def record (p : UpdatePlan) (vm : VM) (vnc : String × String) (specDescription : String)
    (specTags : List String) (updatedAt : Nat) : VM :=
  let new := p.apply vm vnc.1 vnc.2
  { new with
    spec := { new.spec with description := specDescription, tags := specTags }
    updatedAt := updatedAt }

/-- The console secrets are what the plan makes of them. -/
def Sealed (d : Daemon) (p : UpdatePlan) (vm : VM) (vnc : String × String) : Prop :=
  if p.vncChanged then
    if p.vncPlain = "" then vnc = ("", "")
    else ∃ nonce, vnc.2 = d.host.cipher.sealed d.cfg.passwordKey nonce p.vncPlain
  else vnc = (vm.vncPasswordHash, vm.vncPasswordEnc)

theorem resolveWord_word (patch : Option String) (stored : String) :
    VM.Word patch stored (resolveWord patch stored).1 ∧
      ((resolveWord patch stored).2 = false → (resolveWord patch stored).1 = stored) := by
  unfold VM.Word resolveWord
  cases patch with
  | none => exact ⟨rfl, fun _ => rfl⟩
  | some word =>
      dsimp only
      by_cases hsame : canonical word = canonical stored
      · rw [if_pos hsame]
        exact ⟨.inr ⟨rfl, hsame.symm⟩, fun _ => rfl⟩
      · rw [if_neg hsame]
        exact ⟨.inl rfl, fun h => absurd h (by simp)⟩

theorem resolveBool_eq (patch : Option Bool) (stored : Bool) :
    (resolveBool patch stored).1 = patch.getD stored ∧
      ((resolveBool patch stored).2 = false → (resolveBool patch stored).1 = stored) := by
  unfold resolveBool
  cases patch with
  | none => exact ⟨rfl, fun _ => rfl⟩
  | some v =>
      dsimp only
      by_cases hsame : v = stored
      · rw [if_pos hsame]
        exact ⟨hsame.symm, fun _ => rfl⟩
      · rw [if_neg hsame]
        exact ⟨rfl, fun h => absurd h (by simp)⟩

/-- The address that is resolved is the one named, and is new when it is another one. -/
theorem resolveIP_ok {ip : String × String × Bool} (h : resolveIP d vm patch = .ok ip) :
    (ip.1 = match Net.parseCIDR patch.natStaticIP with
      | some a => if patch.natStaticIP = "" then vm.spec.natStaticIP else a ++ "/24"
      | none => vm.spec.natStaticIP) ∧
      (ip.2.2 = true ↔ ip.1 ≠ vm.spec.natStaticIP) ∧
      ip.2.1 = if ip.1 = vm.spec.natStaticIP then vm.spec.natGateway
        else if patch.natGateway = "" then gatewayFromSubnet d.cfg.network.subnet
        else patch.natGateway := by
  unfold resolveIP at h
  by_cases hnone : patch.natStaticIP = ""
  · rw [if_pos hnone] at h
    obtain rfl := Except.ok.inj h
    refine ⟨?_, by simp, by simp⟩
    cases Net.parseCIDR patch.natStaticIP with
    | none => rfl
    | some a => simp [hnone]
  · rw [if_neg hnone] at h
    cases hcidr : Net.parseCIDR patch.natStaticIP with
    | none => simp [hcidr] at h
    | some a =>
        rw [hcidr] at h
        dsimp only at h ⊢
        by_cases hsame : a ++ "/24" = vm.spec.natStaticIP
        · rw [if_pos hsame] at h
          obtain rfl := Except.ok.inj h
          simp [hnone, hsame]
        · rw [if_neg hsame] at h
          obtain rfl := Except.ok.inj h
          simp [hnone, hsame]

theorem resolveVNC_ok {vnc : String × Bool} (h : resolveVNC vm patch wasRunning = .ok vnc) :
    match patch.vncPassword with
    | none => vnc = ("", false)
    | some plain =>
        if plain = "" ∧ vm.vncPasswordHash = "" then vnc = ("", false) else vnc = (plain, true) := by
  unfold resolveVNC at h
  cases hpatch : patch.vncPassword with
  | none =>
      rw [hpatch] at h
      exact (Except.ok.inj h).symm
  | some plain =>
      rw [hpatch] at h
      dsimp only at h ⊢
      by_cases hclear : plain = "" ∧ vm.vncPasswordHash = ""
      · rw [if_pos hclear] at h ⊢
        exact (Except.ok.inj h).symm
      · rw [if_neg hclear] at h ⊢
        split_ifs at h
        exact (Except.ok.inj h).symm

theorem record_secrets {secret : String × Bool}
    (hsecret : match patch.vncPassword with
      | none => secret = ("", false)
      | some plain =>
          if plain = "" ∧ vm.vncPasswordHash = "" then secret = ("", false) else secret = (plain, true))
    (hplain : p.vncPlain = secret.1) (hchanged : p.vncChanged = secret.2) {vnc : String × String}
    (hvnc : p.Sealed d vm vnc) {specDescription : String} {specTags : List String} {updatedAt : Nat} :
    vm.Secrets d patch.vncPassword (p.record vm vnc specDescription specTags updatedAt) := by
  have hspec : (p.record vm vnc specDescription specTags updatedAt).spec.vncPassword =
      if secret.2 then "" else vm.spec.vncPassword := by
    rw [← hchanged]
    rfl
  have hsame : secret = ("", false) →
      vnc.1 = vm.vncPasswordHash ∧ vnc.2 = vm.vncPasswordEnc ∧
        (p.record vm vnc specDescription specTags updatedAt).spec.vncPassword = vm.spec.vncPassword := by
    intro hnone
    unfold Sealed at hvnc
    rw [hspec, hnone]
    rw [hchanged, hnone, if_neg (by simp)] at hvnc
    rw [hvnc]
    exact ⟨rfl, rfl, rfl⟩
  unfold VM.Secrets
  cases hreq : patch.vncPassword with
  | none =>
      rw [hreq] at hsecret
      exact hsame hsecret
  | some plain =>
      rw [hreq] at hsecret
      dsimp only at hsecret ⊢
      by_cases hclear : plain = "" ∧ vm.vncPasswordHash = ""
      · rw [if_pos hclear] at hsecret ⊢
        exact hsame hsecret
      · rw [if_neg hclear] at hsecret ⊢
        unfold Sealed at hvnc
        rw [hchanged, hplain, hsecret, if_pos rfl] at hvnc
        rw [hspec, hsecret]
        refine ⟨rfl, ?_⟩
        by_cases hempty : plain = ""
        · rw [if_pos hempty] at hvnc ⊢
          rw [hvnc]
          exact ⟨rfl, rfl⟩
        · rw [if_neg hempty] at hvnc ⊢
          exact hvnc

/-- A record with the values of a resolved plan is the one the patch asks for. -/
theorem record_patched (hread : readVMUpdate req = .ok patch)
    (hresolve : resolve d vm patch wasRunning = .ok p) {vnc : String × String} (hvnc : p.Sealed d vm vnc)
    {specDescription : String} {specTags : List String}
    (hcopies : (specDescription = vm.spec.description ∧ specTags = vm.spec.tags) ∨
      (specDescription = p.description ∧ specTags = p.tags)) (updatedAt : Nat) :
    vm.Patched d req (p.record vm vnc specDescription specTags updatedAt) := by
  obtain ⟨tags, htags, rfl, hiso, -⟩ := readVMUpdate_ok hread
  obtain ⟨ip, secret, -, hip, hsecret, hp⟩ := resolve_ok hresolve
  obtain ⟨hstatic, hchanged, hgateway⟩ := resolveIP_ok hip
  have hsame : p.ipChanged = ip.2.2 ∧ p.natStaticIP = ip.1 ∧ p.natGateway = ip.2.1 := by
    rw [hp]
    exact ⟨rfl, rfl, rfl⟩
  have hword : p.clockOffset = (resolveWord req.clockOffset vm.spec.clockOffset).1 ∧
      p.diskBus = (resolveWord req.diskBus vm.spec.diskBus).1 ∧
      p.nicModel = (resolveWord req.nicModel vm.spec.nicModel).1 := by
    rw [hp]
    exact ⟨rfl, rfl, rfl⟩
  have hbool : p.autoStart = (resolveBool req.autoStart vm.spec.autoStart).1 ∧
      p.locked = (resolveBool req.locked vm.spec.locked).1 := by
    rw [hp]
    exact ⟨rfl, rfl⟩
  have hsize : p.cpus = (if 0 < req.cpus then req.cpus else vm.spec.cpus) ∧
      p.ramMB = (if 0 < req.ramMB then req.ramMB else vm.spec.ramMB) ∧
      p.diskGB = (if 0 < req.diskGB then req.diskGB else vm.spec.diskGB) := by
    rw [hp]
    exact ⟨rfl, rfl, rfl⟩
  have hdescription : p.description =
      if trimSpace req.description = "" then vm.description else trimSpace req.description := by
    rw [hp]
    rfl
  have hptags : p.tags = (if tags = [] then none else some tags : Option (List String)).getD vm.tags := by
    rw [hp]
    rfl
  have hejected : p.isoEjected = (req.installISO.any (trimSpace · = "") && vm.spec.installISO ≠ "") := by
    rw [hp]
    rfl
  have hplain : p.vncPlain = secret.1 ∧ p.vncChanged = secret.2 := by
    rw [hp]
    exact ⟨rfl, rfl⟩
  clear hp hresolve
  refine { description := hdescription, tags := ?_, copies := hcopies, cpus := hsize.1,
           ramMB := hsize.2.1, diskGB := hsize.2.2, natStaticIP := hsame.2.1.trans hstatic,
           natGateway := fun _ => ?_, ip := ?_, autoStart := hbool.1.trans (resolveBool_eq _ _).1,
           locked := hbool.2.trans (resolveBool_eq _ _).1, clockOffset := ?_, diskBus := ?_,
           nicModel := ?_, installISO := ?_, vnc := ?_, rest := ?_ }
  · show (req.tags = none → p.tags = vm.tags) ∧
      ∀ named, req.tags = some named → named ≠ [] → normalizeTags named = .ok p.tags
    rw [hptags]
    refine ⟨fun hnone => ?_, fun named hnamed hne => ?_⟩
    · rw [hnone] at htags
      obtain rfl : [] = tags := Except.ok.inj htags
      rfl
    · rw [hnamed, Option.getD_some] at htags
      rw [htags, if_neg (normalizeTags_ne_nil hne htags), Option.getD_some]
  · show p.natGateway = if p.natStaticIP = vm.spec.natStaticIP then _ else _
    rw [hsame.2.1, hsame.2.2]
    exact hgateway
  · show (if p.ipChanged = true then (Net.parseCIDR p.natStaticIP).getD vm.ip else vm.ip) =
      if p.natStaticIP = vm.spec.natStaticIP then vm.ip else (Net.parseCIDR p.natStaticIP).getD vm.ip
    rw [hsame.1, hsame.2.1]
    by_cases hstays : ip.1 = vm.spec.natStaticIP
    · rw [if_neg (fun h => hchanged.mp h hstays), if_pos hstays]
    · rw [if_pos (hchanged.mpr hstays), if_neg hstays]
  · show VM.Word req.clockOffset vm.spec.clockOffset p.clockOffset
    rw [hword.1]
    exact (resolveWord_word _ _).1
  · show VM.Word req.diskBus vm.spec.diskBus p.diskBus
    rw [hword.2.1]
    exact (resolveWord_word _ _).1
  · show VM.Word req.nicModel vm.spec.nicModel p.nicModel
    rw [hword.2.2]
    exact (resolveWord_word _ _).1
  · show (if p.isoEjected then "" else vm.spec.installISO) = _
    rw [hejected]
    cases hreq : req.installISO with
    | none => simp
    | some iso =>
        by_cases hold : vm.spec.installISO = ""
        · simp [hold]
        · simp [hold, hiso iso hreq]
  · exact record_secrets (resolveVNC_ok hsecret) hplain.1 hplain.2 hvnc
  · rfl

/-- Tags that are joined to the same text are the same tags. -/
theorem tags_same (hread : readVMUpdate req = .ok patch) (htags : ∀ tag ∈ vm.tags, tagRe tag = true)
    (hresolve : resolve d vm patch wasRunning = .ok p)
    (hjoin : Go.join "," p.tags = Go.join "," vm.tags) : p.tags = vm.tags := by
  obtain ⟨tags, hnormal, rfl, -, -⟩ := readVMUpdate_ok hread
  obtain ⟨ip, secret, -, -, -, rfl⟩ := resolve_ok hresolve
  refine Go.join_inj (c := ',') rfl (fun tag htag => tagRe_plain ?_) (fun tag htag =>
    tagRe_plain (htags tag htag)) hjoin
  by_cases hnil : tags = []
  · rw [hnil] at htag
    exact htags tag htag
  · have htag : tag ∈ ((if tags = [] then none else some tags : Option (List String)).getD vm.tags) := htag
    rw [if_neg hnil] at htag
    exact normalizeTags_plain hnormal tag htag

/-- A plan of no more than the flags says of everything else that it is as it was. -/
theorem onlyFlags_record (hread : readVMUpdate req = .ok patch)
    (htags : ∀ tag ∈ vm.tags, tagRe tag = true) (hresolve : resolve d vm patch wasRunning = .ok p)
    (hflags : p.onlyFlags vm = true) (updatedAt : Nat) :
    { p.applyFlags vm with updatedAt := updatedAt } =
        p.record vm (vm.vncPasswordHash, vm.vncPasswordEnc) vm.spec.description vm.spec.tags updatedAt ∧
      p.Sealed d vm (vm.vncPasswordHash, vm.vncPasswordEnc) ∧ p.diskGB = vm.spec.diskGB ∧
        p.natStaticIP = vm.spec.natStaticIP := by
  unfold onlyFlags at hflags
  simp only [Bool.and_eq_true, decide_eq_true_eq, Bool.not_eq_true'] at hflags
  obtain ⟨⟨⟨⟨⟨⟨⟨⟨⟨⟨hcpus, hramMB⟩, hdiskGB⟩, hdescription⟩, hjoin⟩, hip⟩, hclock⟩, hbus⟩, hnic⟩, hvnc⟩, hiso⟩ :=
    hflags
  have htags := tags_same hread htags hresolve hjoin
  obtain ⟨ip, secret, -, hresolveIP, -, hp⟩ := resolve_ok hresolve
  obtain ⟨-, hchanged, hgateway⟩ := resolveIP_ok hresolveIP
  have hstatic : p.natStaticIP = vm.spec.natStaticIP := by
    rw [hp] at hip ⊢
    have hip : ip.2.2 = false := hip
    by_contra hne
    rw [hchanged.mpr hne] at hip
    exact absurd hip (by simp)
  have hgateway : p.natGateway = vm.spec.natGateway := by
    rw [hp] at hstatic ⊢
    exact hgateway.trans (if_pos hstatic)
  have hclockOffset : p.clockOffset = vm.spec.clockOffset := by
    rw [hp] at hclock ⊢
    exact (resolveWord_word _ _).2 hclock
  have hdiskBus : p.diskBus = vm.spec.diskBus := by
    rw [hp] at hbus ⊢
    exact (resolveWord_word _ _).2 hbus
  have hnicModel : p.nicModel = vm.spec.nicModel := by
    rw [hp] at hnic ⊢
    exact (resolveWord_word _ _).2 hnic
  refine ⟨?_, ?_, hdiskGB, hstatic⟩
  · unfold applyFlags record apply
    simp only [hcpus, hramMB, hdiskGB, hdescription, htags, hip, hvnc, hiso, hstatic, hgateway,
      hclockOffset, hdiskBus, hnicModel]
    simp
  · unfold Sealed
    rw [hvnc]
    rfl

/-- A plan with nothing to do leaves the record as it is. -/
theorem nothingToDo_record (hresolve : resolve d vm patch wasRunning = .ok p)
    (hnothing : p.nothingToDo vm = true) :
    p.onlyFlags vm = true ∧ vm = { p.applyFlags vm with updatedAt := vm.updatedAt } := by
  unfold nothingToDo at hnothing
  simp only [Bool.and_eq_true, Bool.not_eq_true'] at hnothing
  obtain ⟨⟨hflags, hauto⟩, hlock⟩ := hnothing
  obtain ⟨ip, secret, -, -, -, rfl⟩ := resolve_ok hresolve
  refine ⟨hflags, ?_⟩
  have hauto := (resolveBool_eq patch.autoStart vm.spec.autoStart).2 hauto
  have hlock := (resolveBool_eq patch.locked vm.spec.locked).2 hlock
  unfold applyFlags assemble
  simp only [hauto, hlock]

/-- A patch that the API accepts is resolved unless the manager turns it away. -/
theorem resolve_refuses (hread : readVMUpdate req = .ok patch) :
    (∃ e, resolve d vm patch wasRunning = .error e) ↔ vm.Refuses req wasRunning := by
  obtain ⟨tags, -, rfl, -, hcidr⟩ := readVMUpdate_ok hread
  have hip : ∃ ip, resolveIP d vm { req with
      tags := if tags = [] then none else some tags, description := trimSpace req.description } = .ok ip := by
    unfold resolveIP
    dsimp only
    by_cases hnone : req.natStaticIP = ""
    · rw [if_pos hnone]
      exact ⟨_, rfl⟩
    · obtain ⟨ip, hip⟩ := hcidr hnone
      rw [if_neg hnone, hip]
      dsimp only
      split_ifs <;> exact ⟨_, rfl⟩
  obtain ⟨ip, hip⟩ := hip
  unfold resolve VM.Refuses
  by_cases hshrink : 0 < req.diskGB ∧ req.diskGB < vm.spec.diskGB
  · rw [if_pos hshrink]
    exact ⟨fun _ => .inl hshrink, fun _ => ⟨_, rfl⟩⟩
  · rw [if_neg hshrink, hip]
    simp only [bind, Except.bind]
    unfold resolveVNC
    dsimp only
    cases hvnc : req.vncPassword with
    | none => simp [hshrink, pure, Except.pure]
    | some plain =>
        dsimp only
        by_cases hclear : plain = "" ∧ vm.vncPasswordHash = ""
        · rw [if_pos hclear]
          simp [hshrink, hclear, pure, Except.pure]
        · rw [if_neg hclear]
          cases wasRunning with
          | false => simp [hshrink, pure, Except.pure]
          | true =>
              refine ⟨fun _ => .inr ⟨rfl, plain, rfl, hclear⟩, fun _ => ?_⟩
              exact ⟨_, rfl⟩

/-- What the domain is defined with. -/
def definition (d : Daemon) (vm : VM) (p : UpdatePlan) (uuid : Option Nat) : Except Err DomainXML :=
  let params := { (DomainParams.render d (p.renderSpec vm) vm.diskPath vm.natMAC).dropMissingInstallISO
    d.host with uuid := uuid }
  match (if p.vncChanged then .ok { params with vncPassword := p.vncPlain }
    else withStoredVNC d vm.vncPasswordEnc params) with
  | .error e => .error e
  | .ok params => (DomainParams.generateDomainXML params).mapError (.wrap "generating domain XML")

theorem redefineForUpdate_eq (dom : Nat) :
    Manager.redefineForUpdate d dom vm p = (do
      let uuid ← virtCall (.getUUIDString dom)
      let xml ← orFail (p.definition d vm uuid)
      let _ ← virtCall (.domainDefineXML xml) >>= orWrap "redefining domain") := by
  unfold Manager.redefineForUpdate definition
  congr 1
  funext uuid
  dsimp only
  generalize (if p.vncChanged = true then _ else _ : Except Err DomainParams) = params
  cases params with
  | error e => rfl
  | ok params =>
      dsimp only
      generalize hxml : DomainParams.generateDomainXML params = xml
      cases xml with
      | error e =>
          show (orWrap _ (DomainParams.generateDomainXML params) >>= _) = _
          rw [hxml]
          rfl
      | ok xml =>
          show (orWrap _ (DomainParams.generateDomainXML params) >>= _) = _
          rw [hxml]
          rfl

theorem definition_uuid {uuid : Option Nat} {xml : DomainXML} (h : p.definition d vm uuid = .ok xml) :
    xml.uuid = uuid := by
  unfold definition at h
  dsimp only at h
  split at h
  next => simp at h
  next params hparams =>
    have huuid : params.uuid = uuid := by
      split_ifs at hparams
      · rw [← Except.ok.inj hparams]
      · obtain ⟨vncPassword, rfl⟩ := withStoredVNC_ok hparams
        rfl
    cases hxml : DomainParams.generateDomainXML params with
    | error e => simp [hxml, Except.mapError] at h
    | ok x =>
        rw [hxml] at h
        obtain rfl : x = xml := Except.ok.inj h
        rw [← huuid]
        exact (DomainParams.generateDomainXML_name hxml).2

/-- What the steps need beside the commands: a key to seal a new password with, and a definition
that can be rendered. -/
structure Ready (d : Daemon) (vm : VM) (dom : Domain) (p : UpdatePlan) : Prop where
  key : p.vncChanged = true → p.vncPlain ≠ "" → trimSpace d.cfg.passwordKey ≠ ""
  definition : p.redefines vm = true → ∃ xml, p.definition d vm (some dom.uuid) = .ok xml

end UpdatePlan

/-- Whatever the patch is resolved to can be carried out. -/
def VM.Ready (d : Daemon) (vm : VM) (dom : Domain) (patch : VMUpdateSpec) : Prop :=
  ∀ p, UpdatePlan.resolve d vm patch (dom.state = .running) = .ok p → p.Ready d vm dom

/-! ### The steps -/

/-- The network and the disk are as the record says: no reservation of the hardware address but
one at the address of the record, and a disk of the size it has there. -/
structure VM.InStep (vm : VM) (w : World) : Prop where
  one : (w.net.hosts.filter (·.mac = vm.natMAC)).length ≤ 1
  address : ∀ h ∈ w.net.hosts, h.mac = vm.natMAC → Net.parseCIDR vm.spec.natStaticIP = some h.ip
  disk : w.file.files.lookup vm.diskPath = some vm.spec.diskGB
  /-- The provisioning image is another file than the disk. -/
  image : vm.diskPath ≠ vm.diskPath.dir.join "cidata.iso"

namespace FileState

theorem lookup_write_self (f : FileState) (path : HostPath) (size : Nat) :
    (f.write path size).files.lookup path = some size := by
  unfold write
  induction f.files with
  | nil => simp
  | cons entry files ih =>
      by_cases hpath : entry.1 = path
      · simpa [hpath] using ih
      · rw [List.filter_cons_of_pos (by simpa using hpath), List.cons_append,
          List.lookup_cons, beq_eq_false_iff_ne.mpr (Ne.symm hpath)]
        exact ih

theorem lookup_write_other (f : FileState) {path other : HostPath} (h : other ≠ path) (size : Nat) :
    (f.write path size).files.lookup other = f.files.lookup other := by
  unfold write
  induction f.files with
  | nil =>
      rw [List.filter_nil, List.nil_append, List.lookup_cons, beq_eq_false_iff_ne.mpr h]
  | cons entry files ih =>
      by_cases hpath : entry.1 = path
      · rw [List.filter_cons_of_neg (by simpa using hpath), List.lookup_cons, hpath,
          beq_eq_false_iff_ne.mpr h]
        exact ih
      · rw [List.filter_cons_of_pos (by simpa using hpath), List.cons_append, List.lookup_cons,
          List.lookup_cons]
        rw [ih]

end FileState

/-- The reservations without the one of this hardware address at this address. -/
def released (mac natStaticIP : String) (hosts : List DHCPHost) : List DHCPHost :=
  match Net.parseCIDR natStaticIP with
  | some ip => hosts.eraseP (NetState.names { mac := mac, ip := ip })
  | none => hosts

/-- The reservation has moved to the address of the new record: the one of the old address is
gone, those of other hardware addresses are as they were. -/
structure Moved (vm : VM) (natStaticIP : String) (hosts hosts' : List DHCPHost) : Prop where
  others : hosts'.filter (·.mac ≠ vm.natMAC) = hosts.filter (·.mac ≠ vm.natMAC)
  own : (hosts.filter (·.mac = vm.natMAC)).length ≤ 1 →
    (∀ h ∈ hosts, h.mac = vm.natMAC → Net.parseCIDR vm.spec.natStaticIP = some h.ip) →
    hosts'.filter (·.mac = vm.natMAC) =
      ((Net.parseCIDR natStaticIP).map fun ip => { mac := vm.natMAC, name := vm.name, ip := ip }).toList

theorem filter_eraseP_names (hosts : List DHCPHost) (mac ip : String) :
    (hosts.eraseP (NetState.names { mac := mac, ip := ip })).filter (·.mac ≠ mac) =
      hosts.filter (·.mac ≠ mac) := by
  induction hosts with
  | nil => rfl
  | cons h hosts ih =>
      by_cases hnames : NetState.names { mac := mac, ip := ip } h = true
      · rw [List.eraseP_cons_of_pos hnames, List.filter_cons_of_neg]
        have hmac : mac = h.mac := by
          unfold NetState.names at hnames
          simp only [Bool.and_eq_true, beq_iff_eq] at hnames
          exact hnames.1.1
        simp [hmac]
      · rw [List.eraseP_cons_of_neg hnames, List.filter_cons, List.filter_cons, ih]

/-- The one reservation of a hardware address is erased under its address. -/
theorem eraseP_names_own {hosts : List DHCPHost} {mac ip : String}
    (hone : (hosts.filter (·.mac = mac)).length ≤ 1) (haddress : ∀ h ∈ hosts, h.mac = mac → h.ip = ip) :
    (hosts.eraseP (NetState.names { mac := mac, ip := ip })).filter (·.mac = mac) = [] := by
  induction hosts with
  | nil => rfl
  | cons h hosts ih =>
      by_cases hmac : h.mac = mac
      · have hip := haddress h List.mem_cons_self hmac
        have hnames : NetState.names { mac := mac, ip := ip } h = true := by
          simp [NetState.names, hmac, hip]
        rw [List.filter_cons_of_pos (by simpa using hmac), List.length_cons] at hone
        rw [List.eraseP_cons_of_pos hnames]
        exact List.eq_nil_of_length_eq_zero (by omega)
      · have hnames : ¬ NetState.names { mac := mac, ip := ip } h = true := by
          intro hnames
          unfold NetState.names at hnames
          simp only [Bool.and_eq_true, beq_iff_eq] at hnames
          exact hmac hnames.1.1.symm
        rw [List.filter_cons_of_neg (by simpa using hmac)] at hone
        rw [List.eraseP_cons_of_neg hnames, List.filter_cons_of_neg (by simpa using hmac)]
        exact ih hone fun h' hh' => haddress h' (List.mem_cons_of_mem _ hh')

theorem moved_released (vm : VM) (natStaticIP : String) (hosts : List DHCPHost) :
    Moved vm natStaticIP hosts (released vm.natMAC vm.spec.natStaticIP hosts ++
      ((Net.parseCIDR natStaticIP).map fun ip => { mac := vm.natMAC, name := vm.name, ip := ip }).toList)
    where
  others := by
    have hnew : ∀ o : Option String, ((o.map fun ip =>
        ({ mac := vm.natMAC, name := vm.name, ip := ip } : DHCPHost)).toList).filter
          (·.mac ≠ vm.natMAC) = [] := by
      intro o
      cases o <;> simp
    rw [List.filter_append, hnew, List.append_nil]
    unfold released
    cases Net.parseCIDR vm.spec.natStaticIP with
    | none => rfl
    | some ip => exact filter_eraseP_names hosts vm.natMAC ip
  own hone haddress := by
    have hnew : ∀ o : Option String, ((o.map fun ip =>
        ({ mac := vm.natMAC, name := vm.name, ip := ip } : DHCPHost)).toList).filter
          (·.mac = vm.natMAC) =
        (o.map fun ip => ({ mac := vm.natMAC, name := vm.name, ip := ip } : DHCPHost)).toList := by
      intro o
      cases o <;> simp
    have hold : (released vm.natMAC vm.spec.natStaticIP hosts).filter (·.mac = vm.natMAC) = [] := by
      unfold released
      cases hcidr : Net.parseCIDR vm.spec.natStaticIP with
      | none =>
          rw [List.filter_eq_nil_iff]
          intro h hh
          rw [decide_eq_true_eq]
          intro hmac
          have hip := haddress h hh hmac
          rw [hcidr] at hip
          exact absurd hip (by simp)
      | some ip =>
          refine eraseP_names_own hone fun h hh hmac => ?_
          exact (Option.some.inj (hcidr.symm.trans (haddress h hh hmac))).symm
    rw [List.filter_append, hnew, hold, List.nil_append]

namespace World

variable {d : Daemon} {w : World} {vm : VM} {dom : Domain} {p : UpdatePlan}

/-- A domain that runs is shut off. -/
theorem wp_stopForUpdate (hup : w.virt.Up dom .running) {name : String} {Q : Except Err Unit → World → Prop}
    (h : ∀ v, v.Up dom .shutoff → Q (.ok ()) { w with virt := v }) :
    Prog.wp smooth (Manager.stopForUpdate dom.uuid name) Q w := by
  unfold Manager.stopForUpdate Manager.shutdownOrDestroy
  rw [bind_eq, wp_bind, bind_eq, wp_bind]
  refine wp_shutdown_smooth ((Prog.wp_ret _ _ _).mpr ?_)
  dsimp only
  rw [bind_eq, wp_bind]
  refine wp_waitForShutoff_smooth hup (fun v hv => ?_) (fun _ => ?_)
  · show Prog.wp _ (onlyIf _ _) _ _
    rw [wp_onlyIf]
    exact ⟨fun hfalse => absurd hfalse (by simp), fun _ => h v hv⟩
  · -- the guest does not go, and is forced
    show Prog.wp _ (onlyIf _ _) _ _
    rw [wp_onlyIf]
    refine ⟨fun _ => ?_, fun hnot => absurd rfl hnot⟩
    rw [bind_eq, wp_bind]
    refine wp_destroy_smooth hup fun v hv => ?_
    dsimp only
    rw [bind_eq, wp_bind]
    rcases hv with hoff | hgone
    · refine wp_waitForShutoff_smooth hoff (fun v' hv' => ?_) (fun hne => absurd rfl hne)
      show Prog.wp _ (failIf _ _) _ _
      rw [wp_failIf]
      exact ⟨fun hfalse => absurd hfalse (by simp), fun _ => h v' hv'⟩
    · exact wp_waitForShutoff_gone hgone _

/-- The disk has its new size. -/
theorem wp_growDisk {sizeGB : Nat} {wasRunning : Bool} {Q : Except Err Unit → World → Prop}
    (h : Q (.ok ()) { w with file := w.file.write vm.diskPath sizeGB }) :
    Prog.wp smooth (Manager.growDisk dom.uuid vm sizeGB wasRunning) Q w := by
  unfold Manager.growDisk
  rw [bind_eq, wp_bind]
  refine wp_resizeDisk_smooth ?_
  exact (Prog.wp_ret _ _ _).mpr h

theorem wp_removeReservation {mac natStaticIP : String} {Q : Except Err Unit → World → Prop}
    (h : Q (.ok ()) { w with net := { w.net with hosts := released mac natStaticIP w.net.hosts } }) :
    Prog.wp smooth (Manager.removeReservation mac natStaticIP) Q w := by
  unfold released at h
  unfold Manager.removeReservation
  cases hcidr : Net.parseCIDR natStaticIP with
  | none =>
      rw [hcidr] at h
      exact (Prog.wp_ret _ _ _).mpr h
  | some ip =>
      rw [hcidr] at h
      dsimp only at h ⊢
      unfold Manager.removeDHCPHost
      rw [bind_eq, wp_bind]
      exact wp_deleteDHCPHost_smooth fun r => (Prog.wp_ret _ _ _).mpr h

theorem wp_addReservation {mac natStaticIP name context : String} {Q : Except Err Unit → World → Prop}
    (h : Q (.ok ()) { w with net := { w.net with hosts := w.net.hosts ++
      ((Net.parseCIDR natStaticIP).map fun ip => { mac := mac, name := name, ip := ip }).toList } }) :
    Prog.wp smooth (Manager.addReservation mac natStaticIP name context) Q w := by
  unfold Manager.addReservation
  cases hcidr : Net.parseCIDR natStaticIP with
  | none =>
      rw [hcidr] at h
      refine (Prog.wp_ret _ _ _).mpr ?_
      simpa using h
  | some ip =>
      rw [hcidr] at h
      dsimp only
      rw [bind_eq, wp_bind]
      refine wp_addDHCPHost_smooth ?_
      show Prog.wp _ (orWrap _ _) _ _
      rw [wp_orWrap]
      exact h

/-- The reservation is moved, and the provisioning image is written. -/
theorem wp_changeAddress {Q : Except Err Unit → World → Prop}
    (h : ∀ n t, Moved vm p.natStaticIP w.net.hosts n.hosts →
      Q (.ok ()) { w with
        net := n
        file := w.file.write (vm.diskPath.dir.join "cidata.iso") 0
        host := { w.host with clock := t } }) :
    Prog.wp smooth (Manager.changeAddress vm p) Q w := by
  have hreleased : (if vm.spec.natStaticIP ≠ "" then released vm.natMAC vm.spec.natStaticIP w.net.hosts
      else w.net.hosts) = released vm.natMAC vm.spec.natStaticIP w.net.hosts := by
    by_cases hnone : vm.spec.natStaticIP = ""
    · rw [if_neg (by simpa using hnone), released, hnone]
      rfl
    · rw [if_pos hnone]
  unfold Manager.changeAddress
  rw [bind_eq, wp_bind]
  have hgoal : ∀ n : NetState, n.hosts = released vm.natMAC vm.spec.natStaticIP w.net.hosts →
      Prog.wp smooth (do
        Manager.addReservation vm.natMAC p.natStaticIP vm.name "updating DHCP reservation"
        let instanceID := vm.name ++ "-ip-" ++ toString (← now)
        fileCall (.createProvisioningISO (vm.diskPath.dir.join "cidata.iso") (p.networkSpec vm) vm.natMAC
          instanceID) >>= orWrap "regenerating provisioning ISO") Q { w with net := n } := by
    intro n hn
    rw [bind_eq, wp_bind]
    refine wp_addReservation ?_
    dsimp only
    rw [bind_eq, wp_bind]
    refine wp_now_smooth fun t => ?_
    dsimp only
    rw [bind_eq, wp_bind]
    refine wp_createProvisioningISO_smooth ?_
    show Prog.wp _ (orWrap _ _) _ _
    rw [wp_orWrap]
    refine h { n with hosts := n.hosts ++ _ } t ?_
    dsimp only
    rw [hn]
    exact moved_released vm p.natStaticIP w.net.hosts
  rw [wp_onlyIf]
  refine ⟨fun _ => ?_, fun hnone => ?_⟩
  · refine wp_removeReservation ?_
    exact hgoal { w.net with hosts := released vm.natMAC vm.spec.natStaticIP w.net.hosts } rfl
  · rw [if_neg hnone] at hreleased
    exact hgoal w.net hreleased

/-- The console secrets are what the plan makes of them. -/
theorem wp_updatedVNC (hkey : p.vncChanged = true → p.vncPlain ≠ "" → trimSpace d.cfg.passwordKey ≠ "")
    {Q : Except Err (String × String) → World → Prop} (h : ∀ vnc, p.Sealed d vm vnc → Q (.ok vnc) w) :
    Prog.wp smooth (Manager.updatedVNC d vm p) Q w := by
  unfold Manager.updatedVNC
  unfold UpdatePlan.Sealed at h
  by_cases hchanged : p.vncChanged = true
  · rw [if_pos hchanged]
    simp only [if_pos hchanged] at h
    by_cases hplain : p.vncPlain = ""
    · rw [if_pos hplain]
      simp only [if_pos hplain] at h
      exact (Prog.wp_ret _ _ _).mpr (h _ rfl)
    · rw [if_neg hplain]
      simp only [if_neg hplain] at h
      unfold Manager.deriveVNCPassword
      rw [bind_eq, wp_bind, wp_failIf]
      refine ⟨fun hnokey => absurd hnokey (hkey hchanged hplain), fun _ => ?_⟩
      dsimp only
      rw [bind_eq, wp_bind, bind_eq, wp_bind]
      refine wp_hostText_smooth fun text => ?_
      show Prog.wp _ (orFail _) _ _
      rw [wp_orFail]
      dsimp only
      rw [bind_eq, wp_bind, bind_eq, wp_bind]
      refine wp_nonce_smooth fun n => ?_
      show Prog.wp _ (orFail _) _ _
      rw [wp_orFail]
      exact (Prog.wp_ret _ _ _).mpr (h _ ⟨n, rfl⟩)
  · rw [if_neg hchanged]
    simp only [if_neg hchanged] at h
    exact (Prog.wp_ret _ _ _).mpr (h _ rfl)

/-- The domain is defined anew and stays in its state. -/
theorem wp_redefineForUpdate {state : DomainState} (hup : w.virt.Up dom state)
    (hdefinition : ∃ xml, p.definition d vm (some dom.uuid) = .ok xml) {Q : Except Err Unit → World → Prop}
    (h : ∀ v, v.Up dom state → Q (.ok ()) { w with virt := v }) :
    Prog.wp smooth (Manager.redefineForUpdate d dom.uuid vm p) Q w := by
  obtain ⟨xml, hxml⟩ := hdefinition
  rw [UpdatePlan.redefineForUpdate_eq, bind_eq, wp_bind]
  refine wp_getUUIDString_smooth hup ?_
  dsimp only
  rw [bind_eq, wp_bind, wp_orFail, hxml]
  dsimp only
  rw [bind_eq, wp_bind, bind_eq, wp_bind]
  refine wp_define_smooth hup (UpdatePlan.definition_uuid hxml) fun v hv => ?_
  show Prog.wp _ (orWrap _ _) _ _
  rw [wp_orWrap]
  exact (Prog.wp_ret _ _ _).mpr (h v hv)

/-- The domain of the VM's name is started again. -/
theorem wp_restartAfterUpdate (hup : w.virt.Up dom .shutoff) (hname : dom.name = vm.name)
    {Q : Except Err Unit → World → Prop} (h : ∀ v, v.Up dom .running → Q (.ok ()) { w with virt := v }) :
    Prog.wp smooth (Manager.restartAfterUpdate vm) Q w := by
  obtain ⟨e, -, hfind, -, huuid, -⟩ := hup.find
  unfold Manager.restartAfterUpdate
  rw [bind_eq, wp_bind, bind_eq, wp_bind]
  refine wp_lookup_smooth fun e' he' => ?_
  rw [← hname] at he'
  obtain rfl := Option.some.inj (hfind.symm.trans he')
  show Prog.wp _ (orWrap _ _) _ _
  rw [wp_orWrap]
  dsimp only [Except.mapError]
  rw [huuid, bind_eq, wp_bind]
  refine wp_create_smooth hup fun v hv => ?_
  show Prog.wp _ (orWrap _ _) _ _
  rw [wp_orWrap]
  exact h v hv

/-! #### The steps that are left out where nothing changes -/

/-- The state the domain is in while it is worked on. -/
def whileDown (dom : Domain) : DomainState := if dom.state = .running then .shutoff else dom.state

theorem wp_onlyIf_stop (hup : w.virt.Up dom dom.state) {name : String} {Q : Except Err Unit → World → Prop}
    (h : ∀ v, v.Up dom (whileDown dom) → Q (.ok ()) { w with virt := v }) :
    Prog.wp smooth (onlyIf (decide (dom.state = .running) = true) (Manager.stopForUpdate dom.uuid name)) Q
      w := by
  unfold whileDown at h
  rw [wp_onlyIf, decide_eq_true_eq]
  refine ⟨fun hrunning => ?_, fun hnot => ?_⟩
  · rw [if_pos hrunning] at h
    rw [hrunning] at hup
    exact wp_stopForUpdate hup h
  · rw [if_neg hnot] at h
    exact h w.virt hup

theorem wp_onlyIf_grow {sizeGB : Nat} {wasRunning : Bool} {Q : Except Err Unit → World → Prop}
    (h : ∀ f : FileState, f.files.lookup vm.diskPath =
        (if vm.spec.diskGB < sizeGB then some sizeGB else w.file.files.lookup vm.diskPath) →
      Q (.ok ()) { w with file := f }) :
    Prog.wp smooth (onlyIf (vm.spec.diskGB < sizeGB) (Manager.growDisk dom.uuid vm sizeGB wasRunning)) Q
      w := by
  rw [wp_onlyIf]
  refine ⟨fun hgrows => wp_growDisk (h _ ?_), fun hnot => h w.file ?_⟩
  · rw [if_pos hgrows]
    exact FileState.lookup_write_self _ _ _
  · rw [if_neg hnot]

theorem wp_onlyIf_changeAddress {Q : Except Err Unit → World → Prop}
    (h : ∀ (n : NetState) (f : FileState) (t : Nat), (p.ipChanged = false → n = w.net) →
      (p.ipChanged = true → Moved vm p.natStaticIP w.net.hosts n.hosts) →
      (vm.diskPath ≠ vm.diskPath.dir.join "cidata.iso" →
        f.files.lookup vm.diskPath = w.file.files.lookup vm.diskPath) →
      Q (.ok ()) { w with net := n, file := f, host := { w.host with clock := t } }) :
    Prog.wp smooth (onlyIf (p.ipChanged = true) (Manager.changeAddress vm p)) Q w := by
  rw [wp_onlyIf]
  refine ⟨fun hchanged => wp_changeAddress fun n t hmoved => ?_, fun hnot => ?_⟩
  · refine h n _ t (fun hfalse => ?_) (fun _ => hmoved) (fun hother => ?_)
    · rw [hchanged] at hfalse
      exact absurd hfalse (by simp)
    · exact FileState.lookup_write_other _ hother _
  · exact h w.net w.file w.host.clock (fun _ => rfl) (fun htrue => absurd htrue hnot) (fun _ => rfl)

theorem wp_onlyIf_redefine {state : DomainState} (hup : w.virt.Up dom state) (hready : p.Ready d vm dom)
    {Q : Except Err Unit → World → Prop} (h : ∀ v, v.Up dom state → Q (.ok ()) { w with virt := v }) :
    Prog.wp smooth (onlyIf (p.redefines vm = true) (Manager.redefineForUpdate d dom.uuid vm p)) Q w := by
  rw [wp_onlyIf]
  exact ⟨fun hredefines => wp_redefineForUpdate hup (hready.definition hredefines) h, fun _ => h w.virt hup⟩

theorem wp_onlyIf_restart (hup : w.virt.Up dom (whileDown dom)) (hname : dom.name = vm.name)
    {Q : Except Err Unit → World → Prop} (h : ∀ v, v.Up dom dom.state → Q (.ok ()) { w with virt := v }) :
    Prog.wp smooth (onlyIf (decide (dom.state = .running) = true) (Manager.restartAfterUpdate vm)) Q w := by
  unfold whileDown at hup
  rw [wp_onlyIf, decide_eq_true_eq]
  refine ⟨fun hrunning => ?_, fun hnot => ?_⟩
  · rw [if_pos hrunning] at hup
    rw [hrunning] at h
    exact wp_restartAfterUpdate hup hname h
  · rw [if_neg hnot] at hup
    exact h w.virt hup

/-- What the steps of an update come to outside the store. -/
structure Applied (vm : VM) (dom : Domain) (p : UpdatePlan) (w w' : World) : Prop where
  up : w'.virt.Up dom dom.state
  kept : p.ipChanged = false → w'.net = w.net
  moved : p.ipChanged = true → Moved vm p.natStaticIP w.net.hosts w'.net.hosts
  disk : vm.diskPath ≠ vm.diskPath.dir.join "cidata.iso" → w'.file.files.lookup vm.diskPath =
    if vm.spec.diskGB < p.diskGB then some p.diskGB else w.file.files.lookup vm.diskPath

/-- The whole sequence of steps. -/
theorem wp_applyUpdate (hdistinct : w.virt.Distinct) (hdom : w.virt.findName? vm.name = some dom)
    (hready : p.Ready d vm dom) {Q : Except Err VM → World → Prop}
    (h : ∀ vnc t w', p.Sealed d vm vnc → Applied vm dom p w w' →
      w'.store = { w.store with
        vms := w.store.vms.put vm.id (p.record vm vnc p.description p.tags t) } →
      Q (.ok { p.record vm vnc p.description p.tags t with
        state := if decide (dom.state = .running) then .running else .stopped }) w') :
    Prog.wp smooth (Manager.applyUpdate d dom.uuid vm p (dom.state = .running)) Q w := by
  have hname : dom.name = vm.name := by simpa using List.find?_some hdom
  have hup : w.virt.Up dom dom.state :=
    ⟨hdistinct, dom, List.mem_of_find?_eq_some hdom, rfl, rfl, rfl⟩
  unfold Manager.applyUpdate
  rw [bind_eq, wp_bind]
  refine wp_onlyIf_stop hup fun v hv => ?_
  dsimp only
  rw [bind_eq, wp_bind]
  refine wp_onlyIf_grow fun f hf => ?_
  dsimp only
  rw [bind_eq, wp_bind]
  refine wp_onlyIf_changeAddress fun n f' t hkept hmoved hdisk => ?_
  dsimp only
  rw [bind_eq, wp_bind]
  refine wp_updatedVNC hready.key fun vnc hvnc => ?_
  dsimp only
  rw [bind_eq, wp_bind]
  refine wp_onlyIf_redefine hv hready fun v hv => ?_
  dsimp only
  rw [bind_eq, wp_bind]
  refine wp_now_smooth fun t' => ?_
  dsimp only
  rw [bind_eq, wp_bind, bind_eq, wp_bind]
  refine wp_putVM_smooth ?_
  show Prog.wp _ (orWrap _ _) _ _
  rw [wp_orWrap]
  dsimp only [Except.mapError]
  rw [bind_eq, wp_bind]
  refine wp_onlyIf_restart hv hname fun v hv => ?_
  dsimp only
  refine (Prog.wp_ret _ _ _).mpr (h vnc t' _ hvnc ⟨hv, hkept, hmoved, fun hother => ?_⟩ rfl)
  exact (hdisk hother).trans hf

end World

/-! ### The update -/

/-- What an update that is carried out leaves of a VM and its world, and what it returns. -/
structure VM.Updated (d : Daemon) (id : String) (vm : VM) (dom : Domain) (req : VMUpdateSpec) (w : World)
    (vm' : VM) (w' : World) : Prop where
  /-- The record is stored, and returned with a state of its own. -/
  record : ∃ new, w'.store.vms.get? id = some new ∧ vm' = { new with state := vm'.state } ∧
    vm.Patched d req new ∧ (vm.InStep w → new.InStep w') ∧
      (vm.InStep w → new.spec.natStaticIP ≠ vm.spec.natStaticIP →
        ∀ ip, Net.parseCIDR new.spec.natStaticIP = some ip →
          ∃ h ∈ w'.net.hosts, h.mac = vm.natMAC ∧ h.ip = ip)
  others : ∀ other, other ≠ id → w'.store.vms.get? other = w.store.vms.get? other
  reservations : w'.net.hosts.filter (·.mac ≠ vm.natMAC) = w.net.hosts.filter (·.mac ≠ vm.natMAC)
  power : (w'.virt.findName? vm.name).map Domain.state = some dom.state
  /-- The state returned is that of the domain, where the record had it. -/
  state : dom.state = .running ∨ dom.state = .shutoff → vm.state = vmStateOf (.ok dom.state) →
    vm'.state = vmStateOf (.ok dom.state)

namespace World

variable {d : Daemon} {w : World} {vm : VM} {dom : Domain} {p : UpdatePlan} {req patch : VMUpdateSpec}
  {wasRunning : Bool}

theorem Applied.moved_own {w' : World} (happlied : Applied vm dom p w w') (hstep : vm.InStep w)
    (hchanged : p.ipChanged = true) : w'.net.hosts.filter (·.mac = vm.natMAC) =
      ((Net.parseCIDR p.natStaticIP).map fun ip => { mac := vm.natMAC, name := vm.name, ip := ip }).toList :=
  (happlied.moved hchanged).own hstep.one hstep.address

/-- A record that holds what the plan says is in step with what the steps have done. -/
theorem Applied.inStep {w' : World} (happlied : Applied vm dom p w w')
    (hchanged : p.ipChanged = true ↔ p.natStaticIP ≠ vm.spec.natStaticIP)
    (hgrows : vm.spec.diskGB ≤ p.diskGB) (hstep : vm.InStep w) {vnc : String × String}
    {specDescription : String} {specTags : List String} {t : Nat} :
    (p.record vm vnc specDescription specTags t).InStep w' := by
  have hdisk : w'.file.files.lookup vm.diskPath = some p.diskGB := by
    rw [happlied.disk hstep.image, hstep.disk]
    by_cases hlt : vm.spec.diskGB < p.diskGB
    · rw [if_pos hlt]
    · rw [if_neg hlt, show vm.spec.diskGB = p.diskGB by omega]
  by_cases hmoves : p.ipChanged = true
  · have hown := happlied.moved_own hstep hmoves
    refine ⟨?_, fun h hh hmac => ?_, hdisk, hstep.image⟩
    · show (w'.net.hosts.filter (·.mac = vm.natMAC)).length ≤ 1
      rw [hown]
      cases Net.parseCIDR p.natStaticIP <;> simp
    · have hmac : h.mac = vm.natMAC := hmac
      have hmem : h ∈ w'.net.hosts.filter (·.mac = vm.natMAC) :=
        List.mem_filter.mpr ⟨hh, by simpa using hmac⟩
      rw [hown] at hmem
      show Net.parseCIDR p.natStaticIP = some h.ip
      cases hcidr : Net.parseCIDR p.natStaticIP with
      | none => simp [hcidr] at hmem
      | some ip =>
          rw [hcidr] at hmem
          simp only [Option.map_some, Option.toList_some, List.mem_singleton] at hmem
          rw [hmem]
  · have hnet := happlied.kept (Bool.eq_false_iff.mpr hmoves)
    have hsame : p.natStaticIP = vm.spec.natStaticIP := by
      by_contra hne
      exact hmoves (hchanged.mpr hne)
    refine ⟨?_, fun h hh hmac => ?_, hdisk, hstep.image⟩
    · rw [hnet]
      exact hstep.one
    · rw [hnet] at hh
      have haddress := hstep.address h hh hmac
      rw [← hsame] at haddress
      exact haddress

/-- An update is carried out when its steps are and the record holds what the plan says. -/
theorem Applied.updated {w' : World} (happlied : Applied vm dom p w w') {id : String}
    (hname : dom.name = vm.name) (hread : readVMUpdate req = .ok patch)
    (hresolve : UpdatePlan.resolve d vm patch wasRunning = .ok p) {vnc : String × String}
    (hvnc : p.Sealed d vm vnc) {specDescription : String} {specTags : List String}
    (hcopies : (specDescription = vm.spec.description ∧ specTags = vm.spec.tags) ∨
      (specDescription = p.description ∧ specTags = p.tags)) {t : Nat} {state : VMState}
    (hstored : w'.store.vms.get? id = some (p.record vm vnc specDescription specTags t))
    (hothers : ∀ other, other ≠ id → w'.store.vms.get? other = w.store.vms.get? other)
    (hstate : dom.state = .running ∨ dom.state = .shutoff → vm.state = vmStateOf (.ok dom.state) →
      state = vmStateOf (.ok dom.state)) :
    vm.Updated d id dom req w { p.record vm vnc specDescription specTags t with state := state } w' := by
  obtain ⟨ip, secret, hgrows, hresolveIP, -, hp⟩ := UpdatePlan.resolve_ok hresolve
  obtain ⟨-, hchanged, -⟩ := UpdatePlan.resolveIP_ok hresolveIP
  have hchanged : p.ipChanged = true ↔ p.natStaticIP ≠ vm.spec.natStaticIP := by
    rw [hp]
    exact hchanged
  have hgrows : vm.spec.diskGB ≤ p.diskGB := by
    rw [hp]
    show vm.spec.diskGB ≤ if 0 < patch.diskGB then patch.diskGB else vm.spec.diskGB
    split_ifs with hnamed
    · by_contra hlt
      exact hgrows ⟨hnamed, by omega⟩
    · exact le_rfl
  obtain ⟨e, -, hfind, -, -, -, he⟩ := happlied.up.find
  refine {
    record := ⟨_, hstored, rfl, UpdatePlan.record_patched hread hresolve hvnc hcopies t,
      fun hstep => happlied.inStep hchanged hgrows hstep, fun hstep hne ip hip => ?_⟩
    others := hothers
    reservations := ?_
    power := ?_
    state := hstate }
  · have hown := happlied.moved_own hstep (hchanged.mpr hne)
    have hip : Net.parseCIDR p.natStaticIP = some ip := hip
    rw [hip] at hown
    refine ⟨{ mac := vm.natMAC, name := vm.name, ip := ip }, ?_, rfl, rfl⟩
    have hmem : ({ mac := vm.natMAC, name := vm.name, ip := ip } : DHCPHost) ∈
        w'.net.hosts.filter (·.mac = vm.natMAC) := by
      rw [hown]
      simp
    exact (List.mem_filter.mp hmem).1
  · by_cases hmoves : p.ipChanged = true
    · exact (happlied.moved hmoves).others
    · rw [happlied.kept (Bool.eq_false_iff.mpr hmoves)]
  · rw [← hname, hfind, Option.map_some, he]

theorem wp_any {α : Type} (q : M α) (u : World) : Prog.wp smooth q (fun _ _ => True) u := by
  induction q generalizing u with
  | ret a => exact (Prog.wp_ret _ _ _).mpr trivial
  | throw e => exact (Prog.wp_throw _ _ _).mpr trivial
  | call c k ih => exact (Prog.wp_call _ _ _ _).mpr ⟨trivial, fun r u' _ => ih r u'⟩

/-- How an update ends when every command succeeds. -/
theorem wp_update (hdistinct : w.virt.Distinct) {id : String} (hid : vm.id = id)
    (hvm : w.store.vms.get? id = some vm) (htags : ∀ tag ∈ vm.tags, tagRe tag = true)
    (hdom : w.virt.findName? vm.name = some dom) (hread : readVMUpdate req = .ok patch) :
    Prog.wp smooth (Manager.update d id patch)
      (fun res w' =>
        (vm.Refuses req (dom.state = .running) → (∃ e, res = .error e) ∧ w' = w) ∧
          (¬ vm.Refuses req (dom.state = .running) → vm.Ready d dom patch →
            ∃ vm', res = .ok vm' ∧ vm.Updated d id dom req w vm' w')) w := by
  have hname : dom.name = vm.name := by simpa using List.find?_some hdom
  have hmem : dom ∈ w.virt.domains := List.mem_of_find?_eq_some hdom
  have hup : w.virt.Up dom dom.state := ⟨hdistinct, dom, hmem, rfl, rfl, rfl⟩
  unfold Manager.update
  rw [bind_eq, wp_bind]
  refine wp_getVM_smooth fun vm' hvm' => ?_
  obtain rfl := Option.some.inj (hvm.symm.trans hvm')
  dsimp only
  unfold lookupDomain
  rw [bind_eq, wp_bind, bind_eq, wp_bind]
  refine wp_lookup_smooth fun dom' hdom' => ?_
  obtain rfl := Option.some.inj (hdom.symm.trans hdom')
  show Prog.wp _ (orWrap _ _) _ _
  rw [wp_orWrap]
  dsimp only [Except.mapError]
  rw [bind_eq, wp_bind]
  refine wp_getState_smooth (hdistinct.find?_eq hmem) ?_
  have hrunning : decide ((Except.ok dom.state : Except Err DomainState).toOption = some .running) =
      decide (dom.state = .running) := by simp [Except.toOption]
  dsimp only
  rw [hrunning, bind_eq, wp_bind, wp_orFail]
  have hrefuses : (∃ e, UpdatePlan.resolve d vm patch (dom.state = .running) = .error e) ↔
      vm.Refuses req (dom.state = .running) := UpdatePlan.resolve_refuses hread
  cases hresolve : UpdatePlan.resolve d vm patch (dom.state = .running) with
  | error e => exact ⟨fun _ => ⟨⟨e, rfl⟩, rfl⟩, fun hnot => absurd (hrefuses.mp ⟨e, hresolve⟩) hnot⟩
  | ok p =>
      have hnot : ¬ vm.Refuses req (dom.state = .running) := by
        intro hrefused
        obtain ⟨e, he⟩ := hrefuses.mpr hrefused
        rw [hresolve] at he
        exact absurd he (by simp)
      -- where the plan is of no more than the flags, the world is as it was
      have hearly : ∀ (w' : World) (t : Nat), p.onlyFlags vm = true → w'.virt = w.virt →
          w'.net = w.net → w'.file = w.file →
          w'.store.vms.get? id = some { p.applyFlags vm with updatedAt := t } →
          (∀ other, other ≠ id → w'.store.vms.get? other = w.store.vms.get? other) →
          vm.Updated d id dom req w { p.applyFlags vm with updatedAt := t } w' := by
        intro w' t hflags hvirt hnet hfile hstored hothers
        obtain ⟨hrecord, hsealed, hdiskGB, hstatic⟩ :=
          UpdatePlan.onlyFlags_record hread htags hresolve hflags t
        have hkept : p.ipChanged = false := by
          unfold UpdatePlan.onlyFlags at hflags
          simp only [Bool.and_eq_true, Bool.not_eq_true'] at hflags
          exact hflags.1.1.1.1.1.2
        have happlied : Applied vm dom p w w' := by
          refine ⟨hvirt ▸ hup, fun _ => hnet, fun htrue => ?_, fun _ => ?_⟩
          · rw [hkept] at htrue
            exact absurd htrue (by simp)
          · rw [hfile, hdiskGB, if_neg (lt_irrefl _)]
        rw [hrecord] at hstored ⊢
        exact happlied.updated hname hread hresolve hsealed (.inl ⟨rfl, rfl⟩) hstored hothers
          fun _ hagrees => hagrees
      have hend : ∀ {res : Except Err VM} {w' : World}, (p.Ready d vm dom → ∃ vm', res = .ok vm' ∧
          vm.Updated d id dom req w vm' w') →
          (vm.Refuses req (dom.state = .running) → (∃ e, res = .error e) ∧ w' = w) ∧
            (¬ vm.Refuses req (dom.state = .running) → vm.Ready d dom patch →
              ∃ vm', res = .ok vm' ∧ vm.Updated d id dom req w vm' w') := by
        intro res w' h
        exact ⟨fun hrefused => absurd hrefused hnot, fun _ hready => h (hready p hresolve)⟩
      dsimp only
      split_ifs with hnothing hmeta
      · obtain ⟨hflags, hsame⟩ := UpdatePlan.nothingToDo_record hresolve hnothing
        refine (Prog.wp_ret _ _ _).mpr (hend fun _ => ⟨vm, rfl, ?_⟩)
        have hupdated := hearly w vm.updatedAt hflags rfl rfl rfl (hsame ▸ hvm) fun _ _ => rfl
        rw [← hsame] at hupdated
        exact hupdated
      · unfold UpdatePlan.metadataOnly at hmeta
        simp only [Bool.and_eq_true] at hmeta
        unfold Manager.updateFlags
        rw [bind_eq, wp_bind]
        refine wp_now_smooth fun t => ?_
        dsimp only
        rw [bind_eq, wp_bind, bind_eq, wp_bind]
        refine wp_putVM_smooth ?_
        show Prog.wp _ (orWrap _ _) _ _
        rw [wp_orWrap]
        refine (Prog.wp_ret _ _ _).mpr (hend fun _ => ⟨_, rfl, ?_⟩)
        refine hearly _ t hmeta.1 rfl rfl rfl ?_ fun other hother => ?_
        · show (w.store.vms.put vm.id _).get? id = _
          rw [hid, Bucket.get?_put_self]
        · show (w.store.vms.put vm.id _).get? other = _
          rw [hid, Bucket.get?_put_ne _ _ hother]
      · -- the steps need more than the commands
        by_cases hready : p.Ready d vm dom
        · refine wp_applyUpdate hdistinct hdom hready fun vnc t w' hvnc happlied hstore => ?_
          refine hend fun _ => ⟨_, rfl, happlied.updated hname hread hresolve hvnc (.inr ⟨rfl, rfl⟩) ?_
            (fun other hother => ?_) (fun hstate _ => ?_)⟩
          · rw [hstore, hid]
            exact Bucket.get?_put_self _ _ _
          · rw [hstore, hid]
            exact Bucket.get?_put_ne _ _ hother
          · rcases hstate with hrun | hoff
            · rw [hrun]
              rfl
            · rw [hoff]
              rfl
        · refine Prog.wp_mono (fun res w' _ => hend fun h => absurd h hready) (wp_any _ _)

end World

/-- An update alone, of which every command succeeds: a patch that the manager turns away changes
nothing; of any other that can be carried out the record has the values it names and is as it
was in all else, the reservation and the disk stay in step with the record, and the domain ends
in the state it was in. -/
theorem update_patches (d : Daemon) {w : World} (hdistinct : w.virt.Distinct) {id : String} {vm : VM}
    {dom : Domain} (hid : vm.id = id) (hvm : w.store.vms.get? id = some vm)
    (htags : ∀ tag ∈ vm.tags, tagRe tag = true) (hdom : w.virt.findName? vm.name = some dom)
    {req patch : VMUpdateSpec} (hread : readVMUpdate req = .ok patch) :
    ∀ res w', Prog.Runs World.smooth (Manager.update d id patch) w res w' →
      (vm.Refuses req (dom.state = .running) → (∃ e, res = .error e) ∧ w' = w) ∧
        (¬ vm.Refuses req (dom.state = .running) → vm.Ready d dom patch →
          ∃ vm', res = .ok vm' ∧ vm.Updated d id dom req w vm' w') :=
  fun _ _ hrun => Prog.wp_sound (World.wp_update hdistinct hid hvm htags hdom hread) hrun

/-- A run of a grown disk: the guest is stopped, the disk resized, the record written and the
guest started. -/
def growRun : List Choice := [{}, {}, {}, {}, { flag := true }, {}, {}, {}, {}, {}]

theorem update_patches_grow : ∃ vm' w', Prog.Runs World.smooth
    (Manager.update .plain "vm-1" { diskGB := 40 }) (World.single webVM .running) (.ok vm') w' ∧
      vm'.spec.diskGB = 40 ∧ (w'.virt.findName? "web").map Domain.state = some .running := by
  have hsome : (Prog.run World.execSmooth (Manager.update .plain "vm-1" { diskGB := 40 }) growRun
      (World.single webVM .running)).isSome = true := by decide +kernel
  obtain ⟨⟨res, w'⟩, hres⟩ := Option.isSome_iff_exists.mp hsome
  have hrun := Prog.runs_of_run hres
  have hnot : ¬ webVM.Refuses { diskGB := 40 } (DomainState.running = .running) := by
    rintro (⟨-, hshrinks⟩ | ⟨-, plain, hplain, -⟩)
    · exact absurd hshrinks (by decide)
    · exact absurd hplain (by simp)
  have hready : webVM.Ready .plain (domainOf 1 webVM .running) { diskGB := 40 } := by
    intro p hp
    obtain ⟨ip, secret, -, hip, hsecret, rfl⟩ := UpdatePlan.resolve_ok hp
    obtain rfl := Except.ok.inj hip
    obtain rfl := Except.ok.inj hsecret
    exact ⟨fun hchanged => absurd hchanged (by decide), fun hredefines => absurd hredefines (by decide)⟩
  have hvm : (World.single webVM .running).store.vms.get? "vm-1" = some webVM := rfl
  have hdom : (World.single webVM .running).virt.findName? webVM.name =
      some (domainOf 1 webVM .running) := rfl
  have hread : readVMUpdate { diskGB := 40 } = .ok { diskGB := 40 } := rfl
  obtain ⟨vm', rfl, hupdated⟩ := (update_patches .plain (World.single_distinct webVM .running) rfl hvm
    (fun tag htag => absurd htag List.not_mem_nil) hdom hread res w' hrun).2 hnot hready
  obtain ⟨new, -, hvm', hpatched, -⟩ := hupdated.record
  have hspec : vm'.spec = new.spec := by rw [hvm']
  refine ⟨vm', w', hrun, ?_, hupdated.power⟩
  rw [hspec]
  exact hpatched.diskGB

/-- A smaller disk is refused: there is a patch that nothing comes of. -/
theorem update_shrink_refused : ¬ ∀ (d : Daemon) (w : World) (id : String) (vm : VM) (dom : Domain)
    (req patch : VMUpdateSpec), w.virt.Distinct → vm.id = id → w.store.vms.get? id = some vm →
      (∀ tag ∈ vm.tags, tagRe tag = true) → w.virt.findName? vm.name = some dom →
      readVMUpdate req = .ok patch → vm.Ready d dom patch → ∀ res w',
        Prog.Runs World.smooth (Manager.update d id patch) w res w' →
          ∃ vm', res = .ok vm' ∧ vm.Updated d id dom req w vm' w' := by
  intro hall
  have hsome : (Prog.run World.execSmooth (Manager.update .plain "vm-1" { diskGB := 10 }) [{}, {}, {}]
      (World.single webVM .shutoff)).isSome = true := by decide +kernel
  obtain ⟨⟨res, w'⟩, hres⟩ := Option.isSome_iff_exists.mp hsome
  have hrun := Prog.runs_of_run hres
  have hready : webVM.Ready .plain (domainOf 1 webVM .shutoff) { diskGB := 10 } := by
    intro p hp
    obtain ⟨-, -, hgrows, -⟩ := UpdatePlan.resolve_ok hp
    exact absurd ⟨by decide, by decide⟩ hgrows
  have hdistinct := World.single_distinct webVM .shutoff
  have htags : ∀ tag ∈ webVM.tags, tagRe tag = true := fun tag htag => absurd htag List.not_mem_nil
  obtain ⟨vm', rfl, -⟩ := hall .plain _ "vm-1" webVM (domainOf 1 webVM .shutoff) { diskGB := 10 }
    { diskGB := 10 } hdistinct rfl rfl htags rfl rfl hready res w' hrun
  have hvm : (World.single webVM .shutoff).store.vms.get? "vm-1" = some webVM := rfl
  have hdom : (World.single webVM .shutoff).virt.findName? webVM.name =
      some (domainOf 1 webVM .shutoff) := rfl
  have hread : readVMUpdate { diskGB := 10 } = .ok { diskGB := 10 } := rfl
  obtain ⟨⟨e, he⟩, -⟩ := (Prog.wp_sound (World.wp_update hdistinct rfl hvm htags hdom hread) hrun).1
    (.inl ⟨by decide, by decide⟩)
  exact absurd he (by simp)

end VMSmith

/-
One move of a stopped VM's disk, and requests to start the VM meanwhile.

Any number of starts may be under way, each answered command by command between the commands
of the move.  libvirt starts no domain whose disk is not there.
-/
import VMSmith.Lib.Pool
import VMSmith.System.Shape
import VMSmith.VM.DiskMove

namespace VMSmith

inductive MoveCall where
  | move (location : String)
  | start
  deriving DecidableEq, Repr

def MoveCall.body (d : Daemon) (id : String) : MoveCall → M Unit
  | .move location => do
      let _ ← Manager.moveDisk d id location
      return ()
  | .start => Manager.start id

/-! ### What a call has been answered -/

/-- How far a move has come. -/
inductive MoveStage where
  /-- The directory is where it was. -/
  | before
  /-- It has been renamed, or copied. -/
  | moved
  /-- The domain has been seen shut off once more. -/
  | checked
  /-- The domain is defined over the new directory. -/
  | repointed
  /-- And what came after it has failed. -/
  | failing
  /-- The domain is defined over the old directory again. -/
  | restored
  /-- One of the directories has been removed, or renamed back. -/
  | over
  deriving DecidableEq, Repr

structure MoveNote where
  /-- The record that was read. -/
  record : Option VM := none
  /-- The domain that was looked up, and its UUID as it was read last. -/
  dom : Option Nat := none
  uuid : Option Nat := none
  stage : MoveStage := .before
  destination : HostPath := []
  renamed : Bool := false
  /-- The domain's definition names the new directory. -/
  pointed : Bool := false
  deriving DecidableEq, Repr

namespace MoveNote

/-- Something fails that is undone once the domain is defined anew. -/
def fails (v : MoveNote) : MoveNote := if v.stage = .repointed then { v with stage := .failing } else v

/-- The domain is defined: over the new directory, or over the old one again. -/
def defines (v : MoveNote) : MoveNote :=
  match v.stage with
  | .checked => { v with stage := .repointed, pointed := true }
  | .failing => { v with stage := .restored, pointed := false }
  | _ => v

/-- What one answer adds. -/
def add (v : MoveNote) : (c : Cmd) → c.Resp → MoveNote
  | .store (.getVM _), .ok vm => { v with record := some vm }
  | .store (.putVM _), .error _ => v.fails
  | .virt (.lookupDomainByName _), .ok dom => { v with dom := some dom }
  | .virt (.getUUIDString _), uuid => { v with uuid := uuid }
  | .virt (.getState _), .ok .shutoff => if v.stage = .moved then { v with stage := .checked } else v
  | .virt (.domainDefineXML _), .ok _ => v.defines
  | .virt (.listSnapshots _), .error _ => v.fails
  | .virt (.snapshotXML _ _ _), .error _ => v.fails
  | .virt (.redefineSnapshot _ _), .error _ => v.fails
  | .file (.relocate _ destination), .ok renamed =>
      { v with stage := .moved, destination := destination, renamed := renamed }
  | .file (.commitRelocation _ _), _ => { v with stage := .over }
  | .file (.rollbackRelocation _ _ _), _ => { v with stage := .over }
  | _, _ => v

/-- The directory the domain is defined over is about to go. -/
def exposed (v : MoveNote) : Bool := v.stage = .checked || v.stage = .failing

end MoveNote

/-! ### The system -/

namespace World

/-- Where a domain that runs has its disk. -/
def runsOn (w : World) (u : Nat) : Option HostPath :=
  (w.virt.shape u).bind fun a => if a.state = .running then a.definition.map DomainXML.diskPath else none

/-- A domain is started only with its disk there. -/
def startable (w : World) : Cmd → Choice → Bool
  | .virt (.create dom), x => x.fail.isSome ||
      ((w.virt.shape dom).bind DomainShape.definition).all fun xml => w.file.has xml.diskPath
  | _, _ => true

def execStartable (c : Cmd) (x : Choice) (w : World) : Option (c.Resp × World) :=
  if w.startable c x then exec c x w else none

end World

/-- Calls under way over one world; the move is the first. -/
abbrev MoveSys := Pool MoveCall Cmd Cmd.Resp Err Unit World

abbrev MoveThread := Thread MoveCall Cmd Cmd.Resp Err Unit

def MoveThread.note (t : MoveThread) : MoveNote := Prog.Log.account MoveNote.add {} t.log

inductive MoveLabel where
  /-- A start is asked for. -/
  | start
  /-- The call at this place has its next command answered. -/
  | step (i : Nat) (x : Choice)
  deriving DecidableEq, Repr

def MoveLabel.pool : MoveLabel → PoolLabel MoveCall Choice Empty
  | .start => .call .start
  | .step i x => .step i x

namespace MoveSys

variable (d : Daemon) (id : String)

def step (s : MoveSys) (l : MoveLabel) : Option MoveSys :=
  Pool.step (MoveCall.body d id) World.execStartable (fun e _ => e.elim) s l.pool

/-- The move has been asked for. -/
def init (location : String) (w : World) : MoveSys :=
  Pool.add { world := w } (.move location) (MoveCall.body d id (.move location))

/-- How far the move has come. -/
def note (s : MoveSys) : MoveNote := (s.threads[0]?.map MoveThread.note).getD {}

end MoveSys

end VMSmith

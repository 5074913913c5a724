import LightNfs.State.Shared

/-!
# Grace windows and reclaim lists

Window 0 covers every export, an export's own window only that export. A window is over at its deadline
or when nobody is left to reclaim; the readers find out and record it. Stable storage is the set of
owners put on each list since the start, with `put` and `erase` as insertion and deletion.
-/

namespace LightNfs

namespace GraceWindow

/-- `window_live` as a test; the reader stores the result back in `active`. -/
def live (clock : Nat) (w : GraceWindow) : Bool := w.active && !(w.pending.isEmpty || clock ≥ w.deadline)

end GraceWindow

namespace Shared

variable (cfg : Config) (s : Shared)
variable (fsid : UInt32)

/-- `in_grace(fsid)`: the answer, and the windows found to be over marked so. -/
def inGrace : Bool := s.graceAny && s.grace.any fun id w => w.live s.clock && (id == 0 || id == fsid)

def noteGrace : Shared :=
  if s.graceAny then
    { s with
      grace := s.grace.mapVals fun _ w => { w with active := w.live s.clock }
      graceAny := s.grace.any fun _ w => w.live s.clock }
  else s

def inStableList (ownerId : Bytes) : Bool :=
  [0, fsid].any fun id => ((s.grace.find id).getD {}).listed.contains ownerId

/-- `arm_grace(fsid, owners)`; an empty owner id names nobody. -/
def armGrace (owners : List Bytes) : Shared :=
  let owners := owners.filter (· ≠ [])
  let window := (s.grace.find fsid).getD {}
  let pending := window.pending ∪ owners
  let armed : GraceWindow := { window with listed := window.listed ∪ owners, pending := pending }
  let seconds := if cfg.graceSeconds = 0 then cfg.leaseSeconds else cfg.graceSeconds
  if pending.isEmpty then { s with grace := s.grace.put fsid armed }
  else
    { s with
      grace := s.grace.put fsid { armed with deadline := s.clock + seconds.toNat * 1000000000, active := true }
      graceAny := true }

/-- `load_grace_list(fsid)`; the list also has the owners `listed` by earlier starts or other servers. -/
def loadGraceList (listed : List Bytes) : Shared := s.armGrace cfg fsid (s.stable fsid ∪ listed)

def endGrace : Shared :=
  { s with
    grace := s.grace.mapVals fun id w => if fsid ≠ 0 ∧ id ≠ fsid then w else { w with pending := [], active := false }
    graceAny := if fsid = 0 then false else s.graceAny }

def noteReclaimed (ownerId : Bytes) : Shared :=
  { s with
    grace := s.grace.mapVals fun _ w =>
      let pending := w.pending.filter (· ≠ ownerId)
      { w with pending := pending, active := w.active && !pending.isEmpty } }

def stablePut (ownerId : Bytes) : Shared :=
  { s with stable := Function.update s.stable fsid (s.stable fsid ∪ [ownerId]) }

def stableErase (ownerId : Bytes) : Shared :=
  { s with stable := Function.update s.stable fsid ((s.stable fsid).filter (· ≠ ownerId)) }

def persistClient (c : ClientRef) : Shared :=
  if cfg.perFsidReclaim then s else s.stablePut 0 (s.clients c).ownerId

def unpersistClient (c : ClientRef) : Shared :=
  if cfg.perFsidReclaim then
    ((s.clients c).fsStates.keys.foldl (fun s fsid => s.stableErase fsid (s.clients c).ownerId) s).modClient c
      fun rec => { rec with fsStates := ∅ }
  else s.stableErase 0 (s.clients c).ownerId

end Shared

end LightNfs

import LightNfs.Backend.Api
import LightNfs.Rpc.Dispatch

/-!
# Exports

The export table of `core/config.cpp`: who may use an export, as whom, and which export serves a path.
-/

namespace LightNfs

/-! ### Clients -/

inductive Family where
  | inet | inet6
deriving DecidableEq

/-- A `sockaddr_storage`: the address in network order and the port. -/
inductive Peer where
  | inet (addr : Bytes) (port : UInt16)
  | inet6 (addr : Bytes) (port : UInt16)
  | other
deriving DecidableEq

structure Cidr where
  family : Family
  address : Bytes
  prefixLen : UInt8
  text : Bytes := []
deriving DecidableEq

namespace Cidr

def covers (c : Cidr) (actual : Bytes) : Bool :=
  let full := c.prefixLen.toNat / 8
  let partialBits := c.prefixLen % 8
  let mask : UInt8 := 0xff <<< (8 - partialBits)
  c.address.take full == actual.take full &&
    (partialBits == 0 || c.address.getD full 0 &&& mask == actual.getD full 0 &&& mask)

def v4Mapped (addr : Bytes) : Bool := addr.take 12 == List.replicate 10 0 ++ [0xff, 0xff]

def contains (c : Cidr) (peer : Peer) : Bool :=
  match c.family, peer with
  | .inet, .inet addr _ => c.covers addr
  | .inet6, .inet6 addr _ => c.covers addr
  | .inet, .inet6 addr _ => v4Mapped addr && c.covers (addr.drop 12)
  | _, _ => false

end Cidr

/-! ### Entries -/

inductive Squash where
  | none | root | all
deriving DecidableEq

/-- `ExportEntry`, as far as the lookups read it. The engines compare entries by address, so `ident` tells two of them
apart that have the same settings. `ExportSetBuilder::add` refuses the id 0. -/
structure ExportEntry where
  ident : Nat := 0
  path : Bytes
  fsid : UInt32
  securePorts : Bool := true
  clients : List Cidr := []
  fsid_ne_zero : fsid ≠ 0
deriving DecidableEq

def portAllowed (peer : Peer) (entry : ExportEntry) : Bool :=
  if !entry.securePorts then true
  else
    match peer with
    | .inet _ port => port < 1024
    | .inet6 _ port => port < 1024
    -- A unix socket has no port.
    | .other => true

def checkClient (peer : Peer) (entry : ExportEntry) : Bool :=
  portAllowed peer entry && entry.clients.any (·.contains peer)

/-! ### Sets -/

/-- `ExportSet`: one immutable version of the table, ordered by id. -/
structure ExportSet where
  generation : UInt64 := 0
  epoch : UInt64 := 1
  entries : List ExportEntry
  sorted : entries.Pairwise (·.fsid < ·.fsid)

/-- `normalize_path`: trailing slashes go, the root stays. -/
def normalizePath (path : Bytes) : Bytes :=
  let trimmed := (path.reverse.dropWhile (· == 47)).reverse
  if trimmed = [] then path.take 1 else trimmed

namespace ExportSet

def pseudoChange (set : ExportSet) : UInt64 := set.epoch <<< 32 ||| set.generation

def byFsid (set : ExportSet) (fsid : UInt32) : Option ExportEntry := set.entries.find? (·.fsid == fsid)

/-- The export path is a prefix of the path that ends at a component. -/
def servesPath (path : Bytes) (entry : ExportEntry) : Bool :=
  entry.path.isPrefixOf path &&
    (path.length == entry.path.length || entry.path == [47] || path.getD entry.path.length 0 == 47)

/-- `for_mount_path`: the longest match and the path relative to it. -/
def forMountPath (set : ExportSet) (raw : Bytes) : Option (ExportEntry × Bytes) :=
  let path := normalizePath raw
  let better (best : Option ExportEntry) (entry : ExportEntry) : Option ExportEntry :=
    if !servesPath path entry then best
    else
      match best with
      | none => some entry
      | some b => if entry.path.length > b.path.length then some entry else some b
  (set.entries.foldl better none).map fun best => (best, (path.drop best.path.length).dropWhile (· == 47))

end ExportSet

end LightNfs

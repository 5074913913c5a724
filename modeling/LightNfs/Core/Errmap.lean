import LightNfs.Basic

/-!
# Backend errors as status codes

`to_v3` of `core/errmap.cpp`: an error maps to its status and, where the procedure's list of errors does not
have it, to IO.
-/

namespace LightNfs

/-- `nfsv3::Status`. -/
inductive Status3 where
  | ok | perm | noent | io | nxio | acces | exist | xdev | nodev | notdir | isdir | inval | fbig | nospc | rofs | mlink
  | nametoolong | notempty | dquot | stale | remote | badhandle | notSync | badCookie | notsupp | toosmall | serverfault
  | badtype | jukebox
deriving DecidableEq, Repr

inductive Proc where
  | null | getattr | setattr | lookup | access | readlink | read | write | create | mkdir | symlink | mknod | remove
  | rmdir | rename | link | readdir | readdirplus | fsstat | fsinfo | pathconf | commit
deriving DecidableEq, Repr

def rawMapping : Errno → Status3
  | .badHandle => .badhandle
  | .jukebox => .jukebox
  | .perm => .perm
  | .noent => .noent
  | .io => .io
  | .nxio => .nxio
  | .acces => .acces
  | .exist => .exist
  | .xdev => .xdev
  | .nodev => .nodev
  | .notdir => .notdir
  | .isdir => .isdir
  | .inval => .inval
  | .fbig => .fbig
  | .nospc => .nospc
  | .rofs => .rofs
  | .mlink => .mlink
  | .nametoolong => .nametoolong
  | .notempty => .notempty
  | .dquot => .dquot
  | .stale => .stale
  | .opnotsupp => .notsupp
  | _ => .io

/-- The errors of a procedure beyond the common ones; `none` lets every status pass. -/
def Proc.errors : Proc → Option (List Status3)
  | .getattr | .access | .fsstat | .fsinfo | .pathconf | .commit => some []
  | .lookup => some [.noent, .acces, .notdir, .nametoolong]
  | .readlink => some [.inval, .acces, .notsupp]
  | .read => some [.nxio, .acces, .isdir, .inval, .jukebox]
  | .readdir => some [.acces, .notdir, .badCookie, .toosmall]
  | .readdirplus => some [.acces, .notdir, .badCookie, .toosmall, .notsupp]
  | .setattr => some [.perm, .acces, .inval, .nospc, .rofs, .dquot, .notSync, .isdir, .fbig, .jukebox]
  | .write => some [.acces, .fbig, .dquot, .inval, .nospc, .rofs, .jukebox, .isdir]
  | .create => some [.acces, .exist, .dquot, .nametoolong, .nospc, .rofs, .notdir, .notsupp, .jukebox]
  | .mkdir => some [.acces, .exist, .dquot, .nametoolong, .nospc, .rofs, .notdir, .mlink]
  | .symlink => some [.acces, .exist, .dquot, .nametoolong, .nospc, .rofs, .notdir, .notsupp]
  | .mknod => some [.acces, .exist, .dquot, .nametoolong, .nospc, .rofs, .notdir, .notsupp, .badtype, .perm]
  | .remove => some [.noent, .acces, .nametoolong, .notdir, .rofs, .isdir, .perm, .jukebox]
  | .rmdir => some [.noent, .acces, .inval, .exist, .nametoolong, .notdir, .notempty, .rofs, .notsupp, .perm]
  | .rename =>
    some [.noent, .acces, .exist, .xdev, .notdir, .isdir, .inval, .nospc, .mlink, .nametoolong, .notempty, .dquot,
      .rofs, .notsupp, .jukebox]
  | .link =>
    some [.acces, .exist, .xdev, .mlink, .nametoolong, .noent, .notdir, .dquot, .rofs, .inval, .notsupp, .perm, .nospc]
  | .null => none

def v3ErrorAllowed (proc : Proc) (status : Status3) : Bool :=
  if status = .ok ∨ status = .io ∨ status = .serverfault then true
  else if status = .stale ∨ status = .badhandle then proc ≠ .null
  else proc.errors.all fun l => decide (status ∈ l)

def toV3 (error : Errno) (proc : Proc) : Status3 :=
  if v3ErrorAllowed proc (rawMapping error) then rawMapping error else .io

end LightNfs

/-!
# Status codes

`nfsv4::Status`.
-/

namespace LightNfs

inductive Status where
  | ok | perm | noent | inval | stale | serverfault | delay | denied | expired | locked | grace | shareDenied
  | clidInuse | resource | staleClientid | staleStateid | oldStateid | badStateid | notSame | noGrace | reclaimBad
  | badxdr | locksHeld | openmode | badsession | badslot | completeAlready | connNotBound | seqMisordered | reqTooBig
  | repTooBig | repTooBigToCache | retryUncachedRep | tooManyOps | notOnlyOp | clientidBusy | badHighSlot | toosmall
  | io | nxio | access | exist | xdev | notdir | isdir | fbig | nospc | rofs | mlink | nametoolong | notempty | dquot
  | badhandle | badCookie | notsupp | badtype | same | wrongsec | moved | nofilehandle | minorVersMismatch
  | attrnotsupp | symlink | restorefh | badowner | badname | badRange | lockNotsupp | lockRange | fileOpen | opIllegal
  | sequencePos | opNotInSession | wrongType | unionNotsupp | offloadDenied
deriving DecidableEq, Repr

end LightNfs

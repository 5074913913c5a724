import LightNfs.Core.Exports
import LightNfs.Xdr.Enc

/-!
# Bitmap attributes

`Bitmap` and the reading side of `nfsv4/attrs.cpp`.
-/

namespace LightNfs

/-! ### Ownership -/

inductive FsRole where
  | active | draining | remote | unowned
deriving DecidableEq

structure FsOwner where
  role : FsRole := .active
  node : Bytes := []
  address : Bytes := []
  fsEpoch : UInt64 := 0
deriving DecidableEq

/-! ### Bitmaps -/

/-- `Bitmap`: up to three words, and whether the client's had bits beyond them. -/
structure Bitmap where
  words : List UInt32 := []
  beyondKnown : Bool := false
deriving DecidableEq

namespace Bitmap

def test (b : Bitmap) (bit : Nat) : Bool :=
  (b.words.getD (bit / 32) 0 >>> UInt32.ofNat (bit % 32)) &&& 1 != 0

def set (b : Bitmap) (bit : Nat) : Bitmap :=
  let w := bit / 32
  let words := b.words ++ List.replicate (w + 1 - b.words.length) 0
  { b with words := words.set w (words.getD w 0 ||| 1 <<< UInt32.ofNat (bit % 32)) }

def ofBits (bits : List Nat) : Bitmap := bits.foldl set {}

def encode (b : Bitmap) : Bytes := Xdr.putU32 (UInt32.ofNat b.words.length) ++ b.words.flatMap Xdr.putU32

end Bitmap

/-! ### The attributes -/

namespace AttrId

def supportedAttrs : Nat := 0
def type : Nat := 1
def fhExpireType : Nat := 2
def change : Nat := 3
def size : Nat := 4
def linkSupport : Nat := 5
def symlinkSupport : Nat := 6
def namedAttr : Nat := 7
def fsid : Nat := 8
def uniqueHandles : Nat := 9
def leaseTime : Nat := 10
def rdattrError : Nat := 11
def cansettime : Nat := 15
def caseInsensitive : Nat := 16
def casePreserving : Nat := 17
def chownRestricted : Nat := 18
def filehandle : Nat := 19
def fileid : Nat := 20
def filesAvail : Nat := 21
def filesFree : Nat := 22
def filesTotal : Nat := 23
def fsLocations : Nat := 24
def homogeneous : Nat := 26
def maxfilesize : Nat := 27
def maxlink : Nat := 28
def maxname : Nat := 29
def maxread : Nat := 30
def maxwrite : Nat := 31
def mode : Nat := 33
def noTrunc : Nat := 34
def numlinks : Nat := 35
def owner : Nat := 36
def ownerGroup : Nat := 37
def rawdev : Nat := 41
def spaceAvail : Nat := 42
def spaceFree : Nat := 43
def spaceTotal : Nat := 44
def spaceUsed : Nat := 45
def timeAccess : Nat := 47
def timeAccessSet : Nat := 48
def timeDelta : Nat := 51
def timeMetadata : Nat := 52
def timeModify : Nat := 53
def timeModifySet : Nat := 54
def mountedOnFileid : Nat := 55
def fsLocationsInfo : Nat := 67
def suppattrExclCreat : Nat := 75
def changeAttrType : Nat := 79

end AttrId

def baseSupportedAttrs : Bitmap :=
  .ofBits
    [AttrId.supportedAttrs, AttrId.type, AttrId.fhExpireType, AttrId.change, AttrId.size, AttrId.linkSupport,
      AttrId.symlinkSupport, AttrId.namedAttr, AttrId.fsid, AttrId.uniqueHandles, AttrId.leaseTime, AttrId.rdattrError,
      AttrId.cansettime, AttrId.caseInsensitive, AttrId.casePreserving, AttrId.chownRestricted, AttrId.filehandle,
      AttrId.fileid, AttrId.filesAvail, AttrId.filesFree, AttrId.filesTotal, AttrId.homogeneous, AttrId.maxfilesize,
      AttrId.maxlink, AttrId.maxname, AttrId.maxread, AttrId.maxwrite, AttrId.mode, AttrId.noTrunc, AttrId.numlinks,
      AttrId.owner, AttrId.ownerGroup, AttrId.rawdev, AttrId.spaceAvail, AttrId.spaceFree, AttrId.spaceTotal,
      AttrId.spaceUsed, AttrId.timeAccess, AttrId.timeDelta, AttrId.timeMetadata, AttrId.timeModify,
      AttrId.mountedOnFileid, AttrId.timeAccessSet, AttrId.timeModifySet, AttrId.suppattrExclCreat,
      AttrId.changeAttrType]

def supportedAttrs (referrals : Bool) : Bitmap :=
  if referrals then (baseSupportedAttrs.set AttrId.fsLocations).set AttrId.fsLocationsInfo else baseSupportedAttrs

def settableAttrs : Bitmap :=
  .ofBits [AttrId.size, AttrId.mode, AttrId.owner, AttrId.ownerGroup, AttrId.timeAccessSet, AttrId.timeModifySet]

variable (wanted : Bitmap)

/-! ### Encoding -/

structure FsProps where
  limits : FsLimits := {}
  linkSupport : Bool := false
  symlinkSupport : Bool := false
  caseInsensitive : Bool := false
  nativeChange : Bool := false
  stableHandles : Bool := false

structure AttrSource where
  attr : Attr
  fsid : UInt64 := 0
  mountedOnFileid : UInt64 := 0
  fh : Bytes := []
  fs : Option FsProps := none
  stats : Option FsStats := none
  leaseSeconds : UInt32 := 90
  referrals : Bool := false
  fsRoot : List Bytes := []
  owner : Option FsOwner := none
  rdattrError : UInt32 := 0

/-- `address_host`: up to the last colon, without brackets. -/
def addressHost (address : Bytes) : Bytes :=
  let host :=
    if 58 ∈ address then (address.reverse.dropWhile (· != 58)).tail.reverse else address
  if host.length ≥ 2 ∧ host.headD 0 = 91 ∧ host.getLastD 0 = 93 then host.tail.dropLast else host

def locationServer (src : AttrSource) : Bytes := (src.owner.map fun owner => addressHost owner.address).getD []

/-- `opaque` and `string` as sent. `close_tail` cuts the length of a block to 32 bits and `append` drops an empty one,
so of a block of 2^32 bytes or more only the rest of its length is there. -/
def sentOpaque (b : Bytes) : Bytes := Xdr.putOpaque (b.take (b.length % 2 ^ 32))

def encodePathname (parts : List Bytes) : Bytes :=
  Xdr.putU32 (UInt32.ofNat parts.length) ++ parts.flatMap sentOpaque

def encodeNfstime (time : Timespec) : Bytes := Xdr.putU64 time.sec.toUInt64 ++ Xdr.putU32 (min time.nsec 999999999)

/-- `std::to_string`. -/
def decimal (n : UInt32) : Bytes := (Nat.toDigits 10 n.toNat).map fun c => UInt8.ofNat c.toNat

/-- The locations of an export: its owner, if there is one to name. -/
def encodeLocations (src : AttrSource) (head : Bytes) : Bytes :=
  let server := locationServer src
  if server = [] then Xdr.putU32 0
  else Xdr.putU32 1 ++ Xdr.putU32 1 ++ head ++ sentOpaque server ++ encodePathname src.fsRoot

end LightNfs

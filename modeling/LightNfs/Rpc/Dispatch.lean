import LightNfs.Transport.RecordStream

/-!
# RPC calls and their dispatch

`parse_call` decodes the header of a call up to its arguments, the authenticators turn its credential into
an identity, and `Dispatcher::handle_request` applies the checks in their order before it hands the call to
a program.
-/

namespace LightNfs

/-! ### XDR decoding -/

namespace Xdr

/-- `XdrDec::take`: the next `n` bytes and what follows them. -/
def take (n : Nat) (d : Bytes) : Option (Bytes × Bytes) := if n > d.length then none else some (d.splitAt n)

def u32 (d : Bytes) : Option (UInt32 × Bytes) := (take 4 d).map fun (b, d) => (RecordStream.be32 b, d)

def pad4 (n : Nat) : Nat := (4 - n % 4) % 4

def opaqueFixed (n : Nat) (d : Bytes) : Option (Bytes × Bytes) := do
  let (b, d) ← take n d
  let (_, d) ← take (pad4 n) d
  return (b, d)

/-- A variable-length opaque of at most `max` bytes. -/
def opaqueUpTo (max : Nat) (d : Bytes) : Option (Bytes × Bytes) := do
  let (len, d) ← u32 d
  if len.toNat > max then none else opaqueFixed len.toNat d

end Xdr

/-! ### Calls -/

def kRpcVersion : UInt32 := 2
def kMaxAuthBody : Nat := 400
def kAuthTls : UInt32 := 7
def kCall : UInt32 := 0
def kReply : UInt32 := 1

structure OpaqueAuth where
  flavor : UInt32
  body : Bytes
deriving DecidableEq

structure RpcCall where
  xid : UInt32
  rpcvers : UInt32
  prog : UInt32
  vers : UInt32
  proc : UInt32
  cred : OpaqueAuth
  verf : OpaqueAuth
  args : Bytes
deriving DecidableEq

def parseCall (d : Bytes) : Option RpcCall := do
  let (xid, d) ← Xdr.u32 d
  let (mtype, d) ← Xdr.u32 d
  if mtype ≠ kCall then none
  else
    let (rpcvers, d) ← Xdr.u32 d
    let (prog, d) ← Xdr.u32 d
    let (vers, d) ← Xdr.u32 d
    let (proc, d) ← Xdr.u32 d
    let (credFlavor, d) ← Xdr.u32 d
    let (credBody, d) ← Xdr.opaqueUpTo kMaxAuthBody d
    let (verfFlavor, d) ← Xdr.u32 d
    let (verfBody, d) ← Xdr.opaqueUpTo kMaxAuthBody d
    return { xid, rpcvers, prog, vers, proc, cred := ⟨credFlavor, credBody⟩, verf := ⟨verfFlavor, verfBody⟩, args := d }

/-! ### Authentication -/

structure Cred where
  uid : UInt32 := 65534
  gid : UInt32 := 65534
  gids : List UInt32 := []
  sys : Bool := false
  anonymous : Bool := false
  machine : Bytes := []
deriving DecidableEq

def readGids : Nat → Bytes → Option (List UInt32)
  | 0, _ => some []
  | n + 1, d => do
    let (g, d) ← Xdr.u32 d
    let gs ← readGids n d
    return g :: gs

def authSysBody (d : Bytes) : Option Cred := do
  let (_, d) ← Xdr.u32 d
  let (name, d) ← Xdr.opaqueUpTo 255 d
  let (uid, d) ← Xdr.u32 d
  let (gid, d) ← Xdr.u32 d
  let (ngids, d) ← Xdr.u32 d
  if ngids.toNat > 16 then none
  else
    let gids ← readGids ngids.toNat d
    return { uid, gid, gids, sys := true, machine := name }

/-- `AuthRegistry::authenticate` with the default registry, AUTH_NONE and AUTH_SYS. -/
def authenticate (call : RpcCall) : Except Errno Cred :=
  if call.cred.flavor = 0 then .ok { anonymous := true }
  else if call.cred.flavor = 1 then
    if call.verf.flavor ≠ 0 ∨ call.verf.body ≠ [] then .error .badVerf
    else
      match authSysBody call.cred.body with
      | none => .error .acces
      | some cred => .ok cred
  else .error .perm

/-! ### Dispatch -/

inductive TlsPolicy where
  | kOff
  | kOptional
  | kRequired
deriving DecidableEq

structure Program where
  prog : UInt32
  versLo : UInt32
  versHi : UInt32
deriving DecidableEq

inductive AuthStat where
  | badcred
  | rejectedcred
  | badverf
  | tooweak
deriving DecidableEq

inductive Handled where
  | dropped
  | rpcMismatch (xid : UInt32)
  | authError (xid : UInt32) (stat : AuthStat)
  | progUnavail (xid : UInt32)
  | progMismatch (xid lo hi : UInt32)
  | dispatched (program : Program) (call : RpcCall) (cred : Cred)
deriving DecidableEq

def authStat : Errno → AuthStat
  | .perm => .rejectedcred
  | .badVerf => .badverf
  | _ => .badcred

def versionRange (programs : List Program) (prog : UInt32) : UInt32 × UInt32 :=
  (programs.filter (·.prog = prog)).foldl (fun r p => (min r.1 p.versLo, max r.2 p.versHi)) (0xffffffff, 0)

/-- `Dispatcher::handle_request` up to the program's handler. -/
def handleRequest (programs : List Program) (policy : TlsPolicy) (tlsActive : Bool) (bytes : Bytes) : Handled :=
  match parseCall bytes with
  | none => .dropped
  | some call =>
    if call.rpcvers ≠ kRpcVersion then .rpcMismatch call.xid
    else if policy = .kRequired ∧ !tlsActive ∧ call.proc ≠ 0 then .authError call.xid .tooweak
    else
      match programs.find? fun p => p.prog = call.prog ∧ p.versLo ≤ call.vers ∧ call.vers ≤ p.versHi with
      | none =>
        if programs.any (·.prog = call.prog) then
          .progMismatch call.xid (versionRange programs call.prog).1 (versionRange programs call.prog).2
        else .progUnavail call.xid
      | some program =>
        match authenticate call with
        | .error e => .authError call.xid (authStat e)
        | .ok cred => .dispatched program call cred

theorem tlsActive_of_dispatched {programs : List Program} {tlsActive : Bool} {bytes : Bytes} {program : Program}
    {call : RpcCall} {cred : Cred}
    (h : handleRequest programs .kRequired tlsActive bytes = .dispatched program call cred) (hproc : call.proc ≠ 0) :
    tlsActive = true := by
  unfold handleRequest at h
  split at h
  · cases h
  · next call' hcall =>
    split at h
    · cases h
    · split at h
      · cases h
      · next hpolicy =>
        have hsame : call' = call := by
          split at h
          · split at h <;> cases h
          · split at h
            · cases h
            · cases h
              rfl
        subst hsame
        simpa [hproc] using hpolicy

end LightNfs

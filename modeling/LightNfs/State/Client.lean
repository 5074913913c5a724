import LightNfs.State.Grace
import Mathlib

/-!
# Clients, sessions and leases

EXCHANGE_ID, CREATE_SESSION and the operations that end a client: DESTROY_CLIENTID, the lease scan and
`expire_client_impl`. Each definition is one lock section of the operation it is named after and returns
the frames that follow it.
-/

namespace LightNfs

namespace Shared

variable (cfg : Config)

/-! ### The client tables -/

variable (s : Shared)

/-- `arm_lease_check`; the heap is the list of its entries, earliest first. -/
def armLeaseCheck (c : ClientRef) (when_ : Int) : Shared :=
  let deadline := (s.clients c).leaseHeapDeadline
  if 0 ≤ deadline ∧ deadline ≤ when_ then s
  else
    { s with
      leaseHeap := s.leaseHeap.orderedInsert (fun a b => a.1 < b.1 ∨ a.1 = b.1 ∧ a.2 ≤ b.2)
        (when_, (s.clients c).clientid) }.modClient c fun client => { client with leaseHeapDeadline := when_ }

def renew (c : ClientRef) : Shared :=
  let expiry := s.now + cfg.leaseSeconds.toNat
  let renewed := s.modClient c fun client => { client with leaseExpiry := expiry, courtesy := false }
  if (s.clients c).courtesy then
    (renewed.tally fun g => { g with courtesy := g.courtesy - 1 }).armLeaseCheck c expiry
  else renewed

/-- A client leaves `by_id` and the client id index. -/
def unindex (c : ClientRef) : Shared :=
  { s with
    byId := s.byId.remove (s.idKey cfg c)
    clientIdx := s.clientIdx.remove (s.clients c).clientid
    gauges := { s.gauges with clients := s.gauges.clients - 1 } }

/-- An owner's entry, dropped once it names nobody. -/
def setSlot (ownerId : Bytes) (slot : OwnerSlot) : Shared :=
  { s with byOwner := if slot = {} then s.byOwner.remove ownerId else s.byOwner.put ownerId slot }

def clearSlot (c : ClientRef) : Shared :=
  match s.byOwner.find (s.clients c).ownerId with
  | none => s
  | some slot => s.setSlot (s.clients c).ownerId (slot.without c)

def clearCourtesy (c : ClientRef) : Shared :=
  if (s.clients c).courtesy then
    (s.modClient c fun client => { client with courtesy := false }).tally fun g => { g with courtesy := g.courtesy - 1 }
  else s

/-- The client's reclaim chain starts: it is expired and gives up its sessions and states. -/
def retire (c : ClientRef) : Shared :=
  (s.clearCourtesy c).modClient c fun client => { client with expired := true, sessions := [], states := [] }

/-! ### EXCHANGE_ID -/

def clientidOf (counter : UInt32) : UInt64 := cfg.bootEpoch <<< 32 ||| counter.toUInt64

def dropUnconfirmed (slot : OwnerSlot) : Shared :=
  match slot.unconfirmed with
  | some u => s.unindex cfg u
  | none => s

/-- A fresh unconfirmed record, indexed and listed under its owner. -/
def addClient (args : ExchangeArgs) (slot : OwnerSlot) : Shared :=
  let clientid := clientidOf cfg s.nextClient
  let expiry := s.now + cfg.leaseSeconds.toNat
  { s with
    clients := Function.update s.clients s.clientRefs
      { clientid := clientid, ownerId := args.ownerId, principal := args.principal, verifier := args.verifier,
        leaseExpiry := expiry }
    clientRefs := s.clientRefs + 1
    nextClient := s.nextClient + 1
    byOwner := s.byOwner.put args.ownerId { slot with unconfirmed := some s.clientRefs }
    byId := s.byId.put (cfg.ownerShard args.ownerId, clientid) s.clientRefs
    clientIdx := s.clientIdx.put clientid s.clientRefs
    gauges := { s.gauges with clients := s.gauges.clients + 1 } : Shared }.armLeaseCheck s.clientRefs expiry

/-- The last part of `exchange_id`: a registration always replaces the slot's unconfirmed record. -/
def registerClient (args : ExchangeArgs) (slot : OwnerSlot) : Shared × List Frame :=
  if cfg.maxClients ≠ 0 ∧ (s.dropUnconfirmed cfg slot).gauges.clients ≥ (cfg.maxClients.toNat : Int) then
    ((s.dropUnconfirmed cfg slot).setSlot args.ownerId { slot with unconfirmed := none },
      [.reply (.status .resource)])
  else
    ((s.dropUnconfirmed cfg slot).addClient cfg args slot,
      [.reply (.exchanged (clientidOf cfg s.nextClient) 1 false)])

def exchangeId (args : ExchangeArgs) : Shared × List Frame :=
  let slot := (s.byOwner.find args.ownerId).getD {}
  match slot.confirmed with
  | none => if args.update then (s, [.reply (.status .noent)]) else s.registerClient cfg args slot
  | some c =>
    let client := s.clients c
    let same := [.reply (.exchanged client.clientid client.csSequence true)]
    if args.update then
      if client.verifier ≠ args.verifier then (s, [.reply (.status .notSame)])
      else if client.principal ≠ args.principal then (s, [.reply (.status .perm)])
      else (s.renew cfg c, same)
    else if client.principal ≠ args.principal then
      if client.sessions ≠ [] ∨ client.states ≠ [] then (s, [.reply (.status .clidInuse)])
      else ((s.unpersistClient cfg c).unindex cfg c).registerClient cfg args { slot with confirmed := none }
    else if client.verifier = args.verifier then (s.renew cfg c, same)
    else s.registerClient cfg args slot

/-! ### CREATE_SESSION -/

def beBytes (x : UInt32) : Bytes := (leBytes 4 x.toNat).reverse

def encodeAttrs (a : ChannelAttrs) : Bytes :=
  [a.headerpad, a.maxRequest, a.maxResponse, a.maxResponseCached, a.maxOps, a.maxRequests, 0].flatMap beBytes

def encodeSessionId (id : SessionId) : Bytes :=
  leBytes 8 id.clientid.toNat ++ leBytes 4 id.counter.toNat ++ leBytes 4 id.nonce.toNat

def wantBack (args : CreateArgs) : Bool := args.flags &&& 2 ≠ 0

/-- The success body `op_create_session` encodes and hands over for replay. -/
def sessionBody (args : CreateArgs) (id : SessionId) (session : SessionRec) : Bytes :=
  beBytes 0 ++ encodeSessionId id ++ beBytes args.sequence ++ beBytes (if wantBack args then 2 else 0) ++
    encodeAttrs session.fore ++ encodeAttrs session.back

def newSession (c : ClientRef) (args : CreateArgs) : SessionRec :=
  let fore : ChannelAttrs :=
    { headerpad := 0
      maxRequest := min args.fore.maxRequest cfg.maxIo
      maxResponse := min args.fore.maxResponse cfg.maxIo
      maxResponseCached := min args.fore.maxResponseCached cfg.maxCachedReply
      maxOps := min args.fore.maxOps cfg.maxOps
      maxRequests := if args.fore.maxRequests < 1 then 1 else min args.fore.maxRequests cfg.maxSlots }
  { client := c
    fore := fore
    back := { args.back with maxRequests := 1, maxOps := 2 }
    slots := List.replicate fore.maxRequests.toNat {}
    boundConns := [args.connId]
    cbChan := if wantBack args then some args.connId else none
    cbDown := false }

/-- The engine's checks of the decoded request, then `find_client`. -/
def createSession (args : CreateArgs) : List Frame :=
  if args.flags &&& ~~~7 ≠ 0 then [.reply (.status .inval)]
  else if args.fore.maxRequest < 128 ∨ args.fore.maxResponse < 128 ∨ args.back.maxRequest < 128 ∨
      args.back.maxResponse < 128 then [.reply (.status .toosmall)]
  else
    match s.findClient cfg args.clientid with
    | none => [.reply (.status .staleClientid)]
    | some c => [.createClient c args]

/-- The confirmed record of the same owner that the client is about to replace. -/
def oldIncarnation (c : ClientRef) : Option ClientRef :=
  ((s.byOwner.find (s.clients c).ownerId).getD {}).confirmed.filter (· ≠ c)

def retireOld (c : ClientRef) : Shared :=
  match s.oldIncarnation c with
  | some old => (s.retire old).unindex cfg old
  | none => s

/-- The client takes its owner's confirmed place; the incarnation it replaces is retired. -/
def confirmIncarnation (c : ClientRef) : Shared :=
  let slot := (s.byOwner.find (s.clients c).ownerId).getD {}
  { s.retireOld cfg c with
    byOwner := s.byOwner.put (s.clients c).ownerId
      { confirmed := some c
        unconfirmed := if slot.unconfirmed = some c then none else slot.unconfirmed } }.modClient c
    fun client => { client with confirmed := true }

def addSession (c : ClientRef) (args : CreateArgs) (id : SessionId) : Shared :=
  ({ s with nextSession := s.nextSession + 1 }.modClient c fun client =>
    { client with csSequence := args.sequence + 1, sessions := client.sessions ++ [id] }).renew cfg c

def newSessionId (c : ClientRef) (nonce : UInt32) : SessionId :=
  ⟨(s.clients c).clientid, s.nextSession, nonce⟩

/-- What follows an accepted request: the session is inserted, the old incarnation's sessions and states
are torn down, the reply is stored for replay and sent. -/
def acceptedFrames (c : ClientRef) (args : CreateArgs) (nonce : UInt32) (old : Option ClientRef) :
    List Frame :=
  let id := s.newSessionId c nonce
  let body := sessionBody args id (newSession cfg c args)
  .createInsert id (newSession cfg c args) ::
    ((old.elim [] fun o => (s.clients o).sessions).map Frame.eraseSession ++
      ((old.elim [] fun o => (s.clients o).states).map Frame.reapState ++
        [Frame.confirmCreateSession args.clientid body, .reply (.session body)]))

def createClient (s : Shared) (c : ClientRef) (args : CreateArgs) (nonce : UInt32) : Shared × List Frame :=
  let client := s.clients c
  if client.confirmed = false ∧ client.principal ≠ args.principal then (s, [.reply (.status .clidInuse)])
  else if args.sequence + 1 = client.csSequence ∧ client.confirmed = true then
    (s, [.reply (.session client.csCachedReply)])
  else if args.sequence ≠ client.csSequence then (s, [.reply (.status .seqMisordered)])
  else if client.confirmed then
    (s.addSession cfg c args (s.newSessionId c nonce), s.acceptedFrames cfg c args nonce none)
  else
    ((s.confirmIncarnation cfg c).addSession cfg c args (s.newSessionId c nonce),
      s.acceptedFrames cfg c args nonce (s.oldIncarnation c))

def createInsert (s : Shared) (id : SessionId) (session : SessionRec) : Shared :=
  { s with
    sessions := s.sessions.put id session
    gauges := { s.gauges with sessions := s.gauges.sessions + 1 } }

def eraseSession (id : SessionId) : Shared :=
  match s.sessions.find id with
  | none => s
  | some session =>
    { s with
      sessions := s.sessions.remove id
      erased := s.erased.put id session
      gauges := { s.gauges with sessions := s.gauges.sessions - 1 } }

/-- Looks one of the retired client's states up and drops it. -/
def reapState (other : StateOther) : List Frame :=
  match s.table.find other with
  | none => []
  | some r => [.unlinkState r false false]

def confirmCreateSession (clientid : UInt64) (reply : Bytes) : List Frame :=
  match s.findClient cfg clientid with
  | none => []
  | some c => [.confirmClient c clientid reply]

def confirmClient (s : Shared) (c : ClientRef) (clientid : UInt64) (reply : Bytes) : Shared × List Frame :=
  match s.byId.find (cfg.ownerShard (s.clients c).ownerId, clientid) with
  | none => (s, [])
  | some _ =>
    (s.modClient c fun client => { client with csCachedReply := reply, persisted := true },
      if (s.clients c).persisted then [] else [.persistClient c])

/-! ### DESTROY_SESSION, DESTROY_CLIENTID, BIND_CONN_TO_SESSION, RECLAIM_COMPLETE -/

def destroySession (id : SessionId) (connId : UInt64) : Shared × List Frame :=
  match s.sessions.find id with
  | none => (s, [.reply (.status .badsession)])
  | some session =>
    if connId ∈ session.boundConns then (s.eraseSession id, [.destroySessionClient session.client id])
    else (s, [.reply (.status .connNotBound)])

def destroySessionClient (c : ClientRef) (id : SessionId) : Shared :=
  s.modClient c fun client => { client with sessions := client.sessions.filter (· ≠ id) }

def destroyClientid (clientid : UInt64) : List Frame :=
  match s.findClient cfg clientid with
  | none => [.reply (.status .staleClientid)]
  | some c => [.destroyClient c clientid]

def destroyClient (s : Shared) (c : ClientRef) (clientid : UInt64) : Shared × List Frame :=
  let client := s.clients c
  if s.byId.find (cfg.ownerShard client.ownerId, clientid) ≠ some c then (s, [.reply (.status .staleClientid)])
  else if client.sessions ≠ [] ∨ client.states ≠ [] then (s, [.reply (.status .clientidBusy)])
  else
    ((((s.unpersistClient cfg c).clearSlot c).clearCourtesy c).unindex cfg c,
      [.forgetLockOwners clientid, .reply (.status .ok)])

def forgetLockOwners (clientid : UInt64) : Shared :=
  { s with lockOwners := s.lockOwners.removeIf fun o => (s.clients o.client).clientid == clientid }

def modSession (id : SessionId) (f : SessionRec → SessionRec) : Shared × List Frame :=
  match s.sessions.find id with
  | none => (s, [.reply (.status .badsession)])
  | some session => ({ s with sessions := s.sessions.put id (f session) }, [.reply (.status .ok)])

def bindConn (id : SessionId) (connId : UInt64) : Shared × List Frame :=
  s.modSession id fun session => { session with boundConns := session.boundConns.insert connId }

def bindBackchannel (id : SessionId) (chan : UInt64) : Shared × List Frame :=
  s.modSession id fun session => { session with cbChan := some chan, cbInflight := false, cbDown := false }

def reclaimComplete (clientid : UInt64) : List Frame :=
  match s.findClient cfg clientid with
  | none => [.reply (.status .staleClientid)]
  | some c => [.reclaimClient c clientid]

def reclaimClient (c : ClientRef) (clientid : UInt64) : Shared × List Frame :=
  let client := s.clients c
  match s.byId.find (cfg.ownerShard client.ownerId, clientid) with
  | none => (s, [.reply (.status .staleClientid)])
  | some _ =>
    if client.reclaimComplete then (s, [.reply (.status .completeAlready)])
    else
      (s.modClient c fun client => { client with reclaimComplete := true },
        [.noteReclaimed client.ownerId, .reply (.status .ok)])

/-! ### Leases and expiry -/

def courtesyWindow : Int := cfg.leaseSeconds.toNat * max 1 cfg.courtesyMultiplier.toNat

/-- Pops the due heap entries and returns the clients whose live entry was among them. -/
def popDue (now : Int) : List (Int × UInt64) → Shared → Shared × List ClientRef
  | [], s => ({ s with leaseHeap := [] }, [])
  | (when_, clientid) :: rest, s =>
    if when_ ≤ now then
      match s.clientIdx.find clientid with
      | none => popDue now rest s
      | some c =>
        if (s.clients c).leaseHeapDeadline ≠ when_ then popDue now rest s
        else
          let (s, due) := popDue now rest (s.modClient c fun client => { client with leaseHeapDeadline := -1 })
          (s, c :: due)
    else ({ s with leaseHeap := (when_, clientid) :: rest }, [])

def scanLeases : Shared × List Frame :=
  let (s', due) := popDue s.now s.leaseHeap s
  (s', [.scanDue s.now due []])

/-- The next due client, looked at without its lock. -/
def scanDue (s : Shared) (now : Int) (due : List ClientRef) (timedOut : List UInt64) : Shared × List Frame :=
  match due with
  | [] => (s, timedOut.map (Frame.expireClient · .timeout) ++ [Frame.sweepRecalls])
  | c :: rest =>
    let client := s.clients c
    if client.expired then (s, [.scanDue now rest timedOut])
    else if client.courtesy then
      if now - client.courtesySince ≥ courtesyWindow cfg then (s, [.scanDue now rest (timedOut ++ [client.clientid])])
      else (s.armLeaseCheck c (client.courtesySince + courtesyWindow cfg), [.scanDue now rest timedOut])
    else if client.leaseExpiry > now then (s.armLeaseCheck c client.leaseExpiry, [.scanDue now rest timedOut])
    else (s, [.scanClient now c rest timedOut])

/-- The same client under its lock: it lapses, or becomes a courtesy client. -/
def scanClient (now : Int) (c : ClientRef) (due : List ClientRef) (timedOut : List UInt64) :
    Shared × List Frame :=
  let client := s.clients c
  let s' :=
    if ¬s.Registered cfg c ∨ client.expired then s
    else if client.leaseExpiry > now ∨ client.courtesy then s.armLeaseCheck c (max client.leaseExpiry (now + 1))
    else if !client.confirmed ∨ client.sessions = [] ∧ client.states = [] then
      ((s.unpersistClient cfg c).clearSlot c).unindex cfg c
    else
      ((s.modClient c fun client => { client with courtesy := true, courtesySince := now }).tally fun g =>
        { g with courtesy := g.courtesy + 1 }).armLeaseCheck c (now + courtesyWindow cfg)
  (s', [.scanDue now due timedOut])

def expireClient (clientid : UInt64) (reason : Reason) : List Frame :=
  match s.findClient cfg clientid with
  | none => []
  | some c => [.expireSection c clientid reason]

def expireSection (c : ClientRef) (clientid : UInt64) : Shared × List Frame :=
  let client := s.clients c
  if s.byId.find (cfg.ownerShard client.ownerId, clientid) ≠ some c ∨ client.expired then (s, [])
  else
    (((s.retire c).clearSlot c).unindex cfg c,
      client.states.map Frame.reapState ++
        (client.sessions.map Frame.eraseSession ++ [Frame.unpersistClient c, .forgetLockOwners clientid]))

end Shared

end LightNfs

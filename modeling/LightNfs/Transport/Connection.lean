import LightNfs.Lib.System
import LightNfs.Rpc.Dispatch

/-!
# The read loop of a connection

`connection_main` reads one record after the other. The first one may be the STARTTLS probe, which is
negotiated in the loop itself; every other call becomes a handler task. The loop and the handlers run on one
reactor and take turns where they suspend.
-/

namespace LightNfs

structure ConnConfig where
  maxFragment : Nat := 1048576
  maxRecord : Nat
  maxInflight : Nat
  programs : List Program
  policy : TlsPolicy
  tlsCtx : Bool

/-- Where `connection_main` is suspended. -/
inductive LoopAt where
  | reading
  | negotiating (xid : UInt32)
  | acquiring (rec : Record)
  | ended
deriving DecidableEq

/-- A record a handler has taken up, whether the connection was upgraded then, and what came of it. -/
structure Taken where
  record : Record
  tlsActive : Bool
  handled : Handled
deriving DecidableEq

structure Conn where
  stream : RecordStream
  at_ : LoopAt := .reading
  tlsActive : Bool := false
  probeSeen : Bool := false
  cancelled : Bool := false
  inflight : Nat
  /-- The handlers that were spawned and have not begun. -/
  spawned : List Record := []
  running : Nat := 0
  /-- Every record a handler has taken up so far. -/
  taken : List Taken := []
deriving DecidableEq

def starttlsProbeXid (d : Bytes) : Option UInt32 := do
  let (xid, d) ← Xdr.u32 d
  let (mtype, d) ← Xdr.u32 d
  let (_, d) ← Xdr.u32 d
  -- program and version may be missing from the record without a refusal here
  let d := ((Xdr.u32 d).map Prod.snd).getD d
  let d := ((Xdr.u32 d).map Prod.snd).getD d
  let (proc, d) ← Xdr.u32 d
  let (flavor, _) ← Xdr.u32 d
  if mtype ≠ kCall ∨ proc ≠ 0 ∨ flavor ≠ kAuthTls then none else some xid

/-- An RPC reply answers one of the server's own calls. -/
def isReply (d : Bytes) : Bool :=
  let d := ((Xdr.u32 d).map Prod.snd).getD d
  ((Xdr.u32 d).map Prod.fst) == some kReply

inductive ConnEvent where
  /-- The loop goes on from where it is suspended; the outcomes are those of the negotiation. -/
  | loop (sent made accepted : Bool)
  /-- A spawned handler begins. -/
  | handle (i : Nat)
  /-- A handler ends, with or without an exception. -/
  | finish (failed : Bool)
  /-- A send fails, or the connection is killed. -/
  | cancel
deriving DecidableEq

namespace Conn

variable (cfg : ConnConfig)

def start (socket session : List Recv) : Conn where
  stream := { socket := socket, session := session }
  inflight := cfg.maxInflight

variable (c : Conn)

/-- The probe is the first record or never. -/
def probeXid (rec : Record) : Option UInt32 :=
  if c.probeSeen then none else starttlsProbeXid rec.bytes

def classify (rec : Record) : Conn :=
  if rec.body = [] then c
  else if c.cancelled then { c with at_ := .ended }
  else
    match c.probeXid rec with
    | some xid => { c with probeSeen := true, at_ := .negotiating xid }
    | none =>
      if isReply rec.bytes then { c with probeSeen := true }
      else { c with probeSeen := true, at_ := .acquiring rec }

def read : Conn :=
  match c.stream.readRecord cfg.maxFragment cfg.maxRecord with
  | .error .blocked => c
  | .error (.errno _) => { c with at_ := .ended }
  | .ok (rec, stream) => { c with stream := stream }.classify rec

/-- TLS is offered. -/
def offers : Bool := cfg.tlsCtx && cfg.policy ≠ .kOff

/-- `negotiate_starttls` and the test behind it. -/
def negotiate (sent made accepted : Bool) : Conn :=
  let c := if sent then c else { c with cancelled := true }
  let c :=
    if !offers cfg then c
    else if !made ∨ !accepted then { c with cancelled := true }
    else { c with tlsActive := true, stream := c.stream.setTls }
  { c with at_ := if c.cancelled then .ended else .reading }

/-- The loop takes one of the connection's permits and spawns the handler. -/
def acquire (rec : Record) : Conn :=
  if c.inflight = 0 then c
  else { c with inflight := c.inflight - 1, spawned := c.spawned ++ [rec], at_ := .reading }

def handle (i : Nat) : Conn :=
  match c.spawned[i]? with
  | none => c
  | some rec =>
    { c with
      spawned := c.spawned.eraseIdx i
      running := c.running + 1
      taken := c.taken ++ [⟨rec, c.tlsActive, handleRequest cfg.programs cfg.policy c.tlsActive rec.bytes⟩] }

def finish (failed : Bool) : Conn :=
  if c.running = 0 then c
  else { c with running := c.running - 1, inflight := c.inflight + 1, cancelled := c.cancelled || failed }

def step : ConnEvent → Conn
  | .loop sent made accepted =>
    match c.at_ with
    | .reading => c.read cfg
    | .negotiating _ => c.negotiate cfg sent made accepted
    | .acquiring rec => c.acquire rec
    | .ended => c
  | .handle i => c.handle cfg i
  | .finish failed => c.finish failed
  | .cancel => { c with cancelled := true }

end Conn

def connection (cfg : ConnConfig) : System Conn ConnEvent := ⟨fun c e => c.step cfg e⟩

/-! ### Cleartext never passes for TLS traffic -/

/-- Every byte of the record, markers included, came out of the TLS session. -/
def Record.FromTls (rec : Record) : Prop := ∀ o ∈ rec.octets, o.fromTls = true

instance (rec : Record) : Decidable rec.FromTls := inferInstanceAs (Decidable (∀ o ∈ rec.octets, _))

/-- Under the policy `required` every call that reaches a program, NULL apart, is TLS plaintext throughout, and no
record with a cleartext byte is taken for a request once the connection is upgraded. -/
structure Conn.Protected (cfg : ConnConfig) (c : Conn) : Prop where
  dispatched : cfg.policy = .kRequired → ∀ t ∈ c.taken, ∀ program call cred,
    t.handled = .dispatched program call cred → call.proc ≠ 0 → t.record.FromTls
  upgraded : ∀ t ∈ c.taken, t.tlsActive = true → t.record.FromTls

/-- The handshake succeeds with nothing buffered behind the probe. -/
def Conn.UpgradesClean (cfg : ConnConfig) (c : Conn) (e : ConnEvent) : Prop :=
  match c.at_, e with
  | .negotiating _, .loop _ made accepted =>
    Conn.offers cfg = true ∧ made = true ∧ accepted = true → c.stream.unread = []
  | _, _ => True

instance (cfg : ConnConfig) (c : Conn) (e : ConnEvent) : Decidable (c.UpgradesClean cfg e) := by
  unfold Conn.UpgradesClean
  split <;> infer_instance

namespace Conn

variable {cfg : ConnConfig} {c : Conn}

/-- The invariant of the loop: an upgrade can only happen before the first handler is spawned, and from then on
the buffer, the queued records and the one being handed over are TLS plaintext. -/
structure Guarded (cfg : ConnConfig) (c : Conn) : Prop where
  unprobed : c.probeSeen = false → c.at_ = .reading ∨ c.at_ = .ended
  early : c.probeSeen = false ∨ (∃ xid, c.at_ = .negotiating xid) → c.spawned = [] ∧ c.tlsActive = false
  stream : c.stream.tls = c.tlsActive
  buffered : c.tlsActive = true → ∀ o ∈ c.stream.unread, o.fromTls = true
  spawned : c.tlsActive = true → ∀ rec ∈ c.spawned, rec.FromTls
  acquiring : c.tlsActive = true → ∀ rec, c.at_ = .acquiring rec → rec.FromTls
  taken : ∀ t ∈ c.taken, t.tlsActive = true → t.record.FromTls
  handled : ∀ t ∈ c.taken, t.handled = handleRequest cfg.programs cfg.policy t.tlsActive t.record.bytes

theorem Guarded.start (socket session : List Recv) : Guarded cfg (start cfg socket session) where
  unprobed _ := Or.inl rfl
  early _ := ⟨rfl, rfl⟩
  stream := rfl
  buffered h := by cases h
  spawned h := by cases h
  acquiring h := by cases h
  taken := by simp [Conn.start]
  handled := by simp [Conn.start]

theorem classify_cases (c : Conn) (rec : Record) :
    c.classify rec = c ∨ c.classify rec = { c with at_ := .ended } ∨
      (c.probeSeen = false ∧ ∃ xid, c.classify rec = { c with probeSeen := true, at_ := .negotiating xid }) ∨
      c.classify rec = { c with probeSeen := true } ∨
      c.classify rec = { c with probeSeen := true, at_ := .acquiring rec } := by
  unfold classify
  split
  · exact Or.inl rfl
  · split
    · exact Or.inr (Or.inl rfl)
    · split
      · next xid hprobe =>
        refine Or.inr (Or.inr (Or.inl ⟨?_, xid, rfl⟩))
        by_contra hseen
        simp [probeXid, hseen] at hprobe
      · split
        · exact Or.inr (Or.inr (Or.inr (Or.inl rfl)))
        · exact Or.inr (Or.inr (Or.inr (Or.inr rfl)))

theorem Guarded.classify (h : Guarded cfg c) (hat : c.at_ = .reading) {rec : Record}
    (hrec : c.tlsActive = true → rec.FromTls) : Guarded cfg (c.classify rec) := by
  obtain heq | heq | ⟨hseen, xid, heq⟩ | heq | heq := c.classify_cases rec
  · rwa [heq]
  · rw [heq]
    exact { h with
      unprobed := fun _ => Or.inr rfl
      early := fun he => h.early (he.imp_right (by simp))
      acquiring := by simp }
  · rw [heq]
    exact { h with
      unprobed := by simp
      early := fun _ => h.early (Or.inl hseen)
      acquiring := by simp }
  · rw [heq]
    exact { h with
      unprobed := by simp
      early := by simp [hat]
      acquiring := by simp [hat] }
  · rw [heq]
    refine { h with unprobed := by simp, early := by simp, acquiring := fun htls rec' hat' => ?_ }
    cases hat'
    exact hrec htls

theorem Guarded.read (h : Guarded cfg c) (hat : c.at_ = .reading) : Guarded cfg (c.read cfg) := by
  unfold Conn.read
  split
  · exact h
  · exact { h with
      unprobed := fun _ => Or.inr rfl
      early := fun he => h.early (he.imp_right (by simp))
      acquiring := by simp }
  · next rec s hread =>
    have hsupply : c.tlsActive = true → (∀ o ∈ rec.octets, o.fromTls = true) ∧ ∀ o ∈ s.unread, o.fromTls = true := by
      intro htls
      have hfrom : c.stream.Supplies fun o => o.fromTls = true := ⟨h.buffered htls, fun _ => h.stream.trans htls⟩
      obtain ⟨hrec, hs, -⟩ := RecordStream.readRecord_supplies hfrom hread
      exact ⟨hrec, hs.buffered⟩
    have hany : c.stream.Supplies fun o => o.fromTls = true ∨ True := ⟨by simp, by simp⟩
    obtain ⟨-, -, htls⟩ := RecordStream.readRecord_supplies hany hread
    have hnext : Guarded cfg { c with stream := s } :=
      { h with stream := htls.trans h.stream, buffered := fun hactive => (hsupply hactive).2 }
    exact hnext.classify hat fun hactive => (hsupply hactive).1

theorem negotiate_cases (cfg : ConnConfig) (c : Conn) (sent made accepted : Bool) :
    (∃ cancelled, c.negotiate cfg sent made accepted =
      { c with cancelled := cancelled, at_ := if cancelled then .ended else .reading }) ∨
    (offers cfg = true ∧ made = true ∧ accepted = true) ∧ ∃ cancelled, c.negotiate cfg sent made accepted =
      { c with
        cancelled := cancelled, tlsActive := true, stream := c.stream.setTls
        at_ := if cancelled then .ended else .reading } := by
  unfold negotiate
  by_cases hoffer : offers cfg = true ∧ made = true ∧ accepted = true
  · refine Or.inr ⟨hoffer, if sent then c.cancelled else true, ?_⟩
    cases sent <;> simp [hoffer]
  · left
    by_cases hoff : offers cfg = true
    · have hfail : made = false ∨ accepted = false := by
        cases made <;> cases accepted <;> simp_all
      refine ⟨true, ?_⟩
      cases sent <;> simp [hoff, hfail]
    · refine ⟨if sent then c.cancelled else true, ?_⟩
      cases sent <;> simp [hoff]

theorem Guarded.negotiate (h : Guarded cfg c) {xid : UInt32} (hat : c.at_ = .negotiating xid)
    {sent made accepted : Bool} (hclean : c.UpgradesClean cfg (.loop sent made accepted)) :
    Guarded cfg (c.negotiate cfg sent made accepted) := by
  obtain ⟨hspawned, hactive⟩ := h.early (Or.inr ⟨xid, hat⟩)
  have hseen : c.probeSeen = true := by
    by_contra hseen
    have := h.unprobed (by simpa using hseen)
    simp [hat] at this
  obtain ⟨cancelled, heq⟩ | ⟨hup, cancelled, heq⟩ := negotiate_cases cfg c sent made accepted
  · rw [heq]
    refine { h with unprobed := ?_, early := fun _ => ⟨hspawned, hactive⟩, acquiring := ?_ }
    · simp [hseen]
    · simp [hactive]
  · have hempty : c.stream.unread = [] := by
      simp only [UpgradesClean, hat] at hclean
      exact hclean hup
    rw [heq]
    exact
      { unprobed := by simp [hseen]
        early := by cases cancelled <;> simp [hseen]
        stream := rfl
        buffered := by simp [RecordStream.setTls, hempty]
        spawned := by simp [hspawned]
        acquiring := by cases cancelled <;> simp
        taken := h.taken
        handled := h.handled }

theorem Guarded.acquire (h : Guarded cfg c) {rec : Record} (hat : c.at_ = .acquiring rec) :
    Guarded cfg (c.acquire rec) := by
  have hseen : c.probeSeen = true := by
    by_contra hseen
    have := h.unprobed (by simpa using hseen)
    simp [hat] at this
  unfold Conn.acquire
  split
  · exact h
  · refine { h with unprobed := by simp [hseen], early := by simp [hseen], acquiring := by simp, spawned := ?_ }
    intro hactive rec' hrec'
    rcases List.mem_append.mp hrec' with hold | hnew
    · exact h.spawned hactive rec' hold
    · rw [List.mem_singleton.mp hnew]
      exact h.acquiring hactive rec hat

theorem Guarded.handle (h : Guarded cfg c) (i : Nat) : Guarded cfg (c.handle cfg i) := by
  unfold Conn.handle
  split
  · exact h
  · next rec hrec =>
    have hmem : rec ∈ c.spawned := List.mem_of_getElem? hrec
    have hlate : ¬(c.probeSeen = false ∨ ∃ xid, c.at_ = .negotiating xid) := by
      intro he
      simp [(h.early he).1] at hmem
    refine { h with early := fun he => absurd he hlate, spawned := ?_, taken := ?_, handled := ?_ }
    · exact fun hactive rec' hrec' => h.spawned hactive rec' (List.mem_of_mem_eraseIdx hrec')
    · intro t ht hactive
      rcases List.mem_append.mp ht with hold | hnew
      · exact h.taken t hold hactive
      · obtain rfl := List.mem_singleton.mp hnew
        exact h.spawned hactive rec hmem
    · intro t ht
      rcases List.mem_append.mp ht with hold | hnew
      · exact h.handled t hold
      · obtain rfl := List.mem_singleton.mp hnew
        rfl

theorem Guarded.step (h : Guarded cfg c) (e : ConnEvent) (hclean : c.UpgradesClean cfg e) :
    Guarded cfg (c.step cfg e) := by
  cases e with
  | loop sent made accepted =>
    simp only [Conn.step]
    split
    · next hat => exact h.read hat
    · next hat => exact h.negotiate hat hclean
    · next rec hat => exact h.acquire hat
    · exact h
  | handle i => exact h.handle i
  | finish failed =>
    simp only [Conn.step, Conn.finish]
    split
    · exact h
    · exact { h with }
  | cancel => exact { h with }

theorem Guarded.protected (h : Guarded cfg c) : c.Protected cfg where
  dispatched := by
    intro hpolicy t ht program call cred hdispatched hproc
    rw [h.handled t ht, hpolicy] at hdispatched
    exact h.taken t ht (tlsActive_of_dispatched hdispatched hproc)
  upgraded := h.taken

end Conn

/-- On every connection on which nothing is buffered behind the STARTTLS probe when the handshake succeeds, however
the peer's bytes are split over the receive calls, cleartext is never served as TLS traffic. -/
theorem cleartext_never_served_as_tls (cfg : ConnConfig) (socket session : List Recv) {events : List ConnEvent}
    (hclean : (connection cfg).Meets (Conn.UpgradesClean cfg) (Conn.start cfg socket session) events) :
    ((connection cfg).run (Conn.start cfg socket session) events).Protected cfg :=
  (System.run_keeps (fun _ e h hguard => h.step e hguard) (Conn.Guarded.start socket session) hclean).protected

/-! ### A peer that sends on behind the probe -/

/-- A record with one call of the NFS program: AUTH_TLS and NULL make it the probe. -/
def callRecord (xid proc flavor : UInt32) : Bytes :=
  [0x80000028, xid, kCall, kRpcVersion, 100003, 4, proc, flavor, 0, 0, 0].flatMap fun w => (leBytes 4 w.toNat).reverse

/-- One receive call returns all of the bytes. -/
def inOnePiece : Bytes → List Recv
  | [] => []
  | b :: bs => [.data b bs]

def tlsOnly : ConnConfig where
  maxRecord := 1048576
  maxInflight := 8
  programs := [⟨100003, 3, 4⟩]
  policy := .kRequired
  tlsCtx := true

/-- The probe is read and negotiated; the next record is read, handed over and taken up. -/
def probeThenCall : List ConnEvent :=
  [.loop true true true, .loop true true true, .loop true true true, .loop true true true, .handle 0]

theorem cleartext_never_served_as_tls_call_in_session :
    ((connection tlsOnly).run (Conn.start tlsOnly (inOnePiece (callRecord 1 0 kAuthTls)) (inOnePiece (callRecord 2 1 0)))
        probeThenCall).taken.map (fun t => (t.tlsActive, t.record.octets.all Octet.fromTls)) = [(true, true)] ∧
      ((connection tlsOnly).run (Conn.start tlsOnly (inOnePiece (callRecord 1 0 kAuthTls)) (inOnePiece (callRecord 2 1 0)))
        probeThenCall).Protected tlsOnly := by
  have hclean : (connection tlsOnly).Meets (Conn.UpgradesClean tlsOnly)
      (Conn.start tlsOnly (inOnePiece (callRecord 1 0 kAuthTls)) (inOnePiece (callRecord 2 1 0))) probeThenCall := by
    decide +kernel
  exact ⟨by decide +kernel, cleartext_never_served_as_tls tlsOnly _ _ hclean⟩

/-- The peer sends a call in the same segment as the probe. It stays in the buffer across the handshake and is then
dispatched as a call of the upgraded connection, without a byte of it having been protected. -/
theorem cleartext_behind_probe_dispatched :
    ((connection tlsOnly).run (Conn.start tlsOnly (inOnePiece (callRecord 1 0 kAuthTls ++ callRecord 2 1 0)) [])
        probeThenCall).taken.map (fun t => (t.tlsActive, t.record.octets.any Octet.fromTls, t.handled)) =
      [(true, false, .dispatched ⟨100003, 3, 4⟩ ⟨2, 2, 100003, 4, 1, ⟨0, []⟩, ⟨0, []⟩, []⟩ { anonymous := true })] ∧
      ¬((connection tlsOnly).run (Conn.start tlsOnly (inOnePiece (callRecord 1 0 kAuthTls ++ callRecord 2 1 0)) [])
        probeThenCall).Protected tlsOnly := by
  refine ⟨by decide +kernel, fun h => ?_⟩
  have hall : ∀ t ∈ ((connection tlsOnly).run
      (Conn.start tlsOnly (inOnePiece (callRecord 1 0 kAuthTls ++ callRecord 2 1 0)) []) probeThenCall).taken,
      t.tlsActive = true → t.record.FromTls := h.upgraded
  exact absurd hall (by decide +kernel)

end LightNfs

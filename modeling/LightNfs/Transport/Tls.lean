import LightNfs.Basic
import LightNfs.Lib.Buffer
import LightNfs.Lib.Machine

/-!
# Ciphertext on a TLS connection

`transport/tls.cpp`: the read loop and the writers of one connection run as coroutines. Each of them drains the
outgoing BIO under `send_mu_` and may have to receive; a socket operation may use its buffer at any moment until
it completes. Both directions go through the connection's one scratch buffer, so the ciphertext is carried
unchanged as long as no call goes to the socket while another one's operation is pending there.
-/

namespace LightNfs

/-- The size of `netbuf_`. -/
def kNetbuf : Nat := 16384

/-- `TlsConn`, with the bytes received, fed to the incoming BIO, drained from the outgoing BIO and accepted by
the socket so far. -/
structure Tls where
  netbuf : Nat → UInt8 := fun _ => 0
  wbio : Bytes := []
  /-- `send_mu_` is held. -/
  sending : Bool := false
  /-- A send has failed; the socket takes nothing any more. -/
  broken : Bool := false
  received : Bytes := []
  fed : Bytes := []
  drained : Bytes := []
  accepted : Bytes := []

inductive TlsNext where
  | read
  | feedRead
  | write (left : Nat)
  | feedWrite (left : Nat)
  | stop
deriving DecidableEq

inductive TlsFrame where
  /-- `SSL_read` in the loop of `read`. -/
  | sslRead
  /-- `SSL_write` with so many bytes to go. -/
  | sslWrite (left : Nat)
  /-- `flush_out`, before it has the lock. -/
  | flush (next : TlsNext)
  /-- A send of the bytes from `sent` up to `pending`; the socket has read `taken` of them. -/
  | send (sent taken pending : Nat) (next : TlsNext)
  /-- A receive in `feed_in`; the socket has filled `filled` bytes. -/
  | recv (filled : Nat) (next : TlsNext)
deriving DecidableEq

inductive SslResult where
  | ok (n : Nat)
  | wantRead
  | wantWrite
  | closed
  | failed

/-- What happens to a call: OpenSSL returns and leaves ciphertext, the socket uses the buffer of a pending
operation, or the operation completes. One that completes without any byte was interrupted and is repeated. -/
inductive TlsInput where
  | ssl (result : SslResult) (emitted : Bytes)
  | filled (chunk : Bytes)
  | took (n : Nat)
  | complete
  | fail

namespace TlsNext

/-- The call goes on with a receive. -/
def feeds : TlsNext → Bool
  | feedRead | feedWrite _ => true
  | _ => false

def resume : TlsNext → List TlsFrame
  | read => [.sslRead]
  | feedRead => [.recv 0 .read]
  | write left => [.sslWrite left]
  | feedWrite left => [.recv 0 (.write left)]
  | stop => []

end TlsNext

namespace Tls

def drain (s : Tls) (next : TlsNext) : Tls × List TlsFrame :=
  if s.wbio = [] then ({ s with sending := false }, next.resume)
  else
    let out := s.wbio.take kNetbuf
    ({ s with netbuf := Buffer.fill s.netbuf 0 out, wbio := s.wbio.drop kNetbuf, drained := s.drained ++ out },
      [.send 0 0 out.length next])

def afterRead : SslResult → List TlsFrame
  | .ok _ | .wantWrite => [.flush .read]
  | .wantRead => [.flush .feedRead]
  | .closed => []
  | .failed => [.flush .stop]

def afterWrite (left : Nat) : SslResult → List TlsFrame
  | .ok n => [.flush (.write (left - n))]
  | .wantWrite => [.flush (.write left)]
  | .wantRead => [.flush (.feedWrite left)]
  | .closed | .failed => [.flush .stop]

def emit (s : Tls) (emitted : Bytes) : Tls := { s with wbio := s.wbio ++ emitted }

def execSend (s : Tls) (input : TlsInput) (sent taken pending : Nat) (next : TlsNext) : Tls × List TlsFrame :=
  match input with
  | .took n =>
    let m := min n (pending - (sent + taken))
    if s.broken then (s, [.send sent taken pending next])
    else
      ({ s with accepted := s.accepted ++ Buffer.slice s.netbuf (sent + taken) m }, [.send sent (taken + m) pending next])
  | .complete => if sent + taken < pending then (s, [.send (sent + taken) 0 pending next]) else s.drain next
  | .fail => if taken = 0 then ({ s with sending := false, broken := true }, []) else (s, [.send sent taken pending next])
  | _ => (s, [.send sent taken pending next])

def execRecv (s : Tls) (input : TlsInput) (filled : Nat) (next : TlsNext) : Tls × List TlsFrame :=
  match input with
  | .filled chunk =>
    let got := chunk.take (kNetbuf - filled)
    ({ s with netbuf := Buffer.fill s.netbuf filled got, received := s.received ++ got }, [.recv (filled + got.length) next])
  | .complete =>
    if filled = 0 then (s, [.recv 0 next])
    else ({ s with fed := s.fed ++ Buffer.slice s.netbuf 0 filled }, next.resume)
  -- An error, or the end of the stream.
  | .fail => if filled = 0 then (s, []) else (s, [.recv filled next])
  | _ => (s, [.recv filled next])

def exec (input : TlsInput) (frame : TlsFrame) (s : Tls) : Tls × List TlsFrame :=
  match frame with
  | .sslRead =>
    match input with
    | .ssl result emitted => (s.emit emitted, afterRead result)
    | _ => (s, [.sslRead])
  | .sslWrite left =>
    if left = 0 then (s, [])
    else
      match input with
      | .ssl result emitted => (s.emit emitted, afterWrite left result)
      | _ => (s, [.sslWrite left])
  | .flush next => if s.sending then (s, [.flush next]) else { s with sending := true }.drain next
  | .send sent taken pending next => s.execSend input sent taken pending next
  | .recv filled next => s.execRecv input filled next

end Tls

def tlsConn : Machine Tls TlsFrame TlsInput := ⟨Tls.exec⟩

/-! ### Bytes under way -/

namespace TlsFrame

/-- The frame has a socket operation pending on the scratch buffer. -/
def usesNetbuf : TlsFrame → Bool
  | send .. | recv .. => true
  | _ => false

/-- Received and not yet fed. -/
def unfed (s : Tls) : TlsFrame → Bytes
  | recv filled _ => Buffer.slice s.netbuf 0 filled
  | _ => []

/-- Drained and not yet accepted. -/
def unsent (s : Tls) : TlsFrame → Bytes
  | send sent taken pending _ => Buffer.slice s.netbuf (sent + taken) (pending - (sent + taken))
  | _ => []

/-- A send does not go beyond what was drained for it. -/
def bounded : TlsFrame → Prop
  | send sent taken pending _ => sent + taken ≤ pending
  | _ => True

theorem unfed_eq_nil {f : TlsFrame} (h : f.usesNetbuf = false) (s : Tls) : f.unfed s = [] := by
  cases f <;> first | rfl | cases h

theorem unsent_eq_nil {f : TlsFrame} (h : f.usesNetbuf = false) (s : Tls) : f.unsent s = [] := by
  cases f <;> first | rfl | cases h

end TlsFrame

/-- Both directions are carried unchanged: what was fed to the incoming BIO is what was received, up to what a
receive has still to hand over, and what the socket accepted is what was drained, up to what is being sent. -/
structure Carried (s : Tls) (unfed unsent : Bytes) : Prop where
  incoming : s.fed ++ unfed = s.received
  outgoing : s.broken = false → s.accepted ++ unsent = s.drained
  accepted_prefix : s.accepted <+: s.drained

/-- The same of all calls together, with at most one socket operation pending. -/
structure Orderly (s : Tls) (frames : List TlsFrame) : Prop where
  carried : Carried s (frames.flatMap (TlsFrame.unfed s)) (frames.flatMap (TlsFrame.unsent s))
  one : frames.countP TlsFrame.usesNetbuf ≤ 1
  bounded : ∀ f ∈ frames, f.bounded

section Steps

variable {s s' : Tls} {frames pre post next : List TlsFrame} {f : TlsFrame} {k : TlsNext}

theorem flatMap_unfed_idle (h : ∀ g ∈ frames, g.usesNetbuf = false) : frames.flatMap (TlsFrame.unfed s) = [] :=
  List.flatMap_eq_nil_iff.mpr fun g hg => TlsFrame.unfed_eq_nil (h g hg) s

theorem flatMap_unsent_idle (h : ∀ g ∈ frames, g.usesNetbuf = false) : frames.flatMap (TlsFrame.unsent s) = [] :=
  List.flatMap_eq_nil_iff.mpr fun g hg => TlsFrame.unsent_eq_nil (h g hg) s

theorem Orderly.around (h : Orderly s next) (hidle : ∀ g ∈ pre ++ post, g.usesNetbuf = false)
    (hbounded : ∀ g ∈ pre ++ post, g.bounded) : Orderly s (pre ++ (next ++ post)) := by
  have hpre : ∀ g ∈ pre, g.usesNetbuf = false := fun g hg => hidle g (List.mem_append_left _ hg)
  have hpost : ∀ g ∈ post, g.usesNetbuf = false := fun g hg => hidle g (List.mem_append_right _ hg)
  refine ⟨?_, ?_, ?_⟩
  · simpa [flatMap_unfed_idle hpre, flatMap_unfed_idle hpost, flatMap_unsent_idle hpre, flatMap_unsent_idle hpost]
      using h.carried
  · have hnone : ∀ l : List TlsFrame, (∀ g ∈ l, g.usesNetbuf = false) → l.countP TlsFrame.usesNetbuf = 0 :=
      fun l hl => List.countP_eq_zero.mpr fun g hg => by simp [hl g hg]
    simpa [List.countP_append, hnone pre hpre, hnone post hpost] using h.one
  · intro g hg
    rcases Machine.new_or_waiting hg with hg | hg
    · exact h.bounded g hg
    · exact hbounded g hg

theorem Orderly.alone (h : Orderly s (pre ++ f :: post)) (hf : f.usesNetbuf = true) :
    (∀ g ∈ pre ++ post, g.usesNetbuf = false) ∧ Carried s (f.unfed s) (f.unsent s) := by
  have hzero : (pre ++ post).countP TlsFrame.usesNetbuf = 0 := by
    have hone := h.one
    simp only [List.countP_append, List.countP_cons, hf, if_true] at hone ⊢
    omega
  have hidle : ∀ g ∈ pre ++ post, g.usesNetbuf = false := fun g hg => by
    simpa using List.countP_eq_zero.mp hzero g hg
  have hpre : ∀ g ∈ pre, g.usesNetbuf = false := fun g hg => hidle g (List.mem_append_left _ hg)
  have hpost : ∀ g ∈ post, g.usesNetbuf = false := fun g hg => hidle g (List.mem_append_right _ hg)
  refine ⟨hidle, ?_⟩
  simpa [flatMap_unfed_idle hpre, flatMap_unfed_idle hpost, flatMap_unsent_idle hpre, flatMap_unsent_idle hpost]
    using h.carried

theorem Orderly.waiting (h : Orderly s (pre ++ f :: post)) : ∀ g ∈ pre ++ post, g.bounded :=
  fun g hg => h.bounded g (Machine.mem_of_waiting hg)

theorem Orderly.pass (h : Orderly s (pre ++ f :: post)) (hf : f.usesNetbuf = false)
    (hnext : ∀ g ∈ next, g.usesNetbuf = false) (hbuf : s'.netbuf = s.netbuf) (hbroken : s'.broken = s.broken)
    (hin : s'.fed = s.fed ∧ s'.received = s.received) (hout : s'.accepted = s.accepted ∧ s'.drained = s.drained) :
    Orderly s' (pre ++ (next ++ post)) := by
  have hunfed : ∀ g : TlsFrame, g.unfed s' = g.unfed s := fun g => by cases g <;> simp [TlsFrame.unfed, hbuf]
  have hunsent : ∀ g : TlsFrame, g.unsent s' = g.unsent s := fun g => by cases g <;> simp [TlsFrame.unsent, hbuf]
  have hskip : ∀ l : List TlsFrame, l.flatMap (TlsFrame.unfed s') = l.flatMap (TlsFrame.unfed s) ∧
      l.flatMap (TlsFrame.unsent s') = l.flatMap (TlsFrame.unsent s) := fun l =>
    ⟨List.flatMap_congr fun g _ => hunfed g, List.flatMap_congr fun g _ => hunsent g⟩
  have hcarried := h.carried
  simp only [List.flatMap_append, List.flatMap_cons, TlsFrame.unfed_eq_nil hf, TlsFrame.unsent_eq_nil hf,
    List.nil_append] at hcarried
  refine ⟨?_, ?_, ?_⟩
  · simp only [List.flatMap_append, flatMap_unfed_idle hnext, flatMap_unsent_idle hnext, List.nil_append,
      (hskip _).1, (hskip _).2]
    exact ⟨by rw [hin.1, hin.2]; exact hcarried.incoming,
      fun hs => by rw [hout.1, hout.2]; exact hcarried.outgoing (hbroken ▸ hs),
      by rw [hout.1, hout.2]; exact hcarried.accepted_prefix⟩
  · have hone := h.one
    have hzero : next.countP TlsFrame.usesNetbuf = 0 := List.countP_eq_zero.mpr fun g hg => by simp [hnext g hg]
    simp only [List.countP_append, List.countP_cons, hf, hzero] at hone ⊢
    simpa using hone
  · intro g hg
    rcases Machine.new_or_waiting hg with hg | hg
    · cases g with
      | send => exact absurd (hnext _ hg) (by simp [TlsFrame.usesNetbuf])
      | _ => trivial
    · exact h.waiting g hg

theorem orderly_resume (h : Carried s [] []) : Orderly s k.resume := by
  cases k <;> exact ⟨by simpa [TlsNext.resume, TlsFrame.unfed, TlsFrame.unsent] using h,
    by simp [TlsNext.resume, TlsFrame.usesNetbuf], by simp [TlsNext.resume, TlsFrame.bounded]⟩

theorem orderly_drain (h : Carried s [] []) : Orderly (s.drain k).1 (s.drain k).2 := by
  unfold Tls.drain
  split
  · exact orderly_resume ⟨h.incoming, h.outgoing, h.accepted_prefix⟩
  · refine ⟨⟨?_, ?_, ?_⟩, by simp [TlsFrame.usesNetbuf], by simp [TlsFrame.bounded]⟩
    · simpa [TlsFrame.unfed] using h.incoming
    · intro hs
      have hsame : s.accepted = s.drained := by simpa using h.outgoing hs
      have hout := Buffer.slice_fill_self s.netbuf 0 (s.wbio.take kNetbuf)
      simpa [TlsFrame.unsent, hsame] using hout
    · exact h.accepted_prefix.trans (List.prefix_append _ _)

theorem orderly_execSend {input : TlsInput} {sent taken pending : Nat} (hle : sent + taken ≤ pending)
    (h : Carried s [] (Buffer.slice s.netbuf (sent + taken) (pending - (sent + taken)))) :
    Orderly (s.execSend input sent taken pending k).1 (s.execSend input sent taken pending k).2 := by
  have hstay : Orderly s [.send sent taken pending k] :=
    ⟨by simpa [TlsFrame.unfed, TlsFrame.unsent] using h, by simp [TlsFrame.usesNetbuf], by simpa [TlsFrame.bounded]⟩
  cases input with
  | took n =>
    simp only [Tls.execSend]
    split
    · exact hstay
    · rename_i hbroken
      generalize hm : min n (pending - (sent + taken)) = m
      have hsplit : pending - (sent + taken) = m + (pending - (sent + (taken + m))) := by omega
      have hwhole := h.outgoing (by simpa using hbroken)
      rw [hsplit, Buffer.slice_add, ← List.append_assoc] at hwhole
      refine ⟨⟨by simpa [TlsFrame.unfed] using h.incoming, fun _ => ?_, ?_⟩, by simp [TlsFrame.usesNetbuf], ?_⟩
      · simpa [TlsFrame.unsent, Nat.add_assoc] using hwhole
      · exact ⟨_, hwhole⟩
      · simp only [List.mem_singleton, forall_eq, TlsFrame.bounded]
        omega
  | complete =>
    simp only [Tls.execSend]
    split
    · exact ⟨by simpa [TlsFrame.unfed, TlsFrame.unsent] using h, by simp [TlsFrame.usesNetbuf],
        by simpa [TlsFrame.bounded] using hle⟩
    · have hnone : pending - (sent + taken) = 0 := by omega
      rw [hnone, Buffer.slice_zero] at h
      exact orderly_drain h
  | fail =>
    simp only [Tls.execSend]
    split
    · exact ⟨⟨by simpa using h.incoming, by simp, h.accepted_prefix⟩, by simp, by simp⟩
    · exact hstay
  | ssl _ _ => exact hstay
  | filled _ => exact hstay

theorem orderly_execRecv {input : TlsInput} {filled : Nat} (h : Carried s (Buffer.slice s.netbuf 0 filled) []) :
    Orderly (s.execRecv input filled k).1 (s.execRecv input filled k).2 := by
  have hstay : Orderly s [.recv filled k] :=
    ⟨by simpa [TlsFrame.unfed, TlsFrame.unsent] using h, by simp [TlsFrame.usesNetbuf], by simp [TlsFrame.bounded]⟩
  cases input with
  | filled chunk =>
    simp only [Tls.execRecv]
    generalize chunk.take (kNetbuf - filled) = got
    refine ⟨⟨?_, by simpa [TlsFrame.unsent] using h.outgoing, h.accepted_prefix⟩, by simp [TlsFrame.usesNetbuf],
      by simp [TlsFrame.bounded]⟩
    have hread : Buffer.slice (Buffer.fill s.netbuf filled got) 0 (filled + got.length) =
        Buffer.slice s.netbuf 0 filled ++ got := by
      rw [Buffer.slice_add, Buffer.slice_fill_below, Nat.zero_add, Buffer.slice_fill_self]
    simp only [List.flatMap_singleton, TlsFrame.unfed, hread]
    rw [← List.append_assoc, h.incoming]
  | complete =>
    simp only [Tls.execRecv]
    split
    · rename_i hzero
      exact hzero ▸ hstay
    · exact orderly_resume ⟨by simpa using h.incoming, by simpa using h.outgoing, h.accepted_prefix⟩
  | fail =>
    simp only [Tls.execRecv]
    split
    · rename_i hzero
      subst hzero
      exact ⟨by simpa using h, by simp, by simp⟩
    · exact hstay
  | ssl _ _ => exact hstay
  | took _ => exact hstay

end Steps

/-! ### Runs -/

/-- The calls of a connection: its read loop and its writers. -/
def TlsFrame.isCall : TlsFrame → Bool
  | sslRead | sslWrite _ => true
  | _ => false

/-- Calls arrive in any order and take any steps. -/
abbrev tlsCalls : Machine.Rules Tls TlsFrame TlsInput where
  spawn _ _ f := f.isCall = true
  step _ _ _ _ := True

/-- The call is about to drain into the scratch buffer or to receive into it. -/
def Tls.goesToSocket (s : Tls) : TlsFrame → Bool
  | .flush next => !s.sending && (s.wbio != [] || next.feeds)
  | _ => false

/-- A call goes to the socket only while no other call has an operation pending there. -/
abbrev netbufFree : Machine.Rules Tls TlsFrame TlsInput where
  spawn _ _ f := f.isCall = true
  step s frames _ f := s.goesToSocket f = true → ∀ g ∈ frames, g.usesNetbuf = false

instance (s : Tls) (frames : List TlsFrame) (input : TlsInput) (f : TlsFrame) :
    Decidable (netbufFree.step s frames input f) := inferInstanceAs (Decidable (_ → _))

theorem Orderly.spawn {s : Tls} {frames : List TlsFrame} {f : TlsFrame} (h : Orderly s frames)
    (hcall : f.isCall = true) : Orderly s (frames ++ [f]) := by
  cases f with
  | sslRead | sslWrite _ =>
    exact ⟨by simpa [TlsFrame.unfed, TlsFrame.unsent] using h.carried,
      by simpa [List.countP_append, TlsFrame.usesNetbuf] using h.one,
      by simpa [or_imp, forall_and, TlsFrame.bounded] using h.bounded⟩
  | _ => cases hcall

theorem Orderly.flush {s : Tls} {pre post : List TlsFrame} {next : TlsNext} (h : Orderly s (pre ++ TlsFrame.flush next :: post))
    (hguard : s.goesToSocket (.flush next) = true → ∀ g ∈ pre ++ TlsFrame.flush next :: post, g.usesNetbuf = false)
    (hfree : s.sending = false) :
    Orderly ({ s with sending := true }.drain next).1 (pre ++ (({ s with sending := true }.drain next).2 ++ post)) := by
  by_cases hgo : s.goesToSocket (.flush next) = true
  · have hidle := hguard hgo
    have hnothing : Carried s [] [] := by
      simpa only [flatMap_unfed_idle hidle, flatMap_unsent_idle hidle] using h.carried
    have hdrain : Orderly ({ s with sending := true }.drain next).1 ({ s with sending := true }.drain next).2 :=
      orderly_drain ⟨hnothing.incoming, hnothing.outgoing, hnothing.accepted_prefix⟩
    exact hdrain.around (fun g hg => hidle g (Machine.mem_of_waiting hg)) h.waiting
  · have hempty : s.wbio = [] ∧ next.feeds = false := by simpa [Tls.goesToSocket, hfree] using hgo
    have hresume : ∀ g ∈ next.resume, g.usesNetbuf = false := by
      cases next with
      | feedRead => cases hempty.2
      | feedWrite _ => cases hempty.2
      | _ => simp [TlsNext.resume, TlsFrame.usesNetbuf]
    simp only [Tls.drain, hempty.1, if_true]
    exact h.pass rfl hresume rfl rfl ⟨rfl, rfl⟩ ⟨rfl, rfl⟩

theorem Orderly.step {s : Tls} {pre post : List TlsFrame} {f : TlsFrame} {input : TlsInput}
    (h : Orderly s (pre ++ f :: post)) (hguard : netbufFree.step s (pre ++ f :: post) input f) :
    Orderly (s.exec input f).1 (pre ++ ((s.exec input f).2 ++ post)) := by
  cases f with
  | sslRead =>
    refine h.pass rfl ?_ ?_ ?_ ?_ ?_ <;> cases input with
    | ssl result _ => cases result <;> simp [Tls.exec, Tls.afterRead, Tls.emit, TlsFrame.usesNetbuf]
    | _ => simp [Tls.exec, TlsFrame.usesNetbuf]
  | sslWrite left =>
    by_cases hleft : left = 0
    · simp only [Tls.exec, hleft, if_true]
      exact h.pass rfl (by simp) rfl rfl ⟨rfl, rfl⟩ ⟨rfl, rfl⟩
    · refine h.pass rfl ?_ ?_ ?_ ?_ ?_ <;> cases input with
      | ssl result _ => cases result <;> simp [Tls.exec, hleft, Tls.afterWrite, Tls.emit, TlsFrame.usesNetbuf]
      | _ => simp [Tls.exec, hleft, TlsFrame.usesNetbuf]
  | flush next =>
    cases hsending : s.sending with
    | true =>
      simp only [Tls.exec, hsending, if_true]
      exact h.pass rfl (by simp [TlsFrame.usesNetbuf]) rfl rfl ⟨rfl, rfl⟩ ⟨rfl, rfl⟩
    | false =>
      simp only [Tls.exec, hsending, Bool.false_eq_true, if_false]
      exact h.flush hguard hsending
  | send sent taken pending next =>
    obtain ⟨hidle, hcarried⟩ := h.alone rfl
    have hle : sent + taken ≤ pending := h.bounded (.send sent taken pending next) (by simp)
    exact (orderly_execSend hle hcarried).around hidle h.waiting
  | recv filled next =>
    obtain ⟨hidle, hcarried⟩ := h.alone rfl
    exact (orderly_execRecv hcarried).around hidle h.waiting

/-- In every run in which a call goes to the socket only while no other call has an operation pending there, both
directions are carried unchanged. -/
theorem ciphertext_carried {es : List (Machine.Event TlsFrame TlsInput)}
    (hes : netbufFree.Permits tlsConn (Machine.start {}) es) :
    Carried (tlsConn.run (Machine.start {}) es).state
      ((tlsConn.run (Machine.start {}) es).frames.flatMap (TlsFrame.unfed (tlsConn.run (Machine.start {}) es).state))
      ((tlsConn.run (Machine.start {}) es).frames.flatMap
        (TlsFrame.unsent (tlsConn.run (Machine.start {}) es).state)) := by
  have hrun : Orderly (tlsConn.run (Machine.start {}) es).state (tlsConn.run (Machine.start {}) es).frames := by
    refine Machine.run_invariant (fun s fs f h hcall => h.spawn hcall) (fun s pre f post input h hguard => ?_) ?_ hes
    · exact h.step hguard
    · exact ⟨⟨rfl, fun _ => rfl, List.prefix_rfl⟩, by simp, by simp⟩
  exact hrun.carried

/-- A reply is written in two sends while the read loop waits for its turn. -/
def replyWritten : List (Machine.Event TlsFrame TlsInput) :=
  [.spawn (.sslWrite 3), .step 0 (.ssl (.ok 3) [1, 2, 3]), .step 0 .complete, .step 0 (.took 2), .step 0 .complete,
    .step 0 (.took 1), .step 0 .complete, .spawn .sslRead, .step 1 (.ssl .wantRead []), .step 1 .complete,
    .step 1 (.filled [7, 8]), .step 1 .complete]

theorem ciphertext_carried_reply :
    netbufFree.Permits tlsConn (Machine.start {}) replyWritten ∧
      (tlsConn.run (Machine.start {}) replyWritten).state.accepted = [1, 2, 3] ∧
      Carried (tlsConn.run (Machine.start {}) replyWritten).state
        ((tlsConn.run (Machine.start {}) replyWritten).frames.flatMap
          (TlsFrame.unfed (tlsConn.run (Machine.start {}) replyWritten).state))
        ((tlsConn.run (Machine.start {}) replyWritten).frames.flatMap
          (TlsFrame.unsent (tlsConn.run (Machine.start {}) replyWritten).state)) := by
  have hes : netbufFree.Permits tlsConn (Machine.start {}) replyWritten := by decide +kernel
  exact ⟨hes, by decide +kernel, ciphertext_carried hes⟩

/-- The read loop waits for a request; a reply is drained and its send is pending when the request arrives. -/
def requestDuringSend : List (Machine.Event TlsFrame TlsInput) :=
  [.spawn .sslRead, .step 0 (.ssl .wantRead []), .step 0 .complete, .spawn (.sslWrite 2),
    .step 1 (.ssl (.ok 2) [1, 2]), .step 1 .complete, .step 0 (.filled [7, 8]), .step 1 (.took 2), .step 1 .complete]

/-- The request has arrived; a reply is drained before the read loop resumes. -/
def replyBeforeFeed : List (Machine.Event TlsFrame TlsInput) :=
  [.spawn .sslRead, .step 0 (.ssl .wantRead []), .step 0 .complete, .spawn (.sslWrite 2),
    .step 1 (.ssl (.ok 2) [1, 2]), .step 0 (.filled [7, 8]), .step 1 .complete, .step 0 .complete]

/-- The socket is handed the request instead of the reply, and the incoming BIO the reply instead of the request. -/
theorem ciphertext_corrupted :
    (tlsCalls.Permits tlsConn (Machine.start {}) requestDuringSend ∧
      (tlsConn.run (Machine.start {}) requestDuringSend).state.drained = [1, 2] ∧
      (tlsConn.run (Machine.start {}) requestDuringSend).state.accepted = [7, 8]) ∧
    (tlsCalls.Permits tlsConn (Machine.start {}) replyBeforeFeed ∧
      (tlsConn.run (Machine.start {}) replyBeforeFeed).state.received = [7, 8] ∧
      (tlsConn.run (Machine.start {}) replyBeforeFeed).state.fed = [1, 2]) := by
  decide +kernel

end LightNfs

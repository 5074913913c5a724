import LightNfs.Core.Errmap
import LightNfs.Core.Exports
import LightNfs.Rpc.Drc
import LightNfs.Xdr.Enc

/-!
# NFSv3 calls and the duplicate request cache

`parse_call` hashes a prefix of the arguments while it parses, `Drc::Key::make` puts the hash in the key of the call, and
`Engine::dispatch` takes a cached procedure through the duplicate request cache. What the cache answers belongs to a
call with the same key, so a reply is another call's exactly when two keys agree.
-/

namespace LightNfs

open Function

/-! ### The hash of the arguments -/

/-- The loop over the segments of a record: `argsOff` bytes are skipped, and the next `want` are hashed. -/
def hashLoop (argsOff : Nat) : List Bytes → Nat → Nat → UInt64 → UInt64
  | [], _, _, h => h
  | seg :: rest, skipped, want, h =>
    if want = 0 then h
    else
      let begin := if skipped < argsOff then min seg.length (argsOff - skipped) else 0
      if skipped < argsOff ∧ begin ≥ seg.length then hashLoop argsOff rest (skipped + begin) want h
      else
        let take := min (seg.length - begin) want
        hashLoop argsOff rest (skipped + begin) (want - take)
          (((seg.drop begin).take take).foldl (fun h c => (h ^^^ c.toUInt64) * 1099511628211) h)

def kHashed : Nat := 256

/-- `RpcCall::args_hash` of a call parsed from a record. -/
def argsHash (record : List Bytes) (call : RpcCall) : UInt64 :=
  hashLoop (record.flatten.length - call.args.length) record 0 (min call.args.length kHashed) 1469598103934665603

theorem take_append_min (l r : Bytes) (n : Nat) :
    (l ++ r).take n = l.take (min l.length n) ++ r.take (n - min l.length n) := by
  rw [List.take_append]
  by_cases hn : l.length ≤ n
  · rw [Nat.min_eq_left hn, List.take_length, List.take_of_length_le hn]
  · rw [Nat.min_eq_right (by omega), Nat.sub_self, Nat.sub_eq_zero_of_le (by omega)]

theorem hashLoop_eq (argsOff : Nat) (segs : List Bytes) (skipped want : Nat) (h : UInt64) :
    hashLoop argsOff segs skipped want h =
      ((segs.flatten.drop (argsOff - skipped)).take want).foldl (fun h c => (h ^^^ c.toUInt64) * 1099511628211) h := by
  induction segs generalizing skipped want h with
  | nil => simp [hashLoop]
  | cons seg rest ih =>
    unfold hashLoop
    by_cases hwant : want = 0
    · simp [hwant]
    rw [if_neg hwant, List.flatten_cons]
    by_cases hskip : skipped < argsOff
    · simp only [hskip, if_true, true_and]
      by_cases hall : seg.length ≤ argsOff - skipped
      · have hbegin : min seg.length (argsOff - skipped) = seg.length := by omega
        have hleft : argsOff - (skipped + seg.length) = argsOff - skipped - seg.length := by omega
        rw [hbegin, if_pos (Nat.le_refl _), ih, hleft, List.drop_append, List.drop_eq_nil_of_le hall, List.nil_append]
      · have hbegin : min seg.length (argsOff - skipped) = argsOff - skipped := by omega
        have hdone : argsOff - (skipped + (argsOff - skipped)) = 0 := by omega
        have hinside : argsOff - skipped ≤ seg.length := by omega
        rw [hbegin, if_neg (by omega), ih, hdone, List.drop_zero, List.drop_append_of_le_length hinside,
          take_append_min, List.foldl_append, List.length_drop]
    · have hzero : argsOff - skipped = 0 := by omega
      simp only [hskip, if_false, false_and]
      rw [ih, Nat.add_zero, hzero, List.drop_zero, List.drop_zero, List.drop_zero, Nat.sub_zero, take_append_min,
        List.foldl_append]

theorem suffix_of_take {n : Nat} {d b rest : Bytes} (h : Xdr.take n d = some (b, rest)) : rest <:+ d := by
  unfold Xdr.take at h
  split at h
  · cases h
  · rw [List.splitAt_eq] at h
    cases h
    exact List.drop_suffix n d

theorem suffix_of_u32 {d rest : Bytes} {v : UInt32} (h : Xdr.u32 d = some (v, rest)) : rest <:+ d := by
  obtain ⟨⟨b, left⟩, htake, heq⟩ := Option.map_eq_some_iff.1 h
  cases heq
  exact suffix_of_take htake

theorem suffix_of_opaqueUpTo {max : Nat} {d b rest : Bytes} (h : Xdr.opaqueUpTo max d = some (b, rest)) :
    rest <:+ d := by
  simp only [Xdr.opaqueUpTo, Xdr.opaqueFixed, Option.bind_eq_bind, Option.bind_eq_some_iff, Prod.exists] at h
  obtain ⟨len, left, hlen, h⟩ := h
  split at h
  · cases h
  · simp only [Option.bind_eq_some_iff, Prod.exists] at h
    obtain ⟨b', left', htake, pad, left'', hpad, heq⟩ := h
    cases heq
    exact ((suffix_of_take hpad).trans (suffix_of_take htake)).trans (suffix_of_u32 hlen)

theorem args_suffix {d : Bytes} {call : RpcCall} (h : parseCall d = some call) : call.args <:+ d := by
  simp only [parseCall, Option.bind_eq_bind, Option.bind_eq_some_iff, Prod.exists] at h
  obtain ⟨xid, d₁, h₁, mtype, d₂, h₂, h⟩ := h
  split at h
  · cases h
  · simp only [Option.bind_eq_some_iff, Prod.exists] at h
    obtain ⟨_, d₃, h₃, _, d₄, h₄, _, d₅, h₅, _, d₆, h₆, _, d₇, h₇, _, d₈, h₈, _, d₉, h₉, _, d₁₀, h₁₀, heq⟩ := h
    cases heq
    exact (suffix_of_opaqueUpTo h₁₀).trans <| (suffix_of_u32 h₉).trans <| (suffix_of_opaqueUpTo h₈).trans <|
      (suffix_of_u32 h₇).trans <| (suffix_of_u32 h₆).trans <| (suffix_of_u32 h₅).trans <| (suffix_of_u32 h₄).trans <|
      (suffix_of_u32 h₃).trans <| (suffix_of_u32 h₂).trans <| suffix_of_u32 h₁

theorem argsHash_eq {record : List Bytes} {call : RpcCall} (h : parseCall record.flatten = some call) :
    argsHash record call = fnv64 (call.args.take kHashed) := by
  obtain ⟨header, hrecord⟩ := args_suffix h
  have hoff : record.flatten.length - call.args.length - 0 = header.length := by simp [← hrecord]
  have hlen : call.args.take (min call.args.length kHashed) = call.args.take kHashed := by
    rw [Nat.min_comm, ← List.take_take, List.take_length]
  rw [argsHash, hashLoop_eq, hoff, ← hrecord, List.drop_left, hlen, fnv64]

/-! ### Calls and their keys -/

def Proc.ofCode (code : UInt32) : Option Proc :=
  [Proc.null, .getattr, .setattr, .lookup, .access, .readlink, .read, .write, .create, .mkdir, .symlink, .mknod, .remove,
    .rmdir, .rename, .link, .readdir, .readdirplus, .fsstat, .fsinfo, .pathconf, .commit][code.toNat]?

def drcCached : Proc → Bool
  | .setattr | .create | .mkdir | .symlink | .mknod | .remove | .rmdir | .rename | .link => true
  | _ => false

/-- The 16 bytes of an address in a key; the port is not among them. -/
def Peer.keyAddr : Peer → Bytes
  | .inet addr _ => List.replicate 10 0 ++ [0xff, 0xff] ++ addr
  | .inet6 addr _ => addr
  | .other => List.replicate 16 0

/-- A call as `dispatch` gets it: the peer and a record that parses. -/
structure V3Call where
  peer : Peer
  record : List Bytes
  parses : (parseCall record.flatten).isSome
deriving DecidableEq

namespace V3Call

def call (c : V3Call) : RpcCall := (parseCall c.record.flatten).get c.parses

def args (c : V3Call) : Bytes := c.call.args

/-- `Drc::Key::make`. -/
def key (c : V3Call) : DrcKey :=
  { peerAddr := c.peer.keyAddr, xid := c.call.xid, prog := c.call.prog, vers := c.call.vers, proc := c.call.proc,
    argsHash := argsHash c.record c.call }

def cached (c : V3Call) : Bool := (Proc.ofCode c.call.proc).any drcCached

theorem argsHash_call (c : V3Call) : argsHash c.record c.call = fnv64 (c.args.take kHashed) :=
  argsHash_eq (Option.some_get c.parses).symm

/-- Another call of the same procedure from the same address under the same transaction id. -/
structure Alike (c c' : V3Call) : Prop where
  peer : c.peer.keyAddr = c'.peer.keyAddr
  xid : c.call.xid = c'.call.xid
  prog : c.call.prog = c'.call.prog
  vers : c.call.vers = c'.call.vers
  proc : c.call.proc = c'.call.proc

theorem Alike.key_eq_iff {c c' : V3Call} (h : Alike c c') :
    c.key = c'.key ↔ fnv64 (c.args.take kHashed) = fnv64 (c'.args.take kHashed) := by
  simp only [key, DrcKey.mk.injEq, h.peer, h.xid, h.prog, h.vers, h.proc, true_and, argsHash_call]

end V3Call

/-! ### Dispatch -/

/-- What a call was answered with: its own execution, or the reply an earlier call left. -/
inductive V3Answer where
  | executed (call : V3Call)
  | replayed (call : V3Call) (author : Option V3Call)
deriving DecidableEq

/-- The engine in front of its cache. `serving` is the call each coroutine holds; `authors` and `answers` are nobody's
memory: whose reply is under a key, and what was answered so far. -/
structure V3Front where
  drc : Drc := {}
  serving : Nat → Option V3Call := fun _ => none
  authors : DrcKey → Option V3Call := fun _ => none
  answers : List V3Answer := []

/-- A call arrives, one that waited goes on, `dispatch_proc` returns with the captured reply or throws, and time
passes. -/
inductive V3Event where
  | arrive (caller : Nat) (call : V3Call)
  | resume (caller : Nat)
  | reply (caller : Nat) (capture : Bytes)
  | fail (caller : Nat)
  | pass (time : Nat)

namespace V3Front

/-- The caller behind `begin`: it owns the key and executes, replays, or waits. -/
def claimed (s : V3Front) (drc : Drc) (caller : Nat) (call : V3Call) : V3Front :=
  match drc.callers caller with
  | .owner _ =>
    { s with drc, serving := update s.serving caller (some call), answers := s.answers ++ [V3Answer.executed call] }
  | .waiting _ _ => { s with drc, serving := update s.serving caller (some call) }
  | .idle =>
    { s with
      drc
      serving := update s.serving caller none
      answers := s.answers ++ [V3Answer.replayed call (s.authors call.key)] }

/-- `Engine::dispatch`, up to `begin` and from `dispatch_proc` on. -/
def step (cfg : DrcConfig) (s : V3Front) : V3Event → V3Front
  | .arrive caller call =>
    match s.serving caller with
    | some _ => s
    | none =>
      if call.cached then s.claimed (s.drc.step cfg (.begin caller call.key)) caller call
      else { s with answers := s.answers ++ [V3Answer.executed call] }
  | .resume caller =>
    match s.serving caller, s.drc.callers caller with
    | some call, .waiting _ true => s.claimed (s.drc.step cfg (.resume caller)) caller call
    | _, _ => s
  | .reply caller capture =>
    match s.serving caller, s.drc.callers caller with
    | some call, .owner key =>
      -- Nothing captured: the claim is dropped.
      if capture = [] then
        { s with drc := s.drc.step cfg (.abort caller), serving := update s.serving caller none }
      else
        { s with
          drc := s.drc.step cfg (.complete caller capture)
          serving := update s.serving caller none
          authors := update s.authors key (some call) }
    | _, _ => s
  | .fail caller =>
    match s.serving caller, s.drc.callers caller with
    | some _, .owner _ =>
      { s with drc := s.drc.step cfg (.abort caller), serving := update s.serving caller none }
    | _, _ => s
  | .pass time => { s with drc := s.drc.step cfg (.pass time) }

end V3Front

def v3Dispatch (cfg : DrcConfig) : System V3Front V3Event := ⟨V3Front.step cfg⟩

/-! ### Whose reply is kept -/

theorem kept_dropObs {h : List DrcObs} {now : Nat} {keys : List DrcKey} {x : DrcKept}
    (hx : x ∈ DrcObs.kept (h ++ Drc.dropObs now keys)) : x ∈ DrcObs.kept h := by
  induction keys generalizing h with
  | nil => simpa [Drc.dropObs] using hx
  | cons key keys ih =>
    have hsplit : h ++ Drc.dropObs now (key :: keys) = h ++ [DrcObs.dropped key now] ++ Drc.dropObs now keys := by
      simp [Drc.dropObs]
    rw [hsplit] at hx
    have hx := ih hx
    rw [DrcObs.kept_concat] at hx
    exact List.mem_of_mem_filter hx

namespace Drc.Sound

variable {cfg : DrcConfig} {s : Drc}

theorem kept_turn (s : Drc) (caller : Nat) (key : DrcKey) {x : DrcKept}
    (hx : x ∈ DrcObs.kept (s.turn cfg caller key).history) : x ∈ DrcObs.kept s.history := by
  simp only [Drc.turn, DrcObs.kept_concat, DrcObs.keptAfter] at hx
  exact kept_dropObs hx

/-- What a turn of `begin` makes of its caller: the owner of a key nobody owns and no reply is kept for, idle with a
reply that is kept, or a waiter. -/
inductive Turned (cfg : DrcConfig) (s : Drc) (caller : Nat) (key : DrcKey) : Prop where
  | owner (hcallers : (s.turn cfg caller key).callers = update s.callers caller (.owner key))
  | cached (x : DrcKept) (hx : x ∈ DrcObs.kept s.history) (hkey : x.key = key)
      (hcallers : (s.turn cfg caller key).callers = update s.callers caller .idle)
  | wait (other : Nat) (hother : s.callers other = .owner key)
      (hcallers : (s.turn cfg caller key).callers = update s.callers caller (.waiting key false))

theorem turned (hs : Sound cfg s) (caller : Nat) (key : DrcKey) : Turned cfg s caller key := by
  have hpurged := hs.holds.purge s.now
  have hdue := (hpurged.claim caller key).2
  have hcallers : (s.turn cfg caller key).callers = update s.callers caller
      (((s.shard.purge cfg s.now).1.claim key).1.next key) := rfl
  rw [hdue] at hcallers
  unfold DrcObs.due at hcallers
  rw [DrcShard.Holds.owners_dropObs] at hcallers
  cases howner : DrcObs.owners s.history key with
  | some other =>
    simp only [howner] at hcallers
    exact .wait other ((hs.owners other key).2 howner) hcallers
  | none =>
    simp only [howner] at hcallers
    cases hfind : (DrcObs.kept (s.history ++ dropObs s.now (s.shard.purge cfg s.now).2)).find? (·.key = key) with
    | some x =>
      simp only [hfind] at hcallers
      exact .cached x (kept_dropObs (List.mem_of_find?_eq_some hfind)) (by simpa using List.find?_some hfind) hcallers
    | none =>
      simp only [hfind] at hcallers
      exact .owner hcallers

end Drc.Sound

namespace V3Front

/-- A coroutine at the cache holds a call of its key; one that is not there holds none. -/
def Fits (Known : DrcKey → Prop) : DrcCaller → Option V3Call → Prop
  | .idle, none => True
  | .waiting key _, some call | .owner key, some call => call.key = key ∧ Known key
  | _, _ => False

/-- Every reply that is kept has an author with its key, and so has every reply that was sent again. `Known` says of
which keys there were calls. -/
structure Sound (cfg : DrcConfig) (Known : DrcKey → Prop) (s : V3Front) : Prop where
  drc : Drc.Sound cfg s.drc
  serving : ∀ caller, Fits Known (s.drc.callers caller) (s.serving caller)
  authors : ∀ x ∈ DrcObs.kept s.drc.history, ∃ c, s.authors x.key = some c ∧ c.key = x.key ∧ Known x.key
  answers : ∀ call author, V3Answer.replayed call author ∈ s.answers → ∃ c, author = some c ∧ c.key = call.key

section Fits

variable {Known : DrcKey → Prop} {callers : Nat → DrcCaller} {serving : Nat → Option V3Call}

theorem fits_update (h : ∀ c, Fits Known (callers c) (serving c)) (caller : Nat) (next : DrcCaller)
    (call : Option V3Call) (hnext : Fits Known next call) (c : Nat) :
    Fits Known (update callers caller next c) (update serving caller call c) := by
  by_cases hc : c = caller
  · rw [hc, update_self, update_self]
    exact hnext
  · rw [update_of_ne hc, update_of_ne hc]
    exact h c

theorem fits_notifyAll (h : ∀ c, Fits Known (callers c) (serving c)) (c : Nat) :
    Fits Known (Drc.notifyAll callers c) (serving c) := by
  have hc := h c
  unfold Drc.notifyAll
  generalize serving c = call at hc ⊢
  cases hcaller : callers c <;> rw [hcaller] at hc <;> cases call <;> exact hc

end Fits

namespace Sound

variable {cfg : DrcConfig} {Known : DrcKey → Prop} {s : V3Front}
variable {caller : Nat} {call : V3Call}

theorem init (cfg : DrcConfig) (Known : DrcKey → Prop) : Sound cfg Known {} :=
  ⟨Drc.Sound.init cfg, fun _ => trivial, nofun, nofun⟩

theorem claimed (hs : Sound cfg Known s) (hknown : Known call.key)
    (hfree : ∀ key, s.drc.callers caller ≠ .owner key) :
    Sound cfg Known (s.claimed (s.drc.turn cfg caller call.key) caller call) := by
  have hsound := hs.drc.turn hfree call.key
  have hauthors : ∀ x ∈ DrcObs.kept (s.drc.turn cfg caller call.key).history,
      ∃ c, s.authors x.key = some c ∧ c.key = x.key ∧ Known x.key :=
    fun x hx => hs.authors x (Drc.Sound.kept_turn s.drc caller call.key hx)
  cases hs.drc.turned caller call.key with
  | owner hcallers =>
    have hfits := fits_update hs.serving caller (.owner call.key) (some call) ⟨rfl, hknown⟩
    rw [← hcallers] at hfits
    have hcaller : (s.drc.turn cfg caller call.key).callers caller = .owner call.key := by
      rw [hcallers, update_self]
    simp only [V3Front.claimed, hcaller]
    refine ⟨hsound, hfits, hauthors, fun c author hmem => ?_⟩
    simp only [List.mem_append, List.mem_singleton, reduceCtorEq, or_false] at hmem
    exact hs.answers c author hmem
  | cached x hx hkey hcallers =>
    have hfits := fits_update hs.serving caller .idle none trivial
    rw [← hcallers] at hfits
    have hcaller : (s.drc.turn cfg caller call.key).callers caller = .idle := by rw [hcallers, update_self]
    simp only [V3Front.claimed, hcaller]
    refine ⟨hsound, hfits, hauthors, fun c author hmem => ?_⟩
    simp only [List.mem_append, List.mem_singleton, V3Answer.replayed.injEq] at hmem
    rcases hmem with hmem | ⟨rfl, rfl⟩
    · exact hs.answers c author hmem
    · obtain ⟨author, hauthor, hkey', -⟩ := hs.authors x hx
      rw [hkey] at hauthor hkey'
      exact ⟨author, hauthor, hkey'⟩
  | wait other hother hcallers =>
    have hfits := fits_update hs.serving caller (.waiting call.key false) (some call) ⟨rfl, hknown⟩
    rw [← hcallers] at hfits
    have hcaller : (s.drc.turn cfg caller call.key).callers caller = .waiting call.key false := by
      rw [hcallers, update_self]
    simp only [V3Front.claimed, hcaller]
    exact ⟨hsound, hfits, hauthors, hs.answers⟩

theorem abort (hs : Sound cfg Known s) {key : DrcKey} (hcaller : s.drc.callers caller = .owner key) :
    Sound cfg Known
      { s with drc := s.drc.step cfg (.abort caller), serving := update s.serving caller none } := by
  have hdrc : s.drc.step cfg (.abort caller) =
      { s.drc with
        shard := s.drc.shard.abort key
        callers := Drc.notifyAll (update s.drc.callers caller .idle)
        history := s.drc.history ++ [DrcObs.aborted caller key] } := by simp only [Drc.step, hcaller]
  refine ⟨hs.drc.abort caller, ?_, ?_, hs.answers⟩
  · rw [hdrc]
    exact fits_notifyAll (fits_update hs.serving caller .idle none trivial)
  · rw [hdrc]
    simpa only [DrcObs.kept_concat, DrcObs.keptAfter] using hs.authors

theorem complete (hs : Sound cfg Known s) {key : DrcKey}
    (hcaller : s.drc.callers caller = .owner key) (hserving : s.serving caller = some call) (capture : Bytes) :
    Sound cfg Known
      { s with
        drc := s.drc.step cfg (.complete caller capture)
        serving := update s.serving caller none
        authors := update s.authors key (some call) } := by
  have hfits := hs.serving caller
  rw [hcaller, hserving] at hfits
  obtain ⟨hkey, hknown⟩ := hfits
  obtain ⟨shard, hshard, -⟩ := hs.drc.holds.complete ((hs.drc.owners caller key).1 hcaller) s.drc.now capture
  have hdrc : s.drc.step cfg (.complete caller capture) =
      { s.drc with
        shard := (shard.purge cfg s.drc.now).1
        callers := Drc.notifyAll (update s.drc.callers caller .idle)
        history := s.drc.history ++ [DrcObs.completed caller key capture s.drc.now] ++
          Drc.dropObs s.drc.now (shard.purge cfg s.drc.now).2 } := by
    simp only [Drc.step, hcaller, hshard]
  refine ⟨hs.drc.complete caller capture, ?_, ?_, hs.answers⟩
  · rw [hdrc]
    exact fits_notifyAll (fits_update hs.serving caller .idle none trivial)
  · rw [hdrc]
    intro x hx
    have hx := kept_dropObs hx
    simp only [DrcObs.kept_concat, DrcObs.keptAfter, List.mem_append, List.mem_singleton] at hx
    by_cases hxkey : x.key = key
    · refine ⟨call, ?_, by rw [hkey, hxkey], by rwa [hxkey]⟩
      show update s.authors key (some call) x.key = some call
      rw [hxkey, update_self]
    · rcases hx with hx | rfl
      · simpa only [update_of_ne hxkey] using hs.authors x hx
      · exact absurd rfl hxkey

theorem step (hs : Sound cfg Known s) (e : V3Event) (hknown : ∀ caller call, e = .arrive caller call → Known call.key) :
    Sound cfg Known (s.step cfg e) := by
  cases e with
  | arrive caller call =>
    simp only [V3Front.step]
    have hfits := hs.serving caller
    cases hserving : s.serving caller with
    | some _ => exact hs
    | none =>
      rw [hserving] at hfits
      have hidle : s.drc.callers caller = .idle := by
        cases hcaller : s.drc.callers caller <;> rw [hcaller] at hfits <;> first | rfl | exact hfits.elim
      dsimp only
      split
      · have hstep : s.drc.step cfg (.begin caller call.key) = s.drc.turn cfg caller call.key := by
          simp only [Drc.step, hidle]
        rw [hstep]
        exact hs.claimed (hknown caller call rfl) (by simp [hidle])
      · refine ⟨hs.drc, hs.serving, hs.authors, fun c author hmem => ?_⟩
        simp only [List.mem_append, List.mem_singleton, reduceCtorEq, or_false] at hmem
        exact hs.answers c author hmem
  | resume caller =>
    simp only [V3Front.step]
    have hfits := hs.serving caller
    split
    case h_1 call key hserving hwaiting =>
      rw [hserving, hwaiting] at hfits
      have hstep : s.drc.step cfg (.resume caller) = s.drc.turn cfg caller call.key := by
        simp only [Drc.step, hwaiting, hfits.1]
      rw [hstep]
      exact hs.claimed (hfits.1 ▸ hfits.2) (by simp [hwaiting])
    case h_2 => exact hs
  | reply caller capture =>
    simp only [V3Front.step]
    split
    case h_1 call key hserving howner =>
      split
      · exact hs.abort howner
      · exact hs.complete howner hserving capture
    case h_2 => exact hs
  | fail caller =>
    simp only [V3Front.step]
    split
    case h_1 call key hserving howner => exact hs.abort howner
    case h_2 => exact hs
  | pass time => exact ⟨⟨hs.drc.holds, hs.drc.owners⟩, hs.serving, hs.authors, hs.answers⟩

theorem run (hs : Sound cfg Known s) (events : List V3Event)
    (hknown : ∀ caller call, .arrive caller call ∈ events → Known call.key) :
    Sound cfg Known ((v3Dispatch cfg).run s events) := by
  induction events generalizing s with
  | nil => exact hs
  | cons e events ih =>
    refine ih (hs.step e fun caller call heq => hknown caller call ?_) fun caller call hmem => hknown caller call ?_
    · exact heq ▸ List.mem_cons_self
    · exact List.mem_cons_of_mem e hmem

theorem executes (hs : Sound cfg Known s) (hcached : call.cached = true)
    (hidle : s.serving caller = none) (hnew : ¬Known call.key) :
    (s.step cfg (.arrive caller call)).answers = s.answers ++ [V3Answer.executed call] := by
  have hfits := hs.serving caller
  rw [hidle] at hfits
  have hcaller : s.drc.callers caller = .idle := by
    cases hcaller : s.drc.callers caller <;> rw [hcaller] at hfits <;> first | rfl | exact hfits.elim
  have hstep : s.drc.step cfg (.begin caller call.key) = s.drc.turn cfg caller call.key := by
    simp only [Drc.step, hcaller]
  simp only [V3Front.step, hidle, hcached, if_true, hstep]
  cases hs.drc.turned caller call.key with
  | owner hcallers => simp only [V3Front.claimed, hcallers, update_self]
  | cached x hx hkey hcallers =>
    obtain ⟨-, -, -, hknown⟩ := hs.authors x hx
    exact absurd (hkey ▸ hknown) hnew
  | wait other hother hcallers =>
    have hfits := hs.serving other
    rw [hother] at hfits
    cases hserving : s.serving other with
    | none =>
      rw [hserving] at hfits
      exact hfits.elim
    | some first =>
      rw [hserving] at hfits
      exact absurd hfits.2 hnew

end Sound

end V3Front

/-- The hash tells the hashed parts of two calls' arguments apart. -/
def V3Call.CollisionFree (c c' : V3Call) : Prop :=
  fnv64 (c.args.take kHashed) = fnv64 (c'.args.take kHashed) → c.args.take kHashed = c'.args.take kHashed

/-- Two calls of one procedure from one address under one transaction id have different keys exactly when their
arguments differ in the first 256 bytes. Then the second is never answered with the reply of the first, and is executed
whatever was there before it, as long as none of it had the second's key. -/
theorem second_call_executed_iff (cfg : DrcConfig) {first second : V3Call} (hcached : second.cached = true)
    (halike : first.Alike second) (hfree : first.CollisionFree second) :
    (first.key ≠ second.key ↔ first.args.take kHashed ≠ second.args.take kHashed) ∧
      (first.args.take kHashed ≠ second.args.take kHashed → ∀ events,
        let s := (v3Dispatch cfg).run {} events
        .replayed second (some first) ∉ s.answers ∧
          ∀ caller, s.serving caller = none → (∀ c call, .arrive c call ∈ events → call.key ≠ second.key) →
            (s.step cfg (.arrive caller second)).answers = s.answers ++ [V3Answer.executed second]) := by
  have hkey : first.key ≠ second.key ↔ first.args.take kHashed ≠ second.args.take kHashed := by
    rw [ne_eq, halike.key_eq_iff]
    exact not_congr ⟨hfree, fun h => by rw [h]⟩
  refine ⟨hkey, fun hprefix events => ?_⟩
  have hne : first.key ≠ second.key := hkey.2 hprefix
  refine ⟨fun hmem => ?_, fun caller hidle honly => ?_⟩
  · obtain ⟨c, hauthor, hsame⟩ := ((V3Front.Sound.init cfg fun _ => True).run events fun _ _ _ => trivial).answers _ _ hmem
    cases hauthor
    exact hne hsame
  · exact ((V3Front.Sound.init cfg (· ≠ second.key)).run events honly).executes hcached hidle (not_not.mpr rfl)

/-- A RENAME of a file with a name of 240 bytes to a name of one byte, as one segment. -/
def longRename (name : UInt8) : List Bytes :=
  let handle := Xdr.putOpaque (List.replicate 14 0)
  [([7, 0, 2, 100003, 3, 14, 0, 0, 0, 0] : List UInt32).flatMap Xdr.putU32 ++
    (handle ++ Xdr.putOpaque (List.replicate 240 97) ++ handle ++ Xdr.putOpaque [name])]

/-- The second RENAME has another target and is answered with the reply of the first. -/
theorem long_rename_replayed :
    let first : V3Call := ⟨.inet [10, 0, 0, 1] 700, longRename 120, by decide +kernel⟩
    let second : V3Call := ⟨.inet [10, 0, 0, 1] 701, longRename 121, by decide +kernel⟩
    second.cached = true ∧ first.peer.keyAddr = second.peer.keyAddr ∧
      (first.call.xid, first.call.prog, first.call.vers, first.call.proc) =
        (second.call.xid, second.call.prog, second.call.vers, second.call.proc) ∧
      first.args ≠ second.args ∧ first.key = second.key ∧
      ((v3Dispatch ⟨120, 67108864⟩).run {} [.arrive 0 first, .reply 0 [1], .arrive 1 second]).answers =
        [.executed first, .replayed second (some first)] := by
  decide +kernel

/-- Two SETATTR calls with one byte of arguments each. -/
theorem second_call_executed_iff_setattr :
    let record (arg : UInt8) : List Bytes :=
      [([7, 0, 2, 100003, 3, 2, 0, 0, 0, 0] : List UInt32).flatMap Xdr.putU32 ++ [arg]]
    let first : V3Call := ⟨.inet [10, 0, 0, 1] 700, record 1, by decide +kernel⟩
    let second : V3Call := ⟨.inet [10, 0, 0, 1] 701, record 2, by decide +kernel⟩
    first.key ≠ second.key ↔ first.args.take kHashed ≠ second.args.take kHashed :=
  (second_call_executed_iff ⟨120, 67108864⟩ (by decide +kernel)
    ⟨by decide +kernel, by decide +kernel, by decide +kernel, by decide +kernel, by decide +kernel⟩
    fun heq => absurd heq (by decide +kernel)).1

end LightNfs

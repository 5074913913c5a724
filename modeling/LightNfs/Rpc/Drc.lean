import LightNfs.Basic
import LightNfs.Lib.System
import LightNfs.Lib.Table

/-!
# The duplicate request cache

One shard of `Drc`: the calls of `Engine::dispatch` that have to run at most once register here, and a retransmission
waits for the original or gets its reply again. Every section under the shard's mutex is a step. What the shard does is
recorded in a history, and the history alone says who may run a call and which reply a retransmission gets.
-/

namespace LightNfs

open Function

/-! ### The shard -/

structure DrcKey where
  peerAddr : Bytes
  xid : UInt32
  prog : UInt32
  vers : UInt32
  proc : UInt32
  argsHash : UInt64
deriving DecidableEq

structure DrcEntry where
  done : Bool := false
  reply : Option Bytes := none
  doneAt : Nat := 0
deriving DecidableEq

structure DrcConfig where
  ttl : Nat
  maxMemory : Nat

def kShards : Nat := 16

def DrcConfig.share (cfg : DrcConfig) : Nat := cfg.maxMemory / kShards

def DrcEntry.size (e : DrcEntry) : Nat := (e.reply.map List.length).getD 0

structure DrcShard where
  entries : Table DrcKey DrcEntry := ∅
  completed : List DrcKey := []
  bytes : Nat := 0
  count : Nat := 0

/-- What `begin` finds: ownership, a reply, or the call in progress. -/
inductive DrcClaim where
  | owner
  | cached (reply : Bytes)
  | wait
deriving DecidableEq

namespace DrcShard

/-- The loop of `purge` over the completion queue, with the keys it drops. -/
def purgeLoop (cfg : DrcConfig) (now : Nat) : List DrcKey → DrcShard → DrcShard × List DrcKey
  | [], sh => ({ sh with completed := [] }, [])
  | oldest :: later, sh =>
    match sh.entries.find oldest with
    | none => purgeLoop cfg now later sh
    | some e =>
      if e.doneAt + cfg.ttl ≤ now ∨ sh.bytes > cfg.share then
        let entries := sh.entries.remove oldest
        let purged := purgeLoop cfg now later { sh with entries, bytes := sh.bytes - e.size, count := entries.size }
        (purged.1, oldest :: purged.2)
      else ({ sh with completed := oldest :: later }, [])

def purge (cfg : DrcConfig) (now : Nat) (sh : DrcShard) : DrcShard × List DrcKey := purgeLoop cfg now sh.completed sh

/-- A turn of the loop of `begin`, behind its `purge`. -/
def claim (key : DrcKey) (sh : DrcShard) : DrcClaim × DrcShard :=
  match sh.entries.find key with
  | none =>
    let entries := sh.entries.put key {}
    (.owner, { sh with entries, count := entries.size })
  | some e => if e.done then (.cached (e.reply.getD []), sh) else (.wait, sh)

/-- `complete` up to its `purge`; nothing if the key is not in progress. -/
def complete (now : Nat) (key : DrcKey) (reply : Bytes) (sh : DrcShard) : Option DrcShard :=
  match sh.entries.find key with
  | none => none
  | some e =>
    if e.done then none
    else some { sh with
      entries := sh.entries.put key ⟨true, some reply, now⟩
      bytes := sh.bytes + reply.length
      completed := sh.completed ++ [key] }

def abort (key : DrcKey) (sh : DrcShard) : DrcShard :=
  match sh.entries.find key with
  | none => sh
  | some e =>
    if e.done then sh
    else
      let entries := sh.entries.remove key
      { sh with entries, count := entries.size }

end DrcShard

/-! ### Callers -/

/-- A call in `Engine::dispatch`: not there, in the condition variable's queue or woken from it, or running. -/
inductive DrcCaller where
  | idle
  | waiting (key : DrcKey) (notified : Bool)
  | owner (key : DrcKey)
deriving DecidableEq

def DrcClaim.next (key : DrcKey) : DrcClaim → DrcCaller
  | .owner => .owner key
  | .cached _ => .idle
  | .wait => .waiting key false

inductive DrcObs where
  | began (caller : Nat) (key : DrcKey) (claim : DrcClaim)
  | completed (caller : Nat) (key : DrcKey) (reply : Bytes) (now : Nat)
  | aborted (caller : Nat) (key : DrcKey)
  | dropped (key : DrcKey) (now : Nat)
deriving DecidableEq

structure Drc where
  shard : DrcShard := {}
  now : Nat := 0
  callers : Nat → DrcCaller := fun _ => .idle
  history : List DrcObs := []

/-- A call arrives, a woken one goes on, a running one has its reply or none, and time passes. -/
inductive DrcEvent where
  | begin (caller : Nat) (key : DrcKey)
  | resume (caller : Nat)
  | complete (caller : Nat) (reply : Bytes)
  | abort (caller : Nat)
  | pass (time : Nat)

namespace Drc

def notifyAll (callers : Nat → DrcCaller) : Nat → DrcCaller := fun c =>
  match callers c with
  | .waiting key _ => .waiting key true
  | caller => caller

def dropObs (now : Nat) (keys : List DrcKey) : List DrcObs := keys.map (.dropped · now)

/-- A turn of the loop of `begin`. -/
def turn (cfg : DrcConfig) (caller : Nat) (key : DrcKey) (s : Drc) : Drc :=
  let purged := s.shard.purge cfg s.now
  let claimed := purged.1.claim key
  { s with
    shard := claimed.2
    callers := update s.callers caller (claimed.1.next key)
    history := s.history ++ dropObs s.now purged.2 ++ [DrcObs.began caller key claimed.1] }

def step (cfg : DrcConfig) (s : Drc) : DrcEvent → Drc
  | .begin caller key =>
    match s.callers caller with
    | .idle => s.turn cfg caller key
    | _ => s
  | .resume caller =>
    match s.callers caller with
    | .waiting key true => s.turn cfg caller key
    | _ => s
  | .complete caller reply =>
    match s.callers caller with
    | .owner key =>
      let callers := notifyAll (update s.callers caller .idle)
      match s.shard.complete s.now key reply with
      | none => { s with callers }
      | some shard =>
        let purged := shard.purge cfg s.now
        { s with
          shard := purged.1
          callers
          history := s.history ++ [DrcObs.completed caller key reply s.now] ++ dropObs s.now purged.2 }
    | _ => s
  | .abort caller =>
    match s.callers caller with
    | .owner key =>
      { s with
        shard := s.shard.abort key
        callers := notifyAll (update s.callers caller .idle)
        history := s.history ++ [DrcObs.aborted caller key] }
    | _ => s
  | .pass time => { s with now := s.now + time }

end Drc

def caching (cfg : DrcConfig) : System Drc DrcEvent := ⟨Drc.step cfg⟩

/-! ### Lawful histories -/

/-- A reply that was completed and not dropped since. -/
structure DrcKept where
  key : DrcKey
  reply : Bytes
  doneAt : Nat
deriving DecidableEq

namespace DrcObs

def ownerAfter (owners : DrcKey → Option Nat) : DrcObs → DrcKey → Option Nat
  | began caller key .owner => update owners key (some caller)
  | completed _ key _ _ | aborted _ key => update owners key none
  | _ => owners

def keptAfter (kept : List DrcKept) : DrcObs → List DrcKept
  | completed _ key reply now => kept ++ [⟨key, reply, now⟩]
  | dropped key _ => kept.filter (·.key ≠ key)
  | _ => kept

variable (cfg : DrcConfig) (h : List DrcObs)

/-- Who was given ownership of each key and has not completed or aborted it. -/
def owners : DrcKey → Option Nat := h.foldl ownerAfter fun _ => none

/-- The replies that are kept, oldest completion first. -/
def kept (h : List DrcObs) : List DrcKept := h.foldl keptAfter []

/-- What a `begin` is due: to wait for the owner, else the reply that is kept, else ownership. -/
def due (key : DrcKey) : DrcClaim :=
  match owners h key with
  | some _ => .wait
  | none =>
    match (kept h).find? (·.key = key) with
    | some x => .cached x.reply
    | none => .owner

def Lawful : DrcObs → Prop
  | began _ key claim => claim = due h key
  | completed caller key _ _ | aborted caller key => owners h key = some caller
  | dropped key now => ∃ x later, kept h = x :: later ∧ x.key = key ∧
      (x.doneAt + cfg.ttl ≤ now ∨ cfg.share < ((kept h).map (·.reply.length)).sum)

@[simp] theorem owners_concat (o : DrcObs) : owners (h ++ [o]) = o.ownerAfter (owners h) := by
  simp [owners]

@[simp] theorem kept_concat (o : DrcObs) : kept (h ++ [o]) = o.keptAfter (kept h) := by
  simp [kept]

/-- Everything in a history was lawful when it happened. -/
def Obeys : Prop := ∀ before o, before ++ [o] <+: h → o.Lawful cfg before

theorem Obeys.concat {cfg : DrcConfig} {h : List DrcObs} (hh : Obeys cfg h) {o : DrcObs} (ho : o.Lawful cfg h) :
    Obeys cfg (h ++ [o]) := by
  intro before o' hprefix
  rcases List.prefix_concat_iff.1 hprefix with heq | hprefix
  · obtain ⟨rfl, hlast⟩ := List.append_inj' heq rfl
    obtain rfl : o' = o := by simpa using hlast
    exact ho
  · exact hh before o' hprefix

end DrcObs

/-! ### The shard holds what its history says -/

theorem find?_key {l : List DrcKept} (hl : (l.map (·.key)).Nodup) {x : DrcKept} (hx : x ∈ l) :
    l.find? (·.key = x.key) = some x := by
  induction l with
  | nil => cases hx
  | cons y l ih =>
    rw [List.map_cons, List.nodup_cons] at hl
    rcases List.mem_cons.1 hx with rfl | hx
    · simp
    · have hother : y.key ≠ x.key := fun heq => hl.1 (heq ▸ List.mem_map_of_mem hx)
      rw [List.find?_cons_of_neg (by simpa using hother)]
      exact ih hl.2 hx

def DrcKept.entry (x : DrcKept) : DrcEntry := ⟨true, some x.reply, x.doneAt⟩

/-- A key's entry is in progress if the key has an owner, and else the reply that is kept; never both. -/
structure DrcKept.Matches (owner : Option Nat) (kept : Option DrcKept) (entry : Option DrcEntry) : Prop where
  running : owner.isSome → entry = some {} ∧ kept = none
  done : owner = none → entry = kept.map DrcKept.entry

def DrcObs.keptFor (h : List DrcObs) (key : DrcKey) : Option DrcKept := (kept h).find? (·.key = key)

structure DrcShard.Holds (cfg : DrcConfig) (h : List DrcObs) (sh : DrcShard) : Prop where
  obeys : DrcObs.Obeys cfg h
  matched : ∀ key, DrcKept.Matches (DrcObs.owners h key) (DrcObs.keptFor h key) (sh.entries.find key)
  nodup : ((DrcObs.kept h).map (·.key)).Nodup
  completed : sh.completed = (DrcObs.kept h).map (·.key)
  kept : sh.bytes = ((DrcObs.kept h).map (·.reply.length)).sum
  bytes : sh.bytes = sh.entries.total DrcEntry.size
  count : sh.count = sh.entries.size

namespace DrcShard.Holds

variable {cfg : DrcConfig} {h : List DrcObs} {sh : DrcShard}
variable {key : DrcKey} {x : DrcKept} {caller : Nat}

theorem keptFor_mem (hsh : Holds cfg h sh) (hx : x ∈ DrcObs.kept h) : DrcObs.keptFor h x.key = some x :=
  find?_key hsh.nodup hx

theorem find_kept (hsh : Holds cfg h sh) (hx : x ∈ DrcObs.kept h) :
    DrcObs.owners h x.key = none ∧ sh.entries.find x.key = some x.entry := by
  have hmatched := hsh.matched x.key
  rw [hsh.keptFor_mem hx] at hmatched
  have hfree : DrcObs.owners h x.key = none := by
    by_contra hsome
    exact absurd (hmatched.running (Option.isSome_iff_ne_none.2 hsome)).2 (by simp)
  exact ⟨hfree, hmatched.done hfree⟩

theorem keptFor_none {h : List DrcObs} :
    DrcObs.keptFor h key = none ↔ ∀ x ∈ DrcObs.kept h, x.key ≠ key := by
  simp [DrcObs.keptFor]

theorem running (hsh : Holds cfg h sh) (hcaller : DrcObs.owners h key = some caller) :
    sh.entries.find key = some {} ∧ DrcObs.keptFor h key = none :=
  (hsh.matched key).running (by simp [hcaller])

theorem observe (hsh : Holds cfg h sh) {o : DrcObs} (ho : o.Lawful cfg h)
    (howners : o.ownerAfter (DrcObs.owners h) = DrcObs.owners h) (hkept : o.keptAfter (DrcObs.kept h) = DrcObs.kept h) :
    Holds cfg (h ++ [o]) sh := by
  have howners' : DrcObs.owners (h ++ [o]) = DrcObs.owners h := by rw [DrcObs.owners_concat, howners]
  have hkept' : DrcObs.kept (h ++ [o]) = DrcObs.kept h := by rw [DrcObs.kept_concat, hkept]
  refine ⟨hsh.obeys.concat ho, ?_, ?_, ?_, ?_, hsh.bytes, hsh.count⟩
  · simpa only [DrcObs.keptFor, howners', hkept'] using hsh.matched
  · simpa only [hkept'] using hsh.nodup
  · simpa only [hkept'] using hsh.completed
  · simpa only [hkept'] using hsh.kept

theorem drop (hsh : Holds cfg h sh) {later : List DrcKept} (hkept : DrcObs.kept h = x :: later) {now : Nat}
    (hdue : x.doneAt + cfg.ttl ≤ now ∨ sh.bytes > cfg.share) :
    Holds cfg (h ++ [DrcObs.dropped x.key now])
      ⟨sh.entries.remove x.key, later.map (·.key), sh.bytes - x.reply.length, (sh.entries.remove x.key).size⟩ := by
  have hnodup := hsh.nodup
  rw [hkept, List.map_cons, List.nodup_cons] at hnodup
  have hothers : ∀ y ∈ later, y.key ≠ x.key := fun y hy heq => hnodup.1 (heq ▸ List.mem_map_of_mem hy)
  obtain ⟨hfree, hfind⟩ := hsh.find_kept (x := x) (by simp [hkept])
  have hbytes : sh.bytes = x.reply.length + (later.map (·.reply.length)).sum := by simp [hsh.kept, hkept]
  have howners : DrcObs.owners (h ++ [DrcObs.dropped x.key now]) = DrcObs.owners h := DrcObs.owners_concat ..
  have hlater : DrcObs.kept (h ++ [DrcObs.dropped x.key now]) = later := by
    rw [DrcObs.kept_concat, hkept]
    simpa [DrcObs.keptAfter] using hothers
  refine ⟨hsh.obeys.concat ⟨x, later, hkept, rfl, ?_⟩, fun key => ?_, ?_, ?_, ?_, ?_, rfl⟩
  · rwa [← hsh.kept]
  · rw [howners, Table.find_remove]
    by_cases hkey : key = x.key
    · have hgone : DrcObs.keptFor (h ++ [DrcObs.dropped x.key now]) key = none := by
        rw [keptFor_none, hlater, hkey]
        exact hothers
      rw [if_pos hkey, hgone, hkey, hfree]
      exact ⟨nofun, fun _ => rfl⟩
    · have hsame : DrcObs.keptFor (h ++ [DrcObs.dropped x.key now]) key = DrcObs.keptFor h key := by
        rw [DrcObs.keptFor, DrcObs.keptFor, hlater, hkept, List.find?_cons_of_neg (by simpa using Ne.symm hkey)]
      rw [if_neg hkey, hsame]
      exact hsh.matched key
  · rw [hlater]
    exact hnodup.2
  · rw [hlater]
  · rw [hlater]
    show sh.bytes - x.reply.length = _
    omega
  · have htotal := Table.total_eq DrcEntry.size sh.entries x.key
    rw [hfind, ← hsh.bytes] at htotal
    show sh.bytes - x.reply.length = _
    rw [htotal]
    exact Nat.add_sub_cancel_left ..

theorem owners_dropObs (h : List DrcObs) (now : Nat) (keys : List DrcKey) :
    DrcObs.owners (h ++ Drc.dropObs now keys) = DrcObs.owners h := by
  induction keys generalizing h with
  | nil => simp [Drc.dropObs]
  | cons key keys ih =>
    have hnext := ih (h ++ [DrcObs.dropped key now])
    rw [List.append_assoc, DrcObs.owners_concat] at hnext
    exact hnext

theorem purgeLoop (now : Nat) {queue : List DrcKey} (hsh : Holds cfg h { sh with completed := queue }) :
    Holds cfg (h ++ Drc.dropObs now (sh.purgeLoop cfg now queue).2) (sh.purgeLoop cfg now queue).1 := by
  induction queue generalizing h sh with
  | nil => simpa [DrcShard.purgeLoop, Drc.dropObs] using hsh
  | cons oldest queue ih =>
    obtain ⟨x, later, hkept, rfl, rfl⟩ := List.map_eq_cons_iff.1 hsh.completed.symm
    have hfind : sh.entries.find x.key = some x.entry := (hsh.find_kept (by simp [hkept])).2
    simp only [DrcShard.purgeLoop, hfind]
    by_cases hdue : x.entry.doneAt + cfg.ttl ≤ now ∨ sh.bytes > cfg.share
    · rw [if_pos hdue]
      have hnext := @ih _ { sh with
        entries := sh.entries.remove x.key
        bytes := sh.bytes - x.entry.size
        count := (sh.entries.remove x.key).size } (hsh.drop hkept hdue)
      rw [List.append_assoc] at hnext
      exact hnext
    · rw [if_neg hdue]
      simpa [Drc.dropObs] using hsh

theorem purge (hsh : Holds cfg h sh) (now : Nat) :
    Holds cfg (h ++ Drc.dropObs now (sh.purge cfg now).2) (sh.purge cfg now).1 := hsh.purgeLoop now

theorem enter (hsh : Holds cfg h sh) (caller : Nat) (hfree : DrcObs.owners h key = none)
    (hnone : DrcObs.keptFor h key = none) :
    Holds cfg (h ++ [DrcObs.began caller key .owner])
      { sh with entries := sh.entries.put key {}, count := (sh.entries.put key {}).size } := by
  have habsent : sh.entries.find key = none := by rw [(hsh.matched key).done hfree, hnone, Option.map_none]
  have howners : DrcObs.owners (h ++ [DrcObs.began caller key .owner]) = update (DrcObs.owners h) key (some caller) :=
    DrcObs.owners_concat ..
  have hkept : DrcObs.kept (h ++ [DrcObs.began caller key .owner]) = DrcObs.kept h := DrcObs.kept_concat ..
  refine ⟨hsh.obeys.concat ?_, fun key' => ?_, ?_, ?_, ?_, ?_, rfl⟩
  · have hnone : (DrcObs.kept h).find? (·.key = key) = none := hnone
    simp only [DrcObs.Lawful, DrcObs.due, hfree, hnone]
  · rw [howners, DrcObs.keptFor, hkept, Table.find_put]
    by_cases hkey : key' = key
    · rw [if_pos hkey, hkey, update_self]
      exact ⟨fun _ => ⟨rfl, hnone⟩, nofun⟩
    · rw [if_neg hkey, update_of_ne hkey]
      exact hsh.matched key'
  · rw [hkept]
    exact hsh.nodup
  · rw [hkept]
    exact hsh.completed
  · rw [hkept]
    exact hsh.kept
  · have htotal := Table.total_eq DrcEntry.size sh.entries key
    rw [habsent] at htotal
    rw [Table.total_put]
    exact hsh.bytes.trans htotal

theorem claim (hsh : Holds cfg h sh) (caller : Nat) (key : DrcKey) :
    Holds cfg (h ++ [DrcObs.began caller key (sh.claim key).1]) (sh.claim key).2 ∧ (sh.claim key).1 = DrcObs.due h key := by
  cases howner : DrcObs.owners h key with
  | some other =>
    have hdue : DrcClaim.wait = DrcObs.due h key := by simp [DrcObs.due, howner]
    have hclaim : sh.claim key = (.wait, sh) := by simp [DrcShard.claim, (hsh.running howner).1]
    rw [hclaim]
    exact ⟨hsh.observe (o := .began caller key .wait) hdue rfl rfl, hdue⟩
  | none =>
    have hentry := (hsh.matched key).done howner
    cases hfind : DrcObs.keptFor h key with
    | some x =>
      have hdue : DrcClaim.cached x.reply = DrcObs.due h key := by
        have hfind : (DrcObs.kept h).find? (·.key = key) = some x := hfind
        simp only [DrcObs.due, howner, hfind]
      have hclaim : sh.claim key = (.cached x.reply, sh) := by
        simp [DrcShard.claim, hentry, hfind, DrcKept.entry]
      rw [hclaim]
      exact ⟨hsh.observe (o := .began caller key (.cached x.reply)) hdue rfl rfl, hdue⟩
    | none =>
      have hdue : DrcClaim.owner = DrcObs.due h key := by
        have hfind : (DrcObs.kept h).find? (·.key = key) = none := hfind
        simp only [DrcObs.due, howner, hfind]
      have hclaim : sh.claim key =
          (.owner, { sh with entries := sh.entries.put key {}, count := (sh.entries.put key {}).size }) := by
        simp [DrcShard.claim, hentry, hfind]
      rw [hclaim]
      exact ⟨hsh.enter caller howner hfind, hdue⟩

theorem complete (hsh : Holds cfg h sh) (howner : DrcObs.owners h key = some caller)
    (now : Nat) (reply : Bytes) :
    ∃ sh', sh.complete now key reply = some sh' ∧ Holds cfg (h ++ [DrcObs.completed caller key reply now]) sh' := by
  obtain ⟨hfind, hgone⟩ := hsh.running howner
  have howners : DrcObs.owners (h ++ [DrcObs.completed caller key reply now]) = update (DrcObs.owners h) key none :=
    DrcObs.owners_concat ..
  have hkept : DrcObs.kept (h ++ [DrcObs.completed caller key reply now]) = DrcObs.kept h ++ [⟨key, reply, now⟩] :=
    DrcObs.kept_concat ..
  refine ⟨_, by simp only [DrcShard.complete, hfind]; rfl, hsh.obeys.concat howner, fun key' => ?_, ?_, ?_, ?_, ?_, ?_⟩
  · have hfor : DrcObs.keptFor (h ++ [DrcObs.completed caller key reply now]) key' =
        (DrcObs.keptFor h key').or (if key = key' then some ⟨key, reply, now⟩ else none) := by
      rw [DrcObs.keptFor, DrcObs.keptFor, hkept, List.find?_append, List.find?_singleton]
      by_cases hkey : key = key' <;> simp [hkey]
    rw [howners, hfor, Table.find_put]
    by_cases hkey : key' = key
    · subst hkey
      rw [if_pos rfl, if_pos rfl, update_self, hgone, Option.none_or]
      exact ⟨nofun, fun _ => rfl⟩
    · rw [if_neg hkey, if_neg (Ne.symm hkey), update_of_ne hkey, Option.or_none]
      exact hsh.matched key'
  · rw [hkept, List.map_append, List.nodup_append]
    refine ⟨hsh.nodup, by simp, ?_⟩
    intro key' hkey' key'' hkey''
    obtain ⟨x, hx, rfl⟩ := List.mem_map.1 hkey'
    obtain rfl : key'' = key := by simpa using hkey''
    exact keptFor_none.1 hgone x hx
  · rw [hkept, List.map_append, ← hsh.completed]
    rfl
  · rw [hkept, List.map_append, List.sum_append, ← hsh.kept]
    simp
  · have htotal := Table.total_eq DrcEntry.size sh.entries key
    rw [hfind, ← hsh.bytes] at htotal
    show sh.bytes + reply.length = (sh.entries.put key _).total _
    rw [Table.total_put, htotal]
    simp [DrcEntry.size, Nat.add_comm]
  · have hsize := Table.total_eq (fun _ => 1) sh.entries key
    rw [hfind, ← Table.size_eq_total, ← hsh.count] at hsize
    show sh.count = (sh.entries.put key _).size
    rw [Table.size_eq_total, Table.total_put, hsize]
    rfl

theorem abort (hsh : Holds cfg h sh) (howner : DrcObs.owners h key = some caller) :
    Holds cfg (h ++ [DrcObs.aborted caller key]) (sh.abort key) := by
  obtain ⟨hfind, hgone⟩ := hsh.running howner
  have habort : sh.abort key =
      { sh with entries := sh.entries.remove key, count := (sh.entries.remove key).size } := by
    simp [DrcShard.abort, hfind]
  have howners : DrcObs.owners (h ++ [DrcObs.aborted caller key]) = update (DrcObs.owners h) key none :=
    DrcObs.owners_concat ..
  have hkept : DrcObs.kept (h ++ [DrcObs.aborted caller key]) = DrcObs.kept h := DrcObs.kept_concat ..
  rw [habort]
  refine ⟨hsh.obeys.concat howner, fun key' => ?_, ?_, ?_, ?_, ?_, rfl⟩
  · rw [howners, DrcObs.keptFor, hkept, Table.find_remove]
    by_cases hkey : key' = key
    · subst hkey
      rw [if_pos rfl, update_self]
      exact ⟨nofun, fun _ => (congrArg (Option.map DrcKept.entry) hgone).symm⟩
    · rw [if_neg hkey, update_of_ne hkey]
      exact hsh.matched key'
  · rw [hkept]
    exact hsh.nodup
  · rw [hkept]
    exact hsh.completed
  · rw [hkept]
    exact hsh.kept
  · have htotal := Table.total_eq DrcEntry.size sh.entries key
    rw [hfind] at htotal
    exact hsh.bytes.trans (htotal.trans (Nat.zero_add _))

end DrcShard.Holds

/-! ### Runs -/

/-- The shard holds what its history says, and the callers that own a key are the owners of the history. -/
structure Drc.Sound (cfg : DrcConfig) (s : Drc) : Prop where
  holds : s.shard.Holds cfg s.history
  owners : ∀ caller key, s.callers caller = .owner key ↔ DrcObs.owners s.history key = some caller

namespace Drc.Sound

variable {cfg : DrcConfig} {s : Drc}
variable {caller : Nat} {callers : Nat → DrcCaller}
variable {owners : DrcKey → Option Nat}

theorem notifyAll_owner (callers : Nat → DrcCaller) (caller : Nat) (key : DrcKey) :
    notifyAll callers caller = .owner key ↔ callers caller = .owner key := by
  unfold notifyAll
  cases callers caller <;> simp

theorem owners_enter
    (h : ∀ caller key, callers caller = .owner key ↔ owners key = some caller) {key : DrcKey}
    (hfree : ∀ key', callers caller ≠ .owner key') (hkey : owners key = none) (caller' : Nat) (key' : DrcKey) :
    update callers caller (.owner key) caller' = .owner key' ↔
      update owners key (some caller) key' = some caller' := by
  simp only [update_apply]
  grind

theorem owners_leave
    (h : ∀ caller key, callers caller = .owner key ↔ owners key = some caller) {key : DrcKey}
    (howner : callers caller = .owner key) (caller' : Nat) (key' : DrcKey) :
    notifyAll (update callers caller .idle) caller' = .owner key' ↔
      update owners key none key' = some caller' := by
  rw [notifyAll_owner]
  simp only [update_apply]
  grind

theorem owners_stay
    (h : ∀ caller key, callers caller = .owner key ↔ owners key = some caller) {next : DrcCaller}
    (hfree : ∀ key, callers caller ≠ .owner key) (hnext : ∀ key, next ≠ .owner key) (caller' : Nat) (key' : DrcKey) :
    update callers caller next caller' = .owner key' ↔ owners key' = some caller' := by
  simp only [update_apply]
  grind

theorem turn (hs : Sound cfg s) (hfree : ∀ key, s.callers caller ≠ .owner key) (key : DrcKey) :
    Sound cfg (s.turn cfg caller key) := by
  have hpurged := hs.holds.purge s.now
  obtain ⟨hholds, hdue⟩ := hpurged.claim caller key
  refine ⟨hholds, ?_⟩
  have howners : ∀ caller key, s.callers caller = .owner key ↔
      DrcObs.owners (s.history ++ dropObs s.now (s.shard.purge cfg s.now).2) key = some caller := by
    simpa only [DrcShard.Holds.owners_dropObs] using hs.owners
  simp only [Drc.turn, DrcObs.owners_concat]
  cases hclaim : ((s.shard.purge cfg s.now).1.claim key).1 with
  | owner =>
    refine owners_enter howners hfree ?_
    rw [hclaim, DrcObs.due] at hdue
    split at hdue
    · cases hdue
    · assumption
  | cached reply => exact owners_stay howners hfree nofun
  | wait => exact owners_stay howners hfree nofun

theorem complete (hs : Sound cfg s) (caller : Nat) (reply : Bytes) : Sound cfg (s.step cfg (.complete caller reply)) := by
  simp only [Drc.step]
  split
  case h_1 key hcaller =>
    have howner := (hs.owners caller key).1 hcaller
    obtain ⟨shard, hshard, hholds⟩ := hs.holds.complete howner s.now reply
    simp only [hshard]
    refine ⟨hholds.purge s.now, ?_⟩
    simp only [DrcShard.Holds.owners_dropObs, DrcObs.owners_concat]
    exact owners_leave hs.owners hcaller
  case h_2 => exact hs

theorem abort (hs : Sound cfg s) (caller : Nat) : Sound cfg (s.step cfg (.abort caller)) := by
  simp only [Drc.step]
  split
  case h_1 key hcaller =>
    refine ⟨hs.holds.abort ((hs.owners caller key).1 hcaller), ?_⟩
    simp only [DrcObs.owners_concat]
    exact owners_leave hs.owners hcaller
  case h_2 => exact hs

theorem step (hs : Sound cfg s) (ev : DrcEvent) : Sound cfg (s.step cfg ev) := by
  cases ev with
  | begin caller key =>
    simp only [Drc.step]
    split
    case h_1 hidle => exact hs.turn (by simp [hidle]) key
    case h_2 => exact hs
  | resume caller =>
    simp only [Drc.step]
    split
    case h_1 key hwaiting => exact hs.turn (by simp [hwaiting]) key
    case h_2 => exact hs
  | complete caller reply => exact hs.complete caller reply
  | abort caller => exact hs.abort caller
  | pass time => exact ⟨hs.holds, hs.owners⟩

theorem init (cfg : DrcConfig) : Sound cfg {} := by
  refine ⟨⟨?_, ?_, List.nodup_nil, rfl, rfl, rfl, rfl⟩, ?_⟩
  · intro before o hprefix
    simp at hprefix
  · exact fun key => ⟨nofun, fun _ => rfl⟩
  · intro caller key
    simp [DrcObs.owners]

theorem run (hs : Sound cfg s) (events : List DrcEvent) : Sound cfg ((caching cfg).run s events) := by
  induction events generalizing s with
  | nil => exact hs
  | cons ev events ih => exact ih (hs.step ev)

end Drc.Sound

/-- At most one caller owns a key, and everything in the history was lawful when it happened: a `begin` waits while the
key has an owner, gets the reply that was completed last and is still kept, and owns the key otherwise; only an owner
completes or aborts; and only the oldest reply is dropped, when its time is over or the replies are beyond their share.
The queue has each completed key once, and the counters are the sums. -/
theorem drc_at_most_once (cfg : DrcConfig) (events : List DrcEvent) :
    let s := (caching cfg).run {} events
    (∀ before o, before ++ [o] <+: s.history → o.Lawful cfg before) ∧
      (∀ caller key, s.callers caller = .owner key ↔ DrcObs.owners s.history key = some caller) ∧
      (∀ caller caller' key, s.callers caller = .owner key → s.callers caller' = .owner key → caller = caller') ∧
      (s.shard.completed.Nodup ∧
        ∀ key, key ∈ s.shard.completed ↔ ∃ e, s.shard.entries.find key = some e ∧ e.done = true) ∧
      s.shard.bytes = s.shard.entries.total DrcEntry.size ∧ s.shard.count = s.shard.entries.size := by
  intro s
  have hs : Drc.Sound cfg s := (Drc.Sound.init cfg).run events
  refine ⟨hs.holds.obeys, hs.owners, fun caller caller' key hc hc' => ?_, ⟨?_, fun key => ⟨?_, ?_⟩⟩, hs.holds.bytes,
    hs.holds.count⟩
  · exact Option.some.inj (((hs.owners caller key).1 hc).symm.trans ((hs.owners caller' key).1 hc'))
  · rw [hs.holds.completed]
    exact hs.holds.nodup
  · intro hkey
    rw [hs.holds.completed] at hkey
    obtain ⟨x, hx, rfl⟩ := List.mem_map.1 hkey
    exact ⟨x.entry, (hs.holds.find_kept hx).2, rfl⟩
  · rintro ⟨e, hfind, hdone⟩
    have hmatched := hs.holds.matched key
    cases howner : DrcObs.owners s.history key with
    | some caller =>
      rw [(hs.holds.running howner).1] at hfind
      cases hfind
      cases hdone
    | none =>
      rw [hmatched.done howner] at hfind
      obtain ⟨x, hx, -⟩ := Option.map_eq_some_iff.1 hfind
      rw [hs.holds.completed]
      have hkey : x.key = key := by simpa using List.find?_some hx
      exact hkey ▸ List.mem_map_of_mem (List.mem_of_find?_eq_some hx)

/-- A reply that is exactly as old as the time it is kept for is dropped, and the call runs again. -/
theorem drc_drops_at_ttl :
    let key : DrcKey := ⟨[], 7, 100003, 3, 12, 0⟩
    ((caching ⟨5, 67108864⟩).run {} [.begin 0 key, .complete 0 [1], .pass 5, .begin 1 key]).history =
      [.began 0 key .owner, .completed 0 key [1] 0, .dropped key 5, .began 1 key .owner] := by
  decide

end LightNfs

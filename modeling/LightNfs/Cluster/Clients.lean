import Mathlib
import LightNfs.Cluster.Files
import LightNfs.Lib.System

/-!
# Reclaim lists

The owners that may reclaim after a restart are files in a directory, one per owner: the name is the hash of the
owner id, the content the id itself. The state manager keeps such a directory locally, the shared store keeps one
for the cluster and one per export. The list is meant to be a set of owner ids.
-/

namespace LightNfs

open Text

def kMaxOwnerId : Nat := 1024

structure OwnerId where
  bytes : Bytes
  nonempty : bytes ≠ []
  bounded : bytes.length ≤ kMaxOwnerId
deriving DecidableEq

abbrev ClientDir := Table Text Bytes

def clientFileName (owner : Bytes) : Text := hex16 (fnv64 owner)

inductive ClientCall where
  | put (owner : OwnerId)
  | erase (owner : OwnerId)

def ClientCall.owner : ClientCall → OwnerId
  | put owner | erase owner => owner

variable (files : ClientDir)

def ClientCall.exec : ClientCall → ClientDir
  | put owner => files.put (clientFileName owner.bytes) owner.bytes
  | erase owner => files.remove (clientFileName owner.bytes)

def clientLists : System ClientDir ClientCall := ⟨ClientCall.exec⟩

/-- `load_local_clients` reads at most `kMaxOwnerId` bytes of each file. -/
def loadLocalClients : List Bytes :=
  (files.entries.map fun file => file.2.take kMaxOwnerId).filter (· ≠ [])

def listClientsIn : List Bytes :=
  ((files.entries.filter fun file => !isTemp file.1).map (·.2)).filter (· ≠ [])

/-! ### The set of owners -/

/-- What the list is meant to hold: the owners put and not erased since. -/
def ownersAfter (calls : List ClientCall) : Finset Bytes :=
  calls.foldl (fun owners call =>
    match call with
    | .put owner => insert owner.bytes owners
    | .erase owner => owners.erase owner.bytes) ∅

/-- The file a call goes to is that of its own owner, or it does not exist. -/
def OwnRecord (call : ClientCall) : Prop :=
  ∀ bytes, files.find (clientFileName call.owner.bytes) = some bytes → bytes = call.owner.bytes

instance (files : ClientDir) (call : ClientCall) : Decidable (OwnRecord files call) :=
  match h : files.find (clientFileName call.owner.bytes) with
  | none => isTrue fun bytes hfind => by simp [h] at hfind
  | some bytes =>
    if heq : bytes = call.owner.bytes then isTrue fun b hfind => by rw [h] at hfind; exact Option.some.inj hfind ▸ heq
    else isFalse fun hown => heq (hown bytes h)

/-- Each owner of the set is in the file of its name, and there are no other files. -/
structure Reflects (files : ClientDir) (owners : Finset Bytes) : Prop where
  files : ∀ name bytes, files.find name = some bytes ↔ bytes ∈ owners ∧ clientFileName bytes = name
  owners : ∀ bytes ∈ owners, bytes ≠ [] ∧ bytes.length ≤ kMaxOwnerId

namespace Reflects

variable {files : ClientDir} {owners : Finset Bytes} (h : Reflects files owners)
include h

theorem put {owner : OwnerId} (hown : OwnRecord files (.put owner)) :
    Reflects (files.put (clientFileName owner.bytes) owner.bytes) (insert owner.bytes owners) := by
  refine ⟨fun name bytes => ?_, fun bytes hbytes => ?_⟩
  · rw [Table.find_put, Finset.mem_insert]
    split
    case isTrue hname =>
      rw [hname]
      constructor
      · rintro ⟨⟩
        exact ⟨.inl rfl, rfl⟩
      · rintro ⟨rfl | hmem, hsame⟩
        · rfl
        · rw [hown bytes ((h.files _ _).2 ⟨hmem, hsame⟩)]
          rfl
    case isFalse hname =>
      rw [h.files]
      constructor
      · rintro ⟨hmem, hsame⟩
        exact ⟨.inr hmem, hsame⟩
      · rintro ⟨rfl | hmem, hsame⟩
        · exact absurd hsame.symm hname
        · exact ⟨hmem, hsame⟩
  · rcases Finset.mem_insert.1 hbytes with rfl | hmem
    · exact ⟨owner.nonempty, owner.bounded⟩
    · exact h.owners bytes hmem

theorem erase {owner : OwnerId} (hown : OwnRecord files (.erase owner)) :
    Reflects (files.remove (clientFileName owner.bytes)) (owners.erase owner.bytes) := by
  refine ⟨fun name bytes => ?_, fun bytes hbytes => h.owners bytes (Finset.mem_of_mem_erase hbytes)⟩
  rw [Table.find_remove, Finset.mem_erase]
  split
  case isTrue hname =>
    rw [hname]
    simp only [reduceCtorEq, false_iff]
    rintro ⟨⟨hne, hmem⟩, hsame⟩
    exact hne (hown bytes ((h.files _ _).2 ⟨hmem, hsame⟩))
  case isFalse hname =>
    rw [h.files]
    constructor
    · rintro ⟨hmem, hsame⟩
      refine ⟨⟨?_, hmem⟩, hsame⟩
      rintro rfl
      exact hname hsame.symm
    · rintro ⟨⟨-, hmem⟩, hsame⟩
      exact ⟨hmem, hsame⟩

theorem nodup_contents : (files.entries.map (·.2)).Nodup := by
  refine List.Nodup.map_on ?_ files.nodupKeys.nodup
  rintro ⟨name, bytes⟩ hmem ⟨name', bytes'⟩ hmem' heq
  have hname := ((h.files _ _).1 (Table.find_of_mem hmem)).2
  have hname' := ((h.files _ _).1 (Table.find_of_mem hmem')).2
  simp only at heq hname hname'
  subst heq hname hname'
  rfl

theorem mem_contents {bytes : Bytes} : bytes ∈ files.entries.map (·.2) ↔ bytes ∈ owners := by
  rw [List.mem_map]
  constructor
  · rintro ⟨file, hfile, rfl⟩
    exact ((h.files _ _).1 (Table.find_of_mem hfile)).1
  · intro hmem
    exact ⟨⟨clientFileName bytes, bytes⟩, AList.mem_lookup_iff.1 ((h.files _ _).2 ⟨hmem, rfl⟩), rfl⟩

theorem loadLocalClients_eq : loadLocalClients files = files.entries.map (·.2) := by
  have htake : (files.entries.map fun file => file.2.take kMaxOwnerId) = files.entries.map (·.2) :=
    List.map_congr_left fun file hfile =>
      List.take_of_length_le (h.owners _ ((h.files _ _).1 (Table.find_of_mem hfile)).1).2
  rw [loadLocalClients, htake]
  refine List.filter_eq_self.2 fun bytes hbytes => decide_eq_true (h.owners bytes ?_).1
  exact h.mem_contents.1 hbytes

theorem listClientsIn_eq : listClientsIn files = files.entries.map (·.2) := by
  have hnames : files.entries.filter (fun file => !isTemp file.1) = files.entries := by
    refine List.filter_eq_self.2 fun file hfile => ?_
    rw [← ((h.files _ _).1 (Table.find_of_mem hfile)).2, clientFileName, isTemp_hex16]
    rfl
  rw [listClientsIn, hnames]
  refine List.filter_eq_self.2 fun bytes hbytes => decide_eq_true (h.owners bytes ?_).1
  exact h.mem_contents.1 hbytes

end Reflects

/-! ### Calls on a list -/

theorem ownersAfter_concat (calls : List ClientCall) (call : ClientCall) :
    ownersAfter (calls ++ [call]) =
      match call with
      | .put owner => insert owner.bytes (ownersAfter calls)
      | .erase owner => (ownersAfter calls).erase owner.bytes := by
  simp only [ownersAfter, List.foldl_append, List.foldl_cons, List.foldl_nil]

theorem reflects_run {calls : List ClientCall} (hown : clientLists.Meets OwnRecord ∅ calls) :
    Reflects (clientLists.run ∅ calls) (ownersAfter calls) := by
  induction calls using List.reverseRecOn with
  | nil => exact ⟨fun _ _ => by simp [ownersAfter], fun _ hmem => absurd hmem (Finset.notMem_empty _)⟩
  | append_singleton calls call ih =>
    rw [System.meets_append] at hown
    rw [System.run_append, ownersAfter_concat]
    have hbefore := ih hown.1
    cases call with
    | put owner => exact hbefore.put hown.2.1
    | erase owner => exact hbefore.erase hown.2.1

/-- While no call goes to the file of another owner, both listings return the owners put and not erased since, each
once. -/
theorem reclaim_list_is_set (calls : List ClientCall) (hown : clientLists.Meets OwnRecord ∅ calls) :
    let files := clientLists.run ∅ calls
    ((listClientsIn files).Nodup ∧ ∀ bytes, bytes ∈ listClientsIn files ↔ bytes ∈ ownersAfter calls) ∧
      (loadLocalClients files).Nodup ∧ ∀ bytes, bytes ∈ loadLocalClients files ↔ bytes ∈ ownersAfter calls := by
  intro files
  have h : Reflects files (ownersAfter calls) := reflects_run hown
  rw [h.listClientsIn_eq, h.loadLocalClients_eq]
  exact ⟨⟨h.nodup_contents, fun _ => h.mem_contents⟩, h.nodup_contents, fun _ => h.mem_contents⟩

def ownerBytes (text : Text) : Bytes := text.map fun c => UInt8.ofNat c.toNat

def ownerA : OwnerId := ⟨ownerBytes (lit "lcifacmjakbnlagd"), by decide +kernel, by decide +kernel⟩

/-- Another owner with the hash of `ownerA`. -/
def ownerB : OwnerId := ⟨ownerBytes (lit "fnbnldmgbajmjldm"), by decide +kernel, by decide +kernel⟩

theorem reclaim_list_is_set_reput :
    (listClientsIn (clientLists.run ∅ [.put ownerA, .erase ownerA, .put ownerB])).Nodup ∧
      ownerB.bytes ∈ listClientsIn (clientLists.run ∅ [.put ownerA, .erase ownerA, .put ownerB]) := by
  have hown : clientLists.Meets OwnRecord ∅ [.put ownerA, .erase ownerA, .put ownerB] := by decide +kernel
  have h := (reclaim_list_is_set _ hown).1
  exact ⟨h.1, (h.2 ownerB.bytes).2 (by decide +kernel)⟩

/-- Putting an owner with the same hash loses the first one, and erasing the first one then loses the other. -/
theorem reclaim_list_collides :
    listClientsIn (clientLists.run ∅ [.put ownerA, .put ownerB]) = [ownerB.bytes] ∧
      loadLocalClients (clientLists.run ∅ [.put ownerA, .put ownerB]) = [ownerB.bytes] ∧
      ownerA.bytes ≠ ownerB.bytes ∧
      listClientsIn (clientLists.run ∅ [.put ownerA, .put ownerB, .erase ownerA]) = [] := by
  decide +kernel

end LightNfs

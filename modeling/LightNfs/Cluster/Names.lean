import LightNfs.Cluster.Files

/-!
# Node names in the shared directory

Each node has five files in the shared directory, beside the store's own files, its locks and the temporary files
of every write. The listings tell them apart by name. Which of the node names that the configuration accepts does
that work for?
-/

namespace LightNfs

open Text

/-! ### The files of the store -/

inductive NodeFile where
  | epoch
  | fence
  | exports
  | applied
  | address
deriving DecidableEq

def NodeFile.path (node : Text) : NodeFile → StorePath
  | epoch => ⟨[], lit "epoch." ++ node⟩
  | fence => fencePath node
  | exports => ⟨[], lit "exports." ++ node⟩
  | applied => appliedPath node
  | address => addressPath node

def fsDir (fsid : UInt32) : Text := lit "fs/" ++ decimal fsid.toNat

inductive OwnFile where
  | sharedDir
  | hmacKey
  | epoch
  | fence
  | catalog
  | historyDir
  | history (version : UInt64)
  | nodesDir
  | clientsDir
  | client (hash : UInt64)
  | fsDir
  | exportDir (fsid : UInt32)
  | exportEpoch (fsid : UInt32)
  | exportOwner (fsid : UInt32)
  | exportClients (fsid : UInt32)
  | exportClient (fsid : UInt32) (hash : UInt64)

def OwnFile.path : OwnFile → StorePath
  | sharedDir => ⟨[], []⟩
  | hmacKey => ⟨[], lit "hmac.key"⟩
  | epoch => ⟨[], lit "epoch"⟩
  | fence => ⟨[], lit "fence"⟩
  | catalog => ⟨[], lit "catalog.toml"⟩
  | historyDir => ⟨[], lit "catalog.history"⟩
  | history version => ⟨lit "catalog.history", decimal version.toNat ++ lit ".toml"⟩
  | nodesDir => ⟨[], LightNfs.nodesDir⟩
  | clientsDir => ⟨[], lit "clients"⟩
  | client hash => ⟨lit "clients", hex16 hash⟩
  | fsDir => ⟨[], lit "fs"⟩
  | exportDir fsid => ⟨lit "fs", decimal fsid.toNat⟩
  | exportEpoch fsid => ⟨LightNfs.fsDir fsid, lit "epoch"⟩
  | exportOwner fsid => ⟨LightNfs.fsDir fsid, lit "owner"⟩
  | exportClients fsid => ⟨LightNfs.fsDir fsid, lit "clients"⟩
  | exportClient fsid hash => ⟨LightNfs.fsDir fsid ++ lit "/clients", hex16 hash⟩

inductive StoreLock where
  | epoch
  | fence
  | catalog
  | nodeEpoch (node : NodeName)
  | exportEpoch (fsid : UInt32)

def StoreLock.path : StoreLock → StorePath
  | epoch => ⟨[], lit "epoch.lock"⟩
  | fence => ⟨[], lit "fence.lock"⟩
  | catalog => ⟨[], lit "catalog.lock"⟩
  | nodeEpoch node => ⟨[], lit "epoch." ++ node.text ++ lit ".lock"⟩
  | exportEpoch fsid => ⟨LightNfs.fsDir fsid, lit "epoch.lock"⟩

/-- `unique_temp_name`. -/
def tempPath (path : StorePath) (pid counter : Nat) : StorePath :=
  ⟨path.dir, path.name ++ lit ".tmp." ++ decimal pid ++ '.' :: decimal counter⟩

/-! ### What is written for a node -/

structure NodeRecords where
  epoch : UInt64
  fence : NodeFences
  digest : Text
  applied : CatalogApplied
  address : Text

/-- The records are those of the node, and each text reads back as what was recorded. -/
structure NodeRecords.ReadBack (node : Text) (recs : NodeRecords) : Prop where
  fence : parseNodeFences node recs.fence.text = .ok recs.fence
  accepted : recs.applied.accepted = true
  applied : parseCatalogApplied node recs.applied.text = .ok recs.applied
  address : trim (recs.address ++ ['\n']) = recs.address

/-- The node's epoch, its fence record, the digest of its exports, what it applied and its address; a write that is
refused changes nothing. -/
def writeNode (files : Files) (node : Text) (recs : NodeRecords) : Files :=
  let files := files.put (NodeFile.epoch.path node) (decimal recs.epoch.toNat ++ ['\n'])
  let files := files.put (NodeFile.fence.path node) recs.fence.text
  let files := files.put (NodeFile.exports.path node) (recs.digest ++ ['\n'])
  let files := (putCatalogApplied files recs.applied).toOption.getD files
  (putNodeAddress files node recs.address).toOption.getD files

def writeNodes (background : Files) (recs : NodeName → NodeRecords) (nodes : List NodeName) : Files :=
  nodes.foldl (fun files node => writeNode files node.text (recs node)) background

/-- Files of the store itself, its locks and files that are being written. -/
def Backdrop (background : Files) : Prop :=
  ∀ path text, background.find path = some text →
    (∃ own : OwnFile, path = own.path) ∨ (∃ lock : StoreLock, path = lock.path) ∨
      ∃ target pid counter, path = tempPath target pid counter

/-- The listings return the records of the nodes and no others. -/
structure ListedExactly (files : Files) (recs : NodeName → NodeRecords) (nodes : List NodeName) : Prop where
  fences : ∃ listed, listFences files = .ok listed ∧ listed.Perm (nodes.map fun node => (recs node).fence)
  applied : ∃ listed, listCatalogApplied files = .ok listed ∧ listed.Perm (nodes.map fun node => (recs node).applied)
  addresses : (listNodes files).Perm (nodes.map fun node => (node.text, (recs node).address))

/-- The nodes' files are told apart from each other and from all other files, and the listings are right. -/
structure NamesWork (nodes : List NodeName) : Prop where
  distinct : ∀ node ∈ nodes, ∀ node' ∈ nodes, ∀ kind kind' : NodeFile,
    kind.path node.text = kind'.path node'.text → kind = kind' ∧ node = node'
  own : ∀ node ∈ nodes, ∀ (kind : NodeFile) (file : OwnFile), kind.path node.text ≠ file.path
  locks : ∀ node ∈ nodes, ∀ (kind : NodeFile) (lock : StoreLock), kind.path node.text ≠ lock.path
  temps : ∀ node ∈ nodes, ∀ (kind : NodeFile) (target : StorePath) (pid counter : Nat),
    kind.path node.text ≠ tempPath target pid counter
  listed : ∀ background recs, Backdrop background → (∀ node ∈ nodes, (recs node).ReadBack node.text) →
    ListedExactly (writeNodes background recs nodes) recs nodes

/-- A name that is no part of another file's name and that `list_fences` sees. -/
def UsableName (node : Text) : Prop :=
  FenceVisible node ∧ node ≠ lit "toml" ∧ node ≠ lit "history" ∧ node ≠ ['.'] ∧ node ≠ ['.', '.']

instance (node : Text) : Decidable (UsableName node) := inferInstanceAs (Decidable (_ ∧ _))

/-! ### Names with a dot -/

/-- What stands before the dot in the name of a node's file. -/
def NodeFile.word : NodeFile → Text
  | epoch => lit "epoch"
  | fence => lit "fence"
  | exports => lit "exports"
  | applied => lit "catalog"
  | address => []

variable {name word : Text} {kind : NodeFile} {file : OwnFile} {lock : StoreLock}

theorem NodeFile.notMem_word (kind : NodeFile) : '.' ∉ kind.word := by cases kind <;> simp [NodeFile.word, lit_def]

theorem NodeFile.path_of_ne (hkind : kind ≠ .address) (node : Text) :
    kind.path node = ⟨[], kind.word ++ '.' :: node⟩ := by
  cases kind with
  | address => exact absurd rfl hkind
  | _ => simp [NodeFile.path, NodeFile.word, fencePath, appliedPath, lit_def]

theorem fencePath_name (node : Text) : (fencePath node).name = lit "fence" ++ '.' :: node := by
  simp [fencePath, lit_def]

theorem isTemp_dotted (hword : '.' ∉ word) (rest : Text) :
    isTemp (word ++ '.' :: rest) = isTemp ('.' :: rest) := by
  rw [isTemp, isTemp, decide_eq_decide]
  rw [show lit ".tmp." = '.' :: lit "tmp." by simp [lit_def]]
  exact cons_infix_append_iff hword

theorem isTemp_tempPath (path : StorePath) (pid counter : Nat) : isTemp (tempPath path pid counter).name = true := by
  rw [isTemp, decide_eq_true_eq]
  exact ⟨path.name, decimal pid ++ '.' :: decimal counter, by simp [tempPath]⟩

namespace UsableName

variable {node : Text} (h : UsableName node)
include h

theorem notTemp_dot : isTemp ('.' :: node) = false := by
  have hvisible := h.1
  rw [FenceVisible, fenceListed, fencePath_name, isTemp_dotted (by simp [lit_def])] at hvisible
  simpa using (Bool.and_eq_true_iff.1 hvisible).2

theorem notTemp : isTemp node = false := by
  by_contra htemp
  rw [Bool.not_eq_false, isTemp, decide_eq_true_eq] at htemp
  have hdot : isTemp ('.' :: node) = true := by
    rw [isTemp, decide_eq_true_eq]
    exact htemp.trans (List.suffix_cons '.' node).isInfix
  rw [h.notTemp_dot] at hdot
  exact Bool.noConfusion hdot

theorem notLock (front : Text) : '.' :: node ≠ front ++ lit ".lock" := by
  intro heq
  have hvisible := h.1
  have hname : (fencePath node).name = lit "fence" ++ front ++ lit ".lock" := by
    rw [List.append_assoc, ← heq, fencePath_name]
  rw [FenceVisible, fenceListed, hname] at hvisible
  have hsuffix : (lit ".lock").isSuffixOf (lit "fence" ++ front ++ lit ".lock") = true :=
    List.isSuffixOf_iff_suffix.2 (List.suffix_append ..)
  simp only [hsuffix, Bool.not_true, Bool.and_false, Bool.false_and, Bool.false_eq_true] at hvisible

theorem addressPath_eq : addressPath node = ⟨nodesDir, node⟩ := by
  rw [addressPath, if_neg h.2.2.2.1, if_neg h.2.2.2.2]

theorem validApplied (hvalid : validClusterNodeName node = true) : validAppliedNode node = true := by
  simp only [validClusterNodeName, Bool.and_eq_true, List.all_eq_true] at hvalid
  have hchar : ∀ c, c.isAlphanum = false → c ≠ '_' → c ≠ '.' → c ≠ '-' → node.contains c = false := by
    intro c hc h1 h2 h3
    rw [List.contains_eq_mem, decide_eq_false_iff_not]
    intro hmem
    simpa [hc, h1, h2, h3] using hvalid.2 c hmem
  have hlock : node ≠ lit "lock" := fun heq => h.notLock [] (by rw [heq]; simp [lit_def])
  rw [validAppliedNode, hchar '/' (by decide) (by decide) (by decide) (by decide),
    hchar ' ' (by decide) (by decide) (by decide) (by decide), bne_iff_ne.2 h.2.1, bne_iff_ne.2 hlock,
    bne_iff_ne.2 h.2.2.1, hvalid.1.1]
  rfl

end UsableName

/-- The store's own names in the shared directory, cut at their dot. -/
def ownNames : List (Text × Option Text) :=
  [([], none), (lit "hmac", some (lit "key")), (lit "epoch", none), (lit "fence", none),
    (lit "catalog", some (lit "toml")), (lit "catalog", some (lit "history")), (lit "nodes", none),
    (lit "clients", none), (lit "fs", none)]

theorem OwnFile.cut_mem_ownNames (hdir : file.path.dir = []) :
    cut '.' file.path.name ∈ ownNames := by
  cases file with
  | history => exact absurd (show lit "catalog.history" = [] from hdir) (by simp [lit_def])
  | client => exact absurd (show lit "clients" = [] from hdir) (by simp [lit_def])
  | exportDir => exact absurd (show lit "fs" = [] from hdir) (by simp [lit_def])
  | exportEpoch | exportOwner | exportClients =>
    exact absurd hdir (List.append_ne_nil_of_left_ne_nil (by simp [lit_def]) _)
  | exportClient =>
    exact absurd hdir (List.append_ne_nil_of_right_ne_nil _ (by simp [lit_def]))
  | _ => decide +kernel

theorem StoreLock.path_dotted {rest : Text} (hword : '.' ∉ word)
    (h : lock.path = ⟨[], word ++ '.' :: rest⟩) : ∃ front, '.' :: rest = front ++ lit ".lock" := by
  have hdir : lock.path.dir = [] := by rw [h]
  have hcut : cut '.' lock.path.name = (word, some rest) := by rw [h, cut_append hword]
  cases lock with
  | exportEpoch fsid => simp [StoreLock.path, LightNfs.fsDir, lit_def] at hdir
  | nodeEpoch node =>
    refine ⟨'.' :: node.text, ?_⟩
    simp [StoreLock.path, cut, lit_def] at hcut
    simp [← hcut.2, lit_def]
  | _ =>
    refine ⟨[], ?_⟩
    simp [StoreLock.path, cut, lit_def] at hcut
    simp [← hcut.2, lit_def]

theorem nodesDir_ne_nil : nodesDir ≠ [] := by simp [nodesDir, lit_def]

theorem fsDir_ne_nodesDir (fsid : UInt32) (rest : Text) : fsDir fsid ++ rest ≠ nodesDir := by
  intro h
  have hhead := congrArg List.head? h
  simp [fsDir, nodesDir, lit_def] at hhead

theorem OwnFile.dir_ne_nodesDir (file : OwnFile) : file.path.dir ≠ LightNfs.nodesDir := by
  cases file with
  | history => exact show lit "catalog.history" ≠ LightNfs.nodesDir by simp [LightNfs.nodesDir, lit_def]
  | client => exact show lit "clients" ≠ LightNfs.nodesDir by simp [LightNfs.nodesDir, lit_def]
  | exportDir => exact show lit "fs" ≠ LightNfs.nodesDir by simp [LightNfs.nodesDir, lit_def]
  | exportEpoch fsid | exportOwner fsid | exportClients fsid =>
    have hdir := fsDir_ne_nodesDir fsid []
    rwa [List.append_nil] at hdir
  | exportClient fsid => exact fsDir_ne_nodesDir fsid _
  | _ => simp [path, LightNfs.nodesDir, lit_def]

theorem StoreLock.dir_ne_nodesDir (lock : StoreLock) : lock.path.dir ≠ LightNfs.nodesDir := by
  cases lock with
  | exportEpoch fsid =>
    have hdir := fsDir_ne_nodesDir fsid []
    rwa [List.append_nil] at hdir
  | nodeEpoch => exact show [] ≠ LightNfs.nodesDir by simp [nodesDir, lit_def]
  | _ => simp [StoreLock.path, nodesDir, lit_def]

/-! ### Usable names work -/

namespace UsableName

variable {node node' : Text} (h : UsableName node)
include h

theorem path_ne_own (kind : NodeFile) (file : OwnFile) : kind.path node ≠ file.path := by
  intro heq
  by_cases hkind : kind = .address
  · subst hkind
    rw [NodeFile.path, h.addressPath_eq] at heq
    exact file.dir_ne_nodesDir (congrArg StorePath.dir heq).symm
  · rw [NodeFile.path_of_ne hkind] at heq
    have hmem := file.cut_mem_ownNames (by rw [← heq])
    rw [← heq, cut_append kind.notMem_word] at hmem
    obtain ⟨-, htoml, hhistory, -⟩ := h
    simp only [ownNames, List.mem_cons, Prod.mk.injEq, Option.some.injEq, htoml, hhistory, and_false, reduceCtorEq,
      List.not_mem_nil, or_false, false_or] at hmem
    revert hmem
    cases kind <;> simp [NodeFile.word, lit_def]

theorem path_ne_lock (kind : NodeFile) (lock : StoreLock) : kind.path node ≠ lock.path := by
  intro heq
  by_cases hkind : kind = .address
  · subst hkind
    rw [NodeFile.path, h.addressPath_eq] at heq
    exact lock.dir_ne_nodesDir (congrArg StorePath.dir heq).symm
  · rw [NodeFile.path_of_ne hkind] at heq
    obtain ⟨front, hfront⟩ := lock.path_dotted kind.notMem_word heq.symm
    exact h.notLock front hfront

theorem path_notTemp (kind : NodeFile) : isTemp (kind.path node).name = false := by
  by_cases hkind : kind = .address
  · subst hkind
    rw [NodeFile.path, h.addressPath_eq]
    exact h.notTemp
  · rw [NodeFile.path_of_ne hkind, isTemp_dotted kind.notMem_word]
    exact h.notTemp_dot

theorem path_ne_temp (kind : NodeFile) (target : StorePath) (pid counter : Nat) :
    kind.path node ≠ tempPath target pid counter := by
  intro heq
  have htemp := h.path_notTemp kind
  rw [heq, isTemp_tempPath] at htemp
  exact Bool.noConfusion htemp

theorem path_injective (h' : UsableName node') {kind kind' : NodeFile} (heq : kind.path node = kind'.path node') :
    kind = kind' ∧ node = node' := by
  by_cases hkind : kind = .address <;> by_cases hkind' : kind' = .address
  · subst hkind hkind'
    rw [NodeFile.path, NodeFile.path, h.addressPath_eq, h'.addressPath_eq] at heq
    exact ⟨rfl, (StorePath.mk.inj heq).2⟩
  · rw [NodeFile.path_of_ne hkind', hkind, NodeFile.path, h.addressPath_eq] at heq
    exact absurd (StorePath.mk.inj heq).1 (by simp [nodesDir, lit_def])
  · rw [NodeFile.path_of_ne hkind, hkind', NodeFile.path, h'.addressPath_eq] at heq
    exact absurd (StorePath.mk.inj heq).1 (by simp [nodesDir, lit_def])
  · rw [NodeFile.path_of_ne hkind, NodeFile.path_of_ne hkind'] at heq
    have hcut := congrArg (cut '.') (StorePath.mk.inj heq).2
    rw [cut_append kind.notMem_word, cut_append kind'.notMem_word, Prod.mk.injEq, Option.some.injEq] at hcut
    refine ⟨?_, hcut.2⟩
    revert hkind hkind' hcut
    cases kind <;> cases kind' <;> simp [NodeFile.word, lit_def]

end UsableName

/-! ### What the directory holds -/

def NodeRecords.textOf (recs : NodeRecords) : NodeFile → Text
  | .epoch => decimal recs.epoch.toNat ++ ['\n']
  | .fence => recs.fence.text
  | .exports => recs.digest ++ ['\n']
  | .applied => recs.applied.text
  | .address => recs.address ++ ['\n']

section Written

variable {recs : NodeName → NodeRecords}

theorem find_writeNode {node : NodeName} (h : UsableName node.text) (hrecs : (recs node).ReadBack node.text)
    (files : Files) :
    (∀ kind : NodeFile, (writeNode files node.text (recs node)).find (kind.path node.text) =
        some ((recs node).textOf kind)) ∧
      ∀ path, (∀ kind : NodeFile, path ≠ kind.path node.text) →
        (writeNode files node.text (recs node)).find path = files.find path := by
  have hnode : (recs node).applied.node = node.text := parseCatalogApplied_node hrecs.applied
  have happlied : ∀ files : Files, putCatalogApplied files (recs node).applied =
      .ok (files.put (NodeFile.applied.path node.text) (recs node).applied.text) := fun files => by
    rw [putCatalogApplied, hnode, h.validApplied node.valid, hrecs.accepted]
    rfl
  have haddress : ∀ files : Files, putNodeAddress files node.text (recs node).address =
      .ok (files.put (NodeFile.address.path node.text) ((recs node).address ++ ['\n'])) := fun files => by
    rw [putNodeAddress, h.addressPath_eq, if_pos rfl, NodeFile.path, h.addressPath_eq]
  have hne : ∀ {kind kind' : NodeFile}, kind ≠ kind' → kind.path node.text ≠ kind'.path node.text :=
    fun hkind heq => hkind (h.path_injective h heq).1
  simp only [writeNode, happlied, haddress, Except.toOption, Option.getD_some, Table.find_put]
  generalize NodeFile.path node.text = paths at hne
  refine ⟨fun kind => ?_, fun path hpath => ?_⟩
  · cases kind <;> simp [hne, NodeRecords.textOf]
  · simp only [hpath, if_false]

theorem find_writeNodes {nodes : List NodeName} (hnodes : ∀ node ∈ nodes, UsableName node.text)
    (hrecs : ∀ node ∈ nodes, (recs node).ReadBack node.text) (background : Files) :
    (∀ node ∈ nodes, ∀ kind : NodeFile, (writeNodes background recs nodes).find (kind.path node.text) =
        some ((recs node).textOf kind)) ∧
      ∀ path, (∀ node ∈ nodes, ∀ kind : NodeFile, path ≠ kind.path node.text) →
        (writeNodes background recs nodes).find path = background.find path := by
  induction nodes using List.reverseRecOn with
  | nil => exact ⟨fun _ h => absurd h List.not_mem_nil, fun _ _ => rfl⟩
  | append_singleton nodes last ih =>
    have hlast : last ∈ nodes ++ [last] := List.mem_append_right _ List.mem_cons_self
    obtain ⟨hthere, hkept⟩ := ih (fun n hn => hnodes n (List.mem_append_left _ hn))
      fun n hn => hrecs n (List.mem_append_left _ hn)
    obtain ⟨hwritten, hframe⟩ := find_writeNode (hnodes last hlast) (hrecs last hlast)
      (writeNodes background recs nodes)
    have hfold : writeNodes background recs (nodes ++ [last]) =
        writeNode (writeNodes background recs nodes) last.text (recs last) := by
      simp [writeNodes, List.foldl_append]
    rw [hfold]
    refine ⟨fun node hnode kind => ?_, fun path hpath => ?_⟩
    · by_cases heq : node = last
      · subst heq
        exact hwritten kind
      · have hmem : node ∈ nodes := by simpa [heq] using hnode
        rw [hframe, hthere node hmem kind]
        intro kind' hpath
        exact heq (NodeName.ext ((hnodes node hnode).path_injective (hnodes last hlast) hpath).2)
    · rw [hframe path fun kind => hpath last hlast kind,
        hkept path fun node hnode => hpath node (List.mem_append_left _ hnode)]

theorem written_perm {nodes : List NodeName} (hnodup : nodes.Nodup) (hnodes : ∀ node ∈ nodes, UsableName node.text)
    (hrecs : ∀ node ∈ nodes, (recs node).ReadBack node.text) {background : Files} (hback : Backdrop background)
    (kind : NodeFile) (dir : Text) (listed : Text → Bool)
    (hdir : ∀ node ∈ nodes, (kind.path node.text).dir = dir ∧ listed (kind.path node.text).name = true)
    (hkinds : ∀ node ∈ nodes, ∀ kind' ≠ kind, (kind'.path node.text).dir = dir →
      listed (kind'.path node.text).name = false)
    (hown : ∀ file : OwnFile, file.path.dir = dir → listed file.path.name = false)
    (hlocks : ∀ lock : StoreLock, lock.path.dir = dir → listed lock.path.name = false)
    (htemps : ∀ name, isTemp name = true → listed name = false) :
    (((writeNodes background recs nodes).entriesIn dir).filter fun file => listed file.1).Perm
      (nodes.map fun node => ((kind.path node.text).name, (recs node).textOf kind)) := by
  obtain ⟨hthere, hkept⟩ := find_writeNodes hnodes hrecs background
  have hpath : ∀ node ∈ nodes, kind.path node.text = ⟨dir, (kind.path node.text).name⟩ := fun node hnode => by
    rw [← (hdir node hnode).1]
  have hright : (nodes.map fun node => ((kind.path node.text).name, (recs node).textOf kind)).Nodup := by
    refine List.Nodup.map_on (fun node hnode node' hnode' heq => ?_) hnodup
    have hsame : kind.path node.text = kind.path node'.text := by
      rw [hpath node hnode, hpath node' hnode', (Prod.mk.inj heq).1]
    exact NodeName.ext ((hnodes node hnode).path_injective (hnodes node' hnode') hsame).2
  rw [List.perm_ext_iff_of_nodup ((Files.nodup_entriesIn _ dir).filter _) hright]
  rintro ⟨name, text⟩
  rw [List.mem_filter, Files.mem_entriesIn, List.mem_map]
  constructor
  · rintro ⟨hfind, hlisted⟩
    by_cases hours : ∃ node ∈ nodes, ∃ kind' : NodeFile, (⟨dir, name⟩ : StorePath) = kind'.path node.text
    · obtain ⟨node, hnode, kind', heq⟩ := hours
      have hkind : kind' = kind := by
        by_contra hne
        have hother := hkinds node hnode kind' hne (by rw [← heq])
        rw [← heq] at hother
        exact Bool.noConfusion (hlisted.symm.trans hother)
      subst hkind
      rw [heq, hthere node hnode kind'] at hfind
      exact ⟨node, hnode, by rw [← heq, Option.some.inj hfind]⟩
    · -- a file that was there before is none the listing takes for a record
      push Not at hours
      rw [hkept _ hours] at hfind
      have hhidden : listed name = false := by
        rcases hback _ _ hfind with ⟨file, heq⟩ | ⟨lock, heq⟩ | ⟨target, pid, counter, heq⟩
        · have := hown file (by rw [← heq])
          rwa [← heq] at this
        · have := hlocks lock (by rw [← heq])
          rwa [← heq] at this
        · have := htemps _ (isTemp_tempPath target pid counter)
          rwa [← heq] at this
      exact absurd (hlisted.symm.trans hhidden) Bool.noConfusion
  · rintro ⟨node, hnode, heq⟩
    cases heq
    exact ⟨hpath node hnode ▸ hthere node hnode kind, (hdir node hnode).2⟩

end Written

/-! ### What the listings take for records -/

theorem cut_of_isPrefixOf (hword : '.' ∉ word) (h : (word ++ ['.']).isPrefixOf name = true) :
    cut '.' name = (word, some (name.drop (word.length + 1))) := by
  obtain ⟨rest, rfl⟩ := List.isPrefixOf_iff_prefix.1 h
  rw [List.drop_left' (by simp), List.append_assoc, List.singleton_append, cut_append hword]

theorem cut_of_fenceListed (h : fenceListed name = true) :
    cut '.' name = (lit "fence", some (name.drop 6)) := by
  simp only [fenceListed, Bool.and_eq_true, show lit "fence." = lit "fence" ++ ['.'] by simp [lit_def]] at h
  rw [cut_of_isPrefixOf (by simp [lit_def]) h.1.1, show (lit "fence").length = 5 by simp [lit_def]]

theorem cut_of_appliedListed (h : appliedListed name = true) :
    cut '.' name = (lit "catalog", some (name.drop 8)) := by
  simp only [appliedListed, Bool.and_eq_true, show lit "catalog." = lit "catalog" ++ ['.'] by simp [lit_def]] at h
  rw [cut_of_isPrefixOf (by simp [lit_def]) h.1.1, show (lit "catalog").length = 7 by simp [lit_def]]

theorem NodeFile.cut_path (hkind : kind ≠ .address) (node : Text) :
    cut '.' (kind.path node).name = (kind.word, some node) := by
  rw [NodeFile.path_of_ne hkind, cut_append kind.notMem_word]

theorem fenceListed_own (hdir : file.path.dir = []) : fenceListed file.path.name = false := by
  by_contra hlisted
  have hmem := file.cut_mem_ownNames hdir
  rw [cut_of_fenceListed (Bool.not_eq_false _ ▸ hlisted)] at hmem
  simp [ownNames, lit_def] at hmem

theorem fenceListed_lock (hdir : lock.path.dir = []) : fenceListed lock.path.name = false := by
  have hsuffix : (lit ".lock").isSuffixOf lock.path.name = true := by
    rw [List.isSuffixOf_iff_suffix]
    cases lock with
    | exportEpoch fsid => simp [StoreLock.path, LightNfs.fsDir, lit_def] at hdir
    | nodeEpoch node => exact List.suffix_append ..
    | _ => decide +kernel
  rw [fenceListed, hsuffix]
  simp

theorem validApplied_of_listed (h : appliedListed name = true) :
    name.drop 8 ≠ lit "toml" ∧ name.drop 8 ≠ lit "lock" ∧ name.drop 8 ≠ lit "history" := by
  simp only [appliedListed, validAppliedNode, Bool.and_eq_true, bne_iff_ne] at h
  exact ⟨h.2.1.1.1.1.2, h.2.1.1.1.2, h.2.1.1.2⟩

theorem appliedListed_own (hdir : file.path.dir = []) : appliedListed file.path.name = false := by
  by_contra hlisted
  rw [Bool.not_eq_false] at hlisted
  have hmem := file.cut_mem_ownNames hdir
  obtain ⟨htoml, -, hhistory⟩ := validApplied_of_listed hlisted
  rw [cut_of_appliedListed hlisted] at hmem
  simp only [ownNames, List.mem_cons, Prod.mk.injEq, Option.some.injEq, htoml, hhistory, and_false, reduceCtorEq,
    List.not_mem_nil, or_false, false_or] at hmem
  exact absurd hmem.1 (by simp [lit_def])

theorem appliedListed_lock (hdir : lock.path.dir = []) :
    appliedListed lock.path.name = false := by
  by_contra hlisted
  rw [Bool.not_eq_false] at hlisted
  have hcut := cut_of_appliedListed hlisted
  obtain ⟨-, hlock, -⟩ := validApplied_of_listed hlisted
  cases lock with
  | exportEpoch fsid => simp [StoreLock.path, LightNfs.fsDir, lit_def] at hdir
  | nodeEpoch node => simp [StoreLock.path, cut, lit_def] at hcut
  | catalog => exact hlock (by simp [StoreLock.path, lit_def])
  | _ => exact absurd (congrArg Prod.fst hcut) (by simp [StoreLock.path, cut, lit_def])

theorem NodeFile.word_injective {kind' : NodeFile} (h : kind.word = kind'.word) : kind = kind' := by
  revert h
  cases kind <;> cases kind' <;> simp [NodeFile.word, lit_def]

/-! ### The listings -/

section Listings

variable {recs : NodeName → NodeRecords} {nodes : List NodeName} (hnodup : nodes.Nodup)
  (hnodes : ∀ node ∈ nodes, UsableName node.text) (hrecs : ∀ node ∈ nodes, (recs node).ReadBack node.text)
  {background : Files} (hback : Backdrop background)
include hnodup hnodes hrecs hback

theorem written_perm_word {kind : NodeFile} (hkind : kind ≠ .address) (listed : Text → Bool)
    (hlisted : ∀ node ∈ nodes, listed (kind.path node.text).name = true)
    (hword : ∀ {name}, listed name = true → (cut '.' name).1 = kind.word)
    (hown : ∀ file : OwnFile, file.path.dir = [] → listed file.path.name = false)
    (hlocks : ∀ lock : StoreLock, lock.path.dir = [] → listed lock.path.name = false)
    (htemps : ∀ name, isTemp name = true → listed name = false) :
    (((writeNodes background recs nodes).entriesIn []).filter fun file => listed file.1).Perm
      (nodes.map fun node => ((kind.path node.text).name, (recs node).textOf kind)) := by
  refine written_perm hnodup hnodes hrecs hback kind [] listed (fun node hnode => ⟨?_, hlisted node hnode⟩)
    (fun node hnode kind' hne hdir => ?_) hown hlocks htemps
  · rw [NodeFile.path_of_ne hkind]
  · by_contra hother
    have haddress : kind' ≠ .address := by
      rintro rfl
      rw [NodeFile.path, (hnodes node hnode).addressPath_eq] at hdir
      exact nodesDir_ne_nil hdir
    have hcut := hword (Bool.not_eq_false _ ▸ hother)
    rw [NodeFile.cut_path haddress] at hcut
    exact hne (NodeFile.word_injective hcut)

theorem listFences_writeNodes : ∃ listed, listFences (writeNodes background recs nodes) = .ok listed ∧
    listed.Perm (nodes.map fun node => (recs node).fence) := by
  have hperm := written_perm_word hnodup hnodes hrecs hback (by decide : NodeFile.fence ≠ .address) fenceListed
    (fun node hnode => (hnodes node hnode).1) (fun hlisted => by rw [cut_of_fenceListed hlisted]; rfl)
    (fun _ => fenceListed_own) (fun _ => fenceListed_lock) fun name htemp => by simp [fenceListed, htemp]
  obtain ⟨listed, hlisted, hsame⟩ := parseEach_of_perm (fun file => parseNodeFences (file.1.drop 6) file.2)
    (fun node => (recs node).fence) hperm fun node hnode => by
      simpa [NodeFile.path, NodeRecords.textOf] using (hrecs node hnode).fence
  refine ⟨listed.insertionSort (·.node ≤ ·.node), ?_, (List.perm_insertionSort ..).trans hsame⟩
  simp only [listFences, hlisted, bind, Except.bind, pure, Except.pure]

theorem listCatalogApplied_writeNodes :
    ∃ listed, listCatalogApplied (writeNodes background recs nodes) = .ok listed ∧
      listed.Perm (nodes.map fun node => (recs node).applied) := by
  have hnames : ∀ node ∈ nodes, appliedListed (NodeFile.applied.path node.text).name = true := by
    intro node hnode
    have h := hnodes node hnode
    have hname : (NodeFile.applied.path node.text).name = lit "catalog." ++ node.text := rfl
    have hdrop : (lit "catalog." ++ node.text).drop 8 = node.text := drop_appliedPath node.text
    rw [appliedListed, h.path_notTemp, hname, hdrop, h.validApplied node.valid,
      List.isPrefixOf_iff_prefix.2 (List.prefix_append ..)]
    rfl
  have hperm := written_perm_word hnodup hnodes hrecs hback (by decide : NodeFile.applied ≠ .address) appliedListed
    hnames (fun hlisted => by rw [cut_of_appliedListed hlisted]; rfl)
    (fun _ => appliedListed_own) (fun _ => appliedListed_lock) fun name htemp => by simp [appliedListed, htemp]
  obtain ⟨listed, hlisted, hsame⟩ := parseEach_of_perm (fun file => parseCatalogApplied (file.1.drop 8) file.2)
    (fun node => (recs node).applied) hperm fun node hnode => by
      simpa [NodeFile.path, NodeRecords.textOf] using (hrecs node hnode).applied
  refine ⟨listed.insertionSort (·.node ≤ ·.node), ?_, (List.perm_insertionSort ..).trans hsame⟩
  simp only [listCatalogApplied, hlisted, bind, Except.bind, pure, Except.pure]

theorem listNodes_writeNodes : (listNodes (writeNodes background recs nodes)).Perm
    (nodes.map fun node => (node.text, (recs node).address)) := by
  have hpath : ∀ node ∈ nodes, NodeFile.address.path node.text = ⟨nodesDir, node.text⟩ :=
    fun node hnode => (hnodes node hnode).addressPath_eq
  have hperm := written_perm hnodup hnodes hrecs hback .address nodesDir (fun name => !isTemp name)
    (fun node hnode => ?_) (fun node hnode kind hkind hdir => ?_) (fun file hdir => absurd hdir file.dir_ne_nodesDir)
    (fun lock hdir => absurd hdir lock.dir_ne_nodesDir) fun name htemp => by simp [htemp]
  · refine (List.perm_insertionSort ..).trans ((hperm.map _).trans (List.Perm.of_eq ?_))
    rw [List.map_map]
    refine List.map_congr_left fun node hnode => ?_
    simp only [Function.comp, hpath node hnode, NodeRecords.textOf, (hrecs node hnode).address]
  · simp [hpath node hnode, (hnodes node hnode).notTemp]
  · rw [NodeFile.path_of_ne hkind] at hdir
    exact absurd hdir.symm nodesDir_ne_nil

end Listings

/-! ### Which names work -/

/-- Records that any node could write. -/
def plainRecords (node : Text) : NodeRecords where
  epoch := 1
  fence := { node }
  digest := []
  applied := ⟨node, 1, ['0'], 0, ['o', 'k']⟩
  address := []

theorem plainRecords_readBack (node : Text) : (plainRecords node).ReadBack node where
  fence := by
    rw [parseNodeFences_text (by exact List.Pairwise.nil), if_neg (by simp [plainRecords])]
    rfl
  accepted := rfl
  applied := parseCatalogApplied_text rfl (by simp [plainRecords]) (by simp [plainRecords]) node
  address := trim_line (by simp [plainRecords]) (by simp [plainRecords])

/-- The files of a set of nodes are told apart and listed as written exactly when all their names are usable. -/
theorem namesWork_iff {nodes : List NodeName} (hnodup : nodes.Nodup) :
    NamesWork nodes ↔ ∀ node ∈ nodes, UsableName node.text := by
  constructor
  · intro h node hnode
    have hlisted := (h.listed ∅ (fun node => plainRecords node.text) (fun _ _ hfind => by simp at hfind)
      fun node _ => plainRecords_readBack node.text).fences
    refine ⟨?_, fun heq => ?_, fun heq => ?_, fun heq => ?_, fun heq => ?_⟩
    · obtain ⟨listed, hlist, hperm⟩ := hlisted
      have hmem : (plainRecords node.text).fence ∈ listed :=
        hperm.mem_iff.2 (List.mem_map_of_mem (f := fun node => (plainRecords node.text).fence) hnode)
      exact ((mem_listFences hlist _).1 hmem).1
    · exact h.own node hnode .applied .catalog (by rw [heq]; decide +kernel)
    · exact h.own node hnode .applied .historyDir (by rw [heq]; decide +kernel)
    · exact h.own node hnode .address .nodesDir (by rw [heq]; rfl)
    · exact h.own node hnode .address .sharedDir (by rw [heq]; rfl)
  · intro h
    refine ⟨fun node hnode node' hnode' kind kind' heq => ?_, fun node hnode => (h node hnode).path_ne_own,
      fun node hnode => (h node hnode).path_ne_lock, fun node hnode => (h node hnode).path_ne_temp,
      fun background recs hback hrecs => ?_⟩
    · obtain ⟨hkind, htext⟩ := (h node hnode).path_injective (h node' hnode') heq
      exact ⟨hkind, NodeName.ext htext⟩
    · exact ⟨listFences_writeNodes hnodup h hrecs hback, listCatalogApplied_writeNodes hnodup h hrecs hback,
        listNodes_writeNodes hnodup h hrecs hback⟩

theorem namesWork_iff_two : NamesWork [⟨lit "gw-1", by decide +kernel⟩, ⟨lit "gw.2.lan", by decide +kernel⟩] :=
  (namesWork_iff (by decide +kernel)).2 (by decide +kernel)

theorem hiddenNode_valid : validClusterNodeName (lit "gw.lock") = true := by decide +kernel

/-- An accepted name that looks like that of a lock. -/
def hiddenNode : NodeName := ⟨lit "gw.lock", hiddenNode_valid⟩

/-- The fence record of such a node is never listed, and the status of a node `toml` would go to the catalog. -/
theorem names_fail :
    listFences (writeNodes ∅ (fun node => plainRecords node.text) [hiddenNode]) = .ok [] ∧
      ¬ NamesWork [hiddenNode] ∧
      validClusterNodeName (lit "toml") = true ∧ NodeFile.applied.path (lit "toml") = OwnFile.catalog.path := by
  have hlist : listFences (writeNodes ∅ (fun node => plainRecords node.text) [hiddenNode]) = .ok [] := by
    decide +kernel
  refine ⟨hlist, fun h => ?_, by decide +kernel, by decide +kernel⟩
  obtain ⟨listed, hlisted, hperm⟩ := (h.listed ∅ (fun node => plainRecords node.text)
    (fun _ _ hfind => by simp at hfind) fun node _ => plainRecords_readBack node.text).fences
  rw [hlist] at hlisted
  cases hlisted
  exact absurd hperm.length_eq (by simp)

end LightNfs

import LightNfs.State.Runs

/-!
# Records and files

Only six kinds of frame change a state record or the lists of a file. A record that is not closed is always
in its file's list: it is published there when it is created and dropped only by whoever closed it.
-/

namespace LightNfs

/-- The frames that change a record or a file's lists. -/
def Frame.OnRecords : Frame → Prop
  | unlinkState _ _ _ | unlinkFile _ _ _ | openArbitrate _ _ _ | grantFile _ _ _ | downgradeWrite _ _ _ _
  | lockFile _ => True
  | _ => False

namespace Tables

/-! ### Sections that stay within the client tables -/

/-- These tables with the client tables of `u`. -/
def withClients (t u : Tables) : Tables :=
  { t with
    clients := u.clients, clientRefs := u.clientRefs, nextClient := u.nextClient, byId := u.byId,
    clientIdx := u.clientIdx, byOwner := u.byOwner }

def OnlyClients (t t' : Tables) : Prop := t' = t.withClients t'

namespace OnlyClients

variable {cfg : Config} {t t' t'' : Tables}

theorem refl (t : Tables) : t.OnlyClients t := rfl

theorem trans (h : t.OnlyClients t') (h' : t'.OnlyClients t'') : t.OnlyClients t'' :=
  calc t'' = t'.withClients t'' := h'
    _ = (t.withClients t').withClients t'' := congrArg (withClients · t'') h
    _ = t.withClients t'' := rfl

theorem eq_of_read {α : Type} (h : t.OnlyClients t') (g : Tables → α) (hg : ∀ u, g (t.withClients u) = g t) :
    g t' = g t := (congrArg g h).trans (hg t')

theorem unpersist (cfg : Config) (t : Tables) (c : ClientRef) : t.OnlyClients (t.unpersist cfg c) := by
  unfold Tables.unpersist
  split
  · rfl
  · exact refl t

theorem dropUnconfirmed (cfg : Config) (t : Tables) (slot : OwnerSlot) :
    t.OnlyClients (t.dropUnconfirmed cfg slot) := by
  unfold Tables.dropUnconfirmed
  split
  · rfl
  · exact refl t

theorem vacated {o : Bytes} {slot : OwnerSlot} {u : Tables} (hu : t.Vacated cfg o slot u) : t.OnlyClients u := by
  cases hu with
  | same => exact refl t
  | evicted => exact (unpersist cfg t _).trans rfl

theorem exchanged {o : Bytes} {slot : OwnerSlot} {u : Tables} (hu : t.Vacated cfg o slot u) :
    t.OnlyClients (u.dropUnconfirmed cfg slot) := (vacated hu).trans (dropUnconfirmed cfg u slot)

theorem remove (cfg : Config) (t : Tables) (c : ClientRef) : t.OnlyClients (t.remove cfg c) :=
  (unpersist cfg t c).trans rfl

theorem confirmIncarnation (cfg : Config) (t : Tables) (c : ClientRef) :
    t.OnlyClients (t.confirmIncarnation cfg c) := by
  have hold : t.OnlyClients (t.retireOld cfg c) := by
    unfold retireOld
    split
    · rfl
    · exact refl t
  exact hold.trans rfl

end OnlyClients

/-! ### Sections that leave the records alone -/

structure SameRecords (t t' : Tables) : Prop where
  states : t'.states = t.states
  stateRefs : t'.stateRefs = t.stateRefs
  files : t'.files = t.files

namespace SameRecords

variable {cfg : Config} {t t' t'' : Tables}

theorem of_onlyClients (h : t.OnlyClients t') : t.SameRecords t' :=
  ⟨h.eq_of_read _ fun _ => rfl, h.eq_of_read _ fun _ => rfl, h.eq_of_read _ fun _ => rfl⟩

theorem of_change {f : Frame} (hc : Change cfg t f t') (hf : ¬f.OnRecords) : t.SameRecords t' := by
  cases hc with
  | exchangeFull hu => exact of_onlyClients ((OnlyClients.exchanged hu).trans rfl)
  | exchangeNew hu => exact of_onlyClients ((OnlyClients.exchanged hu).trans rfl)
  | @createFirst c =>
    have hconfirm := of_onlyClients (OnlyClients.confirmIncarnation cfg t c)
    exact ⟨hconfirm.states, hconfirm.stateRefs, hconfirm.files⟩
  | destroyClient | scanLapsed => exact of_onlyClients (OnlyClients.remove cfg t _)
  | unpersist => exact of_onlyClients (OnlyClients.unpersist cfg t _)
  | close | dropFromFile | openMerge | openNew | grantNew | downgrade | lockNew | lockReuse => exact absurd trivial hf
  | _ => exact ⟨rfl, rfl, rfl⟩

theorem fileAt (h : t.SameRecords t') (k : FileKey) : t'.fileAt k = t.fileAt k := by
  rw [Tables.fileAt, Tables.fileAt, h.files]

end SameRecords

/-! ### The lists of the files -/

def Listed (t : Tables) (r : StateRef) : Prop := r ∈ (t.fileAt (t.states r).key).list (t.states r).type

def Filed (t : Tables) : Prop := ∀ r < t.stateRefs, (t.states r).closed = false → t.Listed r

variable {cfg : Config} {t t' : Tables}
variable {f : Frame} {r : StateRef}

theorem fileAt_dropFromFile (t : Tables) (r : StateRef) (k : FileKey) (type : StateType) :
    ((t.dropFromFile r).fileAt k).list type =
      if k = (t.states r).key ∧ type = (t.states r).type then ((t.fileAt k).list type).filter (· ≠ r)
      else (t.fileAt k).list type := by
  simp only [dropFromFile]
  cases hfile : t.files (t.states r).key with
  | none =>
    dsimp only
    by_cases hk : k = (t.states r).key
    · simp [hk, fileAt, hfile]
    · simp [hk]
  | some file =>
    have hat : t.fileAt (t.states r).key = file := by simp [fileAt, hfile]
    by_cases hk : k = (t.states r).key
    · subst hk
      rw [hat]
      have hdrop : ((t.setFile (t.states r).key (if (file.drop (t.states r).type r).isEmpty = true then none
          else some (file.drop (t.states r).type r))).fileAt (t.states r).key).list type =
          (file.drop (t.states r).type r).list type := by
        simp only [fileAt, setFile, Function.update_self]
        split
        · rename_i hempty
          rw [FileStateRec.isEmpty_iff.mp hempty]
          exact FileStateRec.list_empty type
        · rfl
      rw [hdrop, FileStateRec.list_drop]
      simp
    · simp [fileAt, setFile, hk]

theorem dropFromFile_eq (t : Tables) (r : StateRef) : ∃ files, t.dropFromFile r = { t with files := files } := by
  simp only [dropFromFile]
  split
  · exact ⟨t.files, rfl⟩
  · exact ⟨_, rfl⟩

theorem states_dropFromFile (t : Tables) (r : StateRef) : (t.dropFromFile r).states = t.states := by
  obtain ⟨files, heq⟩ := t.dropFromFile_eq r
  rw [heq]

theorem stateRefs_dropFromFile (t : Tables) (r : StateRef) : (t.dropFromFile r).stateRefs = t.stateRefs := by
  obtain ⟨files, heq⟩ := t.dropFromFile_eq r
  rw [heq]

theorem fileAt_touchFile (t : Tables) (key k : FileKey) : (t.touchFile key).fileAt k = t.fileAt k := by
  by_cases hk : k = key
  · subst hk
    simp [touchFile, fileAt, setFile]
  · simp [touchFile, fileAt, setFile, hk]

theorem Filed.change (h : t.Filed) (hf : f.Wf t) (hc : Change cfg t f t') : t'.Filed := by
  have hpublish : ∀ {u : Tables} (v : StateView), t.SameRecords u → (u.publish v).Filed := by
    intro u v hu r hr hopen
    simp only [Listed, states_publish, fileAt_publish, hu.states, hu.stateRefs, hu.fileAt] at hopen ⊢
    split
    · rename_i hnew
      rw [if_pos rfl, FileStateRec.list_push, if_pos rfl, hnew]
      exact List.mem_append_right _ (List.mem_singleton_self _)
    · rename_i hold
      rw [if_neg hold] at hopen
      have hlt : r < t.stateRefs := by
        have hle : r ≤ u.stateRefs := Nat.lt_succ_iff.mp hr
        rw [hu.stateRefs] at hle
        exact Nat.lt_of_le_of_ne hle hold
      have hlisted := h r hlt hopen
      split
      · rw [FileStateRec.list_push]
        split
        · exact List.mem_append_left _ hlisted
        · exact hlisted
      · exact hlisted
  have hshare : ∀ r access deny, (t.setShare r access deny).Filed := by
    intro r access deny r' hr' hopen
    simp only [Listed, setShare, setState, Function.update_apply] at hopen ⊢
    split
    · rename_i heq
      subst heq
      rw [if_pos rfl] at hopen
      exact h r' hr' hopen
    · rename_i hne
      rw [if_neg hne] at hopen
      exact h r' hr' hopen
  by_cases hrec : f.OnRecords
  · cases hc with
    | close =>
      intro r' hr' hopen
      simp only [Listed, close, setState, Function.update_apply] at hopen ⊢
      split
      · rename_i heq
        rw [if_pos heq] at hopen
        exact absurd hopen (by simp)
      · rename_i hne
        rw [if_neg hne] at hopen
        exact h r' hr' hopen
    | dropFromFile =>
      intro r' hr' hopen
      rw [Listed, states_dropFromFile, fileAt_dropFromFile]
      rw [states_dropFromFile] at hopen
      rw [stateRefs_dropFromFile] at hr'
      have hlisted := h r' hr' hopen
      split
      · refine List.mem_filter.mpr ⟨hlisted, decide_eq_true fun heq => ?_⟩
        have hclosed : (t.states r').closed = true := heq ▸ hf.2
        rw [hopen] at hclosed
        exact absurd hclosed (by simp)
      · exact hlisted
    | openMerge => exact hshare _ _ _
    | downgrade => exact hshare _ _ _
    | openNew => exact hpublish _ ⟨rfl, rfl, rfl⟩
    | lockNew => exact hpublish _ ⟨rfl, rfl, rfl⟩
    | grantNew => exact hpublish _ ⟨rfl, rfl, rfl⟩
    | lockReuse =>
      intro r' hr' hopen
      rw [Listed, fileAt_touchFile]
      exact h r' hr' hopen
    | quiet | unlinkAgain | openRefused | grantBlocked => exact h
    | insert hins => cases hins <;> exact hrec.elim
    | trackRefused htrack => exact h
    | track htrack => cases htrack <;> exact hrec.elim
    | _ => exact hrec.elim
  · have hsame := SameRecords.of_change hc hrec
    intro r hr hopen
    rw [hsame.stateRefs] at hr
    rw [hsame.states] at hopen
    rw [Listed, hsame.states, hsame.fileAt]
    exact h r hr hopen

/-! ### What happens to a record -/

/-- The contents a frame may leave in a record that exists. -/
inductive RecordStep (t : Tables) (r : StateRef) : Frame → StateView → Prop
  | kept {f : Frame} : RecordStep t r f (t.states r)
  | closed {fromClient handover : Bool} (hopen : (t.states r).closed = false) :
      RecordStep t r (.unlinkState r fromClient handover) { t.states r with closed := true }
  | merged {c : ClientRef} {args : OpenArgs} {attempt : Nat} (hadmits : t.Admits c args)
      (hr : r ∈ (t.fileAt args.file).opens) (hlive : t.Live r) (hclient : (t.states r).client = c)
      (howner : (t.states r).owner = args.owner) :
      RecordStep t r (.openArbitrate c args attempt)
        { t.states r with
          access := (t.states r).access ||| args.access, deny := (t.states r).deny ||| args.deny }
  | narrowed {other : StateOther} {access deny : ShareBits} :
      RecordStep t r (.downgradeWrite r other access deny) { t.states r with access := access, deny := deny }

theorem recordStep_set {q : StateRef} {v : StateView} (hv : r = q → t.RecordStep r f v) :
    t.RecordStep r f ((t.setState q v).states r) := by
  simp only [setState, Function.update_apply]
  split
  · rename_i h
    exact hv h
  · exact .kept

theorem recordStep_publish {u : Tables} (v : StateView) (hstates : u.states = t.states)
    (hr : r < u.stateRefs) : t.RecordStep r f ((u.publish v).states r) := by
  rw [states_publish, if_neg (Nat.ne_of_lt hr), hstates]
  exact .kept

theorem recordStep_change (hc : Change cfg t f t') (hr : r < t.stateRefs) :
    t.RecordStep r f (t'.states r) := by
  by_cases hrec : f.OnRecords
  · cases hc with
    | close hopen =>
      refine recordStep_set fun hrq => ?_
      subst hrq
      exact .closed hopen
    | dropFromFile =>
      rw [states_dropFromFile]
      exact .kept
    | openMerge hadmits hmem hlive hclient howner =>
      refine recordStep_set fun hrq => ?_
      subst hrq
      exact .merged hadmits hmem hlive hclient howner
    | downgrade =>
      refine recordStep_set fun hrq => ?_
      subst hrq
      exact .narrowed
    | openNew | grantNew | lockNew => exact recordStep_publish _ rfl hr
    | lockReuse | quiet | unlinkAgain | openRefused | grantBlocked | trackRefused => exact .kept
    | insert hins => cases hins <;> exact hrec.elim
    | track htrack => cases htrack <;> exact hrec.elim
    | _ => exact hrec.elim
  · rw [(SameRecords.of_change hc hrec).states]
    exact .kept

end Tables

structure FiledInv (cfg : Config) (s : Shared) (fs : List Frame) : Prop where
  live : Live cfg s fs
  filed : s.tables.Filed

/-- In every interleaving of requests, what a table or a record refers to exists and is of the right client and
kind, and a state that is not closed is on the list of its file. -/
theorem references_valid (cfg : Config) (events : List (Machine.Event Frame Input))
    (hrun : anyRun.Permits (server cfg) boot events) :
    let t := ((server cfg).run boot events).state.tables
    t.Wf cfg ∧ t.Filed := by
  have hboot : FiledInv cfg boot.state boot.frames := ⟨Live.boot cfg, fun r hr => absurd hr (Nat.not_lt_zero r)⟩
  have hinv : FiledInv cfg ((server cfg).run boot events).state ((server cfg).run boot events).frames :=
    Machine.run_invariant (fun _ _ _ h hf => ⟨h.live.spawn hf, h.filed⟩)
      (fun s _ f _ input h _ => ⟨h.live.step input, h.filed.change h.live.current (s.exec_change cfg input f)⟩)
      hboot hrun
  exact ⟨hinv.live.tables, hinv.filed⟩

/-- A client opens a file and locks a range of it. -/
def lockedOnce (file : FileKey) : List (Machine.Event Frame Input) :=
  join 0 [65] 0x100000001 ++
    request 3 (.openState { clientid := 0x100000001, file := file, owner := [97], access := 3, deny := 0 }) 8 ++
    request 4 (.lock { clientid := 0x100000001, file := file, exclusive := true, range := ⟨0, 10⟩, newOwner := true,
                       openStateid := ⟨1, 1, 1, 1⟩, owner := [108] }) 13

theorem references_valid_after_lock :
    let file : FileKey := ⟨1, ⟨[1], length_one_le⟩⟩
    let t := ((server {}).run boot (lockedOnce file)).state.tables
    t.Wf {} ∧ t.Filed ∧ (t.fileAt file).locks = [1] ∧ (t.states 1).parentOpen = some 0 := by
  intro file t
  obtain ⟨hwf, hfiled⟩ := references_valid {} (lockedOnce file) (by decide +kernel)
  exact ⟨hwf, hfiled, by decide +kernel, by decide +kernel⟩

end LightNfs

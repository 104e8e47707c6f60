import PolyORB.Dsa.StorageLives
import PolyORB.Lib.Runs

/-!
# Runs of the file storage

The lives of the managers, the LRU chains and the files, over the steps of all partitions.
-/

namespace PolyORB

namespace Storage

variable {α : Type} {s s' : Storage α} {t p v : Nat} {k : Nat × Nat} {task task' : StorageTask α}

/-! ## The chain -/

/-- `Prev` and `Next` of the managers of a partition. -/
def links (s : Storage α) (p : Nat) : Linked.Heap Unit := fun v =>
  some ⟨(), (s.manager (p, v)).prev, (s.manager (p, v)).next⟩

def chain (l : List Nat) : List (Nat × Unit) := l.map (·, ())

theorem addresses_chain (l : List Nat) : Linked.addresses (chain l) = l := by
  rw [Linked.addresses, chain, List.map_map]
  exact List.map_id l

/-- The managers `l` are the chain of the partition, and those whose file is open. -/
structure IsChain (s : Storage α) (p : Nat) (l : List Nat) : Prop where
  linked : Linked.IsList (s.links p) (s.lru p) (chain l)
  length : l.length = s.sharedFilesOpen p
  mem : ∀ v, v ∈ l ↔ (s.life (p, v)).Chained

/-- No other manager points anywhere. -/
structure ChainInv (s : Storage α) (p : Nat) (l : List Nat) : Prop extends s.IsChain p l where
  lt : l.length < maxSharedFilesOpen
  apart : ∀ v ∉ l, (s.manager (p, v)).prev = none ∧ (s.manager (p, v)).next = none

theorem links_modifyManager (f : DfsManager → DfsManager) :
    (s.modifyManager (p, v) f).links p = Function.update (s.links p) v
      (some ⟨(), (f (s.manager (p, v))).prev, (f (s.manager (p, v))).next⟩) := by
  funext w
  by_cases hw : w = v
  · subst hw
    rw [Function.update_self, links, modifyManager_self]
  · have hother : (s.modifyManager (p, v) f).manager (p, w) = s.manager (p, w) :=
      Function.update_of_ne (fun h => hw (Prod.mk.inj h).2) ..
    rw [Function.update_of_ne hw, links, hother]
    rfl

theorem links_modifyAt (q : Option Nat) (w : Nat) :
    (s.modifyAt p q fun m => { m with next := some w }).links p =
      Linked.modify (s.links p) q fun n => { n with next := some w } := by
  funext v
  cases q with
  | none => rfl
  | some b =>
    rw [modifyAt, links_modifyManager, Linked.modify]
    by_cases hb : v = b
    · subst hb
      rw [Function.update_self, if_pos rfl]
      rfl
    · rw [Function.update_of_ne hb, if_neg fun h => hb (Option.some.inj h).symm]

theorem insertLast_append
    (hapart : (s.manager (p, v)).prev = none ∧ (s.manager (p, v)).next = none) :
    (s.insertLast p v).links p = (Linked.append (s.links p) (s.lru p) v ()).1 ∧
      (s.insertLast p v).lru p = (Linked.append (s.links p) (s.lru p) v ()).2 := by
  have hself : Function.update (s.links p) v (some ⟨(), none, none⟩) = s.links p := by
    have hnode : s.links p v = some ⟨(), none, none⟩ := by rw [links, hapart.1, hapart.2]
    rw [← hnode]
    exact Function.update_eq_self v (s.links p)
  unfold insertLast Linked.append
  cases (s.lru p).head with
  | none => exact ⟨hself.symm, Function.update_self ..⟩
  | some head =>
    refine ⟨?_, Function.update_self ..⟩
    have hset (s' : Storage α) (e : Linked.Ends) : (s'.setLru p e).links p = s'.links p := rfl
    rw [hset, links_modifyAt, links_modifyManager, hapart.2]

theorem insertLast_core (s : Storage α) (p v : Nat) (k : Nat × Nat) :
    core ((s.insertLast p v).manager k) = core (s.manager k) := by
  have hset (s' : Storage α) (e : Linked.Ends) : (s'.setLru p e).manager = s'.manager := rfl
  have hprev (s' : Storage α) (q : Option Nat) :
      core ((s'.modifyManager (p, v) fun m => { m with prev := q }).manager k) =
        core (s'.manager k) := by
    by_cases hk : k = (p, v)
    · subst hk
      rw [modifyManager_self]
      rfl
    · exact congrArg core (Function.update_of_ne hk ..)
  have hnext (s' : Storage α) (w : Nat) :
      core ((s'.modifyManager (p, w) fun m => { m with next := some v }).manager k) =
        core (s'.manager k) := by
    by_cases hk : k = (p, w)
    · subst hk
      rw [modifyManager_self]
      rfl
    · exact congrArg core (Function.update_of_ne hk ..)
  unfold insertLast
  cases (s.lru p).head with
  | none => rfl
  | some head =>
    cases (s.lru p).tail with
    | none => exact hprev s none
    | some w => exact (hnext _ w).trans (hprev s (some w))

theorem insertLast_rest (s : Storage α) (p v : Nat) : (s.insertLast p v).tasks = s.tasks ∧
    (s.insertLast p v).lockFile = s.lockFile ∧ (s.insertLast p v).content = s.content ∧
    (s.insertLast p v).written = s.written ∧ (s.insertLast p v).emptied = s.emptied ∧
    (s.insertLast p v).sharedFilesOpen = s.sharedFilesOpen := by
  unfold insertLast
  cases (s.lru p).head with
  | none => exact ⟨rfl, rfl, rfl, rfl, rfl, rfl⟩
  | some head => cases (s.lru p).tail <;> exact ⟨rfl, rfl, rfl, rfl, rfl, rfl⟩

theorem insertLast_other (s : Storage α) (p v : Nat) {q : Nat} (hq : q ≠ p) :
    (s.insertLast p v).links q = s.links q ∧ (s.insertLast p v).lru q = s.lru q := by
  have hmod (s' : Storage α) (w : Nat) (f : DfsManager → DfsManager) :
      (s'.modifyManager (p, w) f).links q = s'.links q := by
    funext u
    have hother : (s'.modifyManager (p, w) f).manager (q, u) = s'.manager (q, u) :=
      Function.update_of_ne (fun h => hq (Prod.mk.inj h).1) ..
    rw [links, hother]
    rfl
  have hset (s' : Storage α) (e : Linked.Ends) :
      (s'.setLru p e).links q = s'.links q ∧ (s'.setLru p e).lru q = s'.lru q :=
    ⟨rfl, Function.update_of_ne hq ..⟩
  unfold insertLast
  cases (s.lru p).head with
  | none => exact hset s _
  | some head =>
    rw [(hset _ _).1, (hset _ _).2]
    cases (s.lru p).tail with
    | none =>
      simp only [modifyAt]
      exact ⟨hmod s v _, rfl⟩
    | some w =>
      simp only [modifyAt]
      exact ⟨(hmod _ w _).trans (hmod s v _), rfl⟩

theorem insertLast_counter (f : Nat → Nat) :
    ({ s with sharedFilesOpen := f } : Storage α).insertLast p v =
      { s.insertLast p v with sharedFilesOpen := f } := by
  unfold insertLast
  cases (s.lru p).head with
  | none => rfl
  | some head => cases (s.lru p).tail <;> rfl

theorem countFile_of_lt (hlt : s.sharedFilesOpen p + 1 < maxSharedFilesOpen) :
    s.countFile p v = { s.insertLast p v with
      sharedFilesOpen := Function.update s.sharedFilesOpen p (s.sharedFilesOpen p + 1) } := by
  unfold countFile
  simp only
  rw [if_neg (by rw [Function.update_self]; exact hlt.ne), insertLast_counter]

theorem chainInv_insertLast {l : List Nat} (h : s.ChainInv p l) (hv : v ∉ l) :
    Linked.IsList ((s.insertLast p v).links p) ((s.insertLast p v).lru p) (chain (l ++ [v])) ∧
      ∀ u ∉ l ++ [v], ((s.insertLast p v).manager (p, u)).prev = none ∧
        ((s.insertLast p v).manager (p, u)).next = none := by
  obtain ⟨hlinks, hlru⟩ := insertLast_append (h.apart v hv)
  have hnot : v ∉ Linked.addresses (chain l) := by rwa [addresses_chain]
  have happ : chain (l ++ [v]) = chain l ++ [(v, ())] := List.map_append
  constructor
  · rw [hlinks, hlru, happ]
    exact h.linked.append hnot
  · intro u hu
    rw [List.mem_append, List.mem_singleton, not_or] at hu
    have hu' : u ∉ Linked.addresses (chain l) := by
      rw [addresses_chain]
      exact hu.1
    have hframe := h.linked.append_frame (x := ()) hu' hu.2
    rw [← hlinks] at hframe
    obtain ⟨hprev, hnext⟩ := h.apart u hu.1
    have hnode := Option.some.inj hframe
    have h1 := congrArg Linked.Node.prev hnode
    have h2 := congrArg Linked.Node.next hnode
    exact ⟨h1.trans hprev, h2.trans hnext⟩

/-! ## The invariant -/

variable {truncates : Bool} {encode : α → List UInt8} {decode : List UInt8 → Option α}

/-- Without a file nothing was written, and a file that is not empty for a Write to come has what
the last Write has written. -/
def FileOk (encode : α → List UInt8) (s : Storage α) (v : Nat) : Prop :=
  (s.content v = none → s.written v = none) ∧
    (s.emptied v = false → s.content v = none ∨
      ∃ x rest, s.written v = some x ∧ s.content v = some (encode x ++ rest))

/-- The task does not wait for a `PO_Mutex` that it has. -/
def LocksAnew (task : StorageTask α) : Prop :=
  ∀ v, task.phase = .locking v → task.holds v = false

structure StorageInv (encode : α → List UInt8) (s : Storage α) : Prop where
  lives : ∀ k, (s.life k).Inv
  chains : ∀ p, ∃ l, s.ChainInv p l
  files : ∀ v, s.FileOk encode v
  opened : ∀ k, (s.manager k).file.isSome = true → (s.content k.2).isSome = true
  locking : ∀ task ∈ s.tasks, LocksAnew task

theorem fileOk_congr
    (hfiles : s'.content = s.content ∧ s'.written = s.written ∧ s'.emptied = s.emptied) (v : Nat) :
    s'.FileOk encode v ↔ s.FileOk encode v := by
  obtain ⟨hcontent, hwritten, hemptied⟩ := hfiles
  unfold FileOk
  rw [hcontent, hwritten, hemptied]

theorem chains_keep (h : ∀ p, ∃ l, s.ChainInv p l)
    (hlife : ∀ k, ManagerLife.Step (s.life k) (s'.life k))
    (hlinks : ∀ k, (s'.manager k).prev = (s.manager k).prev ∧
      (s'.manager k).next = (s.manager k).next)
    (hlru : s'.lru = s.lru) (hopen : s'.sharedFilesOpen = s.sharedFilesOpen) (p : Nat) :
    ∃ l, s'.ChainInv p l := by
  obtain ⟨l, hl⟩ := h p
  have hheap : s'.links p = s.links p := by
    funext v
    rw [links, links, (hlinks (p, v)).1, (hlinks (p, v)).2]
  refine ⟨l, ⟨⟨?_, ?_, fun v => ?_⟩, hl.lt, fun v hv => ?_⟩⟩
  · rw [hheap, hlru]
    exact hl.linked
  · rw [hopen]
    exact hl.length
  · rw [(hlife (p, v)).chained]
    exact hl.mem v
  · rw [(hlinks (p, v)).1, (hlinks (p, v)).2]
    exact hl.apart v hv

theorem StorageInv.keep (h : s.StorageInv encode)
    (hlife : ∀ k, ManagerLife.Step (s.life k) (s'.life k))
    (htasks : s'.tasks = s.tasks.set t task')
    (hlinks : ∀ k, (s'.manager k).prev = (s.manager k).prev ∧
      (s'.manager k).next = (s.manager k).next)
    (hfile : ∀ k, (s'.manager k).file.isSome = (s.manager k).file.isSome)
    (hlru : s'.lru = s.lru) (hopen : s'.sharedFilesOpen = s.sharedFilesOpen)
    (hfiles : s'.content = s.content ∧ s'.written = s.written ∧ s'.emptied = s.emptied)
    (hnew : LocksAnew task') : s'.StorageInv encode := by
  refine ⟨fun k => (h.lives k).step (hlife k), chains_keep h.chains hlife hlinks hlru hopen,
    fun v => (fileOk_congr hfiles v).mpr (h.files v), fun k hk => ?_, fun x hx => ?_⟩
  · rw [hfile] at hk
    rw [hfiles.1]
    exact h.opened k hk
  · rw [htasks] at hx
    rcases List.mem_or_eq_of_mem_set hx with hx | rfl
    · exact h.locking x hx
    · exact hnew

theorem parts_modifyManager (k : Nat × Nat) (f : DfsManager → DfsManager)
    (hf : (f (s.manager k)).prev = (s.manager k).prev ∧
      (f (s.manager k)).next = (s.manager k).next ∧
      (f (s.manager k)).file.isSome = (s.manager k).file.isSome) (k' : Nat × Nat) :
    (((s.modifyManager k f).manager k').prev = (s.manager k').prev ∧
      ((s.modifyManager k f).manager k').next = (s.manager k').next) ∧
    ((s.modifyManager k f).manager k').file.isSome = (s.manager k').file.isSome := by
  by_cases hk : k' = k
  · subst hk
    rw [modifyManager_self]
    exact ⟨⟨hf.1, hf.2.1⟩, hf.2.2⟩
  · have hother : (s.modifyManager k f).manager k' = s.manager k' := Function.update_of_ne hk ..
    rw [hother]
    exact ⟨⟨rfl, rfl⟩, rfl⟩

theorem StorageInv.keepManager (h : s.StorageInv encode) (k : Nat × Nat)
    (f : DfsManager → DfsManager) (hlife : ∀ k, ManagerLife.Step (s.life k) (s'.life k))
    (htasks : s'.tasks = s.tasks.set t task')
    (hmanager : s'.manager = (s.modifyManager k f).manager)
    (hf : (f (s.manager k)).prev = (s.manager k).prev ∧
      (f (s.manager k)).next = (s.manager k).next ∧
      (f (s.manager k)).file.isSome = (s.manager k).file.isSome)
    (hlru : s'.lru = s.lru) (hopen : s'.sharedFilesOpen = s.sharedFilesOpen)
    (hfiles : s'.content = s.content ∧ s'.written = s.written ∧ s'.emptied = s.emptied)
    (hnew : LocksAnew task') : s'.StorageInv encode := by
  have hparts := parts_modifyManager k f hf
  refine h.keep hlife htasks (fun k => ?_) (fun k => ?_) hlru hopen hfiles hnew
  · rw [hmanager]
    exact (hparts k).1
  · rw [hmanager]
    exact (hparts k).2

section Steps

variable {r : StorageRequest α}

theorem StorageInv.entering (h : s.StorageInv encode) (ht : s.tasks[t]? = some task)
    (hp : task.phase = .entering v r) (hfree : (s.manager (task.partition, v)).ioMutex = false) :
    ((s.modifyManager (task.partition, v) fun m => { m with ioMutex := true }).setTask t
      { task with phase := .initiating v r }).StorageInv encode :=
  h.keepManager (task.partition, v) (fun m => { m with ioMutex := true })
    (step_entering ht hp hfree) rfl rfl ⟨rfl, rfl, rfl⟩ rfl rfl ⟨rfl, rfl, rfl⟩ nofun

theorem StorageInv.leaving (h : s.StorageInv encode) (ht : s.tasks[t]? = some task)
    (hp : task.phase = .leaving v) :
    ((s.modifyManager (task.partition, v) fun m => { m with ioMutex := false }).setTask t
      { task with phase := .idle }).StorageInv encode :=
  h.keepManager (task.partition, v) (fun m => { m with ioMutex := false })
    (step_leaving ht hp) rfl rfl ⟨rfl, rfl, rfl⟩ rfl rfl ⟨rfl, rfl, rfl⟩ nofun

theorem StorageInv.lockingStep (h : s.StorageInv encode) (ht : s.tasks[t]? = some task)
    (hp : task.phase = .locking v) (hfree : (s.manager (task.partition, v)).poMutex = false) :
    ((s.modifyManager (task.partition, v) fun m => { m with poMutex := true }).setTask t
      { task with phase := .counting v }).StorageInv encode :=
  h.keepManager (task.partition, v) (fun m => { m with poMutex := true })
    (step_locking ht hp hfree) rfl rfl ⟨rfl, rfl, rfl⟩ rfl rfl ⟨rfl, rfl, rfl⟩ nofun

theorem StorageInv.unlocked (h : s.StorageInv encode) (ht : s.tasks[t]? = some task)
    (hp : task.phase = .unlocked v) :
    ((s.modifyManager (task.partition, v) fun m => { m with poMutex := false }).setTask t
      { task with phase := .idle }).StorageInv encode :=
  h.keepManager (task.partition, v) (fun m => { m with poMutex := false })
    (step_unlocked ht hp) rfl rfl ⟨rfl, rfl, rfl⟩ rfl rfl ⟨rfl, rfl, rfl⟩ nofun

theorem StorageInv.count_eq_zero (h : s.StorageInv encode) (ht : s.tasks[t]? = some task)
    (hp : task.phase = .counting v) : (s.manager (task.partition, v)).count = 0 := by
  have hpos : 0 < s.total (task.partition, v) .counting := place_pos ht nofun (by rw [hp]; rfl)
  obtain ⟨hpo, -, hpole, -, hcount, -, -, -, -⟩ := h.lives (task.partition, v)
  simp only [life] at hpo hpole hcount
  omega

theorem StorageInv.counting (h : s.StorageInv encode) (ht : s.tasks[t]? = some task)
    (hp : task.phase = .counting v) :
    ((s.modifyManager (task.partition, v) fun m => { m with count := m.count + 1 }).setTask t
      { task with phase := .acquiring v }).StorageInv encode :=
  h.keepManager (task.partition, v) (fun m => { m with count := m.count + 1 })
    (step_counting ht hp (h.count_eq_zero ht hp)) rfl rfl ⟨rfl, rfl, rfl⟩ rfl rfl ⟨rfl, rfl, rfl⟩
    nofun

theorem StorageInv.acquiring (h : s.StorageInv encode) (ht : s.tasks[t]? = some task)
    (hp : task.phase = .acquiring v) (hfree : s.lockFile = none) :
    ({ (s.modifyManager (task.partition, v) fun m => { m with acquired := m.acquired + 1 }).setTask
        t { task with phase := .idle, holds := Function.update task.holds v true } with
      lockFile := some (task.partition, v) } : Storage α).StorageInv encode := by
  have hholds : task.holds v = false := by
    have hpos : 0 < s.total (task.partition, v) .acquiring := place_pos ht (by simp) (by rw [hp]; rfl)
    have hle := weight_le_total ht (task.partition, v) .holding
    rw [weight_self, if_pos rfl] at hle
    obtain ⟨hpo, -, hpole, -, -, -, -, -, -⟩ := h.lives (task.partition, v)
    simp only [life] at hpo hpole
    cases hv : task.holds v with
    | false => rfl
    | true =>
      rw [hv, Bool.toNat_true] at hle
      omega
  exact h.keepManager (task.partition, v) (fun m => { m with acquired := m.acquired + 1 })
    (step_acquiring ht hp hholds hfree) rfl rfl ⟨rfl, rfl, rfl⟩ rfl rfl ⟨rfl, rfl, rfl⟩
    (by rintro _ ⟨⟩)

theorem StorageInv.owner (h : s.StorageInv encode) (k : Nat × Nat)
    (hpos : 0 < s.total k .holding + s.total k .unlocking) :
    (s.manager k).count = 1 ∧ s.lockFile = some k := by
  obtain ⟨hpo, -, hpole, -, hcount, hheld, -, -, -⟩ := h.lives k
  simp only [life] at hpo hpole hcount hheld
  refine ⟨by omega, ?_⟩
  by_contra hne
  rw [held, if_neg hne] at hheld
  omega

theorem StorageInv.unlocking (h : s.StorageInv encode) (ht : s.tasks[t]? = some task)
    (hp : task.phase = .unlocking v) :
    ((s.completeRequest (task.partition, v)).setTask t
      { task with phase := .unlocked v }).StorageInv encode := by
  have hpos : 0 < s.total (task.partition, v) .unlocking := place_pos ht nofun (by rw [hp]; rfl)
  obtain ⟨hone, howner⟩ := h.owner (task.partition, v) (by omega)
  have hlife := step_unlocking ht hp hone howner
  rw [completeRequest_one hone] at hlife ⊢
  exact h.keepManager (task.partition, v)
    (fun m => { m with count := 0, released := m.released + 1 }) hlife rfl rfl ⟨rfl, rfl, rfl⟩ rfl
    rfl ⟨rfl, rfl, rfl⟩ nofun

theorem StorageInv.completing (h : s.StorageInv encode) (ht : s.tasks[t]? = some task)
    (hp : task.phase = .completing v) (hzero : (s.manager (task.partition, v)).count = 0) :
    ((s.completeRequest (task.partition, v)).setTask t
      { task with phase := .leaving v }).StorageInv encode := by
  rw [completeRequest_zero hzero]
  exact h.keep (step_completing ht hp) rfl (fun _ => ⟨rfl, rfl⟩) (fun _ => rfl) rfl rfl
    ⟨rfl, rfl, rfl⟩ nofun

theorem StorageInv.unlock (h : s.StorageInv encode) (ht : s.tasks[t]? = some task)
    (hp : task.phase = .idle) (hholds : task.holds v = true) :
    (s.setTask t { task with
      phase := .unlocking v, holds := Function.update task.holds v false }).StorageInv encode :=
  h.keep (step_unlock ht hp hholds) rfl (fun _ => ⟨rfl, rfl⟩) (fun _ => rfl) rfl rfl
    ⟨rfl, rfl, rfl⟩ nofun

theorem StorageInv.begin (h : s.StorageInv encode) (ht : s.tasks[t]? = some task)
    {phase : StoragePhase α} (hp : task.phase = .idle) (hrole : phase.role = none)
    (hnew : LocksAnew { task with phase := phase }) :
    (s.setTask t { task with phase := phase }).StorageInv encode :=
  h.keep (step_begin ht hp hrole) rfl (fun _ => ⟨rfl, rfl⟩) (fun _ => rfl) rfl rfl
    ⟨rfl, rfl, rfl⟩ hnew

/-! ### Files -/

theorem StorageInv.opens (h : s.StorageInv encode) (ht : s.tasks[t]? = some task)
    (hp : task.phase = .initiating v r)
    (hclosed : (s.manager (task.partition, v)).file.isSome = false)
    (htasks : s'.tasks = s.tasks.set t { task with phase := .inserting v r })
    (hmanager : s'.manager = (s.modifyManager (task.partition, v) fun m =>
      { m with file := some (toFileMode r) }).manager)
    (hlock : s'.lockFile = s.lockFile) (hlru : s'.lru = s.lru)
    (hopen : s'.sharedFilesOpen = s.sharedFilesOpen) (hfiles : ∀ w, s'.FileOk encode w)
    (hcontent : ∀ w, w = v ∨ (s.content w).isSome = true → (s'.content w).isSome = true) :
    s'.StorageInv encode := by
  have hlife := step_open ht hp htasks hclosed hmanager hlock
  refine ⟨fun k => (h.lives k).step (hlife k), chains_keep h.chains hlife (fun k => ?_) hlru hopen,
    hfiles, fun k hk => hcontent k.2 ?_, fun x hx => ?_⟩
  · rw [hmanager]
    by_cases hk : k = (task.partition, v)
    · subst hk
      rw [modifyManager_self]
      exact ⟨rfl, rfl⟩
    · have hother := Function.update_of_ne hk
        { s.manager (task.partition, v) with file := some (toFileMode r) } s.manager
      exact ⟨congrArg DfsManager.prev hother, congrArg DfsManager.next hother⟩
  · by_cases hkv : k = (task.partition, v)
    · exact .inl (congrArg Prod.snd hkv)
    · rw [hmanager] at hk
      have hother := Function.update_of_ne hkv
        { s.manager (task.partition, v) with file := some (toFileMode r) } s.manager
      exact .inr (h.opened k ((congrArg (fun m => m.file.isSome) hother).symm.trans hk))
  · rw [htasks] at hx
    rcases List.mem_or_eq_of_mem_set hx with hx | rfl
    · exact h.locking x hx
    · exact nofun

theorem StorageInv.initiating (h : s.StorageInv encode) (ht : s.tasks[t]? = some task)
    (hp : task.phase = .initiating v r) : (s.initiate truncates t task v r).StorageInv encode := by
  unfold initiate
  simp only
  split
  · rename_i hopen
    have hf : ((fun m : DfsManager => { m with file := some (toFileMode r) })
        (s.manager (task.partition, v))).file.isSome =
          (s.manager (task.partition, v)).file.isSome := hopen.symm
    exact h.keepManager (task.partition, v)
      (fun m => { m with file := some (toFileMode r) }) (step_reopen ht hp hopen) rfl rfl
      ⟨rfl, rfl, hf⟩ rfl rfl ⟨rfl, rfl, rfl⟩ nofun
  rename_i hclosed
  have hclosed : (s.manager (task.partition, v)).file.isSome = false := by simpa using hclosed
  cases r with
  | read =>
    cases hc : s.content v with
    | none =>
      exact h.keep (step_missing ht hp) rfl (fun _ => ⟨rfl, rfl⟩) (fun _ => rfl) rfl rfl
        ⟨rfl, rfl, rfl⟩ nofun
    | some data =>
      refine h.opens ht hp hclosed rfl rfl rfl rfl rfl h.files fun w hw => ?_
      rcases hw with rfl | hw
      · exact congrArg Option.isSome hc
      · exact hw
  | write x =>
    simp only
    split
    swap
    · rename_i hkept
      refine h.opens ht hp hclosed rfl rfl rfl rfl rfl h.files fun w hw => ?_
      rcases hw with rfl | hw
      · show (s.content w).isSome = true
        simpa [Option.isSome_iff_ne_none] using (not_or.mp hkept).2
      · exact hw
    refine h.opens ht hp hclosed rfl rfl rfl rfl rfl (fun w => ?_) fun w hw => ?_
    · by_cases hw : w = v
      · subst hw
        refine ⟨fun hc => ?_, fun he => ?_⟩
        · have hsome := (Function.update_self w (some []) s.content).symm.trans hc
          cases hsome
        · exact absurd ((Function.update_self w true s.emptied).symm.trans he) nofun
      · unfold FileOk
        simp only [Function.update_of_ne hw]
        exact h.files w
    · show (Function.update s.content v (some []) w).isSome = true
      by_cases hwv : w = v
      · rw [hwv, Function.update_self]
        rfl
      · rw [Function.update_of_ne hwv]
        exact hw.resolve_left hwv

theorem chains_insert (h : s.StorageInv encode) (hmanager : s'.manager = (s.insertLast p v).manager)
    (hlru : s'.lru = (s.insertLast p v).lru)
    (hshared : s'.sharedFilesOpen =
      Function.update s.sharedFilesOpen p (s.sharedFilesOpen p + 1))
    (hlt : s.sharedFilesOpen p + 1 < maxSharedFilesOpen) {n : Nat}
    (hn : (s.life (p, v)).inserting = n + 1)
    (hown : s'.life (p, v) =
      { s.life (p, v) with inserting := n, accessing := (s.life (p, v)).accessing + 1 })
    (hothers : ∀ k ≠ (p, v), s'.life k = s.life k) (q : Nat) : ∃ l, s'.ChainInv q l := by
  obtain ⟨l, hl⟩ := h.chains q
  have hheap : s'.links q = (s.insertLast p v).links q := by
    unfold links
    rw [hmanager]
  by_cases hq : q = p
  · subst hq
    obtain ⟨hlinked, hapart⟩ := chainInv_insertLast hl fun hv => by
      have := ((hl.mem v).mp hv).2
      omega
    refine ⟨l ++ [v], ⟨⟨?_, ?_, fun w => ?_⟩, ?_, fun w hw => ?_⟩⟩
    · rw [hheap, hlru]
      exact hlinked
    · rw [hshared, Function.update_self, List.length_append, hl.length]
      rfl
    · by_cases hw : w = v
      · subst hw
        obtain ⟨-, hio, -, hiole, -, -, -, -, hopened⟩ := h.lives (q, w)
        have hchained : (s'.life (q, w)).Chained := by
          rw [hown]
          exact ⟨hopened (by omega), show n = 0 by omega⟩
        exact iff_of_true (List.mem_append_right _ (List.mem_singleton_self w)) hchained
      · rw [hothers (q, w) fun h => hw (Prod.mk.inj h).2, ← hl.mem w]
        simp [hw]
    · rw [List.length_append, hl.length]
      exact hlt
    · rw [hmanager]
      exact hapart w hw
  · obtain ⟨hlinks, hends⟩ := s.insertLast_other p v hq
    refine ⟨l, ⟨⟨?_, ?_, fun w => ?_⟩, hl.lt, fun w hw => ?_⟩⟩
    · rw [hheap, hlinks, hlru, hends]
      exact hl.linked
    · rw [hshared, Function.update_of_ne hq]
      exact hl.length
    · rw [hothers (q, w) fun h => hq (Prod.mk.inj h).1]
      exact hl.mem w
    · have hnode := Option.some.inj (congrFun (hheap.trans hlinks) w)
      have hprev := congrArg Linked.Node.prev hnode
      have hnext := congrArg Linked.Node.next hnode
      obtain ⟨h1, h2⟩ := hl.apart w hw
      exact ⟨hprev.trans h1, hnext.trans h2⟩

theorem StorageInv.inserting (h : s.StorageInv encode) (ht : s.tasks[t]? = some task)
    (hp : task.phase = .inserting v r)
    (hlt : s.sharedFilesOpen task.partition + 1 < maxSharedFilesOpen) :
    ((s.countFile task.partition v).setTask t
      { task with phase := .accessing v r }).StorageInv encode := by
  obtain ⟨htasks, hlock, hcontent, hwritten, hemptied, -⟩ := s.insertLast_rest task.partition v
  rw [countFile_of_lt hlt]
  generalize hs' : (Storage.setTask _ t { task with phase := .accessing v r }) = s'
  have hmanager : s'.manager = (s.insertLast task.partition v).manager := by
    rw [← hs']
    rfl
  have htasks' : s'.tasks = s.tasks.set t { task with phase := .accessing v r } := by
    rw [← htasks, ← hs']
    rfl
  have hcore (k : Nat × Nat) : core (s'.manager k) = core (s.manager k) := by
    rw [hmanager]
    exact s.insertLast_core task.partition v k
  have hfiles : s'.content = s.content ∧ s'.written = s.written ∧ s'.emptied = s.emptied := by
    rw [← hs']
    exact ⟨hcontent, hwritten, hemptied⟩
  obtain ⟨⟨n, hn, hown⟩, hothers⟩ := life_insert ht hp htasks' hcore
    (by rw [← hlock, ← hs']; rfl)
  refine ⟨fun k => ?_, chains_insert h hmanager (by rw [← hs']; rfl) (by rw [← hs']; rfl) hlt hn
    hown hothers, fun w => (fileOk_congr hfiles w).mpr (h.files w), fun k hk => ?_, fun x hx => ?_⟩
  · by_cases hk : k = (task.partition, v)
    · subst hk
      rw [hown]
      exact (h.lives _).insert hn
    · rw [hothers k hk]
      exact h.lives k
  · have hparts := hcore k
    simp only [core, Prod.mk.injEq] at hparts
    rw [hparts.2.2.2.2.2] at hk
    rw [hfiles.1]
    exact h.opened k hk
  · rw [htasks'] at hx
    rcases List.mem_or_eq_of_mem_set hx with hx | rfl
    · exact h.locking x hx
    · rintro _ ⟨⟩

theorem StorageInv.file_open (h : s.StorageInv encode) (k : Nat × Nat)
    (hpos : 0 < s.total k .inserting + s.total k .accessing + s.total k .completing) :
    (s.manager k).file.isSome = true := by
  have hopened := (h.lives k).opened hpos
  simpa [life] using hopened

theorem StorageInv.written_of_open (h : s.StorageInv encode) {k : Nat × Nat}
    (hopen : (s.manager k).file.isSome = true) (he : s.emptied k.2 = false) :
    ∃ x rest, s.written k.2 = some x ∧ s.content k.2 = some (encode x ++ rest) := by
  rcases (h.files k.2).2 he with hnone | hx
  · have := h.opened k hopen
    rw [hnone] at this
    cases this
  · exact hx

theorem StorageInv.access (h : s.StorageInv encode) (ht : s.tasks[t]? = some task)
    (hp : task.phase = .accessing v r) :
    (s.access encode decode t task v r).StorageInv encode := by
  cases r with
  | read =>
    exact h.keep (step_access ht hp rfl rfl rfl) rfl (fun _ => ⟨rfl, rfl⟩) (fun _ => rfl) rfl rfl
      ⟨rfl, rfl, rfl⟩ nofun
  | write x =>
    have hlife : ∀ k, ManagerLife.Step (s.life k)
        ((s.access encode decode t task v (.write x)).life k) :=
      step_access (x := task.value) ht hp rfl rfl rfl
    refine ⟨fun k => (h.lives k).step (hlife k), chains_keep h.chains hlife (fun _ => ⟨rfl, rfl⟩)
      rfl rfl, fun w => ?_, fun k hk => ?_, fun y hy => ?_⟩
    · by_cases hw : w = v
      · subst hw
        refine ⟨fun hc => ?_, fun _ => .inr ⟨x, _, Function.update_self .., Function.update_self ..⟩⟩
        change Function.update s.content w (some _) w = none at hc
        rw [Function.update_self] at hc
        cases hc
      · unfold FileOk
        simp only [Storage.access, Function.update_of_ne hw]
        exact h.files w
    · show (Function.update s.content v _ k.2).isSome = true
      by_cases hw : k.2 = v
      · rw [hw, Function.update_self]
        rfl
      · rw [Function.update_of_ne hw]
        exact h.opened k hk
    · rcases List.mem_or_eq_of_mem_set hy with hy | rfl
      · exact h.locking y hy
      · exact nofun

/-! ### Every step -/

theorem StorageInv.proceed (h : s.StorageInv encode) (ht : s.tasks[t]? = some task)
    (hc : s.canStep t = true) (ho : s.inOrder t = true) :
    (s.proceed truncates encode decode t task).StorageInv encode := by
  unfold canStep at hc
  unfold inOrder at ho
  rw [ht] at hc ho
  unfold Storage.proceed
  cases hp : task.phase with
  | idle => exact h
  | raised => exact h
  | entering v r => exact h.entering ht hp (by simpa [hp] using hc)
  | initiating v r => exact h.initiating ht hp
  | inserting v r => exact h.inserting ht hp (by simpa [hp] using ho)
  | accessing v r =>
    have hpos : 0 < s.total (task.partition, v) .accessing := place_pos ht nofun (by rw [hp]; rfl)
    simp only
    rw [if_pos (h.file_open (task.partition, v) (by omega))]
    exact h.access ht hp
  | completing v => exact h.completing ht hp (by simpa [hp] using ho)
  | leaving v => exact h.leaving ht hp
  | locking v => exact h.lockingStep ht hp (by simpa [hp] using hc)
  | counting v =>
    have hzero := h.count_eq_zero ht hp
    simp only [hzero, Nat.zero_add, if_true]
    exact h.counting ht hp
  | acquiring v => exact h.acquiring ht hp (by simpa [hp] using hc)
  | unlocking v => exact h.unlocking ht hp
  | unlocked v => exact h.unlocked ht hp

end Steps

theorem exists_idle (hi : s.idle t = true) :
    ∃ task, s.tasks[t]? = some task ∧ task.phase = .idle := by
  unfold idle at hi
  cases ht : s.tasks[t]? with
  | none =>
    rw [ht] at hi
    cases hi
  | some task =>
    obtain ⟨p, phase, holds, value⟩ := task
    rw [ht] at hi
    cases phase with
    | idle => exact ⟨_, rfl, rfl⟩
    | _ => cases hi

theorem inv_next (h : s.StorageInv encode) (a : StorageAction α) (he : s.Enabled a)
    (ho : s.Orderly a) : (s.next truncates encode decode a).StorageInv encode := by
  cases a with
  | read t v =>
    obtain ⟨task, ht, hp⟩ := exists_idle he
    simp only [next, Storage.begin, ht]
    exact h.begin ht hp rfl nofun
  | write t v x =>
    obtain ⟨task, ht, hp⟩ := exists_idle he
    simp only [next, Storage.begin, ht]
    exact h.begin ht hp rfl nofun
  | lock t v =>
    obtain ⟨task, ht, hp⟩ := exists_idle he
    have hheld : task.holds v = false := by
      simpa [Orderly, holdsLock, ht] using ho
    simp only [next, Storage.begin, ht]
    refine h.begin ht hp rfl fun w hw => ?_
    obtain rfl : v = w := by simpa using hw
    exact hheld
  | unlock t v =>
    obtain ⟨task, ht, hp⟩ := exists_idle he.1
    have hheld : task.holds v = true := by
      simpa [holdsLock, ht] using he.2
    simp only [next, Storage.begin, ht]
    exact h.unlock ht hp hheld
  | step t =>
    simp only [next]
    cases ht : s.tasks[t]? with
    | none => exact h
    | some task => exact h.proceed ht he ho

theorem total_start (partitions : List Nat) (k : Nat × Nat) (role : StorageRole) :
    (start partitions : Storage α).total k role = 0 :=
  Tally.sum_map_eq_zero fun task htask => by
    obtain ⟨p, -, rfl⟩ := List.mem_map.mp htask
    cases role <;> simp [weight, isIn, StoragePhase.role]

theorem inv_start (partitions : List Nat) : (start partitions : Storage α).StorageInv encode where
  lives k := by
    constructor
    all_goals
      simp only [life, total_start]
      simp [start, DfsManager.new, held]
  chains p := by
    refine ⟨[], ⟨⟨Linked.IsList.nil _, rfl, fun v => ?_⟩, by decide, fun v _ => ⟨rfl, rfl⟩⟩⟩
    refine iff_of_false List.not_mem_nil fun h => ?_
    cases h.1
  files _ := ⟨fun _ => rfl, fun _ => .inl rfl⟩
  opened k hk := nomatch hk
  locking task htask := by
    obtain ⟨p, -, rfl⟩ := List.mem_map.mp htask
    rintro _ ⟨⟩

/-! ## What a run keeps -/

/-- The task is in a Read or Write that has the file open. -/
def working (task : StorageTask α) (v : Nat) : Bool :=
  match task.phase.role with
  | some (.inserting, w) | some (.accessing, w) | some (.completing, w) => w == v
  | _ => false

/-- What the locks, the chains and the open files are to be like in every state. -/
structure Sound (s : Storage α) : Prop where
  holder : ∀ task ∈ s.tasks, ∀ v, task.holds v = true → s.lockFile = some (task.partition, v)
  released : ∀ k, (s.manager k).acquired = (s.manager k).released + held s.lockFile k
  nested : ∀ task ∈ s.tasks, LocksAnew task
  chain : ∀ p, ∃ l, s.IsChain p l
  sharedFilesOpen : ∀ p, s.sharedFilesOpen p ≤ maxSharedFilesOpen
  working : ∀ task ∈ s.tasks, ∀ v, working task v = true →
    (s.manager (task.partition, v)).file.isSome = true

/-- A Read that gets to the file sets the variable to what was written last, and one that finds no
file comes before every Write. -/
def ReadsLast (truncates : Bool) (encode : α → List UInt8) (decode : List UInt8 → Option α)
    (s : Storage α) : StorageAction α → Prop
  | .step t => ∀ task v, s.tasks[t]? = some task →
      (task.phase = .accessing v .read →
        ∃ x, s.written v = some x ∧ (s.next truncates encode decode (.step t)).tasks[t]? =
          some { task with phase := .completing v, value := some x }) ∧
      (task.phase = .initiating v .read → s.content v = none → s.written v = none)
  | _ => True

theorem StorageInv.sound (h : s.StorageInv encode) : s.Sound where
  holder task htask v hv := by
    obtain ⟨t, ht⟩ := List.mem_iff_getElem?.mp htask
    have hle := weight_le_total ht (task.partition, v) .holding
    rw [weight_self, if_pos rfl, hv, Bool.toNat_true] at hle
    exact (h.owner (task.partition, v) (by omega)).2
  released k := (h.lives k).acquired
  nested := h.locking
  chain p := by
    obtain ⟨l, hl⟩ := h.chains p
    exact ⟨l, hl.toIsChain⟩
  sharedFilesOpen p := by
    obtain ⟨l, hl⟩ := h.chains p
    rw [← hl.length]
    exact hl.lt.le
  working task htask v hv := by
    obtain ⟨t, ht⟩ := List.mem_iff_getElem?.mp htask
    refine h.file_open (task.partition, v) ?_
    have hpos (role : StorageRole) (hrole : role ≠ .holding)
        (hr : task.phase.role = some (role, v)) : 0 < s.total (task.partition, v) role :=
      place_pos ht hrole hr
    unfold Storage.working at hv
    split at hv
    · rename_i w hr
      obtain rfl := beq_iff_eq.mp hv
      have := hpos .inserting nofun hr
      omega
    · rename_i w hr
      obtain rfl := beq_iff_eq.mp hv
      have := hpos .accessing nofun hr
      omega
    · rename_i w hr
      obtain rfl := beq_iff_eq.mp hv
      have := hpos .completing nofun hr
      omega
    · cases hv

theorem StorageInv.readsLast (h : s.StorageInv encode)
    (hcodec : ∀ x rest, decode (encode x ++ rest) = some x) (a : StorageAction α)
    (ho : s.Orderly a) : s.ReadsLast truncates encode decode a := by
  cases a with
  | step t =>
    intro task v ht
    refine ⟨fun hp => ?_, fun _ hcontent => (h.files v).1 hcontent⟩
    have hpos : 0 < s.total (task.partition, v) .accessing := place_pos ht nofun (by rw [hp]; rfl)
    have hopen := h.file_open (task.partition, v) (by omega)
    have he : s.emptied v = false := by
      simpa [Orderly, inOrder, ht, hp] using ho
    obtain ⟨x, rest, hwritten, hcontent⟩ := h.written_of_open hopen he
    refine ⟨x, hwritten, ?_⟩
    have hlt := (List.getElem?_eq_some_iff.mp ht).1
    simp only [next, ht, Storage.proceed, hp]
    rw [if_pos hopen]
    simp [Storage.access, setTask, hcontent, hcodec, hlt]
  | _ => trivial

/-- The locks, the chains and the files are as they should be in every run whose steps are
`Orderly`, if what is written to a file is read from its beginning. -/
theorem storageRun_sound (truncates : Bool) (encode : α → List UInt8)
    (decode : List UInt8 → Option α) (hcodec : ∀ x rest, decode (encode x ++ rest) = some x)
    (partitions : List Nat) (as : List (StorageAction α))
    (he : Runs.Along (next truncates encode decode) Enabled (start partitions) as)
    (ho : Runs.Along (next truncates encode decode) Orderly (start partitions) as) :
    Runs.Along (next truncates encode decode)
      (fun s a => s.ReadsLast truncates encode decode a ∧ (s.next truncates encode decode a).Sound)
      (start partitions) as := by
  have hstart : (start partitions : Storage α).StorageInv encode := inv_start partitions
  refine Runs.along_of_inv (fun s a hinv hstep => ?_) as _ hstart (Runs.along_and as he ho)
  have hinv' : (s.next truncates encode decode a).StorageInv encode :=
    inv_next hinv a hstep.1 hstep.2
  exact ⟨⟨hinv.readsLast hcodec a hstep.2, hinv'.sound⟩, hinv'⟩

/-- A task reads a variable that has no file.  A task of another partition writes it and locks a
second one; the first task reads what was written, and waits for the lock. -/
def sharedRun : List (StorageAction UInt8) :=
  [.read 1 7, .step 1, .step 1, .step 1, .write 0 7 42, .step 0, .step 0, .step 0, .step 0, .step 0,
    .step 0, .lock 0 8, .step 0, .step 0, .step 0, .read 1 7, .step 1, .step 1, .step 1, .step 1,
    .step 1, .step 1, .lock 1 8, .step 1, .step 1, .unlock 0 8, .step 0, .step 1, .step 0]

theorem storageRun_sound_sharedRun :
    Runs.Along (next true (fun x => [x]) List.head?)
      (fun s a => s.ReadsLast true (fun x => [x]) List.head? a ∧
        (s.next true (fun x => [x]) List.head? a).Sound) (start [0, 1]) sharedRun :=
  storageRun_sound true (fun x => [x]) List.head? (fun _ _ => rfl) [0, 1] sharedRun (by decide)
    (by decide)

/-- The Write of a locked variable gives the lock file up. -/
theorem not_sound_lockedRun :
    ¬∀ (truncates : Bool) (partitions : List Nat) (as : List (StorageAction UInt8)),
      Runs.Along (next truncates (fun x => [x]) List.head?) Enabled (start partitions) as →
      Runs.Along (next truncates (fun x => [x]) List.head?)
        (fun s a => s.ReadsLast truncates (fun x => [x]) List.head? a ∧
          (s.next truncates (fun x => [x]) List.head? a).Sound) (start partitions) as := by
  intro hall
  have h := hall true [0] [.lock 0 7, .step 0, .step 0, .step 0, .write 0 7 42, .step 0, .step 0,
    .step 0, .step 0, .step 0] (by decide)
  have hsound := h.2.2.2.2.2.2.2.2.2.1.2
  have hlock := hsound.holder _ (List.getElem_mem (by decide : 0 < _)) 7 (by decide)
  exact absurd hlock (by decide)

end Storage

end PolyORB

import PolyORB.Types
import PolyORB.Lib.Runs

/-!
# Distributed shared memory

PolyORB.DSA_P.Storages.DSM: the managers of one variable, one on each partition, each known by a
number, and the messages between them, which arrive in any order.  A handler of a message, and an
operation up to its wait at the barrier and after it, are sections under `Critical_Section`, one
step each.
-/

namespace PolyORB.SharedMemory

abbrev NodeId := Nat

inductive Status where
  | write
  | read
  | none
  deriving DecidableEq

/-- The operation that waits at `Wait_Barrier`, and stays in `Critical_Section`. -/
inductive Waiting (α : Type) where
  | read
  | write (var : α)
  | lock

def Waiting.isWrite {α : Type} : Waiting α → Bool
  | .read => false
  | _ => true

structure Manager (α : Type) where
  data : Option α
  status : Status
  probOwner : NodeId
  copies : List NodeId
  version : Int
  waiting : Option (Waiting α)
  /-- `Wait_Barrier` was signalled since. -/
  signalled : Bool
  /-- `Protected_Object` is held between `Lock` and `Unlock`. -/
  inUse : Bool

inductive Message (α : Type) where
  | invalidateRequest (rqstNode : NodeId) (version : Int)
  | writeRequest (rqstNode : NodeId)
  | writeReply (varData : Option α) (readCopies : List NodeId) (version : Int)
  | readRequest (rqstNode : NodeId)
  | readReply (varData : Option α) (replyNode : NodeId) (version : Int)

/-- A message with its target. -/
abbrev Mail (α : Type) := NodeId × Message α

/-- What a handler or a part of an operation does: the manager, and what it sends. -/
structure Effect (α : Type) where
  manager : Manager α
  messages : List (Mail α) := []
  /-- History: what a `Write` that ends has written. -/
  written : Option α := none

variable {α : Type}

namespace Manager

/-- `Create`; `Version` has no initial value. -/
def create (self owner : NodeId) (version : Int) : Manager α where
  data := none
  status := if self = owner then .write else .none
  probOwner := owner
  copies := []
  version := version
  waiting := none
  signalled := false
  inUse := false

/-- The messages of a loop over the copy set. -/
def invalidations (m : Manager α) (self except : NodeId) : List (Mail α) :=
  (m.copies.filter fun target => target ≠ self ∧ target ≠ except).map
    fun target => (target, .invalidateRequest self m.version)

def invalidateRequest (m : Manager α) (self rqstNode : NodeId) (version : Int) : Effect α :=
  if m.status = .read ∧ m.version ≤ version then
    { manager := { m with probOwner := rqstNode, status := .none, copies := [] }
      messages := m.invalidations self rqstNode }
  else { manager := m }

def writeRequest (m : Manager α) (self rqstNode : NodeId) : Effect α :=
  if m.probOwner = self then
    { manager := { m with status := .none, version := m.version + 1, probOwner := rqstNode }
      messages := [(rqstNode, .writeReply m.data m.copies (m.version + 1))] }
  else
    { manager := { m with probOwner := rqstNode }
      messages := [(m.probOwner, .writeRequest rqstNode)] }

def readRequest (m : Manager α) (self rqstNode : NodeId) : Effect α :=
  if m.status ≠ .none then
    { manager := { m with status := .read, copies := m.copies ++ [rqstNode], version := m.version + 1 }
      messages := [(rqstNode, .readReply m.data self (m.version + 1))] }
  else
    { manager := { m with probOwner := rqstNode }
      messages := [(m.probOwner, .readRequest rqstNode)] }

/-- The handler of a message.  `Broadcast` has no effect if nobody waits. -/
def receive (m : Manager α) (self : NodeId) : Message α → Effect α
  | .invalidateRequest rqstNode version => m.invalidateRequest self rqstNode version
  | .writeRequest rqstNode => m.writeRequest self rqstNode
  | .writeReply data copies version =>
    { manager := { m with copies, version, data, signalled := m.waiting.isSome } }
  | .readRequest rqstNode => m.readRequest self rqstNode
  | .readReply data probOwner version =>
    { manager := { m with data, probOwner, version, signalled := m.waiting.isSome } }

/-- What an operation does after the reply, or at once if it needs none. -/
def finish (m : Manager α) (self : NodeId) : Waiting α → Effect α
  | .read => { manager := { m with status := .read } }
  | .write var =>
    { manager := { m with probOwner := self, status := .write, copies := [], data := some var }
      messages := m.invalidations self self
      written := some var }
  | .lock => { manager := { m with probOwner := self, status := .write } }

/-- A request to the probable owner, up to `Wait`. -/
def request (m : Manager α) (self : NodeId) (w : Waiting α) : Effect α where
  manager := { m with waiting := some w, signalled := false }
  messages := [(m.probOwner, if w.isWrite then .writeRequest self else .readRequest self)]

def read (m : Manager α) (self : NodeId) : Effect α :=
  if m.status = .none then m.request self .read else { manager := m }

def write (m : Manager α) (self : NodeId) (var : α) : Effect α :=
  if m.status ≠ .write ∧ m.probOwner ≠ self then m.request self (.write var)
  else m.finish self (.write var)

def lock (m : Manager α) (self : NodeId) : Effect α :=
  if m.probOwner ≠ self then { m with inUse := true }.request self .lock
  else { m with inUse := true }.finish self .lock

def unlock (m : Manager α) : Effect α := { manager := { m with inUse := false } }

/-- The end of `Wait`, and what follows it. -/
def resume (m : Manager α) (self : NodeId) : Effect α :=
  match m.waiting with
  | some w => { m with waiting := none, signalled := false }.finish self w
  | none => { manager := m }

/-- Whether the handler of a message can run: that of a request enters `Critical_Section`, and that
of a write request `Protected_Object` before.  Where it answers, `Version` stays in Integer. -/
def Accepts (m : Manager α) (self : NodeId) : Message α → Prop
  | .invalidateRequest _ _ => m.waiting.isNone = true
  | .writeRequest _ => m.waiting.isNone = true ∧ m.inUse = false ∧
      (m.probOwner = self → m.version < naturalLast)
  | .readRequest _ => m.waiting.isNone = true ∧ (m.status ≠ .none → m.version < naturalLast)
  | _ => True

end Manager

structure System (α : Type) where
  manager : NodeId → Manager α
  network : List (Mail α)
  /-- History: what the last `Write` that has ended has written. -/
  written : Option α

inductive Action (α : Type) where
  | read (n : NodeId)
  | write (n : NodeId) (var : α)
  | lock (n : NodeId)
  | unlock (n : NodeId)
  | resume (n : NodeId)
  /-- The message at a place of the network arrives. -/
  | deliver (i : Nat)

namespace System

def initial (owner : NodeId) (version : NodeId → Int) : System α where
  manager := fun n => .create n owner (version n)
  network := []
  written := none

def put (s : System α) (n : NodeId) (e : Effect α) : System α where
  manager := Function.update s.manager n e.manager
  network := e.messages ++ s.network
  written := e.written.or s.written

def step (s : System α) : Action α → System α
  | .read n => s.put n ((s.manager n).read n)
  | .write n var => s.put n ((s.manager n).write n var)
  | .lock n => s.put n ((s.manager n).lock n)
  | .unlock n => s.put n (s.manager n).unlock
  | .resume n => s.put n ((s.manager n).resume n)
  | .deliver i =>
    match s.network[i]? with
    | some (n, message) =>
      { s with network := s.network.eraseIdx i }.put n ((s.manager n).receive n message)
    | none => s

/-- An operation enters `Critical_Section`, and `Lock` before it `Protected_Object`. -/
def Possible (s : System α) : Action α → Prop
  | .read n => (s.manager n).waiting.isNone = true
  | .write n _ => (s.manager n).waiting.isNone = true
  | .lock n => (s.manager n).waiting.isNone = true ∧ (s.manager n).inUse = false
  | .unlock n => (s.manager n).inUse = true
  | .resume n => (s.manager n).signalled = true
  | .deliver i => ∃ e ∈ s.network[i]?, (s.manager e.1).Accepts e.1 e.2

end System

/-! ## What the managers have to keep -/

/-- The request that a manager waits for, if its answer has not come. -/
def Manager.awaits (m : Manager α) : Option Bool :=
  if m.signalled then none else m.waiting.map Waiting.isWrite

/-- Whose request a message is, or answers, and whether it is for write access. -/
def about : Mail α → Option (NodeId × Bool)
  | (_, .invalidateRequest _ _) => none
  | (_, .writeRequest rqstNode) => some (rqstNode, true)
  | (target, .writeReply _ _ _) => some (target, true)
  | (_, .readRequest rqstNode) => some (rqstNode, false)
  | (target, .readReply _ _ _) => some (target, false)

/-- The manager is the owner, or has got the answer that makes it the owner. -/
def Manager.Owns (m : Manager α) (self : NodeId) : Prop :=
  m.probOwner = self ∨ m.signalled = true ∧ ∃ w, m.waiting = some w ∧ w.isWrite = true

namespace System

/-- The ownership is at `n`, or in an answer on its way there, with the data and the version. -/
def Token (s : System α) (n : NodeId) (d : Option α) (v : Int) : Prop :=
  (s.manager n).Owns n ∧ d = (s.manager n).data ∧ v = (s.manager n).version ∨
    ∃ c, (n, .writeReply d c v) ∈ s.network

/-- One partition at most has write access, or owns the variable, and it has what was written last;
and the ownership is always somewhere, at one partition or in an answer to it. -/
structure Coherent (s : System α) : Prop where
  write : ∀ n, (s.manager n).status = .write → (s.manager n).probOwner = n
  owner : ∀ n k, (s.manager n).probOwner = n → (s.manager k).probOwner = k → n = k
  latest : ∀ n, (s.manager n).probOwner = n → (s.manager n).data = s.written
  token : ∃ t v, s.Token t s.written v ∧ ∀ n d v', s.Token n d v' → n = t ∧ d = s.written ∧ v' = v
  transit : ∀ n d c v, (n, .writeReply d c v) ∈ s.network → ¬ (s.manager n).Owns n

/-- A request that is waited for is on its way, or its answer is, once; and nothing else is. -/
def Answered (s : System α) : Prop :=
  ∀ n k, (s.network.filterMap about).count (n, k) = if (s.manager n).awaits = some k then 1 else 0

end System

/-! ## The invariant -/

structure Manager.Placed (m : Manager α) (n : NodeId) : Prop where
  write : m.status = .write → m.probOwner = n
  none : m.status = .none → m.probOwner ≠ n
  away : m.waiting ≠ .none → m.probOwner ≠ n

/-- A message that names a partition as the owner names another one than its target. -/
def Foreign : Mail α → Prop
  | (target, .invalidateRequest rqstNode _) => rqstNode ≠ target
  | (target, .readReply _ replyNode _) => replyNode ≠ target
  | _ => True

def GivesUp : Mail α → Prop
  | (_, .writeReply _ _ _) => True
  | _ => False

/-- An invalidation is older than `v`, or of that version while `t` has write access. -/
def Outdated (m : Manager α) (t : NodeId) (v : Int) : Mail α → Prop
  | (_, .invalidateRequest _ version) =>
    version ≤ v ∧ (version = v → m.probOwner = t ∧ m.status = .write)
  | _ => True

theorem Outdated.imp_owner {m m' : Manager α} {t : NodeId} {v : Int} {x : Mail α}
    (h : Outdated m t v x) (hm : m.probOwner = t ∧ m.status = .write →
      m'.probOwner = t ∧ m'.status = .write) : Outdated m' t v x := by
  obtain ⟨target, message⟩ := x
  cases message with
  | invalidateRequest r version => exact ⟨h.1, fun he => hm (h.2 he)⟩
  | _ => trivial

/-- A later version leaves all invalidations behind. -/
theorem Outdated.lt {m m' : Manager α} {t t' : NodeId} {v v' : Int} {x : Mail α}
    (h : Outdated m t v x) (hv : v < v') : Outdated m' t' v' x := by
  obtain ⟨target, message⟩ := x
  cases message with
  | invalidateRequest r version =>
    exact ⟨h.1.trans hv.le, fun he => absurd he (h.1.trans_lt hv).ne⟩
  | _ => trivial

namespace System

/-- The ownership is at `t`, and what invalidates copies is older than the version `v`, or of that
version while the owner has write access: an owner that reads ignores it. -/
structure Held (s : System α) (t : NodeId) (v : Int) : Prop where
  token : s.Token t s.written v
  unique : ∀ n d v', s.Token n d v' → n = t ∧ d = s.written ∧ v' = v
  outdated : ∀ x ∈ s.network, Outdated (s.manager t) t v x

structure Inv (s : System α) : Prop where
  answered : s.Answered
  placed : ∀ n, (s.manager n).Placed n
  foreign : ∀ e ∈ s.network, Foreign e
  held : ∃ t v, s.Held t v

variable {s : System α} {n : NodeId} {e : Effect α} {rest : List (Mail α)}

theorem inv_initial (owner : NodeId) (version : NodeId → Int) :
    (initial owner version : System α).Inv := by
  refine ⟨fun n k => rfl, fun n => ⟨fun h => ?_, fun h hn => ?_, nofun⟩, nofun, owner, version owner,
    .inl ⟨.inl rfl, rfl, rfl⟩, ?_, nofun⟩
  · simp only [initial, Manager.create] at h ⊢
    split_ifs at h with hn
    exact hn.symm
  · simp only [initial, Manager.create] at h hn
    rw [if_pos hn.symm] at h
    cases h
  · rintro n d v (⟨h | ⟨h, -⟩, hd, hv⟩ | ⟨_, h⟩)
    · obtain rfl : owner = n := h
      exact ⟨rfl, hd, hv⟩
    · cases h
    · cases h

/-- The request that a manager waits for, as a message is about it. -/
def asks (m : Manager α) (n : NodeId) : List (NodeId × Bool) := m.awaits.toList.map fun k => (n, k)

theorem count_asks (m : Manager α) (n i : NodeId) (k : Bool) :
    (asks m n).count (i, k) = if i = n ∧ m.awaits = some k then 1 else 0 := by
  unfold asks
  cases m.awaits with
  | none => simp
  | some k' =>
    rw [Option.toList_some, List.map_singleton, List.count_singleton]
    simp [@eq_comm _ n i]

@[simp] theorem put_manager (s : System α) (n : NodeId) (e : Effect α) :
    (s.put n e).manager n = e.manager := Function.update_self ..

theorem put_network (s : System α) (n : NodeId) (e : Effect α) :
    (s.put n e).network = e.messages ++ s.network := rfl

theorem put_manager_of_ne (s : System α) (e : Effect α) {k : NodeId} (h : k ≠ n) :
    (s.put n e).manager k = s.manager k := Function.update_of_ne h ..

theorem Inv.awaits_of_mem (h : s.Inv) {m : Mail α} (hm : m ∈ s.network) {i : NodeId}
    {k : Bool} (ha : about m = some (i, k)) : (s.manager i).awaits = some k := by
  by_contra hne
  have hcount := h.answered i k
  rw [if_neg hne, List.count_eq_zero] at hcount
  exact hcount (List.mem_filterMap.mpr ⟨m, hm, ha⟩)

/-- A step that takes the messages `gone`, balances requests and answers and leaves the ownership at
`t` keeps the invariant. -/
theorem Inv.put (h : s.Inv) (gone : List (Mail α))
    (hperm : (gone ++ rest).Perm s.network)
    (hbalance : (e.messages.filterMap about ++ asks (s.manager n) n).Perm
      (gone.filterMap about ++ asks e.manager n))
    (hplaced : e.manager.Placed n) (hforeign : ∀ m ∈ e.messages, Foreign m)
    (hheld : ∃ t v, ({ s with network := rest }.put n e).Held t v) :
    ({ s with network := rest }.put n e).Inv := by
  have hrest : rest ⊆ s.network := fun _ hm => hperm.subset (List.mem_append_right _ hm)
  refine ⟨fun i k => ?_, fun i => ?_, fun m hm => ?_, hheld⟩
  · have hcount := h.answered i k
    rw [← (hperm.filterMap about).count_eq, List.filterMap_append, List.count_append] at hcount
    have hbal := hbalance.count_eq (i, k)
    rw [List.count_append, List.count_append, count_asks, count_asks] at hbal
    rw [put_network, List.filterMap_append, List.count_append]
    by_cases hi : i = n
    · subst hi
      simp only [true_and] at hbal
      simp only [put_manager]
      omega
    · simp only [hi, false_and, if_false] at hbal
      simp only [put_manager_of_ne _ _ hi]
      omega
  · by_cases hi : i = n
    · subst hi
      simpa using hplaced
    · simpa [put_manager_of_ne _ _ hi] using h.placed i
  · rcases List.mem_append.mp hm with hm | hm
    · exact hforeign m hm
    · exact h.foreign m (hrest hm)

/-- Where the ownership can be after a step: in what the step leaves at `n` or sends, or elsewhere
where it was before. -/
theorem Inv.token_put (h : s.Inv) (hrest : rest ⊆ s.network) {k : NodeId} {d : Option α} {v : Int}
    (hd : ({ s with network := rest }.put n e).Token k d v) :
    k = n ∧ e.manager.Owns n ∧ d = e.manager.data ∧ v = e.manager.version ∨
      (∃ c, (k, .writeReply d c v) ∈ e.messages) ∨
      s.Token k d v ∧ (k = n → (s.manager n).awaits ≠ none) := by
  rcases hd with ⟨ho, hd, hv⟩ | ⟨c, hm⟩
  · by_cases hk : k = n
    · subst hk
      rw [put_manager] at ho hd hv
      exact .inl ⟨rfl, ho, hd, hv⟩
    · rw [put_manager_of_ne _ _ hk] at ho hd hv
      exact .inr (.inr ⟨.inl ⟨ho, hd, hv⟩, fun he => absurd he hk⟩)
  · rcases List.mem_append.mp hm with hm | hm
    · exact .inr (.inl ⟨c, hm⟩)
    · have hk : (s.manager k).awaits = some true := h.awaits_of_mem (hrest hm) rfl
      refine .inr (.inr ⟨.inr ⟨c, hrest hm⟩, ?_⟩)
      rintro rfl
      simp [hk]

/-- A step that leaves the ownership where it is. -/
theorem Inv.keep (h : s.Inv) (gone : List (Mail α))
    (hperm : (gone ++ rest).Perm s.network)
    (hbalance : (e.messages.filterMap about ++ asks (s.manager n) n).Perm
      (gone.filterMap about ++ asks e.manager n))
    (hplaced : e.manager.Placed n)
    (hmessages : ∀ m ∈ e.messages, Foreign m ∧ ¬ GivesUp m ∧
      ∀ t v, s.Held t v → Outdated (s.manager t) t v m)
    (hgone : ∀ m ∈ gone, m.1 = n)
    (hown : e.manager.Owns n → s.Token n e.manager.data e.manager.version)
    (hkept : ∀ d v, s.Token n d v → ({ s with network := rest }.put n e).Token n d v)
    (hwrite : (s.manager n).probOwner = n → (s.manager n).status = .write →
      e.manager.probOwner = n ∧ e.manager.status = .write)
    (hwritten : e.written = none) :
    ({ s with network := rest }.put n e).Inv := by
  have hrest : rest ⊆ s.network := fun _ hm => hperm.subset (List.mem_append_right _ hm)
  have hsame : ({ s with network := rest }.put n e).written = s.written := by
    show e.written.or s.written = s.written
    rw [hwritten, Option.none_or]
  refine h.put gone hperm hbalance hplaced (fun m hm => (hmessages m hm).1) ?_
  obtain ⟨t, v, ht⟩ := h.held
  refine ⟨t, v, ?_, fun k d v' hd => ?_, fun x hx => ?_⟩
  · rw [hsame]
    by_cases hn : t = n
    · subst hn
      exact hkept _ _ ht.token
    · rcases ht.token with ⟨ho, hd, hv⟩ | ⟨c, hm⟩
      · exact .inl (by rw [put_manager_of_ne _ _ hn]; exact ⟨ho, hd, hv⟩)
      · refine .inr ⟨c, List.mem_append_right _ ?_⟩
        rcases List.mem_append.mp (hperm.symm.subset hm) with hm | hm
        · exact absurd (hgone _ hm) hn
        · exact hm
  · rw [hsame]
    rcases h.token_put hrest hd with ⟨rfl, ho, rfl, rfl⟩ | ⟨c, hm⟩ | ⟨hd, -⟩
    · exact ht.unique _ _ _ (hown ho)
    · exact absurd trivial (hmessages _ hm).2.1
    · exact ht.unique _ _ _ hd
  · have hold : Outdated (s.manager t) t v x := by
      rcases List.mem_append.mp hx with hx | hx
      · exact (hmessages x hx).2.2 t v ht
      · exact ht.outdated x (hrest hx)
    by_cases hn : t = n
    · subst hn
      rw [put_manager]
      exact hold.imp_owner fun ho => hwrite ho.1 ho.2
    · rwa [put_manager_of_ne _ _ hn]

/-- The ownership is at an owner that waits for no answer, and nowhere else. -/
theorem Inv.alone (h : s.Inv) (hown : (s.manager n).Owns n) (hawaits : (s.manager n).awaits = none) :
    s.Held n (s.manager n).version ∧ s.written = (s.manager n).data ∧
      ∀ k d v, s.Token k d v → (k = n → (s.manager n).awaits ≠ none) → False := by
  obtain ⟨t, v, ht⟩ := h.held
  obtain ⟨rfl, hd, rfl⟩ := ht.unique n _ _ (.inl ⟨hown, rfl, rfl⟩)
  exact ⟨ht, hd.symm, fun k d v hk hne => hne (ht.unique k d v hk).1 hawaits⟩

/-! ## The operations -/

theorem asks_none {m : Manager α} (h : m.waiting = none) (n : NodeId) : asks m n = [] := by
  simp [asks, Manager.awaits, h]

theorem not_owns {m : Manager α} (h : m.waiting = none) (hm : m.probOwner ≠ n) : ¬ m.Owns n := by
  rintro (ho | ⟨-, w, hw, -⟩)
  · exact hm ho
  · rw [h] at hw
    cases hw

theorem awaits_eq_some {m : Manager α} {k : Bool} (h : m.awaits = some k) :
    m.signalled = false ∧ ∃ w, m.waiting = some w ∧ w.isWrite = k := by
  unfold Manager.awaits at h
  split_ifs at h with hs
  exact ⟨by simpa using hs, Option.map_eq_some_iff.mp h⟩

/-- The ownership is at a manager that waits for no write access only if it is the owner. -/
theorem Inv.token_owns (h : s.Inv) (hawaits : (s.manager n).awaits ≠ some true) {d : Option α}
    {v : Int} (hd : s.Token n d v) :
    (s.manager n).Owns n ∧ d = (s.manager n).data ∧ v = (s.manager n).version := by
  rcases hd with hd | ⟨c, hm⟩
  · exact hd
  · exact absurd (h.awaits_of_mem hm rfl) hawaits

/-- The ownership is not at a manager that is not the owner and waits for nothing. -/
theorem Inv.not_token (h : s.Inv) (hfree : (s.manager n).waiting = none)
    (howner : (s.manager n).probOwner ≠ n) (d : Option α) (v : Int) : ¬ s.Token n d v := fun hd =>
  not_owns hfree howner (h.token_owns (by simp [Manager.awaits, hfree]) hd).1

theorem Inv.request (h : s.Inv) (hfree : (s.manager n).waiting = none) (w : Waiting α)
    (haway : (s.manager n).probOwner ≠ n) (b : Bool) :
    (s.put n ({ s.manager n with inUse := b }.request n w)).Inv := by
  refine h.keep [] (.refl _) ?_ ⟨(h.placed n).write, (h.placed n).none, fun _ => haway⟩ ?_
    (by simp) ?_ (fun d v hd => absurd hd (h.not_token hfree haway d v)) (fun ho => absurd ho haway)
    rfl
  · rw [asks_none hfree]
    cases w <;> exact .refl _
  · cases w <;> simp [Manager.request, Foreign, GivesUp, Waiting.isWrite, Outdated]
  · rintro (ho | ⟨ho, -⟩)
    · exact absurd ho haway
    · cases ho

theorem filterMap_invalidations (m : Manager α) (self except : NodeId) :
    (m.invalidations self except).filterMap about = [] := by
  simp [Manager.invalidations, List.filterMap_map, Function.comp_def, about]

theorem mem_invalidations {m : Manager α} {self except : NodeId} {x : Mail α}
    (h : x ∈ m.invalidations self except) :
    ∃ target, target ≠ self ∧ x = (target, .invalidateRequest self m.version) := by
  obtain ⟨target, ht, rfl⟩ := List.mem_map.mp h
  simp only [List.mem_filter, decide_eq_true_eq] at ht
  exact ⟨target, ht.2.1, rfl⟩

/-- What an operation does once it needs no answer any more. -/
theorem Inv.finish (h : s.Inv) (m : Manager α) (hwaiting : m.waiting = none)
    (hdata : m.data = (s.manager n).data) (hversion : m.version = (s.manager n).version)
    (howner : m.probOwner = (s.manager n).probOwner) (hawaits : (s.manager n).awaits = none)
    {w : Waiting α} (hown : (s.manager n).Owns n ↔ w.isWrite = true) :
    (s.put n (m.finish n w)).Inv := by
  have hbalance : ((m.finish n w).messages.filterMap about ++ asks (s.manager n) n).Perm
      (asks (m.finish n w).manager n) := by
    rw [show asks (s.manager n) n = [] by simp [asks, hawaits]]
    cases w <;> simp [Manager.finish, asks, Manager.awaits, hwaiting, filterMap_invalidations]
  have htoken : ∀ {d v}, s.Token n d v →
      (s.manager n).Owns n ∧ d = (s.manager n).data ∧ v = (s.manager n).version := fun hd =>
    h.token_owns (by simp [hawaits]) hd
  cases w with
  | read =>
    have hnot : ¬ (s.manager n).Owns n := fun ho => absurd (hown.mp ho) (by simp [Waiting.isWrite])
    have haway : (s.manager n).probOwner ≠ n := fun ho => hnot (.inl ho)
    exact h.keep [] (.refl _) hbalance ⟨by simp [Manager.finish], by simp [Manager.finish],
      absurd hwaiting⟩ (by simp [Manager.finish]) (by simp)
      (fun ho => absurd ho (not_owns hwaiting (howner ▸ haway)))
      (fun d v hd => absurd (htoken hd).1 hnot) (fun ho => absurd ho haway) rfl
  | write var =>
    have hn : (s.manager n).Owns n := hown.mpr rfl
    obtain ⟨hheld, -, hnone⟩ := h.alone hn hawaits
    refine h.put [] (.refl _) hbalance ⟨fun _ => rfl, by simp [Manager.finish], absurd hwaiting⟩
      (fun x hx => ?_) ⟨n, (s.manager n).version, ?_, fun k d v hd => ?_, fun x hx => ?_⟩
    · obtain ⟨target, ht, rfl⟩ := mem_invalidations hx
      exact ht.symm
    · refine .inl ⟨?_, ?_, ?_⟩ <;> rw [put_manager]
      · exact .inl rfl
      · rfl
      · exact hversion.symm
    · rcases h.token_put (fun _ hx => hx) hd with ⟨rfl, -, rfl, rfl⟩ | ⟨c, hm⟩ | ⟨hd, hk⟩
      · exact ⟨rfl, rfl, hversion⟩
      · obtain ⟨target, -, he⟩ := mem_invalidations hm
        cases he
      · exact (hnone k d v hd hk).elim
    · rw [put_manager]
      rcases List.mem_append.mp hx with hx | hx
      · obtain ⟨target, -, rfl⟩ := mem_invalidations hx
        exact ⟨hversion.le, fun _ => ⟨rfl, rfl⟩⟩
      · exact (hheld.outdated x hx).imp_owner fun _ => ⟨rfl, rfl⟩
  | lock =>
    refine h.keep [] (.refl _) hbalance ⟨fun _ => rfl, by simp [Manager.finish], absurd hwaiting⟩
      (by simp [Manager.finish]) (by simp) (fun _ => .inl ⟨hown.mpr rfl, hdata, hversion⟩)
      (fun d v hd => ?_) (fun _ _ => ⟨rfl, rfl⟩) rfl
    obtain ⟨-, rfl, rfl⟩ := htoken hd
    refine .inl ⟨?_, ?_, ?_⟩ <;> rw [put_manager]
    · exact .inl rfl
    · exact hdata.symm
    · exact hversion.symm

/-- A step that changes nothing but `inUse` and takes a message that gives nothing up. -/
theorem Inv.use (h : s.Inv) (gone : List (Mail α)) (hperm : (gone ++ rest).Perm s.network)
    (hgone : ∀ m ∈ gone, m.1 = n ∧ about m = none) (b : Bool) :
    ({ s with network := rest }.put n { manager := { s.manager n with inUse := b } }).Inv := by
  refine h.keep gone hperm ?_ ⟨(h.placed n).write, (h.placed n).none, (h.placed n).away⟩ (by simp)
    (fun m hm => (hgone m hm).1) (fun ho => .inl ⟨ho, rfl, rfl⟩) (fun d v hd => ?_)
    (fun ho hs => ⟨ho, hs⟩) rfl
  · rw [List.filterMap_eq_nil_iff.mpr fun m hm => (hgone m hm).2]
    exact .refl _
  · rcases hd with hd | ⟨c, hm⟩
    · exact .inl (by rw [put_manager]; exact hd)
    · refine .inr ⟨c, List.mem_append_right _ ?_⟩
      rcases List.mem_append.mp (hperm.symm.subset hm) with hm | hm
      · cases (hgone _ hm).2
      · exact hm

/-- A request is passed on by a manager that is not the owner. -/
theorem Inv.forward (h : s.Inv) {message : Message α} {r : NodeId} {k : Bool}
    (hperm : ((n, message) :: rest).Perm s.network) (hfree : (s.manager n).waiting = none)
    (hr : r ≠ n) (howner : (s.manager n).probOwner ≠ n)
    (habout : ∀ target, about (target, message) = some (r, k))
    (hmessage : ∀ target, Foreign (target, message) ∧ ¬ GivesUp (target, message) ∧
      ∀ t v, s.Held t v → Outdated (s.manager t) t v (target, message)) :
    ({ s with network := rest }.put n { manager := { s.manager n with probOwner := r }
                                        messages := [((s.manager n).probOwner, message)] }).Inv := by
  refine h.keep [_] hperm ?_ ⟨fun hs => absurd ((h.placed n).write hs) howner, fun _ => hr,
    absurd hfree⟩ (fun m hm => ?_) (by simp) (fun ho => absurd ho (not_owns hfree hr))
    (fun d v hd => absurd hd (h.not_token hfree howner d v)) (fun ho => absurd ho howner) rfl
  · simp [habout, asks, Manager.awaits]
  · obtain rfl := List.mem_singleton.mp hm
    exact hmessage _

/-! ## The handlers -/

/-- An owner with read access has a later version than any invalidation, and ignores it. -/
theorem Inv.invalidateRequest (h : s.Inv) {r : NodeId} {v : Int}
    (hperm : ((n, .invalidateRequest r v) :: rest).Perm s.network)
    (hfree : (s.manager n).waiting = none) :
    ({ s with network := rest }.put n ((s.manager n).invalidateRequest n r v)).Inv := by
  have hmem : (n, .invalidateRequest r v) ∈ s.network := hperm.subset List.mem_cons_self
  have hforeign : r ≠ n := h.foreign _ hmem
  rw [Manager.invalidateRequest]
  split_ifs with hc
  · have howner : (s.manager n).probOwner ≠ n := by
      intro ho
      obtain ⟨hheld, -, -⟩ := h.alone (.inl ho) (by simp [Manager.awaits, hfree])
      obtain ⟨hle, heq⟩ := hheld.outdated _ hmem
      have := (heq (le_antisymm hle hc.2)).2
      rw [hc.1] at this
      cases this
    refine h.keep [_] hperm ?_ ⟨by simp, fun _ => hforeign, absurd hfree⟩ (fun x hx => ?_) (by simp)
      (fun ho => absurd ho (not_owns hfree hforeign))
      (fun d v hd => absurd hd (h.not_token hfree howner d v)) (fun ho => absurd ho howner) rfl
    · simp [asks, Manager.awaits, hfree, filterMap_invalidations, about]
    · obtain ⟨target, ht, rfl⟩ := mem_invalidations hx
      refine ⟨ht.symm, id, fun t v' hheld => ?_⟩
      obtain ⟨hle, heq⟩ := hheld.outdated _ hmem
      exact ⟨hc.2.trans hle, fun he => heq (le_antisymm hle (he ▸ hc.2))⟩
  · exact h.use [_] hperm (by simp [about]) (s.manager n).inUse

theorem Inv.writeRequest (h : s.Inv) {r : NodeId}
    (hperm : ((n, .writeRequest r) :: rest).Perm s.network) (hfree : (s.manager n).waiting = none)
    (hr : r ≠ n) : ({ s with network := rest }.put n ((s.manager n).writeRequest n r)).Inv := by
  have hrest : rest ⊆ s.network := fun _ hm => hperm.subset (List.mem_cons_of_mem _ hm)
  rw [Manager.writeRequest]
  split_ifs with howner
  · obtain ⟨hheld, hdata, hnone⟩ := h.alone (.inl howner) (by simp [Manager.awaits, hfree])
    refine h.put [_] hperm (.refl _) ⟨by simp, fun _ => hr, absurd hfree⟩ (fun m hm => ?_)
      ⟨r, (s.manager n).version + 1, ?_, fun k d v hd => ?_, fun x hx => ?_⟩
    · obtain rfl := List.mem_singleton.mp hm
      trivial
    · refine .inr ⟨(s.manager n).copies, List.mem_append_left _ ?_⟩
      rw [List.mem_singleton, ← hdata]
      rfl
    · rcases h.token_put hrest hd with ⟨rfl, ho, -⟩ | ⟨c, hm⟩ | ⟨hd, hk⟩
      · exact absurd ho (not_owns hfree hr)
      · cases List.mem_singleton.mp hm
        exact ⟨rfl, hdata.symm, rfl⟩
      · exact (hnone k d v hd hk).elim
    · rcases List.mem_append.mp hx with hx | hx
      · obtain rfl := List.mem_singleton.mp hx
        trivial
      · exact (hheld.outdated x (hrest hx)).lt (Int.lt_succ _)
  · exact h.forward hperm hfree hr howner (fun _ => rfl) fun _ => ⟨trivial, id, fun _ _ _ => trivial⟩

theorem Inv.readRequest (h : s.Inv) {r : NodeId}
    (hperm : ((n, .readRequest r) :: rest).Perm s.network) (hfree : (s.manager n).waiting = none)
    (hr : r ≠ n) : ({ s with network := rest }.put n ((s.manager n).readRequest n r)).Inv := by
  have hrest : rest ⊆ s.network := fun _ hm => hperm.subset (List.mem_cons_of_mem _ hm)
  rw [Manager.readRequest]
  split_ifs with hstatus
  · by_cases howner : (s.manager n).probOwner = n
    · obtain ⟨hheld, hdata, hnone⟩ := h.alone (.inl howner) (by simp [Manager.awaits, hfree])
      refine h.put [_] hperm (.refl _) ⟨by simp, by simp, absurd hfree⟩ (fun m hm => ?_)
        ⟨n, (s.manager n).version + 1, ?_, fun k d v hd => ?_, fun x hx => ?_⟩
      · obtain rfl := List.mem_singleton.mp hm
        exact hr.symm
      · refine .inl ⟨?_, ?_, ?_⟩ <;> rw [put_manager]
        · exact .inl howner
        · exact hdata
      · rcases h.token_put hrest hd with ⟨rfl, -, rfl, rfl⟩ | ⟨c, hm⟩ | ⟨hd, hk⟩
        · exact ⟨rfl, hdata.symm, rfl⟩
        · cases List.mem_singleton.mp hm
        · exact (hnone k d v hd hk).elim
      · rcases List.mem_append.mp hx with hx | hx
        · obtain rfl := List.mem_singleton.mp hx
          trivial
        · exact (hheld.outdated x (hrest hx)).lt (Int.lt_succ _)
    · -- a partition with a copy answers as well, and its version says nothing of the owner's
      refine h.keep [_] hperm (.refl _) ⟨by simp, by simp, absurd hfree⟩ (fun m hm => ?_) (by simp)
        (fun ho => absurd ho (not_owns hfree howner))
        (fun d v hd => absurd hd (h.not_token hfree howner d v)) (fun ho => absurd ho howner) rfl
      obtain rfl := List.mem_singleton.mp hm
      exact ⟨hr.symm, id, fun _ _ _ => trivial⟩
  · exact h.forward hperm hfree hr ((h.placed n).none (not_not.mp hstatus)) (fun _ => rfl)
      fun _ => ⟨trivial, id, fun _ _ _ => trivial⟩

theorem Inv.receive (h : s.Inv) {message : Message α}
    (hperm : ((n, message) :: rest).Perm s.network) (hacc : (s.manager n).Accepts n message) :
    ({ s with network := rest }.put n ((s.manager n).receive n message)).Inv := by
  have hmem : (n, message) ∈ s.network := hperm.subset List.mem_cons_self
  have hplaced := h.placed n
  -- a request is not that of the manager itself, which would wait in its critical section
  have hother : ∀ {r k}, about (n, message) = some (r, k) → (s.manager n).waiting = none → r ≠ n := by
    rintro r k ha hfree rfl
    obtain ⟨-, w, hw, -⟩ := awaits_eq_some (h.awaits_of_mem hmem ha)
    rw [hfree] at hw
    cases hw
  cases message with
  | invalidateRequest r v => exact h.invalidateRequest hperm (Option.isNone_iff_eq_none.mp hacc)
  | writeRequest r =>
    have hfree := Option.isNone_iff_eq_none.mp hacc.1
    exact h.writeRequest hperm hfree (hother rfl hfree)
  | writeReply d c v =>
    obtain ⟨hsignalled, w, hw, hwrite⟩ := awaits_eq_some (h.awaits_of_mem hmem rfl)
    have haway := hplaced.away (by simp [hw])
    refine h.keep [_] hperm ?_ ⟨hplaced.write, hplaced.none, hplaced.away⟩ (by simp [Manager.receive])
      (by simp) (fun _ => .inr ⟨c, hmem⟩) (fun d' v' hd => ?_) (fun ho => absurd ho haway) rfl
    · simp [Manager.receive, asks, Manager.awaits, hsignalled, hw, hwrite, about]
    · obtain ⟨t, v₀, ht⟩ := h.held
      obtain ⟨-, rfl, rfl⟩ := ht.unique _ _ _ hd
      obtain ⟨-, rfl, rfl⟩ := ht.unique n d v (.inr ⟨c, hmem⟩)
      refine .inl ⟨?_, ?_, ?_⟩ <;> rw [put_manager]
      · exact .inr ⟨by simp [Manager.receive, hw], w, hw, hwrite⟩
      · rfl
      · rfl
  | readRequest r =>
    have hfree := Option.isNone_iff_eq_none.mp hacc.1
    exact h.readRequest hperm hfree (hother rfl hfree)
  | readReply d r v =>
    have hawaits : (s.manager n).awaits = some false := h.awaits_of_mem hmem rfl
    obtain ⟨hsignalled, w, hw, hwrite⟩ := awaits_eq_some hawaits
    have hforeign : r ≠ n := h.foreign _ hmem
    have haway := hplaced.away (by simp [hw])
    have hnot : ∀ {m : Manager α}, m.waiting = some w → m.probOwner ≠ n → ¬ m.Owns n := by
      rintro m hmw hm (ho | ⟨-, w', hw', ho⟩)
      · exact hm ho
      · obtain rfl := Option.some.inj (hmw.symm.trans hw')
        rw [hwrite] at ho
        cases ho
    refine h.keep [_] hperm ?_ ⟨fun hs => absurd (hplaced.write hs) haway, fun _ => hforeign,
      fun _ => hforeign⟩ (by simp [Manager.receive]) (by simp)
      (fun ho => absurd ho (hnot hw hforeign)) (fun d' v' hd => ?_) (fun ho => absurd ho haway) rfl
    · simp [Manager.receive, asks, Manager.awaits, hsignalled, hw, hwrite, about]
    · exact absurd (h.token_owns (by simp [hawaits]) hd).1 (hnot hw haway)

theorem Inv.step {a : Action α} (h : s.Inv) (ha : s.Possible a) : (s.step a).Inv := by
  cases a with
  | read n =>
    have hfree := Option.isNone_iff_eq_none.mp ha
    rw [System.step, Manager.read]
    split_ifs with hstatus
    · exact h.request hfree .read ((h.placed n).none hstatus) (s.manager n).inUse
    · exact h.use [] (.refl _) (by simp) (s.manager n).inUse
  | write n var =>
    have hfree := Option.isNone_iff_eq_none.mp ha
    rw [System.step, Manager.write]
    split_ifs with hc
    · exact h.request hfree (.write var) hc.2 (s.manager n).inUse
    · refine h.finish _ hfree rfl rfl rfl (by simp [Manager.awaits, hfree])
        (iff_of_true (.inl ?_) rfl)
      by_contra howner
      exact hc ⟨fun hs => howner ((h.placed n).write hs), howner⟩
  | lock n =>
    have hfree := Option.isNone_iff_eq_none.mp ha.1
    rw [System.step, Manager.lock]
    split_ifs with howner
    · exact h.request hfree .lock howner true
    · exact h.finish { s.manager n with inUse := true } hfree rfl rfl rfl
        (by simp [Manager.awaits, hfree]) (iff_of_true (.inl (not_not.mp howner)) rfl)
  | unlock n => exact h.use [] (.refl _) (by simp) false
  | resume n =>
    rw [System.step, Manager.resume]
    cases hw : (s.manager n).waiting with
    | none => exact h.use [] (.refl _) (by simp) (s.manager n).inUse
    | some w =>
      have hsignalled : (s.manager n).signalled = true := ha
      refine h.finish { s.manager n with waiting := none, signalled := false } rfl rfl rfl rfl
        (by simp [Manager.awaits, hsignalled]) ⟨?_, fun hwrite => .inr ⟨hsignalled, w, hw, hwrite⟩⟩
      rintro (ho | ⟨-, w', hw', hwrite⟩)
      · exact absurd ho ((h.placed n).away (by simp [hw]))
      · rwa [Option.some.inj (hw.symm.trans hw')]
  | deliver i =>
    obtain ⟨⟨n, message⟩, hi, hacc⟩ := ha
    obtain ⟨hlt, hget⟩ := List.getElem?_eq_some_iff.mp hi
    rw [System.step, show s.network[i]? = some (n, message) from hi]
    exact h.receive (hget ▸ List.getElem_cons_eraseIdx_perm hlt) hacc

theorem Inv.coherent (h : s.Inv) : s.Coherent := by
  obtain ⟨t, v, ht⟩ := h.held
  have howner : ∀ n, (s.manager n).probOwner = n → n = t ∧ (s.manager n).data = s.written := by
    intro n hn
    obtain ⟨he, hd, -⟩ := ht.unique n _ _ (.inl ⟨.inl hn, rfl, rfl⟩)
    exact ⟨he, hd⟩
  refine ⟨fun n => (h.placed n).write, fun n k hn hk => (howner n hn).1.trans (howner k hk).1.symm,
    fun n hn => (howner n hn).2, ⟨t, v, ht.token, ht.unique⟩, fun n d c v' hm ho => ?_⟩
  obtain ⟨hsignalled, w, hw, -⟩ := awaits_eq_some (h.awaits_of_mem hm rfl)
  rcases ho with ho | ⟨ho, -⟩
  · exact (h.placed n).away (by simp [hw]) ho
  · rw [hsignalled] at ho
    cases ho

theorem inv_run (owner : NodeId) (version : NodeId → Int) (as : List (Action α))
    (h : Runs.Along step Possible (initial owner version) as) :
    (Runs.reach step (initial owner version) as).Inv :=
  Runs.reach_of_inv (fun _ _ hs => hs.step) as _ (inv_initial owner version) h

/-- A new variable is locked, read and written, and locked by another partition; the read request of
a third one is forwarded by the first. -/
def lockedRun : List (Action Nat) :=
  [.lock 0, .read 0, .write 0 5, .unlock 0, .lock 1, .deliver 0, .deliver 0, .resume 1,
    .read 2, .deliver 0, .deliver 0, .deliver 0, .resume 2, .unlock 1]

theorem possible_lockedRun : Runs.Along step Possible (initial 0 fun _ => 0) lockedRun := by
  simp [lockedRun, Runs.Along, step, Possible, initial, put, Manager.create, Manager.write,
    Manager.read, Manager.resume, Manager.unlock, Manager.finish, Manager.lock, Manager.request,
    Manager.receive, Manager.writeRequest, Manager.readRequest, Manager.Accepts,
    Manager.invalidations, Waiting.isWrite, naturalLast]

end System

end PolyORB.SharedMemory

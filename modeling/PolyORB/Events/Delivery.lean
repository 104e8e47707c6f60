import PolyORB.Events.Channel
import PolyORB.Lib.Rounds
import PolyORB.Lib.Runs

/-!
# Delivery of events

What an event channel owes to the consumers at the end of each step, and the invariant that brings
it about: the posts are rounds of the suppliers, over the proxy push suppliers and over the proxy
pull suppliers.
-/

namespace PolyORB.Events

open Rounds

namespace Channel

variable {ch : Channel}

/-! ## What is owed -/

def supplierOf (ch : Channel) (n : Nat) : Option Nat := ch.started[n]?.map Started.supplier

/-- The post of event `n` is over. -/
def Ended (ch : Channel) (n : Nat) : Prop := ∀ s p, ch.posts s = some p → p.number ≠ n

/-- Events of one supplier are in the order in which it posted them, each once. -/
def Ordered (ch : Channel) (events : List Nat) : Prop :=
  events.Pairwise fun m n => ch.supplierOf m = ch.supplierOf n → m < n

/-- Nobody is about to wake the tasks that wait in a proxy pull supplier, and none was woken. -/
def Still (ch : Channel) (j : Nat) : Prop :=
  (∀ s p, ch.posts s = some p → p.signalling ≠ some j) ∧
    (∀ peer, (j, peer) ∉ ch.disconnecting) ∧ (ch.pull j).woken = 0

structure Delivers (ch : Channel) : Prop where
  /-- A post that is over was pushed to every consumer that was connected when it was started. -/
  pushed : ∀ n r i c, ch.started[n]? = some r → ch.Ended n → (i, c) ∈ r.due →
    (n, c) ∈ (ch.push i).pushed
  pushed_ordered : ∀ i, ch.Ordered ((ch.push i).pushed.map Prod.fst)
  /-- It was queued in every proxy pull supplier that there was. -/
  queued : ∀ n r j, ch.started[n]? = some r → ch.Ended n → j < r.pulls → n ∈ (ch.pull j).queued
  queued_ordered : ∀ j, ch.Ordered (ch.pull j).queued
  /-- What was queued is pulled in its order, each event once. -/
  pulled : ∀ j, (ch.pull j).queued = (ch.pull j).pulled ++ (ch.pull j).queue
  blocked : ∀ j, 0 < (ch.pull j).waiting → ch.Still j →
    (ch.pull j).peer ≠ none ∧ (ch.pull j).queue = []
  notified : ∀ d ∈ ch.disconnected, d.notified = d.peer

/-! ## Which steps are right -/

/-- A proxy push supplier that is disconnected has no peer; and where a push fails, none of the
consumers that the post has not come to was connected when it was started. -/
def Suits (ch : Channel) : Action → Prop
  | .disconnectPushSupplier i => (ch.push i).peer = none
  | .postPush s raises => ∀ p i rest, ch.posts s = some p → p.pushs = i :: rest →
      (ch.push i).peer = none ∨ raises = true →
      ∀ r k c, ch.started[p.number]? = some r → (k, c) ∈ r.due → k ∉ rest
  | _ => True

/-! ## The rounds of the posts -/

def suppliers (ch : Channel) : List Nat := ch.started.map Started.supplier

/-- The rounds over the places that `f` gives for a post. -/
def bookOf (ch : Channel) (f : Post → List Nat) : Book Nat :=
  ⟨ch.suppliers, fun s => (ch.posts s).map fun p => (p.number, f p)⟩

def pushBook (ch : Channel) : Book Nat :=
  ⟨ch.suppliers, fun s => (ch.posts s).map fun p => (p.number, p.pushs)⟩

def pullBook (ch : Channel) : Book Nat :=
  ⟨ch.suppliers, fun s => (ch.posts s).map fun p => (p.number, p.pulls)⟩

/-- The post started as `n` found the proxy push supplier `i` connected. -/
def PushDue (ch : Channel) (i n : Nat) : Prop := ∃ r c, ch.started[n]? = some r ∧ (i, c) ∈ r.due

/-- The post started as `n` found the proxy pull supplier `j`. -/
def PullDue (ch : Channel) (j n : Nat) : Prop := ∃ r, ch.started[n]? = some r ∧ j < r.pulls

theorem supplierOf_eq (ch : Channel) (n : Nat) : ch.supplierOf n = ch.suppliers[n]? := by
  rw [supplierOf, suppliers, List.getElem?_map]

theorem bookOf_ended {n : Nat} (f : Post → List Nat) (h : ch.Ended n) :
    (ch.bookOf f).Ended n := by
  intro s places hw
  obtain ⟨p, hp, heq⟩ := Option.map_eq_some_iff.1 hw
  exact h s p hp (congrArg Prod.fst heq)

/-! ## The invariant -/

/-- The part of the proxy push suppliers. -/
structure PushInv (ch : Channel) : Prop where
  valid : ch.pushBook.Valid
  log : ∀ i, ch.pushBook.Log i ((ch.push i).pushed.map Prod.fst)
  serves : ∀ i, ch.pushBook.Serves i ((ch.push i).pushed.map Prod.fst) (ch.PushDue i)
  /-- A consumer that an event is due to stays connected, and it is the one that is pushed it. -/
  peer : ∀ n r i c, ch.started[n]? = some r → (i, c) ∈ r.due →
    i < ch.pushCount ∧ (ch.push i).peer = some c ∧ ∀ c', (n, c') ∈ (ch.push i).pushed → c' = c

/-- The part of the queues. -/
structure PullInv (ch : Channel) : Prop where
  valid : ch.pullBook.Valid
  log : ∀ j, ch.pullBook.Log j (ch.pull j).queued
  serves : ∀ j, ch.pullBook.Serves j (ch.pull j).queued (ch.PullDue j)
  known : ∀ (n : Nat) (r : Started), ch.started[n]? = some r → r.pulls ≤ ch.pullCount
  pulled : ∀ j, (ch.pull j).queued = (ch.pull j).pulled ++ (ch.pull j).queue

/-- The posts that have still to signal the condition of a proxy pull supplier. -/
def Signalling (ch : Channel) (j : Nat) (suppliers : Finset Nat) : Prop :=
  ∀ s, s ∈ suppliers ↔ ∃ p, ch.posts s = some p ∧ p.signalling = some j

/-- While a task waits there are as many wake-ups to come as there are events in the queue, unless
all are going to be woken; and so they are when there is no peer. -/
def WaitInv (ch : Channel) (j : Nat) : Prop :=
  ∃ S, ch.Signalling j S ∧ (0 < (ch.pull j).waiting → (∃ peer, (j, peer) ∈ ch.disconnecting) ∨
    ((ch.pull j).queue.length ≤ S.card + (ch.pull j).woken ∧ (ch.pull j).peer ≠ none))

structure Inv (ch : Channel) : Prop where
  push : ch.PushInv
  pull : ch.PullInv
  wait : ∀ j, ch.WaitInv j
  notified : ∀ d ∈ ch.disconnected, d.notified = d.peer

theorem Inv.delivers (h : ch.Inv) : ch.Delivers where
  pushed n r i c hr hn hdue := by
    have hmem := (h.push.serves i).mem_of_ended ⟨r, c, hr, hdue⟩ (bookOf_ended Post.pushs hn)
    obtain ⟨⟨m, c'⟩, hc', rfl⟩ := List.mem_map.1 hmem
    obtain rfl := (h.push.peer _ r i c hr hdue).2.2 c' hc'
    exact hc'
  pushed_ordered i := by
    refine (h.push.log i).ordered.imp fun {m n} hlt heq => hlt ?_
    rwa [supplierOf_eq, supplierOf_eq] at heq
  queued n r j hr hn hj := (h.pull.serves j).mem_of_ended ⟨r, hr, hj⟩ (bookOf_ended Post.pulls hn)
  queued_ordered j := by
    refine (h.pull.log j).ordered.imp fun {m n} hlt heq => hlt ?_
    rwa [supplierOf_eq, supplierOf_eq] at heq
  pulled := h.pull.pulled
  blocked j hwait hstill := by
    obtain ⟨S, hS, hinv⟩ := h.wait j
    have hempty : S = ∅ := by
      refine Finset.eq_empty_of_forall_notMem fun s hs => ?_
      obtain ⟨p, hp, hsig⟩ := (hS s).1 hs
      exact hstill.1 s p hp hsig
    rcases hinv hwait with ⟨peer, hpeer⟩ | ⟨hle, hpeer⟩
    · exact absurd hpeer (hstill.2.1 peer)
    · rw [hempty, hstill.2.2] at hle
      exact ⟨hpeer, List.length_eq_zero_iff.1 (by simpa using hle)⟩
  notified := h.notified

theorem started_initial {n : Nat} {r : Started} : initial.started[n]? ≠ some r := by
  simp [initial]

theorem inv_initial : initial.Inv where
  push := {
    valid := fun _ _ _ h => by cases h
    log := fun _ => .empty _ _
    serves := fun _ _ ⟨_, _, h, _⟩ => absurd h started_initial
    peer := fun _ _ _ _ h => absurd h started_initial }
  pull := {
    valid := fun _ _ _ h => by cases h
    log := fun _ => .empty _ _
    serves := fun _ _ ⟨_, h, _⟩ => absurd h started_initial
    known := fun _ _ h => absurd h started_initial
    pulled := fun _ => rfl }
  wait _ := ⟨∅, fun _ => by simp [initial], fun h => absurd h (lt_irrefl 0)⟩
  notified := by simp [initial]

/-! ## Books under the steps -/

variable {s i j : Nat}

@[simp] theorem started_setPost (ch : Channel) (s : Nat) (p : Option Post) :
    (ch.setPost s p).started = ch.started := rfl

theorem push_setPush (ch : Channel) (i k : Nat) (p : PushSupplier) :
    (ch.setPush i p).push k = if k = i then p else ch.push k := Function.update_apply ..

theorem pull_setPull (ch : Channel) (j k : Nat) (p : PullSupplier) :
    (ch.setPull j p).pull k = if k = j then p else ch.pull k := Function.update_apply ..

theorem posts_setPost (ch : Channel) (s t : Nat) (p : Option Post) :
    (ch.setPost s p).posts t = if t = s then p else ch.posts t := Function.update_apply ..

theorem posts_beginPost (ch : Channel) (s t : Nat) : (ch.beginPost s).posts t =
    if t = s then some ⟨ch.started.length, List.range ch.pullCount, none, List.range ch.pushCount⟩
    else ch.posts t := Function.update_apply ..

theorem pushBook_work (ch : Channel) (s : Nat) :
    ch.pushBook.work s = (ch.posts s).map fun p => (p.number, p.pushs) := rfl

theorem pullBook_work (ch : Channel) (s : Nat) :
    ch.pullBook.work s = (ch.posts s).map fun p => (p.number, p.pulls) := rfl

theorem bookOf_setPost (ch : Channel) (f : Post → List Nat) (s : Nat) (p : Option Post) :
    (ch.setPost s p).bookOf f = (ch.bookOf f).setWork s (p.map fun p => (p.number, f p)) := by
  rw [bookOf, bookOf, Book.setWork, suppliers, suppliers, started_setPost]
  congr 1
  funext t
  rw [posts_setPost, Function.update_apply]
  split <;> rfl

theorem pushBook_setPost (ch : Channel) (s : Nat) (p : Option Post) :
    (ch.setPost s p).pushBook = ch.pushBook.setWork s (p.map fun p => (p.number, p.pushs)) :=
  ch.bookOf_setPost Post.pushs s p

theorem pullBook_setPost (ch : Channel) (s : Nat) (p : Option Post) :
    (ch.setPost s p).pullBook = ch.pullBook.setWork s (p.map fun p => (p.number, p.pulls)) :=
  ch.bookOf_setPost Post.pulls s p

theorem bookOf_beginPost (ch : Channel) {f : Post → List Nat} {s : Nat} {places : List Nat}
    (hf : f ⟨ch.started.length, List.range ch.pullCount, none, List.range ch.pushCount⟩ = places) :
    (ch.beginPost s).bookOf f = (ch.bookOf f).begin s places := by
  have hwork (t : Nat) : ((ch.beginPost s).bookOf f).work t =
      ((ch.bookOf f).begin s places).work t := by
    show ((ch.beginPost s).posts t).map (fun p => (p.number, f p)) = _
    rw [posts_beginPost, Book.work_begin]
    split
    · exact congrArg some (Prod.ext (List.length_map ..).symm hf)
    · rfl
  have hjobs : (ch.beginPost s).suppliers = ch.suppliers ++ [s] := List.map_append ..
  rw [bookOf, Book.begin, hjobs, Book.mk.injEq]
  exact ⟨rfl, funext hwork⟩

theorem started_beginPost {n : Nat} {r : Started} (hr : (ch.beginPost s).started[n]? = some r) :
    ch.started[n]? = some r ∨
      n = ch.started.length ∧ r.due = ch.connected ∧ r.pulls = ch.pullCount := by
  rw [beginPost, List.getElem?_append] at hr
  split at hr
  · exact .inl hr
  · obtain ⟨hlt, hr⟩ := List.getElem?_eq_some_iff.1 hr
    have hn : n = ch.started.length := by simp at hlt; omega
    subst hn
    simp at hr
    exact .inr ⟨rfl, by rw [← hr], by rw [← hr]⟩

theorem bookOf_setPost_same (ch : Channel) {f : Post → List Nat} {p q : Post}
    (hp : ch.posts s = some p) (hn : q.number = p.number) (hf : f q = f p) :
    (ch.setPost s (some q)).bookOf f = ch.bookOf f := by
  have hwork : (ch.bookOf f).work s = (some q).map fun p => (p.number, f p) := by
    rw [Option.map_some, hn, hf]
    exact congrArg (Option.map fun p => (p.number, f p)) hp
  rw [bookOf_setPost, Book.setWork, ← hwork, Function.update_eq_self]

/-! ## Proxy push suppliers -/

namespace PushInv

theorem congr {ch' : Channel} (h : ch.PushInv) (hbook : ch'.pushBook = ch.pushBook)
    (hpush : ch'.push = ch.push) (hcount : ch'.pushCount = ch.pushCount)
    (hstarted : ch'.started = ch.started) : ch'.PushInv where
  valid := by rw [hbook]; exact h.valid
  log k := by rw [hbook, hpush]; exact h.log k
  serves k := by
    rw [hbook, hpush]
    intro n hdue
    rw [PushDue, hstarted] at hdue
    exact h.serves k n hdue
  peer := by rw [hstarted, hcount, hpush]; exact h.peer

theorem setPeer (h : ch.PushInv) (hpeer : (ch.push i).peer = none) (peer : Option Nat) :
    (ch.setPush i { ch.push i with peer := peer }).PushInv := by
  have hpushed (k : Nat) : ((ch.setPush i { ch.push i with peer := peer }).push k).pushed =
      (ch.push k).pushed := by
    rw [push_setPush]
    split
    · rename_i heq
      rw [heq]
    · rfl
  refine ⟨h.valid, fun k => ?_, fun k => ?_, fun n r k c hr hdue => ?_⟩
  · rw [hpushed]
    exact h.log k
  · rw [hpushed]
    exact h.serves k
  · obtain ⟨hlt, hk, hall⟩ := h.peer n r k c hr hdue
    have hne : k ≠ i := by
      rintro rfl
      rw [hpeer] at hk
      cases hk
    rw [push_setPush, if_neg hne]
    exact ⟨hlt, hk, hall⟩

theorem obtain (h : ch.PushInv) :
    { ch.setPush ch.pushCount {} with pushCount := ch.pushCount + 1 }.PushInv := by
  have hpush (k : Nat) : { ch.setPush ch.pushCount {} with pushCount := ch.pushCount + 1 }.push k =
      if k = ch.pushCount then {} else ch.push k := push_setPush ..
  refine ⟨h.valid, fun k => ?_, fun k n hdue => ?_, fun n r k c hr hdue => ?_⟩
  · rw [hpush]
    split
    · exact .empty _ _
    · exact h.log k
  · obtain ⟨r, c, hr, hmem⟩ := hdue
    have hlt := (h.peer n r k c hr hmem).1
    rw [hpush, if_neg (by omega)]
    exact h.serves k n ⟨r, c, hr, hmem⟩
  · obtain ⟨hlt, hk, hall⟩ := h.peer n r k c hr hdue
    rw [hpush, if_neg (by omega)]
    exact ⟨Nat.lt_succ_of_lt hlt, hk, hall⟩

theorem mem_connected {c : Nat} : (i, c) ∈ ch.connected ↔
    i < ch.pushCount ∧ (ch.push i).peer = some c := by
  simp [connected, List.mem_filterMap]

theorem begin (h : ch.PushInv) (hs : ch.posts s = none) : (ch.beginPost s).PushInv := by
  have hlength : ch.pushBook.jobs.length = ch.started.length := List.length_map ..
  have hwork : ch.pushBook.work s = none := by rw [pushBook_work, hs]; rfl
  have hbook : (ch.beginPost s).pushBook = ch.pushBook.begin s (List.range ch.pushCount) :=
    bookOf_beginPost ch rfl
  refine ⟨?_, fun k => ?_, fun k => ?_, fun n r k c hr hdue => ?_⟩
  · rw [hbook]
    exact h.valid.begin List.nodup_range
  · rw [hbook]
    exact (h.log k).begin s _
  · rw [hbook]
    refine (h.serves k).begin hwork fun n hdue => ?_
    obtain ⟨r, c, hr, hmem⟩ := hdue
    rcases started_beginPost hr with hr | ⟨hn, hr, -⟩
    · exact .inl ⟨r, c, hr, hmem⟩
    · rw [hr] at hmem
      exact .inr ⟨hn.trans hlength.symm, List.mem_range.2 (mem_connected.1 hmem).1⟩
  · rcases started_beginPost hr with hr | ⟨hn, hr, -⟩
    · exact h.peer n r k c hr hdue
    · rw [hr] at hdue
      obtain ⟨hlt, hpeer⟩ := mem_connected.1 hdue
      refine ⟨hlt, hpeer, fun c' hc' => ?_⟩
      have hbound := (h.log k).bounded n (List.mem_map.2 ⟨_, hc', rfl⟩)
      omega

theorem stop (h : ch.PushInv) {p : Post} (hp : ch.posts s = some p)
    (hdue : ∀ k, ch.PushDue k p.number → k ∈ p.pushs →
      p.number ∈ (ch.push k).pushed.map Prod.fst) : (ch.setPost s none).PushInv := by
  have hwork : ch.pushBook.work s = some (p.number, p.pushs) := by rw [pushBook_work, hp]; rfl
  refine ⟨?_, fun k => ?_, fun k => ?_, h.peer⟩
  · rw [pushBook_setPost]
    exact h.valid.stop s
  · rw [pushBook_setPost]
    exact (h.log k).stop s
  · rw [pushBook_setPost]
    exact (h.serves k).stop hwork (hdue k)

theorem visit (h : ch.PushInv) {p : Post} {rest : List Nat} {c : Nat} (hp : ch.posts s = some p)
    (hpushs : p.pushs = i :: rest) (hc : (ch.push i).peer = some c) :
    ((ch.setPush i ((ch.push i).push p.number c)).setPost s
      (some { p with pushs := rest })).PushInv := by
  have hwork : ch.pushBook.work s = some (p.number, i :: rest) := by
    rw [pushBook_work, hp, ← hpushs]
    rfl
  refine ⟨?_, fun k => ?_, fun k => ?_, fun n r k c' hr hdue => ?_⟩
  · rw [pushBook_setPost]
    exact h.valid.visit hwork
  · rw [pushBook_setPost]
    show Book.Log _ k (((ch.setPush i _).push k).pushed.map Prod.fst)
    rw [push_setPush]
    split
    · rename_i hk
      rw [hk, PushSupplier.push, List.map_append]
      exact (h.log i).visit h.valid hwork
    · exact (h.log k).pass hwork
  · rw [pushBook_setPost]
    show Book.Serves _ k (((ch.setPush i _).push k).pushed.map Prod.fst) _
    rw [push_setPush]
    split
    · rename_i hk
      rw [hk, PushSupplier.push, List.map_append]
      exact (h.serves i).visit hwork
    · rename_i hk
      exact (h.serves k).pass hwork (Ne.symm hk)
  · obtain ⟨hlt, hpeer, hall⟩ := h.peer n r k c' hr hdue
    show k < ch.pushCount ∧ ((ch.setPush i _).push k).peer = some c' ∧
      ∀ d, (n, d) ∈ ((ch.setPush i _).push k).pushed → d = c'
    rw [push_setPush]
    split
    · rename_i hk
      subst hk
      refine ⟨hlt, hpeer, fun d hd => ?_⟩
      rcases List.mem_append.1 hd with hd | hd
      · exact hall d hd
      · have heq := (Prod.mk.inj (List.mem_singleton.1 hd)).2
        rw [heq]
        exact Option.some.inj (hc.symm.trans hpeer)
    · exact ⟨hlt, hpeer, hall⟩

end PushInv

/-! ## Proxy pull suppliers -/

namespace PullInv

theorem congr {ch' : Channel} (h : ch.PullInv) (hbook : ch'.pullBook = ch.pullBook)
    (hpull : ch'.pull = ch.pull) (hcount : ch'.pullCount = ch.pullCount)
    (hstarted : ch'.started = ch.started) : ch'.PullInv where
  valid := by rw [hbook]; exact h.valid
  log k := by rw [hbook, hpull]; exact h.log k
  serves k := by
    rw [hbook, hpull]
    intro n hdue
    rw [PullDue, hstarted] at hdue
    exact h.serves k n hdue
  known := by rw [hstarted, hcount]; exact h.known
  pulled := by rw [hpull]; exact h.pulled

theorem setPull (h : ch.PullInv) {p : PullSupplier} (hqueued : p.queued = (ch.pull j).queued)
    (hpulled : p.pulled ++ p.queue = (ch.pull j).pulled ++ (ch.pull j).queue) :
    (ch.setPull j p).PullInv := by
  have hsame (k : Nat) : ((ch.setPull j p).pull k).queued = (ch.pull k).queued := by
    rw [pull_setPull]
    split
    · rename_i heq
      rw [heq, hqueued]
    · rfl
  refine ⟨h.valid, fun k => ?_, fun k => ?_, h.known, fun k => ?_⟩
  · rw [hsame]
    exact h.log k
  · rw [hsame]
    exact h.serves k
  · rw [hsame, pull_setPull]
    split
    · rename_i heq
      rw [heq, h.pulled, hpulled]
    · exact h.pulled k

theorem obtain (h : ch.PullInv) :
    { ch.setPull ch.pullCount {} with pullCount := ch.pullCount + 1 }.PullInv := by
  have hpull (k : Nat) : { ch.setPull ch.pullCount {} with pullCount := ch.pullCount + 1 }.pull k =
      if k = ch.pullCount then {} else ch.pull k := pull_setPull ..
  refine ⟨h.valid, fun k => ?_, fun k n hdue => ?_, fun n r hr => ?_, fun k => ?_⟩
  · rw [hpull]
    split
    · exact .empty _ _
    · exact h.log k
  · obtain ⟨r, hr, hlt⟩ := hdue
    have hle := h.known n r hr
    rw [hpull, if_neg (by omega)]
    exact h.serves k n ⟨r, hr, hlt⟩
  · exact Nat.le_succ_of_le (h.known n r hr)
  · rw [hpull]
    split
    · rfl
    · exact h.pulled k

theorem begin (h : ch.PullInv) (hs : ch.posts s = none) : (ch.beginPost s).PullInv := by
  have hlength : ch.pullBook.jobs.length = ch.started.length := List.length_map ..
  have hwork : ch.pullBook.work s = none := by rw [pullBook_work, hs]; rfl
  have hbook : (ch.beginPost s).pullBook = ch.pullBook.begin s (List.range ch.pullCount) :=
    bookOf_beginPost ch rfl
  refine ⟨?_, fun k => ?_, fun k => ?_, fun n r hr => ?_, h.pulled⟩
  · rw [hbook]
    exact h.valid.begin List.nodup_range
  · rw [hbook]
    exact (h.log k).begin s _
  · rw [hbook]
    refine (h.serves k).begin hwork fun n hdue => ?_
    obtain ⟨r, hr, hlt⟩ := hdue
    rcases started_beginPost hr with hr | ⟨hn, -, hr⟩
    · exact .inl ⟨r, hr, hlt⟩
    · exact .inr ⟨hn.trans hlength.symm, List.mem_range.2 (hr ▸ hlt)⟩
  · rcases started_beginPost hr with hr | ⟨-, -, hr⟩
    · exact h.known n r hr
    · exact hr.le

theorem stop (h : ch.PullInv) {p : Post} (hp : ch.posts s = some p) (hpulls : p.pulls = []) :
    (ch.setPost s none).PullInv := by
  have hwork : ch.pullBook.work s = some (p.number, p.pulls) := by rw [pullBook_work, hp]; rfl
  refine ⟨?_, fun k => ?_, fun k => ?_, h.known, h.pulled⟩
  · rw [pullBook_setPost]
    exact h.valid.stop s
  · rw [pullBook_setPost]
    exact (h.log k).stop s
  · rw [pullBook_setPost]
    exact (h.serves k).stop hwork fun _ hk => by simp [hpulls] at hk

theorem visit (h : ch.PullInv) {p : Post} {rest : List Nat} {signalling : Option Nat}
    (hp : ch.posts s = some p) (hpulls : p.pulls = j :: rest) :
    ((ch.setPull j ((ch.pull j).post p.number)).setPost s
      (some ⟨p.number, rest, signalling, p.pushs⟩)).PullInv := by
  have hwork : ch.pullBook.work s = some (p.number, j :: rest) := by
    rw [pullBook_work, hp, ← hpulls]
    rfl
  refine ⟨?_, fun k => ?_, fun k => ?_, h.known, fun k => ?_⟩
  · rw [pullBook_setPost]
    exact h.valid.visit hwork
  · rw [pullBook_setPost]
    show Book.Log _ k ((ch.setPull j _).pull k).queued
    rw [pull_setPull]
    split
    · rename_i hk
      rw [hk]
      exact (h.log j).visit h.valid hwork
    · exact (h.log k).pass hwork
  · rw [pullBook_setPost]
    show Book.Serves _ k ((ch.setPull j _).pull k).queued _
    rw [pull_setPull]
    split
    · rename_i hk
      rw [hk]
      exact (h.serves j).visit hwork
    · rename_i hk
      exact (h.serves k).pass hwork (Ne.symm hk)
  · show ((ch.setPull j _).pull k).queued = ((ch.setPull j _).pull k).pulled ++
      ((ch.setPull j _).pull k).queue
    rw [pull_setPull]
    split
    · simp only [PullSupplier.post]
      rw [h.pulled, List.append_assoc]
    · exact h.pulled k

end PullInv

theorem extractFirst_pulled (p : PullSupplier) :
    p.extractFirst.pulled ++ p.extractFirst.queue = p.pulled ++ p.queue := by
  cases hq : p.queue <;> simp [PullSupplier.extractFirst, hq]

theorem pull_pulled (p : PullSupplier) :
    p.pull.queued = p.queued ∧ p.pull.pulled ++ p.pull.queue = p.pulled ++ p.queue := by
  unfold PullSupplier.pull
  split_ifs
  · exact ⟨rfl, rfl⟩
  · exact ⟨rfl, rfl⟩
  · exact ⟨rfl, extractFirst_pulled p⟩

theorem tryPull_pulled (p : PullSupplier) :
    p.tryPull.queued = p.queued ∧ p.tryPull.pulled ++ p.tryPull.queue = p.pulled ++ p.queue := by
  unfold PullSupplier.tryPull
  split_ifs
  · exact ⟨rfl, rfl⟩
  · exact ⟨rfl, rfl⟩
  · exact ⟨rfl, extractFirst_pulled p⟩

theorem signal_pulled (p : PullSupplier) :
    p.signal.queued = p.queued ∧ p.signal.pulled ++ p.signal.queue = p.pulled ++ p.queue := by
  unfold PullSupplier.signal
  split_ifs <;> exact ⟨rfl, rfl⟩

/-! ## Waiting tasks -/

theorem Signalling.setPost {S : Finset Nat} (h : ch.Signalling j S) {q : Option Post}
    (hq : (∃ p, q = some p ∧ p.signalling = some j) ↔
      ∃ p, ch.posts s = some p ∧ p.signalling = some j) : (ch.setPost s q).Signalling j S := by
  intro t
  rw [h t, posts_setPost]
  split
  · rename_i ht
    rw [ht, hq]
  · rfl

theorem not_signalling {p : Post} {k : Nat} (hp : ch.posts s = some p)
    (hsig : p.signalling = none) : ¬∃ p, ch.posts s = some p ∧ p.signalling = some k := by
  rintro ⟨q, hq, hk⟩
  rw [hp] at hq
  obtain rfl := Option.some.inj hq
  rw [hsig] at hk
  cases hk

namespace WaitInv

theorem congr {ch' : Channel} (h : ch.WaitInv j) (hposts : ch'.posts = ch.posts)
    (hpull : ch'.pull j = ch.pull j)
    (hdisc : ∀ peer, (j, peer) ∈ ch.disconnecting → (j, peer) ∈ ch'.disconnecting) :
    ch'.WaitInv j := by
  obtain ⟨S, hS, hinv⟩ := h
  refine ⟨S, ?_, ?_⟩
  · rw [Signalling, hposts]
    exact hS
  · rw [hpull]
    exact fun hw => (hinv hw).imp_left fun ⟨peer, hp⟩ => ⟨peer, hdisc peer hp⟩

theorem setPost (h : ch.WaitInv j) {q : Option Post}
    (hq : (∃ p, q = some p ∧ p.signalling = some j) ↔
      ∃ p, ch.posts s = some p ∧ p.signalling = some j) : (ch.setPost s q).WaitInv j := by
  obtain ⟨S, hS, hinv⟩ := h
  exact ⟨S, hS.setPost hq, hinv⟩

theorem setPull (h : ch.WaitInv j) {i : Nat} {p : PullSupplier}
    (hp : i = j → ∀ n, (0 < (ch.pull i).waiting → (∃ peer, (i, peer) ∈ ch.disconnecting) ∨
        ((ch.pull i).queue.length ≤ n + (ch.pull i).woken ∧ (ch.pull i).peer ≠ none)) →
      0 < p.waiting → (∃ peer, (i, peer) ∈ ch.disconnecting) ∨
        (p.queue.length ≤ n + p.woken ∧ p.peer ≠ none)) : (ch.setPull i p).WaitInv j := by
  obtain ⟨S, hS, hinv⟩ := h
  refine ⟨S, hS, ?_⟩
  rw [pull_setPull]
  split
  · rename_i hji
    subst hji
    exact hp rfl S.card hinv
  · exact hinv

end WaitInv

end Channel

end PolyORB.Events

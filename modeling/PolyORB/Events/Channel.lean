import Mathlib.Logic.Function.Basic
import Mathlib.Data.List.Range

/-!
# Event channels

`CosEventChannelAdmin`: the proxies that a consumer admin gives out, and the posts of events to
them.  What is done between `Enter` and `Leave` of a mutex is one step, and so is each call of a
proxy by the loops of `Post`.  Proxies are known by their positions in `Pushs` and `Pulls`, events
by the number of their post, consumers and suppliers by numbers.
-/

namespace PolyORB.Events

/-! ## Proxies -/

/-- `Connect_Push_Consumer` and `Connect_Pull_Consumer`: the new peer, `none` when
`AlreadyConnected` is raised. -/
def connectPeer (peer consumer : Option Nat) : Option (Option Nat) :=
  if peer.isSome = true then none else some consumer

/-- The peer that the test of `Disconnect_Push_Supplier` lets be told, `Is_Nil (Peer)`. -/
def pushPeerToNotify (peer : Option Nat) : Option Nat := if peer = none then peer else none

/-- The peer that the test of `Disconnect_Pull_Supplier` lets be told, `not Is_Nil (Peer)`. -/
def pullPeerToNotify (peer : Option Nat) : Option Nat := if ¬peer = none then peer else none

/-- A proxy push supplier, with the events that it has pushed and to whom. -/
structure PushSupplier where
  peer : Option Nat := none
  pushed : List (Nat × Nat) := []
  deriving DecidableEq

/-- `push` of the peer. -/
def PushSupplier.push (p : PushSupplier) (event consumer : Nat) : PushSupplier :=
  { p with pushed := p.pushed ++ [(event, consumer)] }

/-- A proxy pull supplier.  `waiting` tasks are in `Wait (CV, M)`, `woken` ones were signalled and
have not entered the mutex again. -/
structure PullSupplier where
  peer : Option Nat := none
  queue : List Nat := []
  waiting : Nat := 0
  woken : Nat := 0
  /-- All that was appended to the queue, and all that was extracted from it. -/
  queued : List Nat := []
  pulled : List Nat := []
  deriving DecidableEq

namespace PullSupplier

/-- `Post`, up to `Leave`. -/
def post (p : PullSupplier) (event : Nat) : PullSupplier :=
  { p with queue := p.queue ++ [event], queued := p.queued ++ [event] }

def signal (p : PullSupplier) : PullSupplier :=
  if p.waiting = 0 then p else { p with waiting := p.waiting - 1, woken := p.woken + 1 }

def broadcast (p : PullSupplier) : PullSupplier :=
  { p with waiting := 0, woken := p.woken + p.waiting }

def extractFirst (p : PullSupplier) : PullSupplier :=
  { p with queue := p.queue.tail, pulled := p.pulled ++ p.queue.head?.toList }

/-- One round of the loop of `Pull`: it raises `Disconnected`, it waits or it returns. -/
def pull (p : PullSupplier) : PullSupplier :=
  if p.peer = none then p
  else if p.queue = [] then { p with waiting := p.waiting + 1 }
  else p.extractFirst

/-- A task that was woken enters the mutex and tests again. -/
def resume (p : PullSupplier) : PullSupplier := { p with woken := p.woken - 1 }.pull

def tryPull (p : PullSupplier) : PullSupplier :=
  if p.peer = none then p
  else if p.queue = [] then p
  else p.extractFirst

end PullSupplier

/-! ## The channel -/

/-- A call of `Post`: the proxies that it has still to call. -/
structure Post where
  number : Nat
  pulls : List Nat
  /-- The proxy whose queue it has left and whose condition it has still to signal. -/
  signalling : Option Nat
  pushs : List Nat
  deriving DecidableEq

/-- What there was when a post was started: its supplier, the number of proxy pull suppliers, and
the proxy push suppliers that were connected, with their consumers. -/
structure Started where
  supplier : Nat
  pulls : Nat
  due : List (Nat × Nat)
  deriving DecidableEq

/-- A proxy with this peer was disconnected, and this consumer was told. -/
structure Disconnection where
  peer : Option Nat
  notified : Option Nat
  deriving DecidableEq

structure Channel where
  pushCount : Nat
  push : Nat → PushSupplier
  pullCount : Nat
  pull : Nat → PullSupplier
  posts : Nat → Option Post
  /-- Calls of `Disconnect_Pull_Supplier` that have left the mutex: the proxy and its old peer. -/
  disconnecting : List (Nat × Option Nat)
  started : List Started
  disconnected : List Disconnection

/-- The steps of the tasks.  A push raises an exception or not. -/
inductive Action where
  | obtainPushSupplier
  | obtainPullSupplier
  | connectPushConsumer (proxy : Nat) (consumer : Option Nat)
  | connectPullConsumer (proxy : Nat) (consumer : Option Nat)
  | disconnectPushSupplier (proxy : Nat)
  | disconnectPullSupplier (proxy : Nat)
  | broadcast (proxy : Nat) (peer : Option Nat)
  | post (supplier : Nat)
  | postPull (supplier : Nat)
  | signal (supplier : Nat)
  | postPush (supplier : Nat) (raises : Bool)
  | postEnd (supplier : Nat)
  | pull (proxy : Nat)
  | resume (proxy : Nat)
  | tryPull (proxy : Nat)
  deriving DecidableEq

namespace Channel

def initial : Channel where
  pushCount := 0
  push _ := {}
  pullCount := 0
  pull _ := {}
  posts _ := none
  disconnecting := []
  started := []
  disconnected := []

def setPush (ch : Channel) (proxy : Nat) (p : PushSupplier) : Channel :=
  { ch with push := Function.update ch.push proxy p }

def setPull (ch : Channel) (proxy : Nat) (p : PullSupplier) : Channel :=
  { ch with pull := Function.update ch.pull proxy p }

def setPost (ch : Channel) (supplier : Nat) (p : Option Post) : Channel :=
  { ch with posts := Function.update ch.posts supplier p }

def connected (ch : Channel) : List (Nat × Nat) :=
  (List.range ch.pushCount).filterMap fun i => (ch.push i).peer.map fun c => (i, c)

/-- `Post` of the consumer admin, up to `Leave`: the sequences of proxies are copied. -/
def beginPost (ch : Channel) (supplier : Nat) : Channel :=
  { ch with
    posts := Function.update ch.posts supplier
      (some ⟨ch.started.length, List.range ch.pullCount, none, List.range ch.pushCount⟩)
    started := ch.started ++ [⟨supplier, ch.pullCount, ch.connected⟩] }

/-- `Post` of a proxy push supplier, called by a post: an exception ends the post.  Pushing to a nil
reference raises. -/
def pushTo (ch : Channel) (supplier : Nat) (p : Post) (proxy : Nat) (rest : List Nat)
    (raises : Bool) : Channel :=
  match (ch.push proxy).peer with
  | none => ch.setPost supplier none
  | some consumer =>
    (ch.setPush proxy ((ch.push proxy).push p.number consumer)).setPost supplier
      (if raises = true then none else some { p with pushs := rest })

/-- Which steps can be taken. -/
def Enabled (ch : Channel) : Action → Prop
  | .obtainPushSupplier | .obtainPullSupplier => True
  | .connectPushConsumer i _ | .disconnectPushSupplier i => i < ch.pushCount
  | .connectPullConsumer j _ | .disconnectPullSupplier j | .pull j | .tryPull j => j < ch.pullCount
  | .broadcast j peer => (j, peer) ∈ ch.disconnecting
  | .post s => ch.posts s = none
  | .postPull s => ∃ p, ch.posts s = some p ∧ p.signalling = none ∧ p.pulls ≠ []
  | .signal s => ∃ p, ch.posts s = some p ∧ p.signalling ≠ none
  | .postPush s _ => ∃ p, ch.posts s = some p ∧ p.signalling = none ∧ p.pulls = [] ∧ p.pushs ≠ []
  | .postEnd s => ∃ p, ch.posts s = some p ∧ p.signalling = none ∧ p.pulls = [] ∧ p.pushs = []
  | .resume j => j < ch.pullCount ∧ 0 < (ch.pull j).woken

def next (ch : Channel) : Action → Channel
  | .obtainPushSupplier => { ch.setPush ch.pushCount {} with pushCount := ch.pushCount + 1 }
  | .obtainPullSupplier => { ch.setPull ch.pullCount {} with pullCount := ch.pullCount + 1 }
  | .connectPushConsumer i consumer =>
    match connectPeer (ch.push i).peer consumer with
    | none => ch
    | some peer => ch.setPush i { ch.push i with peer := peer }
  | .connectPullConsumer j consumer =>
    match connectPeer (ch.pull j).peer consumer with
    | none => ch
    | some peer => ch.setPull j { ch.pull j with peer := peer }
  | .disconnectPushSupplier i =>
    let peer := (ch.push i).peer
    { ch.setPush i { ch.push i with peer := none } with
      disconnected := ch.disconnected ++ [⟨peer, pushPeerToNotify peer⟩] }
  | .disconnectPullSupplier j =>
    { ch.setPull j { ch.pull j with peer := none } with
      disconnecting := (j, (ch.pull j).peer) :: ch.disconnecting }
  | .broadcast j peer =>
    { ch.setPull j (ch.pull j).broadcast with
      disconnecting := ch.disconnecting.erase (j, peer)
      disconnected := ch.disconnected ++ [⟨peer, pullPeerToNotify peer⟩] }
  | .post s => ch.beginPost s
  | .postPull s =>
    match ch.posts s with
    | some ⟨n, j :: pulls, _, pushs⟩ =>
      (ch.setPull j ((ch.pull j).post n)).setPost s (some ⟨n, pulls, some j, pushs⟩)
    | _ => ch
  | .signal s =>
    match ch.posts s with
    | some ⟨n, pulls, some j, pushs⟩ =>
      (ch.setPull j (ch.pull j).signal).setPost s (some ⟨n, pulls, none, pushs⟩)
    | _ => ch
  | .postPush s raises =>
    match ch.posts s with
    | some ⟨n, pulls, signalling, i :: pushs⟩ =>
      ch.pushTo s ⟨n, pulls, signalling, i :: pushs⟩ i pushs raises
    | _ => ch
  | .postEnd s => ch.setPost s none
  | .pull j => ch.setPull j (ch.pull j).pull
  | .resume j => ch.setPull j (ch.pull j).resume
  | .tryPull j => ch.setPull j (ch.pull j).tryPull

end Channel

end PolyORB.Events

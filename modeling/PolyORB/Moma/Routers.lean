import PolyORB.Naming.Names
import PolyORB.Lib.Flooding

/-!
# Routers

PolyORB.MOMA_P.Provider.Routers: the routers of a network, known by the numbers of their references,
and the requests that they send each other for one message.  `Floods` says what the routing of a
message has to do, and `SingleRoutes` in which networks it does.
-/

namespace PolyORB

open Flooding Relation

inductive DestinationType where
  | unknown
  | pool
  | router
  | topic
  deriving DecidableEq

structure Destination where
  name : Text
  ref : Nat
  kind : DestinationType
  deriving DecidableEq

/-- `topics` gives the subscribers of each topic. -/
structure Router where
  id : Text
  routers : List Destination
  topics : Text → List Destination

/-- A request "Route" for a message, or "Publish" when no router sent it. -/
structure RouteRequest where
  toRouter : Nat
  fromRouterId : Text
  deriving DecidableEq

inductive RouterFault where
  | programError
  deriving DecidableEq

abbrev RouterNetwork := Nat → Router

namespace RouterNetwork

/-! ## Registration -/

def createDestination (n : RouterNetwork) (self : Nat) : Destination := ⟨(n self).id, self, .router⟩

def addRouter (n : RouterNetwork) (self : Nat) (router : Destination) : RouterNetwork :=
  Function.update n self { n self with routers := (n self).routers ++ [router] }

/-- The router that gets the request "Register" answers with its own destination. -/
def register (n : RouterNetwork) (self routerRef : Nat) : RouterNetwork :=
  let result := n.createDestination routerRef
  (n.addRouter routerRef (n.createDestination self)).addRouter self result

/-- The network after some registrations, with `topics` as the subscriptions that were made. -/
def formed (id : Nat → Text) (topics : Nat → Text → List Destination)
    (registrations : List (Nat × Nat)) : RouterNetwork :=
  registrations.foldl (fun n r => n.register r.1 r.2) fun r => ⟨id r, [], topics r⟩

/-! ## Publication -/

def route (n : RouterNetwork) (self : Nat) (toRouter : Destination) : RouteRequest :=
  ⟨toRouter.ref, (n self).id⟩

/-- The requests for the other routers, and the pools in which the message is stored. -/
def publish (n : RouterNetwork) (self : Nat) (topic : Destination) (fromRouterId : Text) :
    Except RouterFault (List RouteRequest × List Nat) :=
  if topic.kind ≠ .topic then .error .programError
  else .ok (((n self).routers.filter fun d => d.name ≠ fromRouterId).map (n.route self),
    ((n self).topics topic.name).map Destination.ref)

/-- What a router does for a request; nothing, when it raises. -/
def relayed (n : RouterNetwork) (topic : Destination) (q : RouteRequest) : List RouteRequest :=
  match n.publish q.toRouter topic q.fromRouterId with
  | .ok (requests, _) => requests
  | .error _ => []

def stored (n : RouterNetwork) (topic : Destination) (q : RouteRequest) : List Nat :=
  match n.publish q.toRouter topic q.fromRouterId with
  | .ok (_, pools) => pools
  | .error _ => []

/-- One of the routers that have got a request does what it asks for. -/
abbrev RoutingStep (n : RouterNetwork) (topic : Destination) :
    Work RouteRequest Nat → Work RouteRequest Nat → Prop :=
  Step (n.relayed topic) (n.stored topic)

/-- A message published by a client: the default of From_Router_Id is empty. -/
def published (router : Nat) : RouteRequest := ⟨router, []⟩

/-! ## Flooding a network -/

def topicDestination (topic : Text) (ref : Nat) : Destination := ⟨topic, ref, .topic⟩

/-- Registered with each other, directly or through others. -/
def Connected (n : RouterNetwork) : Nat → Nat → Prop :=
  ReflTransGen fun a b => ∃ d ∈ (n a).routers, d.ref = b

/-- A router of the network that `router` belongs to has the subscription of the pool. -/
def Subscribed (n : RouterNetwork) (router : Nat) (topic : Text) (pool : Nat) : Prop :=
  ∃ r, n.Connected router r ∧ pool ∈ ((n r).topics topic).map Destination.ref

/-- The routing comes to its end whatever the order, and then the message is once in each pool that
is subscribed and in no other. -/
def Floods (n : RouterNetwork) (router ref : Nat) (topic : Text) : Prop :=
  Acc (fun t s => n.RoutingStep (topicDestination topic ref) s t) ⟨{published router}, 0⟩ ∧
    ∀ t, ReflTransGen (n.RoutingStep (topicDestination topic ref)) ⟨{published router}, 0⟩ t →
      t.pending = 0 → ∀ pool,
        (n.Subscribed router topic pool → t.done.count pool = 1) ∧
        (¬n.Subscribed router topic pool → t.done.count pool = 0)

/-- The requests that follow from one: to the routers that are registered, but those with the name
of the router that sent it. -/
def successors (n : RouterNetwork) (q : RouteRequest) : List RouteRequest :=
  ((n q.toRouter).routers.filter fun d => d.name ≠ q.fromRouterId).map (n.route q.toRouter)

/-- A way from router to router to a subscription, never back to the name of the router before. -/
abbrev Route (n : RouterNetwork) (topic : Text) (pool : Nat) : RouteRequest → Type :=
  Delivery n.successors (fun q => ((n q.toRouter).topics topic).map Destination.ref) pool

/-- No way leads in a circle, and only one to each pool that is subscribed. -/
structure SingleRoutes (n : RouterNetwork) (router : Nat) (topic : Text) : Prop where
  noCircle : ∀ q, Reaches n.successors (published router) q → ¬TransGen (Spawns n.successors) q q
  unique : ∀ pool, n.Subscribed router topic pool →
    ∃ d : n.Route topic pool (published router), ∀ d', d' = d

section Network

variable {n : RouterNetwork} {topic : Text} {ref : Nat}

theorem relayed_topic : n.relayed (topicDestination topic ref) = n.successors := by
  funext q
  rfl

theorem stored_topic : n.stored (topicDestination topic ref) =
    fun q => ((n q.toRouter).topics topic).map Destination.ref := by
  funext q
  rfl

/-! ## Networks that were formed -/

/-- Finitely many routers have others registered. -/
def Bounded (n : RouterNetwork) : Prop := {r | (n r).routers ≠ []}.Finite

theorem Bounded.addRouter (h : n.Bounded) (self : Nat) (d : Destination) :
    (n.addRouter self d).Bounded := by
  refine (h.insert self).subset fun r hr => ?_
  by_cases hs : r = self
  · exact .inl hs
  · rw [Set.mem_ofPred_eq, RouterNetwork.addRouter, Function.update_of_ne hs] at hr
    exact .inr hr

theorem Bounded.register (h : n.Bounded) (self routerRef : Nat) :
    (n.register self routerRef).Bounded := (h.addRouter _ _).addRouter _ _

theorem bounded_formed (id : Nat → Text) (topics : Nat → Text → List Destination)
    (registrations : List (Nat × Nat)) : (formed id topics registrations).Bounded := by
  have hrun : ∀ (rs : List (Nat × Nat)) (n : RouterNetwork), n.Bounded →
      (rs.foldl (fun n r => n.register r.1 r.2) n).Bounded := by
    intro rs
    induction rs with
    | nil => exact fun _ h => h
    | cons r rs ih => exact fun n h => ih _ (h.register r.1 r.2)
  exact hrun registrations _ (by simp [Bounded])

/-- What is requested of a router was requested by the message, or by one with a registration. -/
theorem finite_reaches (h : n.Bounded) (q : RouteRequest) :
    {q' | Reaches n.successors q q'}.Finite := by
  have hfin : (⋃ r ∈ {r | (n r).routers ≠ []},
      {q' | q' ∈ (n r).routers.map (n.route r)}).Finite :=
    h.biUnion fun r _ => List.finite_toSet _
  refine (hfin.insert q).subset fun q' hq' => ?_
  rcases ReflTransGen.cases_tail hq' with rfl | ⟨q₁, -, hq₁⟩
  · exact .inl rfl
  · refine .inr (Set.mem_biUnion (x := q₁.toRouter) ?_ ?_)
    · intro hnil
      simp [Spawns, successors, hnil] at hq₁
    · obtain ⟨d, hd, rfl⟩ := List.mem_map.1 hq₁
      exact List.mem_map_of_mem (List.mem_of_mem_filter hd)

/-! ## Routes -/

theorem subscribed_of_route {pool : Nat} {q : RouteRequest} (d : n.Route topic pool q) :
    n.Subscribed q.toRouter topic pool := by
  induction d with
  | here j h => exact ⟨_, .refl, h ▸ List.getElem_mem _⟩
  | @there q i d ih =>
    obtain ⟨r, hr, hpool⟩ := ih
    have hmem : (n.successors q)[i] ∈ n.successors q := List.getElem_mem _
    obtain ⟨d, hd, heq⟩ := List.mem_map.1 hmem
    refine ⟨r, .head ⟨d, List.mem_of_mem_filter hd, ?_⟩ hr, hpool⟩
    rw [← heq]
    rfl

theorem card_route_eq_one {pool : Nat} {q : RouteRequest} :
    Nat.card (n.Route topic pool q) = 1 ↔ ∃ d : n.Route topic pool q, ∀ d', d' = d := by
  rw [Nat.card_eq_one_iff_unique]
  constructor
  · rintro ⟨hsub, ⟨d⟩⟩
    exact ⟨d, fun d' => Subsingleton.elim d' d⟩
  · rintro ⟨d, hd⟩
    exact ⟨⟨fun a b => (hd a).trans (hd b).symm⟩, ⟨d⟩⟩

end Network

open Classical in
/-- A message is routed as it has to be exactly in the networks with single routes. -/
theorem formed_floods_iff (id : Nat → Text) (topics : Nat → Text → List Destination)
    (registrations : List (Nat × Nat)) (router ref : Nat) (topic : Text) :
    (formed id topics registrations).Floods router ref topic ↔
      (formed id topics registrations).SingleRoutes router topic := by
  generalize hn : formed id topics registrations = n
  have hfin : {q | Reaches n.successors (published router) q}.Finite :=
    finite_reaches (hn ▸ bounded_formed id topics registrations) _
  have hends := ends_with_iff n.successors
    (fun q => ((n q.toRouter).topics topic).map Destination.ref) (published router)
    fun pool => if n.Subscribed router topic pool then 1 else 0
  have hcount : ∀ (pool k : Nat), (k = if n.Subscribed router topic pool then 1 else 0) ↔
      (n.Subscribed router topic pool → k = 1) ∧ (¬n.Subscribed router topic pool → k = 0) := by
    intro pool k
    by_cases hs : n.Subscribed router topic pool <;> simp [hs]
  have hfloods : n.Floods router ref topic ↔ Acc (Spawns n.successors) (published router) ∧
      ∀ pool, Nat.card (n.Route topic pool (published router)) =
        if n.Subscribed router topic pool then 1 else 0 := by
    rw [← hends]
    simp only [Floods, RoutingStep, relayed_topic, stored_topic, hcount]
  rw [hfloods, acc_iff_of_finite hfin]
  constructor
  · rintro ⟨hcircle, hcard⟩
    refine ⟨hcircle, fun pool hs => card_route_eq_one.1 ?_⟩
    rw [hcard pool, if_pos hs]
  · rintro ⟨hcircle, hunique⟩
    refine ⟨hcircle, fun pool => ?_⟩
    by_cases hs : n.Subscribed router topic pool
    · rw [if_pos hs]
      exact card_route_eq_one.2 (hunique pool hs)
    · rw [if_neg hs]
      have : IsEmpty (n.Route topic pool (published router)) :=
        ⟨fun d => hs (subscribed_of_route d)⟩
      exact Nat.card_of_isEmpty

/-- Three routers, each registered with the two others. -/
theorem not_floods_triangle : ¬(formed (fun r => [97 + r.toUInt8]) (fun _ _ => [])
    [(0, 1), (1, 2), (2, 0)]).Floods 0 3 [116] := by
  rintro ⟨hacc, -⟩
  have hstart := acc_of_acc_step hacc (published 0) (Multiset.mem_singleton_self _)
  have h1 : Acc _ (⟨1, [97]⟩ : RouteRequest) := hstart.inv (by decide)
  exact not_self_of_acc h1.transGen
    (.head (b := ⟨0, [99]⟩) (by decide) (.head (b := ⟨2, [98]⟩) (by decide) (.single (by decide))))

end RouterNetwork

end PolyORB

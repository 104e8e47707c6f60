import PolyORB.Miop.RoundTrip

/-!
# Packets that are lost, repeated or reordered

Packets of several collections arrive in any order.  What should be handed to the session are the
messages all of whose packets arrive one after another.  Once a packet is out of place, though,
nothing is handed to it any more; and the number of the first packet of a collection is not checked.
-/

namespace PolyORB

namespace Miop

open Buffer

/-- A collection, with the byte order of its sender. -/
structure SentCollection extends Collection where
  order : Endianness
  deriving DecidableEq

abbrev Arrival := SentCollection × Nat

def Arrival.datagram (a : Arrival) : List UInt8 :=
  match a.1.packets[a.2]? with
  | some p => p.encode a.1.order
  | none => []

def block (c : SentCollection) : List Arrival := (List.range c.packets.length).map fun k => (c, k)

/-- The messages whose packets arrive one after another. -/
def completed : List Arrival → List (List UInt8)
  | [] => []
  | a :: as => (if block a.1 <+: a :: as then [a.1.message] else []) ++ completed as

/-- Where an arrival leads: no collection is in course, or one is, up to some packet, or a packet has
been out of place. -/
inductive Phase where
  | ready
  | amid (c : SentCollection) (k : Nat)
  | dead
  deriving DecidableEq

def advance (c : SentCollection) (k : Nat) : Phase :=
  if k + 1 = c.packets.length then .ready else .amid c k

def follow : Phase → Arrival → Phase
  | .ready, a => if a.2 = 0 then advance a.1 0 else .dead
  | .amid c k, a => if a = (c, k + 1) then advance c (k + 1) else .dead
  | .dead, _ => .dead

/-- Each packet is in its place. -/
def InOrder (as : List Arrival) : Prop := as.foldl follow .ready ≠ .dead

def run (host : Endianness) (bodySize : List UInt8 → Except Exn Nat) (s : Stack)
    (as : List Arrival) : Stack :=
  receiveDatagrams host bodySize s (as.map Arrival.datagram)

/-- The session is handed the messages that have arrived whole, and any other sequence of packets is
reported. -/
def Reassembles (host : Endianness) (bodySize : List UInt8 → Except Exn Nat) (as : List Arrival) :
    Prop :=
  (run host bodySize (start host) as).session.messages = completed as ∧
    (¬InOrder as → (run host bodySize (start host) as).error ≠ none)

/-- The payload of the packet is not what the session takes for the header of a message. -/
def Refused (bodySize : List UInt8 → Except Exn Nat) (a : Arrival) : Prop :=
  ∀ p ∈ a.1.packets[a.2]?, p.payload.length < giopHeaderSize ∨
    (bodySize (p.payload.take giopHeaderSize)).toOption = none

/-- While no collection is in course, packets that are not the first of their collection are
refused. -/
def FirstChecked (bodySize : List UInt8 → Except Exn Nat) : Phase → List Arrival → Prop
  | _, [] => True
  | ph, a :: as => (ph = .ready → a.2 = 0 ∨ Refused bodySize a) ∧
      FirstChecked bodySize (follow ph a) as

/-- From the first packet that is out of place on, no message arrives whole. -/
def NoneAfter : Phase → List Arrival → Prop
  | _, [] => True
  | ph, a :: as =>
    if follow ph a = .dead then completed (a :: as) = [] else NoneAfter (follow ph a) as

/-! ## Blocks -/

variable {bodySize : List UInt8 → Except Exn Nat} {c : SentCollection} {k : Nat} {a : Arrival}
  {as : List Arrival}

def blockFrom (c : SentCollection) (k : Nat) : List Arrival :=
  (List.range' k (c.packets.length - k)).map fun k => (c, k)

theorem block_eq (c : SentCollection) : block c = blockFrom c 0 := by
  rw [block, blockFrom, List.range_eq_range', Nat.sub_zero]

theorem blockFrom_cons (h : k < c.packets.length) :
    blockFrom c k = (c, k) :: blockFrom c (k + 1) := by
  obtain ⟨n, hn⟩ : ∃ n, c.packets.length - k = n + 1 := ⟨c.packets.length - k - 1, by omega⟩
  rw [blockFrom, hn, List.range'_succ, List.map_cons, blockFrom]
  congr 4
  omega

theorem blockFrom_last (h : k = c.packets.length) : blockFrom c k = [] := by
  rw [blockFrom, h, Nat.sub_self]
  rfl

/-- What is still to arrive of the collection that is in course. -/
def completedFrom : Phase → List Arrival → List (List UInt8)
  | .amid c k, as => (if blockFrom c (k + 1) <+: as then [c.message] else []) ++ completed as
  | _, as => completed as

/-- A phase in which another packet is to arrive. -/
def Open : Phase → Prop
  | .ready => True
  | .amid c k => k + 1 < c.packets.length
  | .dead => False

/-- The message that is complete with this packet. -/
def gained (ph : Phase) (a : Arrival) : List (List UInt8) :=
  if follow ph a = .ready then [a.1.message] else []

theorem advance_ne_dead : advance c k ≠ .dead := by
  unfold advance
  split_ifs <;> exact Phase.noConfusion

theorem completedFrom_advance :
    (if blockFrom c (k + 1) <+: as then [c.message] else []) ++ completed as =
      (if advance c k = .ready then [c.message] else []) ++ completedFrom (advance c k) as := by
  unfold advance
  by_cases hlast : k + 1 = c.packets.length
  · rw [if_pos hlast, blockFrom_last hlast, if_pos List.nil_prefix, if_pos rfl]
    rfl
  · rw [if_neg hlast, if_neg (fun h : Phase.amid c k = .ready => Phase.noConfusion h)]
    rfl

theorem completed_cons_succ (ha : a.2 < a.1.packets.length) (hne : a.2 ≠ 0) :
    completed (a :: as) = completed as := by
  rw [completed, block_eq, blockFrom_cons (by omega), if_neg, List.nil_append]
  rw [List.cons_prefix_cons]
  rintro ⟨heq, -⟩
  exact hne (congrArg Prod.snd heq).symm

theorem completedFrom_follow {ph : Phase} (hopen : Open ph) (ha : a.2 < a.1.packets.length)
    (hfollow : follow ph a ≠ .dead) :
    completedFrom ph (a :: as) = gained ph a ++ completedFrom (follow ph a) as := by
  cases ph with
  | dead => exact absurd hopen id
  | ready =>
    obtain ⟨c, k⟩ := a
    obtain rfl : k = 0 := by
      by_contra hne
      exact hfollow (if_neg hne)
    show completed ((c, 0) :: as) = _
    rw [gained, follow, if_pos rfl, ← completedFrom_advance, completed, block_eq, blockFrom_cons ha]
    simp
  | amid c k =>
    obtain rfl : a = (c, k + 1) := by
      by_contra hne
      exact hfollow (if_neg hne)
    rw [gained, follow, if_pos rfl, ← completedFrom_advance, completedFrom,
      completed_cons_succ ha (Nat.succ_ne_zero k), blockFrom_cons ha]
    simp

theorem completedFrom_dead {ph : Phase} (hopen : Open ph) (hfollow : follow ph a = .dead) :
    completedFrom ph (a :: as) = completed (a :: as) := by
  cases ph with
  | ready => rfl
  | dead => rfl
  | amid c k =>
    have hne : a ≠ (c, k + 1) := by
      intro heq
      rw [follow, if_pos heq] at hfollow
      exact advance_ne_dead hfollow
    have hprefix : ¬blockFrom c (k + 1) <+: a :: as := by
      rw [blockFrom_cons hopen]
      rintro ⟨rest, heq⟩
      injection heq with h
      exact hne h.symm
    rw [completedFrom, if_neg hprefix, List.nil_append]

theorem completedFrom_nil {ph : Phase} (hopen : Open ph) : completedFrom ph [] = [] := by
  cases ph with
  | ready => rfl
  | dead => rfl
  | amid c k =>
    rw [completedFrom, blockFrom_cons hopen]
    rfl

theorem gained_dead {ph : Phase} (hfollow : follow ph a = .dead) : gained ph a = [] := by
  rw [gained, hfollow]
  rfl

/-! ## One packet -/

variable {host : Endianness} {sent : List SentCollection} {messages : List (List UInt8)} {s : Stack}
  {ph : Phase}

/-- The stack is in the phase that the arrivals have led to. -/
def Matches (host : Endianness) (sent : List SentCollection) (messages : List (List UInt8)) :
    Phase → Stack → Prop
  | .ready, s => Fresh host messages s
  | .amid c k, s =>
    c ∈ sent ∧ k + 1 < c.packets.length ∧ c.toCollection.InCourse host k messages s
  | .dead, s => Failed messages s

structure Sendable (bodySize : List UInt8 → Except Exn Nat) (sent : List SentCollection) : Prop where
  valid : ∀ c ∈ sent, c.toCollection.Valid bodySize
  distinct : (sent.map fun c => c.uniqueId).Nodup

def Arrival.Of (sent : List SentCollection) (a : Arrival) : Prop :=
  a.1 ∈ sent ∧ a.2 < a.1.packets.length

theorem Arrival.datagram_eq {p : Packet} (hp : a.1.packets[a.2]? = some p) :
    a.datagram = p.encode a.1.order := by
  rw [datagram, hp]

theorem Matches.advance_zero {c : SentCollection} (hsent : c ∈ sent)
    (h : c.toCollection.Valid bodySize) (hpos : 0 < c.packets.length) (hs : Fresh host messages s) :
    Matches host sent (messages ++ if advance c 0 = .ready then [c.message] else []) (advance c 0)
      (receiveDatagram host bodySize s (Arrival.datagram (c, 0))) := by
  have hp : c.packets[0]? = some c.packets[0] := List.getElem?_eq_getElem hpos
  obtain ⟨hsingle, hfirst⟩ := h.receive_first c.order hs hp
  rw [Arrival.datagram_eq hp]
  by_cases hlast : 0 + 1 = c.packets.length
  · rw [advance, if_pos hlast, if_pos rfl]
    exact hsingle hlast.symm
  · rw [advance, if_neg hlast, if_neg (fun h : Phase.amid c 0 = .ready => Phase.noConfusion h),
      List.append_nil]
    exact ⟨hsent, by omega, hfirst (by omega)⟩

theorem Matches.advance_succ {c : SentCollection} (hsent : c ∈ sent)
    (h : c.toCollection.Valid bodySize) (hk : k + 1 < c.packets.length)
    (hs : c.toCollection.InCourse host k messages s) :
    Matches host sent (messages ++ if advance c (k + 1) = .ready then [c.message] else [])
      (advance c (k + 1)) (receiveDatagram host bodySize s (Arrival.datagram (c, k + 1))) := by
  have hp : c.packets[k + 1]? = some c.packets[k + 1] := List.getElem?_eq_getElem hk
  obtain ⟨hfinal, hmore⟩ := h.receive_next c.order hs hp
  rw [Arrival.datagram_eq hp]
  by_cases hlast : k + 1 + 1 = c.packets.length
  · rw [advance, if_pos hlast, if_pos rfl]
    exact hfinal hlast
  · rw [advance, if_neg hlast, if_neg (fun h : Phase.amid c (k + 1) = .ready => Phase.noConfusion h),
      List.append_nil]
    exact ⟨hsent, by omega, hmore (by omega)⟩

theorem Refused.receive (hrefused : Refused bodySize a) (h : a.1.toCollection.Valid bodySize)
    (ha : a.2 < a.1.packets.length) (hs : Fresh host messages s) :
    Failed messages (receiveDatagram host bodySize s a.datagram) := by
  have hp : a.1.packets[a.2]? = some a.1.packets[a.2] := List.getElem?_eq_getElem ha
  have hv := h.packet hp
  rw [Arrival.datagram_eq hp]
  by_cases hshort : a.1.packets[a.2].payload.length < giopHeaderSize
  · exact hs.receive_short a.1.order bodySize hv hshort
  · rcases hrefused _ hp with hlt | hnone
    · exact absurd hlt hshort
    · cases hsize : bodySize (a.1.packets[a.2].payload.take giopHeaderSize) with
      | ok n =>
        rw [hsize] at hnone
        cases hnone
      | error e =>
        exact hs.receive_refused a.1.order bodySize hv
          (List.take_append_drop giopHeaderSize _).symm
          (List.length_take_of_le (Nat.not_lt.mp hshort)) hsize

theorem Sendable.receive_wrong (hsendable : Sendable bodySize sent) (ha : a.Of sent)
    (hsent : c ∈ sent) (hk : k + 1 < c.packets.length)
    (hs : c.toCollection.InCourse host k messages s) (hne : a ≠ (c, k + 1)) :
    Failed messages (receiveDatagram host bodySize s a.datagram) := by
  obtain ⟨hmem, hlt⟩ := ha
  have h := hsendable.valid _ hmem
  have hp : a.1.packets[a.2]? = some a.1.packets[a.2] := List.getElem?_eq_getElem hlt
  obtain ⟨hnumber, -, hid, -⟩ := h.number hp
  rw [Arrival.datagram_eq hp]
  refine hs.receive_wrong a.1.order bodySize (h.packet hp) ?_
  rintro ⟨-, huid, -, hnext⟩
  have hc : a.1 = c :=
    List.inj_on_of_nodup_map hsendable.distinct hmem hsent (by
      rw [← hid, huid, hs.uniqueId])
  have hvalid := hsendable.valid c hsent
  have hkc : k < c.packets.length := by omega
  have hpc : c.packets[k]? = some c.packets[k] := List.getElem?_eq_getElem hkc
  have htotal := (hvalid.nth (by omega) hpc).total_le
  have hsize := hvalid.size
  have hnumber' : a.2 = k + 1 := by
    unfold unsignedShortModulus at hsize
    rw [hnumber, hs.packetNumber] at hnext
    unfold unsignedLongModulus at hnext
    omega
  exact hne (Prod.ext hc hnumber')

theorem Matches.step (hsendable : Sendable bodySize sent) (ha : a.Of sent)
    (hfirst : ph = .ready → a.2 = 0 ∨ Refused bodySize a) (hs : Matches host sent messages ph s) :
    Matches host sent (messages ++ gained ph a) (follow ph a)
      (receiveDatagram host bodySize s a.datagram) := by
  cases ph with
  | dead =>
    rw [gained_dead rfl, List.append_nil, hs.receive]
    exact hs
  | ready =>
    by_cases hz : a.2 = 0
    · obtain ⟨c, k⟩ := a
      obtain rfl : k = 0 := hz
      exact .advance_zero ha.1 (hsendable.valid _ ha.1) ha.2 hs
    · have hdead : follow .ready a = .dead := if_neg hz
      rw [gained_dead hdead, hdead, List.append_nil]
      exact ((hfirst rfl).resolve_left hz).receive (hsendable.valid _ ha.1) ha.2 hs
  | amid c k =>
    obtain ⟨hsent, hk, hin⟩ := hs
    by_cases hnext : a = (c, k + 1)
    · subst hnext
      rw [gained, follow, if_pos rfl]
      exact .advance_succ hsent (hsendable.valid _ hsent) hk hin
    · have hdead : follow (.amid c k) a = .dead := if_neg hnext
      rw [gained_dead hdead, hdead, List.append_nil]
      exact hsendable.receive_wrong ha hsent hk hin hnext

/-! ## All packets -/

theorem Failed.run (hs : Failed messages s) (as : List Arrival) :
    Failed messages (run host bodySize s as) := by
  induction as with
  | nil => exact hs
  | cons a as ih =>
    show Failed messages (Miop.run host bodySize (receiveDatagram host bodySize s a.datagram) as)
    rw [hs.receive]
    exact ih

theorem Matches.messages_eq (hs : Matches host sent messages ph s) :
    s.session.messages = messages := by
  cases ph with
  | ready => exact congrArg Session.messages hs.session
  | amid c k => exact hs.2.2.messages
  | dead => exact Failed.messages hs

theorem Matches.isOpen (hs : Matches host sent messages ph s) (hne : ph ≠ .dead) : Open ph := by
  cases ph with
  | ready => trivial
  | amid c k => exact hs.2.1
  | dead => exact absurd rfl hne

theorem Matches.run (hsendable : Sendable bodySize sent) (hof : ∀ a ∈ as, a.Of sent)
    (hfirst : FirstChecked bodySize ph as) (hne : ph ≠ .dead)
    (hs : Matches host sent messages ph s) :
    ((run host bodySize s as).session.messages = messages ++ completedFrom ph as ↔
        NoneAfter ph as) ∧
      (as.foldl follow ph = .dead → (run host bodySize s as).error ≠ none) := by
  induction as generalizing ph messages s with
  | nil =>
    rw [completedFrom_nil (hs.isOpen hne), List.append_nil]
    exact ⟨iff_of_true hs.messages_eq trivial, fun hdead => absurd hdead hne⟩
  | cons a as ih =>
    have hstep := hs.step hsendable (hof a List.mem_cons_self) hfirst.1
    have hopen := hs.isOpen hne
    by_cases hdead : follow ph a = .dead
    · rw [gained_dead hdead, hdead, List.append_nil] at hstep
      have hfailed : Failed messages (Miop.run host bodySize s (a :: as)) :=
        Failed.run hstep as
      rw [hfailed.messages, completedFrom_dead hopen hdead, NoneAfter, if_pos hdead]
      exact ⟨List.self_eq_append_right, fun _ => hfailed.error⟩
    · rw [completedFrom_follow hopen (hof a List.mem_cons_self).2 hdead, NoneAfter, if_neg hdead,
        ← List.append_assoc]
      exact ih (fun b hb => hof b (List.mem_cons_of_mem a hb)) hfirst.2 hdead hstep

/-- While first packets are checked, the messages that arrive whole are handed to the session unless
one of them arrives after a packet that is out of place. -/
theorem reassembles_iff (host : Endianness) (hsendable : Sendable bodySize sent)
    (hof : ∀ a ∈ as, a.Of sent) (hfirst : FirstChecked bodySize .ready as) :
    Reassembles host bodySize as ↔ NoneAfter .ready as := by
  have hs : Matches host sent [] .ready (start host) := fresh_start host
  obtain ⟨hmessages, herror⟩ := hs.run hsendable hof hfirst Phase.noConfusion
  rw [← hmessages]
  exact and_iff_left fun hdead => herror (not_not.mp hdead)

/-- Two packets, whose message has another one for a body. -/
def nested : SentCollection :=
  { maxSize := 36, uniqueId := [80], order := .bigEndian
    message := [71, 73, 79, 80, 1, 2, 0, 0, 0, 0, 0, 12, 71, 73, 79, 80, 1, 2, 0, 0, 0, 0, 0, 0] }

theorem sendable_nested : Sendable (giopBodySize .bigEndian) [nested] where
  valid := by
    intro c hc
    obtain rfl := List.mem_singleton.mp hc
    exact ⟨⟨by decide, by decide +kernel⟩, by decide, by decide, by decide⟩
  distinct := List.nodup_singleton _

theorem reassembles_nested :
    Reassembles .bigEndian (giopBodySize .bigEndian) [(nested, 0), (nested, 1)] ↔
      NoneAfter .ready [(nested, 0), (nested, 1)] :=
  reassembles_iff .bigEndian sendable_nested
    (by
      intro a ha
      rw [List.mem_cons, List.mem_singleton] at ha
      rcases ha with rfl | rfl
      · exact ⟨List.mem_singleton_self _, by decide⟩
      · exact ⟨List.mem_singleton_self _, by decide⟩)
    ⟨fun _ => .inl rfl, fun h => Phase.noConfusion h, trivial⟩

/-- The second packet alone is taken for a message. -/
theorem not_reassembles :
    ¬∀ (host : Endianness) (bodySize : List UInt8 → Except Exn Nat) (sent : List SentCollection)
      (as : List Arrival), Sendable bodySize sent → (∀ a ∈ as, a.Of sent) →
      Reassembles host bodySize as := by
  intro h
  have hof : ∀ a ∈ [(nested, 1)], Arrival.Of [nested] a := by
    intro a ha
    obtain rfl := List.mem_singleton.mp ha
    exact ⟨List.mem_singleton_self _, by decide⟩
  have hmessages := (h .bigEndian (giopBodySize .bigEndian) _ _ sendable_nested hof).1
  exact absurd hmessages (by decide +kernel)

end Miop

end PolyORB

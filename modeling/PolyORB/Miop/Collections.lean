import PolyORB.Miop.Receiving

/-!
# Collections

All packets of a message, from the buffer that is sent to the message that the session receives.
-/

namespace PolyORB

namespace Miop

open Buffer

/-- The session takes the size of the body of the message to be what it is. -/
structure WellFormed (bodySize : List UInt8 → Except Exn Nat) (message : List UInt8) : Prop where
  long : giopHeaderSize ≤ message.length
  size : bodySize (message.take giopHeaderSize) = .ok (message.length - giopHeaderSize)

/-- A message that is sent, its unique id, and the size that a packet may have. -/
structure Collection where
  maxSize : Nat
  uniqueId : List UInt8
  message : List UInt8
  deriving DecidableEq

namespace Collection

def room (c : Collection) : Nat := c.maxSize - headerSize c.uniqueId

def packets (c : Collection) : List Packet := packetsOf c.maxSize c.uniqueId c.message

/-- The collection is not the one for which the sizes wrap. -/
structure Valid (bodySize : List UInt8 → Except Exn Nat) (c : Collection) : Prop where
  wellFormed : WellFormed bodySize c.message
  maxSize : c.maxSize < unsignedShortModulus
  room : headerSize c.uniqueId + giopHeaderSize ≤ c.maxSize
  size : headerSize c.uniqueId + c.message.length < unsignedShortModulus

variable {bodySize : List UInt8 → Except Exn Nat} {c : Collection} {k : Nat} {p : Packet}

theorem packets_eq (h : c.maxSize < headerSize c.uniqueId + c.message.length) :
    c.packets = (List.range (packetTotal c.room c.message)).map fun j =>
      ⟨true, j, packetTotal c.room c.message, c.uniqueId, part c.room c.message j⟩ := by
  rw [packets, packetsOf, if_neg (Nat.not_le.mpr h)]
  rfl

theorem packets_single (h : headerSize c.uniqueId + c.message.length ≤ c.maxSize) :
    c.packets = [⟨false, 0, 1, c.uniqueId, c.message⟩] := by
  rw [packets, packetsOf, if_pos h]

theorem Valid.room_ge (h : c.Valid bodySize) : giopHeaderSize ≤ c.room := by
  have := h.room
  unfold Collection.room
  omega

theorem Valid.room_pos (h : c.Valid bodySize) : 0 < c.room :=
  lt_of_lt_of_le (by decide) h.room_ge

theorem Valid.several_iff (h : c.Valid bodySize) :
    1 < c.packets.length ↔ c.maxSize < headerSize c.uniqueId + c.message.length := by
  constructor
  · intro hseveral
    by_contra hle
    rw [packets_single (Nat.not_lt.mp hle)] at hseveral
    exact absurd hseveral (lt_irrefl 1)
  · intro hlt
    have hle := le_packetTotal_mul h.room_pos c.message
    have hroom : c.room < c.message.length := by
      have := h.room
      unfold Collection.room
      omega
    rw [packets_eq hlt, List.length_map, List.length_range]
    by_contra hone
    have hmul := Nat.mul_le_mul_right c.room (Nat.not_lt.mp hone)
    omega

theorem Valid.packets_eq_single (h : c.Valid bodySize) (hone : ¬1 < c.packets.length) :
    c.packets = [⟨false, 0, 1, c.uniqueId, c.message⟩] :=
  packets_single (Nat.not_lt.mp fun hlt => hone (h.several_iff.mpr hlt))

/-- What packet number `k` of several is, and how much of the message it and those before it are. -/
structure Nth (c : Collection) (k : Nat) (p : Packet) : Prop where
  collectMode : p.collectMode = true
  packetNumber : p.packetNumber = k
  packetTotal : p.packetTotal = c.packets.length
  uniqueId : p.uniqueId = c.uniqueId
  payload : p.payload = part c.room c.message k
  lt : k * c.room < c.message.length
  full : k + 1 < c.packets.length → (k + 1) * c.room < c.message.length
  last : k + 1 = c.packets.length → c.message.length ≤ (k + 1) * c.room
  number_lt : k < c.packets.length
  total_le : c.packets.length ≤ c.message.length

theorem Valid.nth (h : c.Valid bodySize) (hseveral : 1 < c.packets.length)
    (hp : c.packets[k]? = some p) : c.Nth k p := by
  have hlt := h.several_iff.mp hseveral
  have hroom := h.room_pos
  have hlength : c.packets.length = packetTotal c.room c.message := by
    rw [packets_eq hlt, List.length_map, List.length_range]
  have hle := le_packetTotal_mul hroom c.message
  have hpos : 0 < c.message.length := lt_of_lt_of_le (by decide) h.wellFormed.long
  rw [packets_eq hlt, List.getElem?_map] at hp
  obtain ⟨j, hj, rfl⟩ := Option.map_eq_some_iff.mp hp
  obtain ⟨hj', rfl⟩ := List.getElem?_eq_some_iff.mp hj
  rw [List.length_range] at hj'
  rw [List.getElem_range]
  refine ⟨rfl, rfl, hlength.symm, rfl, rfl, lt_of_lt_packetTotal hroom hj', fun hk => ?_,
    fun hk => ?_, ?_, ?_⟩
  · exact lt_of_lt_packetTotal hroom (by omega)
  · rw [hk, hlength]
    exact hle
  · rw [hlength]
    exact hj'
  · rw [hlength]
    exact (packetTotal_bounds hroom hpos).2

theorem Nth.length_payload (h : c.Nth k p) :
    p.payload.length = min c.room (c.message.length - k * c.room) := by
  rw [h.payload, part, List.length_take, List.length_drop]

theorem Valid.packet (h : c.Valid bodySize) (hp : c.packets[k]? = some p) : p.Valid := by
  have hroom := h.room_pos
  have hsize := h.size
  have hmax := h.maxSize
  have hlong := h.wellFormed.long
  by_cases hseveral : 1 < c.packets.length
  · have hn := h.nth hseveral hp
    have hlen := hn.length_payload
    have hlt := hn.lt
    have hk := hn.number_lt
    have htotal := hn.total_le
    unfold unsignedShortModulus at hsize hmax
    refine ⟨?_, ?_, ?_, ?_⟩
    · rw [Packet.size, hn.uniqueId, hlen]
      unfold unsignedShortModulus
      omega
    · rw [hn.packetNumber]
      unfold unsignedLongModulus
      omega
    · rw [hn.packetTotal]
      unfold unsignedLongModulus
      omega
    · intro hnil
      rw [hnil, List.length_nil] at hlen
      omega
  · rw [h.packets_eq_single hseveral] at hp
    obtain ⟨hk, rfl⟩ := List.getElem?_eq_some_iff.mp hp
    obtain rfl : k = 0 := Nat.lt_one_iff.mp hk
    exact ⟨hsize, (by decide : 0 < unsignedLongModulus), (by decide : 1 < unsignedLongModulus), fun hnil => by
      rw [show c.message = [] from hnil] at hlong
      cases hlong⟩

/-! ## The stack -/

/-- Packets up to number `k` have come, and no other ones. -/
def InCourse (host : Endianness) (c : Collection) (k : Nat) (messages : List (List UInt8))
    (s : Stack) : Prop :=
  Amid host c.uniqueId c.packets.length k (c.message.take giopHeaderSize)
    ((c.message.take ((k + 1) * c.room)).drop giopHeaderSize)
    (c.message.length - (k + 1) * c.room) messages s

variable {host : Endianness} (order : Endianness) {messages : List (List UInt8)} {s : Stack}

theorem Valid.receive_first (h : c.Valid bodySize) (hs : Fresh host messages s)
    (hp : c.packets[0]? = some p) :
    (c.packets.length = 1 →
        Fresh host (messages ++ [c.message]) (receiveDatagram host bodySize s (p.encode order))) ∧
      (1 < c.packets.length →
        InCourse host c 0 messages (receiveDatagram host bodySize s (p.encode order))) := by
  have hv := h.packet hp
  have hlong := h.wellFormed.long
  have hsize := h.wellFormed.size
  have htake : (c.message.take giopHeaderSize).length = giopHeaderSize :=
    List.length_take_of_le hlong
  constructor
  · intro hone
    rw [h.packets_eq_single (by omega)] at hp
    obtain ⟨hk, rfl⟩ := List.getElem?_eq_some_iff.mp hp
    by_cases hbody : c.message.length = giopHeaderSize
    · rw [hbody, Nat.sub_self] at hsize
      have hall : c.message.take giopHeaderSize = c.message :=
        List.take_of_length_le (le_of_eq hbody)
      rw [hall] at hsize
      exact hs.receive_noBody order bodySize hv rfl hbody hsize
    · have hmore : c.message.drop giopHeaderSize ≠ [] := by
        intro hnil
        have := congrArg List.length hnil
        rw [List.length_drop, List.length_nil] at this
        omega
      have hfresh := hs.receive_single order bodySize hv
        (List.take_append_drop giopHeaderSize c.message).symm htake
        (by rw [hsize, List.length_drop]) hmore
      rw [List.take_append_drop] at hfresh
      exact hfresh
  · intro hseveral
    have hn := h.nth hseveral hp
    have hroom := h.room_ge
    have hfull := hn.full hseveral
    have hpayload : p.payload = c.message.take giopHeaderSize ++
        (c.message.take c.room).drop giopHeaderSize := by
      have hhead : c.message.take giopHeaderSize = (c.message.take c.room).take giopHeaderSize := by
        rw [List.take_take, Nat.min_eq_left hroom]
      rw [hn.payload, part, Nat.zero_mul, List.drop_zero, hhead, List.take_append_drop]
    have hmore : ((c.message.take c.room).drop giopHeaderSize).length = c.room - giopHeaderSize := by
      rw [List.length_drop, List.length_take]
      omega
    have hamid := hs.receive_first order bodySize hv hpayload htake hsize (by omega) hn.collectMode
    rw [hn.uniqueId, hn.packetTotal, hn.packetNumber, hmore] at hamid
    unfold InCourse
    rw [Nat.zero_add, Nat.one_mul]
    convert hamid using 1
    omega

theorem Valid.receive_next (h : c.Valid bodySize) (hs : InCourse host c k messages s)
    (hp : c.packets[k + 1]? = some p) :
    (k + 2 = c.packets.length →
        Fresh host (messages ++ [c.message]) (receiveDatagram host bodySize s (p.encode order))) ∧
      (k + 2 < c.packets.length →
        InCourse host c (k + 1) messages (receiveDatagram host bodySize s (p.encode order))) := by
  have hv := h.packet hp
  have hseveral : 1 < c.packets.length := by
    have hlt := (List.getElem?_eq_some_iff.mp hp).choose
    omega
  have hn := h.nth hseveral hp
  have hlen := hn.length_payload
  have hlt := hn.lt
  have hk := hn.number_lt
  have htotal := hn.total_le
  have hsize := h.size
  have hroom := h.room_ge
  have hone : c.room ≤ (k + 1) * c.room := Nat.le_mul_of_pos_left _ (Nat.succ_pos k)
  have hnext : (k + 2) * c.room = (k + 1) * c.room + c.room := by rw [Nat.succ_mul]
  have hnumber : (k + 1) % unsignedLongModulus = k + 1 := by
    unfold unsignedShortModulus at hsize
    unfold unsignedLongModulus
    omega
  have hnumber' : (k + 2) % unsignedLongModulus = k + 2 := by
    unfold unsignedShortModulus at hsize
    unfold unsignedLongModulus
    omega
  have hc : Continues p s.miopIn.oldHeader := by
    refine ⟨hn.collectMode, ?_, ?_, ?_⟩
    · rw [hn.uniqueId, hs.uniqueId]
    · rw [hn.packetTotal, hs.packetTotal]
    · rw [hn.packetNumber, hs.packetNumber, hnumber]
  -- what has come, with this packet
  have hgot : (c.message.take ((k + 1) * c.room)).drop giopHeaderSize ++ p.payload =
      (c.message.take ((k + 2) * c.room)).drop giopHeaderSize := by
    rw [hn.payload, part, hnext, List.take_add, List.drop_append_of_le_length]
    rw [List.length_take]
    omega
  constructor
  · intro hlast
    have hall : c.message.length ≤ (k + 2) * c.room := hn.last hlast
    have hfresh := hs.receive_last order bodySize hv hc (by
      rw [hn.packetNumber, hn.packetTotal, hnumber', hlast]) (by
      omega)
    rw [hgot, List.take_of_length_le hall, List.take_append_drop] at hfresh
    exact hfresh
  · intro hmore
    have hfull : (k + 2) * c.room < c.message.length := hn.full hmore
    have hroomlen : p.payload.length = c.room := by
      omega
    have hamid := hs.receive_more order bodySize hv hc (by
      rw [hn.packetNumber, hn.packetTotal, hnumber']
      omega) (by
      omega)
    rw [hgot, hn.uniqueId, hn.packetTotal, hn.packetNumber, hroomlen, Nat.sub_sub, ← hnext] at hamid
    exact hamid

theorem Valid.receive_upTo (h : c.Valid bodySize) (hs : Fresh host messages s)
    (hseveral : 1 < c.packets.length) (k : Nat) (hk : k + 1 < c.packets.length) :
    InCourse host c k messages (receiveDatagrams host bodySize s
      ((c.packets.take (k + 1)).map (Packet.encode order))) := by
  induction k with
  | zero =>
    have hp : c.packets[0]? = some c.packets[0] := List.getElem?_eq_getElem _
    rw [List.take_one, List.head?_eq_getElem?, hp]
    exact (h.receive_first order hs hp).2 hseveral
  | succ k ih =>
    have hlt : k + 1 < c.packets.length := by omega
    have hp : c.packets[k + 1]? = some c.packets[k + 1] := List.getElem?_eq_getElem hlt
    rw [List.take_add_one, hp, List.map_append, receiveDatagrams, List.foldl_append]
    exact (h.receive_next order (ih (by omega)) hp).2 hk

theorem Valid.receive_all (h : c.Valid bodySize) (hs : Fresh host messages s) :
    Fresh host (messages ++ [c.message])
      (receiveDatagrams host bodySize s (c.packets.map (Packet.encode order))) := by
  by_cases hseveral : 1 < c.packets.length
  · obtain ⟨k, hk⟩ : ∃ k, c.packets.length = k + 2 := ⟨c.packets.length - 2, by omega⟩
    obtain ⟨p, hp⟩ : ∃ p, c.packets[k + 1]? = some p :=
      ⟨_, List.getElem?_eq_getElem (by omega : k + 1 < c.packets.length)⟩
    have hin := h.receive_upTo order hs hseveral k (by omega)
    have hsplit : c.packets = c.packets.take (k + 1) ++ [p] := by
      calc c.packets = c.packets.take (k + 1 + 1) :=
            (List.take_of_length_le (le_of_eq hk)).symm
        _ = c.packets.take (k + 1) ++ [p] := by rw [List.take_add_one, hp]; rfl
    rw [hsplit, List.map_append, receiveDatagrams, List.foldl_append]
    exact (h.receive_next order hin hp).1 hk.symm
  · have heq := h.packets_eq_single hseveral
    have hp : c.packets[0]? = some ⟨false, 0, 1, c.uniqueId, c.message⟩ := by rw [heq]; rfl
    have hone : c.packets.length = 1 := by rw [heq]; rfl
    rw [heq]
    exact (h.receive_first order hs hp).1 hone

end Collection

end Miop

end PolyORB

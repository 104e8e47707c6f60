import PolyORB.Naming.Contexts

/-!
# Naming contexts as finite maps

What the contexts of a process are for: each is a map from names of one component, of which it
remembers the order of the bindings.  `Represents s m L` relates the contexts of `s` to the maps `m`, where
`L` has the nodes of the list of each context.
-/

namespace PolyORB

structure Binding where
  bn : NameComponent
  bt : BindingType
  obj : ObjectRef
  deriving DecidableEq

/-- The bindings of a context, in the order in which they were made. -/
abbrev Directory := List Binding

namespace Directory

def find (d : Directory) (c : NameComponent) : Option Binding := d.find? fun b => b.bn = c

def without (d : Directory) (c : NameComponent) : Directory := d.filter fun b => b.bn ≠ c

end Directory

namespace Directories

/-- As many contexts as there are keys, but for the last one. -/
def maxContexts : Nat := 26 ^ NamingState.keySize - 1

def directory (m : List Directory) (i : Nat) : Directory := m.getD i []

def resolve (m : List Directory) (i : Nat) (c : NameComponent) : Except NamingException ObjectRef :=
  match (directory m i).find c with
  | none => .error (.notFound .missingNode [])
  | some b => .ok b.obj

def bind (m : List Directory) (i : Nat) (c : NameComponent) (bt : BindingType) (obj : ObjectRef) :
    List Directory × NamingReply :=
  match (directory m i).find c with
  | some _ => (m, .error .alreadyBound)
  | none => (m.set i (directory m i ++ [⟨c, bt, obj⟩]), .ok none)

def rebind (m : List Directory) (i : Nat) (c : NameComponent) (bt : BindingType) (obj : ObjectRef) :
    List Directory × NamingReply :=
  match (directory m i).find c with
  | none => (m, .error (.notFound .missingNode []))
  | some b =>
    if b.bt = bt then (m.set i ((directory m i).without c ++ [⟨c, bt, obj⟩]), .ok none)
    else (m, .error (.notFound (NamingState.otherType bt) []))

def unbind (m : List Directory) (i : Nat) (c : NameComponent) : List Directory × NamingReply :=
  match (directory m i).find c with
  | none => (m, .error (.notFound .missingNode []))
  | some _ => (m.set i ((directory m i).without c), .ok none)

def newContext (m : List Directory) : Option (List Directory) :=
  if m.length < maxContexts then some (m ++ [[]]) else none

def operations : ContextOperations (List Directory) :=
  { size := List.length
    resolve := resolve
    bind := bind
    rebind := rebind
    unbind := unbind
    newContext := newContext }

end Directories

/-! ## One map -/

namespace Directory

variable {d : Directory} {b : Binding} {c : NameComponent}

theorem find_eq_none : d.find c = none ↔ ∀ b ∈ d, b.bn ≠ c := by
  rw [find, List.find?_eq_none]
  simp

theorem find_middle {l r : Directory} (hl : ∀ b' ∈ l, b'.bn ≠ b.bn) :
    find (l ++ b :: r) b.bn = some b := by
  rw [find, List.find?_append, show l.find? (fun b' => b'.bn = b.bn) = none from find_eq_none.mpr hl,
    Option.none_or]
  exact List.find?_cons_of_pos (decide_eq_true rfl)

theorem without_middle {l r : Directory} (hl : ∀ b' ∈ l, b'.bn ≠ b.bn)
    (hr : ∀ b' ∈ r, b'.bn ≠ b.bn) : without (l ++ b :: r) b.bn = l ++ r := by
  have hid : ∀ k : Directory, (∀ b' ∈ k, b'.bn ≠ b.bn) → k.without b.bn = k :=
    fun k hk => List.filter_eq_self.mpr fun b' hb' => decide_eq_true (hk b' hb')
  rw [without, List.filter_append, List.filter_cons_of_neg (by simp)]
  exact congrArg₂ (· ++ ·) (hid l hl) (hid r hr)

end Directory

/-! ## The laws of the maps -/

namespace Directories

theorem getD_set_self {α : Type} {l : List α} {i : Nat} (hi : i < l.length) (x d : α) :
    (l.set i x).getD i d = x := by
  rw [List.getD_eq_getElem?_getD, List.getElem?_set_self hi, Option.getD_some]

theorem getD_set_ne {α : Type} (l : List α) {i j : Nat} (hij : i ≠ j) (x d : α) :
    (l.set i x).getD j d = l.getD j d := by
  rw [List.getD_eq_getElem?_getD, List.getD_eq_getElem?_getD, List.getElem?_set_ne hij]

theorem getD_append_of_lt {α : Type} {l : List α} {i : Nat} (hi : i < l.length) (x d : α) :
    (l ++ [x]).getD i d = l.getD i d := by
  rw [List.getD_eq_getElem?_getD, List.getD_eq_getElem?_getD, List.getElem?_append_left hi]

theorem getD_append_length {α : Type} (l : List α) (x d : α) : (l ++ [x]).getD l.length d = x := by
  rw [List.getD_eq_getElem?_getD, List.getElem?_concat_length, Option.getD_some]

theorem getD_append_default {α : Type} (l : List α) (i : Nat) (d : α) :
    (l ++ [d]).getD i d = l.getD i d := by
  by_cases hi : i < l.length
  · exact getD_append_of_lt hi d d
  · have hi := Nat.le_of_not_lt hi
    rw [List.getD_eq_getElem?_getD, List.getD_eq_getElem?_getD, List.getElem?_append_right hi,
      List.getElem?_eq_none hi]
    cases i - l.length <;> rfl

theorem directory_set_self {m : List Directory} {i : Nat} (hi : i < m.length) (d : Directory) :
    directory (m.set i d) i = d := getD_set_self hi d []

theorem directory_set_ne (m : List Directory) {i j : Nat} (hij : i ≠ j) (d : Directory) :
    directory (m.set i d) j = directory m j := getD_set_ne m hij d []

end Directories

/-! ## Keys -/

open Character

def keyValue : Text → Nat
  | [] => 0
  | c :: cs => (c.toNat - upperA.toNat) * 26 ^ cs.length + keyValue cs

def Letters (k : Text) : Prop := ∀ c ∈ k, upperA ≤ c ∧ c ≤ upperZ

theorem keyValue_replicate (n : Nat) : keyValue (List.replicate n upperA) = 0 := by
  induction n with
  | zero => rfl
  | succ n ih =>
    show (upperA.toNat - upperA.toNat) * _ + keyValue (List.replicate n upperA) = 0
    rw [ih, Nat.sub_self, Nat.zero_mul]

theorem letters_replicate (n : Nat) : Letters (List.replicate n upperA) := by
  intro c hc
  obtain rfl := List.eq_of_mem_replicate hc
  decide

theorem keyValue_lt {k : Text} (hk : Letters k) : keyValue k < 26 ^ k.length := by
  induction k with
  | nil => exact Nat.one_pos
  | cons c cs ih =>
    have ih := ih fun d hd => hk d (List.mem_cons_of_mem _ hd)
    have hc : c.toNat ≤ 90 := (hk c List.mem_cons_self).2
    have hle : c.toNat - upperA.toNat ≤ 25 := Nat.sub_le_of_le_add hc
    calc (c.toNat - upperA.toNat) * 26 ^ cs.length + keyValue cs
        < 25 * 26 ^ cs.length + 26 ^ cs.length := add_lt_add_of_le_of_lt (Nat.mul_le_mul_right _ hle) ih
      _ = 26 ^ (cs.length + 1) := by ring

theorem letter_succ {c : UInt8} (hc : upperA ≤ c ∧ c ≤ upperZ) (hz : c ≠ upperZ) :
    upperA ≤ c + 1 ∧ c + 1 ≤ upperZ ∧ (c + 1).toNat = c.toNat + 1 := by
  have hne : c.toNat ≠ 90 := fun h => hz (UInt8.toNat_inj.mp h)
  have hlo : 65 ≤ c.toNat := hc.1
  have hhi : c.toNat ≤ 90 := hc.2
  have hval : (c + 1).toNat = c.toNat + 1 := by
    exact Nat.mod_eq_of_lt (show c.toNat + 1 < 256 by omega)
  refine ⟨?_, ?_, hval⟩
  · show 65 ≤ (c + 1).toNat
    omega
  · show (c + 1).toNat ≤ 90
    omega

theorem nextKey_spec {k : Text} (hk : Letters k) :
    match nextKey k with
    | none => keyValue k + 1 = 26 ^ k.length
    | some k' => k'.length = k.length ∧ Letters k' ∧ keyValue k' = keyValue k + 1 := by
  induction k with
  | nil => rfl
  | cons c cs ih =>
    have ih := ih fun d hd => hk d (List.mem_cons_of_mem _ hd)
    have hc := hk c List.mem_cons_self
    rw [nextKey]
    cases hn : nextKey cs with
    | some cs' =>
      rw [hn] at ih
      obtain ⟨hlen, hlet, hval⟩ := ih
      refine ⟨congrArg (· + 1) hlen, ?_, ?_⟩
      · intro d hd
        rcases List.mem_cons.mp hd with rfl | hd
        · exact hc
        · exact hlet d hd
      · show _ * 26 ^ cs'.length + keyValue cs' = _ * 26 ^ cs.length + keyValue cs + 1
        rw [hlen, hval, Nat.add_assoc]
    | none =>
      rw [hn] at ih
      split_ifs with hz
      · show _ * 26 ^ cs.length + keyValue cs + 1 = 26 ^ (cs.length + 1)
        rw [Nat.add_assoc, ih, hz, pow_succ]
        show 25 * _ + _ = _
        omega
      · have hsucc := letter_succ hc hz
        refine ⟨congrArg (· + 1) List.length_replicate, ?_, ?_⟩
        · intro d hd
          rcases List.mem_cons.mp hd with rfl | hd
          · exact ⟨hsucc.1, hsucc.2.1⟩
          · exact letters_replicate _ d hd
        · show _ * 26 ^ (List.replicate cs.length upperA).length + keyValue (List.replicate _ _) =
            _ * 26 ^ cs.length + keyValue cs + 1
          have hle : upperA.toNat ≤ c.toNat := hc.1
          rw [keyValue_replicate, List.length_replicate, Nat.add_assoc, ih, hsucc.2.2,
            Nat.sub_add_comm hle, Nat.succ_mul]
          rfl

end PolyORB

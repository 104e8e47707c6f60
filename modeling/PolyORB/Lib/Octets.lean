import Mathlib.Tactic

/-!
# Octets: naturals in positional notation, padding to an alignment

`toOctets n v` is the representation of `v` on `n` octets, least significant first, and `ofOctets`
reads such a list back.  `padding pos a` is the number of octets from `pos` to the next multiple
of `a`.
-/

namespace Octets

/-- `v` on `n` octets, least significant octet first. -/
def toOctets : Nat → Nat → List UInt8
  | 0, _ => []
  | n + 1, v => UInt8.ofNat (v % 256) :: toOctets n (v / 256)

/-- The natural number whose octets, least significant first, are given. -/
def ofOctets : List UInt8 → Nat
  | [] => 0
  | b :: bs => b.toNat + 256 * ofOctets bs

@[simp] theorem length_toOctets (n v : Nat) : (toOctets n v).length = n := by
  induction n generalizing v with
  | zero => rfl
  | succ n ih => simp [toOctets, ih]

theorem ofOctets_lt (bs : List UInt8) : ofOctets bs < 256 ^ bs.length := by
  induction bs with
  | nil => simp [ofOctets]
  | cons b bs ih =>
    have hb : b.toNat < 256 := b.toNat_lt
    simp only [ofOctets, List.length_cons, pow_succ]
    omega

theorem ofOctets_toOctets_mod (n v : Nat) : ofOctets (toOctets n v) = v % 256 ^ n := by
  induction n generalizing v with
  | zero => simp [toOctets, ofOctets, Nat.mod_one]
  | succ n ih =>
    have h : (UInt8.ofNat (v % 256)).toNat = v % 256 := by simp
    simp only [toOctets, ofOctets, ih, h]
    rw [pow_succ, Nat.mul_comm (256 ^ n) 256, Nat.mod_mul]

theorem ofOctets_toOctets {n v : Nat} (h : v < 256 ^ n) : ofOctets (toOctets n v) = v := by
  rw [ofOctets_toOctets_mod, Nat.mod_eq_of_lt h]

theorem toOctets_ofOctets (bs : List UInt8) : toOctets bs.length (ofOctets bs) = bs := by
  induction bs with
  | nil => rfl
  | cons b bs ih =>
    have hb : b.toNat < 256 := b.toNat_lt
    have hm : (b.toNat + 256 * ofOctets bs) % 256 = b.toNat := by omega
    have hd : (b.toNat + 256 * ofOctets bs) / 256 = ofOctets bs := by omega
    simp only [List.length_cons, toOctets, ofOctets, hm, hd, ih]
    simp

/-! ## Padding -/

/-- Octets to skip from `pos` to reach a multiple of `a`. -/
def padding (pos a : Nat) : Nat := (a - pos % a) % a

theorem padding_lt {a : Nat} (h : 0 < a) (pos : Nat) : padding pos a < a := Nat.mod_lt _ h

@[simp] theorem padding_one (pos : Nat) : padding pos 1 = 0 := by
  simp [padding, Nat.mod_one]

theorem add_padding_mod {a : Nat} (h : 0 < a) (pos : Nat) : (pos + padding pos a) % a = 0 := by
  have hm := Nat.mod_lt pos h
  have hd := Nat.div_add_mod pos a
  rcases Nat.eq_zero_or_pos (pos % a) with h0 | h0
  · simp [padding, h0]
  · have hp : padding pos a = a - pos % a := Nat.mod_eq_of_lt (by omega)
    have : pos + padding pos a = a * (pos / a + 1) := by
      rw [hp, Nat.mul_add]
      omega
    rw [this]
    exact Nat.mul_mod_right a _

theorem padding_eq_zero {pos a : Nat} (h : pos % a = 0) : padding pos a = 0 := by
  simp [padding, h]

end Octets

import Mathlib.Tactic

/-!
# Encoding forms of Unicode
-/

namespace Unicode

/-- The octets of a code point in UTF-8, lead octet first. -/
def utf8 (c : Nat) : List UInt8 :=
  if c < 0x80 then [UInt8.ofNat c]
  else if c < 0x800 then [UInt8.ofNat (0xC0 + c / 64), UInt8.ofNat (0x80 + c % 64)]
  else if c < 0x10000 then
    [UInt8.ofNat (0xE0 + c / 4096), UInt8.ofNat (0x80 + c / 64 % 64), UInt8.ofNat (0x80 + c % 64)]
  else
    [UInt8.ofNat (0xF0 + c / 262144), UInt8.ofNat (0x80 + c / 4096 % 64),
      UInt8.ofNat (0x80 + c / 64 % 64), UInt8.ofNat (0x80 + c % 64)]

/-- The code units of a code point in UTF-16. -/
def utf16 (c : Nat) : List Nat :=
  if c < 0x10000 then [c] else [0xD800 + (c - 0x10000) / 1024, 0xDC00 + (c - 0x10000) % 1024]

theorem utf8_ascii {c : Nat} (h : c < 0x80) : utf8 c = [UInt8.ofNat c] := if_pos h

theorem utf8_two {c : Nat} (h : 0x80 ≤ c) (h' : c < 0x800) :
    utf8 c = [UInt8.ofNat (0xC0 + c / 64), UInt8.ofNat (0x80 + c % 64)] := by
  rw [utf8, if_neg (Nat.not_lt.mpr h), if_pos h']

theorem utf16_bmp {c : Nat} (h : c < 0x10000) : utf16 c = [c] := if_pos h

/-- A text is encoded code point by code point. -/
theorem flatMap_utf16_bmp {α : Type} (f : α → Nat) (s : List α) (h : ∀ x ∈ s, f x < 0x10000) :
    (s.flatMap fun x => utf16 (f x)) = s.map f := by
  induction s with
  | nil => rfl
  | cons x s ih =>
    rw [List.flatMap_cons, utf16_bmp (h x List.mem_cons_self),
      ih fun y hy => h y (List.mem_cons_of_mem _ hy)]
    rfl

end Unicode

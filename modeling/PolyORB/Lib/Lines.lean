import Mathlib.Data.List.DropRight
import Mathlib.Data.List.TakeWhile
import Mathlib.Tactic

/-!
# Lines of text

Texts are lists of octets.  A line ends with a carriage return and a line feed; `scan` looks for the
end of the current line, and tells a carriage return that is not followed by anything yet from two
of them and from a lone line feed.  Words are separated by blanks, and linear white space is made of
blanks and tabs.
-/

namespace Lines

variable {s w rest : List UInt8} {c : UInt8}

/-- The octets of a literal text. -/
def ascii (s : String) : List UInt8 := s.toList.map fun c => UInt8.ofNat c.toNat

def crlf : List UInt8 := [13, 10]

/-- No line ends within `s`, and nothing in it disturbs the search for its end. -/
def IsLine (s : List UInt8) : Prop := 13 ∉ s ∧ 10 ∉ s

instance : Decidable (IsLine s) := inferInstanceAs (Decidable (_ ∧ _))

theorem IsLine.append (hs : IsLine s) (hw : IsLine w) : IsLine (s ++ w) := by
  refine ⟨?_, ?_⟩
  · simpa using ⟨hs.1, hw.1⟩
  · simpa using ⟨hs.2, hw.2⟩

/-- What `scan` finds: a malformed line end, the end of a line after so many octets, or no end. -/
inductive Scanned where
  | malformed
  | line (length : Nat)
  | unfinished (crSeen : Bool)

def Scanned.later : Scanned → Scanned
  | line n => line (n + 1)
  | r => r

def scan : Bool → List UInt8 → Scanned
  | crSeen, [] => .unfinished crSeen
  | crSeen, c :: cs =>
    if c = 13 then if crSeen = true then .malformed else (scan true cs).later
    else if c = 10 then if crSeen = true then .line 1 else .malformed
    else (scan false cs).later

theorem scan_pos {crSeen : Bool} {n : Nat} (h : scan crSeen s = .line n) : 0 < n := by
  induction s generalizing crSeen n with
  | nil => cases h
  | cons c cs ih =>
    have hlater : ∀ b, (scan b cs).later = .line n → 0 < n := by
      intro b hb
      cases hs : scan b cs with
      | line m => rw [hs] at hb; cases hb; exact Nat.succ_pos m
      | malformed => rw [hs] at hb; cases hb
      | unfinished => rw [hs] at hb; cases hb
    rw [scan] at h
    split_ifs at h
    · exact hlater _ h
    · cases h; exact Nat.one_pos
    · exact hlater _ h

theorem scan_line (h : IsLine s) : scan false (s ++ crlf ++ rest) = .line (s.length + 2) := by
  induction s with
  | nil => rfl
  | cons c cs ih =>
    obtain ⟨hcr, hlf⟩ := h
    rw [List.mem_cons, not_or] at hcr hlf
    rw [List.cons_append, List.cons_append, scan, if_neg (Ne.symm hcr.1), if_neg (Ne.symm hlf.1),
      ih ⟨hcr.2, hlf.2⟩]
    rfl

/-! ## Words -/

def word (s : List UInt8) : List UInt8 := s.takeWhile (· != 32)

def afterWord (s : List UInt8) : List UInt8 := (s.dropWhile (· != 32)).dropWhile (· == 32)

theorem word_append (h : 32 ∉ w) : word (w ++ 32 :: rest) = w := by
  have hall : ∀ c ∈ w, (c != 32) = true := fun c hc => by
    simpa using fun he : c = 32 => h (he ▸ hc)
  rw [word, List.takeWhile_append_of_pos hall]
  simp

theorem afterWord_append (h : 32 ∉ w) (hrest : rest.head? ≠ some 32) :
    afterWord (w ++ 32 :: rest) = rest := by
  have hall : ∀ c ∈ w, (c != 32) = true := fun c hc => by
    simpa using fun he : c = 32 => h (he ▸ hc)
  rw [afterWord, List.dropWhile_append_of_pos hall, List.dropWhile_cons_of_neg (by simp),
    List.dropWhile_cons_of_pos (by simp)]
  cases rest with
  | nil => rfl
  | cons c cs => exact List.dropWhile_cons_of_neg (by simpa using hrest)

theorem afterWord_blank (h : 32 ∉ w) :
    afterWord (w ++ 32 :: 32 :: rest) = afterWord (w ++ 32 :: rest) := by
  have hall : ∀ c ∈ w, (c != 32) = true := fun c hc => by
    simpa using fun he : c = 32 => h (he ▸ hc)
  rw [afterWord, afterWord, List.dropWhile_append_of_pos hall, List.dropWhile_append_of_pos hall]
  simp

theorem afterWord_eq_nil (h : 32 ∉ w) : afterWord w = [] := by
  have hall : ∀ c ∈ w, (c != 32) = true := fun c hc => by
    simpa using fun he : c = 32 => h (he ▸ hc)
  rw [afterWord, ← List.append_nil w, List.dropWhile_append_of_pos hall]
  rfl

/-! ## Linear white space -/

def isLws (c : UInt8) : Bool := c == 32 || c == 9

def skipLws (s : List UInt8) : List UInt8 := s.dropWhile isLws

def trimLws (s : List UInt8) : List UInt8 := s.rdropWhile isLws

/-- No linear white space at either end. -/
def Trimmed (s : List UInt8) : Prop :=
  (∀ c ∈ s.head?, isLws c = false) ∧ ∀ c ∈ s.getLast?, isLws c = false

theorem skipLws_blank : skipLws (32 :: s) = skipLws s := List.dropWhile_cons_of_pos rfl

theorem trimLws_isPrefix (s : List UInt8) : trimLws s <+: s := List.rdropWhile_prefix isLws s

theorem length_trimLws_le : (trimLws s).length ≤ s.length := (trimLws_isPrefix s).length_le

theorem skipLws_eq_self_iff : skipLws s = s ↔ ∀ c ∈ s.head?, isLws c = false := by
  cases s with
  | nil => simp [skipLws]
  | cons c cs => simp [skipLws]

theorem trimLws_eq_self_iff : trimLws s = s ↔ ∀ c ∈ s.getLast?, isLws c = false := by
  rw [trimLws, List.rdropWhile_eq_self_iff]
  rcases List.eq_nil_or_concat s with rfl | ⟨l, c, rfl⟩
  · simp
  · simp

theorem trim_eq_self_iff : trimLws (skipLws s) = s ↔ Trimmed s := by
  rw [Trimmed, ← skipLws_eq_self_iff, ← trimLws_eq_self_iff]
  constructor
  · intro h
    have hskip : skipLws s = s := (List.dropWhile_suffix isLws).eq_of_length_le (by
      calc s.length = (trimLws (skipLws s)).length := by rw [h]
        _ ≤ (skipLws s).length := length_trimLws_le)
    exact ⟨hskip, by rwa [hskip] at h⟩
  · rintro ⟨hskip, htrim⟩
    rw [hskip, htrim]

/-! ## Quotes -/

/-- Between double quotes. -/
def Quoted (s : List UInt8) : Prop := s.head? = some 34 ∧ s.getLast? = some 34

instance : Decidable (Quoted s) := inferInstanceAs (Decidable (_ ∧ _))

def unquote (s : List UInt8) : List UInt8 := if Quoted s then s.tail.dropLast else s

theorem length_unquote_le : (unquote s).length ≤ s.length := by
  rw [unquote]
  split
  · rw [List.length_dropLast, List.length_tail]; omega
  · exact le_rfl

theorem unquote_eq_self_iff : unquote s = s ↔ ¬ Quoted s := by
  constructor
  · rintro h hq
    rw [unquote, if_pos hq] at h
    cases s with
    | nil => simp [Quoted] at hq
    | cons c cs =>
      have hlen := congrArg List.length h
      rw [List.length_dropLast, List.length_tail, List.length_cons] at hlen
      omega
  · exact fun h => if_neg h

theorem unquote_trim_eq_self_iff :
    unquote (trimLws (skipLws s)) = s ↔ Trimmed s ∧ ¬ Quoted s := by
  constructor
  · intro h
    have htrim : trimLws (skipLws s) = s := by
      have hlen : s.length ≤ (trimLws (skipLws s)).length := by
        calc s.length = (unquote (trimLws (skipLws s))).length := by rw [h]
          _ ≤ (trimLws (skipLws s)).length := length_unquote_le
      have hskip : skipLws s = s := (List.dropWhile_suffix isLws).eq_of_length_le
        (hlen.trans length_trimLws_le)
      rw [hskip] at hlen ⊢
      exact (trimLws_isPrefix s).eq_of_length_le hlen
    exact ⟨trim_eq_self_iff.1 htrim, unquote_eq_self_iff.1 (by rwa [htrim] at h)⟩
  · rintro ⟨htrim, hq⟩
    rw [trim_eq_self_iff.2 htrim, unquote_eq_self_iff.2 hq]

end Lines

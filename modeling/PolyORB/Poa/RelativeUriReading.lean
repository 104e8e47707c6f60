import Mathlib.Data.List.TakeWhile
import PolyORB.Poa.RelativeUri
import PolyORB.Poa.ObjectIdRoundTrip

/-!
# Reading a relative URI

A relative URI is cut at its first semicolon, and what stands before it at the last slash.  Both
parts are unescaped; nothing is read outside the string.
-/

namespace PolyORB

open Character

/-! ## Escapes -/

/-- The octet of two hexadecimal digits. -/
def hexPair (c d : UInt8) : Except Fault UInt8 := do
  let hi ← hexValue c
  let lo ← hexValue d
  return UInt8.ofNat (hi * 16 + lo)

/-- What `URI_Decode` makes of a text. -/
def unescape : Text → Except Fault Text
  | [] => .ok []
  | c :: cs =>
    if c = percent then
      match cs with
      | d :: e :: rest => do
        let x ← hexPair d e
        let xs ← unescape rest
        return x :: xs
      | _ => .error (.raised .constraintError)
    else do
      let xs ← unescape cs
      return c :: xs

theorem unescape_of_ne {c : UInt8} (h : c ≠ percent) (cs : Text) :
    unescape (c :: cs) = (do
      let xs ← unescape cs
      return c :: xs) := by
  match cs with
  | [] => simp [unescape, h]
  | [_] | _ :: _ :: _ => rw [unescape, if_neg h] <;> simp

theorem unescape_pair (d e : UInt8) (rest : Text) :
    unescape (percent :: d :: e :: rest) = (do
      let x ← hexPair d e
      let xs ← unescape rest
      return x :: xs) := by
  rw [unescape, if_pos rfl]

theorem unescape_cut {cs : Text} (h : cs.length < 2) :
    unescape (percent :: cs) = .error (.raised .constraintError) := by
  match cs with
  | [] | [_] => simp [unescape]
  | _ :: _ :: _ => simp at h

/-- Texts are taken apart as `URI_Decode` takes them. -/
theorem escape_induction {motive : Text → Prop} (nil : motive [])
    (plain : ∀ c cs, c ≠ percent → motive cs → motive (c :: cs))
    (pair : ∀ d e rest, motive rest → motive (percent :: d :: e :: rest))
    (cut : ∀ cs, cs.length < 2 → motive (percent :: cs)) (s : Text) : motive s := by
  induction hn : s.length using Nat.strong_induction_on generalizing s with
  | _ n ih =>
    subst hn
    cases s with
    | nil => exact nil
    | cons c cs =>
      by_cases hc : c = percent
      · subst hc
        match cs with
        | [] => exact cut _ (by simp)
        | [_] => exact cut _ (by simp)
        | d :: e :: rest => exact pair d e rest (ih rest.length (by simp; omega) rest rfl)
      · exact plain c cs hc (ih cs.length (by simp) cs rfl)

theorem charAt_append (pre : Text) (c : UInt8) (rest : Text) :
    charAt (pre ++ c :: rest) (pre.length + 1) = .ok c := by
  simp [charAt]

theorem hexPairAt_append (pre : Text) (c d : UInt8) (rest : Text) :
    hexPairAt (pre ++ c :: d :: rest) (pre.length + 1) = hexPair c d := by
  have hd := charAt_append (pre ++ [c]) d rest
  rw [List.append_assoc, List.length_append, List.length_singleton, List.singleton_append] at hd
  rw [hexPairAt, charAt_append, Checked.bind_ok, hd, hexPair]
  rfl

theorem uriDecodeFrom_append (pre rest : Text) :
    uriDecodeFrom (pre ++ rest) (pre.length + 1) = unescape rest := by
  induction rest using escape_induction generalizing pre with
  | nil =>
    rw [uriDecodeFrom, if_neg (by simp)]
    rfl
  | plain c cs h ih =>
    have hnext := ih (pre ++ [c])
    rw [List.append_assoc, List.length_append, List.length_singleton, List.singleton_append]
      at hnext
    rw [uriDecodeFrom, if_pos (by simp), charAt_append, Checked.bind_ok, if_neg h, hnext,
      unescape_of_ne h]
  | pair d e rest ih =>
    have hnext := ih (pre ++ [percent, d, e])
    have hpair := hexPairAt_append (pre ++ [percent]) d e rest
    rw [List.append_assoc, List.length_append] at hnext hpair
    rw [uriDecodeFrom, if_pos (by simp), charAt_append, Checked.bind_ok, if_pos rfl,
      if_neg (by simp; omega), unescape_pair]
    exact congrArg₂ (fun x y => x >>= fun d => y >>= fun xs => pure (d :: xs)) hpair hnext
  | cut cs h =>
    rw [uriDecodeFrom, if_pos (by simp), charAt_append, Checked.bind_ok, if_pos rfl,
      if_pos (by simp; omega), unescape_cut h]

theorem uriDecode_eq (s : Text) : uriDecode s = unescape s := uriDecodeFrom_append [] s

variable {s : Text}

theorem unescape_plain (h : percent ∉ s) (rest : Text) :
    unescape (s ++ rest) = (do
      let xs ← unescape rest
      return s ++ xs) := by
  induction s with
  | nil => cases hr : unescape rest <;> simp [hr]
  | cons c s ih =>
    rw [List.mem_cons, not_or] at h
    rw [List.cons_append, unescape_of_ne (Ne.symm h.1), ih h.2]
    cases unescape rest <;> rfl

theorem unescape_self (h : percent ∉ s) : unescape s = .ok s := by
  have := unescape_plain h []
  rwa [List.append_nil, unescape, Checked.bind_ok, List.append_nil] at this

theorem length_unescape {t : Text} (h : unescape s = .ok t) :
    t.length ≤ s.length ∧ (percent ∈ s → t.length < s.length) := by
  induction s using escape_induction generalizing t with
  | nil => obtain rfl := Except.ok.inj h; simp
  | plain c cs hc ih =>
    rw [unescape_of_ne hc] at h
    obtain ⟨xs, hxs, h⟩ := Checked.bind_eq_ok.1 h
    obtain rfl := Except.ok.inj h
    grind
  | pair d e rest ih =>
    obtain ⟨x, -, h⟩ := Checked.bind_eq_ok.1 h
    obtain ⟨xs, hxs, h⟩ := Checked.bind_eq_ok.1 h
    obtain rfl := Except.ok.inj h
    have := ih hxs
    simp only [List.length_cons]
    omega
  | cut cs hcs => rw [unescape_cut hcs] at h; cases h

theorem unescape_eq_self (h : unescape s = .ok s) : percent ∉ s := fun hp =>
  absurd ((length_unescape h).2 hp) (lt_irrefl _)

/-! ## What URI_Encode writes -/

theorem hexValue_hex {n : UInt8} (h : n.toNat < 16) : hexValue (hex n) = .ok n.toNat := by
  obtain ⟨k, hk, rfl⟩ : ∃ k : Nat, k < 16 ∧ n = UInt8.ofNat k := ⟨n.toNat, h, by simp⟩
  interval_cases k <;> rfl

theorem hexPair_hex (c : UInt8) : hexPair (hex (c / 16)) (hex (c % 16)) = .ok c := by
  have hc := c.toNat_lt
  have hdiv : (c / 16).toNat = c.toNat / 16 := by simp
  have hmod : (c % 16).toNat = c.toNat % 16 := by simp
  rw [hexPair, hexValue_hex (by omega), Checked.bind_ok, hexValue_hex (by omega), Checked.bind_ok,
    hdiv, hmod, show c.toNat / 16 * 16 + c.toNat % 16 = c.toNat by omega, UInt8.ofNat_toNat]
  rfl

theorem needEscape_of_mem {c : UInt8} (h : c = percent ∨ c = semicolon ∨ c = slash) :
    needEscape [slash] c = true := by
  rcases h with rfl | rfl | rfl <;> decide

theorem unescape_uriEncode (s : Text) : unescape (uriEncode [slash] s) = .ok s := by
  induction s with
  | nil => rfl
  | cons c s ih =>
    rw [uriEncode, List.flatMap_cons]
    split_ifs with h
    · rw [List.cons_append, List.cons_append, List.cons_append, List.nil_append, unescape_pair,
        hexPair_hex, Checked.bind_ok]
      erw [ih]
      rfl
    · have hc : c ≠ percent := fun hp => h (needEscape_of_mem (.inl hp))
      rw [List.singleton_append, unescape_of_ne hc]
      erw [ih]
      rfl

theorem hex_ne_of_reserved {c n : UInt8} (h : c = semicolon ∨ c = slash) (hn : n.toNat < 16) :
    hex n ≠ c := by
  intro heq
  have hval := hexValue_hex hn
  rw [heq] at hval
  rcases h with rfl | rfl <;> cases hval

theorem not_mem_uriEncode {c : UInt8} (h : c = semicolon ∨ c = slash) :
    c ∉ uriEncode [slash] s := by
  intro hmem
  obtain ⟨d, -, hd⟩ := List.mem_flatMap.1 hmem
  split_ifs at hd with hesc
  · simp only [List.mem_cons, List.not_mem_nil, or_false] at hd
    rcases hd with rfl | hd | hd
    · rcases h with h | h <;> cases h
    · exact hex_ne_of_reserved h (by simp; have := d.toNat_lt; omega) hd.symm
    · exact hex_ne_of_reserved h (by simp; omega) hd.symm
  · rw [List.mem_singleton] at hd
    exact hesc (needEscape_of_mem (hd ▸ .inr h))

/-! ## The parts of a relative URI -/

theorem findForward_eq {what : UInt8} {mid tail : Text} (hmid : what ∉ mid)
    (htail : tail = [] ∨ ∃ t, tail = what :: t) (pre : Text) :
    findForward (pre ++ (mid ++ tail)) what (pre.length + 1) = pre.length + mid.length + 1 := by
  induction mid generalizing pre with
  | nil =>
    rcases htail with rfl | ⟨t, rfl⟩
    · rw [findForward, if_neg (by simp)]
      simp
    · rw [findForward, if_pos (by simp), if_pos (by simp)]
      simp
  | cons c mid ih =>
    rw [List.mem_cons, not_or] at hmid
    have hnext := ih hmid.2 (pre ++ [c])
    rw [List.append_assoc, List.length_append, List.length_singleton, List.singleton_append,
      ← List.cons_append] at hnext
    rw [findForward, if_pos (by simp), if_neg (by simpa using Ne.symm hmid.1), hnext,
      List.length_cons]
    omega

theorem lastSlashFrom_eq {mid : Text} (h : slash ∉ mid) (pre tail : Text) :
    lastSlashFrom (pre ++ slash :: (mid ++ tail)) (pre.length + 1 + mid.length) =
      .ok (pre.length + 1) := by
  suffices hn : ∀ n ≤ mid.length, lastSlashFrom (pre ++ slash :: (mid ++ tail))
      (pre.length + 1 + n) = .ok (pre.length + 1) from hn mid.length le_rfl
  intro n hn
  induction n with
  | zero =>
    rw [Nat.add_zero, lastSlashFrom, charAt_append, Checked.bind_ok, if_pos rfl]
    rfl
  | succ n ih =>
    obtain ⟨c, hc, hmem⟩ : ∃ c, charAt (pre ++ slash :: (mid ++ tail)) (pre.length + 1 + n + 1) =
        .ok c ∧ c ∈ mid := by
      refine ⟨mid[n], ?_, List.getElem_mem _⟩
      have hget : (pre ++ slash :: (mid ++ tail))[pre.length + 1 + n]? = some mid[n] := by
        rw [List.getElem?_append_right (by omega),
          show pre.length + 1 + n - pre.length = n + 1 by omega, List.getElem?_cons_succ,
          List.getElem?_append_left hn, List.getElem?_eq_getElem]
      rw [charAt, hget]
    have hne : ¬c = slash := by
      rintro rfl
      exact h hmem
    rw [← Nat.add_assoc, lastSlashFrom, hc, Checked.bind_ok, if_neg hne, ih (by omega)]

theorem slice_eq (pre mid post : Text) :
    slice (pre ++ (mid ++ post)) (pre.length + 1) (pre.length + mid.length) = .ok mid := by
  by_cases h : mid = []
  · subst h
    rw [slice, if_pos (by simp)]
  · have := List.length_pos_iff.2 h
    rw [slice, if_neg (by omega), if_neg (by simp), ← List.append_assoc,
      ← List.length_append, List.take_left]
    simp

section Parts

variable (host : Endianness) {pre mid tail : Text}

theorem relUriToOid_parts (hfirst : (pre ++ [slash]).head? = some slash) (hpre : semicolon ∉ pre)
    (hmid : semicolon ∉ mid) (hslash : slash ∉ mid)
    (htail : tail = [] ∨ ∃ t, tail = semicolon :: t) :
    relUriToOid host (pre ++ slash :: (mid ++ tail)) = (do
      let (sys, cookie) ← readAttributes host (pre ++ slash :: (mid ++ tail))
        (pre.length + mid.length + 2)
      let name ← unescape mid
      let creator ← unescape pre.tail
      return uOidToOid host ⟨name, creator, sys, cookie⟩) := by
  have hcolon : findForward (pre ++ slash :: (mid ++ tail)) semicolon 1 =
      pre.length + mid.length + 2 := by
    have hfree : semicolon ∉ pre ++ slash :: mid := by
      simp [hpre, hmid, show semicolon ≠ slash by decide]
    have := findForward_eq hfree htail []
    simp only [List.nil_append, List.length_nil, List.append_assoc, List.cons_append,
      List.length_append, List.length_cons] at this
    rw [this]
    omega
  have hlast := lastSlashFrom_eq hslash pre tail
  have hid : slice (pre ++ slash :: (mid ++ tail)) (pre.length + 1 + 1)
      (pre.length + 1 + mid.length) = .ok mid := by
    have := slice_eq (pre ++ [slash]) mid tail
    simpa using this
  have hcreator : slice (pre ++ slash :: (mid ++ tail)) 2 pre.length = .ok pre.tail := by
    cases pre with
    | nil => simp [slice]
    | cons c pre =>
      have := slice_eq [c] pre (slash :: (mid ++ tail))
      simpa [Nat.add_comm] using this
  have hchar : charAt (pre ++ slash :: (mid ++ tail)) 1 = .ok slash := by
    cases pre with
    | nil => rfl
    | cons c pre =>
      obtain rfl := Option.some.inj hfirst
      rfl
  rw [relUriToOid]
  rw [hcolon, show pre.length + mid.length + 2 - 1 = pre.length + 1 + mid.length by omega, hlast,
    Checked.bind_ok, hchar, Checked.bind_ok, if_neg (by simp), hid]
  simp [hcreator, uriDecode_eq]

theorem exists_uri_parts (rest : Text) :
    ∃ pre mid tail, slash :: rest = pre ++ slash :: (mid ++ tail) ∧
      (pre ++ [slash]).head? = some slash ∧ semicolon ∉ pre ∧ semicolon ∉ mid ∧ slash ∉ mid ∧
      (tail = [] ∨ ∃ t, tail = semicolon :: t) := by
  have hcut : ∀ c ∈ rest.takeWhile (· != semicolon), c ≠ semicolon := fun c hc => by
    simpa using List.mem_takeWhile_imp hc
  have hslash : slash ∈ slash :: rest.takeWhile (· != semicolon) := List.mem_cons_self ..
  obtain ⟨pre, mid, heq, hmid⟩ := exists_creator hslash
  have hmem : ∀ c ∈ pre ++ slash :: mid, c ≠ semicolon := by
    rw [← heq]
    intro c hc
    rcases List.mem_cons.1 hc with rfl | hc
    · decide
    · exact hcut c hc
  refine ⟨pre, mid, rest.dropWhile (· != semicolon), ?_, ?_, ?_, ?_, hmid, ?_⟩
  · calc slash :: rest = (slash :: rest.takeWhile (· != semicolon)) ++
          rest.dropWhile (· != semicolon) := by
          rw [List.cons_append, List.takeWhile_append_dropWhile]
      _ = pre ++ slash :: (mid ++ rest.dropWhile (· != semicolon)) := by rw [heq]; simp
  · cases pre with
    | nil => rfl
    | cons c pre => rw [(List.cons.inj heq).1]; rfl
  · exact fun h => hmem _ (List.mem_append_left _ h) rfl
  · exact fun h => hmem _ (List.mem_append_right _ (List.mem_cons_of_mem _ h)) rfl
  · cases htail : rest.dropWhile (· != semicolon) with
    | nil => exact .inl rfl
    | cons c t =>
      have := List.head?_dropWhile_not (· != semicolon) rest
      rw [htail] at this
      exact .inr ⟨t, by simpa using this⟩

end Parts

/-! ## No reading outside -/

/-- The computation does not fail by a read outside a string. -/
def Inside {α : Type} (x : Except Fault α) : Prop := x ≠ .error .outside

section Inside

variable {α β : Type}

theorem inside_ok (a : α) : Inside (.ok a : Except Fault α) := by rintro ⟨⟩

theorem inside_raised (e : Exn) : Inside (.error (.raised e) : Except Fault α) := by rintro ⟨⟩

theorem inside_bind {x : Except Fault α} {f : α → Except Fault β} (hx : Inside x)
    (hf : ∀ a, x = .ok a → Inside (f a)) : Inside (x >>= f) := by
  cases hcase : x with
  | error e =>
    rintro ⟨⟩
    exact hx hcase
  | ok a =>
    exact hf a hcase

theorem inside_hexValue (c : UInt8) : Inside (hexValue c) := by
  unfold hexValue
  split_ifs
  · exact inside_ok _
  · exact inside_ok _
  · exact inside_ok _
  · exact inside_raised _

theorem inside_hexPair (c d : UInt8) : Inside (hexPair c d) :=
  inside_bind (inside_hexValue c) fun _ _ =>
    inside_bind (inside_hexValue d) fun _ _ => inside_ok _

theorem inside_unescape (s : Text) : Inside (unescape s) := by
  induction s using escape_induction with
  | nil => exact inside_ok _
  | plain c cs hc ih =>
    rw [unescape_of_ne hc]
    exact inside_bind ih fun _ _ => inside_ok _
  | pair d e rest ih =>
    exact inside_bind (inside_hexPair d e) fun _ _ => inside_bind ih fun _ _ => inside_ok _
  | cut cs h =>
    rw [unescape_cut h]
    exact inside_raised _

theorem inside_charAt {i : Nat} (h0 : 0 < i) (h : i ≤ s.length) :
    Inside (charAt s i) := by
  obtain ⟨j, rfl⟩ : ∃ j, i = j + 1 := ⟨i - 1, by omega⟩
  rw [charAt, List.getElem?_eq_getElem h]
  exact inside_ok _

theorem inside_slice {lo hi : Nat} (h0 : 0 < lo) (h : hi ≤ s.length) :
    Inside (slice s lo hi) := by
  unfold slice
  split_ifs with h1 h2
  · exact inside_ok _
  · omega
  · exact inside_ok _

theorem inside_hexLoop {n i : Nat} (h0 : 0 < i) (h : i + 2 * n ≤ s.length + 1) :
    Inside (hexLoop s n i) := by
  induction n generalizing i with
  | zero => exact inside_ok _
  | succ n ih =>
    refine inside_bind (inside_bind (inside_charAt h0 (by omega)) fun c _ => ?_) fun _ _ => ?_
    · exact inside_bind (inside_hexValue c) fun _ _ =>
        inside_bind (inside_charAt (by omega) (by omega)) fun d _ =>
          inside_bind (inside_hexValue d) fun _ _ => inside_ok _
    · exact inside_bind (ih (by omega) (by omega)) fun _ _ => inside_ok _

theorem inside_toLifespanCookie (host : Endianness) (h : Text) :
    Inside (toLifespanCookie host h) := by
  refine inside_bind (inside_hexLoop (by omega) (by omega)) fun cSea _ => ?_
  split_ifs
  · exact inside_raised _
  · exact inside_ok _

theorem inside_addInteger (a b : Nat) : Inside (addInteger a b) := by
  unfold addInteger
  split_ifs
  · exact inside_raised _
  · exact inside_ok _

theorem inside_followedBy (uri : Text) (colon : Nat) (word : Text) :
    Inside (followedBy uri colon word) := by
  refine inside_bind (inside_addInteger _ _) fun last _ => ?_
  split_ifs with h
  · exact inside_bind (inside_slice (by omega) h) fun _ _ => inside_ok _
  · exact inside_ok _

theorem inside_readAttributes (host : Endianness) (uri : Text) (colon : Nat) :
    Inside (readAttributes host uri colon) := by
  refine inside_bind (inside_followedBy _ _ _) fun sys _ => ?_
  refine inside_bind (inside_followedBy _ _ _) fun pf _ => ?_
  by_cases hpf : pf = true
  · rw [if_pos hpf]
    exact inside_bind (inside_slice (by omega) le_rfl) fun h _ =>
      inside_bind (inside_toLifespanCookie host h) fun _ _ => inside_ok _
  · rw [if_neg hpf]
    exact inside_ok _

theorem inside_relUriToOid (host : Endianness) (rest : Text) :
    Inside (relUriToOid host (slash :: rest)) := by
  obtain ⟨pre, mid, tail, heq, hfirst, hpre, hmid, hslash, htail⟩ := exists_uri_parts rest
  rw [heq, relUriToOid_parts host hfirst hpre hmid hslash htail]
  exact inside_bind (inside_readAttributes host _ _) fun _ _ =>
    inside_bind (inside_unescape mid) fun _ _ =>
      inside_bind (inside_unescape pre.tail) fun _ _ => inside_ok _

end Inside

end PolyORB

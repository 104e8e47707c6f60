import PolyORB.Giop.Encapsulations
import PolyORB.Lib.Checked
import PolyORB.Lib.Numerals

/-!
# Fixed point values

PolyORB.Fixed_Point and CDR.Common.Fixed_Point: a decimal fixed point value as an array of BCD
nibbles, the last one being the sign.  A value is a whole number of `F'Small`.
-/

namespace PolyORB

open Buffer Numerals

/-- `type F is delta 10.0 ** (-Scale) digits Digits` -/
structure DecimalType where
  digits : Nat
  scale : Int
  digits_pos : 1 ≤ digits
  digits_le : digits ≤ 31

/-- A value of a decimal type, as a number of `F'Small`. -/
structure Fixed (F : DecimalType) where
  mantissa : Int
  range : mantissa.natAbs < 10 ^ F.digits

namespace Fixed

variable {F : DecimalType}

theorem ext_mantissa {v w : Fixed F} (h : v.mantissa = w.mantissa) : v = w := by
  cases v
  cases w
  cases h
  rfl

/-- The range check of an assignment. -/
def assign (F : DecimalType) (m : Int) : Except Exn (Fixed F) :=
  if h : m.natAbs < 10 ^ F.digits then .ok ⟨m, h⟩ else .error .constraintError

/-- `Val / 10`, which truncates towards zero. -/
def divTen (v : Fixed F) : Fixed F where
  mantissa := v.mantissa.tdiv 10
  range := by
    rw [Int.natAbs_tdiv]
    exact lt_of_le_of_lt (Nat.div_le_self _ _) v.range

/-- `(Val - 10 * (Val / 10)) / F'Small` -/
def lastDigit (v : Fixed F) : Int := v.mantissa - 10 * v.divTen.mantissa

end Fixed

/-! ## Nibbles -/

def fixedPositiveZero : Nat := 0xC
def fixedNegative : Nat := 0xD

/-- The conversion to `Nibble`, `range 16#0# .. 16#f#`. -/
def toNibble (n : Int) : Except Exn Nat :=
  if 0 ≤ n ∧ n ≤ 15 then .ok n.toNat else .error .constraintError

section Conversion

variable {F : DecimalType}

def maxNibbles (F : DecimalType) : Nat := 2 * ((F.digits + 2) / 2)

/-- The loop of `Fixed_To_Nibbles`; `First_Digit` is the position after those that are given. -/
def digitLoop (result : List Nat) : Nat → Fixed F → Except Exn (List Nat)
  | firstDigit, val =>
    if val.mantissa = 0 then .ok result
    else
      match firstDigit with
      | 0 => .error .constraintError
      | p + 1 => do
        let digit ← toNibble val.lastDigit
        digitLoop (result.set p digit) p val.divTen

def fixedToNibbles (data : Fixed F) : Except Exn (List Nat) :=
  let result := List.replicate (maxNibbles F) 0
  let last := maxNibbles F - 1
  if 0 ≤ data.mantissa then digitLoop (result.set last fixedPositiveZero) last data
  else do
    let val ← Fixed.assign F (-data.mantissa)
    digitLoop (result.set last fixedNegative) last val

/-- The loop of `Nibbles_To_Fixed`. -/
def accumulate : List Nat → Fixed F → Except Exn (Fixed F)
  | [], result => .ok result
  | n :: ns, result =>
    if 9 < n then .error .constraintError
    else do
      let result ← Fixed.assign F (result.mantissa * 10 + n)
      accumulate ns result

def nibblesToFixed (F : DecimalType) (data : List Nat) : Except Exn (Fixed F) := do
  let result ← accumulate data.dropLast (⟨0, by positivity⟩ : Fixed F)
  match data.getLast? with
  | none => .error .constraintError
  | some sign =>
    if sign = fixedPositiveZero then pure result
    else if sign = fixedNegative then Fixed.assign F (-result.mantissa)
    else .error .constraintError

/-- The loop of `Fixed_To_Octets`. -/
def packNibbles : List Nat → List UInt8
  | n :: m :: ns => (UInt8.ofNat n * 16 + UInt8.ofNat m) :: packNibbles ns
  | _ => []

def fixedToOctets (data : Fixed F) : Except Exn (List UInt8) := do
  let n ← fixedToNibbles data
  return packNibbles n

/-- The loop of `Octets_To_Fixed`. -/
def unpackNibbles (octets : List UInt8) : List Nat :=
  octets.flatMap fun o => [(o / 16).toNat, (o % 16).toNat]

def octetsToFixed (F : DecimalType) (octets : List UInt8) : Except Exn (Fixed F) :=
  nibblesToFixed F (unpackNibbles octets)

/-! ## Transfer -/

def marshallFixed (data : Fixed F) : BufferProg Unit := do
  match fixedToOctets data with
  | .ok octets => alignMarshallCopy octets 1
  | .error e => throw e

/-- The loop of `Unmarshall`, with the places that are left in `Octets`. -/
def unmarshallFixedOctets (host : Endianness) : Nat → BufferProg (List UInt8)
  | 0 => throw .constraintError
  | room + 1 => do
    let o ← unmarshallElementary host 1
    if 9 < o % 16 then return [UInt8.ofNat o]
    else return UInt8.ofNat o :: (← unmarshallFixedOctets host room)

def unmarshallFixed (host : Endianness) (F : DecimalType) : BufferProg (Fixed F) := do
  let octets ← unmarshallFixedOctets host 31
  match octetsToFixed F octets with
  | .ok v => return v
  | .error e => throw e

/-! ## Encoding -/

theorem le_maxNibbles (F : DecimalType) : F.digits ≤ maxNibbles F - 1 := by
  unfold maxNibbles
  omega

theorem digitLoop_ok {p : Nat} {v : Fixed F} {n : Nat} (hv : v.mantissa = n) (hn : n < 10 ^ p)
    (tail : List Nat) :
    digitLoop (List.replicate p 0 ++ tail) p v = .ok (toDigits 10 p n ++ tail) := by
  induction p generalizing v n tail with
  | zero =>
    obtain rfl : n = 0 := by simpa using hn
    rw [digitLoop, if_pos (by simpa using hv)]
    rfl
  | succ p ih =>
    rw [digitLoop]
    split_ifs with hzero
    · obtain rfl : n = 0 := by omega
      have hzeros : ∀ q, toDigits 10 q 0 = List.replicate q 0 := by
        intro q
        induction q with
        | zero => rfl
        | succ q ih => rw [toDigits, Nat.zero_div, ih, Nat.zero_mod, ← List.replicate_succ']
      rw [hzeros]
    · have hdiv : v.divTen.mantissa = (n / 10 : Nat) := by
        show v.mantissa.tdiv 10 = _
        rw [hv]
        rfl
      have hdigit : v.lastDigit = (n % 10 : Nat) := by
        rw [Fixed.lastDigit, hdiv, hv]
        omega
      have hnibble : toNibble v.lastDigit = .ok (n % 10) := by
        rw [toNibble, hdigit, if_pos (by omega), Int.toNat_natCast]
      have hset : (List.replicate (p + 1) 0 ++ tail).set p (n % 10) =
          List.replicate p 0 ++ (n % 10 :: tail) := by
        rw [List.replicate_succ', List.append_assoc, List.set_append_right _ _ (by simp)]
        simp
      rw [hnibble, Checked.bind_ok, hset, ih hdiv (by omega), toDigits, List.append_assoc,
        List.singleton_append]

def signNibble (v : Fixed F) : Nat := if 0 ≤ v.mantissa then fixedPositiveZero else fixedNegative

theorem fixedToNibbles_eq (v : Fixed F) :
    fixedToNibbles v =
      .ok (toDigits 10 (maxNibbles F - 1) v.mantissa.natAbs ++ [signNibble v]) := by
  have hlt : v.mantissa.natAbs < 10 ^ (maxNibbles F - 1) :=
    lt_of_lt_of_le v.range (Nat.pow_le_pow_right (by decide) (le_maxNibbles F))
  have hset : ∀ sign, (List.replicate (maxNibbles F) 0).set (maxNibbles F - 1) sign =
      List.replicate (maxNibbles F - 1) 0 ++ [sign] := by
    intro sign
    obtain ⟨q, hq⟩ : ∃ q, maxNibbles F = q + 1 :=
      ⟨maxNibbles F - 1, by unfold maxNibbles; omega⟩
    rw [hq, Nat.add_sub_cancel, List.replicate_succ', List.set_append_right _ _ (by simp)]
    simp
  unfold fixedToNibbles signNibble
  dsimp only
  split_ifs with hpos
  · rw [hset]
    exact digitLoop_ok (by omega) hlt _
  · have hneg : Fixed.assign F (-v.mantissa) = .ok ⟨-v.mantissa, by
        rw [Int.natAbs_neg]; exact v.range⟩ := dif_pos _
    rw [hneg, Checked.bind_ok, hset]
    exact digitLoop_ok (by show -v.mantissa = _; omega) hlt _

/-! ## Decoding -/

theorem accumulate_ok {ns : List Nat} {acc : Fixed F} {n : Nat} (hacc : acc.mantissa = n)
    (hdigits : ∀ d ∈ ns, d < 10) (hrange : ns.foldl (fun r d => r * 10 + d) n < 10 ^ F.digits) :
    ∃ result : Fixed F, accumulate ns acc = .ok result ∧
      result.mantissa = (ns.foldl (fun r d => r * 10 + d) n : Nat) := by
  have hle : ∀ (ds : List Nat) (k : Nat), k ≤ ds.foldl (fun r d => r * 10 + d) k := by
    intro ds
    induction ds with
    | nil => exact fun k => le_refl k
    | cons d ds ih => exact fun k => le_trans (by omega) (ih (k * 10 + d))
  induction ns generalizing acc n with
  | nil => exact ⟨acc, rfl, hacc⟩
  | cons d ns ih =>
    have hd : d < 10 := hdigits d List.mem_cons_self
    rw [List.foldl_cons] at hrange ⊢
    have hnext : (acc.mantissa * 10 + d).natAbs < 10 ^ F.digits := by
      have := hle ns (n * 10 + d)
      omega
    rw [accumulate, if_neg (by omega), Fixed.assign, dif_pos hnext, Checked.bind_ok]
    exact ih (by simp [hacc]) (fun e he => hdigits e (List.mem_cons_of_mem d he)) hrange

theorem nibblesToFixed_encoded (v : Fixed F) {p : Nat} (hp : v.mantissa.natAbs < 10 ^ p) :
    nibblesToFixed F (toDigits 10 p v.mantissa.natAbs ++ [signNibble v]) = .ok v := by
  have hvalue := ofDigits_toDigits hp
  have hzero : (⟨0, by positivity⟩ : Fixed F).mantissa = ((0 : Nat) : Int) := rfl
  obtain ⟨result, hresult, hm⟩ := accumulate_ok hzero
    (fun d hd => lt_of_mem_toDigits (by decide) hd) (by
      show ofDigits 10 _ < _
      rw [hvalue]
      exact v.range)
  have hm : result.mantissa = v.mantissa.natAbs := by
    rw [hm]
    exact congrArg _ hvalue
  unfold nibblesToFixed
  rw [List.dropLast_concat, hresult, Checked.bind_ok, List.getLast?_concat]
  dsimp only
  unfold signNibble
  by_cases hpos : 0 ≤ v.mantissa
  · rw [if_pos hpos, if_pos rfl]
    exact congrArg _ (Fixed.ext_mantissa (by omega))
  · rw [if_neg hpos, if_neg (by decide), if_pos rfl, Fixed.assign, dif_pos (by
      rw [Int.natAbs_neg, hm, Int.natAbs_natCast]
      exact v.range)]
    exact congrArg _ (Fixed.ext_mantissa (by show -result.mantissa = _; omega))

/-- Nothing but `Constraint_Error` is raised. -/
theorem assign_total (F : DecimalType) (m : Int) :
    (∃ v, Fixed.assign F m = .ok v) ∨ Fixed.assign F m = .error .constraintError := by
  unfold Fixed.assign
  split_ifs with h
  · exact .inl ⟨_, rfl⟩
  · exact .inr rfl

theorem accumulate_total (ns : List Nat) (acc : Fixed F) :
    (∃ v, accumulate ns acc = .ok v) ∨ accumulate ns acc = .error .constraintError := by
  induction ns generalizing acc with
  | nil => exact .inl ⟨acc, rfl⟩
  | cons n ns ih =>
    rw [accumulate]
    split_ifs with hn
    · exact .inr rfl
    · rcases assign_total F (acc.mantissa * 10 + n) with ⟨v, hv⟩ | herr
      · rw [hv, Checked.bind_ok]
        exact ih v
      · rw [herr]
        exact .inr rfl

theorem octetsToFixed_total (F : DecimalType) (octets : List UInt8) :
    (∃ v, octetsToFixed F octets = .ok v) ∨ octetsToFixed F octets = .error .constraintError := by
  unfold octetsToFixed nibblesToFixed
  rcases accumulate_total (F := F) (unpackNibbles octets).dropLast ⟨0, by positivity⟩ with
    ⟨v, hv⟩ | herr
  · rw [hv, Checked.bind_ok]
    split
    · exact .inr rfl
    · split_ifs with h h'
      · exact .inl ⟨v, rfl⟩
      · exact assign_total F _
      · exact .inr rfl
  · rw [herr]
    exact .inr rfl

/-! ## Octets -/

theorem unpackNibbles_packNibbles {ns : List Nat} {k : Nat} (hlen : ns.length = 2 * k)
    (h : ∀ n ∈ ns, n < 16) : unpackNibbles (packNibbles ns) = ns ∧ (packNibbles ns).length = k := by
  induction k generalizing ns with
  | zero =>
    rw [List.length_eq_zero_iff.mp hlen]
    exact ⟨rfl, rfl⟩
  | succ k ih =>
    match ns, hlen with
    | n :: m :: ns, hlen =>
      simp only [List.forall_mem_cons] at h
      obtain ⟨hn, hm, hns⟩ := h
      obtain ⟨hunpack, hlength⟩ := ih (by simp at hlen; omega) hns
      have hhigh : ((UInt8.ofNat n * 16 + UInt8.ofNat m) / 16).toNat = n := by
        simp [UInt8.toNat_div, UInt8.toNat_add, UInt8.toNat_mul]
        omega
      have hlow : ((UInt8.ofNat n * 16 + UInt8.ofNat m) % 16).toNat = m := by
        simp [UInt8.toNat_mod, UInt8.toNat_add, UInt8.toNat_mul]
        omega
      rw [packNibbles]
      refine ⟨?_, by rw [List.length_cons, hlength]⟩
      rw [unpackNibbles, List.flatMap_cons, hhigh, hlow]
      exact congrArg (n :: m :: ·) hunpack
    | [], hlen => simp at hlen
    | [_], hlen => simp at hlen; omega

/-- The only nibble above 9 is the last one. -/
def Terminated (octets : List UInt8) : Prop :=
  ∃ ds sign, unpackNibbles octets = ds ++ [sign] ∧ (∀ d ∈ ds, d < 10) ∧ 9 < sign

/-- The encoding of a value: `(F'Digits + 2) / 2` octets, which are decoded to the value. -/
theorem fixedToOctets_ok (v : Fixed F) :
    ∃ octets, fixedToOctets v = .ok octets ∧ octets.length = (F.digits + 2) / 2 ∧
      Terminated octets ∧ octetsToFixed F octets = .ok v := by
  have hsign : 9 < signNibble v ∧ signNibble v < 16 := by
    unfold signNibble
    split_ifs <;> decide
  have hdigits : ∀ d ∈ toDigits 10 (maxNibbles F - 1) v.mantissa.natAbs, d < 10 :=
    fun d hd => lt_of_mem_toDigits (by decide) hd
  have hlen : (toDigits 10 (maxNibbles F - 1) v.mantissa.natAbs ++ [signNibble v]).length =
      2 * ((F.digits + 2) / 2) := by
    rw [List.length_append, length_toDigits, List.length_singleton, maxNibbles]
    omega
  have hsmall : ∀ n ∈ toDigits 10 (maxNibbles F - 1) v.mantissa.natAbs ++ [signNibble v],
      n < 16 := by
    intro n hn
    rcases List.mem_append.mp hn with hn | hn
    · exact lt_trans (hdigits n hn) (by decide)
    · rw [List.mem_singleton.mp hn]
      exact hsign.2
  obtain ⟨hunpack, hlength⟩ := unpackNibbles_packNibbles hlen hsmall
  refine ⟨_, by rw [fixedToOctets, fixedToNibbles_eq]; rfl, hlength,
    ⟨_, _, hunpack, hdigits, hsign.1⟩, ?_⟩
  rw [octetsToFixed, hunpack]
  exact nibblesToFixed_encoded v
    (lt_of_lt_of_le v.range (Nat.pow_le_pow_right (by decide) (le_maxNibbles F)))

theorem unmarshallFixedOctets_ok (host : Endianness) {xs : List UInt8} {room : Nat} {r r' : Buffer}
    (h : unmarshallOctets host xs.length r = .ok xs r') (hroom : xs.length ≤ room)
    (hend : Terminated xs) : unmarshallFixedOctets host room r = .ok xs r' := by
  induction xs generalizing room r with
  | nil =>
    obtain ⟨ds, sign, hnil, -⟩ := hend
    simp [unpackNibbles] at hnil
  | cons x xs ih =>
    obtain ⟨room, rfl⟩ : ∃ k, room = k + 1 := ⟨room - 1, by simp at hroom; omega⟩
    obtain ⟨o, r₁, ho, h⟩ := Program.bind_eq_ok.mp h
    obtain ⟨ys, r₂, hys, h⟩ := Program.bind_eq_ok.mp h
    injection h with hcons hr
    injection hcons with hx hxs
    subst hx hxs hr
    rw [unmarshallFixedOctets, Program.bind_ok ho]
    have hmod : (UInt8.ofNat o % 16).toNat = o % 16 := by
      simp [UInt8.toNat_mod]
    obtain ⟨ds, sign, hunpack, hdigits, hsign⟩ := hend
    have hunpack : (UInt8.ofNat o / 16).toNat :: (UInt8.ofNat o % 16).toNat :: unpackNibbles ys =
        ds ++ [sign] := hunpack
    cases ys with
    | nil =>
      have hlast : o % 16 = sign := by
        have := congrArg List.getLast? hunpack
        simpa [unpackNibbles] using this
      injection hys with _ hr
      rw [if_pos (by omega), hr]
      rfl
    | cons y ys =>
      match ds, hunpack with
      | d :: e :: ds, hunpack =>
        injection hunpack with hd hunpack
        injection hunpack with he hunpack
        have he10 := hdigits e (by simp)
        rw [if_neg (by omega), Program.bind_ok (ih hys (by simpa using hroom)
          ⟨ds, sign, hunpack, fun c hc => hdigits c (by simp [hc]), hsign⟩)]
        rfl
      | [], hunpack => simp at hunpack
      | [_], hunpack => simp [unpackNibbles] at hunpack

theorem RoundTrips.fixed (host : Endianness) (v : Fixed F) {b : Buffer} (hb : b.AtEnd) :
    ∃ b', RoundTrips (marshallFixed v) (unmarshallFixed host F) v b b' := by
  obtain ⟨octets, hoctets, hlength, hend, hdecode⟩ := fixedToOctets_ok v
  obtain ⟨b', h, -⟩ := Conveys.octets b.endianness host octets b hb rfl
  refine ⟨b', ⟨?_, h.written, fun r hr hp => ?_⟩⟩
  · rw [marshallFixed, hoctets]
    exact h.marshall
  · have hroom : octets.length ≤ 31 := by
      have := F.digits_le
      omega
    rw [unmarshallFixed, Program.bind_ok
      (unmarshallFixedOctets_ok host (h.unmarshall r hr hp) hroom hend), hdecode]
    rfl

/-- Fixed point values are read back as they were written, and nothing else than a value or
`Constraint_Error` comes of any octets. -/
theorem fixed_faithful (F : DecimalType) (v : Fixed F) :
    (∃ octets, fixedToOctets v = .ok octets ∧ octets.length = (F.digits + 2) / 2 ∧
        Terminated octets ∧ octetsToFixed F octets = .ok v) ∧
      (∀ host (b : Buffer), b.AtEnd →
        ∃ b', RoundTrips (marshallFixed v) (unmarshallFixed host F) v b b') ∧
      ∀ octets, (∃ w, octetsToFixed F octets = .ok w) ∨
        octetsToFixed F octets = .error .constraintError :=
  ⟨fixedToOctets_ok v, fun host _ hb => RoundTrips.fixed host v hb, octetsToFixed_total F⟩

/-- The value `-1.50` of five digits, two of them after the point. -/
theorem fixed_faithful_negative :
    let F : DecimalType := ⟨5, 2, by decide, by decide⟩
    let v : Fixed F := ⟨-150, by decide⟩
    fixedToOctets v = .ok [0x00, 0x15, 0x0D] ∧ octetsToFixed F [0x00, 0x15, 0x0D] = .ok v := by
  intro F v
  have hwritten : fixedToOctets v = .ok [0x00, 0x15, 0x0D] := by decide
  obtain ⟨⟨octets, hok, -, -, hback⟩, -⟩ := fixed_faithful F v
  obtain rfl := Except.ok.inj (hwritten.symm.trans hok)
  exact ⟨hwritten, hback⟩

end Conversion

end PolyORB

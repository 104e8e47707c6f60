import Mathlib.Data.List.MinMax
import PolyORB.Poa.ObjectIds

/-!
# Profiles of a reference

`Find_Tagged_Profile` and `Get_Tagged_Profile` of PolyORB.References.Binding.  An access value is an
option, and an array keeps the index of its first component.  `Find_Tagged_Profile` counts from 0
when it takes a profile out, whatever that index is.

`Object_To_String_With_Best_Profile` of PolyORB.References.Corbaloc and of PolyORB.References.URI.
The tables of strings and of tags are as long as the list of registered profile types, and a
preferred profile is looked up in them by its tag.
-/

namespace PolyORB

/-- An array of an unconstrained array type that is indexed by `Integer`. -/
structure BoundedArray (α : Type) where
  first : Int
  items : List α
  deriving DecidableEq

namespace BoundedArray
variable {α : Type}

def last (a : BoundedArray α) : Int := a.first + a.items.length - 1

/-- The bounds of a slice are checked unless it is null. -/
def HasSlice (a : BoundedArray α) (lo hi : Int) : Prop := hi < lo ∨ a.first ≤ lo ∧ hi ≤ a.last

instance (a : BoundedArray α) (lo hi : Int) : Decidable (a.HasSlice lo hi) :=
  inferInstanceAs (Decidable (_ ∨ _ ∧ _))

def slice (a : BoundedArray α) (lo hi : Int) : Except Exn (List α) :=
  if a.HasSlice lo hi then .ok ((a.items.drop (lo - a.first).toNat).take (hi - lo + 1).toNat)
  else .error .constraintError

def setSlice (a : BoundedArray α) (lo hi : Int) (xs : List α) : Except Exn (BoundedArray α) :=
  if a.HasSlice lo hi ∧ xs.length = (hi - lo + 1).toNat then
    let i := (lo - a.first).toNat
    .ok { a with items := a.items.take i ++ xs ++ a.items.drop (i + xs.length) }
  else .error .constraintError

variable {a : BoundedArray α} {lo hi : Int}

theorem slice_eq {i k : Nat} (hlo : lo = a.first + i)
    (hhi : hi = lo + k - 1) (h : i + k ≤ a.items.length) :
    a.slice lo hi = .ok ((a.items.drop i).take k) := by
  have hfrom : (lo - a.first).toNat = i := by omega
  have hk : (hi - lo + 1).toNat = k := by omega
  rw [slice, if_pos (by unfold HasSlice last; omega), hfrom, hk]

theorem slice_null (h : hi < lo) : a.slice lo hi = .ok [] := by
  rw [slice, if_pos (.inl h), show (hi - lo + 1).toNat = 0 by omega, List.take_zero]

theorem setSlice_eq {i : Nat} {xs : List α}
    (hlo : lo = a.first + i) (hhi : hi = lo + xs.length - 1) (h : i + xs.length ≤ a.items.length) :
    a.setSlice lo hi xs =
      .ok { a with items := a.items.take i ++ xs ++ a.items.drop (i + xs.length) } := by
  have hfrom : (lo - a.first).toNat = i := by omega
  rw [setSlice, if_pos (by unfold HasSlice last; omega), hfrom]

theorem setSlice_null (h : hi < lo) :
    a.setSlice lo hi [] = .ok a := by
  rw [setSlice, if_pos ⟨.inl h, by simp; omega⟩]
  simp

theorem setSlice_error (h : ¬a.HasSlice lo hi) (xs : List α) :
    a.setSlice lo hi xs = .error .constraintError :=
  if_neg fun h' => h h'.1

theorem slice_bind_error {β : Type} {f : List α → Except Exn β}
    (h : ∀ xs, f xs = .error .constraintError) :
    (a.slice lo hi >>= f) = .error .constraintError := by
  unfold slice
  split
  · exact h _
  · rfl

end BoundedArray

/-- A profile, with its address, its tag and the object it was created for. -/
structure Profile where
  address : Nat
  tag : Nat
  oid : ObjectId
  deriving DecidableEq

abbrev ProfileArray := BoundedArray (Option Profile)

/-- A reference, nil or with its profiles, which it owns: it destroys each of them. -/
structure OwnedProfiles where
  profiles : Option ProfileArray
  owned : ∀ a ∈ profiles, none ∉ a.items ∧ a.items.Nodup

def profilesOf (r : Option ProfileArray) : ProfileArray := r.getD ⟨1, []⟩

def hasTag (tag : Nat) (p : Option Profile) : Bool := p.any (·.tag = tag)

/-- `New_Array`, without the component `J` of the array. -/
def removeProfile (a : ProfileArray) (j : Int) : Except Exn ProfileArray := do
  let newArray : ProfileArray := ⟨a.first, List.replicate (a.items.length - 1) none⟩
  let below ← a.slice a.first (a.first + j - 1)
  let newArray ← newArray.setSlice a.first (a.first + j - 1) below
  let above ← a.slice (a.first + j + 1) a.last
  newArray.setSlice (a.first + j) newArray.last above

/-- The profile that is returned, and the profiles of the reference. -/
def findTaggedProfile (r : Option ProfileArray) (tag : Nat) (delete : Bool) :
    Except Exn (Option Profile × Option ProfileArray) :=
  match r with
  | none => .ok (none, none)
  | some a =>
    match a.items.findIdx? (hasTag tag) with
    | none => .ok (none, r)
    | some i => do
      let a' ← if delete then removeProfile a (a.first + i) else .ok a
      .ok (a.items[i]?.join, some a')

/-- What a node creates references with: for each transport access point the tag of the profile its
factory creates for an object, without factory or profile nothing; the tag of local profiles; the
object adapter's `To_Proxy_Oid`; the first address that is free. -/
structure ProfileNode where
  accessPoints : List (Option (ObjectId → Option Nat))
  tagLocal : Nat
  toProxyOid : Option ProfileArray → Except ErrorId (Option ObjectId)
  fresh : Nat

namespace ProfileNode

/-- The profiles that `Create_Reference` of PolyORB.ORB creates, the local one last. -/
def created (n : ProfileNode) (oid : ObjectId) : List Profile :=
  let tags := n.accessPoints.filterMap (fun f => f.bind fun create => create oid) ++ [n.tagLocal]
  (tags.zipIdx n.fresh).map fun tag => ⟨tag.2, tag.1, oid⟩

def createReference (n : ProfileNode) (oid : ObjectId) : Option ProfileArray :=
  some ⟨1, (n.created oid).map some⟩

/-- `Pro`, which an error leaves unset, and the profiles of `R` and of `Proxy_Ref`. -/
structure Tagged where
  pro : Except ErrorId (Option Profile)
  r : Option ProfileArray
  proxyRef : Option ProfileArray

def getTaggedProfile (n : ProfileNode) (r : Option ProfileArray) (tag : Nat) :
    Except Exn Tagged := do
  let (result, r) ← findTaggedProfile r tag false
  if result ≠ none then return ⟨.ok result, r, none⟩
  match n.toProxyOid r with
  | .error e => return ⟨.error e, r, none⟩
  | .ok none => return ⟨.ok none, r, none⟩
  | .ok (some proxyOid) =>
    let (result, proxyRef) ← findTaggedProfile (n.createReference proxyOid) tag true
    if result = none then return ⟨.ok none, r, proxyRef⟩
    match r with
    | none => .error .constraintError
    | some a => return ⟨.ok result, some { a with items := a.items ++ [result] }, proxyRef⟩

end ProfileNode

/-! ## Taking a profile out -/

variable {a : ProfileArray}

theorem removeProfile_eq {j : Nat} (hj : j < a.items.length) :
    removeProfile a j = .ok { a with items := a.items.eraseIdx j } := by
  obtain ⟨first, items⟩ := a
  have hlen : (items.take j).length = j := List.length_take_of_le hj.le
  have habove : (items.drop (j + 1)).take (items.length - (j + 1)) = items.drop (j + 1) :=
    List.take_of_length_le (by rw [List.length_drop])
  have hend (rest : List (Option Profile)) (h : rest.length = items.length - 1) :
      (items.take j ++ rest.drop (0 + (items.take j).length)).length ≤
        j + (items.drop (j + 1)).length := by
    simp only [List.length_append, List.length_drop, hlen, h]
    omega
  dsimp only at hj
  unfold removeProfile
  rw [BoundedArray.slice_eq (i := 0) (k := j) (by simp) rfl (by simp; omega), Checked.bind_ok,
    List.drop_zero, BoundedArray.setSlice_eq (i := 0) (by simp) (by rw [hlen]) (by simp; omega),
    Checked.bind_ok, BoundedArray.slice_eq (i := j + 1) (k := items.length - (j + 1))
      (by omega) (by simp [BoundedArray.last]; omega) (by simp; omega),
    Checked.bind_ok, habove, BoundedArray.setSlice_eq (i := j) rfl
      (by simp [BoundedArray.last]; omega) (by simp; omega)]
  congr 2
  simp only [List.take_zero, List.nil_append]
  rw [List.take_left' hlen, List.drop_eq_nil_of_le (hend _ List.length_replicate), List.append_nil,
    List.eraseIdx_eq_take_drop_succ]

theorem removeProfile_error {j : Int} (hne : a.items ≠ [])
    (hj : ¬(0 ≤ j ∧ j < a.items.length)) : removeProfile a j = .error .constraintError := by
  have hpos := List.length_pos_iff.2 hne
  unfold removeProfile
  by_cases h : 0 ≤ j
  · refine BoundedArray.slice_bind_error fun below => ?_
    rw [BoundedArray.setSlice_error]
    · rfl
    · simp only [BoundedArray.HasSlice, BoundedArray.last, List.length_replicate]
      omega
  · rw [BoundedArray.slice_null (by omega), Checked.bind_ok, BoundedArray.setSlice_null (by omega),
      Checked.bind_ok]
    refine BoundedArray.slice_bind_error fun above => BoundedArray.setSlice_error ?_ above
    simp only [BoundedArray.HasSlice, BoundedArray.last, List.length_replicate]
    omega

/-! ## Both operations -/

/-- The first profile with the tag is returned, and with `Delete` it alone is taken out. -/
def FindsTagged (r : Option ProfileArray) (tag : Nat) (delete : Bool) : Prop :=
  ∃ r', findTaggedProfile r tag delete = .ok (((profilesOf r).items.find? (hasTag tag)).join, r') ∧
    (profilesOf r').items =
      if delete then (profilesOf r).items.eraseP (hasTag tag) else (profilesOf r).items

/-- A profile with the tag is returned, or an error.  It is the first one of the reference, or was
moved to its end from a reference to a proxy for it, where the other profiles stay. -/
def ProfileNode.GetsTagged (n : ProfileNode) (r : Option ProfileArray) (tag : Nat) : Prop :=
  ∃ t, n.getTaggedProfile r tag = .ok t ∧
    match (profilesOf r).items.find? (hasTag tag), n.toProxyOid r with
    | some p, _ => t = ⟨.ok p, r, none⟩
    | none, .error e => t = ⟨.error e, r, none⟩
    | none, .ok none => t = ⟨.ok none, r, none⟩
    | none, .ok (some oid) =>
      t.pro = .ok (((n.created oid).map some).find? (hasTag tag)).join ∧
      (profilesOf t.r).items =
        (profilesOf r).items ++ (((n.created oid).map some).find? (hasTag tag)).toList ∧
      (profilesOf t.proxyRef).items = ((n.created oid).map some).eraseP (hasTag tag)

theorem findTaggedProfile_false (r : Option ProfileArray) (tag : Nat) :
    findTaggedProfile r tag false = .ok (((profilesOf r).items.find? (hasTag tag)).join, r) := by
  cases r with
  | none => rfl
  | some a =>
    simp only [findTaggedProfile, profilesOf, Option.getD_some]
    cases hi : a.items.findIdx? (hasTag tag) with
    | none => rw [List.find?_eq_none.2 (by simpa using hi)]; rfl
    | some i =>
      obtain ⟨hlt, hp, hbefore⟩ := List.findIdx?_eq_some_iff_getElem.1 hi
      rw [List.find?_eq_some_iff_getElem.2 ⟨hp, i, hlt, rfl, by simpa using hbefore⟩]
      simp only [List.getElem?_eq_getElem hlt]
      rfl

theorem findTaggedProfile_true {tag i : Nat} (hi : a.items.findIdx? (hasTag tag) = some i) :
    findTaggedProfile (some a) tag true = removeProfile a (a.first + i) >>= fun a' =>
      .ok ((a.items.find? (hasTag tag)).join, some a') := by
  have hfind := findTaggedProfile_false (some a) tag
  simp only [findTaggedProfile, hi, if_true] at hfind ⊢
  rw [Prod.mk.inj (Except.ok.inj hfind) |>.1]
  rfl

theorem removeProfile_right_iff {i : Nat} (hn : a.items.Nodup)
    (hi : i < a.items.length) : (∃ a', removeProfile a (a.first + i) = .ok a' ∧
      a'.items = a.items.eraseIdx i) ↔ a.first = 0 := by
  constructor
  · rintro ⟨a', hok, hitems⟩
    by_cases hj : 0 ≤ a.first + i ∧ a.first + i < a.items.length
    · obtain ⟨k, hk⟩ := Int.eq_ofNat_of_zero_le hj.1
      have hlt : k < a.items.length := by omega
      rw [hk, removeProfile_eq hlt] at hok
      obtain rfl := Except.ok.inj hok
      by_contra hne
      -- the component at `k` went, so it is not among those beside `i`
      have hmem : a.items[k] ∈ a.items.eraseIdx i :=
        List.mem_eraseIdx_iff_getElem.2 ⟨k, hlt, by omega, rfl⟩
      rw [← hitems] at hmem
      obtain ⟨m, hm, hmk, heq⟩ := List.mem_eraseIdx_iff_getElem.1 hmem
      exact hmk (hn.getElem_inj_iff.1 heq)
    · rw [removeProfile_error (List.ne_nil_of_length_pos (by omega)) hj] at hok
      nomatch hok
  · intro h0
    rw [h0, zero_add, removeProfile_eq hi]
    exact ⟨_, rfl, rfl⟩

theorem findsTagged_iff (r : OwnedProfiles) (tag : Nat) (delete : Bool) :
    FindsTagged r.profiles tag delete ↔
      (delete = true → (∃ p ∈ (profilesOf r.profiles).items, hasTag tag p = true) →
        (profilesOf r.profiles).first = 0) := by
  obtain ⟨r, owned⟩ := r
  cases delete with
  | false => exact ⟨nofun, fun _ => ⟨r, findTaggedProfile_false r tag, rfl⟩⟩
  | true =>
    cases r with
    | none => exact ⟨nofun, fun _ => ⟨none, rfl, rfl⟩⟩
    | some a =>
      have hn := (owned a rfl).2
      simp only [FindsTagged, profilesOf, Option.getD_some, if_true, forall_const,
        List.eraseP_eq_eraseIdx]
      cases hi : a.items.findIdx? (hasTag tag) with
      | none =>
        have hnone : ∀ p ∈ a.items, ¬hasTag tag p = true := by simpa using hi
        refine ⟨fun _ ⟨p, hp, ht⟩ => absurd ht (hnone p hp), fun _ => ⟨some a, ?_, rfl⟩⟩
        rw [List.find?_eq_none.2 hnone, findTaggedProfile, hi]
        rfl
      | some i =>
        obtain ⟨hlt, hp, -⟩ := List.findIdx?_eq_some_iff_getElem.1 hi
        simp only [findTaggedProfile_true hi, Checked.bind_eq_ok]
        rw [← removeProfile_right_iff hn hlt]
        constructor
        · rintro ⟨r', ⟨a', hok, heq⟩, hitems⟩ -
          obtain rfl := (Prod.mk.inj (Except.ok.inj heq)).2
          exact ⟨a', hok, hitems⟩
        · intro h
          obtain ⟨a', hok, hitems⟩ := h ⟨_, List.getElem_mem hlt, hp⟩
          exact ⟨some a', ⟨a', hok, rfl⟩, hitems⟩

theorem ProfileNode.created_owned (n : ProfileNode) (oid : ObjectId) :
    ∀ a ∈ n.createReference oid, none ∉ a.items ∧ a.items.Nodup := by
  intro a ha
  obtain rfl := Option.some.inj ha
  refine ⟨by simp, List.Nodup.map (Option.some_injective _) (.of_map Profile.address ?_)⟩
  rw [created, List.map_map]
  exact (List.zipIdx_map_snd ..).symm ▸ List.nodup_range'

/-- A profile is never moved from the reference to the proxy. -/
theorem ProfileNode.getsTagged_iff (n : ProfileNode) (r : OwnedProfiles) (tag : Nat) :
    n.GetsTagged r.profiles tag ↔
      (∃ p ∈ (profilesOf r.profiles).items, hasTag tag p = true) ∨
      ∀ oid, n.toProxyOid r.profiles = .ok (some oid) → ∀ p ∈ n.created oid, p.tag ≠ tag := by
  obtain ⟨r, -⟩ := r
  simp only [GetsTagged, getTaggedProfile, findTaggedProfile_false, Checked.bind_ok]
  cases hp : (profilesOf r).items.find? (hasTag tag) with
  | some p =>
    have htag := List.find?_some hp
    cases p with
    | none => nomatch htag
    | some p => exact iff_of_true ⟨_, rfl, rfl⟩ (.inl ⟨_, List.mem_of_find?_eq_some hp, htag⟩)
  | none =>
    rw [or_iff_right fun ⟨p, hmem, ht⟩ => List.find?_eq_none.1 hp p hmem ht]
    match htp : n.toProxyOid r with
    | .error e => exact iff_of_true ⟨_, rfl, rfl⟩ nofun
    | .ok none => exact iff_of_true ⟨_, rfl, rfl⟩ (fun _ h => nomatch h)
    | .ok (some oid) =>
      have hcreated := findsTagged_iff ⟨_, n.created_owned oid⟩ tag true
      dsimp only
      constructor
      · rintro ⟨t, ht, hpro, -, hproxy⟩ oid' heq p hmem htag
        obtain rfl := Option.some.inj (Except.ok.inj heq)
        obtain ⟨⟨result, proxyRef⟩, hok, ht⟩ := Checked.bind_eq_ok.1 ht
        have heq : t.pro = .ok result ∧ t.proxyRef = proxyRef := by
          dsimp only at ht
          split at ht
          · next hnull => obtain rfl := Except.ok.inj ht; exact ⟨by rw [hnull], rfl⟩
          · split at ht
            · nomatch ht
            · obtain rfl := Except.ok.inj ht; exact ⟨rfl, rfl⟩
        rw [heq.1] at hpro
        rw [heq.2] at hproxy
        have hfinds : FindsTagged (n.createReference oid) tag true :=
          ⟨proxyRef, hok.trans (by rw [Except.ok.inj hpro]; rfl), hproxy⟩
        have hfirst := hcreated.1 hfinds rfl
          ⟨some p, List.mem_map_of_mem hmem, decide_eq_true htag⟩
        exact absurd hfirst one_ne_zero
      · intro h
        have hnone : ∀ p ∈ (n.created oid).map some, ¬hasTag tag p = true := by
          simpa [hasTag] using h oid rfl
        obtain ⟨proxyRef, hok, hitems⟩ :=
          hcreated.2 fun _ ⟨p, hmem, ht⟩ => absurd ht (hnone p hmem)
        have hfind := List.find?_eq_none.2 hnone
        refine ⟨⟨.ok none, r, proxyRef⟩, ?_, ?_, ?_, hitems⟩
        · rw [hok]
          exact (Checked.bind_ok ..).trans (if_pos (congrArg Option.join hfind))
        · rw [hfind]; rfl
        · rw [hfind]; exact (List.append_nil _).symm

/-- Taking a profile out is right for arrays that start at 0, and `Create_Reference` starts at 1:
the right profile is returned where nothing is taken out. -/
theorem taggedProfiles_iff (n : ProfileNode) (r : OwnedProfiles) (tag : Nat) (delete : Bool) :
    FindsTagged r.profiles tag delete ∧ n.GetsTagged r.profiles tag ↔
      (delete = true → (∃ p ∈ (profilesOf r.profiles).items, hasTag tag p = true) →
        (profilesOf r.profiles).first = 0) ∧
      ((∃ p ∈ (profilesOf r.profiles).items, hasTag tag p = true) ∨
        ∀ oid, n.toProxyOid r.profiles = .ok (some oid) → ∀ p ∈ n.created oid, p.tag ≠ tag) :=
  and_congr (findsTagged_iff r tag delete) (n.getsTagged_iff r tag)

/-- Both take the first of two profiles, whose array starts at 0. -/
theorem taggedProfiles_iff_fromZero :
    let n : ProfileNode := ⟨[some fun _ => some 0], 1, fun _ => .ok (some [9]), 5⟩
    let r : OwnedProfiles := ⟨some ⟨0, [some ⟨3, 4, [9]⟩, some ⟨6, 7, [8]⟩]⟩, by decide⟩
    FindsTagged r.profiles 4 true ∧ n.GetsTagged r.profiles 4 := by
  intro n r
  exact (taggedProfiles_iff n r 4 true).2 ⟨fun _ _ => rfl, .inl ⟨some ⟨3, 4, [9]⟩, .head _, rfl⟩⟩

/-- The moved profile stays with the proxy's reference, which destroys it; the local one is lost. -/
theorem moved_profile_stays :
    let n : ProfileNode := ⟨[some fun _ => some 0], 1, fun _ => .ok (some [9]), 5⟩
    let r : ProfileArray := ⟨1, [some ⟨3, 4, [9]⟩]⟩
    n.getTaggedProfile (some r) 0 = .ok ⟨.ok (some ⟨5, 0, [9]⟩),
      some ⟨1, [some ⟨3, 4, [9]⟩, some ⟨5, 0, [9]⟩]⟩, some ⟨1, [some ⟨5, 0, [9]⟩]⟩⟩ ∧
    ¬n.GetsTagged (some r) 0 ∧ ¬FindsTagged (some r) 4 true := by
  refine ⟨rfl, ?_, ?_⟩
  · rintro ⟨t, ht, -, -, hproxy⟩
    obtain rfl := Except.ok.inj ht
    nomatch hproxy
  · rintro ⟨r', hr, -⟩
    nomatch hr

end PolyORB

/-! ## Stringification with the best profile -/

namespace PolyORB.References

/-- A profile; `data` is what stringification reads of it. -/
structure RankedProfile where
  tag : Nat
  preference : Nat
  data : Text
  deriving DecidableEq

structure ProfileRecord where
  tag : Nat
  profileToStringBody : RankedProfile → Text

section
variable (callbacks : List ProfileRecord) (profs : List RankedProfile)

def profileToString (p : RankedProfile) : Text :=
  match callbacks.find? (·.tag = p.tag) with
  | none => []
  | some info => info.profileToStringBody p

def addProfile (l : List (Nat × Text)) (p : RankedProfile) : Except Exn (List (Nat × Text)) :=
  let str := profileToString callbacks p
  if str = [] then .ok l
  else if l.length < callbacks.length then .ok (l ++ [(p.tag, str)])
  else .error .constraintError

/-- `Get_Corbaloc_List`, `Get_URI_List`: the first components of `TL` and `SL`. -/
def getList : Except Exn (List (Nat × Text)) := profs.foldlM (addProfile callbacks) []

/-- The loop over `K`, with what `Best_Profile_Index` selects, nothing for 0. -/
def scanTags (l : List (Nat × Text)) (best : Nat × Option Text) (p : RankedProfile) :
    Nat × Option Text :=
  if best.1 < p.preference then
    l.foldl (fun best e => if e.1 = p.tag then (p.preference, some e.2) else best) best
  else best

/-- `Object_To_String_With_Best_Profile`; a nil reference has no profile. -/
def objectToStringWithBestProfile (pre : Text) : Except Exn Text :=
  if profs = [] then .ok pre
  else do
    let l ← getList callbacks profs
    match (profs.foldl (scanTags l) (0, none)).2 with
    | some str => return pre ++ str
    | none => return pre

end

namespace Corbaloc

/-- `Corbaloc_Prefix`, "corbaloc:" -/
def corbalocPrefix : Text := [99, 111, 114, 98, 97, 108, 111, 99, 58]

def objectToString (callbacks : List ProfileRecord) (profs : List RankedProfile) :
    Except Exn Text := objectToStringWithBestProfile callbacks profs corbalocPrefix

end Corbaloc

namespace Uri

def objectToString (callbacks : List ProfileRecord) (profs : List RankedProfile) :
    Except Exn Text := objectToStringWithBestProfile callbacks profs []

end Uri

/-! ## What is selected -/

section
variable (callbacks : List ProfileRecord) (profs : List RankedProfile)

def convertible : List RankedProfile := profs.filter (profileToString callbacks · ≠ [])

/-- The string of the first convertible profile of the highest preference. -/
def bestString : Option Text :=
  ((convertible callbacks profs).argmax (·.preference)).map (profileToString callbacks)

/-- The string of the last convertible profile with the tag. -/
def lastString (tag : Nat) : Option Text :=
  ((convertible callbacks profs).filter (·.tag = tag)).getLast?.map (profileToString callbacks)

/-- The profiles, convertible or not, that have the tag of a convertible one. -/
def tagged : List RankedProfile := profs.filter fun p => (lastString callbacks profs p.tag).isSome

/-- There are no more convertible profiles than registered types; if there are any, the first of
the highest preference has the string of the last one with the tag of the profile that is the first
of the highest preference with such a tag, and this preference is not 0. -/
def SelectsBest : Prop :=
  (convertible callbacks profs).length ≤ callbacks.length ∧
  ∀ str ∈ bestString callbacks profs, ∃ p ∈ (tagged callbacks profs).argmax (·.preference),
    0 < p.preference ∧ lastString callbacks profs p.tag = some str

end

variable {callbacks : List ProfileRecord} {profs : List RankedProfile}

def entry (callbacks : List ProfileRecord) (p : RankedProfile) : Nat × Text :=
  (p.tag, profileToString callbacks p)

theorem getList_eq : getList callbacks profs =
    if (convertible callbacks profs).length ≤ callbacks.length then
      .ok ((convertible callbacks profs).map (entry callbacks))
    else .error .constraintError := by
  unfold convertible
  induction profs using List.reverseRecOn with
  | nil => rfl
  | append_singleton profs p ih =>
    have happ : getList callbacks (profs ++ [p]) = getList callbacks profs >>= fun l =>
        addProfile callbacks l p := by
      simp only [getList, List.foldlM_append, List.foldlM_cons, List.foldlM_nil, bind_pure]
    rw [happ, ih, List.filter_append]
    by_cases hp : profileToString callbacks p = []
    · rw [List.filter_cons_of_neg (by simp [hp]), List.filter_nil, List.append_nil]
      split <;> simp [addProfile, hp]
    · rw [List.filter_cons_of_pos (by simp [hp]), List.filter_nil, List.length_append,
        List.map_append]
      split
      · simp [addProfile, hp, entry]
      · next hlt => exact (if_neg fun h => hlt (Nat.le_of_succ_le h)).symm

theorem scanTags_eq : scanTags ((convertible callbacks profs).map (entry callbacks)) =
    fun best p => if best.1 < p.preference then
      (lastString callbacks profs p.tag).elim best fun str => (p.preference, some str)
    else best := by
  funext best p
  refine if_congr Iff.rfl ?_ rfl
  unfold lastString
  generalize convertible callbacks profs = l
  induction l using List.reverseRecOn with
  | nil => rfl
  | append_singleton l q ih =>
    rw [List.map_append, List.foldl_append, ih, List.filter_append]
    by_cases hq : q.tag = p.tag <;> simp [entry, hq]

theorem foldl_scanTags : profs.foldl
      (scanTags ((convertible callbacks profs).map (entry callbacks))) (0, none) =
    ((tagged callbacks profs).argmax (·.preference)).elim (0, none) fun p => (p.preference,
      if 0 < p.preference then lastString callbacks profs p.tag else none) := by
  unfold tagged
  rw [scanTags_eq]
  generalize lastString callbacks profs = pick
  induction profs using List.reverseRecOn with
  | nil => rfl
  | append_singleton profs p ih =>
    rw [List.foldl_append, ih, List.foldl_cons, List.foldl_nil, List.filter_append]
    cases hp : pick p.tag with
    | none =>
      rw [List.filter_cons_of_neg (by simp [hp]), List.filter_nil, List.append_nil,
        Option.elim_none, ite_self]
    | some str =>
      rw [List.filter_cons_of_pos (by simp [hp]), List.filter_nil, List.argmax_concat]
      cases (profs.filter fun p => (pick p.tag).isSome).argmax (·.preference) with
      | none => rcases Nat.eq_zero_or_pos p.preference with h0 | h0 <;> simp [hp, h0]
      | some q =>
        rcases lt_or_ge q.preference p.preference with hlt | hge
        · simp [hp, hlt, Nat.zero_lt_of_lt hlt]
        · simp [hge.not_gt]

theorem objectToString_eq (pre : Text) : objectToStringWithBestProfile callbacks profs pre =
    if (convertible callbacks profs).length ≤ callbacks.length then
      .ok (pre ++ (((tagged callbacks profs).argmax (·.preference)).bind fun p =>
        if 0 < p.preference then lastString callbacks profs p.tag else none).getD [])
    else .error .constraintError := by
  unfold objectToStringWithBestProfile
  split
  · next hnil => subst hnil; simp [convertible, tagged]
  · rw [getList_eq]
    split
    · rw [Checked.bind_ok, foldl_scanTags]
      cases (tagged callbacks profs).argmax (·.preference) with
      | none => simp
      | some p =>
        simp only [Option.elim_some, Option.bind_some]
        cases (if 0 < p.preference then lastString callbacks profs p.tag else none) <;> simp
    · rfl

/-! ## The string that is returned -/

/-- The string of the first convertible profile of the highest preference is returned, the empty
result if there is none. -/
def Stringified (callbacks : List ProfileRecord) (profs : List RankedProfile) (pre : Text)
    (result : Except Exn Text) : Prop :=
  result = .ok (pre ++ (bestString callbacks profs).getD [])

theorem bestString_ne_nil {str : Text} (h : str ∈ bestString callbacks profs) : str ≠ [] := by
  obtain ⟨p, hp, rfl⟩ := Option.map_eq_some_iff.1 h
  exact of_decide_eq_true (List.mem_filter.1 (List.argmax_mem hp)).2

theorem stringified_iff (pre : Text) :
    Stringified callbacks profs pre (objectToStringWithBestProfile callbacks profs pre) ↔
      SelectsBest callbacks profs := by
  rw [Stringified, objectToString_eq, SelectsBest]
  split
  · next hle =>
    rw [Except.ok.injEq, List.append_cancel_left_eq, and_iff_right hle]
    cases hbest : bestString callbacks profs with
    | none =>
      have hnil : convertible callbacks profs = [] :=
        List.argmax_eq_none.1 (Option.map_eq_none_iff.1 hbest)
      simp [tagged, lastString, hnil]
    | some str =>
      have hne := bestString_ne_nil hbest
      have hget (x : Option Text) : x.getD [] = str ↔ x = some str := by
        cases x with
        | none => simp [hne.symm]
        | some y => simp
      rw [Option.getD_some, hget, Option.bind_eq_some_iff]
      simp
  · next hlt => exact iff_of_false nofun fun h => hlt h.1

/-- Both stringifications return the string of a best profile exactly where it is selected. -/
theorem stringified_both_iff (corbaloc uri : List ProfileRecord) (profs : List RankedProfile) :
    (Stringified corbaloc profs Corbaloc.corbalocPrefix (Corbaloc.objectToString corbaloc profs) ∧
      Stringified uri profs [] (Uri.objectToString uri profs)) ↔
      SelectsBest corbaloc profs ∧ SelectsBest uri profs :=
  and_congr (stringified_iff _) (stringified_iff _)

/-- Two profiles of one registered type do not fit in the tables. -/
theorem not_stringified_two :
    let callbacks : List ProfileRecord := [⟨0, RankedProfile.data⟩]
    let profs : List RankedProfile := [⟨0, 5, [65]⟩, ⟨0, 5, [66]⟩]
    ¬Stringified callbacks profs Corbaloc.corbalocPrefix (Corbaloc.objectToString callbacks profs) ∧
      ¬Stringified callbacks profs [] (Uri.objectToString callbacks profs) ∧
      Corbaloc.objectToString callbacks profs = .error .constraintError := by
  simp only [Stringified]
  decide

end PolyORB.References

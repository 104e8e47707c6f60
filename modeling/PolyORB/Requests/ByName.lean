import PolyORB.Requests.Reconciliation

/-!
# Identification by name

A search that succeeds takes the first unused source argument of the name and type that are looked
for.  By name, it must not meet an argument that is not eligible or was copied already, since it
would never go past it; so the arguments have to be found from back to front.
-/

namespace PolyORB

variable {τ ν σ : Type}

/-! ## What a search takes -/

def SourceSlot.taken (s : SourceSlot τ ν) : SourceSlot τ ν :=
  { arg := { s.arg with value := none }, copied := true }

/-- `d` takes the value of an unused argument that matches it, and no unused one before matches. -/
def Takes (ops : AnyOperations τ ν) (o : PumpOptions) (d : NamedValue τ ν)
    (slots : List (SourceSlot τ ν)) (d' : NamedValue τ ν) (slots' : List (SourceSlot τ ν)) : Prop :=
  ∃ pre s post, slots = pre ++ s :: post ∧ o.unused s = true ∧ ops.argumentsMatch d s.arg = true ∧
    (∀ x ∈ pre, o.unused x = true → ops.argumentsMatch d x.arg = false) ∧
    d' = { d with value := s.arg.value } ∧
    slots' = pre ++ s.taken :: post

variable {s : SourceSlot τ ν} {slots : List (SourceSlot τ ν)}

section Search

variable {ops : AnyOperations τ ν} {o : PumpOptions} {d : NamedValue τ ν}

/-- Equal typecodes have the same kind. -/
def AnyOperations.EqualKinds (ops : AnyOperations τ ν) : Prop :=
  ∀ t u, ops.equal t u = true → ops.kind t = ops.kind u

theorem moveFromSlot_eq (hops : ops.EqualKinds)
    (h : ops.typesMatch d s.arg = true) (passed rest : List (SourceSlot τ ν)) :
    moveFromSlot ops d passed s rest =
      .ok (.filled { d with value := s.arg.value }
        (passed ++ s.taken :: rest)) := by
  rw [moveFromSlot, AnyOperations.moveAnyValue, if_neg (not_not.mpr (hops _ _ h))]
  rfl

theorem typesMatch_of_argumentsMatch {s : NamedValue τ ν} (h : ops.argumentsMatch d s = true) :
    ops.typesMatch d s = true := (Bool.and_eq_true _ _ ▸ h).1

theorem name_of_argumentsMatch {s : NamedValue τ ν} (h : ops.argumentsMatch d s = true) :
    d.name = s.name := by
  rw [AnyOperations.argumentsMatch, Bool.and_eq_true] at h
  exact beq_iff_eq.mp h.2

theorem copied_of_unused (h : o.unused s = true) : s.copied = false := by
  rw [PumpOptions.unused, Bool.and_eq_true, Bool.not_eq_true'] at h
  exact h.2

theorem eligible_of_unused (h : o.unused s = true) :
    o.eligible s.arg = true := by
  rw [PumpOptions.unused, Bool.and_eq_true] at h
  exact h.1

theorem unused_iff_of_not_copied (h : s.copied = false) :
    o.unused s = o.eligible s.arg := by
  rw [PumpOptions.unused, h, Bool.not_false, Bool.and_true]

theorem fillByName_inv (hops : ops.EqualKinds) {fuel : Nat} {passed : List (SourceSlot τ ν)}
    {f : Filling τ ν (List (SourceSlot τ ν))} (h : fillByName ops o d fuel passed slots = .ok f) :
    (∃ pre s post, slots = pre ++ s :: post ∧ o.unused s = true ∧
      ops.argumentsMatch d s.arg = true ∧
      (∀ x ∈ pre, o.unused x = true ∧ ops.argumentsMatch d x.arg = false) ∧
      f = .filled { d with value := s.arg.value }
        (passed ++ pre ++ s.taken :: post)) ∨
    (slots ≠ [] ∧ (∀ x ∈ slots, o.unused x = true ∧ ops.argumentsMatch d x.arg = false) ∧
      f = .failed argumentNotFound) := by
  induction fuel generalizing passed slots with
  | zero => cases h
  | succ fuel ih =>
    cases slots with
    | nil => cases h
    | cons s rest =>
      rw [fillByName] at h
      split_ifs at h with hu hm hr
      · rw [moveFromSlot_eq hops (typesMatch_of_argumentsMatch hm)] at h
        obtain rfl := Except.ok.inj h
        refine .inl ⟨[], s, rest, rfl, hu, hm, ?_, ?_⟩
        · rintro x ⟨⟩
        · rw [List.append_nil]
      · obtain rfl := List.isEmpty_iff.mp hr
        obtain rfl := Except.ok.inj h
        refine .inr ⟨List.cons_ne_nil _ _, fun x hx => ?_, rfl⟩
        rw [List.mem_singleton.mp hx]
        exact ⟨hu, Bool.eq_false_iff.mpr hm⟩
      · rcases ih h with ⟨pre, s', post, hsl, hu', hm', hpre, rfl⟩ | ⟨-, hall, rfl⟩
        · refine .inl ⟨s :: pre, s', post, by rw [hsl]; rfl, hu', hm', fun x hx => ?_, ?_⟩
          · rcases List.mem_cons.mp hx with rfl | hx
            · exact ⟨hu, Bool.eq_false_iff.mpr hm⟩
            · exact hpre x hx
          · rw [List.append_assoc, List.append_assoc, List.append_assoc]
            rfl
        · refine .inr ⟨List.cons_ne_nil _ _, fun x hx => ?_, rfl⟩
          rcases List.mem_cons.mp hx with rfl | hx
          · exact ⟨hu, Bool.eq_false_iff.mpr hm⟩
          · exact hall x hx
      · rcases ih h with ⟨pre, s', post, hsl, hu', hm', hpre, rfl⟩ | ⟨-, hall, rfl⟩
        · cases pre with
          | nil =>
            obtain ⟨rfl, -⟩ := List.cons.inj hsl
            exact absurd hu' hu
          | cons x pre =>
            obtain ⟨rfl, -⟩ := List.cons.inj hsl
            exact absurd (hpre s (List.mem_cons_self ..)).1 hu
        · exact absurd (hall s (List.mem_cons_self ..)).1 hu

theorem fillByName_found (hops : ops.EqualKinds) {pre post : List (SourceSlot τ ν)}
    (hu : o.unused s = true) (hm : ops.argumentsMatch d s.arg = true)
    (hpre : ∀ x ∈ pre, o.unused x = true ∧ ops.argumentsMatch d x.arg = false) :
    ∀ {fuel : Nat} (passed : List (SourceSlot τ ν)), pre.length < fuel →
      fillByName ops o d fuel passed (pre ++ s :: post) =
        .ok (.filled { d with value := s.arg.value }
          (passed ++ pre ++ s.taken :: post)) := by
  induction pre with
  | nil =>
    rintro (_ | fuel) passed hlt
    · cases hlt
    · rw [List.nil_append, fillByName, if_pos hu, if_pos hm,
        moveFromSlot_eq hops (typesMatch_of_argumentsMatch hm), List.append_nil]
  | cons x pre ih =>
    rintro (_ | fuel) passed hlt
    · cases hlt
    · obtain ⟨hux, hmx⟩ := hpre x (List.mem_cons_self ..)
      have hne : ¬(pre ++ s :: post).isEmpty = true := by simp
      rw [List.cons_append, fillByName, if_pos hux, if_neg (Bool.eq_false_iff.mp hmx), if_neg hne,
        ih (fun y hy => hpre y (List.mem_cons_of_mem _ hy)) _ (Nat.lt_of_succ_lt_succ hlt),
        List.append_assoc, List.append_assoc, List.append_assoc]
      rfl

theorem fillByName_missing (hne : slots ≠ [])
    (hall : ∀ x ∈ slots, o.unused x = true ∧ ops.argumentsMatch d x.arg = false) :
    ∀ {fuel : Nat} (passed : List (SourceSlot τ ν)), slots.length ≤ fuel →
      fillByName ops o d fuel passed slots = .ok (.failed argumentNotFound) := by
  induction slots with
  | nil => exact absurd rfl hne
  | cons s rest ih =>
    rintro (_ | fuel) passed hle
    · cases hle
    · obtain ⟨hu, hm⟩ := hall s (List.mem_cons_self ..)
      rw [fillByName, if_pos hu, if_neg (Bool.eq_false_iff.mp hm)]
      by_cases hr : rest.isEmpty = true
      · rw [if_pos hr]
      · rw [if_neg hr]
        refine ih (fun h => hr (by rw [h]; rfl)) (fun x hx => hall x (List.mem_cons_of_mem _ hx)) _ ?_
        exact Nat.le_of_succ_le_succ hle

end Search

/-! ## The order in which arguments are found -/

variable {dst : List (NamedValue τ ν)}

section Order

variable {ops : AnyOperations τ ν} {o : PumpOptions}

def byName (ops : AnyOperations τ ν) (o : PumpOptions) (fuel : Nat) :
    List (NamedValue τ ν) → List (SourceSlot τ ν) →
      Except Exn (Pumped τ ν (List (SourceSlot τ ν))) :=
  o.pumpUp fun d slots => fillByName ops o d fuel [] slots

/-- The list is closed where a copied argument stands, if it is closed. -/
def Closed (slots : List (SourceSlot τ ν)) : Prop :=
  slots = [] ∨ ∃ c cs, slots = c :: cs ∧ c.copied = true

theorem split_open {opens closed pre post : List (SourceSlot τ ν)}
    (hclosed : Closed closed) (heq : opens ++ closed = pre ++ s :: post)
    (hpre : ∀ x ∈ pre, x.copied = false) (hs : s.copied = false) :
    ∃ post', opens = pre ++ s :: post' ∧ post = post' ++ closed := by
  rcases List.append_eq_append_iff.mp heq with ⟨mid, hmid, hclosed'⟩ | ⟨mid, hopens, hmid⟩
  · -- The closed part would start with an argument that is not copied.
    rcases hclosed with rfl | ⟨c, cs, rfl, hc⟩
    · have := congrArg List.length hclosed'
      simp at this
    · exfalso
      cases mid with
      | nil =>
        obtain ⟨rfl, -⟩ := List.cons.inj hclosed'
        rw [hc] at hs
        cases hs
      | cons m mid =>
        obtain ⟨rfl, -⟩ := List.cons.inj hclosed'
        have := hpre c (by rw [hmid]; simp)
        rw [hc] at this
        cases this
  · cases mid with
    | nil =>
      rcases hclosed with rfl | ⟨c, cs, rfl, hc⟩
      · cases hmid
      · obtain ⟨rfl, -⟩ := List.cons.inj hmid
        rw [hc] at hs
        cases hs
    | cons m mid =>
      obtain ⟨rfl, rfl⟩ := List.cons.inj hmid
      exact ⟨mid, hopens, rfl⟩

theorem order_of_ok (hops : ops.EqualKinds) {fuel : Nat} :
    ∀ {opens closed : List (SourceSlot τ ν)} {r : Pumped τ ν (List (SourceSlot τ ν))},
      Closed closed → byName ops o fuel dst (opens ++ closed) = .ok r →
      (r.error = none ∧ o.FoundBackward ops (o.toBeFilled dst) (opens.map SourceSlot.arg)) ∨
      (r.error ≠ none ∧ closed = [] ∧
        o.FirstMissing ops (o.toBeFilled dst) (opens.map SourceSlot.arg)) := by
  induction dst with
  | nil =>
    intro opens closed r _ h
    obtain rfl := Except.ok.inj h
    exact .inl ⟨rfl, trivial⟩
  | cons d ds ih =>
    intro opens closed r hclosed h
    by_cases hd : o.toFill d = true
    · rw [toBeFilled_cons hd]
      rw [byName, PumpOptions.pumpUp, if_pos hd] at h
      cases hf : fillByName ops o d fuel [] (opens ++ closed) with
      | error e =>
        rw [hf] at h
        cases h
      | ok f =>
        rw [hf] at h
        rcases fillByName_inv hops hf with ⟨pre, s, post, hsl, hu, hm, hpre, rfl⟩ | ⟨hne, hall, rfl⟩
        · obtain ⟨r, hrun, rfl⟩ := map_eq_ok.mp h
          obtain ⟨post', rfl, rfl⟩ := split_open hclosed hsl
            (fun x hx => copied_of_unused (hpre x hx).1) (copied_of_unused hu)
          have hclosed' : Closed (s.taken :: (post' ++ closed)) := .inr ⟨_, _, rfl, rfl⟩
          rcases ih hclosed' hrun with ⟨herr, hfound⟩ | ⟨-, hnil, -⟩
          · refine .inl ⟨herr, pre.map SourceSlot.arg, s.arg, post'.map SourceSlot.arg, ?_, ?_,
              eligible_of_unused hu, hm, hfound⟩
            · rw [List.map_append, List.map_cons]
            · intro x hx
              obtain ⟨y, hy, rfl⟩ := List.mem_map.mp hx
              exact ⟨eligible_of_unused (hpre y hy).1, (hpre y hy).2⟩
          · cases hnil
        · obtain rfl := Except.ok.inj h
          have hnil : closed = [] := by
            rcases hclosed with hnil | ⟨c, cs, rfl, hc⟩
            · exact hnil
            · have := copied_of_unused (hall c (by simp)).1
              rw [hc] at this
              cases this
          subst hnil
          rw [List.append_nil] at hall hne
          refine .inr ⟨Option.some_ne_none _, rfl, ?_, ?_⟩
          · exact fun h => hne (List.map_eq_nil_iff.mp h)
          · intro x hx
            obtain ⟨y, hy, rfl⟩ := List.mem_map.mp hx
            exact ⟨eligible_of_unused (hall y hy).1, (hall y hy).2⟩
    · have hd' : o.toFill d = false := Bool.eq_false_iff.mpr hd
      rw [toBeFilled_skip hd']
      rw [byName, pumpUp_skip hd'] at h
      obtain ⟨r, hrun, rfl⟩ := map_eq_ok.mp h
      have hr := ih hclosed hrun
      exact hr

theorem mem_startSlots {src : List (NamedValue τ ν)} {x : SourceSlot τ ν} (h : x ∈ startSlots src) :
    x.arg ∈ src ∧ x.copied = false := by
  obtain ⟨s, hs, rfl⟩ := List.mem_map.mp h
  exact ⟨hs, rfl⟩

theorem map_arg_startSlots (src : List (NamedValue τ ν)) :
    (startSlots src).map SourceSlot.arg = src := by
  rw [startSlots, List.map_map]
  exact List.map_id _

theorem ok_of_foundBackward (hops : ops.EqualKinds) {fuel : Nat} :
    ∀ {opens : List (NamedValue τ ν)} (closed : List (SourceSlot τ ν)),
      o.FoundBackward ops (o.toBeFilled dst) opens → opens.length ≤ fuel →
      ∃ r, byName ops o fuel dst (startSlots opens ++ closed) = .ok r := by
  induction dst with
  | nil =>
    intro opens closed _ _
    exact ⟨_, rfl⟩
  | cons d ds ih =>
    intro opens closed hfound hle
    by_cases hd : o.toFill d = true
    · rw [toBeFilled_cons hd] at hfound
      obtain ⟨before, s, after, rfl, hbefore, hs, hm, hrest⟩ := hfound
      rw [List.length_append, List.length_cons] at hle
      have hslots : startSlots (before ++ s :: after) ++ closed =
          startSlots before ++ ⟨s, false⟩ :: (startSlots after ++ closed) := by
        simp [startSlots]
      have hopen : ∀ x ∈ startSlots before,
          o.unused x = true ∧ ops.argumentsMatch d x.arg = false := by
        intro x hx
        obtain ⟨hmem, hc⟩ := mem_startSlots hx
        rw [unused_iff_of_not_copied hc]
        exact hbefore _ hmem
      have hlt : (startSlots before).length < fuel := by
        rw [startSlots, List.length_map]
        omega
      have hu : o.unused ⟨s, false⟩ = true := (unused_iff_of_not_copied rfl).trans hs
      have hfill : fillByName ops o d fuel []
          (startSlots before ++ ⟨s, false⟩ :: (startSlots after ++ closed)) =
          .ok (.filled { d with value := s.value }
            (startSlots before ++ SourceSlot.taken ⟨s, false⟩ :: (startSlots after ++ closed))) :=
        fillByName_found hops hu hm hopen [] hlt
      obtain ⟨r, hrun⟩ := ih (SourceSlot.taken ⟨s, false⟩ :: (startSlots after ++ closed)) hrest
        (by omega)
      rw [byName, hslots, pumpUp_filled hd hfill]
      exact ⟨_, map_eq_ok.mpr ⟨r, hrun, rfl⟩⟩
    · have hd' : o.toFill d = false := Bool.eq_false_iff.mpr hd
      rw [toBeFilled_skip hd'] at hfound
      obtain ⟨r, hrun⟩ := ih closed hfound hle
      rw [byName, pumpUp_skip hd']
      exact ⟨_, map_eq_ok.mpr ⟨r, hrun, rfl⟩⟩

theorem ok_of_firstMissing {src : List (NamedValue τ ν)}
    (h : o.FirstMissing ops (o.toBeFilled dst) src) :
    ∃ r, byName ops o src.length dst (startSlots src) = .ok r := by
  induction dst with
  | nil => exact h.elim
  | cons d ds ih =>
    by_cases hd : o.toFill d = true
    · rw [toBeFilled_cons hd] at h
      obtain ⟨hne, hall⟩ := h
      have hfill : fillByName ops o d src.length [] (startSlots src) =
          .ok (.failed argumentNotFound) := by
        refine fillByName_missing ?_ ?_ _ ?_
        · exact fun hnil => hne (List.map_eq_nil_iff.mp hnil)
        · intro x hx
          obtain ⟨hmem, hc⟩ := mem_startSlots hx
          rw [unused_iff_of_not_copied hc]
          exact hall _ hmem
        · rw [startSlots, List.length_map]
      rw [byName, pumpUp_failed hd hfill]
      exact ⟨_, rfl⟩
    · have hd' : o.toFill d = false := Bool.eq_false_iff.mpr hd
      rw [toBeFilled_skip hd'] at h
      obtain ⟨r, hrun⟩ := ih h
      rw [byName, pumpUp_skip hd']
      exact ⟨_, map_eq_ok.mpr ⟨r, hrun, rfl⟩⟩

end Order

/-! ## Distinct names -/

section Distinct

variable {ops : AnyOperations τ ν} {o : PumpOptions} {src : List (NamedValue τ ν)}

def mark (used : NamedValue τ ν → Bool) (s : NamedValue τ ν) : SourceSlot τ ν :=
  if used s = true then SourceSlot.taken ⟨s, false⟩ else ⟨s, false⟩

theorem mark_of_unused {used : NamedValue τ ν → Bool} {s : NamedValue τ ν}
    (h : o.unused (mark used s) = true) : used s = false ∧ mark used s = ⟨s, false⟩ := by
  cases hs : used s with
  | false =>
    refine ⟨rfl, ?_⟩
    rw [mark, if_neg (by rw [hs]; exact Bool.false_ne_true)]
  | true =>
    rw [mark, if_pos hs] at h
    exact absurd (copied_of_unused h) (by simp [SourceSlot.taken])

theorem eq_of_name_eq (hsrc : DistinctNames src) {s t : NamedValue τ ν} (hs : s ∈ src) (ht : t ∈ src)
    (h : s.name = t.name) : s = t :=
  List.inj_on_of_nodup_map hsrc hs ht h

theorem receive_eq (hsrc : DistinctNames src) {d s : NamedValue τ ν} (hd : o.toFill d = true)
    (hs : s ∈ src) (he : o.eligible s = true) (hm : ops.argumentsMatch d s = true) :
    o.receive ops src d = { d with value := s.value } := by
  have hfind : (src.find? fun s => o.eligible s && ops.argumentsMatch d s) = some s := by
    cases hf : src.find? fun s => o.eligible s && ops.argumentsMatch d s with
    | none =>
      have := List.find?_eq_none.mp hf s hs
      rw [he, hm] at this
      exact absurd rfl this
    | some t =>
      have hp := List.find?_some hf
      rw [Bool.and_eq_true] at hp
      have hname := (name_of_argumentsMatch hp.2).symm.trans (name_of_argumentsMatch hm)
      rw [eq_of_name_eq hsrc (List.mem_of_find?_eq_some hf) hs hname]
  rw [PumpOptions.receive, if_pos hd, hfind]

theorem takes_mark (hsrc : DistinctNames src) {used : NamedValue τ ν → Bool} {d d' : NamedValue τ ν}
    {slots' : List (SourceSlot τ ν)} (hd : o.toFill d = true)
    (h : Takes ops o d (src.map (mark used)) d' slots') :
    d' = o.receive ops src d ∧
      slots' = src.map (mark fun s => used s || ops.argumentsMatch d s) := by
  obtain ⟨pre, s, post, hsl, hu, hm, -, rfl, rfl⟩ := h
  obtain ⟨before, rest, hsplit, hpre, hrest⟩ := List.map_eq_append_iff.mp hsl
  obtain ⟨t, after, rfl, ht, hpost⟩ := List.map_eq_cons_iff.mp hrest
  subst hsplit hpre hpost ht
  obtain ⟨hused, hmark⟩ := mark_of_unused hu
  rw [hmark] at hu hm ⊢
  have hmem : t ∈ before ++ t :: after := List.mem_append_right _ (List.mem_cons_self ..)
  have hnodup := hsrc
  rw [DistinctNames, List.map_append, List.map_cons, List.nodup_append] at hnodup
  have hbefore : ∀ x ∈ before, ops.argumentsMatch d x = false := by
    intro x hx
    refine Bool.eq_false_iff.mpr fun hmx => ?_
    have hname := (name_of_argumentsMatch hmx).symm.trans (name_of_argumentsMatch hm)
    exact hnodup.2.2 x.name (List.mem_map_of_mem hx) t.name (List.mem_cons_self ..) hname
  have hafter : ∀ x ∈ after, ops.argumentsMatch d x = false := by
    intro x hx
    refine Bool.eq_false_iff.mpr fun hmx => ?_
    have hname := (name_of_argumentsMatch hmx).symm.trans (name_of_argumentsMatch hm)
    refine (List.nodup_cons.mp hnodup.2.1).1 ?_
    rw [← hname]
    exact List.mem_map_of_mem hx
  have hsame : ∀ {xs : List (NamedValue τ ν)}, (∀ x ∈ xs, ops.argumentsMatch d x = false) →
      xs.map (mark used) = xs.map (mark fun s => used s || ops.argumentsMatch d s) := by
    intro xs hxs
    refine List.map_congr_left fun x hx => ?_
    rw [mark, mark, hxs x hx, Bool.or_false]
  refine ⟨(receive_eq hsrc hd hmem (eligible_of_unused hu) hm).symm, ?_⟩
  rw [List.map_append, List.map_cons, hsame hbefore, hsame hafter]
  congr 2
  rw [mark, if_pos (by rw [hm, Bool.or_true])]

theorem slotExtension_mark (used : NamedValue τ ν → Bool) (src : List (NamedValue τ ν)) :
    o.slotExtension (src.map (mark used)) =
      if o.canExtend = true then (o.eligibles src).filter fun s => !used s else [] := by
  rw [PumpOptions.slotExtension]
  congr 1
  induction src with
  | nil => rfl
  | cons s src ih =>
    have hmark : o.unused (mark used s) = (o.eligible s && !used s) := by
      cases hs : used s with
      | true =>
        rw [mark, if_pos hs, PumpOptions.unused]
        simp [SourceSlot.taken]
      | false =>
        rw [mark, if_neg (by rw [hs]; exact Bool.false_ne_true), PumpOptions.unused]
    rw [PumpOptions.eligibles, List.filter_filter] at ih ⊢
    rw [List.map_cons]
    by_cases hkeep : (!used s && o.eligible s) = true
    · have hkeep' : o.unused (mark used s) = true := by rw [hmark, Bool.and_comm]; exact hkeep
      rw [List.filter_cons_of_pos hkeep', List.filter_cons_of_pos (p := fun a => !used a && o.eligible a) hkeep, List.map_cons, ih,
        (mark_of_unused hkeep').2]
    · have hkeep' : ¬o.unused (mark used s) = true := by rw [hmark, Bool.and_comm]; exact hkeep
      rw [List.filter_cons_of_neg hkeep', List.filter_cons_of_neg (p := fun a => !used a && o.eligible a) hkeep, ih]

theorem named_of_ok {fill : NamedValue τ ν → σ → Except Exn (Filling τ ν σ)}
    (slotsOf : σ → List (SourceSlot τ ν)) (Inv : σ → Prop) (hfill : ∀ d st f, Inv st →
      (∃ s ∈ slotsOf st, o.unused s = true ∧ ops.argumentsMatch d s.arg = true) →
      fill d st = .ok f →
      ∃ d' st', f = .filled d' st' ∧ Takes ops o d (slotsOf st) d' (slotsOf st') ∧ Inv st')
    (hsrc : DistinctNames src) :
    ∀ {used : NamedValue τ ν → Bool} {st : σ} {r : Pumped τ ν σ}, DistinctNames dst →
      (∀ d ∈ o.toBeFilled dst, ∀ s ∈ src, ops.argumentsMatch d s = true → used s = false) →
      o.AllNamed ops dst src → Inv st → slotsOf st = src.map (mark used) →
      o.pumpUp fill dst st = .ok r →
      r.error = none ∧ r.dst = dst.map (o.receive ops src) ∧
        slotsOf r.left =
          src.map (mark fun s => used s || (o.toBeFilled dst).any (ops.argumentsMatch · s)) := by
  induction dst with
  | nil =>
    intro used st r _ _ _ _ hslots h
    obtain rfl := Except.ok.inj h
    refine ⟨rfl, rfl, ?_⟩
    rw [hslots]
    refine List.map_congr_left fun s _ => ?_
    simp [PumpOptions.toBeFilled]
  | cons d ds ih =>
    intro used st r hdst hfree hnamed hinv hslots h
    obtain ⟨hnew, hds⟩ := List.nodup_cons.mp hdst
    by_cases hd : o.toFill d = true
    · have hcons : o.toBeFilled (d :: ds) = d :: o.toBeFilled ds := toBeFilled_cons hd
      rw [PumpOptions.AllNamed, hcons] at hnamed
      rw [hcons] at hfree ⊢
      obtain ⟨s, hs, he, hm⟩ := hnamed d (List.mem_cons_self ..)
      have hused := hfree d (List.mem_cons_self ..) s hs hm
      have hmark : mark used s = ⟨s, false⟩ := by
        rw [mark, if_neg (by rw [hused]; exact Bool.false_ne_true)]
      have hex : ∃ s ∈ slotsOf st, o.unused s = true ∧ ops.argumentsMatch d s.arg = true := by
        refine ⟨mark used s, by rw [hslots]; exact List.mem_map_of_mem hs, ?_, ?_⟩
        · rw [hmark, unused_iff_of_not_copied rfl]
          exact he
        · rw [hmark]
          exact hm
      rw [PumpOptions.pumpUp, if_pos hd] at h
      cases hf : fill d st with
      | error e =>
        rw [hf] at h
        cases h
      | ok f =>
        obtain ⟨d', st', rfl, htakes, hinv'⟩ := hfill d st f hinv hex hf
        rw [hf] at h
        obtain ⟨r, hrun, rfl⟩ := map_eq_ok.mp h
        rw [hslots] at htakes
        obtain ⟨rfl, hslots'⟩ := takes_mark hsrc hd htakes
        have hfree' : ∀ e ∈ o.toBeFilled ds, ∀ t ∈ src, ops.argumentsMatch e t = true →
            (used t || ops.argumentsMatch d t) = false := by
          intro e he t ht hmt
          rw [hfree e (List.mem_cons_of_mem _ he) t ht hmt, Bool.false_or]
          refine Bool.eq_false_iff.mpr fun hdt => hnew ?_
          have hname := (name_of_argumentsMatch hdt).trans (name_of_argumentsMatch hmt).symm
          rw [hname]
          exact List.mem_map_of_mem (List.mem_of_mem_filter he)
        obtain ⟨herr, hdst', hleft⟩ := ih hds hfree'
          (fun e he => hnamed e (List.mem_cons_of_mem _ he)) hinv' hslots' hrun
        refine ⟨herr, ?_, hleft.trans ?_⟩
        · rw [Pumped.cons, List.map_cons, hdst']
        · refine List.map_congr_left fun s _ => ?_
          rw [mark, mark, List.any_cons, Bool.or_assoc]
    · have hd' : o.toFill d = false := Bool.eq_false_iff.mpr hd
      have hskip : o.toBeFilled (d :: ds) = o.toBeFilled ds := toBeFilled_skip hd'
      rw [PumpOptions.AllNamed, hskip] at hnamed
      rw [hskip] at hfree ⊢
      rw [pumpUp_skip hd'] at h
      obtain ⟨r, hrun, rfl⟩ := map_eq_ok.mp h
      obtain ⟨herr, hdst', hleft⟩ := ih hds hfree hnamed hinv hslots hrun
      refine ⟨herr, ?_, hleft⟩
      rw [Pumped.cons, List.map_cons, hdst', PumpOptions.receive, if_neg hd]

theorem startSlots_eq_mark (src : List (NamedValue τ ν)) :
    startSlots src = src.map (mark fun _ => false) := rfl

theorem namedResult_of_ok {fill : NamedValue τ ν → σ → Except Exn (Filling τ ν σ)}
    (slotsOf : σ → List (SourceSlot τ ν)) (Inv : σ → Prop) (hfill : ∀ d st f, Inv st →
      (∃ s ∈ slotsOf st, o.unused s = true ∧ ops.argumentsMatch d s.arg = true) →
      fill d st = .ok f →
      ∃ d' st', f = .filled d' st' ∧ Takes ops o d (slotsOf st) d' (slotsOf st') ∧ Inv st')
    (hsrc : DistinctNames src) (hdst : DistinctNames dst)
    (hnamed : o.AllNamed ops dst src) {st : σ} {r : Pumped τ ν σ} (hinv : Inv st)
    (hslots : slotsOf st = startSlots src) (h : o.pumpUp fill dst st = .ok r) :
    (r.append fun st => o.slotExtension (slotsOf st)).error = none ∧
      (r.append fun st => o.slotExtension (slotsOf st)).dst = o.namedResult ops dst src := by
  obtain ⟨herr, hres, hleft⟩ := named_of_ok slotsOf Inv hfill hsrc hdst (fun _ _ _ _ _ => rfl) hnamed hinv
    (hslots.trans (startSlots_eq_mark src)) h
  rw [Pumped.append, if_pos herr]
  refine ⟨herr, ?_⟩
  rw [PumpOptions.namedResult, hres, hleft, slotExtension_mark]
  simp

end Distinct

/-! ## Pump_Up_Arguments_By_Name -/

section ByName

variable {ops : AnyOperations τ ν} {o : PumpOptions} {dst src : List (NamedValue τ ν)}

theorem takes_of_fillByName (hops : ops.EqualKinds) {fuel : Nat} {d : NamedValue τ ν}
    {f : Filling τ ν (List (SourceSlot τ ν))}
    (hex : ∃ s ∈ slots, o.unused s = true ∧ ops.argumentsMatch d s.arg = true)
    (h : fillByName ops o d fuel [] slots = .ok f) :
    ∃ d' slots', f = .filled d' slots' ∧ Takes ops o d slots d' slots' := by
  rcases fillByName_inv hops h with ⟨pre, s, post, hsl, hu, hm, hpre, rfl⟩ | ⟨-, hall, -⟩
  · exact ⟨_, _, rfl, pre, s, post, hsl, hu, hm, fun x hx _ => (hpre x hx).2, rfl, rfl⟩
  · obtain ⟨s, hs, -, hm⟩ := hex
    rw [(hall s hs).2] at hm
    cases hm

theorem mem_of_foundBackward {ds : List (NamedValue τ ν)} :
    ∀ {src : List (NamedValue τ ν)}, o.FoundBackward ops ds src →
      ∀ d ∈ ds, ∃ s ∈ src, o.eligible s = true ∧ ops.argumentsMatch d s = true := by
  induction ds with
  | nil => rintro src - d ⟨⟩
  | cons d ds ih =>
    rintro src ⟨before, s, after, rfl, -, hs, hm, hrest⟩ e he
    rcases List.mem_cons.mp he with rfl | he
    · exact ⟨s, List.mem_append_right _ (List.mem_cons_self ..), hs, hm⟩
    · obtain ⟨t, ht, hte, htm⟩ := ih hrest e he
      exact ⟨t, List.mem_append_left _ ht, hte, htm⟩

theorem isByName_of_ok (hops : ops.EqualKinds) {fuel : Nat}
    {r : Pumped τ ν (List (SourceSlot τ ν))} (h : byName ops o fuel dst (startSlots src) = .ok r)
    (hdst : DistinctNames dst) (hsrc : DistinctNames src) :
    (r.append o.slotExtension).IsByName ops o dst src := by
  have hres : o.AllNamed ops dst src → (r.append o.slotExtension).error = none ∧
      (r.append o.slotExtension).dst = o.namedResult ops dst src := by
    intro hnamed
    refine namedResult_of_ok (fun slots => slots) (fun _ => True) ?_ hsrc hdst
      hnamed trivial rfl h
    intro d slots f _ hex hf
    obtain ⟨d', slots', rfl, htakes⟩ := takes_of_fillByName hops hex hf
    exact ⟨d', slots', rfl, htakes, trivial⟩
  have hnamed : (r.append o.slotExtension).error = none → o.AllNamed ops dst src := by
    intro herr
    rw [← List.append_nil (startSlots src)] at h
    rcases order_of_ok hops (.inl rfl) h with ⟨-, hfound⟩ | ⟨hne, -, -⟩
    · rw [map_arg_startSlots] at hfound
      exact mem_of_foundBackward hfound
    · rw [Pumped.append, if_neg hne] at herr
      exact absurd herr hne
  exact ⟨⟨hnamed, fun hn => (hres hn).1⟩, fun herr => (hres (hnamed herr)).2⟩

theorem nameCorrect_iff (hops : ops.EqualKinds) (ho : o.direction = argIn ∨ o.direction = argOut)
    (dst src : List (NamedValue τ ν)) :
    NameCorrect ops o dst src ↔ NameSound ops o dst src := by
  have hpump : ∀ fuel, pumpUpArgumentsByName ops o fuel dst src =
      (byName ops o fuel dst (startSlots src)).map (.append o.slotExtension) := by
    intro fuel
    rw [pumpUpArgumentsByName, if_neg (direction_ok ho)]
    rfl
  constructor
  · rintro ⟨fuel, _, h, -⟩
    rw [hpump] at h
    obtain ⟨r, hrun, -⟩ := map_eq_ok.mp h
    rw [← List.append_nil (startSlots src)] at hrun
    rcases order_of_ok hops (.inl rfl) hrun with ⟨-, hfound⟩ | ⟨-, -, hmissing⟩
    · rw [map_arg_startSlots] at hfound
      exact .inl hfound
    · rw [map_arg_startSlots] at hmissing
      exact .inr hmissing
  · intro hsound
    have hok : ∃ r, byName ops o src.length dst (startSlots src) = .ok r := by
      rcases hsound with hfound | hmissing
      · obtain ⟨r, hr⟩ := ok_of_foundBackward hops [] hfound le_rfl
        rw [List.append_nil] at hr
        exact ⟨r, hr⟩
      · exact ok_of_firstMissing hmissing
    obtain ⟨r, hr⟩ := hok
    refine ⟨src.length, r.append o.slotExtension, ?_, isByName_of_ok hops hr⟩
    rw [hpump]
    exact map_eq_ok.mpr ⟨r, hr, rfl⟩

end ByName

end PolyORB

import PolyORB.Requests.ByName

/-!
# Identification that is not specified

As long as names can be found, arguments are identified by name; as long as the first unused source
argument has the type that is looked for, by position.
-/

namespace PolyORB

variable {τ ν : Type} {ops : AnyOperations τ ν} {o : PumpOptions} {d : NamedValue τ ν}

/-! ## One search -/

variable {slots : List (SourceSlot τ ν)}

theorem consider_copy {ident ident' : Identification} {s : NamedValue τ ν}
    (h : consider ops ident d s slots = .copyArgument ident') :
    ops.typesMatch d s = true := by
  rw [consider] at h
  split_ifs at h with ht
  all_goals exact ht

variable {s : SourceSlot τ ν}

theorem fillUnspecified_goOn {ident ident' : Identification} {passed rest : List (SourceSlot τ ν)}
    (h : (if o.unused s = true then consider ops ident d s.arg (s :: rest) else .goOn ident) =
      .goOn ident') (hrest : rest ≠ []) :
    fillUnspecified ops o d ident passed (s :: rest) =
      fillUnspecified ops o d ident' (passed ++ [s]) rest := by
  have hne : ¬rest.isEmpty = true := fun hr => hrest (List.isEmpty_iff.mp hr)
  rw [fillUnspecified, h]
  exact if_neg hne

theorem fillUnspecified_copy (hops : ops.EqualKinds) {ident ident' : Identification}
    {passed rest : List (SourceSlot τ ν)} (hu : o.unused s = true)
    (h : consider ops ident d s.arg (s :: rest) = .copyArgument ident') :
    fillUnspecified ops o d ident passed (s :: rest) =
      .ok (.filled { d with value := s.arg.value }
        { ident := ident', slots := passed ++ s.taken :: rest }) := by
  rw [fillUnspecified, if_pos hu, h]
  rw [moveFromSlot_eq hops (consider_copy h)]

theorem fillUnspecified_ok (hops : ops.EqualKinds) (hne : slots ≠ []) :
    ∀ (ident : Identification) (passed : List (SourceSlot τ ν)),
      ∃ f, fillUnspecified ops o d ident passed slots = .ok f ∧
        ∀ d' st', f = .filled d' st' → st'.slots ≠ [] := by
  induction slots with
  | nil => exact absurd rfl hne
  | cons s rest ih =>
    intro ident passed
    by_cases hu : o.unused s = true
    · cases hv : consider ops ident d s.arg (s :: rest) with
      | copyArgument ident' =>
        refine ⟨_, fillUnspecified_copy hops hu hv, ?_⟩
        rintro d' st' ⟨⟩
        exact List.append_ne_nil_of_right_ne_nil _ (List.cons_ne_nil _ _)
      | deadEnd e =>
        refine ⟨.failed e, ?_, fun _ _ h => nomatch h⟩
        rw [fillUnspecified, if_pos hu, hv]
      | goOn ident' =>
        by_cases hr : rest = []
        · refine ⟨.failed argumentNotFound, ?_, fun _ _ h => nomatch h⟩
          rw [fillUnspecified, if_pos hu, hv, hr]
          rfl
        · rw [fillUnspecified_goOn (by rw [if_pos hu, hv]) hr]
          exact ih hr ident' _
    · by_cases hr : rest = []
      · refine ⟨.failed argumentNotFound, ?_, fun _ _ h => nomatch h⟩
        rw [fillUnspecified, if_neg hu, hr]
        rfl
      · rw [fillUnspecified_goOn (if_neg hu) hr]
        exact ih hr ident _

theorem nameExists_of_match (h : s ∈ slots)
    (hm : ops.argumentsMatch d s.arg = true) : nameExists d.name slots = true := by
  rw [nameExists, List.any_eq_true]
  exact ⟨s, h, beq_iff_eq.mpr (name_of_argumentsMatch hm).symm⟩

theorem takes_of_fillUnspecified (hops : ops.EqualKinds) :
    ∀ {ident : Identification} {passed : List (SourceSlot τ ν)}
      {f : Filling τ ν (UnspecifiedState τ ν)}, ident.byName = true →
      (∃ s ∈ slots, o.unused s = true ∧ ops.argumentsMatch d s.arg = true) →
      fillUnspecified ops o d ident passed slots = .ok f →
      ∃ d' st' slots', f = .filled d' st' ∧ Takes ops o d slots d' slots' ∧
        st'.slots = passed ++ slots' ∧ st'.ident.byName = true := by
  induction slots with
  | nil =>
    rintro ident passed f - ⟨s, ⟨⟩, -⟩
  | cons s rest ih =>
    intro ident passed f hname hex h
    have hgo : ∀ ident' : Identification, ident'.byName = true →
        (if o.unused s = true then consider ops ident d s.arg (s :: rest) else .goOn ident) =
          .goOn ident' → (o.unused s = true → ops.argumentsMatch d s.arg = false) →
        ∃ d' st' slots', f = .filled d' st' ∧ Takes ops o d (s :: rest) d' slots' ∧
          st'.slots = passed ++ slots' ∧ st'.ident.byName = true := by
      intro ident' hname' hv hno
      have hex' : ∃ t ∈ rest, o.unused t = true ∧ ops.argumentsMatch d t.arg = true := by
        obtain ⟨t, ht, htu, htm⟩ := hex
        rcases List.mem_cons.mp ht with rfl | ht
        · rw [hno htu] at htm
          cases htm
        · exact ⟨t, ht, htu, htm⟩
      have hr : rest ≠ [] := by
        obtain ⟨t, ht, -⟩ := hex'
        exact List.ne_nil_of_mem ht
      rw [fillUnspecified_goOn hv hr] at h
      obtain ⟨d', st', slots', rfl, ⟨pre, t, post, rfl, htu, htm, hpre, rfl, rfl⟩, hsl, hst⟩ :=
        ih hname' hex' h
      refine ⟨_, st', s :: (pre ++ t.taken :: post), rfl,
        ⟨s :: pre, t, post, rfl, htu, htm, fun x hx => ?_, rfl, rfl⟩, ?_, hst⟩
      · rcases List.mem_cons.mp hx with rfl | hx
        · exact hno
        · exact hpre x hx
      · rw [hsl, List.append_assoc]
        rfl
    by_cases hu : o.unused s = true
    · by_cases hm : ops.argumentsMatch d s.arg = true
      · have hv : consider ops ident d s.arg (s :: rest) = .copyArgument ident := by
          rw [consider, if_pos (typesMatch_of_argumentsMatch hm), if_pos (name_of_argumentsMatch hm)]
        rw [fillUnspecified_copy hops hu hv] at h
        obtain rfl := Except.ok.inj h
        refine ⟨_, _, s.taken :: rest, rfl, ⟨[], s, rest, rfl, hu, hm, ?_, rfl, rfl⟩, rfl, hname⟩
        rintro x ⟨⟩
      · obtain ⟨t, ht, htu, htm⟩ := hex
        have hexists := nameExists_of_match ht htm
        refine hgo { ident with byPosition := false } hname ?_
          (fun _ => Bool.eq_false_iff.mpr hm)
        rw [if_pos hu, consider]
        by_cases htypes : ops.typesMatch d s.arg = true
        · have hne : ¬d.name = s.arg.name := by
            intro heq
            refine hm ?_
            rw [AnyOperations.argumentsMatch, htypes, Bool.true_and]
            exact beq_iff_eq.mpr heq
          have hnot : ¬(ident.byPosition = true ∧ ident.byName = false) := by
            rintro ⟨-, hf⟩
            rw [hname] at hf
            cases hf
          rw [if_pos htypes, if_neg hne, if_neg hnot, if_pos ⟨hname, hexists⟩]
        · rw [if_neg htypes, if_pos hname, if_pos hexists]
    · exact hgo ident hname (if_neg hu) fun h => absurd h hu

theorem fillUnspecified_position (hops : ops.EqualKinds) {pre post : List (SourceSlot τ ν)}
    (hpre : ∀ x ∈ pre, ¬o.unused x = true) (hu : o.unused s = true)
    (ht : ops.typesMatch d s.arg = true) (hnames : ∀ x ∈ s :: post, x.arg.name ≠ d.name)
    {ident : Identification} (hpos : ident.byPosition = true) :
    ∀ passed : List (SourceSlot τ ν), ∃ ident' : Identification, ident'.byPosition = true ∧
      fillUnspecified ops o d ident passed (pre ++ s :: post) =
        .ok (.filled { d with value := s.arg.value }
          { ident := ident', slots := passed ++ pre ++ s.taken :: post }) := by
  induction pre with
  | nil =>
    intro passed
    have hne : ¬d.name = s.arg.name := fun h => hnames s (List.mem_cons_self ..) h.symm
    have hno : nameExists d.name (s :: post) = false := by
      rw [nameExists, List.any_eq_false]
      intro x hx
      rw [beq_iff_eq]
      exact hnames x hx
    have hv : ∃ ident' : Identification, ident'.byPosition = true ∧
        consider ops ident d s.arg (s :: post) = .copyArgument ident' := by
      rw [consider, if_pos ht, if_neg hne]
      by_cases hboth : ident.byPosition = true ∧ ident.byName = false
      · exact ⟨ident, hpos, if_pos hboth⟩
      · refine ⟨{ ident with byName := false }, hpos, ?_⟩
        rw [if_neg hboth, if_neg, if_pos hpos]
        rintro ⟨-, h⟩
        rw [hno] at h
        cases h
    obtain ⟨ident', hpos', hv⟩ := hv
    refine ⟨ident', hpos', ?_⟩
    rw [List.nil_append, fillUnspecified_copy hops hu hv, List.append_nil]
  | cons x pre ih =>
    intro passed
    obtain ⟨ident', hpos', hrun⟩ := ih (fun y hy => hpre y (List.mem_cons_of_mem _ hy)) (passed ++ [x])
    refine ⟨ident', hpos', ?_⟩
    rw [List.cons_append, fillUnspecified_goOn (if_neg (hpre x (List.mem_cons_self ..)))
      (List.append_ne_nil_of_right_ne_nil _ (List.cons_ne_nil _ _)), hrun, List.append_assoc,
      List.append_assoc, List.append_assoc]
    rfl

theorem fillUnspecified_exhausted (hne : slots ≠ [])
    (hall : ∀ x ∈ slots, ¬o.unused x = true) {ident : Identification} :
    ∀ passed : List (SourceSlot τ ν),
      fillUnspecified ops o d ident passed slots = .ok (.failed argumentNotFound) := by
  induction slots with
  | nil => exact absurd rfl hne
  | cons s rest ih =>
    intro passed
    have hs := hall s (List.mem_cons_self ..)
    by_cases hr : rest = []
    · rw [fillUnspecified, if_neg hs, hr]
      rfl
    · rw [fillUnspecified_goOn (if_neg hs) hr]
      exact ih hr (fun x hx => hall x (List.mem_cons_of_mem _ hx)) _

/-! ## The whole loop -/

def unspecified (ops : AnyOperations τ ν) (o : PumpOptions) :
    List (NamedValue τ ν) → UnspecifiedState τ ν → Except Exn (Pumped τ ν (UnspecifiedState τ ν)) :=
  o.pumpUp fun d st => fillUnspecified ops o d st.ident [] st.slots

variable {dst : List (NamedValue τ ν)}

theorem unspecified_ok (hops : ops.EqualKinds) :
    ∀ st : UnspecifiedState τ ν, o.toBeFilled dst = [] ∨ st.slots ≠ [] →
      ∃ r, unspecified ops o dst st = .ok r := by
  induction dst with
  | nil =>
    intro st _
    exact ⟨_, rfl⟩
  | cons d ds ih =>
    intro st hst
    by_cases hd : o.toFill d = true
    · rw [toBeFilled_cons hd] at hst
      have hne : st.slots ≠ [] := hst.resolve_left (List.cons_ne_nil _ _)
      obtain ⟨f, hf, hleft⟩ := fillUnspecified_ok (o := o) (d := d) hops hne st.ident []
      cases f with
      | failed e =>
        rw [unspecified, pumpUp_failed hd hf]
        exact ⟨_, rfl⟩
      | filled d' st' =>
        obtain ⟨r, hr⟩ := ih st' (.inr (hleft d' st' rfl))
        rw [unspecified, pumpUp_filled hd hf]
        exact ⟨_, map_eq_ok.mpr ⟨r, hr, rfl⟩⟩
    · have hd' : o.toFill d = false := Bool.eq_false_iff.mpr hd
      rw [toBeFilled_skip hd'] at hst
      obtain ⟨r, hr⟩ := ih st hst
      rw [unspecified, pumpUp_skip hd']
      exact ⟨_, map_eq_ok.mpr ⟨r, hr, rfl⟩⟩

theorem unspecified_error (hne : o.toBeFilled dst ≠ []) (ident : Identification) :
    unspecified ops o dst { ident, slots := [] } = .error .constraintError := by
  induction dst with
  | nil => exact absurd rfl hne
  | cons d ds ih =>
    by_cases hd : o.toFill d = true
    · rw [unspecified, pumpUp_raised hd rfl]
    · have hd' : o.toFill d = false := Bool.eq_false_iff.mpr hd
      rw [toBeFilled_skip hd'] at hne
      have := ih hne
      rw [unspecified] at this ⊢
      rw [pumpUp_skip hd', this]
      rfl

/-- The source arguments that are still unused. -/
def PumpOptions.leftOver (o : PumpOptions) (slots : List (SourceSlot τ ν)) :
    List (NamedValue τ ν) :=
  (slots.filter o.unused).map SourceSlot.arg

theorem leftOver_startSlots (src : List (NamedValue τ ν)) :
    o.leftOver (startSlots src) = o.eligibles src := by
  rw [PumpOptions.leftOver, PumpOptions.eligibles, startSlots, List.filter_map, List.map_map]
  have hcomp : o.unused ∘ (fun s : NamedValue τ ν => (⟨s, false⟩ : SourceSlot τ ν)) = o.eligible := by
    funext s
    exact unused_iff_of_not_copied rfl
  rw [hcomp]
  exact List.map_id _

theorem leftOver_eq_cons {s : NamedValue τ ν}
    {es : List (NamedValue τ ν)} (h : o.leftOver slots = s :: es) :
    ∃ pre t post, slots = pre ++ t :: post ∧ t.arg = s ∧ (∀ x ∈ pre, ¬o.unused x = true) ∧
      o.unused t = true ∧ o.leftOver (pre ++ t.taken :: post) = es := by
  obtain ⟨t, us, hfilter, hs, hes⟩ := List.map_eq_cons_iff.mp h
  obtain ⟨pre, post, rfl, hpre, ht, rfl⟩ := List.filter_eq_cons_iff.mp hfilter
  refine ⟨pre, t, post, rfl, hs, hpre, ht, ?_⟩
  have htaken : ¬o.unused t.taken = true := by simp [PumpOptions.unused, SourceSlot.taken]
  rw [PumpOptions.leftOver, List.filter_append, List.filter_eq_nil_iff.mpr hpre, List.nil_append,
    List.filter_cons_of_neg htaken]
  exact hes

theorem unspecified_position (hops : ops.EqualKinds) :
    ∀ (st : UnspecifiedState τ ν) {r : Pumped τ ν (UnspecifiedState τ ν)},
      st.ident.byPosition = true → (∀ x ∈ st.slots, ∀ d ∈ dst, x.arg.name ≠ d.name) →
      (∀ p ∈ (o.toBeFilled dst).zip (o.leftOver st.slots), ops.typesMatch p.1 p.2 = true) →
      unspecified ops o dst st = .ok r →
      (r.error = none ↔ (o.toBeFilled dst).length ≤ (o.leftOver st.slots).length) ∧
        (r.error = none → r.dst = o.give dst (o.leftOver st.slots) ∧
          o.leftOver r.left.slots = (o.leftOver st.slots).drop (o.toBeFilled dst).length) := by
  induction dst with
  | nil =>
    intro st r _ _ _ h
    obtain rfl := Except.ok.inj h
    exact ⟨⟨fun _ => Nat.zero_le _, fun _ => rfl⟩, fun _ => ⟨rfl, rfl⟩⟩
  | cons d ds ih =>
    intro st r hpos hnames htypes h
    have hnames' : ∀ x ∈ st.slots, ∀ e ∈ ds, x.arg.name ≠ e.name :=
      fun x hx e he => hnames x hx e (List.mem_cons_of_mem _ he)
    by_cases hd : o.toFill d = true
    · rw [toBeFilled_cons hd] at htypes ⊢
      cases hes : o.leftOver st.slots with
      | nil =>
        have hall : ∀ x ∈ st.slots, ¬o.unused x = true :=
          List.filter_eq_nil_iff.mp (List.map_eq_nil_iff.mp hes)
        by_cases hne : st.slots = []
        · rw [unspecified, pumpUp_raised (e := .constraintError) hd (by rw [hne]; rfl)] at h
          cases h
        · rw [unspecified, pumpUp_failed hd (fillUnspecified_exhausted hne hall [])] at h
          obtain rfl := Except.ok.inj h
          refine ⟨⟨?_, ?_⟩, ?_⟩
          all_goals rintro ⟨⟩
      | cons s es =>
        obtain ⟨pre, t, post, hslots, rfl, hpre, hu, hes'⟩ := leftOver_eq_cons hes
        rw [hes] at htypes
        have htm := htypes (d, t.arg) (List.mem_cons_self ..)
        have hmem : ∀ x ∈ t :: post, x ∈ st.slots := by
          intro x hx
          rw [hslots]
          exact List.mem_append_right _ hx
        obtain ⟨ident', hpos', hfill⟩ := fillUnspecified_position (o := o) hops hpre hu htm
          (fun x hx => hnames x (hmem x hx) d (List.mem_cons_self ..)) hpos []
        rw [← hslots] at hfill
        rw [unspecified, pumpUp_filled hd hfill] at h
        obtain ⟨r, hrun, rfl⟩ := map_eq_ok.mp h
        have hnext : ∀ x ∈ pre ++ t.taken :: post, ∀ e ∈ ds, x.arg.name ≠ e.name := by
          intro x hx e he
          rw [hslots] at hnames'
          rcases List.mem_append.mp hx with hx | hx
          · exact hnames' x (List.mem_append_left _ hx) e he
          · rcases List.mem_cons.mp hx with rfl | hx
            · exact hnames' t (List.mem_append_right _ (List.mem_cons_self ..)) e he
            · exact hnames' x (List.mem_append_right _ (List.mem_cons_of_mem _ hx)) e he
        obtain ⟨hiff, hres⟩ := ih { ident := ident', slots := pre ++ t.taken :: post } hpos'
          hnext (by
            rw [hes']
            exact fun p hp => htypes p (List.mem_cons_of_mem _ hp)) hrun
        rw [hes'] at hiff hres
        refine ⟨hiff.trans Nat.succ_le_succ_iff.symm, fun herr => ?_⟩
        obtain ⟨hdst, hleft⟩ := hres herr
        refine ⟨?_, hleft⟩
        rw [PumpOptions.give, if_pos hd, Pumped.cons, hdst]
    · have hd' : o.toFill d = false := Bool.eq_false_iff.mpr hd
      rw [toBeFilled_skip hd'] at htypes ⊢
      rw [unspecified, pumpUp_skip hd'] at h
      obtain ⟨r, hrun, rfl⟩ := map_eq_ok.mp h
      obtain ⟨hiff, hres⟩ := ih st hpos hnames' htypes hrun
      refine ⟨hiff, fun herr => ?_⟩
      obtain ⟨hdst, hleft⟩ := hres herr
      refine ⟨?_, hleft⟩
      rw [give_skip hd', Pumped.cons, hdst]

/-! ## Pump_Up_Arguments_Unspecified -/

theorem unspecifiedCorrect_iff (hops : ops.EqualKinds)
    (ho : o.direction = argIn ∨ o.direction = argOut) (dst src : List (NamedValue τ ν)) :
    UnspecifiedCorrect ops o dst src ↔ UnspecifiedSound o dst src := by
  have hpump : pumpUpArgumentsUnspecified ops o dst src =
      (unspecified ops o dst
        { ident := { byName := true, byPosition := true }, slots := startSlots src }).map
        (.append fun st => o.slotExtension st.slots) := by
    rw [pumpUpArgumentsUnspecified, if_neg (direction_ok ho)]
    rfl
  constructor
  · rintro ⟨_, h, -⟩
    by_contra hno
    obtain ⟨hdst, hsrc⟩ := not_or.mp hno
    obtain rfl := not_not.mp hsrc
    rw [hpump, startSlots, List.map_nil, unspecified_error hdst] at h
    cases h
  · intro hsound
    have hok : ∃ r, unspecified ops o dst
        { ident := { byName := true, byPosition := true }, slots := startSlots src } = .ok r :=
      unspecified_ok hops _ (hsound.imp_right fun hne h => hne (List.map_eq_nil_iff.mp h))
    obtain ⟨r, hr⟩ := hok
    refine ⟨_, by rw [hpump]; exact map_eq_ok.mpr ⟨r, hr, rfl⟩, ?_, ?_⟩
    · intro hdst hsrc hnamed
      have hres := namedResult_of_ok UnspecifiedState.slots (fun st => st.ident.byName = true) ?_ hsrc hdst hnamed rfl rfl hr
      · exact ⟨⟨fun _ => hnamed, fun _ => hres.1⟩, fun _ => hres.2⟩
      · intro d st f hname hex hf
        obtain ⟨d', st', slots', rfl, htakes, hsl, hname'⟩ := takes_of_fillUnspecified hops hname hex hf
        rw [List.nil_append] at hsl
        rw [← hsl] at htakes
        exact ⟨d', st', rfl, htakes, hname'⟩
    · rintro ⟨hnames, htypes⟩
      have hslots : ∀ x ∈ startSlots src, ∀ d ∈ dst, x.arg.name ≠ d.name :=
        fun x hx d hd => hnames x.arg (mem_startSlots hx).1 d hd
      obtain ⟨hiff, hres⟩ := unspecified_position hops _ rfl hslots
        (by rw [leftOver_startSlots]; exact htypes) hr
      rw [leftOver_startSlots] at hiff hres
      have hext : o.slotExtension r.left.slots =
          if o.canExtend = true then o.leftOver r.left.slots else [] := rfl
      by_cases herr : r.error = none
      · obtain ⟨hdst, hleft⟩ := hres herr
        rw [Pumped.append, if_pos herr]
        refine ⟨hiff, fun _ => ?_⟩
        rw [PumpOptions.positionResult, hext, hdst, hleft]
      · rw [Pumped.append, if_neg herr]
        exact ⟨hiff, fun h => absurd h herr⟩

/-! ## The three procedures -/

/-- Each procedure does what it owes to its caller exactly when its condition holds. -/
theorem pumpUpArguments_correct_iff (hops : ops.EqualKinds)
    (ho : o.direction = argIn ∨ o.direction = argOut) (dst src : List (NamedValue τ ν)) :
    (PositionCorrect ops o dst src ↔ PositionSound ops o dst src) ∧
      (NameCorrect ops o dst src ↔ NameSound ops o dst src) ∧
      (UnspecifiedCorrect ops o dst src ↔ UnspecifiedSound o dst src) :=
  ⟨positionCorrect_iff ho dst src, nameCorrect_iff hops ho dst src,
    unspecifiedCorrect_iff hops ho dst src⟩

/-- Anys of which only the kind of the typecode matters. -/
def kindOperations : AnyOperations TCKind Nat where
  equal t u := t == u
  kind := id
  copyContent _ _ _ v := v.elim (.error .constraintError) .ok

theorem equalKinds_kindOperations : kindOperations.EqualKinds := fun _ _ h => beq_iff_eq.mp h

def longArgument (name : String) (value : Option Nat) : NamedValue TCKind Nat :=
  { name, unwoundType := .tkLong, value, argModes := argIn }

def inOptions : PumpOptions := { direction := argIn, ignoreSrcMode := false, canExtend := true }

/-- Two source arguments, in the opposite order of the destination, and one more. -/
theorem pumpUpArguments_correct_reversed :
    PositionCorrect kindOperations inOptions [longArgument "a" none, longArgument "b" none]
        [longArgument "b" (some 2), longArgument "a" (some 1), longArgument "c" (some 3)] ∧
      NameCorrect kindOperations inOptions [longArgument "a" none, longArgument "b" none]
        [longArgument "b" (some 2), longArgument "a" (some 1), longArgument "c" (some 3)] ∧
      UnspecifiedCorrect kindOperations inOptions [longArgument "a" none, longArgument "b" none]
        [longArgument "b" (some 2), longArgument "a" (some 1), longArgument "c" (some 3)] := by
  obtain ⟨hp, hn, hu⟩ := pumpUpArguments_correct_iff (o := inOptions) equalKinds_kindOperations
    (.inl rfl) [longArgument "a" none, longArgument "b" none]
    [longArgument "b" (some 2), longArgument "a" (some 1), longArgument "c" (some 3)]
  refine ⟨hp.mpr ?_, hn.mpr (.inl ?_), hu.mpr (.inr (List.cons_ne_nil _ _))⟩
  · intro p hp
    have hp' : p ∈ [(longArgument "a" none, longArgument "b" (some 2)),
        (longArgument "b" none, longArgument "a" (some 1))] := hp
    rcases List.mem_cons.mp hp' with rfl | hp'
    · exact ⟨_, rfl⟩
    · rw [List.mem_singleton.mp hp']
      exact ⟨_, rfl⟩
  · refine ⟨[longArgument "b" (some 2)], longArgument "a" (some 1), [longArgument "c" (some 3)], rfl,
      by decide, rfl, rfl, [], longArgument "b" (some 2), [], rfl, ?_, rfl, rfl, trivial⟩
    rintro x ⟨⟩

/-- With two arguments in the same order on both sides, the second search by name does not end. -/
theorem not_pumpUpArguments_correct :
    ¬∀ dst src : List (NamedValue TCKind Nat),
      PositionCorrect kindOperations inOptions dst src ∧
        NameCorrect kindOperations inOptions dst src ∧
        UnspecifiedCorrect kindOperations inOptions dst src := by
  intro hall
  have h := (hall [longArgument "a" none, longArgument "b" none]
    [longArgument "a" (some 1), longArgument "b" (some 2)]).2.1
  rcases (nameCorrect_iff equalKinds_kindOperations (.inl rfl) _ _).mp h with hfound | hmissing
  · obtain ⟨before, s, after, hsrc, hbefore, -, -, hrest⟩ := hfound
    cases before with
    | nil =>
      obtain ⟨before', s', after', hnil, -⟩ := hrest
      cases before' <;> cases hnil
    | cons x before =>
      obtain ⟨rfl, -⟩ := List.cons.inj hsrc
      exact absurd (hbefore _ (List.mem_cons_self ..)).2 (by decide)
  · exact absurd (hmissing.2 _ (List.mem_cons_self ..)).2 (by decide)

end PolyORB

import PolyORB.Cdr.FastPath

/-!
# The round trip of every plain value

The branches of ValueRoundTrip and FastPath are put together by induction on the nesting depth of
the typecode.  The reader looks a union member up with the label it has read, which is held by
another aggregate than the one that was written.
-/

namespace PolyORB

open Buffer
open Program (onlyIf raiseIf evaluate)

variable {cfg : Config} {R : Primitives} {h : Heap} {order : Endianness}
variable {mtc : TcRef → CdrProg Unit} {utc : DecodeProg TcRef}

/-! ## The label that was read -/

theorem enumPosition_single (k : TCKind) (direct : Bool) (v : Nat) :
    Heap.enumPosition (.aggregate k direct [.elementary .tkUlong v]) = .ok v := by
  cases direct <;> rfl

theorem scanLabels_congr {structured : Heap → TcRef → Content → Content → Except Exn Bool}
    {tc t : TcRef} {label label' : Content} (ht : Heap.discriminatorType h tc = .ok t)
    (heq : ∀ left, Heap.anyContainerEq h structured t left label =
      Heap.anyContainerEq h structured t left label') (defIndex : Int) (count index : Nat) :
    Heap.scanLabels h structured tc label defIndex count index =
      Heap.scanLabels h structured tc label' defIndex count index := by
  induction count generalizing index with
  | zero => rfl
  | succ count ih =>
    simp [Heap.scanLabels, ih, ht, heq, bind, Except.bind]

variable {d : Nat}

theorem memberTypeWithLabel_plain {tc t : TcRef} {label : Content}
    (ht : Heap.discriminatorType h tc = .ok t) (hdisc : IsDiscriminator h t)
    (hc : Conforms cfg h d t label) :
    Heap.memberTypeWithLabel h cfg.structuredEq tc ⟨t, label.plain⟩ =
      Heap.memberTypeWithLabel h cfg.structuredEq tc ⟨t, label⟩ := by
  cases d with
  | zero => exact hc.elim
  | succ d =>
    obtain ⟨u, hu, hkind⟩ := hdisc
    obtain ⟨u', hu', hcase⟩ := hc
    obtain rfl := Except.ok.inj (hu.symm.trans hu')
    rcases hkind with hscalar | henum
    · obtain ⟨v, rfl⟩ : ∃ v, label = .elementary (Heap.kind h u) v := by
        cases hk : Heap.kind h u <;> rw [hk] at hscalar <;> first
          | exact absurd hscalar (by decide)
          | (simp only [hk] at hcase
             obtain ⟨-, v, hv, -⟩ := hcase
             exact ⟨v, hv⟩)
      rfl
    · simp only [henum] at hcase
      obtain ⟨direct, v, rfl, -⟩ := hcase
      have hpos : Heap.enumPosition (Content.aggregate .tkEnum direct [.elementary .tkUlong v]).plain =
          Heap.enumPosition (.aggregate .tkEnum direct [.elementary .tkUlong v]) := by
        rw [Content.plain_aggregate, enumPosition_single]
        exact enumPosition_single _ _ _
      have heq : ∀ left, Heap.anyContainerEq h cfg.structuredEq t left
            (Content.aggregate .tkEnum direct [.elementary .tkUlong v]).plain =
          Heap.anyContainerEq h cfg.structuredEq t left
            (.aggregate .tkEnum direct [.elementary .tkUlong v]) := by
        intro left
        simp only [Heap.anyContainerEq, hu, bind, Except.bind, henum, hpos]
      have hfrom : Heap.posFromAny h
            ⟨t, (Content.aggregate .tkEnum direct [.elementary .tkUlong v]).plain⟩ =
          Heap.posFromAny h ⟨t, .aggregate .tkEnum direct [.elementary .tkUlong v]⟩ := by
        simp only [Heap.posFromAny]
        by_cases hk : Heap.kind h t = .tkAlias
        · rw [hk]
        · rw [unwindTypedefs_of_kind hk] at hu
          obtain rfl := Except.ok.inj hu
          rw [henum]
          exact hpos
      simp only [Heap.memberTypeWithLabel, Heap.labelToMember, hfrom,
        scanLabels_congr ht heq]

/-! ## The induction -/

theorem isGettable_of_discriminator {t : TcRef} {label : Content} (direct : Bool)
    (hdisc : IsDiscriminator h t) (hc : Conforms cfg h d t label) : IsGettable direct label := by
  cases d with
  | zero => exact hc.elim
  | succ d =>
    obtain ⟨u, hu, hkind⟩ := hdisc
    obtain ⟨u', hu', hcase⟩ := hc
    obtain rfl := Except.ok.inj (hu.symm.trans hu')
    intro _
    cases hk : Heap.kind h u <;> rw [hk] at hkind <;> simp only [hk] at hcase <;> first
      | exact absurd hkind (by decide)
      | (obtain ⟨-, v, rfl, -⟩ := hcase
         rfl)

theorem marshallable_label {t : TcRef} {label : Content} (hdisc : IsDiscriminator h t)
    (hc : Conforms cfg h d t label) : Marshallable cfg h order d t label := by
  cases d with
  | zero => exact hc.elim
  | succ d =>
    obtain ⟨u, hu, hkind⟩ := hdisc
    refine ⟨u, hu, ?_⟩
    cases hk : Heap.kind h u <;> rw [hk] at hkind <;> first
      | exact absurd hkind (by decide)
      | trivial

theorem discriminatorType_parameter {tc t : TcRef} (ht : Heap.discriminatorType h tc = .ok t) :
    Heap.getTypeParameter h tc 2 = .ok t := by
  unfold Heap.discriminatorType at ht
  split at ht
  · exact ht
  · cases ht

theorem memberTypeWithLabel_parameter {tc m : TcRef} {label : Container}
    (hm : Heap.memberTypeWithLabel h cfg.structuredEq tc label = .ok m)
    (hv : Heap.kind h m ≠ .tkVoid) : ∃ j, Heap.getTypeParameter h tc j = .ok m := by
  unfold Heap.memberTypeWithLabel at hm
  split_ifs at hm with hk
  cases hl : Heap.labelToMember h cfg.structuredEq tc label with
  | error e =>
    rw [hl] at hm
    cases hm
  | ok i =>
    simp only [hl, bind, Except.bind] at hm
    split_ifs at hm with h1 h2
    · obtain rfl := Except.ok.inj hm
      exact absurd rfl hv
    · exact ⟨_, hm⟩

theorem conforms_unwound {ctc tc : TcRef} {c : Content}
    (hu : Heap.unwindTypedefs h ctc = .ok tc) (hc : Conforms cfg h (d + 1) ctc c) :
    Conforms cfg h (d + 1) tc c := by
  obtain ⟨t, hu', hcase⟩ := hc
  obtain rfl := Except.ok.inj (hu.symm.trans hu')
  exact ⟨tc, unwindTypedefs_unwound hu, hcase⟩

theorem marshallable_unwound {ctc tc : TcRef} {c : Content}
    (hu : Heap.unwindTypedefs h ctc = .ok tc) (hm : Marshallable cfg h order (d + 1) ctc c) :
    Marshallable cfg h order (d + 1) tc c := by
  obtain ⟨t, hu', hcase⟩ := hm
  obtain rfl := Except.ok.inj (hu.symm.trans hu')
  exact ⟨tc, unwindTypedefs_unwound hu, hcase⟩

theorem fastPathGetInfo_of_le {fuel : Nat} {tc : TcRef} (hd : IsData h d tc) (hle : d ≤ fuel)
    (c : Content) (count : Nat) :
    fastPathGetInfo cfg h fuel c count tc order = fastPathGetInfo cfg h d c count tc order := by
  obtain ⟨t, hu⟩ := hd.unwinds
  have hdt : IsData h d t := by
    cases d with
    | zero => exact hd.elim
    | succ d => exact isData_unwound hu hd
  obtain ⟨r, hr⟩ := fastPathElements_ok hdt count (le_refl d) true 1
  simp [fastPathGetInfo, hu, bind, Except.bind, hr, fastPathElements_mono hle hr]

theorem exists_fastPathGetInfo (cfg : Config) (order : Endianness) {tc : TcRef}
    (hd : IsData h d tc) (c : Content) (count : Nat) : ∃ r, fastPathGetInfo cfg h d c count tc order = .ok r := by
  obtain ⟨t, hu⟩ := hd.unwinds
  have hdt : IsData h d t := by
    cases d with
    | zero => exact hd.elim
    | succ d => exact isData_unwound hu hd
  obtain ⟨r, hr⟩ := fastPathElements_ok hdt count (le_refl d) true 1
  simp only [fastPathGetInfo, hu, bind, Except.bind, hr]
  split_ifs
  · exact ⟨_, rfl⟩
  · exact ⟨_, rfl⟩
  · exact ⟨_, rfl⟩
  · exact ⟨_, rfl⟩

theorem transfers_unsignedLong {fuel : Nat} (hfuel : 0 < fuel) {v : Nat} (hv : v < 2 ^ 32)
    {b : Buffer} (hb : b.AtEnd) :
    ∃ b', Transfers h (marshallFromAny cfg R h mtc fuel (.ptc .tkUlong) (.elementary .tkUlong v))
      (unmarshallUnsignedLong cfg) v b b' := by
  obtain ⟨fuel, rfl⟩ : ∃ f, fuel = f + 1 := ⟨fuel - 1, by omega⟩
  have hu : Heap.unwindTypedefs h (.ptc .tkUlong) = .ok (.ptc .tkUlong) :=
    unwindTypedefs_of_kind (by rintro ⟨⟩)
  obtain ⟨b', ht⟩ := Transfers.elementary (h := h) cfg hb (show 0 < 4 by decide)
    (show v < 256 ^ 4 from hv)
  refine ⟨b', ht.encode ?_⟩
  have hfrom : Heap.fromAny h .tkUlong ⟨.ptc .tkUlong, .elementary .tkUlong v⟩ = .ok v :=
    fromAny_elementary hu rfl
  rw [marshallFromAny_eq hu]
  simp only [Heap.kind, marshallCase]
  rfl

theorem carries_data : ∀ {fuel fuel' : Nat} {ctc ctc' tc : TcRef} {c : Content},
    d < fuel → d < fuel' → Heap.unwindTypedefs h ctc = .ok tc →
    Heap.unwindTypedefs h ctc' = .ok tc → IsData h d tc → Conforms cfg h d tc c →
    Marshallable cfg h order d tc c →
    Carries h order (marshallFromAny cfg R h mtc fuel) (unmarshallToAny cfg R utc fuel') ctc ctc'
      c := by
  induction d with
  | zero =>
    intro _ _ _ _ _ _ _ _ _ _ hd
    exact hd.elim
  | succ d ih =>
    intro fuel fuel' ctc ctc' tc c hfuel hfuel' hu hu' hd hc hm
    obtain ⟨fuel, rfl⟩ : ∃ f, fuel = f + 1 := ⟨fuel - 1, by omega⟩
    obtain ⟨fuel', rfl⟩ : ∃ f, fuel' = f + 1 := ⟨fuel' - 1, by omega⟩
    have hut := unwindTypedefs_unwound hu
    have hd₀ := hd
    have hc₀ := hc
    -- an element of type `t` is written for the unwound type, and read for `t`
    have hsub : ∀ {t : TcRef} {el : Content}, IsData h d t → Conforms cfg h d t el →
        Marshallable cfg h order d t el → ∃ u, Heap.unwindTypedefs h t = .ok u ∧
          Carries h order (marshallFromAny cfg R h mtc fuel) (unmarshallToAny cfg R utc fuel') u t
            el ∧
          Carries h order (marshallFromAny cfg R h mtc fuel) (unmarshallToAny cfg R utc fuel') t t
            el := by
      intro t el hdt hct hmt
      obtain ⟨u, hu₁⟩ := hdt.unwinds
      cases d with
      | zero => exact hdt.elim
      | succ d =>
        have hdu := isData_unwound hu₁ hdt
        have hcu := conforms_unwound hu₁ hct
        have hmu := marshallable_unwound hu₁ hmt
        exact ⟨u, hu₁,
          ih (by omega) (by omega) (unwindTypedefs_unwound hu₁) hu₁ hdu hcu hmu,
          ih (by omega) (by omega) hu₁ hu₁ hdu hcu hmu⟩
    refine carries_of_case hu hu' fun b hb ho => ?_
    obtain ⟨_, e₁, hdata⟩ := hd
    obtain rfl := Except.ok.inj (hut.symm.trans e₁)
    obtain ⟨_, e₂, hval⟩ := hc
    obtain rfl := Except.ok.inj (hut.symm.trans e₂)
    obtain ⟨_, e₃, hmar⟩ := hm
    obtain rfl := Except.ok.inj (hut.symm.trans e₃)
    by_cases hscalar : isScalarKind (Heap.kind h tc) = true
    · obtain ⟨v, rfl, hv⟩ : ∃ v, c = .elementary (Heap.kind h tc) v ∧
          v < scalarModulus (Heap.kind h tc) := by
        cases hk : Heap.kind h tc <;> rw [hk] at hscalar <;> first
          | exact absurd hscalar (by decide)
          | (simp only [hk] at hval
             exact hval.2)
      exact transfers_scalar hscalar hv hu rfl hb
    cases hk : Heap.kind h tc with
    | tkNull =>
      simp only [hk] at hval
      subst hval
      exact transfers_nothing (.inl rfl) hb
    | tkVoid =>
      simp only [hk] at hval
      subst hval
      exact transfers_nothing (.inr rfl) hb
    | tkEnum =>
      simp only [hk] at hval
      obtain ⟨direct, v, rfl, hv⟩ := hval
      have hul : Heap.unwindTypedefs h (.ptc .tkUlong) = .ok (.ptc .tkUlong) :=
        unwindTypedefs_of_kind (by rintro ⟨⟩)
      refine transfers_enum hk ?_ hb ho
      obtain ⟨fuel, rfl⟩ : ∃ f, fuel = f + 1 := ⟨fuel - 1, by omega⟩
      obtain ⟨fuel', rfl⟩ : ∃ f, fuel' = f + 1 := ⟨fuel' - 1, by omega⟩
      exact carries_of_case hul hul fun b hb _ =>
        transfers_scalar (k := .tkUlong) rfl hv hul rfl hb
    | tkStruct | tkExcept =>
      simp only [hk] at hdata hval
      obtain ⟨n, hn, hmembers⟩ := hdata
      obtain ⟨direct, els, rfl, hlt, hcount, hels⟩ := hval
      obtain rfl := Except.ok.inj (hn.symm.trans hcount)
      simp only [hk] at hmar
      refine transfers_struct (by simp) hk hcount hlt (fun j el hj => ?_) hb ho
      have hjlt : j < els.length := (List.getElem?_eq_some_iff.mp hj).1
      obtain ⟨t, ht, hdt⟩ := hmembers j hjlt
      obtain ⟨t', ht', hct⟩ := hels j el hj
      obtain rfl := Except.ok.inj (ht.symm.trans ht')
      obtain ⟨hg, hmt⟩ := hmar j el t hj ht
      obtain ⟨u, -, -, hcar⟩ := hsub hdt hct hmt
      exact ⟨t, ht, hg, hcar⟩
    | tkUnion =>
      simp only [hk] at hdata hval
      obtain ⟨⟨t, ht, hdisc⟩, hmembers, -, -⟩ := hdata
      obtain ⟨direct, label, rest, t', rfl, ht', hlabel, hmember⟩ := hval
      obtain rfl := Except.ok.inj (ht.symm.trans ht')
      simp only [hk] at hmar
      obtain ⟨hcount, hrest⟩ := hmar
      obtain ⟨m, hm, hsel⟩ : ∃ m,
          Heap.memberTypeWithLabel h cfg.structuredEq tc ⟨t, label⟩ = .ok m ∧
          if Heap.kind h m = .tkVoid then rest = [] else ∃ v, rest = [v] ∧ Conforms cfg h d m v := by
        rcases hmember with ⟨hzero, -⟩ | hmember
        · exact absurd hzero hcount
        · exact hmember
      have hdt : IsData h d t := hmembers 2 t (discriminatorType_parameter ht)
      obtain ⟨u, -, -, hcar⟩ := hsub hdt hlabel (marshallable_label hdisc hlabel)
      refine transfers_union hk ht ⟨isGettable_of_discriminator direct hdisc hlabel, hcar⟩ hm
        ((memberTypeWithLabel_plain ht hdisc hlabel).trans hm) ?_ hb ho
      by_cases hv : Heap.kind h m = .tkVoid
      · rw [if_pos hv] at hsel ⊢
        exact hsel
      · rw [if_neg hv] at hsel ⊢
        obtain ⟨v, rfl, hcm⟩ := hsel
        obtain ⟨hg, hmt⟩ := hrest v (List.mem_singleton_self v)
        obtain ⟨j, hj⟩ := memberTypeWithLabel_parameter hm hv
        obtain ⟨u, -, -, hcar⟩ := hsub (hmembers j m hj) hcm (hmt t m ht hm)
        exact ⟨v, rfl, hg, hcar⟩
    | tkSequence =>
      simp only [hk] at hdata hval
      obtain ⟨n, t, hn, ht, hdt⟩ := hdata
      obtain ⟨direct, els, bound, t', rfl, hlt, hl, hbound, ht', hels⟩ := hval
      obtain rfl := Except.ok.inj (ht.symm.trans ht')
      obtain ⟨u, hut'⟩ := hdt.unwinds
      obtain ⟨info, hinfo⟩ := exists_fastPathGetInfo cfg order hd₀
        (.aggregate .tkSequence direct (.elementary .tkUlong els.length :: els)) (els.length + 1)
      have hle := (fastPathGetInfo_of_le hd₀ (show d + 1 ≤ fuel + 1 by omega) _ _).trans hinfo
      simp only [hk, List.length_cons, hinfo] at hmar
      cases info with
      | some info =>
        obtain ⟨hhost, hsize⟩ := hmar
        exact transfers_typedSequence hk hd₀ hl hbound ht hels hlt (by omega) (by omega) hle hsize hb
          ho hhost
      | none =>
        refine transfers_sequence hk hl hbound ht hut' hlt (fastPathElements_ok hd₀ _ (by omega) _ _)
          hle (fun b hb => transfers_unsignedLong (by omega) (by omega) hb) (fun el hel => ?_) hb ho
        obtain ⟨j, hj⟩ := List.mem_iff_getElem?.mp hel
        obtain ⟨hg, hmt⟩ := hmar (j + 1) el t (fun _ => Nat.succ_pos j)
          (by rw [List.getElem?_cons_succ, hj]) ht
        obtain ⟨u', hu'', hcar, -⟩ := hsub hdt (hels el hel) hmt
        obtain rfl := Except.ok.inj (hut'.symm.trans hu'')
        exact ⟨hg, hcar⟩
    | tkArray =>
      simp only [hk] at hdata hval
      obtain ⟨n, t, hn, -, ht, hdt⟩ := hdata
      obtain ⟨direct, els, t', rfl, hlt, hl, ht', hels⟩ := hval
      obtain rfl := Except.ok.inj (ht.symm.trans ht')
      obtain ⟨u, hut'⟩ := hdt.unwinds
      obtain ⟨info, hinfo⟩ := exists_fastPathGetInfo cfg order hd₀
        (.aggregate .tkArray direct els) els.length
      have hle := (fastPathGetInfo_of_le hd₀ (show d + 1 ≤ fuel + 1 by omega) _ _).trans hinfo
      simp only [hk, hinfo] at hmar
      cases info with
      | some info =>
        obtain ⟨hhost, hsize⟩ := hmar
        exact transfers_typedArray hk hd₀ hc₀ (by omega) (by omega) hle hsize hb ho hhost
      | none =>
        refine transfers_array hk hl ht hut' hlt (fastPathElements_ok hd₀ _ (by omega) _ _)
          (fun _ => hle) (fun el hel => ?_) hb ho
        obtain ⟨j, hj⟩ := List.mem_iff_getElem?.mp hel
        obtain ⟨hg, hmt⟩ := hmar j el t (by rintro ⟨⟩) hj ht
        obtain ⟨u', hu'', hcar, -⟩ := hsub hdt (hels el hel) hmt
        obtain rfl := Except.ok.inj (hut'.symm.trans hu'')
        exact ⟨hg, hcar⟩
    | tkValuebox =>
      simp only [hk] at hdata hval
      obtain ⟨t, ht, hdt⟩ := hdata
      obtain ⟨direct, els, rfl, hels⟩ := hval
      simp only [hk] at hmar
      refine transfers_valuebox ?_ hb ho
      rcases hels with rfl | ⟨el, t', rfl, ht', hct⟩
      · exact .inl rfl
      · obtain rfl := Except.ok.inj (ht.symm.trans ht')
        obtain ⟨hg, hmt⟩ := hmar el (List.mem_singleton_self el) t ht
        obtain ⟨u, -, -, hcar⟩ := hsub hdt hct hmt
        exact .inr ⟨el, t, rfl, ht, hg, hcar⟩
    | _ =>
      simp only [hk] at hdata
      first
        | exact absurd hdata (by decide)
        | exact absurd rfl (hk ▸ hscalar)

end PolyORB

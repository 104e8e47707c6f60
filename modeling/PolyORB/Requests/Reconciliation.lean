import PolyORB.Requests.Arguments

/-!
# What reconciliation owes to its caller

The arguments to fill are those of the destination list whose mode concerns the direction.  By
position they receive the eligible source arguments in order, by name the one that has their name
and type.
-/

namespace PolyORB

variable {τ ν σ : Type}

namespace PumpOptions

variable (o : PumpOptions)

/-- The destination, when each argument to fill receives the next of the values. -/
def give : List (NamedValue τ ν) → List (NamedValue τ ν) → List (NamedValue τ ν)
  | [], _ => []
  | d :: ds, [] => d :: ds
  | d :: ds, s :: es =>
    if o.toFill d = true then { d with value := s.value } :: give ds es else d :: give ds (s :: es)

def toBeFilled (dst : List (NamedValue τ ν)) : List (NamedValue τ ν) := dst.filter o.toFill

def eligibles (src : List (NamedValue τ ν)) : List (NamedValue τ ν) := src.filter o.eligible

def positionResult (dst src : List (NamedValue τ ν)) : List (NamedValue τ ν) :=
  o.give dst (o.eligibles src) ++
    if o.canExtend = true then (o.eligibles src).drop (o.toBeFilled dst).length else []

variable (ops : AnyOperations τ ν)

/-- The argument, with the value of the eligible source argument of its name and type. -/
def receive (src : List (NamedValue τ ν)) (d : NamedValue τ ν) : NamedValue τ ν :=
  if o.toFill d = true then
    match src.find? fun s => o.eligible s && ops.argumentsMatch d s with
    | some s => { d with value := s.value }
    | none => d
  else d

def namedResult (dst src : List (NamedValue τ ν)) : List (NamedValue τ ν) :=
  dst.map (o.receive ops src) ++
    if o.canExtend = true then
      (o.eligibles src).filter fun s => !(o.toBeFilled dst).any (ops.argumentsMatch · s)
    else []

/-- Each argument to fill has an eligible source argument of its name and type. -/
def AllNamed (dst src : List (NamedValue τ ν)) : Prop :=
  ∀ d ∈ o.toBeFilled dst, ∃ s ∈ src, o.eligible s = true ∧ ops.argumentsMatch d s = true

/-- The types agree in order, and no source argument has a name of the destination. -/
def AgreeByPosition (dst src : List (NamedValue τ ν)) : Prop :=
  (∀ s ∈ src, ∀ d ∈ dst, s.name ≠ d.name) ∧
    ∀ p ∈ (o.toBeFilled dst).zip (o.eligibles src), ops.typesMatch p.1 p.2 = true

end PumpOptions

def DistinctNames (args : List (NamedValue τ ν)) : Prop := (args.map NamedValue.name).Nodup

section Statements

variable (ops : AnyOperations τ ν) (o : PumpOptions) (dst src : List (NamedValue τ ν))

/-- The result is what identification by position asks for. -/
def Pumped.IsByPosition (r : Pumped τ ν σ) : Prop :=
  (r.error = none ↔ (o.toBeFilled dst).length ≤ (o.eligibles src).length) ∧
    (r.error = none → r.dst = o.positionResult dst src)

/-- The result is what identification by name asks for. -/
def Pumped.IsByName (r : Pumped τ ν σ) : Prop :=
  (r.error = none ↔ o.AllNamed ops dst src) ∧ (r.error = none → r.dst = o.namedResult ops dst src)

def PositionCorrect : Prop :=
  ∃ r, pumpUpArgumentsByPosition ops o dst src = .ok r ∧ r.IsByPosition o dst src

def NameCorrect : Prop :=
  ∃ fuel r, pumpUpArgumentsByName ops o fuel dst src = .ok r ∧
    (DistinctNames dst → DistinctNames src → r.IsByName ops o dst src)

def UnspecifiedCorrect : Prop :=
  ∃ r, pumpUpArgumentsUnspecified ops o dst src = .ok r ∧
    (DistinctNames dst → DistinctNames src → o.AllNamed ops dst src → r.IsByName ops o dst src) ∧
    (o.AgreeByPosition ops dst src → r.IsByPosition o dst src)

/-- The value of `s` can be given to `d`. -/
def AnyOperations.Gives (d s : NamedValue τ ν) : Prop :=
  ∃ s', ops.transfer d s = .ok ({ d with value := s.value }, s')

def AnyOperations.Transfers (d s : NamedValue τ ν) : Prop := ∃ r, ops.transfer d s = .ok r

/-- The eligible arguments can be given to those to fill; if there are too few, the source list ends
with an argument that is not eligible. -/
def PositionSound : Prop :=
  if (o.toBeFilled dst).length ≤ (o.eligibles src).length then
    ∀ p ∈ (o.toBeFilled dst).zip (o.eligibles src), ops.Gives p.1 p.2
  else
    (∀ p ∈ (o.toBeFilled dst).zip (o.eligibles src), ops.Transfers p.1 p.2) ∧
      ∃ s, src.getLast? = some s ∧ o.eligible s = false

/-- Each argument finds its source argument before that of the preceding one, and only eligible
ones before. -/
def PumpOptions.FoundBackward : List (NamedValue τ ν) → List (NamedValue τ ν) → Prop
  | [], _ => True
  | d :: ds, src =>
    ∃ before s after, src = before ++ s :: after ∧
      (∀ x ∈ before, o.eligible x = true ∧ ops.argumentsMatch d x = false) ∧
      o.eligible s = true ∧ ops.argumentsMatch d s = true ∧
      FoundBackward ds before

/-- The first argument to fill is looked for in vain, among source arguments that are all
eligible. -/
def PumpOptions.FirstMissing : List (NamedValue τ ν) → List (NamedValue τ ν) → Prop
  | [], _ => False
  | d :: _, src => src ≠ [] ∧ ∀ x ∈ src, o.eligible x = true ∧ ops.argumentsMatch d x = false

def NameSound : Prop :=
  o.FoundBackward ops (o.toBeFilled dst) src ∨ o.FirstMissing ops (o.toBeFilled dst) src

def UnspecifiedSound : Prop := o.toBeFilled dst = [] ∨ src ≠ []

end Statements

/-! ## The loop over the destination -/

section Loop

variable {o : PumpOptions} {fill : NamedValue τ ν → σ → Except Exn (Filling τ ν σ)}
  {d : NamedValue τ ν} {ds : List (NamedValue τ ν)} {left : σ}

theorem pumpUp_skip (h : o.toFill d = false) :
    o.pumpUp fill (d :: ds) left = (o.pumpUp fill ds left).map (.cons d) := by
  rw [PumpOptions.pumpUp, if_neg (by rw [h]; exact Bool.false_ne_true)]

theorem pumpUp_filled {d' : NamedValue τ ν} {left' : σ} (h : o.toFill d = true)
    (hf : fill d left = .ok (.filled d' left')) :
    o.pumpUp fill (d :: ds) left = (o.pumpUp fill ds left').map (.cons d') := by
  rw [PumpOptions.pumpUp, if_pos h, hf]

theorem pumpUp_failed {e : SysError} (h : o.toFill d = true)
    (hf : fill d left = .ok (.failed e)) :
    o.pumpUp fill (d :: ds) left = .ok { dst := d :: ds, left, error := some e } := by
  rw [PumpOptions.pumpUp, if_pos h, hf]

theorem pumpUp_raised {e : Exn} (h : o.toFill d = true) (hf : fill d left = .error e) :
    o.pumpUp fill (d :: ds) left = .error e := by
  rw [PumpOptions.pumpUp, if_pos h, hf]

theorem toBeFilled_skip (h : o.toFill d = false) : o.toBeFilled (d :: ds) = o.toBeFilled ds :=
  List.filter_cons_of_neg (by rw [h]; exact Bool.false_ne_true)

theorem toBeFilled_cons (h : o.toFill d = true) : o.toBeFilled (d :: ds) = d :: o.toBeFilled ds :=
  List.filter_cons_of_pos h

end Loop

theorem give_nil {o : PumpOptions} (ds : List (NamedValue τ ν)) : o.give ds [] = ds := by
  cases ds <;> rfl

theorem give_skip {o : PumpOptions} {d : NamedValue τ ν} {ds es : List (NamedValue τ ν)}
    (h : o.toFill d = false) : o.give (d :: ds) es = d :: o.give ds es := by
  cases es with
  | nil => rw [give_nil, give_nil]
  | cons s es => rw [PumpOptions.give, if_neg (by rw [h]; exact Bool.false_ne_true)]

theorem direction_ok {o : PumpOptions} (h : o.direction = argIn ∨ o.direction = argOut) :
    ¬(o.direction ≠ argIn ∧ o.direction ≠ argOut) := by
  rintro ⟨h1, h2⟩
  rcases h with h | h
  · exact h1 h
  · exact h2 h

theorem map_eq_ok {ε α β : Type} {x : Except ε α} {f : α → β} {b : β} :
    x.map f = .ok b ↔ ∃ a, x = .ok a ∧ f a = b := by
  cases x with
  | error e =>
    constructor
    · intro h
      cases h
    · rintro ⟨a, h, -⟩
      cases h
  | ok a =>
    constructor
    · intro h
      exact ⟨a, rfl, Except.ok.inj h⟩
    · rintro ⟨a', h, rfl⟩
      cases h
      rfl

/-! ## By position -/

section ByPosition

variable {ops : AnyOperations τ ν} {o : PumpOptions} {d : NamedValue τ ν}

variable {rest dst : List (NamedValue τ ν)}

theorem fillByPosition_skip {pre : List (NamedValue τ ν)}
    (hpre : ∀ x ∈ pre, ¬o.eligible x = true) (hrest : rest ≠ []) (passed : List (NamedValue τ ν)) :
    fillByPosition ops o d passed (pre ++ rest) = fillByPosition ops o d (passed ++ pre) rest := by
  induction pre generalizing passed with
  | nil => rw [List.nil_append, List.append_nil]
  | cons x pre ih =>
    have hne : ¬(pre ++ rest).isEmpty = true := by
      rw [List.isEmpty_iff]
      exact List.append_ne_nil_of_right_ne_nil _ hrest
    rw [List.cons_append, fillByPosition, if_neg (hpre x (List.mem_cons_self ..)), if_neg hne,
      ih (fun y hy => hpre y (List.mem_cons_of_mem _ hy)), List.append_assoc]
    rfl

variable {s : NamedValue τ ν}

theorem fillByPosition_ok {d' s' : NamedValue τ ν} (hs : o.eligible s = true)
    (ht : ops.transfer d s = .ok (d', s')) (passed rest : List (NamedValue τ ν)) :
    fillByPosition ops o d passed (s :: rest) =
      .ok (.filled d' { passed := passed ++ [s'], rest }) := by
  rw [fillByPosition, if_pos hs, ht]

theorem fillByPosition_error {e : Exn} (hs : o.eligible s = true)
    (ht : ops.transfer d s = .error e) (passed rest : List (NamedValue τ ν)) :
    fillByPosition ops o d passed (s :: rest) = .error e := by
  rw [fillByPosition, if_pos hs, ht]

theorem fillByPosition_none (hne : rest ≠ [])
    (h : o.eligibles rest = []) (passed : List (NamedValue τ ν)) :
    fillByPosition ops o d passed rest = .ok (.failed argumentNotFound) := by
  induction rest generalizing passed with
  | nil => exact absurd rfl hne
  | cons s rest ih =>
    have hs : ¬o.eligible s = true := List.filter_eq_nil_iff.mp h s (List.mem_cons_self ..)
    rw [fillByPosition, if_neg hs]
    by_cases hr : rest.isEmpty = true
    · rw [if_pos hr]
    · rw [if_neg hr]
      refine ih (fun h => hr (by rw [h]; rfl)) ?_ _
      rw [PumpOptions.eligibles, List.filter_cons_of_neg hs] at h
      exact h

def byPosition (ops : AnyOperations τ ν) (o : PumpOptions) :
    List (NamedValue τ ν) → SourceIterator τ ν →
      Except Exn (Pumped τ ν (SourceIterator τ ν)) :=
  o.pumpUp fun d it => fillByPosition ops o d it.passed it.rest

theorem eligibles_eq_cons {es : List (NamedValue τ ν)} (h : o.eligibles rest = s :: es) :
    ∃ pre post, rest = pre ++ s :: post ∧ (∀ x ∈ pre, ¬o.eligible x = true) ∧
      o.eligible s = true ∧ o.eligibles post = es := by
  obtain ⟨pre, post, hrest, hpre, hs, hes⟩ := List.filter_eq_cons_iff.mp h
  exact ⟨pre, post, hrest, hpre, hs, hes⟩

/-- The iterator's list ends with an argument that is not eligible. -/
def EndsIneligible (o : PumpOptions) (rest : List (NamedValue τ ν)) : Prop :=
  ∃ s, rest.getLast? = some s ∧ o.eligible s = false

theorem endsIneligible_append {pre post : List (NamedValue τ ν)} (hs : o.eligible s = true) :
    EndsIneligible o (pre ++ s :: post) ↔ EndsIneligible o post := by
  cases post with
  | nil =>
    constructor
    · rintro ⟨x, hx, hxe⟩
      rw [List.getLast?_append, List.getLast?_singleton] at hx
      obtain rfl := Option.some.inj hx
      rw [hs] at hxe
      cases hxe
    · rintro ⟨x, hx, -⟩
      cases hx
  | cons y post =>
    have hlast : (pre ++ s :: y :: post).getLast? = (y :: post).getLast? := by
      rw [List.getLast?_append, List.getLast?_cons_cons, List.getLast?_eq_some_getLast (List.cons_ne_nil _ _)]
      rfl
    rw [EndsIneligible, hlast]
    exact Iff.rfl

theorem endsIneligible_of_eligibles_nil
    (h : o.eligibles rest = []) : EndsIneligible o rest ↔ rest ≠ [] := by
  constructor
  · rintro ⟨x, hx, -⟩ rfl
    cases hx
  · intro hne
    refine ⟨rest.getLast hne, List.getLast?_eq_some_getLast hne, ?_⟩
    exact Bool.eq_false_iff.mpr (List.filter_eq_nil_iff.mp h _ (List.getLast_mem hne))

theorem byPosition_enough :
    ∀ it : SourceIterator τ ν, (o.toBeFilled dst).length ≤ (o.eligibles it.rest).length →
      (∀ p ∈ (o.toBeFilled dst).zip (o.eligibles it.rest), ops.Gives p.1 p.2) →
      ∃ left, byPosition ops o dst it =
          .ok { dst := o.give dst (o.eligibles it.rest), left, error := none } ∧
        o.eligibles left.rest = (o.eligibles it.rest).drop (o.toBeFilled dst).length := by
  induction dst with
  | nil =>
    intro it _ _
    exact ⟨it, by rfl, rfl⟩
  | cons d ds ih =>
    intro it hle hgives
    by_cases hd : o.toFill d = true
    · rw [toBeFilled_cons hd] at hle hgives ⊢
      cases hes : o.eligibles it.rest with
      | nil =>
        rw [hes] at hle
        cases hle
      | cons s es =>
        obtain ⟨pre, post, hrest, hpre, hs, hpost⟩ := eligibles_eq_cons hes
        rw [hes] at hle hgives
        obtain ⟨s', ht⟩ := hgives (d, s) (List.mem_cons_self ..)
        obtain ⟨left, hrun, hleft⟩ := ih { passed := it.passed ++ pre ++ [s'], rest := post }
          (by rw [hpost]; exact Nat.le_of_succ_le_succ hle)
          (by
            rw [hpost]
            exact fun p hp => hgives p (List.mem_cons_of_mem _ hp))
        refine ⟨left, ?_, by rw [hleft, hpost]; rfl⟩
        have hfill : fillByPosition ops o d it.passed it.rest =
            .ok (.filled { d with value := s.value }
              { passed := it.passed ++ pre ++ [s'], rest := post }) := by
          rw [hrest, fillByPosition_skip hpre (List.cons_ne_nil _ _), fillByPosition_ok hs ht]
        rw [byPosition, pumpUp_filled hd hfill]
        rw [byPosition, hpost] at hrun
        rw [hrun, PumpOptions.give, if_pos hd]
        rfl
    · have hd' : o.toFill d = false := Bool.eq_false_iff.mpr hd
      rw [toBeFilled_skip hd'] at hle hgives ⊢
      obtain ⟨left, hrun, hleft⟩ := ih it hle hgives
      refine ⟨left, ?_, hleft⟩
      rw [byPosition, pumpUp_skip hd']
      rw [byPosition] at hrun
      rw [hrun]
      rw [give_skip hd']
      rfl

theorem byPosition_short :
    ∀ it : SourceIterator τ ν, (o.eligibles it.rest).length < (o.toBeFilled dst).length →
      (∀ p ∈ (o.toBeFilled dst).zip (o.eligibles it.rest), ops.Transfers p.1 p.2) →
      EndsIneligible o it.rest →
      ∃ r, byPosition ops o dst it = .ok r ∧ r.error = some argumentNotFound := by
  induction dst with
  | nil =>
    intro it hlt _ _
    cases hlt
  | cons d ds ih =>
    intro it hlt htrans hends
    by_cases hd : o.toFill d = true
    · rw [toBeFilled_cons hd] at hlt htrans
      rw [byPosition]
      cases hes : o.eligibles it.rest with
      | nil =>
        have hne := (endsIneligible_of_eligibles_nil hes).mp hends
        rw [pumpUp_failed hd (fillByPosition_none hne hes it.passed)]
        exact ⟨_, rfl, rfl⟩
      | cons s es =>
        obtain ⟨pre, post, hrest, hpre, hs, hpost⟩ := eligibles_eq_cons hes
        rw [hes] at hlt htrans
        obtain ⟨⟨d', s'⟩, ht⟩ := htrans (d, s) (List.mem_cons_self ..)
        rw [hrest, endsIneligible_append hs] at hends
        have hfill : fillByPosition ops o d it.passed it.rest =
            .ok (.filled d' { passed := it.passed ++ pre ++ [s'], rest := post }) := by
          rw [hrest, fillByPosition_skip hpre (List.cons_ne_nil _ _), fillByPosition_ok hs ht]
        obtain ⟨r, hrun, herr⟩ := ih { passed := it.passed ++ pre ++ [s'], rest := post }
          (by rw [hpost]; exact Nat.lt_of_succ_lt_succ hlt)
          (by
            rw [hpost]
            exact fun p hp => htrans p (List.mem_cons_of_mem _ hp))
          hends
        rw [pumpUp_filled hd hfill]
        exact ⟨_, map_eq_ok.mpr ⟨r, hrun, rfl⟩, herr⟩
    · have hd' : o.toFill d = false := Bool.eq_false_iff.mpr hd
      rw [toBeFilled_skip hd'] at hlt htrans
      obtain ⟨r, hrun, herr⟩ := ih it hlt htrans hends
      rw [byPosition, pumpUp_skip hd']
      exact ⟨_, map_eq_ok.mpr ⟨r, hrun, rfl⟩, herr⟩

/-- What a run that does not raise says about its lists. -/
structure PositionRun (ops : AnyOperations τ ν) (o : PumpOptions) (dst : List (NamedValue τ ν))
    (it : SourceIterator τ ν) (r : Pumped τ ν (SourceIterator τ ν)) : Prop where
  transfers : ∀ p ∈ (o.toBeFilled dst).zip (o.eligibles it.rest), ops.Transfers p.1 p.2
  gives : r.dst = o.give dst (o.eligibles it.rest) →
    (o.toBeFilled dst).length ≤ (o.eligibles it.rest).length →
    ∀ p ∈ (o.toBeFilled dst).zip (o.eligibles it.rest), ops.Gives p.1 p.2
  enough : (o.toBeFilled dst).length ≤ (o.eligibles it.rest).length →
    r.error = none ∧
      o.eligibles r.left.rest = (o.eligibles it.rest).drop (o.toBeFilled dst).length
  short : (o.eligibles it.rest).length < (o.toBeFilled dst).length →
    r.error ≠ none ∧ EndsIneligible o it.rest

theorem positionRun_of_ok :
    ∀ (it : SourceIterator τ ν) (r : Pumped τ ν (SourceIterator τ ν)),
      byPosition ops o dst it = .ok r → PositionRun ops o dst it r := by
  induction dst with
  | nil =>
    intro it r h
    obtain rfl := Except.ok.inj h
    refine ⟨?_, ?_, fun _ => ⟨rfl, rfl⟩, ?_⟩
    · rintro p ⟨⟩
    · rintro - - p ⟨⟩
    · rintro ⟨⟩
  | cons d ds ih =>
    intro it r h
    by_cases hd : o.toFill d = true
    · cases hes : o.eligibles it.rest with
      | nil =>
        by_cases hne : it.rest = []
        · rw [byPosition, pumpUp_raised (e := .constraintError) hd (by rw [hne]; rfl)] at h
          cases h
        · rw [byPosition, pumpUp_failed hd (fillByPosition_none hne hes it.passed)] at h
          obtain rfl := Except.ok.inj h
          refine ⟨?_, ?_, ?_, ?_⟩
          all_goals rw [toBeFilled_cons hd, hes]
          · rintro p ⟨⟩
          · rintro - - p ⟨⟩
          · rintro ⟨⟩
          · exact fun _ => ⟨Option.some_ne_none _, (endsIneligible_of_eligibles_nil hes).mpr hne⟩
      | cons s es =>
        obtain ⟨pre, post, hrest, hpre, hs, hpost⟩ := eligibles_eq_cons hes
        cases ht : ops.transfer d s with
        | error e =>
          have hfill : fillByPosition ops o d it.passed it.rest = .error e := by
            rw [hrest, fillByPosition_skip hpre (List.cons_ne_nil _ _), fillByPosition_error hs ht]
          rw [byPosition, pumpUp_raised hd hfill] at h
          cases h
        | ok q =>
          obtain ⟨d', s'⟩ := q
          have hfill : fillByPosition ops o d it.passed it.rest =
              .ok (.filled d' { passed := it.passed ++ pre ++ [s'], rest := post }) := by
            rw [hrest, fillByPosition_skip hpre (List.cons_ne_nil _ _), fillByPosition_ok hs ht]
          rw [byPosition, pumpUp_filled hd hfill] at h
          obtain ⟨r, hrun, rfl⟩ := map_eq_ok.mp h
          obtain ⟨htr, hgv, hen, hsh⟩ := ih _ r hrun
          rw [hpost] at htr hgv hen hsh
          refine ⟨?_, ?_, ?_, ?_⟩
          all_goals rw [toBeFilled_cons hd, hes]
          · intro p hp
            rcases List.mem_cons.mp hp with rfl | hp
            · exact ⟨_, ht⟩
            · exact htr p hp
          · intro heq hle p hp
            rw [PumpOptions.give, if_pos hd] at heq
            obtain ⟨hhead, htail⟩ := List.cons.inj heq
            rcases List.mem_cons.mp hp with rfl | hp
            · exact ⟨s', by rw [ht, hhead]⟩
            · exact hgv htail (Nat.le_of_succ_le_succ hle) p hp
          · exact fun hle => hen (Nat.le_of_succ_le_succ hle)
          · intro hlt
            obtain ⟨herr, hends⟩ := hsh (Nat.lt_of_succ_lt_succ hlt)
            refine ⟨herr, ?_⟩
            rw [hrest, endsIneligible_append hs]
            exact hends
    · have hd' : o.toFill d = false := Bool.eq_false_iff.mpr hd
      rw [byPosition, pumpUp_skip hd'] at h
      obtain ⟨r, hrun, rfl⟩ := map_eq_ok.mp h
      obtain ⟨htr, hgv, hen, hsh⟩ := ih it r hrun
      refine ⟨?_, ?_, ?_, ?_⟩
      all_goals rw [toBeFilled_skip hd']
      · exact htr
      · intro heq hle
        rw [give_skip hd'] at heq
        exact hgv (List.cons.inj heq).2 hle
      · exact hen
      · exact hsh

theorem positionCorrect_iff (ho : o.direction = argIn ∨ o.direction = argOut)
    (dst src : List (NamedValue τ ν)) :
    PositionCorrect ops o dst src ↔ PositionSound ops o dst src := by
  have hpump : pumpUpArgumentsByPosition ops o dst src =
      (byPosition ops o dst { passed := [], rest := src }).map
        (.append fun it => o.extension it.rest) := by
    rw [pumpUpArgumentsByPosition, if_neg (direction_ok ho)]
    rfl
  rw [PositionCorrect, hpump, PositionSound]
  constructor
  · rintro ⟨_, h, hcorrect⟩
    obtain ⟨r, hrun, rfl⟩ := map_eq_ok.mp h
    obtain ⟨htr, hgv, hen, hsh⟩ := positionRun_of_ok _ r hrun
    split_ifs with hle
    · obtain ⟨herr, hleft⟩ := hen hle
      have hdst := hcorrect.2
      rw [Pumped.append, if_pos herr] at hdst
      refine hgv ?_ hle
      have heq := hdst herr
      rw [PumpOptions.positionResult, PumpOptions.extension] at heq
      rw [PumpOptions.eligibles] at hleft
      rw [hleft] at heq
      exact List.append_cancel_right heq
    · exact ⟨htr, (hsh (Nat.lt_of_not_le hle)).2⟩
  · intro hsound
    split_ifs at hsound with hle
    · obtain ⟨left, hrun, hleft⟩ := byPosition_enough { passed := [], rest := src } hle hsound
      refine ⟨_, map_eq_ok.mpr ⟨_, hrun, rfl⟩, ?_⟩
      rw [Pumped.append, if_pos rfl]
      refine ⟨⟨fun _ => hle, fun _ => rfl⟩, fun _ => ?_⟩
      rw [PumpOptions.positionResult, PumpOptions.extension]
      rw [PumpOptions.eligibles] at hleft
      rw [hleft]
    · obtain ⟨r, hrun, herr⟩ := byPosition_short { passed := [], rest := src }
        (Nat.lt_of_not_le hle) hsound.1 hsound.2
      refine ⟨_, map_eq_ok.mpr ⟨r, hrun, rfl⟩, ?_⟩
      have hne : ¬r.error = none := by
        rw [herr]
        exact Option.some_ne_none _
      rw [Pumped.append, if_neg hne]
      exact ⟨⟨fun h => absurd h hne, fun h => absurd h hle⟩, fun h => absurd h hne⟩

end ByPosition

end PolyORB

import PolyORB.Naming.Names

/-!
# What Parse_Name reads

The single pass over the string reads the segments between its unescaped separators, and splits each
of them at its last unescaped period.
-/

namespace PolyORB

open Escapes Character

def lastPeriod : List (Token UInt8) → Option Nat
  | [] => none
  | t :: ts =>
    match lastPeriod ts with
    | some i => some (i + 1)
    | none => if t = .plain period then some 0 else none

def componentOf (ts : List (Token UInt8)) : NameComponent :=
  match lastPeriod ts with
  | some i => ⟨vals (ts.take i), vals (ts.drop (i + 1))⟩
  | none => ⟨vals ts, []⟩

theorem lastPeriod_append (ts : List (Token UInt8)) (t : Token UInt8) :
    lastPeriod (ts ++ [t]) = if t = .plain period then some ts.length else lastPeriod ts := by
  induction ts with
  | nil => rfl
  | cons u us ih =>
    rw [List.cons_append, lastPeriod, ih]
    by_cases h : t = .plain period
    · rw [if_pos h, if_pos h]
      rfl
    · rw [if_neg h, if_neg h]
      rfl

theorem lastPeriod_eq_none {ts : List (Token UInt8)} (h : .plain period ∉ ts) :
    lastPeriod ts = none := by
  induction ts with
  | nil => rfl
  | cons t ts ih =>
    rw [List.mem_cons, not_or] at h
    rw [lastPeriod, ih h.2]
    exact if_neg fun heq => h.1 heq.symm

theorem componentOf_of_not_mem {ts : List (Token UInt8)} (h : .plain period ∉ ts) :
    componentOf ts = ⟨vals ts, []⟩ := by
  rw [componentOf, lastPeriod_eq_none h]

theorem componentOf_period {ts us : List (Token UInt8)} (h : .plain period ∉ us) :
    componentOf (ts ++ .plain period :: us) = ⟨vals ts, vals us⟩ := by
  have hlast : lastPeriod (ts ++ .plain period :: us) = some ts.length := by
    induction ts with
    | nil =>
      rw [List.nil_append, lastPeriod, lastPeriod_eq_none h]
      rfl
    | cons t ts ih =>
      rw [List.cons_append, lastPeriod, ih]
      rfl
  rw [componentOf, hlast]
  simp

theorem exists_period_split (ts : List (Token UInt8)) :
    .plain period ∉ ts ∨ ∃ us vs, ts = us ++ .plain period :: vs ∧ .plain period ∉ vs := by
  induction ts with
  | nil => exact .inl fun h => nomatch h
  | cons t ts ih =>
    rcases ih with h | ⟨us, vs, rfl, h⟩
    · by_cases ht : t = .plain period
      · exact .inr ⟨[], ts, by rw [ht]; rfl, h⟩
      · refine .inl fun hm => ?_
        rcases List.mem_cons.mp hm with heq | hm
        · exact ht heq.symm
        · exact h hm
    · exact .inr ⟨t :: us, vs, rfl, h⟩

/-! ## The loop -/

namespace ParseState

/-- The loop is inside the segment `cur`. -/
structure Inside (s : ParseState) (cur : List (Token UInt8)) : Prop where
  unescaped : ∃ done, s.unescaped = done ++ vals cur ∧ s.first = done.length + 1
  period : ∀ i, lastPeriod cur = some i → s.lastUnescapedPeriod = s.first + i
  noPeriod : lastPeriod cur = none → s.lastUnescapedPeriod < s.first

theorem inside_start : start.Inside [] where
  unescaped := ⟨[], rfl, rfl⟩
  period := fun _ h => nomatch h
  noPeriod := fun _ => Nat.one_pos

variable {s : ParseState} {cur : List (Token UInt8)} {sep : UInt8}

theorem vals_take (h : Proper backslash sep cur) (i : Nat) : vals (cur.take i) = (vals cur).take i := by
  induction cur generalizing i with
  | nil => simp
  | cons t ts ih =>
    cases i with
    | zero => rfl
    | succ i =>
      cases t with
      | plain c => simpa [Token.vals] using ih h.tail i
      | escaped c => simpa [Token.vals] using ih h.tail i
      | dangling => exact absurd rfl h.head.1

theorem vals_drop (h : Proper backslash sep cur) (i : Nat) : vals (cur.drop i) = (vals cur).drop i := by
  induction cur generalizing i with
  | nil => simp
  | cons t ts ih =>
    cases i with
    | zero => rfl
    | succ i =>
      cases t with
      | plain c => simpa [Token.vals] using ih h.tail i
      | escaped c => simpa [Token.vals] using ih h.tail i
      | dangling => exact absurd rfl h.head.1

theorem length_vals (h : Proper backslash sep cur) : (vals cur).length = cur.length := by
  induction cur with
  | nil => rfl
  | cons t ts ih =>
    cases t with
    | plain c => simpa [Token.vals] using ih h.tail
    | escaped c => simpa [Token.vals] using ih h.tail
    | dangling => exact absurd rfl h.head.1

theorem endOfNc_result (h : s.Inside cur) (hp : Proper backslash sep cur) :
    s.endOfNc.result = s.result ++ [componentOf cur] := by
  obtain ⟨done, hu, hf⟩ := h.unescaped
  have hlast : s.last = done.length + (vals cur).length := by rw [last, hu, List.length_append]
  cases hl : lastPeriod cur with
  | none =>
    have hlt := h.noPeriod hl
    have hid : s.slice s.first s.last = vals cur := by
      rw [slice, hu, hf, hlast, List.take_length_add_append, List.take_length]
      exact List.drop_left
    have hkind : s.slice (s.last + 1 + 1) s.last = [] := by
      refine List.drop_eq_nil_of_le ?_
      rw [List.length_take]
      omega
    rw [endOfNc, componentOf, hl]
    rw [if_pos hlt, Nat.add_sub_cancel, hid, hkind]
  | some i =>
    have heq := h.period i hl
    have hnlt : ¬s.lastUnescapedPeriod < s.first := by omega
    have hid : s.slice s.first (s.lastUnescapedPeriod - 1) = (vals cur).take i := by
      have hp : s.lastUnescapedPeriod - 1 = done.length + i := by omega
      rw [slice, hu, hf, hp, List.take_length_add_append]
      exact List.drop_left
    have hkind : s.slice (s.lastUnescapedPeriod + 1) s.last = (vals cur).drop (i + 1) := by
      have hp : s.lastUnescapedPeriod + 1 - 1 = done.length + (i + 1) := by omega
      rw [slice, hu, hlast, hp, List.take_length_add_append, List.take_length,
        List.drop_length_add_append]
    rw [endOfNc, componentOf, hl]
    dsimp only
    rw [if_neg hnlt, hid, hkind, vals_take hp, vals_drop hp]

theorem inside_endOfNc : s.endOfNc.Inside [] where
  unescaped := ⟨s.unescaped, (List.append_nil _).symm, rfl⟩
  period := fun _ h => nomatch h
  noPeriod := fun _ => Nat.lt_succ_self _

/-- The token of a character, after a backslash or not. -/
def tokenOf (seen : Bool) (c : UInt8) : Token UInt8 := if seen = true then .escaped c else .plain c

theorem proper_tokenOf {seen : Bool} {c : UInt8} (hb : ¬(seen = false ∧ c = backslash))
    (hs : ¬(seen = false ∧ c = sep)) :
    tokenOf seen c ≠ .dangling ∧ tokenOf seen c ≠ .plain backslash ∧ tokenOf seen c ≠ .plain sep := by
  cases seen with
  | true => refine ⟨?_, ?_, ?_⟩ <;> rintro ⟨⟩
  | false =>
    refine ⟨?_, ?_, ?_⟩
    · rintro ⟨⟩
    · exact fun h => hb ⟨rfl, Token.plain.inj h⟩
    · exact fun h => hs ⟨rfl, Token.plain.inj h⟩

theorem tokensFrom_tokenOf {seen : Bool} {c : UInt8} (hb : ¬(seen = false ∧ c = backslash))
    (cs : Text) :
    tokensFrom backslash seen (c :: cs) = tokenOf seen c :: tokensFrom backslash false cs := by
  cases seen with
  | true => rfl
  | false => exact if_neg fun h => hb ⟨rfl, h⟩

theorem inside_addCharacter (h : s.Inside cur) (hp : Proper backslash sep cur) (c : UInt8) :
    ((s.addCharacter c).notePeriod c).Inside (cur ++ [tokenOf s.seenBackslash c]) := by
  obtain ⟨done, hu, hf⟩ := h.unescaped
  have hlen : (s.addCharacter c).last = done.length + cur.length + 1 := by
    rw [last, addCharacter, List.length_append, hu, List.length_append, length_vals hp]
    rfl
  have hval : vals [tokenOf s.seenBackslash c] = [c] := by
    rw [tokenOf]
    split <;> rfl
  have happ : s.unescaped ++ [c] = done ++ vals (cur ++ [tokenOf s.seenBackslash c]) := by
    rw [vals_append, hval, hu, List.append_assoc]
  have hlast := lastPeriod_append cur (tokenOf s.seenBackslash c)
  by_cases hc : s.seenBackslash = false ∧ c = period
  · have htok : tokenOf s.seenBackslash c = .plain period := by rw [tokenOf, hc.1, hc.2]; rfl
    rw [if_pos htok] at hlast
    have hnote : (s.addCharacter c).notePeriod c =
        { s.addCharacter c with lastUnescapedPeriod := (s.addCharacter c).last } := if_pos hc
    rw [hnote]
    refine ⟨⟨done, happ, hf⟩, fun i hi => ?_, fun hn => ?_⟩
    · rw [hlast] at hi
      obtain rfl := Option.some.inj hi
      show (s.addCharacter c).last = s.first + cur.length
      omega
    · rw [hlast] at hn
      cases hn
  · have htok : ¬tokenOf s.seenBackslash c = .plain period := by
      intro heq
      cases hseen : s.seenBackslash with
      | true =>
        rw [hseen] at heq
        cases heq
      | false =>
        rw [hseen] at heq
        exact hc ⟨hseen, Token.plain.inj heq⟩
    rw [if_neg htok] at hlast
    have hnote : (s.addCharacter c).notePeriod c = s.addCharacter c := if_neg hc
    rw [hnote]
    refine ⟨⟨done, happ, hf⟩, fun i hi => ?_, fun hn => ?_⟩
    · exact h.period i (hlast ▸ hi)
    · exact h.noPeriod (hlast ▸ hn)

theorem result_notePeriod (s : ParseState) (c : UInt8) : (s.notePeriod c).result = s.result := by
  rw [notePeriod]
  split <;> rfl

theorem seenBackslash_notePeriod (s : ParseState) (c : UInt8) :
    (s.notePeriod c).seenBackslash = s.seenBackslash := by
  rw [notePeriod]
  split <;> rfl

theorem endRound_eq {c : UInt8} (h : ¬(s.seenBackslash = false ∧ c = backslash)) (e : Bool) :
    s.endRound e c = { (if e = true then s.endOfNc else s) with seenBackslash := false } := by
  have hseen : (c == backslash && !s.seenBackslash) = false := by
    cases hs : s.seenBackslash with
    | true => rw [Bool.not_true, Bool.and_false]
    | false => rw [beq_eq_false_iff_ne.mpr fun hc => h ⟨hs, hc⟩, Bool.false_and]
  rw [endRound, hseen]

theorem Inside.congr {s' : ParseState} (h : s.Inside cur) (hu : s'.unescaped = s.unescaped)
    (hf : s'.first = s.first) (hl : s'.lastUnescapedPeriod = s.lastUnescapedPeriod) :
    s'.Inside cur := by
  refine ⟨?_, ?_, ?_⟩
  · rw [hu, hf]
    exact h.unescaped
  · rw [hl, hf]
    exact h.period
  · rw [hl, hf]
    exact h.noPeriod

/-- What the loop adds to the name, from inside the segment `cur`. -/
def restOf (sep : UInt8) (cur : List (Token UInt8)) (seen : Bool) (cs : Text) : Name :=
  ((segments sep (cur ++ tokensFrom backslash seen cs)).filter whole).map componentOf

theorem loop_result (hsep : sep ≠ backslash) (hper : sep ≠ period) (cs : Text) :
    ∀ (s : ParseState) (cur : List (Token UInt8)), s.Inside cur → Proper backslash sep cur →
      (cs = [] → s.seenBackslash = false → cur = []) →
      (loop sep cs s).result = s.result ++ restOf sep cur s.seenBackslash cs := by
  induction cs with
  | nil =>
    intro s cur hin hp hcur
    cases hs : s.seenBackslash with
    | false =>
      rw [hcur rfl hs]
      exact (List.append_nil _).symm
    | true =>
      have hnil : restOf sep cur true [] = [] := by
        show ((segments sep (cur ++ [.dangling])).filter whole).map componentOf = []
        rw [segments_escape hp]
        rfl
      rw [hnil, List.append_nil]
      rfl
  | cons c cs ih =>
    intro s cur hin hp _
    by_cases hb : s.seenBackslash = false ∧ c = backslash
    · obtain ⟨hseen, rfl⟩ := hb
      have hrun := ih { s with seenBackslash := true } cur (hin.congr rfl rfl rfl) hp
        (by simp)
      rw [loop, step, if_pos ⟨hseen, rfl⟩, hrun, hseen, restOf, restOf, tokensFrom, if_pos rfl]
    · by_cases hs : s.seenBackslash = false ∧ c = sep
      · obtain ⟨hseen, rfl⟩ := hs
        have hnote : s.notePeriod c = s := if_neg fun h => hper h.2
        have hrun := ih { s.endOfNc with seenBackslash := false } []
          (inside_endOfNc.congr rfl rfl rfl) proper_nil fun _ _ => rfl
        have hrest : restOf c cur false (c :: cs) = componentOf cur :: restOf c [] false cs := by
          rw [restOf, tokensFrom, if_neg hsep, segments_proper hp,
            List.filter_cons_of_pos (whole_of_proper hp), List.map_cons]
          rfl
        rw [loop, step, if_neg hb, if_pos ⟨hseen, rfl⟩, hnote, endRound_eq hb, if_pos rfl, hrun,
          hseen, hrest]
        rw [endOfNc_result hin hp, List.append_assoc]
        rfl
      · have hin' := inside_addCharacter hin hp c
        have hp' : Proper backslash sep (cur ++ [tokenOf s.seenBackslash c]) := by
          intro t ht
          rcases List.mem_append.mp ht with ht | ht
          · exact hp t ht
          · rw [List.mem_singleton.mp ht]
            exact proper_tokenOf hb hs
        have htok : restOf sep cur s.seenBackslash (c :: cs) =
            restOf sep (cur ++ [tokenOf s.seenBackslash c]) false cs := by
          rw [restOf, restOf, tokensFrom_tokenOf hb, List.append_assoc]
          rfl
        have hb' : ¬(((s.addCharacter c).notePeriod c).seenBackslash = false ∧ c = backslash) := by
          rw [seenBackslash_notePeriod]
          exact hb
        rw [loop, step, if_neg hb, if_neg hs, endRound_eq hb', htok]
        cases cs with
        | nil =>
          have hlast : restOf sep (cur ++ [tokenOf s.seenBackslash c]) false [] =
              [componentOf (cur ++ [tokenOf s.seenBackslash c])] := by
            rw [restOf, tokensFrom, List.append_nil, segments_no_sep (fun t ht => (hp' t ht).2.2)
              (List.append_ne_nil_of_right_ne_nil _ (List.cons_ne_nil _ _)),
              List.filter_cons_of_pos (whole_of_proper hp')]
            rfl
          rw [hlast]
          show (endOfNc _).result = _
          rw [endOfNc_result hin' hp', result_notePeriod]
          rfl
        | cons d cs =>
          have hrun := ih { (s.addCharacter c).notePeriod c with seenBackslash := false } _
            (hin'.congr rfl rfl rfl) hp' (by simp)
          show (loop sep (d :: cs) { (s.addCharacter c).notePeriod c with
            seenBackslash := false }).result = _
          rw [hrun]
          show ((s.addCharacter c).notePeriod c).result ++ _ = _
          rw [result_notePeriod]
          rfl

theorem parse_result (hsep : sep ≠ backslash) (hper : sep ≠ period) (cs : Text) :
    (loop sep cs start).result = (read backslash sep cs).map componentOf :=
  loop_result hsep hper cs start [] inside_start proper_nil fun _ _ => rfl

end ParseState

end PolyORB

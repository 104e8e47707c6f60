import PolyORB.Naming.NameParsing

/-!
# Names and their strings

A name comes back from its string when none of its components has a character that To_String writes
as it is and Parse_Name gives a meaning to, and when the characters that URI_Encode would escape are
absent.  Parse_Name accounts for every character of a string that does not end in the middle of an
escape.
-/

namespace PolyORB

open Escapes Character

/-! ## Which names come back -/

def Inert (c : UInt8) : Prop := c ≠ slash ∧ c ≠ backslash ∧ c ≠ period

/-- The id and the kind have no `/`, `\` or `.`; if there is a kind, the id may have a period, but
no character that URI_Encode escapes. -/
def NameComponent.Faithful (c : NameComponent) : Prop :=
  if c.kind = [] then ∀ x ∈ c.id, Inert x
  else (∀ x ∈ c.id, needEscape [slash] x = false) ∧ ∀ x ∈ c.kind, Inert x

/-! ## URI_Encode -/

theorem not_needEscape {c : UInt8} (h : needEscape [slash] c = false) : c ≠ slash ∧ c ≠ backslash := by
  constructor
  · rintro rfl
    exact absurd h (by decide)
  · rintro rfl
    exact absurd h (by decide)

theorem hex_ne (n : UInt8) (h : n < 16) : hex n ≠ slash ∧ hex n ≠ backslash := by
  unfold hex slash backslash
  grind

theorem mem_uriEncode {s : Text} {x : UInt8} (h : x ∈ uriEncode [slash] s) :
    x ≠ slash ∧ x ≠ backslash := by
  obtain ⟨c, -, hx⟩ := List.mem_flatMap.mp h
  split_ifs at hx with hc
  · simp only [List.mem_cons, List.not_mem_nil, or_false] at hx
    rcases hx with rfl | rfl | rfl
    · decide
    · exact hex_ne _ (by grind)
    · exact hex_ne _ (by grind)
  · rw [List.mem_singleton.mp hx]
    exact not_needEscape (Bool.eq_false_iff.mpr hc)

theorem length_le_uriEncode (also s : Text) : s.length ≤ (uriEncode also s).length := by
  induction s with
  | nil => exact le_rfl
  | cons c s ih =>
    rw [uriEncode, List.flatMap_cons, List.length_append, List.length_cons, Nat.add_comm]
    refine Nat.add_le_add ?_ ih
    split_ifs <;> simp

theorem uriEncode_eq_self_iff (also s : Text) :
    uriEncode also s = s ↔ ∀ x ∈ s, needEscape also x = false := by
  induction s with
  | nil =>
    constructor
    · rintro - x ⟨⟩
    · exact fun _ => rfl
  | cons c s ih =>
    have hcons : uriEncode also (c :: s) =
        (if needEscape also c = true then [percent, hex (c / 16), hex (c % 16)] else [c]) ++
          uriEncode also s := List.flatMap_cons
    rw [hcons, List.forall_mem_cons, ← ih]
    by_cases hc : needEscape also c = true
    · rw [if_pos hc, hc]
      constructor
      · intro h
        have hlen := congrArg List.length h
        have hle := length_le_uriEncode also s
        simp only [List.length_append, List.length_cons, List.length_nil] at hlen
        omega
      · rintro ⟨h, -⟩
        cases h
    · rw [if_neg hc]
      constructor
      · intro h
        exact ⟨Bool.eq_false_iff.mpr hc, (List.cons.inj h).2⟩
      · rintro ⟨-, h⟩
        rw [h]
        rfl

/-! ## Components inside their text -/

variable {ts : List (Token UInt8)}

theorem inert_of_mem_tokens (hp : Proper backslash slash ts)
    (hper : .plain period ∉ ts) {xs : Text} (h : ts = xs.map .plain) : ∀ x ∈ xs, Inert x := by
  subst h
  intro x hx
  have hmem : Token.plain x ∈ xs.map Token.plain := List.mem_map_of_mem hx
  obtain ⟨-, hb, hs⟩ := hp _ hmem
  refine ⟨fun h => hs (by rw [h]), fun h => hb (by rw [h]), fun h => hper ?_⟩
  rw [← h]
  exact hmem

theorem length_componentOf (hp : Proper backslash slash ts) :
    (componentOf ts).id.length + (componentOf ts).kind.length +
        (if .plain period ∈ ts then 1 else 0) ≤ (chars backslash ts).length := by
  have hle := length_vals_le hp
  rcases exists_period_split ts with h | ⟨us, vs, rfl, h⟩
  · rw [if_neg h, componentOf_of_not_mem h]
    exact hle
  · rw [if_pos (List.mem_append_right _ (List.mem_cons_self ..)), componentOf_period h]
    rw [vals_append, vals_cons, List.length_append, List.length_append] at hle
    simp only [Token.vals, List.length_cons, List.length_nil] at hle ⊢
    omega

/-- What stands before a segment ends a preceding one. -/
def AtStart (before : Text) : Prop := before = [] ∨ ∃ front, before = front ++ [slash]

def AtEnd (after : Text) : Prop := after = [] ∨ ∃ rest, after = slash :: rest

theorem slash_not_mem_uriEncode (s : Text) : slash ∉ uriEncode [slash] s :=
  fun h => (mem_uriEncode h).1 rfl

theorem backslash_not_mem_uriEncode (s : Text) : backslash ∉ uriEncode [slash] s :=
  fun h => (mem_uriEncode h).2 rfl

/-- The period that separates the id from the kind is the last one that is read unescaped, so the
segment is cut where the text was put together. -/
theorem cut_of_inside {e kind before after : Text} {us vs : List (Token UInt8)}
    (htext : e ++ period :: kind = before ++ chars backslash us ++ period :: (chars backslash vs ++ after))
    (hs : slash ∉ e) (hb : backslash ∉ e) (hp : Proper backslash slash vs)
    (hper : .plain period ∉ vs) (hlen : kind.length ≤ (chars backslash vs).length)
    (hafter : AtEnd after) :
    e = before ++ chars backslash us ∧ kind = chars backslash vs ∧ after = [] := by
  have hwhole : kind = chars backslash vs ++ after → kind = chars backslash vs ∧ after = [] := by
    intro h
    have hl := congrArg List.length h
    rw [List.length_append] at hl
    have hnil : after = [] := List.eq_nil_of_length_eq_zero (by omega)
    rw [hnil, List.append_nil] at h
    exact ⟨h, hnil⟩
  rcases List.append_eq_append_iff.mp htext with ⟨mid, hmid, hrest⟩ | ⟨mid, hmid, hrest⟩
  · have hl := congrArg List.length hrest
    rw [List.length_append, List.length_cons, List.length_cons, List.length_append] at hl
    have hnil : mid = [] := List.eq_nil_of_length_eq_zero (by omega)
    subst hnil
    rw [List.append_nil] at hmid
    exact ⟨hmid.symm, hwhole (List.cons.inj hrest).2⟩
  · cases mid with
    | nil =>
      rw [List.append_nil] at hmid
      exact ⟨hmid, hwhole (List.cons.inj hrest).2.symm⟩
    | cons p mid =>
      -- The segment would have a later unescaped period.
      exfalso
      obtain ⟨rfl, htail⟩ := List.cons.inj hrest
      have hsm : slash ∉ mid := fun h => hs (by rw [hmid]; simp [h])
      have hbm : backslash ∉ mid := fun h => hb (by rw [hmid]; simp [h])
      rcases List.append_eq_append_iff.mp htail with ⟨gap, hgap, hend⟩ | ⟨gap, hgap, hend⟩
      · rcases hafter with rfl | ⟨rest, rfl⟩
        · exact absurd hend (by simp)
        · cases gap with
          | nil => exact absurd (List.cons.inj hend).1 (by decide)
          | cons g gap =>
            obtain ⟨rfl, -⟩ := List.cons.inj hend
            exact hsm (by rw [hgap]; simp)
      · cases gap with
        | nil =>
          rcases hafter with rfl | ⟨rest, rfl⟩
          · cases hend
          · exact absurd (List.cons.inj hend).1 (by decide)
        | cons g gap =>
          obtain ⟨rfl, -⟩ := List.cons.inj hend
          exact hper (plain_mem_of_chars hp hbm (by decide) gap hgap)

variable {c : NameComponent}

/-- A component that is read inside its own text is the whole of it, and comes back. -/
theorem faithful_of_inside {before after : Text}
    (htext : c.toText = before ++ chars backslash ts ++ after) (hp : Proper backslash slash ts)
    (hc : componentOf ts = c) (hbefore : AtStart before) (hafter : AtEnd after) :
    before = [] ∧ after = [] ∧ c.Faithful := by
  have hlen := congrArg List.length htext
  rw [List.length_append, List.length_append] at hlen
  have hle := length_componentOf hp
  rw [hc] at hle
  by_cases hkind : c.kind = []
  · by_cases hid : c.id = []
    · -- The text is a period.
      rw [NameComponent.toText, if_pos hkind, if_pos hid] at htext
      have hbnil : before = [] := by
        rcases hbefore with h | ⟨front, rfl⟩
        · exact h
        · exfalso
          have hmem : slash ∈ [period] := by
            rw [htext]
            simp
          exact absurd hmem (by decide)
      have hanil : after = [] := by
        rcases hafter with h | ⟨rest, rfl⟩
        · exact h
        · exfalso
          have hmem : slash ∈ [period] := by
            rw [htext]
            simp
          exact absurd hmem (by decide)
      refine ⟨hbnil, hanil, ?_⟩
      rw [NameComponent.Faithful, if_pos hkind, hid]
      rintro x ⟨⟩
    · have ht : c.toText = c.id := by rw [NameComponent.toText, if_pos hkind, if_neg hid]
      rw [ht] at htext hlen
      have hper : .plain period ∉ ts := by
        intro h
        rw [if_pos h] at hle
        omega
      rw [componentOf_of_not_mem hper] at hc
      have hidv : vals ts = c.id := by rw [← hc]
      have hbnil : before = [] := List.eq_nil_of_length_eq_zero (by omega)
      have hanil : after = [] := List.eq_nil_of_length_eq_zero (by omega)
      refine ⟨hbnil, hanil, ?_⟩
      rw [NameComponent.Faithful, if_pos hkind, ← hidv]
      exact inert_of_mem_tokens hp hper (plain_of_length_eq hp (by rw [hidv]; omega))
  · rcases exists_period_split ts with h | ⟨us, vs, rfl, h⟩
    · rw [componentOf_of_not_mem h] at hc
      exact absurd (congrArg NameComponent.kind hc).symm hkind
    · rw [componentOf_period h] at hc
      have hidv : vals us = c.id := congrArg NameComponent.id hc
      have hkindv : vals vs = c.kind := congrArg NameComponent.kind hc
      have hpv := hp.right.tail
      have hcut : uriEncode [slash] c.id ++ period :: c.kind =
          before ++ chars backslash us ++ period :: (chars backslash vs ++ after) := by
        rw [NameComponent.toText, if_neg hkind] at htext
        simpa [Token.chars] using htext
      obtain ⟨hid, hk, hanil⟩ := cut_of_inside hcut (slash_not_mem_uriEncode _)
        (backslash_not_mem_uriEncode _) hpv h (by rw [← hkindv]; exact length_vals_le hpv) hafter
      have hbnil : before = [] := by
        rcases hbefore with hb | ⟨front, rfl⟩
        · exact hb
        · refine absurd ?_ (slash_not_mem_uriEncode c.id)
          rw [hid]
          simp
      rw [hbnil, List.nil_append] at hid
      have hus : vals us = uriEncode [slash] c.id := by
        have := plain_of_not_mem hp.left hid.symm (backslash_not_mem_uriEncode c.id)
        rw [this, vals_map_plain]
      refine ⟨hbnil, hanil, ?_⟩
      rw [NameComponent.Faithful, if_neg hkind]
      refine ⟨(uriEncode_eq_self_iff [slash] c.id).mp (hus.symm.trans hidv), ?_⟩
      rw [← hkindv]
      refine inert_of_mem_tokens hpv h (plain_of_length_eq hpv ?_)
      rw [← hk, hkindv]

/-! ## Whole names -/

theorem Name.toText_cons (c : NameComponent) {cs : Name} (h : cs ≠ []) :
    Name.toText (c :: cs) = c.toText ++ slash :: Name.toText cs := by
  cases cs with
  | nil => exact absurd rfl h
  | cons d ds =>
    show c.toText ++ [slash] ++ Name.toText (d :: ds) = _
    rw [List.append_assoc]
    rfl

def readName (cs : Text) : Name := (read backslash slash cs).map componentOf

theorem slash_ne_backslash : slash ≠ backslash := by decide

theorem readName_eq_cons {cs : Text} {n : Name} (h : readName cs = c :: n) :
    ∃ ts, Proper backslash slash ts ∧ componentOf ts = c ∧
      ((cs = chars backslash ts ∧ n = []) ∨
        ∃ rest, cs = chars backslash ts ++ slash :: rest ∧ readName rest = n) := by
  obtain ⟨ts, segs, hread, hc, hn⟩ := List.map_eq_cons_iff.mp h
  obtain ⟨hp, ⟨hcs, rfl⟩ | ⟨rest, hcs, rfl⟩⟩ := read_eq_cons slash_ne_backslash hread
  · exact ⟨ts, hp, hc, .inl ⟨hcs, hn.symm⟩⟩
  · exact ⟨ts, hp, hc, .inr ⟨rest, hcs, hn⟩⟩

/-- A name is only read from the start of its own text, and then all its components come back. -/
theorem faithful_of_read {n : Name} (hne : n ≠ []) :
    ∀ before cs : Text, AtStart before → Name.toText n = before ++ cs → readName cs = n →
      before = [] ∧ ∀ c ∈ n, c.Faithful := by
  induction n with
  | nil => exact absurd rfl hne
  | cons c n ih =>
    intro before cs hbefore htext hread
    obtain ⟨ts, hp, hc, ⟨rfl, rfl⟩ | ⟨rest, rfl, hrest⟩⟩ := readName_eq_cons hread
    · rw [← List.append_nil (before ++ _)] at htext
      obtain ⟨hb, -, hf⟩ := faithful_of_inside htext hp hc hbefore (.inl rfl)
      refine ⟨hb, fun d hd => ?_⟩
      rw [List.mem_singleton.mp hd]
      exact hf
    · by_cases hn : n = []
      · subst hn
        rw [← List.append_assoc] at htext
        obtain ⟨-, hnil, -⟩ := faithful_of_inside htext hp hc hbefore (.inr ⟨rest, rfl⟩)
        cases hnil
      · have hsync : c.toText = before ++ chars backslash ts ++ [] → Name.toText n = rest →
            before = [] ∧ ∀ d ∈ c :: n, d.Faithful := by
          intro ht hr
          obtain ⟨hb, -, hf⟩ := faithful_of_inside ht hp hc hbefore (.inl rfl)
          obtain ⟨-, hfs⟩ := ih hn [] rest (.inl rfl) hr hrest
          refine ⟨hb, fun d hd => ?_⟩
          rcases List.mem_cons.mp hd with rfl | hd
          · exact hf
          · exact hfs d hd
        rw [Name.toText_cons c hn, ← List.append_assoc] at htext
        rcases List.append_eq_append_iff.mp htext with ⟨mid, hmid, hend⟩ | ⟨mid, hmid, hend⟩
        · cases mid with
          | nil =>
            rw [List.append_nil] at hmid
            exact hsync (by rw [List.append_nil, hmid]) (List.cons.inj hend).2
          | cons g mid =>
            -- The rest of the name would be read from behind its start.
            exfalso
            obtain ⟨rfl, htail⟩ := List.cons.inj hend
            have hsplit : Name.toText n = (mid ++ [slash]) ++ rest := by
              rw [List.append_assoc]
              exact htail
            obtain ⟨hnil, -⟩ := ih hn (mid ++ [slash]) rest (.inr ⟨mid, rfl⟩) hsplit hrest
            exact absurd hnil (List.append_ne_nil_of_right_ne_nil _ (List.cons_ne_nil _ _))
        · cases mid with
          | nil =>
            exact hsync hmid (List.cons.inj hend).2.symm
          | cons g mid =>
            exfalso
            obtain ⟨rfl, -⟩ := List.cons.inj hend
            obtain ⟨-, hnil, -⟩ := faithful_of_inside hmid hp hc hbefore (.inr ⟨mid, rfl⟩)
            cases hnil

theorem proper_of_faithful (h : c.Faithful) :
    Proper backslash slash (c.toText.map .plain) ∧ componentOf (c.toText.map .plain) = c ∧
      c.toText ≠ [] := by
  obtain ⟨id, kind⟩ := c
  rw [NameComponent.Faithful] at h
  by_cases hk : kind = []
  · subst hk
    by_cases hid : id = []
    · subst hid
      refine ⟨proper_map_plain (by decide) (by decide), ?_, List.cons_ne_nil _ _⟩
      exact @componentOf_period [] [] fun h => nomatch h
    · have ht : NameComponent.toText ⟨id, []⟩ = id := by
        rw [NameComponent.toText, if_pos rfl, if_neg hid]
      rw [ht]
      refine ⟨proper_map_plain (fun hm => (h _ hm).2.1 rfl) fun hm => (h _ hm).1 rfl, ?_, hid⟩
      have hper : .plain period ∉ id.map Token.plain := by
        intro hm
        obtain ⟨x, hx, heq⟩ := List.mem_map.mp hm
        exact (h x hx).2.2 (Token.plain.inj heq)
      rw [componentOf_of_not_mem hper, vals_map_plain]
  · rw [if_neg hk] at h
    obtain ⟨hid, hkind⟩ := h
    have ht : NameComponent.toText ⟨id, kind⟩ = id ++ period :: kind := by
      rw [NameComponent.toText, if_neg hk, (uriEncode_eq_self_iff [slash] id).mpr hid,
        List.append_assoc]
      rfl
    have hmem : ∀ x ∈ id ++ period :: kind, x ≠ slash ∧ x ≠ backslash := by
      intro x hx
      rcases List.mem_append.mp hx with hx | hx
      · exact not_needEscape (hid x hx)
      · rcases List.mem_cons.mp hx with rfl | hx
        · decide
        · exact ⟨(hkind x hx).1, (hkind x hx).2.1⟩
    have hper : .plain period ∉ kind.map Token.plain := by
      intro hm
      obtain ⟨x, hx, heq⟩ := List.mem_map.mp hm
      exact (hkind x hx).2.2 (Token.plain.inj heq)
    rw [ht]
    refine ⟨proper_map_plain (fun hm => (hmem _ hm).2 rfl) fun hm => (hmem _ hm).1 rfl, ?_, by simp⟩
    rw [List.map_append, List.map_cons, componentOf_period hper, vals_map_plain, vals_map_plain]

theorem readName_toText {n : Name} (h : ∀ c ∈ n, c.Faithful) : readName n.toText = n := by
  induction n with
  | nil => rfl
  | cons c n ih =>
    obtain ⟨hp, hc, hne⟩ := proper_of_faithful (h c (List.mem_cons_self ..))
    by_cases hn : n = []
    · subst hn
      show readName c.toText = [c]
      rw [readName, ← chars_map_plain backslash c.toText,
        read_chars hp fun h => hne (List.map_eq_nil_iff.mp h), List.map_cons, hc, List.map_nil]
    · rw [Name.toText_cons c hn, readName, ← chars_map_plain backslash c.toText,
        read_sep slash_ne_backslash hp, List.map_cons, hc]
      have hrest := ih fun d hd => h d (List.mem_cons_of_mem _ hd)
      rw [readName] at hrest
      rw [hrest]

theorem parseServiceName_eq (cs : Text) : parseServiceName slash cs = readName cs :=
  ParseState.parse_result slash_ne_backslash (by decide) cs

theorem parseName_eq (cs : Text) : parseName slash cs = readName (cs.dropWhile (· == slash)) :=
  ParseState.parse_result slash_ne_backslash (by decide) _

theorem atStart_takeWhile (cs : Text) : AtStart (cs.takeWhile (· == slash)) := by
  rcases List.eq_nil_or_concat (cs.takeWhile (· == slash)) with h | ⟨front, last, h⟩
  · exact .inl h
  · have hmem : last ∈ cs.takeWhile (· == slash) := by
      rw [h]
      simp
    have hlast : last = slash := beq_iff_eq.mp (List.all_eq_true.mp List.all_takeWhile last hmem)
    rw [hlast, List.concat_eq_append] at h
    exact .inr ⟨front, h⟩

/-- A name comes back from its string exactly when each of its components does. -/
theorem toName_toText_iff (n : Name) : toName n.toText = n ↔ ∀ c ∈ n, c.Faithful := by
  rw [toName, parseName_eq]
  constructor
  · intro h
    by_cases hne : n = []
    · subst hne
      rintro c ⟨⟩
    · exact (faithful_of_read hne (n.toText.takeWhile (· == slash))
        (n.toText.dropWhile (· == slash)) (atStart_takeWhile _)
        (List.takeWhile_append_dropWhile ..).symm h).2
  · intro h
    have hdrop : n.toText.dropWhile (· == slash) = n.toText := by
      cases n with
      | nil => rfl
      | cons c n =>
        obtain ⟨hp, -, hne⟩ := proper_of_faithful (h c (List.mem_cons_self ..))
        have hhead : ∃ rest, Name.toText (c :: n) = c.toText ++ rest := by
          by_cases hn : n = []
          · exact ⟨[], by rw [hn, List.append_nil]; rfl⟩
          · exact ⟨_, Name.toText_cons c hn⟩
        obtain ⟨rest, hrest⟩ := hhead
        rw [hrest]
        cases ht : c.toText with
        | nil => exact absurd ht hne
        | cons x xs =>
          rw [ht] at hp
          have hx : ¬(x == slash) = true := fun heq => hp.head.2.2 (by rw [beq_iff_eq.mp heq])
          exact List.dropWhile_cons_of_neg (p := (· == slash)) hx
    rw [hdrop]
    exact readName_toText h

/-! ## Accounting for the characters of a string -/

/-- `xs` writes `ys`: each character as it is, if it may be bare, or after a backslash. -/
inductive Spells (bare : UInt8 → Prop) : Text → Text → Prop where
  | nil : Spells bare [] []
  | plain {c : UInt8} {xs ys : Text} (h : bare c) : Spells bare xs ys →
    Spells bare (c :: xs) (c :: ys)
  | escaped {c : UInt8} {xs ys : Text} : Spells bare xs ys →
    Spells bare (backslash :: c :: xs) (c :: ys)

/-- The id may have bare periods, if the kind follows behind another one. -/
def SpellsComponent (xs : Text) (c : NameComponent) : Prop :=
  (∃ a b, xs = a ++ period :: b ∧ Spells (fun x => x ≠ slash ∧ x ≠ backslash) a c.id ∧
    Spells Inert b c.kind) ∨
  Spells Inert xs c.id ∧ c.kind = []

/-- The string is made of leading separators, the components with separators between them, and a
trailing separator or none. -/
def Accounts (s : Text) (n : Name) : Prop :=
  ∃ lead texts trail, s = lead ++ [slash].intercalate texts ++ trail ∧ (∀ x ∈ lead, x = slash) ∧
    (trail = [] ∨ trail = [slash]) ∧ List.Forall₂ SpellsComponent texts n

theorem Spells.tokens {bare : UInt8 → Prop} (hbare : ∀ c, bare c → c ≠ slash ∧ c ≠ backslash)
    {xs ys : Text} (h : Spells bare xs ys) :
    ∃ ts, Proper backslash slash ts ∧ chars backslash ts = xs := by
  induction h with
  | nil => exact ⟨[], proper_nil, rfl⟩
  | @plain c xs ys hc _ ih =>
    obtain ⟨ts, hp, rfl⟩ := ih
    exact ⟨.plain c :: ts, proper_cons_plain (hbare c hc).2 (hbare c hc).1 hp, rfl⟩
  | @escaped c xs ys _ ih =>
    obtain ⟨ts, hp, rfl⟩ := ih
    refine ⟨.escaped c :: ts, fun t ht => ?_, rfl⟩
    rcases List.mem_cons.mp ht with rfl | ht
    · refine ⟨?_, ?_, ?_⟩ <;> rintro ⟨⟩
    · exact hp t ht

theorem bare_of_inert (c : UInt8) (h : Inert c) : c ≠ slash ∧ c ≠ backslash := ⟨h.1, h.2.1⟩

theorem SpellsComponent.tokens {xs : Text} (h : SpellsComponent xs c) :
    ∃ ts, Proper backslash slash ts ∧ chars backslash ts = xs := by
  rcases h with ⟨a, b, rfl, ha, hb⟩ | ⟨h, -⟩
  · obtain ⟨ts, hts, rfl⟩ := ha.tokens fun _ h => h
    obtain ⟨us, hus, rfl⟩ := hb.tokens bare_of_inert
    refine ⟨ts ++ .plain period :: us, fun t ht => ?_, by rw [chars_append]; rfl⟩
    rcases List.mem_append.mp ht with ht | ht
    · exact hts t ht
    · exact proper_cons_plain (by decide) (by decide) hus t ht
  · exact h.tokens bare_of_inert

theorem spells_of_proper {bare : UInt8 → Prop}
    (hp : Proper backslash slash ts) (h : ∀ c, .plain c ∈ ts → bare c) :
    Spells bare (chars backslash ts) (vals ts) := by
  induction ts with
  | nil => exact .nil
  | cons t ts ih =>
    have hrest := ih hp.tail fun c hc => h c (List.mem_cons_of_mem _ hc)
    cases t with
    | plain c => exact .plain (h c (List.mem_cons_self ..)) hrest
    | escaped c => exact .escaped hrest
    | dangling => exact absurd rfl hp.head.1

theorem bare_of_proper (hp : Proper backslash slash ts) (c : UInt8)
    (h : .plain c ∈ ts) : c ≠ slash ∧ c ≠ backslash := by
  obtain ⟨-, hb, hs⟩ := hp _ h
  exact ⟨fun heq => hs (by rw [heq]), fun heq => hb (by rw [heq])⟩

theorem spellsComponent_of_proper (hp : Proper backslash slash ts) :
    SpellsComponent (chars backslash ts) (componentOf ts) := by
  have hinert : ∀ {us : List (Token UInt8)}, Proper backslash slash us → .plain period ∉ us →
      ∀ c, .plain c ∈ us → Inert c := by
    intro us hu hper c hc
    obtain ⟨hs, hb⟩ := bare_of_proper hu c hc
    exact ⟨hs, hb, fun heq => hper (by rw [← heq]; exact hc)⟩
  rcases exists_period_split ts with h | ⟨us, vs, rfl, h⟩
  · rw [componentOf_of_not_mem h]
    exact .inr ⟨spells_of_proper hp (hinert hp h), rfl⟩
  · rw [componentOf_period h]
    refine .inl ⟨chars backslash us, chars backslash vs, by rw [chars_append]; rfl, ?_, ?_⟩
    · exact spells_of_proper hp.left (bare_of_proper hp.left)
    · exact spells_of_proper hp.right.tail (hinert hp.right.tail h)

/-- A string that is accounted for does not end in the middle of an escape. -/
theorem not_endsInEscape_of_accounts {s : Text} {n : Name} (h : Accounts s n) :
    ¬EndsInEscape backslash s := by
  obtain ⟨lead, texts, trail, rfl, hlead, htrail, htexts⟩ := h
  have hskip : ∀ cs : Text, EndsInEscape backslash (slash :: cs) ↔ EndsInEscape backslash cs :=
    fun cs => @endsInEscape_sep _ _ _ _ [] slash_ne_backslash proper_nil cs
  have hbody : ¬EndsInEscape backslash ([slash].intercalate texts ++ trail) := by
    induction htexts with
    | nil =>
      rcases htrail with rfl | rfl <;> decide
    | @cons xs c rest n hx hrest ih =>
      obtain ⟨ts, hp, rfl⟩ := hx.tokens
      cases rest with
      | nil =>
        rw [List.intercalate_singleton]
        rcases htrail with rfl | rfl
        · rw [List.append_nil]
          exact not_endsInEscape_chars hp
        · rw [endsInEscape_sep slash_ne_backslash hp]
          decide
      | cons ys rest =>
        rw [List.intercalate_cons_cons, List.append_assoc, List.append_assoc]
        show ¬EndsInEscape backslash
          (chars backslash ts ++ slash :: ([slash].intercalate (ys :: rest) ++ trail))
        rw [endsInEscape_sep slash_ne_backslash hp]
        exact ih
  rw [List.append_assoc]
  induction lead with
  | nil => exact hbody
  | cons x lead ih =>
    rw [hlead x (List.mem_cons_self ..), List.cons_append, hskip]
    exact ih fun y hy => hlead y (List.mem_cons_of_mem _ hy)

theorem accounts_readName : ∀ s : Text, ¬EndsInEscape backslash s →
    ∃ texts trail, s = [slash].intercalate texts ++ trail ∧ (trail = [] ∨ trail = [slash]) ∧
      List.Forall₂ SpellsComponent texts (readName s) ∧ (s ≠ [] → texts ≠ []) := by
  intro s
  induction h : s.length using Nat.strong_induction_on generalizing s with
  | _ len ih =>
    intro hend
    rcases exists_segment backslash slash s with ⟨ts, hp, rfl⟩ | ⟨ts, rest, hp, rfl⟩ | ⟨ts, hp, rfl⟩
    · by_cases hne : ts = []
      · subst hne
        exact ⟨[], [], rfl, .inl rfl, .nil, fun h => absurd rfl h⟩
      · refine ⟨[chars backslash ts], [], ?_, .inl rfl, ?_, fun _ => List.cons_ne_nil _ _⟩
        · rw [List.intercalate_singleton, List.append_nil]
        · rw [readName, read_chars hp hne]
          exact .cons (spellsComponent_of_proper hp) .nil
    · rw [endsInEscape_sep slash_ne_backslash hp] at hend
      have hread : readName (chars backslash ts ++ slash :: rest) =
          componentOf ts :: readName rest := by
        rw [readName, read_sep slash_ne_backslash hp]
        rfl
      rw [hread]
      by_cases hrest : rest = []
      · subst hrest
        refine ⟨[chars backslash ts], [slash], ?_, .inr rfl, ?_, fun _ => List.cons_ne_nil _ _⟩
        · rw [List.intercalate_singleton]
        · exact .cons (spellsComponent_of_proper hp) .nil
      · have hlt : rest.length < len := by
          rw [← h, List.length_append, List.length_cons]
          omega
        obtain ⟨texts, trail, heq, htrail, hforall, hne⟩ := ih _ hlt rest rfl hend
        refine ⟨chars backslash ts :: texts, trail, ?_, htrail,
          .cons (spellsComponent_of_proper hp) hforall, fun _ => List.cons_ne_nil _ _⟩
        rw [List.intercalate_cons_of_ne_nil (hne hrest), List.append_assoc, List.append_assoc, ← heq]
        rfl
    · exact absurd (endsInEscape_escape hp) hend

theorem accounts_parseServiceName_iff (s : Text) :
    Accounts s (parseServiceName slash s) ↔ ¬EndsInEscape backslash s := by
  refine ⟨not_endsInEscape_of_accounts, fun h => ?_⟩
  obtain ⟨texts, trail, heq, htrail, hforall, -⟩ := accounts_readName s h
  refine ⟨[], texts, trail, heq, ?_, htrail, ?_⟩
  · rintro x ⟨⟩
  · rw [parseServiceName_eq]
    exact hforall

theorem endsInEscape_dropWhile (s : Text) :
    EndsInEscape backslash (s.dropWhile (· == slash)) ↔ EndsInEscape backslash s := by
  induction s with
  | nil => exact Iff.rfl
  | cons c s ih =>
    by_cases hc : c = slash
    · subst hc
      rw [List.dropWhile_cons_of_pos (p := (· == slash)) (beq_self_eq_true slash), ih]
      exact (@endsInEscape_sep _ _ _ _ [] slash_ne_backslash proper_nil s).symm
    · rw [List.dropWhile_cons_of_neg (p := (· == slash)) fun h => hc (beq_iff_eq.mp h)]

theorem accounts_parseName_iff (s : Text) :
    Accounts s (parseName slash s) ↔ ¬EndsInEscape backslash s := by
  refine ⟨not_endsInEscape_of_accounts, fun h => ?_⟩
  rw [← endsInEscape_dropWhile] at h
  obtain ⟨texts, trail, heq, htrail, hforall, -⟩ := accounts_readName _ h
  refine ⟨s.takeWhile (· == slash), texts, trail, ?_, fun x hx => ?_, htrail, ?_⟩
  · rw [List.append_assoc, ← heq]
    exact (List.takeWhile_append_dropWhile ..).symm
  · exact beq_iff_eq.mp (List.all_eq_true.mp List.all_takeWhile x hx)
  · rw [parseName_eq]
    exact hforall

/-! ## Stringified names -/

/-- Which names come back from their strings, and which strings are accounted for. -/
theorem stringifiedNames_iff (n : Name) (s : Text) :
    (toName n.toText = n ↔ ∀ c ∈ n, c.Faithful) ∧
      (Accounts s (parseName slash s) ↔ ¬EndsInEscape backslash s) ∧
      (Accounts s (parseServiceName slash s) ↔ ¬EndsInEscape backslash s) :=
  ⟨toName_toText_iff n, accounts_parseName_iff s, accounts_parseServiceName_iff s⟩

/-- An id with a separator, without a kind, becomes two components. -/
theorem not_stringifiedNames :
    ¬((∀ n : Name, n ≠ [] → toName n.toText = n) ∧
      ∀ s : Text, Accounts s (parseName slash s)) := by
  rintro ⟨hnames, -⟩
  exact absurd (hnames [⟨[97, slash, 98], []⟩] (List.cons_ne_nil _ _)) (by decide)

end PolyORB

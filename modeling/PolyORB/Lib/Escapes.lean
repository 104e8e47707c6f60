import Mathlib.Tactic

/-!
# Texts with an escape character

A text is read as tokens: a character stands for itself, unless it follows an unescaped escape
character.  An escape character at the end dangles.  Separators that are not escaped cut the tokens
into segments; no segment starts after a separator that ends the text.
-/

namespace Escapes

variable {α : Type}

inductive Token (α : Type) where
  | plain (c : α)
  | escaped (c : α)
  | dangling
  deriving DecidableEq

namespace Token

/-- How the token is written. -/
def chars (esc : α) : Token α → List α
  | plain c => [c]
  | escaped c => [esc, c]
  | dangling => [esc]

/-- What the token stands for. -/
def vals : Token α → List α
  | plain c | escaped c => [c]
  | dangling => []

end Token

open Token

def chars (esc : α) (ts : List (Token α)) : List α := ts.flatMap (Token.chars esc)

def vals (ts : List (Token α)) : List α := ts.flatMap Token.vals

@[simp] theorem chars_nil (esc : α) : chars esc ([] : List (Token α)) = [] := rfl

@[simp] theorem chars_cons (esc : α) (t : Token α) (ts : List (Token α)) :
    chars esc (t :: ts) = t.chars esc ++ chars esc ts := rfl

@[simp] theorem chars_append (esc : α) (ts us : List (Token α)) :
    chars esc (ts ++ us) = chars esc ts ++ chars esc us := List.flatMap_append

@[simp] theorem vals_nil : vals ([] : List (Token α)) = [] := rfl

@[simp] theorem vals_cons (t : Token α) (ts : List (Token α)) :
    vals (t :: ts) = t.vals ++ vals ts := rfl

@[simp] theorem vals_append (ts us : List (Token α)) : vals (ts ++ us) = vals ts ++ vals us :=
  List.flatMap_append

/-- Tokens as a reader finds them between two separators, in a text that ends well. -/
def Proper (esc sep : α) (ts : List (Token α)) : Prop :=
  ∀ t ∈ ts, t ≠ dangling ∧ t ≠ plain esc ∧ t ≠ plain sep

section Proper

variable {esc sep : α} {t : Token α} {ts us : List (Token α)}

theorem proper_cons_plain {c : α} (he : ¬c = esc) (hs : ¬c = sep) (h : Proper esc sep ts) :
    Proper esc sep (plain c :: ts) := by
  intro t ht
  rcases List.mem_cons.mp ht with rfl | ht
  · refine ⟨?_, ?_, ?_⟩
    · rintro ⟨⟩
    · rintro ⟨⟩
      exact he rfl
    · rintro ⟨⟩
      exact hs rfl
  · exact h t ht

theorem proper_nil : Proper esc sep ([] : List (Token α)) := fun _ h => nomatch h

theorem Proper.head (h : Proper esc sep (t :: ts)) :
    t ≠ dangling ∧ t ≠ plain esc ∧ t ≠ plain sep := h t (List.mem_cons_self ..)

theorem Proper.tail (h : Proper esc sep (t :: ts)) : Proper esc sep ts :=
  fun u hu => h u (List.mem_cons_of_mem _ hu)

theorem Proper.left (h : Proper esc sep (ts ++ us)) : Proper esc sep ts :=
  fun u hu => h u (List.mem_append_left _ hu)

theorem Proper.right (h : Proper esc sep (ts ++ us)) : Proper esc sep us :=
  fun u hu => h u (List.mem_append_right _ hu)

theorem length_vals_le (h : Proper esc sep ts) : (vals ts).length ≤ (chars esc ts).length := by
  induction ts with
  | nil => exact le_rfl
  | cons t ts ih =>
    have := ih h.tail
    rw [vals_cons, chars_cons, List.length_append, List.length_append]
    cases t with
    | plain c => exact Nat.add_le_add_left this _
    | escaped c => exact Nat.add_le_add (by decide : (1 : Nat) ≤ 2) this
    | dangling => exact absurd rfl h.head.1

theorem plain_of_length_eq (h : Proper esc sep ts)
    (hlen : (chars esc ts).length ≤ (vals ts).length) : ts = (vals ts).map plain := by
  induction ts with
  | nil => rfl
  | cons t ts ih =>
    have hle := length_vals_le h.tail
    rw [vals_cons, chars_cons, List.length_append, List.length_append] at hlen
    cases t with
    | plain c =>
      rw [vals_cons, List.map_append, ← ih h.tail (Nat.le_of_add_le_add_left hlen)]
      rfl
    | escaped c =>
      exfalso
      simp only [Token.chars, Token.vals, List.length_cons, List.length_nil] at hlen
      omega
    | dangling => exact absurd rfl h.head.1

theorem chars_map_plain (esc : α) (cs : List α) : chars esc (cs.map plain) = cs := by
  induction cs with
  | nil => rfl
  | cons c cs ih =>
    rw [List.map_cons, chars_cons, ih]
    rfl

theorem vals_map_plain (cs : List α) : vals (cs.map plain) = cs := by
  induction cs with
  | nil => rfl
  | cons c cs ih =>
    rw [List.map_cons, vals_cons, ih]
    rfl

theorem proper_map_plain {cs : List α} (he : esc ∉ cs) (hs : sep ∉ cs) :
    Proper esc sep (cs.map plain) := by
  intro t ht
  obtain ⟨c, hc, rfl⟩ := List.mem_map.mp ht
  refine ⟨?_, ?_, ?_⟩
  · rintro ⟨⟩
  · rintro ⟨⟩
    exact he hc
  · rintro ⟨⟩
    exact hs hc

theorem plain_of_not_mem (h : Proper esc sep ts) {cs : List α} (hcs : chars esc ts = cs)
    (he : esc ∉ cs) : ts = cs.map plain := by
  subst hcs
  induction ts with
  | nil => rfl
  | cons t ts ih =>
    rw [chars_cons, List.mem_append, not_or] at he
    cases t with
    | plain c =>
      rw [chars_cons, List.map_append, ← ih h.tail he.2]
      rfl
    | escaped c => exact absurd (List.mem_cons_self ..) he.1
    | dangling => exact absurd rfl h.head.1

theorem plain_mem_of_chars {d : α} (h : Proper esc sep ts) {cs : List α} (he : esc ∉ cs)
    (hd : d ≠ esc) : ∀ rest, chars esc ts = cs ++ d :: rest → plain d ∈ ts := by
  induction cs generalizing ts with
  | nil =>
    intro rest heq
    cases ts with
    | nil => cases heq
    | cons t ts =>
      cases t with
      | plain c =>
        obtain ⟨rfl, -⟩ := List.cons.inj heq
        exact List.mem_cons_self ..
      | escaped c =>
        obtain ⟨hesc, -⟩ := List.cons.inj heq
        exact absurd hesc.symm hd
      | dangling => exact absurd rfl h.head.1
  | cons c cs ih =>
    intro rest heq
    rw [List.mem_cons, not_or] at he
    cases ts with
    | nil => cases heq
    | cons t ts =>
      cases t with
      | plain c' =>
        obtain ⟨-, heq'⟩ := List.cons.inj heq
        exact List.mem_cons_of_mem _ (ih h.tail he.2 rest heq')
      | escaped c' =>
        obtain ⟨hesc, -⟩ := List.cons.inj heq
        exact absurd hesc he.1
      | dangling => exact absurd rfl h.head.1

end Proper

/-! ## Reading -/

section Reading

variable [DecidableEq α]

/-- The tokens of a text, after an escape character or not. -/
def tokensFrom (esc : α) : Bool → List α → List (Token α)
  | false, [] => []
  | true, [] => [dangling]
  | true, c :: cs => escaped c :: tokensFrom esc false cs
  | false, c :: cs => if c = esc then tokensFrom esc true cs else plain c :: tokensFrom esc false cs

def segments (sep : α) : List (Token α) → List (List (Token α))
  | [] => []
  | t :: ts =>
    if t = plain sep then [] :: segments sep ts
    else
      match segments sep ts with
      | [] => [[t]]
      | seg :: segs => (t :: seg) :: segs

/-- A segment that ends well. -/
def whole (seg : List (Token α)) : Bool := !seg.contains dangling

/-- The segments of a text that end well. -/
def read (esc sep : α) (cs : List α) : List (List (Token α)) :=
  (segments sep (tokensFrom esc false cs)).filter whole

/-- The text ends with an escape character that escapes nothing. -/
def EndsInEscape (esc : α) (cs : List α) : Prop := dangling ∈ tokensFrom esc false cs

instance (esc : α) (cs : List α) : Decidable (EndsInEscape esc cs) :=
  inferInstanceAs (Decidable (dangling ∈ tokensFrom esc false cs))

variable {esc sep : α} {ts : List (Token α)}

theorem tokensFrom_chars (h : Proper esc sep ts) (cs : List α) :
    tokensFrom esc false (chars esc ts ++ cs) = ts ++ tokensFrom esc false cs := by
  induction ts with
  | nil => rfl
  | cons t ts ih =>
    obtain ⟨hd, he, -⟩ := h.head
    cases t with
    | plain c =>
      have hne : ¬c = esc := fun heq => he (by rw [heq])
      show tokensFrom esc false (c :: (chars esc ts ++ cs)) = _
      rw [tokensFrom, if_neg hne, ih h.tail]
      rfl
    | escaped c =>
      show tokensFrom esc false (esc :: c :: (chars esc ts ++ cs)) = _
      rw [tokensFrom, if_pos rfl, tokensFrom, ih h.tail]
      rfl
    | dangling => exact absurd rfl hd

theorem segments_proper (h : Proper esc sep ts) (us : List (Token α)) :
    segments sep (ts ++ plain sep :: us) = ts :: segments sep us := by
  induction ts with
  | nil => exact if_pos rfl
  | cons t ts ih => rw [List.cons_append, segments, if_neg h.head.2.2, ih h.tail]

theorem segments_no_sep (h : ∀ t ∈ ts, t ≠ plain sep) (hne : ts ≠ []) : segments sep ts = [ts] := by
  induction ts with
  | nil => exact absurd rfl hne
  | cons t ts ih =>
    rw [segments, if_neg (h t (List.mem_cons_self ..))]
    cases ts with
    | nil => rfl
    | cons u us => rw [ih (fun x hx => h x (List.mem_cons_of_mem _ hx)) (List.cons_ne_nil _ _)]

theorem whole_of_proper (h : Proper esc sep ts) : whole ts = true := by
  rw [whole, Bool.not_eq_true', List.contains_eq_mem, decide_eq_false_iff_not]
  exact fun hd => (h _ hd).1 rfl

theorem read_chars (h : Proper esc sep ts) (hne : ts ≠ []) : read esc sep (chars esc ts) = [ts] := by
  have htok := tokensFrom_chars h []
  rw [List.append_nil] at htok
  rw [read, htok]
  show (segments sep (ts ++ [])).filter whole = [ts]
  rw [List.append_nil, segments_no_sep (fun t ht => (h t ht).2.2) hne,
    List.filter_cons_of_pos (whole_of_proper h), List.filter_nil]

theorem read_sep (hsep : sep ≠ esc) (h : Proper esc sep ts) (rest : List α) :
    read esc sep (chars esc ts ++ sep :: rest) = ts :: read esc sep rest := by
  rw [read, tokensFrom_chars h, tokensFrom, if_neg hsep, segments_proper h,
    List.filter_cons_of_pos (whole_of_proper h)]
  rfl

theorem segments_escape (h : Proper esc sep ts) :
    (segments sep (ts ++ [dangling])).filter whole = [] := by
  have hno : ∀ t ∈ ts ++ [dangling], t ≠ plain sep := by
    intro t ht
    rcases List.mem_append.mp ht with ht | ht
    · exact (h t ht).2.2
    · rw [List.mem_singleton.mp ht]
      rintro ⟨⟩
  rw [segments_no_sep hno (List.append_ne_nil_of_right_ne_nil _ (List.cons_ne_nil _ _)),
    List.filter_cons_of_neg, List.filter_nil]
  simp [whole]

theorem read_escape (h : Proper esc sep ts) : read esc sep (chars esc ts ++ [esc]) = [] := by
  have htok : tokensFrom esc false (chars esc ts ++ [esc]) = ts ++ [dangling] := by
    rw [tokensFrom_chars h, tokensFrom, if_pos rfl]
    rfl
  rw [read, htok, segments_escape h]

theorem not_endsInEscape_chars (h : Proper esc sep ts) : ¬EndsInEscape esc (chars esc ts) := by
  have htok := tokensFrom_chars h []
  rw [List.append_nil] at htok
  rw [EndsInEscape, htok]
  intro hd
  rcases List.mem_append.mp hd with hd | hd
  · exact (h _ hd).1 rfl
  · cases hd

theorem endsInEscape_sep (hsep : sep ≠ esc) (h : Proper esc sep ts) (rest : List α) :
    EndsInEscape esc (chars esc ts ++ sep :: rest) ↔ EndsInEscape esc rest := by
  rw [EndsInEscape, tokensFrom_chars h, tokensFrom, if_neg hsep, List.mem_append, List.mem_cons]
  constructor
  · rintro (hd | hd | hd)
    · exact absurd rfl (h _ hd).1
    · cases hd
    · exact hd
  · exact fun hd => .inr (.inr hd)

theorem endsInEscape_escape (h : Proper esc sep ts) :
    EndsInEscape esc (chars esc ts ++ [esc]) := by
  rw [EndsInEscape, tokensFrom_chars h, tokensFrom, if_pos rfl]
  exact List.mem_append_right _ (List.mem_cons_self ..)

theorem exists_segment (esc sep : α) : ∀ cs : List α,
    (∃ ts, Proper esc sep ts ∧ cs = chars esc ts) ∨
      (∃ ts rest, Proper esc sep ts ∧ cs = chars esc ts ++ sep :: rest) ∨
      ∃ ts, Proper esc sep ts ∧ cs = chars esc ts ++ [esc]
  | [] => .inl ⟨[], proper_nil, rfl⟩
  | [c] => by
    by_cases he : c = esc
    · exact .inr (.inr ⟨[], proper_nil, by rw [he]; rfl⟩)
    · by_cases hs : c = sep
      · exact .inr (.inl ⟨[], [], proper_nil, by rw [hs]; rfl⟩)
      · exact .inl ⟨[plain c], proper_cons_plain he hs proper_nil, rfl⟩
  | c :: d :: cs => by
    by_cases he : c = esc
    · subst he
      have hcons : ∀ {ts}, Proper c sep ts → Proper c sep (escaped d :: ts) := by
        intro ts h t ht
        rcases List.mem_cons.mp ht with rfl | ht
        · refine ⟨?_, ?_, ?_⟩ <;> rintro ⟨⟩
        · exact h t ht
      rcases exists_segment c sep cs with ⟨ts, h, rfl⟩ | ⟨ts, rest, h, rfl⟩ | ⟨ts, h, rfl⟩
      · exact .inl ⟨escaped d :: ts, hcons h, rfl⟩
      · exact .inr (.inl ⟨escaped d :: ts, rest, hcons h, rfl⟩)
      · exact .inr (.inr ⟨escaped d :: ts, hcons h, rfl⟩)
    · by_cases hs : c = sep
      · exact .inr (.inl ⟨[], d :: cs, proper_nil, by rw [hs]; rfl⟩)
      · rcases exists_segment esc sep (d :: cs) with ⟨ts, h, heq⟩ | ⟨ts, rest, h, heq⟩ | ⟨ts, h, heq⟩
        · exact .inl ⟨plain c :: ts, proper_cons_plain he hs h, by rw [heq]; rfl⟩
        · exact .inr (.inl ⟨plain c :: ts, rest, proper_cons_plain he hs h, by rw [heq]; rfl⟩)
        · exact .inr (.inr ⟨plain c :: ts, proper_cons_plain he hs h, by rw [heq]; rfl⟩)

theorem read_eq_cons (hsep : sep ≠ esc) {cs : List α} {segs : List (List (Token α))}
    (h : read esc sep cs = ts :: segs) :
    Proper esc sep ts ∧ ((cs = chars esc ts ∧ segs = []) ∨
      ∃ rest, cs = chars esc ts ++ sep :: rest ∧ segs = read esc sep rest) := by
  rcases exists_segment esc sep cs with ⟨us, hu, rfl⟩ | ⟨us, rest, hu, rfl⟩ | ⟨us, hu, rfl⟩
  · by_cases hne : us = []
    · subst hne
      cases h
    · rw [read_chars hu hne] at h
      obtain ⟨rfl, rfl⟩ := List.cons.inj h
      exact ⟨hu, .inl ⟨rfl, rfl⟩⟩
  · rw [read_sep hsep hu] at h
    obtain ⟨rfl, rfl⟩ := List.cons.inj h
    exact ⟨hu, .inr ⟨rest, rfl, rfl⟩⟩
  · rw [read_escape hu] at h
    cases h

end Reading

end Escapes

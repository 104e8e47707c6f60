import Mathlib.Tactic

/-!
# Flow stacks

A flow goes up through a list of stages and comes down through those that it completed.  An event
may replace the outcome of the flow; each stage on the way down gets one ending event, that depends
on the outcome at this moment.
-/

namespace FlowStack

variable {ε ω ι : Type}

/-- The outcome after an event: `effect` is what replaces it, if anything. -/
def after (effect : ε → Option ω) (o : ω) (e : ε) : ω := (effect e).getD o

def outcome (effect : ε → Option ω) : ω → List ε → ω := List.foldl (after effect)

/-- The stages whose starting event is in the log and left the outcome alone, in this order. -/
def completed (effect : ε → Option ω) (starting : ε → Option ι) (log : List ε) : List ι :=
  log.filterMap fun e => if (effect e).isNone then starting e else none

/-- One ending event for each of the stages. -/
def unwinding (effect : ε → Option ω) (ending : ω → ι → ε) : ω → List ι → List ε
  | _, [] => []
  | o, i :: is => ending o i :: unwinding effect ending (after effect o (ending o i)) is

/-- After the events of the way up, the log has one ending event for each stage that was completed,
in the reverse order, and no other. -/
def Unwinds (effect : ε → Option ω) (starting : ε → Option ι) (ending : ω → ι → ε) (o : ω)
    (up log : List ε) : Prop :=
  log = up ++ unwinding effect ending (outcome effect o up) (completed effect starting up).reverse

section Lemmas

variable {effect : ε → Option ω} {starting : ε → Option ι} {ending : ω → ι → ε}

@[simp] theorem outcome_nil (o : ω) : outcome effect o [] = o := rfl

@[simp] theorem outcome_cons (o : ω) (e : ε) (log : List ε) :
    outcome effect o (e :: log) = outcome effect (after effect o e) log := rfl

theorem outcome_append (o : ω) (l l' : List ε) :
    outcome effect o (l ++ l') = outcome effect (outcome effect o l) l' := List.foldl_append ..

theorem completed_append (l l' : List ε) : completed effect starting (l ++ l') =
    completed effect starting l ++ completed effect starting l' := List.filterMap_append ..

theorem after_none {e : ε} (h : effect e = none) (o : ω) : after effect o e = o := by
  rw [after, h]
  rfl

theorem after_some {e : ε} {o' : ω} (h : effect e = some o') (o : ω) : after effect o e = o' := by
  rw [after, h]
  rfl

theorem outcome_of_none {log : List ε} (h : ∀ e ∈ log, effect e = none) (o : ω) :
    outcome effect o log = o := by
  induction log with
  | nil => rfl
  | cons e log ih =>
    rw [outcome_cons, after_none (h e List.mem_cons_self)]
    exact ih fun e he => h e (List.mem_cons_of_mem _ he)

theorem completed_of_none {log : List ε} (h : ∀ e ∈ log, starting e = none) :
    completed effect starting log = [] := by
  rw [completed, List.filterMap_eq_nil_iff]
  intro e he
  rw [h e he, ite_self]

end Lemmas

end FlowStack

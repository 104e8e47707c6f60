import PolyORB.Tasking.Ravenscar
import PolyORB.Lib.Runs
import PolyORB.Lib.Tally

/-!
# Synchro objects of the threads

A thread has a synchro object from `Prepare_Suspend` until it is released.  Exactly one wake-up, a
`Resume` that is still to come or a barrier that is signalled, is there for each thread that is due
to go on, and none for another one.
-/

namespace PolyORB

namespace ThreadPhase

def synchro : ThreadPhase → Option Nat
  | .preparing _ i | .prepared _ i | .aborting _ i | .suspended _ i | .checkSignaled _ i
  | .checkWaiting _ i | .releasing _ i | .leaving _ (some (_, i)) | .resuming _ (some (_, _, i)) =>
    some i
  | _ => none

def armed : ThreadPhase → Bool
  | .prepared _ _ | .aborting _ _ | .suspended _ _ | .leaving _ (some _) | .resuming _ (some _) =>
    true
  | _ => false

def resumes : ThreadPhase → List Nat
  | .resuming barriers _ => barriers
  | _ => []

/-- `Synchro_Index_Manager` has been initialized. -/
def past : ThreadPhase → Bool
  | .elaborated | .initializing | .failed _ => false
  | _ => true

end ThreadPhase

namespace Ravenscar

def assignedTo (s : Ravenscar) (t : Nat) : Option PoolJob := (s.assigned[t]?).join

/-- The `Resume`s of a barrier that are still to come. -/
def pending (s : Ravenscar) (i : Nat) : Nat :=
  (s.threads.map fun th => th.phase.resumes.count i).sum

def wakeUps (s : Ravenscar) (i : Nat) : Nat := s.pending i + (s.barriers i).signaled.toNat

/-- The thread has been given a job or the mutex, or the condition has been signalled to it. -/
def due (s : Ravenscar) (t : Nat) : ThreadPhase → Bool
  | .prepared .initial _ | .prepared .next _ | .suspended .initial _ | .suspended .next _ =>
    (s.assignedTo t).isSome
  | .suspended (.enter m) _ => !(s.entering m).contains t
  | .suspended (.wait c _) _ | .leaving _ (some (c, _)) | .resuming _ (some (c, _, _)) =>
    !(s.waiting c).contains t
  | _ => false

def Held (s : Ravenscar) (i : Nat) : Prop :=
  ∃ (t : Nat) (th : RavenscarThread), s.threads[t]? = some th ∧ i ∈ th.phase.synchro

structure SynchroInv (s : Ravenscar) : Prop where
  fresh : s.synchros.initialized = false → ∀ i, s.synchros.used i = false
  ready : s.synchros.initialized = true → s.synchros.Valid
  past : ∀ (t : Nat) (th : RavenscarThread), s.threads[t]? = some th → th.phase.past = true →
    s.synchros.initialized = true
  count : s.synchros.numberOfUsed = s.threads.countP fun th => th.phase.synchro.isSome
  used : ∀ (t : Nat) (th : RavenscarThread), s.threads[t]? = some th →
    ∀ i ∈ th.phase.synchro, s.synchros.used i = true
  distinct : ∀ (t t' : Nat) (th th' : RavenscarThread), s.threads[t]? = some th →
    s.threads[t']? = some th' → ∀ i ∈ th.phase.synchro, i ∈ th'.phase.synchro → t = t'
  waiting : ∀ (t : Nat) (th : RavenscarThread), s.threads[t]? = some th → ∀ i ∈ th.phase.synchro,
    (s.barriers i).waiting = th.phase.armed
  wakeUps : ∀ (t : Nat) (th : RavenscarThread), s.threads[t]? = some th → ∀ i ∈ th.phase.synchro,
    s.wakeUps i = (s.due t th.phase).toNat
  idle : ∀ i, s.Held i ∨ (s.barriers i = ⟨false, false⟩ ∧ s.wakeUps i = 0)

variable {s s' : Ravenscar} {t u i : Nat} {th th' thu : RavenscarThread}

theorem getElem?_set_cases (ht : s.threads[t]? = some th) (hs : s'.threads = s.threads.set t th')
    (hu : s'.threads[u]? = some thu) :
    (u = t ∧ thu = th') ∨ (u ≠ t ∧ s.threads[u]? = some thu) := by
  rw [hs] at hu
  by_cases hut : u = t
  · subst hut
    rw [List.getElem?_set_self (List.getElem?_eq_some_iff.mp ht).1] at hu
    exact .inl ⟨rfl, (Option.some.inj hu).symm⟩
  · rw [List.getElem?_set_ne (Ne.symm hut)] at hu
    exact .inr ⟨hut, hu⟩

theorem pending_set (ht : s.threads[t]? = some th) (hs : s'.threads = s.threads.set t th')
    (i : Nat) :
    s'.pending i + th.phase.resumes.count i = s.pending i + th'.phase.resumes.count i := by
  rw [pending, hs]
  exact Tally.sum_map_set_add (fun th => th.phase.resumes.count i) th' ht

theorem pending_move (th' : RavenscarThread) (ht : s.threads[t]? = some th)
    (hs : s'.threads = s.threads.set t th')
    (hres : th'.phase.resumes = th.phase.resumes) (i : Nat) : s'.pending i = s.pending i := by
  have := pending_set ht hs i
  rw [hres] at this
  omega

theorem SynchroInv.not_held (h : s.SynchroInv) (hi : s.synchros.used i = false) : ¬s.Held i := by
  rintro ⟨t, th, ht, hmem⟩
  rw [h.used t th ht i hmem] at hi
  cases hi

theorem armed_of_due {phase : ThreadPhase} (h : s.due t phase = true) : phase.armed = true := by
  unfold due at h
  split at h <;> first | rfl | cases h

theorem SynchroInv.set (h : s.SynchroInv) (ht : s.threads[t]? = some th)
    (hs : s'.threads = s.threads.set t th')
    (hnew : s'.synchros.initialized = false → ∀ i, s'.synchros.used i = false)
    (hready : s'.synchros.initialized = true → s'.synchros.Valid)
    (hinit : s.synchros.initialized = true → s'.synchros.initialized = true)
    (hpast : th'.phase.past = true → s'.synchros.initialized = true)
    (hcount : s'.synchros.numberOfUsed + th.phase.synchro.isSome.toNat =
      s.synchros.numberOfUsed + th'.phase.synchro.isSome.toNat)
    (hused : ∀ i, i ∉ th.phase.synchro → s.synchros.used i = true → s'.synchros.used i = true)
    (hself : ∀ i ∈ th'.phase.synchro, s'.synchros.used i = true ∧
      (s'.barriers i).waiting = th'.phase.armed ∧ s'.wakeUps i = (s'.due t th'.phase).toNat)
    (hfresh : ∀ i ∈ th'.phase.synchro, i ∈ th.phase.synchro ∨ s.synchros.used i = false)
    (hothers : ∀ u ≠ t, ∀ thu : RavenscarThread, s.threads[u]? = some thu → ∀ i ∈ thu.phase.synchro,
      (s'.barriers i).waiting = (s.barriers i).waiting ∧
        s'.wakeUps i + (s.due u thu.phase).toNat = s.wakeUps i + (s'.due u thu.phase).toNat)
    (hleft : ∀ i ∈ th.phase.synchro, i ∉ th'.phase.synchro →
      s'.barriers i = ⟨false, false⟩ ∧ s'.wakeUps i = 0)
    (hidle : ∀ i, ¬s.Held i → i ∉ th'.phase.synchro →
      s'.barriers i = s.barriers i ∧ s'.wakeUps i = s.wakeUps i) : s'.SynchroInv where
  fresh := hnew
  ready := hready
  past u thu hu hp := by
    rcases getElem?_set_cases ht hs hu with ⟨rfl, rfl⟩ | ⟨-, hu⟩
    · exact hpast hp
    · exact hinit (h.past u thu hu hp)
  count := by
    have hset := Tally.countP_set_add (fun th => th.phase.synchro.isSome) th' ht
    have hw (x : RavenscarThread) : Tally.weight (fun th => th.phase.synchro.isSome) x =
        x.phase.synchro.isSome.toNat := by
      show (if x.phase.synchro.isSome = true then 1 else 0) = _
      cases x.phase.synchro.isSome <;> rfl
    rw [hw, hw] at hset
    have := h.count
    rw [hs]
    omega
  used u thu hu i hi := by
    rcases getElem?_set_cases ht hs hu with ⟨rfl, rfl⟩ | ⟨hut, hu⟩
    · exact (hself i hi).1
    · exact hused i (fun hmem => hut (h.distinct u t thu th hu ht i hi hmem)) (h.used u thu hu i hi)
  distinct u u' thu thu' hu hu' i hi hi' := by
    have hne (v : Nat) (thv : RavenscarThread) (hv : s.threads[v]? = some thv)
        (hiv : i ∈ thv.phase.synchro) (hit : i ∈ th'.phase.synchro) (hvt : v ≠ t) : False := by
      rcases hfresh i hit with hmem | hun
      · exact hvt (h.distinct v t thv th hv ht i hiv hmem)
      · exact h.not_held hun ⟨v, thv, hv, hiv⟩
    rcases getElem?_set_cases ht hs hu with ⟨rfl, rfl⟩ | ⟨hut, hu⟩ <;>
      rcases getElem?_set_cases ht hs hu' with ⟨rfl, rfl⟩ | ⟨hut', hu'⟩
    · rfl
    · exact (hne u' thu' hu' hi' hi hut').elim
    · exact (hne u thu hu hi hi' hut).elim
    · exact h.distinct u u' thu thu' hu hu' i hi hi'
  waiting u thu hu i hi := by
    rcases getElem?_set_cases ht hs hu with ⟨rfl, rfl⟩ | ⟨hut, hu⟩
    · exact (hself i hi).2.1
    · rw [(hothers u hut thu hu i hi).1]
      exact h.waiting u thu hu i hi
  wakeUps u thu hu i hi := by
    rcases getElem?_set_cases ht hs hu with ⟨rfl, rfl⟩ | ⟨hut, hu⟩
    · exact (hself i hi).2.2
    · have := (hothers u hut thu hu i hi).2
      have := h.wakeUps u thu hu i hi
      omega
  idle i := by
    by_cases hi' : i ∈ th'.phase.synchro
    · refine .inl ⟨t, th', ?_, hi'⟩
      rw [hs, List.getElem?_set_self (List.getElem?_eq_some_iff.mp ht).1]
    · by_cases hi : i ∈ th.phase.synchro
      · exact .inr (hleft i hi hi')
      · rcases h.idle i with ⟨u, thu, hu, hmem⟩ | ⟨hb, hw⟩
        · refine .inl ⟨u, thu, ?_, hmem⟩
          have hut : u ≠ t := by
            rintro rfl
            rw [ht] at hu
            obtain rfl := Option.some.inj hu
            exact hi hmem
          rw [hs, List.getElem?_set_ne (Ne.symm hut)]
          exact hu
        · by_cases hheld : s.Held i
          · obtain ⟨u, thu, hu, hmem⟩ := hheld
            have hut : u ≠ t := by
              rintro rfl
              rw [ht] at hu
              obtain rfl := Option.some.inj hu
              exact hi hmem
            exact .inl ⟨u, thu, by rw [hs, List.getElem?_set_ne (Ne.symm hut)]; exact hu, hmem⟩
          · obtain ⟨hb', hw'⟩ := hidle i hheld hi'
            exact .inr ⟨hb'.trans hb, hw'.trans hw⟩

theorem SynchroInv.move (h : s.SynchroInv) (ht : s.threads[t]? = some th)
    (hs : s'.threads = s.threads.set t th') (hsyn : s'.synchros = s.synchros)
    (hphase : th'.phase.synchro = th.phase.synchro)
    (hpast : th'.phase.past = true → th.phase.past = true)
    (hres : th'.phase.resumes = th.phase.resumes)
    (hbar : ∀ i, i ∉ th.phase.synchro → s'.barriers i = s.barriers i)
    (hdue : ∀ u ≠ t, ∀ phase, s'.due u phase = s.due u phase)
    (hself : ∀ i ∈ th.phase.synchro, (s'.barriers i).waiting = th'.phase.armed ∧
      s.pending i + (s'.barriers i).signaled.toNat = (s'.due t th'.phase).toNat) :
    s'.SynchroInv := by
  have hpending := pending_move _ ht hs hres
  have hwake (i : Nat) (hi : i ∉ th.phase.synchro) : s'.wakeUps i = s.wakeUps i := by
    rw [Ravenscar.wakeUps, hpending, hbar i hi, Ravenscar.wakeUps]
  refine h.set ht hs ?_ ?_ ?_ ?_ ?_ ?_ ?_ ?_ ?_ ?_ ?_
  · rw [hsyn]
    exact h.fresh
  · rw [hsyn]
    exact h.ready
  · rw [hsyn]
    exact id
  · rw [hsyn]
    exact fun hp => h.past t th ht (hpast hp)
  · rw [hsyn, hphase]
  · rw [hsyn]
    exact fun i _ hi => hi
  · intro i hi
    rw [hphase] at hi
    obtain ⟨hw, hd⟩ := hself i hi
    refine ⟨?_, hw, ?_⟩
    · rw [hsyn]
      exact h.used t th ht i hi
    · rw [Ravenscar.wakeUps, hpending, hd]
  · intro i hi
    rw [hphase] at hi
    exact .inl hi
  · intro u hut thu hu i hi
    have hne : i ∉ th.phase.synchro := fun hmem => hut (h.distinct u t thu th hu ht i hi hmem)
    rw [hbar i hne, hwake i hne, hdue u hut]
    exact ⟨rfl, rfl⟩
  · intro i hi hi'
    rw [hphase] at hi'
    exact absurd hi hi'
  · intro i hheld hi
    rw [hphase] at hi
    exact ⟨hbar i hi, hwake i hi⟩

end Ravenscar

end PolyORB

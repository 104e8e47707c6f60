import Mathlib.Tactic

/-!
# Accounting for requests

Where each request of a client stands, as lists: the table holds the requests that are pending, the
outputs those completed, and an invocation is in flight until its message was sent or its failure
reported.  What a LocateReply completes stays in the table for a while.
-/

namespace PolyORB

/-- Each invoked request is pending, completed, dropped or in flight; only a request in flight that was
dropped is still to be completed, and only one that a LocateReply has completed is both pending and
completed. -/
structure Accounted (pending executed dropped located inFlight invoked : List Nat)
    (issued : Nat → Prop) : Prop where
  pending_nodup : pending.Nodup
  executed_nodup : executed.Nodup
  both : ∀ r ∈ pending, r ∈ executed → r ∈ located
  located_done : ∀ r ∈ located, r ∈ executed ∧ issued r
  invoked_of : ∀ r, r ∈ pending ∨ r ∈ executed ∨ r ∈ dropped ∨ r ∈ inFlight ∨ issued r → r ∈ invoked
  dropped_pending : ∀ r ∈ dropped, r ∉ pending
  flight_nodup : inFlight.Nodup
  flight_cases : ∀ r ∈ inFlight, r ∈ pending ∨ r ∈ executed ∨ r ∈ dropped
  flight_dropped : ∀ r ∈ inFlight, r ∈ dropped → r ∉ executed
  issued_done : ∀ r, issued r → r ∉ inFlight

namespace Accounted

variable {P Q E D L F F' I : List Nat} {iss iss' : Nat → Prop} {r : Nat}

theorem nil (h : ∀ r, ¬iss r) : Accounted [] [] [] [] [] [] iss where
  pending_nodup := .nil
  executed_nodup := .nil
  both := fun r hr => absurd hr List.not_mem_nil
  located_done := fun r hr => absurd hr List.not_mem_nil
  invoked_of := by
    intro r hr
    simp only [List.not_mem_nil, false_or] at hr
    exact absurd hr (h r)
  dropped_pending := fun r hr => absurd hr List.not_mem_nil
  flight_nodup := .nil
  flight_cases := fun r hr => absurd hr List.not_mem_nil
  flight_dropped := fun r hr => absurd hr List.not_mem_nil
  issued_done := fun r hr => absurd hr (h r)

theorem congr (h : Accounted P E D L F I iss) (hP : P.Perm Q) (hF : F.Perm F')
    (hiss : ∀ r, iss' r ↔ iss r) : Accounted Q E D L F' I iss' where
  pending_nodup := hP.nodup_iff.mp h.pending_nodup
  executed_nodup := h.executed_nodup
  both := fun r hr => h.both r (hP.mem_iff.mpr hr)
  located_done := fun r hr => (h.located_done r hr).imp id (hiss r).mpr
  invoked_of := by
    intro r hr
    rw [← hP.mem_iff, ← hF.mem_iff, hiss] at hr
    exact h.invoked_of r hr
  dropped_pending := fun r hr hq => h.dropped_pending r hr (hP.mem_iff.mpr hq)
  flight_nodup := hF.nodup_iff.mp h.flight_nodup
  flight_cases := by
    intro r hr
    rw [← hP.mem_iff]
    exact h.flight_cases r (hF.mem_iff.mpr hr)
  flight_dropped := fun r hr => h.flight_dropped r (hF.mem_iff.mpr hr)
  issued_done := fun r hr hf => h.issued_done r ((hiss r).mp hr) (hF.mem_iff.mpr hf)

theorem mem_executed_iff (h : Accounted P E D L F I iss) (hr : r ∈ P) : r ∈ E ↔ r ∈ L :=
  ⟨h.both r hr, fun hl => (h.located_done r hl).1⟩

theorem invoke (h : Accounted P E D L F I iss) (hr : r ∉ I) :
    Accounted (r :: P) E D L (r :: F) (r :: I) iss where
  pending_nodup := List.nodup_cons.mpr ⟨fun hm => hr (h.invoked_of r (.inl hm)), h.pending_nodup⟩
  executed_nodup := h.executed_nodup
  both := by
    intro q hq he
    rcases List.mem_cons.mp hq with rfl | hq
    · exact absurd (h.invoked_of q (.inr (.inl he))) hr
    · exact h.both q hq he
  located_done := h.located_done
  invoked_of := by
    intro q hq
    by_cases hqr : q = r
    · exact hqr ▸ List.mem_cons_self ..
    · refine List.mem_cons_of_mem _ (h.invoked_of q ?_)
      simpa [hqr] using hq
  dropped_pending := by
    intro q hq hm
    rcases List.mem_cons.mp hm with rfl | hm
    · exact hr (h.invoked_of q (.inr (.inr (.inl hq))))
    · exact h.dropped_pending q hq hm
  flight_nodup :=
    List.nodup_cons.mpr ⟨fun hm => hr (h.invoked_of r (.inr (.inr (.inr (.inl hm))))), h.flight_nodup⟩
  flight_cases := by
    intro q hq
    rcases List.mem_cons.mp hq with rfl | hq
    · exact .inl (List.mem_cons_self ..)
    · rcases h.flight_cases q hq with hm | hm
      · exact .inl (List.mem_cons_of_mem _ hm)
      · exact .inr hm
  flight_dropped := by
    intro q hq hd
    rcases List.mem_cons.mp hq with rfl | hq
    · exact absurd (h.invoked_of q (.inr (.inr (.inl hd)))) hr
    · exact h.flight_dropped q hq hd
  issued_done := by
    intro q hq hm
    rcases List.mem_cons.mp hm with rfl | hm
    · exact hr (h.invoked_of q (.inr (.inr (.inr (.inr hq)))))
    · exact h.issued_done q hq hm

theorem complete (h : Accounted (Q ++ P) E D L F I iss) (hQ : ∀ r ∈ Q, r ∉ L) :
    Accounted P (E ++ Q) D L F I iss where
  pending_nodup := (List.nodup_append.mp h.pending_nodup).2.1
  executed_nodup := by
    refine List.nodup_append.mpr ⟨h.executed_nodup, (List.nodup_append.mp h.pending_nodup).1, ?_⟩
    rintro r he _ hq rfl
    exact hQ r hq (h.both r (List.mem_append_left _ hq) he)
  both := by
    intro r hr he
    rcases List.mem_append.mp he with he | hq
    · exact h.both r (List.mem_append_right _ hr) he
    · exact absurd rfl ((List.nodup_append.mp h.pending_nodup).2.2 r hq r hr)
  located_done := fun r hr => (h.located_done r hr).imp (List.mem_append_left _) id
  invoked_of := by
    intro r hr
    refine h.invoked_of r ?_
    rw [List.mem_append] at hr ⊢
    tauto
  dropped_pending := fun r hr hm => h.dropped_pending r hr (List.mem_append_right _ hm)
  flight_nodup := h.flight_nodup
  flight_cases := by
    intro r hr
    have := h.flight_cases r hr
    rw [List.mem_append] at this ⊢
    tauto
  flight_dropped := by
    intro r hr hd hm
    rcases List.mem_append.mp hm with hm | hm
    · exact h.flight_dropped r hr hd hm
    · exact h.dropped_pending r hd (List.mem_append_left _ hm)
  issued_done := h.issued_done

/-- A LocateReply completes a request and leaves it in the table. -/
theorem locate (h : Accounted P E D L F I iss) (hr : r ∈ P) (hL : r ∉ L) (hiss : iss r) :
    Accounted P (E ++ [r]) D (r :: L) F I iss where
  pending_nodup := h.pending_nodup
  executed_nodup := by
    refine List.nodup_append.mpr ⟨h.executed_nodup, List.nodup_singleton r, ?_⟩
    rintro q he _ hq rfl
    rw [List.mem_singleton.mp hq] at he
    exact hL (h.both r hr he)
  both := by
    intro q hq he
    rcases List.mem_append.mp he with he | he
    · exact List.mem_cons_of_mem _ (h.both q hq he)
    · rw [List.mem_singleton.mp he]
      exact List.mem_cons_self ..
  located_done := by
    intro q hq
    rcases List.mem_cons.mp hq with rfl | hq
    · exact ⟨List.mem_append_right _ (List.mem_singleton_self _), hiss⟩
    · exact (h.located_done q hq).imp (List.mem_append_left _) id
  invoked_of := by
    intro q hq
    refine h.invoked_of q ?_
    rw [List.mem_append, List.mem_singleton] at hq
    rcases hq with hq | (hq | rfl) | hq
    · exact .inl hq
    · exact .inr (.inl hq)
    · exact .inl hr
    · exact .inr (.inr hq)
  dropped_pending := h.dropped_pending
  flight_nodup := h.flight_nodup
  flight_cases := by
    intro q hq
    have := h.flight_cases q hq
    rw [List.mem_append]
    tauto
  flight_dropped := by
    intro q hq hd he
    rcases List.mem_append.mp he with he | he
    · exact h.flight_dropped q hq hd he
    · rw [List.mem_singleton.mp he] at hq
      exact h.issued_done r hiss hq
  issued_done := h.issued_done

theorem drop (h : Accounted (r :: P) E D L F I iss) : Accounted P E (r :: D) L F I iss where
  pending_nodup := (List.nodup_cons.mp h.pending_nodup).2
  executed_nodup := h.executed_nodup
  both := fun q hq => h.both q (List.mem_cons_of_mem _ hq)
  located_done := h.located_done
  invoked_of := by
    intro q hq
    refine h.invoked_of q ?_
    rw [List.mem_cons] at hq ⊢
    tauto
  dropped_pending := by
    intro q hq hm
    rcases List.mem_cons.mp hq with rfl | hq
    · exact (List.nodup_cons.mp h.pending_nodup).1 hm
    · exact h.dropped_pending q hq (List.mem_cons_of_mem _ hm)
  flight_nodup := h.flight_nodup
  flight_cases := by
    intro q hq
    have := h.flight_cases q hq
    rw [List.mem_cons] at this ⊢
    tauto
  flight_dropped := by
    intro q hq hd
    rcases List.mem_cons.mp hd with rfl | hd
    · intro he
      exact h.issued_done q (h.located_done q (h.both q (List.mem_cons_self ..) he)).2 hq
    · exact h.flight_dropped q hq hd
  issued_done := h.issued_done

theorem forget (h : Accounted (r :: P) E D L F I iss) (hr : r ∉ F) : Accounted P E D L F I iss where
  pending_nodup := (List.nodup_cons.mp h.pending_nodup).2
  executed_nodup := h.executed_nodup
  both := fun q hq => h.both q (List.mem_cons_of_mem _ hq)
  located_done := h.located_done
  invoked_of := by
    intro q hq
    refine h.invoked_of q ?_
    tauto
  dropped_pending := fun q hq hm => h.dropped_pending q hq (List.mem_cons_of_mem _ hm)
  flight_nodup := h.flight_nodup
  flight_cases := by
    intro q hq
    have hqr : q ≠ r := fun heq => hr (heq ▸ hq)
    simpa [hqr] using h.flight_cases q hq
  flight_dropped := h.flight_dropped
  issued_done := h.issued_done

theorem land (h : Accounted P E D L (r :: F) I iss) (hkept : ∀ q, iss q → iss' q)
    (hiss : ∀ q, iss' q → iss q ∨ q = r) : Accounted P E D L F I iss' where
  pending_nodup := h.pending_nodup
  executed_nodup := h.executed_nodup
  both := h.both
  located_done := fun q hq => (h.located_done q hq).imp id (hkept q)
  invoked_of := by
    intro q hq
    refine h.invoked_of q ?_
    rw [List.mem_cons]
    rcases hq with hq | hq | hq | hq | hq
    · exact .inl hq
    · exact .inr (.inl hq)
    · exact .inr (.inr (.inl hq))
    · exact .inr (.inr (.inr (.inl (.inr hq))))
    · rcases hiss q hq with hq | hq
      · exact .inr (.inr (.inr (.inr hq)))
      · exact .inr (.inr (.inr (.inl (.inl hq))))
  dropped_pending := h.dropped_pending
  flight_nodup := (List.nodup_cons.mp h.flight_nodup).2
  flight_cases := fun q hq => h.flight_cases q (List.mem_cons_of_mem _ hq)
  flight_dropped := fun q hq => h.flight_dropped q (List.mem_cons_of_mem _ hq)
  issued_done := by
    intro q hq hm
    rcases hiss q hq with hq | rfl
    · exact h.issued_done q hq (List.mem_cons_of_mem _ hm)
    · exact (List.nodup_cons.mp h.flight_nodup).1 hm

theorem report (h : Accounted P E D L (r :: F) I iss) (hr : r ∈ D) :
    Accounted P (E ++ [r]) D L F I iss where
  pending_nodup := h.pending_nodup
  executed_nodup := by
    refine List.nodup_append.mpr ⟨h.executed_nodup, List.nodup_singleton r, ?_⟩
    rintro q he _ hq rfl
    rw [List.mem_singleton.mp hq] at he
    exact h.flight_dropped r (List.mem_cons_self ..) hr he
  both := by
    intro q hq he
    rcases List.mem_append.mp he with he | he
    · exact h.both q hq he
    · rw [List.mem_singleton.mp he] at hq
      exact absurd hq (h.dropped_pending r hr)
  located_done := fun q hq => (h.located_done q hq).imp (List.mem_append_left _) id
  invoked_of := by
    intro q hq
    refine h.invoked_of q ?_
    rw [List.mem_append, List.mem_singleton] at hq
    rw [List.mem_cons]
    rcases hq with hq | (hq | rfl) | hq | hq | hq
    · exact .inl hq
    · exact .inr (.inl hq)
    · exact .inr (.inr (.inl hr))
    · exact .inr (.inr (.inl hq))
    · exact .inr (.inr (.inr (.inl (.inr hq))))
    · exact .inr (.inr (.inr (.inr hq)))
  dropped_pending := h.dropped_pending
  flight_nodup := (List.nodup_cons.mp h.flight_nodup).2
  flight_cases := by
    intro q hq
    have := h.flight_cases q (List.mem_cons_of_mem _ hq)
    rw [List.mem_append]
    tauto
  flight_dropped := by
    intro q hq hd hm
    rcases List.mem_append.mp hm with hm | hm
    · exact h.flight_dropped q (List.mem_cons_of_mem _ hq) hd hm
    · rw [List.mem_singleton.mp hm] at hq
      exact (List.nodup_cons.mp h.flight_nodup).1 hq
  issued_done := fun q hq hm => h.issued_done q hq (List.mem_cons_of_mem _ hm)

end Accounted

end PolyORB

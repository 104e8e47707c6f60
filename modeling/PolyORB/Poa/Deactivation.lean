import PolyORB.Poa.Effects

/-!
# Deactivation with system ids

A deactivation that succeeds clears the entry that the text of the id names.
-/

namespace PolyORB

open Program Literals

/-- What `Deactivate_Object` does under the SYSTEM_ID and RETAIN policies. -/
inductive Deactivates (host : Endianness) (a : Adapter) (oid : ObjectId) :
    EStateM.Result Exn Adapter (Option ErrorId) → Prop where
  | removed {m : SystemObjectMap} {u : UnmarshalledOid} {j : Nat} {e : MapEntry} :
      a.mapLock = false → a.activeObjectMap = some (.system m) →
      oidToUOid host none oid .fresh = .ok (u, none) →
      m.getById u = .ok (some e) → m.indexOf u = .ok j → 0 < j → j ≤ m.table.length →
      m.entryAt j = some e → etherealize host u a = .ok none a →
      Deactivates host a oid (.ok none (a.withMap (.system (m.setEntry j none)) false))
  | failed {e : ErrorId} : Deactivates host a oid (.ok (some e) a)
  | raised {e : Exn} {a' : Adapter} (lock : Bool) : a' = { a with mapLock := lock } →
      Deactivates host a oid (.error e a')

section Deactivate

variable (host : Endianness) {a : Adapter}

theorem forgetServantAssociation_deactivates
    (hr : a.servantRetention = .retain)
    (hm : a.activeObjectMap = none ∨ ∃ m, a.activeObjectMap = some (.system m)) {oid : ObjectId}
    {u : UnmarshalledOid} (hu : oidToUOid host none oid .fresh = .ok (u, none))
    (heth : etherealize host u a = .ok none a) :
    Deactivates host a oid (forgetServantAssociation u a) := by
  rw [forgetServantAssociation, bind_get, hr]
  dsimp only
  cases hl : a.mapLock with
  | true =>
    rw [bind_error (enterMap_locked hl)]
    exact .raised a.mapLock rfl
  | false =>
    rw [bind_ok (enterMap_apply hl), bind_get]
    rcases hm with hm | ⟨m, hm⟩
    · rw [hm]
      exact .raised true (by rw [← hm])
    · rw [hm, Option.elim_some, bind_evaluate rfl, ObjectMap.removeById]
      cases hrem : m.removeById u with
      | error e => exact .raised true (by rw [← hm])
      | ok r =>
        obtain ⟨m', entry⟩ := r
        obtain ⟨j, hget, hj, h0, hle, rfl, rfl⟩ := SystemObjectMap.removeById_eq_ok hrem
        cases hentry : m.entryAt j with
        | some e => exact
            .removed hl hm hu (hentry ▸ hget) hj h0 hle hentry heth
        | none =>
          have hnone : m.table[j - 1]? = some none := by
            have hget : m.table[j - 1]? = some m.table[j - 1] := List.getElem?_eq_getElem (by omega)
            rw [SystemObjectMap.entryAt, hget] at hentry
            rw [hget]
            exact congrArg some hentry
          have hsame : a.withMap (.system (m.setEntry j none)) false = a := by
            rw [SystemObjectMap.setEntry_self hnone, Adapter.withMap, ← hm, ← hl]
          have hfail : Deactivates host a oid
              (.ok (some .objectNotActiveE) (a.withMap (.system (m.setEntry j none)) false)) := by
            rw [hsame]
            exact .failed
          exact hfail

theorem deactivateObject_deactivates (ha : a.idAssignment = .systemId)
    (hr : a.servantRetention = .retain)
    (hm : a.activeObjectMap = none ∨ ∃ m, a.activeObjectMap = some (.system m)) (oid : ObjectId) :
    Deactivates host a oid (deactivateObject host oid a) := by
  rw [deactivateObject, bind_apply, reconstructObjectIdentifier, bind_get, ha]
  cases hdec : oidToUOid host none oid .fresh with
  | error e => exact .raised a.mapLock rfl
  | ok r =>
    obtain ⟨u, error⟩ := r
    cases error with
    | some e => exact .failed
    | none =>
      have hquiet := quiet_etherealize host u a
      show Deactivates host a oid ((etherealize host u >>= _) a)
      rw [bind_apply]
      cases hres : etherealize host u a with
      | error e a' =>
        rw [hres] at hquiet
        obtain ⟨lock, rfl⟩ := hquiet
        exact .raised lock rfl
      | ok error a' =>
        rw [hres] at hquiet
        obtain rfl : a' = a := hquiet
        cases error with
        | some e => exact .failed
        | none => exact forgetServantAssociation_deactivates host hr hm hdec hres

end Deactivate

end PolyORB

import PolyORB.Groups.Servants
import PolyORB.Lib.Runs
import PolyORB.Lib.Tally

/-!
# Runs of a group servant

The lock of the group is taken exactly while one request is being executed or waits for one of its
sub-requests; the state of the argument proxy belongs to that request.
-/

namespace PolyORB

variable {α : Type}

/-! ## One request -/

namespace GroupRequest

variable {q q' : GroupRequest α}

/-- The request has the lock of the group. -/
def active (q : GroupRequest α) : Bool := q.phase == .executing || q.waiting

/-- The members that have asked for arguments that do not come back were given `args`. -/
def Given (q : GroupRequest α) (args : List (GroupArgument α)) : Prop :=
  ∀ sub ∈ q.subRequests, ∀ msg ∈ sub.asked, oneway msg = true → sub.received = some args

/-- No member has asked for such arguments. -/
def Unasked (q : GroupRequest α) : Prop :=
  ∀ sub ∈ q.subRequests, ∀ msg ∈ sub.asked, oneway msg = false

structure Ok (q : GroupRequest α) : Prop where
  created : q.phase ≠ .dispatched → q.subRequests = []
  delivered : q.phase = .dispatched → q.subRequests.map SubRequest.target = q.members
  nodup : q.members.Nodup
  given : ∃ args, q.Given args

theorem Unasked.given (h : q.Unasked) (args : List (GroupArgument α)) : q.Given args :=
  fun sub hsub msg hmsg hone => by
    rw [h sub hsub msg hmsg] at hone
    cases hone

theorem waiting_of_nil (h : q.subRequests = []) : q.waiting = false := by
  rw [waiting, h]
  rfl

theorem waiting_iff : q.waiting = true ↔ ∃ sub ∈ q.subRequests, sub.executed = false := by
  simp [waiting]

theorem waiting_iff_lt :
    q.waiting = true ↔ q.subRequests.countP SubRequest.executed < q.subRequests.length := by
  have hle := List.countP_le_length (p := SubRequest.executed) (l := q.subRequests)
  have hall := List.countP_eq_length (p := SubRequest.executed) (l := q.subRequests)
  rw [waiting_iff]
  constructor
  · rintro ⟨sub, hsub, hexec⟩
    refine lt_of_le_of_ne hle fun heq => ?_
    rw [hall.mp heq sub hsub] at hexec
    cases hexec
  · intro hlt
    by_contra hnone
    refine hlt.ne (hall.mpr fun sub hsub => ?_)
    by_contra hexec
    exact hnone ⟨sub, hsub, by simpa using hexec⟩

theorem active_of_waiting (h : q.waiting = true) : q.active = true := by
  rw [active, h, Bool.or_true]

theorem active_eq_waiting (h : q.phase ≠ .executing) : q.active = q.waiting := by
  rw [active, beq_eq_false_iff_ne.mpr h, Bool.false_or]

theorem active_of_executing (h : q.phase = .executing) : q.active = true := by
  rw [active, h]
  rfl

section SetSub

variable {i : Nat} {sub sub' : SubRequest α} {args : List (GroupArgument α)}

theorem Given.setSub (h : q.Given args)
    (hs : ∀ msg ∈ sub'.asked, oneway msg = true → sub'.received = some args) :
    (q.setSub i sub').Given args := by
  intro s hmem
  rcases List.mem_or_eq_of_mem_set hmem with hmem | rfl
  · exact h s hmem
  · exact hs

theorem Unasked.setSub (h : q.Unasked) (hs : ∀ msg ∈ sub'.asked, oneway msg = false) :
    (q.setSub i sub').Unasked := by
  intro s hmem
  rcases List.mem_or_eq_of_mem_set hmem with hmem | rfl
  · exact h s hmem
  · exact hs

theorem targets_setSub (hi : q.subRequests[i]? = some sub) (ht : sub'.target = sub.target) :
    (q.setSub i sub').subRequests.map SubRequest.target = q.subRequests.map SubRequest.target := by
  refine List.ext_getElem? fun j => ?_
  rw [setSub, List.getElem?_map, List.getElem?_map]
  by_cases hj : i = j
  · subst hj
    rw [List.getElem?_set_self (List.getElem?_eq_some_iff.mp hi).1, hi]
    exact congrArg some ht
  · rw [List.getElem?_set_ne hj]

theorem countP_setSub (hi : q.subRequests[i]? = some sub) (hexec : sub.executed = false) :
    (q.setSub i sub').subRequests.countP SubRequest.executed =
      q.subRequests.countP SubRequest.executed + sub'.executed.toNat := by
  have hset := Tally.countP_set_add SubRequest.executed sub' hi
  have hold : Tally.weight SubRequest.executed sub = 0 := by simp [Tally.weight, hexec]
  have hnew : Tally.weight SubRequest.executed sub' = sub'.executed.toNat := by
    unfold Tally.weight
    cases sub'.executed <;> rfl
  rw [setSub]
  simp only
  omega

theorem length_setSub : (q.setSub i sub').subRequests.length = q.subRequests.length :=
  List.length_set

theorem Ok.setSub (h : q.Ok) (hphase : q.phase = .dispatched) (hi : q.subRequests[i]? = some sub)
    (ht : sub'.target = sub.target) (hgiven : (q.setSub i sub').Given args) :
    (q.setSub i sub').Ok :=
  ⟨fun hne => absurd hphase hne, fun hp => (targets_setSub hi ht).trans (h.delivered hp), h.nodup,
    args, hgiven⟩

end SetSub

end GroupRequest

namespace GroupServant

variable {g g' : GroupServant α} {r r' i : Nat} {q q' : GroupRequest α} {sub : SubRequest α}
  {msg args : List (GroupArgument α)}

/-! ## The invariant -/

def weight (q : GroupRequest α) : Nat := q.active.toNat

/-- The argument proxy and the count-down are those of the request. -/
structure Serves (g : GroupServant α) (r : Nat) (q : GroupRequest α) : Prop where
  length : q.subRequests.length = g.targetList.length
  counter : g.counter = q.subRequests.countP SubRequest.executed
  argsSrc : q.args = none → g.argsSrc = some r
  proxy : (g.state = .waitFirst ∧ g.unmarshalled r = 0 ∧ q.Unasked) ∨
    (g.state = .waitOther ∧ g.unmarshalled r = 1 ∧ q.Given g.args ∧
      g.args.map GroupArgument.parameter = q.parameters)

structure GroupInv (g : GroupServant α) : Prop where
  mutex : g.mutex = false
  error : g.error = none
  targets : g.targetList.Nodup
  lock : (g.requests.map weight).sum = g.groupLock.toNat
  requests : ∀ q ∈ g.requests, q.Ok
  serves : ∀ r q, g.requests[r]? = some q → q.waiting = true → g.Serves r q
  unmarshalled : ∀ r, g.unmarshalled r ≤ 1
  unsent : ∀ r q, g.requests[r]? = some q → q.phase ≠ .dispatched → g.unmarshalled r = 0
  fresh : ∀ r, g.requests.length ≤ r → g.unmarshalled r = 0

theorem GroupInv.lock_of_active (h : g.GroupInv) (hr : g.requests[r]? = some q)
    (ha : q.active = true) : g.groupLock = true := by
  have hle : weight q ≤ (g.requests.map weight).sum := Tally.le_sum_map weight hr
  rw [h.lock, weight, ha] at hle
  cases hl : g.groupLock with
  | true => rfl
  | false =>
    rw [hl] at hle
    cases hle

theorem GroupInv.not_active (h : g.GroupInv) (hr : g.requests[r]? = some q)
    (ha : q.active = true) (hr' : g.requests[r']? = some q') (hne : r' ≠ r) :
    q'.active = false := by
  let q₀ : GroupRequest α := { q with phase := .returned, subRequests := [] }
  have hzero : weight q₀ = 0 := rfl
  have hset := Tally.sum_map_set_add weight q₀ hr
  have hle : weight q' ≤ ((g.requests.set r q₀).map weight).sum :=
    Tally.le_sum_map weight (i := r') (by rw [List.getElem?_set_ne hne.symm]; exact hr')
  have hw : weight q = 1 := by rw [weight, ha]; rfl
  have hlock : g.groupLock.toNat ≤ 1 := Bool.toNat_le _
  rw [← h.lock] at hlock
  have hw' : weight q' = 0 := by omega
  cases hq : q'.active with
  | false => rfl
  | true =>
    rw [weight, hq] at hw'
    cases hw'

theorem GroupInv.set (h : g.GroupInv) (hr : g.requests[r]? = some q)
    (hrequests : g'.requests = g.requests.set r q') (hmutex : g'.mutex = false)
    (herror : g'.error = none) (htargets : g'.targetList = g.targetList)
    (hlock : g'.groupLock.toNat + weight q = g.groupLock.toNat + weight q') (hok : q'.Ok)
    (hserves : q'.waiting = true → g'.Serves r q')
    (hothers : ∀ r' ≠ r, ∀ p, g.requests[r']? = some p → p.waiting = true → g'.Serves r' p)
    (hone : g'.unmarshalled r ≤ 1) (hun : ∀ r' ≠ r, g'.unmarshalled r' = g.unmarshalled r')
    (hunsent : q'.phase ≠ .dispatched → g'.unmarshalled r = 0) : g'.GroupInv := by
  have hlt : r < g.requests.length := (List.getElem?_eq_some_iff.mp hr).1
  have hget (r' : Nat) (p : GroupRequest α) (hp : g'.requests[r']? = some p) :
      (r' = r ∧ p = q') ∨ (r' ≠ r ∧ g.requests[r']? = some p) := by
    rw [hrequests] at hp
    by_cases heq : r' = r
    · subst heq
      rw [List.getElem?_set_self hlt] at hp
      exact .inl ⟨rfl, (Option.some.inj hp).symm⟩
    · rw [List.getElem?_set_ne (Ne.symm heq)] at hp
      exact .inr ⟨heq, hp⟩
  refine ⟨hmutex, herror, ?_, ?_, fun p hp => ?_, fun r' p hp hw => ?_, fun r' => ?_,
    fun r' p hp hphase => ?_, fun r' hr' => ?_⟩
  · rw [htargets]
    exact h.targets
  · have hsum := Tally.sum_map_set_add weight q' hr
    rw [hrequests]
    have := h.lock
    omega
  · rw [hrequests] at hp
    rcases List.mem_or_eq_of_mem_set hp with hp | rfl
    · exact h.requests p hp
    · exact hok
  · rcases hget r' p hp with ⟨rfl, rfl⟩ | ⟨hne, hp⟩
    · exact hserves hw
    · exact hothers r' hne p hp hw
  · by_cases heq : r' = r
    · subst heq
      exact hone
    · rw [hun r' heq]
      exact h.unmarshalled r'
  · rcases hget r' p hp with ⟨rfl, rfl⟩ | ⟨hne, hp⟩
    · exact hunsent hphase
    · rw [hun r' hne]
      exact h.unsent r' p hp hphase
  · rw [hrequests, List.length_set] at hr'
    rw [hun r' (by omega)]
    exact h.fresh r' hr'

theorem GroupInv.others (h : g.GroupInv) (hr : g.requests[r]? = some q) (ha : q.active = true) :
    ∀ r' ≠ r, ∀ p, g.requests[r']? = some p → p.waiting = true → g'.Serves r' p := by
  intro r' hne p hp hw
  have hnot := h.not_active hr ha hp hne
  rw [GroupRequest.active_of_waiting hw] at hnot
  cases hnot

/-! ## Execute_Servant -/

theorem weight_of_nil (hphase : q.phase ≠ .executing) (hnil : q.subRequests = []) :
    weight q = 0 := by
  rw [weight, GroupRequest.active_eq_waiting hphase, GroupRequest.waiting_of_nil hnil]
  rfl

theorem GroupInv.ok_phase (h : g.GroupInv) (hr : g.requests[r]? = some q) {phase : GroupPhase}
    (hnil : q.subRequests = []) (hphase : phase ≠ .dispatched) :
    ({ q with phase := phase } : GroupRequest α).Ok :=
  have hok := h.requests q (List.mem_of_getElem? hr)
  ⟨fun _ => hnil, fun hp => absurd hp hphase, hok.nodup, hok.given⟩

theorem GroupInv.arrived (h : g.GroupInv) (hr : g.requests[r]? = some q) {phase : GroupPhase}
    (hp : q.phase = .arrived) (hphase : phase = .returned ∨ phase = .entering) :
    (g.setRequest r { q with phase := phase }).GroupInv := by
  have hnil := (h.requests q (List.mem_of_getElem? hr)).created (by rw [hp]; nofun)
  have hne : phase ≠ .dispatched ∧ phase ≠ .executing := by
    rcases hphase with rfl | rfl <;> exact ⟨nofun, nofun⟩
  refine h.set hr rfl h.mutex h.error rfl ?_ (h.ok_phase hr hnil hne.1) (fun hw => ?_)
    (fun r' _ p hp hw => ?_) (h.unmarshalled r) (fun _ _ => rfl)
    (fun _ => h.unsent r q hr (by rw [hp]; nofun))
  · rw [weight_of_nil (by rw [hp]; nofun) hnil, weight_of_nil (q := { q with phase := phase })
      hne.2 hnil]
    rfl
  · exact absurd ((GroupRequest.waiting_of_nil hnil).symm.trans hw) nofun
  · obtain ⟨h1, h2, h3, h4⟩ := h.serves r' p hp hw
    exact ⟨h1, h2, h3, h4⟩

theorem GroupInv.no_waiting (h : g.GroupInv) (hl : g.groupLock = false)
    (hr : g.requests[r]? = some q) : q.waiting = false := by
  cases hw : q.waiting with
  | false => rfl
  | true =>
    rw [h.lock_of_active hr (GroupRequest.active_of_waiting hw)] at hl
    cases hl

theorem GroupInv.entering (h : g.GroupInv) (hr : g.requests[r]? = some q)
    (hp : q.phase = .entering) (hl : g.groupLock = false) :
    ({ g.setRequest r { q with phase := .executing } with groupLock := true } :
      GroupServant α).GroupInv := by
  have hnil := (h.requests q (List.mem_of_getElem? hr)).created (by rw [hp]; nofun)
  refine h.set hr rfl h.mutex h.error rfl ?_ (h.ok_phase hr hnil nofun) (fun hw => ?_)
    (fun r' _ p hp hw => ?_) (h.unmarshalled r) (fun _ _ => rfl)
    (fun _ => h.unsent r q hr (by rw [hp]; nofun))
  · rw [weight_of_nil (by rw [hp]; nofun) hnil, hl]
    rfl
  · exact absurd ((GroupRequest.waiting_of_nil hnil).symm.trans hw) nofun
  · rw [h.no_waiting hl hp] at hw
    cases hw

theorem GroupInv.execute (h : g.GroupInv) (hr : g.requests[r]? = some q)
    (hp : q.phase = .executing) (hne : q.syncWithTransport = true → g.targetList ≠ []) :
    (g.execute r q).GroupInv := by
  have hactive := GroupRequest.active_of_executing hp
  have hlock := h.lock_of_active hr hactive
  have hzero := h.unsent r q hr (by rw [hp]; nofun)
  have hweight : weight q = 1 := by
    rw [weight, hactive]
    rfl
  have hnil := (h.requests q (List.mem_of_getElem? hr)).created (by rw [hp]; nofun)
  unfold GroupServant.execute
  split
  · rename_i hsync
    generalize hq' : ({ q with
      phase := .dispatched
      members := g.targetList
      subRequests := g.targetList.map fun ref => ⟨ref, none, none, false⟩ } :
        GroupRequest α) = q'
    have hsubs : q'.subRequests = g.targetList.map fun ref => ⟨ref, none, none, false⟩ := by
      rw [← hq']
    have hunasked : q'.Unasked := fun sub hsub => by
      rw [hsubs] at hsub
      obtain ⟨ref, -, rfl⟩ := List.mem_map.mp hsub
      exact nofun
    have hcount : q'.subRequests.countP SubRequest.executed = 0 := by
      rw [hsubs, List.countP_eq_zero]
      intro sub hsub
      obtain ⟨ref, -, rfl⟩ := List.mem_map.mp hsub
      exact nofun
    have hlength : q'.subRequests.length = g.targetList.length := by
      rw [hsubs, List.length_map]
    have hwaiting : q'.waiting = true := by
      rw [GroupRequest.waiting_iff_lt, hcount, hlength]
      exact List.length_pos_iff.mpr (hne hsync)
    refine h.set hr rfl h.mutex ?_ rfl ?_ ⟨?_, ?_, ?_, ⟨[], hunasked.given []⟩⟩
      (fun _ => ⟨hlength, hcount.symm, fun hargs => ?_, .inl ⟨rfl, hzero, hunasked⟩⟩)
      (h.others hr hactive) (h.unmarshalled r) (fun _ _ => rfl) (fun _ => hzero)
    · simp [h.error]
    · rw [hweight, weight, GroupRequest.active_of_waiting hwaiting]
      rfl
    · rw [← hq']
      exact fun hphase => absurd rfl hphase
    · intro _
      rw [hsubs, List.map_map, ← hq']
      exact List.map_id g.targetList
    · rw [← hq']
      exact h.targets
    · have hargs' : q.args = none := by
        rw [← hq'] at hargs
        exact hargs
      simp [hargs']
  · refine h.set hr rfl h.mutex h.error rfl ?_ (h.ok_phase hr hnil nofun) (fun hw => ?_)
      (h.others hr hactive) (h.unmarshalled r) (fun _ _ => rfl) (fun _ => hzero)
    · rw [weight_of_nil (q := { q with phase := .refused }) nofun hnil, hweight, hlock]
      rfl
    · exact absurd ((GroupRequest.waiting_of_nil hnil).symm.trans hw) nofun

/-! ## Members -/

theorem subRequest_eq_some (h : g.subRequest r i = some (q, sub)) :
    g.requests[r]? = some q ∧ q.subRequests[i]? = some sub := by
  unfold subRequest at h
  cases hr : g.requests[r]? with
  | none =>
    rw [hr] at h
    cases h
  | some p =>
    cases hi : p.subRequests[i]? with
    | none =>
      rw [hr] at h
      simp [hi] at h
    | some s =>
      rw [hr] at h
      simp only [hi, Option.bind_eq_bind, Option.bind_some, Option.pure_def, Option.some.injEq,
        Prod.mk.injEq] at h
      obtain ⟨rfl, rfl⟩ := h
      exact ⟨rfl, hi⟩

theorem phase_of_sub (h : g.GroupInv) (hr : g.requests[r]? = some q)
    (hi : q.subRequests[i]? = some sub) : q.phase = .dispatched := by
  by_contra hne
  rw [(h.requests q (List.mem_of_getElem? hr)).created hne] at hi
  cases hi

theorem waiting_of_sub (hi : q.subRequests[i]? = some sub) (hexec : sub.executed = false) :
    q.waiting = true := GroupRequest.waiting_iff.mpr ⟨sub, List.mem_of_getElem? hi, hexec⟩

theorem copyArguments_eq (h : args.map GroupArgument.parameter = msg.map GroupArgument.parameter) :
    copyArguments msg args = args := by
  induction msg generalizing args with
  | nil =>
    rw [List.map_nil, List.map_eq_nil_iff] at h
    rw [h]
    rfl
  | cons a msg ih =>
    cases args with
    | nil => cases h
    | cons b args =>
      obtain ⟨hhead, htail⟩ := List.cons.inj h
      obtain ⟨hname, hmodes⟩ := Prod.mk.inj hhead
      show { a with argument := b.argument } :: copyArguments msg args = b :: args
      rw [ih htail, ← hname, ← hmodes]

theorem Serves.given (h : g.Serves r q) : ∃ args, q.Given args := by
  rcases h.proxy with ⟨-, -, hunasked⟩ | ⟨-, -, hgiven, -⟩
  · exact ⟨[], hunasked.given []⟩
  · exact ⟨g.args, hgiven⟩

theorem GroupInv.executed (h : g.GroupInv) (hr : g.requests[r]? = some q)
    (hi : q.subRequests[i]? = some sub) (hexec : sub.executed = false) :
    (g.handleExecutedRequest r i q sub).GroupInv := by
  have hwaiting := waiting_of_sub hi hexec
  have hactive := GroupRequest.active_of_waiting hwaiting
  have hphase := phase_of_sub h hr hi
  have hlock := h.lock_of_active hr hactive
  have hok := h.requests q (List.mem_of_getElem? hr)
  obtain ⟨hlength, hcounter, hsrc, hproxy⟩ := h.serves r q hr hwaiting
  have hsame (args : List (GroupArgument α)) (hgiven : q.Given args) :
      (q.setSub i { sub with executed := true }).Given args :=
    hgiven.setSub (hgiven sub (List.mem_of_getElem? hi))
  obtain ⟨args, hgiven⟩ := hok.given
  have hcount : (q.setSub i { sub with executed := true }).subRequests.countP SubRequest.executed =
      g.counter + 1 := by
    rw [GroupRequest.countP_setSub hi hexec, hcounter]
    rfl
  have hlast : (q.setSub i { sub with executed := true }).waiting = true ↔
      g.counter + 1 < g.targetList.length := by
    rw [GroupRequest.waiting_iff_lt, hcount, GroupRequest.length_setSub, hlength]
  have hle : g.counter + 1 ≤ g.targetList.length := by
    rw [← hcount, ← hlength, ← GroupRequest.length_setSub]
    exact List.countP_le_length
  have hweight : weight q = 1 := by
    rw [weight, hactive]
    rfl
  have hnew : weight (q.setSub i { sub with executed := true }) =
      (q.setSub i { sub with executed := true }).waiting.toNat := by
    rw [weight, GroupRequest.active_eq_waiting]
    show q.phase ≠ .executing
    rw [hphase]
    nofun
  refine h.set hr rfl h.mutex h.error rfl ?_ (hok.setSub hphase hi rfl (hsame args hgiven))
    (fun _ => ⟨GroupRequest.length_setSub.trans hlength, hcount.symm, hsrc, ?_⟩)
    (h.others hr hactive) (h.unmarshalled r) (fun _ _ => rfl) fun hne => absurd hphase hne
  · rw [hweight, hnew, hlock]
    show (if g.counter + 1 = g.targetList.length then false else g.groupLock).toNat + 1 = _
    split
    · rename_i heq
      have hdone : (q.setSub i { sub with executed := true }).waiting = false := by
        cases hw : (q.setSub i { sub with executed := true }).waiting with
        | false => rfl
        | true =>
          have := hlast.mp hw
          omega
      rw [hdone]
      rfl
    · rename_i hne
      rw [hlast.mpr (by omega), hlock]
      rfl
  · rcases hproxy with ⟨hstate, hzero, hunasked⟩ | ⟨hstate, hone, hgiven, hparam⟩
    · exact .inl ⟨hstate, hzero, hunasked.setSub (hunasked sub (List.mem_of_getElem? hi))⟩
    · exact .inr ⟨hstate, hone, hsame g.args hgiven, hparam⟩

/-! ## Arguments -/

theorem GroupInv.asked (h : g.GroupInv) (hr : g.requests[r]? = some q)
    (hi : q.subRequests[i]? = some sub) (hexec : sub.executed = false)
    {received : Option (List (GroupArgument α))} (hmutex : g'.mutex = false)
    (herror : g'.error = none) (htargets : g'.targetList = g.targetList)
    (hcounter : g'.counter = g.counter) (hlock : g'.groupLock = g.groupLock)
    (hrequests : g'.requests = g.requests) (hsrc : g'.argsSrc = g.argsSrc)
    (hun : ∀ r' ≠ r, g'.unmarshalled r' = g.unmarshalled r')
    (hproxy : (g'.state = .waitFirst ∧ g'.unmarshalled r = 0 ∧
        (q.setSub i { sub with asked := some msg, received := received }).Unasked) ∨
      (g'.state = .waitOther ∧ g'.unmarshalled r = 1 ∧
        (q.setSub i { sub with asked := some msg, received := received }).Given g'.args ∧
        g'.args.map GroupArgument.parameter = q.parameters)) :
    (g'.setRequest r
      (q.setSub i { sub with asked := some msg, received := received })).GroupInv := by
  have hwaiting := waiting_of_sub hi hexec
  have hactive := GroupRequest.active_of_waiting hwaiting
  have hphase := phase_of_sub h hr hi
  have hok := h.requests q (List.mem_of_getElem? hr)
  obtain ⟨hlength, hcount, hargs, -⟩ := h.serves r q hr hwaiting
  generalize hq' : q.setSub i { sub with asked := some msg, received := received } = q' at *
  have hserves : g'.Serves r q' := by
    subst hq'
    refine ⟨?_, ?_, fun hnone => hsrc.trans (hargs hnone), hproxy⟩
    · rw [GroupRequest.length_setSub, hlength, htargets]
    · rw [GroupRequest.countP_setSub hi hexec, hcounter, hcount, hexec]
      rfl
  obtain ⟨args, hgiven⟩ := hserves.given
  have hweight : weight q = 1 ∧ weight q' = 1 := by
    constructor
    · rw [weight, hactive]
      rfl
    · have hactive' : q'.active = true := by
        rw [GroupRequest.active_of_waiting]
        subst hq'
        exact GroupRequest.waiting_iff.mpr
          ⟨_, List.mem_set (List.getElem?_eq_some_iff.mp hi).1 _, hexec⟩
      rw [weight, hactive']
      rfl
  refine h.set hr (by rw [setRequest, hrequests]) hmutex herror htargets ?_ ?_
    (fun _ => ⟨hserves.length, hserves.counter, hserves.argsSrc, hserves.proxy⟩)
    (h.others hr hactive) ?_ hun fun hne => ?_
  · rw [hweight.1, hweight.2]
    exact congrArg (fun b : Bool => b.toNat + 1) hlock
  · subst hq'
    exact hok.setSub hphase hi rfl hgiven
  · rcases hproxy with ⟨-, hu, -⟩ | ⟨-, hu, -⟩
    · exact hu.le.trans (Nat.zero_le 1)
    · exact hu.le
  · subst hq'
    exact absurd hphase hne

theorem GroupInv.ask (h : g.GroupInv) (hr : g.requests[r]? = some q)
    (hi : q.subRequests[i]? = some sub) (hexec : sub.executed = false) (hargs : q.args = none)
    (hmsg : msg.map GroupArgument.parameter = q.parameters)
    (hgood : g.state = .waitFirst → oneway msg = true → unmarshallable q.session msg = true) :
    (g.ask r i q sub msg).GroupInv := by
  obtain ⟨-, -, hsrc, hproxy⟩ := h.serves r q hr (waiting_of_sub hi hexec)
  simp only [GroupServant.ask, hargs, Option.isNone_none, if_true]
  rcases hproxy with ⟨hstate, hzero, hunasked⟩ | ⟨hstate, hone, hgiven, hparam⟩
  · cases how : oneway msg with
    | false =>
      have hanswer : g.handleUnmarshallArguments msg = (.error .constraintError, g) := by
        simp [handleUnmarshallArguments, hstate, hsrc hargs, hr, how]
      rw [hanswer]
      refine h.asked hr hi hexec h.mutex h.error rfl rfl rfl rfl rfl (fun _ _ => rfl)
        (.inl ⟨hstate, hzero, hunasked.setSub fun m hm => ?_⟩)
      obtain rfl := Option.some.inj hm
      exact how
    | true =>
      cases hemit : q.session.emit msg with
      | argumentsError e =>
        have hno := hgood hstate how
        rw [unmarshallable, hemit] at hno
        cases hno
      | unmarshalledArguments args =>
        have hanswer : g.handleUnmarshallArguments msg = (.ok (.unmarshalledArguments args),
            { g with
              unmarshalled := Function.update g.unmarshalled r (g.unmarshalled r + 1)
              args := args
              state := .waitOther }) := by
          simp [handleUnmarshallArguments, hstate, hsrc hargs, hr, how, unmarshallFirst, hemit]
        rw [hanswer]
        refine h.asked hr hi hexec h.mutex h.error rfl rfl rfl rfl rfl
          (fun r' hne => Function.update_of_ne hne ..) (.inr ⟨rfl, ?_, ?_, ?_⟩)
        · exact (Function.update_self ..).trans (by rw [hzero])
        · exact (hunasked.given args).setSub fun _ _ _ => rfl
        · exact (q.session.keeps hemit).trans hmsg
  · have hanswer : g.handleUnmarshallArguments msg = (.ok (.unmarshalledArguments g.args), g) := by
      have hsame := hparam.trans hmsg.symm
      simp [handleUnmarshallArguments, hstate, unmarshallOther, h.error, hsame, copyArguments_eq]
    rw [hanswer]
    exact h.asked hr hi hexec h.mutex h.error rfl rfl rfl rfl rfl (fun _ _ => rfl)
      (.inr ⟨hstate, hone, hgiven.setSub fun _ _ _ => rfl, hparam⟩)

/-! ## Every step -/

theorem GroupInv.request (h : g.GroupInv) (hnew : q.phase = .arrived)
    (hnil : q.subRequests = []) (hmembers : q.members = []) :
    ({ g with requests := g.requests ++ [q] } : GroupServant α).GroupInv := by
  have hget (r' : Nat) (p : GroupRequest α) (hp : (g.requests ++ [q])[r']? = some p) :
      (r' = g.requests.length ∧ p = q) ∨ g.requests[r']? = some p := by
    rcases Nat.lt_trichotomy r' g.requests.length with hlt | heq | hgt
    · rw [List.getElem?_append_left hlt] at hp
      exact .inr hp
    · subst heq
      rw [List.getElem?_concat_length] at hp
      exact .inl ⟨rfl, (Option.some.inj hp).symm⟩
    · rw [List.getElem?_eq_none (by rw [List.length_append, List.length_singleton]; omega)] at hp
      cases hp
  refine ⟨h.mutex, h.error, h.targets, ?_, fun p hp => ?_, fun r' p hp hw => ?_, h.unmarshalled,
    fun r' p hp hphase => ?_, fun r' hr' => ?_⟩
  · have hzero := weight_of_nil (q := q) (by rw [hnew]; nofun) hnil
    rw [List.map_append, List.sum_append, List.map_singleton, List.sum_singleton, hzero]
    exact h.lock
  · rcases List.mem_append.mp hp with hp | hp
    · exact h.requests p hp
    · obtain rfl := List.mem_singleton.mp hp
      refine ⟨fun _ => hnil, fun hd => ?_, ?_, [], fun sub hs => ?_⟩
      · rw [hnew] at hd
        cases hd
      · rw [hmembers]
        exact List.nodup_nil
      · rw [hnil] at hs
        cases hs
  · rcases hget r' p hp with ⟨-, rfl⟩ | hp
    · rw [GroupRequest.waiting_of_nil hnil] at hw
      cases hw
    · obtain ⟨h1, h2, h3, h4⟩ := h.serves r' p hp hw
      exact ⟨h1, h2, h3, h4⟩
  · rcases hget r' p hp with ⟨rfl, -⟩ | hp
    · exact h.fresh _ le_rfl
    · exact h.unsent r' p hp hphase
  · rw [List.length_append, List.length_singleton] at hr'
    exact h.fresh r' (by omega)

theorem GroupInv.setTargets (h : g.GroupInv) (hl : g.groupLock = false) {targets : List Nat}
    (hnd : targets.Nodup) : ({ g with targetList := targets } : GroupServant α).GroupInv :=
  { h with
    targets := hnd
    serves := fun _ _ hr hw => absurd ((h.no_waiting hl hr).symm.trans hw) nofun }

theorem GroupInv.proceed (h : g.GroupInv) (hr : g.requests[r]? = some q)
    (hc : g.canStep r = true) (ho : g.populated r = true) : (g.proceed r q).GroupInv := by
  unfold canStep at hc
  unfold populated at ho
  rw [hr] at hc ho
  unfold GroupServant.proceed
  cases hp : q.phase with
  | arrived =>
    refine h.arrived hr hp ?_
    split
    · exact .inl rfl
    · exact .inr rfl
  | entering => exact h.entering hr hp (by simpa [hp] using hc)
  | executing =>
    refine h.execute hr hp fun hsync hnil => ?_
    simp [hp, hsync, hnil] at ho
  | dispatched => exact h
  | returned => exact h
  | refused => exact h

theorem inv_next (h : g.GroupInv) (a : GroupAction α) (he : g.Enabled a) (ho : g.Orderly a) :
    (g.next a).GroupInv := by
  cases a with
  | request sync args session parameters => exact h.request rfl rfl rfl
  | step r =>
    simp only [next]
    cases hr : g.requests[r]? with
    | none => exact h
    | some q => exact h.proceed hr he ho
  | ask r i msg =>
    simp only [next]
    cases hs : g.subRequest r i with
    | none => exact h
    | some p =>
      obtain ⟨hr, hi⟩ := subRequest_eq_some hs
      simp only [Enabled, canAsk, hs, Bool.and_eq_true, Bool.not_eq_eq_eq_not, Bool.not_true,
        decide_eq_true_eq] at he
      simp only [Orderly, askable, hs, Bool.and_eq_true, Option.isNone_iff_eq_none] at ho
      obtain ⟨⟨⟨-, hexec⟩, -⟩, hmsg⟩ := he
      refine h.ask hr hi hexec ho.1 hmsg fun hstate how => ?_
      simpa [hstate, how] using ho.2
  | executed r i =>
    simp only [next]
    cases hs : g.subRequest r i with
    | none => exact h
    | some p =>
      obtain ⟨hr, hi⟩ := subRequest_eq_some hs
      simp only [Enabled, canExecuted, hs, Bool.and_eq_true, Bool.not_eq_eq_eq_not,
        Bool.not_true] at he
      exact h.executed hr hi he.1
  | register ref =>
    refine h.setTargets he (List.nodup_append.mpr ⟨h.targets, List.nodup_singleton ref, ?_⟩)
    rintro a ha b hb rfl
    obtain rfl := List.mem_singleton.mp hb
    exact ho ha
  | unregister ref => exact h.setTargets he (h.targets.filter _)

theorem inv_create : (create : GroupServant α).GroupInv where
  mutex := rfl
  error := rfl
  targets := List.nodup_nil
  lock := rfl
  requests _ hq := nomatch hq
  serves _ _ hr := nomatch hr
  unmarshalled _ := Nat.zero_le 1
  unsent _ _ hr := nomatch hr
  fresh _ _ := rfl

/-! ## What a run keeps -/

/-- A request is delivered once to each member, all members that ask are given the same arguments,
the session unmarshals them once, one request is executed at a time, and the lock of the group is
free when none is. -/
structure Sound (g : GroupServant α) : Prop where
  delivered : ∀ q ∈ g.requests, q.phase = .dispatched →
    q.subRequests.map SubRequest.target = q.members ∧ q.members.Nodup
  undelivered : ∀ q ∈ g.requests, q.phase ≠ .dispatched → q.subRequests = []
  given : ∀ q ∈ g.requests, ∃ args, q.Given args
  unmarshalled : ∀ r, g.unmarshalled r ≤ 1
  alone : ∀ (r r' : Nat) (q q' : GroupRequest α), g.requests[r]? = some q →
    g.requests[r']? = some q' → q.active = true → q'.active = true → r = r'
  groupLock : g.groupLock = true ↔ ∃ q ∈ g.requests, q.active = true
  mutex : g.mutex = false

theorem GroupInv.sound (h : g.GroupInv) : g.Sound where
  delivered q hq hp := ⟨(h.requests q hq).delivered hp, (h.requests q hq).nodup⟩
  undelivered q hq := (h.requests q hq).created
  given q hq := (h.requests q hq).given
  unmarshalled := h.unmarshalled
  alone r r' q q' hr hr' ha ha' := by
    by_contra hne
    rw [h.not_active hr ha hr' (Ne.symm hne)] at ha'
    cases ha'
  groupLock := by
    constructor
    · intro hl
      by_contra hnone
      have hzero : (g.requests.map weight).sum = 0 := Tally.sum_map_eq_zero fun q hq => by
        rw [weight, Bool.toNat_eq_zero]
        cases ha : q.active with
        | false => rfl
        | true => exact absurd ⟨q, hq, ha⟩ hnone
      rw [h.lock, hl] at hzero
      cases hzero
    · rintro ⟨q, hq, ha⟩
      obtain ⟨r, hr⟩ := List.mem_iff_getElem?.mp hq
      exact h.lock_of_active hr ha
  mutex := h.mutex

/-- Group requests are handled as they should be in every run whose steps are `Orderly`. -/
theorem groupRun_sound (as : List (GroupAction α))
    (he : Runs.Along next Enabled (create : GroupServant α) as)
    (ho : Runs.Along next Orderly (create : GroupServant α) as) :
    Runs.Along next (fun g a => (g.next a).Sound) (create : GroupServant α) as := by
  refine Runs.along_of_inv (fun g a hinv hstep => ?_) as create inv_create
    (Runs.along_and as he ho)
  have hinv' : (g.next a).GroupInv := inv_next hinv a hstep.1 hstep.2
  exact ⟨hinv'.sound, hinv'⟩

/-- The session gives every argument the value 5. -/
def fiveSession : DeferredSession Nat where
  emit msg := .unmarshalledArguments (msg.map fun a => { a with argument := 5 })
  keeps := by
    rintro msg args ⟨⟩
    rw [List.map_map]
    rfl

/-- The session cannot unmarshall the arguments. -/
def failingSession : DeferredSession Nat where
  emit _ := .argumentsError { id := .marshalE, minor := 0, completed := .completedNo }
  keeps := nofun

/-- Two members get the same argument; a second request waits for the first one, and one of its
members fails without asking. -/
def oneArgumentRun : List (GroupAction Nat) :=
  [.register 3, .register 4, .request true none fiveSession [("x", argIn)],
    .request true none fiveSession [("x", argIn)], .step 0, .step 1, .step 0, .step 0,
    .ask 0 1 [⟨"x", argIn, 0⟩], .ask 0 0 [⟨"x", argIn, 1⟩], .executed 0 0, .executed 0 1, .step 1,
    .step 1, .executed 1 1, .ask 1 0 [⟨"x", argIn, 0⟩], .executed 1 0, .unregister 3]

theorem groupRun_sound_oneArgumentRun :
    Runs.Along next (fun g a => (g.next a).Sound) create oneArgumentRun :=
  groupRun_sound oneArgumentRun (by decide) (by decide)

/-- The error of the session leaves the mutex of the group servant taken. -/
theorem not_sound_failingRun :
    ¬∀ as : List (GroupAction Nat), Runs.Along next Enabled create as →
      Runs.Along next (fun g a => (g.next a).Sound) create as := by
  intro hall
  have h := hall [.register 3, .request true none failingSession [("x", argIn)], .step 0, .step 0,
    .step 0, .ask 0 0 [⟨"x", argIn, 0⟩]] (by decide)
  have hsound := h.2.2.2.2.2.1
  exact absurd hsound.mutex (by decide)

end GroupServant

end PolyORB

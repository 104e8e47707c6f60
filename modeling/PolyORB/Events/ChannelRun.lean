import PolyORB.Events.Delivery

/-!
# Runs of event channels

What each step does to the invariant of an event channel, and which runs deliver every event.
-/

namespace PolyORB.Events

namespace Channel

variable {ch : Channel} {s i j : Nat}

/-! ## Steps -/

theorem push_next (h : ch.PushInv) {a : Action} (ha : ch.Enabled a) (hs : ch.Suits a) :
    (ch.next a).PushInv := by
  cases a with
  | obtainPushSupplier => exact h.obtain
  | obtainPullSupplier => exact h.congr rfl rfl rfl rfl
  | connectPushConsumer i consumer =>
    simp only [next, connectPeer]
    by_cases hpeer : (ch.push i).peer.isSome = true
    · rw [if_pos hpeer]
      exact h
    · rw [if_neg hpeer]
      exact h.setPeer (by simpa using hpeer) consumer
  | connectPullConsumer j consumer =>
    simp only [next, connectPeer]
    by_cases hpeer : (ch.pull j).peer.isSome = true
    · rw [if_pos hpeer]
      exact h
    · rw [if_neg hpeer]
      exact h.congr rfl rfl rfl rfl
  | disconnectPushSupplier i => exact (h.setPeer hs none).congr rfl rfl rfl rfl
  | disconnectPullSupplier j => exact h.congr rfl rfl rfl rfl
  | broadcast j peer => exact h.congr rfl rfl rfl rfl
  | post s => exact h.begin ha
  | postPull s =>
    obtain ⟨⟨n, _ | ⟨j, pulls⟩, signalling, pushs⟩, hp, hsig, hne⟩ := ha
    · exact absurd rfl hne
    simp only [next, hp]
    exact h.congr (bookOf_setPost_same (ch.setPull j _) hp rfl rfl) rfl rfl rfl
  | signal s =>
    obtain ⟨⟨n, pulls, _ | j, pushs⟩, hp, hsig⟩ := ha
    · exact absurd rfl hsig
    simp only [next, hp]
    exact h.congr (bookOf_setPost_same (ch.setPull j _) hp rfl rfl) rfl rfl rfl
  | postPush s raises =>
    obtain ⟨⟨n, pulls, signalling, _ | ⟨i, rest⟩⟩, hp, hsig, hpulls, hne⟩ := ha
    · exact absurd rfl hne
    simp only [next, hp, pushTo]
    -- what a failed push leaves out was not due
    have hleft (hfail : (ch.push i).peer = none ∨ raises = true) (k : Nat)
        (hdue : ch.PushDue k n) : k ∉ rest := by
      obtain ⟨r, c, hr, hmem⟩ := hdue
      exact hs _ i rest hp rfl hfail r k c hr hmem
    cases hpeer : (ch.push i).peer with
    | none =>
      refine h.stop hp fun k hdue hk => ?_
      rcases List.mem_cons.1 hk with rfl | hk
      · obtain ⟨r, c, hr, hmem⟩ := hdue
        have hconn := (h.peer n r k c hr hmem).2.1
        rw [hpeer] at hconn
        cases hconn
      · exact absurd hk (hleft (.inl hpeer) k hdue)
    | some c =>
      have hvisit := h.visit hp rfl hpeer
      cases raises with
      | false => exact hvisit
      | true =>
        have hstop := hvisit.stop (s := s) (p := ⟨n, pulls, signalling, rest⟩)
          (by rw [posts_setPost, if_pos rfl])
          fun k hdue hk => absurd hk (hleft (.inr rfl) k hdue)
        refine hstop.congr ?_ rfl rfl rfl
        rw [pushBook_setPost, pushBook_setPost, pushBook_setPost]
        simp only [Rounds.Book.setWork, Function.update_idem]
        rfl
  | postEnd s =>
    obtain ⟨p, hp, -, -, hpushs⟩ := ha
    exact h.stop hp fun k _ hk => by simp [hpushs] at hk
  | pull j => exact h.congr rfl rfl rfl rfl
  | resume j => exact h.congr rfl rfl rfl rfl
  | tryPull j => exact h.congr rfl rfl rfl rfl

theorem pull_next (h : ch.PullInv) {a : Action} (ha : ch.Enabled a) : (ch.next a).PullInv := by
  cases a with
  | obtainPushSupplier => exact h.congr rfl rfl rfl rfl
  | obtainPullSupplier => exact h.obtain
  | connectPushConsumer i consumer =>
    simp only [next, connectPeer]
    by_cases hpeer : (ch.push i).peer.isSome = true
    · rw [if_pos hpeer]
      exact h
    · rw [if_neg hpeer]
      exact h.congr rfl rfl rfl rfl
  | connectPullConsumer j consumer =>
    simp only [next, connectPeer]
    by_cases hpeer : (ch.pull j).peer.isSome = true
    · rw [if_pos hpeer]
      exact h
    · rw [if_neg hpeer]
      exact h.setPull rfl rfl
  | disconnectPushSupplier i => exact h.congr rfl rfl rfl rfl
  | disconnectPullSupplier j =>
    have hset : (ch.setPull j { ch.pull j with peer := none }).PullInv := h.setPull rfl rfl
    exact hset.congr rfl rfl rfl rfl
  | broadcast j peer =>
    have hset : (ch.setPull j (ch.pull j).broadcast).PullInv := h.setPull rfl rfl
    exact hset.congr rfl rfl rfl rfl
  | post s => exact h.begin ha
  | postPull s =>
    obtain ⟨⟨n, _ | ⟨j, pulls⟩, signalling, pushs⟩, hp, hsig, hne⟩ := ha
    · exact absurd rfl hne
    simp only [next, hp]
    exact h.visit hp rfl
  | signal s =>
    obtain ⟨⟨n, pulls, _ | j, pushs⟩, hp, hsig⟩ := ha
    · exact absurd rfl hsig
    simp only [next, hp]
    have hsame := signal_pulled (ch.pull j)
    exact (h.setPull hsame.1 hsame.2).congr
      (bookOf_setPost_same (ch.setPull j _) hp rfl rfl) rfl rfl rfl
  | postPush s raises =>
    obtain ⟨⟨n, pulls, signalling, _ | ⟨i, rest⟩⟩, hp, hsig, hpulls, hne⟩ := ha
    · exact absurd rfl hne
    simp only [next, hp, pushTo]
    cases (ch.push i).peer with
    | none => exact h.stop hp hpulls
    | some c =>
      cases raises with
      | false =>
        exact h.congr (bookOf_setPost_same (ch.setPush i _) hp rfl rfl) rfl rfl rfl
      | true => exact (h.stop hp hpulls).congr rfl rfl rfl rfl
  | postEnd s =>
    obtain ⟨p, hp, -, hpulls, -⟩ := ha
    exact h.stop hp hpulls
  | pull j => exact h.setPull (pull_pulled _).1 (pull_pulled _).2
  | resume j => exact h.setPull (pull_pulled _).1 (pull_pulled _).2
  | tryPull j => exact h.setPull (tryPull_pulled _).1 (tryPull_pulled _).2

theorem wait_next (h : ch.WaitInv j) {a : Action} (ha : ch.Enabled a) : (ch.next a).WaitInv j := by
  cases a with
  | obtainPushSupplier => exact h.congr rfl rfl fun _ hd => hd
  | obtainPullSupplier =>
    have hset : (ch.setPull ch.pullCount {}).WaitInv j :=
      h.setPull fun _ _ _ hw => absurd hw (lt_irrefl 0)
    exact hset.congr rfl rfl fun _ hd => hd
  | connectPushConsumer i consumer =>
    simp only [next]
    split
    · exact h
    · exact h.congr rfl rfl fun _ hd => hd
  | connectPullConsumer i consumer =>
    simp only [next, connectPeer]
    by_cases hpeer : (ch.pull i).peer.isSome = true
    · rw [if_pos hpeer]
      exact h
    · rw [if_neg hpeer]
      refine h.setPull fun _ n hinv hw => (hinv hw).imp_right fun hn => ?_
      exact absurd (Option.ne_none_iff_isSome.1 hn.2) hpeer
  | disconnectPushSupplier i => exact h.congr rfl rfl fun _ hd => hd
  | disconnectPullSupplier i =>
    by_cases hij : i = j
    · subst hij
      obtain ⟨S, hS, -⟩ := h
      exact ⟨S, hS, fun _ => .inl ⟨_, List.mem_cons_self⟩⟩
    · have hset : (ch.setPull i { ch.pull i with peer := none }).WaitInv j :=
        h.setPull fun heq => absurd heq hij
      exact hset.congr rfl rfl fun _ hd => List.mem_cons_of_mem _ hd
  | broadcast i peer =>
    by_cases hij : i = j
    · subst hij
      obtain ⟨S, hS, -⟩ := h
      refine ⟨S, hS, fun hw => ?_⟩
      simp only [next, setPull, Function.update_self, PullSupplier.broadcast] at hw
      exact absurd hw (lt_irrefl 0)
    · have hset : (ch.setPull i (ch.pull i).broadcast).WaitInv j :=
        h.setPull fun heq => absurd heq hij
      refine hset.congr rfl rfl fun p hd => (List.mem_erase_of_ne ?_).2 hd
      exact fun heq => hij (congrArg Prod.fst heq).symm
  | post s =>
    -- the new post has nothing to signal yet
    have hset := h.setPost (s := s)
      (q := some ⟨ch.started.length, List.range ch.pullCount, none, List.range ch.pushCount⟩)
      (iff_of_false (by simp) (by simp [show ch.posts s = none from ha]))
    exact hset.congr rfl rfl fun _ hd => hd
  | postPull s =>
    obtain ⟨⟨n, _ | ⟨i, pulls⟩, signalling, pushs⟩, hp, hsig, hne⟩ := ha
    · exact absurd rfl hne
    obtain rfl : signalling = none := hsig
    have hidle := not_signalling (k := j) hp rfl
    simp only [next, hp]
    by_cases hij : i = j
    · -- one more event, and one more wake-up to come
      subst hij
      obtain ⟨S, hS, hinv⟩ := h
      have hs : s ∉ S := fun hs => hidle ((hS s).1 hs)
      refine ⟨insert s S, fun t => ?_, fun hw => ?_⟩
      · rw [posts_setPost, Finset.mem_insert]
        by_cases ht : t = s
        · simp [ht]
        · rw [if_neg ht, or_iff_right ht]
          exact hS t
      · rw [Finset.card_insert_of_notMem hs]
        simp only [setPost, setPull, Function.update_self, PullSupplier.post] at hw ⊢
        refine (hinv hw).imp_right fun hn => ⟨?_, hn.2⟩
        rw [List.length_append, List.length_singleton]
        omega
    · have hset : (ch.setPull i ((ch.pull i).post n)).WaitInv j :=
        h.setPull fun heq => absurd heq hij
      refine hset.setPost (iff_of_false ?_ hidle)
      rintro ⟨p, hq, hk⟩
      obtain rfl := Option.some.inj hq
      exact hij (Option.some.inj hk)
  | signal s =>
    obtain ⟨⟨n, pulls, _ | i, pushs⟩, hp, hsig⟩ := ha
    · exact absurd rfl hsig
    simp only [next, hp]
    by_cases hij : i = j
    · -- a wake-up that was to come has come
      subst hij
      obtain ⟨S, hS, hinv⟩ := h
      have hs : s ∈ S := (hS s).2 ⟨_, hp, rfl⟩
      refine ⟨S.erase s, fun t => ?_, fun hw => ?_⟩
      · rw [posts_setPost, Finset.mem_erase]
        by_cases ht : t = s
        · simp [ht]
        · rw [if_neg ht, and_iff_right ht]
          exact hS t
      · have hcard := Finset.card_erase_add_one hs
        simp only [setPost, setPull, Function.update_self, PullSupplier.signal] at hw ⊢
        by_cases hzero : (ch.pull i).waiting = 0
        · rw [if_pos hzero] at hw
          omega
        · rw [if_neg hzero]
          refine (hinv (by omega)).imp_right fun hn => ⟨?_, hn.2⟩
          show (ch.pull i).queue.length ≤ (S.erase s).card + ((ch.pull i).woken + 1)
          omega
    · have hset : (ch.setPull i (ch.pull i).signal).WaitInv j :=
        h.setPull fun heq => absurd heq hij
      refine hset.setPost (iff_of_false (by simp) ?_)
      rintro ⟨p, hq, hk⟩
      rw [show (ch.setPull i (ch.pull i).signal).posts s = ch.posts s from rfl, hp] at hq
      obtain rfl := Option.some.inj hq
      exact hij (Option.some.inj hk)
  | postPush s raises =>
    obtain ⟨⟨n, pulls, signalling, _ | ⟨i, rest⟩⟩, hp, hsig, hpulls, hne⟩ := ha
    · exact absurd rfl hne
    obtain rfl : signalling = none := hsig
    have hidle := not_signalling (k := j) hp rfl
    simp only [next, hp, pushTo]
    split
    · exact h.setPost (iff_of_false (by simp) hidle)
    · have hset (p : PushSupplier) : (ch.setPush i p).WaitInv j := h.congr rfl rfl fun _ hd => hd
      refine (hset _).setPost (iff_of_false ?_ hidle)
      split <;> simp
  | postEnd s =>
    obtain ⟨p, hp, hsig, -, -⟩ := ha
    exact h.setPost (iff_of_false (by simp) (not_signalling hp hsig))
  | pull i =>
    refine h.setPull fun _ n hinv hw => ?_
    unfold PullSupplier.pull at hw ⊢
    split_ifs at hw ⊢ with hpeer hqueue
    · exact hinv hw
    · exact .inr ⟨by simp [hqueue], hpeer⟩
    · refine (hinv hw).imp_right fun hn => ⟨?_, hn.2⟩
      simp only [PullSupplier.extractFirst, List.length_tail]
      omega
  | resume i =>
    refine h.setPull fun _ n hinv hw => ?_
    unfold PullSupplier.resume PullSupplier.pull at hw ⊢
    split_ifs at hw ⊢ with hpeer hqueue
    · exact (hinv hw).imp_right fun hn => absurd hpeer hn.2
    · have hempty : (ch.pull i).queue = [] := hqueue
      exact .inr ⟨by simp [hempty], hpeer⟩
    · refine (hinv hw).imp_right fun hn => ⟨?_, hn.2⟩
      simp only [PullSupplier.extractFirst, List.length_tail]
      omega
  | tryPull i =>
    refine h.setPull fun _ n hinv hw => ?_
    unfold PullSupplier.tryPull at hw ⊢
    split_ifs at hw ⊢ with hpeer hqueue
    · exact hinv hw
    · exact hinv hw
    · refine (hinv hw).imp_right fun hn => ⟨?_, hn.2⟩
      simp only [PullSupplier.extractFirst, List.length_tail]
      omega

/-- Only `Disconnect_Push_Supplier` tests for the wrong thing. -/
theorem notified_next (h : ∀ d ∈ ch.disconnected, d.notified = d.peer) {a : Action}
    (hs : ch.Suits a) : ∀ d ∈ (ch.next a).disconnected, d.notified = d.peer := by
  cases a with
  | disconnectPushSupplier i =>
    intro d hd
    rcases List.mem_append.1 hd with hd | hd
    · exact h d hd
    · rw [List.mem_singleton.1 hd, show (ch.push i).peer = none from hs]
      rfl
  | broadcast j peer =>
    intro d hd
    rcases List.mem_append.1 hd with hd | hd
    · exact h d hd
    · rw [List.mem_singleton.1 hd]
      cases peer <;> rfl
  | connectPushConsumer i consumer =>
    simp only [next]
    split <;> exact h
  | connectPullConsumer j consumer =>
    simp only [next]
    split <;> exact h
  | postPull s =>
    simp only [next]
    split <;> exact h
  | signal s =>
    simp only [next]
    split <;> exact h
  | postPush s raises =>
    simp only [next, pushTo]
    split
    · split <;> exact h
    · exact h
  | _ => exact h

theorem inv_next (h : ch.Inv) {a : Action} (ha : ch.Enabled a) (hs : ch.Suits a) :
    (ch.next a).Inv where
  push := push_next h.push ha hs
  pull := pull_next h.pull ha
  wait j := wait_next (h.wait j) ha
  notified := notified_next h.notified hs

/-- A step that does not suit leaves an event undelivered, or a consumer without notice. -/
theorem suits_of_delivers (h : ch.Inv) {a : Action} (ha : ch.Enabled a)
    (hd : (ch.next a).Delivers) : ch.Suits a := by
  cases a with
  | disconnectPushSupplier i =>
    have hn : pushPeerToNotify (ch.push i).peer = (ch.push i).peer :=
      hd.notified ⟨(ch.push i).peer, pushPeerToNotify (ch.push i).peer⟩
        (List.mem_append_right _ (List.mem_singleton_self _))
    show (ch.push i).peer = none
    rw [← hn]
    unfold pushPeerToNotify
    split_ifs with hpeer
    · exact hpeer
    · rfl
  | postPush s raises =>
    rintro p i rest hp hpushs hfail r k c hr hdue hk
    -- the post is over after this step
    have hwork : ch.pushBook.work s = some (p.number, i :: rest) := by
      rw [pushBook_work, hp, ← hpushs]
      rfl
    have hnodup := List.nodup_cons.1 ((h.push.valid s _ _ hwork).2)
    have hne : k ≠ i := fun heq => hnodup.1 (heq ▸ hk)
    have hnext : (ch.next (.postPush s raises)).started = ch.started ∧
        (ch.next (.postPush s raises)).posts = Function.update ch.posts s none ∧
        (ch.next (.postPush s raises)).push k = ch.push k := by
      obtain ⟨n, pulls, signalling, pushs⟩ := p
      obtain rfl : pushs = i :: rest := hpushs
      simp only [next, hp, pushTo]
      split
      · exact ⟨rfl, rfl, rfl⟩
      · rename_i c' hpeer
        rw [if_pos (hfail.resolve_left (by rw [hpeer]; simp))]
        refine ⟨rfl, rfl, ?_⟩
        exact (push_setPush ..).trans (if_neg hne)
    obtain ⟨hstarted, hposts, hpush⟩ := hnext
    have hended : (ch.next (.postPush s raises)).Ended p.number := by
      intro t q hq heq
      rw [hposts, Function.update_apply] at hq
      split at hq
      · cases hq
      · rename_i hts
        have hq' : ch.pushBook.work t = some (p.number, q.pushs) := by
          rw [pushBook_work, hq, ← heq]
          rfl
        exact hts (h.push.valid.unique hwork hq')
    have hmem := hd.pushed p.number r k c (by rw [hstarted]; exact hr) hended hdue
    rw [hpush] at hmem
    exact (h.push.log k).ahead s _ _ hwork (List.mem_cons_of_mem i hk)
      (List.mem_map.2 ⟨_, hmem, rfl⟩)
  | _ => trivial

end Channel

/-! ## Runs -/

open Channel

/-- A channel delivers at every step of a run exactly when each step suits. -/
theorem channelRun_iff (as : List Action) (h : Runs.Along next Enabled initial as) :
    Runs.Along next (fun ch a => (ch.next a).Delivers) initial as ↔
      Runs.Along next Suits initial as :=
  Runs.along_iff (fun _ _ hinv ha => ⟨suits_of_delivers hinv ha, fun hs =>
    have hinv' := inv_next hinv ha hs
    ⟨hinv'.delivers, hinv'⟩⟩) as initial inv_initial h

/-- A push consumer is connected behind a proxy that nobody is connected to, and an event is posted:
the post is over before the consumer is pushed anything. -/
def unreachedConsumer : List Action :=
  [.obtainPushSupplier, .obtainPushSupplier, .connectPushConsumer 1 (some 7), .post 0,
    .postPush 0 false]

theorem unreachedConsumer_enabled : Runs.Along next Enabled initial unreachedConsumer :=
  ⟨trivial, trivial, by simp [Enabled, next, initial, setPush], rfl,
    ⟨_, rfl, rfl, rfl, by simp [next, initial, setPush, connectPeer]⟩, trivial⟩

theorem not_channelRun :
    ¬Runs.Along next (fun ch a => (ch.next a).Delivers) initial unreachedConsumer := by
  rintro ⟨-, -, -, -, hd, -⟩
  have hmem := hd.pushed 0 ⟨0, 0, [(1, 7)]⟩ 1 7 rfl (fun s p hp => ?_) (by simp)
  · exact absurd hmem (by decide)
  · change Function.update (Function.update (fun _ => none) 0 _) 0 none s = some p at hp
    rw [Function.update_idem, Function.update_apply] at hp
    split at hp <;> cases hp

/-- An event is pulled by a task that waits for it, and is then pushed. -/
def pulledAndPushed : List Action :=
  [.obtainPushSupplier, .connectPushConsumer 0 (some 7), .obtainPullSupplier,
    .connectPullConsumer 0 (some 8), .pull 0, .post 0, .postPull 0, .signal 0, .resume 0,
    .postPush 0 false, .postEnd 0]

theorem pulledAndPushed_enabled : Runs.Along next Enabled initial pulledAndPushed := by
  simp [Runs.Along, pulledAndPushed, Enabled, next, initial, setPush, setPull, setPost, connectPeer,
    beginPost, PullSupplier.pull, PullSupplier.post, PullSupplier.signal, pushTo, PushSupplier.push]

theorem pulledAndPushed_suits : Runs.Along next Suits initial pulledAndPushed := by
  simp [Runs.Along, pulledAndPushed, Suits, next, initial, setPush, setPull, setPost, connectPeer,
    beginPost, PullSupplier.pull, PullSupplier.post, PullSupplier.signal, PullSupplier.resume,
    PullSupplier.extractFirst, connected]
  rintro p i rest rfl hpushs - r k c - -
  obtain ⟨-, rfl⟩ := List.cons.inj hpushs
  exact List.not_mem_nil

/-- Both sides hold of that run, and both fail of the one before it. -/
theorem channelRun_iff_unreachedConsumer :
    Runs.Along next (fun ch a => (ch.next a).Delivers) initial pulledAndPushed ∧
      (Runs.Along next (fun ch a => (ch.next a).Delivers) initial unreachedConsumer ↔
        Runs.Along next Suits initial unreachedConsumer) :=
  ⟨(channelRun_iff pulledAndPushed pulledAndPushed_enabled).mpr pulledAndPushed_suits,
    channelRun_iff unreachedConsumer unreachedConsumer_enabled⟩

end PolyORB.Events

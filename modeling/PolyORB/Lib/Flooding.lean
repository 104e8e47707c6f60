import Mathlib.Logic.Hydra
import Mathlib.SetTheory.Cardinal.Finite
import Mathlib.Tactic

/-!
# Work that spawns work

An item that is pending brings results and puts other items in its place, in any order.  `Delivery`
is a way from an item to one of its results: the work ends exactly when no item spawns itself, and
then the results are counted by their deliveries.
-/

namespace Flooding

open Relation

variable {α β : Type}

structure Work (α β : Type) where
  pending : Multiset α
  done : Multiset β

section Rules

variable (next : α → List α) (yield : α → List β)

/-- Any of the pending items is worked on. -/
inductive Step : Work α β → Work α β → Prop
  | take (a : α) (s : Multiset α) (r : Multiset β) : Step ⟨a ::ₘ s, r⟩ ⟨next a + s, yield a + r⟩

def Spawns (b a : α) : Prop := b ∈ next a

instance [DecidableEq α] (b a : α) : Decidable (Spawns next b a) :=
  inferInstanceAs (Decidable (b ∈ next a))

/-- `b` is pending at some time when `a` is. -/
def Reaches : α → α → Prop := ReflTransGen fun a b => Spawns next b a

/-- A result of `a`, or one of an item that it spawns. -/
inductive Delivery (b : β) : α → Type
  | here {a : α} (j : Fin (yield a).length) (h : b = (yield a)[j]) : Delivery b a
  | there {a : α} (i : Fin (next a).length) (d : Delivery b (next a)[i]) : Delivery b a

end Rules

variable {next : α → List α} {yield : α → List β}

/-! ## Termination -/

theorem acc_of_acc_step {w : Work α β} (h : Acc (fun t s => Step next yield s t) w) :
    ∀ a ∈ w.pending, Acc (Spawns next) a := by
  induction h with
  | intro w _ ih =>
    intro a ha
    obtain ⟨s, hs⟩ := Multiset.exists_cons_of_mem ha
    refine ⟨a, fun b hb => ih ⟨next a + s, yield a + w.done⟩ ?_ b ?_⟩
    · have hstep : Step next yield ⟨a ::ₘ s, w.done⟩ ⟨next a + s, yield a + w.done⟩ :=
        .take a s w.done
      rwa [← hs] at hstep
    · exact Multiset.mem_add.2 (.inl hb)

theorem not_self_of_acc {r : α → α → Prop} {a : α} (h : Acc r a) : ¬r a a := by
  induction h with
  | intro a _ ih => exact fun ha => ih a ha ha

/-- The steps from accessible items, which no item takes to itself. -/
def Descends (next : α → List α) (b a : α) : Prop := Spawns next b a ∧ Acc (Spawns next) a

instance : Std.Irrefl (Descends next) where
  irrefl _ h := not_self_of_acc h.2 h.1

theorem acc_step_of_acc {w : Work α β} (h : ∀ a ∈ w.pending, Acc (Spawns next) a) :
    Acc (fun t s => Step next yield s t) w := by
  have hcut : Acc (CutExpand (Descends next)) w.pending := by
    refine acc_of_singleton fun a ha => Acc.cutExpand ?_
    exact Subrelation.accessible (fun hb => hb.1) (h a ha)
  have hw : Acc (InvImage (CutExpand (Descends next)) Work.pending) w :=
    InvImage.accessible Work.pending hcut
  clear hcut
  induction hw with
  | intro w _ ih =>
    refine ⟨w, fun t ht => ?_⟩
    cases ht with
    | take a s r =>
      have ha := h a (Multiset.mem_cons_self a s)
      refine ih _ ⟨next a, a, fun b hb => ⟨hb, ha⟩, ?_⟩ fun b hb => ?_
      · show (next a : Multiset α) + s + {a} = a ::ₘ s + next a
        rw [← Multiset.singleton_add]
        abel
      · rcases Multiset.mem_add.1 hb with hb | hb
        · exact ha.inv hb
        · exact h b (Multiset.mem_cons_of_mem hb)

theorem acc_iff_of_finite {a : α}
    (hfin : {b | Reaches next a b}.Finite) :
    Acc (Spawns next) a ↔ ∀ b, Reaches next a b → ¬TransGen (Spawns next) b b := by
  constructor
  · intro h b hb
    have hacc : Acc (Spawns next) b := by
      induction hb with
      | refl => exact h
      | tail _ hspawn ih => exact ih.inv hspawn
    exact not_self_of_acc hacc.transGen
  · intro h
    let r : {b // Reaches next a b} → {b // Reaches next a b} → Prop :=
      fun x y => TransGen (Spawns next) x.1 y.1
    have : Finite {b // Reaches next a b} := hfin
    have : Std.Irrefl r := ⟨fun x hx => h x.1 x.2 hx⟩
    have hwf : WellFounded r := Finite.wellFounded_of_trans_of_irrefl r
    have hall : ∀ x : {b // Reaches next a b}, Acc (Spawns next) x.1 := by
      intro x
      induction x using hwf.induction with
      | _ x ih => exact ⟨_, fun b hb => ih ⟨b, x.2.tail hb⟩ (.single hb)⟩
    exact hall ⟨a, .refl⟩

/-! ## Deliveries -/

def deliveryEquiv (b : β) (a : α) : Delivery next yield b a ≃
    {j : Fin (yield a).length // b = (yield a)[j]} ⊕
      (i : Fin (next a).length) × Delivery next yield b (next a)[i] where
  toFun
    | .here j h => .inl ⟨j, h⟩
    | .there i d => .inr ⟨i, d⟩
  invFun
    | .inl ⟨j, h⟩ => .here j h
    | .inr ⟨i, d⟩ => .there i d
  left_inv d := by cases d <;> rfl
  right_inv x := by rcases x with ⟨j, h⟩ | ⟨i, d⟩ <;> rfl

theorem finite_delivery {a : α} (h : Acc (Spawns next) a) (b : β) :
    Finite (Delivery next yield b a) := by
  induction h with
  | intro a _ ih =>
    have hfin : ∀ i : Fin (next a).length, Finite (Delivery next yield b (next a)[i]) :=
      fun i => ih _ (List.getElem_mem i.2)
    exact .of_equiv _ (deliveryEquiv b a).symm

theorem card_getElem [DecidableEq β] (l : List β) (b : β) :
    Nat.card {j : Fin l.length // b = l[j]} = l.count b := by
  rw [Nat.card_eq_fintype_card, Fintype.card_subtype, Finset.card, Finset.filter_val,
    ← Multiset.coe_count]
  conv_rhs => rw [← @List.ofFn_getElem _ l, ← Fin.univ_val_map, Multiset.count_map]
  rfl

theorem card_delivery [DecidableEq β] {a : α} (h : Acc (Spawns next) a) (b : β) :
    Nat.card (Delivery next yield b a) =
      (yield a).count b + ((next a).map fun c => Nat.card (Delivery next yield b c)).sum := by
  have hfin : ∀ i : Fin (next a).length, Finite (Delivery next yield b (next a)[i]) :=
    fun i => finite_delivery (h.inv (List.getElem_mem i.2)) b
  rw [Nat.card_congr (deliveryEquiv b a), Nat.card_sum, card_getElem, Nat.card_sigma]
  congr 1
  exact Fin.sum_univ_fun_getElem (next a) fun c => Nat.card (Delivery next yield b c)

/-! ## Results -/

theorem exists_done {s : Work α β} (h : Acc (fun t s => Step next yield s t) s) :
    ∃ t, ReflTransGen (Step next yield) s t ∧ t.pending = 0 := by
  induction h with
  | intro s _ ih =>
    rcases Multiset.empty_or_exists_mem s.pending with hs | ⟨a, ha⟩
    · exact ⟨s, .refl, hs⟩
    · obtain ⟨m, hm⟩ := Multiset.exists_cons_of_mem ha
      have hstep : Step next yield ⟨a ::ₘ m, s.done⟩ ⟨next a + m, yield a + s.done⟩ :=
        .take a m s.done
      rw [← hm] at hstep
      obtain ⟨t, ht, hdone⟩ := ih _ hstep
      exact ⟨t, .head hstep ht, hdone⟩

section Count

variable [DecidableEq β]

/-- The results of one kind that were brought, and those that are to come. -/
noncomputable def weight (next : α → List α) (yield : α → List β) (b : β) (w : Work α β) : ℕ :=
  w.done.count b + (w.pending.map fun a => Nat.card (Delivery next yield b a)).sum

theorem weight_step {b : β} {s t : Work α β} (h : Step next yield s t)
    (hacc : ∀ a ∈ s.pending, Acc (Spawns next) a) :
    weight next yield b t = weight next yield b s ∧ ∀ a ∈ t.pending, Acc (Spawns next) a := by
  cases h with
  | take a s r =>
    have ha := hacc a (Multiset.mem_cons_self a s)
    constructor
    · simp only [weight, Multiset.count_add, Multiset.map_add, Multiset.sum_add, Multiset.map_cons,
        Multiset.sum_cons, card_delivery ha b, Multiset.coe_count, Multiset.map_coe,
        Multiset.sum_coe]
      abel
    · intro c hc
      rcases Multiset.mem_add.1 hc with hc | hc
      · exact ha.inv hc
      · exact hacc c (Multiset.mem_cons_of_mem hc)

theorem weight_run {b : β} {s t : Work α β} (h : ReflTransGen (Step next yield) s t)
    (hacc : ∀ a ∈ s.pending, Acc (Spawns next) a) :
    weight next yield b t = weight next yield b s ∧ ∀ a ∈ t.pending, Acc (Spawns next) a := by
  induction h with
  | refl => exact ⟨rfl, hacc⟩
  | tail _ hstep ih =>
    obtain ⟨hw, ht⟩ := weight_step (b := b) hstep ih.2
    exact ⟨hw.trans ih.1, ht⟩

variable (next yield) in
/-- In any order, the results of one item are those that its deliveries bring. -/
theorem ends_with_iff (a : α) (n : β → ℕ) :
    (Acc (fun t s => Step next yield s t) ⟨{a}, 0⟩ ∧
      ∀ t, ReflTransGen (Step next yield) ⟨{a}, 0⟩ t → t.pending = 0 →
        ∀ b, t.done.count b = n b) ↔
    Acc (Spawns next) a ∧ ∀ b, Nat.card (Delivery next yield b a) = n b := by
  have hpending : ∀ c ∈ (⟨{a}, 0⟩ : Work α β).pending,
      Acc (Spawns next) a → Acc (Spawns next) c := by
    intro c hc ha
    rwa [Multiset.mem_singleton.1 hc]
  have hcount : Acc (Spawns next) a → ∀ t, ReflTransGen (Step next yield) ⟨{a}, 0⟩ t →
      t.pending = 0 → ∀ b, t.done.count b = Nat.card (Delivery next yield b a) := by
    intro ha t ht hdone b
    have hw := (weight_run (b := b) ht fun c hc => hpending c hc ha).1
    simpa [weight, hdone] using hw
  constructor
  · rintro ⟨hacc, hruns⟩
    have ha := acc_of_acc_step hacc a (Multiset.mem_singleton_self a)
    obtain ⟨t, ht, hdone⟩ := exists_done hacc
    exact ⟨ha, fun b => (hcount ha t ht hdone b).symm.trans (hruns t ht hdone b)⟩
  · rintro ⟨ha, hn⟩
    refine ⟨acc_step_of_acc fun c hc => hpending c hc ha, fun t ht hdone b => ?_⟩
    rw [hcount ha t ht hdone b, hn b]

end Count

end Flooding

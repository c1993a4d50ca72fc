import Mathlib.Data.Finset.Basic
import Mathlib.Data.Finset.Card
import Mathlib.Data.Finset.Union
import Mathlib.Data.List.Count

/-!
This module contains the ownership of resources that are handed out and taken back, such as the
descriptors and the mutexes of a process. A program is a trace of acts. Resources that the other side
chooses, as the system does with the number of a descriptor, are free when they are handed out. All else
is up to the program: that it acquires no other resource twice, and that it uses and releases only what
it holds.
-/

namespace Ledger

inductive Act (α : Type) where
  | acquire (a : α)
  | use (a : α)
  | release (a : α)
  deriving DecidableEq, Repr

variable {α : Type} [DecidableEq α] (chosen : α → Prop)

namespace Act

def after (held : Finset α) : Act α → Finset α
  | .acquire a => insert a held
  | .use _ => held
  | .release a => held.erase a

def isAcquire : Act α → Bool
  | .acquire _ => true
  | _ => false

def isRelease : Act α → Bool
  | .release _ => true
  | _ => false

-- what the other side is relied on for
def Fresh (held : Finset α) : Act α → Prop
  | .acquire a => chosen a → a ∉ held
  | _ => True

-- what the program has to see to
def Owned (held : Finset α) : Act α → Prop
  | .acquire a => ¬chosen a → a ∉ held
  | .use a | .release a => a ∈ held

instance [DecidablePred chosen] (held : Finset α) (act : Act α)
    : Decidable (act.Fresh chosen held) := by
  cases act <;> unfold Fresh <;> infer_instance

instance [DecidablePred chosen] (held : Finset α) (act : Act α)
    : Decidable (act.Owned chosen held) := by
  cases act <;> unfold Owned <;> infer_instance

end Act

def after (held : Finset α) : List (Act α) → Finset α
  | [] => held
  | act :: acts => after (act.after held) acts

def Fresh (held : Finset α) : List (Act α) → Prop
  | [] => True
  | act :: acts => act.Fresh chosen held ∧ Fresh (act.after held) acts

def Owned (held : Finset α) : List (Act α) → Prop
  | [] => True
  | act :: acts => act.Owned chosen held ∧ Owned (act.after held) acts

instance Fresh.decidable [DecidablePred chosen] (held : Finset α)
    : (acts : List (Act α)) → Decidable (Fresh chosen held acts)
  | [] => .isTrue trivial
  | act :: acts =>
    have := Fresh.decidable (act.after held) acts
    inferInstanceAs (Decidable (act.Fresh chosen held ∧ Fresh chosen (act.after held) acts))

instance Owned.decidable [DecidablePred chosen] (held : Finset α)
    : (acts : List (Act α)) → Decidable (Owned chosen held acts)
  | [] => .isTrue trivial
  | act :: acts =>
    have := Owned.decidable (act.after held) acts
    inferInstanceAs (Decidable (act.Owned chosen held ∧ Owned chosen (act.after held) acts))

theorem after_append (held : Finset α) (acts acts' : List (Act α))
    : after held (acts ++ acts') = after (after held acts) acts' := by
  induction acts generalizing held with
  | nil => rfl
  | cons act acts ih => exact ih (act.after held)

theorem fresh_cons (held : Finset α) (act : Act α) (acts : List (Act α))
    : Fresh chosen held (act :: acts)
        ↔ act.Fresh chosen held ∧ Fresh chosen (act.after held) acts := by
  rfl

theorem owned_cons (held : Finset α) (act : Act α) (acts : List (Act α))
    : Owned chosen held (act :: acts)
        ↔ act.Owned chosen held ∧ Owned chosen (act.after held) acts := by
  rfl

theorem fresh_append (held : Finset α) (acts acts' : List (Act α))
    : Fresh chosen held (acts ++ acts')
        ↔ Fresh chosen held acts ∧ Fresh chosen (after held acts) acts' := by
  induction acts generalizing held with
  | nil => simp [Fresh, after]
  | cons act acts ih =>
    rw [List.cons_append, fresh_cons, fresh_cons, ih, and_assoc]
    rfl

theorem owned_append (held : Finset α) (acts acts' : List (Act α))
    : Owned chosen held (acts ++ acts')
        ↔ Owned chosen held acts ∧ Owned chosen (after held acts) acts' := by
  induction acts generalizing held with
  | nil => simp [Owned, after]
  | cons act acts ih =>
    rw [List.cons_append, owned_cons, owned_cons, ih, and_assoc]
    rfl

theorem fresh_of_no_acquire {held : Finset α} {acts : List (Act α)}
    (h : ∀ act ∈ acts, act.isAcquire = false)
    : Fresh chosen held acts := by
  induction acts generalizing held with
  | nil => trivial
  | cons act acts ih =>
    have hact := h act List.mem_cons_self
    have hacts := @ih (act.after held) fun act' hmem => h act' (List.mem_cons_of_mem act hmem)
    cases act with
    | acquire a => contradiction
    | use a => exact ⟨trivial, hacts⟩
    | release a => exact ⟨trivial, hacts⟩

theorem fresh_of_not_chosen (h : ∀ a, ¬chosen a) (held : Finset α) (acts : List (Act α))
    : Fresh chosen held acts := by
  induction acts generalizing held with
  | nil => trivial
  | cons act acts ih =>
    refine ⟨?_, ih (act.after held)⟩
    cases act with
    | acquire a =>
      intro hchosen
      exact absurd hchosen (h a)
    | _ => trivial

theorem fresh_acquires {as : List α} (h : ∀ a ∈ as, ¬chosen a) (held : Finset α)
    : Fresh chosen held (as.map .acquire) := by
  induction as generalizing held with
  | nil => trivial
  | cons a as ih =>
    rw [List.map_cons, fresh_cons]
    refine ⟨?_, ?_⟩
    . intro hchosen
      exact absurd hchosen (h a List.mem_cons_self)
    . apply ih
      intro b hb
      exact h b (List.mem_cons_of_mem a hb)

theorem owned_uses {held : Finset α} {as : List α} (h : ∀ a ∈ as, a ∈ held)
    : Owned chosen held (as.map .use) := by
  induction as with
  | nil => trivial
  | cons a as ih =>
    rw [List.map_cons, owned_cons]
    refine ⟨h a List.mem_cons_self, ?_⟩
    apply ih
    intro b hb
    exact h b (List.mem_cons_of_mem a hb)

theorem after_uses (held : Finset α) (as : List α)
    : after held (as.map .use) = held := by
  induction as with
  | nil => rfl
  | cons a as ih => exact ih

-- The acts lead from one set of held resources to another, given that what the other side has chosen has
-- been free.
structure Carries (held : Finset α) (acts : List (Act α)) (held' : Finset α) : Prop where
  owned : Fresh chosen held acts → Owned chosen held acts
  after : Fresh chosen held acts → Ledger.after held acts = held'

variable {chosen}

-- What is acquired has not been held, whichever side has chosen it.
omit [DecidableEq α] in
theorem notMem_of_acquire {held : Finset α} {a : α} (hfresh : (Act.acquire a).Fresh chosen held)
    (howned : (Act.acquire a).Owned chosen held)
    : a ∉ held := by
  by_cases hchosen : chosen a
  . exact hfresh hchosen
  . exact howned hchosen

namespace Carries

variable {held held' held'' : Finset α} {acts acts' : List (Act α)}

theorem nil (held : Finset α)
    : Carries chosen held [] held := by
  constructor
  . intro _
    trivial
  . intro _
    rfl

theorem trans (h : Carries chosen held acts held') (h' : Carries chosen held' acts' held'')
    : Carries chosen held (acts ++ acts') held'' := by
  constructor
  . intro hfresh
    rw [fresh_append] at hfresh
    rw [owned_append]
    have hafter := h.after hfresh.1
    refine ⟨h.owned hfresh.1, ?_⟩
    rw [hafter] at hfresh ⊢
    exact h'.owned hfresh.2
  . intro hfresh
    rw [fresh_append] at hfresh
    rw [after_append]
    have hafter := h.after hfresh.1
    rw [hafter] at hfresh ⊢
    exact h'.after hfresh.2

-- For what the program names itself, that it is free is for the program to see to.
theorem acquire {a : α} (h : ¬chosen a → a ∉ held)
    : Carries chosen held [.acquire a] (insert a held) := by
  constructor
  . intro _
    exact ⟨h, trivial⟩
  . intro _
    rfl

theorem use {a : α} (h : a ∈ held)
    : Carries chosen held [.use a] held := by
  constructor
  . intro _
    exact ⟨h, trivial⟩
  . intro _
    rfl

theorem release {a : α} (h : a ∈ held)
    : Carries chosen held [.release a] (held.erase a) := by
  constructor
  . intro _
    exact ⟨h, trivial⟩
  . intro _
    rfl

-- What is acquired next may be taken to be free.
theorem of_free {a : α} {acts : List (Act α)} (hfree : ¬chosen a → a ∉ held)
    (h : a ∉ held → Carries chosen held (.acquire a :: acts) held')
    : Carries chosen held (.acquire a :: acts) held' := by
  have ha : Fresh chosen held (.acquire a :: acts) → a ∉ held := by
    intro hfresh
    exact notMem_of_acquire hfresh.1 hfree
  constructor
  . intro hfresh
    exact (h (ha hfresh)).owned hfresh
  . intro hfresh
    exact (h (ha hfresh)).after hfresh

end Carries

variable (chosen) in
-- All that is acquired is given back, in the opposite order, and nothing else is touched.
inductive Passing : Finset α → List (Act α) → Prop where
  | nil {held : Finset α} : Passing held []
  | bracket {held : Finset α} {a : α} {acts : List (Act α)} (hfree : ¬chosen a → a ∉ held)
      (hacts : a ∉ held → Passing (insert a held) acts)
      : Passing held (.acquire a :: (acts ++ [.release a]))

namespace Passing

variable {held : Finset α} {acts : List (Act α)}

theorem once {a : α} (h : ¬chosen a → a ∉ held)
    : Passing chosen held [.acquire a, .release a] := by
  apply @bracket _ _ _ _ _ [] h
  intro _
  exact nil

theorem carries (h : Passing chosen held acts)
    : Carries chosen held acts held := by
  induction h with
  | nil => exact Carries.nil _
  | @bracket held a acts hfree hacts ih =>
    apply Carries.of_free hfree
    intro ha
    have hrelease := @Carries.release _ _ chosen _ _ (Finset.mem_insert_self a held)
    rw [Finset.erase_insert ha] at hrelease
    apply @Carries.trans _ _ _ _ _ _ [.acquire a] _ (Carries.acquire hfree)
    exact (ih ha).trans hrelease

theorem release_notMem (h : Passing chosen held acts) (hfresh : Fresh chosen held acts) {a : α}
    (ha : a ∈ held)
    : .release a ∉ acts := by
  induction h with
  | nil => exact List.not_mem_nil
  | @bracket held b acts hfree hacts ih =>
    obtain ⟨hb, hrest⟩ := hfresh
    have hb' := notMem_of_acquire hb hfree
    rw [fresh_append] at hrest
    have hnot := ih hb' hrest.1 (Finset.mem_insert_of_mem ha)
    intro hmem
    rw [List.mem_cons, List.mem_append, List.mem_singleton] at hmem
    obtain heq | hmem | heq := hmem
    . contradiction
    . contradiction
    . cases heq
      contradiction

end Passing

-- Every resource is released once for each time it has been acquired, except for the last time of one
-- that is still held.
theorem count_release {held : Finset α} {acts : List (Act α)} (hfresh : Fresh chosen held acts)
    (howned : Owned chosen held acts) (a : α)
    : acts.count (.release a) + (if a ∈ after held acts then 1 else 0)
        =
      acts.count (.acquire a) + (if a ∈ held then 1 else 0) := by
  induction acts generalizing held with
  | nil => rfl
  | cons act acts ih =>
    have hacts := ih hfresh.2 howned.2
    have hact := hfresh.1
    have hown := howned.1
    unfold after
    cases act with
    | acquire b =>
      by_cases hab : b = a
      . subst hab
        have hb := notMem_of_acquire hact hown
        simp [Act.after, hb] at hacts ⊢
        omega
      . have hba : a ≠ b := fun h => hab h.symm
        simp [Act.after, hab, hba] at hacts ⊢
        exact hacts
    | use b =>
      simp [Act.after] at hacts ⊢
      exact hacts
    | release b =>
      by_cases hab : b = a
      . subst hab
        dsimp only [Act.Owned, Act.after] at hown hacts
        simp [Act.after, hown] at hacts ⊢
        omega
      . have hba : a ≠ b := fun h => hab h.symm
        simp [Act.after, hab, hba] at hacts ⊢
        exact hacts

-- How many resources are held is how often one has been acquired more than one has been released.
theorem card_after {held : Finset α} {acts : List (Act α)} (hfresh : Fresh chosen held acts)
    (howned : Owned chosen held acts)
    : (after held acts).card + acts.countP Act.isRelease
        =
      held.card + acts.countP Act.isAcquire := by
  induction acts generalizing held with
  | nil => rfl
  | cons act acts ih =>
    have hacts := ih hfresh.2 howned.2
    have hact := hfresh.1
    have hown := howned.1
    unfold after
    rw [List.countP_cons, List.countP_cons]
    cases act with
    | acquire a =>
      have ha := notMem_of_acquire hact hown
      simp [Act.after, Act.isAcquire, Act.isRelease, ha] at hacts ⊢
      omega
    | use a =>
      simp [Act.after, Act.isAcquire, Act.isRelease] at hacts ⊢
      exact hacts
    | release a =>
      have ha : a ∈ held := hown
      have hpos := Finset.card_pos.mpr ⟨a, ha⟩
      simp [Act.after, Act.isAcquire, Act.isRelease, ha] at hacts ⊢
      omega

-- A counter that goes up with what is acquired, and down with what is released but not below zero.
def Act.counted (n : Int) : Act α → Int
  | .acquire _ => n + 1
  | .use _ => n
  | .release _ => if n > 0 then n - 1 else n

theorem counted_step {held : Finset α} {act : Act α} (hfresh : act.Fresh chosen held)
    (howned : act.Owned chosen held)
    : act.counted (held.card : Int) = (act.after held).card := by
  cases act with
  | acquire a =>
    have ha := notMem_of_acquire hfresh howned
    unfold Act.counted Act.after
    rw [Finset.card_insert_of_notMem ha, Int.natCast_add, Int.natCast_one]
  | use a => rfl
  | release a =>
    have hpos := Finset.card_pos.mpr ⟨a, howned⟩
    unfold Act.counted Act.after
    rw [if_pos (Int.natCast_pos.mpr hpos), Finset.card_erase_of_mem howned, Int.natCast_sub hpos,
      Int.natCast_one]

-- Such a counter never has to be kept from getting below zero.
theorem foldl_counted {held : Finset α} {acts : List (Act α)} (hfresh : Fresh chosen held acts)
    (howned : Owned chosen held acts)
    : acts.foldl Act.counted (held.card : Int) = (after held acts).card := by
  induction acts generalizing held with
  | nil => rfl
  | cons act acts ih =>
    rw [List.foldl_cons, counted_step hfresh.1 howned.1]
    apply ih hfresh.2 howned.2

end Ledger

import Mathlib.Data.List.Basic
import Mathlib.Data.List.Nodup

/-!
This module contains linked lists of records, each with the key of its address: what a change behind a
pointer does, what a pointer leads to, and taking a record out of the list.
-/

namespace Records

variable {κ α : Type}

def keys (records : List (κ × α)) : List κ :=
  records.map Prod.fst

theorem mem_keys {records : List (κ × α)} {entry : κ × α} (h : entry ∈ records)
    : entry.1 ∈ keys records := by
  apply List.mem_map_of_mem h

theorem eq_of_key_eq {records : List (κ × α)} (hkeys : (keys records).Nodup) {entry entry' : κ × α}
    (h : entry ∈ records) (h' : entry' ∈ records) (heq : entry.1 = entry'.1)
    : entry = entry' := by
  apply List.inj_on_of_nodup_map hkeys h h' heq

variable [DecidableEq κ]

def update (records : List (κ × α)) (key : κ) (f : α → α) : List (κ × α) :=
  records.map fun entry => if entry.1 = key then (entry.1, f entry.2) else entry

def get (records : List (κ × α)) (key : κ) : Option α :=
  (records.find? fun entry => entry.1 = key).map Prod.snd

def unlink (records : List (κ × α)) (key : κ) : List (κ × α) :=
  records.eraseP fun entry => entry.1 = key

variable {records : List (κ × α)} {key : κ}

theorem keys_update (f : α → α)
    : keys (update records key f) = keys records := by
  unfold keys update
  rw [List.map_map]
  apply List.map_congr_left
  intro entry _
  dsimp only [Function.comp_apply]
  split
  . rfl
  . rfl

-- A part of the records that the change leaves alone.
theorem map_update {β : Type} {g : α → β} {f : α → α} (h : ∀ a, (key, a) ∈ records → g (f a) = g a)
    : (update records key f).map (fun entry => g entry.2) = records.map (fun entry => g entry.2) := by
  unfold update
  rw [List.map_map]
  apply List.map_congr_left
  intro entry hmem
  dsimp only [Function.comp_apply]
  split
  next hkey =>
    apply h
    rw [← hkey]
    exact hmem
  . rfl

theorem mem_update {f : α → α} {entry : κ × α}
    : entry ∈ update records key f
        ↔
      entry.1 ≠ key ∧ entry ∈ records ∨ entry.1 = key ∧ ∃ a, (key, a) ∈ records ∧ entry.2 = f a := by
  unfold update
  rw [List.mem_map]
  constructor
  . intro ⟨entry', hmem, heq⟩
    split at heq
    next hkey =>
      subst heq
      refine .inr ⟨hkey, entry'.2, ?_, rfl⟩
      rw [← hkey]
      exact hmem
    next hkey =>
      subst heq
      exact .inl ⟨hkey, hmem⟩
  . intro h
    cases h with
    | inl h => exact ⟨entry, h.2, if_neg h.1⟩
    | inr h =>
      obtain ⟨hkey, a, hmem, heq⟩ := h
      refine ⟨(key, a), hmem, ?_⟩
      rw [if_pos rfl, ← hkey, ← heq]

theorem mem_of_get {a : α} (h : get records key = some a)
    : (key, a) ∈ records := by
  obtain ⟨entry, hfind, heq⟩ := Option.map_eq_some_iff.mp h
  have hkey : entry.1 = key := by simpa using List.find?_some hfind
  rw [← hkey, ← heq]
  exact List.mem_of_find?_eq_some hfind

theorem get_eq_some (hkeys : (keys records).Nodup) {a : α} (h : (key, a) ∈ records)
    : get records key = some a := by
  unfold get
  cases hfind : records.find? fun entry => entry.1 = key with
  | none =>
    rw [List.find?_eq_none] at hfind
    exact absurd (decide_eq_true rfl) (hfind (key, a) h)
  | some entry =>
    have hmem := List.mem_of_find?_eq_some hfind
    have hkey : entry.1 = key := by simpa using List.find?_some hfind
    rw [eq_of_key_eq hkeys hmem h hkey]
    rfl

theorem keys_unlink (hkeys : (keys records).Nodup)
    : (keys (unlink records key)).Nodup := by
  exact (List.eraseP_sublist.map Prod.fst).nodup hkeys

theorem mem_unlink (hkeys : (keys records).Nodup) {entry : κ × α}
    : entry ∈ unlink records key ↔ entry ∈ records ∧ entry.1 ≠ key := by
  unfold unlink
  constructor
  . intro h
    refine ⟨List.mem_of_mem_eraseP h, ?_⟩
    intro hkey
    induction records with
    | nil => contradiction
    | cons entry' records ih =>
      have hnodup := List.nodup_cons.mp hkeys
      by_cases hkey' : entry'.1 = key
      . rw [List.eraseP_cons_of_pos (by simpa using hkey')] at h
        apply hnodup.1
        rw [hkey', ← hkey]
        exact mem_keys h
      . rw [List.eraseP_cons_of_neg (by simpa using hkey')] at h
        cases List.mem_cons.mp h with
        | inl heq =>
          rw [← heq] at hkey'
          contradiction
        | inr hmem => exact ih hnodup.2 hmem
  . intro ⟨hmem, hkey⟩
    exact (List.mem_eraseP_of_neg (by simpa using hkey)).mpr hmem

-- What the other records are, when this tells the records apart.
theorem mem_map_unlink {β : Type} {g : κ × α → β} (hkeys : (keys records).Nodup)
    (hg : (records.map g).Nodup) {entry : κ × α} (hmem : entry ∈ records) {b : β}
    : b ∈ (unlink records entry.1).map g ↔ b ∈ records.map g ∧ b ≠ g entry := by
  rw [List.mem_map, List.mem_map]
  constructor
  . intro ⟨entry', hmem', heq⟩
    obtain ⟨hmem', hne⟩ := (mem_unlink hkeys).mp hmem'
    refine ⟨⟨entry', hmem', heq⟩, ?_⟩
    intro heq'
    rw [List.inj_on_of_nodup_map hg hmem' hmem (heq.trans heq')] at hne
    contradiction
  . intro ⟨⟨entry', hmem', heq⟩, hne⟩
    refine ⟨entry', (mem_unlink hkeys).mpr ⟨hmem', ?_⟩, heq⟩
    intro hkey
    rw [← heq, eq_of_key_eq hkeys hmem' hmem hkey] at hne
    contradiction

theorem update_of_notMem (h : key ∉ keys records) (f : α → α)
    : update records key f = records := by
  unfold update
  apply (List.map_congr_left ?_).trans (List.map_id records)
  intro entry hmem
  apply if_neg
  intro hkey
  apply h
  rw [← hkey]
  exact mem_keys hmem

theorem update_cons_of_notMem (h : key ∉ keys records) (f : α → α) (a : α)
    : update ((key, a) :: records) key f = (key, f a) :: records := by
  have hrest := update_of_notMem h f
  unfold update at hrest ⊢
  rw [List.map_cons, hrest, if_pos rfl]

theorem unlink_update (hkeys : (keys records).Nodup) (f : α → α)
    : unlink (update records key f) key = unlink records key := by
  induction records with
  | nil => rfl
  | cons entry records ih =>
    have hnodup := List.nodup_cons.mp hkeys
    have hcons : update (entry :: records) key f
        = (if entry.1 = key then (entry.1, f entry.2) else entry) :: update records key f := rfl
    have htail := ih hnodup.2
    unfold unlink at htail ⊢
    rw [hcons]
    by_cases hkey : entry.1 = key
    . rw [if_pos hkey, List.eraseP_cons_of_pos (by simpa using hkey),
        List.eraseP_cons_of_pos (by simpa using hkey)]
      apply update_of_notMem
      rw [← hkey]
      exact hnodup.1
    . rw [if_neg hkey, List.eraseP_cons_of_neg (by simpa using hkey),
        List.eraseP_cons_of_neg (by simpa using hkey), htail]

end Records

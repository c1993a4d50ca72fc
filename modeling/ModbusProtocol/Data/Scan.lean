import Mathlib.Data.List.Basic

/-!
This module contains the extraction of frames from the head of a byte stream that arrives in pieces.
A `Framing` looks at the bytes that are there and says what becomes of their head, the scan of a
stream is what is left of its bytes once every verdict has been carried out. The main results say
that it does not matter in which pieces the stream arrives. `transduce` is what a machine makes of the
frames.
-/

inductive Verdict where
  -- more of the stream has to be known
  | wait
  -- there will be no further frame, whatever arrives
  | halt
  -- the first byte starts no frame
  | skip
  | take (n : Nat)
  deriving DecidableEq

structure Framing (α : Type) where
  verdict : List α → Verdict
  ne_nil_of_skip : ∀ {l}, verdict l = .skip → l ≠ []
  take_pos : ∀ {l n}, verdict l = .take n → 0 < n
  take_le : ∀ {l n}, verdict l = .take n → n ≤ l.length
  stable : ∀ {l}, verdict l ≠ .wait → ∀ l', verdict (l ++ l') = verdict l

namespace Framing

variable {α : Type} (F : Framing α)

def extract (l : List α) : Option (List α) × List α :=
  match _h : F.verdict l with
  | .wait | .halt => (none, l)
  | .skip => extract (l.drop 1)
  | .take n => (some (l.take n), l.drop n)
termination_by l.length
decreasing_by
  have := List.length_pos_iff.mpr (F.ne_nil_of_skip _h)
  simp
  omega

def scan (l : List α) : List (List α) × List α :=
  match _h : F.verdict l with
  | .wait | .halt => ([], l)
  | .skip => scan (l.drop 1)
  | .take n => (l.take n :: (scan (l.drop n)).1, (scan (l.drop n)).2)
termination_by l.length
decreasing_by
  . have := List.length_pos_iff.mpr (F.ne_nil_of_skip _h)
    simp
    omega
  all_goals
    have := F.take_pos _h
    have := F.take_le _h
    simp
    omega

variable {F}

theorem extract_wait {l : List α} (h : F.verdict l = .wait)
    : F.extract l = (none, l) := by
  rw [extract]
  split
  all_goals simp_all

theorem extract_halt {l : List α} (h : F.verdict l = .halt)
    : F.extract l = (none, l) := by
  rw [extract]
  split
  all_goals simp_all

theorem extract_skip {l : List α} (h : F.verdict l = .skip)
    : F.extract l = F.extract (l.drop 1) := by
  rw [extract]
  split
  all_goals simp_all

theorem extract_take {l : List α} {n : Nat} (h : F.verdict l = .take n)
    : F.extract l = (some (l.take n), l.drop n) := by
  rw [extract]
  split
  all_goals simp_all

theorem scan_wait {l : List α} (h : F.verdict l = .wait)
    : F.scan l = ([], l) := by
  rw [scan]
  split
  all_goals simp_all

theorem scan_halt {l : List α} (h : F.verdict l = .halt)
    : F.scan l = ([], l) := by
  rw [scan]
  split
  all_goals simp_all

theorem scan_skip {l : List α} (h : F.verdict l = .skip)
    : F.scan l = F.scan (l.drop 1) := by
  rw [scan]
  split
  all_goals simp_all

theorem scan_take {l : List α} {n : Nat} (h : F.verdict l = .take n)
    : F.scan l = (l.take n :: (F.scan (l.drop n)).1, (F.scan (l.drop n)).2) := by
  rw [scan]
  split
  all_goals simp_all

-- One case for each verdict, `wait` and `halt` both leave the stream as it is.
theorem scan_induction {motive : List α → Prop}
    (stop : ∀ l, F.verdict l = .wait ∨ F.verdict l = .halt → motive l)
    (skip : ∀ l, F.verdict l = .skip → motive (l.drop 1) → motive l)
    (take : ∀ l n, F.verdict l = .take n → motive (l.drop n) → motive l) (l : List α)
    : motive l := by
  cases h : F.verdict l with
  | wait => exact stop l (.inl h)
  | halt => exact stop l (.inr h)
  | skip =>
    apply skip l h
    exact scan_induction stop skip take (l.drop 1)
  | take n =>
    apply take l n h
    exact scan_induction stop skip take (l.drop n)
termination_by l.length
decreasing_by
  . have := List.length_pos_iff.mpr (F.ne_nil_of_skip h)
    simp
    omega
  . have := F.take_pos h
    have := F.take_le h
    simp
    omega

theorem scan_stop {l : List α} (h : F.verdict l = .wait ∨ F.verdict l = .halt)
    : F.scan l = ([], l) := by
  cases h with
  | inl h => exact scan_wait h
  | inr h => exact scan_halt h

theorem extract_stop {l : List α} (h : F.verdict l = .wait ∨ F.verdict l = .halt)
    : F.extract l = (none, l) := by
  cases h with
  | inl h => exact extract_wait h
  | inr h => exact extract_halt h

theorem verdict_append_skip {l : List α} (h : F.verdict l = .skip) (l' : List α)
    : F.verdict (l ++ l') = .skip := by
  rw [F.stable (by simp [h]), h]

theorem verdict_append_take {l : List α} {n : Nat} (h : F.verdict l = .take n) (l' : List α)
    : F.verdict (l ++ l') = .take n := by
  rw [F.stable (by simp [h]), h]

theorem drop_one_append {l : List α} (h : F.verdict l = .skip) (l' : List α)
    : (l ++ l').drop 1 = l.drop 1 ++ l' := by
  have := List.length_pos_iff.mpr (F.ne_nil_of_skip h)
  exact List.drop_append_of_le_length (by omega)

-- What a scan leaves over is all that matters to what arrives later.
theorem scan_append (l l' : List α)
    : F.scan (l ++ l')
        =
      ((F.scan l).1 ++ (F.scan ((F.scan l).2 ++ l')).1, (F.scan ((F.scan l).2 ++ l')).2) := by
  induction l using F.scan_induction with
  | stop l h =>
    rw [scan_stop h]
    simp
  | skip l h ih =>
    rw [scan_skip h, scan_skip (verdict_append_skip h l'), drop_one_append h]
    exact ih
  | take l n h ih =>
    have hle := F.take_le h
    rw [scan_take h, scan_take (verdict_append_take h l')]
    rw [List.take_append_of_le_length hle, List.drop_append_of_le_length hle, ih]
    simp

-- What arrives later does not change the frames that have been found.
theorem scan_mono {l l' : List α} (h : l <+: l')
    : (F.scan l).1 <+: (F.scan l').1 := by
  obtain ⟨later, rfl⟩ := h
  rw [scan_append]
  apply List.prefix_append

theorem scan_eq_extract (l : List α)
    : F.scan l
        =
      match F.extract l with
      | (none, rest) => ([], rest)
      | (some frame, rest) => (frame :: (F.scan rest).1, (F.scan rest).2) := by
  induction l using F.scan_induction with
  | stop l h => rw [scan_stop h, extract_stop h]
  | skip l h ih =>
    rw [scan_skip h, extract_skip h]
    exact ih
  | take l n h ih => rw [scan_take h, extract_take h]

theorem extract_some {l frame rest : List α} (h : F.extract l = (some frame, rest))
    : ∃ skipped, l = skipped ++ frame ++ rest ∧ F.verdict (frame ++ rest) = .take frame.length := by
  induction l using F.scan_induction with
  | stop l hstop =>
    rw [extract_stop hstop] at h
    injection h with h
    contradiction
  | skip l hskip ih =>
    rw [extract_skip hskip] at h
    obtain ⟨skipped, heq, htake⟩ := ih h
    refine ⟨l.take 1 ++ skipped, ?_, htake⟩
    rw [List.append_assoc, List.append_assoc, ← List.append_assoc skipped, ← heq]
    exact (List.take_append_drop 1 l).symm
  | take l n htake ih =>
    rw [extract_take htake] at h
    injection h with hframe hrest
    injection hframe with hframe
    have hle := F.take_le htake
    refine ⟨[], ?_, ?_⟩
    . rw [← hframe, ← hrest]
      simp
    . rw [← hframe, ← hrest, List.take_append_drop, htake]
      simp [hle]

theorem verdict_prefix {l l' : List α} (h : F.verdict (l ++ l') = .take (l ++ l').length)
    (hne : l' ≠ [])
    : F.verdict l = .wait := by
  by_contra hwait
  rw [F.stable hwait l'] at h
  have hle := F.take_le h
  have hpos := List.length_pos_iff.mpr hne
  rw [List.length_append] at hle
  omega

theorem extract_suffix (l : List α)
    : (F.extract l).2 <:+ l := by
  induction l using F.scan_induction with
  | stop l hstop =>
    simp [extract_stop hstop]
  | skip l hskip ih =>
    rw [extract_skip hskip]
    exact ih.trans (List.drop_suffix 1 l)
  | take l n htake ih =>
    rw [extract_take htake]
    exact List.drop_suffix n l

theorem scan_append_of_extract (l l' : List α)
    : F.scan (l ++ l')
        =
      match F.extract l with
      | (none, rest) => F.scan (rest ++ l')
      | (some frame, rest) => (frame :: (F.scan (rest ++ l')).1, (F.scan (rest ++ l')).2) := by
  rw [scan_append, scan_eq_extract l]
  match hx : F.extract l with
  | (none, rest) => rfl
  | (some frame, rest) =>
    dsimp only
    rw [scan_append rest l', List.cons_append]

theorem exists_of_mem_scan {l frame : List α} (h : frame ∈ (F.scan l).1)
    : ∃ l' n, F.verdict l' = .take n ∧ frame = l'.take n := by
  induction l using F.scan_induction with
  | stop l hstop =>
    rw [scan_stop hstop] at h
    contradiction
  | skip l hskip ih =>
    rw [scan_skip hskip] at h
    exact ih h
  | take l n htake ih =>
    rw [scan_take htake, List.mem_cons] at h
    cases h with
    | inl h => exact ⟨l, n, htake, h⟩
    | inr h => exact ih h

theorem scan_nil
    : F.scan [] = ([], []) := by
  apply scan_stop
  cases h : F.verdict [] with
  | wait => exact .inl rfl
  | halt => exact .inr rfl
  | skip => exact absurd rfl (F.ne_nil_of_skip h)
  | take n =>
    have := F.take_pos h
    have := F.take_le h
    simp only [List.length_nil] at this
    omega

theorem scan_of_take_length {q : List α} (hq : F.verdict q = .take q.length)
    : F.scan q = ([q], []) := by
  rw [scan_take hq, List.take_length, List.drop_length, scan_nil]

theorem scan_flatten {frames : List (List α)}
    (h : ∀ frame ∈ frames, F.verdict frame = .take frame.length)
    : F.scan frames.flatten = (frames, []) := by
  induction frames with
  | nil => apply scan_nil
  | cons frame frames ih =>
    rw [List.forall_mem_cons] at h
    rw [List.flatten_cons, scan_append, scan_of_take_length h.1, List.nil_append, ih h.2]
    rfl

end Framing

-- The outputs of a machine that is fed one input after another.
def transduce {ι σ ε : Type} (step : ι → σ → σ × List ε) : List ι → σ → σ × List ε
  | [], s => (s, [])
  | input :: inputs, s =>
    let (s, outputs) := step input s
    let (s, later) := transduce step inputs s
    (s, outputs ++ later)

section

variable {ι σ ε : Type} (step : ι → σ → σ × List ε)

theorem transduce_singleton (input : ι) (s : σ)
    : transduce step [input] s = step input s := by
  simp [transduce]

theorem transduce_append (inputs inputs' : List ι) (s : σ)
    : transduce step (inputs ++ inputs') s
        =
      ((transduce step inputs' (transduce step inputs s).1).1,
        (transduce step inputs s).2 ++ (transduce step inputs' (transduce step inputs s).1).2) := by
  induction inputs generalizing s with
  | nil => simp [transduce]
  | cons input inputs ih => simp only [List.cons_append, transduce, ih, List.append_assoc]

theorem exists_of_mem_transduce {inputs : List ι} {s : σ} {output : ε}
    (h : output ∈ (transduce step inputs s).2)
    : ∃ input ∈ inputs, ∃ s', output ∈ (step input s').2 := by
  induction inputs generalizing s with
  | nil => contradiction
  | cons input inputs ih =>
    unfold transduce at h
    rw [List.mem_append] at h
    cases h with
    | inl h => exact ⟨input, by simp, s, h⟩
    | inr h =>
      obtain ⟨input', hmem, s', houtput⟩ := ih h
      exact ⟨input', by simp [hmem], s', houtput⟩

-- An output comes from one of the inputs, in the state that those before it have led to.
theorem split_of_mem_transduce {inputs : List ι} {s : σ} {output : ε}
    (h : output ∈ (transduce step inputs s).2)
    : ∃ before input after, inputs = before ++ input :: after ∧
        output ∈ (step input (transduce step before s).1).2 := by
  induction inputs generalizing s with
  | nil => contradiction
  | cons input inputs ih =>
    unfold transduce at h
    rw [List.mem_append] at h
    cases h with
    | inl h => exact ⟨[], input, inputs, rfl, h⟩
    | inr h =>
      obtain ⟨before, input', after, hsplit, houtput⟩ := ih h
      refine ⟨input :: before, input', after, ?_, houtput⟩
      rw [hsplit, List.cons_append]

end

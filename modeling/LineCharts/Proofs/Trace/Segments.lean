/-
Maximal segments of indices.

A segment `[a, b)` holds indices that are all drawn and between which there is no cut; it is
maximal if it can be extended on neither side.

* `Trace.IsMaximal` — the condition on `a` and `b`;
* `Trace.segments` — the segments that a walk from left to right finds;
* `Trace.mem_segments`, `Trace.pairwise_segments` — these are all maximal
  segments, from left to right;
* `Trace.pairwise_segments_apart` — without cuts there is an index between two of them;
* `Trace.exists_mem_segments` — every index that is drawn lies in one.

Design notes.  The walk keeps the start of a segment that is still open, as the states of
traces do, so that a trace follows the walk step by step.
-/
import Mathlib.Tactic

namespace LineCharts.Trace

variable {drawn cut : Nat → Bool} {n a b : Nat}

variable (drawn cut) in
/-- A segment that cannot be extended to the left. A cut at an index parts it
from the one before. -/
structure Run (a b : Nat) : Prop where
  lt : a < b
  all : ∀ i, a ≤ i → i < b → drawn i = true
  joined : ∀ i, a < i → i < b → cut i = false
  left : a = 0 ∨ drawn (a - 1) = false ∨ cut a = true

variable (drawn cut) in
/-- A segment of the indices below `n` that can be extended on neither side. -/
structure IsMaximal (n a b : Nat) : Prop extends Run drawn cut a b where
  le : b ≤ n
  right : b = n ∨ drawn b = false ∨ cut b = true

variable (drawn cut) in
/-- The segments that have ended in front of the index `n`, and the start of the open one. -/
def walk : Nat → List (Nat × Nat) × Option Nat
  | 0 => ([], none)
  | n + 1 =>
    match walk n, drawn n with
    | (ended, none), false => (ended, none)
    | (ended, none), true => (ended, some n)
    | (ended, some a), false => (ended ++ [(a, n)], none)
    | (ended, some a), true => if cut n then (ended ++ [(a, n)], some n) else (ended, some a)

variable (drawn cut) in
/-- The segments of the indices below `n`, from left to right. -/
def segments (n : Nat) : List (Nat × Nat) :=
  (walk drawn cut n).1 ++ (walk drawn cut n).2.toList.map fun a => (a, n)

/-! ### One step of the walk -/

section

variable {ended : List (Nat × Nat)}

theorem walk_outside (h : walk drawn cut n = (ended, none)) (hn : drawn n = false) :
    walk drawn cut (n + 1) = (ended, none) := by
  rw [walk, h, hn]

theorem walk_enter (h : walk drawn cut n = (ended, none)) (hn : drawn n = true) :
    walk drawn cut (n + 1) = (ended, some n) := by
  rw [walk, h, hn]

theorem walk_leave (h : walk drawn cut n = (ended, some a)) (hn : drawn n = false) :
    walk drawn cut (n + 1) = (ended ++ [(a, n)], none) := by
  rw [walk, h, hn]

theorem walk_cut (h : walk drawn cut n = (ended, some a)) (hn : drawn n = true)
    (hcut : cut n = true) : walk drawn cut (n + 1) = (ended ++ [(a, n)], some n) := by
  rw [walk, h, hn]
  exact if_pos hcut

theorem walk_stay (h : walk drawn cut n = (ended, some a)) (hn : drawn n = true)
    (hcut : cut n = false) : walk drawn cut (n + 1) = (ended, some a) := by
  rw [walk, h, hn]
  exact if_neg (by simp [hcut])

end

/-! ### Runs -/

theorem Run.succ (h : Run drawn cut a n) (hn : drawn n = true) (hcut : cut n = false) :
    Run drawn cut a (n + 1) := by
  refine ⟨Nat.lt_succ_of_lt h.lt, ?_, ?_, h.left⟩
  · intro i hi hin
    rcases Nat.lt_succ_iff_lt_or_eq.mp hin with hlt | rfl
    · exact h.all i hi hlt
    · exact hn
  · intro i hi hin
    rcases Nat.lt_succ_iff_lt_or_eq.mp hin with hlt | rfl
    · exact h.joined i hi hlt
    · exact hcut

theorem run_singleton (hn : drawn n = true)
    (hleft : n = 0 ∨ drawn (n - 1) = false ∨ cut n = true) :
    Run drawn cut n (n + 1) := by
  refine ⟨Nat.lt_succ_self n, ?_, ?_, hleft⟩
  · intro i hi hin
    obtain rfl : i = n := by omega
    exact hn
  · intro i hi hin
    omega

/-- A run that goes on behind the end of a segment starts behind it. -/
theorem Run.le_of_ended {i : Nat} (h : Run drawn cut a b) (hib : i < b)
    (hend : drawn i = false ∨ cut i = true) : i ≤ a := by
  by_contra hia
  rcases hend with hnot | hcut
  · have hdrawn := h.all i (by omega) hib
    rw [hnot] at hdrawn
    cases hdrawn
  · have hjoined := h.joined i (by omega) hib
    rw [hcut] at hjoined
    cases hjoined

theorem Run.le_of_run {c : Nat} (h : Run drawn cut a b) (h' : Run drawn cut c b) : c ≤ a := by
  have hlt := h'.lt
  -- whatever stops the second run on its left also stops the first one there
  rcases h'.left with rfl | hnot | hcut
  · exact Nat.zero_le a
  · have hle := h.le_of_ended (i := c - 1) (by omega) (.inl hnot)
    by_contra hac
    have hdrawn := h.all (c - 1) (by omega) (by omega)
    rw [hnot] at hdrawn
    cases hdrawn
  · exact h.le_of_ended hlt (.inr hcut)

/-! ### What the walk finds -/

theorem not_drawn_of_walk {ended : List (Nat × Nat)} (h : walk drawn cut n = (ended, none)) :
    n = 0 ∨ drawn (n - 1) = false := by
  cases n with
  | zero => exact .inl rfl
  | succ n =>
    right
    -- a drawn index would have opened a segment, or kept one open
    by_contra hn
    rw [Nat.add_sub_cancel, Bool.not_eq_false] at hn
    rcases hw : walk drawn cut n with ⟨before, _ | a⟩
    · rw [walk_enter hw hn] at h
      cases h
    · cases hcut : cut n with
      | true =>
        rw [walk_cut hw hn hcut] at h
        cases h
      | false =>
        rw [walk_stay hw hn hcut] at h
        cases h

/-- **What is open is a run up to here.** -/
theorem run_of_walk {ended : List (Nat × Nat)} (h : walk drawn cut n = (ended, some a)) :
    Run drawn cut a n := by
  induction n generalizing ended a with
  | zero => cases h
  | succ n ih =>
    rcases hw : walk drawn cut n with ⟨before, _ | start⟩
    · cases hn : drawn n with
      | false =>
        rw [walk_outside hw hn] at h
        cases h
      | true =>
        rw [walk_enter hw hn] at h
        cases h
        have hbefore := not_drawn_of_walk hw
        exact run_singleton hn (by tauto)
    · cases hn : drawn n with
      | false =>
        rw [walk_leave hw hn] at h
        cases h
      | true =>
        cases hcut : cut n with
        | true =>
          rw [walk_cut hw hn hcut] at h
          cases h
          exact run_singleton hn (.inr (.inr hcut))
        | false =>
          rw [walk_stay hw hn hcut] at h
          cases h
          exact (ih hw).succ hn hcut

theorem walk_snd : (walk drawn cut n).2 = some a ↔ Run drawn cut a n := by
  constructor
  · intro h
    rcases hw : walk drawn cut n with ⟨ended, start⟩
    rw [hw] at h
    subst h
    exact run_of_walk hw
  · intro h
    rcases hw : walk drawn cut n with ⟨ended, _ | start⟩
    · have hlt := h.lt
      have hdrawn := h.all (n - 1) (by omega) (by omega)
      rcases not_drawn_of_walk hw with h0 | hnot
      · omega
      · rw [hnot] at hdrawn
        cases hdrawn
    · have hstart := run_of_walk hw
      exact congrArg some (Nat.le_antisymm (h.le_of_run hstart) (hstart.le_of_run h))

variable (drawn cut n) in
/-- The open segment ends in front of an index that does not continue it. -/
theorem walk_fst_succ : (walk drawn cut (n + 1)).1 = (walk drawn cut n).1 ++
    if drawn n = false ∨ cut n = true then (walk drawn cut n).2.toList.map fun a => (a, n)
    else [] := by
  rcases hw : walk drawn cut n with ⟨ended, _ | start⟩ <;> rcases hn : drawn n <;>
    rcases hcut : cut n <;> simp [walk, hw, hn, hcut]

theorem mem_open : (a, b) ∈ (walk drawn cut n).2.toList.map (fun a => (a, n)) ↔
    Run drawn cut a b ∧ b = n := by
  rw [List.mem_map]
  constructor
  · rintro ⟨start, hstart, heq⟩
    obtain ⟨rfl, rfl⟩ := Prod.mk_inj.mp heq
    exact ⟨walk_snd.mp (Option.mem_toList.mp hstart), rfl⟩
  · rintro ⟨hrun, rfl⟩
    exact ⟨a, Option.mem_toList.mpr (walk_snd.mpr hrun), rfl⟩

/-- **What has ended are the runs that stop in front of here.** -/
theorem mem_walk_fst : (a, b) ∈ (walk drawn cut n).1 ↔
    Run drawn cut a b ∧ b < n ∧ (drawn b = false ∨ cut b = true) := by
  induction n with
  | zero =>
    constructor
    · intro h
      cases h
    · rintro ⟨_, hb, _⟩
      omega
  | succ n ih =>
    -- what the last step adds stops in front of `n`
    have hlast : (a, b) ∈ (if drawn n = false ∨ cut n = true then
        (walk drawn cut n).2.toList.map fun a => (a, n) else []) ↔
        Run drawn cut a b ∧ b = n ∧ (drawn b = false ∨ cut b = true) := by
      split
      case isTrue hend =>
        rw [mem_open]
        constructor
        · rintro ⟨hrun, rfl⟩
          exact ⟨hrun, rfl, hend⟩
        · rintro ⟨hrun, rfl, _⟩
          exact ⟨hrun, rfl⟩
      case isFalse hend =>
        constructor
        · intro h
          cases h
        · rintro ⟨_, rfl, hend'⟩
          exact absurd hend' hend
    rw [walk_fst_succ, List.mem_append, ih, hlast]
    constructor
    · rintro (⟨hrun, hlt, hend⟩ | ⟨hrun, rfl, hend⟩)
      · exact ⟨hrun, by omega, hend⟩
      · exact ⟨hrun, by omega, hend⟩
    · rintro ⟨hrun, hlt, hend⟩
      rcases Nat.lt_succ_iff_lt_or_eq.mp hlt with h | h
      · exact .inl ⟨hrun, h, hend⟩
      · exact .inr ⟨hrun, h, hend⟩

/-- **The walk finds all maximal segments.** -/
theorem mem_segments : (a, b) ∈ segments drawn cut n ↔ IsMaximal drawn cut n a b := by
  rw [segments, List.mem_append, mem_walk_fst, mem_open]
  constructor
  · rintro (⟨hrun, hlt, hend⟩ | ⟨hrun, rfl⟩)
    · exact ⟨hrun, hlt.le, .inr hend⟩
    · exact ⟨hrun, le_rfl, .inl rfl⟩
  · intro h
    by_cases hb : b = n
    · exact .inr ⟨h.toRun, hb⟩
    · have hle := h.le
      exact .inl ⟨h.toRun, by omega, h.right.resolve_left hb⟩

/-- **Every index that is drawn lies in a segment.** -/
theorem exists_mem_segments {i : Nat} (hi : i < n) (h : drawn i = true) :
    ∃ a b, (a, b) ∈ segments drawn cut n ∧ a ≤ i ∧ i < b := by
  have hmaximal : ∃ a b, IsMaximal drawn cut n a b ∧ a ≤ i ∧ i < b := by
    induction n, (Nat.succ_le_iff.mpr hi) using Nat.le_induction with
    | base =>
      -- behind a drawn index a segment is open
      rcases hw : walk drawn cut (i + 1) with ⟨ended, _ | a⟩
      · rcases not_drawn_of_walk hw with h0 | hnot
        · omega
        · rw [Nat.add_sub_cancel, h] at hnot
          cases hnot
      · have hrun := run_of_walk hw
        exact ⟨a, i + 1, ⟨hrun, le_rfl, .inl rfl⟩, Nat.le_of_lt_succ hrun.lt,
          Nat.lt_succ_self i⟩
    | succ n hn ih =>
      obtain ⟨a, b, hmax, hai, hib⟩ := ih (Nat.lt_of_succ_le hn)
      by_cases hend : drawn b = false ∨ cut b = true
      · exact ⟨a, b, ⟨hmax.toRun, Nat.le_succ_of_le hmax.le, .inr hend⟩, hai, hib⟩
      · obtain rfl : b = n := hmax.right.resolve_right hend
        rw [not_or, Bool.not_eq_false, Bool.not_eq_true] at hend
        exact ⟨a, b + 1, ⟨hmax.toRun.succ hend.1 hend.2, le_rfl, .inl rfl⟩, hai,
          Nat.lt_succ_of_lt hib⟩
  obtain ⟨a, b, hmax, hai, hib⟩ := hmaximal
  exact ⟨a, b, mem_segments.mpr hmax, hai, hib⟩

/-- What is open starts behind all segments that have ended. -/
theorem pairwise_append_open
    (h : (walk drawn cut n).1.Pairwise fun s t : Nat × Nat => s.2 ≤ t.1) :
    ((walk drawn cut n).1 ++ (walk drawn cut n).2.toList.map fun a => (a, n)).Pairwise
      fun s t : Nat × Nat => s.2 ≤ t.1 := by
  refine List.pairwise_append.mpr ⟨h, ?_, ?_⟩
  · cases (walk drawn cut n).2 with
    | none => exact List.Pairwise.nil
    | some a => exact List.pairwise_singleton _ _
  · rintro ⟨c, d⟩ hs ⟨a, b⟩ ht
    obtain ⟨_, hlt, hend⟩ := mem_walk_fst.mp hs
    obtain ⟨hrun, rfl⟩ := mem_open.mp ht
    exact hrun.le_of_ended hlt hend

/-- **The walk finds the segments from left to right.** -/
theorem pairwise_segments : (segments drawn cut n).Pairwise fun s t => s.2 ≤ t.1 := by
  refine pairwise_append_open ?_
  induction n with
  | zero => exact List.Pairwise.nil
  | succ n ih =>
    rw [walk_fst_succ]
    split
    · exact pairwise_append_open ih
    · rwa [List.append_nil]

/-- Where there is no cut, an index that is not drawn stands between two segments. -/
theorem pairwise_segments_apart :
    (segments drawn (fun _ => false) n).Pairwise fun s t => s.2 < t.1 := by
  refine pairwise_segments.imp_of_mem fun {s t} hs ht hle => lt_of_le_of_ne hle fun heq => ?_
  have hs := mem_segments.mp hs
  have ht := mem_segments.mp ht
  have hdrawn := ht.all t.1 le_rfl ht.lt
  rcases hs.right with hn | hnot | hcut
  · have hlt := ht.lt
    have hend := ht.le
    omega
  · rw [heq, hdrawn] at hnot
    cases hnot
  · cases hcut

end LineCharts.Trace

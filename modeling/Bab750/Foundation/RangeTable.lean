import Mathlib.Data.List.Basic
import Mathlib.Tactic.Common

/-!
# Tables of ranges

A list of ranges of addresses stands for the set of the addresses in them.  A range is
added by growing the first range that it touches, and otherwise in its place by start; a
range is released from the first one that contains it.  A table with one range of size
zero is vacant, and the first range that is added takes its place.
-/

namespace Bab750
namespace Foundation

/-!
# Ranges
-/

structure Range where
  start : Nat
  size : Nat
deriving DecidableEq

namespace Range

variable {r s t : Range} {a : Nat}

def stop (r : Range) : Nat := r.start + r.size

def Has (r : Range) (a : Nat) : Prop := r.start <= a ∧ a < r.stop

def Touches (r s : Range) : Prop := r.stop = s.start ∨ s.stop = r.start

instance (r s : Range) : Decidable (r.Touches s) := inferInstanceAs (Decidable (_ ∨ _))

def Apart (r s : Range) : Prop := r.stop <= s.start ∨ s.stop <= r.start

/-- A range that was grown by one that touches it. -/
def join (r s : Range) : Range :=
  if r.stop = s.start then ⟨r.start, s.size + r.size⟩ else ⟨s.start, s.size + r.size⟩

theorem start_le_stop (r : Range) : r.start <= r.stop := Nat.le_add_right r.start r.size

theorem stop_eq (r : Range) : r.stop = r.start + r.size := rfl

theorem has_join (h : r.Touches s) : (r.join s).Has a <-> r.Has a ∨ s.Has a := by
  unfold Touches at h
  unfold join
  split
  · unfold Has stop at *
    dsimp only
    omega
  · unfold Has stop at *
    dsimp only
    omega

theorem not_has_of_size (h : r.size = 0) : ¬ r.Has a := by
  unfold Has stop
  omega

end Range

def Covers (ranges : List Range) (a : Nat) : Prop := exists r, r ∈ ranges ∧ r.Has a

def Ordered (ranges : List Range) : Prop := ranges.Pairwise (fun r s => r.start <= s.start)

def Separate (ranges : List Range) : Prop := ranges.Pairwise (fun r s => r.stop < s.start)

def Below (limit : Nat) (ranges : List Range) : Prop := forall r, r ∈ ranges -> r.stop < limit

def Vacant (ranges : List Range) : Prop := exists start, ranges = [⟨start, 0⟩]

variable {r s t : Range} {ranges rest grown : List Range} {a room limit : Nat}

theorem covers_cons : Covers (s :: rest) a <-> s.Has a ∨ Covers rest a := by
  unfold Covers
  simp

theorem not_covers_vacant (h : Vacant ranges) : ¬ Covers ranges a := by
  obtain ⟨start, rfl⟩ := h
  rintro ⟨r, hr, ha⟩
  rw [List.mem_singleton] at hr
  subst hr
  exact Range.not_has_of_size rfl ha

theorem ordered_of_separate (h : Separate ranges) : Ordered ranges :=
  List.Pairwise.imp (fun hlt => Nat.le_of_lt (Nat.lt_of_le_of_lt (Range.start_le_stop _) hlt)) h

theorem ordered_cons : Ordered (s :: rest) <->
    (forall t, t ∈ rest -> s.start <= t.start) ∧ Ordered rest := List.pairwise_cons

theorem separate_cons : Separate (s :: rest) <->
    (forall t, t ∈ rest -> s.stop < t.start) ∧ Separate rest := List.pairwise_cons

/-!
# Growth
-/

def mergeNext : List Range -> List Range
  | s :: t :: rest =>
      if s.Touches t then ⟨s.start, s.size + t.size⟩ :: rest else s :: t :: rest
  | ranges => ranges

/-- Grow the first range that is touched; a range that is there already stays. -/
def grow (r : Range) : List Range -> Option (List Range)
  | [] => none
  | s :: rest =>
      if s = r then some (s :: rest)
      else if r.Touches s then some (mergeNext (r.join s :: rest))
      else (grow r rest).map (fun grown => s :: grown)

def insertRange (r : Range) : List Range -> List Range
  | [] => [r]
  | s :: rest => if r.start < s.start then r :: s :: rest else s :: insertRange r rest

def isVacant : List Range -> Bool
  | [s] => s.size = 0
  | _ => false

def addRange (room : Nat) (r : Range) (ranges : List Range) : Option (List Range) :=
  if isVacant ranges then some [r]
  else
    match grow r ranges with
    | some grown => some grown
    | none => if room <= ranges.length then none else some (insertRange r ranges)

theorem isVacant_iff : isVacant ranges = true <-> Vacant ranges := by
  unfold Vacant
  match ranges with
  | [] => simp [isVacant]
  | [⟨start, size⟩] => simp [isVacant]
  | _ :: _ :: _ => simp [isVacant]

theorem mergeNext_pair (s t : Range) (rest : List Range) : mergeNext (s :: t :: rest) =
    if s.Touches t then ⟨s.start, s.size + t.size⟩ :: rest else s :: t :: rest := rfl

theorem mergeNext_cons (s : Range) (rest : List Range) : exists t merged,
    mergeNext (s :: rest) = t :: merged ∧ t.start = s.start ∧
      (forall u, u ∈ merged -> u ∈ rest) ∧ (Ordered rest -> Ordered merged) := by
  cases rest with
  | nil =>
      exact ⟨s, [], rfl, rfl, fun _ h => h, fun h => h⟩
  | cons t rest =>
      rw [mergeNext_pair]
      split
      · exact ⟨_, rest, rfl, rfl, fun _ h => List.mem_cons_of_mem t h,
          fun h => (ordered_cons.1 h).2⟩
      · exact ⟨s, t :: rest, rfl, rfl, fun _ h => h, fun h => h⟩

/-- Of two ranges in order that touch, the first is in front, or the second is empty. -/
theorem has_merged (hle : s.start <= t.start) (htouch : s.Touches t) :
    (Range.mk s.start (s.size + t.size)).Has a <-> s.Has a ∨ t.Has a := by
  unfold Range.Touches at htouch
  unfold Range.Has Range.stop at *
  dsimp only
  omega

theorem covers_mergeNext (h : forall t, t ∈ rest -> s.start <= t.start) :
    Covers (mergeNext (s :: rest)) a <-> Covers (s :: rest) a := by
  cases rest with
  | nil =>
      exact Iff.rfl
  | cons t rest =>
      rw [mergeNext_pair]
      split
      case isTrue htouch =>
          rw [covers_cons, covers_cons, covers_cons, has_merged (h t List.mem_cons_self) htouch,
            or_assoc]
      case isFalse hfree =>
          exact Iff.rfl

theorem join_start_le (r s : Range) : (r.join s).start <= s.start := by
  unfold Range.join
  split
  case isTrue hfront =>
      exact Nat.le_trans (Range.start_le_stop r) (Nat.le_of_eq hfront)
  case isFalse hback =>
      exact Nat.le_refl _

theorem join_extent (h : r.Touches s) :
    (r.join s).start <= s.start ∧ s.stop <= (r.join s).stop ∧
      ((r.join s).start = r.start ∧ (r.join s).stop = s.stop ∨
        (r.join s).start = s.start ∧ (r.join s).stop = r.stop) := by
  unfold Range.Touches at h
  unfold Range.join
  split
  · unfold Range.stop at *
    dsimp only
    omega
  · unfold Range.stop at *
    dsimp only
    omega

theorem covers_grow (hordered : Ordered ranges) (h : grow r ranges = some grown) :
    Covers grown a <-> r.Has a ∨ Covers ranges a := by
  induction ranges generalizing grown with
  | nil =>
      cases h
  | cons s rest ih =>
      obtain ⟨hfirst, hrest⟩ := ordered_cons.1 hordered
      unfold grow at h
      split at h
      case isTrue hsame =>
          cases h
          subst hsame
          rw [covers_cons]
          tauto
      case isFalse hother =>
          split at h
          case isTrue htouch =>
              cases h
              rw [covers_mergeNext (fun t ht =>
                Nat.le_trans (join_start_le r s) (hfirst t ht)), covers_cons, covers_cons,
                Range.has_join htouch, or_assoc]
          case isFalse hfree =>
              obtain ⟨inner, hinner, rfl⟩ := Option.map_eq_some_iff.1 h
              rw [covers_cons, covers_cons, ih hrest hinner]
              tauto

theorem covers_insertRange : Covers (insertRange r ranges) a <-> r.Has a ∨ Covers ranges a := by
  induction ranges with
  | nil =>
      exact covers_cons
  | cons s rest ih =>
      unfold insertRange
      split
      · exact covers_cons
      · rw [covers_cons, covers_cons, ih]
        tauto

theorem addRange_cases (h : addRange room r ranges = some grown) :
    (Vacant ranges ∧ grown = [r]) ∨
      (¬ Vacant ranges ∧ grow r ranges = some grown) ∨
      (¬ Vacant ranges ∧ grow r ranges = none ∧ ranges.length < room ∧
        grown = insertRange r ranges) := by
  unfold addRange at h
  split at h
  case isTrue hvacant =>
      exact Or.inl ⟨isVacant_iff.1 hvacant, (Option.some.inj h).symm⟩
  case isFalse hused =>
      have hused : ¬ Vacant ranges := fun hvacant => hused (isVacant_iff.2 hvacant)
      cases hgrow : grow r ranges with
      | some inner =>
          rw [hgrow] at h
          exact Or.inr (Or.inl ⟨hused, h⟩)
      | none =>
          rw [hgrow] at h
          dsimp only at h
          split at h
          case isTrue hfull =>
              cases h
          case isFalse hfree =>
              exact Or.inr (Or.inr ⟨hused, rfl, Nat.not_le.1 hfree, (Option.some.inj h).symm⟩)

theorem covers_addRange (hordered : Ordered ranges) (h : addRange room r ranges = some grown) :
    Covers grown a <-> r.Has a ∨ Covers ranges a := by
  rcases addRange_cases h with ⟨hvacant, rfl⟩ | ⟨_, hgrow⟩ | ⟨_, _, _, rfl⟩
  · have hnone : ¬ Covers ranges a := not_covers_vacant hvacant
    have hempty : ¬ Covers [] a := fun hcovers => nomatch hcovers
    rw [covers_cons]
    tauto
  · exact covers_grow hordered hgrow
  · exact covers_insertRange

/-!
# Order
-/

/-- No range in front of one that is grown to its front starts behind the new start. -/
def KeepsOrder (r : Range) (ranges : List Range) : Prop :=
  (exists s, s ∈ ranges ∧ (s = r ∨ s.stop = r.start)) ∨
    ranges.Pairwise (fun p s => r.stop = s.start -> p.start <= r.start)

theorem grow_start (h : grow r ranges = some grown) : forall t, t ∈ grown ->
    (exists s, s ∈ ranges ∧ s.start = t.start) ∨
      (t.start = r.start ∧ exists s, s ∈ ranges ∧ r.stop = s.start) := by
  induction ranges generalizing grown with
  | nil =>
      cases h
  | cons s rest ih =>
      unfold grow at h
      split at h
      case isTrue hsame =>
          cases h
          intro t ht
          exact Or.inl ⟨t, ht, rfl⟩
      case isFalse hother =>
          split at h
          case isTrue htouch =>
              cases h
              obtain ⟨first, merged, hmerged, hstart, hrest, _⟩ := mergeNext_cons (r.join s) rest
              rw [hmerged]
              intro t ht
              rcases List.mem_cons.1 ht with rfl | ht
              · unfold Range.join at hstart
                split at hstart
                case isTrue hfront =>
                    exact Or.inr ⟨hstart, s, List.mem_cons_self, hfront⟩
                case isFalse hback =>
                    exact Or.inl ⟨s, List.mem_cons_self, hstart.symm⟩
              · exact Or.inl ⟨t, List.mem_cons_of_mem s (hrest t ht), rfl⟩
          case isFalse hfree =>
              obtain ⟨inner, hinner, rfl⟩ := Option.map_eq_some_iff.1 h
              intro t ht
              rcases List.mem_cons.1 ht with rfl | ht
              · exact Or.inl ⟨t, List.mem_cons_self, rfl⟩
              · rcases ih hinner t ht with ⟨u, hu, hstart⟩ | ⟨hstart, u, hu, hstop⟩
                · exact Or.inl ⟨u, List.mem_cons_of_mem s hu, hstart⟩
                · exact Or.inr ⟨hstart, u, List.mem_cons_of_mem s hu, hstop⟩

theorem ordered_grow (hordered : Ordered ranges) (hkeeps : KeepsOrder r ranges)
    (h : grow r ranges = some grown) : Ordered grown := by
  induction ranges generalizing grown with
  | nil =>
      cases h
  | cons s rest ih =>
      obtain ⟨hfirst, hrest⟩ := ordered_cons.1 hordered
      unfold grow at h
      split at h
      case isTrue hsame =>
          cases h
          exact hordered
      case isFalse hother =>
          split at h
          case isTrue htouch =>
              cases h
              obtain ⟨first, merged, hmerged, hstart, hmem, hmergedOrdered⟩ :=
                mergeNext_cons (r.join s) rest
              rw [hmerged, ordered_cons]
              refine ⟨fun t ht => ?_, hmergedOrdered hrest⟩
              rw [hstart]
              exact Nat.le_trans (join_start_le r s) (hfirst t (hmem t ht))
          case isFalse hfree =>
              obtain ⟨inner, hinner, rfl⟩ := Option.map_eq_some_iff.1 h
              have hkept : KeepsOrder r rest := by
                rcases hkeeps with ⟨t, ht, hrange⟩ | hpairs
                · rcases List.mem_cons.1 ht with rfl | ht
                  · rcases hrange with hsame | hback
                    · exact absurd hsame hother
                    · exact absurd (Or.inr hback) hfree
                  · exact Or.inl ⟨t, ht, hrange⟩
                · exact Or.inr (List.pairwise_cons.1 hpairs).2
              rw [ordered_cons]
              refine ⟨fun t ht => ?_, ih hrest hkept hinner⟩
              rcases grow_start hinner t ht with ⟨u, hu, hstart⟩ | ⟨hstart, u, hu, hstop⟩
              · rw [← hstart]
                exact hfirst u hu
              · -- a range in the table keeps the new start behind this one
                rw [hstart]
                rcases hkeeps with ⟨v, hv, hrange⟩ | hpairs
                · rcases List.mem_cons.1 hv with rfl | hv
                  · rcases hrange with hsame | hback
                    · exact absurd hsame hother
                    · exact absurd (Or.inr hback) hfree
                  · have hle := hfirst v hv
                    rcases hrange with rfl | hback
                    · exact hle
                    · have := Range.start_le_stop v
                      omega
                · exact (List.pairwise_cons.1 hpairs).1 u hu hstop

theorem mem_insertRange : t ∈ insertRange r ranges <-> t = r ∨ t ∈ ranges := by
  induction ranges with
  | nil =>
      exact List.mem_cons
  | cons s rest ih =>
      unfold insertRange
      split
      · exact List.mem_cons
      · rw [List.mem_cons, List.mem_cons, ih]
        tauto

theorem length_insertRange : (insertRange r ranges).length = ranges.length + 1 := by
  induction ranges with
  | nil =>
      rfl
  | cons s rest ih =>
      unfold insertRange
      split
      · rfl
      · rw [List.length_cons, ih, List.length_cons]

theorem ordered_insertRange (hordered : Ordered ranges) : Ordered (insertRange r ranges) := by
  induction ranges with
  | nil =>
      exact List.pairwise_singleton _ r
  | cons s rest ih =>
      obtain ⟨hfirst, hrest⟩ := ordered_cons.1 hordered
      unfold insertRange
      split
      case isTrue hlt =>
          rw [ordered_cons]
          refine ⟨fun t ht => ?_, hordered⟩
          rcases List.mem_cons.1 ht with rfl | ht
          · exact Nat.le_of_lt hlt
          · exact Nat.le_trans (Nat.le_of_lt hlt) (hfirst t ht)
      case isFalse hle =>
          rw [ordered_cons]
          refine ⟨fun t ht => ?_, ih hrest⟩
          rcases mem_insertRange.1 ht with rfl | ht
          · exact Nat.not_lt.1 hle
          · exact hfirst t ht

theorem ordered_addRange (hordered : Ordered ranges) (hkeeps : KeepsOrder r ranges)
    (h : addRange room r ranges = some grown) : Ordered grown := by
  rcases addRange_cases h with ⟨_, rfl⟩ | ⟨_, hgrow⟩ | ⟨_, _, _, rfl⟩
  · exact List.pairwise_singleton _ r
  · exact ordered_grow hordered hkeeps hgrow
  · exact ordered_insertRange hordered

/-!
# Bounds
-/

theorem below_cons : Below limit (s :: rest) <-> s.stop < limit ∧ Below limit rest := by
  unfold Below
  simp

theorem below_mergeNext (hfirst : forall t, t ∈ rest -> s.start <= t.start)
    (hbelow : Below limit (s :: rest)) : Below limit (mergeNext (s :: rest)) := by
  cases rest with
  | nil =>
      exact hbelow
  | cons t rest =>
      rw [mergeNext_pair]
      split
      case isTrue htouch =>
          obtain ⟨hs, hbelow⟩ := below_cons.1 hbelow
          obtain ⟨ht, hbelow⟩ := below_cons.1 hbelow
          refine below_cons.2 ⟨?_, hbelow⟩
          have hle := hfirst t List.mem_cons_self
          unfold Range.Touches Range.stop at htouch
          unfold Range.stop at *
          dsimp only
          omega
      case isFalse hfree =>
          exact hbelow

theorem below_grow (hordered : Ordered ranges) (hr : r.stop < limit)
    (hbelow : Below limit ranges) (h : grow r ranges = some grown) : Below limit grown := by
  induction ranges generalizing grown with
  | nil =>
      cases h
  | cons s rest ih =>
      obtain ⟨hfirst, hrest⟩ := ordered_cons.1 hordered
      obtain ⟨hs, hbelowRest⟩ := below_cons.1 hbelow
      unfold grow at h
      split at h
      case isTrue hsame =>
          cases h
          exact hbelow
      case isFalse hother =>
          split at h
          case isTrue htouch =>
              cases h
              refine below_mergeNext (fun t ht =>
                Nat.le_trans (join_start_le r s) (hfirst t ht)) (below_cons.2 ⟨?_, hbelowRest⟩)
              obtain ⟨_, _, ⟨_, hstop⟩ | ⟨_, hstop⟩⟩ := join_extent htouch
              · rw [hstop]
                exact hs
              · rw [hstop]
                exact hr
          case isFalse hfree =>
              obtain ⟨inner, hinner, rfl⟩ := Option.map_eq_some_iff.1 h
              exact below_cons.2 ⟨hs, ih hrest hbelowRest hinner⟩

theorem below_addRange (hordered : Ordered ranges) (hr : r.stop < limit)
    (hbelow : Below limit ranges) (h : addRange room r ranges = some grown) :
    Below limit grown := by
  rcases addRange_cases h with ⟨_, rfl⟩ | ⟨_, hgrow⟩ | ⟨_, _, _, rfl⟩
  · exact below_cons.2 ⟨hr, fun t ht => nomatch ht⟩
  · exact below_grow hordered hr hbelow hgrow
  · intro t ht
    rcases mem_insertRange.1 ht with rfl | ht
    · exact hr
    · exact hbelow t ht

theorem length_mergeNext : (mergeNext ranges).length <= ranges.length ∧
    (ranges ≠ [] -> mergeNext ranges ≠ []) := by
  match ranges with
  | [] => exact ⟨Nat.le_refl _, fun h => h⟩
  | [s] => exact ⟨Nat.le_refl _, fun h => h⟩
  | s :: t :: rest =>
      rw [mergeNext_pair]
      split
      · exact ⟨Nat.le_succ _, fun _ => List.cons_ne_nil _ _⟩
      · exact ⟨Nat.le_refl _, fun h => h⟩

theorem length_grow (h : grow r ranges = some grown) :
    grown.length <= ranges.length ∧ grown ≠ [] := by
  induction ranges generalizing grown with
  | nil =>
      cases h
  | cons s rest ih =>
      unfold grow at h
      split at h
      · cases h
        exact ⟨Nat.le_refl _, List.cons_ne_nil _ _⟩
      · split at h
        · cases h
          exact ⟨length_mergeNext.1, length_mergeNext.2 (List.cons_ne_nil _ _)⟩
        · obtain ⟨inner, hinner, rfl⟩ := Option.map_eq_some_iff.1 h
          exact ⟨Nat.succ_le_succ (ih hinner).1, List.cons_ne_nil _ _⟩

theorem length_addRange (hroom : ranges.length <= room) (hpos : 0 < room)
    (h : addRange room r ranges = some grown) : grown.length <= room := by
  rcases addRange_cases h with ⟨_, rfl⟩ | ⟨_, hgrow⟩ | ⟨_, _, hfree, rfl⟩
  · exact hpos
  · exact Nat.le_trans (length_grow hgrow).1 hroom
  · rw [length_insertRange]
    exact hfree

theorem ne_nil_addRange (h : addRange room r ranges = some grown) : grown ≠ [] := by
  rcases addRange_cases h with ⟨_, rfl⟩ | ⟨_, hgrow⟩ | ⟨_, _, _, rfl⟩
  · exact List.cons_ne_nil _ _
  · exact (length_grow hgrow).2
  · exact List.ne_nil_of_mem (mem_insertRange.2 (Or.inl rfl))

/-!
# Separate ranges
-/

inductive Fits (room : Nat) (r : Range) (ranges : List Range) : Prop where
  | vacant (h : Vacant ranges)
  | known (h : r ∈ ranges)
  | apart (hsize : 0 < r.size) (h : forall s, s ∈ ranges -> r.Apart s)
  | empty (hsize : r.size = 0) (h : exists s, s ∈ ranges ∧ r.Touches s)
  | full (hroom : room <= ranges.length) (h : forall s, s ∈ ranges -> s ≠ r ∧ ¬ r.Touches s)

theorem grow_touches (h : grow r ranges = some grown) :
    exists s, s ∈ ranges ∧ (s = r ∨ r.Touches s) := by
  induction ranges generalizing grown with
  | nil =>
      cases h
  | cons s rest ih =>
      unfold grow at h
      split at h
      case isTrue hsame =>
          exact ⟨s, List.mem_cons_self, Or.inl hsame⟩
      case isFalse hother =>
          split at h
          case isTrue htouch =>
              exact ⟨s, List.mem_cons_self, Or.inr htouch⟩
          case isFalse hfree =>
              obtain ⟨inner, hinner, rfl⟩ := Option.map_eq_some_iff.1 h
              obtain ⟨t, ht, htouch⟩ := ih hinner
              exact ⟨t, List.mem_cons_of_mem s ht, htouch⟩

theorem grow_none (h : forall s, s ∈ ranges -> s ≠ r ∧ ¬ r.Touches s) :
    grow r ranges = none := by
  cases hgrow : grow r ranges with
  | none =>
      rfl
  | some grown =>
      obtain ⟨s, hs, hfound⟩ := grow_touches hgrow
      rcases hfound with hsame | htouch
      · exact absurd hsame (h s hs).1
      · exact absurd htouch (h s hs).2

theorem touches_none (h : grow r ranges = none) :
    forall s, s ∈ ranges -> s ≠ r ∧ ¬ r.Touches s := by
  induction ranges with
  | nil =>
      intro s hs
      cases hs
  | cons t rest ih =>
      unfold grow at h
      split at h
      case isTrue hsame =>
          cases h
      case isFalse hother =>
          split at h
          case isTrue htouch =>
              cases h
          case isFalse hfree =>
              intro s hs
              rcases List.mem_cons.1 hs with rfl | hs
              · exact ⟨hother, hfree⟩
              · exact ih (Option.map_eq_none_iff.1 h) s hs

theorem grow_known (hseparate : Separate ranges) (hr : r ∈ ranges) :
    grow r ranges = some ranges := by
  induction ranges with
  | nil =>
      cases hr
  | cons s rest ih =>
      obtain ⟨hfirst, hrest⟩ := separate_cons.1 hseparate
      unfold grow
      by_cases hsame : s = r
      · rw [if_pos hsame]
      · have hmem : r ∈ rest := by
          rcases List.mem_cons.1 hr with heq | hmem
          · exact absurd heq.symm hsame
          · exact hmem
        have hlt := hfirst r hmem
        have hfree : ¬ r.Touches s := by
          have hs := Range.start_le_stop s
          have hr := Range.start_le_stop r
          unfold Range.Touches
          omega
        rw [if_neg hsame, if_neg hfree, ih hrest hmem]
        rfl

theorem grow_empty (hseparate : Separate ranges) (hsize : r.size = 0)
    (hr : exists s, s ∈ ranges ∧ r.Touches s) : grow r ranges = some ranges := by
  induction ranges with
  | nil =>
      obtain ⟨s, hs, _⟩ := hr
      cases hs
  | cons s rest ih =>
      obtain ⟨hfirst, hrest⟩ := separate_cons.1 hseparate
      unfold grow
      by_cases hsame : s = r
      · rw [if_pos hsame]
      · rw [if_neg hsame]
        by_cases htouch : r.Touches s
        · have hjoin : r.join s = s := by
            unfold Range.join
            rw [hsize, Nat.add_zero]
            split
            case isTrue hfront =>
                rw [Range.stop_eq, hsize, Nat.add_zero] at hfront
                rw [hfront]
            case isFalse hback =>
                rfl
          rw [if_pos htouch, hjoin]
          cases rest with
          | nil =>
              rfl
          | cons t rest =>
              have hlt := hfirst t List.mem_cons_self
              have hfree : ¬ s.Touches t := by
                have hs := Range.start_le_stop s
                have ht := Range.start_le_stop t
                unfold Range.Touches
                omega
              rw [mergeNext_pair, if_neg hfree]
        · rw [if_neg htouch, ih hrest]
          · rfl
          · obtain ⟨t, ht, htouches⟩ := hr
            rcases List.mem_cons.1 ht with rfl | ht
            · exact absurd htouches htouch
            · exact ⟨t, ht, htouches⟩

theorem separate_mergeNext {j : Range} (hrest : Separate rest)
    (hnext : forall u, u ∈ rest.head? -> j.stop <= u.start) :
    Separate (mergeNext (j :: rest)) := by
  cases rest with
  | nil =>
      exact List.pairwise_singleton _ j
  | cons u rest =>
      have hle := hnext u rfl
      obtain ⟨hfirst, htail⟩ := separate_cons.1 hrest
      have hlower := Range.start_le_stop u
      rw [mergeNext_pair]
      split
      case isTrue htouch =>
          refine separate_cons.2 ⟨fun t ht => ?_, htail⟩
          have hut := hfirst t ht
          unfold Range.Touches at htouch
          unfold Range.stop at *
          dsimp only
          omega
      case isFalse hfree =>
          refine separate_cons.2 ⟨fun t ht => ?_, hrest⟩
          unfold Range.Touches at hfree
          rcases List.mem_cons.1 ht with rfl | ht
          · omega
          · have hut := hfirst t ht
            omega

theorem mergeNext_behind {j p : Range} (hj : p.stop < j.start)
    (hrest : forall t, t ∈ rest -> p.stop < t.start) :
    forall t, t ∈ mergeNext (j :: rest) -> p.stop < t.start := by
  obtain ⟨first, merged, hmerged, hstart, hmem, _⟩ := mergeNext_cons j rest
  intro t ht
  rw [hmerged] at ht
  rcases List.mem_cons.1 ht with rfl | ht
  · rw [hstart]
    exact hj
  · exact hrest t (hmem t ht)

theorem separate_grow (hseparate : Separate ranges) (hsize : 0 < r.size)
    (hapart : forall s, s ∈ ranges -> r.Apart s) (h : grow r ranges = some grown) :
    Separate grown ∧ forall p : Range, (forall s, s ∈ ranges -> p.stop < s.start) ->
      p.stop < r.start -> forall t, t ∈ grown -> p.stop < t.start := by
  induction ranges generalizing grown with
  | nil =>
      cases h
  | cons s rest ih =>
      obtain ⟨hfirst, hrest⟩ := separate_cons.1 hseparate
      have hs := hapart s List.mem_cons_self
      have hne : s ≠ r := by
        rintro rfl
        unfold Range.Apart Range.stop at hs
        omega
      unfold grow at h
      rw [if_neg hne] at h
      split at h
      case isTrue htouch =>
          cases h
          obtain ⟨_, _, hends⟩ := join_extent htouch
          have hlower := Range.start_le_stop s
          have hsize := Range.stop_eq r
          unfold Range.Apart at hs
          refine ⟨separate_mergeNext hrest (fun u hu => ?_),
            fun p hp hpr => mergeNext_behind ?_ (fun t ht => hp t (List.mem_cons_of_mem s ht))⟩
          · have hmem := List.mem_of_mem_head? hu
            have hsu := hfirst u hmem
            have hru := hapart u (List.mem_cons_of_mem s hmem)
            have hupper := Range.start_le_stop u
            unfold Range.Apart at hru
            unfold Range.Touches at htouch
            omega
          · have hps := hp s List.mem_cons_self
            omega
      case isFalse hfree =>
          obtain ⟨inner, hinner, rfl⟩ := Option.map_eq_some_iff.1 h
          obtain ⟨hinnerSeparate, hinnerFront⟩ := ih hrest
            (fun t ht => hapart t (List.mem_cons_of_mem s ht)) hinner
          have hsr : s.stop < r.start := by
            obtain ⟨t, ht, hfound⟩ := grow_touches hinner
            have hst := hfirst t ht
            have hssize := Range.start_le_stop s
            have htsize := Range.start_le_stop t
            have hrsize := Range.stop_eq r
            unfold Range.Touches at hfree
            unfold Range.Apart at hs
            rcases hfound with rfl | htouch
            · exact hst
            · unfold Range.Touches at htouch
              omega
          rw [separate_cons]
          refine ⟨⟨hinnerFront s hfirst hsr, hinnerSeparate⟩, fun p hp hpr t ht => ?_⟩
          rcases List.mem_cons.1 ht with rfl | ht
          · exact hp t List.mem_cons_self
          · exact hinnerFront p (fun u hu => hp u (List.mem_cons_of_mem s hu)) hpr t ht

theorem separate_insertRange (hseparate : Separate ranges) (hsize : 0 < r.size)
    (hapart : forall s, s ∈ ranges -> r.Apart s)
    (hfree : forall s, s ∈ ranges -> ¬ r.Touches s) : Separate (insertRange r ranges) := by
  induction ranges with
  | nil =>
      exact List.pairwise_singleton _ r
  | cons s rest ih =>
      obtain ⟨hfirst, hrest⟩ := separate_cons.1 hseparate
      have hs := hapart s List.mem_cons_self
      have hsfree := hfree s List.mem_cons_self
      have hrsize := Range.stop_eq r
      have hssize := Range.start_le_stop s
      unfold Range.Apart at hs
      unfold Range.Touches at hsfree
      unfold insertRange
      split
      case isTrue hlt =>
          rw [separate_cons]
          refine ⟨fun t ht => ?_, hseparate⟩
          rcases List.mem_cons.1 ht with rfl | ht
          · omega
          · have hst := hfirst t ht
            omega
      case isFalse hle =>
          rw [separate_cons]
          refine ⟨fun t ht => ?_, ih hrest (fun t ht => hapart t (List.mem_cons_of_mem s ht))
            (fun t ht => hfree t (List.mem_cons_of_mem s ht))⟩
          rcases mem_insertRange.1 ht with rfl | ht
          · omega
          · exact hfirst t ht

theorem separate_addRange (hseparate : Separate ranges) (hfits : Fits room r ranges)
    (h : addRange room r ranges = some grown) : Separate grown := by
  rcases addRange_cases h with ⟨_, rfl⟩ | ⟨hused, hgrow⟩ | ⟨hused, hnone, hroom, rfl⟩
  · exact List.pairwise_singleton _ r
  · cases hfits with
    | vacant hvacant =>
        exact absurd hvacant hused
    | known hr =>
        rw [grow_known hseparate hr] at hgrow
        cases hgrow
        exact hseparate
    | apart hsize hapart =>
        exact (separate_grow hseparate hsize hapart hgrow).1
    | empty hsize htouch =>
        rw [grow_empty hseparate hsize htouch] at hgrow
        cases hgrow
        exact hseparate
    | full _ hfree =>
        rw [grow_none hfree] at hgrow
        cases hgrow
  · have hfree := touches_none hnone
    cases hfits with
    | vacant hvacant =>
        exact absurd hvacant hused
    | known hr =>
        exact absurd rfl (hfree r hr).1
    | apart hsize hapart =>
        exact separate_insertRange hseparate hsize hapart (fun s hs => (hfree s hs).2)
    | empty _ htouch =>
        obtain ⟨s, hs, htouch⟩ := htouch
        exact absurd htouch (hfree s hs).2
    | full hfull _ =>
        exact absurd hroom (Nat.not_lt.2 hfull)

/-!
# Release
-/

/--
Take a range out of the first one that contains it; the second part of a split is added
later.
-/
def release (r : Range) : List Range -> Option (List Range × Option Range)
  | [] => none
  | s :: rest =>
      if s.start <= r.start ∧ r.stop <= s.stop then
        if s.start = r.start ∧ s.stop = r.stop then some (rest, none)
        else if s.start = r.start then some (⟨r.stop, s.size - r.size⟩ :: rest, none)
        else if s.stop = r.stop then some (⟨s.start, s.size - r.size⟩ :: rest, none)
        else some (⟨s.start, r.start - s.start⟩ :: rest, some ⟨r.stop, s.stop - r.stop⟩)
      else (release r rest).map (fun released => (s :: released.1, released.2))

/-- The addresses of a table and of the part of a split that is not in it yet. -/
def CoversBoth (released : List Range × Option Range) (a : Nat) : Prop :=
  Covers released.1 a ∨ exists t, released.2 = some t ∧ t.Has a

variable {released : List Range × Option Range}

theorem coversBoth_cons : CoversBoth (s :: released.1, released.2) a <->
    s.Has a ∨ CoversBoth released a := by
  unfold CoversBoth
  rw [covers_cons, or_assoc]

theorem release_mem (h : release r ranges = some released) :
    exists s, s ∈ ranges ∧ s.start <= r.start ∧ r.stop <= s.stop := by
  induction ranges generalizing released with
  | nil =>
      cases h
  | cons s rest ih =>
      unfold release at h
      by_cases hinside : s.start <= r.start ∧ r.stop <= s.stop
      · exact ⟨s, List.mem_cons_self, hinside⟩
      · rw [if_neg hinside] at h
        obtain ⟨inner, hinner, rfl⟩ := Option.map_eq_some_iff.1 h
        obtain ⟨t, ht, hrange⟩ := ih hinner
        exact ⟨t, List.mem_cons_of_mem s ht, hrange⟩

theorem covers_release (hseparate : Separate ranges) (h : release r ranges = some released) :
    CoversBoth released a <-> Covers ranges a ∧ ¬ r.Has a := by
  induction ranges generalizing released with
  | nil =>
      cases h
  | cons s rest ih =>
      obtain ⟨hfirst, hrest⟩ := separate_cons.1 hseparate
      unfold release at h
      split at h
      case isTrue hinside =>
          -- the other ranges are behind this one
          have hother : Covers rest a -> ¬ r.Has a := by
            rintro ⟨t, ht, hta⟩ hra
            have hlt := hfirst t ht
            unfold Range.Has at hta hra
            omega
          rw [covers_cons]
          unfold CoversBoth
          split at h
          · cases h
            have hsame : s.Has a <-> r.Has a := by
              unfold Range.Has
              omega
            simp only [reduceCtorEq, false_and, exists_false, or_false]
            tauto
          · split at h
            case isTrue hstart =>
                cases h
                have hpart : (Range.mk r.stop (s.size - r.size)).Has a <->
                    s.Has a ∧ ¬ r.Has a := by
                  unfold Range.Has Range.stop at *
                  dsimp only
                  omega
                rw [covers_cons, hpart]
                simp only [reduceCtorEq, false_and, exists_false, or_false]
                tauto
            case isFalse hstart =>
                split at h
                case isTrue hstop =>
                    cases h
                    have hpart : (Range.mk s.start (s.size - r.size)).Has a <->
                        s.Has a ∧ ¬ r.Has a := by
                      unfold Range.Has Range.stop at *
                      dsimp only
                      omega
                    rw [covers_cons, hpart]
                    simp only [reduceCtorEq, false_and, exists_false, or_false]
                    tauto
                case isFalse hstop =>
                    cases h
                    have hparts : (Range.mk s.start (r.start - s.start)).Has a ∨
                        (Range.mk r.stop (s.stop - r.stop)).Has a <-> s.Has a ∧ ¬ r.Has a := by
                      unfold Range.Has Range.stop at *
                      dsimp only
                      omega
                    rw [covers_cons]
                    simp only [Option.some.injEq, exists_eq_left']
                    tauto
      case isFalse houtside =>
          obtain ⟨inner, hinner, rfl⟩ := Option.map_eq_some_iff.1 h
          have hdisjoint : s.Has a -> ¬ r.Has a := by
            obtain ⟨t, ht, hstart, _⟩ := release_mem hinner
            have hlt := hfirst t ht
            unfold Range.Has
            omega
          rw [coversBoth_cons, covers_cons, ih hrest hinner]
          tauto

def Solid (ranges : List Range) : Prop := forall r, r ∈ ranges -> 0 < r.size

theorem solid_cons : Solid (s :: rest) <-> 0 < s.size ∧ Solid rest := by
  unfold Solid
  simp

/-- Releasing keeps the ranges separate and below a limit, and none of them gets empty. -/
theorem release_spec (hseparate : Separate ranges) (hsolid : Solid ranges)
    (hbelow : Below limit ranges) (h : release r ranges = some released) :
    Separate released.1 ∧ Solid released.1 ∧ Below limit released.1 ∧
      released.1.length <= ranges.length ∧
      forall p : Range, (forall s, s ∈ ranges -> p.stop < s.start) ->
        forall t, t ∈ released.1 -> p.stop < t.start := by
  induction ranges generalizing released with
  | nil =>
      cases h
  | cons s rest ih =>
      obtain ⟨hfirst, hrest⟩ := separate_cons.1 hseparate
      obtain ⟨hs, hsolidRest⟩ := solid_cons.1 hsolid
      obtain ⟨hslimit, hbelowRest⟩ := below_cons.1 hbelow
      -- what every part of the first range keeps
      have hpart : forall t : Range, s.start <= t.start -> t.stop <= s.stop -> 0 < t.size ->
          Separate (t :: rest) ∧ Solid (t :: rest) ∧ Below limit (t :: rest) ∧
            (t :: rest).length <= (s :: rest).length ∧
            forall p : Range, (forall s', s' ∈ s :: rest -> p.stop < s'.start) ->
              forall t', t' ∈ t :: rest -> p.stop < t'.start := by
        intro t hstart hstop hsize
        refine ⟨separate_cons.2 ⟨fun u hu => Nat.lt_of_le_of_lt hstop (hfirst u hu), hrest⟩,
          solid_cons.2 ⟨hsize, hsolidRest⟩,
          below_cons.2 ⟨Nat.lt_of_le_of_lt hstop hslimit, hbelowRest⟩, Nat.le_refl _, ?_⟩
        intro p hp u hu
        rcases List.mem_cons.1 hu with rfl | hu
        · exact Nat.lt_of_lt_of_le (hp s List.mem_cons_self) hstart
        · exact hp u (List.mem_cons_of_mem s hu)
      unfold release at h
      split at h
      case isTrue hinside =>
          have hrstop := Range.stop_eq r
          have hsstop := Range.stop_eq s
          split at h
          · cases h
            exact ⟨hrest, hsolidRest, hbelowRest, Nat.le_succ _,
              fun p hp t ht => hp t (List.mem_cons_of_mem s ht)⟩
          · split at h
            · cases h
              refine hpart _ ?_ ?_ ?_
              · dsimp only
                omega
              · rw [Range.stop_eq]
                dsimp only
                omega
              · dsimp only
                omega
            · split at h
              · cases h
                refine hpart _ (Nat.le_refl _) ?_ ?_
                · rw [Range.stop_eq]
                  dsimp only
                  omega
                · dsimp only
                  omega
              · cases h
                refine hpart _ (Nat.le_refl _) ?_ ?_
                · rw [Range.stop_eq]
                  dsimp only
                  omega
                · dsimp only
                  omega
      case isFalse houtside =>
          obtain ⟨inner, hinner, rfl⟩ := Option.map_eq_some_iff.1 h
          obtain ⟨hseparateInner, hsolidInner, hbelowInner, hlength, hfront⟩ :=
            ih hrest hsolidRest hbelowRest hinner
          refine ⟨separate_cons.2 ⟨hfront s hfirst, hseparateInner⟩,
            solid_cons.2 ⟨hs, hsolidInner⟩, below_cons.2 ⟨hslimit, hbelowInner⟩,
            Nat.succ_le_succ hlength, ?_⟩
          intro p hp t ht
          rcases List.mem_cons.1 ht with rfl | ht
          · exact hp t List.mem_cons_self
          · exact hfront p (fun u hu => hp u (List.mem_cons_of_mem s hu)) t ht

/-- The second part of a split: it comes from inside a range, and is apart from the rest. -/
theorem release_tail (hseparate : Separate ranges) {tail : Range}
    (h : release r ranges = some (rest, some tail)) :
    0 < tail.size ∧ (forall s, s ∈ rest -> tail.Apart s) ∧ tail.start = r.stop ∧
      (exists s, s ∈ ranges ∧ s.start < r.start ∧ r.stop < s.stop ∧ tail.stop = s.stop) ∧
      exists s, s ∈ rest ∧ s.stop = r.start := by
  induction ranges generalizing rest with
  | nil =>
      cases h
  | cons s others ih =>
      obtain ⟨hfirst, hothers⟩ := separate_cons.1 hseparate
      unfold release at h
      split at h
      case isTrue hinside =>
          have hrstop := Range.stop_eq r
          have hsstop := Range.stop_eq s
          split at h
          · cases h
          · split at h
            · cases h
            · split at h
              · cases h
              · cases h
                have hstop : (Range.mk r.stop (s.stop - r.stop)).stop = s.stop := by
                  rw [Range.stop_eq]
                  dsimp only
                  omega
                have hfront : (Range.mk s.start (r.start - s.start)).stop = r.start := by
                  rw [Range.stop_eq]
                  dsimp only
                  omega
                refine ⟨by dsimp only; omega, ?_, rfl,
                  ⟨s, List.mem_cons_self, by omega, by omega, hstop⟩,
                  ⟨_, List.mem_cons_self, hfront⟩⟩
                intro t ht
                unfold Range.Apart
                rcases List.mem_cons.1 ht with rfl | ht
                · rw [hfront]
                  dsimp only
                  omega
                · have hlt := hfirst t ht
                  rw [hstop]
                  omega
      case isFalse houtside =>
          obtain ⟨⟨inner, innerTail⟩, hinner, heq⟩ := Option.map_eq_some_iff.1 h
          dsimp only at heq
          cases heq
          obtain ⟨hsize, hapart, hstart, ⟨t, ht, hlower, hupper, hstop⟩, u, hu, huStop⟩ :=
            ih hothers hinner
          refine ⟨hsize, ?_, hstart, ⟨t, List.mem_cons_of_mem s ht, hlower, hupper, hstop⟩,
            u, List.mem_cons_of_mem s hu, huStop⟩
          intro v hv
          rcases List.mem_cons.1 hv with rfl | hv
          · have hlt := hfirst t ht
            have hrstop := Range.start_le_stop r
            unfold Range.Apart
            omega
          · exact hapart v hv

theorem release_ne_nil (hother : ranges ≠ [r]) (h : release r ranges = some released) :
    released.1 ≠ [] := by
  cases ranges with
  | nil =>
      cases h
  | cons s rest =>
      unfold release at h
      split at h
      case isTrue hinside =>
          split at h
          case isTrue hwhole =>
              cases h
              intro hnil
              dsimp only at hnil
              have hsame : s = r := by
                have hrstop := Range.stop_eq r
                have hsstop := Range.stop_eq s
                cases s
                cases r
                dsimp only at *
                congr 1
                · exact hwhole.1
                · omega
              exact hother (by rw [hsame, hnil])
          case isFalse hpart =>
              split at h
              · cases h
                exact List.cons_ne_nil _ _
              · split at h
                · cases h
                  exact List.cons_ne_nil _ _
                · cases h
                  exact List.cons_ne_nil _ _
      case isFalse houtside =>
          obtain ⟨inner, hinner, rfl⟩ := Option.map_eq_some_iff.1 h
          exact List.cons_ne_nil _ _

theorem solid_grow (hsolid : Solid ranges) (h : grow r ranges = some grown) : Solid grown := by
  induction ranges generalizing grown with
  | nil =>
      cases h
  | cons s rest ih =>
      obtain ⟨hs, hrest⟩ := solid_cons.1 hsolid
      unfold grow at h
      split at h
      · cases h
        exact hsolid
      · split at h
        · cases h
          have hjoin : 0 < (r.join s).size := by
            unfold Range.join
            split
            · exact Nat.lt_of_lt_of_le hs (Nat.le_add_right _ _)
            · exact Nat.lt_of_lt_of_le hs (Nat.le_add_right _ _)
          cases rest with
          | nil =>
              exact solid_cons.2 ⟨hjoin, hrest⟩
          | cons t rest =>
              rw [mergeNext_pair]
              split
              · exact solid_cons.2 ⟨Nat.lt_of_lt_of_le hjoin (Nat.le_add_right _ _),
                  (solid_cons.1 hrest).2⟩
              · exact solid_cons.2 ⟨hjoin, hrest⟩
        · obtain ⟨inner, hinner, rfl⟩ := Option.map_eq_some_iff.1 h
          exact solid_cons.2 ⟨hs, ih hrest hinner⟩

theorem solid_addRange (hsolid : Vacant ranges ∨ Solid ranges) (hfits : Fits room r ranges)
    (h : addRange room r ranges = some grown) : Vacant grown ∨ Solid grown := by
  rcases addRange_cases h with ⟨_, rfl⟩ | ⟨hused, hgrow⟩ | ⟨hused, hnone, hroom, rfl⟩
  · by_cases hsize : r.size = 0
    · exact Or.inl ⟨r.start, by rw [← hsize]⟩
    · exact Or.inr (solid_cons.2 ⟨Nat.pos_of_ne_zero hsize, fun t ht => nomatch ht⟩)
  · exact Or.inr (solid_grow (hsolid.resolve_left hused) hgrow)
  · have hfree := touches_none hnone
    have hsize : 0 < r.size := by
      cases hfits with
      | vacant hvacant =>
          exact absurd hvacant hused
      | known hr =>
          exact absurd rfl (hfree r hr).1
      | apart hsize _ =>
          exact hsize
      | empty _ htouch =>
          obtain ⟨s, hs, htouch⟩ := htouch
          exact absurd htouch (hfree s hs).2
      | full hfull _ =>
          exact absurd hroom (Nat.not_lt.2 hfull)
    right
    intro t ht
    rcases mem_insertRange.1 ht with rfl | ht
    · exact hsize
    · exact hsolid.resolve_left hused t ht

/-!
# Tables
-/

structure Table (room limit : Nat) (ranges : List Range) : Prop where
  separate : Separate ranges
  solid : Vacant ranges ∨ Solid ranges
  below : Below limit ranges
  length_le : ranges.length <= room
  ne_nil : ranges ≠ []

/-- Release a range, and add the second part when this splits one. -/
def releaseRange (room : Nat) (r : Range) (ranges : List Range) : Option (List Range) :=
  match release r ranges with
  | none => none
  | some (rest, none) => some rest
  | some (rest, some tail) => addRange room tail rest

/-- Requests whose release the table has room for, and that leave a range in it. -/
structure Releases (room : Nat) (r : Range) (ranges : List Range) : Prop where
  other : ranges ≠ [r]
  split : room <= ranges.length -> 0 < r.size ->
    forall s, s ∈ ranges -> s.start < r.start -> s.stop <= r.stop

theorem Table.add (htable : Table room limit ranges) (hfits : Fits room r ranges)
    (hr : r.stop < limit) (hpos : 0 < room) (h : addRange room r ranges = some grown) :
    Table room limit grown where
  separate := separate_addRange htable.separate hfits h
  solid := solid_addRange htable.solid hfits h
  below := below_addRange (ordered_of_separate htable.separate) hr htable.below h
  length_le := length_addRange htable.length_le hpos h
  ne_nil := ne_nil_addRange h

theorem not_release_vacant (hvacant : Vacant ranges) (hother : ranges ≠ [r]) :
    release r ranges = none := by
  obtain ⟨start, rfl⟩ := hvacant
  unfold release
  split
  case isTrue hinside =>
      have hsame : r = ⟨start, 0⟩ := by
        unfold Range.stop at hinside
        cases r
        dsimp only at hinside
        congr 1
        · omega
        · omega
      exact absurd (by rw [hsame]) hother
  case isFalse houtside =>
      rfl

theorem length_release {tail : Range} (h : release r ranges = some (rest, some tail)) :
    rest.length = ranges.length := by
  induction ranges generalizing rest with
  | nil =>
      cases h
  | cons s others ih =>
      unfold release at h
      split at h
      · split at h
        · cases h
        · split at h
          · cases h
          · split at h
            · cases h
            · cases h
              rfl
      · obtain ⟨⟨inner, innerTail⟩, hinner, heq⟩ := Option.map_eq_some_iff.1 h
        dsimp only at heq
        cases heq
        rw [List.length_cons, List.length_cons, ih hinner]

theorem Table.release_rest (htable : Table room limit ranges)
    (hreleases : Releases room r ranges) (h : release r ranges = some released) :
    Table room limit released.1 := by
  have hsolid : Solid ranges := by
    rcases htable.solid with hvacant | hsolid
    · rw [not_release_vacant hvacant hreleases.other] at h
      cases h
    · exact hsolid
  obtain ⟨hseparate, hsolidRest, hbelow, hlength, _⟩ :=
    release_spec htable.separate hsolid htable.below h
  exact ⟨hseparate, Or.inr hsolidRest, hbelow, Nat.le_trans hlength htable.length_le,
    release_ne_nil hreleases.other h⟩

theorem Table.release (htable : Table room limit ranges) (hreleases : Releases room r ranges)
    (hfound : release r ranges ≠ none) (hpos : 0 < room) :
    exists rest, releaseRange room r ranges = some rest ∧ Table room limit rest ∧
      forall a, Covers rest a <-> Covers ranges a ∧ ¬ r.Has a := by
  obtain ⟨⟨rest, tail⟩, hrelease⟩ := Option.ne_none_iff_exists'.1 hfound
  have hrest : Table room limit rest := htable.release_rest hreleases hrelease
  have hcovers := fun a => covers_release (a := a) htable.separate hrelease
  unfold releaseRange
  rw [hrelease]
  cases tail with
  | none =>
      refine ⟨rest, rfl, hrest, fun a => ?_⟩
      rw [← hcovers a]
      unfold CoversBoth
      simp
  | some tail =>
      obtain ⟨hsize, hapart, hstart, ⟨s, hs, hlower, hupper, hstop⟩, u, hu, huStop⟩ :=
        release_tail htable.separate hrelease
      have hlimit : tail.stop < limit := hstop ▸ htable.below s hs
      -- without room, the part is only added because the range was empty
      have hadded : exists grown, addRange room tail rest = some grown := by
        cases hadd : addRange room tail rest with
        | some grown =>
            exact ⟨grown, rfl⟩
        | none =>
            unfold addRange at hadd
            split at hadd
            · cases hadd
            · cases hgrow : grow tail rest with
              | some inner =>
                  rw [hgrow] at hadd
                  cases hadd
              | none =>
                  rw [hgrow] at hadd
                  dsimp only at hadd
                  split at hadd
                  case isTrue hfull =>
                      rw [length_release hrelease] at hfull
                      have hempty : r.size = 0 := by
                        by_cases hr : 0 < r.size
                        · have hle := hreleases.split hfull hr s hs hlower
                          omega
                        · exact Nat.eq_zero_of_not_pos hr
                      have htouch : tail.Touches u := by
                        right
                        rw [huStop, hstart, Range.stop_eq r, hempty]
                        rfl
                      exact absurd htouch (touches_none hgrow u hu).2
                  case isFalse hfree =>
                      cases hadd
      obtain ⟨grown, hgrown⟩ := hadded
      refine ⟨grown, hgrown, hrest.add (Fits.apart hsize hapart) hlimit hpos hgrown,
        fun a => ?_⟩
      rw [covers_addRange (ordered_of_separate hrest.separate) hgrown, ← hcovers a]
      unfold CoversBoth
      simp only [Option.some.injEq, exists_eq_left']
      tauto

end Foundation
end Bab750

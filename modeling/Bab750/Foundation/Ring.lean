import Mathlib.Data.Nat.ModEq

/-!
# Queues in a ring

A ring of cells holds a queue: from the place `start` on, one cell for each entry of
the queue, and free cells up to the place in front of `start`.  The writer fills the
cell behind the queue, and the reader frees the cell at `start`.
-/

namespace Bab750
namespace Foundation
namespace Ring

variable {α β : Type}

/-- The place that lies `k` cells behind `start`. -/
def slot (size start k : Nat) : Nat := (start + k) % size

theorem slot_lt {size : Nat} (hsize : 0 < size) (start k : Nat) :
    slot size start k < size :=
  Nat.mod_lt _ hsize

theorem slot_zero {size start : Nat} (hstart : start < size) : slot size start 0 = start :=
  Nat.mod_eq_of_lt hstart

theorem slot_slot (size start j k : Nat) :
    slot size (slot size start j) k = slot size start (j + k) := by
  unfold slot
  rw [Nat.mod_add_mod, Nat.add_assoc]

theorem slot_full {size start : Nat} (hstart : start < size) :
    slot size start size = start := by
  unfold slot
  rw [Nat.add_mod_right, Nat.mod_eq_of_lt hstart]

theorem slot_inj {size start j k : Nat} (hj : j < size) (hk : k < size)
    (h : slot size start j = slot size start k) : j = k := by
  have hmod : Nat.ModEq size (start + j) (start + k) := h
  have hsame := Nat.ModEq.add_left_cancel' start hmod
  exact Nat.ModEq.eq_of_lt_of_lt hsame hj hk

theorem slot_surj {size start i : Nat} (hstart : start < size) (hi : i < size) :
    exists k, k < size ∧ slot size start k = i := by
  by_cases h : start <= i
  · refine ⟨i - start, by omega, ?_⟩
    unfold slot
    rw [Nat.add_sub_of_le h, Nat.mod_eq_of_lt hi]
  · refine ⟨i + size - start, by omega, ?_⟩
    unfold slot
    rw [Nat.add_sub_of_le (by omega), Nat.add_mod_right, Nat.mod_eq_of_lt hi]

/-- From `start` on the cells hold the queue, and the other cells are free. -/
structure Occupied (size : Nat) (free : α -> Prop) (holds : β -> α -> Prop)
    (cells : Nat -> α) (start : Nat) (queue : List β) : Prop where
  start_lt : start < size
  fits : queue.length <= size
  filled : forall k (h : k < queue.length), holds queue[k] (cells (slot size start k))
  rest : forall k, queue.length <= k -> k < size -> free (cells (slot size start k))

section Queue

variable {size : Nat} {free : α -> Prop} {holds : β -> α -> Prop} {cells : Nat -> α}
  {start : Nat} {queue : List β}

theorem occupied_empty (hstart : start < size)
    (hfree : forall i, i < size -> free (cells i)) :
    Occupied size free holds cells start ([] : List β) where
  start_lt := hstart
  fits := Nat.zero_le _
  filled := fun k h => absurd h (Nat.not_lt_zero k)
  rest := fun k _ _ => hfree _ (slot_lt (by omega) start k)

theorem Occupied.all_free (h : Occupied size free holds cells start ([] : List β))
    {i : Nat} (hi : i < size) : free (cells i) := by
  rcases slot_surj h.start_lt hi with ⟨k, hk, rfl⟩
  exact h.rest k (Nat.zero_le k) hk

/-- A cell behind the queue that holds no entry means that there is room for one more. -/
theorem Occupied.room (h : Occupied size free holds cells start queue)
    {unused : α -> Prop} (hbusy : forall entry cell, holds entry cell -> ¬ unused cell)
    (hunused : unused (cells (slot size start queue.length))) : queue.length < size := by
  rcases Nat.lt_or_ge queue.length size with hroom | hfull
  · exact hroom
  · have hlength : queue.length = size := Nat.le_antisymm h.fits hfull
    have hsize : 0 < size := Nat.lt_of_le_of_lt (Nat.zero_le _) h.start_lt
    have hfirst := h.filled 0 (by omega)
    rw [hlength, slot_full h.start_lt] at hunused
    rw [slot_zero h.start_lt] at hfirst
    exact absurd hunused (hbusy _ _ hfirst)

theorem Occupied.push (h : Occupied size free holds cells start queue)
    (hroom : queue.length < size) {entry : β} {cell : α} (hcell : holds entry cell) :
    Occupied size free holds
      (Function.update cells (slot size start queue.length) cell) start
      (queue ++ [entry]) := by
  have hother : forall k, k < size -> k ≠ queue.length ->
      Function.update cells (slot size start queue.length) cell (slot size start k) =
        cells (slot size start k) := by
    intro k hk hne
    refine Function.update_of_ne ?_ _ _
    intro hslot
    exact hne (slot_inj hk hroom hslot)
  constructor
  case start_lt => exact h.start_lt
  case fits =>
      rw [List.length_append, List.length_singleton]
      exact hroom
  case filled =>
      intro k hk
      rw [List.length_append, List.length_singleton] at hk
      rcases Nat.lt_or_ge k queue.length with hold | hnew
      · rw [hother k (by omega) (by omega), List.getElem_append_left hold]
        exact h.filled k hold
      · have hlast : k = queue.length := by omega
        subst hlast
        rw [Function.update_self, List.getElem_concat_length rfl]
        exact hcell
  case rest =>
      intro k hle hk
      rw [List.length_append, List.length_singleton] at hle
      rw [hother k hk (by omega)]
      exact h.rest k (by omega) hk

theorem Occupied.pop {entry : β}
    (h : Occupied size free holds cells start (entry :: queue)) {cell : α}
    (hcell : free cell) :
    Occupied size free holds (Function.update cells start cell) (slot size start 1)
      queue := by
  have hsize : 0 < size := Nat.lt_of_le_of_lt (Nat.zero_le _) h.start_lt
  have hfits : queue.length + 1 <= size := h.fits
  have hstart := slot_zero h.start_lt
  have hother : forall k, k < size -> k ≠ 0 ->
      Function.update cells start cell (slot size start k) =
        cells (slot size start k) := by
    intro k hk hne
    refine Function.update_of_ne ?_ _ _
    intro hslot
    exact hne (slot_inj hk hsize (hslot.trans hstart.symm))
  constructor
  case start_lt => exact slot_lt hsize start 1
  case fits => omega
  case filled =>
      intro k hk
      rw [slot_slot, Nat.add_comm 1 k, hother (k + 1) (by omega) (by omega)]
      exact h.filled (k + 1) (Nat.succ_lt_succ hk)
  case rest =>
      intro k hle hk
      rw [slot_slot, Nat.add_comm 1 k]
      rcases Nat.lt_or_ge (k + 1) size with hin | hout
      · rw [hother (k + 1) hin (by omega)]
        exact h.rest (k + 1) (Nat.succ_le_succ hle) hin
      · have hlast : k + 1 = size := by omega
        rw [hlast, slot_full h.start_lt, Function.update_self]
        exact hcell

end Queue

end Ring
end Foundation
end Bab750

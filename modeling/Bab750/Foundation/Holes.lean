import Bab750.Foundation.Forest

/-!
# Holes

What is missing of a row of numbers, as a list of spans with something between each two. A piece
that is put into a hole leaves the part in front of it and the part behind it.
-/

namespace Bab750
namespace Foundation

/-- The holes stand in order, none of them is empty, and something is between each two. -/
structure Holes (holes : List Span) : Prop where
  apart : holes.Pairwise (fun h k => h.limit < k.first)
  each : forall h, h ∈ holes -> h.first < h.limit

def Missing (holes : List Span) (n : Nat) : Prop := exists h, h ∈ holes ∧ h.Has n

def Span.without (h piece : Span) : List Span :=
  (if h.first < piece.first then [⟨h.first, piece.first⟩] else []) ++
    (if piece.limit < h.limit then [⟨piece.limit, h.limit⟩] else [])

variable {holes before after : List Span} {h k piece : Span} {n : Nat}

theorem holes_nil : Holes [] := ⟨List.Pairwise.nil, fun _ hk => absurd hk List.not_mem_nil⟩

theorem holes_append {first second : List Span} : Holes (first ++ second) <->
    Holes first ∧ Holes second ∧ forall h, h ∈ first -> forall k, k ∈ second ->
      h.limit < k.first := by
  constructor
  · intro hall
    rcases List.pairwise_append.mp hall.apart with ⟨hfirst, hsecond, hacross⟩
    exact ⟨⟨hfirst, fun h hh => hall.each h (List.mem_append_left _ hh)⟩,
      ⟨hsecond, fun h hh => hall.each h (List.mem_append_right _ hh)⟩, hacross⟩
  · rintro ⟨hfirst, hsecond, hacross⟩
    refine ⟨List.pairwise_append.mpr ⟨hfirst.apart, hsecond.apart, hacross⟩, fun h hh => ?_⟩
    rcases List.mem_append.mp hh with hh | hh
    · exact hfirst.each h hh
    · exact hsecond.each h hh

theorem holes_cons : Holes (h :: holes) <->
    h.first < h.limit ∧ (forall k, k ∈ holes -> h.limit < k.first) ∧ Holes holes := by
  constructor
  · intro hall
    rcases List.pairwise_cons.mp hall.apart with ⟨hhead, htail⟩
    exact ⟨hall.each h List.mem_cons_self, hhead, htail,
      fun k hk => hall.each k (List.mem_cons_of_mem h hk)⟩
  · rintro ⟨hopen, hhead, htail⟩
    refine ⟨List.pairwise_cons.mpr ⟨hhead, htail.apart⟩, fun k hk => ?_⟩
    rcases List.mem_cons.mp hk with rfl | hk
    · exact hopen
    · exact htail.each k hk

theorem missing_append {first second : List Span} :
    Missing (first ++ second) n <-> Missing first n ∨ Missing second n := by
  unfold Missing
  simp only [List.mem_append, or_and_right, exists_or]

theorem missing_cons : Missing (h :: holes) n <-> h.Has n ∨ Missing holes n := by
  unfold Missing
  simp only [List.mem_cons, or_and_right, exists_or, exists_eq_left]

theorem mem_without (hk : k ∈ h.without piece) :
    (h.first < piece.first ∧ k = ⟨h.first, piece.first⟩) ∨
      (piece.limit < h.limit ∧ k = ⟨piece.limit, h.limit⟩) := by
  unfold Span.without at hk
  rcases List.mem_append.mp hk with hk | hk
  · left
    split at hk
    · rename_i hfront
      exact ⟨hfront, List.mem_singleton.mp hk⟩
    · exact absurd hk List.not_mem_nil
  · right
    split at hk
    · rename_i hbehind
      exact ⟨hbehind, List.mem_singleton.mp hk⟩
    · exact absurd hk List.not_mem_nil

theorem missing_without (hinside : piece.Inside h) (hpiece : piece.first < piece.limit) :
    Missing (h.without piece) n <-> h.Has n ∧ ¬ piece.Has n := by
  unfold Span.Inside at hinside
  unfold Span.without Span.Has
  rw [missing_append]
  have hfront : Missing (if h.first < piece.first then [⟨h.first, piece.first⟩] else []) n <->
      h.first ≤ n ∧ n < piece.first := by
    split
    · rw [missing_cons]
      unfold Missing Span.Has
      simp
    · unfold Missing
      simp
      omega
  have hbehind : Missing (if piece.limit < h.limit then [⟨piece.limit, h.limit⟩] else []) n <->
      piece.limit ≤ n ∧ n < h.limit := by
    split
    · rw [missing_cons]
      unfold Missing Span.Has
      simp
    · unfold Missing
      simp
      omega
  rw [hfront, hbehind]
  omega

theorem holes_without (hpiece : piece.first < piece.limit) : Holes (h.without piece) := by
  refine ⟨?_, ?_⟩
  · unfold Span.without
    split
    · split
      · refine List.pairwise_cons.mpr ⟨fun k hk => ?_, List.pairwise_singleton _ _⟩
        rw [List.mem_singleton.mp hk]
        exact hpiece
      · exact List.pairwise_singleton _ _
    · split
      · exact List.pairwise_singleton _ _
      · exact List.Pairwise.nil
  · intro k hk
    rcases mem_without hk with ⟨hfront, rfl⟩ | ⟨hbehind, rfl⟩
    · exact hfront
    · exact hbehind

theorem Holes.punch (hall : Holes (before ++ h :: after)) (hinside : piece.Inside h)
    (hpiece : piece.first < piece.limit) : Holes (before ++ (h.without piece ++ after)) := by
  rcases holes_append.mp hall with ⟨hbefore, hrest, hacross⟩
  rcases holes_cons.mp hrest with ⟨_, hbehind, hafter⟩
  have hwithin : forall k, k ∈ h.without piece -> h.first ≤ k.first ∧ k.limit ≤ h.limit := by
    intro k hk
    unfold Span.Inside at hinside
    rcases mem_without hk with ⟨_, rfl⟩ | ⟨_, rfl⟩
    · dsimp only
      omega
    · dsimp only
      omega
  refine holes_append.mpr ⟨hbefore, holes_append.mpr ⟨holes_without hpiece, hafter,
    fun k hk m hm => ?_⟩, fun k hk m hm => ?_⟩
  · exact Nat.lt_of_le_of_lt (hwithin k hk).2 (hbehind m hm)
  · rcases List.mem_append.mp hm with hm | hm
    · exact Nat.lt_of_lt_of_le (hacross k hk h List.mem_cons_self) (hwithin m hm).1
    · exact hacross k hk m (List.mem_cons_of_mem h hm)

theorem missing_punch (hall : Holes (before ++ h :: after)) (hinside : piece.Inside h)
    (hpiece : piece.first < piece.limit) : Missing (before ++ (h.without piece ++ after)) n <->
      Missing (before ++ h :: after) n ∧ ¬ piece.Has n := by
  rcases holes_append.mp hall with ⟨_, hrest, hacross⟩
  rcases holes_cons.mp hrest with ⟨_, hbehind, _⟩
  rw [missing_append, missing_append, missing_append, missing_cons,
    missing_without hinside hpiece]
  unfold Span.Inside at hinside
  have hfront : Missing before n -> ¬ piece.Has n := by
    rintro ⟨k, hk, hhas⟩ hpieceHas
    have hlt := hacross k hk h List.mem_cons_self
    unfold Span.Has at hhas hpieceHas
    omega
  have hback : Missing after n -> ¬ piece.Has n := by
    rintro ⟨k, hk, hhas⟩ hpieceHas
    have hlt := hbehind k hk
    unfold Span.Has at hhas hpieceHas
    omega
  constructor
  · rintro (hmissing | ⟨hhas, hnot⟩ | hmissing)
    · exact ⟨Or.inl hmissing, hfront hmissing⟩
    · exact ⟨Or.inr (Or.inl hhas), hnot⟩
    · exact ⟨Or.inr (Or.inr hmissing), hback hmissing⟩
  · rintro ⟨hmissing | hhas | hmissing, hnot⟩
    · exact Or.inl hmissing
    · exact Or.inr (Or.inl ⟨hhas, hnot⟩)
    · exact Or.inr (Or.inr hmissing)

theorem Holes.around (hall : Holes holes) (hpiece : piece.first < piece.limit)
    (hmissing : forall n, piece.Has n -> Missing holes n) :
    exists before h after, holes = before ++ h :: after ∧ piece.Inside h ∧
      forall k, k ∈ before -> k.limit < piece.first := by
  rcases hmissing piece.first ⟨Nat.le_refl _, hpiece⟩ with ⟨h, hh, hhas⟩
  rcases List.append_of_mem hh with ⟨before, after, hsplit⟩
  rw [hsplit] at hall
  rcases holes_append.mp hall with ⟨_, hrest, hacross⟩
  rcases holes_cons.mp hrest with ⟨_, hbehind, _⟩
  refine ⟨before, h, after, hsplit, ⟨hhas.1, ?_⟩, fun k hk => ?_⟩
  · apply Nat.le_of_not_lt
    intro hlt
    -- the first number behind the hole would be missing as well
    have hlast : piece.Has h.limit := ⟨Nat.le_of_lt hhas.2, hlt⟩
    rw [hsplit] at hmissing
    rcases missing_append.mp (hmissing h.limit hlast) with ⟨k, hk, hk'⟩ | hrest'
    · have hfar := hacross k hk h List.mem_cons_self
      unfold Span.Has at hk' hhas
      omega
    · rcases missing_cons.mp hrest' with hself | ⟨k, hk, hk'⟩
      · exact absurd hself.2 (Nat.lt_irrefl _)
      · exact absurd (hbehind k hk) (Nat.not_lt.mpr hk'.1)
  · exact Nat.lt_of_lt_of_le (hacross k hk h List.mem_cons_self) hhas.1

theorem Holes.front (hall : Holes (before ++ h :: after)) (hn : n + 1 = h.first) :
    ¬ Missing (before ++ h :: after) n := by
  rcases holes_append.mp hall with ⟨_, hrest, hacross⟩
  rcases holes_cons.mp hrest with ⟨_, hbehind, _⟩
  intro hmissing
  rcases missing_append.mp hmissing with ⟨k, hk, hk'⟩ | hrest'
  · have hfar := hacross k hk h List.mem_cons_self
    unfold Span.Has at hk'
    omega
  · rcases missing_cons.mp hrest' with hself | ⟨k, hk, hk'⟩
    · unfold Span.Has at hself
      omega
    · have hfar := hbehind k hk
      have hopen := (holes_cons.mp hrest).1
      unfold Span.Has at hk'
      omega

theorem Holes.least (hall : Holes (h :: holes)) (hn : Missing (h :: holes) n) : h.first ≤ n := by
  rcases holes_cons.mp hall with ⟨hopen, hbehind, _⟩
  rcases missing_cons.mp hn with hself | ⟨k, hk, hk'⟩
  · exact hself.1
  · have hfar := hbehind k hk
    unfold Span.Has at hk'
    omega

theorem Holes.limit (hall : Holes (h :: holes)) : ¬ Missing (h :: holes) h.limit := by
  rcases holes_cons.mp hall with ⟨_, hbehind, _⟩
  intro hmissing
  rcases missing_cons.mp hmissing with hself | ⟨k, hk, hk'⟩
  · exact Nat.lt_irrefl _ hself.2
  · exact Nat.lt_irrefl _ (Nat.lt_of_lt_of_le (hbehind k hk) hk'.1)

theorem missing_tail (hall : Holes (h :: holes)) :
    Missing holes n <-> Missing (h :: holes) n ∧ h.limit ≤ n := by
  rw [missing_cons]
  constructor
  · rintro ⟨k, hk, hhas⟩
    have hfar := (holes_cons.mp hall).2.1 k hk
    exact ⟨Or.inr ⟨k, hk, hhas⟩, Nat.le_of_lt (Nat.lt_of_lt_of_le hfar hhas.1)⟩
  · rintro ⟨hself | hrest, hle⟩
    · exact absurd hself.2 (Nat.not_lt.mpr hle)
    · exact hrest

theorem Holes.ext {holes' : List Span} (hall : Holes holes) (hall' : Holes holes')
    (hmissing : forall n, Missing holes n <-> Missing holes' n) : holes = holes' := by
  induction holes generalizing holes' with
  | nil =>
      cases holes' with
      | nil => rfl
      | cons k holes' =>
          rcases (hmissing k.first).mpr ⟨k, List.mem_cons_self, Nat.le_refl _,
            hall'.each k List.mem_cons_self⟩ with ⟨h, hh, _⟩
          exact absurd hh List.not_mem_nil
  | cons h holes ih =>
      cases holes' with
      | nil =>
          rcases (hmissing h.first).mp ⟨h, List.mem_cons_self, Nat.le_refl _,
            hall.each h List.mem_cons_self⟩ with ⟨k, hk, _⟩
          exact absurd hk List.not_mem_nil
      | cons k holes' =>
          have hopen := hall.each h List.mem_cons_self
          have hopen' := hall'.each k List.mem_cons_self
          have hself : forall n, h.Has n -> Missing (h :: holes) n := fun n hn =>
            ⟨h, List.mem_cons_self, hn⟩
          have hself' : forall n, k.Has n -> Missing (k :: holes') n := fun n hn =>
            ⟨k, List.mem_cons_self, hn⟩
          have hfirst : h.first = k.first := Nat.le_antisymm
            (hall.least ((hmissing _).mpr (hself' _ ⟨Nat.le_refl _, hopen'⟩)))
            (hall'.least ((hmissing _).mp (hself _ ⟨Nat.le_refl _, hopen⟩)))
          have hlimit : h.limit = k.limit := by
            apply Nat.le_antisymm
            · apply Nat.le_of_not_lt
              intro hlt
              exact hall'.limit ((hmissing _).mp (hself _ (by unfold Span.Has; omega)))
            · apply Nat.le_of_not_lt
              intro hlt
              exact hall.limit ((hmissing _).mpr (hself' _ (by unfold Span.Has; omega)))
          have hhole : h = k := by
            cases h
            cases k
            exact Span.mk.injEq .. ▸ ⟨hfirst, hlimit⟩
          rw [hhole, ih (holes_cons.mp hall).2.2 (holes_cons.mp hall').2.2 (fun n => by
            rw [missing_tail hall, missing_tail hall', hmissing, hlimit])]

end Foundation
end Bab750

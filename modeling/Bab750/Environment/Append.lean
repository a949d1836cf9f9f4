import Bab750.Environment.Deletion

/-!
# Appending to a well-formed image

The second half of `_do_setenv` on a well-formed image: the scan for the double
NUL finds the end of the table, and the new definition is written there with its
values joined by single spaces.
-/

namespace Bab750
namespace Environment

open Foundation
open Support

/-!
# Finding the end of the table
-/

theorem appendScan_body (left body rest : List Byte) (fuel : Nat)
    (hbody : NoDoubleNul body (0#8 :: 0#8 :: rest)) (hfuel : body.length < fuel) :
    appendScan (left ++ body ++ 0#8 :: 0#8 :: rest) fuel left.length =
      some (left.length + body.length) := by
  induction body generalizing left fuel with
  | nil =>
      cases fuel with
      | zero =>
          simp at hfuel
      | succ fuel =>
          simp [appendScan]
  | cons c body ih =>
      cases fuel with
      | zero =>
          simp at hfuel
      | succ fuel =>
          rcases hbody with ⟨hstop, hbody⟩
          have hnext := ih (left ++ [c]) fuel hbody (by simpa using hfuel)
          have hshape : left ++ [c] ++ body ++ 0#8 :: 0#8 :: rest =
              left ++ c :: body ++ 0#8 :: 0#8 :: rest := by simp
          have hlen : (left ++ [c]).length = left.length + 1 := by simp
          rw [hshape, hlen] at hnext
          have hhead : (left ++ c :: body ++ 0#8 :: 0#8 :: rest)[left.length]? =
              some c := by
            rw [List.append_assoc, List.getElem?_append_right (by omega)]
            simp
          have hgoal : left.length + 1 + body.length =
              left.length + (c :: body).length := by
            simp only [List.length_cons]
            omega
          rw [hgoal] at hnext
          rw [appendScan, hhead]
          by_cases hc : c = 0#8
          · have hlook :
                (left ++ c :: body ++ 0#8 :: 0#8 :: rest)[left.length + 1]? =
                  (body ++ 0#8 :: 0#8 :: rest)[0]? := by
              rw [List.append_assoc, List.getElem?_append_right (by omega)]
              simp
            cases hrest : body ++ 0#8 :: 0#8 :: rest with
            | nil =>
                simp at hrest
            | cons d tail =>
                have hd : d ≠ 0#8 := by
                  intro hd
                  exact hstop ⟨hc, by simp [hrest, hd]⟩
                rw [hrest] at hlook
                simp [hc] at hlook ⊢
                simp [hlook, hd]
                simpa [hc] using hnext
          · simpa [hc] using hnext

theorem appendPosition_layout (vars : List Variable) (stale : List Byte) :
    appendPosition (encodeVariables vars ++ tableEnd vars ++ stale) =
      some (encodeVariables vars).length := by
  unfold appendPosition
  by_cases hvars : vars = []
  · subst vars
    simp [encodeVariables, tableEnd, appendScan]
  · rcases encodeStrings_eq_body_nul (tableStrings_text vars)
      (by simpa using hvars) with ⟨body, hbodyEq, hbodyNe, hbody⟩
    have hvarsEq : encodeVariables vars = body ++ [0#8] := hbodyEq
    have hscan := appendScan_body [] body stale
      ((encodeVariables vars ++ tableEnd vars ++ stale).length + 1) (hbody _)
      (by rw [hvarsEq]; simp only [List.length_append, List.length_cons, List.length_nil]; omega)
    have hshape : encodeVariables vars ++ tableEnd vars ++ stale =
        [] ++ body ++ 0#8 :: 0#8 :: stale := by
      rw [hvarsEq, tableEnd, if_neg hvars]
      simp
    have hpos : 0 < body.length := List.length_pos_of_ne_nil hbodyNe
    rw [← hshape, List.length_nil, Nat.zero_add] at hscan
    rw [hscan, hvarsEq]
    simp [hpos]

/-!
# Writing the definition
-/

def separated (separator : Byte) : List (List Byte) -> List Byte
  | [] => []
  | v :: values => separator :: (v ++ separated 0x20#8 values)

def joinValues (values : List (List Byte)) : List Byte :=
  List.intercalate [0x20#8] values

theorem separated_eq_joinValues (separator : Byte) (v : List Byte)
    (values : List (List Byte)) :
    separated separator (v :: values) = separator :: joinValues (v :: values) := by
  induction values generalizing separator v with
  | nil =>
      simp [separated, joinValues]
  | cons w values ih =>
      rw [separated, ih]
      simp [joinValues, List.intercalate]

theorem separated_length (separator : Byte) (values : List (List Byte)) :
    (separated separator values).length =
      (values.map (fun v => v.length + 1)).sum := by
  induction values generalizing separator with
  | nil =>
      rfl
  | cons v values ih =>
      simp only [separated, List.length_cons, List.length_append, ih,
        List.map_cons, List.sum_cons]
      omega

theorem writeValues_middle (left old right : List Byte) (separator : Byte)
    (values : List (List Byte))
    (hold : old.length = (values.map (fun v => v.length + 1)).sum) :
    writeValues (left ++ 0#8 :: old ++ right) left.length separator values =
      some (left ++ separated separator values ++ 0#8 :: right,
        left.length + (separated separator values).length) := by
  induction values generalizing left old separator with
  | nil =>
      have hnil : old = [] := List.length_eq_zero_iff.mp (by simpa using hold)
      simp [writeValues, separated, hnil]
  | cons v values ih =>
      simp only [List.map_cons, List.sum_cons] at hold
      have hsplit : old = old.take (v.length + 1) ++ old.drop (v.length + 1) :=
        (List.take_append_drop _ _).symm
      have hstore : store (left ++ 0#8 :: old ++ right) left.length separator =
          some ((left ++ [separator]) ++ old.take (v.length + 1) ++
            (old.drop (v.length + 1) ++ right)) := by
        have hmid := store_middle left (old ++ right) 0#8 separator
        rw [List.append_assoc, List.cons_append, hmid]
        simp only [List.append_assoc, List.cons_append, List.nil_append]
        rw [← List.append_assoc (old.take (v.length + 1)), ← hsplit]
      have hcopy := copyString_middle (left ++ [separator])
        (old.drop (v.length + 1) ++ right) (old.take (v.length + 1)) v
        (by rw [List.length_take]; omega)
      have hlen : (left ++ [separator]).length = left.length + 1 := by simp
      rw [hlen] at hcopy
      have hrest := ih (left ++ [separator] ++ v) (old.drop (v.length + 1)) 0x20#8
        (by rw [List.length_drop]; omega)
      have hshape : left ++ [separator] ++ v ++ 0#8 ::
            (old.drop (v.length + 1) ++ right) =
          left ++ [separator] ++ v ++ 0#8 :: old.drop (v.length + 1) ++ right := by
        simp
      have hpos : (left ++ [separator] ++ v).length =
          left.length + 1 + v.length := by
        simp only [List.length_append, List.length_singleton]
      rw [hpos] at hrest
      rw [writeValues, hstore]
      simp only [hcopy, hshape, hrest, separated]
      simp only [List.append_assoc, List.cons_append, List.nil_append,
        List.length_cons, List.length_append]
      congr 2
      omega

theorem writeDefinition_middle (left old right name : List Byte)
    (values : List (List Byte)) (hold : old.length = definitionLength name values) :
    writeDefinition (left ++ old ++ right) left.length name values =
      some (left ++ (name ++ separated equalsSign values) ++
        0#8 :: 0#8 :: right) := by
  unfold definitionLength at hold
  have hsplit1 : old = old.take (name.length + 1) ++ old.drop (name.length + 1) :=
    (List.take_append_drop _ _).symm
  have hcopy := copyString_middle left (old.drop (name.length + 1) ++ right)
    (old.take (name.length + 1)) name (by rw [List.length_take]; omega)
  have hshape1 : left ++ old.take (name.length + 1) ++
        (old.drop (name.length + 1) ++ right) = left ++ old ++ right := by
    rw [List.append_assoc, ← List.append_assoc (old.take _), ← hsplit1,
      List.append_assoc]
  rw [hshape1] at hcopy
  -- behind the name there is room for the values and one more byte
  have hrestLen : (old.drop (name.length + 1)).length =
      (values.map (fun v => v.length + 1)).sum + 1 := by
    rw [List.length_drop]
    omega
  rcases List.eq_nil_or_concat (old.drop (name.length + 1)) with
    hnil | ⟨room, last, hroom⟩
  · rw [hnil] at hrestLen
    simp at hrestLen
  · rw [hroom] at hrestLen
    have hroomLen : room.length = (values.map (fun v => v.length + 1)).sum := by
      simpa using hrestLen
    have hvalues := writeValues_middle (left ++ name) room (last :: right)
      equalsSign values hroomLen
    have hshape2 : left ++ name ++ 0#8 :: (old.drop (name.length + 1) ++ right) =
        left ++ name ++ 0#8 :: room ++ last :: right := by
      rw [hroom]
      simp
    have hlen : (left ++ name).length = left.length + name.length := by simp
    rw [hlen] at hvalues
    have hfinal := store_middle
      (left ++ name ++ separated equalsSign values ++ [0#8]) right last 0#8
    have hfinalLen :
        (left ++ name ++ separated equalsSign values ++ [0#8]).length =
          left.length + name.length + (separated equalsSign values).length + 1 := by
      simp only [List.length_append, List.length_singleton]
    have hshape3 : left ++ name ++ separated equalsSign values ++
          0#8 :: last :: right =
        left ++ name ++ separated equalsSign values ++ [0#8] ++ last :: right := by
      simp
    rw [hfinalLen] at hfinal
    unfold writeDefinition
    rw [hcopy]
    simp only [hshape2, hvalues, hshape3, hfinal]
    simp

theorem writeValues_length {data data' : List Byte} {env env' : Nat}
    {separator : Byte} {values : List (List Byte)}
    (h : writeValues data env separator values = some (data', env')) :
    data'.length = data.length := by
  induction values generalizing data env separator with
  | nil =>
      cases h
      rfl
  | cons v values ih =>
      rw [writeValues] at h
      cases hstore : store data env separator with
      | none =>
          simp [hstore] at h
      | some stored =>
          simp only [hstore] at h
          cases hcopy : copyString stored (env + 1) v with
          | none =>
              simp [hcopy] at h
          | some copied =>
              simp only [hcopy] at h
              rw [ih h, copyString_length hcopy, store_length hstore]

theorem writeDefinition_length {data data' name : List Byte} {env : Nat}
    {values : List (List Byte)}
    (h : writeDefinition data env name values = some data') :
    data'.length = data.length := by
  unfold writeDefinition at h
  cases hcopy : copyString data env name with
  | none =>
      simp [hcopy] at h
  | some copied =>
      simp only [hcopy] at h
      cases hwrite : writeValues copied.1 copied.2 equalsSign values with
      | none =>
          simp [hwrite] at h
      | some written =>
          simp only [hwrite] at h
          rw [store_length h, writeValues_length hwrite, copyString_length hcopy]

end Environment
end Bab750

import Bab750.Environment.Setenv

/-!
# Searching and deleting in a well-formed image

The first half of `_do_setenv` on a well-formed image: the search finds the
definition of the name, and the deletion takes exactly that string out of the
table.
-/

namespace Bab750
namespace Environment

open Foundation
open Support

/-!
# Searching
-/

theorem encodeVariables_cons (v : Variable) (vars : List Variable) :
    encodeVariables (v :: vars) = (v.text ++ [0#8]) ++ encodeVariables vars := by
  simp [encodeVariables]

theorem encodeVariables_append (left right : List Variable) :
    encodeVariables (left ++ right) =
      encodeVariables left ++ encodeVariables right := by
  simp [encodeVariables]

theorem Variable.text_head (v : Variable) :
    exists c rest, v.text = c :: rest ∧ c ≠ 0#8 := by
  cases htext : v.text with
  | nil =>
      exact absurd htext v.text_ne_nil
  | cons c rest =>
      refine ⟨c, rest, rfl, ?_⟩
      intro hc
      exact v.text_noNul (by simp [htext, hc])

theorem envmatch_text {data name : List Byte} {off : Nat} (v : Variable)
    (hname : 0#8 ∉ name) (hequals : equalsSign ∉ name)
    (hread : ReadsAt (dataChar data) off (v.text ++ [0#8])) :
    if v.name = name then
      exists val, envmatch (dataChar data) name off = some (some val)
    else envmatch (dataChar data) name off = some none := by
  have hmatch := envmatch_readsAt name v.text off hname v.text_noNul hread
  rw [Variable.text, matchString_text name v.name v.value v.nameNoEquals,
    nameOf_eq_self hequals] at hmatch
  by_cases hsame : v.name = name
  · simp only [hsame, if_true] at hmatch
    rcases hmatch with ⟨pre, _hpre, hval⟩
    rw [if_pos hsame]
    exact ⟨_, hval⟩
  · have hsame' : ¬ name = v.name := fun h => hsame h.symm
    simp only [if_neg hsame'] at hmatch
    rw [if_neg hsame]
    exact hmatch

theorem searchDefinition_absent {data name : List Byte} {vars : List Variable}
    (fuel off : Nat) (hname : 0#8 ∉ name) (hequals : equalsSign ∉ name)
    (habsent : forall v, v ∈ vars -> v.name ≠ name)
    (hread : ReadsAt (dataChar data) off (encodeVariables vars ++ [0#8]))
    (hbound : off + (encodeVariables vars).length < data.length)
    (hfuel : vars.length < fuel) :
    searchDefinition data name fuel off = some none := by
  induction vars generalizing fuel off with
  | nil =>
      cases fuel with
      | zero =>
          simp at hfuel
      | succ fuel =>
          have hhead : data[off]? = some 0#8 := (readsAt_cons.mp hread).left
          simp [searchDefinition, hhead]
  | cons v vars ih =>
      cases fuel with
      | zero =>
          simp at hfuel
      | succ fuel =>
          rw [encodeVariables_cons, List.append_assoc] at hread
          rw [encodeVariables_cons] at hbound
          simp only [List.length_append, List.length_cons] at hbound hfuel
          rcases readsAt_append.mp hread with ⟨htext, hrest⟩
          rcases v.text_head with ⟨c, rest, htextEq, hc⟩
          have hhead : data[off]? = some c := by
            rw [htextEq] at htext
            exact (readsAt_cons.mp htext).left
          have hscan := scanNul_readsAt (data.length + 1) off v.text_noNul htext
            (by omega)
          have hmatch := envmatch_text v hname hequals htext
          rw [if_neg (habsent v (by simp))] at hmatch
          have hoff : off + (v.text ++ [0#8]).length = off + v.text.length + 1 := by
            simp [Nat.add_assoc]
          rw [hoff] at hrest
          have hnext := ih fuel (off + v.text.length + 1)
            (fun u hu => habsent u (List.mem_cons_of_mem _ hu)) hrest
            (by omega) (by omega)
          simp [searchDefinition, hhead, hc, hscan, hmatch, hnext]

theorem searchDefinition_present {data name : List Byte}
    {front back : List Variable} {v : Variable}
    (fuel off : Nat) (hname : 0#8 ∉ name) (hequals : equalsSign ∉ name)
    (hfront : forall u, u ∈ front -> u.name ≠ name) (hv : v.name = name)
    (hread : ReadsAt (dataChar data) off
      (encodeVariables (front ++ v :: back) ++ [0#8]))
    (hbound : off + (encodeVariables (front ++ v :: back)).length < data.length)
    (hfuel : front.length < fuel) :
    searchDefinition data name fuel off =
      some (some (off + (encodeVariables front).length,
        off + (encodeVariables front).length + v.text.length)) := by
  induction front generalizing fuel off with
  | nil =>
      cases fuel with
      | zero =>
          simp at hfuel
      | succ fuel =>
          rw [List.nil_append, encodeVariables_cons, List.append_assoc] at hread
          rw [List.nil_append, encodeVariables_cons] at hbound
          simp only [List.length_append, List.length_singleton] at hbound
          have htext := (readsAt_append.mp hread).left
          rcases v.text_head with ⟨c, rest, htextEq, hc⟩
          have hhead : data[off]? = some c := by
            rw [htextEq] at htext
            exact (readsAt_cons.mp htext).left
          have hscan := scanNul_readsAt (data.length + 1) off v.text_noNul htext
            (by omega)
          have hmatch := envmatch_text v hname hequals htext
          rw [if_pos hv] at hmatch
          rcases hmatch with ⟨val, hval⟩
          simp [searchDefinition, hhead, hc, hscan, hval, encodeVariables]
  | cons u front ih =>
      cases fuel with
      | zero =>
          simp at hfuel
      | succ fuel =>
          rw [List.cons_append, encodeVariables_cons, List.append_assoc] at hread
          rw [List.cons_append, encodeVariables_cons] at hbound
          simp only [List.length_append, List.length_cons] at hbound hfuel
          rcases readsAt_append.mp hread with ⟨htext, hrest⟩
          rcases u.text_head with ⟨c, rest, htextEq, hc⟩
          have hhead : data[off]? = some c := by
            rw [htextEq] at htext
            exact (readsAt_cons.mp htext).left
          have hscan := scanNul_readsAt (data.length + 1) off u.text_noNul htext
            (by omega)
          have hmatch := envmatch_text u hname hequals htext
          rw [if_neg (hfront u (by simp))] at hmatch
          have hoff : off + (u.text ++ [0#8]).length = off + u.text.length + 1 := by
            simp [Nat.add_assoc]
          rw [hoff] at hrest
          have hnext := ih fuel (off + u.text.length + 1)
            (fun w hw => hfront w (List.mem_cons_of_mem _ hw)) hrest
            (by omega) (by omega)
          have hlen : off + u.text.length + 1 + (encodeVariables front).length =
              off + (encodeVariables (u :: front)).length := by
            rw [encodeVariables_cons]
            simp only [List.length_append, List.length_singleton]
            omega
          rw [hlen] at hnext
          simp [searchDefinition, hhead, hc, hscan, hmatch, hnext]

/-!
# Deleting

The shift loop keeps a gap between the bytes already moved and the bytes still
to be read.  Its length does not change; what stands in it is stale.
-/

theorem shiftDown_copy (left gap body rest : List Byte) (fuel : Nat)
    (hgap : gap ≠ []) (hbody : NoDoubleNul body rest) (hrest : rest ≠ []) :
    exists gap' : List Byte, gap'.length = gap.length ∧
      shiftDown (fuel + body.length) (left ++ gap ++ body ++ rest) left.length
          (left.length + gap.length) =
        shiftDown fuel (left ++ body ++ gap' ++ rest) (left.length + body.length)
          (left.length + body.length + gap.length) := by
  induction body generalizing left gap with
  | nil =>
      exact ⟨gap, rfl, by simp⟩
  | cons c body ih =>
      cases gap with
      | nil =>
          exact absurd rfl hgap
      | cons g gap =>
          rcases hbody with ⟨hstop, hbody⟩
          have hget :
              (left ++ g :: gap ++ c :: body ++ rest)[left.length +
                (g :: gap).length]? = some c := by
            rw [List.append_assoc, List.getElem?_append_right (by simp)]
            simp
          have hstore :
              store (left ++ g :: gap ++ c :: body ++ rest) left.length c =
                some ((left ++ [c]) ++ (gap ++ [c]) ++ body ++ rest) := by
            have hmid := store_middle left (gap ++ c :: body ++ rest) g c
            simpa using hmid
          have hlook :
              ((left ++ [c]) ++ (gap ++ [c]) ++ body ++ rest)[left.length +
                (g :: gap).length + 1]? = (body ++ rest)[0]? := by
            have hlength : (left ++ [c] ++ (gap ++ [c])).length =
                left.length + (g :: gap).length + 1 := by
              simp only [List.length_append, List.length_cons, List.length_nil]
              omega
            rw [List.append_assoc, List.getElem?_append_right (le_of_eq hlength), hlength,
              Nat.sub_self]
          have hne : body ++ rest ≠ [] := by simp [hrest]
          have hstep :
              shiftDown (fuel + (c :: body).length)
                  (left ++ g :: gap ++ c :: body ++ rest) left.length
                  (left.length + (g :: gap).length) =
                shiftDown (fuel + body.length)
                  ((left ++ [c]) ++ (gap ++ [c]) ++ body ++ rest)
                  (left.length + 1) (left.length + (g :: gap).length + 1) := by
            rw [List.length_cons, ← Nat.add_assoc fuel body.length 1, shiftDown]
            simp only [hget, hstore]
            by_cases hc : c = 0#8
            · rw [if_pos hc, hlook]
              cases hnext : body ++ rest with
              | nil =>
                  exact absurd hnext hne
              | cons d tail =>
                  have hd : d ≠ 0#8 := by
                    intro hd
                    exact hstop ⟨hc, by simp [hnext, hd]⟩
                  simp [hd]
            · rw [if_neg hc]
          rcases ih (left ++ [c]) (gap ++ [c]) (by simp) hbody with
            ⟨gap', hlen, hrun⟩
          refine ⟨gap', by simpa using hlen, ?_⟩
          rw [hstep]
          have hidx1 : (left ++ [c]).length = left.length + 1 := by simp
          have hidx2 : (left ++ [c]).length + (gap ++ [c]).length =
              left.length + (g :: gap).length + 1 := by
            simp only [List.length_append, List.length_cons, List.length_nil]
            omega
          rw [hidx1, ← hidx1, hidx2] at hrun
          rw [← hidx1, hrun]
          congr 1
          · simp
          · simp
            omega
          · simp
            omega

theorem shiftDown_table (left gap body stale : List Byte) (fuel : Nat)
    (hgap : gap ≠ []) (hbody : NoDoubleNul body (0#8 :: 0#8 :: stale))
    (hfuel : body.length < fuel) :
    exists stale' : List Byte, stale'.length = gap.length + stale.length + 1 ∧
      shiftDown fuel (left ++ gap ++ body ++ 0#8 :: 0#8 :: stale) left.length
          (left.length + gap.length) =
        some (left ++ body ++ 0#8 :: stale', left.length + body.length) := by
  rcases Nat.exists_eq_add_of_lt hfuel with ⟨extra, hextra⟩
  rcases shiftDown_copy left gap body (0#8 :: 0#8 :: stale) (extra + 1) hgap hbody
    (by simp) with ⟨gap', hlen, hrun⟩
  have hgap' : gap' ≠ [] := by
    intro h
    rw [h] at hlen
    exact hgap (List.length_eq_zero_iff.mp hlen.symm)
  cases gap' with
  | nil =>
      exact absurd rfl hgap'
  | cons g gap' =>
      have hfuelEq : fuel = extra + 1 + body.length := by omega
      have hget :
          (left ++ body ++ g :: gap' ++ 0#8 :: 0#8 :: stale)[left.length +
            body.length + gap.length]? = some 0#8 := by
        rw [List.getElem?_append_right (by simp at hlen ⊢; omega)]
        have hidx : left.length + body.length + gap.length -
            (left ++ body ++ g :: gap').length = 0 := by
          simp at hlen ⊢
          omega
        rw [hidx]
        rfl
      have hstore :
          store (left ++ body ++ g :: gap' ++ 0#8 :: 0#8 :: stale)
              (left.length + body.length) 0#8 =
            some ((left ++ body ++ [0#8]) ++ (gap' ++ [0#8]) ++ 0#8 :: stale) := by
        have hmid := store_middle (left ++ body) (gap' ++ 0#8 :: 0#8 :: stale) g 0#8
        simpa using hmid
      have hlook :
          ((left ++ body ++ [0#8]) ++ (gap' ++ [0#8]) ++ 0#8 :: stale)[left.length +
            body.length + gap.length + 1]? = some 0#8 := by
        rw [List.getElem?_append_right (by simp at hlen ⊢; omega)]
        have hidx : left.length + body.length + gap.length + 1 -
            (left ++ body ++ [0#8] ++ (gap' ++ [0#8])).length = 0 := by
          simp at hlen ⊢
          omega
        rw [hidx]
        rfl
      refine ⟨gap' ++ [0#8] ++ 0#8 :: stale, by simp at hlen ⊢; omega, ?_⟩
      rw [hfuelEq, hrun, shiftDown]
      simp only [hget, hstore, hlook, if_true]
      simp

theorem shiftDown_length {fuel : Nat} {data data' : List Byte} {env nxt env' : Nat}
    (h : shiftDown fuel data env nxt = some (data', env')) :
    data'.length = data.length := by
  induction fuel generalizing data env nxt with
  | zero =>
      simp [shiftDown] at h
  | succ fuel ih =>
      rw [shiftDown] at h
      cases hget : data[nxt]? with
      | none =>
          simp [hget] at h
      | some c =>
          cases hstore : store data env c with
          | none =>
              simp [hget, hstore] at h
          | some moved =>
              have hmoved := store_length hstore
              simp only [hget, hstore] at h
              split at h
              · cases hlook : moved[nxt + 1]? with
                | none =>
                    simp [hlook] at h
                | some d =>
                    simp only [hlook] at h
                    split at h
                    · cases h
                      exact hmoved
                    · rw [ih h, hmoved]
              · rw [ih h, hmoved]

theorem deleteDefinition_length {data data' : List Byte} {env nxt : Nat}
    (h : deleteDefinition data env nxt = some data') :
    data'.length = data.length := by
  unfold deleteDefinition at h
  cases hget : data[nxt + 1]? with
  | none =>
      simp [hget] at h
  | some c =>
      simp only [hget] at h
      split at h
      · split at h
        · exact store_length h
        · rcases Option.bind_eq_some_iff.mp h with ⟨first, hfirst, hsecond⟩
          rw [store_length hsecond, store_length hfirst]
      · cases hshift : shiftDown (data.length + 1) data env (nxt + 1) with
        | none =>
            simp [hshift] at h
        | some moved =>
            rcases moved with ⟨moved, env'⟩
            simp only [hshift] at h
            rw [store_length h, shiftDown_length hshift]

theorem deleteDefinition_layout (front back : List Variable) (v : Variable)
    (stale : List Byte) :
    exists stale' : List Byte,
      deleteDefinition
          (encodeVariables (front ++ v :: back) ++ tableEnd (front ++ v :: back) ++
            stale)
          (encodeVariables front).length
          ((encodeVariables front).length + v.text.length) =
        some (encodeVariables (front ++ back) ++ tableEnd (front ++ back) ++
          stale') := by
  have hend : tableEnd (front ++ v :: back) = [0#8] := by
    simp [tableEnd]
  by_cases hback : back = []
  · subst back
    have hdata : encodeVariables (front ++ [v]) ++ tableEnd (front ++ [v]) ++ stale =
        encodeVariables front ++ (v.text ++ 0#8 :: 0#8 :: stale) := by
      rw [hend, encodeVariables_append, encodeVariables_cons]
      simp [encodeVariables]
    have hlook :
        (encodeVariables front ++ (v.text ++ 0#8 :: 0#8 :: stale))[(encodeVariables
          front).length + v.text.length + 1]? = some 0#8 := by
      rw [List.getElem?_append_right (by omega),
        List.getElem?_append_right (by omega)]
      have hidx : (encodeVariables front).length + v.text.length + 1 -
          (encodeVariables front).length - v.text.length = 1 := by omega
      rw [hidx]
      rfl
    rcases v.text_head with ⟨c, rest, htext, _hc⟩
    rw [hdata, List.append_nil]
    unfold deleteDefinition
    simp only [hlook, if_true]
    by_cases hfront : front = []
    · subst front
      cases rest with
      | nil =>
          refine ⟨0#8 :: stale, ?_⟩
          simp [encodeVariables, htext, store, tableEnd]
      | cons d rest =>
          refine ⟨rest ++ 0#8 :: 0#8 :: stale, ?_⟩
          simp [encodeVariables, htext, store, tableEnd]
    · have hpos : 0 < (encodeVariables front).length := by
        apply List.length_pos_of_ne_nil
        exact encodeStrings_ne_nil (by simpa using hfront)
      rw [if_pos hpos, htext, List.cons_append, store_middle]
      exact ⟨rest ++ 0#8 :: 0#8 :: stale, by simp [tableEnd, hfront]⟩
  · have hstrs := tableStrings_text back
    rcases encodeStrings_eq_body_nul hstrs (by simpa using hback) with
      ⟨body, hbodyEq, hbodyNe, hbody⟩
    have hback' : encodeVariables back = body ++ [0#8] := hbodyEq
    have hdata : encodeVariables (front ++ v :: back) ++
          tableEnd (front ++ v :: back) ++ stale =
        encodeVariables front ++ (v.text ++ [0#8]) ++ body ++
          0#8 :: 0#8 :: stale := by
      rw [hend, encodeVariables_append, encodeVariables_cons, hback']
      simp
    have hhead : (body ++ 0#8 :: 0#8 :: stale)[0]? ≠ some 0#8 := by
      have h := encodeStrings_head_ne_nul hstrs (by simpa using hback)
        (0#8 :: stale)
      rw [hbodyEq] at h
      simpa [List.head?_eq_getElem?] using h
    have hlook : forall c,
        (encodeVariables front ++ (v.text ++ [0#8]) ++ body ++
          0#8 :: 0#8 :: stale)[(encodeVariables front).length +
            v.text.length + 1]? = some c -> c ≠ 0#8 := by
      intro c hc hzero
      rw [List.append_assoc, List.append_assoc,
        List.getElem?_append_right (by omega), List.getElem?_append_right
          (by simp; omega)] at hc
      have hidx : (encodeVariables front).length + v.text.length + 1 -
          (encodeVariables front).length - (v.text ++ [0#8]).length = 0 := by
        simp
        omega
      rw [hidx, hzero] at hc
      exact hhead hc
    have hsome : exists c,
        (encodeVariables front ++ (v.text ++ [0#8]) ++ body ++
          0#8 :: 0#8 :: stale)[(encodeVariables front).length +
            v.text.length + 1]? = some c := by
      refine ⟨_, List.getElem?_eq_getElem ?_⟩
      simp
      omega
    rcases hsome with ⟨c, hc⟩
    have hcne := hlook c hc
    rcases shiftDown_table (encodeVariables front) (v.text ++ [0#8]) body stale
      ((encodeVariables front ++ (v.text ++ [0#8]) ++ body ++
          0#8 :: 0#8 :: stale).length + 1) (by simp) (hbody _)
      (by simp; omega) with ⟨stale', hlen, hrun⟩
    have hnxt : (encodeVariables front).length + (v.text ++ [0#8]).length =
        (encodeVariables front).length + v.text.length + 1 := by
      simp [Nat.add_assoc]
    rw [hnxt] at hrun
    have hback'' : front ++ back ≠ [] := by simp [hback]
    cases stale' with
    | nil =>
        simp at hlen
    | cons d stale' =>
        refine ⟨stale', ?_⟩
        rw [hdata]
        unfold deleteDefinition
        simp only [hc, if_neg hcne, hrun]
        have hmid := store_middle (encodeVariables front ++ body ++ [0#8]) stale' d
          0#8
        have hidx : (encodeVariables front ++ body ++ [0#8]).length =
            (encodeVariables front).length + body.length + 1 := by
          simp [Nat.add_assoc]
        rw [hidx] at hmid
        have hshape : encodeVariables front ++ body ++ 0#8 :: d :: stale' =
            encodeVariables front ++ body ++ [0#8] ++ d :: stale' := by simp
        rw [hshape, hmid, encodeVariables_append, hback', tableEnd,
          if_neg hback'']
        simp

end Environment
end Bab750

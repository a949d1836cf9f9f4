import Bab750.Environment.EarlyLookup

/-!
# Lookup in any data area

The lookup functions over a data area with any contents, and a name that lies in memory with
something behind its NUL. They stay inside the area just when its strings are terminated as
far as the search gets.
-/

namespace Bab750
namespace Environment

open Foundation

/-!
# The functions with the memory behind the name
-/

/-- `envmatch` from the character `k` of the name on, which may lie behind its NUL. -/
def envmatchAt (get : Nat -> Option Byte) (s1 : Nat -> Byte) :
    Nat -> Nat -> Nat -> Option (Option Nat)
  | 0, _, _ => none
  | fuel + 1, k, i2 =>
      match get i2 with
      | none => none
      | some c =>
          if s1 k = c then
            if s1 k = equalsSign then some (some (i2 + 1))
            else envmatchAt get s1 fuel (k + 1) (i2 + 1)
          else if s1 k = 0#8 ∧ c = equalsSign then some (some (i2 + 1))
          else some none

/-- The outer loop of `getenv` and `getenv_f`. -/
def findValueAt (get : Nat -> Option Byte) (s1 : Nat -> Byte) :
    Nat -> Nat -> Option (Option Nat)
  | 0, _ => none
  | fuel + 1, i =>
      match get i with
      | none => none
      | some c =>
          if c = 0#8 then some none
          else
            match entryEnd get (fuel + 1) i with
            | none => none
            | some none => some none
            | some (some nxt) =>
                match envmatchAt get s1 (fuel + 1) 0 i with
                | none => none
                | some (some val) => some (some val)
                | some none => findValueAt get s1 fuel (nxt + 1)

def getenvAt (get : Nat -> Option Byte) (s1 : Nat -> Byte) (fuel : Nat) :
    Option (Option Nat) := findValueAt get s1 fuel 0

def getenvFAt (get : Nat -> Option Byte) (s1 : Nat -> Byte) (fuel len : Nat) :
    Option GetenvFResult :=
  match findValueAt get s1 fuel 0 with
  | none => none
  | some none => some { ret := -1, buf := [], output := [] }
  | some (some val) => (copyOut get len val).map (finishCopy len)

def nameMemory (name : CString) (behind : Nat -> Byte) (k : Nat) : Byte :=
  if k < name.bytes.length then name.bytes.getD k 0#8
  else if k = name.bytes.length then 0#8
  else behind k

/-!
# What is promised, and when it holds
-/

/--
Both functions come to an end and read no index outside the data area, and `getenv_f` keeps
to the buffer and terminates it.
-/
structure LookupSafe (data : List Byte) (s1 : Nat -> Byte) : Prop where
  getenv : exists fuel result, getenvAt (dataChar data) s1 fuel = some result
  getenvF : forall len, exists fuel result,
    getenvFAt (dataChar data) s1 fuel len = some result ∧ result.buf.length <= len ∧
      (result.ret ≠ -1 -> 0 < len -> result.buf.getLast? = some 0#8)

/-- The compare of the name with the data from an index on ends at the character `k`. -/
structure CompareEnds (data : List Byte) (s1 : Nat -> Byte) (i k : Nat) : Prop where
  same : forall j, j < k -> data[i + j]? = some (s1 j) ∧ s1 j ≠ equalsSign
  ends : exists c, data[i + k]? = some c ∧ (s1 k = c -> c = equalsSign)

def Hit (data : List Byte) (s1 : Nat -> Byte) (i k : Nat) : Prop :=
  data[i + k]? = some equalsSign ∧ (s1 k = equalsSign ∨ s1 k = 0#8)

instance (data : List Byte) (s1 : Nat -> Byte) (i k : Nat) : Decidable (Hit data s1 i k) :=
  inferInstanceAs (Decidable (_ ∧ _))

/--
The strings of the data area from an index on are terminated in it, and so are the compares
with them, up to an empty string or to one that matches, whose value is terminated, too.
-/
def Terminated (data : List Byte) (s1 : Nat -> Byte) : List (List Byte) -> Nat -> Prop
  | [], i => data[i]? = some 0#8
  | text :: strs, i =>
      text ≠ [] ∧ 0#8 ∉ text ∧ ReadsAt (dataChar data) i (text ++ [0#8]) ∧
        exists k, CompareEnds data s1 i k ∧
          ((Hit data s1 i k ∧ 0#8 ∈ data.drop (i + k + 1)) ∨
            (¬ Hit data s1 i k ∧ Terminated data s1 strs (i + text.length + 1)))

/-!
# One compare
-/

section Compare

variable {data : List Byte} {s1 : Nat -> Byte}

theorem envmatchAt_ends {i : Nat} (fuel : Nat) :
    forall k (result : Option Nat),
      envmatchAt (dataChar data) s1 fuel k (i + k) = some result ->
      (forall j, j < k -> data[i + j]? = some (s1 j) ∧ s1 j ≠ equalsSign) ->
      exists k', CompareEnds data s1 i k' ∧
        ((Hit data s1 i k' ∧ result = some (i + k' + 1)) ∨
          (¬ Hit data s1 i k' ∧ result = none)) := by
  induction fuel with
  | zero =>
      intro k result h
      cases h
  | succ fuel ih =>
      intro k result h hsame
      rw [envmatchAt] at h
      cases hget : dataChar data (i + k) with
      | none =>
          rw [hget] at h
          cases h
      | some c =>
          rw [hget] at h
          dsimp only at h
          have hdata : data[i + k]? = some c := hget
          split at h
          case isTrue hc =>
              split at h
              case isTrue hequals =>
                  cases h
                  have hce : c = equalsSign := hc.symm.trans hequals
                  have hhit : Hit data s1 i k := ⟨by rw [hdata, hce], Or.inl hequals⟩
                  exact ⟨k, ⟨hsame, c, hdata, fun _ => hce⟩, Or.inl ⟨hhit, rfl⟩⟩
              case isFalse hequals =>
                  apply ih (k + 1) result h
                  intro j hj
                  by_cases hlast : j = k
                  · subst hlast
                    exact ⟨by rw [hdata, hc], hequals⟩
                  · exact hsame j (by omega)
          case isFalse hc =>
              have hends : CompareEnds data s1 i k :=
                ⟨hsame, c, hdata, fun heq => absurd heq hc⟩
              split at h
              case isTrue hhit =>
                  cases h
                  exact ⟨k, hends, Or.inl ⟨⟨by rw [hdata, hhit.2], Or.inr hhit.1⟩, rfl⟩⟩
              case isFalse hhit =>
                  cases h
                  refine ⟨k, hends, Or.inr ⟨?_, rfl⟩⟩
                  rintro ⟨hequals, hname⟩
                  rw [hdata, Option.some.injEq] at hequals
                  rcases hname with hname | hname
                  · exact hc (hname.trans hequals.symm)
                  · exact hhit ⟨hname, hequals⟩

theorem envmatchAt_runs {i k : Nat} (h : CompareEnds data s1 i k) (fuel : Nat) :
    forall j, j <= k -> k < j + fuel ->
      envmatchAt (dataChar data) s1 fuel j (i + j) =
        some (if Hit data s1 i k then some (i + k + 1) else none) := by
  induction fuel with
  | zero =>
      intro j hle hlt
      omega
  | succ fuel ih =>
      intro j hle hlt
      rw [envmatchAt]
      by_cases hlast : j = k
      · subst hlast
        rcases h.ends with ⟨c, hdata, hends⟩
        have hget : dataChar data (i + j) = some c := hdata
        rw [hget]
        dsimp only
        have hhit : Hit data s1 i j <-> c = equalsSign ∧ (s1 j = equalsSign ∨ s1 j = 0#8) := by
          rw [Hit, hdata, Option.some.injEq]
        simp only [hhit]
        by_cases hc : s1 j = c
        · have hce := hends hc
          subst hce
          rw [if_pos hc, if_pos hc, if_pos ⟨rfl, Or.inl hc⟩]
        · rw [if_neg hc]
          by_cases hce : c = equalsSign
          · subst hce
            by_cases hnul : s1 j = 0#8
            · rw [if_pos ⟨hnul, rfl⟩, if_pos ⟨rfl, Or.inr hnul⟩]
            · rw [if_neg (fun hand => hnul hand.1), if_neg]
              rintro ⟨_, hname | hname⟩
              · exact hc hname
              · exact hnul hname
          · rw [if_neg (fun hand => hce hand.2), if_neg (fun hand => hce hand.1)]
      · rcases h.same j (by omega) with ⟨hdata, hequals⟩
        have hget : dataChar data (i + j) = some (s1 j) := hdata
        rw [hget]
        dsimp only
        rw [if_pos rfl, if_neg hequals]
        exact ih (j + 1) (by omega) (by omega)

end Compare

/-!
# Terminators
-/

theorem exists_string {data : List Byte} {i : Nat} (h : 0#8 ∈ data.drop i) :
    exists text, 0#8 ∉ text ∧ ReadsAt (dataChar data) i (text ++ [0#8]) := by
  rcases List.eq_append_cons_of_mem h with ⟨text, rest, hsplit, hnul⟩
  refine ⟨text, hnul, fun j hj => ?_⟩
  have hindex : (data.drop i)[j]? = (text ++ [0#8])[j]? := by
    rw [hsplit, show text ++ 0#8 :: rest = (text ++ [0#8]) ++ rest by simp,
      List.getElem?_append_left hj]
  rw [List.getElem?_drop] at hindex
  exact hindex

theorem readsAt_length {data : List Byte} {i : Nat} {text : List Byte}
    (h : ReadsAt (dataChar data) i (text ++ [0#8])) : i + text.length < data.length := by
  have hlast := h text.length (by simp)
  rw [List.getElem?_append_right (Nat.le_refl _), Nat.sub_self] at hlast
  exact (List.getElem?_eq_some_iff.mp hlast).1

/-- The scan for the end of a string in a data area finds its NUL, or does not come to an end. -/
theorem entryEnd_found {data : List Byte} (hsize : data.length <= configEnvSize) (fuel : Nat) :
    forall i result, entryEnd (dataChar data) fuel i = some result ->
      exists text, 0#8 ∉ text ∧ ReadsAt (dataChar data) i (text ++ [0#8]) ∧
        result = some (i + text.length) := by
  induction fuel with
  | zero =>
      intro i result h
      cases h
  | succ fuel ih =>
      intro i result h
      rw [entryEnd] at h
      cases hget : dataChar data i with
      | none =>
          rw [hget] at h
          cases h
      | some c =>
          rw [hget] at h
          dsimp only at h
          have hlt : i < data.length := (List.getElem?_eq_some_iff.mp hget).1
          split at h
          case isTrue hc =>
              cases h
              refine ⟨[], by simp, readsAt_cons.mpr ⟨by rw [hget, hc], ?_⟩, rfl⟩
              intro j hj
              exact absurd hj (Nat.not_lt_zero j)
          case isFalse hc =>
              rw [if_neg (by omega)] at h
              rcases ih (i + 1) result h with ⟨text, hnul, hread, rfl⟩
              refine ⟨c :: text, ?_, readsAt_cons.mpr ⟨hget, hread⟩, ?_⟩
              · intro hmem
                rcases List.mem_cons.mp hmem with hfirst | hrest
                · exact hc hfirst.symm
                · exact hnul hrest
              · rw [List.length_cons]
                congr 1
                omega

theorem copyOut_reaches {data : List Byte} (room : Nat) :
    forall val copied, 0 < room -> data.length < val + room ->
      copyOut (dataChar data) room val = some copied -> 0#8 ∈ data.drop val := by
  induction room with
  | zero =>
      intro val copied hroom
      exact absurd hroom (Nat.lt_irrefl 0)
  | succ room ih =>
      intro val copied _ hlength h
      rw [copyOut] at h
      cases hget : dataChar data val with
      | none =>
          rw [hget] at h
          cases h
      | some c =>
          rw [hget] at h
          dsimp only at h
          have hlt : val < data.length := (List.getElem?_eq_some_iff.mp hget).1
          have hdata : data[val] = c := (List.getElem?_eq_some_iff.mp hget).2
          rw [List.drop_eq_getElem_cons hlt, hdata]
          split at h
          case isTrue hc =>
              rw [hc]
              exact List.mem_cons_self
          case isFalse =>
              rcases Option.map_eq_some_iff.mp h with ⟨rest, hrest, _⟩
              exact List.mem_cons_of_mem _ (ih (val + 1) rest (by omega) (by omega) hrest)

/-!
# The search
-/

section Search

variable {data : List Byte} {s1 : Nat -> Byte}

theorem findValueAt_terminated (hsize : data.length <= configEnvSize) (fuel : Nat) :
    forall i result, findValueAt (dataChar data) s1 fuel i = some result ->
      (forall val, result = some val -> 0#8 ∈ data.drop val) ->
      exists strs, Terminated data s1 strs i := by
  induction fuel with
  | zero =>
      intro i result h
      cases h
  | succ fuel ih =>
      intro i result h hvalue
      rw [findValueAt] at h
      cases hget : dataChar data i with
      | none =>
          rw [hget] at h
          cases h
      | some c =>
          rw [hget] at h
          dsimp only at h
          split at h
          case isTrue hc =>
              refine ⟨[], ?_⟩
              show data[i]? = some 0#8
              rw [show data[i]? = some c from hget, hc]
          case isFalse hc =>
              cases hend : entryEnd (dataChar data) (fuel + 1) i with
              | none =>
                  rw [hend] at h
                  cases h
              | some nxt =>
                  rcases entryEnd_found hsize (fuel + 1) i nxt hend with
                    ⟨text, hnul, hread, rfl⟩
                  rw [hend] at h
                  dsimp only at h
                  have hne : text ≠ [] := by
                    intro hnil
                    subst hnil
                    rw [(readsAt_cons.mp hread).1, Option.some.injEq] at hget
                    exact hc hget.symm
                  cases hmatch : envmatchAt (dataChar data) s1 (fuel + 1) 0 i with
                  | none =>
                      rw [hmatch] at h
                      cases h
                  | some found =>
                      rcases envmatchAt_ends (fuel + 1) 0 found hmatch
                        (fun j hj => absurd hj (Nat.not_lt_zero j)) with ⟨k, hends, hcase⟩
                      rw [hmatch] at h
                      rcases hcase with ⟨hhit, rfl⟩ | ⟨hmiss, rfl⟩
                      · cases h
                        exact ⟨[text], hne, hnul, hread, k, hends,
                          Or.inl ⟨hhit, hvalue _ rfl⟩⟩
                      · rcases ih _ result h hvalue with ⟨strs, hstrs⟩
                        exact ⟨text :: strs, hne, hnul, hread, k, hends,
                          Or.inr ⟨hmiss, hstrs⟩⟩

theorem terminated_findValueAt (hsize : data.length <= configEnvSize) (strs : List (List Byte)) :
    forall i, Terminated data s1 strs i ->
      exists result, (forall fuel, data.length + strs.length < fuel ->
        findValueAt (dataChar data) s1 fuel i = some result) ∧
          forall val, result = some val -> 0#8 ∈ data.drop val := by
  induction strs with
  | nil =>
      intro i h
      refine ⟨none, fun fuel hfuel => ?_, fun val hval => by cases hval⟩
      cases fuel with
      | zero =>
          exact absurd hfuel (Nat.not_lt_zero _)
      | succ fuel =>
          rw [findValueAt, show dataChar data i = some 0#8 from h]
          rfl
  | cons text strs ih =>
      intro i h
      rcases h with ⟨hne, hnul, hread, k, hends, hcase⟩
      have hbound := readsAt_length hread
      have hcompare : i + k < data.length := by
        rcases hends.ends with ⟨c, hdata, _⟩
        exact (List.getElem?_eq_some_iff.mp hdata).1
      have hhead : exists c, dataChar data i = some c ∧ c ≠ 0#8 := by
        cases text with
        | nil =>
            exact absurd rfl hne
        | cons c text =>
            refine ⟨c, (readsAt_cons.mp hread).1, fun hc => ?_⟩
            exact hnul (by rw [hc]; exact List.mem_cons_self)
      rcases hhead with ⟨c, hget, hc⟩
      have hstep : forall fuel, data.length < fuel + 1 ->
          findValueAt (dataChar data) s1 (fuel + 1) i =
            if Hit data s1 i k then some (some (i + k + 1))
            else findValueAt (dataChar data) s1 fuel (i + text.length + 1) := by
        intro fuel hfuel
        have hend := entryEnd_readsAt (fuel + 1) i hnul hread (by omega) (by omega)
        have hmatch : envmatchAt (dataChar data) s1 (fuel + 1) 0 i =
            some (if Hit data s1 i k then some (i + k + 1) else none) :=
          envmatchAt_runs hends (fuel + 1) 0 (Nat.zero_le k) (by omega)
        rw [findValueAt, hget]
        dsimp only
        rw [if_neg hc, hend]
        dsimp only
        rw [hmatch]
        by_cases hhit : Hit data s1 i k
        · rw [if_pos hhit, if_pos hhit]
        · rw [if_neg hhit, if_neg hhit]
      rcases hcase with ⟨hhit, hvalue⟩ | ⟨hmiss, hrest⟩
      · refine ⟨some (i + k + 1), fun fuel hfuel => ?_, fun val hval => ?_⟩
        · cases fuel with
          | zero =>
              exact absurd hfuel (Nat.not_lt_zero _)
          | succ fuel =>
              rw [hstep fuel (by omega), if_pos hhit]
        · cases hval
          exact hvalue
      · rcases ih _ hrest with ⟨result, hresult, hvalue⟩
        refine ⟨result, fun fuel hfuel => ?_, hvalue⟩
        cases fuel with
        | zero =>
            exact absurd hfuel (Nat.not_lt_zero _)
        | succ fuel =>
            rw [List.length_cons] at hfuel
            rw [hstep fuel (by omega), if_neg hmiss]
            exact hresult fuel (by omega)

end Search

/-!
# Both functions
-/

theorem finishCopy_buf (value : List Byte) (len : Nat) :
    let result := finishCopy len
      (if value.length < len then (value ++ [0#8], true) else (value.take len, false))
    result.buf.length <= len ∧ (0 < len -> result.buf.getLast? = some 0#8) := by
  by_cases hlt : value.length < len
  · rw [if_pos hlt]
    refine ⟨?_, fun _ => List.getLast?_concat⟩
    show (value ++ [0#8]).length <= len
    rw [List.length_append, List.length_singleton]
    omega
  · rw [if_neg hlt]
    by_cases hzero : len = 0
    · subst hzero
      exact ⟨by simp [finishCopy], fun h => absurd h (Nat.lt_irrefl 0)⟩
    · have hbuf : (finishCopy len (value.take len, false)).buf =
          (value.take len).dropLast ++ [0#8] := if_neg hzero
      dsimp only
      rw [hbuf]
      refine ⟨?_, fun _ => List.getLast?_concat⟩
      rw [List.length_append, List.length_dropLast, List.length_take, List.length_singleton]
      omega

section Functions

variable {data : List Byte} {s1 : Nat -> Byte}

theorem LookupSafe.terminated (hsize : data.length <= configEnvSize) (h : LookupSafe data s1) :
    exists strs, Terminated data s1 strs 0 := by
  rcases h.getenvF (data.length + 1) with ⟨fuel, result, hresult, _⟩
  unfold getenvFAt at hresult
  cases hfind : findValueAt (dataChar data) s1 fuel 0 with
  | none =>
      rw [hfind] at hresult
      cases hresult
  | some found =>
      apply findValueAt_terminated hsize fuel 0 found hfind
      intro val hval
      subst hval
      rw [hfind] at hresult
      rcases Option.map_eq_some_iff.mp hresult with ⟨copied, hcopied, _⟩
      exact copyOut_reaches _ val copied (Nat.succ_pos _) (by omega) hcopied

theorem lookupSafe_of_terminated (hsize : data.length <= configEnvSize)
    {strs : List (List Byte)} (h : Terminated data s1 strs 0) : LookupSafe data s1 := by
  rcases terminated_findValueAt hsize strs 0 h with ⟨found, hfound, hvalue⟩
  have hfind := hfound (data.length + strs.length + 1) (by omega)
  refine ⟨⟨_, found, hfind⟩, fun len => ⟨data.length + strs.length + 1, ?_⟩⟩
  unfold getenvFAt
  rw [hfind]
  cases found with
  | none =>
      exact ⟨_, rfl, Nat.zero_le len, fun h => absurd rfl h⟩
  | some val =>
      rcases exists_string (hvalue val rfl) with ⟨value, hnul, hread⟩
      dsimp only
      rw [copyOut_readsAt len val hnul hread, Option.map_some]
      have hbuf := finishCopy_buf value len
      exact ⟨_, rfl, hbuf.1, fun _ => hbuf.2⟩

/-- The functions are safe just when the data area is terminated as far as the search gets. -/
theorem lookup_safe_iff (hsize : data.length = envSize) (name : CString)
    (behind : Nat -> Byte) :
    LookupSafe data (nameMemory name behind) <->
      exists strs, Terminated data (nameMemory name behind) strs 0 := by
  have hle : data.length <= configEnvSize := by
    rw [hsize]
    decide
  exact ⟨fun h => h.terminated hle, fun ⟨_, h⟩ => lookupSafe_of_terminated hle h⟩

end Functions

/-- A data area without a variable. -/
theorem lookup_safe_iff_empty :
    LookupSafe (List.replicate envSize 0#8)
      (nameMemory ⟨ascii "bootargs", by decide⟩ (fun _ => 0xff#8)) := by
  refine (lookup_safe_iff (List.length_replicate ..) _ _).mpr ⟨[], ?_⟩
  rfl

/-- A data area without a NUL is left by the search. -/
theorem lookup_unsafe_full :
    (List.replicate envSize 0x78#8).length = envSize ∧
      ¬ LookupSafe (List.replicate envSize 0x78#8)
        (nameMemory ⟨ascii "bootargs", by decide⟩ (fun _ => 0xff#8)) := by
  have hsize : (List.replicate envSize 0x78#8).length = envSize := List.length_replicate ..
  refine ⟨hsize, fun h => ?_⟩
  rcases (lookup_safe_iff hsize _ _).mp h with ⟨strs, hstrs⟩
  have hnone : forall i : Nat, (List.replicate envSize 0x78#8)[i]? ≠ some 0#8 := by
    intro i hi
    have hmem := List.mem_of_getElem? hi
    exact absurd (List.eq_of_mem_replicate hmem) (by decide)
  cases strs with
  | nil =>
      exact hnone 0 hstrs
  | cons text strs =>
      have hlast := hstrs.2.2.1 text.length (by simp)
      rw [List.getElem?_append_right (Nat.le_refl _), Nat.sub_self] at hlast
      exact hnone _ hlast

/-!
# The functions of a name alone

Where the search gets by without the memory behind the name, both models answer the same.
-/

section Refinement

variable {get : Nat -> Option Byte} {name : CString} (behind : Nat -> Byte)

theorem nameMemory_get {k : Nat} {c : Byte} {rest : List Byte}
    (h : name.bytes.drop k = c :: rest) : nameMemory name behind k = c := by
  have hlt : k < name.bytes.length := by
    by_contra hge
    rw [List.drop_eq_nil_of_le (by omega)] at h
    cases h
  have hget := congrArg (fun l => l[0]?) h
  simp only [List.getElem?_drop, Nat.add_zero, List.getElem?_cons_zero] at hget
  rw [nameMemory, if_pos hlt, List.getD_eq_getElem?_getD, hget]
  rfl

theorem envmatchAt_of_envmatch (rest : List Byte) :
    forall k i2 fuel result, k <= name.bytes.length -> name.bytes.drop k = rest ->
      rest.length < fuel ->
      envmatch get rest i2 = some result ->
        envmatchAt get (nameMemory name behind) fuel k i2 = some result := by
  induction rest with
  | nil =>
      intro k i2 fuel result hk hdrop hfuel h
      have hlength : k = name.bytes.length := by
        have hle := List.drop_eq_nil_iff.mp hdrop
        omega
      have hnul : nameMemory name behind k = 0#8 := by
        rw [nameMemory, if_neg (by omega), if_pos hlength]
      cases fuel with
      | zero =>
          exact absurd hfuel (Nat.not_lt_zero _)
      | succ fuel =>
          rw [envmatch] at h
          rw [envmatchAt]
          cases hget : get i2 with
          | none =>
              rw [hget] at h
              cases h
          | some c =>
              rw [hget] at h
              dsimp only at h ⊢
              by_cases hc : c = 0#8
              · rw [if_pos hc] at h
                cases h
              · rw [if_neg hc] at h
                rw [hnul, if_neg (fun heq => hc heq.symm)]
                by_cases he : c = equalsSign
                · rw [if_pos he] at h
                  rw [if_pos ⟨rfl, he⟩]
                  exact h
                · rw [if_neg he] at h
                  rw [if_neg (fun hand => he hand.2)]
                  exact h
  | cons c1 rest ih =>
      intro k i2 fuel result hk hdrop hfuel h
      have hc1 := nameMemory_get behind hdrop
      have hne : c1 ≠ 0#8 := by
        intro hzero
        apply name.noNul
        rw [← hzero]
        exact List.mem_of_mem_drop (by rw [hdrop]; exact List.mem_cons_self)
      have hnext : name.bytes.drop (k + 1) = rest := by
        rw [← List.drop_drop, hdrop]
        rfl
      cases fuel with
      | zero =>
          exact absurd hfuel (Nat.not_lt_zero _)
      | succ fuel =>
          rw [envmatch] at h
          rw [envmatchAt]
          cases hget : get i2 with
          | none =>
              rw [hget] at h
              cases h
          | some c =>
              rw [hget] at h
              dsimp only at h ⊢
              rw [hc1]
              by_cases hc : c1 = c
              · rw [if_pos hc] at h ⊢
                by_cases he : c1 = equalsSign
                · rw [if_pos he] at h ⊢
                  exact h
                · rw [if_neg he] at h ⊢
                  have hlt : k < name.bytes.length := by
                    by_contra hge
                    rw [List.drop_eq_nil_of_le (by omega)] at hdrop
                    cases hdrop
                  rw [List.length_cons] at hfuel
                  exact ih (k + 1) (i2 + 1) fuel result hlt hnext (by omega) h
              · rw [if_neg hc] at h ⊢
                rw [if_neg (fun hand => hne hand.1)]
                exact h

theorem entryEnd_more {fuel fuel' i : Nat} {result : Option Nat} (hle : fuel <= fuel')
    (h : entryEnd get fuel i = some result) : entryEnd get fuel' i = some result := by
  induction fuel generalizing fuel' i with
  | zero =>
      cases h
  | succ fuel ih =>
      cases fuel' with
      | zero =>
          exact absurd hle (Nat.not_succ_le_zero _)
      | succ fuel' =>
          rw [entryEnd] at h ⊢
          cases hget : get i with
          | none =>
              rw [hget] at h
              cases h
          | some c =>
              rw [hget] at h
              dsimp only at h ⊢
              split at h
              case isTrue hc =>
                  rw [if_pos hc]
                  exact h
              case isFalse hc =>
                  rw [if_neg hc]
                  split at h
                  case isTrue hbound =>
                      rw [if_pos hbound]
                      exact h
                  case isFalse hbound =>
                      rw [if_neg hbound]
                      exact ih (Nat.le_of_succ_le_succ hle) h

theorem findValueAt_of_findValue (fuel : Nat) :
    forall i result, findValue get name.bytes fuel i = some result ->
      findValueAt get (nameMemory name behind)
        (fuel + (configEnvSize + 2 + name.bytes.length)) i = some result := by
  induction fuel with
  | zero =>
      intro i result h
      cases h
  | succ fuel ih =>
      intro i result h
      rw [findValue] at h
      rw [show fuel + 1 + (configEnvSize + 2 + name.bytes.length) =
        fuel + (configEnvSize + 2 + name.bytes.length) + 1 by omega, findValueAt]
      cases hget : get i with
      | none =>
          rw [hget] at h
          cases h
      | some c =>
          rw [hget] at h
          dsimp only at h ⊢
          split at h
          case isTrue hc =>
              rw [if_pos hc]
              exact h
          case isFalse hc =>
              rw [if_neg hc]
              cases hend : entryEnd get (configEnvSize + 2) i with
              | none =>
                  rw [hend] at h
                  cases h
              | some nxt =>
                  rw [hend] at h
                  rw [entryEnd_more (by omega) hend]
                  cases nxt with
                  | none =>
                      exact h
                  | some nxt =>
                      dsimp only at h ⊢
                      cases hmatch : envmatch get name.bytes i with
                      | none =>
                          rw [hmatch] at h
                          cases h
                      | some found =>
                          rw [hmatch] at h
                          rw [envmatchAt_of_envmatch behind name.bytes 0 i _ found
                            (Nat.zero_le _) rfl (by omega) hmatch]
                          cases found with
                          | none =>
                              exact ih (nxt + 1) result h
                          | some val =>
                              exact h

theorem getenvAt_of_getenv {result : Option Nat} (h : getenv get name.bytes = some result) :
    exists fuel, getenvAt get (nameMemory name behind) fuel = some result :=
  ⟨_, findValueAt_of_findValue behind (configEnvSize + 2) 0 result h⟩

end Refinement

end Environment
end Bab750

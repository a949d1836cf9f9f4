import Bab750.Environment.Persistence

/-!
# Lookup before relocation

Before relocation `getenv_f` reads the NVRAM through `env_get_char_spec`, which
counts from the start of the image.  The walk over the strings therefore begins
with the four bytes of the checksum.  This module says which strings it sees and
for which names it still reports what `getenv` reports after relocation.
-/

namespace Bab750
namespace Environment

open Foundation
open Support

/-!
# Reports of getenv_f
-/

/-- What `getenv_f` reports for a value, or for its absence. -/
def reportValue (len : Nat) : Option (List Byte) -> GetenvFResult
  | none => { ret := -1, buf := [], output := [] }
  | some value =>
      finishCopy len
        (if value.length < len then (value ++ [0#8], true) else (value.take len, false))

theorem copyOut_readsAt {get : Nat -> Option Byte} {value : List Byte}
    (room val : Nat) (hnul : 0#8 ∉ value)
    (hread : ReadsAt get val (value ++ [0#8])) :
    copyOut get room val =
      some (if value.length < room then (value ++ [0#8], true)
        else (value.take room, false)) := by
  induction value generalizing room val with
  | nil =>
      cases room with
      | zero =>
          rfl
      | succ room =>
          have hhead := (readsAt_cons.mp hread).left
          simp [copyOut, hhead]
  | cons c value ih =>
      cases room with
      | zero =>
          rfl
      | succ room =>
          rcases readsAt_cons.mp hread with ⟨hhead, htail⟩
          have hc : c ≠ 0#8 := by
            intro hc
            exact hnul (by simp [hc])
          have hrest := ih room (val + 1)
            (fun h => hnul (List.mem_cons_of_mem _ h)) htail
          simp only [copyOut, hhead, if_neg hc, hrest, Option.map_some,
            List.length_cons, Nat.add_lt_add_iff_right]
          split
          case isTrue =>
              rfl
          case isFalse =>
              rfl

theorem getenvF_readsAt {get : Nat -> Option Byte} {name : List Byte}
    {strs : List (List Byte)} (len : Nat) (hname : 0#8 ∉ name)
    (hstrs : TableStrings strs)
    (hread : ReadsAt get 0 (encodeStrings strs ++ [0#8]))
    (hbound : (encodeStrings strs).length <= configEnvSize)
    (hcount : strs.length <= configEnvSize) :
    getenvF get name len = (lookupString name strs).map (reportValue len) := by
  have hfind := findValue_readsAt (configEnvSize + 2) 0 hname hstrs hread
    (by omega) (by omega)
  unfold getenvF
  cases hcase : lookupString name strs with
  | none =>
      simp only [hcase] at hfind
      simp [hfind]
  | some found =>
      cases found with
      | none =>
          simp only [hcase] at hfind
          simp [hfind, reportValue]
      | some value =>
          simp only [hcase] at hfind
          rcases hfind with ⟨val, hval, hvalue, hnul, _⟩
          simp only [hval, copyOut_readsAt len val hnul hvalue]
          rfl

theorem reportValue_injective {left right : Option (List Byte)}
    (h : forall len, reportValue len left = reportValue len right) : left = right := by
  cases left with
  | none =>
      cases right with
      | none =>
          rfl
      | some value =>
          have hret := congrArg GetenvFResult.ret (h (value.length + 1))
          simp [reportValue, finishCopy] at hret
  | some value =>
      cases right with
      | none =>
          have hret := congrArg GetenvFResult.ret (h (value.length + 1))
          simp [reportValue, finishCopy] at hret
      | some other =>
          have hbuf := congrArg GetenvFResult.buf
            (h (value.length + other.length + 1))
          have hleft : value.length < value.length + other.length + 1 := by omega
          have hright : other.length < value.length + other.length + 1 := by omega
          simp only [reportValue, if_pos hleft, if_pos hright, finishCopy,
            if_true] at hbuf
          rw [List.append_cancel_right hbuf]

/-!
# Strings that begin in the checksum
-/

/--
The complete strings among the bytes of the checksum, and the bytes of the last
one that runs on into the data; there are none when an empty string ends the walk.
-/
def headerStrings (current : List Byte) :
    List Byte -> List (List Byte) × Option (List Byte)
  | [] => ([], some current)
  | b :: header =>
      if b = 0#8 then
        if current = [] then ([], none)
        else (current :: (headerStrings [] header).1, (headerStrings [] header).2)
      else headerStrings (current ++ [b]) header

def prependedStrings (header : List Byte) (vars : List Variable) : List (List Byte) :=
  match headerStrings [] header with
  | (strs, none) => strs
  | (strs, some []) => strs
  | (strs, some (b :: rest)) =>
      match vars with
      | [] => strs ++ [b :: rest]
      | v :: _ => strs ++ [b :: rest ++ v.text]

def hiddenVariables (header : List Byte) (vars : List Variable) : List Variable :=
  match (headerStrings [] header).2 with
  | none => vars
  | some [] => []
  | some (_ :: _) => vars.take 1

def visibleVariables (header : List Byte) (vars : List Variable) : List Variable :=
  match (headerStrings [] header).2 with
  | none => []
  | some [] => vars
  | some (_ :: _) => vars.drop 1

theorem hidden_append_visible (header : List Byte) (vars : List Variable) :
    hiddenVariables header vars ++ visibleVariables header vars = vars := by
  unfold hiddenVariables visibleVariables
  cases (headerStrings [] header).2 with
  | none =>
      exact List.append_nil vars
  | some r =>
      cases r with
      | nil =>
          rfl
      | cons b r =>
          exact List.take_append_drop 1 vars

theorem headerStrings_tableStrings (current header : List Byte)
    (hcurrent : 0#8 ∉ current) :
    TableStrings (headerStrings current header).1 := by
  induction header generalizing current with
  | nil =>
      intro s hs
      cases hs
  | cons b header ih =>
      unfold headerStrings
      split
      case isTrue hb =>
          split
          case isTrue =>
              intro s hs
              cases hs
          case isFalse hne =>
              intro s hs
              rcases List.mem_cons.mp hs with hfirst | hrest
              · rw [hfirst]
                exact ⟨hne, hcurrent⟩
              · exact ih [] (by simp) s hrest
      case isFalse hb =>
          apply ih
          intro hmem
          rcases List.mem_append.mp hmem with hleft | hright
          · exact hcurrent hleft
          · exact hb (List.mem_singleton.mp hright).symm

theorem headerStrings_bytes (current header : List Byte) (hcurrent : 0#8 ∉ current) :
    match (headerStrings current header).2 with
    | none => exists rest, current ++ header =
        encodeStrings (headerStrings current header).1 ++ 0#8 :: rest
    | some r => 0#8 ∉ r ∧ current ++ header =
        encodeStrings (headerStrings current header).1 ++ r := by
  induction header generalizing current with
  | nil =>
      exact ⟨hcurrent, by simp [headerStrings]⟩
  | cons b header ih =>
      unfold headerStrings
      by_cases hb : b = 0#8
      · rw [if_pos hb]
        by_cases hnil : current = []
        · rw [if_pos hnil]
          exact ⟨header, by simp [hnil, hb]⟩
        · rw [if_neg hnil]
          have hrest := ih [] (by simp)
          dsimp only
          cases hcase : (headerStrings [] header).2 with
          | none =>
              simp only [hcase] at hrest
              rcases hrest with ⟨rest, hrest⟩
              refine ⟨rest, ?_⟩
              rw [List.nil_append] at hrest
              rw [encodeStrings_cons, hb, List.append_assoc, List.cons_append, ← hrest]
          | some r =>
              simp only [hcase] at hrest
              refine ⟨hrest.left, ?_⟩
              have hbytes := hrest.right
              rw [List.nil_append] at hbytes
              rw [encodeStrings_cons, hb, List.append_assoc, List.cons_append, ← hbytes]
      · rw [if_neg hb]
        have hnext : 0#8 ∉ current ++ [b] := by
          intro hmem
          rcases List.mem_append.mp hmem with hleft | hright
          · exact hcurrent hleft
          · exact hb (List.mem_singleton.mp hright).symm
        have hrest := ih (current ++ [b]) hnext
        rw [List.append_assoc, List.singleton_append] at hrest
        exact hrest

/-- The strings of the walk from the start of the image on. -/
def seenStrings (header : List Byte) (vars : List Variable) : List (List Byte) :=
  prependedStrings header vars ++ (visibleVariables header vars).map Variable.text

theorem seenStrings_tableStrings (header : List Byte) (vars : List Variable) :
    TableStrings (seenStrings header vars) := by
  have hstrs := headerStrings_tableStrings [] header (by simp)
  have hbytes := headerStrings_bytes [] header (by simp)
  intro s hs
  unfold seenStrings at hs
  rcases List.mem_append.mp hs with hleft | hright
  · unfold prependedStrings at hleft
    rcases hheader : headerStrings [] header with ⟨strs, left⟩
    rw [hheader] at hstrs hbytes hleft
    cases left with
    | none =>
        exact hstrs s hleft
    | some r =>
        cases r with
        | nil =>
            exact hstrs s hleft
        | cons b r =>
            have hr := hbytes.left
            cases vars with
            | nil =>
                rcases List.mem_append.mp hleft with hmem | hlast
                · exact hstrs s hmem
                · rw [List.mem_singleton.mp hlast]
                  exact ⟨List.cons_ne_nil _ _, hr⟩
            | cons v vars =>
                rcases List.mem_append.mp hleft with hmem | hlast
                · exact hstrs s hmem
                · rw [List.mem_singleton.mp hlast]
                  refine ⟨List.cons_ne_nil _ _, ?_⟩
                  intro hnul
                  rcases List.mem_append.mp hnul with hin | hin
                  · exact hr hin
                  · exact v.text_noNul hin
  · exact tableStrings_text _ s hright

/-- The image begins with the strings of the walk and the NUL that ends it. -/
theorem seenStrings_layout (header : List Byte) (vars : List Variable)
    (stale : List Byte) :
    exists rest, header ++ (encodeVariables vars ++ tableEnd vars ++ stale) =
      encodeStrings (seenStrings header vars) ++ 0#8 :: rest := by
  have hbytes := headerStrings_bytes [] header (by simp)
  unfold seenStrings prependedStrings visibleVariables
  rcases hheader : headerStrings [] header with ⟨strs, left⟩
  rw [hheader, List.nil_append] at hbytes
  cases left with
  | none =>
      rcases hbytes with ⟨rest, hrest⟩
      refine ⟨rest ++ (encodeVariables vars ++ tableEnd vars ++ stale), ?_⟩
      rw [hrest]
      simp
  | some r =>
      have hrest := hbytes.right
      cases r with
      | nil =>
          rcases encodeVariables_tableEnd vars with ⟨tail, htail⟩
          refine ⟨tail ++ stale, ?_⟩
          rw [hrest, htail]
          simp
      | cons b r =>
          cases vars with
          | nil =>
              refine ⟨stale, ?_⟩
              rw [hrest]
              simp [encodeVariables, tableEnd]
          | cons v vars =>
              refine ⟨stale, ?_⟩
              rw [hrest, encodeVariables_cons]
              simp [tableEnd, encodeVariables]

theorem tableStrings_length {strs : List (List Byte)} (h : TableStrings strs) :
    strs.length <= (encodeStrings strs).length := by
  induction strs with
  | nil =>
      exact Nat.le_refl 0
  | cons s strs ih =>
      have hrest := ih (fun u hu => h u (List.mem_cons_of_mem _ hu))
      rw [encodeStrings_cons, List.length_append, List.length_cons, List.length_cons]
      omega

/-!
# Agreement
-/

theorem lookupString_append (name : List Byte) (left right : List (List Byte)) :
    lookupString name (left ++ right) =
      match lookupString name left with
      | none => none
      | some (some value) => some (some value)
      | some none => lookupString name right := by
  induction left with
  | nil =>
      rfl
  | cons text left ih =>
      rw [List.cons_append, lookupString, lookupString]
      cases matchString name text with
      | none =>
          rfl
      | some found =>
          cases found with
          | none =>
              exact ih
          | some value =>
              rfl

theorem getenvF_early {nv : Nvram} {vars : List Variable}
    (hdata : WellFormed (nvramRead nv (configEnvAddr + 4#16) envSize) vars)
    (name : CString) (len : Nat) :
    getenvF (envGetCharInit true nv) name.bytes len =
      (lookupString name.bytes
        (seenStrings (nvramRead nv configEnvAddr 4) vars)).map (reportValue len) := by
  rcases hdata.layout with ⟨stale, hlayout⟩
  rcases seenStrings_layout (nvramRead nv configEnvAddr 4) vars stale with
    ⟨rest, hrest⟩
  have himage : nvramRead nv configEnvAddr configEnvSize =
      [] ++ (encodeStrings (seenStrings (nvramRead nv configEnvAddr 4) vars) ++
        [0#8]) ++ rest := by
    have hsplit := nvramRead_add nv configEnvAddr 4 envSize
    rw [show 4 + envSize = configEnvSize from rfl, show configEnvAddr +
      BitVec.ofNat 16 4 = configEnvAddr + 4#16 from rfl, hlayout, hrest] at hsplit
    rw [hsplit]
    simp
  have hlen := congrArg List.length himage
  rw [nvramRead_length] at hlen
  simp only [List.nil_append, List.length_append, List.length_singleton] at hlen
  have hread : ReadsAt (envGetCharInit true nv) 0
      (encodeStrings (seenStrings (nvramRead nv configEnvAddr 4) vars) ++ [0#8]) := by
    have hlist := readsAt_getElem? []
      (encodeStrings (seenStrings (nvramRead nv configEnvAddr 4) vars) ++ [0#8]) rest
    rw [← himage] at hlist
    intro k hk
    rw [← hlist k hk]
    simp only [List.length_append, List.length_singleton] at hk
    have hbyte := nvramRead_getElem? nv configEnvAddr configEnvSize (0 + k)
      (by omega)
    exact hbyte.symm
  have hstrs := seenStrings_tableStrings (nvramRead nv configEnvAddr 4) vars
  have hcount := tableStrings_length hstrs
  exact getenvF_readsAt len name.noNul hstrs hread (by omega) (by omega)

/--
The checksum does not disturb the lookup of a name: the first string with bytes
of the checksum that matches the name carries the value of the variable, or none
matches and the variable is not hidden.
-/
def HeaderHarmless (header : List Byte) (vars : List Variable) (name : List Byte) :
    Prop :=
  match lookupString name (prependedStrings header vars) with
  | none => False
  | some (some value) => lookupVariable (nameOf name) vars = some value
  | some none => forall v, v ∈ hiddenVariables header vars -> v.name ≠ nameOf name

theorem lookupVariable_visible (name : List Byte) (hidden visible : List Variable)
    (hdistinct : ((hidden ++ visible).map Variable.name).Nodup) :
    lookupVariable name visible = lookupVariable name (hidden ++ visible) <->
      forall v, v ∈ hidden -> v.name ≠ name := by
  rw [lookupVariable_append]
  constructor
  · intro heq v hv hname
    have hsome : exists value, lookupVariable name hidden = some value := by
      cases hcase : lookupVariable name hidden with
      | none =>
          unfold lookupVariable at hcase
          rw [Option.map_eq_none_iff, List.find?_eq_none] at hcase
          exact absurd (decide_eq_true hname) (hcase v hv)
      | some value =>
          exact ⟨value, rfl⟩
    rcases hsome with ⟨value, hvalue⟩
    rw [hvalue, Option.some_or] at heq
    unfold lookupVariable at heq
    rcases Option.map_eq_some_iff.mp heq with ⟨u, hu, _⟩
    have huname : u.name = name := by simpa using List.find?_some hu
    rw [List.map_append] at hdistinct
    exact (List.nodup_append.mp hdistinct).right.right v.name
      (List.mem_map_of_mem hv) u.name
      (List.mem_map_of_mem (List.mem_of_find?_eq_some hu)) (hname.trans huname.symm)
  · intro habsent
    have hnone : lookupVariable name hidden = none := by
      unfold lookupVariable
      rw [Option.map_eq_none_iff, List.find?_eq_none]
      intro v hv
      simpa using habsent v hv
    rw [hnone, Option.none_or]

theorem lookupString_seenStrings_iff {header : List Byte} {vars : List Variable}
    (hdistinct : (vars.map Variable.name).Nodup) (name : List Byte) :
    lookupString name (seenStrings header vars) =
        some (lookupVariable (nameOf name) vars) <->
      HeaderHarmless header vars name := by
  unfold seenStrings HeaderHarmless
  rw [lookupString_append, lookupString_text]
  cases lookupString name (prependedStrings header vars) with
  | none =>
      constructor
      · intro h
        cases h
      · intro h
        exact absurd h id
  | some found =>
      cases found with
      | some value =>
          constructor
          · intro h
            exact (Option.some.inj h).symm
          · intro h
            exact congrArg some h.symm
      | none =>
          have hvisible := lookupVariable_visible (nameOf name)
            (hiddenVariables header vars) (visibleVariables header vars)
            (by rw [hidden_append_visible]; exact hdistinct)
          rw [hidden_append_visible] at hvisible
          constructor
          · intro h
            exact hvisible.mp (Option.some.inj h)
          · intro h
            exact congrArg some (hvisible.mpr h)

theorem getenvF_early_iff {nv : Nvram} {vars : List Variable}
    (hdata : WellFormed (nvramRead nv (configEnvAddr + 4#16) envSize) vars)
    (name : CString) :
    (forall len : Nat,
      getenvF (envGetCharInit true nv) name.bytes len =
        some (reportValue len (lookupVariable (nameOf name.bytes) vars))) <->
      HeaderHarmless (nvramRead nv configEnvAddr 4) vars name.bytes := by
  rw [← lookupString_seenStrings_iff hdata.distinct]
  constructor
  · intro hagree
    have hfirst := hagree 0
    rw [getenvF_early hdata] at hfirst
    cases hfound : lookupString name.bytes
        (seenStrings (nvramRead nv configEnvAddr 4) vars) with
    | none =>
        rw [hfound] at hfirst
        cases hfirst
    | some found =>
        congr 1
        apply reportValue_injective
        intro len
        have hlen := hagree len
        rw [getenvF_early hdata, hfound] at hlen
        exact Option.some.inj hlen
  · intro hseen len
    rw [getenvF_early hdata, hseen]
    rfl

theorem getenvString_relocated {nv : Nvram} {s : BoardState} {block : EnvBlock}
    {vars : List Variable}
    (hdata : WellFormed (nvramRead nv (configEnvAddr + 4#16) envSize) vars)
    (name : CString) :
    getenvString (envGetCharMemory (envRelocate s nv true block).1
        (envRelocate s nv true block).2) name.bytes =
      some (lookupVariable (nameOf name.bytes) vars) := by
  rw [envRelocate_valid]
  exact getenvString_wellFormed hdata name.noNul

/--
For an image with a valid checksum and well-formed data, `getenv_f` before
relocation reports for a name what `getenv` reports after it exactly when the
checksum does not disturb the lookup.
-/
theorem getenvF_agrees_iff {nv : Nvram} {stack : Nat} {s : BoardState}
    {block : EnvBlock} {vars : List Variable} (hvalid : envInit nv stack = true)
    (hdata : WellFormed (envRelocate s nv (envInit nv stack) block).2.data vars)
    (name : CString) :
    (forall len : Nat,
      getenvF (envGetCharInit (envInit nv stack) nv) name.bytes len =
        (getenvString
          (envGetCharMemory (envRelocate s nv (envInit nv stack) block).1
            (envRelocate s nv (envInit nv stack) block).2) name.bytes).map
          (reportValue len)) <->
      HeaderHarmless (nvramRead nv configEnvAddr 4) vars name.bytes := by
  rw [hvalid] at hdata ⊢
  rw [envRelocate_valid] at hdata
  rw [getenvString_relocated hdata]
  exact getenvF_early_iff hdata name

theorem sampleBoard_crc :
    wordBytes (crc32 0#32 (sampleBoard.envPtr + envHeaderSize) sampleBoard.data) =
      [0x28#8, 0x1b#8, 0xb8#8, 0x11#8] := by
  decide +kernel

theorem savedNvram_header :
    nvramRead (savedNvram sampleBoard) configEnvAddr 4 =
      [0x28#8, 0x1b#8, 0xb8#8, 0x11#8] := by
  unfold savedNvram
  rw [(nvramRead_saveenv_parts (envCrcUpdate sampleBoard) blankNvram
    (WellFormed.size sampleBoard_wellFormed)).left]
  exact sampleBoard_crc

theorem savedNvram_valid (stack : Nat) :
    envInit (savedNvram sampleBoard) stack = true :=
  (envInit_saveenv (envCrcUpdate sampleBoard) blankNvram stack
    (WellFormed.size sampleBoard_wellFormed)).mpr (envCrcUpdate_crcValid sampleBoard)

theorem savedNvram_data :
    WellFormed (nvramRead (savedNvram sampleBoard) (configEnvAddr + 4#16) envSize)
      [sampleVariable] := by
  unfold savedNvram
  rw [(nvramRead_saveenv_parts (envCrcUpdate sampleBoard) blankNvram
    (WellFormed.size sampleBoard_wellFormed)).right]
  exact sampleBoard_wellFormed

theorem savedNvram_wellFormed (stack : Nat) :
    WellFormed (envRelocate sampleBoard (savedNvram sampleBoard)
      (envInit (savedNvram sampleBoard) stack) sampleBlock).2.data [sampleVariable] := by
  rw [savedNvram_valid, envRelocate_valid]
  exact savedNvram_data

theorem getenvF_agrees_absent :
    envInit (savedNvram sampleBoard) 0x3fa0000 = true ∧
      ((forall len : Nat,
        getenvF (envGetCharInit (envInit (savedNvram sampleBoard) 0x3fa0000)
            (savedNvram sampleBoard)) (ascii "eth") len =
          (getenvString
            (envGetCharMemory
              (envRelocate sampleBoard (savedNvram sampleBoard)
                (envInit (savedNvram sampleBoard) 0x3fa0000) sampleBlock).1
              (envRelocate sampleBoard (savedNvram sampleBoard)
                (envInit (savedNvram sampleBoard) 0x3fa0000) sampleBlock).2)
            (ascii "eth")).map (reportValue len)) <->
        HeaderHarmless (nvramRead (savedNvram sampleBoard) configEnvAddr 4)
          [sampleVariable] (ascii "eth")) :=
  ⟨savedNvram_valid 0x3fa0000,
    getenvF_agrees_iff (savedNvram_valid 0x3fa0000) (savedNvram_wellFormed 0x3fa0000)
      ⟨ascii "eth", by decide⟩⟩

/-- The name of the variable of `sampleBoard`. -/
def sampleName : CString := ⟨ascii "a", sampleVariable.nameNoNul⟩

theorem getenvF_disagrees :
    ¬ (forall (nv : Nvram) (stack : Nat) (s : BoardState) (block : EnvBlock)
        (vars : List Variable) (name : CString),
      envInit nv stack = true ->
        WellFormed (envRelocate s nv (envInit nv stack) block).2.data vars ->
          forall len : Nat,
            getenvF (envGetCharInit (envInit nv stack) nv) name.bytes len =
              (getenvString
                (envGetCharMemory (envRelocate s nv (envInit nv stack) block).1
                  (envRelocate s nv (envInit nv stack) block).2) name.bytes).map
                (reportValue len)) := by
  intro hclaim
  have hagree : forall len : Nat,
      getenvF (envGetCharInit true (savedNvram sampleBoard)) sampleName.bytes len =
        some (reportValue len
          (lookupVariable (nameOf sampleName.bytes) [sampleVariable])) := by
    intro len
    have hlen := hclaim (savedNvram sampleBoard) 0x3fa0000 sampleBoard sampleBlock
      [sampleVariable] sampleName (savedNvram_valid 0x3fa0000)
      (savedNvram_wellFormed 0x3fa0000) len
    rw [savedNvram_valid, getenvString_relocated savedNvram_data, Option.map_some] at hlen
    exact hlen
  have hiff := getenvF_early_iff savedNvram_data sampleName
  rw [savedNvram_header] at hiff
  have hvisible : forall v, v ∈ [sampleVariable] -> v.name ≠ ascii "a" :=
    hiff.mp hagree
  exact hvisible sampleVariable (by simp) rfl

end Environment
end Bab750

import Bab750.Load.XyzmodemEnds

/-!
# Loading a file

`load_serial_ymodem` of `common/cmd_load.c`: the file is in the memory after a transfer with any
noise that the tries allow. After a transfer that breaks off, the command returns only when what
came fills the buffer.
-/

namespace Bab750
namespace Load
namespace Xyzmodem

open Foundation
open Flash

/-!
# The memory
-/

/-- Where a file goes is neither flash nor `ymodemBuf`. -/
def Storage.Apart (b : Storage) (offset : BitVec 32) (n : Nat) : Prop :=
  forall i, i < n -> addr2info b.banks (offset + BitVec.ofNat 32 i) = none ∧
    forall j, j < 1024 -> offset + BitVec.ofNat 32 i ≠ b.ymodemBuf + BitVec.ofNat 32 j

/-- The bytes are in the memory, and the rest is as it was, without `ymodemBuf`. -/
structure Stored (b : Storage) (offset : BitVec 32) (size : Nat) (bytes : List Byte)
    (memory memory' : Memory) : Prop where
  inside : forall i (hi : i < bytes.length),
    memory' (offset + BitVec.ofNat 32 (size + i)) = bytes[i]
  outside : forall a, (forall i, i < bytes.length -> a ≠ offset + BitVec.ofNat 32 (size + i)) ->
    (forall j, j < 1024 -> a ≠ b.ymodemBuf + BitVec.ofNat 32 j) -> memory' a = memory a

variable {b : Storage} {offset : BitVec 32} {memory memory' : Memory} {size n : Nat}

theorem Stored.nil (b : Storage) (offset : BitVec 32) (size : Nat) (memory : Memory) :
    Stored b offset size [] memory memory :=
  ⟨fun i hi => absurd hi (Nat.not_lt_zero i), fun _ _ _ => rfl⟩

theorem place_inj {i j : Nat} (hi : i < 2 ^ 32) (hj : j < 2 ^ 32)
    (h : offset + BitVec.ofNat 32 i = offset + BitVec.ofNat 32 j) : i = j := by
  have heq := congrArg BitVec.toNat (add_left_cancel h)
  rw [BitVec.toNat_ofNat, BitVec.toNat_ofNat, Nat.mod_eq_of_lt hi, Nat.mod_eq_of_lt hj] at heq
  exact heq

theorem Stored.append {first second : List Byte} {memory₁ : Memory}
    (hfirst : Stored b offset size first memory memory₁)
    (hsecond : Stored b offset (size + first.length) second memory₁ memory')
    (hapart : b.Apart offset n) (hn : size + first.length + second.length ≤ n)
    (hlong : n < 2 ^ 32) : Stored b offset size (first ++ second) memory memory' := by
  constructor
  · intro i hi
    rw [List.length_append] at hi
    by_cases hlt : i < first.length
    · rw [List.getElem_append_left hlt, ← hfirst.inside i hlt]
      apply hsecond.outside
      · intro j hj heq
        have hij := place_inj (by omega) (by omega) heq
        omega
      · exact (hapart (size + i) (by omega)).2
    · have hindex : size + first.length + (i - first.length) = size + i := by omega
      have hback := hsecond.inside (i - first.length) (by omega)
      rw [hindex] at hback
      rw [List.getElem_append_right (by omega), hback]
  · intro a hbytes hbuf
    rw [hsecond.outside a ?_ hbuf, hfirst.outside a ?_ hbuf]
    · intro i hi
      exact hbytes i (by rw [List.length_append]; omega)
    · intro i hi
      rw [Nat.add_assoc]
      exact hbytes (first.length + i) (by rw [List.length_append]; omega)

theorem Stored.rest {todo left : List Byte} {memory₁ : Memory} (hsuffix : left <:+ todo)
    (hfirst : Stored b offset 0 (todo.take (todo.length - left.length)) memory memory₁)
    (hsecond : Stored b offset (todo.length - left.length) left memory₁ memory')
    (hapart : b.Apart offset todo.length) (hlong : todo.length < 2 ^ 32) :
    Stored b offset 0 todo memory memory' := by
  rcases hsuffix with ⟨front, rfl⟩
  have hfront : (front ++ left).length - left.length = front.length := by
    rw [List.length_append, Nat.add_sub_cancel]
  rw [hfront, List.take_left' rfl] at hfirst
  rw [hfront] at hsecond
  refine hfirst.append (by rw [Nat.zero_add]; exact hsecond) hapart ?_ hlong
  rw [List.length_append]
  omega

theorem Storage.store_ram (hapart : b.Apart offset n) {data : List Byte} (hdata : data ≠ [])
    (hn : size + data.length ≤ n) (hbuf : data.length ≤ 1024) (memory : Memory) :
    (b.store memory (BitVec.ofNat 32 size + offset) data).1 = errOk ∧
      Stored b offset size data memory
        (b.store memory (BitVec.ofNat 32 size + offset) data).2 := by
  have hpos := List.length_pos_of_ne_nil hdata
  have hfree : addr2info b.banks (BitVec.ofNat 32 size + offset) = none := by
    rw [BitVec.add_comm]
    exact (hapart size (by omega)).1
  have hplace : forall i, BitVec.ofNat 32 size + offset + BitVec.ofNat 32 i =
      offset + BitVec.ofNat 32 (size + i) := by
    intro i
    rw [BitVec.add_comm (BitVec.ofNat 32 size), BitVec.add_assoc, BitVec.ofNat_add]
  unfold Storage.store
  rw [hfree]
  refine ⟨rfl, fun i hi => ?_, fun a hbytes houtside => ?_⟩
  · rw [← hplace]
    exact copyMemory_inside _ _ _ i hi (by omega)
  · dsimp only
    rw [copyMemory_outside _ _ _ a ?_, copyMemory_outside _ _ _ a ?_]
    · exact fun i hi => houtside i (by omega)
    · intro i hi
      rw [hplace]
      exact hbytes i hi

/-!
# The loop
-/

variable {x : Xyz} {tail rest : Line} {fileLength : Nat} {todo : List Byte}

theorem loadLoop_store {data : List Byte} {err : Option Stat} {x' : Xyz} {fuel : Nat}
    (hread : streamRead fuel x 1024 = some ⟨data, err, x'⟩) (hdata : data ≠ [])
    (hbuf : data.length ≤ 1024) (hapart : b.Apart offset n) (hn : size + data.length ≤ n)
    (memory : Memory) :
    exists memory', loadLoop b offset (fuel + 1) x memory size =
        loadLoop b offset fuel x' memory' (size + data.length) ∧
      Stored b offset size data memory memory' := by
  rcases Storage.store_ram hapart hdata hn hbuf memory with ⟨hrc, hstored⟩
  refine ⟨_, ?_, hstored⟩
  conv_lhs => unfold loadLoop
  rw [hread, Option.bind_eq_bind, Option.bind_some]
  dsimp only
  rw [if_neg hdata, if_neg (not_not.mpr hrc)]

theorem loadLoop_full (fuel : Nat) :
    forall (x : Xyz) (todo : List Byte) (memory : Memory) (size : Nat),
      Hands fileLength tail x todo -> b.Apart offset n -> size + todo.length ≤ n ->
      n < 2 ^ 32 -> todo.length + 1024 < fuel ->
      exists fuel' x' memory' left, fuel ≤ fuel' + (todo.length - left.length) ∧
        left.length = todo.length % 1024 ∧ left <:+ todo ∧ Hands fileLength tail x' left ∧
        loadLoop b offset fuel x memory size =
          loadLoop b offset fuel' x' memory' (size + (todo.length - left.length)) ∧
        Stored b offset size (todo.take (todo.length - left.length)) memory memory' := by
  induction fuel with
  | zero =>
      intro x todo memory size _ _ _ _ hfuel
      omega
  | succ fuel ih =>
      intro x todo memory size h hapart hn hlong hfuel
      by_cases hfull : 1024 ≤ todo.length
      · rcases streamRead_full h hfull (show 1024 < fuel by omega) with ⟨x₁, hread, h₁⟩
        have hlength : (todo.take 1024).length = 1024 := List.length_take_of_le hfull
        have hrest : (todo.drop 1024).length = todo.length - 1024 := List.length_drop
        rcases loadLoop_store hread (List.ne_nil_of_length_pos (by omega)) (by omega) hapart
          (show size + (todo.take 1024).length ≤ n by omega) memory with ⟨memory₁, hrun, hstored⟩
        rw [hlength] at hrun
        rcases ih x₁ (todo.drop 1024) memory₁ (size + 1024) h₁ hapart (by omega) hlong (by omega)
          with ⟨fuel', x', memory', left, hfuel', hleft, hsuffix, h', hrun', hstored'⟩
        have hle := hsuffix.length_le
        refine ⟨fuel', x', memory', left, by omega, by omega,
          hsuffix.trans (List.drop_suffix 1024 todo), h', ?_, ?_⟩
        · rw [hrun, hrun', hrest]
          congr 1
          omega
        · have hsplit : todo.take (todo.length - left.length) =
              todo.take 1024 ++
                (todo.drop 1024).take ((todo.drop 1024).length - left.length) := by
            rw [← List.take_add]
            congr 1
            omega
          rw [hsplit]
          have hmore := List.length_take_le ((todo.drop 1024).length - left.length)
            (todo.drop 1024)
          exact hstored.append (by rw [hlength]; exact hstored') hapart (by omega) hlong
      · refine ⟨fuel + 1, x, memory, todo, by omega, by omega, List.suffix_refl todo, h, ?_, ?_⟩
        · rw [Nat.sub_self]
          rfl
        · rw [Nat.sub_self, List.take_zero]
          exact Stored.nil b offset size memory

theorem loadLoop_end {data : List Byte} {err : Option Stat} {x' : Xyz} {fuel : Nat}
    (hread : streamRead fuel x 1024 = some ⟨data, err, x'⟩) (hdata : data = [])
    (b : Storage) (offset : BitVec 32) (memory : Memory) (size : Nat) :
    loadLoop b offset (fuel + 1) x memory size = some ⟨errOk, memory, size, x'⟩ := by
  unfold loadLoop
  rw [hread, Option.bind_eq_bind, Option.bind_some]
  exact if_pos hdata

theorem loadLoop_file (h : Hands fileLength (some eot :: rest) x todo)
    (hapart : b.Apart offset todo.length) (hlong : todo.length < 2 ^ 32) {fuel : Nat}
    (hfuel : todo.length + 1026 < fuel) (memory : Memory) :
    exists x' memory', loadLoop b offset fuel x memory 0 =
        some ⟨errOk, memory', todo.length, x'⟩ ∧ Stored b offset 0 todo memory memory' := by
  rcases loadLoop_full fuel x todo memory 0 h hapart (by omega) hlong (by omega) with
    ⟨fuel', x₁, memory₁, left, hfuel', hleft, hsuffix, h₁, hrun, hstored⟩
  have hle := hsuffix.length_le
  have hshort : left.length < 1024 := by omega
  rcases Nat.exists_eq_add_of_lt (show 0 < fuel' by omega) with ⟨fuel₁, hfuel₁⟩
  rw [Nat.zero_add] at hfuel₁ hrun
  subst hfuel₁
  rcases streamRead_last h₁ hshort (show left.length + 1 < fuel₁ by omega) with
    ⟨err, x₂, hread, heof⟩
  by_cases hnil : left = []
  · rw [hnil, List.length_nil, Nat.sub_zero, List.take_length] at hstored
    rw [hnil, List.length_nil, Nat.sub_zero] at hrun
    exact ⟨x₂, memory₁, hrun.trans (loadLoop_end hread hnil b offset memory₁ todo.length),
      hstored⟩
  · have hsize : todo.length - left.length + left.length = todo.length := by omega
    rcases loadLoop_store hread hnil (Nat.le_of_lt hshort) hapart
      (Nat.le_of_eq hsize) memory₁ with ⟨memory₂, hrun₂, hstored₂⟩
    rcases Nat.exists_eq_add_of_lt (show 0 < fuel₁ by omega) with ⟨fuel₂, hfuel₂⟩
    rw [Nat.zero_add] at hfuel₂
    subst hfuel₂
    have hlast := streamRead_atEof heof (show 0 < fuel₂ by omega) 1024
    refine ⟨x₂, memory₂, ?_, ?_⟩
    · rw [hrun, hrun₂, hsize]
      exact loadLoop_end hlast rfl b offset memory₂ todo.length
    · exact hstored.rest hsuffix hstored₂ hapart hlong

/-!
# The command
-/

/-- The blocks of a file, the last of them filled up. -/
structure IsCut (file : List Byte) (blocks : List (List Byte)) : Prop where
  front : file <+: blocks.flatten
  tight : blocks.dropLast.flatten.length < file.length
  long : file.length < 2 ^ 31

theorem IsCut.take {file : List Byte} {blocks : List (List Byte)} (h : IsCut file blocks) :
    blocks.flatten.take file.length = file := (List.prefix_iff_eq_take.mp h.front).symm

theorem loadSerialYmodem_open {fuel : Nat} {x' : Xyz}
    (hopen : streamOpen x .ymodem = some (true, .ok, x')) {l : Loop}
    (hloop : loadLoop b offset fuel x' memory 0 = some l) (hrc : l.rc = errOk) :
    loadSerialYmodem b fuel x memory offset = some (loadEnd offset l.memory [] l.size l.x) := by
  unfold loadSerialYmodem
  rw [hopen, Option.bind_eq_bind, Option.bind_some]
  dsimp only
  rw [if_pos rfl, hloop, Option.bind_eq_bind, Option.bind_some, if_neg (not_not.mpr hrc)]

/--
A file that comes in blocks of either size, with noise and with blocks that were there already
before each of them, is in the memory as it was, and the memory is the same elsewhere.
-/
theorem loadSerialYmodem_file {file : List Byte} {blocks : List (List Byte)}
    (hcut : IsCut file blocks) (hroom : x.packet.pkt.length = 1024)
    (hsession : Session file.length blocks (some eot :: rest) x.input)
    (hapart : b.Apart offset file.length) {fuel : Nat} (hfuel : file.length + 1026 < fuel)
    (memory : Memory) :
    exists l, loadSerialYmodem b fuel x memory offset = some l ∧ l.result = offset ∧
      l.filesize = some ((Nat.toDigits 16 file.length).map Char.toUpper) ∧
      memoryRange l.memory offset file.length = file ∧
      forall a, (forall i, i < file.length -> a ≠ offset + BitVec.ofNat 32 i) ->
        (forall j, j < 1024 -> a ≠ b.ymodemBuf + BitVec.ofNat 32 j) -> l.memory a = memory a := by
  have hpos : 0 < file.length := Nat.lt_of_le_of_lt (Nat.zero_le _) hcut.tight
  have hlong := hcut.long
  rcases streamOpen_session hroom hpos hlong (fun _ => hcut.tight) hsession with
    ⟨x₁, hopen, hhands⟩
  rw [hcut.take] at hhands
  rcases loadLoop_file hhands hapart (by omega) hfuel memory with ⟨x₂, memory', hloop, hstored⟩
  refine ⟨_, loadSerialYmodem_open hopen hloop rfl, rfl, rfl, ?_, ?_⟩
  · apply List.ext_getElem
    · rw [memoryRange_length]
    · intro i hi hi'
      have hinside := hstored.inside i hi'
      rw [Nat.zero_add] at hinside
      rw [memoryRange_getElem]
      exact hinside
  · intro a hbytes hbuf
    refine hstored.outside a (fun i hi => ?_) hbuf
    rw [Nat.zero_add]
    exact hbytes i hi

def sampleBlock : List Byte := [1#8, 2#8, 3#8] ++ List.replicate 125 padding

def sampleInfo : List Byte := [0x66#8, 0#8, 0x33#8, 0#8] ++ List.replicate 124 0#8

/-- A transfer behind a silence, with a block of which the end is missing at first. -/
def sampleLine : Line :=
  [[none, none]].flatten ++ ((goodBlock 0#8 sampleInfo).map some ++
    ([[some soh, some 1#8, some 0xfe#8, none]].flatten ++
      ((goodBlock (BitVec.ofNat 8 (0 + 1)) sampleBlock).map some ++
        (List.flatten [] ++ [some eot]))))

def sampleXyz (input : Line) : Xyz where
  input := input
  sent := []
  packet := ⟨List.replicate 1024 0#8, 0, 0#8, 0#8, 0#8, 0#8, 0⟩
  counts := ⟨0, 0, 0, 0⟩
  nextBlk := 0#8
  mode := .ymodem
  crcMode := true
  atEof := false
  txAck := false
  fileLength := 0#32
  readLength := 0#32

def sampleStorage : Storage := ⟨norChip, [], 0x1000#32⟩

theorem sampleStorage_apart {n : Nat} (hn : n ≤ 0x1000) : sampleStorage.Apart 0#32 n := by
  intro i hi
  refine ⟨rfl, fun j hj heq => ?_⟩
  have hplace := congrArg BitVec.toNat heq
  rw [BitVec.zero_add, BitVec.toNat_add, BitVec.toNat_ofNat, BitVec.toNat_ofNat] at hplace
  change i % 2 ^ 32 = (0x1000 + j % 2 ^ 32) % 2 ^ 32 at hplace
  omega

theorem sampleXyz_room (input : Line) : (sampleXyz input).packet.pkt.length = 1024 :=
  List.length_replicate

theorem sampleInfo_isInfo : IsInfo 3 sampleInfo :=
  ⟨[0x66#8], 0#8, List.replicate 124 0#8, by decide, Or.inl rfl, rfl⟩

theorem noise_silence : Noise [none, none] :=
  .silence [] [] ⟨List.not_mem_nil, List.not_mem_nil, by decide, by decide⟩

theorem sampleLine_session : Session 3 [sampleBlock] [some eot] sampleLine := by
  have hcut : Noise [some soh, some 1#8, some 0xfe#8, none] :=
    .cut soh [1#8, 0xfe#8] (Or.inl rfl) (by decide)
  refine ⟨[[none, none]], sampleInfo, _, by decide, ?_, Or.inl rfl, sampleInfo_isInfo, ?_, rfl⟩
  · intro item hitem
    rw [List.mem_singleton.mp hitem]
    exact noise_silence
  · refine .next _ (by decide) (fun line hline => ?_) sampleBlock (Or.inl rfl)
      (.last [] (by decide) (fun line hline => absurd hline List.not_mem_nil))
    rw [List.mem_singleton.mp hline]
    exact .noise hcut

theorem loadSerialYmodem_file_sample : exists l,
    loadSerialYmodem sampleStorage 2000 (sampleXyz sampleLine) (fun _ => 0#8) 0#32 = some l ∧
      l.filesize = some ['3'] ∧ memoryRange l.memory 0#32 3 = [1#8, 2#8, 3#8] := by
  have hcut : IsCut [1#8, 2#8, 3#8] [sampleBlock] :=
    ⟨⟨List.replicate 125 padding, rfl⟩, by decide, by decide⟩
  have hsession : Session [1#8, 2#8, 3#8].length [sampleBlock] (some eot :: [])
      (sampleXyz sampleLine).input := sampleLine_session
  rcases loadSerialYmodem_file hcut (sampleXyz_room _) hsession (sampleStorage_apart (by decide))
    (show 3 + 1026 < 2000 by decide) (fun _ => 0#8) with ⟨l, hload, _, hsize, hmemory, _⟩
  exact ⟨l, hload, hsize, hmemory⟩

end Xyzmodem
end Load
end Bab750

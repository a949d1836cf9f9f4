import Bab750.Boot.Header

/-!
# mkimage

`main` and `copy_file` of `tools/mkimage.c` with `-d`, and `image_set_header` of
`tools/default_image.c`, on a host with 64-bit file sizes. A file is its contents; those of
`-d` are separated by colons, so that there is at least one. What the operating system may
refuse (a path, a full disk) ends the program without an image and is left out.
-/

namespace Bab750
namespace Boot

open Foundation
open Support

/-- `struct mkimage_params`, with a type that `image_check_image_types` accepts. -/
structure MkimageParams where
  os : Byte
  arch : Byte
  type : Byte
  comp : Byte
  addr : BitVec 32
  ep : Option (BitVec 32)
  xflag : Bool
  imagename : List Byte
  mtime : BitVec 32
  typeValid : 0#8 < type ∧ type < 8#8
  imagenameText : 0#8 ∉ imagename

/-- `params.ep` behind the options. -/
def MkimageParams.entryPoint (params : MkimageParams) : BitVec 32 :=
  match params.ep with
  | some ep => ep
  | none =>
      if params.xflag then params.addr + BitVec.ofNat 32 headerSize else params.addr

/-- `params.type == IH_TYPE_MULTI || params.type == IH_TYPE_SCRIPT` -/
def MkimageParams.tabled (params : MkimageParams) : Bool :=
  params.type = typeMulti ∨ params.type = typeScript

def MkimageParams.offset (params : MkimageParams) : Nat :=
  if params.xflag then headerSize else 0

/-- `strncpy` into `ih_name` -/
def truncatedName (imagename : List Byte) : List Byte :=
  (imagename ++ List.replicate 32 0#8).take 32

def tailZeros (size : Nat) : List Byte := List.replicate ((4 - size % 4) % 4) 0#8

/--
`copy_file`: the bytes it writes, and nothing when it exits. `write` answers a negative
`size` with -1, which is taken for success when `size` is -1; with `pad` five bytes of a
four-byte integer would follow then.
-/
def copyFile (params : MkimageParams) (file : List Byte) (pad : Bool) : Option (List Byte) :=
  let size := (BitVec.ofNat 32 (file.length - params.offset)).toInt
  if file = [] then none
  else if params.xflag ∧ (BitVec.ofNat 32 file.length).toNat < headerSize then none
  else if params.xflag ∧ (file.take headerSize).any (fun b => b ≠ 0xff#8) then none
  else if size < -1 then none
  else if size = -1 then (if pad then none else some [])
  else some ((file.drop params.offset).take size.toNat ++
    (if pad then tailZeros size.toNat else []))

def copyFiles (params : MkimageParams) : List (List Byte) -> Option (List Byte)
  | [] => none
  | [file] => copyFile params file false
  | file :: next :: rest =>
      match copyFile params file true, copyFiles params (next :: rest) with
      | some bytes, some others => some (bytes ++ others)
      | _, _ => none

/-- The first loop: `cpu_to_uimage (sbuf.st_size)` for each file, and a zero. -/
def sizeTable (files : List (List Byte)) : List Byte :=
  files.flatMap (fun file => wordBytes (BitVec.ofNat 32 file.length)) ++ wordBytes 0#32

def imageBody (params : MkimageParams) (files : List (List Byte)) : Option (List Byte) :=
  if params.tabled then (copyFiles params files).map (fun bytes => sizeTable files ++ bytes)
  else
    match files with
    | [file] => copyFile params file false
    | _ => none

/-- The fields that `image_set_header` takes from the options. -/
def MkimageParams.fields (params : MkimageParams) : HeaderFields where
  time := params.mtime
  load := params.addr
  ep := params.entryPoint
  os := params.os
  arch := params.arch
  type := params.type
  comp := params.comp
  name := truncatedName params.imagename
  nameLength := by simp [truncatedName]

/-- `image_set_header`; the last argument of `crc32` has 32 bits. -/
def imageSetHeader (params : MkimageParams) (body : List Byte) : List Byte :=
  let size := BitVec.ofNat 32 body.length
  let dcrc := crc32 0#32 0 (body.take size.toNat)
  let checksum := crc32 0#32 0 (headerBytes params.fields 0#32 size dcrc)
  headerBytes params.fields checksum size dcrc

def mkimage (params : MkimageParams) (files : List (List Byte)) : Option (List Byte) :=
  (imageBody params files).map (fun body => imageSetHeader params body ++ body)

/-!
# Reading an image
-/

/-- What the boot loader has to find of an image at an address. -/
structure ReadBack (params : MkimageParams) (files : List (List Byte)) (memory : Memory)
    (hdr : BitVec 32) : Prop where
  magic : imageCheckMagic (headerAt memory hdr) = true
  hcrc : imageCheckHcrc (headerAt memory hdr) = true
  dcrc : imageCheckDcrc memory hdr = true
  type : imageGetType (headerAt memory hdr) = params.type
  os : imageGetOs (headerAt memory hdr) = params.os
  arch : imageGetArch (headerAt memory hdr) = params.arch
  comp : imageGetComp (headerAt memory hdr) = params.comp
  load : imageGetLoad (headerAt memory hdr) = params.addr
  ep : imageGetEp (headerAt memory hdr) = params.entryPoint
  name : imageGetName (headerAt memory hdr) = truncatedName params.imagename
  count : params.tabled = true -> imageMultiCount memory hdr = some files.length
  component : params.tabled = true -> forall i file, files[i]? = some file ->
    exists address size, imageMultiGetimg memory hdr i = some (address, size) ∧
      memoryRange memory address size.toNat = file.drop params.offset

/-- An image is read back wherever it lies in memory. -/
def Readable (params : MkimageParams) (files : List (List Byte)) (image : List Byte) : Prop :=
  forall memory hdr, memoryRange memory hdr image.length = image ->
    ReadBack params files memory hdr

theorem headerBytes_length (f : HeaderFields) (hcrc size dcrc : BitVec 32) :
    (headerBytes f hcrc size dcrc).length = headerSize := by
  simp [headerBytes, headerSize, f.nameLength]

theorem blankHcrc_headerBytes (f : HeaderFields) (hcrc size dcrc : BitVec 32) :
    blankHcrc (headerBytes f hcrc size dcrc) = headerBytes f 0#32 size dcrc := rfl

theorem imageGetName_headerBytes (f : HeaderFields) (hcrc size dcrc : BitVec 32) :
    imageGetName (headerBytes f hcrc size dcrc) = f.name := by
  have hdrop : (headerBytes f hcrc size dcrc).drop 32 = f.name := rfl
  rw [imageGetName, hdrop]
  exact List.take_of_length_le (le_of_eq f.nameLength)

section Header

variable {memory : Memory} {hdr : BitVec 32} {f : HeaderFields} {payload : List Byte}

theorem headerAt_legacyImage
    (h : memoryRange memory hdr (legacyImage f payload).length = legacyImage f payload) :
    headerAt memory hdr = sealedHeader f payload := by
  have hlength : (sealedHeader f payload).length = headerSize := headerBytes_length f _ _ _
  have hslice := memoryRange_slice h 0 headerSize
    (by rw [legacyImage, List.length_append, hlength]; omega)
  rw [BitVec.add_zero, List.drop_zero, legacyImage, List.take_left' hlength] at hslice
  exact hslice

theorem payload_legacyImage
    (h : memoryRange memory hdr (legacyImage f payload).length = legacyImage f payload) :
    memoryRange memory (imageGetData hdr) payload.length = payload := by
  have hlength : (sealedHeader f payload).length = headerSize := headerBytes_length f _ _ _
  have hslice := memoryRange_slice h headerSize payload.length
    (by rw [legacyImage, List.length_append, hlength])
  rw [legacyImage, List.drop_left' hlength, List.take_length] at hslice
  exact hslice

theorem imageCheckHcrc_sealedHeader (f : HeaderFields) (payload : List Byte) :
    imageCheckHcrc (sealedHeader f payload) = true := by
  unfold imageCheckHcrc sealedHeader
  rw [blankHcrc_headerBytes]
  exact decide_eq_true (bytesWord_wordBytes _).symm

theorem imageCheckDcrc_legacyImage (hsize : payload.length < 2 ^ 32)
    (h : memoryRange memory hdr (legacyImage f payload).length = legacyImage f payload) :
    imageCheckDcrc memory hdr = true := by
  have hget : imageGetSize (sealedHeader f payload) = BitVec.ofNat 32 payload.length :=
    bytesWord_wordBytes _
  have hdcrc : imageGetDcrc (sealedHeader f payload) = crc32 0#32 0 payload :=
    bytesWord_wordBytes _
  unfold imageCheckDcrc imagePayload
  rw [headerAt_legacyImage h, hget, hdcrc, BitVec.toNat_ofNat, Nat.mod_eq_of_lt hsize,
    payload_legacyImage h]
  exact decide_eq_true (crc32_addr _ _ _ _)

end Header

/-!
# The table of sizes
-/

theorem sizeTable_eq (files : List (List Byte)) :
    sizeTable files =
      (files.map (fun file => BitVec.ofNat 32 file.length) ++ [0#32]).flatMap wordBytes := by
  simp [sizeTable, List.flatMap_map]

theorem sizeTable_length (files : List (List Byte)) :
    (sizeTable files).length = 4 * (files.length + 1) := by
  rw [sizeTable_eq, wordTable_length]
  simp

section Table

variable {memory : Memory} {hdr : BitVec 32} {files : List (List Byte)} {bytes : List Byte}

theorem componentSize_table
    (h : memoryRange memory (imageGetData hdr) (sizeTable files ++ bytes).length =
      sizeTable files ++ bytes) {i : Nat} {w : BitVec 32}
    (hget : (files.map (fun file => BitVec.ofNat 32 file.length) ++ [0#32])[i]? = some w) :
    componentSize memory hdr i = w := by
  have hi : i < files.length + 1 := by
    have hlt := (List.getElem?_eq_some_iff.mp hget).1
    simpa using hlt
  have hslice := memoryRange_slice h (4 * i) 4
    (by rw [List.length_append, sizeTable_length]; omega)
  unfold componentSize
  rw [hslice, sizeTable_eq, wordTable_slice hget, bytesWord_wordBytes]

theorem componentSize_file
    (h : memoryRange memory (imageGetData hdr) (sizeTable files ++ bytes).length =
      sizeTable files ++ bytes) {i : Nat} {file : List Byte} (hfile : files[i]? = some file) :
    componentSize memory hdr i = BitVec.ofNat 32 file.length := by
  apply componentSize_table h
  rw [List.getElem?_append_left, List.getElem?_map, hfile]
  · rfl
  · rw [List.length_map]
    exact (List.getElem?_eq_some_iff.mp hfile).1

theorem componentSize_end
    (h : memoryRange memory (imageGetData hdr) (sizeTable files ++ bytes).length =
      sizeTable files ++ bytes) :
    componentSize memory hdr files.length = 0#32 := by
  apply componentSize_table h
  rw [List.getElem?_append_right, List.length_map, Nat.sub_self]
  · rfl
  · rw [List.length_map]

theorem countFrom_eq {count : Nat} (hend : componentSize memory hdr count = 0#32) (fuel : Nat) :
    forall i, (forall j, i <= j -> j < count -> componentSize memory hdr j ≠ 0#32) ->
      i <= count -> count - i < fuel -> countFrom memory hdr i fuel = some count := by
  induction fuel with
  | zero =>
      intro i _ _ hfuel
      omega
  | succ fuel ih =>
      intro i hne hle hfuel
      unfold countFrom
      by_cases hi : i = count
      · rw [hi, if_pos hend]
      · rw [if_neg (hne i (Nat.le_refl i) (by omega))]
        exact ih (i + 1) (fun j hj => hne j (by omega)) (by omega) (by omega)

theorem imageMultiCount_table
    (h : memoryRange memory (imageGetData hdr) (sizeTable files ++ bytes).length =
      sizeTable files ++ bytes)
    (hsize : (sizeTable files ++ bytes).length < 2 ^ 32)
    (hfiles : forall file, file ∈ files -> BitVec.ofNat 32 file.length ≠ 0#32) :
    imageMultiCount memory hdr = some files.length := by
  rw [List.length_append, sizeTable_length] at hsize
  apply countFrom_eq (componentSize_end h)
  · intro j _ hj
    rw [componentSize_file h (List.getElem?_eq_getElem hj)]
    exact hfiles _ (List.getElem_mem hj)
  · exact Nat.zero_le _
  · omega

end Table

/-!
# The components
-/

def paddedLength (file : List Byte) : Nat := file.length + (4 - file.length % 4) % 4

def joinFiles : List (List Byte) -> List Byte
  | [] => []
  | [file] => file
  | file :: next :: rest => file ++ tailZeros file.length ++ joinFiles (next :: rest)

def filesOffset (files : List (List Byte)) (i : Nat) : Nat :=
  ((files.take i).map paddedLength).sum

theorem filesOffset_cons (file : List Byte) (files : List (List Byte)) (i : Nat) :
    filesOffset (file :: files) (i + 1) = paddedLength file + filesOffset files i := by
  unfold filesOffset
  rw [List.take_succ_cons, List.map_cons, List.sum_cons]

theorem filesOffset_succ {files : List (List Byte)} {i : Nat} {file : List Byte}
    (h : files[i]? = some file) :
    filesOffset files (i + 1) = filesOffset files i + paddedLength file := by
  unfold filesOffset
  rw [List.take_add_one, h, List.map_append, List.sum_append]
  rfl

theorem joinFiles_slice {files : List (List Byte)} {i : Nat} {file : List Byte}
    (h : files[i]? = some file) :
    filesOffset files i + file.length <= (joinFiles files).length ∧
      ((joinFiles files).drop (filesOffset files i)).take file.length = file := by
  induction files generalizing i with
  | nil =>
      cases h
  | cons first files ih =>
      cases i with
      | zero =>
          cases h
          have hprefix : exists others, joinFiles (file :: files) = file ++ others := by
            cases files with
            | nil =>
                exact ⟨[], (List.append_nil file).symm⟩
            | cons next rest =>
                exact ⟨tailZeros file.length ++ joinFiles (next :: rest),
                  List.append_assoc _ _ _⟩
          rcases hprefix with ⟨others, hjoin⟩
          have hzero : filesOffset (file :: files) 0 = 0 := rfl
          rw [hjoin, hzero, List.drop_zero, List.take_left' rfl, List.length_append]
          exact ⟨by omega, rfl⟩
      | succ i =>
          cases files with
          | nil =>
              cases h
          | cons next rest =>
              have hlength : (first ++ tailZeros first.length).length = paddedLength first := by
                simp [tailZeros, paddedLength]
              rcases ih h with ⟨hfits, hslice⟩
              rw [filesOffset_cons, joinFiles, List.length_append, hlength, <- List.drop_drop,
                List.drop_left' hlength]
              exact ⟨by omega, hslice⟩

theorem and_not_three (x : BitVec 32) : (x &&& ~~~3#32).toNat = x.toNat / 4 * 4 := by
  have hshift : x &&& ~~~3#32 = (x >>> 2) <<< 2 := by
    apply BitVec.eq_of_getLsbD_eq
    intro i hi
    have hthree : (3#32).getLsbD i = decide (i < 2) := by
      have hall : forall j : Fin 32, (3#32).getLsbD j = decide (j.val < 2) := by decide
      exact hall ⟨i, hi⟩
    simp only [BitVec.getLsbD_and, BitVec.getLsbD_not, BitVec.getLsbD_shiftLeft,
      BitVec.getLsbD_ushiftRight, hthree, hi]
    by_cases h2 : i < 2
    · simp [h2]
    · simp [h2, show 2 + (i - 2) = i by omega]
  rw [hshift, BitVec.toNat_shiftLeft, BitVec.toNat_ushiftRight, Nat.shiftRight_eq_div_pow,
    Nat.shiftLeft_eq]
  have hlt := x.isLt
  omega

theorem paddedSize_ofNat {file : List Byte} (h : file.length < 2 ^ 31) :
    paddedSize (BitVec.ofNat 32 file.length) = BitVec.ofNat 32 (paddedLength file) := by
  apply BitVec.eq_of_toNat_eq
  unfold paddedSize paddedLength
  rw [and_not_three, BitVec.toNat_add, BitVec.toNat_ofNat, BitVec.toNat_ofNat,
    BitVec.toNat_ofNat]
  omega

theorem ofNat_length_ne_zero {file : List Byte} (hne : file ≠ [])
    (hlength : file.length < 2 ^ 31) : BitVec.ofNat 32 file.length ≠ 0#32 := by
  intro hzero
  have hnil := congrArg BitVec.toNat hzero
  rw [BitVec.toNat_ofNat, Nat.mod_eq_of_lt (by omega)] at hnil
  exact hne (List.length_eq_zero_iff.mp hnil)

section Components

variable {memory : Memory} {hdr : BitVec 32} {files : List (List Byte)}

theorem componentOffset_table {bytes : List Byte}
    (h : memoryRange memory (imageGetData hdr) (sizeTable files ++ bytes).length =
      sizeTable files ++ bytes)
    {i : Nat} (hi : i <= files.length)
    (hfiles : forall j file, j < i -> files[j]? = some file -> file.length < 2 ^ 31) :
    componentOffset memory hdr i = BitVec.ofNat 32 (filesOffset files i) := by
  induction i with
  | zero =>
      rfl
  | succ i ih =>
      have hget : files[i]? = some (files[i]) := List.getElem?_eq_getElem hi
      rw [componentOffset, ih (by omega) (fun j file hj => hfiles j file (by omega)),
        componentSize_file h hget, paddedSize_ofNat (hfiles i _ (by omega) hget),
        filesOffset_succ hget, BitVec.ofNat_add]

theorem imageMultiGetimg_table
    (h : memoryRange memory (imageGetData hdr) (sizeTable files ++ joinFiles files).length =
      sizeTable files ++ joinFiles files)
    (hsize : (sizeTable files ++ joinFiles files).length < 2 ^ 32)
    (hfiles : forall file, file ∈ files -> file ≠ [] ∧ file.length < 2 ^ 31) {i : Nat}
    {file : List Byte} (hfile : files[i]? = some file) :
    exists address size, imageMultiGetimg memory hdr i = some (address, size) ∧
      memoryRange memory address size.toNat = file := by
  have hi := (List.getElem?_eq_some_iff.mp hfile).1
  have hlength := (hfiles file (List.mem_of_getElem? hfile)).2
  have hcount : imageMultiCount memory hdr = some files.length := by
    apply imageMultiCount_table h hsize
    intro g hg
    exact ofNat_length_ne_zero (hfiles g hg).1 (hfiles g hg).2
  have hoffset := componentOffset_table h (Nat.le_of_lt hi)
    (fun j g _ hg => (hfiles g (List.mem_of_getElem? hg)).2)
  refine ⟨_, _, by rw [imageMultiGetimg, hcount, Option.map_some, if_pos hi], ?_⟩
  rcases joinFiles_slice hfile with ⟨hfits, hslice⟩
  have hrange := memoryRange_slice h (4 * (files.length + 1) + filesOffset files i) file.length
    (by rw [List.length_append, sizeTable_length]; omega)
  rw [<- List.drop_drop, List.drop_left' (sizeTable_length files), hslice, BitVec.ofNat_add,
    <- BitVec.add_assoc] at hrange
  rw [hoffset, componentSize_file h hfile, BitVec.toNat_ofNat,
    Nat.mod_eq_of_lt (by omega)]
  exact hrange

end Components

section Copies

variable {params : MkimageParams} {file bytes : List Byte} {pad : Bool}

theorem copyFile_some (h : copyFile params file pad = some bytes) :
    file ≠ [] ∧ (params.xflag = true -> headerSize <= (BitVec.ofNat 32 file.length).toNat) ∧
      (((BitVec.ofNat 32 (file.length - params.offset)).toInt = -1 ∧ pad = false ∧ bytes = []) ∨
        (0 <= (BitVec.ofNat 32 (file.length - params.offset)).toInt ∧
          bytes = (file.drop params.offset).take
              (BitVec.ofNat 32 (file.length - params.offset)).toInt.toNat ++
            (if pad then
              tailZeros (BitVec.ofNat 32 (file.length - params.offset)).toInt.toNat
            else []))) := by
  unfold copyFile at h
  generalize (BitVec.ofNat 32 (file.length - params.offset)).toInt = size at h
  dsimp only at h
  split at h
  · cases h
  · rename_i hne
    split at h
    · cases h
    · rename_i hx
      split at h
      · cases h
      · split at h
        · cases h
        · have hlarge : params.xflag = true ->
              headerSize <= (BitVec.ofNat 32 file.length).toNat := by
            intro hflag
            exact Nat.le_of_not_lt (fun hlt => hx ⟨hflag, hlt⟩)
          split at h
          · rename_i hsize
            cases pad with
            | true =>
                cases h
            | false =>
                cases h
                exact ⟨hne, hlarge, Or.inl ⟨hsize, rfl, rfl⟩⟩
          · cases h
            exact ⟨hne, hlarge, Or.inr ⟨by omega, rfl⟩⟩

theorem toInt_ofNat_small {n : Nat} (h : n < 2 ^ 31) :
    (BitVec.ofNat 32 n).toInt = n := by
  rw [BitVec.toInt_eq_toNat_cond, BitVec.toNat_ofNat]
  omega

theorem copyFile_plain (h : copyFile params file pad = some bytes)
    (hx : params.xflag = false) (hlength : file.length < 2 ^ 31) :
    file ≠ [] ∧ bytes = file ++ (if pad then tailZeros file.length else []) := by
  rcases copyFile_some h with ⟨hne, _, hcase⟩
  have hoffset : params.offset = 0 := by
    rw [MkimageParams.offset, hx]
    rfl
  rw [hoffset, Nat.sub_zero, toInt_ofNat_small hlength, Int.toNat_natCast, List.drop_zero,
    List.take_length] at hcase
  rcases hcase with ⟨hsize, _⟩ | ⟨_, hbytes⟩
  · omega
  · exact ⟨hne, hbytes⟩

theorem copyFiles_plain {files : List (List Byte)} {bytes : List Byte}
    (h : copyFiles params files = some bytes) (hx : params.xflag = false)
    (hlength : forall file, file ∈ files -> file.length < 2 ^ 31) :
    bytes = joinFiles files ∧ forall file, file ∈ files -> file ≠ [] := by
  induction files generalizing bytes with
  | nil =>
      cases h
  | cons first files ih =>
      have hfirst := hlength first List.mem_cons_self
      cases files with
      | nil =>
          rcases copyFile_plain h hx hfirst with ⟨hne, hbytes⟩
          refine ⟨by simpa [joinFiles] using hbytes, ?_⟩
          intro file hfile
          rw [List.mem_singleton.mp hfile]
          exact hne
      | cons next rest =>
          rw [copyFiles] at h
          split at h
          · rename_i left right hleft hright
            rcases copyFile_plain hleft hx hfirst with ⟨hne, hbytes⟩
            rcases ih hright (fun g hg => hlength g (List.mem_cons_of_mem _ hg)) with
              ⟨hjoin, hothers⟩
            cases h
            refine ⟨by rw [hbytes, hjoin]; rfl, ?_⟩
            intro file hfile
            rcases List.mem_cons.mp hfile with rfl | hfile
            · exact hne
            · exact hothers file hfile
          · cases h

theorem copyFiles_each {files : List (List Byte)} {bytes : List Byte}
    (h : copyFiles params files = some bytes) {i : Nat} (hfile : files[i]? = some file) :
    exists pad copied, copyFile params file pad = some copied ∧
      (i + 1 < files.length -> pad = true) := by
  induction files generalizing bytes i with
  | nil =>
      cases h
  | cons first files ih =>
      cases files with
      | nil =>
          cases i with
          | zero =>
              cases hfile
              exact ⟨false, bytes, h, fun hlt => absurd hlt (by simp)⟩
          | succ i =>
              cases hfile
      | cons next rest =>
          rw [copyFiles] at h
          split at h
          · rename_i left right hleft hright
            cases i with
            | zero =>
                cases hfile
                exact ⟨true, left, hleft, fun _ => rfl⟩
            | succ i =>
                rcases ih hright hfile with ⟨pad, copied, hcopy, hpad⟩
                exact ⟨pad, copied, hcopy, fun hlt => hpad (by simpa using hlt)⟩
          · cases h

theorem copyFiles_dropped {files : List (List Byte)} {bytes : List Byte}
    (h : copyFiles params files = some bytes) (hx : params.xflag = false) {i : Nat}
    (hfile : files[i]? = some file) (hlarge : file.length = 2 ^ 32 - 1)
    (hfront : forall j g, j < i -> files[j]? = some g -> g.length < 2 ^ 31) :
    bytes.length = filesOffset files i := by
  have hoffset : params.offset = 0 := by
    rw [MkimageParams.offset, hx]
    rfl
  have hsize : (BitVec.ofNat 32 (file.length - params.offset)).toInt = -1 := by
    rw [hoffset, hlarge]
    rfl
  induction files generalizing bytes i with
  | nil =>
      cases h
  | cons first files ih =>
      cases files with
      | nil =>
          cases i with
          | zero =>
              cases hfile
              rcases (copyFile_some h).2.2 with ⟨_, _, hbytes⟩ | ⟨hge, _⟩
              · rw [hbytes]
                rfl
              · omega
          | succ i =>
              cases hfile
      | cons next rest =>
          rw [copyFiles] at h
          split at h
          · rename_i left right hleft hright
            cases h
            cases i with
            | zero =>
                cases hfile
                rcases (copyFile_some hleft).2.2 with ⟨_, hpad, _⟩ | ⟨hge, _⟩
                · cases hpad
                · omega
            | succ i =>
                have hfirst := hfront 0 first (Nat.succ_pos i) rfl
                have hrest := ih hright hfile (fun j g hj hg => hfront (j + 1) g (by omega) hg)
                have hleft := (copyFile_plain hleft hx hfirst).2
                rw [List.length_append, hrest, filesOffset_cons, hleft, paddedLength]
                simp [tailZeros]
          · cases h

end Copies

/-!
# Both sides
-/

section Image

variable {params : MkimageParams} {files : List (List Byte)} {image : List Byte}

theorem mkimage_some (h : mkimage params files = some image) (hfits : image.length < 2 ^ 32) :
    exists body, imageBody params files = some body ∧ body.length < 2 ^ 32 ∧
      image = legacyImage params.fields body := by
  rcases Option.map_eq_some_iff.mp h with ⟨body, hbody, rfl⟩
  have hlength : body.length < 2 ^ 32 := by
    rw [List.length_append] at hfits
    omega
  have hsize : (BitVec.ofNat 32 body.length).toNat = body.length := by
    rw [BitVec.toNat_ofNat, Nat.mod_eq_of_lt hlength]
  refine ⟨body, hbody, hlength, ?_⟩
  rw [imageSetHeader, hsize, List.take_length]
  rfl

theorem imageBody_tabled {body : List Byte} (h : imageBody params files = some body)
    (htabled : params.tabled = true) :
    exists bytes, copyFiles params files = some bytes ∧ body = sizeTable files ++ bytes := by
  unfold imageBody at h
  rw [if_pos htabled] at h
  rcases Option.map_eq_some_iff.mp h with ⟨bytes, hcopy, rfl⟩
  exact ⟨bytes, hcopy, rfl⟩

theorem readable_of_plain (h : mkimage params files = some image)
    (hfits : image.length < 2 ^ 32)
    (hplain : params.tabled = true ->
      params.xflag = false ∧ forall file, file ∈ files -> file.length < 2 ^ 31) :
    Readable params files image := by
  rcases mkimage_some h hfits with ⟨body, hbody, hlength, rfl⟩
  intro memory hdr hread
  have hheader := headerAt_legacyImage hread
  have hpayload := payload_legacyImage hread
  have hcomponents : params.tabled = true -> exists bytes, body = sizeTable files ++ bytes ∧
      bytes = joinFiles files ∧ forall file, file ∈ files -> file ≠ [] ∧
        file.length < 2 ^ 31 := by
    intro htabled
    rcases imageBody_tabled hbody htabled with ⟨bytes, hcopy, hsplit⟩
    rcases hplain htabled with ⟨hx, hsmall⟩
    rcases copyFiles_plain hcopy hx hsmall with ⟨hjoin, hne⟩
    exact ⟨bytes, hsplit, hjoin, fun file hfile => ⟨hne file hfile, hsmall file hfile⟩⟩
  constructor
  case magic =>
    rw [hheader]
    exact decide_eq_true (bytesWord_wordBytes ihMagic)
  case hcrc =>
    rw [hheader]
    exact imageCheckHcrc_sealedHeader params.fields body
  case dcrc =>
    exact imageCheckDcrc_legacyImage hlength hread
  case type =>
    rw [hheader]
    rfl
  case os =>
    rw [hheader]
    rfl
  case arch =>
    rw [hheader]
    rfl
  case comp =>
    rw [hheader]
    rfl
  case load =>
    rw [hheader]
    exact bytesWord_wordBytes params.addr
  case ep =>
    rw [hheader]
    exact bytesWord_wordBytes params.entryPoint
  case name =>
    rw [hheader]
    exact imageGetName_headerBytes params.fields _ _ _
  case count =>
    intro htabled
    rcases hcomponents htabled with ⟨bytes, rfl, _, hfiles⟩
    apply imageMultiCount_table hpayload hlength
    intro file hfile
    exact ofNat_length_ne_zero (hfiles file hfile).1 (hfiles file hfile).2
  case component =>
    intro htabled i file hfile
    rcases hcomponents htabled with ⟨bytes, rfl, rfl, hfiles⟩
    have hoffset : params.offset = 0 := by
      rw [MkimageParams.offset, (hplain htabled).1]
      rfl
    rw [hoffset, List.drop_zero]
    exact imageMultiGetimg_table hpayload hlength hfiles hfile

theorem component_size {memory : Memory} {hdr : BitVec 32} {bytes : List Byte}
    (h : ReadBack params files memory hdr) (htabled : params.tabled = true)
    (hpayload : memoryRange memory (imageGetData hdr) (sizeTable files ++ bytes).length =
      sizeTable files ++ bytes) {i : Nat} {file : List Byte} (hfile : files[i]? = some file) :
    file.length % 2 ^ 32 = file.length - params.offset ∧
      memoryRange memory (imageGetData hdr + BitVec.ofNat 32 (4 * (files.length + 1)) +
        componentOffset memory hdr i) (file.length % 2 ^ 32) = file.drop params.offset := by
  have hi := (List.getElem?_eq_some_iff.mp hfile).1
  rcases h.component htabled i file hfile with ⟨address, size, hget, hrange⟩
  rw [imageMultiGetimg, h.count htabled, Option.map_some, if_pos hi,
    componentSize_file hpayload hfile] at hget
  cases hget
  rw [BitVec.toNat_ofNat] at hrange
  have hlength := congrArg List.length hrange
  rw [memoryRange_length, List.length_drop] at hlength
  exact ⟨hlength, hrange⟩

/-- A memory with the image at address 0 and one byte everywhere else. -/
def loadedMemory (image : List Byte) (fill : Byte) : Memory :=
  copyMemory (fun _ => fill) 0#32 image

theorem loadedMemory_behind (fill : Byte) (hfits : image.length < 2 ^ 32) :
    loadedMemory image fill (BitVec.ofNat 32 image.length) = fill := by
  apply copyMemory_outside
  intro i hi heq
  have hnat := congrArg BitVec.toNat heq
  rw [BitVec.zero_add, BitVec.toNat_ofNat, BitVec.toNat_ofNat, Nat.mod_eq_of_lt hfits,
    Nat.mod_eq_of_lt (by omega)] at hnat
  omega

theorem xflag_of_sizes {bytes : List Byte} (hcopy : copyFiles params files = some bytes)
    (hsizes : forall (i : Nat) (file : List Byte), files[i]? = some file ->
      file.length % 2 ^ 32 = file.length - params.offset) : params.xflag = false := by
  cases hx : params.xflag with
  | false =>
      rfl
  | true =>
      cases files with
      | nil =>
          cases hcopy
      | cons first rest =>
          have hfirst : (first :: rest)[0]? = some first := rfl
          rcases copyFiles_each hcopy hfirst with ⟨pad, copied, hfile, _⟩
          have hlarge := (copyFile_some hfile).2.1 hx
          have hsize := hsizes 0 first hfirst
          rw [BitVec.toNat_ofNat, headerSize] at hlarge
          rw [MkimageParams.offset, hx, if_pos rfl, headerSize] at hsize
          omega

theorem file_small_or_dropped {bytes : List Byte}
    (hcopy : copyFiles params files = some bytes) (hx : params.xflag = false)
    (hsizes : forall (i : Nat) (file : List Byte), files[i]? = some file ->
      file.length % 2 ^ 32 = file.length - params.offset) {i : Nat} {file : List Byte}
    (hfile : files[i]? = some file) :
    file.length < 2 ^ 31 ∨ (file.length = 2 ^ 32 - 1 ∧ files.length <= i + 1) := by
  have hoffset : params.offset = 0 := by
    rw [MkimageParams.offset, hx]
    rfl
  have hsize := hsizes i file hfile
  rcases copyFiles_each hcopy hfile with ⟨pad, copied, hcopied, hpad⟩
  have hcase := (copyFile_some hcopied).2.2
  rw [hoffset, Nat.sub_zero] at hcase hsize
  rw [BitVec.toInt_eq_toNat_cond, BitVec.toNat_ofNat, hsize] at hcase
  rcases hcase with ⟨hminus, hfalse, _⟩ | ⟨hge, _⟩
  · right
    constructor
    · omega
    · apply Nat.le_of_not_lt
      intro hlt
      rw [hpad hlt] at hfalse
      cases hfalse
  · left
    omega

theorem plain_of_readable (h : mkimage params files = some image)
    (hfits : image.length < 2 ^ 32) (hread : Readable params files image)
    (htabled : params.tabled = true) :
    params.xflag = false ∧ forall file, file ∈ files -> file.length < 2 ^ 31 := by
  rcases mkimage_some h hfits with ⟨body, hbody, hlength, himage⟩
  rcases imageBody_tabled hbody htabled with ⟨bytes, hcopy, rfl⟩
  have hheld : forall fill,
      memoryRange (loadedMemory image fill) 0#32 image.length = image := by
    intro fill
    exact memoryRange_copyMemory _ 0#32 image (by omega)
  have hpayload : forall fill, memoryRange (loadedMemory image fill) (imageGetData 0#32)
      (sizeTable files ++ bytes).length = sizeTable files ++ bytes := by
    intro fill
    have hheld := hheld fill
    rw [himage] at hheld
    rw [himage]
    exact payload_legacyImage hheld
  have hcomponent := fun fill (i : Nat) (file : List Byte) (hfile : files[i]? = some file) =>
    component_size (hread _ _ (hheld fill)) htabled (hpayload fill) hfile
  have hsizes := fun i file hfile => (hcomponent 0#8 i file hfile).1
  have hx := xflag_of_sizes hcopy hsizes
  refine ⟨hx, ?_⟩
  intro file hmem
  rcases List.getElem?_of_mem hmem with ⟨i, hfile⟩
  rcases file_small_or_dropped hcopy hx hsizes hfile with hsmall | ⟨hlarge, hlast⟩
  · exact hsmall
  · -- the component would be whatever lies behind the image
    have hi := (List.getElem?_eq_some_iff.mp hfile).1
    have hfront : forall j g, j < i -> files[j]? = some g -> g.length < 2 ^ 31 := by
      intro j g hj hg
      rcases file_small_or_dropped hcopy hx hsizes hg with hsmall | ⟨_, hlast⟩
      · exact hsmall
      · omega
    have hbytes := copyFiles_dropped hcopy hx hfile hlarge hfront
    have hoffset : params.offset = 0 := by
      rw [MkimageParams.offset, hx]
      rfl
    have hend : image.length = headerSize + 4 * (files.length + 1) + filesOffset files i := by
      rw [himage, legacyImage, List.length_append, List.length_append, sizeTable_length,
        hbytes, sealedHeader, headerBytes_length]
      omega
    have hfirst : forall fill, file.head? = some fill := by
      intro fill
      have hrange := (hcomponent fill i file hfile).2
      have haddress : imageGetData 0#32 + BitVec.ofNat 32 (4 * (files.length + 1)) +
          componentOffset (loadedMemory image fill) 0#32 i = BitVec.ofNat 32 image.length := by
        rw [componentOffset_table (hpayload fill) (Nat.le_of_lt hi) hfront, hend,
          BitVec.ofNat_add, BitVec.ofNat_add, imageGetData, BitVec.zero_add]
      have hcount : file.length % 2 ^ 32 = (2 ^ 32 - 2) + 1 := by
        omega
      rw [haddress, hcount, memoryRange_succ, loadedMemory_behind fill hfits, hoffset,
        List.drop_zero] at hrange
      rw [<- hrange]
      rfl
    have hzero := hfirst 0#8
    rw [hfirst 1#8] at hzero
    cases hzero

end Image

/--
The boot loader reads an image of `mkimage` that its memory can hold as it was asked for,
if and only if a table of sizes is not combined with `-x` and lists no file of two gigabytes
or more.
-/
theorem mkimage_readable_iff {params : MkimageParams} {files : List (List Byte)}
    {image : List Byte} (h : mkimage params files = some image)
    (hfits : image.length < 2 ^ 32) :
    Readable params files image <-> (params.tabled = true ->
      params.xflag = false ∧ forall file, file ∈ files -> file.length < 2 ^ 31) := by
  constructor
  · intro hread htabled
    exact plain_of_readable h hfits hread htabled
  · intro hplain
    exact readable_of_plain h hfits hplain

/-- A script, with or without `-x`. -/
def scriptParams (xflag : Bool) : MkimageParams where
  os := osLinux
  arch := archPpc
  type := typeScript
  comp := compNone
  addr := 0#32
  ep := none
  xflag := xflag
  imagename := ascii "boot"
  mtime := 0#32
  typeValid := by decide
  imagenameText := by decide

theorem image_fits {params : MkimageParams} {files : List (List Byte)} {body : List Byte}
    (h : imageBody params files = some body) (hsize : body.length <= 1000) :
    exists image, mkimage params files = some image ∧ image.length < 2 ^ 32 := by
  refine ⟨imageSetHeader params body ++ body, by rw [mkimage, h, Option.map_some], ?_⟩
  rw [List.length_append, imageSetHeader, headerBytes_length, headerSize]
  omega

theorem mkimage_readable_two_files :
    exists image, mkimage (scriptParams false) [ascii "print", ascii "reset"] = some image ∧
      image.length < 2 ^ 32 ∧
      Readable (scriptParams false) [ascii "print", ascii "reset"] image := by
  have hbody : imageBody (scriptParams false) [ascii "print", ascii "reset"] =
      some ([0, 0, 0, 5, 0, 0, 0, 5, 0, 0, 0, 0] ++ ascii "print" ++ [0, 0, 0] ++
        ascii "reset") := by decide
  rcases image_fits hbody (by decide) with ⟨image, himage, hfits⟩
  refine ⟨image, himage, hfits, (mkimage_readable_iff himage hfits).mpr ?_⟩
  intro _
  exact ⟨rfl, by decide⟩

def xipScript : List Byte := List.replicate 64 0xff#8 ++ ascii "print"

/-- With `-x` the table keeps the size with the space for the header, which is not copied. -/
theorem mkimage_xip_table_unreadable :
    exists image, mkimage (scriptParams true) [xipScript] = some image ∧
      image.length < 2 ^ 32 ∧ ¬ Readable (scriptParams true) [xipScript] image := by
  have hbody : imageBody (scriptParams true) [xipScript] =
      some ([0, 0, 0, 69, 0, 0, 0, 0] ++ ascii "print") := by decide
  rcases image_fits hbody (by decide) with ⟨image, himage, hfits⟩
  refine ⟨image, himage, hfits, ?_⟩
  intro hread
  cases (plain_of_readable himage hfits hread rfl).1

end Boot
end Bab750

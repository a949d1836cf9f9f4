import Bab750.Environment.Persistence

/-!
# Three writers of one device

`saveenv`, the shadow of the revision info that `misc_init_r` writes, and `rtc_set` share
the chip behind its address and data ports.  Each of them writes a range of its own.  The
environment comes back after a reset whenever its checksum was right when it was saved.
-/

namespace Bab750
namespace Environment

open Foundation
open Support

/-!
# The ports
-/

structure Mk48t59 where
  addr0 : Byte
  addr1 : Byte
  cells : Nvram

/-- `out8(RTC_PORT_ADDR0, val)`. -/
def outAddr0 (chip : Mk48t59) (val : Byte) : Mk48t59 := { chip with addr0 := val }

/-- `out8(RTC_PORT_ADDR1, val)`. -/
def outAddr1 (chip : Mk48t59) (val : Byte) : Mk48t59 := { chip with addr1 := val }

/-- `out8(RTC_PORT_DATA, val)`. -/
def outData (chip : Mk48t59) (val : Byte) : Mk48t59 :=
  { chip with cells := rtcWrite chip.cells (chip.addr1 ++ chip.addr0) val }

/-- `in8(RTC_PORT_DATA)`. -/
def inData (chip : Mk48t59) : Byte := rtcRead chip.cells (chip.addr1 ++ chip.addr0)

def selectRegister (chip : Mk48t59) (reg : BitVec 16) : Mk48t59 :=
  outAddr1 (outAddr0 chip ((reg &&& 0xff#16).setWidth 8))
    (((reg >>> 8) &&& 0xff#16).setWidth 8)

/-- `rtc_read` at the ports. -/
def portRead (chip : Mk48t59) (reg : BitVec 16) : Byte × Mk48t59 :=
  (inData (selectRegister chip reg), selectRegister chip reg)

/-- `rtc_write` at the ports. -/
def portWrite (chip : Mk48t59) (reg : BitVec 16) (val : Byte) : Mk48t59 :=
  outData (selectRegister chip reg) val

/-- `nvram_read` at the ports. -/
def portReadAll (chip : Mk48t59) (src : BitVec 16) : Nat -> List Byte × Mk48t59
  | 0 => ([], chip)
  | count + 1 =>
      let first := portRead chip src
      let rest := portReadAll first.2 (src + 1#16) count
      (first.1 :: rest.1, rest.2)

/-- `nvram_write` at the ports. -/
def portWriteAll (chip : Mk48t59) (dest : BitVec 16) : List Byte -> Mk48t59
  | [] => chip
  | b :: src => portWriteAll (portWrite chip dest b) (dest + 1#16) src

theorem register_parts (reg : BitVec 16) :
    ((reg >>> 8) &&& 0xff#16).setWidth 8 ++ (reg &&& 0xff#16).setWidth 8 = reg := by
  have hmask : forall i, i < 8 -> (0xff#16).getLsbD i = true := by decide
  apply BitVec.eq_of_getLsbD_eq
  intro i hi
  rw [BitVec.getLsbD_append]
  split
  case isTrue hlow =>
      rw [BitVec.getLsbD_setWidth, BitVec.getLsbD_and, hmask i hlow]
      simp [hlow]
  case isFalse hhigh =>
      have hindex : 8 + (i - 8) = i := by omega
      rw [BitVec.getLsbD_setWidth, BitVec.getLsbD_and, BitVec.getLsbD_ushiftRight,
        hmask (i - 8) (by omega), hindex]
      simp
      omega

theorem portRead_eq (chip : Mk48t59) (reg : BitVec 16) :
    (portRead chip reg).1 = rtcRead chip.cells reg ∧
      (portRead chip reg).2.cells = chip.cells := by
  exact ⟨congrArg (rtcRead chip.cells) (register_parts reg), rfl⟩

theorem portWrite_cells (chip : Mk48t59) (reg : BitVec 16) (val : Byte) :
    (portWrite chip reg val).cells = rtcWrite chip.cells reg val :=
  congrArg (fun r => rtcWrite chip.cells r val) (register_parts reg)

theorem portReadAll_eq (chip : Mk48t59) (src : BitVec 16) (count : Nat) :
    (portReadAll chip src count).1 = nvramRead chip.cells src count ∧
      (portReadAll chip src count).2.cells = chip.cells := by
  induction count generalizing chip src with
  | zero =>
      exact ⟨rfl, rfl⟩
  | succ count ih =>
      rcases portRead_eq chip src with ⟨hfirst, hcells⟩
      rcases ih (portRead chip src).2 (src + 1#16) with ⟨hrest, hlast⟩
      constructor
      · show (portRead chip src).1 :: (portReadAll (portRead chip src).2 _ count).1 = _
        rw [hfirst, hrest, hcells]
        rfl
      · exact hlast.trans hcells

theorem portWriteAll_cells (chip : Mk48t59) (dest : BitVec 16) (src : List Byte) :
    (portWriteAll chip dest src).cells = nvramWrite chip.cells dest src := by
  induction src generalizing chip dest with
  | nil =>
      rfl
  | cons b src ih =>
      show (portWriteAll (portWrite chip dest b) _ src).cells = _
      rw [ih, portWrite_cells]
      rfl

/-!
# The writers
-/

def configSysNvramSize : BitVec 16 := 0x1ff0#16

def configSysNvSromCopyAddr : BitVec 16 := configSysNvramSize + 0x10#16 - 0x400#16

def configSysSromSize : Nat := 0x100

/-- A `struct rtc_time`, as far as `rtc_set` reads it. -/
structure RtcTime where
  sec : Int
  min : Int
  hour : Int
  mday : Int
  wday : Int
  mon : Int
  year : Int

/-- `bin2bcd` for an `int` argument. -/
def bin2bcd (val : Int) : Byte :=
  let val := BitVec.ofInt 32 val
  (((val / 10#32) <<< 4) ||| (val % 10#32)).setWidth 8

def rtcControlA : BitVec 16 := 0x1ff8#16
def rtcSeconds : BitVec 16 := 0x1ff9#16
def rtcMinutes : BitVec 16 := 0x1ffa#16
def rtcHours : BitVec 16 := 0x1ffb#16
def rtcDayOfWeek : BitVec 16 := 0x1ffc#16
def rtcDayOfMonth : BitVec 16 := 0x1ffd#16
def rtcMonth : BitVec 16 := 0x1ffe#16
def rtcYear : BitVec 16 := 0x1fff#16

def rtcCaWrite : Byte := 0x80#8

/-- The registers that `rtc_set` writes behind the control register, and their values. -/
def timeRegisters (tmp : RtcTime) : List (BitVec 16 × Byte) :=
  [(rtcYear, bin2bcd (tmp.year.tmod 100)), (rtcMonth, bin2bcd tmp.mon),
    (rtcDayOfWeek, bin2bcd tmp.wday), (rtcDayOfMonth, bin2bcd tmp.mday),
    (rtcHours, bin2bcd tmp.hour), (rtcMinutes, bin2bcd tmp.min),
    (rtcSeconds, bin2bcd tmp.sec)]

def portWrites (chip : Mk48t59) (writes : List (BitVec 16 × Byte)) : Mk48t59 :=
  writes.foldl (fun chip write => portWrite chip write.1 write.2) chip

def rtcSet (chip : Mk48t59) (tmp : RtcTime) : Mk48t59 :=
  let read := portRead chip rtcControlA
  let saveCtrlA := read.1 ||| rtcCaWrite
  portWrites read.2 ((rtcControlA, saveCtrlA) :: timeRegisters tmp ++
    [(rtcControlA, saveCtrlA &&& ~~~ rtcCaWrite)])

inductive Writer where
  | saveenv (s : BoardState)
  /-- The `nvram_write` of `misc_init_r`, with the bytes of `eerev`. -/
  | shadow (eerev : List Byte)
  | rtcSet (tmp : RtcTime)

def Writer.run (chip : Mk48t59) : Writer -> Mk48t59
  | .saveenv s => portWriteAll chip configEnvAddr ((envImage s).take configEnvSize)
  | .shadow eerev =>
      portWriteAll chip configSysNvSromCopyAddr (eerev.take configSysSromSize)
  | .rtcSet tmp => Environment.rtcSet chip tmp

inductive Region where
  | environment
  | shadow
  | clock
deriving DecidableEq

def Writer.region : Writer -> Region
  | .saveenv _ => .environment
  | .shadow _ => .shadow
  | .rtcSet _ => .clock

def Region.Has : Region -> BitVec 16 -> Prop
  | .environment, r => configEnvAddr.toNat <= r.toNat ∧
      r.toNat < configEnvAddr.toNat + configEnvSize
  | .shadow, r => configSysNvSromCopyAddr.toNat <= r.toNat ∧
      r.toNat < configSysNvSromCopyAddr.toNat + configSysSromSize
  | .clock, r => configSysNvramSize.toNat <= r.toNat

theorem regions_disjoint {a b : Region} {r : BitVec 16} (ha : a.Has r) (hb : b.Has r) :
    a = b := by
  have henv : configEnvAddr.toNat = 0x1800 := by decide
  have hsrom : configSysNvSromCopyAddr.toNat = 0x1c00 := by decide
  have hclock : configSysNvramSize.toNat = 0x1ff0 := by decide
  have hsize : configEnvSize = 0x400 := rfl
  have hsromSize : configSysSromSize = 0x100 := rfl
  cases a <;> cases b <;> simp only [Region.Has] at ha hb <;> first | rfl | omega

/-!
# Frames
-/

theorem nvramWrite_frame (nv : Nvram) (dest : BitVec 16) (src : List Byte) {r : BitVec 16}
    (hfits : dest.toNat + src.length <= 2 ^ 16)
    (hout : ¬ (dest.toNat <= r.toNat ∧ r.toNat < dest.toNat + src.length)) :
    nvramWrite nv dest src r = nv r := by
  refine nvramWrite_outside nv dest src r ?_
  rintro k hk rfl
  refine hout ?_
  rw [BitVec.toNat_add, BitVec.toNat_ofNat, Nat.add_mod_mod,
    Nat.mod_eq_of_lt (show dest.toNat + k < 2 ^ 16 by omega)]
  omega

theorem portWrites_frame (writes : List (BitVec 16 × Byte)) (chip : Mk48t59)
    {r : BitVec 16} (hout : forall write, write ∈ writes -> r ≠ write.1) :
    (portWrites chip writes).cells r = chip.cells r := by
  induction writes generalizing chip with
  | nil =>
      rfl
  | cons write writes ih =>
      show (portWrites (portWrite chip write.1 write.2) writes).cells r = _
      rw [ih _ (fun other hother => hout other (List.mem_cons_of_mem _ hother)),
        portWrite_cells]
      exact if_neg (hout write List.mem_cons_self)

theorem writer_frame (w : Writer) (chip : Mk48t59) {r : BitVec 16}
    (hout : ¬ w.region.Has r) : (w.run chip).cells r = chip.cells r := by
  cases w with
  | saveenv s =>
      show (portWriteAll chip configEnvAddr _).cells r = _
      rw [portWriteAll_cells]
      have hlength : ((envImage s).take configEnvSize).length <= configEnvSize :=
        List.length_take_le _ _
      have hroom : configEnvAddr.toNat + configEnvSize <= 2 ^ 16 := by decide
      refine nvramWrite_frame _ _ _ (by omega) (fun hin => hout ⟨hin.left, ?_⟩)
      exact Nat.lt_of_lt_of_le hin.right (Nat.add_le_add_left hlength _)
  | shadow eerev =>
      show (portWriteAll chip configSysNvSromCopyAddr _).cells r = _
      rw [portWriteAll_cells]
      have hlength : (eerev.take configSysSromSize).length <= configSysSromSize :=
        List.length_take_le _ _
      have hroom : configSysNvSromCopyAddr.toNat + configSysSromSize <= 2 ^ 16 := by decide
      refine nvramWrite_frame _ _ _ (by omega) (fun hin => hout ⟨hin.left, ?_⟩)
      exact Nat.lt_of_lt_of_le hin.right (Nat.add_le_add_left hlength _)
  | rtcSet tmp =>
      show (portWrites (portRead chip rtcControlA).2 _).cells r = _
      rw [portWrites_frame, (portRead_eq chip rtcControlA).right]
      rintro write hwrite rfl
      refine hout ?_
      simp only [timeRegisters, List.cons_append, List.nil_append, List.mem_cons,
        List.not_mem_nil, or_false] at hwrite
      rcases hwrite with rfl | rfl | rfl | rfl | rfl | rfl | rfl | rfl | rfl <;>
        exact Nat.le_of_ble_eq_true rfl

theorem writers_frame (writers : List Writer) (chip : Mk48t59) {r : BitVec 16}
    (hout : forall w, w ∈ writers -> ¬ w.region.Has r) :
    (writers.foldl Writer.run chip).cells r = chip.cells r := by
  induction writers generalizing chip with
  | nil =>
      rfl
  | cons w writers ih =>
      rw [List.foldl_cons, ih _ (fun other hother => hout other
        (List.mem_cons_of_mem _ hother))]
      exact writer_frame w chip (hout w List.mem_cons_self)

/-!
# Saved and found again
-/

/-- The environment in RAM behind a reset, `env_init`, and `env_relocate`. -/
def rebooted (s : BoardState) (chip : Mk48t59) (stack : Nat) (block : EnvBlock) :
    BoardState :=
  (envRelocate s chip.cells (envInit chip.cells stack) block).2

theorem nvramRead_congr {nv nv' : Nvram} (src : BitVec 16) (count : Nat)
    (h : forall k, k < count ->
      nv (src + BitVec.ofNat 16 k) = nv' (src + BitVec.ofNat 16 k)) :
    nvramRead nv src count = nvramRead nv' src count := by
  induction count generalizing src with
  | zero =>
      rfl
  | succ count ih =>
      have hfirst := h 0 (Nat.zero_lt_succ _)
      rw [show src + BitVec.ofNat 16 0 = src by simp] at hfirst
      rw [nvramRead, nvramRead, rtcRead, rtcRead, hfirst, ih]
      intro k hk
      rw [register_succ]
      exact h (k + 1) (Nat.succ_lt_succ hk)

theorem rebooted_congr {chip chip' : Mk48t59}
    (h : nvramRead chip.cells configEnvAddr configEnvSize =
      nvramRead chip'.cells configEnvAddr configEnvSize)
    (s : BoardState) (stack : Nat) (block : EnvBlock) :
    rebooted s chip stack block = rebooted s chip' stack block := by
  have hsplit : forall nv : Nvram, nvramRead nv configEnvAddr configEnvSize =
      nvramRead nv configEnvAddr 4 ++ nvramRead nv (configEnvAddr + 4#16) envSize :=
    fun nv => nvramRead_add nv configEnvAddr 4 envSize
  have hparts := h
  rw [hsplit, hsplit] at hparts
  rcases List.append_inj hparts (by rw [nvramRead_length, nvramRead_length]) with
    ⟨hcrc, hdata⟩
  have hinit : envInit chip.cells stack = envInit chip'.cells stack := by
    unfold envInit
    rw [hcrc, hdata]
  unfold rebooted
  rw [hinit]
  unfold envRelocate envRelocateSpec
  rw [h]

theorem environment_has {k : Nat} (hk : k < configEnvSize) :
    Region.environment.Has (configEnvAddr + BitVec.ofNat 16 k) := by
  have henv : configEnvAddr.toNat = 0x1800 := by decide
  have hsize : configEnvSize = 0x400 := rfl
  have hnat : (configEnvAddr + BitVec.ofNat 16 k).toNat = configEnvAddr.toNat + k := by
    rw [BitVec.toNat_add, BitVec.toNat_ofNat, Nat.add_mod_mod]
    exact Nat.mod_eq_of_lt (by omega)
  simp only [Region.Has, hnat]
  omega

theorem stored_stays (w : Writer) (chip : Mk48t59) (after : List Writer) {r : BitVec 16}
    (hr : w.region.Has r) (hafter : forall v, v ∈ after -> v.region ≠ w.region) :
    (after.foldl Writer.run (w.run chip)).cells r = (w.run chip).cells r :=
  writers_frame after _ (fun v hv hhas => hafter v hv (regions_disjoint hhas hr))

theorem rebooted_saved (s : BoardState) (hsize : s.data.length = envSize)
    (hcrc : CrcValid s) (chip : Mk48t59) (after : List Writer)
    (hafter : forall v, v ∈ after -> v.region ≠ .environment) (s' : BoardState)
    (stack : Nat) (block : EnvBlock) :
    rebooted s' (after.foldl Writer.run ((Writer.saveenv s).run chip)) stack block =
      { s' with envPtr := block.address, crc := s.crc, data := s.data } := by
  have hread : nvramRead (after.foldl Writer.run ((Writer.saveenv s).run chip)).cells
      configEnvAddr configEnvSize =
        nvramRead ((Writer.saveenv s).run chip).cells configEnvAddr configEnvSize :=
    nvramRead_congr _ _ (fun k hk =>
      stored_stays (.saveenv s) chip after (environment_has hk) hafter)
  have hcells : ((Writer.saveenv s).run chip).cells = saveenv s chip.cells :=
    portWriteAll_cells _ _ _
  rw [rebooted_congr hread]
  unfold rebooted
  rw [hcells, (envInit_saveenv s chip.cells stack hsize).mpr hcrc,
    envRelocate_saveenv s s' chip.cells block hsize]

theorem rebooted_crcValid (s : BoardState) (chip : Mk48t59) (stack : Nat)
    (block : EnvBlock) : CrcValid (rebooted s chip stack block) :=
  (envRelocate_crcValid s chip.cells stack block).left

theorem crcValid_of_image {s t : BoardState} (himage : envImage t = envImage s)
    (hvalid : CrcValid t) : CrcValid s := by
  rcases List.append_inj himage (by rw [wordBytes_length, wordBytes_length]) with
    ⟨hcrc, hdata⟩
  have hword := congrArg bytesWord hcrc
  rw [bytesWord_wordBytes, bytesWord_wordBytes] at hword
  unfold CrcValid at hvalid ⊢
  rw [← hword, ← hdata]
  exact hvalid.trans (crc32_addr _ _ _ _)

/--
The environment comes back byte for byte, whatever the other two writers do in between,
and no writer leaves its region or loses what another one has stored, if and only if the
checksum of the environment is right when it is saved.
-/
theorem nvram_persistent_iff (s : BoardState) (hsize : s.data.length = envSize) :
    ((forall (chip : Mk48t59) (after : List Writer) (s' : BoardState) (stack : Nat)
          (block : EnvBlock), (forall v, v ∈ after -> v.region ≠ .environment) ->
        envImage (rebooted s' (after.foldl Writer.run ((Writer.saveenv s).run chip)) stack
          block) = envImage s) ∧
      (forall (w : Writer) (chip : Mk48t59) (r : BitVec 16), ¬ w.region.Has r ->
        (w.run chip).cells r = chip.cells r) ∧
      (forall (w : Writer) (chip : Mk48t59) (after : List Writer) (r : BitVec 16),
        w.region.Has r -> (forall v, v ∈ after -> v.region ≠ w.region) ->
          (after.foldl Writer.run (w.run chip)).cells r = (w.run chip).cells r)) <->
      CrcValid s := by
  constructor
  · rintro ⟨hpersistent, _, _⟩
    have himage := hpersistent ⟨0#8, 0#8, blankNvram⟩ [] s 0 sampleBlock
      (fun v hv => absurd hv List.not_mem_nil)
    exact crcValid_of_image himage (rebooted_crcValid _ _ _ _)
  · intro hcrc
    refine ⟨?_, fun w chip r hout => writer_frame w chip hout,
      fun w chip after r hr hafter => stored_stays w chip after hr hafter⟩
    intro chip after s' stack block hafter
    rw [rebooted_saved s hsize hcrc chip after hafter]
    rfl

theorem nvram_persistent_sample :
    envImage (rebooted sampleBoard
      ([.shadow (List.replicate 0x100 0x45#8), .rtcSet ⟨0, 0, 12, 24, 2, 12, 2024⟩].foldl
        Writer.run ((Writer.saveenv (envCrcUpdate sampleBoard)).run
          ⟨0#8, 0#8, blankNvram⟩)) 0x3fa0000 sampleBlock) =
      envImage (envCrcUpdate sampleBoard) := by
  have hpersistent := (nvram_persistent_iff (envCrcUpdate sampleBoard)
    (WellFormed.size sampleBoard_wellFormed)).mpr (envCrcUpdate_crcValid sampleBoard)
  refine hpersistent.left _ _ _ _ _ ?_
  intro v hv
  simp only [List.mem_cons, List.not_mem_nil, or_false] at hv
  rcases hv with rfl | rfl
  · exact fun h => by cases h
  · exact fun h => by cases h

/-- A failed overwrite leaves a stale checksum, and the saved environment is not found. -/
theorem nvram_not_persistent :
    ¬ forall (s s' t : BoardState) (nv : Nvram) (chip : Mk48t59) (stack : Nat)
        (block : EnvBlock) (calls : List SetenvArgs),
      Run SetenvReturns (envRelocate s nv (envInit nv stack) block).2 calls t ->
        envImage (rebooted s' ((Writer.saveenv t).run chip) stack block) =
          envImage t := by
  intro hclaim
  rcases longCall_crcInvalid with ⟨r, t, hcall, hsize, hinvalid⟩
  have hrun : Run SetenvReturns (envRelocate fullBoard (savedNvram fullBoard)
      (envInit (savedNvram fullBoard) 0x3fa0000) sampleBlock).2 [longCall] t := by
    rw [savedNvram_boot fullBoard (WellFormed.size fullBoard_wellFormed) 0x3fa0000]
    refine .cons ?_ (.nil t)
    unfold SetenvReturns
    rw [hcall]
    rfl
  have himage := hclaim fullBoard fullBoard t (savedNvram fullBoard)
    ⟨0#8, 0#8, blankNvram⟩ 0x3fa0000 sampleBlock [longCall] hrun
  exact hinvalid (crcValid_of_image himage (rebooted_crcValid _ _ _ _))

end Environment
end Bab750

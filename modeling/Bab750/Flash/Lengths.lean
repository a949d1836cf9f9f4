import Bab750.Flash.ExactCommands
import Bab750.Flash.Specs

/-!
# A start and a length

`erase` and `protect` of a range that is given by its start and its length.  The end of the
range is computed modulo 2^32 and then moved to the end of its sector; the commands compare it
with the start behind that.
-/

namespace Bab750
namespace Flash

open Foundation
open Support
open Command (Manual)

/-!
# The texts
-/

theorem wholeNumber_chars {text : List Byte} {value : BitVec 32}
    (h : wholeNumber text 16 = some value) :
    forall c, c ∈ text -> isXDigit c = true ∨ c = 0x78#8 := by
  rcases wholeNumber_rest h with ⟨hrest, _⟩
  unfold simpleStrtoul strtoulPrefix at hrest
  split at hrest
  case h_1 c rest _ =>
      cases hx : isXDigit c with
      | false =>
          rw [hx] at hrest
          have hbad := (strtoulDigits_consumed hrest 0x78#8 List.mem_cons_self).left
          exact absurd hbad (by decide)
      | true =>
          rw [hx] at hrest
          intro d hd
          rcases List.mem_cons.mp hd with rfl | hd
          · exact Or.inl (by decide)
          · rcases List.mem_cons.mp hd with rfl | hd
            · exact Or.inr rfl
            · exact Or.inl (strtoulDigits_consumed hrest d hd).left
  case h_2 text _ =>
      intro d hd
      rcases List.mem_cons.mp hd with rfl | hd
      · exact Or.inl (by decide)
      · exact Or.inl (strtoulDigits_consumed hrest d hd).left
  case h_3 text _ _ =>
      intro d hd
      exact Or.inl (strtoulDigits_consumed hrest d hd).left

theorem abbrevSpec_number (banks : List FlashInfo) {text : List Byte} {value : BitVec 32}
    (h : wholeNumber text 16 = some value) : abbrevSpec banks text = .other := by
  have hcolon : 0x3a#8 ∉ text := by
    intro hmem
    rcases wholeNumber_chars h 0x3a#8 hmem with hx | hx
    · exact absurd hx (by decide)
    · exact absurd hx (by decide)
  unfold abbrevSpec
  rw [cutAt_none hcolon]

theorem number_ne {text word : List Byte} {value : BitVec 32}
    (h : wholeNumber text 16 = some value) (hword : wholeNumber word 16 = none) :
    text ≠ word := by
  rintro rfl
  rw [hword] at h
  cases h

/-!
# The end of the sector
-/

structure PlainLayout (banks : List FlashInfo) : Prop extends Layout banks where
  missing : forall info, info ∈ banks -> info.isKnown = false -> info.sectorCount = 0

theorem not_sectorStart_inside {banks : List FlashInfo} (hlayout : Layout banks)
    {info : FlashInfo} (hinfo : info ∈ banks) (hknown : info.isKnown = true) {i n : Nat}
    (hi : i < info.sectorCount) (hlower : info.cut i < n) (hupper : n < info.cut (i + 1)) :
    ¬ SectorStart banks n := by
  rintro ⟨bank, hbank, hbankKnown, k, hk, hstart⟩
  have hlaid := hlayout.laid info hinfo hknown
  have hbankLaid := hlayout.laid bank hbank hbankKnown
  have hzero := hlaid.ascending.le (Nat.zero_le i) (by omega)
  have hbankZero := hbankLaid.ascending.le (Nat.zero_le k) (by omega)
  have htop := hlaid.cut_le_top (show i + 1 <= info.sectorCount from hi)
  have hbankTop := hbankLaid.cut_le_top (show k + 1 <= bank.sectorCount from hk)
  have hbankStep := hbankLaid.ascending k hk
  induction banks with
  | nil =>
      exact absurd hinfo List.not_mem_nil
  | cons front banks ih =>
      rcases List.mem_cons.mp hinfo with rfl | hinfoTail
      · rcases List.mem_cons.mp hbank with rfl | hbankTail
        · have hik := hlaid.ascending.index_le (show k <= bank.sectorCount by omega)
            (show bank.cut k < bank.cut (i + 1) by omega)
          have hle := hlaid.ascending.le hik (by omega)
          omega
        · have hbehind := hlayout.behind hknown hbankTail hbankKnown
          omega
      · rcases List.mem_cons.mp hbank with rfl | hbankTail
        · have hbehind := hlayout.behind hbankKnown hinfoTail hknown
          omega
        · exact ih hlayout.tail hinfoTail hbankTail

theorem sectorEnd_some {banks : List FlashInfo} (hlayout : PlainLayout banks) {a r : BitVec 32}
    (h : sectorEnd banks a = some r) :
    exists info, info ∈ banks ∧ info.isKnown = true ∧ exists i, i < info.sectorCount ∧
      info.cut i <= a.toNat ∧ a.toNat < info.cut (i + 1) ∧ r.toNat + 1 = info.cut (i + 1) := by
  rcases List.exists_of_findSome?_eq_some h with ⟨info, hinfo, hsector⟩
  rcases Option.map_eq_some_iff.mp hsector with ⟨i, hfound, rfl⟩
  have hi : i < info.sectorCount := List.mem_range.mp (List.mem_of_find?_eq_some hfound)
  have hknown : info.isKnown = true := by
    cases hk : info.isKnown with
    | true =>
        rfl
    | false =>
        rw [hlayout.missing info hinfo hk] at hi
        exact absurd hi (Nat.not_lt_zero i)
  have hlaid := hlayout.laid info hinfo hknown
  have hin := List.find?_some hfound
  rw [Bool.and_eq_true, decide_eq_true_eq, decide_eq_true_eq, BitVec.le_def, BitVec.le_def,
    hlaid.sectorLast_toNat hi, FlashInfo.Laid.start_toNat hi] at hin
  have hstep := hlaid.ascending i hi
  refine ⟨info, hinfo, hknown, i, hi, hin.right, by omega, ?_⟩
  rw [hlaid.sectorLast_toNat hi]
  omega

theorem sectorEnd_covered {banks : List FlashInfo} (hlayout : Layout banks) {info : FlashInfo}
    (hinfo : info ∈ banks) (hknown : info.isKnown = true) {a : BitVec 32}
    (hcovers : info.Covers a.toNat) : exists r, sectorEnd banks a = some r := by
  rcases FlashInfo.Laid.exists_sector hcovers with ⟨i, hi, hlower, hupper⟩
  have hlaid := hlayout.laid info hinfo hknown
  apply Option.isSome_iff_exists.mp
  unfold sectorEnd
  rw [List.findSome?_isSome_iff]
  refine ⟨info, hinfo, ?_⟩
  rw [Option.isSome_map, List.find?_isSome]
  refine ⟨i, List.mem_range.mpr hi, ?_⟩
  rw [Bool.and_eq_true, decide_eq_true_eq, decide_eq_true_eq, BitVec.le_def, BitVec.le_def,
    hlaid.sectorLast_toNat hi, FlashInfo.Laid.start_toNat hi]
  omega

/-!
# The commands
-/

/-- The sector that holds the last address of a start and a length ends with the address. -/
def SpanEnd (banks : List FlashInfo) (start len : BitVec 32) (hi : Nat) : Prop :=
  exists info, info ∈ banks ∧ info.isKnown = true ∧ exists i, i < info.sectorCount ∧
    (info.cut i : Int) <= start.toNat + len.toNat - 1 ∧
    (start.toNat : Int) + len.toNat - 1 < info.cut (i + 1) ∧ hi + 1 = info.cut (i + 1)

/-- Nothing at the start of an address space that is all flash. -/
def NothingOfAll (banks : List FlashInfo) (start len : BitVec 32) : Prop :=
  start = 0#32 ∧ len = 0#32 ∧ forall n, n < 2 ^ 32 ->
    exists info, info ∈ banks ∧ info.isKnown = true ∧ info.Covers n

section Span

variable {banks : List FlashInfo} {start len r : BitVec 32}

theorem spanLast_toNat (start len : BitVec 32) :
    (start + len - 1#32).toNat = (2 ^ 32 - 1 + (start.toNat + len.toNat) % 2 ^ 32) % 2 ^ 32 := by
  rw [BitVec.toNat_sub, BitVec.toNat_add]
  rfl

/-- A range that ends with a sector is accepted when it consists of whole sectors. -/
theorem accepted_iff_whole (hlayout : PlainLayout banks) {a : BitVec 32}
    (hend : sectorEnd banks a = some r) (hle : start.toNat <= r.toNat) :
    (flashFillSectRanges banks start r).Accepted ↔ WholeSectors banks start.toNat r.toNat := by
  rw [fill_accepted_iff banks hlayout.toLayout hle]
  constructor
  · rintro (hwhole | ⟨_, _, hnoEnd⟩)
    · exact hwhole
    · rcases sectorEnd_some hlayout hend with ⟨info, hinfo, hknown, i, hi, _, _, hr⟩
      exact absurd ⟨info, hinfo, hknown, i, hi, hr.symm⟩ hnoEnd
  · exact Or.inl

/-- An end that wrapped around lies in front of the start, and the start inside a sector. -/
theorem spanEnd_of_whole (hlayout : PlainLayout banks)
    (hend : sectorEnd banks (start + len - 1#32) = some r) (hlt : start.toNat < r.toNat)
    (hwhole : WholeSectors banks start.toNat r.toNat)
    (hnot : ¬ NothingOfAll banks start len) : SpanEnd banks start len r.toNat := by
  rcases sectorEnd_some hlayout hend with ⟨info, hinfo, hknown, i, hi, hlower, hupper, hr⟩
  rw [spanLast_toNat] at hlower hupper
  have hstart := start.isLt
  have hlen := len.isLt
  have hrlt := r.isLt
  refine ⟨info, hinfo, hknown, i, hi, ?_, ?_, hr⟩
  · apply Int.le_of_not_gt
    intro hwrap
    by_cases hnothing : start.toNat + len.toNat = 0
    · apply hnot
      refine ⟨BitVec.eq_of_toNat_eq (show start.toNat = 0 by omega),
        BitVec.eq_of_toNat_eq (show len.toNat = 0 by omega), ?_⟩
      intro n hn
      rcases hwhole n (by omega) (by omega) with ⟨bank, hbank, hbankKnown, k, hk, hin, hout, _⟩
      exact ⟨bank, hbank, hbankKnown,
        (hlayout.laid bank hbank hbankKnown).sector_covers hk ⟨hin, hout⟩⟩
    · omega
  · by_cases hwrap : 2 ^ 32 < start.toNat + len.toNat
    · have hinside := not_sectorStart_inside hlayout.toLayout hinfo hknown hi
        (show info.cut i < start.toNat by omega) (show start.toNat < info.cut (i + 1) by omega)
      exact absurd (hwhole.start (by omega)) hinside
    · by_cases hnothing : start.toNat + len.toNat = 0
      · have hstep := (hlayout.laid info hinfo hknown).ascending i hi
        omega
      · omega

theorem SpanEnd.not_nothing {hi : Nat} (h : SpanEnd banks start len hi) :
    ¬ NothingOfAll banks start len := by
  rintro ⟨rfl, rfl, _⟩
  rcases h with ⟨info, _, _, i, _, hlower, _⟩
  have hzero : (info.cut i : Int) <= (0 : Nat) + (0 : Nat) - 1 := hlower
  omega

theorem nothingOfAll_range (hlayout : PlainLayout banks) (h : NothingOfAll banks start len) :
    sectorEnd banks (start + len - 1#32) = some 0xffffffff#32 ∧
      WholeSectors banks start.toNat (0xffffffff#32).toNat := by
  rcases h with ⟨rfl, rfl, hall⟩
  constructor
  · rcases hall (0#32 + 0#32 - 1#32).toNat (by decide) with ⟨info, hinfo, hknown, hcovers⟩
    rcases sectorEnd_covered hlayout.toLayout hinfo hknown hcovers with ⟨r, hend⟩
    rcases sectorEnd_some hlayout hend with ⟨_, _, _, _, _, _, hupper, hr⟩
    have hlast : (0#32 + 0#32 - 1#32).toNat = 0xffffffff := by decide
    have hlt := r.isLt
    rw [hend]
    apply congrArg some
    apply BitVec.eq_of_toNat_eq
    show r.toNat = 0xffffffff
    omega
  · intro n _ hn
    have hspace : n < 2 ^ 32 := Nat.lt_of_le_of_lt hn (by decide)
    rcases hall n hspace with ⟨info, hinfo, hknown, hcovers⟩
    rcases FlashInfo.Laid.exists_sector hcovers with ⟨i, hi, hlower, hupper⟩
    have hlaid := hlayout.laid info hinfo hknown
    have htop := hlaid.cut_le_top (show i + 1 <= info.sectorCount from hi)
    have hbound := hlaid.space
    refine ⟨info, hinfo, hknown, i, hi, hlower, hupper, Nat.zero_le _, ?_⟩
    show info.cut (i + 1) <= 0xffffffff + 1
    omega

theorem addrSpec_length {arg1 text : List Byte} (hstart : wholeNumber arg1 16 = some start)
    (hlen : wholeNumber text 16 = some len) :
    (addrSpec banks arg1 (0x2b#8 :: text)).2 =
      (sectorEnd banks (start + len - 1#32)).map (fun last => (start, last)) := by
  unfold addrSpec
  rw [hstart]
  dsimp only [List.head?_cons, List.tail_cons]
  rw [if_pos (by decide), hlen]
  dsimp only
  rw [if_pos (by decide)]
  cases sectorEnd banks (start + len - 1#32) with
  | none =>
      rfl
  | some last =>
      rfl

end Span

section Commands

variable {E : Type}

def Erases (board : Board E) (lo hi : Nat) (effect : Effect E) : Prop :=
  effect.board = { board with memory := effect.board.memory } ∧
    forall a, (ErasedIn board.banks lo hi a -> effect.board.memory a = 0xff#8) ∧
      (¬ ErasedIn board.banks lo hi a -> effect.board.memory a = board.memory a)

/-- The flags of the sectors of the range are set, and nothing else changed. -/
def Protects (p : Bool) (board : Board E) (lo hi : Nat) (effect : Effect E) : Prop :=
  effect.board =
    { board with banks := board.banks.map (fun info => info.protectWithin p lo hi) }

/-- A command reports an error and does nothing, or it works on the sectors from the start to
the one that holds the last address. -/
def SpanDone (board : Board E) (start len : BitVec 32) (acts : Nat -> Effect E -> Prop)
    (effect : Effect E) : Prop :=
  (effect.rc ≠ 0 ∧ effect.board = board) ∨
    exists hi, SpanEnd board.banks start len hi ∧ start.toNat <= hi ∧
      WholeSectors board.banks start.toNat hi ∧ effect.rc = 0 ∧ acts hi effect

/-- What `do_flerase` and `do_protect` make of the end of a range. -/
def RangeCommand (board : Board E) (start : BitVec 32) (run : BitVec 32 -> Effect E)
    (last : Option (BitVec 32)) (effect : Effect E) : Prop :=
  match last with
  | none => effect.rc ≠ 0 ∧ effect.board = board
  | some r => if r <= start then effect.rc ≠ 0 ∧ effect.board = board else effect = run r

theorem spanDone_iff {board : Board E} (hlayout : PlainLayout board.banks)
    {start len : BitVec 32} {run : BitVec 32 -> Effect E} {acts : Nat -> Effect E -> Prop}
    (hrefused : forall r, ¬ (flashFillSectRanges board.banks start r).Accepted ->
      (run r).rc ≠ 0 ∧ (run r).board = board)
    (hacts : forall r : BitVec 32, start.toNat <= r.toNat ->
      WholeSectors board.banks start.toNat r.toNat -> (run r).rc = 0 ∧ acts r.toNat (run r))
    {effect : Effect E}
    (h : RangeCommand board start run (sectorEnd board.banks (start + len - 1#32)) effect) :
    SpanDone board start len acts effect ↔ ¬ NothingOfAll board.banks start len := by
  unfold RangeCommand at h
  constructor
  · intro hdone hnothing
    rcases nothingOfAll_range hlayout hnothing with ⟨hend, hwhole⟩
    have hzero : start = 0#32 := hnothing.left
    rw [hend] at h
    dsimp only at h
    rw [if_neg (by rw [hzero]; decide)] at h
    rcases hdone with ⟨hcode, _⟩ | ⟨hi, hspan, _⟩
    · rw [h] at hcode
      exact hcode (hacts _ (by rw [hzero]; decide) hwhole).left
    · exact hspan.not_nothing hnothing
  · intro hnot
    cases hend : sectorEnd board.banks (start + len - 1#32) with
    | none =>
        rw [hend] at h
        exact Or.inl h
    | some r =>
        rw [hend] at h
        dsimp only at h
        by_cases hle : r <= start
        · rw [if_pos hle] at h
          exact Or.inl h
        · rw [if_neg hle] at h
          rw [BitVec.le_def] at hle
          rw [h]
          by_cases hwhole : WholeSectors board.banks start.toNat r.toNat
          · have hspan := spanEnd_of_whole hlayout hend (by omega) hwhole hnot
            exact Or.inr ⟨r.toNat, hspan, by omega, hwhole, hacts r (by omega) hwhole⟩
          · apply Or.inl
            apply hrefused
            intro haccepted
            exact hwhole ((accepted_iff_whole hlayout hend (by omega)).mp haccepted)

variable {board : Board E} {start len : BitVec 32} {arg1 text : List Byte}

theorem rangeCommand_length (manual : Manual) (run : BitVec 32 -> BitVec 32 -> Effect E)
    (hstart : wholeNumber arg1 16 = some start) (hlen : wholeNumber text 16 = some len) :
    RangeCommand board start (run start) (sectorEnd board.banks (start + len - 1#32))
      (match addrSpec board.banks arg1 (0x2b#8 :: text) with
      | (output, none) => ⟨output ++ chars "Bad address format\n", board, 1⟩
      | (_, some (addrFirst, addrLast)) =>
          if addrLast <= addrFirst then usageEffect manual board
          else run addrFirst addrLast) := by
  have hspec := @addrSpec_length board.banks start len arg1 text hstart hlen
  generalize addrSpec board.banks arg1 (0x2b#8 :: text) = spec at hspec ⊢
  rcases spec with ⟨output, range⟩
  dsimp only at hspec
  rw [hspec]
  unfold RangeCommand
  cases sectorEnd board.banks (start + len - 1#32) with
  | none =>
      exact ⟨Int.one_ne_zero, rfl⟩
  | some r =>
      dsimp only [Option.map_some]
      split
      · exact ⟨Int.one_ne_zero, rfl⟩
      · rfl

theorem eraseRange_length (hstart : wholeNumber arg1 16 = some start)
    (hlen : wholeNumber text 16 = some len) :
    RangeCommand board start (flashSectErase norChip board start)
      (sectorEnd board.banks (start + len - 1#32))
      (eraseRange norChip board arg1 (0x2b#8 :: text)) :=
  rangeCommand_length eraseManual (flashSectErase norChip board) hstart hlen

theorem protectRange_length (p : Bool) (hstart : wholeNumber arg1 16 = some start)
    (hlen : wholeNumber text 16 = some len) :
    RangeCommand board start (flashSectProtect p board start)
      (sectorEnd board.banks (start + len - 1#32))
      (protectRange p board arg1 (0x2b#8 :: text)) :=
  rangeCommand_length protectManual (flashSectProtect p board) hstart hlen

theorem doFlerase_number (name : List Byte) (hstart : wholeNumber arg1 16 = some start)
    (arg2 : List Byte) :
    doFlerase norChip board [name, arg1, arg2] = eraseRange norChip board arg1 arg2 := by
  unfold doFlerase
  dsimp only
  rw [if_neg (number_ne hstart (by decide)), abbrevSpec_number board.banks hstart]
  exact if_neg (number_ne hstart (by decide))

theorem protectSpec_number (p : Bool) (hstart : wholeNumber arg1 16 = some start)
    (arg2 : List Byte) : protectSpec p board arg1 [arg2] = protectRange p board arg1 arg2 := by
  unfold protectSpec
  rw [if_neg (number_ne hstart (by decide)), abbrevSpec_number board.banks hstart]
  exact if_neg (number_ne hstart (by decide))

def onOff (p : Bool) : List Byte := if p then ascii "on" else ascii "off"

theorem doProtect_number (name : List Byte) (p : Bool)
    (hstart : wholeNumber arg1 16 = some start) (arg2 : List Byte) :
    doProtect board [name, onOff p, arg1, arg2] = protectRange p board arg1 arg2 := by
  cases p with
  | true =>
      exact protectSpec_number true hstart arg2
  | false =>
      exact protectSpec_number false hstart arg2

theorem eraseLength_iff (name : List Byte) (hlayout : PlainLayout board.banks)
    (hcompatible : Compatible board.banks) (hstart : wholeNumber arg1 16 = some start)
    (hlen : wholeNumber text 16 = some len) :
    SpanDone board start len (Erases board start.toNat)
        (doFlerase norChip board [name, arg1, 0x2b#8 :: text]) ↔
      ¬ NothingOfAll board.banks start len := by
  rw [doFlerase_number name hstart]
  apply spanDone_iff hlayout _ _ (eraseRange_length hstart hlen)
  · intro r hnot
    exact flashSectErase_refused hnot
  · intro r hle hwhole
    have haccepted := (fill_accepted_iff _ hlayout.toLayout hle).mpr (Or.inl hwhole)
    rcases flashSectErase_erases hlayout.toLayout hcompatible haccepted with ⟨hcode, hboard, _⟩
    have hexact := exactErase_of_whole hlayout.toLayout hcompatible hle hwhole
    exact ⟨hcode, hboard, hexact.erased hcode⟩

theorem protectLength_iff (name : List Byte) (p : Bool) (hlayout : PlainLayout board.banks)
    (hstart : wholeNumber arg1 16 = some start) (hlen : wholeNumber text 16 = some len) :
    SpanDone board start len (Protects p board start.toNat)
        (doProtect board [name, onOff p, arg1, 0x2b#8 :: text]) ↔
      ¬ NothingOfAll board.banks start len := by
  rw [doProtect_number name p hstart]
  apply spanDone_iff hlayout _ _ (protectRange_length p hstart hlen)
  · intro r hnot
    exact flashSectProtect_refused p hnot
  · intro r hle hwhole
    have haccepted := (fill_accepted_iff _ hlayout.toLayout hle).mpr (Or.inl hwhole)
    have hcode := (flashSectProtect_accepted p haccepted).left
    exact ⟨hcode, (exactProtect_of_whole p hlayout.toLayout hle hwhole).flags hcode⟩

/-- The end of a range wraps around unnoticed only for nothing at 0, where all is flash. -/
theorem length_exact_iff (board : Board E) (name arg1 text : List Byte)
    (start len : BitVec 32) (hlayout : PlainLayout board.banks)
    (hcompatible : Compatible board.banks) (hstart : wholeNumber arg1 16 = some start)
    (hlen : wholeNumber text 16 = some len) :
    (SpanDone board start len (Erases board start.toNat)
        (doFlerase norChip board [name, arg1, 0x2b#8 :: text]) ↔
      ¬ NothingOfAll board.banks start len) ∧
    forall p, (SpanDone board start len (Protects p board start.toNat)
        (doProtect board [name, onOff p, arg1, 0x2b#8 :: text]) ↔
      ¬ NothingOfAll board.banks start len) := by
  constructor
  · exact eraseLength_iff name hlayout hcompatible hstart hlen
  · intro p
    exact protectLength_iff name p hlayout hstart hlen

end Commands

def halfSpace (base : BitVec 32) : FlashInfo where
  size := 0x80000000#32
  sectorCount := 1
  flashId := 0x41#32
  start := fun _ => base
  protect := fun _ => false

def fullBoard : Board Unit where
  memory := fun _ => 0x00#8
  banks := [halfSpace 0#32, halfSpace 0x80000000#32]
  baseAddress := 0#32
  rest := ()

theorem fullBoard_layout : PlainLayout fullBoard.banks := by
  have hlaid : forall info, info ∈ fullBoard.banks -> info.isKnown = true -> info.Laid := by
    intro info hinfo _
    rcases List.mem_pair.mp hinfo with rfl | rfl
    · refine ⟨by decide, ?_, by decide⟩
      intro i hi
      rw [Nat.lt_one_iff.mp hi]
      decide
    · refine ⟨by decide, ?_, by decide⟩
      intro i hi
      rw [Nat.lt_one_iff.mp hi]
      decide
  refine ⟨⟨hlaid, ?_⟩, ?_⟩
  · apply List.pairwise_pair.mpr
    intro _ _
    decide
  · intro info hinfo hmissing
    rcases List.mem_pair.mp hinfo with rfl | rfl
    · exact absurd hmissing (by decide)
    · exact absurd hmissing (by decide)

theorem fullBoard_compatible : Compatible fullBoard.banks := by
  intro info hinfo _
  rcases List.mem_pair.mp hinfo with rfl | rfl
  · decide
  · decide

theorem fullBoard_nothingOfAll : NothingOfAll fullBoard.banks 0#32 0#32 := by
  refine ⟨rfl, rfl, ?_⟩
  intro n hn
  cases Nat.lt_or_ge n 0x80000000 with
  | inl hlt =>
      exact ⟨halfSpace 0#32, List.mem_cons_self, rfl, Nat.zero_le n, hlt⟩
  | inr hge =>
      exact ⟨halfSpace 0x80000000#32, List.mem_cons_of_mem _ List.mem_cons_self, rfl, hge, hn⟩

/-- `erase 0 +0` takes all of the flash, up to the end that wrapped around. -/
theorem length_wraps_to_all :
    (doFlerase norChip fullBoard [ascii "erase", ascii "0", ascii "+0"]).rc = 0 ∧
      ¬ SpanDone fullBoard 0#32 0#32 (Erases fullBoard 0)
        (doFlerase norChip fullBoard [ascii "erase", ascii "0", ascii "+0"]) ∧
      forall p, ¬ SpanDone fullBoard 0#32 0#32 (Protects p fullBoard 0)
        (doProtect fullBoard [ascii "protect", onOff p, ascii "0", ascii "+0"]) := by
  have hnumber : wholeNumber (ascii "0") 16 = some 0#32 := by decide
  refine ⟨by decide, ?_, ?_⟩
  · intro h
    exact (eraseLength_iff (ascii "erase") fullBoard_layout fullBoard_compatible hnumber
      hnumber).mp h fullBoard_nothingOfAll
  · intro p h
    exact (protectLength_iff (ascii "protect") p fullBoard_layout hnumber hnumber).mp h
      fullBoard_nothingOfAll

/-- Two sectors for 0x10001 bytes. -/
theorem length_two_sectors :
    SpanDone oneBankBoard 0xff800000#32 0x10001#32 (Erases oneBankBoard 0xff800000)
        (doFlerase norChip oneBankBoard [ascii "erase", ascii "ff800000", ascii "+10001"]) ∧
      forall p, SpanDone oneBankBoard 0xff800000#32 0x10001#32
        (Protects p oneBankBoard 0xff800000)
        (doProtect oneBankBoard
          [ascii "protect", onOff p, ascii "ff800000", ascii "+10001"]) := by
  have hlayout : PlainLayout oneBankBoard.banks := by
    refine ⟨oneBankBoard_layout, ?_⟩
    intro info hinfo hmissing
    rcases List.mem_pair.mp hinfo with rfl | rfl
    · exact absurd hmissing (by decide)
    · rfl
  have hsome : ¬ NothingOfAll oneBankBoard.banks 0xff800000#32 0x10001#32 :=
    fun h => absurd h.left (by decide)
  have hiff := length_exact_iff oneBankBoard (ascii "erase") (ascii "ff800000")
    (ascii "10001") 0xff800000#32 0x10001#32 hlayout oneBankBoard_compatible (by decide)
    (by decide)
  have hprotect := length_exact_iff oneBankBoard (ascii "protect") (ascii "ff800000")
    (ascii "10001") 0xff800000#32 0x10001#32 hlayout oneBankBoard_compatible (by decide)
    (by decide)
  exact ⟨hiff.left.mpr hsome, fun p => (hprotect.right p).mpr hsome⟩

end Flash
end Bab750

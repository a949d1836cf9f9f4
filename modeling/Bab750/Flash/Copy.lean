import Bab750.Flash.Frame
import Bab750.Flash.NorCells

/-!
# Copying into the flash

`cp.b` with a range of the flash as its target.  `flash_write` has many ways to fail; a copy
that the banks let through either reports a word that is not erased, or leaves the data.
-/

namespace Bab750
namespace Flash

open Foundation
open Command
open Support (simpleStrtoul)

variable {E : Type} {chip : Chip} {board : Board E} {src addr cnt : BitVec 32}

def decideChained : (banks : List FlashInfo) -> (addr : BitVec 32) -> (cnt : Nat) ->
    Decidable (Chained banks addr cnt)
  | [], _, _ => isFalse id
  | info :: banks, addr, cnt =>
      have := decideChained banks info.bankEnd (cnt - (info.bankEnd - addr).toNat)
      inferInstanceAs (Decidable (_ ∨ (_ ∧ _ ∧ _)))

instance (banks : List FlashInfo) (addr : BitVec 32) (cnt : Nat) :
    Decidable (Chained banks addr cnt) :=
  decideChained banks addr cnt

/-- Every byte takes its data, or the check of `write_word` sees a word that does not. -/
def CellsTell (chip : Chip) (memory : Memory) (src addr : BitVec 32) (cnt : Nat) : Prop :=
  WordsTake chip memory (bufferTarget memory src addr cnt) (wordBase addr)
      (wordCount addr cnt) ∨
    WordsRefused chip memory (bufferTarget memory src addr cnt) (wordBase addr)
      (wordCount addr cnt)

/-- The board lets a copy into its flash through, up to the check of its words. -/
structure Programmable (chip : Chip) (board : Board E) (src addr cnt : BitVec 32) : Prop where
  base : board.baseAddress = 0#32
  writable : Writable board.banks src addr cnt
  cells : CellsTell chip board.memory src addr cnt.toNat

/-- What `cp` prints for a word that is not erased. -/
def notErasedReport : Text := chars "Copy to Flash... Flash not Erased\n"

theorem writeBuff_tells {memory : Memory} {count : Nat} (hapart : SourceApart src addr count)
    (h : CellsTell chip memory src addr count) :
    (writeBuff chip memory src addr count).1 = errNotErased ∨
      ((writeBuff chip memory src addr count).1 = errOk ∧
        HoldsBytes (writeBuff chip memory src addr count).2 addr
          (fun i => memory (src + BitVec.ofNat 32 i)) count) := by
  have hcode := (writeBuff_words chip memory src addr count hapart hapart.size).left
  cases h with
  | inl htakes =>
      rcases wordsVerdict_takes htakes with hok | hrefused
      · rw [← hcode] at hok
        exact Or.inr ⟨hok, writeBuff_holds chip memory src addr count hapart hapart.size
          htakes hok⟩
      · exact Or.inl (hcode.trans hrefused)
  | inr hrefused =>
      exact Or.inl (hcode.trans (wordsVerdict_refused hrefused))

theorem Programmable.target (h : Programmable chip board src addr cnt) :
    (addr2info board.banks addr).isSome = true := by
  rcases h.writable.inFlash with ⟨first, _, hfirst, _⟩
  rw [hfirst]
  rfl

/-- `cp.b` reports a word that is not erased, or leaves the data in the flash. -/
theorem doMemCp_tells {arg1 arg2 arg3 : List Byte} (hsrc : (simpleStrtoul arg1 16).1 = src)
    (haddr : (simpleStrtoul arg2 16).1 = addr) (hcnt : (simpleStrtoul arg3 16).1 = cnt)
    (hsome : cnt ≠ 0#32) (h : Programmable chip board src addr cnt) :
    (doMemCp chip board [ascii "cp.b", arg1, arg2, arg3]).output = notErasedReport ∨
      HoldsBytes (doMemCp chip board [ascii "cp.b", arg1, arg2, arg3]).board.memory addr
        (fun i => board.memory (src + BitVec.ofNat 32 i)) cnt.toNat := by
  have hsize : cmdGetDataSize (ascii "cp.b") 4 = 1 := by decide
  unfold doMemCp
  dsimp only
  rw [hsize, if_neg (by decide), hsrc, haddr, hcnt, h.base, BitVec.add_zero, BitVec.add_zero,
    if_neg hsome, if_pos h.target, show BitVec.ofInt 32 1 = 1#32 from rfl, BitVec.mul_one,
    flashWrite_writable hsome h.writable]
  rcases writeBuff_tells h.writable.apart h.cells with hcode | ⟨hcode, hholds⟩
  · rw [hcode, if_pos (by decide)]
    exact Or.inl rfl
  · rw [hcode, if_neg (not_not_intro rfl)]
    exact Or.inr hholds

/-!
# The commands in the table
-/

def Effect.result (effect : Effect E) : Result (Board E) :=
  ⟨effect.output, effect.board, effect.rc, false⟩

def protectEntry : Entry (Board E) where
  toManual := protectManual
  maxargs := 4
  repeatable := false
  isBootd := false
  cmd := fun board _ argv => (doProtect board argv).result

def eraseEntry (chip : Chip) : Entry (Board E) where
  toManual := eraseManual
  maxargs := 3
  repeatable := false
  isBootd := false
  cmd := fun board _ argv => (doFlerase chip board argv).result

def cpEntry (chip : Chip) : Entry (Board E) where
  toManual := cpManual
  maxargs := 4
  repeatable := true
  isBootd := false
  cmd := fun board _ argv => (doMemCp chip board argv).result

/-- The three commands are in the table, next to any others. -/
structure FlashSet (chip : Chip) (set : CommandSet (Board E)) : Prop where
  protect : findCmd set.table (ascii "protect") = some protectEntry
  erase : findCmd set.table (ascii "erase") = some (eraseEntry chip)
  copy : findCmd set.table (ascii "cp.b") = some (cpEntry chip)

end Flash
end Bab750

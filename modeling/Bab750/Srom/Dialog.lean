import Bab750.Console.LineEditor
import Bab750.Srom.Recovery

/-!
# Revision dialog

The prompts of the dialog in `misc_init_r`, each with any line that `readline` can return. What
a prompt looks at is told by the length of its line alone, so that some lines reach past the
table of digits or behind the end of the line.
-/

namespace Bab750
namespace Srom

open Foundation
open Environment
open Console (LineBuffer KeyResult Editor)

/-!
# Typed lines
-/

/-- What `readline` can return; the buffer holds any characters behind the line. -/
structure Line.Typed (line : Line) : Prop where
  count : line.count = -1 ∨ (0 <= line.count ∧ line.count <= 254)
  terminated : line.buffer line.count.toNat = 0#8

/-- A value of `readline`, with `console_buffer`. -/
def lineOf (count : Int) (buffer : LineBuffer) : Line where
  count := count
  buffer k := BitVec.ofNat 8 (buffer.val.getD k '\x00').toNat

/-- The line when `readline` returns. -/
def returnedLine : KeyResult -> Option Line
  | .typing _ => none
  | .entered count buffer => some (lineOf count buffer)
  | .interrupted buffer => some (lineOf (-1) buffer)

theorem lineOf_typed {count : Int} {buffer : LineBuffer}
    (hcount : count = -1 ∨ (0 <= count ∧ count <= 254))
    (hnul : buffer.val[count.toNat]? = some '\x00') : (lineOf count buffer).Typed where
  count := hcount
  terminated := by
    show BitVec.ofNat 8 (buffer.val.getD count.toNat '\x00').toNat = 0#8
    rw [List.getD_eq_getElem?_getD, hnul]
    rfl

section Readline

variable {e : Editor} {plen : Nat} {text : Text}

theorem readlineKey_returns (h : e.Holds plen text) {c : Char}
    (hc : c = '\r' ∨ c = '\n' ∨ c = '\x03') :
    exists out result line, Console.readlineKey plen e c = some (out, result) ∧
      returnedLine result = some line ∧ line.Typed := by
  have hroom := h.room
  have hsize : Console.cbSize = 256 := rfl
  by_cases henter : c = '\r' ∨ c = '\n'
  · rcases Console.readlineKey_enter h henter with ⟨out, final, hkey, hfinal⟩
    refine ⟨out, _, _, hkey, rfl, lineOf_typed (Or.inr ⟨by omega, by omega⟩) ?_⟩
    have hcell := congrArg (fun cells => cells[text.length]?) hfinal
    simpa using hcell
  · rcases Console.store_inside e.buffer '\x00' (show 0 < Console.cbSize by decide) with
      ⟨final, hstore, hfinal⟩
    have hbreak : c = '\x03' := by
      rcases hc with hc | hc | hc
      · exact absurd (Or.inl hc) henter
      · exact absurd (Or.inr hc) henter
      · exact hc
    refine ⟨[], KeyResult.interrupted final, _, ?_, rfl, lineOf_typed (Or.inl rfl) ?_⟩
    · unfold Console.readlineKey
      rw [if_neg henter, if_neg (by rw [hbreak]; decide), if_pos hbreak]
      rw [show (0 : Int) = (0 : Nat) from rfl, hstore]
      rfl
    · show final.val[0]? = some '\x00'
      rw [hfinal, List.getElem?_set_self (by rw [e.buffer.property]; decide)]

theorem readlineLoop_typed {input out rest : Text} {result : KeyResult} {line : Line}
    (h : e.Holds plen text)
    (hloop : Console.readlineLoop plen e input = some (out, result, rest))
    (hline : returnedLine result = some line) : line.Typed := by
  induction input generalizing e text out with
  | nil =>
      cases hloop
      cases hline
  | cons c input ih =>
      by_cases hc : c = '\r' ∨ c = '\n' ∨ c = '\x03'
      · rcases readlineKey_returns h hc with ⟨printed, result', line', hkey, hline', htyped⟩
        unfold Console.readlineLoop at hloop
        rw [hkey] at hloop
        cases result' with
        | typing next =>
            cases hline'
        | entered count buffer =>
            cases hloop
            rw [hline'] at hline
            cases hline
            exact htyped
        | interrupted buffer =>
            cases hloop
            rw [hline'] at hline
            cases hline
            exact htyped
      · simp only [not_or] at hc
        rcases Console.readlineKey_typing h hc.1 hc.2.1 hc.2.2 with ⟨printed, next, hkey, hnext⟩
        unfold Console.readlineLoop at hloop
        rw [hkey] at hloop
        dsimp only at hloop
        rcases Option.map_eq_some_iff.mp hloop with ⟨⟨out', result', rest'⟩, hrest, heq⟩
        cases heq
        exact ih hnext hrest

theorem readline_typed {prompt : Option Text} {consoleBuffer : LineBuffer}
    {input out rest : Text} {result : KeyResult} {line : Line}
    (h : Console.readline prompt consoleBuffer input = some (out, result, rest))
    (hline : returnedLine result = some line) : line.Typed := by
  unfold Console.readline at h
  rcases Option.bind_eq_some_iff.mp h with ⟨buffer, _, hread⟩
  unfold Console.readlineIntoBuffer at hread
  rcases Option.map_eq_some_iff.mp hread with ⟨⟨out', result', rest'⟩, hloop, heq⟩
  cases heq
  exact readlineLoop_typed (Console.openEditor_holds prompt buffer) hloop hline

end Readline

/-!
# Prompts
-/

inductive Prompt where
  | revisionNumber
  | revisionCharacter
  | boardName
  | serialNumber
  | nodeId
  | text
  | cacheWord
deriving DecidableEq

def OperatorInput.line (input : OperatorInput) : Prompt -> Line
  | .revisionNumber => input.revisionNumber
  | .revisionCharacter => input.revisionCharacter
  | .boardName => input.boardName
  | .serialNumber => input.serialNumber
  | .nodeId => input.nodeId
  | .text => input.text
  | .cacheWord => input.cacheWord

def showCacheWord (env : Surroundings) (eerev : List Byte) : List Byte :=
  patch eerev 0xc0 (wordBytes (if env.cpu750 then clk2p0 else clk2p5))

/-- What the code behind a prompt makes of the revision info. -/
def enterAt (env : Surroundings) (input : OperatorInput) : Prompt -> List Byte -> List Byte
  | .revisionNumber => enterNumber input
  | .revisionCharacter => enterCharacter input
  | .boardName => enterBoard input
  | .serialNumber => enterSerial input
  | .nodeId => enterNodeId env input
  | .text => enterText input
  | .cacheWord => fun eerev =>
      if input.cacheWord.count ≠ 0 then
        patch eerev 0xc0 ((List.range 4).map (hexByte env input.cacheWord))
      else eerev

def atPrompt (env : Surroundings) (input : OperatorInput) (eerev : List Byte) :
    Prompt -> List Byte
  | .revisionNumber => eerev
  | .revisionCharacter => enterNumber input eerev
  | .boardName => enterCharacter input (enterNumber input eerev)
  | .serialNumber => enterBoard input (enterCharacter input (enterNumber input eerev))
  | .nodeId =>
      enterSerial input (enterBoard input (enterCharacter input (enterNumber input eerev)))
  | .text =>
      enterNodeId env input (enterSerial input
        (enterBoard input (enterCharacter input (enterNumber input eerev))))
  | .cacheWord => showCacheWord env (enterFields env input eerev)

/-- The prompt for the cache word is for one board only. -/
def Shown (env : Surroundings) (input : OperatorInput) (eerev : List Byte) : Prompt -> Prop
  | .cacheWord => isBab750 env (enterFields env input eerev) = true
  | _ => True

theorem enterCacheWord_atPrompt {env : Surroundings} {input : OperatorInput}
    {eerev : List Byte} (hshown : Shown env input eerev .cacheWord) :
    enterCacheWord env input (enterFields env input eerev) =
      enterAt env input .cacheWord (atPrompt env input eerev .cacheWord) := by
  have hboard : isBab750 env (enterFields env input eerev) = true := hshown
  unfold enterCacheWord
  rw [if_pos hboard]
  rfl

/-- The test of the length of a line, by which it is used. -/
def Used (p : Prompt) (count : Int) : Prop :=
  match p with
  | .revisionNumber | .text | .cacheWord => count ≠ 0
  | .revisionCharacter => count = 1
  | .boardName => count = 11
  | .serialNumber => count = 6
  | .nodeId => count = 12

/-- The indices of `console_buffer` that are read when the line is used. -/
def positions (p : Prompt) (eerev : List Byte) : List Nat :=
  match p with
  | .revisionNumber | .revisionCharacter => [0]
  | .boardName => List.range 11
  | .serialNumber => List.range 6
  | .nodeId => List.range 12
  | .text => List.range (63 - textLength eerev)
  | .cacheWord => List.range 8

/-- Where `hex` is used, the offset and the size of what it gives. -/
def hexField : Prompt -> Option (Nat × Nat)
  | .nodeId => some (0x68, 6)
  | .cacheWord => some (0xc0, 4)
  | _ => none

/-- `toupper(c)-'0'` -/
def tableIndex (c : Byte) : Int := (toupper c).toNat - 48

theorem hexBytes_congr {env : Surroundings} {line line' : Line} (n : Nat)
    (h : forall k, k < 2 * n -> line.buffer k = line'.buffer k) :
    (List.range n).map (hexByte env line) = (List.range n).map (hexByte env line') := by
  apply List.map_congr_left
  intro i hi
  rw [List.mem_range] at hi
  unfold hexByte
  rw [h (2 * i) (by omega), h (2 * i + 1) (by omega)]

theorem enterAt_positions {env : Surroundings} {input input' : OperatorInput} (p : Prompt)
    {eerev : List Byte} (hcount : (input.line p).count = (input'.line p).count)
    (hsame : Used p (input.line p).count -> forall k, k ∈ positions p eerev ->
      (input.line p).buffer k = (input'.line p).buffer k) :
    enterAt env input p eerev = enterAt env input' p eerev := by
  cases p with
  | revisionNumber =>
      have hcount' : input.revisionNumber.count = input'.revisionNumber.count := hcount
      show enterNumber input eerev = enterNumber input' eerev
      unfold enterNumber
      rw [← hcount']
      split
      case isTrue h =>
          have hfirst : input.revisionNumber.buffer 0 = input'.revisionNumber.buffer 0 :=
            hsame h 0 List.mem_cons_self
          rw [hfirst]
      case isFalse h =>
          rfl
  | revisionCharacter =>
      have hcount' : input.revisionCharacter.count = input'.revisionCharacter.count := hcount
      show enterCharacter input eerev = enterCharacter input' eerev
      unfold enterCharacter
      rw [← hcount']
      split
      case isTrue h =>
          have hfirst : input.revisionCharacter.buffer 0 = input'.revisionCharacter.buffer 0 :=
            hsame h 0 List.mem_cons_self
          rw [hfirst]
      case isFalse h =>
          rfl
  | boardName =>
      have hcount' : input.boardName.count = input'.boardName.count := hcount
      show enterBoard input eerev = enterBoard input' eerev
      unfold enterBoard
      rw [← hcount']
      split
      case isTrue h =>
          have hline : forall k, k ∈ List.range 11 ->
              toupper (input.boardName.buffer k) = toupper (input'.boardName.buffer k) :=
            fun k hk => congrArg toupper (hsame h k hk)
          rw [List.map_congr_left hline]
      case isFalse h =>
          rfl
  | serialNumber =>
      have hcount' : input.serialNumber.count = input'.serialNumber.count := hcount
      show enterSerial input eerev = enterSerial input' eerev
      unfold enterSerial
      rw [← hcount']
      split
      case isTrue h =>
          have hline : forall k, k ∈ List.range 6 ->
              input.serialNumber.buffer k = input'.serialNumber.buffer k := hsame h
          rw [List.map_congr_left hline]
      case isFalse h =>
          rfl
  | nodeId =>
      have hcount' : input.nodeId.count = input'.nodeId.count := hcount
      show enterNodeId env input eerev = enterNodeId env input' eerev
      unfold enterNodeId
      rw [← hcount']
      split
      case isTrue h =>
          have hline : forall k, k < 2 * 6 -> input.nodeId.buffer k = input'.nodeId.buffer k :=
            fun k hk => hsame h k (List.mem_range.mpr hk)
          rw [hexBytes_congr 6 hline]
      case isFalse h =>
          rfl
  | text =>
      have hcount' : input.text.count = input'.text.count := hcount
      show enterText input eerev = enterText input' eerev
      unfold enterText
      rw [← hcount']
      split
      case isTrue h =>
          have hline : forall k, k ∈ List.range (63 - textLength eerev) ->
              input.text.buffer k = input'.text.buffer k := hsame h
          dsimp only
          rw [List.map_congr_left hline]
      case isFalse h =>
          rfl
  | cacheWord =>
      have hcount' : input.cacheWord.count = input'.cacheWord.count := hcount
      unfold enterAt
      dsimp only
      rw [← hcount']
      split
      case isTrue h =>
          have hline : forall k, k < 2 * 4 ->
              input.cacheWord.buffer k = input'.cacheWord.buffer k :=
            fun k hk => hsame h k (List.mem_range.mpr hk)
          rw [hexBytes_congr 4 hline]
      case isFalse h =>
          rfl

/-!
# Hexadecimal input
-/

def isHexDigit (c : Byte) : Bool :=
  (48 <= c.toNat && c.toNat <= 57) || (65 <= c.toNat && c.toNat <= 70) ||
    (97 <= c.toNat && c.toNat <= 102)

/-- The characters between `9` and `A`, for which `hex` holds a zero. -/
def isFiller (c : Byte) : Bool := 58 <= c.toNat && c.toNat <= 64

def digitValue (c : Byte) : Byte :=
  if 48 <= c.toNat ∧ c.toNat <= 57 then c - 48#8
  else if 65 <= c.toNat ∧ c.toNat <= 70 then c - 55#8
  else if 97 <= c.toNat ∧ c.toNat <= 102 then c - 87#8
  else 0#8

/-- The bytes that the first `2 * n` characters denote. -/
def Line.denotedBytes (line : Line) (n : Nat) : List Byte :=
  (List.range n).map (fun i =>
    16#8 * digitValue (line.buffer (2 * i)) + digitValue (line.buffer (2 * i + 1)))

def Line.CompleteHex (line : Line) (n : Nat) : Prop :=
  line.count = 2 * n ∧ forall k, k < 2 * n -> isHexDigit (line.buffer k) = true

instance (line : Line) (n : Nat) : Decidable (line.CompleteHex n) :=
  inferInstanceAs (Decidable (_ ∧ _))

/-- The first `2 * n` characters are digits or fillers. -/
def Line.InTable (line : Line) (n : Nat) : Prop :=
  forall k, k < 2 * n -> isHexDigit (line.buffer k) = true ∨ isFiller (line.buffer k) = true

instance (line : Line) (n : Nat) : Decidable (line.InTable n) :=
  inferInstanceAs (Decidable (forall _, _ -> _))

theorem table_characters : forall n : Fin 256,
    let c := BitVec.ofFin (w := 8) n
    ((isHexDigit c = true ∨ isFiller c = true) <->
      (0 <= tableIndex c ∧ tableIndex c < hexTable.length)) ∧
    ((isHexDigit c = true ∨ isFiller c = true) ->
      48 <= (toupper c).toNat ∧ (toupper c).toNat - 48 < hexTable.length ∧
        hexTable.getD ((toupper c).toNat - 48) 0#8 = digitValue c) := by
  decide +kernel

theorem tableIndex_inside (c : Byte) :
    (0 <= tableIndex c ∧ tableIndex c < hexTable.length) <->
      (isHexDigit c = true ∨ isFiller c = true) :=
  (table_characters c.toFin).1.symm

theorem hexDigit_value (env : Surroundings) {c : Byte}
    (h : isHexDigit c = true ∨ isFiller c = true) : hexDigit env c = digitValue c := by
  rcases (table_characters c.toFin).2 h with ⟨hlow, hhigh, hvalue⟩
  unfold hexDigit
  dsimp only
  rw [if_pos ⟨hlow, hhigh⟩]
  exact hvalue

theorem hexBytes_denoted (env : Surroundings) {line : Line} {n : Nat} (h : line.InTable n) :
    (List.range n).map (hexByte env line) = line.denotedBytes n := by
  apply List.map_congr_left
  intro i hi
  rw [List.mem_range] at hi
  unfold hexByte
  rw [hexDigit_value env (h (2 * i) (by omega)), hexDigit_value env (h (2 * i + 1) (by omega))]

/-!
# What is promised, and when it holds
-/

def fieldBytes (eerev : List Byte) (offset n : Nat) : List Byte := (eerev.drop offset).take n

/-- `eerev.text` -/
def textField (eerev : List Byte) : List Byte := fieldBytes eerev 0x80 64

def stringOf (field : List Byte) : List Byte := field.takeWhile (fun b => b != 0#8)

structure Validated (p : Prompt) (line : Line) (eerev eerev' : List Byte) : Prop where
  /-- No index is outside of the line, which ends with its NUL. -/
  position : Used p line.count -> forall k, k ∈ positions p eerev -> (k : Int) <= line.count.toNat
  /-- No index is outside of the table. -/
  index : Used p line.count -> forall offset n, hexField p = some (offset, n) ->
    forall k, k < 2 * n ->
      0 <= tableIndex (line.buffer k) ∧ tableIndex (line.buffer k) < hexTable.length
  /-- After a ^C nothing has changed. -/
  interrupted : line.count = -1 -> eerev' = eerev
  bytes : forall offset n, hexField p = some (offset, n) ->
    fieldBytes eerev' offset n =
      if line.CompleteHex n then line.denotedBytes n else fieldBytes eerev offset n
  text : p = .text -> 0#8 ∈ textField eerev ->
    0#8 ∈ textField eerev' ∧ stringOf (textField eerev) <+: stringOf (textField eerev')

def DialogValidated (env : Surroundings) (input : OperatorInput) (eerev : List Byte) : Prop :=
  forall p, Shown env input eerev p ->
    Validated p (input.line p) (atPrompt env input eerev p)
      (enterAt env input p (atPrompt env input eerev p))

def Accepted (p : Prompt) (line : Line) (eerev : List Byte) : Prop :=
  match p with
  | .revisionNumber =>
      line.count = -1 ->
        eerev.getD 0x70 0#8 = 0#8 ∧ fieldBytes eerev 0x72 12 = fieldBytes eerev 0x70 12
  | .nodeId =>
      line.count = 12 -> line.InTable 6 ∧
        (line.CompleteHex 6 ∨ line.denotedBytes 6 = fieldBytes eerev 0x68 6)
  | .text =>
      line.count ≠ 0 -> 62 <= textLength eerev + line.count.toNat ∧
        (line.count = -1 -> eerev.getD 0xbf 0#8 = 0#8)
  | .cacheWord =>
      line.count ≠ 0 -> 8 <= line.count ∧ line.InTable 4 ∧
        (line.CompleteHex 4 ∨ line.denotedBytes 4 = fieldBytes eerev 0xc0 4)
  | .revisionCharacter | .boardName | .serialNumber => True

/-!
# Replaced bytes
-/

section Patch

variable {eerev bytes : List Byte} {offset : Nat}

theorem fieldBytes_length {n : Nat} (h : offset + n <= eerev.length) :
    (fieldBytes eerev offset n).length = n := by
  rw [fieldBytes, List.length_take, List.length_drop]
  omega

theorem fieldBytes_eq {n : Nat} :
    fieldBytes eerev offset n = (eerev.take (offset + n)).drop offset := by
  rw [fieldBytes, List.drop_take, Nat.add_sub_cancel_left]

theorem fieldBytes_append (eerev : List Byte) (offset m n : Nat) :
    fieldBytes eerev offset (m + n) =
      fieldBytes eerev offset m ++ fieldBytes eerev (offset + m) n := by
  rw [fieldBytes, List.take_add, List.drop_drop]
  rfl

theorem fieldBytes_one (h : offset < eerev.length) :
    fieldBytes eerev offset 1 = [eerev.getD offset 0#8] := by
  rw [fieldBytes, List.take_one, List.head?_drop, List.getD_eq_getElem?_getD,
    List.getElem?_eq_getElem h]
  rfl

theorem patch_fieldBytes (bytes : List Byte) (h : offset <= eerev.length) :
    fieldBytes (patch eerev offset bytes) offset bytes.length = bytes := by
  have htake : (eerev.take offset).length = offset := by
    rw [List.length_take]
    omega
  rw [fieldBytes, patch, List.append_assoc, List.drop_left' htake, List.take_left]

theorem patch_eq_self (h : offset + bytes.length <= eerev.length) :
    patch eerev offset bytes = eerev <-> fieldBytes eerev offset bytes.length = bytes := by
  constructor
  · intro hsame
    have hfield := patch_fieldBytes bytes (show offset <= eerev.length by omega)
    rw [hsame] at hfield
    exact hfield
  · intro hfield
    rw [patch, ← hfield, fieldBytes_length h, fieldBytes, List.append_assoc, ← List.drop_drop,
      List.take_append_drop, List.take_append_drop]

end Patch

/-!
# Prompt by prompt
-/

section Prompts

variable {env : Surroundings} {input : OperatorInput} {eerev : List Byte}

theorem enterNumber_same (hlength : eerev.length = configSysSromSize)
    (hused : input.revisionNumber.count ≠ 0) :
    enterNumber input eerev = eerev <->
      eerev.getD 0x70 0#8 = toupper (input.revisionNumber.buffer 0) ∧
        fieldBytes eerev 0x72 12 = fieldBytes eerev 0x70 12 := by
  have hlength' : eerev.length = 256 := hlength
  have hsaved : ((eerev.drop 0x70).take 14).take 12 = fieldBytes eerev 0x70 12 := by
    rw [List.take_take]
    rfl
  have hsize : (fieldBytes eerev 0x70 12).length = 12 := fieldBytes_length (by omega)
  have hfirst : fieldBytes eerev 0x70 1 = [eerev.getD 0x70 0#8] := fieldBytes_one (by omega)
  have hnumber : patch eerev 0x70 [toupper (input.revisionNumber.buffer 0)] = eerev <->
      eerev.getD 0x70 0#8 = toupper (input.revisionNumber.buffer 0) := by
    rw [patch_eq_self (by rw [List.length_singleton]; omega), List.length_singleton, hfirst,
      List.singleton_inj]
  have hshift : patch eerev 0x72 (fieldBytes eerev 0x70 12) = eerev <->
      fieldBytes eerev 0x72 12 = fieldBytes eerev 0x70 12 := by
    rw [patch_eq_self (by rw [hsize]; omega), hsize]
  unfold enterNumber
  rw [if_pos hused]
  dsimp only
  rw [hsaved]
  constructor
  · intro hsame
    have hpatched : (patch eerev 0x70 [toupper (input.revisionNumber.buffer 0)]).length =
        eerev.length := patch_length (by rw [List.length_singleton]; omega)
    have htake := congrArg (List.take 0x72) hsame
    rw [patch_take (Nat.le_refl _) (by omega)] at htake
    have hbyte : fieldBytes (patch eerev 0x70 [toupper (input.revisionNumber.buffer 0)])
        0x70 1 = fieldBytes eerev 0x70 1 := by
      have htake' := congrArg (List.take 0x71) htake
      rw [List.take_take, List.take_take] at htake'
      rw [fieldBytes_eq, fieldBytes_eq]
      exact congrArg (List.drop 0x70) htake'
    have hvalue := patch_fieldBytes [toupper (input.revisionNumber.buffer 0)]
      (show 0x70 <= eerev.length by omega)
    rw [List.length_singleton, hbyte, hfirst, List.singleton_inj] at hvalue
    refine ⟨hvalue, ?_⟩
    rw [hnumber.mpr hvalue] at hsame
    exact hshift.mp hsame
  · rintro ⟨hvalue, hfield⟩
    rw [hnumber.mpr hvalue, hshift.mpr hfield]

theorem validated_number (hlength : eerev.length = configSysSromSize)
    (htyped : input.revisionNumber.Typed) :
    Validated .revisionNumber input.revisionNumber eerev (enterNumber input eerev) <->
      Accepted .revisionNumber input.revisionNumber eerev := by
  have hbreak : input.revisionNumber.count = -1 ->
      toupper (input.revisionNumber.buffer 0) = 0#8 := by
    intro hcount
    have hnul := htyped.terminated
    rw [hcount] at hnul
    show toupper (input.revisionNumber.buffer (-1 : Int).toNat) = 0#8
    rw [hnul]
    decide
  have hsame : input.revisionNumber.count = -1 ->
      (enterNumber input eerev = eerev <->
        eerev.getD 0x70 0#8 = 0#8 ∧ fieldBytes eerev 0x72 12 = fieldBytes eerev 0x70 12) := by
    intro hcount
    rw [enterNumber_same hlength (by omega), hbreak hcount]
  constructor
  · intro h hcount
    exact (hsame hcount).mp (h.interrupted hcount)
  · intro h
    constructor
    case position =>
        intro _ k hk
        rw [List.mem_singleton.mp hk]
        exact Int.natCast_nonneg _
    case index =>
        intro _ offset n hfield
        cases hfield
    case interrupted =>
        intro hcount
        exact (hsame hcount).mpr (h hcount)
    case bytes =>
        intro offset n hfield
        cases hfield
    case text =>
        intro hp
        cases hp

/-- A prompt that takes lines of one length only, and no digits from the table. -/
theorem validated_exact {p : Prompt} {line : Line} {eerev' : List Byte} {n : Nat}
    (hused : Used p line.count <-> line.count = n) (hn : 0 < n)
    (hpositions : positions p eerev = List.range n) (hfield : hexField p = none)
    (htext : p ≠ .text) (hunused : line.count ≠ n -> eerev' = eerev) :
    Validated p line eerev eerev' := by
  constructor
  case position =>
      intro h k hk
      rw [hpositions, List.mem_range] at hk
      have hcount := hused.mp h
      omega
  case index =>
      intro _ offset size hsome
      rw [hfield] at hsome
      cases hsome
  case interrupted =>
      intro hcount
      exact hunused (by omega)
  case bytes =>
      intro offset size hsome
      rw [hfield] at hsome
      cases hsome
  case text =>
      intro hp
      exact absurd hp htext

variable (env) in
/-- What a prompt that converts digits is to do, said with the table's own characters. -/
theorem validated_hex {p : Prompt} {line : Line} {eerev' : List Byte} {offset n : Nat}
    (hn : 0 < n) (htyped : line.Typed) (hfield : hexField p = some (offset, n))
    (hpositions : positions p eerev = List.range (2 * n))
    (hcomplete : line.count = 2 * n -> Used p line.count)
    (hsize : offset + n <= eerev.length)
    (hunused : ¬ Used p line.count -> eerev' = eerev)
    (hentered : Used p line.count -> eerev' = patch eerev offset
      ((List.range n).map (hexByte env line))) :
    Validated p line eerev eerev' <->
      (Used p line.count -> 2 * (n : Int) <= line.count ∧ line.InTable n ∧
        (line.CompleteHex n ∨ line.denotedBytes n = fieldBytes eerev offset n)) := by
  have hdenoted : (line.denotedBytes n).length = n := by
    rw [Line.denotedBytes, List.length_map, List.length_range]
  have hmap : ((List.range n).map (hexByte env line)).length = n := by
    rw [List.length_map, List.length_range]
  have htext : p ≠ .text := by
    intro hp
    rw [hp] at hfield
    cases hfield
  have hinside : line.InTable n <-> forall k, k < 2 * n ->
      0 <= tableIndex (line.buffer k) ∧ tableIndex (line.buffer k) < hexTable.length := by
    constructor
    · intro h k hk
      exact (tableIndex_inside _).mpr (h k hk)
    · intro h k hk
      exact (tableIndex_inside _).mp (h k hk)
  constructor
  · intro h hused
    have htable : line.InTable n := hinside.mpr (h.index hused offset n hfield)
    have hlast := h.position hused (2 * n - 1)
      (by rw [hpositions, List.mem_range]; omega)
    have hbytes := h.bytes offset n hfield
    have hvalue : fieldBytes eerev' offset n = line.denotedBytes n := by
      have hpatched := patch_fieldBytes ((List.range n).map (hexByte env line))
        (show offset <= eerev.length by omega)
      rw [hentered hused, ← hexBytes_denoted env htable]
      rw [hmap] at hpatched
      exact hpatched
    refine ⟨?_, htable, ?_⟩
    · -- the NUL of a line that is one character short is not in the table
      by_contra hshort
      have hnul : line.buffer (2 * n - 1) = 0#8 := by
        have hcount : line.count.toNat = 2 * n - 1 := by omega
        rw [← hcount]
        exact htyped.terminated
      have hchar := htable (2 * n - 1) (by omega)
      rw [hnul] at hchar
      exact absurd hchar (by decide)
    · by_cases hcomp : line.CompleteHex n
      · exact Or.inl hcomp
      · rw [if_neg hcomp, hvalue] at hbytes
        exact Or.inr hbytes
  · intro h
    constructor
    case position =>
        intro hused k hk
        rw [hpositions, List.mem_range] at hk
        have hcount := (h hused).1
        omega
    case index =>
        intro hused offset' n' hfield' k hk
        rw [hfield] at hfield'
        cases hfield'
        exact hinside.mp (h hused).2.1 k hk
    case interrupted =>
        intro hcount
        apply hunused
        intro hused
        have hlong := (h hused).1
        omega
    case bytes =>
        intro offset' n' hfield'
        rw [hfield] at hfield'
        cases hfield'
        by_cases hused : Used p line.count
        · rcases h hused with ⟨_, htable, hvalue⟩
          have hpatched := patch_fieldBytes ((List.range n).map (hexByte env line))
            (show offset <= eerev.length by omega)
          rw [hmap, hexBytes_denoted env htable] at hpatched
          rw [hentered hused, hexBytes_denoted env htable, hpatched]
          by_cases hcomp : line.CompleteHex n
          · rw [if_pos hcomp]
          · rw [if_neg hcomp]
            rcases hvalue with hcomp' | hvalue
            · exact absurd hcomp' hcomp
            · exact hvalue
        · have hcomp : ¬ line.CompleteHex n := fun hcomp => hused (hcomplete hcomp.1)
          rw [if_neg hcomp, hunused hused]
    case text =>
        intro hp
        exact absurd hp htext

theorem validated_nodeId (hlength : eerev.length = configSysSromSize)
    (htyped : input.nodeId.Typed) :
    Validated .nodeId input.nodeId eerev (enterNodeId env input eerev) <->
      Accepted .nodeId input.nodeId eerev := by
  have hlength' : eerev.length = 256 := hlength
  refine (validated_hex env (p := .nodeId) (n := 6) (by decide) htyped rfl rfl
    (fun hcount => hcount) (show 0x68 + 6 <= eerev.length by omega) ?_ ?_).trans ?_
  · exact fun hunused => if_neg hunused
  · exact fun hused => if_pos hused
  · refine ⟨fun h hcount => (h hcount).2, fun h hused => ⟨?_, h hused⟩⟩
    have hcount : input.nodeId.count = 12 := hused
    omega

theorem validated_cacheWord (hlength : eerev.length = configSysSromSize)
    (htyped : input.cacheWord.Typed) :
    Validated .cacheWord input.cacheWord eerev (enterAt env input .cacheWord eerev) <->
      Accepted .cacheWord input.cacheWord eerev := by
  have hlength' : eerev.length = 256 := hlength
  refine validated_hex env (p := .cacheWord) (n := 4) (by decide) htyped rfl rfl ?_
    (show 0xc0 + 4 <= eerev.length by omega) ?_ ?_
  · intro hcount
    show input.cacheWord.count ≠ 0
    omega
  · exact fun hunused => if_neg hunused
  · exact fun hused => if_pos hused

/-!
# The text section
-/

theorem textLength_le (eerev : List Byte) : textLength eerev <= 63 := by
  apply Nat.le_trans (List.IsPrefix.length_le (List.takeWhile_prefix _))
  rw [List.length_take]
  exact Nat.min_le_left _ _

theorem textLength_front (hlength : eerev.length = configSysSromSize) :
    (forall b, b ∈ fieldBytes eerev 0x80 (textLength eerev) -> (b != 0#8) = true) ∧
      (textLength eerev < 63 -> eerev.getD (0x80 + textLength eerev) 0#8 = 0#8) := by
  have hlength' : eerev.length = 256 := hlength
  have hle := textLength_le eerev
  have hsplit := List.takeWhile_append_dropWhile (p := fun b => b != 0#8)
    (l := fieldBytes eerev 0x80 63)
  have hfront : (fieldBytes eerev 0x80 63).takeWhile (fun b => b != 0#8) =
      fieldBytes eerev 0x80 (textLength eerev) := by
    rw [List.prefix_iff_eq_take.mp (List.takeWhile_prefix (fun b => b != 0#8))]
    show ((eerev.drop 0x80).take 63).take (textLength eerev) =
      (eerev.drop 0x80).take (textLength eerev)
    rw [List.take_take, Nat.min_eq_left hle]
  constructor
  · intro b hb
    rw [← hfront] at hb
    exact List.mem_takeWhile_imp (p := fun b => b != 0#8) hb
  · intro hshort
    have hrest : (fieldBytes eerev 0x80 63).dropWhile (fun b => b != 0#8) =
        fieldBytes eerev (0x80 + textLength eerev) (63 - textLength eerev) := by
      have hparts := fieldBytes_append eerev 0x80 (textLength eerev)
        (63 - textLength eerev)
      rw [Nat.add_sub_cancel' hle] at hparts
      rw [hfront] at hsplit
      exact List.append_cancel_left (hsplit.trans hparts)
    have hnul := List.head?_dropWhile_not (fun b => b != 0#8) (fieldBytes eerev 0x80 63)
    rw [hrest, show 63 - textLength eerev = 1 + (62 - textLength eerev) by omega,
      fieldBytes_append, fieldBytes_one (by omega)] at hnul
    simpa using hnul

theorem text_nul (hlength : eerev.length = configSysSromSize)
    (hend : 0#8 ∈ textField eerev) : eerev.getD (0x80 + textLength eerev) 0#8 = 0#8 := by
  have hlength' : eerev.length = 256 := hlength
  have hle := textLength_le eerev
  rcases textLength_front hlength with ⟨hfront, hnul⟩
  by_cases hshort : textLength eerev < 63
  · exact hnul hshort
  · have hfull : textLength eerev = 63 := by omega
    rw [textField, show 64 = textLength eerev + 1 by omega, fieldBytes_append,
      fieldBytes_one (by omega)] at hend
    rcases List.mem_append.mp hend with hmem | hmem
    · exact absurd (hfront _ hmem) (by decide)
    · exact (List.mem_singleton.mp hmem).symm

theorem text_string (hlength : eerev.length = configSysSromSize)
    (hend : 0#8 ∈ textField eerev) :
    stringOf (textField eerev) = fieldBytes eerev 0x80 (textLength eerev) := by
  have hlength' : eerev.length = 256 := hlength
  have hle := textLength_le eerev
  have hsplit : textField eerev = fieldBytes eerev 0x80 (textLength eerev) ++
      (0#8 :: fieldBytes eerev (0x80 + textLength eerev + 1) (63 - textLength eerev)) := by
    rw [textField, show 64 = textLength eerev + (1 + (63 - textLength eerev)) by omega,
      fieldBytes_append, fieldBytes_append, fieldBytes_one (by omega), text_nul hlength hend]
    simp
  rw [stringOf, hsplit, List.takeWhile_append_of_pos (textLength_front hlength).1,
    List.takeWhile_cons_of_neg (by simp), List.append_nil]

/-- What is added to the text section, in front of the NUL at its end. -/
theorem enterText_field (hlength : eerev.length = configSysSromSize)
    (hused : input.text.count ≠ 0) :
    fieldBytes (enterText input eerev) 0x80 (textLength eerev) =
        fieldBytes eerev 0x80 (textLength eerev) ∧
      fieldBytes (enterText input eerev) 0xbf 1 = [0#8] := by
  have hlength' : eerev.length = 256 := hlength
  have hle := textLength_le eerev
  have hentered : (patch eerev (0x80 + textLength eerev)
      ((List.range (63 - textLength eerev)).map input.text.buffer)).length = eerev.length := by
    apply patch_length
    rw [List.length_map, List.length_range]
    omega
  unfold enterText
  rw [if_pos hused]
  dsimp only
  constructor
  · rw [fieldBytes_eq, fieldBytes_eq, patch_take (by omega) (by omega),
      patch_take (Nat.le_refl _) (by omega)]
  · have hlast := patch_fieldBytes [0#8] (show 0xbf <= (patch eerev (0x80 + textLength eerev)
      ((List.range (63 - textLength eerev)).map input.text.buffer)).length by omega)
    rw [List.length_singleton] at hlast
    exact hlast

theorem enterText_same (hlength : eerev.length = configSysSromSize)
    (hused : input.text.count ≠ 0) (hfirst : input.text.buffer 0 = 0#8)
    (hfull : 62 <= textLength eerev) :
    enterText input eerev = eerev <-> eerev.getD 0xbf 0#8 = 0#8 := by
  have hlength' : eerev.length = 256 := hlength
  have hle := textLength_le eerev
  have hentered : patch eerev (0x80 + textLength eerev)
      ((List.range (63 - textLength eerev)).map input.text.buffer) = eerev := by
    rw [patch_eq_self (by rw [List.length_map, List.length_range]; omega), List.length_map,
      List.length_range]
    by_cases hroom : textLength eerev = 62
    · have hnul := (textLength_front hlength).2 (by omega)
      rw [hroom] at hnul ⊢
      rw [show 63 - 62 = 1 from rfl, fieldBytes_one (by omega), hnul]
      show [0#8] = [input.text.buffer 0]
      rw [hfirst]
    · rw [show 63 - textLength eerev = 0 by omega]
      rfl
  unfold enterText
  rw [if_pos hused]
  dsimp only
  rw [hentered, patch_eq_self (by rw [List.length_singleton]; omega), List.length_singleton,
    fieldBytes_one (by omega), List.singleton_inj]

theorem validated_text (hlength : eerev.length = configSysSromSize) (htyped : input.text.Typed) :
    Validated .text input.text eerev (enterText input eerev) <->
      Accepted .text input.text eerev := by
  have hlength' : eerev.length = 256 := hlength
  have hle := textLength_le eerev
  have hbreak : input.text.count = -1 -> input.text.buffer 0 = 0#8 := by
    intro hcount
    have hnul := htyped.terminated
    rw [hcount] at hnul
    exact hnul
  constructor
  · intro h hused
    have hfull : 62 <= textLength eerev + input.text.count.toNat := by
      by_contra hshort
      have hlast := h.position hused (62 - textLength eerev)
        (List.mem_range.mpr (by omega))
      omega
    refine ⟨hfull, fun hcount => ?_⟩
    have hzero : input.text.count.toNat = 0 := by omega
    exact (enterText_same hlength hused (hbreak hcount) (by omega)).mp (h.interrupted hcount)
  · intro h
    constructor
    case position =>
        intro hused k hk
        have hk' : k < 63 - textLength eerev := List.mem_range.mp hk
        have hfull := (h hused).1
        omega
    case index =>
        intro _ offset n hfield
        cases hfield
    case interrupted =>
        intro hcount
        have hused : input.text.count ≠ 0 := by omega
        have hzero : input.text.count.toNat = 0 := by omega
        rcases h hused with ⟨hfull, hnul⟩
        exact (enterText_same hlength hused (hbreak hcount) (by omega)).mpr (hnul hcount)
    case bytes =>
        intro offset n hfield
        cases hfield
    case text =>
        intro _ hend
        by_cases hused : input.text.count = 0
        · have hsame : enterText input eerev = eerev := if_neg (not_not.mpr hused)
          rw [hsame]
          exact ⟨hend, List.prefix_refl _⟩
        · rcases enterText_field hlength hused with ⟨hfront, hlast⟩
          constructor
          · show 0#8 ∈ fieldBytes (enterText input eerev) 0x80 (63 + 1)
            rw [fieldBytes_append, hlast]
            exact List.mem_append_right _ List.mem_cons_self
          · rw [text_string hlength hend, textField, show 64 = textLength eerev +
              (64 - textLength eerev) by omega, fieldBytes_append, hfront, stringOf,
              List.takeWhile_append_of_pos (textLength_front hlength).1]
            exact List.prefix_append _ _

end Prompts

/-!
# The dialog
-/

theorem atPrompt_length (env : Surroundings) (input : OperatorInput) {eerev : List Byte}
    (hlength : eerev.length = configSysSromSize) (p : Prompt) :
    (atPrompt env input eerev p).length = configSysSromSize := by
  have h1 := (enterNumber_magic input hlength).1.trans hlength
  have h2 := (enterCharacter_magic input h1).1.trans h1
  have h3 := (enterBoard_magic input h2).1.trans h2
  have h4 := (enterSerial_magic input h3).1.trans h3
  have h5 := (enterNodeId_magic env input h4).1.trans h4
  have h6 := (enterText_magic input h5).1.trans h5
  cases p with
  | revisionNumber => exact hlength
  | revisionCharacter => exact h1
  | boardName => exact h2
  | serialNumber => exact h3
  | nodeId => exact h4
  | text => exact h5
  | cacheWord =>
      refine (patch_length ?_).trans h6
      have h6' : (enterFields env input eerev).length = 256 := h6
      rw [wordBytes_length]
      omega

theorem validated_iff (env : Surroundings) {input : OperatorInput} {eerev : List Byte}
    {p : Prompt} (hlength : eerev.length = configSysSromSize) (htyped : (input.line p).Typed) :
    Validated p (input.line p) eerev (enterAt env input p eerev) <->
      Accepted p (input.line p) eerev := by
  cases p with
  | revisionNumber =>
      exact validated_number hlength htyped
  | revisionCharacter =>
      refine iff_of_true ?_ trivial
      exact validated_exact Iff.rfl Nat.one_pos rfl rfl nofun (fun hunused => if_neg hunused)
  | boardName =>
      refine iff_of_true ?_ trivial
      exact validated_exact Iff.rfl (by decide) rfl rfl nofun (fun hunused => if_neg hunused)
  | serialNumber =>
      refine iff_of_true ?_ trivial
      exact validated_exact Iff.rfl (by decide) rfl rfl nofun (fun hunused => if_neg hunused)
  | nodeId =>
      exact validated_nodeId hlength htyped
  | text =>
      exact validated_text hlength htyped
  | cacheWord =>
      exact validated_cacheWord hlength htyped

/-- The dialog validates its input just when each prompt gets a line that it takes. -/
theorem dialog_validated_iff (env : Surroundings) {input : OperatorInput} {eerev : List Byte}
    (hlength : eerev.length = configSysSromSize) (htyped : forall p, (input.line p).Typed) :
    DialogValidated env input eerev <->
      forall p, Shown env input eerev p ->
        Accepted p (input.line p) (atPrompt env input eerev p) := by
  apply forall_congr'
  intro p
  exact imp_congr_right (fun _ => validated_iff env (atPrompt_length env input hlength p)
    (htyped p))

def typedLine (text : List Byte) : Line := ⟨text.length, fun k => text.getD k 0#8⟩

theorem typedLine_typed {text : List Byte} (h : text.length <= 254) :
    (typedLine text).Typed where
  count := Or.inr ⟨Int.natCast_nonneg _, by show (text.length : Int) <= 254; omega⟩
  terminated := by
    show text.getD text.length 0#8 = 0#8
    rw [List.getD_eq_getElem?_getD, List.getElem?_eq_none (Nat.le_refl _)]
    rfl

theorem emptyLine_typed : emptyLine.Typed := ⟨Or.inr ⟨by decide, by decide⟩, rfl⟩

def nodeIdInput (text : List Byte) : OperatorInput :=
  { silentOperator with nodeId := typedLine text }

theorem nodeIdInput_typed {text : List Byte} (h : text.length <= 254) (p : Prompt) :
    ((nodeIdInput text).line p).Typed := by
  cases p with
  | nodeId => exact typedLine_typed h
  | _ => exact emptyLine_typed

theorem dialog_validated_iff_sample :
    DialogValidated sampleSurroundings (nodeIdInput (ascii "00005b00Ac01")) defaultRevinfo := by
  refine (dialog_validated_iff sampleSurroundings defaultRevinfo_valid.1
    (nodeIdInput_typed (by decide))).mpr ?_
  intro p _
  cases p with
  | nodeId => exact fun _ => ⟨by decide, Or.inl (by decide)⟩
  | revisionNumber => exact fun hcount => absurd hcount (by decide)
  | text => exact fun hcount => absurd rfl hcount
  | cacheWord => exact fun hcount => absurd rfl hcount
  | _ => trivial

/-- A letter that is no digit is looked up behind the table. -/
theorem dialog_letter_not_validated :
    (forall p, ((nodeIdInput (ascii "00005b00ac0g")).line p).Typed) ∧
      ¬ DialogValidated sampleSurroundings (nodeIdInput (ascii "00005b00ac0g"))
        defaultRevinfo := by
  refine ⟨nodeIdInput_typed (by decide), fun h => ?_⟩
  have hindex := (h .nodeId trivial).index rfl 0x68 6 rfl 11 (by decide)
  exact absurd hindex (by decide)

end Srom
end Bab750

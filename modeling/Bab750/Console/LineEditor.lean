import Bab750.Console.Monitor
import Mathlib.Data.List.DropRight

/-!
# The line editor

`readline_into_buffer` and `delete_char` of `common/main.c` on the buffer itself, with
the pointer, the count, and the column.  A read or a write outside of the buffer has
no result.  The keys fold over a list, which is what the monitor works with.
-/

namespace Bab750
namespace Console

open Foundation

/-!
# The buffer
-/

/-- A buffer of `CONFIG_SYS_CBSIZE` characters. -/
abbrev LineBuffer := { cells : Text // cells.length = cbSize }

/-- `*p`, for a pointer counted from the start of the buffer. -/
def LineBuffer.load (buffer : LineBuffer) (p : Int) : Option Char :=
  if 0 <= p then buffer.val[p.toNat]? else none

def LineBuffer.store (buffer : LineBuffer) (p : Int) (c : Char) : Option LineBuffer :=
  if 0 <= p ∧ p < cbSize then
    some ⟨buffer.val.set p.toNat c, by rw [List.length_set, buffer.property]⟩
  else none

/-- The variables of `readline_into_buffer` between two keys. -/
structure Editor where
  buffer : LineBuffer
  /-- The pointer, counted from `p_buf`. -/
  p : Int
  /-- Buffer index. -/
  n : Int
  /-- Output column count. -/
  col : Int

def columnBehind (col : Int) (c : Char) : Int :=
  if c = '\t' then col + (8 - col % 8) else col + 1

def echo (col : Int) (c : Char) : Text :=
  if c = '\t' then List.replicate (8 - (col % 8).toNat) ' ' else puts [c]

def eraseTo (plen : Nat) (col : Int) : Text :=
  (List.replicate (col - plen).toNat eraseSeq).flatten

/-- The loop of `delete_char` that types the cells from `s` on again. -/
def retypeCells (buffer : LineBuffer) : Nat -> Int -> Int -> Option (Text × Int)
  | 0, _, col => some ([], col)
  | count + 1, s, col => do
      let c <- buffer.load s
      let typed <- retypeCells buffer count (s + 1) (columnBehind col c)
      return (echo col c ++ typed.1, typed.2)

def deleteCharIn (plen : Nat) (e : Editor) : Option (Text × Editor) :=
  if e.n = 0 then some ([], e)
  else do
    let p := e.p - 1
    let c <- e.buffer.load p
    if c = '\t' then
      -- the whole line is typed again
      let typed <- retypeCells e.buffer p.toNat 0 (min e.col plen)
      return (eraseTo plen e.col ++ typed.1,
        { e with p := p, n := e.n - 1, col := typed.2 })
    else
      return (eraseSeq, { e with p := p, n := e.n - 1, col := e.col - 1 })

/-- The loop of `^W`; it looks at the character that was deleted last. -/
def deleteWordIn (plen : Nat) : Nat -> Editor -> Option (Text × Editor)
  | 0, _ => none
  | fuel + 1, e =>
      if 0 < e.n then do
        let c <- e.buffer.load e.p
        if c ≠ ' ' then
          let deleted <- deleteCharIn plen e
          let more <- deleteWordIn plen fuel deleted.2
          return (deleted.1 ++ more.1, more.2)
        else return ([], e)
      else some ([], e)

/-- What `readline_into_buffer` does after a key: it goes on, or it returns. -/
inductive KeyResult where
  | typing (e : Editor)
  | entered (length : Int) (buffer : LineBuffer)
  /-- The return value is -1. -/
  | interrupted (buffer : LineBuffer)

/-- One pass of the loop of `readline_into_buffer`. -/
def readlineKey (plen : Nat) (e : Editor) (c : Char) : Option (Text × KeyResult) :=
  if c = '\r' ∨ c = '\n' then do
    let buffer <- e.buffer.store e.p '\x00'
    return (puts ['\r', '\n'], .entered e.p buffer)
  else if c = '\x00' then some ([], .typing e)
  else if c = '\x03' then do
    let buffer <- e.buffer.store 0 '\x00'
    return ([], .interrupted buffer)
  else if c = '\x15' then
    some (eraseTo plen e.col, .typing { e with p := 0, n := 0, col := min e.col plen })
  else if c = '\x17' then do
    let first <- deleteCharIn plen e
    let more <- deleteWordIn plen (first.2.n.toNat + 1) first.2
    return (first.1 ++ more.1, .typing more.2)
  else if c = '\x08' ∨ c = '\x7f' then do
    let deleted <- deleteCharIn plen e
    return (deleted.1, .typing deleted.2)
  else if e.n < cbSize - 2 then do
    let buffer <- e.buffer.store e.p c
    return (echo e.col c, .typing {
      buffer := buffer, p := e.p + 1, n := e.n + 1, col := columnBehind e.col c })
  else some (['\x07'], .typing e)

/-- The loop for some keys: what is printed, the result, and the keys not read yet. -/
def readlineLoop (plen : Nat) : Editor -> Text -> Option (Text × KeyResult × Text)
  | e, [] => some ([], .typing e, [])
  | e, c :: rest =>
      match readlineKey plen e c with
      | none => none
      | some (out, .typing next) =>
          (readlineLoop plen next rest).map (fun r => (out ++ r.1, r.2))
      | some (out, result) => some (out, result, rest)

/-- `strlen(prompt)`, or 0 without a prompt. -/
def promptLength (prompt : Option Text) : Nat := (prompt.getD []).length

def openEditor (prompt : Option Text) (buffer : LineBuffer) : Editor where
  buffer := buffer
  p := 0
  n := 0
  col := promptLength prompt

def readlineIntoBuffer (prompt : Option Text) (buffer : LineBuffer) (input : Text) :
    Option (Text × KeyResult × Text) :=
  (readlineLoop (promptLength prompt) (openEditor prompt buffer) input).map
    (fun r => (puts (prompt.getD []) ++ r.1, r.2))

def readline (prompt : Option Text) (consoleBuffer : LineBuffer) (input : Text) :
    Option (Text × KeyResult × Text) := do
  let buffer <- consoleBuffer.store 0 '\x00'
  readlineIntoBuffer prompt buffer input

/-!
# Keys over a list
-/

/-- Without the last character and, unless that was a blank, the rest of its word. -/
def eraseWord (line : Text) : Text := (line.rdropWhile (fun c => c != ' ')).dropLast

def editKey (line : Text) (c : Char) : Text :=
  if c = '\x00' then line
  else if c = '\x15' then []
  else if c = '\x17' then eraseWord line
  else if c = '\x08' ∨ c = '\x7f' then line.dropLast
  else if line.length < cbSize - 2 then line ++ [c]
  else line

def tabbedColumn (col : Nat) (line : Text) : Nat :=
  line.foldl (fun col c => if c = '\t' then tabStop col else col + 1) col

@[simp] theorem tabbedColumn_nil (col : Nat) : tabbedColumn col [] = col := rfl

theorem tabbedColumn_append (col : Nat) (first second : Text) :
    tabbedColumn col (first ++ second) = tabbedColumn (tabbedColumn col first) second := by
  unfold tabbedColumn
  rw [List.foldl_append]

theorem tabbedColumn_snoc (col : Nat) (line : Text) (c : Char) :
    tabbedColumn col (line ++ [c]) =
      if c = '\t' then tabStop (tabbedColumn col line) else tabbedColumn col line + 1 := by
  rw [tabbedColumn_append]
  rfl

theorem columnBehind_cast (col : Nat) (c : Char) :
    columnBehind col c = (if c = '\t' then tabStop col else col + 1 : Nat) := by
  unfold columnBehind tabStop
  split
  · omega
  · rfl

theorem le_tabbedColumn (col : Nat) (line : Text) : col <= tabbedColumn col line := by
  induction line generalizing col with
  | nil =>
      exact Nat.le_refl col
  | cons c rest ih =>
      refine Nat.le_trans ?_ (ih _)
      show col <= if c = '\t' then tabStop col else col + 1
      unfold tabStop
      split
      · omega
      · omega

theorem retype_column (line : Text) (col : Nat) :
    (retype line col).2 = tabbedColumn col line := by
  induction line generalizing col with
  | nil =>
      rfl
  | cons c rest ih =>
      unfold retype tabbedColumn
      rw [List.foldl_cons]
      split
      · exact ih _
      · exact ih _

@[simp] theorem eraseWord_nil : eraseWord [] = [] := rfl

theorem eraseWord_snoc (line : Text) (c : Char) :
    eraseWord (line ++ [c]) = if c = ' ' then line else eraseWord line := by
  unfold eraseWord
  by_cases hblank : c = ' '
  · rw [List.rdropWhile_concat_neg _ _ _ (by simp [hblank]), List.dropLast_concat,
      if_pos hblank]
  · rw [List.rdropWhile_concat_pos _ _ _ (by simp [hblank]), if_neg hblank]

/-!
# The buffer holds the line
-/

/-- The three cursors agree on the line in the buffer. -/
structure Editor.Holds (e : Editor) (plen : Nat) (line : Text) : Prop where
  room : line.length <= cbSize - 2
  cells : e.buffer.val.take line.length = line
  p : e.p = line.length
  n : e.n = line.length
  col : e.col = (tabbedColumn plen line : Nat)

variable {e : Editor} {plen : Nat} {line : Text}

theorem openEditor_holds (prompt : Option Text) (buffer : LineBuffer) :
    (openEditor prompt buffer).Holds (promptLength prompt) [] where
  room := Nat.zero_le _
  cells := rfl
  p := rfl
  n := rfl
  col := rfl

theorem load_of_getElem? {buffer : LineBuffer} {i : Nat} {c : Char}
    (h : buffer.val[i]? = some c) : buffer.load i = some c := by
  unfold LineBuffer.load
  rw [if_pos (Int.natCast_nonneg i), Int.toNat_natCast, h]

theorem store_inside (buffer : LineBuffer) {i : Nat} (c : Char) (hi : i < cbSize) :
    exists next, buffer.store i c = some next ∧ next.val = buffer.val.set i c := by
  unfold LineBuffer.store
  rw [if_pos ⟨Int.natCast_nonneg i, Int.ofNat_lt.mpr hi⟩]
  exact ⟨_, rfl, rfl⟩

theorem Editor.Holds.cell {text : Text} (h : e.Holds plen text) {i : Nat} {c : Char}
    (hc : text[i]? = some c) : e.buffer.load i = some c := by
  have hi : i < text.length := (List.getElem?_eq_some_iff.mp hc).choose
  refine load_of_getElem? ?_
  rw [<- h.cells, List.getElem?_take, if_pos hi] at hc
  exact hc

theorem echo_cast (col : Nat) (c : Char) :
    echo col c = if c = '\t' then tabSeq col else puts [c] := by
  unfold echo tabSeq
  rw [show ((col : Int) % 8).toNat = col % 8 by omega]

theorem retypeCells_line {buffer : LineBuffer} {rest : Text} {i : Nat} (col : Nat)
    (h : forall k c, rest[k]? = some c -> buffer.load (i + k : Nat) = some c) :
    retypeCells buffer rest.length i col =
      some ((retype rest col).1, ((retype rest col).2 : Int)) := by
  induction rest generalizing i col with
  | nil =>
      rfl
  | cons c rest ih =>
      have hhead := h 0 c rfl
      have hrest := ih (i := i + 1) (if c = '\t' then tabStop col else col + 1) (by
        intro k d hd
        rw [show i + 1 + k = i + (k + 1) by omega]
        exact h (k + 1) d hd)
      rw [List.length_cons, retypeCells, show (i : Int) = (i + 0 : Nat) from rfl, hhead,
        Option.bind_eq_bind, Option.bind_some, Nat.add_zero, columnBehind_cast,
        show (i : Int) + 1 = (i + 1 : Nat) from rfl, hrest, echo_cast]
      by_cases htab : c = '\t'
      · simp [retype, htab]
      · simp [retype, htab]

/-- What `delete_char` prints for the last character of a line. -/
def deletion (plen : Nat) (col : Int) (front : Text) (c : Char) : Text :=
  if c = '\t' then eraseTo plen col ++ (retype front plen).1 else eraseSeq

theorem deleteCharIn_nil (h : e.Holds plen []) : deleteCharIn plen e = some ([], e) := by
  have hn : e.n = 0 := h.n
  unfold deleteCharIn
  rw [if_pos hn]

theorem deleteCharIn_snoc {front : Text} {c : Char} (h : e.Holds plen (front ++ [c])) :
    exists next, deleteCharIn plen e = some (deletion plen e.col front c, next) ∧
      next.Holds plen front ∧ next.buffer.load next.p = some c := by
  have hlength : (front ++ [c]).length = front.length + 1 := List.length_append
  have hp : e.p - 1 = front.length := by
    have hp := h.p
    omega
  have hn : e.n - 1 = front.length := by
    have hn := h.n
    omega
  have hload : e.buffer.load front.length = some c := h.cell (by simp)
  have hroom : front.length <= cbSize - 2 := by
    have hroom := h.room
    omega
  have hcells : e.buffer.val.take front.length = front := by
    have hcells := congrArg (List.take front.length) h.cells
    rw [List.take_take, hlength, Nat.min_eq_left (Nat.le_succ _),
      List.take_left] at hcells
    exact hcells
  unfold deleteCharIn deletion
  rw [if_neg (by omega), hp]
  dsimp only
  rw [hload, Option.bind_eq_bind, Option.bind_some]
  have hcol := h.col
  rw [tabbedColumn_snoc] at hcol
  by_cases htab : c = '\t'
  · -- the column starts again behind the prompt
    have hstart : min e.col plen = (plen : Int) := by
      have hle := le_tabbedColumn plen front
      rw [hcol, if_pos htab]
      unfold tabStop
      omega
    have hfront : forall k d, front[k]? = some d -> e.buffer.load (0 + k : Nat) = some d := by
      intro k d hd
      rw [Nat.zero_add]
      refine h.cell ?_
      rw [List.getElem?_append_left (List.getElem?_eq_some_iff.mp hd).choose]
      exact hd
    have htyped := retypeCells_line plen hfront
    rw [if_pos htab, if_pos htab, Int.toNat_natCast, hstart, show (0 : Int) = (0 : Nat) from rfl,
      htyped, Option.bind_eq_bind, Option.bind_some]
    refine ⟨_, rfl, ⟨hroom, hcells, rfl, hn, ?_⟩, hload⟩
    exact congrArg Nat.cast (retype_column front plen)
  · rw [if_neg htab] at hcol
    rw [if_neg htab, if_neg htab]
    refine ⟨_, rfl, ⟨hroom, hcells, rfl, hn, ?_⟩, hload⟩
    show e.col - 1 = _
    omega

theorem deleteWordIn_line {fuel : Nat} (hfuel : line.length < fuel) (h : e.Holds plen line)
    {last : Char} (hlast : line ≠ [] -> e.buffer.load e.p = some last) :
    exists out next, deleteWordIn plen fuel e = some (out, next) ∧
      next.Holds plen (if last = ' ' then line else eraseWord line) := by
  induction line using List.reverseRecOn generalizing fuel e last with
  | nil =>
      cases fuel with
      | zero =>
          exact absurd hfuel (Nat.not_lt_zero _)
      | succ fuel =>
          refine ⟨[], e, ?_, ?_⟩
          · unfold deleteWordIn
            rw [if_neg (by rw [h.n]; exact Int.lt_irrefl 0)]
          · rw [eraseWord_nil, ite_self]
            exact h
  | append_singleton front c ih =>
      cases fuel with
      | zero =>
          exact absurd hfuel (Nat.not_lt_zero _)
      | succ fuel =>
          have hload := hlast (by simp)
          have hlength : (front ++ [c]).length = front.length + 1 := List.length_append
          unfold deleteWordIn
          rw [if_pos (by rw [h.n]; omega), hload, Option.bind_eq_bind, Option.bind_some]
          by_cases hblank : last = ' '
          · rw [if_neg (not_not_intro hblank), if_pos hblank]
            exact ⟨[], e, rfl, h⟩
          · rw [if_pos hblank, if_neg hblank, eraseWord_snoc]
            rcases deleteCharIn_snoc h with ⟨next, hdelete, hnext, hcell⟩
            have hless : front.length < fuel := by omega
            rcases ih hless hnext (fun _ => hcell) with
              ⟨more, final, hmore, hfinal⟩
            rw [hdelete, Option.bind_eq_bind, Option.bind_some, hmore, Option.bind_some]
            exact ⟨_, final, rfl, hfinal⟩

theorem readlineKey_typing (h : e.Holds plen line) {c : Char} (hreturn : c ≠ '\r')
    (hfeed : c ≠ '\n') (hbreak : c ≠ '\x03') :
    exists out next, readlineKey plen e c = some (out, .typing next) ∧
      next.Holds plen (editKey line c) := by
  unfold readlineKey editKey
  rw [if_neg (not_or.mpr ⟨hreturn, hfeed⟩)]
  by_cases hnul : c = '\x00'
  · rw [if_pos hnul, if_pos hnul]
    exact ⟨_, e, rfl, h⟩
  rw [if_neg hnul, if_neg hnul, if_neg hbreak]
  by_cases hline : c = '\x15'
  · rw [if_pos hline, if_pos hline]
    have hle := le_tabbedColumn plen line
    have hcol : min e.col plen = (plen : Int) := by
      rw [h.col]
      omega
    exact ⟨_, _, rfl, ⟨Nat.zero_le _, rfl, rfl, rfl, hcol⟩⟩
  rw [if_neg hline, if_neg hline]
  by_cases hword : c = '\x17'
  · rw [if_pos hword, if_pos hword]
    cases line using List.reverseRecOn with
    | nil =>
        have hfuel : ([] : Text).length < e.n.toNat + 1 := Nat.succ_pos _
        have hnone : ([] : Text) ≠ [] -> e.buffer.load e.p = some ' ' :=
          fun hne => absurd rfl hne
        rcases deleteWordIn_line hfuel h hnone with
          ⟨out, next, hloop, hnext⟩
        rw [deleteCharIn_nil h, Option.bind_eq_bind, Option.bind_some, hloop, Option.bind_some]
        exact ⟨_, next, rfl, hnext⟩
    | append_singleton front last =>
        rcases deleteCharIn_snoc h with ⟨first, hdelete, hfirst, hcell⟩
        have hfuel : front.length < first.n.toNat + 1 := by
          rw [hfirst.n]
          omega
        rcases deleteWordIn_line hfuel hfirst (fun _ => hcell) with ⟨out, next, hloop, hnext⟩
        rw [hdelete, Option.bind_eq_bind, Option.bind_some, hloop, Option.bind_some,
          eraseWord_snoc]
        exact ⟨_, next, rfl, hnext⟩
  rw [if_neg hword, if_neg hword]
  by_cases hback : c = '\x08' ∨ c = '\x7f'
  · rw [if_pos hback, if_pos hback]
    cases line using List.reverseRecOn with
    | nil =>
        rw [deleteCharIn_nil h, Option.bind_eq_bind, Option.bind_some]
        exact ⟨_, e, rfl, h⟩
    | append_singleton front last =>
        rcases deleteCharIn_snoc h with ⟨next, hdelete, hnext, _⟩
        rw [hdelete, Option.bind_eq_bind, Option.bind_some, List.dropLast_concat]
        exact ⟨_, next, rfl, hnext⟩
  rw [if_neg hback, if_neg hback]
  have hroom := h.room
  have hsize : cbSize = 256 := rfl
  by_cases hfull : line.length < cbSize - 2
  · have hn : e.n < cbSize - 2 := by
      rw [h.n]
      omega
    rcases store_inside e.buffer c (show line.length < cbSize by omega) with
      ⟨next, hstore, hnext⟩
    rw [if_pos hn, if_pos hfull, h.p, hstore, Option.bind_eq_bind, Option.bind_some]
    refine ⟨_, _, rfl, ?_, ?_, ?_, ?_, ?_⟩
    · rw [List.length_append, List.length_singleton]
      omega
    · have hinside : line.length < e.buffer.val.length := by
        rw [e.buffer.property]
        omega
      rw [hnext, List.length_append, List.length_singleton, List.take_add_one,
        List.take_set_of_le (Nat.le_refl _), h.cells, List.getElem?_set_self hinside]
      rfl
    · rw [List.length_append, List.length_singleton]
      rfl
    · show e.n + 1 = _
      rw [h.n, List.length_append, List.length_singleton]
      rfl
    · show columnBehind e.col c = _
      rw [h.col, columnBehind_cast, tabbedColumn_snoc]
  · have hn : ¬ e.n < cbSize - 2 := by
      rw [h.n]
      omega
    rw [if_neg hn, if_neg hfull]
    exact ⟨_, e, rfl, h⟩

theorem readlineLoop_keys {keys : Text} (h : e.Holds plen line)
    (hkeys : forall c, c ∈ keys -> c ≠ '\r' ∧ c ≠ '\n' ∧ c ≠ '\x03') (rest : Text) :
    exists out next, next.Holds plen (keys.foldl editKey line) ∧
      readlineLoop plen e (keys ++ rest) =
        (readlineLoop plen next rest).map (fun r => (out ++ r.1, r.2)) := by
  induction keys generalizing e line with
  | nil =>
      refine ⟨[], e, h, ?_⟩
      rw [List.nil_append]
      exact Option.map_id'.symm
  | cons c keys ih =>
      rcases hkeys c List.mem_cons_self with ⟨hreturn, hfeed, hbreak⟩
      rcases readlineKey_typing h hreturn hfeed hbreak with ⟨out, next, hkey, hnext⟩
      rcases ih hnext (fun d hd => hkeys d (List.mem_cons_of_mem _ hd)) with
        ⟨more, final, hfinal, hrest⟩
      refine ⟨out ++ more, final, hfinal, ?_⟩
      rw [List.cons_append, readlineLoop, hkey]
      dsimp only
      rw [hrest, Option.map_map]
      congr 1
      funext r
      rw [Function.comp_apply, List.append_assoc]

theorem editKey_noNul {line : Text} (h : '\x00' ∉ line) (c : Char) :
    '\x00' ∉ editKey line c := by
  unfold editKey
  split_ifs with hnul hline hword hback hroom
  · exact h
  · exact List.not_mem_nil
  · intro hmem
    exact h ((List.rdropWhile_prefix _ _).sublist.mem (List.dropLast_subset _ hmem))
  · exact fun hmem => h (List.dropLast_subset _ hmem)
  · intro hmem
    rcases List.mem_append.mp hmem with hfront | hlast
    · exact h hfront
    · exact hnul (List.mem_singleton.mp hlast).symm
  · exact h

theorem foldl_editKey_noNul (keys : Text) {line : Text} (h : '\x00' ∉ line) :
    '\x00' ∉ keys.foldl editKey line := by
  induction keys generalizing line with
  | nil =>
      exact h
  | cons c keys ih =>
      exact ih (editKey_noNul h c)

theorem readlineKey_enter (h : e.Holds plen line) {c : Char} (hc : c = '\r' ∨ c = '\n') :
    exists out final, readlineKey plen e c = some (out, .entered line.length final) ∧
      final.val.take (line.length + 1) = line ++ ['\x00'] := by
  have hroom := h.room
  have hsize : cbSize = 256 := rfl
  rcases store_inside e.buffer '\x00' (show line.length < cbSize by omega) with
    ⟨final, hstore, hfinal⟩
  unfold readlineKey
  rw [if_pos hc, h.p, hstore, Option.bind_eq_bind, Option.bind_some]
  refine ⟨_, final, rfl, ?_⟩
  have hinside : line.length < e.buffer.val.length := by
    rw [e.buffer.property]
    omega
  rw [hfinal, List.take_add_one, List.take_set_of_le (Nat.le_refl _), h.cells,
    List.getElem?_set_self hinside]
  rfl

/-!
# The line editor law
-/

def keysOfLine (input : Text) : Text := input.takeWhile (fun c => c != '\r' && c != '\n')

def LineBuffer.string (buffer : LineBuffer) : Text :=
  buffer.val.takeWhile (fun c => c != '\x00')

theorem string_of_take {buffer : LineBuffer} {line : Text} (hnul : '\x00' ∉ line)
    (h : buffer.val.take (line.length + 1) = line ++ ['\x00']) : buffer.string = line := by
  unfold LineBuffer.string
  rw [<- List.take_append_drop (line.length + 1) buffer.val, h, List.append_assoc,
    List.takeWhile_append_of_pos]
  · rw [List.singleton_append, List.takeWhile_cons_of_neg (by simp), List.append_nil]
  · intro c hc
    exact bne_iff_ne.mpr (fun heq => hnul (heq ▸ hc))

theorem keysOfLine_split {input front : Text} {last : Char} (hinput : input = front ++ [last])
    (hlast : last = '\r' ∨ last = '\n') :
    exists c rest, input = keysOfLine input ++ c :: rest ∧ (c = '\r' ∨ c = '\n') := by
  unfold keysOfLine
  cases hrest : input.dropWhile (fun c => c != '\r' && c != '\n') with
  | nil =>
      have hall := List.dropWhile_eq_nil_iff.mp hrest last (by simp [hinput])
      rcases hlast with rfl | rfl
      · exact absurd hall (by decide)
      · exact absurd hall (by decide)
  | cons c rest =>
      refine ⟨c, rest, ?_, ?_⟩
      · rw [<- hrest, List.takeWhile_append_dropWhile]
      · have hc := List.head?_dropWhile_not (fun c => c != '\r' && c != '\n') input
        rw [hrest] at hc
        simpa [imp_iff_not_or] using hc

theorem mem_keysOfLine {input : Text} {c : Char} (hc : c ∈ keysOfLine input) :
    c ∈ input ∧ c ≠ '\r' ∧ c ≠ '\n' := by
  unfold keysOfLine at hc
  have hplain := List.mem_takeWhile_imp hc
  refine ⟨(List.takeWhile_sublist _).mem hc, ?_⟩
  simpa using hplain

theorem readlineIntoBuffer_edits (prompt : Option Text) (buffer : LineBuffer) {input : Text}
    (hend : exists front last, input = front ++ [last] ∧ (last = '\r' ∨ last = '\n'))
    (hbreak : '\x03' ∉ input) :
    let keys := keysOfLine input
    let line := keys.foldl editKey []
    (exists out final, readlineIntoBuffer prompt buffer input =
        some (out, .entered line.length final, input.drop (keys.length + 1)) ∧
      final.string = line) ∧
    forall front, front <+: keys -> exists out e,
      readlineIntoBuffer prompt buffer front = some (out, .typing e, []) ∧
        e.Holds (promptLength prompt) (front.foldl editKey []) := by
  intro keys line
  rcases hend with ⟨front, last, hinput, hlast⟩
  rcases keysOfLine_split hinput hlast with ⟨c, rest, hsplit, hc⟩
  have hkeys : forall d, d ∈ keys -> d ≠ '\r' ∧ d ≠ '\n' ∧ d ≠ '\x03' := by
    intro d hd
    rcases mem_keysOfLine hd with ⟨hmem, hreturn, hfeed⟩
    exact ⟨hreturn, hfeed, fun heq => hbreak (heq ▸ hmem)⟩
  have hopen := openEditor_holds prompt buffer
  constructor
  · rcases readlineLoop_keys hopen hkeys (c :: rest) with ⟨out, next, hnext, hloop⟩
    rcases readlineKey_enter hnext hc with ⟨echoed, final, hkey, hfinal⟩
    refine ⟨puts (prompt.getD []) ++ (out ++ echoed), final, ?_,
      string_of_take (foldl_editKey_noNul keys List.not_mem_nil) hfinal⟩
    have hrest : input.drop (keys.length + 1) = rest := by
      rw [hsplit, <- List.drop_drop]
      show ((keys ++ c :: rest).drop keys.length).drop 1 = rest
      rw [List.drop_left]
      rfl
    rw [hrest]
    unfold readlineIntoBuffer
    rw [hsplit, show keysOfLine input = keys from rfl, hloop, readlineLoop, hkey]
    rfl
  · intro front hfront
    have hread : forall d, d ∈ front -> d ≠ '\r' ∧ d ≠ '\n' ∧ d ≠ '\x03' :=
      fun d hd => hkeys d (hfront.sublist.mem hd)
    rcases readlineLoop_keys hopen hread [] with ⟨out, next, hnext, hloop⟩
    refine ⟨puts (prompt.getD []) ++ (out ++ []), next, ?_, hnext⟩
    unfold readlineIntoBuffer
    rw [List.append_nil] at hloop
    rw [hloop]
    rfl

/--
The line editor: what `readline` returns and leaves in the buffer is the fold of the
keys, no access is outside of the buffer, and the column is the one behind the line.
-/
theorem readline_edits (prompt : Option Text) (consoleBuffer : LineBuffer) (input : Text)
    (hend : exists front last, input = front ++ [last] ∧ (last = '\r' ∨ last = '\n'))
    (hbreak : '\x03' ∉ input) :
    let keys := keysOfLine input
    let line := keys.foldl editKey []
    (exists out final, readline prompt consoleBuffer input =
        some (out, .entered line.length final, input.drop (keys.length + 1)) ∧
      final.string = line) ∧
    forall front, front <+: keys -> exists out e,
      readline prompt consoleBuffer front = some (out, .typing e, []) ∧
        e.buffer.val.take e.n.toNat = front.foldl editKey [] ∧
        e.col = tabbedColumn (promptLength prompt) (front.foldl editKey []) := by
  intro keys line
  rcases store_inside consoleBuffer '\x00' (show 0 < cbSize by decide) with
    ⟨buffer, hstore, _⟩
  have hread : forall text, readline prompt consoleBuffer text =
      readlineIntoBuffer prompt buffer text := by
    intro text
    unfold readline
    rw [show (0 : Int) = (0 : Nat) from rfl, hstore]
    rfl
  rcases readlineIntoBuffer_edits prompt buffer hend hbreak with ⟨hline, hfronts⟩
  constructor
  · rw [hread]
    exact hline
  · intro front hfront
    rcases hfronts front hfront with ⟨out, e, hfound, hholds⟩
    refine ⟨out, e, ?_, ?_, hholds.col⟩
    · rw [hread]
      exact hfound
    · rw [hholds.n, Int.toNat_natCast]
      exact hholds.cells

def sampleLineBuffer : LineBuffer := ⟨List.replicate cbSize 'x', List.length_replicate⟩

/-- A blank, a tab, a word that is deleted, and a character that is deleted. -/
theorem readline_edits_sample :
    exists out final, readline (some prompt) sampleLineBuffer
        ['a', ' ', '\t', 'b', '\x17', 'c', 'd', '\x08', '\r'] =
      some (out, .entered 2 final, []) ∧ final.string = ['a', 'c'] := by
  have hlaw := readline_edits (some prompt) sampleLineBuffer
    ['a', ' ', '\t', 'b', '\x17', 'c', 'd', '\x08', '\r']
    ⟨['a', ' ', '\t', 'b', '\x17', 'c', 'd', '\x08'], '\r', rfl, Or.inl rfl⟩ (by decide)
  exact hlaw.left

/-!
# The line of the monitor
-/

theorem deleteChar_snoc (front : Text) (c : Char) :
    (deleteChar (front ++ [c]) (tabbedColumn prompt.length (front ++ [c]))).2 =
      (front, tabbedColumn prompt.length front) := by
  unfold deleteChar
  rw [List.getLast?_concat, List.dropLast_concat]
  dsimp only
  rw [tabbedColumn_snoc, retype_column]
  split
  · rfl
  · rfl

theorem deleteWord_line {fuel : Nat} (line : Text) (hfuel : line.length < fuel) :
    (deleteWord fuel line (tabbedColumn prompt.length line)).2 =
      (eraseWord line, tabbedColumn prompt.length (eraseWord line)) := by
  induction line using List.reverseRecOn generalizing fuel with
  | nil =>
      cases fuel with
      | zero =>
          exact absurd hfuel (Nat.not_lt_zero _)
      | succ fuel =>
          rfl
  | append_singleton front c ih =>
      cases fuel with
      | zero =>
          exact absurd hfuel (Nat.not_lt_zero _)
      | succ fuel =>
          have hlength : (front ++ [c]).length = front.length + 1 := List.length_append
          have hfirst := deleteChar_snoc front c
          have hless : front.length < fuel := by omega
          have hrest := ih hless
          unfold deleteWord
          generalize deleteChar (front ++ [c]) _ = first at hfirst
          rcases first with ⟨out, shorter, left⟩
          cases hfirst
          dsimp only
          rw [List.getLast?_concat, eraseWord_snoc]
          by_cases hblank : c = ' '
          · rw [if_pos (Or.inr (congrArg some hblank)), if_pos hblank]
          · rw [if_neg hblank]
            by_cases hempty : front.length = 0
            · rw [if_pos (Or.inl hempty), List.eq_nil_of_length_eq_zero hempty]
              rfl
            · rw [if_neg (not_or.mpr ⟨hempty, fun h => hblank (Option.some.inj h)⟩)]
              exact hrest

theorem readlineChar_edits (line : Text) {c : Char} (hreturn : c ≠ '\r') (hfeed : c ≠ '\n')
    (hbreak : c ≠ '\x03') :
    (readlineChar line (tabbedColumn prompt.length line) c).2 =
      .typing (editKey line c) (tabbedColumn prompt.length (editKey line c)) := by
  unfold readlineChar editKey
  rw [if_neg (not_or.mpr ⟨hreturn, hfeed⟩)]
  by_cases hnul : c = '\x00'
  · rw [if_pos hnul, if_pos hnul]
  rw [if_neg hnul, if_neg hnul, if_neg hbreak]
  by_cases hline : c = '\x15'
  · rw [if_pos hline, if_pos hline, Nat.min_eq_right (le_tabbedColumn _ _)]
    rfl
  rw [if_neg hline, if_neg hline]
  by_cases hword : c = '\x17'
  · rw [if_pos hword, if_pos hword]
    have hdelete := deleteWord_line line (Nat.lt_succ_self line.length)
    exact congrArg (fun p => LineEvent.typing p.1 p.2) hdelete
  rw [if_neg hword, if_neg hword]
  by_cases hback : c = '\x08' ∨ c = '\x7f'
  · rw [if_pos hback, if_pos hback]
    cases line using List.reverseRecOn with
    | nil =>
        rfl
    | append_singleton front last =>
        have hdelete := deleteChar_snoc front last
        rw [List.dropLast_concat]
        exact congrArg (fun p => LineEvent.typing p.1 p.2) hdelete
  rw [if_neg hback, if_neg hback]
  by_cases hroom : line.length < cbSize - 2
  · rw [if_pos hroom, if_pos hroom, tabbedColumn_snoc]
    split
    · rfl
    · rfl
  · rw [if_neg hroom, if_neg hroom]

end Console
end Bab750

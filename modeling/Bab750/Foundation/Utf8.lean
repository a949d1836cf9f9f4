import Bab750.Foundation.Bytes
import Bab750.Foundation.Transducer
import Mathlib.Data.BitVec
import Mathlib.Data.List.Chain
import Mathlib.Data.List.DropRight

/-!
# UTF-8 with replacement

Bytes are decoded one after the other. What cannot be continued or is cut short becomes one
replacement character. When a text is decoded in chunks, characters that are cut are lost, and
the text is longer by as many replacement characters.
-/

namespace Bab750
namespace Foundation

def replacement : Char := Char.ofNat 0xfffd

/-- The bytes of a character that are still to come. -/
inductive Utf8Tail where
  | one
  | two
  | three
  | afterE0
  | afterED
  | afterF0
  | afterF4
deriving DecidableEq

def Utf8Tail.accepts (tail : Utf8Tail) (b : Nat) : Bool :=
  match tail with
  | .afterE0 => 0xa0 <= b && b <= 0xbf
  | .afterED => 0x80 <= b && b <= 0x9f
  | .afterF0 => 0x90 <= b && b <= 0xbf
  | .afterF4 => 0x80 <= b && b <= 0x8f
  | _ => 0x80 <= b && b <= 0xbf

def Utf8Tail.next : Utf8Tail -> Option Utf8Tail
  | .one => none
  | .two => some .one
  | .three => some .two
  | .afterE0 => some .one
  | .afterED => some .one
  | .afterF0 => some .two
  | .afterF4 => some .two

/-- In front of a character, or within one with the bits that it has so far. -/
inductive Utf8State where
  | start
  | within (tail : Utf8Tail) (code : Nat)
deriving DecidableEq

def utf8Lead (b : Nat) : List Char × Utf8State :=
  if b < 0x80 then ([Char.ofNat b], .start)
  else if b < 0xc2 then ([replacement], .start)
  else if b < 0xe0 then ([], .within .one (b - 0xc0))
  else if b = 0xe0 then ([], .within .afterE0 0)
  else if b = 0xed then ([], .within .afterED 0xd)
  else if b < 0xf0 then ([], .within .two (b - 0xe0))
  else if b = 0xf0 then ([], .within .afterF0 0)
  else if b < 0xf4 then ([], .within .three (b - 0xf0))
  else if b = 0xf4 then ([], .within .afterF4 4)
  else ([replacement], .start)

def utf8Step (s : Utf8State) (b : Byte) : List Char × Utf8State :=
  match s with
  | .start => utf8Lead b.toNat
  | .within tail code =>
      if tail.accepts b.toNat then
        match tail.next with
        | none => ([Char.ofNat (code * 64 + b.toNat % 64)], .start)
        | some next => ([], .within next (code * 64 + b.toNat % 64))
      else (replacement :: (utf8Lead b.toNat).1, (utf8Lead b.toNat).2)

/-- What the end of the input makes of a character that has begun. -/
def Utf8State.flush : Utf8State -> List Char
  | .start => []
  | .within _ _ => [replacement]

/-- `bytes.decode("utf-8", errors="replace")` -/
def utf8Decode (bytes : List Byte) : List Char :=
  (feed utf8Step .start bytes).1 ++ (feed utf8Step .start bytes).2.flush

def utf8Behind (bytes : List Byte) : Utf8State := (feed utf8Step .start bytes).2

def Utf8State.Takes (s : Utf8State) (b : Byte) : Prop :=
  match s with
  | .start => False
  | .within tail _ => tail.accepts b.toNat = true

instance (s : Utf8State) (b : Byte) : Decidable (s.Takes b) :=
  match s with
  | .start => inferInstanceAs (Decidable False)
  | .within _ _ => inferInstanceAs (Decidable (_ = true))

def byteChar (b : Byte) : Char := if b.toNat < 0x80 then Char.ofNat b.toNat else replacement

/-!
# One byte
-/

variable {s : Utf8State} {b : Byte}

theorem step_refused (h : ¬ s.Takes b) :
    utf8Step s b = (s.flush ++ (utf8Step .start b).1, (utf8Step .start b).2) := by
  cases s with
  | start => rfl
  | within tail code => exact if_neg h

theorem accepts_bounds {tail : Utf8Tail} {n : Nat} (h : tail.accepts n = true) :
    0x80 <= n ∧ n < 0xc0 := by
  cases tail <;> simp [Utf8Tail.accepts] at h <;> omega

theorem lead_of_takes (h : s.Takes b) : utf8Step .start b = ([replacement], .start) := by
  cases s with
  | start => exact h.elim
  | within tail code =>
      have hbounds := accepts_bounds h
      show utf8Lead b.toNat = _
      unfold utf8Lead
      rw [if_neg (by omega), if_pos (by omega)]

theorem byteChar_of_takes (h : s.Takes b) : byteChar b = replacement := by
  cases s with
  | start => exact h.elim
  | within tail code =>
      have hbounds := accepts_bounds h
      exact if_neg (by omega)

theorem step_taken (h : s.Takes b) :
    (exists c, utf8Step s b = ([c], .start)) ∨
      exists tail code, utf8Step s b = ([], .within tail code) := by
  cases s with
  | start => exact h.elim
  | within tail code =>
      have haccepts : tail.accepts b.toNat = true := h
      unfold utf8Step
      dsimp only
      rw [if_pos haccepts]
      cases tail.next with
      | none => exact Or.inl ⟨_, rfl⟩
      | some next => exact Or.inr ⟨_, _, rfl⟩

theorem lead_cases (b : Byte) :
    utf8Step .start b = ([byteChar b], .start) ∨
      exists tail code,
        utf8Step .start b = ([], .within tail code) ∧ byteChar b = replacement := by
  show utf8Lead b.toNat = _ ∨ exists tail code, utf8Lead b.toNat = _ ∧ _
  unfold utf8Lead byteChar
  by_cases hascii : b.toNat < 0x80
  · rw [if_pos hascii, if_pos hascii]
    exact Or.inl rfl
  · rw [if_neg hascii, if_neg hascii]
    repeat' split
    all_goals first
      | exact Or.inl rfl
      | exact Or.inr ⟨_, _, rfl, rfl⟩

/-!
# Texts that have lost characters
-/

/-- In place of some characters there are replacement characters, one or more. -/
inductive Worn : List Char -> List Char -> Prop
  | nil : Worn [] []
  | keep {whole worn : List Char} (c : Char) (h : Worn whole worn) :
      Worn (whole ++ [c]) (worn ++ [c])
  | lost {whole worn : List Char} (c : Char) (n : Nat) (h : Worn whole worn) :
      Worn (whole ++ [c]) (worn ++ List.replicate (n + 1) replacement)

theorem replicate_suffix_snoc {n : Nat} {l : List Char} {c d : Char}
    (h : List.replicate (n + 1) c <:+ l ++ [d]) : d = c ∧ List.replicate n c <:+ l := by
  rw [List.replicate_succ', List.suffix_concat_iff] at h
  rcases h with hnil | ⟨front, heq, hfront⟩
  · exact absurd hnil (by simp)
  · rcases List.append_inj' heq rfl with ⟨hfront', hlast⟩
    rw [hfront']
    exact ⟨(List.cons.inj hlast).1.symm, hfront⟩

theorem replicate_suffix_append {m n : Nat} {l : List Char} {c : Char}
    (h : List.replicate m c <:+ l) : List.replicate (m + n) c <:+ l ++ List.replicate n c := by
  rw [List.replicate_add]
  exact List.suffix_append_self_iff.mpr h

theorem replicate_suffix_mono {m n : Nat} {l : List Char} {c : Char} (hmn : m <= n)
    (h : List.replicate n c <:+ l) : List.replicate m c <:+ l := by
  refine List.IsSuffix.trans ⟨List.replicate (n - m) c, ?_⟩ h
  rw [← List.replicate_add, Nat.sub_add_cancel hmn]

theorem Worn.trailing {whole worn : List Char} (h : Worn whole worn) {n : Nat}
    (hwhole : List.replicate n replacement <:+ whole) :
    List.replicate n replacement <:+ worn := by
  induction h generalizing n with
  | nil =>
      exact hwhole
  | keep c _ ih =>
      cases n with
      | zero =>
          exact List.nil_suffix
      | succ n =>
          rcases replicate_suffix_snoc hwhole with ⟨rfl, hfront⟩
          exact replicate_suffix_append (n := 1) (ih hfront)
  | lost c k _ ih =>
      cases n with
      | zero =>
          exact List.nil_suffix
      | succ n =>
          have hfront := (replicate_suffix_snoc hwhole).2
          exact replicate_suffix_mono (by omega)
            (replicate_suffix_append (n := k + 1) (ih hfront))

/-!
# Decoding in chunks
-/

/--
What has come out of the chunks so far, beside the output of the decoder for the whole: for the
character that has begun there are replacement characters already.
-/
structure Trails (s : Utf8State) (whole chunked : List Char) : Prop where
  split : exists worn n, chunked = worn ++ List.replicate n replacement ∧ Worn whole worn ∧
    (n = 0 <-> s = .start)

theorem trails_start : Trails .start [] [] := ⟨[], 0, rfl, .nil, iff_of_true rfl rfl⟩

theorem Trails.flush {whole chunked : List Char} (h : Trails s whole chunked) :
    Worn (whole ++ s.flush) chunked := by
  rcases h.split with ⟨worn, n, rfl, hworn, hn⟩
  cases s with
  | start =>
      rw [hn.mpr rfl, List.replicate_zero, List.append_nil]
      exact (List.append_nil whole).symm ▸ hworn
  | within tail code =>
      cases n with
      | zero => exact absurd (hn.mp rfl) nofun
      | succ n => exact .lost replacement n hworn

theorem Trails.byte {whole chunked : List Char} (h : Trails s whole chunked)
    (htakes : s.Takes b) :
    Trails (utf8Step s b).2 (whole ++ (utf8Step s b).1) (chunked ++ [replacement]) := by
  rcases h.split with ⟨worn, n, rfl, hworn, hn⟩
  have hmore : worn ++ List.replicate n replacement ++ [replacement] =
      worn ++ List.replicate (n + 1) replacement := by
    rw [List.append_assoc, List.replicate_succ']
  rw [hmore]
  rcases step_taken htakes with ⟨c, hstep⟩ | ⟨tail, code, hstep⟩
  · rw [hstep]
    exact ⟨_, 0, (List.append_nil _).symm, .lost c n hworn, iff_of_true rfl rfl⟩
  · rw [hstep]
    refine ⟨worn, n + 1, rfl, ?_, iff_of_false (by omega) nofun⟩
    exact (List.append_nil whole).symm ▸ hworn

/-- The decoder for the whole and the one for a chunk within it. -/
inductive Beside : Utf8State -> Utf8State -> List Char -> List Char -> Prop
  | same {s : Utf8State} {whole chunked : List Char} (h : Worn whole chunked) :
      Beside s s whole chunked
  | cut {s : Utf8State} {whole chunked : List Char} (h : Trails s whole chunked) :
      Beside s .start whole chunked

theorem Worn.append {whole worn : List Char} (h : Worn whole worn) (l : List Char) :
    Worn (whole ++ l) (worn ++ l) := by
  induction l generalizing whole worn with
  | nil =>
      rw [List.append_nil, List.append_nil]
      exact h
  | cons c l ih =>
      have hnext := ih (h.keep c)
      rw [List.append_assoc, List.append_assoc] at hnext
      exact hnext

theorem Beside.step {t : Utf8State} {whole chunked : List Char} (h : Beside s t whole chunked)
    (b : Byte) : Beside (utf8Step s b).2 (utf8Step t b).2 (whole ++ (utf8Step s b).1)
      (chunked ++ (utf8Step t b).1) := by
  cases h with
  | same h =>
      exact .same (h.append _)
  | cut h =>
      by_cases htakes : s.Takes b
      · rw [lead_of_takes htakes]
        exact .cut (h.byte htakes)
      · rw [step_refused htakes]
        dsimp only
        rw [← List.append_assoc]
        exact .same (h.flush.append _)

theorem Beside.feed {t : Utf8State} {whole chunked : List Char} (h : Beside s t whole chunked)
    (bytes : List Byte) : Beside (feed utf8Step s bytes).2 (feed utf8Step t bytes).2
      (whole ++ (feed utf8Step s bytes).1) (chunked ++ (feed utf8Step t bytes).1) := by
  induction bytes generalizing s t whole chunked with
  | nil =>
      simp only [Foundation.feed, List.append_nil]
      exact h
  | cons b bytes ih =>
      have hnext := ih (h.step b)
      rw [List.append_assoc, List.append_assoc] at hnext
      exact hnext

theorem Beside.flush {t : Utf8State} {whole chunked : List Char} (h : Beside s t whole chunked) :
    Trails s whole (chunked ++ t.flush) := by
  cases h with
  | same h =>
      cases s with
      | start => exact ⟨chunked, 0, rfl, h, iff_of_true rfl rfl⟩
      | within tail code => exact ⟨chunked, 1, rfl, h, iff_of_false Nat.one_ne_zero nofun⟩
  | cut h =>
      have hsame : chunked ++ Utf8State.start.flush = chunked := List.append_nil _
      rw [hsame]
      exact h

theorem Trails.chunk {whole chunked : List Char} (h : Trails s whole chunked)
    (bytes : List Byte) : Trails (feed utf8Step s bytes).2
      (whole ++ (feed utf8Step s bytes).1) (chunked ++ utf8Decode bytes) := by
  have hbeside := ((Beside.cut h).feed bytes).flush
  rw [List.append_assoc] at hbeside
  exact hbeside

theorem Trails.chunks {whole chunked : List Char} (h : Trails s whole chunked)
    (chunks : List (List Byte)) : Trails (feed utf8Step s chunks.flatten).2
      (whole ++ (feed utf8Step s chunks.flatten).1) (chunked ++ chunks.flatMap utf8Decode) := by
  induction chunks generalizing s whole chunked with
  | nil =>
      simp only [List.flatten_nil, List.flatMap_nil, Foundation.feed, List.append_nil]
      exact h
  | cons chunk chunks ih =>
      have hnext := ih (h.chunk chunk)
      rw [List.append_assoc, List.append_assoc] at hnext
      rw [List.flatten_cons, List.flatMap_cons, feed_append]
      exact hnext

theorem decode_chunks_worn (chunks : List (List Byte)) :
    Worn (utf8Decode chunks.flatten) (chunks.flatMap utf8Decode) :=
  (trails_start.chunks chunks).flush

/-!
# Cuts that lose nothing
-/

def Utf8State.Refuses (s : Utf8State) (bytes : List Byte) : Prop :=
  forall b, b ∈ bytes.head? -> ¬ s.Takes b

def LoneBytes (bytes : List Byte) : Prop :=
  bytes.IsChain (fun b c => ¬ (utf8Step .start b).2.Takes c)

theorem feed_refused {bytes : List Byte} (h : s.Refuses bytes) :
    (feed utf8Step s bytes).1 ++ (feed utf8Step s bytes).2.flush =
      s.flush ++ utf8Decode bytes := by
  cases bytes with
  | nil => exact (List.append_nil s.flush).symm
  | cons b bytes =>
      unfold utf8Decode
      rw [feed, feed, step_refused (h b rfl)]
      simp only [List.append_assoc]

theorem decode_append {front back : List Byte} (h : (utf8Behind front).Refuses back) :
    utf8Decode (front ++ back) = utf8Decode front ++ utf8Decode back := by
  have hback := feed_refused h
  unfold utf8Behind at hback
  unfold utf8Decode
  rw [feed_append, List.append_assoc, List.append_assoc]
  exact congrArg _ hback

theorem decode_byte (b : Byte) : utf8Decode [b] = [byteChar b] := by
  unfold utf8Decode
  rw [feed, feed]
  rcases lead_cases b with hlead | ⟨tail, code, hlead, hchar⟩
  · rw [hlead]
    rfl
  · rw [hlead, hchar]
    rfl

theorem utf8Behind_byte (b : Byte) : utf8Behind [b] = (utf8Step .start b).2 := rfl

theorem decode_lone {bytes : List Byte} (h : LoneBytes bytes) :
    utf8Decode bytes = bytes.map byteChar := by
  induction bytes with
  | nil => rfl
  | cons b bytes ih =>
      rcases List.isChain_cons.mp h with ⟨hnext, hrest⟩
      have hcut : utf8Decode ([b] ++ bytes) = utf8Decode [b] ++ utf8Decode bytes :=
        decode_append (by rw [utf8Behind_byte]; exact hnext)
      rw [List.singleton_append, decode_byte, ih hrest] at hcut
      exact hcut

/-- Behind some bytes from the start there is the state of the whole, or none has begun. -/
theorem feed_start_cases (bytes : List Byte) :
    utf8Behind bytes = (feed utf8Step s bytes).2 ∨ utf8Behind bytes = .start := by
  induction bytes using List.reverseRecOn generalizing s with
  | nil => exact Or.inr rfl
  | append_singleton bytes b ih =>
      unfold utf8Behind at ih ⊢
      rw [feed_append, feed_append]
      dsimp only [feed]
      rcases ih (s := s) with hsame | hstart
      · rw [hsame]
        exact Or.inl rfl
      · rw [hstart]
        by_cases htakes : (feed utf8Step s bytes).2.Takes b
        · rw [lead_of_takes htakes]
          exact Or.inr rfl
        · rw [step_refused htakes]
          exact Or.inl rfl

theorem refuses_behind {front back bytes : List Byte}
    (h : (utf8Behind (front ++ back)).Refuses bytes) : (utf8Behind back).Refuses bytes := by
  unfold utf8Behind at h
  rw [feed_append] at h
  intro b hb htakes
  rcases feed_start_cases (s := (feed utf8Step .start front).2) back with hsame | hstart
  · rw [hsame] at htakes
    exact h b hb htakes
  · rw [hstart] at htakes
    exact htakes

theorem chunks_lone {chunks : List (List Byte)} (h : LoneBytes chunks.flatten) :
    chunks.flatMap utf8Decode = chunks.flatten.map byteChar := by
  induction chunks with
  | nil => rfl
  | cons chunk chunks ih =>
      rw [List.flatten_cons] at h
      have hsplit := List.isChain_append.mp h
      rw [List.flatMap_cons, List.flatten_cons, List.map_append, decode_lone hsplit.1,
        ih hsplit.2.1]

/-- Lone bytes behind a cut that loses nothing are decoded one by one in all chunks. -/
theorem chunks_behind {chunks : List (List Byte)} {front back : List Byte}
    (hchunks : chunks.flatten = front ++ back) (hcut : (utf8Behind front).Refuses back)
    (hlone : LoneBytes back) : exists others : List (List Byte), others.flatten = front ∧
      chunks.flatMap utf8Decode = others.flatMap utf8Decode ++ back.map byteChar := by
  induction chunks generalizing front with
  | nil =>
      rcases List.append_eq_nil_iff.mp hchunks.symm with ⟨rfl, rfl⟩
      exact ⟨[], rfl, rfl⟩
  | cons chunk chunks ih =>
      rw [List.flatten_cons] at hchunks
      rcases List.append_eq_append_iff.mp hchunks with ⟨more, rfl, hrest⟩ | ⟨more, rfl, hback⟩
      · -- the chunk ends in front of the cut
        rcases ih hrest (refuses_behind hcut) with ⟨others, hothers, htext⟩
        refine ⟨chunk :: others, ?_, ?_⟩
        · rw [List.flatten_cons, hothers]
        · rw [List.flatMap_cons, List.flatMap_cons, htext, List.append_assoc]
      · -- the chunk reaches over the cut
        subst hback
        have hparts := List.isChain_append.mp hlone
        have hcut' : (utf8Behind front).Refuses more := by
          intro b hb
          cases more with
          | nil => cases hb
          | cons c more => exact hcut b hb
        refine ⟨[front], by rw [List.flatten_singleton], ?_⟩
        rw [List.flatMap_cons, decode_append hcut', decode_lone hparts.1,
          chunks_lone hparts.2.1, List.flatMap_singleton, List.map_append, List.append_assoc]

/-!
# Chunks that cut no character
-/

/-- How many bytes a character that has begun can still take. -/
def Utf8State.owed : Utf8State -> Nat
  | .start => 0
  | .within .one _ => 1
  | .within .two _ => 2
  | .within .afterE0 _ => 2
  | .within .afterED _ => 2
  | .within .three _ => 3
  | .within .afterF0 _ => 3
  | .within .afterF4 _ => 3

theorem owed_of_takes (h : s.Takes b) : (utf8Step s b).2.owed < s.owed := by
  cases s with
  | start => exact h.elim
  | within tail code =>
      have haccepts : tail.accepts b.toNat = true := h
      unfold utf8Step
      dsimp only
      rw [if_pos haccepts]
      cases tail <;> exact Nat.lt_succ_self _

theorem owed_le (s : Utf8State) : s.owed <= 3 := by
  cases s with
  | start => exact Nat.zero_le _
  | within tail code => cases tail <;> simp [Utf8State.owed]

/-- The whole characters so far, and the bytes of the one that has begun. -/
structure Units (bytes : List Byte) (units : List (List Byte)) (held : List Byte) : Prop where
  whole : units.flatten ++ held = bytes
  each : forall unit, unit ∈ units -> unit ≠ [] ∧ unit.length <= 4
  text : units.flatMap utf8Decode = (feed utf8Step .start bytes).1
  begun : feed utf8Step .start held = ([], utf8Behind bytes)
  room : held.length + (utf8Behind bytes).owed <= 4
  none : held = [] <-> utf8Behind bytes = .start

theorem decode_held {bytes held : List Byte} {units : List (List Byte)}
    (h : Units bytes units held) : utf8Decode held = (utf8Behind bytes).flush := by
  unfold utf8Decode
  rw [h.begun]
  rfl

theorem Units.close {bytes held : List Byte} {units : List (List Byte)}
    (h : Units bytes units held) : exists closed : List (List Byte), closed.flatten = bytes ∧
      (forall unit, unit ∈ closed -> unit ≠ [] ∧ unit.length <= 4) ∧
        closed.flatMap utf8Decode = utf8Decode bytes := by
  by_cases hheld : held = []
  · have hbytes := h.whole
    have htext : utf8Decode bytes = (feed utf8Step .start bytes).1 ++ (utf8Behind bytes).flush :=
      rfl
    rw [h.none.mp hheld] at htext
    rw [hheld, List.append_nil] at hbytes
    refine ⟨units, hbytes, h.each, ?_⟩
    rw [h.text, htext]
    exact (List.append_nil _).symm
  · refine ⟨units ++ [held], ?_, ?_, ?_⟩
    · rw [List.flatten_append, List.flatten_singleton, h.whole]
    · intro unit hunit
      rcases List.mem_append.mp hunit with hbefore | hlast
      · exact h.each unit hbefore
      · have hroom := h.room
        rw [List.mem_singleton.mp hlast]
        exact ⟨hheld, by omega⟩
    · rw [List.flatMap_append, List.flatMap_singleton, h.text, decode_held h]
      rfl

theorem feed_snoc (bytes : List Byte) (b : Byte) :
    feed utf8Step .start (bytes ++ [b]) =
      ((feed utf8Step .start bytes).1 ++ (utf8Step (utf8Behind bytes) b).1,
        (utf8Step (utf8Behind bytes) b).2) := by
  rw [feed_append]
  simp only [feed, List.append_nil]
  rfl

theorem utf8Behind_snoc (bytes : List Byte) (b : Byte) :
    utf8Behind (bytes ++ [b]) = (utf8Step (utf8Behind bytes) b).2 := by
  rw [utf8Behind, feed_snoc]

theorem exists_units (bytes : List Byte) : exists units held, Units bytes units held := by
  induction bytes using List.reverseRecOn with
  | nil =>
      exact ⟨[], [], rfl, nofun, rfl, rfl, by decide, iff_of_true rfl rfl⟩
  | append_singleton bytes b ih =>
      rcases ih with ⟨units, held, h⟩
      by_cases htakes : (utf8Behind bytes).Takes b
      · have howed := owed_of_takes htakes
        have hroom := h.room
        have hlonger : units.flatten ++ (held ++ [b]) = bytes ++ [b] := by
          rw [← List.append_assoc, h.whole]
        have hfeed : feed utf8Step .start (held ++ [b]) = utf8Step (utf8Behind bytes) b := by
          have hheld : utf8Behind held = utf8Behind bytes := by
            rw [utf8Behind, h.begun]
          rw [feed_snoc, h.begun, hheld]
          rfl
        rcases step_taken htakes with ⟨c, hstep⟩ | ⟨tail, code, hstep⟩
        · -- the byte ends the character
          refine ⟨units ++ [held ++ [b]], [], ?_, ?_, ?_, ?_, ?_, ?_⟩
          · rw [List.append_nil, List.flatten_append, List.flatten_singleton, hlonger]
          · intro unit hunit
            rcases List.mem_append.mp hunit with hbefore | hlast
            · exact h.each unit hbefore
            · rw [List.mem_singleton.mp hlast, List.length_append, List.length_singleton]
              exact ⟨by simp, by omega⟩
          · rw [List.flatMap_append, List.flatMap_singleton, h.text, feed_snoc, utf8Decode, hfeed,
              hstep]
            rfl
          · rw [utf8Behind_snoc, hstep]
            rfl
          · rw [utf8Behind_snoc, hstep]
            exact Nat.zero_le 4
          · rw [utf8Behind_snoc, hstep]
            exact iff_of_true rfl rfl
        · -- more of it is to come
          refine ⟨units, held ++ [b], hlonger, h.each, ?_, ?_, ?_, ?_⟩
          · rw [h.text, feed_snoc, hstep, List.append_nil]
          · rw [hfeed, utf8Behind_snoc, hstep]
          · rw [utf8Behind_snoc, List.length_append, List.length_singleton]
            omega
          · rw [utf8Behind_snoc, hstep]
            exact iff_of_false (by simp) nofun
      · -- the byte begins a character
        rcases h.close with ⟨closed, hbytes, heach, htext⟩
        have hfeed : (feed utf8Step .start (bytes ++ [b])).1 =
            utf8Decode bytes ++ (utf8Step .start b).1 := by
          rw [feed_snoc, step_refused htakes, utf8Decode, List.append_assoc]
          rfl
        have hbehind : utf8Behind (bytes ++ [b]) = (utf8Step .start b).2 := by
          rw [utf8Behind_snoc, step_refused htakes]
        rcases lead_cases b with hlead | ⟨tail, code, hlead, _⟩
        · refine ⟨closed ++ [[b]], [], ?_, ?_, ?_, ?_, ?_, ?_⟩
          · rw [List.append_nil, List.flatten_append, List.flatten_singleton, hbytes]
          · intro unit hunit
            rcases List.mem_append.mp hunit with hbefore | hlast
            · exact heach unit hbefore
            · rw [List.mem_singleton.mp hlast]
              exact ⟨by simp, by simp⟩
          · rw [List.flatMap_append, List.flatMap_singleton, htext, hfeed, hlead, decode_byte]
          · rw [hbehind, hlead]
            rfl
          · rw [hbehind, hlead]
            exact Nat.zero_le 4
          · rw [hbehind, hlead]
            exact iff_of_true rfl rfl
        · refine ⟨closed, [b], ?_, heach, ?_, ?_, ?_, ?_⟩
          · rw [hbytes]
          · rw [htext, hfeed, hlead, List.append_nil]
          · rw [hbehind]
            show feed utf8Step .start [b] = _
            rw [feed, feed, hlead]
            rfl
          · have hle := owed_le (utf8Behind (bytes ++ [b]))
            rw [List.length_singleton]
            omega
          · rw [hbehind, hlead]
            exact iff_of_false (by simp) nofun

/-- Every input can be cut into short chunks that are decoded like the whole. -/
theorem exists_whole_chunks (bytes : List Byte) : exists chunks : List (List Byte),
    chunks.flatten = bytes ∧ (forall chunk, chunk ∈ chunks -> chunk ≠ [] ∧ chunk.length <= 4) ∧
      chunks.flatMap utf8Decode = utf8Decode bytes := by
  rcases exists_units bytes with ⟨units, held, h⟩
  exact h.close

/-!
# The last characters of a text
-/

theorem rtake_append_right {l l' : List Char} {n : Nat} (h : n <= l'.length) :
    (l ++ l').rtake n = l'.rtake n := by
  unfold List.rtake
  rw [List.length_append, List.drop_append, List.drop_of_length_le (by omega), List.nil_append]
  congr 1
  omega

theorem rtake_append_left (l l' : List Char) (n : Nat) :
    (l ++ l').rtake (n + l'.length) = l.rtake n ++ l' := by
  unfold List.rtake
  rw [List.length_append, show l.length + l'.length - (n + l'.length) = l.length - n by omega,
    List.drop_append_of_le_length (by omega)]

theorem replicate_suffix_rtake {l : List Char} {c : Char} {k n : Nat} (hk : k <= n)
    (h : List.replicate k c <:+ l) : List.replicate k c <:+ l.rtake n := by
  have hlength := h.length_le
  rw [List.length_replicate] at hlength
  have hsuffix : l.rtake n <:+ l := List.drop_suffix _ _
  apply List.suffix_of_suffix_length_le h hsuffix
  unfold List.rtake
  rw [List.length_replicate, List.length_drop]
  omega

theorem singles_flatten (bytes : List Byte) : (bytes.map (fun b => [b])).flatten = bytes := by
  induction bytes with
  | nil => rfl
  | cons b bytes ih =>
      rw [List.map_cons, List.flatten_cons, ih, List.singleton_append]

theorem singles_text (bytes : List Byte) :
    (bytes.map (fun b => [b])).flatMap utf8Decode = bytes.map byteChar := by
  induction bytes with
  | nil => rfl
  | cons b bytes ih =>
      rw [List.map_cons, List.flatMap_cons, ih, decode_byte, List.singleton_append, List.map_cons]

/-- A cut in front of a byte that continues a character makes the text longer. -/
theorem trailing_longer {front : List Byte} (htakes : (utf8Behind front).Takes b) {n : Nat}
    (h : List.replicate n replacement <:+ utf8Decode (front ++ [b])) :
    List.replicate (n + 1) replacement <:+ (front ++ [b]).map byteChar := by
  have htrails := trails_start.chunks (front.map (fun c => [c]))
  rw [singles_flatten, singles_text, List.nil_append, List.nil_append] at htrails
  rcases htrails.split with ⟨worn, k, hworn, hold, hstart⟩
  have hpos : k ≠ 0 := by
    intro hzero
    have hbehind : utf8Behind front = .start := hstart.mp hzero
    rw [hbehind] at htakes
    exact htakes
  have hlonger : (front ++ [b]).map byteChar = worn ++ List.replicate (k + 1) replacement := by
    rw [List.map_append, List.map_singleton, hworn, byteChar_of_takes htakes, List.append_assoc,
      List.replicate_succ']
  rw [hlonger]
  cases n with
  | zero =>
      rw [Nat.zero_add]
      exact replicate_suffix_mono (by omega) (List.suffix_append _ _)
  | succ n =>
      have htext : exists c, utf8Decode (front ++ [b]) =
          (feed utf8Step .start front).1 ++ [c] := by
        unfold utf8Decode
        rw [feed_snoc]
        rcases step_taken htakes with ⟨c, hstep⟩ | ⟨tail, code, hstep⟩
        · rw [hstep]
          exact ⟨c, List.append_nil _⟩
        · rw [hstep, List.append_nil]
          exact ⟨replacement, rfl⟩
      rcases htext with ⟨c, htext⟩
      rw [htext] at h
      have hfront := hold.trailing (replicate_suffix_snoc h).2
      exact replicate_suffix_mono (by omega) (replicate_suffix_append hfront)

theorem last_cut (bytes : List Byte) : (s.Refuses bytes ∧ LoneBytes bytes) ∨
    exists front b back, bytes = front ++ b :: back ∧ (feed utf8Step s front).2.Takes b ∧
      (feed utf8Step s (front ++ [b])).2.Refuses back ∧ LoneBytes back := by
  induction bytes generalizing s with
  | nil =>
      exact Or.inl ⟨nofun, List.isChain_nil⟩
  | cons b bytes ih =>
      rcases ih (s := (utf8Step s b).2) with ⟨hrefuses, hlone⟩ | ⟨front, c, back, hbytes, h⟩
      · by_cases htakes : s.Takes b
        · exact Or.inr ⟨[], b, bytes, rfl, htakes, hrefuses, hlone⟩
        · left
          rw [step_refused htakes] at hrefuses
          refine ⟨?_, List.isChain_cons.mpr ⟨hrefuses, hlone⟩⟩
          intro c hc
          cases hc
          exact htakes
      · exact Or.inr ⟨b :: front, c, back, by rw [hbytes]; rfl, h⟩

/-!
# Texts that do not depend on the chunks
-/

structure ChunksOf (limit : Nat) (bytes : List Byte) (chunks : List (List Byte)) : Prop where
  flatten : chunks.flatten = bytes
  each : forall chunk, chunk ∈ chunks -> chunk ≠ [] ∧ chunk.length <= limit

/--
The last characters are settled: the input ends with bytes that are decoded one by one, and these
are all, or in front of them there are replacement characters as far as one looks.
-/
def SettledEnd (n : Nat) (bytes : List Byte) : Prop :=
  exists front back, bytes = front ++ back ∧ (utf8Behind front).Refuses back ∧ LoneBytes back ∧
    (front = [] ∨ List.replicate (n - back.length) replacement <:+ utf8Decode front)

theorem SettledEnd.same {n : Nat} {bytes : List Byte} (h : SettledEnd n bytes) : exists text,
    forall chunks : List (List Byte), chunks.flatten = bytes ->
      (chunks.flatMap utf8Decode).rtake n = text := by
  rcases h with ⟨front, back, rfl, hcut, hlone, hfront⟩
  rcases hfront with rfl | htrailing
  · refine ⟨(back.map byteChar).rtake n, fun chunks hchunks => ?_⟩
    rw [List.nil_append] at hchunks
    rw [chunks_lone (by rw [hchunks]; exact hlone), hchunks]
  · refine ⟨(List.replicate (n - back.length) replacement ++ back.map byteChar).rtake n,
      fun chunks hchunks => ?_⟩
    rcases chunks_behind hchunks hcut hlone with ⟨others, hothers, htext⟩
    have hworn := decode_chunks_worn others
    rw [hothers] at hworn
    rcases hworn.trailing htrailing with ⟨more, hmore⟩
    rw [htext, ← hmore, List.append_assoc]
    apply rtake_append_right
    rw [List.length_append, List.length_replicate, List.length_map]
    omega

theorem rtake_chunks_iff {limit : Nat} (hlimit : 4 <= limit) (n : Nat) (bytes : List Byte) :
    (forall chunks chunks', ChunksOf limit bytes chunks -> ChunksOf limit bytes chunks' ->
      (chunks.flatMap utf8Decode).rtake n = (chunks'.flatMap utf8Decode).rtake n) <->
        SettledEnd n bytes := by
  constructor
  · intro h
    rcases last_cut (s := .start) bytes with ⟨hrefuses, hlone⟩ | ⟨front, b, back, hbytes, hlast⟩
    · exact ⟨[], bytes, rfl, hrefuses, hlone, Or.inl rfl⟩
    · rcases hlast with ⟨htakes, hcut, hlone⟩
      have hparts : bytes = (front ++ [b]) ++ back := by
        rw [hbytes, List.append_assoc, List.singleton_append]
      refine ⟨front ++ [b], back, hparts, hcut, hlone, Or.inr ?_⟩
      rcases exists_whole_chunks bytes with ⟨chunks, hflatten, heach, htext⟩
      have hwhole : ChunksOf limit bytes chunks :=
        ⟨hflatten, fun chunk hchunk =>
          ⟨(heach chunk hchunk).1, le_trans (heach chunk hchunk).2 hlimit⟩⟩
      have hsingles : ChunksOf limit bytes (bytes.map (fun c => [c])) := by
        refine ⟨singles_flatten bytes, fun chunk hchunk => ?_⟩
        rcases List.mem_map.mp hchunk with ⟨c, _, rfl⟩
        exact ⟨by simp, by rw [List.length_singleton]; omega⟩
      have hsame := h chunks _ hwhole hsingles
      rw [htext, singles_text, hparts, decode_append hcut, decode_lone hlone,
        List.map_append] at hsame
      generalize hm : n - back.length = m
      cases m with
      | zero => exact List.nil_suffix
      | succ m =>
          have hn : n = (m + 1) + (back.map byteChar).length := by
            rw [List.length_map]
            omega
          rw [hn, rtake_append_left, rtake_append_left] at hsame
          have hfront := List.append_cancel_right hsame
          have hall : forall k, k <= m + 1 ->
              List.replicate k replacement <:+ utf8Decode (front ++ [b]) := by
            intro k hk
            induction k with
            | zero => exact List.nil_suffix
            | succ k ih =>
                have hlonger := replicate_suffix_rtake hk (trailing_longer htakes (ih (by omega)))
                rw [← hfront] at hlonger
                exact hlonger.trans (List.drop_suffix _ _)
          exact hall (m + 1) (Nat.le_refl _)
  · intro h chunks chunks' hchunks hchunks'
    rcases h.same with ⟨text, htext⟩
    rw [htext chunks hchunks.flatten, htext chunks' hchunks'.flatten]

end Foundation
end Bab750

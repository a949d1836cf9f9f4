import Bab750.Foundation.Pattern
import Bab750.Foundation.Utf8

/-!
# UTF-8 without replacement

A text is read only when it is what the bytes encode. Bytes of 7 bits stand for themselves, in
front of other text and behind it.
-/

namespace Bab750
namespace Foundation

/-- `text.encode("utf-8")` -/
def utf8Encode (text : Text) : List Byte :=
  text.flatMap (fun c => (String.utf8EncodeChar c).map UInt8.toBitVec)

/-- `bytes.decode("utf-8")`, with nothing for a `UnicodeDecodeError`. -/
def utf8DecodeStrict (bytes : List Byte) : Option Text :=
  let text := utf8Decode bytes
  if utf8Encode text = bytes then some text else none

def plainBytes (text : Text) : List Byte := text.map (fun c => BitVec.ofNat 8 c.toNat)

def SevenBit (text : Text) : Prop := forall c, c ∈ text -> c.toNat < 0x80

theorem utf8Encode_append (front back : Text) :
    utf8Encode (front ++ back) = utf8Encode front ++ utf8Encode back :=
  List.flatMap_append

theorem utf8Encode_eq_nil {text : Text} (h : utf8Encode text = []) : text = [] := by
  cases text with
  | nil =>
      rfl
  | cons c rest =>
      have hc : (String.utf8EncodeChar c).map UInt8.toBitVec = [] :=
        List.flatMap_eq_nil_iff.mp h c List.mem_cons_self
      have hlength := congrArg List.length hc
      rw [List.length_map, String.length_utf8EncodeChar] at hlength
      exact absurd hlength (Nat.pos_iff_ne_zero.mp c.utf8Size_pos)

theorem eq_of_infix_utf8Encode {part text : Text} (hpart : part <:+: text)
    (h : utf8Encode part = utf8Encode text) : part = text := by
  rcases hpart with ⟨front, back, rfl⟩
  rw [utf8Encode_append, utf8Encode_append] at h
  have hlength := congrArg List.length h
  rw [List.length_append, List.length_append] at hlength
  have hfront := utf8Encode_eq_nil (List.length_eq_zero_iff.mp
    (by omega : (utf8Encode front).length = 0))
  have hback := utf8Encode_eq_nil (List.length_eq_zero_iff.mp
    (by omega : (utf8Encode back).length = 0))
  rw [hfront, hback, List.nil_append, List.append_nil]

theorem infix_utf8Encode {part text : Text} (hpart : part <:+: text) :
    utf8Encode part <:+: utf8Encode text := by
  rcases hpart with ⟨front, back, rfl⟩
  rw [utf8Encode_append, utf8Encode_append]
  exact ⟨_, _, rfl⟩

/-!
# Characters of 7 bits
-/

theorem encode_char {c : Char} (hc : c.toNat < 0x80) :
    (String.utf8EncodeChar c).map UInt8.toBitVec = [BitVec.ofNat 8 c.toNat] := by
  have hsize : c.utf8Size = 1 := by
    unfold Char.utf8Size
    rw [if_pos]
    exact UInt32.le_iff_toNat_le.mpr (Nat.le_of_lt_succ hc)
  rw [String.utf8EncodeChar_eq_singleton hsize, List.map_singleton]
  congr 1

theorem utf8Encode_plain {text : Text} (h : SevenBit text) :
    utf8Encode text = plainBytes text := by
  induction text with
  | nil =>
      rfl
  | cons c rest ih =>
      have hrest := ih (fun d hd => h d (List.mem_cons_of_mem c hd))
      show (String.utf8EncodeChar c).map UInt8.toBitVec ++ utf8Encode rest = _
      rw [encode_char (h c List.mem_cons_self), hrest]
      rfl

theorem mem_utf8Encode {text : Text} {c : Char} (hmem : c ∈ text) (hc : c.toNat < 0x80) :
    BitVec.ofNat 8 c.toNat ∈ utf8Encode text := by
  refine List.mem_flatMap.mpr ⟨c, hmem, ?_⟩
  rw [encode_char hc]
  exact List.mem_singleton_self _

theorem step_plain {c : Char} (hc : c.toNat < 0x80) :
    utf8Step .start (BitVec.ofNat 8 c.toNat) = ([c], .start) := by
  have hbyte : (BitVec.ofNat 8 c.toNat).toNat = c.toNat := by
    rw [BitVec.toNat_ofNat]
    omega
  show utf8Lead (BitVec.ofNat 8 c.toNat).toNat = _
  rw [hbyte]
  unfold utf8Lead
  rw [if_pos hc, Char.ofNat_toNat]

theorem feed_plain {text : Text} (h : SevenBit text) :
    feed utf8Step .start (plainBytes text) = (text, .start) := by
  induction text with
  | nil =>
      rfl
  | cons c rest ih =>
      have hrest := ih (fun d hd => h d (List.mem_cons_of_mem c hd))
      show ((utf8Step .start (BitVec.ofNat 8 c.toNat)).1 ++ _, _) = _
      rw [step_plain (h c List.mem_cons_self)]
      show ([c] ++ (feed utf8Step .start (plainBytes rest)).1,
        (feed utf8Step .start (plainBytes rest)).2) = _
      rw [hrest]
      rfl

theorem utf8Decode_plain {text : Text} (h : SevenBit text) :
    utf8Decode (plainBytes text) = text := by
  unfold utf8Decode
  rw [feed_plain h]
  exact List.append_nil text

theorem utf8Decode_front {front : Text} (h : SevenBit front) (back : List Byte) :
    utf8Decode (plainBytes front ++ back) = front ++ utf8Decode back := by
  have hcut : (utf8Behind (plainBytes front)).Refuses back := by
    unfold utf8Behind
    rw [feed_plain h]
    exact fun _ _ => id
  rw [decode_append hcut, utf8Decode_plain h]

theorem not_takes_plain {s : Utf8State} {c : Char} (hc : c.toNat < 0x80) :
    ¬ s.Takes (BitVec.ofNat 8 c.toNat) := by
  have hbyte : (BitVec.ofNat 8 c.toNat).toNat = c.toNat := by
    rw [BitVec.toNat_ofNat]
    omega
  cases s with
  | start =>
      exact id
  | within tail code =>
      intro haccepts
      have hbounds := accepts_bounds haccepts
      rw [hbyte] at hbounds
      omega

theorem utf8Decode_back (front : List Byte) {back : Text} (h : SevenBit back) :
    utf8Decode (front ++ plainBytes back) = utf8Decode front ++ back := by
  have hcut : (utf8Behind front).Refuses (plainBytes back) := by
    intro b hb htakes
    cases back with
    | nil =>
        cases hb
    | cons c rest =>
        rw [← Option.some.inj hb] at htakes
        exact not_takes_plain (h c List.mem_cons_self) htakes
  rw [decode_append hcut, utf8Decode_plain h]

/-- Between texts of 7 bits, the bytes are read just as they are on their own. -/
theorem utf8DecodeStrict_between {front back : Text} (hfront : SevenBit front)
    (hback : SevenBit back) (bytes : List Byte) :
    utf8DecodeStrict (plainBytes front ++ bytes ++ plainBytes back) =
      (utf8DecodeStrict bytes).map (fun text => front ++ text ++ back) := by
  have htext : utf8Decode (plainBytes front ++ bytes ++ plainBytes back) =
      front ++ utf8Decode bytes ++ back := by
    rw [utf8Decode_back _ hback, utf8Decode_front hfront]
  have hencode : utf8Encode (front ++ utf8Decode bytes ++ back) =
      plainBytes front ++ utf8Encode (utf8Decode bytes) ++ plainBytes back := by
    rw [utf8Encode_append, utf8Encode_append, utf8Encode_plain hfront, utf8Encode_plain hback]
  unfold utf8DecodeStrict
  dsimp only
  rw [htext, hencode]
  by_cases hsame : utf8Encode (utf8Decode bytes) = bytes
  · rw [if_pos (by rw [hsame]), if_pos hsame]
    rfl
  · rw [if_neg (fun h => hsame (List.append_cancel_left (List.append_cancel_right h))),
      if_neg hsame]
    rfl

theorem utf8Encode_of_strict {bytes : List Byte} {text : Text}
    (h : utf8DecodeStrict bytes = some text) : utf8Encode text = bytes := by
  unfold utf8DecodeStrict at h
  dsimp only at h
  split at h
  case isTrue hsame =>
      rw [← Option.some.inj h]
      exact hsame
  case isFalse =>
      cases h

end Foundation
end Bab750

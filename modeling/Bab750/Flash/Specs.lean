import Bab750.Flash.Layout

/-!
# Specifications of sectors

What `abbrev_spec` of `common/cmd_flash.c` accepts.  Its numbers are read modulo 2^32, may be
written in base 16, and are compared as signed ones.
-/

namespace Bab750
namespace Flash

open Foundation
open Support

/-!
# Numbers
-/

structure Decimal (text : List Byte) : Prop where
  nonempty : text ≠ []
  digits : forall c, c ∈ text -> isDigit c = true

/-- `0x` and a digit in front make a number one in base 16, whatever base was asked for. -/
def writtenHex : List Byte -> Bool
  | 0x30#8 :: 0x78#8 :: c :: _ => isXDigit c
  | _ => false

theorem strtoulDigits_consumed {base : Nat} {result : BitVec 32} {text : List Byte}
    (h : (strtoulDigits base result text).2 = []) :
    forall c, c ∈ text -> isXDigit c = true ∧ digitValue c < base := by
  induction text generalizing result with
  | nil =>
      intro c hc
      exact absurd hc List.not_mem_nil
  | cons d text ih =>
      unfold strtoulDigits at h
      split at h
      case isTrue hd =>
          rw [Bool.and_eq_true, decide_eq_true_eq] at hd
          intro c hc
          rcases List.mem_cons.mp hc with rfl | hc
          · exact hd
          · exact ih h c hc
      case isFalse =>
          cases h

theorem isDigit_of_value {c : Byte} (hvalue : digitValue c < 10) : isDigit c = true := by
  cases hd : isDigit c with
  | true =>
      rfl
  | false =>
      unfold digitValue at hvalue
      rw [hd, if_neg (by decide)] at hvalue
      split at hvalue
      · omega
      · omega

theorem wholeNumber_rest {text : List Byte} {base : Nat} {value : BitVec 32}
    (h : wholeNumber text base = some value) :
    (simpleStrtoul text base).2 = [] ∧ text ≠ [] := by
  unfold wholeNumber at h
  dsimp only at h
  split at h
  · cases h
  case isFalse hall =>
      rw [not_or, not_not] at hall
      refine ⟨hall.right, ?_⟩
      intro hnil
      apply hall.left
      rw [hall.right, hnil]

theorem decimal_of_wholeNumber {text : List Byte} {value : BitVec 32}
    (h : wholeNumber text 10 = some value) (hhex : writtenHex text = false) : Decimal text := by
  rcases wholeNumber_rest h with ⟨hrest, hsome⟩
  refine ⟨hsome, ?_⟩
  unfold simpleStrtoul strtoulPrefix at hrest
  split at hrest
  case h_1 c text =>
      have hc : isXDigit c = false := hhex
      rw [hc] at hrest
      have hx := (strtoulDigits_consumed hrest 0x78#8 List.mem_cons_self).left
      exact absurd hx (by decide)
  case h_2 text _ =>
      intro c hc
      rcases List.mem_cons.mp hc with rfl | hc
      · decide
      · exact isDigit_of_value (strtoulDigits_consumed hrest c hc).right
  case h_3 text _ _ =>
      intro c hc
      exact isDigit_of_value (strtoulDigits_consumed hrest c hc).right

theorem writtenHex_of_decimal {text : List Byte} (h : Decimal text) :
    writtenHex text = false := by
  unfold writtenHex
  split
  · have hx := h.digits 0x78#8 (by simp)
    exact absurd hx (by decide)
  · rfl

/-!
# The parts of a specification
-/

def sectorParts (text : List Byte) : List Byte × Option (List Byte) :=
  match cutAt 0x2d#8 text with
  | some (front, rest) => (front, some rest)
  | none => (text, none)

/-- The texts of the bank, of the first sector, and of the last one. -/
def specParts (str : List Byte) : Option (List Byte × List Byte × Option (List Byte)) :=
  (cutAt 0x3a#8 str).map (fun (bankText, rest) => (bankText, sectorParts rest))

theorem cutAt_cons (c d : Byte) (text : List Byte) :
    cutAt c (d :: text) =
      if d = c then some ([], text)
      else (cutAt c text).map (fun (front, rest) => (d :: front, rest)) := by
  unfold cutAt
  dsimp only
  by_cases hd : d = c
  · subst hd
    rw [if_pos rfl, List.takeWhile_cons_of_neg (by simp)]
    rfl
  · rw [if_neg hd, List.takeWhile_cons_of_pos (by simp [hd]), List.length_cons,
      List.drop_succ_cons]
    cases text.drop (text.takeWhile (fun b => b != c)).length with
    | nil =>
        rfl
    | cons e rest =>
        rfl

theorem cutAt_some {c : Byte} {text front rest : List Byte}
    (h : cutAt c text = some (front, rest)) : text = front ++ c :: rest := by
  induction text generalizing front with
  | nil =>
      cases h
  | cons d text ih =>
      rw [cutAt_cons] at h
      split at h
      case isTrue hd =>
          cases h
          rw [hd, List.nil_append]
      case isFalse hd =>
          rcases Option.map_eq_some_iff.mp h with ⟨⟨more, rest'⟩, hcut, heq⟩
          cases heq
          rw [ih hcut, List.cons_append]

theorem cutAt_isSome {c : Byte} {text : List Byte} (h : c ∈ text) :
    (cutAt c text).isSome = true := by
  induction text with
  | nil =>
      exact absurd h List.not_mem_nil
  | cons d text ih =>
      rw [cutAt_cons]
      split
      · rfl
      case isFalse hd =>
          rcases List.mem_cons.mp h with heq | hmem
          · exact absurd heq.symm hd
          · rw [Option.isSome_map]
            exact ih hmem

theorem cutAt_append {c : Byte} {front : List Byte} (h : c ∉ front) (rest : List Byte) :
    cutAt c (front ++ c :: rest) = some (front, rest) := by
  induction front with
  | nil =>
      rw [List.nil_append, cutAt_cons, if_pos rfl]
  | cons d front ih =>
      rw [List.mem_cons, not_or] at h
      rw [List.cons_append, cutAt_cons, if_neg (fun hd => h.left hd.symm), ih h.right]
      rfl

theorem cutAt_none {c : Byte} {text : List Byte} (h : c ∉ text) : cutAt c text = none := by
  cases hcut : cutAt c text with
  | none =>
      rfl
  | some parts =>
      rcases parts with ⟨front, rest⟩
      apply absurd _ h
      rw [cutAt_some hcut]
      exact List.mem_append_right front List.mem_cons_self

/-- `B:SF` or `B:SF-SL` with decimal numbers. -/
def DecimalSpec (str : List Byte) : Prop :=
  exists bankText firstText, Decimal bankText ∧ Decimal firstText ∧
    (str = bankText ++ 0x3a#8 :: firstText ∨
      exists lastText, Decimal lastText ∧
        str = bankText ++ 0x3a#8 :: (firstText ++ 0x2d#8 :: lastText))

/-- The number of the last sector, which is the first one where there is none. -/
def lastNumber (first : BitVec 32) : Option (List Byte) -> Option (BitVec 32)
  | none => some first
  | some text => wholeNumber text 10

/-- The numbers of a specification pass the comparisons, which are signed ones. -/
structure NumbersPass (banks : List FlashInfo) (bankText firstText : List Byte)
    (lastText : Option (List Byte)) (bank first last : BitVec 32) (info : FlashInfo) : Prop where
  bankRead : wholeNumber bankText 10 = some bank
  firstRead : wholeNumber firstText 10 = some first
  lastRead : lastNumber first lastText = some last
  bankRange : 1 <= bank.toInt ∧ bank.toInt <= banks.length
  bankInfo : banks[bank.toNat - 1]? = some info
  known : info.isKnown = true
  order : first.toInt <= last.toInt
  inside : last.toInt < info.sectorCount

theorem abbrevSectors_iff {bank sectorCount : Nat} {text : List Byte} {b : Nat} {f l : Int} :
    abbrevSectors bank sectorCount text = .sectors b f l ↔
      exists first last, wholeNumber (sectorParts text).1 10 = some first ∧
        lastNumber first (sectorParts text).2 = some last ∧ first.toInt <= last.toInt ∧
        last.toInt < sectorCount ∧ b = bank ∧ f = first.toInt ∧ l = last.toInt := by
  unfold abbrevSectors sectorParts
  cases cutAt 0x2d#8 text with
  | none =>
      dsimp only
      cases wholeNumber text 10 with
      | none =>
          simp
      | some first =>
          dsimp only
          by_cases hlarge : (sectorCount : Int) <= first.toInt
          · simp only [if_pos hlarge, lastNumber]
            constructor
            · intro h
              cases h
            · rintro ⟨first', last, hfirst, hlast, _, hinside, _⟩
              cases hfirst
              cases hlast
              omega
          · simp only [if_neg hlarge, lastNumber]
            constructor
            · intro h
              cases h
              exact ⟨first, first, rfl, rfl, Int.le_refl _, by omega, rfl, rfl, rfl⟩
            · rintro ⟨first', last, hfirst, hlast, _, _, rfl, rfl, rfl⟩
              cases hfirst
              cases hlast
              rfl
  | some parts =>
      rcases parts with ⟨front, rest⟩
      dsimp only
      cases wholeNumber front 10 with
      | none =>
          simp
      | some first =>
          unfold lastNumber
          dsimp only
          cases wholeNumber rest 10 with
          | none =>
              simp
          | some last =>
              dsimp only
              constructor
              · intro h
                split at h
                · cases h
                · split at h
                  · cases h
                  · cases h
                    exact ⟨first, last, rfl, rfl, by omega, by omega, rfl, rfl, rfl⟩
              · rintro ⟨first', last', hfirst, hlast, horder, hinside, rfl, rfl, rfl⟩
                cases hfirst
                cases hlast
                rw [if_neg (by omega), if_neg (by omega)]

theorem abbrevSpec_sectors_iff {banks : List FlashInfo} {str : List Byte} {b : Nat}
    {f l : Int} :
    abbrevSpec banks str = .sectors b f l ↔
      exists bankText firstText lastText bank first last info,
        specParts str = some (bankText, firstText, lastText) ∧
        NumbersPass banks bankText firstText lastText bank first last info ∧
        b = bank.toNat - 1 ∧ f = first.toInt ∧ l = last.toInt := by
  unfold abbrevSpec specParts
  cases cutAt 0x3a#8 str with
  | none =>
      simp
  | some parts =>
      rcases parts with ⟨bankText, rest⟩
      dsimp only
      constructor
      · intro h
        split at h
        · cases h
        case h_2 bank hbank =>
            split at h
            · cases h
            case isFalse hrange =>
                split at h
                · cases h
                case h_2 info hinfo =>
                    split at h
                    case isTrue hknown =>
                        rcases abbrevSectors_iff.mp h with
                          ⟨first, last, hfirst, hlast, horder, hinside, hb, hf, hl⟩
                        exact ⟨bankText, (sectorParts rest).1, (sectorParts rest).2, bank, first,
                          last, info, rfl, ⟨hbank, hfirst, hlast, by omega, hinfo, hknown, horder,
                            hinside⟩, hb, hf, hl⟩
                    · cases h
      · rintro ⟨bankText', firstText, lastText, bank, first, last, info, hparts, hpass, hb, hf,
          hl⟩
        rw [Option.map_some, Option.some.injEq, Prod.mk.injEq] at hparts
        rcases hparts with ⟨rfl, hparts⟩
        have hrange := hpass.bankRange
        have hread := hpass.firstRead
        have hlast := hpass.lastRead
        rw [hpass.bankRead]
        dsimp only
        rw [if_neg (by omega), hpass.bankInfo]
        dsimp only
        rw [hpass.known, if_pos rfl, abbrevSectors_iff, hparts]
        exact ⟨first, last, hread, hlast, hpass.order, hpass.inside, hb, hf, hl⟩

/-!
# What is accepted
-/

/-- What a caller of `abbrev_spec` relies on. -/
structure SpecInRange (banks : List FlashInfo) (str : List Byte) : Prop where
  accepted : forall bank first last, abbrevSpec banks str = .sectors bank first last ->
    DecimalSpec str ∧ exists info, banks[bank]? = some info ∧ info.isKnown = true ∧
      0 <= first ∧ first <= last ∧ last < info.sectorCount
  rejected : 0x3a#8 ∈ str -> abbrevSpec banks str ≠ .other

/--
A specification whose numbers pass the comparisons has a first sector below 2^31 modulo
2^32, and none of its numbers is written in base 16.
-/
def NumbersPlain (banks : List FlashInfo) (str : List Byte) : Prop :=
  forall bankText firstText lastText bank first last info,
    specParts str = some (bankText, firstText, lastText) ->
    NumbersPass banks bankText firstText lastText bank first last info ->
      0 <= first.toInt ∧ writtenHex bankText = false ∧ writtenHex firstText = false ∧
        forall text, lastText = some text -> writtenHex text = false

theorem abbrevSpec_colon {banks : List FlashInfo} {str : List Byte} (h : 0x3a#8 ∈ str) :
    abbrevSpec banks str ≠ .other := by
  rcases Option.isSome_iff_exists.mp (cutAt_isSome h) with ⟨⟨bankText, rest⟩, hcut⟩
  have hsectors : forall bank sectorCount, abbrevSectors bank sectorCount rest ≠ .other := by
    intro bank sectorCount
    unfold abbrevSectors
    dsimp only
    intro hother
    repeat' split at hother
    all_goals cases hother
  unfold abbrevSpec
  rw [hcut]
  dsimp only
  split
  · simp
  · split
    · simp
    · split
      · simp
      · split
        · exact hsectors _ _
        · simp

theorem not_mem_decimal {text : List Byte} (h : Decimal text) {c : Byte}
    (hc : isDigit c = false) : c ∉ text := by
  intro hmem
  rw [h.digits c hmem] at hc
  cases hc

theorem specParts_decimal {str bankText firstText : List Byte} {lastText : Option (List Byte)}
    (hparts : specParts str = some (bankText, firstText, lastText)) (h : DecimalSpec str) :
    Decimal bankText ∧ Decimal firstText ∧ forall text, lastText = some text -> Decimal text := by
  rcases h with ⟨bank, first, hbank, hfirst, rfl | ⟨last, hlast, rfl⟩⟩
  · unfold specParts sectorParts at hparts
    rw [cutAt_append (not_mem_decimal hbank (by decide))] at hparts
    dsimp only [Option.map_some] at hparts
    rw [cutAt_none (not_mem_decimal hfirst (by decide))] at hparts
    cases hparts
    exact ⟨hbank, hfirst, fun text htext => by cases htext⟩
  · unfold specParts sectorParts at hparts
    rw [cutAt_append (not_mem_decimal hbank (by decide))] at hparts
    dsimp only [Option.map_some] at hparts
    rw [cutAt_append (not_mem_decimal hfirst (by decide))] at hparts
    cases hparts
    refine ⟨hbank, hfirst, ?_⟩
    intro text htext
    cases htext
    exact hlast

theorem decimalSpec_of_parts {str bankText firstText : List Byte} {lastText : Option (List Byte)}
    (hparts : specParts str = some (bankText, firstText, lastText)) (hbank : Decimal bankText)
    (hfirst : Decimal firstText) (hlast : forall text, lastText = some text -> Decimal text) :
    DecimalSpec str := by
  unfold specParts at hparts
  rcases Option.map_eq_some_iff.mp hparts with ⟨⟨bank, rest⟩, hcut, heq⟩
  rw [Prod.mk.injEq] at heq
  rcases heq with ⟨rfl, hsectors⟩
  refine ⟨bank, firstText, hbank, hfirst, ?_⟩
  rw [cutAt_some hcut]
  unfold sectorParts at hsectors
  split at hsectors
  case h_1 front more hdash =>
      cases hsectors
      exact Or.inr ⟨more, hlast more rfl, by rw [cutAt_some hdash]⟩
  case h_2 =>
      cases hsectors
      exact Or.inl rfl

/-- A specification stays in range exactly if its numbers are not read as something else. -/
theorem abbrevSpec_in_range_iff (banks : List FlashInfo) (str : List Byte) :
    SpecInRange banks str ↔ NumbersPlain banks str := by
  constructor
  · intro h bankText firstText lastText bank first last info hparts hpass
    rcases h.accepted _ _ _ (abbrevSpec_sectors_iff.mpr ⟨bankText, firstText, lastText, bank,
      first, last, info, hparts, hpass, rfl, rfl, rfl⟩) with ⟨hspec, _, _, _, hpos, _⟩
    rcases specParts_decimal hparts hspec with ⟨hbank, hfirst, hlast⟩
    exact ⟨hpos, writtenHex_of_decimal hbank, writtenHex_of_decimal hfirst,
      fun text htext => writtenHex_of_decimal (hlast text htext)⟩
  · intro h
    constructor
    · intro b f l haccepted
      rcases abbrevSpec_sectors_iff.mp haccepted with ⟨bankText, firstText, lastText, bank, first,
        last, info, hparts, hpass, rfl, rfl, rfl⟩
      rcases h _ _ _ _ _ _ _ hparts hpass with ⟨hpos, hbankHex, hfirstHex, hlastHex⟩
      refine ⟨?_, info, hpass.bankInfo, hpass.known, hpos, hpass.order, hpass.inside⟩
      apply decimalSpec_of_parts hparts (decimal_of_wholeNumber hpass.bankRead hbankHex)
        (decimal_of_wholeNumber hpass.firstRead hfirstHex)
      intro text htext
      have hread := hpass.lastRead
      rw [htext] at hread
      exact decimal_of_wholeNumber hread (hlastHex text htext)
    · exact abbrevSpec_colon

/-- A first sector of 2^32 - 1 is taken as -1. -/
theorem abbrevSpec_negative :
    ¬ SpecInRange [chipInfo 0xff800000#32 0x41#8 (fun _ => false) missingBank 64 0x00400000#32]
      (ascii "1:4294967295") := by
  intro h
  rcases h.accepted 0 (-1) (-1) (by decide) with ⟨_, _, _, _, hpos, _⟩
  exact absurd hpos (by decide)

end Flash
end Bab750

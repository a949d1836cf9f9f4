import Bab750.Console.Serial

/-!
# Marks in the console buffer

`mark` is the length of the buffer, and `buffer_since` counts from the front of the
buffer.  `_append` cuts the front off once there are too many characters, and leaves
the marks alone.  A mark means the text behind it exactly as long as nothing was cut.
-/

namespace Bab750
namespace Console

open Foundation
open Script

theorem bufferLimit_pos : 0 < bufferLimit := by decide

/-- The end of a text, as far as the buffer keeps it. -/
def retained (text : Text) : Text := text.drop (text.length - bufferLimit)

theorem retained_length (text : Text) :
    (retained text).length = min text.length bufferLimit := by
  unfold retained
  rw [List.length_drop]
  omega

theorem retained_suffix (text : Text) : retained text <:+ text :=
  List.drop_suffix _ _

theorem retained_of_length_le {text : Text} (h : text.length <= bufferLimit) :
    retained text = text := by
  unfold retained
  rw [Nat.sub_eq_zero_of_le h, List.drop_zero]

theorem appendBuffer_retained (text chunk : Text) :
    appendBuffer (retained text) chunk = retained (text ++ chunk) := by
  have hlength := retained_length text
  have hcut : forall n, n <= text.length ->
      (text.drop n ++ chunk) = (text ++ chunk).drop n := by
    intro n hn
    rw [List.drop_append_of_le_length hn]
  unfold appendBuffer
  dsimp only
  rw [List.length_append, hlength]
  unfold retained
  rw [hcut _ (by omega), List.length_append]
  split
  case isTrue hlong =>
      have hfront : text.length - bufferLimit +
          (min text.length bufferLimit + chunk.length - bufferLimit) =
            text.length + chunk.length - bufferLimit := by
        omega
      rw [List.drop_drop, hfront]
  case isFalse hshort =>
      have hfront : text.length - bufferLimit =
          text.length + chunk.length - bufferLimit := by
        omega
      rw [hfront]

def appendAll : List Text -> Serial Unit
  | [] => pure ()
  | chunk :: rest => do
      append chunk
      appendAll rest

/-- `mark`, some chunks, and `buffer_since` that mark. -/
def lookBack (chunks : List Text) : Serial Text := do
  let start ← mark
  appendAll chunks
  bufferSince start

theorem appendAll_buffer (chunks : List Text) {w : SerialConsole} {text : Text}
    (hbuffer : w.buffer = retained text) :
    exists u, appendAll chunks w = (.ok (), u) ∧
      u.buffer = retained (text ++ chunks.flatten) := by
  induction chunks generalizing w text with
  | nil =>
      refine ⟨w, rfl, ?_⟩
      rw [List.flatten_nil, List.append_nil]
      exact hbuffer
  | cons chunk rest ih =>
      have hnext : (append chunk w).2.buffer = retained (text ++ chunk) := by
        show appendBuffer w.buffer chunk = _
        rw [hbuffer, appendBuffer_retained]
      rcases ih hnext with ⟨u, hrun, hu⟩
      refine ⟨u, hrun, ?_⟩
      rw [List.flatten_cons, ← List.append_assoc]
      exact hu

theorem lookBack_eq (before after : List Text) {w : SerialConsole} (hnew : w.buffer = []) :
    exists u, (do appendAll before; lookBack after) w =
      (.ok ((retained (before.flatten ++ after.flatten)).drop
        (min before.flatten.length bufferLimit)), u) := by
  rcases @appendAll_buffer before w [] hnew with ⟨v, hbefore, hv⟩
  rw [List.nil_append] at hv
  rcases appendAll_buffer after hv with ⟨u, hafter, hu⟩
  refine ⟨u, ?_⟩
  show Script.bind (appendAll before) _ w = _
  unfold Script.bind
  rw [hbefore]
  show Script.bind (appendAll after) _ v = _
  unfold Script.bind
  rw [hafter]
  show (Outcome.ok (u.buffer.drop v.buffer.length), u) = _
  rw [hu, hv, retained_length]

/--
What the text behind a mark should be: all that was appended, or, once characters were
cut off, at least what is left of it and nothing older.
-/
structure SinceMark (before after : List Text) (result : Text) : Prop where
  whole : before.flatten.length + after.flatten.length <= bufferLimit ->
    result = after.flatten
  least : retained after.flatten <:+ result
  newer : result <:+ after.flatten

theorem sinceMark_drop_iff (before after : List Text) :
    SinceMark before after ((retained (before.flatten ++ after.flatten)).drop
        (min before.flatten.length bufferLimit)) <->
      before.flatten.length + after.flatten.length <= bufferLimit ∨
        before.flatten = [] ∨ after.flatten = [] := by
  have hsize := retained_length (before.flatten ++ after.flatten)
  rw [List.length_append] at hsize
  constructor
  · intro h
    have hleast := h.least.length_le
    rw [retained_length, List.length_drop, hsize] at hleast
    -- What is found is shorter than what is left whenever something was cut off.
    by_cases hroom : before.flatten.length + after.flatten.length <= bufferLimit
    · exact Or.inl hroom
    · by_cases hbefore : before.flatten = []
      · exact Or.inr (Or.inl hbefore)
      · have hpos := List.length_pos_iff.mpr hbefore
        have hlimit := bufferLimit_pos
        refine Or.inr (Or.inr (List.length_eq_zero_iff.mp ?_))
        omega
  · rintro (hroom | hbefore | hafter)
    · have hwhole : (retained (before.flatten ++ after.flatten)).drop
          (min before.flatten.length bufferLimit) = after.flatten := by
        rw [retained_of_length_le (by rw [List.length_append]; exact hroom),
          Nat.min_eq_left (by omega), List.drop_left]
      rw [hwhole]
      exact ⟨fun _ => rfl, retained_suffix _, List.suffix_refl _⟩
    · rw [hbefore, List.nil_append, List.length_nil, Nat.zero_min, List.drop_zero]
      refine ⟨fun hroom => ?_, List.suffix_refl _, retained_suffix _⟩
      refine retained_of_length_le ?_
      rw [hbefore] at hroom
      exact Nat.le_trans (Nat.le_add_left _ _) hroom
    · have hnone : (retained (before.flatten ++ after.flatten)).drop
          (min before.flatten.length bufferLimit) = after.flatten := by
        rw [hafter, List.append_nil, ← retained_length, List.drop_length]
      rw [hnone]
      exact ⟨fun _ => rfl, retained_suffix _, List.suffix_refl _⟩

/--
A mark means the text behind it if and only if nothing was cut off since the console was
opened, or the mark is the very first one, or nothing came behind it.
-/
theorem mark_coherent_iff (before after : List Text) {w : SerialConsole}
    (hnew : w.buffer = []) :
    (exists result u, (do appendAll before; lookBack after) w = (.ok result, u) ∧
        SinceMark before after result) <->
      before.flatten.length + after.flatten.length <= bufferLimit ∨
        before.flatten = [] ∨ after.flatten = [] := by
  rcases lookBack_eq before after hnew with ⟨u, hrun⟩
  rw [← sinceMark_drop_iff before after]
  constructor
  · rintro ⟨result, v, hresult, hsince⟩
    rw [hrun] at hresult
    rw [Outcome.ok.inj (Prod.mk.inj hresult).left]
    exact hsince
  · intro hsince
    exact ⟨_, u, hrun, hsince⟩

def openedConsole : SerialConsole where
  buffer := []
  trace := []
  answers := fun _ => { chunk := [], late := true }
  asked := 0
  limit := 0
  resetLine := none
  resetActiveState := true
  displayName := []

theorem mark_coherent_prompt :
    (exists result u,
      (do appendAll [chars "=> "]; lookBack [chars "setenv", chars " ipaddr"])
        openedConsole = (.ok result, u) ∧
        SinceMark [chars "=> "] [chars "setenv", chars " ipaddr"] result) :=
  (mark_coherent_iff _ _ rfl).mpr (Or.inl (by decide))

/-- One prompt in front of a mark, and a full buffer of text behind it. -/
theorem mark_incoherent : ¬ forall before after : List Text,
    exists result u, (do appendAll before; lookBack after) openedConsole =
      (.ok result, u) ∧ SinceMark before after result := by
  intro h
  have hfull : exists text : Text, text.length = bufferLimit :=
    ⟨List.replicate bufferLimit 'x', List.length_replicate⟩
  rcases hfull with ⟨text, htext⟩
  rcases h [chars "=> "] [text] with ⟨result, u, hrun, hsince⟩
  rcases lookBack_eq [chars "=> "] [text] (w := openedConsole) rfl with ⟨v, heq⟩
  rw [hrun] at heq
  rw [Outcome.ok.inj (Prod.mk.inj heq).left, sinceMark_drop_iff,
    List.flatten_singleton, List.flatten_singleton, htext] at hsince
  rcases hsince with hroom | hbefore | hafter
  · have hprompt : (chars "=> ").length = 3 := by decide
    omega
  · exact absurd hbefore (by decide)
  · have hlimit := bufferLimit_pos
    rw [hafter, List.length_nil] at htext
    omega

end Console
end Bab750

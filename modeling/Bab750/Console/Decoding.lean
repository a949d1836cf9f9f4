import Bab750.Console.LinuxMarkers
import Bab750.Console.Marks
import Bab750.Foundation.Utf8

/-!
# The decoding of what is read

`read_once` of both scripts decodes each chunk on its own. What the buffer is in the end is
compared over all the ways in which one output can be cut into chunks.
-/

namespace Bab750
namespace Console

open Foundation

/-!
# Reading
-/

/-- The bytes that one `os.read` takes. -/
def readSize : Nat := 4096

/-- A console, just opened, to which the output comes in these chunks. -/
def consoleOf (chunks : List (List Byte)) : SerialConsole where
  buffer := []
  trace := []
  answers := fun n => ⟨utf8Decode (chunks.getD n []), false⟩
  asked := 0
  limit := 0
  resetLine := none
  resetActiveState := false
  displayName := []

/-- `read_once`, so many times. -/
def readTimes : Nat -> Serial Unit
  | 0 => pure ()
  | n + 1 => do
      let _ ← readOnce
      readTimes n

def bufferBehind (chunks : List (List Byte)) : Text :=
  (readTimes chunks.length (consoleOf chunks)).2.buffer

/-!
# The buffer
-/

theorem readOnce_buffer {w : SerialConsole} {text : Text} (hbuffer : w.buffer = retained text) :
    exists decoded u, readOnce w = (.ok decoded, u) ∧
      u.buffer = retained (text ++ (w.answers w.asked).chunk) ∧
      u.answers = w.answers ∧ u.asked = w.asked + 1 := by
  cases hchunk : (w.answers w.asked).chunk with
  | nil =>
      refine ⟨[], { w with asked := w.asked + 1 }, ?_, ?_, rfl, rfl⟩
      · show (if (w.answers w.asked).chunk.isEmpty then (pure [] : Serial Text) else _) _ = _
        rw [hchunk]
        rfl
      · rw [List.append_nil]
        exact hbuffer
  | cons c chunk =>
      refine ⟨c :: chunk, ((append (c :: chunk)) { w with asked := w.asked + 1 }).2, ?_, ?_,
        rfl, rfl⟩
      · show (if (w.answers w.asked).chunk.isEmpty then (pure [] : Serial Text) else _) _ = _
        rw [hchunk]
        rfl
      · show appendBuffer w.buffer (c :: chunk) = _
        rw [hbuffer, appendBuffer_retained]

theorem readTimes_buffer (chunks : List (List Byte)) : forall {w : SerialConsole} {text : Text},
    (forall n, (w.answers (w.asked + n)).chunk = utf8Decode (chunks.getD n [])) ->
    w.buffer = retained text ->
    (readTimes chunks.length w).2.buffer = retained (text ++ chunks.flatMap utf8Decode) := by
  induction chunks with
  | nil =>
      intro w text _ hbuffer
      rw [List.flatMap_nil, List.append_nil]
      exact hbuffer
  | cons chunk chunks ih =>
      intro w text hanswers hbuffer
      rcases readOnce_buffer hbuffer with ⟨decoded, u, hread, htext, hsame, hasked⟩
      have hfirst : (w.answers w.asked).chunk = utf8Decode chunk := hanswers 0
      have hothers : forall n,
          (u.answers (u.asked + n)).chunk = utf8Decode (chunks.getD n []) := by
        intro n
        rw [hsame, hasked, Nat.add_assoc, Nat.add_comm 1 n, hanswers (n + 1)]
        rfl
      have hrun : readTimes (chunk :: chunks).length w = readTimes chunks.length u :=
        Script.bind_of_ok hread
      rw [hrun, ih hothers htext, hfirst, List.flatMap_cons, List.append_assoc]

/-- The buffer is the end of what the chunks were decoded to, one by one. -/
theorem bufferBehind_eq (chunks : List (List Byte)) :
    bufferBehind chunks = (chunks.flatMap utf8Decode).rtake bufferLimit := by
  have hanswers : forall n, ((consoleOf chunks).answers ((consoleOf chunks).asked + n)).chunk =
      utf8Decode (chunks.getD n []) := by
    intro n
    rw [show (consoleOf chunks).asked + n = n from Nat.zero_add n]
    rfl
  have hempty : (consoleOf chunks).buffer = retained [] := rfl
  have hbuffer := readTimes_buffer chunks hanswers hempty
  rw [List.nil_append] at hbuffer
  exact hbuffer

/--
For every output of the board: the buffer is the same for all the ways in which the output comes
in chunks if and only if what the buffer keeps is settled.
-/
theorem buffer_chunks_iff (output : List Byte) :
    (forall chunks chunks', ChunksOf readSize output chunks -> ChunksOf readSize output chunks' ->
      bufferBehind chunks = bufferBehind chunks') <-> SettledEnd bufferLimit output := by
  simp only [bufferBehind_eq]
  have hroom : 4 <= readSize := by
    unfold readSize
    omega
  generalize bufferLimit = kept
  exact rtake_chunks_iff hroom kept output

/-- The greeting of a userspace, cut within its one letter of two bytes. -/
def greetingChunks : List (List Byte) :=
  [(chars "Welcome to Ad").map (fun c => BitVec.ofNat 8 c.toNat) ++ [0xc3],
    0xa9 :: (chars "lie").map (fun c => BitVec.ofNat 8 c.toNat)]

/-- The greeting is found when it comes in one chunk, and not found when a read cuts it. -/
theorem greeting_cut :
    ChunksOf readSize greetingChunks.flatten [greetingChunks.flatten] ∧
    ChunksOf readSize greetingChunks.flatten greetingChunks ∧
    bufferBehind [greetingChunks.flatten] = chars "Welcome to Adélie" ∧
    Linux.linuxSuccessRe.found (bufferBehind [greetingChunks.flatten]) = true ∧
    bufferBehind greetingChunks =
      chars "Welcome to Ad" ++ [replacement, replacement] ++ chars "lie" ∧
    Linux.linuxSuccessRe.found (bufferBehind greetingChunks) = false := by
  have hwhole : bufferBehind [greetingChunks.flatten] = chars "Welcome to Adélie" := by
    rw [bufferBehind_eq]
    decide +kernel
  have hcut : bufferBehind greetingChunks =
      chars "Welcome to Ad" ++ [replacement, replacement] ++ chars "lie" := by
    rw [bufferBehind_eq]
    decide +kernel
  refine ⟨⟨rfl, by decide⟩, ⟨rfl, by decide⟩, hwhole, ?_, hcut, ?_⟩
  · rw [hwhole]
    decide +kernel
  · rw [hcut]
    decide +kernel

end Console
end Bab750

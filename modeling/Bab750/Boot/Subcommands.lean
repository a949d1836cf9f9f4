import Bab750.Boot.Bootm
import Bab750.Foundation.Run

/-!
# The sub-commands of bootm

`do_bootm_subcommand` keeps the steps that were executed in the bits of `images.state`, and
compares the bits as numbers.
-/

namespace Bab750
namespace Boot

open Foundation
open Support

/-- `cmd_bootm_sub` without `start`. -/
inductive Step where
  | loados
  | ramdisk
  | cmdline
  | bdt
  | prep
  | go
deriving DecidableEq

/-- The number of the bit of `BOOTM_STATE_*`. -/
def Step.place : Step -> Nat
  | .loados => 1
  | .ramdisk => 2
  | .cmdline => 4
  | .bdt => 5
  | .prep => 6
  | .go => 7

/-- `BOOTM_STATE_*` -/
def Step.bit (s : Step) : Nat := 2 ^ s.place

/-- The name that `find_cmd_tbl` finds for `argv[1]`. -/
inductive SubCommand where
  | start (call : Invocation)
  | step (s : Step)
  | unrecognized

/-- What is not part of `cmd_bootm.c`. -/
structure Platform where
  gunzip : Gunzip
  /-- The return code of `boot_ramdisk_high`. -/
  bootRamdiskHigh : Headers -> Memory -> Int
  /-- `boot_os[os]` with its return code for a flag; `none` where no function is set. -/
  bootOs : Byte -> Option (Step -> Headers -> Memory -> Int)

inductive Outcome where
  /-- `cmd_usage` for a name that is not in the table. -/
  | usage
  /-- `Trying to execute a command out of order` -/
  | refused
  /-- `bootm_start` has returned. -/
  | started (ret : Nat)
  | loaded (result : LoadResult)
  | relocated (ret : Int)
  /-- `boot_fn (flag, argc, argv, &images)` for the function of an operating system. -/
  | called (flag : Step) (os : Byte) (ret : Int)
deriving DecidableEq

def executeStep (platform : Platform) (images : Headers) (memory : Memory) :
    Step -> Option Outcome
  | .loados => some (.loaded (bootmLoadOs platform.gunzip memory images.os).1)
  | .ramdisk => some (.relocated (platform.bootRamdiskHigh images memory))
  -- `boot_fn` is not compared with `NULL` here, and a call of it does not return
  | s => (platform.bootOs images.os.os).map
      (fun bootFn => .called s images.os.os (bootFn s images memory))

/-- `do_bootm_subcommand`: the new `images` and what was done; nothing when it does not
return. -/
def doBootmSubcommand (platform : Platform) (images : Headers) (memory : Memory) :
    SubCommand -> Option (Headers × Outcome)
  | .start call =>
      (bootmStart memory call).map (fun started => (started.2, .started started.1))
  | .unrecognized => some (images, .usage)
  | .step s =>
      if s.bit <= images.state then some (images, .refused)
      else
        let images := { images with state := images.state ||| s.bit }
        (executeStep platform images memory s).map (fun outcome => (images, outcome))

/-- One command of a run: the memory it finds, what it does, and what it leaves. -/
structure Entry where
  command : SubCommand
  memory : Memory
  outcome : Outcome
  images : Headers

/-- The commands one after the other; the memory may change in between. -/
def SubStep (platform : Platform) (images : Headers) (entry : Entry) (images' : Headers) :
    Prop :=
  entry.images = images' ∧
    doBootmSubcommand platform images entry.memory entry.command = some (images', entry.outcome)

/-- The steps that were executed since the last `start`, or since the reset. -/
def executedAfter (done : List Step) (entry : Entry) : List Step :=
  match entry.command with
  | .start _ => []
  | .unrecognized => done
  | .step s => if entry.outcome = .refused then done else done ++ [s]

def sinceStart (history : List Entry) : List Step := history.foldl executedAfter []

/-- The return code of a step is not zero; that of `go` is not looked at. -/
def Outcome.failed : Outcome -> Bool
  | .loaded result => result ≠ .loaded
  | .relocated ret => ret ≠ 0
  | .called flag _ ret => flag ≠ .go ∧ ret ≠ 0
  | _ => false

def startedAfter (images : Headers) (entry : Entry) : Headers :=
  match entry.command with
  | .start _ => entry.images
  | _ => images

def lastStarted (history : List Entry) : Headers := history.foldl startedAfter noImages

theorem two_le_bit (s : Step) : 2 <= s.bit := by
  cases s <;> decide

theorem bit_le_or_double_le (r s : Step) : r.bit <= s.bit ∨ 2 * s.bit <= r.bit := by
  cases r <;> cases s <;> decide

theorem executeStep_ne_refused (platform : Platform) (images : Headers) (memory : Memory)
    (s : Step) : executeStep platform images memory s ≠ some .refused := by
  intro h
  cases s with
  | loados =>
      cases h
  | ramdisk =>
      cases h
  | _ =>
      rcases Option.map_eq_some_iff.mp h with ⟨bootFn, _, hcalled⟩
      cases hcalled

/-- A bit is reached exactly when a step at or above it has been added. -/
theorem bit_le_or_iff {state : Nat} {s : Step} (hstate : state < s.bit) (r : Step) :
    r.bit <= state ||| s.bit <-> r.bit <= s.bit := by
  have hlow : s.bit <= state ||| s.bit := Nat.right_le_or
  have hhigh : state ||| s.bit < 2 * s.bit := by
    have hbit : s.bit < 2 ^ (s.place + 1) := Nat.pow_lt_pow_right (by decide) (by omega)
    have hor := Nat.or_lt_two_pow (Nat.lt_trans hstate hbit) hbit
    rw [Nat.pow_succ, Nat.mul_comm] at hor
    exact hor
  constructor
  · intro h
    cases bit_le_or_double_le r s with
    | inl hle =>
        exact hle
    | inr hdouble =>
        omega
  · intro h
    exact Nat.le_trans h hlow

theorem bootmStart_state {memory : Memory} {call : Invocation} {ret : Nat}
    {images : Headers} (h : bootmStart memory call = some (ret, images)) :
    images.state <= 1 := by
  rcases bootmStart_cases h with ⟨_, hstate⟩ | ⟨_, kernel, hstarted⟩
  · rw [hstate]
    exact Nat.zero_le 1
  · rw [hstarted.record]
    exact Nat.le_refl 1

structure Tracks (images : Headers) (history : List Entry) : Prop where
  ordered : (sinceStart history).Pairwise (fun s t => s.bit < t.bit)
  reached : forall r : Step, r.bit <= images.state <->
    exists t, t ∈ sinceStart history ∧ r.bit <= t.bit
  same : images = { lastStarted history with state := images.state }

theorem sinceStart_snoc (history : List Entry) (entry : Entry) :
    sinceStart (history ++ [entry]) = executedAfter (sinceStart history) entry :=
  List.foldl_concat _ _ _ _

theorem lastStarted_snoc (history : List Entry) (entry : Entry) :
    lastStarted (history ++ [entry]) = startedAfter (lastStarted history) entry :=
  List.foldl_concat _ _ _ _

theorem Tracks.refused_iff {images : Headers} {history : List Entry}
    (h : Tracks images history) (s : Step) :
    ¬ s.bit <= images.state <-> forall t, t ∈ sinceStart history -> t.bit < s.bit := by
  rw [h.reached s]
  constructor
  · intro hnone t ht
    exact Nat.lt_of_not_le (fun hle => hnone ⟨t, ht, hle⟩)
  · rintro hall ⟨t, ht, hle⟩
    exact absurd (hall t ht) (Nat.not_lt.mpr hle)

theorem Tracks.idle {images : Headers} {history : List Entry} {entry : Entry}
    (h : Tracks images history)
    (hdone : executedAfter (sinceStart history) entry = sinceStart history)
    (hstarted : startedAfter (lastStarted history) entry = lastStarted history) :
    Tracks images (history ++ [entry]) := by
  refine ⟨?_, ?_, ?_⟩
  · rw [sinceStart_snoc, hdone]
    exact h.ordered
  · rw [sinceStart_snoc, hdone]
    exact h.reached
  · rw [lastStarted_snoc, hstarted]
    exact h.same

theorem tracks_start {memory : Memory} {call : Invocation} {ret : Nat} {images : Headers}
    {history : List Entry} (h : bootmStart memory call = some (ret, images)) :
    Tracks images (history ++ [⟨.start call, memory, .started ret, images⟩]) := by
  constructor
  · rw [sinceStart_snoc]
    exact List.Pairwise.nil
  · intro r
    rw [sinceStart_snoc]
    constructor
    · intro hle
      have hstate := bootmStart_state h
      have hbit := two_le_bit r
      omega
    · rintro ⟨t, ht, _⟩
      cases ht
  · rw [lastStarted_snoc]
    rfl

theorem Tracks.execute {images : Headers} {history : List Entry} (h : Tracks images history)
    {s : Step} (hs : ¬ s.bit <= images.state) (memory : Memory) {outcome : Outcome}
    (houtcome : outcome ≠ .refused) :
    Tracks { images with state := images.state ||| s.bit }
      (history ++ [⟨.step s, memory, outcome,
        { images with state := images.state ||| s.bit }⟩]) := by
  have hbefore := (h.refused_iff s).mp hs
  have hsince : sinceStart (history ++ [⟨.step s, memory, outcome,
      { images with state := images.state ||| s.bit }⟩]) = sinceStart history ++ [s] := by
    rw [sinceStart_snoc]
    exact if_neg houtcome
  constructor
  · rw [hsince, List.pairwise_append]
    refine ⟨h.ordered, List.pairwise_singleton _ _, ?_⟩
    intro t ht r hr
    rw [List.mem_singleton.mp hr]
    exact hbefore t ht
  · intro r
    rw [hsince, bit_le_or_iff (Nat.lt_of_not_le hs)]
    constructor
    · intro hle
      exact ⟨s, by simp, hle⟩
    · rintro ⟨t, ht, hle⟩
      cases List.mem_append.mp ht with
      | inl hold =>
          exact Nat.le_trans hle (Nat.le_of_lt (hbefore t hold))
      | inr hnew =>
          rw [List.mem_singleton.mp hnew] at hle
          exact hle
  · rw [lastStarted_snoc]
    show _ = { lastStarted history with state := images.state ||| s.bit }
    rw [h.same]

theorem Tracks.step {platform : Platform} {images images' : Headers} {history : List Entry}
    {entry : Entry} (h : Tracks images history) (hstep : SubStep platform images entry images') :
    Tracks images' (history ++ [entry]) := by
  rcases entry with ⟨command, memory, outcome, left⟩
  rcases hstep with ⟨hleft, hcommand⟩
  cases hleft
  cases command with
  | start call =>
      simp only [doBootmSubcommand, Option.map_eq_some_iff] at hcommand
      rcases hcommand with ⟨started, hstart, hsame⟩
      cases hsame
      exact tracks_start hstart
  | unrecognized =>
      cases hcommand
      exact h.idle rfl rfl
  | step s =>
      simp only [doBootmSubcommand] at hcommand
      by_cases hs : s.bit <= images.state
      · rw [if_pos hs] at hcommand
        cases hcommand
        exact h.idle (by simp [executedAfter]) rfl
      · rw [if_neg hs] at hcommand
        rcases Option.map_eq_some_iff.mp hcommand with ⟨executed, hexecuted, hsame⟩
        cases hsame
        apply h.execute hs memory
        intro hrefused
        rw [hrefused] at hexecuted
        exact executeStep_ne_refused _ _ _ s hexecuted

theorem tracks_reset : Tracks noImages [] := by
  refine ⟨List.Pairwise.nil, ?_, rfl⟩
  intro r
  constructor
  · intro hle
    have hbit := two_le_bit r
    have hnone : r.bit <= 0 := hle
    omega
  · rintro ⟨t, ht, _⟩
    cases ht

theorem run_tracks {platform : Platform} {images images' : Headers}
    {before history : List Entry} (hrun : Run (SubStep platform) images history images')
    (h : Tracks images before) : Tracks images' (before ++ history) := by
  induction hrun generalizing before with
  | nil images =>
      rw [List.append_nil]
      exact h
  | @cons _ _ _ entry rest head tail ih =>
      have hnext := ih (h.step head)
      rw [List.append_assoc] at hnext
      exact hnext

/-!
# From a start on

The code also takes a step that comes before every start, or behind a start or a step that
failed, and calls the entry of `boot_os` where none is set.  Nothing is said of these below.
-/

theorem executedAfter_foldl_start (steps : List Step) {start : Entry} {call : Invocation}
    (h : start.command = .start call) (after : List Entry) :
    (start :: after).foldl executedAfter steps = sinceStart after := by
  rw [List.foldl_cons, executedAfter, h]
  rfl

theorem sinceStart_start (before : List Entry) {start : Entry} {call : Invocation}
    (h : start.command = .start call) (after : List Entry) :
    sinceStart (before ++ start :: after) = sinceStart after := by
  rw [sinceStart, List.foldl_append]
  exact executedAfter_foldl_start _ h after

theorem startedAfter_foldl {after : List Entry}
    (h : forall entry, entry ∈ after -> forall call, entry.command ≠ .start call)
    (images : Headers) : after.foldl startedAfter images = images := by
  induction after with
  | nil =>
      rfl
  | cons entry after ih =>
      have hsame : startedAfter images entry = images := by
        unfold startedAfter
        split
        · rename_i call hcall
          exact absurd hcall (h entry List.mem_cons_self call)
        · rfl
      rw [List.foldl_cons, hsame]
      exact ih (fun other hother => h other (List.mem_cons_of_mem _ hother))

theorem lastStarted_start (before : List Entry) {start : Entry} {call : Invocation}
    (h : start.command = .start call) {after : List Entry}
    (hlast : forall entry, entry ∈ after -> forall call, entry.command ≠ .start call) :
    lastStarted (before ++ start :: after) = start.images := by
  rw [lastStarted, List.foldl_append, List.foldl_cons, startedAfter_foldl hlast, startedAfter, h]

theorem SubStep.start_of_started {platform : Platform} {images images' : Headers}
    {entry : Entry} {ret : Nat} (h : SubStep platform images entry images')
    (hstarted : entry.outcome = .started ret) : exists call, entry.command = .start call := by
  rcases entry with ⟨command, memory, outcome, left⟩
  rcases h with ⟨_, hcommand⟩
  cases hstarted
  cases command with
  | start call =>
      exact ⟨call, rfl⟩
  | unrecognized =>
      cases hcommand
  | step s =>
      simp only [doBootmSubcommand] at hcommand
      split at hcommand
      · cases hcommand
      · rcases Option.map_eq_some_iff.mp hcommand with ⟨executed, hexecuted, hsame⟩
        cases hsame
        cases s with
        | loados =>
            cases hexecuted
        | ramdisk =>
            cases hexecuted
        | _ =>
            rcases Option.map_eq_some_iff.mp hexecuted with ⟨bootFn, _, hcalled⟩
            cases hcalled

theorem run_entry {platform : Platform} {images images' : Headers} {history : List Entry}
    (hrun : Run (SubStep platform) images history images') {entry : Entry}
    (h : entry ∈ history) : exists left right, SubStep platform left entry right := by
  induction hrun with
  | nil images =>
      cases h
  | cons head tail ih =>
      cases h with
      | head =>
          exact ⟨_, _, head⟩
      | tail _ hlater =>
          exact ih hlater

theorem executeStep_isSome {platform : Platform} {images : Headers} (memory : Memory)
    (s : Step) (hset : (platform.bootOs images.os.os).isSome) :
    (executeStep platform images memory s).isSome := by
  cases s with
  | loados =>
      rfl
  | ramdisk =>
      rfl
  | _ =>
      exact Option.isSome_map.trans hset

/-- From a start that succeeded to the next one, the steps are executed in the order of the
table and on the record of that start.  What is out of order is refused; the rest is executed,
as long as no step has failed. -/
theorem subcommands_in_order {platform : Platform} {before after : List Entry} {start : Entry}
    {images : Headers}
    (hrun : Run (SubStep platform) noImages (before ++ start :: after) images)
    (hstart : start.outcome = .started 0)
    (hlast : forall entry, entry ∈ after -> forall call, entry.command ≠ .start call) :
    (sinceStart after).Pairwise (fun s t => s.bit < t.bit) ∧
      images = { start.images with state := images.state } ∧
      forall (memory : Memory) (s : Step),
        ((exists t, t ∈ sinceStart after ∧ s.bit <= t.bit) ->
          doBootmSubcommand platform images memory (.step s) = some (images, .refused)) ∧
        ((forall t, t ∈ sinceStart after -> t.bit < s.bit) ->
          (forall entry, entry ∈ after -> entry.outcome.failed = false) ->
          (platform.bootOs start.images.os.os).isSome ->
          exists (left : Headers) (outcome : Outcome),
            left = { start.images with state := left.state } ∧
              executeStep platform left memory s = some outcome ∧
              doBootmSubcommand platform images memory (.step s) = some (left, outcome)) := by
  have h : Tracks images (before ++ start :: after) := by
    have htracks := run_tracks hrun tracks_reset
    rw [List.nil_append] at htracks
    exact htracks
  rcases run_entry hrun (List.mem_append_right before List.mem_cons_self) with
    ⟨_, _, hentry⟩
  rcases hentry.start_of_started hstart with ⟨call, hcall⟩
  have hsince := sinceStart_start before hcall after
  have hleft := lastStarted_start before hcall hlast
  have hsame : images = { start.images with state := images.state } := by
    rw [← hleft]
    exact h.same
  refine ⟨?_, hsame, ?_⟩
  · rw [← hsince]
    exact h.ordered
  · intro memory s
    rw [← hsince]
    constructor
    · intro hlater
      exact if_pos ((h.reached s).mpr hlater)
    · intro hbefore _ hset
      have hset' : (platform.bootOs images.os.os).isSome := by
        rw [hsame]
        exact hset
      have hdone :
          (executeStep platform { images with state := images.state ||| s.bit } memory s).isSome :=
        executeStep_isSome memory s hset'
      rcases Option.isSome_iff_exists.mp hdone with ⟨outcome, houtcome⟩
      refine ⟨{ images with state := images.state ||| s.bit }, outcome, ?_, houtcome, ?_⟩
      · rw [hsame]
      · rw [doBootmSubcommand, if_neg ((h.refused_iff s).mpr hbefore)]
        simp only [houtcome, Option.map_some]

/-!
# A start without the load
-/

def sampleFields : HeaderFields where
  time := 0#32
  load := 0x400000#32
  ep := 0x400004#32
  os := osLinux
  arch := archPpc
  type := typeKernel
  comp := compNone
  name := ascii "Linux" ++ List.replicate 27 0#8
  nameLength := by decide

def sampleMemory : Memory :=
  copyMemory (fun _ => 0#8) 0x100000#32 (legacyImage sampleFields (ascii "kernel"))

def sampleInvocation : Invocation where
  argv := [ascii "start", ascii "100000"]
  verify := true
  loadAddr := 0x100000#32

def sampleImages : Headers :=
  { kernelHeaders sampleMemory true ⟨0x100000#32, 0x100040#32, 6#32⟩ with state := stateStart }

def samplePlatform : Platform where
  gunzip := fun memory _ _ _ => (memory, none)
  bootRamdiskHigh := fun _ _ => 0
  bootOs := fun os => if os = osLinux then some (fun _ _ _ => 0) else none

theorem sampleImages_os : sampleImages.os.os = osLinux := by
  decide +kernel

def sampleStart : Entry := ⟨.start sampleInvocation, sampleMemory, .started 0, sampleImages⟩

theorem sampleStart_step : SubStep samplePlatform noImages sampleStart sampleImages := by
  have hstart : bootmStart sampleMemory sampleInvocation = some (0, sampleImages) := by
    decide +kernel
  refine ⟨rfl, ?_⟩
  show doBootmSubcommand samplePlatform noImages sampleMemory (.start sampleInvocation) =
    some (sampleImages, .started 0)
  rw [doBootmSubcommand, hstart, Option.map_some]

/-- The images behind a `loados`. -/
def loadedImages : Headers := { sampleImages with state := 3 }

def sampleLoados : Entry := ⟨.step .loados, sampleMemory, .loaded .loaded, loadedImages⟩

theorem sampleLoados_step : SubStep samplePlatform sampleImages sampleLoados loadedImages :=
  ⟨rfl, by decide +kernel⟩

theorem subcommands_in_order_loaded :
    doBootmSubcommand samplePlatform loadedImages sampleMemory (.step .loados) =
        some (loadedImages, .refused) ∧
      exists left : Headers, left = { sampleImages with state := left.state } ∧
        doBootmSubcommand samplePlatform loadedImages sampleMemory (.step .go) =
          some (left, .called .go osLinux 0) := by
  have hrun : Run (SubStep samplePlatform) noImages ([] ++ sampleStart :: [sampleLoados])
      loadedImages := .cons sampleStart_step (.cons sampleLoados_step (.nil loadedImages))
  have h := subcommands_in_order hrun rfl (by
    intro entry hentry call
    rw [List.mem_singleton.mp hentry]
    exact SubCommand.noConfusion)
  have hsince : sinceStart [sampleLoados] = [.loados] := by
    decide
  rw [hsince] at h
  constructor
  · exact (h.right.right sampleMemory .loados).left
      ⟨.loados, List.mem_singleton_self _, Nat.le_refl _⟩
  · rcases (h.right.right sampleMemory .go).right
      (fun t ht => by rw [List.mem_singleton.mp ht]; decide)
      (fun entry hentry => by rw [List.mem_singleton.mp hentry]; decide) (by decide +kernel)
        with ⟨left, outcome, hleft, houtcome, hcommand⟩
    refine ⟨left, hleft, ?_⟩
    have hos : left.os.os = osLinux := by
      rw [hleft]
      exact sampleImages_os
    have hcalled : executeStep samplePlatform left sampleMemory .go =
        some (.called .go osLinux 0) := by
      show (samplePlatform.bootOs left.os.os).map _ = _
      rw [hos]
      rfl
    rw [hcommand, Option.some.inj (houtcome.symm.trans hcalled)]

/-- `go` directly behind `start` calls the operating system. -/
theorem go_without_loados :
    ¬ (forall (platform : Platform) (history : List Entry) (images images' : Headers)
        (memory : Memory) (os : Byte) (ret : Int),
      Run (SubStep platform) noImages history images ->
        doBootmSubcommand platform images memory (.step .go) =
          some (images', .called .go os ret) ->
          exists before start after, history = before ++ start :: after ∧
            start.outcome = .started 0 ∧
            (forall entry, entry ∈ after -> forall code, entry.outcome ≠ .started code) ∧
            exists entry, entry ∈ after ∧ entry.command = .step .loados ∧
              entry.outcome = .loaded .loaded) := by
  intro hclaim
  have hgo : doBootmSubcommand samplePlatform sampleImages sampleMemory (.step .go) =
      some ({ sampleImages with state := 129 }, .called .go osLinux 0) := by
    decide +kernel
  rcases hclaim samplePlatform [sampleStart] sampleImages _ sampleMemory osLinux 0
    (.cons sampleStart_step (.nil sampleImages)) hgo with
      ⟨before, start, after, hsplit, _, _, entry, hentry, _⟩
  cases before with
  | nil =>
      rw [List.nil_append, List.cons.injEq] at hsplit
      rw [← hsplit.right] at hentry
      cases hentry
  | cons first before =>
      have hlength := congrArg List.length hsplit
      simp at hlength

end Boot
end Bab750

import Bab750.Command.Quoting
import Bab750.Console.Netboot
import Bab750.Environment.Assignment

/-!
# The boot arguments in the environment

`do_setenv` as a command of the shell, and what the environment holds when the lines of
the command file have been typed at the prompt.
-/

namespace Bab750
namespace Console
namespace Netboot

open Foundation
open Command
open Environment

/-!
# The command
-/

structure Machine (R : Type) where
  /-- What `_do_setenv` works on, unless a call did not return. -/
  board : Option BoardState
  rest : R

variable {R : Type}

def setenvArgs (name : List Byte) (values : List (List Byte)) : Option SetenvArgs :=
  if h : 0#8 ∉ name ∧ (forall v, v ∈ values -> 0#8 ∉ v) ∧
      name.length + (values.map (fun v => v.length + 1)).sum + 2 < 2 ^ 31 then
    some {
      name := ⟨name, h.1⟩
      values := values.pmap CString.mk h.2.1
      addressable := by simpa [List.map_pmap, List.pmap_eq_map] using h.2.2 }
  else none

def setenvManual : Manual where
  name := ascii "setenv"
  usage := chars "set environment variables"
  help := chars ("name value ...\n    - set environment variable 'name' to 'value ...'\n" ++
    "setenv name\n    - delete environment variable 'name'")

/-- `_do_setenv` for the command: its messages go to the console. -/
def callSetenv (m : Machine R) (args : Option SetenvArgs) : Result (Machine R) :=
  match m.board.bind (fun board => args.bind (doSetenv { board with output := [] })) with
  | none => ⟨[], { m with board := none }, 0, false⟩
  | some (rc, board) => ⟨textOf board.output, { m with board := some board }, rc, false⟩

def doSetenvCommand (m : Machine R) (_ : Flags) : List (List Byte) -> Result (Machine R)
  | _ :: name :: values => callSetenv m (setenvArgs name values)
  | _ => ⟨cmdUsage setenvManual, m, 1, false⟩

def setenvEntry : Entry (Machine R) where
  toManual := setenvManual
  maxargs := maxArgs
  repeatable := false
  isBootd := false
  cmd := doSetenvCommand

/-- A name and its values that a call can be made with. -/
structure Storable (pair : List Byte × List (List Byte)) : Prop where
  name : 0#8 ∉ pair.1
  values : forall v, v ∈ pair.2 -> 0#8 ∉ v
  length : pair.1.length + (pair.2.map (fun v => v.length + 1)).sum + 2 < 2 ^ 31

theorem setenvArgs_storable {pair : List Byte × List (List Byte)} (h : Storable pair) :
    exists call, setenvArgs pair.1 pair.2 = some call ∧ call.pair = pair := by
  unfold setenvArgs
  rw [dif_pos ⟨h.name, h.values, h.length⟩]
  refine ⟨_, rfl, ?_⟩
  unfold SetenvArgs.pair SetenvArgs.valueBytes
  dsimp only
  rw [List.map_pmap, List.pmap_eq_map, List.map_id']

/-!
# A sequence of lines
-/

/-- A line that is the call of `setenv` with a name and some values. -/
structure Setting where
  line : Text
  pair : List Byte × List (List Byte)

/-- The line runs `setenv` with its name and its values. -/
def Setting.Runs (set : CommandSet (Machine R)) (setting : Setting) : Prop :=
  forall m flags, (runCommand set m (bytesOf setting.line) flags).2.1 =
    (setenvEntry.cmd m flags
      (ascii "setenv" :: setting.pair.1 :: setting.pair.2)).state

theorem setting_carried {set : CommandSet (Machine R)} {setting : Setting}
    (hruns : setting.Runs set) {call : SetenvArgs}
    (hcall : setenvArgs setting.pair.1 setting.pair.2 = some call) {m : Machine R}
    {board : BoardState} {vars : List Variable} (hboard : m.board = some board)
    (hdata : WellFormed board.data vars) (hname : FreeName call.name.bytes)
    (hfits : Fits vars call) (flags : Flags) :
    exists t, (runCommand set m (bytesOf setting.line) flags).2.1 =
        { m with board := some t } ∧
      WellFormed t.data (assign vars call) := by
  rcases doSetenv_fits (s := { board with output := [] }) hdata hname hfits with
    ⟨t, hdo, hwf⟩
  refine ⟨t, ?_, hwf⟩
  rw [hruns m flags]
  show (callSetenv m (setenvArgs setting.pair.1 setting.pair.2)).state = _
  unfold callSetenv
  rw [hcall, hboard, Option.bind_some, Option.bind_some, hdo]

theorem settings_carried {set : CommandSet (Machine R)} (settings : List Setting)
    (hruns : forall setting, setting ∈ settings -> setting.Runs set)
    (calls : List SetenvArgs)
    (hcalls : settings.map (fun s => setenvArgs s.pair.1 s.pair.2) = calls.map some)
    (hnames : forall call, call ∈ calls -> FreeName call.name.bytes)
    {m : Monitor (Machine R)} {board : BoardState} {vars : List Variable}
    (hboard : m.shell.board = some board) (hdata : WellFormed board.data vars)
    (hfits : FitsAll vars calls) :
    exists t, (ranCommands (commandShell set) m (settings.map Setting.line)).shell =
        { m.shell with board := some t } ∧
      WellFormed t.data (calls.foldl assign vars) := by
  induction settings generalizing m board vars calls with
  | nil =>
      cases calls with
      | nil =>
          refine ⟨board, ?_, hdata⟩
          rw [← hboard]
          rfl
      | cons call calls =>
          cases hcalls
  | cons setting settings ih =>
      cases calls with
      | nil =>
          cases hcalls
      | cons call calls =>
          rcases List.cons.inj hcalls with ⟨hcall, hrest⟩
          rcases setting_carried (hruns setting List.mem_cons_self) hcall hboard hdata
            (hnames call List.mem_cons_self) hfits.left ⟨false, false⟩ with ⟨t, hrun, hwf⟩
          have hshell : (ranCommand (commandShell set) m setting.line).shell =
              { m.shell with board := some t } := hrun
          rcases ih (fun s hs => hruns s (List.mem_cons_of_mem setting hs)) calls hrest
            (fun c hc => hnames c (List.mem_cons_of_mem call hc))
            (show (ranCommand (commandShell set) m setting.line).shell.board = some t by
              rw [hshell]) hwf hfits.right with ⟨u, hu, hdone⟩
          refine ⟨u, ?_, hdone⟩
          show (ranCommands (commandShell set) (ranCommand (commandShell set) m setting.line)
            (settings.map Setting.line)).shell = _
          rw [hu, hshell]

/-!
# Words of the lines
-/

theorem byte_ne {c : Char} (h : c.toNat < 127) {b : Byte} (hb : c.toNat ≠ b.toNat) :
    BitVec.ofNat 8 c.toNat ≠ b := by
  intro heq
  have hnat := congrArg BitVec.toNat heq
  rw [BitVec.toNat_ofNat, Nat.mod_eq_of_lt (by omega)] at hnat
  exact hb hnat

theorem isBlank_byte {c : Char} (hlow : 32 < c.toNat) (hhigh : c.toNat < 127) :
    isBlank (BitVec.ofNat 8 c.toNat) = false := by
  have hspace : c.toNat ≠ (0x20#8 : Byte).toNat := Nat.ne_of_gt hlow
  have htab : c.toNat ≠ (0x09#8 : Byte).toNat :=
    Nat.ne_of_gt (Nat.lt_trans (by decide) hlow)
  unfold isBlank
  rw [beq_eq_false_iff_ne.mpr (byte_ne hhigh hspace),
    beq_eq_false_iff_ne.mpr (byte_ne hhigh htab)]
  rfl

theorem isOrdinary_byte {c : Char} (hhigh : c.toNat < 127) (hescape : c.toNat ≠ 92)
    (hquote : c.toNat ≠ 39) (hsep : c.toNat ≠ 59) (hdollar : c.toNat ≠ 36) :
    isOrdinary (BitVec.ofNat 8 c.toNat) = true := by
  unfold isOrdinary
  simp only [Bool.and_eq_true, bne_iff_ne]
  exact ⟨⟨⟨byte_ne hhigh hescape, byte_ne hhigh hquote⟩, byte_ne hhigh hsep⟩,
    byte_ne hhigh hdollar⟩

theorem bytesOf_ne_nil {text : Text} (h : text ≠ []) : bytesOf text ≠ [] := by
  intro heq
  exact h (List.map_eq_nil_iff.mp heq)

theorem bytesOf_append (first second : Text) :
    bytesOf (first ++ second) = bytesOf first ++ bytesOf second :=
  List.map_append

theorem bytesOf_length (text : Text) : (bytesOf text).length = text.length :=
  List.length_map _

theorem IsUnquoted.bounds {text : Text} (h : IsUnquoted text) {c : Char} (hc : c ∈ text) :
    32 < c.toNat ∧ c.toNat < 127 := by
  rcases h c hc with ⟨⟨hlow, hhigh⟩, hspace, _⟩
  refine ⟨?_, hhigh⟩
  have hne : c.toNat ≠ 32 := fun heq => hspace (Char.toNat_inj.mp heq)
  omega

theorem IsUnquoted.bare {text : Text} (h : IsUnquoted text) (hsome : text ≠ []) :
    BareWord (bytesOf text) := by
  refine ⟨bytesOf_ne_nil hsome, ?_⟩
  intro b hb
  rcases List.mem_map.mp hb with ⟨c, hc, rfl⟩
  rcases h.bounds hc with ⟨hlow, hhigh⟩
  exact isBlank_byte hlow hhigh

theorem bytesOf_noNul {text : Text} (h : forall c, c ∈ text -> IsPlain c) :
    0#8 ∉ bytesOf text := by
  intro hb
  rcases List.mem_map.mp hb with ⟨c, hc, heq⟩
  rcases h c hc with ⟨hlow, hhigh⟩
  have hzero : c.toNat ≠ (0#8 : Byte).toNat :=
    Nat.ne_of_gt (Nat.lt_of_lt_of_le (by decide) hlow)
  exact byte_ne hhigh hzero heq

theorem IsName.word {text : Text} (h : IsName text) (hsome : text ≠ []) :
    PlainWord (bytesOf text) := by
  refine ⟨bytesOf_ne_nil hsome, ?_⟩
  intro b hb
  rcases List.mem_map.mp hb with ⟨c, hc, rfl⟩
  rcases h.unquoted.bounds hc with ⟨hlow, hhigh⟩
  refine ⟨?_, isBlank_byte hlow hhigh⟩
  have hclass : c.toNat ≠ 92 ∧ c.toNat ≠ 39 ∧ c.toNat ≠ 59 ∧ c.toNat ≠ 36 := by
    rcases h c hc with halnum | rfl | rfl | rfl
    · rcases isAlphanum_bounds halnum with hrange | hrange | hrange
      · omega
      · omega
      · omega
    · decide
    · decide
    · decide
  exact isOrdinary_byte hhigh hclass.1 hclass.2.1 hclass.2.2.1 hclass.2.2.2

theorem IsAddress.name {text : Text} (h : IsAddress text) : IsName text := by
  intro c hc
  rcases h c hc with hdigit | hdot
  · refine Or.inl ?_
    unfold Char.isAlphanum
    rw [hdigit, Bool.or_true]
  · exact Or.inr (Or.inl hdot)

theorem joinWords_bytesOf (words : List Text) :
    joinWords (words.map bytesOf) = bytesOf ([' '].intercalate words) := by
  induction words with
  | nil =>
      rfl
  | cons word words ih =>
      cases words with
      | nil =>
          simp [joinWords, List.intercalate]
      | cons next words =>
          have hstep : [' '].intercalate (word :: next :: words) =
              word ++ ' ' :: [' '].intercalate (next :: words) := by
            simp [List.intercalate]
          rw [hstep, bytesOf_append]
          show bytesOf word ++ 0x20#8 :: joinWords ((next :: words).map bytesOf) = _
          rw [ih]
          rfl

theorem joinWords_eq_joinValues (words : List (List Byte)) :
    joinWords words = joinValues words := by
  induction words with
  | nil =>
      rfl
  | cons word words ih =>
      cases words with
      | nil =>
          simp [joinWords, joinValues, List.intercalate]
      | cons next words =>
          show word ++ 0x20#8 :: joinWords (next :: words) = _
          rw [ih]
          simp [joinValues, List.intercalate]

/-!
# The settings of the file
-/

def cleanupSettings : List Setting :=
  cleanupVars.map (fun name => ⟨chars "setenv " ++ name, bytesOf name, []⟩)

def fieldSettings (args : NetbootArgs) : List Setting :=
  [⟨chars "setenv serverip " ++ args.serverIp, ascii "serverip", [bytesOf args.serverIp]⟩,
    ⟨chars "setenv ipaddr " ++ args.clientIp, ascii "ipaddr", [bytesOf args.clientIp]⟩,
    ⟨chars "setenv netmask " ++ args.netmask, ascii "netmask", [bytesOf args.netmask]⟩] ++
    (if args.gateway.isEmpty then []
      else [⟨chars "setenv gatewayip " ++ args.gateway, ascii "gatewayip",
        [bytesOf args.gateway]⟩]) ++
    [⟨chars "setenv bootargs '" ++ buildBootargs args ++ chars "'", ascii "bootargs",
      (bootargWords args).map bytesOf⟩]

theorem settingCommands_lines (args : NetbootArgs) :
    settingCommands args = (cleanupSettings ++ fieldSettings args).map Setting.line := by
  unfold settingCommands cleanupSettings fieldSettings
  cases args.gateway.isEmpty with
  | true =>
      rfl
  | false =>
      rfl

theorem runs_words {set : CommandSet (Machine R)}
    (hset : findCmd set.table (ascii "setenv") = some setenvEntry) {setting : Setting}
    (hplain : forall word, word ∈ setting.pair.1 :: setting.pair.2 -> PlainWord word)
    (hline : bytesOf setting.line =
      joinWords (ascii "setenv" :: setting.pair.1 :: setting.pair.2))
    (hcount : setting.pair.2.length <= 2) (hlength : setting.line.length <= 254) :
    setting.Runs set := by
  have hargs : (ascii "setenv" :: setting.pair.1 :: setting.pair.2).length <= maxArgs := by
    simp only [List.length_cons]
    unfold maxArgs
    omega
  have hcommand : PlainWord (ascii "setenv") := ⟨by decide, by decide⟩
  intro m flags
  rw [hline]
  rw [runCommand_words set m flags ?_ hargs ?_ hset hargs rfl]
  · intro word hword
    rcases List.mem_cons.mp hword with rfl | hword
    · exact hcommand
    · exact hplain word hword
  · rw [← hline, bytesOf_length]
    exact Nat.lt_of_le_of_lt hlength (by decide)

theorem runs_field {set : CommandSet (Machine R)}
    (hset : findCmd set.table (ascii "setenv") = some setenvEntry) {name : List Byte}
    {front field : Text} (hname : PlainWord name) (hfield : IsAddress field)
    (hsome : field ≠ []) (hfront : bytesOf front = ascii "setenv " ++ name ++ [0x20#8])
    (hlength : (front ++ field).length <= 254) :
    Setting.Runs set ⟨front ++ field, name, [bytesOf field]⟩ := by
  refine runs_words hset ?_ ?_ (show 1 <= 2 by decide) hlength
  · intro word hword
    rcases List.mem_cons.mp hword with rfl | hword
    · exact hname
    · rw [List.mem_singleton.mp hword]
      exact hfield.name.word hsome
  · show bytesOf (front ++ field) = ascii "setenv" ++ 0x20#8 :: (name ++ 0x20#8 ::
      bytesOf field)
    rw [bytesOf_append, hfront, List.append_assoc, List.append_assoc]
    rfl

theorem bootargWords_join (args : NetbootArgs) :
    joinWords ((bootargWords args).map bytesOf) = bytesOf (buildBootargs args) := by
  rw [joinWords_bytesOf, ← buildBootargs_words]

theorem bootargWords_bare {args : NetbootArgs} {image : Text} (h : WellTyped args image)
    {word : List Byte} (hword : word ∈ (bootargWords args).map bytesOf) : BareWord word := by
  rcases List.mem_map.mp hword with ⟨text, htext, rfl⟩
  refine (isUnquoted_bootargWords h htext).bare ?_
  simp only [bootargWords, List.mem_cons, List.not_mem_nil, or_false] at htext
  rcases htext with rfl | rfl | rfl | rfl
  · decide
  · decide
  · simp [NetbootArgs.rootWord, chars]
  · simp [NetbootArgs.ipWord, chars]

theorem buildBootargs_quotable {args : NetbootArgs} {image : Text}
    (h : WellTyped args image) : Quotable (bytesOf (buildBootargs args)) := by
  constructor
  case noQuote =>
      intro hquote
      rcases List.mem_map.mp hquote with ⟨c, hc, heq⟩
      rcases buildBootargs_chars h hc with ⟨⟨_, hhigh⟩, hne⟩
      have hnat : c.toNat ≠ singleQuote.toNat := fun hc' => hne (Char.toNat_inj.mp hc')
      exact byte_ne hhigh hnat heq
  case noEscape =>
      -- the text ends with `:off`
      have hlast : (buildBootargs args).getLast? = some 'f' := by
        unfold buildBootargs NetbootArgs.ipConfig
        simp only [List.getLast?_append, Option.some_or,
          show (chars ":off").getLast? = some 'f' from rfl]
      unfold bytesOf
      rw [List.getLast?_map, hlast]
      decide

theorem runs_bootargs {set : CommandSet (Machine R)}
    (hset : findCmd set.table (ascii "setenv") = some setenvEntry) {args : NetbootArgs}
    {image : Text} (h : WellTyped args image)
    (hlength : (chars "setenv bootargs '" ++ buildBootargs args ++ chars "'").length <=
      254) :
    Setting.Runs set ⟨chars "setenv bootargs '" ++ buildBootargs args ++ chars "'",
      ascii "bootargs", (bootargWords args).map bytesOf⟩ := by
  have hline : bytesOf (chars "setenv bootargs '" ++ buildBootargs args ++ chars "'") =
      joinWords [ascii "setenv", ascii "bootargs"] ++
        0x20#8 :: quoted (joinWords ((bootargWords args).map bytesOf)) := by
    rw [bootargWords_join, bytesOf_append, bytesOf_append, List.append_assoc]
    rfl
  intro m flags
  show (runCommand set m (bytesOf (chars "setenv bootargs '" ++ buildBootargs args ++
    chars "'")) flags).2.1 = _
  have hquotable := buildBootargs_quotable h
  rw [← bootargWords_join] at hquotable
  rw [hline, runCommand_quoted set m flags ?_ ?_
    (fun _ hword => bootargWords_bare h hword) hquotable ?_ ?_ hset ?_ rfl]
  · rfl
  · have hwords : forall word, word ∈ [ascii "setenv", ascii "bootargs"] ->
        word ≠ [] ∧ forall c, c ∈ word -> isOrdinary c = true ∧ isBlank c = false := by
      decide
    intro word hword
    exact ⟨(hwords word hword).left, (hwords word hword).right⟩
  · exact List.cons_ne_nil _ _
  · show 6 <= maxArgs
    decide
  · rw [← hline, bytesOf_length]
    exact Nat.lt_of_le_of_lt hlength (by decide)
  · show 6 <= maxArgs
    decide

theorem settings_run {set : CommandSet (Machine R)}
    (hset : findCmd set.table (ascii "setenv") = some setenvEntry) {args : NetbootArgs}
    {image : Text} (h : WellTyped args image) (hsome : Complete args image)
    (hlengths : forall line, line ∈ settingCommands args -> line.length <= 254)
    {setting : Setting} (hsetting : setting ∈ cleanupSettings ++ fieldSettings args) :
    setting.Runs set := by
  have hlength : setting.line.length <= 254 := by
    refine hlengths _ ?_
    rw [settingCommands_lines]
    exact List.mem_map_of_mem hsetting
  have hnames : forall name, name ∈ cleanupVars -> IsName name ∧ name ≠ [] := by
    decide
  have hplain : forall name, name ∈ cleanupVars -> PlainWord (bytesOf name) :=
    fun name hname => (hnames name hname).left.word (hnames name hname).right
  simp only [fieldSettings, List.mem_append, List.mem_cons, List.not_mem_nil,
    or_false] at hsetting
  rcases hsetting with hsetting | ((rfl | rfl | rfl) | hsetting) | rfl
  · rcases List.mem_map.mp hsetting with ⟨name, hname, rfl⟩
    refine runs_words hset ?_ ?_ (show 0 <= 2 by decide) hlength
    · intro word hword
      rw [List.mem_singleton.mp hword]
      exact hplain name hname
    · show bytesOf (chars "setenv " ++ name) = ascii "setenv" ++ 0x20#8 :: bytesOf name
      rw [bytesOf_append]
      rfl
  · have hname := hplain (chars "serverip") (by simp [cleanupVars])
    exact runs_field hset hname h.serverIp hsome.serverIp rfl hlength
  · have hname := hplain (chars "ipaddr") (by simp [cleanupVars])
    exact runs_field hset hname h.clientIp hsome.clientIp rfl hlength
  · have hname := hplain (chars "netmask") (by simp [cleanupVars])
    exact runs_field hset hname h.netmask hsome.netmask rfl hlength
  · split at hsetting
    case isTrue =>
        exact absurd hsetting List.not_mem_nil
    case isFalse hgateway =>
        cases List.mem_singleton.mp hsetting
        have hname := hplain (chars "gatewayip") (by simp [cleanupVars])
        refine runs_field hset hname h.gateway ?_ rfl hlength
        intro heq
        exact hgateway (by rw [heq]; rfl)
  · exact runs_bootargs hset h hlength

theorem storable_of_join {name : List Byte} {values : List (List Byte)} {n : Nat}
    (hname : 0#8 ∉ name ∧ name.length <= 254) (hvalues : values ≠ [])
    (hnul : forall v, v ∈ values -> 0#8 ∉ v) (hlength : (joinValues values).length <= n)
    (hn : n <= 254) : Storable (name, values) := by
  refine ⟨hname.left, hnul, ?_⟩
  show name.length + (values.map (fun v => v.length + 1)).sum + 2 < 2 ^ 31
  rw [← joinValues_length hvalues]
  have hpow : 1000 < 2 ^ 31 := by decide
  omega

theorem joinValues_singleton (value : List Byte) : joinValues [value] = value := by
  simp [joinValues, List.intercalate]

theorem settings_storable {args : NetbootArgs} {image : Text} (h : WellTyped args image)
    (hlengths : forall line, line ∈ settingCommands args -> line.length <= 254)
    {setting : Setting} (hsetting : setting ∈ cleanupSettings ++ fieldSettings args) :
    Storable setting.pair ∧ FreeName setting.pair.1 := by
  have hlength : setting.line.length <= 254 := by
    refine hlengths _ ?_
    rw [settingCommands_lines]
    exact List.mem_map_of_mem hsetting
  have hnames : forall name, name ∈ cleanupVars ->
      (0#8 ∉ bytesOf name ∧ (bytesOf name).length <= 254) ∧ FreeName (bytesOf name) := by
    decide
  have hfield : forall (name : Text) {front field : Text}, name ∈ cleanupVars ->
      IsUnquoted field -> (front ++ field).length <= 254 ->
        Storable (bytesOf name, [bytesOf field]) ∧ FreeName (bytesOf name) := by
    intro name front field hname hfield hlength
    refine ⟨storable_of_join (hnames name hname).left (List.cons_ne_nil _ _) ?_
      (Nat.le_refl _) ?_, (hnames name hname).right⟩
    · intro v hv
      rw [List.mem_singleton.mp hv]
      exact bytesOf_noNul (fun _ hc => hfield.plain hc)
    · rw [joinValues_singleton, bytesOf_length]
      rw [List.length_append] at hlength
      omega
  simp only [fieldSettings, List.mem_append, List.mem_cons, List.not_mem_nil,
    or_false] at hsetting
  rcases hsetting with hsetting | ((rfl | rfl | rfl) | hsetting) | rfl
  · rcases List.mem_map.mp hsetting with ⟨name, hname, rfl⟩
    rcases hnames name hname with ⟨⟨hnul, hshort⟩, hfree⟩
    refine ⟨⟨hnul, fun v hv => absurd hv List.not_mem_nil, ?_⟩, hfree⟩
    show (bytesOf name).length + 0 + 2 < 2 ^ 31
    omega
  · exact hfield (chars "serverip") (by decide) h.serverIp.unquoted hlength
  · exact hfield (chars "ipaddr") (by decide) h.clientIp.unquoted hlength
  · exact hfield (chars "netmask") (by decide) h.netmask.unquoted hlength
  · split at hsetting
    case isTrue =>
        exact absurd hsetting List.not_mem_nil
    case isFalse =>
        cases List.mem_singleton.mp hsetting
        exact hfield (chars "gatewayip") (by decide) h.gateway.unquoted hlength
  · rcases hnames (chars "bootargs") (by decide) with ⟨hname, hfree⟩
    refine ⟨storable_of_join hname (List.cons_ne_nil _ _) ?_ (Nat.le_refl _) ?_, hfree⟩
    · intro v hv
      rcases List.mem_map.mp hv with ⟨word, hword, rfl⟩
      exact bytesOf_noNul (fun _ hc => (isUnquoted_bootargWords h hword).plain hc)
    · rw [← joinWords_eq_joinValues, bootargWords_join, bytesOf_length]
      simp only [List.length_append] at hlength
      omega

theorem exists_calls (settings : List Setting)
    (h : forall setting, setting ∈ settings -> Storable setting.pair) :
    exists calls : List SetenvArgs,
      settings.map (fun s => setenvArgs s.pair.1 s.pair.2) = calls.map some ∧
        calls.map SetenvArgs.pair = settings.map Setting.pair := by
  induction settings with
  | nil =>
      exact ⟨[], rfl, rfl⟩
  | cons setting settings ih =>
      rcases ih (fun s hs => h s (List.mem_cons_of_mem setting hs)) with
        ⟨calls, hcalls, hpairs⟩
      rcases setenvArgs_storable (h setting List.mem_cons_self) with ⟨call, hcall, hpair⟩
      refine ⟨call :: calls, ?_, ?_⟩
      · rw [List.map_cons, hcall, hcalls]
        rfl
      · rw [List.map_cons, hpair, hpairs]
        rfl

/-!
# What arrives
-/

def cleanedVariables (vars : List Variable) : List Variable :=
  (cleanupVars.map bytesOf).foldl (fun rest name => removeVariable name rest) vars

def HasRoom (vars : List Variable) (args : NetbootArgs) : Prop :=
  (encodeVariables (cleanedVariables vars)).length +
    ((fieldSettings args).map (fun setting => extent setting.pair)).sum < envSize

/-- The variables of a network boot have the values of the namespace. -/
structure Arrived (args : NetbootArgs) (board : BoardState) : Prop where
  bootargs : getenvString (dataChar board.data) (ascii "bootargs") =
    some (some (bytesOf (buildBootargs args)))
  serverip : getenvString (dataChar board.data) (ascii "serverip") =
    some (some (bytesOf args.serverIp))
  ipaddr : getenvString (dataChar board.data) (ascii "ipaddr") =
    some (some (bytesOf args.clientIp))
  netmask : getenvString (dataChar board.data) (ascii "netmask") =
    some (some (bytesOf args.netmask))
  gatewayip : getenvString (dataChar board.data) (ascii "gatewayip") =
    some (if args.gateway.isEmpty then none else some (bytesOf args.gateway))

theorem lastAssigned_settings (args : NetbootArgs) :
    lastAssigned (ascii "bootargs")
        ((cleanupSettings ++ fieldSettings args).map Setting.pair) =
      some (some (bytesOf (buildBootargs args))) ∧
    lastAssigned (ascii "serverip")
        ((cleanupSettings ++ fieldSettings args).map Setting.pair) =
      some (some (bytesOf args.serverIp)) ∧
    lastAssigned (ascii "ipaddr")
        ((cleanupSettings ++ fieldSettings args).map Setting.pair) =
      some (some (bytesOf args.clientIp)) ∧
    lastAssigned (ascii "netmask")
        ((cleanupSettings ++ fieldSettings args).map Setting.pair) =
      some (some (bytesOf args.netmask)) ∧
    lastAssigned (ascii "gatewayip")
        ((cleanupSettings ++ fieldSettings args).map Setting.pair) =
      some (if args.gateway.isEmpty then none else some (bytesOf args.gateway)) := by
  rw [← bootargWords_join, joinWords_eq_joinValues,
    ← joinValues_singleton (bytesOf args.serverIp),
    ← joinValues_singleton (bytesOf args.clientIp),
    ← joinValues_singleton (bytesOf args.netmask),
    ← joinValues_singleton (bytesOf args.gateway)]
  unfold fieldSettings
  cases args.gateway.isEmpty with
  | true =>
      exact ⟨rfl, rfl, rfl, rfl, rfl⟩
  | false =>
      exact ⟨rfl, rfl, rfl, rfl, rfl⟩

theorem settings_arrive {set : CommandSet (Machine R)}
    (hset : findCmd set.table (ascii "setenv") = some setenvEntry) {args : NetbootArgs}
    {image : Text} (h : WellTyped args image) (hsome : Complete args image)
    (hlengths : forall line, line ∈ settingCommands args -> line.length <= 254)
    {m : Monitor (Machine R)} {board : BoardState} {vars : List Variable}
    (hboard : m.shell.board = some board) (hdata : WellFormed board.data vars)
    (hroom : HasRoom vars args) :
    exists t, (ranCommands (commandShell set) m (settingCommands args)).shell =
        { m.shell with board := some t } ∧
      Arrived args t := by
  have hstorable := fun setting hsetting =>
    @settings_storable _ _ h hlengths setting hsetting
  rcases exists_calls cleanupSettings
    (fun s hs => (hstorable s (List.mem_append_left _ hs)).left) with
    ⟨deletions, hdeletions, hdelPairs⟩
  rcases exists_calls (fieldSettings args)
    (fun s hs => (hstorable s (List.mem_append_right _ hs)).left) with
    ⟨fields, hfields, hfieldPairs⟩
  have hpairs : (deletions ++ fields).map SetenvArgs.pair =
      (cleanupSettings ++ fieldSettings args).map Setting.pair := by
    rw [List.map_append, hdelPairs, hfieldPairs, List.map_append]
  have hnames : forall call, call ∈ deletions ++ fields -> FreeName call.name.bytes := by
    intro call hcall
    have hmem := List.mem_map_of_mem (f := SetenvArgs.pair) hcall
    rw [hpairs] at hmem
    rcases List.mem_map.mp hmem with ⟨setting, hsetting, heq⟩
    have hfree := (hstorable setting hsetting).right
    rw [heq] at hfree
    exact hfree
  have hempty : forall call, call ∈ deletions ->
      FreeName call.name.bytes ∧ call.valueBytes = [] := by
    intro call hcall
    refine ⟨hnames call (List.mem_append_left _ hcall), ?_⟩
    have hmem := List.mem_map_of_mem (f := SetenvArgs.pair) hcall
    rw [hdelPairs] at hmem
    rcases List.mem_map.mp hmem with ⟨setting, hsetting, heq⟩
    rcases List.mem_map.mp hsetting with ⟨name, _, rfl⟩
    exact (congrArg Prod.snd heq).symm
  rcases assigns_deletions vars deletions hempty with ⟨hfitsFirst, hcleaned⟩
  have hclean : deletions.foldl assign vars = cleanedVariables vars := by
    rw [hcleaned]
    have hdel : deletions.map (fun call => call.name.bytes) = cleanupVars.map bytesOf := by
      have hfst := congrArg (List.map Prod.fst) hdelPairs
      rw [List.map_map, List.map_map] at hfst
      exact hfst
    rw [hdel]
    rfl
  have hfits : FitsAll vars (deletions ++ fields) := by
    rw [fitsAll_append]
    refine ⟨hfitsFirst, fitsAll_of_room _ fields ?_⟩
    have hsum : fields.map (fun call => extent call.pair) =
        (fieldSettings args).map (fun setting => extent setting.pair) := by
      have hmap := congrArg (List.map extent) hfieldPairs
      rw [List.map_map, List.map_map] at hmap
      exact hmap
    rw [hclean, hsum]
    exact hroom
  rcases settings_carried (cleanupSettings ++ fieldSettings args)
    (fun s hs => settings_run hset h hsome hlengths hs) (deletions ++ fields)
    (by rw [List.map_append, hdeletions, hfields, List.map_append]) hnames hboard hdata
    hfits with ⟨t, ht, hwf⟩
  refine ⟨t, ?_, ?_⟩
  · rw [settingCommands_lines]
    exact ht
  · have hlookup : forall (name : List Byte) (value : Option (List Byte)),
        0#8 ∉ name ∧ equalsSign ∉ name ->
          lastAssigned name ((cleanupSettings ++ fieldSettings args).map Setting.pair) =
            some value ->
          getenvString (dataChar t.data) name = some value := by
      intro name value hname hlast
      rw [getenvString_wellFormed hwf hname.left, nameOf_eq_self hname.right,
        lookupVariable_assigns name vars _ hnames, hpairs, hlast]
      rfl
    rcases lastAssigned_settings args with ⟨hboot, hserver, hip, hmask, hgateway⟩
    exact ⟨hlookup _ _ (by decide) hboot, hlookup _ _ (by decide) hserver,
      hlookup _ _ (by decide) hip, hlookup _ _ (by decide) hmask,
      hlookup _ _ (by decide) hgateway⟩

def typedFlags : Flags := ⟨false, false⟩

theorem ranCommand_words {S : Type} {set : CommandSet S} {m : Monitor S} {line : Text}
    {name : List Byte} {rest : List (List Byte)} {entry : Entry S}
    (hline : bytesOf line = joinWords (name :: rest))
    (hplain : forall word, word ∈ name :: rest -> PlainWord word)
    (hlength : line.length <= 254) (hargs : (name :: rest).length <= maxArgs)
    (hentry : findCmd set.table name = some entry)
    (hmax : (name :: rest).length <= entry.maxargs) (hbootd : entry.isBootd = false) :
    (ranCommand (commandShell set) m line).shell =
      (entry.cmd m.shell typedFlags (name :: rest)).state := by
  have hfits : line.length < cbSize := Nat.lt_of_le_of_lt hlength (by decide)
  show ((commandShell set).runCommand m.shell line false).2.1 = _
  rw [commandShell_words set m.shell hline hplain hargs hfits hentry hmax hbootd]
  rfl

theorem ranCommand_tftpboot {S : Type} {set : CommandSet S} {m : Monitor S}
    {args : NetbootArgs} {image : Text} (h : WellTyped args image)
    (hsome : Complete args image) (hlength : (tftpbootCommand args image).length <= 254)
    {entry : Entry S} (hentry : findCmd set.table (ascii "tftpboot") = some entry)
    (hmax : 3 <= entry.maxargs) (hbootd : entry.isBootd = false) :
    (ranCommand (commandShell set) m (tftpbootCommand args image)).shell =
      (entry.cmd m.shell typedFlags
        [ascii "tftpboot", bytesOf args.kernelLoadAddress, bytesOf image]).state := by
  refine ranCommand_words ?_ ?_ hlength (show 3 <= maxArgs by decide) hentry hmax hbootd
  · unfold tftpbootCommand
    rw [bytesOf_append, bytesOf_append, bytesOf_append, List.append_assoc,
      List.append_assoc]
    rfl
  · intro word hword
    simp only [List.mem_cons, List.not_mem_nil, or_false] at hword
    rcases hword with rfl | rfl | rfl
    · exact ⟨by decide, by decide⟩
    · exact h.loadAddress.word hsome.loadAddress
    · exact h.image.word hsome.image

theorem ranCommand_bootm {S : Type} {set : CommandSet S} {m : Monitor S}
    {args : NetbootArgs} {image : Text} (h : WellTyped args image)
    (hsome : Complete args image) (hlength : (bootmCommand args).length <= 254)
    {entry : Entry S} (hentry : findCmd set.table (ascii "bootm") = some entry)
    (hmax : 2 <= entry.maxargs) (hbootd : entry.isBootd = false) :
    (ranCommand (commandShell set) m (bootmCommand args)).shell =
      (entry.cmd m.shell typedFlags
        [ascii "bootm", bytesOf args.kernelLoadAddress]).state := by
  refine ranCommand_words ?_ ?_ hlength (show 2 <= maxArgs by decide) hentry hmax hbootd
  · unfold bootmCommand
    rw [bytesOf_append]
    rfl
  · intro word hword
    simp only [List.mem_cons, List.not_mem_nil, or_false] at hword
    rcases hword with rfl | rfl
    · exact ⟨by decide, by decide⟩
    · exact h.loadAddress.word hsome.loadAddress

/--
The file is read back as it was written, and its lines leave the values of the namespace in
the environment.  The download and the start of the kernel then run with the words of their
lines, the download on that environment, and the start on what the download leaves.
-/
theorem boot_arguments_arrive (set : CommandSet (Machine R))
    (hset : findCmd set.table (ascii "setenv") = some setenvEntry) {args : NetbootArgs}
    {image : Text} (h : WellTyped args image) (hsome : Complete args image)
    (hlengths : forall line, line ∈ ubootCommands args image -> line.length <= 254)
    (path : Text) {m : Monitor (Machine R)} (hline : m.line = []) {board : BoardState}
    {vars : List Variable} (hboard : m.shell.board = some board)
    (hdata : WellFormed board.data vars) (hroom : HasRoom vars args) :
    Linux.loadCommandsFile path (some (writeUbootCommands args image)) =
        .ok (ubootCommands args image) ∧
      (ubootCommands args image).getLast? = some (bootmCommand args) ∧
      exists t,
        (mainLoop (commandShell set) m (commandLines (settingCommands args))).2.shell =
            { m.shell with board := some t } ∧
          Arrived args t ∧
          forall tftpboot bootm,
            findCmd set.table (ascii "tftpboot") = some tftpboot ->
            3 <= tftpboot.maxargs -> tftpboot.isBootd = false ->
            findCmd set.table (ascii "bootm") = some bootm ->
            2 <= bootm.maxargs -> bootm.isBootd = false ->
              (mainLoop (commandShell set) m
                  (commandLines (ubootCommands args image))).2.shell =
                (bootm.cmd
                  (tftpboot.cmd { m.shell with board := some t } typedFlags
                    [ascii "tftpboot", bytesOf args.kernelLoadAddress,
                      bytesOf image]).state
                  typedFlags [ascii "bootm", bytesOf args.kernelLoadAddress]).state := by
  have hfile := fun line hline => @fileLine_ubootCommands args image h hsome line hline
  have hplain : forall line, line ∈ ubootCommands args image -> PlainCommand line :=
    fun line hline =>
      ⟨(hfile line hline).chars, hlengths line hline, (hfile line hline).nonempty⟩
  refine ⟨loadCommandsFile_written h hsome path, ?_, ?_⟩
  · unfold ubootCommands
    simp
  · rcases settings_arrive hset h hsome
      (fun line hline => hlengths line (List.mem_append_left _ hline)) hboard hdata hroom with
      ⟨t, ht, harrived⟩
    refine ⟨t, ?_, harrived, ?_⟩
    · rw [mainLoop_commands _ hline _ (fun line hline => hplain line
        (List.mem_append_left _ hline))]
      exact ht
    · intro tftpboot bootm htftp htftpMax htftpBootd hbootm hbootmMax hbootmBootd
      have hlast : forall line, line ∈ [tftpbootCommand args image, bootmCommand args] ->
          line.length <= 254 :=
        fun line hline => hlengths line (List.mem_append_right _ hline)
      rw [mainLoop_commands _ hline _ hplain]
      unfold ubootCommands ranCommands
      rw [List.foldl_append]
      show (ranCommand (commandShell set) (ranCommand (commandShell set)
        (ranCommands (commandShell set) m (settingCommands args))
          (tftpbootCommand args image)) (bootmCommand args)).shell = _
      rw [ranCommand_bootm h hsome (hlast _ (by simp)) hbootm hbootmMax hbootmBootd,
        ranCommand_tftpboot h hsome (hlast _ (by simp)) htftp htftpMax htftpBootd, ht]

/-- The namespace of the defaults, with an escape, a separator, and a macro in its path. -/
def sampleNamespace : NetbootArgs where
  serverIp := chars "192.168.1.101"
  clientIp := chars "192.168.1.123"
  netmask := chars "255.255.255.0"
  gateway := []
  nfsroot := chars "/a\\$(b);#c"
  interface := chars "eth0"
  kernelLoadAddress := chars "2000000"

def sampleImage : Text := chars "adelie-bab750-linux.cuImage"

/-- No line of the sample is too long for the monitor. -/
example : (ubootCommands sampleNamespace sampleImage).all (fun line => line.length <= 254) =
    true := by
  decide +kernel

theorem sampleNamespace_wellTyped : WellTyped sampleNamespace sampleImage :=
  ⟨by decide, by decide, by decide, by decide, by decide, by decide, by decide, by decide⟩

def setenvOnly : CommandSet (Machine Unit) where
  table := [setenvEntry]
  getenv := fun _ _ => none
  front := 0#8

theorem boot_arguments_arrive_sample :
    exists t,
      (mainLoop (commandShell setenvOnly) (firstMonitor ⟨some sampleBoard, ()⟩)
          (commandLines (settingCommands sampleNamespace))).2.shell = ⟨some t, ()⟩ ∧
        Arrived sampleNamespace t := by
  have harrive := boot_arguments_arrive setenvOnly rfl sampleNamespace_wellTyped
    ⟨by decide, by decide, by decide, by decide, by decide⟩ (by decide +kernel) []
    (m := firstMonitor ⟨some sampleBoard, ()⟩) rfl rfl sampleBoard_wellFormed
    (by unfold HasRoom; decide +kernel)
  rcases harrive with ⟨_, _, t, ht, harrived, _⟩
  exact ⟨t, ht, harrived⟩

def NotReadBack (args : NetbootArgs) (image : Text) : Prop :=
  WellTyped args image ∧
    (forall line, line ∈ ubootCommands args image -> line.length <= 254) ∧
      Linux.loadCommandsFile [] (some (writeUbootCommands args image)) ≠
        .ok (ubootCommands args image)

/-- A field that stands at the end of a line is lost with its space when it is empty. -/
theorem empty_field_not_read_back :
    NotReadBack { sampleNamespace with serverIp := [] } sampleImage ∧
      NotReadBack { sampleNamespace with clientIp := [] } sampleImage ∧
      NotReadBack { sampleNamespace with netmask := [] } sampleImage ∧
      NotReadBack { sampleNamespace with kernelLoadAddress := [] } sampleImage ∧
      NotReadBack sampleNamespace [] := by
  have h := sampleNamespace_wellTyped
  have hnone : IsAddress [] := by
    intro c hc
    cases hc
  have hunnamed : IsName [] := by
    intro c hc
    cases hc
  refine ⟨⟨{ h with serverIp := hnone }, by decide +kernel, by decide +kernel⟩,
    ⟨{ h with clientIp := hnone }, by decide +kernel, by decide +kernel⟩,
    ⟨{ h with netmask := hnone }, by decide +kernel, by decide +kernel⟩,
    ⟨{ h with loadAddress := hunnamed }, by decide +kernel, by decide +kernel⟩,
    ⟨{ h with image := hunnamed }, by decide +kernel, by decide +kernel⟩⟩

example : Linux.loadCommandsFile [] (some (writeUbootCommands sampleNamespace sampleImage)) =
    .ok (ubootCommands sampleNamespace sampleImage) := by
  decide +kernel

end Netboot
end Console
end Bab750

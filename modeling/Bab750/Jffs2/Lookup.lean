import Bab750.Jffs2.Listed
import Bab750.Jffs2.Log
import Mathlib.Data.List.TakeWhile

/-!
# Names, paths and links

The functions that go through the lists give what the log says, whatever the read buffer holds. A
name that was removed is still found as long as an older entry of it is on the flash.
-/

namespace Bab750
namespace Jffs2

open Foundation

structure SoundDirent (node : View) : Prop where
  magic : node.magic = magicBitmask
  nodetype : node.nodetype = nodetypeDirent
  fits : rawDirentSize + node.nsize ≤ node.totlen

/-- The fields of a fragment lie inside of its node. -/
structure SoundInode (node : View) : Prop where
  magic : node.magic = magicBitmask
  fits : rawInodeSize ≤ node.totlen

/-- The text of a link is in its node, as it is when it is not compressed. -/
def PlainLinks (flash : Memory) (lists : Lists) : Prop :=
  forall b c, b ∈ lists.dir -> c ∈ lists.frag ->
    (flashAt flash b.offset).direntType = dtLnk ->
    (flashAt flash c.offset).ino = (flashAt flash b.offset).direntIno ->
    rawInodeSize + (flashAt flash c.offset).dsize ≤ (flashAt flash c.offset).totlen

structure Sound (flash : Memory) (lists : Lists) : Prop where
  dir : forall b, b ∈ lists.dir -> SoundDirent (flashAt flash b.offset)
  frag : forall b, b ∈ lists.frag -> SoundInode (flashAt flash b.offset)

theorem nodePtr_agree {flash : Memory} {off : BitVec 32}
    (h : (flashAt flash off).magic = magicBitmask) (readbuf : ReadBuf) :
    Agree (flashAt flash off).totlen (nodePtr flash off (nodeMem flash off readbuf))
      (flashAt flash off) := by
  intro i hi
  cases readbuf with
  | none => rfl
  | some buf =>
      show (if i < (if (flashAt flash off).magic = magicBitmask then (flashAt flash off).totlen
        else unknownNodeSize) then flashAt flash off i else buf i) = flashAt flash off i
      rw [if_pos h, if_pos hi]

/-!
# Directories
-/

section

variable {flash : Memory}

theorem SoundDirent.same {b : BNode} (h : SoundDirent (flashAt flash b.offset))
    (readbuf : ReadBuf) :
    direntAt flash b = direntOf (nodePtr flash b.offset (nodeMem flash b.offset readbuf)) := by
  have hagree := ((nodePtr_agree h.magic readbuf).mono h.fits).symm
  have hsize : rawDirentSize = 40 := rfl
  unfold direntAt direntOf View.pino View.direntVersion View.direntIno View.direntType
  rw [hagree.word (by omega), hagree.word (by omega), hagree.word (by omega),
    hagree 29 (by omega), hagree.name (Nat.le_refl _)]

theorem findTest_iff (node : View) (name : List Byte) (pino : BitVec 32) :
    (pino = node.pino ∧ name.length = node.nsize ∧ node.direntIno ≠ 0#32 ∧
      node.bytes rawDirentSize name.length = name) <->
    ((direntOf node).pino = pino ∧ (direntOf node).name = name ∧
      (direntOf node).ino ≠ 0#32) := by
  unfold direntOf View.name
  dsimp only
  constructor
  · intro h
    rcases h with ⟨hpino, hlength, hino, hname⟩
    rw [hlength] at hname
    exact ⟨hpino.symm, hname, hino⟩
  · intro h
    rcases h with ⟨hpino, hname, hino⟩
    have hlength : name.length = node.nsize := by
      rw [← hname]
      simp [View.bytes]
    rw [hlength]
    exact ⟨hpino.symm, rfl, hino, hname⟩

/-- The variables of the loop say what the newest entry is. -/
structure Finds (best : Option Dirent) (st : Finding) : Prop where
  inode : st.inode = (best.map Dirent.ino).getD 0
  version : BestKey Dirent.version best st.version.toNat

theorem findStep_finds (name : List Byte) (pino : BitVec 32) {b : BNode} {st : Finding}
    {best : Option Dirent} (hsound : SoundDirent (flashAt flash b.offset))
    (h : Finds best st) :
    Finds (if (direntAt flash b).pino = pino ∧ (direntAt flash b).name = name ∧
        (direntAt flash b).ino ≠ 0#32 then newer Dirent.version best (direntAt flash b)
      else best) (findStep flash name pino st b) := by
  unfold findStep
  rw [hsound.same st.readbuf]
  dsimp only
  generalize nodePtr flash b.offset (nodeMem flash b.offset st.readbuf) = jDir
  by_cases hmatch : (direntOf jDir).pino = pino ∧ (direntOf jDir).name = name ∧
      (direntOf jDir).ino ≠ 0#32
  · rcases (findTest_iff jDir name pino).mpr hmatch with ⟨hpino, hlength, hino, hname⟩
    rw [if_pos hmatch]
    by_cases hold : (direntOf jDir).version < st.version.toNat
    · rw [h.version.old hold, if_neg (fun hall => hall.2.2.2.2 hold)]
      exact ⟨h.inode, h.version⟩
    · rw [h.version.new hold, if_pos ⟨hpino, hlength, hino, hname, hold⟩]
      exact ⟨rfl, rfl⟩
  · rw [if_neg hmatch, if_neg (fun hall => hmatch ((findTest_iff jDir name pino).mp
      ⟨hall.1, hall.2.1, hall.2.2.1, hall.2.2.2.1⟩))]
    exact ⟨h.inode, h.version⟩

variable {lists : Lists}

theorem findInode_eq (hsound : Sound flash lists) (name : List Byte)
    (pino : BitVec 32) (readbuf : ReadBuf) :
    (findInode flash lists name pino readbuf).1 =
      (logOf flash lists).find name pino := by
  have hfinds : Finds none ⟨readbuf, 0#32, 0#32⟩ := ⟨rfl, rfl⟩
  exact (foldl_newest Dirent.version (direntAt flash) _ Finds (findStep flash name pino)
    (fun b hb _ _ h => findStep_finds name pino (hsound.dir b hb) h) hfinds).inode

theorem splitOn_slash {tmp : List Byte} (h : slash ∈ tmp) :
    tmp.splitOn slash = tmp.takeWhile (fun c => c ≠ slash) ::
      (tmp.dropWhile (fun c => c ≠ slash)).tail.splitOn slash := by
  have hparts := List.takeWhile_append_dropWhile (p := fun c => decide (c ≠ slash)) (l := tmp)
  have hfirst : slash ∉ tmp.takeWhile (fun c => c ≠ slash) := by
    intro hmem
    have hne := List.mem_takeWhile_imp hmem
    simp at hne
  cases hrest : tmp.dropWhile (fun c => c ≠ slash) with
  | nil =>
      rw [hrest, List.append_nil] at hparts
      rw [hparts] at hfirst
      exact absurd h hfirst
  | cons c rest =>
      have hc : c = slash := by
        have hhead := List.head?_dropWhile_not (fun c => decide (c ≠ slash)) tmp
        rw [hrest] at hhead
        simpa using hhead
      rw [hrest, hc] at hparts
      conv_lhs => rw [← hparts]
      exact List.splitOn_append_cons_self_of_not_mem hfirst rest

theorem searchLoop_eq (hsound : Sound flash lists) (fuel : Nat) :
    forall (tmp : List Byte) (pino : BitVec 32) (readbuf : ReadBuf), tmp.length < fuel ->
      (searchLoop flash lists fuel tmp pino readbuf).1 =
        (logOf flash lists).walk (tmp.splitOn slash) pino := by
  induction fuel with
  | zero => exact fun tmp _ _ h => absurd h (Nat.not_lt_zero _)
  | succ fuel ih =>
      intro tmp pino readbuf hlength
      unfold searchLoop
      by_cases hslash : slash ∈ tmp
      · have hfind := findInode_eq hsound (tmp.takeWhile (fun c => c ≠ slash)) pino
          readbuf
        have hne := List.splitOn_ne_nil slash (tmp.dropWhile (fun c => c ≠ slash)).tail
        rw [if_pos hslash, splitOn_slash hslash]
        dsimp only
        rw [hfind]
        rcases List.exists_cons_of_ne_nil hne with ⟨first, others, hothers⟩
        rw [hothers]
        unfold Log.walk
        split
        case isTrue hzero => rw [hfind, hzero]
        case isFalse hsome =>
            rw [ih _ _ _ (by
              have hdrop : (tmp.dropWhile (fun c => c ≠ slash)).length ≤ tmp.length :=
                (List.dropWhile_sublist _).length_le
              have hpos := List.length_pos_of_mem hslash
              rw [List.length_tail]
              omega), hothers]
      · rw [if_neg hslash, List.splitOn_eq_singleton hslash]
        exact findInode_eq hsound tmp pino readbuf

theorem searchInode_eq (hsound : Sound flash lists)
    (path : List Byte) (pino : BitVec 32) (readbuf : ReadBuf) :
    (searchInode flash lists path pino readbuf).map Prod.fst =
      (logOf flash lists).search path pino := by
  unfold searchInode Log.search
  dsimp only
  split
  · rw [Option.map_some, searchLoop_eq hsound _ _ _ _ (Nat.lt_succ_self _)]
  · rfl

/-!
# Links
-/

/-- The variables of the first loop say what the newest entry of the inode is. -/
structure Resolves (best : Option Dirent) (st : Resolving) : Prop where
  type : st.type = (best.map Dirent.type).getD 0#8
  ino : st.ino = (best.map Dirent.ino).getD 0#32
  pino : st.pino = (best.map Dirent.pino).getD 0#32
  version : BestKey Dirent.version best st.version.toNat

theorem resolveStep_resolves (ino : BitVec 32) {b : BNode} {st : Resolving}
    {best : Option Dirent} (hsound : SoundDirent (flashAt flash b.offset))
    (h : Resolves best st) :
    Resolves (if (direntAt flash b).ino = ino then newer Dirent.version best (direntAt flash b)
      else best) (resolveStep flash ino st b) := by
  unfold resolveStep
  rw [hsound.same st.readbuf]
  dsimp only
  generalize nodePtr flash b.offset (nodeMem flash b.offset st.readbuf) = jDir
  by_cases hmatch : (direntOf jDir).ino = ino
  · rw [if_pos hmatch]
    by_cases hold : (direntOf jDir).version < st.version.toNat
    · rw [h.version.old hold, if_neg (fun hall => hall.2 hold)]
      exact ⟨h.type, h.ino, h.pino, h.version⟩
    · rw [h.version.new hold, if_pos ⟨hmatch.symm, hold⟩]
      exact ⟨rfl, rfl, rfl, rfl⟩
  · rw [if_neg hmatch, if_neg (fun hall => hmatch hall.1.symm)]
    exact ⟨h.type, h.ino, h.pino, h.version⟩

theorem linkText_eq (ino : BitVec 32) (frag : List BNode)
    (hsound : forall b, b ∈ frag -> SoundInode (flashAt flash b.offset))
    (hplain : forall b, b ∈ frag -> (flashAt flash b.offset).ino = ino ->
      rawInodeSize + (flashAt flash b.offset).dsize ≤ (flashAt flash b.offset).totlen) :
    forall readbuf : ReadBuf, (linkText flash ino frag readbuf).1 =
      ((frag.map (fragmentAt flash)).filter (fun f => f.ino = ino)).head?.map
        (fun f => (f.dsize, f.text)) := by
  have hsize : rawInodeSize = 68 := rfl
  induction frag with
  | nil => exact fun _ => rfl
  | cons b frag ih =>
      intro readbuf
      have hb := hsound b List.mem_cons_self
      have hfits := hb.fits
      have hagree := nodePtr_agree hb.magic readbuf
      have hino : (nodePtr flash b.offset (nodeMem flash b.offset readbuf)).ino =
          (fragmentAt flash b).ino := hagree.word (by omega)
      unfold linkText
      dsimp only
      rw [hino, List.map_cons, List.filter_cons]
      simp only [decide_eq_true_eq]
      by_cases hmatch : (fragmentAt flash b).ino = ino
      · have hdsize : (nodePtr flash b.offset (nodeMem flash b.offset readbuf)).dsize =
            (flashAt flash b.offset).dsize := congrArg BitVec.toNat (hagree.word (by omega))
        have hbytes := hagree.bytes (hplain b List.mem_cons_self hmatch)
        rw [if_pos hmatch, if_pos hmatch, hdsize, hbytes]
        rfl
      · rw [if_neg hmatch, if_neg hmatch]
        exact ih (fun c hc => hsound c (List.mem_cons_of_mem b hc))
          (fun c hc => hplain c (List.mem_cons_of_mem b hc)) _

theorem resolveInode_eq (hsound : Sound flash lists) (hlinks : PlainLinks flash lists)
    (stack : List Byte) (ino : BitVec 32) (readbuf : ReadBuf) :
    (resolveInode flash lists stack ino readbuf).map Prod.fst =
      (logOf flash lists).resolve stack ino := by
  have hstart : Resolves none ⟨readbuf, 0#8, 0#32, 0#32, 0#32⟩ := ⟨rfl, rfl, rfl, rfl⟩
  have hloop : Resolves ((logOf flash lists).entry ino) _ :=
    foldl_newest Dirent.version (direntAt flash) _ Resolves (resolveStep flash ino)
      (fun b hb _ _ h => resolveStep_resolves ino (hsound.dir b hb) h) hstart
  unfold resolveInode Log.resolve
  dsimp only
  generalize lists.dir.foldl (resolveStep flash ino) ⟨readbuf, 0#8, 0#32, 0#32, 0#32⟩ = st
    at hloop ⊢
  cases hentry : (logOf flash lists).entry ino with
  | none =>
      rw [hentry] at hloop
      have htype : st.type ≠ dtLnk := by
        rw [hloop.type]
        decide
      rw [if_pos htype, Option.map_some, hloop.ino]
      rfl
  | some d =>
      rw [hentry] at hloop
      have htype : st.type = d.type := hloop.type
      have hino : st.ino = d.ino := hloop.ino
      have hpino : st.pino = d.pino := hloop.pino
      rw [htype, hino, hpino]
      dsimp only
      by_cases hlink : d.type ≠ dtLnk
      · rw [if_pos hlink, if_pos hlink]
        rfl
      · rw [if_neg hlink, if_neg hlink]
        have hmem := (List.mem_filter.mp (newest_mem _ hentry)).1
        rcases List.mem_map.mp hmem with ⟨b, hb, hd⟩
        have htext := linkText_eq d.ino lists.frag hsound.frag (by
          intro c hc hsame
          rw [← hd] at hlink hsame
          exact hlinks b c hb hc (not_not.mp hlink) hsame) st.readbuf
        have hfile : (lists.frag.map (fragmentAt flash)).filter (fun f => f.ino = d.ino) =
          (logOf flash lists).file d.ino := rfl
        rw [htext, hfile]
        cases (logOf flash lists).file d.ino |>.head? with
        | none => exact searchInode_eq hsound _ _ _
        | some f =>
            dsimp only [Option.map_some, Option.getD_some]
            split
            · exact searchInode_eq hsound _ _ _
            · rfl

/-!
# From the flash
-/

theorem listed_sound {part : PartInfo} {n : Nat} {found : List Nat}
    (hnodes : PartitionNodes flash part n found) : Sound flash (listed flash part found) := by
  rcases listed_spec flash part found with ⟨hfrag, hdir⟩
  refine ⟨fun b hb => ?_, fun b hb => ?_⟩
  · rcases (hdir b hb).met with ⟨ofs, hofs, heq⟩
    have htype := (hdir b hb).good.1
    have hmet := hnodes.met ofs hofs
    unfold nodeAt at hmet
    rw [← heq] at hmet
    exact ⟨hmet.1, htype, hmet.2.dirent htype⟩
  · rcases (hfrag b hb).met with ⟨ofs, hofs, heq⟩
    have hmet := hnodes.met ofs hofs
    unfold nodeAt at hmet
    rw [← heq] at hmet
    exact ⟨hmet.1, hmet.2.inode (hfrag b hb).good.1⟩

/--
From the flash to the inode of a path: behind any scan with enough fuel, a path is followed as the
log says, and so is the link of an inode, whatever the buffers hold and whether there is a read
buffer.
-/
theorem lookups_log {part : PartInfo} (hsize : part.sectorSize % 4 = 0) {stop : Nat}
    (hstop : Stop flash part (part.size / part.sectorSize * part.sectorSize) stop)
    {found : List Nat}
    (hnodes : PartitionNodes flash part (part.size / part.sectorSize) found)
    (hlinks : PlainLinks flash (listed flash part found)) (buf : View) :
    exists least, forall fuel, least ≤ fuel ->
      exists lists, buildLists flash part fuel buf = some lists ∧
        (forall path pino readbuf, (searchInode flash lists path pino readbuf).map Prod.fst =
          (logOf flash lists).search path pino) ∧
        (forall stack ino readbuf, (resolveInode flash lists stack ino readbuf).map Prod.fst =
          (logOf flash lists).resolve stack ino) := by
  rcases buildLists_nodes hsize hstop hnodes buf with ⟨least, hrun⟩
  have hsound := listed_sound hnodes
  exact ⟨least, fun fuel hfuel => ⟨listed flash part found, hrun fuel hfuel,
    searchInode_eq hsound, resolveInode_eq hsound hlinks⟩⟩

theorem sample_links : PlainLinks sampleFlash (listed sampleFlash samplePart sampleNodes) := by
  have hfits : forall c, c ∈ (listed sampleFlash samplePart sampleNodes).frag ->
      rawInodeSize + (flashAt sampleFlash c.offset).dsize ≤
        (flashAt sampleFlash c.offset).totlen := by decide +kernel
  exact fun _ c _ hc _ _ => hfits c hc

/-- The path of the link gives inode 5, and the link leads to inode 2. -/
theorem lookups_log_sample : exists least, forall fuel, least ≤ fuel ->
    exists lists, buildLists sampleFlash samplePart fuel (fun _ => 0#8) = some lists ∧
      (searchInode sampleFlash lists (ascii "/l") 1#32 none).map Prod.fst = some 5#32 ∧
      (resolveInode sampleFlash lists [] 5#32 none).map Prod.fst = some 2#32 := by
  rcases lookups_log rfl sampleStop sample_nodes sample_links (fun _ => 0#8) with ⟨least, hlog⟩
  rcases buildLists_nodes rfl sampleStop sample_nodes (fun _ => 0#8) with ⟨enough, hrun⟩
  refine ⟨max least enough, fun fuel hfuel => ?_⟩
  rcases hlog fuel (le_trans (le_max_left least enough) hfuel) with
    ⟨lists, hbuilt, hsearch, hresolve⟩
  have hlists : lists = listed sampleFlash samplePart sampleNodes :=
    Option.some.inj (hbuilt.symm.trans (hrun fuel (le_trans (le_max_right least enough) hfuel)))
  refine ⟨lists, hbuilt, ?_, ?_⟩
  · rw [hsearch, hlists]
    decide +kernel
  · rw [hresolve, hlists]
    decide +kernel

/-!
# Names that were removed
-/

theorem Log.links_eq (log : Log) (name : List Byte) (pino : BitVec 32) :
    log.links name pino = (log.entries name pino).filter (fun d => d.ino ≠ 0#32) := by
  unfold Log.links Log.entries
  rw [List.filter_filter]
  apply List.filter_congr
  intro d _
  simp only [← Bool.decide_and]
  exact decide_eq_decide.mpr ⟨fun h => ⟨h.2.2, h.1, h.2.1⟩, fun h => ⟨h.2.1, h.2.2, h.1⟩⟩

theorem Log.find_eq_zero_iff (log : Log) (name : List Byte) (pino : BitVec 32) :
    log.find name pino = 0#32 <-> log.links name pino = [] := by
  unfold Log.find
  cases hnewest : newest Dirent.version (log.links name pino) with
  | none => exact ⟨fun _ => (newest_eq_none_iff _ _).mp hnewest, fun _ => rfl⟩
  | some d =>
      have hmem := newest_mem _ hnewest
      have hlink := of_decide_eq_true (List.mem_filter.mp hmem).2
      refine ⟨fun hzero => absurd hzero hlink.2.2, fun hnil => ?_⟩
      rw [hnil] at hmem
      exact absurd hmem List.not_mem_nil

/--
`jffs2_1pass_find_inode` finds what the newest entry of a name says, except when that entry
removes the name and an older one that gives it to an inode is still on the flash.
-/
theorem findInode_removed_iff {part : PartInfo} {n : Nat} {found : List Nat}
    (hnodes : PartitionNodes flash part n found) (name : List Byte) (pino : BitVec 32)
    (readbuf : ReadBuf) :
    (findInode flash (listed flash part found) name pino readbuf).1 ≠
        (logOf flash (listed flash part found)).current name pino <->
      (exists d, newest Dirent.version
          ((logOf flash (listed flash part found)).entries name pino) = some d ∧
        d.ino = 0#32) ∧
      (logOf flash (listed flash part found)).links name pino ≠ [] := by
  have hzero := (logOf flash (listed flash part found)).find_eq_zero_iff name pino
  have hlinks := (logOf flash (listed flash part found)).links_eq name pino
  rw [findInode_eq (listed_sound hnodes)]
  generalize logOf flash (listed flash part found) = log at hzero hlinks ⊢
  unfold Log.current
  cases hnewest : newest Dirent.version (log.entries name pino) with
  | none =>
      rw [(newest_eq_none_iff _ _).mp hnewest] at hlinks
      constructor
      · intro hne
        exact absurd (hzero.mpr hlinks) hne
      · intro h
        exact absurd hlinks h.2
  | some d =>
      rw [Option.map_some, Option.getD_some]
      by_cases hd : d.ino = 0#32
      · rw [hd]
        constructor
        · intro hne
          exact ⟨⟨d, rfl, hd⟩, fun hnil => hne (hzero.mpr hnil)⟩
        · intro h heq
          exact h.2 (hzero.mp heq)
      · have hfind : log.find name pino = d.ino := by
          unfold Log.find
          rw [hlinks, newest_filter Dirent.version _ hnewest (decide_eq_true hd)]
          rfl
        constructor
        · intro hne
          exact absurd hfind hne
        · intro h
          rcases h.1 with ⟨e, he, hino⟩
          rw [Option.some.inj he] at hd
          exact absurd hino hd

def sampleLog : Log := logOf sampleFlash (listed sampleFlash samplePart sampleNodes)

theorem sample_entry : newest Dirent.version (sampleLog.entries (ascii "g") 1#32) =
    some ⟨1#32, 3, 0#32, 8#8, ascii "g"⟩ := by decide +kernel

theorem findInode_removed_iff_sample :
    (findInode sampleFlash (listed sampleFlash samplePart sampleNodes) (ascii "g") 1#32 none).1 ≠
      sampleLog.current (ascii "g") 1#32 :=
  (findInode_removed_iff sample_nodes (ascii "g") 1#32 none).mpr
    ⟨⟨_, sample_entry, rfl⟩, by decide +kernel⟩

end

end Jffs2
end Bab750

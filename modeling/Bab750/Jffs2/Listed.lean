import Bab750.Jffs2.ScanSectors
import Bab750.Foundation.Words

/-!
# The lists of a partition

Whatever the flash holds, as long as its headers tell how long their nodes are, the scan lists the
nodes of the walk whose checks hold, and the read buffer is as long as the longest of them.
-/

namespace Bab750
namespace Jffs2

open Foundation

section

variable {flash : Memory} {part : PartInfo}

def listed (flash : Memory) (part : PartInfo) (found : List Nat) : Lists :=
  found.foldl (listNode flash part) Lists.empty

theorem listed_append_singleton (found : List Nat) (ofs : Nat) :
    listed flash part (found ++ [ofs]) = listNode flash part (listed flash part found) ofs := by
  unfold listed
  rw [List.foldl_append]
  rfl

def GoodInode (node : View) : Prop := node.nodetype = nodetypeInode ∧ inodeCrc node = true

def GoodDirent (node : View) : Prop :=
  node.nodetype = nodetypeDirent ∧ (direntCrc node && direntNameCrc node) = true

theorem listNode_cases (lists : Lists) (ofs : Nat) :
    (GoodInode (nodeAt flash part ofs) ∧ listNode flash part lists ofs =
      lists.insertFrag (part.offset + BitVec.ofNat 32 ofs) (nodeAt flash part ofs).totlen) ∨
    (GoodDirent (nodeAt flash part ofs) ∧ listNode flash part lists ofs =
      lists.insertDir (part.offset + BitVec.ofNat 32 ofs) (nodeAt flash part ofs).totlen) ∨
    listNode flash part lists ofs = lists := by
  unfold listNode
  dsimp only
  split
  case isTrue hinode =>
      split
      case isTrue hcrc => exact Or.inl ⟨⟨hinode, hcrc⟩, rfl⟩
      case isFalse => exact Or.inr (Or.inr rfl)
  case isFalse =>
      split
      case isTrue hdirent =>
          split
          case isTrue hcrc => exact Or.inr (Or.inl ⟨⟨hdirent, hcrc⟩, rfl⟩)
          case isFalse => exact Or.inr (Or.inr rfl)
      case isFalse => exact Or.inr (Or.inr rfl)

structure Listed (flash : Memory) (part : PartInfo) (good : View -> Prop) (found : List Nat)
    (room : Nat) (b : BNode) : Prop where
  met : exists ofs, ofs ∈ found ∧ b.offset = part.offset + BitVec.ofNat 32 ofs
  good : good (flashAt flash b.offset)
  datacrc : b.datacrc = none
  room : (flashAt flash b.offset).totlen ≤ room

theorem Listed.later {good : View -> Prop} {found : List Nat} {room room' next : Nat}
    {b : BNode} (h : Listed flash part good found room b) (hroom : room ≤ room') :
    Listed flash part good (found ++ [next]) room' b where
  met := h.met.imp (fun _ hofs => ⟨List.mem_append_left _ hofs.1, hofs.2⟩)
  good := h.good
  datacrc := h.datacrc
  room := Nat.le_trans h.room hroom

theorem listed_spec (flash : Memory) (part : PartInfo) (found : List Nat) :
    (forall b, b ∈ (listed flash part found).frag ->
      Listed flash part GoodInode found (listed flash part found).maxTotlen b) ∧
    (forall b, b ∈ (listed flash part found).dir ->
      Listed flash part GoodDirent found (listed flash part found).maxTotlen b) := by
  induction found using List.reverseRecOn with
  | nil =>
      exact ⟨fun b hb => absurd hb List.not_mem_nil, fun b hb => absurd hb List.not_mem_nil⟩
  | append_singleton found next ih =>
      rcases ih with ⟨hfrag, hdir⟩
      have hmet : exists ofs, ofs ∈ found ++ [next] ∧ part.offset + BitVec.ofNat 32 next =
          part.offset + BitVec.ofNat 32 ofs :=
        ⟨next, List.mem_append_right _ List.mem_cons_self, rfl⟩
      rw [listed_append_singleton]
      rcases @listNode_cases flash part (listed flash part found) next with
        ⟨hgood, heq⟩ | ⟨hgood, heq⟩ | heq
      · rw [heq]
        refine ⟨fun b hb => ?_, fun b hb => (hdir b hb).later (Nat.le_max_left _ _)⟩
        rcases List.mem_append.mp hb with hb | hb
        · exact (hfrag b hb).later (Nat.le_max_left _ _)
        · rw [List.mem_singleton.mp hb]
          exact ⟨hmet, hgood, rfl, Nat.le_max_right _ _⟩
      · rw [heq]
        refine ⟨fun b hb => (hfrag b hb).later (Nat.le_max_left _ _), fun b hb => ?_⟩
        rcases List.mem_append.mp hb with hb | hb
        · exact (hdir b hb).later (Nat.le_max_left _ _)
        · rw [List.mem_singleton.mp hb]
          exact ⟨hmet, hgood, rfl, Nat.le_max_right _ _⟩
      · rw [heq]
        exact ⟨fun b hb => (hfrag b hb).later (Nat.le_refl _),
          fun b hb => (hdir b hb).later (Nat.le_refl _)⟩

theorem Nodes.met {sectorEnd ofs : Nat} {found : List Nat}
    (h : Nodes flash part sectorEnd ofs found) : forall w, w ∈ found ->
      (nodeAt flash part w).magic = magicBitmask ∧ Regular (nodeAt flash part w) := by
  induction h with
  | stop _ => exact fun w hw => absurd hw List.not_mem_nil
  | skip _ _ _ _ ih => exact ih
  | node _ hheader hregular _ ih =>
      intro w hw
      rcases List.mem_cons.mp hw with rfl | hw
      · exact ⟨hheader.magic, hregular⟩
      · exact ih w hw

theorem PartitionNodes.met {n : Nat} {found : List Nat}
    (h : PartitionNodes flash part n found) : forall w, w ∈ found ->
      (nodeAt flash part w).magic = magicBitmask ∧ Regular (nodeAt flash part w) := by
  induction h with
  | none => exact fun w hw => absurd hw List.not_mem_nil
  | sector _ hsector ih =>
      intro w hw
      rcases List.mem_append.mp hw with hw | hw
      · exact ih w hw
      · cases hsector with
        | empty _ => exact absurd hw List.not_mem_nil
        | walk _ hnodes => exact hnodes.met w hw

/-!
# Any contents
-/

/-- The headers in a sector tell how long their nodes are. -/
structure Honest (flash : Memory) (part : PartInfo) : Prop where
  noWrap : forall ofs, ofs < part.size / part.sectorSize * part.sectorSize ->
    NoWrap (nodeAt flash part ofs) ofs
  regular : forall ofs, ofs < part.size / part.sectorSize * part.sectorSize ->
    (nodeAt flash part ofs).magic = magicBitmask -> hdrCrc (nodeAt flash part ofs) = true ->
      Regular (nodeAt flash part ofs)

theorem exists_nodes (h : Honest flash part) {sectorEnd : Nat}
    (hend : sectorEnd ≤ part.size / part.sectorSize * part.sectorSize)
    (hlow : sectorEnd + 2 * bufSize ≤ 2 ^ 32) (budget : Nat) :
    forall ofs, sectorEnd - ofs < budget ->
      exists found, Nodes flash part sectorEnd ofs found := by
  have hnode : unknownNodeSize = 12 := rfl
  have hsize : bufSize = 4096 := rfl
  induction budget with
  | zero => exact fun ofs h => absurd h (Nat.not_lt_zero _)
  | succ budget ih =>
      intro ofs hbudget
      by_cases hroom : ofs + unknownNodeSize ≤ sectorEnd
      · by_cases hheader : Header (nodeAt flash part ofs) ofs sectorEnd
        · have hregular := h.regular ofs (by omega) hheader.magic hheader.crc
          have hlong := hregular.header
          have hfits := hheader.fits
          have hlength := nodeLength_eq
            (show (nodeAt flash part ofs).totlen + 3 < 2 ^ 32 by omega)
          rcases ih (ofs + nodeLength (nodeAt flash part ofs).totlen) (by omega) with
            ⟨found, hfound⟩
          exact ⟨ofs :: found, .node hroom hheader hregular hfound⟩
        · rcases ih (ofs + 4) (by omega) with ⟨found, hfound⟩
          exact ⟨found, .skip hroom hheader (h.noWrap ofs (by omega)) hfound⟩
      · exact ⟨[], .stop (Nat.lt_of_not_le hroom)⟩

theorem exists_partitionNodes (h : Honest flash part)
    (hlow : part.size / part.sectorSize * part.sectorSize + 2 * bufSize ≤ 2 ^ 32) (n : Nat) :
    n ≤ part.size / part.sectorSize -> exists found, PartitionNodes flash part n found := by
  induction n with
  | zero => exact fun _ => ⟨[], .none⟩
  | succ n ih =>
      intro hn
      have hend : (n + 1) * part.sectorSize ≤ part.size / part.sectorSize * part.sectorSize :=
        Nat.mul_le_mul_right _ hn
      rcases ih (by omega) with ⟨before, hbefore⟩
      by_cases hempty : EmptySector flash part n
      · exact ⟨before ++ [], .sector hbefore (.empty hempty)⟩
      · rcases exists_nodes h hend (by omega) _ (n * part.sectorSize) (Nat.lt_succ_self _) with
          ⟨found, hfound⟩
        exact ⟨before ++ found, .sector hbefore (.walk hempty hfound)⟩

/--
Whatever the flash and the buffer hold, when the headers are honest: the scan ends, it lists the
nodes that a walk over the words of the sectors meets and whose checks hold, in this order, and
the size of the read buffer is enough for each of them.
-/
theorem buildLists_walk (hsize : part.sectorSize % 4 = 0) {stop : Nat}
    (hstop : Stop flash part (part.size / part.sectorSize * part.sectorSize) stop)
    (hhonest : Honest flash part) :
    exists found, PartitionNodes flash part (part.size / part.sectorSize) found ∧
      (forall buf, exists least, forall fuel, least ≤ fuel ->
        buildLists flash part fuel buf = some (listed flash part found)) ∧
      (forall b, b ∈ (listed flash part found).frag ++ (listed flash part found).dir ->
        (flashAt flash b.offset).totlen ≤ (listed flash part found).maxTotlen) := by
  have hbehind := hstop.behind
  have hlow := hstop.low
  rcases exists_partitionNodes hhonest (by omega) _ (Nat.le_refl _) with ⟨found, hfound⟩
  refine ⟨found, hfound, fun buf => buildLists_nodes hsize hstop hfound buf, fun b hb => ?_⟩
  rcases listed_spec flash part found with ⟨hfrag, hdir⟩
  rcases List.mem_append.mp hb with hb | hb
  · exact (hfrag b hb).room
  · exact (hdir b hb).room

end

theorem nodes_of_erased {flash : Memory} {part : PartInfo} {sectorEnd : Nat} (n : Nat) :
    forall ofs, ofs % 4 = 0 -> sectorEnd - ofs < n -> ErasedWords flash part ofs sectorEnd ->
      Nodes flash part sectorEnd ofs [] := by
  have hnode : unknownNodeSize = 12 := rfl
  induction n with
  | zero => exact fun ofs _ h => absurd h (Nat.not_lt_zero _)
  | succ n ih =>
      intro ofs hmod hn herased
      by_cases hroom : ofs + unknownNodeSize ≤ sectorEnd
      · have hmagic := erased_magic (herased ofs (Nat.le_refl _) (by omega) hmod)
        exact .skip hroom (fun hheader => hmagic hheader.magic) (fun h => absurd h hmagic)
          (ih (ofs + 4) (by omega) (by omega) (fun w hw hw' hwmod =>
            herased w (by omega) hw' hwmod))
      · exact .stop (Nat.lt_of_not_le hroom)

/--
Two names, a file in two fragments, the entry that removes the second name, and a symbolic link to
the first.
-/
def sampleWords : List (BitVec 32) := [
    0x19852003#32, 0x0000000c#32, 0xf060dc98#32, 0x1985e001#32, 0x00000029#32, 0xd04c450b#32,
    0x00000001#32, 0x00000001#32, 0x00000002#32, 0x00000000#32, 0x01080000#32, 0xba8f4bf0#32,
    0xa4d1c46d#32, 0x66ffffff#32, 0x1985e002#32, 0x00000048#32, 0xad596e15#32, 0x00000002#32,
    0x00000001#32, 0x000081a4#32, 0x00000000#32, 0x00000004#32, 0x00000000#32, 0x00000000#32,
    0x00000000#32, 0x00000000#32, 0x00000004#32, 0x00000004#32, 0x00000000#32, 0x67a971d8#32,
    0x183fea08#32, 0x626f6f74#32, 0x1985e002#32, 0x00000046#32, 0x4ae14312#32, 0x00000002#32,
    0x00000002#32, 0x000081a4#32, 0x00000000#32, 0x00000004#32, 0x00000000#32, 0x00000000#32,
    0x00000000#32, 0x00000002#32, 0x00000002#32, 0x00000002#32, 0x00000000#32, 0x1be7c627#32,
    0x7a5e01c2#32, 0x4f54ffff#32, 0x1985e001#32, 0x00000029#32, 0xd04c450b#32, 0x00000001#32,
    0x00000002#32, 0x00000003#32, 0x00000000#32, 0x01080000#32, 0x103e337d#32, 0xd3d6f4fb#32,
    0x67ffffff#32, 0x1985e001#32, 0x00000029#32, 0xd04c450b#32, 0x00000001#32, 0x00000003#32,
    0x00000000#32, 0x00000000#32, 0x01080000#32, 0xf425d63d#32, 0xd3d6f4fb#32, 0x67ffffff#32,
    0x1985e001#32, 0x00000029#32, 0xd04c450b#32, 0x00000001#32, 0x00000004#32, 0x00000005#32,
    0x00000000#32, 0x010a0000#32, 0xc0454144#32, 0x44042d73#32, 0x6cffffff#32, 0x1985e002#32,
    0x00000045#32, 0xd3e812a8#32, 0x00000005#32, 0x00000001#32, 0x0000a1ff#32, 0x00000000#32,
    0x00000001#32, 0x00000000#32, 0x00000000#32, 0x00000000#32, 0x00000000#32, 0x00000001#32,
    0x00000001#32, 0x00000000#32, 0xa4d1c46d#32, 0xef01273f#32, 0x66ffffff#32]

/-- One sector, erased behind the nodes, and zeros behind it. -/
def sampleFlash : Memory := fun a =>
  if a.toNat < 436 then
    (wordBytes (sampleWords.getD (a.toNat / 4) erasedWord)).getD (a.toNat % 4) 0#8
  else 0#8

def samplePart : PartInfo := ⟨0#32, 436, 436⟩

def sampleNodes : List Nat := [0, 12, 56, 128, 200, 244, 288, 332]

theorem sampleStop : Stop sampleFlash samplePart 436 436 where
  behind := Nat.le_refl _
  aligned := rfl
  low := by decide
  written := by decide +kernel

theorem sample_magic : forall ofs, ofs < 436 ->
    (nodeAt sampleFlash samplePart ofs).magic = magicBitmask -> ofs ∈ sampleNodes := by
  decide +kernel

theorem sample_headers : forall ofs, ofs ∈ sampleNodes ->
    ofs + unknownNodeSize ≤ 436 ∧ (nodeAt sampleFlash samplePart ofs).magic = magicBitmask ∧
      hdrCrc (nodeAt sampleFlash samplePart ofs) = true ∧
      ofs + (nodeAt sampleFlash samplePart ofs).totlen ≤ 436 := by
  decide +kernel

theorem sample_lengths : forall ofs, ofs ∈ sampleNodes ->
    unknownNodeSize ≤ (nodeAt sampleFlash samplePart ofs).totlen ∧
      ((nodeAt sampleFlash samplePart ofs).nodetype = nodetypeInode ->
        rawInodeSize ≤ (nodeAt sampleFlash samplePart ofs).totlen) ∧
      ((nodeAt sampleFlash samplePart ofs).nodetype = nodetypeDirent ->
        rawDirentSize + (nodeAt sampleFlash samplePart ofs).nsize ≤
          (nodeAt sampleFlash samplePart ofs).totlen) := by
  decide +kernel

theorem sample_regular {ofs : Nat} (h : ofs ∈ sampleNodes) :
    Regular (nodeAt sampleFlash samplePart ofs) :=
  ⟨(sample_lengths ofs h).1, (sample_lengths ofs h).2.1, (sample_lengths ofs h).2.2⟩

theorem sample_honest : Honest sampleFlash samplePart where
  noWrap := by
    intro ofs hofs hmagic _
    have hfits := (sample_headers ofs (sample_magic ofs hofs hmagic)).2.2.2
    omega
  regular := fun ofs hofs hmagic _ => sample_regular (sample_magic ofs hofs hmagic)

theorem buildLists_walk_sample : exists found, PartitionNodes sampleFlash samplePart 1 found ∧
    exists least, buildLists sampleFlash samplePart least (fun _ => 0#8) =
      some (listed sampleFlash samplePart found) := by
  rcases buildLists_walk rfl sampleStop sample_honest with ⟨found, hnodes, hrun, _⟩
  rcases hrun (fun _ => 0#8) with ⟨least, hleast⟩
  exact ⟨found, hnodes, least, hleast least (Nat.le_refl _)⟩

theorem sample_node (ofs next : Nat) (h : ofs ∈ sampleNodes)
    (hnext : ofs + nodeLength (nodeAt sampleFlash samplePart ofs).totlen = next)
    {found : List Nat} (hrest : Nodes sampleFlash samplePart 436 next found) :
    Nodes sampleFlash samplePart 436 ofs (ofs :: found) := by
  rcases sample_headers ofs h with ⟨hroom, hmagic, hcrc, hfits⟩
  rw [← hnext] at hrest
  exact .node hroom ⟨hmagic, hcrc, hfits⟩ (sample_regular h) hrest

theorem sample_nodes : PartitionNodes sampleFlash samplePart 1 sampleNodes := by
  have herased : ErasedWords sampleFlash samplePart 404 436 := by
    have hall : forall w, w < 436 -> 404 ≤ w -> w % 4 = 0 ->
        (nodeAt sampleFlash samplePart w).word 0 = erasedWord := by decide +kernel
    exact fun w hw hw' hmod => hall w hw' hw hmod
  have hwritten : ¬ EmptySector sampleFlash samplePart 0 := by
    intro hempty
    exact absurd (hempty 0 (Nat.le_refl _) (by decide) rfl) (by decide +kernel)
  have hwalk : Nodes sampleFlash samplePart 436 0 sampleNodes :=
    sample_node 0 12 (by decide) (by decide +kernel)
      (sample_node 12 56 (by decide) (by decide +kernel)
        (sample_node 56 128 (by decide) (by decide +kernel)
          (sample_node 128 200 (by decide) (by decide +kernel)
            (sample_node 200 244 (by decide) (by decide +kernel)
              (sample_node 244 288 (by decide) (by decide +kernel)
                (sample_node 288 332 (by decide) (by decide +kernel)
                  (sample_node 332 404 (by decide) (by decide +kernel)
                    (nodes_of_erased 40 404 rfl (by decide) herased))))))))
  exact .sector .none (.walk hwritten hwalk)

end Jffs2
end Bab750

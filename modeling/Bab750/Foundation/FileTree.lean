import Mathlib.Data.List.Infix
import Mathlib.Logic.Function.Basic

/-!
# Trees of files with links

Places of a tree of directories, files and symbolic links, and how a path in text form is walked
in it. The walk of a system looks at one place after another and follows a bounded number of
links; what a path leads to is the relation without the bound. Both are for any root, above
which there is nothing.
-/

namespace Bab750
namespace Foundation

universe u v

inductive PathPart (Name : Type u) where
  | here
  | up
  | name (n : Name)
deriving DecidableEq

/-- A path in text form; nothing between two slashes is `here`. -/
structure PathText (Name : Type u) where
  absolute : Bool
  parts : List (PathPart Name)
deriving DecidableEq

inductive FileNode (Name : Type u) (Content : Type v) where
  | dir
  | file (content : Content)
  | link (target : PathText Name)
deriving DecidableEq

/-- The names on the way from the top of a tree. -/
abbrev FilePlace (Name : Type u) := List Name

structure FileTree (Name : Type u) (Content : Type v) where
  node : FilePlace Name -> Option (FileNode Name Content)
  topDir : node [] = some .dir
  /-- What exists lies in a directory. -/
  closed : forall p n, node (p ++ [n]) ≠ none -> node p = some .dir

variable {Name : Type u} {Content : Type v}

def FileTree.isDir (tree : FileTree Name Content) (p : FilePlace Name) : Bool :=
  match tree.node p with
  | some .dir => true
  | _ => false

@[simp] theorem FileTree.isDir_iff {tree : FileTree Name Content} {p : FilePlace Name} :
    tree.isDir p = true <-> tree.node p = some .dir := by
  unfold FileTree.isDir
  split
  · rename_i h
    exact iff_of_true rfl h
  · rename_i h
    exact iff_of_false Bool.false_ne_true h

theorem dir_not_link {tree : FileTree Name Content} {p : FilePlace Name}
    (h : tree.node p = some .dir) (target : PathText Name) :
    tree.node p ≠ some (.link target) := by
  rw [h]
  nofun

variable [DecidableEq Name]

/-- A tree with another entry in a directory, or with one less; directories stay. -/
def FileTree.put (tree : FileTree Name Content) (p : FilePlace Name)
    (entry : Option (FileNode Name Content)) : Option (FileTree Name Content) :=
  if h : p ≠ [] ∧ tree.isDir p.dropLast = true ∧ tree.isDir p = false then
    some {
      node := Function.update tree.node p entry
      topDir := by
        rw [Function.update_of_ne h.1.symm]
        exact tree.topDir
      closed := by
        intro q n hentry
        have hdir := FileTree.isDir_iff.mp h.2.1
        by_cases hq : q = p
        · -- nothing lies in what was no directory
          subst hq
          rw [Function.update_of_ne (by simp)] at hentry
          rw [FileTree.isDir_iff.mpr (tree.closed q n hentry)] at h
          exact nomatch h.2.2
        · rw [Function.update_of_ne hq]
          by_cases hchild : q ++ [n] = p
          · rw [← hchild, List.dropLast_concat] at hdir
            exact hdir
          · rw [Function.update_of_ne hchild] at hentry
            exact tree.closed q n hentry }
  else none

theorem FileTree.put_node {tree tree' : FileTree Name Content} {p : FilePlace Name}
    {entry : Option (FileNode Name Content)} (h : tree.put p entry = some tree') :
    tree'.node = Function.update tree.node p entry ∧ p ≠ [] ∧
      tree.node p.dropLast = some .dir ∧ tree.node p ≠ some .dir := by
  unfold FileTree.put at h
  split at h
  · rename_i hput
    cases h
    refine ⟨rfl, hput.1, FileTree.isDir_iff.mp hput.2.1, fun hdir => ?_⟩
    rw [FileTree.isDir_iff.mpr hdir] at hput
    exact nomatch hput.2.2
  · cases h

def FileTree.empty : FileTree Name Content where
  node p := if p = [] then some .dir else none
  topDir := if_pos rfl
  closed p n h := absurd (if_neg (by simp)) h

def FileTree.ofEntries (entries : List (FilePlace Name × FileNode Name Content)) :
    FileTree Name Content :=
  entries.foldl (fun tree entry => (tree.put entry.1 (some entry.2)).getD tree) .empty

theorem FileTree.ofEntries_node {entries : List (FilePlace Name × FileNode Name Content)}
    {p : FilePlace Name} {entry : FileNode Name Content}
    (h : (FileTree.ofEntries entries).node p = some entry) : p = [] ∨ (p, entry) ∈ entries := by
  have hfold : forall (entries : List (FilePlace Name × FileNode Name Content))
      (tree : FileTree Name Content),
      (entries.foldl (fun tree entry => (tree.put entry.1 (some entry.2)).getD tree) tree).node p =
        some entry -> tree.node p = some entry ∨ (p, entry) ∈ entries := by
    intro entries
    induction entries with
    | nil =>
        exact fun _ hnode => Or.inl hnode
    | cons first entries ih =>
        intro tree hnode
        rw [List.foldl_cons] at hnode
        rcases ih _ hnode with hbefore | hmem
        · cases hput : tree.put first.1 (some first.2) with
          | none =>
              rw [hput, Option.getD_none] at hbefore
              exact Or.inl hbefore
          | some tree' =>
              rw [hput, Option.getD_some, (FileTree.put_node hput).1] at hbefore
              by_cases hp : p = first.1
              · rw [hp, Function.update_self] at hbefore
                right
                rw [hp, ← Option.some.inj hbefore]
                exact List.mem_cons_self
              · rw [Function.update_of_ne hp] at hbefore
                exact Or.inl hbefore
        · exact Or.inr (List.mem_cons_of_mem _ hmem)
  rcases hfold entries .empty h with hempty | hmem
  · left
    by_contra hp
    have hnone : (FileTree.empty : FileTree Name Content).node p = none := if_neg hp
    rw [hnone] at hempty
    cases hempty
  · exact Or.inr hmem

def parentIn (root cur : FilePlace Name) : FilePlace Name :=
  if cur = root then root else cur.dropLast

/-!
# Walks
-/

/-- How a walk comes to a halt: at the end of the path, or at a link that it is to follow. -/
inductive Pause (Name : Type u) where
  | stopped (place : Option (FilePlace Name))
  | atLink (dir : FilePlace Name) (target : PathText Name) (rest : List (PathPart Name))

/-- A walk up to the next link: the places that it comes by, and how it halts. -/
def walkParts (tree : FileTree Name Content) (root : FilePlace Name) (follow : Bool) :
    FilePlace Name -> List (PathPart Name) -> List (FilePlace Name) × Pause Name
  | cur, [] => ([], .stopped (some cur))
  | cur, part :: rest =>
      match tree.node cur with
      | some .dir =>
          match part with
          | .here => walkParts tree root follow cur rest
          | .up =>
              let walked := walkParts tree root follow (parentIn root cur) rest
              (parentIn root cur :: walked.1, walked.2)
          | .name n =>
              match tree.node (cur ++ [n]) with
              | some (.link target) =>
                  if rest.isEmpty && !follow then
                    ([cur ++ [n]], .stopped (some (cur ++ [n])))
                  else ([cur ++ [n]], .atLink cur target rest)
              | _ =>
                  let walked := walkParts tree root follow (cur ++ [n]) rest
                  ((cur ++ [n]) :: walked.1, walked.2)
      | _ => ([], .stopped none)

def linkBase (root dir : FilePlace Name) (target : PathText Name) : FilePlace Name :=
  if target.absolute then root else dir

/--
A walk over at most so many links: the places that it comes by, and where it ends. Nothing need
exist there, but what is in front of it is a directory.
-/
def walk (tree : FileTree Name Content) (root : FilePlace Name) (follow : Bool) :
    Nat -> FilePlace Name -> List (PathPart Name) ->
      List (FilePlace Name) × Option (FilePlace Name)
  | links, cur, parts =>
      match walkParts tree root follow cur parts with
      | (seen, .stopped place) => (seen, place)
      | (seen, .atLink dir target rest) =>
          match links with
          | 0 => (seen, none)
          | more + 1 =>
              let walked := walk tree root follow more (linkBase root dir target)
                (target.parts ++ rest)
              (seen ++ linkBase root dir target :: walked.1, walked.2)

/-- What a path leads to, however many links there are. -/
inductive Reaches (tree : FileTree Name Content) (root : FilePlace Name) (follow : Bool) :
    FilePlace Name -> List (PathPart Name) -> FilePlace Name -> Prop
  | done (cur : FilePlace Name) : Reaches tree root follow cur [] cur
  | here {cur p : FilePlace Name} {rest : List (PathPart Name)} (hdir : tree.node cur = some .dir)
      (h : Reaches tree root follow cur rest p) : Reaches tree root follow cur (.here :: rest) p
  | up {cur p : FilePlace Name} {rest : List (PathPart Name)} (hdir : tree.node cur = some .dir)
      (h : Reaches tree root follow (parentIn root cur) rest p) :
      Reaches tree root follow cur (.up :: rest) p
  | name {cur p : FilePlace Name} {n : Name} {rest : List (PathPart Name)}
      (hdir : tree.node cur = some .dir)
      (hother : forall target, tree.node (cur ++ [n]) ≠ some (.link target))
      (h : Reaches tree root follow (cur ++ [n]) rest p) :
      Reaches tree root follow cur (.name n :: rest) p
  | stop {cur : FilePlace Name} {n : Name} {target : PathText Name}
      (hdir : tree.node cur = some .dir)
      (hlink : tree.node (cur ++ [n]) = some (.link target)) (hfollow : follow = false) :
      Reaches tree root follow cur [.name n] (cur ++ [n])
  | link {cur p : FilePlace Name} {n : Name} {rest : List (PathPart Name)}
      {target : PathText Name} (hdir : tree.node cur = some .dir)
      (hlink : tree.node (cur ++ [n]) = some (.link target))
      (hgo : rest ≠ [] ∨ follow = true)
      (h : Reaches tree root follow (linkBase root cur target) (target.parts ++ rest) p) :
      Reaches tree root follow cur (.name n :: rest) p

variable {tree : FileTree Name Content} {root cur p : FilePlace Name} {follow : Bool}
  {parts rest : List (PathPart Name)}

/-!
# One step of a walk
-/

theorem walk_eq (links : Nat) :
    walk tree root follow links cur parts =
      match walkParts tree root follow cur parts with
      | (seen, .stopped place) => (seen, place)
      | (seen, .atLink dir target rest) =>
          match links with
          | 0 => (seen, none)
          | more + 1 =>
              let walked := walk tree root follow more (linkBase root dir target)
                (target.parts ++ rest)
              (seen ++ linkBase root dir target :: walked.1, walked.2) := by
  cases links with
  | zero => rw [walk]
  | succ more => rw [walk]

theorem reaches_of_parts {seen : List (FilePlace Name)} {pause : Pause Name}
    (h : walkParts tree root follow cur parts = (seen, pause))
    (hpause : pause = .stopped (some p) ∨ exists dir target rest,
      pause = .atLink dir target rest ∧
        Reaches tree root follow (linkBase root dir target) (target.parts ++ rest) p) :
    Reaches tree root follow cur parts p := by
  induction parts generalizing cur seen with
  | nil =>
      cases h
      rcases hpause with hstop | ⟨dir, target, rest, hlink, _⟩
      · cases hstop
        exact .done _
      · cases hlink
  | cons part rest ih =>
      rw [walkParts.eq_def] at h
      dsimp only at h
      split at h
      · rename_i hdir
        cases part with
        | here =>
            exact .here hdir (ih h)
        | up =>
            cases h
            exact .up hdir (ih rfl)
        | name n =>
            dsimp only at h
            split at h
            · rename_i target hlink
              split at h
              · rename_i hlast
                rw [Bool.and_eq_true, List.isEmpty_iff, Bool.not_eq_true'] at hlast
                cases h
                rcases hpause with hstop | ⟨dir, target', rest', hat, _⟩
                · cases hstop
                  rw [hlast.1]
                  exact .stop hdir hlink hlast.2
                · cases hat
              · rename_i hmore
                cases h
                rcases hpause with hstop | ⟨dir, target', rest', hat, hreach⟩
                · cases hstop
                · cases hat
                  refine .link hdir hlink ?_ hreach
                  rw [Bool.and_eq_true, List.isEmpty_iff, Bool.not_eq_true', not_and_or] at hmore
                  simpa using hmore
            · rename_i hother
              cases h
              refine .name hdir ?_ (ih rfl)
              intro target hlink
              exact hother target hlink
      · cases h
        rcases hpause with hstop | ⟨dir, target, rest', hat, _⟩
        · cases hstop
        · cases hat

theorem reaches_of_walk {links : Nat}
    (h : (walk tree root follow links cur parts).2 = some p) :
    Reaches tree root follow cur parts p := by
  induction links generalizing cur parts with
  | zero =>
      rw [walk_eq] at h
      rcases hparts : walkParts tree root follow cur parts with ⟨seen, pause⟩
      rw [hparts] at h
      cases pause with
      | stopped place =>
          exact reaches_of_parts hparts (Or.inl (congrArg Pause.stopped h))
      | atLink dir target rest =>
          cases h
  | succ links ih =>
      rw [walk_eq] at h
      rcases hparts : walkParts tree root follow cur parts with ⟨seen, pause⟩
      rw [hparts] at h
      cases pause with
      | stopped place =>
          exact reaches_of_parts hparts (Or.inl (congrArg Pause.stopped h))
      | atLink dir target rest =>
          exact reaches_of_parts hparts (Or.inr ⟨dir, target, rest, rfl, ih h⟩)

/-!
# Walks that stay below a place
-/

/-- A walk up to the next link that stays below a root is the same from the top of the tree. -/
theorem walkParts_inside (hcur : root <+: cur)
    (hseen : forall q, q ∈ (walkParts tree [] follow cur parts).1 -> root <+: q) :
    walkParts tree root follow cur parts = walkParts tree [] follow cur parts ∧
      forall dir target rest, (walkParts tree [] follow cur parts).2 = .atLink dir target rest ->
        root <+: dir := by
  induction parts generalizing cur with
  | nil =>
      exact ⟨rfl, nofun⟩
  | cons part rest ih =>
      rw [walkParts.eq_def, walkParts.eq_def tree []]
      rw [walkParts.eq_def] at hseen
      dsimp only at hseen ⊢
      cases hnode : tree.node cur with
      | none =>
          exact ⟨rfl, nofun⟩
      | some node =>
          rw [hnode] at hseen
          cases node with
          | file content =>
              exact ⟨rfl, nofun⟩
          | link target =>
              exact ⟨rfl, nofun⟩
          | dir =>
              dsimp only at hseen ⊢
              cases part with
              | here =>
                  exact ih hcur hseen
              | up =>
                  dsimp only at hseen ⊢
                  have htop : parentIn [] cur = cur.dropLast := by
                    unfold parentIn
                    split
                    · rename_i hnil
                      rw [hnil, List.dropLast_nil]
                    · rfl
                  have hparent : root <+: parentIn [] cur := hseen _ List.mem_cons_self
                  have hsame : parentIn root cur = parentIn [] cur := by
                    rw [htop] at hparent ⊢
                    unfold parentIn
                    split
                    · rename_i hroot
                      rw [hroot] at hparent ⊢
                      have hlength := hparent.length_le
                      rw [List.length_dropLast] at hlength
                      have hnil : root = [] := List.length_eq_zero_iff.mp (by omega)
                      rw [hnil, List.dropLast_nil]
                    · rfl
                  rw [hsame]
                  rcases ih hparent (fun q hq => hseen q (List.mem_cons_of_mem _ hq)) with
                    ⟨hwalk, hdir⟩
                  rw [hwalk]
                  exact ⟨rfl, hdir⟩
              | name n =>
                  dsimp only at hseen ⊢
                  have hentry : root <+: cur ++ [n] := hcur.trans (List.prefix_append _ _)
                  split
                  · rename_i target hlink
                    rw [hlink] at hseen
                    split
                    · exact ⟨rfl, nofun⟩
                    · refine ⟨rfl, ?_⟩
                      intro dir target' rest' hat
                      cases hat
                      exact hcur
                  · rename_i hother
                    split at hseen
                    · rename_i target hlink
                      exact absurd hlink (hother target)
                    · rcases ih hentry (fun q hq => hseen q (List.mem_cons_of_mem _ hq)) with
                        ⟨hwalk, hdir⟩
                      rw [hwalk]
                      exact ⟨rfl, hdir⟩

/-- A walk that stays below a root finds the same as a walk in which the root is the top. -/
theorem walk_inside {links : Nat} (hcur : root <+: cur)
    (hseen : forall q, q ∈ (walk tree [] follow links cur parts).1 -> root <+: q) :
    walk tree root follow links cur parts = walk tree [] follow links cur parts := by
  induction links generalizing cur parts with
  | zero =>
      rw [walk_eq] at hseen
      rw [walk_eq, walk_eq]
      rcases hparts : walkParts tree [] follow cur parts with ⟨seen, pause⟩
      rw [hparts] at hseen
      have hbefore : forall q, q ∈ (walkParts tree [] follow cur parts).1 -> root <+: q := by
        rw [hparts]
        cases pause with
        | stopped place => exact hseen
        | atLink dir target rest => exact hseen
      rw [(walkParts_inside hcur hbefore).1, hparts]
  | succ links ih =>
      rw [walk_eq] at hseen
      rw [walk_eq, walk_eq]
      rcases hparts : walkParts tree [] follow cur parts with ⟨seen, pause⟩
      rw [hparts] at hseen
      cases pause with
      | stopped place =>
          have hbefore : forall q, q ∈ (walkParts tree [] follow cur parts).1 -> root <+: q := by
            rw [hparts]
            exact hseen
          rw [(walkParts_inside hcur hbefore).1, hparts]
      | atLink dir target rest =>
          dsimp only at hseen
          have hbefore : forall q, q ∈ (walkParts tree [] follow cur parts).1 -> root <+: q := by
            rw [hparts]
            exact fun q hq => hseen q (List.mem_append_left _ hq)
          rcases walkParts_inside hcur hbefore with ⟨hwalk, hdir⟩
          have hbase : root <+: linkBase [] dir target :=
            hseen _ (List.mem_append_right _ List.mem_cons_self)
          have hsame : linkBase root dir target = linkBase [] dir target := by
            unfold linkBase at hbase ⊢
            split
            · rename_i habsolute
              rw [if_pos habsolute] at hbase
              exact List.prefix_nil.mp hbase
            · rfl
          rw [hwalk, hparts]
          dsimp only
          rw [hsame, ih hbase (fun q hq =>
            hseen q (List.mem_append_right _ (List.mem_cons_of_mem _ hq)))]

/-!
# Following the links at the end of a path
-/

inductive Follows (tree : FileTree Name Content) (root : FilePlace Name) :
    FilePlace Name -> FilePlace Name -> Prop
  | stays {p : FilePlace Name} (hother : forall target, tree.node p ≠ some (.link target)) :
      Follows tree root p p
  | link {p q r : FilePlace Name} {target : PathText Name}
      (hlink : tree.node p = some (.link target))
      (htarget : Reaches tree root false (linkBase root p.dropLast target) target.parts q)
      (h : Follows tree root q r) : Follows tree root p r

theorem parent_dir (hroot : tree.node root = some .dir) (hcur : tree.node cur = some .dir) :
    tree.node (parentIn root cur) = some .dir := by
  unfold parentIn
  split
  · exact hroot
  · cases cur using List.reverseRecOn with
    | nil =>
        exact tree.topDir
    | append_singleton front last =>
        rw [List.dropLast_concat]
        exact tree.closed front last (by rw [hcur]; nofun)

omit [DecidableEq Name] in
theorem linkBase_dir (hroot : tree.node root = some .dir) (hcur : tree.node cur = some .dir)
    (target : PathText Name) : tree.node (linkBase root cur target) = some .dir := by
  unfold linkBase
  split
  · exact hroot
  · exact hcur

/-- What does not end at a link is the same whether a last link is followed or not. -/
theorem Reaches.followed (h : Reaches tree root false cur parts p)
    (hother : forall target, tree.node p ≠ some (.link target)) :
    Reaches tree root true cur parts p := by
  induction h with
  | done => exact .done _
  | here hdir _ ih => exact .here hdir (ih hother)
  | up hdir _ ih => exact .up hdir (ih hother)
  | name hdir hname _ ih => exact .name hdir hname (ih hother)
  | stop hdir hlink _ => exact absurd hlink (hother _)
  | link hdir hlink _ _ ih => exact .link hdir hlink (Or.inr rfl) (ih hother)

theorem Reaches.through (hroot : tree.node root = some .dir)
    (h : Reaches tree root false cur parts p)
    (hcur : forall target, tree.node cur ≠ some (.link target)) {target : PathText Name}
    (hlink : tree.node p = some (.link target)) {q : FilePlace Name}
    (hmore : Reaches tree root true (linkBase root p.dropLast target) target.parts q) :
    Reaches tree root true cur parts q := by
  induction h with
  | done cur => exact absurd hlink (hcur target)
  | here hdir _ ih => exact .here hdir (ih hcur hlink hmore)
  | up hdir _ ih =>
      exact .up hdir (ih (dir_not_link (parent_dir hroot hdir)) hlink hmore)
  | name hdir hname _ ih => exact .name hdir hname (ih hname hlink hmore)
  | stop hdir hlink' _ =>
      rw [hlink'] at hlink
      cases hlink
      rw [List.dropLast_concat] at hmore
      refine .link hdir hlink' (Or.inr rfl) ?_
      rw [List.append_nil]
      exact hmore
  | link hdir hlink' _ _ ih =>
      exact .link hdir hlink' (Or.inr rfl)
        (ih (dir_not_link (linkBase_dir hroot hdir _)) hlink hmore)

theorem Reaches.follows (hroot : tree.node root = some .dir) {q : FilePlace Name}
    (hfollows : Follows tree root p q)
    (h : Reaches tree root false cur parts p) (hcur : tree.node cur = some .dir) :
    Reaches tree root true cur parts q := by
  induction hfollows generalizing cur parts with
  | stays hother =>
      exact h.followed hother
  | @link p q r target hlink htarget _ ih =>
      refine h.through hroot (dir_not_link hcur) hlink (ih htarget (linkBase_dir hroot ?_ _))
      cases p using List.reverseRecOn with
      | nil =>
          exact tree.topDir
      | append_singleton front last =>
          rw [List.dropLast_concat]
          exact tree.closed front last (by rw [hlink]; nofun)

/-!
# The end of a walk
-/

theorem walkParts_place {seen : List (FilePlace Name)}
    (h : walkParts tree root follow cur parts = (seen, .stopped (some p))) :
    p = cur ∨ p ∈ seen := by
  induction parts generalizing cur seen with
  | nil =>
      cases h
      exact Or.inl rfl
  | cons part rest ih =>
      rw [walkParts.eq_def] at h
      dsimp only at h
      split at h
      · cases part with
        | here =>
            exact ih h
        | up =>
            dsimp only at h
            rcases hwalk : walkParts tree root follow (parentIn root cur) rest with ⟨more, pause⟩
            rw [hwalk] at h
            cases h
            rcases ih hwalk with heq | hmem
            · exact Or.inr (heq ▸ List.mem_cons_self)
            · exact Or.inr (List.mem_cons_of_mem _ hmem)
        | name n =>
            dsimp only at h
            split at h
            · split at h
              · cases h
                exact Or.inr List.mem_cons_self
              · cases h
            · rcases hwalk : walkParts tree root follow (cur ++ [n]) rest with ⟨more, pause⟩
              rw [hwalk] at h
              cases h
              rcases ih hwalk with heq | hmem
              · exact Or.inr (heq ▸ List.mem_cons_self)
              · exact Or.inr (List.mem_cons_of_mem _ hmem)
      · cases h

theorem walk_place {links : Nat} {seen : List (FilePlace Name)}
    (h : walk tree root follow links cur parts = (seen, some p)) : p = cur ∨ p ∈ seen := by
  induction links generalizing cur parts seen with
  | zero =>
      rw [walk_eq] at h
      rcases hparts : walkParts tree root follow cur parts with ⟨before, pause⟩
      rw [hparts] at h
      cases pause with
      | stopped place =>
          cases h
          exact walkParts_place hparts
      | atLink dir target rest =>
          cases h
  | succ links ih =>
      rw [walk_eq] at h
      rcases hparts : walkParts tree root follow cur parts with ⟨before, pause⟩
      rw [hparts] at h
      cases pause with
      | stopped place =>
          cases h
          exact walkParts_place hparts
      | atLink dir target rest =>
          dsimp only at h
          rcases hwalk : walk tree root follow links (linkBase root dir target)
            (target.parts ++ rest) with ⟨more, place⟩
          rw [hwalk] at h
          cases h
          rcases ih hwalk with heq | hmem
          · exact Or.inr (List.mem_append_right _ (heq ▸ List.mem_cons_self))
          · exact Or.inr (List.mem_append_right _ (List.mem_cons_of_mem _ hmem))

/-- A walk that goes on with some more parts after it has halted. -/
def extendWalk (seen : List (FilePlace Name)) (rest : List (PathPart Name))
    (more : FilePlace Name -> List (FilePlace Name) × Pause Name) :
    Pause Name -> List (FilePlace Name) × Pause Name
  | .stopped (some d) => (seen ++ (more d).1, (more d).2)
  | .stopped none => (seen, .stopped none)
  | .atLink dir target behind => (seen, .atLink dir target (behind ++ rest))

omit [DecidableEq Name] in
theorem extendWalk_cons (first : FilePlace Name) (seen : List (FilePlace Name))
    (rest : List (PathPart Name))
    (more : FilePlace Name -> List (FilePlace Name) × Pause Name) (pause : Pause Name) :
    extendWalk (first :: seen) rest more pause =
      (first :: (extendWalk seen rest more pause).1, (extendWalk seen rest more pause).2) := by
  cases pause with
  | stopped place =>
      cases place with
      | none => rfl
      | some d => rfl
  | atLink dir target behind => rfl

theorem walkParts_append (hmore : rest ≠ []) :
    walkParts tree root follow cur (parts ++ rest) =
      extendWalk (walkParts tree root true cur parts).1 rest
        (fun d => walkParts tree root follow d rest) (walkParts tree root true cur parts).2 := by
  induction parts generalizing cur with
  | nil =>
      rfl
  | cons part parts ih =>
      rw [List.cons_append, walkParts.eq_def, walkParts.eq_def tree root true cur]
      dsimp only
      cases hnode : tree.node cur with
      | none =>
          rfl
      | some node =>
          cases node with
          | file content =>
              rfl
          | link target =>
              rfl
          | dir =>
              dsimp only
              cases part with
              | here =>
                  exact ih
              | up =>
                  dsimp only
                  rw [extendWalk_cons, ih]
              | name n =>
                  dsimp only
                  split
                  · rename_i target hlink
                    have hempty : (parts ++ rest).isEmpty = false := by
                      rw [List.isEmpty_eq_false_iff]
                      exact fun hnil => hmore (List.append_eq_nil_iff.mp hnil).2
                    rw [hempty, Bool.false_and, if_neg Bool.false_ne_true, Bool.not_true,
                      Bool.and_false, if_neg Bool.false_ne_true]
                    rfl
                  · rw [extendWalk_cons, ih]

/-- A walk behind a directory that a walk has come to, with the links that are left to it. -/
theorem walk_append {links : Nat} {seen : List (FilePlace Name)}
    (h : walk tree root true links cur parts = (seen, some p)) :
    exists left, forall follow rest, rest ≠ [] ->
      walk tree root follow links cur (parts ++ rest) =
        (seen ++ (walk tree root follow left p rest).1,
          (walk tree root follow left p rest).2) := by
  induction links generalizing cur parts seen with
  | zero =>
      rw [walk_eq] at h
      rcases hparts : walkParts tree root true cur parts with ⟨before, pause⟩
      rw [hparts] at h
      cases pause with
      | stopped place =>
          cases h
          refine ⟨0, fun follow rest hmore => ?_⟩
          rw [walk_eq, walkParts_append hmore, hparts, walk_eq]
          dsimp only [extendWalk]
          rcases walkParts tree root follow p rest with ⟨more, pause⟩
          cases pause with
          | stopped place => rfl
          | atLink dir target behind => rfl
      | atLink dir target behind =>
          cases h
  | succ links ih =>
      rw [walk_eq] at h
      rcases hparts : walkParts tree root true cur parts with ⟨before, pause⟩
      rw [hparts] at h
      cases pause with
      | stopped place =>
          cases h
          refine ⟨links + 1, fun follow rest hmore => ?_⟩
          rw [walk_eq, walkParts_append hmore, hparts, walk_eq]
          dsimp only [extendWalk]
          rcases walkParts tree root follow p rest with ⟨more, pause⟩
          cases pause with
          | stopped place => rfl
          | atLink dir target behind =>
              dsimp only
              rw [List.append_assoc]
      | atLink dir target behind =>
          dsimp only at h
          rcases hwalk : walk tree root true links (linkBase root dir target)
            (target.parts ++ behind) with ⟨more, place⟩
          rw [hwalk] at h
          cases h
          rcases ih hwalk with ⟨left, hleft⟩
          refine ⟨left, fun follow rest hmore => ?_⟩
          rw [walk_eq, walkParts_append hmore, hparts]
          dsimp only [extendWalk]
          rw [← List.append_assoc, hleft follow rest hmore, ← List.cons_append,
            ← List.append_assoc]

/-!
# Walks in trees that differ
-/

theorem walkParts_congr {tree' : FileTree Name Content} (hcur : tree'.node cur = tree.node cur)
    (hseen : forall q, q ∈ (walkParts tree root follow cur parts).1 ->
      tree'.node q = tree.node q) :
    walkParts tree' root follow cur parts = walkParts tree root follow cur parts := by
  induction parts generalizing cur with
  | nil =>
      rfl
  | cons part rest ih =>
      rw [walkParts.eq_def, walkParts.eq_def tree]
      rw [walkParts.eq_def] at hseen
      dsimp only at hseen ⊢
      rw [hcur]
      cases hnode : tree.node cur with
      | none =>
          rfl
      | some node =>
          rw [hnode] at hseen hcur
          cases node with
          | file content =>
              rfl
          | link target =>
              rfl
          | dir =>
              dsimp only at hseen ⊢
              cases part with
              | here =>
                  exact ih (hcur.trans hnode.symm) hseen
              | up =>
                  dsimp only at hseen ⊢
                  rw [ih (hseen _ List.mem_cons_self)
                    (fun q hq => hseen q (List.mem_cons_of_mem _ hq))]
              | name n =>
                  dsimp only at hseen ⊢
                  split at hseen
                  · rename_i target hlink
                    have hentry : tree'.node (cur ++ [n]) = tree.node (cur ++ [n]) := by
                      split at hseen
                      · exact hseen _ List.mem_cons_self
                      · exact hseen _ List.mem_cons_self
                    rw [hentry, hlink]
                  · have hentry : tree'.node (cur ++ [n]) = tree.node (cur ++ [n]) :=
                      hseen _ List.mem_cons_self
                    rw [hentry, ih hentry (fun q hq => hseen q (List.mem_cons_of_mem _ hq))]
                    split
                    · rename_i hother _ target hlink
                      exact absurd hlink (hother target)
                    · rfl

/-- A walk is the same in every tree that agrees on the places it comes by. -/
theorem walk_congr {tree' : FileTree Name Content} {links : Nat}
    (hcur : tree'.node cur = tree.node cur)
    (hseen : forall q, q ∈ (walk tree root follow links cur parts).1 ->
      tree'.node q = tree.node q) :
    walk tree' root follow links cur parts = walk tree root follow links cur parts := by
  induction links generalizing cur parts with
  | zero =>
      rw [walk_eq] at hseen
      rw [walk_eq, walk_eq]
      rcases hparts : walkParts tree root follow cur parts with ⟨before, pause⟩
      rw [hparts] at hseen
      have hsame : walkParts tree' root follow cur parts = walkParts tree root follow cur parts :=
        walkParts_congr hcur (by
          rw [hparts]
          cases pause with
          | stopped place => exact hseen
          | atLink dir target rest => exact hseen)
      rw [hsame, hparts]
  | succ links ih =>
      rw [walk_eq] at hseen
      rw [walk_eq, walk_eq]
      rcases hparts : walkParts tree root follow cur parts with ⟨before, pause⟩
      rw [hparts] at hseen
      cases pause with
      | stopped place =>
          have hsame : walkParts tree' root follow cur parts =
              walkParts tree root follow cur parts := walkParts_congr hcur (by
            rw [hparts]
            exact hseen)
          rw [hsame, hparts]
      | atLink dir target rest =>
          dsimp only at hseen
          have hsame : walkParts tree' root follow cur parts =
              walkParts tree root follow cur parts := walkParts_congr hcur (by
            rw [hparts]
            exact fun q hq => hseen q (List.mem_append_left _ hq))
          rw [hsame, hparts]
          dsimp only
          rw [ih (hseen _ (List.mem_append_right _ List.mem_cons_self)) (fun q hq =>
            hseen q (List.mem_append_right _ (List.mem_cons_of_mem _ hq)))]

theorem walkParts_notDir (h : tree.node cur ≠ some .dir) (part : PathPart Name) :
    walkParts tree root follow cur (part :: rest) = ([], .stopped none) := by
  rw [walkParts.eq_def]
  dsimp only
  split
  · rename_i hdir
    exact absurd hdir h
  · rfl

/-- In a tree with fewer entries a walk up to the next link is the same, or it halts before. -/
theorem walkParts_fewer {tree' : FileTree Name Content}
    (hfewer : forall q, tree'.node q = tree.node q ∨ tree'.node q = none)
    (root cur : FilePlace Name) (follow : Bool) (parts : List (PathPart Name)) :
    walkParts tree' root follow cur parts = walkParts tree root follow cur parts ∨
      ((forall q, q ∈ (walkParts tree' root follow cur parts).1 ->
        q ∈ (walkParts tree root follow cur parts).1) ∧
        exists place, (walkParts tree' root follow cur parts).2 = .stopped place) := by
  induction parts generalizing cur with
  | nil =>
      exact Or.inl rfl
  | cons part rest ih =>
      rw [walkParts.eq_def, walkParts.eq_def tree]
      dsimp only
      rcases hfewer cur with hsame | hgone
      · rw [hsame]
        cases hnode : tree.node cur with
        | none =>
            exact Or.inl rfl
        | some node =>
            cases node with
            | file content =>
                exact Or.inl rfl
            | link target =>
                exact Or.inl rfl
            | dir =>
                dsimp only
                cases part with
                | here =>
                    exact ih cur
                | up =>
                    dsimp only
                    rcases ih (parentIn root cur) with hwalk | ⟨hseen, hstop⟩
                    · rw [hwalk]
                      exact Or.inl rfl
                    · refine Or.inr ⟨?_, hstop⟩
                      intro q hq
                      rcases List.mem_cons.mp hq with heq | hmem
                      · exact List.mem_cons.mpr (Or.inl heq)
                      · exact List.mem_cons_of_mem _ (hseen q hmem)
                | name n =>
                    dsimp only
                    rcases hfewer (cur ++ [n]) with hentry | hlost
                    · rw [hentry]
                      split
                      · exact Or.inl rfl
                      · rcases ih (cur ++ [n]) with hwalk | ⟨hseen, hstop⟩
                        · rw [hwalk]
                          exact Or.inl rfl
                        · refine Or.inr ⟨?_, hstop⟩
                          intro q hq
                          rcases List.mem_cons.mp hq with heq | hmem
                          · exact List.mem_cons.mpr (Or.inl heq)
                          · exact List.mem_cons_of_mem _ (hseen q hmem)
                    · rw [hlost]
                      dsimp only
                      have hshort : (walkParts tree' root follow (cur ++ [n]) rest).1 = [] ∧
                          exists place,
                            (walkParts tree' root follow (cur ++ [n]) rest).2 =
                              .stopped place := by
                        cases rest with
                        | nil =>
                            exact ⟨rfl, _, rfl⟩
                        | cons part rest =>
                            rw [walkParts_notDir (by rw [hlost]; nofun)]
                            exact ⟨rfl, _, rfl⟩
                      refine Or.inr ⟨?_, hshort.2⟩
                      rw [hshort.1]
                      intro q hq
                      rw [List.mem_singleton.mp hq]
                      split
                      · split
                        · exact List.mem_cons_self
                        · exact List.mem_cons_self
                      · exact List.mem_cons_self
      · rw [hgone]
        exact Or.inr ⟨nofun, _, rfl⟩

theorem walk_fewer {tree' : FileTree Name Content} {links : Nat} {q : FilePlace Name}
    (hfewer : forall q, tree'.node q = tree.node q ∨ tree'.node q = none)
    (h : q ∈ (walk tree' root follow links cur parts).1) :
    q ∈ (walk tree root follow links cur parts).1 := by
  induction links generalizing cur parts with
  | zero =>
      rw [walk_eq] at h ⊢
      rcases walkParts_fewer hfewer root cur follow parts with hsame | ⟨hseen, place, hstop⟩
      · rw [hsame] at h
        exact h
      · rcases hparts' : walkParts tree' root follow cur parts with ⟨before', pause'⟩
        rw [hparts'] at h hseen hstop
        cases hstop
        have hmem := hseen q h
        rcases hparts : walkParts tree root follow cur parts with ⟨before, pause⟩
        rw [hparts] at hmem
        cases pause with
        | stopped place => exact hmem
        | atLink dir target rest => exact hmem
  | succ links ih =>
      rw [walk_eq] at h ⊢
      rcases walkParts_fewer hfewer root cur follow parts with hsame | ⟨hseen, place, hstop⟩
      · rw [hsame] at h
        rcases hparts : walkParts tree root follow cur parts with ⟨before, pause⟩
        rw [hparts] at h
        cases pause with
        | stopped place => exact h
        | atLink dir target rest =>
            rcases List.mem_append.mp h with hbefore | hbehind
            · exact List.mem_append_left _ hbefore
            · rcases List.mem_cons.mp hbehind with heq | hmem
              · exact List.mem_append_right _ (List.mem_cons.mpr (Or.inl heq))
              · exact List.mem_append_right _ (List.mem_cons_of_mem _ (ih hmem))
      · rcases hparts' : walkParts tree' root follow cur parts with ⟨before', pause'⟩
        rw [hparts'] at h hseen hstop
        cases hstop
        have hmem := hseen q h
        rcases hparts : walkParts tree root follow cur parts with ⟨before, pause⟩
        rw [hparts] at hmem
        cases pause with
        | stopped place => exact hmem
        | atLink dir target rest => exact List.mem_append_left _ hmem

/-!
# What a walk comes by exists
-/

theorem walkParts_exists {follow : Bool} {parts : List (PathPart Name)}
    (hroot : tree.node root = some .dir) (hcur : tree.node cur ≠ none)
    (hend : forall place, (walkParts tree root follow cur parts).2 = .stopped place ->
      exists p, place = some p ∧ tree.node p ≠ none) :
    (forall q, q ∈ (walkParts tree root follow cur parts).1 -> tree.node q ≠ none) ∧
      forall dir target rest, (walkParts tree root follow cur parts).2 =
        .atLink dir target rest -> tree.node dir = some .dir := by
  induction parts generalizing cur with
  | nil =>
      exact ⟨nofun, nofun⟩
  | cons part rest ih =>
      rw [walkParts.eq_def] at hend ⊢
      dsimp only at hend ⊢
      split at hend
      · rename_i hdir
        cases part with
        | here =>
            exact ih hcur hend
        | up =>
            dsimp only at hend ⊢
            have hparent : tree.node (parentIn root cur) ≠ none := by
              rw [parent_dir hroot hdir]
              nofun
            rcases ih hparent hend with ⟨hseen, hat⟩
            refine ⟨?_, hat⟩
            intro q hq
            rcases List.mem_cons.mp hq with heq | hmem
            · rw [heq]
              exact hparent
            · exact hseen q hmem
        | name n =>
            dsimp only at hend ⊢
            split at hend
            · rename_i target hlink
              have hentry : tree.node (cur ++ [n]) ≠ none := by
                rw [hlink]
                nofun
              split
              · refine ⟨?_, nofun⟩
                intro q hq
                rw [List.mem_singleton.mp hq]
                exact hentry
              · refine ⟨?_, ?_⟩
                · intro q hq
                  rw [List.mem_singleton.mp hq]
                  exact hentry
                · intro dir target' rest' hat
                  cases hat
                  exact hdir
            · rename_i hother
              have hentry : tree.node (cur ++ [n]) ≠ none := by
                intro hnone
                cases rest with
                | nil =>
                    rcases hend _ rfl with ⟨p, hp, hp'⟩
                    cases hp
                    exact hp' hnone
                | cons part rest =>
                    rw [walkParts_notDir (by rw [hnone]; nofun)] at hend
                    rcases hend _ rfl with ⟨p, hp, _⟩
                    cases hp
              rcases ih hentry hend with ⟨hseen, hat⟩
              refine ⟨?_, hat⟩
              intro q hq
              rcases List.mem_cons.mp hq with heq | hmem
              · rw [heq]
                exact hentry
              · exact hseen q hmem
      · rcases hend _ rfl with ⟨p, hp, _⟩
        cases hp

theorem walkParts_arrives {seen : List (FilePlace Name)} (hroot : tree.node root = some .dir)
    (hcur : tree.node cur ≠ none)
    (hparts : walkParts tree root follow cur parts = (seen, .stopped (some p)))
    (hp : tree.node p ≠ none) {q : FilePlace Name} (hq : q ∈ seen) : tree.node q ≠ none := by
  have hend : forall place, (walkParts tree root follow cur parts).2 =
      .stopped place -> exists p, place = some p ∧ tree.node p ≠ none := by
    rw [hparts]
    intro place hplace
    cases hplace
    exact ⟨p, rfl, hp⟩
  have hall := walkParts_exists hroot hcur hend
  rw [hparts] at hall
  exact hall.1 q hq

theorem walk_exists {links : Nat} (hroot : tree.node root = some .dir)
    (hcur : tree.node cur ≠ none) {seen : List (FilePlace Name)}
    (h : walk tree root follow links cur parts = (seen, some p)) (hp : tree.node p ≠ none)
    {q : FilePlace Name} (hq : q ∈ seen) : tree.node q ≠ none := by
  induction links generalizing cur parts seen with
  | zero =>
      rw [walk_eq] at h
      rcases hparts : walkParts tree root follow cur parts with ⟨before, pause⟩
      rw [hparts] at h
      cases pause with
      | stopped place =>
          cases h
          exact walkParts_arrives hroot hcur hparts hp hq
      | atLink dir target rest =>
          cases h
  | succ links ih =>
      rw [walk_eq] at h
      rcases hparts : walkParts tree root follow cur parts with ⟨before, pause⟩
      rw [hparts] at h
      cases pause with
      | stopped place =>
          cases h
          exact walkParts_arrives hroot hcur hparts hp hq
      | atLink dir target rest =>
          dsimp only at h
          rcases hwalk : walk tree root follow links (linkBase root dir target)
            (target.parts ++ rest) with ⟨more, place⟩
          rw [hwalk] at h
          cases h
          have hend : forall place, (walkParts tree root follow cur parts).2 =
              .stopped place -> exists p, place = some p ∧ tree.node p ≠ none := by
            rw [hparts]
            nofun
          have hall := walkParts_exists hroot hcur hend
          rw [hparts] at hall
          have hbase : tree.node (linkBase root dir target) ≠ none := by
            rw [linkBase_dir hroot (hall.2 dir target rest rfl)]
            nofun
          rcases List.mem_append.mp hq with hbefore | hbehind
          · exact hall.1 q hbefore
          · rcases List.mem_cons.mp hbehind with heq | hmem
            · rw [heq]
              exact hbase
            · exact ih hbase hwalk hmem

/-!
# Short walks
-/

theorem walk_nil (links : Nat) : walk tree root follow links cur [] = ([], some cur) := by
  rw [walk_eq]
  rfl

theorem walkParts_name {n : Name} (hdir : tree.node cur = some .dir)
    (hother : forall target, tree.node (cur ++ [n]) ≠ some (.link target)) :
    walkParts tree root follow cur (.name n :: rest) =
      ((cur ++ [n]) :: (walkParts tree root follow (cur ++ [n]) rest).1,
        (walkParts tree root follow (cur ++ [n]) rest).2) := by
  rw [walkParts.eq_def]
  dsimp only
  rw [hdir]
  dsimp only
  split
  · rename_i target hlink
    exact absurd hlink (hother target)
  · rfl

theorem walkParts_stop {n : Name} {target : PathText Name} (hdir : tree.node cur = some .dir)
    (hlink : tree.node (cur ++ [n]) = some (.link target)) :
    walkParts tree root false cur [.name n] = ([cur ++ [n]], .stopped (some (cur ++ [n]))) := by
  rw [walkParts.eq_def]
  dsimp only
  rw [hdir]
  dsimp only
  rw [hlink]
  rfl

theorem walk_name (links : Nat) {n : Name} (hdir : tree.node cur = some .dir)
    (hlast : follow = false ∨ forall target, tree.node (cur ++ [n]) ≠ some (.link target)) :
    walk tree root follow links cur [.name n] = ([cur ++ [n]], some (cur ++ [n])) := by
  have hplain : (forall target, tree.node (cur ++ [n]) ≠ some (.link target)) ->
      walk tree root follow links cur [.name n] = ([cur ++ [n]], some (cur ++ [n])) := by
    intro hother
    rw [walk_eq, walkParts_name hdir hother]
    rfl
  rcases hlast with hfollow | hother
  · by_cases hlink : exists target, tree.node (cur ++ [n]) = some (.link target)
    · rcases hlink with ⟨target, hlink⟩
      rw [walk_eq, hfollow, walkParts_stop hdir hlink]
    · exact hplain (fun target hlink' => hlink ⟨target, hlink'⟩)
  · exact hplain hother

theorem walk_up (links : Nat) (hdir : tree.node cur = some .dir) :
    walk tree root follow links cur [.up] =
      ([parentIn root cur], some (parentIn root cur)) := by
  rw [walk_eq, walkParts.eq_def]
  dsimp only
  rw [hdir]
  rfl

end Foundation
end Bab750

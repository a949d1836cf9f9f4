import Bab750.Foundation.FileTree

/-!
# Paths without links on the way

In a part of a tree whose directories are real, a path leads to the place that it spells: the
names of the path are the place, and a path that climbs before it descends can be worked out as
text.
-/

namespace Bab750
namespace Foundation

universe u v

variable {Name : Type u} {Content : Type v} [DecidableEq Name] {tree : FileTree Name Content}
  {root cur p : FilePlace Name} {follow : Bool} {parts rest : List (PathPart Name)}

/-!
# Uniqueness
-/

theorem Reaches.unique (h : Reaches tree root follow cur parts p) {q : FilePlace Name}
    (h' : Reaches tree root follow cur parts q) : p = q := by
  induction h with
  | done =>
      cases h'
      rfl
  | here _ _ ih =>
      cases h' with
      | here _ h' => exact ih h'
  | up _ _ ih =>
      cases h' with
      | up _ h' => exact ih h'
  | name _ hother _ ih =>
      cases h' with
      | name _ _ h' => exact ih h'
      | stop _ hlink _ => exact absurd hlink (hother _)
      | link _ hlink _ _ => exact absurd hlink (hother _)
  | stop _ hlink hfollow =>
      cases h' with
      | name _ hother _ => exact absurd hlink (hother _)
      | stop _ _ _ => rfl
      | link _ _ hgo _ =>
          rcases hgo with hmore | htrue
          · exact absurd rfl hmore
          · rw [hfollow] at htrue
            cases htrue
  | link _ hlink hgo _ ih =>
      cases h' with
      | name _ hother _ => exact absurd hlink (hother _)
      | stop _ _ hfollow =>
          rcases hgo with hmore | htrue
          · exact absurd rfl hmore
          · rw [hfollow] at htrue
            cases htrue
      | link _ hlink' _ h' =>
          rw [hlink] at hlink'
          cases hlink'
          exact ih h'

/-!
# Directories above a place
-/

omit [DecidableEq Name] in
theorem prefix_dir {names : List Name} (hnames : names ≠ [])
    (h : tree.node (cur ++ names) ≠ none) : tree.node cur = some .dir := by
  induction names using List.reverseRecOn with
  | nil =>
      exact absurd rfl hnames
  | append_singleton front last ih =>
      rw [← List.append_assoc] at h
      have hdir := tree.closed _ _ h
      by_cases hfront : front = []
      · rw [hfront, List.append_nil] at hdir
        exact hdir
      · apply ih hfront
        rw [hdir]
        nofun

omit [DecidableEq Name] in
theorem dir_of_dir {names : List Name} (h : tree.node (cur ++ names) = some .dir) :
    tree.node cur = some .dir := by
  by_cases hnames : names = []
  · rw [hnames, List.append_nil] at h
    exact h
  · apply prefix_dir hnames
    rw [h]
    nofun

theorem walk_name_cons (links : Nat) {n : Name} (hdir : tree.node cur = some .dir)
    (hother : forall target, tree.node (cur ++ [n]) ≠ some (.link target)) :
    walk tree root follow links cur (.name n :: rest) =
      ((cur ++ [n]) :: (walk tree root follow links (cur ++ [n]) rest).1,
        (walk tree root follow links (cur ++ [n]) rest).2) := by
  rw [walk_eq, walkParts_name hdir hother, walk_eq]
  rcases walkParts tree root follow (cur ++ [n]) rest with ⟨seen, pause⟩
  cases pause with
  | stopped place => rfl
  | atLink dir target behind =>
      cases links with
      | zero => rfl
      | succ more => rfl

theorem walk_up_cons (links : Nat) (hdir : tree.node cur = some .dir) :
    walk tree root follow links cur (.up :: rest) =
      (parentIn root cur :: (walk tree root follow links (parentIn root cur) rest).1,
        (walk tree root follow links (parentIn root cur) rest).2) := by
  rw [walk_eq, walkParts.eq_def]
  dsimp only
  rw [hdir, walk_eq]
  rcases walkParts tree root follow (parentIn root cur) rest with ⟨seen, pause⟩
  cases pause with
  | stopped place => rfl
  | atLink dir target behind =>
      cases links with
      | zero => rfl
      | succ more => rfl

theorem walk_names (links : Nat) (names : List Name)
    (hfront : tree.node (cur ++ names.dropLast) = some .dir)
    (hlast : follow = false ∨ forall target, tree.node (cur ++ names) ≠ some (.link target)) :
    (walk tree root follow links cur (names.map .name)).2 = some (cur ++ names) ∧
      forall q, q ∈ (walk tree root follow links cur (names.map .name)).1 -> cur <+: q := by
  induction names generalizing cur with
  | nil =>
      rw [List.map_nil, walk_nil, List.append_nil]
      exact ⟨rfl, nofun⟩
  | cons n names ih =>
      by_cases hnames : names = []
      · rw [hnames] at hlast ⊢
        have hdir : tree.node cur = some .dir := dir_of_dir hfront
        rw [List.map_cons, List.map_nil, walk_name links hdir hlast]
        refine ⟨rfl, ?_⟩
        intro q hq
        rw [List.mem_singleton.mp hq]
        exact List.prefix_append _ _
      · have hsplit : cur ++ (n :: names).dropLast = (cur ++ [n]) ++ names.dropLast := by
          rw [List.dropLast_cons_of_ne_nil hnames, List.append_assoc, List.singleton_append]
        rw [hsplit] at hfront
        have hnext : tree.node (cur ++ [n]) = some .dir := dir_of_dir hfront
        have hjoin : cur ++ n :: names = (cur ++ [n]) ++ names := by
          rw [List.append_assoc, List.singleton_append]
        rw [hjoin] at hlast ⊢
        rw [List.map_cons, walk_name_cons links (dir_of_dir hnext) (dir_not_link hnext)]
        rcases ih hfront hlast with ⟨hplace, hseen⟩
        refine ⟨hplace, ?_⟩
        intro q hq
        rcases List.mem_cons.mp hq with heq | hmem
        · rw [heq]
          exact List.prefix_append _ _
        · exact (List.prefix_append _ _).trans (hseen q hmem)

/-!
# Paths as text
-/

/-- Where a path from a place leads as text, unless it climbs above the root. -/
def lexical : List Name -> List (PathPart Name) -> Option (List Name)
  | names, [] => some names
  | names, .here :: rest => lexical names rest
  | names, .name n :: rest => lexical (names ++ [n]) rest
  | names, .up :: rest => if names = [] then none else lexical names.dropLast rest

def PathPart.name? : PathPart Name -> Option Name
  | .name n => some n
  | _ => none

def Plain (parts : List (PathPart Name)) : Prop :=
  parts.Pairwise (fun a b => (exists n, a = .name n) -> b ≠ .up)

omit [DecidableEq Name] in
theorem lexical_noUp {names : List Name} (hup : .up ∉ parts) :
    lexical names parts = some (names ++ parts.filterMap PathPart.name?) := by
  induction parts generalizing names with
  | nil =>
      rw [List.filterMap_nil, List.append_nil]
      rfl
  | cons part parts ih =>
      have hrest : PathPart.up ∉ parts := fun hmem => hup (List.mem_cons_of_mem _ hmem)
      cases part with
      | here =>
          exact ih hrest
      | up =>
          exact absurd List.mem_cons_self hup
      | name n =>
          show lexical (names ++ [n]) parts = _
          rw [ih hrest, List.append_assoc]
          rfl

/-- A plain path leads where it does as text, if the directories are there. -/
theorem reaches_lexical {names : List Name} {start : List Name}
    (hstart : tree.node (root ++ start) = some .dir) (hlexical : lexical start parts = some names)
    (hfront : tree.node (root ++ names.dropLast) = some .dir) (hplain : Plain parts)
    (hend : forall front, parts = front ++ [.here] -> tree.node (root ++ names) = some .dir) :
    Reaches tree root false (root ++ start) parts (root ++ names) := by
  induction parts generalizing start with
  | nil =>
      cases hlexical
      exact .done _
  | cons part parts ih =>
      have hplain' := (List.pairwise_cons.mp hplain).2
      have hend' : forall front, parts = front ++ [.here] ->
          tree.node (root ++ names) = some .dir := by
        intro front hparts
        exact hend (part :: front) (by rw [hparts, List.cons_append])
      cases part with
      | here =>
          exact .here hstart (ih hstart hlexical hplain' hend')
      | up =>
          rw [lexical] at hlexical
          split at hlexical
          · cases hlexical
          · rename_i hne
            have hback : start = start.dropLast ++ [start.getLast hne] :=
              (List.dropLast_append_getLast hne).symm
            have hparent : parentIn root (root ++ start) = root ++ start.dropLast := by
              unfold parentIn
              rw [if_neg (by simpa using hne), List.dropLast_append_of_ne_nil hne]
            have hdir : tree.node (root ++ start.dropLast) = some .dir := by
              rw [hback, ← List.append_assoc] at hstart
              exact dir_of_dir hstart
            apply Reaches.up hstart
            rw [hparent]
            exact ih hdir hlexical hplain' hend'
      | name n =>
          have hnoUp : .up ∉ parts := fun hmem =>
            (List.pairwise_cons.mp hplain).1 .up hmem ⟨n, rfl⟩ rfl
          have hnames : names = start ++ [n] ++ parts.filterMap PathPart.name? := by
            have heq : lexical (start ++ [n]) parts = some names := hlexical
            rw [lexical_noUp hnoUp] at heq
            exact (Option.some.inj heq).symm
          have hjoin : root ++ start ++ [n] = root ++ (start ++ [n]) := List.append_assoc _ _ _
          by_cases hparts : parts = []
          · rw [hparts, List.filterMap_nil, List.append_nil] at hnames
            rw [hparts, hnames]
            by_cases hlink : exists target, tree.node (root ++ start ++ [n]) = some (.link target)
            · rcases hlink with ⟨target, hlink⟩
              rw [← hjoin]
              exact .stop hstart hlink rfl
            · rw [← hjoin]
              exact .name hstart (fun target hlink' => hlink ⟨target, hlink'⟩) (.done _)
          · have hnext : tree.node (root ++ (start ++ [n])) = some .dir := by
              by_cases hmore : parts.filterMap PathPart.name? = []
              · -- nothing but `here` follows, and so the path ends in it
                have hlast : parts = parts.dropLast ++ [.here] := by
                  have hall := List.filterMap_eq_nil_iff.mp hmore _ (List.getLast_mem hparts)
                  have hup := List.getLast_mem hparts
                  rw [← List.dropLast_append_getLast hparts] at hnoUp
                  cases hpart : parts.getLast hparts with
                  | here =>
                      conv_lhs => rw [← List.dropLast_append_getLast hparts, hpart]
                  | up =>
                      rw [hpart] at hup
                      rw [List.dropLast_append_getLast hparts] at hnoUp
                      exact absurd hup hnoUp
                  | name m =>
                      rw [hpart] at hall
                      cases hall
                have hdir := hend' _ hlast
                rw [hnames, hmore, List.append_nil] at hdir
                exact hdir
              · rw [hnames, List.dropLast_append_of_ne_nil hmore, ← List.append_assoc] at hfront
                exact dir_of_dir hfront
            refine .name hstart (by rw [hjoin]; exact dir_not_link hnext) ?_
            rw [hjoin]
            exact ih hnext hlexical hplain' hend'

/-!
# The front of a path
-/

/-- What a path leads to lies behind a directory that its front leads to. -/
theorem Reaches.split {front : List (PathPart Name)} (hrest : rest ≠ [])
    (h : Reaches tree root follow cur (front ++ rest) p) :
    exists d, Reaches tree root true cur front d ∧ tree.node d = some .dir ∧
      Reaches tree root follow d rest p := by
  generalize hparts : front ++ rest = parts at h
  induction h generalizing front with
  | done cur =>
      exact absurd (List.append_eq_nil_iff.mp hparts).2 hrest
  | @here cur p behind hdir h ih =>
      cases front with
      | nil =>
          rw [List.nil_append] at hparts
          rw [hparts]
          exact ⟨cur, .done cur, hdir, .here hdir h⟩
      | cons part front =>
          cases hparts
          rcases ih rfl with ⟨d, hd, hnode, hmore⟩
          exact ⟨d, .here hdir hd, hnode, hmore⟩
  | @up cur p behind hdir h ih =>
      cases front with
      | nil =>
          rw [List.nil_append] at hparts
          rw [hparts]
          exact ⟨cur, .done cur, hdir, .up hdir h⟩
      | cons part front =>
          cases hparts
          rcases ih rfl with ⟨d, hd, hnode, hmore⟩
          exact ⟨d, .up hdir hd, hnode, hmore⟩
  | @name cur p n behind hdir hother h ih =>
      cases front with
      | nil =>
          rw [List.nil_append] at hparts
          rw [hparts]
          exact ⟨cur, .done cur, hdir, .name hdir hother h⟩
      | cons part front =>
          cases hparts
          rcases ih rfl with ⟨d, hd, hnode, hmore⟩
          exact ⟨d, .name hdir hother hd, hnode, hmore⟩
  | @stop cur n target hdir hlink hfollow =>
      cases front with
      | nil =>
          rw [List.nil_append] at hparts
          rw [hparts]
          exact ⟨cur, .done cur, hdir, .stop hdir hlink hfollow⟩
      | cons part front =>
          rcases List.cons.inj hparts with ⟨_, hnil⟩
          exact absurd (List.append_eq_nil_iff.mp hnil).2 hrest
  | @link cur p n behind target hdir hlink hgo h ih =>
      cases front with
      | nil =>
          rw [List.nil_append] at hparts
          rw [hparts]
          exact ⟨cur, .done cur, hdir, .link hdir hlink hgo h⟩
      | cons part front =>
          cases hparts
          rcases ih (List.append_assoc target.parts front rest) with ⟨d, hd, hnode, hmore⟩
          exact ⟨d, .link hdir hlink (Or.inr rfl) hd, hnode, hmore⟩

theorem Reaches.dir_of_here {front : List (PathPart Name)}
    (h : Reaches tree root follow cur (front ++ [.here]) p) : tree.node p = some .dir := by
  rcases h.split (List.cons_ne_nil _ _) with ⟨d, _, hnode, hlast⟩
  cases hlast with
  | here _ hdone =>
      cases hdone
      exact hnode

end Foundation
end Bab750

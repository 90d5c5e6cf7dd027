import Mathlib.Data.List.Infix
import Mathlib.Logic.Function.Basic

/-!
# File trees

A tree of directories and files with inode numbers, and the operations of a
filesystem on it: a new entry, the removal of a leaf, and the move of an entry
with everything below it.  An `FsTree` is well formed by construction: every
entry lies in a directory, no inode has two paths, and the next number is
fresh.  Paths are lists of names; the empty path is the top directory.
-/

namespace MirrorMirage.FileTree

open Function (update)

structure Node where
  ino : ℕ
  isDir : Bool
  deriving DecidableEq, Repr

/-- `support` bounds the paths in use, so that directories can be listed. -/
structure FsTree (Name : Type*) where
  node : List Name → Option Node
  support : List (List Name)
  nextIno : ℕ
  known : ∀ {path}, node path ≠ none → path ∈ support
  parent : ∀ {dir name}, node (dir ++ [name]) ≠ none →
    ∃ ino, node dir = some ⟨ino, true⟩
  unique : ∀ {path other entry entry'}, node path = some entry →
    node other = some entry' → entry.ino = entry'.ino → path = other
  fresh : ∀ {path entry}, node path = some entry → entry.ino < nextIno

namespace FsTree

variable {Name : Type*}

section Lookup

variable (tree : FsTree Name) {path dir : List Name} {name : Name}

def isDir (path : List Name) : Bool :=
  (tree.node path).any (·.isDir)

theorem isDir_iff :
    tree.isDir path ↔ ∃ ino, tree.node path = some ⟨ino, true⟩ := by
  unfold isDir
  cases tree.node path with
  | none => simp
  | some entry => cases entry; simp

/-- Everything above an entry is a directory. -/
theorem isDir_of_below {rel : List Name} (hrel : rel ≠ [])
    (hentry : tree.node (dir ++ rel) ≠ none) :
    ∃ ino, tree.node dir = some ⟨ino, true⟩ := by
  induction rel using List.reverseRecOn with
  | nil => exact absurd rfl hrel
  | append_singleton rel name ih =>
      rw [← List.append_assoc] at hentry
      obtain ⟨ino, hdir⟩ := tree.parent hentry
      cases rel with
      | nil => exact ⟨ino, by simpa using hdir⟩
      | cons first rel => exact ih (by simp) (by simp [hdir])

/-- Where the inode is. -/
def pathOf (ino : ℕ) : Option (List Name) :=
  tree.support.find? fun path => (tree.node path).any (·.ino = ino)

theorem pathOf_eq_some_iff {ino : ℕ} : tree.pathOf ino = some path ↔
    ∃ isDir, tree.node path = some ⟨ino, isDir⟩ := by
  have hnode : ∀ path, (tree.node path).any (·.ino = ino) ↔
      ∃ isDir, tree.node path = some ⟨ino, isDir⟩ := by
    intro path
    cases hentry : tree.node path with
    | none => simp
    | some entry => cases entry; simp
  have hfound : ∀ {path}, tree.pathOf ino = some path →
      ∃ isDir, tree.node path = some ⟨ino, isDir⟩ := by
    intro path h
    unfold pathOf at h
    have hany := List.find?_some h
    exact (hnode path).mp hany
  constructor
  · exact hfound
  · rintro ⟨isDir, hpath⟩
    cases hfind : tree.pathOf ino with
    | none =>
        have hnone := List.find?_eq_none.mp hfind path
          (tree.known (by simp [hpath]))
        exact absurd ((hnode path).mpr ⟨isDir, hpath⟩) hnone
    | some other =>
        obtain ⟨isDir', hother⟩ := hfound hfind
        rw [tree.unique hother hpath rfl]

variable [DecidableEq Name]

/-- What is in a directory, with the kind of each entry. -/
def listing (dir : List Name) : List (Name × Bool) :=
  tree.support.filterMap fun path =>
    match path.getLast?, tree.node path with
    | some name, some entry =>
        if path.dropLast = dir then some (name, entry.isDir) else none
    | _, _ => none

theorem mem_listing_iff {isDir : Bool} : (name, isDir) ∈ tree.listing dir ↔
    ∃ ino, tree.node (dir ++ [name]) = some ⟨ino, isDir⟩ := by
  simp only [listing, List.mem_filterMap]
  constructor
  · rintro ⟨path, -, hpath⟩
    split at hpath
    · rename_i found entry hlast hentry
      split at hpath
      · rename_i hdir
        cases hpath
        obtain ⟨init, rfl⟩ := List.getLast?_eq_some_iff.mp hlast
        rw [List.dropLast_concat] at hdir
        exact ⟨entry.ino, hdir ▸ hentry⟩
      · cases hpath
    · cases hpath
  · rintro ⟨ino, hentry⟩
    exact ⟨dir ++ [name], tree.known (by simp [hentry]), by simp [hentry]⟩

/-- Nothing lies below the path. -/
def isLeaf (path : List Name) : Bool := (tree.listing path).isEmpty

theorem node_eq_none_of_isLeaf (hleaf : tree.isLeaf path) (name : Name) :
    tree.node (path ++ [name]) = none := by
  by_contra hne
  obtain ⟨entry, hentry⟩ := Option.ne_none_iff_exists'.mp hne
  have hmem : (name, entry.isDir) ∈ tree.listing path :=
    tree.mem_listing_iff.mpr ⟨entry.ino, hentry⟩
  rw [List.isEmpty_iff.mp hleaf] at hmem
  cases hmem

theorem node_eq_none_below {rel : List Name} (hleaf : tree.isLeaf path)
    (hrel : rel ≠ []) : tree.node (path ++ rel) = none := by
  by_contra hne
  obtain ⟨first, rest, rfl⟩ := List.exists_cons_of_ne_nil hrel
  have hchild := tree.node_eq_none_of_isLeaf hleaf first
  rw [← List.singleton_append, ← List.append_assoc] at hne
  by_cases hrest : rest = []
  · exact hne (by simpa [hrest] using hchild)
  · obtain ⟨ino, hdir⟩ := tree.isDir_of_below hrest hne
    rw [hchild] at hdir
    cases hdir

theorem isLeaf_of_not_isDir (hdir : tree.isDir path = false) :
    tree.isLeaf path := by
  rw [isLeaf, List.isEmpty_iff, List.eq_nil_iff_forall_not_mem]
  rintro ⟨name, isDir⟩ hmem
  obtain ⟨ino, hentry⟩ := tree.mem_listing_iff.mp hmem
  have hne : tree.node (path ++ [name]) ≠ none := by simp [hentry]
  have hparent := tree.isDir_iff.mpr (tree.parent hne)
  simp [hdir] at hparent

end Lookup

/-! ## Operations -/

section Operations

variable [DecidableEq Name]

/-- The top directory alone. -/
def top : FsTree Name where
  node := fun path => if path = [] then some ⟨0, true⟩ else none
  support := [[]]
  nextIno := 1
  known := by simp
  parent := by simp
  unique := by simp_all
  fresh := by
    intro path entry hentry
    split at hentry <;> cases hentry
    exact Nat.one_pos

variable (tree : FsTree Name)

def CanInsert (dir : List Name) (name : Name) : Prop :=
  tree.isDir dir ∧ tree.node (dir ++ [name]) = none

instance (dir : List Name) (name : Name) :
    Decidable (tree.CanInsert dir name) :=
  inferInstanceAs (Decidable (_ ∧ _))

/-- A new entry under a fresh inode. -/
def insert (dir : List Name) (name : Name) (isDir : Bool)
    (h : tree.CanInsert dir name) : FsTree Name where
  node := update tree.node (dir ++ [name]) (some ⟨tree.nextIno, isDir⟩)
  support := (dir ++ [name]) :: tree.support
  nextIno := tree.nextIno + 1
  known := by
    intro path hpath
    by_cases heq : path = dir ++ [name]
    · simp [heq]
    · rw [Function.update_of_ne heq] at hpath
      exact List.mem_cons_of_mem _ (tree.known hpath)
  parent := by
    intro above below hbelow
    have hkeep : ∀ {path ino}, tree.node path = some ⟨ino, true⟩ →
        update tree.node (dir ++ [name]) (some ⟨tree.nextIno, isDir⟩) path =
          some ⟨ino, true⟩ := by
      intro path ino hdir
      rw [Function.update_of_ne, hdir]
      rintro rfl
      simp [h.2] at hdir
    by_cases heq : above ++ [below] = dir ++ [name]
    · obtain ⟨rfl, -⟩ := List.append_inj' heq rfl
      obtain ⟨ino, hdir⟩ := tree.isDir_iff.mp h.1
      exact ⟨ino, hkeep hdir⟩
    · rw [Function.update_of_ne heq] at hbelow
      obtain ⟨ino, hdir⟩ := tree.parent hbelow
      exact ⟨ino, hkeep hdir⟩
  unique := by
    intro path other entry entry' hpath hother hino
    by_cases heq : path = dir ++ [name] <;>
      by_cases heq' : other = dir ++ [name]
    · rw [heq, heq']
    · rw [heq, Function.update_self] at hpath
      rw [Function.update_of_ne heq'] at hother
      cases hpath
      exact absurd hino (tree.fresh hother).ne'
    · rw [heq', Function.update_self] at hother
      rw [Function.update_of_ne heq] at hpath
      cases hother
      exact absurd hino (tree.fresh hpath).ne
    · rw [Function.update_of_ne heq] at hpath
      rw [Function.update_of_ne heq'] at hother
      exact tree.unique hpath hother hino
  fresh := by
    intro path entry hpath
    by_cases heq : path = dir ++ [name]
    · rw [heq, Function.update_self] at hpath
      cases hpath
      exact Nat.lt_succ_self _
    · rw [Function.update_of_ne heq] at hpath
      exact (tree.fresh hpath).trans (Nat.lt_succ_self _)

theorem insert_node_of_eq_some {dir path : List Name} {name : Name}
    {isDir : Bool} {entry : Node} (h : tree.CanInsert dir name)
    (hpath : tree.node path = some entry) :
    (tree.insert dir name isDir h).node path = some entry := by
  refine (Function.update_of_ne ?_ ..).trans hpath
  rintro rfl
  simp [h.2] at hpath

/-- The removal of a leaf. -/
def erase (path : List Name) (h : tree.isLeaf path) : FsTree Name where
  node := update tree.node path none
  support := tree.support
  nextIno := tree.nextIno
  known := by
    intro other hother
    by_cases heq : other = path
    · simp [heq] at hother
    · rw [Function.update_of_ne heq] at hother
      exact tree.known hother
  parent := by
    intro dir name hbelow
    by_cases heq : dir ++ [name] = path
    · simp [heq] at hbelow
    · rw [Function.update_of_ne heq] at hbelow
      obtain ⟨ino, hdir⟩ := tree.parent hbelow
      refine ⟨ino, ?_⟩
      rw [Function.update_of_ne, hdir]
      rintro rfl
      exact hbelow (tree.node_eq_none_of_isLeaf h name)
  unique := by
    intro first second entry entry' hfirst hsecond
    by_cases heq : first = path
    · simp [heq] at hfirst
    · by_cases heq' : second = path
      · simp [heq'] at hsecond
      · rw [Function.update_of_ne heq] at hfirst
        rw [Function.update_of_ne heq'] at hsecond
        exact tree.unique hfirst hsecond
  fresh := by
    intro other entry hother
    by_cases heq : other = path
    · simp [heq] at hother
    · rw [Function.update_of_ne heq] at hother
      exact tree.fresh hother

def CanMove (src dir : List Name) (name : Name) : Prop :=
  tree.node src ≠ none ∧ tree.isDir dir ∧ tree.isLeaf (dir ++ [name]) ∧
    ¬ src <+: dir ++ [name]

instance (src dir : List Name) (name : Name) :
    Decidable (tree.CanMove src dir name) :=
  inferInstanceAs (Decidable (_ ∧ _))

/-- Where the entries are once `src`, with all that is below it, has become
`dst`. -/
def movedNode (src dst path : List Name) : Option Node :=
  if dst <+: path then tree.node (src ++ path.drop dst.length)
  else if src <+: path then none
  else tree.node path

section Moved

variable {tree} {src dst path : List Name} {entry : Node}

theorem movedNode_append (rel : List Name) :
    tree.movedNode src dst (dst ++ rel) = tree.node (src ++ rel) := by
  simp [movedNode]

theorem movedNode_other (hsrc : ¬ src <+: path) (hdst : ¬ dst <+: path) :
    tree.movedNode src dst path = tree.node path := by
  simp [movedNode, hsrc, hdst]

/-- What is there after the move was there before, or below the source. -/
theorem movedNode_eq_some (h : tree.movedNode src dst path = some entry) :
    (∃ rel, path = dst ++ rel ∧ tree.node (src ++ rel) = some entry) ∨
      (¬ dst <+: path ∧ ¬ src <+: path ∧ tree.node path = some entry) := by
  unfold movedNode at h
  split at h
  · rename_i hdst
    obtain ⟨rel, rfl⟩ := hdst
    exact .inl ⟨rel, rfl, by simpa using h⟩
  · split at h
    · cases h
    · exact .inr ⟨‹_›, ‹_›, h⟩

end Moved

/-- The move of an entry to a new path or onto a leaf. -/
def move (src dir : List Name) (name : Name) (h : tree.CanMove src dir name) :
    FsTree Name where
  node := tree.movedNode src (dir ++ [name])
  support := tree.support ++
    tree.support.map fun path => dir ++ [name] ++ path.drop src.length
  nextIno := tree.nextIno
  known := by
    intro path hpath
    obtain ⟨entry, hentry⟩ := Option.ne_none_iff_exists'.mp hpath
    rcases movedNode_eq_some hentry with ⟨rel, rfl, hwas⟩ | ⟨-, -, hwas⟩
    · refine List.mem_append_right _ (List.mem_map.mpr ⟨src ++ rel, ?_, ?_⟩)
      · exact tree.known (by simp [hwas])
      · simp
    · exact List.mem_append_left _ (tree.known (by simp [hwas]))
  parent := by
    intro above below hbelow
    obtain ⟨entry, hentry⟩ := Option.ne_none_iff_exists'.mp hbelow
    have hshort : ∀ {path : List Name}, path <+: above →
        path <+: above ++ [below] :=
      fun hpath => hpath.trans (List.prefix_append _ _)
    rcases movedNode_eq_some hentry with ⟨rel, hrel, hwas⟩ | ⟨hdst, hsrc, hwas⟩
    · rcases List.eq_nil_or_concat rel with rfl | ⟨init, last, rfl⟩
      · obtain ⟨rfl, rfl⟩ : above = dir ∧ below = name := by
          simpa using List.append_inj' (hrel.trans (List.append_nil _)) rfl
        obtain ⟨ino, hdir⟩ := tree.isDir_iff.mp h.2.1
        refine ⟨ino, ?_⟩
        rw [movedNode_other, hdir]
        · exact fun hsrc => h.2.2.2 (hshort hsrc)
        · intro hdst
          have hlength := hdst.length_le
          rw [List.length_append, List.length_singleton] at hlength
          omega
      · rw [List.concat_eq_append, ← List.append_assoc] at hrel hwas
        obtain ⟨rfl, -⟩ := List.append_inj' hrel rfl
        obtain ⟨ino, hdir⟩ := tree.parent (hwas ▸ Option.some_ne_none entry)
        exact ⟨ino, by rw [movedNode_append, hdir]⟩
    · obtain ⟨ino, hdir⟩ := tree.parent (hwas ▸ Option.some_ne_none entry)
      refine ⟨ino, ?_⟩
      rw [movedNode_other, hdir]
      · exact fun habove => hsrc (hshort habove)
      · exact fun habove => hdst (hshort habove)
  unique := by
    intro first second entry entry' hfirst hsecond hino
    rcases movedNode_eq_some hfirst with ⟨rel, rfl, hwas⟩ | ⟨-, hsrc, hwas⟩ <;>
      rcases movedNode_eq_some hsecond with
        ⟨rel', rfl, hwas'⟩ | ⟨-, hsrc', hwas'⟩
    · have heq := tree.unique hwas hwas' hino
      rw [List.append_cancel_left heq]
    · have heq := tree.unique hwas hwas' hino
      exact absurd (heq ▸ List.prefix_append src rel) hsrc'
    · have heq := tree.unique hwas hwas' hino
      exact absurd (heq ▸ List.prefix_append src rel') hsrc
    · exact tree.unique hwas hwas' hino
  fresh := by
    intro path entry hpath
    rcases movedNode_eq_some hpath with ⟨rel, -, hwas⟩ | ⟨-, -, hwas⟩
    · exact tree.fresh hwas
    · exact tree.fresh hwas

/-- The move of a leaf changes only the two paths. -/
theorem move_node_of_isLeaf {src dir : List Name} {name : Name}
    (h : tree.CanMove src dir name) (hleaf : tree.isLeaf src)
    (path : List Name) : (tree.move src dir name h).node path =
      if path = dir ++ [name] then tree.node src
      else if path = src then none else tree.node path := by
  by_cases hdst : path = dir ++ [name]
  · subst hdst
    have hmoved : tree.movedNode src (dir ++ [name]) (dir ++ [name] ++ []) =
        tree.node (src ++ []) := movedNode_append []
    simpa [move] using hmoved
  rw [if_neg hdst]
  change tree.movedNode src (dir ++ [name]) path = _
  by_cases hbelow : dir ++ [name] <+: path
  · obtain ⟨rel, rfl⟩ := hbelow
    have hrel : rel ≠ [] := by simpa using hdst
    rw [movedNode_append, tree.node_eq_none_below hleaf hrel,
      tree.node_eq_none_below h.2.2.1 hrel, ite_self]
  by_cases hsrc : src <+: path
  · obtain ⟨rel, rfl⟩ := hsrc
    have hnone : tree.movedNode src (dir ++ [name]) (src ++ rel) = none := by
      simp [movedNode, hbelow]
    rw [hnone]
    split
    · rfl
    · rename_i hne
      exact (tree.node_eq_none_below hleaf (by simpa using hne)).symm
  · rw [movedNode_other hsrc hbelow, if_neg]
    rintro rfl
    exact hsrc (List.prefix_refl _)

end Operations

end FsTree

end MirrorMirage.FileTree

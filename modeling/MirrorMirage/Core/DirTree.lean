import Mathlib.Data.List.Nodup

/-!
# Walks of directory trees

A directory with its inode number and its entries, each subdirectory with its
own.  A symbolic link is an entry of its own kind, whether or not it leads to a
directory.  `walk` goes top down and leaves out what it prunes with all below
it; it comes to the directories that lie at unpruned paths (`mem_walk_iff`),
to each of them once (`nodup_walk`).
-/

namespace MirrorMirage.DirTree

variable {Name : Type*}

/-- The entries of a directory in the order in which a scan finds them. -/
inductive Listing (Name : Type*) where
  | nil
  | dir (name : Name) (ino : ℕ) (below rest : Listing Name)
  | symlink (name : Name) (toDir : Bool) (rest : Listing Name)
  | file (name : Name) (rest : Listing Name)

structure Dir (Name : Type*) where
  ino : ℕ
  listing : Listing Name

namespace Listing

/-- The subdirectories. -/
def subdirs : Listing Name → List (Name × Dir Name)
  | nil => []
  | dir name ino below rest => (name, ⟨ino, below⟩) :: rest.subdirs
  | symlink _ _ rest | file _ rest => rest.subdirs

/-- The inode numbers of all directories below. -/
def inos : Listing Name → List ℕ
  | nil => []
  | dir _ ino below rest => ino :: (below.inos ++ rest.inos)
  | symlink _ _ rest | file _ rest => rest.inos

/-- The walk below a directory that lies at `rel` itself. -/
def walk (prune : List Name → Bool) (rel : List Name) :
    Listing Name → List (List Name × ℕ)
  | nil => []
  | dir name ino below rest =>
      (if prune (rel ++ [name]) then []
        else (rel ++ [name], ino) :: below.walk prune (rel ++ [name])) ++
        rest.walk prune rel
  | symlink _ _ rest | file _ rest => rest.walk prune rel

end Listing

/-- The walk from a directory, which is not pruned itself. -/
def Dir.walk (prune : List Name → Bool) (dir : Dir Name) :
    List (List Name × ℕ) :=
  ([], dir.ino) :: dir.listing.walk prune []

/-- The path leads through real directories. -/
inductive Leads : Dir Name → List Name → Dir Name → Prop where
  | refl {dir : Dir Name} : Leads dir [] dir
  | cons {dir sub target : Dir Name} {name : Name} {rel : List Name}
      (hsub : (name, sub) ∈ dir.listing.subdirs)
      (hrest : Leads sub rel target) : Leads dir (name :: rel) target

section Equations

variable {prune : List Name → Bool} {rel : List Name} {name : Name} {ino : ℕ}
variable {below rest : Listing Name}

theorem Listing.walk_of_pruned (hprune : prune (rel ++ [name]) = true) :
    (Listing.dir name ino below rest).walk prune rel = rest.walk prune rel := by
  simp [walk, hprune]

theorem Listing.walk_of_kept (hprune : prune (rel ++ [name]) = false) :
    (Listing.dir name ino below rest).walk prune rel =
      (rel ++ [name], ino) ::
        (below.walk prune (rel ++ [name]) ++ rest.walk prune rel) := by
  simp [walk, hprune]

end Equations

/-- Neither the path nor anything above it is pruned. -/
def Unpruned (prune : List Name → Bool) (rel suffix : List Name) : Prop :=
  ∀ part, part ≠ [] → part <+: suffix → prune (rel ++ part) = false

variable {prune : List Name → Bool} {rel path : List Name} {ino : ℕ}

theorem unpruned_nil : Unpruned prune rel [] :=
  fun _ hne hprefix => absurd (List.prefix_nil.mp hprefix) hne

theorem unpruned_cons {name : Name} {suffix : List Name} :
    Unpruned prune rel (name :: suffix) ↔
      prune (rel ++ [name]) = false ∧ Unpruned prune (rel ++ [name]) suffix := by
  constructor
  · refine fun h => ⟨h [name] (by simp) (by simp), fun part _ hprefix => ?_⟩
    have hpart := h (name :: part) (by simp) (List.cons_prefix_cons.mpr
      ⟨rfl, hprefix⟩)
    rwa [List.append_cons] at hpart
  · rintro ⟨hname, hrest⟩ part hne hprefix
    cases part with
    | nil => exact absurd rfl hne
    | cons first part =>
        obtain ⟨rfl, hrestPrefix⟩ := List.cons_prefix_cons.mp hprefix
        rw [List.append_cons]
        by_cases hpart : part = []
        · rwa [hpart, List.append_nil]
        · exact hrest part hpart hrestPrefix

theorem Listing.mem_walk_iff {listing : Listing Name} :
    (path, ino) ∈ listing.walk prune rel ↔
      ∃ name sub suffix target, (name, sub) ∈ listing.subdirs ∧
        Leads sub suffix target ∧ target.ino = ino ∧
        path = rel ++ name :: suffix ∧ Unpruned prune rel (name :: suffix) := by
  induction listing generalizing rel with
  | nil => simp [walk, subdirs]
  | symlink name toDir rest ih => exact ih
  | file name rest ih => exact ih
  | dir name found below rest ihBelow ihRest =>
      rw [walk, List.mem_append, ihRest]
      constructor
      · rintro (hmem | ⟨other, sub, suffix, target, hsub, hrest⟩)
        · split at hmem
          · cases hmem
          · rename_i hprune
            have hname : prune (rel ++ [name]) = false := by simpa using hprune
            rcases List.mem_cons.mp hmem with heq | hmem
            · cases heq
              exact ⟨name, ⟨ino, below⟩, [], _, List.mem_cons_self .., .refl,
                rfl, rfl, unpruned_cons.mpr ⟨hname, unpruned_nil⟩⟩
            · obtain ⟨other, sub, suffix, target, hsub, hleads, hino, rfl,
                hunpruned⟩ := ihBelow.mp hmem
              exact ⟨name, ⟨found, below⟩, other :: suffix, target,
                List.mem_cons_self .., .cons hsub hleads, hino, by simp,
                unpruned_cons.mpr ⟨hname, hunpruned⟩⟩
        · exact ⟨other, sub, suffix, target, List.mem_cons_of_mem _ hsub, hrest⟩
      · rintro ⟨other, sub, suffix, target, hsub, hleads, hino, rfl, hunpruned⟩
        rcases List.mem_cons.mp hsub with heq | hsub
        · cases heq
          obtain ⟨hname, hrest⟩ := unpruned_cons.mp hunpruned
          left
          rw [if_neg (by simp [hname])]
          cases hleads with
          | refl => simp [← hino]
          | @cons _ sub _ first suffix hfirst hleads =>
              refine List.mem_cons_of_mem _ (ihBelow.mpr ?_)
              exact ⟨first, sub, suffix, target, hfirst, hleads, hino, by simp,
                hrest⟩
        · exact .inr ⟨other, sub, suffix, target, hsub, hleads, hino, rfl,
            hunpruned⟩

/-- The walk comes to the directories at unpruned paths. -/
theorem Dir.mem_walk_iff {dir : Dir Name} : (path, ino) ∈ dir.walk prune ↔
    ∃ target, Leads dir path target ∧ target.ino = ino ∧
      Unpruned prune [] path := by
  rw [walk, List.mem_cons, Listing.mem_walk_iff]
  constructor
  · rintro (heq | ⟨name, sub, suffix, target, hsub, hleads, hino, rfl, hprune⟩)
    · cases heq
      exact ⟨dir, .refl, rfl, unpruned_nil⟩
    · exact ⟨target, .cons hsub hleads, hino, hprune⟩
  · rintro ⟨target, hleads, hino, hprune⟩
    cases hleads with
    | refl => exact .inl (by rw [hino])
    | @cons _ sub _ name suffix hsub hleads =>
        exact .inr ⟨name, sub, suffix, target, hsub, hleads, hino, rfl, hprune⟩

theorem Listing.walk_sublist {listing : Listing Name} :
    ((listing.walk prune rel).map Prod.snd).Sublist listing.inos := by
  induction listing generalizing rel with
  | nil => exact .slnil
  | symlink name toDir rest ih => exact ih
  | file name rest ih => exact ih
  | dir name found below rest ihBelow ihRest =>
      rw [walk, inos, List.map_append, ← List.cons_append]
      refine List.Sublist.append ?_ ihRest
      split
      · exact List.nil_sublist _
      · exact ihBelow.cons_cons found

/-- With distinct inode numbers, the walk comes to nothing twice. -/
theorem Dir.nodup_walk {dir : Dir Name}
    (hinos : (dir.ino :: dir.listing.inos).Nodup) :
    ((dir.walk prune).map Prod.snd).Nodup :=
  hinos.sublist (Listing.walk_sublist.cons_cons dir.ino)

end MirrorMirage.DirTree

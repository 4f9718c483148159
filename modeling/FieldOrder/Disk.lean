/-
# Disks

What a check asks of a disk: whether a path exists, whether it is a directory,
and the text of a file. `FileTree` is a disk in memory, below a working
directory; a path is followed through it piece by piece, so everything before a
separator has to be a directory, also before a `..`. Above the working directory
there are only directories, and no name leads on from one of them. What is written
to a relative path is read there, until it is removed.

Key definitions: `Disk`, `FileTree`, `FileTree.locate?`, `FileTree.disk`,
`FileTree.write`.
Key theorems: `FileTree.read?_write`, `FileTree.isDir_mkdir`, `FileTree.read?_remove`.
-/
import FieldOrder.Path

namespace FieldOrder

/-- The answers of a disk. -/
structure Disk where
  exists? : Path → Bool
  isDir : Path → Bool
  /-- The text of a file; nothing for a directory or a missing file. -/
  read? : Path → Option String

/-- A place below the working directory, as the names on the way to it. -/
abbrev Location := List String

/-- A place on the disk. -/
inductive Place where
  /-- A directory above the working directory. -/
  | above
  | below (l : Location)
  deriving DecidableEq, Repr

/-- A place as one below the working directory. -/
def Place.below? : Place → Option Location
  | above => none
  | below l => some l

/-- One piece of a path followed from a place. -/
def Place.step? : Place → List Char → Option Place
  | place, [] => some place
  | place, ['.'] => some place
  | above, ['.', '.'] => some above
  | below [], ['.', '.'] => some above
  | below l, ['.', '.'] => some (below l.dropLast)
  | above, _ => none
  | below l, piece => some (below (l ++ [String.ofList piece]))

/-- The files and directories below a working directory. -/
structure FileTree where
  files : List (Location × String) := []
  dirs : List Location := []

namespace FileTree

/-- Whether a place is a directory; the working directory is one. -/
def hasDir (t : FileTree) : Place → Bool
  | .above => true
  | .below l => l.isEmpty || t.dirs.contains l

/-- The text of the file at a place. -/
def fileAt? (t : FileTree) : Place → Option String
  | .above => none
  | .below l => t.files.lookup l

/-- The pieces of a path followed from a place, each from a directory. -/
def follow (t : FileTree) : Place → List (List Char) → Option Place
  | place, [] => some place
  | place, piece :: rest =>
    if t.hasDir place then (place.step? piece).bind (t.follow · rest) else none

/-- The place that a path leads to, whether or not something is there. The empty
path leads nowhere. -/
def locate? (t : FileTree) (p : Path) : Option Place :=
  if p.text = "" then none
  else t.follow (if p.isAbsolute then .above else .below []) (Text.pieces '/' p.text.toList)

/-- The answers of the tree. -/
def disk (t : FileTree) : Disk where
  exists? p := match t.locate? p with
    | none => false
    | some place => t.hasDir place || (t.fileAt? place).isSome
  isDir p := match t.locate? p with
    | none => false
    | some place => t.hasDir place
  read? p := (t.locate? p).bind t.fileAt?

/-! ### Changing the tree -/

/-- The places that the pieces of a path lead to, one after the other, in a tree
where every directory it names exists. -/
def places : Place → List (List Char) → List Place
  | _, [] => []
  | place, piece :: rest =>
    let next := (place.step? piece).getD place
    next :: places next rest

/-- The places on the way along a path, the last being where it leads. -/
def placesOf (p : Path) : List Place := places (.below []) (Text.pieces '/' p.text.toList)

/-- The tree with directories at the given places. -/
def addDirs (t : FileTree) (places : List Place) : FileTree :=
  { t with dirs := places.filterMap Place.below? ++ t.dirs }

/-- Make the directories that a path names. -/
def mkdir (t : FileTree) (p : Path) : FileTree := t.addDirs (placesOf p)

/-- Write a file, and make the directories that its path names. -/
def write (t : FileTree) (p : Path) (text : String) : FileTree :=
  let places := placesOf p
  let t := t.addDirs places.dropLast
  match places.getLast?.bind Place.below? with
  | none => t
  | some l => { t with files := (l, text) :: t.files.filter (·.1 != l) }

/-- Remove a file. -/
def remove (t : FileTree) (p : Path) : FileTree :=
  match (placesOf p).getLast?.bind Place.below? with
  | none => t
  | some l => { t with files := t.files.filter (·.1 != l) }

/-! ### Reading what was written -/

/-- From above the working directory no piece leads below it. -/
theorem eq_above_of_mem_places : ∀ {pieces : List (List Char)} {place : Place},
    place ∈ places .above pieces → place = .above
  | piece :: rest, place, h => by
    have hnext : (Place.above.step? piece).getD .above = .above := by
      unfold Place.step?
      split <;> simp_all
    rw [places, hnext] at h
    rcases List.mem_cons.mp h with rfl | h
    · rfl
    · exact eq_above_of_mem_places h

theorem exists_step?_below (l : Location) (piece : List Char) :
    ∃ next, (Place.below l).step? piece = some next := by
  unfold Place.step?
  split <;> simp_all

theorem hasDir_addDirs (t : FileTree) {ps : List Place} {place : Place} (h : place ∈ ps) :
    (t.addDirs ps).hasDir place = true := by
  cases place with
  | above => rfl
  | below l =>
    have hl : l ∈ (t.addDirs ps).dirs :=
      List.mem_append_left t.dirs (List.mem_filterMap.mpr ⟨.below l, h, rfl⟩)
    simp [hasDir, hl]

/-- Pieces are followed to the last place that they lead to, if this is below the
working directory and there are directories on the way. -/
theorem follow_of_places {t : FileTree} {l : Location} :
    ∀ {pieces : List (List Char)} {place : Place}, t.hasDir place = true →
      (∀ q ∈ (places place pieces).dropLast, t.hasDir q = true) →
      (places place pieces).getLast? = some (.below l) → t.follow place pieces = some (.below l)
  | [], _, _, _, hlast => by cases hlast
  | piece :: rest, .above, _, _, hlast => by
    cases eq_above_of_mem_places (List.mem_of_getLast? hlast)
  | piece :: rest, .below l', hplace, hdirs, hlast => by
    obtain ⟨next, hnext⟩ := exists_step?_below l' piece
    rw [places, hnext, Option.getD_some] at hdirs hlast
    rw [follow, if_pos hplace, hnext, Option.bind_some]
    cases rest with
    | nil => exact hlast
    | cons piece' rest =>
      have hne : places next (piece' :: rest) ≠ [] := List.cons_ne_nil _ _
      rw [List.dropLast_cons_of_ne_nil hne] at hdirs
      obtain ⟨hdir, hdirs⟩ := List.forall_mem_cons.mp hdirs
      exact follow_of_places hdir hdirs hlast

theorem locate?_of_places {t : FileTree} {p : Path} {l : Location}
    (hrelative : p.isAbsolute = false) (hl : l ≠ [])
    (hdirs : ∀ q ∈ (placesOf p).dropLast, t.hasDir q = true)
    (hlast : (placesOf p).getLast? = some (.below l)) : t.locate? p = some (.below l) := by
  have hpath : p.text ≠ "" := by
    intro hempty
    rw [placesOf, hempty] at hlast
    exact hl (Place.below.inj (Option.some.inj hlast)).symm
  rw [locate?, if_neg hpath, hrelative]
  exact follow_of_places rfl hdirs hlast

/-- Where pieces are followed to is the last place that they lead to. -/
theorem getLast?_places_of_follow {t : FileTree} {q : Place} :
    ∀ {pieces : List (List Char)} {place : Place}, pieces ≠ [] →
      t.follow place pieces = some q → (places place pieces).getLast? = some q
  | piece :: rest, place, _, h => by
    unfold follow at h
    split at h
    · obtain ⟨next, hnext, h⟩ := Option.bind_eq_some_iff.mp h
      rw [places, hnext, Option.getD_some]
      cases rest with
      | nil => exact h
      | cons piece' rest => exact getLast?_places_of_follow (List.cons_ne_nil piece' rest) h
    · cases h

variable (t : FileTree) {p : Path} {l : Location}

/-- A relative path that ends below the working directory is made a directory. -/
theorem isDir_mkdir (hrelative : p.isAbsolute = false) (hl : l ≠ [])
    (hlast : (placesOf p).getLast? = some (.below l)) : (t.mkdir p).disk.isDir p = true := by
  have hdirs : ∀ q ∈ (placesOf p).dropLast, (t.mkdir p).hasDir q = true :=
    fun q hq => t.hasDir_addDirs ((List.dropLast_sublist _).mem hq)
  rw [disk]
  simp only [locate?_of_places hrelative hl hdirs hlast]
  exact t.hasDir_addDirs (List.mem_of_getLast? hlast)

/-- At a relative path that was removed nothing is read. -/
theorem read?_remove (hrelative : p.isAbsolute = false) : (t.remove p).disk.read? p = none := by
  show ((t.remove p).locate? p).bind (t.remove p).fileAt? = none
  refine Option.bind_eq_none_iff.mpr fun place hplace => ?_
  cases place with
  | above => rfl
  | below l =>
    unfold locate? at hplace
    split at hplace
    · cases hplace
    · rw [hrelative] at hplace
      have hlast : (placesOf p).getLast? = some (.below l) :=
        getLast?_places_of_follow (Text.pieces_ne_nil '/' p.text.toList) hplace
      have hfiles : (t.remove p).files = t.files.filter (·.1 != l) := by
        simp only [remove, hlast]
        rfl
      rw [fileAt?, hfiles, List.lookup_eq_none_iff]
      intro file hfile
      have hne : (file.1 != l) = true := (List.mem_filter.mp hfile).2
      exact bne_iff_ne.mpr (bne_iff_ne.mp hne).symm

end FileTree
end FieldOrder

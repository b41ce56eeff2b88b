import Mathlib.Data.Int.Notation
import Mathlib.Logic.Function.Basic

/-!
Owns the descriptor table of a process: which descriptors are open and what each
refers to, and how `close`, `dup2` and the installation of new descriptors change it.

What a table can refer to is a parameter. A process that only closes and duplicates
comes to hold nothing new.
-/

namespace CSE550.Lib

/-- What each open descriptor refers to. -/
abbrev DescriptorTable (File : Type) := ℤ → Option File

namespace DescriptorTable

variable {File : Type}

/-- The process has the file open. -/
def Holds (table : DescriptorTable File) (file : File) : Prop := ∃ fd, table fd = some file

def install (table : DescriptorTable File) (fd : ℤ) (file : File) : DescriptorTable File :=
  Function.update table fd (some file)

def close (table : DescriptorTable File) (fd : ℤ) : DescriptorTable File :=
  Function.update table fd none

/-- `dup2` fails when the first descriptor is not open. -/
def dup2 (table : DescriptorTable File) (oldFd newFd : ℤ) : Option (DescriptorTable File) :=
  (table oldFd).map (table.install newFd)

def closeAll (table : DescriptorTable File) (fds : List ℤ) : DescriptorTable File :=
  fds.foldl close table

variable {table next : DescriptorTable File} {fd other oldFd newFd : ℤ} {file : File}

@[simp] theorem install_same : table.install fd file fd = some file := Function.update_self _ _ _

theorem install_of_ne (different : other ≠ fd) : table.install fd file other = table other :=
  Function.update_of_ne different _ _

@[simp] theorem close_same : table.close fd fd = none := Function.update_self _ _ _

theorem close_of_ne (different : other ≠ fd) : table.close fd other = table other :=
  Function.update_of_ne different _ _

theorem closeAll_apply (fds : List ℤ) (table : DescriptorTable File) (fd : ℤ) :
    table.closeAll fds fd = if fd ∈ fds then none else table fd := by
  induction fds generalizing table with
  | nil => simp [closeAll]
  | cons first rest inductionHypothesis =>
      show (table.close first).closeAll rest fd = _
      rw [inductionHypothesis]
      by_cases later : fd ∈ rest
      · simp [later]
      · by_cases same : fd = first
        · subst same
          simp [later]
        · simp [later, same, close_of_ne same]

theorem closeAll_append (table : DescriptorTable File) (left right : List ℤ) :
    table.closeAll (left ++ right) = (table.closeAll left).closeAll right :=
  List.foldl_append

/-- Closing opens nothing. -/
theorem Holds.of_close (holds : (table.close fd).Holds file) : table.Holds file := by
  rcases holds with ⟨place, found⟩
  by_cases same : place = fd
  · subst same
    simp at found
  · exact ⟨place, (close_of_ne same).symm.trans found⟩

/-- Duplicating gives a second descriptor to what is open. -/
theorem Holds.of_dup2 (duplicated : table.dup2 oldFd newFd = some next)
    (holds : next.Holds file) : table.Holds file := by
  rcases Option.map_eq_some_iff.mp duplicated with ⟨duplicate, isOpen, rfl⟩
  rcases holds with ⟨place, found⟩
  by_cases same : place = newFd
  · subst same
    exact ⟨oldFd, isOpen.trans (install_same.symm.trans found)⟩
  · exact ⟨place, (install_of_ne same).symm.trans found⟩

end DescriptorTable

end CSE550.Lib

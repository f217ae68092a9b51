import Drover.Data.Bytes

/-!
# Files

A file system as the contents of its paths, and the calls that change single
names of it.  Every call can be refused, and is then without effect; what is
not there cannot be renamed, and a path without a name names no file.
-/

namespace Drover

/-- A path, split behind its last separator. -/
structure Files.Path where
  dir : Bytes
  name : Bytes
  deriving DecidableEq

/-- The contents of the files. -/
structure Files where
  find : Files.Path → Option Bytes
  named : ∀ p, p.name = [] → find p = none

namespace Files

@[ext]
theorem ext {fs fs' : Files} (same : ∀ p, fs.find p = fs'.find p) : fs = fs' := by
  cases fs
  cases fs'
  congr
  exact funext same

/-- Make `p` a file with these contents, or no file. -/
def set (fs : Files) (p : Path) (contents : Option Bytes) : Files where
  find q := if q = p ∧ p.name ≠ [] then contents else fs.find q
  named q noName := by
    split
    · rename_i isPath
      exact absurd (isPath.1 ▸ noName) isPath.2
    · exact fs.named q noName

/-- What a call says that was not carried out. -/
inductive Refusal where
  /-- `os.IsNotExist` holds of the error. -/
  | notExist
  /-- Any other error. -/
  | denied
  deriving DecidableEq

/-- `os.Rename`, which replaces a file of the new name. -/
def rename (fs : Files) (granted : Bool) (src dst : Path) : Files × Option Refusal :=
  if granted = false then (fs, some (if fs.find src = none then .notExist else .denied))
  else if fs.find src = none ∨ dst.name = [] then (fs, some .notExist)
  else ((fs.set src none).set dst (fs.find src), none)

/-- `os.Remove`, where the error is ignored. -/
def remove (fs : Files) (granted : Bool) (p : Path) : Files :=
  if granted = false then fs else fs.set p none

variable {fs : Files} {granted : Bool} {p q src dst : Path} {contents : Option Bytes}

theorem name_ne_nil (isFile : fs.find p ≠ none) : p.name ≠ [] :=
  fun noName => isFile (fs.named p noName)

theorem find_set_self (isName : p.name ≠ []) : (fs.set p contents).find p = contents :=
  if_pos ⟨rfl, isName⟩

theorem find_set_of_ne (other : q ≠ p) : (fs.set p contents).find q = fs.find q :=
  if_neg fun same => other same.1

theorem find_remove_of_ne (other : q ≠ p) : (fs.remove granted p).find q = fs.find q := by
  rw [remove]
  split
  · rfl
  · exact find_set_of_ne other

theorem find_remove_self : (fs.remove true p).find p = none := by
  by_cases isName : p.name = []
  · exact named _ _ isName
  · exact find_set_self isName

/-- What is there after a removal was there before. -/
theorem find_remove_of_isFile (isFile : (fs.remove granted p).find q ≠ none) :
    (fs.remove granted p).find q = fs.find q := by
  by_cases same : q = p
  · subst same
    cases granted with
    | false => rfl
    | true => exact absurd find_remove_self isFile
  · exact find_remove_of_ne same

/-- A rename is carried out, or it is without effect. -/
theorem rename_cases (fs : Files) (granted : Bool) (src dst : Path) :
    (fs.find src ≠ none ∧ dst.name ≠ [] ∧
        fs.rename granted src dst = ((fs.set src none).set dst (fs.find src), none)) ∨
      ∃ refusal, fs.rename granted src dst = (fs, some refusal) ∧
        (refusal = .notExist → fs.find src = none ∨ dst.name = []) ∧
        (granted = true → fs.find src = none ∨ dst.name = []) := by
  rw [rename]
  split
  · rename_i isDenied
    right
    refine ⟨_, rfl, fun missing => ?_, fun isGranted => ?_⟩
    · split at missing
      · rename_i isMissing
        exact .inl isMissing
      · cases missing
    · rw [isDenied] at isGranted
      cases isGranted
  · split
    · rename_i impossible
      exact .inr ⟨.notExist, rfl, fun _ => impossible, fun _ => impossible⟩
    · rename_i possible
      exact .inl ⟨fun missing => possible (.inl missing), fun noName => possible (.inr noName), rfl⟩

theorem rename_of_missing (missing : fs.find src = none) :
    fs.rename granted src dst = (fs, some .notExist) := by
  simp only [rename, missing, true_or, if_true, ite_self]

theorem find_renamed_dst (isName : dst.name ≠ []) :
    ((fs.set src none).set dst contents).find dst = contents := find_set_self isName

theorem find_renamed_src (ne : src ≠ dst) (isName : src.name ≠ []) :
    ((fs.set src none).set dst contents).find src = none := by
  rw [find_set_of_ne ne, find_set_self isName]

theorem find_renamed_of_ne (notSrc : p ≠ src) (notDst : p ≠ dst) :
    ((fs.set src none).set dst contents).find p = fs.find p := by
  rw [find_set_of_ne notDst, find_set_of_ne notSrc]

end Files

end Drover

import Drover.Files.Core
import Mathlib.Data.List.Basic
import Mathlib.Order.Basic

/-!
# Placing the new binary

`placeBinary` of `place_unix.go` and of `place_windows.go`: the last step of a
self-update, which moves the probed temporary file to the executable.  On
Windows the running executable is moved out of the way first, and back again if
the new one cannot take its place.
-/

namespace Drover.SelfUpdate

open Files (Path)

/-- What the system grants during the last step. -/
structure PlaceOutcomes where
  /-- `os.ReadDir` of the directory of the executable. -/
  readDir : Option (List Bytes)
  /-- `os.Remove` in `cleanupOldBackups`. -/
  cleanup : Path → Bool
  /-- `os.Rename(exe, old)`. -/
  backup : Bool
  /-- `time.Now().Unix()`. -/
  now : Int
  /-- `os.Rename(exe, alt)`. -/
  fallback : Bool
  /-- `os.Rename(tmpName, exe)`. -/
  place : Bool
  /-- `os.Rename(old, exe)`. -/
  rollback : Bool
  /-- `os.Remove(old)`. -/
  removeOld : Bool

/-- The errors of `placeBinary`. -/
inductive PlaceError where
  /-- The executable could not be moved away, neither to `old` nor to `alt`. -/
  | backup (err : Files.Refusal) (alt : Path) (err2 : Files.Refusal)
  /-- The new binary could not take its place. -/
  | place (err : Files.Refusal)
  deriving DecidableEq

/-! ## Unix -/

/-- `placeBinary` of `place_unix.go`. -/
def placeUnix (os : PlaceOutcomes) (tmpName exe : Path) (fs : Files) :
    Files × Option PlaceError :=
  match fs.rename os.place tmpName exe with
  | (fs, some err) => (fs, some (.place err))
  | (fs, none) => (fs, none)

/-! ## Windows -/

/-- `exe + ".old"`. -/
def oldOf (exe : Path) : Path := { exe with name := exe.name ++ ascii ".old" }

/-- `exe.old-<unix>`. -/
def altOf (exe : Path) (now : Int) : Path :=
  { exe with name := exe.name ++ ascii ".old-" ++ ascii now.repr }

/-- `os.ReadDir`, which finds no directory under the empty name. -/
def readDir (os : PlaceOutcomes) (dir : Bytes) : Option (List Bytes) :=
  if dir = [] then none else os.readDir

/-- The loop of `cleanupOldBackups`. -/
def cleanupEntries (os : PlaceOutcomes) (exe : Path) : List Bytes → Files → Files
  | [], fs => fs
  | n :: ents, fs =>
      if exe.name ++ ascii ".old" <+: n then
        cleanupEntries os exe ents (fs.remove (os.cleanup ⟨exe.dir, n⟩) ⟨exe.dir, n⟩)
      else cleanupEntries os exe ents fs

/-- `cleanupOldBackups`. -/
def cleanupOldBackups (os : PlaceOutcomes) (exe : Path) (fs : Files) : Files :=
  match readDir os exe.dir with
  | none => fs
  | some ents => cleanupEntries os exe ents fs

/-- The renames behind the backup. -/
def placeOver (os : PlaceOutcomes) (tmpName exe old : Path) (fs : Files) :
    Files × Option PlaceError :=
  match fs.rename os.place tmpName exe with
  | (fs, some err) => ((fs.rename os.rollback old exe).1, some (.place err))
  | (fs, none) => (fs.remove os.removeOld old, none)

/-- `placeBinary` of `place_windows.go`. -/
def placeWindows (os : PlaceOutcomes) (tmpName exe : Path) (fs : Files) :
    Files × Option PlaceError :=
  let fs := cleanupOldBackups os exe fs
  let old := oldOf exe
  match fs.rename os.backup exe old with
  | (fs, none) => placeOver os tmpName exe old fs
  | (fs, some .notExist) => placeOver os tmpName exe old fs
  | (fs, some .denied) =>
      let alt := altOf exe os.now
      match fs.rename os.fallback exe alt with
      | (fs, some err2) => (fs, some (.backup .denied alt err2))
      | (fs, none) => placeOver os tmpName exe alt fs

/-! ## What `placeBinary` does -/

/-- What the last step has to do with a temporary file that holds `bin`: put it in
the place of the executable, or leave the executable as it was.  Nothing but the
temporary file stays behind when `old` could be removed. -/
structure Places (os : PlaceOutcomes) (tmpName exe : Path) (bin : Bytes) (fs : Files)
    (result : Files × Option PlaceError) : Prop where
  placed : result.2 = none → result.1.find exe = some bin
  kept : result.2 ≠ none → result.1.find exe = fs.find exe
  clean : os.removeOld = true → ∀ p ≠ tmpName, result.1.find p ≠ none → fs.find p ≠ none

/-- What holds before the last step: the temporary file holds `bin`, if it is
there, and the executable is there. -/
structure Staged (tmpName exe : Path) (bin : Bytes) (fs : Files) : Prop where
  holds : ∀ b, fs.find tmpName = some b → b = bin
  tmp_ne : tmpName ≠ exe
  present : fs.find exe ≠ none

variable {os : PlaceOutcomes} {tmpName exe old : Path} {bin : Bytes} {fs : Files}

theorem Staged.find_tmp (staged : Staged tmpName exe bin fs) (isFile : fs.find tmpName ≠ none) :
    fs.find tmpName = some bin := by
  obtain ⟨b, isBin⟩ := Option.ne_none_iff_exists'.mp isFile
  rw [isBin, staged.holds b isBin]

/-- Nothing was done. -/
theorem Places.refused (err : PlaceError) : Places os tmpName exe bin fs (fs, some err) where
  placed ok := by cases ok
  kept _ := rfl
  clean _ _ _ present := present

theorem Staged.placeUnix (staged : Staged tmpName exe bin fs) :
    Places os tmpName exe bin fs (placeUnix os tmpName exe fs) := by
  rw [SelfUpdate.placeUnix]
  rcases fs.rename_cases os.place tmpName exe with ⟨isFile, isName, moved⟩ | ⟨err, refused, -, -⟩
  · rw [moved]
    constructor
    · intro _
      rw [Files.find_renamed_dst isName, staged.find_tmp isFile]
    · exact fun failed => absurd rfl failed
    · intro _ p notTmp present
      by_cases isExe : p = exe
      · rw [isExe]
        exact staged.present
      · rwa [Files.find_renamed_of_ne notTmp isExe] at present
  · rw [refused]
    exact .refused (.place err)

/-! ### With a backup -/

/-- The executable has been moved to `old`. -/
theorem Staged.placeOver_moved (staged : Staged tmpName exe bin fs)
    (isOld : old.name ≠ []) (oldNe : old ≠ exe) (tmpNe : tmpName ≠ old)
    (rollback : os.rollback = true) :
    Places os tmpName exe bin fs
      (placeOver os tmpName exe old ((fs.set exe none).set old (fs.find exe))) := by
  have backed : ((fs.set exe none).set old (fs.find exe)).find old = fs.find exe :=
    Files.find_renamed_dst isOld
  have same : ((fs.set exe none).set old (fs.find exe)).find tmpName = fs.find tmpName :=
    Files.find_renamed_of_ne staged.tmp_ne tmpNe
  have isExe := Files.name_ne_nil staged.present
  have others {p : Path} (notExe : p ≠ exe) (notOld : p ≠ old) :
      ((fs.set exe none).set old (fs.find exe)).find p = fs.find p :=
    Files.find_renamed_of_ne notExe notOld
  generalize (fs.set exe none).set old (fs.find exe) = moved at backed same others
  rw [placeOver]
  rcases moved.rename_cases os.place tmpName exe with
    ⟨isFile, isName, placed⟩ | ⟨err, refused, -, -⟩
  · rw [placed]
    rw [same] at isFile
    constructor
    · intro _
      rw [Files.find_remove_of_ne oldNe.symm, Files.find_renamed_dst isName, same,
        staged.find_tmp isFile]
    · exact fun failed => absurd rfl failed
    · intro removed p notTmp present
      by_cases atExe : p = exe
      · rw [atExe]
        exact staged.present
      · by_cases atOld : p = old
        · subst atOld
          rw [removed] at present
          exact absurd Files.find_remove_self present
        · rwa [Files.find_remove_of_ne atOld, Files.find_renamed_of_ne notTmp atExe,
            others atExe atOld] at present
  · rw [refused]
    rcases moved.rename_cases os.rollback old exe with ⟨-, -, back⟩ | ⟨err', -, -, impossible⟩
    · simp only [back]
      constructor
      · intro ok
        cases ok
      · intro _
        rw [Files.find_renamed_dst isExe, backed]
      · intro _ p _ present
        by_cases atExe : p = exe
        · rw [atExe]
          exact staged.present
        · by_cases atOld : p = old
          · subst atOld
            exact absurd (Files.find_renamed_src oldNe isOld) present
          · rwa [Files.find_renamed_of_ne atOld atExe, others atExe atOld] at present
    · rcases impossible rollback with missing | noName
      · rw [backed] at missing
        exact absurd missing staged.present
      · exact absurd noName isExe

/-! ### Without an executable -/

/-- Nothing can be renamed to a path without a name. -/
theorem rename_unnamed (noName : exe.name = []) (fs : Files) (granted : Bool) (src : Path) :
    ∃ err, fs.rename granted src exe = (fs, some err) := by
  rcases fs.rename_cases granted src exe with ⟨-, isName, -⟩ | ⟨err, isRefused, -, -⟩
  · exact absurd noName isName
  · exact ⟨err, isRefused⟩

theorem placeUnix_unnamed (noName : exe.name = []) (fs : Files) :
    ∃ err, placeUnix os tmpName exe fs = (fs, some err) := by
  obtain ⟨err, refused⟩ := rename_unnamed noName fs os.place tmpName
  exact ⟨.place err, by rw [placeUnix, refused]⟩

theorem placeOver_unnamed (noName : exe.name = []) (fs : Files) :
    ∃ err, placeOver os tmpName exe old fs = (fs, some err) := by
  obtain ⟨err, refused⟩ := rename_unnamed noName fs os.place tmpName
  obtain ⟨err', notBack⟩ := rename_unnamed noName fs os.rollback old
  exact ⟨.place err, by rw [placeOver, refused]; simp only [notBack]⟩

theorem placeWindows_unnamed (noDir : exe.dir = []) (noName : exe.name = []) (fs : Files) :
    ∃ err, placeWindows os tmpName exe fs = (fs, some err) := by
  have nothing : cleanupOldBackups os exe fs = fs := by
    rw [cleanupOldBackups, readDir, if_pos noDir]
  rw [placeWindows, nothing]
  simp only [Files.rename_of_missing (fs.named exe noName)]
  exact placeOver_unnamed noName fs

/-! ### The old backups -/

/-- Removing old backups removes files, the executable not among them. -/
structure Cleans (exe : Path) (fs fs' : Files) : Prop where
  find_exe : fs'.find exe = fs.find exe
  find_le : ∀ p, fs'.find p ≠ none → fs'.find p = fs.find p

theorem Cleans.refl : Cleans exe fs fs := ⟨rfl, fun _ _ => rfl⟩

theorem cleanupEntries_cleans (ents : List Bytes) (fs : Files) :
    Cleans exe fs (cleanupEntries os exe ents fs) := by
  induction ents generalizing fs with
  | nil => exact .refl
  | cons n ents ih =>
      rw [cleanupEntries]
      split
      · rename_i isBackup
        have notExe : exe ≠ ⟨exe.dir, n⟩ := by
          intro same
          have isName : exe.name = n := congrArg Path.name same
          have shorter := isBackup.length_le
          rw [← isName, List.length_append] at shorter
          have positive : 0 < (ascii ".old").length := by decide
          omega
        have cleans := ih (fs.remove (os.cleanup ⟨exe.dir, n⟩) ⟨exe.dir, n⟩)
        constructor
        · rw [cleans.find_exe, Files.find_remove_of_ne notExe]
        · intro p present
          have before := cleans.find_le p present
          rw [before] at present
          rw [before, Files.find_remove_of_isFile present]
      · exact ih fs

theorem cleanupOldBackups_cleans (fs : Files) : Cleans exe fs (cleanupOldBackups os exe fs) := by
  rw [cleanupOldBackups]
  split
  · exact .refl
  · exact cleanupEntries_cleans _ _

theorem Staged.cleans {fs' : Files} (staged : Staged tmpName exe bin fs)
    (cleans : Cleans exe fs fs') : Staged tmpName exe bin fs' where
  holds b isFile := by
    have present : fs'.find tmpName ≠ none := by
      rw [isFile]
      exact Option.some_ne_none b
    exact staged.holds b ((cleans.find_le tmpName present).symm.trans isFile)
  tmp_ne := staged.tmp_ne
  present := by
    rw [cleans.find_exe]
    exact staged.present

theorem Places.of_cleans {fs' : Files} {result : Files × Option PlaceError}
    (places : Places os tmpName exe bin fs' result) (cleans : Cleans exe fs fs') :
    Places os tmpName exe bin fs result where
  placed := places.placed
  kept failed := (places.kept failed).trans cleans.find_exe
  clean removed p notTmp present := by
    have before := places.clean removed p notTmp present
    rwa [cleans.find_le p before] at before

/-! ### Windows -/

theorem oldOf_ne (exe : Path) : oldOf exe ≠ exe := by
  intro same
  have lengths := congrArg (fun p => p.name.length) same
  simp [oldOf, ascii] at lengths

theorem altOf_ne (exe : Path) (now : Int) : altOf exe now ≠ exe := by
  intro same
  have lengths := congrArg (fun p => p.name.length) same
  simp [altOf, ascii] at lengths

theorem oldOf_name_ne_nil (exe : Path) : (oldOf exe).name ≠ [] := by
  simp [oldOf, ascii]

theorem altOf_name_ne_nil (exe : Path) (now : Int) : (altOf exe now).name ≠ [] := by
  simp [altOf, ascii]

theorem ne_of_isDigit {c : Char} (isDigit : c.isDigit = true) : UInt8.ofNat c.toNat ≠ 0x65 := by
  intro same
  have bounds : 48 ≤ c.toNat ∧ c.toNat ≤ 57 := by
    simp only [Char.isDigit, Bool.and_eq_true, decide_eq_true_eq] at isDigit
    exact isDigit
  have value := congrArg UInt8.toNat same
  rw [UInt8.toNat_ofNat'] at value
  have code : (0x65 : UInt8).toNat = 101 := rfl
  omega

/-- No decimal text contains an `e`. -/
theorem notMem_ascii_repr (n : Int) : (0x65 : UInt8) ∉ ascii n.repr := by
  have digits (k : Nat) : ∀ c ∈ k.repr.toList, UInt8.ofNat c.toNat ≠ 0x65 := by
    intro c mem
    rw [Nat.repr, String.toList_ofList] at mem
    exact ne_of_isDigit (Nat.isDigit_of_mem_toDigits (by decide) (by decide) mem)
  intro mem
  obtain ⟨c, inText, isLetter⟩ := List.mem_map.mp mem
  rw [Int.repr_eq_if] at inText
  split at inText
  · exact digits _ c inText isLetter
  · rw [String.toList_append, List.mem_append] at inText
    rcases inText with sign | digit
    · rw [List.mem_singleton.mp sign] at isLetter
      cases isLetter
    · exact digits _ c digit isLetter

/-- `old` does not end like the name of the temporary file. -/
theorem getLast?_oldOf (exe : Path) : (oldOf exe).name.getLast? = some 0x64 := by
  simp [oldOf, ascii]

theorem getLast?_altOf (exe : Path) (now : Int) : (altOf exe now).name.getLast? ≠ some 0x65 := by
  intro isLetter
  have behind : 0x65 ∈ (ascii ".old-" ++ ascii now.repr).getLast? := by
    rwa [altOf, List.append_assoc, List.getLast?_append_of_ne_nil _ (by simp [ascii])] at isLetter
  rcases List.mem_append.mp (List.mem_of_getLast? behind) with inMark | inText
  · exact absurd inMark (by decide)
  · exact notMem_ascii_repr now inText

theorem Staged.placeWindows (staged : Staged tmpName exe bin fs)
    (isProgram : tmpName.name.getLast? = some 0x65) (rollback : os.rollback = true) :
    Places os tmpName exe bin fs (placeWindows os tmpName exe fs) := by
  have cleans : Cleans exe fs (cleanupOldBackups os exe fs) := cleanupOldBackups_cleans fs
  have stagedToo := staged.cleans cleans
  apply Places.of_cleans _ cleans
  rw [SelfUpdate.placeWindows]
  generalize cleanupOldBackups os exe fs = cleaned at stagedToo
  have tmpNeOld : tmpName ≠ oldOf exe := by
    rintro rfl
    rw [getLast?_oldOf] at isProgram
    cases isProgram
  have tmpNeAlt : tmpName ≠ altOf exe os.now := by
    rintro rfl
    exact getLast?_altOf exe os.now isProgram
  rcases cleaned.rename_cases os.backup exe (oldOf exe) with
    ⟨-, -, moved⟩ | ⟨err, refused, missing, -⟩
  · simp only [moved]
    exact stagedToo.placeOver_moved (oldOf_name_ne_nil exe) (oldOf_ne exe) tmpNeOld rollback
  · cases err with
    | notExist =>
        rcases missing rfl with noFile | noName
        · exact absurd noFile stagedToo.present
        · exact absurd noName (oldOf_name_ne_nil exe)
    | denied =>
        simp only [refused]
        rcases cleaned.rename_cases os.fallback exe (altOf exe os.now) with
          ⟨-, -, moved⟩ | ⟨err2, refusedToo, -, -⟩
        · simp only [moved]
          exact stagedToo.placeOver_moved (altOf_name_ne_nil exe os.now)
            (altOf_ne exe os.now) tmpNeAlt rollback
        · simp only [refusedToo]
          exact .refused _

end Drover.SelfUpdate

import Drover.Data.Strings
import Drover.SelfUpdate.Place
import Drover.Stream.Marker

/-!
# Self-update

`Update` of `selfupdate.go`: look up the newest tag, download the binary and
the checksums, compare, and replace the executable.  Whatever fails on the way,
the executable is replaced by what was downloaded and probed, or it stays as it
was.
-/

namespace Drover.SelfUpdate

open Files (Path)

/-! ## The release -/

/-- What `selfupdate` uses of other packages. -/
structure Library where
  /-- `sha256.Sum256`. -/
  sha256 : Bytes → Bytes
  /-- `strings.ToLower`. -/
  toLower : Bytes → Bytes

/-- `runtime.GOOS` and `runtime.GOARCH`. -/
structure Platform where
  goos : Bytes
  goarch : Bytes

/-- `runtime.GOOS == "windows"`. -/
def Platform.isWindows (platform : Platform) : Bool := platform.goos = ascii "windows"

/-- `assetName`. -/
def assetName (platform : Platform) : Bytes :=
  ascii "herdr-drover_" ++ platform.goos ++ ascii "_" ++ platform.goarch ++
    if platform.isWindows then ascii ".exe" else []

/-- A response of a server. -/
structure Response where
  status : Nat
  location : Bytes
  /-- What `io.ReadAll` reads, unless it fails. -/
  body : Option Bytes
  /-- `tag_name` of what `json.Decode` reads, unless it fails. -/
  tagName : Option Bytes

/-- The response to each request, unless it fails. -/
abbrev Network : Type := Bytes → Option Response

/-- `apiBase`. -/
def apiBase : Bytes := ascii "https://api.github.com"

/-- `dlBase`. -/
def dlBase : Bytes := ascii "https://github.com"

/-- `repo`, for a value of `DROVER_REPO`. -/
def repo (droverRepo : Bytes) : Bytes :=
  if droverRepo ≠ [] then droverRepo else ascii "4noha/herdr-drover"

/-- `tagFromReleaseURL`. -/
def tagFromReleaseURL (loc : Bytes) : Option Bytes :=
  match Stream.cutAt (ascii "/releases/tag/") loc with
  | none => none
  | some (_, rest) =>
      let tag := rest.takeWhile (· ∉ ascii "?#")
      let tag := if tag.getLast? = some 0x2f then tag.dropLast else tag
      if tag = [] ∨ 0x2f ∈ tag then none else some tag

/-- `latestTagByRedirect`; `none` is an error. -/
def latestTagByRedirect (net : Network) (repo : Bytes) : Option Bytes :=
  match net (dlBase ++ ascii "/" ++ repo ++ ascii "/releases/latest") with
  | none => none
  | some resp =>
      if resp.status < 300 ∨ 400 ≤ resp.status then none else tagFromReleaseURL resp.location

/-- `latestTagByAPI`; `none` is an error. -/
def latestTagByAPI (net : Network) (repo : Bytes) : Option Bytes :=
  match net (apiBase ++ ascii "/repos/" ++ repo ++ ascii "/releases/latest") with
  | none => none
  | some resp =>
      if resp.status ≠ 200 then none
      else
        match resp.tagName with
        | none => none
        | some tag => if tag = [] then none else some tag

/-- `LatestTag`. -/
def latestTag (net : Network) (repo : Bytes) : Option Bytes :=
  match latestTagByRedirect net repo with
  | some tag => some tag
  | none => latestTagByAPI net repo

/-- `dl`; `none` is an error. -/
def dl (net : Network) (url : Bytes) : Option Bytes :=
  match net url with
  | none => none
  | some resp => if resp.status ≠ 200 then none else resp.body

/-- A line of `expectedSHA`: the hash, if the line is about the asset. -/
def checksumOf (lib : Library) (name ln : Bytes) : Option Bytes :=
  match fields ln with
  | [sha, asset] => if asset = name then some (lib.toLower sha) else none
  | _ => none

/-- `expectedSHA`. -/
def expectedSHA (lib : Library) (checksums name : Bytes) : Option Bytes :=
  (checksums.splitOn 0x0a).findSome? (checksumOf lib name)

/-- `strings.TrimPrefix(strings.TrimSpace(v), "v")`. -/
def normalize (v : Bytes) : Bytes :=
  match trimSpace v with
  | 0x76 :: rest => rest
  | trimmed => trimmed

/-! ## Replacing the executable -/

/-- What the system grants during an update. -/
structure Outcomes extends PlaceOutcomes where
  /-- `osExecutable`. -/
  executable : Bool
  /-- `filepath.EvalSymlinks`. -/
  evalSymlinks : Bool
  /-- The random part of the name that `os.CreateTemp` settles on. -/
  createTemp : Option Bytes
  write : Bool
  /-- What a failed `Write` has written. -/
  written : Bytes
  chmod : Bool
  close : Bool
  /-- Does the program run that a file of these contents is? -/
  probe : Bytes → Bool
  /-- The deferred `os.Remove(tmpName)`. -/
  removeTmp : Bool

/-- The absolute path that the path of the executable resolves to. -/
structure Executable where
  path : Path
  named : path.name ≠ []
  absolute : path.dir ≠ ascii "."

/-- The errors of `Update`. -/
inductive UpdateError where
  | latestTag
  | download (url : Bytes)
  | checksums
  | noChecksum (name : Bytes)
  | mismatch
  | executable
  | notWritable (dir : Bytes)
  | write
  | chmod
  | close
  | probe
  | place (err : PlaceError)
  deriving DecidableEq

/-- `exe, _ = filepath.EvalSymlinks(exe)`: the empty path, where it fails. -/
def evalSymlinks (os : Outcomes) (exe : Executable) (fs : Files) : Path :=
  if os.evalSymlinks = false ∨ fs.find exe.path = none then ⟨[], []⟩ else exe.path

/-- `filepath.Dir`. -/
def dirOf (p : Path) : Bytes := if p.dir = [] then ascii "." else p.dir

/-- The name of a temporary file. -/
def tmpNameOf (platform : Platform) (dir random : Bytes) : Path :=
  ⟨dir, ascii ".herdr-drover-new-" ++ random ++
    if platform.isWindows then ascii ".exe" else []⟩

/-- `os.CreateTemp`, which never takes the name of a file that exists. -/
def createTemp (platform : Platform) (os : Outcomes) (dir : Bytes) (fs : Files) :
    Option (Path × Files) :=
  match os.createTemp with
  | none => none
  | some random =>
      let tmpName := tmpNameOf platform dir random
      if fs.find tmpName ≠ none then none else some (tmpName, fs.set tmpName (some []))

/-- `probeExec`. -/
def probeExec (os : Outcomes) (path : Path) (fs : Files) : Bool :=
  match fs.find path with
  | none => false
  | some contents => os.probe contents

/-- `placeBinary`. -/
def placeBinary (platform : Platform) (os : Outcomes) (tmpName exe : Path) (fs : Files) :
    Files × Option PlaceError :=
  if platform.isWindows then placeWindows os.toPlaceOutcomes tmpName exe fs
  else placeUnix os.toPlaceOutcomes tmpName exe fs

/-- `replaceSelf`, from the first write on. -/
def fillAndPlace (platform : Platform) (os : Outcomes) (tmpName exe : Path) (newBin : Bytes)
    (fs : Files) : Files × Option UpdateError :=
  if os.write = false then (fs.set tmpName (some os.written), some .write)
  else
    let fs := fs.set tmpName (some newBin)
    if os.chmod = false then (fs, some .chmod)
    else if os.close = false then (fs, some .close)
    else if probeExec os tmpName fs = false then (fs, some .probe)
    else
      let placed := placeBinary platform os tmpName exe fs
      (placed.1, placed.2.map .place)

/-- `replaceSelf`. -/
def replaceSelf (platform : Platform) (os : Outcomes) (exe : Executable) (newBin : Bytes)
    (fs : Files) : Files × Option UpdateError :=
  if os.executable = false then (fs, some .executable)
  else
    let exe := evalSymlinks os exe fs
    match createTemp platform os (dirOf exe) fs with
    | none => (fs, some (.notWritable (dirOf exe)))
    | some (tmpName, fs) =>
        let replaced := fillAndPlace platform os tmpName exe newBin fs
        (replaced.1.remove os.removeTmp tmpName, replaced.2)

/-- What `Update` returns, and the files afterwards. -/
structure UpdateResult where
  version : Bytes
  updated : Bool
  err : Option UpdateError
  files : Files

/-- The address of a file of the newest release. -/
def assetURL (repo name : Bytes) : Bytes :=
  dlBase ++ ascii "/" ++ repo ++ ascii "/releases/latest/download" ++ ascii "/" ++ name

/-- `Update`. -/
def update (lib : Library) (platform : Platform) (net : Network) (repo : Bytes) (os : Outcomes)
    (exe : Executable) (current : Bytes) (fs : Files) : UpdateResult :=
  match latestTag net repo with
  | none => ⟨[], false, some .latestTag, fs⟩
  | some tag =>
      if normalize tag = normalize current then ⟨tag, false, none, fs⟩
      else
        let name := assetName platform
        match dl net (assetURL repo name) with
        | none => ⟨[], false, some (.download (assetURL repo name)), fs⟩
        | some bin =>
            match dl net (assetURL repo (ascii "checksums.txt")) with
            | none => ⟨[], false, some .checksums, fs⟩
            | some sums =>
                match expectedSHA lib sums name with
                | none => ⟨[], false, some (.noChecksum name), fs⟩
                | some want =>
                    if encodeHex (lib.sha256 bin) ≠ want then ⟨[], false, some .mismatch, fs⟩
                    else
                      match replaceSelf platform os exe bin fs with
                      | (fs, some err) => ⟨[], false, some err, fs⟩
                      | (fs, none) => ⟨tag, true, none, fs⟩

/-! ## All or nothing -/

/-- What `replaceSelf` has to do with the executable at `exe`: put `newBin` there,
which ran, or leave it as it was.  Nothing stays behind when the temporary file
and the backup could be removed. -/
structure Replaces (os : Outcomes) (exe : Path) (newBin : Bytes) (fs : Files)
    (result : Files × Option UpdateError) : Prop where
  replaced : result.2 = none → os.probe newBin = true ∧ result.1.find exe = some newBin
  kept : result.2 ≠ none → result.1.find exe = fs.find exe
  clean : os.removeTmp = true → os.removeOld = true →
    ∀ p, result.1.find p ≠ none → fs.find p ≠ none

section

variable {platform : Platform} {os : Outcomes} {exe tmpName : Path} {newBin : Bytes} {fs : Files}

theorem Replaces.refused (err : UpdateError) : Replaces os exe newBin fs (fs, some err) where
  replaced ok := by cases ok
  kept _ := rfl
  clean _ _ _ present := present

theorem name_tmpNameOf_ne_nil (platform : Platform) (dir random : Bytes) :
    (tmpNameOf platform dir random).name ≠ [] := by
  simp [tmpNameOf, ascii]

/-- On Windows the temporary file is a program. -/
theorem getLast?_tmpNameOf (windows : platform.isWindows = true) (dir random : Bytes) :
    (tmpNameOf platform dir random).name.getLast? = some 0x65 := by
  rw [tmpNameOf, if_pos windows, List.getLast?_append_of_ne_nil _ (by decide)]
  rfl

/-- The temporary file is new. -/
theorem createTemp_eq_some {dir : Bytes} {fs' : Files}
    (created : createTemp platform os dir fs = some (tmpName, fs')) :
    (∃ random, tmpName = tmpNameOf platform dir random) ∧ fs.find tmpName = none ∧
      fs' = fs.set tmpName (some []) := by
  rw [createTemp] at created
  split at created
  · cases created
  · rename_i random _
    dsimp only at created
    split at created
    · cases created
    · rename_i isNew
      cases created
      exact ⟨⟨random, rfl⟩, not_not.mp isNew, rfl⟩

theorem probeExec_set (isName : tmpName.name ≠ []) :
    probeExec os tmpName (fs.set tmpName (some newBin)) = os.probe newBin := by
  rw [probeExec, Files.find_set_self isName]

/-- What the steps up to the deferred removal do to an executable that is there. -/
structure Fills (os : Outcomes) (tmpName exe : Path) (newBin : Bytes) (fs : Files)
    (result : Files × Option UpdateError) : Prop where
  replaced : result.2 = none → os.probe newBin = true ∧ result.1.find exe = some newBin
  kept : result.2 ≠ none → result.1.find exe = fs.find exe
  clean : os.removeOld = true → ∀ p ≠ tmpName, result.1.find p ≠ none → fs.find p ≠ none

/-- A step before the last one failed. -/
theorem Fills.refused (ne : exe ≠ tmpName) (contents : Bytes) (err : UpdateError) :
    Fills os tmpName exe newBin fs (fs.set tmpName (some contents), some err) where
  replaced ok := by cases ok
  kept _ := Files.find_set_of_ne ne
  clean _ p notTmp isFile := by rwa [Files.find_set_of_ne notTmp] at isFile

theorem fillAndPlace_fills (isName : tmpName.name ≠ []) (ne : exe ≠ tmpName)
    (present : fs.find exe ≠ none)
    (isProgram : platform.isWindows = true → tmpName.name.getLast? = some 0x65)
    (rollback : platform.isWindows = true → os.rollback = true) :
    Fills os tmpName exe newBin fs (fillAndPlace platform os tmpName exe newBin fs) := by
  have staged : Staged tmpName exe newBin (fs.set tmpName (some newBin)) := by
    constructor
    · intro b isFile
      rw [Files.find_set_self isName] at isFile
      exact (Option.some.inj isFile).symm
    · exact ne.symm
    · rwa [Files.find_set_of_ne ne]
  have places : Places os.toPlaceOutcomes tmpName exe newBin (fs.set tmpName (some newBin))
      (placeBinary platform os tmpName exe (fs.set tmpName (some newBin))) := by
    rw [placeBinary]
    split
    · rename_i windows
      exact staged.placeWindows (isProgram windows) (rollback windows)
    · exact staged.placeUnix
  rw [fillAndPlace]
  split
  · exact .refused ne _ _
  · simp only [probeExec_set isName]
    split
    · exact .refused ne _ _
    · split
      · exact .refused ne _ _
      · split
        · exact .refused ne _ _
        · rename_i ran
          constructor
          · intro ok
            constructor
            · exact (Bool.not_eq_false _).mp ran
            · exact places.placed (Option.map_eq_none_iff.mp ok)
          · intro failed
            rw [places.kept fun ok => failed (Option.map_eq_none_iff.mpr ok),
              Files.find_set_of_ne ne]
          · intro removed p notTmp isFile
            have before := places.clean removed p notTmp isFile
            rwa [Files.find_set_of_ne notTmp] at before

/-- Without a path of the executable, only the temporary file is written. -/
theorem fillAndPlace_unnamed (isName : tmpName.name ≠ []) (noDir : exe.dir = [])
    (noName : exe.name = []) (fs : Files) :
    ∃ contents err, fillAndPlace platform os tmpName exe newBin fs =
      (fs.set tmpName (some contents), some err) := by
  have placed (fs : Files) : ∃ err, placeBinary platform os tmpName exe fs = (fs, some err) := by
    rw [placeBinary]
    split
    · exact placeWindows_unnamed noDir noName fs
    · exact placeUnix_unnamed noName fs
  obtain ⟨err, refused⟩ := placed (fs.set tmpName (some newBin))
  rw [fillAndPlace]
  split
  · exact ⟨os.written, .write, rfl⟩
  · simp only [probeExec_set isName, refused]
    split
    · exact ⟨newBin, .chmod, rfl⟩
    · split
      · exact ⟨newBin, .close, rfl⟩
      · split
        · exact ⟨newBin, .probe, rfl⟩
        · exact ⟨newBin, .place err, rfl⟩

/-- The temporary file is removed last; it was not there before. -/
theorem isFile_of_removeTmp {fs' : Files} (removed : os.removeTmp = true)
    (others : ∀ p ≠ tmpName, fs'.find p ≠ none → fs.find p ≠ none) (p : Path)
    (isFile : (fs'.remove os.removeTmp tmpName).find p ≠ none) : fs.find p ≠ none := by
  by_cases isTmp : p = tmpName
  · subst isTmp
    rw [removed] at isFile
    exact absurd Files.find_remove_self isFile
  · rw [Files.find_remove_of_ne isTmp] at isFile
    exact others p isTmp isFile

theorem Fills.replaces {result : Files × Option UpdateError}
    (fills : Fills os tmpName exe newBin (fs.set tmpName (some [])) result) (ne : exe ≠ tmpName) :
    Replaces os exe newBin fs (result.1.remove os.removeTmp tmpName, result.2) := by
  constructor
  · intro ok
    obtain ⟨ran, placed⟩ := fills.replaced ok
    exact ⟨ran, (Files.find_remove_of_ne ne).trans placed⟩
  · intro failed
    rw [Files.find_remove_of_ne ne, fills.kept failed, Files.find_set_of_ne ne]
  · intro removed removedOld
    apply isFile_of_removeTmp removed
    intro p notTmp isFile
    have filled := fills.clean removedOld p notTmp isFile
    rwa [Files.find_set_of_ne notTmp] at filled

/-- `replaceSelf` replaces the executable or leaves it as it was. -/
theorem replaceSelf_replaces (exe : Executable)
    (rollback : platform.isWindows = true → os.rollback = true) :
    Replaces os exe.path newBin fs (replaceSelf platform os exe newBin fs) := by
  rw [replaceSelf]
  split
  · exact .refused _
  · dsimp only
    split
    · exact .refused _
    · rename_i tmpName fs' created
      obtain ⟨⟨random, isTmp⟩, isNew, rfl⟩ := createTemp_eq_some created
      have isName : tmpName.name ≠ [] := by
        rw [isTmp]
        exact name_tmpNameOf_ne_nil platform _ random
      -- an executable that cannot be resolved has the empty path
      by_cases unresolved : os.evalSymlinks = false ∨ fs.find exe.path = none
      · rw [evalSymlinks, if_pos unresolved] at isTmp ⊢
        have ne : exe.path ≠ tmpName := by
          intro same
          apply exe.absolute
          rw [same, isTmp]
          rfl
        obtain ⟨contents, err, filled⟩ :
            ∃ contents err, fillAndPlace platform os tmpName ⟨[], []⟩ newBin
              (fs.set tmpName (some [])) = ((fs.set tmpName (some [])).set tmpName (some contents),
                some err) := fillAndPlace_unnamed isName rfl rfl _
        rw [filled]
        exact (Fills.refused ne contents err).replaces ne
      · rw [evalSymlinks, if_neg unresolved] at isTmp ⊢
        have present : fs.find exe.path ≠ none := fun missing => unresolved (.inr missing)
        have ne : exe.path ≠ tmpName := by
          intro same
          rw [same] at present
          exact present isNew
        have before : (fs.set tmpName (some [])).find exe.path = fs.find exe.path :=
          Files.find_set_of_ne ne
        have isProgram (windows : platform.isWindows = true) :
            tmpName.name.getLast? = some 0x65 := by
          rw [isTmp]
          exact getLast?_tmpNameOf windows _ random
        have fills : Fills os tmpName exe.path newBin (fs.set tmpName (some []))
            (fillAndPlace platform os tmpName exe.path newBin (fs.set tmpName (some []))) :=
          fillAndPlace_fills isName ne (before.symm ▸ present) isProgram rollback
        exact fills.replaces ne

end

/-- What an update has to do: if it says that it updated, the executable is what was
downloaded, which has the checksum of this platform's file and ran; otherwise the
executable is as it was.  Where the removals are granted, no file is there that was
not there before. -/
structure AllOrNothing (lib : Library) (platform : Platform) (net : Network) (repo : Bytes)
    (os : Outcomes) (exe : Executable) (fs : Files) (result : UpdateResult) : Prop where
  replaced : result.updated = true →
    result.err = none ∧
      ∃ bin sums, dl net (assetURL repo (assetName platform)) = some bin ∧
        dl net (assetURL repo (ascii "checksums.txt")) = some sums ∧
        expectedSHA lib sums (assetName platform) = some (encodeHex (lib.sha256 bin)) ∧
        os.probe bin = true ∧ result.files.find exe.path = some bin
  kept : result.err ≠ none ∨ result.updated = false →
    result.files.find exe.path = fs.find exe.path
  clean : os.removeTmp = true → os.removeOld = true →
    ∀ p, result.files.find p ≠ none → fs.find p ≠ none

theorem AllOrNothing.untouched {lib : Library} {platform : Platform} {net : Network}
    {repo : Bytes} {os : Outcomes} {exe : Executable} {fs : Files} (version : Bytes)
    (err : Option UpdateError) :
    AllOrNothing lib platform net repo os exe fs ⟨version, false, err, fs⟩ where
  replaced updated := by cases updated
  kept _ := rfl
  clean _ _ _ isFile := isFile

/-- A self-update is all or nothing. -/
theorem update_all_or_nothing (lib : Library) (platform : Platform) (net : Network)
    (repo : Bytes) (os : Outcomes) (exe : Executable) (current : Bytes) (fs : Files)
    (rollback : platform.isWindows = true → os.rollback = true) :
    AllOrNothing lib platform net repo os exe fs
      (update lib platform net repo os exe current fs) := by
  rw [update]
  split
  · exact .untouched _ _
  · rename_i tag _
    split
    · exact .untouched _ _
    · dsimp only
      split
      · exact .untouched _ _
      · rename_i bin downloaded
        split
        · exact .untouched _ _
        · rename_i sums summed
          split
          · exact .untouched _ _
          · rename_i want expected
            split
            · exact .untouched _ _
            · rename_i same
              rw [not_not] at same
              have replaces : Replaces os exe.path bin fs (replaceSelf platform os exe bin fs) :=
                replaceSelf_replaces exe rollback
              split
              · rename_i fs' err failed
                rw [failed] at replaces
                constructor
                · intro updated
                  cases updated
                · intro _
                  exact replaces.kept (Option.some_ne_none err)
                · exact replaces.clean
              · rename_i fs' succeeded
                rw [succeeded] at replaces
                obtain ⟨ran, placed⟩ := replaces.replaced rfl
                constructor
                · intro _
                  exact ⟨rfl, bin, sums, downloaded, summed, same ▸ expected, ran, placed⟩
                · rintro (failed | notUpdated)
                  · exact absurd rfl failed
                  · cases notUpdated
                · exact replaces.clean

/-- A release of one program, whose hash is the program itself. -/
def sampleNet : Network := fun url =>
  if url = ascii "https://github.com/4noha/herdr-drover/releases/latest" then
    some ⟨302, ascii "https://github.com/4noha/herdr-drover/releases/tag/v2", none, none⟩
  else if url = assetURL (repo []) (ascii "checksums.txt") then
    some ⟨200, [], some (ascii "6e6577  herdr-drover_windows_amd64.exe"), none⟩
  else some ⟨200, [], some (ascii "new"), none⟩

/-- A Windows machine on which the running program cannot be moved to `exe.old`, and on
which the new one takes its place if `place` is granted. -/
def busyMachine (place : Bool) : Outcomes where
  readDir := some [ascii "drover.exe", ascii "drover.exe.old"]
  cleanup _ := false
  backup := false
  now := 1762128000
  fallback := true
  place := place
  rollback := true
  removeOld := true
  executable := true
  evalSymlinks := true
  createTemp := some (ascii "1")
  write := true
  written := []
  chmod := true
  close := true
  probe contents := contents = ascii "new"
  removeTmp := true

/-- A program in a folder on Windows. -/
def sampleExecutable : Executable where
  path := ⟨ascii "C:", ascii "drover.exe"⟩
  named := by decide
  absolute := by decide

/-- The old program, and an older one. -/
def sampleFiles : Files where
  find p :=
    if p = ⟨ascii "C:", ascii "drover.exe"⟩ then some (ascii "old")
    else if p = ⟨ascii "C:", ascii "drover.exe.old"⟩ then some (ascii "older")
    else none
  named := by
    rintro ⟨dir, name⟩ rfl
    simp [ascii]

/-- The program is replaced, or moved back. -/
theorem busyMachine_all_or_nothing :
    let run (place : Bool) := update ⟨id, id⟩ ⟨ascii "windows", ascii "amd64"⟩ sampleNet (repo [])
      (busyMachine place) sampleExecutable (ascii "v1") sampleFiles
    (∀ place, AllOrNothing ⟨id, id⟩ ⟨ascii "windows", ascii "amd64"⟩ sampleNet (repo [])
        (busyMachine place) sampleExecutable sampleFiles (run place)) ∧
      ((run true).err = none ∧ (run true).updated = true ∧
        (run true).files.find sampleExecutable.path = some (ascii "new")) ∧
      (run false).err = some (.place (.place .denied)) ∧
      (run false).files.find sampleExecutable.path = some (ascii "old") := by
  refine ⟨fun place => update_all_or_nothing _ _ _ _ _ _ _ _ fun _ => rfl, ?_⟩
  decide +kernel

end Drover.SelfUpdate

import Drover.SelfUpdate.Update
import Mathlib.Data.List.TakeWhile

/-!
# Release pages

`tagFromReleaseURL` takes the tag from behind the first `/releases/tag/` of a
location.  A release page is a location whose path ends with that marker and one
segment; the function finds its tag unless the marker stands in the path before,
and it finds a tag elsewhere if the path has no marker but the query or the
fragment has one.
-/

namespace Drover.SelfUpdate

/-- The byte between the parts of a path. -/
def slash : UInt8 := 0x2f

/-- What stands before the tag. -/
def marker : Bytes := ascii "/releases/tag/"

/-- Neither `?` nor `#`. -/
def isPathByte (b : UInt8) : Bool := b ∉ ascii "?#"

/-- A location without its query and fragment. -/
def pathOf (loc : Bytes) : Bytes := loc.takeWhile isPathByte

/-- The text is one segment, with or without a slash behind it. -/
structure SingleSegment (text tag : Bytes) : Prop where
  nonempty : tag ≠ []
  slash_notMem : slash ∉ tag
  whole : text = tag ∨ text = tag ++ [slash]

/-- The location is the release page of the tag. -/
def IsReleasePage (loc tag : Bytes) : Prop :=
  ∃ start text, pathOf loc = start ++ marker ++ text ∧ SingleSegment text tag

/-- The path has no marker; the query or the fragment has one, and a segment
behind it. -/
def MarkerAstray (loc : Bytes) : Prop :=
  ¬ marker <:+: pathOf loc ∧
    ∃ start rest tag, Stream.cutAt marker loc = some (start, rest) ∧ SingleSegment (pathOf rest) tag

/-- The path of a release page has the marker more than once. -/
def MarkerRepeated (loc : Bytes) : Prop :=
  ∃ start text tag, pathOf loc = start ++ marker ++ text ∧ SingleSegment text tag ∧
    ∃ earlier rest, pathOf loc = earlier ++ marker ++ rest ∧ earlier.length < start.length

/-! ## The last segment -/

/-- `strings.TrimSuffix(tag, "/")`. -/
def trimSlash (tag : Bytes) : Bytes := if tag.getLast? = some slash then tag.dropLast else tag

theorem singleSegment_iff {text tag : Bytes} :
    SingleSegment text tag ↔ trimSlash text = tag ∧ tag ≠ [] ∧ slash ∉ tag := by
  constructor
  · rintro ⟨nonempty, clean, rfl | rfl⟩
    · have notLast : text.getLast? ≠ some slash := fun last => clean (List.mem_of_getLast? last)
      rw [trimSlash, if_neg notLast]
      exact ⟨rfl, nonempty, clean⟩
    · rw [trimSlash, List.getLast?_concat, if_pos rfl, List.dropLast_concat]
      exact ⟨rfl, nonempty, clean⟩
  · rintro ⟨trimmed, nonempty, clean⟩
    rw [trimSlash] at trimmed
    split at trimmed
    · rename_i last
      obtain ⟨init, rfl⟩ := List.getLast?_eq_some_iff.mp last
      rw [List.dropLast_concat] at trimmed
      exact ⟨nonempty, clean, .inr (by rw [trimmed])⟩
    · exact ⟨nonempty, clean, .inl trimmed⟩

/-- Text with a slash before its last segment is no segment. -/
theorem SingleSegment.not_append {text tag : Bytes} (single : SingleSegment text tag)
    (before other : Bytes) : ¬ SingleSegment (before ++ slash :: text) other := by
  have textNonempty : text ≠ [] := by
    rcases single.whole with rfl | rfl
    · exact single.nonempty
    · exact List.concat_ne_nil slash tag
  rintro ⟨-, clean, whole | whole⟩
  · exact clean (whole ▸ List.mem_append_right _ List.mem_cons_self)
  · obtain ⟨init, last, rfl⟩ := (List.eq_nil_or_concat' text).resolve_left textNonempty
    have same : before ++ slash :: init = other := by
      rw [← List.cons_append, ← List.append_assoc] at whole
      exact (List.append_inj' whole rfl).1
    exact clean (same ▸ List.mem_append_right _ List.mem_cons_self)

/-- What `tagFromReleaseURL` makes of the text behind the marker. -/
theorem tagFromReleaseURL_eq_some_iff {loc tag : Bytes} :
    tagFromReleaseURL loc = some tag ↔
      ∃ start rest, Stream.cutAt marker loc = some (start, rest) ∧
        SingleSegment (pathOf rest) tag := by
  cases found : Stream.cutAt marker loc with
  | none =>
      have read : tagFromReleaseURL loc = none := by
        rw [marker] at found
        rw [tagFromReleaseURL, found]
      simp [read]
  | some cut =>
      obtain ⟨start, rest⟩ := cut
      have read : tagFromReleaseURL loc =
          if trimSlash (pathOf rest) = [] ∨ slash ∈ trimSlash (pathOf rest) then none
          else some (trimSlash (pathOf rest)) := by
        rw [marker] at found
        rw [tagFromReleaseURL, found]
        rfl
      rw [read]
      simp only [Option.some.injEq, Prod.mk.injEq, singleSegment_iff]
      constructor
      · intro parsed
        split at parsed
        · cases parsed
        · rename_i wellFormed
          rw [not_or] at wellFormed
          cases parsed
          exact ⟨start, rest, ⟨rfl, rfl⟩, rfl, wellFormed⟩
      · rintro ⟨_, _, ⟨rfl, rfl⟩, rfl, nonempty, clean⟩
        rw [if_neg (not_or.mpr ⟨nonempty, clean⟩)]

/-! ## The first marker -/

theorem takeWhile_dropWhile {α : Type} (p : α → Bool) (l : List α) :
    (l.dropWhile p).takeWhile p = [] := by
  induction l with
  | nil => rfl
  | cons x l ih =>
      by_cases keep : p x = true
      · rw [List.dropWhile_cons_of_pos keep, ih]
      · rw [List.dropWhile_cons_of_neg keep, List.takeWhile_cons_of_neg keep]

/-- A marker in the path is the first of the location, and what is behind it in
the path is what is read. -/
theorem tagFromReleaseURL_of_path {loc start rest : Bytes}
    (found : Stream.cutAt marker (pathOf loc) = some (start, rest)) (tag : Bytes) :
    tagFromReleaseURL loc = some tag ↔ SingleSegment rest tag := by
  have inPath : ∀ b ∈ rest, isPathByte b = true := by
    intro b mem
    have whole := Stream.cutAt_eq_append found
    exact List.mem_takeWhile_imp (whole ▸ List.mem_append_right _ mem)
  have foundFirst : Stream.cutAt marker loc = some (start, rest ++ loc.dropWhile isPathByte) := by
    rw [← Stream.cutAt_append_of_some found, pathOf, List.takeWhile_append_dropWhile]
  have ends : pathOf (rest ++ loc.dropWhile isPathByte) = rest := by
    rw [pathOf, List.takeWhile_append_of_pos inPath, takeWhile_dropWhile, List.append_nil]
  rw [tagFromReleaseURL_eq_some_iff, foundFirst]
  constructor
  · rintro ⟨_, _, same, single⟩
    cases same
    exact ends ▸ single
  · intro single
    exact ⟨_, _, rfl, ends.symm ▸ single⟩

/-- Behind the first of two markers stands a slash before the text. -/
theorem eq_append_slash {start rest later text : Bytes}
    (same : start ++ marker ++ rest = later ++ marker ++ text)
    (before : start.length < later.length) : ∃ between, rest = between ++ slash :: text := by
  have opened : later ++ marker ++ text =
      (later ++ ascii "/releases/tag") ++ slash :: text := by
    have ending : marker = ascii "/releases/tag" ++ [slash] := by decide
    rw [ending]
    simp only [List.append_assoc, List.singleton_append]
  have shorter : (start ++ marker).length ≤ (later ++ ascii "/releases/tag").length := by
    have fourteen : marker.length = 14 := by decide
    have thirteen : (ascii "/releases/tag").length = 13 := by decide
    rw [List.length_append, List.length_append, fourteen, thirteen]
    omega
  rw [opened] at same
  have isPrefix : start ++ marker <+: later ++ ascii "/releases/tag" :=
    List.prefix_of_prefix_length_le (same ▸ List.prefix_append _ _) (List.prefix_append _ _) shorter
  obtain ⟨between, whole⟩ := isPrefix
  rw [← whole, List.append_assoc (start ++ marker)] at same
  exact ⟨between, List.append_cancel_left same⟩

/-- With a marker in its path, a location is read as what it is unless the
marker is repeated. -/
theorem reads_iff_not_repeated {loc start rest : Bytes}
    (found : Stream.cutAt marker (pathOf loc) = some (start, rest)) :
    (∀ tag, tagFromReleaseURL loc = some tag ↔ IsReleasePage loc tag) ↔ ¬ MarkerRepeated loc := by
  have first := Stream.cutAt_eq_append found
  constructor
  · rintro reads ⟨later, text, tag, page, single, earlier, _, occurs, before⟩
    have readsTag := (reads tag).mpr ⟨later, text, page, single⟩
    have firstSingle := (tagFromReleaseURL_of_path found tag).mp readsTag
    have notLater : start.length < later.length :=
      Nat.lt_of_le_of_lt (Stream.cutAt_length_le found occurs) before
    obtain ⟨between, rfl⟩ := eq_append_slash (first.symm.trans page) notLater
    exact single.not_append between tag firstSingle
  · intro once tag
    rw [tagFromReleaseURL_of_path found]
    constructor
    · exact fun single => ⟨start, rest, first, single⟩
    · rintro ⟨later, text, page, single⟩
      have sameLength : start.length = later.length := by
        by_contra different
        have before := Nat.lt_of_le_of_ne (Stream.cutAt_length_le found page) different
        exact once ⟨later, text, tag, page, single, start, rest, first, before⟩
      have sameStart : (start ++ marker).length = (later ++ marker).length := by
        rw [List.length_append, List.length_append, sameLength]
      exact (List.append_inj (first.symm.trans page) sameStart).2 ▸ single

/-- Without a marker in its path, a location is read as no release page unless
the marker is astray. -/
theorem reads_iff_not_astray {loc : Bytes} (absent : ¬ marker <:+: pathOf loc) :
    (∀ tag, tagFromReleaseURL loc = some tag ↔ IsReleasePage loc tag) ↔ ¬ MarkerAstray loc := by
  have notPage : ∀ tag, ¬ IsReleasePage loc tag := by
    rintro tag ⟨start, text, page, -⟩
    exact absent ⟨start, text, page.symm⟩
  constructor
  · rintro reads ⟨-, start, rest, tag, found, single⟩
    exact notPage tag ((reads tag).mp (tagFromReleaseURL_eq_some_iff.mpr ⟨_, _, found, single⟩))
  · intro inPlace tag
    constructor
    · intro parsed
      obtain ⟨start, rest, found, single⟩ := tagFromReleaseURL_eq_some_iff.mp parsed
      exact absurd ⟨absent, start, rest, tag, found, single⟩ inPlace
    · exact fun page => absurd page (notPage tag)

/-- A location is read as what it is, exactly with its first marker in its
path and no other before a tag. -/
theorem reads_iff (loc : Bytes) :
    (∀ tag, tagFromReleaseURL loc = some tag ↔ IsReleasePage loc tag) ↔
      ¬ MarkerAstray loc ∧ ¬ MarkerRepeated loc := by
  cases found : Stream.cutAt marker (pathOf loc) with
  | none =>
      have absent := (Stream.cutAt_eq_none_iff (by decide)).mp found
      have notRepeated : ¬ MarkerRepeated loc := by
        rintro ⟨start, text, _, page, -⟩
        exact absent ⟨start, text, page.symm⟩
      rw [reads_iff_not_astray absent]
      exact (and_iff_left notRepeated).symm
  | some cut =>
      have present : marker <:+: pathOf loc :=
        ⟨cut.1, cut.2, (Stream.cutAt_eq_append found).symm⟩
      have notAstray : ¬ MarkerAstray loc := fun astray => astray.1 present
      rw [reads_iff_not_repeated found]
      exact (and_iff_right notAstray).symm

/-! ## The newest tag -/

/-- A redirect to a location that is no release page leaves the tag to the API. -/
def FallsBack (loc : Bytes) : Prop :=
  (∀ tag, ¬ IsReleasePage loc tag) →
    ∀ (net : Network) (repo : Bytes) (resp : Response),
      net (dlBase ++ ascii "/" ++ repo ++ ascii "/releases/latest") = some resp →
        resp.location = loc →
          latestTagByRedirect net repo = none ∧ latestTag net repo = latestTagByAPI net repo

theorem fallsBack_of_reads {loc : Bytes}
    (reads : ∀ tag, tagFromReleaseURL loc = some tag ↔ IsReleasePage loc tag) : FallsBack loc := by
  rintro notPage net repo resp response rfl
  have unread : tagFromReleaseURL resp.location = none := by
    rw [Option.eq_none_iff_forall_ne_some]
    exact fun tag parsed => notPage tag ((reads tag).mp parsed)
  have noTag : latestTagByRedirect net repo = none := by
    rw [latestTagByRedirect, response]
    simp only [unread, ite_self]
  exact ⟨noTag, by rw [latestTag, noTag]⟩

/-- A location gives its tag exactly as a release page, and nothing else keeps
`LatestTag` from the API, if and only if the marker is neither astray nor
repeated. -/
theorem tagFromReleaseURL_iff (loc : Bytes) :
    ((∀ tag, tagFromReleaseURL loc = some tag ↔ IsReleasePage loc tag) ∧ FallsBack loc) ↔
      ¬ MarkerAstray loc ∧ ¬ MarkerRepeated loc := by
  rw [← reads_iff]
  exact ⟨fun reads => reads.1, fun reads => ⟨reads, fallsBack_of_reads reads⟩⟩

/-- A login page with the release page in its query gives a tag. -/
theorem login_gives_tag :
    tagFromReleaseURL (ascii "https://github.com/login?return_to=/o/r/releases/tag/v9") =
        some (ascii "v9") ∧
      ∀ tag, ¬ IsReleasePage (ascii "https://github.com/login?return_to=/o/r/releases/tag/v9")
        tag := by
  constructor
  · decide
  · rintro tag ⟨start, text, page, -⟩
    have present : marker <:+: pathOf (ascii
        "https://github.com/login?return_to=/o/r/releases/tag/v9") := ⟨start, text, page.symm⟩
    exact absurd present (by decide)

end Drover.SelfUpdate

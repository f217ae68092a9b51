import Drover.Data.Bytes
import Mathlib.Algebra.Order.Field.Rat
import Mathlib.Tactic.Linarith
import Mathlib.Tactic.Positivity

/-!
# Following the live row

`cmTrackScroll` keeps the row of the cursor, and the content below it where it fits, at the
lower edge of what is visible.  The page calls it when its output has settled and when it is
scrolled.  The numbers are rationals: nothing is rounded.
-/

namespace Drover.Term

/-! ## `cmTrackScroll` -/

/-- `s.mode`. -/
inductive ScrollMode where
  | settle
  | userscroll
  deriving DecidableEq

/-- What `cmTrackScroll` reads. -/
structure ScrollState where
  following : Bool
  cy : ℚ
  pinRow : ℚ
  cellH : ℚ
  clientHeight : ℚ
  scrollHeight : ℚ
  scrollTop : ℚ

/-- What it returns. -/
structure Tracked where
  scrollTop : ℚ
  following : Bool
  deriving DecidableEq

namespace ScrollState

/-- `cellH`. -/
def cell (s : ScrollState) : ℚ := if 0 < s.cellH then s.cellH else 1

/-- `maxTop`: how far the screen scrolls. -/
def maxTop (s : ScrollState) : ℚ := max 0 (s.scrollHeight - s.clientHeight)

/-- `clamp`. -/
def clamp (s : ScrollState) (t : ℚ) : ℚ := if t < 0 then 0 else if s.maxTop < t then s.maxTop else t

/-- `cursorPx`: the lower edge of the cursor. -/
def cursorPx (s : ScrollState) : ℚ := (s.cy + 1) * s.cell

/-- The row of `pinPx`. -/
def lowRow (s : ScrollState) : ℚ := if s.cy < s.pinRow then s.pinRow else s.cy

/-- `pinPx`: the lower edge of the row that is kept in sight. -/
def pinPx (s : ScrollState) : ℚ := (s.lowRow + 1) * s.cell

/-- `pinTop`: where the screen is scrolled to while it follows. -/
def pinTop (s : ScrollState) : ℚ :=
  let pinTop := s.clamp (s.pinPx - s.clientHeight)
  if s.cy * s.cell < pinTop then s.clamp (s.cursorPx - s.clientHeight) else pinTop

/-- `cmTrackScroll`. -/
def cmTrackScroll (s : ScrollState) : ScrollMode → Tracked
  | .userscroll =>
      ⟨s.scrollTop, decide (s.cursorPx - s.cell ≤ s.scrollTop + s.clientHeight)⟩
  | .settle => if s.following then ⟨s.pinTop, true⟩ else ⟨s.scrollTop, false⟩

/-- The geometry of a page: a row fits, and the content holds the rows. -/
structure Valid (s : ScrollState) : Prop where
  cell_pos : 0 < s.cellH
  cell_le : s.cellH ≤ s.clientHeight
  cy_nonneg : 0 ≤ s.cy
  pinRow_nonneg : 0 ≤ s.pinRow
  rows_le : (max s.cy s.pinRow + 1) * s.cellH ≤ s.scrollHeight

/-- The whole row is visible at the position. -/
def Shows (s : ScrollState) (top row : ℚ) : Prop :=
  top ≤ row * s.cellH ∧ (row + 1) * s.cellH ≤ top + s.clientHeight

/-- The rows between that of the cursor and `pinRow` fit. -/
def Fits (s : ScrollState) : Prop :=
  (max s.cy s.pinRow - min s.cy s.pinRow + 1) * s.cellH ≤ s.clientHeight

/-! ## The position of a pin -/

variable {s : ScrollState}

theorem cell_of_valid (valid : s.Valid) : s.cell = s.cellH := if_pos valid.cell_pos

theorem lowRow_eq (s : ScrollState) : s.lowRow = max s.cy s.pinRow := by
  rw [lowRow]
  split
  · rename_i below
    exact (max_eq_right below.le).symm
  · rename_i above
    exact (max_eq_left (not_lt.mp above)).symm

theorem clamp_nonneg (s : ScrollState) (t : ℚ) : 0 ≤ s.clamp t := by
  rw [clamp]
  split
  · exact le_rfl
  · rename_i nonneg
    split
    · exact le_max_left _ _
    · exact not_lt.mp nonneg

theorem clamp_le (s : ScrollState) (t : ℚ) : s.clamp t ≤ s.maxTop := by
  rw [clamp]
  split
  · exact le_max_left _ _
  · split
    · exact le_rfl
    · rename_i within
      exact not_lt.mp within

/-- What is pinned to the lower edge and lies in the content is not clamped from above. -/
theorem clamp_pin {px : ℚ} (inside : px ≤ s.scrollHeight) :
    s.clamp (px - s.clientHeight) = max 0 (px - s.clientHeight) := by
  have notAbove : ¬ s.maxTop < px - s.clientHeight := by
    rw [not_lt]
    exact le_max_of_le_right (sub_le_sub_right inside _)
  rw [clamp, if_neg notAbove]
  split
  · rename_i negative
    exact (max_eq_left negative.le).symm
  · rename_i nonneg
    exact (max_eq_right (not_lt.mp nonneg)).symm

theorem Valid.cursorPx_le (valid : s.Valid) : s.cursorPx ≤ s.pinPx := by
  rw [cursorPx, pinPx, cell_of_valid valid, lowRow_eq]
  have rows := le_max_left s.cy s.pinRow
  exact mul_le_mul_of_nonneg_right (by linarith) valid.cell_pos.le

theorem Valid.pinPx_le (valid : s.Valid) : s.pinPx ≤ s.scrollHeight := by
  rw [pinPx, cell_of_valid valid, lowRow_eq]
  exact valid.rows_le

/-- The pin: the low row at the lower edge, or else the row of the cursor. -/
theorem Valid.pinTop_eq (valid : s.Valid) :
    s.pinTop = max 0 (s.pinPx - s.clientHeight) ∧ s.pinTop ≤ s.cy * s.cellH ∨
      s.cy * s.cellH < s.pinPx - s.clientHeight ∧
        s.pinTop = max 0 (s.cursorPx - s.clientHeight) := by
  have top : 0 ≤ s.cy * s.cellH := mul_nonneg valid.cy_nonneg valid.cell_pos.le
  have low := clamp_pin valid.pinPx_le
  have cursor := clamp_pin (valid.cursorPx_le.trans valid.pinPx_le)
  rw [pinTop]
  simp only [low, cursor, cell_of_valid valid]
  split
  · rename_i hidden
    right
    constructor
    · exact (lt_max_iff.mp hidden).resolve_left (not_lt.mpr top)
    · rfl
  · rename_i visible
    left
    exact ⟨rfl, not_lt.mp visible⟩

theorem pinTop_nonneg (s : ScrollState) : 0 ≤ s.pinTop := by
  rw [pinTop]
  split
  · exact s.clamp_nonneg _
  · exact s.clamp_nonneg _

theorem pinTop_le (s : ScrollState) : s.pinTop ≤ s.maxTop := by
  rw [pinTop]
  split
  · exact s.clamp_le _
  · exact s.clamp_le _

/-- The whole row of the cursor is visible at the pin. -/
theorem Valid.shows_cursor (valid : s.Valid) : s.Shows s.pinTop s.cy := by
  have isCursor : s.cursorPx = (s.cy + 1) * s.cellH := by rw [cursorPx, cell_of_valid valid]
  have below := valid.cursorPx_le
  rcases valid.pinTop_eq with ⟨isPin, visible⟩ | ⟨-, isPin⟩
  · have atLeast := le_max_right 0 (s.pinPx - s.clientHeight)
    rw [← isPin] at atLeast
    constructor
    · exact visible
    · linarith
  · have atLeast := le_max_right 0 (s.cursorPx - s.clientHeight)
    have top : 0 ≤ s.cy * s.cellH := mul_nonneg valid.cy_nonneg valid.cell_pos.le
    have row := valid.cell_le
    rw [isPin]
    constructor
    · apply max_le top
      linarith
    · linarith

/-- So is the low row, where the rows between the two fit. -/
theorem Valid.shows_pinRow (valid : s.Valid) (fits : s.Fits) : s.Shows s.pinTop s.pinRow := by
  have isPx : s.pinPx = (max s.cy s.pinRow + 1) * s.cellH := by
    rw [pinPx, cell_of_valid valid, lowRow_eq]
  have row := valid.cell_le
  have positive := valid.cell_pos
  rw [Fits] at fits
  rcases valid.pinTop_eq with ⟨isPin, visible⟩ | ⟨hidden, -⟩
  · have atLeast := le_max_right 0 (s.pinPx - s.clientHeight)
    rw [← isPin] at atLeast
    rcases le_total s.cy s.pinRow with lower | upper
    · rw [max_eq_right lower] at isPx
      have rows := mul_le_mul_of_nonneg_right lower positive.le
      constructor <;> linarith
    · rw [max_eq_left upper, min_eq_right upper] at *
      have rows := mul_le_mul_of_nonneg_right upper positive.le
      have top : 0 ≤ s.pinRow * s.cellH := mul_nonneg valid.pinRow_nonneg positive.le
      constructor
      · rw [isPin]
        apply max_le top
        linarith
      · linarith
  · rcases le_total s.cy s.pinRow with lower | upper
    · rw [max_eq_right lower, min_eq_left lower] at *
      linarith
    · rw [max_eq_left upper] at isPx
      linarith

/-- At the pin, a scroll does not end the following. -/
theorem Valid.follows_pin (valid : s.Valid) :
    s.cursorPx - s.cell ≤ s.pinTop + s.clientHeight := by
  have bottom := valid.shows_cursor.2
  have positive := valid.cell_pos
  rw [cursorPx, cell_of_valid valid]
  linarith

theorem settle_of_following (following : s.following = true) :
    s.cmTrackScroll .settle = ⟨s.pinTop, true⟩ := by
  rw [cmTrackScroll, following, if_pos rfl]

theorem settle_of_not_following (reading : s.following = false) :
    s.cmTrackScroll .settle = ⟨s.scrollTop, false⟩ := by
  rw [cmTrackScroll, reading, if_neg (by decide)]

/-- The state at another position. -/
def at_ (s : ScrollState) (tracked : Tracked) : ScrollState :=
  { s with scrollTop := tracked.scrollTop, following := tracked.following }

theorem Valid.userscroll_pin (valid : s.Valid) :
    (s.at_ ⟨s.pinTop, true⟩).cmTrackScroll .userscroll = ⟨s.pinTop, true⟩ := by
  change (⟨s.pinTop, decide (s.cursorPx - s.cell ≤ s.pinTop + s.clientHeight)⟩ : Tracked) = _
  rw [decide_eq_true valid.follows_pin]

/-- Following keeps the cursor visible and is stable.  A pin lies in the range of positions
and shows the row of the cursor, and the low row where the rows between them fit; neither a
scroll at the pin nor another settling changes it.  A page that does not follow is not moved. -/
theorem trackScroll (s : ScrollState) (valid : s.Valid) :
    (s.following = true →
      let pinned := s.cmTrackScroll .settle
      0 ≤ pinned.scrollTop ∧ pinned.scrollTop ≤ max 0 (s.scrollHeight - s.clientHeight) ∧
      s.Shows pinned.scrollTop s.cy ∧ (s.Fits → s.Shows pinned.scrollTop s.pinRow) ∧
      (s.at_ pinned).cmTrackScroll .userscroll = pinned ∧
      (s.at_ pinned).cmTrackScroll .settle = pinned ∧ pinned.following = true) ∧
    (s.following = false → s.cmTrackScroll .settle = ⟨s.scrollTop, false⟩) := by
  constructor
  · intro following
    rw [settle_of_following following]
    exact ⟨s.pinTop_nonneg, s.pinTop_le, valid.shows_cursor, valid.shows_pinRow,
      valid.userscroll_pin, rfl, rfl⟩
  · exact settle_of_not_following

/-- The cursor in row 40, and three rows of hints below it. -/
def sampleScroll : ScrollState := ⟨true, 40, 43, 10, 50, 5000, 0⟩

theorem trackScroll_sample :
    sampleScroll.Shows (sampleScroll.cmTrackScroll .settle).scrollTop 40 := by
  have valid : sampleScroll.Valid := by
    constructor <;> norm_num [sampleScroll]
  exact ((trackScroll sampleScroll valid).1 rfl).2.2.1

example : sampleScroll.cmTrackScroll .settle = ⟨390, true⟩ := by
  norm_num [sampleScroll, cmTrackScroll, pinTop, clamp, maxTop, pinPx, lowRow, cell]

end ScrollState

/-! ## The page -/

/-- The last line of a reversed list that is not empty. -/
def lastContent : List Bytes → Option ℕ
  | [] => none
  | line :: above => if line ≠ [] then some above.length else lastContent above

/-- `cmLastContentRow`. -/
def cmLastContentRow (lines : List Bytes) (cy : ℕ) : ℕ :=
  match lastContent lines.reverse with
  | some r => max cy r
  | none => cy

theorem lastContent_lt {lines : List Bytes} {r : ℕ} (last : lastContent lines = some r) :
    r < lines.length := by
  induction lines with
  | nil => cases last
  | cons line above ih =>
      rw [lastContent] at last
      rw [List.length_cons]
      split at last
      · cases last
        exact Nat.lt_succ_self _
      · exact Nat.lt_succ_of_lt (ih last)

/-- The row that is pinned is one of the screen, and not above the cursor. -/
theorem cmLastContentRow_mem {lines : List Bytes} {cy : ℕ} (inside : cy < lines.length) :
    cy ≤ cmLastContentRow lines cy ∧ cmLastContentRow lines cy < lines.length := by
  rw [cmLastContentRow]
  split
  · rename_i r last
    have below := lastContent_lt last
    rw [List.length_reverse] at below
    exact ⟨le_max_left _ _, max_lt inside below⟩
  · exact ⟨le_rfl, inside⟩

/-- `#term-host` with the screen in it, and the variable of `run`; `lines` holds the
`term.rows` rows of the screen. -/
structure Host where
  lines : List Bytes
  cursorY : ℕ
  clientHeight : ℚ
  scrollHeight : ℚ
  scrollTop : ℚ
  following : Bool

namespace Host

/-- `stateNow`. -/
def stateNow (host : Host) : ScrollState where
  following := host.following
  cy := host.cursorY
  pinRow := cmLastContentRow host.lines host.cursorY
  cellH := host.scrollHeight / host.lines.length
  clientHeight := host.clientHeight
  scrollHeight := host.scrollHeight
  scrollTop := host.scrollTop

/-- `settle`, unless `v2`. -/
def settle (host : Host) : Host :=
  let r := host.stateNow.cmTrackScroll .settle
  { host with following := r.following, scrollTop := r.scrollTop }

/-- The handler of `scroll`, unless `v2`. -/
def onScroll (host : Host) : Host :=
  { host with following := (host.stateNow.cmTrackScroll .userscroll).following }

/-- What happens to a page: it settles, a `scroll` is handled, its user moves it, or a frame
changes the content. -/
inductive Occurrence where
  | settle
  | scroll
  | move (top : ℚ)
  | frame (lines : List Bytes) (cursorY : ℕ) (clientHeight scrollHeight : ℚ)

/-- The page afterwards.  A browser keeps the position in the range that is left to it. -/
def after (host : Host) : Occurrence → Host
  | .settle => host.settle
  | .scroll => host.onScroll
  | .move top => { host with scrollTop := top }
  | .frame lines cursorY clientHeight scrollHeight =>
      { host with
        lines := lines
        cursorY := cursorY
        clientHeight := clientHeight
        scrollHeight := scrollHeight
        scrollTop := min host.scrollTop (max 0 (scrollHeight - clientHeight)) }

/-- The cursor is on the screen, and a row fits. -/
structure Fits (host : Host) : Prop where
  cursor_lt : host.cursorY < host.lines.length
  scrollHeight_pos : 0 < host.scrollHeight
  row_le : host.scrollHeight / host.lines.length ≤ host.clientHeight

theorem Fits.valid {host : Host} (fits : host.Fits) : host.stateNow.Valid := by
  have rows : (0 : ℚ) < host.lines.length := by
    exact_mod_cast (Nat.zero_le _).trans_lt fits.cursor_lt
  obtain ⟨notAbove, inside⟩ := cmLastContentRow_mem fits.cursor_lt
  have low : max (host.cursorY : ℚ) (cmLastContentRow host.lines host.cursorY) + 1 ≤
      host.lines.length := by
    rw [max_eq_right (by exact_mod_cast notAbove)]
    exact_mod_cast inside
  constructor
  · exact div_pos fits.scrollHeight_pos rows
  · exact fits.row_le
  · exact Nat.cast_nonneg _
  · exact Nat.cast_nonneg _
  · calc _ ≤ (host.lines.length : ℚ) * (host.scrollHeight / host.lines.length) :=
          mul_le_mul_of_nonneg_right low (div_pos fits.scrollHeight_pos rows).le
      _ = host.scrollHeight := mul_div_cancel₀ _ rows.ne'

/-- The page at its pin. -/
def pinned (host : Host) : Host :=
  { host with following := true, scrollTop := host.stateNow.pinTop }

theorem settle_eq_pinned {host : Host} (following : host.following = true) :
    host.settle = host.pinned := by
  rw [settle, ScrollState.settle_of_following following]
  rfl

theorem Fits.after_pinned {host : Host} (fits : host.Fits) {o : Occurrence}
    (own : o = .settle ∨ o = .scroll) : host.pinned.after o = host.pinned := by
  rcases own with rfl | rfl
  · exact settle_eq_pinned rfl
  · have follows := congrArg Tracked.following fits.valid.userscroll_pin
    have isPinned : host.pinned.onScroll.following = true := follows
    rw [after, onScroll]
    exact congrArg (fun following => { host.pinned with following := following }) isPinned

/-- A page that has settled stays as it is until a frame comes or its user moves it. -/
theorem Fits.settled {host : Host} (fits : host.Fits) (following : host.following = true)
    {occurrences : List Occurrence} (own : ∀ o ∈ occurrences, o = .settle ∨ o = .scroll) :
    occurrences.foldl after host.settle = host.settle := by
  rw [settle_eq_pinned following]
  induction occurrences with
  | nil => rfl
  | cons o rest ih =>
      rw [List.forall_mem_cons] at own
      rw [List.foldl_cons, fits.after_pinned own.1]
      exact ih own.2

/-- The occurrence is a settling, or a frame that leaves room for the position. -/
def Occurrence.Leaves (top : ℚ) : Occurrence → Prop
  | .settle => True
  | .frame _ _ clientHeight scrollHeight => top ≤ max 0 (scrollHeight - clientHeight)
  | .scroll | .move _ => False

end Host

end Drover.Term

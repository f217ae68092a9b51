import Drover.Glasses.WaitSeconds
import Drover.Mcp.WaitForStatus
import Drover.Slave.Grants

/-!
# Durations of clients

A client gives the timeout of `wait_for_status`, the time of a grant and the wait of a pull.
The grant is clamped before it is scaled; the other two are scaled first, and only the numbers
whose product is in the range of 64 bits are clamped.
-/

namespace Drover.Expiry

open Drover.Store
open Drover.Glasses (Floats ReadsWhole parseDecimal parseDecimal_of_isDigit maxWait)
open Drover.Mcp (WaitForStatusArgs statusReply waitSessionStatus toolWaitForStatus statusTimeout
  Scales)
open Drover.Slave (Act clampTTL putSlaveGrant second sessionOwnedBy slaveGrant slaveGrantPath)

variable {α : Type}

/-! ## Timeouts -/

/-- The tool waits for the seconds of its caller, and no longer than 50. -/
def WaitsClamped (a : WaitForStatusArgs) : Prop :=
  ∀ arrivals, toolWaitForStatus arrivals (some a) =
    statusReply (waitSessionStatus a.wanted (min a.timeoutS 50 * second) [] arrivals)

theorem waitsClamped_iff {a : WaitForStatusArgs}
    (given : a.pc ≠ [] ∧ a.sid ≠ [] ∧ a.wanted ≠ []) (positive : 0 < a.timeoutS) :
    WaitsClamped a ↔ Scales a.timeoutS := by
  have clamped : 0 < min a.timeoutS 50 * second :=
    mul_pos (lt_min positive (by decide)) (by decide)
  rw [WaitsClamped, Mcp.toolWaitForStatus_eq_iff given clamped, Mcp.statusTimeout_eq_iff positive]

/-! ## Grants -/

/-- The clamped seconds after a reading of the clock, as a grant of the session. -/
def IsGrant (pc sid : Bytes) (ttlSeconds : Int) (past : List (Act α)) (path : Path)
    (d : Slave.Doc α) : Prop :=
  ∃ now, (⟨now, .now, now⟩ : Act α) ∈ past ∧ path = slaveGrantPath pc sid ∧
    d = .slaveGrant pc sid (some (now + (min (max ttlSeconds 1) 300).toNat * second))

/-- A write of the document has succeeded. -/
def Stored (past : List (Act α)) (path : Path) (d : Slave.Doc α) : Prop :=
  ∃ time change, (⟨time, .write path change, true⟩ : Act α) ∈ past ∧ ∀ old, change old = some d

/-- Every grant that `slaveGrant` writes is a clamped one, and it has written one when it
answers that it has. -/
def StoresClamped (α : Type) (pc sid : Bytes) (ttlSeconds : Int) : Prop :=
  (slaveGrant (some (sid, ttlSeconds)) pc).Along
    (fun past o => o.Justified (IsGrant (α := α) pc sid ttlSeconds past))
    (fun past reply => reply = .ok →
      ∃ path d, IsGrant pc sid ttlSeconds past path d ∧ Stored past path d) []

theorem jsonError_ne_ok (status : Nat) (name : String) : Slave.jsonError status name ≠ .ok := by
  intro same
  cases same

/-- `PutSlaveGrant` stores what it says. -/
theorem putSlaveGrant_stores {pc sid : Bytes} (pcNamed : pc ≠ []) (sidNamed : sid ≠ [])
    (ttlSeconds : Int) (past : List (Act α)) :
    (putSlaveGrant pc sid (clampTTL ttlSeconds * second)).Along
      (fun past o => o.Justified (IsGrant (α := α) pc sid ttlSeconds past))
      (fun past ok => ok = true → ∃ path d, IsGrant pc sid ttlSeconds past path d ∧
        Stored past path d) past := by
  rw [putSlaveGrant, if_neg (not_or.mpr ⟨pcNamed, sidNamed⟩)]
  apply Prog.Along.now trivial
  intro now
  constructor
  · intro old d changed
    cases changed
    exact ⟨now, List.mem_cons_self, rfl, rfl⟩
  · intro time ok _ isOk
    cases isOk
    exact ⟨_, _, ⟨now, by simp, rfl, rfl⟩, time, _, List.mem_cons_self, fun _ => rfl⟩

theorem storesClamped (pc sid : Bytes) (ttlSeconds : Int) : StoresClamped α pc sid ttlSeconds := by
  simp only [StoresClamped, slaveGrant]
  split
  · exact fun isOk => absurd isOk (jsonError_ne_ok _ _)
  · rename_i sidNamed
    rw [sessionOwnedBy]
    split
    · exact fun isOk => absurd isOk (jsonError_ne_ok _ _)
    · rename_i named
      apply Prog.Along.bind
      apply Prog.Along.get trivial
      intro time snap
      cases snap with
      | failed | absent => exact fun isOk => absurd isOk (jsonError_ne_ok _ _)
      | found session =>
          apply Prog.Along.andThen
            (putSlaveGrant_stores (not_or.mp named).1 sidNamed ttlSeconds _)
          intro past ok stored
          cases ok with
          | false => exact fun isOk => absurd isOk (jsonError_ne_ok _ _)
          | true => exact fun _ => stored rfl

theorem clampTTL_mono {less ttlSeconds : Int} (le : less ≤ ttlSeconds) :
    clampTTL less ≤ clampTTL ttlSeconds := by
  rw [clampTTL, clampTTL]
  omega

/-! ## Waits -/

/-- No smaller decimal is a longer wait. -/
def WaitsMonotone (floats : Floats) (w : ℚ) (d : Nat) : Prop :=
  ∀ v less d', parseDecimal v = some less → 0 ≤ less → less ≤ w →
    floats.parseWaitSeconds v = some d' → d' ≤ d

theorem parseDecimal_longest : parseDecimal (ascii "25") = some 25 :=
  parseDecimal_of_isDigit (by decide) (List.all_eq_true.mp (by decide))

/-- The longest wait is read as it is. -/
theorem parseWaitSeconds_longest (floats : Floats) :
    floats.parseWaitSeconds (ascii "25") = some maxWait := by
  have isLongest : floats.waitOf 25 = maxWait :=
    floats.waitOf_eq_maxWait le_rfl (floats.converts_of_le le_rfl)
  have finite : Binary64.ofRat 25 = .finite (Binary64.nearest 25) := by
    have kept : Binary64.nearest 25 = 25 := by
      exact_mod_cast Binary64.nearest_natCast (n := 25) (by decide)
    have small : |Binary64.nearest 25| < 2 ^ 5 := by
      rw [kept]
      norm_num
    exact Binary64.ofRat_eq_finite small (by decide)
  rw [← isLongest]
  exact floats.parseWaitSeconds_of_finite parseDecimal_longest (by norm_num) finite

theorem waitsMonotone_iff (floats : Floats) {v : Bytes} {w : ℚ} (decimal : parseDecimal v = some w)
    (nonneg : 0 ≤ w) {d : Nat} (accepted : floats.parseWaitSeconds v = some d) :
    WaitsMonotone floats w d ↔ floats.Converts w := by
  have isWait := floats.parseWaitSeconds_of_decimal decimal accepted
  constructor
  · intro monotone
    rcases le_total w 25 with short | long
    · exact floats.converts_of_le short
    · have longest := monotone _ 25 maxWait parseDecimal_longest (by norm_num) long
        (parseWaitSeconds_longest floats)
      apply floats.converts_of_waitOf nonneg
      rw [isWait] at longest
      exact le_antisymm (min_le_right _ _) longest
  · intro converts v' less d' decimal' nonneg' le accepted'
    rw [isWait, floats.parseWaitSeconds_of_decimal decimal' accepted']
    exact floats.waitOf_mono nonneg' le converts

/-! ## The durations of clients -/

/-- What the clamps give.  A timeout is clamped, and waits no shorter than any smaller one,
exactly if its product scales; every grant is clamped; and the wait of a decimal is clamped
exactly if its product converts and, below the longest wait, it is a number of nanoseconds
that its double does not fall short of.  One that converts is off by hardly more than a
nanosecond, and is no shorter a wait than any smaller one. -/
theorem durations (α : Type) (floats : Floats) :
    (∀ a : WaitForStatusArgs, a.pc ≠ [] ∧ a.sid ≠ [] ∧ a.wanted ≠ [] → 0 < a.timeoutS →
      (WaitsClamped a ↔ Scales a.timeoutS)) ∧
    (∀ timeoutS, 0 < timeoutS →
      ((∀ less, 0 < less → less ≤ timeoutS → statusTimeout less ≤ statusTimeout timeoutS) ↔
        Scales timeoutS)) ∧
    (∀ pc sid ttlSeconds, StoresClamped α pc sid ttlSeconds) ∧
    (∀ less ttlSeconds, less ≤ ttlSeconds → clampTTL less ≤ clampTTL ttlSeconds) ∧
    ∀ v w d, parseDecimal v = some w → 0 ≤ w → floats.parseWaitSeconds v = some d →
      ((d : ℚ) = min w 25 * second ↔ floats.Converts w ∧ (25 ≤ w ∨ ReadsWhole w)) ∧
      (WaitsMonotone floats w d ↔ floats.Converts w) ∧
      (floats.Converts w → |(d : ℚ) - min w 25 * second| < 1 + 1 / 100000) := by
  constructor
  · exact fun a given positive => waitsClamped_iff given positive
  constructor
  · exact fun timeoutS positive => Mcp.statusTimeout_mono_iff positive
  constructor
  · exact fun pc sid ttlSeconds => storesClamped pc sid ttlSeconds
  constructor
  · exact fun less ttlSeconds le => clampTTL_mono le
  · intro v w d decimal nonneg accepted
    have monotone := waitsMonotone_iff floats decimal nonneg accepted
    rw [floats.parseWaitSeconds_of_decimal decimal accepted] at monotone ⊢
    exact ⟨floats.waitOf_eq_iff nonneg, monotone, floats.abs_waitOf_sub_lt nonneg⟩

/-- A client that waits half a minute for `idle`. -/
def halfMinute : WaitForStatusArgs := ⟨ascii "mac", ascii "w1:p2", [ascii "idle"], 30⟩

/-- The conversion of amd64, without the special numbers. -/
def amd64 : Floats := ⟨fun _ => none, fun _ => -2 ^ 63⟩

theorem halfMinute_clamped :
    WaitsClamped halfMinute ∧ ((maxWait : ℕ) : ℚ) = min 25 25 * second := by
  have all := durations Unit amd64
  constructor
  · exact (all.1 halfMinute (by decide) (by decide)).mpr (.inl (by decide))
  · exact (all.2.2.2.2 (ascii "25") 25 maxWait parseDecimal_longest (by norm_num)
      (parseWaitSeconds_longest amd64)).1.mpr ⟨amd64.converts_of_le le_rfl, .inl le_rfl⟩

/-- A product that wraps: the tool does not wait at all. -/
theorem wrapped_not_clamped :
    ¬ WaitsClamped ⟨ascii "mac", ascii "w1:p2", [ascii "idle"], 9223372037⟩ := by
  rw [waitsClamped_iff (by decide) (by decide)]
  decide

end Drover.Expiry

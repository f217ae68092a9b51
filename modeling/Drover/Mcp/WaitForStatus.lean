import Drover.Mcp.Tools
import Mathlib.Algebra.Order.Ring.Int

/-!
# Waiting for a status

`toolWaitForStatus` scales the seconds of its caller to nanoseconds in 64 bits
and then clamps the product; `WaitSessionStatus` follows the snapshots of a
session until one of the wanted statuses or the deadline.
-/

namespace Drover.Mcp

open Drover.Slave (second)

/-- `waitForStatusArgs`. -/
structure WaitForStatusArgs where
  pc : Bytes
  sid : Bytes
  wanted : List Bytes
  timeoutS : Int

/-- What the iterator of the snapshots brings: a snapshot with its `agent_status`
if the document exists, or an error. -/
inductive Next where
  | snapshot (agentStatus : Option Bytes)
  | failed

/-- Something the iterator brings, and the time since the start in nanoseconds. -/
structure Arrival where
  elapsed : Nat
  what : Next

/-- The result of `WaitSessionStatus`. -/
structure StatusWait where
  status : Bytes
  waited : Nat
  timedOut : Bool
  deriving DecidableEq

/-- `WaitSessionStatus`, with the last status seen; the deadline of a timeout that
is not positive has passed already. -/
def waitSessionStatus (wanted : List Bytes) (timeout : Int) :
    Bytes → List Arrival → Option StatusWait
  | last, [] => some ⟨last, timeout.toNat, true⟩
  | last, arrival :: later =>
      if timeout ≤ arrival.elapsed then some ⟨last, timeout.toNat, true⟩
      else
        match arrival.what with
        | .failed => none
        | .snapshot none => waitSessionStatus wanted timeout last later
        | .snapshot (some status) =>
            if status ∈ wanted then some ⟨status, arrival.elapsed, false⟩
            else waitSessionStatus wanted timeout status later

/-- A product of `time.Duration`s. -/
def timesDuration (a b : Int) : Int := Int.bmod (a * b) (2 ^ 64)

/-- The timeout that `toolWaitForStatus` waits with. -/
def statusTimeout (timeoutS : Int) : Int :=
  if 0 < timeoutS then
    let timeout := timesDuration timeoutS second
    if timeout > 50 * second then 50 * second else timeout
  else 45 * second

/-- What the tool answers with. -/
def statusReply : Option StatusWait → Except ToolErr StatusWait
  | none => .error ⟨ascii "server_error", []⟩
  | some wait => .ok wait

/-- `toolWaitForStatus`, for the arguments that `decodeArgs` reads. -/
def toolWaitForStatus (arrivals : List Arrival) (args : Option WaitForStatusArgs) :
    Except ToolErr StatusWait :=
  match args with
  | none => .error ⟨ascii "invalid_request", utf8 "pc/sid/until が必要"⟩
  | some a =>
      if a.pc = [] ∨ a.sid = [] ∨ a.wanted = [] then
        .error ⟨ascii "invalid_request", utf8 "pc/sid/until が必要"⟩
      else statusReply (waitSessionStatus a.wanted (statusTimeout a.timeoutS) [] arrivals)

/-! ## The product -/

/-- The seconds are few, or their nanoseconds modulo `2 ^ 64` are many and no negative number. -/
def Scales (timeoutS : Int) : Prop :=
  timeoutS ≤ 50 ∨
    50 * second ≤ timeoutS * second % 2 ^ 64 ∧ timeoutS * second % 2 ^ 64 < 2 ^ 63

instance (timeoutS : Int) : Decidable (Scales timeoutS) := inferInstanceAs (Decidable (_ ∨ _))

theorem statusTimeout_of_le {timeoutS : Int} (positive : 0 < timeoutS) (short : timeoutS ≤ 50) :
    statusTimeout timeoutS = timeoutS * second := by
  have product : timesDuration timeoutS second = timeoutS * second := by
    rw [timesDuration, second]
    apply Int.bmod_eq_of_le <;> omega
  have within : ¬ timeoutS * second > 50 * second := by
    rw [second]
    omega
  rw [statusTimeout, if_pos positive]
  simp only [product]
  rw [if_neg within]

theorem statusTimeout_le (timeoutS : Int) : statusTimeout timeoutS ≤ 50 * second := by
  rw [statusTimeout]
  split
  · simp only
    split <;> omega
  · rw [second]
    omega

theorem le_timesDuration_iff {n a b : Int} (positive : 0 < n) :
    n ≤ timesDuration a b ↔ n ≤ a * b % 2 ^ 64 ∧ a * b % 2 ^ 64 < 2 ^ 63 := by
  have low : 0 ≤ a * b % 2 ^ 64 := Int.emod_nonneg _ (by decide)
  have high : a * b % 2 ^ 64 < 2 ^ 64 := Int.emod_lt_of_pos _ (by decide)
  have isMod : timesDuration a b =
      if a * b % 2 ^ 64 < 2 ^ 63 then a * b % 2 ^ 64 else a * b % 2 ^ 64 - 2 ^ 64 :=
    Int.bmod_def _ _
  rw [isMod]
  generalize a * b % 2 ^ 64 = r at *
  split <;> omega

/-- The timeout is the clamped one exactly if the product scales. -/
theorem statusTimeout_eq_iff {timeoutS : Int} (positive : 0 < timeoutS) :
    statusTimeout timeoutS = min timeoutS 50 * second ↔ Scales timeoutS := by
  by_cases short : timeoutS ≤ 50
  · rw [statusTimeout_of_le positive short, min_eq_left short]
    exact iff_of_true rfl (.inl short)
  · have longest : (0 : Int) < 50 * second := by decide
    rw [min_eq_right (not_le.mp short).le, Scales, or_iff_right short,
      ← le_timesDuration_iff longest, statusTimeout, if_pos positive]
    simp only
    split
    · rename_i large
      exact iff_of_true rfl large.le
    · rename_i small
      constructor
      · exact fun same => same.ge
      · exact fun large => le_antisymm (not_lt.mp small) large

/-- No shorter timeout waits longer exactly if the product scales. -/
theorem statusTimeout_mono_iff {timeoutS : Int} (positive : 0 < timeoutS) :
    (∀ less, 0 < less → less ≤ timeoutS → statusTimeout less ≤ statusTimeout timeoutS) ↔
      Scales timeoutS := by
  constructor
  · intro mono
    by_cases short : timeoutS ≤ 50
    · exact .inl short
    · have longest := mono 50 (by decide) (not_le.mp short).le
      rw [statusTimeout_of_le (by decide) (le_refl 50)] at longest
      rw [← statusTimeout_eq_iff positive, min_eq_right (not_le.mp short).le]
      exact le_antisymm (statusTimeout_le timeoutS) longest
  · intro scales less lessPositive le
    rw [(statusTimeout_eq_iff positive).mpr scales]
    rcases le_total timeoutS 50 with short | long
    · rw [min_eq_left short, statusTimeout_of_le lessPositive (le.trans short)]
      exact mul_le_mul_of_nonneg_right le (Int.natCast_nonneg _)
    · rw [min_eq_right long]
      exact statusTimeout_le less

/-- The tool waits with a timeout exactly if that is the one it computes. -/
theorem toolWaitForStatus_eq_iff {a : WaitForStatusArgs}
    (given : a.pc ≠ [] ∧ a.sid ≠ [] ∧ a.wanted ≠ []) {timeout : Int} (positive : 0 < timeout) :
    (∀ arrivals, toolWaitForStatus arrivals (some a) =
      statusReply (waitSessionStatus a.wanted timeout [] arrivals)) ↔
      statusTimeout a.timeoutS = timeout := by
  have valid : ¬ (a.pc = [] ∨ a.sid = [] ∨ a.wanted = []) := by
    rintro (empty | empty | empty)
    · exact given.1 empty
    · exact given.2.1 empty
    · exact given.2.2 empty
  constructor
  · intro waits
    have reply : (Except.ok ⟨[], (statusTimeout a.timeoutS).toNat, true⟩ : Except ToolErr _) =
        .ok (⟨[], timeout.toNat, true⟩ : StatusWait) := by
      have alone := waits []
      rw [toolWaitForStatus.eq_def] at alone
      simp only at alone
      rw [if_neg valid] at alone
      exact alone
    injection reply with reply
    injection reply with _ same
    omega
  · intro same arrivals
    rw [toolWaitForStatus.eq_def]
    simp only
    rw [if_neg valid, same]

end Drover.Mcp

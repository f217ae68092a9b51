import Drover.Data.Rfc3339
import Drover.Data.Select
import Drover.Slave.Client
import Drover.Store.Interference
import Mathlib.Data.List.Pairwise

/-!
# The audit of the commands

`RecentCommands` asks Firestore for the commands of a PC in the order of their `ts`.  That is
the text of the time of the push, and texts are not ordered as times are: of two commands that
were pushed within one second the later one comes after the earlier one if the fraction of the
earlier one is that of the later one, cut off.
-/

namespace Drover.Commands

open Drover.Store
open Drover.Slave (Client Doc cmdCol)
open Drover.Rfc3339 (rfc3339Nano InTextOrder rfc3339Nano_order rfc3339Nano_injective
  rfc3339Nano_ne_nil)

variable {α : Type}

/-- The commands of a listing, with their ids; a query in the order of `ts` returns none
without it. -/
def commandsOf (docs : List (Bytes × Doc α)) : List (Bytes × Command) :=
  docs.filterMap fun p =>
    match p.2 with
    | .command cm => if cm.ts = [] then none else some (p.1, cm)
    | _ => none

/-- The greatest `ts` first, and of those with one `ts` the greatest id. -/
def descending (commands : List (Bytes × Command)) : List (Bytes × Command) :=
  commands.reverse.insertionSort fun p q => q.2.ts ≤ p.2.ts

/-- `RecentCommands`; `none` is an error. -/
def recentCommands (pc : Bytes) (n : Nat) : Client α (Option (List Command)) := do
  match ← Prog.list (cmdCol pc) with
  | none => pure none
  | some docs => pure (some (((descending (commandsOf docs)).take n).map Prod.snd))

/-- The first command was not pushed before the second one. -/
def Later (time : Bytes → Nat) (p q : Bytes × Command) : Prop := time q.1 ≤ time p.1

theorem pairwise_descending (commands : List (Bytes × Command)) :
    (descending commands).Pairwise fun p q => q.2.ts ≤ p.2.ts := by
  have : Std.Total fun p q : Bytes × Command => q.2.ts ≤ p.2.ts :=
    ⟨fun p q => List.le_total q.2.ts p.2.ts⟩
  have : IsTrans (Bytes × Command) fun p q => q.2.ts ≤ p.2.ts :=
    ⟨fun p q r le le' => List.le_trans le' le⟩
  exact List.pairwise_insertionSort (fun p q : Bytes × Command => q.2.ts ≤ p.2.ts) _

theorem perm_descending (commands : List (Bytes × Command)) :
    (descending commands).Perm commands :=
  (List.perm_insertionSort _ _).trans (List.reverse_perm commands)

section

variable {time : Bytes → Nat} {pushed : List (Bytes × Command)}

/-- In a list with two orders, the one does not reverse what the other one tells apart. -/
theorem ts_le_of_sorted {commands : List (Bytes × Command)}
    (sorted : commands.Pairwise (Later time))
    (descending : commands.Pairwise fun p q => q.2.ts ≤ p.2.ts) {p q : Bytes × Command}
    (mem : p ∈ commands) (mem' : q ∈ commands) (less : time p.1 < time q.1) :
    p.2.ts ≤ q.2.ts := by
  let Agree (p q : Bytes × Command) : Prop :=
    (time p.1 < time q.1 → p.2.ts ≤ q.2.ts) ∧ (time q.1 < time p.1 → q.2.ts ≤ p.2.ts)
  have : Std.Symm Agree := ⟨fun p q agree => agree.symm⟩
  have agree : commands.Pairwise Agree := by
    refine (sorted.and descending).imp fun {p q} both => ⟨fun less => ?_, fun _ => both.2⟩
    exact absurd less (Nat.not_lt.mpr both.1)
  have other : p ≠ q := by
    rintro rfl
    exact Nat.lt_irrefl _ less
  exact (agree.forall mem mem' other).1 less

/-- The commands are in the order of the pushes exactly if the texts are. -/
theorem later_descending_iff (stamps : ∀ p ∈ pushed, p.2.ts = rfc3339Nano (time p.1)) :
    (descending pushed).Pairwise (Later time) ↔
      ∀ p ∈ pushed, ∀ q ∈ pushed, time p.1 < time q.1 → InTextOrder (time p.1) (time q.1) := by
  have mem {p : Bytes × Command} : p ∈ descending pushed ↔ p ∈ pushed :=
    (perm_descending pushed).mem_iff
  constructor
  · intro sorted p inPushed q inPushed' less
    by_contra reversed
    have greater := (rfc3339Nano_order less).2 reversed
    rw [← stamps p inPushed, ← stamps q inPushed'] at greater
    have le := ts_le_of_sorted sorted (pairwise_descending pushed) (mem.mpr inPushed)
      (mem.mpr inPushed') less
    exact List.not_lt.mpr le greater
  · intro ordered
    refine (List.Pairwise.imp_of_mem ?_ (pairwise_descending pushed))
    intro p q inPushed inPushed' le
    rw [mem] at inPushed inPushed'
    by_contra earlier
    have less := Nat.lt_of_not_le earlier
    have greater := (rfc3339Nano_order less).1 (ordered p inPushed q inPushed' less)
    rw [← stamps p inPushed, ← stamps q inPushed'] at greater
    exact List.not_lt.mpr le greater

theorem commandsOf_pushed (stamps : ∀ p ∈ pushed, p.2.ts = rfc3339Nano (time p.1)) :
    commandsOf (pushed.map fun p => (p.1, (.command p.2 : Doc α))) = pushed := by
  rw [commandsOf, List.filterMap_map]
  refine (List.filterMap_congr fun p mem => ?_).trans List.filterMap_some
  have stamped : p.2.ts ≠ [] := by
    rw [stamps p mem]
    exact rfc3339Nano_ne_nil _
  exact if_neg stamped

/-- The texts tell the times, so that commands with the same texts are in the same order. -/
theorem sorted_of_texts (stamps : ∀ p ∈ pushed, p.2.ts = rfc3339Nano (time p.1))
    {commands commands' : List (Bytes × Command)} (sorted : commands.Pairwise (Later time))
    (inPushed : commands ⊆ pushed) (inPushed' : commands' ⊆ pushed)
    (same : commands'.map Prod.snd = commands.map Prod.snd) :
    commands'.Pairwise (Later time) := by
  have texts {list : List (Bytes × Command)} (sub : list ⊆ pushed) :
      (list.map Prod.snd).map Command.ts = (list.map fun p => time p.1).map rfc3339Nano := by
    rw [List.map_map, List.map_map]
    exact List.map_congr_left fun p mem => stamps p (sub mem)
  have times : commands'.map (fun p => time p.1) = commands.map fun p => time p.1 := by
    apply List.map_injective_iff.mpr rfc3339Nano_injective
    rw [← texts inPushed, ← texts inPushed', same]
  have inOrder : (commands.map fun p => time p.1).Pairwise fun t t' => t' ≤ t :=
    List.pairwise_map.mpr sorted
  rw [← times, List.pairwise_map] at inOrder
  exact inOrder

/-- For every limit the audit shows the latest commands, in the order of their pushes, exactly
if the texts of their times are in that order; and texts are in the order of the times exactly
where `InTextOrder` holds. -/
theorem recentCommands_latest_iff (pc : Bytes)
    (env : Environment (Doc α) Push.PushEntry Slave.Delivery)
    (stored : env.listFirst (cmdCol pc) = some (pushed.map fun p => (p.1, .command p.2)))
    (stamps : ∀ p ∈ pushed, p.2.ts = rfc3339Nano (time p.1)) :
    ((∀ n, ∃ latest, (recentCommands pc n).answer env = some (latest.map Prod.snd) ∧
          Selects (Later time) n pushed latest) ↔
        ∀ p ∈ pushed, ∀ q ∈ pushed, time p.1 < time q.1 → InTextOrder (time p.1) (time q.1)) ∧
      ∀ t t', t < t' → (rfc3339Nano t < rfc3339Nano t' ↔ InTextOrder t t') := by
  have answer (n : Nat) : (recentCommands pc n).answer env =
      some (((descending pushed).take n).map Prod.snd) := by
    rw [recentCommands, Prog.answer_list, stored]
    change some (((descending (commandsOf _)).take n).map Prod.snd) = _
    rw [commandsOf_pushed stamps]
  constructor
  · rw [← later_descending_iff stamps]
    constructor
    · intro latest
      obtain ⟨commands, answer', selects⟩ := latest pushed.length
      rw [answer, List.take_of_length_le (perm_descending pushed).length_eq.le] at answer'
      exact sorted_of_texts stamps selects.sorted selects.subset (perm_descending pushed).subset
        (Option.some.inj answer')
    · exact fun sorted n => ⟨_, answer n, selects_take sorted (perm_descending pushed) n⟩
  · intro t t' less
    have order := rfc3339Nano_order less
    constructor
    · intro textLess
      by_contra reversed
      exact List.lt_asymm textLess (order.2 reversed)
    · exact order.1

end

/-! ## Two pushes -/

/-- The time of a push in a second of the year 2024. -/
def sampleTime (fraction : Nat) : Nat := 63844765323000000000 + fraction

/-- A command that was queued a fraction of a second after the sample time. -/
def sampleCommand (id : Bytes) (fraction : Nat) : Bytes × Command :=
  (id, newCommand id (ascii "restart-agent") [] [] [] (ascii "web") []
    (rfc3339Nano (sampleTime fraction)))

/-- The store with two commands of the PC `mac`. -/
def sampleAudit (fraction fraction' : Nat) : Machine (Doc Unit) Push.PushEntry Slave.Delivery where
  docs := Std.ExtTreeMap.ofList [
    (Slave.commandPath (ascii "mac") (ascii "a"),
      Doc.command (sampleCommand (ascii "a") fraction).2),
    (Slave.commandPath (ascii "mac") (ascii "b"),
      Doc.command (sampleCommand (ascii "b") fraction').2)]

/-- The times of its pushes. -/
def sampleTimes (fraction fraction' : Nat) (id : Bytes) : Nat :=
  sampleTime (if id = ascii "a" then fraction else fraction')

theorem sampleAudit_latest :
    (∀ n, ∃ latest, (recentCommands (ascii "mac") n).answer
        (.still (sampleAudit 250000000 500000000)) = some (latest.map Prod.snd) ∧
      Selects (Later (sampleTimes 250000000 500000000)) n
        [sampleCommand (ascii "a") 250000000, sampleCommand (ascii "b") 500000000] latest) ∧
      rfc3339Nano (sampleTime 250000000) < rfc3339Nano (sampleTime 500000000) := by
  have both := @recentCommands_latest_iff Unit (sampleTimes 250000000 500000000)
    [sampleCommand (ascii "a") 250000000, sampleCommand (ascii "b") 500000000] (ascii "mac")
    (.still (sampleAudit 250000000 500000000)) (by rfl) (by decide)
  constructor
  · exact both.1.mpr (by decide)
  · exact (both.2 _ _ (by decide)).mpr (by decide)

/-- A command of the beginning of a second hides the later one of the same second. -/
theorem earlier_command_shown :
    ¬ ∃ latest, (recentCommands (ascii "mac") 1).answer (.still (sampleAudit 0 500000000)) =
        some (latest.map Prod.snd) ∧
      Selects (Later (sampleTimes 0 500000000)) 1
        [sampleCommand (ascii "a") 0, sampleCommand (ascii "b") 500000000] latest := by
  rintro ⟨latest, answer, selects⟩
  have shown : (recentCommands (ascii "mac") 1).answer (.still (sampleAudit 0 500000000)) =
      some [(sampleCommand (ascii "a") 0).2] := by
    rfl
  have same := Option.some.inj (shown.symm.trans answer)
  obtain ⟨x, rfl⟩ : ∃ x, latest = [x] := by
    rw [← List.length_eq_one_iff, ← List.length_map Prod.snd, ← same]
    rfl
  obtain ⟨rest, whole, first⟩ := selects.before
  have isFirst : x = sampleCommand (ascii "a") 0 := by
    rcases List.mem_pair.mp (selects.subset List.mem_cons_self) with rfl | rfl
    · rfl
    · exact absurd same (by decide)
  rw [isFirst, List.singleton_append] at whole
  have inRest : sampleCommand (ascii "b") 500000000 ∈ rest :=
    (List.perm_cons _).mp whole |>.subset List.mem_cons_self
  have later := first x List.mem_cons_self _ inRest
  rw [isFirst] at later
  exact Nat.not_le.mpr (by decide) later

end Drover.Commands

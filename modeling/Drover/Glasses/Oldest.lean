import Drover.Data.Select
import Drover.Glasses.Handlers
import Drover.Store.Interference

/-!
# The oldest answers

A query fetches the first documents of its PC in the order of their ids, and drops the expired
ones only then.  So an answer is missed when too many documents stand before it, be they
expired or not, and `query_oldest_iff` says when that does no harm.
-/

namespace Drover.Glasses

open Drover.Store

/-- The first answer is not younger than the second one. -/
def Answer.Older (x y : Answer) : Prop := x.createdAt ≤ y.createdAt

instance : DecidableRel Answer.Older := fun _ _ => inferInstanceAs (Decidable (_ ≤ _))
instance : Std.Total Answer.Older := ⟨fun x y => Nat.le_total x.createdAt y.createdAt⟩
instance : IsTrans Answer Answer.Older := ⟨fun _ _ _ => Nat.le_trans⟩

/-- The answers that have not expired. -/
def live (now : Nat) (answers : List StoredAnswer) : List Answer :=
  (answers.filter fun a => now < a.expireAt).map StoredAnswer.shown

/-- Those that a query finds. -/
def candidates (pc : Bytes) (docs : List (Bytes × Doc)) (now : Nat) : List Answer :=
  (fetched pc docs).filterMap (answerOf now)

/-- Those that it misses: they stand behind the limit of the fetch, or have no request id. -/
def missed (pc : Bytes) (docs : List (Bytes × Doc)) (now : Nat) : List Answer :=
  live now ((fetched pc docs).filter fun a => a.requestID = []) ++
    live now ((answersOf pc docs).drop fetchLimit)

theorem live_append (now : Nat) (answers answers' : List StoredAnswer) :
    live now (answers ++ answers') = live now answers ++ live now answers' := by
  rw [live, List.filter_append, List.map_append]
  rfl

theorem live_perm (now : Nat) (answers : List StoredAnswer) :
    (live now answers).Perm (answers.filterMap (answerOf now) ++
      live now (answers.filter fun a => a.requestID = [])) := by
  have keeps (a : StoredAnswer) : answerOf now a =
      if decide (now < a.expireAt) && !decide (a.requestID = []) then some a.shown else none := by
    rw [answerOf]
    by_cases expired : a.expireAt ≤ now
    · rw [if_pos expired, decide_eq_false (Nat.not_lt_of_le expired)]
      rfl
    · rw [if_neg expired, decide_eq_true (Nat.lt_of_not_le expired)]
      by_cases noID : a.requestID = []
      · rw [if_pos noID, decide_eq_true noID]
        rfl
      · rw [if_neg noID, decide_eq_false noID]
        rfl
  have perm := filterMap_append_perm keeps answers
  rw [List.filter_comm] at perm
  exact perm.symm

theorem candidates_perm (pc : Bytes) (docs : List (Bytes × Doc)) (now : Nat) :
    (live now (answersOf pc docs)).Perm (candidates pc docs now ++ missed pc docs now) := by
  conv => lhs; rw [← List.take_append_drop fetchLimit (answersOf pc docs)]
  rw [live_append, missed, ← List.append_assoc]
  exact (live_perm now (fetched pc docs)).append_right _

theorem selects_selected (h : Handler) (pc : Bytes) (docs : List (Bytes × Doc)) (now : Nat) :
    Selects Answer.Older maxItems (candidates pc docs now) (h.selected pc docs now) := by
  have sorted := h.sortAnswers.sorted (candidates pc docs now)
  refine selects_take (sorted.imp fun {x y} less => ?_) (h.sortAnswers.perm _) maxItems
  exact Nat.le_of_not_lt (of_decide_eq_false less)

/-- A query returns the oldest of the answers that have not expired, in the order of their
times, and so one if there is any, exactly if enough of those that it finds are not younger
than each one that it misses. -/
theorem query_oldest_iff (h : Handler) (pc : Bytes) (env : Environment Doc Unit Sent)
    {docs : List (Bytes × Doc)} (listed : env.listFirst answersCol = some docs) :
    (∃ items, (h.query pc).answer env = some items ∧
        Selects Answer.Older maxItems (live (env.clock 1) (answersOf pc docs)) items ∧
        (live (env.clock 1) (answersOf pc docs) ≠ [] → items ≠ [])) ↔
      ∀ y ∈ missed pc docs (env.clock 1),
        maxItems ≤ (candidates pc docs (env.clock 1)).countP fun x => x.Older y := by
  have answer : (h.query pc).answer env = some (h.selected pc docs (env.clock 1)) := by
    rw [Handler.query, Prog.answer_list, listed]
    rfl
  rw [← selects_append_iff (selects_selected h pc docs (env.clock 1))]
  have perm := candidates_perm pc docs (env.clock 1)
  constructor
  · rintro ⟨items, answer', selects, -⟩
    cases answer.symm.trans answer'
    exact selects.congr perm
  · intro selects
    have oldest := selects.congr perm.symm
    exact ⟨_, answer, oldest, oldest.ne_nil (by decide)⟩

/-! ## Expired answers in front of a live one -/

/-- A document of the PC `mac`. -/
def sampleDoc (id : Bytes) (createdAt expireAt : Nat) : Path × Doc :=
  (answerPath (ascii "mac") id, .answer ⟨ascii "mac", id, ascii "yes", createdAt, expireAt⟩)

/-- `r-aa`, `r-ab` and so on. -/
def sampleID (n : Nat) : Bytes :=
  ascii "r-" ++ [UInt8.ofNat (0x61 + n / 26), UInt8.ofNat (0x61 + n % 26)]

/-- The store with one live answer, behind as many expired ones, at the time 1. -/
def sampleStore (expired : Nat) : Machine Doc Unit Sent where
  docs := Std.ExtTreeMap.ofList (sampleDoc (ascii "t-1") 0 2 ::
    (List.range expired).map fun n => sampleDoc (sampleID n) 0 1)
  clock := 1

theorem sampleStore_oldest :
    ∃ items, (sampleHandler.query (ascii "mac")).answer (.still (sampleStore 1)) = some items ∧
      Selects Answer.Older maxItems (live 1 (answersOf (ascii "mac")
        (listDocuments (sampleStore 1).docs answersCol))) items ∧
      (live 1 (answersOf (ascii "mac")
        (listDocuments (sampleStore 1).docs answersCol)) ≠ [] → items ≠ []) :=
  (query_oldest_iff sampleHandler (ascii "mac") (.still (sampleStore 1)) (by rfl)).mpr (by decide)

/-- No answer is returned, although one is live. -/
theorem live_answer_missed :
    ¬ ∃ items, (sampleHandler.query (ascii "mac")).answer (.still (sampleStore 100)) = some items ∧
      Selects Answer.Older maxItems (live 1 (answersOf (ascii "mac")
        (listDocuments (sampleStore 100).docs answersCol))) items ∧
      (live 1 (answersOf (ascii "mac")
        (listDocuments (sampleStore 100).docs answersCol)) ≠ [] → items ≠ []) := by
  rintro ⟨items, answer, -, some_⟩
  have none_ : (sampleHandler.query (ascii "mac")).answer (.still (sampleStore 100)) = some [] := by
    decide +kernel
  cases answer.symm.trans none_
  exact some_ (by decide +kernel) rfl

end Drover.Glasses

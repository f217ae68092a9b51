import Drover.Glasses.Core
import Drover.Mcp.Tools
import Drover.Store.View

/-!
# The tool `glasses_answer`

A server with an answer store has one more tool, which stores the answer to a question of
the glasses as `POST /glasses/answer` does: `PutAnswer` sends it to the ask that was
registered, or else to where a bridge pulls from.  It stores one document at most, and
only looks before.
-/

namespace Drover.Mcp

open Drover.Store
open Drover.Glasses (answerPath askPath askDoc answerAsk answered putAnswer registered
  storedAnswer updateAsk validatePut)
open Drover.Slave (Client Doc)

variable {α : Type}

/-! ## The tool -/

/-- How the methods of `glasses` see the documents of the relay. -/
def glassesView : View Glasses.Doc (Doc α) where
  view
    | .glasses d => d
    | .revoked => .revoked
    | _ => .pc
  make := .glasses

/-- `glassesAnswerArgs`. -/
structure GlassesAnswerArgs where
  pc : Bytes
  requestID : Bytes
  text : Bytes

/-- `glassesAnswerTool`. -/
def glassesAnswerTool : Bytes := ascii "glasses_answer"

/-- The value that `toolGlassesAnswer` returns. -/
structure GlassesAnswered where
  pc : Bytes
  requestID : Bytes
  expiresAt : Bytes
  deriving DecidableEq

/-- `toolGlassesAnswer`, for what `decodeArgs` returns and the format of a time. -/
def toolGlassesAnswer (rfc3339 : Nat → Bytes) (args : Option GlassesAnswerArgs) :
    Client α (Except ToolErr GlassesAnswered) :=
  match args with
  | none => pure (.error ⟨ascii "invalid_request", utf8 "pc/request_id/text が必要です"⟩)
  | some a =>
      if a.pc = [] ∨ a.requestID = [] ∨ a.text = [] then
        pure (.error ⟨ascii "invalid_request", utf8 "pc/request_id/text が必要です"⟩)
      else do
        match ← (putAnswer a.pc a.requestID a.text).lift glassesView with
        | .ok exp => pure (.ok ⟨a.pc, a.requestID, rfc3339 exp⟩)
        | .error (.invalid text) => pure (.error ⟨ascii "invalid_request", text⟩)
        | .error (.notRegistered _) =>
            pure (.error ⟨ascii "forbidden", utf8 "未登録の PC です"⟩)
        | .error _ => pure (.error ⟨ascii "server_error", utf8 "保存に失敗しました"⟩)

/-! ## What it does -/

section

variable {δ ε η ρ : Type}

/-- It only reads. -/
def Looks : Op δ ε η → Prop
  | .get _ | .list _ | .now => True
  | _ => False

/-- The events only read. -/
def Quiet (past : List (Event δ ε η)) : Prop := ∀ e ∈ past, Looks e.op

/-- The operation stores the answer, in its ask or for the pulls. -/
def PutsAnswer (a : GlassesAnswerArgs) (o : Op Glasses.Doc ε η) : Prop :=
  ∃ now, o = .write (answerPath a.pc a.requestID) (fun _ =>
      some (.answer (storedAnswer a.pc a.requestID a.text now))) ∨
    o = .transact (askPath a.pc a.requestID) (askPath a.pc a.requestID)
      (updateAsk (answered a.text now))

/-- `PutAnswer` looks until it stores the answer. -/
def AnswerGrounds (a : GlassesAnswerArgs) (past : List (Event Glasses.Doc ε η))
    (o : Op Glasses.Doc ε η) : Prop :=
  Quiet past ∧ (Looks o ∨ PutsAnswer a o)

/-- It has looked, and may have stored the answer. -/
def AnswerEnds (a : GlassesAnswerArgs) (past : List (Event Glasses.Doc ε η)) : Prop :=
  ∀ e ∈ past, Looks e.op ∨ PutsAnswer a e.op

variable {a : GlassesAnswerArgs} {past : List (Event Glasses.Doc ε η)}

theorem Quiet.answerEnds (quiet : Quiet past) : AnswerEnds a past :=
  fun e mem => .inl (quiet e mem)

theorem Quiet.cons {e : Event δ ε η} {past : List (Event δ ε η)} (looks : Looks e.op)
    (quiet : Quiet past) : Quiet (e :: past) :=
  List.forall_mem_cons.mpr ⟨looks, quiet⟩

theorem along_of_quiet {p : Prog Glasses.Doc ε η ρ}
    {ends : List (Event Glasses.Doc ε η) → ρ → Prop} (looks : p.Only Looks) (quiet : Quiet past)
    (end_ : ∀ past' value, Quiet past' → ends past' value) :
    p.Along (AnswerGrounds a) ends past := by
  induction p generalizing past with
  | reply value => exact end_ past value quiet
  | op o next ih =>
      exact ⟨⟨quiet, .inl looks.1⟩, fun time result _ =>
        ih result (looks.2 result) (quiet.cons looks.1)⟩

theorem registered_reads (pc : Bytes) : (registered pc : Prog _ ε η _).Only Looks := by
  rw [registered, Glasses.isRevoked]
  apply Prog.Only.bind
  · split
    · exact .pure _
    · apply Prog.Only.bind (.op trivial)
      intro snap
      split <;> exact .pure _
  · intro revoked
    split
    · exact .pure _
    · apply Prog.Only.bind (.op trivial)
      intro docs
      split <;> exact .pure _

theorem askDoc_reads (pc requestID : Bytes) : (askDoc pc requestID : Prog _ ε η _).Only Looks := by
  rw [askDoc]
  apply Prog.Only.bind (.op trivial)
  intro snap
  split
  · exact .pure _
  · exact .bind (.op trivial) fun now => .pure _
  · exact .pure _

/-- The ask has stored the answer, or nothing was stored. -/
theorem answerAsk_along (quiet : Quiet past) :
    (answerAsk a.pc a.requestID a.text).Along (AnswerGrounds a)
      (fun past' result => AnswerEnds a past' ∧ (result = .ok none → Quiet past')) past := by
  rw [answerAsk]
  split
  · exact ⟨quiet.answerEnds, fun _ => quiet⟩
  · apply Prog.Along.bind
    apply along_of_quiet (askDoc_reads a.pc a.requestID) quiet
    intro past' result quiet'
    split
    · exact ⟨quiet'.answerEnds, fun _ => quiet'⟩
    · exact ⟨quiet'.answerEnds, fun _ => quiet'⟩
    · apply Prog.Along.now ⟨quiet', .inl trivial⟩
      intro now
      have puts : PutsAnswer a (.transact (askPath a.pc a.requestID) (askPath a.pc a.requestID)
          (updateAsk (answered a.text now)) : Op Glasses.Doc ε η) := ⟨now, .inr rfl⟩
      have quiet'' := Quiet.cons (e := (⟨now, .now, now⟩ : Event Glasses.Doc ε η)) trivial quiet'
      refine ⟨⟨quiet'', .inr puts⟩, fun time result _ => ?_⟩
      obtain ⟨snap, ok⟩ := result
      refine ⟨List.forall_mem_cons.mpr ⟨.inr puts, quiet''.answerEnds⟩, fun isNone => ?_⟩
      split at isNone
      · cases isNone
      · cases isNone

/-- `PutAnswer` only looks until it stores the answer, and does nothing after that. -/
theorem putAnswer_along (a : GlassesAnswerArgs) :
    (putAnswer a.pc a.requestID a.text : Prog _ ε η _).Along (AnswerGrounds a)
      (fun past _ => AnswerEnds a past) [] := by
  have nothing : Quiet ([] : List (Event Glasses.Doc ε η)) := List.forall_mem_nil _
  rw [putAnswer]
  split
  · exact nothing.answerEnds
  · rename_i valid
    apply Prog.Along.bind
    apply along_of_quiet (registered_reads a.pc) nothing
    intro past isRegistered quiet
    split
    · exact quiet.answerEnds
    · exact quiet.answerEnds
    · apply (answerAsk_along quiet).andThen
      rintro past' result ⟨ends, notRouted⟩
      split
      · exact ends
      · exact ends
      · have quiet' := notRouted rfl
        rw [Glasses.put, valid]
        apply Prog.Along.now ⟨quiet', .inl trivial⟩
        intro now
        have quiet'' := Quiet.cons (e := (⟨now, .now, now⟩ : Event Glasses.Doc ε η)) trivial quiet'
        have puts : PutsAnswer a (.write (answerPath a.pc a.requestID) (fun _ =>
            some (.answer (storedAnswer a.pc a.requestID a.text now))) : Op Glasses.Doc ε η) :=
          ⟨now, .inl rfl⟩
        refine ⟨⟨quiet'', .inr puts⟩, fun time ok _ => ?_⟩
        exact List.forall_mem_cons.mpr ⟨.inr puts, quiet''.answerEnds⟩

end

end Drover.Mcp

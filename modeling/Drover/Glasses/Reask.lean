import Drover.Glasses.Channels

/-!
# Questions that are asked again

A question that is asked again is registered anew, without an answer.  Until that takes
effect, another answer comes or the ask expires, the stored answer stays where it is, and
every reply returns it.
-/

namespace Drover.Glasses

open Drover.Store Drover.Transition

/-! ## Steps that replace an answer -/

/-- A `RegisterAsk` takes effect at the path. -/
def registers (path : Path) (s : System) : Label → Bool
  | .advance r choice =>
      match s.calls r with
      | some ⟨_, _, .op (.write path' _) _⟩ => path' = path && choice.write.applied
      | _ => false
  | _ => false

/-- An `AnswerAsk` takes effect at the path. -/
def answers (path : Path) (s : System) : Label → Bool
  | .advance r choice =>
      match s.calls r with
      | some ⟨req, _, .op (.transact _ path' _) _⟩ =>
          req.answers.isSome && path' = path && choice.read && choice.write.applied
      | _ => false
  | _ => false

/-- The asks at the path in the states of a run. -/
def Handler.asksAlong (h : Handler) (path : Path) : System → List Label → List StoredAsk
  | s, [] => (s.machine.docs[path]?.bind askOf).toList
  | s, label :: rest =>
      (s.machine.docs[path]?.bind askOf).toList ++
        (h.step s label).elim [] fun next => h.asksAlong path next rest
where
  /-- The document as an ask. -/
  askOf : Doc → Option StoredAsk
    | .ask k => some k
    | _ => none

/-- An operation of the store that has failed. -/
def fails : ClientEvent → Bool
  | ⟨_, .get _, .failed⟩ => true
  | ⟨_, .transact .., (snap, ok)⟩ => !(isFound snap && ok)
  | _ => false

/-! ## The stored answer -/

section

variable {h : Handler} {s s' : System} {label : Label} {pc requestID : Bytes} {k : StoredAsk}

/-- An operation that takes no effect as one of the two keeps the answer. -/
theorem Does.ask_after {req : Request} {o : ClientOp} (does : Does h req o)
    {m : Machine Doc Unit Sent} {choice : Choice}
    (found : m.docs[askPath pc requestID]? = some (.ask k))
    (notRegistered : ∀ f, o = .write (askPath pc requestID) f → choice.write.applied = false)
    (notAnswered : ∀ path f, o = .transact path (askPath pc requestID) f → req.answers ≠ none →
      ¬(choice.read = true ∧ choice.write.applied = true)) :
    ∃ k', (m.after choice o).docs[askPath pc requestID]? = some (.ask k') ∧
      k'.answer = k.answer := by
  have elsewhere (path : Path) (f : Option Doc → Option Doc) (other : askPath pc requestID ≠ path) :
      ∃ k', (changeDocument m.docs choice.write path f)[askPath pc requestID]? = some (.ask k') ∧
        k'.answer = k.answer :=
    ⟨k, by rw [changeDocument_of_ne other, found], rfl⟩
  cases does with
  | look looks =>
      rw [looks.docs_after]
      exact ⟨k, found, rfl⟩
  | put | delete => exact elsewhere _ _ (answerPath_ne_askPath _ _ _ _).symm
  | @register pc' requestID' now valid asks =>
      by_cases same : askPath pc requestID = askPath pc' requestID'
      · have notApplied := notRegistered _ (congrArg (Op.write · _) same.symm)
        refine ⟨k, ?_, rfl⟩
        change (changeDocument ..)[_]? = _
        rw [changeDocument_of_not_applied (ne_true_of_eq_false notApplied), found]
      · exact elsewhere _ _ same
  | @answer pc' requestID' text now valid notEmpty isAnswer =>
      change ∃ k', (m.transaction ..)[_]? = _ ∧ _
      rcases transaction_cases m choice (askPath pc' requestID') (answered text now) with
        ⟨both, k', -, docs⟩ | ⟨same, -⟩
      · by_cases same : askPath pc requestID = askPath pc' requestID'
        · refine absurd both
            (notAnswered (askPath pc' requestID') (updateAsk (answered text now)) ?_ ?_)
          · rw [same]
          · rw [isAnswer]
            exact Option.some_ne_none _
        · exact ⟨k, by rw [docs, if_neg same, found], rfl⟩
      · exact ⟨k, by rw [same, found], rfl⟩
  | @deliver pc' requestID' now expireAt valid takes =>
      change ∃ k', (m.transaction ..)[_]? = _ ∧ _
      rcases transaction_cases m choice (askPath pc' requestID') (delivered now expireAt) with
        ⟨-, k', isAsk, docs⟩ | ⟨same, -⟩
      · by_cases same : askPath pc requestID = askPath pc' requestID'
        · rw [← same, found] at isAsk
          cases isAsk
          exact ⟨_, by rw [docs, if_pos same], answer_delivered now expireAt k⟩
        · exact ⟨k, by rw [docs, if_neg same, found], rfl⟩
      · exact ⟨k, by rw [same, found], rfl⟩

/-- The answer stays in an ask that has not expired, until one of the two takes effect. -/
theorem Sound.ask_step (sound : Sound h s) (outside : Outside s label)
    (taken : h.step s label = some s')
    (found : s.machine.docs[askPath pc requestID]? = some (.ask k))
    (notExpired : s.machine.clock < k.expireAt)
    (notRegistered : registers (askPath pc requestID) s label = false)
    (notAnswered : answers (askPath pc requestID) s label = false) :
    ∃ k', s'.machine.docs[askPath pc requestID]? = some (.ask k') ∧ k'.answer = k.answer := by
  cases stepped_of_step taken with
  | tick | begin => exact ⟨k, found, rfl⟩
  | external path doc =>
      have other : askPath pc requestID ≠ path := by
        rintro rfl
        cases doc with
        | none => exact absurd (outside _ found _ rfl) (Nat.not_le_of_lt notExpired)
        | some d =>
            rcases outside with ⟨-, pc', same⟩ | ⟨-, pc', same⟩
            · exact askPath_ne_pcsPath _ _ _ same
            · exact askPath_ne_revokedPath _ _ _ same
      refine ⟨k, ?_, rfl⟩
      change (changeDocument s.machine.docs .ok path fun _ => doc)[askPath pc requestID]? = _
      rw [changeDocument_of_ne other, found]
  | @advance r c o next choice running isOp =>
      obtain ⟨req, past, program⟩ := c
      simp only at isOp
      subst isOp
      have does : Does h req o := sound.does running rfl
      apply does.ask_after found
      · rintro f rfl
        simpa [registers, running] using notRegistered
      · rintro path f rfl isAnswer ⟨read, applied⟩
        simp [answers, running, Option.isSome_iff_ne_none.mpr isAnswer, read, applied]
          at notAnswered

end

/-! ## Replies -/

section

variable {h : Handler} {pc requestID : Bytes} {path : Path} {past : List ClientEvent}

/-- The path was read, or an operation has failed. -/
def Reads (path : Path) (past : List ClientEvent) : Prop :=
  past.any fails = true ∨ ∃ snap, lastRead path past = some snap

theorem Reads.cons {e : ClientEvent} (reads : Reads path past) (other : readAt path e = none) :
    Reads path (e :: past) := by
  rcases reads with failed | ⟨snap, isRead⟩
  · left
    rw [List.any_cons, failed, Bool.or_true]
  · right
    exact ⟨snap, by rw [lastRead, List.findSome?_cons, other]; exact isRead⟩

/-- `askDoc` reads the ask, and only a failure is an error. -/
theorem askDoc_reads (pc requestID : Bytes) :
    (askDoc pc requestID).Along (fun _ _ => True)
      (fun past result => Reads (askPath pc requestID) past ∧
        ∀ e, result = .error e → past.any fails = true ∧ e = .store) [] := by
  apply Prog.Along.get trivial
  intro time snap
  have isRead : snap ≠ .failed →
      Reads (askPath pc requestID) [⟨time, .get (askPath pc requestID), snap⟩] := by
    intro notFailed
    refine Or.inr ⟨snap, ?_⟩
    rw [lastRead, List.findSome?_cons]
    cases snap with
    | failed => exact absurd rfl notFailed
    | absent | found d => simp [readAt]
  split
  · refine ⟨Or.inl rfl, fun e isError => ?_⟩
    cases isError
    exact ⟨rfl, rfl⟩
  · apply Prog.Along.now trivial
    intro now
    refine ⟨(isRead (by rintro ⟨⟩)).cons rfl, fun e isError => ?_⟩
    cases isError
  · rename_i notFailed notAsk
    refine ⟨isRead notFailed, fun e isError => ?_⟩
    cases isError

/-- `TakeAskReply` reads the ask; an error is a failure, or that the ask is not found. -/
theorem takeAskReply_reads (pc requestID : Bytes) :
    (takeAskReply pc requestID).Along (fun _ _ => True)
      (fun past result => Reads (askPath pc requestID) past ∧
        ∀ e, result = .error e → past.any fails = true ∨ e = .askNotFound) [] := by
  rw [takeAskReply]
  apply (askDoc_reads pc requestID).andThen
  rintro past result ⟨reads, onError⟩
  split
  · rename_i e
    exact ⟨reads, fun e' isError => Or.inl (onError e rfl).1⟩
  · refine ⟨reads, fun e isError => ?_⟩
    cases isError
    exact Or.inr rfl
  · split
    · exact ⟨reads, fun e isError => by cases isError⟩
    · split
      · exact ⟨reads, fun e isError => by cases isError⟩
      · apply Prog.Along.now trivial
        intro now
        refine ⟨trivial, fun time result _ => ⟨(reads.cons rfl).cons rfl, fun e isError => ?_⟩⟩
        obtain ⟨snap, ok⟩ := result
        left
        cases isOk : isFound snap && ok with
        | true =>
            rw [isOk, if_pos rfl] at isError
            cases isError
        | false =>
            rw [List.any_cons, fails, isOk]
            rfl

/-- A reply reads the ask, and only a failure is a 500. -/
theorem handleReply_reads (valid : ValidKey (h.pcOf pc) requestID) :
    (h.handleReply pc requestID).Along (fun _ _ => True)
      (fun past value => Reads (askPath (h.pcOf pc) requestID) past ∧
        ∀ body, value = .http 500 body → past.any fails = true) [] := by
  rw [Handler.handleReply, if_neg (by simp [valid.pc]), if_neg (by simp [valid.requestID])]
  apply (takeAskReply_reads _ _).andThen
  rintro past result ⟨reads, onError⟩
  split
  · exact ⟨reads, fun body is500 => by cases is500⟩
  · rename_i e other
    refine ⟨reads, fun body _ => ?_⟩
    rcases onError e rfl with failed | rfl
    · exact failed
    · exact absurd rfl other
  · exact ⟨reads, fun body is500 => by cases is500⟩
  · apply Prog.Along.now trivial
    intro now
    exact ⟨reads.cons rfl, fun body is500 => by cases is500⟩

/-- How a reply ends. -/
def ReplyEnds (h : Handler) (req : Request) (past : List ClientEvent) (value : Response) : Prop :=
  ∀ pc requestID, h.takes req = some (pc, requestID) → ValidKey pc requestID →
    Reads (askPath pc requestID) past ∧ ∀ body, value = .http 500 body → past.any fails = true

theorem handle_reads (h : Handler) (req : Request) :
    (h.handle req).Along (fun _ _ => True) (ReplyEnds h req) [] := by
  cases req with
  | handleReply pc requestID =>
      by_cases valid : ValidKey (h.pcOf pc) requestID
      · refine (handleReply_reads valid).imp (fun _ _ => id) ?_
        rintro past value ends pc' requestID' ⟨⟩ -
        exact ends
      · refine (Prog.only_true _).along (fun _ _ => id) ?_
        rintro past value - pc' requestID' ⟨⟩ valid'
        exact absurd valid' valid
  | put | pull | ack | putAnswer | handleAnswers | handleAck | handleAsk =>
      refine (Prog.only_true _).along (fun _ _ => id) ?_
      rintro past value - pc' requestID' ⟨⟩

/-- The answer is there, and every call that has begun since has found it. -/
structure Kept (h : Handler) (pc requestID text : Bytes) (deadline : Nat) (start s : System) :
    Prop where
  sound : Sound h s
  dated : s.Dated
  ends : s.Follows (fun _ _ _ => True) (ReplyEnds h)
  stored : ∃ k, s.machine.docs[askPath pc requestID]? = some (.ask k) ∧ k.answer = text ∧
    deadline < k.expireAt
  found : ∀ q c snap, start.calls q = none → s.calls q = some c →
    lastRead (askPath pc requestID) c.past = some snap →
    ∃ k, snap = .found (.ask k) ∧ k.answer = text ∧ deadline < k.expireAt

variable {text : Bytes} {deadline : Nat} {start s s' : System} {label : Label}

theorem Kept.step (kept : Kept h pc requestID text deadline start s) (outside : Outside s label)
    (taken : h.step s label = some s')
    (notRegistered : registers (askPath pc requestID) s label = false)
    (notAnswered : answers (askPath pc requestID) s label = false)
    (soon : s.machine.clock ≤ deadline)
    (notExpired : ∀ k, s'.machine.docs[askPath pc requestID]? = some (.ask k) →
      deadline < k.expireAt) : Kept h pc requestID text deadline start s' := by
  obtain ⟨k, isAsk, isText, later⟩ := kept.stored
  constructor
  case sound => exact kept.sound.step outside taken
  case dated => exact kept.dated.step taken
  case ends => exact kept.ends.step (fun _ _ _ => handle_reads h _) taken
  case stored =>
    obtain ⟨k', isAsk', same⟩ := kept.sound.ask_step outside taken isAsk
      (Nat.lt_of_le_of_lt soon later) notRegistered notAnswered
    exact ⟨k', isAsk', same.trans isText, notExpired k' isAsk'⟩
  case found =>
    intro q c snap isNew running isRead
    cases stepped_of_step taken with
    | tick | external => exact kept.found q c snap isNew running isRead
    | @begin r input unused =>
        rw [State.calls_setCall] at running
        by_cases same : q = r
        · rw [same, Function.update_self] at running
          cases running
          cases isRead
        · rw [Function.update_of_ne same] at running
          exact kept.found q c snap isNew running isRead
    | @advance r c' o next choice running' isOp =>
        rcases lastRead_of_perform running' running isRead with
          ⟨-, -, -, rfl⟩ | ⟨-, c'', running'', isRead''⟩
        · rw [readDocument_eq_found_iff.mpr ⟨rfl, isAsk⟩]
          exact ⟨k, rfl, isText, later⟩
        · exact kept.found q c'' snap isNew running'' isRead''

theorem mem_asksAlong_of_start {k : StoredAsk} (labels : List Label)
    (found : s.machine.docs[path]? = some (.ask k)) : k ∈ h.asksAlong path s labels := by
  cases labels with
  | nil => simp [Handler.asksAlong, Handler.asksAlong.askOf, found]
  | cons label rest => simp [Handler.asksAlong, Handler.asksAlong.askOf, found]

/-- The step takes no effect as a `RegisterAsk` or an `AnswerAsk` of the path. -/
def Undisturbed (path : Path) (s : System) (label : Label) : Prop :=
  registers path s label = false ∧ answers path s label = false

instance (path : Path) (s : System) (label : Label) : Decidable (Undisturbed path s label) :=
  inferInstanceAs (Decidable (_ ∧ _))

theorem clock_le_of_exec {labels : List Label} (run : exec h.step s labels = some s') :
    s.machine.clock ≤ s'.machine.clock := by
  induction labels generalizing s with
  | nil =>
      cases run
      exact Nat.le_refl _
  | cons label rest ih =>
      obtain ⟨middle, taken, run⟩ := (exec_cons_eq_some_iff ..).mp run
      exact Nat.le_trans (clock_le_of_step taken) (ih run)

theorem Kept.exec {labels : List Label} (kept : Kept h pc requestID text deadline start s)
    (outside : Along h.step Outside s labels)
    (undisturbed : Along h.step (Undisturbed (askPath pc requestID)) s labels)
    (run : exec h.step s labels = some s') (soon : s'.machine.clock ≤ deadline)
    (notExpired : ∀ k ∈ h.asksAlong (askPath pc requestID) s labels, deadline < k.expireAt) :
    Kept h pc requestID text deadline start s' := by
  induction labels generalizing s with
  | nil =>
      cases run
      exact kept
  | cons label rest ih =>
      obtain ⟨next, taken, run⟩ := (exec_cons_eq_some_iff ..).mp run
      obtain ⟨isOutside, outside⟩ := outside next taken
      obtain ⟨⟨notRegistered, notAnswered⟩, undisturbed⟩ := undisturbed next taken
      have later : ∀ k ∈ h.asksAlong (askPath pc requestID) next rest, deadline < k.expireAt := by
        intro k mem
        apply notExpired k
        rw [Handler.asksAlong, taken]
        exact List.mem_append_right _ mem
      have now := (clock_le_of_exec ((exec_cons_eq_some_iff ..).mpr ⟨next, taken, run⟩)).trans soon
      refine ih (kept.step isOutside taken notRegistered notAnswered now ?_) outside undisturbed run
        later
      exact fun k isAsk => later k (mem_asksAlong_of_start rest isAsk)

theorem Sound.validKey {k : StoredAsk} (sound : Sound h s)
    (found : s.machine.docs[askPath pc requestID]? = some (.ask k)) : ValidKey pc requestID := by
  obtain ⟨pc', requestID', valid, same⟩ := sound.filed _ _ found
  obtain ⟨rfl, rfl⟩ := (askPath_inj valid).mp same
  exact valid

theorem kept_start {labels : List Label} {k : StoredAsk}
    (outside : Along h.step Outside {} labels) (run : exec h.step {} labels = some s)
    (stored : s.machine.docs[askPath pc requestID]? = some (.ask k))
    (notExpired : deadline < k.expireAt) : Kept h pc requestID k.answer deadline s s := by
  have always : Always h.step (fun s => Sound h s ∧ s.Dated ∧
      s.Follows (fun _ _ _ => True) (ReplyEnds h)) {} labels := by
    refine always_of_preserved ?_ ?_ outside
    · rintro state label next ⟨sound, dated, ends⟩ isOutside taken
      exact ⟨sound.step isOutside taken, dated.step taken,
        ends.step (fun _ _ _ => handle_reads h _) taken⟩
    · refine ⟨sound_start h, ?_, ?_⟩
      · exact fun r c running => by cases running
      · exact fun r c running => by cases running
  obtain ⟨sound, dated, ends⟩ := always.last run
  refine ⟨sound, dated, ends, ⟨k, stored, rfl, notExpired⟩, ?_⟩
  intro q c snap isNew running
  cases isNew.symm.trans running

/-- The answer of an ask stays stored, and every reply that begins later returns it or meets a
failure of the store, until the question is registered again, another answer takes effect or a
version of the ask expires. -/
theorem answer_kept (h : Handler) {labels labels' : List Label} {s s' : System}
    {pc requestID : Bytes} {k : StoredAsk} (outside : Along h.step Outside {} labels)
    (outside' : Along h.step Outside s labels') (run : exec h.step {} labels = some s)
    (run' : exec h.step s labels' = some s')
    (stored : s.machine.docs[askPath pc requestID]? = some (.ask k)) (isAnswered : k.answer ≠ [])
    (undisturbed : Along h.step (Undisturbed (askPath pc requestID)) s labels')
    (notExpired : ∀ k' ∈ h.asksAlong (askPath pc requestID) s labels',
      s'.machine.clock < k'.expireAt) :
    (∃ k', s'.machine.docs[askPath pc requestID]? = some (.ask k') ∧ k'.answer = k.answer) ∧
      ∀ q c value, s.calls q = none → s'.calls q = some c →
        h.takes c.input = some (pc, requestID) → c.program = .reply value →
        value.reply = some (replyText requestID k.answer) ∨ c.past.any fails = true := by
  have start := kept_start outside run stored
    (notExpired k (mem_asksAlong_of_start labels' stored))
  have kept := start.exec outside' undisturbed run' (Nat.le_refl _) notExpired
  obtain ⟨k', isAsk, isText, -⟩ := kept.stored
  refine ⟨⟨k', isAsk, isText⟩, fun q c value isNew running takes isReply => ?_⟩
  have ends := kept.ends q c running
  have follows := kept.sound.follows q c running
  rw [isReply] at ends follows
  obtain ⟨reads, on500⟩ := ends pc requestID takes (kept.sound.validKey isAsk)
  rcases reads with failed | ⟨snap, isRead⟩
  · exact Or.inr failed
  · obtain ⟨k'', rfl, isText', later⟩ := kept.found q c snap isNew running isRead
    rcases follows.shows pc requestID k'' takes isRead (isText' ▸ isAnswered) with
      shown | ⟨e, mem, expired⟩ | ⟨body, is500⟩
    · left
      rw [shown, isText']
    · have before := kept.dated q c running e mem
      exact absurd (expired.trans before) (Nat.not_le_of_lt later)
    · exact Or.inr (on500 body is500)

end

/-! ## A question that is asked twice -/

/-- A question and its answer. -/
def answeredLabels : List Label :=
  askLabels ++ .begin 1 (.putAnswer (ascii "mac") (ascii "r-1") (ascii "a")) ::
    List.replicate 6 (.advance 1 .ok)

/-- It is asked again; the registration is written, and then the call goes on. -/
def againLabels (registration : Outcome) (rest : Nat) : List Label :=
  .begin 2 (.handleAsk (some ⟨ascii "mac", ascii "r-1", ascii "q"⟩) [] ⟨200, true⟩) ::
    List.replicate 3 (.advance 2 .ok) ++ .advance 2 ⟨true, registration⟩ ::
      List.replicate rest (.advance 2 .ok)

/-- Its reply is asked for. -/
def replyLabels (steps : Nat) : List Label :=
  .begin 3 (.handleReply (ascii "mac") (ascii "r-1")) :: List.replicate steps (.advance 3 .ok)

/-- The ask of the sample with its answer. -/
def answeredAsk : StoredAsk := answered (ascii "a") 0 (storedAsk (ascii "mac") (ascii "r-1") 0)

/-- The path of the sample ask. -/
def sampleAskPath : Path := askPath (ascii "mac") (ascii "r-1")

theorem outside_sample {labels : List Label} (all : labels.all registersMac = true) (s : System) :
    Along sampleHandler.step Outside s labels :=
  along_of_forall
    (fun label mem => outside_of_registersMac (List.all_eq_true.mp all label mem)) s

/-- The question is asked again, but its registration fails. -/
theorem answer_kept_again : ∃ s s', exec sampleHandler.step {} answeredLabels = some s ∧
    exec sampleHandler.step s (againLabels (.failed false) 0 ++ replyLabels 5) = some s' ∧
    (∃ k', s'.machine.docs[sampleAskPath]? = some (.ask k') ∧ k'.answer = answeredAsk.answer) ∧
    ∀ q c value, s.calls q = none → s'.calls q = some c →
      sampleHandler.takes c.input = some (ascii "mac", ascii "r-1") → c.program = .reply value →
      value.reply = some (replyText (ascii "r-1") answeredAsk.answer) ∨
        c.past.any fails = true := by
  have ends : ((exec sampleHandler.step {} answeredLabels).bind fun s =>
      (exec sampleHandler.step s (againLabels (.failed false) 0 ++ replyLabels 5)).map fun s' =>
        s.machine.docs[sampleAskPath]? = some (.ask answeredAsk) &&
        (decide (Along sampleHandler.step (Undisturbed sampleAskPath) s
          (againLabels (.failed false) 0 ++ replyLabels 5))) &&
        ((sampleHandler.asksAlong sampleAskPath s
          (againLabels (.failed false) 0 ++ replyLabels 5)).all fun k =>
            s'.machine.clock < k.expireAt)) = some true := by
    decide +kernel
  obtain ⟨s, run, next⟩ := Option.bind_eq_some_iff.mp ends
  obtain ⟨s', run', all⟩ := Option.map_eq_some_iff.mp next
  simp only [Bool.and_eq_true, decide_eq_true_eq, List.all_eq_true] at all
  obtain ⟨⟨stored, undisturbed⟩, notExpired⟩ := all
  exact ⟨s, s', run, run', answer_kept sampleHandler (outside_sample (by decide) {})
    (outside_sample (by decide) s) run run' stored (by decide) undisturbed notExpired⟩

/-- The question is asked again, and the answer, which no other one has replaced and which has
not expired, is gone. -/
theorem answer_discarded : ∃ s s', exec sampleHandler.step {} answeredLabels = some s ∧
    exec sampleHandler.step s (againLabels .ok 2 ++ replyLabels 2) = some s' ∧
    s.machine.docs[sampleAskPath]? = some (.ask answeredAsk) ∧
    Along sampleHandler.step (fun s label => answers sampleAskPath s label = false) s
      (againLabels .ok 2 ++ replyLabels 2) ∧
    (∀ k ∈ sampleHandler.asksAlong sampleAskPath s (againLabels .ok 2 ++ replyLabels 2),
      s'.machine.clock < k.expireAt) ∧
    s'.answer 3 = some (.http 200 (.reply none none (ascii "pending"))) := by
  have ends : ((exec sampleHandler.step {} answeredLabels).bind fun s =>
      (exec sampleHandler.step s (againLabels .ok 2 ++ replyLabels 2)).map fun s' =>
        s.machine.docs[sampleAskPath]? = some (.ask answeredAsk) &&
        (decide (Along sampleHandler.step (fun s label => answers sampleAskPath s label = false) s
          (againLabels .ok 2 ++ replyLabels 2))) &&
        ((sampleHandler.asksAlong sampleAskPath s (againLabels .ok 2 ++ replyLabels 2)).all
          fun k => s'.machine.clock < k.expireAt) &&
        s'.answer 3 = some (.http 200 (.reply none none (ascii "pending")))) = some true := by
    decide +kernel
  obtain ⟨s, run, next⟩ := Option.bind_eq_some_iff.mp ends
  obtain ⟨s', run', all⟩ := Option.map_eq_some_iff.mp next
  simp only [Bool.and_eq_true, decide_eq_true_eq, List.all_eq_true] at all
  obtain ⟨⟨⟨stored, noAnswer⟩, notExpired⟩, pending⟩ := all
  exact ⟨s, s', run, run', stored, noAnswer, notExpired, pending⟩

end Drover.Glasses

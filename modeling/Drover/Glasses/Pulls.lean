import Drover.Glasses.Effects

/-!
# Answers between a pull and its acknowledgement

An answer that was put stays in the store until it expires, is put again or is
acknowledged.  An acknowledgement names a request id, not the answer that was pulled:
if another text was put in between, it deletes what no pull has returned.  The record
of a run keeps for each call the texts that were put since its latest listing, and a
run loses no answer exactly if every deletion is covered by it.
-/

namespace Drover.Glasses

open Drover.Store Drover.Transition

variable {h : Handler}

/-! ## Runs -/

/-- The label is one of a run with a bridge, which acknowledges what was returned to it. -/
def Bridge (s : System) (label : Label) : Prop :=
  Outside s label ∧ ∀ r req pc ids, label = .begin r req → req.acks = some (pc, ids) →
    ∀ id ∈ ids, ∃ q item, Returned s q pc item ∧ item.requestID = id

/-- The event has stored the answer without an error. -/
def isPut (path : Path) (a : StoredAnswer) : ClientEvent → Bool
  | ⟨_, .write path' f, true⟩ => path' = path && f none = some (.answer a)
  | _ => false

/-- A `Put` has stored the answer and has returned no error. -/
def PutOk (s : System) (path : Path) (a : StoredAnswer) : Prop :=
  ∃ r c, s.calls r = some c ∧ c.past.any (isPut path a) = true

/-- The document of an answer that has not expired and that a `Put` has stored. -/
def Stored (s : System) (path : Path) (a : StoredAnswer) : Prop :=
  s.machine.docs[path]? = some (.answer a) ∧ PutOk s path a ∧ s.machine.clock < a.expireAt

/-- An answer that the step takes from the store, and that is not put again, has been
returned. -/
def Keeps (h : Handler) (s : System) (label : Label) : Prop :=
  ∀ s' path a, h.step s label = some s' → Stored s path a →
    (∀ a', s'.machine.docs[path]? ≠ some (.answer a')) →
    ∃ q item, Returned s q a.pc item ∧ item.requestID = a.requestID ∧ item.text = a.text

/-! ## The record -/

/-- For each call, the texts that were put since its latest listing. -/
abbrev Reputs := Nat → Path → Option Bytes

/-- The record after the operation of a call, which has left these documents. -/
def recordOp (r : Nat) (choice : Choice) (docs : Documents Doc) (reputs : Reputs) :
    ClientOp → Reputs
  | .list col =>
      if col = answersCol ∧ choice.read = true then Function.update reputs r fun _ => none
      else reputs
  | .write path _ =>
      if choice.write.applied then
        match docs[path]? with
        | some (.answer a) => fun q => Function.update (reputs q) path (some a.text)
        | _ => reputs
      else reputs
  | _ => reputs

/-- The record after a step. -/
def record (s : System) : Label → System → Reputs → Reputs
  | .advance r choice, s', reputs =>
      match s.calls r with
      | some ⟨_, _, .op o _⟩ => recordOp r choice s'.machine.docs reputs o
      | _ => reputs
  | _, _, reputs => reputs

/-- The path whose document the step deletes in an acknowledgement. -/
def deletedPath (s : System) : Label → Option Path
  | .advance r choice =>
      match s.calls r with
      | some ⟨_, _, .op (.write path f) _⟩ =>
          if choice.write.applied = true ∧ f none = none then some path else none
      | _ => none
  | _ => none

theorem deletedPath_eq_some_iff {s : System} {label : Label} {path : Path} :
    deletedPath s label = some path ↔
      ∃ r choice c f next, label = .advance r choice ∧ s.calls r = some c ∧
        c.program = .op (.write path f) next ∧ choice.write.applied = true ∧ f none = none := by
  constructor
  · intro deletes
    rw [deletedPath.eq_def] at deletes
    split at deletes
    · rename_i r choice
      split at deletes
      · rename_i input past path' f next running
        split at deletes
        · rename_i isDeletion
          cases deletes
          exact ⟨r, choice, _, f, next, rfl, running, rfl, isDeletion⟩
        · cases deletes
      · cases deletes
    · cases deletes
  · rintro ⟨r, choice, ⟨input, past, program⟩, f, next, rfl, running, rfl, applied, isNone⟩
    simp only [deletedPath, running, applied, isNone, and_self, if_true]

/-- An answer is deleted only if a call that has returned its request id has listed it
since another text was put. -/
def Covered (p : System × Reputs) (label : Label) : Prop :=
  ∀ path a, deletedPath p.1 label = some path → Stored p.1 path a →
    ∃ q item, Returned p.1 q a.pc item ∧ item.requestID = a.requestID ∧
      ∀ text, p.2 q path = some text → text = item.text

/-! ## What the record says -/

/-- The record tells the text of an answer, or the answer was listed. -/
structure Fresh (p : System × Reputs) : Prop where
  listings : ∀ q c docs, p.1.calls q = some c → listing c.past = some docs → FiledListing docs
  put : ∀ q path a text, p.1.machine.docs[path]? = some (.answer a) →
    p.2 q path = some text → a.text = text
  listed : ∀ q c docs path a, p.1.calls q = some c → listing c.past = some docs →
    p.1.machine.docs[path]? = some (.answer a) → p.2 q path = none → ∃ id, (id, .answer a) ∈ docs

/-- What was returned under the request id of an answer and not put again is that answer. -/
theorem Fresh.text_eq {p : System × Reputs} (fresh : Fresh p) (sound : Sound h p.1) {q : Nat}
    {item : Answer} {path : Path} {a : StoredAnswer}
    (found : p.1.machine.docs[path]? = some (.answer a)) (returned : Returned p.1 q a.pc item)
    (sameID : item.requestID = a.requestID) (notPut : p.2 q path = none) :
    item.text = a.text := by
  obtain ⟨items, isReturned, mem⟩ := returned
  obtain ⟨c, value, running, pulls, isReply, isItems⟩ := returnedBy_eq_some_iff.mp isReturned
  have ends := sound.follows q c running
  rw [isReply] at ends
  obtain ⟨docs, now, isListing, -, rfl⟩ := ends.pulled _ _ pulls isItems
  obtain ⟨id, a', inDocs, isPC, -, rfl⟩ := mem_selected mem
  obtain ⟨id', inDocs'⟩ := fresh.listed q c docs path a running isListing found notPut
  have filed := fresh.listings q c docs running isListing
  rw [filed.eq_of_mem inDocs inDocs' isPC sameID]

section

variable {req : Request} {o : ClientOp} {m : Machine Doc Unit Sent} {choice : Choice}
  {reputs : Reputs} {q r : Nat} {path : Path} {a : StoredAnswer}

/-- How the record of a call and an answer go together after an operation. -/
inductive Recorded (r : Nat) (choice : Choice) (o : ClientOp) (m : Machine Doc Unit Sent)
    (reputs : Reputs) (q : Nat) (path : Path) (a : StoredAnswer) (entry : Option Bytes) : Prop
  | put (isPut : entry = some a.text)
  | kept (found : m.docs[path]? = some (.answer a)) (same : entry = reputs q path)
  | listed (found : m.docs[path]? = some (.answer a)) (isCall : q = r)
      (isList : o = .list answersCol) (isRead : choice.read = true) (isNone : entry = none)

theorem Does.recorded (does : Does h req o) (r q : Nat) (reputs : Reputs)
    (found : (m.after choice o).docs[path]? = some (.answer a)) :
    Recorded r choice o m reputs q path a
      (recordOp r choice (m.after choice o).docs reputs o q path) := by
  rcases does.answer_after found with old | ⟨applied, pc, requestID, text, now, -, isPath, rfl, rfl⟩
  · cases o with
    | list col =>
        rw [recordOp]
        split
        · rename_i isList
          by_cases isCall : q = r
          · refine .listed old isCall (by rw [isList.1]) isList.2 ?_
            rw [isCall, Function.update_self]
          · exact .kept old (by rw [Function.update_of_ne isCall])
        · exact .kept old rfl
    | write target f =>
        rw [recordOp]
        split
        · cases new : (m.after choice (.write target f)).docs[target]? with
          | none => exact .kept old rfl
          | some d =>
              cases d with
              | answer a' =>
                  by_cases same : path = target
                  · rw [same, new] at found
                    cases found
                    exact .put (by rw [same]; exact Function.update_self ..)
                  · exact .kept old (Function.update_of_ne same ..)
              | ask | chat | pc | revoked => exact .kept old rfl
        · exact .kept old rfl
    | get | transact | lookup | remember | forget | now | emit => exact .kept old rfl
  · rw [← isPath] at found ⊢
    refine .put ?_
    rw [recordOp, if_pos applied, found]
    exact Function.update_self ..

end

/-- An answer after another program's write was there before. -/
theorem found_of_external {s : System} {target path : Path} {doc : Option Doc} {a : StoredAnswer}
    (outside : Outside s (.external target doc))
    (found : (changeDocument s.machine.docs .ok target fun _ => doc)[path]? = some (.answer a)) :
    s.machine.docs[path]? = some (.answer a) := by
  by_cases same : path = target
  · rw [same, changeDocument_same] at found
    cases found
    rcases outside with ⟨isPC, -⟩ | ⟨isRevoked, -⟩
    · cases isPC
    · cases isRevoked
  · rwa [changeDocument_of_ne same] at found

theorem Fresh.step {p p' : System × Reputs} {label : Label} (fresh : Fresh p) (sound : Sound h p.1)
    (outside : Outside p.1 label) (taken : withGhost h.step record p label = some p') :
    Fresh p' := by
  obtain ⟨s, reputs⟩ := p
  obtain ⟨s', reputs'⟩ := p'
  obtain ⟨stepTaken, recorded⟩ := withGhost_eq_some_iff.mp taken
  simp only at stepTaken recorded outside sound
  subst recorded
  cases stepped_of_step stepTaken with
  | tick later => exact ⟨fresh.listings, fresh.put, fresh.listed⟩
  | external target doc =>
      refine ⟨fresh.listings, fun q path a text found => ?_, fun q c docs path a running isListing
        found => ?_⟩
      · exact fresh.put q path a text (found_of_external outside found)
      · exact fresh.listed q c docs path a running isListing (found_of_external outside found)
  | @begin r input unused =>
      have older : ∀ q c docs, (s.setCall r ⟨input, [], h.handle input⟩).calls q = some c →
          listing c.past = some docs → s.calls q = some c := by
        intro q c docs running isListing
        rw [State.calls_setCall] at running
        by_cases same : q = r
        · rw [same, Function.update_self] at running
          cases running
          cases isListing
        · rwa [Function.update_of_ne same] at running
      refine ⟨fun q c docs running isListing => ?_, fresh.put, fun q c docs path a running
        isListing => ?_⟩
      · exact fresh.listings q c docs (older q c docs running isListing) isListing
      · exact fresh.listed q c docs path a (older q c docs running isListing) isListing
  | @advance r c o next choice running isOp =>
      have does := sound.does running isOp
      have isRecord : record s (.advance r choice) (s.perform r c choice o next) reputs =
          recordOp r choice (s.machine.after choice o).docs reputs o := by
        obtain ⟨input, past, program⟩ := c
        simp only at isOp
        subst isOp
        simp only [record, running]
        rfl
      rw [isRecord]
      constructor
      case listings =>
        intro q c' docs running' isListing
        rcases listing_of_perform running running' isListing with
          ⟨-, -, -, rfl⟩ | ⟨-, c, running, isListing⟩
        · exact ⟨s.machine.docs, sound.filed, rfl⟩
        · exact fresh.listings q c docs running isListing
      case put =>
        intro q path a text found isPut
        cases does.recorded r q reputs found with
        | put isText => exact Option.some.inj (isText.symm.trans isPut)
        | kept old same => exact fresh.put q path a text old (same.symm.trans isPut)
        | listed old isCall isList isRead isNone => cases isNone.symm.trans isPut
      case listed =>
        intro q c' docs path a running' isListing found notPut
        have cases_ := does.recorded r q reputs found
        rcases listing_of_perform running running' isListing with
          ⟨-, rfl, isRead, rfl⟩ | ⟨other, c, running, isListing⟩
        · obtain ⟨valid, isPath⟩ := sound.filed path _ found
          refine ⟨docID a.pc a.requestID, mem_listDocuments.mpr ⟨?_, docID_ne_nil _ _,
            slash_notMem_docID valid⟩⟩
          rw [← answerPath, ← isPath]
          exact found
        · cases cases_ with
          | put isText => cases isText.symm.trans notPut
          | kept old same =>
              exact fresh.listed q c docs path a running isListing old (same.symm.trans notPut)
          | listed old isCall isList isRead isNone =>
              rcases other with notCall | notList | notRead
              · exact absurd isCall notCall
              · exact absurd isList notList
              · exact absurd isRead notRead

/-! ## Nothing is lost -/

/-- An operation leaves an answer at its path, or is the deletion of it. -/
theorem Does.deletes_of_gone {req : Request} {o : ClientOp} (does : Does h req o)
    {m : Machine Doc Unit Sent} {choice : Choice} {path : Path} {a : StoredAnswer}
    (filed : Filed path (.answer a)) (found : m.docs[path]? = some (.answer a))
    (gone : ∀ a', (m.after choice o).docs[path]? ≠ some (.answer a')) :
    choice.write.applied = true ∧ o = .write path fun _ => none := by
  have other : ∀ pc requestID, path ≠ askPath pc requestID := by
    intro pc requestID
    rw [filed.2]
    exact answerPath_ne_askPath _ _ _ _
  have updated : ∀ pc requestID change,
      (m.transaction choice (askPath pc requestID) (askPath pc requestID)
        (updateAsk change))[path]? = some (.answer a) := by
    intro pc requestID change
    rw [Machine.transaction]
    split
    · exact found
    · rw [changeDocument_of_ne (other pc requestID)]
      exact found
  cases does with
  | look looks => exact absurd (looks.docs_after m choice ▸ found) (gone a)
  | @put pc requestID text now valid answers =>
      change ∀ a', (changeDocument ..)[path]? ≠ _ at gone
      by_cases same : path = answerPath pc requestID
      · rw [same] at gone found
        rw [changeDocument_same] at gone
        split at gone
        · exact absurd rfl (gone _)
        · exact absurd found (gone a)
      · rw [changeDocument_of_ne same] at gone
        exact absurd found (gone a)
  | @delete pc id ids valid acks mem =>
      change ∀ a', (changeDocument ..)[path]? ≠ _ at gone
      by_cases same : path = answerPath pc id
      · subst same
        rw [changeDocument_same] at gone
        split at gone
        · rename_i applied
          exact ⟨applied, rfl⟩
        · exact absurd found (gone a)
      · rw [changeDocument_of_ne same] at gone
        exact absurd found (gone a)
  | @register pc requestID now valid asks =>
      change ∀ a', (changeDocument ..)[path]? ≠ _ at gone
      rw [changeDocument_of_ne (other pc requestID)] at gone
      exact absurd found (gone a)
  | answer now valid notEmpty answers => exact absurd (updated _ _ _) (gone a)
  | deliver now expireAt valid takes => exact absurd (updated _ _ _) (gone a)

/-- Only an acknowledgement takes an answer that has not expired from the store. -/
theorem deletes_of_gone {s s' : System} {label : Label} {path : Path} {a : StoredAnswer}
    (sound : Sound h s) (outside : Outside s label) (taken : h.step s label = some s')
    (found : s.machine.docs[path]? = some (.answer a)) (notExpired : s.machine.clock < a.expireAt)
    (gone : ∀ a', s'.machine.docs[path]? ≠ some (.answer a')) :
    deletedPath s label = some path := by
  have filed := sound.filed path _ found
  cases stepped_of_step taken with
  | tick later => exact absurd found (gone a)
  | begin input unused => exact absurd found (gone a)
  | external target doc =>
      change ∀ a', (changeDocument ..)[path]? ≠ _ at gone
      by_cases same : path = target
      · subst same
        cases doc with
        | none => exact absurd notExpired (Nat.not_lt.mpr (outside _ found _ rfl))
        | some d =>
            rcases outside with ⟨-, pc, isPath⟩ | ⟨-, pc, isPath⟩
            · exact absurd (filed.2.symm.trans isPath) (answerPath_ne_pcsPath _ _ _)
            · exact absurd (filed.2.symm.trans isPath) (answerPath_ne_revokedPath _ _ _)
      · rw [changeDocument_of_ne same] at gone
        exact absurd found (gone a)
  | @advance r c o next choice running isOp =>
      obtain ⟨applied, rfl⟩ := (sound.does running isOp).deletes_of_gone filed found gone
      exact deletedPath_eq_some_iff.mpr ⟨r, choice, c, _, next, rfl, running, isOp, applied, rfl⟩

/-- A deletion leaves no answer. -/
theorem gone_of_deletes {s s' : System} {label : Label} {path : Path}
    (deletes : deletedPath s label = some path) (taken : h.step s label = some s')
    (sound : Sound h s) :
    s'.machine.docs[path]? = none := by
  obtain ⟨r, choice, c, f, next, rfl, running, isOp, applied, isNone⟩ :=
    deletedPath_eq_some_iff.mp deletes
  rw [Handler.step, step_advance running isOp, Option.some.injEq] at taken
  subst taken
  change (changeDocument s.machine.docs choice.write path f)[path]? = none
  rw [changeDocument_same, if_pos applied]
  have does := sound.does running isOp
  cases does with
  | look looks => cases looks
  | put now valid answers => cases isNone
  | delete valid acks mem => rfl
  | register now valid asks => cases isNone

/-- A step keeps the answers exactly if it is covered. -/
theorem keeps_iff_covered {p p' : System × Reputs} {label : Label} (fresh : Fresh p)
    (sound : Sound h p.1) (outside : Outside p.1 label)
    (taken : withGhost h.step record p label = some p') : Keeps h p.1 label ↔ Covered p label := by
  obtain ⟨stepTaken, -⟩ := withGhost_eq_some_iff.mp taken
  constructor
  · intro keeps path a deletes stored
    have gone := gone_of_deletes deletes stepTaken sound
    obtain ⟨q, item, returned, sameID, sameText⟩ :=
      keeps p'.1 path a stepTaken stored fun a' found => by
        rw [gone] at found
        cases found
    refine ⟨q, item, returned, sameID, fun text isPut => ?_⟩
    rw [sameText]
    exact (fresh.put q path a text stored.1 isPut).symm
  · intro covered s' path a taken' stored gone
    have deletes := deletes_of_gone sound outside taken' stored.1 stored.2.2 gone
    obtain ⟨q, item, returned, sameID, reput⟩ := covered path a deletes stored
    refine ⟨q, item, returned, sameID, ?_⟩
    cases isPut : p.2 q path with
    | none => exact fresh.text_eq sound stored.1 returned sameID isPut
    | some text => rw [← reput text isPut, fresh.put q path a text stored.1 isPut]

/-- The empty store, and an empty record. -/
def start : System × Reputs := ({}, fun _ _ => none)

theorem fresh_start : Fresh start where
  listings q c docs running := by cases running
  put q path a text found := by rw [start, Std.ExtTreeMap.getElem?_empty] at found; cases found
  listed q c docs path a running := by cases running

/-- The calls keep to their operations, and the record tells of their answers. -/
def Tells (h : Handler) (p : System × Reputs) : Prop := Sound h p.1 ∧ Fresh p

/-- A run with a bridge loses no answer exactly if all its deletions are covered. -/
theorem keeps_iff_covered_of_bridge (h : Handler) (labels : List Label)
    (bridge : Along h.step Bridge {} labels) :
    Along h.step (Keeps h) {} labels ↔ Along (withGhost h.step record) Covered start labels := by
  have environment : Along (withGhost h.step record) (fun p => Bridge p.1) start labels :=
    along_withGhost.mpr bridge
  have same : Along (withGhost h.step record) (fun p => Keeps h p.1) start labels ↔
      Along h.step (Keeps h) {} labels := along_withGhost
  rw [← same]
  have begins : Tells h start := ⟨sound_start h, fresh_start⟩
  refine along_iff_along ?_ ?_ begins environment
  · rintro p label next ⟨sound, fresh⟩ ⟨outside, -⟩ taken
    exact ⟨sound.step outside (withGhost_eq_some_iff.mp taken).1, fresh.step sound outside taken⟩
  · rintro p label next ⟨sound, fresh⟩ ⟨outside, -⟩ taken
    exact keeps_iff_covered fresh sound outside taken

/-! ## A bridge and two answers -/

/-- An answer is put. -/
def putLabels (r : Nat) (text : Bytes) : List Label :=
  .begin r (.put (ascii "mac") (ascii "r-1") text) :: List.replicate 2 (.advance r .ok)

/-- A pull of `mac` without waiting, which goes well. -/
def pullLabels (r : Nat) : List Label :=
  .begin r (.pull (ascii "mac") 0 0) :: List.replicate 3 (.advance r .ok)

/-- What was pulled is acknowledged. -/
def ackLabels (r : Nat) : List Label :=
  [.begin r (.ack (ascii "mac") [ascii "r-1"]), .advance r .ok]

/-- The label is no write of another program and begins no acknowledgement. -/
def isPlain : Label → Bool
  | .external .. => false
  | .begin _ req => req.acks.isNone
  | .tick _ | .advance .. => true

theorem bridge_of_isPlain {label : Label} (plain : isPlain label = true) (s : System) :
    Bridge s label := by
  cases label with
  | external => cases plain
  | tick | advance => exact ⟨trivial, fun r req pc ids isBegin => nomatch isBegin⟩
  | begin r req =>
      refine ⟨trivial, fun r req pc ids isBegin acks => ?_⟩
      cases isBegin
      rw [isPlain, acks] at plain
      cases plain

/-- A bridge acknowledges the one answer that a pull has returned to it. -/
theorem bridge_of_returned (text : Bytes) (q : Nat) {front : List Label} {r : Nat}
    (plain : front.all isPlain = true)
    (returned : (exec sampleHandler.step {} front).map (returnedBy · q) =
      some (some (ascii "mac", [⟨ascii "r-1", text, 0⟩]))) :
    Along sampleHandler.step Bridge {} (front ++ ackLabels r) := by
  rw [List.all_eq_true] at plain
  apply along_append (along_of_forall (fun label mem => bridge_of_isPlain (plain label mem)) _)
  intro s run next taken
  rw [run, Option.map_some, Option.some.injEq] at returned
  refine ⟨⟨trivial, fun r req pc ids isBegin acks id mem => ?_⟩, ?_⟩
  · cases isBegin
    cases acks
    rw [List.mem_singleton.mp mem]
    exact ⟨q, _, ⟨_, returned, List.mem_singleton_self _⟩, rfl⟩
  · exact fun next taken => ⟨bridge_of_isPlain rfl _, trivial⟩

/-- An answer is put, pulled and acknowledged. -/
def pulledLabels : List Label := putLabels 0 (ascii "a") ++ pullLabels 1 ++ ackLabels 2

/-- Another one is put between the pull and the acknowledgement. -/
def reputLabels : List Label :=
  putLabels 0 (ascii "a") ++ pullLabels 1 ++ putLabels 2 (ascii "b") ++ ackLabels 3

/-- The first calls have returned no other text. -/
def returnsOnly (n : Nat) (text : Bytes) (s : System) : Bool :=
  (List.range n).all fun q => (returnedBy s q).all fun p => p.2.all (·.text = text)

/-- The label begins only one of the first calls. -/
def beginsBefore (n : Nat) : Label → Bool
  | .begin r _ => r < n
  | .tick _ | .external .. | .advance .. => true

theorem text_eq_of_returnsOnly {labels : List Label} {s : System} {n : Nat} {text : Bytes}
    (run : exec sampleHandler.step {} labels = some s)
    (begins : labels.all (beginsBefore n) = true) (only : returnsOnly n text s = true) {q : Nat}
    {pc : Bytes} {item : Answer} (returned : Returned s q pc item) : item.text = text := by
  obtain ⟨items, isReturned, mem⟩ := returned
  by_cases small : q < n
  · have texts := List.all_eq_true.mp only q (List.mem_range.mpr small)
    rw [isReturned, Option.all_some] at texts
    exact of_decide_eq_true (List.all_eq_true.mp texts item mem)
  · obtain ⟨c, value, running, -⟩ := returnedBy_eq_some_iff.mp isReturned
    have unused : s.calls q = none := by
      refine calls_eq_none_of_exec (s := {}) rfl (fun label mem input isBegin => ?_) run
      subst isBegin
      exact small (of_decide_eq_true (List.all_eq_true.mp begins _ mem))
    cases unused.symm.trans running

/-- The answer of the sample, with its text. -/
def samplePath : Path := answerPath (ascii "mac") (ascii "r-1")

/-- An answer of `mac` that is put at the start. -/
def sampleAnswer (text : Bytes) : StoredAnswer := storedAnswer (ascii "mac") (ascii "r-1") text 0

/-- The second answer is deleted, and no pull has returned it. -/
theorem reput_lost :
    Along sampleHandler.step Bridge {} reputLabels ∧
      ¬Along sampleHandler.step (Keeps sampleHandler) {} reputLabels := by
  constructor
  · exact bridge_of_returned (ascii "a") 1 (by decide) (by decide +kernel)
  · intro keeps
    have isSplit : reputLabels = reputLabels.dropLast ++ [.advance 3 .ok] := rfl
    have ends : ((exec sampleHandler.step {} reputLabels.dropLast).bind fun s =>
        (sampleHandler.step s (.advance 3 .ok)).map fun s' =>
          returnsOnly 4 (ascii "a") s &&
          s.machine.docs[samplePath]? = some (.answer (sampleAnswer (ascii "b"))) &&
          (s.calls 2).any (·.past.any (isPut samplePath (sampleAnswer (ascii "b")))) &&
          s.machine.clock < (sampleAnswer (ascii "b")).expireAt &&
          s'.machine.docs[samplePath]? = none) = some true := by
      decide +kernel
    obtain ⟨s, run, isLast⟩ := Option.bind_eq_some_iff.mp ends
    obtain ⟨s', taken, all⟩ := Option.map_eq_some_iff.mp isLast
    simp only [Bool.and_eq_true, decide_eq_true_eq] at all
    obtain ⟨⟨⟨⟨only, found⟩, isPutOk⟩, notExpired⟩, gone⟩ := all
    obtain ⟨c, running, any⟩ := (Option.any_eq_true _ _).mp isPutOk
    rw [isSplit] at keeps
    obtain ⟨q, item, returned, -, isText⟩ := keeps.after run taken s' samplePath _ taken
      ⟨found, ⟨2, c, running, any⟩, notExpired⟩ fun a' found' => by
        rw [gone] at found'
        cases found'
    have text := text_eq_of_returnsOnly run (by decide) only returned
    rw [isText] at text
    exact absurd text (by decide)

/-- The call has returned what the step deletes, and no other text was put since. -/
def coveredBy (q : Nat) (p : System × Reputs) (label : Label) : Bool :=
  (deletedPath p.1 label).all fun (path : Path) =>
    match p.1.machine.docs[path]? with
    | some (Doc.answer a) => (returnedBy p.1 q).any fun returned =>
        returned.1 = a.pc && returned.2.any fun item =>
          item.requestID = a.requestID && (p.2 q path).all (· = item.text)
    | _ => true

theorem covered_of_coveredBy {q : Nat} {p : System × Reputs} {label : Label}
    (covered : coveredBy q p label = true) : Covered p label := by
  intro path a deletes stored
  rw [coveredBy, deletes, Option.all_some, stored.1] at covered
  obtain ⟨⟨pc, items⟩, isReturned, covered⟩ := (Option.any_eq_true _ _).mp covered
  simp only [Bool.and_eq_true, decide_eq_true_eq, List.any_eq_true] at covered
  obtain ⟨rfl, item, mem, sameID, reput⟩ := covered
  refine ⟨q, item, ⟨items, isReturned, mem⟩, sameID, fun text isPut => ?_⟩
  rw [isPut, Option.all_some] at reput
  exact of_decide_eq_true reput

/-- What was pulled is kept until it is acknowledged. -/
theorem pulled_kept : Along sampleHandler.step (Keeps sampleHandler) {} pulledLabels := by
  have bridge : Along sampleHandler.step Bridge {} pulledLabels :=
    bridge_of_returned (ascii "a") 1 (by decide) (by decide +kernel)
  have covered : Along (withGhost sampleHandler.step record)
      (fun p label => coveredBy 1 p label = true) start pulledLabels := by
    decide +kernel
  exact (keeps_iff_covered_of_bridge sampleHandler pulledLabels bridge).mpr
    (covered.imp fun p label => covered_of_coveredBy)

end Drover.Glasses

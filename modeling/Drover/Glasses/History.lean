import Drover.Glasses.Effects

/-!
# Where an answer is

A history keeps for each document the call whose answer it holds, and how the answers
of the others have left; what each call has seen of that; and when the registrations
expire.  Every document with an answer holds that of a call which has stored it there,
and every accepted answer is held or has left.
-/

namespace Drover.Glasses

open Drover.Store Drover.Transition

/-! ## Histories -/

/-- How the answer of a call has left. -/
inductive End where
  /-- A call has changed the document. -/
  | changed (q : Nat)
  /-- The document has expired. -/
  | expired (d : Doc)

/-- What is remembered of a run beside its states. -/
structure History where
  /-- The expiry that was stored last at the path of an ask. -/
  registered : Path → Option Nat := fun _ => none
  /-- The call whose answer a document holds. -/
  holder : Path → Option Nat := fun _ => none
  left : Nat → Option End := fun _ => none
  /-- The holders at the latest listing of a call. -/
  listed : Nat → Path → Option Nat := fun _ _ => none
  /-- The holder of a document when a call has read it. -/
  read : Nat → Path → Option Nat := fun _ _ => none
  /-- What was registered then. -/
  asked : Nat → Path → Option Nat := fun _ _ => none

namespace History

/-- The answer at the path leaves, and another one may come. -/
def replace (g : History) (path : Path) (end_ : End) (holder : Option Nat) : History :=
  { g with
    holder := Function.update g.holder path holder
    left := match g.holder path with
      | some r => Function.update g.left r (some end_)
      | none => g.left }

/-- An ask is stored at the path, with its expiry. -/
def register (g : History) (path : Path) (expireAt : Nat) : History :=
  { g with registered := Function.update g.registered path (some expireAt) }

/-- The history after an operation of a call, which has left these documents; an update of
an ask is an answer or a delivery. -/
def op (g : History) (r : Nat) (answers : Bool) (choice : Choice) (docs : Documents Doc) :
    ClientOp → History
  | .get path =>
      if choice.read = true then
        { g with
          read := Function.update g.read r (Function.update (g.read r) path (g.holder path))
          asked := Function.update g.asked r
            (Function.update (g.asked r) path (g.registered path)) }
      else g
  | .list col =>
      if col = answersCol ∧ choice.read = true then
        { g with listed := Function.update g.listed r g.holder }
      else g
  | .write path _ =>
      if choice.write.applied = true then
        match docs[path]? with
        | some (.answer _) => g.replace path (.changed r) (some r)
        | some (.ask k) => (g.replace path (.changed r) none).register path k.expireAt
        | _ => g.replace path (.changed r) none
      else g
  | .transact _ path _ =>
      if choice.read = true ∧ choice.write.applied = true then
        match docs[path]? with
        | some (.ask k) =>
            (if answers then g.replace path (.changed r) (some r) else g).register path k.expireAt
        | _ => g
      else g
  | _ => g

end History

/-- The history after a step. -/
def trace (s : System) : Label → System → History → History
  | .advance r choice, s', g =>
      match s.calls r with
      | some ⟨req, _, .op o _⟩ => g.op r req.answers.isSome choice s'.machine.docs o
      | _ => g
  | .external path none, _, g =>
      match s.machine.docs[path]? with
      | some d => g.replace path (.expired d) none
      | none => g
  | _, _, g => g

/-! ## What a call has stored -/

/-- The event has written the answer. -/
def Wrote (path : Path) (a : StoredAnswer) : ClientEvent → Prop
  | ⟨_, .write path' f, _⟩ => path' = path ∧ f none = some (.answer a)
  | _ => False

/-- The event has updated the ask. -/
def Updated (path : Path) : ClientEvent → Prop
  | ⟨_, .transact _ path' _, _⟩ => path' = path
  | _ => False

/-- The call has put the answer. -/
def PutBy (s : System) (r : Nat) (a : StoredAnswer) : Prop :=
  ∃ c, s.calls r = some c ∧ c.input.answers = some (a.pc, a.requestID, a.text) ∧
    ∃ e ∈ c.past, Wrote (answerPath a.pc a.requestID) a e

/-- The call has answered the ask. -/
def AskedBy (s : System) (r : Nat) (pc requestID text : Bytes) : Prop :=
  ∃ c, s.calls r = some c ∧ c.input.answers = some (pc, requestID, text) ∧
    ∃ e ∈ c.past, Updated (askPath pc requestID) e

/-- The answer of a document is the one of the call. -/
def StoredBy (s : System) (r : Nat) (path : Path) : Doc → Prop
  | .answer a => path = answerPath a.pc a.requestID ∧ PutBy s r a
  | .ask k => ∃ pc requestID, ValidKey pc requestID ∧ path = askPath pc requestID ∧
      AskedBy s r pc requestID k.answer
  | .chat _ | .pc | .revoked => False

/-- The document has an answer. -/
def Doc.hasAnswer : Doc → Bool
  | .answer _ => true
  | .ask k => k.answer ≠ []
  | .chat _ | .pc | .revoked => false

section

variable {s s' : System} {r : Nat} {path : Path} {d : Doc}

theorem PutBy.mono {a : StoredAnswer} (extends_ : Extends s.calls s'.calls) (put : PutBy s r a) :
    PutBy s' r a := by
  obtain ⟨c, running, answers, e, mem, wrote⟩ := put
  obtain ⟨c', running', sameInput, longer⟩ := extends_ r c running
  exact ⟨c', running', sameInput ▸ answers, e, longer.subset mem, wrote⟩

theorem AskedBy.mono {pc requestID text : Bytes} (extends_ : Extends s.calls s'.calls)
    (asked : AskedBy s r pc requestID text) : AskedBy s' r pc requestID text := by
  obtain ⟨c, running, answers, e, mem, updated⟩ := asked
  obtain ⟨c', running', sameInput, longer⟩ := extends_ r c running
  exact ⟨c', running', sameInput ▸ answers, e, longer.subset mem, updated⟩

theorem StoredBy.mono (extends_ : Extends s.calls s'.calls) (stored : StoredBy s r path d) :
    StoredBy s' r path d := by
  cases d with
  | answer a => exact ⟨stored.1, stored.2.mono extends_⟩
  | ask k =>
      obtain ⟨pc, requestID, valid, isPath, asked⟩ := stored
      exact ⟨pc, requestID, valid, isPath, asked.mono extends_⟩
  | chat | pc | revoked => exact stored

end

/-! ## Holders -/

/-- Why the answer of a call is no longer held. -/
def Left (h : Handler) (s : System) (r : Nat) : End → Prop
  | .changed q => ∃ c o path d, s.calls q = some c ∧ Does h c.input o ∧ h.takes c.input = none ∧
      o.target = some path ∧ StoredBy s r path d
  | .expired d => ∃ path, StoredBy s r path d ∧ ∀ e, d.expireAt = some e → e ≤ s.machine.clock

/-- Every answer is held for the call that has stored it, or has left. -/
structure Places (h : Handler) (s : System) (g : History) : Prop where
  held : ∀ path d, s.machine.docs[path]? = some d → d.hasAnswer = true →
    ∃ r, g.holder path = some r ∧ StoredBy s r path d
  holds : ∀ path r, g.holder path = some r →
    ∃ d, s.machine.docs[path]? = some d ∧ d.hasAnswer = true
  left : ∀ r e, g.left r = some e → Left h s r e

/-- What is registered are the expiries of the asks, the deleted ones included. -/
structure Registry (s : System) (registered : Path → Option Nat) : Prop where
  known : ∀ path k, s.machine.docs[path]? = some (.ask k) → registered path = some k.expireAt
  lapsed : ∀ path e, registered path = some e → (∀ k, s.machine.docs[path]? ≠ some (.ask k)) →
    e ≤ s.machine.clock

section

variable {h : Handler} {s s' : System} {g g' : History} {r : Nat} {path : Path}
  {new : Option Doc} {end_ : End} {holder : Option Nat} {registered : Path → Option Nat}

theorem Left.mono (extends_ : Extends s.calls s'.calls) (later : s.machine.clock ≤ s'.machine.clock)
    (left : Left h s r end_) : Left h s' r end_ := by
  cases end_ with
  | changed q =>
      obtain ⟨c, o, path, d, running, does, notTakes, isTarget, stored⟩ := left
      obtain ⟨c', running', sameInput, -⟩ := extends_ q c running
      exact ⟨c', o, path, d, running', sameInput ▸ does, sameInput ▸ notTakes, isTarget,
        stored.mono extends_⟩
  | expired d =>
      obtain ⟨path, stored, expired⟩ := left
      exact ⟨path, stored.mono extends_, fun e isExpiry => Nat.le_trans (expired e isExpiry) later⟩

/-- The call that is held has stored the answer of the document. -/
theorem Places.stored (places : Places h s g) (isHolder : g.holder path = some r) :
    ∃ d, s.machine.docs[path]? = some d ∧ d.hasAnswer = true ∧ StoredBy s r path d := by
  obtain ⟨d, found, hasAnswer⟩ := places.holds path r isHolder
  obtain ⟨r', isHolder', stored⟩ := places.held path d found hasAnswer
  cases isHolder.symm.trans isHolder'
  exact ⟨d, found, hasAnswer, stored⟩

theorem Places.same (places : Places h s g) (extends_ : Extends s.calls s'.calls)
    (later : s.machine.clock ≤ s'.machine.clock)
    (docs : ∀ path : Path, s'.machine.docs[path]? = s.machine.docs[path]?)
    (sameHolder : g'.holder = g.holder) (sameLeft : g'.left = g.left) : Places h s' g' := by
  constructor
  case held =>
    intro path d found hasAnswer
    rw [docs] at found
    obtain ⟨r, isHolder, stored⟩ := places.held path d found hasAnswer
    exact ⟨r, sameHolder ▸ isHolder, stored.mono extends_⟩
  case holds =>
    intro path r isHolder
    rw [docs]
    exact places.holds path r (sameHolder ▸ isHolder)
  case left =>
    intro r e isLeft
    exact (places.left r e (sameLeft ▸ isLeft)).mono extends_ later

/-- The answer at a path is replaced. -/
theorem Places.replace (places : Places h s g) (extends_ : Extends s.calls s'.calls)
    (later : s.machine.clock ≤ s'.machine.clock)
    (docs : ∀ path' : Path, s'.machine.docs[path']? =
      if path' = path then new else s.machine.docs[path']?)
    (held : ∀ d, new = some d → d.hasAnswer = true →
      ∃ r, holder = some r ∧ StoredBy s' r path d)
    (holds : ∀ r, holder = some r → ∃ d, new = some d ∧ d.hasAnswer = true)
    (leaves : ∀ r d, s.machine.docs[path]? = some d → StoredBy s r path d → Left h s' r end_) :
    Places h s' (g.replace path end_ holder) := by
  constructor
  case held =>
    intro path' d found hasAnswer
    rw [docs] at found
    change ∃ r, Function.update g.holder path holder path' = some r ∧ _
    by_cases same : path' = path
    · rw [if_pos same] at found
      rw [same, Function.update_self]
      exact held d found hasAnswer
    · rw [if_neg same] at found
      rw [Function.update_of_ne same]
      obtain ⟨r, isHolder, stored⟩ := places.held path' d found hasAnswer
      exact ⟨r, isHolder, stored.mono extends_⟩
  case holds =>
    intro path' r isHolder
    change Function.update g.holder path holder path' = some r at isHolder
    rw [docs]
    by_cases same : path' = path
    · rw [same, Function.update_self] at isHolder
      rw [if_pos same]
      exact holds r isHolder
    · rw [Function.update_of_ne same] at isHolder
      rw [if_neg same]
      exact places.holds path' r isHolder
  case left =>
    intro r e isLeft
    change (match g.holder path with
      | some r => Function.update g.left r (some end_)
      | none => g.left) r = some e at isLeft
    cases isHolder : g.holder path with
    | none =>
        rw [isHolder] at isLeft
        exact (places.left r e isLeft).mono extends_ later
    | some r' =>
        rw [isHolder] at isLeft
        change Function.update g.left r' (some end_) r = some e at isLeft
        by_cases same : r = r'
        · rw [same, Function.update_self] at isLeft
          cases isLeft
          obtain ⟨d, found, -, stored⟩ := places.stored isHolder
          exact same ▸ leaves r' d found stored
        · rw [Function.update_of_ne same] at isLeft
          exact (places.left r e isLeft).mono extends_ later

/-- An ask is changed and keeps its answer. -/
theorem Places.keep {k k' : StoredAsk} (places : Places h s g)
    (extends_ : Extends s.calls s'.calls) (later : s.machine.clock ≤ s'.machine.clock)
    (docs : ∀ path' : Path, s'.machine.docs[path']? =
      if path' = path then some (.ask k') else s.machine.docs[path']?)
    (wasAsk : s.machine.docs[path]? = some (.ask k)) (sameAnswer : k'.answer = k.answer)
    (sameHolder : g'.holder = g.holder) (sameLeft : g'.left = g.left) : Places h s' g' := by
  have sameHas : (Doc.ask k').hasAnswer = (Doc.ask k).hasAnswer := by
    rw [Doc.hasAnswer, Doc.hasAnswer, sameAnswer]
  constructor
  case held =>
    intro path' d found hasAnswer
    rw [docs] at found
    rw [sameHolder]
    split at found
    · rename_i same
      cases found
      obtain ⟨r, isHolder, pc, requestID, valid, isPath, asked⟩ :=
        places.held path (.ask k) wasAsk (sameHas ▸ hasAnswer)
      refine ⟨r, same ▸ isHolder, pc, requestID, valid, same.trans isPath, ?_⟩
      rw [sameAnswer]
      exact asked.mono extends_
    · obtain ⟨r, isHolder, stored⟩ := places.held path' d found hasAnswer
      exact ⟨r, isHolder, stored.mono extends_⟩
  case holds =>
    intro path' r isHolder
    rw [sameHolder] at isHolder
    obtain ⟨d, found, hasAnswer⟩ := places.holds path' r isHolder
    rw [docs]
    split
    · rename_i same
      rw [same, wasAsk] at found
      cases found
      exact ⟨_, rfl, sameHas ▸ hasAnswer⟩
    · exact ⟨d, found, hasAnswer⟩
  case left =>
    intro r e isLeft
    exact (places.left r e (sameLeft ▸ isLeft)).mono extends_ later

/-- A document without an answer is written over one without. -/
theorem Places.other (places : Places h s g) (extends_ : Extends s.calls s'.calls)
    (later : s.machine.clock ≤ s'.machine.clock)
    (docs : ∀ path' : Path, s'.machine.docs[path']? =
      if path' = path then new else s.machine.docs[path']?)
    (noAnswer : ∀ d, new = some d → d.hasAnswer = false)
    (hadNone : ∀ d, s.machine.docs[path]? = some d → d.hasAnswer = false) : Places h s' g := by
  constructor
  case held =>
    intro path' d found hasAnswer
    rw [docs] at found
    split at found
    · rw [noAnswer d found] at hasAnswer
      cases hasAnswer
    · obtain ⟨r, isHolder, stored⟩ := places.held path' d found hasAnswer
      exact ⟨r, isHolder, stored.mono extends_⟩
  case holds =>
    intro path' r isHolder
    obtain ⟨d, found, hasAnswer⟩ := places.holds path' r isHolder
    rw [docs]
    split
    · rename_i same
      rw [hadNone d (same ▸ found)] at hasAnswer
      cases hasAnswer
    · exact ⟨d, found, hasAnswer⟩
  case left =>
    intro r e isLeft
    exact (places.left r e isLeft).mono extends_ later

theorem Registry.same (registry : Registry s registered)
    (later : s.machine.clock ≤ s'.machine.clock)
    (docs : ∀ path : Path, s'.machine.docs[path]? = s.machine.docs[path]?) :
    Registry s' registered where
  known path k found := registry.known path k (docs path ▸ found)
  lapsed path e isRegistered notAsk := by
    refine Nat.le_trans (registry.lapsed path e isRegistered fun k => ?_) later
    rw [← docs]
    exact notAsk k

/-- An ask is written. -/
theorem Registry.ask {k : StoredAsk} (registry : Registry s registered)
    (later : s.machine.clock ≤ s'.machine.clock)
    (docs : ∀ path' : Path, s'.machine.docs[path']? =
      if path' = path then some (.ask k) else s.machine.docs[path']?) :
    Registry s' (Function.update registered path (some k.expireAt)) := by
  constructor
  case known =>
    intro path' k' found
    rw [docs] at found
    by_cases same : path' = path
    · rw [if_pos same] at found
      cases found
      rw [same, Function.update_self]
    · rw [if_neg same] at found
      rw [Function.update_of_ne same]
      exact registry.known path' k' found
  case lapsed =>
    intro path' e isRegistered notAsk
    by_cases same : path' = path
    · refine absurd ?_ (notAsk k)
      rw [docs, if_pos same]
    · rw [Function.update_of_ne same] at isRegistered
      refine Nat.le_trans (registry.lapsed path' e isRegistered fun k' found => notAsk k' ?_) later
      rw [docs, if_neg same, found]

/-- No ask is written, and what is overwritten is no ask that has not expired. -/
theorem Registry.other (registry : Registry s registered)
    (later : s.machine.clock ≤ s'.machine.clock)
    (docs : ∀ path' : Path, s'.machine.docs[path']? =
      if path' = path then new else s.machine.docs[path']?)
    (notAsk : ∀ k, new ≠ some (.ask k))
    (expired : ∀ k, s.machine.docs[path]? = some (.ask k) → k.expireAt ≤ s'.machine.clock) :
    Registry s' registered := by
  constructor
  case known =>
    intro path' k found
    rw [docs] at found
    by_cases same : path' = path
    · rw [if_pos same] at found
      exact absurd found (notAsk k)
    · rw [if_neg same] at found
      exact registry.known path' k found
  case lapsed =>
    intro path' e isRegistered notAsk'
    by_cases same : path' = path
    · subst same
      by_cases wasAsk : ∃ k, s.machine.docs[path']? = some (.ask k)
      · obtain ⟨k, found⟩ := wasAsk
        cases isRegistered.symm.trans (registry.known path' k found)
        exact expired k found
      · exact Nat.le_trans (registry.lapsed path' e isRegistered fun k found =>
          wasAsk ⟨k, found⟩) later
    · refine Nat.le_trans (registry.lapsed path' e isRegistered fun k' found => notAsk' k' ?_) later
      rw [docs, if_neg same, found]

end

/-! ## Operations -/

theorem changeDocument_lookup (docs : Documents Doc) (path : Path)
    (f : Option Doc → Option Doc) {outcome : Outcome} (applied : outcome.applied = true)
    (path' : Path) :
    (changeDocument docs outcome path f)[path']? =
      if path' = path then f docs[path]? else docs[path']? := by
  by_cases same : path' = path
  · rw [if_pos same, same, changeDocument_same, if_pos applied]
  · rw [if_neg same, changeDocument_of_ne same]

theorem changeDocument_of_not_applied {docs : Documents Doc} {outcome : Outcome} {path : Path}
    {f : Option Doc → Option Doc} (notApplied : outcome.applied ≠ true) :
    changeDocument docs outcome path f = docs := by
  rw [changeDocument, if_neg notApplied]

/-- An update takes effect on an ask that it finds, or changes nothing. -/
theorem transaction_cases (m : Machine Doc Unit Sent) (choice : Choice) (path : Path)
    (change : StoredAsk → StoredAsk) :
    ((choice.read = true ∧ choice.write.applied = true) ∧ ∃ k, m.docs[path]? = some (.ask k) ∧
        ∀ path' : Path, (m.transaction choice path path (updateAsk change))[path']? =
          if path' = path then some (.ask (change k)) else m.docs[path']?) ∨
      (m.transaction choice path path (updateAsk change) = m.docs ∧
        ((choice.read = true ∧ choice.write.applied = true) →
          ∀ k, m.docs[path]? ≠ some (.ask k))) := by
  rw [Machine.transaction]
  split
  · rename_i noChange
    refine .inr ⟨rfl, fun both k found => ?_⟩
    rw [readDocument_eq_found_iff.mpr ⟨both.1, found⟩] at noChange
    cases noChange
  · rename_i f isChange
    obtain ⟨k, isRead, rfl⟩ := updateAsk_eq_some_iff.mp isChange
    obtain ⟨read, found⟩ := readDocument_eq_found_iff.mp isRead
    by_cases applied : choice.write.applied = true
    · exact .inl ⟨⟨read, applied⟩, k, found, changeDocument_lookup _ _ _ applied⟩
    · exact .inr ⟨changeDocument_of_not_applied applied, fun both => absurd both.2 applied⟩

/-- A look changes nothing of what is held and registered. -/
theorem History.op_of_looks {o : ClientOp} (looks : Looks o) (g : History) (r : Nat)
    (answers : Bool) (choice : Choice) (docs : Documents Doc) :
    (g.op r answers choice docs o).holder = g.holder ∧
      (g.op r answers choice docs o).left = g.left ∧
      (g.op r answers choice docs o).registered = g.registered := by
  cases o with
  | write | transact => cases looks
  | get path =>
      rw [History.op]
      split <;> exact ⟨rfl, rfl, rfl⟩
  | list col =>
      rw [History.op]
      split <;> exact ⟨rfl, rfl, rfl⟩
  | lookup | remember | forget | now | emit => exact ⟨rfl, rfl, rfl⟩

theorem History.op_of_no_ask {g : History} {r : Nat} {answers : Bool} {choice : Choice}
    {docs docs' : Documents Doc} {source path : Path}
    {change : Snapshot Doc → Option (Option Doc → Option Doc)}
    (notAsk : (choice.read = true ∧ choice.write.applied = true) →
      ∀ k, docs[path]? ≠ some (.ask k)) (same : docs' = docs) :
    g.op r answers choice docs' (.transact source path change) = g := by
  rw [History.op, same]
  split
  · rename_i both
    split
    · rename_i k found
      exact absurd found (notAsk both k)
    · rfl
  · rfl

theorem answer_delivered (now expireAt : Nat) (k : StoredAsk) :
    (delivered now expireAt k).answer = k.answer := by
  cases k
  rfl

/-- A call that takes a reply does nothing else. -/
theorem eq_none_of_takes {h : Handler} {req : Request} {pc requestID : Bytes}
    (takes : h.takes req = some (pc, requestID)) :
    req.answers = none ∧ req.acks = none ∧ h.asks req = none := by
  cases req with
  | handleReply => exact ⟨rfl, rfl, rfl⟩
  | put | pull | ack | putAnswer | handleAnswers | handleAck | handleAsk => cases takes

theorem takes_eq_none {h : Handler} {req : Request}
    (other : req.answers ≠ none ∨ req.acks ≠ none ∨ h.asks req ≠ none) : h.takes req = none := by
  cases takes : h.takes req with
  | none => rfl
  | some p =>
      obtain ⟨noAnswer, noAck, noAsk⟩ := eq_none_of_takes takes
      simp only [noAnswer, noAck, noAsk, ne_eq, not_true, or_self] at other

section

variable {h : Handler} {s : System} {g : History} {r : Nat}
  {c : Call Request Doc Unit Sent Response} {choice : Choice}

/-- The answer that is replaced leaves for the call. -/
theorem left_of_perform {o : ClientOp} {next : o.Result → Client Response}
    (running : s.calls r = some c) (isOp : c.program = .op o next) (does : Does h c.input o)
    (notTakes : h.takes c.input = none) {path : Path} (isTarget : o.target = some path) {q : Nat}
    {d : Doc} (stored : StoredBy s q path d) :
    Left h (s.perform r c choice o next) q (.changed r) := by
  have taken : h.step s (.advance r choice) = some (s.perform r c choice o next) :=
    step_advance running isOp
  refine ⟨_, o, path, d, Function.update_self .., does, notTakes, isTarget, ?_⟩
  exact stored.mono (extends_of_step taken)

/-- What is held and registered after an operation. -/
theorem Places.perform {o : ClientOp} {next : o.Result → Client Response} (sound : Sound h s)
    (places : Places h s g) (registry : Registry s g.registered) (running : s.calls r = some c)
    (isOp : c.program = .op o next) :
    Places h (s.perform r c choice o next)
        (g.op r c.input.answers.isSome choice (s.machine.after choice o).docs o) ∧
      Registry (s.perform r c choice o next)
        (g.op r c.input.answers.isSome choice (s.machine.after choice o).docs o).registered := by
  have taken : h.step s (.advance r choice) = some (s.perform r c choice o next) :=
    step_advance running isOp
  have extends_ := extends_of_step taken
  have later := clock_le_of_step taken
  have does := sound.does running isOp
  have leaves : h.takes c.input = none → ∀ path, o.target = some path → ∀ q d,
      s.machine.docs[path]? = some d → StoredBy s q path d →
        Left h (s.perform r c choice o next) q (.changed r) :=
    fun notTakes path isTarget q d _ stored =>
      left_of_perform running isOp does notTakes isTarget stored
  -- An operation that takes no effect leaves all as it is.
  have unchanged : ∀ g', g' = g → (s.machine.after choice o).docs = s.machine.docs →
      Places h (s.perform r c choice o next) g' ∧
        Registry (s.perform r c choice o next) g'.registered := by
    rintro g' rfl sameDocs
    have docs : ∀ path : Path, (s.perform r c choice o next).machine.docs[path]? =
        s.machine.docs[path]? := fun path => congrArg (·[path]?) sameDocs
    exact ⟨places.same extends_ later docs rfl rfl, registry.same later docs⟩
  cases does with
  | look looks =>
      obtain ⟨sameHolder, sameLeft, sameRegistered⟩ := History.op_of_looks looks g r
        c.input.answers.isSome choice (s.machine.after choice o).docs
      have docs : ∀ path : Path, (s.perform r c choice o next).machine.docs[path]? =
          s.machine.docs[path]? := fun path => congrArg (·[path]?) (looks.docs_after ..)
      rw [sameRegistered]
      exact ⟨places.same extends_ later docs sameHolder sameLeft, registry.same later docs⟩
  | @put pc requestID text now valid answers =>
      have notTakes : h.takes c.input = none :=
        takes_eq_none (.inl (answers ▸ Option.some_ne_none _))
      by_cases applied : choice.write.applied = true
      · have docs := changeDocument_lookup s.machine.docs (answerPath pc requestID)
          (fun _ => some (.answer (storedAnswer pc requestID text now))) applied
        have found := (docs (answerPath pc requestID)).trans (if_pos rfl)
        change Places h _ (History.op _ _ _ _ (changeDocument ..) _) ∧
          Registry _ (History.op _ _ _ _ (changeDocument ..) _).registered
        rw [History.op, if_pos applied, found]
        refine ⟨places.replace extends_ later docs ?_ ?_ (leaves notTakes _ rfl),
          registry.other later docs nofun fun k isAsk => ?_⟩
        · rintro d ⟨⟩ -
          exact ⟨r, rfl, rfl, _, Function.update_self .., answers, _, List.mem_cons_self, rfl, rfl⟩
        · exact fun _ _ => ⟨_, rfl, rfl⟩
        · obtain ⟨pc', requestID', -, isPath⟩ := sound.filed _ _ isAsk
          exact absurd isPath (answerPath_ne_askPath _ _ _ _)
      · exact unchanged _ (by rw [History.op, if_neg applied])
          (changeDocument_of_not_applied applied)
  | @delete pc id ids valid acks mem =>
      have notTakes : h.takes c.input = none :=
        takes_eq_none (.inr (.inl (acks ▸ Option.some_ne_none _)))
      by_cases applied : choice.write.applied = true
      · have docs := changeDocument_lookup s.machine.docs (answerPath pc id)
          (fun _ => none) applied
        have found := (docs (answerPath pc id)).trans (if_pos rfl)
        change Places h _ (History.op _ _ _ _ (changeDocument ..) _) ∧
          Registry _ (History.op _ _ _ _ (changeDocument ..) _).registered
        rw [History.op, if_pos applied, found]
        refine ⟨places.replace extends_ later docs nofun nofun (leaves notTakes _ rfl),
          registry.other later docs nofun fun k isAsk => ?_⟩
        obtain ⟨pc', requestID', -, isPath⟩ := sound.filed _ _ isAsk
        exact absurd isPath (answerPath_ne_askPath _ _ _ _)
      · exact unchanged _ (by rw [History.op, if_neg applied])
          (changeDocument_of_not_applied applied)
  | @register pc requestID now valid asks =>
      have notTakes : h.takes c.input = none :=
        takes_eq_none (.inr (.inr (asks ▸ Option.some_ne_none _)))
      by_cases applied : choice.write.applied = true
      · have docs := changeDocument_lookup s.machine.docs (askPath pc requestID)
          (fun _ => some (.ask (storedAsk pc requestID now))) applied
        have found := (docs (askPath pc requestID)).trans (if_pos rfl)
        change Places h _ (History.op _ _ _ _ (changeDocument ..) _) ∧
          Registry _ (History.op _ _ _ _ (changeDocument ..) _).registered
        rw [History.op, if_pos applied, found]
        have replaced : Places h _ (g.replace (askPath pc requestID) (.changed r) none) :=
          places.replace extends_ later docs
            (by rintro d ⟨⟩ hasAnswer; cases hasAnswer) nofun (leaves notTakes _ rfl)
        exact ⟨⟨replaced.held, replaced.holds, replaced.left⟩, registry.ask later docs⟩
      · exact unchanged _ (by rw [History.op, if_neg applied])
          (changeDocument_of_not_applied applied)
  | @answer pc requestID text now valid notEmpty answers =>
      have notTakes : h.takes c.input = none :=
        takes_eq_none (.inl (answers ▸ Option.some_ne_none _))
      change Places h _ (History.op _ _ _ _ (Machine.transaction ..) _) ∧
        Registry _ (History.op _ _ _ _ (Machine.transaction ..) _).registered
      rcases transaction_cases s.machine choice (askPath pc requestID) (answered text now) with
        ⟨both, k, -, docs⟩ | ⟨sameDocs, notAsk⟩
      · have found := (docs (askPath pc requestID)).trans (if_pos rfl)
        rw [History.op, if_pos both, found]
        simp only [answers, Option.isSome_some, if_true]
        have replaced : Places h (s.perform r c choice _ next)
            (g.replace (askPath pc requestID) (.changed r) (some r)) := by
          refine places.replace extends_ later docs ?_ (fun _ _ => ⟨_, rfl, ?_⟩)
            (leaves notTakes _ rfl)
          · rintro d ⟨⟩ -
            exact ⟨r, rfl, pc, requestID, valid, rfl, _, Function.update_self .., answers, _,
              List.mem_cons_self, rfl⟩
          · exact decide_eq_true notEmpty
        exact ⟨⟨replaced.held, replaced.holds, replaced.left⟩, registry.ask later docs⟩
      · exact unchanged _ (History.op_of_no_ask notAsk sameDocs) sameDocs
  | @deliver pc requestID now expireAt valid takes =>
      change Places h _ (History.op _ _ _ _ (Machine.transaction ..) _) ∧
        Registry _ (History.op _ _ _ _ (Machine.transaction ..) _).registered
      rcases transaction_cases s.machine choice (askPath pc requestID)
        (delivered now expireAt) with ⟨both, k, wasAsk, docs⟩ | ⟨sameDocs, notAsk⟩
      · have found := (docs (askPath pc requestID)).trans (if_pos rfl)
        have notAnswer : c.input.answers = none := (eq_none_of_takes takes).1
        rw [History.op, if_pos both, found]
        simp only [notAnswer, Option.isSome_none, Bool.false_eq_true, if_false]
        exact ⟨places.keep extends_ later docs wasAsk (answer_delivered now expireAt k) rfl rfl,
          registry.ask later docs⟩
      · exact unchanged _ (History.op_of_no_ask notAsk sameDocs) sameDocs

end

/-! ## What a call has seen -/

section

variable {g : History} {r q : Nat} {answers : Bool} {choice : Choice} {docs : Documents Doc}
  {o : ClientOp} {path : Path}

theorem History.listed_op (other : q ≠ r ∨ o ≠ .list answersCol ∨ choice.read ≠ true) :
    (g.op r answers choice docs o).listed q = g.listed q := by
  cases o with
  | list col =>
      rw [History.op]
      split
      · rename_i isList
        rcases other with notCall | notList | notRead
        · exact Function.update_of_ne notCall ..
        · rw [isList.1] at notList
          exact absurd rfl notList
        · exact absurd isList.2 notRead
      · rfl
  | get path =>
      rw [History.op]
      split <;> rfl
  | write path f =>
      rw [History.op]
      split
      · split <;> rfl
      · rfl
  | transact source path f =>
      rw [History.op]
      split
      · split
        · split <;> rfl
        · rfl
      · rfl
  | lookup | remember | forget | now | emit => rfl

/-- A read is of one path. -/
theorem History.read_op (other : q ≠ r ∨ o ≠ .get path ∨ choice.read ≠ true) :
    (g.op r answers choice docs o).read q path = g.read q path ∧
      (g.op r answers choice docs o).asked q path = g.asked q path := by
  cases o with
  | get path' =>
      rw [History.op]
      split
      · rename_i isRead
        by_cases isCall : q = r
        · subst isCall
          have otherPath : path ≠ path' := by
            rintro rfl
            rcases other with notCall | notGet | notRead
            · exact notCall rfl
            · exact notGet rfl
            · exact notRead isRead
          simp only [Function.update_self]
          exact ⟨Function.update_of_ne otherPath .., Function.update_of_ne otherPath ..⟩
        · simp only [Function.update_of_ne isCall, and_self]
      · exact ⟨rfl, rfl⟩
  | list col =>
      rw [History.op]
      split <;> exact ⟨rfl, rfl⟩
  | write path f =>
      rw [History.op]
      split
      · split <;> exact ⟨rfl, rfl⟩
      · exact ⟨rfl, rfl⟩
  | transact source path f =>
      rw [History.op]
      split
      · split
        · split <;> exact ⟨rfl, rfl⟩
        · exact ⟨rfl, rfl⟩
      · exact ⟨rfl, rfl⟩
  | lookup | remember | forget | now | emit => exact ⟨rfl, rfl⟩

end

/-- A listing shows the answers with their holders. -/
structure ListingFits (s : System) (g : History) (q : Nat) (docs : List (Bytes × Doc)) :
    Prop where
  filed : FiledListing docs
  held : ∀ id a, (id, .answer a) ∈ docs →
    ∃ r, g.listed q (docPath answersCol id) = some r ∧
      StoredBy s r (docPath answersCol id) (.answer a)
  holds : ∀ id r, g.listed q (docPath answersCol id) = some r → ∃ a, (id, .answer a) ∈ docs

/-- A read shows the ask with its holder and its expiry. -/
structure ReadFits (s : System) (g : History) (q : Nat) (path : Path) (snap : Snapshot Doc) :
    Prop where
  asked : ∀ k, snap = .found (.ask k) → g.asked q path = some k.expireAt
  held : ∀ k, snap = .found (.ask k) → k.answer ≠ [] →
    ∃ r, g.read q path = some r ∧ StoredBy s r path (.ask k)
  holds : ∀ k r, snap = .found (.ask k) → g.read q path = some r → k.answer ≠ []
  lapsed : isFound snap = false → ∀ e, g.asked q path = some e → e ≤ s.machine.clock

section

variable {h : Handler} {s s' : System} {g g' : History} {r q : Nat} {path : Path}

theorem ListingFits.mono {docs : List (Bytes × Doc)} (fits : ListingFits s g q docs)
    (extends_ : Extends s.calls s'.calls) (same : g'.listed q = g.listed q) :
    ListingFits s' g' q docs where
  filed := fits.filed
  held id a mem := by
    obtain ⟨r, isHolder, stored⟩ := fits.held id a mem
    exact ⟨r, same ▸ isHolder, stored.mono extends_⟩
  holds id r isHolder := fits.holds id r (same ▸ isHolder)

theorem ReadFits.mono {snap : Snapshot Doc} (fits : ReadFits s g q path snap)
    (extends_ : Extends s.calls s'.calls) (later : s.machine.clock ≤ s'.machine.clock)
    (sameRead : g'.read q path = g.read q path) (sameAsked : g'.asked q path = g.asked q path) :
    ReadFits s' g' q path snap where
  asked k isAsk := sameAsked.trans (fits.asked k isAsk)
  held k isAsk notEmpty := by
    obtain ⟨r, isHolder, stored⟩ := fits.held k isAsk notEmpty
    exact ⟨r, sameRead.trans isHolder, stored.mono extends_⟩
  holds k r isAsk isHolder := fits.holds k r isAsk (sameRead.symm.trans isHolder)
  lapsed notAsk e isAsked :=
    Nat.le_trans (fits.lapsed notAsk e (sameAsked.symm.trans isAsked)) later

/-- A listing that is made now. -/
theorem Places.listing (sound : Sound h s) (places : Places h s g)
    (extends_ : Extends s.calls s'.calls) (isListed : g'.listed q = g.holder) :
    ListingFits s' g' q (listDocuments s.machine.docs answersCol) where
  filed := ⟨s.machine.docs, sound.filed, rfl⟩
  held id a mem := by
    obtain ⟨found, -⟩ := mem_listDocuments.mp mem
    obtain ⟨r, isHolder, stored⟩ := places.held _ _ found rfl
    exact ⟨r, isListed ▸ isHolder, stored.mono extends_⟩
  holds id r isHolder := by
    rw [isListed] at isHolder
    obtain ⟨d, found, hasAnswer⟩ := places.holds _ r isHolder
    have filed := sound.filed _ d found
    cases d with
    | answer a =>
        obtain ⟨valid, isPath⟩ := filed
        rw [answerPath, docPath_inj] at isPath
        refine ⟨a, mem_listDocuments.mpr ⟨found, ?_, ?_⟩⟩
        · rw [isPath]
          exact docID_ne_nil _ _
        · rw [isPath]
          exact slash_notMem_docID valid
    | ask k =>
        obtain ⟨pc, requestID, -, isPath⟩ := filed
        exact absurd isPath (docPath_ne (by decide) (by decide) (by decide))
    | chat | pc | revoked => cases hasAnswer

/-- A read that is made now. -/
theorem Places.reading (places : Places h s g) (registry : Registry s g.registered)
    (extends_ : Extends s.calls s'.calls) (later : s.machine.clock ≤ s'.machine.clock)
    (isRead : g'.read q path = g.holder path) (isAsked : g'.asked q path = g.registered path) :
    ReadFits s' g' q path (readDocument s.machine.docs true path) where
  asked k isAsk := isAsked.trans (registry.known path k (readDocument_eq_found_iff.mp isAsk).2)
  held k isAsk notEmpty := by
    obtain ⟨r, isHolder, stored⟩ :=
      places.held path _ (readDocument_eq_found_iff.mp isAsk).2 (decide_eq_true notEmpty)
    exact ⟨r, isRead.trans isHolder, stored.mono extends_⟩
  holds k r isAsk isHolder := by
    obtain ⟨d, found, hasAnswer⟩ := places.holds path r (isRead.symm.trans isHolder)
    cases found.symm.trans (readDocument_eq_found_iff.mp isAsk).2
    exact of_decide_eq_true hasAnswer
  lapsed notAsk e isExpiry := by
    refine Nat.le_trans (registry.lapsed path e (isAsked.symm.trans isExpiry) fun k found => ?_)
      later
    rw [readDocument_eq_found_iff.mpr ⟨rfl, found⟩] at notAsk
    cases notAsk

end

/-! ## Runs -/

/-- The answer of the call is held or has left. -/
def History.Keeps (g : History) (r : Nat) : Prop :=
  (∃ path, g.holder path = some r) ∨ g.left r ≠ none

/-- The call has accepted an answer until a time. -/
def Accepts (s : System) (r : Nat) (pc requestID text : Bytes) (expiresAt : Nat) : Prop :=
  ∃ c, s.calls r = some c ∧ c.input.answers = some (pc, requestID, text) ∧
    c.program = .reply (.stored (.ok expiresAt))

/-- The history of a run tells where its answers are. -/
structure Traced (h : Handler) (p : System × History) : Prop where
  sound : Sound h p.1
  dated : p.1.Dated
  places : Places h p.1 p.2
  registry : Registry p.1 p.2.registered
  kept : ∀ r pc requestID text expiresAt, Accepts p.1 r pc requestID text expiresAt → p.2.Keeps r
  listings : ∀ q c docs, p.1.calls q = some c → listing c.past = some docs →
    ListingFits p.1 p.2 q docs
  reads : ∀ q c path snap, p.1.calls q = some c → lastRead path c.past = some snap →
    ReadFits p.1 p.2 q path snap
  asked : ∀ q path e, p.2.asked q path = some e → p.2.registered path ≠ none

section

variable {h : Handler} {g : History} {r q : Nat} {answers : Bool} {choice : Choice}
  {docs : Documents Doc} {path : Path}

theorem History.Keeps.replace (keeps : g.Keeps q) (end_ : End) (holder : Option Nat) :
    (g.replace path end_ holder).Keeps q := by
  rcases keeps with ⟨path', isHolder⟩ | left
  · by_cases same : path' = path
    · subst same
      refine .inr ?_
      simp only [History.replace, isHolder, Function.update_self]
      exact Option.some_ne_none _
    · refine .inl ⟨path', ?_⟩
      simp only [History.replace, Function.update_of_ne same, isHolder]
  · refine .inr ?_
    cases isHolder : g.holder path with
    | none => simpa only [History.replace, isHolder] using left
    | some r =>
        simp only [History.replace, isHolder]
        by_cases same : q = r
        · rw [same, Function.update_self]
          exact Option.some_ne_none _
        · rwa [Function.update_of_ne same]

theorem History.Keeps.op (keeps : g.Keeps q) (o : ClientOp) :
    (g.op r answers choice docs o).Keeps q := by
  cases o with
  | get path =>
      rw [History.op]
      split <;> exact keeps
  | list col =>
      rw [History.op]
      split <;> exact keeps
  | write path f =>
      rw [History.op]
      split
      · split
        · exact keeps.replace _ _
        · exact keeps.replace (.changed r) none
        · exact keeps.replace _ _
      · exact keeps
  | transact source path f =>
      rw [History.op]
      split
      · split
        · split
          · exact keeps.replace (.changed r) (some r)
          · exact keeps
        · exact keeps
      · exact keeps
  | lookup | remember | forget | now | emit => exact keeps

theorem History.registered_op (o : ClientOp) (isRegistered : g.registered path ≠ none) :
    (g.op r answers choice docs o).registered path ≠ none := by
  have register : ∀ (path' : Path) e, Function.update g.registered path' (some e) path ≠ none := by
    intro path' e
    by_cases same : path = path'
    · rw [same, Function.update_self]
      exact Option.some_ne_none _
    · rwa [Function.update_of_ne same]
  cases o with
  | get path =>
      rw [History.op]
      split <;> exact isRegistered
  | list col =>
      rw [History.op]
      split <;> exact isRegistered
  | write path' f =>
      rw [History.op]
      split
      · split
        · exact isRegistered
        · exact register path' _
        · exact isRegistered
      · exact isRegistered
  | transact source path' f =>
      rw [History.op]
      split
      · split
        · split <;> exact register path' _
        · exact isRegistered
      · exact isRegistered
  | lookup | remember | forget | now | emit => exact isRegistered

theorem write_of_event {m : Machine Doc Unit Sent} {o : ClientOp} {time : Nat}
    {f : Option Doc → Option Doc} (isEvent : m.event choice o = ⟨time, .write path f, true⟩) :
    o = .write path f ∧ choice.write = .ok := by
  cases o with
  | write path' f' =>
      simp only [Machine.event, Machine.result, Event.mk.injEq, Op.write.injEq] at isEvent
      obtain ⟨-, ⟨rfl, rfl⟩, isOk⟩ := isEvent
      exact ⟨rfl, of_decide_eq_true (eq_of_heq isOk)⟩
  | get | list | transact | lookup | remember | forget | now | emit =>
      simp [Machine.event] at isEvent

theorem transact_of_event {m : Machine Doc Unit Sent} {o : ClientOp} {time : Nat}
    {source : Path} {change : Snapshot Doc → Option (Option Doc → Option Doc)} {snap : Snapshot Doc}
    (isEvent : m.event choice o = ⟨time, .transact source path change, (snap, true)⟩) :
    o = .transact source path change ∧ readDocument m.docs choice.read source = snap ∧
      choice.write = .ok := by
  cases o with
  | transact source' path' change' =>
      simp only [Machine.event, Machine.result, Event.mk.injEq, Op.transact.injEq] at isEvent
      obtain ⟨-, ⟨rfl, rfl, rfl⟩, isResult⟩ := isEvent
      obtain ⟨isRead, isOk⟩ := Prod.mk.inj (eq_of_heq isResult)
      exact ⟨rfl, isRead, of_decide_eq_true isOk⟩
  | get | list | write | lookup | remember | forget | now | emit =>
      simp [Machine.event] at isEvent

/-- A call that is accepted is held. -/
theorem Accepted.keeps {s : System} {c : Call Request Doc Unit Sent Response} {o : ClientOp}
    {pc requestID text : Bytes} {expiresAt : Nat}
    (answers : c.input.answers = some (pc, requestID, text))
    (accepted : Accepted c.input pc requestID text expiresAt
      (s.machine.event choice o :: c.past)) :
    (g.op r c.input.answers.isSome choice (s.machine.after choice o).docs o).Keeps r := by
  generalize isPast : s.machine.event choice o :: c.past = past at accepted
  cases accepted with
  | @put time now past quiet looked =>
      obtain ⟨rfl, isOk⟩ := write_of_event (List.cons.inj isPast).1
      have applied : choice.write.applied = true := by rw [isOk, Outcome.applied]
      have found := (changeDocument_lookup s.machine.docs (answerPath pc requestID)
        (fun _ => some (.answer (storedAnswer pc requestID text now))) applied
        (answerPath pc requestID)).trans (if_pos rfl)
      change (History.op _ _ _ _ (changeDocument ..) _).Keeps r
      rw [History.op, if_pos applied, found]
      exact .inl ⟨answerPath pc requestID, Function.update_self ..⟩
  | @ask time now k past quiet looked =>
      obtain ⟨rfl, isRead, isOk⟩ := transact_of_event (List.cons.inj isPast).1
      have applied : choice.write.applied = true := by rw [isOk, Outcome.applied]
      obtain ⟨read, found⟩ := readDocument_eq_found_iff.mp isRead
      change (History.op _ _ _ _ (Machine.transaction ..) _).Keeps r
      rcases transaction_cases s.machine choice (askPath pc requestID) (answered text now) with
        ⟨both, k, -, docs⟩ | ⟨-, notAsk⟩
      · have found := (docs (askPath pc requestID)).trans (if_pos rfl)
        rw [History.op, if_pos both, found]
        simp only [answers, Option.isSome_some, if_true]
        exact .inl ⟨askPath pc requestID, Function.update_self ..⟩
      · exact absurd found (notAsk ⟨read, applied⟩ k)

end

section

variable {h : Handler}

theorem Sound.accepted {s : System} {r : Nat} {pc requestID text : Bytes} {expiresAt : Nat}
    {c : Call Request Doc Unit Sent Response} (sound : Sound h s) (running : s.calls r = some c)
    (answers : c.input.answers = some (pc, requestID, text))
    (isReply : c.program = .reply (.stored (.ok expiresAt))) :
    Accepted c.input pc requestID text expiresAt c.past := by
  have ends := sound.follows r c running
  rw [isReply] at ends
  exact ends.accepted _ _ _ _ answers rfl

/-- There are no answers and asks in other collections. -/
theorem Filed.outside {col id : Path} {d : Doc} (filed : Filed (docPath col id) d)
    (top : slash ∉ col) (notAnswers : col ≠ answersCol) (notAsks : col ≠ asksCol) :
    d.hasAnswer = false ∧ ∀ k, d ≠ .ask k := by
  cases d with
  | answer a =>
      exact absurd filed.2 (docPath_ne top (by decide) notAnswers)
  | ask k =>
      obtain ⟨pc, requestID, -, isPath⟩ := filed
      exact absurd isPath (docPath_ne top (by decide) notAsks)
  | chat | pc | revoked => exact ⟨rfl, nofun⟩

/-- The step of another program. -/
theorem Traced.external {s s' : System} {g : History} {path : Path} {doc : Option Doc}
    (traced : Traced h (s, g)) (outside : Outside s (.external path doc))
    (taken : h.step s (.external path doc) = some s') :
    Places h s' (trace s (.external path doc) s' g) ∧
      Registry s' (trace s (.external path doc) s' g).registered := by
  have extends_ := extends_of_step taken
  have later := clock_le_of_step taken
  cases taken
  have docs : ∀ path' : Path, (changeDocument s.machine.docs .ok path fun _ => doc)[path']? =
      if path' = path then doc else s.machine.docs[path']? :=
    changeDocument_lookup _ _ _ rfl
  cases doc with
  | none =>
      cases found : s.machine.docs[path]? with
      | none =>
          have same : ∀ path' : Path,
              (changeDocument s.machine.docs .ok path fun _ => none)[path']? =
                s.machine.docs[path']? := by
            intro path'
            rw [docs]
            split
            · rename_i isPath
              rw [isPath, found]
            · rfl
          simp only [trace, found]
          exact ⟨traced.places.same extends_ later same rfl rfl, traced.registry.same later same⟩
      | some d =>
          simp only [trace, found]
          refine ⟨traced.places.replace extends_ later docs nofun nofun ?_,
            traced.registry.other later docs nofun fun k isAsk => ?_⟩
          · intro r d' found' stored
            cases found.symm.trans found'
            exact ⟨path, stored.mono extends_, fun e => outside d found e⟩
          · exact outside _ isAsk _ rfl
  | some d =>
      have others : (∀ d', some d = some d' → d'.hasAnswer = false ∧ ∀ k, d' ≠ .ask k) ∧
          ∀ d', s.machine.docs[path]? = some d' → d'.hasAnswer = false ∧ ∀ k, d' ≠ .ask k := by
        rcases outside with ⟨rfl, pc, rfl⟩ | ⟨rfl, pc, rfl⟩
        · refine ⟨by rintro d' ⟨⟩; exact ⟨rfl, nofun⟩, fun d' found => ?_⟩
          exact (traced.sound.filed _ d' found).outside (by decide) (by decide) (by decide)
        · refine ⟨by rintro d' ⟨⟩; exact ⟨rfl, nofun⟩, fun d' found => ?_⟩
          exact (traced.sound.filed _ d' found).outside (by decide) (by decide) (by decide)
      obtain ⟨new, old⟩ := others
      exact ⟨traced.places.other extends_ later docs (fun d' isNew => (new d' isNew).1)
          fun d' found => (old d' found).1,
        traced.registry.other later docs (fun k isNew => (new _ isNew).2 k rfl)
          fun k found => absurd rfl ((old _ found).2 k)⟩

theorem trace_external (s s' : System) (g : History) (path : Path) (doc : Option Doc) :
    (trace s (.external path doc) s' g).listed = g.listed ∧
      (trace s (.external path doc) s' g).read = g.read ∧
      (trace s (.external path doc) s' g).asked = g.asked ∧
      (trace s (.external path doc) s' g).registered = g.registered := by
  cases doc with
  | none =>
      rw [trace]
      split <;> exact ⟨rfl, rfl, rfl, rfl⟩
  | some d => exact ⟨rfl, rfl, rfl, rfl⟩

theorem History.Keeps.external {g : History} {q : Nat} (keeps : g.Keeps q) (s s' : System)
    (path : Path) (doc : Option Doc) : (trace s (.external path doc) s' g).Keeps q := by
  cases doc with
  | none =>
      rw [trace]
      split
      · exact keeps.replace _ _
      · exact keeps
  | some d => exact keeps

theorem Traced.step {p p' : System × History} {label : Label} (traced : Traced h p)
    (outside : Outside p.1 label) (taken : withGhost h.step trace p label = some p') :
    Traced h p' := by
  obtain ⟨s, g⟩ := p
  obtain ⟨s', g'⟩ := p'
  obtain ⟨stepTaken, recorded⟩ := withGhost_eq_some_iff.mp taken
  simp only at stepTaken recorded outside
  subst recorded
  have sound := traced.sound.step outside stepTaken
  have dated := traced.dated.step stepTaken
  have extends_ := extends_of_step stepTaken
  have later := clock_le_of_step stepTaken
  cases stepped_of_step stepTaken with
  | @tick now notEarlier =>
      refine ⟨sound, dated, traced.places.same extends_ later (fun _ => rfl) rfl rfl,
        traced.registry.same later fun _ => rfl, traced.kept, ?_, ?_, traced.asked⟩
      · exact fun q c docs running isListing =>
          (traced.listings q c docs running isListing).mono extends_ rfl
      · exact fun q c path snap running isRead =>
          (traced.reads q c path snap running isRead).mono extends_ later rfl rfl
  | external path doc =>
      obtain ⟨places, registry⟩ := traced.external outside stepTaken
      obtain ⟨sameListed, sameRead, sameAsked, sameRegistered⟩ := trace_external s _ g path doc
      refine ⟨sound, dated, places, registry, ?_, ?_, ?_, ?_⟩
      · exact fun r pc requestID text expiresAt accepts =>
          (traced.kept r pc requestID text expiresAt accepts).external s _ path doc
      · exact fun q c docs running isListing => (traced.listings q c docs running isListing).mono
          extends_ (congrFun sameListed q)
      · exact fun q c path snap running isRead =>
          (traced.reads q c path snap running isRead).mono extends_ later
            (congrFun (congrFun sameRead q) path) (congrFun (congrFun sameAsked q) path)
      · intro q path e isAsked
        rw [sameAsked] at isAsked
        rw [sameRegistered]
        exact traced.asked q path e isAsked
  | @begin r input unused =>
      -- The new call has done nothing.
      have older : ∀ q c, (s.setCall r ⟨input, [], h.handle input⟩).calls q = some c →
          c.past ≠ [] → s.calls q = some c := by
        intro q c running notEmpty
        rw [State.calls_setCall] at running
        by_cases same : q = r
        · rw [same, Function.update_self] at running
          cases running
          exact absurd rfl notEmpty
        · rwa [Function.update_of_ne same] at running
      refine ⟨sound, dated, traced.places.same extends_ later (fun _ => rfl) rfl rfl,
        traced.registry.same later fun _ => rfl, ?_, ?_, ?_, traced.asked⟩
      · rintro q pc requestID text expiresAt ⟨c, running, answers, isReply⟩
        refine traced.kept q pc requestID text expiresAt
          ⟨c, older q c running fun isEmpty => ?_, answers, isReply⟩
        have accepted := sound.accepted running answers isReply
        rw [isEmpty] at accepted
        cases accepted
      · intro q c docs running isListing
        have before := older q c running fun isEmpty => by
          rw [isEmpty] at isListing
          cases isListing
        exact (traced.listings q c docs before isListing).mono extends_ rfl
      · intro q c path snap running isRead
        have before := older q c running fun isEmpty => by
          rw [isEmpty] at isRead
          cases isRead
        exact (traced.reads q c path snap before isRead).mono extends_ later rfl rfl
  | @advance r c o next choice running isOp =>
      have isTrace : trace s (.advance r choice) (s.perform r c choice o next) g =
          g.op r c.input.answers.isSome choice (s.machine.after choice o).docs o := by
        obtain ⟨input, past, program⟩ := c
        simp only at isOp
        subst isOp
        simp only [trace, running]
        rfl
      rw [isTrace]
      obtain ⟨places, registry⟩ :=
        traced.places.perform traced.sound traced.registry running isOp
      refine ⟨sound, dated, places, registry, ?_, ?_, ?_, ?_⟩
      · rintro q pc requestID text expiresAt ⟨c', running', answers, isReply⟩
        have accepted := sound.accepted running' answers isReply
        rw [State.perform, State.calls_setCall] at running'
        by_cases same : q = r
        · rw [same, Function.update_self] at running'
          cases running'
          rw [same]
          exact Accepted.keeps answers accepted
        · rw [Function.update_of_ne same] at running'
          exact (traced.kept q pc requestID text expiresAt
            ⟨c', running', answers, isReply⟩).op o
      · intro q c' docs running' isListing
        rcases listing_of_perform running running' isListing with
          ⟨rfl, rfl, isRead, rfl⟩ | ⟨other, c', running', isListing⟩
        · refine traced.places.listing traced.sound extends_ ?_
          rw [History.op, if_pos ⟨rfl, isRead⟩]
          exact Function.update_self ..
        · exact (traced.listings q c' docs running' isListing).mono extends_
            (History.listed_op other)
      · intro q c' path snap running' isRead
        rcases lastRead_of_perform running running' isRead with
          ⟨rfl, rfl, isOk, rfl⟩ | ⟨other, c', running', isRead⟩
        · refine traced.places.reading traced.registry extends_ later ?_ ?_
          · rw [History.op, if_pos isOk]
            simp only [Function.update_self]
          · rw [History.op, if_pos isOk]
            simp only [Function.update_self]
        · obtain ⟨sameRead, sameAsked⟩ := History.read_op other
          exact (traced.reads q c' path snap running' isRead).mono extends_ later sameRead
            sameAsked
      · intro q path e isAsked
        by_cases isNow : q = r ∧ o = .get path ∧ choice.read = true
        · obtain ⟨rfl, rfl, isRead⟩ := isNow
          rw [History.op, if_pos isRead] at isAsked ⊢
          simp only [Function.update_self] at isAsked
          rw [isAsked]
          exact Option.some_ne_none e
        · have other : q ≠ r ∨ o ≠ .get path ∨ choice.read ≠ true := by
            by_contra! all
            exact isNow all
          apply History.registered_op
          rw [(History.read_op other).2] at isAsked
          exact traced.asked q path e isAsked

end

end Drover.Glasses

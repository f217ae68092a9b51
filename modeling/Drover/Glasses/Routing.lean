import Drover.Glasses.Effects
import Drover.Store.Interference

/-!
# Questions that fail

A question is registered before its webhook is called.  One that fails earlier stores nothing;
one that fails later stays registered, and so its answer is sent to the ask.  The answers of
all the other questions go where they would have gone.
-/

namespace Drover.Glasses

open Drover.Store

/-- A response with an error status. -/
def Response.isError : Response → Bool
  | .http status _ => 400 ≤ status
  | _ => false

variable {h : Handler} {pc requestID pc' requestID' text : Bytes}
  {env : Environment Doc Unit Sent}

/-! ## What a question stores -/

theorem Looks.target_eq_none {o : ClientOp} (looks : Looks o) : o.target = none := by
  cases o with
  | write | transact => cases looks
  | get | list | lookup | remember | forget | now | emit => rfl

/-- `RegisterAsk` writes the ask, and its error is that of the write. -/
theorem registerAsk_bind {ρ : Type} (valid : ValidKey pc requestID)
    (f : Except Err Nat → Client ρ) (env : Environment Doc Unit Sent) :
    ∃ result, (registerAsk pc requestID >>= f).answer env = (f result).answer (env.drop 2) ∧
      (registerAsk pc requestID >>= f).stores env =
        (askPath pc requestID, (env.choice 1).write.applied) :: (f result).stores (env.drop 2) ∧
      ∀ expiresAt, result = .ok expiresAt → (env.choice 1).write = .ok := by
  have isValid : ¬(validPC pc = false ∨ validRequestID requestID = false) := by
    simp [valid.pc, valid.requestID]
  rw [registerAsk, if_neg isValid]
  refine ⟨if decide ((env.choice 1).write = .ok) then .ok (env.clock 0 + defaultTTL)
    else .error .store, rfl, rfl, fun expiresAt isOk => ?_⟩
  split at isOk
  · rename_i isWritten
    exact of_decide_eq_true isWritten
  · cases isOk

/-- How a question that fails ends, and what it has stored. -/
def AskFails (asks : Option (Bytes × Bytes)) (value : Response) (stores : List (Path × Bool)) :
    Prop :=
  value.isError = true → stores = [] ∨ ∃ pc requestID took, asks = some (pc, requestID) ∧
    ValidKey pc requestID ∧ stores = [(askPath pc requestID, took)] ∧
      (value = writeErr 500 "問い合わせの登録に失敗しました" ∨
        took = true ∧ ∃ status, value = .http 502 (.webhookFailed status requestID))

theorem handleAsk_fails (h : Handler) (body : Option AskRequest) (newRequestID : Bytes)
    (upstream : Upstream) (env : Environment Doc Unit Sent) :
    AskFails (h.asks (.handleAsk body newRequestID upstream))
      ((h.handleAsk body newRequestID upstream).answer env)
      ((h.handleAsk body newRequestID upstream).stores env) := by
  have nothing (asks : Option (Bytes × Bytes)) (value : Response) : AskFails asks value [] :=
    fun _ => Or.inl rfl
  unfold Handler.handleAsk
  cases body with
  | none => exact nothing _ _
  | some req =>
      rw [Handler.asks]
      simp only
      generalize (if req.requestID = [] then newRequestID else req.requestID) = rid
      split
      · exact nothing _ _
      · rename_i validPC
        split
        · exact nothing _ _
        · rename_i validID
          split
          · exact nothing _ _
          · obtain ⟨k, answer, stores⟩ := ((registered_looks (h.pcOf req.pc)).imp
              fun o => Looks.target_eq_none).bind_looks _ env
            rw [answer, stores]
            split
            · exact nothing _ _
            · exact nothing _ _
            · have valid : ValidKey (h.pcOf req.pc) rid :=
                ⟨Bool.eq_true_of_not_eq_false validPC, Bool.eq_true_of_not_eq_false validID⟩
              obtain ⟨result, answer, stores, onOk⟩ := registerAsk_bind valid _ (env.drop k)
              rw [answer, stores]
              cases result with
              | error e => exact fun _ => Or.inr ⟨_, _, _, rfl, valid, rfl, Or.inl rfl⟩
              | ok expiresAt =>
                  have isWritten := onOk expiresAt rfl
                  obtain ⟨status, accepted⟩ := upstream
                  rw [isWritten]
                  intro isError
                  cases accepted with
                  | true =>
                      have not202 : (false : Bool) = true := isError
                      cases not202
                  | false => exact Or.inr ⟨_, _, _, rfl, valid, rfl, Or.inr ⟨rfl, status, rfl⟩⟩

/-! ## Where an answer is sent -/

/-- The answer of another question looks at its own ask alone. -/
theorem answerAsk_readsIn (other : askPath pc' requestID' ≠ askPath pc requestID) :
    (answerAsk pc' requestID' text : Client _).Only fun o =>
      o.ReadsIn (· ≠ askPath pc requestID) := by
  have askDoc_readsIn :
      (askDoc pc' requestID' : Client _).Only fun o => o.ReadsIn (· ≠ askPath pc requestID) := by
    apply Prog.Only.bind (.op other)
    intro snap
    split
    · exact .pure _
    · exact Prog.Only.bind (.op trivial) fun now => .pure _
    · exact .pure _
  rw [answerAsk]
  split
  · exact .pure _
  · apply Prog.Only.bind askDoc_readsIn
    intro result
    split
    · exact .pure _
    · exact .pure _
    · apply Prog.Only.bind (.op trivial)
      intro now
      exact Prog.Only.bind (.op other) fun result => .pure _

theorem registered_readsIn (pc' pc requestID : Bytes) :
    (registered pc' : Client _).Only fun o => o.ReadsIn (· ≠ askPath pc requestID) := by
  apply Prog.Only.bind
  · rw [isRevoked]
    split
    · exact .pure _
    · apply Prog.Only.bind (.op (askPath_ne_revokedPath _ _ _).symm)
      intro snap
      split <;> exact .pure _
  · intro revoked
    split
    · exact .pure _
    · apply Prog.Only.bind (.op fun id => (askPath_ne_pcsPath _ _ _).symm)
      intro docs
      split <;> exact .pure _

/-- It reads the document of this question nowhere. -/
theorem putAnswer_reads (valid : ValidKey pc requestID)
    (other : ¬(pc' = pc ∧ requestID' = requestID)) :
    (putAnswer pc' requestID' text : Client _).Only fun o =>
      o.ReadsIn (· ≠ askPath pc requestID) := by
  have otherAsk : askPath pc' requestID' ≠ askPath pc requestID := mt (askPath_inj valid).mp other
  rw [putAnswer]
  split
  · exact .pure _
  · apply Prog.Only.bind (registered_readsIn pc' pc requestID)
    intro isRegistered
    split
    · exact .pure _
    · exact .pure _
    · apply Prog.Only.bind (answerAsk_readsIn otherAsk)
      intro result
      split
      · exact .pure _
      · exact .pure _
      · rw [put]
        split
        · exact .pure _
        · apply Prog.Only.bind (.op trivial)
          intro now
          exact Prog.Only.bind (.op trivial) fun ok => .pure _

/-- The question is registered, and has not expired by the next operation. -/
def Stands (pc requestID : Bytes) (env : Environment Doc Unit Sent) : Prop :=
  ∀ n, ∃ k, (env.machine n).docs[askPath pc requestID]? = some (.ask k) ∧
    env.clock (n + 1) < k.expireAt

theorem Stands.drop (stands : Stands pc requestID env) (j : Nat) :
    Stands pc requestID (env.drop j) := by
  intro n
  obtain ⟨k, found, notExpired⟩ := stands (n + j)
  refine ⟨k, found, ?_⟩
  rwa [Environment.clock_drop, Nat.add_right_comm]

theorem askDoc_looks (pc requestID : Bytes) :
    (askDoc pc requestID : Client _).Only fun o => o.target = none := by
  refine Prog.Only.bind (.op ?_) fun snap => ?_
  · rfl
  · split
    · exact .pure _
    · refine Prog.Only.bind (.op ?_) fun now => .pure _
      rfl
    · exact .pure _

/-- `askDoc` finds a question that stands, or fails. -/
theorem askDoc_of_stands (stands : Stands pc requestID env) :
    (∃ k, (askDoc pc requestID).answer env = .ok (some k)) ∨
      (askDoc pc requestID).answer env = .error .store := by
  obtain ⟨k, found, notExpired⟩ := stands 0
  rw [askDoc, Prog.answer_get, Environment.readFirst]
  cases (env.choice 0).read with
  | false => exact Or.inr rfl
  | true =>
      left
      rw [readDocument_eq_found_iff.mpr ⟨rfl, found⟩]
      refine ⟨k, ?_⟩
      change Except.ok (if k.expireAt ≤ env.clock 1 then none else some k) = _
      rw [if_neg (Nat.not_le_of_lt notExpired)]

/-- `AnswerAsk` sends the answer to a question that stands, and `PutAnswer` is done with it. -/
theorem answerAsk_of_stands (stands : Stands pc requestID env) (valid : ValidKey pc requestID) :
    (∀ p ∈ (answerAsk pc requestID text).stores env, p.1 = askPath pc requestID) ∧
      (answerAsk pc requestID text).answer env ≠ .ok none := by
  have isValid : ¬(validPC pc = false ∨ validRequestID requestID = false) := by
    simp [valid.pc, valid.requestID]
  rw [answerAsk, if_neg isValid]
  obtain ⟨k, answer, stores⟩ := (askDoc_looks pc requestID).bind_looks _ env
  rw [answer, stores]
  rcases askDoc_of_stands stands with ⟨ask, isFound⟩ | failed
  · rw [isFound]
    constructor
    · exact List.forall_mem_cons.mpr ⟨rfl, List.forall_mem_nil _⟩
    · change (if _ then _ else _) ≠ _
      split <;> rintro ⟨⟩
  · rw [failed]
    constructor
    · exact List.forall_mem_nil _
    · rintro ⟨⟩

/-- `PutAnswer` sends the answer to a question that stands. -/
theorem putAnswer_of_stands (stands : Stands pc requestID env) :
    ∀ p ∈ (putAnswer pc requestID text).stores env, p.1 = askPath pc requestID := by
  rw [putAnswer]
  split
  · exact List.forall_mem_nil _
  · rename_i isValid
    obtain ⟨k, -, stores⟩ := ((registered_looks pc).imp
      fun o => Looks.target_eq_none).bind_looks _ env
    rw [stores]
    split
    · exact List.forall_mem_nil _
    · exact List.forall_mem_nil _
    · obtain ⟨sent, found⟩ :
          (∀ p ∈ (answerAsk pc requestID text).stores (env.drop k), p.1 = askPath pc requestID) ∧
            (answerAsk pc requestID text).answer (env.drop k) ≠ .ok none :=
        answerAsk_of_stands (stands.drop k) (validKey_of_validatePut isValid)
      rw [Prog.stores_bind]
      refine List.forall_mem_append.mpr ⟨sent, ?_⟩
      split
      · exact List.forall_mem_nil _
      · exact List.forall_mem_nil _
      · rename_i notFound
        exact absurd notFound found

/-- After a question that fails, with any failure inside it, each answer is sent where it would
have been sent without it; but a question whose `RegisterAsk` has taken effect (so that its
webhook failed, or the `RegisterAsk` reported a failure) is registered, and its own answer is
sent to it as long as it stands. -/
theorem failed_ask_routing (h : Handler) (body : Option AskRequest) (newRequestID : Bytes)
    (upstream : Upstream) (env : Environment Doc Unit Sent)
    (failed : ((h.handleAsk body newRequestID upstream).answer env).isError = true) :
    AskFails (h.asks (.handleAsk body newRequestID upstream))
        ((h.handleAsk body newRequestID upstream).answer env)
        ((h.handleAsk body newRequestID upstream).stores env) ∧
      ∀ (pc requestID text : Bytes) (without after : Environment Doc Unit Sent),
        without.Alike (fun path => (path, true) ∉
          (h.handleAsk body newRequestID upstream).stores env) after →
        (putAnswer pc requestID text).stores after = (putAnswer pc requestID text).stores without ∨
          (askPath pc requestID, true) ∈ (h.handleAsk body newRequestID upstream).stores env ∧
            (Stands pc requestID after →
              ∀ p ∈ (putAnswer pc requestID text).stores after, p.1 = askPath pc requestID) := by
  have fails := handleAsk_fails h body newRequestID upstream env
  refine ⟨fails, fun pc requestID text without after alike => ?_⟩
  by_cases own : (askPath pc requestID, true) ∈ (h.handleAsk body newRequestID upstream).stores env
  · exact Or.inr ⟨own, putAnswer_of_stands⟩
  · left
    refine (Prog.Only.alike ?_ alike).2
    rcases fails failed with nothing | ⟨pc', requestID', took, -, valid, stores, -⟩
    · rw [nothing]
      exact (Prog.only_true _).imp fun o _ => Op.readsIn_of_forall (fun path => List.not_mem_nil) o
    · rw [stores] at own ⊢
      cases took with
      | false =>
          refine (Prog.only_true _).imp fun o _ => Op.readsIn_of_forall (fun path mem => ?_) o
          cases List.mem_singleton.mp mem
      | true =>
          refine (putAnswer_reads valid ?_).imp fun o => Op.ReadsIn.mono fun path other mem => ?_
          · rintro ⟨rfl, rfl⟩
            exact own (List.mem_singleton_self _)
          · exact other (Prod.mk.inj (List.mem_singleton.mp mem)).1

/-! ## A webhook that fails -/

/-- The store of a registered PC. -/
def macStore : Machine Doc Unit Sent where
  docs := Std.ExtTreeMap.ofList [(docPath pcsCol (ascii "mac"), Doc.pc)]

/-- It after a question was registered. -/
def askedStore : Machine Doc Unit Sent where
  docs := macStore.docs.insert (askPath (ascii "mac") (ascii "r-1"))
    (.ask (storedAsk (ascii "mac") (ascii "r-1") 0))

/-- A question whose webhook fails. -/
def unsent : Client Response :=
  sampleHandler.handleAsk (some ⟨ascii "mac", ascii "r-1", ascii "q"⟩) [] ⟨500, false⟩

theorem unsent_other :
    (putAnswer (ascii "mac") (ascii "r-2") (ascii "a")).stores (.still askedStore) =
        (putAnswer (ascii "mac") (ascii "r-2") (ascii "a")).stores (.still macStore) ∨
      (askPath (ascii "mac") (ascii "r-2"), true) ∈ unsent.stores (.still macStore) ∧
        (Stands (ascii "mac") (ascii "r-2") (.still askedStore) →
          ∀ p ∈ (putAnswer (ascii "mac") (ascii "r-2") (ascii "a")).stores (.still askedStore),
            p.1 = askPath (ascii "mac") (ascii "r-2")) := by
  have stores : unsent.stores (.still macStore) =
      [(askPath (ascii "mac") (ascii "r-1"), true)] := by
    decide +kernel
  have failed : (unsent.answer (.still macStore)).isError = true := by decide +kernel
  refine (failed_ask_routing sampleHandler _ _ _ (.still macStore) failed).2 _ _ _ _ _
    ⟨fun _ => rfl, fun n path other => ?_, fun _ => rfl, fun _ => rfl⟩
  change (path, true) ∉ unsent.stores (.still macStore) at other
  change (macStore.docs.insert _ _)[path]? = macStore.docs[path]?
  rw [Std.ExtTreeMap.getElem?_insert, if_neg]
  rw [Std.compare_eq_iff_eq]
  rintro rfl
  exact other (stores ▸ List.mem_singleton_self _)

/-- The answer of the question goes to the ask afterwards, where it would have been put for the
pulls. -/
theorem unsent_own :
    (unsent.run (fun _ => .ok) macStore).2.isError = true ∧
      (putAnswer (ascii "mac") (ascii "r-1") (ascii "a")).stores
          (.still (unsent.run (fun _ => .ok) macStore).1) =
        [(askPath (ascii "mac") (ascii "r-1"), true)] ∧
      (putAnswer (ascii "mac") (ascii "r-1") (ascii "a")).stores (.still macStore) =
        [(answerPath (ascii "mac") (ascii "r-1"), true)] := by
  decide +kernel

end Drover.Glasses

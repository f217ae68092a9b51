import Drover.Slave.Client
import Drover.Store.Calls

/-!
# The settings of the webhook

`apiWebhookSave` keeps the stored `header_secret` when a request has none.  It keeps what
`GetWebhookConfig` returns, which is an empty configuration also when the read has failed.
What is stored is validated in any case.
-/

namespace Drover.Web

open Drover.Slave (WebhookConfig getWebhookConfig webhookPath)
open Drover.Store Drover.Transition

variable {α : Type}

/-- `url.Parse`: the scheme and the host. -/
abbrev ParseURL := Bytes → Option (Bytes × Bytes)

/-- `containsControlChar`. -/
def containsControlChar (s : Bytes) : Bool := s.any fun b => b = 0x0d || b = 0x0a || b = 0x00

/-- An absolute URL of the scheme `https`. -/
def isHTTPS (parseURL : ParseURL) (url : Bytes) : Bool :=
  match parseURL url with
  | some (scheme, host) => scheme = ascii "https" && host ≠ []
  | none => false

/-- `webhook.Validate`: the text of its error. -/
def validate (parseURL : ParseURL) (cfg : WebhookConfig) : Option Bytes :=
  if cfg.enabled = false then none
  else if isHTTPS parseURL cfg.url = false then some (utf8 "webhook URL は https の絶対URLが必須")
  else if cfg.headerName = [] then some (utf8 "ヘッダー名が必須")
  else if containsControlChar cfg.headerName || containsControlChar cfg.headerSecret then
    some (utf8 "ヘッダー名/値に制御文字（改行等）を含められない")
  else none

/-- `SetWebhookConfig`: whether it returns no error. -/
def setWebhookConfig (parseURL : ParseURL) (cfg : WebhookConfig) : Slave.Client α Bool :=
  if (validate parseURL cfg).isSome then pure false
  else Prog.write webhookPath fun _ => some (.webhook (some cfg))

/-- `webhookSaveRequest`. -/
structure WebhookSaveRequest where
  enabled : Bool
  url : Bytes
  headerName : Bytes
  headerSecret : Bytes
  deriving DecidableEq

/-- The configuration that is saved with the secret. -/
def WebhookSaveRequest.config (req : WebhookSaveRequest) (secret : Bytes) : WebhookConfig :=
  ⟨req.enabled, req.url, req.headerName, secret⟩

/-- What a save answers: `ok`, or a status and the text of the error. -/
inductive SaveAnswer where
  | ok
  | error (status : Nat) (text : Bytes)
  deriving DecidableEq

/-- The secret to save; `none` is an error. -/
def secretOf (req : WebhookSaveRequest) : Slave.Client α (Option Bytes) :=
  if req.headerSecret = [] then do
    match ← getWebhookConfig with
    | none => pure none
    | some cur => pure (some cur.headerSecret)
  else pure (some req.headerSecret)

/-- What it does with the configuration. -/
def saveConfig (parseURL : ParseURL) (cfg : WebhookConfig) : Slave.Client α SaveAnswer :=
  match validate parseURL cfg with
  | some text => pure (.error 400 text)
  | none => do
      if ← setWebhookConfig parseURL cfg then pure .ok
      else pure (.error 500 (ascii "firestore"))

/-- `apiWebhookSave`, for the request that is decoded from the body. -/
def apiWebhookSave (parseURL : ParseURL) (body : Option WebhookSaveRequest) :
    Slave.Client α SaveAnswer :=
  match body with
  | none => pure (.error 400 (ascii "invalid json"))
  | some req => do
      match ← secretOf req with
      | none => pure (.error 500 (ascii "firestore"))
      | some secret => saveConfig parseURL (req.config secret)

/-! ## The secret -/

/-- The secret that is stored; `none` where the configuration cannot be decoded. -/
def storedSecret : Option (Option WebhookConfig) → Option Bytes
  | none => some []
  | some cfg => cfg.map WebhookConfig.headerSecret

/-- The secret is stored as it was, or the save answers with an error and changes nothing. -/
def KeepsSecret (stored : Option (Option WebhookConfig)) (answer : SaveAnswer)
    (after : Option (Slave.Doc α)) : Prop :=
  (∃ cfg, after = some (.webhook (some cfg)) ∧ storedSecret stored = some cfg.headerSecret) ∨
    answer ≠ .ok ∧ after = stored.map Slave.Doc.webhook

section

variable {stored : Option (Option WebhookConfig)}
  {m : Machine (Slave.Doc α) Push.PushEntry Slave.Delivery}

/-- A save of a valid configuration stores it, if the write takes effect. -/
theorem saveConfig_run (parseURL : ParseURL) (cfg : WebhookConfig)
    (valid : validate parseURL cfg = none) (choices : Nat → Choice) :
    (saveConfig parseURL cfg).run choices m =
      ({ m with
          docs := changeDocument m.docs (choices 0).write webhookPath
            (fun _ => some (.webhook (some cfg))) },
        if decide ((choices 0).write = .ok) then .ok else .error 500 (ascii "firestore")) := by
  rw [saveConfig, setWebhookConfig, valid]
  change (if decide ((choices 0).write = .ok) then _ else _ : Slave.Client α SaveAnswer).run _ _ = _
  cases decide ((choices 0).write = .ok) <;> rfl

/-- What is saved keeps the secret if it has it, is invalid, or is not stored. -/
theorem saveConfig_keeps (parseURL : ParseURL) (cfg : WebhookConfig)
    (isStored : m.docs[webhookPath]? = stored.map Slave.Doc.webhook) (choices : Nat → Choice) :
    KeepsSecret stored ((saveConfig parseURL cfg).run choices m).2
        ((saveConfig parseURL cfg).run choices m).1.docs[webhookPath]? ↔
      (validate parseURL cfg).isSome = true ∨ (choices 0).write.applied = false ∨
        storedSecret stored = some cfg.headerSecret := by
  cases valid : validate parseURL cfg with
  | some text =>
      rw [saveConfig, valid]
      exact iff_of_true (Or.inr ⟨SaveAnswer.noConfusion, isStored⟩) (Or.inl rfl)
  | none =>
      rw [saveConfig_run parseURL cfg valid]
      simp only [changeDocument_same]
      cases applied : (choices 0).write.applied with
      | false =>
          have notOk : (choices 0).write ≠ .ok := by
            intro isOk
            rw [isOk] at applied
            cases applied
          refine iff_of_true (Or.inr ⟨?_, isStored⟩) (Or.inr (Or.inl rfl))
          rw [decide_eq_false notOk]
          rintro ⟨⟩
      | true =>
          constructor
          · rintro (⟨cfg', isSaved, same⟩ | ⟨-, unchanged⟩)
            · cases isSaved
              exact Or.inr (Or.inr same)
            · cases stored with
              | none => cases unchanged
              | some cfg' =>
                  cases unchanged
                  exact Or.inr (Or.inr rfl)
          · rintro (invalid | notApplied | same)
            · cases invalid
            · cases notApplied
            · exact Or.inl ⟨cfg, rfl, same⟩

/-- The secret of what was read; `none` is an error. -/
def readSecret : Snapshot (Slave.Doc α) → Option Bytes
  | .found (.webhook cfg) => cfg.map WebhookConfig.headerSecret
  | _ => some []

theorem apiWebhookSave_run (parseURL : ParseURL) (req : WebhookSaveRequest)
    (noSecret : req.headerSecret = []) (choices : Nat → Choice) :
    (apiWebhookSave parseURL (some req)).run choices m =
      ((readSecret (readDocument m.docs (choices 0).read webhookPath)).elim
        (pure (.error 500 (ascii "firestore")))
        fun secret => saveConfig parseURL (req.config secret)).run
          (fun n => choices (n + 1)) m := by
  rw [apiWebhookSave, secretOf, if_pos noSecret, getWebhookConfig]
  simp only [Prog.get, bind, Prog.bind, Prog.run, Machine.result, Machine.after]
  cases readDocument m.docs (choices 0).read webhookPath with
  | failed | absent => rfl
  | found d =>
      cases d with
      | webhook cfg => cases cfg <;> rfl
      | _ => rfl

/-- Without a secret in the request, a save keeps the stored one exactly if it was read, the
configuration is invalid without it, nothing is stored, or there is none. -/
theorem apiWebhookSave_keeps_iff (parseURL : ParseURL) (req : WebhookSaveRequest)
    (noSecret : req.headerSecret = [])
    (isStored : m.docs[webhookPath]? = stored.map Slave.Doc.webhook) (choices : Nat → Choice) :
    KeepsSecret stored ((apiWebhookSave parseURL (some req)).run choices m).2
        ((apiWebhookSave parseURL (some req)).run choices m).1.docs[webhookPath]? ↔
      (choices 0).read = true ∨ (validate parseURL (req.config [])).isSome = true ∨
        (choices 1).write.applied = false ∨ storedSecret stored = some [] := by
  rw [apiWebhookSave_run parseURL req noSecret choices]
  cases read : (choices 0).read with
  | false =>
      rw [or_iff_right Bool.false_ne_true]
      exact saveConfig_keeps parseURL (req.config []) isStored fun n => choices (n + 1)
  | true =>
      refine iff_of_true ?_ (Or.inl rfl)
      have keeps (secret : Bytes) (same : storedSecret stored = some secret) :=
        (saveConfig_keeps parseURL (req.config secret) isStored fun n => choices (n + 1)).mpr
          (Or.inr (Or.inr same))
      rw [readDocument, if_pos rfl, isStored]
      cases stored with
      | none => exact keeps [] rfl
      | some cfg =>
          cases cfg with
          | none => exact Or.inr ⟨SaveAnswer.noConfusion, isStored⟩
          | some cur => exact keeps cur.headerSecret rfl

end

/-! ## Every run -/

/-- A configuration that is stored and enabled is valid. -/
def ValidDoc (parseURL : ParseURL) (path : Path) (d : Slave.Doc α) : Prop :=
  path = webhookPath → ∀ cfg, d = .webhook (some cfg) → cfg.enabled = true →
    validate parseURL cfg = none

theorem saveConfig_justified (parseURL : ParseURL) (cfg : WebhookConfig) :
    (saveConfig (α := α) parseURL cfg).Only (Op.Justified (ValidDoc parseURL)) := by
  rw [saveConfig, setWebhookConfig]
  cases valid : validate parseURL cfg with
  | some text => exact .pure _
  | none =>
      refine Prog.Only.bind (.op ?_) fun ok => ?_
      · rintro old d ⟨⟩ - cfg' ⟨⟩ -
        exact valid
      · split <;> exact .pure _

theorem apiWebhookSave_justified (parseURL : ParseURL) (body : Option WebhookSaveRequest) :
    (apiWebhookSave (α := α) parseURL body).Only (Op.Justified (ValidDoc parseURL)) := by
  have reads (req : WebhookSaveRequest) :
      (secretOf (α := α) req).Only (Op.Justified (ValidDoc parseURL)) := by
    rw [secretOf]
    split
    · apply Prog.Only.bind
      · refine Prog.Only.bind (.op trivial) fun snap => ?_
        split <;> exact .pure _
      · intro cur
        split <;> exact .pure _
    · exact .pure _
  cases body with
  | none => exact .pure _
  | some req =>
      apply Prog.Only.bind (reads req)
      intro secret
      split
      · exact .pure _
      · exact saveConfig_justified parseURL _

/-- The saves that run at a time, on one store. -/
abbrev saves (α : Type) (parseURL : ParseURL) :
    Step (State (Option WebhookSaveRequest) (Slave.Doc α) Push.PushEntry Slave.Delivery SaveAnswer)
      (Label (Option WebhookSaveRequest) (Slave.Doc α)) :=
  step (apiWebhookSave parseURL)

/-- The stored configuration is valid, if it is enabled. -/
def StoredValid (parseURL : ParseURL)
    (s : State (Option WebhookSaveRequest) (Slave.Doc α) Push.PushEntry Slave.Delivery SaveAnswer) :
    Prop :=
  ∀ cfg, s.machine.docs[webhookPath]? = some (.webhook (some cfg)) → cfg.enabled = true →
    validate parseURL cfg = none

/-- What is stored is valid, and every save that runs will store what is valid. -/
structure Saving (parseURL : ParseURL)
    (s : State (Option WebhookSaveRequest) (Slave.Doc α) Push.PushEntry Slave.Delivery SaveAnswer) :
    Prop where
  docs : StoredValid parseURL s
  calls : s.Calls (fun _ => True) fun _ => Op.Justified (ValidDoc parseURL)

theorem Saving.step {parseURL : ParseURL}
    {s s' : State (Option WebhookSaveRequest) (Slave.Doc α) Push.PushEntry Slave.Delivery
      SaveAnswer}
    {label : Label (Option WebhookSaveRequest) (Slave.Doc α)} (saving : Saving parseURL s)
    (begins : label.Begins fun _ => True) (taken : saves α parseURL s label = some s') :
    Saving parseURL s' where
  docs cfg found enabled := by
    cases stepped_of_step taken with
    | tick | begin => exact saving.docs cfg found enabled
    | external => exact begins.elim
    | @advance r c o next choice running isOp =>
        have only := (saving.calls r c running).2
        rw [isOp] at only
        rcases only.1.after found with old | new
        · exact saving.docs cfg old enabled
        · exact new rfl cfg rfl enabled
  calls := saving.calls.step (fun body _ => apiWebhookSave_justified parseURL body)
    (fun _ _ _ => trivial) taken

/-- A save without a secret keeps the stored one, or answers with an error and changes nothing,
exactly if the stored configuration was read, the new one is invalid without a secret, it is not
stored, or there is no secret; and in every run of saves a stored configuration that is enabled
is valid. -/
theorem apiWebhookSave_safe_iff (α : Type) (parseURL : ParseURL) :
    (∀ (req : WebhookSaveRequest) (stored : Option (Option WebhookConfig))
        (m : Machine (Slave.Doc α) Push.PushEntry Slave.Delivery) (choices : Nat → Choice),
      req.headerSecret = [] → m.docs[webhookPath]? = stored.map Slave.Doc.webhook →
      (KeepsSecret stored ((apiWebhookSave parseURL (some req)).run choices m).2
          ((apiWebhookSave parseURL (some req)).run choices m).1.docs[webhookPath]? ↔
        (choices 0).read = true ∨ (validate parseURL (req.config [])).isSome = true ∨
          (choices 1).write.applied = false ∨ storedSecret stored = some [])) ∧
    ∀ s labels, (∀ r, s.calls r = none) → StoredValid parseURL s →
      (∀ label ∈ labels, label.Begins fun _ => True) →
      Always (saves α parseURL) (StoredValid parseURL) s labels := by
  refine ⟨fun req stored m choices noSecret isStored =>
    apiWebhookSave_keeps_iff parseURL req noSecret isStored choices,
    fun s labels noCalls valid begins => ?_⟩
  have start : Saving parseURL s := by
    refine ⟨valid, fun r c running => ?_⟩
    cases (noCalls r).symm.trans running
  have always : Always (saves α parseURL) (Saving parseURL) s labels :=
    always_of_preserved
      (fun state label next saving isSave taken => Saving.step saving isSave taken) start
      (along_of_forall_mem begins _)
  exact always.imp fun s saving => saving.docs

/-! ## A read that fails -/

/-- Every URL is one of this host. -/
def sampleParseURL : ParseURL := fun _ => some (ascii "https", ascii "a.io")

/-- A valid configuration. -/
def sampleConfig : WebhookConfig := ⟨true, ascii "https://a.io/h", ascii "X-Secret", ascii "s"⟩

/-- The configuration without its secret. -/
def sampleSave : WebhookSaveRequest := ⟨true, ascii "https://a.io/h", ascii "X-Secret", []⟩

/-- The store with that configuration. -/
def sampleSettings : Machine (Slave.Doc Unit) Push.PushEntry Slave.Delivery where
  docs := Std.ExtTreeMap.ofList [(webhookPath, Slave.Doc.webhook (some sampleConfig))]

/-- The read fails, and the write does not. -/
def failedRead : Nat → Choice
  | 0 => ⟨false, .ok⟩
  | _ + 1 => .ok

/-- The save answers `ok`, and the secret is gone. -/
theorem secret_lost :
    sampleSettings.docs[webhookPath]? =
        (some (some sampleConfig)).map (Slave.Doc.webhook (α := Unit)) ∧
      ¬ KeepsSecret (some (some sampleConfig))
        ((apiWebhookSave sampleParseURL (some sampleSave)).run failedRead sampleSettings).2
        ((apiWebhookSave sampleParseURL (some sampleSave)).run failedRead
          sampleSettings).1.docs[webhookPath]? := by
  refine ⟨by rfl, ?_⟩
  have after : ((apiWebhookSave sampleParseURL (some sampleSave)).run failedRead
      sampleSettings).1.docs[webhookPath]? =
        some (.webhook (some { sampleConfig with headerSecret := [] })) := by
    rfl
  have answer : ((apiWebhookSave sampleParseURL (some sampleSave)).run failedRead
      sampleSettings).2 = .ok := by
    rfl
  rintro (⟨cfg, isStored, same⟩ | ⟨isError, -⟩)
  · cases after.symm.trans isStored
    exact absurd same (by decide)
  · exact isError answer

end Drover.Web

import Drover.Data.Rfc3339
import Drover.Mcp.Audited
import Mathlib.Data.List.Induction

/-!
# How fast a bearer can queue commands

A call queues at most one command, and only if the limiter has let it pass; so the calls
of an email in a class that come to the limiter within some time queue no more commands than
the limit of the class and what it yields in this time, however long they run.
-/

namespace Drover.Mcp

open Drover.Store Drover.Transition
open Drover.Push (PushEntry)
open Drover.Slave (Client Delivery Doc second)

variable {α : Type}

/-- The email and the class that an admitted call is charged to. -/
def Admitted.charge (adm : Admitted α) : Bytes × Bytes :=
  (adm.call.ctx.vt.email, adm.tier.rateClass)

/-- The request was admitted on this charge. -/
def Process.admitted (p : Process α) (charge : Bytes × Bytes) (r : Nat) : Bool :=
  match p.state.calls (serveCall r) with
  | some ⟨.serve ⟨_, .ok adm⟩, _, _⟩ => adm.charge = charge
  | _ => false

/-- How many commands the request has queued on this charge. -/
def Process.queuedOn (p : Process α) (charge : Bytes × Bytes) (r : Nat) : Nat :=
  match p.state.calls (serveCall r) with
  | some ⟨.serve ⟨_, .ok adm⟩, past, _⟩ => if adm.charge = charge then commandsOf past else 0
  | _ => 0

/-- The requests that are served. -/
def served (occurrences : List (Occurrence α)) : List Nat :=
  occurrences.filterMap fun
    | .serve r => some r
    | _ => none

/-- The time. -/
def Process.clock (p : Process α) : Nat := p.state.machine.clock

/-! ## The limiter in a stretch of time -/

theorem Limiter.answers_concat (l : Limiter) (calls : List Call) (c : Call) :
    l.answers (calls ++ [c]) = l.answers calls ++ [(c, ((l.after calls).allow c).1)] := by
  induction calls generalizing l with
  | nil => rfl
  | cons d calls ih =>
      rw [List.cons_append, Limiter.answers, ih, Limiter.answers]
      rfl

theorem reading_mono {now later : Nat} (le : now ≤ later) : reading now ≤ reading later := by
  have cast : (now : ℚ) ≤ later := Nat.cast_le.mpr le
  rw [reading, reading]
  exact div_le_div_of_nonneg_right cast (Nat.cast_nonneg _)

/-- The calls of a key between two readings. -/
theorem Limiter.count_answers_within (l : Limiter) {email rateClass : Bytes}
    (clean : pipe ∉ rateClass) {calls : List Call}
    (ofKey : ∀ c ∈ calls, c.key = bucketKey email rateClass) {first last : ℚ}
    (ordered : first ≤ last) (within : ∀ c ∈ calls, first ≤ c.now ∧ c.now ≤ last) :
    ((l.answers calls).countP Prod.snd : ℚ) ≤
      limitOf rateClass + limitOf rateClass * (last - first) / 60 := by
  have yields : ∀ a b : ℚ, b - a ≤ last - first →
      limitOf rateClass + limitOf rateClass * (b - a) / 60 ≤
        limitOf rateClass + limitOf rateClass * (last - first) / 60 := by
    intro a b le
    have limit : (0 : ℚ) ≤ limitOf rateClass := Nat.cast_nonneg _
    gcongr
  induction calls using List.reverseRecOn with
  | nil =>
      have none := yields first first (by linarith)
      rw [sub_self, mul_zero, zero_div, add_zero] at none
      exact le_trans (Nat.cast_nonneg _) none
  | append_singleton calls c ih =>
      rw [l.answers_concat]
      cases told : ((l.after calls).allow c).1 with
      | false =>
          rw [List.countP_append, List.countP_singleton]
          simp only [Bool.false_eq_true, if_false, Nat.add_zero]
          exact ih (fun d mem => ofKey d (List.mem_append_left _ mem))
            fun d mem => within d (List.mem_append_left _ mem)
      | true =>
          obtain ⟨d, isFirst⟩ : ∃ d, (calls ++ [c]).head? = some d := by
            cases calls with
            | nil => exact ⟨c, rfl⟩
            | cons d calls => exact ⟨d, rfl⟩
          have isLast : (l.answers (calls ++ [c])).getLast? = some (c, true) := by
            rw [l.answers_concat, told, List.getLast?_concat]
          have bound := l.count_answers_le clean ofKey isFirst isLast
          rw [l.answers_concat, told] at bound
          have early := within d (List.mem_of_head? isFirst)
          have late := within c (List.mem_append_right _ List.mem_cons_self)
          exact le_trans bound (yields d.now c.now (by linarith))

/-! ## A stretch of a run -/

section

variable {server : RpcServer α} {p p' : Process α} {occurrences : List (Occurrence α)}

/-- The store takes a step. -/
theorem RpcServer.step_eq_some {o : Occurrence α} (taken : server.step p o = some p') :
    ∃ l label, p.enter server o = some (l, label) ∧ p'.limiter = l ∧
      Store.step (Stage.program server) p.state label = some p'.state := by
  obtain ⟨⟨l, label⟩, enters, stepping⟩ := Option.bind_eq_some_iff.mp taken
  obtain ⟨state, stepped, rfl⟩ := Option.map_eq_some_iff.mp stepping
  exact ⟨l, label, enters, rfl, stepped⟩

theorem RpcServer.clock_le (run : exec server.step p occurrences = some p') :
    p.clock ≤ p'.clock := by
  induction occurrences generalizing p with
  | nil =>
      cases run
      exact Nat.le_refl _
  | cons o rest ih =>
      obtain ⟨middle, taken, run⟩ := (exec_cons_eq_some_iff ..).mp run
      obtain ⟨l, label, -, -, stepped⟩ := RpcServer.step_eq_some taken
      exact Nat.le_trans (clock_le_of_step stepped) (ih run)

/-- The calls stay, with what they were admitted with. -/
theorem RpcServer.extends (run : exec server.step p occurrences = some p') :
    Extends p.state.calls p'.state.calls := by
  induction occurrences generalizing p with
  | nil =>
      cases run
      exact fun r c found => ⟨c, found, rfl, List.suffix_rfl⟩
  | cons o rest ih =>
      obtain ⟨middle, taken, run⟩ := (exec_cons_eq_some_iff ..).mp run
      obtain ⟨l, label, -, -, stepped⟩ := RpcServer.step_eq_some taken
      intro r c found
      obtain ⟨c', found', sameInput, longer⟩ := extends_of_step stepped r c found
      obtain ⟨c'', found'', sameInput', longer'⟩ := ih run r c' found'
      exact ⟨c'', found'', sameInput'.trans sameInput, longer.trans longer'⟩

theorem Process.admitted_of_extends {charge : Bytes × Bytes} {r : Nat} {c : McpCall α}
    (extends_ : Extends p.state.calls p'.state.calls)
    (found : p.state.calls (serveCall r) = some c) :
    p'.admitted charge r = p.admitted charge r := by
  obtain ⟨c', found', sameInput, -⟩ := extends_ _ c found
  obtain ⟨stage, past, program⟩ := c
  obtain ⟨stage', past', program'⟩ := c'
  cases sameInput
  rw [Process.admitted, Process.admitted, found, found']
  cases stage with
  | verify req => rfl
  | serve received =>
      obtain ⟨request, decision⟩ := received
      cases decision <;> rfl

/-- What begins when a request is served. -/
theorem served_of_step {r : Nat} {middle : Process α}
    (taken : server.step p (.serve r) = some middle) :
    ∃ req, middle.limiter = (handler server p.limiter p.clock req).1 ∧
      ∃ c, middle.state.calls (serveCall r) = some c ∧
        c.input = .serve ⟨req, (handler server p.limiter p.clock req).2⟩ := by
  obtain ⟨l, label, enters, isLimiter, stepped⟩ := RpcServer.step_eq_some taken
  obtain ⟨req, -, isServed⟩ := Option.map_eq_some_iff.mp enters
  cases isServed
  refine ⟨req, isLimiter, ?_⟩
  generalize middle.state = state at stepped ⊢
  cases stepped_of_step stepped with
  | begin stage unused => exact ⟨_, Function.update_self .., rfl⟩

/-- A request of the stretch is there after it. -/
theorem served_found (run : exec server.step p occurrences = some p') {r : Nat}
    (mem : r ∈ served occurrences) : ∃ c, p'.state.calls (serveCall r) = some c := by
  induction occurrences generalizing p with
  | nil => cases mem
  | cons o rest ih =>
      obtain ⟨middle, taken, goesOn⟩ := (exec_cons_eq_some_iff ..).mp run
      have later : r ∈ served rest → ∃ c, p'.state.calls (serveCall r) = some c := ih goesOn
      cases o with
      | tick | external | receive | advance => exact later mem
      | serve r' =>
          rcases List.mem_cons.mp mem with rfl | mem
          · obtain ⟨req, -, c, found, -⟩ := served_of_step taken
            obtain ⟨c', found', -⟩ := RpcServer.extends goesOn _ _ found
            exact ⟨c', found'⟩
          · exact later mem

theorem key_asks_iff {adm : Admitted α} {now : Nat} {email rateClass : Bytes}
    (clean : pipe ∉ rateClass) :
    (adm.asks now).key = bucketKey email rateClass ↔ adm.charge = (email, rateClass) := by
  rw [Call.key, bucketKey_inj (adm.asks now).clean clean, Admitted.charge, Prod.mk.injEq]
  rfl

/-- What a request is charged, if the limiter lets it pass. -/
theorem admitted_of_serve {r : Nat} {middle : Process α}
    (taken : server.step p (.serve r) = some middle) :
    (∃ c : Call, c.now = reading p.clock ∧ middle.limiter = (p.limiter.allow c).2 ∧
      ∀ email rateClass, pipe ∉ rateClass → (middle.admitted (email, rateClass) r = true ↔
        c.key = bucketKey email rateClass ∧ (p.limiter.allow c).1 = true)) ∨
    (middle.limiter = p.limiter ∧ ∀ charge, middle.admitted charge r = false) := by
  obtain ⟨req, isLimiter, ⟨stage, past, program⟩, found, isStage⟩ := served_of_step taken
  simp only at isStage
  rw [isStage] at found
  by_cases admissible : ∃ adm, Admits server req adm
  · obtain ⟨adm, admits⟩ := admissible
    have isDecision := admits.handler p.limiter p.clock
    refine .inl ⟨adm.asks p.clock, rfl, isLimiter.trans (congrArg Prod.fst isDecision), ?_⟩
    intro email rateClass clean
    rw [key_asks_iff clean, Process.admitted, found, isDecision]
    cases (p.limiter.allow (adm.asks p.clock)).1 with
    | true => simp
    | false => simp
  · obtain ⟨response, isRefusal⟩ := handler_refuses (not_exists.mp admissible)
    have isDecision := isRefusal p.limiter p.clock
    refine .inr ⟨isLimiter.trans (congrArg Prod.fst isDecision), fun charge => ?_⟩
    rw [Process.admitted, found, isDecision]

/-- Nothing else asks the limiter. -/
theorem limiter_of_step {o : Occurrence α} (taken : server.step p o = some p')
    (other : ∀ r, o ≠ .serve r) : p'.limiter = p.limiter := by
  obtain ⟨l, label, enters, isLimiter, -⟩ := RpcServer.step_eq_some taken
  cases o with
  | tick | external | receive | advance =>
      cases enters
      exact isLimiter
  | serve r => exact absurd rfl (other r)

/-- The limiter has let the requests of a stretch pass. -/
theorem limiter_of_exec (run : exec server.step p occurrences = some p') :
    ∃ calls : List Call,
      (∀ c ∈ calls, reading p.clock ≤ c.now ∧ c.now ≤ reading p'.clock) ∧
      ∀ email rateClass, pipe ∉ rateClass →
        (served occurrences).countP (p'.admitted (email, rateClass)) =
          ((p.limiter.answers calls).filter fun q =>
            q.1.key = bucketKey email rateClass).countP Prod.snd := by
  induction occurrences generalizing p with
  | nil =>
      cases run
      exact ⟨[], List.forall_mem_nil _, fun _ _ _ => rfl⟩
  | cons o rest ih =>
      obtain ⟨middle, taken, later⟩ := (exec_cons_eq_some_iff ..).mp run
      have first := (exec_cons_eq_some_iff server.step p middle o []).mpr ⟨middle, taken, rfl⟩
      have start := reading_mono (RpcServer.clock_le first)
      obtain ⟨calls, within, count⟩ := ih later
      have within' : ∀ c ∈ calls, reading p.clock ≤ c.now ∧ c.now ≤ reading p'.clock :=
        fun c mem => ⟨start.trans (within c mem).1, (within c mem).2⟩
      cases o with
      | tick | external | receive | advance =>
          rw [limiter_of_step taken nofun] at count
          exact ⟨calls, within', count⟩
      | serve r =>
          obtain ⟨old, found⟩ := served_found first (List.mem_singleton_self r)
          have same (charge : Bytes × Bytes) : p'.admitted charge r = middle.admitted charge r :=
            Process.admitted_of_extends (RpcServer.extends later) found
          have isServed : served (.serve r :: rest) = r :: served rest := rfl
          rcases admitted_of_serve taken with ⟨c, isNow, isLimiter, passes⟩ | ⟨isLimiter, fails⟩
          · have last := start.trans (reading_mono (RpcServer.clock_le later))
            refine ⟨c :: calls, List.forall_mem_cons.mpr ⟨?_, within'⟩, ?_⟩
            · rw [isNow]
              exact ⟨le_refl _, last⟩
            · intro email rateClass clean
              have passes := passes email rateClass clean
              rw [isServed, List.countP_cons, count email rateClass clean, same, isLimiter,
                Limiter.answers]
              by_cases isKey : c.key = bucketKey email rateClass
              · rw [List.filter_cons_of_pos (by simpa using isKey), List.countP_cons]
                simp only [passes, isKey, true_and]
              · rw [List.filter_cons_of_neg (by simpa using isKey)]
                simp only [passes, isKey, false_and, if_false, Nat.add_zero]
          · refine ⟨calls, within', fun email rateClass clean => ?_⟩
            rw [isServed, List.countP_cons, count email rateClass clean, same, isLimiter,
              if_neg (by rw [fails]; decide), Nat.add_zero]

/-! ## The bound -/

theorem Process.queuedOn_le (grounded : p.Grounded server) (charge : Bytes × Bytes) (r : Nat) :
    p.queuedOn charge r ≤ if p.admitted charge r then 1 else 0 := by
  rw [Process.queuedOn, Process.admitted]
  cases found : p.state.calls (serveCall r) with
  | none => exact Nat.zero_le _
  | some c =>
      have settles := grounded.settles found
      obtain ⟨stage, past, program⟩ := c
      cases stage with
      | verify req => exact Nat.zero_le _
      | serve received =>
          obtain ⟨request, decision⟩ := received
          cases decision with
          | error response => exact Nat.zero_le _
          | ok adm =>
              simp only [decide_eq_true_eq]
              split
              · exact (commandsOf_le_effectsOf past).trans settles.2.2.once
              · exact Nat.le_refl _

theorem Process.sum_queuedOn_le (grounded : p.Grounded server) (charge : Bytes × Bytes)
    (rs : List Nat) : (rs.map (p.queuedOn charge)).sum ≤ rs.countP (p.admitted charge) := by
  induction rs with
  | nil => exact Nat.le_refl _
  | cons r rs ih =>
      rw [List.map_cons, List.sum_cons, List.countP_cons, Nat.add_comm]
      exact Nat.add_le_add ih (Process.queuedOn_le grounded charge r)

end

/-- Commands are queued no faster than the limit.  Of the requests that are served during a
stretch of a run, those of an email in a class have queued, at the end of it or at any
later time, no more commands than the limit of the class and what it yields in the
stretch. -/
theorem queued_within_limit (server : RpcServer α) (m : Machine (Doc α) PushEntry Delivery)
    {email rateClass : Bytes} (clean : pipe ∉ rateClass)
    {before during after : List (Occurrence α)} {s t u : Process α}
    (first : exec server.step { state := { machine := m } } before = some s)
    (stretch : exec server.step s during = some t) (rest : exec server.step t after = some u) :
    (((served during).map (u.queuedOn (email, rateClass))).sum : ℚ) ≤
      limitOf rateClass + limitOf rateClass * (reading t.clock - reading s.clock) / 60 := by
  have start := Process.grounded_start server newLimiter m
  have whole : exec server.step { state := { machine := m } } (before ++ (during ++ after)) =
      some u := by
    rw [exec_append first, exec_append stretch, rest]
  have grounded : u.Grounded server :=
    (always_of_inductive (fun _ _ _ => Process.Grounded.step) _ start).last whole
  have stays : (served during).countP (u.admitted (email, rateClass)) =
      (served during).countP (t.admitted (email, rateClass)) := by
    apply List.countP_congr
    intro r mem
    obtain ⟨c, found⟩ := served_found stretch mem
    rw [Process.admitted_of_extends (RpcServer.extends rest) found]
  obtain ⟨calls, within, count⟩ := limiter_of_exec stretch
  have ordered := reading_mono (RpcServer.clock_le stretch)
  have alone : (s.limiter.answers calls).filter (fun q => q.1.key = bucketKey email rateClass) =
      s.limiter.answers (calls.filter fun c => c.key = bucketKey email rateClass) :=
    Limiter.answers_filter rfl calls
  have ofKey : ∀ c ∈ calls.filter fun c => c.key = bucketKey email rateClass,
      c.key = bucketKey email rateClass :=
    fun c mem => of_decide_eq_true (List.mem_filter.mp mem).2
  calc (((served during).map (u.queuedOn (email, rateClass))).sum : ℚ)
      ≤ ((served during).countP (u.admitted (email, rateClass)) : ℕ) :=
        Nat.cast_le.mpr (Process.sum_queuedOn_le grounded _ _)
    _ = ((s.limiter.answers (calls.filter fun c =>
          c.key = bucketKey email rateClass)).countP Prod.snd : ℕ) := by
        rw [stays, count email rateClass clean, alone]
    _ ≤ _ :=
        s.limiter.count_answers_within clean ofKey ordered fun c mem =>
          within c (List.mem_of_mem_filter mem)

/-! ## A sample -/

/-- A request for an interrupt of the session `w1` of `mac`. -/
def interruptJSON : Bytes :=
  ascii "\x7b\"name\":\"interrupt\",\"arguments\":" ++ paneJSON ++ ascii "\x7d"

/-- The body of a call of `interrupt`. -/
def bodyJSON : Bytes :=
  ascii "\x7b\"jsonrpc\":\"2.0\",\"method\":\"tools/call\",\"params\":" ++ interruptJSON ++
    ascii "\x7d"

/-- An access token. -/
def sampleToken : OAuth.OAuthToken where
  kind := OAuth.access
  email := ascii "a@b"
  clientID := ascii "app"
  scopes := [ascii "drover.input"]
  expiresAt := some (60 * second)
  family := []
  superseded := false

/-- A server that knows the sample arguments. -/
def sampleRpcServer : RpcServer Unit where
  toServer := { sampleServer with
    interrupt raw := if raw = paneJSON then some ⟨ascii "mac", ascii "w1", true⟩ else none
    rfc3339Nano := Rfc3339.rfc3339Nano }
  listSessions _ := none
  pcSID _ := none
  listCommands _ := none
  waitForStatus _ := none
  decodeRPC raw :=
    if raw = bodyJSON then some ⟨ascii "2.0", [], ascii "tools/call", interruptJSON⟩ else none
  toolCallParams raw :=
    if raw = interruptJSON then some ⟨ascii "interrupt", paneJSON⟩ else none
  glassesAnswer _ := none
  rfc3339 := Rfc3339.rfc3339Nano
  oauth := { OAuth.Endpoint.sampleServer with allowed := fun email => email = ascii "a@b" }
  glasses := false

/-- A request of the bearer of the token. -/
def sampleHttp : HttpRequest where
  authorization := ascii "Bearer acce55"
  method := ascii "POST"
  body := bodyJSON
  random := Vector.replicate 12 0
  snapshots := 0
  arrivals := []
  auditID := ascii "x"

/-- A request, with all that is done for it. -/
def interruptAt (r : Nat) : List (Occurrence Unit) :=
  .receive r sampleHttp :: List.replicate 2 (.advance (verifyCall r) .ok) ++ .serve r ::
    List.replicate 7 (.advance (serveCall r) .ok)

/-- The token is issued. -/
def issued : Occurrence Unit :=
  .external (sampleRpcServer.bearerPath sampleHttp.authorization) (some (.token sampleToken))

/-- Two interrupts, three seconds apart. -/
def interrupts : List (Occurrence Unit) :=
  issued :: interruptAt 0 ++ .tick (3 * second) :: interruptAt 1

theorem interrupts_within_limit :
    ∃ u, exec sampleRpcServer.step {} interrupts = some u ∧
      (served interrupts).map (u.queuedOn (ascii "a@b", ascii "input")) = [1, 1] ∧
      ((2 : ℕ) : ℚ) ≤ limitOf (ascii "input") +
        limitOf (ascii "input") * (reading u.clock - reading 0) / 60 := by
  have runs : (exec sampleRpcServer.step {} interrupts).map (fun u =>
      (served interrupts).map (u.queuedOn (ascii "a@b", ascii "input"))) = some [1, 1] := by
    decide +kernel
  obtain ⟨u, run, queued⟩ := Option.map_eq_some_iff.mp runs
  refine ⟨u, run, queued, ?_⟩
  have bound := @queued_within_limit Unit sampleRpcServer {} (ascii "a@b") (ascii "input")
    (by decide) [] interrupts [] {} u u rfl run rfl
  rw [queued] at bound
  exact bound

end Drover.Mcp

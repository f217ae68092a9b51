import Drover.Data.Separator
import Drover.Mcp.Tools
import Drover.Protocol.TokenBucket

/-!
# The rate limiter

`limiter` of `ratelimit.go`: a token bucket for each email and rate class.  A
class holds no `|`, so that a key belongs to one email and one class, and what
the calls of one key are told depends on these calls only.
-/

namespace Drover.Mcp

open Protocol (Bucket)

/-- The byte between the parts of a key. -/
def pipe : UInt8 := 0x7c

/-- The limits per minute. -/
def rateLimits : List (Bytes × Nat) :=
  [(ascii "read", 60), (ascii "input", 20), (ascii "control", 10), (ascii "admin", 3)]

/-- The limit of a class; one that is not in the table has the limit of `read`. -/
def limitOf (rateClass : Bytes) : Nat :=
  match rateLimits.lookup rateClass with
  | some limit => limit
  | none => (rateLimits.lookup (ascii "read")).getD 0

/-- A call of `allow` by a handler, with its reading of the clock in seconds. -/
structure Call where
  email : Bytes
  rateClass : Bytes
  clean : pipe ∉ rateClass
  now : ℚ

/-- `email + "|" + rateClass`. -/
def bucketKey (email rateClass : Bytes) : Bytes := email ++ pipe :: rateClass

/-- The key of the bucket that the call asks. -/
def Call.key (c : Call) : Bytes := bucketKey c.email c.rateClass

/-- `Limiter`: the buckets by their keys. -/
structure Limiter where
  buckets : Bytes → Option (Bucket ℚ)

/-- `NewLimiter`. -/
def newLimiter : Limiter := ⟨fun _ => none⟩

/-- `l.buckets[key] = b`. -/
def Limiter.put (l : Limiter) (key : Bytes) (b : Bucket ℚ) : Limiter where
  buckets k := if k = key then some b else l.buckets k

/-- `allow`, behind the lock. -/
def Limiter.allow (l : Limiter) (c : Call) : Bool × Limiter :=
  let limit : ℚ := limitOf c.rateClass
  let b := (l.buckets c.key).getD ⟨limit, c.now⟩
  let elapsed := c.now - b.lastFill
  let tokens := b.tokens + elapsed * (limit / 60)
  let tokens := if tokens > limit then limit else tokens
  if tokens < 1 then (false, l.put c.key ⟨tokens, c.now⟩)
  else (true, l.put c.key ⟨tokens - 1, c.now⟩)

/-- Calls in the order of the lock, with what they return. -/
def Limiter.answers : Limiter → List Call → List (Call × Bool)
  | _, [] => []
  | l, c :: calls => (c, (l.allow c).1) :: Limiter.answers (l.allow c).2 calls

/-- The limiter after the calls. -/
def Limiter.after (l : Limiter) (calls : List Call) : Limiter :=
  calls.foldl (fun l c => (l.allow c).2) l

/-- The classes of the tools hold no `|`. -/
theorem pipe_notMem_rateClass (tool : ToolName) : pipe ∉ tool.rateClass := by
  cases tool <;> decide

theorem bucketKey_inj {email email' rateClass rateClass' : Bytes} (clean : pipe ∉ rateClass)
    (clean' : pipe ∉ rateClass') :
    bucketKey email rateClass = bucketKey email' rateClass' ↔
      email = email' ∧ rateClass = rateClass' :=
  separated_inj_right clean' clean

/-! ## One bucket -/

/-- The bucket that a call finds, or the full one that it makes. -/
def Limiter.bucketOf (l : Limiter) (c : Call) : Bucket ℚ :=
  (l.buckets c.key).getD ⟨limitOf c.rateClass, c.now⟩

/-- A call's bucket at work. -/
def Call.serve (c : Call) (b : Bucket ℚ) : Bool × Bucket ℚ :=
  b.serve (limitOf c.rateClass) (limitOf c.rateClass / 60) c.now

/-- `allow` is a call of the key's token bucket. -/
theorem Limiter.allow_eq (l : Limiter) (c : Call) :
    l.allow c = ((c.serve (l.bucketOf c)).1, l.put c.key (c.serve (l.bucketOf c)).2) := by
  have capped : ∀ tokens limit : ℚ,
      (if tokens > limit then limit else tokens) = min tokens limit := by
    intro tokens limit
    split
    · rename_i more
      exact (min_eq_right (le_of_lt more)).symm
    · rename_i noMore
      exact (min_eq_left (not_lt.mp noMore)).symm
  have refilled : l.allow c =
      let b := (l.bucketOf c).refill (limitOf c.rateClass : ℚ) (limitOf c.rateClass / 60) c.now
      if b.tokens < 1 then (false, l.put c.key b)
      else (true, l.put c.key { b with tokens := b.tokens - 1 }) := by
    simp only [Limiter.allow, capped]
    rfl
  rw [refilled, Call.serve, Bucket.serve, Bucket.take]
  simp only
  split <;> rfl

theorem Limiter.put_self (l : Limiter) (key : Bytes) (b : Bucket ℚ) :
    (l.put key b).buckets key = some b := if_pos rfl

theorem Limiter.put_other (l : Limiter) {key other : Bytes} (different : other ≠ key)
    (b : Bucket ℚ) : (l.put key b).buckets other = l.buckets other := if_neg different

/-- A call leaves the buckets of other keys. -/
theorem Limiter.allow_other (l : Limiter) (c : Call) {key : Bytes} (different : c.key ≠ key) :
    (l.allow c).2.buckets key = l.buckets key := by
  rw [Limiter.allow_eq]
  exact l.put_other (Ne.symm different) _

theorem Limiter.allow_self (l : Limiter) (c : Call) :
    (l.allow c).2.buckets c.key = some (c.serve (l.bucketOf c)).2 := by
  rw [Limiter.allow_eq]
  exact l.put_self _ _

/-- What a call is told and what it leaves depend on its own bucket only. -/
theorem Limiter.allow_congr {l l' : Limiter} {c : Call}
    (same : l.buckets c.key = l'.buckets c.key) :
    (l.allow c).1 = (l'.allow c).1 ∧
      (l.allow c).2.buckets c.key = (l'.allow c).2.buckets c.key := by
  have sameBucket : l.bucketOf c = l'.bucketOf c := by rw [bucketOf, bucketOf, same]
  constructor
  · rw [Limiter.allow_eq, Limiter.allow_eq, sameBucket]
  · rw [Limiter.allow_self, Limiter.allow_self, sameBucket]

/-- The calls of a key are told what they would be told alone. -/
theorem Limiter.answers_filter {l l' : Limiter} {key : Bytes}
    (same : l.buckets key = l'.buckets key) (calls : List Call) :
    (l.answers calls).filter (fun p => p.1.key = key) =
      l'.answers (calls.filter fun c => c.key = key) := by
  induction calls generalizing l l' with
  | nil => rfl
  | cons c calls ih =>
      by_cases isKey : c.key = key
      · rw [List.filter_cons_of_pos (by simpa using isKey), Limiter.answers, Limiter.answers,
          List.filter_cons_of_pos (by simpa using isKey)]
        subst isKey
        obtain ⟨answer, kept⟩ := Limiter.allow_congr same
        rw [answer, ih kept]
      · rw [List.filter_cons_of_neg (by simpa using isKey), Limiter.answers,
          List.filter_cons_of_neg (by simpa using isKey)]
        exact ih ((l.allow_other c isKey).trans same)

/-! ## The bounds -/

theorem Call.rateClass_eq {c : Call} {email rateClass : Bytes} (clean : pipe ∉ rateClass)
    (isKey : c.key = bucketKey email rateClass) : c.rateClass = rateClass :=
  ((bucketKey_inj c.clean clean).mp isKey).2

/-- No bucket holds more than the limit of its class. -/
def Limiter.Capped (l : Limiter) : Prop :=
  ∀ email rateClass, pipe ∉ rateClass → ∀ b, l.buckets (bucketKey email rateClass) = some b →
    b.tokens ≤ limitOf rateClass

theorem Limiter.Capped.allow {l : Limiter} (capped : l.Capped) (c : Call) :
    (l.allow c).2.Capped := by
  intro email rateClass clean b found
  by_cases isKey : c.key = bucketKey email rateClass
  · rw [← isKey, Limiter.allow_self, Option.some.injEq] at found
    rw [← found, ← Call.rateClass_eq clean isKey]
    exact Bucket.tokens_le_cap _ _
  · rw [l.allow_other c isKey] at found
    exact capped email rateClass clean b found

theorem Limiter.Capped.after {l : Limiter} (capped : l.Capped) (calls : List Call) :
    (l.after calls).Capped := by
  induction calls generalizing l with
  | nil => exact capped
  | cons c calls ih => exact ih (capped.allow c)

/-- The calls of a key are told what its token bucket says. -/
theorem Limiter.answers_eq {l : Limiter} {email rateClass : Bytes} (clean : pipe ∉ rateClass)
    {calls : List Call} (ofKey : ∀ c ∈ calls, c.key = bucketKey email rateClass) {b : Bucket ℚ}
    (found : l.buckets (bucketKey email rateClass) = some b) :
    (l.answers calls).map Prod.snd =
      b.answers (limitOf rateClass : ℚ) (limitOf rateClass / 60) (calls.map Call.now) := by
  induction calls generalizing l b with
  | nil => rfl
  | cons c calls ih =>
      have isKey := ofKey c List.mem_cons_self
      have bucket : l.bucketOf c = b := by rw [bucketOf, isKey, found, Option.getD_some]
      have serves : c.serve b =
          b.serve (limitOf rateClass : ℚ) (limitOf rateClass / 60) c.now := by
        rw [Call.serve, Call.rateClass_eq clean isKey]
      have kept : (l.allow c).2.buckets (bucketKey email rateClass) = some (c.serve b).2 := by
        rw [← isKey, Limiter.allow_self, bucket]
      rw [Limiter.answers, List.map_cons, List.map_cons, Bucket.answers,
        ih (fun c mem => ofKey c (List.mem_cons_of_mem _ mem)) kept, Limiter.allow_eq, bucket,
        serves]

/-- The first call of a key makes a full bucket; any other finds one. -/
theorem Limiter.answers_cons_eq (l : Limiter) {email rateClass : Bytes} (clean : pipe ∉ rateClass)
    {c : Call} {calls : List Call}
    (ofKey : ∀ d ∈ c :: calls, d.key = bucketKey email rateClass) :
    (l.answers (c :: calls)).map Prod.snd =
      (l.bucketOf c).answers (limitOf rateClass : ℚ) (limitOf rateClass / 60)
        ((c :: calls).map Call.now) := by
  have isKey := ofKey c List.mem_cons_self
  have serves : c.serve (l.bucketOf c) =
      (l.bucketOf c).serve (limitOf rateClass : ℚ) (limitOf rateClass / 60) c.now := by
    rw [Call.serve, Call.rateClass_eq clean isKey]
  have kept := l.allow_self c
  rw [isKey] at kept
  rw [Limiter.answers, List.map_cons, List.map_cons, Bucket.answers,
    Limiter.answers_eq clean (fun d mem => ofKey d (List.mem_cons_of_mem _ mem)) kept,
    Limiter.allow_eq, serves]

theorem Limiter.map_fst_answers (l : Limiter) (calls : List Call) :
    (l.answers calls).map Prod.fst = calls := by
  induction calls generalizing l with
  | nil => rfl
  | cons c calls ih => rw [Limiter.answers, List.map_cons, ih]

/-- A run within a run is a run from the state that the calls before it leave. -/
theorem Limiter.answers_eq_append {l : Limiter} {calls : List Call}
    {front back : List (Call × Bool)} (whole : l.answers calls = front ++ back) :
    ∃ before later, calls = before ++ later ∧ l.answers before = front ∧
      (l.after before).answers later = back := by
  induction front generalizing l calls with
  | nil => exact ⟨[], calls, rfl, rfl, whole⟩
  | cons p front ih =>
      cases calls with
      | nil => cases whole
      | cons c calls =>
          obtain ⟨first, rest⟩ := List.cons.inj whole
          obtain ⟨before, later, rfl, isFront, isBack⟩ := ih rest
          exact ⟨c :: before, later, rfl, by rw [Limiter.answers, first, isFront], isBack⟩

theorem countP_eq_count (answered : List (Call × Bool)) :
    answered.countP Prod.snd = (answered.map Prod.snd).count true := by
  induction answered with
  | nil => rfl
  | cons p answered ih =>
      rw [List.countP_cons, List.map_cons, List.count_cons, ih]
      cases p.2 <;> rfl

/-- Calls of a key that end with an allowed one. -/
theorem Limiter.count_answers_le (l : Limiter) {email rateClass : Bytes} (clean : pipe ∉ rateClass)
    {calls : List Call} (ofKey : ∀ c ∈ calls, c.key = bucketKey email rateClass)
    {first last : Call} (isFirst : calls.head? = some first)
    (isLast : (l.answers calls).getLast? = some (last, true)) :
    ((l.answers calls).countP Prod.snd : ℚ) ≤
      limitOf rateClass + limitOf rateClass * (last.now - first.now) / 60 := by
  cases calls with
  | nil => cases isFirst
  | cons c later =>
      obtain rfl := Option.some.inj isFirst
      have told := l.answers_cons_eq clean ofKey
      have lastCall : (c :: later).getLast? = some last := by
        rw [← l.map_fst_answers (c :: later), List.getLast?_map, isLast, Option.map_some]
      have lastReading : ((c :: later).map Call.now).getLast? = some last.now := by
        rw [List.getLast?_map, lastCall, Option.map_some]
      have lastAnswer : ((l.bucketOf c).answers (limitOf rateClass : ℚ) (limitOf rateClass / 60)
          ((c :: later).map Call.now)).getLast? = some true := by
        rw [← told, List.getLast?_map, isLast, Option.map_some]
      rw [countP_eq_count, told]
      calc _ ≤ (limitOf rateClass : ℚ) + (last.now - c.now) * (limitOf rateClass / 60) :=
            Bucket.count_answers_le (l.bucketOf c) lastReading lastAnswer
        _ = _ := by ring

/-- The rate limit.  For every email and class: no bucket holds more than the
limit; in a run of the key's calls that ends with an allowed one, no more are
allowed than the limit and what it yields between the first reading and the
last; and the calls of other keys change nothing. -/
theorem rate_limit {email rateClass : Bytes} (clean : pipe ∉ rateClass) (calls : List Call) :
    (∀ b, (newLimiter.after calls).buckets (bucketKey email rateClass) = some b →
      b.tokens ≤ limitOf rateClass) ∧
    (∀ prior run rest first last,
      (newLimiter.answers calls).filter (fun p => p.1.key = bucketKey email rateClass) =
        prior ++ run ++ rest →
      (run.map Prod.fst).head? = some first → run.getLast? = some (last, true) →
        (run.countP Prod.snd : ℚ) ≤
          limitOf rateClass + limitOf rateClass * (last.now - first.now) / 60) ∧
    (newLimiter.answers calls).filter (fun p => p.1.key = bucketKey email rateClass) =
      newLimiter.answers (calls.filter fun c => c.key = bucketKey email rateClass) := by
  have alone :
      (newLimiter.answers calls).filter (fun p => p.1.key = bucketKey email rateClass) =
        newLimiter.answers (calls.filter fun c => c.key = bucketKey email rateClass) :=
    Limiter.answers_filter rfl calls
  constructor
  · have capped : newLimiter.Capped := fun _ _ _ b found => by cases found
    exact fun b found => capped.after calls email rateClass clean b found
  · constructor
    · intro prior run rest first last whole isFirst isLast
      rw [alone] at whole
      obtain ⟨before, later, split, isBefore, -⟩ := Limiter.answers_eq_append whole
      obtain ⟨earlier, inRun, rfl, -, rfl⟩ := Limiter.answers_eq_append isBefore
      have ofKey : ∀ c ∈ inRun, c.key = bucketKey email rateClass := by
        intro c mem
        have inKeyed : c ∈ calls.filter fun c => c.key = bucketKey email rateClass :=
          split ▸ List.mem_append_left _ (List.mem_append_right _ mem)
        exact of_decide_eq_true (List.mem_filter.mp inKeyed).2
      rw [Limiter.map_fst_answers] at isFirst
      exact Limiter.count_answers_le _ clean ofKey isFirst isLast
    · exact alone

/-- A call of the class `admin`. -/
def adminCall (now : ℚ) : Call := ⟨ascii "o@example.com", ascii "admin", by decide, now⟩

/-- Three calls at once and one after twenty seconds use up the bound. -/
theorem rate_limit_admin :
    ((newLimiter.answers [adminCall 0, adminCall 0, adminCall 0, adminCall 20]).countP Prod.snd : ℚ)
      ≤ 3 + 3 * (20 - 0) / 60 := by
  have allowed : ((newLimiter.after [adminCall 0, adminCall 0, adminCall 0]).allow
      (adminCall 20)).1 = true := by decide +kernel
  exact (@rate_limit (ascii "o@example.com") (ascii "admin") (by decide)
    [adminCall 0, adminCall 0, adminCall 0, adminCall 20]).2.1 []
    (newLimiter.answers [adminCall 0, adminCall 0, adminCall 0, adminCall 20]) []
    (adminCall 0) (adminCall 20) rfl rfl (congrArg (fun b => some (adminCall 20, b)) allowed)

end Drover.Mcp

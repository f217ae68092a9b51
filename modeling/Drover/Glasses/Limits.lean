import Drover.Glasses.Access
import Drover.Protocol.FixedWindow

/-!
# The rate limits of the glasses

Behind its checks, `ServeHTTP` counts a request by the address of its client in one
of three limiters: that of the answers, that of `serveAsk` or that of `serveChat`.  A
limiter is a fixed window for each client, so what a client is told depends on its
own requests with the right token only, and no other request uses its limit up.
-/

namespace Drover.Glasses

open Drover.Protocol (Window)

/-! ## Clients -/

/-- The byte before a port. -/
def colon : UInt8 := 0x3a

/-- The byte before an IPv6 address. -/
def openBracket : UInt8 := 0x5b

/-- The byte behind an IPv6 address. -/
def closeBracket : UInt8 := 0x5d

/-- What stands before and after the last separator. -/
def cutLast (sep : UInt8) (s : Bytes) : Option (Bytes × Bytes) :=
  if sep ∈ s then
    some ((s.reverse.dropWhile (· != sep)).tail.reverse, (s.reverse.takeWhile (· != sep)).reverse)
  else none

/-- Some byte is a bracket. -/
def hasBracket (s : Bytes) : Bool := s.any fun b => b = openBracket || b = closeBracket

/-- `net.SplitHostPort`: the host in brackets, or one without colons. -/
def splitHostPort (hostPort : Bytes) : Option (Bytes × Bytes) :=
  match cutLast colon hostPort with
  | none => none
  | some (front, port) =>
      if front.head? = some openBracket then
        if front.tail.getLast? = some closeBracket ∧ hasBracket front.tail.dropLast = false ∧
            hasBracket port = false then
          some (front.tail.dropLast, port)
        else none
      else if colon ∈ front ∨ hasBracket hostPort = true then none
      else some (front, port)

/-- `clientKey`. -/
def clientKey (remoteAddr : Bytes) : Bytes :=
  match splitHostPort remoteAddr with
  | some (host, _) => if host ≠ [] then host else remoteAddr
  | none => remoteAddr

/-- `net.JoinHostPort`, which writes the addresses of clients. -/
def joinHostPort (host port : Bytes) : Bytes :=
  if colon ∈ host then openBracket :: (host ++ closeBracket :: colon :: port)
  else host ++ colon :: port

theorem cutLast_append {sep : UInt8} (before : Bytes) {after : Bytes} (clean : sep ∉ after) :
    cutLast sep (before ++ sep :: after) = some (before, after) := by
  have other : ∀ b ∈ after.reverse, (b != sep) = true := by
    intro b mem
    rw [bne_iff_ne]
    rintro rfl
    exact clean (List.mem_reverse.mp mem)
  have isReverse : (before ++ sep :: after).reverse = after.reverse ++ sep :: before.reverse := by
    rw [List.reverse_append, List.reverse_cons, List.append_assoc, List.singleton_append]
  rw [cutLast, if_pos (List.mem_append_right _ List.mem_cons_self), isReverse,
    List.dropWhile_append_of_pos other, List.takeWhile_append_of_pos other,
    List.dropWhile_cons_of_neg (by simp), List.takeWhile_cons_of_neg (by simp), List.append_nil,
    List.tail_cons, List.reverse_reverse, List.reverse_reverse]

theorem hasBracket_append (s t : Bytes) : hasBracket (s ++ t) = (hasBracket s || hasBracket t) :=
  List.any_append

/-- A client has one key, whatever its port. -/
theorem clientKey_joinHostPort {host port : Bytes} (named : host ≠ [])
    (plainHost : hasBracket host = false) (plainPort : hasBracket port = false)
    (clean : colon ∉ port) : clientKey (joinHostPort host port) = host := by
  have split : splitHostPort (joinHostPort host port) = some (host, port) := by
    rw [splitHostPort, joinHostPort]
    by_cases v6 : colon ∈ host
    · have front : openBracket :: (host ++ closeBracket :: colon :: port) =
          (openBracket :: (host ++ [closeBracket])) ++ colon :: port := by simp
      rw [if_pos v6, front, cutLast_append _ clean]
      simp only [List.head?_cons, List.tail_cons, List.getLast?_concat, List.dropLast_concat,
        plainHost, plainPort, and_self, if_true]
    · have whole : hasBracket (host ++ colon :: port) = false := by
        rw [hasBracket_append, plainHost, Bool.false_or, ← plainPort]
        rfl
      have notBracket : host.head? ≠ some openBracket := by
        intro isHead
        have found : hasBracket host = true :=
          List.any_eq_true.mpr ⟨openBracket, List.mem_of_mem_head? isHead, by decide⟩
        cases plainHost.symm.trans found
      rw [if_neg v6, cutLast_append _ clean]
      simp only [if_neg notBracket, whole, v6, Bool.false_eq_true, or_self, if_false]
  rw [clientKey, split]
  exact if_pos named

/-! ## Limiters -/

/-- `rateLimiter`. -/
structure RateLimiter where
  limit : Nat
  window : Nat
  seen : Bytes → Option (Window Nat)

/-- `rateLimitPerMin`. -/
def rateLimitPerMin : Nat := 120

/-- `newRateLimiter`. -/
def newRateLimiter (perMin : Nat) : RateLimiter := ⟨perMin, minute, fun _ => none⟩

/-- `l.seen[key] = e`. -/
def RateLimiter.put (l : RateLimiter) (key : Bytes) (e : Window Nat) : RateLimiter :=
  { l with seen := fun k => if k = key then some e else l.seen k }

/-- `allow`, behind the lock. -/
def RateLimiter.allow (l : RateLimiter) (key : Bytes) (now : Nat) : Bool × RateLimiter :=
  match l.seen key with
  | none => (true, l.put key ⟨1, now + l.window⟩)
  | some e =>
      if e.resetAt < now then (true, l.put key ⟨1, now + l.window⟩)
      else (e.count + 1 ≤ l.limit, l.put key ⟨e.count + 1, e.resetAt⟩)

/-- `allow` is a call of the key's window. -/
theorem RateLimiter.allow_eq (l : RateLimiter) (key : Bytes) (now : Nat) :
    l.allow key now =
      ((Window.serve l.limit l.window (l.seen key) now).1,
        l.put key (Window.serve l.limit l.window (l.seen key) now).2) := by
  rw [allow]
  cases l.seen key with
  | none => rfl
  | some e =>
      simp only [Window.serve]
      split <;> rfl

/-- The limiter that counts the requests of an endpoint. -/
inductive LimiterName where
  | rl
  | askRL
  | chatRL
  deriving DecidableEq

/-- The limiter that the endpoint asks. -/
def Endpoint.limiter : Endpoint → LimiterName
  | .answers | .ack | .answer => .rl
  | .ask | .reply => .askRL
  | .chat | .chatRecent => .chatRL

/-- The three limiters of a handler. -/
abbrev Limits := LimiterName → RateLimiter

/-- The limiters of `NewHandler`, `EnableAsk` and `EnableChat`. -/
def newLimits : Limits := fun _ => newRateLimiter rateLimitPerMin

/-! ## Requests -/

/-- A request, and the reading of the clock with which it is counted. -/
structure Incoming where
  path : Bytes
  method : Bytes
  authorization : Bytes
  remoteAddr : Bytes
  now : Nat

/-- What becomes of a request. -/
inductive Fate where
  | refused (why : Admission)
  | rateLimited
  | handled (endpoint : Endpoint)

/-- The request has come to its handler. -/
def Fate.isHandled : Fate → Bool
  | .handled _ => true
  | _ => false

/-- `ServeHTTP`, up to its handlers. -/
def Access.serve (h : Access) (limits : Limits) (r : Incoming) : Fate × Limits :=
  match h.serveHTTP r.path r.method r.authorization,
      endpoints.find? fun endpoint => endpoint.path == r.path with
  | .admitted, some endpoint =>
      let (allowed, l) := (limits endpoint.limiter).allow (clientKey r.remoteAddr) r.now
      (if allowed then .handled endpoint else .rateLimited,
        Function.update limits endpoint.limiter l)
  | why, _ => (.refused why, limits)

/-- Requests in the order of the locks, and what becomes of them. -/
def Access.fates (h : Access) : Limits → List Incoming → List (Incoming × Fate)
  | _, [] => []
  | limits, r :: rs => (r, (h.serve limits r).1) :: h.fates (h.serve limits r).2 rs

/-- The request passes the checks in front of the limiter, and is one of the client. -/
def Access.Counts (h : Access) (name : LimiterName) (key : Bytes) (r : Incoming) : Prop :=
  h.serveHTTP r.path r.method r.authorization = .admitted ∧
    ((endpoints.find? fun endpoint => endpoint.path == r.path).map Endpoint.limiter) = some name ∧
      clientKey r.remoteAddr = key

instance (h : Access) (name : LimiterName) (key : Bytes) : DecidablePred (h.Counts name key) :=
  fun _ => inferInstanceAs (Decidable (_ ∧ _ ∧ _))

/-- Every limiter has the limit and the window that it was made with. -/
def Limits.Sized (limits : Limits) : Prop :=
  ∀ name, (limits name).limit = rateLimitPerMin ∧ (limits name).window = minute

section

variable {h : Access} {name : LimiterName} {key : Bytes} {r : Incoming}

theorem Access.serve_of_counts (counts : h.Counts name key r) :
    ∃ endpoint, ∀ limits, h.serve limits r =
      (if ((limits name).allow key r.now).1 then .handled endpoint else .rateLimited,
        Function.update limits name ((limits name).allow key r.now).2) := by
  obtain ⟨admitted, isName, isKey⟩ := counts
  obtain ⟨endpoint, found, rfl⟩ := Option.map_eq_some_iff.mp isName
  refine ⟨endpoint, fun limits => ?_⟩
  rw [serve, admitted, found, isKey]

/-- A request that counts is served by the client's window. -/
theorem Access.serve_window (counts : h.Counts name key r) {limits : Limits}
    (sized : limits.Sized) :
    (h.serve limits r).1.isHandled =
        (Window.serve rateLimitPerMin minute ((limits name).seen key) r.now).1 ∧
      ((h.serve limits r).2 name).seen key =
        some (Window.serve rateLimitPerMin minute ((limits name).seen key) r.now).2 := by
  obtain ⟨endpoint, served⟩ := h.serve_of_counts counts
  rw [served, RateLimiter.allow_eq, (sized name).1, (sized name).2]
  constructor
  · simp only
    split <;> rename_i allowed
    · exact allowed.symm
    · exact (Bool.not_eq_true _ ▸ allowed).symm
  · simp only [Function.update_self]
    exact if_pos rfl

/-- A request that does not count leaves the client's window. -/
theorem Access.seen_of_not_counts (other : ¬ h.Counts name key r) (limits : Limits) :
    ((h.serve limits r).2 name).seen key = (limits name).seen key := by
  rw [serve]
  split
  · rename_i endpoint admitted found
    simp only
    by_cases same : endpoint.limiter = name
    · subst same
      rw [Function.update_self, RateLimiter.allow_eq]
      refine if_neg fun isKey => other ⟨admitted, ?_, isKey.symm⟩
      rw [found]
      rfl
    · rw [Function.update_of_ne (Ne.symm same)]
  · rfl

theorem Limits.Sized.serve {limits : Limits} (sized : limits.Sized) (h : Access) (r : Incoming) :
    Limits.Sized (h.serve limits r).2 := by
  rw [Access.serve]
  split
  · rename_i endpoint admitted found
    intro name
    simp only
    by_cases same : name = endpoint.limiter
    · subst same
      rw [Function.update_self, RateLimiter.allow_eq]
      exact sized endpoint.limiter
    · rw [Function.update_of_ne same]
      exact sized name
  · exact sized

/-! ## Runs -/

/-- What becomes of a client's requests is what would become of them alone. -/
theorem Access.fates_filter {limits limits' : Limits} (sized : limits.Sized)
    (sized' : limits'.Sized) (same : (limits name).seen key = (limits' name).seen key)
    (rs : List Incoming) :
    (h.fates limits rs).filter (fun p => h.Counts name key p.1) =
      h.fates limits' (rs.filter fun r => h.Counts name key r) := by
  induction rs generalizing limits limits' with
  | nil => rfl
  | cons r rs ih =>
      by_cases counts : h.Counts name key r
      · obtain ⟨endpoint, served⟩ := h.serve_of_counts counts
        have allows : ((limits name).allow key r.now).1 = ((limits' name).allow key r.now).1 := by
          rw [RateLimiter.allow_eq, RateLimiter.allow_eq, same, (sized name).1, (sized name).2,
            (sized' name).1, (sized' name).2]
        have fate : (h.serve limits r).1 = (h.serve limits' r).1 := by
          rw [served, served, allows]
        have after : ((h.serve limits r).2 name).seen key =
            ((h.serve limits' r).2 name).seen key := by
          rw [(h.serve_window counts sized).2, (h.serve_window counts sized').2, same]
        rw [fates, List.filter_cons_of_pos (by simpa using counts),
          List.filter_cons_of_pos (by simpa using counts), fates, fate,
          ih (sized.serve h r) (sized'.serve h r) after]
      · rw [fates, List.filter_cons_of_neg (by simpa using counts),
          List.filter_cons_of_neg (by simpa using counts)]
        exact ih (sized.serve h r) sized' ((h.seen_of_not_counts counts limits).trans same)

/-- The readings of the clock. -/
def readings (told : List (Incoming × Fate)) : List Nat := told.map fun p => p.1.now

/-- Which requests were handled. -/
def handled (told : List (Incoming × Fate)) : List Bool := told.map fun p => p.2.isHandled

theorem Access.handled_fates {limits : Limits} (sized : limits.Sized) {rs : List Incoming}
    (counts : ∀ r ∈ rs, h.Counts name key r) :
    handled (h.fates limits rs) =
      Window.answers rateLimitPerMin minute ((limits name).seen key)
        (readings (h.fates limits rs)) := by
  induction rs generalizing limits with
  | nil => rfl
  | cons r rs ih =>
      obtain ⟨isFirst, isRest⟩ := List.forall_mem_cons.mp counts
      obtain ⟨fate, after⟩ := h.serve_window isFirst sized
      have rest := ih (sized.serve h r) isRest
      rw [after] at rest
      rw [fates, handled, List.map_cons, ← handled, readings, List.map_cons, ← readings,
        Window.answers, fate, rest]

theorem countP_isHandled (told : List (Incoming × Fate)) :
    told.countP (fun p => p.2.isHandled) = (handled told).count true := by
  rw [handled, List.count, List.countP_map]
  congr 1
  funext p
  simp

/-- A part of a client's requests is served by the window that those before it leave. -/
theorem handled_part {own front back : List (Incoming × Fate)}
    (isOwn : handled own = Window.answers rateLimitPerMin minute none (readings own))
    (split : own = front ++ back) :
    handled front = Window.answers rateLimitPerMin minute none (readings front) ∧
      handled back = Window.answers rateLimitPerMin minute
        (Window.after rateLimitPerMin minute none (readings front)) (readings back) := by
  subst split
  rw [handled, List.map_append, ← handled, ← handled, readings, List.map_append, ← readings,
    ← readings, Window.answers_append] at isOwn
  have same : (handled front).length =
      (Window.answers rateLimitPerMin minute none (readings front)).length := by
    rw [Window.length_answers, handled, readings, List.length_map, List.length_map]
  exact List.append_inj isOwn same

/-- The rate limits.  For every limiter and client, of the requests that are
neither refused nor counted elsewhere: within `n` minutes no more are handled than
`n + 1` times the limit; one is told to wait only if the limit has been handled
since one no more than a minute before; and all other requests change nothing. -/
theorem requests_limited (h : Access) (name : LimiterName) (key : Bytes) (rs : List Incoming) :
    (∀ prior run rest start n,
      (h.fates newLimits rs).filter (fun p => h.Counts name key p.1) = prior ++ run ++ rest →
      (∀ p ∈ run, start ≤ p.1.now ∧ p.1.now ≤ start + n * minute) →
        run.countP (fun p => p.2.isHandled) ≤ (n + 1) * rateLimitPerMin) ∧
    (∀ prior p rest,
      (h.fates newLimits rs).filter (fun p => h.Counts name key p.1) = prior ++ p :: rest →
      p.2.isHandled = false →
        ∃ before first since, prior = before ++ first :: since ∧
          p.1.now ≤ first.1.now + minute ∧
            (first :: since).countP (fun p => p.2.isHandled) = rateLimitPerMin) ∧
    (h.fates newLimits rs).filter (fun p => h.Counts name key p.1) =
      h.fates newLimits (rs.filter fun r => h.Counts name key r) := by
  have sized : newLimits.Sized := fun _ => ⟨rfl, rfl⟩
  have alone : (h.fates newLimits rs).filter (fun p => h.Counts name key p.1) =
      h.fates newLimits (rs.filter fun r => h.Counts name key r) :=
    h.fates_filter sized sized rfl rs
  have counts : ∀ r ∈ rs.filter fun r => h.Counts name key r, h.Counts name key r :=
    fun r mem => of_decide_eq_true (List.mem_filter.mp mem).2
  have isOwn := h.handled_fates sized counts
  have positive : 0 < rateLimitPerMin := by decide
  rw [alone]
  refine ⟨?_, ?_, rfl⟩
  · intro prior run rest start n split within
    have before := (handled_part isOwn split).1
    rw [countP_isHandled, (handled_part before rfl).2]
    apply Window.count_answers_le positive (Nat.zero_le _) _ n
    intro now mem
    obtain ⟨p, inRun, rfl⟩ := List.mem_map.mp mem
    exact within p inRun
  · intro prior p rest split refused
    obtain ⟨front, back⟩ := handled_part isOwn split
    have first : p.2.isHandled = (Window.serve rateLimitPerMin minute
        (Window.after rateLimitPerMin minute none (readings prior)) p.1.now).1 :=
      (List.cons.inj back).1
    obtain ⟨before, opened, since, isPrior, early, full⟩ :=
      Window.exists_full_of_refused positive (first.symm.trans refused)
    obtain ⟨toldBefore, toldSince, rfl, rfl, isSince⟩ := List.map_eq_append_iff.mp isPrior
    obtain ⟨q, told, rfl, rfl, rfl⟩ := List.map_eq_cons_iff.mp isSince
    refine ⟨toldBefore, q, told, rfl, early, ?_⟩
    rw [countP_isHandled, (handled_part front rfl).2]
    exact full

end

end Drover.Glasses

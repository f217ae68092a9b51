import Drover.Store.Calls

/-!
# Where parts of documents come from

Most operations that write a document only carry on a part of it: what marks a
command as claimed keeps what was asked for.  If each operation carries the part on
or has a reason for a new one, then each part that is stored, and each that a call
was shown, goes back to a call that had a reason for it.
-/

namespace Drover.Store

open Drover.Transition

variable {ι δ ε η ρ κ : Type}

/-- The part in a document that the operation writes was in the document before, or
in the one that it read there, or there is a reason for it. -/
def Op.Carries (part : δ → Option κ) (just : Path → κ → Prop) : Op δ ε η → Prop
  | .write path change =>
      ∀ old d k, change old = some d → part d = some k → old.bind part = some k ∨ just path k
  | .transact path target change =>
      ∀ snap f old d k, change snap = some f → f old = some d → part d = some k →
        old.bind part = some k ∨ just target k ∨
          path = target ∧ ∃ d', snap = .found d' ∧ part d' = some k
  | _ => True

/-- The result shows a document with the part. -/
def Event.Shows (part : δ → Option κ) (path : Path) (k : κ) : Event δ ε η → Prop
  | ⟨_, .get path', .found d⟩ => path' = path ∧ part d = some k
  | ⟨_, .list col, some docs⟩ => ∃ id d, (id, d) ∈ docs ∧ docPath col id = path ∧ part d = some k
  | ⟨_, .transact path' _ _, (.found d, _)⟩ => path' = path ∧ part d = some k
  | _ => False

/-- The part is from outside, or a call that has done `past` by the time `time` had a
reason for it. -/
def Origin (outside : Path → κ → Prop) (just : ι → List (Event δ ε η) → Path → κ → Prop)
    (calls : Nat → Option (Call ι δ ε η ρ)) (time : Nat) (path : Path) (k : κ) : Prop :=
  outside path k ∨ ∃ r c past, calls r = some c ∧ past <:+ c.past ∧
    (∀ e ∈ past, e.time ≤ time) ∧ just c.input past path k

/-- Every part that is stored, or was shown to a call, has its origin. -/
structure Traced (part : δ → Option κ) (outside : Path → κ → Prop)
    (just : ι → List (Event δ ε η) → Path → κ → Prop) (s : State ι δ ε η ρ) : Prop where
  docs : ∀ path d k, s.machine.docs[path]? = some d → part d = some k →
    Origin outside just s.calls s.machine.clock path k
  shown : ∀ r c, s.calls r = some c → ∀ e ∈ c.past, ∀ path k, e.Shows part path k →
    Origin outside just s.calls e.time path k

/-- An external write carries the part on, or brings one from outside. -/
def Label.Carries (part : δ → Option κ) (outside : Path → κ → Prop) (s : State ι δ ε η ρ) :
    Label ι δ → Prop
  | .external path (some d) =>
      ∀ k, part d = some k → s.machine.docs[path]?.bind part = some k ∨ outside path k
  | _ => True

section

variable {part : δ → Option κ} {outside : Path → κ → Prop}
  {just : ι → List (Event δ ε η) → Path → κ → Prop} {ends : ι → List (Event δ ε η) → ρ → Prop}
  {handler : ι → Prog δ ε η ρ} {s s' : State ι δ ε η ρ} {m : Machine δ ε η} {path : Path} {k : κ}

theorem Origin.mono {calls calls' : Nat → Option (Call ι δ ε η ρ)} {time time' : Nat}
    (longer : Extends calls calls') (le : time ≤ time')
    (origin : Origin outside just calls time path k) :
    Origin outside just calls' time' path k := by
  apply origin.imp id
  rintro ⟨r, c, past, running, suffix, before, justified⟩
  obtain ⟨c', running', sameInput, goesOn⟩ := longer r c running
  refine ⟨r, c', past, running', suffix.trans goesOn,
    fun e mem => Nat.le_trans (before e mem) le, ?_⟩
  rw [sameInput]
  exact justified

theorem Op.Carries.imp {good better : Path → κ → Prop} {o : Op δ ε η}
    (carries : o.Carries part good) (weaken : ∀ path k, good path k → better path k) :
    o.Carries part better := by
  cases o with
  | get | list | lookup | remember | forget | now | emit => exact trivial
  | write path change =>
      exact fun old d k isNew has => (carries old d k isNew has).imp_right (weaken path k)
  | transact path target change =>
      exact fun snap f old d k isChange isNew has =>
        (carries snap f old d k isChange isNew has).imp_right (.imp_left (weaken target k))

/-- What an operation leaves in the store. -/
theorem Op.Carries.after {good : Path → κ → Prop} {o : Op δ ε η} (carries : o.Carries part good)
    {choice : Choice} {d : δ} (found : (m.after choice o).docs[path]? = some d)
    (has : part d = some k) : m.docs[path]?.bind part = some k ∨ good path k := by
  have unchanged (found : m.docs[path]? = some d) : m.docs[path]?.bind part = some k := by
    rw [found, Option.bind_some, has]
  have changed (target : Path) (f : Option δ → Option δ)
      (written : ∀ old, m.docs[target]? = old → f old = some d →
        old.bind part = some k ∨ good target k)
      (found : (changeDocument m.docs choice.write target f)[path]? = some d) :
      m.docs[path]?.bind part = some k ∨ good path k := by
    by_cases same : path = target
    · rw [same, changeDocument_same] at found
      rw [same] at unchanged ⊢
      split at found
      · exact written _ rfl found
      · exact .inl (unchanged found)
    · rw [changeDocument_of_ne same] at found
      exact .inl (unchanged found)
  cases o with
  | get | list | lookup | remember | forget | now | emit => exact .inl (unchanged found)
  | write target f =>
      exact changed target f (fun old _ isNew => carries old d k isNew has) found
  | transact source target f =>
      change (m.transaction choice source target f)[path]? = some d at found
      rw [Machine.transaction] at found
      split at found
      · exact .inl (unchanged found)
      · rename_i change isChange
        refine changed target change (fun old isOld isNew => ?_) found
        rcases carries _ change old d k isChange isNew has with
          carried | reason | ⟨rfl, d', isRead, carried⟩
        · exact .inl carried
        · exact .inr reason
        · rw [← isOld, (readDocument_eq_found_iff.mp isRead).2, Option.bind_some]
          exact .inl carried

/-- What a result shows is stored. -/
theorem Machine.shows_event {choice : Choice} {o : Op δ ε η}
    (shows_ : (m.event choice o).Shows part path k) :
    ∃ d, m.docs[path]? = some d ∧ part d = some k := by
  cases o with
  | get path' =>
      cases read : readDocument m.docs choice.read path' with
      | failed | absent => simp [event, result, read, Event.Shows] at shows_
      | found d =>
          simp only [event, result, read, Event.Shows] at shows_
          exact ⟨d, shows_.1 ▸ (readDocument_eq_found_iff.mp read).2, shows_.2⟩
  | list col =>
      cases read : choice.read with
      | false => simp [event, result, read, Event.Shows] at shows_
      | true =>
          simp only [event, result, read, if_true, Event.Shows] at shows_
          obtain ⟨id, d, mem, rfl, has⟩ := shows_
          exact ⟨d, (mem_listDocuments.mp mem).1, has⟩
  | transact path' target change =>
      cases read : readDocument m.docs choice.read path' with
      | failed | absent => simp [event, result, read, Event.Shows] at shows_
      | found d =>
          simp only [event, result, read, Event.Shows] at shows_
          exact ⟨d, shows_.1 ▸ (readDocument_eq_found_iff.mp read).2, shows_.2⟩
  | write | lookup | remember | forget | now | emit => exact shows_.elim

/-- A part that was there has its origin after the step too. -/
theorem Traced.bind (traced : Traced part outside just s) (longer : Extends s.calls s'.calls)
    (later : s.machine.clock ≤ s'.machine.clock)
    (stored : s.machine.docs[path]?.bind part = some k) :
    Origin outside just s'.calls s'.machine.clock path k := by
  obtain ⟨d, found, has⟩ := Option.bind_eq_some_iff.mp stored
  exact (traced.docs path d k found has).mono longer later

theorem Traced.step {label : Label ι δ} (traced : Traced part outside just s)
    (follows : s.Follows (fun input past o => o.Carries part (just input past)) ends)
    (dated : s.Dated) (carries : label.Carries part outside s)
    (taken : step handler s label = some s') : Traced part outside just s' := by
  have longer := extends_of_step taken
  have later := clock_le_of_step taken
  constructor
  · intro path d k found has
    have stored (unchanged : s.machine.docs[path]? = some d) :=
      (traced.docs path d k unchanged has).mono longer later
    cases stepped_of_step taken with
    | tick | begin => exact stored found
    | external target doc =>
        change (changeDocument s.machine.docs .ok target fun _ => doc)[path]? = some d at found
        by_cases same : path = target
        · rw [same, changeDocument_same] at found
          cases found
          rw [same]
          rcases carries k has with carried | outside_
          · exact traced.bind longer later carried
          · exact .inl outside_
        · rw [changeDocument_of_ne same] at found
          exact stored found
    | @advance r c o next choice running isOp =>
        have along := follows r c running
        rw [isOp] at along
        rcases along.1.after found has with carried | reason
        · exact traced.bind longer later carried
        · refine .inr ⟨r, _, c.past, Function.update_self .., List.suffix_cons _ _, ?_, reason⟩
          exact fun e mem => Nat.le_trans (dated r c running e mem) later
  · intro r c running e mem path k shows_
    rcases calls_of_step taken running with
      old | ⟨input, -, -, rfl⟩ | ⟨c, choice, o, next, -, old, -, rfl, rfl⟩
    · exact (traced.shown r c old e mem path k shows_).mono longer (Nat.le_refl _)
    · cases mem
    · rcases List.mem_cons.mp mem with rfl | mem
      · obtain ⟨d, found, has⟩ := Machine.shows_event shows_
        exact (traced.docs path d k found has).mono longer (Nat.le_refl _)
      · exact (traced.shown r c old e mem path k shows_).mono longer (Nat.le_refl _)

theorem Traced.start : Traced part outside just ({} : State ι δ ε η ρ) := by
  constructor
  · intro path d k found
    rw [Std.ExtTreeMap.getElem?_empty] at found
    cases found
  · intro r c running
    cases running

end

end Drover.Store

import Drover.Data.Select
import Drover.Glasses.Chat
import Drover.Store.Interference
import Mathlib.Data.List.Induction

/-!
# The newest lines

`RecentChat` takes the newest lines and drops the expired ones only then, where the store of
the tests first drops them and then takes the newest.  `recentChat_newest_iff` says when
either of them returns the newest lines that have not expired.
-/

namespace Drover.Glasses

open Drover.Store

/-- The first line is not older than the second one. -/
def ChatItem.Newer (x y : ChatItem) : Prop := y.ts ≤ x.ts

instance : DecidableRel ChatItem.Newer := fun _ _ => inferInstanceAs (Decidable (_ ≤ _))
instance : Std.Total ChatItem.Newer := ⟨fun x y => Int.le_total y.ts x.ts⟩
instance : IsTrans ChatItem ChatItem.Newer := ⟨fun _ _ _ le le' => Int.le_trans le' le⟩

/-! ## Firestore -/

/-- A stored line as it is returned. -/
def chatItem (p : Bytes × StoredChat) : ChatItem := ⟨p.1, p.2.role, p.2.kind, p.2.text, p.2.ts⟩

/-- A line that the query may find. -/
def isSince (since : Int) (p : Bytes × StoredChat) : Bool := since ≤ 0 || since ≤ p.2.ts

/-- The item has not expired. -/
def isLive (now : Nat) (p : Bytes × StoredChat) : Bool := now < p.2.expireAt

/-- The lines that have not expired and are not before the time asked for. -/
def liveLines (since : Int) (docs : List (Bytes × Doc)) (now : Nat) : List ChatItem :=
  (((chatsOf docs).filter (isSince since)).filter (isLive now)).map chatItem

/-- The query of `RecentChat` without its limit. -/
def newestFirst (since : Int) (docs : List (Bytes × Doc)) : List (Bytes × StoredChat) :=
  ((chatsOf docs).reverse.filter (isSince since)).insertionSort fun p q => q.2.ts ≤ p.2.ts

/-- Those of them that `RecentChat` drops without a reason, as they have no text, or does not
fetch. -/
def missedLines (limit since : Int) (docs : List (Bytes × Doc)) (now : Nat) : List ChatItem :=
  (((newest (clampChatLimit limit) since docs).filter (isLive now)).filter
      fun p => p.2.text = []).map chatItem ++
    (((newestFirst since docs).drop (clampChatLimit limit)).filter (isLive now)).map chatItem

theorem newest_eq_take (limit : Nat) (since : Int) (docs : List (Bytes × Doc)) :
    newest limit since docs = (newestFirst since docs).take limit := rfl

theorem pairwise_newestFirst (since : Int) (docs : List (Bytes × Doc)) :
    (newestFirst since docs).Pairwise fun p q => q.2.ts ≤ p.2.ts := by
  have : Std.Total fun p q : Bytes × StoredChat => q.2.ts ≤ p.2.ts :=
    ⟨fun p q => Int.le_total q.2.ts p.2.ts⟩
  have : IsTrans (Bytes × StoredChat) fun p q => q.2.ts ≤ p.2.ts :=
    ⟨fun _ _ _ le le' => Int.le_trans le' le⟩
  exact List.pairwise_insertionSort _ _

theorem perm_newestFirst (since : Int) (docs : List (Bytes × Doc)) :
    (newestFirst since docs).Perm ((chatsOf docs).filter (isSince since)) :=
  (List.perm_insertionSort _ _).trans ((List.reverse_perm _).filter _)

theorem chatItemOf_eq (now : Nat) (p : Bytes × StoredChat) : chatItemOf now p =
    if isLive now p && !decide (p.2.text = []) then some (chatItem p) else none := by
  rw [chatItemOf, isLive]
  by_cases expired : p.2.expireAt ≤ now
  · rw [if_pos expired, decide_eq_false (Nat.not_lt_of_le expired)]
    rfl
  · rw [if_neg expired, decide_eq_true (Nat.lt_of_not_le expired)]
    by_cases noText : p.2.text = []
    · rw [if_pos noText, decide_eq_true noText]
      rfl
    · rw [if_neg noText, decide_eq_false noText]
      rfl

theorem liveLines_perm (limit since : Int) (docs : List (Bytes × Doc)) (now : Nat) :
    (liveLines since docs now).Perm
      ((newest (clampChatLimit limit) since docs).filterMap (chatItemOf now) ++
        missedLines limit since docs now) := by
  have fetchedPart := filterMap_append_perm (chatItemOf_eq now)
    (newest (clampChatLimit limit) since docs)
  have whole := ((perm_newestFirst since docs).filter (isLive now)).map chatItem
  conv at whole => lhs; rw [← List.take_append_drop (clampChatLimit limit) (newestFirst since docs)]
  rw [List.filter_append, List.map_append] at whole
  rw [missedLines, ← List.append_assoc]
  exact whole.symm.trans (fetchedPart.symm.append_right _)

/-- The newest lines, from the oldest to the newest. -/
def Newest (limit since : Int) (docs : List (Bytes × Doc)) (now : Nat) (items : List ChatItem) :
    Prop :=
  Selects ChatItem.Newer (clampChatLimit limit) (liveLines since docs now) items.reverse

/-- Every line that `RecentChat` fetches is returned, or it misses none. -/
def Unspoilt (limit since : Int) (docs : List (Bytes × Doc)) (now : Nat) : Prop :=
  (∀ p ∈ newest (clampChatLimit limit) since docs, (chatItemOf now p).isSome) ∨
    missedLines limit since docs now = []

instance (limit since : Int) (docs : List (Bytes × Doc)) (now : Nat) :
    Decidable (Unspoilt limit since docs now) :=
  inferInstanceAs (Decidable (_ ∨ _))

/-- Enough lines come before each missed one exactly if there is none or nothing is dropped. -/
theorem enough_iff_unspoilt (limit since : Int) (docs : List (Bytes × Doc)) (now : Nat) :
    (∀ y ∈ missedLines limit since docs now, clampChatLimit limit ≤
      ((newest (clampChatLimit limit) since docs).filterMap (chatItemOf now)).countP
        fun x => x.Newer y) ↔
      Unspoilt limit since docs now := by
  have fetchedLength : (newest (clampChatLimit limit) since docs).length ≤ clampChatLimit limit :=
    List.length_take_le _ _
  constructor
  · intro enough
    by_cases noneMissed : missedLines limit since docs now = []
    · exact Or.inr noneMissed
    · left
      obtain ⟨y, missed⟩ := List.exists_mem_of_ne_nil _ noneMissed
      have all : (newest (clampChatLimit limit) since docs).length ≤
          ((newest (clampChatLimit limit) since docs).filterMap (chatItemOf now)).length :=
        fetchedLength.trans ((enough y missed).trans List.countP_le_length)
      rw [List.length_filterMap_eq_countP] at all
      exact List.countP_eq_length.mp (Nat.le_antisymm List.countP_le_length all)
  · rintro (kept | noneMissed)
    · intro y missed
      rcases List.mem_append.mp missed with noText | behind
      · obtain ⟨p, dropped, rfl⟩ := List.mem_map.mp noText
        rw [List.mem_filter, List.mem_filter] at dropped
        have isItem := kept p dropped.1.1
        rw [chatItemOf_eq, dropped.1.2, dropped.2] at isItem
        cases isItem
      · obtain ⟨p, later, rfl⟩ := List.mem_map.mp behind
        have inDrop := List.mem_of_mem_filter later
        have full : (newest (clampChatLimit limit) since docs).length = clampChatLimit limit := by
          have longer := List.length_pos_of_mem inDrop
          rw [List.length_drop] at longer
          rw [newest_eq_take, List.length_take]
          omega
        have newer : ∀ x ∈ (newest (clampChatLimit limit) since docs).filterMap (chatItemOf now),
            x.Newer (chatItem p) := by
          intro x isKept
          obtain ⟨q, isFetched, isItem⟩ := List.mem_filterMap.mp isKept
          rw [chatItemOf_eq] at isItem
          split at isItem
          · cases isItem
            have sorted := pairwise_newestFirst since docs
            rw [← List.take_append_drop (clampChatLimit limit) (newestFirst since docs),
              List.pairwise_append] at sorted
            exact sorted.2.2 q isFetched p inDrop
          · cases isItem
        rw [List.countP_eq_length.mpr fun x isKept => decide_eq_true (newer x isKept),
          List.length_filterMap_eq_countP, List.countP_eq_length.mpr kept, full]
    · rw [noneMissed]
      exact fun y missed => absurd missed List.not_mem_nil

/-- `RecentChat` returns the newest lines exactly if nothing is missed for a dropped line. -/
theorem newest_recent_iff (sortChat : SliceSort ChatItem ChatItem.before) (limit since : Int)
    (docs : List (Bytes × Doc)) (now : Nat) :
    Newest limit since docs now (recent sortChat limit since docs now) ↔
      Unspoilt limit since docs now := by
  let kept := (newest (clampChatLimit limit) since docs).filterMap (chatItemOf now)
  have few : kept.length ≤ clampChatLimit limit :=
    (List.length_filterMap_le _ _).trans (List.length_take_le _ _)
  have whole : recent sortChat limit since docs now = sortChat.sort kept := by
    apply List.take_of_length_le
    rw [(sortChat.perm kept).length_eq]
    exact few
  have sorted : (sortChat.sort kept).reverse.Pairwise ChatItem.Newer := by
    rw [List.pairwise_reverse]
    exact (sortChat.sorted kept).imp fun {x y} less => Int.not_lt.mp (of_decide_eq_false less)
  have perm : (sortChat.sort kept).reverse.Perm kept :=
    (List.reverse_perm _).trans (sortChat.perm kept)
  have selects := selects_take sorted perm (clampChatLimit limit)
  rw [List.take_of_length_le (by rw [perm.length_eq]; exact few)] at selects
  rw [← enough_iff_unspoilt, ← selects_append_iff selects, Newest, whole]
  have lines := liveLines_perm limit since docs now
  constructor
  · exact fun newest => newest.congr lines
  · exact fun newest => newest.congr lines.symm

/-! ## The store of the tests -/

/-- `memChatEntry`. -/
structure MemChatEntry where
  item : ChatItem
  expire : Nat
  deriving DecidableEq

/-- The lines that `PutChat` appends until one is invalid; the clock is read for each of them,
and `k` readings were made before. -/
def memPutEach (clock : Nat → Nat) : Nat → List ChatItem → List MemChatEntry →
    List MemChatEntry × Except Err Unit
  | _, [], chat => (chat, .ok ())
  | k, it :: items, chat =>
      match validateChatItem it with
      | some e => (chat, .error e)
      | none =>
          let k' := if it.ts ≤ 0 then k + 1 else k
          memPutEach clock (k' + 1) items
            (chat ++ [⟨it.stamped (clock k), clock k' + defaultChatTTL⟩])

/-- `PutChat` of the `memStore`. -/
def memPutChat (items : List ChatItem) (clock : Nat → Nat) (chat : List MemChatEntry) :
    List MemChatEntry × Except Err Unit :=
  if maxChatBatch < items.length then (chat, .error (invalidError "items が多すぎます"))
  else memPutEach clock 0 items chat

/-- The map that its `RecentChat` makes: the last line of each id. -/
def memByID (since : Int) (now : Nat) (chat : List MemChatEntry) : Std.ExtTreeMap Bytes ChatItem :=
  chat.foldl (fun byID e =>
    if e.expire ≤ now then byID
    else if 0 < since ∧ e.item.ts < since then byID
    else byID.insert e.item.id e.item) ∅

/-- What it returns, when the map is ranged over in the order of `lines`. -/
def memRecentChat (sortChat : SliceSort ChatItem ChatItem.before) (limit : Int)
    (lines : List ChatItem) : List ChatItem :=
  let out := sortChat.sort lines
  out.drop (out.length - clampChatLimit limit)

/-- An entry that it does not skip. -/
def MemChatEntry.isShown (since : Int) (now : Nat) (e : MemChatEntry) : Bool :=
  now < e.expire && (since ≤ 0 || since ≤ e.item.ts)

/-- The lines of the entries that no later one with the same id replaces. -/
def lastLines (since : Int) (now : Nat) : List MemChatEntry → List ChatItem
  | [] => []
  | e :: chat =>
      if e.isShown since now ∧ ∀ e' ∈ chat, e'.isShown since now → e'.item.id ≠ e.item.id then
        e.item :: lastLines since now chat
      else lastLines since now chat

theorem exists_of_mem_lastLines {since : Int} {now : Nat} {chat : List MemChatEntry} {x : ChatItem}
    (mem : x ∈ lastLines since now chat) : ∃ e ∈ chat, e.isShown since now ∧ e.item = x := by
  induction chat with
  | nil => cases mem
  | cons e chat ih =>
      rw [lastLines] at mem
      split at mem
      · rename_i isLast
        rcases List.mem_cons.mp mem with rfl | later
        · exact ⟨e, List.mem_cons_self, isLast.1, rfl⟩
        · obtain ⟨e', isEntry, found⟩ := ih later
          exact ⟨e', List.mem_cons_of_mem e isEntry, found⟩
      · obtain ⟨e', isEntry, found⟩ := ih mem
        exact ⟨e', List.mem_cons_of_mem e isEntry, found⟩

theorem nodup_lastLines (since : Int) (now : Nat) (chat : List MemChatEntry) :
    (lastLines since now chat).Pairwise fun x y => x.id ≠ y.id := by
  induction chat with
  | nil => exact List.Pairwise.nil
  | cons e chat ih =>
      rw [lastLines]
      split
      · rename_i isLast
        refine List.pairwise_cons.mpr ⟨fun y later => ?_, ih⟩
        obtain ⟨e', isEntry, isShown, rfl⟩ := exists_of_mem_lastLines later
        exact (isLast.2 e' isEntry isShown).symm
      · exact ih

/-- An entry that is appended replaces the line of its id. -/
theorem lastLines_concat (since : Int) (now : Nat) (chat : List MemChatEntry) (e : MemChatEntry) :
    lastLines since now (chat ++ [e]) =
      if e.isShown since now then
        (lastLines since now chat).filter (·.id ≠ e.item.id) ++ [e.item]
      else lastLines since now chat := by
  induction chat with
  | nil => simp [lastLines]
  | cons e' chat ih =>
      rw [List.cons_append, lastLines, lastLines, ih]
      cases isShown : e.isShown since now with
      | false =>
          have same : (∀ e'' ∈ chat ++ [e], e''.isShown since now → e''.item.id ≠ e'.item.id) ↔
              ∀ e'' ∈ chat, e''.isShown since now → e''.item.id ≠ e'.item.id := by
            rw [List.forall_mem_append, List.forall_mem_singleton, isShown]
            exact and_iff_left fun never => absurd never Bool.false_ne_true
          simp only [same, Bool.false_eq_true, if_false]
      | true =>
          have more : (∀ e'' ∈ chat ++ [e], e''.isShown since now → e''.item.id ≠ e'.item.id) ↔
              (∀ e'' ∈ chat, e''.isShown since now → e''.item.id ≠ e'.item.id) ∧
                e'.item.id ≠ e.item.id := by
            rw [List.forall_mem_append, List.forall_mem_singleton]
            exact and_congr_right fun _ => ⟨fun distinct => (distinct isShown).symm,
              fun distinct _ => distinct.symm⟩
          simp only [more, if_true]
          by_cases same : e'.item.id = e.item.id
          · rw [if_neg fun isLast => isLast.2.2 same]
            split
            · rw [List.filter_cons_of_neg (by simpa using same)]
            · rfl
          · simp only [same, not_false_eq_true, and_true, ne_eq]
            split
            · rw [List.filter_cons_of_pos (by simpa using same), List.cons_append]
            · rfl

theorem getElem?_memByID_eq_some_iff (since : Int) (now : Nat) (chat : List MemChatEntry)
    (id : Bytes) (x : ChatItem) :
    (memByID since now chat)[id]? = some x ↔ x ∈ lastLines since now chat ∧ x.id = id := by
  induction chat using List.reverseRecOn with
  | nil => simp [memByID, lastLines]
  | append_singleton chat e ih =>
      rw [memByID, List.foldl_append, List.foldl_cons, List.foldl_nil, ← memByID, lastLines_concat]
      have shown : e.isShown since now = true ↔
          ¬ e.expire ≤ now ∧ ¬ (0 < since ∧ e.item.ts < since) := by
        rw [MemChatEntry.isShown, Bool.and_eq_true, Bool.or_eq_true]
        simp only [decide_eq_true_eq]
        omega
      by_cases isShown : e.isShown since now = true
      · obtain ⟨fresh, current⟩ := shown.mp isShown
        rw [if_neg fresh, if_neg current, if_pos isShown, Std.ExtTreeMap.getElem?_insert,
          List.mem_append, List.mem_filter, List.mem_singleton]
        by_cases same : e.item.id = id
        · rw [if_pos (Std.compare_eq_iff_eq.mpr same), Option.some.injEq]
          constructor
          · rintro rfl
            exact ⟨Or.inr rfl, same⟩
          · rintro ⟨⟨-, other⟩ | rfl, isID⟩
            · exact absurd (isID.trans same.symm) (by simpa using other)
            · rfl
        · rw [if_neg (mt Std.compare_eq_iff_eq.mp same), ih]
          constructor
          · rintro ⟨mem, rfl⟩
            exact ⟨Or.inl ⟨mem, by simpa using Ne.symm same⟩, rfl⟩
          · rintro ⟨⟨mem, -⟩ | rfl, isID⟩
            · exact ⟨mem, isID⟩
            · exact absurd isID same
      · rw [if_neg isShown]
        rw [shown, not_and_or, not_not, not_not] at isShown
        rcases isShown with expired | old
        · rw [if_pos expired, ih]
        · rw [if_pos old, ite_self, ih]

theorem memByID_perm (since : Int) (now : Nat) (chat : List MemChatEntry) :
    ((memByID since now chat).toList.map Prod.snd).Perm (lastLines since now chat) := by
  have isLine {p : Bytes × ChatItem} (mem : p ∈ (memByID since now chat).toList) :
      p.2 ∈ lastLines since now chat ∧ p.2.id = p.1 :=
    (getElem?_memByID_eq_some_iff since now chat p.1 p.2).mp
      (Std.ExtTreeMap.mem_toList_iff_getElem?_eq_some.mp mem)
  rw [List.perm_ext_iff_of_nodup]
  · intro x
    rw [List.mem_map]
    constructor
    · rintro ⟨p, mem, rfl⟩
      exact (isLine mem).1
    · intro mem
      have found := (getElem?_memByID_eq_some_iff since now chat x.id x).mpr ⟨mem, rfl⟩
      exact ⟨(x.id, x), Std.ExtTreeMap.mem_toList_iff_getElem?_eq_some.mpr found, rfl⟩
  · refine List.pairwise_map.mpr (Std.ExtTreeMap.distinct_keys_toList.imp_of_mem ?_)
    intro p q memP memQ distinct same
    rw [Std.compare_eq_iff_eq, ← (isLine memP).2, ← (isLine memQ).2, same] at distinct
    exact distinct rfl
  · exact (nodup_lastLines since now chat).imp fun {x y} distinct same => distinct (by rw [same])

theorem reverse_memRecentChat (sortChat : SliceSort ChatItem ChatItem.before) (limit : Int)
    (lines : List ChatItem) :
    (memRecentChat sortChat limit lines).reverse =
      (sortChat.sort lines).reverse.take (clampChatLimit limit) := by
  rw [memRecentChat, List.reverse_drop, List.take_eq_take_iff, List.length_reverse]
  omega

/-- What the store of the tests may return: the last lines of any sorted list. -/
theorem forall_memRecentChat_iff (limit : Int) (lines : List ChatItem)
    (property : List ChatItem → Prop) :
    (∀ (sortChat : SliceSort ChatItem ChatItem.before) (lines' : List ChatItem),
        lines'.Perm lines → property (memRecentChat sortChat limit lines').reverse) ↔
      ∀ ys, Selects ChatItem.Newer (clampChatLimit limit) lines ys → property ys := by
  constructor
  · intro all ys selects
    obtain ⟨full, sorted, perm, rfl⟩ := selects.exists_take
    have ascending : full.reverse.Pairwise fun x y => x.ts ≤ y.ts :=
      List.pairwise_reverse.mpr sorted
    let stable : SliceSort ChatItem ChatItem.before := .byKey ChatItem.ts fun _ _ => rfl
    have fixed : stable.sort full.reverse = full.reverse := ascending.insertionSort_eq
    have returned := all stable full.reverse ((List.reverse_perm full).trans perm)
    rwa [reverse_memRecentChat, fixed, List.reverse_reverse] at returned
  · intro all sortChat lines' perm
    rw [reverse_memRecentChat]
    have sorted : (sortChat.sort lines').reverse.Pairwise ChatItem.Newer := by
      rw [List.pairwise_reverse]
      exact (sortChat.sorted lines').imp fun {x y} less => Int.not_lt.mp (of_decide_eq_false less)
    exact all _ (selects_take sorted
      ((List.reverse_perm _).trans ((sortChat.perm lines').trans perm)) _)

/-- Enough of the lines of both stores come before each line that only one of them has. -/
structure Agreeing (limit : Nat) (live lines : List ChatItem) : Prop where
  extra : ∀ e ∈ lines, e ∉ live → limit ≤ (live.filter (· ∈ lines)).countP fun x => e.ts < x.ts
  lost : ∀ y ∈ live, y ∉ lines → limit ≤ (live.filter (· ∈ lines)).countP fun x => y.ts ≤ x.ts

theorem selects_lines_iff {limit : Nat} {live lines : List ChatItem} (distinct : live.Nodup)
    (distinct' : lines.Nodup) :
    (∀ ys, Selects ChatItem.Newer limit lines ys → Selects ChatItem.Newer limit live ys) ↔
      Agreeing limit live lines := by
  have whole : (live.filter (· ∈ lines) ++ live.filter fun x => !decide (x ∈ lines)).Perm live :=
    List.filter_append_perm _ live
  have common : (lines.filter (· ∈ live)).Perm (live.filter (· ∈ lines)) := by
    rw [List.perm_ext_iff_of_nodup (distinct'.filter _) (distinct.filter _)]
    intro x
    rw [List.mem_filter, List.mem_filter, decide_eq_true_eq, decide_eq_true_eq, and_comm]
  have whole' : (live.filter (· ∈ lines) ++ lines.filter fun x => !decide (x ∈ live)).Perm
      lines :=
    (common.symm.append_right _).trans (List.filter_append_perm _ lines)
  have foreign : ∀ e ∈ lines.filter (fun x => !decide (x ∈ live)),
      e ∉ live.filter (· ∈ lines) ++ live.filter fun x => !decide (x ∈ lines) := by
    intro e mem isCommon
    rw [List.mem_filter] at mem
    rw [whole.mem_iff] at isCommon
    simp [isCommon] at mem
  have selects :=
    (forall_selects_iff foreign : (∀ ys, Selects ChatItem.Newer limit _ ys → _) ↔ _)
  constructor
  · intro all
    obtain ⟨extra, lost⟩ := selects.mp fun ys chosen =>
      (all ys (chosen.congr whole')).congr whole.symm
    constructor
    · intro e mem outside
      have count := extra e (List.mem_filter.mpr ⟨mem, by simpa using outside⟩)
      simpa only [ChatItem.Newer, Int.not_le] using count
    · exact fun y mem outside => lost y (List.mem_filter.mpr ⟨mem, by simpa using outside⟩)
  · intro agreeing ys chosen
    refine (selects.mpr ⟨?_, ?_⟩ ys (chosen.congr whole'.symm)).congr whole
    · intro e mem
      obtain ⟨isLine, outside⟩ := List.mem_filter.mp mem
      have count := agreeing.extra e isLine (by simpa using outside)
      simpa only [ChatItem.Newer, Int.not_le] using count
    · intro y mem
      obtain ⟨isLive, outside⟩ := List.mem_filter.mp mem
      exact agreeing.lost y isLive (by simpa using outside)

theorem nodup_liveLines (since : Int) (docs : Documents Doc) (now : Nat) :
    (liveLines since (listDocuments docs chatCol) now).Nodup := by
  have lines : (chatsOf (listDocuments docs chatCol)).Pairwise fun p q => p.1 ≠ q.1 := by
    refine List.pairwise_filterMap.mpr ((pairwise_listDocuments docs chatCol).imp ?_)
    rintro ⟨id, d⟩ ⟨id', d'⟩ distinct p isP q isQ same
    cases d <;> cases isP
    cases d' <;> cases isQ
    exact distinct same
  refine List.pairwise_map.mpr (((lines.filter _).filter _).imp fun {p q} distinct same => ?_)
  exact distinct (congrArg ChatItem.id same)

/-! ## Both stores -/

/-- A call of `PutChat`: the readings of the clock in it, and how the commit ends. -/
structure PutCall where
  items : List ChatItem
  clock : Nat → Nat
  commit : Outcome

/-- The Firestore, and the store of the tests. -/
structure ChatStores where
  docs : Documents Doc := ∅
  chat : List MemChatEntry := []

/-- One `PutChat` on both stores. -/
def ChatStores.put (s : ChatStores) (call : PutCall) : ChatStores where
  docs := (putChat call.items (call.clock 0) call.commit s.docs).1
  chat := (memPutChat call.items call.clock s.chat).1

/-- The stores after the calls. -/
def afterPuts (calls : List PutCall) : ChatStores := calls.foldl ChatStores.put {}

/-- `RecentChat` returns the newest live lines of any content exactly if it fetches no line that
it drops, or misses none; and after a history of `PutChat` calls the store of the tests returns
them too exactly if enough lines come before each one that only one of the stores has. -/
theorem recentChat_newest_iff (sortChat : SliceSort ChatItem ChatItem.before) (limit since : Int)
    (env : Environment Doc Unit Sent) {docs : List (Bytes × Doc)}
    (listed : env.listFirst chatCol = some docs) :
    ((∃ items, (recentChat sortChat limit since).answer env = some items ∧
        Newest limit since docs (env.clock 1) items) ↔
      Unspoilt limit since docs (env.clock 1)) ∧
    ∀ calls, listDocuments (afterPuts calls).docs chatCol = docs →
      ((∃ items, (recentChat sortChat limit since).answer env = some items ∧
          Newest limit since docs (env.clock 1) items) ∧
        (∀ (sortChat' : SliceSort ChatItem ChatItem.before) (lines : List ChatItem),
          lines.Perm ((memByID since (env.clock 1) (afterPuts calls).chat).toList.map Prod.snd) →
          Newest limit since docs (env.clock 1) (memRecentChat sortChat' limit lines)) ↔
        Unspoilt limit since docs (env.clock 1) ∧
          Agreeing (clampChatLimit limit) (liveLines since docs (env.clock 1))
            (lastLines since (env.clock 1) (afterPuts calls).chat)) := by
  have answer : (recentChat sortChat limit since).answer env =
      some (recent sortChat limit since docs (env.clock 1)) := by
    rw [recentChat, Prog.answer_list, listed]
    rfl
  have returned : (∃ items, (recentChat sortChat limit since).answer env = some items ∧
      Newest limit since docs (env.clock 1) items) ↔ Unspoilt limit since docs (env.clock 1) := by
    rw [← newest_recent_iff sortChat, answer]
    constructor
    · rintro ⟨items, same, newest⟩
      cases same
      exact newest
    · exact fun newest => ⟨_, rfl, newest⟩
  refine ⟨returned, fun calls stored => and_congr returned ?_⟩
  have perm := memByID_perm since (env.clock 1) (afterPuts calls).chat
  have distinct := nodup_liveLines since (afterPuts calls).docs (env.clock 1)
  rw [stored] at distinct
  have distinct' : (lastLines since (env.clock 1) (afterPuts calls).chat).Nodup :=
    (nodup_lastLines _ _ _).imp fun {x y} other same => other (by rw [same])
  rw [← selects_lines_iff distinct distinct',
    ← forall_memRecentChat_iff limit _ (Selects ChatItem.Newer (clampChatLimit limit) _)]
  constructor
  · exact fun all sortChat' lines isPerm => all sortChat' lines (isPerm.trans perm.symm)
  · exact fun all sortChat' lines isPerm => all sortChat' lines (isPerm.trans perm)

/-! ## Two lines -/

/-- The call that puts a line, when the clock reads `now`. -/
def samplePut (id : String) (ts : Int) (now : Nat) : PutCall where
  items := [⟨ascii id, ascii "user", [], ascii "x", ts⟩]
  clock _ := now
  commit := .ok

/-- A line, and one that is put when the first expires. -/
def sampleCalls (ts ts' : Int) : List PutCall :=
  [samplePut "a" ts 0, samplePut "b" ts' defaultChatTTL]

/-- The store after them. -/
def sampleChat (ts ts' : Int) : Machine Doc Unit Sent where
  docs := (afterPuts (sampleCalls ts ts')).docs
  clock := defaultChatTTL

/-- The sort that a recent list is made with. -/
def sampleSort : SliceSort ChatItem ChatItem.before := .byKey ChatItem.ts fun _ _ => rfl

theorem sampleChat_newest :
    (∃ items, (recentChat sampleSort 1 0).answer (.still (sampleChat 1 2)) = some items ∧
      Newest 1 0 (listDocuments (sampleChat 1 2).docs chatCol) defaultChatTTL items) ∧
    ∀ (sortChat : SliceSort ChatItem ChatItem.before) (lines : List ChatItem),
      lines.Perm ((memByID 0 defaultChatTTL (afterPuts (sampleCalls 1 2)).chat).toList.map
        Prod.snd) →
      Newest 1 0 (listDocuments (sampleChat 1 2).docs chatCol) defaultChatTTL
        (memRecentChat sortChat 1 lines) :=
  ((recentChat_newest_iff sampleSort 1 0 (.still (sampleChat 1 2)) (by rfl)).2
    (sampleCalls 1 2) rfl).mpr ⟨by decide +kernel, by decide +kernel, by decide +kernel⟩

/-- The line that expired hides the live one, whose time is smaller. -/
theorem live_line_hidden :
    ¬ ∃ items, (recentChat sampleSort 1 0).answer (.still (sampleChat 2 1)) = some items ∧
      Newest 1 0 (listDocuments (sampleChat 2 1).docs chatCol) defaultChatTTL items := by
  rintro ⟨items, answer, newest⟩
  have none_ : (recentChat sampleSort 1 0).answer (.still (sampleChat 2 1)) = some [] := by
    decide +kernel
  cases answer.symm.trans none_
  exact newest.ne_nil (by decide) (by decide +kernel) rfl

end Drover.Glasses

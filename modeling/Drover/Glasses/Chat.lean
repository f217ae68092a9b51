import Drover.Glasses.Core

/-!
# The mirrored chat

`PutChat` stores lines of the chat under their ids, and `RecentChat` returns the newest ones
that have not expired, from the oldest to the newest.
-/

namespace Drover.Glasses

open Drover.Store

/-- `ChatItem`. -/
structure ChatItem where
  id : Bytes
  role : Bytes
  kind : Bytes
  text : Bytes
  ts : Int
  deriving DecidableEq

/-- The order of `RecentChat`, by the time stamp. -/
def ChatItem.before (x y : ChatItem) : Bool := decide (x.ts < y.ts)

/-- `ChatCollection`. -/
def chatCol : Path := ascii "glasses_chat"

/-- `MaxChatItems`. -/
def maxChatItems : Nat := 50

/-- `MaxChatBatch`. -/
def maxChatBatch : Nat := 50

/-- `MaxChatTextRunes`. -/
def maxChatTextRunes : Nat := 4000

/-- `DefaultChatTTL`. -/
def defaultChatTTL : Nat := 10 * minute

/-! ## Lines that are put -/

/-- `[A-Za-z0-9._:-]`. -/
def isChatIDByte (b : UInt8) : Bool :=
  isBetween 0x41 0x5a b || isBetween 0x61 0x7a b || isBetween 0x30 0x39 b || b == 0x2e ||
    b == 0x5f || b == 0x3a || b == 0x2d

/-- `ValidateChatItem`. -/
def validateChatItem (it : ChatItem) : Option Err :=
  if (1 ≤ it.id.length && it.id.length ≤ 64 && it.id.all isChatIDByte) = false then
    some (invalidError "id が不正です（^[A-Za-z0-9._:-]\x7b1,64\x7d$）")
  else if it.role ≠ ascii "user" ∧ it.role ≠ ascii "assistant" then
    some (invalidError "role は user/assistant のみ")
  else if 32 < it.kind.length then some (invalidError "kind が長すぎます")
  else if runeCountInString it.text < 1 ∨ maxChatTextRunes < runeCountInString it.text then
    some (invalidError "text は 1〜4000 文字（rune）です")
  else none

/-- `UnixMilli` of a time in nanoseconds. -/
def unixMilli (t : Nat) : Int := (t / 1000000 : Nat)

/-- The line with the time at which it is put, if it has none. -/
def ChatItem.stamped (it : ChatItem) (now : Nat) : ChatItem :=
  if it.ts ≤ 0 then { it with ts := unixMilli now } else it

/-- What `PutChat` stores. -/
def storedChat (it : ChatItem) (now : Nat) : StoredChat where
  id := it.id
  role := it.role
  kind := it.kind
  text := it.text
  ts := (it.stamped now).ts
  createdAt := timestamp now
  expireAt := timestamp (now + defaultChatTTL)

/-- `PutChat`, with the outcome of the commit of its batch. -/
def putChat (items : List ChatItem) (now : Nat) (commit : Outcome) (docs : Documents Doc) :
    Documents Doc × Except Err Unit :=
  if items = [] then (docs, .ok ())
  else if maxChatBatch < items.length then
    (docs, .error (invalidError "items が多すぎます（最大 50）"))
  else
    match items.findSome? validateChatItem with
    | some e => (docs, .error e)
    | none =>
        (if commit.applied then
          items.foldl
            (fun docs it => docs.insert (docPath chatCol it.id) (.chat (storedChat it now)))
            docs
        else docs,
        if commit = .ok then .ok () else .error .store)

/-! ## Lines that are returned -/

/-- `ClampChatLimit`. -/
def clampChatLimit (n : Int) : Nat :=
  if n ≤ 0 then maxChatItems
  else if n > maxChatItems then maxChatItems
  else n.toNat

/-- The lines in a listing. -/
def chatsOf (docs : List (Bytes × Doc)) : List (Bytes × StoredChat) :=
  docs.filterMap fun p =>
    match p.2 with
    | .chat c => some (p.1, c)
    | _ => none

/-- The query of `RecentChat`: the newest first, and of those of one time the greatest id. -/
def newest (limit : Nat) (since : Int) (docs : List (Bytes × Doc)) : List (Bytes × StoredChat) :=
  let lines := (chatsOf docs).reverse.filter fun p => since ≤ 0 || since ≤ p.2.ts
  (lines.insertionSort fun p q => q.2.ts ≤ p.2.ts).take limit

/-- A line that has not expired, as it is returned. -/
def chatItemOf (now : Nat) (p : Bytes × StoredChat) : Option ChatItem :=
  if p.2.expireAt ≤ now then none
  else if p.2.text = [] then none
  else some ⟨p.1, p.2.role, p.2.kind, p.2.text, p.2.ts⟩

/-- The lines that `RecentChat` returns; `sort.Slice` sorts them. -/
def recent (sortChat : SliceSort ChatItem ChatItem.before) (limit since : Int)
    (docs : List (Bytes × Doc)) (now : Nat) : List ChatItem :=
  let limit := clampChatLimit limit
  (sortChat.sort ((newest limit since docs).filterMap (chatItemOf now))).take limit

/-- `RecentChat`; `none` is an error. -/
def recentChat (sortChat : SliceSort ChatItem ChatItem.before) (limit since : Int) :
    Client (Option (List ChatItem)) := do
  match ← Prog.list chatCol with
  | none => pure none
  | some docs =>
      let now ← Prog.now
      pure (some (recent sortChat limit since docs now))

theorem mem_chatsOf_iff {docs : List (Bytes × Doc)} {id : Bytes} {c : StoredChat} :
    (id, c) ∈ chatsOf docs ↔ (id, .chat c) ∈ docs := by
  rw [chatsOf, List.mem_filterMap]
  constructor
  · rintro ⟨⟨id', d⟩, mem, isChat⟩
    cases d with
    | chat c' =>
        cases isChat
        exact mem
    | answer | ask | pc | revoked => cases isChat
  · exact fun mem => ⟨_, mem, rfl⟩

/-- What is returned is stored and has not expired. -/
theorem exists_of_mem_recent {sortChat : SliceSort ChatItem ChatItem.before} {limit since : Int}
    {docs : List (Bytes × Doc)} {now : Nat} {x : ChatItem}
    (mem : x ∈ recent sortChat limit since docs now) :
    ∃ c, (x.id, .chat c) ∈ docs ∧ x = ⟨x.id, c.role, c.kind, c.text, c.ts⟩ ∧ now < c.expireAt := by
  have sorted := sortChat.mem_sort_iff.mp (List.mem_of_mem_take mem)
  obtain ⟨⟨id, c⟩, isNew, isItem⟩ := List.mem_filterMap.mp sorted
  have isLine := List.mem_of_mem_take isNew
  rw [List.mem_insertionSort, List.mem_filter, List.mem_reverse, mem_chatsOf_iff] at isLine
  rw [chatItemOf] at isItem
  split at isItem
  · cases isItem
  · rename_i fresh
    split at isItem
    · cases isItem
    · cases isItem
      exact ⟨c, isLine.1, rfl, Nat.lt_of_not_le fresh⟩

end Drover.Glasses

import YapInference.Lib.Split
import YapInference.State

/-!
# Chat messages as whole turns

`src/helpers/chat_history.py`. The grouping loop carries three accumulators: the
finished turns, the turn being collected, and the assistant messages seen before
the first user. It is shown to compute the cutting of the normalised list before
every user message, so everything else about turns is read off `IsSplit`.
-/

namespace YapInference

open Py Split

/-- The body of the loop in `copy_chat_messages`: a stripped copy, unless blank. -/
def copyChatMessage (message : ChatMessage) : Option ChatMessage :=
  let content := strip message.content
  if content.isEmpty then none else some { message with content := content }

/-- `copy_chat_messages`: stripped copies of the messages that are not blank. -/
def copyChatMessages (messages : List ChatMessage) : List ChatMessage :=
  messages.filterMap copyChatMessage

/-- The loop state of `group_chat_turns`. -/
structure TurnGroups where
  turns : List (List ChatMessage)
  currentTurn : Option (List ChatMessage)
  leadingAssistants : List ChatMessage

/-- One iteration of the loop in `group_chat_turns`. -/
def TurnGroups.push (g : TurnGroups) (message : ChatMessage) : TurnGroups :=
  match message.role with
  | .user =>
      let turns := if g.leadingAssistants.isEmpty then g.turns else g.turns ++ [g.leadingAssistants]
      let turns := turns ++ g.currentTurn.toList
      { turns := turns, currentTurn := some [message], leadingAssistants := [] }
  | .assistant =>
      match g.currentTurn with
      | none => { g with leadingAssistants := g.leadingAssistants ++ [message] }
      | some turn => { g with currentTurn := some (turn ++ [message]) }

/-- What `group_chat_turns` returns from its loop state. -/
def TurnGroups.finish (g : TurnGroups) : List (List ChatMessage) :=
  (if g.leadingAssistants.isEmpty then g.turns else g.turns ++ [g.leadingAssistants])
    ++ g.currentTurn.toList

/-- `group_chat_turns`. -/
def groupChatTurns (messages : List ChatMessage) : List (List ChatMessage) :=
  ((copyChatMessages messages).foldl TurnGroups.push ⟨[], none, []⟩).finish

/-- `flatten_chat_turns`. -/
def flattenChatTurns (turns : List (List ChatMessage)) : List ChatMessage :=
  copyChatMessages turns.flatten

/-- The predicate the loop cuts at. -/
def isUser (m : ChatMessage) : Bool := m.role == .user

/-! ## Copies -/

/-- Every message non-blank and stripped. -/
def AllClean (ms : List ChatMessage) : Prop := ∀ m ∈ ms, Clean m.content

theorem allClean_copy (ms : List ChatMessage) : AllClean (copyChatMessages ms) := by
  intro m hm
  obtain ⟨m₀, -, h⟩ := List.mem_filterMap.mp hm
  unfold copyChatMessage at h
  dsimp only at h
  split at h
  · exact absurd h (by simp)
  · rename_i hne
    injection h with h
    subst h
    exact clean_strip (by simpa using hne)

theorem copyChatMessage_of_clean {m : ChatMessage} (h : Clean m.content) :
    copyChatMessage m = some m := by
  simp [copyChatMessage, h.strip_eq, h.ne]

theorem copyChatMessages_of_allClean {ms : List ChatMessage} (h : AllClean ms) :
    copyChatMessages ms = ms := by
  induction ms with
  | nil => rfl
  | cons m ms ih =>
      have hms := ih (fun x hx => h x (List.mem_cons_of_mem _ hx))
      rw [copyChatMessages] at hms ⊢
      rw [List.filterMap_cons_some (copyChatMessage_of_clean (h m (by simp))), hms]

@[simp] theorem copyChatMessages_copy (ms : List ChatMessage) :
    copyChatMessages (copyChatMessages ms) = copyChatMessages ms :=
  copyChatMessages_of_allClean (allClean_copy ms)

/-! ## The loop computes the cutting before every user -/

/-- What the loop state knows about the messages consumed so far. -/
structure TurnGroups.Inv (g : TurnGroups) (consumed : List ChatMessage) : Prop where
  /-- What would be returned now is a cutting. -/
  split : IsSplit isUser g.finish
  /-- Of exactly the messages consumed. -/
  flatten : g.finish.flatten = consumed
  /-- Before the first user there are no finished turns. -/
  start : g.currentTurn = none → g.turns = []
  /-- From the first user on, no leading assistants are pending. -/
  open_turn : g.currentTurn ≠ none → g.leadingAssistants = []

theorem TurnGroups.finish_push_user (g : TurnGroups) {m : ChatMessage} (hm : m.role = .user) :
    (g.push m).finish = g.finish ++ [[m]] := by
  simp [push, finish, hm]

theorem TurnGroups.push_inv {g : TurnGroups} {consumed : List ChatMessage}
    (h : g.Inv consumed) (m : ChatMessage) : (g.push m).Inv (consumed ++ [m]) := by
  cases hm : m.role with
  | user =>
      -- a user message closes what was open and begins a group of its own
      have hfin := finish_push_user g hm
      have hcut : isUser m = true := by simp [isUser, hm]
      refine ⟨?_, ?_, ?_, ?_⟩
      · rw [hfin]; exact h.split.snoc_new hcut
      · rw [hfin, List.flatten_append, h.flatten]; simp
      · intro hc; simp [push, hm] at hc
      · intro _; simp [push, hm]
  | assistant =>
      have hcut : isUser m = false := by simp [isUser, hm]
      cases hc : g.currentTurn with
      | none =>
          -- still before the first user: the one group is the leading assistants
          have hturns := h.start hc
          have hpush : g.push m = { g with leadingAssistants := g.leadingAssistants ++ [m] } := by
            simp [push, hm, hc]
          have hfin : (g.push m).finish = [g.leadingAssistants ++ [m]] := by
            simp [hpush, finish, hc, hturns]
          have hold := h.split
          have hflat := h.flatten
          rw [finish, hc, hturns] at hold hflat
          refine ⟨?_, ?_, ?_, ?_⟩
          · rw [hfin]
            cases hl : g.leadingAssistants with
            | nil => exact isSplit_single m
            | cons a l =>
                rw [hl] at hold
                exact IsSplit.snoc_last (L := []) (by simpa using hold) hcut
          · rw [hfin, ← hflat]
            cases g.leadingAssistants <;> simp
          · intro _; simp [hpush, hturns]
          · intro hne; simp [hpush, hc] at hne
      | some turn =>
          -- inside a turn: the assistant message joins the last group
          have hlead := h.open_turn (by simp [hc])
          have hpush : g.push m = { g with currentTurn := some (turn ++ [m]) } := by
            simp [push, hm, hc]
          have hold := h.split
          have hflat := h.flatten
          simp only [finish, hc, hlead, List.isEmpty_nil, if_true, Option.toList_some] at hold hflat
          have hfin : (g.push m).finish = g.turns ++ [turn ++ [m]] := by
            simp [hpush, finish, hlead]
          refine ⟨?_, ?_, ?_, ?_⟩
          · rw [hfin]; exact hold.snoc_last hcut
          · rw [hfin, ← hflat]; simp
          · intro hne; simp [hpush] at hne
          · intro _; simp [hpush, hlead]

theorem TurnGroups.foldl_inv {g : TurnGroups} {consumed : List ChatMessage}
    (h : g.Inv consumed) (ms : List ChatMessage) :
    (ms.foldl TurnGroups.push g).Inv (consumed ++ ms) := by
  induction ms generalizing g consumed with
  | nil => simpa using h
  | cons m ms ih =>
      have := ih (g.push_inv h m)
      simpa using this

/-- The groups are a cutting of the normalised messages. -/
theorem groupChatTurns_inv (ms : List ChatMessage) :
    IsSplit isUser (groupChatTurns ms) ∧ (groupChatTurns ms).flatten = copyChatMessages ms := by
  have h₀ : TurnGroups.Inv ⟨[], none, []⟩ [] :=
    ⟨by simpa [TurnGroups.finish] using isSplit_nil, by simp [TurnGroups.finish],
      fun _ => rfl, fun h => absurd rfl h⟩
  have h := TurnGroups.foldl_inv h₀ (copyChatMessages ms)
  exact ⟨h.split, h.flatten⟩

/-- **`group_chat_turns` cuts the normalised list before every user message.** -/
theorem groupChatTurns_eq (ms : List ChatMessage) :
    groupChatTurns ms = splitBefore isUser (copyChatMessages ms) := by
  obtain ⟨hsplit, hflat⟩ := groupChatTurns_inv ms
  rw [← hflat, hsplit.splitBefore_flatten]

/-- Grouping again after dropping the oldest turns gives the turns that were kept. -/
theorem groupChatTurns_flatten_drop (ms : List ChatMessage) (k : Nat) :
    groupChatTurns (flattenChatTurns ((groupChatTurns ms).drop k)) = (groupChatTurns ms).drop k := by
  obtain ⟨hsplit, hflat⟩ := groupChatTurns_inv ms
  have hclean : AllClean ((groupChatTurns ms).drop k).flatten := by
    intro m hm
    obtain ⟨g, hg, hmg⟩ := List.mem_flatten.mp hm
    refine allClean_copy ms m ?_
    rw [← hflat]
    exact List.mem_flatten.mpr ⟨g, List.mem_of_mem_drop hg, hmg⟩
  rw [groupChatTurns_eq, flattenChatTurns, copyChatMessages_copy,
    copyChatMessages_of_allClean hclean, (hsplit.drop k).splitBefore_flatten]

/-- What is kept after dropping the oldest turns, as messages. -/
theorem flattenChatTurns_drop (ms : List ChatMessage) (k : Nat) :
    flattenChatTurns ((groupChatTurns ms).drop k) = ((groupChatTurns ms).drop k).flatten := by
  refine copyChatMessages_of_allClean ?_
  intro m hm
  obtain ⟨g, hg, hmg⟩ := List.mem_flatten.mp hm
  refine allClean_copy ms m ?_
  rw [← (groupChatTurns_inv ms).2]
  exact List.mem_flatten.mpr ⟨g, List.mem_of_mem_drop hg, hmg⟩

/-! ## Turns -/

/-- A user message and the assistant messages that follow it. -/
def IsTurn (group : List ChatMessage) : Prop :=
  ∃ message replies, group = message :: replies ∧ message.role = .user
    ∧ ∀ reply ∈ replies, reply.role = .assistant

/-- Assistant messages that no user message comes before. -/
def IsLead (group : List ChatMessage) : Prop :=
  group ≠ [] ∧ ∀ message ∈ group, message.role = .assistant

/-- **The groups of a message list**: its turns, with what leads them. -/
structure Decomposes (messages : List ChatMessage) (groups : List (List ChatMessage)) : Prop where
  /-- They hold the messages that are not blank, stripped, in order. -/
  flatten : flattenChatTurns groups
    = (messages.map fun m => { m with content := strip m.content }).filter
        fun m => !m.content.isEmpty
  nonempty : ∀ group ∈ groups, group ≠ []
  /-- Every group is a turn, but the first may lead. -/
  turns : ∀ before group after, groups = before ++ group :: after →
    IsTurn group ∨ (before = [] ∧ IsLead group)
  /-- It does when an assistant speaks first. -/
  leads : (∃ group, groups.head? = some group ∧ IsLead group)
    ↔ ∃ message, (copyChatMessages messages).head? = some message ∧ message.role = .assistant
  /-- The newest groups are the groups of their own messages. -/
  suffix : ∀ kept, kept <:+ groups → groupChatTurns (flattenChatTurns kept) = kept

theorem copyChatMessages_eq (ms : List ChatMessage) :
    copyChatMessages ms = (ms.map fun m => { m with content := strip m.content }).filter
      fun m => !m.content.isEmpty := by
  induction ms with
  | nil => rfl
  | cons m ms ih =>
      rw [copyChatMessages] at ih ⊢
      rw [List.filterMap_cons, List.map_cons, List.filter_cons, ← ih]
      cases hblank : (strip m.content).isEmpty <;> simp [copyChatMessage, hblank]

theorem isUser_eq_false {m : ChatMessage} : isUser m = false ↔ m.role = .assistant := by
  cases hm : m.role <;> simp [isUser, hm]

/-- A group is a turn or leads, by its first message. -/
theorem isTurn_or_isLead {group : List ChatMessage} (hne : group ≠ [])
    (hinner : ∀ m ∈ group.tail, isUser m = false) :
    (IsTurn group ∧ ∃ m, group.head? = some m ∧ isUser m = true)
      ∨ (IsLead group ∧ ∃ m, group.head? = some m ∧ isUser m = false) := by
  obtain ⟨message, replies, rfl⟩ := List.exists_cons_of_ne_nil hne
  have hreplies : ∀ reply ∈ replies, reply.role = .assistant := fun reply h =>
    isUser_eq_false.mp (hinner reply h)
  cases hm : isUser message with
  | true =>
      exact .inl ⟨⟨message, replies, rfl, by simpa [isUser] using hm, hreplies⟩, message, rfl, hm⟩
  | false =>
      refine .inr ⟨⟨hne, ?_⟩, message, rfl, hm⟩
      exact List.forall_mem_cons.mpr ⟨isUser_eq_false.mp hm, hreplies⟩

theorem head?_groups {groups : List (List ChatMessage)} (hne : ∀ g ∈ groups, g ≠ []) :
    groups.flatten.head? = groups.head?.bind List.head? := by
  cases groups with
  | nil => rfl
  | cons g groups =>
      rw [List.flatten_cons, List.head?_append_of_ne_nil _ (hne g (by simp))]
      rfl

/-- **`group_chat_turns` is a faithful decomposition.** -/
theorem groupChatTurns_decomposes (messages : List ChatMessage) :
    Decomposes messages (groupChatTurns messages) := by
  obtain ⟨hsplit, hflatten⟩ := groupChatTurns_inv messages
  refine ⟨?_, hsplit.ne, ?_, ?_, ?_⟩
  · rw [flattenChatTurns, hflatten, copyChatMessages_copy, copyChatMessages_eq]
  · intro before group after heq
    have hmem : group ∈ groupChatTurns messages := by simp [heq]
    rcases isTurn_or_isLead (hsplit.ne group hmem) (hsplit.inner group hmem) with
      ⟨hturn, -⟩ | ⟨hlead, first, hfirst, hnot⟩
    · exact .inl hturn
    · refine .inr ⟨?_, hlead⟩
      -- a later group starts with a user message
      by_contra hbefore
      obtain ⟨g, before, rfl⟩ := List.exists_cons_of_ne_nil hbefore
      have hlater : group ∈ (groupChatTurns messages).tail := by simp [heq]
      exact absurd ((hsplit.heads group hlater first hfirst).symm.trans hnot) (by simp)
  · rw [← hflatten, head?_groups hsplit.ne]
    constructor
    · intro h
      obtain ⟨group, hgroup, hne, hall⟩ := h
      obtain ⟨message, replies, rfl⟩ := List.exists_cons_of_ne_nil hne
      exact ⟨message, by rw [hgroup]; rfl, hall message (by simp)⟩
    · intro h
      obtain ⟨message, hmessage, hrole⟩ := h
      obtain ⟨group, hgroup, hhead⟩ := Option.bind_eq_some_iff.mp hmessage
      have hmem : group ∈ groupChatTurns messages := List.mem_of_mem_head? hgroup
      rcases isTurn_or_isLead (hsplit.ne group hmem) (hsplit.inner group hmem) with
        ⟨-, first, hfirst, huser⟩ | ⟨hlead, -⟩
      · obtain rfl : first = message := Option.some.inj (hfirst.symm.trans hhead)
        exact absurd (huser.symm.trans (isUser_eq_false.mpr hrole)) (by simp)
      · exact ⟨group, hgroup, hlead⟩
  · intro kept hkept
    rw [List.suffix_iff_eq_drop.mp hkept]
    exact groupChatTurns_flatten_drop messages _

end YapInference

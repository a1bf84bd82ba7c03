import YapInference.Proof.HistoryImport

/-!
# Reading a rendered transcript back

`render_history` puts a label before each message and a blank line between two of them;
`parse_history_text` goes through the lines with the role and the lines of the message it
is in. A line of a content is taken for a line of that message unless it starts with a
label, and the label of the first line is taken off once, so a content that starts with a
label of its own survives.
-/

namespace YapInference

open Py

/-- A content a transcript can hold. -/
structure Transcribable (content : Text) : Prop where
  clean : Clean content
  /-- Its only line breaks are line feeds. -/
  breaks : ∀ c ∈ content, isLineBreak c = true → c = '\n'
  /-- No line after the first starts with a label. -/
  labels : ∀ line ∈ (content.splitOn '\n').tail,
    startsWith line "User:".toList = false ∧ startsWith line "Assistant:".toList = false

theorem transcribable_iff {content : Text} :
    Transcribable content ↔ Clean content
      ∧ content.all (fun c => !isLineBreak c || c == '\n') = true
      ∧ ∀ line ∈ (content.splitOn '\n').tail,
        startsWith line "User:".toList = false ∧ startsWith line "Assistant:".toList = false := by
  have hbreaks : content.all (fun c => !isLineBreak c || c == '\n') = true
      ↔ ∀ c ∈ content, isLineBreak c = true → c = '\n' := by
    simp only [List.all_eq_true, Bool.or_eq_true, Bool.not_eq_true', beq_iff_eq,
      ← Bool.not_eq_true, Classical.or_iff_not_imp_left, not_not]
  rw [hbreaks]
  exact ⟨fun h => ⟨h.clean, h.breaks, h.labels⟩, fun h => ⟨h.1, h.2.1, h.2.2⟩⟩

instance (content : Text) : Decidable (Transcribable content) :=
  decidable_of_iff _ transcribable_iff.symm

/-- What `render_history` puts before a content. -/
def transcriptLabel (m : ChatMessage) : Text := m.role.title ++ ": ".toList

/-- The lines of a content. -/
def contentLines (m : ChatMessage) : List Text := m.content.splitOn '\n'

/-- The lines of a rendered message. -/
def chunkLines (m : ChatMessage) : List Text := (contentLines m).modifyHead (transcriptLabel m ++ ·)

/-- The lines of a transcript: those of its messages, an empty one between two. -/
def transcriptLines (ms : List ChatMessage) : List Text := [[]].intercalate (ms.map chunkLines)

/-! ## Rendering, as lines -/

theorem join_contentLines (m : ChatMessage) : join ['\n'] (contentLines m) = m.content :=
  List.intercalate_splitOn '\n'

theorem contentLines_ne_nil (m : ChatMessage) : contentLines m ≠ [] :=
  List.splitOn_ne_nil '\n' m.content

theorem chunkLines_ne_nil (m : ChatMessage) : chunkLines m ≠ [] := by
  rw [chunkLines, ne_eq, List.modifyHead_eq_nil_iff]
  exact contentLines_ne_nil m

theorem join_chunkLines (m : ChatMessage) :
    join ['\n'] (chunkLines m) = transcriptLabel m ++ m.content := by
  rw [← join_contentLines m, chunkLines]
  rcases hlines : contentLines m with _ | ⟨l, rest⟩
  · exact absurd hlines (contentLines_ne_nil m)
  · rcases rest with _ | ⟨l', rest⟩
    · simp [join]
    · simp [join, List.append_assoc]

theorem renderHistory_eq {ms : List ChatMessage} (h : AllClean ms) :
    renderHistory ms = join "\n\n".toList (ms.map fun m => transcriptLabel m ++ m.content) := by
  unfold renderHistory
  congr 1
  induction ms with
  | nil => rfl
  | cons m rest ih =>
      have hclean := h m (by simp)
      have hrest : AllClean rest := fun x hx => h x (List.mem_cons_of_mem _ hx)
      have hne : (strip m.content).isEmpty = false := by simpa [hclean.strip_eq] using hclean.ne
      rw [List.filterMap_cons_some (by rw [if_neg (by simp [hne])]), ih hrest, hclean.strip_eq]
      rfl

theorem transcriptLines_cons {m : ChatMessage} {rest : List ChatMessage} (hne : rest ≠ []) :
    transcriptLines (m :: rest) = chunkLines m ++ [[]] ++ transcriptLines rest := by
  rw [transcriptLines, List.map_cons, List.intercalate_cons_of_ne_nil (by simpa using hne)]
  rfl

theorem transcriptLines_ne_nil {ms : List ChatMessage} (hne : ms ≠ []) : transcriptLines ms ≠ [] := by
  rcases ms with _ | ⟨m, rest⟩
  · exact absurd rfl hne
  · by_cases hnil : rest = []
    · simpa [transcriptLines, hnil] using chunkLines_ne_nil m
    · simp [transcriptLines_cons hnil]

/-- A transcript is its lines, joined. -/
theorem join_transcriptLines (ms : List ChatMessage) :
    join ['\n'] (transcriptLines ms)
      = join "\n\n".toList (ms.map fun m => transcriptLabel m ++ m.content) := by
  induction ms with
  | nil => rfl
  | cons m rest ih =>
      by_cases hnil : rest = []
      · simpa [transcriptLines, hnil, join] using join_chunkLines m
      · rw [transcriptLines_cons hnil, join_append (by simp) (transcriptLines_ne_nil hnil),
          join_append (chunkLines_ne_nil m) (by simp), join_chunkLines, ih, List.map_cons]
        conv_rhs => rw [join, List.intercalate_cons_of_ne_nil (by simpa using hnil)]
        simp [join, List.append_assoc]

/-- No line of a transcribable message has a break of its own. -/
theorem chunkLines_no_break {m : ChatMessage} (h : Transcribable m.content) :
    ∀ l ∈ chunkLines m, ∀ c ∈ l, isLineBreak c = false := by
  have hcontent : ∀ l ∈ contentLines m, ∀ c ∈ l, isLineBreak c = false := by
    intro l hl c hc
    have hmem : c ∈ m.content := by
      rw [← join_contentLines m]
      exact mem_join hl hc
    have hne : (c == '\n') = false := by
      rw [contentLines, List.splitOn_eq_splitOnP] at hl
      exact not_mem_of_mem_splitOnP hl hc
    rcases hbreak : isLineBreak c
    · rfl
    · rw [h.breaks c hmem hbreak] at hne
      exact absurd hne (by decide)
  have hall : (transcriptLabel m).all (!isLineBreak ·) = true := by
    unfold transcriptLabel
    cases m.role <;> decide
  have hlabel : ∀ c ∈ transcriptLabel m, isLineBreak c = false := by
    simpa only [List.all_eq_true, Bool.not_eq_true'] using hall
  intro l hl c hc
  rcases hlines : contentLines m with _ | ⟨l₀, rest⟩
  · exact absurd hlines (contentLines_ne_nil m)
  · rw [hlines] at hcontent
    rw [chunkLines, hlines, List.modifyHead_cons] at hl
    rcases List.mem_cons.mp hl with rfl | hl
    · rcases List.mem_append.mp hc with hc | hc
      · exact hlabel c hc
      · exact hcontent l₀ (by simp) c hc
    · exact hcontent l (List.mem_cons_of_mem _ hl) c hc

theorem transcriptLines_no_break {ms : List ChatMessage}
    (h : ∀ m ∈ ms, Transcribable m.content) :
    ∀ l ∈ transcriptLines ms, ∀ c ∈ l, isLineBreak c = false := by
  induction ms with
  | nil => simp [transcriptLines]
  | cons m rest ih =>
      have hm := chunkLines_no_break (h m (by simp))
      by_cases hnil : rest = []
      · simpa [transcriptLines, hnil] using hm
      · intro l hl
        rw [transcriptLines_cons hnil] at hl
        rcases List.mem_append.mp hl with hl | hl
        · rcases List.mem_append.mp hl with hl | hl
          · exact hm l hl
          · rw [List.mem_singleton.mp hl]
            simp
        · exact ih (fun x hx => h x (List.mem_cons_of_mem _ hx)) l hl

/-! ## Reading it back, line by line -/

/-- A line that starts with neither label. -/
def Unlabelled (line : Text) : Prop :=
  startsWith line "User:".toList = false ∧ startsWith line "Assistant:".toList = false

theorem startsWith_append (p t : Text) : startsWith (p ++ t) p = true := by
  simp [startsWith]

/-- **A labelled line ends the message before it** and starts one with the rest of the line. -/
theorem readLine_label (s : TranscriptState) (r : Role) {l : Text}
    (h : ∀ c, l.head? = some c → isSpace c = false) :
    s.readLine (r.title ++ ": ".toList ++ l) = ⟨s.flush.messages, some r.name, [l]⟩ := by
  have hrest : lstrip (' ' :: l) = l := by
    have hspace : lstrip (' ' :: l) = lstrip l := rfl
    rw [hspace, lstrip_of_head h]
  cases r with
  | user =>
      have hlabel : Role.user.title ++ ": ".toList = "User:".toList ++ [' '] := by decide
      have hdrop : ("User:".toList ++ ' ' :: l).drop 5 = ' ' :: l := List.drop_left' (by decide)
      rw [hlabel, List.append_assoc, List.singleton_append, TranscriptState.readLine,
        if_pos (startsWith_append _ _), hdrop, hrest]
      rfl
  | assistant =>
      have hlabel : Role.assistant.title ++ ": ".toList = "Assistant:".toList ++ [' '] := by decide
      have hother : ¬ startsWith ("Assistant:".toList ++ ' ' :: l) "User:".toList = true := by
        simp [startsWith]
      have hdrop : ("Assistant:".toList ++ ' ' :: l).drop 10 = ' ' :: l :=
        List.drop_left' (by decide)
      rw [hlabel, List.append_assoc, List.singleton_append, TranscriptState.readLine,
        if_neg hother, if_pos (startsWith_append _ _), hdrop, hrest]
      rfl

theorem readLine_unlabelled (messages : List ChatMessage) (role : Text) (lines : List Text)
    {line : Text} (h : Unlabelled line) :
    TranscriptState.readLine ⟨messages, some role, lines⟩ line
      = ⟨messages, some role, lines ++ [line]⟩ := by
  rw [TranscriptState.readLine, if_neg (by rw [h.1]; simp), if_neg (by rw [h.2]; simp)]
  rfl

/-- Unlabelled lines are collected. -/
theorem foldl_readLine_unlabelled (messages : List ChatMessage) (role : Text)
    (lines : List Text) {more : List Text} (h : ∀ line ∈ more, Unlabelled line) :
    more.foldl TranscriptState.readLine ⟨messages, some role, lines⟩
      = ⟨messages, some role, lines ++ more⟩ := by
  induction more generalizing lines with
  | nil => simp
  | cons line more ih =>
      rw [List.foldl_cons, readLine_unlabelled _ _ _ (h line (by simp)),
        ih _ fun l hl => h l (List.mem_cons_of_mem _ hl)]
      simp

/-- **The lines of a message are read as its content**, whatever came before. -/
theorem foldl_readLine_chunk (s : TranscriptState) {m : ChatMessage}
    (h : Transcribable m.content) :
    (chunkLines m).foldl TranscriptState.readLine s
      = ⟨s.flush.messages, some m.role.name, contentLines m⟩ := by
  have hjoin := join_contentLines m
  rcases hlines : contentLines m with _ | ⟨l, rest⟩
  · exact absurd hlines (contentLines_ne_nil m)
  · rw [hlines] at hjoin
    have hfirst := @first_of_clean l rest (by rw [hjoin]; exact h.clean)
    have hrest : ∀ line ∈ rest, Unlabelled line := by
      intro line hline
      refine h.labels line ?_
      rw [contentLines] at hlines
      rw [hlines]
      exact hline
    rw [chunkLines, hlines, List.modifyHead_cons, List.foldl_cons, transcriptLabel,
      readLine_label s m.role hfirst.2, foldl_readLine_unlabelled _ _ _ hrest]
    rfl

/-- What is pending after the lines of a message, with or without an empty one after them,
is that message. -/
theorem flush_chunk {messages : List ChatMessage} {m : ChatMessage} (h : Clean m.content)
    (hchain : (messages ++ [m]).IsChain (fun a b => ¬(a.role = .user ∧ b.role = .user)))
    {pending : List Text} (hpending : pending = contentLines m ∨ pending = contentLines m ++ [[]]) :
    (TranscriptState.flush ⟨messages, some m.role.name, pending⟩).messages = messages ++ [m] := by
  have hcontent : strip (join ['\n'] pending) = m.content := by
    rcases hpending with rfl | rfl
    · rw [join_contentLines, h.strip_eq]
    · rw [join_append (contentLines_ne_nil m) (by simp), join_contentLines]
      simpa [join] using strip_append_newline h
  have hne : pending.isEmpty = false := by
    rcases hpending with rfl | rfl
    · simpa using contentLines_ne_nil m
    · simp
  have hflush : (TranscriptState.flush ⟨messages, some m.role.name, pending⟩).messages
      = parseAppendChatMessage messages m.role.name (strip (join ['\n'] pending)) := by
    rw [TranscriptState.flush]
    simp only [hne, Bool.false_eq_true, if_false]
  rw [hflush, hcontent, parseAppendChatMessage_of_clean h, normalizeChatRole_name]
  exact pushChatMessage_snoc hchain

/-- **The whole transcript**, after whatever has been read already. -/
theorem foldl_readLine_transcript {ms : List ChatMessage} (h : ∀ m ∈ ms, Transcribable m.content)
    (s : TranscriptState)
    (hchain : (s.flush.messages ++ ms).IsChain (fun a b => ¬(a.role = .user ∧ b.role = .user))) :
    ((transcriptLines ms).foldl TranscriptState.readLine s).flush.messages
      = s.flush.messages ++ ms := by
  induction ms generalizing s with
  | nil => simp [transcriptLines]
  | cons m rest ih =>
      have hm := h m (by simp)
      have hinit : (s.flush.messages ++ [m]).IsChain
          (fun a b => ¬(a.role = .user ∧ b.role = .user)) :=
        hchain.prefix ⟨rest, by simp⟩
      by_cases hnil : rest = []
      · subst hnil
        rw [show transcriptLines [m] = chunkLines m by simp [transcriptLines],
          foldl_readLine_chunk s hm]
        exact flush_chunk hm.clean hinit (Or.inl rfl)
      · -- the empty line is pending too when the next label comes
        have hpending := flush_chunk hm.clean hinit (Or.inr rfl)
        have hempty : Unlabelled [] := ⟨rfl, rfl⟩
        rw [transcriptLines_cons hnil, List.foldl_append, List.foldl_append,
          foldl_readLine_chunk s hm, List.foldl_cons, List.foldl_nil,
          readLine_unlabelled _ _ _ hempty,
          ih (fun x hx => h x (List.mem_cons_of_mem _ hx)) _ (by rw [hpending]; simpa using hchain),
          hpending]
        simp

/-- **A rendered transcript is read back as the messages it was rendered from**, if no two
users follow one another and a transcript can hold every content. -/
theorem parseHistoryText_renderHistory {ms : List ChatMessage}
    (hchain : ms.IsChain (fun a b => ¬(a.role = .user ∧ b.role = .user)))
    (h : ∀ m ∈ ms, Transcribable m.content) : parseHistoryText (renderHistory ms) = ms := by
  by_cases hnil : ms = []
  · subst hnil
    rfl
  have hclean : AllClean ms := fun m hm => (h m hm).clean
  have hrender : renderHistory ms = join ['\n'] (transcriptLines ms) := by
    rw [renderHistory_eq hclean, join_transcriptLines]
  have hlabel : ∀ m ∈ ms, Clean (transcriptLabel m ++ m.content) := by
    intro m hm
    have htitle : Clean (m.role.title ++ ":".toList) := by
      cases m.role <;> decide
    have happend := htitle.append (h m hm).clean " ".toList
    simpa [transcriptLabel] using happend
  have htext : Clean (renderHistory ms) := by
    rw [renderHistory_eq hclean]
    refine Clean.join (fun t ht => ?_) (by simpa using hnil)
    obtain ⟨m, hm, rfl⟩ := List.mem_map.mp ht
    exact hlabel m hm
  have hlines : splitLines (renderHistory ms) = transcriptLines ms := by
    rw [hrender]
    exact splitLines_join (transcriptLines_no_break h) (last_of_clean (hrender ▸ htext))
  have hne : (renderHistory ms).isEmpty = false := by simpa using htext.ne
  have hread := foldl_readLine_transcript h ⟨[], none, []⟩ (by simpa [TranscriptState.flush] using hchain)
  unfold parseHistoryText
  dsimp only
  rw [htext.strip_eq, hne, hlines]
  exact hread

/-- A content with a label of its own, and one with an empty line in it. -/
theorem parseHistoryText_renderHistory_labels :
    let ms : List ChatMessage :=
      [⟨.user, "User: hi\nthere".toList⟩, ⟨.assistant, "a\n\nb".toList⟩]
    parseHistoryText (renderHistory ms) = ms := by
  intro ms
  have hchain : ms.IsChain (fun a b => ¬(a.role = .user ∧ b.role = .user)) := by
    simp [ms]
  refine parseHistoryText_renderHistory hchain fun m hm => ?_
  rcases List.mem_cons.mp hm with rfl | hm
  · decide
  · rw [List.mem_singleton.mp hm]
    decide

end YapInference

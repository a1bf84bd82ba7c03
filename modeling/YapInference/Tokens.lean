import YapInference.Lib.Search
import YapInference.State

/-!
# Tokenizers, token budgets and screen prefixes

`src/tokens`. The `transformers` tokenizer behind `FastTokenizer` is third-party:
it is a structure of three functions, and the wrapper's methods are the ones below.
-/

namespace YapInference

open Py

/-! ## The tokenizer wrapper -/

/-- One message of a chat template: its role name and content. -/
structure TemplateMessage where
  role : Text
  content : Text
  deriving DecidableEq

/-- A `transformers` tokenizer, as `FastTokenizer` uses it. -/
structure HfTokenizer where
  /-- `input_ids` of a text; the flag is `add_special_tokens`. -/
  encode : Text → Bool → List Nat
  /-- `decode` with special tokens skipped and no space clean-up. -/
  decode : List Nat → Text
  /-- `apply_chat_template` with `tokenize=False`; the flag is `add_generation_prompt`. -/
  applyChatTemplate : List TemplateMessage → Bool → Except Exc Text

/-- Which end of a text survives trimming. -/
inductive Keep where
  | start
  | tail
  deriving DecidableEq

namespace HfTokenizer

/-- `FastTokenizer.count`. -/
def count (tok : HfTokenizer) (text : Text) (addSpecialTokens : Bool) : Nat :=
  if text.isEmpty && !addSpecialTokens then 0 else (tok.encode text addSpecialTokens).length

/-- `FastTokenizer.trim`. -/
def trim (tok : HfTokenizer) (text : Text) (maxTokens : Nat) (keep : Keep) : Text :=
  if maxTokens = 0 || text.isEmpty then []
  else
    let ids := tok.encode text false
    if ids.length ≤ maxTokens then text
    else
      match keep with
      | .start => tok.decode (ids.take maxTokens)
      | .tail => tok.decode (ids.drop (ids.length - maxTokens))

/-- `FastTokenizer.encode_ids`. -/
def encodeIds (tok : HfTokenizer) (text : Text) : List Nat :=
  if text.isEmpty then [] else tok.encode text false

end HfTokenizer

/-- One token per character, and no chat template. -/
def charTokenizer : HfTokenizer where
  encode := fun text _ => text.map Char.toNat
  decode := fun ids => ids.map Char.ofNat
  applyChatTemplate := fun _ _ =>
    .error (.runtimeError "Tokenizer does not have apply_chat_template method".toList)

/-- One token per character, two special ones around a text when they are asked for, and
`#` in a text is a special token of its own: `decode` skips it. -/
def markTokenizer : HfTokenizer :=
  { charTokenizer with
    encode := fun text addSpecialTokens =>
      if addSpecialTokens then 1 :: text.map Char.toNat ++ [2] else text.map Char.toNat
    decode := fun ids => (ids.map Char.ofNat).filter fun c => c != '#' }

/-! ## Counting and trimming history text -/

/-- `_fallback_count_tokens`: whitespace words, plus two when specials are counted. -/
def fallbackCountTokens (text : Text) (includeSpecialTokens : Bool) : Nat :=
  let count := if text.isEmpty then 0 else (splitWords text).length
  if count ≠ 0 && includeSpecialTokens then count + 2 else count

/-- `_trim_text_by_token_count`. -/
def trimTextByTokenCount (text : Text) (tokenCount : Nat) (tokenizer : Option HfTokenizer)
    (keep : Keep) : Text :=
  if tokenCount = 0 || text.isEmpty then []
  else
    match tokenizer with
    | some tok => strip (tok.trim text tokenCount keep)
    | none =>
        let tokens := splitWords text
        if tokens.length ≤ tokenCount then text
        else
          join [' '] (match keep with
            | .start => tokens.take tokenCount
            | .tail => tokens.drop (tokens.length - tokenCount))

/-- `count_chat_tokens`. -/
def countChatTokens (text : Text) (chatTokenizer : Option HfTokenizer) : Nat :=
  if text.isEmpty then 0
  else
    match chatTokenizer with
    | some tok => tok.count text false
    | none => fallbackCountTokens text false

/-- `count_tool_tokens`. -/
def countToolTokens (text : Text) (toolTokenizer : Option HfTokenizer)
    (includeSpecialTokens : Bool) : Nat :=
  if text.isEmpty then 0
  else
    match toolTokenizer with
    | some tok => tok.count text includeSpecialTokens
    | none => fallbackCountTokens text includeSpecialTokens

/-- `trim_tool_text_to_budget`. -/
def trimToolTextToBudget (text : Text) (budget : Int) (toolTokenizer : Option HfTokenizer)
    (keep : Keep) (includeSpecialTokens : Bool) : Text :=
  let candidate := strip text
  let effectiveBudget := budget.toNat
  if effectiveBudget = 0 || candidate.isEmpty then []
  else
    let tokenCount := countToolTokens candidate toolTokenizer false
    if countToolTokens candidate toolTokenizer includeSpecialTokens ≤ effectiveBudget then candidate
    else
      let probe := fun mid =>
        let trimmed := trimTextByTokenCount candidate mid toolTokenizer keep
        if !trimmed.isEmpty
            && countToolTokens trimmed toolTokenizer includeSpecialTokens ≤ effectiveBudget then
          some trimmed
        else none
      (Search.searchPure probe tokenCount).getD []

/-- `ToolHistoryOversizePolicy`. -/
inductive ToolHistoryOversizePolicy where
  | keepLatestWhole
  | trimLatestTail
  deriving DecidableEq

/-- The loop of `build_tool_history`: the texts still to be looked at, newest first, and
`selected_lines`. -/
def selectToolLines (effectiveBudget : Nat) (toolTokenizer : Option HfTokenizer)
    (oversizePolicy : ToolHistoryOversizePolicy) : List Text → List Text → List Text
  | [], selectedLines => selectedLines
  | text :: older, selectedLines =>
      let stripped := strip text
      if stripped.isEmpty then
        selectToolLines effectiveBudget toolTokenizer oversizePolicy older selectedLines
      else
        let candidateLines := stripped :: selectedLines
        if countToolTokens (join ['\n'] candidateLines) toolTokenizer true ≤ effectiveBudget then
          selectToolLines effectiveBudget toolTokenizer oversizePolicy older candidateLines
        else if selectedLines.isEmpty then
          match oversizePolicy with
          | .trimLatestTail =>
              let clipped := trimToolTextToBudget stripped effectiveBudget toolTokenizer .tail true
              if clipped.isEmpty then selectedLines else clipped :: selectedLines
          | .keepLatestWhole => stripped :: selectedLines
        else selectedLines

/-- `build_tool_history`. -/
def buildToolHistory (userTexts : List Text) (budget : Int) (toolTokenizer : Option HfTokenizer)
    (oversizePolicy : ToolHistoryOversizePolicy) : Text :=
  let effectiveBudget := (max 1 budget).toNat
  join ['\n'] (selectToolLines effectiveBudget toolTokenizer oversizePolicy userTexts.reverse [])

/-- Trimming a stripped text leaves it stripped. -/
theorem clean_trimTextByTokenCount {text : Text} (h : strip text = text) {tokenCount : Nat}
    {tokenizer : Option HfTokenizer} {keep : Keep}
    (hne : trimTextByTokenCount text tokenCount tokenizer keep ≠ []) :
    Clean (trimTextByTokenCount text tokenCount tokenizer keep) := by
  unfold trimTextByTokenCount at hne ⊢
  split at hne
  · exact absurd rfl hne
  · rw [if_neg ‹_›]
    cases tokenizer with
    | some tok => exact clean_strip hne
    | none =>
        dsimp only at hne ⊢
        split at hne
        · rw [if_pos ‹_›]
          have hclean : Clean (strip text) := clean_strip (by rwa [h])
          rwa [h] at hclean
        · rw [if_neg ‹_›]
          -- some of the words of the text, with single spaces between them
          refine Clean.join (fun w hw => clean_of_mem_splitWords (t := text) ?_) ?_
          · cases keep with
            | start => exact List.mem_of_mem_take hw
            | tail => exact List.mem_of_mem_drop hw
          · intro hnil
            exact hne (by rw [hnil]; rfl)

/-- What `trim_tool_text_to_budget` leaves, if anything, is stripped and was counted. -/
theorem trimToolTextToBudget_spec {text : Text} {budget : Int} {tok : Option HfTokenizer}
    {keep : Keep} {includeSpecialTokens : Bool}
    (hne : trimToolTextToBudget text budget tok keep includeSpecialTokens ≠ []) :
    let clipped := trimToolTextToBudget text budget tok keep includeSpecialTokens
    Clean clipped ∧ countToolTokens clipped tok includeSpecialTokens ≤ budget.toNat := by
  unfold trimToolTextToBudget at hne ⊢
  dsimp only at hne ⊢
  split at hne
  · exact absurd rfl hne
  · rename_i hsome
    rw [if_neg hsome]
    have hcandidate : strip text ≠ [] := fun h => hsome (by simp [h])
    split at hne
    · rename_i hfits
      rw [if_pos hfits]
      exact ⟨clean_strip hcandidate, hfits⟩
    · rw [if_neg ‹_›]
      -- the bisection found a text that passed its probe
      revert hne
      generalize hfound : Search.searchPure _ _ = found
      intro hne
      cases found with
      | none => exact absurd rfl hne
      | some clipped =>
          refine Search.searchPure_accepted
            (P := fun t => Clean t ∧ countToolTokens t tok includeSpecialTokens ≤ budget.toNat)
            ?_ hfound
          intro mid t ht
          split at ht
          · rename_i hpass
            injection ht with ht
            subst ht
            simp only [Bool.and_eq_true, Bool.not_eq_true', List.isEmpty_eq_false_iff,
              decide_eq_true_eq] at hpass
            exact ⟨clean_trimTextByTokenCount (strip_strip text) hpass.1, hpass.2⟩
          · exact absurd ht (by simp)

/-! ## Screen prefixes -/

/-- What the case-insensitive comparison needs of the character database:
`str.lower` of a whole text. -/
abbrev Lower := Text → Text

/-- `_try_strip` inside `strip_screen_prefix`: the text after the prefix, if it is there. -/
def tryStrip (lower : Lower) (candidate value : Text) : Option Text :=
  if candidate.isEmpty then none
  else if (strip candidate).isEmpty then none
  else if startsWith value candidate then some (lstrip (value.drop candidate.length))
  else if startsWith (lower value) (lower candidate) then
    some (lstrip (value.drop candidate.length))
  else none

/-- `strip_screen_prefix`: the first of the two prefixes that matches is removed once. -/
def stripScreenPrefix (lower : Lower) (text : Text)
    (checkScreenPrefix screenCheckedPrefix : Text) : Text :=
  if text.isEmpty then []
  else
    match tryStrip lower checkScreenPrefix text with
    | some updated => updated
    | none =>
        match tryStrip lower screenCheckedPrefix text with
        | some updated => updated
        | none => text

end YapInference

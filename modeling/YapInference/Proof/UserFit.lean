import YapInference.Lib.Halving
import YapInference.Proof.PromptFit
import YapInference.Proof.ToolInput

/-!
# What becomes of the user text

Both fitters drop history first and then bisect for the longest start, or end, of the
user text that fits. The history is dropped one turn at a time, so what is kept is the
longest suffix that fits. The bisection is another matter: it is run even when the whole
capped text fits, it takes for granted that a longer text makes a longer prompt, and it
takes a trim that decodes to nothing for an answer. Which size it ends at depends on what
fits on the halving path to that size.
-/

namespace YapInference

open Py

section

variable (staticPrefix runtimeText : Text) (turns : List (List ChatMessage)) (tok : HfTokenizer)
  (maxPromptTokens : Int)

/-- The prompt with this history and user text is built, and fits. -/
def PromptFits (user : Text) : Prop :=
  ∃ prompt promptTokens, buildPrompt staticPrefix runtimeText turns user tok
    = .ok (prompt, promptTokens) ∧ (promptTokens : Int) ≤ maxPromptTokens

/-- It is built, and does not fit. -/
def PromptOver (user : Text) : Prop :=
  ∃ prompt promptTokens, buildPrompt staticPrefix runtimeText turns user tok
    = .ok (prompt, promptTokens) ∧ maxPromptTokens < (promptTokens : Int)

/-- The probe of `_fit_user_from_raw`. -/
def userProbe (utt : Text) (remaining : Nat) : Except Exc (Option (Text × Text × Nat)) :=
  let trimmed := trimRawUser (strip utt) remaining tok
  match buildPrompt staticPrefix runtimeText turns trimmed tok with
  | .ok (prompt, promptTokens) =>
      .ok (if promptTokens ≤ maxPromptTokens then some (trimmed, prompt, promptTokens) else none)
  | .error e => .error e

end

section

variable {staticPrefix runtimeText : Text} {turns : List (List ChatMessage)} {tok : HfTokenizer}
  {maxPromptTokens : Int} {utt : Text}

theorem not_promptFits_of_over {user : Text}
    (h : PromptOver staticPrefix runtimeText turns tok maxPromptTokens user) :
    ¬ PromptFits staticPrefix runtimeText turns tok maxPromptTokens user := by
  intro h
  obtain ⟨prompt, promptTokens, hbuild, hle⟩ := h
  obtain ⟨prompt', promptTokens', hbuild', hlt⟩ := h
  rw [hbuild] at hbuild'
  cases hbuild'
  omega

@[simp] theorem trimRawUser_strip (text : Text) (n : Nat) :
    trimRawUser (strip text) n tok = trimRawUser text n tok := by
  simp [trimRawUser]

/-! ## The history -/

/-- With this candidate, all of the history from the turn `k` on is kept: with any more of it the
prompt is over the limit, and with this it is not, or nothing is left to drop. -/
def HistoryKept (staticPrefix runtimeText : Text) (turns : List (List ChatMessage))
    (tok : HfTokenizer) (maxPromptTokens : Int) (candidate : Text) (k : Nat) : Prop :=
  k ≤ turns.length
    ∧ (∀ j < k, PromptOver staticPrefix runtimeText (turns.drop j) tok maxPromptTokens candidate)
    ∧ (PromptFits staticPrefix runtimeText (turns.drop k) tok maxPromptTokens candidate
      ∨ k = turns.length
        ∧ PromptOver staticPrefix runtimeText (turns.drop k) tok maxPromptTokens candidate)

theorem historyKept_cons_zero {turn : List ChatMessage} {candidate : Text} :
    HistoryKept staticPrefix runtimeText (turn :: turns) tok maxPromptTokens candidate 0
      ↔ PromptFits staticPrefix runtimeText (turn :: turns) tok maxPromptTokens candidate := by
  simp [HistoryKept]

theorem historyKept_cons_succ {turn : List ChatMessage} {candidate : Text} {k : Nat} :
    HistoryKept staticPrefix runtimeText (turn :: turns) tok maxPromptTokens candidate (k + 1)
      ↔ PromptOver staticPrefix runtimeText (turn :: turns) tok maxPromptTokens candidate
        ∧ HistoryKept staticPrefix runtimeText turns tok maxPromptTokens candidate k := by
  simp only [HistoryKept, List.length_cons, List.drop_succ_cons, Nat.add_le_add_iff_right,
    Nat.add_right_cancel_iff]
  constructor
  · intro h
    obtain ⟨hle, hbefore, hstop⟩ := h
    exact ⟨hbefore 0 (Nat.zero_lt_succ k), hle, fun j hj => hbefore (j + 1) (by omega), hstop⟩
  · intro h
    obtain ⟨hfirst, hle, hbefore, hstop⟩ := h
    refine ⟨hle, fun j hj => ?_, hstop⟩
    cases j with
    | zero => exact hfirst
    | succ j => exact hbefore j (by omega)

theorem promptFits_or_over (maxPromptTokens : Int) {user prompt : Text} {promptTokens : Nat}
    (hbuild : buildPrompt staticPrefix runtimeText turns user tok = .ok (prompt, promptTokens)) :
    PromptFits staticPrefix runtimeText turns tok maxPromptTokens user
      ∨ PromptOver staticPrefix runtimeText turns tok maxPromptTokens user := by
  rcases le_or_gt (promptTokens : Int) maxPromptTokens with hle | hlt
  · exact Or.inl ⟨prompt, promptTokens, hbuild, hle⟩
  · exact Or.inr ⟨prompt, promptTokens, hbuild, hlt⟩

/-- **What is kept of the history is the longest suffix whose prompt fits**, or nothing. -/
theorem dropTurnsToFit_eq_ok {candidate : Text} {kept : List (List ChatMessage)} :
    dropTurnsToFit staticPrefix runtimeText candidate tok maxPromptTokens turns = .ok kept
      ↔ ∃ k, kept = turns.drop k
        ∧ HistoryKept staticPrefix runtimeText turns tok maxPromptTokens candidate k := by
  induction turns with
  | nil =>
      unfold dropTurnsToFit
      constructor
      · intro h
        split at h
        · rename_i hbuild
          cases h
          rcases promptFits_or_over maxPromptTokens hbuild with hfits | hover
          · exact ⟨0, rfl, Nat.le_refl 0, fun j hj => absurd hj (Nat.not_lt_zero j), Or.inl hfits⟩
          · exact ⟨0, rfl, Nat.le_refl 0, fun j hj => absurd hj (Nat.not_lt_zero j),
              Or.inr ⟨rfl, hover⟩⟩
        · cases h
      · intro h
        obtain ⟨k, rfl, hle, -, hstop⟩ := h
        obtain rfl := Nat.le_zero.mp hle
        have hbuild : ∃ p, buildPrompt staticPrefix runtimeText [] candidate tok = .ok p := by
          rcases hstop with hfits | ⟨-, hover⟩
          · obtain ⟨prompt, promptTokens, hbuild, -⟩ := hfits
            exact ⟨_, hbuild⟩
          · obtain ⟨prompt, promptTokens, hbuild, -⟩ := hover
            exact ⟨_, hbuild⟩
        obtain ⟨p, hbuild⟩ := hbuild
        rw [hbuild]
        rfl
  | cons turn rest ih =>
      unfold dropTurnsToFit
      constructor
      · intro h
        split at h
        · rename_i prompt promptTokens hbuild
          split at h
          · rename_i hover
            -- this turn goes
            obtain ⟨k, rfl, hkept⟩ := ih.mp h
            exact ⟨k + 1, rfl, historyKept_cons_succ.mpr ⟨⟨prompt, promptTokens, hbuild, hover⟩, hkept⟩⟩
          · rename_i hunder
            cases h
            exact ⟨0, rfl, historyKept_cons_zero.mpr ⟨prompt, promptTokens, hbuild, not_lt.mp hunder⟩⟩
        · cases h
      · intro h
        obtain ⟨k, rfl, hkept⟩ := h
        cases k with
        | zero =>
            obtain ⟨prompt, promptTokens, hbuild, hle⟩ := historyKept_cons_zero.mp hkept
            rw [hbuild]
            exact if_neg (not_lt.mpr hle)
        | succ k =>
            obtain ⟨hover, hrest⟩ := historyKept_cons_succ.mp hkept
            obtain ⟨prompt, promptTokens, hbuild, hlt⟩ := hover
            rw [hbuild]
            exact (if_pos hlt).trans (ih.mpr ⟨k, rfl, hrest⟩)

/-! ## The probe -/

theorem userProbe_eq_some {m : Nat} {fitted : Text × Text × Nat} :
    userProbe staticPrefix runtimeText turns tok maxPromptTokens utt m = .ok (some fitted)
      ↔ fitted.1 = trimRawUser utt m tok
        ∧ buildPrompt staticPrefix runtimeText turns fitted.1 tok = .ok fitted.2
        ∧ (fitted.2.2 : Int) ≤ maxPromptTokens := by
  obtain ⟨user, prompt, promptTokens⟩ := fitted
  unfold userProbe
  simp only [trimRawUser_strip]
  constructor
  · intro h
    split at h
    · rename_i hbuild
      split at h
      · rename_i hle
        cases h
        exact ⟨rfl, hbuild, hle⟩
      · cases h
    · cases h
  · intro h
    obtain ⟨rfl, hbuild, hle⟩ := h
    rw [hbuild]
    exact congrArg Except.ok (if_pos hle)

theorem userProbe_eq_none {m : Nat} :
    userProbe staticPrefix runtimeText turns tok maxPromptTokens utt m = .ok none
      ↔ PromptOver staticPrefix runtimeText turns tok maxPromptTokens (trimRawUser utt m tok) := by
  unfold userProbe PromptOver
  simp only [trimRawUser_strip]
  constructor
  · intro h
    split at h
    · rename_i prompt promptTokens hbuild
      split at h
      · cases h
      · rename_i hover
        exact ⟨prompt, promptTokens, hbuild, not_le.mp hover⟩
    · cases h
  · intro h
    obtain ⟨prompt, promptTokens, hbuild, hlt⟩ := h
    rw [hbuild]
    exact congrArg Except.ok (if_neg (not_le.mpr hlt))

theorem accepts_userProbe {m : Nat} :
    (Search.accepts (userProbe staticPrefix runtimeText turns tok maxPromptTokens utt) m).isSome
        = true
      ↔ PromptFits staticPrefix runtimeText turns tok maxPromptTokens (trimRawUser utt m tok) := by
  unfold Search.accepts
  constructor
  · intro h
    split at h
    · rename_i found hprobe
      obtain ⟨fitted, rfl⟩ := Option.isSome_iff_exists.mp h
      obtain ⟨huser, hbuild, hle⟩ := userProbe_eq_some.mp hprobe
      exact ⟨fitted.2.1, fitted.2.2, huser ▸ hbuild, hle⟩
    · cases h
  · intro h
    obtain ⟨prompt, promptTokens, hbuild, hle⟩ := h
    have hprobe : userProbe staticPrefix runtimeText turns tok maxPromptTokens utt m
        = .ok (some (trimRawUser utt m tok, prompt, promptTokens)) :=
      userProbe_eq_some.mpr ⟨rfl, hbuild, hle⟩
    rw [hprobe]
    rfl

/-- Two sizes that are accepted give the same result when they give the same text. -/
theorem userProbe_congr {m n : Nat} {a b : Text × Text × Nat}
    (ha : userProbe staticPrefix runtimeText turns tok maxPromptTokens utt m = .ok (some a))
    (hb : userProbe staticPrefix runtimeText turns tok maxPromptTokens utt n = .ok (some b)) :
    a = b ↔ a.1 = trimRawUser utt n tok := by
  obtain ⟨-, hbuilda, -⟩ := userProbe_eq_some.mp ha
  obtain ⟨hbn, hbuildb, -⟩ := userProbe_eq_some.mp hb
  constructor
  · intro heq
    obtain rfl := heq
    exact hbn
  · intro hsame
    rw [hsame, ← hbn, hbuildb] at hbuilda
    exact Prod.ext (hsame.trans hbn.symm) (Except.ok.inj hbuilda).symm

/-- So a size gives the result of one that is accepted when it gives its text. -/
theorem accepts_userProbe_congr {m n : Nat} {b : Text × Text × Nat}
    (hb : userProbe staticPrefix runtimeText turns tok maxPromptTokens utt n = .ok (some b)) :
    Search.accepts (userProbe staticPrefix runtimeText turns tok maxPromptTokens utt) m = some b
      ↔ trimRawUser utt m tok = trimRawUser utt n tok := by
  rw [Search.accepts_eq_some]
  constructor
  · intro hm
    exact (userProbe_eq_some.mp hm).1.symm.trans (userProbe_eq_some.mp hb).1
  · intro hsame
    obtain ⟨htext, hbuild, hle⟩ := userProbe_eq_some.mp hb
    exact userProbe_eq_some.mpr ⟨htext.trans hsame.symm, hbuild, hle⟩

/-- The search of `_fit_user_from_raw`, for a text that is not blank. -/
theorem fitUserFromRaw_of_ne (hne : strip utt ≠ []) (maxUserTokens : Option Int) :
    fitUserFromRaw staticPrefix runtimeText turns utt tok maxPromptTokens maxUserTokens
      = match Search.search (userProbe staticPrefix runtimeText turns tok maxPromptTokens utt)
          (cappedUserTokens (strip utt) tok maxUserTokens) with
        | .ok (some bestFit) => .ok bestFit
        | .ok none => .error (.valueError
            "prompt exceeds exact context budget even after removing all history and trimming the user turn".toList)
        | .error e => .error e := by
  unfold fitUserFromRaw
  exact if_neg (by simpa using hne)

theorem fitUserFromRaw_of_blank (hblank : strip utt = []) {maxUserTokens : Option Int}
    {fitted : Text × Text × Nat}
    (h : fitUserFromRaw staticPrefix runtimeText turns utt tok maxPromptTokens maxUserTokens
      = .ok fitted) : fitted.1 = [] := by
  unfold fitUserFromRaw at h
  rw [hblank] at h
  dsimp only at h
  rw [if_pos (show ([] : Text).isEmpty = true from rfl)] at h
  split at h
  · cases h
    rfl
  · cases h

/-- How the fit came by what it returns. -/
theorem fitChatPromptToBudget_stages {historyMessages : List ChatMessage}
    {maxUserTokens : Option Int} {fit : PromptFitResult}
    (h : fitChatPromptToBudget staticPrefix runtimeText historyMessages utt tok maxPromptTokens
      maxUserTokens = .ok fit) :
    ∃ kept fitted, dropTurnsToFit staticPrefix runtimeText (maxCandidateUser utt tok maxUserTokens)
        tok maxPromptTokens (groupChatTurns (copyChatMessages historyMessages)) = .ok kept
      ∧ fitUserFromRaw staticPrefix runtimeText kept utt tok maxPromptTokens maxUserTokens
        = .ok fitted
      ∧ fit.historyMessages = flattenChatTurns kept ∧ fit.chatUserUtt = fitted.1 := by
  unfold fitChatPromptToBudget at h
  dsimp only at h
  split at h
  · cases h
  · rename_i kept hkept
    split at h
    · cases h
    · rename_i user prompt promptTokens hfitted
      split at h
      · cases h
      · cases h
        exact ⟨kept, (user, prompt, promptTokens), hkept, hfitted, rfl, rfl⟩

/-! ## The candidate is kept whole -/

/-- Halving settles on a shorter trim that is the candidate all the same. -/
def SameUserBelow (staticPrefix runtimeText : Text) (turns : List (List ChatMessage))
    (tok : HfTokenizer) (maxPromptTokens : Int) (utt : Text) (n : Nat) : Prop :=
  let fits := fun m =>
    PromptFits staticPrefix runtimeText turns tok maxPromptTokens (trimRawUser utt m tok)
  ∃ k < n, trimRawUser utt k tok = trimRawUser utt n tok
    ∧ Search.Settles fits (fun m => ¬ fits m) n k

theorem settlesOn_userProbe {n k : Nat} :
    Search.SettlesOn
        (Search.accepts (userProbe staticPrefix runtimeText turns tok maxPromptTokens utt)) n k
      ↔ Search.Settles
          (fun m => PromptFits staticPrefix runtimeText turns tok maxPromptTokens
            (trimRawUser utt m tok))
          (fun m => ¬ PromptFits staticPrefix runtimeText turns tok maxPromptTokens
            (trimRawUser utt m tok)) n k := by
  simp only [Search.SettlesOn, Search.Settles, ← Option.not_isSome_iff_eq_none, accepts_userProbe]

/-- **When the full size fits, the search returns its text exactly when every size halving
tries on the way up to it fits**, or it settles on a shorter one that is the same text. -/
theorem search_user_iff {n : Nat} (hn : 1 ≤ n) {fitted : Text × Text × Nat}
    (hsearch : Search.search (userProbe staticPrefix runtimeText turns tok maxPromptTokens utt) n
      = .ok (some fitted))
    (hfits : PromptFits staticPrefix runtimeText turns tok maxPromptTokens (trimRawUser utt n tok)) :
    fitted.1 = trimRawUser utt n tok
      ↔ (∀ m ∈ Search.path n n,
            PromptFits staticPrefix runtimeText turns tok maxPromptTokens (trimRawUser utt m tok))
        ∨ SameUserBelow staticPrefix runtimeText turns tok maxPromptTokens utt n := by
  set probe := userProbe staticPrefix runtimeText turns tok maxPromptTokens utt with hprobe
  have hsome : (Search.accepts probe n).isSome = true := accepts_userProbe.mpr hfits
  have hlong : Search.IsLongest (Search.accepts probe) n n :=
    ⟨hn, Nat.le_refl n, hsome, fun m h h' => absurd h (by omega)⟩
  have hpure := Search.search_accepts hsearch
  obtain ⟨whole, hwhole⟩ := Option.isSome_iff_exists.mp hsome
  have hprobed := Search.accepts_eq_some.mp hwhole
  obtain ⟨k₀, hk₀⟩ := Search.search_accepted (P := fun b => ∃ m, probe m = .ok (some b))
    (fun m b hb => ⟨m, hb⟩) hsearch
  have hagree := Search.searchPure_eq_scan_iff (Search.accepts probe) n
  rw [hpure, Search.scan_of_isLongest hlong, hwhole, Option.some.injEq, userProbe_congr hk₀ hprobed,
    hlong.forall_iff] at hagree
  rw [hagree]
  refine or_congr ?_ ?_
  · constructor
    · intro hall m hm
      rcases Nat.lt_or_eq_of_le (Search.mem_pathFrom hm).2 with hlt | rfl
      · exact accepts_userProbe.mp (hall m hm hlt)
      · exact hfits
    · exact fun hall m hm _ => accepts_userProbe.mpr (hall m hm)
  · refine exists_congr fun k => and_congr_right fun _ => ?_
    rw [settlesOn_userProbe, hwhole, accepts_userProbe_congr hprobed]
    exact and_comm

end

/-- The candidate is the trim to the capped size, blank texts included. -/
theorem maxCandidateUser_eq (utt : Text) (tok : HfTokenizer) (maxUserTokens : Option Int) :
    maxCandidateUser utt tok maxUserTokens
      = trimRawUser utt (cappedUserTokens (strip utt) tok maxUserTokens) tok := by
  unfold maxCandidateUser
  dsimp only
  split
  · rename_i hblank
    simp [trimRawUser, hblank]
  · rw [trimRawUser_strip]

/-- A blank text has no tokens to cap. -/
theorem cappedUserTokens_nil (tok : HfTokenizer) (maxUserTokens : Option Int) :
    cappedUserTokens [] tok maxUserTokens = 0 := by
  unfold cappedUserTokens
  cases maxUserTokens <;> simp [HfTokenizer.encodeIds]

/--
**History goes first, and the user text after it.** When the fit returns, what it kept of the
history is the longest suffix of turns whose prompt with the whole capped candidate fits, found
by dropping the oldest first. If the candidate fits with that history, the user text returned is
the candidate exactly when the prompts of all sizes that halving tries on its way up to the
capped size fit, or a shorter trim it settles on is the same text.
-/
theorem fitChatPromptToBudget_candidate_iff {staticPrefix runtimeText utt : Text}
    {historyMessages : List ChatMessage} {tok : HfTokenizer} {maxPromptTokens : Int}
    {maxUserTokens : Option Int} {fit : PromptFitResult}
    (h : fitChatPromptToBudget staticPrefix runtimeText historyMessages utt tok maxPromptTokens
      maxUserTokens = .ok fit) :
    let turns := groupChatTurns (copyChatMessages historyMessages)
    let candidate := maxCandidateUser utt tok maxUserTokens
    let capped := cappedUserTokens (strip utt) tok maxUserTokens
    let fits := fun k user =>
      PromptFits staticPrefix runtimeText (turns.drop k) tok maxPromptTokens user
    ∃ k, fit.historyMessages = flattenChatTurns (turns.drop k) ∧ k ≤ turns.length
      ∧ (∀ j < k, ¬ fits j candidate)
      ∧ (k = turns.length ∨ fits k candidate)
      ∧ (fits k candidate →
          (fit.chatUserUtt = candidate
            ↔ (∀ m ∈ Search.path capped capped, fits k (trimRawUser utt m tok))
              ∨ SameUserBelow staticPrefix runtimeText (turns.drop k) tok maxPromptTokens utt
                capped)) := by
  intro turns candidate capped fits
  obtain ⟨kept, fitted, hkept, hfitted, hhistory, huser⟩ := fitChatPromptToBudget_stages h
  obtain ⟨k, rfl, hle, hbefore, hstop⟩ := dropTurnsToFit_eq_ok.mp hkept
  have hcandidate : candidate = trimRawUser utt capped tok := maxCandidateUser_eq ..
  refine ⟨k, hhistory, hle, fun j hj => not_promptFits_of_over (hbefore j hj),
    hstop.symm.imp_left And.left, ?_⟩
  intro hfits
  by_cases hblank : strip utt = []
  · -- a blank text is its own candidate, and nothing is tried
    have hzero : capped = 0 := by
      show cappedUserTokens (strip utt) tok maxUserTokens = 0
      rw [hblank, cappedUserTokens_nil]
    have hnil : candidate = [] := by
      rw [hcandidate, hzero]
      rfl
    have hpath : Search.path capped capped = [] := by
      rw [hzero]
      rfl
    rw [huser, fitUserFromRaw_of_blank hblank hfitted, hnil, hpath]
    simp
  · rw [fitUserFromRaw_of_ne hblank] at hfitted
    split at hfitted
    · rename_i best hsearch
      cases hfitted
      have hpos : 1 ≤ capped := by
        by_contra hzero
        have hcapped : cappedUserTokens (strip utt) tok maxUserTokens = 0 := by omega
        rw [hcapped] at hsearch
        cases hsearch
      rw [huser, hcandidate]
      exact search_user_iff hpos hsearch (hcandidate ▸ hfits)
    · cases hfitted
    · cases hfitted

/-- What a byte-level decoder makes of tokens: half a character is a question mark. -/
def decodePieces : List Nat → Text
  | 1 :: 2 :: rest => 'é' :: decodePieces rest
  | 3 :: 4 :: 5 :: rest => '?' :: decodePieces rest
  | 1 :: rest => '?' :: decodePieces rest
  | n :: rest => Char.ofNat n :: decodePieces rest
  | [] => []

/-- Two tokens for `é`, three for the question mark, one for anything else, and a template
that only puts the contents one after the other. -/
def pieceTokenizer : HfTokenizer where
  encode := fun text _ => text.flatMap fun c =>
    if c = 'é' then [1, 2] else if c = '?' then [3, 4, 5] else [c.toNat]
  decode := decodePieces
  applyChatTemplate := fun messages _ => .ok (messages.flatMap TemplateMessage.content)

/-- The history goes, and the text is kept. -/
theorem fitChatPromptToBudget_candidate_kept :
    let history : List ChatMessage := [⟨.user, "x".toList⟩, ⟨.assistant, "y".toList⟩]
    let turns := groupChatTurns (copyChatMessages history)
    ∃ k, [] = flattenChatTurns (turns.drop k) ∧ k ≤ turns.length
      ∧ ¬ PromptFits [] [] turns pieceTokenizer 2 "ab".toList
      ∧ ((∀ m ∈ Search.path 2 2,
            PromptFits [] [] (turns.drop k) pieceTokenizer 2
              (trimRawUser "ab".toList m pieceTokenizer))
          ∨ SameUserBelow [] [] (turns.drop k) pieceTokenizer 2 "ab".toList 2) := by
  intro history turns
  have hfit : fitChatPromptToBudget [] [] history "ab".toList pieceTokenizer 2 none
      = .ok ⟨[], "ab".toList, "ab".toList, 2⟩ := by decide +kernel
  have hcandidate : maxCandidateUser "ab".toList pieceTokenizer none = "ab".toList := by decide
  have hcapped : cappedUserTokens (strip "ab".toList) pieceTokenizer none = 2 := by decide
  have hone : turns = [history] := by decide
  obtain ⟨k, hk, hle, hbefore, -, huser⟩ := fitChatPromptToBudget_candidate_iff hfit
  rw [hcandidate] at hbefore huser
  rw [hcapped] at huser
  -- the one turn there is has been dropped
  cases k with
  | zero => exact absurd hk (by decide)
  | succ k =>
      have hnil : turns.drop (k + 1) = [] := List.drop_eq_nil_of_le (by rw [hone]; simp)
      have hfits : PromptFits [] [] (turns.drop (k + 1)) pieceTokenizer 2 "ab".toList := by
        rw [hnil]
        exact ⟨"ab".toList, 2, by decide +kernel, by decide⟩
      exact ⟨k + 1, hk, hle, hbefore 0 (Nat.zero_lt_succ k), (huser hfits).mp rfl⟩

/-- Three tokens fit, but two of them decode to a text of four: `é` is lost. -/
theorem fitChatPromptToBudget_candidate_lost :
    ¬ ∀ (staticPrefix runtimeText utt : Text) (historyMessages : List ChatMessage)
        (tok : HfTokenizer) (maxPromptTokens : Int) (maxUserTokens : Option Int)
        (fit : PromptFitResult),
      fitChatPromptToBudget staticPrefix runtimeText historyMessages utt tok maxPromptTokens
        maxUserTokens = .ok fit →
      let turns := groupChatTurns (copyChatMessages historyMessages)
      let candidate := maxCandidateUser utt tok maxUserTokens
      ∃ k, fit.historyMessages = flattenChatTurns (turns.drop k) ∧
        (PromptFits staticPrefix runtimeText (turns.drop k) tok maxPromptTokens candidate →
          fit.chatUserUtt = candidate) := by
  intro h
  have hfit : fitChatPromptToBudget [] [] [] "aé".toList pieceTokenizer 3 none
      = .ok ⟨[], "a".toList, "a".toList, 1⟩ := by decide +kernel
  obtain ⟨k, -, hcandidate⟩ := h _ _ _ _ _ _ _ _ hfit
  have hturns : (groupChatTurns (copyChatMessages [])).drop k = [] := by
    rw [show groupChatTurns (copyChatMessages []) = [] from rfl, List.drop_nil]
  have hwhole : maxCandidateUser "aé".toList pieceTokenizer none = "aé".toList := by decide
  rw [hturns, hwhole] at hcandidate
  exact absurd (hcandidate ⟨"aé".toList, 3, by decide +kernel, by decide⟩) (by decide)

/-! ## A text that is not blank -/

/-- What the two stages return is returned, if it fits. -/
theorem fitChatPromptToBudget_of_stages {staticPrefix runtimeText utt : Text}
    {historyMessages : List ChatMessage} {tok : HfTokenizer} {maxPromptTokens : Int}
    {maxUserTokens : Option Int} {kept : List (List ChatMessage)} {fitted : Text × Text × Nat}
    (hkept : dropTurnsToFit staticPrefix runtimeText (maxCandidateUser utt tok maxUserTokens) tok
      maxPromptTokens (groupChatTurns (copyChatMessages historyMessages)) = .ok kept)
    (hfitted : fitUserFromRaw staticPrefix runtimeText kept utt tok maxPromptTokens maxUserTokens
      = .ok fitted) (hle : (fitted.2.2 : Int) ≤ maxPromptTokens) :
    ∃ fit, fitChatPromptToBudget staticPrefix runtimeText historyMessages utt tok maxPromptTokens
      maxUserTokens = .ok fit ∧ fit.chatUserUtt = fitted.1 := by
  obtain ⟨user, prompt, promptTokens⟩ := fitted
  unfold fitChatPromptToBudget
  dsimp only
  rw [hkept]
  dsimp only
  rw [hfitted]
  dsimp only
  rw [if_neg (not_lt.mpr hle)]
  exact ⟨_, rfl, rfl⟩

/-- The user text of the chat fit is what the search settles on. -/
theorem fitChatPromptToBudget_kept {staticPrefix runtimeText utt : Text}
    {historyMessages : List ChatMessage} {tok : HfTokenizer} {maxPromptTokens : Int}
    {maxUserTokens : Option Int} (hne : strip utt ≠ []) :
    (∀ fit, fitChatPromptToBudget staticPrefix runtimeText historyMessages utt tok maxPromptTokens
        maxUserTokens = .ok fit → fit.chatUserUtt ≠ [])
      ↔ ∀ kept, dropTurnsToFit staticPrefix runtimeText (maxCandidateUser utt tok maxUserTokens) tok
            maxPromptTokens (groupChatTurns (copyChatMessages historyMessages)) = .ok kept →
          ∀ fitted, Search.search (userProbe staticPrefix runtimeText kept tok maxPromptTokens utt)
            (cappedUserTokens (strip utt) tok maxUserTokens) = .ok (some fitted) → fitted.1 ≠ [] := by
  constructor
  · intro hkeeps kept hkept fitted hsearch
    have hfitted : fitUserFromRaw staticPrefix runtimeText kept utt tok maxPromptTokens maxUserTokens
        = .ok fitted := by
      rw [fitUserFromRaw_of_ne hne, hsearch]
    have hle := Search.search_accepted (P := fun b : Text × Text × Nat =>
      (b.2.2 : Int) ≤ maxPromptTokens) (fun m b hb => (userProbe_eq_some.mp hb).2.2) hsearch
    obtain ⟨fit, hfit, huser⟩ := fitChatPromptToBudget_of_stages hkept hfitted hle
    exact huser ▸ hkeeps fit hfit
  · intro hsearch fit hfit
    obtain ⟨kept, fitted, hkept, hfitted, -, huser⟩ := fitChatPromptToBudget_stages hfit
    rw [fitUserFromRaw_of_ne hne] at hfitted
    split at hfitted
    · rename_i best hbest
      cases hfitted
      exact huser ▸ hsearch kept hkept _ hbest
    · cases hfitted
    · cases hfitted

/-- Halving does not end, over `1 … n`, at a size whose trim is blank: on the path to every such
size some smaller one, or itself, does not fit, or some larger one is not over the limit. -/
def NoBlankEnd (fits exceeds : Nat → Prop) (blank : Nat → Prop) (n : Nat) : Prop :=
  ∀ k, 1 ≤ k → k ≤ n → blank k →
    ∃ m ∈ Search.path k n, (m ≤ k ∧ ¬ fits m) ∨ (k < m ∧ ¬ exceeds m)

/-- **The chat fit keeps a text exactly when halving does not end at a blank trim**: on the path
to every size whose trim is blank, with the history that is kept, something is in the way. -/
theorem fitChatPromptToBudget_kept_iff {staticPrefix runtimeText utt : Text}
    {historyMessages : List ChatMessage} {tok : HfTokenizer} {maxPromptTokens : Int}
    {maxUserTokens : Option Int} (hne : strip utt ≠ []) :
    (∀ fit, fitChatPromptToBudget staticPrefix runtimeText historyMessages utt tok maxPromptTokens
        maxUserTokens = .ok fit → fit.chatUserUtt ≠ [])
      ↔ ∀ j, let turns := groupChatTurns (copyChatMessages historyMessages)
          HistoryKept staticPrefix runtimeText turns tok maxPromptTokens
              (maxCandidateUser utt tok maxUserTokens) j →
            NoBlankEnd
              (fun m => PromptFits staticPrefix runtimeText (turns.drop j) tok maxPromptTokens
                (trimRawUser utt m tok))
              (fun m => PromptOver staticPrefix runtimeText (turns.drop j) tok maxPromptTokens
                (trimRawUser utt m tok))
              (fun m => trimRawUser utt m tok = []) (cappedUserTokens (strip utt) tok maxUserTokens) := by
  rw [fitChatPromptToBudget_kept hne]
  have hsearch : ∀ kept, (∀ fitted, Search.search
        (userProbe staticPrefix runtimeText kept tok maxPromptTokens utt)
          (cappedUserTokens (strip utt) tok maxUserTokens) = .ok (some fitted) → fitted.1 ≠ [])
      ↔ NoBlankEnd
          (fun m => PromptFits staticPrefix runtimeText kept tok maxPromptTokens
            (trimRawUser utt m tok))
          (fun m => PromptOver staticPrefix runtimeText kept tok maxPromptTokens
            (trimRawUser utt m tok))
          (fun m => trimRawUser utt m tok = [])
          (cappedUserTokens (strip utt) tok maxUserTokens) := by
    intro kept
    rw [Search.search_good_iff _ _ (fun fitted : Text × Text × Nat => fitted.1 ≠ [])]
    refine forall_congr' fun k => forall_congr' fun hk => forall_congr' fun hkn => ?_
    simp only [ne_eq, not_not, userProbe_eq_none, ← accepts_userProbe, Search.accepts_eq_some,
      Option.isSome_iff_exists, not_exists]
    constructor
    · intro h hblank
      by_cases hfits : ∃ b, userProbe staticPrefix runtimeText kept tok maxPromptTokens utt k
          = .ok (some b)
      · obtain ⟨b, hb⟩ := hfits
        exact h b hb ((userProbe_eq_some.mp hb).1.trans hblank)
      · -- a blank trim that does not fit is itself in the way
        exact ⟨k, Search.mem_path_self hk hkn, Or.inl ⟨Nat.le_refl k, not_exists.mp hfits⟩⟩
    · intro h b hb hblank
      exact h ((userProbe_eq_some.mp hb).1.symm.trans hblank)
  simp only [hsearch]
  constructor
  · exact fun h j hhistory => h _ (dropTurnsToFit_eq_ok.mpr ⟨j, rfl, hhistory⟩)
  · intro h kept hdropped
    obtain ⟨j, rfl, hhistory⟩ := dropTurnsToFit_eq_ok.mp hdropped
    exact h j hhistory

/-! ## Tool input -/

/-- The probe of `_fit_current_user_to_budget` when no history is left. -/
def toolUserProbe (tok : Option HfTokenizer) (maxInputTokens : Int) (utt : Text)
    (remaining : Nat) : Option (Text × Nat) :=
  let trimmed := trimToolUser (strip utt) remaining tok
  let inputTokens := countInputTokens [] trimmed tok
  if inputTokens ≤ maxInputTokens then some (trimmed, inputTokens) else none

/-- With no part of the history does the whole text fit. -/
def ToolInputOver (priorUserTexts : List Text) (tok : Option HfTokenizer) (maxInputTokens : Int)
    (utt : Text) : Prop :=
  ∀ lines, lines <:+ normalizeUserTexts priorUserTexts →
    maxInputTokens < (countInputTokens lines (strip utt) tok : Int)

section

variable {tok : Option HfTokenizer} {maxInputTokens : Int} {utt : Text}

@[simp] theorem trimToolUser_strip (text : Text) (n : Nat) :
    trimToolUser (strip text) n tok = trimToolUser text n tok := by
  simp [trimToolUser]

theorem toolUserProbe_eq_some {m : Nat} {fitted : Text × Nat} :
    toolUserProbe tok maxInputTokens utt m = some fitted
      ↔ fitted.1 = trimToolUser utt m tok ∧ fitted.2 = countInputTokens [] fitted.1 tok
        ∧ (fitted.2 : Int) ≤ maxInputTokens := by
  obtain ⟨user, inputTokens⟩ := fitted
  unfold toolUserProbe
  simp only [trimToolUser_strip]
  constructor
  · intro h
    split at h
    · rename_i hle
      cases h
      exact ⟨rfl, rfl, hle⟩
    · cases h
  · intro h
    obtain ⟨rfl, rfl, hle⟩ := h
    exact if_pos hle

theorem toolUserProbe_isSome {m : Nat} :
    (toolUserProbe tok maxInputTokens utt m).isSome = true
      ↔ (countInputTokens [] (trimToolUser utt m tok) tok : Int) ≤ maxInputTokens := by
  unfold toolUserProbe
  simp only [trimToolUser_strip]
  split <;> simp [*]

/-- The loop over the lines ends over the limit only when no suffix fits. -/
theorem dropLinesToFit_over (rawUser : Text) (lines : List Text) :
    maxInputTokens
        < (countInputTokens (dropLinesToFit rawUser tok maxInputTokens lines) rawUser tok : Int)
      ↔ ∀ kept, kept <:+ lines → maxInputTokens < (countInputTokens kept rawUser tok : Int) := by
  fun_induction dropLinesToFit rawUser tok maxInputTokens lines with
  | case1 => simp
  | case2 line rest hover ih =>
      rw [ih]
      constructor
      · intro hall kept hkept
        rcases List.suffix_cons_iff.mp hkept with rfl | hkept
        · exact hover
        · exact hall kept hkept
      · exact fun hall kept hkept => hall kept (hkept.trans (List.suffix_cons line rest))
  | case3 line rest hunder =>
      exact ⟨fun hover => absurd hover hunder, fun hall => hall _ List.suffix_rfl⟩

theorem fitCurrentUserToBudget_of_ne (hne : strip utt ≠ []) :
    fitCurrentUserToBudget (strip utt) [] tok maxInputTokens
      = match Search.searchPure (toolUserProbe tok maxInputTokens utt)
          (countToolTokens (strip utt) tok false) with
        | some bestFit => .ok bestFit
        | none => .error (.valueError
            "tool input exceeds exact budget even after removing all history and trimming the user turn".toList) := by
  unfold fitCurrentUserToBudget
  simp only [strip_strip]
  exact if_neg (by simpa using hne)

/-- The user text of the tool fit: the whole text if it fits with some of the history, and
otherwise what the search settles on. -/
theorem fitToolInputToBudget_user {priorUserTexts : List Text} (hne : strip utt ≠ []) :
    (match fitToolInputToBudget priorUserTexts utt tok maxInputTokens with
      | .ok fit => fit.toolUserUtt ≠ []
      | .error e => ∃ message, e = .valueError message)
      ↔ (0 < maxInputTokens → ToolInputOver priorUserTexts tok maxInputTokens utt →
          ∀ fitted, Search.searchPure (toolUserProbe tok maxInputTokens utt)
            (countToolTokens (strip utt) tok false) = some fitted → fitted.1 ≠ []) := by
  by_cases hpos : maxInputTokens ≤ 0
  · have hraises : fitToolInputToBudget priorUserTexts utt tok maxInputTokens
        = .error (.valueError "tool input exceeds exact budget before backend call".toList) :=
      if_pos hpos
    rw [hraises]
    exact ⟨fun _ h => absurd h (by omega), fun _ => ⟨_, rfl⟩⟩
  have hkept := dropLinesToFit_spec (strip utt) tok maxInputTokens (normalizeUserTexts priorUserTexts)
  have hover := @dropLinesToFit_over tok maxInputTokens (strip utt)
    (normalizeUserTexts priorUserTexts)
  unfold fitToolInputToBudget
  rw [if_neg hpos]
  dsimp only at hkept ⊢
  revert hkept hover
  generalize dropLinesToFit (strip utt) tok maxInputTokens (normalizeUserTexts priorUserTexts) = kept
  intro h hover
  obtain ⟨-, hdropped⟩ := h
  by_cases hlt : maxInputTokens < (countInputTokens kept (strip utt) tok : Int)
  · -- everything has been dropped, and the text is searched
    have hnil : kept = [] := hdropped.resolve_right (not_le.mpr hlt)
    subst hnil
    have hall : ToolInputOver priorUserTexts tok maxInputTokens utt := hover.mp hlt
    rw [if_pos hlt, fitCurrentUserToBudget_of_ne hne]
    cases hsearch : Search.searchPure (toolUserProbe tok maxInputTokens utt)
        (countToolTokens (strip utt) tok false) with
    | none => exact ⟨fun _ _ _ fitted h => absurd h (by simp), fun _ => ⟨_, rfl⟩⟩
    | some fitted =>
        have hle := Search.searchPure_accepted (P := fun b : Text × Nat =>
          (b.2 : Int) ≤ maxInputTokens) (fun m b hb => (toolUserProbe_eq_some.mp hb).2.2) hsearch
        dsimp only
        rw [if_neg (not_lt.mpr hle)]
        constructor
        · intro hkeeps _ _ fitted' hsame
          cases hsame
          exact hkeeps
        · exact fun h => h (by omega) hall fitted rfl
  · -- the whole text fits with what is left
    rw [if_neg hlt]
    dsimp only
    rw [if_neg hlt]
    exact ⟨fun _ _ hall => absurd (hover.mpr hall) hlt, fun _ => hne⟩

/-- **The tool fit keeps a text exactly when halving does not end at a blank trim.** An empty
text always fits. -/
theorem fitToolInputToBudget_kept_iff {priorUserTexts : List Text} (hne : strip utt ≠ []) :
    (match fitToolInputToBudget priorUserTexts utt tok maxInputTokens with
      | .ok fit => fit.toolUserUtt ≠ []
      | .error e => ∃ message, e = .valueError message)
      ↔ (0 < maxInputTokens → ToolInputOver priorUserTexts tok maxInputTokens utt →
          NoBlankEnd
            (fun m => (countInputTokens [] (trimToolUser utt m tok) tok : Int) ≤ maxInputTokens)
            (fun m => maxInputTokens < (countInputTokens [] (trimToolUser utt m tok) tok : Int))
            (fun m => trimToolUser utt m tok = []) (countToolTokens (strip utt) tok false)) := by
  rw [fitToolInputToBudget_user hne]
  refine forall_congr' fun hpos => forall_congr' fun _ => ?_
  rw [Search.searchPure_good_iff _ _ (fun fitted : Text × Nat => fitted.1 ≠ [])]
  refine forall_congr' fun k => forall_congr' fun _ => forall_congr' fun _ => ?_
  simp only [ne_eq, not_not, not_lt, ← toolUserProbe_isSome, ← Option.not_isSome_iff_eq_none]
  constructor
  · intro h hblank
    have hzero : countInputTokens [] [] tok = 0 := by cases tok <;> rfl
    exact h ([], 0) (toolUserProbe_eq_some.mpr ⟨hblank.symm, hzero.symm, by omega⟩) rfl
  · intro h fitted hprobe hblank
    exact h ((toolUserProbe_eq_some.mp hprobe).1 ▸ hblank)

end

/-- **Neither fitter drops a text that is not blank, unless halving ends at a trim that is blank.**
For every history, budget, template and tokenizer, and for the tool also without one: the chat fit
returns a text that is not empty or raises, and the tool fit does so or raises a `ValueError`,
exactly when, on the halving path to every size whose trim is blank, a smaller size or that one does
not fit or a larger one is not over the limit. -/
theorem fits_keep_user_iff (staticPrefix runtimeText : Text) (historyMessages : List ChatMessage)
    (chatTok : HfTokenizer) (maxPromptTokens : Int) (maxUserTokens : Option Int)
    (priorUserTexts : List Text) (toolTok : Option HfTokenizer) (maxInputTokens : Int)
    {utt : Text} (hne : strip utt ≠ []) :
    ((match fitChatPromptToBudget staticPrefix runtimeText historyMessages utt chatTok
          maxPromptTokens maxUserTokens with
        | .ok fit => fit.chatUserUtt ≠ []
        | .error e => FitRaises chatTok e)
      ↔ ∀ j, let turns := groupChatTurns (copyChatMessages historyMessages)
          HistoryKept staticPrefix runtimeText turns chatTok maxPromptTokens
              (maxCandidateUser utt chatTok maxUserTokens) j →
            NoBlankEnd
              (fun m => PromptFits staticPrefix runtimeText (turns.drop j) chatTok maxPromptTokens
                (trimRawUser utt m chatTok))
              (fun m => PromptOver staticPrefix runtimeText (turns.drop j) chatTok maxPromptTokens
                (trimRawUser utt m chatTok))
              (fun m => trimRawUser utt m chatTok = [])
              (cappedUserTokens (strip utt) chatTok maxUserTokens))
    ∧ ((match fitToolInputToBudget priorUserTexts utt toolTok maxInputTokens with
        | .ok fit => fit.toolUserUtt ≠ []
        | .error e => ∃ message, e = .valueError message)
      ↔ (0 < maxInputTokens → ToolInputOver priorUserTexts toolTok maxInputTokens utt →
          NoBlankEnd
            (fun m => (countInputTokens [] (trimToolUser utt m toolTok) toolTok : Int)
              ≤ maxInputTokens)
            (fun m => maxInputTokens
              < (countInputTokens [] (trimToolUser utt m toolTok) toolTok : Int))
            (fun m => trimToolUser utt m toolTok = [])
            (countToolTokens (strip utt) toolTok false))) := by
  refine ⟨?_, fitToolInputToBudget_kept_iff hne⟩
  rw [← fitChatPromptToBudget_kept_iff hne]
  have hcases := fitChatPromptToBudget_cases staticPrefix runtimeText historyMessages utt chatTok
    maxPromptTokens maxUserTokens
  revert hcases
  cases fitChatPromptToBudget staticPrefix runtimeText historyMessages utt chatTok maxPromptTokens
    maxUserTokens with
  | error e => exact fun hraises => ⟨fun _ fit h => absurd h (by simp), fun _ => hraises⟩
  | ok fit =>
      intro _
      constructor
      · intro hkeeps fit' h
        cases h
        exact hkeeps
      · exact fun h => h fit rfl

/-- Two special tokens at the end: the trims to one and to two tokens are blank and fit, but so
does the one to three, and it is on the way to both. -/
theorem fits_keep_user_marked :
    (match fitToolInputToBudget [] "ab##".toList (some markTokenizer) 3 with
      | .ok fit => fit.toolUserUtt ≠ []
      | .error e => ∃ message, e = .valueError message) :=
  (fits_keep_user_iff [] [] [] markTokenizer 0 none [] (some markTokenizer) 3
    (show strip "ab##".toList ≠ [] by decide)).2.mpr (by
      intro _ _ k hk hkn hblank
      have hsize : countToolTokens (strip "ab##".toList) (some markTokenizer) false = 4 := by decide
      rw [hsize] at hkn ⊢
      have hcases : k = 1 ∨ k = 2 ∨ k = 3 ∨ k = 4 := by omega
      rcases hcases with rfl | rfl | rfl | rfl
      · exact ⟨2, by decide, Or.inr (by decide)⟩
      · exact ⟨3, by decide, Or.inr (by decide)⟩
      · exact absurd hblank (by decide)
      · exact absurd hblank (by decide))

/-- Special tokens at the end of the tool text and at the start of the chat text: the trims
that fit are empty, and an empty text is what is returned. -/
theorem fits_drop_user :
    ¬ (∀ (historyMessages : List ChatMessage) (tok : HfTokenizer) (maxPromptTokens : Int)
          (utt : Text), strip utt ≠ [] →
        match fitChatPromptToBudget [] [] historyMessages utt tok maxPromptTokens none with
          | .ok fit => fit.chatUserUtt ≠ []
          | .error e => ∃ message, e = .valueError message)
      ∧ ¬ ∀ (priorUserTexts : List Text) (tok : HfTokenizer) (maxInputTokens : Int) (utt : Text),
          strip utt ≠ [] →
          match fitToolInputToBudget priorUserTexts utt (some tok) maxInputTokens with
            | .ok fit => fit.toolUserUtt ≠ []
            | .error e => ∃ message, e = .valueError message := by
  constructor
  · intro h
    have hchat : fitChatPromptToBudget [] [] [] "##ab".toList markTokenizer 25 none
        = .ok ⟨[], [], "<|im_start|>assistant".toList, 21⟩ := by decide +kernel
    have hkept := h [] markTokenizer 25 "##ab".toList (by decide)
    rw [hchat] at hkept
    exact hkept rfl
  · intro h
    have htool : fitToolInputToBudget [] "ab##".toList (some markTokenizer) 2
        = .ok ⟨[], [], 0⟩ := by decide
    have hkept := h [] markTokenizer 2 "ab##".toList (by decide)
    rw [htool] at hkept
    exact hkept rfl

end YapInference

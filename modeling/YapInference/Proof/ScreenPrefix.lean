import YapInference.Execution.Executor

/-!
# Putting a screen prefix on and taking it off

A screen turn sends the model `prefix utterance`, and every reader of the turn takes the
prefix off again with `strip_screen_prefix`, which removes the first of the two prefixes
that matches, once. Two facts decide whether that loses or keeps something it should
not: whether the check prefix also matches an utterance under the other prefix, and
whether what is left after a removal starts with a prefix again.
-/

namespace YapInference

open Py

/-- The comparison `_try_strip` makes, exactly or in lower case. -/
def leadsWith (lower : Lower) (candidate value : Text) : Bool :=
  startsWith value candidate || startsWith (lower value) (lower candidate)

/-- The prefix `strip_screen_prefix` removes from a text, if any. -/
def leadingPrefix (lower : Lower) (check checked text : Text) : Option Text :=
  if text.isEmpty then none
  else [check, checked].find? fun candidate =>
    !(strip candidate).isEmpty && leadsWith lower candidate text

/-! ## One removal -/

theorem tryStrip_eq (lower : Lower) (candidate value : Text) :
    tryStrip lower candidate value
      = if !(strip candidate).isEmpty && leadsWith lower candidate value then
          some (lstrip (value.drop candidate.length))
        else none := by
  rcases hc : candidate with _ | ⟨c, rest⟩
  · rfl
  · unfold tryStrip leadsWith
    rcases hblank : (strip (c :: rest)).isEmpty <;>
    rcases startsWith value (c :: rest) <;>
    rcases startsWith (lower value) (lower (c :: rest)) <;>
    simp

/-- Stripping removes the leading prefix and the white space after it. -/
theorem stripScreenPrefix_eq (lower : Lower) (text check checked : Text) :
    stripScreenPrefix lower text check checked
      = match leadingPrefix lower check checked text with
        | some candidate => lstrip (text.drop candidate.length)
        | none => text := by
  unfold stripScreenPrefix leadingPrefix
  split
  · rename_i hempty
    rw [List.isEmpty_iff.mp hempty]
  · simp only [tryStrip_eq, List.find?_cons, List.find?_nil]
    rcases (!(strip check).isEmpty && leadsWith lower check text) <;>
    rcases (!(strip checked).isEmpty && leadsWith lower checked text) <;> rfl

theorem stripScreenPrefix_of_none {lower : Lower} {text check checked : Text}
    (h : leadingPrefix lower check checked text = none) :
    stripScreenPrefix lower text check checked = text := by
  rw [stripScreenPrefix_eq, h]

theorem stripScreenPrefix_of_some {lower : Lower} {text check checked candidate : Text}
    (h : leadingPrefix lower check checked text = some candidate) :
    stripScreenPrefix lower text check checked = lstrip (text.drop candidate.length) := by
  rw [stripScreenPrefix_eq, h]

theorem length_lstrip_le (t : Text) : (lstrip t).length ≤ t.length :=
  (lstrip_suffix t).length_le

/-- A removal always shortens the text. -/
theorem length_lstrip_drop_lt {lower : Lower} {text check checked candidate : Text}
    (h : leadingPrefix lower check checked text = some candidate) :
    (lstrip (text.drop candidate.length)).length < text.length := by
  unfold leadingPrefix at h
  split at h
  · exact absurd h (by simp)
  · rename_i htext
    have hcandidate := List.find?_some h
    have hpos : 0 < candidate.length := by
      rcases candidate with _ | ⟨c, rest⟩
      · exact absurd hcandidate (by simp)
      · simp
    have htpos : 0 < text.length := List.length_pos_iff.mpr fun hnil => htext (by simp [hnil])
    have hle := length_lstrip_le (text.drop candidate.length)
    rw [List.length_drop] at hle
    omega

/-- The check prefix comes first. -/
theorem leadingPrefix_check {lower : Lower} {check checked text : Text} (hc : Clean check)
    (htext : text ≠ []) (h : leadsWith lower check text = true) :
    leadingPrefix lower check checked text = some check := by
  have hkept : (!(strip check).isEmpty) = true := by simp [hc.strip_eq, hc.ne]
  rw [leadingPrefix, if_neg (by simpa using htext), List.find?_cons, hkept, h]
  rfl

/-- The other one is removed where that one does not match. -/
theorem leadingPrefix_checked {lower : Lower} {check checked text : Text} (hc : Clean checked)
    (htext : text ≠ []) (hnot : leadsWith lower check text = false)
    (h : leadsWith lower checked text = true) :
    leadingPrefix lower check checked text = some checked := by
  have hkept : (!(strip checked).isEmpty) = true := by simp [hc.strip_eq, hc.ne]
  rw [leadingPrefix, if_neg (by simpa using htext), List.find?_cons, hnot, List.find?_cons, hkept, h]
  simp

/-! ## Stripping twice -/

/-- **Stripping twice is stripping once exactly when what is left after the leading
prefix starts with neither prefix.** -/
theorem stripScreenPrefix_idempotent_iff (lower : Lower) (text check checked : Text) :
    stripScreenPrefix lower (stripScreenPrefix lower text check checked) check checked
        = stripScreenPrefix lower text check checked
      ↔ ∀ candidate, leadingPrefix lower check checked text = some candidate →
          leadingPrefix lower check checked (lstrip (text.drop candidate.length)) = none := by
  rcases hlead : leadingPrefix lower check checked text with _ | candidate
  · simp [stripScreenPrefix_of_none hlead]
  · rw [stripScreenPrefix_of_some hlead]
    simp only [Option.some.injEq, forall_eq']
    constructor
    · intro hsame
      rcases hagain : leadingPrefix lower check checked (lstrip (text.drop candidate.length))
        with _ | second
      · rfl
      · -- a second removal would shorten the text again
        rw [stripScreenPrefix_of_some hagain] at hsame
        have hlt := length_lstrip_drop_lt hagain
        rw [hsame] at hlt
        exact absurd hlt (Nat.lt_irrefl _)
    · exact stripScreenPrefix_of_none

/-- A text with the check prefix twice is stripped twice. -/
theorem stripScreenPrefix_not_idempotent :
    ¬ ∀ (lower : Lower) (text check checked : Text),
      stripScreenPrefix lower (stripScreenPrefix lower text check checked) check checked
        = stripScreenPrefix lower text check checked := by
  intro h
  have := h (List.map Char.toLower) "CHECK: CHECK: hi".toList "CHECK:".toList "NOW:".toList
  exact absurd this (by decide)

/-! ## The round trip -/

/-- Cutting `n` characters off a prefixed utterance, and the white space after them,
leaves the utterance only where the cut ends at the separating space. -/
theorem lstrip_drop_prefixed {p u : Text} (hp : Clean p) (hu : Clean u) (n : Nat) :
    lstrip ((p ++ [' '] ++ u).drop n) = u ↔ n = p.length ∨ n = p.length + 1 := by
  have hupos : 0 < u.length := List.length_pos_iff.mpr hu.ne
  constructor
  · intro heq
    by_contra hn
    rcases Nat.lt_or_ge n p.length with hlt | hge
    · -- the cut leaves the end of the prefix, which is not white space
      have hrest : p.drop n ≠ [] := by simpa [List.drop_eq_nil_iff] using hlt
      have hcut : (p ++ [' '] ++ u).drop n = p.drop n ++ ([' '] ++ u) := by
        rw [List.append_assoc, List.drop_append_of_le_length (Nat.le_of_lt hlt)]
      have hsplit : lstrip (p.drop n ++ ([' '] ++ u)) = lstrip (p.drop n) ++ ([' '] ++ u) := by
        unfold lstrip
        rw [List.dropWhile_append, if_neg]
        intro hblank
        have hall : ∀ c ∈ p.drop n, isSpace c = true := by
          simpa [List.dropWhile_eq_nil_iff] using hblank
        have hlast := hp.last (p.getLast hp.ne) (List.getLast?_eq_some_getLast hp.ne)
        have hmem : p.getLast hp.ne ∈ p.drop n := by
          rw [← List.getLast_drop hrest]
          exact List.getLast_mem hrest
        rw [hall _ hmem] at hlast
        exact absurd hlast (by simp)
      rw [hcut, hsplit] at heq
      have hlen := congrArg List.length heq
      simp only [List.length_append, List.length_singleton] at hlen
      omega
    · -- the cut reaches into the utterance
      have hle := length_lstrip_le ((p ++ [' '] ++ u).drop n)
      rw [heq] at hle
      simp only [List.length_drop, List.length_append, List.length_singleton] at hle
      omega
  · intro h
    rcases h with rfl | rfl
    · rw [List.append_assoc, List.drop_left]
      exact hu.lstrip_eq
    · have hcut : (p ++ [' '] ++ u).drop (p.length + 1) = u := by
        rw [show p.length + 1 = (p ++ [' ']).length by simp, List.drop_left]
      rw [hcut, hu.lstrip_eq]

/-- A resolved prefix is stripped. -/
theorem clean_resolveScreenPrefix {state : SessionState} {default : Text} {isChecked : Bool}
    (h : resolveScreenPrefix state default isChecked ≠ []) :
    Clean (resolveScreenPrefix state default isChecked) := by
  obtain ⟨t, ht⟩ : ∃ t, resolveScreenPrefix state default isChecked = strip t := by
    unfold resolveScreenPrefix
    dsimp only
    generalize (if isChecked then _ else _ : Option Text) = stored
    split
    · exact ⟨_, rfl⟩
    · exact ⟨_, rfl⟩
  rw [ht] at h ⊢
  exact clean_strip h

/-- Every way `_resolve_user_utterance_for_chat` puts a prefix before the utterance is
undone by `normalize_user_utterances`. -/
def PrefixRoundTrip (sh : SessionHandler) (state : SessionState) (chatUserUtt : Text) : Prop :=
  ∀ isTool applyScreenCheckedPrefix : Bool, (isTool || applyScreenCheckedPrefix) = true →
    let prefixed := resolveUserUtteranceForChat sh state chatUserUtt isTool applyScreenCheckedPrefix
    (sh.normalizeUserUtterances prefixed.1 prefixed.2 none).1 = chatUserUtt

theorem normalize_toolTurn (sh : SessionHandler) (state : SessionState) (u : Text)
    (applyScreenCheckedPrefix : Bool) :
    let prefixed := resolveUserUtteranceForChat sh state u true applyScreenCheckedPrefix
    (sh.normalizeUserUtterances prefixed.1 prefixed.2 none).1
      = sh.stripScreenPrefixes state
          (strip (resolveScreenPrefix state sh.server.defaultCheckScreenPrefix false
            ++ [' '] ++ u)) := rfl

theorem normalize_followup (sh : SessionHandler) (state : SessionState) (u : Text) :
    let prefixed := resolveUserUtteranceForChat sh state u false true
    (sh.normalizeUserUtterances prefixed.1 prefixed.2 none).1
      = sh.stripScreenPrefixes state
          (strip (resolveScreenPrefix state sh.server.defaultScreenCheckedPrefix true
            ++ [' '] ++ u)) := rfl

/-- The round trip is one equation for each prefix. -/
theorem prefixRoundTrip_forms (sh : SessionHandler) (state : SessionState) (u : Text) :
    PrefixRoundTrip sh state u
      ↔ sh.stripScreenPrefixes state (strip (resolveScreenPrefix state
            sh.server.defaultCheckScreenPrefix false ++ [' '] ++ u)) = u
        ∧ sh.stripScreenPrefixes state (strip (resolveScreenPrefix state
            sh.server.defaultScreenCheckedPrefix true ++ [' '] ++ u)) = u := by
  constructor
  · intro h
    have hcheck := h true false rfl
    have hchecked := h false true rfl
    dsimp only at hcheck hchecked
    rw [normalize_toolTurn] at hcheck
    rw [normalize_followup] at hchecked
    exact ⟨hcheck, hchecked⟩
  · rintro ⟨hcheck, hchecked⟩ (_ | _) applyScreenCheckedPrefix hflag
    · rw [Bool.false_or] at hflag
      rw [hflag]
      exact (normalize_followup sh state u).trans hchecked
    · exact (normalize_toolTurn sh state u applyScreenCheckedPrefix).trans hcheck

/-- **A stripped utterance survives its prefix exactly when the check prefix does not match
it under the other prefix**, or matches just as much as that prefix takes up. -/
theorem prefixRoundTrip_iff (sh : SessionHandler) (state : SessionState) {u : Text} (hu : Clean u)
    (hcheck : resolveScreenPrefix state sh.server.defaultCheckScreenPrefix false ≠ [])
    (hchecked : resolveScreenPrefix state sh.server.defaultScreenCheckedPrefix true ≠ []) :
    let check := resolveScreenPrefix state sh.server.defaultCheckScreenPrefix false
    let checked := resolveScreenPrefix state sh.server.defaultScreenCheckedPrefix true
    PrefixRoundTrip sh state u
      ↔ leadsWith sh.lower check (checked ++ [' '] ++ u) = false
        ∨ check.length = checked.length ∨ check.length = checked.length + 1 := by
  intro check checked
  have hclean : Clean check := clean_resolveScreenPrefix hcheck
  have hcleaned : Clean checked := clean_resolveScreenPrefix hchecked
  have hstrip : ∀ {p : Text}, Clean p → strip (p ++ [' '] ++ u) = p ++ [' '] ++ u :=
    fun hp => (hp.append hu [' ']).strip_eq
  have hleads : ∀ p : Text, leadsWith sh.lower p (p ++ [' '] ++ u) = true := fun p => by
    simp [leadsWith, startsWith, List.append_assoc]
  have hne : ∀ p : Text, p ++ [' '] ++ u ≠ [] := fun p => by simp
  -- the check prefix comes off its own utterance
  have hfirst : sh.stripScreenPrefixes state (strip (check ++ [' '] ++ u)) = u := by
    have hlead := @leadingPrefix_check sh.lower check checked _ hclean (hne check) (hleads check)
    rw [hstrip hclean, SessionHandler.stripScreenPrefixes, stripScreenPrefix_of_some hlead]
    exact (lstrip_drop_prefixed hclean hu _).mpr (Or.inl rfl)
  have hsecond : sh.stripScreenPrefixes state (strip (checked ++ [' '] ++ u)) = u
      ↔ leadsWith sh.lower check (checked ++ [' '] ++ u) = false
        ∨ check.length = checked.length ∨ check.length = checked.length + 1 := by
    rw [hstrip hcleaned, SessionHandler.stripScreenPrefixes]
    rcases hmatch : leadsWith sh.lower check (checked ++ [' '] ++ u)
    · have hlead := leadingPrefix_checked hcleaned (hne checked) hmatch (hleads checked)
      rw [stripScreenPrefix_of_some hlead]
      simp only [true_or, iff_true]
      exact (lstrip_drop_prefixed hcleaned hu _).mpr (Or.inl rfl)
    · have hlead := @leadingPrefix_check sh.lower check checked _ hclean (hne checked) hmatch
      rw [stripScreenPrefix_of_some hlead]
      simp only [Bool.true_eq_false, false_or]
      exact lstrip_drop_prefixed hcleaned hu _
  rw [prefixRoundTrip_forms, ← hsecond]
  exact ⟨fun h => h.2, fun h => ⟨hfirst, h⟩⟩

/-- A session whose client chose its own two prefixes. -/
def sessionWithPrefixes (check checked : Text) : SessionState :=
  { SessionState.fresh "client".toList with
    metadata :=
      { (SessionState.fresh "client".toList).metadata with
        checkScreenPrefix := some check
        screenCheckedPrefix := some checked } }

/-- Prefixes with nothing in common. -/
theorem prefixRoundTrip_apart :
    PrefixRoundTrip (.sample true true) (sessionWithPrefixes "CHECK:".toList "NOW:".toList)
      "hi".toList :=
  (prefixRoundTrip_iff (.sample true true) (sessionWithPrefixes "CHECK:".toList "NOW:".toList)
    (u := "hi".toList) (by decide) (by decide) (by decide)).mpr (Or.inl (by decide))

/-- The check prefix starts the other one: `NOW:` stays in the stored utterance. -/
theorem prefixRoundTrip_overlap :
    ¬ ∀ (sh : SessionHandler) (state : SessionState) (u : Text), Clean u →
      resolveScreenPrefix state sh.server.defaultCheckScreenPrefix false ≠ [] →
      resolveScreenPrefix state sh.server.defaultScreenCheckedPrefix true ≠ [] →
      PrefixRoundTrip sh state u := by
  intro h
  have hback := h (.sample true true)
    (sessionWithPrefixes "SCREEN".toList "SCREEN NOW:".toList) "hi".toList
    (by decide) (by decide) (by decide) false true rfl
  exact absurd hback (by decide)

end YapInference

import YapInference.Proof.AuthThrottle

/-!
# Every attempt is accounted for

A handshake that is not throttled ends in one of three ways: the origin or the key is rejected, and
the failure is recorded; or the key is right, and the client's failures are forgotten. The way out
that does neither is the exception of `hmac.compare_digest`, which takes no text beyond ASCII.
-/

namespace YapInference

open Py Window

variable {lower : Lower} {config : AuthRuntimeConfig} {failures : AuthFailures}
  {websocket : AuthRequest} {now recordedAt : ℚ}

/-- All of it is ASCII. -/
def IsAscii (text : Text) : Prop := ∀ c ∈ text, c.toNat < 128

/-- Is the client throttled at `now`? -/
def Throttled (config : AuthRuntimeConfig) (failures : AuthFailures) (websocket : AuthRequest)
    (now : ℚ) : Prop :=
  config.maxAuthFailuresPerWindow ≤ (prune config.rateLimitWindowSeconds now
    (failuresOf failures (clientFailureKey websocket.clientHost))).length

/-- The key of the request: of the header, else of the bearer token. -/
def selectedKey (lower : Lower) (websocket : AuthRequest) : Option Text :=
  selectApiKey [websocket.xApiKey, extractBearerKey lower websocket.authorization]

/-- The client is let through. -/
def Admitted (lower : Lower) (config : AuthRuntimeConfig) (failures : AuthFailures)
    (websocket : AuthRequest) (now : ℚ) : Prop :=
  ¬ Throttled config failures websocket now
    ∧ isOriginAllowed websocket.origin config.allowedOrigins = true
    ∧ ∃ key, key ≠ [] ∧ config.textApiKey = some key ∧ selectedKey lower websocket = some key

/-- One failure more: the expired times are dropped, and the time of this one is added. -/
def OneMore (window now recordedAt : ℚ) (before after : List ℚ) : Prop :=
  ∃ dropped kept, before = dropped ++ kept ∧ after = kept ++ [recordedAt]
    ∧ (∀ t ∈ dropped, t ≤ now - window ∨ t ≤ recordedAt - window)
    ∧ (before.Pairwise (· ≤ ·) → ∀ t ∈ kept, recordedAt - window < t)

/-- **What an attempt owes its caller and the store.** -/
structure Accounted (lower : Lower) (config : AuthRuntimeConfig) (failures : AuthFailures)
    (websocket : AuthRequest) (now recordedAt : ℚ) (failures' : AuthFailures)
    (result : Except Exc Bool) : Prop where
  /-- It returns, -/
  returns : ∃ authenticated, result = .ok authenticated
  /-- true to those it lets through. -/
  admits : result = .ok true ↔ Admitted lower config failures websocket now
  /-- A rejection counts, -/
  counts : result = .ok false → ¬ Throttled config failures websocket now → ∃ entries,
    failures'.get? (clientFailureKey websocket.clientHost) = some entries
      ∧ OneMore config.rateLimitWindowSeconds now recordedAt
        (failuresOf failures (clientFailureKey websocket.clientHost)) entries
  /-- and a success wipes the slate. -/
  clears : result = .ok true → failures'.get? (clientFailureKey websocket.clientHost) = none
  /-- Nobody else's count changes. -/
  frame : ∀ clientKey, clientKey ≠ clientFailureKey websocket.clientHost →
    failures'.get? clientKey = failures.get? clientKey

/-! ## The key -/

theorem selectApiKey_ne_nil {candidates : List (Option Text)} {key : Text}
    (h : selectApiKey candidates = some key) : key ≠ [] := by
  obtain ⟨candidate, -, hfilter⟩ := List.exists_of_findSome?_eq_some h
  intro heq
  obtain rfl := heq
  simp [Option.filter_eq_some_iff] at hfilter

theorem isAscii_iff {text : Text} : IsAscii text ↔ text.all (fun c => c.toNat < 128) = true := by
  simp [IsAscii]

theorem compareDigest_ascii {a b : Text} (hb : IsAscii b) :
    compareDigest a b = if a.all (fun c => c.toNat < 128) then .ok (a == b)
      else .error (.typeError "comparing strings with non-ASCII characters is not supported".toList) := by
  rw [compareDigest, List.all_append, isAscii_iff.mp hb, Bool.and_true]

/-- The attempt does not hand `compare_digest` a key it does not take. -/
def Comparable (lower : Lower) (config : AuthRuntimeConfig) (websocket : AuthRequest) : Prop :=
  isOriginAllowed websocket.origin config.allowedOrigins = false
    ∨ config.textApiKey.getD [] = []
    ∨ ∀ key, selectedKey lower websocket = some key → IsAscii key

theorem validateApiKey_cases (key : Text)
    (hascii : ∀ configured, config.textApiKey = some configured → IsAscii configured) :
    (validateApiKey key config.textApiKey = .ok (decide (key ≠ [] ∧ config.textApiKey = some key))
        ∧ (config.textApiKey.getD [] = [] ∨ IsAscii key))
      ∨ (config.textApiKey.getD [] ≠ [] ∧ ¬ IsAscii key
        ∧ ∃ e, validateApiKey key config.textApiKey = .error e) := by
  unfold validateApiKey
  split
  · rename_i hnone
    exact .inl ⟨by simp [hnone], .inl (by simp [hnone])⟩
  · rename_i hempty
    refine .inl ⟨?_, .inl (by simp [hempty])⟩
    have hdiffers : ¬ (key ≠ [] ∧ config.textApiKey = some key) := by
      intro h
      exact h.1 (Option.some.inj (hempty.symm.trans h.2)).symm
    rw [decide_eq_false hdiffers]
  · rename_i configured hne hconfigured
    rw [compareDigest_ascii (hascii _ hconfigured)]
    by_cases hkey : key.all (fun c => c.toNat < 128) = true
    · refine .inl ⟨?_, .inr (isAscii_iff.mpr hkey)⟩
      rw [if_pos hkey, hconfigured]
      have hequal : (key ≠ [] ∧ some configured = some key) ↔ key = configured := by
        constructor
        · intro h
          exact (Option.some.inj h.2).symm
        · intro h
          exact ⟨fun hnil => hne (h.symm.trans hnil), congrArg some h.symm⟩
      rw [decide_eq_decide.mpr hequal, beq_eq_decide]
    · refine .inr ⟨?_, mt isAscii_iff.mp hkey, _, if_neg hkey⟩
      rw [hconfigured]
      exact hne

/-- **What is decided of the selected key.** -/
theorem validateCandidate_cases {selected : Option Text}
    (hselected : ∀ key, selected = some key → key ≠ [])
    (hascii : ∀ configured, config.textApiKey = some configured → IsAscii configured) :
    (∃ key, selected = some key ∧ config.textApiKey = some key
        ∧ validateCandidate config selected = .ok (.ok key))
      ∨ ((∀ key, config.textApiKey = some key → selected ≠ some key)
        ∧ (config.textApiKey.getD [] = [] ∨ ∀ key, selected = some key → IsAscii key)
        ∧ ∃ error, validateCandidate config selected = .ok (.error error))
      ∨ (config.textApiKey.getD [] ≠ [] ∧ (¬ ∀ key, selected = some key → IsAscii key)
        ∧ ∃ e, validateCandidate config selected = .error e) := by
  cases selected with
  | none => exact .inr (.inl ⟨fun key _ => by simp, .inr fun key h => absurd h (by simp), _, rfl⟩)
  | some key =>
      have hne := hselected key rfl
      have hdef : validateCandidate config (some key) = (validateApiKey key config.textApiKey).map
          fun valid => if valid then .ok key else .error "invalid".toList := by
        obtain ⟨c, cs, rfl⟩ := List.exists_cons_of_ne_nil hne
        rw [validateCandidate]
        · cases validateApiKey (c :: cs) config.textApiKey <;> rfl
        · simp
      rw [hdef]
      rcases validateApiKey_cases key hascii with ⟨hok, hcomparable⟩ | ⟨hconfigured, hkey, e, herror⟩
      · rw [hok]
        by_cases hsame : config.textApiKey = some key
        · exact .inl ⟨key, rfl, hsame, by simp [Except.map, hne, hsame]⟩
        · refine .inr (.inl ⟨fun key' h' heq => hsame (heq ▸ h'), ?_, "invalid".toList, ?_⟩)
          · exact hcomparable.imp_right fun h key' heq => Option.some.inj heq ▸ h
          · simp [Except.map, hsame]
      · rw [herror]
        exact .inr (.inr ⟨hconfigured, fun h => hkey (h key rfl), e, rfl⟩)

/-- The ways an attempt ends that is not throttled. -/
inductive Ends (lower : Lower) (config : AuthRuntimeConfig) (websocket : AuthRequest) :
    AuthOutcome → Prop
  | originRejected (horigin : isOriginAllowed websocket.origin config.allowedOrigins = false) :
      Ends lower config websocket .originRejected
  | keyRejected {error : Text}
      (hkey : ∀ key, config.textApiKey = some key → selectedKey lower websocket ≠ some key)
      (hcomparable : Comparable lower config websocket) :
      Ends lower config websocket (.keyRejected error)
  | authenticated {key : Text}
      (horigin : isOriginAllowed websocket.origin config.allowedOrigins = true)
      (hkey : config.textApiKey = some key) (hselected : selectedKey lower websocket = some key) :
      Ends lower config websocket (.authenticated key)
  | raised {e : Exc} (hcomparable : ¬ Comparable lower config websocket) :
      Ends lower config websocket (.raised e)

theorem ends_verdict (lower : Lower) (websocket : AuthRequest) (now recordedAt : ℚ)
    (hascii : ∀ configured, config.textApiKey = some configured → IsAscii configured) :
    Ends lower config websocket
      (verdict lower config ⟨.websocket, websocket, now, recordedAt⟩) := by
  unfold verdict
  by_cases horigin : isOriginAllowed websocket.origin config.allowedOrigins = false
  · rw [if_pos ⟨rfl, horigin⟩]
    exact .originRejected horigin
  · rw [if_neg (fun h => horigin h.2)]
    have hcases := @validateCandidate_cases config (selectedKey lower websocket)
      (fun key h => selectApiKey_ne_nil h) hascii
    unfold selectedKey at hcases
    rcases hcases with ⟨key, hselected, hkey, hok⟩ | ⟨hkey, hcomparable, error, hok⟩
      | ⟨hconfigured, hselected, e, herror⟩
    · rw [hok]
      exact .authenticated (by simpa using horigin) hkey hselected
    · rw [hok]
      exact .keyRejected hkey (.inr hcomparable)
    · rw [herror]
      exact .raised fun h => h.elim horigin fun h => h.elim hconfigured hselected

/-! ## The store -/

theorem get?_looked_ne {clientKey other : Text} (h : other ≠ clientKey) :
    (isAuthThrottled config failures clientKey now).1.get? other = failures.get? other :=
  Dict.get?_set_ne _ _ h.symm

theorem get?_recorded (clientKey : Text) :
    (recordAuthFailure config failures clientKey recordedAt).get? clientKey
      = some (prune config.rateLimitWindowSeconds recordedAt (failuresOf failures clientKey)
        ++ [recordedAt]) :=
  Dict.get?_set_self _ _ _

theorem get?_recorded_ne {clientKey other : Text} (h : other ≠ clientKey) :
    (recordAuthFailure config failures clientKey recordedAt).get? other = failures.get? other :=
  (Dict.get?_set_ne _ _ h.symm).trans (Dict.get?_set_ne _ _ h.symm)

/-- What is pruned at one moment and then at another has lost what had expired at either. -/
theorem oneMore_prune (window now recordedAt : ℚ) (entries : List ℚ) :
    OneMore window now recordedAt entries
      (prune window recordedAt (prune window now entries) ++ [recordedAt]) := by
  obtain ⟨first, hfirst, hfirstExpired⟩ := exists_expired window now entries
  obtain ⟨second, hsecond, hsecondExpired⟩ :=
    exists_expired window recordedAt (prune window now entries)
  refine ⟨first ++ second, _, ?_, rfl, ?_, ?_⟩
  · rw [List.append_assoc, ← hsecond]
    exact hfirst
  · intro t ht
    exact (List.mem_append.mp ht).imp (hfirstExpired t) (hsecondExpired t)
  · intro hordered
    exact lt_of_mem_prune (hordered.sublist (prune_suffix window now entries).sublist)

/-! ## Attempts -/

theorem looked_iff : (isAuthThrottled config failures (clientFailureKey websocket.clientHost) now).2
    = true ↔ Throttled config failures websocket now :=
  decide_eq_true_iff

/-- A rejection is accounted for by the failure it records. -/
theorem accounted_recorded (hrejected : ¬ Admitted lower config failures websocket now) :
    Accounted lower config failures websocket now recordedAt
      (recordAuthFailure config
        (isAuthThrottled config failures (clientFailureKey websocket.clientHost) now).1
        (clientFailureKey websocket.clientHost) recordedAt) (.ok false) where
  returns := ⟨false, rfl⟩
  admits := ⟨fun h => absurd h (by simp), fun h => absurd h hrejected⟩
  counts := fun _ _ => by
    refine ⟨_, get?_recorded _, ?_⟩
    rw [failuresOf_throttled, if_pos rfl]
    exact oneMore_prune _ _ _ _
  clears := fun h => absurd h (by simp)
  frame := fun clientKey hother => (get?_recorded_ne hother).trans (get?_looked_ne hother)

/-- An attempt that is not throttled is accounted for unless its comparison raised. -/
theorem accounted_ends {outcome : AuthOutcome}
    (hascii : ∀ configured, config.textApiKey = some configured → IsAscii configured)
    (hends : Ends lower config websocket outcome)
    (hnot : ¬ Throttled config failures websocket now) :
    Accounted lower config failures websocket now recordedAt
        (storeOutcome config
          (isAuthThrottled config failures (clientFailureKey websocket.clientHost) now).1
          ⟨.websocket, websocket, now, recordedAt⟩ outcome) outcome.websocketResult
      ↔ Comparable lower config websocket := by
  cases hends with
  | originRejected horigin =>
      refine iff_of_true (accounted_recorded fun h => ?_) (.inl horigin)
      exact absurd (horigin.symm.trans h.2.1) (by simp)
  | keyRejected hkey hcomparable =>
      refine iff_of_true (accounted_recorded fun h => ?_) hcomparable
      obtain ⟨key, -, hconfigured, hselected⟩ := h.2.2
      exact hkey key hconfigured hselected
  | @authenticated key horigin hkey hselected =>
      refine iff_of_true {
        returns := ⟨true, rfl⟩
        admits := iff_of_true rfl ⟨hnot, horigin, key, selectApiKey_ne_nil hselected, hkey, hselected⟩
        counts := fun h => absurd h (by simp [AuthOutcome.websocketResult])
        clears := fun _ => Dict.get?_erase_self _ _
        frame := fun clientKey hother =>
          (Dict.get?_erase_ne _ hother.symm).trans (get?_looked_ne hother) } (.inr (.inr fun key' h => ?_))
      exact hascii key' (hkey.trans (hselected.symm.trans h))
  | raised hcomparable =>
      refine iff_of_false (fun h => ?_) hcomparable
      obtain ⟨authenticated, hreturns⟩ := h.returns
      exact absurd hreturns (by simp [AuthOutcome.websocketResult])

/--
**Every attempt is accounted for unless its key is not ASCII.** It returns a boolean, and the store
says so, exactly when the client is throttled, or the origin rejected, or no key configured, or
the selected key one that `compare_digest` takes.
-/
theorem accounted_iff (lower : Lower) (config : AuthRuntimeConfig) (failures : AuthFailures)
    (websocket : AuthRequest) (now recordedAt : ℚ)
    (hascii : ∀ configured, config.textApiKey = some configured → IsAscii configured) :
    Accounted lower config failures websocket now recordedAt
        (authenticateWebsocket lower config failures websocket now recordedAt).1
        (authenticateWebsocket lower config failures websocket now recordedAt).2.websocketResult
      ↔ Throttled config failures websocket now ∨ Comparable lower config websocket := by
  let looked := isAuthThrottled config failures (clientFailureKey websocket.clientHost) now
  let a : AuthAttempt := ⟨.websocket, websocket, now, recordedAt⟩
  have hattempt : authenticateWebsocket lower config failures websocket now recordedAt
      = if looked.2 then (looked.1, .throttled)
        else (storeOutcome config looked.1 a (verdict lower config a), verdict lower config a) :=
    attempt_eq lower config failures a
  rw [hattempt]
  by_cases hthrottled : Throttled config failures websocket now
  · rw [if_pos (looked_iff.mpr hthrottled)]
    exact iff_of_true {
      returns := ⟨false, rfl⟩
      admits := ⟨fun h => absurd h (by simp [AuthOutcome.websocketResult]),
        fun h => absurd hthrottled h.1⟩
      counts := fun _ hnot => absurd hthrottled hnot
      clears := fun h => absurd h (by simp [AuthOutcome.websocketResult])
      frame := fun clientKey hother => get?_looked_ne hother } (.inl hthrottled)
  · rw [if_neg (mt looked_iff.mp hthrottled), or_iff_right hthrottled]
    exact accounted_ends hascii (ends_verdict lower websocket now recordedAt hascii) hthrottled

/-- A handshake with this key in its header. -/
def sampleHandshake (key : Text) : AuthRequest where
  clientHost := some "10.0.0.1".toList
  origin := none
  xApiKey := some key
  authorization := none

theorem isAscii_secret (limit : Int) : ∀ configured,
    (sampleAuthConfig limit).textApiKey = some configured → IsAscii configured := by
  intro configured h
  obtain rfl : "secret".toList = configured := Option.some.inj h
  exact isAscii_iff.mpr rfl

/-- A wrong key that is ASCII is counted. -/
theorem accounted_guess :
    Accounted id (sampleAuthConfig 5) [] (sampleHandshake "guess".toList) 0 1
      [("10.0.0.1".toList, [1])] (.ok false) := by
  refine (accounted_iff id (sampleAuthConfig 5) [] (sampleHandshake "guess".toList) 0 1
    (isAscii_secret 5)).mpr (.inr (.inr (.inr fun key h => ?_)))
  obtain rfl : "guess".toList = key := Option.some.inj h
  exact isAscii_iff.mpr rfl

/-- **The key `é` goes uncounted**: the comparison raises, and nothing catches it. -/
theorem not_accounted_nonAscii :
    ¬ ∀ (lower : Lower) (config : AuthRuntimeConfig) (failures : AuthFailures)
      (websocket : AuthRequest) (now recordedAt : ℚ),
      (∀ configured, config.textApiKey = some configured → IsAscii configured) →
      Accounted lower config failures websocket now recordedAt
        (authenticateWebsocket lower config failures websocket now recordedAt).1
        (authenticateWebsocket lower config failures websocket now recordedAt).2.websocketResult := by
  intro h
  have hraised : (authenticateWebsocket id (sampleAuthConfig 5) [] (sampleHandshake "é".toList)
      0 1).2.websocketResult
      = .error (.typeError "comparing strings with non-ASCII characters is not supported".toList) :=
    by decide +kernel
  obtain ⟨authenticated, hreturns⟩ := (h id (sampleAuthConfig 5) [] (sampleHandshake "é".toList) 0 1
    (isAscii_secret 5)).returns
  exact absurd (hraised.symm.trans hreturns) (by simp)

end YapInference

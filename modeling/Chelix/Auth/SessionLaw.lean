import Chelix.Auth.Sessions

/-!
# What a login session respects

A token that does not validate any more never will; that holds of every run.  The cap and the
change of a password are checks that are made before the insertion of a token, so they hold of
the runs in which nothing comes between.

* **`sessions_respected`**: every run in which each insertion is alone.
-/

namespace Chelix.Auth

open Function

open Chelix.Library List

variable {Hash : Type} {verify : String → Hash → Bool}

/-! ## Dead tokens -/

variable {token : String}

theorem validateSession_iff {t : AuthTables Hash} {now : ℕ} :
    t.validateSession token now = true ↔
      ∃ session ∈ t.sessions, session.token = token ∧ now < session.expiresAt := by
  rw [AuthTables.validateSession, any_eq_true]
  simp only [Bool.and_eq_true, decide_eq_true_iff]

theorem validateSession_of_subset {t t' : AuthTables Hash} {token : String} {now now' : ℕ}
    (hsub : t'.sessions ⊆ t.sessions) (hnow : now ≤ now')
    (h : t'.validateSession token now' = true) : t.validateSession token now = true := by
  obtain ⟨session, hmem, htoken, hlt⟩ := validateSession_iff.mp h
  exact validateSession_iff.mpr ⟨session, hsub hmem, htoken, hnow.trans_lt hlt⟩

section Statements

variable (t : AuthTables Hash)

theorem sessions_deleteExpired (now : ℕ) : (t.deleteExpired now).sessions ⊆ t.sessions :=
  filter_sublist.subset

theorem sessions_deleteOldest (limit : ℕ) : (t.deleteOldest limit).sessions ⊆ t.sessions :=
  filter_sublist.subset

theorem sessions_deleteSession (token : String) : (t.deleteSession token).sessions ⊆ t.sessions :=
  filter_sublist.subset

theorem length_deleteOldest (limit : ℕ) :
    (t.deleteOldest limit).sessions.length ≤ t.sessions.length - limit := by
  have hperm := perm_sortByKey AuthSession.createdAt t.sessions
  generalize hsorted : sortByKey AuthSession.createdAt t.sessions = sorted at hperm
  have hkept : ∀ rows : List AuthSession,
      (rows.filter fun session => session.token ∉ (sorted.take limit).map (·.token)).length ≤
        rows.length := fun rows => length_filter_le _ _
  have holdest : (sorted.take limit).filter
      (fun session => session.token ∉ (sorted.take limit).map (·.token)) = [] := by
    refine filter_eq_nil_iff.mpr fun session hmem hnot => ?_
    exact of_decide_eq_true hnot (mem_map_of_mem hmem)
  rw [AuthTables.deleteOldest, hsorted]
  calc (t.sessions.filter _).length
      = (sorted.filter fun session =>
          session.token ∉ (sorted.take limit).map (·.token)).length :=
        (hperm.symm.filter _).length_eq
    _ = ((sorted.drop limit).filter fun session =>
          session.token ∉ (sorted.take limit).map (·.token)).length := by
        conv_lhs => rw [← take_append_drop limit sorted]
        rw [filter_append, take_append_drop, holdest, nil_append]
    _ ≤ (sorted.drop limit).length := hkept _
    _ = t.sessions.length - limit := by rw [length_drop, hperm.length_eq]

end Statements

variable {s t : SessionRun Hash} {e : SessionEvent Hash}

theorem subset_of_step (h : SessionStep verify s e t) :
    s.now ≤ t.now ∧ s.issued ⊆ t.issued ∧
      (t.tables.sessions ⊆ s.tables.sessions ∨ ∃ client token, e = .insert client token ∧
        s.phase client = .inserting ∧ token ∉ s.issued ∧
        t = (s.issue client token).setPhase client .idle) := by
  cases h with
  | tick hnow => exact ⟨hnow, List.Subset.refl _, .inl (List.Subset.refl _)⟩
  | checkLogin _ _ | count _ | validate | checkChange _ _ | updatePassword _ | resetPassword _
  | abort => exact ⟨le_rfl, List.Subset.refl _, .inl (List.Subset.refl _)⟩
  | clean _ | cleanupExpired =>
    exact ⟨le_rfl, List.Subset.refl _, .inl (sessions_deleteExpired _ _)⟩
  | evict _ => exact ⟨le_rfl, List.Subset.refl _, .inl (sessions_deleteOldest _ _)⟩
  | insert hphase hnew =>
    exact ⟨le_rfl, subset_cons_self _ _, .inr ⟨_, _, rfl, hphase, hnew, rfl⟩⟩
  | deleteSession => exact ⟨le_rfl, List.Subset.refl _, .inl (sessions_deleteSession _ _)⟩
  | purge _ | rotate _ _ | resetSessions _ =>
    exact ⟨le_rfl, List.Subset.refl _, .inl (nil_subset _)⟩

/-- A token that was issued and does not validate. -/
def Dead (token : String) (s : SessionRun Hash) : Prop :=
  token ∈ s.issued ∧ s.valid token = false

/-- A token without a row that has not expired is dead: it was deleted or evicted, or has expired. -/
theorem dead_of_gone (hissued : token ∈ s.issued)
    (hgone : ∀ session ∈ s.tables.sessions, session.token = token → session.expiresAt ≤ s.now) :
    Dead token s := by
  refine ⟨hissued, Bool.eq_false_iff.mpr fun hvalid => ?_⟩
  obtain ⟨session, hmem, htoken, hlt⟩ := validateSession_iff.mp hvalid
  exact absurd (hgone session hmem htoken) (not_le.mpr hlt)

theorem dead_of_deleteSession (h : SessionStep verify s (.deleteSession token) t)
    (hissued : token ∈ s.issued) : Dead token t := by
  cases h
  refine dead_of_gone hissued fun session hmem htoken => ?_
  exact absurd htoken (of_decide_eq_true (mem_filter.mp hmem).2)

theorem dead_step (hdead : Dead token s) (h : SessionStep verify s e t) : Dead token t := by
  obtain ⟨hissued, hinvalid⟩ := hdead
  obtain ⟨hnow, hgrow, hrows⟩ := subset_of_step h
  refine ⟨hgrow hissued, Bool.eq_false_iff.mpr fun hvalid => ?_⟩
  refine Bool.eq_false_iff.mp hinvalid ?_
  rcases hrows with hsub | ⟨client, new, -, -, hnew, rfl⟩
  · exact validateSession_of_subset hsub hnow hvalid
  · obtain ⟨session, hmem, htoken, hlt⟩ := validateSession_iff.mp hvalid
    rcases mem_append.mp hmem with hmem | hmem
    · exact validateSession_iff.mpr ⟨session, hmem, htoken, hlt⟩
    · rw [mem_singleton.mp hmem] at htoken
      replace htoken : new = token := htoken
      exact absurd (htoken ▸ hissued) hnew

/-- **A dead token stays dead**, over every run. -/
theorem dead_of_run {es : List (SessionEvent Hash)} (hrun : Run (SessionStep verify) s es t)
    (hdead : Dead token s) : Dead token t :=
  hrun.invariant (P := Dead token) (fun _ _ _ => dead_step) hdead

/-! ## The cap and the password -/

/-- When a token is inserted no other client stands between its count and its insertion, and no
change has returned that replaced the password of the check. -/
def Alone (s : SessionRun Hash) : SessionEvent Hash → Prop
  | .insert client _ =>
    (∀ other, other ≠ client → (s.phase other).counted = false) ∧
      ∀ number ∈ s.changed, number ≤ s.used client
  | _ => True

/-- What the tables respect, and how many rows a client that has counted can rely on. -/
structure Respects (s : SessionRun Hash) : Prop where
  cap : s.created = true → s.tables.sessions.length ≤ maxSessions
  evicting : ∀ client count, s.phase client = .evicting count →
    s.tables.sessions.length ≤ count ∧ maxSessions ≤ count
  inserting : ∀ client, s.phase client = .inserting → s.tables.sessions.length < maxSessions
  issued : ∀ session ∈ s.tables.sessions, session.token ∈ s.issued
  stale : ∀ session ∈ s.tables.sessions, ∀ number ∈ s.changed,
    number ≤ s.issuedFor session.token

variable {tables : AuthTables Hash}

namespace Respects

variable {s : SessionRun Hash}

theorem start (tables : AuthTables Hash) (now : ℕ) : Respects (.start tables now) where
  cap h := absurd h Bool.false_ne_true
  evicting _ _ h := nomatch h
  inserting _ h := nomatch h
  issued _ hmem := mem_map_of_mem hmem
  stale _ _ _ h := nomatch h

theorem setTables (h : Respects s) (hsub : tables.sessions ⊆ s.tables.sessions)
    (hlength : tables.sessions.length ≤ s.tables.sessions.length) :
    Respects (s.setTables tables) where
  cap hcreated := hlength.trans (h.cap hcreated)
  evicting client count hphase :=
    ⟨hlength.trans (h.evicting client count hphase).1, (h.evicting client count hphase).2⟩
  inserting client hphase := hlength.trans_lt (h.inserting client hphase)
  issued session hmem := h.issued session (hsub hmem)
  stale session hmem := h.stale session (hsub hmem)

variable {client : ℕ}

theorem setPhase (h : Respects s) {phase : Phase} (hevicting : ∀ count, phase = .evicting count →
      s.tables.sessions.length ≤ count ∧ maxSessions ≤ count)
    (hinserting : phase = .inserting → s.tables.sessions.length < maxSessions) :
    Respects (s.setPhase client phase) where
  __ := h
  evicting other count hphase := by
    by_cases heq : other = client
    · subst heq
      exact hevicting count ((update_self ..).symm.trans hphase)
    · exact h.evicting other count ((update_of_ne heq ..).symm.trans hphase)
  inserting other hphase := by
    by_cases heq : other = client
    · subst heq
      exact hinserting ((update_self ..).symm.trans hphase)
    · exact h.inserting other ((update_of_ne heq ..).symm.trans hphase)

theorem setPhase_uncounted (h : Respects s) {phase : Phase} (hphase : phase.counted = false) :
    Respects (s.setPhase client phase) := by
  refine h.setPhase (fun count heq => ?_) fun heq => ?_
  · rw [heq] at hphase
    cases hphase
  · rw [heq] at hphase
    cases hphase

theorem setUsed (h : Respects s) (client number : ℕ) : Respects (s.setUsed client number) where
  __ := h

theorem changed (h : Respects s) (hempty : tables.sessions = []) (passwords number : ℕ) :
    Respects ({ s with passwords, changed := number :: s.changed }.setTables tables) where
  cap _ := by
    show tables.sessions.length ≤ maxSessions
    rw [hempty]
    exact Nat.zero_le _
  evicting client count hphase := by
    refine ⟨?_, (h.evicting client count hphase).2⟩
    show tables.sessions.length ≤ count
    rw [hempty]
    exact Nat.zero_le _
  inserting client hphase := by
    show tables.sessions.length < maxSessions
    rw [hempty]
    decide
  issued session hmem := by
    replace hmem : session ∈ tables.sessions := hmem
    rw [hempty] at hmem
    cases hmem
  stale session hmem := by
    replace hmem : session ∈ tables.sessions := hmem
    rw [hempty] at hmem
    cases hmem

theorem issue (h : Respects s) (hnew : token ∉ s.issued) (hphase : s.phase client = .inserting)
    (halone : Alone s (.insert client token)) :
    Respects ((s.issue client token).setPhase client .idle) := by
  have hlength : (s.tables.insertSession token s.now).sessions.length ≤ maxSessions := by
    rw [AuthTables.insertSession, length_append]
    exact h.inserting client hphase
  have hothers : ∀ other, (Function.update s.phase client .idle other).counted = false := by
    intro other
    by_cases heq : other = client
    · subst heq
      rw [update_self]
      rfl
    · rw [update_of_ne heq]
      exact halone.1 other heq
  constructor
  · exact fun _ => hlength
  · intro other count hevicting
    replace hevicting : Function.update s.phase client .idle other = .evicting count := hevicting
    have hcounted := hothers other
    rw [hevicting] at hcounted
    cases hcounted
  · intro other hinserting
    replace hinserting : Function.update s.phase client .idle other = .inserting := hinserting
    have hcounted := hothers other
    rw [hinserting] at hcounted
    cases hcounted
  · intro session hmem
    rcases mem_append.mp hmem with hmem | hmem
    · exact mem_cons_of_mem _ (h.issued session hmem)
    · rw [mem_singleton.mp hmem]
      exact mem_cons_self
  · intro session hmem number hnumber
    show number ≤ Function.update s.issuedFor token (s.used client) session.token
    rcases mem_append.mp hmem with hmem | hmem
    · have hne : session.token ≠ token := fun heq => hnew (heq ▸ h.issued session hmem)
      rw [update_of_ne hne]
      exact h.stale session hmem number hnumber
    · rw [mem_singleton.mp hmem, update_self]
      exact halone.2 number hnumber

theorem step (h : Respects s) (hstep : SessionStep verify s e t) (halone : Alone s e) :
    Respects t := by
  cases hstep with
  | tick _ => exact ⟨h.cap, h.evicting, h.inserting, h.issued, h.stale⟩
  | checkLogin _ _ => exact (h.setUsed _ _).setPhase_uncounted rfl
  | clean _ =>
    exact (h.setTables (sessions_deleteExpired _ _) (length_filter_le _ _)).setPhase_uncounted
      rfl
  | count _ =>
    refine h.setPhase (fun count heq => ?_) fun heq => ?_
    · split at heq
      · next hmany =>
          cases heq
          exact ⟨le_rfl, hmany⟩
      · cases heq
    · split at heq
      · cases heq
      · next hfew => exact Nat.not_le.mp hfew
  | @evict client count hphase =>
    obtain ⟨hcount, hmany⟩ := h.evicting client count hphase
    have hlength := length_deleteOldest s.tables (count - maxSessions + 1)
    have hfew := h.setTables (sessions_deleteOldest _ (count - maxSessions + 1))
      (length_filter_le _ _)
    refine hfew.setPhase (fun count heq => nomatch heq) fun _ => ?_
    show (s.tables.deleteOldest (count - maxSessions + 1)).sessions.length < maxSessions
    have hcap : 0 < maxSessions := by decide
    omega
  | insert hphase hnew => exact h.issue hnew hphase halone
  | validate => exact h
  | deleteSession =>
    exact h.setTables (sessions_deleteSession _ _) (length_filter_le _ _)
  | cleanupExpired =>
    exact h.setTables (sessions_deleteExpired _ _) (length_filter_le _ _)
  | checkChange _ _ | abort => exact h.setPhase_uncounted rfl
  | @updatePassword client hash _ =>
    have hupdated : Respects ({ s with passwords := s.passwords + 1 }.setTables
        (s.tables.updatePassword hash)) :=
      ⟨h.cap, h.evicting, h.inserting, h.issued, h.stale⟩
    exact (hupdated.setUsed _ _).setPhase_uncounted rfl
  | purge _ => exact (h.changed rfl _ _).setPhase_uncounted rfl
  | rotate _ _ => exact h.changed rfl _ _
  | resetPassword _ =>
    have hreset : Respects (s.setTables s.tables.deletePassword) :=
      h.setTables (List.Subset.refl _) le_rfl
    exact hreset.setPhase_uncounted rfl
  | resetSessions _ =>
    exact (h.setTables (nil_subset _) (Nat.zero_le _)).setPhase_uncounted rfl

end Respects

/-- The sessions that have not expired. -/
def SessionRun.unexpired (s : SessionRun Hash) : List AuthSession :=
  s.tables.sessions.filter fun session => s.now < session.expiresAt

/-- **Sessions respect the cap, the logout and the password**: from any tables, over every run in
which each insertion is alone.  The last clauses need no such condition on what comes after: a step
leaves a token dead that it deletes, and one that has no row left but expired ones; and a dead token
stays dead. -/
theorem sessions_respected {tables : AuthTables Hash} {now : ℕ} {s : SessionRun Hash}
    {es : List (SessionEvent Hash)}
    (hrun : Run (fun s e t => SessionStep verify s e t ∧ Alone s e) (.start tables now) es s) :
    (s.created = true → s.unexpired.length ≤ maxSessions) ∧
    (∀ token, s.valid token = true → ∀ number ∈ s.changed, number ≤ s.issuedFor token) ∧
    (∀ token ∈ s.issued, ∀ e t, SessionStep verify s e t →
      (e = .deleteSession token ∨ ∀ session ∈ t.tables.sessions, session.token = token →
        session.expiresAt ≤ t.now) → Dead token t) ∧
    ∀ token, Dead token s → ∀ es' t, Run (SessionStep verify) s es' t → Dead token t := by
  have h : Respects s := by
    refine hrun.invariant (P := Respects) (fun _ _ _ hs hstep => ?_) (Respects.start tables now)
    exact hs.step hstep.1 hstep.2
  refine ⟨fun hcreated => ?_, fun token hvalid number hnumber => ?_,
    fun token hissued e t hstep hgone => ?_, fun token hdead es' t hrun' => dead_of_run hrun' hdead⟩
  · exact (List.length_filter_le _ _).trans (h.cap hcreated)
  · obtain ⟨session, hmem, rfl, -⟩ := validateSession_iff.mp hvalid
    exact h.stale session hmem number hnumber
  · rcases hgone with rfl | hgone
    · exact dead_of_deleteSession hstep hissued
    · exact dead_of_gone ((subset_of_step hstep).2.1 hissued) hgone

/-! ## Runs -/

/-- A check that compares texts. -/
def sameText (password hash : String) : Bool := password = hash

/-- So many sessions that expire at 1000, and the password `old`. -/
def withSessions (n : ℕ) : AuthTables String where
  passwordHash := some "old"
  sessions := (List.range n).map fun i => ⟨toString i, i, 1000⟩

/-- A login with ten sessions, a change of the password, and a login with the new one. -/
def oneAfterAnother : List (SessionEvent String) :=
  [.checkLogin 0 "old", .clean 0, .count 0, .evict 0, .insert 0 "a", .checkChange 1 "old",
    .updatePassword 1 "new", .purge 1, .checkLogin 0 "new", .clean 0, .count 0, .insert 0 "b",
    .validate "a" false, .validate "b" true]

theorem sessions_respected_oneAfterAnother : ∃ s : SessionRun String,
    Run (fun s e t => SessionStep sameText s e t ∧ Alone s e) (.start (withSessions 10) 100)
      oneAfterAnother s ∧
    s.unexpired.length ≤ 10 ∧ (∀ number ∈ s.changed, number ≤ s.issuedFor "b") ∧
    s.changed = [1] ∧ s.valid "b" = true ∧
    ∀ t, SessionStep sameText s (.deleteSession "b") t → Dead "b" t := by
  have hrun : ∃ s : SessionRun String,
      Run (fun s e t => SessionStep sameText s e t ∧ Alone s e) (.start (withSessions 10) 100)
        oneAfterAnother s ∧ s.created = true ∧ s.valid "b" = true ∧ s.changed = [1] ∧
        "b" ∈ s.issued := by
    refine ⟨_, .cons ⟨.checkLogin rfl (by decide), trivial⟩ <| .cons ⟨.clean rfl, trivial⟩ <|
      .cons ⟨.count rfl, trivial⟩ <| .cons ⟨.evict rfl, trivial⟩ <|
      .cons ⟨.insert rfl (by decide), ?_⟩ <|
      .cons ⟨.checkChange rfl (by decide), trivial⟩ <| .cons ⟨.updatePassword rfl, trivial⟩ <|
      .cons ⟨.purge rfl, trivial⟩ <| .cons ⟨.checkLogin rfl (by decide), trivial⟩ <|
      .cons ⟨.clean rfl, trivial⟩ <| .cons ⟨.count rfl, trivial⟩ <|
      .cons ⟨.insert rfl (by decide), ?_⟩ <| .cons ⟨.validate, trivial⟩ <|
      .cons ⟨.validate, trivial⟩ <| .nil _, rfl, rfl, rfl, mem_cons_self⟩
    · refine ⟨fun other hne => ?_, fun number hmem => nomatch hmem⟩
      simp [SessionRun.setPhase, SessionRun.setTables, SessionRun.setUsed, SessionRun.start,
        Function.update_of_ne hne, Phase.counted]
    · refine ⟨fun other hne => ?_, fun number hmem => ?_⟩
      · by_cases hone : other = 1
        · subst hone
          decide
        · simp [SessionRun.setPhase, SessionRun.setTables, SessionRun.setUsed, SessionRun.start,
            SessionRun.issue, Function.update_of_ne hne, Phase.counted]
      · rw [List.mem_singleton.mp hmem]
        decide
  obtain ⟨s, hrun, hcreated, hvalid, hchanged, hissued⟩ := hrun
  obtain ⟨hcap, hstale, hgone, -⟩ := sessions_respected hrun
  exact ⟨s, hrun, hcap hcreated, hstale "b" hvalid, hchanged, hvalid,
    fun t hstep => hgone "b" hissued _ t hstep (.inl rfl)⟩

/-- Two logins that have both counted nine sessions. -/
def countedTogether : List (SessionEvent String) :=
  [.checkLogin 0 "old", .checkLogin 1 "old", .clean 0, .clean 1, .count 0, .count 1,
    .insert 0 "a", .insert 1 "b"]

/-- A login whose session is created when its password has been replaced. -/
def changedBetween : List (SessionEvent String) :=
  [.checkLogin 0 "old", .checkChange 1 "old", .updatePassword 1 "new", .purge 1, .clean 0,
    .count 0, .insert 0 "a", .validate "a" true]

/-- There are eleven sessions after the one run, and a session of the old password after the
other. -/
theorem sessions_not_respected :
    (∃ s : SessionRun String,
      Run (SessionStep sameText) (.start (withSessions 9) 100) countedTogether s ∧
      s.created = true ∧ s.unexpired.length = 11) ∧
    ∃ s : SessionRun String,
      Run (SessionStep sameText) (.start (withSessions 0) 100) changedBetween s ∧
      s.valid "a" = true ∧ s.changed = [1] ∧ s.issuedFor "a" = 0 := by
  constructor
  · exact ⟨_, .cons (.checkLogin rfl (by decide)) <| .cons (.checkLogin rfl (by decide)) <|
      .cons (.clean rfl) <| .cons (.clean rfl) <| .cons (.count rfl) <| .cons (.count rfl) <|
      .cons (.insert rfl (by decide)) <| .cons (.insert rfl (by decide)) <| .nil _, rfl, rfl⟩
  · exact ⟨_, .cons (.checkLogin rfl (by decide)) <| .cons (.checkChange rfl (by decide)) <|
      .cons (.updatePassword rfl) <| .cons (.purge rfl) <| .cons (.clean rfl) <|
      .cons (.count rfl) <| .cons (.insert rfl (by decide)) <| .cons .validate <| .nil _,
      rfl, rfl, rfl⟩

end Chelix.Auth

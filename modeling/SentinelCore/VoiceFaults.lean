import SentinelCore.VoiceArtifacts

/-!
# Failing calls

One call of the file system fails while a response is recorded. `allOrNothing_iff` says when the
recording is all or nothing then: unless the call is the removal of the temporary file of a requested
artifact, after the artifact was linked. In that case the recording raises, and the artifact stays.
-/

namespace Sentinel.Voice.Artifacts

open Py Lib Prog

/-! ## A world with one failing call -/

/-- The call `c` fails with `e` whenever it is made. A recording makes each of its calls once. -/
abbrev Fault := Option (FsCall × OsExc)

def answerFaulty (fault : Fault) (c : FsCall) (d : Directory Unit) : FsAnswer × Directory Unit :=
  match fault with
  | some (failing, e) => if c = failing then (.error e, d) else answer () c d
  | none => answer () c d

def Strikes (fault : Fault) (c : FsCall) : Prop := ∃ e, fault = some (c, e)

/-- What the recording does from a directory, with the failing call. -/
def record (env : RecorderEnv) (recording : Recording) (fault : Fault) (d : Directory Unit) :
    Except ArtifactExc PersistedVoiceArtifacts × Directory Unit :=
  (persistVoiceResponse env recording).run.run (answerFaulty fault) d

/-- The step rule of this world. -/
abbrev failing (fault : Fault) :
    FsCall → Directory Unit → (FsAnswer → Directory Unit → Prop) → Prop :=
  Process.answering (answerFaulty fault)

variable {fault : Fault} {d : Directory Unit}

theorem failing_iff {c : FsCall} {K : FsAnswer → Directory Unit → Prop} :
    failing fault c d K ↔ (∀ e, fault = some (c, e) → K (.error e) d) ∧
      (¬Strikes fault c → K (answer () c d).1 (answer () c d).2) := by
  unfold failing Process.answering answerFaulty Strikes
  rcases fault with _ | ⟨c', e⟩
  · simp
  · by_cases h : c = c'
    · subst h
      simp
    · have h' : ¬c' = c := fun h' => h h'.symm
      simp [h, h']

/-- A call that removes nothing. -/
def FsCall.Harmless : FsCall → Prop
  | .temp _ .unlink | .unlink _ => False
  | _ => True

/-- The call that fails is one that removes nothing. -/
def Spared (fault : Fault) : Prop := ∃ c, Strikes fault c ∧ c.Harmless

theorem not_strikes_of_spared {c : FsCall} (h : Spared fault) (hc : ¬c.Harmless) :
    ¬Strikes fault c := by
  rintro ⟨e, he⟩
  obtain ⟨c', ⟨e', he'⟩, hc'⟩ := h
  rw [he] at he'
  obtain ⟨rfl, -⟩ := Prod.mk.inj (Option.some.inj he')
  exact hc hc'

/-! ## Quiet programs -/

/-- The program goes from `d` to `d'`, or a call of it that removes nothing fails and the entries are
as they were. -/
def Quiet {α : Type} (fault : Fault) (p : Recorder α) (d d' : Directory Unit) : Prop :=
  Meets (failing fault) p (fun _ t => t = d') (fun _ t => t.entries = d.entries ∧ Spared fault) d

section Quiet

variable {α β : Type} {d' d'' : Directory Unit}

theorem quiet_perform {c : FsCall} {b : Bool} (hc : c.Harmless) (h : answer () c d = (.ok b, d')) :
    Quiet fault (perform c) d d' := by
  unfold Quiet
  rw [meets_perform, failing_iff, h]
  exact ⟨fun e he => ⟨rfl, c, ⟨e, he⟩, hc⟩, fun _ => rfl⟩

theorem quiet_bind {p : Recorder α} {f : α → Recorder β} (hp : Quiet fault p d d')
    (he : d'.entries = d.entries) (hf : ∀ a, Quiet fault (f a) d' d'') :
    Quiet fault (p >>= f) d d'' := by
  unfold Quiet
  rw [meets_bind]
  refine hp.mono (Process.answering_monotone _) (fun a t ht => ?_) fun _ _ h => h
  subst ht
  refine (hf a).mono (Process.answering_monotone _) (fun _ _ h => h) fun _ t ht => ?_
  rw [← he]
  exact ht

/-- A clean-up that keeps the entries. -/
theorem quiet_tryFinally {body : Recorder α} {cleanup : Recorder Unit} (hb : Quiet fault body d d')
    (he : d'.entries = d.entries) (hc : ∀ t, Quiet fault cleanup t t) :
    Quiet fault (tryFinally body cleanup) d d' := by
  unfold Quiet
  rw [meets_tryFinally]
  refine hb.mono (Process.answering_monotone _) (fun a t ht => ?_) fun e t ht => ?_
  · subst ht
    refine (hc t).mono (Process.answering_monotone _) (fun _ _ h => h) fun _ t' ht' => ?_
    rw [← he]
    exact ht'
  · refine (hc t).mono (Process.answering_monotone _) (fun _ t' ht' => ?_) fun _ t' ht' => ?_
    · subst ht'
      exact ht
    · exact ⟨ht'.1.trans ht.1, ht'.2⟩

end Quiet

/-! ## One artifact -/

theorem quiet_openTemp (path : PyStr) : Quiet fault (openTemp path) d d := by
  have hbody : Quiet fault (do perform (.temp path .chmod); perform (.temp path .fdopen)) d d :=
    quiet_bind (quiet_perform trivial rfl) rfl fun _ => quiet_perform trivial rfl
  unfold Quiet openTemp
  rw [meets_handle]
  refine hbody.mono (Process.answering_monotone _) (fun _ _ h => h) fun e t ht => ?_
  rw [meets_bind, meets_attempt, failing_iff]
  exact ⟨fun _ _ => ht, fun _ => ht⟩

/-- A name is occupied when there is an entry, even a symbolic link to nothing. -/
theorem occupied_spec (path : PyStr) (stage : Stage) :
    Meets (failing fault) (occupied path stage)
      (fun b t => t = d ∧ (b = true ↔ d.entries path ≠ none)) (fun _ t => t = d ∧ Spared fault) d := by
  have hsymlink : (d.entries path).any Entry.resolves = false →
      ((d.entries path).any Entry.isSymlink = true ↔ d.entries path ≠ none) := by
    cases d.entries path with
    | none => simp
    | some entry => cases entry <;> simp [Entry.resolves, Entry.isSymlink]
  unfold occupied
  rw [meets_bind, meets_query, failing_iff]
  refine ⟨fun e he => ⟨rfl, _, ⟨e, he⟩, trivial⟩, fun _ => ?_⟩
  cases hexists : (d.entries path).any Entry.resolves with
  | true =>
    simp only [answer, hexists]
    refine meets_pure.mpr ⟨rfl, iff_of_true rfl fun hnone => ?_⟩
    rw [hnone] at hexists
    cases hexists
  | false =>
    simp only [answer, hexists]
    show Meets _ (query _) _ _ _
    rw [meets_query, failing_iff]
    exact ⟨fun e he => ⟨rfl, _, ⟨e, he⟩, trivial⟩, fun _ => ⟨rfl, hsymlink hexists⟩⟩

/-- What comes after the check of a name. -/
theorem meets_checked {α : Type} {path : PyStr} {stage : Stage} {p : Recorder α}
    {Q : α → Directory Unit → Prop} {E : ArtifactExc → Directory Unit → Prop}
    (hp : d.entries path = none → Meets (failing fault) p Q E d)
    (he : ∀ e, Spared fault ∨ d.entries path ≠ none → E e d) :
    Meets (failing fault) (do raiseWhen (← occupied path stage) (refusing path); p) Q E d := by
  rw [meets_bind]
  refine (occupied_spec path stage).mono (Process.answering_monotone _) ?_ ?_
  · rintro b t ⟨rfl, hb⟩
    rw [meets_bind, meets_raiseWhen]
    cases b with
    | true => exact he _ (.inr (hb.mp rfl))
    | false => exact hp (not_not.mp fun hne => Bool.false_ne_true (hb.mpr hne))
  · rintro e t ⟨rfl, hs⟩
    exact he e (.inl hs)

theorem quiet_link {path : PyStr} {data : Bytes} (htemp : d.temps () path = some data)
    (h : d.entries path = none) :
    Quiet fault (do linkTemp path; attempt (.chmod path)) d
      (d.setEntry path (some (.file (some ()) data))) := by
  unfold Quiet linkTemp
  rw [meets_bind, meets_bind, meets_ask, failing_iff]
  refine ⟨fun e he => ?_, fun _ => ?_⟩
  · cases e with
    | fileExists => exact ⟨rfl, _, ⟨_, he⟩, trivial⟩
    | other errno => exact ⟨rfl, _, ⟨_, he⟩, trivial⟩
  · simp only [answer, htemp, h]
    rw [meets_pure, meets_attempt, failing_iff]
    exact ⟨fun _ _ => rfl, fun _ => rfl⟩

/-- The body of `_atomic_write` after the temporary file was made. -/
theorem quiet_writeAndLink {path : PyStr} {data : Bytes} (h : d.entries path = none) :
    Quiet fault
      (do
        openTemp path
        tryFinally
          (do
            perform (.temp path (.write data))
            perform (.temp path .flush)
            perform (.temp path .fsync))
          (perform (.temp path .close))
        linkTemp path
        attempt (.chmod path))
      d ((d.setTemp () path (some data)).setEntry path (some (.file (some ()) data))) := by
  refine quiet_bind (quiet_openTemp path) rfl fun _ => ?_
  have hwrite : Quiet fault
      (tryFinally
        (do
          perform (.temp path (.write data))
          perform (.temp path .flush)
          perform (.temp path .fsync))
        (perform (.temp path .close)))
      d (d.setTemp () path (some data)) := by
    refine quiet_tryFinally ?_ rfl fun t => quiet_perform trivial rfl
    refine quiet_bind (quiet_perform trivial rfl) rfl fun _ => ?_
    exact quiet_bind (quiet_perform trivial rfl) rfl fun _ => quiet_perform trivial rfl
  refine quiet_bind hwrite rfl fun _ => quiet_link ?_ h
  simp [Directory.setTemp]

/-- **One artifact**: it is written, or nothing is; only when the temporary file cannot be removed is
it written by a call that raises. -/
theorem atomicWrite_spec {path : PyStr} {data : Bytes} (h : d.entries path = none) :
    Meets (failing fault) (atomicWrite path data)
      (fun _ t => t.entries = (d.setEntry path (some (.file (some ()) data))).entries ∧
        ¬Strikes fault (.temp path .unlink))
      (fun _ t => t.entries = d.entries ∧ Spared fault ∨
        t.entries = (d.setEntry path (some (.file (some ()) data))).entries ∧
          Strikes fault (.temp path .unlink)) d := by
  have hunlink : ¬(FsCall.temp path .unlink).Harmless := id
  unfold atomicWrite
  refine meets_checked (fun _ => ?_) fun e hs => .inl ⟨rfl, hs.resolve_right (not_not.mpr h)⟩
  rw [meets_bind, meets_perform, failing_iff]
  refine ⟨fun e he => .inl ⟨rfl, _, ⟨e, he⟩, trivial⟩, fun _ => ?_⟩
  rw [meets_tryFinally]
  have hquiet := @quiet_writeAndLink fault (d.setTemp () path (some [])) path data h
  refine hquiet.mono
    (Process.answering_monotone _) (fun _ t' ht' => ?_) fun _ t' ht' => ?_
  · subst ht'
    rw [meets_perform, failing_iff]
    exact ⟨fun e he => .inr ⟨rfl, e, he⟩, fun hs => ⟨rfl, hs⟩⟩
  · rw [meets_perform, failing_iff]
    exact ⟨fun e he => absurd ⟨e, he⟩ (not_strikes_of_spared ht'.2 hunlink), fun _ => .inl ht'⟩

/-! ## The artifacts -/

abbrev Entries := PyStr → Option (Entry Unit)

/-- The entries with files added. -/
def addFiles (m : Entries) (files : List (PyStr × Bytes)) : Entries :=
  files.foldl (fun m file => Function.update m file.1 (some (.file (some ()) file.2))) m

theorem addFiles_of_notMem {m : Entries} {files : List (PyStr × Bytes)} {path : PyStr}
    (h : path ∉ files.map Prod.fst) : addFiles m files path = m path := by
  induction files generalizing m with
  | nil => rfl
  | cons file files ih =>
    rw [List.map_cons, List.mem_cons, not_or] at h
    show addFiles (Function.update m _ _) files path = _
    rw [ih h.2, Function.update_of_ne h.1]

theorem addFiles_of_mem {m : Entries} {files : List (PyStr × Bytes)} {file : PyStr × Bytes}
    (hnodup : (files.map Prod.fst).Nodup) (h : file ∈ files) :
    addFiles m files file.1 = some (.file (some ()) file.2) := by
  induction files generalizing m with
  | nil => cases h
  | cons file' files ih =>
    rw [List.map_cons, List.nodup_cons] at hnodup
    show addFiles (Function.update m _ _) files file.1 = _
    rcases List.mem_cons.mp h with rfl | h
    · rw [addFiles_of_notMem hnodup.1, Function.update_self]
    · exact ih hnodup.2 h

/-- A file that is added first or last. -/
theorem addFiles_update {m : Entries} {files : List (PyStr × Bytes)} {path : PyStr}
    {entry : Option (Entry Unit)} (h : path ∉ files.map Prod.fst) :
    Function.update (addFiles m files) path entry = addFiles (Function.update m path entry) files := by
  induction files generalizing m with
  | nil => rfl
  | cons file files ih =>
    rw [List.map_cons, List.mem_cons, not_or] at h
    show Function.update (addFiles (Function.update m _ _) files) path entry = _
    rw [ih h.2, Function.update_comm (Ne.symm h.1)]
    rfl

/-- Files of different names, none of which is taken. -/
structure Fresh (m : Entries) (files : List (PyStr × Bytes)) : Prop where
  free : ∀ file ∈ files, m file.1 = none
  nodup : (files.map Prod.fst).Nodup

namespace Fresh

variable {m : Entries} {files files' : List (PyStr × Bytes)} {file : PyStr × Bytes}

theorem left (h : Fresh m (files ++ files')) : Fresh m files := by
  have hnodup := h.nodup
  rw [List.map_append, List.nodup_append] at hnodup
  exact ⟨fun file hfile => h.free file (List.mem_append_left _ hfile), hnodup.1⟩

theorem notMem (h : Fresh m (files ++ file :: files')) : file.1 ∉ files.map Prod.fst := by
  have hnodup := h.nodup
  rw [List.map_append, List.nodup_append] at hnodup
  exact fun hmem => hnodup.2.2 _ hmem _ (by simp) rfl

/-- Files stay fresh when another name is taken. -/
theorem update (h : Fresh m files) {path : PyStr} (hpath : path ∉ files.map Prod.fst)
    (entry : Option (Entry Unit)) : Fresh (Function.update m path entry) files := by
  refine ⟨fun file hfile => ?_, h.nodup⟩
  have hne : file.1 ≠ path := fun heq => hpath (heq ▸ List.mem_map_of_mem hfile)
  rw [Function.update_of_ne hne]
  exact h.free file hfile

end Fresh

/-- The roll-back removes what was added. -/
theorem rollback_spec (hfault : ∀ path, ¬Strikes fault (.unlink path)) {m : Entries}
    {created : List (PyStr × Bytes)} (hfresh : Fresh m created) (hd : d.entries = addFiles m created) :
    Meets (failing fault) (rollback (created.map Prod.fst)) (fun _ t => t.entries = m)
      (fun _ _ => False) d := by
  induction created generalizing m with
  | nil => exact hd
  | cons file created ih =>
    have hnodup := hfresh.nodup
    rw [List.map_cons, List.nodup_cons] at hnodup
    have hrest : Fresh m created :=
      ⟨fun file' hfile' => hfresh.free file' (List.mem_cons_of_mem _ hfile'), hnodup.2⟩
    show Meets _ (do rollback (created.map Prod.fst); attempt (.unlink file.1)) _ _ d
    rw [meets_bind]
    refine (ih (hrest.update hnodup.1 _) hd).mono (Process.answering_monotone _) (fun _ t ht => ?_)
      fun _ _ h => h
    rw [meets_attempt, failing_iff]
    refine ⟨fun e he => absurd ⟨e, he⟩ (hfault file.1), fun _ => ?_⟩
    have hentry : t.entries file.1 = some (.file (some ()) file.2) := by
      rw [ht, Function.update_self]
    simp only [answer, hentry]
    show Function.update t.entries file.1 none = m
    rw [ht, Function.update_idem, ← hfresh.free file List.mem_cons_self, Function.update_eq_self]

/-- The roll-back and the exception after it. -/
theorem rollback_throw {α : Type} (hfault : ∀ path, ¬Strikes fault (.unlink path)) {m : Entries}
    {created : List (PyStr × Bytes)} (hfresh : Fresh m created) (hd : d.entries = addFiles m created)
    {e : ArtifactExc} {Q : α → Directory Unit → Prop} :
    Meets (failing fault) (do rollback (created.map Prod.fst); throw e) Q
      (fun _ t => t.entries = m) d := by
  rw [meets_bind]
  exact (rollback_spec hfault hfresh hd).mono (Process.answering_monotone _) (fun _ _ h => h)
    fun _ _ h => h.elim

/-- Some requested temporary file cannot be removed. -/
def LeavesBehind (fault : Fault) (m : Entries) (files : List (PyStr × Bytes)) (t : Directory Unit) :
    Prop :=
  ∃ file ∈ files, Strikes fault (.temp file.1 .unlink) ∧
    t.entries = Function.update m file.1 (some (.file (some ()) file.2))

theorem writeArtifacts_spec {m : Entries} {created files : List (PyStr × Bytes)}
    (hfresh : Fresh m (created ++ files)) (hd : d.entries = addFiles m created) :
    Meets (failing fault) (writeArtifacts (created.map Prod.fst) files)
      (fun _ t => t.entries = addFiles m (created ++ files) ∧
        ∀ file ∈ files, ¬Strikes fault (.temp file.1 .unlink))
      (fun _ t => t.entries = m ∧ Spared fault ∨ LeavesBehind fault m files t) d := by
  induction files generalizing created d with
  | nil =>
    rw [List.append_nil]
    refine meets_pure.mpr ⟨hd, fun file hfile => ?_⟩
    cases hfile
  | cons file files ih =>
    have hfile : d.entries file.1 = none := by
      rw [hd, addFiles_of_notMem hfresh.notMem]
      exact hfresh.free file (by simp)
    unfold writeArtifacts
    rw [meets_bind, meets_handle]
    refine (atomicWrite_spec hfile).mono (Process.answering_monotone _) ?_ ?_
    · rintro _ t ⟨ht, hstrikes⟩
      have hnext : t.entries = addFiles m (created ++ [file]) := by
        rw [ht, addFiles, List.foldl_append]
        show Function.update d.entries _ _ = Function.update (addFiles m created) _ _
        rw [hd]
      rw [List.append_cons] at hfresh
      have hrest := ih hfresh hnext
      rw [List.map_append] at hrest
      refine hrest.mono (Process.answering_monotone _) ?_ ?_
      · rintro _ t' ⟨ht', hall⟩
        rw [List.append_cons]
        exact ⟨ht', List.forall_mem_cons.mpr ⟨hstrikes, hall⟩⟩
      · rintro _ t' (h | ⟨file', hmem, h⟩)
        · exact .inl h
        · exact .inr ⟨file', List.mem_cons_of_mem _ hmem, h⟩
    · rintro e t (⟨ht, hspared⟩ | ⟨ht, hstrikes⟩)
      · refine (rollback_throw (fun path => not_strikes_of_spared hspared id) hfresh.left
          (ht.trans hd)).mono (Process.answering_monotone _) (fun _ _ h => h) fun _ t' ht' => ?_
        exact .inl ⟨ht', hspared⟩
      · have hunlink : ∀ path, ¬Strikes fault (.unlink path) := by
          rintro path ⟨e', he'⟩
          obtain ⟨e'', he''⟩ := hstrikes
          rw [he'] at he''
          cases he''
        -- The file that stays is as if it had been there before all others.
        have hleft : t.entries =
            addFiles (Function.update m file.1 (some (.file (some ()) file.2))) created := by
          rw [ht, ← addFiles_update hfresh.notMem, ← hd]
          rfl
        refine (rollback_throw hunlink (hfresh.left.update hfresh.notMem _) hleft).mono
          (Process.answering_monotone _) (fun _ _ h => h) fun _ t' ht' => ?_
        exact .inr ⟨file, List.mem_cons_self, hstrikes, ht'⟩

/-! ## A whole recording -/

theorem meets_query_bind {α : Type} {c : FsCall} {b : Bool} {t : Directory Unit}
    {f : Bool → Recorder α} {Q : α → Directory Unit → Prop}
    {E : ArtifactExc → Directory Unit → Prop} (hc : c.Harmless) (h : answer () c d = (.ok b, t))
    (hf : Meets (failing fault) (f b) Q E t) (he : ∀ e, Spared fault → E e d) :
    Meets (failing fault) (query c >>= f) Q E d := by
  rw [meets_bind, meets_query, failing_iff, h]
  exact ⟨fun e hs => he _ ⟨c, ⟨e, hs⟩, hc⟩, fun _ => hf⟩

/-- The output directory is one, or there is nothing yet. -/
def OutputUsable (d : Directory Unit) : Prop := d.output = .absent ∨ d.output = .directory

/-- The last calls about the output directory. -/
theorem makeOutput_spec {s : Directory Unit} (h : answer () .makeOutput d = (.ok true, s))
    (he : s.entries = d.entries) (hd : OutputUsable d) :
    Meets (failing fault) (do perform .makeOutput; attempt .chmodOutput)
      (fun _ t => t.entries = d.entries ∧ OutputUsable d)
      (fun _ t => t.entries = d.entries ∧ (Spared fault ∨ ¬OutputUsable d)) d := by
  rw [meets_bind, meets_perform, failing_iff, h]
  refine ⟨fun e hs => ⟨rfl, .inl ⟨_, ⟨e, hs⟩, trivial⟩⟩, fun _ => ?_⟩
  show Meets _ (attempt .chmodOutput) _ _ s
  rw [meets_attempt, failing_iff]
  exact ⟨fun _ _ => ⟨he, hd⟩, fun _ => ⟨he, hd⟩⟩

theorem prepareOutput_spec : Meets (failing fault) prepareOutput
    (fun _ t => t.entries = d.entries ∧ OutputUsable d)
    (fun _ t => t.entries = d.entries ∧ (Spared fault ∨ ¬OutputUsable d)) d := by
  have he : ∀ e : ArtifactExc, Spared fault →
      (fun (_ : ArtifactExc) (t : Directory Unit) => t.entries = d.entries ∧
        (Spared fault ∨ ¬OutputUsable d)) e d := fun _ hs => ⟨rfl, .inl hs⟩
  unfold prepareOutput occupiedByOther
  have hunusable : d.output = .symlink ∨ d.output = .other → ¬OutputUsable d := by
    rintro (h | h) (h' | h') <;> rw [h] at h' <;> cases h'
  cases hd : d.output with
  | symlink =>
    refine meets_query_bind trivial (b := true) (t := d) (by simp [answer, hd]) ?_ he
    exact meets_bind.mpr (meets_raiseWhen.mpr ⟨rfl, .inr (hunusable (.inl hd))⟩)
  | absent =>
    refine meets_query_bind trivial (b := false) (t := d) (by simp [answer, hd]) ?_ he
    refine meets_bind.mpr (meets_raiseWhen.mpr (meets_bind.mpr ?_))
    refine meets_query_bind trivial (b := false) (t := d) (by simp [answer, hd]) ?_ he
    refine meets_pure.mpr (meets_bind.mpr (meets_raiseWhen.mpr ?_))
    exact makeOutput_spec (s := { d with output := .directory }) (by simp [answer, hd]) rfl (.inl hd)
  | directory =>
    refine meets_query_bind trivial (b := false) (t := d) (by simp [answer, hd]) ?_ he
    refine meets_bind.mpr (meets_raiseWhen.mpr (meets_bind.mpr ?_))
    refine meets_query_bind trivial (b := true) (t := d) (by simp [answer, hd]) ?_ he
    refine meets_query_bind trivial (b := true) (t := d) (by simp [answer, hd]) ?_ he
    refine meets_pure.mpr (meets_bind.mpr (meets_raiseWhen.mpr ?_))
    exact makeOutput_spec (s := d) (by simp [answer, hd]) rfl (.inr hd)
  | other =>
    refine meets_query_bind trivial (b := false) (t := d) (by simp [answer, hd]) ?_ he
    refine meets_bind.mpr (meets_raiseWhen.mpr (meets_bind.mpr ?_))
    refine meets_query_bind trivial (b := true) (t := d) (by simp [answer, hd]) ?_ he
    refine meets_query_bind trivial (b := false) (t := d) (by simp [answer, hd]) ?_ he
    refine meets_pure.mpr (meets_bind.mpr (meets_raiseWhen.mpr ?_))
    exact ⟨rfl, .inr (hunusable (.inr hd))⟩

theorem preflight_spec (paths : List PyStr) : Meets (failing fault) (preflight paths)
    (fun _ t => t = d ∧ ∀ path ∈ paths, d.entries path = none)
    (fun _ t => t = d ∧ (Spared fault ∨ ∃ path ∈ paths, d.entries path ≠ none)) d := by
  induction paths with
  | nil => exact ⟨rfl, fun _ h => by cases h⟩
  | cons path paths ih =>
    unfold preflight
    refine meets_checked (fun hfree => ?_) fun e h => ⟨rfl, h.imp_right fun hne => ?_⟩
    · refine ih.mono (Process.answering_monotone _) ?_ ?_
      · rintro _ t ⟨rfl, hall⟩
        exact ⟨rfl, List.forall_mem_cons.mpr ⟨hfree, hall⟩⟩
      · rintro _ t ⟨rfl, h⟩
        exact ⟨rfl, h.imp_right fun ⟨path', hmem, hne⟩ => ⟨path', List.mem_cons_of_mem _ hmem, hne⟩⟩
    · exact ⟨path, List.mem_cons_self, hne⟩

variable {env : RecorderEnv} {recording : Recording}

/-- Without a failing call the recording comes to its first write. -/
structure WouldWrite (env : RecorderEnv) (recording : Recording) (d : Directory Unit) : Prop where
  requested : (recording.persistAudio || recording.persistTranscript) = true
  output : OutputUsable d
  free : ∀ kind ∈ recording.kinds, d.entries (recording.path kind) = none
  contents : ∃ contents, recording.contents env = .ok contents

/-- The files of a recording with their bytes. -/
def Recording.files (recording : Recording) (contents : Recording.Contents) : List (PyStr × Bytes) :=
  recording.kinds.map fun kind => (recording.path kind, contents.of kind)

theorem kinds_nodup (recording : Recording) : recording.kinds.Nodup := by
  unfold Recording.kinds
  cases recording.persistAudio <;> cases recording.persistTranscript <;> decide

theorem files_fst (recording : Recording) (contents : Recording.Contents) :
    (recording.files contents).map Prod.fst = recording.kinds.map recording.path := by
  unfold Recording.files
  rw [List.map_map]
  rfl

theorem paths_nodup (recording : Recording) : (recording.kinds.map recording.path).Nodup :=
  (kinds_nodup recording).map (fileName_injective recording.safeId)

theorem WouldWrite.fresh (h : WouldWrite env recording d) (contents : Recording.Contents) :
    Fresh d.entries (recording.files contents) := by
  constructor
  · intro file hfile
    obtain ⟨kind, hkind, rfl⟩ := List.mem_map.mp hfile
    exact h.free kind hkind
  · rw [files_fst]
    exact paths_nodup recording

/-- **What a recording does when one call fails.** -/
theorem persist_spec : Meets (failing fault) (persistVoiceResponse env recording)
    (fun _ t => WouldWrite env recording d ∧ ∃ contents, recording.contents env = .ok contents ∧
      t.entries = addFiles d.entries (recording.files contents) ∧
      ∀ file ∈ recording.files contents, ¬Strikes fault (.temp file.1 .unlink))
    (fun _ t => t.entries = d.entries ∧ (Spared fault ∨ ¬WouldWrite env recording d) ∨
      WouldWrite env recording d ∧ ∃ contents, recording.contents env = .ok contents ∧
        LeavesBehind fault d.entries (recording.files contents) t) d := by
  unfold persistVoiceResponse
  rw [meets_bind, meets_raiseWhen]
  by_cases hrequested : (recording.persistAudio || recording.persistTranscript) = true
  swap
  · have hnone : (!recording.persistAudio && !recording.persistTranscript) = true := by
      rw [← Bool.not_or, Bool.not_eq_true']
      exact eq_false_of_ne_true hrequested
    rw [if_pos hnone]
    exact .inl ⟨rfl, .inr fun h => hrequested h.requested⟩
  · have hsome : ¬(!recording.persistAudio && !recording.persistTranscript) = true := by
      rw [← Bool.not_or, hrequested]
      exact Bool.false_ne_true
    rw [if_neg hsome, meets_bind]
    refine prepareOutput_spec.mono (Process.answering_monotone _) ?_ ?_
    swap
    · rintro e t ⟨ht, h⟩
      exact .inl ⟨ht, h.imp_right fun hn hw => hn hw.output⟩
    rintro _ t ⟨ht, houtput⟩
    rw [meets_bind]
    refine (preflight_spec _).mono (Process.answering_monotone _) ?_ ?_
    swap
    · rintro e t' ⟨rfl, h⟩
      refine .inl ⟨ht, h.imp_right ?_⟩
      rintro ⟨path, hmem, hne⟩ hw
      obtain ⟨kind, hkind, rfl⟩ := List.mem_map.mp hmem
      rw [ht] at hne
      exact hne (hw.free kind hkind)
    rintro _ t' ⟨rfl, hfree⟩
    rw [meets_bind, meets_ofExcept]
    cases hcontents : recording.contents env with
    | error e =>
      refine .inl ⟨ht, .inr ?_⟩
      rintro ⟨-, -, -, contents, h⟩
      rw [hcontents] at h
      cases h
    | ok contents =>
      show Meets _ (writeArtifacts [] (recording.files contents) >>= _) _ _ t'
      have hwould : WouldWrite env recording d := by
        refine ⟨hrequested, houtput, fun kind hkind => ?_, contents, hcontents⟩
        rw [← ht]
        exact hfree _ (List.mem_map_of_mem hkind)
      have hfresh : Fresh d.entries ([] ++ recording.files contents) := hwould.fresh contents
      rw [meets_bind]
      refine (writeArtifacts_spec hfresh ht).mono (Process.answering_monotone _) ?_ ?_
      · rintro _ t'' ⟨ht'', hall⟩
        exact ⟨hwould, contents, rfl, ht'', hall⟩
      · rintro _ t'' (⟨ht'', hs⟩ | h)
        · exact .inl ⟨ht'', .inl hs⟩
        · exact .inr ⟨hwould, contents, rfl, h⟩

/-- How a recording ends when one call fails. -/
inductive RecordsTo (env : RecorderEnv) (recording : Recording) (fault : Fault) (d : Directory Unit) :
    Except ArtifactExc PersistedVoiceArtifacts × Directory Unit → Prop
  /-- Nothing is left behind. -/
  | refused {e : ArtifactExc} {t : Directory Unit} (ht : t.entries = d.entries)
      (h : Spared fault ∨ ¬WouldWrite env recording d) : RecordsTo env recording fault d (.error e, t)
  /-- The temporary file of an artifact cannot be removed. -/
  | behind {e : ArtifactExc} {t : Directory Unit} {contents : Recording.Contents}
      (hwould : WouldWrite env recording d) (h : LeavesBehind fault d.entries (recording.files contents) t) :
      RecordsTo env recording fault d (.error e, t)
  | written {artifacts : PersistedVoiceArtifacts} {t : Directory Unit} {contents : Recording.Contents}
      (hwould : WouldWrite env recording d) (hcontents : recording.contents env = .ok contents)
      (ht : t.entries = addFiles d.entries (recording.files contents))
      (hspared : ∀ file ∈ recording.files contents, ¬Strikes fault (.temp file.1 .unlink)) :
      RecordsTo env recording fault d (.ok artifacts, t)

theorem record_to : RecordsTo env recording fault d (record env recording fault d) := by
  have hspec := meets_answering.mp (@persist_spec fault d env recording)
  unfold record
  generalize (persistVoiceResponse env recording).run.run (answerFaulty fault) d = outcome at hspec
  rcases outcome with ⟨e | artifacts, t⟩
  · rcases hspec with ⟨ht, h⟩ | ⟨hwould, contents, -, h⟩
    · exact .refused ht h
    · exact .behind hwould h
  · obtain ⟨hwould, contents, hcontents, ht, hspared⟩ := hspec
    exact .written hwould hcontents ht hspared

/-! ## All or nothing -/

/-- The bytes of a file. -/
def dataAt (d : Directory Unit) (path : PyStr) : Option Bytes :=
  match d.entries path with
  | some (.file _ data) => some data
  | some (.symlink _) | some .other | none => none

/-- The requested files are there, with the bytes whose digests the manifest records. -/
structure Recorded (env : RecorderEnv) (recording : Recording) (manifest : Json)
    (d : Directory Unit) : Prop where
  manifestFile : ∃ data, dataAt d (recording.path .manifest) = some data ∧
    encodeUtf8 (indentedText 0 manifest ++ lit "\n") = .ok data
  wavFile : recording.persistAudio = true → ∃ data, dataAt d (recording.path .wav) = some data ∧
    createPcm16Wav recording.response.pcmAudio recording.response.sampleRate = .ok data ∧
    (manifest.member? (lit "audio")).bind (Json.member? · (lit "wav_sha256")) =
      some (.str (Recording.digestText env data))
  transcriptFile : recording.persistTranscript = true →
    ∃ data, dataAt d (recording.path .transcript) = some data ∧
      encodeUtf8 recording.response.transcript = .ok data ∧
      (manifest.member? (lit "transcript")).bind (Json.member? · (lit "file_sha256")) =
        some (.str (Recording.digestText env data))

/-- What a recording may do to a directory. -/
structure AllOrNothing (env : RecorderEnv) (recording : Recording) (before : Directory Unit)
    (outcome : Except ArtifactExc PersistedVoiceArtifacts × Directory Unit) : Prop where
  kept : ∀ path entry, before.entries path = some entry → outcome.2.entries path = some entry
  nothing : ∀ e, outcome.1 = .error e → ∀ kind, before.entries (recording.path kind) = none →
    outcome.2.entries (recording.path kind) = none
  all : ∀ artifacts, outcome.1 = .ok artifacts →
    ∃ manifest, Recorded env recording manifest outcome.2

theorem contents_eq_ok {contents : Recording.Contents} (h : recording.contents env = .ok contents) :
    (recording.persistAudio = true → ∃ data, contents.wavBytes = some data ∧
      createPcm16Wav recording.response.pcmAudio recording.response.sampleRate = .ok data) ∧
    encodeUtf8 recording.response.transcript = .ok contents.transcriptBytes ∧
    encodeUtf8 (indentedText 0 (recording.manifest env contents.wavBytes contents.transcriptBytes) ++
      lit "\n") = .ok contents.manifestBytes := by
  unfold Recording.contents at h
  simp only [bind_eq_ok, mapError_eq_ok, pure_eq_ok] at h
  obtain ⟨wav, hwav, transcript, htranscript, _, -, _, -, data, hdata, rfl⟩ := h
  refine ⟨fun haudio => ?_, htranscript, hdata⟩
  unfold Recording.wavBytes at hwav
  rw [if_pos haudio] at hwav
  cases hpcm : createPcm16Wav recording.response.pcmAudio recording.response.sampleRate with
  | error e =>
    rw [hpcm] at hwav
    cases hwav
  | ok data =>
    rw [hpcm] at hwav
    exact ⟨data, (Except.ok.inj hwav).symm, rfl⟩

/-- A requested file is there after the writes. -/
theorem entry_addFiles {m : Entries} {contents : Recording.Contents} {t : Directory Unit}
    (ht : t.entries = addFiles m (recording.files contents)) {kind : Kind}
    (hkind : kind ∈ recording.kinds) :
    t.entries (recording.path kind) = some (.file (some ()) (contents.of kind)) := by
  have hfile : (recording.path kind, contents.of kind) ∈ recording.files contents :=
    List.mem_map_of_mem hkind
  have hnodup : ((recording.files contents).map Prod.fst).Nodup := by
    rw [files_fst]
    exact paths_nodup recording
  rw [ht]
  exact addFiles_of_mem hnodup hfile

theorem mem_kinds_manifest (recording : Recording) : Kind.manifest ∈ recording.kinds :=
  List.mem_append_right _ List.mem_cons_self

theorem dataAt_addFiles {m : Entries} {contents : Recording.Contents} {t : Directory Unit}
    (ht : t.entries = addFiles m (recording.files contents)) {kind : Kind}
    (hkind : kind ∈ recording.kinds) :
    dataAt t (recording.path kind) = some (contents.of kind) := by
  unfold dataAt
  rw [entry_addFiles ht hkind]

theorem recorded_of_contents {m : Entries} {contents : Recording.Contents} {t : Directory Unit}
    (hcontents : recording.contents env = .ok contents)
    (ht : t.entries = addFiles m (recording.files contents)) :
    Recorded env recording (recording.manifest env contents.wavBytes contents.transcriptBytes) t := by
  obtain ⟨hwav, htranscript, hmanifest⟩ := contents_eq_ok hcontents
  refine ⟨⟨_, dataAt_addFiles ht (mem_kinds_manifest recording), hmanifest⟩, fun haudio => ?_, fun htext => ?_⟩
  · obtain ⟨data, hdata, hpcm⟩ := hwav haudio
    have hkind : Kind.wav ∈ recording.kinds := by simp [Recording.kinds, haudio]
    refine ⟨data, ?_, hpcm, ?_⟩
    · rw [dataAt_addFiles ht hkind, Recording.Contents.of, hdata]
      rfl
    · rw [hdata]
      rfl
  · have hkind : Kind.transcript ∈ recording.kinds := by simp [Recording.kinds, htext]
    refine ⟨contents.transcriptBytes, dataAt_addFiles ht hkind, htranscript, ?_⟩
    unfold Recording.manifest
    rw [if_pos htext]
    rfl

/-- **A recording is all or nothing unless the temporary file of a requested artifact cannot be
removed.** -/
theorem allOrNothing_iff (env : RecorderEnv) (recording : Recording) (fault : Fault)
    (d : Directory Unit) :
    AllOrNothing env recording d (record env recording fault d) ↔
      ¬(WouldWrite env recording d ∧
        ∃ kind ∈ recording.kinds, Strikes fault (.temp (recording.path kind) .unlink)) := by
  have hto := @record_to fault d env recording
  generalize record env recording fault d = outcome at hto ⊢
  cases hto with
  | @refused e t ht h =>
    refine iff_of_true ⟨fun path entry he => ?_, fun e' _ kind hnone => ?_, fun _ h' => ?_⟩ ?_
    · show t.entries path = some entry
      rw [ht, he]
    · show t.entries _ = none
      rw [ht, hnone]
    · cases h'
    · rintro ⟨hwould, kind, -, hstrikes⟩
      exact h.elim (fun hs => not_strikes_of_spared hs id hstrikes) fun hn => hn hwould
  | @behind e t contents hwould h =>
    obtain ⟨file, hfile, hstrikes, ht⟩ := h
    obtain ⟨kind, hkind, rfl⟩ := List.mem_map.mp hfile
    refine iff_of_false (fun h => ?_) fun h => h ⟨hwould, kind, hkind, hstrikes⟩
    have hnone : t.entries (recording.path kind) = none :=
      h.nothing e rfl kind (hwould.free kind hkind)
    rw [ht, Function.update_self] at hnone
    cases hnone
  | @written artifacts t contents hwould hcontents ht hspared =>
    refine iff_of_true ⟨fun path entry he => ?_, fun _ h' => ?_, fun _ _ => ?_⟩ ?_
    · show t.entries path = some entry
      by_cases hmem : path ∈ (recording.files contents).map Prod.fst
      · rw [files_fst] at hmem
        obtain ⟨kind, hkind, rfl⟩ := List.mem_map.mp hmem
        rw [hwould.free kind hkind] at he
        cases he
      · rw [ht, addFiles_of_notMem hmem, he]
    · cases h'
    · exact ⟨_, recorded_of_contents hcontents ht⟩
    · rintro ⟨-, kind, hkind, hstrikes⟩
      exact hspared _ (List.mem_map_of_mem hkind) hstrikes

/-! ## A recording that leaves a file behind -/

def demoRecorder : RecorderEnv where
  toEnv := demoEnv
  duration := fun _ _ => ⟨lit "0.5", isFloatText_half⟩

def sampleRecording : Recording where
  response := ⟨lit "r1", lit "hi", [0, 0], 24000, some (lit "completed"), true, []⟩
  persistAudio := true
  persistTranscript := true
  createdAt := lit "2026-01-01T00:00:00Z"

def emptyDirectory : Directory Unit := ⟨.directory, fun _ => none, fun _ _ => none⟩

/-- The temporary file of the transcript cannot be removed. -/
def sampleFault : Fault := some (.temp (lit "response_r1.txt") .unlink, .other 5)

/-- The call raises, the wav file is removed again, and the transcript stays. -/
theorem sampleFault_leavesBehind :
    ¬AllOrNothing demoRecorder sampleRecording emptyDirectory
      (record demoRecorder sampleRecording sampleFault emptyDirectory) := by
  intro h
  have hrun : (record demoRecorder sampleRecording sampleFault emptyDirectory).1 =
        .error (.os (.other 5)) ∧
      (record demoRecorder sampleRecording sampleFault emptyDirectory).2.entries
        (sampleRecording.path .transcript) ≠ none := by
    decide +kernel
  exact hrun.2 (h.nothing _ hrun.1 .transcript rfl)

end Sentinel.Voice.Artifacts

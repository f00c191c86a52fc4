import Aymos.Evidence

/-!
Sudden stops during the publication of evidence.

Wherever a replacement is stopped, the old or the new evidence is whole under one of its names.
What decides over the recovery is whether the backup still has its marker.
-/

namespace Aymos.EvidenceStops

open StopPoints StopPoints.Program Evidence

variable {H : Host} {t s : Tree} {place : Place} {entries : Entries} {label : String} {pid : ℕ}

/-! ### Trees -/

@[simp] lemma setNode_self (t : Tree) (place : Place) (node : Option Node) :
    (setNode t place node).nodes place = node := Function.update_self ..

lemma setNode_other {place' : Place} (node : Option Node) (h : place' ≠ place) :
    (setNode t place node).nodes place' = t.nodes place' := Function.update_of_ne h _ _

@[simp] lemma setNode_setNode (t : Tree) (place : Place) (node node' : Option Node) :
    setNode (setNode t place node) place node' = setNode t place node' := by
  simp [setNode]

@[simp] lemma setNode_lock (t : Tree) (place : Place) (node : Option Node) :
    (setNode t place node).lock = t.lock := rfl

lemma rename_target {source target : Place} (h : target ≠ source) :
    (rename source target t).nodes target = t.nodes source := by
  rw [rename, setNode_other _ h, setNode_self]

lemma rename_other {source target place' : Place} (hs : place' ≠ source) (ht : place' ≠ target) :
    (rename source target t).nodes place' = t.nodes place' := by
  rw [rename, setNode_other _ hs, setNode_other _ ht]

/-- A directory with a regular marker. -/
def MarkedDirectory (node : Option Node) : Prop :=
  ∃ entries, node = some (.directory entries) ∧ marked entries = true

/-! ### Validation and removal -/

lemma validate_ok (h : MarkedDirectory (t.nodes place)) (label : String) :
    validateMarkedEvidence H place label t = ⟨[], .ok ()⟩ := by
  obtain ⟨entries, hnode, hmarked⟩ := h
  rw [validateMarkedEvidence, look_bind, hnode]
  simp only [hmarked, if_true]
  rfl

lemma validate_error (h : ¬MarkedDirectory (t.nodes place)) (label : String) :
    ∃ e, validateMarkedEvidence H place label t = ⟨[], .error e⟩ := by
  rw [validateMarkedEvidence, look_bind]
  rcases hnode : t.nodes place with _ | entries | _ | _
  · exact ⟨_, rfl⟩
  · have hmarked : marked entries = false := by
      rw [← Bool.not_eq_true]
      exact fun hm => h ⟨entries, hnode, hm⟩
    simp only [hmarked, Bool.false_eq_true, if_false]
    exact ⟨_, rfl⟩
  · exact ⟨_, rfl⟩
  · exact ⟨_, rfl⟩

/-- A directory from which entries have been removed. -/
def Removing (place : Place) (t s : Tree) : Prop :=
  ∃ entries, s = setNode t place (some (.directory entries))

lemma unlink_removing (name : String) (h : Removing place t s) :
    Removing place t (unlink place name s) := by
  obtain ⟨entries, rfl⟩ := h
  rw [unlink, setNode_self]
  exact ⟨_, setNode_setNode ..⟩

/-- **The removal of entries** can be stopped with any of them left. -/
lemma unlinkAll_run (names : List String) (h : Removing place t s) :
    (unlinkAll place names s).result = .ok () ∧
      ∀ s' ∈ (unlinkAll place names).stops s, Removing place t s' := by
  induction names generalizing s with
  | nil =>
    refine ⟨rfl, fun s' hs' => ?_⟩
    rw [List.mem_singleton.mp hs']
    exact h
  | cons name names ih =>
    have hnext := ih (unlink_removing name h)
    rw [unlinkAll]
    refine ⟨?_, fun s' hs' => ?_⟩
    · rw [step_bind]
      exact hnext.1
    · rcases (bind_stops (by rfl)).mp hs' with hs' | hs'
      · rcases (step_stops _).mp hs' with rfl | rfl
        · exact h
        · exact unlink_removing name h
      · exact hnext.2 s' hs'

/-- **The removal of a directory**: entries go first, then the directory. -/
lemma rmtree_run (h : t.nodes place = some (.directory entries)) :
    (rmtree H place t).result = .ok () ∧ (rmtree H place).final t = setNode t place none ∧
      ∀ s ∈ (rmtree H place).stops t, Removing place t s ∨ s = setNode t place none := by
  have hself : Removing place t t := ⟨entries, by rw [← h]; simp [setNode]⟩
  obtain ⟨hok, hstops⟩ := unlinkAll_run (H.order entries) hself
  have hrun : rmtree H place t =
      (unlinkAll place (H.order entries) >>= fun _ => step (rmdir place)) t := by
    rw [rmtree, look_bind, h]
  have hlast : rmdir place ((unlinkAll place (H.order entries)).final t) = setNode t place none := by
    obtain ⟨es, hes⟩ := hstops _ (final_mem_stops _ t)
    rw [hes, rmdir, setNode_setNode]
  refine ⟨?_, ?_, fun s hs => ?_⟩
  · rw [hrun, bind_ok hok]
    rfl
  · rw [Program.final, hrun, ← Program.final, bind_final hok, step_final, hlast]
  · rw [stops, hrun, ← stops, bind_stops hok] at hs
    rcases hs with hs | hs
    · exact Or.inl (hstops s hs)
    · rcases (step_stops _).mp hs with rfl | rfl
      · exact Or.inl (hstops _ (final_mem_stops _ t))
      · exact Or.inr hlast

lemma removeMarked_run (h : MarkedDirectory (t.nodes place)) (label : String) :
    (removeMarkedEvidence H place label t).result = .ok () ∧
      (removeMarkedEvidence H place label).final t = setNode t place none ∧
      ∀ s ∈ (removeMarkedEvidence H place label).stops t,
        Removing place t s ∨ s = setNode t place none := by
  have hrun : removeMarkedEvidence H place label t = rmtree H place t :=
    bind_of_eq (validate_ok h label)
  obtain ⟨entries, hnode, -⟩ := h
  have hrm := rmtree_run (H := H) hnode
  rw [Program.final, stops, hrun]
  exact hrm

/-! ### Recovery -/

lemma recover_nothing (h : t.nodes .backup = none) :
    recoverEvidenceBackup H t = ⟨[], .ok ()⟩ := by
  rw [recoverEvidenceBackup, look_bind, h]
  rfl

lemma recover_backup (h : t.nodes .backup ≠ none) :
    recoverEvidenceBackup H t = (do
      validateMarkedEvidence H .backup "evidence backup"
      if pathExists (t.nodes .published) || isSymlink (t.nodes .published) then
        validateMarkedEvidence H .published "published evidence"
        removeMarkedEvidence H .backup "evidence backup"
      else step (rename .backup .published) : Action) t := by
  have hthere : (!pathExists (t.nodes .backup) && !isSymlink (t.nodes .backup)) = false := by
    rcases hnode : t.nodes .backup with _ | entries | _ | resolves
    · exact absurd hnode h
    · rfl
    · rfl
    · cases resolves <;> rfl
  rw [recoverEvidenceBackup, look_bind]
  simp only [hthere, Bool.false_eq_true, if_false]

/-- **The recovery raises** where the backup is there without its marker. -/
lemma recover_error (h : t.nodes .backup ≠ none) (hbackup : ¬MarkedDirectory (t.nodes .backup)) :
    ∃ e, recoverEvidenceBackup H t = ⟨[], .error e⟩ := by
  obtain ⟨e, he⟩ := validate_error (H := H) hbackup "evidence backup"
  have hresult : (validateMarkedEvidence H .backup "evidence backup" t).result = .error e := by
    rw [he]
  refine ⟨e, ?_⟩
  rw [recover_backup h, bind_error hresult, he]

/-- A backup beside no published evidence is restored. -/
lemma recover_restores (hbackup : MarkedDirectory (t.nodes .backup))
    (hpublished : t.nodes .published = none) :
    recoverEvidenceBackup H t = ⟨[rename .backup .published t], .ok ()⟩ := by
  have hthere : t.nodes .backup ≠ none := by
    obtain ⟨entries, hnode, -⟩ := hbackup
    simp [hnode]
  rw [recover_backup hthere, bind_of_eq (validate_ok hbackup _), hpublished]
  rfl

/-- A backup beside published evidence is removed. -/
lemma recover_removes (hbackup : MarkedDirectory (t.nodes .backup))
    (hpublished : MarkedDirectory (t.nodes .published)) :
    recoverEvidenceBackup H t = removeMarkedEvidence H .backup "evidence backup" t := by
  have hthere : t.nodes .backup ≠ none := by
    obtain ⟨entries, hnode, -⟩ := hbackup
    simp [hnode]
  have hexists : pathExists (t.nodes .published) = true := by
    obtain ⟨entries, hnode, -⟩ := hpublished
    rw [hnode]
    rfl
  rw [recover_backup hthere, bind_of_eq (validate_ok hbackup _)]
  simp only [hexists, Bool.true_or, if_true]
  exact bind_of_eq (validate_ok hpublished _)

/-! ### Stopped replacements -/

/-- What a stop can leave of the `old` and the `new` evidence. -/
structure Stopped (old new : Option Node) (pid : ℕ) (s : Tree) : Prop where
  published : s.nodes .published = old ∨ s.nodes .published = new ∨
    s.nodes .published = none ∧ s.nodes .backup = old
  valid : s.nodes .published = none ∨ MarkedDirectory (s.nodes .published)
  stage : s.nodes .published = new ∨ s.nodes (.stage pid) = new
  nothing : old = none → s.nodes .backup = none

/-- **The promise of the recovery** at a state in which a replacement was stopped. -/
structure Survives (H : Host) (old new : Option Node) (pid : ℕ) (s : Tree) : Prop where
  returns : (recoverEvidenceBackup H).Succeeds s
  no_backup : ((recoverEvidenceBackup H).final s).nodes .backup = none
  whole : ((recoverEvidenceBackup H).final s).nodes .published = old ∨
    ((recoverEvidenceBackup H).final s).nodes .published = new
  nothing : ((recoverEvidenceBackup H).final s).nodes .published = none →
    old = none ∧ ((recoverEvidenceBackup H).final s).nodes (.stage pid) = new

variable {old new : Option Node}

lemma MarkedDirectory.ne_none {node : Option Node} (h : MarkedDirectory node) : node ≠ none := by
  obtain ⟨entries, rfl, -⟩ := h
  exact Option.some_ne_none _

/-- **Where a stopped replacement survives**: the backup is gone or has its marker. -/
lemma Stopped.survives_iff (h : Stopped old new pid s) (hnew : MarkedDirectory new) :
    Survives H old new pid s ↔
      s.nodes .backup = none ∨ MarkedDirectory (s.nodes .backup) := by
  constructor
  · intro hs
    by_contra! hbackup
    obtain ⟨e, he⟩ := recover_error (H := H) hbackup.1 hbackup.2
    obtain ⟨_, hok⟩ := hs.returns
    rw [he] at hok
    cases hok
  · rintro (hbackup | hbackup)
    · have hrun := recover_nothing (H := H) hbackup
      have hfinal : (recoverEvidenceBackup H).final s = s := by
        rw [final, hrun]
        rfl
      refine ⟨⟨(), by rw [hrun]⟩, ?_, ?_, ?_⟩ <;> rw [hfinal]
      · exact hbackup
      · rcases h.published with hp | hp | ⟨hp, hold⟩
        · exact Or.inl hp
        · exact Or.inr hp
        · exact Or.inl (hp.trans (hbackup.symm.trans hold))
      · intro hnone
        refine ⟨?_, ?_⟩
        · rcases h.published with hp | hp | ⟨_, hold⟩
          · exact hp.symm.trans hnone
          · exact absurd (hp.symm.trans hnone) hnew.ne_none
          · exact hold.symm.trans hbackup
        · rcases h.stage with hp | hs
          · exact absurd (hp.symm.trans hnone) hnew.ne_none
          · exact hs
    · rcases h.valid with hp | hp
      · have hrun := recover_restores (H := H) hbackup hp
        have hfinal : (recoverEvidenceBackup H).final s = rename .backup .published s := by
          rw [final, hrun]
          rfl
        have hold : s.nodes .backup = old := by
          rcases h.published with ho | hn | ⟨-, hold⟩
          · exact absurd (h.nothing (ho.symm.trans hp)) hbackup.ne_none
          · exact absurd (hn.symm.trans hp) hnew.ne_none
          · exact hold
        have hpublished : (rename .backup .published s).nodes .published = old := by
          rw [rename_target (by simp), hold]
        refine ⟨⟨(), by rw [hrun]⟩, ?_, ?_, ?_⟩ <;> rw [hfinal]
        · exact setNode_self ..
        · exact Or.inl hpublished
        · intro hnone
          exact absurd (hold.trans (hpublished.symm.trans hnone)) hbackup.ne_none
      · have hrun := recover_removes (H := H) hbackup hp
        obtain ⟨hok, hlast, -⟩ := removeMarked_run (H := H) hbackup "evidence backup"
        have hfinal : (recoverEvidenceBackup H).final s = setNode s .backup none := by
          rw [← hlast, final, hrun, final]
        have hpublished : (setNode s .backup none).nodes .published = s.nodes .published :=
          setNode_other _ (by simp)
        refine ⟨⟨(), by rw [hrun, hok]⟩, ?_, ?_, ?_⟩ <;> rw [hfinal]
        · exact setNode_self ..
        · rw [hpublished]
          rcases h.published with ho | hn | ⟨hnone, -⟩
          · exact Or.inl ho
          · exact Or.inr hn
          · exact absurd hnone hp.ne_none
        · intro hnone
          exact absurd (hpublished.symm.trans hnone) hp.ne_none

/-! ### The stops of a replacement -/

/-- The evidence a replacement starts from: published, or left as a backup. -/
def previous (t : Tree) : Option Node := (t.nodes .published).or (t.nodes .backup)

/-- A replacement that has recovered. -/
structure Ready (old new : Option Node) (pid : ℕ) (t : Tree) : Prop where
  stage : t.nodes (.stage pid) = new
  published : t.nodes .published = old
  backup : t.nodes .backup = none
  valid : old = none ∨ MarkedDirectory old

lemma Ready.stopped (h : Ready old new pid t) : Stopped old new pid t where
  published := Or.inl h.published
  valid := by
    rw [h.published]
    exact h.valid
  stage := Or.inr h.stage
  nothing _ := h.backup

/-- A recovery before the replacement ends ready, or raises with the backup unmarked. -/
lemma recover_ready (hstage : t.nodes (.stage pid) = new)
    (hpublished : t.nodes .published = none ∨ MarkedDirectory (t.nodes .published))
    (hbackup : t.nodes .backup = none ∨ MarkedDirectory (t.nodes .backup)) :
    (recoverEvidenceBackup H t).result = .ok () ∧
      Ready (previous t) new pid ((recoverEvidenceBackup H).final t) ∧
      ∀ s ∈ (recoverEvidenceBackup H).stops t, Stopped (previous t) new pid s := by
  rcases hbackup with hbackup | hbackup
  · have hrun := recover_nothing (H := H) hbackup
    have hready : Ready (previous t) new pid t := by
      refine ⟨hstage, ?_, hbackup, ?_⟩ <;> rw [previous, hbackup, Option.or_none]
      exact hpublished
    refine ⟨by rw [hrun], ?_, fun s hs => ?_⟩
    · rw [final, hrun]
      exact hready
    · rw [stops, hrun, List.mem_singleton] at hs
      rw [hs]
      exact hready.stopped
  · rcases hpublished with hp | hp
    · have hrun := recover_restores (H := H) hbackup hp
      have hprev : previous t = t.nodes .backup := by rw [previous, hp, Option.none_or]
      have hready : Ready (previous t) new pid (rename .backup .published t) := by
        refine ⟨?_, ?_, setNode_self .., Or.inr (hprev ▸ hbackup)⟩
        · rw [rename_other (by simp) (by simp), hstage]
        · rw [rename_target (by simp), hprev]
      refine ⟨by rw [hrun], ?_, fun s hs => ?_⟩
      · rw [final, hrun]
        exact hready
      · rw [stops, hrun, List.mem_cons, List.mem_singleton] at hs
        rcases hs with rfl | rfl
        · exact ⟨Or.inr (Or.inr ⟨hp, hprev.symm⟩), Or.inl hp, Or.inr hstage,
            fun hnone => hprev.symm.trans hnone⟩
        · exact hready.stopped
    · have hrun := recover_removes (H := H) hbackup hp
      obtain ⟨hok, hlast, hstops⟩ := removeMarked_run (H := H) hbackup "evidence backup"
      have hprev : previous t = t.nodes .published := by
        obtain ⟨entries, hnode, -⟩ := hp
        rw [previous, hnode, Option.some_or]
      have hready : Ready (previous t) new pid (setNode t .backup none) := by
        refine ⟨?_, ?_, setNode_self .., Or.inr (hprev ▸ hp)⟩
        · rw [setNode_other _ (by simp), hstage]
        · rw [setNode_other _ (by simp), hprev]
      refine ⟨by rw [hrun, hok], ?_, fun s hs => ?_⟩
      · rw [final, hrun, ← final, hlast]
        exact hready
      · rw [stops, hrun, ← stops] at hs
        rcases hstops s hs with ⟨entries, rfl⟩ | rfl
        · refine ⟨Or.inl ?_, Or.inr ?_, Or.inr ?_, fun hnone => ?_⟩
          · rw [setNode_other _ (by simp), hprev]
          · rwa [setNode_other _ (by simp)]
          · rw [setNode_other _ (by simp), hstage]
          · exact absurd (hprev.symm.trans hnone) hp.ne_none
        · exact hready.stopped

/-- The installation of the stage. -/
lemma install_run (hnew : MarkedDirectory new) (hstage : t.nodes (.stage pid) = new)
    (handler : Action) :
    onError (do
      step (rename (.stage pid) .published)
      validateMarkedEvidence H .published "published evidence") handler t =
        ⟨[rename (.stage pid) .published t], .ok ()⟩ := by
  have hpublished : (rename (.stage pid) .published t).nodes .published = new := by
    rw [rename_target (by simp), hstage]
  have hrun : (do
      step (rename (.stage pid) .published)
      validateMarkedEvidence H .published "published evidence" : Action) t =
        ⟨[rename (.stage pid) .published t], .ok ()⟩ := by
    rw [step_bind, validate_ok (hpublished ▸ hnew)]
  rw [onError_of_ok (by rw [hrun]), hrun]

/-- The published evidence has been moved aside. -/
lemma aside_stopped (h : Ready old new pid t) (hold : MarkedDirectory old) :
    Stopped old new pid (rename .published .backup t) := by
  refine ⟨Or.inr (Or.inr ⟨setNode_self .., ?_⟩), Or.inl (setNode_self ..), Or.inr ?_, fun hnone => ?_⟩
  · rw [rename_target (by simp), h.published]
  · rw [rename_other (by simp) (by simp), h.stage]
  · exact absurd hnone hold.ne_none

/-- The new evidence is published; a backup is the old evidence's. -/
lemma installed_stopped (hpublished : s.nodes .published = new) (hnew : MarkedDirectory new)
    (hnothing : old = none → s.nodes .backup = none) : Stopped old new pid s :=
  ⟨Or.inr (Or.inl hpublished), Or.inr (hpublished ▸ hnew), Or.inl hpublished, hnothing⟩

/-- **Where a replacement can be stopped.** -/
lemma replace_stops (hnew : MarkedDirectory (t.nodes (.stage pid)))
    (hpublished : t.nodes .published = none ∨ MarkedDirectory (t.nodes .published)) :
    ∀ s ∈ (replaceEvidence H pid).stops t,
      Stopped (previous t) (t.nodes (.stage pid)) pid s := by
  intro s hs
  rw [replaceEvidence, stops_of_eq (validate_ok hnew _)] at hs
  by_cases hbackup : t.nodes .backup = none ∨ MarkedDirectory (t.nodes .backup)
  · obtain ⟨hok, hready, hstops⟩ := recover_ready (H := H) rfl hpublished hbackup
    rcases (bind_stops hok).mp hs with hs | hs
    · exact hstops s hs
    generalize (recoverEvidenceBackup H).final t = t₁ at hready hs
    generalize t.nodes (.stage pid) = new, previous t = old at hnew hready ⊢
    rw [look_stops, hready.published] at hs
    rcases hready.valid with hold | hold
    · -- Nothing was published: the run is over when the stage is installed.
      rw [hold] at hs hready ⊢
      simp only [isSymlink, pathExists, Bool.false_eq_true, if_false] at hs
      have hrun := install_run (H := H) hnew hready.stage (rollback pid false)
      have hinstalled : Stopped none new pid (rename (.stage pid) .published t₁) :=
        installed_stopped (by rw [rename_target (by simp), hready.stage]) hnew fun _ => by
          rw [rename_other (by simp) (by simp), hready.backup]
      rcases (bind_stops (by rw [hrun])).mp hs with hs | hs
      · rw [stops, hrun, List.mem_cons, List.mem_singleton] at hs
        rcases hs with rfl | rfl
        · exact hready.stopped
        · exact hinstalled
      · rw [final, hrun] at hs
        rw [List.mem_singleton.mp hs]
        exact hinstalled
    · -- The published evidence moves aside, the stage is installed, the backup goes.
      have hvalid : MarkedDirectory (t₁.nodes .published) := hready.published ▸ hold
      have haside := aside_stopped hready hold
      obtain ⟨entries, hentries, -⟩ := id hold
      rw [hentries] at hs
      simp only [isSymlink, pathExists, Bool.false_eq_true, if_false, if_true] at hs
      rw [stops_of_eq (validate_ok hvalid _)] at hs
      have hbackup₂ : (rename .published .backup t₁).nodes .backup = old := by
        rw [rename_target (by simp), hready.published]
      have hstage₂ : (rename .published .backup t₁).nodes (.stage pid) = new := by
        rw [rename_other (by simp) (by simp), hready.stage]
      rcases (bind_stops (by rfl)).mp hs with hs | hs
      · rcases (step_stops _).mp hs with rfl | rfl
        · exact hready.stopped
        · exact haside
      rw [step_final] at hs
      generalize rename .published .backup t₁ = t₂ at haside hbackup₂ hstage₂ hs
      have hrun := install_run (H := H) hnew hstage₂ (rollback pid true)
      have hpublished₃ : (rename (.stage pid) .published t₂).nodes .published = new := by
        rw [rename_target (by simp), hstage₂]
      have hbackup₃ : (rename (.stage pid) .published t₂).nodes .backup = old := by
        rw [rename_other (by simp) (by simp), hbackup₂]
      rcases (bind_stops (by rw [hrun])).mp hs with hs | hs
      · rw [stops, hrun, List.mem_cons, List.mem_singleton] at hs
        rcases hs with rfl | rfl
        · exact haside
        · exact installed_stopped hpublished₃ hnew fun hnone => hbackup₃.trans hnone
      rw [final, hrun] at hs
      change s ∈ (removeMarkedEvidence H .backup "evidence backup").stops
        (rename (.stage pid) .published t₂) at hs
      generalize rename (.stage pid) .published t₂ = t₃ at hpublished₃ hbackup₃ hs
      have hdirectory : MarkedDirectory (t₃.nodes .backup) := hbackup₃ ▸ hold
      obtain ⟨-, -, hstops⟩ := removeMarked_run (H := H) hdirectory "evidence backup"
      rcases hstops s hs with ⟨entries', rfl⟩ | rfl
      · exact installed_stopped (by rw [setNode_other _ (by simp), hpublished₃]) hnew fun hnone =>
          absurd hnone hold.ne_none
      · exact installed_stopped (by rw [setNode_other _ (by simp), hpublished₃]) hnew fun hnone =>
          absurd hnone hold.ne_none
  · push Not at hbackup
    obtain ⟨e, he⟩ := recover_error (H := H) hbackup.1 hbackup.2
    rw [stops, bind_error (by rw [he]), he, List.mem_singleton] at hs
    rw [hs]
    refine ⟨?_, hpublished, Or.inr rfl, fun hnone => ?_⟩
    · rw [previous]
      rcases t.nodes .published with _ | node
      · exact Or.inr (Or.inr ⟨rfl, Option.none_or.symm⟩)
      · exact Or.inl Option.some_or.symm
    · rw [previous, Option.or_eq_none_iff] at hnone
      exact hnone.2

/-- **A stopped replacement survives** unless the stop falls between the removal of the backup's
marker and the removal of its directory. -/
theorem replace_survives (H : Host) (t : Tree) (pid : ℕ)
    (hnew : MarkedDirectory (t.nodes (.stage pid)))
    (hpublished : t.nodes .published = none ∨ MarkedDirectory (t.nodes .published))
    (s : Tree) (hs : s ∈ (replaceEvidence H pid).stops t) :
    Survives H (previous t) (t.nodes (.stage pid)) pid s ↔
      s.nodes .backup = none ∨ MarkedDirectory (s.nodes .backup) :=
  (replace_stops hnew hpublished s hs).survives_iff hnew

/-- A host that removes entries in the order of the directory. -/
def listingHost : Host where
  root := "/aymos"
  order entries := entries.map Prod.fst
  order_perm := listing_perm

def evidenceOf (summary : String) : Node :=
  .directory [(evidenceMarker, .file "schema=1\n"), ("summary.json", .file summary)]

/-- Evidence is published and the next is staged. -/
def staged : Tree where
  base := .directory
  lock := true
  nodes
    | .published => some (evidenceOf "old")
    | .backup => none
    | .stage pid => if pid = 7 then some (evidenceOf "new") else none

lemma evidenceOf_marked (summary : String) : MarkedDirectory (some (evidenceOf summary)) :=
  ⟨_, rfl, by simp [marked]⟩

/-- A stop between the two renames, when nothing is published. -/
theorem replace_survives_staged : ∃ s ∈ (replaceEvidence listingHost 7).stops staged,
    s.nodes .published = none ∧ s.nodes .backup = some (evidenceOf "old") ∧
      Survives listingHost (some (evidenceOf "old")) (some (evidenceOf "new")) 7 s := by
  have hstop : ((replaceEvidence listingHost 7).stops staged)[1]?.map
      (fun s => (s.nodes .published, s.nodes .backup)) = some (none, some (evidenceOf "old")) := rfl
  obtain ⟨s, hs, hnodes⟩ := Option.map_eq_some_iff.mp hstop
  obtain ⟨hpublished, hbackup⟩ := Prod.mk.inj hnodes
  have hmem := List.mem_of_getElem? hs
  exact ⟨s, hmem, hpublished, hbackup, (replace_survives listingHost staged 7
    (evidenceOf_marked "new") (Or.inr (evidenceOf_marked "old")) s hmem).mpr
    (Or.inr (hbackup ▸ evidenceOf_marked "old"))⟩

/-- A stop after the marker's removal leaves a backup that the recovery refuses. -/
theorem marker_removed_first :
    ¬∀ s ∈ (replaceEvidence listingHost 7).stops staged,
      Survives listingHost (previous staged) (staged.nodes (.stage 7)) 7 s := by
  intro h
  have hstop : ((replaceEvidence listingHost 7).stops staged)[3]?.map (fun s => s.nodes .backup) =
      some (some (.directory [("summary.json", .file "old")])) := rfl
  obtain ⟨s, hs, hbackup⟩ := Option.map_eq_some_iff.mp hstop
  have hmem := List.mem_of_getElem? hs
  have hstopped := replace_stops (evidenceOf_marked "new") (Or.inr (evidenceOf_marked "old")) s hmem
  rcases (hstopped.survives_iff (evidenceOf_marked "new")).mp (h s hmem) with hnone | hmarked
  · simp [hbackup] at hnone
  · obtain ⟨entries, hnode, hmarked⟩ := hmarked
    rw [hbackup] at hnode
    cases hnode
    simp [marked, evidenceMarker] at hmarked

end Aymos.EvidenceStops

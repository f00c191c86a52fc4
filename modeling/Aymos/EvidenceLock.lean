import Aymos.Evidence

/-!
The lock of an evidence run.

A run makes the lock directory before its first step on the evidence and removes it after its
last. A stop between the two leaves the lock, and the next run refuses to start.
-/

namespace Aymos.EvidenceLock

open StopPoints StopPoints.Program Evidence

variable {H : Host} {t s : Tree} {place : Place} {label : String} {pid : ℕ} {work : Action}

/-! ### What leaves the lock alone -/

/-- What a run finds before it looks at evidence. -/
def entrance (t : Tree) : Base × Bool := (t.base, t.lock)

lemma validate_keeps : Keeps entrance (validateMarkedEvidence H place label) := by
  refine keeps_look.bind fun t => ?_
  rcases t.nodes place with _ | entries | _ | _
  · exact keeps_fail _
  · dsimp only
    split
    · exact keeps_done _
    · exact keeps_fail _
  · exact keeps_fail _
  · exact keeps_fail _

lemma setNode_entrance (place : Place) (node : Option Node) (t : Tree) :
    entrance (setNode t place node) = entrance t := rfl

lemma rename_entrance (source target : Place) (t : Tree) :
    entrance (rename source target t) = entrance t := rfl

lemma unlink_entrance (place : Place) (name : String) (t : Tree) :
    entrance (unlink place name t) = entrance t := by
  rw [unlink]
  split <;> rfl

lemma unlinkAll_keeps (names : List String) : Keeps entrance (unlinkAll place names) := by
  induction names with
  | nil => exact keeps_done _
  | cons name names ih => exact (keeps_step (unlink_entrance place name)).bind fun _ => ih

lemma rmtree_keeps : Keeps entrance (rmtree H place) := by
  refine keeps_look.bind fun t => ?_
  rcases t.nodes place with _ | entries | _ | _
  · exact keeps_fail _
  · exact (unlinkAll_keeps _).bind fun _ => keeps_step fun _ => rfl
  · exact keeps_fail _
  · exact keeps_fail _

lemma removeMarked_keeps : Keeps entrance (removeMarkedEvidence H place label) :=
  validate_keeps.bind fun _ => rmtree_keeps

lemma recover_keeps : Keeps entrance (recoverEvidenceBackup H) := by
  refine keeps_look.bind fun t => ?_
  split
  · exact keeps_done _
  · refine validate_keeps.bind fun _ => ?_
    split
    · exact validate_keeps.bind fun _ => removeMarked_keeps
    · exact keeps_step (rename_entrance _ _)

lemma rollback_keeps (hadPrevious : Bool) : Keeps entrance (rollback pid hadPrevious) := by
  have hlast : Keeps entrance (do
      let t ← look
      if hadPrevious && !pathExists (t.nodes .published) && pathExists (t.nodes .backup) then
        step (rename .backup .published) : Action) := by
    refine keeps_look.bind fun t => ?_
    split
    · exact keeps_step (rename_entrance _ _)
    · exact keeps_done _
  refine keeps_look.bind fun t => ?_
  dsimp only
  split
  · exact (keeps_step (rename_entrance _ _)).bind fun _ => hlast
  · exact hlast

lemma replace_keeps : Keeps entrance (replaceEvidence H pid) := by
  refine validate_keeps.bind fun _ => recover_keeps.bind fun _ => keeps_look.bind fun t => ?_
  split
  · exact keeps_fail _
  have hinstall : ∀ hadPrevious, Keeps entrance (do
      onError (do
        step (rename (.stage pid) .published)
        validateMarkedEvidence H .published "published evidence") (rollback pid hadPrevious)
      if hadPrevious then removeMarkedEvidence H .backup "evidence backup") := by
    intro hadPrevious
    have hrenamed : Keeps entrance (do
        step (rename (.stage pid) .published)
        validateMarkedEvidence H .published "published evidence" : Action) :=
      (keeps_step (rename_entrance _ _)).bind fun _ => validate_keeps
    refine (hrenamed.onError (rollback_keeps _)).bind fun _ => ?_
    split
    · exact removeMarked_keeps
    · exact keeps_done _
  generalize pathExists (t.nodes .published) = hadPrevious
  cases hadPrevious with
  | false => exact hinstall false
  | true =>
    exact validate_keeps.bind fun _ => (keeps_step (rename_entrance _ _)).bind fun _ =>
      hinstall true

lemma makeStage_keeps : Keeps entrance (makeStage H pid) := by
  refine keeps_look.bind fun t => ?_
  split
  · exact keeps_fail _
  · exact (keeps_step (setNode_entrance _ _)).bind fun _ => keeps_step (setNode_entrance _ _)

/-- **A run leaves its lock alone** between the making and the removal. -/
lemma evidenceRun_keeps (hwork : Keeps entrance work) :
    Keeps entrance (evidenceRun H work pid) := by
  refine (recover_keeps.bind fun _ => makeStage_keeps.bind fun _ => hwork.bind fun _ =>
    replace_keeps).onError (keeps_look.bind fun t => ?_)
  split
  · exact removeMarked_keeps
  · exact keeps_done _

/-! ### Runs -/

/-- The state after the lock directory has been made. -/
def locked (t : Tree) : Tree := { t with base := .directory, lock := true }

/-- A run can start: the directory of the evidence is there or can be made. -/
def Startable (t : Tree) : Prop := t.base = .absent ∨ t.base = .directory

/-- **The run passes its lock** and recovers. -/
def PassesLock (H : Host) (work : Action) (pid : ℕ) (t : Tree) : Prop :=
  ∃ before after, (runTest H work pid t).visited =
    before ++ (recoverEvidenceBackup H).stops (locked t) ++ after

/-- A run that finds a lock raises before its first step. -/
lemma runTest_locked (hbase : t.base = .directory) (hlock : t.lock = true) :
    runTest H work pid t = ⟨[], .error "another DSP evidence run is active"⟩ := by
  have hmake : makeBase H t = ⟨[], .ok ()⟩ := by
    rw [makeBase, look_bind, hbase]
    rfl
  rw [runTest, bind_of_eq hmake, look_bind, hlock]
  rfl

def unlocked (t : Tree) : Tree := { t with lock := false }

/-- A run that finds no lock makes one, runs and removes it. -/
lemma runTest_unlocked (hbase : Startable t) (hlock : t.lock = false) :
    ∃ before : List Tree, (∀ s ∈ before, Startable s ∧ s.lock = false) ∧
      (runTest H work pid t).visited = before ++ (evidenceRun H work pid).stops (locked t) ++
        [unlocked ((evidenceRun H work pid).final (locked t))] := by
  have hrun : ∀ t' : Tree, t'.lock = false → { t' with lock := true } = locked t →
      ((do
        let t ← look
        if t.lock then fail "another DSP evidence run is active"
        else
          step fun t => { t with lock := true }
          finallyDo (evidenceRun H work pid) (step fun t => { t with lock := false }) : Action)
        t').visited = (evidenceRun H work pid).stops (locked t) ++
          [unlocked ((evidenceRun H work pid).final (locked t))] := by
    intro t' hlock' hlocked
    rw [look_bind, hlock']
    simp only [Bool.false_eq_true, if_false]
    rw [step_bind, hlocked]
    exact finallyDo_step _ _ _
  rcases hbase with hbase | hbase
  · refine ⟨[{ t with base := .directory }], fun s hs => ?_, ?_⟩
    · rw [List.mem_singleton.mp hs]
      exact ⟨Or.inr rfl, hlock⟩
    · have hmake : makeBase H t = ⟨[{ t with base := .directory }], .ok ()⟩ := by
        rw [makeBase, look_bind, hbase]
        rfl
      rw [runTest, bind_ok (by rw [hmake]), final, hmake]
      rw [List.append_assoc, ← hrun { t with base := .directory } hlock rfl]
      rfl
  · refine ⟨[], fun s hs => by simp at hs, ?_⟩
    have hmake : makeBase H t = ⟨[], .ok ()⟩ := by
      rw [makeBase, look_bind, hbase]
      rfl
    have hlocked : { t with lock := true } = locked t := by rw [locked, ← hbase]
    rw [runTest, bind_of_eq hmake, List.nil_append, ← hrun t hlock hlocked]

/-- The recovery comes first in a run. -/
lemma evidenceRun_recovers (t : Tree) :
    (recoverEvidenceBackup H t).visited <+: (evidenceRun H work pid t).visited :=
  (bind_begins _ _ t).trans (onError_begins _ _ t)

/-- **A run without a lock recovers.** -/
lemma passes_unlocked (hbase : Startable t) (hlock : t.lock = false) :
    PassesLock H work pid t := by
  obtain ⟨before, -, hvisited⟩ := @runTest_unlocked H t pid work hbase hlock
  obtain ⟨after, hafter⟩ := @evidenceRun_recovers H pid work (locked t)
  refine ⟨before, after ++ [unlocked ((evidenceRun H work pid).final (locked t))], ?_⟩
  rw [hvisited, stops, ← hafter]
  simp [stops]

/-- **A run that finds a lock does not recover.** -/
lemma not_passes_locked (hbase : t.base = .directory) (hlock : t.lock = true) :
    ¬PassesLock H work pid t := by
  rintro ⟨before, after, hvisited⟩
  rw [runTest_locked hbase hlock] at hvisited
  simp [stops] at hvisited

/-- **A stopped run blocks the next** at every stop between the making and the removal of its
lock, and at no other. -/
theorem stopped_run_blocks (H : Host) (work : Action) (pid : ℕ) (t : Tree)
    (hwork : Keeps entrance work) (hbase : Startable t) (hlock : t.lock = false) :
    ∃ before after : List Tree,
      (runTest H work pid).stops t =
        before ++ (evidenceRun H work pid).stops (locked t) ++ after ∧
      (∀ s ∈ (evidenceRun H work pid).stops (locked t), ∀ work' pid',
        ¬PassesLock H work' pid' s) ∧
      ∀ s ∈ before ++ after, ∀ work' pid', PassesLock H work' pid' s := by
  obtain ⟨before, hbefore, hvisited⟩ := @runTest_unlocked H t pid work hbase hlock
  have hkeeps : ∀ s ∈ (evidenceRun H work pid).stops (locked t),
      s.base = .directory ∧ s.lock = true := by
    intro s hs
    have hs' := @evidenceRun_keeps H pid work hwork (locked t) s hs
    exact ⟨congrArg Prod.fst hs', congrArg Prod.snd hs'⟩
  refine ⟨t :: before, [unlocked ((evidenceRun H work pid).final (locked t))], ?_, ?_, ?_⟩
  · rw [stops, hvisited, List.cons_append, List.cons_append]
  · intro s hs work' pid'
    exact not_passes_locked (hkeeps s hs).1 (hkeeps s hs).2
  · intro s hs work' pid'
    have hstart : Startable s ∧ s.lock = false := by
      rcases List.mem_append.mp hs with hs | hs
      · rcases List.mem_cons.mp hs with rfl | hs
        · exact ⟨hbase, hlock⟩
        · exact hbefore s hs
      · rw [List.mem_singleton.mp hs]
        exact ⟨Or.inr (hkeeps _ (final_mem_stops _ _)).1, rfl⟩
    exact passes_unlocked hstart.1 hstart.2

/-- A repository without evidence. -/
def fresh : Tree where
  base := .absent
  lock := false
  nodes _ := none

def quietHost : Host where
  root := "/aymos"
  order entries := entries.map Prod.fst
  order_perm := listing_perm

theorem stopped_run_blocks_fresh : ∃ before after : List Tree,
    (runTest quietHost (done ()) 7).stops fresh =
      before ++ (evidenceRun quietHost (done ()) 7).stops (locked fresh) ++ after ∧
    (∀ s ∈ (evidenceRun quietHost (done ()) 7).stops (locked fresh), ∀ work' pid',
      ¬PassesLock quietHost work' pid' s) ∧
    ∀ s ∈ before ++ after, ∀ work' pid', PassesLock quietHost work' pid' s :=
  stopped_run_blocks quietHost (done ()) 7 fresh (keeps_done ()) (Or.inl rfl) rfl

/-- A stop right after the making of the lock. -/
theorem lock_left_behind :
    locked fresh ∈ (runTest quietHost (done ()) 7).stops fresh ∧
      runTest quietHost (done ()) 8 (locked fresh) =
        ⟨[], .error "another DSP evidence run is active"⟩ ∧
      ¬PassesLock quietHost (done ()) 8 (locked fresh) := by
  refine ⟨List.mem_of_getElem? (i := 2) rfl, rfl, not_passes_locked rfl rfl⟩

end Aymos.EvidenceLock

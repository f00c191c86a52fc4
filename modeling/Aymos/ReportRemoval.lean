import Aymos.FaultPlan
import Mathlib.Logic.Function.Basic

/-!
The removal of a report by `tools/aymos_lab/performance_report.py`.

The report is moved to a private name, checked, and removed entry by entry. Any operation may be
refused; the handler then moves what is left back. Closing a descriptor does not fail here, and
nobody else touches the directories meanwhile.
-/

namespace Aymos.ReportRemoval

open FaultPlan

/-- `PerformanceReportError` and `OSError`. -/
inductive Failure
  | report (text : String)
  | os (text : String)
  deriving DecidableEq, Repr

/-- What an entry other than a directory is. -/
inductive Leaf
  | regular (content : String)
  | symlink (target : String)
  deriving DecidableEq, Repr

/-- Device and inode. -/
structure Identity where
  device : ℕ
  inode : ℕ
  deriving DecidableEq, Repr

/-- The entries of a directory, in the order in which it lists them. -/
inductive Entries
  | nil
  | leaf (name : String) (node : Leaf) (rest : Entries)
  | directory (name : String) (identity : Identity) (mount : ℕ) (children rest : Entries)
  deriving DecidableEq, Repr

/-- What a name in the directory of runs stands for. -/
inductive Node
  | leaf (node : Leaf)
  | directory (identity : Identity) (mount : ℕ) (entries : Entries)
  deriving DecidableEq, Repr

abbrev Runs := String → Option Node

def reportMarker : String := ".aymos-signal-report"
def reportMarkerComplete : String := "schema=1\nstate=complete\n"

/-! ### Names -/

def isDigit (c : Char) : Bool := '0' ≤ c && c ≤ '9'
def isHex (c : Char) : Bool := isDigit c || ('a' ≤ c && c ≤ 'f')

/-- `RUN_PATTERN.fullmatch`. -/
def runPattern (name : String) : Bool :=
  let chars := name.toList
  (chars.take 8).all isDigit && (chars.drop 8).take 1 == ['T'] &&
    ((chars.drop 9).take 12).all isDigit && (chars.drop 21).take 2 == ['Z', '-'] &&
    ((chars.drop 23).take 8).all isHex && chars.drop 31 == "-signal".toList

/-- The private name of a report that is removed, from the process and a random token. -/
def quarantineName (pid : ℕ) (token : String) : String :=
  ".signal-report-prune-" ++ toString pid ++ "-" ++ token

/-! ### Operations -/

/-- A system call. -/
def sysCall : Step Failure := ⟨.os, true⟩

/-- A condition that is checked. -/
def check (holds : Bool) (text : String) : Step Failure := ⟨fun _ => .report text, holds⟩

/-- `_mount_id`. -/
def mountId : Step Failure :=
  ⟨fun _ => .report "cannot read Linux mount identity for report retention", true⟩

/-! ### Reading the marker -/

/-- What a directory holds under a name. -/
def Entries.find (name : String) : Entries → Option (Option Leaf)
  | .nil => none
  | .leaf other node rest => if other = name then some (some node) else rest.find name
  | .directory other _ _ _ rest => if other = name then some none else rest.find name

/-- The operations of `_read_regular_at` and the data it returns when they succeed. -/
def readRegularAt (entries : Entries) (name : String) (limit : ℕ) (label : String) :
    List (Step Failure) × String :=
  let found := entries.find name
  let content := match found with
    | some (some (.regular content)) => content
    | _ => ""
  let opens := match found with
    | none | some (some (.symlink _)) => false
    | _ => true
  let regular := match found with
    | some (some (.regular _)) => true
    | _ => false
  ([⟨fun error => .report ("cannot open " ++ label ++ ": " ++ error), opens⟩,
    sysCall, -- `fstat`
    check regular (label ++ " is not a regular file"),
    check (content.utf8ByteSize ≤ limit)
      (label ++ " is " ++ toString content.utf8ByteSize ++ " bytes; limit is " ++ toString limit),
    sysCall, sysCall, -- `read` of the content and of its end
    sysCall, -- `fstat`
    check true (label ++ " changed while it was read")], content)

/-! ### The tree -/

/-- The operations that open a child and check where it is. -/
def openChild (rootDevice rootMount : ℕ) (name moment : String) (identity : Identity) (mount : ℕ) :
    List (Step Failure) :=
  [sysCall, sysCall, sysCall, -- `stat`, `open`, `fstat`
    check true ("report child changed before " ++ moment ++ ": " ++ name),
    check (identity.device == rootDevice) ("report child crosses a device boundary: " ++ name),
    mountId,
    check (mount == rootMount) ("report child crosses a mount boundary: " ++ name)]

/-- The operations of the loop of `_validate_tree_boundaries`. -/
def boundaryChecks (rootDevice rootMount : ℕ) : Entries → List (Step Failure)
  | .nil => []
  | .leaf _ _ rest => sysCall :: boundaryChecks rootDevice rootMount rest
  | .directory name identity mount children rest =>
    openChild rootDevice rootMount name "boundary check" identity mount ++
      (sysCall :: boundaryChecks rootDevice rootMount children) ++
      boundaryChecks rootDevice rootMount rest

/-- `_validate_tree_boundaries`. The first operation lists the directory. -/
def validateTreeBoundaries (rootDevice rootMount : ℕ) (entries : Entries) : List (Step Failure) :=
  sysCall :: boundaryChecks rootDevice rootMount entries

/-- What is left of a directory, and the failure that ended its removal. -/
structure Left where
  entries : Entries
  failure : Option Failure
  next : ℕ

/-- The loop of `_remove_tree_contents`. -/
def removeEntries (plan : Plan) (rootDevice rootMount : ℕ) : Entries → ℕ → Left
  | .nil, n => ⟨.nil, none, n⟩
  | .leaf name node rest, n =>
    match perform plan [sysCall, sysCall] n with -- `stat`, `unlink`
    | (some failure, n) => ⟨.leaf name node rest, some failure, n⟩
    | (none, n) => removeEntries plan rootDevice rootMount rest n
  | .directory name identity mount children rest, n =>
    match perform plan (openChild rootDevice rootMount name "removal" identity mount ++
        [sysCall]) n with -- and `listdir`
    | (some failure, n) => ⟨.directory name identity mount children rest, some failure, n⟩
    | (none, n) =>
      let inner := removeEntries plan rootDevice rootMount children n
      match inner.failure with
      | some failure =>
        ⟨.directory name identity mount inner.entries rest, some failure, inner.next⟩
      | none =>
        match perform plan [sysCall, check true ("report child changed during removal: " ++ name),
            sysCall] inner.next with -- `stat`, `rmdir`
        | (some failure, n) =>
          ⟨.directory name identity mount inner.entries rest, some failure, n⟩
        | (none, n) => removeEntries plan rootDevice rootMount rest n

/-- `_remove_tree_contents`. -/
def removeTreeContents (plan : Plan) (rootDevice rootMount : ℕ) (entries : Entries) (n : ℕ) :
    Left :=
  match perform plan [sysCall] n with
  | (some failure, n) => ⟨entries, some failure, n⟩
  | (none, n) => removeEntries plan rootDevice rootMount entries n

/-! ### The report -/

/-- `os.rename` of a directory, and whether what is found at the target forbids it. -/
def rename (source target : String) (root : Runs) : Runs :=
  Function.update (Function.update root source none) target (root source)

def renameBlocked (root : Runs) (target : String) : Bool :=
  match root target with
  | none | some (.directory _ _ .nil) => false
  | some _ => true

/-- `_restore_quarantine`. -/
def restoreQuarantine (plan : Plan) (root : Runs) (quarantine original : String) (n : ℕ) :
    Runs × Option Failure :=
  match perform plan [sysCall] n with -- `stat`
  | (some failure, _) => (root, some failure)
  | (none, n) =>
    if (root original).isSome then (root, none)
    else
      match perform plan [sysCall] n with -- `stat`
      | (some failure, _) => (root, some failure)
      | (none, n) =>
        if (root quarantine).isNone then (root, none)
        else
          match perform plan [sysCall] n with
          | (some failure, _) => (root, some failure)
          | (none, _) => (rename quarantine original root, none)

/-- The `try` of `_quarantine_and_remove`: what is left of the directory, if it is there still. -/
def removeQuarantined (plan : Plan) (name quarantine : String) (identity : Identity)
    (allowedMarkers : List String) (node : Node) (n : ℕ) : Option Node × Option Failure × ℕ :=
  match node with
  | .leaf node =>
    -- `open` with `O_DIRECTORY` refuses it
    let (failure, n) := perform plan [⟨Failure.os, false⟩] n
    (some (.leaf node), failure, n)
  | .directory quarantineIdentity mount entries =>
    let (steps, marker) := readRegularAt entries reportMarker 64 ("report marker " ++ quarantine)
    let (failure, n) := perform plan ([sysCall, sysCall] ++ steps ++ -- `open`, `fstat`
      [check (allowedMarkers.contains marker && quarantineIdentity == identity)
        ("report directory changed before removal: " ++ name), mountId] ++
      validateTreeBoundaries quarantineIdentity.device mount entries) n
    match failure with
    | some failure => (some (.directory quarantineIdentity mount entries), some failure, n)
    | none =>
      let left := removeTreeContents plan quarantineIdentity.device mount entries n
      match left.failure with
      | some failure =>
        (some (.directory quarantineIdentity mount left.entries), some failure, left.next)
      | none =>
        match perform plan [sysCall, check true ("report directory changed during removal: " ++ name),
            sysCall] left.next with -- `stat`, `rmdir`
        | (some failure, n) =>
          (some (.directory quarantineIdentity mount left.entries), some failure, n)
        | (none, n) => (none, none, n)

/-- What the handler raises for a failure. -/
def wrapFailure (name : String) : Failure → Failure
  | .report text => .report text
  | .os text => .report ("report directory changed before removal: " ++ name ++ ": " ++ text)

/-- `_quarantine_and_remove`: the runs after it, and what it raises. -/
def quarantineAndRemove (plan : Plan) (root : Runs) (name quarantine : String)
    (identity : Identity) (allowedMarkers : List String) : Runs × Option Failure :=
  match root name, perform plan [⟨Failure.os, !renameBlocked root quarantine⟩] 0 with
  | none, _ => (root, some (.os "No such file or directory"))
  | some _, (some failure, _) => (root, some failure)
  | some node, (none, n) =>
    let root := rename name quarantine root
    match removeQuarantined plan name quarantine identity allowedMarkers node n with
    | (left, none, _) => (Function.update root quarantine left, none)
    | (left, some failure, n) =>
      match restoreQuarantine plan (Function.update root quarantine left) quarantine name n with
      | (root, none) => (root, some (wrapFailure name failure))
      | (root, some failure) => (root, some failure)

/-- `_completed_report_candidates` lists the name. -/
def completedReportCandidate (root : Runs) (name : String) : Bool :=
  runPattern name &&
    match root name with
    | some (.directory _ _ entries) =>
      (perform (fun _ => none) (readRegularAt entries reportMarker 64 ("report marker " ++ name)).1
        0).1.isNone &&
        (readRegularAt entries reportMarker 64 ("report marker " ++ name)).2 == reportMarkerComplete
    | _ => false

/-! ### The operations of a removal -/

variable {plan : Plan} {n : ℕ} {dev mount : ℕ} {entries : Entries}

def Entries.size : Entries → ℕ
  | .nil => 0
  | .leaf _ _ rest => rest.size + 1
  | .directory _ _ _ children rest => children.size + rest.size + 1

/-- The operations of the loop of a removal. -/
def removalLength : Entries → ℕ
  | .nil => 0
  | .leaf _ _ rest => 2 + removalLength rest
  | .directory _ _ _ children rest => 11 + removalLength children + removalLength rest

/-- The operations of the loop before the first `unlink` or `rmdir`. -/
def leadIn : Entries → ℕ
  | .nil => 0
  | .leaf _ _ _ => 1
  | .directory _ _ _ .nil _ => 10
  | .directory _ _ _ children _ => 8 + leadIn children

/-- Every directory in the tree is on the device and the mount of its root. -/
def within (dev mount : ℕ) : Entries → Bool
  | .nil => true
  | .leaf _ _ rest => within dev mount rest
  | .directory _ identity childMount children rest =>
    identity.device == dev && childMount == mount && within dev mount children &&
      within dev mount rest

lemma openChild_holds {name moment : String} {identity : Identity} {childMount : ℕ} :
    (∀ s ∈ openChild dev mount name moment identity childMount, s.holds = true) ↔
      identity.device = dev ∧ childMount = mount := by
  simp [openChild, sysCall, check, mountId]

lemma boundaryChecks_holds :
    (∀ s ∈ boundaryChecks dev mount entries, s.holds = true) ↔ within dev mount entries = true := by
  induction entries with
  | nil => simp [boundaryChecks, within]
  | leaf name node rest ih => simp [boundaryChecks, within, sysCall, ← ih]
  | directory name identity childMount children rest ihChildren ihRest =>
    simp only [boundaryChecks, within, List.forall_mem_append, openChild_holds, List.forall_mem_cons,
      ihChildren, ihRest, sysCall, true_and, Bool.and_eq_true, beq_iff_eq, and_assoc]

lemma leadIn_lt (h : entries ≠ .nil) : leadIn entries < removalLength entries := by
  induction entries with
  | nil => exact absurd rfl h
  | leaf name node rest => simp only [leadIn, removalLength]; omega
  | directory name identity childMount children rest ih =>
    cases children with
    | nil => simp only [leadIn, removalLength]; omega
    | leaf => have := ih (by simp); simp only [leadIn, removalLength] at this ⊢; omega
    | directory => have := ih (by simp); simp only [leadIn, removalLength] at this ⊢; omega

/-- The operations before the first removal in a directory that comes first. -/
lemma leadIn_directory (name : String) (identity : Identity) (childMount : ℕ)
    (children rest : Entries) :
    8 + leadIn children ≤ leadIn (.directory name identity childMount children rest) ∧
      (children = .nil → leadIn (.directory name identity childMount children rest) = 10) ∧
      (children ≠ .nil →
        leadIn (.directory name identity childMount children rest) = 8 + leadIn children) := by
  cases children <;> simp [leadIn]

/-- **How the loop of a removal ends**: it removes every entry, or an operation is refused. Up to the
first removal the entries are all there, and after it some are gone. -/
inductive Removal (plan : Plan) (entries : Entries) (n : ℕ) : Left → Prop
  | all (hclear : Clear plan n (n + removalLength entries)) :
    Removal plan entries n ⟨.nil, none, n + removalLength entries⟩
  | before (f : ℕ) (failure : Failure) (hfirst : FirstFrom plan n f)
    (hle : f ≤ n + leadIn entries) : Removal plan entries n ⟨entries, some failure, f + 1⟩
  | after (f : ℕ) (failure : Failure) (left : Entries) (hfirst : FirstFrom plan n f)
    (hlt : n + leadIn entries < f) (hsize : left.size < entries.size) :
    Removal plan entries n ⟨left, some failure, f + 1⟩

/-- The loop goes on behind the first entry. -/
lemma Removal.later {rest : Entries} {m : ℕ} {left : Left} (h : Removal plan rest m left)
    (hclear : Clear plan n m) (hlt : n + leadIn entries < m) (hsize : rest.size < entries.size)
    (hlen : n + removalLength entries = m + removalLength rest) : Removal plan entries n left := by
  have hle : n ≤ m := by omega
  cases h with
  | all h =>
    rw [← hlen]
    exact .all (hlen ▸ hclear.append h)
  | before f e hfirst _ =>
    exact .after f e rest (hfirst.after hclear hle) (hlt.trans_le hfirst.le) hsize
  | after f e left hfirst _ hsmall =>
    exact .after f e left (hfirst.after hclear hle) (hlt.trans_le hfirst.le) (hsmall.trans hsize)

section Directory

variable {name : String} {identity : Identity} {childMount : ℕ} {children rest : Entries}

/-- The removal of a directory's children has ended with a failure. -/
lemma Removal.inner {inner : Left} {failure : Failure} (h : Removal plan children (n + 8) inner)
    (hfail : inner.failure = some failure) (hclear : Clear plan n (n + 8)) :
    Removal plan (.directory name identity childMount children rest) n
      ⟨.directory name identity childMount inner.entries rest, some failure, inner.next⟩ := by
  obtain ⟨hlead, -, hleadCons⟩ := leadIn_directory name identity childMount children rest
  cases h with
  | all h => cases hfail
  | before f e hfirst hle =>
    cases hfail
    exact .before f failure (hfirst.after hclear (Nat.le_add_right n 8)) (by omega)
  | after f e left hfirst hlt hsize =>
    cases hfail
    have hne : children ≠ .nil := by
      rintro rfl
      exact absurd hsize (Nat.not_lt_zero _)
    have hlead := hleadCons hne
    refine .after f failure _ (hfirst.after hclear (Nat.le_add_right n 8)) (by omega) ?_
    simp only [Entries.size]
    omega

/-- The directory is empty, and is not removed. -/
lemma Removal.closing {f : ℕ} {failure : Failure}
    (hclear : Clear plan n (n + 8 + removalLength children))
    (hfirst : FirstFrom plan (n + 8 + removalLength children) f)
    (hlt : f < n + 8 + removalLength children + 3) :
    Removal plan (.directory name identity childMount children rest) n
      ⟨.directory name identity childMount .nil rest, some failure, f + 1⟩ := by
  obtain ⟨-, hleadNil, hleadCons⟩ := leadIn_directory name identity childMount children rest
  have hle := hfirst.le
  have hfirst' := hfirst.after hclear (by omega)
  by_cases hne : children = .nil
  · subst hne
    have hlead := hleadNil rfl
    simp only [removalLength] at hlt
    exact .before f failure hfirst' (by omega)
  · have hlead := hleadCons hne
    have hchildren := leadIn_lt hne
    refine .after f failure _ hfirst' (by omega) ?_
    have hpos : 0 < children.size := by
      cases children with
      | nil => exact absurd rfl hne
      | leaf => exact Nat.succ_pos _
      | directory => exact Nat.succ_pos _
    simp only [Entries.size]
    omega

/-- The first removal in a directory comes before the directory is gone. -/
lemma leadIn_lt_closed : leadIn (.directory name identity childMount children rest) <
    8 + removalLength children + 3 := by
  obtain ⟨-, hleadNil, hleadCons⟩ := leadIn_directory name identity childMount children rest
  by_cases hne : children = .nil
  · have hlead := hleadNil hne
    omega
  · have hlead := hleadCons hne
    have hchildren := leadIn_lt hne
    omega

end Directory

lemma removeEntries_cases (plan : Plan) (hw : within dev mount entries = true) (n : ℕ) :
    Removal plan entries n (removeEntries plan dev mount entries n) := by
  induction entries generalizing n with
  | nil => exact .all clear_self
  | leaf name node rest ih =>
    have hholds : ∀ s ∈ [sysCall, sysCall], s.holds = true := by simp [sysCall]
    rcases perform_cases plan hholds n with ⟨hclear, hrun⟩ | ⟨f, e, hfirst, hlt, hrun⟩
    · rw [removeEntries, hrun]
      refine (ih hw (n + 2)).later hclear ?_ (Nat.lt_succ_self _) ?_
      · simp only [leadIn]
        omega
      · simp only [removalLength]
        omega
    · rw [removeEntries, hrun]
      refine .before f e hfirst ?_
      simp only [List.length_cons, List.length_nil] at hlt
      simp only [leadIn]
      omega
  | directory name identity childMount children rest ihChildren ihRest =>
    simp only [within, Bool.and_eq_true, beq_iff_eq] at hw
    obtain ⟨⟨⟨hdev, hmount⟩, hwChildren⟩, hwRest⟩ := hw
    have hopen : ∀ s ∈ openChild dev mount name "removal" identity childMount ++ [sysCall],
        s.holds = true := by
      rw [List.forall_mem_append, openChild_holds]
      exact ⟨⟨hdev, hmount⟩, by simp [sysCall]⟩
    have hclose : ∀ s ∈ [sysCall, check true ("report child changed during removal: " ++ name),
        sysCall], s.holds = true := by simp [sysCall, check]
    rw [removeEntries]
    rcases perform_cases plan hopen n with ⟨hclear, hrun⟩ | ⟨f, e, hfirst, hlt, hrun⟩
    · rw [hrun]
      have hinner := ihChildren hwChildren (n + 8)
      simp only [openChild, List.cons_append, List.nil_append, List.length_cons, List.length_nil,
        Nat.zero_add, Nat.reduceAdd] at hclear ⊢
      generalize removeEntries plan dev mount children (n + 8) = inner at hinner
      cases hfail : inner.failure with
      | some failure => exact hinner.inner hfail hclear
      | none =>
        -- the child is empty, and goes next
        cases hinner with
        | before => cases hfail
        | after => cases hfail
        | all hinner =>
          have hempty := hclear.append hinner
          dsimp only
          rcases perform_cases plan hclose (n + 8 + removalLength children) with
            ⟨hclosed, hrun⟩ | ⟨f, e, hfirst, hlt, hrun⟩
          · rw [hrun]
            refine (ihRest hwRest (n + 8 + removalLength children + 3)).later
              (hempty.append hclosed) ?_ ?_ ?_
            · have hlead : leadIn (.directory name identity childMount children rest) < _ :=
                leadIn_lt_closed
              omega
            · simp only [Entries.size]
              omega
            · simp only [removalLength]
              omega
          · rw [hrun]
            exact .closing hempty hfirst hlt
    · rw [hrun]
      refine .before f e hfirst ?_
      obtain ⟨hlead, -⟩ := leadIn_directory name identity childMount children rest
      simp only [openChild, List.cons_append, List.nil_append, List.length_cons,
        List.length_nil] at hlt
      omega

/-! ### The attempt -/

variable {identity : Identity}

/-- The number of the first `unlink` or `rmdir` in the report, from the rename on. -/
def firstRemoval (identity : Identity) (mount : ℕ) (entries : Entries) : ℕ :=
  15 + (boundaryChecks identity.device mount entries).length + leadIn entries

/-- The marker of the report is that of a complete one. -/
def Complete (entries : Entries) : Prop :=
  (∀ label, ∀ s ∈ (readRegularAt entries reportMarker 64 label).1, s.holds = true) ∧
    ∀ label, (readRegularAt entries reportMarker 64 label).2 = reportMarkerComplete

lemma complete_of_candidate {root : Runs} {name : String}
    (h : completedReportCandidate root name = true)
    (hnode : root name = some (.directory identity mount entries)) : Complete entries := by
  simp only [completedReportCandidate, hnode, Bool.and_eq_true, beq_iff_eq,
    Option.isNone_iff_eq_none] at h
  obtain ⟨-, hnone, hdata⟩ := h
  have hholds := perform_none hnone
  refine ⟨fun label => ?_, fun label => hdata⟩
  simp only [readRegularAt, sysCall, check, List.forall_mem_cons, true_and] at hholds ⊢
  exact hholds

lemma Complete.ne_nil (h : Complete entries) : entries ≠ .nil := by
  rintro rfl
  exact absurd (h.1 "" _ (List.mem_cons_self ..)) (by decide)

/-- **How the removal of a complete report ends.** -/
inductive Attempt (plan : Plan) (identity : Identity) (mount : ℕ) (entries : Entries) :
    Option Node × Option Failure × ℕ → Prop
  | removed (n : ℕ) : Attempt plan identity mount entries (none, none, n)
  | unfit (failure : Failure) (n : ℕ) (hw : within identity.device mount entries = false) :
    Attempt plan identity mount entries (some (.directory identity mount entries), some failure, n)
  | before (f : ℕ) (failure : Failure) (hfirst : FirstFrom plan 1 f)
    (hle : f ≤ firstRemoval identity mount entries) :
    Attempt plan identity mount entries
      (some (.directory identity mount entries), some failure, f + 1)
  | after (f : ℕ) (failure : Failure) (left : Entries)
    (hw : within identity.device mount entries = true) (hfirst : FirstFrom plan 1 f)
    (hlt : firstRemoval identity mount entries < f) (hne : left ≠ entries) :
    Attempt plan identity mount entries
      (some (.directory identity mount left), some failure, f + 1)

lemma removeQuarantined_cases (plan : Plan) (identity : Identity) (mount : ℕ)
    (hc : Complete entries) (name quarantine : String) :
    Attempt plan identity mount entries (removeQuarantined plan name quarantine identity
      [reportMarkerComplete] (.directory identity mount entries) 1) := by
  obtain ⟨L, hL⟩ : ∃ L, L = (boundaryChecks identity.device mount entries).length := ⟨_, rfl⟩
  obtain ⟨steps, hsteps⟩ : ∃ steps, steps = [sysCall, sysCall] ++
      (readRegularAt entries reportMarker 64 ("report marker " ++ quarantine)).1 ++
      [check ([reportMarkerComplete].contains
          (readRegularAt entries reportMarker 64 ("report marker " ++ quarantine)).2 &&
            identity == identity) ("report directory changed before removal: " ++ name), mountId] ++
      validateTreeBoundaries identity.device mount entries := ⟨_, rfl⟩
  have hlen : steps.length = 13 + L := by
    rw [hsteps, hL]
    simp only [readRegularAt, validateTreeBoundaries, List.length_append, List.length_cons,
      List.length_nil]
    omega
  have hholds : (∀ s ∈ steps, s.holds = true) ↔ within identity.device mount entries = true := by
    rw [hsteps]
    simp only [List.forall_mem_append, List.forall_mem_cons, validateTreeBoundaries, hc.2,
      boundaryChecks_holds]
    exact ⟨fun h => h.2.2, fun hw => ⟨⟨⟨⟨rfl, rfl, fun _ h => absurd h List.not_mem_nil⟩, hc.1 _⟩,
      by simp [check], rfl, fun _ h => absurd h List.not_mem_nil⟩, rfl, hw⟩⟩
  rw [removeQuarantined]
  simp only [← hsteps]
  cases hw : within identity.device mount entries with
  | false =>
    cases hrun : (perform plan steps 1).1 with
    | none => rw [hholds.mp (perform_none hrun)] at hw; cases hw
    | some failure => exact .unfit failure _ hw
  | true =>
    have hfirstRemoval : firstRemoval identity mount entries = 15 + L + leadIn entries := by
      rw [firstRemoval, hL]
    rcases perform_cases plan (hholds.mpr hw) 1 with
      ⟨hclear, hrun⟩ | ⟨f, e, hfirst, hlt, hrun⟩
    · simp only [hrun]
      rw [hlen] at hclear ⊢
      have hlist : ∀ s ∈ [sysCall], s.holds = true := by simp [sysCall]
      rw [removeTreeContents]
      rcases perform_cases plan hlist (1 + (13 + L)) with
        ⟨hlisted, hrun⟩ | ⟨f, e, hfirst, hlt, hrun⟩
      · rw [hrun]
        simp only [List.length_cons, List.length_nil, Nat.zero_add] at hlisted ⊢
        have hstart : Clear plan 1 (1 + (13 + L) + 1) := hclear.append hlisted
        have hloop := removeEntries_cases plan hw (1 + (13 + L) + 1)
        generalize removeEntries plan identity.device mount entries (1 + (13 + L) + 1) = left at hloop
        cases hloop with
        | all hall =>
          have hclose : ∀ s ∈ [sysCall, check true ("report directory changed during removal: " ++
              name), sysCall], s.holds = true := by simp [sysCall, check]
          have hlead := leadIn_lt hc.ne_nil
          obtain ⟨m, hm⟩ : ∃ m, m = 1 + (13 + L) + 1 + removalLength entries := ⟨_, rfl⟩
          rw [← hm] at hall
          simp only [← hm]
          rcases perform_cases plan hclose m with
            ⟨-, hrun⟩ | ⟨f, e, hfirst, hlt, hrun⟩
          · rw [hrun]
            exact .removed _
          · rw [hrun]
            have hle := hfirst.le
            exact .after f e .nil hw (hfirst.after (hstart.append hall) (by omega)) (by omega)
              hc.ne_nil.symm
        | before f e hfirst hle =>
          exact .before f e (hfirst.after hstart (by omega)) (by omega)
        | after f e left hfirst hlt hsize =>
          refine .after f e left hw (hfirst.after hstart (by omega)) (by omega) ?_
          rintro rfl
          exact absurd hsize (lt_irrefl _)
      · rw [hrun]
        simp only [List.length_cons, List.length_nil] at hlt
        exact .before f e (hfirst.after hclear (by omega)) (by omega)
    · simp only [hrun]
      exact .before f e hfirst (by omega)

/-! ### The restoration -/

lemma sysCall_cases (plan : Plan) (n : ℕ) :
    (plan n = none ∧ perform plan [sysCall] n = (none, n + 1)) ∨
      ((plan n).isSome = true ∧ ∃ e, perform plan [sysCall] n = (some e, n + 1)) := by
  rw [perform]
  cases plan n with
  | none => exact Or.inl ⟨rfl, rfl⟩
  | some message => exact Or.inr ⟨rfl, _, rfl⟩

/-- **The restoration** moves the directory back, or one of its own calls is refused. -/
lemma restoreQuarantine_cases (plan : Plan) {root : Runs} {quarantine original : String}
    (horiginal : root original = none) (hquarantine : (root quarantine).isSome = true) (n : ℕ) :
    (plan n = none ∧ plan (n + 1) = none ∧ plan (n + 2) = none ∧
        restoreQuarantine plan root quarantine original n = (rename quarantine original root, none)) ∨
      ((∃ i < 3, (plan (n + i)).isSome = true) ∧
        ∃ e, restoreQuarantine plan root quarantine original n = (root, some e)) := by
  have hsome : (root original).isSome = false := by rw [horiginal]; rfl
  have hnone : (root quarantine).isNone = false := by
    rw [Option.isNone_eq_false_iff]
    exact hquarantine
  rw [restoreQuarantine]
  rcases sysCall_cases plan n with ⟨h0, hrun⟩ | ⟨h0, e, hrun⟩
  · rw [hrun]
    simp only [hsome, Bool.false_eq_true, if_false]
    rcases sysCall_cases plan (n + 1) with ⟨h1, hrun⟩ | ⟨h1, e, hrun⟩
    · rw [hrun]
      simp only [hnone, Bool.false_eq_true, if_false]
      rcases sysCall_cases plan (n + 2) with ⟨h2, hrun⟩ | ⟨h2, e, hrun⟩
      · rw [hrun]
        exact Or.inl ⟨h0, h1, h2, rfl⟩
      · rw [hrun]
        exact Or.inr ⟨⟨2, by decide, h2⟩, e, rfl⟩
    · rw [hrun]
      exact Or.inr ⟨⟨1, by decide, h1⟩, e, rfl⟩
  · rw [hrun]
    exact Or.inr ⟨⟨0, by decide, h0⟩, e, rfl⟩

/-! ### A removal that fails -/

/-- A private name is not that of a run. -/
lemma quarantineName_private (pid : ℕ) (token : String) :
    runPattern (quarantineName pid token) = false := by
  have hdot : ".signal-report-prune-".toList.head? = some '.' := by decide
  have hfirst : (quarantineName pid token).toList.head? = some '.' := by
    unfold quarantineName
    simp only [String.toList_append, List.head?_append, hdot, Option.some_or]
  obtain ⟨chars, hchars⟩ := List.head?_eq_some_iff.mp hfirst
  have hdigit : isDigit '.' = false := by decide
  simp only [runPattern, hchars, List.take_succ_cons, List.all_cons, hdigit, Bool.false_and]

/-- **What a removal that fails should leave**: under the name of the report the whole report, or
nothing, and then the rest of it under the private name; and no name counts as a complete report
unless it stands for what it stood for. -/
structure Sound (root root' : Runs) (name quarantine : String) (identity : Identity) (mount : ℕ) :
    Prop where
  original : root' name = root name ∨
    (root' name = none ∧ ∃ rest, root' quarantine = some (.directory identity mount rest))
  candidates : ∀ n, completedReportCandidate root' n = true → root' n = root n

/-- The first operation that is refused comes up to the first removal, or the restoration is refused
as well. -/
def Recoverable (plan : Plan) (identity : Identity) (mount : ℕ) (entries : Entries) : Prop :=
  ∃ f, FirstFrom plan 0 f ∧ (f ≤ firstRemoval identity mount entries ∨
    ∃ i, 1 ≤ i ∧ i ≤ 3 ∧ (plan (f + i)).isSome = true)

section Sound

variable {root root' : Runs} {name quarantine : String}

lemma Sound.of_original (hq : runPattern quarantine = false)
    (hother : ∀ n, n ≠ name → n ≠ quarantine → root' n = root n)
    (horiginal : root' name = root name ∨
      (root' name = none ∧ ∃ rest, root' quarantine = some (.directory identity mount rest))) :
    Sound root root' name quarantine identity mount := by
  refine ⟨horiginal, fun n hn => ?_⟩
  by_cases hname : n = name
  · subst hname
    refine horiginal.resolve_right fun hgone => ?_
    simp [completedReportCandidate, hgone.1] at hn
  · by_cases hquarantine : n = quarantine
    · subst hquarantine
      simp [completedReportCandidate, hq] at hn
    · exact hother n hname hquarantine

/-- The runs while the report is under its private name. -/
def quarantined (root : Runs) (name quarantine : String) (left : Node) : Runs :=
  Function.update (rename name quarantine root) quarantine (some left)

lemma quarantined_apply (root : Runs) (hne : name ≠ quarantine) (left : Node) :
    quarantined root name quarantine left name = none ∧
      quarantined root name quarantine left quarantine = some left ∧
      ∀ n, n ≠ name → n ≠ quarantine → quarantined root name quarantine left n = root n := by
  refine ⟨?_, Function.update_self .., fun n h1 h2 => ?_⟩
  · simp [quarantined, rename, hne]
  · simp [quarantined, rename, h1, h2]

/-- The runs after the report has been moved back. -/
lemma restored_apply (root : Runs) (hne : name ≠ quarantine) (left : Node) :
    rename quarantine name (quarantined root name quarantine left) name = some left ∧
      ∀ n, n ≠ name → n ≠ quarantine →
        rename quarantine name (quarantined root name quarantine left) n = root n := by
  obtain ⟨-, hq, hother⟩ := quarantined_apply root hne left
  refine ⟨?_, fun n h1 h2 => ?_⟩
  · simp [rename, hq]
  · simp [rename, h1, h2, hother n h1 h2]

/-- A removal whose rename is refused leaves everything as it was. -/
lemma quarantineAndRemove_kept {allowedMarkers : List String} {node : Node} {failure : Failure}
    (hnode : root name = some node)
    (hrename : (perform plan [⟨Failure.os, !renameBlocked root quarantine⟩] 0).1 = some failure) :
    (quarantineAndRemove plan root name quarantine identity allowedMarkers).1 = root := by
  rw [quarantineAndRemove, hnode]
  generalize perform plan [⟨Failure.os, !renameBlocked root quarantine⟩] 0 = renamed at hrename
  obtain ⟨failed, n⟩ := renamed
  cases hrename
  rfl

/-- A removal whose rename is done ends as its attempt does, and its restoration after it. -/
lemma quarantineAndRemove_renamed {allowedMarkers : List String} {node : Node}
    (hnode : root name = some node) (hblocked : renameBlocked root quarantine = false)
    (h0 : plan 0 = none) {left : Node} {failure : Failure} {n : ℕ}
    (hrun : removeQuarantined plan name quarantine identity allowedMarkers node 1 =
      (some left, some failure, n)) :
    (quarantineAndRemove plan root name quarantine identity allowedMarkers).1 =
      (restoreQuarantine plan (quarantined root name quarantine left) quarantine name n).1 := by
  have hrename : perform plan [⟨Failure.os, !renameBlocked root quarantine⟩] 0 = (none, 1) := by
    simp [perform, hblocked, h0]
  rw [quarantineAndRemove, hnode, hrename]
  simp only [hrun]
  rw [quarantined]
  generalize restoreQuarantine plan (Function.update (rename name quarantine root) quarantine
    (some left)) quarantine name n = restored
  obtain ⟨root', failed⟩ := restored
  cases failed <;> rfl

/-- The runs after a removal that has taken nothing are sound, restored or not. -/
lemma sound_restored (hne : name ≠ quarantine) (hq : runPattern quarantine = false)
    (hnode : root name = some (.directory identity mount entries)) (n : ℕ) :
    Sound root (restoreQuarantine plan (quarantined root name quarantine
      (.directory identity mount entries)) quarantine name n).1 name quarantine identity mount := by
  obtain ⟨hgone, hprivate, hother⟩ := quarantined_apply root hne
    (.directory identity mount entries)
  obtain ⟨hback, hback'⟩ := restored_apply root hne (.directory identity mount entries)
  rcases restoreQuarantine_cases plan hgone (by rw [hprivate]; rfl) n with
    ⟨-, -, -, hrun⟩ | ⟨-, e, hrun⟩
  · rw [hrun]
    exact Sound.of_original hq hback' (Or.inl (hback.trans hnode.symm))
  · rw [hrun]
    exact Sound.of_original hq hother (Or.inr ⟨hgone, entries, hprivate⟩)

/-- The runs after a removal that has taken something are sound where the restoration fails. -/
lemma sound_rest (hne : name ≠ quarantine) (hq : runPattern quarantine = false)
    (hnode : root name = some (.directory identity mount entries)) {left : Entries}
    (hleft : left ≠ entries) (n : ℕ) :
    Sound root (restoreQuarantine plan (quarantined root name quarantine
      (.directory identity mount left)) quarantine name n).1 name quarantine identity mount ↔
      ∃ i < 3, (plan (n + i)).isSome = true := by
  obtain ⟨hgone, hheld, hother⟩ := quarantined_apply root hne (.directory identity mount left)
  obtain ⟨hback, -⟩ := restored_apply root hne (.directory identity mount left)
  rcases restoreQuarantine_cases plan hgone (by rw [hheld]; rfl) n with
    ⟨h0, h1, h2, hrestore⟩ | ⟨hrefused, e, hrestore⟩
  · -- the rest is moved back, and the report is not what it was
    rw [hrestore]
    constructor
    · intro hsound
      rcases hsound.original with hsame | ⟨hnone, -⟩
      · have hentries := hback.symm.trans (hsame.trans hnode)
        injection hentries with hentries
        injection hentries with _ _ hentries
        exact absurd hentries hleft
      · cases hback.symm.trans hnone
    · rintro ⟨i, hi, hsome⟩
      have hnone : plan (n + i) = none := by
        obtain rfl | rfl | rfl : i = 0 ∨ i = 1 ∨ i = 2 := by omega
        · exact h0
        · exact h1
        · exact h2
      rw [hnone] at hsome
      cases hsome
  · rw [hrestore]
    exact ⟨fun _ => hrefused, fun _ => Sound.of_original hq hother (Or.inr ⟨hgone, left, hheld⟩)⟩

end Sound

/-- Behind the first removal only the restoration can keep the rest private. -/
lemma recoverable_iff {f : ℕ} (hfirst : FirstFrom plan 0 f)
    (hlt : firstRemoval identity mount entries < f) :
    Recoverable plan identity mount entries ↔ ∃ i < 3, (plan (f + 1 + i)).isSome = true := by
  constructor
  · rintro ⟨g, hg, hle | ⟨i, h1, h3, hsome⟩⟩
    · rw [hg.unique hfirst] at hle
      omega
    · rw [hg.unique hfirst] at hsome
      refine ⟨i - 1, by omega, ?_⟩
      rw [show f + 1 + (i - 1) = f + i by omega]
      exact hsome
  · rintro ⟨i, hi, hsome⟩
    refine ⟨f, hfirst, Or.inr ⟨i + 1, by omega, by omega, ?_⟩⟩
    rw [show f + (i + 1) = f + 1 + i by omega]
    exact hsome

/-- **A removal that fails leaves the report whole under its name, or keeps its rest private, exactly
when** nothing has been removed before the failure, or the restoration fails as well. -/
theorem failed_removal_sound (plan : Plan) (root : Runs) (name : String) (pid : ℕ) (token : String)
    (identity : Identity) (mount : ℕ) (entries : Entries)
    (hnode : root name = some (.directory identity mount entries))
    (hcomplete : completedReportCandidate root name = true) (failure : Failure)
    (hraised : (quarantineAndRemove plan root name (quarantineName pid token) identity
      [reportMarkerComplete]).2 = some failure) :
    Sound root (quarantineAndRemove plan root name (quarantineName pid token) identity
        [reportMarkerComplete]).1 name (quarantineName pid token) identity mount ↔
      renameBlocked root (quarantineName pid token) = true ∨
        within identity.device mount entries = false ∨ Recoverable plan identity mount entries := by
  obtain ⟨quarantine, hquarantine⟩ : ∃ quarantine, quarantine = quarantineName pid token := ⟨_, rfl⟩
  have hprivate : runPattern quarantine = false := hquarantine ▸ quarantineName_private pid token
  have hrun : runPattern name = true := by
    simp only [completedReportCandidate, Bool.and_eq_true] at hcomplete
    exact hcomplete.1
  have hne : name ≠ quarantine := by
    rintro rfl
    rw [hprivate] at hrun
    cases hrun
  have hmarker := complete_of_candidate hcomplete hnode
  rw [← hquarantine] at hraised ⊢
  have hsame : Sound root root name quarantine identity mount :=
    Sound.of_original hprivate (fun _ _ _ => rfl) (Or.inl rfl)
  have hrefused : ∀ failure, (perform plan [⟨Failure.os, !renameBlocked root quarantine⟩] 0).1 =
      some failure → Sound root (quarantineAndRemove plan root name quarantine identity
        [reportMarkerComplete]).1 name quarantine identity mount := fun failure h => by
    rw [quarantineAndRemove_kept hnode h]
    exact hsame
  cases hblocked : renameBlocked root quarantine with
  | true =>
    -- what stands under the private name refuses the rename
    refine ⟨fun _ => Or.inl rfl, fun _ => ?_⟩
    cases hrename : (perform plan [⟨Failure.os, !renameBlocked root quarantine⟩] 0).1 with
    | some e => exact hrefused e hrename
    | none =>
      have := perform_none hrename _ (List.mem_cons_self ..)
      simp [hblocked] at this
  | false =>
    cases h0 : plan 0 with
    | some message =>
      have hfirst : FirstFrom plan 0 0 := ⟨le_refl 0, by rw [h0]; rfl, clear_self⟩
      exact ⟨fun _ => Or.inr (Or.inr ⟨0, hfirst, Or.inl (Nat.zero_le _)⟩),
        fun _ => hrefused (.os message) (by simp [perform, h0])⟩
    | none =>
      have hzero : Clear plan 0 1 := fun i _ hi => by
        rw [show i = 0 by omega]
        exact h0
      have hcases := removeQuarantined_cases plan identity mount hmarker name quarantine
      generalize hattempt : removeQuarantined plan name quarantine identity [reportMarkerComplete]
        (.directory identity mount entries) 1 = attempt at hcases
      cases hcases with
      | removed n =>
        have hrename : perform plan [⟨Failure.os, !renameBlocked root quarantine⟩] 0 = (none, 1) := by
          simp [perform, hblocked, h0]
        rw [quarantineAndRemove, hnode, hrename] at hraised
        simp only [hattempt] at hraised
        cases hraised
      | unfit e n hw =>
        rw [quarantineAndRemove_renamed hnode hblocked h0 hattempt]
        exact ⟨fun _ => Or.inr (Or.inl hw), fun _ => sound_restored hne hprivate hnode n⟩
      | before f e hfirst hle =>
        rw [quarantineAndRemove_renamed hnode hblocked h0 hattempt]
        exact ⟨fun _ => Or.inr (Or.inr ⟨f, hfirst.after hzero (Nat.zero_le 1), Or.inl hle⟩),
          fun _ => sound_restored hne hprivate hnode (f + 1)⟩
      | after f e left hw hfirst hlt hleft =>
        rw [quarantineAndRemove_renamed hnode hblocked h0 hattempt]
        have hfrom : FirstFrom plan 0 f := hfirst.after hzero (Nat.zero_le 1)
        rw [sound_rest hne hprivate hnode hleft, hw, recoverable_iff hfrom hlt]
        exact ⟨fun h => Or.inr (Or.inr h), fun h => (h.resolve_left (by decide)).resolve_left (by decide)⟩

/-- A complete report whose marker is listed last. -/
def sampleRun : String := "20260101T000000000000Z-12345678-signal"
def sampleEntries : Entries :=
  .leaf "metadata.json" (.regular "text") (.leaf reportMarker (.regular reportMarkerComplete) .nil)
def sampleRuns : Runs :=
  Function.update (fun _ => none) sampleRun (some (.directory ⟨1, 2⟩ 3 sampleEntries))

/-- Refuses the operation of a number. -/
def refuse (f : ℕ) : Plan := fun i => if i = f then some "Permission denied" else none

theorem failed_removal_sound_first_unlink :
    Sound sampleRuns (quarantineAndRemove (refuse 18) sampleRuns sampleRun (quarantineName 7 "ab") ⟨1, 2⟩
      [reportMarkerComplete]).1 sampleRun (quarantineName 7 "ab") ⟨1, 2⟩ 3 :=
  (failed_removal_sound (refuse 18) sampleRuns sampleRun 7 "ab" ⟨1, 2⟩ 3 sampleEntries (by decide)
    (by decide) (wrapFailure sampleRun (.os "Permission denied")) (by decide)).mpr
    (Or.inr (Or.inr ⟨18, ⟨by decide, by decide, fun i _ hi => if_neg (by omega)⟩, Or.inl (by decide)⟩))

/-- The refusal of the last `unlink`, which is that of the marker, leaves a report that lacks an entry
under its name, and it counts as complete. -/
theorem failed_removal_counted :
    completedReportCandidate sampleRuns sampleRun = true ∧
      (quarantineAndRemove (refuse 20) sampleRuns sampleRun (quarantineName 7 "ab") ⟨1, 2⟩
        [reportMarkerComplete]).2.isSome = true ∧
      (quarantineAndRemove (refuse 20) sampleRuns sampleRun (quarantineName 7 "ab") ⟨1, 2⟩
        [reportMarkerComplete]).1 sampleRun =
        some (.directory ⟨1, 2⟩ 3 (.leaf reportMarker (.regular reportMarkerComplete) .nil)) ∧
      completedReportCandidate (quarantineAndRemove (refuse 20) sampleRuns sampleRun
        (quarantineName 7 "ab") ⟨1, 2⟩ [reportMarkerComplete]).1 sampleRun = true ∧
      ¬ Sound sampleRuns (quarantineAndRemove (refuse 20) sampleRuns sampleRun (quarantineName 7 "ab")
        ⟨1, 2⟩ [reportMarkerComplete]).1 sampleRun (quarantineName 7 "ab") ⟨1, 2⟩ 3 := by
  refine ⟨by decide, by decide, by decide, by decide, fun hsound => ?_⟩
  rcases hsound.original with hsame | ⟨hnone, -⟩
  · exact absurd hsame (by decide)
  · exact absurd hnone (by decide)

end Aymos.ReportRemoval

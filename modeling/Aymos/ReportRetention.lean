import Aymos.Newest
import Aymos.ReportRemoval
import Mathlib.Data.String.Basic

/-!
The retention of reports: `_prune_report_runs_at` of `tools/aymos_lab/performance_report.py`.

The complete reports are listed and sorted, and those after the newest are removed one by one. Any
operation may be refused, in the listing and in each of the removals. Whatever is refused, only a
report that has as many newer ones as are retained is touched.
-/

namespace Aymos.ReportRetention

open FaultPlan ReportRemoval Newest

def retainReportRuns : ℕ := 8

/-- `_owned_report_identity`. -/
def ownedReportIdentity (plan : Plan) (root : Runs) (name : String) (allowedMarkers : List String)
    (n : ℕ) : Except Failure Identity × ℕ :=
  let refused := fun error => Failure.report
    ("cannot open owned report directory " ++ name ++ ": " ++ error)
  match root name with
  | some (.directory identity _ entries) =>
    let (steps, marker) := readRegularAt entries reportMarker 64 ("report marker " ++ name)
    match perform plan ([⟨refused, true⟩, sysCall] ++ steps ++ -- `open`, `fstat`
        [check (allowedMarkers.contains marker) ("report marker is not owned: " ++ name)]) n with
    | (some failure, n) => (.error failure, n)
    | (none, n) => (.ok identity, n)
  | some (.leaf _) | none =>
    match perform plan [⟨refused, false⟩] n with
    | (some failure, n) => (.error failure, n)
    | (none, n) => (.error (refused ""), n)

/-- The loop of `_completed_report_candidates`. -/
def listCandidates (plan : Plan) (root : Runs) :
    List String → ℕ → Except Failure (List (String × Identity)) × ℕ
  | [], n => (.ok [], n)
  | name :: names, n =>
    if !runPattern name then listCandidates plan root names n
    else
      match ownedReportIdentity plan root name [reportMarkerComplete] n with
      | (.error (.report _), n) => listCandidates plan root names n
      | (.error (.os text), n) => (.error (.os text), n)
      | (.ok identity, n) =>
        match listCandidates plan root names n with
        | (.error failure, n) => (.error failure, n)
        | (.ok candidates, n) => (.ok ((name, identity) :: candidates), n)

/-- `candidates.sort(key=lambda item: item[0], reverse=True)`. -/
def sortCandidates (candidates : List (String × Identity)) : List (String × Identity) :=
  candidates.mergeSort fun a b => decide (b.1 ≤ a.1)

/-- The loop of `_prune_report_runs_at`. Every removal has a plan and a private name of its own. -/
def removeExpired (plans : ℕ → Plan) (quarantine : ℕ → String) :
    List (String × Identity) → ℕ → Runs → Runs × Option Failure
  | [], _, root => (root, none)
  | (name, identity) :: expired, i, root =>
    match quarantineAndRemove (plans i) root name (quarantine i) identity
        [reportMarkerComplete] with
    | (root, some failure) => (root, some failure)
    | (root, none) => removeExpired plans quarantine expired (i + 1) root

/-- `_prune_report_runs_at`, with the names in the order in which the directory lists them. -/
def pruneReportRunsAt (plan planAfter : Plan) (plans : ℕ → Plan) (quarantine : ℕ → String)
    (root : Runs) (listing : List String) (currentName : String) : Runs × Option Failure :=
  if !runPattern currentName then (root, some (.report "current report name is invalid"))
  else
    match ownedReportIdentity plan root currentName [reportMarkerComplete] 0 with
    | (.error failure, _) => (root, some failure)
    | (.ok currentIdentity, n) =>
      match perform plan [sysCall] n with -- `listdir`
      | (some failure, _) => (root, some failure)
      | (none, n) =>
        match listCandidates plan root listing n with
        | (.error failure, _) => (root, some failure)
        | (.ok candidates, _) =>
          let others := (sortCandidates candidates).filter fun item => item.1 ≠ currentName
          match removeExpired plans quarantine (others.drop (retainReportRuns - 1)) 0 root with
          | (root, some failure) => (root, some failure)
          | (root, none) =>
            match ownedReportIdentity planAfter root currentName [reportMarkerComplete] 0 with
            | (.error failure, _) => (root, some failure)
            | (.ok identity, _) =>
              if identity ≠ currentIdentity then
                (root, some (.report "current report changed during retention"))
              else (root, none)

/-- The complete reports other than the current one. -/
def others (root : Runs) (listing : List String) (currentName : String) : List String :=
  listing.filter fun n => completedReportCandidate root n && decide (n ≠ currentName)

/-- A complete report other than the current one that has as many newer ones as are retained. -/
structure Expired (root : Runs) (listing : List String) (currentName name : String) : Prop where
  complete : completedReportCandidate root name = true
  other : name ≠ currentName
  old : retainReportRuns - 1 ≤ rank (others root listing currentName) name

variable {plan planAfter : Plan} {plans : ℕ → Plan} {quarantine : ℕ → String} {root root' : Runs}
  {listing names : List String} {name currentName : String} {n : ℕ} {identity : Identity}

/-! ### Candidates -/

/-- A report whose identity has been read is complete. -/
lemma candidate_of_owned (hrun : runPattern name = true)
    (h : (ownedReportIdentity plan root name [reportMarkerComplete] n).1 = .ok identity) :
    completedReportCandidate root name = true := by
  rw [ownedReportIdentity] at h
  split at h
  · next found identity' mount entries hnode =>
    dsimp only at h
    split at h
    · cases h
    · next hperform =>
      have hholds := perform_none (congrArg Prod.fst hperform)
      simp only [List.forall_mem_append, List.forall_mem_cons] at hholds
      obtain ⟨⟨-, hsteps⟩, hmarker, -⟩ := hholds
      rw [completedReportCandidate, hrun, hnode]
      simp only [Bool.true_and, Bool.and_eq_true, Option.isNone_iff_eq_none, beq_iff_eq]
      refine ⟨?_, by simpa [check] using hmarker⟩
      rcases perform_cases (fun _ => none) hsteps 0 with ⟨-, hrun⟩ | ⟨f, e, hfirst, -, -⟩
      · rw [hrun]
      · exact absurd hfirst.refused (by simp)
  · dsimp only at h
    split at h
    · cases h
    · cases h
  · dsimp only at h
    split at h
    · cases h
    · cases h

/-- What nothing refuses to read of a complete report. -/
lemma owned_of_candidate (hplan : ∀ i, plan i = none)
    (h : completedReportCandidate root name = true) (n : ℕ) :
    ∃ identity, (ownedReportIdentity plan root name [reportMarkerComplete] n).1 = .ok identity := by
  have hcomplete := h
  rw [completedReportCandidate, Bool.and_eq_true] at h
  obtain ⟨-, h⟩ := h
  split at h
  · next found identity mount entries hnode =>
    obtain ⟨hsteps, hmarker⟩ := complete_of_candidate hcomplete hnode
    refine ⟨identity, ?_⟩
    rw [ownedReportIdentity, hnode]
    dsimp only
    split
    · next hperform =>
      exfalso
      have hholds : ∀ step ∈ [⟨fun error => Failure.report
          ("cannot open owned report directory " ++ name ++ ": " ++ error), true⟩, sysCall] ++
          (readRegularAt entries reportMarker 64 ("report marker " ++ name)).1 ++
          [check ([reportMarkerComplete].contains
            (readRegularAt entries reportMarker 64 ("report marker " ++ name)).2)
            ("report marker is not owned: " ++ name)], step.holds = true := by
        simp only [List.forall_mem_append, List.forall_mem_cons, hmarker]
        exact ⟨⟨⟨trivial, rfl, fun _ h => absurd h List.not_mem_nil⟩, hsteps _⟩, by simp [check],
          fun _ h => absurd h List.not_mem_nil⟩
      rcases perform_cases plan hholds n with ⟨-, hrun⟩ | ⟨f, e, hfirst, -, -⟩
      · rw [hrun] at hperform
        cases hperform
      · have hrefused := hfirst.refused
        rw [hplan] at hrefused
        cases hrefused
    · rfl
  · cases h

/-- **What is listed** is complete, and each name at most once. -/
lemma listCandidates_sound {candidates : List (String × Identity)}
    (h : (listCandidates plan root names n).1 = .ok candidates) :
    (candidates.map Prod.fst).Sublist names ∧
      ∀ item ∈ candidates, completedReportCandidate root item.1 = true := by
  induction names generalizing n candidates with
  | nil =>
    obtain rfl := Except.ok.inj h
    exact ⟨.slnil, fun item hi => absurd hi List.not_mem_nil⟩
  | cons name names ih =>
    rw [listCandidates] at h
    split at h
    · obtain ⟨hsub, hall⟩ := ih h
      exact ⟨hsub.cons name, hall⟩
    next hrun =>
    rw [Bool.not_eq_true', Bool.not_eq_false] at hrun
    split at h
    · obtain ⟨hsub, hall⟩ := ih h
      exact ⟨hsub.cons name, hall⟩
    · cases h
    · next howned =>
      split at h
      · cases h
      · next hmore =>
        obtain rfl := Except.ok.inj h
        obtain ⟨hsub, hall⟩ := ih (congrArg Prod.fst hmore)
        refine ⟨hsub.cons_cons name, List.forall_mem_cons.mpr ⟨?_, hall⟩⟩
        exact candidate_of_owned hrun (congrArg Prod.fst howned)

/-- **Every complete report is listed** where nothing is refused. -/
lemma listCandidates_complete (hplan : ∀ i, plan i = none) {candidates : List (String × Identity)}
    (h : (listCandidates plan root names n).1 = .ok candidates) :
    ∀ name ∈ names, completedReportCandidate root name = true →
      name ∈ candidates.map Prod.fst := by
  induction names generalizing n candidates with
  | nil => exact fun name hn => absurd hn List.not_mem_nil
  | cons first names ih =>
    rw [listCandidates] at h
    intro name hn hcomplete
    rcases List.mem_cons.mp hn with rfl | hn
    · have hrun : runPattern name = true := by
        rw [completedReportCandidate, Bool.and_eq_true] at hcomplete
        exact hcomplete.1
      obtain ⟨identity, howned⟩ := owned_of_candidate hplan hcomplete n
      rw [hrun, Bool.not_true, if_neg Bool.false_ne_true] at h
      split at h
      · next heq =>
        rw [heq] at howned
        cases howned
      · cases h
      · split at h
        · cases h
        · obtain rfl := Except.ok.inj h
          exact List.mem_cons_self
    · split at h
      · exact ih h name hn hcomplete
      split at h
      · exact ih h name hn hcomplete
      · cases h
      · split at h
        · cases h
        · next hmore =>
          obtain rfl := Except.ok.inj h
          exact List.mem_cons_of_mem _ (ih (congrArg Prod.fst hmore) name hn hcomplete)

/-- The sorted candidates, from the newest on. -/
lemma sortCandidates_descending {candidates : List (String × Identity)}
    (hnodup : (candidates.map Prod.fst).Nodup) :
    (sortCandidates candidates).Perm candidates ∧
      ((sortCandidates candidates).map Prod.fst).Pairwise (· > ·) := by
  have hperm : (sortCandidates candidates).Perm candidates := List.mergeSort_perm _ _
  refine ⟨hperm, ?_⟩
  have hsorted : (sortCandidates candidates).Pairwise fun a b => decide (b.1 ≤ a.1) = true :=
    List.pairwise_mergeSort (fun a b c hab hbc => by
      rw [decide_eq_true_eq] at hab hbc ⊢
      exact hbc.trans hab) (fun a b => by
      rw [Bool.or_eq_true, decide_eq_true_eq, decide_eq_true_eq]
      exact le_total _ _) _
  have hdistinct : ((sortCandidates candidates).map Prod.fst).Nodup :=
    (hperm.map Prod.fst).nodup_iff.mpr hnodup
  rw [List.pairwise_map]
  refine (hsorted.and (List.pairwise_map.mp hdistinct)).imp fun ⟨hle, hne⟩ => ?_
  rw [decide_eq_true_eq] at hle
  exact lt_of_le_of_ne hle hne.symm

/-! ### Removals -/

/-- A removal touches its report and its private name only. -/
lemma quarantineAndRemove_other {private_ other : String} {markers : List String}
    (hname : other ≠ name) (hprivate : other ≠ private_) :
    (quarantineAndRemove plan root name private_ identity markers).1 other = root other := by
  have hrename : ∀ root : Runs, rename name private_ root other = root other := fun root => by
    rw [rename, Function.update_of_ne hprivate, Function.update_of_ne hname]
  have hback : ∀ root : Runs, rename private_ name root other = root other := fun root => by
    rw [rename, Function.update_of_ne hname, Function.update_of_ne hprivate]
  have hrestore : ∀ (root : Runs) (n : ℕ),
      (restoreQuarantine plan root private_ name n).1 other = root other := by
    intro root n
    rw [restoreQuarantine]
    split
    · rfl
    split
    · rfl
    split
    · rfl
    split
    · rfl
    split
    · rfl
    · exact hback root
  rw [quarantineAndRemove]
  split
  · rfl
  · rfl
  · next node n hnode hperform =>
    have hsame : ∀ left, Function.update (rename name private_ root) private_ left other =
        root other := fun left => by
      rw [Function.update_of_ne hprivate, hrename]
    dsimp only
    split
    · exact hsame _
    · next left failure n hremoved =>
      have h := hrestore (Function.update (rename name private_ root) private_ left) n
      rw [hsame] at h
      split
      · next restored hrestored =>
        rw [hrestored] at h
        exact h
      · next restored failure' hrestored =>
        rw [hrestored] at h
        exact h

/-- A removal that ends without a failure has removed the directory. -/
lemma removeQuarantined_none {private_ : String} {markers : List String} {node : Node}
    (h : (removeQuarantined plan name private_ identity markers node n).2.1 = none) :
    (removeQuarantined plan name private_ identity markers node n).1 = none := by
  cases node with
  | leaf node =>
    have hrefused := @perform_none _ plan n [⟨Failure.os, false⟩] h _ List.mem_cons_self
    cases hrefused
  | directory found mount entries =>
    rw [removeQuarantined] at h ⊢
    dsimp only at h ⊢
    split at h
    · cases h
    split at h
    · cases h
    split at h
    · cases h
    · rfl

/-- **A removal without a failure** leaves nothing under the two names, and the rest as it was. -/
lemma quarantineAndRemove_none {private_ : String} {markers : List String}
    (h : (quarantineAndRemove plan root name private_ identity markers).2 = none) (other : String) :
    (quarantineAndRemove plan root name private_ identity markers).1 other =
      if other = name ∨ other = private_ then none else root other := by
  split
  · next hsame =>
    rw [quarantineAndRemove] at h ⊢
    split at h
    · cases h
    · cases h
    · next node n hnode hperform =>
      dsimp only at h ⊢
      split at h
      · next left m hremoved =>
        have hleft : left = none := by
          have hnone := removeQuarantined_none (congrArg (·.2.1) hremoved)
          rwa [hremoved] at hnone
        rw [hleft]
        dsimp only
        by_cases hprivate : other = private_
        · rw [hprivate, Function.update_self]
        · rw [Function.update_of_ne hprivate, rename, Function.update_of_ne hprivate,
            hsame.resolve_right hprivate, Function.update_self]
      · split at h
        · cases h
        · cases h
  · next hother =>
    rw [not_or] at hother
    exact quarantineAndRemove_other hother.1 hother.2

/-- **The removals** touch the expired reports and the private names only, and where none of them
fails they leave whole or nothing. -/
lemma removeExpired_cases {expired : List (String × Identity)} {i : ℕ} {failure : Option Failure}
    (h : removeExpired plans quarantine expired i root = (root', failure)) :
    (∀ n, root' n ≠ root n → (∃ i, n = quarantine i) ∨ n ∈ expired.map Prod.fst) ∧
      (failure = none → (∀ n, root' n = root n ∨ root' n = none) ∧
        ∀ n ∈ expired.map Prod.fst, root' n = none) := by
  induction expired generalizing i root with
  | nil =>
    obtain ⟨rfl, rfl⟩ := Prod.mk.inj h
    exact ⟨fun n hn => absurd rfl hn, fun _ => ⟨fun n => Or.inl rfl,
      fun n hn => absurd hn List.not_mem_nil⟩⟩
  | cons item expired ih =>
    obtain ⟨name, identity⟩ := item
    rw [removeExpired] at h
    obtain ⟨removed, hremoved⟩ : ∃ removed, removed = quarantineAndRemove (plans i) root name
      (quarantine i) identity [reportMarkerComplete] := ⟨_, rfl⟩
    have hother : ∀ n, n ≠ name → n ≠ quarantine i → removed.1 n = root n := fun n hn hq => by
      rw [hremoved]
      exact quarantineAndRemove_other hn hq
    have htouched : ∀ n, removed.1 n ≠ root n →
        (∃ i, n = quarantine i) ∨ n ∈ ((name, identity) :: expired).map Prod.fst := fun n hn => by
      by_cases hname : n = name
      · exact Or.inr (hname ▸ List.mem_cons_self)
      · by_cases hprivate : n = quarantine i
        · exact Or.inl ⟨i, hprivate⟩
        · exact absurd (hother n hname hprivate) hn
    rw [← hremoved] at h
    split at h
    · next found failed =>
      obtain ⟨rfl, rfl⟩ := Prod.mk.inj h
      exact ⟨htouched, nofun⟩
    · next found =>
      have hnone := fun n => quarantineAndRemove_none (congrArg Prod.snd hremoved).symm n
      rw [← hremoved] at hnone
      obtain ⟨hmore, hclean⟩ := ih h
      constructor
      · intro n hn
        by_cases hsame : found n = root n
        · exact (hmore n (hsame ▸ hn)).imp id (List.mem_cons_of_mem name)
        · exact htouched n hsame
      · intro hfailure
        obtain ⟨hkept, hgone⟩ := hclean hfailure
        constructor
        · intro n
          rcases hkept n with hsame | hn
          · have hif : found n = if n = name ∨ n = quarantine i then none else root n := hnone n
            rw [← hsame] at hif
            split at hif
            · exact Or.inr hif
            · exact Or.inl hif
          · exact Or.inr hn
        · intro n hn
          rcases List.mem_cons.mp hn with rfl | hn
          · rcases hkept _ with hsame | hgone
            · exact hsame.trans ((hnone _).trans (if_pos (Or.inl rfl)))
            · exact hgone
          · exact hgone n hn

/-! ### The retention -/

/-- **What retention does when it has listed the reports**: it removes those after the newest. -/
lemma pruneReportRunsAt_cases {failure : Option Failure}
    (h : pruneReportRunsAt plan planAfter plans quarantine root listing currentName =
      (root', failure)) :
    (root' = root ∧ failure ≠ none) ∨ ∃ n candidates removal,
      (listCandidates plan root listing n).1 = .ok candidates ∧
        removeExpired plans quarantine
          (((sortCandidates candidates).filter fun item => item.1 ≠ currentName).drop
            (retainReportRuns - 1)) 0 root = (root', removal) ∧
        (failure = none → removal = none) := by
  rw [pruneReportRunsAt] at h
  split at h
  · obtain ⟨rfl, rfl⟩ := Prod.mk.inj h
    exact Or.inl ⟨rfl, nofun⟩
  split at h
  · obtain ⟨rfl, rfl⟩ := Prod.mk.inj h
    exact Or.inl ⟨rfl, nofun⟩
  split at h
  · obtain ⟨rfl, rfl⟩ := Prod.mk.inj h
    exact Or.inl ⟨rfl, nofun⟩
  split at h
  · obtain ⟨rfl, rfl⟩ := Prod.mk.inj h
    exact Or.inl ⟨rfl, nofun⟩
  · next candidates n hlisted =>
    dsimp only at h
    split at h
    · next hremoved =>
      obtain ⟨rfl, rfl⟩ := Prod.mk.inj h
      exact Or.inr ⟨_, candidates, _, congrArg Prod.fst hlisted, hremoved, nofun⟩
    · next hremoved =>
      refine Or.inr ⟨_, candidates, none, congrArg Prod.fst hlisted, ?_, fun _ => rfl⟩
      rw [hremoved]
      split at h
      · rw [(Prod.mk.inj h).1]
      split at h
      · rw [(Prod.mk.inj h).1]
      · rw [(Prod.mk.inj h).1]

/-- The names of the sorted reports that are not the current one. -/
lemma sorted_names {candidates : List (String × Identity)} (hnodup : listing.Nodup)
    (h : (listCandidates plan root listing n).1 = .ok candidates) :
    ∃ sorted : List String, sorted.Pairwise (· > ·) ∧
      (∀ x ∈ sorted, x ∈ others root listing currentName) ∧
      ((∀ i, plan i = none) → sorted.Perm (others root listing currentName)) ∧
      ∀ k, (((sortCandidates candidates).filter fun item => item.1 ≠ currentName).drop k).map
        Prod.fst = sorted.drop k := by
  obtain ⟨hsub, hcomplete⟩ := listCandidates_sound h
  obtain ⟨hperm, hdescending⟩ := sortCandidates_descending (hsub.nodup hnodup)
  have hmem : ∀ x ∈ ((sortCandidates candidates).map Prod.fst).filter (fun n => n ≠ currentName),
      x ∈ others root listing currentName := by
    intro x hx
    rw [List.mem_filter] at hx
    have hlisted := (hperm.map Prod.fst).mem_iff.mp hx.1
    obtain ⟨item, hitem, rfl⟩ := List.mem_map.mp hlisted
    rw [others, List.mem_filter, hcomplete item hitem, Bool.true_and]
    exact ⟨hsub.subset hlisted, hx.2⟩
  have hsorted := hdescending.filter fun n => decide (n ≠ currentName)
  refine ⟨_, hsorted, hmem, fun hplan => ?_, fun k => ?_⟩
  · have hothers : (others root listing currentName).Nodup := hnodup.filter _
    refine (List.perm_ext_iff_of_nodup (hsorted.imp fun hlt => hlt.ne') hothers).mpr fun x =>
      ⟨hmem x, fun hx => ?_⟩
    rw [others, List.mem_filter, Bool.and_eq_true] at hx
    rw [List.mem_filter, (hperm.map Prod.fst).mem_iff]
    exact ⟨listCandidates_complete hplan h x hx.1 hx.2.1, hx.2.2⟩
  · rw [List.map_drop, List.filter_map]
    rfl

/-- A complete report that is not expired is the current one, or among the newest of the others. -/
lemma not_expired (hlisting : ∀ n, (root n).isSome = true → n ∈ listing)
    (hcomplete : completedReportCandidate root name = true)
    (h : ¬ Expired root listing currentName name) :
    name = currentName ∨ (name ∈ others root listing currentName ∧
      rank (others root listing currentName) name < retainReportRuns - 1) := by
  by_cases hname : name = currentName
  · exact Or.inl hname
  · have hsome : (root name).isSome = true := by
      rw [completedReportCandidate, Bool.and_eq_true] at hcomplete
      cases hnode : root name with
      | none =>
        rw [hnode] at hcomplete
        exact absurd hcomplete.2 Bool.false_ne_true
      | some node => rfl
    refine Or.inr ⟨?_, not_le.mp fun hold => h ⟨hcomplete, hname, hold⟩⟩
    rw [others, List.mem_filter, Bool.and_eq_true, decide_eq_true_eq]
    exact ⟨hlisting name hsome, hcomplete, hname⟩

/-- **Retention touches expired reports only**, whatever is refused. Where it does not fail it
removes each of them whole or not at all; where in addition no reading of the reports is refused it
removes exactly the expired ones, and no more than the retained number is left. -/
theorem retention_sound (plan planAfter : Plan) (plans : ℕ → Plan) (pid : ℕ) (token : ℕ → String)
    (root root' : Runs) (listing : List String) (currentName : String) (failure : Option Failure)
    (hnodup : listing.Nodup) (hlisting : ∀ n, (root n).isSome = true → n ∈ listing)
    (hrun : pruneReportRunsAt plan planAfter plans (fun i => quarantineName pid (token i)) root
      listing currentName = (root', failure)) :
    (∀ n, root' n ≠ root n →
      (∃ i, n = quarantineName pid (token i)) ∨ Expired root listing currentName n) ∧
    (failure = none → ∀ n, root' n = root n ∨ root' n = none) ∧
    (failure = none → (∀ i, plan i = none) →
      (∀ n, completedReportCandidate root' n = true ↔
        completedReportCandidate root n = true ∧ ¬ Expired root listing currentName n) ∧
      (listing.filter (completedReportCandidate root')).length ≤ retainReportRuns) := by
  rcases pruneReportRunsAt_cases hrun with ⟨rfl, hfailed⟩ | ⟨m, candidates, removal, hlisted,
    hremoved, hfailure⟩
  · exact ⟨fun n hn => absurd rfl hn, fun h => absurd h hfailed, fun h => absurd h hfailed⟩
  obtain ⟨sorted, hdescending, hmem, hall, hdrop⟩ := @sorted_names plan root listing currentName m
    candidates hnodup hlisted
  obtain ⟨htouched, hclean⟩ := removeExpired_cases hremoved
  rw [hdrop] at htouched hclean
  have hexpired : ∀ n ∈ sorted.drop (retainReportRuns - 1), Expired root listing currentName n := by
    intro n hn
    obtain ⟨hsorted, hold⟩ := (mem_drop_iff hdescending).mp hn
    have hother := hmem n hsorted
    have hle := rank_mono (hdescending.imp fun hlt => hlt.ne') hmem n
    rw [others, List.mem_filter, Bool.and_eq_true, decide_eq_true_eq] at hother
    exact ⟨hother.2.1, hother.2.2, hold.trans hle⟩
  have htouched' : ∀ n, root' n ≠ root n →
      (∃ i, n = quarantineName pid (token i)) ∨ Expired root listing currentName n :=
    fun n hn => (htouched n hn).imp id (hexpired n)
  refine ⟨htouched', fun h => (hclean (hfailure h)).1, fun h hplan => ?_⟩
  have hperm := hall hplan
  have hleft : ∀ n, completedReportCandidate root' n = true ↔
      completedReportCandidate root n = true ∧ ¬ Expired root listing currentName n := by
    intro n
    have hsame : root' n = root n → completedReportCandidate root' n =
        completedReportCandidate root n := fun heq => by
      rw [completedReportCandidate, completedReportCandidate, heq]
    constructor
    · intro hn
      have hsome : root' n ≠ none := fun hnone => by
        rw [completedReportCandidate, hnone, Bool.and_false] at hn
        cases hn
      have heq := ((hclean (hfailure h)).1 n).resolve_right hsome
      refine ⟨(hsame heq).symm.trans hn, fun hold => hsome ((hclean (hfailure h)).2 n ?_)⟩
      refine (mem_drop_iff hdescending).mpr ⟨hperm.mem_iff.mpr ?_, ?_⟩
      · rw [others, List.mem_filter, Bool.and_eq_true, decide_eq_true_eq]
        refine ⟨hlisting n ?_, hold.complete, hold.other⟩
        rw [← heq]
        exact Option.isSome_iff_ne_none.mpr hsome
      · rw [rank_perm hperm]
        exact hold.old
    · rintro ⟨hcomplete, hnew⟩
      by_cases heq : root' n = root n
      · exact (hsame heq).trans hcomplete
      · obtain ⟨i, rfl⟩ := (htouched' n heq).resolve_right hnew
        rw [completedReportCandidate, quarantineName_private, Bool.false_and] at hcomplete
        cases hcomplete
  refine ⟨hleft, ?_⟩
  -- the reports that are left are the current one and the newest of the others
  have hnewest : ∀ n ∈ listing.filter (completedReportCandidate root'), n ∈ currentName ::
      sorted.filter fun x => decide (rank sorted x < retainReportRuns - 1) := by
    intro n hn
    obtain ⟨hcomplete, hnew⟩ := (hleft n).mp (List.mem_filter.mp hn).2
    rcases not_expired hlisting hcomplete hnew with rfl | ⟨hother, hrank⟩
    · exact List.mem_cons_self
    · refine List.mem_cons_of_mem _ (List.mem_filter.mpr ⟨hperm.mem_iff.mpr hother, ?_⟩)
      rw [decide_eq_true_eq, rank_perm hperm]
      exact hrank
  calc (listing.filter (completedReportCandidate root')).length
      ≤ (sorted.filter fun x => decide (rank sorted x < retainReportRuns - 1)).length + 1 :=
        ((hnodup.filter _).subperm hnewest).length_le
    _ ≤ retainReportRuns - 1 + 1 := Nat.succ_le_succ (length_filter_rank_le hdescending _)
    _ = retainReportRuns := rfl

/-- One report more than is retained, from the newest on. -/
def sampleListing : List String := ["9", "8", "7", "6", "5", "4", "3", "2", "1"].map fun day =>
  "2026010" ++ day ++ "T000000000000Z-12345678-signal"

def sampleReports : Runs := fun n =>
  if n ∈ sampleListing then some (.directory ⟨1, 2⟩ 3 sampleEntries) else none

def sampleCurrent : String := "20260109T000000000000Z-12345678-signal"

def sampleRetention : Runs × Option Failure :=
  pruneReportRunsAt (fun _ => none) (fun _ => none) (fun _ _ => none)
    (fun _ => quarantineName 7 "ab") sampleReports sampleListing sampleCurrent

theorem retention_sound_sample :
    sampleRetention.2 = none ∧ (sampleListing.filter (completedReportCandidate
      sampleRetention.1)).length ≤ retainReportRuns := by
  have hpattern : runPattern sampleCurrent = true := by decide
  have hcurrent : ownedReportIdentity (fun _ => none) sampleReports sampleCurrent
      [reportMarkerComplete] 0 = (.ok ⟨1, 2⟩, 11) := by decide
  have hlisted : listCandidates (fun _ => none) sampleReports sampleListing 12 =
      (.ok (sampleListing.map fun name => (name, ⟨1, 2⟩)), 111) := by decide +kernel
  have hsorted : sortCandidates (sampleListing.map fun name => (name, ⟨1, 2⟩)) =
      sampleListing.map fun name => (name, ⟨1, 2⟩) := List.mergeSort_of_pairwise (by decide)
  have hnone : sampleRetention.2 = none := by
    simp only [sampleRetention, pruneReportRunsAt, hpattern, hcurrent, perform, hlisted, hsorted,
      sysCall, Bool.not_true, if_true, Nat.reduceAdd]
    decide
  have hlisting : ∀ n, (sampleReports n).isSome = true → n ∈ sampleListing := fun n hn => by
    rw [sampleReports] at hn
    by_contra hmem
    rw [if_neg hmem] at hn
    cases hn
  refine ⟨hnone, ?_⟩
  exact ((retention_sound (fun _ => none) (fun _ => none) (fun _ _ => none) 7 (fun _ => "ab")
    sampleReports sampleRetention.1 sampleListing sampleCurrent sampleRetention.2 (by decide)
    hlisting rfl).2.2 hnone fun _ => rfl).2

end Aymos.ReportRetention

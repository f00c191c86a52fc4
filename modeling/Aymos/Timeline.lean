import Aymos.Decoder
import Mathlib.Data.List.Chain
import Mathlib.Algebra.BigOperators.Group.List.Basic

/-!
The running intervals of `tools/aymos_lab/deadline_lab.py`.

The committed switches of a trace are turned into intervals. On a chain of switches this raises
nothing, and the intervals tile the time from the first switch to the final tick.
-/

namespace Aymos.Timeline

open Trace Decoder

/-- An interval in which a task runs. -/
structure Interval where
  task : ℕ
  start : ℕ
  stop : ℕ
  deriving DecidableEq, Repr

/-- `_records` for the switches. -/
def switches (records : List DecodedRecord) : List DecodedRecord :=
  records.filter fun record => record.event == .contextSwitch

/-- The tick of the switch after one, or the final one. -/
def stopTick (finalTick : ℕ) (rest : List DecodedRecord) : ℕ :=
  (rest.head?.map DecodedRecord.tick).getD finalTick

/-- The loop over the switches, past the one before. -/
def intervalsFrom (finalTick : ℕ) (previous : Option DecodedRecord) :
    List DecodedRecord → Except String (List Interval)
  | [] => .ok []
  | switch :: rest =>
    match switch.related with
    | none => .error "context switch has an invalid task or tick"
    | some task =>
      if stopTick finalTick rest < switch.tick then .error "context switch ticks are not monotonic"
      else if previous.any fun p => switch.task != p.related then
        .error "context switch chain is not continuous"
      else
        match intervalsFrom finalTick (some switch) rest with
        | .error e => .error e
        | .ok intervals =>
          .ok (if stopTick finalTick rest > switch.tick then
            ⟨task, switch.tick, stopTick finalTick rest⟩ :: intervals else intervals)

/-- `running_intervals`. -/
def runningIntervals (decoded : DecodedTrace) : Except String (List Interval) :=
  intervalsFrom decoded.footer.finalTick none (switches decoded.records)

/-! ### Chains of switches -/

/-- **A chain of switches** up to a final tick: each switch has its incoming task, and the next one
takes over from it. -/
structure Chained (finalTick : ℕ) (ss : List DecodedRecord) : Prop where
  incoming : ∀ s ∈ ss, s.related.isSome = true
  chain : ss.IsChain fun s s' => s'.task = s.related ∧ s.tick ≤ s'.tick
  past : ∀ s ∈ ss, s.tick ≤ finalTick

/-- The intervals of a chain of switches. -/
def segments (finalTick : ℕ) : List DecodedRecord → List Interval
  | [] => []
  | switch :: rest =>
    if stopTick finalTick rest > switch.tick then
      ⟨switch.related.getD 0, switch.tick, stopTick finalTick rest⟩ :: segments finalTick rest
    else segments finalTick rest

/-- The intervals lie end to end from `a` to `z`, and none is empty. -/
def Tiles : ℕ → List Interval → ℕ → Prop
  | a, [], z => a = z
  | a, interval :: intervals, z =>
    interval.start = a ∧ a < interval.stop ∧ Tiles interval.stop intervals z

variable {finalTick : ℕ} {s : DecodedRecord} {ss : List DecodedRecord}

lemma Chained.tail (h : Chained finalTick (s :: ss)) : Chained finalTick ss :=
  ⟨fun s hs => h.incoming s (List.mem_cons_of_mem _ hs), h.chain.tail,
    fun s hs => h.past s (List.mem_cons_of_mem _ hs)⟩

/-- A switch does not stop before it starts. -/
lemma Chained.le_stop (h : Chained finalTick (s :: ss)) : s.tick ≤ stopTick finalTick ss := by
  cases ss with
  | nil => exact h.past s List.mem_cons_self
  | cons s' ss =>
    have hc := h.chain
    rw [List.isChain_cons_cons] at hc
    exact hc.1.2

/-- **A chain of switches raises nothing.** -/
lemma intervalsFrom_ok (previous : Option DecodedRecord) (h : Chained finalTick ss)
    (hprev : ∀ p ∈ previous, ∀ s ∈ ss.head?, s.task = p.related) :
    intervalsFrom finalTick previous ss = .ok (segments finalTick ss) := by
  induction ss generalizing previous with
  | nil => rfl
  | cons s ss ih =>
    obtain ⟨task, htask⟩ := Option.isSome_iff_exists.mp (h.incoming s List.mem_cons_self)
    have hlink : (previous.any fun p => s.task != p.related) = false := by
      cases previous with
      | none => rfl
      | some p => simpa using hprev p rfl s rfl
    have hnext : ∀ p ∈ some s, ∀ s' ∈ ss.head?, s'.task = p.related := by
      rintro p hp s' hs'
      obtain rfl := Option.some.inj hp
      cases ss with
      | nil => cases hs'
      | cons s'' ss =>
        obtain rfl := Option.some.inj hs'
        have hc := h.chain
        rw [List.isChain_cons_cons] at hc
        exact hc.1.1
    rw [intervalsFrom, segments, htask, ih (some s) h.tail hnext]
    simp only
    rw [if_neg (not_lt.mpr h.le_stop), hlink]
    rfl

/-- **The intervals of a chain tile its time.** -/
lemma tiles_segments (h : Chained finalTick (s :: ss)) :
    Tiles s.tick (segments finalTick (s :: ss)) finalTick := by
  induction ss generalizing s with
  | nil =>
    rw [segments]
    split
    · next hlt => exact ⟨rfl, hlt, rfl⟩
    · next hge => exact le_antisymm h.le_stop (not_lt.mp hge)
  | cons s' ss ih =>
    have hrest := ih h.tail
    rw [segments]
    split
    · next hlt => exact ⟨rfl, hlt, hrest⟩
    · next hge =>
      rw [show s.tick = s'.tick from le_antisymm h.le_stop (not_lt.mp hge)]
      exact hrest

/-! ### The time of one task -/

/-- How long a task runs in the intervals. -/
def runTicks (task : ℕ) (intervals : List Interval) : ℕ :=
  ((intervals.filter fun interval => interval.task == task).map fun interval =>
    interval.stop - interval.start).sum

lemma runTicks_cons (task : ℕ) (interval : Interval) (intervals : List Interval) :
    runTicks task (interval :: intervals) =
      (if interval.task = task then interval.stop - interval.start else 0) +
        runTicks task intervals := by
  by_cases h : interval.task = task
  · simp [runTicks, h]
  · simp [runTicks, h]

/-- The incoming task of the last switch. -/
def lastIncoming (ss : List DecodedRecord) : Option ℕ := ss.getLast?.bind DecodedRecord.related

/-- **One more switch** ends the interval that was open. -/
lemma runTicks_concat (task : ℕ) (h : Chained finalTick (ss ++ [s])) :
    runTicks task (segments finalTick (ss ++ [s])) =
      runTicks task (segments s.tick ss) +
        if s.related = some task then finalTick - s.tick else 0 := by
  induction ss with
  | nil =>
    obtain ⟨n, hn⟩ := Option.isSome_iff_exists.mp (h.incoming s List.mem_cons_self)
    have hle : s.tick ≤ finalTick := h.past s List.mem_cons_self
    simp only [List.nil_append, segments, stopTick, List.head?_nil, Option.map_none,
      Option.getD_none, hn, Option.getD_some, Option.some.injEq]
    split
    · rw [runTicks_cons]
      exact Nat.add_comm _ _
    · have hzero : finalTick - s.tick = 0 := by omega
      rw [hzero, ite_self, Nat.add_zero]
  | cons s' ss ih =>
    have hstop : stopTick finalTick (ss ++ [s]) = stopTick s.tick ss := by
      cases ss <;> rfl
    have hrest := ih h.tail
    rw [List.cons_append, segments, segments, hstop]
    split
    · rw [runTicks_cons, runTicks_cons, hrest, Nat.add_assoc]
    · exact hrest

/-- **As time goes by** the task of the last switch runs on. -/
lemma runTicks_later (task : ℕ) {later : ℕ} (h : Chained finalTick ss) (hle : finalTick ≤ later) :
    runTicks task (segments later ss) = runTicks task (segments finalTick ss) +
      if lastIncoming ss = some task then later - finalTick else 0 := by
  rcases List.eq_nil_or_concat ss with rfl | ⟨ss, s, rfl⟩
  · rfl
  · rw [List.concat_eq_append] at h ⊢
    have hlater : Chained later (ss ++ [s]) :=
      ⟨h.incoming, h.chain, fun s hs => (h.past s hs).trans hle⟩
    have hpast : s.tick ≤ finalTick := h.past s (by simp)
    have hlast : lastIncoming (ss ++ [s]) = s.related := by simp [lastIncoming]
    rw [runTicks_concat task hlater, runTicks_concat task h, hlast]
    split <;> omega

/-! ### A part of the time -/

lemma runTicks_append (task : ℕ) (intervals intervals' : List Interval) :
    runTicks task (intervals ++ intervals') = runTicks task intervals + runTicks task intervals' := by
  rw [runTicks, List.filter_append, List.map_append, List.sum_append]
  rfl

/-- The intervals that start in a part of the time. -/
def within (a b : ℕ) (intervals : List Interval) : List Interval :=
  intervals.filter fun interval => decide (a ≤ interval.start ∧ interval.start < b)

/-- An interval starts at a switch, and stops after it. -/
lemma segments_bounds {interval : Interval} (h : ∀ s ∈ ss, s.tick ≤ finalTick)
    (hi : interval ∈ segments finalTick ss) :
    (∃ s ∈ ss, interval.start = s.tick) ∧ interval.start < finalTick := by
  induction ss with
  | nil => cases hi
  | cons s ss ih =>
    have hlater : interval ∈ segments finalTick ss →
        (∃ s' ∈ s :: ss, interval.start = s'.tick) ∧ interval.start < finalTick := fun hi => by
      obtain ⟨⟨s', hs', heq⟩, hlt⟩ := ih (fun s' hs' => h s' (List.mem_cons_of_mem _ hs')) hi
      exact ⟨⟨s', List.mem_cons_of_mem _ hs', heq⟩, hlt⟩
    rw [segments] at hi
    split at hi
    · next hlt =>
      rcases List.mem_cons.mp hi with rfl | hi
      · refine ⟨⟨s, List.mem_cons_self, rfl⟩, lt_of_lt_of_le hlt ?_⟩
        cases ss with
        | nil => exact le_rfl
        | cons s' ss => exact h s' (List.mem_cons_of_mem _ List.mem_cons_self)
      · exact hlater hi
    · exact hlater hi

/-- The switches of a part of the time have their intervals in it. -/
lemma within_segments {a : ℕ} (ha : ∀ s ∈ ss, a ≤ s.tick) (h : ∀ s ∈ ss, s.tick ≤ finalTick) :
    within a finalTick (segments finalTick ss) = segments finalTick ss := by
  refine List.filter_eq_self.mpr fun interval hi => decide_eq_true ?_
  obtain ⟨⟨s, hs, heq⟩, hlt⟩ := segments_bounds h hi
  exact ⟨heq ▸ ha s hs, hlt⟩

lemma within_segments_before {a b : ℕ} (h : ∀ s ∈ ss, s.tick ≤ finalTick) (ha : finalTick ≤ a) :
    within a b (segments finalTick ss) = [] := by
  refine List.filter_eq_nil_iff.mpr fun interval hi hin => ?_
  have hlt := (segments_bounds h hi).2
  have hge := (of_decide_eq_true hin).1
  omega

lemma within_segments_after {a b : ℕ} (h : ∀ s ∈ ss, s.tick ≤ finalTick) (hb : ∀ s ∈ ss, b ≤ s.tick) :
    within a b (segments finalTick ss) = [] := by
  refine List.filter_eq_nil_iff.mpr fun interval hi hin => ?_
  obtain ⟨⟨s, hs, heq⟩, -⟩ := segments_bounds h hi
  have hge := hb s hs
  have hlt := (of_decide_eq_true hin).2
  omega

variable {ss' : List DecodedRecord}

lemma Chained.left (h : Chained finalTick (ss ++ ss')) : Chained finalTick ss :=
  ⟨fun s hs => h.incoming s (List.mem_append_left _ hs), h.chain.left_of_append,
    fun s hs => h.past s (List.mem_append_left _ hs)⟩

lemma Chained.right (h : Chained finalTick (ss ++ ss')) : Chained finalTick ss' :=
  ⟨fun s hs => h.incoming s (List.mem_append_right _ hs), h.chain.right_of_append,
    fun s hs => h.past s (List.mem_append_right _ hs)⟩

/-- A chain up to an earlier tick. -/
lemma Chained.upTo (h : Chained finalTick ss) {tick : ℕ} (hpast : ∀ s ∈ ss, s.tick ≤ tick) :
    Chained tick ss :=
  ⟨h.incoming, h.chain, hpast⟩

/-- The interval that a switch opens. -/
def opened (s : DecodedRecord) (stop : ℕ) : List Interval :=
  if stop > s.tick then [⟨s.related.getD 0, s.tick, stop⟩] else []

lemma segments_cons : segments finalTick (s :: ss) =
    opened s (stopTick finalTick ss) ++ segments finalTick ss := by
  rw [segments, opened]
  split <;> rfl

/-- How long a task runs in the intervals that start in a part of the time. -/
lemma runTicks_within_append (task a b : ℕ) (intervals intervals' : List Interval) :
    runTicks task (within a b (intervals ++ intervals')) =
      runTicks task (within a b intervals) + runTicks task (within a b intervals') := by
  rw [within, List.filter_append, runTicks_append]
  rfl

lemma runTicks_opened {task : ℕ} (a b stop : ℕ) {n : ℕ} (hn : s.related = some n)
    (hne : n ≠ task) : runTicks task (within a b (opened s stop)) = 0 := by
  have hnil : ∀ interval ∈ within a b (opened s stop), ¬(interval.task == task) = true := by
    intro interval hi
    have hi := (List.mem_filter.mp hi).1
    rw [opened] at hi
    split at hi
    · rw [List.mem_singleton.mp hi, hn, beq_iff_eq]
      exact hne
    · cases hi
  rw [runTicks, List.filter_eq_nil_iff.mpr hnil]
  rfl

/-- **While a task is off the processor** the time can be cut, with none of its intervals open. -/
lemma runTicks_cut (task a b cut : ℕ) (h : Chained finalTick (ss ++ ss'))
    (hoff : lastIncoming ss ≠ some task) :
    runTicks task (within a b (segments finalTick (ss ++ ss'))) =
      runTicks task (within a b (segments cut ss)) +
        runTicks task (within a b (segments finalTick ss')) := by
  induction ss with
  | nil => exact (Nat.zero_add _).symm
  | cons s ss ih =>
    rw [List.cons_append, segments_cons, segments_cons, runTicks_within_append,
      runTicks_within_append]
    cases ss with
    | nil =>
      -- the last interval, which is of another task
      obtain ⟨n, hn⟩ := Option.isSome_iff_exists.mp (h.incoming s List.mem_cons_self)
      have hne : n ≠ task := fun heq => hoff (hn.trans (congrArg some heq))
      rw [runTicks_opened a b _ hn hne, runTicks_opened a b _ hn hne]
      rfl
    | cons s' ss =>
      have hoff : lastIncoming (s' :: ss) ≠ some task := hoff
      rw [ih h.tail hoff, ← Nat.add_assoc]
      rfl

/-- Switches at one tick take no time. -/
lemma runTicks_instant (task : ℕ) (h : Chained finalTick (ss ++ ss'))
    (hnow : ∀ s ∈ ss', s.tick = finalTick) :
    runTicks task (segments finalTick (ss ++ ss')) = runTicks task (segments finalTick ss) := by
  induction ss' using List.reverseRecOn with
  | nil => rw [List.append_nil]
  | append_singleton ss' s ih =>
    rw [← List.append_assoc] at h ⊢
    have hs : s.tick = finalTick := hnow s (List.mem_append_right _ List.mem_cons_self)
    rw [runTicks_concat task h, hs, Nat.sub_self, ite_self, Nat.add_zero]
    exact ih h.left fun s hs => hnow s (List.mem_append_left _ hs)

/-- **What a task runs in a part of the time** that starts and ends with it off the processor. -/
lemma runTicks_part {task a b : ℕ} {before since after : List DecodedRecord} (hab : a ≤ b)
    (h : Chained finalTick (before ++ since ++ after))
    (hbefore : ∀ s ∈ before, s.tick ≤ a) (hsince : ∀ s ∈ since, a ≤ s.tick ∧ s.tick ≤ b)
    (hafter : ∀ s ∈ after, b ≤ s.tick) (hstart : lastIncoming before ≠ some task)
    (hend : lastIncoming (before ++ since) ≠ some task) :
    runTicks task (within a b (segments finalTick (before ++ since ++ after))) =
      runTicks task (segments b since) := by
  have hb : Chained b (before ++ since) := h.left.upTo fun s hs => by
    rcases List.mem_append.mp hs with hs | hs
    · exact (hbefore s hs).trans hab
    · exact (hsince s hs).2
  have hlater : within a b (segments finalTick after) = [] :=
    within_segments_after (fun s hs => h.right.past s hs) hafter
  have hearlier : within a b (segments a before) = [] := within_segments_before hbefore le_rfl
  have hin : within a b (segments b since) = segments b since :=
    within_segments (fun s hs => (hsince s hs).1) fun s hs => (hsince s hs).2
  rw [runTicks_cut task a b b h hend, runTicks_cut task a b a hb hstart, hlater, hearlier, hin]
  exact Nat.zero_add _

end Aymos.Timeline

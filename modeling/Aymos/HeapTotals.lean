import Aymos.HeapStats

/-!
The statistics against the history.

The allocator keeps its totals incrementally. The ghost tally counts what the calls of a history
answered, and the ghost list of past states has the bytes allocated in each; after every history
the statistics agree with both and with a fresh walk of the chain.
-/

namespace Aymos.HeapTotals

open Aymos.ByteMem Aymos.Allocator Aymos.Tiling Aymos.Words Aymos.HeapRepr Aymos.HeapBlocks
  Aymos.HeapOps Aymos.HeapCalls Aymos.HeapRun Aymos.HeapStats

/-- How many blocks were handed out and given back, and how many calls failed. -/
structure Tally where
  granted : ℕ := 0
  returned : ℕ := 0
  denied : ℕ := 0
  refused : ℕ := 0
  deriving DecidableEq, Repr

def Tally.add (t u : Tally) : Tally :=
  ⟨t.granted + u.granted, t.returned + u.returned, t.denied + u.denied, t.refused + u.refused⟩

variable (T : Target)

/-- What one call counts for. A null pointer given to `os_allocator_free` counts for nothing. -/
def effect (c : Client) : Call → Tally
  | .alloc size owner =>
    match osAllocatorAlloc T c.heap size owner.toNat with
    | some (_, p) => if p = 0 then { denied := 1 } else { granted := 1 }
    | none => {}
  | .free ptr owner =>
    match osAllocatorFree T c.heap ptr owner.toNat with
    | some (_, ok) => if ok then (if ptr = 0 then {} else { returned := 1 }) else { refused := 1 }
    | none => {}
  | .releaseOwner owner =>
    match osAllocatorReleaseOwner T c.heap owner.toNat with
    | some (_, released) => { returned := released }
    | none => {}
  | .write _ _ => {}

/-- The histories of `History`, with the states passed through and the tally. -/
inductive Trail (m : Mem) (arena arenaSize : ℕ) : List Client → Tally → Client → Prop
  | init {h : Heap} : osAllocatorInit T m arena arenaSize = (h, true) →
    Trail m arena arenaSize [] {} ⟨h, []⟩
  | call {past : List Client} {t : Tally} {c c' : Client} {call : Call} :
    Trail m arena arenaSize past t c → Step T c call c' →
    Trail m arena arenaSize (c :: past) (t.add (effect T c call)) c'

/-- The most bytes allocated in any of the states. -/
def peak (states : List Client) : ℕ :=
  (states.map fun c => c.heap.ctl.allocatedBytes).foldr max 0

/-- **Statistics that are true** of a heap and of how it came about. -/
structure StatsTrue (past : List Client) (t : Tally) (c : Client) (stats : OsMemoryStats) :
    Prop where
  heap : stats.heapBytes =
    stats.payloadCapacityBytes + (stats.allocatedBlocks + stats.freeBlocks) * T.headerSize
  payload : stats.payloadCapacityBytes = stats.allocatedBytes + stats.freeBytes
  walked : stats.allocatedBytes = ownedBytes (blocks T c.heap) ∧
    stats.allocatedBlocks = ownedCount (blocks T c.heap) ∧
    stats.freeBlocks = freeCount (blocks T c.heap)
  largest : stats.largestFreeBlockBytes = largestFree (blocks T c.heap)
  watermark : stats.highWatermarkBytes = peak (c :: past)
  counters : stats.successfulAllocations = min t.granted uint32Max ∧
    stats.successfulFrees = min t.returned uint32Max ∧
    stats.failedAllocations = min t.denied uint32Max ∧
    stats.invalidFrees = min t.refused uint32Max
  balance : stats.successfulAllocations < uint32Max → stats.successfulFrees < uint32Max →
    stats.successfulAllocations = stats.successfulFrees + stats.allocatedBlocks

/-- What one call does to the totals, when it counts for `e`. -/
structure Accounted (h h' : Heap) (e : Tally) : Prop where
  granted : h'.ctl.successfulAllocations =
    incrementSaturating^[e.granted] h.ctl.successfulAllocations
  returned : h'.ctl.successfulFrees = incrementSaturating^[e.returned] h.ctl.successfulFrees
  denied : h'.ctl.failedAllocations = incrementSaturating^[e.denied] h.ctl.failedAllocations
  refused : h'.ctl.invalidFrees = incrementSaturating^[e.refused] h.ctl.invalidFrees
  watermark : h'.ctl.highWatermarkBytes = max h.ctl.highWatermarkBytes h'.ctl.allocatedBytes
  owned : ownedCount (blocks T h') + e.returned = ownedCount (blocks T h) + e.granted

variable {T} {h : Heap} {bs : List Blk}

/-! ### Counting blocks -/

lemma ownedCount_append (xs ys : List Blk) : ownedCount (xs ++ ys) = ownedCount xs + ownedCount ys :=
  List.countP_append

lemma ownedCount_cons (b : Blk) (xs : List Blk) :
    ownedCount (b :: xs) = ownedCount xs + if b.owner.isSome then 1 else 0 := List.countP_cons

/-- Coalescing joins free blocks only. -/
lemma ownedCount_coalesce (xs : List Blk) :
    ownedCount (coalesce T.headerSize xs) = ownedCount xs := by
  rw [ownedCount, ownedCount, List.countP_eq_length_filter, List.countP_eq_length_filter,
    owned_coalesce]

/-- An allocation hands out one block. -/
lemma ownedCount_carve {b : Blk} (n owner : ℕ) (hfree : b.owner = none) (pre post : List Blk) :
    ownedCount (pre ++ (carve T b n owner ++ post)) = ownedCount (pre ++ b :: post) + 1 := by
  have hcarve : ownedCount (carve T b n owner) = 1 := by
    unfold carve
    split <;> simp [ownedCount, grant, cutRest]
  rw [ownedCount_append, ownedCount_append, hcarve, ownedCount_append, ownedCount_cons, hfree]
  simp
  omega

lemma ownedCount_release {b : Blk} {owner : ℕ} (hown : b.owner = some owner)
    (pre post : List Blk) :
    ownedCount (pre ++ release b :: post) + 1 = ownedCount (pre ++ b :: post) := by
  rw [ownedCount_append, ownedCount_append, ownedCount_cons, ownedCount_cons, hown]
  simp [release]
  omega

lemma ownedCount_surrender (owner : ℕ) (xs : List Blk) :
    ownedCount (xs.map (surrender owner)) + heldBy owner xs = ownedCount xs := by
  induction xs with
  | nil => rfl
  | cons b xs ih =>
    have hheld : heldBy owner (b :: xs) = heldBy owner xs + if b.owner = some owner then 1 else 0 := by
      rw [heldBy, List.countP_cons]
      simp [heldBy]
    rw [List.map_cons, ownedCount_cons, ownedCount_cons, hheld, surrender]
    by_cases hown : b.owner = some owner
    · simp only [release, hown, Option.isSome_some, Option.isSome_none, if_true,
        Bool.false_eq_true, if_false]
      omega
    · simp only [if_neg hown]
      omega

/-! ### One call -/

/-- A call that leaves the chain and the totals alone. -/
lemma accounted_of_same {h' : Heap} {e : Tally} (hi : HeapInv T h bs) (hi' : HeapInv T h' bs)
    (hgranted : e.granted = 0) (hreturned : e.returned = 0)
    (hctl : h'.ctl = { h.ctl with
      failedAllocations := incrementSaturating^[e.denied] h.ctl.failedAllocations
      invalidFrees := incrementSaturating^[e.refused] h.ctl.invalidFrees }) :
    Accounted T h h' e := by
  refine ⟨?_, ?_, ?_, ?_, ?_, ?_⟩
  · rw [hctl, hgranted]
    rfl
  · rw [hctl, hreturned]
    rfl
  · rw [hctl]
  · rw [hctl]
  · have := hi.watermark
    rw [hctl]
    simp only
    omega
  · rw [blocks_eq hi, blocks_eq hi', hgranted, hreturned]

lemma accounted_alloc (hi : HeapInv T h bs) {live : List Allocation} {size : ℕ} {owner : UInt16}
    {h' : Heap} {p : ℕ} (hrun : osAllocatorAlloc T h size owner.toNat = some (h', p)) :
    Accounted T h h' (effect T ⟨h, live⟩ (.alloc size owner)) := by
  have howner := toNat_le_uint16Max owner
  have heffect : effect T ⟨h, live⟩ (.alloc size owner) =
      if p = 0 then { denied := 1 } else { granted := 1 } := by simp only [effect, hrun]
  rw [heffect]
  rcases alloc_cases hi size howner with hfail | ⟨pre, b, post, n, rfl, hfree, hlt, hn, hfit, hok⟩
  · rw [hfail, Option.some.injEq, Prod.mk.injEq] at hrun
    obtain ⟨rfl, rfl⟩ := hrun
    exact accounted_of_same hi (heapInv_of_ctl hi rfl rfl rfl rfl) rfl rfl rfl
  · rw [hok, Option.some.injEq, Prod.mk.injEq] at hrun
    obtain ⟨rfl, rfl⟩ := hrun
    obtain ⟨hn8, hn'⟩ := alignUpSize_mod hn
    obtain ⟨hinv, hctl, -⟩ := takeBlock_spec hi hfree hn8 hn' hfit hlt
    have hpos := hi.addr_pos (b := b) (by simp)
    rw [if_neg (by unfold Block.payload; omega)]
    refine ⟨?_, ?_, ?_, ?_, ?_, ?_⟩
    · rw [hctl]
      rfl
    · rw [hctl]
      rfl
    · rw [hctl]
      rfl
    · rw [hctl]
      rfl
    · rw [hctl]
    · rw [blocks_eq hinv, blocks_eq hi]
      exact ownedCount_carve n owner.toNat hfree pre post

lemma accounted_free (hi : HeapInv T h bs) {live : List Allocation} {ptr : ℕ} {owner : UInt16}
    {h' : Heap} {ok : Bool} (hrun : osAllocatorFree T h ptr owner.toNat = some (h', ok)) :
    Accounted T h h' (effect T ⟨h, live⟩ (.free ptr owner)) := by
  have heffect : effect T ⟨h, live⟩ (.free ptr owner) =
      if ok then (if ptr = 0 then {} else { returned := 1 }) else { refused := 1 } := by
    simp only [effect, hrun]
  rw [heffect]
  rcases free_cases hi ptr owner.toNat with ⟨hnull, hskip⟩ | ⟨-, hbad⟩ | ⟨pre, b, post, rfl, hown, rfl⟩
  · rw [hskip, Option.some.injEq, Prod.mk.injEq] at hrun
    obtain ⟨rfl, rfl⟩ := hrun
    rw [if_pos rfl, if_pos hnull]
    exact accounted_of_same hi hi rfl rfl rfl
  · rw [hbad, Option.some.injEq, Prod.mk.injEq] at hrun
    obtain ⟨rfl, rfl⟩ := hrun
    exact accounted_of_same hi (heapInv_of_ctl hi rfl rfl rfl rfl) rfl rfl rfl
  · obtain ⟨h₁, hacc, hinv, hctl, -⟩ := free_accepted hi hown
    rw [hacc, Option.some.injEq, Prod.mk.injEq] at hrun
    obtain ⟨rfl, rfl⟩ := hrun
    have hpos := hi.addr_pos (b := b) (by simp)
    have hwater := hi.watermark
    rw [if_pos rfl, if_neg (by unfold Block.payload; omega)]
    refine ⟨?_, ?_, ?_, ?_, ?_, ?_⟩
    · rw [hctl]
      rfl
    · rw [hctl]
      rfl
    · rw [hctl]
      rfl
    · rw [hctl]
      rfl
    · rw [hctl]
      simp only
      omega
    · rw [blocks_eq hinv, blocks_eq hi, ownedCount_coalesce]
      exact ownedCount_release hown pre post

lemma accounted_releaseOwner (hi : HeapInv T h bs) {live : List Allocation} {owner : UInt16}
    {h' : Heap} {released : ℕ}
    (hrun : osAllocatorReleaseOwner T h owner.toNat = some (h', released)) :
    Accounted T h h' (effect T ⟨h, live⟩ (.releaseOwner owner)) := by
  have heffect : effect T ⟨h, live⟩ (.releaseOwner owner) = { returned := released } := by
    simp only [effect, hrun]
  rw [heffect]
  obtain ⟨h₁, hrel, hinv, hctl, -, -⟩ := releaseOwner_spec hi owner.toNat
  rw [hrel, Option.some.injEq, Prod.mk.injEq] at hrun
  obtain ⟨rfl, rfl⟩ := hrun
  refine ⟨?_, ?_, ?_, ?_, ?_, ?_⟩
  · rw [hctl]
    rfl
  · rw [hctl]
  · rw [hctl]
    rfl
  · rw [hctl]
    rfl
  · have hless := ownedBytes_surrender_le owner.toNat bs
    have hwater := hi.watermark
    rw [hi.allocated] at hwater
    rw [hctl]
    simp only
    omega
  · rw [blocks_eq hinv, blocks_eq hi, ownedCount_coalesce]
    exact ownedCount_surrender owner.toNat bs

/-- **One call** is accounted for by what it counts for. -/
lemma step_accounted {calls : List Call} {c c' : Client} {call : Call}
    (hi : ClientInv T calls c bs) (hs : Step T c call c') :
    Accounted T c.heap c'.heap (effect T c call) := by
  cases hs with
  | alloc hrun => exact accounted_alloc hi.heap hrun
  | free hrun => exact accounted_free hi.heap hrun
  | releaseOwner hrun => exact accounted_releaseOwner hi.heap hrun
  | write ha hlo hhi =>
    exact accounted_of_same hi.heap (step_write hi ha hlo hhi).heap rfl rfl rfl

/-! ### Whole histories -/

lemma Trail.history {m : Mem} {arena arenaSize : ℕ} {past : List Client} {t : Tally} {c : Client}
    (ht : Trail T m arena arenaSize past t c) : ∃ calls, History T m arena arenaSize calls c := by
  induction ht with
  | init hrun => exact ⟨[], .init hrun⟩
  | call _ hs ih =>
    obtain ⟨calls, hh⟩ := ih
    exact ⟨_, .call hh hs⟩

/-- What the totals of the allocator are after a history. -/
structure Kept (T : Target) (past : List Client) (t : Tally) (c : Client) : Prop where
  granted : c.heap.ctl.successfulAllocations = min t.granted uint32Max
  returned : c.heap.ctl.successfulFrees = min t.returned uint32Max
  denied : c.heap.ctl.failedAllocations = min t.denied uint32Max
  refused : c.heap.ctl.invalidFrees = min t.refused uint32Max
  watermark : c.heap.ctl.highWatermarkBytes = peak (c :: past)
  owned : ownedCount (blocks T c.heap) + t.returned = t.granted

lemma Kept.step {past : List Client} {t e : Tally} {c c' : Client} (hk : Kept T past t c)
    (ha : Accounted T c.heap c'.heap e) : Kept T (c :: past) (t.add e) c' := by
  refine ⟨?_, ?_, ?_, ?_, ?_, ?_⟩
  · rw [ha.granted, hk.granted, incrementSaturating_iterate]
    rfl
  · rw [ha.returned, hk.returned, incrementSaturating_iterate]
    rfl
  · rw [ha.denied, hk.denied, incrementSaturating_iterate]
    rfl
  · rw [ha.refused, hk.refused, incrementSaturating_iterate]
    rfl
  · rw [ha.watermark, hk.watermark, max_comm]
    rfl
  · have howned := hk.owned
    have hblocks := ha.owned
    simp only [Tally.add]
    omega

lemma Trail.kept {m : Mem} {arena arenaSize : ℕ} {past : List Client} {t : Tally} {c : Client}
    (ht : Trail T m arena arenaSize past t c) : Kept T past t c := by
  induction ht with
  | init hrun =>
    rcases osAllocatorInit_eq (T := T) m arena arenaSize with ⟨m', hf⟩ | ⟨a, z, hok, -, -, hinv⟩
    · rw [hf] at hrun
      simp at hrun
    · rw [hok, Prod.mk.injEq] at hrun
      obtain ⟨rfl, -⟩ := hrun
      exact ⟨rfl, rfl, rfl, rfl, rfl, by rw [blocks_eq hinv]; rfl⟩
  | call ht hs ih =>
    obtain ⟨calls, hh⟩ := ht.history
    obtain ⟨bs, hi⟩ := hh.inv
    exact ih.step (step_accounted hi hs)

/-- **The statistics are the truth** about the heap and its history. -/
theorem stats_true {m : Mem} {arena arenaSize : ℕ} {past : List Client} {t : Tally} {c : Client}
    (ht : Trail T m arena arenaSize past t c) :
    ∃ stats, osAllocatorGetStats T c.heap = some (some stats) ∧ StatsTrue T past t c stats := by
  have hk := ht.kept
  obtain ⟨calls, hh⟩ := ht.history
  obtain ⟨bs, hi⟩ := hh.inv
  have hinv := hi.heap
  have hbs := blocks_eq hinv
  have hspan := hinv.tiles.span
  have hlen : ownedCount bs + freeCount bs = bs.length := by
    have hsplit := List.length_eq_countP_add_countP (fun b : Blk => b.owner.isSome) (l := bs)
    rw [ownedCount, freeCount, hsplit]
    congr 2
    funext b
    cases b.owner <;> rfl
  refine ⟨_, getStats_eq hinv, ⟨?_, ?_, ⟨?_, ?_, ?_⟩, ?_, hk.watermark,
    ⟨hk.granted, hk.returned, hk.denied, hk.refused⟩, fun hall hfree => ?_⟩⟩
  · simp only [hlen]
    omega
  · simp only [hinv.allocated]
    exact payloadBytes_eq bs
  · rw [hbs]
    exact hinv.allocated
  · rw [hbs]
  · rw [hbs]
  · rw [hbs]
  · have howned := hk.owned
    rw [hbs] at howned
    simp only [hk.granted, hk.returned] at hall hfree ⊢
    omega

/-- The statistics after one allocation on a small firmware arena. -/
theorem stats_true_alloc : ∃ (past : List Client) (c : Client) (stats : OsMemoryStats),
    osAllocatorGetStats .arm32 c.heap = some (some stats) ∧
      StatsTrue .arm32 past { granted := 1 } c stats := by
  obtain ⟨h, hrun, -⟩ := @History.start_alloc .arm32 (fun _ => 0) 0x20001000 256 0x20001018
    (by decide +kernel) 20 1 (by decide +kernel) (by decide)
  have hstart : Trail .arm32 (fun _ => 0) 0x20001000 256 [] {}
      ⟨(osAllocatorInit .arm32 (fun _ => 0) 0x20001000 256).1, []⟩ :=
    .init (Prod.ext rfl (by decide +kernel))
  have hone := Trail.call hstart (Step.alloc hrun)
  have heffect : effect .arm32 ⟨(osAllocatorInit .arm32 (fun _ => 0) 0x20001000 256).1, []⟩
      (.alloc 20 1) = { granted := 1 } := by
    simp only [effect, hrun]
    rfl
  rw [heffect] at hone
  obtain ⟨stats, hstats, htrue⟩ := stats_true hone
  exact ⟨_, _, stats, hstats, htrue⟩

end Aymos.HeapTotals

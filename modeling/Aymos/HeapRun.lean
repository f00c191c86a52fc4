import Aymos.HeapCalls

/-!
Histories of allocator calls.

A client starts from a successful `os_allocator_init`, makes any calls with any arguments, and
writes to the payloads it was given. The ghost list `live` records what the allocator has
returned and not taken back. The allocator's invariant holds after every history, and so
does the contract with the client, as long as no request is clipped when it is rounded.
-/

namespace Aymos.HeapRun

open Aymos.ByteMem Aymos.Allocator Aymos.Tiling Aymos.Words Aymos.HeapRepr Aymos.HeapBlocks
  Aymos.HeapOps Aymos.HeapCalls

variable (T : Target)

/-! ### The blocks of an arena -/

/-- The block whose header is at an address. -/
def blockAt (h : Heap) (block : ℕ) : Blk :=
  { addr := block
    capacity := h.get T block .capacity
    owner := if h.get T block .allocated = 0 then none else some (h.get T block .owner) }

def blocksFrom (h : Heap) : ℕ → ℕ → List Blk
  | 0, _ => []
  | fuel + 1, block =>
    if block = 0 then [] else blockAt T h block :: blocksFrom h fuel (h.get T block .next)

/-- The blocks found by following `next` from the first header. -/
def blocks (h : Heap) : List Blk := blocksFrom T h (maximumBlocks T h.ctl) h.ctl.firstBlock

variable {T}

lemma blockAt_eq {h : Heap} {bs : List Blk} (hc : Chained T h bs) {b : Blk} (hb : b ∈ bs) :
    blockAt T h b.addr = b := by
  have hcap := hc.get_capacity hb
  have hown := hc.get_owner hb
  have halloc := hc.get_allocated hb
  rcases b with ⟨addr, cap, _ | o⟩
  · simp only [blockAt, hcap, halloc.mpr]
    rfl
  · have : h.get T addr .allocated ≠ 0 := fun h0 => by simpa using halloc.mp h0
    simp only [blockAt, hcap, hown, if_neg this]
    rfl

lemma blocksFrom_eq {h : Heap} : ∀ (cur pre : List Blk) (fuel : ℕ), cur.length ≤ fuel →
    Chained T h (pre ++ cur) → blocksFrom T h fuel (headAddr 0 cur) = cur := by
  intro cur
  induction cur with
  | nil => intro pre fuel _ _; cases fuel <;> simp [blocksFrom, headAddr]
  | cons b rest ih =>
    intro pre fuel hlen hc
    obtain ⟨f, rfl⟩ : ∃ f, fuel = f + 1 :=
      ⟨fuel - 1, by simp only [List.length_cons] at hlen; omega⟩
    have hb : b ∈ pre ++ b :: rest := by simp
    have hpos := hc.addr_pos hb
    have hrec := ih (pre ++ [b]) f (by simp only [List.length_cons] at hlen; omega)
      (by rwa [List.append_assoc])
    rw [headAddr, blocksFrom, if_neg (by omega), blockAt_eq hc hb, hc.get_next, hrec]

/-- **The chain is what the headers say.** -/
lemma blocks_eq {h : Heap} {bs : List Blk} (hi : HeapInv T h bs) : blocks T h = bs := by
  have := blocksFrom_eq bs [] (maximumBlocks T h.ctl) (hi.length_le hi.minimum) hi.toChained
  rwa [hi.headAddr_eq] at this

/-- The invariant depends on the header bytes of the chain only. -/
lemma heapInv_congr {h : Heap} {bs : List Blk} {m : Mem} (hi : HeapInv T h bs)
    (hm : ∀ x, ¬Outside T.headerSize bs x → m x = h.mem x) : HeapInv T { h with mem := m } bs := by
  refine ⟨⟨hi.geometry, hi.tiles, hi.linked.congr fun b hb f => ?_, hi.aligned, hi.owners,
    hi.cursor⟩, hi.minimum, hi.separated, hi.allocated, hi.watermark⟩
  refine load_congr fun x hx hx' => hm x fun hout => ?_
  have := field_fits T f
  have := hout b hb
  omega

/-! ### Clients -/

/-- What a call of `os_allocator_alloc` returned: the pointer, for which request. -/
structure Allocation where
  ptr : ℕ
  size : ℕ
  owner : ℕ
  deriving DecidableEq, Repr

/-- The payload bytes of an allocation, as its header says. -/
def extent (T : Target) (h : Heap) (a : Allocation) : ℕ :=
  h.get T (a.ptr - T.headerSize) .capacity

structure Client where
  heap : Heap
  /-- The allocations returned and not yet freed or swept. -/
  live : List Allocation

inductive Call
  | alloc (size : ℕ) (owner : UInt16)
  | free (ptr : ℕ) (owner : UInt16)
  | releaseOwner (owner : UInt16)
  /-- A byte the client writes by itself. -/
  | write (addr : ℕ) (value : UInt8)

def Call.IsWrite : Call → Prop
  | .write _ _ => True
  | _ => False

/-- One call, with what it does to the ghost list. Clients write inside live payloads only. -/
inductive Step (T : Target) (c : Client) : Call → Client → Prop
  | alloc {size : ℕ} {owner : UInt16} {h : Heap} {p : ℕ} :
    osAllocatorAlloc T c.heap size owner.toNat = some (h, p) →
    Step T c (.alloc size owner)
      ⟨h, if p = 0 then c.live else ⟨p, size, owner.toNat⟩ :: c.live⟩
  | free {ptr : ℕ} {owner : UInt16} {h : Heap} {ok : Bool} :
    osAllocatorFree T c.heap ptr owner.toNat = some (h, ok) →
    Step T c (.free ptr owner)
      ⟨h, if ok then c.live.filter fun a => a.ptr ≠ ptr else c.live⟩
  | releaseOwner {owner : UInt16} {h : Heap} {released : ℕ} :
    osAllocatorReleaseOwner T c.heap owner.toNat = some (h, released) →
    Step T c (.releaseOwner owner) ⟨h, c.live.filter fun a => a.owner ≠ owner.toNat⟩
  | write {addr : ℕ} {value : UInt8} {a : Allocation} :
    a ∈ c.live → a.ptr ≤ addr → addr < a.ptr + extent T c.heap a →
    Step T c (.write addr value)
      { c with heap := { c.heap with mem := Function.update c.heap.mem addr value } }

/-- The states a client can reach from a successful initialisation, with the calls made. -/
inductive History (T : Target) (m : Mem) (arena arenaSize : ℕ) : List Call → Client → Prop
  | init {h : Heap} : osAllocatorInit T m arena arenaSize = (h, true) →
    History T m arena arenaSize [] ⟨h, []⟩
  | call {calls : List Call} {c c' : Client} {call : Call} :
    History T m arena arenaSize calls c → Step T c call c' →
    History T m arena arenaSize (call :: calls) c'

/-- The rounded request does not lose the bits above the mask: they are zero, or the request
is refused. -/
def Unclipped (T : Target) : Call → Prop
  | .alloc size _ => size + 7 < 2 ^ 32 ∨ T.sizeMax < size + 7 ∨ (size + 7) % 2 ^ 32 < 8
  | _ => True

/-- On the firmware's target no request is clipped. -/
lemma unclipped_arm32 (call : Call) : Unclipped .arm32 call := by
  cases call with
  | alloc size owner =>
    have : Target.sizeMax .arm32 = 2 ^ 32 - 1 := by decide
    simp only [Unclipped, this]
    omega
  | free ptr owner => trivial
  | releaseOwner owner => trivial
  | write addr value => trivial

lemma le_of_unclipped {size n : ℕ} {owner : UInt16} (hn : alignUpSize T size = some n)
    (hu : Unclipped T (.alloc size owner)) : size ≤ n := by
  obtain ⟨hmax, hk, hne⟩ := alignUpSize_some hn
  rcases hu with hu | hu | hu
  · exact (le_alignUpSize_iff hn).mpr hu
  · omega
  · omega

/-! ### The invariant of histories -/

/-- The live allocations are owned blocks of the chain, each a block of its own. -/
structure ClientInv (T : Target) (calls : List Call) (c : Client) (bs : List Blk) : Prop where
  heap : HeapInv T c.heap bs
  live : ∀ a ∈ c.live, ∃ b ∈ bs, b.payload T.headerSize = a.ptr ∧ b.owner = some a.owner ∧
    ((∀ call ∈ calls, Unclipped T call) → a.size ≤ b.capacity)
  distinct : c.live.Pairwise fun a a' => a.ptr ≠ a'.ptr

/-- What a call keeps of a block that stays live. -/
def Kept (T : Target) (c c' : Client) (bs bs' : List Blk) : Prop :=
  ∀ a ∈ c.live, a ∈ c'.live → ∀ b ∈ bs, b.payload T.headerSize = a.ptr →
    b ∈ bs' ∧ ∀ x, b.payload T.headerSize ≤ x → x < b.stop T.headerSize →
      c'.heap.mem x = c.heap.mem x

/-- Nothing but the ghost list shrinks when every block still live is still on the chain. -/
lemma ClientInv.shrink {calls : List Call} {c : Client} {bs bs' : List Blk} {h : Heap}
    {live : List Allocation} {call : Call} (hi : ClientInv T calls c bs) (hh : HeapInv T h bs')
    (hsub : live.Sublist c.live)
    (hkeep : ∀ a ∈ live, ∀ b ∈ bs, b.payload T.headerSize = a.ptr → b.owner = some a.owner →
      b ∈ bs') :
    ClientInv T (call :: calls) ⟨h, live⟩ bs' := by
  refine ⟨hh, fun a ha => ?_, hi.distinct.sublist hsub⟩
  obtain ⟨b, hb, hp, ho, hsize⟩ := hi.live a (hsub.subset ha)
  exact ⟨b, hkeep a ha b hb hp ho, hp, ho, fun hu => hsize fun d hd => hu d (by simp [hd])⟩

/-- The block of a live allocation is the only one with its payload. -/
lemma ClientInv.block_unique {calls : List Call} {c : Client} {bs : List Blk}
    (hi : ClientInv T calls c bs) {a : Allocation} (ha : a ∈ c.live) {b : Blk} (hb : b ∈ bs)
    (hp : b.payload T.headerSize = a.ptr) : b.owner = some a.owner := by
  obtain ⟨d, hd, hdp, hdo, -⟩ := hi.live a ha
  unfold Block.payload at hp hdp
  rw [hi.heap.tiles.eq_of_addr (headerSize_pos T) hb hd (by omega), hdo]

lemma step_alloc {calls : List Call} {c : Client} {bs : List Blk} (hi : ClientInv T calls c bs)
    {size : ℕ} {owner : UInt16} {h : Heap} {p : ℕ}
    (hrun : osAllocatorAlloc T c.heap size owner.toNat = some (h, p)) {live : List Allocation}
    (hlive : live = if p = 0 then c.live else ⟨p, size, owner.toNat⟩ :: c.live) :
    ∃ bs', ClientInv T (.alloc size owner :: calls) ⟨h, live⟩ bs' ∧ Kept T c ⟨h, live⟩ bs bs' := by
  have howner := toNat_le_uint16Max owner
  rcases alloc_cases hi.heap size howner with hfail | ⟨pre, b, post, n, rfl, hfree, hlt, hn, hfit, hok⟩
  · rw [hfail, Option.some.injEq, Prod.mk.injEq] at hrun
    obtain ⟨rfl, rfl⟩ := hrun
    rw [if_pos rfl] at hlive
    subst hlive
    exact ⟨bs, hi.shrink (heapInv_of_ctl hi.heap rfl rfl rfl rfl) (List.Sublist.refl _)
      fun _ _ b hb _ _ => hb, fun _ _ _ b hb _ => ⟨hb, fun _ _ _ => rfl⟩⟩
  · rw [hok, Option.some.injEq, Prod.mk.injEq] at hrun
    obtain ⟨rfl, rfl⟩ := hrun
    obtain ⟨hn8, hn'⟩ := alignUpSize_mod hn
    obtain ⟨hinv, -, hmem⟩ := takeBlock_spec hi.heap hfree hn8 hn' hfit hlt
    obtain ⟨rest, hcarve⟩ := carve_eq (T := T) b n owner.toNat
    have hpos := hi.heap.addr_pos (b := b) (by simp)
    have hne : b.payload T.headerSize ≠ 0 := by unfold Block.payload; omega
    rw [if_neg hne] at hlive
    subst hlive
    set bs' := pre ++ (carve T b n owner.toNat ++ post) with hbs'
    -- a block other than the free one that was carved is still there
    have hkeep : ∀ d ∈ pre ++ b :: post, d.owner ≠ none → d ∈ bs' := by
      intro d hd hdo
      simp only [List.mem_append, List.mem_cons] at hd
      rcases hd with hd | rfl | hd
      · simp [hbs', hd]
      · exact absurd hfree hdo
      · simp [hbs', hd]
    have hnew : (⟨b.addr, carvedCapacity T b n, some owner.toNat⟩ : Blk) ∈ bs' := by
      simp [hbs', hcarve]
    have hcap : n ≤ carvedCapacity T b n := by
      unfold carvedCapacity
      split <;> omega
    refine ⟨bs', ⟨hinv, fun a ha => ?_, ?_⟩, fun a ha _ d hd hdp => ?_⟩
    · rcases List.mem_cons.mp ha with rfl | ha
      · refine ⟨_, hnew, rfl, rfl, fun hu => ?_⟩
        exact (le_of_unclipped hn (hu _ (List.mem_cons_self ..))).trans hcap
      · obtain ⟨d, hd, hdp, hdo, hsize⟩ := hi.live a ha
        exact ⟨d, hkeep d hd (by simp [hdo]), hdp, hdo, fun hu => hsize fun e he => hu e (by simp [he])⟩
    · refine List.pairwise_cons.mpr ⟨fun a ha heq => ?_, hi.distinct⟩
      have hbo := hi.block_unique ha (b := b) (by simp) heq
      rw [hfree] at hbo
      simp at hbo
    · have hd' := hkeep d hd (by simp [hi.block_unique ha hd hdp])
      exact ⟨hd', fun x hx hx' => hmem x (outside_of_payload hinv.tiles hd' hx hx')⟩

lemma step_free {calls : List Call} {c : Client} {bs : List Blk} (hi : ClientInv T calls c bs)
    {ptr : ℕ} {owner : UInt16} {h : Heap} {ok : Bool}
    (hrun : osAllocatorFree T c.heap ptr owner.toNat = some (h, ok)) {live : List Allocation}
    (hlive : live = if ok then c.live.filter fun a => a.ptr ≠ ptr else c.live) :
    ∃ bs', ClientInv T (.free ptr owner :: calls) ⟨h, live⟩ bs' ∧ Kept T c ⟨h, live⟩ bs bs' := by
  have hsub : live.Sublist c.live := by
    rw [hlive]
    split
    · exact List.filter_sublist
    · exact List.Sublist.refl _
  rcases free_cases hi.heap ptr owner.toNat with ⟨-, hnull⟩ | ⟨-, hbad⟩ | ⟨pre, b, post, rfl, hown, rfl⟩
  · rw [hnull, Option.some.injEq, Prod.mk.injEq] at hrun
    obtain ⟨rfl, rfl⟩ := hrun
    exact ⟨bs, hi.shrink hi.heap hsub fun _ _ b hb _ _ => hb,
      fun _ _ _ b hb _ => ⟨hb, fun _ _ _ => rfl⟩⟩
  · rw [hbad, Option.some.injEq, Prod.mk.injEq] at hrun
    obtain ⟨rfl, rfl⟩ := hrun
    exact ⟨bs, hi.shrink (heapInv_of_ctl hi.heap rfl rfl rfl rfl) hsub fun _ _ b hb _ _ => hb,
      fun _ _ _ b hb _ => ⟨hb, fun _ _ _ => rfl⟩⟩
  · obtain ⟨h', hacc, hinv, -, hmem⟩ := free_accepted hi.heap hown
    rw [hacc, Option.some.injEq, Prod.mk.injEq] at hrun
    obtain ⟨rfl, rfl⟩ := hrun
    rw [if_pos rfl] at hlive
    have hkeep : ∀ a ∈ live, ∀ d ∈ pre ++ b :: post, d.payload T.headerSize = a.ptr →
        d.owner = some a.owner → d ∈ coalesce T.headerSize (pre ++ release b :: post) := by
      intro a ha d hd hdp hdo
      rw [hlive, List.mem_filter] at ha
      refine mem_coalesce ?_ (by simp [hdo])
      simp only [List.mem_append, List.mem_cons] at hd ⊢
      rcases hd with hd | rfl | hd
      · exact Or.inl hd
      · exact absurd hdp.symm (by simpa using ha.2)
      · exact Or.inr (Or.inr hd)
    refine ⟨_, hi.shrink hinv hsub hkeep, fun a ha ha' d hd hdp => ?_⟩
    exact ⟨hkeep a ha' d hd hdp (hi.block_unique ha hd hdp),
      fun x hx hx' => hmem x (outside_of_payload hi.heap.tiles hd hx hx')⟩

lemma step_releaseOwner {calls : List Call} {c : Client} {bs : List Blk}
    (hi : ClientInv T calls c bs) {owner : UInt16} {h : Heap} {released : ℕ}
    (hrun : osAllocatorReleaseOwner T c.heap owner.toNat = some (h, released))
    {live : List Allocation} (hlive : live = c.live.filter fun a => a.owner ≠ owner.toNat) :
    ∃ bs', ClientInv T (.releaseOwner owner :: calls) ⟨h, live⟩ bs' ∧
      Kept T c ⟨h, live⟩ bs bs' := by
  obtain ⟨h', hrel, hinv, -, hmem, -⟩ := releaseOwner_spec hi.heap owner.toNat
  rw [hrel, Option.some.injEq, Prod.mk.injEq] at hrun
  obtain ⟨rfl, rfl⟩ := hrun
  have hkeep : ∀ a ∈ live, ∀ d ∈ bs, d.payload T.headerSize = a.ptr →
      d.owner = some a.owner → d ∈ coalesce T.headerSize (bs.map (surrender owner.toNat)) := by
    intro a ha d hd _ hdo
    rw [hlive, List.mem_filter] at ha
    have hsur : surrender owner.toNat d = d := by
      rw [surrender, if_neg]
      rw [hdo, Option.some.injEq]
      simpa using ha.2
    exact mem_coalesce (List.mem_map.mpr ⟨d, hd, hsur⟩) (by simp [hdo])
  refine ⟨_, hi.shrink hinv (by rw [hlive]; exact List.filter_sublist) hkeep,
    fun a ha ha' d hd hdp => ?_⟩
  exact ⟨hkeep a ha' d hd hdp (hi.block_unique ha hd hdp),
    fun x hx hx' => hmem x (outside_of_payload hi.heap.tiles hd hx hx')⟩

/-- A write inside a live payload touches no header. -/
lemma step_write {calls : List Call} {c : Client} {bs : List Blk} (hi : ClientInv T calls c bs)
    {addr : ℕ} {value : UInt8} {a : Allocation} (ha : a ∈ c.live) (hlo : a.ptr ≤ addr)
    (hhi : addr < a.ptr + extent T c.heap a) :
    ClientInv T (.write addr value :: calls)
      { c with heap := { c.heap with mem := Function.update c.heap.mem addr value } } bs := by
  obtain ⟨b, hb, hp, -, -⟩ := hi.live a ha
  have haddr : a.ptr - T.headerSize = b.addr := by unfold Block.payload at hp; omega
  rw [extent, haddr, hi.heap.get_capacity hb] at hhi
  have hout : Outside T.headerSize bs addr :=
    outside_of_payload hi.heap.tiles hb (by omega)
      (by unfold Block.payload at hp; unfold Block.stop; omega)
  refine hi.shrink (heapInv_congr hi.heap fun x hx => ?_) (List.Sublist.refl _)
    fun _ _ b hb _ _ => hb
  have hne : x ≠ addr := fun heq => hx (by rwa [heq])
  exact Function.update_of_ne hne _ _

/-- **One call** keeps the invariant, and a call of the allocator keeps what stays live. -/
lemma Step.inv {calls : List Call} {c c' : Client} {call : Call} {bs : List Blk}
    (hi : ClientInv T calls c bs) (hs : Step T c call c') :
    ∃ bs', ClientInv T (call :: calls) c' bs' ∧ (¬call.IsWrite → Kept T c c' bs bs') := by
  cases hs with
  | alloc hrun =>
    obtain ⟨bs', hinv, hk⟩ := step_alloc hi hrun rfl
    exact ⟨bs', hinv, fun _ => hk⟩
  | free hrun =>
    obtain ⟨bs', hinv, hk⟩ := step_free hi hrun rfl
    exact ⟨bs', hinv, fun _ => hk⟩
  | releaseOwner hrun =>
    obtain ⟨bs', hinv, hk⟩ := step_releaseOwner hi hrun rfl
    exact ⟨bs', hinv, fun _ => hk⟩
  | write ha hlo hhi => exact ⟨bs, step_write hi ha hlo hhi, fun hw => absurd trivial hw⟩

/-- **Every history** keeps the invariant. -/
lemma History.inv {m : Mem} {arena arenaSize : ℕ} {calls : List Call} {c : Client}
    (hh : History T m arena arenaSize calls c) : ∃ bs, ClientInv T calls c bs := by
  induction hh with
  | init hrun =>
    rcases osAllocatorInit_eq (T := T) m arena arenaSize with ⟨m', hf⟩ | ⟨a, z, hok, -, -, hinv⟩
    · rw [hf] at hrun
      simp at hrun
    · rw [hok, Prod.mk.injEq] at hrun
      obtain ⟨rfl, -⟩ := hrun
      exact ⟨_, hinv, by simp, List.Pairwise.nil⟩
  | call _ hs ih =>
    obtain ⟨bs, hi⟩ := ih
    obtain ⟨bs', hi', -⟩ := hs.inv hi
    exact ⟨bs', hi'⟩

/-! ### What holds after every history -/

/-- **The representation invariant**, and that no call fails after it has changed the arena:
what a failing call leaves is the heap it was given, with the failure counted. -/
structure HeapSound (T : Target) (h : Heap) : Prop where
  valid : blockChainValid T h = true
  tiles : Tiles T.headerSize h.ctl.heapBegin (blocks T h) h.ctl.heapEnd
  capacity : ∀ b ∈ blocks T h, 8 ≤ b.capacity ∧ b.capacity % 8 = 0
  separated : Separated (blocks T h)
  cursor : ∃ b ∈ blocks T h, b.addr = h.ctl.nextFit
  alloc : ∀ (size : ℕ) (owner : UInt16), ∃ h' p,
    osAllocatorAlloc T h size owner.toNat = some (h', p) ∧ (p = 0 → h' = incFailed h)
  free : ∀ (ptr : ℕ) (owner : UInt16), ∃ h' ok,
    osAllocatorFree T h ptr owner.toNat = some (h', ok) ∧ (ok = false → h' = incInvalid h)
  releaseOwner : ∀ owner : UInt16, ∃ h' released,
    osAllocatorReleaseOwner T h owner.toNat = some (h', released) ∧ (released = 0 → h' = h)

lemma heapSound_of_inv {h : Heap} {bs : List Blk} (hi : HeapInv T h bs) : HeapSound T h := by
  have hbs := blocks_eq hi
  refine ⟨hi.valid, ?_, ?_, ?_, ?_, fun size owner => ?_, fun ptr owner => ?_, fun owner => ?_⟩
  · rw [hbs]; exact hi.tiles
  · rw [hbs]; exact fun b hb => ⟨hi.minimum b hb, hi.aligned b hb⟩
  · rw [hbs]; exact hi.separated
  · rw [hbs]; exact hi.cursor
  · have howner := toNat_le_uint16Max owner
    rcases alloc_cases hi size howner with hfail | ⟨pre, b, post, n, rfl, -, -, -, -, hok⟩
    · exact ⟨_, _, hfail, fun _ => rfl⟩
    · have hpos := hi.addr_pos (b := b) (by simp)
      exact ⟨_, _, hok, fun h0 => by unfold Block.payload at h0; omega⟩
  · rcases free_cases hi ptr owner.toNat with ⟨-, hnull⟩ | ⟨-, hbad⟩ | ⟨pre, b, post, rfl, hown, rfl⟩
    · exact ⟨_, _, hnull, by simp⟩
    · exact ⟨_, _, hbad, fun _ => rfl⟩
    · obtain ⟨h', hacc, -⟩ := free_accepted hi hown
      exact ⟨_, _, hacc, by simp⟩
  · obtain ⟨h', hrel, -, -, -, hsame⟩ := releaseOwner_spec hi owner.toNat
    exact ⟨_, _, hrel, hsame⟩

/-- **The allocator is sound after every history** of calls and client writes. -/
theorem history_sound {m : Mem} {arena arenaSize : ℕ} {calls : List Call} {c : Client}
    (hh : History T m arena arenaSize calls c) : HeapSound T c.heap := by
  obtain ⟨bs, hi⟩ := hh.inv
  exact heapSound_of_inv hi.heap

/-- A client that has just started, and its first allocation. -/
lemma History.start {m : Mem} {arena arenaSize : ℕ}
    (hok : (osAllocatorInit T m arena arenaSize).2 = true) :
    History T m arena arenaSize [] ⟨(osAllocatorInit T m arena arenaSize).1, []⟩ :=
  .init (Prod.ext rfl hok)

lemma History.start_alloc {m : Mem} {arena arenaSize p : ℕ}
    (hok : (osAllocatorInit T m arena arenaSize).2 = true) {size : ℕ} {owner : UInt16}
    (hp : (osAllocatorAlloc T (osAllocatorInit T m arena arenaSize).1 size owner.toNat).map
      Prod.snd = some p) (hne : p ≠ 0) :
    ∃ h, osAllocatorAlloc T (osAllocatorInit T m arena arenaSize).1 size owner.toNat =
        some (h, p) ∧
      History T m arena arenaSize [.alloc size owner] ⟨h, [⟨p, size, owner.toNat⟩]⟩ := by
  obtain ⟨⟨h, q⟩, hrun, hq⟩ := Option.map_eq_some_iff.mp hp
  simp only at hq
  subst hq
  have hs := Step.alloc (c := ⟨(osAllocatorInit T m arena arenaSize).1, []⟩) hrun
  rw [if_neg hne] at hs
  exact ⟨h, hrun, .call (History.start hok) hs⟩

/-- A call other than a write, carried out. -/
def carryOut (T : Target) (c : Client) : Call → Option Client
  | .alloc size owner => (osAllocatorAlloc T c.heap size owner.toNat).map fun r =>
    ⟨r.1, if r.2 = 0 then c.live else ⟨r.2, size, owner.toNat⟩ :: c.live⟩
  | .free ptr owner => (osAllocatorFree T c.heap ptr owner.toNat).map fun r =>
    ⟨r.1, if r.2 then c.live.filter fun a => a.ptr ≠ ptr else c.live⟩
  | .releaseOwner owner => (osAllocatorReleaseOwner T c.heap owner.toNat).map fun r =>
    ⟨r.1, c.live.filter fun a => a.owner ≠ owner.toNat⟩
  | .write _ _ => none

lemma step_of_carryOut {c c' : Client} {call : Call} (h : carryOut T c call = some c') :
    Step T c call c' := by
  cases call with
  | alloc size owner =>
    obtain ⟨⟨heap, p⟩, hrun, rfl⟩ := Option.map_eq_some_iff.mp h
    exact .alloc hrun
  | free ptr owner =>
    obtain ⟨⟨heap, ok⟩, hrun, rfl⟩ := Option.map_eq_some_iff.mp h
    exact .free hrun
  | releaseOwner owner =>
    obtain ⟨⟨heap, released⟩, hrun, rfl⟩ := Option.map_eq_some_iff.mp h
    exact .releaseOwner hrun
  | write addr value => cases h

/-- **Calls carried out** one after the other extend a history. -/
lemma History.carriedOut {m : Mem} {arena arenaSize : ℕ} {past calls : List Call} {c c' : Client}
    (hh : History T m arena arenaSize past c) (h : calls.foldlM (carryOut T) c = some c') :
    History T m arena arenaSize (calls.reverse ++ past) c' := by
  induction calls generalizing past c with
  | nil =>
    obtain rfl := Option.some.inj h
    exact hh
  | cons call calls ih =>
    rw [List.foldlM_cons] at h
    obtain ⟨c₁, hcall, hrest⟩ := Option.bind_eq_some_iff.mp h
    rw [List.reverse_cons, List.append_assoc]
    exact ih (.call hh (step_of_carryOut hcall)) hrest

/-- Three allocations for two owners, the first of which is given back. -/
def sampleCalls : List Call :=
  [.alloc 20 1, .alloc 8 2, .alloc 16 1, .free 0x20001018 1]

/-- The client that has made these calls on a small firmware arena. -/
def sampleClient : Client :=
  (sampleCalls.foldlM (carryOut .arm32) ⟨(osAllocatorInit .arm32 (fun _ => 0) 0x20001000 256).1,
    []⟩).get (by decide +kernel)

lemma history_sample :
    History .arm32 (fun _ => 0) 0x20001000 256 sampleCalls.reverse sampleClient := by
  have hstart : History .arm32 (fun _ => 0) 0x20001000 256 []
      ⟨(osAllocatorInit .arm32 (fun _ => 0) 0x20001000 256).1, []⟩ :=
    History.start (by decide +kernel)
  have hrun : sampleCalls.foldlM (carryOut .arm32) ⟨(osAllocatorInit .arm32 (fun _ => 0) 0x20001000
      256).1, []⟩ = some sampleClient := (Option.some_get _).symm
  have hh := hstart.carriedOut hrun
  rwa [List.append_nil] at hh

/-- Two free blocks around two in use. -/
lemma blocks_sample : blocks .arm32 sampleClient.heap =
    [⟨0x20001000, 24, none⟩, ⟨0x20001030, 8, some 2⟩, ⟨0x20001050, 16, some 1⟩,
      ⟨0x20001078, 112, none⟩] := by
  decide +kernel

/-- One allocation on a small firmware arena. -/
theorem history_sound_alloc : ∃ c : Client,
    History .arm32 (fun _ => 0) 0x20001000 256 [.alloc 20 1] c ∧
      c.live = [⟨0x20001018, 20, 1⟩] ∧ HeapSound .arm32 c.heap := by
  obtain ⟨h, -, hh⟩ := @History.start_alloc .arm32 (fun _ => 0) 0x20001000 256 0x20001018
    (by decide +kernel) 20 1 (by decide +kernel) (by decide)
  exact ⟨_, hh, rfl, history_sound hh⟩

/-- What the client is promised of one live allocation. -/
structure Honoured (T : Target) (h : Heap) (a : Allocation) : Prop where
  aligned : a.ptr % 8 = 0
  inside : h.ctl.heapBegin ≤ a.ptr ∧ a.ptr + extent T h a ≤ h.ctl.heapEnd
  spans : a.size ≤ extent T h a
  header : ∀ b ∈ blocks T h,
    b.addr + T.headerSize ≤ a.ptr ∨ a.ptr + extent T h a ≤ b.addr

/-- The contract at one moment: every live allocation honoured, no two overlapping. -/
structure ContractHolds (T : Target) (c : Client) : Prop where
  each : ∀ a ∈ c.live, Honoured T c.heap a
  disjoint : c.live.Pairwise fun a a' =>
    a.ptr + extent T c.heap a ≤ a'.ptr ∨ a'.ptr + extent T c.heap a' ≤ a.ptr

/-- A call leaves the allocations that stay live where they are, with their bytes. -/
def Undisturbed (T : Target) (c c' : Client) : Prop :=
  ∀ a ∈ c.live, a ∈ c'.live →
    blockAt T c'.heap (a.ptr - T.headerSize) = blockAt T c.heap (a.ptr - T.headerSize) ∧
    blockAt T c'.heap (a.ptr - T.headerSize) ∈ blocks T c'.heap ∧
    ∀ x, a.ptr ≤ x → x < a.ptr + extent T c.heap a → c'.heap.mem x = c.heap.mem x

/-- The block of a live allocation, with what its header says. -/
lemma ClientInv.block {calls : List Call} {c : Client} {bs : List Blk}
    (hi : ClientInv T calls c bs) {a : Allocation} (ha : a ∈ c.live) :
    ∃ b ∈ bs, b.payload T.headerSize = a.ptr ∧ a.ptr - T.headerSize = b.addr ∧
      a.ptr + extent T c.heap a = b.stop T.headerSize ∧ extent T c.heap a = b.capacity := by
  obtain ⟨b, hb, hp, -, -⟩ := hi.live a ha
  have haddr : a.ptr - T.headerSize = b.addr := by unfold Block.payload at hp; omega
  have hext : extent T c.heap a = b.capacity := by
    rw [extent, haddr, hi.heap.get_capacity hb]
  refine ⟨b, hb, hp, haddr, ?_, hext⟩
  unfold Block.payload at hp
  unfold Block.stop
  omega

lemma ClientInv.contract {calls : List Call} {c : Client} {bs : List Blk}
    (hi : ClientInv T calls c bs) (hu : ∀ call ∈ calls, Unclipped T call) :
    ContractHolds T c := by
  have hhdr8 := headerSize_mod T
  have hhdr := headerSize_pos T
  refine ⟨fun a ha => ?_, ?_⟩
  · obtain ⟨b, hb, hp, haddr, hstop, hext⟩ := hi.block ha
    have hbd := hi.heap.tiles.bounds hb
    have hmod := hi.heap.addr_mod b hb
    refine ⟨?_, ⟨?_, ?_⟩, ?_, fun d hd => ?_⟩
    · unfold Block.payload at hp
      omega
    · unfold Block.payload at hp
      omega
    · rw [hstop]; exact hbd.2
    · obtain ⟨d, hd, hdp, -, hsize⟩ := hi.live a ha
      unfold Block.payload at hdp hp
      rw [hext, hi.heap.tiles.eq_of_addr hhdr hb hd (by omega)]
      exact hsize hu
    · rw [blocks_eq hi.heap] at hd
      rw [hstop, ← hp]
      rcases hi.heap.tiles.apart hb hd with rfl | hlt | hlt
      · exact Or.inl le_rfl
      · exact Or.inr hlt
      · unfold Block.stop at hlt
        unfold Block.payload
        omega
  · refine hi.distinct.imp_of_mem fun {a a'} ha ha' hne => ?_
    obtain ⟨b, hb, hp, -, hstop, -⟩ := hi.block ha
    obtain ⟨b', hb', hp', -, hstop', -⟩ := hi.block ha'
    rw [hstop, hstop']
    unfold Block.payload at hp hp'
    rcases hi.heap.tiles.apart hb hb' with rfl | hlt | hlt
    · omega
    · omega
    · omega

lemma ClientInv.undisturbed {calls : List Call} {c c' : Client} {bs bs' : List Blk} {call : Call}
    (hi : ClientInv T calls c bs) (hi' : ClientInv T (call :: calls) c' bs')
    (hk : Kept T c c' bs bs') : Undisturbed T c c' := by
  intro a ha ha'
  obtain ⟨b, hb, hp, haddr, hstop, -⟩ := hi.block ha
  obtain ⟨hb', hbytes⟩ := hk a ha ha' b hb hp
  rw [haddr, blockAt_eq hi.heap.toChained hb, blockAt_eq hi'.heap.toChained hb',
    blocks_eq hi'.heap, hstop, ← hp]
  exact ⟨rfl, hb', hbytes⟩

/-- **The contract with the client** over every history whose requests are not clipped. -/
theorem history_contract {m : Mem} {arena arenaSize : ℕ} {calls : List Call} {c : Client}
    (hh : History T m arena arenaSize calls c) (hu : ∀ call ∈ calls, Unclipped T call) :
    ContractHolds T c ∧
      ∀ call c', ¬call.IsWrite → Step T c call c' → Undisturbed T c c' := by
  obtain ⟨bs, hi⟩ := hh.inv
  refine ⟨hi.contract hu, fun call c' hw hs => ?_⟩
  obtain ⟨bs', hi', hk⟩ := hs.inv hi
  exact hi.undisturbed hi' (hk hw)

/-- The contract after one allocation on a small arena of a 64-bit host. -/
theorem history_contract_alloc : ∃ c : Client,
    History .host64 (fun _ => 0) 0x1000 512 [.alloc 20 1] c ∧
      c.live = [⟨0x1028, 20, 1⟩] ∧ ContractHolds .host64 c := by
  obtain ⟨h, -, hh⟩ := @History.start_alloc .host64 (fun _ => 0) 0x1000 512 0x1028
    (by decide +kernel) 20 1 (by decide +kernel) (by decide)
  refine ⟨_, hh, rfl, (history_contract hh fun call hc => ?_).1⟩
  rw [List.mem_singleton.mp hc]
  exact Or.inl (by decide)

/-- **A clipped request breaks the contract**: on a 64-bit host a request for 2^32 + 8 bytes is
given eight. -/
theorem clipped_request_short : ∃ c : Client,
    History .host64 (fun _ => 0) 0x1000 512 [.alloc 0x100000008 1] c ∧
      ¬ContractHolds .host64 c := by
  obtain ⟨h, hrun, hh⟩ := @History.start_alloc .host64 (fun _ => 0) 0x1000 512 0x1028
    (by decide +kernel) 0x100000008 1 (by decide +kernel) (by decide)
  have hext : (osAllocatorAlloc .host64 (osAllocatorInit .host64 (fun _ => 0) 0x1000 512).1
      0x100000008 (1 : UInt16).toNat).map
      (fun r => extent .host64 r.1 ⟨0x1028, 0x100000008, 1⟩) = some 8 := by decide +kernel
  refine ⟨_, hh, fun hc => ?_⟩
  have hspan := (hc.each _ (List.mem_singleton.mpr rfl)).spans
  rw [hrun, Option.map_some, Option.some.injEq] at hext
  have h8 : extent .host64 h ⟨0x1028, 0x100000008, UInt16.toNat 1⟩ = 8 := hext
  rw [h8] at hspan
  simp at hspan

end Aymos.HeapRun

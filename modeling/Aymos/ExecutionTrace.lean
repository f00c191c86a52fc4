import Aymos.Decoder
import Aymos.StreamCode
import Mathlib.Logic.Function.Basic

/-!
The execution traces that `tools/aymos_lab/signal_lab.py` reads.

An entry has no mark in front of it: where it ends follows from its opcode length alone. Indexing
raises here when the index is out of range, as it does in the source.
-/

namespace Aymos.ExecutionTrace

open LittleEndian Wire Decoder StreamCode

inductive Exception
  | signalLabError (message : String)
  | indexError
  deriving DecidableEq, Repr

def raise {α : Type} (message : String) : Except Exception α := .error (.signalLabError message)

/-- `data[i]`. -/
def item (data : List UInt8) (i : ℕ) : Except Exception UInt8 :=
  match data[i]? with
  | some byte => .ok byte
  | none => .error .indexError

/-- `bytes.hex`. -/
def hex (bytes : List UInt8) : String := String.join (bytes.map fun byte => hexadecimal 2 byte.toNat)

def maxExecutionEntries : ℕ := 2000000

/-- `b"ReTrace\x04"`. -/
def magic : List UInt8 := ascii ['R', 'e', 'T', 'r', 'a', 'c', 'e'] ++ [4]

/-- `b"thumb cortex-m4"`. -/
def thumbTarget : List UInt8 :=
  ascii ['t', 'h', 'u', 'm', 'b', ' ', 'c', 'o', 'r', 't', 'e', 'x', '-', 'm', '4']

/-- The opcodes that are expected at some addresses. -/
abbrev Watches := ℤ → Option (List UInt8)

/-- What the loop keeps. The counter of hits is zero at an address without any. -/
@[ext]
structure ScanState where
  offset : ℕ
  entryCount : ℕ
  watchHits : ℤ → ℕ
  functionHits : ℕ

/-- The address is in the function of `function_range`. -/
def inFunction (functionRange : ℤ × ℤ) (pc : ℕ) : Bool :=
  functionRange.1 ≤ pc && pc < functionRange.1 + functionRange.2

/-- The end of the loop's body. -/
def countEntry (functionRange : ℤ × ℤ) (s : ScanState) (offset pc : ℕ) (watched : Bool) : ScanState where
  offset := offset
  entryCount := s.entryCount + 1
  watchHits := if watched then Function.update s.watchHits pc (s.watchHits pc + 1) else s.watchHits
  functionHits := if inFunction functionRange pc then s.functionHits + 1 else s.functionHits

/-- The body of the loop of `_parse_execution_entries`. -/
def parseEntry (data : List UInt8) (watches : Watches) (functionRange : ℤ × ℤ) (s : ScanState) :
    Except Exception ScanState :=
  if s.entryCount ≥ maxExecutionEntries then
    raise s!"execution entry count exceeds {maxExecutionEntries}"
  else if data.length - s.offset < 6 then raise "execution trace entry is truncated"
  else do
    let pc := field data s.offset 4
    let opcodeLength ← item data (s.offset + 4)
    let offset := s.offset + 5
    if (opcodeLength.toNat ≠ 2 ∧ opcodeLength.toNat ≠ 4) ∨
        data.length - offset < opcodeLength.toNat + 1 then
      raise "execution trace has an invalid Thumb opcode length"
    else do
      let opcode := (data.drop offset).take opcodeLength.toNat
      let offset := offset + opcodeLength.toNat
      let additionalType ← item data offset
      let offset := offset + 1
      if additionalType ≠ 0 then raise "execution trace has unexpected additional data"
      else
        match watches pc with
        | some expectedOpcode =>
          if opcode ≠ expectedOpcode then
            raise (s!"executed opcode mismatch at 0x{hexadecimal 8 pc}: " ++
              s!"got {hex opcode}, expected {hex expectedOpcode}")
          else .ok (countEntry functionRange s offset pc true)
        | none => .ok (countEntry functionRange s offset pc false)

lemma item_of_some {data : List UInt8} {i : ℕ} {byte : UInt8} (h : data[i]? = some byte) :
    item data i = .ok byte := by
  rw [item, h]

/-! ### Entries -/

/-- An entry of a trace. -/
@[ext]
structure Entry where
  pc : ℕ
  opcode : List UInt8
  pc_lt : pc < 256 ^ 4
  opcode_length : opcode.length = 2 ∨ opcode.length = 4

/-- An entry as bytes. The last one says that there is no additional data. -/
def Entry.code (e : Entry) : List UInt8 :=
  toBytes 4 e.pc ++ UInt8.ofNat e.opcode.length :: (e.opcode ++ [0])

lemma Entry.opcodeByte (e : Entry) : (UInt8.ofNat e.opcode.length).toNat = e.opcode.length := by
  rcases e.opcode_length with h | h <;> rw [h] <;> rfl

lemma Entry.code_length (e : Entry) : e.code.length = 6 + e.opcode.length := by
  simp only [Entry.code, List.length_append, toBytes_length, List.length_cons, List.length_nil]
  omega

/-- **An entry tells where it ends.** -/
theorem code_delimited : Delimited Entry.code where
  ne_nil e h := by
    have := congrArg List.length h
    rw [e.code_length, List.length_nil] at this
    omega
  cancel e e' t u h := by
    simp only [Entry.code, List.append_assoc, List.cons_append, List.nil_append] at h
    obtain ⟨hpc, h⟩ := List.append_inj h (by rw [toBytes_length, toBytes_length])
    injection h with hlen h
    have hlen' : e.opcode.length = e'.opcode.length := by
      rw [← e.opcodeByte, ← e'.opcodeByte, hlen]
    obtain ⟨hopcode, -⟩ := List.append_inj h hlen'
    refine Entry.ext ?_ hopcode
    rw [← ofBytes_toBytes_of_lt e.pc_lt, ← ofBytes_toBytes_of_lt e'.pc_lt, hpc]

/-! ### A step -/

variable {data : List UInt8} {watches : Watches} {functionRange : ℤ × ℤ} {s s' : ScanState}

/-- What the body reads of an entry at a position. -/
structure ReadsEntry (data : List UInt8) (offset : ℕ) (e : Entry) : Prop where
  pc : field data offset 4 = e.pc
  opcodeLength : data[offset + 4]? = some (UInt8.ofNat e.opcode.length)
  opcode : (data.drop (offset + 5)).take e.opcode.length = e.opcode
  additionalType : data[offset + 5 + e.opcode.length]? = some 0

lemma ReadsEntry.lt {offset : ℕ} {e : Entry} (h : ReadsEntry data offset e) :
    offset + 5 + e.opcode.length < data.length :=
  (List.getElem?_eq_some_iff.mp h.additionalType).1

/-- **The body reads an entry** where its bytes come next. -/
lemma readsEntry_iff {offset : ℕ} {e : Entry} :
    ReadsEntry data offset e ↔ e.code <+: data.drop offset := by
  constructor
  · intro h
    have hlt := h.lt
    obtain ⟨hlt', hlength⟩ := List.getElem?_eq_some_iff.mp h.opcodeLength
    obtain ⟨_, hlast⟩ := List.getElem?_eq_some_iff.mp h.additionalType
    refine ⟨data.drop (offset + 5 + e.opcode.length + 1), ?_⟩
    have hpc : data.drop offset = toBytes 4 e.pc ++ data.drop (offset + 4) := by
      rw [← h.pc]
      exact drop_eq_field 4 (by omega)
    have hopcode : data.drop (offset + 5) =
        e.opcode ++ data.drop (offset + 5 + e.opcode.length) := by
      calc data.drop (offset + 5)
          = (data.drop (offset + 5)).take e.opcode.length ++
            (data.drop (offset + 5)).drop e.opcode.length := (List.take_append_drop ..).symm
        _ = _ := by rw [h.opcode, List.drop_drop]
    rw [hpc, List.drop_eq_getElem_cons hlt', hlength, hopcode, List.drop_eq_getElem_cons hlt, hlast,
      Entry.code]
    simp only [List.append_assoc, List.cons_append, List.nil_append]
  · rintro ⟨rest, h⟩
    simp only [Entry.code, List.append_assoc, List.cons_append, List.nil_append] at h
    have hlater : data.drop (offset + 5) = e.opcode ++ 0 :: rest := by
      rw [← List.drop_drop, ← h, List.append_cons]
      exact List.drop_left' (by rw [List.length_append, toBytes_length]; rfl)
    refine ⟨?_, ?_, ?_, ?_⟩
    · rw [field, ← h, List.take_left' (toBytes_length 4 e.pc), ofBytes_toBytes_of_lt e.pc_lt]
    · rw [← List.getElem?_drop, ← h, List.getElem?_append_right (toBytes_length 4 e.pc).le,
        toBytes_length]
      rfl
    · rw [hlater, List.take_left]
    · rw [← List.getElem?_drop, hlater, List.getElem?_append_right le_rfl, Nat.sub_self]
      rfl

/-- The opcode at a watched address is the one that is expected there. -/
def Agrees (watches : Watches) (e : Entry) : Prop := ∀ opcode ∈ watches e.pc, e.opcode = opcode

instance (watches : Watches) (e : Entry) : Decidable (Agrees watches e) :=
  inferInstanceAs (Decidable (∀ opcode ∈ watches e.pc, e.opcode = opcode))

/-- What the loop does with an entry. -/
def takeEntry (watches : Watches) (functionRange : ℤ × ℤ) (s : ScanState) (e : Entry) :
    Option ScanState :=
  if s.entryCount < maxExecutionEntries ∧ Agrees watches e then
    some (countEntry functionRange s (s.offset + e.code.length) e.pc (watches e.pc).isSome)
  else none

/-- A turn of the loop at an entry takes it, or raises. -/
lemma parseEntry_of_reads (watches : Watches) (functionRange : ℤ × ℤ) {e : Entry}
    (h : ReadsEntry data s.offset e) :
    (∃ s', takeEntry watches functionRange s e = some s' ∧
        parseEntry data watches functionRange s = .ok s') ∨
      (takeEntry watches functionRange s e = none ∧
        ∃ message, parseEntry data watches functionRange s = .error (.signalLabError message)) := by
  have hlt := h.lt
  have hlong : ¬ data.length - s.offset < 6 := by omega
  rw [parseEntry, takeEntry]
  by_cases hcount : s.entryCount ≥ maxExecutionEntries
  · rw [if_pos hcount, if_neg fun h => absurd h.1 (not_lt.mpr hcount)]
    exact Or.inr ⟨rfl, _, rfl⟩
  rw [if_neg hcount, if_neg hlong]
  have hopcode : ¬ ((e.opcode.length ≠ 2 ∧ e.opcode.length ≠ 4) ∨
      data.length - (s.offset + 5) < e.opcode.length + 1) := by
    rcases e.opcode_length with hl | hl <;> omega
  simp only [h.pc, item_of_some h.opcodeLength, bind, Except.bind, e.opcodeByte, if_neg hopcode,
    h.opcode, item_of_some h.additionalType]
  rw [if_neg (by decide : ¬ (0 : UInt8) ≠ 0)]
  have hoffset : s.offset + 5 + e.opcode.length + 1 = s.offset + e.code.length := by
    rw [e.code_length]
    omega
  rw [hoffset]
  cases hwatch : watches e.pc with
  | none =>
    have hagrees : Agrees watches e := fun opcode h => by rw [hwatch] at h; cases h
    rw [if_pos ⟨not_le.mp hcount, hagrees⟩]
    exact Or.inl ⟨_, rfl, rfl⟩
  | some expectedOpcode =>
    have hagrees : Agrees watches e ↔ e.opcode = expectedOpcode := by
      rw [Agrees, hwatch]
      exact ⟨fun h => h _ rfl, fun h opcode hmem => by cases hmem; exact h⟩
    dsimp only
    by_cases heq : e.opcode = expectedOpcode
    · rw [if_pos ⟨not_le.mp hcount, hagrees.mpr heq⟩]
      rw [if_neg (not_not.mpr heq)]
      exact Or.inl ⟨_, rfl, rfl⟩
    · rw [if_neg fun h => heq (hagrees.mp h.2), if_pos heq]
      exact Or.inr ⟨rfl, _, rfl⟩

/-- A turn of the loop where no entry can be read raises. -/
lemma parseEntry_of_not_reads (h : ∀ e, ¬ ReadsEntry data s.offset e) :
    ∃ message, parseEntry data watches functionRange s = .error (.signalLabError message) := by
  rw [parseEntry]
  by_cases hcount : s.entryCount ≥ maxExecutionEntries
  · rw [if_pos hcount]
    exact ⟨_, rfl⟩
  by_cases hlong : data.length - s.offset < 6
  · rw [if_neg hcount, if_pos hlong]
    exact ⟨_, rfl⟩
  rw [if_neg hcount, if_neg hlong]
  have hlength : data[s.offset + 4]? = some data[s.offset + 4] := List.getElem?_eq_getElem (by omega)
  generalize data[s.offset + 4] = opcodeLength at hlength
  simp only [item_of_some hlength, bind, Except.bind]
  by_cases hopcode : (opcodeLength.toNat ≠ 2 ∧ opcodeLength.toNat ≠ 4) ∨
      data.length - (s.offset + 5) < opcodeLength.toNat + 1
  · rw [if_pos hopcode]
    exact ⟨_, rfl⟩
  rw [if_neg hopcode]
  have hlast : data[s.offset + 5 + opcodeLength.toNat]? =
      some data[s.offset + 5 + opcodeLength.toNat] := List.getElem?_eq_getElem (by omega)
  generalize data[s.offset + 5 + opcodeLength.toNat] = additionalType at hlast
  simp only [item_of_some hlast]
  by_cases hadditional : additionalType = 0
  · -- then there is an entry to read
    obtain ⟨opcode, htake⟩ : ∃ opcode, (data.drop (s.offset + 5)).take opcodeLength.toNat = opcode :=
      ⟨_, rfl⟩
    have hlen : opcode.length = opcodeLength.toNat := by
      rw [← htake, List.length_take, List.length_drop]
      omega
    refine absurd ?_ (h ⟨field data s.offset 4, opcode, field_lt .., by omega⟩)
    refine ⟨rfl, ?_, ?_, ?_⟩
    · rw [hlen, UInt8.ofNat_toNat]
      exact hlength
    · rw [← hlen] at htake
      exact htake
    · rw [hlen, hlast, hadditional]
  · rw [if_pos hadditional]
    exact ⟨_, rfl⟩

/-- **A turn of the loop takes the entry that comes next, or raises `SignalLabError`.** -/
lemma parseEntry_cases (data : List UInt8) (watches : Watches) (functionRange : ℤ × ℤ)
    (s : ScanState) :
    (∃ e s', e.code <+: data.drop s.offset ∧ takeEntry watches functionRange s e = some s' ∧
        parseEntry data watches functionRange s = .ok s') ∨
      ∃ message, parseEntry data watches functionRange s = .error (.signalLabError message) := by
  by_cases hreads : ∃ e, ReadsEntry data s.offset e
  · obtain ⟨e, he⟩ := hreads
    rcases parseEntry_of_reads watches functionRange he with
      ⟨s', htake, hok⟩ | ⟨-, herror⟩
    · exact Or.inl ⟨e, s', readsEntry_iff.mp he, htake, hok⟩
    · exact Or.inr herror
  · exact Or.inr (parseEntry_of_not_reads (not_exists.mp hreads))

lemma parseEntry_ok_iff : parseEntry data watches functionRange s = .ok s' ↔
    ∃ e : Entry, e.code <+: data.drop s.offset ∧ takeEntry watches functionRange s e = some s' := by
  constructor
  · intro h
    rcases parseEntry_cases data watches functionRange s with
      ⟨e, t, hcode, htake, hok⟩ | ⟨message, herror⟩
    · rw [hok] at h
      cases h
      exact ⟨e, hcode, htake⟩
    · rw [herror] at h
      cases h
  · rintro ⟨e, hcode, htake⟩
    rcases parseEntry_of_reads watches functionRange
      (readsEntry_iff.mpr hcode) with ⟨t, ht, hok⟩ | ⟨hnone, -⟩
    · rw [htake] at ht
      cases ht
      exact hok
    · rw [hnone] at htake
      cases htake

/-- A turn of the loop raises nothing but `SignalLabError`. -/
lemma parseEntry_raises {e : Exception} (h : parseEntry data watches functionRange s = .error e) :
    ∃ message, e = .signalLabError message := by
  rcases parseEntry_cases data watches functionRange s with ⟨-, t, -, -, hok⟩ | ⟨message, herror⟩
  · rw [hok] at h
    cases h
  · rw [herror] at h
    cases h
    exact ⟨message, rfl⟩

lemma takeEntry_offset {e : Entry} (h : takeEntry watches functionRange s e = some s') :
    s'.offset = s.offset + e.code.length := by
  rw [takeEntry] at h
  split at h
  · cases h
    rfl
  · cases h

lemma parseEntry_advances (h : parseEntry data watches functionRange s = .ok s') :
    s.offset < s'.offset := by
  obtain ⟨e, -, htake⟩ := parseEntry_ok_iff.mp h
  rw [takeEntry_offset htake, e.code_length]
  omega

/-! ### The parser -/

/-- The loop, from the end of the header. -/
def scanEntries (data : List UInt8) (watches : Watches) (functionRange : ℤ × ℤ) (offset : ℕ) :
    Except Exception ScanState :=
  scan data.length ScanState.offset (parseEntry data watches functionRange)
    (fun _ _ _ h => parseEntry_advances h) ⟨offset, 0, fun _ => 0, 0⟩

/-- `_parse_execution_entries`. -/
def parseExecutionEntries (data : List UInt8) (watches : Watches) (functionRange : ℤ × ℤ) :
    Except Exception (ℕ × (ℤ → ℕ) × ℕ) :=
  if !magic.isPrefixOf data then raise "execution trace is not ReTrace version 4"
  else if data.length < 12 then raise "execution trace header is truncated"
  else do
    let pcWidth ← item data 8
    let hasOpcodes ← item data 9
    let usesMultiple ← item data 10
    let nameLength ← item data 11
    let offset := 12 + nameLength.toNat
    if offset > data.length then raise "execution trace target name is truncated"
    else
      let target := (data.drop 12).take (offset - 12)
      if (pcWidth, hasOpcodes, usesMultiple, target) ≠ (4, 1, 0, thumbTarget) then
        raise "execution trace target must be single-ISA thumb cortex-m4 PCAndOpcode"
      else do
        let s ← scanEntries data watches functionRange offset
        .ok (s.entryCount, s.watchHits, s.functionHits)

/-- The header of a trace of 4-byte addresses with opcodes, for the one target. -/
def header : List UInt8 := magic ++ [4, 1, 0, 15] ++ thumbTarget

lemma parse_of_header (h : header <+: data) :
    parseExecutionEntries data watches functionRange = (do
      let s ← scanEntries data watches functionRange header.length
      .ok (s.entryCount, s.watchHits, s.functionHits)) := by
  obtain ⟨rest, rfl⟩ := h
  have hmagic : magic.isPrefixOf (header ++ rest) = true :=
    List.isPrefixOf_iff_prefix.mpr ⟨[4, 1, 0, 15] ++ thumbTarget ++ rest, by
      simp only [header, List.append_assoc]⟩
  have hlength : 27 ≤ (header ++ rest).length := by
    rw [List.length_append]
    exact Nat.le_add_right 27 rest.length
  have hpcWidth : item (header ++ rest) 8 = .ok 4 := rfl
  have hhasOpcodes : item (header ++ rest) 9 = .ok 1 := rfl
  have husesMultiple : item (header ++ rest) 10 = .ok 0 := rfl
  have hnameLength : item (header ++ rest) 11 = .ok 15 := rfl
  have htarget : ((header ++ rest).drop 12).take 15 = thumbTarget := rfl
  rw [parseExecutionEntries, hmagic]
  simp only [Bool.not_true, Bool.false_eq_true, if_false,
    if_neg (by omega : ¬ (header ++ rest).length < 12), hpcWidth, hhasOpcodes, husesMultiple,
    hnameLength, bind, Except.bind]
  rw [if_neg (show ¬ 12 + (15 : UInt8).toNat > (header ++ rest).length from not_lt.mpr hlength)]
  rw [if_neg (not_not.mpr (show ((4 : UInt8), (1 : UInt8), (0 : UInt8), _) = _ by
    rw [show 12 + (15 : UInt8).toNat - 12 = 15 from rfl, htarget]))]
  rfl

lemma parse_of_not_header (watches : Watches) (functionRange : ℤ × ℤ) (h : ¬ header <+: data) :
    ∃ message, parseExecutionEntries data watches functionRange =
      .error (.signalLabError message) := by
  rw [parseExecutionEntries]
  by_cases hmagic : magic.isPrefixOf data = true
  swap
  · rw [Bool.not_eq_true] at hmagic
    rw [hmagic]
    exact ⟨_, rfl⟩
  by_cases hlength : data.length < 12
  · simp only [hmagic, Bool.not_true, Bool.false_eq_true, if_false, if_pos hlength]
    exact ⟨_, rfl⟩
  have hitem : ∀ i, i < 12 → item data i = .ok (data.getD i 0) := fun i hi => by
    refine item_of_some ?_
    rw [List.getD_eq_getElem?_getD, List.getElem?_eq_getElem (by omega)]
    rfl
  simp only [hmagic, Bool.not_true, Bool.false_eq_true, if_false, if_neg hlength, bind, Except.bind,
    hitem 8 (by decide), hitem 9 (by decide), hitem 10 (by decide), hitem 11 (by decide)]
  by_cases hname : 12 + (data.getD 11 0).toNat > data.length
  · rw [if_pos hname]
    exact ⟨_, rfl⟩
  rw [if_neg hname]
  by_cases htarget : (data.getD 8 0, data.getD 9 0, data.getD 10 0,
      (data.drop 12).take (12 + (data.getD 11 0).toNat - 12)) = (4, 1, 0, thumbTarget)
  · -- then the header is there
    obtain ⟨rest, hrest⟩ := List.isPrefixOf_iff_prefix.mp hmagic
    have hdrop : ∀ i, i < 12 → data.drop i = data.getD i 0 :: data.drop (i + 1) := fun i hi => by
      rw [List.drop_eq_getElem_cons (by omega), List.getD_eq_getElem?_getD,
        List.getElem?_eq_getElem (by omega)]
      rfl
    simp only [Prod.mk.injEq, Nat.add_sub_cancel_left] at htarget
    obtain ⟨hpcWidth, hhasOpcodes, husesMultiple, htarget⟩ := htarget
    have hlen := congrArg List.length htarget
    rw [List.length_take, List.length_drop] at hlen
    have hthumb : thumbTarget.length = 15 := rfl
    have hnameLength : data.getD 11 0 = 15 := UInt8.toNat_inj.mp (show _ = 15 by omega)
    refine absurd ⟨(data.drop 12).drop 15, ?_⟩ h
    rw [hnameLength] at htarget
    calc header ++ (data.drop 12).drop 15
        = magic ++ ([4, 1, 0, 15] ++ ((data.drop 12).take 15 ++ (data.drop 12).drop 15)) := by
          rw [show (data.drop 12).take 15 = thumbTarget from htarget]
          simp only [header, List.append_assoc]
      _ = magic ++ data.drop 8 := by
          rw [List.take_append_drop, hdrop 8 (by decide), hdrop 9 (by decide), hdrop 10 (by decide),
            hdrop 11 (by decide), hpcWidth, hhasOpcodes, husesMultiple, hnameLength]
          rfl
      _ = data := by
          rw [← hrest]
          rfl
  · rw [if_pos htarget]
    exact ⟨_, rfl⟩

/-! ### What is counted -/

/-- The hits of an address, in the entries: none where it is not watched. -/
def hitsOf (watches : Watches) (entries : List Entry) (pc : ℤ) : ℕ :=
  if (watches pc).isSome then entries.countP fun e => decide ((e.pc : ℤ) = pc) else 0

/-- The entries in the function. -/
def functionHitsOf (functionRange : ℤ × ℤ) (entries : List Entry) : ℕ :=
  entries.countP fun e => inFunction functionRange e.pc

/-- The state after some entries. -/
def takeEntries (watches : Watches) (functionRange : ℤ × ℤ) (s : ScanState) (entries : List Entry) :
    ScanState where
  offset := s.offset + (entries.flatMap Entry.code).length
  entryCount := s.entryCount + entries.length
  watchHits pc := s.watchHits pc + hitsOf watches entries pc
  functionHits := s.functionHits + functionHitsOf functionRange entries

lemma hits_cons (e : Entry) (entries : List Entry) (pc : ℤ) :
    (countEntry functionRange s (s.offset + e.code.length) e.pc (watches e.pc).isSome).watchHits pc +
      hitsOf watches entries pc = s.watchHits pc + hitsOf watches (e :: entries) pc := by
  simp only [countEntry, hitsOf]
  by_cases hpc : (e.pc : ℤ) = pc
  · subst hpc
    cases (watches e.pc).isSome with
    | true =>
      simp only [if_true, Function.update_self, List.countP_cons, decide_true]
      omega
    | false => rfl
  · have hcount : (e :: entries).countP (fun e => decide ((e.pc : ℤ) = pc)) =
        entries.countP fun e => decide ((e.pc : ℤ) = pc) :=
      List.countP_cons_of_neg (by rw [decide_eq_true_eq]; exact hpc)
    rw [hcount]
    cases (watches e.pc).isSome with
    | true => rw [if_pos rfl, Function.update_of_ne (Ne.symm hpc)]
    | false => rfl

/-- An entry, and then the others. -/
lemma takeEntries_cons (e : Entry) (entries : List Entry) :
    takeEntries watches functionRange
      (countEntry functionRange s (s.offset + e.code.length) e.pc (watches e.pc).isSome) entries =
      takeEntries watches functionRange s (e :: entries) := by
  refine ScanState.ext ?_ ?_ (funext fun pc => hits_cons e entries pc) ?_
  · simp only [takeEntries, countEntry, List.flatMap_cons, List.length_append]
    omega
  · simp only [takeEntries, countEntry, List.length_cons]
    omega
  · simp only [takeEntries, countEntry, functionHitsOf, List.countP_cons]
    cases inFunction functionRange e.pc with
    | true => simp only [if_true]; omega
    | false => rfl

/-- **The entries are all taken** where there are not too many and the opcodes agree. -/
lemma foldlM_takeEntry (entries : List Entry) (hcount : s.entryCount ≤ maxExecutionEntries) :
    entries.foldlM (takeEntry watches functionRange) s = some s' ↔
      s.entryCount + entries.length ≤ maxExecutionEntries ∧ (∀ e ∈ entries, Agrees watches e) ∧
        takeEntries watches functionRange s entries = s' := by
  induction entries generalizing s with
  | nil =>
    have hnil : takeEntries watches functionRange s [] = s := by
      refine ScanState.ext rfl rfl (funext fun pc => ?_) rfl
      simp only [takeEntries, hitsOf, List.countP_nil, ite_self, Nat.add_zero]
    rw [hnil]
    exact ⟨fun h => ⟨hcount, fun e he => absurd he List.not_mem_nil, Option.some.inj h⟩,
      fun h => congrArg some h.2.2⟩
  | cons e entries ih =>
    rw [List.foldlM_cons, takeEntry]
    by_cases htake : s.entryCount < maxExecutionEntries ∧ Agrees watches e
    · rw [if_pos htake]
      have hnext : (countEntry functionRange s (s.offset + e.code.length) e.pc
          (watches e.pc).isSome).entryCount = s.entryCount + 1 := rfl
      rw [Option.bind_eq_bind, Option.bind_some, ih (by rw [hnext]; exact htake.1), hnext,
        takeEntries_cons, List.length_cons, List.forall_mem_cons]
      constructor
      · rintro ⟨hle, hagrees, hs'⟩
        exact ⟨by omega, ⟨htake.2, hagrees⟩, hs'⟩
      · rintro ⟨hle, ⟨-, hagrees⟩, hs'⟩
        exact ⟨by omega, hagrees, hs'⟩
    · rw [if_neg htake]
      constructor
      · intro h
        cases h
      · rintro ⟨hle, hagrees, -⟩
        rw [List.length_cons] at hle
        exact absurd ⟨by omega, hagrees e (List.mem_cons_self ..)⟩ htake

/-- The bytes are the header and then the entries, not too many, with the watched opcodes where they
are watched. -/
structure IsTrace (data : List UInt8) (watches : Watches) (entries : List Entry) : Prop where
  bytes : data = header ++ entries.flatMap Entry.code
  count_le : entries.length ≤ maxExecutionEntries
  agrees : ∀ e ∈ entries, Agrees watches e

lemma scanEntries_ok_iff (watches : Watches) (functionRange : ℤ × ℤ) (s' : ScanState)
    {rest : List UInt8} (h : data = header ++ rest) :
    scanEntries data watches functionRange header.length = .ok s' ↔
      ∃ entries, IsTrace data watches entries ∧
        takeEntries watches functionRange ⟨header.length, 0, fun _ => 0, 0⟩ entries = s' := by
  rw [scanEntries, scan_ok_iff code_delimited _ (fun _ _ _ h => takeEntry_offset h)
    (fun _ _ _ => parseEntry_ok_iff)]
  have hdrop : data.drop header.length = rest := by
    rw [h]
    exact List.drop_left
  simp only [hdrop]
  constructor
  · rintro ⟨entries, hrest, hfold⟩
    obtain ⟨hle, hagrees, hs'⟩ := (foldlM_takeEntry entries (Nat.zero_le _)).mp hfold
    rw [Nat.zero_add] at hle
    exact ⟨entries, ⟨by rw [h, hrest], hle, hagrees⟩, hs'⟩
  · rintro ⟨entries, htrace, hs'⟩
    refine ⟨entries, List.append_cancel_left (h.symm.trans htrace.bytes), ?_⟩
    refine (foldlM_takeEntry entries (Nat.zero_le _)).mpr ⟨?_, htrace.agrees, hs'⟩
    rw [Nat.zero_add]
    exact htrace.count_le

/-- What the parser returns: the counts of the entries of a trace. -/
lemma parse_ok_iff {result : ℕ × (ℤ → ℕ) × ℕ} :
    parseExecutionEntries data watches functionRange = .ok result ↔
      ∃ entries, IsTrace data watches entries ∧
        result = (entries.length, hitsOf watches entries, functionHitsOf functionRange entries) := by
  have hcounts : ∀ entries, ∀ s, takeEntries watches functionRange
      ⟨header.length, 0, fun _ => 0, 0⟩ entries = s →
      (s.entryCount, s.watchHits, s.functionHits) =
        (entries.length, hitsOf watches entries, functionHitsOf functionRange entries) := by
    rintro entries s rfl
    simp only [takeEntries, Nat.zero_add]
  by_cases hheader : header <+: data
  · rw [parse_of_header hheader]
    obtain ⟨rest, hrest⟩ := hheader
    have hscan := fun s' => scanEntries_ok_iff watches functionRange s' hrest.symm
    generalize scanEntries data watches functionRange header.length = scanned at hscan
    constructor
    · intro h
      cases scanned with
      | error e => cases h
      | ok s =>
        obtain ⟨entries, htrace, hs⟩ := (hscan s).mp rfl
        cases h
        exact ⟨entries, htrace, hcounts entries s hs⟩
    · rintro ⟨entries, htrace, rfl⟩
      rw [(hscan _).mpr ⟨entries, htrace, rfl⟩]
      exact congrArg Except.ok (hcounts entries _ rfl)
  · obtain ⟨message, herror⟩ := parse_of_not_header watches functionRange hheader
    rw [herror]
    constructor
    · intro h
      cases h
    · rintro ⟨entries, htrace, -⟩
      exact absurd ⟨_, htrace.bytes.symm⟩ hheader

/-- The parser raises nothing but `SignalLabError`. -/
lemma parse_raises {e : Exception} (h : parseExecutionEntries data watches functionRange = .error e) :
    ∃ message, e = .signalLabError message := by
  by_cases hheader : header <+: data
  · rw [parse_of_header hheader] at h
    cases hscan : scanEntries data watches functionRange header.length with
    | error e' =>
      rw [hscan] at h
      cases h
      obtain ⟨s, -, hs⟩ := raised_of_scan _ hscan
      exact parseEntry_raises hs
    | ok s =>
      rw [hscan] at h
      cases h
  · obtain ⟨message, herror⟩ := parse_of_not_header watches functionRange hheader
    rw [herror] at h
    cases h
    exact ⟨message, rfl⟩

/-- **The parser is exact**: it returns on the bytes of a trace, which have one reading, and returns
the counts of that reading. On all other bytes it raises `SignalLabError`. -/
theorem parse_exact (data : List UInt8) (watches : Watches) (functionRange : ℤ × ℤ) :
    (∀ entryCount watchHits functionHits,
      parseExecutionEntries data watches functionRange = .ok (entryCount, watchHits, functionHits) ↔
        ∃ entries, IsTrace data watches entries ∧ entryCount = entries.length ∧
          watchHits = hitsOf watches entries ∧ functionHits = functionHitsOf functionRange entries) ∧
    (∀ entries entries', IsTrace data watches entries → IsTrace data watches entries' →
      entries = entries') ∧
    ((¬ ∃ entries, IsTrace data watches entries) → ∃ message,
      parseExecutionEntries data watches functionRange = .error (.signalLabError message)) := by
  refine ⟨fun entryCount watchHits functionHits => ?_, fun entries entries' h h' => ?_, fun h => ?_⟩
  · simp only [parse_ok_iff, Prod.mk.injEq]
  · exact code_delimited.flatMap_inj (List.append_cancel_left (h.bytes.symm.trans h'.bytes))
  · cases hparse : parseExecutionEntries data watches functionRange with
    | ok result =>
      obtain ⟨entries, htrace, -⟩ := parse_ok_iff.mp hparse
      exact absurd ⟨entries, htrace⟩ h
    | error e =>
      obtain ⟨message, rfl⟩ := parse_raises hparse
      exact ⟨message, rfl⟩

end Aymos.ExecutionTrace

import Aymos.Wire
import Mathlib.Data.List.TakeWhile

/-!
The result line of the signal lab: `write_result` in `apps/signal_lab/main.c`, and
`RESULT_PATTERN` with `parse_result` in `tools/aymos_lab/signal_lab.py`.

The board appends texts and numbers to a line of a fixed capacity. What it appends is what the
pattern takes apart, so that a line which fits is read back as the numbers it was made of. The
pattern also takes decimal numbers with zeros in front.
-/

namespace Aymos.ResultLine

open Wire

/-! ### The line on the board -/

def resultLineCapacity : ℕ := 192

/-- `append_text`. -/
def appendText (capacity : ℕ) : List UInt8 → List UInt8 → Option (List UInt8)
  | [], line => some line
  | c :: text, line =>
    if line.length ≥ capacity then none else appendText capacity text (line ++ [c])

/-- The first loop of `append_decimal`. The bound is the size of its buffer. -/
def reversedDigits : ℕ → ℕ → List UInt8
  | 0, _ => []
  | turns + 1, value =>
    UInt8.ofNat (48 + value % 10) ::
      if value / 10 ≠ 0 then reversedDigits turns (value / 10) else []

/-- `append_decimal`. -/
def appendDecimal (capacity value : ℕ) (line : List UInt8) : Option (List UInt8) :=
  let reversed := reversedDigits 10 value
  if reversed.length > capacity - line.length then none else some (line ++ reversed.reverse)

/-- An entry of `digits` in `append_hex32`. -/
def hexDigit (n : ℕ) : UInt8 := (ascii "0123456789ABCDEF".toList).getD n 0

/-- `append_hex32`. -/
def appendHex32 (capacity value : ℕ) (line : List UInt8) : Option (List UInt8) :=
  if 8 > capacity - line.length then none
  else
    some (line ++ [32, 28, 24, 20, 16, 12, 8, 4].map fun shift =>
      hexDigit ((value >>> (shift - 4)) &&& 0xF))

def resultStart : List UInt8 := ascii "AYMOS SIGNAL PASS IMPL=".toList

/-- The texts in front of the decimal numbers. -/
def decimalLabels : List (List UInt8) :=
  [ascii " FRAMES=".toList, ascii " SAMPLES=".toList, ascii " TAPS=".toList,
    ascii " VALID=".toList, ascii " OUTPUTS=".toList, ascii " WORK=".toList]

/-- The texts in front of the hexadecimal numbers. -/
def hexLabels : List (List UInt8) :=
  [ascii " SEED=0x".toList, ascii " INPUT_CRC=0x".toList, ascii " OUTPUT_CRC=0x".toList]

/-- Appends numbers, each after its text. -/
def appendNumbers (append : ℕ → ℕ → List UInt8 → Option (List UInt8)) (capacity : ℕ) :
    List (List UInt8 × ℕ) → List UInt8 → Option (List UInt8)
  | [], line => some line
  | (label, value) :: numbers, line => do
    let line ← appendText capacity label line
    let line ← append capacity value line
    appendNumbers append capacity numbers line

/-- `write_result`, for numbers that are given: the line, if it fits. -/
def formatResult (implementation : String) (decimals hexes : List ℕ) : Option (List UInt8) := do
  let line ← appendText resultLineCapacity resultStart []
  let line ← appendText resultLineCapacity (ascii implementation.toList) line
  let line ← appendNumbers appendDecimal resultLineCapacity (decimalLabels.zip decimals) line
  let line ← appendNumbers appendHex32 resultLineCapacity (hexLabels.zip hexes) line
  appendText resultLineCapacity crlf line

def frameCount : ℕ := 4
def sampleCount : ℕ := 128
def tapCount : ℕ := 16
def validOutputCount : ℕ := sampleCount - tapCount + 1
def totalOutputCount : ℕ := frameCount * validOutputCount
def workUnits : ℕ := totalOutputCount * tapCount
def signalSeed : ℕ := 0x1A2B3C4D
def expectedInputCrc : ℕ := 0x0CAF72FD
def expectedOutputCrc : ℕ := 0xAFC277C1

/-- The decimal numbers of the line. -/
def resultDecimals : List ℕ :=
  [frameCount, sampleCount, tapCount, validOutputCount, totalOutputCount, workUnits]

/-- The hexadecimal numbers of the line. -/
def resultHexes : List ℕ := [signalSeed, expectedInputCrc, expectedOutputCrc]

/-- `write_result`. -/
def writeResult (implementation : String) : Option (List UInt8) :=
  formatResult implementation resultDecimals resultHexes

/-! ### The pattern -/

def implementations : List String := ["scalar", "m4"]

def isDigit (c : UInt8) : Bool := 48 ≤ c.toNat && c.toNat ≤ 57

def isHexDigit (c : UInt8) : Bool := isDigit c || (65 ≤ c.toNat && c.toNat ≤ 70)

/-- A literal text of the pattern. -/
def takeLiteral (text bytes : List UInt8) : Option (List UInt8) :=
  if text.isPrefixOf bytes then some (bytes.drop text.length) else none

/-- `(scalar|m4)`. -/
def takeImplementation (bytes : List UInt8) : Option (String × List UInt8) :=
  match takeLiteral (ascii "scalar".toList) bytes with
  | some rest => some ("scalar", rest)
  | none => (takeLiteral (ascii "m4".toList) bytes).map ("m4", ·)

/-- `([0-9]+)`, where no digit follows. -/
def takeDecimal (bytes : List UInt8) : Option (List UInt8 × List UInt8) :=
  let digits := bytes.takeWhile isDigit
  if digits = [] then none else some (digits, bytes.drop digits.length)

/-- `([0-9A-F]{8})`. -/
def takeHex (bytes : List UInt8) : Option (List UInt8 × List UInt8) :=
  let digits := bytes.take 8
  if digits.length = 8 ∧ digits.all isHexDigit then some (digits, bytes.drop 8) else none

/-- Groups of the pattern, each after its text. -/
def takeGroups (take : List UInt8 → Option (List UInt8 × List UInt8)) :
    List (List UInt8) → List UInt8 → Option (List (List UInt8) × List UInt8)
  | [], bytes => some ([], bytes)
  | label :: labels, bytes => do
    let bytes ← takeLiteral label bytes
    let (group, bytes) ← take bytes
    let (groups, bytes) ← takeGroups take labels bytes
    some (group :: groups, bytes)

/-- The groups of a match. -/
structure ResultMatch where
  implementation : String
  decimals : List (List UInt8)
  hexes : List (List UInt8)
  deriving DecidableEq

/-- `RESULT_PATTERN.fullmatch`. -/
def matchResult (bytes : List UInt8) : Option ResultMatch := do
  let bytes ← takeLiteral resultStart bytes
  let (implementation, bytes) ← takeImplementation bytes
  let (decimals, bytes) ← takeGroups takeDecimal decimalLabels bytes
  let (hexes, bytes) ← takeGroups takeHex hexLabels bytes
  if bytes = crlf then some ⟨implementation, decimals, hexes⟩ else none

/-! ### Numbers -/

/-- `int` of decimal digits. -/
def decimalValue (digits : List UInt8) : ℕ :=
  digits.foldl (fun n c => 10 * n + (c.toNat - 48)) 0

def hexDigitValue (c : UInt8) : ℕ := if c.toNat ≤ 57 then c.toNat - 48 else c.toNat - 55

/-- `int` of hexadecimal digits. -/
def hexValue (digits : List UInt8) : ℕ := digits.foldl (fun n c => 16 * n + hexDigitValue c) 0

/-- What `append_decimal` appends. -/
def decimal (value : ℕ) : List UInt8 := (reversedDigits 10 value).reverse

/-- What `append_hex32` appends. -/
def hex32 (value : ℕ) : List UInt8 :=
  [32, 28, 24, 20, 16, 12, 8, 4].map fun shift => hexDigit ((value >>> (shift - 4)) &&& 0xF)

/-- A group of decimal digits. -/
structure Decimal (digits : List UInt8) : Prop where
  ne_nil : digits ≠ []
  digit : ∀ c ∈ digits, isDigit c = true

/-- A group of eight hexadecimal digits. -/
structure Hex (digits : List UInt8) : Prop where
  length : digits.length = 8
  digit : ∀ c ∈ digits, isHexDigit c = true

lemma decimalValue_snoc (digits : List UInt8) (c : UInt8) :
    decimalValue (digits ++ [c]) = 10 * decimalValue digits + (c.toNat - 48) := by
  rw [decimalValue, List.foldl_append]
  rfl

lemma digit_toNat {n : ℕ} (h : n < 10) : (UInt8.ofNat (48 + n)).toNat = 48 + n := by
  rw [UInt8.toNat_ofNat']
  omega

lemma decimal_reversed {turns value : ℕ} (hpos : 0 < turns) (h : value < 10 ^ turns) :
    decimalValue (reversedDigits turns value).reverse = value ∧
      Decimal (reversedDigits turns value).reverse := by
  induction turns generalizing value with
  | zero => exact absurd hpos (lt_irrefl 0)
  | succ turns ih =>
    have hlow := Nat.mod_lt value (show 0 < 10 by decide)
    have hdigit : isDigit (UInt8.ofNat (48 + value % 10)) = true := by
      rw [isDigit, digit_toNat hlow]
      simp only [Bool.and_eq_true, decide_eq_true_eq]
      omega
    rw [reversedDigits, List.reverse_cons]
    by_cases h0 : value / 10 = 0
    · rw [if_neg (not_not.mpr h0), List.reverse_nil, decimalValue_snoc, digit_toNat hlow]
      refine ⟨?_, by simp, ?_⟩
      · rw [decimalValue, List.foldl_nil]
        omega
      · simpa using hdigit
    · have hturns : 0 < turns := by
        rcases turns with _ | turns
        · omega
        · exact Nat.succ_pos turns
      obtain ⟨hvalue, hdecimal⟩ := @ih (value / 10) hturns (by rw [pow_succ] at h; omega)
      rw [if_pos h0, decimalValue_snoc, hvalue, digit_toNat hlow]
      refine ⟨by omega, by simp, fun c hc => ?_⟩
      rcases List.mem_append.mp hc with hc | hc
      · exact hdecimal.digit c hc
      · rw [List.mem_singleton.mp hc]
        exact hdigit

/-- **A decimal number is read back.** -/
lemma decimal_spec {value : ℕ} (h : value < 2 ^ 32) :
    decimalValue (decimal value) = value ∧ Decimal (decimal value) :=
  decimal_reversed (by decide) (h.trans (by decide))

lemma hexDigit_spec {n : ℕ} (h : n < 16) :
    hexDigitValue (hexDigit n) = n ∧ isHexDigit (hexDigit n) = true := by
  have hall : ∀ n < 16, hexDigitValue (hexDigit n) = n ∧ isHexDigit (hexDigit n) = true := by decide
  exact hall n h

lemma hexDigit_value {c : UInt8} (h : isHexDigit c = true) :
    hexDigitValue c < 16 ∧ hexDigit (hexDigitValue c) = c := by
  have hall : ∀ n < 256, isHexDigit (UInt8.ofNat n) = true → hexDigitValue (UInt8.ofNat n) < 16 ∧
    hexDigit (hexDigitValue (UInt8.ofNat n)) = UInt8.ofNat n := by decide +kernel
  have hc := hall c.toNat c.toNat_lt
  rw [UInt8.ofNat_toNat] at hc
  exact hc h

/-- A digit of a number. -/
def nibble (value k : ℕ) : ℕ := value / 16 ^ k % 16

lemma hex32_eq (value : ℕ) : hex32 value =
    [7, 6, 5, 4, 3, 2, 1, 0].map fun k => hexDigit (nibble value k) := by
  have hmask : ∀ n : ℕ, n &&& 0xF = n % 16 := fun n => Nat.and_two_pow_sub_one_eq_mod n 4
  simp only [hex32, nibble, hmask, Nat.shiftRight_eq_div_pow]
  norm_num

/-- **A hexadecimal number is read back.** -/
lemma hex32_spec {value : ℕ} (h : value < 2 ^ 32) :
    hexValue (hex32 value) = value ∧ Hex (hex32 value) := by
  have hdigit : ∀ k, hexDigitValue (hexDigit (nibble value k)) = nibble value k ∧
      isHexDigit (hexDigit (nibble value k)) = true := fun k =>
    hexDigit_spec (Nat.mod_lt _ (by decide))
  rw [hex32_eq]
  refine ⟨?_, by simp, ?_⟩
  · simp only [hexValue, List.map_cons, List.map_nil, List.foldl_cons, List.foldl_nil,
      (hdigit _).1]
    simp only [nibble]
    norm_num
    omega
  · intro c hc
    obtain ⟨k, -, rfl⟩ := List.mem_map.mp hc
    exact (hdigit k).2

/-- Eight hexadecimal digits are those of their value. -/
lemma hex32_hexValue {digits : List UInt8} (h : Hex digits) : hex32 (hexValue digits) = digits := by
  obtain ⟨hlen, hdigit⟩ := h
  match digits, hlen with
  | [a, b, c, d, e, f, g, i], _ =>
    simp only [List.mem_cons, List.not_mem_nil, or_false, forall_eq_or_imp, forall_eq] at hdigit
    obtain ⟨ha, hb, hc, hd, he, hf, hg, hi⟩ := hdigit
    obtain ⟨ha, ha'⟩ := hexDigit_value ha
    obtain ⟨hb, hb'⟩ := hexDigit_value hb
    obtain ⟨hc, hc'⟩ := hexDigit_value hc
    obtain ⟨hd, hd'⟩ := hexDigit_value hd
    obtain ⟨he, he'⟩ := hexDigit_value he
    obtain ⟨hf, hf'⟩ := hexDigit_value hf
    obtain ⟨hg, hg'⟩ := hexDigit_value hg
    obtain ⟨hi, hi'⟩ := hexDigit_value hi
    rw [hex32_eq]
    simp only [hexValue, List.foldl_cons, List.foldl_nil, List.map_cons, List.map_nil]
    conv_rhs => rw [← ha', ← hb', ← hc', ← hd', ← he', ← hf', ← hg', ← hi']
    simp only [nibble, List.cons.injEq, and_true]
    norm_num
    refine ⟨?_, ?_, ?_, ?_, ?_, ?_, ?_, ?_⟩ <;> congr 1 <;> omega

/-! ### What is appended -/

/-- A line, if it fits. -/
def fit (line : List UInt8) : Option (List UInt8) :=
  if line.length ≤ resultLineCapacity then some line else none

/-- A call that appends a text to a line, if it fits. -/
def Appends (call : List UInt8 → Option (List UInt8)) (text : List UInt8) : Prop :=
  ∀ line, line.length ≤ resultLineCapacity → call line = fit (line ++ text)

lemma fit_of_long {line : List UInt8} (h : resultLineCapacity < line.length) : fit line = none :=
  if_neg (not_le.mpr h)

/-- **One call after another.** -/
lemma Appends.bind {call call' : List UInt8 → Option (List UInt8)} {text text' : List UInt8}
    (h : Appends call text) (h' : Appends call' text') :
    Appends (fun line => call line >>= call') (text ++ text') := fun line hline => by
  dsimp only
  rw [h line hline, ← List.append_assoc]
  by_cases hfits : (line ++ text).length ≤ resultLineCapacity
  · rw [fit, if_pos hfits]
    exact h' _ hfits
  · rw [fit, if_neg hfits, fit_of_long]
    · rfl
    · rw [List.length_append]
      omega

lemma appends_nothing : Appends some [] := fun line hline => by
  rw [List.append_nil, fit, if_pos hline]

lemma appendText_appends (text : List UInt8) :
    Appends (appendText resultLineCapacity text) text := by
  induction text with
  | nil => exact appends_nothing
  | cons c text ih =>
    intro line hline
    rw [appendText]
    split
    · rw [fit_of_long]
      rw [List.length_append, List.length_cons]
      omega
    · rw [ih (line ++ [c]) (by rw [List.length_append, List.length_singleton]; omega)]
      rw [List.append_assoc, List.singleton_append]

lemma appendDecimal_appends (value : ℕ) :
    Appends (appendDecimal resultLineCapacity value) (decimal value) := fun line hline => by
  rw [appendDecimal, fit, List.length_append, decimal, List.length_reverse]
  split
  · rw [if_neg (by omega)]
  · rw [if_pos (by omega)]

lemma appendHex32_appends (value : ℕ) :
    Appends (appendHex32 resultLineCapacity value) (hex32 value) := fun line hline => by
  have hlen : (hex32 value).length = 8 := rfl
  rw [appendHex32, fit, List.length_append, hlen, hex32]
  split
  · rw [if_neg (by omega)]
  · rw [if_pos (by omega)]

/-- Groups, each after its text. -/
def labelled (groups : List (List UInt8 × List UInt8)) : List UInt8 :=
  groups.flatMap fun group => group.1 ++ group.2

lemma appendNumbers_appends {append : ℕ → ℕ → List UInt8 → Option (List UInt8)}
    {show_ : ℕ → List UInt8}
    (h : ∀ value, Appends (append resultLineCapacity value) (show_ value))
    (labels : List (List UInt8)) (values : List ℕ) :
    Appends (appendNumbers append resultLineCapacity (labels.zip values))
      (labelled (labels.zip (values.map show_))) := by
  induction labels generalizing values with
  | nil => exact appends_nothing
  | cons label labels ih =>
    cases values with
    | nil => exact appends_nothing
    | cons value values =>
      have hrest := (h value).bind (ih values)
      rw [List.map_cons, List.zip_cons_cons, List.zip_cons_cons, labelled, List.flatMap_cons,
        List.append_assoc]
      exact (appendText_appends label).bind hrest

/-- The line of an implementation and of groups. -/
def renderLine (implementation : String) (decimals hexes : List (List UInt8)) : List UInt8 :=
  resultStart ++ (ascii implementation.toList ++ (labelled (decimalLabels.zip decimals) ++
    (labelled (hexLabels.zip hexes) ++ crlf)))

/-- **The line on the board**, if it fits. -/
theorem formatResult_eq (implementation : String) (decimals hexes : List ℕ) :
    formatResult implementation decimals hexes =
      fit (renderLine implementation (decimals.map decimal) (hexes.map hex32)) := by
  have hline := (appendText_appends resultStart).bind
    ((appendText_appends (ascii implementation.toList)).bind
      ((appendNumbers_appends appendDecimal_appends decimalLabels decimals).bind
        ((appendNumbers_appends appendHex32_appends hexLabels hexes).bind
          (appendText_appends crlf))))
  exact hline [] (Nat.zero_le _)

/-! ### What is matched -/

variable {text bytes rest digits : List UInt8} {labels groups : List (List UInt8)}

lemma takeLiteral_eq_some : takeLiteral text bytes = some rest ↔ bytes = text ++ rest := by
  rw [takeLiteral]
  constructor
  · intro h
    split at h
    · next hprefix =>
      obtain ⟨more, rfl⟩ := List.isPrefixOf_iff_prefix.mp hprefix
      rw [List.drop_left, Option.some.injEq] at h
      rw [h]
    · cases h
  · rintro rfl
    rw [if_pos (List.isPrefixOf_iff_prefix.mpr (List.prefix_append _ _)), List.drop_left]

lemma takeImplementation_eq_some {implementation : String} :
    takeImplementation bytes = some (implementation, rest) ↔
      implementation ∈ implementations ∧ bytes = ascii implementation.toList ++ rest := by
  rw [takeImplementation]
  constructor
  · intro h
    split at h
    · next r hscalar =>
      obtain ⟨rfl, rfl⟩ := Prod.mk.inj (Option.some.inj h)
      exact ⟨by decide, takeLiteral_eq_some.mp hscalar⟩
    · obtain ⟨r, hm4, hr⟩ := Option.map_eq_some_iff.mp h
      obtain ⟨rfl, rfl⟩ := Prod.mk.inj hr
      exact ⟨by decide, takeLiteral_eq_some.mp hm4⟩
  · rintro ⟨hmem, rfl⟩
    simp only [implementations, List.mem_cons, List.not_mem_nil, or_false] at hmem
    rcases hmem with rfl | rfl
    · rw [takeLiteral_eq_some.mpr rfl]
    · have hscalar : takeLiteral (ascii "scalar".toList) (ascii "m4".toList ++ rest) = none := rfl
      rw [hscalar, takeLiteral_eq_some.mpr rfl]
      rfl

/-- Bytes that do not begin with a digit. -/
def Stops (bytes : List UInt8) : Prop := bytes.takeWhile isDigit = []

lemma takeDecimal_some (h : takeDecimal bytes = some (digits, rest)) :
    bytes = digits ++ rest ∧ Decimal digits := by
  rw [takeDecimal] at h
  split at h
  · cases h
  · next hne =>
    obtain ⟨rfl, rfl⟩ := Prod.mk.inj (Option.some.inj h)
    refine ⟨?_, hne, fun c hc => List.mem_takeWhile_imp hc⟩
    have hprefix := List.takeWhile_prefix isDigit (l := bytes)
    exact (List.prefix_iff_eq_append.mp hprefix).symm

lemma takeDecimal_append (h : Decimal digits) (hrest : Stops rest) :
    takeDecimal (digits ++ rest) = some (digits, rest) := by
  have htake : (digits ++ rest).takeWhile isDigit = digits := by
    rw [List.takeWhile_append_of_pos h.digit, hrest, List.append_nil]
  rw [takeDecimal, htake, if_neg h.ne_nil, List.drop_left]

lemma takeHex_eq_some :
    takeHex bytes = some (digits, rest) ↔ bytes = digits ++ rest ∧ Hex digits := by
  rw [takeHex]
  constructor
  · intro h
    split at h
    · next hhex =>
      obtain ⟨rfl, rfl⟩ := Prod.mk.inj (Option.some.inj h)
      exact ⟨(List.take_append_drop 8 bytes).symm, hhex.1, List.all_eq_true.mp hhex.2⟩
    · cases h
  · rintro ⟨rfl, hlen, hdigit⟩
    rw [List.take_left' hlen, List.drop_left' hlen, if_pos ⟨hlen, List.all_eq_true.mpr hdigit⟩]

section Groups

variable {take : List UInt8 → Option (List UInt8 × List UInt8)} {Group Stop : List UInt8 → Prop}

/-- What a sequence of groups has matched. -/
lemma takeGroups_some
    (h : ∀ bytes digits rest, take bytes = some (digits, rest) →
      bytes = digits ++ rest ∧ Group digits)
    (hmatch : takeGroups take labels bytes = some (groups, rest)) :
    bytes = labelled (labels.zip groups) ++ rest ∧ groups.length = labels.length ∧
      ∀ group ∈ groups, Group group := by
  induction labels generalizing bytes groups with
  | nil =>
    obtain ⟨rfl, rfl⟩ := Prod.mk.inj (Option.some.inj hmatch)
    exact ⟨rfl, rfl, fun group hg => absurd hg List.not_mem_nil⟩
  | cons label labels ih =>
    simp only [takeGroups, Option.bind_eq_bind, Option.bind_eq_some_iff] at hmatch
    obtain ⟨bytes₁, hlabel, ⟨group, bytes₂⟩, hgroup, ⟨more, bytes₃⟩, hmore, hall⟩ := hmatch
    dsimp only at hmore hall
    obtain ⟨rfl, rfl⟩ := Prod.mk.inj (Option.some.inj hall)
    obtain ⟨hbytes, hlen, hgroups⟩ := ih hmore
    obtain ⟨hsplit, hfirst⟩ := h _ _ _ hgroup
    refine ⟨?_, congrArg (· + 1) hlen, List.forall_mem_cons.mpr ⟨hfirst, hgroups⟩⟩
    rw [takeLiteral_eq_some.mp hlabel, hsplit, hbytes, List.zip_cons_cons, labelled, labelled,
      List.flatMap_cons]
    simp only [List.append_assoc]

/-- **A sequence of groups** is matched, where each of them ends. -/
lemma takeGroups_append
    (h : ∀ digits rest, Group digits → Stop rest → take (digits ++ rest) = some (digits, rest))
    (hlabels : ∀ label ∈ labels, ∀ rest, Stop (label ++ rest)) (hrest : Stop rest)
    (hlen : groups.length = labels.length) (hgroups : ∀ group ∈ groups, Group group) :
    takeGroups take labels (labelled (labels.zip groups) ++ rest) = some (groups, rest) := by
  induction labels generalizing groups with
  | nil =>
    obtain rfl := List.eq_nil_of_length_eq_zero hlen
    rfl
  | cons label labels ih =>
    cases groups with
    | nil => cases hlen
    | cons group groups =>
      obtain ⟨hfirst, hmore⟩ := List.forall_mem_cons.mp hgroups
      have hstop : Stop (labelled (labels.zip groups) ++ rest) := by
        cases labels with
        | nil => exact hrest
        | cons label' labels =>
          cases groups with
          | nil => cases hlen
          | cons group' groups =>
            rw [List.zip_cons_cons, labelled, List.flatMap_cons, List.append_assoc,
              List.append_assoc]
            exact hlabels label' (by simp) _
      rw [List.zip_cons_cons, labelled, List.flatMap_cons, List.append_assoc, List.append_assoc,
        takeGroups, takeLiteral_eq_some.mpr rfl]
      dsimp only [Option.bind_eq_bind, Option.bind_some]
      rw [← labelled, h group _ hfirst hstop]
      dsimp only [Option.bind_eq_bind, Option.bind_some]
      rw [ih (fun label' hl => hlabels label' (List.mem_cons_of_mem _ hl)) (Nat.succ.inj hlen)
        hmore]
      rfl

end Groups

/-- Groups as the pattern has them. -/
structure WellFormed (m : ResultMatch) : Prop where
  implementation : m.implementation ∈ implementations
  decimals_length : m.decimals.length = decimalLabels.length
  decimal : ∀ digits ∈ m.decimals, Decimal digits
  hexes_length : m.hexes.length = hexLabels.length
  hex : ∀ digits ∈ m.hexes, Hex digits

/-- **The pattern** matches the lines of groups as it has them, and no others. -/
theorem matchResult_eq_some {m : ResultMatch} : matchResult bytes = some m ↔
    WellFormed m ∧ bytes = renderLine m.implementation m.decimals m.hexes := by
  constructor
  · intro h
    simp only [matchResult, Option.bind_eq_bind, Option.bind_eq_some_iff] at h
    obtain ⟨bytes₁, hstart, ⟨implementation, bytes₂⟩, himpl, ⟨decimals, bytes₃⟩, hdecimals,
      ⟨hexes, bytes₄⟩, hhexes, hend⟩ := h
    dsimp only at hdecimals hhexes hend
    split at hend
    · next hcrlf =>
      obtain rfl := Option.some.inj hend
      obtain ⟨hmem, hbytes₁⟩ := takeImplementation_eq_some.mp himpl
      obtain ⟨hbytes₂, hlen, hdigits⟩ :=
        takeGroups_some (fun _ _ _ ht => takeDecimal_some ht) hdecimals
      obtain ⟨hbytes₃, hlen', hdigits'⟩ :=
        takeGroups_some (fun _ _ _ ht => takeHex_eq_some.mp ht) hhexes
      refine ⟨⟨hmem, hlen, hdigits, hlen', hdigits'⟩, ?_⟩
      rw [takeLiteral_eq_some.mp hstart, hbytes₁, hbytes₂, hbytes₃, hcrlf]
      rfl
    · cases hend
  · rintro ⟨⟨hmem, hlen, hdigits, hlen', hdigits'⟩, rfl⟩
    have hhexes := @takeGroups_append crlf hexLabels m.hexes takeHex Hex (fun _ => True)
      (fun d r hd _ => takeHex_eq_some.mpr ⟨rfl, hd⟩) (fun _ _ _ => trivial) trivial hlen' hdigits'
    have hstop : Stops (labelled (hexLabels.zip m.hexes) ++ crlf) := by
      match m.hexes, hlen' with
      | [_, _, _], _ => rfl
    have hlabels : ∀ label ∈ decimalLabels, ∀ r, Stops (label ++ r) := fun label hl r => by
      simp only [decimalLabels, List.mem_cons, List.not_mem_nil, or_false] at hl
      rcases hl with rfl | rfl | rfl | rfl | rfl | rfl <;> rfl
    have hdecimals := takeGroups_append (fun d r hd hs => takeDecimal_append hd hs) hlabels hstop
      hlen hdigits
    rw [matchResult, renderLine, takeLiteral_eq_some.mpr rfl]
    dsimp only [Option.bind_eq_bind, Option.bind_some]
    rw [takeImplementation_eq_some.mpr ⟨hmem, rfl⟩]
    dsimp only [Option.bind_eq_bind, Option.bind_some]
    rw [hdecimals]
    dsimp only [Option.bind_eq_bind, Option.bind_some]
    rw [hhexes]
    dsimp only [Option.bind_eq_bind, Option.bind_some]
    rw [if_pos rfl]

/-- **A line that fits is read back**, as the numbers that it was made of. -/
theorem result_line_round_trip {implementation : String} {decimals hexes : List ℕ}
    {line : List UInt8} (hmem : implementation ∈ implementations)
    (hlen : decimals.length = decimalLabels.length) (hsmall : ∀ value ∈ decimals, value < 2 ^ 32)
    (hlen' : hexes.length = hexLabels.length) (hsmall' : ∀ value ∈ hexes, value < 2 ^ 32)
    (hline : formatResult implementation decimals hexes = some line) :
    line.length ≤ resultLineCapacity ∧ ∃ m, matchResult line = some m ∧
      m.implementation = implementation ∧ m.decimals.map decimalValue = decimals ∧
        m.hexes.map hexValue = hexes := by
  rw [formatResult_eq, fit] at hline
  split at hline
  · next hfits =>
    obtain rfl := Option.some.inj hline
    have hback : ∀ {f : ℕ → List UInt8} {g : List UInt8 → ℕ} {values : List ℕ},
        (∀ value ∈ values, g (f value) = value) → (values.map f).map g = values := fun h => by
      rw [List.map_map]
      exact (List.map_congr_left h).trans (List.map_id _)
    refine ⟨hfits, ⟨implementation, decimals.map decimal, hexes.map hex32⟩, ?_, rfl,
      hback fun value hv => (decimal_spec (hsmall value hv)).1,
      hback fun value hv => (hex32_spec (hsmall' value hv)).1⟩
    refine matchResult_eq_some.mpr ⟨⟨hmem, ?_, ?_, ?_, ?_⟩, rfl⟩
    · rw [List.length_map, hlen]
    · exact List.forall_mem_map.mpr fun value hv => (decimal_spec (hsmall value hv)).2
    · rw [List.length_map, hlen']
    · exact List.forall_mem_map.mpr fun value hv => (hex32_spec (hsmall' value hv)).2
  · cases hline

/-- The line of the board. -/
theorem result_line_round_trip_board : ∃ line, writeResult "m4" = some line ∧
    line.length ≤ resultLineCapacity ∧ ∃ m, matchResult line = some m ∧
      m.implementation = "m4" ∧ m.decimals.map decimalValue = resultDecimals ∧
        m.hexes.map hexValue = resultHexes := by
  have hline : writeResult "m4" =
      some (renderLine "m4" (resultDecimals.map decimal) (resultHexes.map hex32)) := by
    rw [writeResult, formatResult_eq, fit, if_pos (by decide +kernel)]
  exact ⟨_, hline, result_line_round_trip (by decide) rfl (by decide) rfl (by decide) hline⟩

/-! ### The result -/

/-- `sys.get_int_max_str_digits()`. -/
def maxStrDigits : ℕ := 4300

/-- `int` of a decimal group. -/
def intOf (digits : List UInt8) : Except String ℕ :=
  if digits.length > maxStrDigits then
    .error (s!"Exceeds the limit ({maxStrDigits} digits) for integer string conversion: " ++
      "value has " ++
      s!"{digits.length} digits; use sys.set_int_max_str_digits() to increase the limit")
  else .ok (decimalValue digits)

/-- What `parse_result` makes of a line, the decimal and the hexadecimal numbers in its order. -/
structure SignalResult where
  implementation : String
  decimals : List ℕ
  hexes : List ℕ
  deriving DecidableEq

def decimalKeys : List String :=
  ["frames", "samples_per_frame", "taps", "valid_outputs_per_frame", "total_outputs", "work_units"]

def hexKeys : List String := ["seed", "input_crc32", "output_crc32"]

/-- How a result is shown. -/
def SignalResult.repr (r : SignalResult) : String :=
  let numbers := (decimalKeys.zip r.decimals ++ hexKeys.zip r.hexes).map fun (key, value) =>
    "'" ++ key ++ "': " ++ toString value
  "\x7b" ++ ", ".intercalate
    (["'implementation': '" ++ r.implementation ++ "'"] ++ numbers ++ ["'status': 'PASS'"]) ++
    "\x7d"

/-- The numbers that the host expects: `FRAME_COUNT` to `WORK_UNITS`. -/
def hostDecimals : List ℕ := [4, 128, 16, 113, 452, 7232]

/-- `SEED`, `INPUT_CRC` and `OUTPUT_CRC`. -/
def hostHexes : List ℕ := [0x1A2B3C4D, 0x0CAF72FD, 0xAFC277C1]

/-- `_expect`, with how a value is shown. -/
def expect {α : Type} [DecidableEq α] (shown : α → String) (actual expected : α) (label : String) :
    Except String Unit :=
  if actual ≠ expected then
    .error ("DSP workload " ++ label ++ " mismatch: got " ++ shown actual ++ ", expected " ++
      shown expected)
  else .ok ()

lemma expect_ok {α : Type} [DecidableEq α] {shown : α → String} {actual expected : α}
    {label : String} : expect shown actual expected label = .ok () ↔ actual = expected := by
  rw [expect]
  split
  · next h => exact iff_of_false (fun h => by cases h) h
  · next h => exact iff_of_true rfl (not_not.mp h)

/-- `parse_result`. -/
def parseResult (suffix : List UInt8) (implementation : String) : Except String SignalResult :=
  if implementation ∉ implementations then
    .error ("unsupported DSP implementation: " ++ implementation)
  else
    match matchResult suffix with
    | none => .error "result suffix does not match the exact ASCII contract"
    | some m => do
      let decimals ← m.decimals.mapM intOf
      let result : SignalResult := ⟨m.implementation, decimals, m.hexes.map hexValue⟩
      expect SignalResult.repr result ⟨implementation, hostDecimals, hostHexes⟩ "result"
      .ok result

lemma mapM_intOf {groups : List (List UInt8)} {values : List ℕ} :
    groups.mapM intOf = .ok values ↔
      groups.map decimalValue = values ∧ ∀ digits ∈ groups, digits.length ≤ maxStrDigits := by
  induction groups generalizing values with
  | nil =>
    rw [List.mapM_nil]
    constructor
    · intro h
      obtain rfl := Except.ok.inj h
      exact ⟨rfl, fun digits hd => absurd hd List.not_mem_nil⟩
    · rintro ⟨rfl, -⟩
      rfl
  | cons digits groups ih =>
    rw [List.mapM_cons, intOf, List.forall_mem_cons, List.map_cons]
    by_cases hlong : digits.length > maxStrDigits
    · rw [if_pos hlong]
      exact iff_of_false (fun h => by cases h) fun h => absurd h.2.1 (not_le.mpr hlong)
    · rw [if_neg hlong]
      dsimp only [bind, Except.bind]
      cases hgroups : groups.mapM intOf with
      | error e =>
        refine iff_of_false (fun h => by cases h) fun ⟨_, _, hshort⟩ => ?_
        have hok := ih.mpr ⟨rfl, hshort⟩
        rw [hgroups] at hok
        cases hok
      | ok more =>
        obtain ⟨hmore, hshort⟩ := ih.mp hgroups
        rw [hmore]
        constructor
        · intro h
          obtain rfl := Except.ok.inj h
          exact ⟨rfl, not_lt.mp hlong, hshort⟩
        · rintro ⟨rfl, -⟩
          rfl

/-- Groups of decimal digits that stand for numbers. -/
structure Spells (groups : List (List UInt8)) (values : List ℕ) : Prop where
  values : groups.map decimalValue = values
  decimal : ∀ digits ∈ groups, Decimal digits
  short : ∀ digits ∈ groups, digits.length ≤ maxStrDigits

/-- **The host accepts the line of the board**, with zeros in front of its decimal numbers or
without, and no other. -/
theorem parseResult_ok_iff {suffix : List UInt8} {implementation : String} :
    (∃ result, parseResult suffix implementation = .ok result) ↔
      implementation ∈ implementations ∧ ∃ groups, Spells groups hostDecimals ∧
        suffix = renderLine implementation groups (hostHexes.map hex32) := by
  rw [parseResult]
  by_cases hmem : implementation ∈ implementations
  swap
  · rw [if_pos hmem]
    exact iff_of_false (fun ⟨_, h⟩ => by cases h) fun h => hmem h.1
  rw [if_neg (not_not.mpr hmem)]
  constructor
  · rintro ⟨result, h⟩
    refine ⟨hmem, ?_⟩
    cases hm : matchResult suffix with
    | none =>
      rw [hm] at h
      cases h
    | some m =>
      obtain ⟨hwell, hsuffix⟩ := matchResult_eq_some.mp hm
      rw [hm] at h
      dsimp only [bind, Except.bind] at h
      cases hints : m.decimals.mapM intOf with
      | error e =>
        rw [hints] at h
        cases h
      | ok decimals =>
        rw [hints] at h
        dsimp only at h
        split at h
        · cases h
        · next hresult =>
          obtain ⟨himpl, rfl, hhexes⟩ := SignalResult.mk.inj (expect_ok.mp hresult)
          obtain ⟨hvalues, hshort⟩ := mapM_intOf.mp hints
          refine ⟨m.decimals, ⟨hvalues, hwell.decimal, hshort⟩, ?_⟩
          have hback : m.hexes = (m.hexes.map hexValue).map hex32 := by
            rw [List.map_map]
            exact ((List.map_congr_left fun digits hd => hex32_hexValue (hwell.hex digits hd)).trans
              (List.map_id _)).symm
          rw [hsuffix, himpl, ← hhexes, ← hback]
  · rintro ⟨-, groups, hspells, rfl⟩
    have hlen : groups.length = hostDecimals.length := by rw [← hspells.values, List.length_map]
    have hsmall : ∀ value ∈ hostHexes, value < 2 ^ 32 := by decide
    have hwell : WellFormed ⟨implementation, groups, hostHexes.map hex32⟩ :=
      ⟨hmem, hlen, hspells.decimal, rfl,
        List.forall_mem_map.mpr fun value hv => (hex32_spec (hsmall value hv)).2⟩
    have hhexes : (hostHexes.map hex32).map hexValue = hostHexes := by decide
    rw [matchResult_eq_some.mpr ⟨hwell, rfl⟩]
    dsimp only [bind, Except.bind]
    rw [mapM_intOf.mpr ⟨hspells.values, hspells.short⟩]
    dsimp only
    rw [hhexes, expect_ok.mpr rfl]
    exact ⟨_, rfl⟩

end Aymos.ResultLine

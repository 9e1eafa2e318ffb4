import EchoLife.Base.Run
import EchoLife.Base.Tlv
import EchoLife.Base.Word

/-!
The options of a DHCP message: how they are appended and how one is looked up.
The area has 1024 bytes and that is what `add_option_string` checks;
`get_option` looks at the first 308 only, the size the area once had.
-/

namespace EchoLife.Dhcp

open List Option Run Tlv Word

/-- The texts of a message that can hold options. Memory goes on behind each. -/
structure DhcpMessage where
  options : Nat → UInt8
  file : Nat → UInt8
  sname : Nat → UInt8

inductive OptionField where
  | options
  | file
  | sname
  deriving DecidableEq

def dhcpPadding : UInt8 := 0x00

def dhcpOptionOver : UInt8 := 0x34

def dhcpEnd : UInt8 := 0xFF

/-- The loop leaves a field with the data, with nothing because the fields are too long, or at the
end marker. -/
inductive Scan where
  | found (position : Nat)
  | bogus
  | ended (overload : UInt8)
  deriving DecidableEq

/-- The loop of `get_option` over one field. It steps over an overload option by the length of the
field's first option. -/
def scan (code : Int) (field : Nat → UInt8) (length i : Nat) (overload : UInt8) : Scan :=
  if i < length then
    if ((field i).toNat : Int) = code then
      if length ≤ i + 1 + (field (i + 1)).toNat then .bogus else .found (i + 2)
    else if field i = dhcpPadding then scan code field length (i + 1) overload
    else if field i = dhcpOptionOver then
      if length ≤ i + 1 + (field (i + 1)).toNat then .bogus
      else scan code field length (i + (field 1).toNat + 2) (field (i + 3))
    else if field i = dhcpEnd then .ended overload
    else scan code field length (i + (field (i + 1)).toNat + 2) overload
  else .bogus
termination_by length - i

/-- `get_option`: the field and the position of the data. -/
def getOption (packet : DhcpMessage) (code : Int) : Option (OptionField × Nat) :=
  match scan code packet.options 308 0 0 with
  | .found position => some (.options, position)
  | .bogus => none
  | .ended overload =>
    if overload &&& 1 = 0 then none
    else
      match scan code packet.file 128 0 overload with
      | .found position => some (.file, position)
      | .bogus => none
      | .ended overload =>
        if overload &&& 2 = 0 then none
        else
          match scan code packet.sname 64 0 overload with
          | .found position => some (.sname, position)
          | .bogus => none
          | .ended _ => none

/-- The loop of `end_option`, which has no bound of its own. -/
def endOption (options : Nat → UInt8) : Nat → Nat → Option Nat
  | 0, _ => none
  | fuel + 1, i =>
    if options i = dhcpEnd then some i
    else if options i = dhcpPadding then endOption options fuel (i + 1)
    else endOption options fuel (i + (options (i + 1)).toNat + 2)

/-- The area and the value returned, which is 0 when the option is refused. -/
def addOptionString (fuel : Nat) (options : Nat → UInt8) (string : Entry) :
    Option ((Nat → UInt8) × Nat) :=
  (endOption options fuel 0).map (fun position =>
    if 1024 ≤ position + string.data.length + 2 + 1 then (options, 0)
    else (append dhcpEnd options position string, string.data.length + 2))

inductive OptionType where
  | ip
  | ipPair
  | string
  | boolean
  | u8
  | u16
  | s16
  | u32
  | s32
  | ipString
  deriving DecidableEq

def optionLength : OptionType → Nat
  | .ip => 4
  | .ipPair => 8
  | .string => 0
  | .boolean => 1
  | .u8 => 1
  | .u16 => 2
  | .s16 => 2
  | .u32 => 4
  | .s32 => 4
  | .ipString => 128

/-- Type and code of `options`. The codes from 240 on are negative there and equal none that is
asked for. -/
def optionTable : List (OptionType × UInt8) :=
  [(.ip, 0x01), (.s32, 0x02), (.string, 0x79), (.ip, 0x03), (.ip, 0x04), (.ip, 0x05),
    (.ip, 0x06), (.ipString, 0x07), (.ip, 0x08), (.ip, 0x09), (.string, 0x0c),
    (.u16, 0x0d), (.string, 0x0f), (.ip, 0x10), (.string, 0x11), (.u8, 0x17),
    (.u16, 0x1a), (.ip, 0x1c), (.ip, 0x2a), (.string, 0x2b), (.string, 0x2b),
    (.ip, 0x2c), (.ip, 0x32), (.u32, 0x33), (.u8, 0x35), (.ip, 0x36), (.u32, 0x3a),
    (.u32, 0x3b), (.string, 0x3d), (.ipString, 0x42), (.string, 0x43)]

/-- The length `add_simple_option` finds for a code, as a signed `char`. -/
def simpleLength (code : UInt8) : Int :=
  match optionTable.find? (fun option => option.2 == code) with
  | none => 0
  | some option =>
    if optionLength option.1 < 128 then optionLength option.1
    else (optionLength option.1 : Int) - 256

def simpleEntry (code : UInt8) (length data : Nat) (hlength : length < 128) : Entry where
  code := code
  data := (range length).map (beNatBytes length data)
  length_lt := by simp; omega

/-- There is no check for room; `none` when the negative length is the size of a copy. -/
def addSimpleOption (fuel : Nat) (options : Nat → UInt8) (code : UInt8) (data : Nat) :
    Option ((Nat → UInt8) × Nat) :=
  if simpleLength code = 0 then some (options, 0)
  else if h : 0 < simpleLength code ∧ simpleLength code < 128 then
    (endOption options fuel 0).map (fun position =>
      (append dhcpEnd options position
        (simpleEntry code (simpleLength code).toNat data (by omega)), (simpleLength code).toNat))
  else none

inductive AddCall where
  | string (entry : Entry)
  | simple (code : UInt8) (data : Nat)

def AddCall.code : AddCall → UInt8
  | .string entry => entry.code
  | .simple code _ => code

def AddCall.perform (fuel : Nat) (options : Nat → UInt8) : AddCall → Option ((Nat → UInt8) × Nat)
  | .string entry => addOptionString fuel options entry
  | .simple code data => addSimpleOption fuel options code data

def AddCall.entry : AddCall → Option Entry
  | .string entry => some entry
  | .simple code data =>
    if h : 0 < simpleLength code ∧ simpleLength code < 128 then
      some (simpleEntry code (simpleLength code).toNat data (by omega))
    else none

def acceptAll (fuel : Nat) : List AddCall → (Nat → UInt8) → Option (Nat → UInt8)
  | [], options => some options
  | call :: rest, options =>
    match call.perform fuel options with
    | some (options, result) =>
      if result = 0 then none else acceptAll fuel rest options
    | none => none

def Plain (code : UInt8) : Prop :=
  code ≠ dhcpPadding ∧ code ≠ dhcpOptionOver ∧ code ≠ dhcpEnd

def Proper (code : UInt8) : Prop :=
  code ≠ dhcpPadding ∧ code ≠ dhcpEnd

theorem Plain.proper {code : UInt8} (h : Plain code) : Proper code :=
  ⟨h.1, h.2.2⟩

section
variable {options : Nat → UInt8} {entries : List Entry}

/-- `end_option` returns the place of the end marker, in one step for each option and one more. -/
theorem endOption_stored {i : Nat} (h : Stored dhcpEnd options i entries)
    (hproper : ∀ e ∈ entries, Proper e.code) (fuel : Nat) :
    endOption options fuel i = if entries.length < fuel then some (i + size entries) else none := by
  induction entries generalizing i fuel with
  | nil =>
    have hend : options i = dhcpEnd := h
    cases fuel with
    | zero => rfl
    | succ fuel =>
      unfold endOption
      rw [if_pos hend]
      rfl
  | cons e rest ih =>
    cases fuel with
    | zero => rfl
    | succ fuel =>
      obtain ⟨hpadding, hend⟩ := hproper e mem_cons_self
      have hnext : i + e.data.length + 2 = i + e.size := by
        simp only [Entry.size]
        omega
      unfold endOption
      rw [h.code, if_neg hend, if_neg hpadding, h.length, hnext,
        ih h.2 (fun other hother => hproper other (mem_cons_of_mem e hother)),
        size_cons, length_cons]
      simp only [Nat.add_lt_add_iff_right, add_assoc]

section

variable (h : Stored dhcpEnd options 0 entries) (hproper : ∀ e ∈ entries, Proper e.code)
include h hproper

private theorem addOptionString_fits {string : Entry} {fuel : Nat}
    (hfuel : entries.length < fuel) (hroom : size entries + string.size + 1 < 1024) :
    addOptionString fuel options string =
      some (append dhcpEnd options (size entries) string, string.size) := by
  simp only [Entry.size] at hroom
  unfold addOptionString
  rw [endOption_stored h hproper, if_pos hfuel, map_some, zero_add, if_neg (by omega)]
  rfl

theorem AddCall.perform_accepted {call : AddCall} {fuel result : Nat} {next : Nat → UInt8}
    (hperform : call.perform fuel options = some (next, result)) (haccepted : result ≠ 0) :
    ∃ e, call.entry = some e ∧ e.code = call.code ∧
      next = append dhcpEnd options (size entries) e := by
  have hposition {position : Nat} (hreturns : endOption options fuel 0 = some position) :
      position = size entries := by
    rw [endOption_stored h hproper, zero_add] at hreturns
    split at hreturns
    · cases hreturns
      rfl
    · cases hreturns
  cases call with
  | string entry =>
    obtain ⟨position, hreturns, hresult⟩ := map_eq_some_iff.mp hperform
    split at hresult
    · cases hresult
      exact absurd rfl haccepted
    · cases hresult
      exact ⟨entry, rfl, rfl, by rw [hposition hreturns]⟩
  | simple code data =>
    simp only [perform, addSimpleOption] at hperform
    split at hperform
    · cases hperform
      exact absurd rfl haccepted
    split at hperform
    next hlength =>
      obtain ⟨position, hreturns, hresult⟩ := map_eq_some_iff.mp hperform
      cases hresult
      exact ⟨_, dif_pos hlength, rfl, by rw [hposition hreturns]⟩
    · cases hperform

end

/-- Calls that are all accepted leave their options in the area, and what is behind the end
marker. -/
theorem acceptAll_stored (h : Stored dhcpEnd options 0 entries)
    (hplain : ∀ e ∈ entries, Plain e.code) {calls : List AddCall} {fuel : Nat}
    {final : Nat → UInt8} (hcodes : ∀ call ∈ calls, Plain call.code)
    (haccept : acceptAll fuel calls options = some final) :
    Stored dhcpEnd final 0 (entries ++ calls.filterMap AddCall.entry) ∧
      (∀ e ∈ entries ++ calls.filterMap AddCall.entry, Plain e.code) ∧
      ∀ j, size (entries ++ calls.filterMap AddCall.entry) < j → final j = options j := by
  induction calls generalizing options entries with
  | nil =>
    cases haccept
    simpa using ⟨h, hplain⟩
  | cons call rest ih =>
    simp only [acceptAll] at haccept
    split at haccept
    next next result hperform =>
      split at haccept
      · cases haccept
      rename_i haccepted
      obtain ⟨e, hentry, hcode, rfl⟩ := AddCall.perform_accepted h
        (fun e he => (hplain e he).proper) hperform haccepted
      have hstored := h.append e
      rw [zero_add] at hstored
      have hplain' : ∀ other ∈ entries ++ [e], Plain other.code := by
        rw [forall_mem_append, forall_mem_singleton, hcode]
        exact ⟨hplain, hcodes call mem_cons_self⟩
      obtain ⟨hfinal, hcodes', hbehind⟩ := ih hstored hplain'
        (fun other hother => hcodes other (mem_cons_of_mem call hother)) haccept
      have hall : entries ++ [e] ++ rest.filterMap AddCall.entry =
          entries ++ (call :: rest).filterMap AddCall.entry := by
        simp [hentry]
      rw [hall] at hfinal hcodes' hbehind
      refine ⟨hfinal, hcodes', ?_⟩
      intro j hj
      rw [hbehind j hj, append_outside]
      rw [← hall, size_append, size_append, size_cons] at hj
      omega
    · cases haccept

/-- At the end marker, which is taken for an option when its code is asked for. -/
def endScan (code : Int) (options : Nat → UInt8) (length i : Nat) : Scan :=
  if i < length then
    if code = 255 then
      if length ≤ i + 1 + (options (i + 1)).toNat then .bogus else .found (i + 2)
    else .ended 0
  else .bogus

private theorem scan_end {i : Nat} (hend : options i = dhcpEnd) (code : Int) (length : Nat) :
    scan code options length i 0 = endScan code options length i := by
  have hcode : ((dhcpEnd.toNat : Int) = code) = (code = 255) := by
    exact propext eq_comm
  unfold scan endScan
  simp only [hend, hcode]
  rfl

/-- Over stored options the loop finds the first one with the code, if it is within the length. -/
theorem scan_stored {i : Nat} (h : Stored dhcpEnd options i entries)
    (hplain : ∀ e ∈ entries, Plain e.code) (code : Int) (length : Nat) :
    scan code options length i 0 =
      match firstWith code i entries with
      | some (position, e) =>
        if length ≤ position + 1 + e.data.length then .bogus
        else .found (position + 2)
      | none => endScan code options length (i + size entries) := by
  induction entries generalizing i with
  | nil => exact scan_end h code length
  | cons e rest ih =>
    obtain ⟨hpadding, hover, hend⟩ := hplain e mem_cons_self
    have hnext : i + e.data.length + 2 = i + e.size := by
      simp only [Entry.size]
      omega
    have hrest := ih h.2 (fun other hother => hplain other (mem_cons_of_mem e hother))
    unfold scan
    rw [h.code, h.length, hnext, hrest]
    simp only [firstWith, size_cons, ← add_assoc]
    split
    · split
      · rfl
      · rfl
    -- The loop is past the length, and so is everything that follows.
    split
    next position found hfirst =>
      have hle : i ≤ position := by
        split at hfirst
        · cases hfirst
          exact le_refl i
        · exact le_trans (Nat.le_add_right i e.size) (le_of_firstWith hfirst)
      rw [if_pos (by omega)]
    · unfold endScan
      rw [if_neg (by omega)]

/-- The answer of `get_option` when it looks at the first field only. -/
def Scan.inOptions : Scan → Option (OptionField × Nat)
  | .found position => some (.options, position)
  | .bogus => none
  | .ended _ => none

private theorem getOption_of_scan {packet : DhcpMessage} {code : Int} {result : Scan}
    (hscan : scan code packet.options 308 0 0 = result)
    (hend : ∀ overload, result = .ended overload → overload = 0) :
    getOption packet code = result.inOptions := by
  unfold getOption
  rw [hscan]
  cases result with
  | found position => rfl
  | bogus => rfl
  | ended overload =>
    obtain rfl := hend overload rfl
    rfl

theorem getOption_stored {packet : DhcpMessage} (h : Stored dhcpEnd packet.options 0 entries)
    (hplain : ∀ e ∈ entries, Plain e.code) (code : Int) :
    getOption packet code =
      match firstWith code 0 entries with
      | some (position, e) =>
        if 308 ≤ position + 1 + e.data.length then none
        else some (.options, position + 2)
      | none =>
        if code = 255 ∧ size entries + 1 + (packet.options (size entries + 1)).toNat < 308 then
          some (.options, size entries + 2)
        else none := by
  have hscan := scan_stored h hplain code 308
  rw [zero_add] at hscan
  cases hfirst : firstWith code 0 entries with
  | some found =>
    simp only [hfirst] at hscan
    split at hscan
    next hlong =>
      rw [getOption_of_scan hscan (by simp)]
      exact (if_pos hlong).symm
    next hfits =>
      rw [getOption_of_scan hscan (by simp)]
      exact (if_neg hfits).symm
  | none =>
    simp only [hfirst, endScan] at hscan
    split at hscan
    · split at hscan
      next hcode =>
        split at hscan
        · rw [getOption_of_scan hscan (by simp)]
          exact (if_neg (by omega)).symm
        · rw [getOption_of_scan hscan (by simp)]
          exact (if_pos ⟨hcode, by omega⟩).symm
      next hcode =>
        rw [getOption_of_scan hscan (by simp)]
        exact (if_neg (fun hend => hcode hend.1)).symm
    · rw [getOption_of_scan hscan (by simp)]
      exact (if_neg (by omega)).symm

end

variable (call : AddCall) (options : Nat → UInt8)

/-- The data of the first option with the code, its length in front; or nothing if there is none.
-/
def Answers (entries : List Entry) (code : Int)
    (answer : Option (OptionField × Nat)) : Prop :=
  match firstWith code 0 entries with
  | some (position, e) =>
    answer = some (.options, position + 2) ∧
      (options (position + 1)).toNat = e.data.length ∧
      ∀ d (hd : d < e.data.length), options (position + 2 + d) = e.data[d]
  | none => answer = none

/-- The option ends within the 308 bytes that are looked at, and the end marker is not asked for,
or what stands in for its length makes it too long. -/
def WithinReach (before : Nat → UInt8) (entries : List Entry) (code : Int) : Prop :=
  match firstWith code 0 entries with
  | some (position, e) => position + 1 + e.data.length < 308
  | none => code = 255 → 308 ≤ size entries + 1 + (before (size entries + 1)).toNat

/-- After any options have been accepted into an area with only the end marker, the answer for a
code is right exactly if the option is within reach. -/
theorem get_option_right_iff (packet : DhcpMessage)
    (hempty : packet.options 0 = dhcpEnd) (calls : List AddCall)
    (hcodes : ∀ call ∈ calls, Plain call.code) (fuel : Nat) (final : Nat → UInt8)
    (haccept : acceptAll fuel calls packet.options = some final) (code : Int) :
    Answers final (calls.filterMap AddCall.entry) code
        (getOption { packet with options := final } code) ↔
      WithinReach packet.options (calls.filterMap AddCall.entry) code := by
  obtain ⟨hstored, hplain, hbehind⟩ := acceptAll_stored
    (show Stored dhcpEnd packet.options 0 [] from hempty) (by simp) hcodes haccept
  rw [nil_append] at hstored hplain hbehind
  have hanswer := @getOption_stored _ { packet with options := final } hstored hplain code
  unfold Answers WithinReach
  rw [hanswer]
  cases hfirst : firstWith code 0 (calls.filterMap AddCall.entry) with
  | some found =>
    obtain ⟨rest, hentry⟩ := hstored.firstWith hfirst
    simp only
    constructor
    · rintro ⟨hfound, _⟩
      by_contra hlong
      rw [if_pos (by omega)] at hfound
      cases hfound
    · intro hfits
      rw [if_neg (by omega)]
      exact ⟨rfl, hentry.length, fun d hd => hentry.data hd⟩
  | none =>
    simp only
    rw [← hbehind (size (calls.filterMap AddCall.entry) + 1) (by omega)]
    constructor
    · intro hnone hcode
      by_contra hshort
      rw [if_pos ⟨hcode, by omega⟩] at hnone
      cases hnone
    · intro hreach
      rw [if_neg]
      rintro ⟨hcode, hshort⟩
      omega

def emptyMessage : DhcpMessage where
  options := fun i => if i = 0 then dhcpEnd else 0
  file := fun _ => 0
  sname := fun _ => 0

def offerCalls : List AddCall :=
  [.simple 0x35 2, .string ⟨0x0c, [0x68, 0x67], by decide⟩]

theorem host_name_of_offer_found :
    ∃ final, acceptAll 3 offerCalls emptyMessage.options = some final ∧
      Answers final (offerCalls.filterMap AddCall.entry) 0x0c
        (getOption { emptyMessage with options := final } 0x0c) := by
  have hcodes : ∀ call ∈ offerCalls, Plain call.code := by
    intro call hcall
    rcases mem_pair.mp hcall with rfl | rfl
    · exact ⟨by decide, by decide, by decide⟩
    · exact ⟨by decide, by decide, by decide⟩
  refine ⟨_, rfl, ?_⟩
  rw [get_option_right_iff emptyMessage rfl offerCalls hcodes 3 _ rfl]
  show 3 + 1 + 2 < 308
  decide

def vendorOption : Entry :=
  ⟨0x2b, replicate 255 0x41, by rw [length_replicate]; decide⟩

def domainOption : Entry :=
  ⟨0x0f, replicate 60 0x42, by rw [length_replicate]; decide⟩

/-- The name of the domain fits behind a vendor option of 255 bytes, but is not found again. -/
theorem domain_behind_long_option_lost :
    ∃ final, acceptAll 3 [.string vendorOption, .string domainOption]
        emptyMessage.options = some final ∧
      getOption { emptyMessage with options := final } 0x0f = none ∧
      ¬Answers final [vendorOption, domainOption] 0x0f
        (getOption { emptyMessage with options := final } 0x0f) := by
  have hvendor : vendorOption.size = 257 := by
    rw [Entry.size, vendorOption, length_replicate]
  have hdomain : domainOption.data.length = 60 := length_replicate
  have hplain : ∀ e ∈ [vendorOption, domainOption], Plain e.code := by
    intro e he
    rcases mem_pair.mp he with rfl | rfl
    · exact ⟨by decide, by decide, by decide⟩
    · exact ⟨by decide, by decide, by decide⟩
  have hempty : Stored dhcpEnd emptyMessage.options 0 [] := rfl
  have hone : Stored dhcpEnd (append dhcpEnd emptyMessage.options 0 vendorOption) 0
      [vendorOption] := hempty.append vendorOption
  have hfirst := @addOptionString_fits _ _ hempty (by simp) vendorOption 3 (by simp)
    (by rw [hvendor]; simp)
  have hsecond := @addOptionString_fits _ _ hone
    (fun e he => (hplain e (by rw [mem_singleton.mp he]; simp)).proper) domainOption 3 (by simp)
    (by rw [size_cons, hvendor, Entry.size, hdomain]; simp)
  have haccept : ∃ final, acceptAll 3 [.string vendorOption, .string domainOption]
      emptyMessage.options = some final :=
    ⟨_, by simp only [acceptAll, AddCall.perform, hfirst, size_nil, hsecond]; rfl⟩
  obtain ⟨final, haccept⟩ := haccept
  obtain ⟨hstored, _, _⟩ := acceptAll_stored hempty (by simp)
    (by simpa [AddCall.code] using hplain) haccept
  have hat : firstWith 0x0f 0 [vendorOption, domainOption] = some (257, domainOption) := by
    rw [firstWith, if_neg (by decide), firstWith, if_pos (by decide), hvendor]
  have hnone : getOption { emptyMessage with options := final } 0x0f = none := by
    have hanswer := @getOption_stored [vendorOption, domainOption]
      { emptyMessage with options := final } hstored hplain 0x0f
    simp only [hat, hdomain] at hanswer
    exact hanswer
  refine ⟨final, haccept, hnone, ?_⟩
  rw [Answers, hat, hnone]
  simp

/-! ### The area while options are appended -/

/-- Complete options, and the end marker behind them within the area. -/
def HoldsOptions (entries : List Entry) : Prop :=
  Stored dhcpEnd options 0 entries ∧ (∀ e ∈ entries, Proper e.code) ∧ size entries < 1024

/-- A call that succeeds appends its option, and one that is refused changes nothing. -/
def Appends : Prop :=
  ∃ entries next result, HoldsOptions options entries ∧
    call.perform 1024 options = some (next, result) ∧
    if result = 0 then next = options
    else ∃ e, call.entry = some e ∧ HoldsOptions next (entries ++ [e])

/-- `add_simple_option` is only called with a code whose length is not negative, and when the
option and the end marker fit. -/
def Roomy : AddCall → (Nat → UInt8) → Prop
  | .string _, _ => True
  | .simple code _, options => simpleLength code = 0 ∨ 0 < simpleLength code ∧
      ∀ position ∈ endOption options 1024 0, position + simpleLength code + 2 < 1024

def addStep : Nat → UInt8 :=
  ((call.perform 1024 options).map Prod.fst).getD options

private theorem simpleLength_lt (code : UInt8) : simpleLength code < 128 := by
  unfold simpleLength
  split
  · decide
  next option _ =>
    have hle : optionLength option.1 ≤ 128 := by
      cases option.1 <;> decide
    split <;> omega

theorem simpleEntry_size (code : UInt8) {length : Nat} (data : Nat) (hlength : length < 128) :
    (simpleEntry code length data hlength).size = length + 2 := by
  simp [simpleEntry, Entry.size]

section

variable {options : Nat → UInt8} {entries : List Entry} {call : AddCall}

theorem HoldsOptions.endOption (h : HoldsOptions options entries) :
    endOption options 1024 0 = some (size entries) := by
  obtain ⟨hstored, hproper, hsize⟩ := h
  have hlength : (entries.map Entry.size).length ≤ size entries := by
    apply length_le_sum_of_one_le
    intro n hn
    obtain ⟨e, _, rfl⟩ := mem_map.mp hn
    simp only [Entry.size]
    omega
  rw [length_map] at hlength
  rw [endOption_stored hstored hproper, if_pos (by omega), zero_add]

theorem HoldsOptions.append (h : HoldsOptions options entries) {e : Entry} (hcode : Proper e.code)
    (hroom : size entries + e.size < 1024) :
    HoldsOptions (append dhcpEnd options (size entries) e) (entries ++ [e]) := by
  have hstored := h.1.append e
  rw [zero_add] at hstored
  refine ⟨hstored, ?_, ?_⟩
  · rw [forall_mem_append, forall_mem_singleton]
    exact ⟨h.2.1, hcode⟩
  · rw [size_append]
    exact hroom

theorem Appends.holds (h : Appends call options) :
    ∃ entries, HoldsOptions (addStep call options) entries := by
  obtain ⟨entries, next, result, hholds, hperform, hresult⟩ := h
  rw [addStep, hperform]
  split at hresult
  · exact ⟨entries, hresult ▸ hholds⟩
  · obtain ⟨e, _, hnext⟩ := hresult
    exact ⟨entries ++ [e], hnext⟩

theorem HoldsOptions.appends_iff (h : HoldsOptions options entries) (hcode : Proper call.code) :
    Appends call options ↔ Roomy call options := by
  cases call with
  | string entry =>
    refine iff_of_true ⟨entries, ?_⟩ trivial
    simp only [AddCall.perform, addOptionString, h.endOption, map_some, some.injEq]
    split
    · exact ⟨_, 0, h, rfl, rfl⟩
    next hfits =>
      refine ⟨_, entry.data.length + 2, h, rfl, ?_⟩
      exact ⟨entry, rfl, h.append hcode (by simp only [Entry.size]; omega)⟩
  | simple code data =>
    have hlt := simpleLength_lt code
    simp only [Appends, Roomy, AddCall.perform, addSimpleOption, AddCall.entry]
    by_cases hzero : simpleLength code = 0
    · simp only [hzero, if_true, true_or, iff_true]
      exact ⟨entries, options, 0, h, rfl, rfl⟩
    by_cases hpos : 0 < simpleLength code
    · simp only [hzero, hpos, hlt, and_self, dif_pos, if_false, false_or, true_and]
      constructor
      · rintro ⟨before, next, result, hbefore, hperform, hresult⟩ position hposition
        rw [hbefore.endOption, mem_some_iff] at hposition
        rw [hbefore.endOption] at hperform
        cases hperform
        rw [if_neg (by omega)] at hresult
        obtain ⟨e, he, _, _, hsize⟩ := hresult
        cases he
        rw [size_append, size_cons, simpleEntry_size] at hsize
        omega
      · intro hroom
        have hfits := hroom _ h.endOption
        refine ⟨entries, _, _, h, by rw [h.endOption]; rfl, ?_⟩
        rw [if_neg (by omega)]
        refine ⟨_, rfl, h.append hcode ?_⟩
        rw [simpleEntry_size]
        omega
    · simp [hzero, hpos]

end

/-- The area stays well formed, a call that succeeds appends its option and one that is refused
changes nothing, exactly if each `add_simple_option` finds room and a length it can copy. -/
theorem options_appended_iff (options : Nat → UInt8) (hempty : options 0 = dhcpEnd)
    (calls : List AddCall) (hcodes : ∀ call ∈ calls, Proper call.code) :
    Allowed addStep Appends calls options ↔ Allowed addStep Roomy calls options := by
  have hstart : ∃ entries, HoldsOptions options entries := ⟨[], hempty, by simp, by simp⟩
  clear hempty
  induction calls generalizing options with
  | nil => exact Iff.rfl
  | cons call rest ih =>
    obtain ⟨entries, h⟩ := hstart
    rw [forall_mem_cons] at hcodes
    simp only [Allowed, ← h.appends_iff hcodes.1]
    exact and_congr_right fun happends => ih _ hcodes.2 happends.holds

/-- The type of the message, a name, and a lease time behind it. -/
theorem lease_time_appended :
    Allowed addStep Appends (offerCalls ++ [.simple 0x33 60]) emptyMessage.options := by
  have hcodes : ∀ call ∈ offerCalls ++ [.simple 0x33 60], Proper call.code := by
    simp only [offerCalls, cons_append, nil_append, forall_mem_cons]
    exact ⟨⟨by decide, by decide⟩, ⟨by decide, by decide⟩, ⟨by decide, by decide⟩, nofun⟩
  rw [options_appended_iff _ rfl _ hcodes]
  refine ⟨.inr ⟨by decide, ?_⟩, trivial, .inr ⟨by decide, ?_⟩, trivial⟩
  · rintro position ⟨⟩
    decide
  · rintro position ⟨⟩
    decide

/-- Strings up to two bytes before the end of the area, and the type of the message behind them. -/
def fullCalls : List AddCall :=
  replicate 3 (.string vendorOption) ++
    [.string ⟨0x2b, replicate 249 0x41, by rw [length_replicate]; decide⟩, .simple 0x35 2]

/-- The end marker lands behind the area. -/
theorem simple_option_behind_area :
    endOption (run addStep fullCalls emptyMessage.options) 1024 0 = some 1025 ∧
      ¬Allowed addStep Appends fullCalls emptyMessage.options := by
  have hend : endOption (run addStep fullCalls emptyMessage.options) 1024 0 = some 1025 := by
    decide +kernel
  refine ⟨hend, ?_⟩
  intro hallowed
  obtain ⟨entries, h⟩ := hallowed.invariant (P := fun area => ∃ entries, HoldsOptions area entries)
    (fun _ _ _ happends => happends.holds) ⟨[], rfl, by simp, by simp⟩
  rw [h.endOption, some_inj] at hend
  have hsize := h.2.2
  omega

end EchoLife.Dhcp

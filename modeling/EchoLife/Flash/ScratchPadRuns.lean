import EchoLife.Flash.ScratchPadCalls
import EchoLife.Flash.ScratchPadStore

/-!
Runs of calls on the scratch pad. The state carries the chip and the store that the calls which
returned 0 should have built up. Every call within the limits of the packed format keeps the two
in step.
-/

namespace EchoLife.Flash

open Buffer CString List Run Word

variable {pBuf : Nat → UInt8} {spec : TokenName → Option (List UInt8)}

theorem hasMagic_blank (hzero : ∀ i, i < 8192 → pBuf i = 0) : hasMagic pBuf = false := by
  have hsame : hasMagic pBuf = hasMagic (fun _ => 0) := by
    apply hasMagic_congr
    intro i hi
    exact hzero i (by omega)
  rw [hsame]
  decide

private theorem initPad_eq_putAtEnd (pBuf : Nat → UInt8) (tokenId : List UInt8)
    (data : Nat → UInt8) (bufLen : Int) :
    initPad pBuf tokenId (some data) bufLen =
      putAtEnd pBuf tokenId (some data) bufLen spHeaderSize := by
  funext i
  simp only [initPad, putAtEnd, spHeaderSize, spTokenSize]
  rcases lt_or_ge i 32 with hhead | hrest
  · rw [blit_outside _ _ (.inl (by omega)), blit_outside _ _ (.inl hhead),
      blit_inside _ _ (Nat.zero_le i) (by omega), blit_inside _ _ (Nat.zero_le i) (by omega)]
  rw [blit_outside (blit _ _ _ _) spHead (.inr (by omega))]
  simp only [blit]
  split
  · rfl
  split
  · rfl
  · rw [if_neg (by omega)]

private theorem initPad_set (hzero : ∀ i, i < 8192 → pBuf i = 0) (t : Token) (data : Nat → UInt8)
    (hdata : slice data 0 t.data.length = t.data) (hroom : 32 + t.size ≠ 8192) :
    Represents (initPad pBuf t.name.chars (some data) t.data.length)
      (storeUpdate (fun _ => none) t.name (some t.data)) := by
  have hfit : 32 + t.size < 8192 := by
    have hlt := t.data_lt
    simp only [Token.size, skipLen_natCast, spTokenSize] at hroom ⊢
    omega
  have hempty : Laid pBuf 32 [] 32 := Laid.nil 32
  rw [initPad_eq_putAtEnd]
  refine .inr ⟨[t], 32 + t.size, ?_, ?_⟩
  · exact padHolds_append hempty (fun i _ hi => hzero i hi) nodup_nil t
      (by simp) data hdata hfit
  · intro name
    exact (lookup_append_token [] t (by simp) name).symm

/-- A deletion with length 0 on a blank pad leaves a record that no walk takes
for a token. -/
theorem initPad_delete (hzero : ∀ i, i < 8192 → pBuf i = 0) (tokenId : List UInt8) :
    Represents (initPad pBuf tokenId none 0) (fun _ => none) := by
  refine .inr ⟨[], 32, ⟨?_, Laid.nil 32, by decide, .inr ⟨rfl, ?_⟩, ?_, nodup_nil⟩, fun _ => rfl⟩
  · rw [← hasMagic_spHead pBuf]
    apply hasMagic_congr
    intro i hi
    exact blit_outside _ _ (.inl (by simp only [spHeaderSize]; omega))
  · refine (be32_congr ?_).trans (spToken_len tokenId (n := 0) (by decide))
    intro d hd
    simp only [initPad, spHeaderSize, spTokenSize]
    rw [blit_inside _ _ (by omega) (by omega)]
    congr 1
    omega
  · intro i hlo hhi
    simp only [initPad, spHeaderSize, spTokenSize]
    rw [blit_outside _ _ (.inr (by omega)), blit_outside _ _ (.inr (by omega))]
    exact hzero i hhi

def stored (tokBuf : Option (Nat → UInt8)) (bufLen : Int) : Option (List UInt8) :=
  tokBuf.map (fun data => slice data 0 bufLen.toNat)

def Refused (info : FlashAddrInfo) (pBuf : Nat → UInt8) (kmallocOk : Bool) (bufLen : Int) : Prop :=
  exceedsPad info bufLen = true ∨ kmallocOk = false ∨
    (hasMagic pBuf = true ∧ 8192 < (padUsedLen 8192 pBuf : Int) + bufLen + spTokenSize)

variable {bufLen : Int}

theorem updatePad_eq_none {padLen : Int} (tokenId : List UInt8) (tokBuf : Option (Nat → UInt8))
    (hoverflow : padLen < padUsedLen padLen pBuf + bufLen + spTokenSize) :
    updatePad padLen pBuf tokenId tokBuf bufLen = none := by
  exact if_pos hoverflow

/-- A name of 1 to 15 characters that starts in `A..z`, data that is not empty, a token that does
not fill the pad to its last byte; a deletion on a pad without a header has length 0. -/
def WithinFormat (pBuf : Nat → UInt8) (name : TokenName)
    (tokBuf : Option (Nat → UInt8)) (bufLen : Int) : Prop :=
  match tokBuf with
  | none => hasMagic pBuf = true ∨ bufLen = 0
  | some _ =>
    name.Storable ∧ bufLen ≠ 0 ∧
    (hasMagic pBuf = false → spHeaderSize + (spTokenSize + skipLen bufLen) ≠ 8192) ∧
    (hasMagic pBuf = true → padFind 8192 pBuf name.chars = none →
      padUsedLen 8192 pBuf + (spTokenSize + skipLen bufLen) ≠ 8192)

variable {name : TokenName} {chip : CfiPart} {info : FlashAddrInfo} {b : Boundaries} {env : Env}
  {dev : Dev}

theorem exists_token (hstorable : name.Storable)
    (data : Nat → UInt8) (hpos : 0 < bufLen) (hlt : bufLen < 8140) :
    ∃ t : Token, t.name = name ∧ t.data = slice data 0 bufLen.toNat ∧
      (t.data.length : Int) = bufLen ∧ slice data 0 t.data.length = t.data := by
  have hlength : (slice data 0 bufLen.toNat).length = bufLen.toNat :=
    slice_length _ _ _
  refine ⟨⟨name, slice data 0 bufLen.toNat, hstorable, by omega, by omega⟩, rfl, rfl, ?_, ?_⟩
  · simp only [hlength]
    omega
  · simp only [hlength]

private theorem updatePad_represents {pBuf' : Nat → UInt8} {ts : List Token} {e : Nat}
    (h : PadHolds pBuf ts e) (name : TokenName) (tokBuf : Option (Nat → UInt8))
    (hnonneg : 0 ≤ bufLen) (hlt : bufLen < 8140) (hformat : WithinFormat pBuf name tokBuf bufLen)
    (hupdate : updatePad 8192 pBuf name.chars tokBuf bufLen = some pBuf') :
    Represents pBuf' (storeUpdate (fun n => lookup n ts) name (stored tokBuf bufLen)) := by
  cases tokBuf with
  | none => exact updatePad_delete h name bufLen hupdate
  | some data =>
    obtain ⟨hstorable, hne, _, hroom⟩ := hformat
    obtain ⟨t, rfl, hdata, hlength, hslice⟩ :=
      exists_token hstorable data (by omega) hlt
    have hfree := hroom h.magic
    rw [h.padFind_eq, h.padUsedLen_eq, ← hlength] at hfree
    rw [← hlength] at hupdate
    simp only [stored, Option.map_some, ← hdata]
    exact updatePad_set h t data hslice hfree hupdate

private theorem initPad_represents (hzero : ∀ i, i < 8192 → pBuf i = 0) (name : TokenName)
    (tokBuf : Option (Nat → UInt8)) (hnonneg : 0 ≤ bufLen)
    (hlt : bufLen < 8140) (hformat : WithinFormat pBuf name tokBuf bufLen) :
    Represents (initPad pBuf name.chars tokBuf bufLen)
      (storeUpdate (fun _ => none) name (stored tokBuf bufLen)) := by
  have hmagic := hasMagic_blank hzero
  cases tokBuf with
  | none =>
    have hlength : bufLen = 0 := by
      rcases hformat with hheader | hlength
      · rw [hmagic] at hheader
        cases hheader
      · exact hlength
    have hsame : storeUpdate (fun _ => none) name (stored none bufLen) = fun _ => none := by
      funext n
      simp [storeUpdate, stored]
    rw [hlength] at hsame ⊢
    rw [hsame]
    exact initPad_delete hzero name.chars
  | some data =>
    obtain ⟨hstorable, hne, hroom, _⟩ := hformat
    obtain ⟨t, rfl, hdata, hlength, hslice⟩ :=
      exists_token hstorable data (by omega) hlt
    have hfree := hroom hmagic
    rw [← hlength] at hfree ⊢
    simp only [stored, Option.map_some, Int.toNat_natCast, hslice]
    exact initPad_set hzero t data hslice hfree

theorem Represents.blank (h : Represents pBuf spec) (hmagic : hasMagic pBuf = false) :
    (∀ i, i < 8192 → pBuf i = 0) ∧ spec = fun _ => none := by
  rcases h with ⟨hzero, hnone⟩ | ⟨ts, e, hpad, _⟩
  · exact ⟨hzero, funext hnone⟩
  · rw [hpad.magic] at hmagic
    cases hmagic

theorem Represents.holds (h : Represents pBuf spec) (hmagic : hasMagic pBuf = true) :
    ∃ ts e, PadHolds pBuf ts e ∧ spec = fun id => lookup id ts := by
  rcases h with ⟨hzero, _⟩ | ⟨ts, e, hpad, hspec⟩
  · rw [hasMagic_blank hzero] at hmagic
    cases hmagic
  · exact ⟨ts, e, hpad, funext hspec⟩

section

variable {left right : Nat → UInt8}

theorem hasMagic_agree (hsame : AgreeOn left right 0 8192) : hasMagic left = hasMagic right :=
  hasMagic_congr (fun i hi => hsame i (Nat.zero_le i) (by omega))

theorem Represents.walks_eq (h : Represents left spec)
    (hsame : AgreeOn left right 0 8192) (hmagic : hasMagic right = true) :
    padUsedLen 8192 left = padUsedLen 8192 right ∧
    ∀ name : TokenName, padFind 8192 left name.chars = padFind 8192 right name.chars := by
  obtain ⟨ts, e, hpad, _⟩ := h.holds ((hasMagic_agree hsame).trans hmagic)
  have hother := hpad.congr hsame
  constructor
  · rw [hpad.padUsedLen_eq, hother.padUsedLen_eq]
  · intro name
    rw [hpad.padFind_eq, hother.padFind_eq]

theorem WithinFormat.congr (hrep : Represents left spec) (hsame : AgreeOn left right 0 8192)
    {tokBuf : Option (Nat → UInt8)} (h : WithinFormat left name tokBuf bufLen) :
    WithinFormat right name tokBuf bufLen := by
  have hheader := hasMagic_agree hsame
  cases tokBuf with
  | none =>
    simp only [WithinFormat, hheader] at h ⊢
    exact h
  | some data =>
    obtain ⟨hstorable, hne, hfirst, hnext⟩ := h
    rw [hheader] at hfirst hnext
    refine ⟨hstorable, hne, hfirst, ?_⟩
    intro hmagic
    obtain ⟨hused, hfind⟩ := hrep.walks_eq hsame hmagic
    rw [← hused, ← hfind]
    exact hnext hmagic

end

section Chip

variable (hstacked : Stacked chip info b)

include hstacked

private theorem kerSysScratchPadGet_answer (halloc : env.kmallocOk = true)
    (h : Represents (padOn chip info dev.mem) spec) (heap : Nat → UInt8) (name : TokenName)
    {bufLen : Int32} (hnonneg : 0 ≤ bufLen.toInt) (hlt : bufLen.toInt < 8140) :
    (kerSysScratchPadGet env chip info heap name.chars bufLen.toInt
      dev).2 = answer (spec name) := by
  have hexceeds := (exceedsPad_eq_false_iff hstacked bufLen).mpr ⟨hnonneg, hlt⟩
  obtain ⟨hcopy, hview⟩ := getSharedBlks_padCopy hstacked halloc heap dev
  have hrep := h.congr (hstacked.agreeOn_padCopy heap dev.mem)
  simp only [kerSysScratchPadGet, if_neg hstacked.sp_length_ne, hexceeds, hcopy, hview]
  cases hmagic : hasMagic (padCopy chip info heap dev.mem) with
  | false =>
    obtain ⟨_, rfl⟩ := hrep.blank hmagic
    rfl
  | true =>
    obtain ⟨ts, e, hpad, rfl⟩ := hrep.holds hmagic
    rw [hstacked.sp_length_eq]
    exact hpad.readPad_eq name

section

variable (hcells : ∀ s, env.cells s = none)
  (h : Represents (padOn chip info dev.mem) spec) (heap : Nat → UInt8)
include hcells h heap

private theorem kerSysScratchPadGet_represents (tokenId : List UInt8) (bufLen : Int) :
    Represents (padOn chip info (kerSysScratchPadGet env
      chip info heap tokenId bufLen dev).1.mem) spec := by
  simp only [kerSysScratchPadGet]
  split
  · exact h
  split
  · exact h
  cases halloc : env.kmallocOk with
  | false =>
    rw [getSharedBlks_eq_none halloc]
    exact h
  | true =>
    obtain ⟨hcopy, hview⟩ := getSharedBlks_padCopy hstacked halloc heap dev
    have hrep := h.congr (hstacked.agreeOn_padCopy heap dev.mem)
    simp only [hcopy, hview]
    split
    · exact h
    rename_i hmagic
    obtain ⟨_, rfl⟩ := hrep.blank (by simpa using hmagic)
    rcases kerSysScratchPadClearAll_cases hstacked hcells heap dev with
      hfailed | ⟨_, hblank⟩
    · rw [hfailed]
      exact h
    · exact .inl ⟨hblank, fun _ => rfl⟩

/-- A call that is refused or within the format does to the store what its status says. -/
theorem kerSysScratchPadSet_represents (name : TokenName) (tokBuf : Option (Nat → UInt8))
    (bufLen : Int32) (hok : Refused info (padOn chip info dev.mem) env.kmallocOk bufLen.toInt ∨
      WithinFormat (padOn chip info dev.mem) name tokBuf bufLen.toInt) :
    Represents
      (padOn chip info (kerSysScratchPadSet env chip info
        heap name.chars tokBuf bufLen.toInt dev).1.mem)
      (if (kerSysScratchPadSet env chip info heap name.chars tokBuf bufLen.toInt dev).2 = 0
        then storeUpdate spec name (stored tokBuf bufLen.toInt) else spec) := by
  have hsame := hstacked.agreeOn_padCopy heap dev.mem
  rcases kerSysScratchPadSet_cases hstacked env heap name.chars tokBuf bufLen.toInt dev
    with ⟨_, hcall⟩ | ⟨halloc, hlimit, pBuf, hpad, hwrites, hmem⟩
  · rw [hcall]
    exact h
  obtain ⟨hnonneg, hlt⟩ := (exceedsPad_eq_false_iff hstacked bufLen).mp hlimit
  have hstatus := hwrites hcells
  have hafter := padOn_blit chip info dev.mem pBuf
  have hrep := h.congr hsame
  have hformat : WithinFormat (padCopy chip info heap dev.mem) name tokBuf bufLen.toInt := by
    rcases hok with hrefused | hformat
    · rcases hrefused with hlong | hmemory | ⟨hmagic, hoverflow⟩
      · rw [hlimit] at hlong
        cases hlong
      · rw [halloc] at hmemory
        cases hmemory
      rw [hasMagic_agree hsame] at hmagic
      rw [(h.walks_eq hsame hmagic).1] at hoverflow
      rw [if_pos hmagic, updatePad_eq_none _ _ hoverflow] at hpad
      cases hpad
    · exact hformat.congr h hsame
  rw [if_pos hstatus, hmem hstatus]
  refine Represents.congr ?_ hafter.symm
  cases hmagic : hasMagic (padCopy chip info heap dev.mem) with
  | false =>
    rw [hmagic] at hpad
    cases hpad
    obtain ⟨hzero, rfl⟩ := hrep.blank hmagic
    exact initPad_represents hzero name tokBuf hnonneg hlt hformat
  | true =>
    rw [if_pos hmagic] at hpad
    obtain ⟨ts, e, hholds, rfl⟩ := hrep.holds hmagic
    exact updatePad_represents hholds name tokBuf hnonneg hlt hformat hpad

end

end Chip

/-- A call on the pad, with the primitives and the heap bytes it meets. -/
inductive PadCall where
  | set (env : Env) (heap : Nat → UInt8) (name : TokenName)
      (tokBuf : Option (Nat → UInt8)) (bufLen : Int32)
  | clearAll (env : Env) (heap : Nat → UInt8)
  | get (env : Env) (heap : Nat → UInt8) (name : TokenName) (bufLen : Int32)

structure PadState where
  dev : Dev
  spec : TokenName → Option (List UInt8)

/-- The store takes the new data, or loses the name, exactly when the call returned 0. -/
def PadCall.step (part : FlashPart) (info : FlashAddrInfo) : PadCall → PadState → PadState
  | .set env heap name tokBuf bufLen, s =>
    let (dev, sts) := kerSysScratchPadSet env part info heap name.chars tokBuf bufLen.toInt s.dev
    ⟨dev, if sts = 0 then storeUpdate s.spec name (stored tokBuf bufLen.toInt)
      else s.spec⟩
  | .clearAll env heap, s =>
    let (dev, sts) := kerSysScratchPadClearAll env part info heap s.dev
    ⟨dev, if sts = 0 then fun _ => none else s.spec⟩
  | .get env heap name bufLen, s =>
    ⟨(kerSysScratchPadGet env part info heap name.chars bufLen.toInt s.dev).1, s.spec⟩

/-- The chip keeps what is written, and `kerSysScratchPadSet` is refused or stays within the
format. -/
def PadCall.Ok (part : FlashPart) (info : FlashAddrInfo) : PadCall → PadState → Prop
  | .set env _ name tokBuf bufLen, s =>
    (∀ sector, env.cells sector = none) ∧
    (Refused info (padOn part info s.dev.mem) env.kmallocOk bufLen.toInt ∨
      WithinFormat (padOn part info s.dev.mem) name tokBuf bufLen.toInt)
  | .clearAll env _, _ => ∀ sector, env.cells sector = none
  | .get env _ _ _, _ => ∀ sector, env.cells sector = none

theorem PadCall.step_represents (hstacked : Stacked chip info b) (c : PadCall) (s : PadState)
    (hok : c.Ok chip info s) (h : Represents (padOn chip info s.dev.mem) s.spec) :
    Represents (padOn chip info (c.step chip info s).dev.mem) (c.step chip info s).spec := by
  cases c with
  | set env heap name tokBuf bufLen =>
    obtain ⟨hcells, hcall⟩ := hok
    exact kerSysScratchPadSet_represents hstacked hcells h heap name tokBuf bufLen hcall
  | clearAll env heap =>
    simp only [PadCall.step]
    rcases kerSysScratchPadClearAll_cases hstacked hok heap s.dev with
      hfailed | ⟨hstatus, hblank⟩
    · rw [hfailed]
      exact h
    · rw [if_pos hstatus]
      exact .inl ⟨hblank, fun _ => rfl⟩
  | get env heap name bufLen =>
    exact kerSysScratchPadGet_represents hstacked hok h heap name.chars bufLen.toInt

/-- After every run of calls that the format can represent, from an all-zero pad on,
`kerSysScratchPadGet` answers every name from the store that the successful calls built up: the
data just stored, nothing for a deleted or never-set name, and for the others what it was before.
-/
theorem scratch_pad_is_a_store (chip : CfiPart) (prior : Nat → UInt8) (bpGetPsiSize : Option Nat)
    (info : FlashAddrInfo) (hinit : kerSysFlashInit chip prior bpGetPsiSize = some info) (dev : Dev)
    (hblank : ∀ i, i < 8192 → padOn chip info dev.mem i = 0) (s : PadState)
    (hreach : Reaches (PadCall.step chip info) (PadCall.Ok chip info) ⟨dev, fun _ => none⟩ s)
    (env : Env) (halloc : env.kmallocOk = true) (heap : Nat → UInt8) (name : TokenName)
    (bufLen : Int32) (hnonneg : 0 ≤ bufLen.toInt) (hlt : bufLen.toInt < 8140) :
    (kerSysScratchPadGet env chip info heap name.chars bufLen.toInt
      s.dev).2 = answer (s.spec name) := by
  obtain ⟨b, hstacked⟩ :=
    kerSysFlashInit_stacked chip prior bpGetPsiSize info hinit
  have hrep : Represents (padOn chip info s.dev.mem) s.spec :=
    hreach.invariant (.inl ⟨hblank, fun _ => rfl⟩) (PadCall.step_represents hstacked)
  exact kerSysScratchPadGet_answer hstacked halloc hrep heap name hnonneg hlt

def psiName : TokenName where
  chars := [0x50, 0x53, 0x49]
  nul_free := by decide

def storePsi : PadCall :=
  .set Env.working (fun _ => 0xA5) psiName (some (fun _ => 1)) 4

def blankPad : PadState where
  dev := ⟨fun _ => 0, []⟩
  spec := fun _ => none

private theorem storePsi_ok : storePsi.Ok topBootPart topBootInfo blankPad := by
  refine ⟨fun _ => rfl, .inr ⟨?_, by decide, ?_, ?_⟩⟩
  · exact ⟨by decide, by decide, by decide⟩
  · decide
  nofun

theorem topBoot_scratch_pad_is_a_store :
    kerSysFlashInit topBootPart (fun _ => 0xFF) none = some topBootInfo ∧
    storePsi.Ok topBootPart topBootInfo blankPad ∧
    (kerSysScratchPadGet Env.working topBootPart topBootInfo (fun _ => 0x5A)
      psiName.chars (16 : Int32).toInt
      (storePsi.step topBootPart topBootInfo blankPad).dev).2 =
    answer ((storePsi.step topBootPart topBootInfo blankPad).spec psiName) :=
  ⟨kerSysFlashInit_topBoot (fun _ => 0xFF), storePsi_ok,
    scratch_pad_is_a_store topBootChip (fun _ => 0xFF) none topBootInfo
      (kerSysFlashInit_topBoot (fun _ => 0xFF)) blankPad.dev (fun _ _ => rfl) _
      (Reaches.step storePsi Reaches.start storePsi_ok) Env.working rfl
      (fun _ => 0x5A) psiName 16 (by decide) (by decide)⟩

/-- A name of 16 characters is cut to 15 when it is stored, and never found again. -/
theorem long_name_is_stored_and_lost :
    (kerSysScratchPadSet Env.working topBootPart topBootInfo (fun _ => 0)
      (replicate 16 0x41) (some (fun _ => 1)) 4 ⟨fun _ => 0, []⟩).2 = 0 ∧
    (kerSysScratchPadGet Env.working topBootPart topBootInfo (fun _ => 0)
      (replicate 16 0x41) 16
      (kerSysScratchPadSet Env.working topBootPart topBootInfo (fun _ => 0)
        (replicate 16 0x41) (some (fun _ => 1)) 4 ⟨fun _ => 0, []⟩).1).2 =
      (-1, []) := by
  decide +kernel

end EchoLife.Flash

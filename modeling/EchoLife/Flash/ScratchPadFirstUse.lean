import EchoLife.Flash.ScratchPadBounds

/-!
The first write to a pad without a header. `kerSysScratchPadClearAll` blanks the pad on the chip,
but what is then written is the copy that was taken before, with the header and the token put over
it. The bytes behind the token are those of before, and are read as tokens whenever they look like
one.
-/

namespace EchoLife.Flash

open Buffer CString List Word

section
variable (pBuf : Nat → UInt8)

def nameAt (p : Nat) : List UInt8 :=
  CString.field tokenNameLen (view pBuf p)

/-- A record at `p`, inside the pad, that the loop of `kerSysScratchPadGet` takes for a token. -/
def RecordAt (p : Nat) : Prop :=
  p + spTokenSize ≤ 8192 ∧ pBuf p ≠ 0 ∧ 0 < tokenLenAt pBuf p ∧ tokenLenAt pBuf p < 8192

instance (pBuf : Nat → UInt8) (p : Nat) : Decidable (RecordAt pBuf p) :=
  inferInstanceAs (Decidable (_ ∧ _))

def recordsFrom (pBuf : Nat → UInt8) : Nat → Nat → List (List UInt8 × List UInt8)
  | 0, _ => []
  | rounds + 1, p =>
    if RecordAt pBuf p then
      (nameAt pBuf p, slice pBuf (p + spTokenSize) (tokenLenAt pBuf p).toNat) ::
        recordsFrom pBuf rounds (p + recordSize pBuf p)
    else []

def padRecords : List (List UInt8 × List UInt8) :=
  if hasMagic pBuf then recordsFrom pBuf 8192 spHeaderSize else []

private theorem nameAt_eq_nil_iff (p : Nat) : nameAt pBuf p = [] ↔ pBuf p = 0 := by
  have hfirst : view pBuf p 0 = pBuf p := rfl
  rw [nameAt, tokenNameLen, field_succ, hfirst]
  split
  next hzero =>
    simp [hzero]
  next hzero =>
    simp [hzero]

end

theorem recordAt_congr {left right : Nat → UInt8} {p : Nat}
    (h : p + spTokenSize ≤ 8192 → ∀ i, p ≤ i → i < p + spTokenSize → left i = right i) :
    RecordAt left p ↔ RecordAt right p := by
  apply and_congr_right
  intro hp
  simp only [spTokenSize] at hp h
  have hlen : tokenLenAt left p = tokenLenAt right p := by
    apply tokenLenAt_congr
    intro i hlo hhi
    simp only [tokenNameLen] at hlo hhi
    exact h hp i (by omega) (by omega)
  rw [h hp p le_rfl (by omega), hlen]

private theorem recordsFrom_eq_singleton_iff (pBuf : Nat → UInt8) (rounds p : Nat)
    (record : List UInt8 × List UInt8) :
    recordsFrom pBuf (rounds + 2) p = [record] ↔
      RecordAt pBuf p ∧
      (nameAt pBuf p, slice pBuf (p + spTokenSize) (tokenLenAt pBuf p).toNat) = record ∧
      ¬RecordAt pBuf (p + recordSize pBuf p) := by
  rw [recordsFrom]
  split
  next hrecord =>
    rw [recordsFrom]
    split
    next hnext =>
      simp [hnext]
    next hnext =>
      simp [hrecord, hnext]
  next hrecord =>
    simp [hrecord]

variable {after : Nat → UInt8} {i : Nat}

section Fresh

variable {pBuf : Nat → UInt8} {name : TokenName} {data : Nat → UInt8} {len : Nat}

section

variable {p : Nat}

theorem nameAt_spToken {bufLen : Int}
    (hbytes : ∀ i, i < 16 → after (p + i) = spToken name.chars bufLen i) :
    nameAt after p = name.chars.take 15 := by
  have hfree : 0 ∉ name.chars.take 15 :=
    fun h => name.nul_free (mem_of_mem_take h)
  have hfield := field_buffer tokenNameLen hfree
  have hcut : min tokenNameLen 15 = 15 := rfl
  rw [take_take, hcut] at hfield
  rw [← hfield]
  apply field_congr
  intro i hi
  exact (hbytes i hi).trans (spToken_name _ _ hi)

section

variable (hlen : len < 8192)
  (hbytes : ∀ i, i < spTokenSize → after (p + i) = spToken name.chars len i)
include hlen hbytes

theorem tokenLenAt_spToken : tokenLenAt after p = len := by
  have hword : be32 after (p + 16) = len := by
    rw [← spToken_len name.chars hlen]
    apply be32_congr
    intro d hd
    rw [add_assoc]
    exact hbytes (16 + d) (by simp only [spTokenSize]; omega)
  simp only [tokenLenAt, tokenNameLen, hword]
  exact s32_of_range (by omega) (by omega)

private theorem recordAt_spToken_iff (hp : p + spTokenSize ≤ 8192) :
    RecordAt after p ↔ name.chars ≠ [] ∧ 0 < len := by
  have hname := nameAt_spToken (fun i hi => hbytes i (by simp only [spTokenSize]; omega))
  have hfirst : after p ≠ 0 ↔ name.chars ≠ [] := by
    rw [ne_eq, ← nameAt_eq_nil_iff, hname, take_eq_nil_iff]
    simp
  rw [RecordAt, hfirst, tokenLenAt_spToken hlen hbytes]
  constructor
  · rintro ⟨_, hne, hpos, _⟩
    exact ⟨hne, by omega⟩
  · rintro ⟨hne, hpos⟩
    exact ⟨hp, hne, by omega, by omega⟩

end

end

private theorem initPad_head (hi : i < spHeaderSize) :
    initPad pBuf name.chars (some data) len i = blit pBuf 0 spHeaderSize spHead i := by
  simp only [initPad, spHeaderSize, spTokenSize] at hi ⊢
  rw [blit_outside _ _ (.inl (by omega)), blit_outside _ _ (.inl (by omega))]

private theorem initPad_token (hi : i < spTokenSize) :
    initPad pBuf name.chars (some data) len (spHeaderSize + i) = spToken name.chars len i := by
  simp only [spTokenSize] at hi
  simp only [initPad, spHeaderSize, spTokenSize]
  rw [blit_outside _ _ (.inl (by omega)), blit_at _ _ hi]

private theorem initPad_data (hi : i < len) :
    initPad pBuf name.chars (some data) len (spHeaderSize + spTokenSize + i) = data i := by
  exact blit_at _ _ hi

private theorem initPad_behind (hi : spHeaderSize + spTokenSize + len ≤ i) :
    initPad pBuf name.chars (some data) len i = pBuf i := by
  simp only [initPad, Int.toNat_natCast, spHeaderSize, spTokenSize] at hi ⊢
  rw [blit_outside _ _ (.inr (by omega)), blit_outside _ _ (.inr (by omega)),
    blit_outside _ _ (.inr (by omega))]

private theorem padRecords_fresh_iff
    (hafter : AgreeOn after (initPad pBuf name.chars (some data) len) 0 8192) (hlen : len < 8140) :
    padRecords after = [(name.chars, slice data 0 len)] ↔
      name.chars ≠ [] ∧ name.chars.length ≤ 15 ∧ 0 < len ∧
        ¬RecordAt pBuf (spHeaderSize + (spTokenSize + skipLen len)) := by
  have hbyte (i : Nat) (hi : i < 8192) : after i = initPad pBuf name.chars (some data) len i :=
    hafter i (Nat.zero_le i) hi
  have htoken (i : Nat) (hi : i < 20) : after (spHeaderSize + i) = spToken name.chars len i := by
    rw [hbyte _ (by simp only [spHeaderSize]; omega), initPad_token hi]
  have hmagic : hasMagic after = true := by
    rw [← hasMagic_spHead pBuf]
    apply hasMagic_congr
    intro i hi
    rw [hbyte i (by omega), initPad_head (by simp only [spHeaderSize]; omega)]
  have hlength := tokenLenAt_spToken (by omega) htoken
  have hname := nameAt_spToken (fun i hi => htoken i (by omega))
  have hdata : slice after (spHeaderSize + spTokenSize) len = slice data 0 len := by
    apply slice_congr
    intro i hi
    rw [hbyte _ (by simp only [spHeaderSize, spTokenSize]; omega), initPad_data hi, zero_add]
  have hbehind : RecordAt after (spHeaderSize + (spTokenSize + skipLen len)) ↔
      RecordAt pBuf (spHeaderSize + (spTokenSize + skipLen len)) := by
    apply recordAt_congr
    intro hp i hlo hhi
    rw [hbyte i (by omega), initPad_behind]
    rw [skipLen_natCast] at hlo
    omega
  have hrecord := recordAt_spToken_iff (by omega) htoken (by decide)
  have hwhole : name.chars.take 15 = name.chars ↔ name.chars.length ≤ 15 :=
    take_eq_self_iff name.chars
  have hrounds : (8192 : Nat) = 8190 + 2 := rfl
  rw [padRecords, if_pos hmagic, hrounds, recordsFrom_eq_singleton_iff, recordSize,
    hlength, hname, Int.toNat_natCast, hdata, hbehind, hrecord, Prod.mk.injEq, hwhole]
  constructor
  · rintro ⟨⟨hne, hpos⟩, ⟨hshort, _⟩, hnone⟩
    exact ⟨hne, hshort, hpos, hnone⟩
  · rintro ⟨hne, hshort, hpos, hnone⟩
    exact ⟨⟨hne, hpos⟩, ⟨hshort, rfl⟩, hnone⟩

end Fresh

/-- When the first write to a pad without a header returns 0, no byte outside the pad has changed,
and the pad contains the token and no other exactly if the name has 1 to 15 characters, there is
data, and the bytes where the next record would start do not look like a token. -/
theorem first_use_stores_the_token_alone_iff (chip : CfiPart) (prior : Nat → UInt8)
    (bpGetPsiSize : Option Nat) (info : FlashAddrInfo)
    (hinit : kerSysFlashInit chip prior bpGetPsiSize = some info) (env : Env) (heap : Nat → UInt8)
    (dev : Dev) (hmagic : hasMagic (padOn chip info dev.mem) = false) (name : TokenName)
    (data : Nat → UInt8) (len : Nat) (hlen : len < 2 ^ 31)
    (hok : (kerSysScratchPadSet env chip info heap name.chars (some data) len dev).2 = 0) :
    (∀ i, i < padStart chip info ∨ padStart chip info + 8192 ≤ i →
      (kerSysScratchPadSet env chip info heap name.chars (some data) len dev).1.mem i = dev.mem i) ∧
    (padRecords (padOn chip info (kerSysScratchPadSet env
        chip info heap name.chars (some data) len dev).1.mem) = [(name.chars, slice data 0 len)] ↔
      name.chars ≠ [] ∧ name.chars.length ≤ 15 ∧ 0 < len ∧
        ¬RecordAt (padOn chip info dev.mem) (spHeaderSize + (spTokenSize + skipLen len))) := by
  obtain ⟨b, hstacked⟩ :=
    kerSysFlashInit_stacked chip prior bpGetPsiSize info hinit
  have hsame := hstacked.agreeOn_padCopy heap dev.mem
  rcases kerSysScratchPadSet_cases hstacked env heap name.chars (some data) len dev with
    ⟨_, hcall⟩ | ⟨_, hlimit, pBuf, hpad, _, hmem⟩
  · rw [hcall] at hok
    cases hok
  have hshort : len < 8140 := by
    rw [← not_le, ← exceedsPad_natCast hstacked hlen, hlimit]
    exact Bool.false_ne_true
  rw [← hasMagic_agree hsame, hmagic] at hpad
  obtain rfl : initPad (padCopy chip info heap dev.mem) name.chars
      (some data) len = pBuf := Option.some.inj hpad
  rw [hmem hok]
  constructor
  · intro i hi
    exact blit_outside _ _ hi
  have hafter := padOn_blit chip info dev.mem
    (initPad (padCopy chip info heap dev.mem) name.chars (some data) len)
  have hstale (p : Nat) : RecordAt (padCopy chip info heap dev.mem) p ↔
      RecordAt (padOn chip info dev.mem) p :=
    recordAt_congr (fun hp i _ hi => (hsame i (Nat.zero_le i) (by omega)).symm)
  rw [padRecords_fresh_iff hafter hshort, hstale]

theorem topBoot_first_use_stores_the_token_alone_iff :
    hasMagic (padOn topBootPart topBootInfo (fun _ => 0)) = false ∧
    (kerSysScratchPadSet Env.working topBootPart topBootInfo (fun _ => 0)
      psiName.chars (some (fun _ => 1)) (4 : Nat) ⟨fun _ => 0, []⟩).2 = 0 ∧
    (padRecords (padOn topBootChip.toFlashPart topBootInfo (kerSysScratchPadSet
        Env.working topBootChip.toFlashPart topBootInfo (fun _ => 0) psiName.chars
          (some (fun _ => 1)) (4 : Nat) ⟨fun _ => 0, []⟩).1.mem) =
        [(psiName.chars, slice (fun _ => 1) 0 4)] ↔
      psiName.chars ≠ [] ∧ psiName.chars.length ≤ 15 ∧ 0 < 4 ∧
        ¬RecordAt (padOn topBootPart topBootInfo (fun _ => 0))
          (spHeaderSize + (spTokenSize + skipLen (4 : Nat)))) := by
  have hmagic : hasMagic (padOn topBootPart topBootInfo (fun _ => 0)) = false := by
    decide +kernel
  have hok : (kerSysScratchPadSet Env.working topBootPart topBootInfo (fun _ => 0)
      psiName.chars (some (fun _ => 1)) (4 : Nat) ⟨fun _ => 0, []⟩).2 = 0 := by
    decide +kernel
  have hstored := first_use_stores_the_token_alone_iff topBootChip (fun _ => 0xFF) none
    topBootInfo (kerSysFlashInit_topBoot (fun _ => 0xFF)) Env.working (fun _ => 0)
    ⟨fun _ => 0, []⟩ hmagic psiName (fun _ => 1) 4 (by decide) hok
  exact ⟨hmagic, hok, hstored.2⟩

/-- A chip whose pad has no header, but the bytes of a token `B` at offset 56. -/
def staleToken : Dev where
  mem := fun i =>
    if i < padStart topBootPart topBootInfo then 0
    else
      blit (fun _ => 0) 56 spTokenSize (spToken [0x42] 4) (i - padStart topBootPart topBootInfo)
  log := []

/-- Storing four bytes under `PSI` makes the stale bytes behind them a token. -/
theorem stale_bytes_become_a_token :
    hasMagic (padOn topBootPart topBootInfo staleToken.mem) = false ∧
    (kerSysScratchPadSet Env.working topBootPart topBootInfo (fun _ => 0)
      psiName.chars (some (fun _ => 1)) 4 staleToken).2 = 0 ∧
    padRecords (padOn topBootPart topBootInfo (kerSysScratchPadSet Env.working
      topBootPart topBootInfo (fun _ => 0) psiName.chars (some (fun _ => 1)) 4 staleToken).1.mem) =
      [(psiName.chars, [1, 1, 1, 1]), ([0x42], [0, 0, 0, 0])] := by
  decide +kernel

end EchoLife.Flash

import EchoLife.Flash.ScratchPadRoom

/-!
What `kerSysScratchPadGet` reads of the heap copy and how much it copies out. The loop compares a
counter of the data bytes with the pad length while its pointer also steps over the token records,
and the copy takes the length the record states, so both bounds hold only for pads that contain
their records.
-/

namespace EchoLife.Flash

open Buffer CString List Word

/-- The bytes that the loop of `kerSysScratchPadGet` reads; a length only if the name is not
empty. -/
def getReads (padLen : Int) (pBuf : Nat → UInt8) (tokenId : List UInt8) : Nat → Nat → Nat → List Nat
  | 0, _, _ => []
  | rounds + 1, usedLen, p =>
    if pBuf p = 0 then [p]
    else
      p :: range' (p + tokenNameLen) 4 ++
        if 0 < tokenLenAt pBuf p ∧ tokenLenAt pBuf p < padLen ∧ usedLen < padLen then
          range' p (strncmpReads tokenNameLen (view pBuf p) (CString.buffer tokenId)) ++
            if namedAt pBuf tokenId p then
              range' (p + spTokenSize) (tokenLenAt pBuf p).toNat
            else getReads padLen pBuf tokenId rounds
              (usedLen + skipLen (tokenLenAt pBuf p)) (p + recordSize pBuf p)
        else []

def kerSysScratchPadGetReads (env : Env) (part : FlashPart) (info : FlashAddrInfo)
    (heap : Nat → UInt8) (tokenId : List UInt8) (bufLen : Int) (dev : Dev) :
    List Nat :=
  if info.flashScratchPad.length = 0 then []
  else if exceedsPad info bufLen then []
  else
    match getSharedBlks env part info.spStart info.spEnd heap dev with
    | none => []
    | some pShareBuf =>
      let pBuf := view pShareBuf info.flashScratchPad.blkOffset
      range' 0 magicNumLen ++
        if hasMagic pBuf then
          getReads info.flashScratchPad.length pBuf tokenId
            info.flashScratchPad.length.toNat spHeaderSize spHeaderSize
        else []

variable {p usedLen : Nat}

theorem tokenLenAt_congr {left right : Nat → UInt8}
    (h : ∀ i, p + tokenNameLen ≤ i → i < p + tokenNameLen + 4 → left i = right i) :
    tokenLenAt left p = tokenLenAt right p := by
  have hword : be32 left (p + tokenNameLen) = be32 right (p + tokenNameLen) :=
    be32_congr (fun d hd => h _ (by omega) (by omega))
  simp only [tokenLenAt, hword]

section
variable (padLen : Int) (pBuf : Nat → UInt8) (tokenId : List UInt8)

theorem getLoop_succ (rounds usedLen p : Nat) :
    getLoop padLen pBuf tokenId (rounds + 1) usedLen p =
      if pBuf p ≠ 0 ∧ 0 < tokenLenAt pBuf p ∧ tokenLenAt pBuf p < padLen ∧ usedLen < padLen then
        if namedAt pBuf tokenId p then some p
        else getLoop padLen pBuf tokenId rounds
          (usedLen + skipLen (tokenLenAt pBuf p)) (p + recordSize pBuf p)
      else none :=
  rfl

/-- The walk as a machine: under way with its counter and its pointer, or done. -/
inductive GetWalk where
  | walking (usedLen p : Nat)
  | done (found : Option Nat)

def GetWalk.step : GetWalk → GetWalk
  | .walking usedLen p =>
    if pBuf p ≠ 0 ∧ 0 < tokenLenAt pBuf p ∧ tokenLenAt pBuf p < padLen ∧ usedLen < padLen then
      if namedAt pBuf tokenId p then .done (some p)
      else .walking (usedLen + skipLen (tokenLenAt pBuf p)) (p + recordSize pBuf p)
    else .done none
  | .done found => .done found

end

section

variable (padLen : Int) (pBuf : Nat → UInt8) (tokenId : List UInt8)

theorem GetWalk.iterate_done (n : Nat) (found : Option Nat) :
    (GetWalk.step padLen pBuf tokenId)^[n] (.done found) = .done found :=
  Function.iterate_fixed rfl n

/-- Every round adds at least four to a counter that is compared with the pad length. -/
theorem GetWalk.iterate_walking (n usedLen p : Nat) (hrounds : padLen ≤ usedLen + 4 * n) :
    (GetWalk.step padLen pBuf tokenId)^[n + 1] (.walking usedLen p) =
      .done (getLoop padLen pBuf tokenId (n + 1) usedLen p) := by
  induction n generalizing usedLen p with
  | zero =>
    have hend : ¬((usedLen : Int) < padLen) := by omega
    simp [GetWalk.step, getLoop, hend]
  | succ n ih =>
    rw [Function.iterate_succ_apply, getLoop_succ]
    simp only [GetWalk.step]
    split
    · split
      · exact iterate_done padLen pBuf tokenId (n + 1) (some p)
      apply ih
      have hskip : 4 ≤ skipLen (tokenLenAt pBuf p) := by
        simp only [skipLen]
        omega
      omega
    · exact iterate_done padLen pBuf tokenId (n + 1) none

end

/-- From `p` on, the records up to the one asked for and its data are in the pad, and these fit
the caller's buffer. -/
inductive Contained (pBuf : Nat → UInt8) (tokenId : List UInt8) (bufLen : Int) : Nat → Prop
  | empty {p : Nat} (hp : p < 8192) (hname : pBuf p = 0) : Contained pBuf tokenId bufLen p
  | ill {p : Nat} (hp : p + spTokenSize ≤ 8192)
      (hlen : tokenLenAt pBuf p ≤ 0 ∨ 8192 ≤ tokenLenAt pBuf p) :
      Contained pBuf tokenId bufLen p
  | found {p : Nat} (hp : p + spTokenSize ≤ 8192) (hname : pBuf p ≠ 0)
      (hsame : namedAt pBuf tokenId p = true)
      (hdata : (p + spTokenSize : Nat) + tokenLenAt pBuf p ≤ 8192)
      (hfits : tokenLenAt pBuf p ≤ bufLen) :
      Contained pBuf tokenId bufLen p
  | next {p : Nat} (hp : p + spTokenSize ≤ 8192) (hname : pBuf p ≠ 0)
      (hother : namedAt pBuf tokenId p = false)
      (hnext : Contained pBuf tokenId bufLen (p + recordSize pBuf p)) :
      Contained pBuf tokenId bufLen p

variable {padLen : Int} {rounds : Nat}

section Bounds

variable {pBuf : Nat → UInt8} {tokenId : List UInt8} {bufLen : Int}

theorem getReads_cases {i : Nat} (hi : i ∈ getReads padLen pBuf tokenId (rounds + 1) usedLen p) :
    (p ≤ i ∧ i < p + spTokenSize) ∨
    (0 < tokenLenAt pBuf p ∧ tokenLenAt pBuf p < padLen ∧
      ((namedAt pBuf tokenId p = true ∧ i < p + spTokenSize + (tokenLenAt pBuf p).toNat) ∨
        (namedAt pBuf tokenId p = false ∧
          i ∈ getReads padLen pBuf tokenId rounds
            (usedLen + skipLen (tokenLenAt pBuf p)) (p + recordSize pBuf p)))) := by
  simp only [getReads] at hi
  split at hi
  · rw [mem_singleton.mp hi]
    exact .inl ⟨le_rfl, by simp [spTokenSize]⟩
  simp only [cons_append, mem_cons, mem_append, mem_range'_1] at hi
  rcases hi with hfirst | hlen | hrest
  · rw [hfirst]
    exact .inl ⟨le_rfl, by simp [spTokenSize]⟩
  · simp only [tokenNameLen] at hlen
    simp only [spTokenSize]
    exact .inl ⟨by omega, by omega⟩
  split at hrest
  next hguard =>
    rcases mem_append.mp hrest with hname | hrest
    · have hle := strncmpReads_le tokenNameLen (view pBuf p) (buffer tokenId)
      rw [mem_range'_1] at hname
      simp only [tokenNameLen] at hle hname
      simp only [spTokenSize]
      exact .inl ⟨by omega, by omega⟩
    · refine .inr ⟨hguard.1, hguard.2.1, ?_⟩
      cases hsame : namedAt pBuf tokenId p with
      | true =>
        rw [if_pos hsame] at hrest
        exact .inl ⟨rfl, (mem_range'_1.mp hrest).2⟩
      | false =>
        rw [if_neg (by simp [hsame])] at hrest
        exact .inr ⟨rfl, hrest⟩
  · cases hrest

theorem getLoop_cases {q : Nat} (h : getLoop padLen pBuf tokenId (rounds + 1) usedLen p = some q) :
    0 < tokenLenAt pBuf p ∧ tokenLenAt pBuf p < padLen ∧
    ((namedAt pBuf tokenId p = true ∧ q = p) ∨
      (namedAt pBuf tokenId p = false ∧
        getLoop padLen pBuf tokenId rounds (usedLen + skipLen (tokenLenAt pBuf p))
          (p + recordSize pBuf p) = some q)) := by
  rw [getLoop_succ] at h
  split at h
  next hguard =>
    refine ⟨hguard.2.1, hguard.2.2.1, ?_⟩
    cases hsame : namedAt pBuf tokenId p with
    | true =>
      rw [if_pos hsame] at h
      exact .inl ⟨rfl, (Option.some.inj h).symm⟩
    | false =>
      rw [if_neg (by simp [hsame])] at h
      exact .inr ⟨rfl, h⟩
  · cases h

/-- A walk over contained records stays in the pad and copies no more than was
asked for. -/
theorem Contained.sound (h : Contained pBuf tokenId bufLen p) (rounds usedLen : Nat) :
    (∀ i ∈ getReads 8192 pBuf tokenId rounds usedLen p, i < 8192) ∧
    ∀ q, getLoop 8192 pBuf tokenId rounds usedLen p = some q → tokenLenAt pBuf q ≤ bufLen := by
  induction h generalizing rounds usedLen with
  | @empty p hp hname =>
    cases rounds with
    | zero => simp [getReads, getLoop]
    | succ rounds => simp [getReads, getLoop, hname, hp]
  | @ill p hp hlen =>
    cases rounds with
    | zero => simp [getReads, getLoop]
    | succ rounds =>
      simp only [spTokenSize] at hp
      constructor
      · intro i hi
        rcases getReads_cases hi with hi | ⟨hpos, hlt, _⟩
        · simp only [spTokenSize] at hi
          omega
        · omega
      · intro q hq
        obtain ⟨hpos, hlt, _⟩ := getLoop_cases hq
        omega
  | @found p hp hname hsame hdata hfits =>
    cases rounds with
    | zero => simp [getReads, getLoop]
    | succ rounds =>
      simp only [spTokenSize] at hp hdata
      constructor
      · intro i hi
        rcases getReads_cases hi with hi | ⟨hpos, _, hrest⟩
        · simp only [spTokenSize] at hi
          omega
        rcases hrest with ⟨_, hi⟩ | ⟨hother, _⟩
        · simp only [spTokenSize] at hi
          omega
        · rw [hsame] at hother
          cases hother
      · intro q hq
        obtain ⟨_, _, ⟨_, rfl⟩ | ⟨hother, _⟩⟩ := getLoop_cases hq
        · exact hfits
        · rw [hsame] at hother
          cases hother
  | @next p hp hname hother hnext ih =>
    cases rounds with
    | zero => simp [getReads, getLoop]
    | succ rounds =>
      simp only [spTokenSize] at hp
      obtain ⟨hreads, hcopy⟩ := ih rounds (usedLen + skipLen (tokenLenAt pBuf p))
      constructor
      · intro i hi
        rcases getReads_cases hi with hi | ⟨_, _, hrest⟩
        · simp only [spTokenSize] at hi
          omega
        rcases hrest with ⟨hsame, _⟩ | ⟨_, hi⟩
        · rw [hother] at hsame
          cases hsame
        · exact hreads i hi
      · intro q hq
        obtain ⟨_, _, ⟨hsame, _⟩ | ⟨_, hq⟩⟩ := getLoop_cases hq
        · rw [hother] at hsame
          cases hsame
        · exact hcopy q hq

/-- Conversely, a walk that stays in the pad and copies no more than was asked for has contained
records. -/
theorem contained_of_bounds (hused : usedLen ≤ p)
    (hp : p ≤ 16384) (hrounds : 16384 < usedLen + 4 * rounds)
    (hreads : ∀ i ∈ getReads 8192 pBuf tokenId rounds usedLen p, i < 8192)
    (hcopy : ∀ q, getLoop 8192 pBuf tokenId rounds usedLen p = some q →
      tokenLenAt pBuf q ≤ bufLen) :
    Contained pBuf tokenId bufLen p := by
  induction rounds generalizing usedLen p with
  | zero => omega
  | succ rounds ih =>
    rw [getLoop_succ] at hcopy
    simp only [getReads] at hreads
    split at hreads
    next hname =>
      exact Contained.empty (hreads p (by simp)) hname
    rename_i hname
    simp only [cons_append, mem_cons, mem_append, mem_range'_1] at hreads
    have hrecord : p + spTokenSize ≤ 8192 := by
      have hlast := hreads (p + 19) (Or.inr (Or.inl (by simp only [tokenNameLen]; omega)))
      simp only [spTokenSize]
      omega
    split at hreads
    next hguard =>
      simp only [mem_append, mem_range'_1] at hreads
      rw [if_pos ⟨hname, hguard⟩] at hcopy
      cases hsame : namedAt pBuf tokenId p with
      | true =>
        rw [if_pos hsame] at hcopy
        simp only [hsame, if_true, mem_range'_1] at hreads
        refine Contained.found hrecord hname hsame ?_ (hcopy p rfl)
        have hlast := hreads (p + spTokenSize + (tokenLenAt pBuf p).toNat - 1)
        omega
      | false =>
        rw [if_neg (by simp [hsame])] at hcopy
        simp only [hsame, Bool.false_eq_true, if_false] at hreads
        have hskip : 4 ≤ skipLen (tokenLenAt pBuf p) ∧ skipLen (tokenLenAt pBuf p) ≤ 8192 := by
          simp only [skipLen]
          omega
        have hsize : recordSize pBuf p = spTokenSize + skipLen (tokenLenAt pBuf p) := rfl
        refine Contained.next hrecord hname hsame (ih ?_ ?_ ?_ ?_ hcopy)
        · omega
        · omega
        · omega
        · intro i hi
          exact hreads i (.inr (.inr (.inr hi)))
    · exact Contained.ill hrecord (by simp only [spTokenSize] at hrecord; omega)

theorem Contained.congr {left right : Nat → UInt8} (h : Contained left tokenId bufLen p)
    (hsame : AgreeOn left right 0 8192) : Contained right tokenId bufLen p := by
  have hbyte (i : Nat) (hi : i < 8192) : left i = right i :=
    hsame i (Nat.zero_le i) hi
  have hlength (p : Nat) (hp : p + spTokenSize ≤ 8192) :
      tokenLenAt left p = tokenLenAt right p := by
    simp only [spTokenSize] at hp
    apply tokenLenAt_congr
    intro i _ hi
    exact hbyte i (by simp only [tokenNameLen] at hi; omega)
  have hnamed (p : Nat) (hp : p + spTokenSize ≤ 8192) :
      namedAt left tokenId p = namedAt right tokenId p := by
    simp only [spTokenSize] at hp
    apply strncmpEq_congr
    intro i hi
    exact hbyte (p + i) (by simp only [tokenNameLen] at hi; omega)
  induction h with
  | @empty p hp hname => exact Contained.empty hp ((hbyte p hp).symm.trans hname)
  | @ill p hp hlen =>
    rw [hlength p hp] at hlen
    exact Contained.ill hp hlen
  | @found p hp hname hmatch hdata hfits =>
    rw [hbyte p (by simp only [spTokenSize] at hp; omega)] at hname
    rw [hnamed p hp] at hmatch
    rw [hlength p hp] at hdata hfits
    exact Contained.found hp hname hmatch hdata hfits
  | @next p hp hname hother hnext ih =>
    rw [hbyte p (by simp only [spTokenSize] at hp; omega)] at hname
    rw [hnamed p hp] at hother
    rw [recordSize, hlength p hp] at ih
    exact Contained.next hp hname hother ih

private theorem readPad_length_le_iff (hnonneg : 0 ≤ bufLen) :
    ((readPad 8192 pBuf tokenId).2.length : Int) ≤ bufLen ↔
      ∀ q, getLoop 8192 pBuf tokenId 8192 spHeaderSize spHeaderSize = some q →
        tokenLenAt pBuf q ≤ bufLen := by
  have hrounds : (8192 : Int).toNat = 8192 := rfl
  simp only [readPad, hrounds]
  cases getLoop 8192 pBuf tokenId 8192 spHeaderSize spHeaderSize with
  | none => simpa using hnonneg
  | some p =>
    simp only [slice_length, Option.some.injEq, forall_eq']
    omega

private theorem readPad_bounds_iff (hnonneg : 0 ≤ bufLen) :
    ((∀ i ∈ getReads 8192 pBuf tokenId 8192 spHeaderSize spHeaderSize, i < 8192) ∧
        ((readPad 8192 pBuf tokenId).2.length : Int) ≤ bufLen) ↔
      Contained pBuf tokenId bufLen spHeaderSize := by
  rw [readPad_length_le_iff hnonneg]
  constructor
  · rintro ⟨hreads, hcopy⟩
    exact contained_of_bounds le_rfl (by decide) (by decide) hreads hcopy
  · intro h
    exact h.sound 8192 spHeaderSize

end Bounds

/-- On an initialised pad the walk of `kerSysScratchPadGet` ends. It reads only bytes of the pad
and copies at most `bufLen` bytes exactly if it is refused at once, or the records up to the one
asked for are contained in the pad and the data of that one fits. -/
theorem scratch_pad_get_in_bounds_iff (chip : CfiPart) (prior : Nat → UInt8)
    (bpGetPsiSize : Option Nat) (info : FlashAddrInfo)
    (hinit : kerSysFlashInit chip prior bpGetPsiSize = some info) (env : Env) (heap : Nat → UInt8)
    (dev : Dev) (hmagic : hasMagic (padOn chip info dev.mem) = true) (tokenId : List UInt8)
    (bufLen : Int32) :
    (∃ n, (GetWalk.step 8192 (padCopy chip info heap dev.mem) tokenId)^[n]
        (.walking spHeaderSize spHeaderSize) =
      .done (getLoop 8192 (padCopy chip info heap dev.mem) tokenId 8192
        spHeaderSize spHeaderSize)) ∧
    (((∀ i ∈ kerSysScratchPadGetReads env chip info heap tokenId bufLen.toInt dev, i < 8192) ∧
        (kerSysScratchPadGet env chip info heap tokenId bufLen.toInt
          dev).2.2.length ≤ bufLen.toInt.toNat) ↔
      (env.kmallocOk = true → 0 ≤ bufLen.toInt → bufLen.toInt < 8140 →
        Contained (padOn chip info dev.mem) tokenId bufLen.toInt spHeaderSize)) := by
  obtain ⟨b, hstacked⟩ :=
    kerSysFlashInit_stacked chip prior bpGetPsiSize info hinit
  constructor
  · exact ⟨8192, GetWalk.iterate_walking 8192 _ tokenId 8191 spHeaderSize spHeaderSize (by decide)⟩
  have hlimit := exceedsPad_eq_false_iff hstacked bufLen
  simp only [kerSysScratchPadGetReads, kerSysScratchPadGet, if_neg hstacked.sp_length_ne]
  cases hexceeds : exceedsPad info bufLen.toInt with
  | true =>
    have hrefused : ¬(0 ≤ bufLen.toInt ∧ bufLen.toInt < 8140) := by
      rw [← hlimit, hexceeds]
      simp
    exact ⟨fun _ _ hlo hhi => absurd ⟨hlo, hhi⟩ hrefused, fun _ => by simp⟩
  | false =>
    obtain ⟨hnonneg, hlt⟩ := hlimit.mp hexceeds
    cases halloc : env.kmallocOk with
    | false => simp [getSharedBlks_eq_none halloc]
    | true =>
      obtain ⟨hcopy, hview⟩ := getSharedBlks_padCopy hstacked halloc heap dev
      have hsame := hstacked.agreeOn_padCopy heap dev.mem
      have hheader : hasMagic (padCopy chip info heap dev.mem) =
          true := (hasMagic_agree hsame).symm.trans hmagic
      have hbounds : _ ↔ Contained (padCopy chip info heap dev.mem)
          tokenId bufLen.toInt spHeaderSize := readPad_bounds_iff hnonneg
      have hwords : (8192 : Int).toNat = 8192 := rfl
      simp only [hcopy, hview, hheader, if_true, Bool.false_eq_true, if_false,
        hstacked.sp_length_eq, hwords, forall_mem_append]
      constructor
      · rintro ⟨⟨_, hreads⟩, hlength⟩ _ _ _
        exact (hbounds.mp ⟨hreads, by omega⟩).congr hsame.symm
      intro hcontained
      obtain ⟨hreads, hlength⟩ :=
        hbounds.mpr ((hcontained trivial hnonneg hlt).congr hsame)
      refine ⟨⟨?_, hreads⟩, by omega⟩
      intro i hi
      rw [mem_range'_1, magicNumLen] at hi
      omega

def fourStored : Dev :=
  (storePsi.step topBootPart topBootInfo blankPad).dev

theorem topBoot_scratch_pad_get_in_bounds_iff :
    hasMagic (padOn topBootPart topBootInfo fourStored.mem) = true ∧
    (((∀ i ∈ kerSysScratchPadGetReads Env.working topBootChip.toFlashPart
          topBootInfo (fun _ => 0x5A) psiName.chars (16 : Int32).toInt fourStored, i < 8192) ∧
        (kerSysScratchPadGet Env.working topBootChip.toFlashPart topBootInfo
          (fun _ => 0x5A) psiName.chars (16 : Int32).toInt fourStored).2.2.length ≤
            (16 : Int32).toInt.toNat) ↔
      (Env.working.kmallocOk = true → 0 ≤ (16 : Int32).toInt →
        (16 : Int32).toInt < 8140 →
        Contained (padOn topBootPart topBootInfo fourStored.mem) psiName.chars
          (16 : Int32).toInt spHeaderSize)) := by
  have hmagic : hasMagic (padOn topBootPart topBootInfo fourStored.mem) = true := by
    decide +kernel
  have hbounds := scratch_pad_get_in_bounds_iff topBootChip (fun _ => 0xFF) none
    topBootInfo (kerSysFlashInit_topBoot (fun _ => 0xFF)) Env.working (fun _ => 0x5A)
    fourStored hmagic psiName.chars 16
  exact ⟨hmagic, hbounds.2⟩

/-- A chip whose pad holds the token `A` alone, with a record that states 8152
bytes. -/
def oversizedToken : Dev where
  mem := fun i =>
    if i < padStart topBootPart topBootInfo then 0
    else
      blit (CString.buffer magicNumber) spHeaderSize spTokenSize (spToken [0x41] 8152)
        (i - padStart topBootPart topBootInfo)
  log := []

/-- The search for `PSI` steps over the token `A` to a record behind the pad; a caller that asks
for two bytes of a token of four is given four. -/
theorem walk_and_copy_leave_their_buffers :
    hasMagic (padOn topBootPart topBootInfo oversizedToken.mem) = true ∧
    8204 ∈ kerSysScratchPadGetReads Env.working topBootPart topBootInfo
      (fun _ => 0) psiName.chars 16 oversizedToken ∧
    hasMagic (padOn topBootPart topBootInfo fourStored.mem) = true ∧
    (kerSysScratchPadGet Env.working topBootPart topBootInfo (fun _ => 0)
      psiName.chars 2 fourStored).2.2.length = 4 := by
  decide +kernel

end EchoLife.Flash

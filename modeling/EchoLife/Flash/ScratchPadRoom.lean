import EchoLife.Flash.ScratchPadRuns

/-!
How much room `kerSysScratchPadSet` asks for. The test counts the old copy of the token, so a
token is replaced only if the pad has room for both copies, and data that would end exactly with
the pad is turned down before the pad is looked at. The tokens of any pad are the records the
first walk steps over.
-/

namespace EchoLife.Flash

open Buffer CString List Word

section
variable (padLen : Int) (pBuf : Nat → UInt8)

def recordSize (p : Nat) : Nat :=
  spTokenSize + skipLen (tokenLenAt pBuf p)

/-- Where the records stand that the first walk of `kerSysScratchPadSet` steps
over. -/
def walkTokens (padLen : Int) (pBuf : Nat → UInt8) : Nat → Nat → List Nat
  | 0, _ => []
  | rounds + 1, p =>
    if setGuard padLen pBuf p then
      p :: walkTokens padLen pBuf rounds (p + recordSize pBuf p)
    else []

def padTokens : List Nat :=
  if hasMagic pBuf then walkTokens padLen pBuf padLen.toNat spHeaderSize else []

def namedAt (tokenId : List UInt8) (p : Nat) : Bool :=
  strncmpEq tokenNameLen (view pBuf p) (CString.buffer tokenId)

def otherTokens (tokenId : List UInt8) : List Nat :=
  (padTokens padLen pBuf).eraseP (namedAt pBuf tokenId)

def packedLen (tokens : List Nat) (bufLen : Int) : Nat :=
  spHeaderSize + (tokens.map (recordSize pBuf)).sum + (spTokenSize + skipLen bufLen)

private theorem recordSize_mod_four (p : Nat) : recordSize pBuf p % 4 = 0 := by
  simp only [recordSize, skipLen, spTokenSize]
  omega

private theorem sum_recordSize_mod_four (tokens : List Nat) :
    (tokens.map (recordSize pBuf)).sum % 4 = 0 := by
  induction tokens with
  | nil => rfl
  | cons p rest ih =>
    have hsize := recordSize_mod_four pBuf p
    rw [map_cons, sum_cons]
    omega

private theorem usedLenLoop_eq_sum (rounds p : Nat) :
    usedLenLoop padLen pBuf rounds p =
      p + ((walkTokens padLen pBuf rounds p).map (recordSize pBuf)).sum := by
  induction rounds generalizing p with
  | zero => rfl
  | succ rounds ih =>
    simp only [usedLenLoop, walkTokens]
    split
    · rw [ih, map_cons, sum_cons]
      simp only [recordSize]
      omega
    · rfl

end

variable {pBuf : Nat → UInt8} {tokenId : List UInt8} {len : Nat}

private theorem padUsedLen_eq_sum (hmagic : hasMagic pBuf = true) (padLen : Int) :
    padUsedLen padLen pBuf =
      spHeaderSize + ((padTokens padLen pBuf).map (recordSize pBuf)).sum := by
  simp only [padUsedLen, padTokens, hmagic, if_true]
  exact usedLenLoop_eq_sum padLen pBuf padLen.toNat spHeaderSize

/-- The test for room counts the old copy of the token too. -/
theorem room_iff (hmagic : hasMagic pBuf = true) (bufLen : Nat) :
    (padUsedLen 8192 pBuf : Int) + bufLen + spTokenSize ≤ 8192 ↔
      packedLen pBuf (padTokens 8192 pBuf) bufLen ≤ 8192 := by
  have hsum := sum_recordSize_mod_four pBuf (padTokens 8192 pBuf)
  rw [padUsedLen_eq_sum hmagic]
  simp only [packedLen, skipLen_natCast, spHeaderSize, spTokenSize]
  omega

private theorem updatePad_isSome_iff (padLen : Int) (tokenId : List UInt8)
    (tokBuf : Option (Nat → UInt8)) (bufLen : Int) :
    (updatePad padLen pBuf tokenId tokBuf bufLen).isSome = true ↔
      (padUsedLen padLen pBuf : Int) + bufLen + spTokenSize ≤ padLen := by
  rcases Int.lt_or_le padLen (padUsedLen padLen pBuf + bufLen + spTokenSize) with
    hfull | hroom
  · rw [updatePad_eq_none _ _ hfull]
    constructor
    · nofun
    · omega
  · refine ⟨fun _ => hroom, fun _ => ?_⟩
    unfold updatePad
    rw [if_neg (Int.not_lt.mpr hroom)]
    split
    · rfl
    · rfl
    split
    · rfl
    · rfl

private theorem otherTokens_of_new {padLen : Int}
    (hnew : ∀ p ∈ padTokens padLen pBuf, namedAt pBuf tokenId p = false) :
    otherTokens padLen pBuf tokenId = padTokens padLen pBuf :=
  eraseP_of_forall_not (fun p hp => by simp [hnew p hp])

/-- A header, all other tokens and the new one, each padded to a multiple of four, fit the pad. -/
def FitsReplaced (pBuf : Nat → UInt8) (tokenId : List UInt8) (len : Nat) : Prop :=
  packedLen pBuf (otherTokens 8192 pBuf tokenId) len ≤ 8192

/-- No token has the name yet, or the new one fits beside the old copy. -/
def FitsBeside (pBuf : Nat → UInt8) (tokenId : List UInt8) (len : Nat) : Prop :=
  (∀ p ∈ padTokens 8192 pBuf, namedAt pBuf tokenId p = false) ∨
    packedLen pBuf (padTokens 8192 pBuf) len ≤ 8192

theorem FitsReplaced.beside_iff (h : FitsReplaced pBuf tokenId len) :
    FitsBeside pBuf tokenId len ↔ packedLen pBuf (padTokens 8192 pBuf) len ≤ 8192 := by
  constructor
  · rintro (hnew | hroom)
    · rw [FitsReplaced, otherTokens_of_new hnew] at h
      exact h
    · exact hroom
  · exact .inr

private theorem len_le_of_packed {tokens : List Nat}
    (h : packedLen pBuf tokens len ≤ 8192) : len ≤ 8140 := by
  simp only [packedLen, skipLen_natCast, spHeaderSize, spTokenSize] at h
  omega

/-- A write whose result fits the pad returns 0 exactly if there is memory for the copy of the
sectors, the data does not fill the pad to its last byte and the new token fits beside the copy it
replaces. A write that does not return 0 leaves the chip as it was. -/
theorem scratch_pad_set_succeeds_iff (chip : CfiPart) (prior : Nat → UInt8)
    (bpGetPsiSize : Option Nat) (info : FlashAddrInfo)
    (hinit : kerSysFlashInit chip prior bpGetPsiSize = some info)
    (env : Env) (hcells : ∀ s, env.cells s = none) (heap : Nat → UInt8) (dev : Dev)
    (tokenId : List UInt8) (tokBuf : Nat → UInt8) (len : Nat) (hlen : len < 2 ^ 31) :
    (FitsReplaced (padCopy chip info heap dev.mem) tokenId len →
      ((kerSysScratchPadSet env chip info heap tokenId (some tokBuf) len dev).2 = 0 ↔
        env.kmallocOk = true ∧ len ≠ 8140 ∧
          FitsBeside (padCopy chip info heap dev.mem) tokenId len)) ∧
    ((kerSysScratchPadSet env chip info heap tokenId (some tokBuf) len dev).2 ≠ 0 →
      (kerSysScratchPadSet env chip info heap tokenId (some tokBuf) len dev).1 = dev) := by
  obtain ⟨b, hstacked⟩ :=
    kerSysFlashInit_stacked chip prior bpGetPsiSize info hinit
  have hexceeds := exceedsPad_natCast hstacked hlen
  rcases kerSysScratchPadSet_cases hstacked env heap tokenId (some tokBuf) len dev with
    ⟨hrefused, hcall⟩ | ⟨halloc, hlimit, pBuf, hpad, hwrites, _⟩
  · rw [hcall]
    refine ⟨fun hfits => ?_, fun _ => rfl⟩
    rw [hfits.beside_iff]
    constructor
    · nofun
    rintro ⟨halloc, hne, hroom⟩
    rcases hrefused with hmemory | hlimit | ⟨hmagic, hfull⟩
    · rw [halloc] at hmemory
      cases hmemory
    · have hlong := hexceeds.mp hlimit
      have hshort := len_le_of_packed hroom
      omega
    · rw [← room_iff hmagic, ← updatePad_isSome_iff 8192 tokenId (some tokBuf), hfull] at hroom
      cases hroom
  · have hstatus := hwrites hcells
    refine ⟨fun hfits => ?_, fun hne => absurd hstatus hne⟩
    have hshort : ¬8140 ≤ len := by
      rw [← hexceeds, hlimit]
      exact Bool.false_ne_true
    refine ⟨fun _ => ⟨halloc, by omega, hfits.beside_iff.mpr ?_⟩, fun _ => hstatus⟩
    cases hmagic : hasMagic (padCopy chip info heap dev.mem) with
    | false =>
      simp only [padTokens, hmagic, Bool.false_eq_true, if_false, packedLen,
        map_nil, sum_nil, skipLen_natCast, spHeaderSize, spTokenSize]
      omega
    | true =>
      rw [hmagic, if_pos rfl] at hpad
      rw [← room_iff hmagic, ← updatePad_isSome_iff 8192 tokenId (some tokBuf), hpad]
      rfl

def psiStored : Dev :=
  (kerSysScratchPadSet Env.working topBootPart topBootInfo (fun _ => 0)
    psiName.chars (some (fun _ => 1)) 5000 ⟨fun _ => 0, []⟩).1

theorem topBoot_scratch_pad_set_succeeds_iff :
    FitsReplaced (padCopy topBootPart topBootInfo (fun _ => 0) (fun _ => 0)) psiName.chars 5000 ∧
    ((kerSysScratchPadSet Env.working topBootPart topBootInfo (fun _ => 0)
        psiName.chars (some (fun _ => 1)) (5000 : Nat) ⟨fun _ => 0, []⟩).2 = 0 ↔
      Env.working.kmallocOk = true ∧ (5000 : Nat) ≠ 8140 ∧ FitsBeside
        (padCopy topBootPart topBootInfo (fun _ => 0) (fun _ => 0))
        psiName.chars 5000) := by
  have hfits : FitsReplaced (padCopy topBootPart topBootInfo (fun _ => 0)
      (fun _ => 0)) psiName.chars 5000 := by
    unfold FitsReplaced
    decide +kernel
  exact ⟨hfits, (scratch_pad_set_succeeds_iff topBootChip (fun _ => 0xFF) none
    topBootInfo (kerSysFlashInit_topBoot (fun _ => 0xFF)) Env.working
    (fun _ => rfl) (fun _ => 0) ⟨fun _ => 0, []⟩ psiName.chars (fun _ => 1) 5000
    (by decide)).1 hfits⟩

/-- Storing the 5000 bytes again is refused although the pad would stay as long, and so is data
that fills a blank pad exactly. -/
theorem replacement_and_exact_fit_are_refused :
    FitsReplaced (padCopy topBootPart topBootInfo (fun _ => 0) psiStored.mem) psiName.chars 5000 ∧
    (kerSysScratchPadSet Env.working topBootPart topBootInfo (fun _ => 0)
      psiName.chars (some (fun _ => 2)) 5000 psiStored).2 = -1 ∧
    FitsReplaced (padCopy topBootPart topBootInfo (fun _ => 0) (fun _ => 0)) psiName.chars 8140 ∧
    (kerSysScratchPadSet Env.working topBootPart topBootInfo (fun _ => 0)
      psiName.chars (some (fun _ => 2)) 8140 ⟨fun _ => 0, []⟩).2 = -1 := by
  unfold FitsReplaced
  decide +kernel

end EchoLife.Flash

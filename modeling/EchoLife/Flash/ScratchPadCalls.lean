import EchoLife.Flash.ScratchPad

/-!
What one call on the scratch pad does to the chip. `kerSysScratchPadSet` leaves the chip as it is
or writes the heap copy of the sectors back with a new pad in it, and `kerSysScratchPadClearAll`
writes it back with a blank one.
-/

namespace EchoLife.Flash

open Buffer Word

section
variable (part : FlashPart) (info : FlashAddrInfo)

/-- The pad inside the heap copy of its sectors, with the heap bytes behind it. -/
def padCopy (heap mem : Nat → UInt8) : Nat → UInt8 :=
  blit (view heap info.flashScratchPad.blkOffset) 0
    info.flashScratchPad.length.toNat (padOn part info mem)

def padStart : Nat :=
  part.base info.spStart + info.flashScratchPad.blkOffset

theorem padOn_blit (mem pBuf : Nat → UInt8) :
    AgreeOn (padOn part info (blit mem (padStart part info) 8192 pBuf)) pBuf 0 8192 :=
  fun _ _ hi => blit_at _ _ hi

end

variable {env : Env}

section Chip

variable {chip : CfiPart} {info : FlashAddrInfo} {b : Boundaries}
  (hstacked : Stacked chip info b)

include hstacked

theorem Stacked.sp_length_eq : info.flashScratchPad.length = 8192 := by
  rw [hstacked.sp_length]
  rfl

theorem exceedsPad_eq_false_iff (bufLen : Int32) :
    exceedsPad info bufLen.toInt = false ↔ 0 ≤ bufLen.toInt ∧ bufLen.toInt < 8140 := by
  have hlow := bufLen.le_toInt
  have hhigh := bufLen.toInt_lt
  simp only [exceedsPad, hstacked.sp_length, spMaxLen, oneK, spHeaderSize,
    spTokenSize, u32, decide_eq_false_iff_not]
  omega

theorem Stacked.padStart_eq : padStart chip info =
    chip.base b.sp + info.flashScratchPad.blkOffset := by
  rw [padStart, hstacked.spStart_eq]

theorem Stacked.sp_length_toNat : info.flashScratchPad.length.toNat = 8192 := by
  rw [hstacked.sp_length_eq]
  rfl

theorem Stacked.sp_length_ne : ¬info.flashScratchPad.length = 0 := by
  rw [hstacked.sp_length_eq]
  decide

theorem getSharedBlks_padCopy (halloc : env.kmallocOk = true) (heap : Nat → UInt8) (dev : Dev) :
    getSharedBlks env chip info.spStart info.spEnd heap dev =
        some (blit heap 0 (chip.base b.va - chip.base b.sp) (view dev.mem (chip.base b.sp))) ∧
      view (blit heap 0 (chip.base b.va - chip.base b.sp)
          (view dev.mem (chip.base b.sp))) info.flashScratchPad.blkOffset =
        padCopy chip info heap dev.mem := by
  have hle : b.sp ≤ b.va := hstacked.sp.start_lt.le
  have hfills := hstacked.sp_fills
  rw [hstacked.spStart_eq, hstacked.spEnd_eq]
  refine ⟨getSharedBlks_eq chip heap dev halloc hle, ?_⟩
  funext i
  rw [padCopy, hstacked.sp_length_toNat]
  rcases lt_or_ge i 8192 with hin | hout
  · rw [blit_inside _ _ (Nat.zero_le i) (by omega)]
    exact view_sharedBlks hstacked heap dev.mem i (Nat.zero_le i) hin
  · rw [blit_outside _ _ (.inr (by omega))]
    unfold view
    rw [blit_outside _ _ (.inr (by omega))]

theorem Stacked.agreeOn_padCopy (heap mem : Nat → UInt8) :
    AgreeOn (padOn chip info mem) (padCopy chip info heap mem) 0 8192 := by
  intro i hlo hhi
  rw [padCopy, hstacked.sp_length_toNat, blit_inside _ _ hlo (by omega)]
  rfl

/-- Writing the heap copy back changes the pad only, on a chip that differs from the copied one in
its sectors at most. -/
theorem setSharedBlks_rejoin (heap pBuf : Nat → UInt8) (dev current : Dev)
    (houtside : ∀ i, i < chip.base b.sp ∨ chip.base b.va ≤ i → current.mem i = dev.mem i)
    (hstatus : (setSharedBlks env chip info.spStart info.spEnd
      (rejoin (blit heap 0 (chip.base b.va - chip.base b.sp)
        (view dev.mem (chip.base b.sp))) info.flashScratchPad.blkOffset pBuf)
      current).2 = 0) :
    (setSharedBlks env chip info.spStart info.spEnd
      (rejoin (blit heap 0 (chip.base b.va - chip.base b.sp)
        (view dev.mem (chip.base b.sp))) info.flashScratchPad.blkOffset pBuf)
      current).1.mem = blit dev.mem (padStart chip info) 8192 pBuf := by
  have hle : b.sp ≤ b.va := hstacked.sp.start_lt.le
  have hfills := hstacked.sp_fills
  rw [hstacked.spStart_eq, hstacked.spEnd_eq] at hstatus
  rw [hstacked.padStart_eq, hstacked.spStart_eq, hstacked.spEnd_eq,
    setSharedBlks_verified hle hstatus]
  funext i
  rcases lt_or_ge i (chip.base b.sp) with hbefore | hfrom
  · rw [blit_outside _ _ (.inl hbefore), blit_outside _ _ (.inl (by omega))]
    exact houtside i (.inl hbefore)
  rcases lt_or_ge i (chip.base b.va) with hupto | hbehind
  · rw [blit_inside _ _ hfrom (by omega)]
    simp only [rejoin]
    split
    · rw [blit_inside _ _ (Nat.zero_le _) (by omega), blit_outside _ _ (.inl (by omega))]
      unfold view
      congr 1
      omega
    · rw [blit_inside _ _ (by omega) (by omega)]
      congr 1
      omega
  · rw [blit_outside _ _ (.inr (by omega)), blit_outside _ _ (.inr (by omega))]
    exact houtside i (.inr hbehind)

theorem setSharedBlks_status (hcells : ∀ s, env.cells s = none) (pShareBuf : Nat → UInt8)
    (dev : Dev) : (setSharedBlks env chip info.spStart info.spEnd pShareBuf dev).2 = 0 := by
  rw [hstacked.spStart_eq, hstacked.spEnd_eq]
  exact (setSharedBlks_working chip (fun s _ _ => hcells s)
    hstacked.sp.start_lt.le pShareBuf dev).1

theorem kerSysScratchPadClearAll_cases
    (hcells : ∀ s, env.cells s = none) (heap : Nat → UInt8) (dev : Dev) :
    kerSysScratchPadClearAll env chip info heap dev = (dev, -1) ∨
    ((kerSysScratchPadClearAll env chip info heap dev).2 = 0 ∧
      ∀ i, i < 8192 → padOn chip info (kerSysScratchPadClearAll env
        chip info heap dev).1.mem i = 0) := by
  simp only [kerSysScratchPadClearAll, if_neg hstacked.sp_length_ne]
  cases halloc : env.kmallocOk with
  | false =>
    rw [getSharedBlks_eq_none halloc]
    exact .inl rfl
  | true =>
    obtain ⟨hcopy, _⟩ := getSharedBlks_padCopy hstacked halloc heap dev
    rw [hcopy]
    have hstatus := setSharedBlks_status hstacked hcells (rejoin
      (blit heap 0 (chip.base b.va - chip.base b.sp) (view dev.mem (chip.base b.sp)))
      info.flashScratchPad.blkOffset (fill (view (blit heap 0
        (chip.base b.va - chip.base b.sp) (view dev.mem (chip.base b.sp)))
        info.flashScratchPad.blkOffset) 0 info.flashScratchPad.length.toNat 0)) dev
    refine .inr ⟨hstatus, ?_⟩
    intro i hi
    rw [setSharedBlks_rejoin hstacked heap _ dev dev (fun _ _ => rfl) hstatus,
      padOn_blit _ _ _ _ i (Nat.zero_le i) hi, hstacked.sp_length_toNat]
    exact fill_inside _ _ (Nat.zero_le i) (by omega)

private theorem kerSysScratchPadClearAll_outside (env : Env) (heap : Nat → UInt8) (dev : Dev)
    (i : Nat) (hi : i < chip.base b.sp ∨ chip.base b.va ≤ i) :
    (kerSysScratchPadClearAll env chip info heap dev).1.mem i = dev.mem i := by
  simp only [kerSysScratchPadClearAll, hstacked.spStart_eq, hstacked.spEnd_eq]
  split
  · rfl
  split
  · rfl
  apply (setSharedBlksLoop_footprint env chip _ (fun _ => False) (b.va - b.sp) b.sp 0 dev).frame
  rintro s ⟨hlo, hhi⟩
  have hfirst := chip.base_mono hlo
  have hlast := chip.base_mono (show s + 1 ≤ b.va by omega)
  omega

/-- The call has no memory, turns the data down, finds no room, or writes the new pad. A write
that verifies leaves that pad on the chip. -/
theorem kerSysScratchPadSet_cases (env : Env) (heap : Nat → UInt8)
    (tokenId : List UInt8) (tokBuf : Option (Nat → UInt8)) (bufLen : Int) (dev : Dev) :
    ((env.kmallocOk = false ∨ exceedsPad info bufLen = true ∨
        (hasMagic (padCopy chip info heap dev.mem) = true ∧
          updatePad 8192 (padCopy chip info heap dev.mem) tokenId tokBuf bufLen = none)) ∧
      kerSysScratchPadSet env chip info heap tokenId tokBuf bufLen dev = (dev, -1)) ∨
    (env.kmallocOk = true ∧ exceedsPad info bufLen = false ∧
      ∃ pBuf, (if hasMagic (padCopy chip info heap dev.mem) then
          updatePad 8192 (padCopy chip info heap dev.mem) tokenId tokBuf bufLen
        else some (initPad (padCopy chip info heap dev.mem) tokenId tokBuf bufLen)) = some pBuf ∧
        ((∀ s, env.cells s = none) → (kerSysScratchPadSet env chip info
          heap tokenId tokBuf bufLen dev).2 = 0) ∧
        ((kerSysScratchPadSet env chip info heap tokenId tokBuf bufLen dev).2 = 0 →
          (kerSysScratchPadSet env chip info heap tokenId tokBuf bufLen
            dev).1.mem = blit dev.mem (padStart chip info) 8192 pBuf)) := by
  cases halloc : env.kmallocOk with
  | false =>
    simp [kerSysScratchPadSet, getSharedBlks_eq_none halloc]
  | true =>
    obtain ⟨hcopy, hview⟩ := getSharedBlks_padCopy hstacked halloc heap dev
    simp only [kerSysScratchPadSet, hcopy, hview, hstacked.sp_length_eq]
    cases exceedsPad info bufLen with
    | true => exact .inl ⟨.inr (.inl rfl), rfl⟩
    | false =>
      cases hasMagic (padCopy chip info heap dev.mem) with
      | false =>
        exact .inr ⟨trivial, rfl, _, rfl, fun hcells => setSharedBlks_status hstacked hcells _ _,
          setSharedBlks_rejoin hstacked heap _ dev _
            (kerSysScratchPadClearAll_outside hstacked env heap dev)⟩
      | true =>
        cases hupdate : updatePad 8192 (padCopy chip info heap dev.mem) tokenId tokBuf bufLen with
        | none => exact .inl ⟨.inr (.inr ⟨rfl, rfl⟩), rfl⟩
        | some pBuf =>
          exact .inr ⟨trivial, rfl, pBuf, rfl,
            fun hcells => setSharedBlks_status hstacked hcells _ _,
            setSharedBlks_rejoin hstacked heap pBuf dev dev (fun _ _ => rfl)⟩

theorem exceedsPad_natCast {len : Nat} (hlen : len < 2 ^ 31) :
    exceedsPad info len = true ↔ 8140 ≤ len := by
  simp only [exceedsPad, hstacked.sp_length_eq, spHeaderSize, spTokenSize, u32, decide_eq_true_eq]
  omega

end Chip

end EchoLife.Flash

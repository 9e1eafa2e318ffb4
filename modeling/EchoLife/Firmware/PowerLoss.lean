import EchoLife.Firmware.Image

/-!
An upgrade of the normal system that loses power. Its erases and writes are taken from the
device's log; the one that is cut off leaves each byte as it was or as it was going to be. Until
the sector of the tag is written the old tag stands over data that may be half new, and the
checksum test decides between the two systems. It can only do so for tags with checksums, so the
new image has to carry them.
-/

namespace EchoLife.Firmware

open Buffer Decimal Flash List Run Word

/-- The access is cut off: each byte is as before it or as after it. -/
def Torn (part : FlashPart) (op : FlashOp) (mem mem' : Nat → UInt8) : Prop :=
  ∀ i, mem' i = mem i ∨ mem' i = op.apply part mem i

/-- Power is lost during one of the accesses `ops`. -/
def PowerLost (part : FlashPart) : List FlashOp → (Nat → UInt8) → (Nat → UInt8) → Prop :=
  Interrupted (FlashOp.apply part) (Torn part)

variable {mem mem' : Nat → UInt8} {system : System} {board : Board}

theorem PowerLost.frame {part : FlashPart} {ops : List FlashOp} (h : PowerLost part ops mem mem')
    {p : Nat → Prop} (hinside : ∀ op ∈ ops, op.Inside part p) {i : Nat}
    (hi : ∀ s, p s → i < part.base s ∨ part.base (s + 1) ≤ i) : mem' i = mem i := by
  apply Interrupted.invariant (P := fun now : Nat → UInt8 => now i = mem i) h rfl
  · intro op hop now hnow
    rw [FlashOp.apply_outside (hinside op hop) now hi]
    exact hnow
  intro op hop now now' htorn hnow
  rcases htorn i with hbyte | hbyte
  · rw [hbyte]
    exact hnow
  · rw [hbyte, FlashOp.apply_outside (hinside op hop) now hi]
    exact hnow

/-- A system's tag is valid, carries both checksums, and they match bytes of the
system itself. -/
structure HoldsSystem (board : Board) (system : System) (mem pTag : Nat → UInt8) : Prop where
  valid : getTagFromPartition board.chip mem system.number = some pTag
  present : CrcPresent pTag
  crcMatches : CrcMatches board.chip mem pTag
  rootfs_above : board.chip.flashBase + system.start ≤
    flashAddress board.chip pTag FileTag.rootfsAddress
  rootfs_below : flashAddress board.chip pTag FileTag.rootfsAddress +
    simpleStrtoul pTag FileTag.rootfsLen ≤ board.chip.flashBase + (system.start + system.capacity)
  kernel_above : board.chip.flashBase + system.start ≤
    flashAddress board.chip pTag FileTag.kernelAddress
  kernel_below : flashAddress board.chip pTag FileTag.kernelAddress +
    simpleStrtoul pTag FileTag.kernelLen ≤ board.chip.flashBase + (system.start + system.capacity)

variable {pTag image prior : Nat → UInt8} {field : Nat}

theorem Board.systemCrc_congr (board : Board) {address len : Nat}
    (habove : board.chip.flashBase + system.start ≤ flashAddress board.chip pTag address)
    (hbelow : flashAddress board.chip pTag address +
      simpleStrtoul pTag len ≤ board.chip.flashBase + (system.start + system.capacity))
    (hagree : AgreeOn mem mem' system.start (system.start + system.capacity)) :
    systemCrc board.chip mem pTag address len = systemCrc board.chip mem' pTag address len := by
  have hbound := board.start_add_capacity_lt system
  have haddress : flashAddress board.chip pTag address =
      board.chip.flashBase + (flashAddress board.chip pTag address -
        board.chip.flashBase) := by omega
  rw [systemCrc_eq haddress rfl (by omega), systemCrc_eq haddress rfl (by omega)]
  apply getCrc32_congr
  intro i hi
  exact hagree _ (by omega) (by omega)

theorem HoldsSystem.congr (h : HoldsSystem board system mem pTag)
    (hagree : AgreeOn mem mem' system.start (system.start + system.capacity)) :
    HoldsSystem board system mem' pTag := by
  have htag : tagLen ≤ system.capacity := by
    cases system with
    | normal => decide
    | small => decide
  refine { h with valid := ?_, crcMatches := ⟨?_, ?_⟩ }
  · have hvalid := h.valid
    rw [board.getTagFromPartition_number] at hvalid ⊢
    rw [← hvalid]
    apply checkedTag_congr
    intro i hi
    exact (hagree _ (by omega) (by omega)).symm
  · rw [← h.crcMatches.rootfs]
    exact (board.systemCrc_congr h.rootfs_above h.rootfs_below hagree).symm
  · rw [← h.crcMatches.kernel]
    exact (board.systemCrc_congr h.kernel_above h.kernel_below hagree).symm

def tagOps (board : Board) (tagFs : Nat → UInt8) : List FlashOp :=
  [.erase board.normal, .fetch 0 (board.chip.sectorSize board.normal),
    .program board.normal 0 (board.chip.sectorSize board.normal) tagFs]

section

variable (board : Board)

/-- Data behind the sector of the tag, and then perhaps that sector and the boot line. -/
theorem writeSystem_log (heap tagFs : Nat → UInt8) {size : Nat}
    (hsize : size ≤ flashLengthNormalSystem) (dev : Dev) :
    ∃ opsData opsBoot,
      (∀ op ∈ opsData, op.Inside board.chip (fun s => board.normal < s ∧ s < board.small)) ∧
      (∀ op ∈ opsBoot, op.Inside board.chip (· = 0)) ∧
      ((writeSystem Env.working board.chip board.info heap tagFs .normal
          size dev).1.log = dev.log ++ opsData ∨
        (writeSystem Env.working board.chip board.info heap tagFs .normal
          size dev).1.log = dev.log ++ opsData ++ (tagOps board tagFs ++ opsBoot)) := by
  have hlt := board.normal_lt
  have hend := board.small_lt
  obtain ⟨opsData, hvia, hinside, _⟩ :=
    board.dataWrite_footprint Env.working tagFs .normal hsize dev
  have htag := board.kerSysBcmImageSet_sector board.normal_pos
    (by omega : board.normal < board.smallEnd) tagFs
    (board.dataWrite Env.working tagFs .normal size dev).1
  rcases board.writeSystem_cases Env.working heap tagFs .normal size dev with
    ⟨_, heq⟩ | ⟨_, hfailed, _⟩ | ⟨_, _, heq⟩
  · refine ⟨opsData, [], hinside, by simp, .inl ?_⟩
    rw [heq]
    exact hvia.log_eq
  · exact absurd (congrArg Prod.snd htag) hfailed
  obtain ⟨opsBoot, hvia', hinside', _⟩ := board.resetBootLine_footprint
    Env.working heap (readNvram board.chip board.info dev.mem)
    (fun _ => True) (board.tagWrite Env.working tagFs .normal
      (board.dataWrite Env.working tagFs .normal size dev).1).1
  refine ⟨opsData, opsBoot, hinside, hinside', .inr ?_⟩
  rw [heq, hvia'.log_eq]
  simp only [Board.tagWrite, Board.first, htag, Dev.emit_log, hvia.log_eq, tagOps,
    nil_append, append_assoc, cons_append]

section

variable (hnormal : IsNormal image) (heap mem : Nat → UInt8)
include hnormal

theorem upgrade_log :
    ∃ opsData opsBoot,
      (∀ op ∈ opsData, op.Inside board.chip (fun s => board.normal < s ∧ s < board.small)) ∧
      (∀ op ∈ opsBoot, op.Inside board.chip (· = 0)) ∧
      ((flashFsKernelImage Env.working board.chip board.info heap image ⟨mem, []⟩).1.log = opsData ∨
        (flashFsKernelImage Env.working board.chip board.info heap image
          ⟨mem, []⟩).1.log = opsData ++
            (tagOps board (relocateTag board.chip mem .normal image) ++ opsBoot)) := by
  obtain ⟨opsHeader, hvia, hheader, _⟩ := readHeader_footprint
    board.chip image (fun s => board.normal < s ∧ s < board.small) ⟨mem, []⟩
  cases hselect : selectSystem board.chip image with
  | none =>
    rw [flashFsKernelImage_refused hselect]
    exact ⟨opsHeader, [], hheader, by simp, .inl hvia.log_eq⟩
  | some system =>
    obtain rfl := hnormal.normal_of_selectSystem hselect
    have hread := (hvia.emit (.fetch 0 (tagLen - tokenLen))).log_eq
    obtain ⟨opsData, opsBoot, hdata, hboot, hlog⟩ := writeSystem_log board heap
      (relocateTag board.chip mem .normal image)
      (board.selectSystem_fits hselect)
      ((readHeader board.chip image ⟨mem, []⟩).emit board.chip (.fetch 0 (tagLen - tokenLen)))
    rw [flashFsKernelImage_accepted hselect]
    rw [hread] at hlog
    refine ⟨opsHeader ++ [.fetch 0 (tagLen - tokenLen)] ++ opsData, opsBoot, ?_, hboot, hlog⟩
    intro op hop
    simp only [mem_append, mem_singleton] at hop
    rcases hop with (hop | rfl) | hop
    · exact hheader op hop
    · trivial
    · exact hdata op hop

private theorem upgrade_inside :
    ∀ op ∈ (flashFsKernelImage Env.working board.chip board.info heap
      image ⟨mem, []⟩).1.log, op.Inside board.chip (fun s => s < board.small) := by
  have hlt := board.normal_lt
  obtain ⟨opsData, opsBoot, hdata, hboot, hlog⟩ :=
    upgrade_log board hnormal heap mem
  have hdata' : ∀ op ∈ opsData, op.Inside board.chip (fun s => s < board.small) := by
    intro op hop
    exact (hdata op hop).mono (fun s hs => hs.2)
  rcases hlog with hlog | hlog
  · rw [hlog]
    exact hdata'
  rw [hlog]
  intro op hop
  simp only [tagOps, mem_append, mem_cons, not_mem_nil, or_false] at hop
  rcases hop with hop | (rfl | rfl | rfl) | hop
  · exact hdata' op hop
  · exact (by omega : board.normal < board.small)
  · trivial
  · exact ⟨by omega, by omega⟩
  apply (hboot op hop).mono
  omega

end

theorem tag_sector :
    board.chip.base board.normal = flashLengthBootRom ∧
      board.chip.base (board.normal + 1) = flashLengthBootRom + board.chip.sectorSize board.normal ∧
      256 ≤ board.chip.sectorSize board.normal := by
  have hsucc := board.chip.base_succ board.normal
  have hbase := board.normal_base
  have hlt := board.normal_lt
  have hend := board.small_lt
  have htable := board.smallEnd_lt_variable.2
  have hunit := board.chip.unit_le_sectorSize (by omega : board.normal < board.chip.numSectors)
  exact ⟨hbase, by omega, by omega⟩

/-- Whatever is left of the writes of the tag's sector, a word that was not 0 and is not to be 0
is not 0. -/
theorem word_survives {tagFs : Nat → UInt8} (hfield : field + 4 ≤ 256)
    (hold : be32 mem (flashLengthBootRom + field) ≠ 0) (hnew : be32 tagFs field ≠ 0)
    (hlost : PowerLost board.chip (tagOps board tagFs) mem mem') :
    be32 mem' (flashLengthBootRom + field) ≠ 0 := by
  obtain ⟨hbase, hsucc, hunit⟩ := tag_sector board
  have herased (now : Nat → UInt8) {d : Nat} (hd : d < 4) :
      (FlashOp.erase board.normal).apply board.chip now (flashLengthBootRom + field + d) = 0xFF :=
    fill_inside _ _ (by omega) (by omega)
  have hwritten (now : Nat → UInt8) {d : Nat} (hd : d < 4) :
      (FlashOp.program board.normal 0 (board.chip.sectorSize board.normal)
        tagFs).apply board.chip now (flashLengthBootRom + field + d) = tagFs (field + d) := by
    simp only [FlashOp.apply, hbase, add_zero]
    rw [blit_inside _ _ (by omega) (by omega),
      (by omega : flashLengthBootRom + field + d - flashLengthBootRom = field + d)]
  rw [be32_ne_zero_iff] at hold hnew ⊢
  obtain ⟨d, hd, hbyte⟩ := hold
  obtain ⟨e, he, hbyte'⟩ := hnew
  cases hlost with
  | here htorn =>
    refine ⟨d, hd, ?_⟩
    rcases htorn (flashLengthBootRom + field + d) with hnow | hnow
    · rw [hnow]
      exact hbyte
    · rw [hnow, herased mem hd]
      decide
  | later hrest =>
    cases hrest with
    | here htorn =>
      refine ⟨d, hd, ?_⟩
      have hnow : mem' (flashLengthBootRom + field + d) = 0xFF := by
        rw [← herased mem hd]
        exact (htorn _).elim id id
      rw [hnow]
      decide
    | later hrest =>
      cases hrest with
      | here htorn =>
        refine ⟨e, he, ?_⟩
        rcases htorn (flashLengthBootRom + field + e) with hnow | hnow
        · rw [hnow, FlashOp.apply_fetch, herased mem he]
          decide
        · rw [hnow, hwritten _ he]
          exact hbyte'
      | later hrest => cases hrest

/-- At every point of an upgrade, a word that is not 0 in the old and the new tag is not 0. -/
theorem tag_word_survives (hnormal : IsNormal image) {heap : Nat → UInt8}
    (hlo : 150 ≤ field) (hhi : field + 4 ≤ 236)
    (hold : be32 mem (flashLengthBootRom + field) ≠ 0) (hnew : be32 image field ≠ 0)
    (hlost : PowerLost board.chip (flashFsKernelImage Env.working
      board.chip board.info heap image ⟨mem, []⟩).1.log mem mem') :
    be32 mem' (flashLengthBootRom + field) ≠ 0 := by
  obtain ⟨hbase, hsucc, hunit⟩ := tag_sector board
  -- the word lies in the sector of the tag, which data and boot line leave alone
  have hdataOut {d : Nat} (hd : d < 4) : ∀ s, board.normal < s ∧ s < board.small →
      flashLengthBootRom + field + d < board.chip.base s ∨
        board.chip.base (s + 1) ≤ flashLengthBootRom + field + d := by
    rintro s ⟨hs, _⟩
    have hmono : board.chip.base (board.normal + 1) ≤ board.chip.base s :=
      board.chip.base_mono hs
    exact .inl (by omega)
  have hbootOut {d : Nat} : ∀ s, s = 0 →
      flashLengthBootRom + field + d < board.chip.base s ∨
        board.chip.base (s + 1) ≤ flashLengthBootRom + field + d := by
    rintro s rfl
    have hmono : board.chip.base (0 + 1) ≤ board.chip.base board.normal :=
      board.chip.base_mono board.normal_pos
    exact .inr (by omega)
  obtain ⟨opsData, opsBoot, hdata, hboot, hlog⟩ :=
    upgrade_log board hnormal heap mem
  have hduringData (h : PowerLost board.chip opsData mem mem') :
      be32 mem' (flashLengthBootRom + field) ≠ 0 := by
    rw [be32_congr fun d hd => h.frame hdata (hdataOut hd)]
    exact hold
  rcases hlog with hlog | hlog
  · rw [hlog] at hlost
    exact hduringData hlost
  rw [hlog] at hlost
  rcases Interrupted.append_cases hlost with hlost | hlost
  · exact hduringData hlost
  have hold' : be32 (run (FlashOp.apply board.chip) opsData mem)
      (flashLengthBootRom + field) ≠ 0 := by
    rw [be32_congr fun d hd => FlashOp.run_outside hdata mem (hdataOut hd)]
    exact hold
  have hnew' : be32 (relocateTag board.chip mem .normal image) field ≠ 0 := by
    rw [be32_congr fun d hd => relocateTag_outside _ _ _ _ (by omega)]
    exact hnew
  rcases Interrupted.append_cases hlost with hlost | hlost
  · exact word_survives board (by omega) hold' hnew' hlost
  rw [be32_congr fun d _ => PowerLost.frame hlost hboot hbootOut]
  apply word_survives board (by omega) hold' hnew'
  exact Interrupted.of_complete (fun _ _ _ => .inr rfl) (by simp [tagOps]) _

end

/-- For every board with the documented map whose chip holds a valid normal and small system,
every image for the normal system with both checksum fields filled in, and every point at which
the upgrade is cut off: the tag that is booted exists and its checksum fields match the bytes it
points at. -/
theorem power_loss_boots (board : Board) (mem pTag1 pTag2 : Nat → UInt8)
    (hfirst : HoldsSystem board .normal mem pTag1) (hsecond : HoldsSystem board .small mem pTag2)
    (image : Nat → UInt8) (hnormal : IsNormal image) (hpresent : CrcPresent image)
    (heap mem' : Nat → UInt8) (hlost : PowerLost board.chip (flashFsKernelImage Env.working
      board.chip board.info heap image ⟨mem, []⟩).1.log mem mem') :
    ∃ pTag, getBootImageTag board.chip mem' = some pTag ∧ CrcMatches board.chip mem' pTag := by
  have hsmall : HoldsSystem board .small mem' pTag2 := by
    apply hsecond.congr
    intro i hlo _
    apply Eq.symm
    apply hlost.frame (upgrade_inside board hnormal heap mem)
    intro s hs
    have hmono : board.chip.base (s + 1) ≤ board.chip.base board.small :=
      board.chip.base_mono hs
    rw [board.small_base] at hmono
    exact .inr (le_trans hmono hlo)
  have hword {field : Nat} (hlo : 150 ≤ field) (hhi : field + 4 ≤ 236)
      (hold : be32 pTag1 field ≠ 0) (hnew : be32 image field ≠ 0) :
      be32 (readTag mem' flashLengthBootRom) field ≠ 0 := by
    have hvalid := hfirst.valid
    rw [board.getTagFromPartition_number] at hvalid
    rw [checkedTag_eq_some hvalid, be32_readTag _ _ (by simp only [tagLen]; omega)] at hold
    rw [be32_readTag _ _ (by simp only [tagLen]; omega)]
    exact tag_word_survives board hnormal hlo hhi hold hnew hlost
  rcases getBootImageTag_cases hsmall.valid with hboot | ⟨pTag, htag, hcheck, hboot⟩
  · exact ⟨pTag2, hboot, hsmall.crcMatches⟩
  refine ⟨pTag, hboot, ?_⟩
  rw [board.getTagFromPartition_one] at htag
  rw [checkedTag_eq_some htag] at hcheck ⊢
  have hpresent' : CrcPresent (readTag mem' flashLengthBootRom) :=
    ⟨hword (by decide) (by decide) hfirst.present.rootfs hpresent.rootfs,
      hword (by decide) (by decide) hfirst.present.kernel hpresent.kernel⟩
  exact hpresent'.checkSystemCrc_iff.mp hcheck

theorem powerLost_at_end (board : Board) (env : Env) (heap image mem : Nat → UInt8) :
    PowerLost board.chip
      (flashFsKernelImage env board.chip board.info heap image ⟨mem, []⟩).1.log mem
      (flashFsKernelImage env board.chip board.info heap image ⟨mem, []⟩).1.mem := by
  obtain ⟨ops, hvia, _, _⟩ :=
    board.flashFsKernelImage_footprint env heap image ⟨mem, []⟩
  have hread := board.mem_log_of_headerField env heap image ⟨mem, []⟩
    (by decide : FileTag.rootfsAddress ∈ headerFields)
  rw [hvia.log_eq] at hread
  have hne : ops ≠ [] := ne_nil_of_mem hread
  rw [hvia.log_eq, hvia.mem_eq]
  exact Interrupted.of_complete (fun _ _ _ => .inr rfl) hne mem

theorem Written.holdsSystem {image : ImageLayout}
    (h : Written board system image prior mem) (hfits : taggedSize image.bytes ≤ system.capacity)
    (hcorrect : image.CrcCorrect) (hpresent : CrcPresent image.bytes) :
    HoldsSystem board system mem (readTag mem system.start) := by
  have hsize := image.taggedSize_eq
  refine {
    valid := h.valid
    present := ⟨?_, ?_⟩
    crcMatches := h.crcMatches hcorrect hfits
    rootfs_above := ?_
    rootfs_below := ?_
    kernel_above := ?_
    kernel_below := ?_ }
  · rw [rootfsCrc, h.be32_eq (by decide) (by decide)]
    exact hpresent.rootfs
  · rw [kernelCrc, h.be32_eq (by decide) (by decide)]
    exact hpresent.kernel
  · rw [h.rootfsAddress_eq]
    omega
  · rw [h.rootfsAddress_eq, h.rootfsLen_eq]
    omega
  · rw [h.kernelAddress_eq hfits]
    omega
  · rw [h.kernelAddress_eq hfits, h.kernelLen_eq]
    omega

theorem tagged_oneByteText : Tagged 1 1 1 (tagText 1 1 1) :=
  tagged_tagText (by decide) (by decide) (by decide)

def oneByteImage : ImageLayout :=
  tagged_oneByteText.stamped.layout

def twoSystems : Nat → UInt8 :=
  blit
    (blit (fun _ => 0xFF) System.normal.start 258
      (relocateTag topBoard.chip (fun _ => 0xFF) .normal oneByteImage.bytes))
    System.small.start 258
    (relocateTag topBoard.chip (fun _ => 0xFF) .small oneByteImage.bytes)

private theorem taggedSize_oneByteImage : taggedSize oneByteImage.bytes = 258 :=
  tagged_oneByteText.stamped.taggedSize_eq

private theorem crcPresent_oneByteImage : CrcPresent oneByteImage.bytes :=
  ⟨by decide +kernel, by decide +kernel⟩

theorem twoSystems_hold (system : System) :
    HoldsSystem topBoard system twoSystems (readTag twoSystems system.start) := by
  have hwritten : Written topBoard system oneByteImage (fun _ => 0xFF) twoSystems := by
    intro i hi
    rw [taggedSize_oneByteImage] at hi
    cases system with
    | normal =>
      have hapart : System.normal.start + 258 ≤ System.small.start := by decide
      rw [twoSystems, blit_outside _ _ (by omega), blit_at _ _ hi]
    | small => rw [twoSystems, blit_at _ _ hi]
  apply hwritten.holdsSystem
  · cases system with
    | normal => decide
    | small => decide
  · exact tagged_oneByteText.crcCorrect
  · exact crcPresent_oneByteImage

def newImage : Nat → UInt8 :=
  blit (tagText 1 65536 65537) 220 8 (fun _ => 1)

private theorem tagged_newImage : Tagged 1 65536 65537 newImage where
  kind_lt := by decide
  rootfsLen_lt := by decide
  kernelLen_lt := by decide
  agree := fun _ _ hhi => (blit_outside _ _ (.inl hhi)).symm

theorem topBoard_power_loss_boots :
    HoldsSystem topBoard .normal twoSystems (readTag twoSystems System.normal.start) ∧
    HoldsSystem topBoard .small twoSystems (readTag twoSystems System.small.start) ∧
    IsNormal newImage ∧ CrcPresent newImage ∧
    ∃ mem', PowerLost topBoard.chip (flashFsKernelImage Env.working
        topBoard.chip topBoard.info (fun _ => 0) newImage
        ⟨twoSystems, []⟩).1.log twoSystems mem' ∧
      ∃ pTag, getBootImageTag topBoard.chip mem' = some pTag ∧ CrcMatches topBoard.chip mem' pTag :=
  have hnormal := tagged_newImage.isNormal (Or.inl rfl)
  have hpresent : CrcPresent newImage := ⟨by decide +kernel, by decide +kernel⟩
  have hlost := powerLost_at_end topBoard Env.working (fun _ => 0) newImage twoSystems
  ⟨twoSystems_hold .normal, twoSystems_hold .small, hnormal, hpresent, _, hlost,
    power_loss_boots topBoard twoSystems _ _ (twoSystems_hold .normal)
      (twoSystems_hold .small) newImage hnormal hpresent (fun _ => 0) _ hlost⟩

theorem Written.boots_unchecked {image : ImageLayout} (h : Written board .normal image prior mem)
    (hrootfs : rootfsCrc image.bytes = 0) (hkernel : kernelCrc image.bytes = 0) :
    getBootImageTag board.chip mem = some (readTag mem System.normal.start) := by
  have hrootfs' : rootfsCrc (readTag mem System.normal.start) = 0 :=
    (h.be32_eq (by decide) (by decide)).trans hrootfs
  have hkernel' : kernelCrc (readTag mem System.normal.start) = 0 :=
    (h.be32_eq (by decide) (by decide)).trans hkernel
  apply getBootImageTag_normal h.valid
  simp only [checkSystemCrc, hrootfs', hkernel', ne_eq, not_true_eq_false, false_and, if_false]

theorem tagged_uncheckedText : Tagged 1 65536 1 (tagText 1 65536 1) :=
  tagged_tagText (by decide) (by decide) (by decide)

/-- An image of more than one 64K sector whose checksum fields are left at 0. -/
def uncheckedImage : ImageLayout :=
  tagged_uncheckedText.layout

/-- After the upgrade such an image is booted, and its kernel checksum field does not match its
kernel. -/
theorem unchecked_image_boots :
    HoldsSystem topBoard .normal twoSystems (readTag twoSystems System.normal.start) ∧
    HoldsSystem topBoard .small twoSystems (readTag twoSystems System.small.start) ∧
    IsNormal uncheckedImage.bytes ∧
    ∃ mem', PowerLost topBoard.chip (flashFsKernelImage Env.working
        topBoard.chip topBoard.info (fun _ => 0) uncheckedImage.bytes
        ⟨twoSystems, []⟩).1.log twoSystems mem' ∧
      ¬∃ pTag, getBootImageTag topBoard.chip mem' = some pTag ∧
        CrcMatches topBoard.chip mem' pTag := by
  have hnormal : IsNormal uncheckedImage.bytes :=
    tagged_uncheckedText.isNormal (.inl rfl)
  have hselect : selectSystem topBoard.chip uncheckedImage.bytes =
      some .normal := tagged_uncheckedText.selectSystem_eq (.inl rfl) (by decide) _
  have hsector : topBoard.chip.sectorSize (topBoard.first .normal) <
      taggedSize uncheckedImage.bytes := by
    decide +kernel
  have hreturn := topBoard.flashFsKernelImage_working hselect hsector (fun _ => 0) ⟨twoSystems, []⟩
  obtain ⟨hfits, hwritten⟩ := written_of_return hnormal hreturn
  refine ⟨twoSystems_hold .normal, twoSystems_hold .small, hnormal, _,
    powerLost_at_end topBoard Env.working (fun _ => 0) uncheckedImage.bytes twoSystems, ?_⟩
  rintro ⟨pTag, hboot, hmatches⟩
  have hkernel : kernelCrc uncheckedImage.bytes = 0 := by decide +kernel
  rw [hwritten.boots_unchecked (by decide +kernel) hkernel] at hboot
  have hcrc := hmatches.kernel
  rw [← Option.some.inj hboot, kernelCrc, hwritten.be32_eq (by decide) (by decide)] at hcrc
  exact absurd (hcrc.trans hkernel) (by decide +kernel)

end EchoLife.Firmware

import EchoLife.Firmware.Phases

/-!
Images and what the boot code makes of them. An image that was written to its
system comes back with a tag whose addresses, printed for that place and parsed
again, locate the uploaded bytes.
-/

namespace EchoLife.Firmware

open Buffer Decimal Flash List Word

/-- An uploaded image: the tag, the root file system, the kernel, laid out as the tag says. The
length texts end inside their members. -/
structure ImageLayout where
  bytes : Nat → UInt8
  length : Nat
  length_lt : length < 2 ^ 31
  rootfsLen_ends : Ends bytes FileTag.rootfsLen FileTag.kernelAddress
  kernelLen_ends : Ends bytes FileTag.kernelLen FileTag.imageSequence
  adjacent : u32 (simpleStrtoul bytes FileTag.kernelAddress -
    simpleStrtoul bytes FileTag.rootfsAddress) = simpleStrtoul bytes FileTag.rootfsLen
  fits : tagLen + simpleStrtoul bytes FileTag.rootfsLen +
    simpleStrtoul bytes FileTag.kernelLen ≤ length

structure ImageLayout.CrcCorrect (image : ImageLayout) : Prop where
  rootfs : rootfsCrc image.bytes = getCrc32 image.bytes tagLen
    (simpleStrtoul image.bytes FileTag.rootfsLen) crc32InitValue
  kernel : kernelCrc image.bytes = getCrc32 image.bytes
    (tagLen + simpleStrtoul image.bytes FileTag.rootfsLen)
    (simpleStrtoul image.bytes FileTag.kernelLen) crc32InitValue

structure IsNormal (image : Nat → UInt8) : Prop where
  version : simpleStrtoul image FileTag.tagVersion = 8
  kind : simpleStrtoul image FileTag.reserved = 1 ∨ simpleStrtoul image FileTag.reserved = 3

/-- A tag's address and length name `length` bytes of the chip, and they are the
image's bytes from `pos` on. -/
structure Locates (part : FlashPart) (mem pTag : Nat → UInt8) (address len : Nat)
    (image : Nat → UInt8) (pos length : Nat) : Prop where
  length_eq : simpleStrtoul pTag len = length
  above : part.flashBase ≤ flashAddress part pTag address
  below : flashAddress part pTag address + length ≤ part.flashBase + part.totalSize
  bytes : ∀ i, i < length →
    mem (flashAddress part pTag address - part.flashBase + i) = image (pos + i)

namespace ImageLayout

variable (image : ImageLayout)

/-- The size of a well laid out image is the plain sum, without overflow. -/
theorem taggedSize_eq : taggedSize image.bytes =
    tagLen + simpleStrtoul image.bytes FileTag.rootfsLen +
      simpleStrtoul image.bytes FileTag.kernelLen := by
  have hfits := image.fits
  have hlength := image.length_lt
  simp only [taggedSize, newImgSize, u32]
  omega

private theorem kernelAddress_eq (part : FlashPart) (system : System) :
    u32 (imageBase + system.offset + kernelDistance part image.bytes) =
      u32 (imageBase + system.offset + simpleStrtoul image.bytes FileTag.rootfsLen) := by
  have hadjacent := image.adjacent
  simp only [kernelDistance]
  generalize (simpleStrtoul image.bytes FileTag.kernelAddress : Int) = kernel at *
  generalize (simpleStrtoul image.bytes FileTag.rootfsAddress : Int) = rootfs at *
  generalize bootOffset part = boot
  simp only [u32] at hadjacent ⊢
  have hkernel := s32_emod (kernel + boot)
  have hrootfs := s32_emod (rootfs + boot)
  omega

end ImageLayout

variable {image : Nat → UInt8}

/-- An image of the normal kind is taken for the normal system, or refused if it is too large. -/
theorem IsNormal.selectSystem_eq (h : IsNormal image) (part : FlashPart) :
    selectSystem part image =
      if taggedSize image > flashLengthNormalSystem then none else some .normal := by
  have hflag : s32 (simpleStrtoul image FileTag.reserved) = 1 ∨
      s32 (simpleStrtoul image FileTag.reserved) = 3 := by
    rcases h.kind with hkind | hkind
    · rw [hkind]
      exact .inl (by decide)
    · rw [hkind]
      exact .inr (by decide)
  have hversion : s32 (simpleStrtoul image FileTag.tagVersion) = 8 := by
    rw [h.version]
    decide
  simp only [selectSystem, hversion, true_and, hflag, if_true]
  exact if_neg (by omega)

variable {part : FlashPart} {i field start : Nat}

theorem IsNormal.normal_of_selectSystem (h : IsNormal image) {system : System}
    (hselect : selectSystem part image = some system) : system = .normal := by
  rw [h.selectSystem_eq] at hselect
  split at hselect
  · cases hselect
  · exact (Option.some.inj hselect).symm

def System.number : System → Nat
  | normal => 1
  | small => 2

variable (board : Board) (system : System)

def Written (image : ImageLayout) (prior mem : Nat → UInt8) : Prop :=
  ∀ i, i < taggedSize image.bytes → mem (system.start + i) =
    relocateTag board.chip prior system image.bytes i

/-- The tag of a partition is the one at the start of its system, if it passes the check. -/
theorem Board.getTagFromPartition_number (mem : Nat → UInt8) :
    getTagFromPartition board.chip mem system.number = checkedTag mem system.start := by
  cases system with
  | normal => exact board.getTagFromPartition_one mem
  | small => exact board.getTagFromPartition_two mem

/-- Each system lies inside the chip with all that it may hold. -/
theorem Board.start_add_capacity_lt : system.start + system.capacity < board.chip.totalSize := by
  rw [board.total_eq]
  cases system with
  | normal => decide
  | small => decide

namespace Written

variable {board : Board} {system : System} {image : ImageLayout}
  {prior mem : Nat → UInt8}

section

variable (h : Written board system image prior mem)
include h

/-- The tag that is read back is the relocated tag of the image. -/
theorem readTag_eq (hi : i < tagLen) :
    readTag mem system.start i = relocateTag board.chip prior system image.bytes i := by
  have hsize := image.taggedSize_eq
  rw [readTag_of_lt mem _ hi]
  exact h i (by omega)

/-- A number that the relocation leaves alone is read back as it was. -/
theorem simpleStrtoul_eq {next : Nat} (hends : Ends image.bytes field next)
    (hkept : ∀ i, field ≤ i → i < next → 104 < i ∧ i < 116 ∨ 126 < i ∧ i < 138) :
    simpleStrtoul (readTag mem system.start) field = simpleStrtoul image.bytes field := by
  apply Eq.symm
  apply simpleStrtoul_congr hends
  intro i hlo hhi
  have hplace := hkept i hlo hhi
  rw [h.readTag_eq (by simp only [tagLen]; omega)]
  exact (relocateTag_outside _ _ _ _ (by omega)).symm

theorem rootfsLen_eq :
    simpleStrtoul (readTag mem system.start) FileTag.rootfsLen =
      simpleStrtoul image.bytes FileTag.rootfsLen := by
  apply h.simpleStrtoul_eq image.rootfsLen_ends
  intro i hlo hhi
  simp only [FileTag.rootfsLen, FileTag.kernelAddress] at hlo hhi
  omega

theorem kernelLen_eq :
    simpleStrtoul (readTag mem system.start) FileTag.kernelLen =
      simpleStrtoul image.bytes FileTag.kernelLen := by
  apply h.simpleStrtoul_eq image.kernelLen_ends
  intro i hlo hhi
  simp only [FileTag.kernelLen, FileTag.imageSequence] at hlo hhi
  omega

/-- An address that was printed for a place of the image leads back to that place. -/
theorem flashAddress_eq {n : Nat} (hfield : field + 11 ≤ tagLen)
    (hholds : Holds (relocateTag board.chip prior system image.bytes)
      field (decimal (u32 (imageBase + n)))) (hn : n < board.chip.totalSize) :
    flashAddress board.chip (readTag mem system.start) field = board.chip.flashBase + n := by
  have hwindow := board.chip.window_le
  have hlength := decimal_length_le (u32 (imageBase + n))
  have htag : Holds (readTag mem system.start) field (decimal (u32 (imageBase + n))) := by
    apply hholds.congr (field + 11)
    · intro i _ hhi
      exact (h.readTag_eq (by omega)).symm
    · omega
  simp only [SectorTable.totalSize] at hn
  simp only [flashAddress, boardAtoi_of_holds htag (u32_lt _), bootOffset, u32]
  omega

/-- The root file system starts right behind the tag. -/
theorem rootfsAddress_eq :
    flashAddress board.chip (readTag mem system.start)
      FileTag.rootfsAddress = board.chip.flashBase + (system.start + tagLen) := by
  apply h.flashAddress_eq (by decide)
  · exact holds_rootfsAddress _ _ _ _
  have hbound := board.start_add_capacity_lt system
  have hcapacity : tagLen ≤ system.capacity := by
    cases system with
    | normal => decide
    | small => decide
  omega

/-- The kernel starts right behind the root file system. -/
theorem kernelAddress_eq (hfits : taggedSize image.bytes ≤ system.capacity) :
    flashAddress board.chip (readTag mem system.start)
      FileTag.kernelAddress =
        board.chip.flashBase + (system.start + tagLen +
          simpleStrtoul image.bytes FileTag.rootfsLen) := by
  have hsize := image.taggedSize_eq
  apply h.flashAddress_eq (by decide)
  · have hholds := holds_kernelAddress board.chip prior system image.bytes
    rw [image.kernelAddress_eq] at hholds
    rw [(by push_cast [System.offset]; ring :
      ((imageBase : Nat) : Int) + (system.start + tagLen +
        simpleStrtoul image.bytes FileTag.rootfsLen : Nat) =
      imageBase + system.offset + simpleStrtoul image.bytes FileTag.rootfsLen)]
    exact hholds
  · have hbound := board.start_add_capacity_lt system
    omega

theorem bytes_eq (hi : tagLen + i < taggedSize image.bytes) :
    mem (system.start + tagLen + i) = image.bytes (tagLen + i) := by
  rw [add_assoc, h (tagLen + i) hi]
  apply relocateTag_outside
  simp only [tagLen]
  omega

/-- The tag of a written image passes the check of its partition. -/
theorem valid :
    getTagFromPartition board.chip mem system.number = some (readTag mem system.start) := by
  have hcrc : tagCrc (readTag mem system.start) =
      be32 (readTag mem system.start) FileTag.tagValidationToken := by
    calc
      tagCrc (readTag mem system.start) =
          tagCrc (relocateTag board.chip prior system image.bytes) := by
        apply getCrc32_congr
        intro i hi
        rw [zero_add]
        exact h.readTag_eq (lt_of_lt_of_le hi (by decide))
      _ = be32 (relocateTag board.chip prior system image.bytes)
          FileTag.tagValidationToken := tagCrc_relocateTag _ _ _ _
      _ = be32 (readTag mem system.start) FileTag.tagValidationToken := by
        apply be32_congr
        intro d hd
        apply Eq.symm
        apply h.readTag_eq
        simp only [FileTag.tagValidationToken, tagLen]
        omega
  rw [board.getTagFromPartition_number]
  exact if_neg (not_not.mpr hcrc)

section

variable (hfits : taggedSize image.bytes ≤ system.capacity)
include hfits

/-- The tag leads to the root file system of the image. -/
theorem locates_rootfs :
    Locates board.chip mem (readTag mem system.start)
      FileTag.rootfsAddress FileTag.rootfsLen image.bytes tagLen
      (simpleStrtoul image.bytes FileTag.rootfsLen) := by
  have hsize := image.taggedSize_eq
  have hbound := board.start_add_capacity_lt system
  refine ⟨h.rootfsLen_eq, ?_, ?_, ?_⟩
  · rw [h.rootfsAddress_eq]
    exact Nat.le_add_right _ _
  · rw [h.rootfsAddress_eq]
    omega
  · intro i hi
    rw [h.rootfsAddress_eq, Nat.add_sub_cancel_left]
    exact h.bytes_eq (by omega)

/-- The tag leads to the kernel of the image. -/
theorem locates_kernel :
    Locates board.chip mem (readTag mem system.start)
      FileTag.kernelAddress FileTag.kernelLen image.bytes
      (tagLen + simpleStrtoul image.bytes FileTag.rootfsLen)
      (simpleStrtoul image.bytes FileTag.kernelLen) := by
  have hsize := image.taggedSize_eq
  have hbound := board.start_add_capacity_lt system
  refine ⟨h.kernelLen_eq, ?_, ?_, ?_⟩
  · rw [h.kernelAddress_eq hfits]
    exact Nat.le_add_right _ _
  · rw [h.kernelAddress_eq hfits]
    omega
  intro i hi
  rw [h.kernelAddress_eq hfits, Nat.add_sub_cancel_left,
    add_assoc (system.start + tagLen), add_assoc tagLen]
  exact h.bytes_eq (by omega)

end

theorem be32_eq (hlo : 150 ≤ field) (hhi : field + 4 ≤ 236) :
    be32 (readTag mem system.start) field = be32 image.bytes field := by
  apply be32_congr
  intro d hd
  rw [h.readTag_eq (by simp only [tagLen]; omega)]
  exact relocateTag_outside _ _ _ _ (by omega)

end

end Written

/-- The check sum over what the tag leads to is that over the part of the image. -/
theorem Locates.systemCrc_eq {mem pTag : Nat → UInt8}
    {address len pos length : Nat} (h : Locates part mem pTag address len image pos length) :
    systemCrc part mem pTag address len = getCrc32 image pos length crc32InitValue := by
  have habove := h.above
  have hbelow := h.below
  rw [Firmware.systemCrc_eq
    (by omega : flashAddress part pTag address =
      part.flashBase + (flashAddress part pTag address - part.flashBase))
    h.length_eq (by omega)]
  exact getCrc32_congr h.bytes _

/-- A written image whose check sums are correct passes both checks. -/
theorem Written.crcMatches {board : Board} {system : System} {image : ImageLayout}
    {prior mem : Nat → UInt8} (hcorrect : image.CrcCorrect)
    (h : Written board system image prior mem) (hfits : taggedSize image.bytes ≤ system.capacity) :
    CrcMatches board.chip mem (readTag mem system.start) := by
  constructor
  · rw [(h.locates_rootfs hfits).systemCrc_eq, ← hcorrect.rootfs]
    exact (h.be32_eq (by decide) (by decide)).symm
  · rw [(h.locates_kernel hfits).systemCrc_eq, ← hcorrect.kernel]
    exact (h.be32_eq (by decide) (by decide)).symm

/-- An upgrade that answers 0 has written the rewritten image, whatever fails on
the way. -/
theorem written_of_return {board : Board} {image : ImageLayout}
    (hnormal : IsNormal image.bytes) {env : Env} {heap : Nat → UInt8} {dev : Dev}
    (hreturn : (flashFsKernelImage env board.chip board.info heap image.bytes dev).2 = some 0) :
    taggedSize image.bytes ≤ flashLengthNormalSystem ∧
    Written board .normal image dev.mem (flashFsKernelImage env
      board.chip board.info heap image.bytes dev).1.mem := by
  cases hselect : selectSystem board.chip image.bytes with
  | none =>
    rw [flashFsKernelImage_refused hselect] at hreturn
    cases hreturn
  | some system =>
    obtain rfl := hnormal.normal_of_selectSystem hselect
    have hfits := board.selectSystem_fits hselect
    refine ⟨hfits, ?_⟩
    rw [flashFsKernelImage_accepted hselect] at hreturn ⊢
    intro i hi
    exact board.writeSystem_stored hfits hreturn hi

/-! ### Images with a given tag -/

/-- The texts of a tag of version 8 with the kernel behind the root file system. -/
def tagMembers (kind rootfsLen kernelLen : Nat) : List (Nat × List UInt8) :=
  [(FileTag.tagVersion, decimal 8), (FileTag.rootfsAddress, decimal imageBase),
    (FileTag.rootfsLen, decimal rootfsLen),
    (FileTag.kernelAddress, decimal (imageBase + rootfsLen)),
    (FileTag.kernelLen, decimal kernelLen), (FileTag.reserved, decimal kind)]

def tagText (kind rootfsLen kernelLen : Nat) : Nat → UInt8 :=
  sprintfAll (fun _ => 0) (tagMembers kind rootfsLen kernelLen)

/-- The bytes start with the texts of such a tag. -/
structure Tagged (kind rootfsLen kernelLen : Nat) (bytes : Nat → UInt8) : Prop where
  kind_lt : kind < 2 ^ 32
  rootfsLen_lt : rootfsLen < 10 ^ 9
  kernelLen_lt : kernelLen < 10 ^ 9
  agree : AgreeOn (tagText kind rootfsLen kernelLen) bytes 0 220

namespace Tagged

variable {kind rootfsLen kernelLen : Nat} {bytes : Nat → UInt8}

section

variable (h : Tagged kind rootfsLen kernelLen bytes)
include h

/-- Every member of the tag stands in its field, and ends before the check sums. -/
theorem holds {text : List UInt8} (hmem : (start, text) ∈ tagMembers kind rootfsLen kernelLen) :
    Holds bytes start text ∧ start + text.length < 220 := by
  have hversion : (decimal 8).length = 1 := rfl
  have hbase := decimal_length_le imageBase
  have hrootfs : (decimal rootfsLen).length ≤ 9 :=
    digits_length_le_of_lt (by decide) 10 h.rootfsLen_lt
  have hkernelAddress := decimal_length_le (imageBase + rootfsLen)
  have hkernel := decimal_length_le kernelLen
  have hkind := decimal_length_le kind
  have hapart : (tagMembers kind rootfsLen kernelLen).Pairwise
      (fun left right => left.1 + left.2.length < right.1) := by
    simp only [tagMembers, FileTag.tagVersion, FileTag.rootfsAddress,
      FileTag.rootfsLen, FileTag.kernelAddress, FileTag.kernelLen, FileTag.reserved,
      pairwise_cons, mem_cons, not_mem_nil, or_false, forall_eq_or_imp, forall_eq]
    refine ⟨⟨?_, ?_, ?_, ?_, ?_⟩, ⟨?_, ?_, ?_, ?_⟩, ⟨?_, ?_, ?_⟩, ⟨?_, ?_⟩, ?_, by simp⟩
      <;> omega
  have hend : start + text.length < 220 := by
    simp only [tagMembers, FileTag.tagVersion, FileTag.rootfsAddress,
      FileTag.rootfsLen, FileTag.kernelAddress, FileTag.kernelLen, FileTag.reserved,
      mem_cons, not_mem_nil, or_false, Prod.mk.injEq] at hmem
    rcases hmem with ⟨rfl, rfl⟩ | ⟨rfl, rfl⟩ | ⟨rfl, rfl⟩ | ⟨rfl, rfl⟩ | ⟨rfl, rfl⟩ |
      ⟨rfl, rfl⟩ <;> omega
  exact ⟨(holds_sprintfAll hapart _ hmem).congr 220
    (h.agree.mono (Nat.zero_le _) le_rfl) hend, hend⟩

theorem simpleStrtoul_eq {n : Nat} (hmem : (start, decimal n) ∈ tagMembers kind rootfsLen kernelLen)
    (hn : n < 2 ^ 32) : simpleStrtoul bytes start = n :=
  (h.holds hmem).1.simpleStrtoul_eq hn

theorem rootfsLen_eq : simpleStrtoul bytes FileTag.rootfsLen = rootfsLen := by
  have hlt := h.rootfsLen_lt
  exact h.simpleStrtoul_eq (by simp [tagMembers]) (by omega)

theorem kernelLen_eq : simpleStrtoul bytes FileTag.kernelLen = kernelLen := by
  have hlt := h.kernelLen_lt
  exact h.simpleStrtoul_eq (by simp [tagMembers]) (by omega)

theorem ends : ∀ field ∈ headerFields, Ends bytes field 220 := by
  intro field hfield
  have hfields : headerFields ⊆ (tagMembers kind rootfsLen kernelLen).map Prod.fst := by
    simp [headerFields, tagMembers]
  obtain ⟨⟨_, text⟩, hmem, rfl⟩ := mem_map.mp (hfields hfield)
  obtain ⟨hholds, hend⟩ := h.holds hmem
  exact hholds.ends hend

theorem isNormal (hkind : kind = 1 ∨ kind = 3) : IsNormal bytes := by
  constructor
  · exact h.simpleStrtoul_eq (by simp [tagMembers]) (by decide)
  · rw [h.simpleStrtoul_eq (by simp [tagMembers] : (FileTag.reserved, decimal kind) ∈ _) h.kind_lt]
    exact hkind

private theorem length_lt : tagLen + rootfsLen + kernelLen < 2 ^ 31 := by
  have hrootfs := h.rootfsLen_lt
  have hkernel := h.kernelLen_lt
  simp only [tagLen]
  omega

private theorem rootfsLen_ends : Ends bytes FileTag.rootfsLen FileTag.kernelAddress := by
  have hlength : (decimal rootfsLen).length ≤ 9 :=
    digits_length_le_of_lt (by decide) 10 h.rootfsLen_lt
  apply (h.holds (by simp [tagMembers] : (FileTag.rootfsLen, decimal rootfsLen) ∈ _)).1.ends
  simp only [FileTag.rootfsLen, FileTag.kernelAddress]
  omega

private theorem kernelLen_ends : Ends bytes FileTag.kernelLen FileTag.imageSequence := by
  have hlength : (decimal kernelLen).length ≤ 9 :=
    digits_length_le_of_lt (by decide) 10 h.kernelLen_lt
  apply (h.holds (by simp [tagMembers] : (FileTag.kernelLen, decimal kernelLen) ∈ _)).1.ends
  simp only [FileTag.kernelLen, FileTag.imageSequence]
  omega

private theorem adjacent :
    u32 (simpleStrtoul bytes FileTag.kernelAddress - simpleStrtoul bytes FileTag.rootfsAddress) =
      simpleStrtoul bytes FileTag.rootfsLen := by
  have hrootfs := h.rootfsLen_lt
  rw [h.rootfsLen_eq, h.simpleStrtoul_eq (by simp [tagMembers] :
      (FileTag.kernelAddress, decimal (imageBase + rootfsLen)) ∈ _)
      (by simp only [imageBase]; omega),
    h.simpleStrtoul_eq (by simp [tagMembers] :
      (FileTag.rootfsAddress, decimal imageBase) ∈ _) (by decide)]
  simp only [u32]
  omega

private theorem fits : tagLen + simpleStrtoul bytes FileTag.rootfsLen +
    simpleStrtoul bytes FileTag.kernelLen ≤ tagLen + rootfsLen + kernelLen := by
  rw [h.rootfsLen_eq, h.kernelLen_eq]

end

def layout (h : Tagged kind rootfsLen kernelLen bytes) : ImageLayout where
  bytes := bytes
  length := tagLen + rootfsLen + kernelLen
  length_lt := h.length_lt
  rootfsLen_ends := h.rootfsLen_ends
  kernelLen_ends := h.kernelLen_ends
  adjacent := h.adjacent
  fits := h.fits

theorem taggedSize_eq (h : Tagged kind rootfsLen kernelLen bytes) :
    taggedSize bytes = tagLen + rootfsLen + kernelLen := by
  have hsize := h.layout.taggedSize_eq
  simp only [layout, h.rootfsLen_eq, h.kernelLen_eq] at hsize
  exact hsize

theorem selectSystem_eq (h : Tagged kind rootfsLen kernelLen bytes) (hkind : kind = 1 ∨ kind = 3)
    (hfits : tagLen + rootfsLen + kernelLen ≤ flashLengthNormalSystem)
    (part : FlashPart) : selectSystem part bytes = some .normal := by
  rw [(h.isNormal hkind).selectSystem_eq, h.taggedSize_eq]
  exact if_neg (not_lt.mpr hfits)

end Tagged

variable (text : Nat → UInt8)

def stampCrcs : Nat → UInt8 :=
  let rootfs := getCrc32 text tagLen (simpleStrtoul text FileTag.rootfsLen) crc32InitValue
  let kernel := getCrc32 text (tagLen + simpleStrtoul text FileTag.rootfsLen)
    (simpleStrtoul text FileTag.kernelLen) crc32InitValue
  blit (blit text 220 4 (be32Bytes rootfs)) 224 4 (be32Bytes kernel)

/-- Stamping an image changes the two check sums only. -/
theorem stampCrcs_outside (h : i < 220 ∨ 228 ≤ i) : stampCrcs text i = text i := by
  simp only [stampCrcs]
  rw [blit_outside _ _ (by omega), blit_outside _ _ (by omega)]

private theorem getCrc32_stampCrcs (h : tagLen ≤ start) (size crc : Nat) :
    getCrc32 (stampCrcs text) start size crc = getCrc32 text start size crc := by
  apply getCrc32_congr
  intro i _
  apply stampCrcs_outside
  simp only [tagLen] at h
  omega

section

variable {kind rootfsLen kernelLen : Nat} {text : Nat → UInt8}
  (h : Tagged kind rootfsLen kernelLen text)
include h

theorem Tagged.stamped : Tagged kind rootfsLen kernelLen (stampCrcs text) where
  kind_lt := h.kind_lt
  rootfsLen_lt := h.rootfsLen_lt
  kernelLen_lt := h.kernelLen_lt
  agree := by
    intro i hlo hhi
    rw [stampCrcs_outside text (.inl hhi)]
    exact h.agree i hlo hhi

/-- A stamped image has correct check sums, since they do not cover the tag. -/
theorem Tagged.crcCorrect : h.stamped.layout.CrcCorrect := by
  constructor
  · simp only [layout, h.stamped.rootfsLen_eq]
    rw [getCrc32_stampCrcs text le_rfl,
      ← be32_bytes (getCrc32_lt text tagLen rootfsLen (by decide))]
    apply be32_congr
    intro d hd
    simp only [stampCrcs, h.rootfsLen_eq, FileTag.imageValidationToken, crcLen, Nat.reduceAdd]
    rw [blit_outside _ _ (by omega), blit_at _ _ hd, zero_add]
  · simp only [layout, h.stamped.rootfsLen_eq, h.stamped.kernelLen_eq]
    rw [getCrc32_stampCrcs text (Nat.le_add_right _ _),
      ← be32_bytes (getCrc32_lt text (tagLen + rootfsLen) kernelLen (by decide))]
    apply be32_congr
    intro d hd
    simp only [stampCrcs, h.rootfsLen_eq, h.kernelLen_eq, FileTag.imageValidationToken,
      crcLen, Nat.reduceAdd, Nat.reduceMul]
    rw [blit_at _ _ hd, zero_add]

end

/-- Images with any kind and lengths exist. -/
theorem tagged_tagText {kind rootfsLen kernelLen : Nat} (hkind : kind < 2 ^ 32)
    (hrootfs : rootfsLen < 10 ^ 9) (hkernel : kernelLen < 10 ^ 9) :
    Tagged kind rootfsLen kernelLen (tagText kind rootfsLen kernelLen) :=
  ⟨hkind, hrootfs, hkernel, fun _ _ _ => rfl⟩

end EchoLife.Firmware

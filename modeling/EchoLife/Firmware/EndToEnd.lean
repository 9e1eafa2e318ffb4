import EchoLife.Firmware.Image

/-!
A firmware upgrade from the uploaded image to the next boot. The tag that comes
back from the chip is the rewritten one, and the checksums the image already
carried are those of the bytes it points at.
-/

namespace EchoLife.Firmware

open Decimal Flash

structure NormalImage extends ImageLayout where
  isNormal : IsNormal bytes
  crcCorrect : toImageLayout.CrcCorrect

structure Installed (part : FlashPart) (mem : Nat → UInt8) (image : NormalImage)
    (pTag : Nat → UInt8) : Prop where
  valid : getTagFromPartition part mem 1 = some pTag
  rootfs : Locates part mem pTag FileTag.rootfsAddress FileTag.rootfsLen image.bytes
    tagLen (simpleStrtoul image.bytes FileTag.rootfsLen)
  kernel : Locates part mem pTag FileTag.kernelAddress FileTag.kernelLen image.bytes
    (tagLen + simpleStrtoul image.bytes FileTag.rootfsLen)
    (simpleStrtoul image.bytes FileTag.kernelLen)
  checked : checkSystemCrc part mem (some pTag) = 0
  booted : getBootImageTag part mem = some pTag

/-- For every board with the documented map, every well-formed normal image and every chip, with
or without failing writes: if the upgrade answers 0, the tag read back is valid, locates the
uploaded root file system and kernel, passes the checksum test and is the one that is booted. -/
theorem upgraded_image_boots (board : Board) (image : NormalImage) (env : Env)
    (heap : Nat → UInt8) (dev : Dev)
    (hreturn : (flashFsKernelImage env board.chip board.info heap image.bytes dev).2 = some 0) :
    ∃ pTag, Installed board.chip
      (flashFsKernelImage env board.chip board.info heap image.bytes dev).1.mem image pTag := by
  obtain ⟨hfits, hwritten⟩ := written_of_return image.isNormal hreturn
  have hchecked := (hwritten.crcMatches image.crcCorrect hfits).checkSystemCrc_eq
  exact ⟨_, {
    valid := hwritten.valid
    rootfs := hwritten.locates_rootfs hfits
    kernel := hwritten.locates_kernel hfits
    checked := hchecked
    booted := getBootImageTag_normal hwritten.valid hchecked }⟩

theorem tagged_sampleText : Tagged 1 65536 65537 (tagText 1 65536 65537) :=
  tagged_tagText (by decide) (by decide) (by decide)

def sampleImage : NormalImage where
  toImageLayout := tagged_sampleText.stamped.layout
  isNormal := tagged_sampleText.stamped.isNormal (.inl rfl)
  crcCorrect := tagged_sampleText.crcCorrect

theorem selectSystem_sampleImage : selectSystem topBoard.chip sampleImage.bytes = some .normal :=
  tagged_sampleText.stamped.selectSystem_eq (.inl rfl) (by decide) _

theorem sampleImage_boots :
    (flashFsKernelImage Env.working topBoard.chip topBoard.info
      (fun _ => 0) sampleImage.bytes ⟨fun _ => 0xFF, []⟩).2 = some 0 ∧
    ∃ pTag, Installed topBoard.chip
      (flashFsKernelImage Env.working topBoard.chip topBoard.info
        (fun _ => 0) sampleImage.bytes ⟨fun _ => 0xFF, []⟩).1.mem sampleImage pTag :=
  have hsector : topBoard.chip.sectorSize (topBoard.first .normal) <
      taggedSize sampleImage.bytes := by
    decide +kernel
  have hreturn := topBoard.flashFsKernelImage_working selectSystem_sampleImage hsector
    (fun _ => 0) ⟨fun _ => 0xFF, []⟩
  ⟨hreturn, upgraded_image_boots topBoard sampleImage Env.working (fun _ => 0)
    ⟨fun _ => 0xFF, []⟩ hreturn⟩

end EchoLife.Firmware

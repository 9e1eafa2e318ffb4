import EchoLife.Firmware.Upgrade

/-!
The numbers by which the two installed images are ordered. An upgrade of the normal system prints
one more than the greater of them into the `imageSequence` member of the new tag, which has four
bytes; the small system always gets 0. From 1000 on the text runs into the product name, and past
`2^31 - 1` it is that of a negative number, which is read back as 0.
-/

namespace EchoLife.Firmware

open Buffer Decimal List Run Word

abbrev TagPair := (Nat → UInt8) × (Nat → UInt8)

def tagNumber (pTag : Nat → UInt8) : Nat :=
  simpleStrtoul pTag FileTag.imageSequence

/-- The number as the code that selects an image has it, in an `int`. -/
def sequenceOf (pTag : Nat → UInt8) : Int :=
  s32 (tagNumber pTag)

/-- The number that `UpdateImageSequenceNumber` prints, for the tags it finds. -/
def nextSequence (pTag1 pTag2 : Option (Nat → UInt8)) : Int :=
  let number := match pTag1 with
    | some pTag => s32 (tagNumber pTag)
    | none => 0
  let number := match pTag2 with
    | some pTag => if tagNumber pTag > u32 number then s32 (tagNumber pTag) else number
    | none => number
  s32 (number + 1)

private theorem newImageSequence_eq (part : Flash.FlashPart) (mem : Nat → UInt8) :
    newImageSequence part mem =
      nextSequence (getTagFromPartition part mem 1) (getTagFromPartition part mem 2) :=
  rfl

variable (system : System) (image : Nat → UInt8) (installed : TagPair) (tagFs : Nat → UInt8)

def updateImageSequenceNumber : Nat → UInt8 :=
  sprintf tagFs FileTag.imageSequence
    (decimalInt (nextSequence (some installed.1) (some installed.2)))

/-- The tag of the new image with its number. -/
def sequenceTag : Nat → UInt8 :=
  match system with
  | .normal => updateImageSequenceNumber installed image
  | .small => sprintf image FileTag.imageSequence (decimalInt 0)

theorem addressTag_eq_sequenceTag {part : Flash.FlashPart} {mem image pTag1 pTag2 : Nat → UInt8}
    (h1 : getTagFromPartition part mem 1 = some pTag1)
    (h2 : getTagFromPartition part mem 2 = some pTag2) (system : System) {i : Nat}
    (hi : 138 ≤ i) :
    addressTag part mem system image i = sequenceTag system image (pTag1, pTag2) i := by
  have hkernel := decimal_length_le
    (u32 (imageBase + system.offset + kernelDistance part image))
  have hrootfs := decimal_length_le (u32 (imageBase + system.offset))
  simp only [addressTag, FileTag.kernelAddress, FileTag.rootfsAddress]
  rw [sprintf_outside _ (by omega), sprintf_outside _ (by omega)]
  cases system with
  | normal =>
    rw [sequenceText, newImageSequence_eq, h1, h2]
    rfl
  | small => rfl

def Newest : Prop :=
  sequenceOf installed.1 < sequenceOf tagFs ∧ sequenceOf installed.2 < sequenceOf tagFs

def OnlyMember : Prop :=
  ∀ i, i < 138 ∨ 142 ≤ i → tagFs i = image i

/-- The normal system is in the first partition, the small one in the second. -/
def upgrade (new : System × (Nat → UInt8)) (installed : TagPair) : TagPair :=
  match new.1 with
  | .normal => (sequenceTag new.1 new.2 installed, installed.2)
  | .small => (installed.1, sequenceTag new.1 new.2 installed)

/-- What is printed is only the member, and for the normal system the greatest number. -/
def UpgradeOk (new : System × (Nat → UInt8)) (installed : TagPair) : Prop :=
  (new.1 = .normal → Newest installed (sequenceTag new.1 new.2 installed)) ∧
    OnlyMember new.2 (sequenceTag new.1 new.2 installed)

def TagPair.latest : Nat :=
  max (tagNumber installed.1) (tagNumber installed.2)

section Number
variable {installed : TagPair} {image : Nat → UInt8}

theorem nextSequence_eq (installed : TagPair) :
    nextSequence (some installed.1) (some installed.2) = s32 (installed.latest + 1 : Nat) := by
  have hlt : tagNumber installed.1 < 2 ^ 32 := simpleStrtoul_lt _ _
  have hword : u32 (s32 (tagNumber installed.1)) = tagNumber installed.1 := by
    simp only [u32, s32_emod]
    omega
  simp only [nextSequence, hword, TagPair.latest]
  split
  · rw [s32_s32_add, max_eq_right (by omega)]
    rfl
  · rw [s32_s32_add, max_eq_left (by omega)]
    rfl

theorem tagNumber_normal :
    tagNumber (sequenceTag .normal image installed) = (s32 (installed.latest + 1 : Nat)).toNat := by
  have hrange := s32_range (installed.latest + 1 : Nat)
  have htext := holds_sprintf image FileTag.imageSequence
    (decimalInt (s32 (installed.latest + 1 : Nat)))
  change simpleStrtoul (updateImageSequenceNumber installed image) _ = _
  rw [updateImageSequenceNumber, nextSequence_eq]
  generalize s32 (installed.latest + 1 : Nat) = number at hrange htext ⊢
  rcases lt_or_ge number 0 with hneg | hpos
  · rw [Int.toNat_of_nonpos hneg.le]
    apply simpleStrtoul_of_sign
    have hsign := htext 0 (Nat.zero_le _)
    rw [add_zero] at hsign
    rw [hsign, decimalInt, if_pos hneg]
    rfl
  · rw [decimalInt, if_neg (not_lt.mpr hpos)] at htext ⊢
    exact htext.simpleStrtoul_eq (by omega)

private theorem tagNumber_small : tagNumber (sequenceTag .small image installed) = 0 :=
  (holds_sprintf image FileTag.imageSequence (decimal 0)).simpleStrtoul_eq (by decide)

private theorem onlyMember_small : OnlyMember image (sequenceTag .small image installed) := by
  intro i hi
  have hlength : (decimalInt 0).length = 1 := rfl
  exact sprintf_outside image (by simp only [FileTag.imageSequence]; omega)

private theorem newest_upgrade_iff :
    Newest installed (sequenceTag .normal image installed) ↔
      installed.latest < 2 ^ 31 - 1 ∨
        2 ^ 31 ≤ tagNumber installed.1 ∧ 2 ^ 31 ≤ tagNumber installed.2 := by
  have h1 : tagNumber installed.1 < 2 ^ 32 := simpleStrtoul_lt _ _
  have h2 : tagNumber installed.2 < 2 ^ 32 := simpleStrtoul_lt _ _
  have hle1 : tagNumber installed.1 ≤ installed.latest := le_max_left _ _
  have hle2 : tagNumber installed.2 ≤ installed.latest := le_max_right _ _
  have hlt : installed.latest < 2 ^ 32 := max_lt h1 h2
  have hint (n : Nat) (hn : n < 2 ^ 32) :
      s32 n = n ∧ n < 2 ^ 31 ∨ s32 n = n - 2 ^ 32 ∧ 2 ^ 31 ≤ n := by
    simp only [s32]
    split <;> omega
  have hback : s32 (tagNumber (sequenceTag .normal image installed)) = installed.latest + 1 ∧
      installed.latest < 2 ^ 31 - 1 ∨
      s32 (tagNumber (sequenceTag .normal image installed)) = 0 ∧
        2 ^ 31 - 1 ≤ installed.latest := by
    have hrange := s32_range (installed.latest + 1 : Nat)
    have hword := s32_emod (installed.latest + 1 : Nat)
    rw [tagNumber_normal, s32_of_range (by omega) (by omega)]
    omega
  have hfirst := hint _ h1
  have hsecond := hint _ h2
  simp only [Newest, sequenceOf]
  omega

private theorem onlyMember_upgrade_iff (hname : image 142 ≠ 0 ∧ decimalDigit (image 142) = none)
    (hint : installed.latest < 2 ^ 31 - 1) :
    OnlyMember image (sequenceTag .normal image installed) ↔ installed.latest + 1 ≤ 999 := by
  have hnumber : s32 (installed.latest + 1 : Nat) = (installed.latest + 1 : Nat) :=
    s32_of_range (by omega) (by omega)
  have htag : sequenceTag .normal image installed =
      sprintf image 138 (decimal (installed.latest + 1)) := by
    rw [sequenceTag, updateImageSequenceNumber, nextSequence_eq, hnumber, decimalInt,
      if_neg (by omega), Int.toNat_natCast]
    rfl
  rw [htag]
  constructor
  · intro honly
    by_contra hlarge
    have hlength : 3 < (decimal (installed.latest + 1)).length :=
      digits_length_gt (by decide) (by omega)
    have htext := holds_sprintf image 138 (decimal (installed.latest + 1))
    refine htext.ne_of_not_digit hlength hname.1 hname.2 ?_
    exact honly 142 (.inr le_rfl)
  · intro hsmall i hi
    have hlength : (decimal (installed.latest + 1)).length ≤ 3 :=
      digits_length_le_of_lt (by decide) 10 (by omega)
    exact sprintf_outside image (by omega)

end Number

def normals (news : List (System × (Nat → UInt8))) : Nat :=
  news.countP (·.1 = .normal)

/-- The number that the first upgrade of the normal system starts from. The one of a small system
that is replaced before it does not count. -/
def startNumber : List (System × (Nat → UInt8)) → TagPair → Nat
  | (.small, _) :: _, installed => tagNumber installed.1
  | _, installed => installed.latest

private theorem startNumber_eq {number : Nat} (h1 : tagNumber installed.1 = number)
    (h2 : tagNumber installed.2 ≤ number) (news : List (System × (Nat → UInt8))) :
    startNumber news installed = number := by
  have hlatest : installed.latest = number := by
    rw [TagPair.latest, h1, max_eq_left h2]
  unfold startNumber
  split
  · exact h1
  · exact hlatest

/-- Upgrades, those of the normal system with images that have a product name, all number their
image behind the installed ones and leave the rest of its tag alone exactly if the last number has
three digits. For any two tags the order is right exactly up to the greatest `int`, or if both
numbers are negative as such. -/
theorem image_sequence_iff (installed : TagPair) (news : List (System × (Nat → UInt8))) :
    ((∀ new ∈ news, new.1 = .normal → new.2 142 ≠ 0 ∧ decimalDigit (new.2 142) = none) →
      installed.latest < 2 ^ 31 →
      (Allowed upgrade UpgradeOk news installed ↔
        normals news = 0 ∨ startNumber news installed + normals news ≤ 999)) ∧
    ∀ image, Newest installed (sequenceTag .normal image installed) ↔
      installed.latest < 2 ^ 31 - 1 ∨
        2 ^ 31 ≤ tagNumber installed.1 ∧ 2 ^ 31 ≤ tagNumber installed.2 := by
  refine ⟨?_, fun _ => newest_upgrade_iff⟩
  intro hnames hint
  induction news generalizing installed with
  | nil => exact iff_of_true trivial (.inl rfl)
  | cons new rest ih =>
    rw [forall_mem_cons] at hnames
    obtain ⟨system, image⟩ := new
    have hle : tagNumber installed.1 ≤ installed.latest := le_max_left _ _
    simp only [Allowed]
    cases system with
    | small =>
      have hok : UpgradeOk (.small, image) installed := ⟨by rintro ⟨⟩, onlyMember_small⟩
      have hsecond : tagNumber (upgrade (.small, image) installed).2 = 0 := by
        change tagNumber (sequenceTag .small image installed) = 0
        exact tagNumber_small
      have hlatest : (upgrade (.small, image) installed).latest = tagNumber installed.1 := by
        rw [TagPair.latest, hsecond]
        exact Nat.max_zero _
      have hstart := startNumber_eq (upgrade (.small, image) installed) rfl
        (hsecond.trans_le (Nat.zero_le _)) rest
      rw [and_iff_right hok, ih _ hnames.2 (by omega), hstart]
      simp [normals, startNumber, upgrade]
    | normal =>
      have hcount : normals ((.normal, image) :: rest) = normals rest + 1 := by
        simp [normals]
      simp only [hcount, startNumber, Nat.add_one_ne_zero, false_or]
      by_cases hsmall : installed.latest + 1 ≤ 999
      · have hok : UpgradeOk (.normal, image) installed :=
          ⟨fun _ => newest_upgrade_iff.mpr (.inl (by omega)),
            (onlyMember_upgrade_iff (hnames.1 rfl) (by omega)).mpr hsmall⟩
        have hfirst : tagNumber (upgrade (.normal, image) installed).1 = installed.latest + 1 := by
          change tagNumber (sequenceTag .normal image installed) = _
          rw [tagNumber_normal, s32_of_range (by omega) (by omega), Int.toNat_natCast]
        have hsecond : tagNumber (upgrade (.normal, image) installed).2 ≤ installed.latest + 1 :=
          (le_max_right _ _).trans (Nat.le_succ _)
        have hlatest : (upgrade (.normal, image) installed).latest = installed.latest + 1 := by
          rw [TagPair.latest, hfirst, max_eq_left hsecond]
        rw [and_iff_right hok, ih _ hnames.2 (by omega), startNumber_eq _ hfirst hsecond]
        omega
      · refine iff_of_false ?_ (by omega)
        rintro ⟨⟨hnewest, honly⟩, _⟩
        rcases newest_upgrade_iff.mp (hnewest rfl) with hlt | ⟨hneg, _⟩
        · exact hsmall ((onlyMember_upgrade_iff (hnames.1 rfl) hlt).mp honly)
        · omega

/-- A tag with the number and the product name `HG553`. -/
def numberedTag (number : Nat) : Nat → UInt8 :=
  sprintf (fun i => if i < 142 then 0 else [0x48, 0x47, 0x35, 0x35, 0x33].getD (i - 142) 0) 138
    (decimal number)

theorem two_upgrades_numbered :
    Allowed upgrade UpgradeOk
      [(.small, numberedTag 7), (.normal, numberedTag 0), (.normal, numberedTag 0)]
      (numberedTag 3, numberedTag 998) :=
  ((image_sequence_iff (numberedTag 3, numberedTag 998)
    [(.small, numberedTag 7), (.normal, numberedTag 0), (.normal, numberedTag 0)]).1
    (by decide) (by decide)).mpr (by decide)

/-- The upgrade after 999 cuts the product name, and the one after the greatest `int` is numbered
0. -/
theorem upgrade_past_member :
    ¬UpgradeOk (.normal, numberedTag 0) (numberedTag 999, numberedTag 0) ∧
      ¬Newest (numberedTag 2147483647, numberedTag 0)
        (sequenceTag .normal (numberedTag 0) (numberedTag 2147483647, numberedTag 0)) := by
  constructor
  · rintro ⟨-, honly⟩
    have hname := honly 142 (.inr le_rfl)
    revert hname
    decide
  · rintro ⟨hnewest, -⟩
    revert hnewest
    decide

end EchoLife.Firmware

import EchoLife.Flash.Geometry

/-!
The sector table that `cfi_flash_init` builds from the CFI query data of a device. Nothing checks
the reported counts against the two arrays, so the indices are kept as data beside the table: one
outside an array is an access to foreign memory. Arithmetic is that of a 32-bit `int`.
-/

namespace EchoLife.Flash

open List Word

/-- `FLASH_AMD`, `FLASH_INTEL` and `FLASH_SST`. -/
inductive FlashFamily where
  | amd
  | intel
  | sst
  deriving DecidableEq

/-- `I28F160C3B`, `I28F320C3B`, `I28F160C3T`, `I28F320C3T`, `I28F640J3`. -/
def intelIds : List UInt16 :=
  [0x88C3, 0x88C5, 0x88C2, 0x88C4, 0x8916]

/-- `AM29DL800B`, `AM29LV800B`, `AM29LV400B`, `AM29LV160B`, `AM29LV320B`,
`MX29LV320AB`, `MX29LV128DB`, `COMMON_DEVICE_ID_2200`, `AM29DL800T`, `AM29LV800T`,
`AM29LV160T`, `AM29LV320T`, `MX29LV320AT`, `MX29LV128DT`, `COMMON_DEVICE_ID_2201`,
`AM29LV200BT`, `MX29LV640BT`, `MX29LV640FT`. -/
def amdIds : List UInt16 :=
  [0x22CB, 0x225B, 0x22BA, 0x2249, 0x22F9, 0x22A8, 0x227A, 0x2200, 0x224A, 0x22DA,
    0x22C4, 0x22F6, 0x22A7, 0x227E, 0x2201, 0x223B, 0x22C9, 0x22ED]

/-- `SST39VF200A`, `SST39VF400A`, `SST39VF800A`, `SST39VF1601`, `SST39VF3201`. -/
def sstIds : List UInt16 :=
  [0x2789, 0x2780, 0x2781, 0x234B, 0x235B]

section
variable (deviceId : UInt16)

def flashFamily : Option FlashFamily :=
  if deviceId ∈ intelIds then some .intel
  else if deviceId ∈ amdIds then some .amd
  else if deviceId ∈ sstIds then some .sst
  else none

/-- The devices whose regions are taken as they are reported: `AM29DL800B`,
`AM29LV800B`, `AM29LV160B`, `AM29LV320B`, `MX29LV320AB`, `MX29LV128DB`,
`AM29LV320MB`, the Intel parts, `SST39VF3201`, `SST39VF200A`, `SST39VF400A`,
`SST39VF800A`. -/
def bottomBootIds : List UInt16 :=
  [0x22CB, 0x225B, 0x2249, 0x22F9, 0x22A8, 0x227A, 0x2200, 0x88C3, 0x88C5, 0x8916,
    0x88C2, 0x88C4, 0x235B, 0x2789, 0x2780, 0x2781]

/-- The devices whose regions are taken from the last to the first: `AM29LV400B`,
`AM29DL800T`, `AM29LV800T`, `AM29LV160T`, `AM29LV320T`, `MX29LV320AT`,
`MX29LV128DT`, `AM29LV320MT`, `AM29LV200BT`, `SST39VF1601`, `MX29LV640BT`,
`MX29LV640FT`. -/
def topBootIds : List UInt16 :=
  [0x22BA, 0x224A, 0x22DA, 0x22C4, 0x22F6, 0x22A7, 0x227E, 0x2201, 0x223B, 0x234B, 0x22C9, 0x22ED]

def flipCFIGeometry : Option Bool :=
  if deviceId ∈ bottomBootIds then some false
  else if deviceId ∈ topBootIds then some true
  else none

/-- The data kept for devices that do not answer a query. The three arrays
`cfi_data_struct_29W160`, `cfi_data_struct_29W200` and `cfi_data_struct_26LV800B` differ in the
last sector count only. -/
def cfiDataStruct (lastRegion : UInt16) : List UInt16 :=
  [0x0020, 0x0049, 0xffff, 0xffff, 0xffff, 0xffff, 0xffff, 0xffff,
    0xffff, 0xffff, 0xffff, 0xffff, 0xffff, 0xffff, 0xffff, 0xffff,
    0x0051, 0x0052, 0x0059, 0x0002, 0x0000, 0x0040, 0x0000, 0x0000,
    0x0000, 0x0000, 0x0000, 0x0027, 0x0036, 0x0000, 0x0000, 0x0004,
    0x0000, 0x000a, 0x0000, 0x0004, 0x0000, 0x0003, 0x0000, 0x0015,
    0x0002, 0x0000, 0x0000, 0x0000, 0x0004, 0x0000, 0x0000, 0x0040,
    0x0000, 0x0001, 0x0000, 0x0020, 0x0000, 0x0000, 0x0000, 0x0080,
    0x0000, lastRegion, 0x0000, 0x0000, 0x0001, 0xffff, 0xffff, 0xffff,
    0x0050, 0x0052, 0x0049, 0x0031, 0x0030, 0x0000, 0x0002, 0x0001,
    0x0001, 0x0004, 0x0000, 0x0000, 0x0000, 0xffff, 0xffff, 0x0002] ++
  replicate 16 0xffff ++ [0xffff, 0x0888, 0x252b, 0x8c84, 0x7dbc] ++
  replicate 27 0xffff

structure EraseBlock where
  sectorSize : Nat
  numSectors : Nat

/-- `struct cfi_query`, with the region array and the memory that follows it. -/
structure CfiQuery where
  numEraseBlocks : Nat
  deviceSize : Int
  eraseBlock : Nat → EraseBlock

variable (fwp : Nat → UInt16)

def eraseBlockAt (i : Nat) : EraseBlock where
  sectorSize :=
    u32 (256 * (256 * (fwp (0x30 + 4 * i)).toNat + (fwp (0x2F + 4 * i)).toNat) : Nat)
  numSectors := (fwp (0x2D + 4 * i)).toNat + (fwp (0x2E + 4 * i)).toNat * 256 + 1

/-- `none` for -1. It gives up only if all three characters of `QRY` are wrong. The shift by the
size exponent is that of the machine, modulo 32. -/
def cfiFlashGetCfi (family : FlashFamily) : Option CfiQuery :=
  if fwp 0x10 ≠ 0x51 ∧ fwp 0x11 ≠ 0x52 ∧ fwp 0x12 ≠ 0x59 then none
  else
    let numEraseBlocks := if family = .sst then 1 else (fwp 0x2C).toNat
    some {
      numEraseBlocks := numEraseBlocks
      deviceSize := s32 (2 ^ ((fwp 0x27).toNat % 32))
      eraseBlock := fun i => if i < numEraseBlocks then eraseBlockAt fwp i else ⟨0, 0⟩ }

def cannedData : Option (List UInt16) :=
  if deviceId = 0x22C4 ∨ deviceId = 0x2249 then some (cfiDataStruct 0x001e)
  else if deviceId = 0x223B then some (cfiDataStruct 0x0002)
  else if deviceId = 0x225B then some (cfiDataStruct 0x000e)
  else none

def cfiQuery : Option CfiQuery :=
  (flashFamily deviceId).bind fun family =>
    (cfiFlashGetCfi fwp family).or ((cannedData deviceId).bind fun data =>
        cfiFlashGetCfi (fun i => data.getD i 0) family)

end

/-- An entry of `meminfo.sec`. -/
structure Sector where
  base : Int
  size : Int

/-- The state of the two nested loops; `regionsRead` lists the regions looked at. -/
structure Fill where
  sec : List Sector
  basecount : Int
  regionsRead : List Nat

def fillRegion (size : Int) : Nat → Fill → Fill
  | 0, f => f
  | n + 1, f =>
    fillRegion size n
      { f with
        sec := f.sec ++ [⟨f.basecount, size⟩]
        basecount := s32 (f.basecount + size) }

def fillRegions (query : CfiQuery) : List Nat → Fill → Fill
  | [], f => f
  | i :: rest, f =>
    if f.basecount < query.deviceSize then
      fillRegions query rest
        (fillRegion (s32 (query.eraseBlock i).sectorSize)
          (query.eraseBlock i).numSectors
          { f with regionsRead := f.regionsRead ++ [i] })
    else f

def regionOrder (flip : Bool) (numEraseBlocks : Nat) : List Nat :=
  if flip then (range numEraseBlocks).reverse else range numEraseBlocks

/-- The loop over the last eight sectors: the entries it looks at, and whether all
have 8 KiB. -/
def topDeviceLoop (sizeAt : Int → Int) : Nat → Int → List Int × Bool
  | 0, _ => ([], true)
  | n + 1, i =>
    if sizeAt i ≠ 8 * 1024 then ([i], false)
    else
      let (rest, top) := topDeviceLoop sizeAt n (i + 1)
      (i :: rest, top)

/-- What `cfi_flash_init` leaves behind, with every index it used. -/
structure CfiTable where
  sec : List Sector
  deviceSize : Int
  totalSize : Int
  flashTopDevice : Bool
  regionIndices : List Nat
  sectorIndices : List Int

/-- `before` is the memory in front of the sector array, which is read if there are fewer than
eight sectors. -/
def buildTable (before : Int → Sector) (flip : Bool) (query : CfiQuery) : CfiTable :=
  let filled := fillRegions query (regionOrder flip query.numEraseBlocks) ⟨[], 0, []⟩
  let count : Int := filled.sec.length
  let sectorAt : Int → Sector := fun i =>
    if i < 0 then before i else filled.sec.getD i.toNat ⟨0, 0⟩
  let (topReads, top) := topDeviceLoop (fun i => (sectorAt i).size) 8 (count - 8)
  { sec := filled.sec
    deviceSize := query.deviceSize
    totalSize := s32 ((sectorAt (count - 1)).base + (sectorAt (count - 1)).size)
    flashTopDevice := top
    regionIndices :=
      range 8 ++ range query.numEraseBlocks ++ filled.regionsRead
    sectorIndices :=
      (range filled.sec.length).map (fun i : Nat => (i : Int)) ++ [count - 1] ++ topReads }

/-- `cfi_flash_init`, `none` for `FLASH_API_ERROR`. -/
def cfiFlashInit (before : Int → Sector) (deviceId : UInt16) (fwp : Nat → UInt16) :
    Option CfiTable :=
  (cfiQuery deviceId fwp).bind fun query =>
    (flipCFIGeometry deviceId).map fun flip => buildTable before flip query

/-! ### Regions of equal sectors -/

section
variable (regions : List (Nat × Int))

def expand : List Int :=
  regions.flatMap fun r => replicate r.1 r.2

def bytesOf : Int :=
  (regions.map fun r => (r.1 : Int) * r.2).sum

def sectorsOf : Nat :=
  (regions.map Prod.fst).sum

@[simp] theorem bytesOf_nil : bytesOf [] = 0 :=
  rfl

@[simp] theorem bytesOf_cons (r : Nat × Int) (rest : List (Nat × Int)) :
    bytesOf (r :: rest) = r.1 * r.2 + bytesOf rest := by
  simp [bytesOf]

theorem expand_cons (r : Nat × Int) (rest : List (Nat × Int)) :
    expand (r :: rest) = replicate r.1 r.2 ++ expand rest := by
  simp [expand]

private theorem sum_expand : (expand regions).sum = bytesOf regions := by
  induction regions with
  | nil => rfl
  | cons r rest ih =>
    rw [expand_cons, sum_append, ih, bytesOf_cons, sum_replicate, nsmul_eq_mul]

private theorem expand_append (first second : List (Nat × Int)) :
    expand (first ++ second) = expand first ++ expand second :=
  flatMap_append

theorem length_expand : (expand regions).length = sectorsOf regions := by
  induction regions with
  | nil => rfl
  | cons r rest ih =>
    rw [expand_cons, length_append, ih]
    simp [sectorsOf]

end

variable {i : Nat} {f : Fill} {flip : Bool} {deviceSize : Int} {deviceId : UInt16} {t : CfiTable}
  {s : Sector} {before : Int → Sector}

private theorem replicate_between {lo hi start size : Int} {n : Nat} (hi_le : i ≤ n)
    (hstart : lo ≤ start ∧ start ≤ hi) (hend : lo ≤ start + n * size ∧ start + n * size ≤ hi) :
    lo ≤ start + i * size ∧ start + i * size ≤ hi := by
  have hcast : (i : Int) ≤ n := by exact_mod_cast hi_le
  rcases Int.le_total 0 size with hsize | hsize
  · have hlow : 0 ≤ (i : Int) * size := mul_nonneg (Int.natCast_nonneg i) hsize
    have hhigh : (i : Int) * size ≤ n * size := mul_le_mul_of_nonneg_right hcast hsize
    omega
  · have hlow : (n : Int) * size ≤ i * size := mul_le_mul_of_nonpos_right hcast hsize
    have hhigh : (i : Int) * size ≤ 0 :=
      mul_nonpos_of_nonneg_of_nonpos (Int.natCast_nonneg i) hsize
    omega

private theorem take_expand_between {lo hi : Int} (regions : List (Nat × Int)) (start : Int)
    (hends : ∀ k, k ≤ regions.length →
      lo ≤ start + bytesOf (regions.take k) ∧ start + bytesOf (regions.take k) ≤ hi)
    (hlen : i ≤ (expand regions).length) :
    lo ≤ start + ((expand regions).take i).sum ∧ start + ((expand regions).take i).sum ≤ hi := by
  induction regions generalizing start i with
  | nil =>
    have hzero := hends 0 (le_refl 0)
    simpa [expand] using hzero
  | cons r rest ih =>
    have hfirst := hends 0 (Nat.zero_le _)
    have hsecond := hends 1 (by simp)
    simp only [take_zero, take_succ_cons, bytesOf_nil, bytesOf_cons, add_zero] at hfirst hsecond
    rw [expand_cons] at hlen ⊢
    rw [take_append, sum_append, take_replicate, sum_replicate, length_replicate]
    rcases le_total i r.1 with hin | hbehind
    · rw [Nat.sub_eq_zero_of_le hin, min_eq_left hin]
      simpa using replicate_between hin hfirst hsecond
    rw [min_eq_right hbehind, ← add_assoc]
    apply ih (start + r.1 * r.2)
    · intro k hk
      have hnext := hends (k + 1) (by simpa using hk)
      rwa [add_assoc]
    · simp only [length_append, length_replicate] at hlen
      omega

/-! ### The two loops -/

def Fill.sizes (f : Fill) : List Int :=
  f.sec.map Sector.size

/-- Every base is the sum of the sizes before it, reduced to an `int`. -/
structure Fill.Tracks (f : Fill) : Prop where
  basecount : f.basecount = s32 f.sizes.sum
  bases : ∀ i s, f.sec[i]? = some s → s.base = s32 (f.sizes.take i).sum

theorem Fill.tracks_start : Fill.Tracks ⟨[], 0, []⟩ :=
  ⟨rfl, by simp⟩

theorem Fill.Tracks.addSector (h : f.Tracks) (size : Int) : Fill.Tracks { f with
      sec := f.sec ++ [⟨f.basecount, size⟩]
      basecount := s32 (f.basecount + size) } := by
  constructor
  · simp only [Fill.sizes, map_append, map_cons, map_nil, sum_append, sum_singleton]
    rw [h.basecount, s32_s32_add]
    rfl
  intro i s hs
  rcases lt_trichotomy i f.sec.length with hlt | rfl | hgt
  · rw [getElem?_append_left hlt] at hs
    have hbase := h.bases i s hs
    rw [hbase]
    simp only [Fill.sizes, map_append]
    rw [take_append_of_le_length (by simpa using hlt.le)]
  · obtain rfl : (⟨f.basecount, size⟩ : Sector) = s := by simpa using hs
    simp only [Fill.sizes, map_append]
    rw [take_append_of_le_length (by simp), take_of_length_le (by simp)]
    exact h.basecount
  · rw [getElem?_eq_none (by simp; omega)] at hs
    cases hs

private theorem fillRegion_spec (size : Int) (n : Nat) (h : f.Tracks) :
    (fillRegion size n f).Tracks ∧
    (fillRegion size n f).sizes = f.sizes ++ replicate n size ∧
    (fillRegion size n f).regionsRead = f.regionsRead := by
  induction n generalizing f with
  | zero => exact ⟨h, by simp [fillRegion], rfl⟩
  | succ n ih =>
    obtain ⟨htracks, hsizes, hread⟩ := ih (h.addSector size)
    refine ⟨htracks, ?_, hread⟩
    rw [fillRegion, hsizes, replicate_succ]
    simp [Fill.sizes]

section
variable (query : CfiQuery)

def CfiQuery.region (i : Nat) : Nat × Int :=
  ((query.eraseBlock i).numSectors, s32 (query.eraseBlock i).sectorSize)

/-- The outer loop takes regions while the running base, as an `int`, is below the device size. -/
theorem fillRegions_spec (order : List Nat) (h : f.Tracks) :
    ∃ m, m ≤ order.length ∧
      (∀ k, k < m → s32 (f.sizes.sum + bytesOf ((order.map query.region).take k)) <
        query.deviceSize) ∧
      (m < order.length → query.deviceSize ≤
        s32 (f.sizes.sum + bytesOf ((order.map query.region).take m))) ∧
      (fillRegions query order f).Tracks ∧
      (fillRegions query order f).sizes = f.sizes ++ expand ((order.map query.region).take m) ∧
      (fillRegions query order f).regionsRead = f.regionsRead ++ order.take m := by
  induction order generalizing f with
  | nil => exact ⟨0, le_rfl, by simp, by simp, h, by simp [fillRegions, expand], by
      simp [fillRegions]⟩
  | cons i rest ih =>
    by_cases hbelow : f.basecount < query.deviceSize
    · have hread : Fill.Tracks { f with regionsRead := f.regionsRead ++ [i] } :=
        ⟨h.basecount, h.bases⟩
      obtain ⟨htracks, hsizes, hregions⟩ := fillRegion_spec
        (s32 (query.eraseBlock i).sectorSize) (query.eraseBlock i).numSectors hread
      obtain ⟨m, hm, hmore, hstop, htracks', hsizes', hregions'⟩ := ih htracks
      have hsum : (fillRegion (s32 (query.eraseBlock i).sectorSize)
          (query.eraseBlock i).numSectors
          { f with regionsRead := f.regionsRead ++ [i] }).sizes.sum =
          f.sizes.sum + (query.region i).1 * (query.region i).2 := by
        rw [hsizes, sum_append, sum_replicate, nsmul_eq_mul]
        simp only [Fill.sizes, CfiQuery.region]
      rw [hsum] at hmore hstop
      refine ⟨m + 1, by simpa using hm, ?_, ?_, ?_, ?_, ?_⟩
      · intro k hk
        cases k with
        | zero => simpa [← h.basecount] using hbelow
        | succ k =>
          have hnext := hmore k (by omega)
          rw [add_assoc] at hnext
          simpa using hnext
      · intro hlt
        have hend := hstop (by simpa using hlt)
        rw [add_assoc] at hend
        simpa using hend
      · rw [fillRegions, if_pos hbelow]
        exact htracks'
      · rw [fillRegions, if_pos hbelow, hsizes', hsizes, append_assoc,
          map_cons, take_succ_cons, expand_cons]
        simp only [Fill.sizes, CfiQuery.region]
      · rw [fillRegions, if_pos hbelow, hregions', hregions]
        simp
    · refine ⟨0, Nat.zero_le _, by simp, ?_, ?_, ?_, ?_⟩
      · simpa [← h.basecount] using Int.not_lt.mp hbelow
      · rw [fillRegions, if_neg hbelow]
        exact h
      · simp [fillRegions, hbelow, expand]
      · simp [fillRegions, hbelow]

/-! ### What the table is -/

/-- The bases are contiguous from 0 on, the sizes add up to the device size, and indices are
within capacity. -/
structure CfiTable.Sound (t : CfiTable) : Prop where
  first : ∀ s, t.sec[0]? = some s → s.base = 0
  next : ∀ i s u, t.sec[i]? = some s → t.sec[i + 1]? = some u → u.base = s.base + s.size
  total : (t.sec.map Sector.size).sum = t.deviceSize
  regions : ∀ i ∈ t.regionIndices, i < 8
  sectors : ∀ i ∈ t.sectorIndices, 0 ≤ i ∧ i < 1024

def CfiQuery.ordered (flip : Bool) : List (Nat × Int) :=
  (regionOrder flip query.numEraseBlocks).map query.region

/-- At most eight regions, of which the first fill the device exactly with 8 to 1024 sectors,
staying below its size before. -/
def CfiQuery.Fills (flip : Bool) : Prop :=
  query.numEraseBlocks ≤ 8 ∧
  ∃ m, m ≤ query.numEraseBlocks ∧
    (∀ k, k < m → -2 ^ 31 ≤ bytesOf ((query.ordered flip).take k) ∧
      bytesOf ((query.ordered flip).take k) < query.deviceSize) ∧
    bytesOf ((query.ordered flip).take m) = query.deviceSize ∧
    8 ≤ sectorsOf ((query.ordered flip).take m) ∧
    sectorsOf ((query.ordered flip).take m) ≤ 1024

end

/-- Bases are contiguous exactly if no running sum leaves the `int` range. -/
theorem Fill.Tracks.contiguous_iff (h : f.Tracks) :
    ((∀ s, f.sec[0]? = some s → s.base = 0) ∧
      ∀ i s u, f.sec[i]? = some s → f.sec[i + 1]? = some u → u.base = s.base + s.size) ↔
    ∀ i, i < f.sec.length → s32 (f.sizes.take i).sum = (f.sizes.take i).sum := by
  have hsucc (i : Nat) (s : Sector) (hs : f.sec[i]? = some s) :
      (f.sizes.take (i + 1)).sum = (f.sizes.take i).sum + s.size := by
    have hsize : f.sizes[i]? = some s.size := by
      simp [Fill.sizes, hs]
    rw [take_add_one, hsize]
    simp
  constructor
  · rintro ⟨hfirst, hnext⟩ i hi
    induction i with
    | zero => rfl
    | succ i ih =>
      have hprev := ih (by omega)
      obtain ⟨s, hs⟩ : ∃ s, f.sec[i]? = some s :=
        ⟨_, getElem?_eq_getElem (by omega)⟩
      obtain ⟨u, hu⟩ : ∃ u, f.sec[i + 1]? = some u :=
        ⟨_, getElem?_eq_getElem hi⟩
      rw [← h.bases (i + 1) u hu, hnext i s u hs hu, h.bases i s hs, hprev, hsucc i s hs]
  · intro hexact
    refine ⟨fun s hs => h.bases 0 s hs, ?_⟩
    intro i s u hs hu
    have hi : i + 1 < f.sec.length := (List.getElem?_eq_some_iff.mp hu).1
    rw [h.bases (i + 1) u hu, h.bases i s hs, hexact (i + 1) hi, hexact i (by omega), hsucc i s hs]

section
variable (sizeAt : Int → Int) (n : Nat) (start : Int)

private theorem topDeviceLoop_range {i : Int}
    (hi : i ∈ (topDeviceLoop sizeAt n start).1) : start ≤ i ∧ i < start + n := by
  induction n generalizing start with
  | zero => cases hi
  | succ n ih =>
    simp only [topDeviceLoop] at hi
    split at hi
    · rw [mem_singleton.mp hi]
      omega
    rcases mem_cons.mp hi with rfl | hrest
    · omega
    · have := ih (start + 1) hrest
      omega

private theorem topDeviceLoop_first : start ∈ (topDeviceLoop sizeAt (n + 1) start).1 := by
  simp only [topDeviceLoop]
  split
  · exact mem_singleton_self start
  · exact mem_cons_self

end

variable {regions : List (Nat × Int)} {fwp : Nat → UInt16} {query : CfiQuery}

/-- Regions with sectors start strictly before the end, and the sizes before them are those of the
earlier regions. -/
theorem take_expand_start (hpos : ∀ r ∈ regions, 0 < r.1)
    {k m : Nat} (hkm : k < m) (hm : m ≤ regions.length) :
    sectorsOf (regions.take k) < (expand (regions.take m)).length ∧
    (expand (regions.take m)).take (sectorsOf (regions.take k)) = expand (regions.take k) := by
  have hsplit : regions.take m = regions.take k ++ (regions.take m).drop k := by
    rw [← take_append_drop k (regions.take m), take_take,
      min_eq_left hkm.le, drop_append_of_le_length]
    · simp
    · simp
      omega
  obtain ⟨r, rest, hrest⟩ : ∃ r rest, (regions.take m).drop k = r :: rest := by
    cases hdrop : (regions.take m).drop k with
    | nil =>
      have hlen := congrArg length hdrop
      simp only [length_drop, length_take, length_nil] at hlen
      omega
    | cons r rest => exact ⟨r, rest, rfl⟩
  have hr : 0 < r.1 := by
    apply hpos r
    apply mem_of_mem_take
    apply mem_of_mem_drop
    rw [hrest]
    exact mem_cons_self
  rw [hsplit, expand_append, hrest, expand_cons, ← length_expand (regions.take k)]
  constructor
  · simp only [length_append, length_replicate]
    omega
  · exact take_left

private theorem length_ordered : (query.ordered flip).length = query.numEraseBlocks := by
  simp only [CfiQuery.ordered, regionOrder, length_map]
  split <;> simp

theorem mem_regionOrder {n : Nat} : i ∈ regionOrder flip n ↔ i < n := by
  simp only [regionOrder]
  split <;> simp

private theorem buildTable_regions_iff (before : Int → Sector) :
    (∀ i ∈ (buildTable before flip query).regionIndices, i < 8) ↔ query.numEraseBlocks ≤ 8 := by
  obtain ⟨m, _, _, _, _, _, hread⟩ := fillRegions_spec query
    (regionOrder flip query.numEraseBlocks) Fill.tracks_start
  simp only [buildTable, hread, nil_append, forall_mem_append]
  constructor
  · rintro ⟨⟨_, hwritten⟩, _⟩
    by_contra hmany
    have := hwritten 8 (mem_range.mpr (by omega))
    omega
  intro hfew
  refine ⟨⟨fun i hi => mem_range.mp hi, ?_⟩, ?_⟩
  · intro i hi
    have := mem_range.mp hi
    omega
  · intro i hi
    have := mem_regionOrder.mp (mem_of_mem_take hi)
    omega

theorem buildTable_sectors_iff (before : Int → Sector) :
    (∀ i ∈ (buildTable before flip query).sectorIndices, 0 ≤ i ∧ i < 1024) ↔
      8 ≤ (buildTable before flip query).sec.length ∧
        (buildTable before flip query).sec.length ≤ 1024 := by
  simp only [buildTable]
  simp only [forall_mem_append, mem_map, mem_range, mem_singleton, forall_eq]
  constructor
  · rintro ⟨⟨_, hlast⟩, htop⟩
    have hfirst := htop _ (topDeviceLoop_first _ 7 _)
    omega
  rintro ⟨hmin, hmax⟩
  refine ⟨⟨?_, by omega⟩, ?_⟩
  · omega
  · intro i hi
    have := topDeviceLoop_range _ _ _ hi
    omega

private theorem visited_eq (hrange : deviceSize < 2 ^ 31) {m m' : Nat}
    (hm' : m' ≤ regions.length) (hmore : ∀ k, k < m → s32 (bytesOf (regions.take k)) < deviceSize)
    (hstop : m < regions.length → deviceSize ≤ s32 (bytesOf (regions.take m)))
    (hbelow : ∀ k, k < m' → -2 ^ 31 ≤ bytesOf (regions.take k) ∧
      bytesOf (regions.take k) < deviceSize) (hfilled : bytesOf (regions.take m') = deviceSize)
    (hlow : -2 ^ 31 ≤ deviceSize) :
    m = m' := by
  rcases lt_trichotomy m m' with hlt | heq | hgt
  · have hend := hstop (by omega)
    have hinside := hbelow m hlt
    rw [s32_of_range (by omega) (by omega)] at hend
    omega
  · exact heq
  · have hnext := hmore m' hgt
    rw [hfilled, s32_of_range hlow hrange] at hnext
    omega

/-- The sectors are those of the first `m` regions, where the running base reaches the device
size. -/
theorem buildTable_spec (query : CfiQuery) (flip : Bool) (before : Int → Sector) :
    ∃ m, m ≤ (query.ordered flip).length ∧
      (∀ k, k < m → s32 (bytesOf ((query.ordered flip).take k)) < query.deviceSize) ∧
      (m < (query.ordered flip).length →
        query.deviceSize ≤ s32 (bytesOf ((query.ordered flip).take m))) ∧
      Fill.Tracks (fillRegions query (regionOrder flip query.numEraseBlocks) ⟨[], 0, []⟩) ∧
      (buildTable before flip query).sec.map Sector.size =
        expand ((query.ordered flip).take m) := by
  obtain ⟨m, hm, hmore, hstop, htracks, hsizes, _⟩ := fillRegions_spec query
    (regionOrder flip query.numEraseBlocks) Fill.tracks_start
  have hordered : (regionOrder flip query.numEraseBlocks).map query.region =
      query.ordered flip := rfl
  have horder : (regionOrder flip query.numEraseBlocks).length =
      (query.ordered flip).length := (length_map _).symm
  have hzero : (Fill.sizes ⟨[], 0, []⟩).sum = 0 := rfl
  simp only [hordered, horder, hzero, zero_add] at hm hmore hstop hsizes
  exact ⟨m, hm, hmore, hstop, htracks, hsizes⟩

private theorem s32_take_expand (hlow : -2 ^ 31 ≤ deviceSize)
    (hhigh : deviceSize < 2 ^ 31) {m : Nat} (hm : m ≤ regions.length)
    (hbelow : ∀ k, k < m → -2 ^ 31 ≤ bytesOf (regions.take k) ∧
      bytesOf (regions.take k) < deviceSize) (hfilled : bytesOf (regions.take m) = deviceSize)
    (hi : i ≤ (expand (regions.take m)).length) :
    s32 ((expand (regions.take m)).take i).sum = ((expand (regions.take m)).take i).sum := by
  have hends (k : Nat) (hk : k ≤ (regions.take m).length) :
      -2 ^ 31 ≤ 0 + bytesOf ((regions.take m).take k) ∧
        0 + bytesOf ((regions.take m).take k) ≤ 2 ^ 31 - 1 := by
    rw [length_take, min_eq_left hm] at hk
    rw [take_take, min_eq_left hk]
    rcases Nat.lt_or_eq_of_le hk with hlt | rfl
    · have hinside := hbelow k hlt
      omega
    · omega
  have hbetween := take_expand_between _ 0 hends hi
  exact s32_of_range (by omega) (by omega)

theorem buildTable_sound_iff (before : Int → Sector)
    (hlow : -2 ^ 31 ≤ query.deviceSize) (hhigh : query.deviceSize < 2 ^ 31)
    (hpos : ∀ i, i < query.numEraseBlocks → 0 < (query.eraseBlock i).numSectors) :
    (buildTable before flip query).Sound ↔ query.Fills flip := by
  obtain ⟨m, hm, hmore, hstop, htracks, hsizes⟩ := buildTable_spec query flip before
  have hcount : (buildTable before flip query).sec.length =
      sectorsOf ((query.ordered flip).take m) := by
    rw [← length_expand, ← hsizes, length_map]
  have htotal : ((buildTable before flip query).sec.map Sector.size).sum =
      bytesOf ((query.ordered flip).take m) := by
    rw [← sum_expand, ← hsizes]
  have hcontiguous := htracks.contiguous_iff
  rw [show Fill.sizes _ = _ from hsizes] at hcontiguous
  constructor
  · rintro ⟨hfirst, hnext, hsum, hregions, hsectors⟩
    have hexact := hcontiguous.mp ⟨hfirst, hnext⟩
    have hbounds := (buildTable_sectors_iff before).mp hsectors
    rw [hcount] at hbounds
    refine ⟨(buildTable_regions_iff before).mp hregions, m, by rwa [length_ordered] at hm,
      ?_, htotal.symm.trans hsum, hbounds⟩
    intro k hk
    have hsome : ∀ r ∈ query.ordered flip, 0 < r.1 := by
      intro r hr
      obtain ⟨i, hi, rfl⟩ := mem_map.mp hr
      exact hpos i (mem_regionOrder.mp hi)
    obtain ⟨hindex, hearlier⟩ := take_expand_start hsome hk hm
    rw [length_expand, ← hcount] at hindex
    have hbase := hexact _ hindex
    have hless := hmore k hk
    have hrange := s32_range (bytesOf ((query.ordered flip).take k))
    rw [hearlier, sum_expand] at hbase
    omega
  · rintro ⟨hfew, m', hm', hbelow, hfilled, hbounds⟩
    have hlength : (query.ordered flip).length = query.numEraseBlocks := length_ordered
    rw [← hlength] at hm'
    obtain rfl := visited_eq hhigh hm' hmore hstop hbelow hfilled hlow
    have hexact := hcontiguous.mpr (by
      intro i hi
      apply s32_take_expand hlow hhigh hm hbelow hfilled
      rw [length_expand, ← hcount]
      exact hi.le)
    exact ⟨hexact.1, hexact.2, htotal.trans hfilled, (buildTable_regions_iff before).mpr hfew,
      (buildTable_sectors_iff before).mpr (by rwa [hcount])⟩

/-- A size that is an `int`, regions with at least one sector, and sector sizes in units of 256
bytes. -/
structure CfiQuery.Formed (query : CfiQuery) : Prop where
  size_low : -2 ^ 31 ≤ query.deviceSize
  size_high : query.deviceSize < 2 ^ 31
  sectors_pos : ∀ i, i < query.numEraseBlocks → 0 < (query.eraseBlock i).numSectors
  size_units : ∀ i, (256 : Int) ∣ s32 (query.eraseBlock i).sectorSize

private theorem unit_dvd_s32 (n : Nat) : (256 : Int) ∣ s32 (u32 (256 * n : Nat)) := by
  have hsame := s32_emod (u32 (256 * n : Nat))
  have hword : (u32 (256 * n : Nat) : Int) = (256 * n : Nat) % 2 ^ 32 := by
    simp only [u32]
    omega
  omega

theorem cfiFlashGetCfi_formed {family : FlashFamily}
    (h : cfiFlashGetCfi fwp family = some query) : query.Formed := by
  simp only [cfiFlashGetCfi] at h
  split at h
  · cases h
  obtain rfl := Option.some.inj h
  have hrange := s32_range (2 ^ ((fwp 0x27).toNat % 32))
  refine ⟨?_, ?_, ?_, ?_⟩
  · simp only
    omega
  · simp only
    omega
  · intro i hi
    simp only at hi ⊢
    rw [if_pos hi]
    exact Nat.succ_pos _
  intro i
  simp only
  generalize (if family = .sst then 1 else (fwp 0x2C).toNat) = n
  rcases lt_or_ge i n with hi | hi
  · rw [if_pos hi]
    exact unit_dvd_s32 _
  · rw [if_neg (not_lt.mpr hi)]
    exact unit_dvd_s32 0

theorem cfiQuery_formed (h : cfiQuery deviceId fwp = some query) : query.Formed := by
  simp only [cfiQuery, Option.bind_eq_some_iff, Option.or_eq_some_iff] at h
  obtain ⟨family, _, hanswer | ⟨_, data, _, hcanned⟩⟩ := h
  · exact cfiFlashGetCfi_formed hanswer
  · exact cfiFlashGetCfi_formed hcanned

/-! ### The part of the flash layout -/

private theorem sum_toNat_sizes {sec : List Sector} (hpos : ∀ s ∈ sec, 0 < s.size) :
    (((sec.map fun s => s.size.toNat).sum : Nat) : Int) = (sec.map Sector.size).sum := by
  induction sec with
  | nil => rfl
  | cons s rest ih =>
    have hs := hpos s mem_cons_self
    have hrest := ih (fun u hu => hpos u (mem_cons_of_mem s hu))
    rw [map_cons, sum_cons, map_cons, sum_cons, Nat.cast_add]
    omega

theorem CfiTable.Sound.base_eq (h : t.Sound) {k : Nat}
    (hs : t.sec[k]? = some s) : s.base = ((t.sec.take k).map Sector.size).sum := by
  induction k generalizing s with
  | zero => exact h.first s hs
  | succ k ih =>
    obtain ⟨hlt, _⟩ := List.getElem?_eq_some_iff.mp hs
    have hprev : t.sec[k]? = some t.sec[k] := getElem?_eq_getElem (by omega)
    have htake : t.sec.take (k + 1) = t.sec.take k ++ [t.sec[k]] := by
      rw [take_add_one, hprev]
      rfl
    rw [h.next k _ s hprev hs, ih hprev, htake, map_append, sum_append,
      map_singleton, sum_singleton]

theorem unit_dvd_size (hformed : query.Formed) (hs : s ∈ (buildTable before flip query).sec) :
    (256 : Int) ∣ s.size := by
  obtain ⟨m, _, _, _, _, hsizes⟩ := buildTable_spec query flip before
  have hsize : s.size ∈ (buildTable before flip query).sec.map Sector.size :=
    mem_map_of_mem hs
  rw [hsizes] at hsize
  obtain ⟨r, hr, hmem⟩ := mem_flatMap.mp hsize
  obtain ⟨i, _, rfl⟩ := mem_map.mp (mem_of_mem_take hr)
  rw [eq_of_mem_replicate hmem]
  simp only [CfiQuery.region]
  exact hformed.size_units i

theorem cfiFlashInit_part (h : cfiFlashInit before deviceId fwp = some t)
    (hsound : t.Sound) (hpos : ∀ s ∈ t.sec, 0 < s.size) {flashBase : Nat}
    (hwindow : (flashBase : Int) + t.deviceSize ≤ 2 ^ 32) :
    ∃ chip : CfiPart, chip.flashBase = flashBase ∧ chip.numSectors = t.sec.length ∧
      ∀ k s, t.sec[k]? = some s →
        s.base = (chip.base k : Int) ∧ s.size = (chip.sectorSize k : Int) := by
  simp only [cfiFlashInit, Option.bind_eq_some_iff, Option.map_eq_some_iff] at h
  obtain ⟨query, hquery, flip, _, rfl⟩ := h
  have hformed := cfiQuery_formed hquery
  have hcount := (buildTable_sectors_iff before).mp hsound.sectors
  have hsum := (sum_toNat_sizes hpos).trans hsound.total
  have hhigh : (buildTable before flip query).deviceSize < 2 ^ 31 := hformed.size_high
  refine ⟨{
    sizes := (buildTable before flip query).sec.map fun s => s.size.toNat
    flashBase := flashBase
    sizes_pos := ?_
    nsect_le := by simpa using hcount.2
    total_lt := by omega
    window_le := by omega
    sizes_units := ?_ }, rfl, by simp [SectorTable.numSectors], ?_⟩
  · intro n hn
    obtain ⟨s, hs, rfl⟩ := mem_map.mp hn
    have := hpos s hs
    omega
  · intro n hn
    obtain ⟨s, hs, rfl⟩ := mem_map.mp hn
    have hunit := unit_dvd_size hformed hs
    omega
  · intro k s hs
    have hmem := mem_of_getElem? hs
    have hsize := hpos s hmem
    have hearlier : _ = (((buildTable before flip query).sec.take k).map
        Sector.size).sum := sum_toNat_sizes (fun u hu => hpos u (mem_of_mem_take hu))
    constructor
    · rw [hsound.base_eq hs, ← hearlier]
      simp [SectorTable.base, Segment.base]
    · simp only [SectorTable.sectorSize, Segment.size, getD_eq_getElem?_getD,
        getElem?_map, hs, Option.map_some, Option.getD_some]
      omega

/-! ### The geometry of a device -/

/-- For every device and query data that `cfi_flash_init` accepts: the table has contiguous bases
from 0, sizes that add up to the reported device size and no index beyond the arrays exactly if
the reported regions, at most eight, fill the device exactly with 8 to 1024 sectors. -/
theorem cfi_geometry_sound_iff (before : Int → Sector) (deviceId : UInt16)
    (fwp : Nat → UInt16) (query : CfiQuery) (hquery : cfiQuery deviceId fwp = some query)
    (flip : Bool) (hflip : flipCFIGeometry deviceId = some flip) :
    ∃ t, cfiFlashInit before deviceId fwp = some t ∧ (t.Sound ↔ query.Fills flip) := by
  have hformed := cfiQuery_formed hquery
  refine ⟨buildTable before flip query, ?_, ?_⟩
  · simp only [cfiFlashInit, hquery, hflip, Option.bind_some, Option.map_some]
  · exact buildTable_sound_iff before hformed.size_low hformed.size_high hformed.sectors_pos

/-- `QRY`, the size exponent, the number of regions and four words for each. -/
def queryWords (exponent : UInt16) (regions : List (List UInt16)) : Nat → UInt16 :=
  fun i =>
    if i = 0x10 then 0x51
    else if i = 0x11 then 0x52
    else if i = 0x12 then 0x59
    else if i = 0x27 then exponent
    else if i = 0x2C then UInt16.ofNat regions.length
    else regions.flatten.getD (i - 0x2D) 0

/-- `MX29LV128DT`: 8 sectors of 8 KiB and 255 of 64 KiB. -/
theorem mx29lv128dt_cfi_geometry_sound_iff :
    ∃ query,
      cfiQuery 0x227E (queryWords 0x18 [[0x07, 0, 0x20, 0], [0xFE, 0, 0, 1]]) = some query ∧
      flipCFIGeometry 0x227E = some true ∧
      ∃ t, cfiFlashInit (fun _ => ⟨0, 0⟩) 0x227E
          (queryWords 0x18 [[0x07, 0, 0x20, 0], [0xFE, 0, 0, 1]]) = some t ∧
        (t.Sound ↔ query.Fills true) :=
  ⟨_, rfl, rfl, cfi_geometry_sound_iff _ 0x227E _ _ rfl true rfl⟩

def manySectors : Nat → UInt16 :=
  queryWords 0x17 [[0xFF, 0x07, 0x10, 0]]

private theorem manySectors_do_not_fill
    (h : cfiFlashGetCfi manySectors .sst = some query) : ¬query.Fills false := by
  have hanswer : ¬(manySectors 0x10 ≠ 0x51 ∧ manySectors 0x11 ≠ 0x52 ∧
      manySectors 0x12 ≠ 0x59) := by decide
  simp only [cfiFlashGetCfi, if_neg hanswer, if_true] at h
  obtain rfl := Option.some.inj h
  rintro ⟨_, m, hm, _, hfilled, _, hmax⟩
  simp only at hm
  have hcases : m = 0 ∨ m = 1 := by omega
  rcases hcases with rfl | rfl
  · exact absurd hfilled (by decide)
  · exact absurd hmax (by decide +kernel)

/-- Nine regions leave the region array; 2048 sectors of 4 KiB do not fit the sector array; the
data kept for `AM29LV800B` reports twice the size of its sectors. -/
theorem unchecked_geometry :
    (∃ t, cfiFlashInit (fun _ => ⟨0, 0⟩) 0x227E
        (queryWords 0x18 (replicate 9 [0, 0, 0, 1])) = some t ∧
      8 ∈ t.regionIndices) ∧
    (∃ t, cfiFlashInit (fun _ => ⟨0, 0⟩) 0x235B manySectors = some t ∧ ¬t.Sound) ∧
    ∃ t, cfiFlashInit (fun _ => ⟨0, 0⟩) 0x225B (fun _ => 0) = some t ∧
      (t.sec.map Sector.size).sum = 2 ^ 20 ∧ t.deviceSize = 2 ^ 21 := by
  refine ⟨⟨_, rfl, by decide +kernel⟩, ?_, ⟨_, rfl, by decide +kernel, by decide +kernel⟩⟩
  obtain ⟨query, hquery⟩ : ∃ query, cfiFlashGetCfi manySectors .sst = some query :=
    ⟨_, rfl⟩
  have hformed := cfiFlashGetCfi_formed hquery
  have hinit : cfiFlashInit (fun _ => ⟨0, 0⟩) 0x235B manySectors =
      some (buildTable (fun _ => ⟨0, 0⟩) false query) := by
    have hfamily : flashFamily 0x235B = some .sst := rfl
    have hflip : flipCFIGeometry 0x235B = some false := rfl
    simp only [cfiFlashInit, cfiQuery, hfamily, hflip, hquery, Option.bind_some,
      Option.some_or, Option.map_some]
  refine ⟨_, hinit, ?_⟩
  rw [buildTable_sound_iff _ hformed.size_low hformed.size_high hformed.sectors_pos]
  exact manySectors_do_not_fill hquery

end EchoLife.Flash

import EchoLife.Flash.Ioctl
import EchoLife.Flash.ScratchPadTokens

/-!
Which of the flash requests the busy flag serializes. All requests that take it are atomic, as
long as the others only read. One does not: on a pad without the magic number
`kerSysScratchPadGet` calls `kerSysScratchPadClearAll`, which rewrites the sectors of the pad.
-/

namespace EchoLife.Flash

open Buffer Interleave Run

/-- `ctrlParms.action` of a write. The writers of PSI and of images are any sequence of accesses.
-/
inductive WriteAction
  | scratchPad (env : Env) (heap : Nat → UInt8) (tokenId : List UInt8)
      (tokBuf : Option (Nat → UInt8)) (offset : Int)
  | store (call : SetCall)
  | persistent (prog : FlashProg)
  | image (prog : FlashProg)

/-- `ctrlParms.action` of a read. The size, the tag and the images are read by accesses that do
not write. -/
inductive ReadAction
  | scratchPad (env : Env) (heap : Nat → UInt8) (tokenId : List UInt8) (offset : Int)
  | partition (env : Env) (maxLen : Int) (p : Partition) (heap : Int → UInt8)
      (strLen offset : Int)
  | plain (prog : { prog : FlashProg // prog.Quiet Access.Writes })

/-- A request, for a write with `g_sVoipServiceStatus` at the time. -/
inductive Request
  | write (voipService : Bool) (action : WriteAction)
  | read (action : ReadAction)

namespace Request

variable (part : FlashPart) (info : FlashAddrInfo)

def isWrite : Request → Bool
  | write _ _ => true
  | read _ => false

def program : Request → FlashProg
  | write true (.scratchPad _ _ _ _ _) => .done (-1, [])
  | write false (.scratchPad env heap tokenId tokBuf offset) =>
    if offset = -1 then
      Program.scratchPadClearAll env part info heap fun sts => .done (sts, [])
    else Program.scratchPadSet env part info heap tokenId tokBuf offset
  | write true (.store _) => .done (-1, [])
  | write false (.store call) =>
    Program.partitionSet call.env part (call.store.partition info).length
      (call.store.partition info) call.heap call.string call.strLen call.offset
  | write true (.persistent _) => .done (-1, [])
  | write false (.persistent prog) => prog
  | write _ (.image prog) => prog
  | read (.scratchPad env heap tokenId offset) =>
    Program.scratchPadGet env part info heap tokenId offset
  | read (.partition env maxLen p heap strLen offset) =>
    Program.partitionGet env part maxLen p heap strLen offset
  | read (.plain prog) => prog.1

/-- What the call does to the chip when it runs alone, in the words of the
sequential model. -/
def effect : Request → Dev → Dev
  | write true (.scratchPad _ _ _ _ _), dev => dev
  | write false (.scratchPad env heap tokenId tokBuf offset), dev =>
    if offset = -1 then (kerSysScratchPadClearAll env part info heap dev).1
    else (kerSysScratchPadSet env part info heap tokenId tokBuf offset dev).1
  | write true (.store _), dev => dev
  | write false (.store call), dev => call.step part info dev
  | write true (.persistent _), dev => dev
  | write false (.persistent prog), dev => (prog.exec (Access.perform part) dev).1
  | write _ (.image prog), dev => (prog.exec (Access.perform part) dev).1
  | read (.scratchPad env heap tokenId offset), dev =>
    (kerSysScratchPadGet env part info heap tokenId offset dev).1
  | read (.partition _ _ _ _ _ _), dev => dev
  | read (.plain prog), dev => (prog.1.exec (Access.perform part) dev).1

end Request

/-- The given requests; a writer that finds the flag taken ten times returns. -/
def boardIoctl (part : FlashPart) (info : FlashAddrInfo) (requests : Nat → Request) :
    Machine Dev Access Answer (Int × List UInt8) where
  perform := Access.perform part
  locks := fun t => (requests t).isWrite
  body := fun t => (requests t).program part info
  attempts := 10

section

variable {part : FlashPart} {mem : Nat → UInt8} {bpGetPsiSize : Option Nat} {info : FlashAddrInfo}
  (hinit : kerSysFlashInit part mem bpGetPsiSize = some info)
include hinit

theorem Request.exec_program (request : Request) (dev : Dev) :
    ((request.program part info).exec (Access.perform part) dev).1 =
      request.effect part info dev := by
  match request with
  | .write true (.scratchPad _ _ _ _ _) => rfl
  | .write false (.scratchPad env heap tokenId tokBuf offset) =>
    simp only [program, effect]
    split
    · rw [exec_scratchPadClearAll]
      rfl
    · rw [exec_scratchPadSet]
  | .write true (.store _) => rfl
  | .write false (.store call) =>
    simp only [program, effect, SetCall.step, SetCall.perform,
      exec_partitionSet, Store.set_eq hinit]
    cases partitionSet (call.store.partition info).length (call.store.partition info)
        call.env part call.heap call.string call.strLen call.offset dev with
    | none => rfl
    | some result => rfl
  | .write true (.persistent _) => rfl
  | .write false (.persistent prog) => rfl
  | .write true (.image prog) => rfl
  | .write false (.image prog) => rfl
  | .read (.scratchPad env heap tokenId offset) =>
    simp only [program, effect, exec_scratchPadGet]
  | .read (.partition env maxLen p heap strLen offset) =>
    simp only [program, effect, exec_partitionGet]
  | .read (.plain prog) => rfl

private theorem boardIoctl_effect (requests : Nat → Request) :
    (boardIoctl part info requests).effect = fun t dev => (requests t).effect part info dev := by
  funext t dev
  exact Request.exec_program hinit (requests t) dev

end

section Reading

variable (part : FlashPart) {env : Env} {info : FlashAddrInfo}

/-- The reads fill the block from `pos` on; what follows them depends on the
filled block only. -/
theorem quiet_readSectors {next : (Nat → UInt8) → FlashProg} {n i pos : Nat} {pBuf : Nat → UInt8}
    (hnext : ∀ filled, AgreeOn pBuf filled 0 pos → (next filled).Quiet Access.Writes) :
    (Program.readSectors part next n i pos pBuf).Quiet Access.Writes := by
  induction n generalizing i pos pBuf with
  | zero => exact hnext pBuf (fun _ _ _ => rfl)
  | succ n ih =>
    refine ⟨fun x hx => hx, ?_⟩
    intro ans
    apply ih
    intro filled hfilled
    apply hnext
    intro j hlo hhi
    rw [← hfilled j hlo (by omega), blit_outside _ _ (.inl hhi)]

private theorem quiet_partitionGet (maxLen : Int) (p : Partition) (heap : Int → UInt8)
    (strLen offset : Int) :
    (Program.partitionGet env part maxLen p heap strLen offset).Quiet
      Access.Writes := by
  simp only [Program.partitionGet, Program.getSharedBlks]
  split
  · trivial
  split
  · apply quiet_readSectors
    intro filled _
    split <;> trivial
  · trivial

end Reading

variable {chip : CfiPart} {b : Boundaries} {op : Access} {sector : Nat}

section

variable {info : FlashAddrInfo} (hstacked : Stacked chip info b)
include hstacked

theorem Stacked.magic_le : info.flashScratchPad.blkOffset + magicNumLen ≤ chip.sectorSize b.sp := by
  have hfills := hstacked.sp_fills
  have hoffset := hstacked.sp.offset_lt
  have hsp := chip.unit_dvd_base b.sp
  have hva := chip.unit_dvd_base b.va
  have hsize := chip.unit_dvd_sectorSize b.sp
  simp only [magicNumLen]
  omega

/-- On a pad with the magic number the request only reads: the number is in its copy after the
first read, whatever the other sectors hold later. -/
theorem quietOn_scratchPadGet (env : Env) (heap : Nat → UInt8) (tokenId : List UInt8) (bufLen : Int)
    (dev : Dev) (hmagic : exceedsPad info bufLen = false → env.kmallocOk = true →
      hasMagic (padOn chip info dev.mem) = true) :
    (Program.scratchPadGet env chip info heap tokenId bufLen).QuietOn
      (Access.perform chip) Access.Writes dev := by
  simp only [Program.scratchPadGet, Program.getSharedBlks]
  split
  · trivial
  split
  · trivial
  rename_i hexceeds
  split
  next halloc =>
    have hpad := hmagic (by simpa using hexceeds) halloc
    have hstart := hstacked.sp.start_lt
    have hle := hstacked.magic_le
    rw [hstacked.spStart_eq, hstacked.spEnd_eq, show b.va - b.sp = b.va - b.sp - 1 + 1 by omega]
    refine ⟨fun x hx => hx, ?_⟩
    apply quiet_readSectors
    intro filled hfilled
    have hfound : hasMagic (view filled info.flashScratchPad.blkOffset) = true := by
      rw [← hpad]
      apply hasMagic_congr
      intro i hi
      have hinside : info.flashScratchPad.blkOffset + i < chip.sectorSize b.sp := by
        simp only [magicNumLen] at hle
        omega
      simp only [view, padOn, hstacked.spStart_eq]
      rw [← hfilled _ (Nat.zero_le _) (by omega), blit_inside _ _ (Nat.zero_le _) (by omega)]
      simp only [Access.perform, view]
      congr 1
      omega
    simp only [hfound, if_true]
    trivial
  · trivial

end

/-- A read of the scratch pad that gets as far as the pad finds the magic number
there. -/
def PadReadable (part : FlashPart) (info : FlashAddrInfo) (requests : Nat → Request)
    (t : Nat) (s : State Dev Access Answer (Int × List UInt8)) : Prop :=
  ∀ env heap tokenId offset,
    requests t = .read (.scratchPad env heap tokenId offset) →
    s.threads t = .idle → exceedsPad info offset = false → env.kmallocOk = true →
    hasMagic (padOn part info s.mem.mem) = true

private theorem calm_of_padReadable {info : FlashAddrInfo}
    (hstacked : Stacked chip info b) {requests : Nat → Request} {t : Nat}
    {s : State Dev Access Answer (Int × List UInt8)} (h : PadReadable chip info requests t s) :
    (boardIoctl chip info requests).Calm Access.Writes t s := by
  intro hidle hlock
  simp only [boardIoctl] at hlock ⊢
  cases hrequest : requests t with
  | write voipService action =>
    rw [hrequest] at hlock
    cases hlock
  | read action =>
    cases action with
    | scratchPad env heap tokenId offset =>
      exact quietOn_scratchPadGet hstacked env heap tokenId offset s.mem
        (h env heap tokenId offset hrequest hidle)
    | partition env maxLen p heap strLen offset =>
      exact (quiet_partitionGet _ maxLen p heap strLen offset).quietOn s.mem
    | plain prog => exact prog.2.quietOn s.mem

/-- In every run in which the reads of the scratch pad find its magic number, no request writes a
sector between another's read and rewrite of it, and with the flag free the chip holds what the
completed writes, each counted once, give one after the other. -/
theorem flash_writers_serialized (chip : CfiPart) (mem : Nat → UInt8) (bpGetPsiSize : Option Nat)
    (info : FlashAddrInfo) (hinit : kerSysFlashInit chip mem bpGetPsiSize = some info)
    (requests : Nat → Request) (dev : Dev) (s : State Dev Access Answer (Int × List UInt8))
    (hreach : Reaches (boardIoctl chip info requests).step
      (PadReadable chip info requests) (State.start dev) s) :
    Serialized Access.Reads Access.Writes s.log ∧
    (s.flag = false → s.mem = run (fun t => (requests t).effect chip info) s.completed dev) ∧
    s.completed.Nodup ∧
    ∀ t, t ∈ s.completed ↔ (requests t).isWrite = true ∧ ∃ r, s.threads t = .returned r := by
  obtain ⟨b, hstacked⟩ := kerSysFlashInit_stacked _ mem bpGetPsiSize info hinit
  have hcalm := hreach.mono (fun _ _ hok => calm_of_padReadable hstacked hok)
  have hatomic : (boardIoctl chip info requests).Atomic Access.Reads Access.Writes dev s :=
    Machine.atomic_of_calm (Access.perform_of_not_writes chip) hcalm
  refine ⟨hatomic.ordered.serialized, ?_, hatomic.counted.nodup, hatomic.counted.mem_iff⟩
  intro hfree
  rw [hatomic.linear.free hfree, boardIoctl_effect hinit]

def twoWriters : State Dev Access Answer (Int × List UInt8) :=
  run (boardIoctl topBootPart topBootInfo
    (fun _ => .write false (.store variableStart))).step [0, 0, 1, 0, 0, 0, 1, 1]
    (State.start ⟨fun _ => 0xFF, []⟩)

theorem twoWriters_serialized :
    twoWriters.completed = [0] ∧ twoWriters.flag = true ∧
    Serialized Access.Reads Access.Writes twoWriters.log := by
  refine ⟨by decide +kernel, by decide +kernel, ?_⟩
  apply (flash_writers_serialized topBootChip (fun _ => 0xFF) none topBootInfo
    (kerSysFlashInit_topBoot _) (fun _ => .write false (.store variableStart))
    ⟨fun _ => 0xFF, []⟩ _ _).1
  apply Reaches.run Reaches.start
  nofun

def padRequests : Nat → Request
  | 0 => .read (.scratchPad Env.working (fun _ => 0) [0x41] 16)
  | _ => .write false
      (.scratchPad Env.working (fun _ => 0) [0x41] (some (fun _ => 1)) 4)

def Access.tag : Access → Nat × Nat
  | read sector => (0, sector)
  | erase sector => (1, sector)
  | write _ sector _ _ => (2, sector)

theorem Access.eq_of_tag_read (h : op.tag = (0, sector)) : op = .read sector := by
  cases op <;> simp_all [Access.tag]

theorem Access.eq_of_tag_erase (h : op.tag = (1, sector)) : op = .erase sector := by
  cases op <;> simp_all [Access.tag]

/-- A read finds no magic number and sleeps in `retriedKmalloc`. A writer stores its token and
returns. The read wakes up and clears the pad. -/
def padRace : State Dev Access Answer (Int × List UInt8) :=
  run (boardIoctl topBootPart topBootInfo padRequests).step
    [0, 1, 1, 1, 1, 1, 1, 1, 1, 0, 0, 0, 0] (State.start ⟨fun _ => 0xFF, []⟩)

theorem pad_read_undoes_write :
    kerSysFlashInit topBootPart (fun _ => 0xFF) none = some topBootInfo ∧
    padRace.flag = false ∧ padRace.completed = [1] ∧
    ¬Serialized Access.Reads Access.Writes padRace.log ∧
    padRace.mem ≠ run (fun t => (padRequests t).effect topBootPart topBootInfo)
      padRace.completed ⟨fun _ => 0xFF, []⟩ := by
  have hcompleted : padRace.completed = [1] := by decide +kernel
  refine ⟨kerSysFlashInit_topBoot _, by decide +kernel, hcompleted, ?_, ?_⟩
  · have hentry : ∀ (i t : Nat) (tag : Nat × Nat),
        (padRace.log[i]?.map fun e : Nat × Access => (e.1, e.2.tag)) = some (t, tag) →
        ∃ op : Access, padRace.log[i]? = some (t, op) ∧ op.tag = tag := by
      intro i t tag h
      obtain ⟨e, he, htag⟩ := Option.map_eq_some_iff.mp h
      obtain ⟨rfl, rfl⟩ := Prod.mk.inj htag
      exact ⟨e.2, he, rfl⟩
    obtain ⟨a, ha, htaga⟩ := hentry 0 0 (0, 250) (by decide +kernel)
    obtain ⟨c, hc, htagc⟩ := hentry 5 1 (1, 250) (by decide +kernel)
    obtain ⟨b, hb, htagb⟩ := hentry 8 0 (1, 250) (by decide +kernel)
    rw [Access.eq_of_tag_read htaga] at ha
    rw [Access.eq_of_tag_erase htagc] at hc
    rw [Access.eq_of_tag_erase htagb] at hb
    exact not_serialized (by decide) (by decide) ha hc hb (by decide) rfl rfl rfl
  · intro hmem
    have hcleared : hasMagic (padOn topBootPart topBootInfo padRace.mem.mem) = false := by
      decide +kernel
    have hstored : hasMagic (padOn topBootPart topBootInfo
        (run (fun t => (padRequests t).effect topBootPart topBootInfo) [1]
          ⟨fun _ => 0xFF, []⟩).mem) = true := by
      decide +kernel
    rw [hmem, hcompleted, hstored] at hcleared
    cases hcleared

end EchoLife.Flash

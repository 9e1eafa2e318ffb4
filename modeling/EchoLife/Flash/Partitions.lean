import EchoLife.Flash.Layout
import EchoLife.Flash.SharedBlks

/-!
The byte stores on the small partitions: NVRAM, VA, FIX and AVAIL. A `Set` reads the sectors of
its partition into a heap block, copies the caller's bytes over a part of it and writes the
sectors back; a `Get` copies bytes out of the block. Both compare the length with the partition
and add the offset as it is, so a copy can start in front of the block or run past its end. Memory
around the block is followed as far as it is read or written back.
-/

namespace EchoLife.Flash

open Buffer Int List Run

variable {k e : Nat} {p : Partition}

/-- The body of the `Set` functions. The kernel does not survive a negative length, a copy of two
gigabytes or more. -/
def partitionSet (maxLen : Int) (p : Partition) (env : Env) (part : FlashPart)
    (heap : Int → UInt8) (string : Nat → UInt8) (strLen offset : Int) (dev : Dev) :
    Option (Dev × Int) :=
  if strLen > maxLen then some (dev, -1)
  else
    let startBlk := p.startBlk.toNat
    let endBlk := (p.startBlk + p.numberBlk).toNat
    match getSharedBlks env part startBlk endBlk (fun i => heap i) dev with
    | none => some (dev, -1)
    | some pBuf =>
      if strLen < 0 then none
      else
        let pBuf := poke (around heap pBuf) (p.blkOffset + offset) strLen.toNat string
        let (dev, written) :=
          setSharedBlks env part startBlk endBlk (fun i => pBuf i) dev
        some (dev, if written ≠ 0 then -1 else 0)

/-- The body of the `Get` functions: the status and the bytes copied out. -/
def partitionGet (maxLen : Int) (p : Partition) (env : Env) (part : FlashPart)
    (heap : Int → UInt8) (strLen offset : Int) (dev : Dev) :
    Option (Int × List UInt8) :=
  if strLen > maxLen then some (-1, [])
  else
    let startBlk := p.startBlk.toNat
    let endBlk := (p.startBlk + p.numberBlk).toNat
    match getSharedBlks env part startBlk endBlk (fun i => heap i) dev with
    | none => some (-1, [])
    | some pBuf =>
      if strLen < 0 then none
      else some (0, peek (around heap pBuf) (p.blkOffset + offset) strLen.toNat)

section Members

variable (env : Env) (part : FlashPart) (info : FlashAddrInfo)

def kerSysNvRamGet :=
  partitionGet nvramLength info.flashNvram env part

def kerSysNvRamSet :=
  partitionSet nvramLength info.flashNvram env part

def kerSysVariableGet :=
  partitionGet info.flashVariable.length info.flashVariable env part

def kerSysVariableSet :=
  partitionSet info.flashVariable.length info.flashVariable env part

def kerSysFixGet :=
  partitionGet info.flashFix.length info.flashFix env part

def kerSysFixSet :=
  partitionSet info.flashFix.length info.flashFix env part

def kerSysAvailGet :=
  partitionGet info.flashAvail.length info.flashAvail env part

def kerSysAvailSet :=
  partitionSet info.flashAvail.length info.flashAvail env part

end Members

inductive Store
  | nvram
  | va
  | fix
  | avail
  deriving DecidableEq, Repr

namespace Store

variable (env : Env) (part : FlashPart) (info : FlashAddrInfo)

def partition : Store → Partition
  | nvram => info.flashNvram
  | va => info.flashVariable
  | fix => info.flashFix
  | avail => info.flashAvail

def get : Store → (Int → UInt8) → Int → Int → Dev → Option (Int × List UInt8)
  | nvram => kerSysNvRamGet env part info
  | va => kerSysVariableGet env part info
  | fix => kerSysFixGet env part info
  | avail => kerSysAvailGet env part info

def set : Store → (Int → UInt8) → (Nat → UInt8) → Int → Int → Dev → Option (Dev × Int)
  | nvram => kerSysNvRamSet env part info
  | va => kerSysVariableSet env part info
  | fix => kerSysFixSet env part info
  | avail => kerSysAvailSet env part info

def origin (store : Store) : Nat :=
  part.base (store.partition info).startBlk.toNat + (store.partition info).blkOffset

end Store

/-- One call of a `Set` function, with the memory it runs in. -/
structure SetCall where
  store : Store
  env : Env
  heap : Int → UInt8
  string : Nat → UInt8
  strLen : Int
  offset : Int

namespace SetCall

variable (part : FlashPart) (info : FlashAddrInfo) (call : SetCall)

def perform (dev : Dev) : Option (Dev × Int) :=
  call.store.set call.env part info call.heap call.string call.strLen call.offset dev

def step (dev : Dev) : Dev :=
  match call.perform part info dev with
  | some (dev', _) => dev'
  | none => dev

def target : Int :=
  call.store.origin part info + call.offset

/-- The range lies in the partition, a `Get` of it returns the bytes, and every other byte of the
chip is kept. -/
structure Written (dev dev' : Dev) : Prop where
  offset_nonneg : 0 ≤ call.offset
  end_le : call.offset + call.strLen ≤ (call.store.partition info).length
  get_eq : ∀ (env : Env) (heap : Int → UInt8), env.kmallocOk = true →
    call.store.get env part info heap call.strLen call.offset dev' =
      some (0, slice call.string 0 call.strLen.toNat)
  frame : ∀ i : Nat, (i : Int) < call.target part info ∨
    call.target part info + call.strLen ≤ i → dev'.mem i = dev.mem i

/-- The call is refused and changes nothing, or it is a write as promised. -/
def Isolated (dev : Dev) : Prop :=
  ∃ dev' sts, call.perform part info dev = some (dev', sts) ∧
    (sts = -1 ∧ dev'.mem = dev.mem ∨ call.Written part info dev dev')

def Refused : Prop :=
  (call.store.partition info).length < call.strLen ∨ call.env.kmallocOk = false

structure InRange : Prop where
  strLen_nonneg : 0 ≤ call.strLen
  offset_nonneg : 0 ≤ call.offset
  end_le : call.offset + call.strLen ≤ (call.store.partition info).length
  fits : 0 < call.strLen →
    (call.store.partition info).blkOffset + call.offset + call.strLen ≤
      sectorsSize part (call.store.partition info).startBlk (call.store.partition info).numberBlk

def Kept : Prop :=
  ∀ s : Nat, (call.store.partition info).Owns s → call.env.cells s = none

end SetCall

/-- The sectors `k..e-1` are those the functions go through for `p`. -/
structure Partition.Spans (p : Partition) (k e : Nat) : Prop where
  startBlk_eq : p.startBlk = k
  end_eq : p.startBlk + p.numberBlk = e
  start_lt : k < e

theorem Occupies.spans {part : FlashPart} (h : Occupies part p k e) : p.Spans k e :=
  ⟨h.startBlk_eq, h.end_eq, h.start_lt⟩

theorem Partition.Spans.owns_iff (h : p.Spans k e) (s : Nat) : p.Owns s ↔ k ≤ s ∧ s < e := by
  rw [Partition.Owns, h.end_eq, h.startBlk_eq, Nat.cast_le, Nat.cast_lt]

theorem Partition.Spans.sectorsSize_eq (h : p.Spans k e) (part : FlashPart) :
    sectorsSize part p.startBlk p.numberBlk = (part.base e : Int) - part.base k := by
  have hend := h.end_eq
  have hnumber : p.numberBlk = (e : Int) - k := by
    rw [h.startBlk_eq] at hend
    omega
  rw [h.startBlk_eq, hnumber]
  exact Flash.sectorsSize_eq part h.start_lt.le

def Store.first (b : Boundaries) : Store → Nat
  | nvram => 0
  | va => b.va
  | fix => b.fix
  | avail => b.avail

def Store.next (b : Boundaries) : Store → Nat
  | nvram => 1
  | va => b.avail
  | fix => b.psiBackup
  | avail => b.fix

variable {b : Boundaries} {mem : Nat → UInt8} {bpGetPsiSize : Option Nat} {chip : CfiPart}
  {stores : Store → Nat → UInt8} {dev : Dev}

theorem Store.disjoint {part : FlashPart} {info : FlashAddrInfo}
    (hstacked : Stacked part info b) {store other : Store} (hne : store ≠ other) :
    store.next b ≤ other.first b ∨ other.next b ≤ store.first b := by
  have hordered := hstacked.ordered
  cases store <;> cases other <;> simp only [first, next] <;>
    first | exact absurd rfl hne | omega

section

variable {part : FlashPart} {info : FlashAddrInfo}
  (hinit : kerSysFlashInit part mem bpGetPsiSize = some info)
include hinit

theorem Store.spans (hstacked : Stacked part info b) (store : Store) :
    (store.partition info).Spans (store.first b) (store.next b) := by
  cases store with
  | nvram =>
    simp only [partition, kerSysFlashInit_nvram hinit]
    exact ⟨rfl, rfl, Nat.zero_lt_one⟩
  | va => exact hstacked.va.spans
  | fix => exact hstacked.fix.spans
  | avail => exact hstacked.avail.spans

theorem Store.exists_spans (store : Store) : ∃ k e, (store.partition info).Spans k e := by
  obtain ⟨b, hstacked⟩ := kerSysFlashInit_stacked part mem bpGetPsiSize info hinit
  exact ⟨_, _, spans hinit hstacked store⟩

theorem Store.set_eq (env : Env) (store : Store) :
    store.set env part info =
      partitionSet (store.partition info).length (store.partition info) env part := by
  cases store with
  | nvram => simp [set, partition, kerSysNvRamSet, kerSysFlashInit_nvram hinit]
  | va => rfl
  | fix => rfl
  | avail => rfl

theorem Store.get_eq (env : Env) (store : Store) :
    store.get env part info =
      partitionGet (store.partition info).length (store.partition info) env part := by
  cases store with
  | nvram => simp [get, partition, kerSysNvRamGet, kerSysFlashInit_nvram hinit]
  | va => rfl
  | fix => rfl
  | avail => rfl

end

section Bodies

variable {env : Env} {maxLen strLen offset : Int}

theorem partitionSet_refused (hrefused : maxLen < strLen ∨ env.kmallocOk = false)
    (part : FlashPart) (heap : Int → UInt8) (string : Nat → UInt8) (dev : Dev) :
    partitionSet maxLen p env part heap string strLen offset dev = some (dev, -1) := by
  simp only [partitionSet]
  rcases hrefused with hlong | halloc
  · rw [if_pos hlong]
  · rw [getSharedBlks_eq_none halloc]
    simp

section

variable (hspans : p.Spans k e) (hlen : ¬maxLen < strLen) (halloc : env.kmallocOk = true)
  (heap : Int → UInt8)
include hspans hlen halloc

private theorem partitionSet_negative (hneg : strLen < 0) (part : FlashPart) (string : Nat → UInt8)
    (dev : Dev) : partitionSet maxLen p env part heap string strLen offset dev = none := by
  simp only [partitionSet]
  rw [if_neg hlen, hspans.end_eq, hspans.startBlk_eq, toNat_natCast, toNat_natCast,
    getSharedBlks_eq part _ dev halloc hspans.start_lt.le]
  simp only [if_pos hneg]

/-- A chip that keeps its writes holds the bytes of the string that fall into the sectors of the
partition, and its old bytes. -/
theorem partitionSet_spec (chip : CfiPart) (hkept : ∀ s, k ≤ s → s < e → env.cells s = none)
    (hnonneg : 0 ≤ strLen) (string : Nat → UInt8) (dev : Dev) :
    ∃ dev', partitionSet maxLen p env chip heap string strLen offset dev = some (dev', 0) ∧
      ∀ i : Nat, dev'.mem i =
        if (chip.base k ≤ i ∧ i < chip.base e) ∧
            chip.base k + p.blkOffset + offset ≤ i ∧
            i < chip.base k + p.blkOffset + offset + strLen then
          string (i - (chip.base k + p.blkOffset + offset)).toNat
        else dev.mem i := by
  have hle := hspans.start_lt.le
  simp only [partitionSet]
  rw [if_neg hlen, hspans.end_eq, hspans.startBlk_eq, toNat_natCast,
    toNat_natCast, getSharedBlks_eq chip _ dev halloc hle]
  simp only [if_neg (not_lt.mpr hnonneg)]
  obtain ⟨hstatus, hmem⟩ := setSharedBlks_working chip hkept hle
    (fun i : Nat => poke (around heap (blit (fun i : Nat => heap i) 0
      (chip.base e - chip.base k) (view dev.mem (chip.base k))))
      (p.blkOffset + offset) strLen.toNat string i) dev
  refine ⟨_, by rw [hstatus]; rfl, ?_⟩
  intro i
  rw [hmem]
  by_cases hsector : chip.base k ≤ i ∧ i < chip.base e
  · rw [blit_inside _ _ hsector.1 (by omega)]
    simp only [poke]
    by_cases hrange : chip.base k + p.blkOffset + offset ≤ i ∧
        (i : Int) < chip.base k + p.blkOffset + offset + strLen
    · rw [if_pos (by omega), if_pos ⟨hsector, hrange⟩]
      congr 1
      omega
    rw [if_neg (by omega), if_neg (fun h => hrange h.2)]
    simp only [around]
    rw [if_neg (by omega), blit_inside _ _ (by omega) (by omega)]
    simp only [view]
    congr 1
    omega
  · rw [blit_outside _ _ (by omega), if_neg (fun h => hsector h.1)]

theorem partitionGet_spec (part : FlashPart) (hnonneg : 0 ≤ strLen) (dev : Dev) :
    partitionGet maxLen p env part heap strLen offset dev =
      some (0, peek (around heap (blit (fun i : Nat => heap i) 0
        (part.base e - part.base k) (view dev.mem (part.base k))))
        (p.blkOffset + offset) strLen.toNat) := by
  simp only [partitionGet]
  rw [if_neg hlen, hspans.end_eq, hspans.startBlk_eq, toNat_natCast, toNat_natCast,
    getSharedBlks_eq part _ dev halloc hspans.start_lt.le]
  simp only [if_neg (not_lt.mpr hnonneg)]

end

end Bodies

namespace SetCall

section Layout

variable {info : FlashAddrInfo} (hinit : kerSysFlashInit chip mem bpGetPsiSize = some info)
  {call : SetCall}

include hinit

theorem isolated_of_refused (hrefused : call.Refused info) (dev : Dev) :
    call.Isolated chip info dev := by
  refine ⟨dev, -1, ?_, .inl ⟨rfl, rfl⟩⟩
  simp only [perform, Store.set_eq hinit]
  exact partitionSet_refused hrefused _ _ _ dev

theorem perform_spec (hkept : call.Kept info) (hrefused : ¬call.Refused info)
    (hnonneg : 0 ≤ call.strLen) (hspans : (call.store.partition info).Spans k e) (dev : Dev) :
    ∃ dev', call.perform chip info dev = some (dev', 0) ∧
      ∀ i : Nat, dev'.mem i =
        if (chip.base k ≤ i ∧ i < chip.base e) ∧
            call.target chip info ≤ i ∧
            i < call.target chip info + call.strLen then
          call.string (i - call.target chip info).toNat
        else dev.mem i := by
  simp only [Refused, not_or, Bool.not_eq_false] at hrefused
  have hcells : ∀ s, k ≤ s → s < e → call.env.cells s = none := by
    intro s hlo hhi
    exact hkept s ((hspans.owns_iff s).mpr ⟨hlo, hhi⟩)
  have htarget : call.target chip info =
      chip.base k + (call.store.partition info).blkOffset + call.offset := by
    simp only [target, Store.origin, hspans.startBlk_eq, toNat_natCast]
    push_cast
    ring
  simp only [perform, Store.set_eq hinit, htarget]
  exact partitionSet_spec hspans hrefused.1 hrefused.2 _ chip hcells hnonneg _ dev

theorem isolated_of_inRange (hrange : call.InRange chip info) (hkept : call.Kept info) (dev : Dev) :
    call.Isolated chip info dev := by
  by_cases hrefused : call.Refused info
  · exact isolated_of_refused hinit hrefused dev
  obtain ⟨k, e, hspans⟩ := Store.exists_spans hinit call.store
  obtain ⟨dev', hperform, hmem⟩ :=
    perform_spec hinit hkept hrefused hrange.strLen_nonneg hspans dev
  obtain ⟨hlen, halloc⟩ := not_or.mp hrefused
  have hnonneg := hrange.strLen_nonneg
  have hoffset := hrange.offset_nonneg
  have hfits := hrange.fits
  rw [hspans.sectorsSize_eq] at hfits
  refine ⟨dev', 0, hperform, .inr ⟨hoffset, hrange.end_le, ?_, ?_⟩⟩
  · intro env heap henv
    rw [Store.get_eq hinit, partitionGet_spec hspans hlen henv heap _ hnonneg dev',
      show ((call.store.partition info).blkOffset : Int) + call.offset =
        ((call.store.partition info).blkOffset + call.offset.toNat : Nat) by omega,
      peek_around]
    congr 2
    apply slice_congr
    intro j hj
    -- the byte lies in the block, so it was read back from the chip
    rw [blit_inside _ _ (by omega) (by omega), view, hmem]
    simp only [target, Store.origin, hspans.startBlk_eq, toNat_natCast]
    rw [if_pos (by omega)]
    congr 1
    omega
  · intro i hi
    rw [hmem, if_neg (by omega)]

/-- On a chip that keeps its writes a call that is not refused writes where its offset says. -/
theorem isolated_iff (hkept : call.Kept info) (dev : Dev) :
    call.Isolated chip info dev ↔ call.Refused info ∨ call.InRange chip info := by
  constructor
  · rintro ⟨dev', sts, hperform, hcase⟩
    by_cases hrefused : call.Refused info
    · exact .inl hrefused
    refine .inr ?_
    obtain ⟨k, e, hspans⟩ := Store.exists_spans hinit call.store
    obtain ⟨hlen, halloc⟩ := not_or.mp hrefused
    have hnonneg : 0 ≤ call.strLen := by
      by_contra hneg
      rw [perform, Store.set_eq hinit, partitionSet_negative hspans hlen
        (Bool.not_eq_false _ ▸ halloc) _ (by omega)] at hperform
      cases hperform
    obtain ⟨written, hwritten, _⟩ :=
      perform_spec hinit hkept hrefused hnonneg hspans dev
    rw [hwritten, Option.some.injEq] at hperform
    obtain ⟨rfl, rfl⟩ := hperform
    rcases hcase with ⟨hsts, _⟩ | hcase
    · cases hsts
    refine ⟨hnonneg, hcase.offset_nonneg, hcase.end_le, ?_⟩
    intro hpos
    have hoffset := hcase.offset_nonneg
    rw [hspans.sectorsSize_eq]
    by_contra hpast
    -- the last byte would be read from behind the block, whatever is there
    have hget := hcase.get_eq Env.working (fun _ => call.string (call.strLen.toNat - 1) + 1) rfl
    rw [Store.get_eq hinit, partitionGet_spec hspans hlen rfl _ _ hnonneg,
      show ((call.store.partition info).blkOffset : Int) + call.offset =
        ((call.store.partition info).blkOffset + call.offset.toNat : Nat) by omega,
      peek_around, Option.some.injEq, Prod.mk.injEq] at hget
    have hlast := slice_inj hget.2 (show call.strLen.toNat - 1 < _ by omega)
    rw [blit_outside _ _ (by omega)] at hlast
    simp at hlast
  · rintro (hrefused | hrange)
    · exact isolated_of_refused hinit hrefused dev
    · exact isolated_of_inRange hinit hrange hkept dev

end Layout

/-- A call that is refused, or writes inside its partition to sectors that keep
what is written. -/
def Safe (part : FlashPart) (info : FlashAddrInfo) (call : SetCall) : Prop :=
  call.Refused info ∨ call.InRange part info ∧ call.Kept info

instance (info : FlashAddrInfo) (call : SetCall) : Decidable (call.Refused info) :=
  inferInstanceAs (Decidable (_ ∨ _))

def effect (info : FlashAddrInfo) (call : SetCall) (stores : Store → Nat → UInt8) :
    Store → Nat → UInt8 :=
  if call.Refused info then stores
  else fun store i =>
    if store = call.store ∧ call.offset ≤ i ∧ i < call.offset + call.strLen then
      call.string (i - call.offset).toNat
    else stores store i

end SetCall

/-- The chip holds the four byte stores, as far as they lie in their sectors. -/
def HoldsStores (part : FlashPart) (info : FlashAddrInfo)
    (stores : Store → Nat → UInt8) (dev : Dev) : Prop :=
  ∀ (store : Store) (i : Nat), (i : Int) < (store.partition info).length →
    ((store.partition info).blkOffset : Int) + i <
      sectorsSize part (store.partition info).startBlk (store.partition info).numberBlk →
    dev.mem (store.origin part info + i) = stores store i

section

variable {info : FlashAddrInfo} (hinit : kerSysFlashInit chip mem bpGetPsiSize = some info)
include hinit

theorem HoldsStores.step {call : SetCall} (hsafe : call.Safe chip info)
    (h : HoldsStores chip info stores dev) :
    HoldsStores chip info (call.effect info stores) (call.step chip info dev) := by
  by_cases hrefused : call.Refused info
  · simp only [SetCall.effect, if_pos hrefused, SetCall.step, SetCall.perform, Store.set_eq hinit]
    rw [partitionSet_refused hrefused]
    exact h
  obtain ⟨hrange, hkept⟩ := hsafe.resolve_left hrefused
  obtain ⟨b, hstacked⟩ := kerSysFlashInit_stacked _ mem bpGetPsiSize info hinit
  have hspans := Store.spans hinit hstacked call.store
  obtain ⟨dev', hperform, hmem⟩ := SetCall.perform_spec hinit hkept hrefused
    hrange.strLen_nonneg hspans dev
  intro store i hlength hsector
  have hown := Store.spans hinit hstacked store
  have hold := h store i hlength hsector
  simp only [SetCall.effect, if_neg hrefused, SetCall.step, hperform]
  rw [hmem, hold]
  rw [hown.sectorsSize_eq] at hsector
  simp only [SetCall.target, Store.origin, hspans.startBlk_eq, hown.startBlk_eq, toNat_natCast]
  by_cases hsame : store = call.store
  · subst hsame
    by_cases hin : call.offset ≤ i ∧ (i : Int) < call.offset + call.strLen
    · rw [if_pos (by omega), if_pos ⟨rfl, hin⟩]
      congr 1
      omega
    · rw [if_neg (by omega), if_neg (fun h => hin h.2)]
  · -- another store's byte lies in another store's sectors
    simp only [hsame, false_and, if_false]
    rw [if_neg]
    rcases Store.disjoint hstacked hsame with hbelow | habove
    · have := chip.base_mono hbelow
      omega
    · have := chip.base_mono habove
      omega

theorem stores_held {calls : List SetCall} (hsafe : ∀ call ∈ calls, call.Safe chip info)
    (h : HoldsStores chip info stores dev) :
    HoldsStores chip info (Run.run (SetCall.effect info) calls stores)
      (Run.run (SetCall.step chip info) calls dev) := by
  induction calls generalizing stores dev with
  | nil => exact h
  | cons call rest ih =>
    apply ih
    · intro other hother
      exact hsafe other (mem_cons_of_mem call hother)
    · exact h.step hinit (hsafe call mem_cons_self)

end

/-- In every sequence of safe calls each is isolated, whatever those before left on the chip. -/
theorem partition_stores_isolated (chip : CfiPart) (mem : Nat → UInt8) (bpGetPsiSize : Option Nat)
    (info : FlashAddrInfo) (hinit : kerSysFlashInit chip mem bpGetPsiSize = some info)
    (calls : List SetCall) (hsafe : ∀ call ∈ calls, call.Safe chip info) (dev : Dev)
    (before after : List SetCall) (call : SetCall) (hcalls : calls = before ++ call :: after) :
    call.Isolated chip info (run (SetCall.step chip info) before dev) := by
  have hcall : call ∈ calls := by
    rw [hcalls]
    exact mem_append_right before mem_cons_self
  rcases hsafe call hcall with hrefused | ⟨hrange, hkept⟩
  · exact SetCall.isolated_of_refused hinit hrefused _
  · exact SetCall.isolated_of_inRange hinit hrange hkept _

def variableStart : SetCall where
  store := .va
  env := Env.working
  heap := fun _ => 0
  string := fun _ => 7
  strLen := 2
  offset := 0

theorem variableStart_held :
    HoldsStores topBootChip.toFlashPart topBootInfo
      (run (SetCall.effect topBootInfo) [variableStart] fun _ _ => 0xFF)
      (run (SetCall.step topBootChip.toFlashPart topBootInfo) [variableStart]
        ⟨fun _ => 0xFF, []⟩) := by
  apply @stores_held _ _ topBootChip _ _ _ (kerSysFlashInit_topBoot 0) _ _ fun _ _ _ _ => rfl
  intro call hcall
  rw [mem_singleton.mp hcall]
  exact .inr ⟨⟨by decide, by decide, by decide, fun _ => by decide +kernel⟩, fun _ _ => rfl⟩

theorem variableStart_isolated :
    variableStart.Safe topBootChip.toFlashPart topBootInfo ∧
    variableStart.Isolated topBootChip.toFlashPart topBootInfo
      (run (SetCall.step topBootChip.toFlashPart topBootInfo) [variableStart]
        ⟨fun _ => 0xFF, []⟩) := by
  have hsafe : variableStart.Safe topBootChip.toFlashPart topBootInfo :=
    .inr ⟨⟨by decide, by decide, by decide, fun _ => by decide +kernel⟩, fun _ _ => rfl⟩
  refine ⟨hsafe, ?_⟩
  apply partition_stores_isolated topBootChip (fun _ => 0xFF) none topBootInfo
    (kerSysFlashInit_topBoot _) [variableStart, variableStart] _ _ [variableStart]
    [] variableStart rfl
  intro call hcall
  simp only [mem_cons, not_mem_nil, or_false, or_self] at hcall
  rw [hcall]
  exact hsafe

def nvramPastEnd : SetCall where
  store := .nvram
  env := Env.working
  heap := fun _ => 0
  string := fun _ => 0
  strLen := 1
  offset := 1024

/-- The call answers 0 and has changed a byte of the boot loader that follows the record. -/
theorem nvramPastEnd_not_isolated :
    kerSysFlashInit topBootChip.toFlashPart (fun _ => 0xFF) none = some topBootInfo ∧
    (∃ dev', nvramPastEnd.perform topBootChip.toFlashPart topBootInfo
        ⟨fun _ => 0xFF, []⟩ = some (dev', 0) ∧ dev'.mem 0x980 = 0) ∧
    ¬nvramPastEnd.Isolated topBootChip.toFlashPart topBootInfo ⟨fun _ => 0xFF, []⟩ := by
  have hinit : kerSysFlashInit topBootChip.toFlashPart (fun _ => 0xFF) none =
      some topBootInfo := kerSysFlashInit_topBoot _
  have hkept : nvramPastEnd.Kept topBootInfo := fun _ _ => rfl
  have hrefused : ¬nvramPastEnd.Refused topBootInfo := by
    rintro (hlong | halloc)
    · exact absurd hlong (by decide)
    · exact absurd halloc (by decide)
  refine ⟨hinit, ?_, ?_⟩
  · obtain ⟨dev', hperform, hmem⟩ := SetCall.perform_spec hinit hkept hrefused
      (by decide) (k := 0) (e := 1) ⟨rfl, rfl, by decide⟩ ⟨fun _ => 0xFF, []⟩
    refine ⟨dev', hperform, ?_⟩
    rw [hmem]
    rfl
  · rw [SetCall.isolated_iff hinit hkept]
    rintro (h | hrange)
    · exact hrefused h
    · exact absurd hrange.end_le (by decide)

end EchoLife.Flash

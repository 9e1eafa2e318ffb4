import EchoLife.Base.Buffer
import EchoLife.Base.Run
import EchoLife.Flash.Geometry

/-!
The chip behind the flash API, with a log of what the driver did to it. A byte is named by its
offset from `FLASH_BASE`. What a sector holds after the rounds of `cfi_flash_write_buf` is taken
from an oracle, and the driver's answer is the result of its own comparison. The semaphore around
these calls is the subject of `Flash.Locking`.
-/

namespace EchoLife.Flash

open Buffer List Run

/-- One access of the driver. `fetch` reads image bytes and leaves the chip
alone; `settle` is a write after which the sector holds what it holds. -/
inductive FlashOp
  | erase (sector : Nat)
  | program (sector offset numbytes : Nat) (data : Nat → UInt8)
  | settle (sector : Nat) (cells : Nat → UInt8)
  | fetch (index numbytes : Nat)

variable {i : Nat} {ops : List FlashOp} {sector : Nat}

namespace FlashOp

def apply (part : FlashPart) : FlashOp → (Nat → UInt8) → Nat → UInt8
  | erase sector, mem =>
    fill mem (part.base sector) (part.sectorSize sector) 0xFF
  | program sector offset numbytes data, mem =>
    blit mem (part.base sector + offset) numbytes data
  | settle sector cells, mem =>
    blit mem (part.base sector) (part.sectorSize sector) cells
  | fetch _ _, mem => mem

@[simp] theorem apply_fetch (part : FlashPart) (index numbytes : Nat)
    (mem : Nat → UInt8) : (fetch index numbytes).apply part mem = mem :=
  rfl

def Inside (part : FlashPart) (p : Nat → Prop) : FlashOp → Prop
  | erase sector => p sector
  | program sector offset numbytes _ =>
    p sector ∧ offset + numbytes ≤ part.sectorSize sector
  | settle sector _ => p sector
  | fetch _ _ => True

def ReadsBelow (limit : Nat) : FlashOp → Prop
  | fetch index numbytes => 0 < numbytes → index + numbytes ≤ limit
  | _ => True

variable {part : FlashPart} {p : Nat → Prop}

theorem Inside.mono {q : Nat → Prop} {op : FlashOp}
    (h : op.Inside part p) (hpq : ∀ s, p s → q s) : op.Inside part q := by
  cases op with
  | erase sector => exact hpq sector h
  | program sector offset numbytes data => exact ⟨hpq sector h.1, h.2⟩
  | settle sector cells => exact hpq sector h
  | fetch index numbytes => trivial

theorem apply_outside {op : FlashOp} (h : op.Inside part p) (mem : Nat → UInt8)
    (hi : ∀ s, p s → i < part.base s ∨ part.base (s + 1) ≤ i) : op.apply part mem i = mem i := by
  cases op with
  | erase sector =>
    have hsector := hi sector h
    rw [part.base_succ] at hsector
    exact fill_outside mem _ hsector
  | program sector offset numbytes data =>
    have hsector := hi sector h.1
    rw [part.base_succ] at hsector
    have hbound := h.2
    exact blit_outside mem _ (by omega)
  | settle sector cells =>
    have hsector := hi sector h
    rw [part.base_succ] at hsector
    exact blit_outside mem _ hsector
  | fetch index numbytes => rfl

theorem run_outside (hinside : ∀ op ∈ ops, op.Inside part p)
    (mem : Nat → UInt8) (hi : ∀ s, p s → i < part.base s ∨ part.base (s + 1) ≤ i) :
    run (apply part) ops mem i = mem i := by
  apply run_observe (f := fun now : Nat → UInt8 => now i)
  intro op hop now
  exact apply_outside (hinside op hop) now hi

end FlashOp

structure Dev where
  mem : Nat → UInt8
  log : List FlashOp

namespace Dev

section
variable (part : FlashPart) (op : FlashOp) (dev : Dev)

def emit (dev : Dev) : Dev :=
  ⟨op.apply part dev.mem, dev.log ++ [op]⟩

@[simp] theorem emit_mem : (dev.emit part op).mem = op.apply part dev.mem :=
  rfl

@[simp] theorem emit_log : (dev.emit part op).log = dev.log ++ [op] :=
  rfl

structure Via (part : FlashPart) (ops : List FlashOp) (dev dev' : Dev) : Prop where
  mem_eq : dev'.mem = run (FlashOp.apply part) ops dev.mem
  log_eq : dev'.log = dev.log ++ ops

theorem Via.refl : Via part [] dev dev :=
  ⟨rfl, (append_nil _).symm⟩

end

variable {dev dev' : Dev} {part : FlashPart} {p limits : Nat → Prop}

theorem Via.emit (h : Via part ops dev dev') (op : FlashOp) :
    Via part (ops ++ [op]) dev (dev'.emit part op) := by
  constructor
  · rw [run_append, ← h.mem_eq]
    rfl
  · rw [emit_log, h.log_eq, append_assoc]

theorem Via.trans {first second : List FlashOp} {dev'' : Dev} (h : Via part first dev dev')
    (h' : Via part second dev' dev'') : Via part (first ++ second) dev dev'' := by
  constructor
  · rw [run_append, ← h.mem_eq, h'.mem_eq]
  · rw [h'.log_eq, h.log_eq, append_assoc]

theorem Via.frame (h : Via part ops dev dev') (hinside : ∀ op ∈ ops, op.Inside part p)
    (hi : ∀ s, p s → i < part.base s ∨ part.base (s + 1) ≤ i) : dev'.mem i = dev.mem i := by
  rw [h.mem_eq]
  exact FlashOp.run_outside hinside dev.mem hi

/-- `dev'` results from `dev` by accesses inside the sectors `p`, and limits with `limits` bound
their reads. -/
def Footprint (part : FlashPart) (p limits : Nat → Prop) (dev dev' : Dev) : Prop :=
  ∃ ops, Via part ops dev dev' ∧ (∀ op ∈ ops, op.Inside part p) ∧
    ∀ limit, limits limit → ∀ op ∈ ops, op.ReadsBelow limit

theorem Footprint.refl (part : FlashPart) (p limits : Nat → Prop) (dev : Dev) :
    Footprint part p limits dev dev :=
  ⟨[], Via.refl part dev, by simp, by simp⟩

section

variable (h : Footprint part p limits dev dev')
include h

theorem Footprint.emit (op : FlashOp)
    (hop : op.Inside part p) (hreads : ∀ limit, limits limit → op.ReadsBelow limit) :
    Footprint part p limits dev (dev'.emit part op) := by
  obtain ⟨ops, hvia, hinside, hlimits⟩ := h
  refine ⟨ops ++ [op], hvia.emit op, ?_, ?_⟩
  · rw [forall_mem_append, forall_mem_singleton]
    exact ⟨hinside, hop⟩
  · intro limit hlimit
    rw [forall_mem_append, forall_mem_singleton]
    exact ⟨hlimits limit hlimit, hreads limit hlimit⟩

theorem Footprint.trans {dev'' : Dev} (h' : Footprint part p limits dev' dev'') :
    Footprint part p limits dev dev'' := by
  obtain ⟨ops, hvia, hinside, hlimits⟩ := h
  obtain ⟨ops', hvia', hinside', hlimits'⟩ := h'
  refine ⟨ops ++ ops', hvia.trans hvia', ?_, ?_⟩
  · exact forall_mem_append.mpr ⟨hinside, hinside'⟩
  · intro limit hlimit
    exact forall_mem_append.mpr ⟨hlimits limit hlimit, hlimits' limit hlimit⟩

theorem Footprint.mono {q limits' : Nat → Prop} (hp : ∀ s, p s → q s)
    (hlimits : ∀ limit, limits' limit → limits limit) : Footprint part q limits' dev dev' := by
  obtain ⟨ops, hvia, hinside, hreads⟩ := h
  refine ⟨ops, hvia, ?_, ?_⟩
  · intro op hop
    exact (hinside op hop).mono hp
  · intro limit hlimit
    exact hreads limit (hlimits limit hlimit)

theorem Footprint.log_subset : dev.log ⊆ dev'.log := by
  obtain ⟨ops, hvia, _, _⟩ := h
  rw [hvia.log_eq]
  exact subset_append_left _ _

theorem Footprint.frame (hi : ∀ s, p s → i < part.base s ∨ part.base (s + 1) ≤ i) :
    dev'.mem i = dev.mem i := by
  obtain ⟨ops, hvia, hinside, _⟩ := h
  exact hvia.frame hinside hi

end

end Dev

/-- What a sector holds after a write that did not simply store its data, and whether
`retriedKmalloc` and `copy_from_user` succeed. -/
structure Env where
  cells : Nat → Option (Nat → UInt8)
  kmallocOk : Bool
  copyFromUserOk : Bool

def Env.working : Env where
  cells := fun _ => none
  kmallocOk := true
  copyFromUserOk := true

variable (env : Env) (part : FlashPart)

def flashSectorEraseInt (sector : Nat) (dev : Dev) : Dev :=
  dev.emit part (.erase sector)

/-- The number of bytes written, `-1` if the sector does not verify. Odd counts are refused by
`cfi_flash_write`, which leaves only the comparison and the erases of the retry loop. -/
def flashWriteBuf (sector offset : Nat)
    (buffer : Nat → UInt8) (numbytes : Int) (dev : Dev) : Dev × Int :=
  if numbytes % 2 = 1 ∨ offset % 2 = 1 then
    if slice dev.mem (part.base sector + offset) numbytes.toNat =
        slice buffer 0 numbytes.toNat then (dev, -1)
    else (dev.emit part (.erase sector), -1)
  else if numbytes ≤ 0 then (dev, 0)
  else
    match env.cells sector with
    | none =>
      (dev.emit part (.program sector offset numbytes.toNat buffer), numbytes)
    | some cells =>
      (dev.emit part (.settle sector cells),
        if slice cells offset numbytes.toNat = slice buffer 0 numbytes.toNat
        then numbytes else -1)

theorem flashWriteBuf_footprint (sector offset : Nat) (buffer : Nat → UInt8) (numbytes : Int)
    (dev : Dev) (hbound : 0 < numbytes → (offset : Int) + numbytes ≤ part.sectorSize sector)
    (limits : Nat → Prop) :
    Dev.Footprint part (· = sector) limits dev
      (flashWriteBuf env part sector offset buffer numbytes dev).1 := by
  have hnone := Dev.Footprint.refl part (· = sector) limits dev
  simp only [flashWriteBuf]
  split
  · split
    · exact hnone
    · exact hnone.emit (.erase sector) rfl (fun _ _ => trivial)
  split
  · exact hnone
  cases env.cells sector with
  | none =>
    exact hnone.emit (.program sector offset numbytes.toNat buffer)
      ⟨rfl, by omega⟩ (fun _ _ => trivial)
  | some cells =>
    exact hnone.emit (.settle sector cells) rfl (fun _ _ => trivial)

theorem flashWriteBuf_working {env : Env} (hcells : env.cells sector = none) (buffer : Nat → UInt8)
    {n : Nat} (heven : 2 ∣ n) (dev : Dev) :
    flashWriteBuf env part sector 0 buffer n dev =
      (if n = 0 then dev else dev.emit part (.program sector 0 n buffer), (n : Int)) := by
  have hnot : ¬((n : Int) % 2 = 1 ∨ 0 % 2 = 1) := by omega
  simp only [flashWriteBuf]
  rw [if_neg hnot]
  by_cases hzero : n = 0
  · subst hzero
    simp
  · rw [if_neg (by omega), hcells, if_neg hzero]
    simp

theorem flashWriteBuf_settled {env : Env}
    {cells : Nat → UInt8} (hcells : env.cells sector = some cells)
    (buffer : Nat → UInt8) {n : Nat} (heven : 2 ∣ n) (hpos : 0 < n) (dev : Dev) :
    flashWriteBuf env part sector 0 buffer n dev =
      (dev.emit part (.settle sector cells),
        if slice cells 0 n = slice buffer 0 n then (n : Int) else -1) := by
  have hnot : ¬((n : Int) % 2 = 1 ∨ 0 % 2 = 1) := by omega
  simp only [flashWriteBuf]
  rw [if_neg hnot, if_neg (by omega), hcells]
  simp

/-- A write that answers the full count holds its data: the answer is the
driver's comparison. -/
theorem flashWriteBuf_verified {env : Env} {part : FlashPart} {buffer : Nat → UInt8}
    {n : Nat} {dev : Dev} (hfit : n ≤ part.sectorSize sector)
    (h : (flashWriteBuf env part sector 0 buffer n dev).2 = n) (hi : i < n) :
    (flashWriteBuf env part sector 0 buffer n dev).1.mem (part.base sector + i) = buffer i := by
  revert h
  simp only [flashWriteBuf]
  split
  · split <;> simp only <;> omega
  split
  · omega
  cases env.cells sector with
  | none =>
    intro _
    exact blit_at _ _ hi
  | some cells =>
    simp only [Int.toNat_natCast, Dev.emit_mem, FlashOp.apply]
    intro h
    split at h
    next hsame =>
      rw [blit_at _ _ (lt_of_lt_of_le hi hfit)]
      have := slice_inj hsame hi
      simpa using this
    · omega

end EchoLife.Flash

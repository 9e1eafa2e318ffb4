import EchoLife.Base.Buffer
import EchoLife.Base.Run
import EchoLife.Base.Slots
import EchoLife.Base.Word

/-!
The MAC addresses of the board driver (`board.c`): a block of consecutive
addresses that `kerSysGetMacAddress` hands out by caller id and
`kerSysReleaseMacAddress` takes back. An id may carry a reserved index in its top
byte; the driver takes the reserved slots at boot.
-/

namespace EchoLife.Board

open Buffer Option Run Slots Word

structure MacAddress where
  oui : BitVec 24
  nic : BitVec 24
deriving DecidableEq, Repr

def MacAddress.toNat (a : MacAddress) : Nat :=
  a.oui.toNat * 2 ^ 24 + a.nic.toNat

/-- One entry of the table; `chInUse` is a byte of memory, not a boolean. -/
structure MacAddrInfo where
  ulId : BitVec 32
  chInUse : UInt8
deriving DecidableEq, Repr

/-- What the driver keeps; `ulNumMacAddrs` is the length of the table. -/
structure NvramInfo where
  ucaBaseMacAddr : MacAddress
  macAddrs : List MacAddrInfo
deriving DecidableEq, Repr

inductive Errno where
  | eaddrnotavail
  | einval
deriving DecidableEq, Repr

def macAddressAny : BitVec 32 := 0xFFFFFFFF

def reserveMacMask : BitVec 32 := 0xFF000000

def noReserveMac : Nat := 0xFFFFFFFF

def reservedId (ulId : BitVec 32) : Nat :=
  if ulId &&& reserveMacMask = reserveMacMask then 0
  else
    let index := ((ulId &&& reserveMacMask) >>> 24).toNat
    if index ≠ 2 ∧ index ≠ 3 ∧ index ≠ 4 ∧ index ≠ 5 then noReserveMac else index

namespace NvramInfo

def ulNumMacAddrs (s : NvramInfo) : Nat :=
  s.macAddrs.length

/-- The address of slot `i`: three bytes of the base, and the upper three of the word
`(baseMacAddr + i) << 8`. -/
def address (s : NvramInfo) (i : Nat) : MacAddress where
  oui := s.ucaBaseMacAddr.oui
  nic := BitVec.ofNat 24 (u32 ((s.ucaBaseMacAddr.nic.toNat + i : Nat) * 2 ^ 8) / 2 ^ 8)

def setInUse (s : NvramInfo) (i : Nat) (inUse : UInt8) : NvramInfo :=
  { s with macAddrs := s.macAddrs.modify i fun pMai => { pMai with chInUse := inUse } }

def assign (s : NvramInfo) (i : Nat) (ulId : BitVec 32) : NvramInfo :=
  { s with macAddrs := s.macAddrs.set i { ulId, chInUse := 1 } }

end NvramInfo

structure Free where
  freeNoId : Option Nat := none
  freeId : Option Nat := none
deriving DecidableEq, Repr

def eligible (reserved i : Nat) : Bool :=
  reserved = noReserveMac || i = reserved

def Free.note (reserved i : Nat) (pMai : MacAddrInfo) (free : Free) : Free :=
  if pMai.chInUse = 0 then
    if pMai.ulId = 0 ∧ free.freeNoId = none then
      if eligible reserved i then { free with freeNoId := some i } else free
    else if pMai.ulId ≠ 0 ∧ free.freeId = none then
      if eligible reserved i then { free with freeId := some i } else free
    else free
  else free

def Free.pick (free : Free) : Option Nat :=
  free.freeNoId.or free.freeId

def Matches (ulId : BitVec 32) (pMai : MacAddrInfo) : Prop :=
  ulId = pMai.ulId ∨ ulId = macAddressAny

instance (ulId : BitVec 32) (pMai : MacAddrInfo) : Decidable (Matches ulId pMai) :=
  inferInstanceAs (Decidable (_ ∨ _))

inductive Scan where
  | matched (i : Nat)
  | exhausted (free : Free)
deriving DecidableEq, Repr

def scan (ulId : BitVec 32) (reserved : Nat) : List MacAddrInfo → Nat → Free → Scan
  | [], _, free => .exhausted free
  | pMai :: rest, i, free =>
    if Matches ulId pMai then .matched i
    else scan ulId reserved rest (i + 1) (free.note reserved i pMai)

def kerSysGetMacAddress (s : NvramInfo) (ulId : BitVec 32) : NvramInfo × Except Errno MacAddress :=
  match scan ulId (reservedId ulId) s.macAddrs 0 {} with
  | .matched i => (s.setInUse i 1, .ok (s.address i))
  | .exhausted free =>
    match free.pick with
    | some i => (s.assign i ulId, .ok (s.address i))
    | none => (s, .error .eaddrnotavail)

/-- The slot that `kerSysReleaseMacAddress` finds: the difference of the last three bytes as an
`unsigned long`. -/
def NvramInfo.ulIdx (s : NvramInfo) (a : MacAddress) : Nat :=
  u32 ((a.nic.toNat : Int) - s.ucaBaseMacAddr.nic.toNat)

def kerSysReleaseMacAddress (s : NvramInfo) (a : MacAddress) : NvramInfo × Except Errno Unit :=
  match s.macAddrs[s.ulIdx a]? with
  | some pMai =>
    if pMai.chInUse = 1 then (s.setInUse (s.ulIdx a) 0, .ok ()) else (s, .error .einval)
  | none => (s, .error .einval)

inductive Call where
  | get (ulId : BitVec 32)
  | release (a : MacAddress)
deriving DecidableEq, Repr

def Call.apply : Call → NvramInfo → NvramInfo
  | .get ulId, s => (kerSysGetMacAddress s ulId).1
  | .release a, s => (kerSysReleaseMacAddress s a).1

/-! ### Boot -/

def nvramMacCountMax : Nat := 32

/-- Entry `i` of a table in memory: a big-endian word, the mark, three bytes that
nothing reads. -/
def infoAt (bytes : Nat → UInt8) (i : Nat) : MacAddrInfo where
  ulId := BitVec.ofNat 32 (be32 bytes (8 * i))
  chInUse := bytes (8 * i + 4)

/-- The table that `InitNvramInfo` starts from. Of what `kmalloc` returned it clears
`sizeof(NVRAM_INFO) + (sizeof(MAC_ADDR_INFO) - 1) * ulNumMacAddrs` bytes: one entry, and seven
bytes for each address. -/
def bootTable (heap : Nat → UInt8) (num : Nat) : List MacAddrInfo :=
  (List.range num).map (infoAt (fill heap 0 (8 + 7 * num) 0))

def bootId (i : Nat) : BitVec 32 :=
  if i = 0 then reserveMacMask else reserveMacMask &&& (BitVec.ofNat 32 i <<< 24)

def bootSlots (num : Nat) : List Nat :=
  (List.range num).filter fun i => i = 0 ∨ i = 2 ∨ i = 3 ∨ i = 4 ∨ i = 5

/-- `none` where `g_pNvramInfo` stays a null pointer. -/
def initNvramInfo (kmalloc : Option (Nat → UInt8)) (ucaBaseMacAddr : MacAddress)
    (ulNumMacAddrs : Nat) : Option NvramInfo :=
  if 0 < ulNumMacAddrs ∧ ulNumMacAddrs ≤ nvramMacCountMax then
    kmalloc.map fun heap =>
      run Call.apply ((bootSlots ulNumMacAddrs).map fun i => .get (bootId i))
        { ucaBaseMacAddr, macAddrs := bootTable heap ulNumMacAddrs }
  else none

/-! ### The search -/

variable {free : Free} {reserved : Nat} {rest : List MacAddrInfo} {ulId : BitVec 32} {i j : Nat}
  {out : Free}

private theorem scan_matched (h : scan ulId reserved rest i free = .matched j) :
    ∃ m, j = i + m ∧ FirstAt (Matches ulId) rest m := by
  induction rest generalizing i free with
  | nil => simp only [scan, reduceCtorEq] at h
  | cons pMai rest ih =>
    simp only [scan] at h
    split at h
    next hmatch =>
      cases h
      exact ⟨0, rfl, firstAt_cons_zero hmatch⟩
    next hmatch =>
      obtain ⟨m, rfl, hfirst⟩ := ih h
      exact ⟨m + 1, by omega, hfirst.cons hmatch⟩

private theorem scan_exhausted_none (h : scan ulId reserved rest i free = .exhausted out) :
    ∀ pMai ∈ rest, ¬ Matches ulId pMai := by
  induction rest generalizing i free with
  | nil => simp
  | cons pMai rest ih =>
    simp only [scan] at h
    split at h
    · cases h
    next hmatch => exact List.forall_mem_cons.mpr ⟨hmatch, ih h⟩

def Takeable (reserved i : Nat) (pMai : MacAddrInfo) : Prop :=
  pMai.chInUse = 0 ∧ eligible reserved i = true

theorem Free.note_pick {pMai : MacAddrInfo} (h : (free.note reserved i pMai).freeNoId = some j ∨
      (free.note reserved i pMai).freeId = some j) :
    (free.freeNoId = some j ∨ free.freeId = some j) ∨ (j = i ∧ Takeable reserved i pMai) := by
  unfold Free.note at h
  split at h
  next hfree =>
    split at h
    · split at h
      next helig =>
        rcases h with h | h
        · exact .inr ⟨(some_inj.mp h).symm, hfree, helig⟩
        · exact .inl (.inr h)
      · exact .inl h
    · split at h
      · split at h
        next helig =>
          rcases h with h | h
          · exact .inl (.inl h)
          · exact .inr ⟨(some_inj.mp h).symm, hfree, helig⟩
        · exact .inl h
      · exact .inl h
  · exact .inl h

theorem Free.pick_eq_none_iff (free : Free) :
    free.pick = none ↔ free.freeNoId = none ∧ free.freeId = none :=
  or_eq_none_iff

theorem Free.note_pick_none {pMai : MacAddrInfo} (h : (free.note reserved i pMai).pick = none) :
    free.pick = none ∧ ¬ Takeable reserved i pMai := by
  unfold Takeable
  rw [Free.pick_eq_none_iff] at h ⊢
  unfold Free.note at h
  grind

section

variable (h : scan ulId reserved rest i free = .exhausted out)
include h

private theorem scan_exhausted_pick (hpick : out.freeNoId = some j ∨ out.freeId = some j) :
    (free.freeNoId = some j ∨ free.freeId = some j) ∨
      ∃ m pMai, j = i + m ∧ rest[m]? = some pMai ∧ Takeable reserved j pMai := by
  induction rest generalizing i free with
  | nil =>
    simp only [scan, Scan.exhausted.injEq] at h
    exact .inl (h ▸ hpick)
  | cons pMai rest ih =>
    simp only [scan] at h
    split at h
    · cases h
    rcases ih h with hnoted | ⟨m, other, rfl, hslot, htake⟩
    · rcases Free.note_pick hnoted with hbefore | ⟨rfl, htake⟩
      · exact .inl hbefore
      · exact .inr ⟨0, pMai, rfl, rfl, htake⟩
    · exact .inr ⟨m + 1, other, by omega, hslot, htake⟩

private theorem scan_exhausted_pick_none (hpick : out.pick = none) :
    free.pick = none ∧ ∀ m pMai, rest[m]? = some pMai → ¬ Takeable reserved (i + m) pMai := by
  induction rest generalizing i free with
  | nil =>
    simp only [scan, Scan.exhausted.injEq] at h
    refine ⟨h ▸ hpick, ?_⟩
    intro m pMai hslot
    simp at hslot
  | cons pMai rest ih =>
    simp only [scan] at h
    split at h
    · cases h
    obtain ⟨hnoted, hrest⟩ := ih h
    obtain ⟨hbefore, hnot⟩ := Free.note_pick_none hnoted
    refine ⟨hbefore, ?_⟩
    intro m other hslot
    cases m with
    | zero =>
      rw [List.getElem?_cons_zero, some_inj] at hslot
      exact hslot ▸ hnot
    | succ m =>
      have hlater := hrest m other hslot
      rwa [add_assoc, add_comm 1 m] at hlater

end

/-- A request uses the first slot that answers the id, takes one that is free and eligible, or
fails. -/
theorem kerSysGetMacAddress_cases (s : NvramInfo) (ulId : BitVec 32) :
    (∃ i, FirstAt (Matches ulId) s.macAddrs i ∧
      kerSysGetMacAddress s ulId = (s.setInUse i 1, .ok (s.address i))) ∨
    (∃ i pMai, (∀ other ∈ s.macAddrs, ¬ Matches ulId other) ∧
      s.macAddrs[i]? = some pMai ∧ Takeable (reservedId ulId) i pMai ∧
      kerSysGetMacAddress s ulId = (s.assign i ulId, .ok (s.address i))) ∨
    ((∀ other ∈ s.macAddrs, ¬ Matches ulId other) ∧
      (∀ i pMai, s.macAddrs[i]? = some pMai → ¬ Takeable (reservedId ulId) i pMai) ∧
      kerSysGetMacAddress s ulId = (s, .error .eaddrnotavail)) := by
  unfold kerSysGetMacAddress
  cases hscan : scan ulId (reservedId ulId) s.macAddrs 0 {} with
  | matched j =>
    obtain ⟨m, rfl, hfirst⟩ := scan_matched hscan
    rw [zero_add]
    exact .inl ⟨m, hfirst, rfl⟩
  | exhausted free =>
    have hnone := scan_exhausted_none hscan
    cases hpick : free.pick with
    | none =>
      obtain ⟨_, hnot⟩ := scan_exhausted_pick_none hscan hpick
      refine .inr (.inr ⟨hnone, ?_, by simp only [hpick]⟩)
      intro i pMai hslot
      have h := hnot i pMai hslot
      rwa [zero_add] at h
    | some j =>
      have hfound : free.freeNoId = some j ∨ free.freeId = some j := by
        rcases or_eq_some_iff.mp hpick with h | ⟨_, h⟩
        · exact .inl h
        · exact .inr h
      rcases scan_exhausted_pick hscan hfound with hbefore | ⟨m, pMai, rfl, hslot, htake⟩
      · simp at hbefore
      · rw [zero_add] at htake hpick
        exact .inr (.inl ⟨m, pMai, hnone, hslot, htake, by simp only [hpick]⟩)

theorem kerSysReleaseMacAddress_cases (s : NvramInfo) (a : MacAddress) :
    (∃ pMai, s.macAddrs[s.ulIdx a]? = some pMai ∧ pMai.chInUse = 1 ∧
      kerSysReleaseMacAddress s a = (s.setInUse (s.ulIdx a) 0, .ok ())) ∨
    ((∀ pMai, s.macAddrs[s.ulIdx a]? = some pMai → pMai.chInUse ≠ 1) ∧
      kerSysReleaseMacAddress s a = (s, .error .einval)) := by
  unfold kerSysReleaseMacAddress
  cases hslot : s.macAddrs[s.ulIdx a]? with
  | none => exact .inr ⟨fun _ h => absurd h (by simp), rfl⟩
  | some pMai =>
    rcases Decidable.em (pMai.chInUse = 1) with huse | huse
    · exact .inl ⟨pMai, rfl, huse, if_pos huse⟩
    refine .inr ⟨?_, if_neg huse⟩
    intro other hother
    cases hother
    exact huse

/-! ### Addresses of the block -/

namespace NvramInfo

theorem address_nic (s : NvramInfo) (i : Nat) :
    (s.address i).nic.toNat = (s.ucaBaseMacAddr.nic.toNat + i) % 2 ^ 24 := by
  simp only [address, BitVec.toNat_ofNat, u32]
  omega

variable {s : NvramInfo}

theorem address_inj {i j : Nat} (hi : i < 2 ^ 24) (hj : j < 2 ^ 24)
    (h : s.address i = s.address j) : i = j := by
  have hnic := congrArg (fun a => a.nic.toNat) h
  simp only [address_nic] at hnic
  omega

/-- The slot found for an address of the block, as long as the last three bytes
do not wrap. -/
theorem ulIdx_address {i : Nat}
    (hfits : s.ucaBaseMacAddr.nic.toNat + i < 2 ^ 24) : s.ulIdx (s.address i) = i := by
  simp only [ulIdx, address_nic, u32]
  omega

theorem address_ulIdx {a : MacAddress}
    (houi : a.oui = s.ucaBaseMacAddr.oui) : s.address (s.ulIdx a) = a := by
  have hnic : (s.address (s.ulIdx a)).nic = a.nic := by
    apply BitVec.eq_of_toNat_eq
    rw [address_nic]
    simp only [ulIdx, u32]
    omega
  cases a with
  | mk oui nic =>
    rw [MacAddress.mk.injEq]
    exact ⟨houi.symm, hnic⟩

/-- The block continues the base address as a number exactly up to the wrap. -/
theorem address_toNat_iff {i k : Nat} (hi : i < 2 ^ 24) (hk : k < 2 ^ 24) :
    (s.address i).toNat = s.ucaBaseMacAddr.toNat + k ↔
      i = k ∧ s.ucaBaseMacAddr.nic.toNat + k < 2 ^ 24 := by
  have houi : (s.address i).oui = s.ucaBaseMacAddr.oui := rfl
  simp only [MacAddress.toNat, address_nic, houi]
  omega

end NvramInfo

/-! ### Marks -/

namespace NvramInfo

theorem setInUse_slot (s : NvramInfo) (i j : Nat) (inUse : UInt8) :
    (s.setInUse i inUse).macAddrs[j]? =
      s.macAddrs[j]?.map fun pMai => if i = j then { pMai with chInUse := inUse } else pMai := by
  simp only [setInUse, List.getElem?_modify, map_eq_map]

theorem setInUse_firstAt {s : NvramInfo} {ulId : BitVec 32} {i : Nat}
    (h : FirstAt (Matches ulId) s.macAddrs i) (k : Nat) (inUse : UInt8) :
    FirstAt (Matches ulId) (s.setInUse k inUse).macAddrs i := by
  apply h.modify
  intro pMai
  rfl

end NvramInfo

theorem Call.apply_block (call : Call) (s : NvramInfo) :
    (call.apply s).ucaBaseMacAddr = s.ucaBaseMacAddr ∧
      (call.apply s).ulNumMacAddrs = s.ulNumMacAddrs := by
  have hmark (i : Nat) (inUse : UInt8) :
      (s.setInUse i inUse).ulNumMacAddrs = s.ulNumMacAddrs := List.length_modify _ _ _
  cases call with
  | get ulId =>
    simp only [Call.apply]
    rcases kerSysGetMacAddress_cases s ulId with
      ⟨i, _, hget⟩ | ⟨i, _, _, _, _, hget⟩ | ⟨_, _, hget⟩
    · rw [hget]
      exact ⟨rfl, hmark i 1⟩
    · rw [hget]
      exact ⟨rfl, List.length_set⟩
    · rw [hget]
      exact ⟨rfl, rfl⟩
  | release a =>
    simp only [Call.apply]
    rcases kerSysReleaseMacAddress_cases s a with ⟨_, _, _, hrel⟩ | ⟨_, hrel⟩
    · rw [hrel]
      exact ⟨rfl, hmark _ 0⟩
    · rw [hrel]
      exact ⟨rfl, rfl⟩

end EchoLife.Board

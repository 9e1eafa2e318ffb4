import EchoLife.Board.MacAddress

/-!
Who holds which MAC address: the driver of `MacAddress` beside a ledger of the
addresses its callers got and have not released.
-/

namespace EchoLife.Board

open List Option Run Slots

structure Session where
  info : NvramInfo
  held : List (BitVec 32 × MacAddress)
deriving DecidableEq, Repr

def Session.settle (s : Session) : Call → List (BitVec 32 × MacAddress)
  | .get ulId =>
    match (kerSysGetMacAddress s.info ulId).2 with
    | .ok a => (ulId, a) :: s.held
    | .error _ => s.held
  | .release a =>
    match (kerSysReleaseMacAddress s.info a).2 with
    | .ok _ => s.held.filter fun entry => entry.2 ≠ a
    | .error _ => s.held

def Session.step (call : Call) (s : Session) : Session where
  info := call.apply s.info
  held := s.settle call

def NvramInfo.Available (s : NvramInfo) (a : MacAddress) : Prop :=
  ∃ i pMai, s.macAddrs[i]? = some pMai ∧ pMai.chInUse = 0 ∧ s.address i = a

structure Session.Sound (s : Session) : Prop where
  distinct : ∀ ulId other a, ulId ≠ macAddressAny → other ≠ macAddressAny →
    (ulId, a) ∈ s.held → (other, a) ∈ s.held → ulId = other
  again : ∀ ulId a, (ulId, a) ∈ s.held → (kerSysGetMacAddress s.info ulId).2 = .ok a
  released : ∀ ulId a, (ulId, a) ∈ s.held →
    (kerSysReleaseMacAddress s.info a).2 = .ok () ∧ (kerSysReleaseMacAddress s.info a).1.Available a

def NvramInfo.Backs (s : NvramInfo) (ulId : BitVec 32) (a : MacAddress) : Prop :=
  ∃ i pMai, FirstAt (Matches ulId) s.macAddrs i ∧ s.macAddrs[i]? = some pMai ∧
    pMai.chInUse = 1 ∧ s.address i = a

namespace NvramInfo

variable {s : NvramInfo} {ulId : BitVec 32} {a : MacAddress}

theorem Backs.setInUse (h : s.Backs ulId a) (k : Nat) : (s.setInUse k 1).Backs ulId a := by
  obtain ⟨i, pMai, hfirst, hslot, huse, haddr⟩ := h
  refine ⟨i, if k = i then { pMai with chInUse := 1 } else pMai,
    setInUse_firstAt hfirst k 1, ?_, ?_, haddr⟩
  · rw [setInUse_slot, hslot]
    rfl
  · split
    · rfl
    · exact huse

theorem Backs.free {s : NvramInfo} {ulId : BitVec 32} (h : s.Backs ulId a) {k : Nat}
    (hne : s.address k ≠ a) : (s.setInUse k 0).Backs ulId a := by
  obtain ⟨i, pMai, hfirst, hslot, huse, haddr⟩ := h
  have hki : k ≠ i := by
    rintro rfl
    exact hne haddr
  refine ⟨i, pMai, setInUse_firstAt hfirst k 0, ?_, huse, haddr⟩
  rw [setInUse_slot, hslot]
  simp only [map_some, if_neg hki]

variable {other : BitVec 32} {pMai : MacAddrInfo}

theorem Backs.assign (h : s.Backs ulId a) {k : Nat}
    (hnone : ∀ entry ∈ s.macAddrs, ¬ Matches other entry) (hslot : s.macAddrs[k]? = some pMai)
    (hfree : pMai.chInUse = 0) : (s.assign k other).Backs ulId a := by
  obtain ⟨i, held, hfirst, hheld, huse, haddr⟩ := h
  have hki : k ≠ i := by
    rintro rfl
    rw [hslot, some_inj] at hheld
    subst hheld
    rw [hfree] at huse
    exact absurd huse (by decide)
  -- A slot answers `ulId` already, so the new entry is for another id.
  have hother : k < i → ¬ Matches ulId { ulId := other, chInUse := 1 } := by
    rintro hbefore (rfl | hany)
    · obtain ⟨entry, hmem, hmatch⟩ := hfirst.exists_mem
      exact hnone entry hmem hmatch
    · exact hfirst.2 k hbefore pMai hslot (.inr hany)
  refine ⟨i, held, hfirst.set_other hki hother, ?_, huse, haddr⟩
  simp only [NvramInfo.assign, getElem?_set_ne hki, hheld]

private theorem backs_setInUse {i : Nat} (h : FirstAt (Matches ulId) s.macAddrs i) :
    (s.setInUse i 1).Backs ulId (s.address i) := by
  obtain ⟨⟨pMai, hslot, _⟩, _⟩ := id h
  refine ⟨i, { pMai with chInUse := 1 }, setInUse_firstAt h i 1, ?_, rfl, rfl⟩
  rw [setInUse_slot, hslot]
  simp only [map_some, if_true]

private theorem backs_assign {i : Nat} (hnone : ∀ entry ∈ s.macAddrs, ¬ Matches ulId entry)
    (hslot : s.macAddrs[i]? = some pMai) : (s.assign i ulId).Backs ulId (s.address i) := by
  have hlt := (List.getElem?_eq_some_iff.mp hslot).1
  exact ⟨i, { ulId, chInUse := 1 }, firstAt_set_fresh hnone hlt (.inl rfl),
    getElem?_set_self hlt, rfl, rfl⟩

theorem Backs.get {s : NvramInfo} {ulId : BitVec 32}
    (h : s.Backs ulId a) : (kerSysGetMacAddress s ulId).2 = .ok a := by
  obtain ⟨i, pMai, hfirst, hslot, huse, haddr⟩ := h
  obtain ⟨entry, hmem, hmatch⟩ := hfirst.exists_mem
  rcases kerSysGetMacAddress_cases s ulId with ⟨j, hj, hget⟩ | ⟨_, _, hnone, _⟩ | ⟨hnone, _⟩
  · rw [hget, hj.unique hfirst, haddr]
  · exact absurd hmatch (hnone entry hmem)
  · exact absurd hmatch (hnone entry hmem)

theorem Backs.release (h : s.Backs ulId a)
    (hfits : s.ucaBaseMacAddr.nic.toNat + s.ulNumMacAddrs ≤ 2 ^ 24) :
    (kerSysReleaseMacAddress s a).2 = .ok () ∧ (kerSysReleaseMacAddress s a).1.Available a := by
  obtain ⟨i, pMai, hfirst, hslot, huse, rfl⟩ := h
  have hlt : i < s.ulNumMacAddrs := hfirst.lt_length
  have hidx : s.ulIdx (s.address i) = i := ulIdx_address (by omega)
  rcases kerSysReleaseMacAddress_cases s (s.address i) with ⟨_, _, _, hrel⟩ | ⟨hnot, _⟩
  · rw [hrel, hidx]
    refine ⟨rfl, i, { pMai with chInUse := 0 }, ?_, rfl, rfl⟩
    rw [setInUse_slot, hslot]
    simp only [map_some, if_true]
  · rw [hidx] at hnot
    exact absurd huse (hnot pMai hslot)

theorem Backs.distinct (hnum : s.ulNumMacAddrs ≤ 2 ^ 24) (hany : ulId ≠ macAddressAny)
    (hother : other ≠ macAddressAny) (h : s.Backs ulId a) (h' : s.Backs other a) :
    ulId = other := by
  obtain ⟨i, _, hfirst, _, _, haddr⟩ := h
  obtain ⟨j, _, hfirst', _, _, haddr'⟩ := h'
  have hi : i < s.ulNumMacAddrs := hfirst.lt_length
  have hj : j < s.ulNumMacAddrs := hfirst'.lt_length
  have hij : i = j := address_inj (by omega) (by omega) (haddr.trans haddr'.symm)
  subst hij
  obtain ⟨⟨entry, hslot, hmatch⟩, _⟩ := hfirst
  obtain ⟨⟨entry', hslot', hmatch'⟩, _⟩ := hfirst'
  rw [hslot, some_inj] at hslot'
  subst hslot'
  rcases hmatch with hid | hid
  · rcases hmatch' with hid' | hid'
    · exact hid.trans hid'.symm
    · exact absurd hid' hother
  · exact absurd hid hany

end NvramInfo

/-- A release names an address with the first three bytes of the block. -/
def Call.Own (base : MacAddress) : Call → Prop
  | .get _ => True
  | .release a => a.oui = base.oui

instance (base : MacAddress) (call : Call) : Decidable (call.Own base) :=
  match call with
  | .get _ => inferInstanceAs (Decidable True)
  | .release _ => inferInstanceAs (Decidable (_ = _))

def Session.Backed (s : Session) : Prop :=
  ∀ ulId a, (ulId, a) ∈ s.held → s.info.Backs ulId a

theorem Session.Backed.get {s : Session} (h : s.Backed) (ulId : BitVec 32) :
    (Session.step (.get ulId) s).Backed := by
  simp only [Session.step, Session.settle, Call.apply]
  rcases kerSysGetMacAddress_cases s.info ulId with
    ⟨i, hfirst, hget⟩ | ⟨i, pMai, hnone, hslot, htake, hget⟩ | ⟨_, _, hget⟩
  · rw [hget]
    intro other a hmem
    rcases mem_cons.mp hmem with heq | hmem
    · cases heq
      exact NvramInfo.backs_setInUse hfirst
    · exact (h other a hmem).setInUse i
  · rw [hget]
    intro other a hmem
    rcases mem_cons.mp hmem with heq | hmem
    · cases heq
      exact NvramInfo.backs_assign hnone hslot
    · exact (h other a hmem).assign hnone hslot htake.1
  · rw [hget]
    exact h

/-- The slot that a release frees is that of the address that leaves the ledger. -/
theorem Session.Backed.release {s : Session} (h : s.Backed) {a : MacAddress}
    (hown : a.oui = s.info.ucaBaseMacAddr.oui) : (Session.step (.release a) s).Backed := by
  simp only [Session.step, Session.settle, Call.apply]
  rcases kerSysReleaseMacAddress_cases s.info a with ⟨_, _, _, hrel⟩ | ⟨_, hrel⟩
  · rw [hrel]
    intro ulId other hmem
    obtain ⟨hheld, hne⟩ := mem_filter.mp hmem
    apply (h ulId other hheld).free
    rw [NvramInfo.address_ulIdx hown]
    exact Ne.symm (of_decide_eq_true hne)
  · rw [hrel]
    exact h

/-- The invariant of a run: the block does not move and the ledger is backed. -/
theorem Session.run_backed {start : NvramInfo} {calls : List Call}
    (hown : ∀ call ∈ calls, call.Own start.ucaBaseMacAddr) :
    (run Session.step calls ⟨start, []⟩).Backed ∧
      (run Session.step calls ⟨start, []⟩).info.ucaBaseMacAddr = start.ucaBaseMacAddr ∧
      (run Session.step calls ⟨start, []⟩).info.ulNumMacAddrs = start.ulNumMacAddrs := by
  apply run_invariant (P := fun s : Session => s.Backed ∧
    s.info.ucaBaseMacAddr = start.ucaBaseMacAddr ∧
    s.info.ulNumMacAddrs = start.ulNumMacAddrs)
  · intro call hcall s ⟨hbacked, hbase, hnum⟩
    have hblock := call.apply_block s.info
    refine ⟨?_, hblock.1.trans hbase, hblock.2.trans hnum⟩
    cases call with
    | get ulId => exact hbacked.get ulId
    | release a =>
      have hoke := hown (.release a) hcall
      exact hbacked.release (hbase ▸ hoke)
  · exact ⟨fun _ _ hmem => absurd hmem (not_mem_nil), rfl, rfl⟩

/-- Whatever the table holds at the start: while the last three bytes of the block do not wrap and
no release names another block, the callers get what they rely on. -/
theorem mac_addresses_sound (start : NvramInfo)
    (hfits : start.ucaBaseMacAddr.nic.toNat + start.ulNumMacAddrs ≤ 2 ^ 24)
    (calls : List Call) (hown : ∀ call ∈ calls, call.Own start.ucaBaseMacAddr) :
    (run Session.step calls ⟨start, []⟩).Sound := by
  obtain ⟨hbacked, hbase, hnum⟩ := Session.run_backed hown
  constructor
  · intro ulId other a hany hother hheld hheld'
    exact (hbacked ulId a hheld).distinct (by omega) hany hother (hbacked other a hheld')
  · intro ulId a hheld
    exact (hbacked ulId a hheld).get
  intro ulId a hheld
  apply (hbacked ulId a hheld).release
  rw [hbase, hnum]
  exact hfits

/-- Two callers, one of them releasing and asking again. -/
theorem block_shared_soundly :
    (run Session.step [.get 1, .get 7, .release ⟨0x00E0FC, 1⟩, .get 1]
      ⟨⟨⟨0x00E0FC, 0⟩, bootTable (fun _ => 0xFF) 6⟩, []⟩).Sound :=
  mac_addresses_sound ⟨⟨0x00E0FC, 0⟩, bootTable (fun _ => 0xFF) 6⟩ (by decide) _ (by decide)

/-- The address after `FF:FF:FF` ends with `00:00:00`, which a release does not find. And a
release of a foreign address frees the slot of a caller, whose address the next one gets. -/
theorem wrapped_and_foreign_releases :
    (∃ start, initNvramInfo (some fun _ => 0) ⟨0x00E0FC, 0xFFFFFF⟩ 6 = some start ∧
      ¬ (run Session.step [.get 1] ⟨start, []⟩).Sound) ∧
    ∃ start, initNvramInfo (some fun _ => 0) ⟨0x00E0FC, 0⟩ 2 = some start ∧
      ¬ (run Session.step [.get 1, .release ⟨0x021018, 1⟩, .get 7] ⟨start, []⟩).Sound := by
  constructor
  · refine ⟨_, rfl, ?_⟩
    intro hsound
    have hreleased := (hsound.released 1 ⟨0x00E0FC, 0⟩ (by decide +kernel)).1
    exact absurd hreleased (by decide +kernel)
  · refine ⟨_, rfl, ?_⟩
    intro hsound
    have hsame := hsound.distinct 1 7 ⟨0x00E0FC, 1⟩ (by decide) (by decide)
    exact absurd hsame (by decide)

end EchoLife.Board

import EchoLife.Board.MacAddress

/-!
Reserved MAC addresses: an id that carries index `k` in its top byte is meant to get
the address `base + k`. The driver takes the reserved slots at boot under ids of its
own.
-/

namespace EchoLife.Board

open Buffer List Option Run Slots Word

/-- The request is answered with the address `base + k`. -/
def NvramInfo.Obtains (s : NvramInfo) (ulId : BitVec 32) (k : Nat) : Prop :=
  ∃ a, (kerSysGetMacAddress s ulId).2 = .ok a ∧ a.toNat = s.ucaBaseMacAddr.toNat + k

/-- Slot `k` is recorded for the id, or it is free and no slot is recorded for it. -/
def NvramInfo.OpenFor (s : NvramInfo) (ulId : BitVec 32) (k : Nat) : Prop :=
  FirstAt (Matches ulId) s.macAddrs k ∨
    (∀ other ∈ s.macAddrs, ¬ Matches ulId other) ∧
      ∃ pMai, s.macAddrs[k]? = some pMai ∧ pMai.chInUse = 0

def IsReserved (k : Nat) : Prop :=
  k = 0 ∨ k = 2 ∨ k = 3 ∨ k = 4 ∨ k = 5

variable {ulId : BitVec 32} {k num : Nat}

private theorem reservedId_isReserved (h : reservedId ulId ≠ noReserveMac) :
    IsReserved (reservedId ulId) := by
  unfold IsReserved
  rcases Decidable.em (ulId &&& reserveMacMask = reserveMacMask) with hmask | hmask
  · exact .inl (if_pos hmask)
  simp only [reservedId, if_neg hmask] at h ⊢
  split at h
  · exact absurd rfl h
  next hother =>
    rw [if_neg hother]
    omega

theorem eligible_iff {reserved i : Nat} (h : reserved ≠ noReserveMac) :
    eligible reserved i = true ↔ i = reserved := by
  simp only [eligible, h, decide_false, Bool.false_or, decide_eq_true_eq]

variable {s : NvramInfo} {heap : Nat → UInt8}

private theorem obtains_iff (hk : reservedId ulId = k) (hreserved : k ≠ noReserveMac)
    (hlt : k < s.ulNumMacAddrs) (hnum : s.ulNumMacAddrs ≤ 2 ^ 24) :
    s.Obtains ulId k ↔ s.ucaBaseMacAddr.nic.toNat + k < 2 ^ 24 ∧ s.OpenFor ulId k := by
  have hanswer (i : Nat) (hi : i < s.ulNumMacAddrs)
      (hget : (kerSysGetMacAddress s ulId).2 = .ok (s.address i)) :
      s.Obtains ulId k ↔ i = k ∧ s.ucaBaseMacAddr.nic.toNat + k < 2 ^ 24 := by
    unfold NvramInfo.Obtains
    rw [hget]
    constructor
    · rintro ⟨a, ha, hsum⟩
      cases ha
      exact (NvramInfo.address_toNat_iff (by omega) (by omega)).mp hsum
    · intro h
      exact ⟨s.address i, rfl, (NvramInfo.address_toNat_iff (by omega) (by omega)).mpr h⟩
  rcases kerSysGetMacAddress_cases s ulId with
    ⟨i, hfirst, hget⟩ | ⟨i, pMai, hnone, hslot, htake, hget⟩ | ⟨hnone, hnot, hget⟩
  · rw [hanswer i hfirst.lt_length (by rw [hget])]
    obtain ⟨entry, hmem, hmatch⟩ := hfirst.exists_mem
    constructor
    · rintro ⟨rfl, hfits⟩
      exact ⟨hfits, .inl hfirst⟩
    · rintro ⟨hfits, hopen | ⟨hnone, _⟩⟩
      · exact ⟨hfirst.unique hopen, hfits⟩
      · exact absurd hmatch (hnone entry hmem)
  · have hik : i = k := (eligible_iff hreserved).mp (hk ▸ htake.2)
    subst hik
    rw [hanswer i hlt (by rw [hget])]
    constructor
    · rintro ⟨_, hfits⟩
      exact ⟨hfits, .inr ⟨hnone, pMai, hslot, htake.1⟩⟩
    · rintro ⟨hfits, _⟩
      exact ⟨rfl, hfits⟩
  · constructor
    · rintro ⟨a, ha, _⟩
      rw [hget] at ha
      cases ha
    · rintro ⟨_, hopen | ⟨_, pMai, hslot, hfree⟩⟩
      · obtain ⟨entry, hmem, hmatch⟩ := hopen.exists_mem
        exact absurd hmatch (hnone entry hmem)
      · exact absurd ⟨hfree, (eligible_iff (hk ▸ hreserved)).mpr hk.symm⟩ (hnot k pMai hslot)

/-! ### The slot a run leaves alone -/

/-- A request with another reserved index or none, or the release of another address. -/
def Call.Spares (base : MacAddress) (k : Nat) : Call → Prop
  | .get ulId => reservedId ulId ≠ k
  | .release a => a.nic.toNat ≠ base.nic.toNat + k

instance (base : MacAddress) (k : Nat) (call : Call) : Decidable (call.Spares base k) :=
  match call with
  | .get _ => inferInstanceAs (Decidable (_ ≠ _))
  | .release _ => inferInstanceAs (Decidable (_ ≠ _))

def NvramInfo.Keeps (s : NvramInfo) (ulId : BitVec 32) (k : Nat) : Prop :=
  FirstAt (Matches ulId) s.macAddrs k ∧ ∃ pMai, s.macAddrs[k]? = some pMai ∧ pMai.chInUse = 1

section

variable (hk : reservedId ulId = k) (hreserved : IsReserved k)
include hk hreserved

/-- The step lemma: calls of others leave a slot that is in use with its id. -/
theorem NvramInfo.Keeps.apply (h : s.Keeps ulId k) {call : Call}
    (hspares : call.Spares s.ucaBaseMacAddr k) : (call.apply s).Keeps ulId k := by
  obtain ⟨hfirst, pMai, hslot, huse⟩ := h
  cases call with
  | get other =>
    simp only [Call.apply]
    rcases kerSysGetMacAddress_cases s other with
      ⟨i, _, hget⟩ | ⟨i, entry, _, hentry, htake, hget⟩ | ⟨_, _, hget⟩
    · rw [hget]
      refine ⟨NvramInfo.setInUse_firstAt hfirst i 1,
        if i = k then { pMai with chInUse := 1 } else pMai, ?_, ?_⟩
      · rw [NvramInfo.setInUse_slot, hslot]
        rfl
      · split
        · rfl
        · exact huse
    · have hik : i ≠ k := by
        rintro rfl
        rw [hslot, some_inj] at hentry
        subst hentry
        exact absurd (htake.1.symm.trans huse) (by decide)
      rw [hget]
      refine ⟨hfirst.set_other hik ?_, pMai, ?_, huse⟩
      · rintro hbefore (rfl | hany)
        · exact hspares hk
        · exact hfirst.2 i hbefore entry hentry (.inr hany)
      · simp only [NvramInfo.assign, getElem?_set_ne hik, hslot]
    · rw [hget]
      exact ⟨hfirst, pMai, hslot, huse⟩
  | release a =>
    simp only [Call.apply]
    rcases kerSysReleaseMacAddress_cases s a with ⟨_, _, _, hrel⟩ | ⟨_, hrel⟩
    · have hne : s.ulIdx a ≠ k := by
        intro hidx
        apply hspares
        unfold IsReserved at hreserved
        simp only [NvramInfo.ulIdx, u32] at hidx
        omega
      rw [hrel]
      refine ⟨NvramInfo.setInUse_firstAt hfirst _ 0, pMai, ?_, huse⟩
      rw [NvramInfo.setInUse_slot, hslot]
      simp only [map_some, if_neg hne]
    · rw [hrel]
      exact ⟨hfirst, pMai, hslot, huse⟩

theorem NvramInfo.Keeps.run {s : NvramInfo} (h : s.Keeps ulId k)
    {calls : List Call} (hspares : ∀ call ∈ calls, call.Spares s.ucaBaseMacAddr k) :
    (run Call.apply calls s).Keeps ulId k := by
  have hinv : (Run.run Call.apply calls s).Keeps ulId k ∧
      (Run.run Call.apply calls s).ucaBaseMacAddr = s.ucaBaseMacAddr := by
    apply run_invariant (P := fun t : NvramInfo =>
      t.Keeps ulId k ∧ t.ucaBaseMacAddr = s.ucaBaseMacAddr)
    · intro call hcall t ⟨hkeeps, hbase⟩
      refine ⟨hkeeps.apply hk hreserved ?_, (call.apply_block t).1.trans hbase⟩
      rw [hbase]
      exact hspares call hcall
    · exact ⟨h, rfl⟩
  exact hinv.1

end

/-! ### Boot -/

theorem reservedId_bootId (h : IsReserved k) : reservedId (bootId k) = k := by
  rcases h with rfl | rfl | rfl | rfl | rfl <;> rfl

theorem bootId_facts (h : IsReserved k) : bootId k ≠ 0 ∧ bootId k ≠ macAddressAny := by
  rcases h with rfl | rfl | rfl | rfl | rfl <;> decide

private theorem mem_bootSlots {i : Nat} : i ∈ bootSlots num ↔ i < num ∧ IsReserved i := by
  simp only [bootSlots, mem_filter, mem_range, decide_eq_true_eq, IsReserved]

private theorem bootTable_slot {i : Nat} (h : i < num) :
    (bootTable heap num)[i]? = some (infoAt (fill heap 0 (8 + 7 * num) 0) i) := by
  simp only [bootTable, getElem?_map, getElem?_range h, map_some]

private theorem bootTable_reserved (hlt : k < num) (hreserved : IsReserved k) :
    (bootTable heap num)[k]? = some { ulId := 0, chInUse := 0 } := by
  have hzero (d : Nat) (hd : d < 8) : fill heap 0 (8 + 7 * num) 0 (8 * k + d) = 0 := by
    apply fill_inside
    · omega
    · unfold IsReserved at hreserved
      omega
  have hid := be32_eq_zero fun d hd => hzero d (by omega)
  rw [bootTable_slot hlt]
  simp only [infoAt, hid, hzero 4 (by omega)]
  rfl

/-- Before the boot loop comes to slot `k`: it is as it was cleared, and no slot has its id. -/
structure NvramInfo.Awaits (s : NvramInfo) (k : Nat) : Prop where
  slot : s.macAddrs[k]? = some { ulId := 0, chInUse := 0 }
  fresh : ∀ pMai ∈ s.macAddrs, pMai.ulId ≠ bootId k

theorem NvramInfo.Awaits.turn {j : Nat} (h : s.Awaits k) (hk : IsReserved k) (hj : IsReserved j)
    (hne : j ≠ k) : ((Call.get (bootId j)).apply s).Awaits k := by
  have hids : bootId j ≠ bootId k := by
    intro hsame
    apply hne
    rw [← reservedId_bootId hj, hsame, reservedId_bootId hk]
  obtain ⟨hzero, hany⟩ := bootId_facts hj
  simp only [Call.apply]
  rcases kerSysGetMacAddress_cases s (bootId j) with
    ⟨i, hfirst, hget⟩ | ⟨i, entry, _, hentry, htake, hget⟩ | ⟨_, _, hget⟩
  · have hik : i ≠ k := by
      rintro rfl
      obtain ⟨⟨pMai, hslot, hmatch⟩, _⟩ := hfirst
      rw [h.slot, some_inj] at hslot
      subst hslot
      rcases hmatch with hid | hid
      · exact hzero hid
      · exact hany hid
    rw [hget]
    constructor
    · rw [NvramInfo.setInUse_slot, h.slot]
      simp only [map_some, if_neg hik]
    intro pMai hmem
    obtain ⟨m, hslot⟩ := mem_iff_getElem?.mp hmem
    rw [NvramInfo.setInUse_slot, map_eq_some_iff] at hslot
    obtain ⟨before, hbefore, rfl⟩ := hslot
    have hfresh := h.fresh before (mem_of_getElem? hbefore)
    split
    · exact hfresh
    · exact hfresh
  · have hij : i = j := by
      have helig := htake.2
      rw [reservedId_bootId hj] at helig
      apply (eligible_iff _).mp helig
      unfold IsReserved at hj
      unfold noReserveMac
      omega
    subst hij
    rw [hget]
    constructor
    · simp only [NvramInfo.assign, getElem?_set_ne hne, h.slot]
    intro pMai hmem
    rcases mem_or_eq_of_mem_set hmem with hmem | rfl
    · exact h.fresh pMai hmem
    · exact hids
  · rw [hget]
    exact h

theorem NvramInfo.Awaits.taken (h : s.Awaits k) (hk : IsReserved k) :
    ((Call.get (bootId k)).apply s).Keeps (bootId k) k := by
  have hreserved : k ≠ noReserveMac := by
    unfold IsReserved at hk
    unfold noReserveMac
    omega
  have hnone : ∀ pMai ∈ s.macAddrs, ¬ Matches (bootId k) pMai := by
    rintro pMai hmem (hid | hid)
    · exact h.fresh pMai hmem hid.symm
    · exact (bootId_facts hk).2 hid
  have hlt := (List.getElem?_eq_some_iff.mp h.slot).1
  simp only [Call.apply]
  rcases kerSysGetMacAddress_cases s (bootId k) with
    ⟨i, hfirst, _⟩ | ⟨i, entry, _, _, htake, hget⟩ | ⟨_, hnot, _⟩
  · obtain ⟨pMai, hmem, hmatch⟩ := hfirst.exists_mem
    exact absurd hmatch (hnone pMai hmem)
  · have hik : i = k := by
      have helig := htake.2
      rw [reservedId_bootId hk] at helig
      exact (eligible_iff hreserved).mp helig
    subst hik
    rw [hget]
    exact ⟨firstAt_set_fresh hnone hlt (.inl rfl), _, getElem?_set_self hlt, rfl⟩
  · refine absurd ⟨rfl, ?_⟩ (hnot k _ h.slot)
    rw [reservedId_bootId hk]
    exact (eligible_iff hreserved).mpr rfl

theorem run_block (calls : List Call) (s : NvramInfo) :
    (run Call.apply calls s).ucaBaseMacAddr = s.ucaBaseMacAddr ∧
      (run Call.apply calls s).ulNumMacAddrs = s.ulNumMacAddrs :=
  ⟨run_observe (f := NvramInfo.ucaBaseMacAddr) (fun call _ t => (call.apply_block t).1) s,
    run_observe (f := NvramInfo.ulNumMacAddrs) (fun call _ t => (call.apply_block t).2) s⟩

private theorem initNvramInfo_block {base : MacAddress}
    (hboot : initNvramInfo (some heap) base num = some s) :
    num ≤ nvramMacCountMax ∧ s.ucaBaseMacAddr = base ∧ s.ulNumMacAddrs = num := by
  unfold initNvramInfo at hboot
  split at hboot
  next hrange =>
    rw [map_some, some_inj] at hboot
    subst hboot
    have hblock := run_block ((bootSlots num).map fun i => Call.get (bootId i))
      ⟨base, bootTable heap num⟩
    refine ⟨hrange.2, hblock.1, hblock.2.trans ?_⟩
    simp only [NvramInfo.ulNumMacAddrs, bootTable, length_map, length_range]
  · cases hboot

/-- After boot the driver has slot `k` under its own id, unless memory behind the cleared bytes
held that id. -/
theorem initNvramInfo_keeps {base : MacAddress}
    (hboot : initNvramInfo (some heap) base num = some s) (hk : IsReserved k) (hlt : k < num)
    (hstale : ∀ pMai ∈ bootTable heap num, pMai.ulId ≠ bootId k) : s.Keeps (bootId k) k := by
  have hmem : k ∈ bootSlots num := mem_bootSlots.mpr ⟨hlt, hk⟩
  have hnodup : (bootSlots num).Nodup := nodup_range.filter _
  obtain ⟨first, second, hsplit⟩ := append_of_mem hmem
  rw [hsplit] at hnodup
  obtain ⟨hfirst, hsecond⟩ : k ∉ first ∧ k ∉ second := by
    rw [nodup_append, nodup_cons] at hnodup
    exact ⟨fun h => hnodup.2.2 k h k mem_cons_self rfl, hnodup.2.1.1⟩
  have hreserved (j : Nat) (hj : j ∈ first ++ k :: second) : IsReserved j :=
    (mem_bootSlots.mp (hsplit ▸ hj)).2
  unfold initNvramInfo at hboot
  split at hboot
  · rw [map_some, some_inj, hsplit, map_append, map_cons, run_append, run_cons] at hboot
    subst hboot
    have hawaits : (run Call.apply (first.map fun i => Call.get (bootId i))
        ⟨base, bootTable heap num⟩).Awaits k := by
      apply run_invariant (P := fun t : NvramInfo => t.Awaits k)
      · intro call hcall t ht
        obtain ⟨j, hj, rfl⟩ := mem_map.mp hcall
        exact ht.turn hk (hreserved j (mem_append_left _ hj)) (fun h => hfirst (h ▸ hj))
      · exact ⟨bootTable_reserved hlt hk, hstale⟩
    apply (hawaits.taken hk).run (reservedId_bootId hk) hk
    intro call hcall
    obtain ⟨j, hj, rfl⟩ := mem_map.mp hcall
    have hreservedj := hreserved j (mem_append_right _ (mem_cons_of_mem _ hj))
    intro hsame
    rw [reservedId_bootId hreservedj] at hsame
    exact hsecond (hsame ▸ hj)
  · cases hboot

/-- In any state reached after boot, a request by an id with reserved index `k` obtains `base + k`
exactly if the slot is open for it and the address does not wrap. For the id of the boot it stays
so while all calls are requests with other indices and releases of other addresses. -/
theorem reserved_address_iff (heap : Nat → UInt8) (base : MacAddress) (num : Nat)
    (start : NvramInfo) (hboot : initNvramInfo (some heap) base num = some start)
    (ulId : BitVec 32) (k : Nat) (hk : reservedId ulId = k) (hreserved : k ≠ noReserveMac)
    (hlt : k < num) (calls : List Call) :
    ((run Call.apply calls start).Obtains ulId k ↔
      base.nic.toNat + k < 2 ^ 24 ∧ (run Call.apply calls start).OpenFor ulId k) ∧
    (base.nic.toNat + k < 2 ^ 24 → ulId = bootId k →
      (∀ pMai ∈ bootTable heap num, pMai.ulId ≠ ulId) →
      (∀ call ∈ calls, call.Spares base k) → (run Call.apply calls start).Obtains ulId k) := by
  obtain ⟨hmax, hbase, hnum⟩ := initNvramInfo_block hboot
  unfold nvramMacCountMax at hmax
  have hafter := run_block calls start
  have hiff := obtains_iff (s := run Call.apply calls start) hk hreserved
    (by rw [hafter.2, hnum]; exact hlt) (by rw [hafter.2, hnum]; omega)
  rw [hafter.1, hbase] at hiff
  have hisReserved : IsReserved k := by
    rw [← hk] at hreserved ⊢
    exact reservedId_isReserved hreserved
  refine ⟨hiff, ?_⟩
  rintro hfits rfl hstale hspares
  have hkeeps := initNvramInfo_keeps hboot hisReserved hlt hstale
  rw [← hbase] at hspares
  exact hiff.mpr ⟨hfits, .inl (hkeeps.run hk hisReserved hspares).1⟩

theorem bootTable_unrecorded (hnum : num ≤ 12) : ∀ pMai ∈ bootTable heap num, pMai.ulId = 0 := by
  intro pMai hmem
  obtain ⟨i, hi, rfl⟩ := mem_map.mp hmem
  have hlt := mem_range.mp hi
  have hid : be32 (fill heap 0 (8 + 7 * num) 0) (8 * i) = 0 :=
    be32_eq_zero fun d hd => fill_inside _ _ (by omega) (by omega)
  simp only [infoAt, hid]
  rfl

/-- The boot id of slot 2 gets its address after another caller came and went. -/
theorem reserved_two_obtained :
    ∃ start, initNvramInfo (some fun _ => 0xFF) ⟨0x00E0FC, 0⟩ 6 = some start ∧
      (run Call.apply [.get 1, .release ⟨0x00E0FC, 1⟩, .get 7] start).Obtains (bootId 2) 2 := by
  refine ⟨_, rfl, ?_⟩
  apply (reserved_address_iff (fun _ => 0xFF) ⟨0x00E0FC, 0⟩ 6 _ rfl (bootId 2) 2 rfl
    (by decide) (by decide) [.get 1, .release ⟨0x00E0FC, 1⟩, .get 7]).2 (by decide) rfl
  · intro pMai hmem
    rw [bootTable_unrecorded (by decide) pMai hmem]
    decide
  · decide

/-- Another id with index 2 finds the slot in use right after boot. Once it is released, an id
without a reserved index can take it from the boot id. -/
theorem reserved_two_refused :
    ∃ start, initNvramInfo (some fun _ => 0) ⟨0x00E0FC, 0⟩ 6 = some start ∧
      reservedId 0x02000001 = 2 ∧ ¬ start.Obtains 0x02000001 2 ∧
      ¬ (run Call.apply [.get 1, .release ⟨0x00E0FC, 2⟩, .get 7] start).Obtains (bootId 2) 2 := by
  refine ⟨_, rfl, rfl, ?_, ?_⟩
  · rintro ⟨a, hget, _⟩
    cases hget
  · rintro ⟨a, hget, _⟩
    cases hget

end EchoLife.Board

import EchoLife.Access.Limit
import EchoLife.Access.Removal

/-!
The reference counts of the device objects. Between two events the count should be the number of
lists the object is in, and one more for a pending lifetime timer, and an object in no list should
have been freed once. `ipacc_add2crnt` keeps the reference it takes from the allowed list, the
branch for a static address keeps one more, and an object that was never registered is not marked
dirty. The law holds along the runs that avoid these.
-/

namespace EchoLife.Access

open Buckets Function List Option Run

def lists (s : State) (id : Nat) : Nat :=
  (if id ∈ entries s.allowDevs then 1 else 0) + if id ∈ entries s.crntDevs then 1 else 0

structure Lawful (s : State) : Prop where
  refcnt : ∀ id < s.next, id ∉ s.freed →
    (s.devs id).refcnt = lists s id + if (s.devs id).timer then 1 else 0
  freed : ∀ id < s.next, s.freed.count id = if lists s id = 0 then 1 else 0

/-- The law, and what else holds while no registered device is admitted and no current one leaves.
-/
structure Orderly (s : State) : Prop where
  sound : Sound s
  lawful : Lawful s
  crnt : ∀ id ∈ entries s.crntDevs, id ∉ entries s.allowDevs ∧
    (s.devs id).dirty = false ∧ (s.devs id).liveTime = accDevLiveAlways
  allow : ∀ id ∈ entries s.allowDevs, (s.devs id).dirty = false
  timer : ∀ id, (s.devs id).timer = false
  below : ∀ id ∈ s.freed, id < s.next

variable {s s' : State} {saddr : Addr} {n : Int} {id : Nat}

theorem lists_congr (hallow : id ∈ entries s'.allowDevs ↔ id ∈ entries s.allowDevs)
    (hcrnt : id ∈ entries s'.crntDevs ↔ id ∈ entries s.crntDevs) : lists s' id = lists s id := by
  simp only [lists, hallow, hcrnt]

private theorem lists_le (s : State) (id : Nat) : lists s id ≤ 2 := by
  unfold lists
  split <;> split <;> omega

def Device.refs (d : Device) : Int × Bool × Bool × Nat :=
  (d.refcnt, d.dirty, d.timer, d.liveTime)

section

variable (hrefs : ∀ id, (s'.devs id).refs = (s.devs id).refs) (hfreed : s'.freed = s.freed)
include hrefs hfreed

theorem Lawful.frame (h : Lawful s)
    (hlists : ∀ id, lists s' id = lists s id) (hnext : s'.next = s.next) : Lawful s' := by
  have hrefcnt (id : Nat) : (s'.devs id).refcnt = (s.devs id).refcnt :=
    congrArg Prod.fst (hrefs id)
  have htimer (id : Nat) : (s'.devs id).timer = (s.devs id).timer :=
    congrArg (fun r => r.2.2.1) (hrefs id)
  constructor
  · intro id hid hnot
    rw [hrefcnt, hlists, htimer]
    exact h.refcnt id (hnext ▸ hid) (hfreed ▸ hnot)
  · intro id hid
    rw [hfreed, hlists]
    exact h.freed id (hnext ▸ hid)

theorem Orderly.frame (h : Orderly s) (hsound : Sound s')
    (hcrnt : ∀ id, id ∈ entries s'.crntDevs ↔ id ∈ entries s.crntDevs)
    (hallow : ∀ id, id ∈ entries s'.allowDevs ↔ id ∈ entries s.allowDevs)
    (hnext : s'.next = s.next) : Orderly s' := by
  have hdirty (id : Nat) : (s'.devs id).dirty = (s.devs id).dirty :=
    congrArg (fun r => r.2.1) (hrefs id)
  have htimer (id : Nat) : (s'.devs id).timer = (s.devs id).timer :=
    congrArg (fun r => r.2.2.1) (hrefs id)
  have hlive (id : Nat) : (s'.devs id).liveTime = (s.devs id).liveTime :=
    congrArg (fun r => r.2.2.2) (hrefs id)
  have hlists (id : Nat) : lists s' id = lists s id := lists_congr (hallow id) (hcrnt id)
  refine ⟨hsound, h.lawful.frame hrefs hfreed hlists hnext, ?_, ?_, ?_, ?_⟩
  · intro id hid
    rw [hallow, hdirty, hlive]
    exact h.crnt id ((hcrnt id).mp hid)
  · intro id hid
    rw [hdirty]
    exact h.allow id ((hallow id).mp hid)
  · intro id
    rw [htimer]
    exact h.timer id
  · intro id hid
    rw [hnext]
    exact h.below id (hfreed ▸ hid)

/-- What keeps lists, counts and frees keeps the law. -/
theorem Orderly.of_view (h : Orderly s) (hview : s'.view = s.view) : Orderly s' := by
  have hcrnt : s'.crntDevs = s.crntDevs := by
    have hsame := congrArg State.crntDevs hview
    exact hsame
  have hallow : s'.allowDevs = s.allowDevs := by
    have hsame := congrArg State.allowDevs hview
    exact hsame
  have hnext : s'.next = s.next := by
    have hsame := congrArg State.next hview
    exact hsame
  refine h.frame hrefs hfreed (h.sound.of_view hview) ?_ ?_ hnext
  · intro id
    rw [hcrnt]
  · intro id
    rw [hallow]

end

variable {gone : Nat → Prop} {d : Device} {p : Packet}

section Lists
variable (h : Orderly s)
include h

theorem Orderly.not_freed (hid : id < s.next) (hlists : lists s id ≠ 0) : id ∉ s.freed := by
  have hcount := h.lawful.freed id hid
  rw [if_neg hlists] at hcount
  exact count_eq_zero.mp hcount

theorem Orderly.refcnt_allow (hid : id ∈ entries s.allowDevs) :
    (s.devs id).refcnt = 1 ∧ id ∉ s.freed := by
  have hcrnt : id ∉ entries s.crntDevs := fun hmem => (h.crnt id hmem).1 hid
  have hlists : lists s id = 1 := by
    rw [lists, if_pos hid, if_neg hcrnt]
  have hbelow := h.sound.allowBelow id hid
  have hnot := h.not_freed hbelow (by rw [hlists]; exact Nat.one_ne_zero)
  have hrefcnt := h.lawful.refcnt id hbelow hnot
  rw [hlists, h.timer id] at hrefcnt
  exact ⟨hrefcnt, hnot⟩

/-- A current device that is dropped is in no list afterwards and is not freed. -/
theorem Orderly.leak_of_drop (hdrops : Drops gone s s') (hgone : gone id) :
    id < s'.next ∧ lists s' id = 0 ∧ s'.freed.count id = 0 := by
  have hmem := hdrops.mem id hgone
  have hbelow := h.sound.crntBelow id hmem
  have hnot : id ∉ entries s'.crntDevs := fun hstill => ((hdrops.crnt id).mp hstill).2 hgone
  have hallow : id ∉ entries s'.allowDevs := by
    rw [hdrops.allow]
    exact (h.crnt id hmem).1
  have hfreed := hdrops.freed fun j hj => (h.crnt j (hdrops.mem j hj)).2.1
  refine ⟨hdrops.next.symm ▸ hbelow, ?_, ?_⟩
  · rw [lists, if_neg hallow, if_neg hnot]
  · rw [hfreed, h.lawful.freed id hbelow, lists, if_pos hmem]
    exact if_neg (Nat.succ_ne_zero _)

end Lists

theorem not_lawful_of_leak (id : Nat) (hid : id < s.next)
    (hlists : lists s id = 0) (hcount : s.freed.count id = 0) : ¬ Lawful s := by
  intro hlawful
  have hone := hlawful.freed id hid
  rw [hcount, hlists] at hone
  cases hone

/-- A count above two and the timer is unlawful, as there are two lists. -/
theorem not_lawful_of_refcnt (id : Nat) (hid : id < s.next) (hnot : id ∉ s.freed)
    (hmore : (2 + if (s.devs id).timer then 1 else 0 : Int) < (s.devs id).refcnt) : ¬ Lawful s := by
  intro hlawful
  have hrefcnt := hlawful.refcnt id hid hnot
  have hle := lists_le s id
  omega

/-! ### Events that keep the counts -/

theorem refs_setDev (hrefs : d.refs = (s.devs id).refs)
    (j : Nat) : ((s.setDev id d).devs j).refs = (s.devs j).refs := by
  by_cases hj : j = id
  · subst hj
    simp only [State.setDev, update_self, hrefs]
  · simp only [State.setDev, update_of_ne hj]

private theorem probeIdle_refs (wanted : Fin accDevtypeButt → Bool) (s : State) :
    (∀ j, ((probeIdle wanted s).devs j).refs = (s.devs j).refs) ∧
      (probeIdle wanted s).freed = s.freed := by
  unfold probeIdle
  generalize entries s.crntDevs = ids
  induction ids generalizing s with
  | nil => exact ⟨fun _ => rfl, rfl⟩
  | cons id rest ih =>
    rw [foldl_cons]
    split
    · obtain ⟨hrefs, hfreed⟩ := ih (addProbeTimer id s)
      have hprobe : Device.refs { s.devs id with probe := true } = (s.devs id).refs := rfl
      exact ⟨fun j => (hrefs j).trans (refs_setDev hprobe j), hfreed⟩
    · exact ih s

theorem kick_refs (type : Option Nat) (s : State) :
    (∀ j, ((ipaccKickIdleOutoff type s).1.devs j).refs = (s.devs j).refs) ∧
      (ipaccKickIdleOutoff type s).1.freed = s.freed := by
  cases type with
  | none => exact probeIdle_refs _ s
  | some type => exact probeIdle_refs _ s

theorem Lawful.of_kick {type : Option Nat}
    (h : Lawful (ipaccKickIdleOutoff type s).1) : Lawful s := by
  have hview := view_kick type s
  have hallow := congrArg State.allowDevs hview
  have hcrnt := congrArg State.crntDevs hview
  have hnext := congrArg State.next hview
  apply h.frame
  · exact fun id => ((kick_refs type s).1 id).symm
  · exact (kick_refs type s).2.symm
  · exact fun id => lists_congr (hallow ▸ Iff.rfl) (hcrnt ▸ Iff.rfl)
  · exact hnext.symm

section

variable (h : Orderly s)
include h

theorem Orderly.kick (type : Option Nat) : Orderly (ipaccKickIdleOutoff type s).1 :=
  h.of_view (kick_refs type s).1 (kick_refs type s).2 (view_kick type s)

/-- Giving back the reference that was taken restores the counts. -/
theorem Orderly.put {held : State} (hclean : (s.devs id).dirty = false)
    (hview : held.view = s.view) (hrefs : ∀ j, (held.devs j).refs = ((hold id s).devs j).refs)
    (hfreed : held.freed = s.freed) : Orderly (ipaccPutDev id held) := by
  have hown : (held.devs id).refs =
      ((s.devs id).refcnt + 1, (s.devs id).dirty, (s.devs id).timer, (s.devs id).liveTime) := by
    rw [hrefs id]
    simp only [hold, State.setDev, update_self, Device.refs]
  obtain ⟨hrefcnt, hdirty, htimer, hlive⟩ :
      (held.devs id).refcnt = (s.devs id).refcnt + 1 ∧ (held.devs id).dirty = false ∧
      (held.devs id).timer = (s.devs id).timer ∧
      (held.devs id).liveTime = (s.devs id).liveTime := by
    simpa [Device.refs, hclean] using hown
  refine h.of_view ?_ ?_ ((view_put id held).trans hview)
  · intro j
    by_cases hj : j = id
    · subst hj
      simp only [ipaccPutDev, State.setDev, update_self, Device.refs, hrefcnt,
        hdirty, htimer, hlive, hclean, add_sub_cancel_right]
    · simp only [ipaccPutDev, State.setDev, update_of_ne hj]
      rw [hrefs j]
      simp only [hold, State.setDev, update_of_ne hj]
  · simp only [ipaccPutDev, hdirty, Bool.false_eq_true, false_and, if_false]
    exact hfreed

theorem Orderly.spared (hspared : Spared p s) : Orderly (ipaccRestricCheck p s).1 := by
  rcases hspared with hsame | ⟨saddr, id, hfind, hput⟩
  · rw [hsame]
    exact h
  have hid := (findCrnt_some hfind).1
  obtain ⟨-, hclean, hlive⟩ := h.crnt id hid
  have hretimer : ipaccDevRetimer id (hold id s) = hold id s := by
    refine if_pos ?_
    simp only [hold, State.setDev, update_self, hlive]
  rw [hput, hretimer]
  exact h.put hclean (view_hold id s) (fun _ => rfl) rfl

theorem Orderly.probeReply (addr : Addr) : Orderly (ipaccArpProbeReply addr s) := by
  unfold ipaccArpProbeReply ipaccGetFromCrnt
  cases hfind : findCrnt addr s with
  | none => exact h
  | some id =>
    obtain ⟨-, hclean, -⟩ := h.crnt id (findCrnt_some hfind).1
    simp only [map_some]
    split
    · exact h.put hclean (view_hold id s) (fun _ => rfl) rfl
    refine h.put hclean ?_ ?_ rfl
    · rw [← view_hold id s]
      exact view_setDev rfl
    · exact refs_setDev rfl

theorem Orderly.rmFromAllow (addr : Addr) : Orderly (ipaccRmFromAllow addr s).1 := by
  have hsound := h.sound.rmFromAllow addr
  cases hfind : findAllow addr s with
  | none =>
    rw [rmFromAllow_none hfind]
    exact h
  | some id =>
    have hid := (findAllow_some hfind).1
    obtain ⟨hrefcnt, hnot⟩ := h.refcnt_allow hid
    have hallow (j : Nat) := h.sound.mem_deregistered (j := j) hid
    rw [rmFromAllow_eq hfind] at hsound ⊢
    have hfreed : (deregistered id s).freed = id :: s.freed := by
      simp only [deregistered, hrefcnt, sub_self, if_true]
    have hother (j : Nat) (hj : j ≠ id) : (deregistered id s).devs j = s.devs j := by
      simp only [deregistered, State.setDev, update_of_ne hj]
    have hlists (j : Nat) (hj : j ≠ id) : lists (deregistered id s) j = lists s j :=
      lists_congr ((hallow j).trans ⟨And.right, fun hmem => ⟨hj, hmem⟩⟩) Iff.rfl
    have hgone : lists (deregistered id s) id = 0 := by
      have hcrnt : id ∉ entries (deregistered id s).crntDevs :=
        fun hmem => (h.crnt id hmem).1 hid
      rw [lists, if_neg (fun hmem => ((hallow id).mp hmem).1 rfl), if_neg hcrnt]
    refine ⟨hsound, ⟨?_, ?_⟩, ?_, ?_, ?_, ?_⟩
    · intro j hj hkept
      rw [hfreed, mem_cons, not_or] at hkept
      rw [hother j hkept.1, hlists j hkept.1]
      exact h.lawful.refcnt j hj hkept.2
    · intro j hj
      rw [hfreed, count_cons]
      by_cases hjid : j = id
      · subst hjid
        rw [hgone, count_eq_zero.mpr hnot]
        simp
      · rw [hlists j hjid, h.lawful.freed j hj]
        simp [Ne.symm hjid]
    · intro j hj
      have hne : j ≠ id := by
        rintro rfl
        exact (h.crnt j hj).1 hid
      rw [hallow, hother j hne]
      exact ⟨fun hmem => (h.crnt j hj).1 hmem.2, (h.crnt j hj).2⟩
    · intro j hj
      obtain ⟨hne, hmem⟩ := (hallow j).mp hj
      rw [hother j hne]
      exact h.allow j hmem
    · intro j
      by_cases hjid : j = id
      · subst hjid
        simp only [deregistered, State.setDev, update_self, h.timer]
      · rw [hother j hjid]
        exact h.timer j
    · intro j hj
      rw [hfreed] at hj
      rcases mem_cons.mp hj with rfl | hold
      · exact h.sound.allowBelow j hid
      · exact h.below j hold

/-- A new object with one reference, in one list. -/
theorem Orderly.add (hsound : Sound s') (hnext : s'.next = s.next + 1)
    (hfreed : s'.freed = s.freed) (hother : ∀ j, j ≠ s.next → s'.devs j = s.devs j)
    (hnew : (s'.devs s.next).refcnt = 1 ∧ (s'.devs s.next).dirty = false ∧
      (s'.devs s.next).timer = false)
    (hlive : s.next ∈ entries s'.crntDevs → (s'.devs s.next).liveTime = accDevLiveAlways)
    (hone : lists s' s.next = 1)
    (hallow : ∀ j, j ≠ s.next → (j ∈ entries s'.allowDevs ↔ j ∈ entries s.allowDevs))
    (hcrnt : ∀ j, j ≠ s.next → (j ∈ entries s'.crntDevs ↔ j ∈ entries s.crntDevs)) :
    Orderly s' := by
  have hlists (j : Nat) (hj : j ≠ s.next) : lists s' j = lists s j :=
    lists_congr (hallow j hj) (hcrnt j hj)
  have hold (j : Nat) (hj : j < s'.next) (hne : j ≠ s.next) : j < s.next := by omega
  have hnot : s.next ∉ s.freed := fun hmem => lt_irrefl _ (h.below _ hmem)
  refine ⟨hsound, ⟨?_, ?_⟩, ?_, ?_, ?_, ?_⟩
  · intro j hj hkept
    by_cases hne : j = s.next
    · rw [hne, hnew.1, hone, hnew.2.2]
      rfl
    · rw [hother j hne, hlists j hne]
      exact h.lawful.refcnt j (hold j hj hne) (hfreed ▸ hkept)
  · intro j hj
    rw [hfreed]
    by_cases hne : j = s.next
    · rw [hne, hone, count_eq_zero.mpr hnot]
      rfl
    · rw [hlists j hne]
      exact h.lawful.freed j (hold j hj hne)
  · intro j hj
    by_cases hne : j = s.next
    · subst hne
      refine ⟨fun hmem => ?_, hnew.2.1, hlive hj⟩
      rw [lists, if_pos hmem, if_pos hj] at hone
      cases hone
    · rw [hother j hne, hallow j hne]
      exact h.crnt j ((hcrnt j hne).mp hj)
  · intro j hj
    by_cases hne : j = s.next
    · subst hne
      exact hnew.2.1
    · rw [hother j hne]
      exact h.allow j ((hallow j hne).mp hj)
  · intro j
    by_cases hne : j = s.next
    · subst hne
      exact hnew.2.2
    · rw [hother j hne]
      exact h.timer j
  · intro j hj
    rw [hfreed] at hj
    rw [hnext]
    exact Nat.lt_succ_of_lt (h.below j hj)

theorem Orderly.registered (hsound : Sound (s.registered d))
    (hd : d.refcnt = 1 ∧ d.dirty = false ∧ d.timer = false) : Orderly (s.registered d) := by
  have hfresh : s.next ∉ entries s.crntDevs :=
    fun hmem => lt_irrefl _ (h.sound.crntBelow _ hmem)
  have hself : (s.registered d).devs s.next = d := by
    simp only [State.registered, State.alloc, State.setDev, update_self]
  refine h.add hsound rfl rfl ?_ ?_ ?_ ?_ ?_ ?_
  · intro j hj
    simp only [State.registered, State.alloc, State.setDev, update_of_ne hj]
  · rw [hself]
    exact hd
  · intro hmem
    exact absurd hmem hfresh
  · have hallow : s.next ∈ entries (s.registered d).allowDevs :=
      mem_entries_insert.mpr (.inl rfl)
    have hcrnt : s.next ∉ entries (s.registered d).crntDevs := hfresh
    rw [lists, if_pos hallow, if_neg hcrnt]
  · intro j hj
    exact mem_entries_insert.trans (or_iff_right hj)
  · intro j _
    exact Iff.rfl

theorem Orderly.add2allow (desc : DevDesc) (ipFlg : Nat)
    (mem : Bool) : Orderly (ipaccAdd2allow desc ipFlg mem s).1 := by
  have hsound := h.sound.add2allow desc ipFlg mem
  by_cases htype : desc.type < accDevtypeButt
  · cases hfind : findAllow desc.addr s with
    | none =>
      rw [add2allow_new htype hfind] at hsound ⊢
      cases mem with
      | false => exact h
      | true => exact h.registered hsound ⟨rfl, rfl, rfl⟩
    | some id =>
      have hid := (findAllow_some hfind).1
      rw [add2allow_known htype hfind]
      exact h.put (h.allow id hid) (view_hold id s) (fun _ => rfl) rfl
  · rw [add2allow_refused htype]
    exact h

theorem Orderly.unknown (junk : Nat)
    (hsound : Sound (linkCrnt s.next (s.alloc (unknownDevice saddr junk)))) :
    Orderly (linkCrnt s.next (s.alloc (unknownDevice saddr junk))) := by
  have hfresh : s.next ∉ entries s.allowDevs :=
    fun hmem => lt_irrefl _ (h.sound.allowBelow _ hmem)
  have hself : (linkCrnt s.next (s.alloc (unknownDevice saddr junk))).devs s.next =
      { unknownDevice saddr junk with refcnt := 1 } := by
    simp [linkCrnt, State.alloc, State.setDev, unknownDevice, Device.blank]
  refine h.add hsound rfl rfl ?_ ?_ ?_ ?_ ?_ ?_
  · intro j hj
    simp only [linkCrnt, State.alloc, State.setDev, update_of_ne hj]
  · rw [hself]
    exact ⟨rfl, rfl, rfl⟩
  · intro _
    rw [hself]
    rfl
  · have hcrnt : s.next ∈ entries (linkCrnt s.next (s.alloc (unknownDevice saddr junk))).crntDevs :=
      mem_entries_insert.mpr (.inl rfl)
    have hallow : s.next ∉
        entries (linkCrnt s.next (s.alloc (unknownDevice saddr junk))).allowDevs := hfresh
    rw [lists, if_neg hallow, if_pos hcrnt]
  · intro j _
    exact Iff.rfl
  · intro j hj
    exact mem_entries_insert.trans (or_iff_right hj)

end

/-! ### Events that break the law -/

/-- The object is there with `n` references, clean and without a lifetime timer. -/
structure Referenced (n : Int) (id : Nat) (s : State) : Prop where
  below : id < s.next
  kept : id ∉ s.freed
  refcnt : (s.devs id).refcnt = n
  dirty : (s.devs id).dirty = false
  timer : (s.devs id).timer = false

theorem Orderly.referenced (h : Orderly s) (hid : id ∈ entries s.allowDevs) : Referenced 1 id s :=
  ⟨h.sound.allowBelow id hid, (h.refcnt_allow hid).2, (h.refcnt_allow hid).1, h.allow id hid,
    h.timer id⟩

theorem Referenced.hold (h : Referenced n id s) : Referenced (n + 1) id (hold id s) := by
  refine ⟨h.below, h.kept, ?_, ?_, ?_⟩
  all_goals simp only [Access.hold, State.setDev, update_self]
  · rw [h.refcnt]
  · exact h.dirty
  · exact h.timer

theorem Referenced.not_lawful (h : Referenced n id s) (hmore : lists s id < n) : ¬ Lawful s := by
  intro hlawful
  have hlaw := hlawful.refcnt id h.below h.kept
  rw [h.refcnt, h.timer, if_neg Bool.false_ne_true] at hlaw
  omega

theorem linkCrnt_self (id : Nat) (s : State) :
    (linkCrnt id s).devs id =
      if (s.devs id).liveTime = accDevLiveAlways then
        { s.devs id with refcnt := (s.devs id).refcnt + 1 }
      else { s.devs id with refcnt := (s.devs id).refcnt + 1 + 1, timer := true } := by
  simp only [linkCrnt, State.setDev, update_self]

/-- Making a device current that has two references already counts it once too often. -/
theorem Referenced.not_lawful_link (h : Referenced n id s)
    (hmore : 2 ≤ n) : ¬ Lawful (linkCrnt id s) := by
  refine not_lawful_of_refcnt id h.below h.kept ?_
  rw [linkCrnt_self]
  split
  · simp only [h.timer, h.refcnt, Bool.false_eq_true, if_false]
    omega
  · simp only [h.refcnt, if_true]
    omega

theorem Referenced.not_lawful_put (h : Referenced n id s)
    (hmore : 3 ≤ n) : ¬ Lawful (ipaccPutDev id (linkCrnt id s)) := by
  have hdirty : ((linkCrnt id s).devs id).dirty = false := by
    rw [linkCrnt_self]
    split <;> exact h.dirty
  have hfreed : (ipaccPutDev id (linkCrnt id s)).freed = s.freed := by
    simp only [ipaccPutDev, hdirty, Bool.false_eq_true, false_and, if_false]
    rfl
  refine not_lawful_of_refcnt id h.below (hfreed ▸ h.kept) ?_
  simp only [ipaccPutDev, State.setDev, update_self]
  rw [linkCrnt_self]
  split
  · simp only [h.timer, h.refcnt, Bool.false_eq_true, if_false]
    omega
  · simp only [h.refcnt, if_true]
    omega

/-- No registered device becomes current, the check registers no static address, and no current
device leaves. -/
def Balanced : Event → State → Prop
  | .packet p, s => ∀ saddr, Subject s p saddr → findCrnt saddr s = none →
      (s.enable = accModeBytotal → s.totalCrnt < s.totalAllow → findAllow saddr s = none) ∧
      (s.enable = accModeBytype →
        (findAllow saddr s = none → p.mem = none) ∧
        ∀ id, findAllow saddr s = some id →
          (s.types (s.devs id).devType).type < accDevtypeOther →
          fullByType (s.types (s.devs id).devType) = true)
  | .unregdev addr, s => findCrnt addr s = none
  | .set desc, s => ∀ id ∈ entries s.crntDevs, s.inited = true →
      ∀ i, ¬ Clears desc s i (s.devs id).devType
  | .devTimeout id, s => (s.devs id).timer = true → findCrnt (s.devs id).addr s = none
  | .probeTimeout id, s => (s.devs id).probe = true →
      accArpProbeTimesMax < (s.devs id).times → findCrnt (s.devs id).addr s = none
  | _, _ => True

section Step
variable (h : Orderly s)
include h

theorem Orderly.drops_none (hdrops : Drops gone s s')
    (hsound : Sound s') (hnone : ∀ id, ¬ gone id) : Orderly s' := by
  refine h.frame ?_ (hdrops.freed fun id hid => absurd hid (hnone id)) hsound ?_ ?_ hdrops.next
  · intro id
    rw [hdrops.kept id (hnone id)]
  · intro id
    exact (hdrops.crnt id).trans (and_iff_left (hnone id))
  · intro id
    rw [hdrops.allow]

/-- Removing a current device breaks the law, and deregistering it as well does not mend it. -/
theorem Orderly.not_lawful_rmFromCrnt {addr : Addr} (hfind : findCrnt addr s ≠ none) :
    ¬ Lawful (ipaccRmFromCrnt addr s).1 ∧
      ¬ Lawful (ipaccRmFromAllow addr (ipaccRmFromCrnt addr s).1).1 := by
  obtain ⟨id, hid⟩ := ne_none_iff_exists'.mp hfind
  have hdrops := h.sound.drops_rmFromCrnt addr
  have hsound := h.sound.rmFromCrnt addr
  obtain ⟨hbelow, hlists, hcount⟩ := h.leak_of_drop hdrops hid
  refine ⟨not_lawful_of_leak id hbelow hlists hcount, ?_⟩
  generalize (ipaccRmFromCrnt addr s).1 = dropped at *
  cases hallow : findAllow addr dropped with
  | none =>
    rw [rmFromAllow_none hallow]
    exact not_lawful_of_leak id hbelow hlists hcount
  | some other =>
    have hother := (findAllow_some hallow).1
    have hnotAllow : id ∉ entries dropped.allowDevs := by
      rw [hdrops.allow]
      exact (h.crnt id (hdrops.mem id hid)).1
    have hne : other ≠ id := by
      rintro rfl
      exact hnotAllow hother
    rw [rmFromAllow_eq hallow]
    have hstill : id ∉ entries (deregistered other dropped).allowDevs :=
      fun hmem => hnotAllow ((hsound.mem_deregistered hother).mp hmem).2
    refine not_lawful_of_leak id hbelow ?_ ?_
    · rw [← hlists]
      exact lists_congr (iff_of_false hstill hnotAllow) Iff.rfl
    simp only [deregistered]
    split
    · rw [count_cons, hcount]
      simp [hne]
    · exact hcount

theorem Orderly.unregdev (addr : Addr) :
    (Balanced (.unregdev addr) s → Orderly (step (.unregdev addr) s)) ∧
      (Lawful (step (.unregdev addr) s) → Balanced (.unregdev addr) s) := by
  have hoff := h.rmFromAllow addr
  have hcrnt := findCrnt_rmFromAllow addr addr s
  simp only [step, ipaccRstricUnregdev, Balanced]
  split
  · constructor
    · intro hnone
      have hdrops := hoff.sound.drops_rmFromCrnt addr
      refine hoff.drops_none hdrops (hoff.sound.rmFromCrnt addr) ?_
      intro id hid
      rw [hcrnt, hnone] at hid
      cases hid
    · intro hlawful
      by_contra hsome
      exact (hoff.not_lawful_rmFromCrnt (hcrnt.symm ▸ hsome)).1 hlawful
  next hinited =>
    refine ⟨fun _ => h, fun _ => ?_⟩
    rw [findCrnt, if_neg hinited]

theorem Orderly.set (desc : RestricDesc) :
    (Balanced (.set desc) s → Orderly (step (.set desc) s)) ∧
      (Lawful (step (.set desc) s) → Balanced (.set desc) s) := by
  have hdrops := h.sound.drops_setRestric desc
  constructor
  · intro hkept
    refine h.drops_none hdrops (h.sound.setRestric desc) ?_
    rintro id ⟨hid, hinited, i, hclears⟩
    exact hkept id hid hinited i hclears
  · intro hlawful id hid hinited i hclears
    obtain ⟨hbelow, hlists, hcount⟩ := h.leak_of_drop hdrops ⟨hid, hinited, i, hclears⟩
    exact not_lawful_of_leak id hbelow hlists hcount hlawful

theorem Orderly.probeTimeout (id : Nat) :
    (Balanced (.probeTimeout id) s → Orderly (step (.probeTimeout id) s)) ∧
      (Lawful (step (.probeTimeout id) s) → Balanced (.probeTimeout id) s) := by
  simp only [step, ipaccArpProbeTimeout, Balanced]
  split
  next hprobe =>
    split
    next htimes =>
      have hfired : Orderly (s.setDev id { s.devs id with probe := false }) :=
        h.of_view (refs_setDev rfl) rfl (view_setDev rfl)
      have hview : (s.setDev id { s.devs id with probe := false }).view = s.view :=
        view_setDev rfl
      have hsame := findCrnt_of_view hview (s.devs id).addr
      have hdrops := hfired.sound.drops_rmFromCrnt (s.devs id).addr
      constructor
      · intro hnone
        have hremoved := hfired.drops_none hdrops (hfired.sound.rmFromCrnt _) (by
          intro j hj
          rw [hsame, hnone hprobe htimes] at hj
          cases hj)
        split
        · exact hremoved.rmFromAllow _
        · exact hremoved
      · intro hlawful _ _
        by_contra hsome
        have hbroken := hfired.not_lawful_rmFromCrnt (hsame.symm ▸ hsome)
        split at hlawful
        · exact hbroken.2 hlawful
        · exact hbroken.1 hlawful
    next htimes =>
      refine ⟨fun _ => ?_, fun _ _ hmore => absurd hmore htimes⟩
      exact h.of_view (refs_setDev rfl) rfl (view_setDev rfl)
  next hprobe =>
    exact ⟨fun _ => h, fun _ hpending => absurd hpending hprobe⟩

/-- A packet in the mode by total: the law ends when a registered device is made current. -/
theorem Orderly.bytotal (hsubject : Subject s p saddr)
    (hcrnt : findCrnt saddr s = none) (hmode : s.enable = accModeBytotal)
    (hcheck : ipaccRestricCheck p s = checkBytotal saddr p.mem s) :
    (Balanced (.packet p) s → Orderly (ipaccRestricCheck p s).1) ∧
      (Lawful (ipaccRestricCheck p s).1 → s.totalCrnt < s.totalAllow →
        findAllow saddr s = none) := by
  have hkick := view_kick none s
  have hkicked := h.kick none
  have hcrnt' := (findCrnt_of_view hkick saddr).trans hcrnt
  have hsame := findAllow_of_view hkick saddr
  have hinited : (ipaccKickIdleOutoff none s).1.inited = true := by
    have hstill := congrArg State.inited hkick
    exact hstill.trans hsubject.inited
  have hsound := hkicked.sound.add2crnt hinited saddr p.mem
  rw [hcheck]
  rcases checkBytotal_cases s saddr p.mem with ⟨hfull, -, hstay⟩ | ⟨hroom, -, hadd⟩
  · rw [hstay]
    exact ⟨fun _ => hkicked, fun _ hless => absurd hless (not_lt.mpr hfull)⟩
  rw [hadd]
  constructor
  · intro hbalanced
    have hnone := hsame.trans ((hbalanced saddr hsubject hcrnt).1 hmode hroom)
    rw [add2crnt_unknown p.mem hcrnt' hnone] at hsound ⊢
    cases hmem : p.mem with
    | none => exact hkicked
    | some junk =>
      rw [hmem] at hsound
      exact hkicked.unknown junk hsound
  · intro hlawful _
    by_contra hsome
    obtain ⟨id, hid⟩ := ne_none_iff_exists'.mp hsome
    have hid' := hsame.trans hid
    rw [add2crnt_registered p.mem hcrnt' hid'] at hlawful
    have hrefs := (hkicked.referenced (findAllow_some hid').1).hold
    exact hrefs.not_lawful_link (by decide) hlawful

theorem Orderly.bytype_found (mem : Option Nat)
    (hcrnt : findCrnt saddr s = none) (hallow : findAllow saddr s = some id) :
    (((s.types (s.devs id).devType).type < accDevtypeOther →
        fullByType (s.types (s.devs id).devType) = true) →
      Orderly (checkBytype saddr mem s).1) ∧
    (Lawful (checkBytype saddr mem s).1 →
      (s.types (s.devs id).devType).type < accDevtypeOther →
      fullByType (s.types (s.devs id).devType) = true) := by
  have hid := (findAllow_some hallow).1
  have hclean := h.allow id hid
  have hview := view_hold id s
  rw [checkBytype_found mem hcrnt hallow]
  by_cases hother : (s.types (s.devs id).devType).type < accDevtypeOther
  · rw [if_pos hother]
    cases hfull : fullByType (s.types (s.devs id).devType) with
    | true =>
      refine ⟨fun _ => ?_, fun _ _ => rfl⟩
      have hrefs := kick_refs (some (s.types (s.devs id).devType).type) (hold id s)
      exact h.put hclean ((view_kick _ _).trans hview) hrefs.1 hrefs.2
    | false =>
      refine ⟨fun hall => absurd (hall hother) Bool.false_ne_true, fun hlawful => ?_⟩
      have hrefs := (h.referenced hid).hold.hold
      exact absurd hlawful (hrefs.not_lawful_put (by decide))
  · rw [if_neg hother]
    refine ⟨fun _ => ?_, fun _ hless => absurd hless hother⟩
    exact h.put hclean hview (fun _ => rfl) rfl

/-- A device that the check itself registers keeps the reference of the check. -/
theorem Orderly.not_lawful_static (junk : Nat) (hinited : s.inited = true)
    (hcrnt : findCrnt saddr s = none) (hallow : findAllow saddr s = none) :
    ¬ Lawful (checkBytype saddr (some junk) s).1 := by
  have hregistered : Orderly (s.registered (staticDevice saddr)) :=
    h.registered (h.sound.registered hallow) ⟨rfl, rfl, rfl⟩
  have hmem : s.next ∈ entries (s.registered (staticDevice saddr)).allowDevs :=
    mem_entries_insert.mpr (.inl rfl)
  have hheld := (hregistered.referenced hmem).hold
  rw [checkBytype_new h.sound junk hinited hcrnt hallow]
  split
  · intro hlawful
    have hfresh : s.next ∉ entries s.crntDevs :=
      fun hmem => lt_irrefl _ (h.sound.crntBelow _ hmem)
    have hlists : lists (s.registered (staticDevice saddr)) s.next = 1 := by
      rw [lists, if_pos hmem]
      exact congrArg (1 + ·) (if_neg hfresh)
    apply hheld.not_lawful _ hlawful.of_kick
    change ((lists (s.registered (staticDevice saddr)) s.next : Nat) : Int) < 1 + 1
    rw [hlists]
    decide
  · exact hheld.hold.not_lawful_link (by decide)

theorem Orderly.packet (p : Packet) :
    (Balanced (.packet p) s → Orderly (step (.packet p) s)) ∧
      (Lawful (step (.packet p) s) → Balanced (.packet p) s) := by
  simp only [step]
  rcases restricCheck_cases p s with ⟨hspared, hknown⟩ | ⟨saddr, hsubject, hcrnt, hcase⟩
  · refine ⟨fun _ => h.spared hspared, fun _ other hother hnone => ?_⟩
    exact absurd hnone (hknown other hother)
  rcases hcase with ⟨hmode, hcheck⟩ | ⟨hmode, hcheck⟩
  · obtain ⟨hkeeps, hbreaks⟩ := h.bytotal hsubject hcrnt hmode hcheck
    refine ⟨hkeeps, fun hlawful other hother _ => ?_⟩
    rw [hsubject.unique hother]
    refine ⟨fun _ => hbreaks hlawful, fun htype => ?_⟩
    rw [hmode] at htype
    exact absurd htype (by decide)
  · have hnot : s.enable ≠ accModeBytotal := by
      rw [hmode]
      decide
    rw [hcheck]
    cases hallow : findAllow saddr s with
    | some id =>
      obtain ⟨hkeeps, hbreaks⟩ := h.bytype_found p.mem hcrnt hallow
      constructor
      · intro hbalanced
        exact hkeeps (((hbalanced saddr hsubject hcrnt).2 hmode).2 id hallow)
      intro hlawful other hother _
      rw [hsubject.unique hother, hallow]
      refine ⟨fun htotal => absurd htotal hnot, fun _ => ⟨by simp, ?_⟩⟩
      rintro found hfound
      obtain rfl := some_inj.mp hfound
      exact hbreaks hlawful
    | none =>
      cases hmem : p.mem with
      | none =>
        rw [checkBytype_unbacked hallow]
        refine ⟨fun _ => h, fun _ other hother _ => ?_⟩
        rw [hsubject.unique hother, hallow]
        exact ⟨fun htotal => absurd htotal hnot, fun _ => ⟨fun _ => hmem, by simp⟩⟩
      | some junk =>
        have hbroken := h.not_lawful_static junk hsubject.inited hcrnt hallow
        refine ⟨fun hbalanced => ?_, fun hlawful => absurd hlawful hbroken⟩
        have hnone := ((hbalanced saddr hsubject hcrnt).2 hmode).1 hallow
        rw [hmem] at hnone
        cases hnone

theorem Orderly.setWan (wans : List Wantype) : Orderly { s with allWan := wans } :=
  h.frame (s := s) (fun _ => rfl) rfl (h.sound.setWan wans) (fun _ => Iff.rfl) (fun _ => Iff.rfl)
    rfl

/-- One event keeps the law if it is balanced, and only then. -/
theorem Orderly.step (event : Event) :
    (Balanced event s → Orderly (step event s)) ∧
      (Lawful (Access.step event s) → Balanced event s) := by
  cases event with
  | packet p => exact h.packet p
  | regdev desc mem =>
    refine ⟨fun _ => ?_, fun _ => trivial⟩
    simp only [Access.step, ipaccRstricRegdev]
    split
    · exact h.add2allow desc accDynamicIp mem
    · exact h
  | unregdev addr => exact h.unregdev addr
  | set desc => exact h.set desc
  | addwan wan mem =>
    obtain ⟨wans, hwans⟩ := addwan_eq (s := s) wan mem
    rw [Access.step, hwans]
    exact ⟨fun _ => h.setWan wans, fun _ => trivial⟩
  | delwan name => exact ⟨fun _ => h.setWan _, fun _ => trivial⟩
  | restart => exact ⟨fun _ => h.kick none, fun _ => trivial⟩
  | lanPortUpDown => exact ⟨fun _ => h.kick none, fun _ => trivial⟩
  | arpReply addr => exact ⟨fun _ => h.probeReply addr, fun _ => trivial⟩
  | devTimeout id =>
    have hidle : (s.devs id).timer = false := h.timer id
    simp only [Access.step, ipaccDevTimeout, Balanced, hidle, Bool.false_eq_true, if_false]
    exact ⟨fun _ => h, fun _ => by simp⟩
  | probeTimeout id => exact h.probeTimeout id

end Step

private theorem orderly_ipaccInit : Orderly ipaccInit := by
  refine ⟨sound_ipaccInit, ⟨nofun, nofun⟩, ?_, ?_, fun _ => rfl, nofun⟩
  · intro id hid
    exact absurd (sound_ipaccInit.crntBelow id hid) (Nat.not_lt_zero id)
  · intro id hid
    exact absurd (sound_ipaccInit.allowBelow id hid) (Nat.not_lt_zero id)

/-- Along a run the count of every device object is the number of its lists and pending lifetime
timers, and an object is freed once when it is in no list, exactly if no registered device becomes
current, the check registers no static address and no current device leaves. -/
theorem access_references_iff (events : List Event) :
    Allowed step (fun event s => Lawful (step event s)) events ipaccInit ↔
      Allowed step Balanced events ipaccInit := by
  apply Allowed.iff_of_invariant (P := Orderly)
  · intro event s hs
    exact ⟨(hs.step event).2, fun hbalanced => ((hs.step event).1 hbalanced).lawful⟩
  · intro event s hs hlawful
    exact (hs.step event).1 ((hs.step event).2 hlawful)
  · exact orderly_ipaccInit

def byType : RestricDesc where
  enable := accModeBytype
  totalAllow := 0
  lanHost := 0xC0A80101
  lanMask := 0xFFFFFF00
  accDevtype := fun i => { enable := 1, type := i, totalAllow := 4 }

def registeredVisit : List Event :=
  [.set byType, .regdev ⟨accDevtypePc, 0xC0A80102, accDevLiveAlways⟩ true,
    .packet (firstPacket none), .unregdev 0xC0A80102]

/-- After a visit the object is in no list, has a reference left and is never freed. -/
theorem visit_leaves_reference :
    ¬Allowed step (fun event s => Lawful (step event s)) registeredVisit ipaccInit := by
  intro hallowed
  have hlawful : Lawful (run step registeredVisit ipaccInit) := hallowed.2.2.2.1
  have hlists : lists (run step registeredVisit ipaccInit) 0 = 0 := rfl
  have hfreed : (run step registeredVisit ipaccInit).freed = [] := rfl
  have hcount := hlawful.freed 0 (by decide)
  rw [hlists, hfreed] at hcount
  cases hcount

end EchoLife.Access

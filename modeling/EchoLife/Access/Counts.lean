import EchoLife.Access.Restric

/-!
The counters of the access restriction. `total_crnt` and the counter of each device type agree
with the current lists, and no address is twice in the current or in the allowed lists.
-/

namespace EchoLife.Access

open Buckets Function List Option Run

/-! ### What the tables are made of -/

def Device.core (d : Device) : Device :=
  { d with refcnt := 0, dirty := false, timer := false, times := 0, probe := false }

def State.view (s : State) : State :=
  { s with devs := fun id => (s.devs id).core, freed := [], twice := [] }

variable {s : State} {addr : Addr} {id : Nat}

theorem view_setDev {d : Device}
    (hcore : d.core = (s.devs id).core) : (s.setDev id d).view = s.view := by
  have hdevs : (fun j => (update s.devs id d j).core) = fun j => (s.devs j).core := by
    funext j
    by_cases hj : j = id
    · subst hj
      rw [update_self, hcore]
    · rw [update_of_ne hj]
  simp only [State.view, State.setDev, hdevs]

private theorem addr_of_view {s' : State} (hview : s'.view = s.view) (id : Nat) :
    (s'.devs id).addr = (s.devs id).addr := by
  have hsame := congrArg (fun v : State => (v.devs id).addr) hview
  exact hsame

section

variable (id : Nat) (s : State)

@[simp] theorem view_hold : (hold id s).view = s.view :=
  view_setDev rfl

@[simp] theorem view_put : (ipaccPutDev id s).view = s.view :=
  view_setDev (s := s) rfl

@[simp] theorem view_retimer : (ipaccDevRetimer id s).view = s.view := by
  unfold ipaccDevRetimer
  split
  · rfl
  · exact view_setDev rfl

private theorem view_addProbeTimer : (addProbeTimer id s).view = s.view :=
  view_setDev (s := s) rfl

end

@[simp] theorem view_probeIdle (wanted : Fin accDevtypeButt → Bool) (s : State) :
    (probeIdle wanted s).view = s.view := by
  unfold probeIdle
  generalize entries s.crntDevs = ids
  induction ids generalizing s with
  | nil => rfl
  | cons id rest ih =>
    rw [foldl_cons, ih]
    split
    · exact view_addProbeTimer id s
    · rfl

@[simp] theorem view_kick (type : Option Nat) (s : State) :
    (ipaccKickIdleOutoff type s).1.view = s.view := by
  cases type with
  | none => exact view_probeIdle _ s
  | some type => exact view_probeIdle _ s

@[simp] theorem view_probeReply (addr : Addr) (s : State) :
    (ipaccArpProbeReply addr s).view = s.view := by
  unfold ipaccArpProbeReply ipaccGetFromCrnt
  cases findCrnt addr s with
  | none => rfl
  | some id =>
    simp only [map_some]
    split
    · rw [view_put, view_hold]
    · rw [view_put, ← view_hold id s]
      exact view_setDev rfl

def enter (id : Nat) (s : State) : State :=
  { s with
    crntDevs := insert s.crntDevs (accDevaddrHashKey (s.devs id).addr) id
    totalCrnt := s.totalCrnt + 1
    types := update s.types (s.devs id).devType
      { s.types (s.devs id).devType with
        totalCrnt := (s.types (s.devs id).devType).totalCrnt + 1 } }

def exit (id : Nat) (s : State) : State :=
  { s with
    crntDevs := remove s.crntDevs (accDevaddrHashKey (s.devs id).addr) id
    totalCrnt := s.totalCrnt - 1
    types := update s.types (s.devs id).devType
      { s.types (s.devs id).devType with
        totalCrnt := (s.types (s.devs id).devType).totalCrnt - 1 } }

theorem Device.core_leave (d : Device) : d.leave.core = d.core := by
  unfold Device.leave
  split <;> rfl

theorem Device.core_stopProbe (d : Device) : d.stopProbe.core = d.core := by
  unfold Device.stopProbe
  split <;> rfl

theorem view_linkCrnt (id : Nat) (s : State) : (linkCrnt id s).view = (enter id s).view := by
  apply view_setDev (s := enter id s)
  split <;> rfl

theorem view_dropCrnt (id : Nat) (s : State) : (dropCrnt id s).view = (exit id s).view := by
  unfold dropCrnt
  rw [view_put, view_setDev (Device.core_stopProbe _)]
  exact view_setDev (s := exit id s) (Device.core_leave _)

/-! ### The invariant -/

structure Counted (s : State) : Prop where
  total : s.totalCrnt = (entries s.crntDevs).length
  types : ∀ i, (s.types i).totalCrnt = (entries s.crntDevs).countP fun id => (s.devs id).devType = i
  crntAddr : ((entries s.crntDevs).map fun id => (s.devs id).addr).Nodup
  allowAddr : ((entries s.allowDevs).map fun id => (s.devs id).addr).Nodup

structure Sound (s : State) : Prop extends Counted s where
  crntPlaced : Placed (fun id => (s.devs id).addr) accDevaddrHashKey s.crntDevs
  allowPlaced : Placed (fun id => (s.devs id).addr) accDevaddrHashKey s.allowDevs
  crntBelow : ∀ id ∈ entries s.crntDevs, id < s.next
  allowBelow : ∀ id ∈ entries s.allowDevs, id < s.next

/-- What keeps the lists and the counters keeps the state sound. -/
theorem Sound.of_view {s' : State} (h : Sound s) (hview : s'.view = s.view) : Sound s' := by
  have hs : Sound s.view := { h with }
  have hs' : Sound s'.view := hview ▸ hs
  exact { hs' with }

theorem sound_ipaccInit : Sound ipaccInit := by
  constructor
  · constructor
    · rfl
    · intro i
      rfl
    · exact nodup_nil
    · exact nodup_nil
  · nofun
  · nofun
  · nofun
  · nofun

theorem findCrnt_some (hfind : findCrnt addr s = some id) :
    id ∈ entries s.crntDevs ∧ (s.devs id).addr = addr := by
  unfold findCrnt at hfind
  split at hfind
  · exact mem_of_find?_slot hfind
  · cases hfind

theorem findAllow_some (hfind : findAllow addr s = some id) :
    id ∈ entries s.allowDevs ∧ (s.devs id).addr = addr :=
  mem_of_find?_slot hfind

section Tables
variable (h : Sound s)
include h

theorem Sound.findAllow_none (hfind : findAllow addr s = none) :
    ∀ id ∈ entries s.allowDevs, (s.devs id).addr ≠ addr :=
  (h.allowPlaced.find?_eq_none_iff addr).mp hfind

theorem Sound.findCrnt_none (hinited : s.inited = true) (hfind : findCrnt addr s = none) :
    ∀ id ∈ entries s.crntDevs, (s.devs id).addr ≠ addr := by
  rw [findCrnt, if_pos hinited] at hfind
  exact (h.crntPlaced.find?_eq_none_iff addr).mp hfind

/-- A device whose address nobody has becomes current. -/
theorem Sound.enter (hid : id < s.next)
    (hnew : ∀ j ∈ entries s.crntDevs, (s.devs j).addr ≠ (s.devs id).addr) : Sound (enter id s) := by
  have hperm := entries_insert_perm s.crntDevs (accDevaddrHashKey (s.devs id).addr) id
  refine { h with total := ?_, types := ?_, crntAddr := ?_, crntPlaced := ?_, crntBelow := ?_ }
  · have hlength := hperm.length_eq
    exact (congrArg (· + 1) h.total).trans hlength.symm
  · intro i
    have hcount := hperm.countP_eq (fun j => (s.devs j).devType = i)
    rw [countP_cons, ← h.types i] at hcount
    refine Eq.trans ?_ hcount.symm
    by_cases hi : i = (s.devs id).devType
    · subst hi
      simp [Access.enter]
    · have hne : (s.devs id).devType ≠ i := Ne.symm hi
      simp [Access.enter, update_of_ne hi, hne]
  · have hmap := hperm.map (fun j => (s.devs j).addr)
    refine hmap.nodup_iff.mpr (nodup_cons.mpr ⟨?_, h.crntAddr⟩)
    intro hmem
    obtain ⟨j, hj, haddr⟩ := mem_map.mp hmem
    exact hnew j hj haddr
  · exact h.crntPlaced.insert id
  · intro j hj
    rcases mem_cons.mp (hperm.mem_iff.mp hj) with rfl | hrest
    · exact hid
    · exact h.crntBelow j hrest

/-- A current device leaves. -/
theorem Sound.exit (hid : id ∈ entries s.crntDevs) : Sound (exit id s) := by
  have hperm := entries_remove_perm (h.crntPlaced.mem_slot hid)
  refine { h with total := ?_, types := ?_, crntAddr := ?_, crntPlaced := ?_, crntBelow := ?_ }
  · have hlength := hperm.length_eq
    rw [← h.total] at hlength
    exact Nat.sub_eq_of_eq_add hlength
  · intro i
    have hcount := hperm.countP_eq (fun j => (s.devs j).devType = i)
    rw [countP_cons, ← h.types i] at hcount
    by_cases hi : i = (s.devs id).devType
    · subst hi
      refine Eq.trans ?_ (Nat.sub_eq_of_eq_add hcount)
      simp [Access.exit]
    · have hne : (s.devs id).devType ≠ i := Ne.symm hi
      simp only [hne, decide_false, Bool.false_eq_true, if_false, add_zero] at hcount
      refine Eq.trans ?_ hcount
      simp [Access.exit, update_of_ne hi]
  · have hmap := hperm.map (fun j => (s.devs j).addr)
    exact (nodup_cons.mp (hmap.nodup_iff.mp h.crntAddr)).2
  · exact h.crntPlaced.remove _ id
  · intro j hj
    exact h.crntBelow j (hperm.mem_iff.mpr (mem_cons_of_mem _ hj))

/-- A device whose address nobody has is registered. -/
theorem Sound.register (hid : id < s.next)
    (hnew : ∀ j ∈ entries s.allowDevs, (s.devs j).addr ≠ (s.devs id).addr) :
    Sound { s with
      allowDevs := insert s.allowDevs (accDevaddrHashKey (s.devs id).addr) id } := by
  have hperm := entries_insert_perm s.allowDevs (accDevaddrHashKey (s.devs id).addr) id
  refine { h with allowAddr := ?_, allowPlaced := ?_, allowBelow := ?_ }
  · have hmap := hperm.map (fun j => (s.devs j).addr)
    refine hmap.nodup_iff.mpr (nodup_cons.mpr ⟨?_, h.allowAddr⟩)
    intro hmem
    obtain ⟨j, hj, haddr⟩ := mem_map.mp hmem
    exact hnew j hj haddr
  · exact h.allowPlaced.insert id
  · intro j hj
    rcases mem_cons.mp (hperm.mem_iff.mp hj) with rfl | hrest
    · exact hid
    · exact h.allowBelow j hrest

theorem Sound.unregister (hid : id ∈ entries s.allowDevs) : Sound { s with
      allowDevs := remove s.allowDevs (accDevaddrHashKey (s.devs id).addr) id } := by
  have hperm := entries_remove_perm (h.allowPlaced.mem_slot hid)
  refine { h with allowAddr := ?_, allowPlaced := ?_, allowBelow := ?_ }
  · have hmap := hperm.map (fun j => (s.devs j).addr)
    exact (nodup_cons.mp (hmap.nodup_iff.mp h.allowAddr)).2
  · exact h.allowPlaced.remove _ id
  · intro j hj
    exact h.allowBelow j (hperm.mem_iff.mpr (mem_cons_of_mem _ hj))

theorem Sound.alloc (d : Device) : Sound { s.setDev s.next d with next := s.next + 1 } := by
  have hold (id : Nat) (hid : id < s.next) : update s.devs s.next d id = s.devs id :=
    update_of_ne hid.ne _ _
  have hcrnt (id : Nat) (hid : id ∈ entries s.crntDevs) := hold id (h.crntBelow id hid)
  have hallow (id : Nat) (hid : id ∈ entries s.allowDevs) := hold id (h.allowBelow id hid)
  constructor
  · refine { total := h.total, types := ?_, crntAddr := ?_, allowAddr := ?_ }
    · intro i
      refine (h.types i).trans (countP_congr ?_)
      intro id hid
      have hsame := congrArg Device.devType (hcrnt id hid)
      simp only [State.setDev, hsame]
    · refine Eq.mpr (congrArg List.Nodup (map_congr_left ?_)) h.crntAddr
      intro id hid
      exact congrArg Device.addr (hcrnt id hid)
    · refine Eq.mpr (congrArg List.Nodup (map_congr_left ?_)) h.allowAddr
      intro id hid
      exact congrArg Device.addr (hallow id hid)
  · exact h.crntPlaced.congr fun id hid => congrArg Device.addr (hcrnt id hid)
  · exact h.allowPlaced.congr fun id hid => congrArg Device.addr (hallow id hid)
  · intro id hid
    exact Nat.lt_succ_of_lt (h.crntBelow id hid)
  · intro id hid
    exact Nat.lt_succ_of_lt (h.allowBelow id hid)

/-! ### One function after the other -/

theorem Sound.dropCrnt (hid : id ∈ entries s.crntDevs) : Sound (dropCrnt id (hold id s)) := by
  have hheld : Sound (hold id s) := h.of_view (view_hold id s)
  exact (hheld.exit hid).of_view (view_dropCrnt id (hold id s))

theorem Sound.rmFromCrnt (addr : Addr) : Sound (ipaccRmFromCrnt addr s).1 := by
  unfold ipaccRmFromCrnt ipaccGetFromCrnt
  cases hfind : findCrnt addr s with
  | none => exact h
  | some id => exact h.dropCrnt (findCrnt_some hfind).1

theorem Sound.rmFromAllow (addr : Addr) : Sound (ipaccRmFromAllow addr s).1 := by
  unfold ipaccRmFromAllow ipaccGetFromAllow
  cases hfind : findAllow addr s with
  | none => exact h
  | some id =>
    have hheld : Sound (hold id s) := h.of_view (view_hold id s)
    refine (hheld.unregister (findAllow_some hfind).1).of_view ?_
    refine (view_put id _).trans ?_
    exact view_setDev (s := { hold id s with
      allowDevs := remove (hold id s).allowDevs
        (accDevaddrHashKey ((hold id s).devs id).addr) id }) rfl

/-- Registering by request keeps the state sound, whether or not there is memory. -/
theorem Sound.add2allow (desc : DevDesc) (ipFlg : Nat) (mem : Bool) :
    Sound (ipaccAdd2allow desc ipFlg mem s).1 := by
  unfold ipaccAdd2allow ipaccGetFromAllow
  split
  · cases hfind : findAllow desc.addr s with
    | some id => exact h.of_view ((view_put id _).trans (view_hold id s))
    | none =>
      simp only [map_none]
      split
      next htype _ =>
        have hnew := (h.alloc { Device.blank with
            addr := desc.addr, liveTime := desc.liveTime, ipFlg := ipFlg
            devType := ⟨desc.type, htype⟩, refcnt := 1 }).register (Nat.lt_succ_self s.next)
        simp only [State.setDev, update_self] at hnew
        apply hnew
        intro j hj
        rw [update_of_ne (ne_of_lt (h.allowBelow j hj))]
        exact h.findAllow_none hfind j hj
      · exact h
  · exact h

/-- Making an address current keeps the state sound, registered or not. -/
theorem Sound.add2crnt (hinited : s.inited = true) (addr : Addr) (mem : Option Nat) :
    Sound (ipaccAdd2crnt addr mem s).1 := by
  unfold ipaccAdd2crnt ipaccGetFromCrnt ipaccGetFromAllow
  cases hcrnt : findCrnt addr s with
  | some id => exact h.of_view ((view_put id _).trans (view_hold id s))
  | none =>
    have hnew := h.findCrnt_none hinited hcrnt
    cases hallow : findAllow addr s with
    | some id =>
      obtain ⟨hid, haddr⟩ := findAllow_some hallow
      have hheld : Sound (hold id s) := h.of_view (view_hold id s)
      refine (hheld.enter (h.allowBelow id hid) ?_).of_view (view_linkCrnt id _)
      intro j hj
      rw [addr_of_view (view_hold id s), addr_of_view (view_hold id s), haddr]
      exact hnew j hj
    | none =>
      cases mem with
      | none => exact h
      | some junk =>
        refine ((h.alloc _).enter (Nat.lt_succ_self s.next) ?_).of_view (view_linkCrnt s.next _)
        intro j hj
        simp only [State.setDev, update_self, update_of_ne (ne_of_lt (h.crntBelow j hj))]
        exact hnew j hj

theorem Sound.crnt_nodup : (entries s.crntDevs).Nodup :=
  List.Nodup.of_map _ h.crntAddr

theorem Sound.mem_dropCrnt {j : Nat} (hid : id ∈ entries s.crntDevs) :
    j ∈ entries (Access.dropCrnt id (hold id s)).crntDevs ↔ j ≠ id ∧ j ∈ entries s.crntDevs := by
  have hheld : Sound (hold id s) := h.of_view (view_hold id s)
  exact mem_entries_remove h.crnt_nodup (hheld.crntPlaced.mem_slot hid)

/-- Dropping the devices of a list, one after the other. -/
theorem Sound.clear {ids : List Nat} (hnodup : ids.Nodup)
    (hids : ∀ id ∈ ids, id ∈ entries s.crntDevs) :
    Sound (ids.foldl (fun now id => Access.dropCrnt id (hold id now)) s) := by
  induction ids generalizing s with
  | nil => exact h
  | cons id rest ih =>
    obtain ⟨hnot, hrest⟩ := nodup_cons.mp hnodup
    have hid := hids id mem_cons_self
    apply ih (h.dropCrnt hid) hrest
    intro j hj
    have hne : j ≠ id := by
      rintro rfl
      exact hnot hj
    exact (h.mem_dropCrnt hid).mpr ⟨hne, hids j (mem_cons_of_mem id hj)⟩

theorem Sound.clearFromCrnt (type : Nat) : Sound (ipaccClearFromCrnt type s).1 := by
  unfold ipaccClearFromCrnt
  split
  · exact h
  refine h.clear (h.crnt_nodup.filter _) ?_
  intro id hid
  exact (mem_filter.mp hid).1

theorem Sound.setType {i : Fin accDevtypeButt} {hdr : DevtypeHdr}
    (hcrnt : hdr.totalCrnt = (s.types i).totalCrnt) : Sound (s.setType i hdr) := by
  refine { h with types := ?_ }
  intro j
  refine Eq.trans ?_ (h.types j)
  by_cases hj : j = i
  · subst hj
    simp only [State.setType, update_self, hcrnt]
  · simp only [State.setType, update_of_ne hj]

theorem Sound.setDevtype (desc : RestricDesc) (i : Fin accDevtypeButt) :
    Sound (setDevtype desc s i) := by
  refine Sound.setType ?_ rfl
  have hnamed : Sound (s.setType i { s.types i with
      enable := (desc.accDevtype i).enable, type := (desc.accDevtype i).type }) :=
    h.setType rfl
  split
  · exact hnamed.clearFromCrnt _
  · exact hnamed

/-- A new configuration clears classes on the way and keeps the counters exact. -/
theorem Sound.setRestric (desc : RestricDesc) : Sound (ipaccSetRestric desc s) := by
  unfold ipaccSetRestric
  have hstart : Sound { s with
      enable := desc.enable, totalAllow := desc.totalAllow
      lanHost := desc.lanHost, lanMask := desc.lanMask } := { h with }
  revert hstart
  generalize { s with
      enable := desc.enable, totalAllow := desc.totalAllow
      lanHost := desc.lanHost, lanMask := desc.lanMask } = start
  intro hstart
  induction finRange accDevtypeButt generalizing start with
  | nil => exact hstart
  | cons i rest ih => exact ih _ (hstart.setDevtype desc i)

theorem Sound.checkBytotal (hinited : s.inited = true) (saddr : Addr) (mem : Option Nat) :
    Sound (checkBytotal saddr mem s).1 := by
  have hkicked := h.of_view (view_kick none s)
  unfold Access.checkBytotal
  dsimp only
  split
  · exact hkicked
  · exact hkicked.add2crnt ((congrArg State.inited (view_kick none s)).trans hinited) saddr mem

theorem Sound.admitByType (hinited : s.inited = true) (id : Nat) (saddr : Addr)
    (mem : Option Nat) : Sound (admitByType id saddr mem s).1 := by
  unfold Access.admitByType
  split
  · have hkicked := h.of_view (view_kick (some (s.types (s.devs id).devType).type) s)
    dsimp only
    split
    · exact hkicked
    · exact hkicked.add2crnt ((congrArg State.inited (view_kick _ s)).trans hinited) saddr mem
  · exact h.add2crnt hinited saddr mem

omit h in
private theorem add2allow_inited (desc : DevDesc) (ipFlg : Nat) (mem : Bool) :
    (ipaccAdd2allow desc ipFlg mem s).1.inited = s.inited := by
  unfold ipaccAdd2allow ipaccGetFromAllow
  split
  · cases findAllow desc.addr s with
    | some id => rfl
    | none => cases mem <;> rfl
  · rfl

theorem Sound.checkBytype (hinited : s.inited = true) (saddr : Addr) (mem : Option Nat) :
    Sound (checkBytype saddr mem s).1 := by
  unfold Access.checkBytype ipaccGetFromAllow
  cases hfind : findAllow saddr s with
  | some id =>
    have hheld : Sound (hold id s) := h.of_view (view_hold id s)
    simp only [map_some]
    split
    · exact (hheld.admitByType hinited id saddr mem).of_view (view_put id _)
    · exact hheld.of_view (view_put id _)
  | none =>
    have hadded := h.add2allow ⟨accDevtypePc, saddr, accDevLiveAlways⟩ accStaticIp mem.isSome
    have hstill : (ipaccAdd2allow ⟨accDevtypePc, saddr, accDevLiveAlways⟩ accStaticIp
        mem.isSome s).1.inited = true := (add2allow_inited ..).trans hinited
    simp only [map_none]
    split
    next id held hget =>
      obtain ⟨id', -, hpair⟩ := map_eq_some_iff.mp hget
      obtain ⟨rfl, rfl⟩ := Prod.mk.inj hpair
      have hheld := hadded.of_view (view_hold id' _)
      exact hheld.admitByType hstill id' saddr mem
    · exact hadded

/-- Every packet keeps the state sound, in whatever mode. -/
theorem Sound.restricCheck (p : Packet) : Sound (ipaccRestricCheck p s).1 := by
  unfold ipaccRestricCheck ipaccGetFromCrnt
  split
  · exact h
  rename_i hinited
  rw [Bool.not_eq_false] at hinited
  split
  · exact h
  cases p.iph with
  | none => exact h
  | some saddr =>
    dsimp only
    split
    · exact h
    split
    · exact h
    cases findCrnt saddr s with
    | some id =>
      refine h.of_view ?_
      simp only [map_some, view_put, view_retimer, view_hold]
    | none =>
      simp only [map_none]
      split
      · exact h.checkBytotal hinited saddr p.mem
      split
      · exact h.checkBytype hinited saddr p.mem
      · exact h

theorem Sound.devTimeout (id : Nat) : Sound (ipaccDevTimeout id s) := by
  unfold ipaccDevTimeout
  split
  · have hfired : Sound (s.setDev id { s.devs id with timer := false }) :=
      h.of_view (view_setDev rfl)
    exact hfired.rmFromCrnt _
  · exact h

/-- A probe that is over drops its device or goes on. -/
theorem Sound.probeTimeout (id : Nat) : Sound (ipaccArpProbeTimeout id s) := by
  unfold ipaccArpProbeTimeout
  split
  · split
    · have hfired : Sound (s.setDev id { s.devs id with probe := false }) :=
        h.of_view (view_setDev rfl)
      have hremoved := hfired.rmFromCrnt (s.devs id).addr
      split
      · exact hremoved.rmFromAllow _
      · exact hremoved
    · exact h.of_view (view_setDev rfl)
  · exact h

omit h in
theorem addwan_eq (wan : Wantype) (mem : Bool) :
    ∃ wans, ipaccRstricAddwan wan mem s = { s with allWan := wans } := by
  unfold ipaccRstricAddwan
  split
  · exact ⟨_, rfl⟩
  split
  · exact ⟨_, rfl⟩
  · exact ⟨s.allWan, rfl⟩

theorem Sound.setWan (wans : List Wantype) : Sound { s with allWan := wans } :=
  { h with }

theorem Sound.step (event : Event) : Sound (step event s) := by
  cases event with
  | packet p => exact h.restricCheck p
  | regdev desc mem =>
    simp only [Access.step, ipaccRstricRegdev]
    split
    · exact h.add2allow desc accDynamicIp mem
    · exact h
  | unregdev addr =>
    simp only [Access.step, ipaccRstricUnregdev]
    split
    · exact (h.rmFromAllow addr).rmFromCrnt addr
    · exact h
  | set desc => exact h.setRestric desc
  | addwan wan mem =>
    obtain ⟨wans, hwans⟩ := addwan_eq (s := s) wan mem
    rw [Access.step, hwans]
    exact h.setWan wans
  | delwan name => exact h.setWan _
  | restart => exact h.of_view (view_kick none s)
  | lanPortUpDown => exact h.of_view (view_probeIdle _ s)
  | arpReply addr => exact h.of_view (view_probeReply addr s)
  | devTimeout id => exact h.devTimeout id
  | probeTimeout id => exact h.probeTimeout id

end Tables

theorem sound_run (events : List Event) : Sound (run step events ipaccInit) :=
  run_invariant (fun event _ _ h => h.step event) sound_ipaccInit

/-- After any events the counters are the numbers of current devices, in all and of each type, and
no address is twice in the current or twice in the allowed lists. -/
theorem access_counts_exact (events : List Event) : Counted (run step events ipaccInit) :=
  (sound_run events).toCounted

end EchoLife.Access

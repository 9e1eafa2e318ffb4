import EchoLife.Access.Counts

/-!
The limit of the access restriction. Under a fixed configuration the current
devices never exceed the limit of the mode, and a packet that is passed on comes
from a current device, unless the kernel had no memory for a new one.
-/

namespace EchoLife.Access

open Bool Buckets Function Option Run

structure Limited (s : State) : Prop where
  total : s.enable = accModeBytotal → s.totalCrnt ≤ s.totalAllow
  types : s.enable = accModeBytype → ∀ i, (s.types i).enable = 1 →
    (s.types i).totalCrnt ≤ (s.types i).totalAllow

variable {s : State} {addr saddr : Addr} {s' : State} {p : Packet}

theorem Limited.of_view (h : Limited s) (hview : s'.view = s.view) : Limited s' := by
  have hs : Limited s.view := { h with }
  have hs' : Limited s'.view := hview ▸ hs
  exact { hs' with }

theorem Sound.limited_of_empty (h : Sound s) (hempty : entries s.crntDevs = []) : Limited s := by
  constructor
  · intro _
    rw [h.total, hempty]
    exact Nat.zero_le _
  · intro _ i _
    rw [h.types i, hempty]
    exact Nat.zero_le _

variable {id : Nat}

section

variable (h : Limited s)
include h

theorem Limited.enter (htotal : s.enable = accModeBytotal → s.totalCrnt < s.totalAllow)
    (htype : s.enable = accModeBytype → fullByType (s.types (s.devs id).devType) = false) :
    Limited (enter id s) := by
  constructor
  · exact htotal
  intro hmode i
  by_cases hi : i = (s.devs id).devType
  · subst hi
    simp only [Access.enter, update_self]
    intro henable
    have hroom := htype hmode
    simp only [fullByType, henable, beq_self_eq_true, Bool.true_and,
      decide_eq_false_iff_not, not_le] at hroom
    exact hroom
  · simp only [Access.enter, update_of_ne hi]
    exact h.types hmode i

theorem Limited.exit (id : Nat) : Limited (exit id s) := by
  constructor
  · intro hmode
    exact (Nat.sub_le _ _).trans (h.total hmode)
  intro hmode i
  by_cases hi : i = (s.devs id).devType
  · subst hi
    simp only [Access.exit, update_self]
    intro henable
    exact (Nat.sub_le _ _).trans (h.types hmode _ henable)
  · simp only [Access.exit, update_of_ne hi]
    exact h.types hmode i

theorem Limited.rmFromCrnt (addr : Addr) : Limited (ipaccRmFromCrnt addr s).1 := by
  unfold ipaccRmFromCrnt ipaccGetFromCrnt
  cases findCrnt addr s with
  | none => exact h
  | some id =>
    have hheld : Limited (hold id s) := h.of_view (view_hold id s)
    exact (hheld.exit id).of_view (view_dropCrnt id _)

theorem Limited.rmFromAllow (addr : Addr) : Limited (ipaccRmFromAllow addr s).1 := by
  unfold ipaccRmFromAllow ipaccGetFromAllow
  cases findAllow addr s with
  | none => exact h
  | some id =>
    exact { h with }

theorem Limited.add2allow (desc : DevDesc) (ipFlg : Nat) (mem : Bool) :
    Limited (ipaccAdd2allow desc ipFlg mem s).1 := by
  unfold ipaccAdd2allow ipaccGetFromAllow
  split
  · cases findAllow desc.addr s with
    | some id => exact { h with }
    | none =>
      cases mem with
      | false => exact h
      | true => exact { h with }
  · exact h

end

/-! ### Admission of one device -/

theorem accDevtypeOther_lt : accDevtypeOther < accDevtypeButt := by
  decide

theorem accDevtypePc_lt : accDevtypePc < accDevtypeButt := by
  decide

def unknownDevice (addr : Addr) (junk : Nat) : Device :=
  { Device.blank with
    addr := addr
    liveTime := accDevLiveAlways
    ipFlg := junk
    devType := ⟨accDevtypeOther, accDevtypeOther_lt⟩ }

def State.alloc (s : State) (d : Device) : State :=
  { s.setDev s.next d with next := s.next + 1 }

theorem view_enter_of_view (hview : s'.view = s.view) (id : Nat) :
    (enter id s').view = (enter id s).view := by
  have hsame : enter id s'.view = enter id s.view := by rw [hview]
  exact hsame

theorem view_link_hold (id : Nat) (s : State) :
    (linkCrnt id (hold id s)).view = (enter id s).view :=
  (view_linkCrnt id _).trans (view_enter_of_view (view_hold id s) id)

theorem add2crnt_registered (mem : Option Nat) (hcrnt : findCrnt addr s = none)
    (hallow : findAllow addr s = some id) :
    (ipaccAdd2crnt addr mem s).1 = linkCrnt id (hold id s) := by
  unfold ipaccAdd2crnt ipaccGetFromCrnt ipaccGetFromAllow
  rw [hcrnt, hallow]
  rfl

theorem add2crnt_unknown (mem : Option Nat) (hcrnt : findCrnt addr s = none)
    (hallow : findAllow addr s = none) :
    (ipaccAdd2crnt addr mem s).1 =
      mem.elim s fun junk => linkCrnt s.next (s.alloc (unknownDevice addr junk)) := by
  unfold ipaccAdd2crnt ipaccGetFromCrnt ipaccGetFromAllow
  rw [hcrnt, hallow]
  cases mem <;> rfl

theorem add2crnt_cases (mem : Option Nat) (hcrnt : findCrnt addr s = none) :
    (∃ id, findAllow addr s = some id ∧ (ipaccAdd2crnt addr mem s).1.view = (enter id s).view) ∨
    (findAllow addr s = none ∧ mem = none ∧ (ipaccAdd2crnt addr mem s).1 = s) ∨
    (findAllow addr s = none ∧ ∃ junk, mem = some junk ∧
      (ipaccAdd2crnt addr mem s).1.view =
        (enter s.next (s.alloc (unknownDevice addr junk))).view) := by
  cases hallow : findAllow addr s with
  | some id =>
    rw [add2crnt_registered mem hcrnt hallow]
    exact .inl ⟨id, rfl, view_link_hold id s⟩
  | none =>
    rw [add2crnt_unknown mem hcrnt hallow]
    cases mem with
    | none => exact .inr (.inl ⟨rfl, rfl, rfl⟩)
    | some junk => exact .inr (.inr ⟨rfl, junk, rfl, view_linkCrnt s.next _⟩)

theorem findAllow_of_view (hview : s'.view = s.view) (addr : Addr) :
    findAllow addr s' = findAllow addr s := by
  have hsame : findAllow addr s'.view = findAllow addr s.view := by rw [hview]
  exact hsame

theorem findCrnt_of_view (hview : s'.view = s.view) (addr : Addr) :
    findCrnt addr s' = findCrnt addr s := by
  have hsame : findCrnt addr s'.view = findCrnt addr s.view := by rw [hview]
  exact hsame

def State.registered (s : State) (d : Device) : State :=
  { s.alloc d with allowDevs := insert s.allowDevs (accDevaddrHashKey d.addr) s.next }

private theorem findAllow_registered (s : State) (d : Device) :
    findAllow d.addr (s.registered d) = some s.next := by
  simp only [findAllow, State.registered, State.alloc, State.setDev, Buckets.insert, update_self]
  exact List.find?_cons_of_pos (by simp only [update_self, beq_self_eq_true])

def staticDevice (addr : Addr) : Device :=
  { Device.blank with
    addr := addr
    liveTime := accDevLiveAlways
    ipFlg := accStaticIp
    devType := ⟨accDevtypePc, by decide⟩
    refcnt := 1 }

variable {desc : DevDesc}

theorem add2allow_new (htype : desc.type < accDevtypeButt)
    (hallow : findAllow desc.addr s = none) (ipFlg : Nat) (mem : Bool) :
    (ipaccAdd2allow desc ipFlg mem s).1 =
      if mem then s.registered
        { Device.blank with
          addr := desc.addr
          liveTime := desc.liveTime
          ipFlg := ipFlg
          devType := ⟨desc.type, htype⟩
          refcnt := 1 }
      else s := by
  unfold ipaccAdd2allow ipaccGetFromAllow
  rw [dif_pos htype, hallow]
  cases mem <;> rfl

theorem add2allow_known (htype : desc.type < accDevtypeButt)
    (hallow : findAllow desc.addr s = some id) (ipFlg : Nat) (mem : Bool) :
    (ipaccAdd2allow desc ipFlg mem s).1 = ipaccPutDev id (hold id s) := by
  unfold ipaccAdd2allow ipaccGetFromAllow
  rw [dif_pos htype, hallow]
  rfl

theorem add2allow_refused (htype : ¬ desc.type < accDevtypeButt) (ipFlg : Nat) (mem : Bool)
    (s : State) : (ipaccAdd2allow desc ipFlg mem s).1 = s := by
  unfold ipaccAdd2allow
  rw [dif_neg htype]

theorem add2allow_static (hallow : findAllow addr s = none) (mem : Bool) :
    (ipaccAdd2allow ⟨accDevtypePc, addr, accDevLiveAlways⟩ accStaticIp mem s).1 =
      if mem then s.registered (staticDevice addr) else s := by
  have htype : accDevtypePc < accDevtypeButt := by decide
  exact add2allow_new htype hallow accStaticIp mem

theorem Sound.registered (h : Sound s) (hallow : findAllow addr s = none) :
    Sound (s.registered (staticDevice addr)) := by
  have hadded := h.add2allow ⟨accDevtypePc, addr, accDevLiveAlways⟩ accStaticIp true
  rw [add2allow_static hallow] at hadded
  exact hadded

theorem Sound.findCrnt_registered (h : Sound s) (hallow : findAllow addr s = none)
    (hinited : s.inited = true) (hcrnt : findCrnt addr s = none) :
    findCrnt addr (s.registered (staticDevice addr)) = none := by
  have hnew := h.findCrnt_none hinited hcrnt
  have hstill : (s.registered (staticDevice addr)).inited = true := hinited
  rw [findCrnt, if_pos hstill]
  refine ((h.registered hallow).crntPlaced.find?_eq_none_iff addr).mpr ?_
  intro id hid
  have hsame : update s.devs s.next (staticDevice addr) id = s.devs id :=
    update_of_ne (ne_of_lt (h.crntBelow id hid)) _ _
  simp only [State.registered, State.alloc, State.setDev, hsame]
  exact hnew id hid

theorem checkBytotal_cases (s : State) (saddr : Addr) (mem : Option Nat) :
    (s.totalAllow ≤ s.totalCrnt ∧ (checkBytotal saddr mem s).2 = false ∧
      (checkBytotal saddr mem s).1 = (ipaccKickIdleOutoff none s).1) ∨
    (s.totalCrnt < s.totalAllow ∧ (checkBytotal saddr mem s).2 = true ∧
      (checkBytotal saddr mem s).1 =
        (ipaccAdd2crnt saddr mem (ipaccKickIdleOutoff none s).1).1) := by
  have hview := view_kick none s
  have htotal : (ipaccKickIdleOutoff none s).1.totalCrnt = s.totalCrnt := by
    have hsame := congrArg State.totalCrnt hview
    exact hsame
  have hallow : (ipaccKickIdleOutoff none s).1.totalAllow = s.totalAllow := by
    have hsame := congrArg State.totalAllow hview
    exact hsame
  have hnever : (ipaccKickIdleOutoff none s).2 = false := rfl
  unfold checkBytotal
  by_cases hfull : s.totalAllow ≤ s.totalCrnt
  · have hcond : (ipaccKickIdleOutoff none s).2 = false ∧
        (ipaccKickIdleOutoff none s).1.totalAllow ≤
          (ipaccKickIdleOutoff none s).1.totalCrnt := ⟨hnever, by rw [htotal, hallow]; exact hfull⟩
    rw [if_pos hcond]
    exact .inl ⟨hfull, rfl, rfl⟩
  · have hcond : ¬ ((ipaccKickIdleOutoff none s).2 = false ∧
        (ipaccKickIdleOutoff none s).1.totalAllow ≤ (ipaccKickIdleOutoff none s).1.totalCrnt) := by
      rw [htotal, hallow]
      exact fun hboth => hfull hboth.2
    rw [if_neg hcond]
    exact .inr ⟨Nat.lt_of_not_le hfull, rfl, rfl⟩

variable (mem : Option Nat)

section

variable (hcrnt : findCrnt saddr s = none) (hallow : findAllow saddr s = some id)
include hcrnt hallow

theorem admitByType_hold :
    admitByType id saddr mem (hold id s) =
      if fullByType (s.types (s.devs id).devType) then
        ((ipaccKickIdleOutoff (some (s.types (s.devs id).devType).type) (hold id s)).1, false)
      else (linkCrnt id (hold id (hold id s)), true) := by
  have hview := view_hold id s
  have hcrnt' := (findCrnt_of_view hview saddr).trans hcrnt
  have hallow' := (findAllow_of_view hview saddr).trans hallow
  have htype : (hold id s).types ((hold id s).devs id).devType = s.types (s.devs id).devType := by
    simp only [hold, State.setDev, update_self]
  unfold admitByType
  rw [add2crnt_registered mem hcrnt' hallow', htype]
  rfl

theorem checkBytype_found :
    checkBytype saddr mem s =
      if (s.types (s.devs id).devType).type < accDevtypeOther then
        if fullByType (s.types (s.devs id).devType) then
          (ipaccPutDev id (ipaccKickIdleOutoff (some (s.types (s.devs id).devType).type)
            (hold id s)).1, false)
        else (ipaccPutDev id (linkCrnt id (hold id (hold id s))), true)
      else (ipaccPutDev id (hold id s), false) := by
  have htype : (hold id s).types ((hold id s).devs id).devType = s.types (s.devs id).devType := by
    simp only [hold, State.setDev, update_self]
  unfold checkBytype ipaccGetFromAllow
  rw [hallow]
  simp only [map_some, admitByType_hold mem hcrnt hallow, htype]
  split
  · split <;> rfl
  · rfl

end

theorem checkBytype_unbacked (hallow : findAllow saddr s = none) :
    checkBytype saddr none s = (s, false) := by
  have hget : ipaccGetFromAllow saddr s = none := congrArg (Option.map _) hallow
  unfold checkBytype
  dsimp only
  rw [add2allow_static hallow, isSome_none, if_neg Bool.false_ne_true, hget]

theorem checkBytype_new (h : Sound s) (junk : Nat) (hinited : s.inited = true)
    (hcrnt : findCrnt saddr s = none) (hallow : findAllow saddr s = none) :
    checkBytype saddr (some junk) s =
      if fullByType (s.types ⟨accDevtypePc, accDevtypePc_lt⟩) then
        ((ipaccKickIdleOutoff (some (s.types ⟨accDevtypePc, accDevtypePc_lt⟩).type)
          (hold s.next (s.registered (staticDevice saddr)))).1, false)
      else
        (linkCrnt s.next (hold s.next (hold s.next (s.registered (staticDevice saddr)))),
          true) := by
  have hget : ipaccGetFromAllow saddr s = none := congrArg (Option.map _) hallow
  have hfound := findAllow_registered s (staticDevice saddr)
  have hgot : ipaccGetFromAllow saddr (s.registered (staticDevice saddr)) =
      some (s.next, hold s.next (s.registered (staticDevice saddr))) :=
    congrArg (Option.map _) hfound
  have htype : (s.registered (staticDevice saddr)).types
      ((s.registered (staticDevice saddr)).devs s.next).devType =
      s.types ⟨accDevtypePc, accDevtypePc_lt⟩ := by
    simp only [State.registered, State.alloc, State.setDev, update_self, staticDevice]
  unfold checkBytype
  rw [hget]
  dsimp only
  rw [add2allow_static hallow, isSome_some, if_pos rfl, hgot]
  dsimp only
  rw [admitByType_hold (some junk) (h.findCrnt_registered hallow hinited hcrnt) hfound, htype]

theorem checkBytype_registered
    (hcrnt : findCrnt saddr s = none) (hallow : findAllow saddr s = some id) :
    ((checkBytype saddr mem s).2 = false ∧ (checkBytype saddr mem s).1.view = s.view) ∨
    (fullByType (s.types (s.devs id).devType) = false ∧ (checkBytype saddr mem s).2 = true ∧
      (checkBytype saddr mem s).1.view = (enter id s).view) := by
  have hview := view_hold id s
  rw [checkBytype_found mem hcrnt hallow]
  split
  · cases fullByType (s.types (s.devs id).devType) with
    | true => exact .inl ⟨rfl, (view_put id _).trans ((view_kick _ _).trans hview)⟩
    | false =>
      refine .inr ⟨rfl, rfl, ?_⟩
      exact (view_put id _).trans ((view_link_hold id _).trans (view_enter_of_view hview id))
  · exact .inl ⟨rfl, (view_put id _).trans hview⟩

theorem checkBytype_unknown (h : Sound s) (mem : Option Nat) (hinited : s.inited = true)
    (hcrnt : findCrnt saddr s = none) (hallow : findAllow saddr s = none) :
    (mem = none ∧ checkBytype saddr mem s = (s, false)) ∨
    (mem.isSome ∧ (checkBytype saddr mem s).2 = false ∧
      (checkBytype saddr mem s).1.view = (s.registered (staticDevice saddr)).view) ∨
    (mem.isSome ∧ fullByType (s.types ⟨accDevtypePc, by decide⟩) = false ∧
      (checkBytype saddr mem s).2 = true ∧
      (checkBytype saddr mem s).1.view =
        (enter s.next (s.registered (staticDevice saddr))).view) := by
  cases mem with
  | none => exact .inl ⟨rfl, checkBytype_unbacked hallow⟩
  | some junk =>
    have hview := view_hold s.next (s.registered (staticDevice saddr))
    rw [checkBytype_new h junk hinited hcrnt hallow]
    cases fullByType (s.types ⟨accDevtypePc, accDevtypePc_lt⟩) with
    | true => exact .inr (.inl ⟨rfl, rfl, (view_kick _ _).trans hview⟩)
    | false =>
      refine .inr (.inr ⟨rfl, rfl, rfl, ?_⟩)
      exact (view_link_hold s.next _).trans (view_enter_of_view hview s.next)

/-! ### The check of one packet -/

/-- In a restricted mode the packet has a LAN source and leaves by a WAN that is not
bridged. -/
structure Subject (s : State) (p : Packet) (saddr : Addr) : Prop where
  inited : s.inited = true
  mode : s.enable = accModeBytotal ∨ s.enable = accModeBytype
  iph : p.iph = some saddr
  lan : lanSource s saddr = true
  wan : bridgeWan s p.wan = false

theorem Subject.unique {other : Addr} (h : Subject s p saddr)
    (hother : Subject s p other) : other = saddr :=
  some_inj.mp (hother.iph.symm.trans h.iph)

/-- A packet without a new source changes nothing, apart from the lifetime of a current
device. -/
def Spared (p : Packet) (s : State) : Prop :=
  (ipaccRestricCheck p s).1 = s ∨
    ∃ saddr id, findCrnt saddr s = some id ∧
      (ipaccRestricCheck p s).1 = ipaccPutDev id (ipaccDevRetimer id (hold id s))

theorem Spared.view_eq (h : Spared p s) : (ipaccRestricCheck p s).1.view = s.view := by
  rcases h with hsame | ⟨_, id, -, hput⟩
  · rw [hsame]
  · rw [hput, view_put, view_retimer, view_hold]

theorem restricCheck_cases (p : Packet) (s : State) :
    (Spared p s ∧ ∀ saddr, Subject s p saddr → findCrnt saddr s ≠ none) ∨
    ∃ saddr, Subject s p saddr ∧ findCrnt saddr s = none ∧
      ((s.enable = accModeBytotal ∧ ipaccRestricCheck p s = checkBytotal saddr p.mem s) ∨
        (s.enable = accModeBytype ∧ ipaccRestricCheck p s = checkBytype saddr p.mem s)) := by
  unfold Spared ipaccRestricCheck
  split
  next hinited =>
    exact .inl ⟨.inl rfl, fun _ hsubject => absurd (hsubject.inited.symm.trans hinited) nofun⟩
  rename_i hinited
  split
  next hmode =>
    refine .inl ⟨.inl rfl, ?_⟩
    intro saddr hsubject
    have hboth := hsubject.mode
    rw [hmode] at hboth
    exact absurd hboth (by decide)
  · cases hiph : p.iph with
    | none => exact .inl ⟨.inl rfl, fun _ hsubject => absurd (hsubject.iph.symm.trans hiph) nofun⟩
    | some saddr =>
      have hsource (other : Addr) (hsubject : Subject s p other) : other = saddr :=
        some_inj.mp (hsubject.iph.symm.trans hiph)
      dsimp only
      split
      next hlan =>
        refine .inl ⟨.inl rfl, ?_⟩
        intro other hsubject
        rw [← hsource other hsubject, hsubject.lan] at hlan
        cases hlan
      next hlan =>
        split
        next hwan =>
          refine .inl ⟨.inl rfl, ?_⟩
          intro other hsubject
          rw [hsubject.wan] at hwan
          cases hwan
        next hwan =>
          cases hfind : findCrnt saddr s with
          | some id =>
            simp only [ipaccGetFromCrnt, hfind, map_some]
            refine .inl ⟨.inr ⟨saddr, id, hfind, rfl⟩, ?_⟩
            intro other hsubject
            rw [hsource other hsubject, hfind]
            exact some_ne_none id
          | none =>
            simp only [ipaccGetFromCrnt, hfind, map_none]
            have hsubject (hmode : s.enable = accModeBytotal ∨
                s.enable = accModeBytype) : Subject s p saddr :=
              ⟨not_eq_false _ ▸ hinited, hmode, hiph, not_eq_false _ ▸ hlan, not_eq_true _ ▸ hwan⟩
            split
            next htotal =>
              exact .inr ⟨saddr, hsubject (.inl htotal), hfind, .inl ⟨htotal, rfl⟩⟩
            rename_i hnot
            split
            next htype =>
              exact .inr ⟨saddr, hsubject (.inr htype), hfind, .inr ⟨htype, rfl⟩⟩
            rename_i hnot'
            refine .inl ⟨.inl rfl, ?_⟩
            intro other hother
            rcases hother.mode with hmode | hmode
            · exact absurd hmode hnot
            · exact absurd hmode hnot'

theorem Limited.alloc (h : Limited s) (d : Device) : Limited (s.alloc d) :=
  { h with }

theorem Limited.restricCheck (h : Limited s) (hsound : Sound s) (p : Packet) :
    Limited (ipaccRestricCheck p s).1 := by
  rcases restricCheck_cases p s with ⟨hspared, -⟩ | ⟨saddr, hsubject, hcrnt, hcase⟩
  · exact h.of_view hspared.view_eq
  rcases hcase with ⟨hmode, hcheck⟩ | ⟨hmode, hcheck⟩
  · have hnot : s.enable ≠ accModeBytype := by
      rw [hmode]
      decide
    have hkick := view_kick none s
    have hkicked := h.of_view hkick
    rw [hcheck]
    rcases checkBytotal_cases s saddr p.mem with ⟨-, -, hfull⟩ | ⟨hroom, -, hadd⟩
    · rw [hfull]
      exact hkicked
    rw [hadd]
    have hcrnt' := (findCrnt_of_view hkick saddr).trans hcrnt
    rcases add2crnt_cases p.mem hcrnt' with
      ⟨id, -, hview⟩ | ⟨-, -, hsame⟩ | ⟨-, junk, -, hview⟩
    · refine Limited.of_view ?_ (hview.trans (view_enter_of_view hkick id))
      exact h.enter (fun _ => hroom) (fun hother => absurd hother hnot)
    · rw [hsame]
      exact hkicked
    refine Limited.of_view ?_ hview
    have hroom' := (congrArg (fun v : State => v.totalCrnt < v.totalAllow) hkick).mpr hroom
    have hmode' := (congrArg State.enable hkick).trans_ne hnot
    exact (hkicked.alloc _).enter (fun _ => hroom') (fun hother => absurd hother hmode')
  · have hnot : s.enable ≠ accModeBytotal := by
      rw [hmode]
      decide
    rw [hcheck]
    cases hallow : findAllow saddr s with
    | some id =>
      rcases checkBytype_registered p.mem hcrnt hallow with
        ⟨-, hview⟩ | ⟨hroom, -, hview⟩
      · exact h.of_view hview
      · refine Limited.of_view ?_ hview
        exact h.enter (fun hother => absurd hother hnot) (fun _ => hroom)
    | none =>
      have hregistered : Limited (s.registered (staticDevice saddr)) := { h with }
      rcases checkBytype_unknown hsound p.mem hsubject.inited hcrnt hallow with
        ⟨-, hsame⟩ | ⟨-, -, hview⟩ | ⟨-, hroom, -, hview⟩
      · rw [hsame]
        exact h
      · exact hregistered.of_view hview
      refine Limited.of_view ?_ hview
      refine hregistered.enter (fun hother => absurd hother hnot) ?_
      intro _
      simp only [State.registered, State.alloc, State.setDev, update_self]
      exact hroom

def Event.keepsConfig : Event → Bool
  | .set _ | .addwan _ _ | .delwan _ => false
  | _ => true

theorem Limited.step (h : Limited s) (hsound : Sound s) {event : Event}
    (hkeeps : event.keepsConfig) : Limited (step event s) := by
  cases event with
  | packet p => exact h.restricCheck hsound p
  | regdev desc mem =>
    simp only [Access.step, ipaccRstricRegdev]
    split
    · exact h.add2allow desc accDynamicIp mem
    · exact h
  | unregdev addr =>
    simp only [Access.step, ipaccRstricUnregdev]
    split
    · exact (h.rmFromAllow addr).rmFromCrnt addr
    · exact h
  | set desc => cases hkeeps
  | addwan wan mem => cases hkeeps
  | delwan name => cases hkeeps
  | restart => exact h.of_view (view_kick none s)
  | lanPortUpDown => exact h.of_view (view_probeIdle _ s)
  | arpReply addr => exact h.of_view (view_probeReply addr s)
  | devTimeout id =>
    simp only [Access.step, ipaccDevTimeout]
    split
    · have hfired : Limited (s.setDev id { s.devs id with timer := false }) := { h with }
      exact hfired.rmFromCrnt _
    · exact h
  | probeTimeout id =>
    simp only [Access.step, ipaccArpProbeTimeout]
    split
    · split
      · have hfired : Limited (s.setDev id { s.devs id with probe := false }) := { h with }
        have hremoved := hfired.rmFromCrnt (s.devs id).addr
        split
        · exact hremoved.rmFromAllow _
        · exact hremoved
      · exact { h with }
    · exact h

/-! ### What passes -/

def Admitted (s : State) (addr : Addr) : Prop :=
  ∃ id ∈ entries s.crntDevs, (s.devs id).addr = addr

theorem Admitted.of_view (h : Admitted s addr) (hview : s'.view = s.view) : Admitted s' addr := by
  have hs : Admitted s.view addr := h
  have hs' : Admitted s'.view addr := hview ▸ hs
  exact hs'

theorem admitted_enter (id : Nat) (s : State) : Admitted (enter id s) (s.devs id).addr := by
  have hperm := entries_insert_perm s.crntDevs (accDevaddrHashKey (s.devs id).addr) id
  exact ⟨id, hperm.mem_iff.mpr List.mem_cons_self, rfl⟩

/-- In the mode by total a new device that is not registered has room, but there is no memory. -/
def Unbacked (p : Packet) (s : State) : Prop :=
  ∃ saddr, Subject s p saddr ∧ s.enable = accModeBytotal ∧ findCrnt saddr s = none ∧
    findAllow saddr s = none ∧ s.totalCrnt < s.totalAllow ∧ p.mem = none

def PassesAdmitted (p : Packet) (s : State) : Prop :=
  ∀ saddr, Subject s p saddr → (ipaccRestricCheck p s).2 = true →
    Admitted (ipaccRestricCheck p s).1 saddr

theorem Sound.not_admitted (h : Sound s) (hinited : s.inited = true)
    (hcrnt : findCrnt saddr s = none) : ¬ Admitted s saddr := by
  rintro ⟨id, hid, haddr⟩
  exact h.findCrnt_none hinited hcrnt id hid haddr

theorem Sound.passesAdmitted_bytotal (h : Sound s) (hsubject : Subject s p saddr)
    (hmode : s.enable = accModeBytotal) (hcrnt : findCrnt saddr s = none)
    (hcheck : ipaccRestricCheck p s = Access.checkBytotal saddr p.mem s) :
    PassesAdmitted p s ↔ ¬ Unbacked p s := by
  have hkick := view_kick none s
  have hcrnt' := (findCrnt_of_view hkick saddr).trans hcrnt
  unfold PassesAdmitted
  rw [hcheck]
  rcases checkBytotal_cases s saddr p.mem with ⟨hfull, hdrop, -⟩ | ⟨hroom, hpass, hadd⟩
  · constructor
    · rintro - ⟨_, -, -, -, -, hroom, -⟩
      exact absurd hroom (not_lt.mpr hfull)
    · intro _ _ _ hpassed
      rw [hdrop] at hpassed
      cases hpassed
  · rcases add2crnt_cases p.mem hcrnt' with
      ⟨id, hallow, hview⟩ | ⟨hallow, hmem, hsame⟩ | ⟨-, junk, hmem, hview⟩
    · rw [findAllow_of_view hkick] at hallow
      constructor
      · rintro - ⟨other, hother, -, -, hnone, -⟩
        rw [hsubject.unique hother, hallow] at hnone
        cases hnone
      intro _ other hother _
      rw [hadd, hsubject.unique hother]
      have hnew := admitted_enter id s
      rw [(findAllow_some hallow).2] at hnew
      exact hnew.of_view (hview.trans (view_enter_of_view hkick id))
    · rw [findAllow_of_view hkick] at hallow
      refine iff_of_false ?_ ?_
      · intro hpasses
        have hadmitted := hpasses saddr hsubject hpass
        rw [hadd, hsame] at hadmitted
        exact h.not_admitted hsubject.inited hcrnt (hadmitted.of_view hkick.symm)
      · intro hbacked
        exact hbacked ⟨saddr, hsubject, hmode, hcrnt, hallow, hroom, hmem⟩
    · constructor
      · rintro - ⟨_, -, -, -, -, -, hnone⟩
        rw [hmem] at hnone
        cases hnone
      intro _ other hother _
      rw [hadd, hsubject.unique hother]
      have hnew := admitted_enter (ipaccKickIdleOutoff none s).1.next
        ((ipaccKickIdleOutoff none s).1.alloc (unknownDevice saddr junk))
      simp only [State.alloc, State.setDev, update_self] at hnew
      exact hnew.of_view hview

theorem Sound.passesAdmitted_bytype (h : Sound s) (hsubject : Subject s p saddr)
    (hcrnt : findCrnt saddr s = none)
    (hcheck : ipaccRestricCheck p s = Access.checkBytype saddr p.mem s) : PassesAdmitted p s := by
  intro other hother hpassed
  rw [hsubject.unique hother]
  rw [hcheck] at hpassed ⊢
  cases hallow : findAllow saddr s with
  | some id =>
    rcases checkBytype_registered p.mem hcrnt hallow with ⟨hdrop, -⟩ | ⟨-, -, hview⟩
    · rw [hdrop] at hpassed
      cases hpassed
    · have hnew := admitted_enter id s
      rw [(findAllow_some hallow).2] at hnew
      exact hnew.of_view hview
  | none =>
    rcases checkBytype_unknown h p.mem hsubject.inited hcrnt hallow with
      ⟨-, hsame⟩ | ⟨-, hdrop, -⟩ | ⟨-, -, -, hview⟩
    · rw [hsame] at hpassed
      cases hpassed
    · rw [hdrop] at hpassed
      cases hpassed
    · have hnew := admitted_enter s.next (s.registered (staticDevice saddr))
      simp only [State.registered, State.alloc, State.setDev, update_self] at hnew
      exact hnew.of_view hview

theorem Sound.passesAdmitted_iff (h : Sound s) (p : Packet) :
    PassesAdmitted p s ↔ ¬ Unbacked p s := by
  rcases restricCheck_cases p s with ⟨hspared, hknown⟩ | ⟨saddr, hsubject, hcrnt, hcase⟩
  · refine iff_of_true ?_ ?_
    · intro saddr hsubject _
      obtain ⟨id, hfind⟩ := ne_none_iff_exists'.mp (hknown saddr hsubject)
      have hcurrent : Admitted s saddr := ⟨id, findCrnt_some hfind⟩
      exact hcurrent.of_view hspared.view_eq
    · rintro ⟨saddr, hsubject, -, hnone, -⟩
      exact hknown saddr hsubject hnone
  · rcases hcase with ⟨hmode, hcheck⟩ | ⟨hmode, hcheck⟩
    · exact h.passesAdmitted_bytotal hsubject hmode hcrnt hcheck
    refine iff_of_true (h.passesAdmitted_bytype hsubject hcrnt hcheck) ?_
    rintro ⟨_, -, htotal, -⟩
    rw [hmode] at htotal
    exact absurd htotal (by decide)

def Event.passesAdmitted : Event → State → Prop
  | .packet p, s => PassesAdmitted p s
  | _, _ => True

def Event.backed : Event → State → Prop
  | .packet p, s => ¬ Unbacked p s
  | _, _ => True

theorem Sound.event_iff (h : Sound s) (event : Event) :
    event.passesAdmitted s ↔ event.backed s := by
  cases event with
  | packet p => exact h.passesAdmitted_iff p
  | _ => exact Iff.rfl

/-- With a fixed configuration and no current device at first, the current devices stay within the
limit of the mode. Every packet with a LAN source that passes in a restricted mode to a WAN that
is not bridged comes from a current device, exactly if the kernel has memory whenever the mode by
total admits a device that is not registered. -/
theorem access_limit_iff (history events : List Event)
    (hempty : entries (run step history ipaccInit).crntDevs = [])
    (hfixed : ∀ event ∈ events, event.keepsConfig) :
    ((run step (history ++ events) ipaccInit).enable = accModeBytotal →
      (entries (run step (history ++ events) ipaccInit).crntDevs).length ≤
        (run step (history ++ events) ipaccInit).totalAllow) ∧
    ((run step (history ++ events) ipaccInit).enable = accModeBytype →
      ∀ i, ((run step (history ++ events) ipaccInit).types i).enable = 1 →
        ((entries (run step (history ++ events) ipaccInit).crntDevs).countP fun id =>
          ((run step (history ++ events) ipaccInit).devs id).devType = i) ≤
          ((run step (history ++ events) ipaccInit).types i).totalAllow) ∧
    (Allowed step Event.passesAdmitted events (run step history ipaccInit) ↔
      Allowed step Event.backed events (run step history ipaccInit)) := by
  have hstart := sound_run history
  have hend := sound_run (history ++ events)
  have hlimited : Sound (run step (history ++ events) ipaccInit) ∧
      Limited (run step (history ++ events) ipaccInit) := by
    rw [run_append]
    apply run_invariant (P := fun s => Sound s ∧ Limited s)
    · intro event hevent s hs
      exact ⟨hs.1.step event, hs.2.step hs.1 (hfixed event hevent)⟩
    · exact ⟨hstart, hstart.limited_of_empty hempty⟩
  refine ⟨?_, ?_, ?_⟩
  · intro hmode
    rw [← hend.total]
    exact hlimited.2.total hmode
  · intro hmode i henable
    rw [← hend.types i]
    exact hlimited.2.types hmode i henable
  apply Allowed.iff_of_invariant (P := Sound)
  · intro event s hs
    exact hs.event_iff event
  · intro event s hs _
    exact hs.step event
  · exact hstart

/-- One device may be current; the LAN is `192.168.1.0/24`. -/
def oneByTotal : RestricDesc where
  enable := accModeBytotal
  totalAllow := 1
  lanHost := 0xC0A80101
  lanMask := 0xFFFFFF00
  accDevtype := fun i => { enable := 0, type := i, totalAllow := 0 }

def firstPacket : Packet where
  wan := "nas0"
  iph := some 0xC0A80102
  mem := mem

/-- Three devices, of which two may be current, and a second packet of the first one. -/
def threeDevices : List Event :=
  [.packet (firstPacket (some 0)), .packet { firstPacket (some 0) with iph := some 0xC0A80103 },
    .packet { firstPacket (some 0) with iph := some 0xC0A80104 }, .packet (firstPacket none)]

theorem third_device_within_limit :
    (entries (run step ([.set { oneByTotal with totalAllow := 2 }] ++ threeDevices)
        ipaccInit).crntDevs).length ≤ 2 ∧
      Allowed step Event.passesAdmitted threeDevices
        (run step [.set { oneByTotal with totalAllow := 2 }] ipaccInit) := by
  have hlimit := access_limit_iff [.set { oneByTotal with totalAllow := 2 }] threeDevices rfl
    (by simp [threeDevices, Event.keepsConfig])
  refine ⟨hlimit.1 rfl, hlimit.2.2.mpr ⟨?_, ?_, ?_, ?_, trivial⟩⟩
  · exact fun ⟨_, _, _, _, _, _, hmem⟩ => nomatch hmem
  · exact fun ⟨_, _, _, _, _, _, hmem⟩ => nomatch hmem
  · exact fun ⟨_, _, _, _, _, _, hmem⟩ => nomatch hmem
  · rintro ⟨saddr, hsubject, -, hcrnt, -⟩
    obtain rfl := Option.some_inj.mp hsubject.iph
    cases hcrnt

/-- Without memory for it, the first device is passed on and is not current. -/
theorem device_without_memory_passes :
    Subject (run step [.set oneByTotal] ipaccInit) (firstPacket none) 0xC0A80102 ∧
      (ipaccRestricCheck (firstPacket none) (run step [.set oneByTotal] ipaccInit)).2 = true ∧
      ¬ Admitted (ipaccRestricCheck (firstPacket none)
        (run step [.set oneByTotal] ipaccInit)).1 0xC0A80102 := by
  refine ⟨⟨rfl, .inl rfl, rfl, rfl, rfl⟩, rfl, ?_⟩
  rintro ⟨id, hid, -⟩
  cases hid

/-! ### What a refused packet leaves -/

def SameDevices (s s' : State) : Prop :=
  s'.allowDevs = s.allowDevs ∧ s'.crntDevs = s.crntDevs ∧
    ∀ id, (s'.devs id).addr = (s.devs id).addr

theorem SameDevices.of_view (h : s'.view = s.view) : SameDevices s s' := by
  have hallow := congrArg State.allowDevs h
  have hcrnt := congrArg State.crntDevs h
  have haddr (id : Nat) := congrArg (fun v : State => (v.devs id).addr) h
  exact ⟨hallow, hcrnt, haddr⟩

/-- The mode is by type, the source is not known, and the kernel has memory for it. -/
def Registers (p : Packet) (s : State) : Prop :=
  ∃ saddr, Subject s p saddr ∧ s.enable = accModeBytype ∧ findCrnt saddr s = none ∧
    findAllow saddr s = none ∧ p.mem.isSome

/-- A dropped packet leaves the allowed and the current devices as they were, exactly if it does
not come from an unknown source in the mode by type. -/
theorem refused_no_trace_iff (events : List Event) (p : Packet)
    (hdrop : (ipaccRestricCheck p (run step events ipaccInit)).2 = false) :
    SameDevices (run step events ipaccInit) (ipaccRestricCheck p (run step events ipaccInit)).1 ↔
      ¬Registers p (run step events ipaccInit) := by
  have hsound := sound_run events
  generalize run step events ipaccInit = s at hdrop hsound ⊢
  rcases restricCheck_cases p s with ⟨hspared, hknown⟩ | ⟨saddr, hsubject, hcrnt, hcase⟩
  · refine iff_of_true (.of_view hspared.view_eq) ?_
    rintro ⟨saddr, hsubject, -, hnone, -⟩
    exact hknown saddr hsubject hnone
  rcases hcase with ⟨hmode, hcheck⟩ | ⟨hmode, hcheck⟩
  · rw [hcheck] at hdrop ⊢
    rcases checkBytotal_cases s saddr p.mem with ⟨-, -, hfull⟩ | ⟨-, hpass, -⟩
    · refine iff_of_true (hfull ▸ .of_view (view_kick none s)) ?_
      rintro ⟨_, -, htype, -⟩
      exact absurd (hmode.symm.trans htype) (by decide)
    · exact absurd (hpass.symm.trans hdrop) (by decide)
  rw [hcheck] at hdrop ⊢
  cases hallow : findAllow saddr s with
  | some id =>
    rcases checkBytype_registered p.mem hcrnt hallow with ⟨-, hview⟩ | ⟨-, hpass, -⟩
    · refine iff_of_true (.of_view hview) ?_
      rintro ⟨other, hother, -, -, hnone, -⟩
      rw [hsubject.unique hother, hallow] at hnone
      cases hnone
    · exact absurd (hpass.symm.trans hdrop) (by decide)
  | none =>
    rcases checkBytype_unknown hsound p.mem hsubject.inited hcrnt hallow with
      ⟨hmem, hsame⟩ | ⟨hmem, -, hview⟩ | ⟨-, -, hpass, -⟩
    · refine iff_of_true (hsame ▸ .of_view rfl) ?_
      rintro ⟨_, -, -, -, -, hsome⟩
      simp [hmem] at hsome
    · refine iff_of_false ?_ (not_not.mpr ⟨saddr, hsubject, hmode, hcrnt, hallow, hmem⟩)
      rintro ⟨htable, -, -⟩
      have hnew := congrFun ((congrArg State.allowDevs hview).symm.trans htable)
        (accDevaddrHashKey saddr)
      simp [State.view, State.registered, Buckets.insert, staticDevice] at hnew
    · exact absurd (hpass.symm.trans hdrop) (by decide)

/-- The packet of a second device when the only place is taken. -/
theorem full_by_total_no_trace :
    SameDevices (run step [.set oneByTotal, .packet (firstPacket (some 0))] ipaccInit)
      (ipaccRestricCheck { firstPacket (some 0) with iph := some 0xC0A80103 }
        (run step [.set oneByTotal, .packet (firstPacket (some 0))] ipaccInit)).1 :=
  (refused_no_trace_iff [.set oneByTotal, .packet (firstPacket (some 0))]
    { firstPacket (some 0) with iph := some 0xC0A80103 } rfl).mpr
    fun ⟨_, _, hmode, _⟩ => absurd hmode (by decide)

def noneByType : RestricDesc :=
  { oneByTotal with
    enable := accModeBytype
    accDevtype := fun i => { enable := 1, type := i, totalAllow := 0 } }

theorem refused_computer_registered :
    (ipaccRestricCheck (firstPacket (some 0)) (run step [.set noneByType] ipaccInit)).2 = false ∧
    findAllow 0xC0A80102 (run step [.set noneByType] ipaccInit) = none ∧
    findAllow 0xC0A80102 (ipaccRestricCheck (firstPacket (some 0))
      (run step [.set noneByType] ipaccInit)).1 = some 0 :=
  ⟨rfl, rfl, rfl⟩

end EchoLife.Access

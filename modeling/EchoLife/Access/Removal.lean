import EchoLife.Access.Counts

/-!
Taking devices off the current lists: which ones a timeout, an unregistration and a new
configuration take, and what happens to their objects.
-/

namespace EchoLife.Access

open Buckets Function List Run

theorem Device.dirty_leave (d : Device) : d.leave.dirty = d.dirty := by
  unfold Device.leave
  split <;> rfl

private theorem dropCrnt_devs (id : Nat) (s : State) :
    (dropCrnt id (hold id s)).devs = update s.devs id (s.devs id).leave.stopProbe := by
  simp only [dropCrnt, ipaccPutDev, unlinkCrnt, hold, State.setDev, update_self, update_idem]
  unfold Device.leave
  split
  · unfold Device.stopProbe
    split <;> simp
  · unfold Device.stopProbe
    split <;> simp

variable {s s' : State} {id : Nat} {s'' : State} {addr : Addr} {desc : RestricDesc}

private theorem dropCrnt_freed (hclean : (s.devs id).dirty = false) :
    (dropCrnt id (hold id s)).freed = s.freed := by
  have hdirty : ((unlinkCrnt id (hold id s)).devs id).stopProbe.dirty = false := by
    have hstop (d : Device) : d.stopProbe.dirty = d.dirty := by
      unfold Device.stopProbe
      split <;> rfl
    simp only [unlinkCrnt, hold, State.setDev, update_self, hstop, Device.dirty_leave, hclean]
  simp only [dropCrnt, ipaccPutDev, State.setDev, update_self, hdirty,
    Bool.false_eq_true, false_and, if_false]
  rfl

/-- The second state is the first one with the devices in `gone` dropped. -/
structure Drops (gone : Nat → Prop) (s s' : State) : Prop where
  mem : ∀ id, gone id → id ∈ entries s.crntDevs
  dropped : ∀ id, gone id → s'.devs id = (s.devs id).leave.stopProbe
  kept : ∀ id, ¬ gone id → s'.devs id = s.devs id
  crnt : ∀ id, id ∈ entries s'.crntDevs ↔ id ∈ entries s.crntDevs ∧ ¬ gone id
  allow : s'.allowDevs = s.allowDevs
  next : s'.next = s.next
  twice : s'.twice = s.twice
  freed : (∀ id, gone id → (s.devs id).dirty = false) → s'.freed = s.freed

theorem Drops.congr {gone gone' : Nat → Prop} (h : Drops gone s s')
    (hiff : ∀ id, gone id ↔ gone' id) : Drops gone' s s' := by
  have hsame : gone = gone' := funext fun id => propext (hiff id)
  exact hsame ▸ h

theorem Drops.none (hdevs : s'.devs = s.devs)
    (hcrnt : s'.crntDevs = s.crntDevs) (hallow : s'.allowDevs = s.allowDevs)
    (hnext : s'.next = s.next) (htwice : s'.twice = s.twice) (hfreed : s'.freed = s.freed) :
    Drops (fun _ => False) s s' where
  mem _ hgone := hgone.elim
  dropped _ hgone := hgone.elim
  kept id _ := congrFun hdevs id
  crnt id := by rw [hcrnt, not_false_eq_true, and_true]
  allow := hallow
  next := hnext
  twice := htwice
  freed _ := hfreed

private theorem drops_setType (s : State) (i : Fin accDevtypeButt) (hdr : DevtypeHdr) :
    Drops (fun _ => False) s (s.setType i hdr) :=
  .none rfl rfl rfl rfl rfl rfl

/-- What goes in two steps after each other. -/
theorem Drops.trans {first second : Nat → Prop} (h : Drops first s s')
    (h' : Drops second s' s'') : Drops (fun id => first id ∨ second id) s s'' := by
  have hmem (id : Nat) (hsecond : second id) := (h.crnt id).mp (h'.mem id hsecond)
  refine ⟨?_, ?_, ?_, ?_, ?_, ?_, ?_, ?_⟩
  · rintro id (hfirst | hsecond)
    · exact h.mem id hfirst
    · exact (hmem id hsecond).1
  · rintro id (hfirst | hsecond)
    · have hnot : ¬ second id := fun hsecond => (hmem id hsecond).2 hfirst
      rw [h'.kept id hnot, h.dropped id hfirst]
    · rw [h'.dropped id hsecond, h.kept id (hmem id hsecond).2]
  · intro id hnot
    rw [h'.kept id (fun hsecond => hnot (.inr hsecond)),
      h.kept id (fun hfirst => hnot (.inl hfirst))]
  · intro id
    rw [h'.crnt, h.crnt, and_assoc, not_or]
  · rw [h'.allow, h.allow]
  · rw [h'.next, h.next]
  · rw [h'.twice, h.twice]
  intro hclean
  rw [h'.freed, h.freed]
  · exact fun id hfirst => hclean id (.inl hfirst)
  intro id hsecond
  rw [h.kept id (hmem id hsecond).2]
  exact hclean id (.inr hsecond)

theorem dropCrnt_frame (id : Nat) (s : State) :
    (dropCrnt id s).allowDevs = s.allowDevs ∧ (dropCrnt id s).next = s.next ∧
      (dropCrnt id s).twice = s.twice ∧ (dropCrnt id s).inited = s.inited := by
  simp only [dropCrnt, ipaccPutDev, unlinkCrnt, State.setDev, and_self]

section Functions
variable (h : Sound s)
include h

/-- One current device is dropped, and nothing else happens to the tables. -/
theorem Sound.drops_one (hid : id ∈ entries s.crntDevs) :
    Drops (fun j => j = id) s (Access.dropCrnt id (hold id s)) where
  mem := by
    rintro j rfl
    exact hid
  dropped := by
    rintro j rfl
    rw [dropCrnt_devs, update_self]
  kept j hj := by rw [dropCrnt_devs, update_of_ne hj]
  crnt j := by
    rw [h.mem_dropCrnt hid]
    exact and_comm
  allow := (dropCrnt_frame id (hold id s)).1
  next := (dropCrnt_frame id (hold id s)).2.1
  twice := (dropCrnt_frame id (hold id s)).2.2.1
  freed hclean := dropCrnt_freed (hclean id rfl)

/-- Dropping the devices of a list one after the other drops just these. -/
theorem Sound.drops_all {ids : List Nat} (hnodup : ids.Nodup)
    (hids : ∀ id ∈ ids, id ∈ entries s.crntDevs) :
    Drops (fun j => j ∈ ids) s (ids.foldl (fun now id => Access.dropCrnt id (hold id now)) s) := by
  induction ids generalizing s with
  | nil => exact (Drops.none rfl rfl rfl rfl rfl rfl).congr fun j => by simp
  | cons id rest ih =>
    obtain ⟨hnot, hrest⟩ := nodup_cons.mp hnodup
    have hid := hids id mem_cons_self
    have hone := h.drops_one hid
    have htail := ih (h.dropCrnt hid) hrest (by
      intro j hj
      refine (hone.crnt j).mpr ⟨hids j (mem_cons_of_mem id hj), ?_⟩
      rintro rfl
      exact hnot hj)
    exact (hone.trans htail).congr fun j => mem_cons.symm

/-- Removal by address drops the device that is found at it, if there is one. -/
theorem Sound.drops_rmFromCrnt (addr : Addr) :
    Drops (fun id => findCrnt addr s = some id) s (ipaccRmFromCrnt addr s).1 := by
  unfold ipaccRmFromCrnt ipaccGetFromCrnt
  cases hfind : findCrnt addr s with
  | none => exact (Drops.none rfl rfl rfl rfl rfl rfl).congr fun j => by simp
  | some id =>
    have hone := h.drops_one (findCrnt_some hfind).1
    exact hone.congr fun j => by rw [Option.some_inj, eq_comm]

/-- Clearing a type drops the current devices whose class has that type, whatever the number of the
class is. -/
theorem Sound.drops_clearFromCrnt (type : Nat) :
    Drops (fun id => id ∈ entries s.crntDevs ∧ type < accDevtypeButt ∧ s.inited = true ∧
      (s.types (s.devs id).devType).type = type) s (ipaccClearFromCrnt type s).1 := by
  unfold ipaccClearFromCrnt
  split
  next hrefused =>
    refine (Drops.none rfl rfl rfl rfl rfl rfl).congr fun id => ?_
    refine iff_of_false not_false ?_
    rintro ⟨-, htype, hinited, -⟩
    rcases hrefused with hbutt | hnot
    · exact absurd htype (not_lt.mpr hbutt)
    · rw [hinited] at hnot
      cases hnot
  next haccepted =>
    have hall := h.drops_all (h.crnt_nodup.filter fun id =>
      (s.types (s.devs id).devType).type == type) fun id hid => (mem_filter.mp hid).1
    refine hall.congr fun id => ?_
    rw [not_or, not_le, Bool.not_eq_false] at haccepted
    rw [mem_filter, beq_iff_eq]
    exact ⟨fun hid => ⟨hid.1, haccepted.1, haccepted.2, hid.2⟩, fun hid => ⟨hid.1, hid.2.2.2⟩⟩

end Functions

/-! ### The allowed lists -/

def deregistered (id : Nat) (s : State) : State :=
  { s.setDev id { s.devs id with refcnt := (s.devs id).refcnt - 1, dirty := true } with
    allowDevs := remove s.allowDevs (accDevaddrHashKey (s.devs id).addr) id
    freed := if (s.devs id).refcnt - 1 = 0 then id :: s.freed else s.freed }

theorem rmFromAllow_eq (hfind : findAllow addr s = some id) :
    (ipaccRmFromAllow addr s).1 = deregistered id s := by
  unfold ipaccRmFromAllow ipaccGetFromAllow
  rw [hfind]
  simp [ipaccPutDev, hold, State.setDev, deregistered]

theorem rmFromAllow_none (hfind : findAllow addr s = none) : (ipaccRmFromAllow addr s).1 = s := by
  unfold ipaccRmFromAllow ipaccGetFromAllow
  rw [hfind]
  rfl

/-- Exactly the one device is no longer registered. -/
theorem Sound.mem_deregistered (h : Sound s) {j : Nat} (hid : id ∈ entries s.allowDevs) :
    j ∈ entries (deregistered id s).allowDevs ↔ j ≠ id ∧ j ∈ entries s.allowDevs :=
  mem_entries_remove (List.Nodup.of_map _ h.allowAddr) (h.allowPlaced.mem_slot hid)

/-- Only the count and the mark of a device can change when one is taken out. -/
theorem deregistered_core (id : Nat) (s : State) (j : Nat) :
    ∃ refcnt dirty, (deregistered id s).devs j =
      { s.devs j with refcnt := refcnt, dirty := dirty } := by
  by_cases hj : j = id
  · subst hj
    simp only [deregistered, State.setDev, update_self]
    exact ⟨_, _, rfl⟩
  · simp only [deregistered, State.setDev, update_of_ne hj]
    exact ⟨_, _, rfl⟩

/-- Who is current does not depend on who is registered. -/
theorem findCrnt_rmFromAllow (addr other : Addr) (s : State) :
    findCrnt other (ipaccRmFromAllow addr s).1 = findCrnt other s := by
  cases hfind : findAllow addr s with
  | none => rw [rmFromAllow_none hfind]
  | some id =>
    have haddr (j : Nat) : ((deregistered id s).devs j).addr = (s.devs j).addr := by
      obtain ⟨refcnt, dirty, hdev⟩ := deregistered_core id s j
      rw [hdev]
    rw [rmFromAllow_eq hfind]
    simp only [findCrnt, haddr]
    rfl

/-! ### A new configuration -/

/-- What a clearing reads of the headers; dropping a device changes only counters. -/
structure SameHeaders (s s' : State) : Prop where
  type : ∀ i, (s'.types i).type = (s.types i).type
  totalAllow : ∀ i, (s'.types i).totalAllow = (s.types i).totalAllow
  inited : s'.inited = s.inited

theorem SameHeaders.refl (s : State) : SameHeaders s s :=
  ⟨fun _ => rfl, fun _ => rfl, rfl⟩

theorem SameHeaders.trans (h : SameHeaders s s') (h' : SameHeaders s' s'') : SameHeaders s s'' :=
  ⟨fun i => (h'.type i).trans (h.type i), fun i => (h'.totalAllow i).trans (h.totalAllow i),
    h'.inited.trans h.inited⟩

theorem sameHeaders_dropCrnt (id : Nat) (s : State) : SameHeaders s (dropCrnt id (hold id s)) := by
  have htypes : (dropCrnt id (hold id s)).types =
      update s.types ((hold id s).devs id).devType
        { s.types ((hold id s).devs id).devType with
          totalCrnt := (s.types ((hold id s).devs id).devType).totalCrnt - 1 } := rfl
  generalize ((hold id s).devs id).devType = k at htypes
  refine ⟨?_, ?_, (dropCrnt_frame id (hold id s)).2.2.2⟩
  all_goals
    intro i
    rw [htypes]
    by_cases hi : i = k
    · rw [hi, update_self]
    · rw [update_of_ne hi]

private theorem sameHeaders_clearFromCrnt (type : Nat) (s : State) :
    SameHeaders s (ipaccClearFromCrnt type s).1 := by
  unfold ipaccClearFromCrnt
  split
  · exact .refl s
  rename_i haccepted
  clear haccepted
  generalize (entries s.crntDevs).filter
    (fun id => (s.types (s.devs id).devType).type == type) = ids
  induction ids generalizing s with
  | nil => exact .refl s
  | cons id rest ih =>
    exact (sameHeaders_dropCrnt id s).trans (ih _)

/-- What setting a class does to the headers: its own type, and no limit but its own. -/
private theorem setDevtype_headers (desc : RestricDesc) (s : State) (i : Fin accDevtypeButt) :
    (setDevtype desc s i).inited = s.inited ∧
    (∀ j, ((setDevtype desc s i).types j).type =
      if j = i then (desc.accDevtype i).type else (s.types j).type) ∧
    ∀ j, j ≠ i → ((setDevtype desc s i).types j).totalAllow = (s.types j).totalAllow := by
  have hcleared : SameHeaders (s.setType i { s.types i with
        enable := (desc.accDevtype i).enable, type := (desc.accDevtype i).type })
      (if (desc.accDevtype i).totalAllow < (s.types i).totalAllow then
        (ipaccClearFromCrnt (desc.accDevtype i).type (s.setType i { s.types i with
          enable := (desc.accDevtype i).enable, type := (desc.accDevtype i).type })).1
      else s.setType i { s.types i with
        enable := (desc.accDevtype i).enable, type := (desc.accDevtype i).type }) := by
    split
    · exact sameHeaders_clearFromCrnt _ _
    · exact .refl _
  refine ⟨hcleared.inited, ?_, ?_⟩
  · intro j
    by_cases hj : j = i
    · subst hj
      rw [if_pos rfl]
      simp only [setDevtype, State.setType, update_self]
      refine (hcleared.type j).trans ?_
      simp only [State.setType, update_self]
    · rw [if_neg hj]
      simp only [setDevtype, State.setType, update_of_ne hj]
      refine (hcleared.type j).trans ?_
      simp only [State.setType, update_of_ne hj]
  · intro j hj
    simp only [setDevtype, State.setType, update_of_ne hj]
    refine (hcleared.totalAllow j).trans ?_
    simp only [State.setType, update_of_ne hj]

/-- The turn for header `i` takes out the current devices of header `j`. The headers up
to `i` have their new types then. -/
def Clears (desc : RestricDesc) (s : State) (i j : Fin accDevtypeButt) : Prop :=
  (desc.accDevtype i).totalAllow < (s.types i).totalAllow ∧
    (desc.accDevtype i).type < accDevtypeButt ∧
    (if i < j then (s.types j).type else (desc.accDevtype j).type) = (desc.accDevtype i).type

/-- Setting one class drops the current devices of its new type if its limit has gone down. The
class of a device counts with the type that it has after the change. -/
theorem Sound.drops_setDevtype (h : Sound s) (desc : RestricDesc) (i : Fin accDevtypeButt) :
    Drops (fun id => id ∈ entries s.crntDevs ∧ s.inited = true ∧
      (desc.accDevtype i).totalAllow < (s.types i).totalAllow ∧
      (desc.accDevtype i).type < accDevtypeButt ∧
      (if (s.devs id).devType = i then (desc.accDevtype i).type
        else (s.types (s.devs id).devType).type) = (desc.accDevtype i).type)
      s (Access.setDevtype desc s i) := by
  have hnamed : Sound (s.setType i { s.types i with
      enable := (desc.accDevtype i).enable, type := (desc.accDevtype i).type }) :=
    h.setType rfl
  have hquiet := drops_setType s i { s.types i with
    enable := (desc.accDevtype i).enable, type := (desc.accDevtype i).type }
  unfold Access.setDevtype
  split
  next hless =>
    have hclear := hnamed.drops_clearFromCrnt (desc.accDevtype i).type
    refine ((hquiet.trans hclear).trans (drops_setType _ i _)).congr fun id => ?_
    have htype : ((s.setType i { s.types i with
          enable := (desc.accDevtype i).enable
          type := (desc.accDevtype i).type }).types (s.devs id).devType).type =
        if (s.devs id).devType = i then (desc.accDevtype i).type
          else (s.types (s.devs id).devType).type := by
      simp only [State.setType, update_apply]
      split <;> rfl
    simp only [false_or, or_false]
    constructor
    · rintro ⟨hid, hbutt, hinited, hmatch⟩
      exact ⟨hid, hinited, hless, hbutt, htype.symm.trans hmatch⟩
    · rintro ⟨hid, hinited, -, hbutt, hmatch⟩
      exact ⟨hid, hbutt, hinited, htype.trans hmatch⟩
  next hnot =>
    refine (hquiet.trans (drops_setType _ i _)).congr fun id => ?_
    simp only [or_false]
    exact iff_of_false not_false fun hgone => hnot hgone.2.2.1

/-- The headers in `todo` still have the types and limits of the start, the others
their new types. -/
structure Pending (desc : RestricDesc) (start : State) (todo : List (Fin accDevtypeButt))
    (now : State) : Prop where
  old : ∀ j ∈ todo, (now.types j).type = (start.types j).type ∧
    (now.types j).totalAllow = (start.types j).totalAllow
  new : ∀ j ∉ todo, (now.types j).type = (desc.accDevtype j).type
  inited : now.inited = start.inited

section

variable {start now : State} {i : Fin accDevtypeButt}
  {rest : List (Fin accDevtypeButt)} (h : Pending desc start (i :: rest) now)
include h

theorem Pending.next (hnot : i ∉ rest) : Pending desc start rest (setDevtype desc now i) := by
  obtain ⟨hinited, htype, hallow⟩ := setDevtype_headers desc now i
  refine ⟨?_, ?_, hinited.trans h.inited⟩
  · intro j hj
    have hne : j ≠ i := by
      rintro rfl
      exact hnot hj
    rw [htype j, if_neg hne, hallow j hne]
    exact h.old j (mem_cons_of_mem i hj)
  · intro j hj
    rw [htype j]
    by_cases hi : j = i
    · rw [if_pos hi, hi]
    · rw [if_neg hi]
      exact h.new j fun hmem => (mem_cons.mp hmem).elim hi hj

/-- The types when class `i` has been set: the new ones up to it, the old ones behind it. -/
theorem Pending.type_eq (hlater : ∀ j, j ∈ rest ↔ i < j) (j : Fin accDevtypeButt) :
    (if j = i then (desc.accDevtype i).type else (now.types j).type) =
      if i < j then (start.types j).type else (desc.accDevtype j).type := by
  by_cases hi : j = i
  · subst hi
    rw [if_pos rfl, if_neg (lt_irrefl j)]
  rw [if_neg hi]
  by_cases hlt : i < j
  · rw [if_pos hlt]
    exact (h.old j (mem_cons_of_mem i ((hlater j).mpr hlt))).1
  rw [if_neg hlt]
  refine h.new j fun hmem => ?_
  rcases mem_cons.mp hmem with heq | hrest
  · exact hi heq
  · exact hlt ((hlater j).mp hrest)

end

/-- Setting classes in ascending order drops the devices that any one of them clears, in terms of
the headers before the first. The induction is on the classes still to be set. -/
theorem Sound.drops_fold {start : State} {todo : List (Fin accDevtypeButt)}
    (hsorted : todo.Pairwise (· < ·)) (hupward : ∀ i ∈ todo, ∀ j, i < j → j ∈ todo) {now : State}
    (h : Sound now) (hpending : Pending desc start todo now) :
    Drops (fun id => id ∈ entries now.crntDevs ∧ start.inited = true ∧
      ∃ i ∈ todo, Clears desc start i (now.devs id).devType) now
      (todo.foldl (Access.setDevtype desc) now) := by
  induction todo generalizing now with
  | nil =>
    refine (Drops.none rfl rfl rfl rfl rfl rfl).congr fun id => ?_
    refine iff_of_false not_false ?_
    rintro ⟨-, -, i, hi, -⟩
    cases hi
  | cons i rest ih =>
    obtain ⟨hless, hsorted⟩ := pairwise_cons.mp hsorted
    have hnot : i ∉ rest := fun hmem => lt_irrefl i (hless i hmem)
    have hlater (j : Fin accDevtypeButt) : j ∈ rest ↔ i < j := by
      refine ⟨hless j, fun hlt => ?_⟩
      rcases mem_cons.mp (hupward i mem_cons_self j hlt) with rfl | hrest
      · exact absurd hlt (lt_irrefl j)
      · exact hrest
    have hfirst := h.drops_setDevtype desc i
    have hrest := ih hsorted
      (fun k hk j hlt => (hlater j).mpr (((hlater k).mp hk).trans hlt))
      (h.setDevtype desc i) (hpending.next hnot)
    refine (hfirst.trans hrest).congr fun id => ?_
    have hturn (hid : id ∈ entries now.crntDevs) (hinited : start.inited = true) :
        (id ∈ entries now.crntDevs ∧ now.inited = true ∧
          (desc.accDevtype i).totalAllow < (now.types i).totalAllow ∧
          (desc.accDevtype i).type < accDevtypeButt ∧
          (if (now.devs id).devType = i then (desc.accDevtype i).type
            else (now.types (now.devs id).devType).type) = (desc.accDevtype i).type) ↔
        Clears desc start i (now.devs id).devType := by
      rw [hpending.type_eq hlater, hpending.inited, (hpending.old i mem_cons_self).2]
      exact ⟨fun hall => hall.2.2, fun hclears => ⟨hid, hinited, hclears⟩⟩
    constructor
    · rintro (hgone | ⟨hid, hinited, j, hj, hclears⟩)
      · have hinited := hpending.inited ▸ hgone.2.1
        exact ⟨hgone.1, hinited, i, mem_cons_self, (hturn hgone.1 hinited).mp hgone⟩
      · obtain ⟨hid, hkept⟩ := (hfirst.crnt id).mp hid
        rw [hfirst.kept id hkept] at hclears
        exact ⟨hid, hinited, j, mem_cons_of_mem i hj, hclears⟩
    · rintro ⟨hid, hinited, j, hj, hclears⟩
      by_cases hgone : Clears desc start i (now.devs id).devType
      · exact .inl ((hturn hid hinited).mpr hgone)
      have hkept := mt (hturn hid hinited).mp hgone
      refine .inr ⟨(hfirst.crnt id).mpr ⟨hid, hkept⟩, hinited, j, ?_, ?_⟩
      · rcases mem_cons.mp hj with rfl | hrest
        · exact absurd hclears hgone
        · exact hrest
      · rw [hfirst.kept id hkept]
        exact hclears

/-- A new configuration drops exactly the current devices that one of its classes clears. -/
theorem Sound.drops_setRestric (h : Sound s) (desc : RestricDesc) :
    Drops (fun id => id ∈ entries s.crntDevs ∧ s.inited = true ∧
      ∃ i, Clears desc s i (s.devs id).devType) s (ipaccSetRestric desc s) := by
  have hstart : Sound { s with
      enable := desc.enable, totalAllow := desc.totalAllow
      lanHost := desc.lanHost, lanMask := desc.lanMask } := { h with }
  have hpending : Pending desc s (List.finRange accDevtypeButt) { s with
      enable := desc.enable, totalAllow := desc.totalAllow
      lanHost := desc.lanHost, lanMask := desc.lanMask } :=
    ⟨fun _ _ => ⟨rfl, rfl⟩, fun j hj => absurd (mem_finRange j) hj, rfl⟩
  have hfold := Sound.drops_fold (pairwise_lt_finRange accDevtypeButt)
    (fun _ _ j _ => mem_finRange j) hstart hpending
  have hquiet : Drops (fun _ => False) s { s with
      enable := desc.enable, totalAllow := desc.totalAllow
      lanHost := desc.lanHost, lanMask := desc.lanMask } :=
    .none rfl rfl rfl rfl rfl rfl
  refine (hquiet.trans hfold).congr fun id => ?_
  simp only [false_or, mem_finRange, true_and]

end EchoLife.Access

import EchoLife.Netfilter.Prsite

/-!
The trace timers of the portal's host entries. A timer is started when an entry enters the forced
state and deleted when it leaves it, with one exception: a request to add a host that has an entry
sets the state back and leaves the timer. The next response starts such a timer again, and a
delete request frees the entry around it.
-/

namespace EchoLife.Netfilter.Prsite

open Buckets Function List Run Text

def hosts (s : State) : List Nat :=
  entries s.allAddr ++ entries s.stAllStaticAddr

/-- A host's timer is pending exactly in the forced state, none was added while pending, and none
has gone off for a freed entry. -/
structure TimersFollow (s : State) : Prop where
  pending : ∀ id ∈ hosts s, (s.addrs id).timer = true ↔ (s.addrs id).state = .forced
  once : s.twice = []
  inTime : s.late = []

/-- The invariant, while the entries in `held` are in use: each of them is counted as
often as it is held, and no entry in a table is marked. -/
structure Traced (held : List Nat) (s : State) : Prop where
  pending : ∀ id, (s.addrs id).timer = true ↔ (s.addrs id).state = .forced
  known : ∀ id ∈ hosts s, id < s.next ∧ id ∉ s.freed
  counted : ∀ id ∈ hosts s, (s.addrs id).dirty = false ∧ (s.addrs id).refcnt = held.count id
  stopped : ∀ id ∈ s.freed, id < s.next ∧ (s.addrs id).timer = false
  once : s.twice = []
  inTime : s.late = []

variable {s held : State} {addr : Addr} {a : AffinedAddr}

theorem Traced.timersFollow {held : List Nat} (h : Traced held s) : TimersFollow s where
  pending id _ := h.pending id
  once := h.once
  inTime := h.inTime

theorem Traced.settings {held : List Nat} (h : Traced held s) (sites : Sites)
    (ports staticPorts : Port → Option (Fin affinedAddrBufMax)) (portAddrs : Port → Addr)
    (info : PrsiteUrlInfo) :
    Traced held
      { s with
        sites := sites
        portHashkey := ports
        lStaticPortHashKey := staticPorts
        lPortToAddr := portAddrs
        stPrsiteUrlInfo := info } :=
  ⟨h.pending, h.known, h.counted, h.stopped, h.once, h.inTime⟩

/-! ### Lookups -/

variable {id : Nat} {table : Table} {other : Nat} {source : Addr}

theorem mem_of_findIn (hfind : findIn table addr s = some id) :
    id ∈ entries table ∧ (s.addrs id).addr = addr :=
  mem_of_find?_slot hfind

theorem map_hold_eq_some {find : Option Nat}
    (hget : find.map (fun id => (id, hold id s)) = some (id, held)) :
    find = some id ∧ held = hold id s := by
  obtain ⟨found, hfind, heq⟩ := Option.map_eq_some_iff.mp hget
  obtain ⟨rfl, rfl⟩ := Prod.mk.inj heq
  exact ⟨hfind, rfl⟩

theorem get_eq_some (hget : httpGetAffinedAddr addr s = some (id, held)) :
    id ∈ hosts s ∧ held = hold id s := by
  obtain ⟨hfind, hheld⟩ := map_hold_eq_some hget
  exact ⟨mem_append_left _ (mem_of_findIn hfind).1, hheld⟩

theorem getStatic_eq_some (hget : httpGetAffinedAddrStatic addr s = some (id, held)) :
    id ∈ hosts s ∧ (s.addrs id).addr = addr ∧ held = hold id s := by
  obtain ⟨hfind, hheld⟩ := map_hold_eq_some hget
  obtain ⟨hmem, haddr⟩ := mem_of_findIn hfind
  exact ⟨mem_append_right _ hmem, haddr, hheld⟩

private theorem mem_of_findByPort {hashkey : Port → Option (Fin affinedAddrBufMax)} {port : Port}
    (hfind : findByPort hashkey table port s = some id) : id ∈ entries table := by
  obtain ⟨key, _, hkey⟩ := Option.bind_eq_some_iff.mp hfind
  exact mem_entries.mpr ⟨key, mem_of_find?_eq_some hkey⟩

/-! ### Entries that change -/

section Entries
variable {held held' : List Nat}

theorem Traced.setAddr (h : Traced held s) (hfreed : id ∉ s.freed)
    (hpending : a.timer = true ↔ a.state = .forced)
    (hcounted : id ∈ hosts s → a.dirty = false ∧ a.refcnt = held'.count id)
    (hothers : ∀ other, other ≠ id → held'.count other = held.count other) :
    Traced held' (s.setAddr id a) := by
  have hself : (s.setAddr id a).addrs id = a := update_self ..
  have hother (other : Nat) (hne : other ≠ id) :
      (s.setAddr id a).addrs other = s.addrs other := update_of_ne hne ..
  refine ⟨?_, h.known, ?_, ?_, h.once, h.inTime⟩
  · intro other
    by_cases hne : other = id
    · rw [hne, hself]
      exact hpending
    · rw [hother other hne]
      exact h.pending other
  · intro other hmem
    by_cases hne : other = id
    · rw [hne] at hmem ⊢
      rw [hself]
      exact hcounted hmem
    · rw [hother other hne, hothers other hne]
      exact h.counted other hmem
  · intro other hmem
    have hne : other ≠ id := by
      rintro rfl
      exact hfreed hmem
    rw [hother other hne]
    exact h.stopped other hmem

/-- An entry that is in use may change, as long as its timer follows its state. -/
theorem Traced.update (h : Traced held s) (hmem : id ∈ hosts s)
    (hpending : a.timer = true ↔ a.state = .forced) (hdirty : a.dirty = (s.addrs id).dirty)
    (hrefcnt : a.refcnt = (s.addrs id).refcnt) : Traced held (s.setAddr id a) := by
  apply h.setAddr (h.known id hmem).2 hpending
  · intro _
    rw [hdirty, hrefcnt]
    exact h.counted id hmem
  · intro _ _
    rfl

theorem count_cons_other (held : List Nat) (hne : other ≠ id) :
    (id :: held).count other = held.count other :=
  count_cons_of_ne hne.symm

/-- A reference that is taken is entered in the books. -/
theorem Traced.hold (h : Traced held s) (hmem : id ∈ hosts s) :
    Traced (id :: held) (hold id s) := by
  apply h.setAddr (h.known id hmem).2
  · exact h.pending id
  · intro _
    obtain ⟨hclean, hcount⟩ := h.counted id hmem
    refine ⟨hclean, ?_⟩
    rw [count_cons_self, Nat.cast_succ, hcount]
  · intro other hne
    exact count_cons_other held hne

theorem put_clean (hclean : (s.addrs id).dirty = false) :
    httpPutAffinedAddr id s =
      s.setAddr id { s.addrs id with refcnt := (s.addrs id).refcnt - 1 } := by
  simp [httpPutAffinedAddr, hclean]

/-- A reference that is given back is struck out. -/
theorem Traced.put (h : Traced (id :: held) s) (hmem : id ∈ hosts s) :
    Traced held (httpPutAffinedAddr id s) := by
  obtain ⟨hclean, hcount⟩ := h.counted id hmem
  rw [put_clean hclean]
  apply h.setAddr (h.known id hmem).2
  · exact h.pending id
  · intro _
    refine ⟨hclean, ?_⟩
    rw [hcount, count_cons_self, Nat.cast_succ, add_sub_cancel_right]
  · intro other hne
    exact (count_cons_other held hne).symm

/-! ### Entries that are freed -/

theorem put_dirty (s : State) (id : Nat) (hdirty : a.dirty = true) (hlast : a.refcnt = 1) :
    httpPutAffinedAddr id (s.setAddr id a) = freeAddr id (s.setAddr id { a with refcnt := 0 }) := by
  simp [httpPutAffinedAddr, State.setAddr, hdirty, hlast]

private theorem retire_timer (hpending : a.timer = true ↔ a.state = .forced) :
    a.retire.timer = false ∧ a.retire.state ≠ .forced := by
  unfold AffinedAddr.retire
  split
  · exact ⟨rfl, nofun⟩
  next hstate =>
    exact ⟨Bool.eq_false_iff.mpr (mt hpending.mp hstate), hstate⟩

theorem mem_hosts_freeAddr : other ∈ hosts (freeAddr id s) ↔ other ≠ id ∧ other ∈ hosts s := by
  simp only [hosts, freeAddr, mem_append, mem_entries_unlink, and_or_left]

/-- A host that is freed has no timer, since leaving the state stops it. -/
theorem Traced.free (h : Traced held s) (hmem : id ∈ hosts s)
    (htimer : a.timer = (s.addrs id).timer) (hstate : a.state = (s.addrs id).state)
    (hothers : ∀ other, other ≠ id → held'.count other = held.count other) :
    Traced held' (freeAddr id (s.setAddr id a)) := by
  have hself : (freeAddr id (s.setAddr id a)).addrs id = a.retire := by
    simp [freeAddr, State.setAddr]
  have hother (other : Nat) (hne : other ≠ id) :
      (freeAddr id (s.setAddr id a)).addrs other = s.addrs other := by
    simp [freeAddr, State.setAddr, hne]
  obtain ⟨htimer, hstate⟩ := retire_timer (a := a) (by rw [htimer, hstate]; exact h.pending id)
  refine ⟨?_, ?_, ?_, ?_, h.once, h.inTime⟩
  · intro other
    by_cases hne : other = id
    · rw [hne, hself]
      simp [htimer, hstate]
    · rw [hother other hne]
      exact h.pending other
  · intro other hlinked
    obtain ⟨hne, hwas⟩ := mem_hosts_freeAddr.mp hlinked
    obtain ⟨hnext, hfreed⟩ := h.known other hwas
    exact ⟨hnext, not_mem_cons_of_ne_of_not_mem hne hfreed⟩
  · intro other hlinked
    obtain ⟨hne, hwas⟩ := mem_hosts_freeAddr.mp hlinked
    rw [hother other hne, hothers other hne]
    exact h.counted other hwas
  · intro other hfreed
    by_cases hne : other = id
    · rw [hne, hself]
      exact ⟨(h.known id hmem).1, htimer⟩
    · rw [hother other hne]
      exact h.stopped other (mem_of_ne_of_mem hne hfreed)

theorem discard_eq (id : Nat) (s : State) :
    discard id s = freeAddr id (s.setAddr id { s.addrs id with dirty := true, refcnt := 0 }) :=
  put_dirty s id rfl rfl

theorem Traced.discard (h : Traced held s) (hmem : id ∈ hosts s)
    (hothers : ∀ other, other ≠ id → held'.count other = held.count other) :
    Traced held' (discard id s) := by
  rw [discard_eq]
  exact h.free hmem rfl rfl hothers

end Entries

/-! ### Hosts that are added -/

/-- What the last step of adding a host does: the entry is linked into one of the
tables. -/
structure Links (link : Nat → State → State) : Prop where
  frame : ∀ id s, ∃ allAddr stAllStaticAddr,
    link id s = { s with allAddr := allAddr, stAllStaticAddr := stAllStaticAddr }
  hosts : ∀ id s other, other ∈ hosts (link id s) ↔ other = id ∨ other ∈ hosts s

private theorem links_add : Links httpAddAffinedAddr where
  frame _ _ := ⟨_, _, rfl⟩
  hosts id s other := by
    simp only [hosts, httpAddAffinedAddr, mem_append, mem_entries_insert, or_assoc]

private theorem links_addStatic : Links httpAddAffinedAddrStatic where
  frame _ _ := ⟨_, _, rfl⟩
  hosts id s other := by
    simp only [hosts, httpAddAffinedAddrStatic, mem_append, mem_entries_insert, or_left_comm]

section Adding
variable {link : Nat → State → State}

section

variable (hlink : Links link) (h : Traced [] s)
include hlink h

/-- A new host starts without a timer and with the reference of its maker. -/
theorem Traced.newHost (hnew : a.timer = false ∧ a.state ≠ .forced ∧ a.dirty = false ∧ a.refcnt = 1)
    (sites : Sites) :
    Traced [s.next]
      (link s.next { s.setAddr s.next a with sites := sites, next := s.next + 1 }) := by
  obtain ⟨htimer, hstate, hclean, hrefcnt⟩ := hnew
  have hself : (s.setAddr s.next a).addrs s.next = a := update_self ..
  have hother (other : Nat) (hne : other ≠ s.next) :
      (s.setAddr s.next a).addrs other = s.addrs other := update_of_ne hne ..
  have hmem := hlink.hosts s.next
    { s.setAddr s.next a with sites := sites, next := s.next + 1 }
  obtain ⟨dynamic, static, heq⟩ := hlink.frame s.next
    { s.setAddr s.next a with sites := sites, next := s.next + 1 }
  rw [heq] at hmem ⊢
  have hunused : s.next ∉ s.freed := fun hfreed => (h.stopped _ hfreed).1.ne rfl
  refine ⟨?_, ?_, ?_, ?_, h.once, h.inTime⟩
  · intro other
    by_cases hne : other = s.next
    · rw [hne]
      simp only [hself, htimer, hstate, Bool.false_eq_true]
    · simp only [hother other hne]
      exact h.pending other
  · intro other hlinked
    rcases (hmem other).mp hlinked with rfl | hwas
    · exact ⟨Nat.lt_succ_self _, hunused⟩
    · obtain ⟨hnext, hfreed⟩ := h.known other hwas
      exact ⟨Nat.lt_succ_of_lt hnext, hfreed⟩
  · intro other hlinked
    rcases (hmem other).mp hlinked with rfl | hwas
    · simp only [hself, hclean, hrefcnt, count_singleton_self, Nat.cast_one, and_self]
    have hne := (h.known other hwas).1.ne
    simp only [hother other hne, count_cons_other [] hne]
    exact h.counted other hwas
  · intro other hfreed
    obtain ⟨hnext, hstopped⟩ := h.stopped other hfreed
    simp only [hother other hnext.ne]
    exact ⟨Nat.lt_succ_of_lt hnext, hstopped⟩

theorem Traced.allocAddr (addr mask : Addr)
    (site : Nat) : Traced [] (allocAddr link addr mask site s) := by
  have hlinked := h.newHost hlink (a := { AffinedAddr.blank with
      refcnt := 1
      addr := addr
      mask := mask
      forceTo := some site }) ⟨rfl, nofun, rfl, rfl⟩ (holdSite site s.sites)
  exact (hlinked.put ((hlink.hosts _ _ _).mpr (.inl rfl))).settings ..

theorem Traced.addHost (addr mask : Addr)
    (url : List UInt8) (mem : Memory) : Traced [] (addHost link addr mask url mem s).1 := by
  unfold Prsite.addHost
  split
  · exact h
  rename_i site sites _
  split
  · exact (h.settings sites s.portHashkey s.lStaticPortHashKey s.lPortToAddr
      s.stPrsiteUrlInfo).allocAddr hlink addr mask site
  · exact h.settings ..

end

end Adding

/-! ### Requests -/

section

variable (h : Traced [] s)
include h

theorem Traced.putMarked (hmem : id ∈ hosts s) (sites : Sites) :
    Traced [] (httpPutAffinedAddr id
      { (Prsite.hold id s).setAddr id { (Prsite.hold id s).addrs id with dirty := true } with
        sites := sites }) := by
  have hheld := h.hold hmem
  have hlast : ((Prsite.hold id s).addrs id).refcnt = 1 := by
    rw [(hheld.counted id hmem).2, count_singleton_self, Nat.cast_one]
  have hput := put_dirty { Prsite.hold id s with sites := sites } id
    (a := { (Prsite.hold id s).addrs id with dirty := true }) rfl hlast
  have hsites := hheld.settings sites s.portHashkey s.lStaticPortHashKey s.lPortToAddr
    s.stPrsiteUrlInfo
  exact hput ▸ hsites.free hmem rfl rfl (fun other hne => (count_cons_other [] hne).symm)

theorem Traced.delAddr (addr : Addr) : Traced [] (delAddr addr s) := by
  unfold Prsite.delAddr
  split
  next id held hget =>
    obtain ⟨hmem, rfl⟩ := get_eq_some hget
    exact h.putMarked hmem s.sites
  · exact h

theorem Traced.delBoth (addr : Addr) (url : List UInt8) : Traced [] (delBoth addr url s) := by
  unfold Prsite.delBoth
  split
  · exact h.settings ..
  rename_i id held hget
  obtain ⟨hmem, rfl⟩ := get_eq_some hget
  dsimp only
  split
  · exact h.putMarked hmem s.sites
  · exact (h.putMarked hmem _).settings ..

theorem Traced.prsiteDel (bind : AffinedBind) : Traced [] (prsiteDel bind s).1 := by
  unfold Prsite.prsiteDel
  split
  · exact h.delAddr bind.addr
  split
  · exact h.settings ..
  split
  · exact h.delBoth bind.addr bind.url
  · exact h

theorem Traced.discardHeld (hmem : id ∈ hosts s) :
    Traced [] (Prsite.discard id (Prsite.hold id s)) :=
  (h.hold hmem).discard hmem (fun _ hne => (count_cons_other [] hne).symm)

theorem Traced.prsiteModi (port : Port) : Traced [] (prsiteModi port s).1 := by
  unfold Prsite.prsiteModi
  extract_lets dynamic
  have hdynamic : Traced [] dynamic.1 := by
    unfold dynamic
    split
    next id held hget =>
      obtain ⟨hfind, rfl⟩ := map_hold_eq_some hget
      exact h.discardHeld (mem_append_left _ (mem_of_findByPort hfind))
    · exact h
  split
  next id held hget =>
    obtain ⟨hfind, rfl⟩ := map_hold_eq_some hget
    exact hdynamic.discardHeld (mem_append_right _ (mem_of_findByPort hfind))
  · exact hdynamic

end

/-! ### Responses -/

section Responses
variable {held : List Nat}

/-- The host of a packet is held while the packet is looked at. -/
theorem Traced.lanAddrOf (h : Traced [] s) {p : Packet} {s' : State} {found : Option Nat}
    (heq : lanAddrOf p s = (s', found)) :
    Traced found.toList s' ∧ ∀ id, found = some id → id ∈ hosts s' := by
  have hnone {now : State} (hnow : Traced [] now)
      (heq : (now, (none : Option Nat)) = (s', found)) :
      Traced found.toList s' ∧ ∀ id, found = some id → id ∈ hosts s' := by
    obtain ⟨rfl, rfl⟩ := Prod.mk.inj heq
    exact ⟨hnow, nofun⟩
  have hsome {now : State} {id : Nat} (hnow : Traced [] now) (hmem : id ∈ hosts now)
      (heq : (Prsite.hold id now, some id) = (s', found)) :
      Traced found.toList s' ∧ ∀ id, found = some id → id ∈ hosts s' := by
    obtain ⟨rfl, rfl⟩ := Prod.mk.inj heq
    refine ⟨hnow.hold hmem, ?_⟩
    rintro _ ⟨⟩
    exact hmem
  unfold Prsite.lanAddrOf at heq
  split at heq
  next id now hget =>
    obtain ⟨hmem, rfl⟩ := get_eq_some hget
    exact hsome h hmem heq
  split at heq
  · exact hnone h heq
  split at heq
  · split at heq
    next id now hget =>
      obtain ⟨hmem, _, rfl⟩ := getStatic_eq_some hget
      exact hsome h hmem heq
    have hadded : Traced [] (prsiteAddStatic p.daddr p.mem s).1 :=
      h.addHost links_addStatic ..
    dsimp only at heq
    split at heq
    · exact hnone hadded heq
    split at heq
    next id now hget =>
      obtain ⟨hmem, _, rfl⟩ := getStatic_eq_some hget
      exact hsome hadded hmem heq
    · exact hnone hadded heq
  · exact hnone h heq

theorem Traced.startTrace (h : Traced held s) (hmem : id ∈ hosts s)
    (hstate : (s.addrs id).state = .forcing) :
    Traced held (addTimer id (s.setAddr id { s.addrs id with idle := 0, state := .forced })) := by
  have hidle : (s.addrs id).timer = false := by
    rw [Bool.eq_false_iff, Ne, h.pending id, hstate]
    exact nofun
  have hstart : addTimer id (s.setAddr id { s.addrs id with idle := 0, state := .forced }) =
      s.setAddr id { s.addrs id with idle := 0, state := .forced, timer := true } := by
    simp [addTimer, State.setAddr, hidle]
  rw [hstart]
  exact h.update hmem (by simp) rfl rfl

/-- A response moves its host to the next state, and starts the timer on the way to `forced`. -/
theorem Traced.traceResponse (h : Traced held s) (hmem : id ∈ hosts s) (p : Packet) :
    Traced held (traceResponse id p s).1 ∧ hosts (traceResponse id p s).1 = hosts s := by
  have hpending := h.pending id
  cases hstate : (s.addrs id).state with
  | init | unforce =>
    simp only [Prsite.traceResponse, hstate]
    split
    · refine ⟨h.update hmem ?_ rfl rfl, rfl⟩
      simpa [hstate] using hpending
    · exact ⟨h, rfl⟩
  | forcing =>
    simp only [Prsite.traceResponse, hstate]
    exact ⟨h.startTrace hmem hstate, rfl⟩
  | forced =>
    simp only [Prsite.traceResponse, hstate]
    exact ⟨h.update hmem (by simpa [hstate] using hpending) rfl rfl, rfl⟩

/-- A response leaves no reference behind. -/
theorem Traced.httpDoRedirect (h : Traced [] s) (p : Packet) :
    Traced [] (httpDoRedirect p s).1 := by
  unfold Prsite.httpDoRedirect
  split
  next now heq =>
    exact (h.lanAddrOf heq).1
  rename_i now id heq
  obtain ⟨hnow, hhosts⟩ := h.lanAddrOf heq
  have hmem := hhosts id rfl
  split
  · exact hnow.put hmem
  · obtain ⟨htraced, hsame⟩ := hnow.traceResponse hmem p
    exact htraced.put (hsame ▸ hmem)

end Responses

/-! ### Requests of a host -/

section Ports
variable {held : List Nat}

section

variable (h : Traced held s) (hmem : id ∈ hosts s)
include h hmem

theorem Traced.setPort (port : Port) :
    Traced held (s.setAddr id { s.addrs id with portNo := port }) :=
  h.update hmem (h.pending id) rfl rfl

theorem Traced.notePort (source : Addr) (mark : BitVec 32) :
    Traced held (notePort id source mark s) ∧ id ∈ hosts (notePort id source mark s) := by
  unfold Prsite.notePort
  split
  · exact ⟨(h.setPort hmem _).settings .., hmem⟩
  · exact ⟨h, hmem⟩

theorem Traced.replaceHost (haddr : (s.addrs id).addr = source) (port : Port) :
    Traced held (replaceHost port source s) ∧ id ∈ hosts (replaceHost port source s) := by
  unfold Prsite.replaceHost
  split
  next hother =>
    split
    next other hfind =>
      have hold : other ∈ hosts s :=
        mem_append_right _ (mem_of_find?_eq_some hfind)
      have hfound := find?_some hfind
      simp only [Bool.and_eq_true, beq_iff_eq] at hfound
      have hne : id ≠ other := by
        rintro rfl
        exact hother.2 (hfound.1.symm.trans haddr)
      refine ⟨h.discard hold (fun _ _ => rfl), ?_⟩
      rw [discard_eq]
      exact mem_hosts_freeAddr.mpr ⟨hne, hmem⟩
    · exact ⟨h, hmem⟩
  · exact ⟨h, hmem⟩

theorem Traced.noteStaticPort (haddr : (s.addrs id).addr = source) (mark : BitVec 32) :
    Traced held (noteStaticPort id source mark s) ∧
      id ∈ hosts (noteStaticPort id source mark s) := by
  unfold Prsite.noteStaticPort
  split
  · have hport := h.setPort hmem (lanPort mark (s.addrs id).portNo)
    have hsame : ((s.setAddr id { s.addrs id with
        portNo := lanPort mark (s.addrs id).portNo }).addrs id).addr = source := by
      simpa [State.setAddr] using haddr
    obtain ⟨hreplaced, hlinked⟩ := hport.replaceHost hmem hsame (lanPort mark (s.addrs id).portNo)
    exact ⟨hreplaced.settings .., hlinked⟩
  · exact ⟨h, hmem⟩

end

theorem hold_addr (id : Nat) (s : State) : ((hold id s).addrs id).addr = (s.addrs id).addr := by
  simp [hold, State.setAddr]

theorem Traced.httpHelp (h : Traced [] s) (dir : Dir) (source : Addr) (p : Packet) :
    Traced [] (httpHelp dir source p s).1 := by
  unfold Prsite.httpHelp
  split
  · exact h
  cases dir with
  | reply =>
    dsimp only
    split
    · split
      · exact h.httpDoRedirect p
      · exact h
    · exact h
  | original =>
    dsimp only
    split
    next id now hget =>
      obtain ⟨hmem, rfl⟩ := get_eq_some hget
      obtain ⟨hnoted, hlinked⟩ := (h.hold hmem).notePort hmem source p.mark
      exact hnoted.put hlinked
    split
    next id now hget =>
      obtain ⟨hmem, haddr, rfl⟩ := getStatic_eq_some hget
      obtain ⟨hnoted, hlinked⟩ := (h.hold hmem).noteStaticPort hmem
        ((hold_addr id s).trans haddr) p.mark
      exact hnoted.put hlinked
    · exact h

end Ports

/-! ### Runs -/

private theorem traced_init : Traced [] nfNatHttpInit := by
  have hhosts : hosts nfNatHttpInit = [] := rfl
  refine ⟨?_, ?_, ?_, nofun, rfl, rfl⟩
  · simp [nfNatHttpInit, AffinedAddr.blank]
  · simp [hhosts]
  · simp [hhosts]

/-- The timer that expires restarts itself or leaves the state. -/
theorem Traced.timeout (h : Traced [] s) (id : Nat) : Traced [] (httpTracecheckTimeout id s) := by
  unfold httpTracecheckTimeout
  split
  next hpending =>
    have hlive : id ∉ s.freed := by
      intro hfreed
      exact Bool.false_ne_true ((h.stopped id hfreed).2.symm.trans hpending)
    dsimp only
    split
    · exact h.setAddr hlive (by simp) (h.counted id) (fun _ _ => rfl)
    · exact h.setAddr hlive (h.pending id) (h.counted id) (fun _ _ => rfl)
  · exact h

/-- The host that a request adds is not in the forced state. -/
def AddsUntraced : Event → State → Prop
  | .add bind _, s =>
    ∀ id, findIn s.allAddr bind.addr s = some id → (s.addrs id).state ≠ .forced
  | _, _ => True

theorem prsiteAdd_found (h : Traced [] s) {bind : AffinedBind}
    (hfind : findIn s.allAddr bind.addr s = some id) (mem : Memory) :
    (prsiteAdd bind mem s).1 = s.setAddr id { s.addrs id with state := .init } := by
  have hclean := (h.counted id (mem_append_left _ (mem_of_findIn hfind).1)).1
  simp [prsiteAdd, httpGetAffinedAddr, hfind, hold, put_clean, State.setAddr, hclean]

/-- Timers and books are kept by every event that adds no host that is being traced. -/
theorem Traced.step (h : Traced [] s) (event : Event)
    (huntraced : AddsUntraced event s) : Traced [] (step event s) := by
  cases event with
  | initInfo info => exact h.settings ..
  | add bind mem =>
    cases hfind : findIn s.allAddr bind.addr s with
    | some id =>
      have hmem := mem_append_left (entries s.stAllStaticAddr) (mem_of_findIn hfind).1
      have hidle : (s.addrs id).timer ≠ true := mt (h.pending id).mp (huntraced id hfind)
      rw [Prsite.step, prsiteAdd_found h hfind]
      exact h.update hmem (by simpa using hidle) rfl rfl
    | none =>
      simp only [Prsite.step, prsiteAdd, httpGetAffinedAddr, hfind, Option.map_none]
      exact h.addHost links_add ..
  | del bind => exact h.prsiteDel bind
  | modi port => exact h.prsiteModi port
  | help dir source p => exact h.httpHelp dir source p
  | timeout id => exact h.timeout id

/-- A host that is added in the forced state keeps its timer and loses the state. -/
theorem Traced.follow_iff (h : Traced [] s) (event : Event) :
    TimersFollow (Prsite.step event s) ↔ AddsUntraced event s := by
  constructor
  · intro hfollow
    cases event with
    | add bind mem =>
      intro id hfind hforced
      have hmem := mem_append_left (entries s.stAllStaticAddr) (mem_of_findIn hfind).1
      have hpending := (h.pending id).mpr hforced
      have hafter := hfollow.pending id
      rw [Prsite.step, prsiteAdd_found h hfind] at hafter
      have hstate := (hafter hmem).mp (by simpa [State.setAddr] using hpending)
      simp [State.setAddr] at hstate
    | _ => trivial
  · intro huntraced
    exact (h.step event huntraced).timersFollow

/-- The timers follow the states along a run exactly if no request adds a host that is in
the forced state. -/
theorem trace_timers_iff (events : List Event) :
    Allowed step (fun event s => TimersFollow (step event s)) events nfNatHttpInit ↔
      Allowed step AddsUntraced events nfNatHttpInit := by
  apply Allowed.iff_of_invariant (P := Traced [])
  · intro event s h
    exact h.follow_iff event
  · intro event s h hfollow
    exact h.step event ((h.follow_iff event).mp hfollow)
  · exact traced_init

def portal : PrsiteUrlInfo :=
  ⟨true, 0xC0A80101, 0xFFFFFF00, bytes "http://portal/"⟩

def laptop : AffinedBind :=
  ⟨0xC0A80102, bytes "http://portal/"⟩

def pageFor (bind : AffinedBind) : Event :=
  .help .reply bind.addr
    { saddr := 0x08080808
      daddr := bind.addr
      mark := 0
      head := some (bytes "HTTP/1.1 200 OK\r")
      written := true
      mem := ⟨true, true⟩ }

def addedTwice : List Event :=
  [.initInfo portal, .add laptop ⟨true, true⟩, pageFor laptop, pageFor laptop,
    .add laptop ⟨true, true⟩]

/-- The timer of a host that is added again is pending in the initial state. Two more pages start
it again, and if the host is deleted it goes off for a freed entry. -/
theorem added_again_keeps_timer :
    ((run step addedTwice nfNatHttpInit).addrs 0).timer = true ∧
    ((run step addedTwice nfNatHttpInit).addrs 0).state = .init ∧
    hosts (run step addedTwice nfNatHttpInit) = [0] ∧
    (run step (addedTwice ++ [pageFor laptop, pageFor laptop]) nfNatHttpInit).twice = [0] ∧
    (run step (addedTwice ++ [.del ⟨laptop.addr, []⟩, .timeout 0]) nfNatHttpInit).late = [0] :=
  ⟨rfl, rfl, rfl, rfl, rfl⟩

end EchoLife.Netfilter.Prsite

import EchoLife.Dhcp.VendorList

/-!
What the list of vendor-identifying options is for: the data that were last added for
each address can be read from it. Updates through `memcpy` and `free` lose this.
-/

namespace EchoLife.Dhcp

open Heap List Option Run

def latest (history : List ViData) (ipAddr : Nat) : Option ViData :=
  history.reverse.find? fun d => d.ipAddr = ipAddr

theorem latest_snoc (history : List ViData) (d : ViData) (ipAddr : Nat) :
    latest (history ++ [d]) ipAddr =
      if d.ipAddr = ipAddr then some d else latest history ipAddr := by
  simp only [latest, reverse_append, reverse_cons, reverse_nil, nil_append, cons_append, find?_cons]
  rcases Decidable.em (d.ipAddr = ipAddr) with hsame | hother
  · simp only [hsame, decide_true, if_true]
  · simp only [hother, decide_false, if_false]

variable {history : List ViData} {s s' : ViInfoList} {ps : List Nat}

private theorem latest_ipAddr {ipAddr : Nat} {d : ViData}
    (h : latest history ipAddr = some d) : d.ipAddr = ipAddr := by
  have hfound := find?_some h
  exact of_decide_eq_true hfound

structure Lists (history : List ViData) (s : ViInfoList) (ps : List Nat) : Prop where
  chain : Chain ViCell.next s.heap s.pHead ps
  count : s.count = ps.length
  tail : s.pTail = ps.getLastD 0
  once : ∀ p ∈ ps, ∀ q ∈ ps, ipAt s.heap p = ipAt s.heap q → p = q
  data : ∀ p ∈ ps, ∃ d, HoldsVi s.heap p d ∧ latest history d.ipAddr = some d
  all : ∀ ipAddr d, latest history ipAddr = some d → ∃ p ∈ ps, HoldsVi s.heap p d

/-- The count is the number of nodes reached, the tail is the last of them, and each address ever
added has one node, with the data added last for it. -/
def Consistent (history : List ViData) (s : ViInfoList) : Prop :=
  ∃ ps, Lists history s ps

def ViData.Textless (d : ViData) : Prop :=
  d.oui = none ∧ d.serialNumber = none ∧ d.productClass = none

/-- The address is new, or its node is the last one and the new data have no strings. -/
def Clean (a : Arrival) (s : ViInfoList) : Prop :=
  ∀ ps p, Chain ViCell.next s.heap s.pHead ps → p ∈ ps →
    ipAt s.heap p = some a.data.ipAddr → p = s.pTail ∧ a.data.Textless

variable {p : Nat}

private theorem textAt_pointer {heap : Blocks ViCell} {text : Option (List UInt8)}
    (hp : p ≠ 0) (hblock : ∀ chars, text = some chars → heap p = some (.text chars)) :
    TextAt heap (pointer p text) text := by
  cases text with
  | none => rfl
  | some chars => exact ⟨hp, hblock chars rfl⟩

section
variable {a : Arrival}

private theorem store_holds (hfresh : a.Fresh s.heap) : HoldsVi (a.store s.heap) a.pNew a.data := by
  have hnodup := hfresh.nodup
  simp only [Arrival.places, nodup_cons, mem_cons, not_mem_nil, or_false, not_or,
    not_false_eq_true, nodup_nil, and_true] at hnodup
  obtain ⟨⟨hnewOui, hnewSerial, hnewProduct⟩, ⟨houiSerial, houiProduct⟩, hserialProduct⟩ := hnodup
  have hpos (p : Nat) (hp : p ∈ a.places) : p ≠ 0 := (hfresh.unused p hp).1
  refine ⟨a.info, a.store_pNew s.heap, rfl, rfl, ?_, ?_, ?_⟩
  · apply textAt_pointer (hpos a.pOui (by simp [Arrival.places]))
    intro chars hchars
    unfold Arrival.store
    rw [write_of_ne (Ne.symm hnewOui), storeText_of_ne _ houiProduct,
      storeText_of_ne _ houiSerial, hchars]
    exact write_self _ _ _
  · apply textAt_pointer (hpos a.pSerialNumber (by simp [Arrival.places]))
    intro chars hchars
    unfold Arrival.store
    rw [write_of_ne (Ne.symm hnewSerial), storeText_of_ne _ hserialProduct, hchars]
    exact write_self _ _ _
  · apply textAt_pointer (hpos a.pProductClass (by simp [Arrival.places]))
    intro chars hchars
    unfold Arrival.store
    rw [write_of_ne (Ne.symm hnewProduct), hchars]
    exact write_self _ _ _

section

variable (h : Lists history s ps)
include h

theorem Lists.snoc {pNew : Nat} (hnew : ∀ p ∈ ps, ipAt s.heap p ≠ some a.data.ipAddr)
    (hchain : Chain ViCell.next s'.heap s'.pHead (ps ++ [pNew])) (hcount : s'.count = s.count + 1)
    (htail : s'.pTail = pNew) (hkept : ∀ p ∈ ps, ∀ d, HoldsVi s.heap p d → HoldsVi s'.heap p d)
    (hdata : HoldsVi s'.heap pNew a.data) : Lists (history ++ [a.data]) s' (ps ++ [pNew]) := by
  have hip (p : Nat) (hp : p ∈ ps) : ipAt s'.heap p = ipAt s.heap p := by
    obtain ⟨d, hd, _⟩ := h.data p hp
    rw [hd.ipAt, (hkept p hp d hd).ipAt]
  have hother (p : Nat) (hp : p ∈ ps) : ipAt s'.heap p ≠ ipAt s'.heap pNew := by
    rw [hip p hp, hdata.ipAt]
    exact hnew p hp
  refine ⟨hchain, ?_, ?_, ?_, ?_, ?_⟩
  · rw [hcount, h.count, length_append, length_singleton]
  · rw [htail, getLastD_concat]
  · intro p hp q hq hsame
    rcases mem_append.mp hp with hp | hp
    · rcases mem_append.mp hq with hq | hq
      · rw [hip p hp, hip q hq] at hsame
        exact h.once p hp q hq hsame
      · rw [mem_singleton.mp hq] at hsame
        exact absurd hsame (hother p hp)
    · rw [mem_singleton.mp hp] at hsame ⊢
      rcases mem_append.mp hq with hq | hq
      · exact absurd hsame.symm (hother q hq)
      · exact (mem_singleton.mp hq).symm
  · intro p hp
    rcases mem_append.mp hp with hp | hp
    · obtain ⟨d, hd, hlatest⟩ := h.data p hp
      refine ⟨d, hkept p hp d hd, ?_⟩
      rw [latest_snoc, if_neg, hlatest]
      intro hsame
      apply hnew p hp
      rw [hd.ipAt, hsame]
    · rw [mem_singleton.mp hp]
      exact ⟨a.data, hdata, by rw [latest_snoc, if_pos rfl]⟩
  · intro ipAddr d hlatest
    rw [latest_snoc] at hlatest
    split at hlatest
    · cases hlatest
      exact ⟨pNew, mem_append_right _ mem_cons_self, hdata⟩
    · obtain ⟨p, hp, hd⟩ := h.all ipAddr d hlatest
      exact ⟨p, mem_append_left _ hp, hkept p hp d hd⟩

theorem Lists.ends (hhead : s.pHead ≠ 0) : ∃ front, ps = front ++ [s.pTail] := by
  rcases eq_nil_or_concat' ps with hnil | ⟨front, q, rfl⟩
  · exact absurd (h.chain.eq_nil_iff.mp hnil) hhead
  · refine ⟨front, ?_⟩
    rw [h.tail, getLastD_concat]

theorem Lists.linked (hnull : s.heap 0 = none) : s.Linked ps := by
  refine ⟨hnull, h.chain, le_of_eq h.count.symm, ?_⟩
  intro hhead
  obtain ⟨front, hends⟩ := h.ends hhead
  have hchain := h.chain
  rw [hends] at hchain
  exact hchain.link_eq_zero_iff.mpr rfl

theorem Lists.arrive_new (hnull : s.heap 0 = none)
    (hfresh : a.Fresh s.heap) (hnew : ∀ p ∈ ps, ipAt s.heap p ≠ some a.data.ipAddr) :
    ∃ s', s.arrive a = some s' ∧ Lists (history ++ [a.data]) s' (ps ++ [a.pNew]) := by
  have hlinked := h.linked hnull
  have hfind : (ps.find? fun p => ipAt s.heap p = some a.data.ipAddr) = none := by
    rw [find?_eq_none]
    intro p hp hsame
    exact hnew p hp (of_decide_eq_true hsame)
  rw [ViInfoList.arrive_eq hlinked.chain hlinked.bound hfresh, hfind]
  rcases eq_or_ne s.pHead 0 with hhead | hhead
  · simp only [if_pos hhead]
    have hempty : ps = [] := h.chain.eq_nil_iff.mpr hhead
    subst hempty
    refine ⟨_, rfl, h.snoc hnew (hlinked.first hfresh).chain rfl rfl ?_ (store_holds hfresh)⟩
    nofun
  · obtain ⟨last, hlast, _⟩ := link_iff.mp (hlinked.tail hhead)
    simp only [if_neg hhead, Arrival.store_live hfresh hlast]
    obtain ⟨hnode, htail, hlive⟩ := appended_heap hfresh hlast
    have hmem : s.pTail ∈ ps := by
      obtain ⟨front, hends⟩ := h.ends hhead
      rw [hends]
      exact mem_append_right _ mem_cons_self
    have hchain := (hlinked.append hfresh hhead hlast).chain
    rw [if_pos hmem] at hchain
    have htext (q : Nat) (chars : List UInt8) (hq : a.store s.heap q = some (.text chars)) :
        write (a.store s.heap) s.pTail (.node { last with next := a.pNew }) q =
          some (.text chars) := by
      rw [write_of_ne, hq]
      rintro rfl
      rw [Arrival.store_live hfresh hlast] at hq
      cases hq
    refine ⟨_, rfl, h.snoc hnew hchain rfl rfl ?_ ?_⟩
    · intro p hp d hd
      apply hd.congr
      · intro info hinfo
        rcases eq_or_ne p s.pTail with rfl | hne
        · rw [hlast] at hinfo
          cases hinfo
          exact ⟨a.pNew, htail⟩
        · exact ⟨info.next, hlive p _ hinfo hne⟩
      · intro q chars hq
        exact htext q chars (Arrival.store_live hfresh hq)
    · apply (store_holds hfresh).congr
      · intro info hinfo
        rw [a.store_pNew] at hinfo
        cases hinfo
        exact ⟨0, hnode⟩
      · exact htext

end

private theorem updated_text {place : Nat}
    (hplace : place = a.info.oui ∨ place = a.info.serialNumber ∨ place = a.info.productClass)
    (hpos : place ≠ 0) (text : Option (List UInt8)) :
    ¬ TextAt (viInfoFree (write (a.store s.heap) p (.node a.info)) a.pNew a.info) place
      text := by
  have hnone : viInfoFree (write (a.store s.heap) p (.node a.info)) a.pNew a.info place = none := by
    rcases hplace with rfl | rfl | rfl
    · exact free_eq_none (free_eq_none (free_eq_none (free_self hpos) _) _) _
    · exact free_eq_none (free_eq_none (free_self hpos) _) _
    · exact free_eq_none (free_self hpos) _
  cases text with
  | none => exact hpos
  | some chars =>
    rintro ⟨_, hblock⟩
    rw [hnone] at hblock
    cases hblock

section

variable (h : Lists history s ps) (hnull : s.heap 0 = none) (hfresh : a.Fresh s.heap)
include h hnull hfresh

theorem Lists.arrive_update (hmem : p ∈ ps) (hip : ipAt s.heap p = some a.data.ipAddr) :
    s.arrive a = some { s with
      heap := viInfoFree (write (a.store s.heap) p (.node a.info)) a.pNew a.info } := by
  have hlinked := h.linked hnull
  rw [ViInfoList.arrive_eq hlinked.chain hlinked.bound hfresh]
  cases hfind : ps.find? fun p => ipAt s.heap p = some a.data.ipAddr with
  | none =>
    have hnot := find?_eq_none.mp hfind p hmem
    exact absurd (decide_eq_true hip) hnot
  | some q =>
    have hfound := find?_some hfind
    have hq := of_decide_eq_true hfound
    have hqp : q = p :=
      h.once q (mem_of_find?_eq_some hfind) p hmem (hq.trans hip.symm)
    rw [hqp]

theorem Lists.arrive_last (hmem : s.pTail ∈ ps)
    (hip : ipAt s.heap s.pTail = some a.data.ipAddr) (htextless : a.data.Textless) :
    ∃ s', s.arrive a = some s' ∧ Lists (history ++ [a.data]) s' ps := by
  have hlinked := h.linked hnull
  have hhead : s.pHead ≠ 0 := by
    intro hzero
    rw [h.chain.eq_nil_iff.mpr hzero] at hmem
    exact absurd hmem not_mem_nil
  obtain ⟨front, hends⟩ := h.ends hhead
  obtain ⟨info, hinfo, _⟩ := ipAt_iff.mp hip
  obtain ⟨hnode, hlive⟩ := updated_heap hfresh hnull hinfo
  have hchain := (show s.Linked (front ++ s.pTail :: []) from hends ▸ hlinked).update hfresh
  refine ⟨_, h.arrive_update hnull hfresh hmem hip, ?_⟩
  generalize viInfoFree (write (a.store s.heap) s.pTail (.node a.info)) a.pNew a.info = heap
    at hnode hlive hchain ⊢
  have hdata : HoldsVi heap s.pTail a.data := by
    obtain ⟨houi, hserial, hproduct⟩ := htextless
    refine ⟨a.info, hnode, rfl, rfl, ?_, ?_, ?_⟩
    · simp only [Arrival.info, houi]
      rfl
    · simp only [Arrival.info, hserial]
      rfl
    · simp only [Arrival.info, hproduct]
      rfl
  have hkept (q : Nat) (d : ViData) (hq : HoldsVi s.heap q d) (hne : q ≠ s.pTail) :
      HoldsVi heap q d := by
    apply hq.congr
    · intro info' hinfo'
      exact ⟨info'.next, hlive q _ hinfo' hne⟩
    intro r chars hr
    apply hlive r _ hr
    rintro rfl
    rw [hinfo] at hr
    cases hr
  have hsame (q : Nat) (hq : q ∈ ps) : ipAt heap q = ipAt s.heap q := by
    rcases eq_or_ne q s.pTail with rfl | hne
    · rw [hip, hdata.ipAt]
    · obtain ⟨d, hd, _⟩ := h.data q hq
      rw [hd.ipAt, (hkept q d hd hne).ipAt]
  refine ⟨hends ▸ hchain.chain, h.count, h.tail, ?_, ?_, ?_⟩
  · intro q hq r hr heq
    rw [hsame q hq, hsame r hr] at heq
    exact h.once q hq r hr heq
  · intro q hq
    rcases eq_or_ne q s.pTail with rfl | hne
    · exact ⟨a.data, hdata, by rw [latest_snoc, if_pos rfl]⟩
    obtain ⟨d, hd, hlatest⟩ := h.data q hq
    refine ⟨d, hkept q d hd hne, ?_⟩
    rw [latest_snoc, if_neg, hlatest]
    intro hsameIp
    apply hne
    apply h.once q hq s.pTail hmem
    rw [hd.ipAt, hip, hsameIp]
  · intro ipAddr d hlatest
    rw [latest_snoc] at hlatest
    split at hlatest
    · cases hlatest
      exact ⟨s.pTail, hmem, hdata⟩
    next hother =>
      obtain ⟨q, hq, hd⟩ := h.all ipAddr d hlatest
      refine ⟨q, hq, hkept q d hd ?_⟩
      rintro rfl
      apply hother
      rw [← latest_ipAddr hlatest]
      exact some_inj.mp (hip.symm.trans hd.ipAt)

/-- Any other update breaks the list: the nodes behind it are cut off, or its strings
are gone. -/
theorem Lists.arrive_broken (hmem : p ∈ ps) (hip : ipAt s.heap p = some a.data.ipAddr)
    (hbad : ¬ (p = s.pTail ∧ a.data.Textless)) (harrive : s.arrive a = some s') :
    ¬ Consistent (history ++ [a.data]) s' := by
  rw [h.arrive_update hnull hfresh hmem hip, some_inj] at harrive
  subst harrive
  rintro ⟨ps', h'⟩
  obtain ⟨front, back, rfl⟩ := append_of_mem hmem
  have hchain := ((h.linked hnull).update hfresh).chain
  have hps' : ps' = front ++ [p] := h'.chain.unique hchain
  have hback : back = [] := by
    have hcount := h'.count
    rw [hps'] at hcount
    simp only [h.count, length_append, length_cons, length_nil] at hcount
    exact length_eq_zero_iff.mp (by omega)
  subst hback
  have htail : p = s.pTail := by rw [h.tail, getLastD_concat]
  -- The node can be read, so none of its strings was freed.
  obtain ⟨_, info, hinfo⟩ := node_of_mem h.chain
  obtain ⟨hnode, _⟩ := updated_heap hfresh hnull hinfo
  obtain ⟨d, ⟨info', hinfo', _, _, houi, hserial, hproduct⟩, _⟩ :=
    h'.data p (hps' ▸ hmem)
  simp only at hinfo'
  rw [hnode, some_inj, ViCell.node.injEq] at hinfo'
  subst hinfo'
  have hgone (place : Nat) (hplace : place ∈ a.places) (text text' : Option (List UInt8))
      (hptr : pointer place text = a.info.oui ∨ pointer place text = a.info.serialNumber ∨
        pointer place text = a.info.productClass)
      (hread : TextAt (viInfoFree (write (a.store s.heap) p (.node a.info)) a.pNew a.info)
        (pointer place text) text') : text = none := by
    cases text with
    | none => rfl
    | some chars => exact absurd hread (updated_text hptr (hfresh.unused place hplace).1 text')
  apply hbad
  refine ⟨htail, ?_, ?_, ?_⟩
  · exact hgone a.pOui (by simp [Arrival.places]) _ _ (.inl rfl) houi
  · exact hgone a.pSerialNumber (by simp [Arrival.places]) _ _ (.inr (.inl rfl)) hserial
  · exact hgone a.pProductClass (by simp [Arrival.places]) _ _ (.inr (.inr rfl)) hproduct

end

theorem Consistent.arrive_iff (h : Consistent history s) (hnull : s.heap 0 = none)
    (hfresh : a.Fresh s.heap) :
    ∃ s', s.arrive a = some s' ∧ s'.heap 0 = none ∧
      (Consistent (history ++ [a.data]) s' ↔ Clean a s) := by
  obtain ⟨ps, hlists⟩ := h
  obtain ⟨s', ps', harrive, hlinked⟩ := (hlists.linked hnull).arrive hfresh
  refine ⟨s', harrive, hlinked.null, ?_⟩
  constructor
  · intro hconsistent qs p hchain hmem hip
    rw [hchain.unique hlists.chain] at hmem
    by_contra hbad
    exact hlists.arrive_broken hnull hfresh hmem hip hbad harrive hconsistent
  intro hclean
  rcases Classical.em (∃ p ∈ ps, ipAt s.heap p = some a.data.ipAddr) with ⟨p, hp, hip⟩ | hnew
  · obtain ⟨rfl, htextless⟩ := hclean ps p hlists.chain hp hip
    obtain ⟨t, ht, hnext⟩ := hlists.arrive_last hnull hfresh hp hip htextless
    rw [harrive, some_inj] at ht
    exact ⟨ps, ht ▸ hnext⟩
  · push Not at hnew
    obtain ⟨t, ht, hnext⟩ := hlists.arrive_new hnull hfresh hnew
    rw [harrive, some_inj] at ht
    exact ⟨_, ht ▸ hnext⟩

end

/-! ### Runs -/

/-- One `saveVIoption` after the other; `none` after a crash. -/
def viStep (a : Arrival) (state : Option ViInfoList) : Option ViInfoList :=
  state.bind fun s => s.arrive a

def Placed (a : Arrival) (state : Option ViInfoList) : Prop :=
  ∀ s, state = some s → a.Fresh s.heap

def CleanIn (a : Arrival) (state : Option ViInfoList) : Prop :=
  ∀ s, state = some s → Clean a s

private theorem run_consistent_iff {arrivals : List Arrival} (hconsistent : Consistent history s)
    (hnull : s.heap 0 = none) (hplaced : Allowed viStep Placed arrivals (some s)) :
    (∀ front back, arrivals = front ++ back → ∃ t, run viStep front (some s) = some t ∧
        Consistent (history ++ front.map Arrival.data) t) ↔
      Allowed viStep CleanIn arrivals (some s) := by
  induction arrivals generalizing history s with
  | nil =>
    refine iff_of_true ?_ trivial
    intro front back hsplit
    obtain ⟨rfl, rfl⟩ := append_eq_nil_iff.mp hsplit.symm
    refine ⟨s, rfl, ?_⟩
    rw [map_nil, append_nil]
    exact hconsistent
  | cons a rest ih =>
    obtain ⟨s', harrive, hnull', hiff⟩ := hconsistent.arrive_iff hnull (hplaced.1 s rfl)
    have hstep : viStep a (some s) = some s' := harrive
    have hrest : Allowed viStep Placed rest (some s') := hstep ▸ hplaced.2
    constructor
    · intro hall
      obtain ⟨t, ht, hone⟩ := hall [a] rest rfl
      rw [run_cons, run_nil, hstep, some_inj] at ht
      subst ht
      refine ⟨?_, ?_⟩
      · intro s0 hs0
        cases hs0
        exact hiff.mp hone
      rw [hstep, ← ih hone hnull' hrest]
      intro front back hsplit
      obtain ⟨t, ht, hnext⟩ := hall (a :: front) back (by rw [hsplit, cons_append])
      rw [run_cons, hstep] at ht
      refine ⟨t, ht, ?_⟩
      rw [append_assoc]
      exact hnext
    · intro hallowed front back hsplit
      have hone : Consistent (history ++ [a.data]) s' := hiff.mpr (hallowed.1 s rfl)
      cases front with
      | nil =>
        refine ⟨s, rfl, ?_⟩
        rw [map_nil, append_nil]
        exact hconsistent
      | cons b front =>
        rw [cons_append, List.cons.injEq] at hsplit
        obtain ⟨rfl, hsplit⟩ := hsplit
        have hclean : Allowed viStep CleanIn rest (some s') := hstep ▸ hallowed.2
        obtain ⟨t, ht, hnext⟩ := (ih hone hnull' hrest).mpr hclean front back hsplit
        refine ⟨t, ?_, ?_⟩
        · rw [run_cons, hstep, ht]
        · rw [append_assoc] at hnext
          exact hnext

private theorem init_consistent : Consistent [] ViInfoList.init := by
  refine ⟨[], .nil, rfl, rfl, ?_, ?_, ?_⟩
  · nofun
  · nofun
  · nofun

private theorem init_linked : ViInfoList.init.Linked [] :=
  ⟨rfl, .nil, le_refl 0, fun h => absurd rfl h⟩

/-- The list is as it should be after every arrival exactly if each has a new address, or updates
the last node with data that have no strings. -/
theorem vendor_list_consistent_iff (arrivals : List Arrival)
    (hplaced : Allowed viStep Placed arrivals (some ViInfoList.init)) :
    (∀ front back, arrivals = front ++ back →
      ∃ s, run viStep front (some ViInfoList.init) = some s ∧
        Consistent (front.map Arrival.data) s) ↔
      Allowed viStep CleanIn arrivals (some ViInfoList.init) := by
  have hiff := run_consistent_iff init_consistent rfl hplaced
  exact hiff

def device (ipAddr slot : Nat) : Arrival where
  data := ⟨3561, some [0x30], some [0x31], none, ipAddr⟩
  pNew := 4 * slot
  pOui := 4 * slot + 1
  pSerialNumber := 4 * slot + 2
  pProductClass := 4 * slot + 3

def devices : Nat → List Nat → List Arrival
  | _, [] => []
  | slot, ipAddr :: rest => device ipAddr slot :: devices (slot + 1) rest

private theorem device_places {ipAddr slot : Nat} (hp : p ∈ (device ipAddr slot).places) :
    4 * slot ≤ p ∧ p < 4 * (slot + 1) := by
  simp only [Arrival.places, device, mem_cons, not_mem_nil, or_false] at hp
  omega

private theorem devices_placed (hlinked : s.Linked ps) {slot : Nat}
    (hslot : 0 < slot) (hunused : ∀ p, 4 * slot ≤ p → s.heap p = none) (ipAddrs : List Nat) :
    Allowed viStep Placed (devices slot ipAddrs) (some s) := by
  induction ipAddrs generalizing s ps slot with
  | nil => trivial
  | cons ipAddr rest ih =>
    have hfresh : (device ipAddr slot).Fresh s.heap := by
      constructor
      · simp [Arrival.places, device]
      intro p hp
      have hrange := device_places hp
      exact ⟨by omega, hunused p hrange.1⟩
    obtain ⟨s', ps', harrive, hnext⟩ := hlinked.arrive hfresh
    have hstep : viStep (device ipAddr slot) (some s) = some s' := harrive
    refine ⟨?_, ?_⟩
    · intro s0 hs0
      cases hs0
      exact hfresh
    rw [hstep]
    apply ih hnext (Nat.succ_pos slot)
    intro p hp
    apply hlinked.arrive_unused hfresh harrive
    · intro hplace
      have hrange := device_places hplace
      omega
    · exact hunused p (by omega)

private theorem init_devices_placed (ipAddrs : List Nat) :
    Allowed viStep Placed (devices 1 ipAddrs) (some ViInfoList.init) :=
  devices_placed init_linked Nat.one_pos (fun _ _ => rfl) ipAddrs

/-- Two devices with different addresses. -/
theorem two_devices_listed :
    ∃ s, run viStep (devices 1 [1, 2]) (some ViInfoList.init) = some s ∧
      Consistent ((devices 1 [1, 2]).map Arrival.data) s := by
  apply (vendor_list_consistent_iff (devices 1 [1, 2]) (init_devices_placed [1, 2])).mpr _ _ []
  · rw [append_nil]
  refine ⟨?_, ?_, trivial⟩
  · rintro s hs ps p hchain hp _
    cases hs
    rw [hchain.eq_nil_iff.mpr rfl] at hp
    exact absurd hp not_mem_nil
  rintro s hs ps p hchain hp hip
  cases hs
  have hone := hchain.unique (.cons (by decide) rfl .nil)
  rw [hone, mem_singleton] at hp
  subst hp
  cases hip

/-- An update of the first of two devices cuts the second off, while count and tail stay; an
update of the only device frees the strings that it has just got. -/
theorem updates_break_list :
    (∃ s, run viStep (devices 1 [1, 2, 1]) (some ViInfoList.init) = some s ∧
      s.count = 2 ∧ s.pTail = 8 ∧ Chain ViCell.next s.heap s.pHead [4] ∧
      ¬ Consistent ((devices 1 [1, 2, 1]).map Arrival.data) s) ∧
    ∃ s, run viStep (devices 1 [1, 1]) (some ViInfoList.init) = some s ∧
      s.heap 4 = some (.node (device 1 2).info) ∧ s.heap (device 1 2).info.oui = none ∧
      ¬ Consistent ((devices 1 [1, 1]).map Arrival.data) s := by
  constructor
  · refine ⟨_, rfl, rfl, rfl, .cons (by decide) rfl .nil, ?_⟩
    rintro ⟨ps, h⟩
    have hps := h.chain.unique (.cons (by decide) rfl .nil)
    have hcount := h.count
    rw [hps] at hcount
    cases hcount
  · refine ⟨_, rfl, rfl, rfl, ?_⟩
    rintro ⟨ps, h⟩
    have hps := h.chain.unique (.cons (by decide) rfl .nil)
    have hmem : 4 ∈ ps := by
      rw [hps]
      exact mem_cons_self
    obtain ⟨d, ⟨info, hinfo, _, _, houi, _⟩, _⟩ := h.data 4 hmem
    cases hinfo
    cases htext : d.oui with
    | none =>
      rw [htext] at houi
      have hzero : (device 1 2).info.oui = 0 := houi
      cases hzero
    | some chars =>
      rw [htext] at houi
      cases houi.2

end EchoLife.Dhcp

import EchoLife.Base.Heap
import EchoLife.Base.Run

/-!
The list of vendor-identifying options that the DHCP server keeps for its clients
(`options.c`): nodes and strings on the heap, with a count and pointers to the first
and the last node.
-/

namespace EchoLife.Dhcp

open Heap List Option Run

/-- `VI_OPTION_INFO`; the pointers are addresses. -/
structure ViOptionInfo where
  enterprise : Nat
  oui : Nat
  serialNumber : Nat
  productClass : Nat
  ipAddr : Nat
  next : Nat
  deriving DecidableEq

inductive ViCell where
  | node (info : ViOptionInfo)
  | text (chars : List UInt8)
  deriving DecidableEq

def ViCell.next : ViCell → Option Nat
  | .node info => some info.next
  | .text _ => none

/-- `viList` and the memory it points into. -/
structure ViInfoList where
  heap : Blocks ViCell
  count : Nat
  pHead : Nat
  pTail : Nat

def ViInfoList.init : ViInfoList where
  heap := fun _ => none
  count := 0
  pHead := 0
  pTail := 0

def viInfoFree (heap : Blocks ViCell) (pInfo : Nat) (info : ViOptionInfo) : Blocks ViCell :=
  free (free (free (free heap info.oui) info.serialNumber) info.productClass) pInfo

/-- The search of `addViToList`: `none` if it has not ended after `fuel` rounds or meets something
that is not a node. -/
def findVi (heap : Blocks ViCell) (ipAddr : Nat) : Nat → Nat → Option (Option Nat)
  | 0, pPtr => if pPtr = 0 then some none else none
  | fuel + 1, pPtr =>
    if pPtr = 0 then some none
    else
      match heap pPtr with
      | some (.node info) =>
        if info.ipAddr = ipAddr then some (some pPtr) else findVi heap ipAddr fuel info.next
      | _ => none

/-- The search has as many rounds as `count` says; `none` is a crash or no return. -/
def addViToList (s : ViInfoList) (pNew : Nat) : Option ViInfoList :=
  match s.heap pNew with
  | some (.node new) =>
    match (if 0 < s.count then findVi s.heap new.ipAddr s.count s.pHead else some none) with
    | some (some pPtr) =>
      -- `memcpy` takes the pointers along, `next` and the strings included.
      some { s with heap := viInfoFree (write s.heap pPtr (.node new)) pNew new }
    | some none =>
      if s.pHead = 0 then
        some { s with count := s.count + 1, pHead := pNew, pTail := pNew }
      else
        match s.heap s.pTail with
        | some (.node last) =>
          some { s with
            heap := write s.heap s.pTail (.node { last with next := pNew })
            count := s.count + 1
            pTail := pNew }
        | _ => none
    | none => none
  | _ => none

/-- What a client announced; a string that it did not send is not there. -/
structure ViData where
  enterprise : Nat
  oui : Option (List UInt8)
  serialNumber : Option (List UInt8)
  productClass : Option (List UInt8)
  ipAddr : Nat
  deriving DecidableEq

/-- The data of a client and the addresses that `malloc` gives for it. -/
structure Arrival where
  data : ViData
  pNew : Nat
  pOui : Nat
  pSerialNumber : Nat
  pProductClass : Nat
  deriving DecidableEq

def Arrival.places (a : Arrival) : List Nat :=
  [a.pNew, a.pOui, a.pSerialNumber, a.pProductClass]

structure Arrival.Fresh (a : Arrival) (heap : Blocks ViCell) : Prop where
  nodup : a.places.Nodup
  unused : ∀ p ∈ a.places, p ≠ 0 ∧ heap p = none

def pointer (p : Nat) (text : Option (List UInt8)) : Nat :=
  if text.isSome then p else 0

/-- The node that `saveVIoption` fills in; `memset` leaves `next` null. -/
def Arrival.info (a : Arrival) : ViOptionInfo where
  enterprise := a.data.enterprise
  oui := pointer a.pOui a.data.oui
  serialNumber := pointer a.pSerialNumber a.data.serialNumber
  productClass := pointer a.pProductClass a.data.productClass
  ipAddr := a.data.ipAddr
  next := 0

def storeText (heap : Blocks ViCell) (p : Nat) : Option (List UInt8) → Blocks ViCell
  | some chars => write heap p (.text chars)
  | none => heap

def Arrival.store (a : Arrival) (heap : Blocks ViCell) : Blocks ViCell :=
  write (storeText (storeText (storeText heap a.pOui a.data.oui)
    a.pSerialNumber a.data.serialNumber) a.pProductClass a.data.productClass)
    a.pNew (.node a.info)

def ViInfoList.arrive (s : ViInfoList) (a : Arrival) : Option ViInfoList :=
  addViToList { s with heap := a.store s.heap } a.pNew

/-! ### The heap -/

variable {heap : Blocks ViCell} {p q : Nat} {c : ViCell}

theorem storeText_of_ne (text : Option (List UInt8)) (hne : q ≠ p) :
    storeText heap p text q = heap q := by
  cases text with
  | none => rfl
  | some chars => exact write_of_ne hne

variable {a : Arrival} {heap' : Blocks ViCell} {d : ViData} {ps : List Nat} {last : ViOptionInfo}

theorem Arrival.store_other (hp : p ∉ a.places)
    (heap : Blocks ViCell) : a.store heap p = heap p := by
  simp only [Arrival.places, mem_cons, not_mem_nil, or_false, not_or] at hp
  obtain ⟨hnew, houi, hserial, hproduct⟩ := hp
  unfold Arrival.store
  rw [write_of_ne hnew, storeText_of_ne _ hproduct, storeText_of_ne _ hserial,
    storeText_of_ne _ houi]

theorem Arrival.store_live (hfresh : a.Fresh heap)
    (hp : heap p = some c) : a.store heap p = some c := by
  rw [Arrival.store_other, hp]
  intro hplace
  rw [(hfresh.unused p hplace).2] at hp
  cases hp

theorem Arrival.store_pNew (a : Arrival) (heap : Blocks ViCell) :
    a.store heap a.pNew = some (.node a.info) :=
  write_self _ _ _

private theorem viInfoFree_of_ne {pInfo : Nat} {info : ViOptionInfo} (houi : q ≠ info.oui)
    (hserial : q ≠ info.serialNumber) (hproduct : q ≠ info.productClass) (hinfo : q ≠ pInfo) :
    viInfoFree heap pInfo info q = heap q := by
  unfold viInfoFree
  rw [free_of_ne hinfo, free_of_ne hproduct, free_of_ne hserial, free_of_ne houi]

def TextAt (heap : Blocks ViCell) (p : Nat) : Option (List UInt8) → Prop
  | some chars => p ≠ 0 ∧ heap p = some (.text chars)
  | none => p = 0

def HoldsVi (heap : Blocks ViCell) (p : Nat) (d : ViData) : Prop :=
  ∃ info, heap p = some (.node info) ∧ info.enterprise = d.enterprise ∧
    info.ipAddr = d.ipAddr ∧ TextAt heap info.oui d.oui ∧
    TextAt heap info.serialNumber d.serialNumber ∧
    TextAt heap info.productClass d.productClass

theorem TextAt.congr {text : Option (List UInt8)} (h : TextAt heap p text)
    (hsame : ∀ q chars, heap q = some (.text chars) → heap' q = some (.text chars)) :
    TextAt heap' p text := by
  cases text with
  | none => exact h
  | some chars => exact ⟨h.1, hsame p chars h.2⟩

theorem HoldsVi.congr (h : HoldsVi heap p d)
    (hnode : ∀ info, heap p = some (.node info) → ∃ next, heap' p = some (.node { info with next }))
    (hsame : ∀ q chars, heap q = some (.text chars) → heap' q = some (.text chars)) :
    HoldsVi heap' p d := by
  obtain ⟨info, hinfo, henterprise, hip, houi, hserial, hproduct⟩ := h
  obtain ⟨next, hinfo'⟩ := hnode info hinfo
  exact ⟨{ info with next }, hinfo', henterprise, hip, houi.congr hsame,
    hserial.congr hsame, hproduct.congr hsame⟩

/-! ### The search -/

def ipAt (heap : Blocks ViCell) (p : Nat) : Option Nat :=
  match heap p with
  | some (.node info) => some info.ipAddr
  | _ => none

theorem ipAt_iff {ipAddr : Nat} :
    ipAt heap p = some ipAddr ↔ ∃ info, heap p = some (.node info) ∧ info.ipAddr = ipAddr := by
  unfold ipAt
  constructor
  · intro h
    split at h
    next info hinfo => exact ⟨info, hinfo, some_inj.mp h⟩
    · cases h
  · rintro ⟨info, hinfo, rfl⟩
    rw [hinfo]

theorem HoldsVi.ipAt (h : HoldsVi heap p d) : ipAt heap p = some d.ipAddr := by
  obtain ⟨info, hinfo, _, hip, _⟩ := h
  exact ipAt_iff.mpr ⟨info, hinfo, hip⟩

theorem link_iff :
    link ViCell.next heap p = some q ↔ ∃ info, heap p = some (.node info) ∧ info.next = q := by
  unfold link
  rw [bind_eq_some_iff]
  constructor
  · rintro ⟨cell, hcell, hnext⟩
    cases cell with
    | node info => exact ⟨info, hcell, some_inj.mp hnext⟩
    | text chars => cases hnext
  · rintro ⟨info, hinfo, rfl⟩
    exact ⟨.node info, hinfo, rfl⟩

/-- The search finds the first node with the address, if there are not more nodes than rounds. -/
theorem findVi_eq {ipAddr pPtr fuel : Nat}
    (hchain : Chain ViCell.next heap pPtr ps) (hfuel : ps.length ≤ fuel) :
    findVi heap ipAddr fuel pPtr = some (ps.find? fun p => ipAt heap p = some ipAddr) := by
  induction hchain generalizing fuel with
  | nil => cases fuel <;> rfl
  | @cons p q ps hp hlink _ ih =>
    obtain ⟨info, hinfo, rfl⟩ := link_iff.mp hlink
    cases fuel with
    | zero => simp at hfuel
    | succ fuel =>
      have hip : ipAt heap p = some info.ipAddr := ipAt_iff.mpr ⟨info, hinfo, rfl⟩
      rw [findVi, if_neg hp, hinfo]
      simp only [find?_cons, hip, some_inj]
      rcases Decidable.em (info.ipAddr = ipAddr) with hsame | hother
      · simp only [hsame, if_true, decide_true]
      · simp only [hother, if_false, decide_false]
        exact ih (Nat.le_of_succ_le_succ hfuel)

section Arrive
variable {s : ViInfoList}

private theorem store_chain (hfresh : a.Fresh s.heap) (hchain : Chain ViCell.next s.heap p ps) :
    Chain ViCell.next (a.store s.heap) p ps ∧ ∀ q ∈ ps, a.store s.heap q = s.heap q := by
  have hsame (q : Nat) (hq : q ∈ ps) : a.store s.heap q = s.heap q := by
    obtain ⟨_, r, hlink⟩ := hchain.linked hq
    obtain ⟨info, hinfo, _⟩ := link_iff.mp hlink
    rw [Arrival.store_live hfresh hinfo, hinfo]
  refine ⟨hchain.frame ?_, hsame⟩
  intro q hq
  simp only [link, hsame q hq]

theorem ViInfoList.arrive_eq (hchain : Chain ViCell.next s.heap s.pHead ps)
    (hcount : ps.length ≤ s.count) (hfresh : a.Fresh s.heap) :
    s.arrive a =
      match ps.find? fun p => ipAt s.heap p = some a.data.ipAddr with
      | some p =>
        some { s with heap := viInfoFree (write (a.store s.heap) p (.node a.info)) a.pNew a.info }
      | none =>
        if s.pHead = 0 then
          some ⟨a.store s.heap, s.count + 1, a.pNew, a.pNew⟩
        else
          match a.store s.heap s.pTail with
          | some (.node last) =>
            some ⟨write (a.store s.heap) s.pTail (.node { last with next := a.pNew }),
              s.count + 1, s.pHead, a.pNew⟩
          | _ => none := by
  obtain ⟨hstored, hsame⟩ := store_chain hfresh hchain
  have hfind : (ps.find? fun p => ipAt (a.store s.heap) p = some a.data.ipAddr) =
      ps.find? fun p => ipAt s.heap p = some a.data.ipAddr := by
    apply find?_congr
    intro q hq
    have hip : ipAt (a.store s.heap) q = ipAt s.heap q := by
      unfold ipAt
      rw [hsame q hq]
    simp only [hip]
  have hsearch : (if 0 < s.count then
      findVi (a.store s.heap) a.info.ipAddr s.count s.pHead else some none) =
      some (ps.find? fun p => ipAt s.heap p = some a.data.ipAddr) := by
    split
    · rw [findVi_eq hstored hcount, ← hfind]
      rfl
    · have hempty : ps = [] := length_eq_zero_iff.mp (by omega)
      rw [hempty]
      rfl
  unfold ViInfoList.arrive addViToList
  simp only [Arrival.store_pNew, hsearch]
  cases ps.find? fun p => ipAt s.heap p = some a.data.ipAddr with
  | none => rfl
  | some p => rfl

/-! ### Any run -/

/-- The list ends, has no more nodes than `count` says, and new nodes are linked to one that ends
a list. -/
structure ViInfoList.Linked (s : ViInfoList) (ps : List Nat) : Prop where
  null : s.heap 0 = none
  chain : Chain ViCell.next s.heap s.pHead ps
  bound : ps.length ≤ s.count
  tail : s.pHead ≠ 0 → link ViCell.next s.heap s.pTail = some 0

theorem Arrival.Fresh.ne {heap : Blocks ViCell} (hfresh : a.Fresh heap)
    (hp : heap p = some c) (hq : q ∈ a.places) : p ≠ q := by
  rintro rfl
  rw [(hfresh.unused p hq).2] at hp
  cases hp

theorem updated_heap (hfresh : a.Fresh s.heap) (hnull : s.heap 0 = none) (hp : s.heap p = some c) :
    let heap := viInfoFree (write (a.store s.heap) p (.node a.info)) a.pNew a.info
    heap p = some (.node a.info) ∧ ∀ q c', s.heap q = some c' → q ≠ p → heap q = some c' := by
  have hfreed (q : Nat) (c' : ViCell) (hq : s.heap q = some c') :
      viInfoFree (write (a.store s.heap) p (.node a.info)) a.pNew a.info q =
        write (a.store s.heap) p (.node a.info) q := by
    have hptr (place : Nat) (text : Option (List UInt8)) (hplace : place ∈ a.places) :
        q ≠ pointer place text := by
      unfold pointer
      split
      · exact hfresh.ne hq hplace
      rintro rfl
      rw [hnull] at hq
      cases hq
    apply viInfoFree_of_ne
    · exact hptr a.pOui a.data.oui (by simp [Arrival.places])
    · exact hptr a.pSerialNumber a.data.serialNumber (by simp [Arrival.places])
    · exact hptr a.pProductClass a.data.productClass (by simp [Arrival.places])
    · exact hfresh.ne hq (by simp [Arrival.places])
  constructor
  · rw [hfreed p c hp, write_self]
  · intro q c' hq hne
    rw [hfreed q c' hq, write_of_ne hne, Arrival.store_live hfresh hq]

theorem Arrival.Fresh.zero {heap : Blocks ViCell} (hfresh : a.Fresh heap) : 0 ∉ a.places :=
  fun hplace => (hfresh.unused 0 hplace).1 rfl

theorem updated_unused (hne : q ≠ p) (hplace : q ∉ a.places) (hq : s.heap q = none) :
    viInfoFree (write (a.store s.heap) p (.node a.info)) a.pNew a.info q = none := by
  have hwritten : write (a.store s.heap) p (.node a.info) q = none := by
    rw [write_of_ne hne, Arrival.store_other hplace, hq]
  exact free_eq_none (free_eq_none (free_eq_none (free_eq_none hwritten _) _) _) _

theorem node_of_mem {front back : List Nat}
    (hchain : Chain ViCell.next s.heap s.pHead (front ++ p :: back)) :
    p ≠ 0 ∧ ∃ info, s.heap p = some (.node info) := by
  obtain ⟨hp, r, hlink⟩ := hchain.linked (mem_append_right front mem_cons_self)
  obtain ⟨info, hinfo, _⟩ := link_iff.mp hlink
  exact ⟨hp, info, hinfo⟩

theorem ViInfoList.Linked.update {front back : List Nat}
    (h : s.Linked (front ++ p :: back)) (hfresh : a.Fresh s.heap) :
    ViInfoList.Linked
      { s with heap := viInfoFree (write (a.store s.heap) p (.node a.info)) a.pNew a.info }
      (front ++ [p]) := by
  obtain ⟨hp, info, hinfo⟩ := node_of_mem h.chain
  obtain ⟨hnode, hlive⟩ := updated_heap hfresh h.null hinfo
  have hlinkp : link ViCell.next
      (viInfoFree (write (a.store s.heap) p (.node a.info)) a.pNew a.info) p = some 0 :=
    link_iff.mpr ⟨a.info, hnode, rfl⟩
  have hlink (q r : Nat) (hq : link ViCell.next s.heap q = some r) (hne : q ≠ p) :
      link ViCell.next
        (viInfoFree (write (a.store s.heap) p (.node a.info)) a.pNew a.info) q = some r := by
    obtain ⟨info', hinfo', hnext⟩ := link_iff.mp hq
    exact link_iff.mpr ⟨info', hlive q _ hinfo' hne, hnext⟩
  constructor
  · exact updated_unused hp.symm hfresh.zero h.null
  · apply h.chain.relink _ hlinkp .nil
    intro x hx
    have hne : x ≠ p := h.chain.ne_of_before hx
    obtain ⟨_, r, hr⟩ := h.chain.linked (mem_append_left _ hx)
    rw [hr, hlink x r hr hne]
  · have hbound := h.bound
    simp only [length_append, length_cons, length_nil] at hbound ⊢
    omega
  · intro hhead
    rcases eq_or_ne s.pTail p with htail | htail
    · simp only [htail]
      exact hlinkp
    · exact hlink s.pTail 0 (h.tail hhead) htail

theorem ViInfoList.Linked.first (h : s.Linked ps) (hfresh : a.Fresh s.heap) :
    ViInfoList.Linked ⟨a.store s.heap, s.count + 1, a.pNew, a.pNew⟩ [a.pNew] := by
  have hlink : link ViCell.next (a.store s.heap) a.pNew = some 0 :=
    link_iff.mpr ⟨a.info, a.store_pNew s.heap, rfl⟩
  have hplace := (hfresh.unused a.pNew (by simp [Arrival.places])).1
  exact ⟨(Arrival.store_other hfresh.zero _).trans h.null, .cons hplace hlink .nil, by simp,
      fun _ => hlink⟩

theorem appended_heap (hfresh : a.Fresh s.heap) (hlast : s.heap s.pTail = some (.node last)) :
    let heap := write (a.store s.heap) s.pTail (.node { last with next := a.pNew })
    heap a.pNew = some (.node a.info) ∧
      heap s.pTail = some (.node { last with next := a.pNew }) ∧
      ∀ q c, s.heap q = some c → q ≠ s.pTail → heap q = some c := by
  have hne : a.pNew ≠ s.pTail := (hfresh.ne hlast (by simp [Arrival.places])).symm
  refine ⟨?_, write_self _ _ _, ?_⟩
  · rw [write_of_ne hne, a.store_pNew]
  · intro q c hq hother
    rw [write_of_ne hother, Arrival.store_live hfresh hq]

section

variable (h : s.Linked ps) (hfresh : a.Fresh s.heap)
include h hfresh

/-- A node linked behind `pTail`: it extends the list if `pTail` is in it. -/
theorem ViInfoList.Linked.append (hhead : s.pHead ≠ 0)
    (hlast : s.heap s.pTail = some (.node last)) :
    ViInfoList.Linked
      ⟨write (a.store s.heap) s.pTail (.node { last with next := a.pNew }), s.count + 1,
        s.pHead, a.pNew⟩
      (if s.pTail ∈ ps then ps ++ [a.pNew] else ps) := by
  obtain ⟨hnew, htail, hlive⟩ := appended_heap hfresh hlast
  have hplace := (hfresh.unused a.pNew (by simp [Arrival.places])).1
  have hpos : s.pTail ≠ 0 := by
    intro hzero
    rw [hzero, h.null] at hlast
    cases hlast
  have hlinkNew : link ViCell.next
      (write (a.store s.heap) s.pTail (.node { last with next := a.pNew })) a.pNew = some 0 :=
    link_iff.mpr ⟨a.info, hnew, rfl⟩
  have hlinkTail : link ViCell.next
      (write (a.store s.heap) s.pTail (.node { last with next := a.pNew })) s.pTail = some a.pNew :=
    link_iff.mpr ⟨_, htail, rfl⟩
  have hsame (q : Nat) (hq : q ∈ ps) (hne : q ≠ s.pTail) : link ViCell.next
      (write (a.store s.heap) s.pTail (.node { last with next := a.pNew })) q =
        link ViCell.next s.heap q := by
    obtain ⟨_, r, hr⟩ := h.chain.linked hq
    obtain ⟨info, hinfo, hnext⟩ := link_iff.mp hr
    rw [hr]
    exact link_iff.mpr ⟨info, hlive q _ hinfo hne, hnext⟩
  have hbound := h.bound
  refine ⟨?_, ?_, ?_, fun _ => hlinkNew⟩
  · exact (write_of_ne hpos.symm).trans ((Arrival.store_other hfresh.zero _).trans h.null)
  · split
    next hmem =>
      obtain ⟨front, back, rfl⟩ := append_of_mem hmem
      have hback : back = [] := h.chain.link_eq_zero_iff.mp (h.tail hhead)
      subst hback
      rw [append_assoc]
      apply h.chain.relink _ hlinkTail (.cons hplace hlinkNew .nil)
      intro x hx
      exact hsame x (mem_append_left _ hx) (h.chain.ne_of_before hx)
    next hmem =>
      apply h.chain.frame
      intro x hx
      exact hsame x hx (fun heq => hmem (heq ▸ hx))
  · split
    · simp only [length_append, length_cons, length_nil]
      omega
    · simp only
      omega

theorem ViInfoList.Linked.arrive : ∃ s' ps', s.arrive a = some s' ∧ s'.Linked ps' := by
  rw [ViInfoList.arrive_eq h.chain h.bound hfresh]
  cases hfind : ps.find? fun p => ipAt s.heap p = some a.data.ipAddr with
  | some p =>
    obtain ⟨front, back, rfl⟩ := append_of_mem (mem_of_find?_eq_some hfind)
    exact ⟨_, _, rfl, h.update hfresh⟩
  | none =>
    rcases eq_or_ne s.pHead 0 with hhead | hhead
    · simp only [if_pos hhead]
      exact ⟨_, _, rfl, h.first hfresh⟩
    · obtain ⟨last, hlast, _⟩ := link_iff.mp (h.tail hhead)
      simp only [if_neg hhead, Arrival.store_live hfresh hlast]
      exact ⟨_, _, rfl, h.append hfresh hhead hlast⟩

theorem ViInfoList.Linked.arrive_unused {s' : ViInfoList} (harrive : s.arrive a = some s')
    (hplace : p ∉ a.places) (hp : s.heap p = none) : s'.heap p = none := by
  have hne (q : Nat) (c : ViCell) (hq : s.heap q = some c) : p ≠ q := by
    rintro rfl
    rw [hp] at hq
    cases hq
  rw [ViInfoList.arrive_eq h.chain h.bound hfresh] at harrive
  cases hfind : ps.find? fun p => ipAt s.heap p = some a.data.ipAddr with
  | some q =>
    obtain ⟨front, back, rfl⟩ := append_of_mem (mem_of_find?_eq_some hfind)
    obtain ⟨_, info, hinfo⟩ := node_of_mem h.chain
    rw [hfind] at harrive
    cases harrive
    exact updated_unused (hne q _ hinfo) hplace hp
  | none =>
    rw [hfind] at harrive
    rcases eq_or_ne s.pHead 0 with hhead | hhead
    · simp only [if_pos hhead] at harrive
      cases harrive
      exact (Arrival.store_other hplace _).trans hp
    · obtain ⟨last, hlast, _⟩ := link_iff.mp (h.tail hhead)
      simp only [if_neg hhead, Arrival.store_live hfresh hlast] at harrive
      cases harrive
      exact (write_of_ne (hne _ _ hlast)).trans ((Arrival.store_other hplace _).trans hp)

end

end Arrive

end EchoLife.Dhcp
